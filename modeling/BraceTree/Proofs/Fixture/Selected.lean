import Mathlib.Data.List.TakeWhile
import Mathlib.Data.List.Sublists
import BraceTree.Command.Test
import BraceTree.Proofs.Text.Trim

/-!
# Which categories are chosen, and which requests are called not found

Requests are served one after another, and each adds the categories that meet it to those that are
chosen already (`serve_met`). The order of the requests is lost in what is chosen, and so are their
repetitions: a category is chosen if it meets some request.

Whether a request is found is not read off the categories that meet it, though, but off the number
of the chosen ones before and after it. A request is therefore called not found as well if all of
its categories are there already (`AddsNothing`): when it comes twice, or after one for a folder
around it. The name of such a category stands in its own warning, among those that are available.
Only where each request that a category meets adds one are the warnings those for the requests that
no category meets (`idle_eq_unmet_iff`), and otherwise there are more of them.
-/

namespace BraceTree.Category

variable {all cs ds : List Category} {c d : Category} {requests earlier : List String}
  {name file request : String} {wanted : Text}

/-! ## Categories in order -/

/-- The categories are in order of their names, and no two have one name. -/
def Ordered (all : List Category) : Prop := all.Pairwise fun c d => c.name < d.name

/-- A file adds no name but that of its category. -/
theorem name_of_mem_insert (hd : d ∈ insert name file cs) :
    d.name = name ∨ ∃ c ∈ cs, d.name = c.name := by
  induction cs with
  | nil => exact .inl (List.mem_singleton.mp hd ▸ rfl)
  | cons c cs ih =>
    rw [insert] at hd
    split at hd
    · rcases List.mem_cons.mp hd with rfl | hd
      · exact .inr ⟨c, List.mem_cons_self, rfl⟩
      · exact .inr ⟨d, List.mem_cons_of_mem _ hd, rfl⟩
    · split at hd
      · rcases List.mem_cons.mp hd with rfl | hd
        · exact .inl rfl
        · exact .inr ⟨d, hd, rfl⟩
      · rcases List.mem_cons.mp hd with rfl | hd
        · exact .inr ⟨d, List.mem_cons_self, rfl⟩
        · rcases ih hd with hname | ⟨c', hc', hname⟩
          · exact .inl hname
          · exact .inr ⟨c', List.mem_cons_of_mem _ hc', hname⟩

theorem Ordered.insert (h : Ordered cs) (name file : String) :
    Ordered (insert name file cs) := by
  induction cs with
  | nil => exact List.pairwise_singleton ..
  | cons c cs ih =>
    obtain ⟨hc, hcs⟩ := List.pairwise_cons.mp h
    rw [Category.insert]
    split
    · exact List.pairwise_cons.mpr ⟨hc, hcs⟩
    · next hne =>
      split
      · next hlt =>
        refine List.pairwise_cons.mpr ⟨fun d hd => ?_, h⟩
        rcases List.mem_cons.mp hd with rfl | hd
        · exact hlt
        · exact String.lt_trans hlt (hc d hd)
      · next hnlt =>
        refine List.pairwise_cons.mpr ⟨fun d hd => ?_, ih hcs⟩
        rcases name_of_mem_insert hd with hname | ⟨c', hc', hname⟩
        · rw [hname]
          exact String.not_le.mp fun hle => hne (String.le_antisymm hle hnlt)
        · exact hname ▸ hc c' hc'

/-- **The categories of any files are in order.** -/
theorem ordered_group (files : List (String × String)) : Ordered (group files) := by
  suffices h : ∀ cs, Ordered cs → Ordered (files.foldl (fun cs f => insert f.1 f.2 cs) cs) from
    h [] .nil
  induction files with
  | nil => exact fun _ h => h
  | cons f files ih => exact fun cs h => ih _ (h.insert f.1 f.2)

/-! ## What a request asks for -/

/-- A request asks for a text if this is what is left of it without the slashes at either end. -/
structure AsksFor (request : String) (wanted : Text) : Prop where
  /-- There are only slashes around the text. -/
  between : ∃ before after, request.toList =
    List.replicate before '/' ++ (wanted ++ List.replicate after '/')
  /-- The text does not begin with a slash. -/
  head : wanted.head? ≠ some '/'
  /-- It does not end with one. -/
  last : wanted.getLast? ≠ some '/'

theorem exists_slashes (t : Text) :
    ∃ n, t = List.replicate n '/' ++ t.dropWhile (· == '/') := by
  have hrun : t.takeWhile (· == '/') = List.replicate (t.takeWhile (· == '/')).length '/' :=
    List.eq_replicate_of_mem fun a ha => beq_iff_eq.mp (List.mem_takeWhile_imp (p := (· == '/')) ha)
  exact ⟨_, (List.takeWhile_append_dropWhile).symm.trans (congrArg (· ++ _) hrun)⟩

/-- **A request asks for one text**, the one that is made of it. -/
theorem asksFor_iff : AsksFor request wanted ↔ trimSlashes request = wanted := by
  constructor
  · rintro ⟨⟨before, after, hbetween⟩, hhead, hlast⟩
    rw [trimSlashes, hbetween]
    cases wanted with
    | nil =>
      -- all of it is slashes, and there is no telling where they are cut
      have hall := Text.dropWhile_replicate_append (a := '/') (t := []) (by decide) (before + after)
      rw [List.append_nil, List.replicate_add] at hall
      rw [List.nil_append, hall]
      rfl
    | cons a wanted =>
      rw [Text.dropWhile_replicate_append (t := a :: wanted ++ _) hhead, List.reverse_append,
        List.reverse_replicate, Text.dropWhile_replicate_append, List.reverse_reverse]
      rwa [List.head?_reverse]
  · rintro rfl
    rw [trimSlashes]
    obtain ⟨before, hbefore⟩ := exists_slashes request.toList
    have hhead := Text.head?_dropWhile_ne '/' request.toList
    generalize request.toList.dropWhile (· == '/') = t at hbefore hhead
    obtain ⟨after, hafter⟩ := exists_slashes t.reverse
    have hlast := Text.head?_dropWhile_ne '/' t.reverse
    generalize t.reverse.dropWhile (· == '/') = u at hafter hlast
    have ht : t = u.reverse ++ List.replicate after '/' := by
      rw [← List.reverse_replicate, ← List.reverse_append, ← hafter, List.reverse_reverse]
    refine ⟨⟨before, after, ht ▸ hbefore⟩, fun h => hhead ?_, by rwa [List.getLast?_reverse]⟩
    rw [ht, List.head?_append, h, Option.some_or]

/-- A category meets a request if it is what the request asks for or lies below it. -/
def Meets (request : String) (c : Category) : Prop :=
  ∃ wanted, AsksFor request wanted ∧
    (c.name.toList = wanted ∨ ∃ below, c.name.toList = wanted ++ '/' :: below)

theorem isIn_iff : isIn wanted c = true ↔
    c.name.toList = wanted ∨ ∃ below, c.name.toList = wanted ++ '/' :: below := by
  rw [isIn, Bool.or_eq_true, beq_iff_eq, List.isPrefixOf_iff_prefix]
  refine or_congr_right (exists_congr fun below => ?_)
  rw [List.append_assoc, List.singleton_append]
  exact eq_comm

theorem meets_iff : Meets request c ↔ isIn (trimSlashes request) c = true := by
  rw [isIn_iff, Meets]
  exact ⟨fun ⟨_, hasks, hin⟩ => asksFor_iff.mp hasks ▸ hin,
    fun hin => ⟨_, asksFor_iff.mpr rfl, hin⟩⟩

instance : Decidable (Meets request c) := decidable_of_iff' _ meets_iff

/-! ## Serving a request -/

theorem choose_of_lt (h : ∀ d ∈ ds, c.name < d.name) : choose c ds = c :: ds := by
  cases ds with
  | nil => rfl
  | cons d ds =>
    have hlt := h d List.mem_cons_self
    have hne : c.name ≠ d.name := fun heq => String.lt_irrefl d.name (heq ▸ hlt)
    rw [choose, if_neg hne, if_pos hlt]

theorem choose_cons_of_gt (h : d.name < c.name) : choose c (d :: ds) = d :: choose c ds := by
  have hne : c.name ≠ d.name := fun heq => String.lt_irrefl d.name (heq ▸ h)
  have hnlt : ¬c.name < d.name := fun hlt => String.lt_irrefl _ (String.lt_trans h hlt)
  rw [choose, if_neg hne, if_neg hnlt]

/-- Adding a category to some of those in a map. -/
theorem choose_filter (h : Ordered all) (hc : c ∈ all) (q : Category → Bool) :
    choose c (all.filter q) = all.filter fun d => q d || d == c := by
  induction all with
  | nil => cases hc
  | cons a all ih =>
    obtain ⟨ha, hall⟩ := List.pairwise_cons.mp h
    rw [List.filter_cons, List.filter_cons]
    rcases List.mem_cons.mp hc with rfl | hc
    · -- the category comes first, and it is not met again
      have hrest : (all.filter fun d => q d || d == c) = all.filter q := by
        refine List.filter_congr fun d hd => ?_
        have hne : d ≠ c := fun heq => String.lt_irrefl c.name (heq ▸ ha d hd)
        rw [beq_eq_false_iff_ne.mpr hne, Bool.or_false]
      rw [beq_self_eq_true, Bool.or_true, if_pos rfl, hrest]
      split
      · rw [choose, if_pos rfl]
      · exact choose_of_lt fun d hd => ha d (List.mem_of_mem_filter hd)
    · have hlt := ha c hc
      have hne : a ≠ c := fun heq => String.lt_irrefl a.name (heq ▸ hlt)
      rw [beq_eq_false_iff_ne.mpr hne, Bool.or_false]
      split
      · rw [choose_cons_of_gt hlt, ih hall hc]
      · exact ih hall hc

/-- Adding several of them. -/
theorem foldl_choose (h : Ordered all) (hcs : ∀ c ∈ cs, c ∈ all) (q : Category → Bool) :
    cs.foldl (fun ds c => choose c ds) (all.filter q) =
      all.filter fun d => q d || cs.contains d := by
  induction cs generalizing q with
  | nil => simp
  | cons c cs ih =>
    rw [List.foldl_cons, choose_filter h (hcs c List.mem_cons_self),
      ih fun c hc => hcs c (List.mem_cons_of_mem _ hc)]
    refine List.filter_congr fun d _ => ?_
    rw [List.contains_cons, Bool.or_assoc]

/-- The categories of a map that meet some of the requests. -/
def met (all : List Category) (requests : List String) : List Category :=
  all.filter fun c => ∃ r ∈ requests, Meets r c

theorem mem_met : c ∈ met all requests ↔ c ∈ all ∧ ∃ r ∈ requests, Meets r c := by
  rw [met, List.mem_filter, decide_eq_true_iff]

/-- A category meets some request if it meets an earlier one or the last one. -/
theorem exists_meets_concat :
    (∃ r ∈ earlier ++ [request], Meets r c) ↔ (∃ r ∈ earlier, Meets r c) ∨ Meets request c := by
  constructor
  · rintro ⟨r, hr, hmeets⟩
    rcases List.mem_append.mp hr with hr | hr
    · exact .inl ⟨r, hr, hmeets⟩
    · exact .inr (List.mem_singleton.mp hr ▸ hmeets)
  · rintro (⟨r, hr, hmeets⟩ | hmeets)
    · exact ⟨r, List.mem_append_left _ hr, hmeets⟩
    · exact ⟨request, List.mem_concat_self, hmeets⟩

/-- Adding what one more request asks for. -/
theorem foldl_choose_met (h : Ordered all) (earlier : List String) (request : String) :
    (all.filter (isIn (trimSlashes request))).foldl (fun cs c => choose c cs) (met all earlier) =
      met all (earlier ++ [request]) := by
  rw [met, foldl_choose h fun c hc => List.mem_of_mem_filter hc]
  refine List.filter_congr fun c hc => ?_
  rw [Bool.eq_iff_iff, Bool.or_eq_true, decide_eq_true_iff, decide_eq_true_iff,
    exists_meets_concat, List.contains_iff_mem, List.mem_filter, and_iff_right hc, ← meets_iff]

/-- A request adds nothing if all categories that meet it meet an earlier one too. -/
def AddsNothing (all : List Category) (earlier : List String) (request : String) : Prop :=
  ∀ c ∈ all, Meets request c → ∃ r ∈ earlier, Meets r c

instance : Decidable (AddsNothing all earlier request) :=
  inferInstanceAs (Decidable (∀ c ∈ all, Meets request c → ∃ r ∈ earlier, Meets r c))

theorem AddsNothing.met_concat (h : AddsNothing all earlier request) :
    met all (earlier ++ [request]) = met all earlier := by
  refine List.filter_congr fun c hc => decide_eq_decide.mpr ?_
  rw [exists_meets_concat]
  exact or_iff_left_of_imp (h c hc)

/-- **The number of the chosen ones tells whether a request adds any**, as none is given up. -/
theorem length_met_concat_iff : (met all (earlier ++ [request])).length = (met all earlier).length ↔
    AddsNothing all earlier request := by
  refine ⟨fun hlength c hc hmeets => ?_, fun h => congrArg _ h.met_concat⟩
  have hsub : (met all earlier).Sublist (met all (earlier ++ [request])) :=
    List.monotone_filter_right _ fun c hc =>
      decide_eq_true (exists_meets_concat.mpr (.inl (of_decide_eq_true hc)))
  have hmem : c ∈ met all (earlier ++ [request]) :=
    mem_met.mpr ⟨hc, exists_meets_concat.mpr (.inr hmeets)⟩
  rw [← hsub.eq_of_length hlength.symm] at hmem
  exact (mem_met.mp hmem).2

/-- **What serving one more request does.** -/
theorem serve_met (h : Ordered all) (earlier : List String) (request : String)
    (notFound : List String) :
    serve all ⟨met all earlier, notFound⟩ request =
      ⟨met all (earlier ++ [request]), if AddsNothing all earlier request then
        notFound ++ [String.ofList (trimSlashes request)] else notFound⟩ := by
  rw [serve]
  simp only [foldl_choose_met h]
  by_cases hadds : AddsNothing all earlier request
  · rw [if_pos (length_met_concat_iff.mpr hadds), if_pos hadds, hadds.met_concat]
  · rw [if_neg (mt length_met_concat_iff.mp hadds), if_neg hadds]

/-! ## Serving all requests -/

/-- The requests that add nothing to what those before them chose, in order. -/
def idle (all : List Category) (requests : List String) : List String :=
  (requests.zipIdx.filter fun p => AddsNothing all (requests.take p.2) p.1).map (·.1)

theorem idle_concat (all : List Category) (earlier : List String) (request : String) :
    idle all (earlier ++ [request]) =
      idle all earlier ++ if AddsNothing all earlier request then [request] else [] := by
  rw [idle, List.zipIdx_append, List.filter_append, List.map_append]
  refine congrArg₂ (· ++ ·) (congrArg _ (List.filter_congr fun p hp => ?_)) ?_
  · have hlt := List.snd_lt_of_mem_zipIdx hp
    rw [List.take_append_of_le_length (by omega)]
  · have htake : (earlier ++ [request]).take earlier.length = earlier := List.take_left
    rw [List.zipIdx_singleton, Nat.zero_add, List.filter_singleton, htake]
    by_cases hadds : AddsNothing all earlier request
    · rw [decide_eq_true hadds, if_pos hadds]
      rfl
    · rw [decide_eq_false hadds, if_neg hadds]
      rfl

/-- **What serving some requests does.** -/
theorem foldl_serve (h : Ordered all) (requests : List String) :
    requests.foldl (serve all) ⟨[], []⟩ =
      ⟨met all requests, (idle all requests).map fun r => String.ofList (trimSlashes r)⟩ := by
  induction requests using List.reverseRecOn with
  | nil =>
    have hnone : met all [] = [] := List.filter_eq_nil_iff.mpr (by simp)
    rw [hnone]
    rfl
  | append_singleton requests request ih =>
    rw [List.foldl_concat, ih, serve_met h, idle_concat]
    split <;> simp

/-- **What is chosen, with the requests that are called not found.** -/
theorem select_of_ordered (h : Ordered all) (requests : List String) :
    select all requests =
      ⟨all.filter (fun c => requests = [] ∨ ∃ r ∈ requests, Meets r c),
        (idle all requests).map fun r => String.ofList (trimSlashes r)⟩ := by
  cases requests with
  | nil =>
    have hall : (all.filter fun c => [] = ([] : List String) ∨ ∃ r ∈ [], Meets r c) = all :=
      List.filter_eq_self.mpr fun c _ => decide_eq_true (.inl rfl)
    rw [hall]
    rfl
  | cons r rs =>
    rw [select, List.isEmpty_cons, if_neg Bool.false_ne_true, foldl_serve h]
    refine congrArg (Selection.mk · _) (List.filter_congr fun c _ => decide_eq_decide.mpr ?_)
    exact (or_iff_right (List.cons_ne_nil r rs)).symm

/-! ## Requests that are called not found -/

/-- The requests that no category of a map meets. -/
def unmet (all : List Category) (requests : List String) : List String :=
  requests.filter fun r => ∀ c ∈ all, ¬Meets r c

theorem unmet_eq_zipIdx (all : List Category) (requests : List String) :
    unmet all requests =
      (requests.zipIdx.filter fun p => ∀ c ∈ all, ¬Meets p.1 c).map (·.1) := by
  rw [unmet]
  conv_lhs => rw [← List.zipIdx_map_fst 0 requests]
  exact List.filter_map

/-- What no category meets adds nothing. -/
theorem sublist_zipIdx_unmet_idle (all : List Category) (requests : List String) :
    (requests.zipIdx.filter fun p => ∀ c ∈ all, ¬Meets p.1 c).Sublist
      (requests.zipIdx.filter fun p => AddsNothing all (requests.take p.2) p.1) :=
  List.monotone_filter_right _ fun _ hp => decide_eq_true fun c hc hmeets =>
    absurd hmeets (of_decide_eq_true hp c hc)

/-- **When the idle requests are the unmet ones**: when every request that some category meets is
the first one that one of its categories meets. -/
theorem idle_eq_unmet_iff : idle all requests = unmet all requests ↔
    ∀ p ∈ requests.zipIdx, (∃ c ∈ all, Meets p.1 c) →
      ∃ c ∈ all, Meets p.1 c ∧ ∀ r ∈ requests.take p.2, ¬Meets r c := by
  have hsub := sublist_zipIdx_unmet_idle all requests
  rw [unmet_eq_zipIdx, idle]
  constructor
  · intro heq p hp hmet
    by_contra hnone
    have hidle : AddsNothing all (requests.take p.2) p.1 := fun c hc hmeets => by
      by_contra hno
      exact hnone ⟨c, hc, hmeets, fun r hr hr' => hno ⟨r, hr, hr'⟩⟩
    have hlength := congrArg List.length heq
    rw [List.length_map, List.length_map] at hlength
    have hmem : p ∈ requests.zipIdx.filter fun p => AddsNothing all (requests.take p.2) p.1 :=
      List.mem_filter.mpr ⟨hp, decide_eq_true hidle⟩
    rw [← hsub.eq_of_length hlength.symm] at hmem
    obtain ⟨c, hc, hmeets⟩ := hmet
    exact of_decide_eq_true (List.mem_filter.mp hmem).2 c hc hmeets
  · intro hfirst
    refine congrArg _ (List.filter_congr fun p hp => decide_eq_decide.mpr ⟨fun hidle => ?_, ?_⟩)
    · intro c hc hmeets
      obtain ⟨d, hd, hmeets', hnew⟩ := hfirst p hp ⟨c, hc, hmeets⟩
      obtain ⟨r, hr, hr'⟩ := hidle d hd hmeets'
      exact hnew r hr hr'
    · exact fun hunmet c hc hmeets => absurd hmeets (hunmet c hc)

/-- The line that calls a request not found. -/
def warning (all : List Category) (request : String) : Command.Output :=
  let wanted := String.ofList (trimSlashes request)
  let available := ", ".intercalate (all.map (·.label))
  Command.errLine s!"warning: category '{wanted}' not found (available: {available})"

/-- **What is chosen, and what is called not found.** Out of a map of categories those are chosen
that meet one of the requests, or all of them if there are no requests, each once and as it is in
the map. A line is written for each request that adds nothing to what those before it chose. All
requests that no category meets are among them, and they are the only ones exactly if every request
that some category meets is the first one that one of its categories meets. -/
theorem select_eq_of_ordered (h : Ordered all) (requests : List String) :
    (select all requests).chosen =
      all.filter (fun c => requests = [] ∨ ∃ r ∈ requests, Meets r c) ∧
    Command.notFoundOutput all (select all requests).notFound =
      (idle all requests).map (warning all) ∧
    (unmet all requests).Sublist (idle all requests) ∧
    (idle all requests = unmet all requests ↔
      ∀ p ∈ requests.zipIdx, (∃ c ∈ all, Meets p.1 c) →
        ∃ c ∈ all, Meets p.1 c ∧ ∀ r ∈ requests.take p.2, ¬Meets r c) := by
  rw [select_of_ordered h]
  refine ⟨rfl, ?_, ?_, idle_eq_unmet_iff⟩
  · rw [Command.notFoundOutput, List.map_map]
    rfl
  · rw [unmet_eq_zipIdx, idle]
    exact (sublist_zipIdx_unmet_idle all requests).map _

/-- A folder, one in it, and one whose name only begins in the same way. -/
def folders : List Category :=
  group [("a/b", "t/a/b/1.test.shs"), ("ab", "t/ab/2.test.shs"), ("a", "t/a/3.test.shs")]

/-- The folder inside is there already when it is asked for, and what is asked for last was asked
for before. -/
theorem select_eq_of_ordered_of_folders :
    (select folders ["/a/", "a/b", "z", "a"]).chosen =
        [⟨"a", ["t/a/3.test.shs"]⟩, ⟨"a/b", ["t/a/b/1.test.shs"]⟩] ∧
      Command.notFoundOutput folders (select folders ["/a/", "a/b", "z", "a"]).notFound =
        [.err "warning: category 'a/b' not found (available: a, a/b, ab)\n",
          .err "warning: category 'z' not found (available: a, a/b, ab)\n",
          .err "warning: category 'a' not found (available: a, a/b, ab)\n"] ∧
      unmet folders ["/a/", "a/b", "z", "a"] = ["z"] := by
  obtain ⟨hchosen, hnotFound, -, -⟩ :=
    select_eq_of_ordered (ordered_group _ : Ordered folders) ["/a/", "a/b", "z", "a"]
  exact ⟨hchosen.trans (by decide +kernel), hnotFound.trans (by decide +kernel), by decide +kernel⟩

end BraceTree.Category
