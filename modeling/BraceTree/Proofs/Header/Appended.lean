import BraceTree.Proofs.Header.Headed
import BraceTree.Proofs.Hierarchy.Appended

/-!
# Headers when a source goes on

A header is looked for between the start of the body around its block and the brace of the block, so
the headers of a source stay where they are when the source goes on. The other way round there is
one case where the new text could reach back into the source: its first block could take the last
line of the source for its header. It does not if the new text says something before that block
(`Text.SaysFirst`), since the search for a header on a line above ends at the first line that is not
blank. Then all headers of the new text stand in it (`Continues.lt_headerSpan_start`).
-/

namespace BraceTree

namespace Text

/-- **A text says something before its first block**, if it has one. -/
def SaysFirst (t : Text) : Prop :=
  ∀ b ∈ (Brace.ofSource t).head?, isBlankText (slice t ⟨0, b.offset⟩) = false

theorem afterLast_append (sep : Char) (a b : Text) :
    afterLast sep (a ++ sep :: b) = afterLast sep b := by
  rw [afterLast, afterLast, List.reverse_append, List.reverse_cons, List.append_assoc,
    List.singleton_append, List.takeWhile_append, List.takeWhile_cons_of_neg (by simp),
    List.append_nil]
  split
  · rename_i hall
    rw [(List.takeWhile_prefix (· != sep)).eq_of_length hall]
  · rfl

/-- Blanks at the end of a text that is not blank are taken off that text alone. -/
theorem trimEnd_append_of_not_blank {b : Text} (a : Text) (hb : isBlankText b = false) :
    trimEnd (a ++ b) = a ++ trimEnd b := by
  have hne : b.reverse.dropWhile isBlank ≠ [] := fun hnil => by
    rw [List.dropWhile_eq_nil_iff] at hnil
    refine Bool.false_ne_true (hb.symm.trans (List.all_eq_true.mpr fun c hc => ?_))
    exact hnil c (List.mem_reverse.mpr hc)
  rw [trimEnd, trimEnd, List.reverse_append, List.dropWhile_append, if_neg (by simpa using hne),
    List.reverse_append, List.reverse_reverse]

end Text

namespace Header

variable {source further : Text} {floor brace : Nat} {h : Header}

/-- **A header is found where it was found** before the source went on. -/
theorem find?_append (hfloor : Text.Border source floor) (hbrace : Text.Border source brace)
    (further : Text) : find? (source ++ further) floor brace = find? source floor brace := by
  rw [find?, find?, Text.slice_append_left hfloor hbrace]

/-- A header at the end of a text stands on its last line. -/
theorem lt_start_of_atEnd? {lo : Nat} {x y : Text}
    (hfound : atEnd? (lo + Text.bytes (x ++ '\n' :: y)) (x ++ '\n' :: y) = some h) :
    lo + x.bytes < h.span.start := by
  unfold atEnd? at hfound
  rw [Text.afterLast_append] at hfound
  dsimp only at hfound
  obtain ⟨pre, hpre⟩ := Text.exists_append_afterLast '\n' y
  obtain ⟨rest, hrest⟩ := exists_append_tail (Text.afterLast '\n' y)
  rw [hrest] at hpre
  have hbytes := congrArg Text.bytes hpre
  rw [Text.bytes_append, Text.bytes_append] at hbytes
  split at hfound
  · cases hfound
  · obtain rfl := Option.some.inj hfound
    rw [Text.bytes_append_newline]
    simp only
    omega

/-- **A header does not stand above the last line that is not blank.** -/
theorem lt_start_of_find? {x y : Text} (hy : Text.isBlankText y = false)
    (hbefore : Text.slice source ⟨0, brace⟩ = x ++ '\n' :: y)
    (hbrace : Text.bytes (x ++ '\n' :: y) = brace) (hfound : find? source 0 brace = some h) :
    x.bytes < h.span.start := by
  subst hbrace
  rw [find?, hbefore] at hfound
  cases hhere : atEnd? (Text.bytes (x ++ '\n' :: y)) (x ++ '\n' :: y) with
  | some h' =>
    rw [hhere] at hfound
    obtain rfl := Option.some.inj hfound
    rw [← Nat.zero_add (Text.bytes _)] at hhere
    rw [← Nat.zero_add x.bytes]
    exact lt_start_of_atEnd? hhere
  | none =>
    rw [hhere] at hfound
    replace hfound : above? 0 (x ++ '\n' :: y) = some h := hfound
    unfold above? at hfound
    split at hfound
    · have habove := (Option.mem_filter_iff.mp hfound).1
      rw [List.append_cons, Text.trimEnd_append_of_not_blank _ hy, ← List.append_cons] at habove
      rw [← Nat.zero_add x.bytes]
      exact lt_start_of_atEnd? habove
    · cases hfound

end Header

/-- Such a text says something before all of its blocks. -/
theorem Text.SaysFirst.exists_text {t : Text} (htext : SaysFirst t) {b : Brace}
    (hb : b ∈ Brace.ofSource t) :
    ∃ y z, t = y ++ z ∧ y.bytes = b.offset ∧ isBlankText y = false := by
  obtain ⟨first, rest, hfirst⟩ := List.exists_cons_of_ne_nil (List.ne_nil_of_mem hb)
  have hmem : first ∈ Brace.ofSource t := hfirst ▸ List.mem_cons_self
  have hblank := htext first (by rw [hfirst]; rfl)
  have hle : first.offset ≤ b.offset := by
    have hsorted : Brace.Sorted (Brace.ofSource t) := Brace.ofGlyphs_sorted _ _
    rw [hfirst] at hb hsorted
    rcases List.mem_cons.mp hb with rfl | hb
    · exact Nat.le_refl _
    · exact Nat.le_of_lt ((List.pairwise_cons.mp hsorted).1 b hb)
  obtain ⟨a, m, c, rfl, ha, hm⟩ := (Brace.border hmem).exists_text (Brace.border hb) hle
  rw [← ha, slice_zero_append] at hblank
  refine ⟨a ++ m, c, (List.append_assoc a m c).symm, (bytes_append a m).trans hm, ?_⟩
  rw [isBlankText, List.all_append, ← isBlankText, hblank, Bool.false_and]

/-- **Before a brace of the new text there is text of it that is not blank.** -/
theorem Text.SaysFirst.exists_before {source further : Text} (htext : SaysFirst further) {b : Brace}
    (hb : b ∈ Brace.ofSource (source ++ '\n' :: further)) (hlt : source.bytes < b.offset) :
    ∃ y, isBlankText y = false ∧
      slice (source ++ '\n' :: further) ⟨0, b.offset⟩ = source ++ '\n' :: y ∧
      bytes (source ++ '\n' :: y) = b.offset := by
  rw [Brace.ofSource_append, List.mem_append] at hb
  rcases hb with hb | hb
  · have := Brace.offset_lt_of_mem_ofSource hb
    omega
  · obtain ⟨d, hd, rfl⟩ := List.mem_map.mp hb
    obtain ⟨y, z, rfl, hbytes, hblank⟩ := htext.exists_text hd
    have hall : bytes (source ++ '\n' :: y) = d.offset + (source.bytes + 1) := by
      rw [bytes_append_newline, hbytes]
      omega
    refine ⟨y, hblank, ?_, hall⟩
    show slice _ ⟨0, d.offset + (source.bytes + 1)⟩ = _
    rw [← hall, ← List.cons_append, ← List.append_assoc]
    exact slice_zero_append _ z

namespace BlockTree

namespace Continues

variable {source further : Text} {t t' : BlockTree} (h : Continues source further t t')
  (hg : Grows t t') {c : Nat}

include h hg

/-- The verdict on a block is the same. -/
theorem verdict_eq (hr : c ≠ root) (hc : c < t.size) :
    t'.verdict (source ++ '\n' :: further) (t'.get c) = t.verdict source (t.get c) := by
  obtain ⟨p, hp, hpar⟩ := h.bracketed.exists_parent hr hc
  have hfloor := (h.bracketed.fresh_body_start hp).border
  have hbrace : Text.Border source (t.get c).span.start :=
    Brace.border (h.bracketed.matched hr hc).open_mem
  have hbody : (t'.get p).body.start = (t.get p).body.start := by
    by_cases hpr : p = root
    · rw [hpr, h.bracketed.root_body, h.bracketed'.root_body]
    · rw [hg.get_eq hpr hp]
  rw [hg.get_eq hr hc, verdict, verdict, hpar]
  dsimp only
  rw [hbody, Header.find?_append hfloor hbrace]

/-- **Blocks get the kinds and headers they had.** -/
theorem grows_classify :
    Grows (t.classify source) (t'.classify (source ++ '\n' :: further)) where
  size_le := by
    rw [size_classify, size_classify]
    exact hg.size_le
  get_eq := fun {i} hr hi => by
    rw [size_classify] at hi
    rw [get_classify, get_classify, h.verdict_eq hg hr hi, hg.get_eq hr hi]
  scope_root := by
    rw [scope_classify, scope_classify]
    exact hg.scope_root
  calls_root := by
    rw [calls_classify, calls_classify]
    exact hg.calls_root
  exists_children := by
    rw [children_classify, children_classify, size_classify]
    exact hg.exists_children
  behind := fun {i} hi hlt => by
    rw [size_classify] at hi hlt
    rw [span_classify, span_classify]
    exact hg.behind hi hlt

/-- **The headers of the new text stand behind the newline**, if it says something before its first
block. -/
theorem lt_headerSpan_start (htext : Text.SaysFirst further) (hc : t.size ≤ c) (hlt : c < t'.size) :
    source.bytes < ((t'.classify (source ++ '\n' :: further)).get c).headerSpan.start := by
  have hr : c ≠ root := h.bracketed.ne_root_of_size_le hc
  obtain ⟨p, hp, hpar⟩ := h.bracketed'.exists_parent hr hlt
  have hbehind := h.behind hc hlt
  rcases hg.rim_parent h.bracketed.toNested h.bracketed'.toNested hc hpar with hpr | hpnew
  · -- right under the root the search for a header goes back to the start of the source
    rw [headerSpan_classify hpar]
    rcases verdict_cases (source ++ '\n' :: further) hpar with ⟨header, hfound, hverdict⟩ | hverdict
    · obtain ⟨y, hy, hbefore, hbytes⟩ :=
        htext.exists_before (h.bracketed'.matched hr hlt).open_mem hbehind
      rw [hpr, h.bracketed'.root_body] at hfound
      rw [hverdict, Header.span_verdict]
      exact Header.lt_start_of_find? hy hbefore hbytes hfound
    · rw [hverdict]
      exact hbehind
  · -- in a new block it goes back to the brace of that block
    have hfloor := h.bracketed'.floor_le_classify hlt hpar
    have hpr : p ≠ root := h.bracketed.ne_root_of_size_le hpnew
    have := h.behind hpnew hp
    rw [(h.bracketed'.body_eq hpr hp).2] at hfloor
    simp only at hfloor
    omega

end Continues

/-! ## What is reported -/

/-- What is wrong with a header is reported where it stands. -/
theorem filter_toList_map {stop : Nat} {s : Span} (o : Option Problem) :
    (o.map fun p => (⟨p, s⟩ : Finding)).toList.filter (fun f => f.span.start ≤ stop) =
      if s.start ≤ stop then (o.map fun p => (⟨p, s⟩ : Finding)).toList else [] := by
  cases o with
  | none =>
    rw [Option.map_none, Option.toList_none, List.filter_nil, ite_self]
  | some p =>
    rw [Option.map_some, Option.toList_some, List.filter_cons, List.filter_nil]
    simp only [decide_eq_true_eq]

/-- **Blocks that follow do not change what is reported of those before them.** -/
theorem filter_dangling_append {stop : Nat} {bs' : List Block}
    (hbs' : ∀ b ∈ bs', stop < b.headerSpan.start) : ∀ {bs : List Block}
    (previous : Option BlockKind), (∀ b ∈ bs, b.headerSpan.start ≤ stop) →
      (dangling previous (bs ++ bs')).filter (fun f => f.span.start ≤ stop) = dangling previous bs
  | [], previous, _ => List.filter_eq_nil_iff.mpr fun f hf hle => by
    obtain ⟨b, hb, -, hspan⟩ := exists_of_mem_dangling hf
    have := hbs' b hb
    rw [decide_eq_true_eq, hspan] at hle
    omega
  | b :: bs, previous, hbs => by
    obtain ⟨hb, hbs⟩ := List.forall_mem_cons.mp hbs
    have ih := filter_dangling_append hbs' (some b.kind) hbs
    rw [List.cons_append, dangling, dangling]
    split
    · rw [List.filter_cons, if_pos (decide_eq_true hb), ih]
    · exact ih

namespace Continues

variable {source further : Text} {t t' : BlockTree} (h : Continues source further t t')
  (hg : Grows t t') {c : Nat}

include h

theorem classify :
    Continues source further (t.classify source) (t'.classify (source ++ '\n' :: further)) where
  bracketed := (sameShape_classify t source).bracketed h.bracketed
  bracketed' := (sameShape_classify t' _).bracketed h.bracketed'
  matched_iff := h.matched_iff
  size_le := by
    rw [size_classify, size_classify]
    exact h.size_le
  span_eq := fun hr hc => by
    rw [size_classify] at hc
    rw [span_classify, span_classify, h.span_eq hr hc]
  behind := fun hc hlt => by
    rw [size_classify] at hc hlt
    rw [span_classify]
    exact h.behind hc hlt

/-- The headers of the source stand in it. -/
theorem headerSpan_start_le (hr : c ≠ root) (hc : c < t.size) :
    ((t.classify source).get c).headerSpan.start ≤ source.bytes := by
  obtain ⟨before, header, gap, rest, -, -, hspan, hstart⟩ :=
    h.bracketed.headed_classify.header_stands hr (by rwa [size_classify])
  have hlt := (h.classify.start_lt_and_stop_le hr (by rwa [size_classify])).1
  rw [hspan]
  simp only
  omega

include hg

/-- **What was reported of headers is reported**, and nothing else up to the newline. -/
theorem filter_headerFindings (htext : Text.SaysFirst further) :
    ((t'.classify (source ++ '\n' :: further)).headerFindings
      (source ++ '\n' :: further)).filter (fun f => f.span.start ≤ source.bytes) =
        (t.classify source).headerFindings source := by
  have hcg := h.grows_classify hg
  rw [headerFindings, headerFindings, List.filterMap_eq_flatMap_toList,
    List.filterMap_eq_flatMap_toList]
  refine hcg.filter_flatMap_preorder h.classify.bracketed.toNested
    h.classify.bracketed'.toNested (fun c hc => ?_) fun c hc hlt => ?_
  · dsimp only [Function.comp]
    by_cases hr : c = root
    · rw [hr, h.classify.bracketed.root_parent, h.classify.bracketed'.root_parent]
      rfl
    · rw [h.classify.verdict_eq hcg hr hc, hcg.get_eq hr hc]
      rw [size_classify] at hc
      have hlow := h.headerSpan_start_le hr hc
      obtain ⟨p, -, hp⟩ := h.bracketed.exists_parent hr hc
      rw [headerSpan_classify hp] at hlow
      rw [parent_classify, hp, verdict_classify]
      dsimp only [Option.isNone_some]
      rw [if_neg Bool.false_ne_true, filter_toList_map, if_pos hlow]
  · dsimp only [Function.comp]
    rw [size_classify] at hc hlt
    have hhigh := h.lt_headerSpan_start hg htext hc hlt
    rw [parent_classify, verdict_classify]
    cases hp : (t'.get c).parent with
    | none => rfl
    | some p =>
      rw [headerSpan_classify hp] at hhigh
      dsimp only [Option.isNone_some]
      rw [if_neg Bool.false_ne_true, filter_toList_map, if_neg (Nat.not_le_of_lt hhigh)]

/-- **What was reported of branches is reported**, and nothing else up to the newline: whether a
branch is allowed hangs on the block before it. -/
theorem filter_branchFindings (htext : Text.SaysFirst further) :
    (t'.classify (source ++ '\n' :: further)).branchFindings.filter
      (fun f => f.span.start ≤ source.bytes) = (t.classify source).branchFindings := by
  have hcg := h.grows_classify hg
  have hb := h.classify.bracketed
  have hb' := h.classify.bracketed'
  have hhigh : ∀ {c : Nat}, (t.classify source).size ≤ c →
      c < (t'.classify (source ++ '\n' :: further)).size →
        source.bytes < ((t'.classify (source ++ '\n' :: further)).get c).headerSpan.start :=
    fun hc hlt => by
      rw [size_classify] at hc hlt
      exact h.lt_headerSpan_start hg htext hc hlt
  rw [branchFindings, branchFindings]
  refine hcg.filter_flatMap_preorder hb.toNested hb'.toNested (fun c hc => ?_) fun c hc hlt => ?_
  · -- the children it had, and then those that are new
    rw [h.classify.children_eq c, List.map_append]
    have hold : ∀ d ∈ ((t.classify source).get c).children, d ≠ root ∧ d < t.size := fun d hd => by
      obtain ⟨hdlt, hp⟩ := hb.mem_children_iff.mp hd
      rw [size_classify] at hdlt
      exact ⟨hb.ne_root_of_parent hp, hdlt⟩
    have hsame : ((t.classify source).get c).children.map
        (t'.classify (source ++ '\n' :: further)).get =
          ((t.classify source).get c).children.map (t.classify source).get :=
      List.map_congr_left fun d hd => hcg.get_eq (hold d hd).1 (by
        rw [size_classify]
        exact (hold d hd).2)
    rw [hsame]
    refine filter_dangling_append (List.forall_mem_map.mpr fun d hd => ?_) none
      (List.forall_mem_map.mpr fun d hd => ?_)
    · obtain ⟨hd, hnew⟩ := List.mem_filter.mp hd
      exact hhigh (of_decide_eq_true hnew) (hb'.mem_children_iff.mp hd).1
    · exact h.headerSpan_start_le (hold d hd).1 (hold d hd).2
  · show (dangling none ([] ++ _)).filter _ = dangling none []
    refine filter_dangling_append (List.forall_mem_map.mpr fun d hd => ?_) none
      fun _ hb => absurd hb List.not_mem_nil
    obtain ⟨hdlt, hp⟩ := hb'.mem_children_iff.mp hd
    exact hhigh (hcg.size_le_of_parent hb.toNested hb'.toNested hc hp) hdlt

end Continues
end BlockTree
end BraceTree
