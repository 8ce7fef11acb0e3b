import Mathlib.Data.Option.Basic
import BraceTree.Proofs.Value.Grammar
import BraceTree.Proofs.Value.ReadBack

/-!
# Literals are read by their grammar

The reader of literals does not follow their grammar. It takes the blanks off, looks whether one
bracket closes at the end of the text, cuts what is inside at the commas and each element at the
colons, with a count of open brackets that takes a parenthesis for a bracket, and reads the pieces,
to a depth that the length of the text bounds.

* What is read is derived (`denotes_of_readWithin`). Nothing has to be known of the text here: the
  elements with the commas between them are the inside of the bracket, whatever was counted.
* What is derived is read (`Denotes.readWithin`), in a text without a newline. A text that denotes a
  value is whole (`Denotes.whole`), so a list of such texts is cut into exactly these, and each is
  shorter than the list, so the depth suffices.

On a right-hand side a call and `null` are tried before a literal, and no token is either of them
(`Token.not_named`).
-/

namespace BraceTree

/-- What a function makes of a list can be put beside the list, element by element. -/
theorem exists_of_mapM {α β γ : Type} {f : α → Option β} {p : γ → α} {q : γ → β} {R : γ → Prop} :
    ∀ {as : List α} {bs : List β}, as.mapM f = some bs →
      (∀ a ∈ as, ∀ b, f a = some b → ∃ c, p c = a ∧ q c = b ∧ R c) →
      ∃ cs : List γ, cs.map p = as ∧ cs.map q = bs ∧ ∀ c ∈ cs, R c
  | [], bs, h, _ => ⟨[], rfl, Option.some.inj h, by simp⟩
  | a :: as, bs, h, hR => by
    rw [List.mapM_cons] at h
    obtain ⟨b, hb, h⟩ := Option.bind_eq_some_iff.mp h
    obtain ⟨bs', hbs, h⟩ := Option.bind_eq_some_iff.mp h
    obtain rfl := Option.some.inj h
    obtain ⟨ha, has⟩ := List.forall_mem_cons.mp hR
    obtain ⟨c, hp, hq, hc⟩ := ha b hb
    obtain ⟨cs, hps, hqs, hcs⟩ := exists_of_mapM hbs has
    exact ⟨c :: cs, by rw [List.map_cons, hp, hps], by rw [List.map_cons, hq, hqs],
      List.forall_mem_cons.mpr ⟨hc, hcs⟩⟩

/-- Choosing first and reading then is one reading where something is always chosen. -/
theorem mapM_filterMap {α β γ : Type} {f : α → Option β} {g : β → Option γ} {as : List α}
    (h : ∀ a ∈ as, (f a).isSome = true) :
    (as.filterMap f).mapM g = as.mapM fun a => (f a).bind g := by
  induction as with
  | nil => rfl
  | cons a as ih =>
    obtain ⟨ha, has⟩ := List.forall_mem_cons.mp h
    obtain ⟨b, hb⟩ := Option.isSome_iff_exists.mp ha
    rw [List.filterMap_cons_some hb, List.mapM_cons, List.mapM_cons, ih has, hb]
    rfl

namespace Literal

variable {t pre post : Text} {v : Value} {read : Text → Option Value}

namespace Denotes

theorem of_token (h : Token t v) : Denotes t v := by
  have hvalue : Denotes ([] ++ (t ++ [])) v := .value rfl h rfl
  rwa [List.nil_append, List.append_nil] at hvalue

/-- **Blanks around a text make no difference** to what it denotes. -/
theorem between (hpre : Text.isBlankText pre = true) (h : Denotes t v)
    (hpost : Text.isBlankText post = true) : Denotes (pre ++ (t ++ post)) v := by
  cases h with
  | @value pre' token post' _ hpre' htoken hpost' =>
    have hsplit : pre ++ ((pre' ++ (token ++ post')) ++ post) =
        (pre ++ pre') ++ (token ++ (post' ++ post)) := by
      simp only [List.append_assoc]
    rw [hsplit]
    refine .value ?_ htoken ?_
    · rw [Text.isBlankText, List.all_append, Bool.and_eq_true]
      exact ⟨hpre, hpre'⟩
    · rw [Text.isBlankText, List.all_append, Bool.and_eq_true]
      exact ⟨hpost', hpost⟩

theorem of_trim (h : Denotes (Text.trim t) v) : Denotes t v := by
  obtain ⟨post, hpost, ht⟩ := Text.eq_append_trim t
  rw [ht]
  exact between (Text.isBlankText_takeWhile t) h hpost

end Denotes

/-! ## What is read is derived -/

/-- An element with a key is two texts with a colon between them. -/
theorem exists_of_keyed? {e k w : Text} (h : keyed? e = some (k, w)) :
    ∃ a b, e = a ++ ':' :: b ∧ Text.trim a = k ∧ Text.trim b = w := by
  rw [keyed?] at h
  split at h
  · next key value hpieces =>
    obtain ⟨rfl, rfl⟩ := Prod.mk.inj (Option.some.inj h)
    obtain ⟨a, rest, hsplit, hkey, hrest⟩ := List.map_eq_cons_iff.mp hpieces
    obtain ⟨b, rfl, hvalue⟩ := List.map_eq_singleton_iff.mp hrest
    refine ⟨a, b, ?_, hkey, hvalue⟩
    have hjoined := Text.intercalate_splitGlyphs ':' e.glyphs 0
    rw [hsplit, Text.chars_glyphs, List.intercalate_cons_cons, List.intercalate_singleton,
      List.append_assoc] at hjoined
    exact hjoined.symm
  · cases h

/-- The blanks that a cut takes off a piece leave the colon in it. -/
theorem exists_of_keyed?_trim {r k w : Text} (h : keyed? (Text.trim r) = some (k, w)) :
    ∃ a b, r = a ++ ':' :: b ∧ Text.trim a = k ∧ Text.trim b = w := by
  obtain ⟨a, b, htrim, rfl, rfl⟩ := exists_of_keyed? h
  obtain ⟨post, hpost, hr⟩ := Text.eq_append_trim r
  refine ⟨r.takeWhile Text.isBlank ++ (a ++ []), [] ++ (b ++ post), ?_,
    Text.trim_between a (Text.isBlankText_takeWhile r) rfl, Text.trim_between b rfl hpost⟩
  rw [htrim] at hr
  simpa using hr

theorem denotes_of_readKeyed {a b : Text} {e : Value × Value}
    (hread : ∀ u w, read u = some w → Denotes u w)
    (h : readKeyed read (Text.trim a, Text.trim b) = some e) :
    Denotes a e.1 ∧ Denotes b e.2 := by
  rw [readKeyed] at h
  split at h
  · next hkey hvalue =>
    obtain rfl := Option.some.inj h
    exact ⟨.of_trim (hread _ _ hkey), .of_trim (hread _ _ hvalue)⟩
  · cases h

/-- **What is read as a collection is a token**, if what is read as an element denotes a value. -/
theorem token_of_collection? (hread : ∀ u w, read u = some w → Denotes u w)
    (h : collection? read t = some v) : Token t v := by
  rw [collection?] at h
  split at h
  · cases h
  · next inner henclosed =>
    obtain rfl := Text.eq_of_enclosed? (by decide) henclosed
    split at h
    · next hblank =>
      obtain rfl := Option.some.inj h
      exact .empty hblank
    · dsimp only at h
      have hjoined := Text.intercalate_splitGlyphs ',' inner.glyphs 0
      obtain ⟨r, rs, hrs⟩ := Text.exists_splitGlyphs ',' inner.glyphs 0
      rw [Text.chars_glyphs] at hjoined
      rw [Text.splitTopLevel] at h
      split at h
      · next hkeyed =>
        obtain ⟨es, hes, rfl⟩ := Option.map_eq_some_iff.mp h
        rw [mapM_filterMap (List.all_eq_true.mp hkeyed), List.mapM_map] at hes
        obtain ⟨entries, htexts, hvalues, hentries⟩ := exists_of_mapM
          (p := fun e : (Text × Value) × (Text × Value) => e.1.1 ++ ':' :: e.2.1)
          (q := fun e => (e.1.2, e.2.2))
          (R := fun e => Denotes e.1.1 e.1.2 ∧ Denotes e.2.1 e.2.2) hes fun r _ e he => by
            obtain ⟨⟨k, w⟩, hkeyed, hread'⟩ := Option.bind_eq_some_iff.mp he
            obtain ⟨a, b, rfl, rfl, rfl⟩ := exists_of_keyed?_trim hkeyed
            obtain ⟨hkey, hvalue⟩ := denotes_of_readKeyed hread hread'
            exact ⟨((a, e.1), (b, e.2)), rfl, rfl, hkey, hvalue⟩
        rw [← hjoined, ← htexts, ← hvalues]
        refine .map (fun hnil => ?_) (fun e he => (hentries e he).1) fun e he => (hentries e he).2
        rw [hnil, hrs] at htexts
        exact absurd htexts (by simp)
      · split at h
        · obtain ⟨vs, hvs, rfl⟩ := Option.map_eq_some_iff.mp h
          rw [List.mapM_map] at hvs
          obtain ⟨items, htexts, hvalues, hitems⟩ := exists_of_mapM
            (p := fun i : Text × Value => i.1) (q := fun i => i.2)
            (R := fun i => Denotes i.1 i.2) hvs fun r _ w hw =>
              ⟨(r, w), rfl, rfl, .of_trim (hread _ _ hw)⟩
          rw [← hjoined, ← htexts, ← hvalues]
          refine .array (fun hnil => ?_) hitems
          rw [hnil, hrs] at htexts
          exact absurd htexts (by simp)
        · cases h

theorem token_of_boolean? (h : boolean? t = some v) : Token t v := by
  rw [boolean?] at h
  split at h
  · next hword =>
    obtain rfl := Option.some.inj h
    obtain rfl | rfl := hword
    all_goals exact .boolean (by decide)
  · split at h
    · next hword =>
      obtain rfl := Option.some.inj h
      obtain rfl | rfl := hword
      all_goals exact .boolean (by decide)
    · cases h

/-- Blanks around a text make no difference to what is read. -/
theorem readWithin_trim (depth : Nat) (t : Text) :
    readWithin depth (Text.trim t) = readWithin depth t := by
  cases depth with
  | zero => rfl
  | succ depth => rw [readWithin, readWithin, Text.trim_trim]

/-- **What is read denotes the value that is read**, however deep it nests. -/
theorem denotes_of_readWithin : ∀ {depth : Nat} {t : Text} {v : Value},
    readWithin depth t = some v → Denotes t v
  | 0, _, _, h => absurd h (by simp [readWithin])
  | depth + 1, t, v, h => by
    rw [readWithin] at h
    refine .of_trim (.of_token ?_)
    rcases (Option.orElse_eq_some _ _ _).mp h with hscalar | ⟨-, h⟩
    · exact token_of_scalar? hscalar
    · rcases (Option.orElse_eq_some _ _ _).mp h with hboolean | ⟨-, hcollection⟩
      · exact token_of_boolean? hboolean
      · exact token_of_collection? (fun _ _ => denotes_of_readWithin) hcollection

/-- So does what is read on a right-hand side, if it is a literal. -/
theorem denotes_of_ofText? (h : Expression.ofText? t = some (.literal v)) : Denotes t v := by
  rw [Expression.ofText?] at h
  refine .of_trim (.of_token ?_)
  split at h
  · next hscalar =>
    obtain rfl := Expression.literal.inj (Option.some.inj h)
    exact token_of_scalar? hscalar
  · split at h
    · cases h
    · split at h
      · cases h
      · split at h
        · next hboolean =>
          obtain rfl := Expression.literal.inj (Option.some.inj h)
          exact token_of_boolean? hboolean
        · obtain ⟨w, hcollection, hw⟩ := Option.map_eq_some_iff.mp h
          obtain rfl := Expression.literal.inj hw
          exact token_of_collection? (fun _ _ => denotes_of_readWithin) hcollection

/-! ## What is derived is read -/

theorem isBlank_separator : ∀ sep ∈ [',', ':'], Text.isBlank sep = false := by
  intro sep hsep
  rcases List.mem_pair.mp hsep with rfl | rfl <;> decide

/-- A character that is not in a text in brackets or quotes is not in what they enclose. -/
theorem not_mem_inside {c first : Char} {inner close : Text} (h : c ∉ first :: (inner ++ close)) :
    c ∉ inner :=
  fun hmem => h (List.mem_cons_of_mem _ (List.mem_append_left _ hmem))

/-- And so not in an element of a list in brackets. -/
theorem not_mem_item {c : Char} {sep close : Text} {ts : List Text}
    (h : c ∉ '[' :: (sep.intercalate ts ++ close)) (ht : t ∈ ts) : c ∉ t :=
  fun hmem => not_mem_inside h (Text.mem_intercalate_of_mem ht hmem)

theorem not_mem_entry {c sep : Char} {a b : Text} (h : c ∉ a ++ sep :: b) : c ∉ a ∧ c ∉ b :=
  ⟨fun hmem => h (List.mem_append_left _ hmem),
    fun hmem => h (List.mem_append_right _ (List.mem_cons_of_mem _ hmem))⟩

theorem contained_of_isBlankText (h : Text.isBlankText t = true) (hline : '\n' ∉ t) :
    Text.Contained t :=
  have hwhole : Text.Whole [] t := .of_isBlankText h hline (by simp)
  hwhole.toContained

mutual

/-- **A text that denotes a value stays in one piece** when a list with it is cut. -/
theorem Denotes.whole {t : Text} {v : Value} : Denotes t v → '\n' ∉ t →
    Text.Whole [',', ':'] t
  | .value hpre h hpost, hline => by
    simp only [List.mem_append, not_or] at hline
    have hfirst := Text.Whole.of_isBlankText hpre hline.1 isBlank_separator
    have hlast := Text.Whole.of_isBlankText hpost hline.2.2 isBlank_separator
    exact hfirst.append ((h.sealed hline.2.1).toWhole.append hlast)

/-- **A token is sealed.** -/
theorem Token.sealed {t : Text} {v : Value} : Token t v → '\n' ∉ t →
    Text.Sealed [',', ':'] t
  | .string hquote h, hline =>
    h.sealed (by simpa [Quoting.isQuote] using hquote) (not_mem_inside hline)
  | .integer hne hdigits _, _ => by
    obtain ⟨hplain, htext⟩ := plain_integer _ hne hdigits
    exact htext ▸ hplain.sealed
  | .double hwhole hfraction hdigits _, _ =>
    (Numeral.plain_decimal _ hwhole hfraction hdigits).sealed
  | .boolean h, _ => by
    simp only [List.mem_cons, List.not_mem_nil, or_false, Prod.mk.injEq] at h
    rcases h with ⟨rfl, -⟩ | ⟨rfl, -⟩ | ⟨rfl, -⟩ | ⟨rfl, -⟩
    all_goals exact .of_inert (by decide) (by decide) (.of_all (by decide) (by decide))
  | .empty h, hline => .bracket (contained_of_isBlankText h (not_mem_inside hline))
  | .array _ h, hline => by
    refine .bracket (.intercalate (.of_inert (by decide)) fun t ht => ?_)
    obtain ⟨i, hi, rfl⟩ := List.mem_map.mp ht
    exact ((h i hi).whole (not_mem_item hline ht)).toContained
  | .map _ hkeys hvalues, hline => by
    refine .bracket (.intercalate (.of_inert (by decide)) fun t ht => ?_)
    obtain ⟨e, he, rfl⟩ := List.mem_map.mp ht
    have hin := not_mem_entry (not_mem_item hline ht)
    have hkey := (hkeys e he).whole hin.1
    have hvalue := (hvalues e he).whole hin.2
    exact hkey.toContained.append ((Text.Contained.of_inert_char (by decide)).append
      hvalue.toContained)

end

/-- Without its blanks a text that denotes a value is a token. -/
theorem Denotes.token_trim (h : Denotes t v) (hline : '\n' ∉ t) :
    Token (Text.trim t) v ∧ Text.Sealed [',', ':'] (Text.trim t) := by
  cases h with
  | @value pre token post _ hpre htoken hpost =>
    simp only [List.mem_append, not_or] at hline
    have hsealed := htoken.sealed hline.2.1
    rw [hsealed.tight.trim_between hpre hpost]
    exact ⟨htoken, hsealed⟩

/-- A text that denotes a value is not blank. -/
theorem Denotes.isBlankText (h : Denotes t v) (hline : '\n' ∉ t) :
    Text.isBlankText t = false := by
  by_contra hblank
  have hnil := Text.trim_eq_nil_iff.mpr ((Bool.not_eq_false _).mp hblank)
  exact (h.token_trim hline).2.tight.ne_nil hnil

/-- A key and a value with a colon between them are told apart. -/
theorem keyed?_trim_append {a b : Text} {k w : Value} (ha : Denotes a k) (hb : Denotes b w)
    (hline : '\n' ∉ a) (hline' : '\n' ∉ b) :
    keyed? (Text.trim (a ++ ':' :: b)) = some (Text.trim a, Text.trim b) := by
  cases ha with
  | @value preA tokenA postA _ hpreA htokenA hpostA =>
  cases hb with
  | @value preB tokenB postB _ hpreB htokenB hpostB =>
  simp only [List.mem_append, not_or] at hline hline'
  have hsealedA := htokenA.sealed hline.2.1
  have hsealedB := htokenB.sealed hline'.2.1
  have hjoined : preA ++ (tokenA ++ postA) ++ ':' :: (preB ++ (tokenB ++ postB)) =
      preA ++ ((tokenA ++ ((postA ++ ':' :: preB) ++ tokenB)) ++ postB) := by
    simp only [List.append_assoc, List.cons_append]
  have hparts : tokenA ++ ((postA ++ ':' :: preB) ++ tokenB) =
      ([':'] : Text).intercalate [tokenA ++ postA, preB ++ tokenB] := by
    rw [List.intercalate_cons_cons, List.intercalate_singleton]
    simp only [List.append_assoc, List.cons_append, List.nil_append]
  have hwhole : ∀ p ∈ [tokenA ++ postA, preB ++ tokenB], Text.Whole [',', ':'] p := by
    refine List.forall_mem_cons.mpr ⟨?_, List.forall_mem_singleton.mpr ?_⟩
    · exact hsealedA.toWhole.append (.of_isBlankText hpostA hline.2.2 isBlank_separator)
    · exact (Text.Whole.of_isBlankText hpreB hline'.1 isBlank_separator).append hsealedB.toWhole
  have htrimA : Text.trim ([] ++ (tokenA ++ postA)) = tokenA :=
    hsealedA.tight.trim_between rfl hpostA
  have htrimB : Text.trim (preB ++ (tokenB ++ [])) = tokenB :=
    hsealedB.tight.trim_between hpreB rfl
  rw [List.nil_append] at htrimA
  rw [List.append_nil] at htrimB
  rw [hjoined, (hsealedA.tight.around _ hsealedB.tight).trim_between hpreA hpostB, keyed?, hparts,
    Text.splitTopLevel_intercalate_whole (by simp) (by decide) (List.cons_ne_nil _ _) hwhole,
    List.map_cons, List.map_cons, List.map_nil, htrimA, htrimB,
    hsealedA.tight.trim_between hpreA hpostA, hsealedB.tight.trim_between hpreB hpostB]

/-- A list of whole texts in brackets is cut into these texts again. -/
theorem collection?_join {ts : List Text} {r : Text} (h : ∀ t ∈ ts, Text.Whole [','] t)
    (hr : r ∈ ts) (hblank : Text.isBlankText r = false) :
    collection? read ('[' :: (([','] : Text).intercalate ts ++ [']'])) =
      if (ts.map Text.trim).all fun e => (keyed? e).isSome then
        (((ts.map Text.trim).filterMap keyed?).mapM (readKeyed read)).map .map
      else if (ts.map Text.trim).all fun e => (keyed? e).isNone then
        ((ts.map Text.trim).mapM read).map .array
      else none := by
  have hcontained : Text.Contained (([','] : Text).intercalate ts) :=
    .intercalate (.of_inert (by decide)) fun t ht => (h t ht).toContained
  have hinner : ¬ Text.isBlankText (([','] : Text).intercalate ts) = true := fun hall => by
    have hr' : Text.isBlankText r = true := List.all_eq_true.mpr fun c hc =>
      List.all_eq_true.mp hall c (Text.mem_intercalate_of_mem hr hc)
    exact Bool.false_ne_true (hblank.symm.trans hr')
  rw [collection?, hcontained.enclosed?_bracket]
  dsimp only
  rw [if_neg hinner, Text.splitTopLevel_intercalate_whole (List.mem_singleton_self _) (by decide)
    (List.ne_nil_of_mem hr) h]

/-- Where a function is known on all elements of a list, the list is taken to what they become. -/
theorem mapM_eq_some_map {α β : Type} {f : α → Option β} {g : α → β} {as : List α}
    (h : ∀ a ∈ as, f a = some (g a)) : as.mapM f = some (as.map g) := by
  induction as with
  | nil => rfl
  | cons a as ih =>
    obtain ⟨ha, has⟩ := List.forall_mem_cons.mp h
    rw [List.mapM_cons, ha, ih has]
    rfl

/-- **Values with commas between them are an array.** -/
theorem collection?_array {items : List (Text × Value)} (hne : items ≠ [])
    (h : ∀ i ∈ items, Denotes i.1 i.2) (hline : ∀ i ∈ items, '\n' ∉ i.1)
    (hread : ∀ i ∈ items, read (Text.trim i.1) = some i.2) :
    collection? read ('[' :: (([','] : Text).intercalate (items.map (·.1)) ++ [']'])) =
      some (.array (items.map (·.2))) := by
  have hwhole : ∀ t ∈ items.map (·.1), Text.Whole [','] t :=
    List.forall_mem_map.mpr fun i hi => ((h i hi).whole (hline i hi)).mono (by simp)
  have hnone : ∀ e ∈ (items.map (·.1)).map Text.trim, keyed? e = none :=
    List.forall_mem_map.mpr (List.forall_mem_map.mpr fun i hi =>
      keyed?_of_sealed ((h i hi).token_trim (hline i hi)).2)
  obtain ⟨i, is, rfl⟩ := List.exists_cons_of_ne_nil hne
  have hfirst : i ∈ i :: is := List.mem_cons_self
  have hsome : ¬(((i :: is).map (·.1)).map Text.trim).all fun e => (keyed? e).isSome := by
    rw [List.map_cons, List.map_cons, List.all_cons, hnone _ (by simp)]
    simp
  rw [collection?_join hwhole (List.mem_map_of_mem hfirst)
    ((h i hfirst).isBlankText (hline i hfirst)), if_neg hsome,
    if_pos (List.all_eq_true.mpr fun e he => by rw [hnone e he]; rfl), List.map_map, List.mapM_map]
  exact congrArg (Option.map Value.array) (mapM_eq_some_map hread)

/-- **Keys and values with colons between them are a map.** -/
theorem collection?_map {entries : List ((Text × Value) × (Text × Value))} (hne : entries ≠ [])
    (hkeys : ∀ e ∈ entries, Denotes e.1.1 e.1.2) (hvalues : ∀ e ∈ entries, Denotes e.2.1 e.2.2)
    (hline : ∀ e ∈ entries, '\n' ∉ e.1.1 ∧ '\n' ∉ e.2.1)
    (hread : ∀ e ∈ entries, read (Text.trim e.1.1) = some e.1.2 ∧
      read (Text.trim e.2.1) = some e.2.2) :
    collection? read ('[' :: (([','] : Text).intercalate
        (entries.map fun e => e.1.1 ++ ':' :: e.2.1) ++ [']'])) =
      some (.map (entries.map fun e => (e.1.2, e.2.2))) := by
  have hwhole : ∀ t ∈ entries.map fun e => e.1.1 ++ ':' :: e.2.1, Text.Whole [','] t :=
    List.forall_mem_map.mpr fun e he =>
      (((hkeys e he).whole (hline e he).1).mono (by simp)).append
        ((Text.Whole.of_inert (t := [':']) (by decide) (by simp)).append
          (((hvalues e he).whole (hline e he).2).mono (by simp)))
  have hkeyed : ∀ e ∈ entries, keyed? (Text.trim (e.1.1 ++ ':' :: e.2.1)) =
      some (Text.trim e.1.1, Text.trim e.2.1) := fun e he =>
    keyed?_trim_append (hkeys e he) (hvalues e he) (hline e he).1 (hline e he).2
  have hall : ∀ r ∈ (entries.map fun e => e.1.1 ++ ':' :: e.2.1).map Text.trim,
      (keyed? r).isSome = true :=
    List.forall_mem_map.mpr (List.forall_mem_map.mpr fun e he => by rw [hkeyed e he]; rfl)
  obtain ⟨e, es, rfl⟩ := List.exists_cons_of_ne_nil hne
  have hfirst : e ∈ e :: es := List.mem_cons_self
  have hblank : Text.isBlankText (e.1.1 ++ ':' :: e.2.1) = false := by
    rw [Text.isBlankText, List.all_append, ← Text.isBlankText,
      (hkeys e hfirst).isBlankText (hline e hfirst).1, Bool.false_and]
  rw [collection?_join hwhole (List.mem_map_of_mem hfirst) hblank,
    if_pos (List.all_eq_true.mpr hall), mapM_filterMap hall, List.map_map, List.mapM_map,
    mapM_eq_some_map (g := fun e => (e.1.2, e.2.2)) fun e he => ?_]
  · rfl
  · show (keyed? (Text.trim (e.1.1 ++ ':' :: e.2.1))).bind (readKeyed read) = _
    rw [hkeyed e he, Option.bind_some, readKeyed, (hread e he).1, (hread e he).2]

mutual

/-- **A text in a line that denotes a value is read**, if collections may nest as deep as the text
is long. -/
theorem Denotes.readWithin {t : Text} {v : Value} : Denotes t v → '\n' ∉ t → ∀ depth : Nat,
    t.length ≤ depth → Literal.readWithin (depth + 1) t = some v
  | .value hpre h hpost, hline, depth, hdepth => by
    simp only [List.mem_append, not_or] at hline
    simp only [List.length_append] at hdepth
    rw [Literal.readWithin, (h.sealed hline.2.1).tight.trim_between hpre hpost]
    exact h.read hline.2.1 depth (by omega)

theorem Token.read {t : Text} {v : Value} : Token t v → '\n' ∉ t → ∀ depth : Nat,
    t.length ≤ depth →
      (scalar? t <|> boolean? t <|> collection? (Literal.readWithin depth) t) = some v
  | .string hquote h, hline, depth, _ => by
    rw [h.scalar? (by simpa [Quoting.isQuote] using hquote) (not_mem_inside hline)]
    rfl
  | .integer hne hdigits hn, _, depth, _ => by
    rw [scalar?_integer hne hdigits hn]
    rfl
  | .double hwhole hfraction hdigits hx, _, depth, _ => by
    rw [scalar?_double hwhole hfraction hdigits hx]
    rfl
  | .boolean h, _, depth, _ => by
    simp only [List.mem_cons, List.not_mem_nil, or_false, Prod.mk.injEq] at h
    rcases h with ⟨rfl, rfl⟩ | ⟨rfl, rfl⟩ | ⟨rfl, rfl⟩ | ⟨rfl, rfl⟩
    all_goals rfl
  | .empty h, hline, depth, _ => by
    show collection? _ _ = _
    rw [collection?, (contained_of_isBlankText h (not_mem_inside hline)).enclosed?_bracket]
    exact if_pos h
  | @Token.array items hne h, hline, depth, hdepth => by
    have hin : ∀ i ∈ items, '\n' ∉ i.1 := fun i hi =>
      not_mem_item hline (List.mem_map_of_mem hi)
    show collection? _ _ = _
    refine collection?_array hne h hin fun i hi => ?_
    have hlength := length_le_intercalate [','] (List.mem_map_of_mem (f := (·.1)) hi)
    rw [List.length_cons, List.length_append] at hdepth
    obtain ⟨d, rfl⟩ : ∃ d, depth = d + 1 := Nat.exists_eq_add_one.mpr (by omega)
    rw [readWithin_trim]
    exact (h i hi).readWithin (hin i hi) d (by omega)
  | @Token.map entries hne hkeys hvalues, hline, depth, hdepth => by
    have htext : ∀ e ∈ entries, e.1.1 ++ ':' :: e.2.1 ∈
        entries.map fun e => e.1.1 ++ ':' :: e.2.1 := fun e he =>
      List.mem_map_of_mem (f := fun e : (Text × Value) × (Text × Value) =>
        e.1.1 ++ ':' :: e.2.1) he
    have hin : ∀ e ∈ entries, '\n' ∉ e.1.1 ∧ '\n' ∉ e.2.1 := fun e he =>
      not_mem_entry (not_mem_item hline (htext e he))
    show collection? _ _ = _
    refine collection?_map hne hkeys hvalues hin fun e he => ?_
    have hlength := length_le_intercalate [','] (htext e he)
    rw [List.length_append, List.length_cons] at hlength
    rw [List.length_cons, List.length_append] at hdepth
    obtain ⟨d, rfl⟩ : ∃ d, depth = d + 1 := Nat.exists_eq_add_one.mpr (by omega)
    rw [readWithin_trim, readWithin_trim]
    exact ⟨(hkeys e he).readWithin (hin e he).1 d (by omega),
      (hvalues e he).readWithin (hin e he).2 d (by omega)⟩

end

/-- **A token is neither a call nor `null`.** -/
theorem Token.not_named (h : Token t v) (hline : '\n' ∉ t) :
    Call.ofText? t = none ∧ t ≠ "null".toList := by
  have htight := (h.sealed hline).tight
  cases h with
  | string hquote _ =>
    refine not_named_of_head htight rfl ?_
    rcases hquote with rfl | rfl
    all_goals decide
  | @integer negative _ _ hne hdigits _ =>
    obtain ⟨hplain, htext⟩ := plain_integer negative hne hdigits
    obtain ⟨c, hhead, hc⟩ := hplain.head
    exact not_named_of_head htight (htext ▸ hhead) hc
  | double hwhole hfraction hdigits _ =>
    obtain ⟨c, hhead, hc⟩ := (Numeral.plain_decimal _ hwhole hfraction hdigits).head
    exact not_named_of_head htight hhead hc
  | boolean hword =>
    simp only [List.mem_cons, List.not_mem_nil, or_false, Prod.mk.injEq] at hword
    rcases hword with ⟨rfl, -⟩ | ⟨rfl, -⟩ | ⟨rfl, -⟩ | ⟨rfl, -⟩
    all_goals exact ⟨rfl, by decide⟩
  | _ => exact not_named_of_head htight rfl (by decide)

/-- **A text in a line that denotes a value is read on a right-hand side.** -/
theorem Denotes.ofText? (h : Denotes t v) (hline : '\n' ∉ t) :
    Expression.ofText? t = some (.literal v) := by
  obtain ⟨htoken, hsealed⟩ := h.token_trim hline
  have hline' : '\n' ∉ Text.trim t := fun hmem => hline (Text.mem_of_mem_trim hmem)
  have htrim : Expression.ofText? t = Expression.ofText? (Text.trim t) := by
    rw [Expression.ofText?, Expression.ofText?, Text.trim_trim]
  rw [htrim]
  exact ofText?_of_readWithin hsealed.tight (htoken.not_named hline')
    ((Denotes.of_token htoken).readWithin hline' _ (Nat.le_refl _))

end Literal
end BraceTree
