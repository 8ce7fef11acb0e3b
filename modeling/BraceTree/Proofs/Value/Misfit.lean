import BraceTree.Proofs.Text.Closing
import BraceTree.Proofs.Value.Derived

/-!
# Texts that are no literals

A text is read exactly if the grammar derives it, so whatever else is written is refused, however
deep it stands. For a reader of the grammar that is plain, but the cut into elements does not follow
the grammar: it passes over brackets that do not match, and over parentheses. So it is said here of
the elements as they are cut (`Inside`). A collection is read only if everything in it is, at every
depth (`Inside.denotes`), and an element that is blank, `null`, a call, a collection in which only
some elements have keys, or has square brackets that do not match, is never read (`Misfit`).
-/

namespace BraceTree.Literal

/-- **A text stands inside another one**: it is the text itself, or stands inside an element without
a key, a key or a value of the collection that the text is cut into. -/
inductive Inside (u : Text) : Text → Prop
  | here : Inside u u
  | element {t inner e : Text} (ht : Text.enclosed? '[' ']' (Text.trim t) = some inner)
      (hblank : Text.isBlankText inner = false) (he : e ∈ Text.splitTopLevel ',' inner)
      (hkeyed : keyed? e = none) (h : Inside u e) : Inside u t
  | key {t inner e k w : Text} (ht : Text.enclosed? '[' ']' (Text.trim t) = some inner)
      (he : e ∈ Text.splitTopLevel ',' inner) (hkeyed : keyed? e = some (k, w))
      (h : Inside u k) : Inside u t
  | value {t inner e k w : Text} (ht : Text.enclosed? '[' ']' (Text.trim t) = some inner)
      (he : e ∈ Text.splitTopLevel ',' inner) (hkeyed : keyed? e = some (k, w))
      (h : Inside u w) : Inside u t

/-- **What no literal is.** -/
inductive Misfit (u : Text) : Prop
  /-- Nothing, as it stands behind a trailing comma. -/
  | blank (h : Text.isBlankText u = true)
  | null (h : Text.trim u = "null".toList)
  | call {c : Call} (h : Call.ofText? u = some c)
  /-- A collection in which one element has a key and another one has none. -/
  | mixed {inner e e' : Text} (hu : Text.enclosed? '[' ']' (Text.trim u) = some inner)
      (he : e ∈ Text.splitTopLevel ',' inner) (hkeyed : (keyed? e).isSome = true)
      (he' : e' ∈ Text.splitTopLevel ',' inner) (hplain : keyed? e' = none)
  /-- Somewhere more square brackets are closed than opened, those in string literals aside. -/
  | unopened {gs hs : List Glyph} (hu : u.glyphs = gs ++ hs)
      (h : gs.countP (·.is '[') < gs.countP (·.is ']'))
  /-- In the end more square brackets are opened than closed. -/
  | unclosed (h : u.glyphs.countP (·.is ']') < u.glyphs.countP (·.is '['))

variable {t u inner e k w : Text} {v : Value} {read : Text → Option Value}

/-! ## Everything in a collection is read -/

theorem exists_of_mem_mapM {α β : Type} {f : α → Option β} {as : List α} {bs : List β} {a : α}
    (h : as.mapM f = some bs) (ha : a ∈ as) : ∃ b, f a = some b := by
  obtain ⟨cs, rfl, -, hcs⟩ := exists_of_mapM (p := fun c : α × β => c.1) (q := fun c => c.2)
    (R := fun c => f c.1 = some c.2) h fun a _ b hb => ⟨(a, b), rfl, rfl, hb⟩
  obtain ⟨c, hc, rfl⟩ := List.mem_map.mp ha
  exact ⟨c.2, hcs c hc⟩

/-- **A collection that is read**: either all its elements have keys, and all keys and values are
read, or none has, and all elements are. -/
theorem elements_of_collection? (h : collection? read t = some v)
    (ht : Text.enclosed? '[' ']' t = some inner) (hblank : Text.isBlankText inner = false) :
    (∀ e ∈ Text.splitTopLevel ',' inner, ∃ k w, keyed? e = some (k, w) ∧
        (∃ x, read k = some x) ∧ ∃ y, read w = some y) ∨
      ∀ e ∈ Text.splitTopLevel ',' inner, keyed? e = none ∧ ∃ x, read e = some x := by
  rw [collection?, ht] at h
  dsimp only at h
  rw [if_neg (by simp [hblank])] at h
  split at h
  · next hkeyed =>
    refine .inl fun e he => ?_
    obtain ⟨es, hes, -⟩ := Option.map_eq_some_iff.mp h
    rw [mapM_filterMap (List.all_eq_true.mp hkeyed)] at hes
    obtain ⟨x, hx⟩ := exists_of_mem_mapM hes he
    obtain ⟨⟨k, w⟩, hkw, hx⟩ := Option.bind_eq_some_iff.mp hx
    rw [readKeyed] at hx
    split at hx
    · next hkey hvalue => exact ⟨k, w, hkw, ⟨_, hkey⟩, _, hvalue⟩
    · cases hx
  · split at h
    · next hplain =>
      refine .inr fun e he => ?_
      obtain ⟨vs, hvs, -⟩ := Option.map_eq_some_iff.mp h
      exact ⟨Option.isNone_iff_eq_none.mp (List.all_eq_true.mp hplain e he),
        exists_of_mem_mapM hvs he⟩
    · cases h

/-- What denotes a value and stands in brackets is read as a collection. -/
theorem Denotes.exists_collection? (h : Denotes t v) (hline : '\n' ∉ t)
    (ht : Text.enclosed? '[' ']' (Text.trim t) = some inner) :
    ∃ depth, collection? (Literal.readWithin depth) (Text.trim t) = some v := by
  obtain ⟨htoken, -⟩ := h.token_trim hline
  have hline' : '\n' ∉ Text.trim t := fun hmem => hline (Text.mem_of_mem_trim hmem)
  have hread := htoken.read hline' _ (Nat.le_refl _)
  generalize (Text.trim t).length = depth at hread
  -- a bracket is neither a scalar nor a truth value
  rw [Text.eq_of_enclosed? (by decide) ht] at hread ⊢
  exact ⟨depth, hread⟩

variable {c : Char}

theorem mem_of_mem_element (ht : Text.enclosed? '[' ']' (Text.trim t) = some inner)
    (he : e ∈ Text.splitTopLevel ',' inner) (hc : c ∈ e) : c ∈ t := by
  refine Text.mem_of_mem_trim ?_
  rw [Text.eq_of_enclosed? (by decide) ht]
  exact List.mem_cons_of_mem _ (List.mem_append_left _ (Text.mem_of_mem_splitTopLevel he hc))

theorem mem_of_mem_keyed (hkeyed : keyed? e = some (k, w)) : (c ∈ k → c ∈ e) ∧ (c ∈ w → c ∈ e) := by
  obtain ⟨a, b, rfl, rfl, rfl⟩ := exists_of_keyed? hkeyed
  exact ⟨fun hc => List.mem_append_left _ (Text.mem_of_mem_trim hc),
    fun hc => List.mem_append_right _ (List.mem_cons_of_mem _ (Text.mem_of_mem_trim hc))⟩

/-- An element with a key has a colon in it, so it does not stand in a blank text. -/
theorem isBlankText_of_keyed (he : e ∈ Text.splitTopLevel ',' inner)
    (hkeyed : keyed? e = some (k, w)) : Text.isBlankText inner = false := by
  obtain ⟨a, b, rfl, -⟩ := exists_of_keyed? hkeyed
  have hcolon : ':' ∈ inner := Text.mem_of_mem_splitTopLevel he (by simp)
  by_contra hblank
  have hall := List.all_eq_true.mp ((Bool.not_eq_false _).mp hblank) ':' hcolon
  exact absurd hall (by decide)

/-- The key and the value of an entry of what denotes a value denote values. -/
theorem Denotes.keyed (h : Denotes t v) (hline : '\n' ∉ t)
    (ht : Text.enclosed? '[' ']' (Text.trim t) = some inner)
    (he : e ∈ Text.splitTopLevel ',' inner) (hkeyed : keyed? e = some (k, w)) :
    (∃ x, Denotes k x) ∧ ∃ y, Denotes w y := by
  obtain ⟨depth, hread⟩ := h.exists_collection? hline ht
  rcases elements_of_collection? hread ht (isBlankText_of_keyed he hkeyed) with hall | hall
  · obtain ⟨k', w', hkeyed', ⟨x, hx⟩, y, hy⟩ := hall e he
    obtain ⟨rfl, rfl⟩ := Prod.mk.inj (Option.some.inj (hkeyed.symm.trans hkeyed'))
    exact ⟨⟨x, denotes_of_readWithin hx⟩, y, denotes_of_readWithin hy⟩
  · rw [(hall e he).1] at hkeyed
    cases hkeyed

/-- **Everything inside a text that denotes a value denotes a value.** -/
theorem Inside.denotes (h : Inside u t) : ∀ {v : Value}, Denotes t v → '\n' ∉ t →
    '\n' ∉ u ∧ ∃ x, Denotes u x := by
  induction h with
  | here => exact fun hv hline => ⟨hline, _, hv⟩
  | element ht hblank he hkeyed _ ih =>
    intro v hv hline
    obtain ⟨depth, hread⟩ := hv.exists_collection? hline ht
    rcases elements_of_collection? hread ht hblank with hall | hall
    · obtain ⟨k, w, hsome, -⟩ := hall _ he
      exact absurd (hkeyed.symm.trans hsome) (by simp)
    · obtain ⟨-, x, hx⟩ := hall _ he
      exact ih (denotes_of_readWithin hx) fun hmem => hline (mem_of_mem_element ht he hmem)
  | key ht he hkeyed _ ih =>
    intro v hv hline
    obtain ⟨⟨x, hx⟩, -⟩ := hv.keyed hline ht he hkeyed
    exact ih hx fun hmem => hline (mem_of_mem_element ht he ((mem_of_mem_keyed hkeyed).1 hmem))
  | value ht he hkeyed _ ih =>
    intro v hv hline
    obtain ⟨-, y, hy⟩ := hv.keyed hline ht he hkeyed
    exact ih hy fun hmem => hline (mem_of_mem_element ht he ((mem_of_mem_keyed hkeyed).2 hmem))

/-! ## Misfits denote nothing -/

/-- A text that denotes a value is matched: a bracket around it closes behind it. -/
theorem Denotes.closesAtEnd (h : Denotes t v) (hline : '\n' ∉ t) :
    Text.closesAtEnd '[' ']' 1 (t.glyphs ++ [⟨']', false⟩]) = true :=
  (h.whole hline).matched 0 _ (List.cons_ne_nil _ _)

/-- **What denotes a value is no misfit.** -/
theorem Misfit.not_denotes (h : Misfit u) (hline : '\n' ∉ u) : ¬Denotes u v := by
  intro hv
  cases h with
  | blank h =>
    rw [hv.isBlankText hline] at h
    cases h
  | null h =>
    obtain ⟨htoken, -⟩ := hv.token_trim hline
    exact (htoken.not_named fun hmem => hline (Text.mem_of_mem_trim hmem)).2 h
  | call h =>
    obtain ⟨htoken, -⟩ := hv.token_trim hline
    have hnone := (htoken.not_named fun hmem => hline (Text.mem_of_mem_trim hmem)).1
    rw [Call.ofText?, Text.trim_trim, ← Call.ofText?] at hnone
    rw [hnone] at h
    cases h
  | mixed hu he hkeyed he' hplain =>
    obtain ⟨⟨k, w⟩, hkw⟩ := Option.isSome_iff_exists.mp hkeyed
    obtain ⟨depth, hread⟩ := hv.exists_collection? hline hu
    rcases elements_of_collection? hread hu (isBlankText_of_keyed he hkw) with hall | hall
    · obtain ⟨k', w', hsome, -⟩ := hall _ he'
      exact absurd (hplain.symm.trans hsome) (by simp)
    · exact absurd ((hall _ he).1.symm.trans hkw) (by simp)
  | @unopened gs hs hu h =>
    have hcloses := hv.closesAtEnd hline
    rw [hu, List.append_assoc] at hcloses
    have := Text.countP_of_closesAtEnd (by decide) (List.concat_ne_nil _ _) hcloses
    omega
  | unclosed h =>
    have hcount := Text.countP_eq_of_closesAtEnd (by decide) (hv.closesAtEnd hline)
    simp [Glyph.is] at hcount h
    omega

/-- **Literals are what the grammar derives.** A text in a line is read as a value exactly if it
denotes the value, and the same value is then read on a right-hand side. A text with a misfit inside
is read as nothing, and on a right-hand side not as a literal. -/
theorem read?_iff_denotes (hline : '\n' ∉ t) :
    (∀ v, read? t = some v ↔ Denotes t v) ∧
    (∀ v, Expression.ofText? t = some (.literal v) ↔ Denotes t v) ∧
    ∀ u, Inside u t → Misfit u →
      read? t = none ∧ ∀ v, Expression.ofText? t ≠ some (.literal v) := by
  have hmisfit : ∀ {u v}, Inside u t → Misfit u → ¬Denotes t v := fun hin hmisfit hv => by
    obtain ⟨hline', x, hx⟩ := hin.denotes hv hline
    exact hmisfit.not_denotes hline' hx
  refine ⟨fun v => ⟨denotes_of_readWithin, fun h => h.readWithin hline _ (Nat.le_refl _)⟩,
    fun v => ⟨denotes_of_ofText?, fun h => h.ofText? hline⟩, fun u hin hu => ⟨?_, fun v hv => ?_⟩⟩
  · exact Option.eq_none_iff_forall_ne_some.mpr fun v hv =>
      hmisfit hin hu (denotes_of_readWithin hv)
  · exact hmisfit hin hu (denotes_of_ofText? hv)

/-- A map with separators, brackets and escapes in its strings, and an array with a call two
levels down. -/
theorem read?_iff_denotes_nested :
    '\n' ∉ "[ 'a,]' : [1, -20 ] , \"\\\"\\n\":True]".toList ∧
    Denotes "[ 'a,]' : [1, -20 ] , \"\\\"\\n\":True]".toList
      (.map [(.string "a,]", .array [.integer 1, .integer (-20)]),
        (.string "\"\n", .boolean true)]) ∧
    '\n' ∉ "[1, [2, f(3)]]".toList ∧ Inside "f(3)".toList "[1, [2, f(3)]]".toList ∧
    Misfit "f(3)".toList ∧ read? "[1, [2, f(3)]]".toList = none := by
  have houter : Text.enclosed? '[' ']' (Text.trim "[1, [2, f(3)]]".toList) =
      some "1, [2, f(3)]".toList := rfl
  have hinner : Text.enclosed? '[' ']' (Text.trim "[2, f(3)]".toList) =
      some "2, f(3)".toList := rfl
  have hinside : Inside "f(3)".toList "[1, [2, f(3)]]".toList :=
    .element (e := "[2, f(3)]".toList) houter (by decide) (by decide) rfl
      (.element hinner (by decide) (by decide) rfl .here)
  have hmisfit : Misfit "f(3)".toList := .call (c := ⟨"f", ["3"]⟩) rfl
  refine ⟨by decide, ((read?_iff_denotes (by decide)).1 _).mp rfl, by decide, hinside, hmisfit, ?_⟩
  exact ((read?_iff_denotes (by decide)).2.2 _ hinside hmisfit).1

end BraceTree.Literal
