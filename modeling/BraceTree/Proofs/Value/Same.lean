import BraceTree.Proofs.Decimal.Numbers
import BraceTree.Proofs.Value.Derived

/-!
# Which values are equal

Values are equal if they are built alike and have equal strings, numbers and truth values in the
same places. This is symmetric and transitive, as it is for doubles, and a value is equal to itself
if the doubles in it are (`Value.same_self`). The last holds of what a literal says and of what a
type makes of it (`Value.same_coerce_self`), since no literal leads out of the numbers.

So the values equal to a given one are as good as that one for everything that asks for equality
only. Where one of them is added to a list and another one removed, every value occurs as often as
before (`Value.countP_eraseP_append_same`).
-/

namespace BraceTree

variable {a b c v w : Value} {items : List Value} {entries : List (Value × Value)} {x : Float}
  {t : Text}

/-- A relation between lists is carried on where it is for each element of the first one. -/
theorem forall₂_trans {α : Type} {R : α → α → Prop} : ∀ {as bs cs : List α},
    (∀ a ∈ as, ∀ b c, R a b → R b c → R a c) →
      List.Forall₂ R as bs → List.Forall₂ R bs cs → List.Forall₂ R as cs
  | [], _, _, _, .nil, h => h
  | a :: _, _, _, hR, .cons hab has, .cons hbc hbs =>
    .cons (hR a List.mem_cons_self _ _ hab hbc)
      (forall₂_trans (fun a ha => hR a (List.mem_cons_of_mem _ ha)) has hbs)

namespace Value

/-! ## Collections -/

theorem sameItems_iff : ∀ {items items' : List Value}, sameItems items items' = true ↔
    List.Forall₂ (fun v w => v.same w = true) items items'
  | [], [] => by simp [sameItems]
  | [], _ :: _ => by simp [sameItems]
  | _ :: _, [] => by simp [sameItems]
  | v :: vs, w :: ws => by
    rw [sameItems, Bool.and_eq_true, sameItems_iff, List.forall₂_cons]

theorem sameEntries_iff : ∀ {entries entries' : List (Value × Value)},
    sameEntries entries entries' = true ↔
      List.Forall₂ (fun e f => e.1.same f.1 = true ∧ e.2.same f.2 = true) entries entries'
  | [], [] => by simp [sameEntries]
  | [], _ :: _ => by simp [sameEntries]
  | _ :: _, [] => by simp [sameEntries]
  | (_, _) :: es, (_, _) :: fs => by
    rw [sameEntries, Bool.and_eq_true, Bool.and_eq_true, sameEntries_iff, List.forall₂_cons]

/-- What is equal to an array is an array of equal items. -/
theorem same_array_iff : (Value.array items).same w = true ↔
    ∃ items', w = .array items' ∧ List.Forall₂ (fun v w => v.same w = true) items items' := by
  cases w <;> simp [same, sameItems_iff]

/-- What is equal to a map is a map of equal entries. -/
theorem same_map_iff : (Value.map entries).same w = true ↔
    ∃ entries', w = .map entries' ∧
      List.Forall₂ (fun e f => e.1.same f.1 = true ∧ e.2.same f.2 = true) entries entries' := by
  cases w <;> simp [same, sameEntries_iff]

theorem same_double_iff : (Value.double x).same w = true ↔
    ∃ y, w = .double y ∧ (x == y) = true := by
  cases w <;> simp [same]

/-! ## An equality of values -/

theorem same_symm (h : a.same b = true) : b.same a = true := by
  induction a using Value.induction generalizing b with
  | string | integer | boolean =>
    cases b <;> simp_all [same]
  | double x =>
    obtain ⟨y, rfl, hxy⟩ := same_double_iff.mp h
    exact same_double_iff.mpr ⟨x, rfl, BEq.symm hxy⟩
  | array items ih =>
    obtain ⟨items', rfl, hitems⟩ := same_array_iff.mp h
    refine same_array_iff.mpr ⟨items, rfl, List.Forall₂.flip ?_⟩
    exact ((List.forall₂_and_left _ _).mpr ⟨ih, hitems⟩).imp fun _ _ hvw => hvw.1 hvw.2
  | map entries ih =>
    obtain ⟨entries', rfl, hentries⟩ := same_map_iff.mp h
    refine same_map_iff.mpr ⟨entries, rfl, List.Forall₂.flip ?_⟩
    exact ((List.forall₂_and_left _ _).mpr ⟨ih, hentries⟩).imp fun _ _ hef =>
      ⟨hef.1.1 hef.2.1, hef.1.2 hef.2.2⟩

theorem same_trans (hab : a.same b = true) (hbc : b.same c = true) : a.same c = true := by
  induction a using Value.induction generalizing b c with
  | string | integer | boolean =>
    cases b <;> cases c <;> simp_all [same]
  | double x =>
    obtain ⟨y, rfl, hxy⟩ := same_double_iff.mp hab
    obtain ⟨z, rfl, hyz⟩ := same_double_iff.mp hbc
    exact same_double_iff.mpr ⟨z, rfl, BEq.trans hxy hyz⟩
  | array items ih =>
    obtain ⟨items', rfl, hitems⟩ := same_array_iff.mp hab
    obtain ⟨items'', rfl, hitems'⟩ := same_array_iff.mp hbc
    exact same_array_iff.mpr ⟨items'', rfl,
      forall₂_trans (fun v hv _ _ => ih v hv) hitems hitems'⟩
  | map entries ih =>
    obtain ⟨entries', rfl, hentries⟩ := same_map_iff.mp hab
    obtain ⟨entries'', rfl, hentries'⟩ := same_map_iff.mp hbc
    exact same_map_iff.mpr ⟨entries'', rfl, forall₂_trans (fun e he _ _ hef hfg =>
      ⟨(ih e he).1 hef.1 hfg.1, (ih e he).2 hef.2 hfg.2⟩) hentries hentries'⟩

/-- **Equal values are equal to the same values.** -/
theorem same_congr (h : a.same b = true) (w : Value) : a.same w = b.same w :=
  Bool.eq_iff_iff.mpr ⟨same_trans (same_symm h), same_trans h⟩

/-- **A value whose doubles are numbers is equal to itself.** -/
theorem same_self (h : ∀ x, HasDouble x v → x ≠ Float.nan) : v.same v = true := by
  induction v using Value.induction with
  | string | integer | boolean => simp [same]
  | double x => exact same_double_iff.mpr ⟨x, rfl, Float.beq_self_iff.mpr (h x .here)⟩
  | array items ih =>
    exact same_array_iff.mpr ⟨items, rfl, List.forall₂_same.mpr fun v hv =>
      ih v hv fun x hx => h x (.item hv hx)⟩
  | map entries ih =>
    exact same_map_iff.mpr ⟨entries, rfl, List.forall₂_same.mpr fun e he =>
      ⟨(ih e he).1 fun x hx => h x (.key he hx), (ih e he).2 fun x hx => h x (.value he hx)⟩⟩

end Value

/-! ## What literals say -/

namespace Literal

mutual

/-- **The doubles that a text denotes are numbers.** -/
theorem Denotes.ne_nan : ∀ {t : Text} {v : Value}, Denotes t v → Value.HasDouble x v →
    x ≠ Float.nan
  | _, _, .value _ h _, hx => h.ne_nan hx

theorem Token.ne_nan : ∀ {t : Text} {v : Value}, Token t v → Value.HasDouble x v →
    x ≠ Float.nan
  | _, _, .double _ _ _ h, .here => Decimal.doubleValue?_ne_nan h
  | _, _, .array _ h, .item hmem hx => by
    obtain ⟨i, hi, rfl⟩ := List.mem_map.mp hmem
    exact (h i hi).ne_nan hx
  | _, _, .map _ h _, .key hmem hx => by
    obtain ⟨e, he, rfl⟩ := List.mem_map.mp hmem
    exact (h e he).ne_nan hx
  | _, _, .map _ _ h, .value hmem hx => by
    obtain ⟨e, he, rfl⟩ := List.mem_map.mp hmem
    exact (h e he).ne_nan hx

end

end Literal

namespace TypeName

/-- Coercing brings no doubles into a value but those for integers. -/
theorem ne_nan_of_coerce (h : ∀ x, Value.HasDouble x v → x ≠ Float.nan) (type : TypeName)
    (hx : Value.HasDouble x (type.coerce v)) : x ≠ Float.nan := by
  induction type generalizing v with
  | string | integer | boolean => exact h x hx
  | double =>
    cases v with
    | integer n =>
      cases hx
      exact Decimal.ofInt_ne_nan n.toInt
    | _ => exact h x hx
  | array e ih =>
    cases v with
    | array items =>
      rw [coerce] at hx
      cases hx with
      | item hmem hx =>
        obtain ⟨v, hv, rfl⟩ := List.mem_map.mp hmem
        exact ih (fun x hx => h x (.item hv hx)) hx
    | _ => exact h x hx
  | map k w ihkey ihvalue =>
    cases v with
    | array items =>
      cases hx with
      | key hmem | value hmem => exact absurd hmem List.not_mem_nil
    | map entries =>
      rw [coerce] at hx
      cases hx with
      | key hmem hx =>
        obtain ⟨e, he, rfl⟩ := List.mem_map.mp hmem
        exact ihkey (fun x hx => h x (.key he hx)) hx
      | value hmem hx =>
        obtain ⟨e, he, rfl⟩ := List.mem_map.mp hmem
        exact ihvalue (fun x hx => h x (.value he hx)) hx
    | _ => exact h x hx

end TypeName

namespace Value

/-- **What a type makes of a literal is equal to itself.** -/
theorem same_coerce_self (h : Expression.ofText? t = some (.literal v)) (type : TypeName) :
    (type.coerce v).same (type.coerce v) = true :=
  same_self fun _ hx =>
    type.ne_nan_of_coerce (fun _ hx => (Literal.denotes_of_ofText? h).ne_nan hx) hx

/-! ## Removing what was added -/

/-- What removing a value from the end of a list leaves, where it has just been added: the first
equal value goes instead, if there is one, and the added one stays behind the others. -/
theorem eraseP_append_same (items : List Value) (hself : v.same v = true) :
    (∃ before found after, items = before ++ found :: after ∧
      (∀ i ∈ before, i.same v = false) ∧ found.same v = true ∧
      (items ++ [v]).eraseP (fun i => i.same v) = before ++ (after ++ [v])) ∨
    ((∀ i ∈ items, i.same v = false) ∧ (items ++ [v]).eraseP (fun i => i.same v) = items) := by
  by_cases hany : ∃ i ∈ items, i.same v = true
  · obtain ⟨i, hi, hsame⟩ := hany
    obtain ⟨found, before, after, hbefore, hfound, hitems, herase⟩ :=
      List.exists_of_eraseP (p := fun i : Value => i.same v) hi hsame
    refine .inl ⟨before, found, after, hitems, fun i hi => ?_, hfound, ?_⟩
    · exact Bool.eq_false_iff.mpr (hbefore i hi)
    · rw [List.eraseP_append_left (p := fun i : Value => i.same v) hsame _ hi, herase,
        List.append_assoc]
  · have hnone : ∀ i ∈ items, ¬ i.same v = true := fun i hi hsame => hany ⟨i, hi, hsame⟩
    refine .inr ⟨fun i hi => Bool.eq_false_iff.mpr (hnone i hi), ?_⟩
    rw [List.eraseP_append_right (p := fun i : Value => i.same v) _ hnone,
      List.eraseP_cons_of_pos (p := fun i : Value => i.same v) hself, List.append_nil]

/-- **Removing a value that has just been added leaves every value as often as before**, whichever
of the equal ones is removed. -/
theorem countP_eraseP_append_same (items : List Value) (hself : v.same v = true) (w : Value) :
    ((items ++ [v]).eraseP fun i => i.same v).countP (fun i => i.same w) =
      items.countP fun i => i.same w := by
  obtain ⟨before, found, after, rfl, -, hfound, herase⟩ | ⟨-, herase⟩ :=
    eraseP_append_same items hself
  · rw [herase]
    simp only [List.countP_append, List.countP_cons, List.countP_nil, same_congr hfound]
    omega
  · rw [herase]

end Value
end BraceTree
