import BraceTree.Proofs.Scope.WellTyped

/-!
# Names in a scope that is edited

A declaration and a replaced binding are both found again by name, whatever else the scope holds.
Neither needs a well-typed scope. It is enough that variables are *filed*, each in the collection of
its kind, as this is where the name is sought again once the variable has been found, and where its
binding is replaced. Both edits keep a scope filed, also where the new binding does not fit the
type.
-/

namespace BraceTree.Scope

variable {s s' : Scope} {v w : Variable} {k : Kind} {name other : String} {b : Binding}

theorem WellTyped.filed (h : s.WellTyped) : s.Filed := h.arranged.filed

/-! ## A declaration -/

/-- Looking for a name in one collection after a declaration. -/
theorem find?_of_declare? (h : s.declare? v = some s') (k : Kind) (name : String) :
    (s'.collection k).find? (·.name == name) =
      if k = v.kind ∧ v.name = name then some v else (s.collection k).find? (·.name == name) := by
  have hadds := adds_of_declare? h
  by_cases hk : k = v.kind
  · subst hk
    obtain ⟨before, after, hs, hs'⟩ := hadds.at_kind
    by_cases hname : v.name = name
    · have hbefore : before.find? (·.name == name) = none := by
        refine List.find?_eq_none.mpr fun w hw heq => ?_
        refine hadds.absent v.kind w (hs ▸ List.mem_append_left after hw) ?_
        exact (beq_iff_eq.mp heq).trans hname.symm
      rw [if_pos ⟨rfl, hname⟩, hs', List.find?_append, hbefore, Option.none_or]
      exact List.find?_cons_of_pos (beq_iff_eq.mpr hname)
    · rw [if_neg fun hv => hname hv.2, hs', hs, List.find?_append, List.find?_append]
      exact congrArg _ (List.find?_cons_of_neg fun heq => hname (beq_iff_eq.mp heq))
  · rw [if_neg fun hv => hk hv.1, hadds.others k hk]

/-- **After a declaration its name is the new variable** and every other name is what it was. -/
theorem get?_of_declare? (h : s.declare? v = some s') (name : String) :
    s'.get? name = if v.name = name then some v else s.get? name := by
  simp only [get?, find?_of_declare? h]
  by_cases hname : v.name = name
  · subst hname
    have habsent : ∀ k, (s.collection k).find? (·.name == v.name) = none := fun k =>
      List.find?_eq_none.mpr fun w hw => by
        simpa using (adds_of_declare? h).absent k w hw
    simp only [habsent, if_true, and_true]
    cases v.kind <;> rfl
  · simp only [hname, and_false, if_false]

theorem Filed.declare? (hs : s.Filed) (h : s.declare? v = some s') : s'.Filed := by
  intro k w hw
  obtain hw | ⟨rfl, rfl⟩ := (adds_of_declare? h).mem_iff.mp hw
  · exact hs k w hw
  · rfl

/-- **A declaration is refused where its name is taken**, by a variable of whichever kind. -/
theorem declare?_eq_none_iff :
    s.declare? v = none ↔ ∃ w ∈ s.toList, w.name = v.name := by
  have hnone : s.declare? v = none ↔ ¬s.get? v.name = none := by
    rw [Scope.declare?, contains]
    cases s.get? v.name <;> simp
  rw [hnone, get?_eq_none_iff]
  simp only [toList, List.mem_flatMap, not_forall, ne_eq, not_not]
  constructor
  · rintro ⟨k, w, hw, hname⟩
    exact ⟨w, ⟨k, k.mem_all, hw⟩, hname⟩
  · rintro ⟨w, ⟨k, -, hw⟩, hname⟩
    exact ⟨k, w, hw, hname⟩

/-! ## A replaced binding -/

/-- A variable with another binding, if it has the name. -/
def rebind (name : String) (b : Binding) (w : Variable) : Variable :=
  if w.name = name then { w with binding := b } else w

@[simp] theorem name_rebind : (rebind name b w).name = w.name := by
  rw [rebind]
  split <;> rfl

@[simp] theorem kind_rebind : (rebind name b w).kind = w.kind := by
  rw [rebind]
  split <;> rfl

theorem rebind_of_ne (h : w.name ≠ name) : rebind name b w = w := if_neg h

theorem setBinding?_eq_some (h : s.setBinding? name b = some s') :
    ∃ v, s.get? name = some v ∧ s' = s.modifyCollection v.kind (List.map (rebind name b)) := by
  obtain ⟨v, hv, hset⟩ := Option.bind_eq_some_iff.mp h
  obtain ⟨-, -, hs'⟩ := Option.map_eq_some_iff.mp hset
  exact ⟨v, hv, hs'.symm⟩

/-- **In a filed scope a binding is replaced where the name means something.** -/
theorem Filed.isSome_setBinding? (hs : s.Filed) (name : String) (b : Binding) :
    (s.setBinding? name b).isSome = (s.get? name).isSome := by
  rw [Scope.setBinding?, hs.reach?_eq]
  cases s.get? name <;> rfl

/-- Looking for a name in a collection whose variables keep their names. -/
theorem find?_map_rebind (vs : List Variable) (other : String) :
    (vs.map (rebind name b)).find? (·.name == other) =
      (vs.find? (·.name == other)).map (rebind name b) := by
  rw [List.find?_map]
  congr 2
  funext w
  simp

/-- **After a binding is replaced, its name is the variable with the new binding**, and every other
name is what it was. -/
theorem get?_of_setBinding? (hs : s.Filed) (h : s.setBinding? name b = some s')
    (hv : s.get? name = some v) (other : String) :
    s'.get? other = if other = name then some { v with binding := b } else s.get? other := by
  obtain ⟨v', hv', rfl⟩ := setBinding?_eq_some h
  obtain rfl : v = v' := Option.some.inj (hv.symm.trans hv')
  split
  · next hother =>
    subst hother
    obtain ⟨before, k, after, hall, hk, hbefore⟩ := List.findSome?_eq_some_iff.mp hv
    -- the first collection with the name is the one of the variable's kind
    obtain rfl : v.kind = k := hs k v (List.mem_of_find?_eq_some hk)
    have hname : v.name = other := by simpa using List.find?_some hk
    refine List.findSome?_eq_some_iff.mpr ⟨before, v.kind, after, hall, ?_, fun l hl => ?_⟩
    · rw [collection_modifyCollection_self, find?_map_rebind, hk]
      exact congrArg some (if_pos hname)
    · rw [collection_modifyCollection]
      split
      · rw [find?_map_rebind, hbefore l hl]
        rfl
      · exact hbefore l hl
  · next hother =>
    rw [get?, get?]
    congr 1
    funext k
    rw [collection_modifyCollection]
    split
    · rw [find?_map_rebind]
      cases hw : (s.collection k).find? (·.name == other) with
      | none => rfl
      | some w =>
        have hname : w.name = other := by simpa using List.find?_some hw
        exact congrArg some (rebind_of_ne (hname ▸ hother))
    · rfl

theorem Filed.setBinding? (hs : s.Filed) (h : s.setBinding? name b = some s') : s'.Filed := by
  obtain ⟨v, -, rfl⟩ := setBinding?_eq_some h
  intro k w hw
  rw [collection_modifyCollection] at hw
  split at hw
  · obtain ⟨x, hx, rfl⟩ := List.mem_map.mp hw
    rw [kind_rebind]
    exact hs k x hx
  · exact hs k w hw

end BraceTree.Scope
