import BraceTree.Proofs.Statement.Resolved

/-!
# Updates of one variable in a row

Several updates of one variable may stand in different blocks, but as long as the name means the
same variable in all of them, what they do to the tree is what they do to the variable: each goes on
from the binding that the one before it left (`Variable.after`), and together they replace one
binding by another (`Visit.run_updates`). So what is to be known about a run of updates can be found
out without a tree.
-/

namespace BraceTree

/-- An update that is no assignment goes on from what the variable holds. -/
theorem Binding.updated_eq_compound {x : Variable} {op : Operator} {operand : Text}
    (hop : op ≠ .assign) :
    updated x op operand = compound x.type x.name x.binding op operand := by
  cases op <;> first | rfl | exact absurd rfl hop

/-- A variable after some updates, or what is wrong with the first of them that is refused. -/
def Variable.after (x : Variable) : List (Operator × Text) → Except Problem Variable
  | [] => .ok x
  | (op, operand) :: us =>
    match Binding.updated x op operand with
    | .error p => .error p
    | .ok binding => after { x with binding } us

namespace BlockTree

variable {t t' t'' : BlockTree} {owner block : Nat} {name : String} {x y : Variable}
  {b b' : Binding}

/-- A variable may be given the binding that it has. -/
theorem Rebinds.refl (hx : (t.get owner).scope.get? name = some x) :
    t.Rebinds owner name x.binding t where
  here id v hv := by
    obtain rfl : x = v := Option.some.inj (hx.symm.trans (get?_of_lookup? hv))
    exact hv
  elsewhere _ _ _ := rfl

/-- Of two bindings given to one variable the second one counts. -/
theorem Rebinds.trans (h : t.Rebinds owner name b t') (h' : t'.Rebinds owner name b' t'') :
    t.Rebinds owner name b' t'' where
  here id v hv := h'.here id { v with binding := b } (h.here id v hv)
  elsewhere id other hne := by
    refine (h'.elsewhere id other fun ⟨hother, v, hv⟩ => hne ⟨hother, ?_⟩).trans
      (h.elsewhere id other hne)
    -- it would mean the variable before as well, since it means the same
    rw [hother] at hne
    rw [h.elsewhere id name hne] at hv
    exact ⟨v, hv⟩

end BlockTree

namespace Visit

variable {lines : List Line} {t : BlockTree} {owner : Nat} {name : String} {x y : Variable}
  {v : Visit} {op : Operator} {operand : Text}

/-- **An update that is not refused replaces one binding.** -/
theorem exists_rebinds (lines : List Line) (ht : t.Filed)
    (hlookup : t.lookup? v.block name = some (owner, x)) (hmutable : x.isMutable = true)
    (hread : Statement.read? v.text = some (.update name op operand)) {b : Binding}
    (hb : Binding.updated x op operand = .ok b) :
    ∃ t', v.apply lines t = .ok t' ∧ t'.Filed ∧ t.Rebinds owner name b t' ∧
      (t'.get owner).scope.get? name = some { x with binding := b } := by
  have hsome : (t.setBinding? v.block name b).isSome = true := by
    rw [ht.isSome_setBinding?, hlookup]
    rfl
  obtain ⟨t', ht'⟩ := Option.isSome_iff_exists.mp hsome
  refine ⟨t', ?_, (ht.edit? (e := .set v.block name b) ht').1, ht.rebinds hlookup ht', ?_⟩
  · rw [apply_update lines t hread, Statement.updateVariable, hlookup]
    dsimp only
    rw [if_pos hmutable, hb]
    dsimp only
    rw [ht', Option.getD_some]
  · rw [ht.get?_of_setBinding? hlookup ht', if_pos ⟨rfl, rfl⟩]

/-- **Updates in a row replace one binding**: the variable holds what is left of it after all of
them, and nothing else changes. -/
theorem run_updates (lines : List Line) : ∀ {us : List (Operator × Text)} {vs : List Visit}
    {t : BlockTree} {x : Variable}, t.Filed → (t.get owner).scope.get? name = some x →
    x.isMutable = true →
    List.Forall₂ (fun v u => Statement.read? v.text = some (.update name u.1 u.2) ∧
      t.lookup? v.block name = some (owner, x)) vs us →
    x.after us = .ok y →
    ∃ t', run lines t vs = (t', []) ∧ t'.Filed ∧ t.Rebinds owner name y.binding t'
  | [], _, t, x, ht, hx, _, .nil, hy => by
    obtain rfl := Except.ok.inj hy
    exact ⟨t, rfl, ht, .refl hx⟩
  | (op, operand) :: us, v :: vs, t, x, ht, hx, hmutable, .cons ⟨hread, hlookup⟩ hvs, hy => by
    rw [Variable.after] at hy
    split at hy
    · cases hy
    next b hb =>
    obtain ⟨t₁, happly, ht₁, hrebinds, hx₁⟩ :=
      exists_rebinds lines ht hlookup hmutable hread hb
    obtain ⟨t', hrun, ht', hrebinds'⟩ := run_updates lines ht₁ hx₁ hmutable
      (hvs.imp fun _ _ h => ⟨h.1, hrebinds.here _ _ h.2⟩) hy
    refine ⟨t', ?_, ht', hrebinds.trans hrebinds'⟩
    rw [run, happly]
    exact hrun

end Visit
end BraceTree
