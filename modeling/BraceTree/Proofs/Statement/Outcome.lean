import BraceTree.Proofs.Block.Arena
import BraceTree.Proofs.Scope.WellTyped
import BraceTree.Proofs.Text.Trim

/-!
# What a statement can do to the tree

A declaration, an update and a call each have their own way of changing a tree, and their own ways
of failing. What they have in common is that they change one block or none: `Alters` says which
block and into what, and an `Outcome` says which change it is. A statement that is reported changes
nothing.

The steps read the tree twice. An update looks its variable up to see whether it may be changed, and
looks the name up again to change it. That both come to the same variable is where well-typed scopes
are needed, and only there.
-/

namespace BraceTree

namespace BlockTree

/-- A tree whose scopes are all well-typed. -/
def WellTyped (t : BlockTree) : Prop := ∀ id : Nat, (t.get id).scope.WellTyped

/-- **One block of a tree is altered**, and all others stay. -/
structure Alters (t : BlockTree) (id : BlockId) (b : Block) (t' : BlockTree) : Prop where
  size_eq : t'.size = t.size
  here : t'.get id = b
  elsewhere : ∀ i : Nat, i ≠ id → t'.get i = t.get i

variable {t t' : BlockTree} {id owner : Nat} {name : String} {v : Variable} {b : Binding}

theorem alters_modify (t : BlockTree) (h : id < t.size) (f : Block → Block) :
    t.Alters id (f (t.get id)) (t.modify id f) :=
  ⟨t.size_modify id f, t.get_modify_self h f, fun _ hi => t.get_modify_ne hi.symm f⟩

/-- The block after the change holds what it held if the new block does and the others did. -/
theorem Alters.forall_get {P : Block → Prop} {blk : Block} (h : t.Alters id blk t') (hblk : P blk)
    (ht : ∀ i : Nat, P (t.get i)) (i : Nat) : P (t'.get i) := by
  by_cases hi : i = id
  · rw [hi, h.here]
    exact hblk
  · rw [h.elsewhere i hi]
    exact ht i

/-! ## Looking a name up along the way to the root -/

theorem get?_of_lookup? (h : t.lookup? id name = some (owner, v)) :
    (t.get owner).scope.get? name = some v := by
  obtain ⟨i, -, hi⟩ := List.exists_of_findSome?_eq_some h
  obtain ⟨w, hw, heq⟩ := Option.map_eq_some_iff.mp hi
  obtain ⟨rfl, rfl⟩ := Prod.mk.inj heq
  exact hw

/-- A variable is declared in a block of the tree. -/
theorem lt_size_of_get? (h : (t.get owner).scope.get? name = some v) : owner < t.size := by
  by_contra hge
  rw [get_of_size_le _ (Nat.le_of_not_lt hge)] at h
  obtain ⟨⟨k, hk⟩, -⟩ := Scope.mem_of_get? h
  cases k <;> exact absurd hk List.not_mem_nil

/-! ## The three edits -/

theorem declare?_eq_some (hid : id < t.size) (h : t.declare? id v = some t') :
    ∃ s, (t.get id).scope.declare? v = some s ∧
      t.Alters id { t.get id with scope := s } t' := by
  obtain ⟨s, hs, rfl⟩ := Option.map_eq_some_iff.mp h
  exact ⟨s, hs, t.alters_modify hid fun blk => { blk with scope := s }⟩

/-- **The binding that is replaced is the one of the variable that was looked up.** -/
theorem WellTyped.setBinding? (h : t.WellTyped) (hv : t.lookup? id name = some (owner, v))
    (b : Binding) : ∃ s t', t.setBinding? id name b = some t' ∧
      (t.get owner).scope.Rebinds v b s ∧ t.Alters owner { t.get owner with scope := s } t' := by
  have hget := get?_of_lookup? hv
  obtain ⟨s, hs, hrebinds⟩ := (h owner).setBinding? hget b
  refine ⟨s, t.modify owner fun blk => { blk with scope := s }, ?_, hrebinds,
    t.alters_modify (lt_size_of_get? hget) fun blk => { blk with scope := s }⟩
  rw [BlockTree.setBinding?, hv, Option.bind_some]
  show ((t.get owner).scope.setBinding? name b).map _ = _
  rw [hs]
  rfl

/-! ## What no statement takes away -/

/-- **Every variable of a tree is kept**: with its name, type, mutability and span, and if it may
not be assigned again, with its binding. -/
def Keeps (t t' : BlockTree) : Prop :=
  ∀ (id : Nat) (k : Kind), ∀ v ∈ (t.get id).scope.collection k,
    ∃ v' ∈ (t'.get id).scope.collection k, v'.name = v.name ∧ v'.type = v.type ∧
      v'.isMutable = v.isMutable ∧ v'.span = v.span ∧
      (v.isMutable = false → v'.binding = v.binding)

theorem Keeps.refl (t : BlockTree) : t.Keeps t :=
  fun _ _ v hv => ⟨v, hv, rfl, rfl, rfl, rfl, fun _ => rfl⟩

theorem Keeps.trans {t'' : BlockTree} (h : t.Keeps t') (h' : t'.Keeps t'') : t.Keeps t'' := by
  intro id k v hv
  obtain ⟨w, hw, hname, htype, hmut, hspan, hbind⟩ := h id k v hv
  obtain ⟨x, hx, hname', htype', hmut', hspan', hbind'⟩ := h' id k w hw
  exact ⟨x, hx, hname'.trans hname, htype'.trans htype, hmut'.trans hmut, hspan'.trans hspan,
    fun hval => (hbind' (hmut.trans hval)).trans (hbind hval)⟩

theorem Alters.keeps_of_subset {blk : Block} (h : t.Alters id blk t')
    (hsub : ∀ k, ∀ v ∈ (t.get id).scope.collection k, v ∈ blk.scope.collection k) :
    t.Keeps t' := by
  intro i k v hv
  refine ⟨v, ?_, rfl, rfl, rfl, rfl, fun _ => rfl⟩
  by_cases hi : i = id
  · subst hi
    rw [h.here]
    exact hsub k v hv
  · rw [h.elsewhere i hi]
    exact hv

/-- Replacing the binding of a variable that may be assigned again keeps every variable. -/
theorem Alters.keeps_of_rebinds {s : Scope} (h : t.Alters owner { t.get owner with scope := s } t')
    (hs : (t.get owner).scope.Rebinds v b s) (hmut : v.isMutable = true) : t.Keeps t' := by
  intro i k w hw
  by_cases hi : i = owner
  · subst hi
    rw [h.here]
    by_cases hwv : w ∈ s.collection k
    · exact ⟨w, hwv, rfl, rfl, rfl, rfl, fun _ => rfl⟩
    · -- only the variable itself is not found again as it was
      obtain ⟨rfl, rfl⟩ := hs.eq_of_not_mem hw hwv
      exact ⟨_, hs.rebound_mem, rfl, rfl, rfl, rfl,
        fun hval => absurd (hmut.symm.trans hval) (by simp)⟩
  · rw [h.elsewhere i hi]
    exact ⟨w, hw, rfl, rfl, rfl, rfl, fun _ => rfl⟩

end BlockTree

namespace Statement

open BlockTree (WellTyped Alters Keeps)

variable {lines : List Line} {t t' : BlockTree} {block : Nat} {span : Span}

/-! ## The three kinds of statement -/

/-- **A declaration that is not reported adds its variable**, with what the right-hand side gives a
variable of its type. -/
theorem declareVariable_eq_ok {isMutable : Bool} {name : String} {typeText init : Text}
    (h : declareVariable lines t block span isMutable name typeText init = .ok t') :
    ∃ type b, Binding.ofInitial type name init = .ok b ∧
      t.declare? block ⟨name, isMutable, type, b, span⟩ = some t' := by
  unfold declareVariable at h
  split at h
  · exact absurd h (by simp)
  · rename_i type _
    split at h
    · exact absurd h (by simp)
    · rename_i binding hinit
      split at h
      · rename_i t₁ hdeclare
        obtain rfl := Except.ok.inj h
        exact ⟨type, binding, hinit, hdeclare⟩
      · exact absurd h (by simp)

/-- **An update that is not reported replaces the binding of the variable that its name means**, and
that is a variable which may be assigned again. -/
theorem updateVariable_eq_ok {name : String} {op : Operator} {operand : Text} (ht : t.WellTyped)
    (h : updateVariable lines t block name op operand = .ok t') :
    ∃ (owner : Nat) (v : Variable) (b : Binding) (s : Scope),
      t.lookup? block name = some (owner, v) ∧ v.isMutable = true ∧
      Binding.updated v op operand = .ok b ∧ b.Fits v.type ∧
      (t.get owner).scope.Rebinds v b s ∧ t.Alters owner { t.get owner with scope := s } t' := by
  unfold updateVariable at h
  split at h
  · exact absurd h (by simp)
  · rename_i owner v hlookup
    split at h
    · rename_i hmut
      split at h
      · exact absurd h (by simp)
      · rename_i b hb
        obtain ⟨s, t₁, hset, hrebinds, halters⟩ := ht.setBinding? hlookup b
        rw [hset, Option.getD_some] at h
        obtain rfl := Except.ok.inj h
        obtain ⟨⟨k, hk⟩, -⟩ := Scope.mem_of_get? (BlockTree.get?_of_lookup? hlookup)
        exact ⟨owner, v, b, s, hlookup, hmut, hb, Binding.fits_updated ((ht owner).fits hk) hb,
          hrebinds, halters⟩
    · exact absurd h (by simp)

/-- **A statement keeps every scope well-typed and every variable**, whatever it says. -/
theorem wellTyped_and_keeps_of_apply {s : Statement} (ht : t.WellTyped)
    (h : s.apply lines t block span = .ok t') : t'.WellTyped ∧ t.Keeps t' := by
  cases s with
  | declaration isMutable name typeText init =>
    obtain ⟨type, b, hinit, hdeclare⟩ := declareVariable_eq_ok h
    by_cases hb : block < t.size
    · obtain ⟨s, hs, halters⟩ := BlockTree.declare?_eq_some hb hdeclare
      refine ⟨halters.forall_get (P := fun blk => blk.scope.WellTyped)
        ((ht block).declare? (Binding.fits_ofInitial hinit) hs) ht,
        halters.keeps_of_subset fun k w hw => ?_⟩
      exact (Scope.adds_of_declare? hs).mem_iff.mpr (.inl hw)
    · obtain ⟨s, -, rfl⟩ := Option.map_eq_some_iff.mp hdeclare
      rw [t.modify_of_size_le (Nat.le_of_not_lt hb)]
      exact ⟨ht, .refl t⟩
  | update name op operand =>
    obtain ⟨owner, v, b, s, -, hmut, -, hfits, hrebinds, halters⟩ := updateVariable_eq_ok ht h
    exact ⟨halters.forall_get (P := fun blk => blk.scope.WellTyped)
      ((ht owner).rebinds hrebinds hfits) ht, halters.keeps_of_rebinds hrebinds hmut⟩
  | call c =>
    obtain rfl := Except.ok.inj h
    by_cases hb : block < t.size
    · have halters := t.alters_modify hb fun blk => { blk with calls := blk.calls ++ [⟨c, span⟩] }
      exact ⟨halters.forall_get (P := fun blk => blk.scope.WellTyped) (ht block) ht,
        halters.keeps_of_subset fun _ _ hv => hv⟩
    · rw [BlockTree.addCall, t.modify_of_size_le (Nat.le_of_not_lt hb)]
      exact ⟨ht, .refl t⟩

end Statement

/-! ## The statement in a piece -/

namespace Piece

theorem visit?_of_blank (block : BlockId) {p : Piece} (h : Text.isBlankText p.text = true) :
    p.visit? block = none := by
  unfold visit?
  rw [Text.trim_eq_nil_iff.mpr h]
  rfl

/-- A piece that is not blank holds the statement that is left when the blanks are taken off. -/
theorem visit?_of_not_blank (block : BlockId) {p : Piece} (h : Text.isBlankText p.text = false) :
    p.visit? block = some ⟨block,
      ⟨p.start + Text.bytes (p.text.takeWhile Text.isBlank),
        p.start + Text.bytes (p.text.takeWhile Text.isBlank) + Text.bytes (Text.trim p.text)⟩,
      Text.trim p.text⟩ := by
  have hne : ¬ (Text.trim p.text).isEmpty = true := by
    rw [List.isEmpty_iff, Text.trim_eq_nil_iff, h]
    exact Bool.false_ne_true
  unfold visit?
  dsimp only
  rw [if_neg hne]

end Piece

namespace Visit

variable {lines : List Line} {t : BlockTree} {block : Nat} {p : Piece}

/-- What changes the tree is a statement that is carried out. -/
theorem exists_of_apply {v : Visit} {t' : BlockTree} (h : v.apply lines t = .ok t') :
    ∃ s, Statement.read? v.text = some s ∧ s.apply lines t v.block v.span = .ok t' := by
  unfold apply at h
  split at h
  · cases h
  · rename_i s hread
    exact ⟨s, hread, h⟩

/-- **A run keeps what each of its statements keeps.** -/
theorem run_induction (lines : List Line) {P : BlockTree → Prop} : ∀ {visits : List Visit}
    {t : BlockTree}, P t → (∀ v ∈ visits, ∀ s t t', Statement.read? v.text = some s → P t →
      s.apply lines t v.block v.span = .ok t' → P t') → P (run lines t visits).1
  | [], _, ht, _ => ht
  | v :: vs, t, ht, hstep => by
    obtain ⟨hv, hvs⟩ := List.forall_mem_cons.mp hstep
    rw [run]
    split
    · rename_i t₁ happly
      obtain ⟨s, hread, hs⟩ := exists_of_apply happly
      exact run_induction lines (hv s t t₁ hread ht hs) hvs
    · exact run_induction lines ht hvs

theorem wellTyped_and_keeps_of_run (lines : List Line) (visits : List Visit) {t : BlockTree}
    (ht : t.WellTyped) :
    (run lines t visits).1.WellTyped ∧ t.Keeps (run lines t visits).1 := by
  refine run_induction lines (P := fun t' => t'.WellTyped ∧ t.Keeps t') ⟨ht, .refl t⟩ ?_
  intro v _ s t₁ t₂ _ ⟨ht₁, hkeeps⟩ happly
  obtain ⟨ht₂, hkeeps'⟩ := Statement.wellTyped_and_keeps_of_apply ht₁ happly
  exact ⟨ht₂, hkeeps.trans hkeeps'⟩

/-! ## The outcomes of a statement -/

/-- The outcomes that a piece of a source can have when it is carried out. -/
inductive Outcome where
  | skipped
  | reported
  | declared
  | updated
  | called
  deriving DecidableEq

/-- **What each outcome means** for a piece of text in a block of a tree, the tree that it leaves
and what is found wrong. -/
def Outcome.Describes (t : BlockTree) (block : BlockId) (text : Text) (t' : BlockTree)
    (findings : List Finding) : Outcome → Prop
  -- blank text does nothing
  | .skipped => Text.isBlankText text = true ∧ findings = [] ∧ t' = t
  -- one diagnostic, and the whole tree is as before
  | .reported => Text.isBlankText text = false ∧ findings.length = 1 ∧ t' = t
  -- one variable more in the scope of the block
  | .declared => Text.isBlankText text = false ∧ findings = [] ∧ ∃ v s,
      (t.get block).scope.Adds v s ∧ t.Alters block { t.get block with scope := s } t'
  -- another binding for the variable that the name in the statement means in the block
  | .updated => Text.isBlankText text = false ∧ findings = [] ∧ ∃ name op operand owner v b s,
      Statement.read? (Text.trim text) = some (.update name op operand) ∧
      t.lookup? block name = some (owner, v) ∧ v.isMutable = true ∧
      (t.get owner).scope.Rebinds v b s ∧ t.Alters owner { t.get owner with scope := s } t'
  -- one call more in the block
  | .called => Text.isBlankText text = false ∧ findings = [] ∧ ∃ c,
      t.Alters block { t.get block with calls := (t.get block).calls ++ [c] } t'

/-- The outcome that there must have been, from what is longer than before. -/
def Outcome.tell (t : BlockTree) (block : BlockId) (text : Text) (t' : BlockTree)
    (findings : List Finding) : Outcome :=
  if Text.isBlankText text then .skipped
  else if !findings.isEmpty then .reported
  else if (t.get block).calls.length < (t'.get block).calls.length then .called
  else if (t.get block).scope.size < (t'.get block).scope.size then .declared
  else .updated

/-- **No two outcomes describe the same**: each can be told from what it leaves. -/
theorem Outcome.Describes.eq_tell {text : Text} {t' : BlockTree} {findings : List Finding}
    {o : Outcome} (h : o.Describes t block text t' findings) :
    o = Outcome.tell t block text t' findings := by
  unfold Outcome.tell
  cases o with
  | skipped => rw [if_pos h.1]
  | reported =>
    obtain ⟨htext, hlen, -⟩ := h
    obtain ⟨f, rfl⟩ := List.length_eq_one_iff.mp hlen
    rw [htext, if_neg (by simp), if_pos (by simp)]
  | declared =>
    obtain ⟨htext, rfl, v, s, hadds, halters⟩ := h
    rw [htext, if_neg (by simp), if_neg (by simp), halters.here,
      if_neg (Nat.lt_irrefl _), if_pos (hadds.size_eq ▸ Nat.lt_succ_self _)]
  | updated =>
    obtain ⟨htext, rfl, -, -, -, owner, v, b, s, -, -, -, hrebinds, halters⟩ := h
    obtain ⟨hcalls, hsize⟩ : (t'.get block).calls = (t.get block).calls ∧
        (t'.get block).scope.size = (t.get block).scope.size := by
      by_cases hblock : block = owner
      · subst hblock
        rw [halters.here]
        exact ⟨rfl, hrebinds.size_eq⟩
      · rw [halters.elsewhere block hblock]
        exact ⟨rfl, rfl⟩
    rw [htext, if_neg (by simp), if_neg (by simp), hcalls, hsize, if_neg (Nat.lt_irrefl _),
      if_neg (Nat.lt_irrefl _)]
  | called =>
    obtain ⟨htext, rfl, c, halters⟩ := h
    rw [htext, if_neg (by simp), if_neg (by simp), halters.here, if_pos]
    simp

/-- **Every piece has an outcome.** -/
theorem exists_outcome (lines : List Line) (ht : t.WellTyped) (hb : block < t.size) (p : Piece) :
    ∃ o : Outcome, o.Describes t block p.text (run lines t (p.visit? block).toList).1
      (run lines t (p.visit? block).toList).2 := by
  cases htext : Text.isBlankText p.text with
  | true =>
    rw [Piece.visit?_of_blank block htext]
    exact ⟨.skipped, htext, rfl, rfl⟩
  | false =>
    rw [Piece.visit?_of_not_blank block htext, Option.toList_some, run]
    split
    · rename_i t' happly
      show ∃ o : Outcome, o.Describes t block p.text t' []
      obtain ⟨s, hread, hs⟩ := exists_of_apply happly
      cases s with
      | declaration isMutable name typeText init =>
        obtain ⟨type, b, -, hdeclare⟩ := Statement.declareVariable_eq_ok hs
        obtain ⟨s, hs, halters⟩ := BlockTree.declare?_eq_some hb hdeclare
        exact ⟨.declared, htext, rfl, _, s, Scope.adds_of_declare? hs, halters⟩
      | update name op operand =>
        obtain ⟨owner, v, b, s, hlookup, hmut, -, -, hrebinds, halters⟩ :=
          Statement.updateVariable_eq_ok ht hs
        exact ⟨.updated, htext, rfl, name, op, operand, owner, v, b, s, hread, hlookup, hmut,
          hrebinds, halters⟩
      | call c =>
        obtain rfl := Except.ok.inj hs
        exact ⟨.called, htext, rfl, ⟨c, _⟩,
          t.alters_modify hb fun blk => { blk with calls := blk.calls ++ [⟨c, _⟩] }⟩
    · exact ⟨.reported, htext, rfl, rfl⟩

end Visit
end BraceTree
