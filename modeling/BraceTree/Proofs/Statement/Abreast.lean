import BraceTree.Proofs.Block.Grown
import BraceTree.Proofs.Statement.Visible
import BraceTree.Proofs.Text.Appended

/-!
# What statements can touch

A statement reads and changes its own block and the blocks around it, and nothing else. Two things
follow. Where a tree has grown, the statements that were there before do what they did: carried out
in both trees side by side they find the same variables, leave the same findings, and the second
tree is still the first one grown (`Visit.abreast_run`). And statements in the new blocks or in the
root leave all other blocks alone, while the root loses nothing by them (`Visit.get_of_run`,
`Visit.calls_of_run`).
-/

namespace BraceTree

namespace BlockTree

variable {t t' : BlockTree} {id i : Nat} {name : String}

theorem mem_pathToRoot_self (t : BlockTree) (id : BlockId) : id ∈ t.pathToRoot id := by
  show id ∈ t.pathUp ((t.get root).span.stop + 1 + 1) id
  rw [pathUp]
  exact List.mem_cons_self

theorem mem_pathToRoot_of_lookup? {owner : Nat} {v : Variable}
    (h : t.lookup? id name = some (owner, v)) : owner ∈ t.pathToRoot id := by
  obtain ⟨b, hb, hget⟩ := List.exists_of_findSome?_eq_some h
  obtain ⟨w, -, heq⟩ := Option.map_eq_some_iff.mp hget
  obtain ⟨rfl, -⟩ := Prod.mk.inj heq
  exact hb

theorem Nested.lt_size_of_mem_pathToRoot (h : t.Nested) (hid : id < t.size) :
    ∀ b ∈ t.pathToRoot id, b < t.size := by
  refine h.induction_from_root (P := fun id => ∀ b ∈ t.pathToRoot id, b < t.size) ?_ ?_ hid
  · intro b hb
    rw [h.pathToRoot_root, List.mem_singleton] at hb
    exact hb ▸ h.size_pos
  · intro p c hc hp ih b hb
    rw [h.pathToRoot_of_parent hc hp, List.mem_cons] at hb
    rcases hb with rfl | hb
    · exact hc
    · exact ih b hb

end BlockTree

open BlockTree (Grows root)

variable {lines lines' : List Line} {t t' : BlockTree}

/-! ## What a statement leaves alone -/

namespace Statement

variable {s : Statement} {block : Nat} {span : Span}

/-- **A statement touches no block but its own and those around it.** -/
theorem get_of_apply (ht : t.WellTyped) (h : s.apply lines t block span = .ok t') {i : Nat}
    (hi : i ∉ t.pathToRoot block) : t'.get i = t.get i := by
  have hne : block ≠ i := fun heq => hi (heq ▸ t.mem_pathToRoot_self block)
  cases s with
  | declaration isMutable name typeText init =>
    obtain ⟨type, b, -, hdeclare⟩ := declareVariable_eq_ok h
    obtain ⟨s, -, rfl⟩ := Option.map_eq_some_iff.mp hdeclare
    exact t.get_modify_ne hne _
  | update name op operand =>
    obtain ⟨owner, x, b, s, hlookup, -, -, -, -, halters⟩ := updateVariable_eq_ok ht h
    exact halters.elsewhere i fun heq => hi (heq ▸ BlockTree.mem_pathToRoot_of_lookup? hlookup)
  | call c =>
    obtain rfl := Except.ok.inj h
    exact t.get_modify_ne hne _

/-- **No statement takes a call away.** -/
theorem calls_of_apply (ht : t.WellTyped) (h : s.apply lines t block span = .ok t') (i : Nat) :
    (t.get i).calls <+: (t'.get i).calls := by
  cases s with
  | declaration isMutable name typeText init =>
    obtain ⟨type, b, -, hdeclare⟩ := declareVariable_eq_ok h
    obtain ⟨s, -, rfl⟩ := Option.map_eq_some_iff.mp hdeclare
    rw [BlockTree.get_modify]
    split <;> exact List.prefix_rfl
  | update name op operand =>
    obtain ⟨owner, x, b, s, -, -, -, -, -, halters⟩ := updateVariable_eq_ok ht h
    have hsame : (t'.get i).calls = (t.get i).calls := by
      by_cases hi : i = owner
      · rw [hi, halters.here]
      · rw [halters.elsewhere i hi]
    exact hsame ▸ List.prefix_rfl
  | call c =>
    obtain rfl := Except.ok.inj h
    rw [BlockTree.addCall, BlockTree.get_modify]
    split
    · exact List.prefix_append _ _
    · exact List.prefix_rfl

end Statement

namespace Visit

/-- **A run touches no block but those that its statements are in and those around them.** -/
theorem get_of_run (lines : List Line) {P : Nat → Prop} {visits : List Visit} (ht : t.WellTyped)
    (hpath : ∀ v ∈ visits, ∀ b ∈ t.pathToRoot v.block, P b) {i : Nat} (hi : ¬ P i) :
    (run lines t visits).1.get i = t.get i := by
  refine (run_induction lines (P := fun t' => t'.WellTyped ∧ BlockTree.SameFrames t t' ∧
    t'.get i = t.get i) ⟨ht, .refl t, rfl⟩ ?_).2.2
  intro v hv s t₁ t₂ _ ⟨ht₁, hframes, hget⟩ happly
  refine ⟨(Statement.wellTyped_and_keeps_of_apply ht₁ happly).1,
    hframes.trans (Statement.sameFrames_of_apply happly), ?_⟩
  rw [Statement.get_of_apply ht₁ happly fun hmem => ?_, hget]
  rw [hframes.sameShape.pathToRoot_eq] at hmem
  exact hi (hpath v hv i hmem)

theorem calls_of_run (lines : List Line) (visits : List Visit) (ht : t.WellTyped) (i : Nat) :
    (t.get i).calls <+: ((run lines t visits).1.get i).calls := by
  refine (run_induction lines (P := fun t' => t'.WellTyped ∧
    (t.get i).calls <+: (t'.get i).calls) ⟨ht, List.prefix_rfl⟩ ?_).2
  intro v _ s t₁ t₂ _ ⟨ht₁, hcalls⟩ happly
  exact ⟨(Statement.wellTyped_and_keeps_of_apply ht₁ happly).1,
    hcalls.trans (Statement.calls_of_apply ht₁ happly i)⟩

end Visit

/-! ## Two trees of which the second has grown -/

namespace BlockTree.Grows

variable (hg : Grows t t') (h : t.Nested) (h' : t'.Nested) {id : Nat}

include hg

/-- Filling a block that both trees have in the same way, they are still grown. -/
theorem modify (hid : id < t.size) {f : Block → Block} (hframe : ∀ b, (f b).frame = b.frame)
    (hfill : ∀ b b' : Block, b.scope = b'.scope → b.calls = b'.calls →
      (f b).scope = (f b').scope ∧ (f b).calls = (f b').calls) :
    Grows (t.modify id f) (t'.modify id f) where
  size_le := by
    rw [size_modify, size_modify]
    exact hg.size_le
  get_eq := fun {i} hr hi => by
    rw [size_modify] at hi
    rw [get_modify, get_modify, hg.get_eq hr hi]
    simp only [hi, Nat.lt_of_lt_of_le hi hg.size_le]
  scope_root := by
    rw [get_modify, get_modify]
    by_cases hr : id = root
    · rw [if_pos ⟨hr, hr ▸ Nat.lt_of_lt_of_le hid hg.size_le⟩, if_pos ⟨hr, hr ▸ hid⟩]
      exact (hfill _ _ hg.scope_root hg.calls_root).1
    · rw [if_neg fun h => hr h.1, if_neg fun h => hr h.1]
      exact hg.scope_root
  calls_root := by
    rw [get_modify, get_modify]
    by_cases hr : id = root
    · rw [if_pos ⟨hr, hr ▸ Nat.lt_of_lt_of_le hid hg.size_le⟩, if_pos ⟨hr, hr ▸ hid⟩]
      exact (hfill _ _ hg.scope_root hg.calls_root).2
    · rw [if_neg fun h => hr h.1, if_neg fun h => hr h.1]
      exact hg.calls_root
  exists_children := by
    rw [size_modify, (sameFrames_modify t id hframe).sameShape.children_eq,
      (sameFrames_modify t' id hframe).sameShape.children_eq]
    exact hg.exists_children
  behind := fun {c} hc hlt => by
    rw [size_modify] at hc hlt
    rw [(sameFrames_modify t id hframe).sameShape.span_eq,
      (sameFrames_modify t' id hframe).sameShape.span_eq]
    exact hg.behind hc hlt

include h h'

/-- **A name means the same in an old block.** -/
theorem lookup?_eq (hid : id < t.size) (name : String) :
    t'.lookup? id name = t.lookup? id name := by
  rw [lookup?, lookup?, hg.pathToRoot_eq h h' hid]
  have hpath := h.lt_size_of_mem_pathToRoot hid
  generalize t.pathToRoot id = path at hpath
  induction path with
  | nil => rfl
  | cons b bs ih =>
    obtain ⟨hb, hbs⟩ := List.forall_mem_cons.mp hpath
    rw [List.findSome?_cons, List.findSome?_cons, hg.scope_eq hb, ih hbs]

end BlockTree.Grows

/-- All variables of a tree were declared up to a position. -/
def BlockTree.DeclaredUpTo (t : BlockTree) (stop : Nat) : Prop :=
  ∀ (id : Nat) (k : Kind), ∀ w ∈ (t.get id).scope.collection k, w.span.start ≤ stop

/-- **Two trees that statements are carried out in abreast**, the second of which has grown. -/
structure BlockTree.Abreast (stop : Nat) (t t' : BlockTree) : Prop where
  grows : Grows t t'
  nested : t.Nested
  nested' : t'.Nested
  wellTyped : t.WellTyped
  declared : t.DeclaredUpTo stop

open BlockTree (Abreast)

variable {stop : Nat}

theorem BlockTree.DeclaredUpTo.get? {id : Nat} {name : String} {v : Variable}
    (h : t.DeclaredUpTo stop) (hv : (t.get id).scope.get? name = some v) :
    v.span.start ≤ stop := by
  obtain ⟨⟨k, hk⟩, -⟩ := Scope.mem_of_get? hv
  exact h id k v hk

/-- **A statement does the same in a tree that has grown**: it is reported in both trees with the
same problem, or changes both in the same way. -/
theorem Statement.apply_abreast (s : Statement) (ha : Abreast stop t t')
    (hlines : Line.AgreeUpTo stop lines lines') {id : Nat} (hid : id < t.size) (span : Span) :
    (∃ q, s.apply lines t id span = .error q ∧ s.apply lines' t' id span = .error q) ∨
      ∃ t₁ t₁', s.apply lines t id span = .ok t₁ ∧ s.apply lines' t' id span = .ok t₁' ∧
        Grows t₁ t₁' := by
  have hfill : ∀ (s : Scope), Grows (t.modify id fun b => { b with scope := s })
      (t'.modify id fun b => { b with scope := s }) := fun s =>
    ha.grows.modify hid (fun _ => rfl) fun _ _ _ hcalls => ⟨rfl, hcalls⟩
  cases s with
  | declaration isMutable name typeText init =>
    show (∃ q, declareVariable lines t id span isMutable name typeText init = .error q ∧
        declareVariable lines' t' id span isMutable name typeText init = .error q) ∨
      ∃ t₁ t₁', declareVariable lines t id span isMutable name typeText init = .ok t₁ ∧
        declareVariable lines' t' id span isMutable name typeText init = .ok t₁' ∧ Grows t₁ t₁'
    unfold declareVariable
    cases TypeName.ofText? typeText with
    | none => exact .inl ⟨_, rfl, rfl⟩
    | some type =>
      dsimp only
      cases Binding.ofInitial type name init with
      | error q => exact .inl ⟨q, rfl, rfl⟩
      | ok b =>
        dsimp only
        rw [BlockTree.declare?, BlockTree.declare?, ha.grows.scope_eq hid]
        cases (t.get id).scope.declare? ⟨name, isMutable, type, b, span⟩ with
        | some s => exact .inr ⟨_, _, rfl, rfl, hfill s⟩
        | none =>
          -- the line in the message is the one where the name was declared
          refine .inl ⟨_, rfl, ?_⟩
          show Except.error (Problem.duplicateDeclaration name _) = _
          rw [hlines]
          cases hget : (t.get id).scope.get? name with
          | none => exact Nat.zero_le stop
          | some v => exact ha.declared.get? hget
  | update name op operand =>
    show (∃ q, updateVariable lines t id name op operand = .error q ∧
        updateVariable lines' t' id name op operand = .error q) ∨
      ∃ t₁ t₁', updateVariable lines t id name op operand = .ok t₁ ∧
        updateVariable lines' t' id name op operand = .ok t₁' ∧ Grows t₁ t₁'
    have hsame := ha.grows.lookup?_eq ha.nested ha.nested' hid name
    unfold updateVariable
    rw [hsame]
    cases hlookup : t.lookup? id name with
    | none => exact .inl ⟨_, rfl, rfl⟩
    | some found =>
      obtain ⟨owner, v⟩ := found
      have hget := BlockTree.get?_of_lookup? hlookup
      have howner := BlockTree.lt_size_of_get? hget
      dsimp only
      split
      · cases Binding.updated v op operand with
        | error q => exact .inl ⟨q, rfl, rfl⟩
        | ok b =>
          refine .inr ⟨_, _, rfl, rfl, ?_⟩
          rw [BlockTree.setBinding?, BlockTree.setBinding?, hsame, hlookup, Option.bind_some,
            Option.bind_some]
          dsimp only
          rw [ha.grows.scope_eq howner]
          cases (t.get owner).scope.setBinding? name b with
          | none => exact ha.grows
          | some s =>
            exact ha.grows.modify howner (fun _ => rfl) fun _ _ _ hcalls => ⟨rfl, hcalls⟩
      · refine .inl ⟨_, rfl, ?_⟩
        rw [hlines _ (ha.declared.get? hget)]
  | call c =>
    exact .inr ⟨_, _, rfl, rfl, ha.grows.modify hid (fun _ => rfl)
      fun _ _ hscope hcalls => ⟨hscope, by rw [hcalls]⟩⟩

namespace Visit

/-- What a statement of the first tree leaves abreast. -/
theorem abreast_of_apply (ha : Abreast stop t t') {t₁ t₁' : BlockTree} {v : Visit}
    (hv : v.span.start ≤ stop) (h : v.apply lines t = .ok t₁) (h' : v.apply lines' t' = .ok t₁')
    (hg : Grows t₁ t₁') : Abreast stop t₁ t₁' := by
  obtain ⟨s, -, hs⟩ := exists_of_apply h
  obtain ⟨s', -, hs'⟩ := exists_of_apply h'
  exact
    { grows := hg
      nested := (Statement.sameFrames_of_apply hs).sameShape.nested ha.nested
      nested' := (Statement.sameFrames_of_apply hs').sameShape.nested ha.nested'
      wellTyped := (Statement.wellTyped_and_keeps_of_apply ha.wellTyped hs).1
      declared := fun id k w hw => by
        have hdeclared := Statement.declared_of_apply ha.wellTyped hs id k w hw
        rcases hdeclared with ⟨x, hx, hwx⟩ | ⟨u, hu, hspan⟩
        · rw [hwx]
          exact ha.declared id k x hx
        · rw [hspan, List.mem_singleton.mp hu]
          exact hv }

/-- **Statements of the first tree do the same in a tree that has grown**, one after the other, and
leave the same findings. -/
theorem abreast_run (hlines : Line.AgreeUpTo stop lines lines') : ∀ (visits : List Visit)
    {t t' : BlockTree}, Abreast stop t t' →
      (∀ v ∈ visits, v.block < t.size ∧ v.span.start ≤ stop) →
      Abreast stop (run lines t visits).1 (run lines' t' visits).1 ∧
        (run lines' t' visits).2 = (run lines t visits).2
  | [], _, _, ha, _ => ⟨ha, rfl⟩
  | v :: vs, t, t', ha, hvisits => by
    obtain ⟨⟨hblock, hstart⟩, hvs⟩ := List.forall_mem_cons.mp hvisits
    have hstep : (∃ q, v.apply lines t = .error q ∧ v.apply lines' t' = .error q) ∨
        ∃ t₁ t₁', v.apply lines t = .ok t₁ ∧ v.apply lines' t' = .ok t₁' ∧ Grows t₁ t₁' := by
      unfold apply
      cases Statement.read? v.text with
      | none => exact .inl ⟨_, rfl, rfl⟩
      | some s => exact s.apply_abreast ha hlines hblock v.span
    rcases hstep with ⟨q, happly, happly'⟩ | ⟨t₁, t₁', happly, happly', hg⟩
    · obtain ⟨hrun, hfindings⟩ := abreast_run hlines vs ha hvs
      rw [run, run, happly, happly']
      exact ⟨hrun, congrArg (⟨q, v.span⟩ :: ·) hfindings⟩
    · have hsize : t₁.size = t.size := by
        obtain ⟨s, -, hs⟩ := exists_of_apply happly
        exact (Statement.sameFrames_of_apply hs).size_eq
      rw [run, run, happly, happly']
      exact abreast_run hlines vs (abreast_of_apply ha hstart happly happly' hg)
        fun u hu => hsize ▸ hvs u hu

end Visit
end BraceTree
