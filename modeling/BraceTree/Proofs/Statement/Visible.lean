import BraceTree.Proofs.Statement.Lossless

/-!
# What a name means where it stands

An update looks its name up in the scopes as they are when it is carried out. Those scopes hold
exactly the variables whose declarations stand before the update, since statements are carried out
in the order of the source and a variable remembers where it was declared (`Visit.declared_of_run`).
So what the name means can be told from the finished tree alone: it is the variable of that name in
the innermost block which declares the name before the update (`BlockTree.Visible`).
-/

namespace BraceTree

namespace BlockTree

/-- A block has a variable of the name whose declaration ends at or before the position. -/
def DeclaresBefore (t : BlockTree) (id : BlockId) (name : String) (position : Nat)
    (w : Variable) : Prop :=
  w ∈ (t.get id).scope.toList ∧ w.name = name ∧ w.span.stop ≤ position

/-- **What a name means at a position in a block**: a variable of the innermost block, among the
block and those around it, which declares the name before the position. -/
def Visible (t : BlockTree) (id : BlockId) (name : String) (position : Nat) (owner : BlockId)
    (w : Variable) : Prop :=
  ∃ inner outer, t.pathToRoot id = inner ++ owner :: outer ∧
    t.DeclaresBefore owner name position w ∧
    ∀ b ∈ inner, ∀ x, ¬ t.DeclaresBefore b name position x

variable {t t' : BlockTree} {id : Nat} {name : String} {position : Nat} {w x : Variable}

theorem mem_scope_toList : w ∈ (t.get id).scope.toList ↔
    ∃ k, w ∈ (t.get id).scope.collection k := by
  rw [Scope.toList, List.mem_flatMap]
  exact exists_congr fun k => and_iff_right k.mem_all

/-- The way to the root is the same in trees of the same shape. -/
theorem SameShape.pathToRoot_eq (h : SameShape t t') (id : BlockId) :
    t'.pathToRoot id = t.pathToRoot id := by
  have hup : ∀ (bound : Nat) (id : BlockId), t'.pathUp bound id = t.pathUp bound id := by
    intro bound
    induction bound with
    | zero => exact fun _ => rfl
    | succ bound ih =>
      intro id
      rw [pathUp, pathUp, h.parent_eq]
      cases (t.get id).parent with
      | none => rfl
      | some p => exact congrArg (id :: ·) (ih p)
  have hbound : t'.depthBound = t.depthBound :=
    congrArg (· + 2) (congrArg Span.stop (h.span_eq root))
  rw [pathToRoot, pathToRoot, hbound, hup]

/-- **Variables that came later**: those that the second tree has and the first has not were
declared by some of the statements. -/
def Declared (t t' : BlockTree) (visits : List Visit) : Prop :=
  ∀ (id : Nat) (k : Kind), ∀ w ∈ (t'.get id).scope.collection k,
    (∃ x ∈ (t.get id).scope.collection k, w = { x with binding := w.binding }) ∨
      ∃ v ∈ visits, w.span = v.span

end BlockTree

open BlockTree (SameFrames Declared)

variable {lines : List Line} {t t' : BlockTree}

/-! ## Declarations remember where they stand -/

theorem Statement.declared_of_apply {s : Statement} (ht : t.WellTyped) {v : Visit}
    (h : s.apply lines t v.block v.span = .ok t') : Declared t t' [v] := by
  intro id k w hw
  have hsame : t'.get id = t.get id → ∃ x ∈ (t.get id).scope.collection k,
      w = { x with binding := w.binding } := fun heq => ⟨w, heq ▸ hw, rfl⟩
  cases s with
  | declaration isMutable name typeText init =>
    obtain ⟨type, b, -, hdeclare⟩ := declareVariable_eq_ok h
    by_cases hb : v.block < t.size
    · obtain ⟨s, hs, halters⟩ := BlockTree.declare?_eq_some hb hdeclare
      by_cases hid : id = v.block
      · subst hid
        rw [halters.here] at hw
        rcases (Scope.adds_of_declare? hs).mem_iff.mp hw with hw | ⟨rfl, -⟩
        · exact .inl ⟨w, hw, rfl⟩
        · exact .inr ⟨v, List.mem_singleton_self v, rfl⟩
      · exact .inl (hsame (halters.elsewhere id hid))
    · obtain ⟨s, -, rfl⟩ := Option.map_eq_some_iff.mp hdeclare
      exact .inl (hsame (by rw [t.modify_of_size_le (Nat.le_of_not_lt hb)]))
  | update name op operand =>
    obtain ⟨owner, x, b, s, -, -, -, -, hrebinds, halters⟩ := updateVariable_eq_ok ht h
    by_cases hid : id = owner
    · subst hid
      rw [halters.here] at hw
      rcases hrebinds.exists_of_mem hw with hw | ⟨rfl, rfl⟩
      · exact .inl ⟨w, hw, rfl⟩
      · exact .inl ⟨x, hrebinds.mem_self, rfl⟩
    · exact .inl (hsame (halters.elsewhere id hid))
  | call c =>
    obtain rfl := Except.ok.inj h
    refine .inl ⟨w, ?_, rfl⟩
    have hscope : ((t.addCall v.block ⟨c, v.span⟩).get id).scope = (t.get id).scope := by
      rw [BlockTree.addCall, BlockTree.get_modify]
      split <;> rfl
    rwa [hscope] at hw

/-- **A variable was there before a run, or one of its statements declared it.** -/
theorem Visit.declared_of_run (lines : List Line) (visits : List Visit) {t : BlockTree}
    (ht : t.WellTyped) : Declared t (run lines t visits).1 visits := by
  refine (run_induction lines (P := fun t' => t'.WellTyped ∧ Declared t t' visits)
    ⟨ht, fun _ _ w hw => .inl ⟨w, hw, rfl⟩⟩ ?_).2
  intro v hv s t₁ t₂ _ ⟨ht₁, hdeclared⟩ happly
  refine ⟨(Statement.wellTyped_and_keeps_of_apply ht₁ happly).1, fun id k w hw => ?_⟩
  rcases Statement.declared_of_apply ht₁ happly id k w hw with ⟨x, hx, hxw⟩ | ⟨u, hu, hspan⟩
  · rw [hxw]
    exact (hdeclared id k x hx).imp_left fun h => h.imp fun y hy => ⟨hy.1, by rw [hy.2]⟩
  · exact .inr ⟨v, hv, List.mem_singleton.mp hu ▸ hspan⟩

/-! ## Runs in parts -/

namespace Visit

theorem run_append (lines : List Line) : ∀ (vs ws : List Visit) (t : BlockTree),
    run lines t (vs ++ ws) = ((run lines (run lines t vs).1 ws).1,
      (run lines t vs).2 ++ (run lines (run lines t vs).1 ws).2)
  | [], _, _ => rfl
  | v :: vs, ws, t => by
    rw [List.cons_append, run, run]
    split
    · exact run_append lines vs ws _
    · rw [run_append lines vs ws t]
      rfl

/-- **What is found wrong with statements is found where they stand, in their order**, and not more
than once. -/
theorem spans_run (lines : List Line) : ∀ (visits : List Visit) (t : BlockTree),
    ((run lines t visits).2.map (·.span)).Sublist (visits.map (·.span))
  | [], _ => .slnil
  | v :: vs, t => by
    rw [run]
    split
    · exact (spans_run lines vs _).cons v.span
    · exact (spans_run lines vs t).cons_cons v.span

theorem exists_of_mem_run {f : Finding} {visits : List Visit}
    (hf : f ∈ (run lines t visits).2) : ∃ v ∈ visits, f.span = v.span := by
  obtain ⟨v, hv, hspan⟩ := List.mem_map.mp
    ((spans_run lines visits t).mem (List.mem_map_of_mem hf))
  exact ⟨v, hv, hspan.symm⟩

end Visit

/-! ## What findings are about -/

/-- What is found wrong with a header is about its kind or its return type. -/
theorem BlockTree.code_of_mem_headerFindings {source : Text} {f : Finding}
    (hf : f ∈ t.headerFindings source) :
    f.problem.code = .unclassifiedHeader ∨ f.problem.code = .unknownType := by
  obtain ⟨id, -, hid⟩ := List.mem_filterMap.mp hf
  have hverdict : ∀ {q : Problem}, (t.verdict source (t.get id)).problem = some q →
      q.code = .unclassifiedHeader ∨ q.code = .unknownType := by
    intro q hq
    unfold verdict Header.verdict at hq
    grind [Problem.code]
  dsimp only at hid
  split at hid
  · exact absurd hid (by simp)
  · obtain ⟨q, hq, rfl⟩ := Option.map_eq_some_iff.mp hid
    exact hverdict hq

theorem BlockTree.code_of_mem_branchFindings {f : Finding} (hf : f ∈ t.branchFindings) :
    f.problem.code = .danglingBranch := by
  have hdangling : ∀ (bs : List Block) (previous : Option BlockKind),
      f ∈ dangling previous bs → f.problem.code = .danglingBranch := by
    intro bs
    induction bs with
    | nil => exact fun _ hf => absurd hf List.not_mem_nil
    | cons b bs ih =>
      intro previous hf
      unfold dangling at hf
      grind [Problem.code]
  obtain ⟨id, -, hid⟩ := List.mem_flatMap.mp hf
  exact hdangling _ _ hid

namespace Binding

/-- The codes of right-hand sides that cannot be used. -/
def codes : List Code := [.typeMismatch, .invalidCompoundAssignment, .unrecognizedStatement]

theorem code_of_ofInitial {type : TypeName} {name : String} {init : Text} {q : Problem}
    (h : ofInitial type name init = .error q) : q.code ∈ codes := by
  unfold ofInitial at h
  grind [Problem.code, codes]

/-- Whether a right-hand side can be used has nothing to do with names, headers and branches. -/
theorem code_of_updated {x : Variable} {op : Operator} {operand : Text} {q : Problem}
    (h : updated x op operand = .error q) : q.code ∈ codes := by
  have hoperand : ∀ {q}, readOperand x.name op operand = .error q → q.code ∈ codes := by
    intro q h
    unfold readOperand at h
    grind [Problem.code, codes]
  have hcombine : ∀ {a b q}, (combine x.type x.name op a b).map Binding.value = .error q →
      q.code ∈ codes := by
    intro a b q h
    cases hc : combine x.type x.name op a b with
    | ok c =>
      rw [hc] at h
      exact absurd h (by simp [Except.map])
    | error r =>
      rw [hc] at h
      obtain rfl := Except.error.inj h
      unfold combine combineIntegers append remove at hc
      grind [Problem.code, codes]
  have hcompound : compound x.type x.name x.binding op operand = .error q → q.code ∈ codes := by
    intro h
    unfold compound at h
    grind [Problem.code, codes]
  cases op with
  | assign => exact code_of_ofInitial h
  | add => exact hcompound h
  | subtract => exact hcompound h

end Binding

namespace Visit

/-- What is found wrong with a statement is not about a header or a branch. -/
theorem code_of_apply {v : Visit} {q : Problem} (h : v.apply lines t = .error q) :
    q.code ≠ .unclassifiedHeader ∧ q.code ≠ .danglingBranch := by
  have hcodes : q.code ∈ Binding.codes →
      q.code ≠ .unclassifiedHeader ∧ q.code ≠ .danglingBranch := by
    simp only [Binding.codes]
    grind
  unfold apply at h
  cases hread : Statement.read? v.text with
  | none =>
    rw [hread] at h
    obtain rfl := Except.error.inj h
    exact ⟨nofun, nofun⟩
  | some s =>
    rw [hread] at h
    cases s with
    | declaration isMutable name typeText init =>
      dsimp only [Statement.apply, Statement.declareVariable] at h
      split at h
      · obtain rfl := Except.error.inj h
        exact ⟨nofun, nofun⟩
      · split at h
        · next hinitial =>
          obtain rfl := Except.error.inj h
          exact hcodes (Binding.code_of_ofInitial hinitial)
        · split at h
          · cases h
          · obtain rfl := Except.error.inj h
            exact ⟨nofun, nofun⟩
    | update name op operand =>
      dsimp only [Statement.apply, Statement.updateVariable] at h
      split at h
      · obtain rfl := Except.error.inj h
        exact ⟨nofun, nofun⟩
      · split at h
        · split at h
          · next hupdated =>
            obtain rfl := Except.error.inj h
            exact hcodes (Binding.code_of_updated hupdated)
          · cases h
        · obtain rfl := Except.error.inj h
          exact ⟨nofun, nofun⟩
    | call c => cases h

theorem code_of_mem_run {f : Finding} : ∀ {visits : List Visit} {t : BlockTree},
    f ∈ (run lines t visits).2 →
      f.problem.code ≠ .unclassifiedHeader ∧ f.problem.code ≠ .danglingBranch
  | v :: vs, t, hf => by
    rw [run] at hf
    split at hf
    · exact code_of_mem_run hf
    · next herror =>
      rcases List.mem_cons.mp hf with rfl | hf
      · exact code_of_apply herror
      · exact code_of_mem_run hf

end Visit

/-! ## Looking a name up in the course of the parse -/

namespace BlockTree

/-- **A tree on the way to another one**: whatever it has was declared before a position, and what
it has not yet will be declared behind. -/
structure UpTo (position : Nat) (t t' : BlockTree) (later : List Visit) : Prop where
  frames : SameFrames t t'
  keeps : t.Keeps t'
  declared : Declared t t' later
  before : ∀ (id : Nat) (k : Kind), ∀ w ∈ (t.get id).scope.collection k, w.span.stop ≤ position
  behind : ∀ v ∈ later, position < v.span.stop

namespace UpTo

variable {position : Nat} {later : List Visit} {name : String} {w x : Variable} {id owner : Nat}
  (h : UpTo position t t' later)

include h

theorem not_declaresBefore (hget : (t.get id).scope.get? name = none) (w : Variable) :
    ¬ t'.DeclaresBefore id name position w := by
  rintro ⟨hw, hname, hstop⟩
  obtain ⟨k, hk⟩ := mem_scope_toList.mp hw
  rcases h.declared id k w hk with ⟨x, hx, hwx⟩ | ⟨v, hv, hspan⟩
  · rw [hwx] at hname
    exact Scope.get?_eq_none_iff.mp hget k x hx hname
  · have := h.behind v hv
    rw [hspan] at hstop
    omega

theorem exists_declaresBefore (hget : (t.get id).scope.get? name = some x) :
    ∃ w, t'.DeclaresBefore id name position w ∧ x = { w with binding := x.binding } := by
  obtain ⟨⟨k, hk⟩, hname⟩ := Scope.mem_of_get? hget
  have hstop := h.before id k x hk
  obtain ⟨w, hw, hwname, htype, hmut, hspan, -⟩ := h.keeps id k x hk
  refine ⟨w, ⟨mem_scope_toList.mpr ⟨k, hw⟩, hwname.trans hname, hspan ▸ hstop⟩, ?_⟩
  cases x
  cases w
  simp_all

/-- **What a name means can be told from the later tree.** -/
theorem visible_of_lookup? (hlookup : t.lookup? id name = some (owner, x)) :
    ∃ w, t'.Visible id name position owner w ∧ x = { w with binding := x.binding } := by
  obtain ⟨inner, b, outer, hpath, hb, hinner⟩ := List.findSome?_eq_some_iff.mp hlookup
  obtain ⟨y, hget, heq⟩ := Option.map_eq_some_iff.mp hb
  obtain ⟨rfl, rfl⟩ := Prod.mk.inj heq
  obtain ⟨w, hw, hyw⟩ := h.exists_declaresBefore hget
  refine ⟨w, ⟨inner, outer, (h.frames.sameShape.pathToRoot_eq id).trans hpath, hw, ?_⟩, hyw⟩
  exact fun a ha => h.not_declaresBefore (Option.map_eq_none_iff.mp (hinner a ha))

theorem not_declaresBefore_of_lookup? (hlookup : t.lookup? id name = none) :
    ∀ b ∈ t'.pathToRoot id, ∀ w, ¬ t'.DeclaresBefore b name position w := fun b hb => by
  rw [h.frames.sameShape.pathToRoot_eq] at hb
  exact h.not_declaresBefore
    (Option.map_eq_none_iff.mp (List.findSome?_eq_none_iff.mp hlookup b hb))

end UpTo
end BlockTree

namespace Visit

/-- **An update is checked against a variable and applied to it**: it is refused if the variable may
not be assigned again, or if the operand does not go with the type and the binding that the variable
has. Otherwise the variable gets the new binding, and nothing else changes. -/
def Updates (lines : List Line) (t : BlockTree) (v : Visit) (op : Operator) (operand : Text)
    (owner : BlockId) (x : Variable) : Prop :=
  (x.isMutable = false ∧ run lines t [v] =
    (t, [⟨.immutableReassignment x.name (Line.indexAt lines x.span.start + 1), v.span⟩])) ∨
  (x.isMutable = true ∧ ∃ q, Binding.updated x op operand = .error q ∧
    run lines t [v] = (t, [⟨q, v.span⟩])) ∨
  (x.isMutable = true ∧ ∃ b s t', Binding.updated x op operand = .ok b ∧
    run lines t [v] = (t', []) ∧ (t.get owner).scope.Rebinds x b s ∧
    t.Alters owner { t.get owner with scope := s } t')

variable {v : Visit} {name : String} {op : Operator} {operand : Text}

theorem apply_update (lines : List Line) (t : BlockTree)
    (hread : Statement.read? v.text = some (.update name op operand)) :
    v.apply lines t = Statement.updateVariable lines t v.block name op operand := by
  unfold apply
  rw [hread]
  rfl

/-- **What an update does hangs on the variable that its name means.** -/
theorem updates_of_lookup? (lines : List Line) (ht : t.WellTyped)
    (hread : Statement.read? v.text = some (.update name op operand)) {owner : Nat} {x : Variable}
    (hlookup : t.lookup? v.block name = some (owner, x)) :
    Updates lines t v op operand owner x := by
  obtain ⟨-, hname⟩ := Scope.mem_of_get? (BlockTree.get?_of_lookup? hlookup)
  have happly := apply_update lines t hread
  unfold Statement.updateVariable at happly
  rw [hlookup] at happly
  dsimp only at happly
  unfold Updates
  cases hmut : x.isMutable with
  | false =>
    rw [hmut, if_neg Bool.false_ne_true] at happly
    rw [run, happly, hname]
    exact .inl ⟨rfl, rfl⟩
  | true =>
    rw [hmut, if_pos rfl] at happly
    cases hupdated : Binding.updated x op operand with
    | error q =>
      rw [hupdated] at happly
      rw [run, happly]
      exact .inr (.inl ⟨rfl, q, rfl, rfl⟩)
    | ok b =>
      obtain ⟨s, t', hset, hrebinds, halters⟩ := ht.setBinding? hlookup b
      rw [hupdated] at happly
      dsimp only at happly
      rw [hset, Option.getD_some] at happly
      rw [run, happly]
      exact .inr (.inr ⟨rfl, b, s, t', rfl, rfl, hrebinds, halters⟩)

theorem run_of_lookup?_eq_none (lines : List Line)
    (hread : Statement.read? v.text = some (.update name op operand))
    (hlookup : t.lookup? v.block name = none) :
    run lines t [v] = (t, [⟨.unresolvedName name, v.span⟩]) := by
  have happly := apply_update lines t hread
  unfold Statement.updateVariable at happly
  rw [hlookup] at happly
  rw [run, happly]
  rfl

end Visit

namespace Program

open Visit (run all)

variable {source : Text} {sourceId : Nat} {p : Program} {done rest : List Visit} {v : Visit}
  {name : String} {op : Operator} {operand : Text}

variable {f : Forest}

/-- The statements before and behind one of them, by where they stand. -/
theorem apart_of_all (hf : place source = .ok f)
    (hall : all (classified source f) source = done ++ v :: rest) :
    (∀ u ∈ done, u.span.start < u.span.stop ∧ u.span.stop ≤ v.span.start) ∧
      v.span.start < v.span.stop ∧
      ∀ u ∈ rest, v.span.stop ≤ u.span.start ∧ u.span.start < u.span.stop := by
  have hordered := Visit.all_ordered (headed_classified hf).1
  rw [hall] at hordered
  obtain ⟨-, hrest, hdone⟩ := List.pairwise_append.mp hordered.apart
  have hlong : ∀ u ∈ done ++ v :: rest, u.span.start < u.span.stop := fun u hu =>
    (hordered.inside u hu).2.1
  refine ⟨fun u hu => ⟨hlong u (List.mem_append_left _ hu), hdone u hu v List.mem_cons_self⟩,
    hlong v (List.mem_append_right _ List.mem_cons_self), fun u hu => ?_⟩
  exact ⟨(List.pairwise_cons.mp hrest).1 u hu,
    hlong u (List.mem_append_right _ (List.mem_cons_of_mem v hu))⟩

/-- **When a statement is carried out, the tree has what was declared before it.** -/
theorem upTo_of_all (hf : place source = .ok f)
    (hall : all (classified source f) source = done ++ v :: rest) :
    ((run (Line.ofSource source) (classified source f) done).1).UpTo v.span.start
      (run (Line.ofSource source) (run (Line.ofSource source) (classified source f) done).1
        (v :: rest)).1 (v :: rest) := by
  obtain ⟨hdone, hv, hrest⟩ := apart_of_all hf hall
  have hempty := wellTyped_classified hf
  have hwell := (Visit.wellTyped_and_keeps_of_run (Line.ofSource source) done hempty).1
  refine ⟨Visit.sameFrames_of_run _ _ _,
    (Visit.wellTyped_and_keeps_of_run _ _ hwell).2, Visit.declared_of_run _ _ hwell,
    fun id k w hw => ?_, fun u hu => ?_⟩
  · -- at the start no block has a variable
    rcases Visit.declared_of_run _ done hempty id k w hw with ⟨x, hx, -⟩ | ⟨u, hu, hspan⟩
    · rw [scope_classified hf] at hx
      cases k <;> exact absurd hx List.not_mem_nil
    · rw [hspan]
      exact (hdone u hu).2
  · rcases List.mem_cons.mp hu with rfl | hu
    · exact hv
    · have := hrest u hu
      omega

/-- A program lists what is wrong with its headers, with its branches and with its statements. -/
theorem perm_diagnostics (hp : ofText source sourceId = .ok p) (hf : place source = .ok f) :
    p.diagnostics.Perm ((findings (classified source f) source
      (run (Line.ofSource source) (classified source f) (all (classified source f) source)).2).map
        (Diagnostic.ofFinding (Line.ofSource source) sourceId)) := by
  obtain rfl := Except.ok.inj ((ofText_of_place sourceId hf).symm.trans hp)
  exact List.mergeSort_perm _ _

/-- **Complaints that a name is not declared** come from the statement at their place. -/
theorem perm_unresolved (hp : ofText source sourceId = .ok p) (hf : place source = .ok f)
    (hall : all (classified source f) source = done ++ v :: rest) :
    (p.diagnostics.filter fun d => d.code = .unresolvedName ∧ d.span = v.span).Perm
      (((run (Line.ofSource source) (run (Line.ofSource source) (classified source f) done).1
        [v]).2.filter fun x => x.problem.code = .unresolvedName).map
          (Diagnostic.ofFinding (Line.ofSource source) sourceId)) := by
  obtain ⟨hdone, hv, hrest⟩ := apart_of_all hf hall
  have hperm := (perm_diagnostics hp hf).filter fun d => d.code = .unresolvedName ∧ d.span = v.span
  refine hperm.trans (List.Perm.of_eq ?_)
  have helse : ∀ {t : BlockTree} {us : List Visit}, (∀ u ∈ us, u.span ≠ v.span) →
      (run (Line.ofSource source) t us).2.filter
        (fun x => x.problem.code = .unresolvedName ∧ x.span = v.span) = [] := fun hus =>
    List.filter_eq_nil_iff.mpr fun x hx hcode => by
      obtain ⟨u, hu, hspan⟩ := Visit.exists_of_mem_run hx
      exact hus u hu (hspan.symm.trans (of_decide_eq_true hcode).2)
  have hhere : ∀ t : BlockTree, (run (Line.ofSource source) t [v]).2.filter
        (fun x => x.problem.code = .unresolvedName ∧ x.span = v.span) =
      (run (Line.ofSource source) t [v]).2.filter fun x => x.problem.code = .unresolvedName :=
    fun t => List.filter_congr fun x hx => by
      obtain ⟨u, hu, hspan⟩ := Visit.exists_of_mem_run hx
      rw [List.mem_singleton.mp hu] at hspan
      simp [hspan]
  have hheader : ((classified source f).headerFindings source).filter
      (fun x => x.problem.code = .unresolvedName ∧ x.span = v.span) = [] :=
    List.filter_eq_nil_iff.mpr fun x hx hcode => by
      have := BlockTree.code_of_mem_headerFindings hx
      rw [(of_decide_eq_true hcode).1] at this
      exact absurd this (by decide)
  have hbranch : (classified source f).branchFindings.filter
      (fun x => x.problem.code = .unresolvedName ∧ x.span = v.span) = [] :=
    List.filter_eq_nil_iff.mpr fun x hx hcode => by
      have := BlockTree.code_of_mem_branchFindings hx
      rw [(of_decide_eq_true hcode).1] at this
      cases this
  rw [List.filter_map]
  congr 1
  show (findings _ _ _).filter
    (fun x => decide (x.problem.code = .unresolvedName ∧ x.span = v.span)) = _
  rw [findings, hall, List.append_cons, Visit.run_append, Visit.run_append]
  simp only [List.filter_append]
  have hbehind : ∀ u ∈ rest, u.span ≠ v.span := fun u hu heq => by
    have := hrest u hu
    rw [heq] at this
    omega
  have hahead : ∀ u ∈ done, u.span ≠ v.span := fun u hu heq => by
    have := hdone u hu
    rw [heq] at this
    omega
  rw [hheader, hbranch, hhere, helse hbehind, helse hahead]
  simp

/-- A name that is declared between two updates of it. -/
def declaredBetween : Text := "{x = 1}; var x : Integer = 0; x = 2".toList

end Program
end BraceTree
