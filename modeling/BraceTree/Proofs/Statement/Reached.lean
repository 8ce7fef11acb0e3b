import BraceTree.Program
import BraceTree.Proofs.Header.Classified
import BraceTree.Proofs.Hierarchy.Bracketed
import BraceTree.Proofs.Statement.Outcome

/-!
# The trees that a parse comes through

Once the blocks of a source are placed and classified, its statements are carried out one by one.
`Program.Reaches` lists the trees on this way, from the one where no scope has a variable to the one
of the parsed program. What each statement keeps holds of all of them.
-/

namespace BraceTree.Program

variable {source : Text} {sourceId : Nat} {p : Program} {f : Forest} {t : BlockTree}

/-- The blocks of a source with their places and kinds, before any statement is carried out. -/
def classified (source : Text) (f : Forest) : BlockTree :=
  (f.finish (Line.ofSource source)).classify source

/-- **A tree that the parse of a source comes through**: some of the statements have been carried
out, in their order, and the others not yet. -/
def Reaches (source : Text) (t : BlockTree) : Prop :=
  ∃ f done rest, place source = .ok f ∧
    Visit.all (classified source f) source = done ++ rest ∧
    t = (Visit.run (Line.ofSource source) (classified source f) done).1

/-- Blocks are placed only where their braces match, and then all of them are. -/
theorem place_eq_ok (h : place source = .ok f) :
    ∃ e, Extraction.ofSource source = .ok e ∧ f.Sound source e ∧ f.unplaced = [] := by
  unfold place at h
  cases he : Extraction.ofSource source with
  | error finding =>
    rw [he] at h
    exact absurd h (by simp [Except.bind])
  | ok e =>
    rw [he] at h
    obtain ⟨f', hf', hsound, hdone⟩ := Forest.build_eq_ok he
    obtain rfl := Except.ok.inj (hf'.symm.trans h)
    exact ⟨e, rfl, hsound, hdone⟩

/-- A parsed program has the tree that carrying out all statements leaves. -/
theorem ofText_eq_ok (h : ofText source sourceId = .ok p) :
    ∃ f, place source = .ok f ∧ p.tree = (Visit.run (Line.ofSource source) (classified source f)
      (Visit.all (classified source f) source)).1 := by
  unfold ofText at h
  dsimp only at h
  split at h
  · exact absurd h (by simp)
  · rename_i f hf
    obtain rfl := Except.ok.inj h
    exact ⟨f, hf, rfl⟩

/-- A source whose blocks can be placed is parsed. -/
theorem ofText_of_place (sourceId : Nat) (h : place source = .ok f) :
    ofText source sourceId = .ok (ofTree source sourceId (f.finish (Line.ofSource source))) := by
  unfold ofText
  rw [h]

/-- What is known of a parse that is known to succeed. -/
theorem exists_of_toOption_map {α : Type} {g : Program → α} {a : α}
    (h : (ofText source sourceId).toOption.map g = some a) :
    ∃ p, ofText source sourceId = .ok p ∧ g p = a := by
  cases hp : ofText source sourceId with
  | error d =>
    rw [hp] at h
    cases h
  | ok p =>
    rw [hp] at h
    exact ⟨p, rfl, Option.some.inj h⟩

/-- The parse ends with a tree that it comes through. -/
theorem reaches_tree (h : ofText source sourceId = .ok p) : Reaches source p.tree := by
  obtain ⟨f, hf, htree⟩ := ofText_eq_ok h
  exact ⟨f, _, [], hf, (List.append_nil _).symm, htree⟩

/-- No block has a variable or a call before the first statement. -/
theorem scope_and_calls_classified (hf : place source = .ok f) (id : Nat) :
    ((classified source f).get id).scope = Scope.empty ∧
      ((classified source f).get id).calls = [] := by
  obtain ⟨e, -, hsound, -⟩ := place_eq_ok hf
  rw [classified, BlockTree.scope_classify, BlockTree.calls_classify]
  by_cases hid : id < f.tree.size
  · rw [Forest.get_finish _ f hid]
    by_cases hroot : id = BlockTree.root
    · subst hroot
      have hroot := hsound.root_unlinked
      exact ⟨congrArg Block.scope hroot, congrArg Block.calls hroot⟩
    · have hblock := hsound.unlinked hroot hid
      exact ⟨congrArg Block.scope hblock, congrArg Block.calls hblock⟩
  · rw [BlockTree.get_of_size_le _ (by simpa using hid)]
    exact ⟨rfl, rfl⟩

theorem scope_classified (hf : place source = .ok f) (id : Nat) :
    ((classified source f).get id).scope = Scope.empty := (scope_and_calls_classified hf id).1

theorem wellTyped_classified (hf : place source = .ok f) : (classified source f).WellTyped :=
  fun id => by
    rw [scope_classified hf id]
    exact Scope.wellTyped_empty

theorem Reaches.wellTyped (h : Reaches source t) : t.WellTyped := by
  obtain ⟨f, done, rest, hf, -, rfl⟩ := h
  exact (Visit.wellTyped_and_keeps_of_run _ done (wellTyped_classified hf)).1

/-- **Every scope is well-typed after every statement.** A source that parses comes through
well-typed trees only. So where an addition or a subtraction finds a value in a variable, it is one
that there is a case for, and the complaint that the variable itself holds the wrong kind of value
is never made. And the empty array, which is also how the empty map is written, is kept as the empty
map wherever the type asks for a map. -/
theorem wellTyped_of_reaches (hp : ofText source sourceId = .ok p) :
    Reaches source p.tree ∧
      (∀ t, Reaches source t → t.WellTyped ∧
        ∀ (block owner : Nat) (name : String) (v : Variable) (a : Value),
          t.lookup? block name = some (owner, v) → v.binding = .value a →
          Binding.isCombinable v.type.kind = true →
            Binding.combines v.type a = true ∧ ∀ op operand,
              Binding.combine v.type name op a operand ≠ .error (.mismatch name v.type a)) ∧
      ∀ (key value : TypeName) (name : String) (init : Text),
        Expression.ofText? init = some (.literal (.array [])) →
          Binding.ofInitial (.map key value) name init = .ok (.value (.map [])) := by
  refine ⟨reaches_tree hp, fun t ht => ⟨ht.wellTyped, ?_⟩, fun key value name init hinit =>
    Binding.ofInitial_map_nil key value hinit⟩
  intro block owner name v a hlookup hbinding hkind
  obtain ⟨⟨k, hk⟩, -⟩ := Scope.mem_of_get? (BlockTree.get?_of_lookup? hlookup)
  have hfits := (ht.wellTyped owner).fits hk
  rw [hbinding] at hfits
  have hcombines := Binding.combines_of_holds hfits hkind
  refine ⟨hcombines, fun op operand hmismatch => ?_⟩
  have := Binding.combine_eq_mismatch_iff.mp hmismatch
  rw [hcombines] at this
  exact absurd this (by simp)

/-- An empty map and a double that was written and updated with integers. -/
theorem wellTyped_of_reaches_widening :
    ∃ p, ofText "val m : Map<String, Integer> = []; var x : Double = 1; x += 2".toList 0 = .ok p ∧
      p.tree.WellTyped ∧
      (p.tree.get 0).scope.maps.map (fun v => v.binding.value?.map Value.kind) = [some .map] ∧
      (p.tree.get 0).scope.doubles.map (fun v => v.binding.value?.map Value.kind) =
        [some .double] := by
  refine ⟨_, rfl, ?_, by decide +kernel, by decide +kernel⟩
  have h := @wellTyped_of_reaches
    "val m : Map<String, Integer> = []; var x : Double = 1; x += 2".toList 0 _ rfl
  exact (h.2.1 _ h.1).1

/-- **A statement has one outcome.** Carrying out a piece of text in a block of a tree that the
parse comes through does exactly one of these: nothing, since the text is blank; a diagnostic, and
the tree is as before; one new variable in the block; another binding for the variable that the name
in the statement means there, which may be assigned again; one more call in the block. And no run of
statements, whatever they are, takes a variable away or changes what was declared of it. -/
theorem existsUnique_outcome (ht : Reaches source t) {block : Nat} (hb : block < t.size)
    (piece : Piece) (lines : List Line) :
    (∃! o : Visit.Outcome, o.Describes t block piece.text
      (Visit.run lines t (piece.visit? block).toList).1
      (Visit.run lines t (piece.visit? block).toList).2) ∧
      ∀ visits : List Visit, t.Keeps (Visit.run lines t visits).1 := by
  refine ⟨?_, fun visits => (Visit.wellTyped_and_keeps_of_run lines visits ht.wellTyped).2⟩
  obtain ⟨o, ho⟩ := Visit.exists_outcome lines ht.wellTyped hb piece
  exact ⟨o, ho, fun o' ho' => ho'.eq_tell.trans ho.eq_tell.symm⟩

/-- A declaration, an update and another declaration. -/
def declaredTwice : Text := "var x : Integer = 1\nx += 2\nval y : Integer = 4".toList

/-- The tree of `declaredTwice` when only the last statement has still to be carried out. -/
def declaredOnce : BlockTree :=
  let t := classified declaredTwice (Forest.ofExtraction declaredTwice ⟨[], []⟩)
  (Visit.run (Line.ofSource declaredTwice) t ((Visit.all t declaredTwice).take 2)).1

theorem reaches_declaredOnce : Reaches declaredTwice declaredOnce :=
  ⟨_, _, _, rfl, (List.take_append_drop 2 _).symm, rfl⟩

/-- The second declaration, which comes to a tree where a variable is declared and updated, declares
one more and does nothing else. -/
theorem existsUnique_outcome_of_declaration :
    Reaches declaredTwice declaredOnce ∧ (0 : Nat) < declaredOnce.size ∧
      declaredOnce.outline declaredTwice = "Main\n  var x : Integer = 3\n" ∧
      ∀ o : Visit.Outcome, o.Describes declaredOnce 0 "val y : Integer = 4".toList
        (Visit.run (Line.ofSource declaredTwice) declaredOnce
          ((⟨27, "val y : Integer = 4".toList⟩ : Piece).visit? 0).toList).1
        (Visit.run (Line.ofSource declaredTwice) declaredOnce
          ((⟨27, "val y : Integer = 4".toList⟩ : Piece).visit? 0).toList).2 ↔ o = .declared := by
  have hsize : (0 : Nat) < declaredOnce.size := by decide +kernel
  obtain ⟨o, ho, hunique⟩ := (existsUnique_outcome reaches_declaredOnce hsize
    ⟨27, "val y : Integer = 4".toList⟩ (Line.ofSource declaredTwice)).1
  have htell : o = .declared := by
    rw [ho.eq_tell]
    decide +kernel
  refine ⟨reaches_declaredOnce, hsize, by decide +kernel, fun o' => ⟨fun ho' => ?_, ?_⟩⟩
  · exact (hunique o' ho').trans htell
  · rintro rfl
    exact htell ▸ ho

end BraceTree.Program
