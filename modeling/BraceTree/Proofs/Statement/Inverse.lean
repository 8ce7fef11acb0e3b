import BraceTree.Proofs.Statement.Successive
import BraceTree.Proofs.Value.Same

/-!
# Adding to an array and removing again

An addition to an array reads its operand as a whole array first, whose items are added, and as one
item only if the type of the array does not accept it so. A removal always reads it as one item.
Where both read it as one item they undo each other up to order: the items are as they were, or the
first one that is equal to the operand has moved to the end.

Where the items of an array are collections themselves there are operands that are an array of items
as well as an item. The empty one is added without any change and then removed where an item is
empty, so such a pair does not leave the items as they were
(`Variable.after_append_remove_of_empty`).
-/

namespace BraceTree

namespace Binding

variable {x : Variable} {element : TypeName} {items more : List Value} {v : Value} {name : String}
  {operand : Text}

/-- The items of an array after something is added to them. -/
def appended (element : TypeName) (items : List Value) : Value → List Value
  | .array more =>
    if (TypeName.array element).accepts (.array more) then items ++ more.map element.coerce
    else items ++ [element.coerce (.array more)]
  | v => items ++ [element.coerce v]

theorem append_eq_ok (items : List Value) (h : element.accepts v = true) :
    append name element items v = .ok (.array (appended element items v)) := by
  cases v with
  | array more =>
    simp only [append, appended, h, if_true]
    split <;> rfl
  | _ => simp only [append, appended, h, if_true]

/-- What is no array of items is added as one item. -/
theorem appended_item (items : List Value) (h : (TypeName.array element).accepts v = false) :
    appended element items v = items ++ [element.coerce v] := by
  cases v with
  | array more => rw [appended, h, if_neg Bool.false_ne_true]
  | _ => rfl

/-- The items of an array of items are added one by one. -/
theorem appended_items (items : List Value)
    (h : (TypeName.array element).accepts (.array more) = true) :
    appended element items (.array more) = items ++ more.map element.coerce := by
  rw [appended, if_pos h]

section

variable (htype : x.type = .array element) (hbinding : x.binding = .value (.array items))
  (hvalue : Expression.ofText? operand = some (.literal v)) (haccepts : element.accepts v = true)

include htype hbinding hvalue

/-- A literal is added to the items of an array or removed from them. -/
theorem compound_array (op : Operator) : compound x.type x.name x.binding op operand =
    (combine (.array element) x.name op (.array items) v).map .value := by
  have hkind : isCombinable (TypeName.array element).kind = true := rfl
  rw [htype, hbinding, compound, hkind, readOperand, hvalue]
  rfl

include haccepts

theorem updated_add_array :
    updated x .add operand = .ok (.value (.array (appended element items v))) := by
  refine (compound_array htype hbinding hvalue .add).trans ?_
  show (append x.name element items v).map Binding.value = _
  rw [append_eq_ok items haccepts]
  rfl

theorem updated_subtract_array : updated x .subtract operand =
    .ok (.value (.array (items.eraseP fun i => i.same (element.coerce v)))) := by
  refine (compound_array htype hbinding hvalue .subtract).trans ?_
  show (remove x.name element items v).map Binding.value = _
  rw [remove, if_pos haccepts]
  rfl

end

end Binding

/-- An addition and a removal of one operand, carried out one after the other. -/
theorem Variable.after_append_remove {x : Variable} {element : TypeName} {items : List Value}
    {v : Value} {operand : Text} (htype : x.type = .array element)
    (hbinding : x.binding = .value (.array items))
    (hvalue : Expression.ofText? operand = some (.literal v))
    (haccepts : element.accepts v = true) :
    x.after [(.add, operand), (.subtract, operand)] = .ok { x with binding := .value (.array
      ((Binding.appended element items v).eraseP fun i => i.same (element.coerce v))) } := by
  have hremove := Binding.updated_subtract_array
    (x := { x with binding := .value (.array (Binding.appended element items v)) })
    htype rfl hvalue haccepts
  rw [after, Binding.updated_add_array htype hbinding hvalue haccepts]
  dsimp only
  rw [after, hremove]
  rfl

/-- **Adding an operand to an array and removing it again** is carried out without a finding if the
type of the items accepts the operand, wherever the name means the array. If the type of the array
does not accept it as well, every value is as often among the items as before: the first item equal
to the operand has moved to the end, or there was none and the items are what they were. If it does,
the items of the operand have been added, and of them all the first one equal to the operand is
gone. -/
theorem Visit.run_append_remove (lines : List Line) {t : BlockTree} (ht : t.Filed) {owner : Nat}
    {x : Variable} (hmutable : x.isMutable = true) {element : TypeName}
    (htype : x.type = .array element) {items : List Value}
    (hbinding : x.binding = .value (.array items)) {v w : Visit} {operand : Text}
    (hlookup : t.lookup? v.block x.name = some (owner, x))
    (hlookup' : t.lookup? w.block x.name = some (owner, x))
    (hread : Statement.read? v.text = some (.update x.name .add operand))
    (hread' : Statement.read? w.text = some (.update x.name .subtract operand)) {value : Value}
    (hvalue : Expression.ofText? operand = some (.literal value))
    (haccepts : element.accepts value = true) :
    ∃ t' items', run lines t [v, w] = (t', []) ∧
      t.Rebinds owner x.name (.value (.array items')) t' ∧
      ((TypeName.array element).accepts value = false →
        (∀ u : Value, items'.countP (fun i => i.same u) = items.countP fun i => i.same u) ∧
        ((∃ before found after, items = before ++ found :: after ∧
            (∀ i ∈ before, i.same (element.coerce value) = false) ∧
            found.same (element.coerce value) = true ∧
            items' = before ++ (after ++ [element.coerce value])) ∨
          ((∀ i ∈ items, i.same (element.coerce value) = false) ∧ items' = items))) ∧
      ∀ more, value = .array more → (TypeName.array element).accepts value = true →
        items' = (items ++ more.map element.coerce).eraseP fun i =>
          i.same (element.coerce value) := by
  obtain ⟨t', hrun, -, hrebinds⟩ := run_updates lines ht (BlockTree.get?_of_lookup? hlookup)
    hmutable (.cons ⟨hread, hlookup⟩ (.cons ⟨hread', hlookup'⟩ .nil))
    (Variable.after_append_remove htype hbinding hvalue haccepts)
  refine ⟨t', _, hrun, hrebinds, fun hitem => ?_, ?_⟩
  · have hself := Value.same_coerce_self hvalue element
    rw [Binding.appended_item items hitem]
    exact ⟨Value.countP_eraseP_append_same items hself, Value.eraseP_append_same items hself⟩
  · rintro more rfl hitems
    rw [Binding.appended_items items hitems]

/-- An integer is added to an array of doubles, one of which is equal to it, and removed again. -/
theorem Visit.run_append_remove_of_widened : ∃ p x items t' items',
    Program.ofText "var a : Array<Double> = [1.0, 2.5]".toList 0 = .ok p ∧
    p.tree.lookup? 0 x.name = some (0, x) ∧ x.type = .array .double ∧
    x.binding = .value (.array items) ∧ TypeName.double.accepts (.integer 1) = true ∧
    (TypeName.array .double).accepts (.integer 1) = false ∧
    run [] p.tree [⟨0, ⟨35, 41⟩, "a += 1".toList⟩, ⟨0, ⟨42, 48⟩, "a -= 1".toList⟩] = (t', []) ∧
    p.tree.Rebinds 0 x.name (.value (.array items')) t' ∧
    ∀ u : Value, items'.countP (fun i => i.same u) = items.countP fun i => i.same u := by
  have hparsed : ((Program.ofText "var a : Array<Double> = [1.0, 2.5]".toList 0).toOption.map
      fun p => (p.tree.lookup? 0 "a").map fun found =>
        (found.1, found.2.isMutable, decide (found.2.type = .array .double),
          found.2.binding.value?.map Value.kind)) = some (some (0, true, true, some .array)) := by
    decide +kernel
  obtain ⟨p, hp, hfacts⟩ := Program.exists_of_toOption_map hparsed
  obtain ⟨⟨owner, x⟩, hlookup, hx⟩ := Option.map_eq_some_iff.mp hfacts
  obtain ⟨rfl, hmutable, htype, hkind⟩ : _ ∧ _ ∧ _ ∧ _ := by
    simpa only [Prod.mk.injEq] using hx
  have hname : x.name = "a" := (Scope.mem_of_get? (BlockTree.get?_of_lookup? hlookup)).2
  have hbinding : ∃ items, x.binding = .value (.array items) := by
    obtain ⟨v, hv, hkind⟩ := Option.map_eq_some_iff.mp hkind
    cases hb : x.binding <;> rw [hb] at hv <;> cases hv
    cases v <;> first | exact ⟨_, rfl⟩ | cases hkind
  obtain ⟨items, hbinding⟩ := hbinding
  rw [← hname] at hlookup
  have hread : Statement.read? "a += 1".toList = some (.update x.name .add "1".toList) ∧
      Statement.read? "a -= 1".toList = some (.update x.name .subtract "1".toList) := by
    rw [hname]
    exact ⟨rfl, rfl⟩
  have hvalue : Expression.ofText? "1".toList = some (.literal (.integer 1)) := rfl
  obtain ⟨t', items', hrun, hrebinds, hitem, -⟩ := Visit.run_append_remove []
    (Program.filed_tree hp) hmutable (of_decide_eq_true htype) hbinding
    (v := ⟨0, ⟨35, 41⟩, "a += 1".toList⟩) (w := ⟨0, ⟨42, 48⟩, "a -= 1".toList⟩)
    hlookup hlookup hread.1 hread.2 hvalue rfl
  exact ⟨p, x, items, t', items', hp, hlookup, of_decide_eq_true htype, hbinding, rfl, rfl, hrun,
    hrebinds, (hitem rfl).1⟩

/-- **The empty array is an array of items and an item** of an array of arrays. Adding it adds
nothing, and then removing it removes an item. -/
theorem Variable.after_append_remove_of_empty : ∃ x y : Variable,
    x.isMutable = true ∧ x.type = .array (.array .integer) ∧
    x.binding = .value (.array [.array []]) ∧
    Expression.ofText? "[]".toList = some (.literal (.array [])) ∧
    (TypeName.array .integer).accepts (.array []) = true ∧
    x.after [(.add, "[]".toList), (.subtract, "[]".toList)] = .ok y ∧
    y.binding = .value (.array []) ∧
    ([] : List Value).countP (fun i => i.same (.array [])) ≠
      [Value.array []].countP fun i => i.same (.array []) :=
  ⟨⟨"a", true, .array (.array .integer), .value (.array [.array []]), ⟨0, 0⟩⟩, _, rfl, rfl, rfl,
    rfl, rfl, rfl, rfl, by decide⟩

end BraceTree
