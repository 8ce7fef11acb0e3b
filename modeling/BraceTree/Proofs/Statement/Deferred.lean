import BraceTree.Proofs.Statement.Successive

/-!
# What is kept of deferred expressions

A binding that holds a call is kept as text, and so is every operation applied to it later. An
operation with a literal goes on from the text that is kept. An operation with a call goes on from
the text that the binding is *shown* with, which has angle brackets around it, so each call adds a
pair of them (`Binding.kept_eq`). The text is the expression that was written, all operations in
their order behind the first call, exactly if no operand is a call (`Binding.kept_eq_chain_iff`).
-/

namespace BraceTree

namespace Binding

/-- The text of an operand. -/
def Operand.display : Operand → String
  | .literal v => v.display
  | .call c => c.display

/-- Whether an operand is a call. -/
def Operand.isCall : Operand → Bool
  | .literal _ => false
  | .call _ => true

/-- An operation as it is written behind an expression: its sign and its operand. -/
def operation (s : Operator × Operand) : String := " " ++ s.1.sign ++ " " ++ s.2.display

/-- The text that is kept of a deferred expression after an operation. -/
def keptStep (text : String) (s : Operator × Operand) : String :=
  match s.2 with
  | .literal _ => text ++ operation s
  | .call _ => ("<" ++ text ++ ">") ++ operation s

/-- The text that is kept after some operations. -/
def kept (text : String) (steps : List (Operator × Operand)) : String := steps.foldl keptStep text

/-- An expression with operations behind it, as they are written. -/
def chain (text : String) (steps : List (Operator × Operand)) : String :=
  text ++ String.join (steps.map operation)

/-- An operation with the bracket that closes before it if its operand is a call. -/
def closing (s : Operator × Operand) : String := (if s.2.isCall then ">" else "") ++ operation s

@[simp] theorem kept_nil (text : String) : kept text [] = text := rfl

@[simp] theorem kept_cons (text : String) (s : Operator × Operand)
    (steps : List (Operator × Operand)) : kept text (s :: steps) = kept (keptStep text s) steps :=
  rfl

/-- **The text that is kept** has all operations in their order, and for each call a bracket in
front of everything and another one before the operation with it. -/
theorem kept_eq (steps : List (Operator × Operand)) : ∀ text : String, kept text steps =
    String.ofList (List.replicate (steps.countP (·.2.isCall)) '<') ++
      (text ++ String.join (steps.map closing)) := by
  induction steps with
  | nil => simp
  | cons s steps ih =>
    intro text
    obtain ⟨op, operand⟩ := s
    rw [kept_cons, ih, List.map_cons, String.join_cons]
    cases operand with
    | literal v =>
      rw [List.countP_cons_of_neg Bool.false_ne_true]
      simp only [keptStep, closing, Operand.isCall, Bool.false_eq_true, if_false,
        String.empty_append, String.append_assoc]
    | call c =>
      rw [List.countP_cons_of_pos rfl, List.replicate_succ', String.ofList_append]
      simp only [keptStep, closing, Operand.isCall, if_true, String.append_assoc]

/-- The brackets make the text longer than what was written, by two for each call. -/
theorem length_kept (text : String) (steps : List (Operator × Operand)) :
    (kept text steps).length = (chain text steps).length + 2 * steps.countP (·.2.isCall) := by
  have hclosing : ∀ steps : List (Operator × Operand), (String.join (steps.map closing)).length =
      (String.join (steps.map operation)).length + steps.countP (·.2.isCall) := by
    intro steps
    induction steps with
    | nil => rfl
    | cons s steps ih =>
      have hbracket : (if s.2.isCall then ">" else "").length = if s.2.isCall then 1 else 0 := by
        split <;> rfl
      rw [List.map_cons, List.map_cons, String.join_cons, String.join_cons, String.length_append,
        String.length_append, ih, List.countP_cons, closing, String.length_append, hbracket]
      omega
  rw [kept_eq, chain, String.length_append, String.length_append, String.length_append, hclosing,
    String.length_ofList, List.length_replicate]
  omega

/-- **The expression is kept as it was written exactly if no operand is a call.** -/
theorem kept_eq_chain_iff (text : String) (steps : List (Operator × Operand)) :
    kept text steps = chain text steps ↔ ∀ s ∈ steps, s.2.isCall = false := by
  constructor
  · intro heq
    have hlength := length_kept text steps
    rw [heq] at hlength
    have hzero : steps.countP (·.2.isCall) = 0 := by omega
    exact fun s hs => Bool.eq_false_iff.mpr (List.countP_eq_zero.mp hzero s hs)
  · intro hnone
    have hzero : steps.countP (·.2.isCall) = 0 :=
      List.countP_eq_zero.mpr fun s hs => Bool.eq_false_iff.mp (hnone s hs)
    have hclosing : steps.map closing = steps.map operation :=
      List.map_congr_left fun s hs => by simp [closing, hnone s hs]
    rw [kept_eq, hzero, hclosing]
    simp [chain]

/-! ## Operations on a deferred binding -/

variable {x : Variable} {op : Operator} {operand : Text} {o : Operand} {text : String}

/-- **An operation on a deferred binding leaves a deferred one**, whatever its operand. -/
theorem updated_deferred (hkind : isCombinable x.kind = true)
    (hbinding : x.binding = .deferred text) (hop : op ≠ .assign)
    (ho : readOperand x.name op operand = .ok o) :
    updated x op operand = .ok (.deferred (keptStep text (op, o))) := by
  have hcombinable : isCombinable x.type.kind = true := hkind
  rw [updated_eq_compound hop, compound, hcombinable, ho, hbinding]
  cases o <;>
    simp only [keptStep, operation, postpone, display, Operand.display, String.append_assoc] <;> rfl

end Binding

/-- Operations on a deferred binding leave the text that is kept of them. -/
theorem Variable.after_deferred : ∀ {us : List (Operator × Text)}
    {steps : List (Operator × Binding.Operand)} {x : Variable} {text : String},
    Binding.isCombinable x.kind = true → x.binding = .deferred text →
    List.Forall₂ (fun u s => u.1 = s.1 ∧ s.1 ≠ .assign ∧
      Binding.readOperand x.name u.1 u.2 = .ok s.2) us steps →
    x.after us = .ok { x with binding := .deferred (Binding.kept text steps) }
  | [], _, _, _, _, hbinding, .nil => by rw [after, Binding.kept_nil, ← hbinding]
  | (op, operand) :: us, (_, o) :: steps, x, text, hkind, hbinding, .cons ⟨rfl, hop, ho⟩ hus => by
    rw [after, Binding.updated_deferred hkind hbinding hop ho, Binding.kept_cons]
    exact after_deferred (x := { x with binding := .deferred (Binding.keptStep text (op, o)) })
      hkind rfl hus

/-- **What is kept of a deferred expression**: additions and subtractions of literals and calls are
all carried out on a variable with a deferred binding, wherever its name means it, and leave it
deferred. The text holds the first call and all operations in their order. It has a pair of angle
brackets for each call as well, around what was kept before, and is what was written only without
any. -/
theorem Visit.run_deferred (lines : List Line) {t : BlockTree} (ht : t.Filed) {owner : Nat}
    {x : Variable} (hx : (t.get owner).scope.get? x.name = some x) (hmutable : x.isMutable = true)
    (hkind : Binding.isCombinable x.kind = true) {text : String}
    (hbinding : x.binding = .deferred text) {vs : List Visit} {us : List (Operator × Text)}
    {steps : List (Operator × Binding.Operand)}
    (hvs : List.Forall₂ (fun v u => Statement.read? v.text = some (.update x.name u.1 u.2) ∧
      t.lookup? v.block x.name = some (owner, x)) vs us)
    (hus : List.Forall₂ (fun u s => u.1 = s.1 ∧ s.1 ≠ .assign ∧
      Binding.readOperand x.name u.1 u.2 = .ok s.2) us steps) :
    (∃ t', run lines t vs = (t', []) ∧
      t.Rebinds owner x.name (.deferred (Binding.kept text steps)) t') ∧
    Binding.kept text steps =
      String.ofList (List.replicate (steps.countP (·.2.isCall)) '<') ++
        (text ++ String.join (steps.map Binding.closing)) ∧
    (Binding.kept text steps = Binding.chain text steps ↔ ∀ s ∈ steps, s.2.isCall = false) := by
  obtain ⟨t', hrun, -, hrebinds⟩ := run_updates lines ht hx hmutable hvs
    (Variable.after_deferred hkind hbinding hus)
  exact ⟨⟨t', hrun, hrebinds⟩, Binding.kept_eq steps text, Binding.kept_eq_chain_iff text steps⟩

/-- A call, another one added to it, and a number subtracted from both. -/
theorem Visit.run_deferred_of_calls : ∃ p x t', Program.ofText "var r : Integer = f()".toList 0 =
      .ok p ∧
    (p.tree.get 0).scope.get? x.name = some x ∧ x.binding = .deferred "f()" ∧
    run [] p.tree [⟨0, ⟨22, 30⟩, "r += g()".toList⟩, ⟨0, ⟨31, 37⟩, "r -= 1".toList⟩] = (t', []) ∧
    p.tree.Rebinds 0 x.name (.deferred "<f()> + g() - 1") t' := by
  have hparsed : ((Program.ofText "var r : Integer = f()".toList 0).toOption.map fun p =>
      (p.tree.lookup? 0 "r").map fun found =>
        (found.1, found.2.isMutable, Binding.isCombinable found.2.kind, match found.2.binding with
          | .deferred text => some text
          | _ => none)) = some (some (0, true, true, some "f()")) := by
    decide +kernel
  obtain ⟨p, hp, hfacts⟩ := Program.exists_of_toOption_map hparsed
  obtain ⟨⟨owner, x⟩, hlookup, hx⟩ := Option.map_eq_some_iff.mp hfacts
  obtain ⟨rfl, hmutable, hkind, htext⟩ : _ ∧ _ ∧ _ ∧ _ := by
    simpa only [Prod.mk.injEq] using hx
  have hget := BlockTree.get?_of_lookup? hlookup
  have hname : x.name = "r" := (Scope.mem_of_get? hget).2
  have hbinding : x.binding = .deferred "f()" := by
    cases hb : x.binding <;> simp_all
  rw [← hname] at hlookup hget
  have hread : Statement.read? "r += g()".toList = some (.update x.name .add "g()".toList) ∧
      Statement.read? "r -= 1".toList = some (.update x.name .subtract "1".toList) := by
    rw [hname]
    exact ⟨rfl, rfl⟩
  have hvisits : List.Forall₂ (fun (v : Visit) u =>
        Statement.read? v.text = some (.update x.name u.1 u.2) ∧
          p.tree.lookup? v.block x.name = some (0, x))
      [⟨0, ⟨22, 30⟩, "r += g()".toList⟩, ⟨0, ⟨31, 37⟩, "r -= 1".toList⟩]
      [(.add, "g()".toList), (.subtract, "1".toList)] :=
    .cons ⟨hread.1, hlookup⟩ (.cons ⟨hread.2, hlookup⟩ .nil)
  have hoperands : List.Forall₂ (fun u s => u.1 = s.1 ∧ s.1 ≠ .assign ∧
        Binding.readOperand x.name u.1 u.2 = .ok s.2)
      [(.add, "g()".toList), (.subtract, "1".toList)]
      [(.add, .call ⟨"g", []⟩), (.subtract, .literal (.integer 1))] :=
    .cons ⟨rfl, by decide, rfl⟩ (.cons ⟨rfl, by decide, rfl⟩ .nil)
  obtain ⟨⟨t', hrun, hrebinds⟩, -⟩ := Visit.run_deferred [] (Program.filed_tree hp) hget
    hmutable hkind hbinding hvisits hoperands
  exact ⟨p, x, t', hp, hget, hbinding, hrun, hrebinds⟩

end BraceTree
