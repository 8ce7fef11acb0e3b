import BraceTree.Block.Tree
import BraceTree.Statement.Grammar
import BraceTree.Statement.Visit

/-!
# What statements do

Each statement either changes the tree or is reported, never both: `Visit.apply` gives a new tree or
a problem. A declaration adds a variable to its block, an update changes what the variable that its
name means there holds, and a call is noted.

A value must fit the type of its variable, and is brought into the representation of that type. An
addition or a subtraction is carried out where both sides are known. Where one of them is a call the
operation is kept as text.
-/

namespace BraceTree

namespace Binding

/-- The binding that a right-hand side gives a variable. -/
def ofInitial (type : TypeName) (name : String) (init : Text) : Except Problem Binding :=
  match Expression.ofText? init with
  | none =>
    let text := String.ofList (Text.trim init)
    if Literal.isOversized init then .error (.oversizedInteger text name)
    else .error (.unreadableValue text name)
  | some .null => .ok .null
  | some (.call c) => .ok (.deferred c.display)
  | some (.literal v) =>
    if type.accepts v then .ok (.value (type.coerce v)) else .error (.mismatch name type v)

/-- The operand of an addition or subtraction that is neither `null` nor unreadable. -/
inductive Operand where
  | literal (value : Value)
  | call (call : Call)

/-- Reads the operand of an addition or subtraction. -/
def readOperand (name : String) (op : Operator) (text : Text) : Except Problem Operand :=
  match Expression.ofText? text with
  | none =>
    let trimmed := String.ofList (Text.trim text)
    if Literal.isOversized text then .error (.oversizedInteger trimmed name)
    else .error (.unreadableOperand trimmed name)
  | some .null => .error (.nullOperand op name)
  | some (.call c) => .ok (.call c)
  | some (.literal v) => .ok (.literal v)

/-- An operation kept as text. -/
def postpone (left : String) (op : Operator) (right : String) : Binding :=
  .deferred (left ++ " " ++ op.sign ++ " " ++ right)

/-- Adds to or subtracts from an integer, if the result fits. -/
def combineIntegers (name : String) (op : Operator) (a b : Int64) : Except Problem Value :=
  let result := match op with
    | .subtract => a.toInt - b.toInt
    | _ => a.toInt + b.toInt
  if Literal.fitsInteger result then .ok (.integer (Int64.ofInt result))
  else .error (.overflow name op b)

/-- Adds to or subtracts from a double. -/
def combineDoubles (op : Operator) (a b : Float) : Value :=
  match op with
  | .subtract => .double (a - b)
  | _ => .double (a + b)

/-- Appends to an array: the items of an array that the type accepts, or else one item. -/
def append (name : String) (element : TypeName) (items : List Value) (v : Value) :
    Except Problem Value :=
  let single : Except Problem Value :=
    if element.accepts v then .ok (.array (items ++ [element.coerce v]))
    else .error (.mismatch name element v)
  match v with
  | .array more =>
    if (TypeName.array element).accepts v then .ok (.array (items ++ more.map element.coerce))
    else single
  | _ => single

/-- Removes the first item of an array that is equal to a value, if there is one. -/
def remove (name : String) (element : TypeName) (items : List Value) (v : Value) :
    Except Problem Value :=
  if element.accepts v then
    .ok (.array (items.eraseP fun item => item.same (element.coerce v)))
  else .error (.mismatch name element v)

/-- Adds to or subtracts from the value of a variable. -/
def combine (type : TypeName) (name : String) (op : Operator) (current operand : Value) :
    Except Problem Value :=
  match type, current with
  | .integer, .integer a =>
    match operand with
    | .integer b => combineIntegers name op a b
    | _ => .error (.mismatch name type operand)
  | .double, .double a =>
    match operand with
    | .double b => .ok (combineDoubles op a b)
    | .integer b => .ok (combineDoubles op a (Float.ofInt b.toInt))
    | _ => .error (.mismatch name type operand)
  | .array element, .array items =>
    match op with
    | .subtract => remove name element items operand
    | _ => append name element items operand
  | _, _ => .error (.mismatch name type current)

/-- Whether a kind of variable can be added to and subtracted from. -/
def isCombinable : Kind → Bool
  | .integer | .double | .array => true
  | _ => false

/-- The binding that an addition or a subtraction leaves. -/
def compound (type : TypeName) (name : String) (current : Binding) (op : Operator)
    (operand : Text) : Except Problem Binding :=
  if !isCombinable type.kind then .error (.noCompound op name type)
  else
    match readOperand name op operand with
    | .error p => .error p
    | .ok (.call c) => .ok (postpone current.display op c.display)
    | .ok (.literal v) =>
      match current with
      | .null => .error (.nullVariable name op)
      | .deferred text => .ok (postpone text op v.display)
      | .value a => (combine type name op a v).map .value

/-- The binding that an update leaves. -/
def updated (v : Variable) (op : Operator) (operand : Text) : Except Problem Binding :=
  match op with
  | .assign => ofInitial v.type v.name operand
  | _ => compound v.type v.name v.binding op operand

end Binding

namespace Statement

/-- Declares a variable in a block. -/
def declareVariable (lines : List Line) (t : BlockTree) (block : BlockId) (span : Span)
    (isMutable : Bool) (name : String) (typeText init : Text) : Except Problem BlockTree :=
  match TypeName.ofText? typeText with
  | none => .error (.unknownType (String.ofList (Text.trim typeText)) name)
  | some type =>
    match Binding.ofInitial type name init with
    | .error p => .error p
    | .ok binding =>
      match t.declare? block ⟨name, isMutable, type, binding, span⟩ with
      | some t' => .ok t'
      | none =>
        let first := ((t.get block).scope.get? name).map fun v => v.span.start
        .error (.duplicateDeclaration name (Line.indexAt lines (first.getD 0) + 1))

/-- Updates the variable that a name means in a block. -/
def updateVariable (lines : List Line) (t : BlockTree) (block : BlockId) (name : String)
    (op : Operator) (operand : Text) : Except Problem BlockTree :=
  match t.lookup? block name with
  | none => .error (.unresolvedName name)
  | some (_, v) =>
    if v.isMutable then
      match Binding.updated v op operand with
      | .error p => .error p
      | .ok binding => .ok ((t.setBinding? block name binding).getD t)
    else .error (.immutableReassignment name (Line.indexAt lines v.span.start + 1))

/-- Carries a statement out in a block. -/
def apply (lines : List Line) (t : BlockTree) (block : BlockId) (span : Span) :
    Statement → Except Problem BlockTree
  | .declaration isMutable name typeText init =>
    declareVariable lines t block span isMutable name typeText init
  | .update name op operand => updateVariable lines t block name op operand
  | .call c => .ok (t.addCall block ⟨c, span⟩)

end Statement

namespace Visit

/-- Carries out a statement where it stands. -/
def apply (lines : List Line) (t : BlockTree) (v : Visit) : Except Problem BlockTree :=
  match Statement.read? v.text with
  | none => .error (.unrecognizedStatement (String.ofList v.text))
  | some s => s.apply lines t v.block v.span

/-- Carries out statements in order, and tells the tree that they leave and what is wrong with
them. -/
def run (lines : List Line) : BlockTree → List Visit → BlockTree × List Finding
  | t, [] => (t, [])
  | t, v :: vs =>
    match v.apply lines t with
    | .ok t' => run lines t' vs
    | .error p => ((run lines t vs).1, ⟨p, v.span⟩ :: (run lines t vs).2)

end Visit
end BraceTree
