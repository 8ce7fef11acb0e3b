import BraceTree.Value.Basic

/-!
# Variables

A variable has a declared type for good and a binding that updates replace. The binding is a value
where the source tells one. An initial call cannot be evaluated here, so it stays text, and so does
every operation applied to it later: such a binding is *deferred*.
-/

namespace BraceTree

/-- What a variable holds. -/
inductive Binding where
  /-- A value known from the source. -/
  | value (v : Value)
  /-- Nothing yet. -/
  | null
  /-- The text of an expression that holds a call. -/
  | deferred (text : String)
  deriving Inhabited

namespace Binding

/-- The value of a binding that is one. -/
def value? : Binding → Option Value
  | .value v => some v
  | _ => none

/-- The text of a binding; a deferred one stands between angle brackets. -/
def display : Binding → String
  | .value v => v.display
  | .null => "null"
  | .deferred text => "<" ++ text ++ ">"

end Binding

/-- A declared variable. -/
structure Variable where
  /-- The name it was declared with. -/
  name : String
  /-- Whether it may be assigned again: `var` declares such a variable, `val` one that may not. -/
  isMutable : Bool
  /-- The declared type. -/
  type : TypeName
  /-- What it holds now. -/
  binding : Binding
  /-- Where the declaration stands. -/
  span : Span
  deriving Inhabited

namespace Variable

/-- The kind of a variable is the kind of its type. -/
def kind (v : Variable) : Kind := v.type.kind

/-- A variable as the declaration that would make it. -/
def display (v : Variable) : String :=
  (if v.isMutable then "var " else "val ") ++ v.name ++ " : " ++ v.type.display ++ " = " ++
    v.binding.display

end Variable
end BraceTree
