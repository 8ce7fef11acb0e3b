import BraceTree.Text.Basic

/-!
# Declared types

A variable is declared with a scalar type, an array type or a map type, and the type arguments nest.
`Kind` forgets the arguments: it is what a scope sorts its variables by.

A type annotation is read from the outside in: the name before the first angle bracket, and between
that bracket and the very last character the arguments, which are annotations again. They are
shorter than the annotation they stand in, and this bounds the reading.
-/

namespace BraceTree

/-- The six kinds of variable. -/
inductive Kind where
  | string
  | integer
  | double
  | boolean
  | array
  | map
  deriving DecidableEq, Inhabited

namespace Kind

/-- The kinds, in the order in which everything lists them. -/
def all : List Kind := [.string, .integer, .double, .boolean, .array, .map]

/-- The name of a kind. -/
def name : Kind → String
  | .string => "String"
  | .integer => "Integer"
  | .double => "Double"
  | .boolean => "Boolean"
  | .array => "Array"
  | .map => "Map"

/-- Every kind is listed. -/
theorem mem_all (k : Kind) : k ∈ all := by cases k <;> decide

end Kind

/-- A declared type. -/
inductive TypeName where
  | string
  | integer
  | double
  | boolean
  | array (element : TypeName)
  | map (key value : TypeName)
  deriving DecidableEq, Inhabited

namespace TypeName

/-- The kind of a type. -/
def kind : TypeName → Kind
  | .string => .string
  | .integer => .integer
  | .double => .double
  | .boolean => .boolean
  | .array _ => .array
  | .map _ _ => .map

/-- The text of a type: `Array<…>`, `Map<…, …>`, or the name of its kind. -/
def display : TypeName → String
  | .array e => "Array<" ++ e.display ++ ">"
  | .map k v => "Map<" ++ k.display ++ ", " ++ v.display ++ ">"
  | t => t.kind.name

/-! ## Reading annotations -/

/-- The pieces of a text between the commas outside of angle brackets, given the depth at which the
text starts. A closing bracket that nothing opened is passed over. -/
def splitArgs : (depth : Nat) → Text → List Text
  | _, [] => [[]]
  | depth, c :: cs =>
    if c = '<' then (splitArgs (depth + 1) cs).modifyHead (c :: ·)
    else if c = '>' then (splitArgs (depth - 1) cs).modifyHead (c :: ·)
    else if c = ',' ∧ depth = 0 then [] :: splitArgs 0 cs
    else (splitArgs depth cs).modifyHead (c :: ·)

/-- The trimmed pieces of a text between the commas outside of angle brackets. -/
def arguments (t : Text) : List Text := (splitArgs 0 t).map Text.trim

/-- The type without arguments that a text names. -/
def ofName? (t : Text) : Option TypeName :=
  if t = "String".toList then some .string
  else if t = "Integer".toList then some .integer
  else if t = "Double".toList then some .double
  else if t = "Boolean".toList then some .boolean
  else none

/-- Reads an annotation whose arguments nest less than `depth` deep. -/
def readWithin : (depth : Nat) → Text → Option TypeName
  | 0, _ => none
  | depth + 1, t =>
    match Text.splitFirst? '<' (Text.trim t) with
    | none => ofName? (Text.trim t)
    | some (base, rest) =>
      match Text.dropLast? '>' rest with
      | none => none
      | some inner =>
        if Text.trim base = "Array".toList then (readWithin depth inner).map .array
        else if Text.trim base = "Map".toList then
          match arguments inner with
          | [key, value] =>
            match readWithin depth key, readWithin depth value with
            | some k, some v => some (.map k v)
            | _, _ => none
          | _ => none
        else none

/-- Reads a type annotation. Arguments are shorter than the annotation that holds them, so they nest
no deeper than it is long. -/
def ofText? (t : Text) : Option TypeName := readWithin (t.length + 1) t

end TypeName
end BraceTree
