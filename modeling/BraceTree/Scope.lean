import BraceTree.Variable

/-!
# Scopes

The variables declared directly in one block. A scope keeps one collection for each kind of
variable, ordered by name, but a name is declared at most once over all kinds: a second declaration
is refused and the first one stays. After that only the binding of a variable changes.
-/

namespace BraceTree

/-- The variables of one block, by kind. -/
structure Scope where
  /-- The variables of type `String`, by name. -/
  strings : List Variable := []
  /-- The variables of type `Integer`, by name. -/
  integers : List Variable := []
  /-- The variables of type `Double`, by name. -/
  doubles : List Variable := []
  /-- The variables of type `Boolean`, by name. -/
  booleans : List Variable := []
  /-- The variables of an array type, by name. -/
  arrays : List Variable := []
  /-- The variables of a map type, by name. -/
  maps : List Variable := []
  deriving Inhabited

namespace Scope

/-- The scope without variables. -/
def empty : Scope := {}

/-- The variables of one kind, by name. -/
def collection (s : Scope) : Kind → List Variable
  | .string => s.strings
  | .integer => s.integers
  | .double => s.doubles
  | .boolean => s.booleans
  | .array => s.arrays
  | .map => s.maps

/-- Changes the collection of one kind. -/
def modifyCollection (s : Scope) (k : Kind) (f : List Variable → List Variable) : Scope :=
  match k with
  | .string => { s with strings := f s.strings }
  | .integer => { s with integers := f s.integers }
  | .double => { s with doubles := f s.doubles }
  | .boolean => { s with booleans := f s.booleans }
  | .array => { s with arrays := f s.arrays }
  | .map => { s with maps := f s.maps }

/-- Changing the collection of one kind changes no other. -/
@[simp] theorem collection_modifyCollection (s : Scope) (k k' : Kind)
    (f : List Variable → List Variable) :
    (s.modifyCollection k f).collection k' =
      if k = k' then f (s.collection k') else s.collection k' := by
  cases k <;> cases k' <;> rfl

/-- All variables, by kind and then by name. -/
def toList (s : Scope) : List Variable := Kind.all.flatMap s.collection

/-- The number of variables. -/
def size (s : Scope) : Nat := s.toList.length

/-- Whether a scope has no variables. -/
def isEmpty (s : Scope) : Bool := Kind.all.all fun k => (s.collection k).isEmpty

/-- The variable of a name, of whichever kind. -/
def get? (s : Scope) (name : String) : Option Variable :=
  Kind.all.findSome? fun k => (s.collection k).find? (·.name == name)

/-- Whether a name is declared. -/
def contains (s : Scope) (name : String) : Bool := (s.get? name).isSome

/-- Puts a variable into its place in a collection ordered by name. -/
def insertByName (v : Variable) : List Variable → List Variable
  | [] => [v]
  | w :: ws => if v.name < w.name then v :: w :: ws else w :: insertByName v ws

/-- Declares a variable, unless its name is taken. -/
def declare? (s : Scope) (v : Variable) : Option Scope :=
  if s.contains v.name then none else some (s.modifyCollection v.kind (insertByName v))

/-- The variable that is reached to be changed: the kind of the variable that a name means tells the
collection, and there the name is sought again. -/
def reach? (s : Scope) (name : String) : Option Variable :=
  (s.get? name).bind fun v => (s.collection v.kind).find? (·.name == name)

/-- Replaces what the variable of a name holds, if one is reached. -/
def setBinding? (s : Scope) (name : String) (b : Binding) : Option Scope :=
  (s.get? name).bind fun v =>
    (s.reach? name).map fun _ =>
      s.modifyCollection v.kind fun vs =>
        vs.map fun w => if w.name = name then { w with binding := b } else w

end Scope
end BraceTree
