import BraceTree.Value.Type
import BraceTree.Decimal.Shortest

/-!
# Values

The values that a source can spell out. Maps keep their entries in the order in which they are
written, and their keys are values like any other.

A type *accepts* a value when the value fits after conversion: integers widen into doubles, and the
empty array is also the empty map, since both are written `[]`. *Coercing* an accepted value carries
the conversion out. Both follow the type, so a value is looked into only as deep as its type goes.
-/

namespace BraceTree

/-- A value known from the source alone. -/
inductive Value where
  | string (text : String)
  | integer (n : Int64)
  | double (x : Float)
  | boolean (b : Bool)
  | array (items : List Value)
  /-- The entries of a map, in the order in which they are written. -/
  | map (entries : List (Value × Value))
  deriving Inhabited

namespace Value

/-- The kind of a value. -/
def kind : Value → Kind
  | .string _ => .string
  | .integer _ => .integer
  | .double _ => .double
  | .boolean _ => .boolean
  | .array _ => .array
  | .map _ => .map

/-! ## Equality

Doubles are compared as numbers, so the two zeros are equal and what is no number differs from
itself. -/

mutual

/-- Whether two values are equal. -/
def same : Value → Value → Bool
  | .string a, .string b => a == b
  | .integer a, .integer b => a == b
  | .double a, .double b => a == b
  | .boolean a, .boolean b => a == b
  | .array a, .array b => sameItems a b
  | .map a, .map b => sameEntries a b
  | _, _ => false

/-- Whether two lists of values are equal. -/
def sameItems : List Value → List Value → Bool
  | [], [] => true
  | a :: as, b :: bs => same a b && sameItems as bs
  | _, _ => false

/-- Whether two lists of entries are equal. -/
def sameEntries : List (Value × Value) → List (Value × Value) → Bool
  | [], [] => true
  | (k, v) :: as, (l, w) :: bs => same k l && same v w && sameEntries as bs
  | _, _ => false

end

instance : BEq Value := ⟨same⟩

/-! ## Text -/

/-- The text of a character inside a string literal. -/
def escapeChar (c : Char) : Text :=
  if c = '"' then ['\\', '"']
  else if c = '\\' then ['\\', '\\']
  else if c = '\n' then ['\\', 'n']
  else if c = '\t' then ['\\', 't']
  else [c]

/-- The literal for a string. -/
def quote (s : String) : String := "\"" ++ String.ofList (s.toList.flatMap escapeChar) ++ "\""

/-- The text of a double: a whole number has one decimal place, any other as many as it takes to
read it back, and no number is written with an exponent. -/
def doubleText (x : Float) : String :=
  match Decimal.Shape.ofFloat x with
  | .nan => "NaN"
  | .infinite negative => if negative then "-inf" else "inf"
  | .finite negative m q =>
    let sign := if negative then "-" else ""
    if 0 ≤ q then sign ++ toString (m * Nat.pow 2 q.toNat) ++ ".0"
    else if m % Nat.pow 2 (-q).toNat = 0 then
      sign ++ toString (m / Nat.pow 2 (-q).toNat) ++ ".0"
    else
      let (digits, place) := Decimal.shortest m q
      sign ++ Decimal.positional digits place

mutual

/-- The text of a value, as a literal that reads back as the value. -/
def display : Value → String
  | .string s => quote s
  | .integer n => toString n.toInt
  | .double x => doubleText x
  | .boolean b => if b then "true" else "false"
  | .array items => "[" ++ ", ".intercalate (displayItems items) ++ "]"
  | .map entries => "[" ++ ", ".intercalate (displayEntries entries) ++ "]"

/-- The texts of some values. -/
def displayItems : List Value → List String
  | [] => []
  | v :: vs => display v :: displayItems vs

/-- The texts of some entries. -/
def displayEntries : List (Value × Value) → List String
  | [] => []
  | (k, v) :: es => (display k ++ ": " ++ display v) :: displayEntries es

end

end Value

/-! ## Types and values -/

namespace TypeName

/-- Whether a value fits a variable of a type. Integers widen into doubles, and `[]` is an empty map
as well as an empty array. -/
def accepts : TypeName → Value → Bool
  | .string, .string _ => true
  | .integer, .integer _ => true
  | .double, .double _ => true
  | .double, .integer _ => true
  | .boolean, .boolean _ => true
  | .array e, .array items => items.all fun v => e.accepts v
  | .map k v, .map entries => entries.all fun e => k.accepts e.1 && v.accepts e.2
  | .map _ _, .array items => items.isEmpty
  | _, _ => false

/-- Brings a value into the representation of a type. A value that the type does not accept may
change its meaning. -/
def coerce : TypeName → Value → Value
  | .double, .integer n => .double (Float.ofInt n.toInt)
  | .array e, .array items => .array (items.map fun v => e.coerce v)
  | .map _ _, .array _ => .map []
  | .map k v, .map entries => .map (entries.map fun e => (k.coerce e.1, v.coerce e.2))
  | _, v => v

end TypeName
end BraceTree
