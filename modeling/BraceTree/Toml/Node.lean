/-!
# TOML documents

What a TOML document says, as a tree of nodes. Settings look at strings, integers, truth values,
arrays and tables; floats and dates are only told apart from these, so their values are not kept.

A table remembers how it came about, because that decides what may still be added to it: a value in
braces is complete, a table that a header opened takes no second header, and one that dotted keys
made can only be extended by dotted keys or by headers below it.
-/

namespace BraceTree.Toml

/-- How a table came about. -/
inductive Origin where
  /-- It was written in braces. -/
  | inline
  /-- A header of its own opened it. -/
  | header
  /-- The header of a table in it named it. -/
  | implied
  /-- A dotted key named it. -/
  | dotted
  deriving DecidableEq

/-- A value of a document. -/
inductive Node where
  | string (text : String)
  | integer (n : Int)
  | float
  | date
  | boolean (b : Bool)
  | array (items : List Node)
  | table (origin : Origin) (entries : List (String × Node))
  /-- An array of tables, each opened by a header. -/
  | tables (items : List (List (String × Node)))
  deriving Inhabited

namespace Node

/-- The entries of a table. -/
def entries? : Node → Option (List (String × Node))
  | .table _ es => some es
  | _ => none

/-- The items of an array of either sort. -/
def items? : Node → Option (List Node)
  | .array items => some items
  | .tables items => some (items.map (.table .header))
  | _ => none

/-- The text of a string. -/
def string? : Node → Option String
  | .string s => some s
  | _ => none

/-- A truth value. -/
def boolean? : Node → Option Bool
  | .boolean b => some b
  | _ => none

/-- A count: an integer that is not negative. -/
def count? : Node → Option Nat
  | .integer n => if 0 ≤ n then some n.toNat else none
  | _ => none

end Node

/-- The value of a key among some entries. -/
def find? (key : String) (entries : List (String × Node)) : Option Node :=
  (entries.find? fun e => e.1 == key).map (·.2)

/-- Replaces the value of a key, or adds it behind the others. -/
def put (key : String) (n : Node) : List (String × Node) → List (String × Node)
  | [] => [(key, n)]
  | e :: es => if e.1 == key then (key, n) :: es else e :: put key n es

end BraceTree.Toml
