import BraceTree.Diagnostic
import BraceTree.Toml.Document

/-!
# Settings

The settings file has one table, `diagnostics`, which says whether warnings are failures and which
codes are not reported. Tables and keys that nobody knows are passed over. The table may also be
given as an array of its fields, in their order.
-/

namespace BraceTree

/-- The settings of a run. -/
structure Config where
  /-- Whether a warning that is reported makes the run fail. -/
  denyWarnings : Bool := false
  /-- The codes that are not reported, as they are written. -/
  allow : List String := []
  deriving DecidableEq, Inhabited

namespace Config

/-- The file that settings are read from when no other is named. -/
def defaultFile : String := "shapescript.toml"

/-- A field that may be missing. -/
def optional? {α : Type} (read : Toml.Node → Option α) (default : α) : Option Toml.Node → Option α
  | none => some default
  | some n => read n

/-- A list of strings. -/
def strings? (n : Toml.Node) : Option (List String) := n.items?.bind fun ns => ns.mapM (·.string?)

/-- The settings with the given fields. -/
def ofFields? (deny allow : Option Toml.Node) : Option Config :=
  match optional? Toml.Node.boolean? false deny, optional? strings? [] allow with
  | some d, some a => some ⟨d, a⟩
  | _, _ => none

/-- The settings that the value of `diagnostics` gives. -/
def ofNode? (n : Toml.Node) : Option Config :=
  match n.items? with
  | some items => ofFields? items[0]? items[1]?
  | none =>
    n.entries?.bind fun es => ofFields? (Toml.find? "deny_warnings" es) (Toml.find? "allow" es)

/-- Reads a settings file. A malformed document and a field of the wrong type are refused. -/
def read? (text : String) : Option Config :=
  (Toml.read? text.toList).bind fun es =>
    optional? ofNode? {} (Toml.find? "diagnostics" es)

/-- Whether a diagnostic is reported. One that ends the parse always is. -/
def reports (c : Config) (d : Diagnostic) : Bool := d.isFatal || !c.allow.contains d.code.text

/-- The codes to leave out that are none. -/
def unknownCodes (c : Config) : List String :=
  c.allow.filter fun code => (Code.ofText? code).isNone

end Config
end BraceTree
