import BraceTree.Program
import BraceTree.Text.GraphicRanges

/-!
# Dumps

Everything that a program holds, written out with the names of all parts. A dump is a tree of
records, tuples, lists and maps; each part stands on a line of its own, four blanks further in than
the whole, and ends with a comma.

Texts are quoted so that every character can be told: those without a visible form of their own are
written by their code points.
-/

namespace BraceTree

/-- A structure to be written out. -/
inductive Dump where
  /-- A single word or number. -/
  | atom (text : String)
  /-- Named parts. -/
  | record (name : String) (fields : List (String × Dump))
  /-- Unnamed parts; the name may be empty. -/
  | tuple (name : String) (parts : List Dump)
  /-- Any number of parts. -/
  | list (items : List Dump)
  /-- Any number of keys with their values. -/
  | map (entries : List (String × Dump))

namespace Dump

/-- Puts a text in front of the first line. -/
def before (label : String) (ls : List String) : List String := ls.modifyHead (label ++ ·)

/-- The lines of a part inside of another: further in, with a comma at the end. -/
def inner (ls : List String) : List String :=
  (ls.dropLast ++ [ls.getLast?.getD "" ++ ","]).map ("    " ++ ·)

mutual

/-- The lines of a dump. -/
def lines : Dump → List String
  | .atom t => [t]
  | .record name [] => [name]
  | .record name (f :: fs) => [name ++ " \x7b"] ++ fieldLines (f :: fs) ++ ["\x7d"]
  | .tuple name parts => [name ++ "("] ++ partLines parts ++ [")"]
  | .list [] => ["[]"]
  | .list (d :: ds) => ["["] ++ partLines (d :: ds) ++ ["]"]
  | .map [] => ["\x7b\x7d"]
  | .map (e :: es) => ["\x7b"] ++ fieldLines (e :: es) ++ ["\x7d"]

/-- The lines of named parts. -/
def fieldLines : List (String × Dump) → List String
  | [] => []
  | (name, d) :: fs => inner (before (name ++ ": ") (lines d)) ++ fieldLines fs

/-- The lines of unnamed parts. -/
def partLines : List Dump → List String
  | [] => []
  | d :: ds => inner (lines d) ++ partLines ds

end

/-- The text of a dump. -/
def render (d : Dump) : String := "\n".intercalate d.lines

/-! ## Texts and numbers -/

/-- A character in a quoted text. -/
def quoteChar (c : Char) : Text :=
  if c = '\x00' then ['\\', '0']
  else if c = '\t' then ['\\', 't']
  else if c = '\n' then ['\\', 'n']
  else if c = '\r' then ['\\', 'r']
  else if c = '\\' then ['\\', '\\']
  else if c = '"' then ['\\', '"']
  else if 0x20 ≤ c.toNat ∧ c.toNat < 0x7F then [c]
  else if Text.inRanges Text.graphicRanges c && !Text.inRanges Text.extendingRanges c then [c]
  else ['\\', 'u', '\x7b'] ++ Nat.toDigits 16 c.toNat ++ ['\x7d']

/-- A text in quotes. -/
def quoted (s : String) : String :=
  "\"" ++ String.ofList (s.toList.flatMap quoteChar) ++ "\""

/-- A text. -/
def text (s : String) : Dump := .atom (quoted s)

/-- A number. -/
def nat (n : Nat) : Dump := .atom (toString n)

/-- A truth value. -/
def bool (b : Bool) : Dump := .atom (if b then "true" else "false")

/-- A range. -/
def span (s : Span) : Dump := .atom s!"{s.start}..{s.stop}"

/-- A part that may be missing. -/
def option (d : Option Dump) : Dump :=
  match d with
  | some d => .tuple "Some" [d]
  | none => .atom "None"

/-- A double with as many digits as it takes to read it back, and with an exponent from `10^16` on
and below `10^-4`. -/
def double (x : Float) : Dump :=
  match Decimal.Shape.ofFloat x with
  | .nan => .atom "NaN"
  | .infinite negative => .atom (if negative then "-inf" else "inf")
  | .finite negative m q =>
    let sign := if negative then "-" else ""
    if m = 0 then .atom (sign ++ "0.0")
    else
      let (digits, place) := Decimal.shortest m q
      let exponent : Int := place + ((Nat.toDigits 10 digits).length - 1 : Nat)
      if exponent < -4 ∨ 16 ≤ exponent then .atom (sign ++ Decimal.scientific digits place)
      else if 0 ≤ place then .atom (sign ++ Decimal.positional digits place ++ ".0")
      else .atom (sign ++ Decimal.positional digits place)

/-! ## Values and variables -/

/-- A type. -/
def type : TypeName → Dump
  | .array e => .tuple "Array" [type e]
  | .map k v => .tuple "Map" [type k, type v]
  | t => .atom t.kind.name

mutual

/-- A value. -/
def value : Value → Dump
  | .string s => .tuple "String" [text s]
  | .integer n => .tuple "Integer" [.atom (toString n.toInt)]
  | .double x => .tuple "Double" [double x]
  | .boolean b => .tuple "Boolean" [bool b]
  | .array items => .tuple "Array" [.list (values items)]
  | .map entries => .tuple "Map" [.list (keyedValues entries)]

/-- Some values. -/
def values : List Value → List Dump
  | [] => []
  | v :: vs => value v :: values vs

/-- Some entries. -/
def keyedValues : List (Value × Value) → List Dump
  | [] => []
  | (k, v) :: es => .tuple "" [value k, value v] :: keyedValues es

end

/-- A binding. -/
def binding : Binding → Dump
  | .value v => .tuple "Value" [value v]
  | .null => .atom "Null"
  | .deferred t => .tuple "Deferred" [text t]

/-- A variable. -/
def variableRecord (v : Variable) : Dump :=
  .record "Variable" [("name", text v.name), ("mutable", bool v.isMutable), ("ty", type v.type),
    ("binding", binding v.binding), ("span", span v.span)]

/-- A collection of variables by name. -/
def collection (vs : List Variable) : Dump :=
  .map (vs.map fun v => (quoted v.name, variableRecord v))

/-- A scope. -/
def scope (s : Scope) : Dump :=
  .record "Scope" [("strings", collection s.strings), ("integers", collection s.integers),
    ("doubles", collection s.doubles), ("booleans", collection s.booleans),
    ("arrays", collection s.arrays), ("maps", collection s.maps)]

/-! ## Blocks -/

/-- The place of a block. -/
def blockId (id : BlockId) : Dump := .tuple "BlockId" [nat id]

/-- A parameter of a function. -/
def parameter (p : Parameter) : Dump :=
  .record "Parameter" [("name", text p.name), ("ty", option (p.typeText.map text))]

/-- The clause of a loop. -/
def forClause : ForClause → Dump
  | .counted init condition step =>
    .record "Counted" [("init", text init), ("condition", text condition), ("step", text step)]
  | .each item collection =>
    .record "Each" [("item", text item), ("collection", text collection)]

/-- What a function header declares. -/
def signature (s : Signature) : Dump :=
  .record "FunctionSignature" [("name", text s.name),
    ("parameters", .list (s.parameters.map parameter)),
    ("return_type", option (s.returnType.map type))]

/-- The kind of a block. -/
def blockKind (k : BlockKind) : Dump :=
  match k with
  | .ifBranch c | .elifBranch c | .whileLoop c => .record k.label [("condition", text c)]
  | .forLoop clause => .tuple k.label [forClause clause]
  | .function s => .tuple k.label [signature s]
  | _ => .atom k.label

/-- A call made as a statement. -/
def callSite (c : CallSite) : Dump :=
  .record "FunctionCall" [("name", text c.call.name), ("args", .list (c.call.args.map text)),
    ("span", span c.span)]

/-- A block. -/
def block (id : BlockId) (b : Block) : Dump :=
  .record "Block" [("id", blockId id), ("kind", blockKind b.kind), ("span", span b.span),
    ("body", span b.body), ("header_span", span b.headerSpan), ("text", text b.text),
    ("lines", span b.lines), ("parent", option (b.parent.map blockId)),
    ("children", .list (b.children.map blockId)), ("scope", scope b.scope),
    ("calls", .list (b.calls.map callSite)), ("flagged", bool b.flagged)]

/-! ## Programs -/

/-- A line. -/
def line (l : OwnedLine) : Dump :=
  .record "Line" [("index", nat l.index), ("span", span l.span), ("text", text l.text),
    ("block", option (some (blockId l.owner)))]

/-- The name of a code in a dump. -/
def codeName : Code → String
  | .unbalancedBraces => "UnbalancedBraces"
  | .ambiguousHierarchy => "AmbiguousHierarchy"
  | .unclassifiedHeader => "UnclassifiedHeader"
  | .danglingBranch => "DanglingBranch"
  | .unresolvedName => "UnresolvedNameOnUpdate"
  | .immutableReassignment => "ImmutableReassignment"
  | .duplicateDeclaration => "DuplicateDeclaration"
  | .unknownType => "UnknownType"
  | .typeMismatch => "TypeMismatch"
  | .invalidCompoundAssignment => "InvalidCompoundAssignment"
  | .unrecognizedStatement => "UnrecognizedStatement"

/-- A diagnostic. -/
def diagnostic (d : Diagnostic) : Dump :=
  .record "ParseError" [("kind", .atom (codeName d.code)), ("message", text d.message),
    ("span", span d.span), ("line", nat d.line), ("file_id", nat d.sourceId),
    ("severity", .atom (match d.severity with | .error => "Error" | .warning => "Warning")),
    ("notes", .list (d.notes.map text))]

/-- A program. -/
def program (p : Program) : Dump :=
  .record "Program" [
    ("tree", .record "BlockTree" [("blocks", .list (p.tree.blocks.mapIdx block)),
      ("root", blockId BlockTree.root)]),
    ("lines", .list (p.lines.map line)),
    ("diagnostics", .list (p.diagnostics.map diagnostic)),
    ("source_id", nat p.sourceId)]

end Dump
end BraceTree
