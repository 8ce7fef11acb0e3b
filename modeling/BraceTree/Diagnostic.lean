import BraceTree.Text.Line
import BraceTree.Expression

/-!
# Diagnostics

What can be wrong with a source is a closed list of *problems*, each with the facts that its message
tells. A problem belongs to a *code*, the stable name by which users refer to it. Two codes end the
parse; the others are reported beside the best tree that could be built.
-/

namespace BraceTree

/-- The stable names of what can be wrong. -/
inductive Code where
  | unbalancedBraces
  | ambiguousHierarchy
  | unclassifiedHeader
  | danglingBranch
  | unresolvedName
  | immutableReassignment
  | duplicateDeclaration
  | unknownType
  | typeMismatch
  | invalidCompoundAssignment
  | unrecognizedStatement
  deriving DecidableEq, Inhabited

namespace Code

/-- All codes. -/
def all : List Code :=
  [.unbalancedBraces, .ambiguousHierarchy, .unclassifiedHeader, .danglingBranch, .unresolvedName,
    .immutableReassignment, .duplicateDeclaration, .unknownType, .typeMismatch,
    .invalidCompoundAssignment, .unrecognizedStatement]

/-- The text of a code. -/
def text : Code → String
  | .unbalancedBraces => "unbalanced-braces"
  | .ambiguousHierarchy => "ambiguous-hierarchy"
  | .unclassifiedHeader => "unclassified-header"
  | .danglingBranch => "dangling-branch"
  | .unresolvedName => "unresolved-name"
  | .immutableReassignment => "immutable-reassignment"
  | .duplicateDeclaration => "duplicate-declaration"
  | .unknownType => "unknown-type"
  | .typeMismatch => "type-mismatch"
  | .invalidCompoundAssignment => "invalid-compound-assignment"
  | .unrecognizedStatement => "unrecognized-statement"

/-- The code of a text. -/
def ofText? (text : String) : Option Code := all.find? fun c => c.text == text

/-- Every code is read back from its text. -/
@[simp] theorem ofText?_text (c : Code) : ofText? c.text = some c := by cases c <;> decide

/-- Whether a problem of this code ends the parse. -/
def isFatal : Code → Bool
  | .unbalancedBraces | .ambiguousHierarchy => true
  | _ => false

end Code

/-- The three ways to update a variable. -/
inductive Operator where
  | assign
  | add
  | subtract
  deriving DecidableEq, Inhabited

namespace Operator

/-- The text of an operator. -/
def text : Operator → String
  | .assign => "="
  | .add => "+="
  | .subtract => "-="

/-- The sign that stands between a deferred expression and a further operand. -/
def sign : Operator → String
  | .subtract => "-"
  | _ => "+"

end Operator

/-- Everything that can be wrong with a source. -/
inductive Problem where
  /-- A closing brace without an opening one. -/
  | strayBrace
  /-- The last opening brace without a closing one, and how many there are. -/
  | unclosedBrace (count : Nat)
  /-- A block whose own braces are not in the list of braces. -/
  | unrecordedBraces (start : String)
  /-- A block with an open brace before it and no closing one after it, or the other way round. -/
  | halfEnclosed (start : String)
  /-- A function declared with a return type that is no type. -/
  | unknownReturnType (type function : String)
  /-- A header that opens no known kind of block. -/
  | unclassifiedHeader (header : String)
  /-- An `elif` or `else` block without an `if` or `elif` block before it. -/
  | danglingBranch (keyword : String)
  /-- A text that is no statement. -/
  | unrecognizedStatement (text : String)
  /-- A declaration with a type that is no type. -/
  | unknownType (type name : String)
  /-- A name declared again, and the line of the first declaration. -/
  | duplicateDeclaration (name : String) (line : Nat)
  /-- An update of a name that is not declared. -/
  | unresolvedName (name : String)
  /-- An update of a `val`, and the line of its declaration. -/
  | immutableReassignment (name : String) (line : Nat)
  /-- An integer that is too large. -/
  | oversizedInteger (literal name : String)
  /-- A right-hand side that is no expression. -/
  | unreadableValue (text name : String)
  /-- A value that does not fit the type. -/
  | mismatch (name : String) (type : TypeName) (value : Value)
  /-- An addition or subtraction on a type that has none. -/
  | noCompound (op : Operator) (name : String) (type : TypeName)
  /-- An operand that is no expression. -/
  | unreadableOperand (text name : String)
  /-- The operand `null`. -/
  | nullOperand (op : Operator) (name : String)
  /-- An addition to or subtraction from a variable that holds nothing. -/
  | nullVariable (name : String) (op : Operator)
  /-- An addition or subtraction whose result is too large. -/
  | overflow (name : String) (op : Operator) (operand : Int64)

namespace Problem

/-- The code a problem belongs to. -/
def code : Problem → Code
  | .strayBrace | .unclosedBrace _ => .unbalancedBraces
  | .unrecordedBraces _ | .halfEnclosed _ => .ambiguousHierarchy
  | .unknownReturnType _ _ | .unknownType _ _ => .unknownType
  | .unclassifiedHeader _ => .unclassifiedHeader
  | .danglingBranch _ => .danglingBranch
  | .unrecognizedStatement _ | .unreadableValue _ _ | .unreadableOperand _ _ =>
    .unrecognizedStatement
  | .duplicateDeclaration _ _ => .duplicateDeclaration
  | .unresolvedName _ => .unresolvedName
  | .immutableReassignment _ _ => .immutableReassignment
  | .oversizedInteger _ _ | .mismatch _ _ _ | .nullOperand _ _ | .nullVariable _ _
  | .overflow _ _ _ => .typeMismatch
  | .noCompound _ _ _ => .invalidCompoundAssignment

/-- The name of a kind after its indefinite article. -/
def withArticle (k : Kind) : String :=
  match k with
  | .integer | .array => s!"an {k.name}"
  | _ => s!"a {k.name}"

/-- What a problem tells the user. -/
def message : Problem → String
  | .strayBrace => "closing brace has no matching opening brace"
  | .unclosedBrace _ => "opening brace is never closed"
  | .unrecordedBraces _ =>
    "cannot place block in the hierarchy: block braces were not recorded by the scan"
  | .halfEnclosed _ =>
    "cannot place block in the hierarchy: enclosing braces are only half present"
  | .unknownReturnType type function =>
    s!"unknown return type `{type}` for function `{function}`"
  | .unclassifiedHeader header =>
    s!"`{header}` is not a recognised block header; treating the block as a plain scope"
  | .danglingBranch keyword =>
    s!"`{keyword}` block does not follow an `if` or `elif` block"
  | .unrecognizedStatement text => s!"unrecognised statement `{text}`"
  | .unknownType type name => s!"unknown type `{type}` for `{name}`"
  | .duplicateDeclaration name _ => s!"`{name}` is already declared in this block"
  | .unresolvedName name => s!"`{name}` is not declared in this block or any enclosing block"
  | .immutableReassignment name _ =>
    s!"`{name}` was declared with `val` and cannot be reassigned"
  | .oversizedInteger literal name =>
    s!"`{literal}` does not fit in an Integer (assigned to `{name}`)"
  | .unreadableValue text name => s!"cannot read the value `{text}` assigned to `{name}`"
  | .mismatch name type value =>
    s!"`{name}` is {type.display} but was given {withArticle value.kind} `{value.display}`"
  | .noCompound op name type =>
    s!"`{op.text}` needs a numeric or array variable, but `{name}` is {type.display}"
  | .unreadableOperand text name => s!"cannot read the value `{text}` applied to `{name}`"
  | .nullOperand op name => s!"cannot apply `{op.text}` with null to `{name}`"
  | .nullVariable name op => s!"`{name}` is null; `{op.text}` needs a value"
  | .overflow name op operand =>
    s!"`{name} {op.text} {operand.toInt}` overflows an Integer"

/-- What a problem tells besides its message. -/
def notes : Problem → List String
  | .unclosedBrace count =>
    if count > 1 then [s!"{count} braces are left open in total"] else []
  | .unrecordedBraces start | .halfEnclosed start => [s!"block starts with `{start}`"]
  | .duplicateDeclaration _ line => [s!"the declaration on line {line} is kept"]
  | .immutableReassignment name line => [s!"`{name}` is declared on line {line}"]
  | _ => []

end Problem

/-- A problem and the part of the source that it is about. -/
structure Finding where
  /-- What is wrong. -/
  problem : Problem
  /-- Where it is wrong. -/
  span : Span

/-- How grave a diagnostic is. -/
inductive Severity where
  | error
  | warning
  deriving DecidableEq, Inhabited

/-- A problem at a place of a source. -/
structure Diagnostic where
  /-- What kind of problem it is. -/
  code : Code
  /-- What it tells. -/
  message : String
  /-- The part of the source it is about. -/
  span : Span
  /-- The index of the line that the span starts on. -/
  line : Nat
  /-- The source it is about. -/
  sourceId : Nat
  /-- How grave it is. -/
  severity : Severity
  /-- What it tells besides its message. -/
  notes : List String
  deriving DecidableEq, Inhabited

namespace Diagnostic

/-- Whether a diagnostic ends the parse. This hangs on its code, not on its severity. -/
def isFatal (d : Diagnostic) : Bool := d.code.isFatal

/-- A diagnostic in one line, with the line number as people count. -/
def display (d : Diagnostic) : String := s!"line {d.line + 1}: {d.message}"

/-- The diagnostic of a finding. A problem that ends the parse is an error, any other a warning. -/
def ofFinding (lines : List Line) (sourceId : Nat) (f : Finding) : Diagnostic where
  code := f.problem.code
  message := f.problem.message
  span := f.span
  line := Line.indexAt lines f.span.start
  sourceId := sourceId
  severity := if f.problem.code.isFatal then .error else .warning
  notes := f.problem.notes

/-- The order in which diagnostics are listed: by where they start, then by where they end. -/
def precedes (a b : Diagnostic) : Bool := a.span.precedes b.span

end Diagnostic
end BraceTree
