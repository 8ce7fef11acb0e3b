import BraceTree.Program
import BraceTree.Config

/-!
# Fixtures

A fixture is a source with a statement in front of it of what its parse should give: nothing, an
error that ends it, certain warnings, an outline. The statement is a TOML document between two lines
of three dashes. `split` takes the two apart and `check` holds the parse against the statement.
-/

namespace BraceTree

/-- A warning that a fixture expects. -/
structure ExpectedWarning where
  /-- What the message must contain. -/
  contains : String
  /-- The code, if it matters. -/
  code : Option String
  /-- The line as people count, if it matters. -/
  line : Option Nat
  deriving DecidableEq, Inhabited

/-- What a fixture expects of the end of the parse. -/
inductive ExpectedError where
  /-- Whether there is an error, whichever. -/
  | any (expected : Bool)
  /-- An error with this code. -/
  | code (text : String)
  deriving DecidableEq

/-- What a fixture expects. -/
structure Expectations where
  /-- What the fixture is about. -/
  description : Option String
  /-- Whether the parse ends with an error. -/
  parseError : Option ExpectedError
  /-- The warnings, in order and without others. -/
  warnings : Option (List ExpectedWarning)
  /-- The outline, blanks around it aside. -/
  outline : Option String

/-- Why a fixture cannot be taken apart. -/
inductive FrontmatterError where
  | missingOpening
  | missingClosing
  /-- What stands between the dashes is no statement of expectations. -/
  | malformed
  deriving DecidableEq

namespace FrontmatterError

/-- What an error tells the user. -/
def message : FrontmatterError → String
  | .missingOpening => "missing opening --- frontmatter delimiter"
  | .missingClosing => "missing closing --- frontmatter delimiter"
  | .malformed => "TOML parse error"

end FrontmatterError

/-- Why a fixture fails. -/
inductive Mismatch where
  /-- The parse ended with another error. -/
  | otherError (expected : String) (d : Diagnostic)
  /-- The parse did not end with an error. -/
  | noError
  /-- The parse ended with an error. -/
  | unexpectedError (d : Diagnostic)
  /-- There are more or fewer warnings. -/
  | warningCount (expected : Nat) (actual : List Diagnostic)
  /-- A warning does not contain a text. -/
  | warningText (index : Nat) (expected : String) (d : Diagnostic)
  /-- The code expected of a warning is none. -/
  | unknownCode (index : Nat) (code : String)
  /-- A warning has another code. -/
  | warningCode (index : Nat) (expected : String) (d : Diagnostic)
  /-- A warning is on another line. -/
  | warningLine (index expected : Nat) (d : Diagnostic)
  /-- The outline is another one. -/
  | outline (expected actual : String)

namespace Mismatch

/-- The lines of a text, each four blanks further in. -/
def indent (t : String) : String :=
  "\n".intercalate ((Text.displayLines t.toList).map fun l => "    " ++ String.ofList l)

/-- The warnings of a parse, one a line. -/
def listed (actual : List Diagnostic) : String :=
  if actual.isEmpty then "    (none)"
  else "\n".intercalate (actual.map fun d => "  - [" ++ d.code.text ++ "] " ++ d.display)

/-- What a mismatch tells the user. -/
def message : Mismatch → String
  | .otherError expected d =>
    s!"expected parse error `{expected}`, got `{d.code.text}`: {d.display}"
  | .noError => "expected parse error, but parsing succeeded"
  | .unexpectedError d => s!"unexpected parse error: {d.display}"
  | .warningCount expected actual =>
    s!"expected {expected} warning(s), got {actual.length}\n  actual warnings:\n{listed actual}"
  | .warningText i expected d =>
    s!"warning[{i}]: expected message containing \"{expected}\", got: {d.message}"
  | .unknownCode i code => s!"warning[{i}]: `{code}` is not a diagnostic code"
  | .warningCode i expected d =>
    s!"warning[{i}]: expected code `{expected}`, got `{d.code.text}`"
  | .warningLine i expected d =>
    s!"warning[{i}]: expected on line {expected}, but reported on line {d.line + 1}"
  | .outline expected actual =>
    s!"outline mismatch\n  expected:\n{indent expected}\n  actual:\n{indent actual}"

end Mismatch

namespace Expectations

/-- A field that may be missing. -/
def field? {α : Type} (read : Toml.Node → Option α) : Option Toml.Node → Option (Option α) :=
  Config.optional? (fun n => (read n).map some) none

/-- An expected warning with the given fields, of which the first must be there. -/
def warningOfFields? (contains code line : Option Toml.Node) : Option ExpectedWarning :=
  match contains.bind (·.string?), field? (·.string?) code, field? (·.count?) line with
  | some t, some c, some l => some ⟨t, c, l⟩
  | _, _, _ => none

/-- An expected warning, as a table or as an array of its fields in order. -/
def warning? (n : Toml.Node) : Option ExpectedWarning :=
  match n.items? with
  | some items => warningOfFields? items[0]? items[1]? items[2]?
  | none =>
    n.entries?.bind fun es =>
      warningOfFields? (Toml.find? "contains" es) (Toml.find? "code" es) (Toml.find? "line" es)

/-- An expected error: a truth value or a code. -/
def parseError? (n : Toml.Node) : Option ExpectedError :=
  (n.boolean?.map .any) <|> (n.string?.map .code)

/-- Reads a statement of expectations. -/
def read? (t : Text) : Option Expectations := do
  let es ← Toml.read? t
  let description ← field? (·.string?) (Toml.find? "description" es)
  let parseError ← field? parseError? (Toml.find? "expect_parse_error" es)
  let warnings ← field? (fun n => n.items?.bind fun ns => ns.mapM warning?)
    (Toml.find? "expect_warnings" es)
  let outline ← field? (·.string?) (Toml.find? "expect_outline" es)
  return ⟨description, parseError, warnings, outline⟩

end Expectations

/-- A source and what is expected of it. -/
structure Fixture where
  /-- What the parse should give. -/
  expectations : Expectations
  /-- The source to parse. -/
  source : Text

namespace Fixture

/-! ## Taking a fixture apart -/

/-- The three dashes around a statement of expectations. -/
def dashes : Text := "---".toList

/-- A text without a line break at its start. -/
def dropLineBreak : Text → Text
  | '\n' :: cs => cs
  | '\r' :: '\n' :: cs => cs
  | t => t

/-- What stands before and behind the first line that starts with the dashes, the first line of the
text aside. -/
def splitClosing? : Text → Option (Text × Text)
  | [] => none
  | c :: cs =>
    match if c = '\n' then Text.dropPrefix? dashes cs else none with
    | some rest => some ([], rest)
    | none => (splitClosing? cs).map fun p => (c :: p.1, p.2)

/-- The statement of expectations and the source of a fixture, as texts. Byte order marks may stand
in front, and a line break behind either line of dashes belongs to it. -/
def splitText (content : Text) : Except FrontmatterError (Text × Text) :=
  match Text.dropPrefix? dashes (content.dropWhile (· == '\uFEFF')) with
  | none => .error .missingOpening
  | some rest =>
    let rest := dropLineBreak rest
    match Text.dropPrefix? dashes rest with
    | some after => .ok ([], dropLineBreak after)
    | none =>
      match splitClosing? rest with
      | none => .error .missingClosing
      | some (front, after) =>
        .ok ((front.reverse.dropWhile (· == '\r')).reverse, dropLineBreak after)

/-- Takes a fixture apart and has the first of its texts read. -/
def splitWith {α : Type} (read : Text → Option α) (content : Text) :
    Except FrontmatterError (α × Text) :=
  (splitText content).bind fun (front, source) =>
    match read front with
    | some e => .ok (e, source)
    | none => .error .malformed

/-- Takes a fixture apart and reads its expectations. -/
def split (content : Text) : Except FrontmatterError Fixture :=
  (splitWith Expectations.read? content).map fun (e, source) => ⟨e, source⟩

/-! ## Checking a fixture -/

/-- Checks a warning against what is expected of it. -/
def checkWarning (index : Nat) (d : Diagnostic) (want : ExpectedWarning) : Except Mismatch Unit :=
  if !Text.occursIn want.contains.toList d.message.toList then
    .error (.warningText index want.contains d)
  else
    match want.code with
    | some code =>
      if (Code.ofText? code).isNone then .error (.unknownCode index code)
      else if d.code.text != code then .error (.warningCode index code d)
      else checkLine want.line
    | none => checkLine want.line
where
  /-- Checks the line of a warning. -/
  checkLine : Option Nat → Except Mismatch Unit
    | some line => if d.line + 1 = line then .ok () else .error (.warningLine index line d)
    | none => .ok ()

/-- Checks warnings pair by pair, the first of them with the given index. -/
def checkPairs : (index : Nat) → List Diagnostic → List ExpectedWarning → Except Mismatch Unit
  | index, d :: ds, w :: ws => (checkWarning index d w).bind fun _ => checkPairs (index + 1) ds ws
  | _, _, _ => .ok ()

/-- Checks the warnings of a parse. -/
def checkWarnings (actual : List Diagnostic) (expected : List ExpectedWarning) :
    Except Mismatch Unit :=
  if actual.length = expected.length then checkPairs 0 actual expected
  else .error (.warningCount expected.length actual)

/-- Checks the outline of a parse. -/
def checkOutline (actual expected : String) : Except Mismatch Unit :=
  let actual := String.ofList (Text.trim actual.toList)
  let expected := String.ofList (Text.trim expected.toList)
  if actual = expected then .ok () else .error (.outline expected actual)

/-- Checks a program that a parse gave. -/
def checkProgram (e : Expectations) (source : Text) (p : Program) : Except Mismatch Unit :=
  (match e.warnings with
    | some expected => checkWarnings p.diagnostics expected
    | none => .ok ()).bind fun _ =>
  match e.outline with
  | some expected => checkOutline (p.tree.outline source) expected
  | none => .ok ()

/-- Parses the source of a fixture and checks what comes of it. -/
def check (f : Fixture) : Except Mismatch Unit :=
  match Program.ofText f.source 0, f.expectations.parseError with
  | .error _, some (.any true) => .ok ()
  | .error d, some (.code code) =>
    if d.code.text = code then .ok () else .error (.otherError code d)
  | .error d, _ => .error (.unexpectedError d)
  | .ok _, some (.any true) => .error .noError
  | .ok _, some (.code _) => .error .noError
  | .ok p, _ => checkProgram f.expectations f.source p

end Fixture
end BraceTree
