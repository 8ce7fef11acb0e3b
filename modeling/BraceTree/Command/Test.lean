import BraceTree.Command.Disk
import BraceTree.Command.Outcome
import BraceTree.Fixture.Basic
import BraceTree.Fixture.Category

/-!
# The action `test`

A path to a file is one fixture, whatever the file is called. In a folder and in the folders below
it, the fixtures are the files whose names end as fixtures' do, and they are run category by
category. The report has a line for every fixture, then the reasons of those that failed, and at
last the counts.
-/

namespace BraceTree.Command

/-- How the names of fixtures end. -/
def fixtureEnding : String := ".test.shs"

/-- The part of the program that runs fixtures, as the log names it. -/
def testTarget : String := "shs::test_runner"

/-! ## Fixtures in a folder -/

/-- Whether a file is a fixture. -/
def isFixtureName (name : String) : Bool := fixtureEnding.toList.isSuffixOf name.toList

/-- The category of a file that has the given path below the folder that is tested. Backslashes in
the names of folders count as slashes. -/
def categoryName (below : List String) : String :=
  String.ofList ((Path.ofParts below.dropLast).toList.map fun c => if c = '\\' then '/' else c)

/-- The categories of the files below a folder. -/
def categoriesBelow (folder : String) (files : List (List String)) : List Category :=
  Category.group <| (files.filter fun f => isFixtureName (f.getLast?.getD "")).map fun f =>
    (categoryName f, Path.append folder f)

/-- What is told where there are no fixtures. -/
def noFixtures (path : String) : Output := errLine s!"no {fixtureEnding} files found in {path}"

/-- The report of the categories of a folder. -/
def listOutcome (path : String) (all : List Category) : Outcome :=
  if all.isEmpty then ⟨[noFixtures path], 0⟩
  else ⟨errLine "available categories:" :: all.map fun c =>
    errLine s!"  {c.label} ({c.files.length} tests)", 0⟩

/-- What is told of the requests that chose no category. -/
def notFoundOutput (all : List Category) (requests : List String) : List Output :=
  let available := ", ".intercalate (all.map (·.label))
  requests.map fun r => errLine s!"warning: category '{r}' not found (available: {available})"

/-! ## Running fixtures -/

/-- A text without the ending of fixtures, as often as it stands there. -/
def trimEnding (t : Text) : Text := (dropEndings t.length t.reverse).reverse
where
  /-- A reversed text without the reversed ending, at most so often. -/
  dropEndings : Nat → Text → Text
    | 0, t => t
    | bound + 1, t =>
      match Text.dropPrefix? fixtureEnding.toList.reverse t with
      | some rest => dropEndings bound rest
      | none => t

/-- How a fixture came out. -/
structure FixtureResult where
  /-- The file of the fixture. -/
  path : String
  /-- What the fixture says it is about. -/
  description : Option String
  /-- The log of its parse. -/
  parseLog : List LogEntry
  /-- Why it failed, if it did. -/
  failure : Option String

namespace FixtureResult

/-- How a fixture is called in a report. -/
def label (r : FixtureResult) : String :=
  String.ofList (trimEnding (r.description.getD (Path.fileName r.path)).toList)

/-- The result of a file with the given text. -/
def ofContent (path : String) (content : Except ReadFailure String) : FixtureResult :=
  match content with
  | .error failure => ⟨path, none, [], some s!"cannot read file: {failure.message}"⟩
  | .ok text =>
    match Fixture.split text.toList with
    | .error e => ⟨path, none, [], some s!"frontmatter error: {e.message}"⟩
    | .ok f =>
      { path
        description := f.expectations.description
        parseLog := Program.log f.source
        failure := match f.check with
          | .ok _ => none
          | .error mismatch => some mismatch.message }

/-- Whether a fixture passed. -/
def passed (r : FixtureResult) : Bool := r.failure.isNone

/-- The log of running a fixture. -/
def log (r : FixtureResult) : List LogEntry :=
  r.parseLog ++
    [⟨.debug, testTarget, s!"{r.path}: " ++ (if r.passed then "pass" else "fail")⟩]

end FixtureResult

/-! ## Reports -/

/-- The way in which a report emphasises a text. -/
inductive Emphasis where
  | good
  | bad
  | heading

/-- A text with emphasis, on terminals that know colors. -/
def paint (isColored : Bool) (emphasis : Emphasis) (text : String) : String :=
  let number := match emphasis with
    | .good => "32"
    | .bad => "31"
    | .heading => "1"
  if isColored then s!"\x1b[{number}m{text}\x1b[0m" else text

/-- The log and the line of a fixture. -/
def resultOutput (isColored : Bool) (verbosity : Nat) (r : FixtureResult) : List Output :=
  let word := if r.passed then paint isColored .good "PASS" else paint isColored .bad "FAIL"
  logOutput verbosity r.log ++ [errLine s!"  {word}  {r.label}"]

/-- The reason of a fixture that failed. -/
def failureOutput (r : FixtureResult) : List Output :=
  match r.failure with
  | none => []
  | some reason =>
    errLine "" :: errLine s!"  --- {r.path} ---" ::
      (Text.displayLines reason.toList).map fun l => errLine ("  " ++ String.ofList l)

/-- The end of a report: the reasons of the fixtures that failed, and the counts. -/
def summary (isColored : Bool) (results : List FixtureResult) : Outcome :=
  let failed := results.filter fun r => !r.passed
  let passed := results.length - failed.length
  if failed.isEmpty then
    let ok := paint isColored .good "ok"
    ⟨[errLine "", errLine s!"test result: {ok}. {passed} passed, 0 failed"], 0⟩
  else
    let word := paint isColored .bad "FAILED"
    ⟨[errLine "", errLine "failures:"] ++ failed.flatMap failureOutput ++ [errLine "",
      errLine (s!"test result: {word}. {passed} passed, {failed.length} failed" ++
        s!" (of {results.length})")], 1⟩

/-- The report of fixtures that were run in groups. A group may have a heading. -/
def testOutcome (isColored : Bool) (verbosity : Nat)
    (groups : List (Option String × List FixtureResult)) : Outcome :=
  Outcome.after
    (groups.flatMap fun g =>
      (match g.1 with
        | some heading => [errLine "", errLine (paint isColored .heading heading)]
        | none => []) ++
      g.2.flatMap (resultOutput isColored verbosity))
    (summary isColored (groups.flatMap (·.2)))

end BraceTree.Command
