import BraceTree.Command.Parse
import BraceTree.Command.Settings
import BraceTree.Command.Test

/-!
# Running a command line

A command line is read first, then the settings, and only then is the action taken up. Each of these
steps can end the run.
-/

namespace BraceTree.Command

/-- The version of the program, as the program tells it. -/
def versionText : String := "shs 0.1.0"

/-- How the program is called. -/
def usageText : String :=
  "Usage: shs [--no-color] [-v]... [--config FILE] COMMAND\n\n" ++
  "Commands:\n" ++
  "  parse [--tree] [--scopes] [--ast] [--quiet] FILE\n" ++
  "  test [--category NAME]... [--list-categories] PATH\n\n" ++
  "The files of a folder to test are listed on the standard input, one on each line.\n"

/-- What a command line leaves behind that leads to no action. -/
def stopOutcome : Stop → Outcome
  | .usage => ⟨[.err usageText], 2⟩
  | .help => ⟨[.out usageText], 0⟩
  | .version => ⟨[outLine versionText], 0⟩

section Run

variable {m : Type → Type} [Monad m] (disk : Disk m)

/-- Runs the fixture in a file. -/
def runFixture (path : String) : m FixtureResult :=
  FixtureResult.ofContent path <$> disk.read path

/-- Runs the fixtures of a category. -/
def runCategory (c : Category) : m (Option String × List FixtureResult) := do
  return (some c.label, ← c.files.mapM (runFixture disk))

/-- Runs the action `test`. -/
def runTest (r : Request) (path : String) (requests : List String) : m Outcome := do
  if ← disk.isFile path then
    return testOutcome r.isColored r.verbosity [(none, [← runFixture disk path])]
  let all := categoriesBelow path (← disk.filesBelow path)
  if all.isEmpty then return ⟨[noFixtures path], 1⟩
  let selection := Category.select all requests
  let warnings := notFoundOutput all selection.notFound
  if selection.chosen.isEmpty then
    return ⟨warnings ++ [errLine "no matching categories found"], 1⟩
  let groups ← selection.chosen.mapM (runCategory disk)
  return (testOutcome r.isColored r.verbosity groups).after warnings

/-- Lists the categories of the fixtures at a path. -/
def runList (path : String) : m Outcome := do
  if ← disk.isFile path then return ⟨[errLine "(single file, no categories)"], 0⟩
  return listOutcome path (categoriesBelow path (← disk.filesBelow path))

/-- Takes an action up. -/
def runAction (r : Request) (config : Config) : m Outcome :=
  match r.action with
  | .parse file options => parseOutcome r config file options <$> disk.read file
  | .test path requests => runTest disk r path requests
  | .listCategories path => runList disk path

/-- Runs a request. -/
def runRequest (r : Request) : m Outcome := do
  match configOf r.config (← disk.read (r.config.getD Config.defaultFile)) with
  | .error failure => return ⟨[errLine s!"error: {failure.message}"], 2⟩
  | .ok (config, log) => return (← runAction disk r config).after (logOutput r.verbosity log)

/-- Runs a command line. -/
def run (arguments : List String) : m Outcome :=
  match Request.ofArguments arguments with
  | .error stop => pure (stopOutcome stop)
  | .ok r => runRequest disk r

end Run

end BraceTree.Command
