import BraceTree.Command.Disk
import BraceTree.Config
import BraceTree.Log

/-!
# Finding the settings

Settings come from the file that the command line names, which has to be there, or else from the
usual file in the current folder, which may be missing. A file that is there but cannot be read as
settings ends the run in either case.
-/

namespace BraceTree.Command

/-- The part of the program that reads settings, as the log names it. -/
def configTarget : String := "shs::config"

/-- Why there are no settings. -/
inductive ConfigFailure where
  /-- The file cannot be read. -/
  | unreadable (path : String) (failure : ReadFailure)
  /-- The file does not hold settings. -/
  | malformed (path : String)

/-- What a failure tells the user. -/
def ConfigFailure.message : ConfigFailure → String
  | .unreadable path failure => s!"cannot read '{path}': {failure.message}"
  | .malformed path => s!"invalid config '{path}'"

/-- The log of settings that were read: it warns of every code to leave out that is none. -/
def configLog (path : String) (c : Config) : List LogEntry :=
  ⟨.debug, configTarget, s!"loaded {path}"⟩ :: c.unknownCodes.map fun code =>
    ⟨.warn, configTarget, s!"{path}: unknown diagnostic code `{code}` in allow list"⟩

/-- The settings in a file, if it could be read, and the log of reading them. -/
def configOf (named : Option String) (content : Except ReadFailure String) :
    Except ConfigFailure (Config × List LogEntry) :=
  let path := named.getD Config.defaultFile
  match content with
  | .ok text =>
    match Config.read? text with
    | some c => .ok (c, configLog path c)
    | none => .error (.malformed path)
  | .error failure =>
    if failure = .notFound ∧ named.isNone then
      .ok ({}, [⟨.debug, configTarget, s!"no {path} found, using defaults"⟩])
    else .error (.unreadable path failure)

end BraceTree.Command
