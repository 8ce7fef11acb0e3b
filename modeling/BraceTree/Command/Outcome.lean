import BraceTree.Log

/-!
# Outcomes

What an action leaves behind: texts on the standard output and on the error output, in the order in
which they were written, and an exit code. Zero means that all is well, one that something was found
wrong, two that the action could not be taken up at all.
-/

namespace BraceTree.Command

/-- A text that was written. -/
inductive Output where
  /-- On the standard output. -/
  | out (text : String)
  /-- On the error output. -/
  | err (text : String)
  deriving DecidableEq

/-- What an action leaves behind. -/
structure Outcome where
  /-- What was written, in order. -/
  outputs : List Output
  /-- The exit code. -/
  exitCode : Nat

namespace Outcome

/-- All that was written on the standard output. -/
def stdout (o : Outcome) : String :=
  String.join (o.outputs.map fun p => match p with
    | .out text => text
    | .err _ => "")

/-- All that was written on the error output. -/
def stderr (o : Outcome) : String :=
  String.join (o.outputs.map fun p => match p with
    | .out _ => ""
    | .err text => text)

/-- An outcome with something written before it. -/
def after (before : List Output) (o : Outcome) : Outcome :=
  { o with outputs := before ++ o.outputs }

end Outcome

/-- A line on the standard output. -/
def outLine (text : String) : Output := .out (text ++ "\n")

/-- A line on the error output. -/
def errLine (text : String) : Output := .err (text ++ "\n")

/-- The entries of the log that are shown, as they are written. -/
def logOutput (verbosity : Nat) (entries : List LogEntry) : List Output :=
  (entries.filter fun e => e.isShown verbosity).map fun e => errLine e.display

/-- The part of the program that runs actions, as the log names it. -/
def programTarget : String := "shs"

end BraceTree.Command
