import BraceTree.Command.Arguments
import BraceTree.Command.Disk
import BraceTree.Command.Outcome
import BraceTree.Config
import BraceTree.Dump
import BraceTree.Snippet

/-!
# The action `parse`

The parse of a file is reported on the error output: its log, and every diagnostic with the part of
the source that it is about. What the command line asks to see of the program itself goes to the
standard output. Settings choose which warnings are reported and whether one that is makes the
action fail.
-/

namespace BraceTree.Command

/-- Blanks in front of a block that lies so deep. -/
def blockIndent (depth : Nat) : String := String.ofList (List.replicate (2 * depth) ' ')

/-- The variables of the blocks that have any, each with the line that declares it. -/
def scopeLines (p : Program) : List String :=
  let lines := p.lines.map (·.toLine)
  p.tree.preorder.flatMap fun id =>
    let b := p.tree.get id
    let indent := blockIndent (p.tree.depth id)
    if b.scope.isEmpty then []
    else
      s!"{indent}{b.kind.display} (lines {b.lines.start + 1}-{b.lines.stop})" ::
        b.scope.toList.map fun v =>
          let number := (lines.getD (Line.indexAt lines v.span.start) default).number
          s!"{indent}  {v.display}  (line {number})"

/-- What the command line asks to see of a program. -/
def programOutput (options : ParseOptions) (source : Text) (p : Program) : List Output :=
  (if options.ast then [outLine (Dump.program p).render] else []) ++
    ((if options.tree then [.out (p.tree.outline source)] else []) ++
      (if options.scopes then (scopeLines p).map outLine else []))

/-- The report of a program that a parse gave. -/
def programOutcome (r : Request) (config : Config) (file : String) (options : ParseOptions)
    (source : Text) (p : Program) : Outcome :=
  let reported := p.diagnostics.filter config.reports
  let fails := config.denyWarnings && !reported.isEmpty
  let log (level : LogLevel) (message : String) :=
    logOutput r.verbosity [⟨level, programTarget, message⟩]
  { outputs :=
      (if p.hasWarnings then [] else log .debug s!"{file}: no diagnostics") ++
      log .debug
        s!"{p.diagnostics.length} diagnostics, {reported.length} after allow list" ++
      (if options.quiet then []
        else reported.map fun d => .err (Snippet.render file (Line.ofSource source) d)) ++
      programOutput options source p ++
      log .info s!"{file}: {p.tree.size} blocks, {p.lines.length} lines" ++
      (if fails && !options.quiet then
        [errLine s!"error: {reported.length} warning(s) with deny_warnings set"] else [])
    exitCode := if fails then 1 else 0 }

/-- The report of the parse of a source. -/
def sourceOutcome (r : Request) (config : Config) (file : String) (options : ParseOptions)
    (source : Text) : Outcome :=
  Outcome.after (logOutput r.verbosity (Program.log source))
    (match Program.ofText source 0 with
      | .error d => ⟨[.err (Snippet.render file (Line.ofSource source) d)], 1⟩
      | .ok p => programOutcome r config file options source p)

/-- The report of the parse of a file. -/
def parseOutcome (r : Request) (config : Config) (file : String) (options : ParseOptions)
    (content : Except ReadFailure String) : Outcome :=
  match content with
  | .ok text => sourceOutcome r config file options text.toList
  | .error failure => ⟨[errLine s!"error: cannot read '{file}': {failure.message}"], 1⟩

end BraceTree.Command
