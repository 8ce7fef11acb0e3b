import BraceTree.Program

/-!
# The log of a parse

Besides its result a parse can tell how it got there: how many lines and blocks it found, how many
rounds it took to place the blocks, and what it warns of. The log is computed from the same steps as
the result, so it needs no place in them.
-/

namespace BraceTree

/-- How much detail a log entry is. -/
inductive LogLevel where
  | warn
  | info
  | debug
  deriving DecidableEq

/-- A line of the log. -/
structure LogEntry where
  /-- How much detail it is. -/
  level : LogLevel
  /-- Which part of the program it comes from. -/
  target : String
  /-- What it tells. -/
  message : String
  deriving DecidableEq

namespace LogEntry

/-- A message on one line of its own; what follows a line break in it stands four blanks further
in. -/
def indentBreaks (message : String) : String :=
  "\n    ".intercalate ((Text.splitAt '\n' message.toList).map String.ofList)

/-- The text of a log entry, with its level in five columns. -/
def display (e : LogEntry) : String :=
  let level := match e.level with
    | .warn => "WARN "
    | .info => "INFO "
    | .debug => "DEBUG"
  s!"[{level} {e.target}] {indentBreaks e.message}"

/-- Whether a log entry is shown when `v` was given so many times. -/
def isShown (verbosity : Nat) (e : LogEntry) : Bool :=
  match e.level with
  | .warn | .info => 1 ≤ verbosity
  | .debug => 2 ≤ verbosity

end LogEntry

namespace Program

/-- The part of the program that reads sources. -/
def parserTarget : String := "shapescript::parser"

/-- The part of the program that places blocks. -/
def hierarchyTarget : String := "shapescript::parser::hierarchy"

/-- The log of placing blocks, from the given round on. -/
def roundLog : (number : Nat) → List Round → List LogEntry
  | number, [] => [⟨.debug, hierarchyTarget, s!"hierarchy settled after {number - 1} round(s)"⟩]
  | number, r :: rs =>
    ⟨.debug, hierarchyTarget,
      s!"hierarchy round {number}: {r.unplaced} unparented, {r.frontier} on the frontier"⟩ ::
      roundLog (number + 1) rs

/-- The log of a parse. -/
def log (source : Text) : List LogEntry :=
  let lines := Line.ofSource source
  ⟨.debug, parserTarget, s!"indexed {lines.length} lines"⟩ ::
    match Extraction.ofSource source with
    | .error _ => []
    | .ok e =>
      ⟨.debug, parserTarget, s!"extracted {e.spans.length} provisional blocks"⟩ ::
        match Forest.build source e with
        | .error _ => []
        | .ok forest =>
          roundLog 1 forest.rounds ++
            (ofTree source 0 (forest.finish lines)).diagnostics.map fun d =>
              ⟨.warn, parserTarget, s!"[{d.code.text}] {d.display}"⟩

end Program
end BraceTree
