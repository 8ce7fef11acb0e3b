import BraceTree.Diagnostic
import BraceTree.Text.Width

/-!
# Diagnostics with their source

A diagnostic is shown with the line of the source that it is about and a row of markers under the
part it means. The markers have to stand under the right columns, so the width of each character
counts, and a tab goes to the next multiple of four.
-/

namespace BraceTree.Snippet

/-- Columns between two stops of the tab. -/
def tabStop : Nat := 4

/-- The columns that a character takes when it starts at a column: a tab goes to its next stop. -/
def width (column : Nat) (c : Char) : Nat :=
  if c = '\t' then tabStop - column % tabStop else Text.width c

/-- A line as it is shown, from a column on: tabs are blanks. -/
def shownFrom : (column : Nat) → Text → Text
  | _, [] => []
  | column, c :: cs =>
    let w := width column c
    (if c = '\t' then List.replicate w ' ' else [c]) ++ shownFrom (column + w) cs

/-- The markers under a line, from a position and a column on: blanks before the span, a caret for
every column in it, nothing behind it. The end of the line counts as one column. -/
def markersFrom (span : Span) : (offset column : Nat) → Text → Text
  | offset, _, [] =>
    if span.start ≤ offset ∧ offset < span.stop then ['^']
    else if offset < span.stop then [' ']
    else []
  | offset, column, c :: cs =>
    let w := width column c
    let next := offset + c.utf8Size
    (if offset < span.stop ∧ span.start < next then List.replicate w '^'
      else if offset < span.stop then List.replicate w ' '
      else []) ++ markersFrom span next (column + w) cs

/-- A line without the characters at its end that break lines or fill files up. -/
def trimLine (t : Text) : Text :=
  (t.reverse.dropWhile fun c => c == '\n' || c == '\r' || c == '\x00').reverse

/-- The rows of a note, the first behind an equals sign. -/
def noteRows (gutter note : String) : List String :=
  (Text.displayLines note.toList).mapIdx fun i l =>
    gutter ++ (if i = 0 then " = " else "   ") ++ String.ofList l

/-- The rows of a diagnostic: what it tells, where it is, the line with its markers, and notes. -/
def rows (file : String) (lines : List Line) (d : Diagnostic) : List String :=
  let line := lines.getD d.line default
  let text := trimLine line.text.toList
  let number := toString line.number
  let gutter := String.ofList (List.replicate number.length ' ')
  let column := (Text.takeBytes (d.span.start - line.span.start) line.text.toList).length + 1
  let severity := match d.severity with
    | .error => "error"
    | .warning => "warning"
  let markers := markersFrom d.span line.span.start 0 text
  [s!"{severity}[{d.code.text}]: {d.message}",
    s!"{gutter} ┌─ {file}:{number}:{column}",
    s!"{gutter} │",
    s!"{number} │ " ++ String.ofList (shownFrom 0 text),
    s!"{gutter} │ " ++ String.ofList markers] ++
    (if d.notes.isEmpty then [] else s!"{gutter} │" :: d.notes.flatMap (noteRows gutter))

/-- The text of a diagnostic, with an empty line behind it. -/
def render (file : String) (lines : List Line) (d : Diagnostic) : String :=
  String.join ((rows file lines d ++ [""]).map (· ++ "\n"))

end BraceTree.Snippet
