import BraceTree.Text.Basic

/-!
# The lines of a source

A newline separates lines and belongs to neither of its neighbours' texts; the empty source is one
empty line. Looking a position up finds the last line that starts at or before it, so a position on
a newline belongs to the line that the newline ends, and one past the end to the last line.
-/

namespace BraceTree

/-- One line of a source. -/
structure Line where
  /-- The number of lines before this one. -/
  index : Nat
  /-- The bytes of the line, its newline excluded. -/
  span : Span
  /-- The text of the line, its newline excluded. -/
  text : String
  deriving DecidableEq, Inhabited

namespace Line

/-- The number of a line as people count, from one. -/
def number (l : Line) : Nat := l.index + 1

/-- Whether a line holds nothing but blanks. -/
def isBlank (l : Line) : Bool := Text.isBlankText l.text.toList

/-- The position of the first character of a line that is no blank. -/
def contentOffset? (l : Line) : Option Nat :=
  if l.isBlank then none
  else some (l.span.start + Text.bytes (l.text.toList.takeWhile Text.isBlank))

/-- The lines with the given texts, the first of them with the given index and position; each
further one starts a newline after the end of the one before. -/
def enumerate : (index start : Nat) → List Text → List Line
  | _, _, [] => []
  | index, start, t :: ts =>
    ⟨index, ⟨start, start + t.bytes⟩, String.ofList t⟩ ::
      enumerate (index + 1) (start + t.bytes + 1) ts

/-- The lines of a source. -/
def ofSource (source : Text) : List Line := enumerate 0 0 (source.splitAt '\n')

/-- The index of the line that a position belongs to. -/
def indexAt (lines : List Line) (offset : Nat) : Nat :=
  (lines.takeWhile fun l => l.span.start ≤ offset).length - 1

/-- The indices of the lines that a span touches. An empty span touches the line of its start. -/
def indicesIn (lines : List Line) (span : Span) : Span :=
  if lines.isEmpty then ⟨0, 0⟩
  else ⟨indexAt lines span.start, indexAt lines (max (span.stop - 1) span.start) + 1⟩

end Line
end BraceTree
