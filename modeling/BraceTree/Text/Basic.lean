import BraceTree.Text.CharClass

/-!
# Texts and the bytes they take

A text under reading is a list of characters, and every position in it is a number of bytes: the
bytes that the characters before it take in UTF-8. Nothing here stores bytes. A position is a
*measure* of the characters in front of it, so a scan carries its position along by adding the size
of each character it passes, and cutting at a position means counting the characters' sizes off.

The two laws that the rest of the library reads are `bytes_append` and the cutting laws
`dropBytes_append` and `takeBytes_append`: at the border of two texts, cutting by bytes gives the
two texts back.
-/

namespace BraceTree

/-- A text under reading. -/
abbrev Text := List Char

/-- A range of byte positions, the end exclusive. -/
structure Span where
  /-- The first position of the range. -/
  start : Nat
  /-- The position after the last one of the range. -/
  stop : Nat
  deriving DecidableEq, Inhabited

namespace Span

/-- The number of positions of a span. -/
def length (s : Span) : Nat := s.stop - s.start

/-- Whether a span holds no position. -/
def isEmpty (s : Span) : Bool := s.stop ≤ s.start

/-- Whether a position lies in a span. -/
def covers (s : Span) (offset : Nat) : Bool := s.start ≤ offset && offset < s.stop

/-- Whether `inner` lies in `outer` and is not all of it. -/
def encloses (outer inner : Span) : Bool :=
  outer.start ≤ inner.start && inner.stop ≤ outer.stop && outer != inner

/-- The order of spans by their start and then by their end. -/
def precedes (a b : Span) : Bool :=
  a.start < b.start || (a.start == b.start && a.stop ≤ b.stop)

end Span

namespace Text

/-! ## Counting and cutting bytes -/

/-- The number of bytes a text takes. -/
def bytes : Text → Nat
  | [] => 0
  | c :: cs => c.utf8Size + bytes cs

@[simp] theorem bytes_nil : bytes [] = 0 := rfl

@[simp] theorem bytes_cons (c : Char) (cs : Text) : bytes (c :: cs) = c.utf8Size + bytes cs := rfl

@[simp] theorem bytes_append (a b : Text) : bytes (a ++ b) = bytes a + bytes b := by
  induction a with
  | nil => simp
  | cons c cs ih => simp [ih, Nat.add_assoc]

/-- What is left of a text after its first `n` bytes. -/
def dropBytes : Nat → Text → Text
  | _, [] => []
  | n, c :: cs => if n = 0 then c :: cs else dropBytes (n - c.utf8Size) cs

/-- The first `n` bytes of a text. -/
def takeBytes : Nat → Text → Text
  | _, [] => []
  | n, c :: cs => if n = 0 then [] else c :: takeBytes (n - c.utf8Size) cs

@[simp] theorem dropBytes_zero (t : Text) : dropBytes 0 t = t := by cases t <;> simp [dropBytes]

@[simp] theorem takeBytes_zero (t : Text) : takeBytes 0 t = [] := by cases t <;> simp [takeBytes]

/-- **Cutting at a border drops the text before it.** -/
theorem dropBytes_append (a b : Text) : dropBytes (bytes a) (a ++ b) = b := by
  induction a with
  | nil => simp
  | cons c cs ih =>
    have := c.utf8Size_pos
    have hne : c.utf8Size + bytes cs ≠ 0 := by omega
    rw [bytes_cons, List.cons_append, dropBytes, if_neg hne, Nat.add_sub_cancel_left, ih]

/-- **Cutting at a border keeps the text before it.** -/
theorem takeBytes_append (a b : Text) : takeBytes (bytes a) (a ++ b) = a := by
  induction a with
  | nil => simp
  | cons c cs ih =>
    have := c.utf8Size_pos
    have hne : c.utf8Size + bytes cs ≠ 0 := by omega
    rw [bytes_cons, List.cons_append, takeBytes, if_neg hne, Nat.add_sub_cancel_left, ih]

/-- The part of a text that a span covers. -/
def slice (t : Text) (s : Span) : Text := takeBytes s.length (dropBytes s.start t)

/-- A span that starts after `a` and is as long as `b` cuts `b` out of `a ++ b ++ c`. -/
theorem slice_append (a b c : Text) :
    slice (a ++ (b ++ c)) ⟨bytes a, bytes a + bytes b⟩ = b := by
  simp [slice, Span.length, dropBytes_append, takeBytes_append]

/-! ## Trimming -/

/-- A text without the blanks it starts with. -/
def trimStart (t : Text) : Text := t.dropWhile isBlank

/-- A text without the blanks it ends with. -/
def trimEnd (t : Text) : Text := (t.reverse.dropWhile isBlank).reverse

/-- A text without the blanks at either end. -/
def trim (t : Text) : Text := trimEnd (trimStart t)

/-- Whether a text holds nothing but blanks. -/
def isBlankText (t : Text) : Bool := t.all isBlank

/-! ## Splitting at a character -/

/-- The pieces of a text between the occurrences of a character. There is always one piece more
than there are occurrences. -/
def splitAt (sep : Char) : Text → List Text
  | [] => [[]]
  | c :: cs => if c = sep then [] :: splitAt sep cs else (splitAt sep cs).modifyHead (c :: ·)

/-- The text after the last occurrence of a character, the whole text if there is none. -/
def afterLast (sep : Char) (t : Text) : Text := (t.reverse.takeWhile (· != sep)).reverse

/-- The part of a text before and after the first occurrence of a character. -/
def splitFirst? (sep : Char) : Text → Option (Text × Text)
  | [] => none
  | c :: cs => if c = sep then some ([], cs) else (splitFirst? sep cs).map fun p => (c :: p.1, p.2)

/-- A text without a given start, if it starts so. -/
def dropPrefix? : (start t : Text) → Option Text
  | [], t => some t
  | _ :: _, [] => none
  | s :: start, c :: t => if s = c then dropPrefix? start t else none

@[simp] theorem dropPrefix?_append (a b : Text) : dropPrefix? a (a ++ b) = some b := by
  induction a with
  | nil => rfl
  | cons c cs ih => simp [dropPrefix?, ih]

/-- What stands behind a word and at least one blank. -/
def afterWord? (word : String) (t : Text) : Option Text :=
  match dropPrefix? word.toList t with
  | some (c :: cs) => if isBlank c then some (trimStart cs) else none
  | _ => none

/-- A text without a given character at its end, if it ends so. -/
def dropLast? (last : Char) (t : Text) : Option Text :=
  if t.getLast? = some last then some t.dropLast else none

/-- Whether `needle` occurs in a text. -/
def occursIn (needle : Text) : Text → Bool
  | [] => needle.isEmpty
  | c :: cs => needle.isPrefixOf (c :: cs) || occursIn needle cs

/-- The lines of a text for display: a carriage return before a newline belongs to the line break,
and a last line break ends the last line instead of opening an empty one. -/
def displayLines (t : Text) : List Text :=
  let pieces := splitAt '\n' t
  let unfinished := pieces.getLast?.getD []
  pieces.dropLast.map (fun p => (dropLast? '\r' p).getD p) ++
    (if unfinished.isEmpty then [] else [unfinished])

end Text
end BraceTree
