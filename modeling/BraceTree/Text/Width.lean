import BraceTree.Text.CharClass
import BraceTree.Text.GraphicRanges
import BraceTree.Text.WideRanges

/-!
# Widths

A terminal shows text in columns, and what stands under a line of text has to be placed by columns
and not by characters. Most characters take one column. Wide characters take two. A character takes
none if it only changes its neighbours or shows nothing: it extends the one before, it is attached
to the one behind, or a program that does not know its use leaves it out.

The properties of characters decide nearly all of this. `oddWidth?` lists the characters that are
shown otherwise than their properties say, so it is asked before them.
-/

namespace BraceTree.Text

/-- Characters that show nothing unless a program knows what to do with them, among them the vowels
and final consonants of Korean syllables, which are shown as a part of the first consonant. -/
def ignorableRanges : List (Nat × Nat) := [
  (0xAD, 0xAD), (0x34F, 0x34F), (0x61C, 0x61C), (0x1160, 0x11FF), (0x17B4, 0x17B5),
  (0x180B, 0x180F), (0x200B, 0x200F), (0x202A, 0x202E), (0x2060, 0x206F), (0x3164, 0x3164),
  (0xD7B0, 0xD7C6), (0xD7CB, 0xD7FB), (0xFE00, 0xFE0F), (0xFEFF, 0xFEFF), (0xFFA0, 0xFFA0),
  (0xFFF0, 0xFFF8), (0x1BCA0, 0x1BCA3), (0x1D173, 0x1D17A), (0xE0000, 0xE0FFF)]

/-- Characters that are attached to the ones behind them: consonants that are written over the next
letter, signs that enclose a number, and the caret of Devanagari. -/
def attachedRanges : List (Nat × Nat) := [
  (0x605, 0x605), (0x70F, 0x70F), (0x890, 0x891), (0x8E2, 0x8E2), (0xD4E, 0xD4E),
  (0xA8FA, 0xA8FA), (0x111C2, 0x111C3), (0x113D1, 0x113D1), (0x1193F, 0x1193F),
  (0x11941, 0x11941), (0x11A84, 0x11A89), (0x11D46, 0x11D46), (0x11F02, 0x11F02)]

/-- The characters that Unicode 18 adds to those of `extendingRanges`. -/
def newExtendingRanges : List (Nat × Nat) := [
  (0x5C8, 0x5C9), (0xB53, 0xB54), (0x10ECB, 0x10ECB), (0x1D250, 0x1D250)]

/-- The columns of the characters that are shown otherwise than their properties say: the joiner of
Tifinagh and the sound marks of narrow kana stand on their own, and two Khmer letters are written as
two and as three. -/
def oddWidth? (c : Char) : Option Nat :=
  if c = '\u2D7F' ∨ c = '\uFF9E' ∨ c = '\uFF9F' then some 1
  else if c = '\u17A4' then some 2
  else if c = '\u17D8' then some 3
  else none

/-- Whether a character changes its neighbours or shows nothing. -/
def isColumnless (c : Char) : Bool :=
  inRanges ignorableRanges c || inRanges extendingRanges c || inRanges newExtendingRanges c ||
    inRanges attachedRanges c

/-- The columns that a character takes. Control characters take none. -/
def width (c : Char) : Nat :=
  if c.toNat < 0x20 ∨ (0x7F ≤ c.toNat ∧ c.toNat < 0xA0) then 0
  else if c.toNat < 0x7F then 1
  else
    match oddWidth? c with
    | some w => w
    | none => if isColumnless c then 0 else if inRanges wideRanges c then 2 else 1

end BraceTree.Text
