import BraceTree.Text.WordRanges
import BraceTree.Text.DigitRanges

/-!
# Character classes

The grammars of the language speak of four classes of characters. *Blanks* separate words and are
trimmed away; *word characters* make up names; a name starts with a *name head*, which is an ASCII
letter or the underscore; *digits* are the decimal digits of every script, although only the ASCII
ones can be read as a number.

The ASCII part of each class is decided by a rule and the rest by a table, so that a question about
an ASCII character never looks at a table.
-/

namespace BraceTree.Text

/-- Whether a code point lies in one of the closed ranges. -/
def inRanges (ranges : List (Nat × Nat)) (c : Char) : Bool :=
  ranges.any fun r => r.1 ≤ c.toNat && c.toNat ≤ r.2

/-- Blanks are the characters with the property *white space*: the ASCII ones from tab to carriage
return and the blank, the next-line and no-break blanks, and the typographic ones. -/
def isBlank (c : Char) : Bool :=
  let n := c.toNat
  (0x09 ≤ n && n ≤ 0x0D) || n == 0x20 || n == 0x85 || n == 0xA0 || n == 0x1680 ||
    (0x2000 ≤ n && n ≤ 0x200A) || n == 0x2028 || n == 0x2029 || n == 0x202F || n == 0x205F ||
    n == 0x3000

/-- ASCII capital and small letters. -/
def isLetter (c : Char) : Bool := c.isLower || c.isUpper

/-- A name starts with an ASCII letter or the underscore. -/
def isNameHead (c : Char) : Bool := isLetter c || c == '_'

/-- Word characters go on a name: letters and marks, decimal digits, connectors such as the
underscore, and the two join controls. -/
def isWord (c : Char) : Bool :=
  if c.toNat < 0x80 then c.isAlphanum || c == '_' else inRanges wordRanges c

/-- The decimal digits of every script. -/
def isDigit (c : Char) : Bool :=
  if c.toNat < 0x80 then c.isDigit else inRanges digitRanges c

end BraceTree.Text
