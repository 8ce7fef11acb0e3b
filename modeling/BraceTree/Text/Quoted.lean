import BraceTree.Text.Basic

/-!
# String literals inside a text

A literal opens at a double or a single quote and closes at the same quote. A newline cuts it short,
and inside it a backslash takes the meaning away from the next character. Everything that looks for
structure in a text – braces, brackets, separators – has to know which characters belong to a
literal, and all of it asks the one reading given here: `glyphs` pairs each character with whether
it is quoted.

A newline always leaves the reader outside of a literal, whatever came before. That is why a scan
may start at any line of a source and still sees each character as a scan of the whole does.
-/

namespace BraceTree

/-- Where a reader stands with respect to string literals. -/
inductive Quoting where
  /-- In no literal. -/
  | outside
  /-- In a literal that the given quote closes. -/
  | inside (quote : Char)
  /-- In a literal, right after a backslash. -/
  | escaped (quote : Char)
  deriving DecidableEq

namespace Quoting

/-- The two characters that open a literal. -/
def isQuote (c : Char) : Bool := c == '"' || c == '\''

/-- Reads one character: where the reader stands after it, and whether the character belongs to a
literal, its quotes included. A newline belongs to none. -/
def step : Quoting → Char → Quoting × Bool
  | .outside, c => if isQuote c then (.inside c, true) else (.outside, false)
  | .inside q, c =>
    if c = '\n' then (.outside, false)
    else if c = '\\' then (.escaped q, true)
    else if c = q then (.outside, true)
    else (.inside q, true)
  | .escaped q, c => if c = '\n' then (.outside, false) else (.inside q, true)

/-- **A newline ends every literal**, and is structure itself. -/
@[simp] theorem step_newline (q : Quoting) : q.step '\n' = (.outside, false) := by
  cases q <;> rfl

end Quoting

/-- A character of a text together with whether it belongs to a string literal. -/
structure Glyph where
  /-- The character. -/
  char : Char
  /-- Whether it belongs to a string literal. -/
  quoted : Bool
  deriving DecidableEq

namespace Glyph

/-- Whether a glyph is the given character, as structure and not as part of a literal. -/
def is (g : Glyph) (c : Char) : Bool := !g.quoted && g.char == c

/-- The characters of some glyphs. -/
def chars (gs : List Glyph) : Text := gs.map (·.char)

end Glyph

namespace Text

/-- The glyphs of a text for a reader who stands at `q`. -/
def glyphsFrom (q : Quoting) : Text → List Glyph
  | [] => []
  | c :: cs => ⟨c, (q.step c).2⟩ :: glyphsFrom (q.step c).1 cs

/-- The glyphs of a text that starts outside of a literal. -/
def glyphs (t : Text) : List Glyph := glyphsFrom .outside t

/-- Reading glyphs loses no character. -/
@[simp] theorem chars_glyphsFrom (q : Quoting) (t : Text) : Glyph.chars (glyphsFrom q t) = t := by
  induction t generalizing q with
  | nil => rfl
  | cons c cs ih => simpa [Glyph.chars, glyphsFrom] using ih (q.step c).1

@[simp] theorem chars_glyphs (t : Text) : Glyph.chars t.glyphs = t := chars_glyphsFrom _ t

@[simp] theorem length_glyphsFrom (q : Quoting) (t : Text) :
    (glyphsFrom q t).length = t.length := by
  induction t generalizing q with
  | nil => rfl
  | cons c cs ih => simp [glyphsFrom, ih]

/-- **A new line is read afresh**: after a newline the glyphs are those of the rest by itself. -/
theorem glyphsFrom_append_newline (q : Quoting) (a b : Text) :
    glyphsFrom q (a ++ '\n' :: b) = glyphsFrom q a ++ ⟨'\n', false⟩ :: glyphs b := by
  induction a generalizing q with
  | nil => simp [glyphsFrom, glyphs]
  | cons c cs ih => simp [glyphsFrom, ih]

/-- A text with one blank for each byte of its literals, so that only structure is left to see and
every position stays where it was. -/
def mask (t : Text) : Text :=
  t.glyphs.flatMap fun g => if g.quoted then List.replicate g.char.utf8Size ' ' else [g.char]

end Text
end BraceTree
