import BraceTree.Value.Basic
import BraceTree.Text.Split

/-!
# Literals

How values are written: strings in either quote, numbers, truth values, and collections in square
brackets, which are arrays or, when every element is a key and a value around a colon, maps. `[]` is
read as the empty array; a map type makes a map of it.

A collection is cut at its separators first and its elements are read afterwards, each by itself.
They are shorter than the collection, and this bounds the reading.
-/

namespace BraceTree

/-! ## Strings -/

namespace Literal

/-- What a backslash and a character stand for: a newline or a tab, or else the character. -/
def unescapeChar (c : Char) : Char :=
  if c = 'n' then '\n' else if c = 't' then '\t' else c

/-- Reads the rest of a string literal after its opening quote, which must end with the text. A
backslash may stand before anything but a newline. -/
def stringRest? (quote : Char) : Text → Option Text
  | [] => none
  | [c] => if c = quote then some [] else none
  | c :: d :: cs =>
    if c = '\\' then
      if d = '\n' then none else (stringRest? quote cs).map (unescapeChar d :: ·)
    else if c = quote then none
    else (stringRest? quote (d :: cs)).map (c :: ·)

/-- Reads a text that is one string literal. -/
def string? : Text → Option Text
  | [] => none
  | c :: cs => if Quoting.isQuote c then stringRest? c cs else none

/-! ## Numbers -/

/-- The parts of a number: digits, and behind a point more digits. -/
structure Numeral where
  /-- Whether a minus sign stands in front. -/
  negative : Bool
  /-- The digits before the point. -/
  whole : Text
  /-- The digits behind the point, if there is one. -/
  fraction : Option Text
  deriving DecidableEq

/-- Reads a text that consists of a number's parts. The digits may be those of any script. -/
def numeral? (t : Text) : Option Numeral :=
  let negative := t.head? = some '-'
  let body := if negative then t.tail else t
  let whole := body.takeWhile Text.isDigit
  if whole.isEmpty then none
  else
    match body.dropWhile Text.isDigit with
    | [] => some ⟨negative, whole, none⟩
    | c :: fraction =>
      if c = '.' ∧ !fraction.isEmpty ∧ fraction.all Text.isDigit then
        some ⟨negative, whole, some fraction⟩
      else none

/-- The number that ASCII digits denote; the digits of other scripts denote none. -/
def digitsValue? (t : Text) : Option Nat :=
  if t.all Char.isDigit then some (t.foldl (fun n c => 10 * n + (c.toNat - '0'.toNat)) 0) else none

/-- Whether a whole number fits an integer variable, which has 64 bits. -/
def fitsInteger (n : Int) : Bool := Int64.minValue.toInt ≤ n && n ≤ Int64.maxValue.toInt

/-- The integer that a number without a point denotes, if it fits. -/
def integerValue? (negative : Bool) (digits : Text) : Option Int64 :=
  match digitsValue? digits with
  | none => none
  | some n =>
    let value : Int := if negative then -n else n
    if fitsInteger value then some (Int64.ofInt value) else none

/-- The double nearest to a number with a point. -/
def doubleValue? (negative : Bool) (whole fraction : Text) : Option Float :=
  match digitsValue? (whole ++ fraction) with
  | none => none
  | some n =>
    let size := Float.ofScientific n true fraction.length
    some (if negative then -size else size)

/-! ## Values -/

/-- Reads a string or a number. -/
def scalar? (t : Text) : Option Value :=
  match string? t with
  | some s => some (.string (String.ofList s))
  | none =>
    match numeral? t with
    | none => none
    | some ⟨negative, whole, none⟩ => (integerValue? negative whole).map .integer
    | some ⟨negative, whole, some fraction⟩ => (doubleValue? negative whole fraction).map .double

/-- Reads a truth value, which may start with a capital. -/
def boolean? (t : Text) : Option Value :=
  if t = "true".toList ∨ t = "True".toList then some (.boolean true)
  else if t = "false".toList ∨ t = "False".toList then some (.boolean false)
  else none

/-- An element of a collection as a key and a value, if exactly one colon parts it. -/
def keyed? (element : Text) : Option (Text × Text) :=
  match Text.splitTopLevel ':' element with
  | [key, value] => some (key, value)
  | _ => none

/-- Reads the key and the value of an entry. -/
def readKeyed (read : Text → Option Value) (e : Text × Text) : Option (Value × Value) :=
  match read e.1, read e.2 with
  | some k, some v => some (k, v)
  | _, _ => none

/-- Reads a collection with `read` for its elements: a map if all of them are entries, an array if
none of them is. -/
def collection? (read : Text → Option Value) (t : Text) : Option Value :=
  match Text.enclosed? '[' ']' t with
  | none => none
  | some inner =>
    if Text.isBlankText inner then some (.array [])
    else
      let elements := Text.splitTopLevel ',' inner
      if elements.all fun e => (keyed? e).isSome then
        ((elements.filterMap keyed?).mapM (readKeyed read)).map .map
      else if elements.all fun e => (keyed? e).isNone then (elements.mapM read).map .array
      else none

/-- Reads a value whose collections nest less than `depth` deep. -/
def readWithin : (depth : Nat) → Text → Option Value
  | 0, _ => none
  | depth + 1, text =>
    let t := Text.trim text
    scalar? t <|> boolean? t <|> collection? (readWithin depth) t

/-- Reads a literal. An element is shorter than its collection, so collections nest no deeper than
the text is long. -/
def read? (t : Text) : Option Value := readWithin (t.length + 1) t

/-- Whether a text is written as an integer but is none: its number is too large, or its digits are
not the ASCII ones. -/
def isOversized (t : Text) : Bool :=
  match numeral? (Text.trim t) with
  | some ⟨negative, whole, none⟩ => (integerValue? negative whole).isNone
  | _ => false

end Literal
end BraceTree
