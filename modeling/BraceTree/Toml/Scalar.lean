import BraceTree.Text.Basic
import BraceTree.Toml.Node

/-!
# TOML scalars

Strings of the four sorts, numbers, truth values and dates. A reader takes a text and gives what it
read and the rest. Numbers and dates are made of word characters, signs, points and colons and end
where these do, so the whole run is taken first and then has to be one of them.
-/

namespace BraceTree.Toml

/-- Characters that may stand in a comment and, quotes and backslashes aside, in a string: the tab,
the visible ASCII characters and all beyond ASCII. -/
def isPlain (c : Char) : Bool :=
  c == '\t' || (0x20 ≤ c.toNat && c.toNat ≤ 0x7E) || 0x80 ≤ c.toNat

/-- A text after a line break at its start, which may have a carriage return. -/
def newline? : Text → Option Text
  | '\n' :: cs => some cs
  | '\r' :: '\n' :: cs => some cs
  | _ => none

/-- A text without the tabs and ASCII blanks at its start. -/
def skipBlanks (t : Text) : Text := t.dropWhile fun c => c == ' ' || c == '\t'

/-! ## Strings -/

/-- The value of a hexadecimal digit. -/
def hexDigit? (c : Char) : Option Nat :=
  if c.isDigit then some (c.toNat - '0'.toNat)
  else if 'a' ≤ c ∧ c ≤ 'f' then some (c.toNat - 'a'.toNat + 10)
  else if 'A' ≤ c ∧ c ≤ 'F' then some (c.toNat - 'A'.toNat + 10)
  else none

/-- The character that a number of hexadecimal digits at the start of a text name, and the rest. -/
def codePoint? (digits : Nat) (t : Text) : Option (Char × Text) :=
  match (t.take digits).mapM hexDigit? with
  | none => none
  | some ds =>
    let n := ds.foldl (fun n d => 16 * n + d) 0
    if ds.length = digits ∧ (n < 0xD800 ∨ (0xDFFF < n ∧ n < 0x110000)) then
      some (Char.ofNat n, t.drop digits)
    else none

/-- What a backslash and the start of a text stand for, and the rest. -/
def escape? : Text → Option (Char × Text)
  | [] => none
  | c :: cs =>
    match c with
    | 'b' => some ('\x08', cs)
    | 't' => some ('\t', cs)
    | 'n' => some ('\n', cs)
    | 'f' => some ('\x0c', cs)
    | 'r' => some ('\r', cs)
    | '"' => some ('"', cs)
    | '\\' => some ('\\', cs)
    | 'u' => codePoint? 4 cs
    | 'U' => codePoint? 8 cs
    | _ => none

/-- Puts a text in front of the first part of a result. -/
def prepend (front : Text) (r : Option (Text × Text)) : Option (Text × Text) :=
  r.map fun p => (front ++ p.1, p.2)

/-- The rest of a string in double quotes, of at most `bound` characters. -/
def basicRest? : (bound : Nat) → Text → Option (Text × Text)
  | 0, _ => none
  | _, [] => none
  | bound + 1, c :: cs =>
    if c = '"' then some ([], cs)
    else if c = '\\' then
      match escape? cs with
      | some (d, rest) => prepend [d] (basicRest? bound rest)
      | none => none
    else if isPlain c then prepend [c] (basicRest? bound cs)
    else none

/-- The rest of a string in single quotes, which has no escapes. -/
def literalRest? : Text → Option (Text × Text)
  | [] => none
  | c :: cs =>
    if c = '\'' then some ([], cs)
    else if isPlain c then prepend [c] (literalRest? cs)
    else none

/-- A text without the blanks and line breaks at its start, if a line break is among the first of
them: what a backslash at the end of a line skips. -/
def lineEnd? (t : Text) : Option Text :=
  (newline? (skipBlanks t)).map (skipLines t.length)
where
  /-- Passes over blank lines. -/
  skipLines : Nat → Text → Text
    | 0, t => t
    | bound + 1, t =>
      match newline? (skipBlanks t) with
      | some rest => skipLines bound rest
      | none => skipBlanks t

/-- The rest of a string in three quotes, of at most `bound` characters; `escapes` tells whether a
backslash has a meaning. One or two quotes may stand anywhere in it, at its end as well. -/
def multilineRest? (quote : Char) (escapes : Bool) : (bound : Nat) → Text → Option (Text × Text)
  | 0, _ => none
  | _, [] => none
  | bound + 1, c :: cs =>
    if c = quote then
      let run := min ((c :: cs).takeWhile (· == quote)).length 5
      let rest := (c :: cs).drop run
      if run < 3 then prepend (List.replicate run quote) (multilineRest? quote escapes bound rest)
      else some (List.replicate (run - 3) quote, rest)
    else if c = '\\' ∧ escapes then
      match lineEnd? cs with
      | some rest => multilineRest? quote escapes bound rest
      | none =>
        match escape? cs with
        | some (d, rest) => prepend [d] (multilineRest? quote escapes bound rest)
        | none => none
    else
      match newline? (c :: cs) with
      | some rest => prepend ['\n'] (multilineRest? quote escapes bound rest)
      | none =>
        if isPlain c then prepend [c] (multilineRest? quote escapes bound cs) else none

/-- Reads a string of any sort. A line break right after three quotes is left out. -/
def string? (t : Text) : Option (Text × Text) :=
  let multiline (quote : Char) (escapes : Bool) (cs : Text) :=
    multilineRest? quote escapes (cs.length + 1) ((newline? cs).getD cs)
  match t with
  | '"' :: '"' :: '"' :: cs => multiline '"' true cs
  | '"' :: cs => basicRest? (cs.length + 1) cs
  | '\'' :: '\'' :: '\'' :: cs => multiline '\'' false cs
  | '\'' :: cs => literalRest? cs
  | _ => none

/-! ## Numbers -/

/-- The digits of a number, in which single underscores may stand between digits. -/
def digits? (isDigit : Char → Bool) : Text → Option Text
  | [] => none
  | [c] => if isDigit c then some [c] else none
  | c :: d :: cs =>
    if !isDigit c then none
    else if d = '_' then (digits? isDigit cs).map (c :: ·)
    else (digits? isDigit (d :: cs)).map (c :: ·)

/-- The number that digits denote in a base. -/
def digitsValue (base : Nat) (t : Text) : Nat :=
  t.foldl (fun n c => base * n + (hexDigit? c).getD 0) 0

/-- Digits without a zero in front of others. -/
def decimal? (t : Text) : Option Text :=
  (digits? Char.isDigit t).filter fun ds => ds.length = 1 || ds.head? != some '0'

/-- Whether a number stands in front of its sign, and what follows the sign. -/
def splitSign : Text → Bool × Text
  | '-' :: cs => (true, cs)
  | '+' :: cs => (false, cs)
  | cs => (false, cs)

/-- An integer that 64 bits hold. -/
def inRange? (n : Int) : Option Node :=
  if Int64.minValue.toInt ≤ n ∧ n ≤ Int64.maxValue.toInt then some (.integer n) else none

/-- Reads an integer: decimal with a sign, or with another base and without a sign. -/
def integer? (t : Text) : Option Node :=
  let based (base : Nat) (isDigit : Char → Bool) (cs : Text) :=
    (digits? isDigit cs).bind fun ds => inRange? (digitsValue base ds)
  match t with
  | '0' :: 'x' :: cs => based 16 (fun c => (hexDigit? c).isSome) cs
  | '0' :: 'o' :: cs => based 8 (fun c => '0' ≤ c ∧ c ≤ '7') cs
  | '0' :: 'b' :: cs => based 2 (fun c => c == '0' || c == '1') cs
  | _ =>
    let (negative, cs) := splitSign t
    (decimal? cs).bind fun ds =>
      let n : Int := digitsValue 10 ds
      inRange? (if negative then -n else n)

/-- Whether digits with a power of ten are too large for a double. Beyond 400 places this is clear
without the number. -/
def isHuge (digits : Text) (exponent : Int) : Bool :=
  let n := digitsValue 10 digits
  let size := (digits.dropWhile (· == '0')).length + exponent
  if n = 0 || size < 300 then false
  else if size > 400 then true
  else
    let whole :=
      if exponent < 0 then n / Nat.pow 10 (-exponent).toNat else n * Nat.pow 10 exponent.toNat
    Nat.pow 2 1024 - Nat.pow 2 970 ≤ whole

/-- Reads a float: infinity, no number, or digits with a point, an exponent or both. A positive
number too large for a double is none. -/
def float? (t : Text) : Option Node :=
  let (negative, cs) := splitSign t
  if cs = "inf".toList ∨ cs = "nan".toList then some .float
  else
    let mantissa := cs.takeWhile fun c => c != 'e' && c != 'E'
    let power := cs.drop mantissa.length
    let whole := mantissa.takeWhile (· != '.')
    let fraction := mantissa.drop whole.length
    let fractionDigits? :=
      if fraction.isEmpty then some [] else digits? Char.isDigit fraction.tail
    let exponent? : Option Int :=
      if power.isEmpty then some 0
      else
        let (down, ds) := splitSign power.tail
        (digits? Char.isDigit ds).map fun ds =>
          if down then -(digitsValue 10 ds : Int) else digitsValue 10 ds
    match decimal? whole, fractionDigits?, exponent? with
    | some w, some f, some e =>
      if fraction.isEmpty && power.isEmpty then none
      else if !negative && isHuge (w ++ f) (e - f.length) then none
      else some .float
    | _, _, _ => none

/-! ## Dates -/

/-- A number of exactly so many digits at the start of a text, and the rest. -/
def fixedDigits? (count : Nat) (t : Text) : Option (Nat × Text) :=
  let ds := t.take count
  if ds.length = count && ds.all Char.isDigit then some (digitsValue 10 ds, t.drop count) else none

/-- The number of days of a month. -/
def daysOf (year month : Nat) : Nat :=
  if month = 2 then
    (if year % 4 = 0 ∧ (year % 100 ≠ 0 ∨ year % 400 = 0) then 29 else 28)
  else if month = 4 ∨ month = 6 ∨ month = 9 ∨ month = 11 then 30
  else 31

/-- What stands behind a date at the start of a text. -/
def afterDate? (t : Text) : Option Text := do
  let (year, t) ← fixedDigits? 4 t
  let t ← Text.dropPrefix? ['-'] t
  let (month, t) ← fixedDigits? 2 t
  let t ← Text.dropPrefix? ['-'] t
  let (day, t) ← fixedDigits? 2 t
  if 1 ≤ month ∧ month ≤ 12 ∧ 1 ≤ day ∧ day ≤ daysOf year month then some t else none

/-- What stands behind an hour and a minute at the start of a text. -/
def afterMinutes? (t : Text) : Option Text := do
  let (hour, t) ← fixedDigits? 2 t
  let t ← Text.dropPrefix? [':'] t
  let (minute, t) ← fixedDigits? 2 t
  if hour ≤ 23 ∧ minute ≤ 59 then some t else none

/-- What stands behind a time at the start of a text. -/
def afterTime? (t : Text) : Option Text := do
  let t ← afterMinutes? t
  let t ← Text.dropPrefix? [':'] t
  let (second, t) ← fixedDigits? 2 t
  if 60 < second then none
  else
    match t with
    | '.' :: cs =>
      let rest := cs.dropWhile Char.isDigit
      if rest.length < cs.length then some rest else none
    | _ => some t

/-- Whether a text is a distance from universal time. -/
def isOffset : Text → Bool
  | [] => true
  | ['Z'] => true
  | ['z'] => true
  | '+' :: cs => afterMinutes? cs == some []
  | '-' :: cs => afterMinutes? cs == some []
  | _ => false

/-- Whether a text is a time, with a distance from universal time if it belongs to a date. -/
def isTime (dated : Bool) (t : Text) : Bool :=
  match afterTime? t with
  | some rest => if dated then isOffset rest else rest.isEmpty
  | none => false

/-- Whether a text is a date, a time, or both with a letter between them. -/
def isDate (t : Text) : Bool :=
  match afterDate? t with
  | some [] => true
  | some (c :: cs) => (c == 'T' || c == 't') && isTime true cs
  | none => isTime false t

/-! ## Scalars -/

/-- Characters of which numbers, truth values and dates are made. -/
def isRunChar (c : Char) : Bool :=
  c.isAlphanum || c == '_' || c == '+' || c == '-' || c == '.' || c == ':'

/-- Reads a scalar. A date may have its time after a blank. -/
def scalar? (t : Text) : Option (Node × Text) :=
  match string? t with
  | some (s, rest) => some (.string (String.ofList s), rest)
  | none =>
    let run := t.takeWhile isRunChar
    let rest := t.dropWhile isRunChar
    if run = "true".toList then some (.boolean true, rest)
    else if run = "false".toList then some (.boolean false, rest)
    else if isDate run then
      match rest with
      | ' ' :: more =>
        if afterDate? run = some [] ∧ isTime true (more.takeWhile isRunChar) then
          some (.date, more.dropWhile isRunChar)
        else some (.date, rest)
      | _ => some (.date, rest)
    else (integer? run <|> float? run).map fun n => (n, rest)

end BraceTree.Toml
