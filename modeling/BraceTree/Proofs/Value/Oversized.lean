import BraceTree.Proofs.Text.Rejoined
import BraceTree.Proofs.Value.Grammar
import BraceTree.Statement.Effect

/-!
# Integers that are none

A text is written as an integer if it is a sign and decimal digits, and those may be the digits of
any script. It is read by a conversion that knows the ASCII digits only. So there are two reasons
why such a text is no integer: its number has more than 64 bits, or one of its digits is not an
ASCII one, and `isOversized` does not tell them apart. Where every digit is an ASCII one, and where
the number has more than 64 bits, it is right about the size of the number; everywhere else it is
wrong (`Literal.isOversized_iff`). A value that it does not hold of is read as the number that its
digits denote.
-/

namespace BraceTree

/-! ## The number that digits denote -/

/-- **The value of a decimal digit of any script**: every run of digits counts from zero. -/
def Text.digitValue (c : Char) : Nat :=
  match digitRanges.find? fun r => r.1 ≤ c.toNat && c.toNat ≤ r.2 with
  | some r => (c.toNat - r.1) % 10
  | none => 0

namespace Literal

/-- **The integer that a sign and digits denote.** -/
def denoted (negative : Bool) (digits : Text) : Int :=
  let size : Nat := digits.foldl (fun n c => 10 * n + Text.digitValue c) 0
  if negative then -size else size

example : denoted true "٣4५".toList = -345 := by decide +kernel

/-- **The integers of 64 bits.** -/
def InRange (n : Int) : Prop := -9223372036854775808 ≤ n ∧ n ≤ 9223372036854775807

instance (n : Int) : Decidable (InRange n) := inferInstanceAs (Decidable (_ ∧ _))

variable {t digits : Text} {negative : Bool}

theorem inRange_iff {n : Int} : InRange n ↔ ∃ m : Int64, m.toInt = n := by
  constructor
  · rintro ⟨hlo, hhi⟩
    exact ⟨Int64.ofInt n, Int64.toInt_ofInt_of_le hlo (Int.lt_add_one_of_le hhi)⟩
  · rintro ⟨m, rfl⟩
    exact ⟨m.minValue_le_toInt, m.toInt_le⟩

/-- An ASCII digit has the value that the conversion gives it. -/
theorem digitValue_of_ascii {c : Char} (h : c.isDigit = true) :
    Text.digitValue c = c.toNat - '0'.toNat := by
  have hbounds := toNat_of_isDigit h
  have hfind : Text.digitRanges.find? (fun r => r.1 ≤ c.toNat && c.toNat ≤ r.2) =
      some (0x30, 0x39) := by
    rw [Text.digitRanges, List.find?_cons_of_pos]
    simpa using hbounds
  rw [Text.digitValue, hfind]
  show (c.toNat - 48) % 10 = c.toNat - 48
  omega

theorem denoted_of_ascii (hdigits : ∀ c ∈ digits, c.isDigit = true) : denoted negative digits =
    if negative then -(Nat.ofDigitChars 10 digits 0 : Int) else Nat.ofDigitChars 10 digits 0 := by
  have hsize : digits.foldl (fun n c => 10 * n + Text.digitValue c) 0 =
      Nat.ofDigitChars 10 digits 0 :=
    List.foldl_ext _ _ 0 fun n c hc => by rw [digitValue_of_ascii (hdigits c hc)]
  rw [denoted, hsize]

/-! ## Reading what is written as an integer -/

/-- **The texts that are written as integers** are a sign and digits of any script. -/
theorem numeral?_eq_integer_iff : numeral? t = some ⟨negative, digits, none⟩ ↔
    t = sign negative ++ digits ∧ digits ≠ [] ∧ ∀ c ∈ digits, Text.isDigit c = true := by
  rw [numeral?_eq_some_iff]
  have htext : Numeral.text ⟨negative, digits, none⟩ = sign negative ++ digits :=
    congrArg _ (List.append_nil digits)
  rw [htext]
  exact and_congr_right' ⟨fun h => ⟨h.whole_ne_nil, h.whole_digits⟩,
    fun h => ⟨h.1, h.2, nofun, nofun⟩⟩

/-- **An integer is read if its digits are ASCII ones and it has 64 bits.** -/
theorem integerValue?_eq_some_iff_denoted {n : Int64} : integerValue? negative digits = some n ↔
    (∀ c ∈ digits, c.isDigit = true) ∧ n.toInt = denoted negative digits := by
  rw [integerValue?_eq_some_iff]
  exact and_congr_right fun hdigits => by rw [denoted_of_ascii hdigits]

theorem isNone_integerValue?_iff : (integerValue? negative digits).isNone = true ↔
    (∃ c ∈ digits, c.isDigit = false) ∨ ¬InRange (denoted negative digits) := by
  rw [Option.isNone_iff_eq_none, Option.eq_none_iff_forall_ne_some, inRange_iff, not_exists]
  simp only [ne_eq, integerValue?_eq_some_iff_denoted, not_and]
  constructor
  · intro h
    by_cases hdigits : ∀ c ∈ digits, c.isDigit = true
    · exact .inr fun m => h m hdigits
    · exact .inl (by simpa using hdigits)
  · rintro (⟨c, hc, hascii⟩ | hrange) m hdigits
    · exact absurd (hdigits c hc) (ne_true_of_eq_false hascii)
    · exact hrange m

/-- A number starts with its sign or a digit. -/
theorem head_of_numeral? {n : Numeral} (h : numeral? t = some n) :
    ∃ c cs, t = c :: cs ∧ (c = '-' ∨ Text.isDigit c = true) := by
  obtain ⟨rfl, hformed⟩ := numeral?_eq_some h
  obtain ⟨c, cs, hwhole⟩ := List.exists_cons_of_ne_nil hformed.whole_ne_nil
  rw [Numeral.text]
  cases n.negative with
  | true => exact ⟨'-', _, rfl, .inl rfl⟩
  | false =>
    rw [hwhole]
    exact ⟨c, _, rfl, .inr (hformed.whole_digits c (hwhole ▸ List.mem_cons_self))⟩

/-- **What is written as a number is nothing else**: no string, no call, no word and no
collection. -/
theorem only_of_numeral? {n : Numeral} (h : numeral? t = some n) (htrim : Text.trim t = t) :
    string? t = none ∧ Call.ofText? t = none ∧ t ≠ "null".toList ∧ boolean? t = none ∧
      ∀ read, collection? read t = none := by
  obtain ⟨c, cs, rfl, hc⟩ := head_of_numeral? h
  have hne : ∀ d, d ≠ '-' → Text.isDigit d = false → c ≠ d := by
    rintro d hminus hdigit rfl
    exact hc.elim hminus (ne_true_of_eq_false hdigit)
  have hnamed : Text.isNameHead c = false := by
    rcases hc with rfl | hc
    · decide
    · exact Bool.eq_false_iff.mpr fun hname =>
        Bool.false_ne_true ((isDigit_of_isNameHead hname).symm.trans hc)
  refine ⟨?_, ?_, ?_, ?_, fun read => ?_⟩
  · rw [string?, if_neg]
    simp [Quoting.isQuote, hne '"' (by decide) (by decide), hne '\'' (by decide) (by decide)]
  · rw [Call.ofText?, htrim, Call.splitName?, if_neg (by simp [hnamed])]
  · exact fun heq => hne 'n' (by decide) (by decide) (List.cons.inj heq).1
  · simp [boolean?, hne 't' (by decide) (by decide), hne 'T' (by decide) (by decide),
      hne 'f' (by decide) (by decide), hne 'F' (by decide) (by decide)]
  · simp [collection?, Text.enclosed?, hne '[' (by decide) (by decide)]

/-- **A text that is written as an integer is read as the integer it has**, as a literal and on a
right-hand side, and is oversized if it has none. -/
theorem read_of_numeral? (h : numeral? (Text.trim t) = some ⟨negative, digits, none⟩) :
    isOversized t = (integerValue? negative digits).isNone ∧
    read? t = (integerValue? negative digits).map .integer ∧
    Expression.ofText? t = (integerValue? negative digits).map fun n => .literal (.integer n) := by
  obtain ⟨hstring, hcall, hnull, hboolean, hcollection⟩ := only_of_numeral? h (Text.trim_trim t)
  have hscalar : scalar? (Text.trim t) = (integerValue? negative digits).map .integer := by
    rw [scalar?, hstring]
    dsimp only
    rw [h]
  refine ⟨by rw [isOversized, h], ?_, ?_⟩
  · rw [read?, readWithin, hscalar, hboolean, hcollection]
    cases integerValue? negative digits <;> rfl
  · rw [Expression.ofText?, hscalar]
    cases integerValue? negative digits with
    | some n => rfl
    | none =>
      rw [Option.map_none]
      dsimp only
      rw [hcall]
      dsimp only
      rw [if_neg hnull, hboolean]
      dsimp only
      rw [hcollection]
      rfl

/-- What is oversized is no right-hand side. -/
theorem ofText?_of_isOversized (h : isOversized t = true) : Expression.ofText? t = none := by
  rw [isOversized] at h
  split at h
  · next negative digits hnumeral =>
    obtain ⟨-, -, hread⟩ := read_of_numeral? hnumeral
    rw [hread, Option.isNone_iff_eq_none.mp h]
    rfl
  · cases h

/-- **What is oversized is reported as such**, as an initial value. -/
theorem ofInitial_oversized_iff {type : TypeName} {name : String} :
    (∃ literal x, Binding.ofInitial type name t = .error (.oversizedInteger literal x)) ↔
      isOversized t = true := by
  constructor
  · rintro ⟨literal, x, h⟩
    unfold Binding.ofInitial at h
    split at h
    · dsimp only at h
      split at h
      · next hoversized => exact hoversized
      · cases h
    · cases h
    · cases h
    · split at h <;> cases h
  · intro h
    rw [Binding.ofInitial, ofText?_of_isOversized h]
    exact ⟨_, _, if_pos h⟩

/-- **What is oversized is reported as such**, as an operand. -/
theorem readOperand_oversized_iff {name : String} {op : Operator} :
    (∃ literal x, Binding.readOperand name op t = .error (.oversizedInteger literal x)) ↔
      isOversized t = true := by
  constructor
  · rintro ⟨literal, x, h⟩
    unfold Binding.readOperand at h
    split at h
    · dsimp only at h
      split at h
      · next hoversized => exact hoversized
      · cases h
    · cases h
    · cases h
    · cases h
  · intro h
    rw [Binding.readOperand, ofText?_of_isOversized h]
    exact ⟨_, _, if_pos h⟩

/-! ## What is oversized -/

/-- **What is oversized is too large or not in ASCII digits.** Of a text that is written as an
integer, with a sign and digits of any script, `isOversized` holds exactly if a digit is not an
ASCII one or the number has more than 64 bits. So it says whether the number has more than 64 bits
exactly where all digits are ASCII ones or the number does have more. Where it does not hold, the
text is read, as the number that its digits denote; where it does, nothing is read, and an initial
value or an operand is reported as too large. -/
theorem isOversized_iff (ht : Text.trim t = sign negative ++ digits) (hne : digits ≠ [])
    (hdigits : ∀ c ∈ digits, Text.isDigit c = true) :
    (isOversized t = true ↔
      (∃ c ∈ digits, c.isDigit = false) ∨ ¬InRange (denoted negative digits)) ∧
    ((isOversized t = true ↔ ¬InRange (denoted negative digits)) ↔
      (∀ c ∈ digits, c.isDigit = true) ∨ ¬InRange (denoted negative digits)) ∧
    (∀ v, read? t = some v ↔ isOversized t = false ∧
      ∃ n : Int64, v = .integer n ∧ n.toInt = denoted negative digits) ∧
    (∀ type name, (∃ literal x,
      Binding.ofInitial type name t = .error (.oversizedInteger literal x)) ↔
        isOversized t = true) ∧
    ∀ name op, (∃ literal x,
      Binding.readOperand name op t = .error (.oversizedInteger literal x)) ↔
        isOversized t = true := by
  have hnumeral := numeral?_eq_integer_iff.mpr ⟨ht, hne, hdigits⟩
  obtain ⟨hoversized, hread, -⟩ := read_of_numeral? hnumeral
  have hiff : isOversized t = true ↔
      (∃ c ∈ digits, c.isDigit = false) ∨ ¬InRange (denoted negative digits) := by
    rw [hoversized, isNone_integerValue?_iff]
  refine ⟨hiff, ?_, fun v => ?_, fun type name => ofInitial_oversized_iff,
    fun name op => readOperand_oversized_iff⟩
  · have hascii : (∀ c ∈ digits, c.isDigit = true) ↔ ¬∃ c ∈ digits, c.isDigit = false := by simp
    rw [hiff, hascii, or_iff_right_iff_imp, imp_iff_not_or]
  · rw [hread, hoversized, Option.isNone_eq_false_iff, Option.map_eq_some_iff]
    constructor
    · rintro ⟨n, hn, rfl⟩
      exact ⟨by rw [hn]; rfl, n, rfl, (integerValue?_eq_some_iff_denoted.mp hn).2⟩
    · rintro ⟨hsome, n, rfl, hn⟩
      obtain ⟨m, hm⟩ := Option.isSome_iff_exists.mp hsome
      refine ⟨n, integerValue?_eq_some_iff_denoted.mpr
        ⟨(integerValue?_eq_some_iff_denoted.mp hm).1, hn⟩, rfl⟩

/-- A small number, one of whose digits is not an ASCII one. -/
theorem isOversized_iff_of_two_scripts : ∃ t digits : Text, t = "\t-٣4 ".toList ∧
    digits = "٣4".toList ∧ Text.trim t = sign true ++ digits ∧ denoted true digits = -34 ∧
    InRange (denoted true digits) ∧ isOversized t = true ∧ read? t = none ∧
    ¬(isOversized t = true ↔ ¬InRange (denoted true digits)) := by
  have hdenoted : denoted true "٣4".toList = -34 := by decide +kernel
  have hrange : InRange (denoted true "٣4".toList) := by
    rw [hdenoted]
    decide
  have htrim : Text.trim "\t-٣4 ".toList = sign true ++ "٣4".toList := by decide
  obtain ⟨hiff, hright, hread, -⟩ := isOversized_iff htrim (by decide)
    (List.all_eq_true.mp (by decide +kernel))
  have hoversized := hiff.mpr (.inl ⟨'٣', by decide, by decide⟩)
  refine ⟨_, _, rfl, rfl, htrim, hdenoted, hrange, hoversized, ?_, fun h => ?_⟩
  · exact Option.eq_none_iff_forall_ne_some.mpr fun v hv =>
      Bool.false_ne_true (((hread v).mp hv).1.symm.trans hoversized)
  · exact h.mp hoversized hrange

end Literal
end BraceTree
