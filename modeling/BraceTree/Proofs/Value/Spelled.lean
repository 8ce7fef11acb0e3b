import BraceTree.Proofs.Text.Sealed
import BraceTree.Proofs.Value.Holds

/-!
# The texts of values

What a value looks like, seen by a reader who only knows characters: the text of every value stays
in one piece when a list with it is cut (`sealed_display`), whatever its strings contain. The texts
of numbers are known by their parts (`Literal.Numeral.text`), from which they are read back. Of a
double one has to know that its text has a point and that no rounding is seen in it (`ReadsBack`).
-/

namespace BraceTree

namespace Value

/-- **Induction on values**: what holds of a collection if it holds of everything in it. -/
@[elab_as_elim]
theorem induction {P : Value → Prop} (string : ∀ s, P (.string s)) (integer : ∀ n, P (.integer n))
    (double : ∀ x, P (.double x)) (boolean : ∀ b, P (.boolean b))
    (array : ∀ items, (∀ v ∈ items, P v) → P (.array items))
    (map : ∀ entries, (∀ e ∈ entries, P e.1 ∧ P e.2) → P (.map entries)) (v : Value) : P v :=
  @Value.rec P (fun vs => ∀ v ∈ vs, P v) (fun es => ∀ e ∈ es, P e.1 ∧ P e.2)
    (fun e => P e.1 ∧ P e.2) string integer double boolean array map
    (fun _ hv => absurd hv List.not_mem_nil) (fun _ _ hv hvs => List.forall_mem_cons.mpr ⟨hv, hvs⟩)
    (fun _ he => absurd he List.not_mem_nil) (fun _ _ he hes => List.forall_mem_cons.mpr ⟨he, hes⟩)
    (fun _ _ hk hv => ⟨hk, hv⟩) v

/-- A double that is somewhere in a value. -/
inductive HasDouble (x : Float) : Value → Prop where
  | here : HasDouble x (.double x)
  | item {items : List Value} {v : Value} (hv : v ∈ items) (h : HasDouble x v) :
    HasDouble x (.array items)
  | key {entries : List (Value × Value)} {e : Value × Value} (he : e ∈ entries)
    (h : HasDouble x e.1) : HasDouble x (.map entries)
  | value {entries : List (Value × Value)} {e : Value × Value} (he : e ∈ entries)
    (h : HasDouble x e.2) : HasDouble x (.map entries)

/-- **A double reads back** if its text has a point and whatever double is read from the text is the
same. That one is read is not asked, since the point is enough for it
(`Literal.scalar?_doubleText`). -/
def ReadsBack (x : Float) : Prop :=
  '.' ∈ (doubleText x).toList ∧
    ∀ y, Literal.scalar? (doubleText x).toList = some (.double y) → y = x

/-! ## Collections -/

theorem displayItems_eq (items : List Value) : displayItems items = items.map display := by
  induction items with
  | nil => rfl
  | cons v vs ih => rw [displayItems, ih, List.map_cons]

theorem displayEntries_eq (entries : List (Value × Value)) :
    displayEntries entries = entries.map fun e => display e.1 ++ ": " ++ display e.2 := by
  induction entries with
  | nil => rfl
  | cons e es ih =>
    obtain ⟨k, v⟩ := e
    rw [displayEntries, ih, List.map_cons]

/-- The text of an entry: its key and its value around a colon. -/
def entryText (e : Value × Value) : Text :=
  ([':', ' '] : Text).intercalate [e.1.display.toList, e.2.display.toList]

theorem toList_display_array (items : List Value) : (array items).display.toList =
    '[' :: (([',', ' '] : Text).intercalate (items.map fun v => v.display.toList) ++ [']']) := by
  rw [display, displayItems_eq, String.toList_append, String.toList_append,
    String.toList_intercalate, List.map_map]
  rfl

theorem toList_display_map (entries : List (Value × Value)) : (map entries).display.toList =
    '[' :: (([',', ' '] : Text).intercalate (entries.map entryText) ++ [']']) := by
  have hentry : (String.toList ∘ fun e : Value × Value => display e.1 ++ ": " ++ display e.2) =
      entryText := by
    funext e
    rw [Function.comp, String.toList_append, String.toList_append, entryText,
      List.intercalate_cons_cons, List.intercalate_singleton]
    rfl
  rw [display, displayEntries_eq, String.toList_append, String.toList_append,
    String.toList_intercalate, List.map_map, hentry]
  rfl

/-! ## Strings -/

theorem toList_display_string (s : String) :
    (string s).display.toList = '"' :: (s.toList.flatMap escapeChar ++ ['"']) := by
  simp [display, quote]

/-- An escaped character leaves the reader in the literal. -/
theorem after_escapeChar (c : Char) :
    (Quoting.inside '"').after (escapeChar c) = .inside '"' ∧
      ∀ g ∈ Text.glyphsFrom (.inside '"') (escapeChar c), g.quoted = true := by
  unfold escapeChar
  split
  · decide
  · rename_i hquote
    split
    · decide
    · rename_i hbackslash
      split
      · decide
      · rename_i hnewline
        split
        · decide
        · have hstep : (Quoting.inside '"').step c = (.inside '"', true) := by
            rw [Quoting.step, if_neg hnewline, if_neg hbackslash, if_neg hquote]
          refine ⟨by rw [Quoting.after, List.foldl_cons, hstep]; rfl, fun g hg => ?_⟩
          rw [Text.glyphsFrom, hstep] at hg
          rw [List.mem_singleton.mp hg]

theorem after_escape (s : Text) : (Quoting.inside '"').after (s.flatMap escapeChar) = .inside '"' ∧
    ∀ g ∈ Text.glyphsFrom (.inside '"') (s.flatMap escapeChar), g.quoted = true := by
  induction s with
  | nil => exact ⟨rfl, fun _ hg => absurd hg List.not_mem_nil⟩
  | cons c cs ih =>
    obtain ⟨hafter, hquoted⟩ := after_escapeChar c
    rw [List.flatMap_cons, Quoting.after_append, Text.glyphsFrom_append, hafter]
    exact ⟨ih.1, fun g hg => (List.mem_append.mp hg).elim (hquoted g) (ih.2 g)⟩

/-- **The text of a string is one literal**, whatever the string contains. -/
theorem quoted_display_string (s : String) :
    Quoting.outside.after (string s).display.toList = .outside ∧
      ∀ g ∈ Text.glyphs (string s).display.toList, g.quoted = true := by
  obtain ⟨hafter, hquoted⟩ := after_escape s.toList
  have hopen : Quoting.outside.step '"' = (.inside '"', true) := rfl
  rw [toList_display_string]
  constructor
  · show (Quoting.inside '"').after (s.toList.flatMap escapeChar ++ ['"']) = .outside
    rw [Quoting.after_append, hafter]
    rfl
  · intro g hg
    rw [Text.glyphs, Text.glyphsFrom, hopen, Text.glyphsFrom_append, hafter, List.mem_cons,
      List.mem_append] at hg
    rcases hg with rfl | hg | hg
    · rfl
    · exact hquoted g hg
    · rw [List.mem_singleton.mp hg]
      rfl

end Value

/-! ## Numbers -/

namespace Literal

/-- The characters of which numbers consist. -/
def isNumberChar (c : Char) : Bool := c.isDigit || c == '-' || c == '.'

theorem toNat_of_isDigit {c : Char} (h : c.isDigit = true) : 48 ≤ c.toNat ∧ c.toNat ≤ 57 := by
  simpa [Char.isDigit, UInt32.le_iff_toNat_le] using h

theorem isDigit_of_ascii {c : Char} (h : c.isDigit = true) : Text.isDigit c = true := by
  have := toNat_of_isDigit h
  rw [Text.isDigit, if_pos (by omega), h]

theorem isBlank_of_isNumberChar {c : Char} (h : isNumberChar c = true) :
    Text.isBlank c = false := by
  simp only [isNumberChar, Bool.or_eq_true, beq_iff_eq] at h
  rcases h with (h | rfl) | rfl
  · have := toNat_of_isDigit h
    simp [Text.isBlank]
    omega
  · decide
  · decide

theorem isNameHead_of_isNumberChar {c : Char} (h : isNumberChar c = true) :
    Text.isNameHead c = false := by
  simp only [isNumberChar, Bool.or_eq_true, beq_iff_eq] at h
  rcases h with (h | rfl) | rfl
  · have hdigit := toNat_of_isDigit h
    have hunderscore : c ≠ '_' := by
      rintro rfl
      exact absurd h (by decide)
    have hletter : Text.isLetter c = false := by
      show (decide (c.val ≥ 'a'.val) && decide (c.val ≤ 'z'.val) ||
        decide (c.val ≥ 'A'.val ∧ c.val ≤ 'Z'.val)) = false
      simp only [UInt32.le_iff_toNat_le, ge_iff_le, Bool.or_eq_false_iff, Bool.and_eq_false_iff,
        decide_eq_false_iff_not]
      exact ⟨.inl fun hle => absurd (hle.trans hdigit.2) (by decide),
        fun hle => absurd (hle.1.trans hdigit.2) (by decide)⟩
    rw [Text.isNameHead, hletter, Bool.false_or, beq_eq_false_iff_ne]
    exact hunderscore
  · decide
  · decide

/-- **No name starts with a digit**, of whatever script. -/
theorem isDigit_of_isNameHead {c : Char} (h : Text.isNameHead c = true) :
    Text.isDigit c = false := by
  have hbounds : c.toNat < 0x80 ∧ 57 < c.toNat := by
    rw [Text.isNameHead, Text.isLetter, Bool.or_eq_true, Bool.or_eq_true, beq_iff_eq] at h
    rcases h with (hlower | hupper) | rfl
    · obtain ⟨hlo, hhi⟩ := (Bool.and_eq_true _ _).mp hlower
      have hlo := UInt32.le_iff_toNat_le.mp (of_decide_eq_true hlo)
      have hhi := UInt32.le_iff_toNat_le.mp (of_decide_eq_true hhi)
      exact ⟨Nat.lt_of_le_of_lt hhi (by decide), Nat.lt_of_lt_of_le (by decide) hlo⟩
    · obtain ⟨hlo, hhi⟩ := of_decide_eq_true hupper
      have hlo := UInt32.le_iff_toNat_le.mp hlo
      have hhi := UInt32.le_iff_toNat_le.mp hhi
      exact ⟨Nat.lt_of_le_of_lt hhi (by decide), Nat.lt_of_lt_of_le (by decide) hlo⟩
    · decide
  rw [Text.isDigit, if_pos hbounds.1, Bool.eq_false_iff]
  exact fun hd => absurd (toNat_of_isDigit hd).2 (Nat.not_le.mpr hbounds.2)

namespace Numeral

/-- The text of a number with given parts. -/
def text (n : Numeral) : Text :=
  (if n.negative then ['-'] else []) ++ (n.whole ++ n.fraction.elim [] fun f => '.' :: f)

/-- **A number in ASCII digits**, at least one of them wherever digits have to stand. -/
structure Plain (n : Numeral) : Prop where
  whole_ne_nil : n.whole ≠ []
  whole_digits : ∀ c ∈ n.whole, c.isDigit = true
  fraction_ne_nil : n.fraction ≠ some []
  fraction_digits : ∀ f, n.fraction = some f → ∀ c ∈ f, c.isDigit = true

variable {n : Numeral}

theorem Plain.isNumberChar (h : n.Plain) : ∀ c ∈ n.text, isNumberChar c = true := fun c hc => by
  have hdigit : c.isDigit = true → Literal.isNumberChar c = true := fun h => by
    rw [Literal.isNumberChar, h, Bool.true_or, Bool.true_or]
  rcases List.mem_append.mp hc with hc | hc
  · obtain rfl : c = '-' := by
      split at hc
      · exact List.mem_singleton.mp hc
      · exact absurd hc List.not_mem_nil
    decide
  · rcases List.mem_append.mp hc with hc | hc
    · exact hdigit (h.whole_digits c hc)
    · cases hfraction : n.fraction with
      | none =>
        rw [hfraction] at hc
        exact absurd hc List.not_mem_nil
      | some f =>
        rw [hfraction] at hc
        rcases List.mem_cons.mp hc with rfl | hc
        · decide
        · exact hdigit (h.fraction_digits f hfraction c hc)

theorem Plain.text_ne_nil (h : n.Plain) : n.text ≠ [] :=
  List.append_ne_nil_of_right_ne_nil _ (List.append_ne_nil_of_left_ne_nil h.whole_ne_nil _)

/-- **The text of a number stays in one piece.** -/
theorem Plain.sealed (h : n.Plain) : Text.Sealed [',', ':'] n.text :=
  have hchars := h.isNumberChar
  .of_inert (List.all_eq_true.mpr fun c hc => Text.isInert_of_class (by decide) (hchars c hc))
    (List.all_eq_true.mpr fun c hc => by
      rw [Text.contains_eq_false (by decide) (hchars c hc)]
      rfl)
    (.of_all h.text_ne_nil (List.all_eq_true.mpr fun c hc => by
      rw [isBlank_of_isNumberChar (hchars c hc)]
      rfl))

/-- The text of a number does not start like a name. -/
theorem Plain.head (h : n.Plain) : ∃ c, n.text.head? = some c ∧ Text.isNameHead c = false :=
  ⟨n.text.head h.text_ne_nil, List.head?_eq_some_head h.text_ne_nil,
    isNameHead_of_isNumberChar (h.isNumberChar _ (List.head_mem h.text_ne_nil))⟩

/-- **A number in digits of any script**, at least one of them wherever digits have to stand. -/
structure Formed (n : Numeral) : Prop where
  whole_ne_nil : n.whole ≠ []
  whole_digits : ∀ c ∈ n.whole, Text.isDigit c = true
  fraction_ne_nil : n.fraction ≠ some []
  fraction_digits : ∀ f, n.fraction = some f → ∀ c ∈ f, Text.isDigit c = true

theorem Plain.formed (h : n.Plain) : n.Formed where
  whole_ne_nil := h.whole_ne_nil
  whole_digits := fun c hc => isDigit_of_ascii (h.whole_digits c hc)
  fraction_ne_nil := h.fraction_ne_nil
  fraction_digits := fun f hf c hc => isDigit_of_ascii (h.fraction_digits f hf c hc)

/-- **The parts of a number are found in its text.** -/
theorem Formed.numeral?_text (h : n.Formed) : numeral? n.text = some n := by
  obtain ⟨negative, whole, fraction⟩ := n
  obtain ⟨hne, hdigits, hfne, hfraction⟩ := h
  have hempty : ¬ whole.isEmpty = true := by simpa using hne
  -- a digit is no sign
  have hhead : ∀ tail, (whole ++ tail).head? ≠ some '-' := fun tail hminus => by
    obtain ⟨c, cs, rfl⟩ := List.exists_cons_of_ne_nil hne
    obtain rfl := Option.some.inj hminus
    exact absurd (hdigits '-' List.mem_cons_self) (by decide)
  have hsign : ∀ tail, decide (((if negative then ['-'] else []) ++ (whole ++ tail)).head? =
      some '-') = negative ∧
        (if ((if negative then ['-'] else []) ++ (whole ++ tail)).head? = some '-' then
          ((if negative then ['-'] else []) ++ (whole ++ tail)).tail
        else (if negative then ['-'] else []) ++ (whole ++ tail)) = whole ++ tail := fun tail => by
    cases negative with
    | true => exact ⟨rfl, rfl⟩
    | false => exact ⟨decide_eq_false (hhead tail), if_neg (hhead tail)⟩
  rw [text, numeral?]
  dsimp only
  obtain ⟨hnegative, hbody⟩ := hsign (fraction.elim [] fun f => '.' :: f)
  rw [hbody, hnegative, List.takeWhile_append_of_pos hdigits, List.dropWhile_append_of_pos hdigits]
  cases fraction with
  | none =>
    rw [Option.elim_none, List.takeWhile_nil, List.append_nil, if_neg hempty]
    rfl
  | some f =>
    have hpoint : ('.' :: f).takeWhile Text.isDigit = [] := rfl
    have hf : '.' = '.' ∧ !f.isEmpty ∧ f.all Text.isDigit :=
      ⟨rfl, by simpa using hfne, List.all_eq_true.mpr (hfraction f rfl)⟩
    rw [Option.elim_some, hpoint, List.append_nil, if_neg hempty]
    exact if_pos hf

/-- A number is read as the integer or the double that its parts denote. -/
theorem Plain.scalar?_text (h : n.Plain) : scalar? n.text = match n.fraction with
    | none => (integerValue? n.negative n.whole).map .integer
    | some f => (doubleValue? n.negative n.whole f).map .double := by
  have hstring : string? n.text = none := by
    have hchars := h.isNumberChar
    generalize n.text = t at hchars
    cases t with
    | nil => rfl
    | cons c cs =>
      have hinert := Text.isInert_of_class (by decide) (hchars c List.mem_cons_self)
      rw [string?, if_neg (by simp [(Text.isInert_iff.mp hinert).1])]
  rw [scalar?, hstring]
  dsimp only
  rw [h.formed.numeral?_text]
  obtain ⟨negative, whole, fraction⟩ := n
  cases fraction <;> rfl

end Numeral

theorem isDigit_of_mem_toDigits {m : Nat} {c : Char} (h : c ∈ Nat.toDigits 10 m) :
    c.isDigit = true :=
  Nat.isDigit_of_mem_toDigits (by decide) (by decide) h

/-! ### Integers -/

/-- The parts of the text of a whole number. -/
def integerNumeral (n : Int) : Numeral := ⟨decide (n < 0), Nat.toDigits 10 n.natAbs, none⟩

theorem plain_integerNumeral (n : Int) : (integerNumeral n).Plain where
  whole_ne_nil := Nat.toDigits_ne_nil
  whole_digits := fun _ hc => isDigit_of_mem_toDigits hc
  fraction_ne_nil := nofun
  fraction_digits := nofun

theorem toList_toString (n : Int) : (toString n).toList = (integerNumeral n).text := by
  cases n with
  | ofNat m =>
    show (String.ofList (Nat.toDigits 10 m)).toList = _
    rw [String.toList_ofList]
    simp [Numeral.text, integerNumeral]
  | negSucc m =>
    show ("-" ++ String.ofList (Nat.toDigits 10 m.succ)).toList = _
    rw [String.toList_append, String.toList_ofList]
    simp [Numeral.text, integerNumeral, Int.negSucc_lt_zero]

theorem digitsValue?_toDigits (m : Nat) : digitsValue? (Nat.toDigits 10 m) = some m := by
  rw [digitsValue?, if_pos (List.all_eq_true.mpr fun c hc => isDigit_of_mem_toDigits hc)]
  exact congrArg some (Nat.ofDigitChars_toDigits (by decide) (by decide))

theorem fitsInteger_toInt (n : Int64) : fitsInteger n.toInt = true := by
  rw [fitsInteger, Bool.and_eq_true, decide_eq_true_iff, decide_eq_true_iff]
  exact ⟨n.minValue_le_toInt, n.toInt_le⟩

/-- **An integer is read back from its text.** -/
theorem scalar?_toString (n : Int64) :
    scalar? (toString n.toInt).toList = some (.integer n) := by
  have hvalue : (if decide (n.toInt < 0) then -(n.toInt.natAbs : Int) else n.toInt.natAbs) =
      n.toInt := by
    by_cases hneg : n.toInt < 0
    · rw [decide_eq_true hneg, if_pos rfl]
      omega
    · rw [decide_eq_false hneg, if_neg Bool.false_ne_true]
      omega
  have hinteger : integerValue? (decide (n.toInt < 0)) (Nat.toDigits 10 n.toInt.natAbs) =
      some n := by
    rw [integerValue?, digitsValue?_toDigits]
    dsimp only
    rw [hvalue, if_pos (fitsInteger_toInt n), Int64.ofInt_toInt]
  rw [toList_toString, (plain_integerNumeral _).scalar?_text]
  show (integerValue? (decide (n.toInt < 0)) (Nat.toDigits 10 n.toInt.natAbs)).map
    Value.integer = _
  rw [hinteger]
  rfl

/-! ### Doubles -/

variable (negative : Bool)

theorem toList_sign : (if negative then "-" else "").toList = if negative then ['-'] else [] := by
  cases negative <;> rfl

/-- Digits on both sides of a point are a number. -/
theorem Numeral.plain_decimal {whole fraction : Text} (hwhole : whole ≠ [])
    (hfraction : fraction ≠ []) (hdigits : ∀ c ∈ whole ++ fraction, c.isDigit = true) :
    Numeral.Plain ⟨negative, whole, some fraction⟩ where
  whole_ne_nil := hwhole
  whole_digits := fun c hc => hdigits c (List.mem_append_left _ hc)
  fraction_ne_nil := fun h => hfraction (Option.some.inj h)
  fraction_digits := fun f hf c hc => by
    obtain rfl := Option.some.inj hf
    exact hdigits c (List.mem_append_right _ hc)

theorem isDigit_of_mem_replicate {k : Nat} {c : Char} (h : c ∈ List.replicate k '0') :
    c.isDigit = true := by
  rw [List.eq_of_mem_replicate h]
  decide

/-- A decimal that is written out has no point, or has digits on both sides of it. -/
theorem positional_cases (digits : Nat) (place : Int) :
    (Decimal.positional digits place).toList ≠ [] ∧
        (∀ c ∈ (Decimal.positional digits place).toList, c.isDigit = true) ∨
      ∃ whole fraction, whole ≠ [] ∧ fraction ≠ [] ∧ (∀ c ∈ whole ++ fraction, c.isDigit = true) ∧
        (Decimal.positional digits place).toList = whole ++ '.' :: fraction := by
  rw [Decimal.positional]
  dsimp only
  by_cases hplace : 0 ≤ place
  · rw [if_pos hplace, String.toList_ofList]
    exact .inl ⟨List.append_ne_nil_of_left_ne_nil Nat.toDigits_ne_nil _, fun c hc =>
      (List.mem_append.mp hc).elim isDigit_of_mem_toDigits isDigit_of_mem_replicate⟩
  · rw [if_neg hplace, String.toList_ofList]
    have hplaces : 0 < (-place).toNat := by omega
    generalize (-place).toNat = places at hplaces
    have hdigits : ∀ c ∈ List.replicate (places + 1 - (Nat.toDigits 10 digits).length) '0' ++
        Nat.toDigits 10 digits, c.isDigit = true := fun c hc =>
      (List.mem_append.mp hc).elim isDigit_of_mem_replicate isDigit_of_mem_toDigits
    have hlength : places < (List.replicate (places + 1 - (Nat.toDigits 10 digits).length) '0' ++
        Nat.toDigits 10 digits).length := by
      rw [List.length_append, List.length_replicate]
      omega
    -- the padded digits are cut before the last of the places
    generalize List.replicate (places + 1 - (Nat.toDigits 10 digits).length) '0' ++
      Nat.toDigits 10 digits = padded at hdigits hlength
    refine .inr ⟨_, _, List.ne_nil_of_length_pos ?_, List.ne_nil_of_length_pos ?_, ?_, rfl⟩
    · rw [List.length_take]
      omega
    · rw [List.length_drop]
      omega
    · rwa [List.take_append_drop]

/-- A whole number with one decimal place. -/
theorem exists_numeral_whole (m : Nat) : ∃ n : Numeral, n.Plain ∧
    ((if negative then "-" else "") ++ toString m ++ ".0").toList = n.text := by
  have hdigits : ∀ c ∈ Nat.toDigits 10 m ++ ['0'], c.isDigit = true := fun c hc =>
    (List.mem_append.mp hc).elim isDigit_of_mem_toDigits (isDigit_of_mem_replicate (k := 1))
  refine ⟨_, Numeral.plain_decimal negative Nat.toDigits_ne_nil (List.cons_ne_nil _ _) hdigits, ?_⟩
  show (_ ++ String.ofList (Nat.toDigits 10 m) ++ ".0").toList = _
  rw [String.toList_append, String.toList_append, String.toList_ofList, toList_sign,
    List.append_assoc]
  rfl

theorem exists_numeral_positional (digits : Nat) (place : Int) : ∃ n : Numeral, n.Plain ∧
    ((if negative then "-" else "") ++ Decimal.positional digits place).toList = n.text := by
  rw [String.toList_append, toList_sign]
  rcases positional_cases digits place with
    ⟨hne, hdigits⟩ | ⟨whole, fraction, hw, hf, hdigits, htext⟩
  · exact ⟨⟨negative, _, none⟩, ⟨hne, hdigits, nofun, nofun⟩, congrArg _ (List.append_nil _).symm⟩
  · rw [htext]
    exact ⟨_, Numeral.plain_decimal negative hw hf hdigits, rfl⟩

/-- **The text of a double is a number, or the word for one that is none.** -/
theorem doubleText_cases (x : Float) : Value.doubleText x ∈ ["NaN", "inf", "-inf"] ∨
    ∃ n : Numeral, n.Plain ∧ (Value.doubleText x).toList = n.text := by
  rw [Value.doubleText]
  generalize Decimal.Shape.ofFloat x = shape
  cases shape with
  | nan => exact .inl (by decide)
  | infinite negative => exact .inl (by cases negative <;> decide)
  | finite negative m q =>
    dsimp only
    right
    split
    · exact exists_numeral_whole negative _
    · split
      · exact exists_numeral_whole negative _
      · exact exists_numeral_positional negative _ _

/-- A number whose text has a point has a fraction. -/
theorem Numeral.Plain.exists_fraction {n : Numeral} (h : n.Plain) (hpoint : '.' ∈ n.text) :
    ∃ f, n.fraction = some f := by
  cases hfraction : n.fraction with
  | some f => exact ⟨f, rfl⟩
  | none =>
    rw [Numeral.text, hfraction, Option.elim_none, List.append_nil] at hpoint
    rcases List.mem_append.mp hpoint with hc | hc
    · split at hc <;> exact absurd hc (by decide)
    · exact absurd (h.whole_digits _ hc) (by decide)

/-- The text of a double is a number if it has a point. -/
theorem exists_numeral_doubleText {x : Float} (hpoint : '.' ∈ (Value.doubleText x).toList) :
    ∃ n : Numeral, n.Plain ∧ (Value.doubleText x).toList = n.text := by
  rcases doubleText_cases x with hword | hnumber
  · have hwords : ∀ w ∈ ["NaN", "inf", "-inf"], '.' ∉ w.toList := by decide
    exact absurd hpoint (hwords _ hword)
  · exact hnumber

/-- **A double that reads back is read from its text.** -/
theorem scalar?_doubleText {x : Float} (h : Value.ReadsBack x) :
    scalar? (Value.doubleText x).toList = some (.double x) := by
  obtain ⟨hpoint, hread⟩ := h
  obtain ⟨n, hn, htext⟩ := exists_numeral_doubleText hpoint
  obtain ⟨f, hf⟩ := hn.exists_fraction (htext ▸ hpoint)
  have hall : (n.whole ++ f).all Char.isDigit = true := by
    rw [List.all_append, Bool.and_eq_true, List.all_eq_true, List.all_eq_true]
    exact ⟨hn.whole_digits, hn.fraction_digits f hf⟩
  obtain ⟨y, hy⟩ : ∃ y, doubleValue? n.negative n.whole f = some y := by
    rw [doubleValue?, digitsValue?, if_pos hall]
    exact ⟨_, rfl⟩
  have hscalar := hn.scalar?_text
  rw [hf] at hscalar
  dsimp only at hscalar
  rw [hy] at hscalar
  rw [htext] at hread ⊢
  rw [hscalar, hread y hscalar]
  rfl

end Literal

/-! ## All values -/

namespace Value

/-- Whether all doubles in a value read back. -/
def DoublesReadBack (v : Value) : Prop := ∀ x, HasDouble x v → ReadsBack x

@[simp] theorem doublesReadBack_string (s : String) : DoublesReadBack (.string s) :=
  fun _ hx => nomatch hx

@[simp] theorem doublesReadBack_integer (n : Int64) : DoublesReadBack (.integer n) :=
  fun _ hx => nomatch hx

@[simp] theorem doublesReadBack_double {x : Float} :
    DoublesReadBack (.double x) ↔ ReadsBack x :=
  ⟨fun h => h x .here, fun h _ hx => by
    cases hx
    exact h⟩

@[simp] theorem doublesReadBack_array {items : List Value} :
    DoublesReadBack (.array items) ↔ ∀ v ∈ items, DoublesReadBack v :=
  ⟨fun h _ hv x hx => h x (.item hv hx), fun h x hx => by
    cases hx with
    | item hv hx => exact h _ hv x hx⟩

@[simp] theorem doublesReadBack_map {entries : List (Value × Value)} :
    DoublesReadBack (.map entries) ↔ ∀ e ∈ entries, DoublesReadBack e.1 ∧ DoublesReadBack e.2 :=
  ⟨fun h _ he => ⟨fun x hx => h x (.key he hx), fun x hx => h x (.value he hx)⟩, fun h x hx => by
    cases hx with
    | key he hx => exact (h _ he).1 x hx
    | value he hx => exact (h _ he).2 x hx⟩

theorem sealed_entryText {e : Value × Value}
    (hk : Text.Sealed [',', ':'] e.1.display.toList)
    (hv : Text.Sealed [',', ':'] e.2.display.toList) : Text.Sealed [','] (entryText e) := by
  rw [entryText, List.intercalate_cons_cons, List.intercalate_singleton, List.append_assoc]
  refine (hk.mono (by simp)).around (.of_inert (by decide)) (fun sep hsep => ?_)
    (hv.mono (by simp))
  obtain rfl := List.mem_singleton.mp hsep
  exact .append (.of_inert (c := ':') (by decide) (.inl (by decide)))
    (.of_inert (c := ' ') (by decide) (.inl (by decide)))

/-- **The text of every value stays in one piece** when a list with it is cut. -/
theorem sealed_display (v : Value) : Text.Sealed [',', ':'] v.display.toList := by
  induction v using Value.induction with
  | string s =>
    obtain ⟨hclosed, hquoted⟩ := quoted_display_string s
    refine .of_quoted hclosed hquoted ?_
    rw [toList_display_string, ← List.singleton_append]
    exact .around (.of_all (by decide) (by decide)) _ (.of_all (by decide) (by decide))
  | integer n =>
    rw [display, Literal.toList_toString]
    exact (Literal.plain_integerNumeral _).sealed
  | double x =>
    rw [display]
    rcases Literal.doubleText_cases x with hword | ⟨n, hn, htext⟩
    · simp only [List.mem_cons, List.not_mem_nil, or_false] at hword
      rcases hword with hword | hword | hword <;> rw [hword] <;>
        exact .of_inert (by decide) (by decide) (.of_all (by decide) (by decide))
    · rw [htext]
      exact hn.sealed
  | boolean b =>
    cases b <;>
      exact .of_inert (by decide) (by decide) (.of_all (by decide) (by decide))
  | array items ih =>
    rw [toList_display_array]
    refine .bracket (.intercalate (.of_inert (by decide)) fun t ht => ?_)
    obtain ⟨v, hv, rfl⟩ := List.mem_map.mp ht
    exact (ih v hv).toContained
  | map entries ih =>
    rw [toList_display_map]
    refine .bracket (.intercalate (.of_inert (by decide)) fun t ht => ?_)
    obtain ⟨e, he, rfl⟩ := List.mem_map.mp ht
    exact (sealed_entryText (ih e he).1 (ih e he).2).toContained

end Value
end BraceTree
