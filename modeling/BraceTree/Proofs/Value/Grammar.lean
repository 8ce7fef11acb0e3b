import BraceTree.Expression
import BraceTree.Proofs.Text.Whole
import BraceTree.Proofs.Value.Spelled

/-!
# The grammar of literals

What the texts of literals are, said as a grammar: a value is a token with blanks around it
(`Denotes`), and a token is a string, a number, a boolean or a collection (`Token`). The inside of a
string is a grammar of its own (`Items`), with what it says once the escapes are decoded. A grammar
has no order in which its cases are tried, no depth and no fuel, so nothing of how a text is read is
in it. Two things are taken from outside: a whole number must fit 64 bits, and the nearest double of
decimal digits is what `doubleValue?` computes.

Beside the grammar stands what connects its leaves with the reading of them, in both directions:
what is read as a scalar is a token (`token_of_scalar?`), and a string in a line, an integer and a
double are read for what they denote. A string literal is also sealed (`Items.sealed`), so the
brackets and separators in it do not reach the text around it.
-/

namespace BraceTree.Literal

/-- **What stands between the quotes of a string literal, and what it says.** -/
inductive Items (quote : Char) : Text → Text → Prop
  | nil : Items quote [] []
  /-- Any other character than the quote and the backslash says itself. -/
  | char {c : Char} {t s : Text} (hquote : c ≠ quote) (hbackslash : c ≠ '\\')
      (h : Items quote t s) : Items quote (c :: t) (c :: s)
  | newline {t s : Text} (h : Items quote t s) : Items quote ('\\' :: 'n' :: t) ('\n' :: s)
  | tab {t s : Text} (h : Items quote t s) : Items quote ('\\' :: 't' :: t) ('\t' :: s)
  /-- Any other character than the two says itself behind a backslash. -/
  | escaped {c : Char} {t s : Text} (hnewline : c ≠ 'n') (htab : c ≠ 't')
      (h : Items quote t s) : Items quote ('\\' :: c :: t) (c :: s)

/-- A minus sign, if there is one. -/
def sign (negative : Bool) : Text := if negative then ['-'] else []

mutual

/-- **A text that denotes a value**: a token, perhaps with blanks around it. -/
inductive Denotes : Text → Value → Prop
  | value {pre token post : Text} {v : Value} (hpre : Text.isBlankText pre = true)
      (h : Token token v) (hpost : Text.isBlankText post = true) :
      Denotes (pre ++ (token ++ post)) v

/-- **The tokens of values.** -/
inductive Token : Text → Value → Prop
  | string {quote : Char} {t s : Text} (hquote : quote = '"' ∨ quote = '\'')
      (h : Items quote t s) : Token (quote :: (t ++ [quote])) (.string (String.ofList s))
  /-- Digits that denote a number of 64 bits. -/
  | integer {negative : Bool} {digits : Text} {n : Int64} (hne : digits ≠ [])
      (hdigits : ∀ c ∈ digits, c.isDigit = true)
      (hn : n.toInt = if negative then -(Nat.ofDigitChars 10 digits 0 : Int)
        else Nat.ofDigitChars 10 digits 0) : Token (sign negative ++ digits) (.integer n)
  /-- Digits with a point between them, for the double nearest to them. -/
  | double {negative : Bool} {whole fraction : Text} {x : Float} (hwhole : whole ≠ [])
      (hfraction : fraction ≠ []) (hdigits : ∀ c ∈ whole ++ fraction, c.isDigit = true)
      (hx : doubleValue? negative whole fraction = some x) :
      Token (sign negative ++ (whole ++ '.' :: fraction)) (.double x)
  | boolean {word : String} {b : Bool} (h : (word, b) ∈ [("true", true), ("True", true),
      ("false", false), ("False", false)]) : Token word.toList (.boolean b)
  | empty {blanks : Text} (h : Text.isBlankText blanks = true) :
      Token ('[' :: (blanks ++ [']'])) (.array [])
  /-- Values with commas between them. -/
  | array {items : List (Text × Value)} (hne : items ≠ [])
      (h : ∀ i ∈ items, Denotes i.1 i.2) :
      Token ('[' :: (([','] : Text).intercalate (items.map (·.1)) ++ [']']))
        (.array (items.map (·.2)))
  /-- Keys and values with colons between them, and commas between one such pair and the next. -/
  | map {entries : List ((Text × Value) × (Text × Value))} (hne : entries ≠ [])
      (hkeys : ∀ e ∈ entries, Denotes e.1.1 e.1.2) (hvalues : ∀ e ∈ entries, Denotes e.2.1 e.2.2) :
      Token ('[' :: (([','] : Text).intercalate (entries.map fun e => e.1.1 ++ ':' :: e.2.1) ++
        [']'])) (.map (entries.map fun e => (e.1.2, e.2.2)))

end

variable {t s : Text} {v : Value} {quote : Char} {seps : List Char}

/-! ## Strings -/

namespace Items

/-- **The items up to the closing quote are read**, in a line. -/
theorem stringRest? (h : Items quote t s) (hline : '\n' ∉ t) :
    Literal.stringRest? quote (t ++ [quote]) = some s := by
  induction h with
  | nil => exact if_pos rfl
  | @char c t s hquote hbackslash _ ih =>
    obtain ⟨d, ds, hrest⟩ := List.exists_cons_of_ne_nil (List.append_ne_nil_of_right_ne_nil t
      (List.cons_ne_nil quote []))
    have ih := ih fun hmem => hline (List.mem_cons_of_mem c hmem)
    rw [hrest] at ih
    rw [List.cons_append, hrest, Literal.stringRest?, if_neg hbackslash, if_neg hquote, ih]
    rfl
  | newline _ ih =>
    have ih := ih fun hmem => hline (by simp [hmem])
    rw [List.cons_append, List.cons_append, Literal.stringRest?, if_pos rfl, if_neg (by decide), ih]
    rfl
  | tab _ ih =>
    have ih := ih fun hmem => hline (by simp [hmem])
    rw [List.cons_append, List.cons_append, Literal.stringRest?, if_pos rfl, if_neg (by decide), ih]
    rfl
  | @escaped c t s hnewline htab _ ih =>
    have ih := ih fun hmem => hline (by simp [hmem])
    have hc : c ≠ '\n' := fun hc => hline (by simp [hc])
    rw [List.cons_append, List.cons_append, Literal.stringRest?, if_pos rfl, if_neg hc, ih,
      Option.map_some, unescapeChar, if_neg hnewline, if_neg htab]

/-- A backslash and a character are one more item. -/
theorem escape (h : Items quote t s) (c : Char) :
    Items quote ('\\' :: c :: t) (unescapeChar c :: s) := by
  rw [unescapeChar]
  split
  · next hc => exact hc ▸ .newline h
  · next hnewline =>
    split
    · next hc => exact hc ▸ .tab h
    · next htab => exact .escaped hnewline htab h

/-- What is read up to the end of a text are items and the closing quote. -/
theorem exists_of_stringRest? : ∀ {u s : Text}, Literal.stringRest? quote u = some s →
    ∃ t, u = t ++ [quote] ∧ Items quote t s := by
  intro u
  fun_induction Literal.stringRest? quote u with
  | case1 => simp
  | case2 =>
    rintro s ⟨⟩
    exact ⟨[], rfl, .nil⟩
  | case3 => simp
  | case4 => simp
  | case5 d cs hd ih =>
    rintro s h
    obtain ⟨s', hs', rfl⟩ := Option.map_eq_some_iff.mp h
    obtain ⟨t, rfl, ht⟩ := ih hs'
    exact ⟨'\\' :: d :: t, rfl, ht.escape d⟩
  | case6 => simp
  | case7 c d cs hbackslash hquote ih =>
    rintro s h
    obtain ⟨s', hs', rfl⟩ := Option.map_eq_some_iff.mp h
    obtain ⟨t, hrest, ht⟩ := ih hs'
    exact ⟨c :: t, by rw [hrest]; rfl, .char hquote hbackslash ht⟩

/-- The items of a literal lie inside of it. -/
theorem quoted (h : Items quote t s) (hline : '\n' ∉ t) :
    (Quoting.inside quote).after t = .inside quote ∧
      ∀ g ∈ Text.glyphsFrom (.inside quote) t, g.quoted = true := by
  -- a backslash and the character behind it
  have hpair : ∀ {c : Char} {t : Text}, c ≠ '\n' →
      (Quoting.inside quote).after t = .inside quote ∧
        (∀ g ∈ Text.glyphsFrom (.inside quote) t, g.quoted = true) →
      (Quoting.inside quote).after ('\\' :: c :: t) = .inside quote ∧
        ∀ g ∈ Text.glyphsFrom (.inside quote) ('\\' :: c :: t), g.quoted = true := by
    intro c t hc ht
    have hbackslash : (Quoting.inside quote).step '\\' = (.escaped quote, true) := rfl
    have hescaped : (Quoting.escaped quote).step c = (.inside quote, true) := if_neg hc
    rw [Quoting.after, List.foldl_cons, List.foldl_cons, Text.glyphsFrom, Text.glyphsFrom,
      hbackslash, hescaped]
    exact ⟨ht.1, List.forall_mem_cons.mpr ⟨rfl, List.forall_mem_cons.mpr ⟨rfl, ht.2⟩⟩⟩
  induction h with
  | nil => exact ⟨rfl, fun _ hg => absurd hg List.not_mem_nil⟩
  | @char c t s hquote hbackslash _ ih =>
    have hc : c ≠ '\n' := fun hc => hline (by simp [hc])
    have hstep : (Quoting.inside quote).step c = (.inside quote, true) := by
      rw [Quoting.step, if_neg hc, if_neg hbackslash, if_neg hquote]
    obtain ⟨hafter, hquoted⟩ := ih fun hmem => hline (List.mem_cons_of_mem c hmem)
    rw [Quoting.after, List.foldl_cons, Text.glyphsFrom, hstep]
    exact ⟨hafter, List.forall_mem_cons.mpr ⟨rfl, hquoted⟩⟩
  | newline _ ih => exact hpair (by decide) (ih fun hmem => hline (by simp [hmem]))
  | tab _ ih => exact hpair (by decide) (ih fun hmem => hline (by simp [hmem]))
  | escaped _ _ _ ih =>
    exact hpair (fun hc => hline (by simp [hc])) (ih fun hmem => hline (by simp [hmem]))

/-- **A string literal in a line is sealed**, whatever it says. -/
theorem sealed (h : Items quote t s) (hquote : Quoting.isQuote quote = true)
    (hline : '\n' ∉ t) : Text.Sealed seps (quote :: (t ++ [quote])) := by
  obtain ⟨hafter, hquoted⟩ := h.quoted hline
  have hopen : Quoting.outside.step quote = (.inside quote, true) := if_pos hquote
  obtain ⟨hblank, hclose⟩ : Text.isBlank quote = false ∧
      (Quoting.inside quote).step quote = (.outside, true) := by
    obtain rfl | rfl : quote = '"' ∨ quote = '\'' := by simpa [Quoting.isQuote] using hquote
    all_goals decide
  have htight : Text.Tight [quote] := .of_all (List.cons_ne_nil _ _) (by simp [hblank])
  refine .of_quoted ?_ (fun g hg => ?_) (htight.around t htight)
  · rw [Quoting.after, List.foldl_cons, hopen, ← Quoting.after, Quoting.after_append, hafter]
    exact congrArg Prod.fst hclose
  · rw [Text.glyphs, Text.glyphsFrom, hopen, Text.glyphsFrom_append, hafter, List.mem_cons,
      List.mem_append, Text.glyphsFrom, hclose] at hg
    rcases hg with rfl | hg | hg
    · rfl
    · exact hquoted g hg
    · rw [List.mem_singleton.mp hg]

end Items

/-! ## Numbers -/

theorem digitsValue?_eq_some_iff {m : Nat} : digitsValue? t = some m ↔
    (∀ c ∈ t, c.isDigit = true) ∧ m = Nat.ofDigitChars 10 t 0 := by
  rw [digitsValue?, ← List.all_eq_true]
  split
  · next hdigits =>
    rw [Option.some_inj]
    exact ⟨fun h => ⟨hdigits, h.symm⟩, fun h => h.2.symm⟩
  · next hdigits => simp [hdigits]

/-- **A whole number is read if it has 64 bits.** -/
theorem integerValue?_eq_some_iff {negative : Bool} {digits : Text} {n : Int64} :
    integerValue? negative digits = some n ↔ (∀ c ∈ digits, c.isDigit = true) ∧
      n.toInt = if negative then -(Nat.ofDigitChars 10 digits 0 : Int)
        else Nat.ofDigitChars 10 digits 0 := by
  rw [integerValue?]
  cases hvalue : digitsValue? digits with
  | none =>
    have hdigits : ¬∀ c ∈ digits, c.isDigit = true := fun hdigits => by
      have hsome := digitsValue?_eq_some_iff.mpr ⟨hdigits, rfl⟩
      exact Option.some_ne_none _ (hsome.symm.trans hvalue)
    simp only [hdigits, false_and, iff_false]
    exact Option.some_ne_none n ∘ Eq.symm
  | some m =>
    obtain ⟨hdigits, rfl⟩ := digitsValue?_eq_some_iff.mp hvalue
    dsimp only
    rw [and_iff_right hdigits]
    generalize (if negative then -(Nat.ofDigitChars 10 digits 0 : Int)
      else Nat.ofDigitChars 10 digits 0) = value
    constructor
    · intro h
      split at h
      · next hfits =>
        obtain rfl := Option.some.inj h
        rw [fitsInteger, Bool.and_eq_true, decide_eq_true_iff, decide_eq_true_iff] at hfits
        exact Int64.toInt_ofInt_of_le hfits.1 (Int.lt_add_one_of_le hfits.2)
      · cases h
    · rintro rfl
      rw [if_pos (fitsInteger_toInt n), Int64.ofInt_toInt]

/-- **The parts of a number make up its text**, and are what they have to be. -/
theorem numeral?_eq_some {n : Numeral} (h : numeral? t = some n) : t = n.text ∧ n.Formed := by
  unfold numeral? at h
  extract_lets negative body whole at h
  have ht : ∀ rest, body = whole ++ rest →
      t = (if decide negative then ['-'] else []) ++ (whole ++ rest) := by
    intro rest hrest
    rw [← hrest]
    by_cases hminus : t.head? = some '-'
    · obtain ⟨cs, rfl⟩ := List.head?_eq_some_iff.mp hminus
      rfl
    · simp [body, negative, hminus]
  have hsplit : body = whole ++ body.dropWhile Text.isDigit := List.takeWhile_append_dropWhile.symm
  have hdigits : ∀ c ∈ whole, Text.isDigit c = true := List.all_eq_true.mp List.all_takeWhile
  split at h
  · cases h
  · next hempty =>
    have hne : whole ≠ [] := fun hnil => hempty (List.isEmpty_iff.mpr hnil)
    split at h
    · next hrest =>
      obtain rfl := Option.some.inj h
      rw [hrest] at hsplit
      exact ⟨ht [] hsplit, hne, hdigits, nofun, nofun⟩
    · next c fraction hrest =>
      split at h
      · next hpoint =>
        obtain ⟨rfl, hfraction, hall⟩ := hpoint
        obtain rfl := Option.some.inj h
        rw [hrest] at hsplit
        refine ⟨ht ('.' :: fraction) hsplit, hne, hdigits, fun hnil => ?_, fun f hf => ?_⟩
        · rw [Option.some.inj hnil] at hfraction
          exact absurd hfraction (by decide)
        · rw [← Option.some.inj hf]
          exact List.all_eq_true.mp hall
      · cases h

/-- **A number is read exactly if its text is its parts**, and they are what they have to be. -/
theorem numeral?_eq_some_iff {n : Numeral} : numeral? t = some n ↔ t = n.text ∧ n.Formed :=
  ⟨numeral?_eq_some, fun ⟨ht, hformed⟩ => ht ▸ hformed.numeral?_text⟩

/-! ## Scalars -/

/-- **What is read as a string or a number is a token.** -/
theorem token_of_scalar? (h : scalar? t = some v) : Token t v := by
  rw [scalar?] at h
  split at h
  · next s hs =>
    obtain rfl := Option.some.inj h
    cases t with
    | nil => cases hs
    | cons quote u =>
      rw [string?] at hs
      split at hs
      · next hquote =>
        obtain ⟨items, rfl, hitems⟩ := Items.exists_of_stringRest? hs
        exact .string (by simpa [Quoting.isQuote] using hquote) hitems
      · cases hs
  · split at h
    · cases h
    · next negative whole hnumeral =>
      obtain ⟨n, hn, rfl⟩ := Option.map_eq_some_iff.mp h
      obtain ⟨rfl, hne, -⟩ := numeral?_eq_some hnumeral
      obtain ⟨hdigits, hn⟩ := integerValue?_eq_some_iff.mp hn
      have htoken : Token (sign negative ++ whole) (.integer n) := .integer hne hdigits hn
      rwa [← List.append_nil whole] at htoken
    · next negative whole fraction hnumeral =>
      obtain ⟨x, hx, rfl⟩ := Option.map_eq_some_iff.mp h
      obtain ⟨rfl, hne, -, hfraction, -⟩ := numeral?_eq_some hnumeral
      refine .double hne (fun hnil => hfraction (hnil ▸ rfl)) ?_ hx
      rw [doubleValue?] at hx
      split at hx
      · cases hx
      · next hvalue => exact (digitsValue?_eq_some_iff.mp hvalue).1

/-- **A string literal in a line is read.** -/
theorem Items.scalar? (h : Items quote t s) (hquote : Quoting.isQuote quote = true)
    (hline : '\n' ∉ t) :
    Literal.scalar? (quote :: (t ++ [quote])) = some (.string (String.ofList s)) := by
  have hstring : string? (quote :: (t ++ [quote])) = some s := by
    rw [string?, if_pos hquote, h.stringRest? hline]
  rw [Literal.scalar?, hstring]

variable {negative : Bool} {digits whole fraction : Text}

theorem plain_integer (negative : Bool) (hne : digits ≠ [])
    (hdigits : ∀ c ∈ digits, c.isDigit = true) :
    Numeral.Plain ⟨negative, digits, none⟩ ∧
      Numeral.text ⟨negative, digits, none⟩ = sign negative ++ digits :=
  ⟨⟨hne, hdigits, nofun, nofun⟩, congrArg _ (List.append_nil digits)⟩

/-- **Digits that denote a number of 64 bits are read.** -/
theorem scalar?_integer {n : Int64} (hne : digits ≠ []) (hdigits : ∀ c ∈ digits, c.isDigit = true)
    (hn : n.toInt = if negative then -(Nat.ofDigitChars 10 digits 0 : Int)
      else Nat.ofDigitChars 10 digits 0) :
    scalar? (sign negative ++ digits) = some (.integer n) := by
  obtain ⟨hplain, htext⟩ := plain_integer negative hne hdigits
  have hscalar := hplain.scalar?_text
  rw [htext] at hscalar
  rw [hscalar]
  dsimp only
  rw [integerValue?_eq_some_iff.mpr ⟨hdigits, hn⟩]
  rfl

/-- **Digits around a point are read.** -/
theorem scalar?_double {x : Float} (hwhole : whole ≠ []) (hfraction : fraction ≠ [])
    (hdigits : ∀ c ∈ whole ++ fraction, c.isDigit = true)
    (hx : doubleValue? negative whole fraction = some x) :
    scalar? (sign negative ++ (whole ++ '.' :: fraction)) = some (.double x) := by
  have hscalar := (Numeral.plain_decimal negative hwhole hfraction hdigits).scalar?_text
  dsimp only at hscalar
  rw [hx] at hscalar
  exact hscalar

end BraceTree.Literal
