import BraceTree.Proofs.Text.Closed
import BraceTree.Proofs.Text.Masked

/-!
# Reading literals byte by byte

A source is stored in bytes, and what belongs to its literals can be read off the bytes without
putting characters together. The reader of bytes that is given here keeps the byte of the quote and
whether a backslash came last, and takes no notice of where a character ends.

It reads what the reader of characters does (`ByteReader.trace_char`): every byte of a character
leaves it where the character leaves the other one. The bytes that either of them looks for stand
for characters of one byte and are in no other character (`Text.eq_toUInt8_iff`), so that a longer
character is passed over, and if it comes after a backslash, this ends with its first byte. So a
byte belongs to a literal exactly if its character does (`ByteReader.flags_eq_quotedBytes`).
-/

namespace BraceTree

namespace Text

variable {c d : Char} {b : UInt8}

/-! ## The bytes of a text -/

/-- The bytes of a text. -/
def utf8 (t : Text) : List UInt8 := t.flatMap String.utf8EncodeChar

theorem utf8_cons (c : Char) (t : Text) : utf8 (c :: t) = String.utf8EncodeChar c ++ utf8 t := rfl

theorem length_utf8 (t : Text) : (utf8 t).length = bytes t := by
  induction t with
  | nil => rfl
  | cons c t ih => rw [utf8_cons, List.length_append, String.length_utf8EncodeChar, ih, bytes_cons]

theorem utf8EncodeChar_of_lt (h : c.toNat < 128) : String.utf8EncodeChar c = [c.toUInt8] :=
  if_pos (show c.val.toNat ≤ 127 from Nat.le_of_lt_succ h)

/-- The bytes of a longer character stand for no characters by themselves. -/
theorem le_of_mem_utf8EncodeChar (hc : 128 ≤ c.toNat) (hb : b ∈ String.utf8EncodeChar c) :
    128 ≤ b.toNat := by
  have hc : 128 ≤ c.val.toNat := hc
  unfold String.utf8EncodeChar at hb
  dsimp only at hb
  rw [if_neg (by omega)] at hb
  split at hb
  · simp only [List.mem_cons, List.not_mem_nil, or_false] at hb
    rcases hb with rfl | rfl <;> rw [UInt8.toNat_ofNat'] <;> omega
  · split at hb
    · simp only [List.mem_cons, List.not_mem_nil, or_false] at hb
      rcases hb with rfl | rfl | rfl <;> rw [UInt8.toNat_ofNat'] <;> omega
    · simp only [List.mem_cons, List.not_mem_nil, or_false] at hb
      rcases hb with rfl | rfl | rfl | rfl <;> rw [UInt8.toNat_ofNat'] <;> omega

theorem toNat_toUInt8 (h : c.toNat < 128) : c.toUInt8.toNat = c.toNat := by
  have h : c.val.toNat < 128 := h
  show c.val.toUInt8.toNat = c.val.toNat
  rw [UInt32.toNat_toUInt8]
  omega

/-- **A byte of a character stands for that character or for none.** -/
theorem eq_toUInt8_iff (hb : b ∈ String.utf8EncodeChar c) (hd : d.toNat < 128) :
    b = d.toUInt8 ↔ c = d := by
  rw [← UInt8.toNat_inj, toNat_toUInt8 hd]
  by_cases hc : c.toNat < 128
  · rw [utf8EncodeChar_of_lt hc, List.mem_singleton] at hb
    rw [hb, toNat_toUInt8 hc, Char.toNat_inj]
  · have hle := le_of_mem_utf8EncodeChar (Nat.le_of_not_lt hc) hb
    refine ⟨fun h => ?_, fun h => absurd (h ▸ hd) hc⟩
    omega

end Text

/-! ## The reader of bytes -/

/-- Where a reader of bytes stands with respect to string literals. -/
structure ByteReader where
  /-- The byte that closes the literal, if the reader is in one. -/
  quote : Option UInt8
  /-- Whether the next byte comes right after a backslash. -/
  escaped : Bool
  deriving DecidableEq

namespace ByteReader

/-- A reader before the first byte. -/
def fresh : ByteReader := ⟨none, false⟩

/-- Reads one byte: where the reader stands after it, and whether the byte belongs to a literal. -/
def consume (r : ByteReader) (b : UInt8) : ByteReader × Bool :=
  match r.quote with
  | none =>
    if b = '"'.toUInt8 ∨ b = '\''.toUInt8 then ({ r with quote := some b }, true) else (r, false)
  | some quote =>
    if b = '\n'.toUInt8 then (⟨none, false⟩, false)
    else if r.escaped then ({ r with escaped := false }, true)
    else if b = '\\'.toUInt8 then ({ r with escaped := true }, true)
    else if b = quote then ({ r with quote := none }, true)
    else (r, true)

/-- What reading each of some bytes gives. -/
def trace (r : ByteReader) : List UInt8 → List (ByteReader × Bool)
  | [] => []
  | b :: bs => r.consume b :: trace (r.consume b).1 bs

/-- For each of some bytes, whether it belongs to a literal. -/
def flags (r : ByteReader) (bs : List UInt8) : List Bool := (r.trace bs).map (·.2)

end ByteReader

/-- A reader of characters as a reader of bytes. -/
def Quoting.bytewise : Quoting → ByteReader
  | .outside => ⟨none, false⟩
  | .inside quote => ⟨some quote.toUInt8, false⟩
  | .escaped quote => ⟨some quote.toUInt8, true⟩

/-- What reading a character gives, for a reader of bytes. -/
def Quoting.read (q : Quoting) (c : Char) : ByteReader × Bool :=
  ((q.step c).1.bytewise, (q.step c).2)

namespace ByteReader

variable {q : Quoting} {c : Char} {b : UInt8} {t : Text}

theorem isQuote_iff : Quoting.isQuote c = true ↔ c = '"' ∨ c = '\'' := by
  rw [Quoting.isQuote, Bool.or_eq_true, beq_iff_eq, beq_iff_eq]

theorem toNat_lt_of_isQuote (h : Quoting.isQuote c = true) : c.toNat < 128 := by
  rcases isQuote_iff.mp h with rfl | rfl <;> decide

/-- **A byte of a character is read as the character.** -/
theorem consume_eq (hq : q.Proper) (hb : b ∈ String.utf8EncodeChar c) :
    q.bytewise.consume b = q.read c := by
  have hmark : ∀ d : Char, d.toNat < 128 → (b = d.toUInt8 ↔ c = d) := fun d =>
    Text.eq_toUInt8_iff hb
  cases q with
  | outside =>
    have hquote : b = '"'.toUInt8 ∨ b = '\''.toUInt8 ↔ Quoting.isQuote c = true := by
      rw [hmark _ (by decide), hmark _ (by decide), isQuote_iff]
    show (if b = '"'.toUInt8 ∨ b = '\''.toUInt8 then _ else _) = _
    rw [Quoting.read, Quoting.step]
    by_cases hc : Quoting.isQuote c = true
    · rw [if_pos (hquote.mpr hc), if_pos hc, (hmark c (toNat_lt_of_isQuote hc)).mpr rfl]
      rfl
    · rw [if_neg (mt hquote.mp hc), if_neg hc]
  | inside quote =>
    -- the three bytes that are looked for in a literal, in the order of both readers
    have hnewline := hmark '\n' (by decide)
    have hbackslash := hmark '\\' (by decide)
    have hquote := hmark quote (toNat_lt_of_isQuote hq)
    show (if b = '\n'.toUInt8 then _ else if b = '\\'.toUInt8 then _
      else if b = quote.toUInt8 then _ else _) = _
    rw [Quoting.read, Quoting.step]
    by_cases hc : c = '\n'
    · rw [if_pos (hnewline.mpr hc), if_pos hc]
      rfl
    · rw [if_neg (mt hnewline.mp hc), if_neg hc]
      by_cases hc : c = '\\'
      · rw [if_pos (hbackslash.mpr hc), if_pos hc]
        rfl
      · rw [if_neg (mt hbackslash.mp hc), if_neg hc]
        by_cases hc : c = quote
        · rw [if_pos (hquote.mpr hc), if_pos hc]
          rfl
        · rw [if_neg (mt hquote.mp hc), if_neg hc]
  | escaped quote =>
    have hnewline := hmark '\n' (by decide)
    show (if b = '\n'.toUInt8 then _ else _) = _
    rw [Quoting.read, Quoting.step]
    by_cases hc : c = '\n'
    · rw [if_pos (hnewline.mpr hc), if_pos hc]
      rfl
    · rw [if_neg (mt hnewline.mp hc), if_neg hc]
      rfl

/-- A character of more than one byte may as well come twice. -/
theorem step_step (hq : q.Proper) (hc : 128 ≤ c.toNat) : (q.step c).1.step c = q.step c := by
  have hne : ∀ d : Char, d.toNat < 128 → c ≠ d := fun d hd h => by
    rw [h] at hc
    omega
  cases q with
  | outside =>
    have hquote : ¬ Quoting.isQuote c = true := fun h => by
      have := toNat_lt_of_isQuote h
      omega
    rw [Quoting.step, if_neg hquote, Quoting.step, if_neg hquote]
  | inside quote | escaped quote =>
    have hquote : c ≠ quote := hne quote (toNat_lt_of_isQuote hq)
    simp only [Quoting.step, if_neg (hne '\n' (by decide)), if_neg (hne '\\' (by decide)),
      if_neg hquote]

/-- If a character leaves the reader where it stands, so does any number of its bytes. -/
theorem trace_of_stays (hq : q.Proper) (hstays : (q.step c).1 = q) (bs : List UInt8)
    {cs : List UInt8} (hcs : ∀ b ∈ cs, b ∈ String.utf8EncodeChar c) :
    q.bytewise.trace (cs ++ bs) =
      List.replicate cs.length (q.read c) ++ q.bytewise.trace bs := by
  induction cs with
  | nil => rfl
  | cons b cs ih =>
    obtain ⟨hb, hcs⟩ := List.forall_mem_cons.mp hcs
    have hleft : (q.read c).1 = q.bytewise := congrArg Quoting.bytewise hstays
    rw [List.cons_append, trace, consume_eq hq hb, hleft]
    exact congrArg _ (ih hcs)

/-- **Each byte of a character leaves the reader where the character does.** -/
theorem trace_char (hq : q.Proper) (c : Char) (bs : List UInt8) :
    q.bytewise.trace (String.utf8EncodeChar c ++ bs) =
      List.replicate c.utf8Size (q.read c) ++ (q.step c).1.bytewise.trace bs := by
  rw [← String.length_utf8EncodeChar]
  by_cases hc : c.toNat < 128
  · have hbytes := Text.utf8EncodeChar_of_lt hc
    have hread := consume_eq hq (hbytes ▸ List.mem_singleton_self _ : c.toUInt8 ∈ _)
    rw [hbytes]
    show q.bytewise.consume _ :: trace (q.bytewise.consume _).1 bs = _
    rw [hread]
    rfl
  · -- behind the first byte the reader stands where it does not matter how many follow
    have hagain := step_step hq (Nat.le_of_not_lt hc)
    have hread : (q.step c).1.read c = q.read c := by
      rw [Quoting.read, hagain]
      rfl
    obtain ⟨b, cs, hbytes⟩ := List.exists_cons_of_ne_nil (String.utf8EncodeChar_ne_nil (c := c))
    have hmem : ∀ b' ∈ b :: cs, b' ∈ String.utf8EncodeChar c := hbytes ▸ fun _ h => h
    obtain ⟨hb, hcs⟩ := List.forall_mem_cons.mp hmem
    have hrest := trace_of_stays (hq.step c) (congrArg Prod.fst hagain) bs hcs
    rw [hread] at hrest
    rw [hbytes, List.cons_append, trace, consume_eq hq hb]
    exact congrArg _ hrest

/-- **A byte belongs to a literal if its character does.** -/
theorem flags_eq_quotedBytes (t : Text) : fresh.flags t.utf8 = t.quotedBytes := by
  suffices h : ∀ q : Quoting, q.Proper →
      q.bytewise.flags t.utf8 = (Text.glyphsFrom q t).flatMap Glyph.quotedBytes from
    h .outside trivial
  induction t with
  | nil => exact fun _ _ => rfl
  | cons c t ih =>
    intro q hq
    rw [flags, Text.utf8_cons, trace_char hq, List.map_append, List.map_replicate]
    exact congrArg _ (ih _ (hq.step c))

example : fresh.flags (Text.utf8 "'\\é'a".toList) = [true, true, true, true, true, false] := by
  decide

end ByteReader
end BraceTree
