import Mathlib.Computability.Language
import BraceTree.Expression
import BraceTree.Proofs.Text.Bytewise

/-!
# What a string literal is

There are two views of a string literal. A value is read from a text that is one literal from the
first character to the last one, and such texts are the words of a regular language
(`Literal.strings`). A scan for structure does not read values. It goes along the bytes and says of
each whether it belongs to a literal, and some bytes are one literal for it if it is in the literal
behind each of them but the last one (`ByteReader.IsLiteral`).

On one line the two are the same (`Literal.isLiteral_iff`), so what a scan passes over as one
literal is what is read as one string afterwards. A newline tells them apart. The language has words
with newlines in them, since only behind a backslash a newline is left out, but a scan is in no
literal any more when it comes to one.
-/

open scoped Computability

namespace BraceTree

/-! ## The language of string literals -/

namespace Literal

/-- A character that says itself. -/
def plainItem (quote : Char) : Language Char := {t | ∃ c, c ≠ quote ∧ c ≠ '\\' ∧ t = [c]}

/-- A backslash and a character behind it, which is no newline. -/
def escapedItem : Language Char := {t | ∃ c, c ≠ '\n' ∧ t = ['\\', c]}

/-- The literals that one of the quotes opens and closes. -/
def quotedBy (quote : Char) : Language Char :=
  {[quote]} * ((plainItem quote + escapedItem)∗ * {[quote]})

/-- **The string literals.** -/
def strings : Language Char := quotedBy '"' + quotedBy '\''

variable {quote c d : Char} {t u : Text}

theorem stringRest?_char (hquote : c ≠ quote) (hbackslash : c ≠ '\\') (u : Text) :
    stringRest? quote (c :: u) = (stringRest? quote u).map (c :: ·) := by
  cases u with
  | nil => exact if_neg hquote
  | cons d u => rw [stringRest?, if_neg hbackslash, if_neg hquote]

theorem stringRest?_escaped (hd : d ≠ '\n') (u : Text) :
    stringRest? quote ('\\' :: d :: u) = (stringRest? quote u).map (unescapeChar d :: ·) := by
  rw [stringRest?, if_pos rfl, if_neg hd]

theorem append_mem_kstar {l : Language Char} (ht : t ∈ l) (hu : u ∈ l∗) : t ++ u ∈ l∗ :=
  (show l * l∗ ≤ l∗ from mul_kstar_le_kstar) (Language.append_mem_mul ht hu)

/-- What is read as the rest of a literal ends with the quote. -/
theorem exists_of_isSome_stringRest? (h : (stringRest? quote u).isSome = true) :
    ∃ t ∈ (plainItem quote + escapedItem)∗, t ++ [quote] = u := by
  fun_induction stringRest? quote u with
  | case1 | case3 | case4 | case6 => exact absurd h Bool.false_ne_true
  | case2 => exact ⟨[], Language.nil_mem_kstar _, rfl⟩
  | case5 d u hd ih =>
    obtain ⟨t, ht, rfl⟩ := ih (Option.isSome_map .. ▸ h)
    have hitem : ['\\', d] ∈ plainItem quote + escapedItem := .inr ⟨d, hd, rfl⟩
    exact ⟨['\\', d] ++ t, append_mem_kstar hitem ht, rfl⟩
  | case7 c d u hbackslash hquote ih =>
    obtain ⟨t, ht, heq⟩ := ih (Option.isSome_map .. ▸ h)
    have hitem : [c] ∈ plainItem quote + escapedItem := .inl ⟨c, hquote, hbackslash, rfl⟩
    exact ⟨[c] ++ t, append_mem_kstar hitem ht, congrArg _ heq⟩

/-- Whatever stands between the quotes is read. -/
theorem isSome_stringRest?_of_mem (h : t ∈ (plainItem quote + escapedItem)∗) :
    (stringRest? quote (t ++ [quote])).isSome = true := by
  obtain ⟨items, rfl, hitems⟩ := Language.mem_kstar.mp h
  clear h
  induction items with
  | nil =>
    rw [List.flatten_nil, List.nil_append, stringRest?, if_pos rfl]
    rfl
  | cons item items ih =>
    obtain ⟨hitem, hrest⟩ := List.forall_mem_cons.mp hitems
    rw [List.flatten_cons, List.append_assoc]
    rcases (Language.mem_add _ _ _).mp hitem with ⟨c, hquote, hbackslash, rfl⟩ | ⟨c, hc, rfl⟩
    · rw [List.singleton_append, stringRest?_char hquote hbackslash, Option.isSome_map]
      exact ih hrest
    · rw [List.cons_append, List.singleton_append, stringRest?_escaped hc, Option.isSome_map]
      exact ih hrest

theorem mem_quotedBy_iff : c :: t ∈ quotedBy quote ↔
    c = quote ∧ (stringRest? quote t).isSome = true := by
  constructor
  · intro h
    obtain ⟨_, rfl, _, hrest, heq⟩ := Language.mem_mul.mp h
    obtain ⟨items, hitems, _, rfl, rfl⟩ := Language.mem_mul.mp hrest
    obtain ⟨rfl, rfl⟩ := List.cons.inj heq
    exact ⟨rfl, isSome_stringRest?_of_mem hitems⟩
  · rintro ⟨rfl, h⟩
    obtain ⟨items, hitems, rfl⟩ := exists_of_isSome_stringRest? h
    exact Language.append_mem_mul (a := [c]) rfl (Language.append_mem_mul hitems rfl)

/-- **The texts that are read as a string are the string literals.** -/
theorem mem_strings_iff : t ∈ strings ↔ (string? t).isSome = true := by
  cases t with
  | nil =>
    have hnil : ∀ quote, [] ∉ quotedBy quote := fun quote h => by
      obtain ⟨_, rfl, _, _, heq⟩ := Language.mem_mul.mp h
      exact List.cons_ne_nil _ _ heq
    exact iff_of_false (fun h => h.elim (hnil _) (hnil _)) Bool.false_ne_true
  | cons c t =>
    rw [strings, Language.mem_add, mem_quotedBy_iff, mem_quotedBy_iff, string?]
    split
    · next hc => rcases ByteReader.isQuote_iff.mp hc with rfl | rfl <;> simp
    · next hc =>
      obtain ⟨hdouble, hsingle⟩ := not_or.mp (mt ByteReader.isQuote_iff.mpr hc)
      simp [hdouble, hsingle]

end Literal

/-! ## Literals for a reader of bytes -/

namespace ByteReader

/-- **Reading up to the end of a literal**: all bytes belong to it, and the reader is in it behind
each of them but the last one. -/
def Closing (xs : List (ByteReader × Bool)) : Prop :=
  ∃ inner last, xs = inner ++ [last] ∧ (∀ x ∈ inner, x.1.quote ≠ none ∧ x.2 = true) ∧
    last.1.quote = none ∧ last.2 = true

/-- **Some bytes that are one literal**: the first one opens it, and the last one is the first that
leaves the reader outside again. -/
structure IsLiteral (bs : List UInt8) : Prop where
  /-- There is a byte to open the literal and another one to close it. -/
  two_le : 2 ≤ bs.length
  /-- The literal goes as far as the bytes. -/
  closing : Closing (fresh.trace bs)

variable {q : Quoting} {quote c : Char} {t u : Text} {x : ByteReader × Bool}
  {xs : List (ByteReader × Bool)}

theorem not_closing_nil : ¬ Closing [] := fun ⟨_, _, h, _⟩ => by simp at h

theorem closing_cons_iff :
    Closing (x :: xs) ↔ x.2 = true ∧ if x.1.quote = none then xs = [] else Closing xs := by
  constructor
  · rintro ⟨inner, last, heq, hinner, hlast⟩
    cases inner with
    | nil =>
      obtain ⟨rfl, rfl⟩ := List.cons.inj heq
      exact ⟨hlast.2, by rw [if_pos hlast.1]⟩
    | cons y inner =>
      obtain ⟨rfl, rfl⟩ := List.cons.inj heq
      obtain ⟨hx, hinner⟩ := List.forall_mem_cons.mp hinner
      exact ⟨hx.2, by rw [if_neg hx.1]; exact ⟨inner, last, rfl, hinner, hlast⟩⟩
  · rintro ⟨hflag, h⟩
    split at h
    · next hquote =>
      exact ⟨[], x, by rw [h]; rfl, fun _ hy => absurd hy List.not_mem_nil, hquote, hflag⟩
    · next hquote =>
      obtain ⟨inner, last, rfl, hinner, hlast⟩ := h
      exact ⟨x :: inner, last, rfl, List.forall_mem_cons.mpr ⟨⟨hquote, hflag⟩, hinner⟩, hlast⟩

theorem closing_replicate_iff (hquote : x.1.quote ≠ none) (hflag : x.2 = true) (n : Nat) :
    Closing (List.replicate n x ++ xs) ↔ Closing xs := by
  induction n with
  | zero => rfl
  | succ n ih =>
    rw [List.replicate_succ, List.cons_append, closing_cons_iff, if_neg hquote, ih,
      and_iff_right hflag]

theorem quote_read_eq_none_iff : (q.read c).1.quote = none ↔ (q.step c).1 = .outside := by
  rw [Quoting.read]
  cases (q.step c).1 <;> simp [Quoting.bytewise]

theorem trace_eq_nil_iff {r : ByteReader} : r.trace (Text.utf8 t) = [] ↔ t = [] := by
  cases t with
  | nil => exact iff_of_true rfl rfl
  | cons c t =>
    obtain ⟨b, bs, hbytes⟩ := List.exists_cons_of_ne_nil (String.utf8EncodeChar_ne_nil (c := c))
    rw [Text.utf8_cons, hbytes]
    exact iff_of_false (List.cons_ne_nil _ _) (List.cons_ne_nil _ _)

/-- Only a quote closes a literal. -/
theorem isQuote_of_step (hq : q.Proper) (h : q.step c = (.outside, true)) :
    Quoting.isQuote c = true := by
  fun_cases Quoting.step q c with
  | case5 => exact hq
  | _ => simp_all [Quoting.step]

theorem utf8Size_of_isQuote (h : Quoting.isQuote c = true) : c.utf8Size = 1 := by
  rw [← String.length_utf8EncodeChar, Text.utf8EncodeChar_of_lt (toNat_lt_of_isQuote h)]
  rfl

/-- A text that is the rest of a literal for a reader who stands at `q`. -/
def Ends (q : Quoting) (t : Text) : Prop := Closing (q.bytewise.trace t.utf8)

theorem not_ends_nil (q : Quoting) : ¬ Ends q [] := not_closing_nil

/-- **A reader of bytes goes from character to character.** -/
theorem ends_cons_iff (hq : q.Proper) : Ends q (c :: t) ↔
    (q.step c).2 = true ∧ if (q.step c).1 = .outside then t = [] else Ends (q.step c).1 t := by
  obtain ⟨n, hn⟩ : ∃ n, c.utf8Size = n + 1 := Nat.exists_eq_add_one.mpr c.utf8Size_pos
  rw [Ends, Text.utf8_cons, trace_char hq, hn, List.replicate_succ, List.cons_append,
    closing_cons_iff]
  refine and_congr_right fun (hflag : (q.step c).2 = true) => ?_
  by_cases hout : (q.step c).1 = .outside
  · have hone := utf8Size_of_isQuote (isQuote_of_step hq (Prod.ext hout hflag))
    obtain rfl : n = 0 := by omega
    rw [if_pos hout, if_pos (quote_read_eq_none_iff.mpr hout)]
    exact trace_eq_nil_iff
  · have hquote := mt quote_read_eq_none_iff.mp hout
    rw [if_neg hout, if_neg hquote]
    exact closing_replicate_iff hquote hflag n

/-- A quote opens a literal. -/
theorem ends_outside_iff :
    Ends .outside (c :: t) ↔ Quoting.isQuote c = true ∧ Ends (.inside c) t := by
  rw [ends_cons_iff (q := .outside) trivial, Quoting.step]
  by_cases hc : Quoting.isQuote c = true
  · rw [if_pos hc]
    simp [hc]
  · rw [if_neg hc]
    exact iff_of_false (fun h => Bool.false_ne_true h.1) fun h => hc h.1

/-- A literal goes on up to its quote, and a backslash takes the next character along. -/
theorem ends_inside_iff (hquote : Quoting.isQuote quote = true) : Ends (.inside quote) (c :: t) ↔
    c ≠ '\n' ∧ if c = '\\' then Ends (.escaped quote) t else if c = quote then t = []
      else Ends (.inside quote) t := by
  rw [ends_cons_iff (q := .inside quote) hquote, Quoting.step]
  by_cases hnewline : c = '\n'
  · rw [if_pos hnewline]
    exact iff_of_false (fun h => Bool.false_ne_true h.1) fun h => h.1 hnewline
  · rw [if_neg hnewline]
    refine Iff.trans ?_ (and_iff_right hnewline).symm
    by_cases hbackslash : c = '\\'
    · rw [if_pos hbackslash, if_pos hbackslash]
      simp
    · rw [if_neg hbackslash, if_neg hbackslash]
      by_cases hc : c = quote
      · rw [if_pos hc, if_pos hc]
        simp
      · rw [if_neg hc, if_neg hc]
        simp

theorem ends_escaped_iff (hquote : Quoting.isQuote quote = true) :
    Ends (.escaped quote) (c :: t) ↔ c ≠ '\n' ∧ Ends (.inside quote) t := by
  rw [ends_cons_iff (q := .escaped quote) hquote, Quoting.step]
  by_cases hnewline : c = '\n' <;> simp [hnewline]

/-- **The rest of a literal is what is read as one**, on one line. -/
theorem ends_iff (hquote : Quoting.isQuote quote = true) :
    Ends (.inside quote) u ↔ '\n' ∉ u ∧ (Literal.stringRest? quote u).isSome = true := by
  have hmark : quote ≠ '\n' ∧ quote ≠ '\\' := by
    constructor <;> rintro rfl <;> exact absurd hquote (by decide)
  fun_induction Literal.stringRest? quote u with
  | case1 => exact iff_of_false (not_ends_nil _) fun h => Bool.false_ne_true h.2
  | case2 =>
    rw [ends_inside_iff hquote, if_neg hmark.2, if_pos rfl, List.mem_singleton]
    exact and_congr ne_comm (iff_of_true rfl rfl)
  | case3 c hc =>
    rw [ends_inside_iff hquote, if_neg hc]
    refine iff_of_false (fun h => ?_) fun h => Bool.false_ne_true h.2
    split at h
    · exact not_ends_nil _ h.2
    · exact not_ends_nil _ h.2
  | case4 u =>
    rw [ends_inside_iff hquote, if_pos rfl, ends_escaped_iff hquote]
    exact iff_of_false (fun h => h.2.1 rfl) fun h => Bool.false_ne_true h.2
  | case5 d u hd ih =>
    have hrest : Ends (.inside quote) u ↔ _ := ih
    rw [ends_inside_iff hquote, if_pos rfl, ends_escaped_iff hquote, hrest, Option.isSome_map]
    simp [hd, ne_comm]
  | case6 d u hbackslash =>
    rw [ends_inside_iff hquote, if_neg hbackslash, if_pos rfl]
    exact iff_of_false (fun h => List.cons_ne_nil _ _ h.2) fun h => Bool.false_ne_true h.2
  | case7 c d u hbackslash hc ih =>
    have hrest : Ends (.inside quote) (d :: u) ↔ _ := ih
    rw [ends_inside_iff hquote, if_neg hbackslash, if_neg hc, hrest, Option.isSome_map,
      List.mem_cons (b := c), not_or, and_assoc, ne_comm]

/-- **What is one literal for a reader of bytes is read as a string**, and it has no newline. -/
theorem isLiteral_utf8_iff :
    IsLiteral t.utf8 ↔ '\n' ∉ t ∧ (Literal.string? t).isSome = true := by
  cases t with
  | nil => exact iff_of_false (fun h => absurd h.two_le (by decide)) fun h => Bool.false_ne_true h.2
  | cons c t =>
    constructor
    · intro h
      obtain ⟨hquote, hends⟩ := ends_outside_iff.mp h.closing
      obtain ⟨hline, hsome⟩ := (ends_iff hquote).mp hends
      refine ⟨List.not_mem_cons_of_ne_of_not_mem ?_ hline, ?_⟩
      · rintro rfl
        exact absurd hquote (by decide)
      · rwa [Literal.string?, if_pos hquote]
    · rintro ⟨hline, hsome⟩
      rw [Literal.string?] at hsome
      split at hsome
      · next hquote =>
        refine ⟨?_, ends_outside_iff.mpr ⟨hquote, (ends_iff hquote).mpr
          ⟨List.not_mem_of_not_mem_cons hline, hsome⟩⟩⟩
        obtain ⟨d, t, rfl⟩ := List.exists_cons_of_ne_nil (show t ≠ [] by rintro rfl; cases hsome)
        have hc := c.utf8Size_pos
        have hd := d.utf8Size_pos
        rw [Text.length_utf8, Text.bytes_cons, Text.bytes_cons]
        omega
      · cases hsome

end ByteReader

/-! ## Values that are strings -/

variable {t u : Text} {s : String}

namespace Literal

theorem scalar?_eq_string_iff : scalar? t = some (.string s) ↔ string? t = some s.toList := by
  rw [scalar?]
  split
  · next u hu =>
    rw [hu, Option.some.injEq, Option.some.injEq, Value.string.injEq]
    exact ⟨fun h => by rw [← h, String.toList_ofList], fun h => by rw [h, String.ofList_toList]⟩
  · next hnone =>
    refine iff_of_false (fun h => ?_) (by rw [hnone]; exact nofun)
    split at h
    · cases h
    · obtain ⟨_, _, hn⟩ := Option.map_eq_some_iff.mp h
      cases hn
    · obtain ⟨_, _, hx⟩ := Option.map_eq_some_iff.mp h
      cases hx

theorem boolean?_ne_string : boolean? t ≠ some (.string s) := by
  rw [boolean?]
  split
  · nofun
  · split <;> nofun

theorem collection?_ne_string {read : Text → Option Value} :
    collection? read t ≠ some (.string s) := by
  intro h
  rw [collection?] at h
  split at h
  · cases h
  · split at h
    · cases h
    · dsimp only at h
      split at h
      · obtain ⟨_, _, hv⟩ := Option.map_eq_some_iff.mp h
        cases hv
      · split at h
        · obtain ⟨_, _, hv⟩ := Option.map_eq_some_iff.mp h
          cases hv
        · cases h

end Literal

/-- **A right-hand side is a string if its trimmed text is read as one.** -/
theorem Expression.ofText?_eq_string_iff :
    ofText? t = some (.literal (.string s)) ↔ Literal.string? (Text.trim t) = some s.toList := by
  rw [← Literal.scalar?_eq_string_iff, ofText?]
  split
  · next v hv => rw [hv, Option.some.injEq, Option.some.injEq, Expression.literal.injEq]
  · next hnone =>
    refine iff_of_false (fun h => ?_) (by rw [hnone]; exact nofun)
    split at h
    · cases h
    · split at h
      · cases h
      · split at h
        · next v hv =>
          obtain rfl := Expression.literal.inj (Option.some.inj h)
          exact Literal.boolean?_ne_string hv
        · obtain ⟨v, hv, heq⟩ := Option.map_eq_some_iff.mp h
          obtain rfl := Expression.literal.inj heq
          exact Literal.collection?_ne_string hv

/-- **The two views of a string literal.** A reader of bytes takes the same bytes for parts of
literals as the reader of characters that all scans share. The texts that are read as a string are
the words of the language of string literals, and those of them that have no newline are the texts
whose bytes are one literal. So a right-hand side without newlines is a string exactly if the bytes
of its trimmed text are one literal. -/
theorem Literal.isLiteral_iff (t : Text) :
    ByteReader.fresh.flags t.utf8 = t.quotedBytes ∧
    (t ∈ strings ↔ (string? t).isSome = true) ∧
    (ByteReader.IsLiteral t.utf8 ↔ '\n' ∉ t ∧ t ∈ strings) ∧
    (ByteReader.IsLiteral (Text.trim t).utf8 ↔
      '\n' ∉ Text.trim t ∧ ∃ s, Expression.ofText? t = some (.literal (.string s))) := by
  refine ⟨ByteReader.flags_eq_quotedBytes t, mem_strings_iff, ?_, ?_⟩
  · rw [ByteReader.isLiteral_utf8_iff, mem_strings_iff]
  · rw [ByteReader.isLiteral_utf8_iff]
    refine and_congr_right fun _ => ?_
    constructor
    · intro h
      obtain ⟨u, hu⟩ := Option.isSome_iff_exists.mp h
      refine ⟨String.ofList u, Expression.ofText?_eq_string_iff.mpr ?_⟩
      rw [hu, String.toList_ofList]
    · rintro ⟨s, hs⟩
      rw [Expression.ofText?_eq_string_iff.mp hs]
      rfl

end BraceTree
