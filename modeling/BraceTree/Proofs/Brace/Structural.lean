import BraceTree.Proofs.Hierarchy.Bracketed
import BraceTree.Proofs.Text.Reading

/-!
# What becomes of the braces of a source

A brace is structural when it is still there after every string literal was replaced by blanks
(`Brace.structural`). The structural braces alone decide whether a source has blocks and which: the
blocks are the matched pairs if the braces are balanced, and if they are not, the brace that is
reported is the first one that closes what nothing opened, or else the last one that nothing closed.

The run of the stack has one of these three ends (`Brace.pair_cases`), and each end says of the
whole list what the braces before, between and behind look like.
-/

namespace BraceTree

namespace Text

/-- What stands outside of the string literals of a text. -/
def unquoted (t : Text) : Text := Glyph.chars (t.glyphs.filter fun g => !g.quoted)

end Text

namespace Brace

/-- The character that a brace is. -/
def char (b : Brace) : Char := if b.isOpen then '{' else '}'

/-- All braces of a text, the first character of which stands at the given position. -/
def inText : (offset : Nat) → Text → List Brace
  | _, [] => []
  | offset, c :: cs =>
    if c = '{' then ⟨offset, true⟩ :: inText (offset + c.utf8Size) cs
    else if c = '}' then ⟨offset, false⟩ :: inText (offset + c.utf8Size) cs
    else inText (offset + c.utf8Size) cs

/-- The braces of a source that are still there when its literals are replaced by blanks. -/
def structural (source : Text) : List Brace := inText 0 source.mask

/-! ## Braces of a text without its literals -/

theorem inText_append_blanks (k n : Nat) (t : Text) :
    inText n (List.replicate k ' ' ++ t) = inText (n + k) t := by
  induction k generalizing n with
  | zero => rfl
  | succ k ih =>
    show inText (n + 1) (List.replicate k ' ' ++ t) = _
    rw [ih, Nat.add_assoc, Nat.add_comm 1 k]

/-- **The braces among glyphs are those that the mask leaves.** -/
theorem inText_mask (n : Nat) (gs : List Glyph) :
    inText n (gs.flatMap fun g =>
      if g.quoted then List.replicate g.char.utf8Size ' ' else [g.char]) = ofGlyphs n gs := by
  induction gs generalizing n with
  | nil => rfl
  | cons g gs ih =>
    obtain ⟨c, _ | _⟩ := g
    · rw [List.flatMap_cons, ofGlyphs_cons, if_neg Bool.false_ne_true, List.singleton_append]
      simp only [inText, ih, Glyph.is, Bool.not_false, Bool.true_and, beq_iff_eq]
    · rw [List.flatMap_cons, if_pos rfl, inText_append_blanks, ih]
      rfl

theorem ofSource_eq_structural (source : Text) : ofSource source = structural source :=
  (inText_mask 0 source.glyphs).symm

theorem mem_inText_cons {b : Brace} {n : Nat} {c : Char} {cs : Text} :
    b ∈ inText n (c :: cs) ↔ (c = b.char ∧ b.offset = n) ∨ b ∈ inText (n + c.utf8Size) cs := by
  obtain ⟨o, _ | _⟩ := b
  · by_cases hopen : c = '{'
    · subst hopen
      simp [inText, char]
    · by_cases hclose : c = '}' <;> simp [inText, char, hopen, hclose]
  · by_cases hopen : c = '{'
    · simp [inText, char, hopen]
    · by_cases hclose : c = '}' <;> simp [inText, char, hopen, hclose]

theorem mem_inText_iff {b : Brace} {n : Nat} {t : Text} :
    b ∈ inText n t ↔ ∃ pre post, t = pre ++ b.char :: post ∧ b.offset = n + Text.bytes pre := by
  induction t generalizing n with
  | nil => simp [inText]
  | cons c cs ih =>
    rw [mem_inText_cons, ih]
    constructor
    · rintro (⟨rfl, hoff⟩ | ⟨pre, post, rfl, hoff⟩)
      · exact ⟨[], cs, rfl, hoff⟩
      · exact ⟨c :: pre, post, rfl, by rw [hoff, Text.bytes_cons, Nat.add_assoc]⟩
    · rintro ⟨_ | ⟨x, pre⟩, post, he, hoff⟩
      · exact .inl ⟨(List.cons.inj he).1, hoff⟩
      · obtain ⟨rfl, rfl⟩ := List.cons.inj he
        exact .inr ⟨pre, post, rfl, by rw [hoff, Text.bytes_cons, Nat.add_assoc]⟩

/-- **A structural brace is a brace of the source without its literals**, at its position. -/
theorem mem_structural_iff {b : Brace} {source : Text} :
    b ∈ structural source ↔
      ∃ pre post, source.mask = pre ++ b.char :: post ∧ b.offset = Text.bytes pre := by
  rw [structural, mem_inText_iff]
  simp only [Nat.zero_add]

example : structural "a \"\x7b\" \x7b\x7d".toList = [⟨6, true⟩, ⟨7, false⟩] := by decide +kernel

/-! ## Counting braces -/

/-- How many braces of a list open. -/
def opens (bs : List Brace) : Nat := bs.countP (·.isOpen)

/-- How many braces of a list close. -/
def closes (bs : List Brace) : Nat := bs.countP (!·.isOpen)

/-- More braces close than open. -/
def Overclosed (bs : List Brace) : Prop := opens bs < closes bs

/-- The first closing brace up to which more braces close than open. -/
def FirstStray (bs : List Brace) (c : Nat) : Prop :=
  ∃ pre post, bs = pre ++ ⟨c, false⟩ :: post ∧ Overclosed (pre ++ [⟨c, false⟩]) ∧
    ∀ p, p <+: pre → ¬ Overclosed p

/-- The last opening brace that has no partner. -/
def LastUnmatched (bs : List Brace) (o : Nat) : Prop :=
  ∃ pre post, bs = pre ++ ⟨o, true⟩ :: post ∧ (∀ s, Matched bs s → s.start ≠ o) ∧
    ∀ b ∈ post, b.isOpen = true → ∃ s, Matched bs s ∧ s.start = b.offset

theorem opens_add_of_openAfter {bs : List Brace} : ∀ {n m : Nat}, openAfter n bs = some m →
    n + opens bs = m + closes bs := by
  induction bs with
  | nil =>
    intro n m h
    exact congrArg (· + 0) (Option.some.inj h)
  | cons b bs ih =>
    intro n m h
    obtain ⟨p, _ | _⟩ := b
    · cases n with
      | zero => exact absurd h (by simp)
      | succ n =>
        have := ih (n := n) h
        simp only [opens, closes, List.countP_cons] at this ⊢
        simp only [Bool.false_eq_true, if_false, Bool.not_false, if_true]
        omega
    · have := ih (n := n + 1) h
      simp only [opens, closes, List.countP_cons] at this ⊢
      simp only [Bool.not_true, Bool.false_eq_true, if_false, if_true]
      omega

/-- Where no brace closes what nothing opened, no part from the front does. -/
theorem not_overclosed_of_openAfter {bs p : List Brace} {m : Nat} (h : openAfter 0 bs = some m)
    (hp : p <+: bs) : ¬ Overclosed p := by
  obtain ⟨rest, rfl⟩ := hp
  rw [openAfter_append] at h
  obtain ⟨d, hd, -⟩ := Option.bind_eq_some_iff.mp h
  have := opens_add_of_openAfter hd
  unfold Overclosed
  omega

theorem Waiting.openAfter_eq {pre : List Brace} {w : List Nat} (h : Waiting pre w) :
    openAfter 0 pre = some w.length := by
  induction h with
  | none h => exact h.openAfter_eq 0
  | push o _ hinner ih =>
    rw [openAfter_append, ih, Option.bind_some, openAfter_open, hinner.openAfter_eq,
      List.length_cons]

/-- A brace that closes what nothing opened is the first of its kind. -/
theorem Balanced.firstStray {pre : List Brace} (h : Balanced pre) (c : Nat) (post : List Brace) :
    FirstStray (pre ++ ⟨c, false⟩ :: post) c := by
  refine ⟨pre, post, rfl, ?_, fun p hp => not_overclosed_of_openAfter (h.openAfter_eq 0) hp⟩
  have := opens_add_of_openAfter (h.openAfter_eq 0)
  simp only [Overclosed, opens, closes, List.countP_append, List.countP_singleton] at this ⊢
  simp only [Bool.false_eq_true, if_false, Bool.not_false, if_true]
  omega

/-- A brace with only pairs behind it is the last one without a partner. -/
theorem Balanced.lastUnmatched {pre inner : List Brace} {o : Nat} (h : Balanced inner)
    (hs : Sorted (pre ++ ⟨o, true⟩ :: inner)) :
    LastUnmatched (pre ++ ⟨o, true⟩ :: inner) o := by
  refine ⟨pre, inner, rfl, ?_, fun b hb hopen => ?_⟩
  · -- a partner behind the brace would end a part of the pairs that is not balanced
    rintro s ⟨pre', inner', post', c, -, hbs, hinner'⟩ hso
    obtain ⟨-, -, hrest⟩ := hs.split_eq hbs hso.symm
    have hnone := hinner'.openAfter_pass 0 (⟨c, false⟩ :: post')
    rw [← hrest, h.openAfter_eq] at hnone
    exact absurd hnone (by simp)
  · obtain ⟨p, isOpen⟩ := b
    obtain rfl : isOpen = true := hopen
    obtain ⟨before, after, rfl⟩ := List.append_of_mem hb
    obtain ⟨mid, c, rest, rfl, hmid⟩ := h.exists_partner
    exact ⟨⟨p, c + 1⟩, ⟨pre ++ ⟨o, true⟩ :: before, mid, rest, c, rfl, by simp, hmid⟩, rfl⟩

/-! ## The three ends of matching -/

/-- **How matching ends**: all braces have their partners, or one closes what nothing opened, or
some wait for a partner when there are no more braces. -/
theorem pair_cases : ∀ {bs pre : List Brace} {w : List Nat}, Waiting pre w →
    (∃ spans, pair w bs = .ok spans) ∨
    (∃ before c after, pre ++ bs = before ++ ⟨c, false⟩ :: after ∧ Balanced before ∧
      pair w bs = .error ⟨.strayBrace, spanAt c⟩) ∨
    ∃ before o inner os, pre ++ bs = before ++ ⟨o, true⟩ :: inner ∧ Waiting before os ∧
      Balanced inner ∧ pair w bs = .error ⟨.unclosedBrace (os.length + 1), spanAt o⟩
  | [], _, _, .none _ => .inl ⟨[], rfl⟩
  | [], _, _, .push o hbefore hinner =>
    .inr (.inr ⟨_, o, _, _, List.append_nil _, hbefore, hinner, rfl⟩)
  | ⟨p, true⟩ :: bs, pre, w, hw => by
    rw [pair_open, List.append_cons]
    exact pair_cases (hw.push p .nil)
  | ⟨p, false⟩ :: bs, pre, _, .none hpre => .inr (.inl ⟨pre, p, bs, rfl, hpre, rfl⟩)
  | ⟨p, false⟩ :: bs, _, _, @Waiting.push before inner os o hbefore hinner => by
    -- the brace closes the last one that waits
    have hassoc : before ++ ⟨o, true⟩ :: inner ++ ⟨p, false⟩ :: bs =
        before ++ ⟨o, true⟩ :: (inner ++ [⟨p, false⟩]) ++ bs := by simp
    have hpair : pair (o :: os) (⟨p, false⟩ :: bs) = (pair os bs).map (⟨o, p + 1⟩ :: ·) := rfl
    rw [hassoc, hpair]
    rcases @pair_cases bs _ _ (hbefore.append (hinner.enclose o p)) with
      ⟨spans, h⟩ | ⟨a, c, b, hab, ha, h⟩ | ⟨a, c, b, os, hab, ha, hb, h⟩
    · exact .inl ⟨_, by rw [h]; rfl⟩
    · exact .inr (.inl ⟨a, c, b, hab, ha, by rw [h]; rfl⟩)
    · exact .inr (.inr ⟨a, c, b, os, hab, ha, hb, by rw [h]; rfl⟩)

end Brace
end BraceTree
