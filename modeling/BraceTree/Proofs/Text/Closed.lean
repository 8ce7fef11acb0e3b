import BraceTree.Proofs.Text.Rejoined

/-!
# Texts that end outside of their literals

A reader takes a character for structure only where it stands outside of literals. So a text that
is followed by structure ends outside of its literals, and what stands behind it is read as if
nothing came before (`Text.Closed.glyphs_append`). Blanks change nothing of that: they open no
literal, and on one line they close none (`Quoting.eq_outside_of_after_blank`).
-/

namespace BraceTree

namespace Quoting

/-- What is structure and no newline is met outside of literals only. -/
theorem eq_outside_of_step {q : Quoting} {c : Char} (h : (q.step c).2 = false) (hc : c ≠ '\n') :
    q = .outside := by
  cases q with
  | outside => rfl
  | inside quote =>
    rw [step, if_neg hc] at h
    split at h
    · exact absurd h (by simp)
    · split at h <;> exact absurd h (by simp)
  | escaped quote =>
    rw [step, if_neg hc] at h
    exact absurd h (by simp)

/-- A reader can only be in a literal that a quote has opened. -/
def Proper : Quoting → Prop
  | .outside => True
  | .inside quote => isQuote quote = true
  | .escaped quote => isQuote quote = true

theorem Proper.step {q : Quoting} (h : q.Proper) (c : Char) : (q.step c).1.Proper := by
  cases q with
  | outside =>
    rw [Quoting.step]
    split
    · rename_i hc
      exact hc
    · trivial
  | inside quote =>
    rw [Quoting.step]
    split
    · trivial
    · split
      · exact h
      · split
        · trivial
        · exact h
  | escaped quote =>
    rw [Quoting.step]
    split
    · trivial
    · exact h

theorem Proper.after {q : Quoting} (h : q.Proper) (t : Text) : (q.after t).Proper := by
  induction t generalizing q with
  | nil => exact h
  | cons c cs ih => exact ih (h.step c)

/-- **Blanks on one line do not end a literal.** -/
theorem eq_outside_of_after_blank {q : Quoting} (h : q.Proper) :
    ∀ {b : Text}, Text.isBlankText b = true → '\n' ∉ b → q.after b = .outside → q = .outside
  | [], _, _, hout => hout
  | c :: cs, hb, hline, hout => by
    obtain ⟨hc, hcs⟩ := (Bool.and_eq_true _ _).mp hb
    have hnext := eq_outside_of_after_blank (h.step c) hcs (List.not_mem_of_not_mem_cons hline) hout
    have hnewline : c ≠ '\n' := (List.ne_of_not_mem_cons hline).symm
    have hne : ∀ d, Text.isBlank d = false → c ≠ d := by
      rintro d hd rfl
      exact Bool.false_ne_true (hd.symm.trans hc)
    cases q with
    | outside => rfl
    | inside quote =>
      have hquote : Text.isBlank quote = false := by
        have hor : quote = '"' ∨ quote = '\'' := by simpa [Proper, isQuote] using h
        rcases hor with rfl | rfl <;> decide
      rw [step, if_neg hnewline, if_neg (hne '\\' (by decide)), if_neg (hne quote hquote)] at hnext
      exact absurd hnext (by simp)
    | escaped quote =>
      rw [step, if_neg hnewline] at hnext
      exact absurd hnext (by simp)

end Quoting

namespace Text

/-- **A text on one line that ends outside of its literals.** -/
def Closed (t : Text) : Prop := Quoting.outside.after t = .outside ∧ '\n' ∉ t

namespace Closed

variable {a b t : Text}

theorem glyphs_append (ha : Quoting.outside.after a = .outside) (b : Text) :
    glyphs (a ++ b) = glyphs a ++ glyphs b := by
  rw [glyphs, glyphsFrom_append, ha]
  rfl

theorem of_isBlankText (hb : isBlankText b = true) : Quoting.outside.after b = .outside := by
  induction b with
  | nil => rfl
  | cons c cs ih =>
    obtain ⟨hc, hcs⟩ := (Bool.and_eq_true _ _).mp hb
    have hquote : Quoting.isQuote c = false := by
      rw [Quoting.isQuote, Bool.or_eq_false_iff, beq_eq_false_iff_ne, beq_eq_false_iff_ne]
      constructor <;> rintro rfl <;> exact absurd hc (by decide)
    show (Quoting.outside.step c).1.after cs = .outside
    rw [Quoting.step, if_neg (ne_true_of_eq_false hquote)]
    exact ih hcs

/-- **Trimming leaves a closed text**, and its glyphs are those of the text without the blanks. -/
theorem trim (h : Closed t) : Closed (trim t) ∧ ∃ pre post, isBlankText pre = true ∧
    isBlankText post = true ∧ glyphs t = glyphs pre ++ (glyphs (Text.trim t) ++ glyphs post) := by
  obtain ⟨hout, hline⟩ := h
  obtain ⟨post, hpost, ht⟩ := eq_append_trim t
  have hpre := isBlankText_takeWhile t
  have hpreOut := of_isBlankText hpre
  have hclosed : Quoting.outside.after (Text.trim t) = .outside := by
    rw [ht, Quoting.after_append, hpreOut, Quoting.after_append] at hout
    refine Quoting.eq_outside_of_after_blank (Quoting.Proper.after (q := .outside) trivial _) hpost
      (fun hmem => ?_)
      hout
    refine hline ?_
    rw [ht]
    exact List.mem_append_right _ (List.mem_append_right _ hmem)
  refine ⟨⟨hclosed, fun hmem => hline (mem_of_mem_trim hmem)⟩, _, post, hpre, hpost, ?_⟩
  conv => lhs; rw [ht]
  rw [glyphs_append hpreOut, glyphs_append hclosed]

end Closed

end Text
end BraceTree
