import Mathlib.Data.List.TakeWhile
import BraceTree.Text.Basic

/-!
# What trimming takes off

Trimming takes the blanks off either end of a text and nothing else, so a text is what is left of it
between two blank ones. Where one character only is taken off, a run of it goes as far as what does
not begin with it.
-/

namespace BraceTree.Text

theorem isBlankText_takeWhile (t : Text) : isBlankText (t.takeWhile isBlank) = true :=
  List.all_takeWhile

theorem trimEnd_append (t : Text) :
    trimEnd t ++ (t.reverse.takeWhile isBlank).reverse = t := by
  rw [trimEnd, ← List.reverse_append, List.takeWhile_append_dropWhile, List.reverse_reverse]

/-- **A text is its trimmed part between blanks.** -/
theorem eq_append_trim (t : Text) :
    ∃ post, isBlankText post = true ∧ t = t.takeWhile isBlank ++ (trim t ++ post) := by
  refine ⟨((trimStart t).reverse.takeWhile isBlank).reverse, ?_, ?_⟩
  · rw [isBlankText, List.all_reverse]
    exact isBlankText_takeWhile _
  · rw [trim, trimEnd_append, trimStart, List.takeWhile_append_dropWhile]

/-- Only a blank text has nothing left. -/
theorem trim_eq_nil_iff {t : Text} : trim t = [] ↔ isBlankText t = true := by
  constructor
  · intro h
    obtain ⟨post, hpost, ht⟩ := eq_append_trim t
    rw [h, List.nil_append] at ht
    rw [ht, isBlankText, List.all_append, Bool.and_eq_true]
    exact ⟨isBlankText_takeWhile t, hpost⟩
  · intro h
    have hnil : trimStart t = [] := List.dropWhile_eq_nil_iff.mpr fun c hc =>
      List.all_eq_true.mp h c hc
    rw [trim, hnil]
    rfl

/-! ## Runs of one character -/

/-- A run of a character goes as far as a text that does not begin with it. -/
theorem dropWhile_replicate_append {a : Char} {t : Text} (h : t.head? ≠ some a) (n : Nat) :
    (List.replicate n a ++ t).dropWhile (· == a) = t := by
  rw [List.dropWhile_append_of_pos fun b hb => beq_iff_eq.mpr (List.eq_of_mem_replicate hb)]
  cases t with
  | nil => rfl
  | cons b t =>
    exact List.dropWhile_cons_of_neg fun hb => h (congrArg some (beq_iff_eq.mp hb))

theorem head?_dropWhile_ne (a : Char) (t : Text) : (t.dropWhile (· == a)).head? ≠ some a := by
  intro h
  have hnot := List.head?_dropWhile_not (· == a) t
  rw [h] at hnot
  exact Bool.false_ne_true (hnot.symm.trans (beq_self_eq_true a))

end BraceTree.Text
