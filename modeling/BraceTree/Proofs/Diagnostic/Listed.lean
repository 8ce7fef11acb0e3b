import BraceTree.Diagnostic
import BraceTree.Proofs.Text.Appended

/-!
# The order of diagnostics

Diagnostics are listed by position, and those at one position in the order in which they were found.
Sorting does not mix up equal elements, so leaving some diagnostics out before the sort is leaving
them out of the list (`filter_mergeSort`). If those that are left out stand behind the others, then
what remains is the beginning of the list.
-/

namespace BraceTree

variable {α : Type} {le : α → α → Bool} {p : α → Bool}

/-- A list is cut in one way only where the elements on the left differ from those on the right. -/
theorem append_inj_of_forall {l₁ l₂ m₁ m₂ : List α} (h : l₁ ++ l₂ = m₁ ++ m₂)
    (hl₁ : ∀ a ∈ l₁, p a = true) (hl₂ : ∀ a ∈ l₂, ¬p a = true) (hm₁ : ∀ a ∈ m₁, p a = true)
    (hm₂ : ∀ a ∈ m₂, ¬p a = true) : l₁ = m₁ ∧ l₂ = m₂ := by
  have hleft : l₁ = m₁ := by
    have := congrArg (List.filter p) h
    rwa [List.filter_append, List.filter_append, List.filter_eq_self.mpr hl₁,
      List.filter_eq_self.mpr hm₁, List.filter_eq_nil_iff.mpr hl₂, List.filter_eq_nil_iff.mpr hm₂,
      List.append_nil, List.append_nil] at this
  exact ⟨hleft, List.append_cancel_left (hleft ▸ h)⟩

/-- Sorting puts an element in front of the first one that it may precede. -/
theorem exists_mergeSort_cons (trans : ∀ a b c : α, le a b = true → le b c = true → le a c = true)
    (total : ∀ a b : α, (le a b || le b a) = true) (a : α) (l : List α) :
    ∃ l₁ l₂, (a :: l).mergeSort le = l₁ ++ a :: l₂ ∧ l.mergeSort le = l₁ ++ l₂ ∧
      (∀ b ∈ l₁, (!le a b) = true) ∧ ∀ b ∈ l₂, ¬(!le a b) = true := by
  obtain ⟨l₁, l₂, hcons, hl, hbefore⟩ := List.mergeSort_cons trans total a l
  refine ⟨l₁, l₂, hcons, hl, hbefore, fun b hb => ?_⟩
  have hsorted := List.pairwise_mergeSort trans total (a :: l)
  rw [hcons] at hsorted
  simp [(List.pairwise_cons.mp (List.pairwise_append.mp hsorted).2.1).1 b hb]

/-- **A stable sort of some elements is that of all elements, with the others left out.** -/
theorem filter_mergeSort (trans : ∀ a b c : α, le a b = true → le b c = true → le a c = true)
    (total : ∀ a b : α, (le a b || le b a) = true) (p : α → Bool) (l : List α) :
    (l.mergeSort le).filter p = (l.filter p).mergeSort le := by
  induction l with
  | nil => simp only [List.mergeSort_nil, List.filter_nil]
  | cons a l ih =>
    obtain ⟨l₁, l₂, hcons, hl, hbefore, hafter⟩ := exists_mergeSort_cons trans total a l
    rw [hl, List.filter_append] at ih
    rw [hcons, List.filter_append]
    by_cases ha : p a = true
    · obtain ⟨m₁, m₂, hcons', hm, hbefore', hafter'⟩ :=
        exists_mergeSort_cons trans total a (l.filter p)
      obtain ⟨hleft, hright⟩ := append_inj_of_forall (ih.trans hm)
        (fun b hb => hbefore b (List.mem_filter.mp hb).1)
        (fun b hb => hafter b (List.mem_filter.mp hb).1) hbefore' hafter'
      rw [List.filter_cons_of_pos ha, List.filter_cons_of_pos ha, hcons', hleft, hright]
    · rw [List.filter_cons_of_neg ha, List.filter_cons_of_neg ha, ih]

/-- In a sorted list what must stand in front is the beginning. -/
theorem filter_prefix_of_pairwise (hp : ∀ a b, p a = true → le b a = true → p b = true)
    {l : List α} (hl : l.Pairwise fun a b => le a b = true) : l.filter p <+: l := by
  induction l with
  | nil => exact List.prefix_rfl
  | cons a l ih =>
    obtain ⟨ha, hl⟩ := List.pairwise_cons.mp hl
    by_cases hpa : p a = true
    · rw [List.filter_cons_of_pos hpa]
      exact (List.prefix_cons_inj a).mpr (ih hl)
    · have hnone : l.filter p = [] :=
        List.filter_eq_nil_iff.mpr fun b hb hpb => hpa (hp b a hpb (ha b hb))
      rw [List.filter_cons_of_neg hpa, hnone]
      exact List.nil_prefix

namespace Diagnostic

theorem precedes_iff {a b : Diagnostic} : a.precedes b = true ↔ a.span.start < b.span.start ∨
    a.span.start = b.span.start ∧ a.span.stop ≤ b.span.stop := by
  rw [precedes, Span.precedes]
  simp

theorem precedes_trans (a b c : Diagnostic) (hab : a.precedes b = true)
    (hbc : b.precedes c = true) : a.precedes c = true := by
  rw [precedes_iff] at hab hbc ⊢
  omega

theorem precedes_total (a b : Diagnostic) : (a.precedes b || b.precedes a) = true := by
  rw [Bool.or_eq_true, precedes_iff, precedes_iff]
  omega

/-- **What is found behind a position is listed behind all that was found before.** -/
theorem listed_prefix {stop : Nat} {lines lines' : List Line}
    (hlines : Line.AgreeUpTo stop lines lines') {found found' : List Finding}
    (hfound : found'.filter (fun f => f.span.start ≤ stop) = found) (sourceId : Nat) :
    (found.map (ofFinding lines sourceId)).mergeSort precedes <+:
      (found'.map (ofFinding lines' sourceId)).mergeSort precedes := by
  have hsame : found.map (ofFinding lines sourceId) =
      (found'.map (ofFinding lines' sourceId)).filter fun d => d.span.start ≤ stop := by
    rw [List.filter_map, ← hfound]
    refine List.map_congr_left fun f hf => ?_
    have hstart := of_decide_eq_true (List.mem_filter.mp hf).2
    rw [ofFinding, ofFinding, hlines _ hstart]
  rw [hsame, ← filter_mergeSort precedes_trans precedes_total]
  have hsorted := List.pairwise_mergeSort precedes_trans precedes_total
    (found'.map (ofFinding lines' sourceId))
  refine filter_prefix_of_pairwise (fun a b ha hba => ?_) hsorted
  rw [decide_eq_true_eq] at ha ⊢
  rw [precedes_iff] at hba
  omega

end Diagnostic
end BraceTree
