import BraceTree.Hierarchy

/-!
# Balanced lists of braces

A list of braces is balanced when every brace in it has its partner. The definition below builds
such a list from the left, block by block. Reading it with a counter of open braces gives the
same lists (`balanced_of_openAfter`), and it is the counter that the two cutting laws speak of: a
reader who ends no higher than they started has passed a first brace that closes one more level than
was opened (`exists_first_return`), and one who ends higher has passed a last brace that nothing
closed (`exists_last_rise`).

Looking for the nearest unmatched brace in either direction walks over a balanced list as if it were
not there.
-/

namespace BraceTree.Brace

/-- Lists in which every brace has its partner. -/
inductive Balanced : List Brace → Prop where
  | nil : Balanced []
  /-- A block and a balanced list behind it. -/
  | block (o c : Nat) {inner rest : List Brace} (hinner : Balanced inner) (hrest : Balanced rest) :
    Balanced (⟨o, true⟩ :: (inner ++ ⟨c, false⟩ :: rest))

/-- How many braces are open behind a list, given how many were open before it; none if a brace of
the list closes what nothing opened. -/
def openAfter : (opened : Nat) → List Brace → Option Nat
  | n, [] => some n
  | n, b :: bs =>
    if b.isOpen then openAfter (n + 1) bs
    else
      match n with
      | 0 => none
      | m + 1 => openAfter m bs

@[simp] theorem openAfter_nil (n : Nat) : openAfter n [] = some n := rfl

@[simp] theorem openAfter_open (n o : Nat) (bs : List Brace) :
    openAfter n (⟨o, true⟩ :: bs) = openAfter (n + 1) bs := rfl

@[simp] theorem openAfter_close_zero (c : Nat) (bs : List Brace) :
    openAfter 0 (⟨c, false⟩ :: bs) = none := rfl

@[simp] theorem openAfter_close_succ (n c : Nat) (bs : List Brace) :
    openAfter (n + 1) (⟨c, false⟩ :: bs) = openAfter n bs := rfl

theorem openAfter_append (n : Nat) (a b : List Brace) :
    openAfter n (a ++ b) = (openAfter n a).bind (openAfter · b) := by
  induction a generalizing n with
  | nil => rfl
  | cons x xs ih =>
    obtain ⟨p, _ | _⟩ := x
    · cases n with
      | zero => rfl
      | succ n => exact ih n
    · exact ih (n + 1)

namespace Balanced

theorem append {a b : List Brace} (ha : Balanced a) (hb : Balanced b) : Balanced (a ++ b) := by
  induction ha with
  | nil => exact hb
  | block o c hinner _ _ ih =>
    rw [List.cons_append, List.append_assoc, List.cons_append]
    exact .block o c hinner ih

/-- A pair of braces around a balanced list is balanced. -/
theorem enclose {inner : List Brace} (h : Balanced inner) (o c : Nat) :
    Balanced (⟨o, true⟩ :: (inner ++ [⟨c, false⟩])) :=
  .block o c h .nil

/-- **A balanced list leaves the counter where it was.** -/
theorem openAfter_pass {a : List Brace} (ha : Balanced a) (n : Nat) (b : List Brace) :
    openAfter n (a ++ b) = openAfter n b := by
  induction ha generalizing n b with
  | nil => rfl
  | block o c _ _ ih₁ ih₂ =>
    rw [List.cons_append, List.append_assoc, List.cons_append, openAfter_open, ih₁,
      openAfter_close_succ, ih₂]

theorem openAfter_eq {a : List Brace} (ha : Balanced a) (n : Nat) : openAfter n a = some n := by
  simpa using ha.openAfter_pass n []

/-- A search for an unmatched opening brace passes over a balanced list. -/
theorem unmatchedOpen?_reverse_append {a : List Brace} (ha : Balanced a) (n : Nat)
    (b : List Brace) : unmatchedOpen? n (a.reverse ++ b) = unmatchedOpen? n b := by
  induction ha generalizing n b with
  | nil => rfl
  | block o c _ _ ih₁ ih₂ =>
    simp only [List.reverse_cons, List.reverse_append, List.append_assoc, List.cons_append,
      List.nil_append]
    rw [ih₂]
    show unmatchedOpen? (n + 1) _ = _
    rw [ih₁]
    rfl

/-- A search for an unmatched closing brace passes over a balanced list. -/
theorem unmatchedClose?_append {a : List Brace} (ha : Balanced a) (n : Nat) (b : List Brace) :
    unmatchedClose? n (a ++ b) = unmatchedClose? n b := by
  induction ha generalizing n b with
  | nil => rfl
  | block o c _ _ ih₁ ih₂ =>
    rw [List.cons_append, List.append_assoc, List.cons_append]
    show unmatchedClose? (n + 1) _ = _
    rw [ih₁]
    show unmatchedClose? n _ = _
    exact ih₂ n b

/-- A balanced list ends where it ends: the closing brace behind it is no part of another balanced
list that starts at the same place. -/
theorem eq_of_append_close {a a' r r' : List Brace} {c c' : Nat} (ha : Balanced a)
    (ha' : Balanced a') (h : a ++ ⟨c, false⟩ :: r = a' ++ ⟨c', false⟩ :: r') :
    a = a' ∧ c = c' ∧ r = r' := by
  -- a longer list would hold a brace that closes what nothing opened
  have hno : ∀ {x y : List Brace} {d : Nat} {z : List Brace}, Balanced x → Balanced y →
      y ≠ x ++ ⟨d, false⟩ :: z := by
    rintro x _ d z hx hy rfl
    have hnone := hx.openAfter_pass 0 (⟨d, false⟩ :: z)
    rw [hy.openAfter_eq] at hnone
    exact absurd hnone (by simp)
  rcases List.append_eq_append_iff.mp h with ⟨m, rfl, hm⟩ | ⟨m, rfl, hm⟩
  · cases m with
    | nil => simpa using hm
    | cons x m =>
      obtain ⟨rfl, -⟩ := List.cons.inj hm
      exact absurd rfl (hno ha ha')
  · cases m with
    | nil => simpa [eq_comm] using hm
    | cons x m =>
      obtain ⟨rfl, -⟩ := List.cons.inj hm
      exact absurd rfl (hno ha' ha)

end Balanced

/-- **The first return.** A reader who ends below the level they started from has passed a balanced
list and the brace that closes this level. -/
theorem exists_first_return {n m : Nat} (hmn : m ≤ n) :
    ∀ {bs : List Brace}, openAfter (n + 1) bs = some m →
      ∃ inner c rest, bs = inner ++ ⟨c, false⟩ :: rest ∧ Balanced inner ∧
        openAfter n rest = some m := by
  intro bs
  induction hk : bs.length using Nat.strongRecOn generalizing bs n with
  | ind k ih =>
    intro h
    match bs, hk with
    | [], _ =>
      have : n + 1 = m := by simpa using h
      omega
    | ⟨c, false⟩ :: rest, _ => exact ⟨[], c, rest, rfl, .nil, h⟩
    | ⟨o, true⟩ :: rest, hk =>
      rw [List.length_cons] at hk
      -- the brace that is opened here is closed first, and the level itself behind it
      obtain ⟨inner₁, c₁, rest₁, rfl, h₁, hrest₁⟩ :=
        ih rest.length (by omega) (n := n + 1) (by omega) rfl h
      obtain ⟨inner₂, c, rest₂, rfl, h₂, hrest₂⟩ :=
        ih rest₁.length (by simp at hk; omega) hmn rfl hrest₁
      refine ⟨⟨o, true⟩ :: (inner₁ ++ ⟨c₁, false⟩ :: inner₂), c, rest₂, ?_, .block o c₁ h₁ h₂,
        hrest₂⟩
      simp

/-- **The last rise.** A reader who ends above the level they started from has passed a brace that
nothing closed, and a balanced list behind it. -/
theorem exists_last_rise {n m : Nat} (hmn : m ≤ n) :
    ∀ {bs : List Brace}, openAfter m bs = some (n + 1) →
      ∃ pre o inner, bs = pre ++ ⟨o, true⟩ :: inner ∧ Balanced inner ∧
        openAfter m pre = some n := by
  intro bs
  induction hk : bs.length using Nat.strongRecOn generalizing bs n with
  | ind k ih =>
    intro h
    rcases List.eq_nil_or_concat bs with rfl | ⟨pre, b, rfl⟩
    · have : m = n + 1 := by simpa using h
      omega
    rw [List.concat_eq_append, List.length_append, List.length_singleton] at hk
    rw [List.concat_eq_append, openAfter_append] at h
    obtain ⟨d, hd, hb⟩ := Option.bind_eq_some_iff.mp h
    obtain ⟨p, _ | _⟩ := b
    · -- the last brace closes one of two levels that were opened
      obtain _ | d := d
      · exact absurd hb (by simp)
      obtain rfl : d = n + 1 := by simpa using hb
      obtain ⟨pre₁, o₁, inner₁, rfl, h₁, hpre₁⟩ :=
        ih pre.length (by omega) (n := n + 1) (by omega) rfl hd
      obtain ⟨pre₂, o, inner₂, rfl, h₂, hpre₂⟩ :=
        ih pre₁.length (by simp at hk; omega) hmn rfl hpre₁
      refine ⟨pre₂, o, inner₂ ++ ⟨o₁, true⟩ :: (inner₁ ++ [⟨p, false⟩]), ?_,
        h₂.append (h₁.enclose o₁ p), hpre₂⟩
      simp
    · obtain rfl : d = n := by simpa using hb
      exact ⟨pre, p, [], by simp, .nil, hd⟩

/-- **Counting tells balanced lists**: a reader who ends where they started, and never saw a brace
close what nothing opened, has read a balanced list. -/
theorem balanced_of_openAfter {bs : List Brace} (h : openAfter 0 bs = some 0) : Balanced bs := by
  induction hk : bs.length using Nat.strongRecOn generalizing bs with
  | ind k ih =>
    match bs, hk with
    | [], _ => exact .nil
    | ⟨_, false⟩ :: _, _ => exact absurd h (by simp)
    | ⟨o, true⟩ :: rest, hk =>
      obtain ⟨inner, c, rest', rfl, hinner, hrest⟩ := exists_first_return (Nat.le_refl 0) h
      refine .block o c hinner (ih rest'.length ?_ hrest rfl)
      simp at hk
      omega

/-- A brace that opens inside a balanced list closes inside it. -/
theorem Balanced.exists_partner {a b : List Brace} {o : Nat} (h : Balanced (a ++ ⟨o, true⟩ :: b)) :
    ∃ inner c rest, b = inner ++ ⟨c, false⟩ :: rest ∧ Balanced inner := by
  have hzero := h.openAfter_eq 0
  rw [openAfter_append] at hzero
  obtain ⟨d, -, hd⟩ := Option.bind_eq_some_iff.mp hzero
  rw [openAfter_open] at hd
  obtain ⟨inner, c, rest, hb, hinner, -⟩ := exists_first_return (Nat.zero_le d) hd
  exact ⟨inner, c, rest, hb, hinner⟩

end BraceTree.Brace
