import BraceTree.Text.Basic

/-!
# Borders between characters

A position is a number of bytes, and only some positions lie between two characters. Cutting there
gives back the texts on either side, which is what the cutting laws say. Everything that is found in
a source starts and ends at such a border, so two findings can be compared by their positions alone.
-/

namespace BraceTree

theorem Span.covers_iff {s : Span} {o : Nat} : s.covers o = true ↔ s.start ≤ o ∧ o < s.stop := by
  rw [covers, Bool.and_eq_true, decide_eq_true_iff, decide_eq_true_iff]

/-- **Spans one behind the other do not overlap**: a position is in one of them at most. -/
theorem Span.eq_of_apart {α : Type} {f : α → Span} {xs : List α}
    (h : xs.Pairwise fun x y => (f x).stop ≤ (f y).start) {x y : α} (hx : x ∈ xs) (hy : y ∈ xs)
    {o : Nat} (hxo : (f x).start ≤ o ∧ o < (f x).stop) (hyo : (f y).start ≤ o ∧ o < (f y).stop) :
    x = y := by
  induction xs with
  | nil => exact absurd hx List.not_mem_nil
  | cons z zs ih =>
    obtain ⟨hz, hzs⟩ := List.pairwise_cons.mp h
    rcases List.mem_cons.mp hx with hxz | hxs <;> rcases List.mem_cons.mp hy with hyz | hys
    · rw [hxz, hyz]
    · have := hz y hys
      rw [hxz] at hxo
      omega
    · have := hz x hxs
      rw [hyz] at hyo
      omega
    · exact ih hzs hxs hys

namespace Text

variable {t a b a' b' : Text}

theorem bytes_eq_zero_iff : bytes t = 0 ↔ t = [] := by
  cases t with
  | nil => exact ⟨fun _ => rfl, fun _ => rfl⟩
  | cons c cs =>
    have := c.utf8Size_pos
    rw [bytes_cons]
    exact ⟨fun h => absurd h (by omega), fun h => absurd h (List.cons_ne_nil c cs)⟩

/-- **The earlier of two borders leaves a text up to the later one.** -/
theorem exists_between (h : a ++ b = a' ++ b') (hle : bytes a ≤ bytes a') :
    ∃ m, a' = a ++ m ∧ b = m ++ b' := by
  rcases List.append_eq_append_iff.mp h with ⟨m, ha, hb⟩ | ⟨m, ha, hb⟩
  · exact ⟨m, ha, hb⟩
  · have hm : m = [] := by
      have hbytes := congrArg bytes ha
      rw [bytes_append] at hbytes
      exact bytes_eq_zero_iff.mp (by omega)
    subst hm
    rw [List.append_nil] at ha
    exact ⟨[], by rw [ha, List.append_nil], hb.symm⟩

/-- There is one border at a position. -/
theorem append_inj_of_bytes_eq (h : a ++ b = a' ++ b') (heq : bytes a = bytes a') :
    a = a' ∧ b = b' := by
  obtain ⟨m, ha, hb⟩ := exists_between h (Nat.le_of_eq heq)
  have hm : m = [] := by
    have hbytes := congrArg bytes ha
    rw [bytes_append] at hbytes
    exact bytes_eq_zero_iff.mp (by omega)
  subst hm
  exact ⟨by rw [ha, List.append_nil], hb⟩

/-- A position between two characters of a text, or at one of its ends. -/
def Border (t : Text) (offset : Nat) : Prop := ∃ a b, t = a ++ b ∧ bytes a = offset

theorem border_bytes (t : Text) : Border t t.bytes := ⟨t, [], (List.append_nil t).symm, rfl⟩

/-- Between two borders stands a text. -/
theorem Border.exists_text {lo hi : Nat} (hlo : Border t lo) (hhi : Border t hi) (hle : lo ≤ hi) :
    ∃ a m b, t = a ++ (m ++ b) ∧ bytes a = lo ∧ bytes a + bytes m = hi := by
  obtain ⟨a, b, rfl, rfl⟩ := hlo
  obtain ⟨a', b', ht, rfl⟩ := hhi
  obtain ⟨m, rfl, rfl⟩ := exists_between ht hle
  exact ⟨a, m, b', rfl, rfl, (bytes_append a m).symm⟩

/-- There is nothing from a position to one before it. -/
theorem slice_of_stop_le (t : Text) {s : Span} (h : s.stop ≤ s.start) : slice t s = [] := by
  rw [slice, Span.length, Nat.sub_eq_zero_of_le h, takeBytes_zero]

/-- A character that starts before a border ends there at the latest. -/
theorem stop_le_of_border {hi : Nat} {pre post : Text} {c : Char} (ht : t = pre ++ c :: post)
    (hhi : Border t hi) (hlt : bytes pre < hi) : bytes pre + c.utf8Size ≤ hi := by
  obtain ⟨a, b, hab, rfl⟩ := hhi
  obtain ⟨m, rfl, hm⟩ := exists_between (ht.symm.trans hab) (Nat.le_of_lt hlt)
  cases m with
  | nil => exact absurd hlt (by rw [List.append_nil]; exact Nat.lt_irrefl _)
  | cons d m =>
    obtain ⟨rfl, -⟩ := List.cons.inj hm
    rw [bytes_append, bytes_cons]
    omega

end Text
end BraceTree
