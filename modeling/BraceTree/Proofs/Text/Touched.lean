import BraceTree.Proofs.Text.Located

/-!
# The lines that a span touches

A line takes its newline with it where bytes are counted (`Line.terminated`), so that every byte of
a source is in one line. The line of a position is then the one that its byte is in
(`Line.covers_terminated_iff`), and the lines from that of the first byte of a span to that of its
last one are those that share a byte with the span: a line between the two has its first byte in the
span.

An empty span has no last byte, and the one before it may be in the line above. This is why such a
span is given the line of its start.
-/

namespace BraceTree.Line

variable {source : Text} {l l' : Line} {s : Span} {i offset : Nat}

/-- **A line with the newline that ends it**, as bytes of the source. The last line has none. -/
def terminated (source : Text) (l : Line) : Span :=
  ⟨l.span.start, min (l.span.stop + 1) source.bytes⟩

theorem start_getElem? (hl : (ofSource source)[i]? = some l) :
    (0 :: source.newlines.map (· + 1))[i]? = some l.span.start := by
  rw [← starts_ofSource, List.getElem?_map, hl]
  rfl

theorem stop_getElem? (hl : (ofSource source)[i]? = some l) :
    (source.newlines ++ [source.bytes])[i]? = some l.span.stop := by
  rw [← stops_ofSource, List.getElem?_map, hl]
  rfl

/-- Lines are numbered from the first on. -/
theorem index_getElem? (hl : (ofSource source)[i]? = some l) : l.index = i := by
  have hnumbers : ∀ (ts : List Text) (index start i : Nat),
      (enumerate index start ts)[i]? = some l → l.index = index + i := by
    intro ts
    induction ts with
    | nil => exact fun _ _ _ hl => absurd hl (by simp [enumerate])
    | cons t ts ih =>
      intro index start i hl
      cases i with
      | zero => exact congrArg Line.index (Option.some.inj hl).symm
      | succ i =>
        have := ih _ _ i hl
        omega
  rw [hnumbers _ _ _ _ hl, Nat.zero_add]

/-- The texts of the lines are the pieces between the newlines. -/
theorem texts_ofSource (source : Text) :
    (ofSource source).map (·.text.toList) = Text.splitAt '\n' source := by
  have htexts : ∀ (ts : List Text) (index start : Nat),
      (enumerate index start ts).map (·.text.toList) = ts := by
    intro ts
    induction ts with
    | nil => exact fun _ _ => rfl
    | cons t ts ih =>
      intro index start
      rw [enumerate, List.map_cons, ih, String.toList_ofList]
  exact htexts _ 0 0

/-- **Between two lines there is one byte**, the newline. -/
theorem start_eq_of_next (hl : (ofSource source)[i]? = some l)
    (hl' : (ofSource source)[i + 1]? = some l') : l'.span.start = l.span.stop + 1 := by
  have hstart := start_getElem? hl'
  rw [List.getElem?_cons_succ, List.getElem?_map] at hstart
  obtain ⟨o, ho, hstart⟩ := Option.map_eq_some_iff.mp hstart
  have hstop := stop_getElem? hl
  rw [List.getElem?_append_left (List.getElem?_eq_some_iff.mp ho).1, ho] at hstop
  rw [← hstart, ← Option.some.inj hstop]

/-! ## The line of a position -/

theorem indexAt_lt_length (source : Text) (offset : Nat) :
    indexAt (ofSource source) offset < (ofSource source).length := by
  rw [indexAt_eq_countP, length_ofSource]
  exact Nat.lt_succ_of_le List.countP_le_length

/-- Past the end of a source is the last line. -/
theorem indexAt_of_bytes_le (h : source.bytes ≤ offset) :
    indexAt (ofSource source) offset + 1 = (ofSource source).length := by
  rw [indexAt_eq_countP, length_ofSource, List.countP_eq_length.mpr fun o ho => ?_]
  have := Text.bounds_of_mem_newlinesFrom ho
  exact decide_eq_true (by omega)

/-- **A line starts at or before the positions of it and of the lines below.** So the starts of the
lines are divided by every position, the earlier ones from the later ones. -/
theorem start_le_iff (hl : (ofSource source)[i]? = some l) :
    l.span.start ≤ offset ↔ i ≤ indexAt (ofSource source) offset := by
  have hstart := start_getElem? hl
  rw [indexAt_eq_countP]
  cases i with
  | zero => exact iff_of_true (Option.some.inj hstart ▸ Nat.zero_le _) (Nat.zero_le _)
  | succ i =>
    rw [List.getElem?_cons_succ, List.getElem?_map] at hstart
    obtain ⟨o, ho, hstart⟩ := Option.map_eq_some_iff.mp hstart
    rw [← hstart]
    exact (lt_countP_iff source.pairwise_newlines ho).symm

/-- **It stops at or behind the positions of it and of the lines above**, its newline among them. -/
theorem le_stop_iff (hl : (ofSource source)[i]? = some l) (hoffset : offset ≤ source.bytes) :
    offset ≤ l.span.stop ↔ indexAt (ofSource source) offset ≤ i := by
  have hstop := stop_getElem? hl
  rw [indexAt_eq_countP]
  by_cases hi : i < source.newlines.length
  · rw [List.getElem?_append_left hi] at hstop
    rw [← Nat.not_lt, ← lt_countP_iff source.pairwise_newlines hstop, Nat.not_lt]
  · -- the last line stops where the source does
    have hlast : i = source.newlines.length := by
      have := (List.getElem?_eq_some_iff.mp hl).1
      rw [length_ofSource] at this
      omega
    rw [hlast, List.getElem?_concat_length] at hstop
    rw [hlast, ← Option.some.inj hstop]
    exact iff_of_true hoffset List.countP_le_length

/-- **The line of a position is the one that its byte is in.** -/
theorem covers_terminated_iff (hl : (ofSource source)[i]? = some l)
    (hoffset : offset < source.bytes) :
    (l.terminated source).covers offset = true ↔ indexAt (ofSource source) offset = i := by
  have hstart : l.span.start ≤ offset ↔ _ := start_le_iff hl
  have hstop := le_stop_iff hl (Nat.le_of_lt hoffset)
  rw [terminated, Span.covers_iff, Nat.le_antisymm_iff, ← hstart, ← hstop]
  dsimp only
  omega

theorem indexAt_start (hl : (ofSource source)[i]? = some l) :
    indexAt (ofSource source) l.span.start = i := by
  have hcuts := (cuts_of_mem_ofSource (List.mem_of_getElem? hl)).1
  have hstop := hcuts.stop_eq
  obtain ⟨a, b, hsource, hspan⟩ := hcuts
  have hbytes : l.span.start ≤ source.bytes := by
    rw [hsource, hspan, Text.bytes_append]
    exact Nat.le_add_right _ _
  have hle := (le_stop_iff hl hbytes).mp (by omega)
  exact Nat.le_antisymm hle ((start_le_iff hl).mp (Nat.le_refl _))

/-! ## The lines of a span -/

theorem indicesIn_eq (source : Text) (s : Span) : indicesIn (ofSource source) s =
    ⟨indexAt (ofSource source) s.start,
      indexAt (ofSource source) (max (s.stop - 1) s.start) + 1⟩ := by
  have hne : (ofSource source).isEmpty = false := by
    rw [List.isEmpty_eq_false_iff_exists_mem]
    exact List.exists_mem_of_length_pos (by rw [length_ofSource]; exact Nat.succ_pos _)
  rw [indicesIn, hne, if_neg Bool.false_ne_true]

/-- **From the line of one position to that of a later one** there are the lines of the positions
between them. -/
theorem exists_indexAt_iff {lo hi : Nat} (hle : lo ≤ hi) :
    (∃ o, lo ≤ o ∧ o ≤ hi ∧ indexAt (ofSource source) o = i) ↔
      indexAt (ofSource source) lo ≤ i ∧ i ≤ indexAt (ofSource source) hi := by
  constructor
  · rintro ⟨o, hlo, hhi, rfl⟩
    exact ⟨indexAt_mono _ hlo, indexAt_mono _ hhi⟩
  · rintro ⟨hlo, hhi⟩
    have hlt := Nat.lt_of_le_of_lt hhi (indexAt_lt_length source hi)
    have hl := List.getElem?_eq_getElem hlt
    rcases Nat.lt_or_eq_of_le hlo with hlo | heq
    · -- the line starts between the two
      have hstart : ¬ (ofSource source)[i].span.start ≤ lo := fun hstart =>
        Nat.not_le_of_lt hlo ((start_le_iff hl).mp hstart)
      exact ⟨_, by omega, (start_le_iff hl).mpr hhi, indexAt_start hl⟩
    · exact ⟨lo, Nat.le_refl _, hle, heq⟩

/-- **The lines in a span are those that share a byte with it**, and for an empty span the line of
its start. -/
theorem covers_indicesIn_iff (hle : s.start ≤ s.stop) (hstop : s.stop ≤ source.bytes) :
    (indicesIn (ofSource source) s).covers i = true ↔
      (∃ l, (ofSource source)[i]? = some l ∧
        ∃ o, s.covers o = true ∧ (l.terminated source).covers o = true) ∨
      (s.start = s.stop ∧ i = indexAt (ofSource source) s.start) := by
  rw [indicesIn_eq, Span.covers_iff, Nat.lt_succ_iff]
  rcases Nat.lt_or_eq_of_le hle with hlt | heq
  · have hlast : max (s.stop - 1) s.start = s.stop - 1 := Nat.max_eq_left (by omega)
    rw [hlast, ← exists_indexAt_iff (by omega), or_iff_left fun h => Nat.ne_of_lt hlt h.1]
    constructor
    · rintro ⟨o, hlo, hhi, rfl⟩
      have hl := List.getElem?_eq_getElem (indexAt_lt_length source o)
      exact ⟨_, hl, o, Span.covers_iff.mpr ⟨hlo, by omega⟩,
        (covers_terminated_iff hl (by omega)).mpr rfl⟩
    · rintro ⟨l, hl, o, ho, hterminated⟩
      obtain ⟨hlo, hhi⟩ := Span.covers_iff.mp ho
      exact ⟨o, hlo, by omega, (covers_terminated_iff hl (by omega)).mp hterminated⟩
  · have hlast : max (s.stop - 1) s.start = s.start := Nat.max_eq_right (by omega)
    have hnone : ¬ ∃ l, (ofSource source)[i]? = some l ∧
        ∃ o, s.covers o = true ∧ (l.terminated source).covers o = true := by
      rintro ⟨l, -, o, ho, -⟩
      have := Span.covers_iff.mp ho
      omega
    rw [hlast, or_iff_right hnone, and_iff_right heq, Nat.le_antisymm_iff]
    exact and_comm

/-- **Lines and positions agree.** The texts of the lines with newlines between them are the source,
each is the source at the span of its line, and from one span to the next there is one byte. The
line of a position is the number of newlines before it, and past the end of the source it is the
last line. The lines in a span of the source are those that share a byte with it when each takes its
newline with it, for an empty span the line of its start, and there always is one. -/
theorem ofSource_indexed (source : Text) :
    (['\n'] : Text).intercalate ((ofSource source).map (·.text.toList)) = source ∧
    (∀ (i : Nat) (l : Line), (ofSource source)[i]? = some l →
      l.index = i ∧ Text.slice source l.span = l.text.toList) ∧
    (∀ (i : Nat) (l l' : Line), (ofSource source)[i]? = some l → (ofSource source)[i + 1]? = some l' →
      l'.span.start = l.span.stop + 1) ∧
    (∀ offset ≤ source.bytes,
      indexAt (ofSource source) offset = source.newlines.countP (· < offset)) ∧
    (∀ offset, source.bytes < offset →
      indexAt (ofSource source) offset + 1 = (ofSource source).length) ∧
    ∀ s : Span, s.start ≤ s.stop → s.stop ≤ source.bytes →
      (indicesIn (ofSource source) s).start < (indicesIn (ofSource source) s).stop ∧
      ∀ i, (indicesIn (ofSource source) s).covers i = true ↔
        (∃ l, (ofSource source)[i]? = some l ∧
          ∃ o, s.covers o = true ∧ (l.terminated source).covers o = true) ∨
        (s.start = s.stop ∧ i = indexAt (ofSource source) s.start) := by
  refine ⟨?_, fun i l hl => ⟨index_getElem? hl, ?_⟩, fun i l l' => start_eq_of_next,
    fun offset _ => indexAt_eq_countP source offset,
    fun offset hoffset => indexAt_of_bytes_le (Nat.le_of_lt hoffset),
    fun s hle hstop => ⟨?_, fun i => covers_indicesIn_iff hle hstop⟩⟩
  · rw [texts_ofSource]
    exact (Text.intercalate_splitAt '\n' source).1
  · exact (cuts_of_mem_ofSource (List.mem_of_getElem? hl)).1.slice_eq
  · rw [indicesIn_eq]
    exact Nat.lt_succ_of_le (indexAt_mono _ (Nat.le_max_right _ _))

/-- A character of two bytes, a blank line, a span of nothing but newlines and an empty one behind
a newline. -/
theorem ofSource_indexed_of_blank_line :
    (ofSource "é\n\nx".toList).map (·.span) = [⟨0, 2⟩, ⟨3, 3⟩, ⟨4, 5⟩] ∧
      (indexAt (ofSource "é\n\nx".toList) 1 = [2, 3].countP (· < 1)) ∧
      indexAt (ofSource "é\n\nx".toList) 9 + 1 = 3 ∧
      (∃ l, (ofSource "é\n\nx".toList)[1]? = some l ∧ ∃ o, (⟨2, 4⟩ : Span).covers o = true ∧
        (l.terminated "é\n\nx".toList).covers o = true) ∧
      (indicesIn (ofSource "é\n\nx".toList) ⟨2, 4⟩).covers 2 = false ∧
      (indicesIn (ofSource "é\n\nx".toList) ⟨3, 3⟩).covers 1 = true := by
  obtain ⟨-, -, -, hcount, hpast, hspans⟩ := ofSource_indexed "é\n\nx".toList
  obtain ⟨-, hnewlines⟩ := hspans ⟨2, 4⟩ (by decide) (by decide)
  obtain ⟨-, hempty⟩ := hspans ⟨3, 3⟩ (by decide) (by decide)
  refine ⟨by decide, hcount 1 (by decide), hpast 9 (by decide), ?_, by decide,
    (hempty 1).mpr (.inr ⟨rfl, by decide⟩)⟩
  exact ((hnewlines 1).mp (by decide)).resolve_right (by decide)

end BraceTree.Line
