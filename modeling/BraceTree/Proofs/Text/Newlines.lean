import BraceTree.Proofs.Text.Appended

/-!
# Newlines and lines

The newlines of a source tell its lines. Every line but the first starts behind a newline, and every
line but the last stops at one: the list of all starts and the list of all stops are the positions
of the newlines, with one end of the source added to either (`Line.starts_ofSource`,
`Line.stops_ofSource`). The line of a position is the number of newlines before it, for whatever
position (`Line.indexAt_eq_countP`).
-/

namespace BraceTree

namespace Text

/-- The positions of the newlines of a text that starts at a position. -/
def newlinesFrom : (start : Nat) → Text → List Nat
  | _, [] => []
  | start, c :: cs =>
    if c = '\n' then start :: newlinesFrom (start + 1) cs else newlinesFrom (start + c.utf8Size) cs

/-- The positions of the newlines of a text. -/
def newlines (t : Text) : List Nat := newlinesFrom 0 t

theorem newlinesFrom_append (b : Text) : ∀ (a : Text) (start : Nat),
    newlinesFrom start (a ++ b) = newlinesFrom start a ++ newlinesFrom (start + bytes a) b
  | [], _ => rfl
  | c :: cs, start => by
    rw [List.cons_append, newlinesFrom, newlinesFrom, bytes_cons, ← Nat.add_assoc]
    split
    · next hc => rw [newlinesFrom_append b cs, hc, List.cons_append]; rfl
    · exact newlinesFrom_append b cs _

/-- Newlines stand in the text. -/
theorem bounds_of_mem_newlinesFrom : ∀ {t : Text} {start offset : Nat},
    offset ∈ newlinesFrom start t → start ≤ offset ∧ offset < start + t.bytes
  | c :: cs, start, offset, h => by
    have hsize := c.utf8Size_pos
    rw [newlinesFrom] at h
    rw [bytes_cons]
    split at h
    · rcases List.mem_cons.mp h with rfl | h
      · omega
      · have := bounds_of_mem_newlinesFrom h
        omega
    · have := bounds_of_mem_newlinesFrom h
      omega

/-- **The newlines of a text are where it has one**, in order. -/
theorem mem_newlines_iff {t : Text} {offset : Nat} :
    offset ∈ newlines t ↔ ∃ a b, t = a ++ '\n' :: b ∧ bytes a = offset := by
  constructor
  · have hfrom : ∀ {t : Text} {start : Nat}, offset ∈ newlinesFrom start t →
        ∃ a b, t = a ++ '\n' :: b ∧ start + bytes a = offset := by
      intro t
      induction t with
      | nil => exact fun h => absurd h List.not_mem_nil
      | cons c cs ih =>
        intro start h
        have hrest : ∀ {start' : Nat}, start' = start + c.utf8Size →
            offset ∈ newlinesFrom start' cs →
              ∃ a b, c :: cs = a ++ '\n' :: b ∧ start + bytes a = offset := by
          rintro _ rfl hmem
          obtain ⟨a, b, rfl, hbytes⟩ := ih hmem
          exact ⟨c :: a, b, rfl, by rw [bytes_cons, ← Nat.add_assoc, hbytes]⟩
        rw [newlinesFrom] at h
        split at h
        · next hc =>
          subst hc
          rcases List.mem_cons.mp h with rfl | h
          · exact ⟨[], cs, rfl, rfl⟩
          · exact hrest rfl h
        · exact hrest rfl h
    intro h
    obtain ⟨a, b, ht, hbytes⟩ := hfrom h
    exact ⟨a, b, ht, (Nat.zero_add _).symm.trans hbytes⟩
  · rintro ⟨a, b, rfl, rfl⟩
    rw [newlines, newlinesFrom_append, Nat.zero_add, newlinesFrom, if_pos rfl]
    exact List.mem_append_right _ List.mem_cons_self

theorem pairwise_newlinesFrom : ∀ (t : Text) (start : Nat),
    (newlinesFrom start t).Pairwise (· < ·)
  | [], _ => .nil
  | c :: cs, start => by
    rw [newlinesFrom]
    split
    · exact List.pairwise_cons.mpr
        ⟨fun o ho => (bounds_of_mem_newlinesFrom ho).1, pairwise_newlinesFrom cs _⟩
    · exact pairwise_newlinesFrom cs _

theorem pairwise_newlines (t : Text) : t.newlines.Pairwise (· < ·) := pairwise_newlinesFrom t 0

/-- There are as many positions as newlines. -/
theorem length_newlinesFrom : ∀ (t : Text) (start : Nat),
    (newlinesFrom start t).length = t.count '\n'
  | [], _ => rfl
  | c :: cs, start => by
    rw [newlinesFrom]
    split
    · next hc => rw [hc, List.length_cons, List.count_cons_self, length_newlinesFrom cs]
    · next hc => rw [List.count_cons_of_ne hc, length_newlinesFrom cs]

/-- **Before a border of a text there are the newlines of what stands before it.** -/
theorem countP_newlines_append (a b : Text) :
    (newlines (a ++ b)).countP (· < a.bytes) = a.count '\n' := by
  have hbefore : (newlinesFrom 0 a).countP (· < a.bytes) = (newlinesFrom 0 a).length :=
    List.countP_eq_length.mpr fun o ho => by
      have := bounds_of_mem_newlinesFrom ho
      exact decide_eq_true (by omega)
  have hbehind : (newlinesFrom (0 + a.bytes) b).countP (· < a.bytes) = 0 :=
    List.countP_eq_zero.mpr fun o ho => by
      have := bounds_of_mem_newlinesFrom ho
      simp only [decide_eq_true_eq]
      omega
  rw [newlines, newlinesFrom_append, List.countP_append, hbefore, hbehind, length_newlinesFrom,
    Nat.add_zero]

end Text

namespace Line

variable {source : Text} {index start : Nat}

/-- A character that is no newline makes the first line longer, and the others stand where they
did. -/
theorem enumerate_splitAt_cons {c : Char} (hc : c ≠ '\n') (index start : Nat) (cs : Text) :
    ∃ p lines, enumerate index (start + c.utf8Size) (Text.splitAt '\n' cs) =
        ⟨index, ⟨start + c.utf8Size, start + c.utf8Size + Text.bytes p⟩, String.ofList p⟩ ::
          lines ∧
      enumerate index start (Text.splitAt '\n' (c :: cs)) =
        ⟨index, ⟨start, start + c.utf8Size + Text.bytes p⟩, String.ofList (c :: p)⟩ :: lines := by
  obtain ⟨p, ps, heq⟩ := List.exists_cons_of_ne_nil (Text.splitAt_ne_nil '\n' cs)
  refine ⟨p, enumerate (index + 1) (start + c.utf8Size + Text.bytes p + 1) ps, ?_, ?_⟩
  · rw [heq, enumerate]
  · rw [Text.splitAt, if_neg hc, heq, List.modifyHead_cons, enumerate, Text.bytes_cons,
      ← Nat.add_assoc start]

/-- **A line starts where the text starts or behind a newline**, and stops at a newline or where the
text stops. -/
theorem spans_enumerate : ∀ (t : Text) (index start : Nat),
    (enumerate index start (Text.splitAt '\n' t)).map (·.span.start) =
        start :: (Text.newlinesFrom start t).map (· + 1) ∧
      (enumerate index start (Text.splitAt '\n' t)).map (·.span.stop) =
        Text.newlinesFrom start t ++ [start + t.bytes]
  | [], _, _ => ⟨rfl, rfl⟩
  | c :: cs, index, start => by
    by_cases hc : c = '\n'
    · subst hc
      obtain ⟨hstarts, hstops⟩ := spans_enumerate cs (index + 1) (start + 1)
      have hbytes : start + Text.bytes ('\n' :: cs) = start + 1 + Text.bytes cs :=
        (Nat.add_assoc start 1 _).symm
      rw [Text.splitAt, if_pos rfl, enumerate, Text.newlinesFrom, if_pos rfl, hbytes]
      exact ⟨congrArg (start :: ·) hstarts, congrArg (start :: ·) hstops⟩
    · obtain ⟨p, lines, hcs, hcons⟩ := enumerate_splitAt_cons hc index start cs
      obtain ⟨hstarts, hstops⟩ := spans_enumerate cs index (start + c.utf8Size)
      rw [hcs, List.map_cons] at hstarts hstops
      rw [hcons, Text.newlinesFrom, if_neg hc, Text.bytes_cons, ← Nat.add_assoc]
      exact ⟨congrArg (start :: ·) (List.cons.inj hstarts).2, hstops⟩

theorem starts_ofSource (source : Text) :
    (ofSource source).map (·.span.start) = 0 :: source.newlines.map (· + 1) :=
  (spans_enumerate source 0 0).1

theorem stops_ofSource (source : Text) :
    (ofSource source).map (·.span.stop) = source.newlines ++ [source.bytes] := by
  rw [ofSource, (spans_enumerate source 0 0).2, Nat.zero_add]
  rfl

/-- There is one line more than there are newlines. -/
theorem length_ofSource (source : Text) :
    (ofSource source).length = source.newlines.length + 1 := by
  rw [← List.length_map (f := (·.span.start)), starts_ofSource, List.length_cons, List.length_map]

/-- None of ascending numbers is below a bound if the first is not. -/
theorem countP_cons_eq_zero {ns : List Nat} {m n : Nat} (h : (m :: ns).Pairwise (· < ·))
    (hm : ¬ m < n) : (m :: ns).countP (· < n) = 0 := by
  refine List.countP_eq_zero.mpr fun k hk => ?_
  rw [decide_eq_true_eq]
  rcases List.mem_cons.mp hk with rfl | hk
  · exact hm
  · have := (List.pairwise_cons.mp h).1 k hk
    omega

/-- Among ascending numbers those below a bound come first. -/
theorem lt_countP_iff {n : Nat} : ∀ {ns : List Nat}, ns.Pairwise (· < ·) → ∀ {i m : Nat},
    ns[i]? = some m → (i < ns.countP (· < n) ↔ m < n)
  | k :: ks, h, i, m, hm => by
    by_cases hk : k < n
    · rw [List.countP_cons_of_pos (by simpa using hk)]
      cases i with
      | zero =>
        obtain rfl : k = m := Option.some.inj hm
        exact iff_of_true (Nat.succ_pos _) hk
      | succ i => exact Nat.succ_lt_succ_iff.trans (lt_countP_iff (List.pairwise_cons.mp h).2 hm)
    · have hzero := countP_cons_eq_zero h hk
      have hnot := List.countP_eq_zero.mp hzero m (List.mem_of_getElem? hm)
      rw [hzero]
      exact iff_of_false (Nat.not_lt_zero i) (hnot ∘ decide_eq_true)

/-- So they are what a search from the front comes across. -/
theorem length_takeWhile_lt {n : Nat} : ∀ {ns : List Nat}, ns.Pairwise (· < ·) →
    (ns.takeWhile (· < n)).length = ns.countP (· < n)
  | [], _ => rfl
  | m :: ns, h => by
    by_cases hm : m < n
    · rw [List.takeWhile_cons_of_pos (by simpa using hm), List.length_cons,
        List.countP_cons_of_pos (by simpa using hm),
        length_takeWhile_lt (List.pairwise_cons.mp h).2]
    · rw [List.takeWhile_cons_of_neg (by simpa using hm), countP_cons_eq_zero h hm]
      rfl

/-- **The line of a position is the number of newlines before it**, also inside a character and past
the end of the source. -/
theorem indexAt_eq_countP (source : Text) (offset : Nat) :
    indexAt (ofSource source) offset = source.newlines.countP (· < offset) := by
  -- the first line starts at or before every position, and the others start behind a newline
  have hstarts : ((ofSource source).takeWhile fun l => l.span.start ≤ offset).map (·.span.start) =
      0 :: (source.newlines.takeWhile (· < offset)).map (· + 1) := by
    have htake := List.takeWhile_map (f := fun l : Line => l.span.start) (p := (· ≤ offset))
      (l := ofSource source)
    rw [starts_ofSource, List.takeWhile_cons_of_pos (by simp),
      List.takeWhile_map] at htake
    exact htake.symm
  have hlength := congrArg List.length hstarts
  rw [List.length_map, List.length_cons, List.length_map,
    length_takeWhile_lt (Text.pairwise_newlines source)] at hlength
  rw [indexAt, hlength, Nat.add_sub_cancel]

end Line
end BraceTree
