import BraceTree.Proofs.Text.Newlines

/-!
# Where a part of a source stands

A span says nothing by itself: it may reach past the end of a source, or have an end in the middle
of a character. It is of use if it cuts a text out of the source (`Text.Cuts`). Then it is within
bounds, both ends lie between characters, and the text at it is known. Spans are computed from each
other by adding the sizes of texts, so what is needed of `Cuts` is that it passes on to the parts of
a text (`Cuts.part`).

The line of a position is looked up among the starts of all lines. What is found is the number of
newlines before the position (`Line.indexAt_ofSource`), and a text without a newline lies within one
line (`Line.exists_around`).
-/

namespace BraceTree

namespace Text

/-- **A span that cuts a text out of a source**: the text stands in the source, and the span goes
from where it starts to where it ends. -/
def Cuts (source : Text) (s : Span) (t : Text) : Prop :=
  ∃ a b, source = a ++ (t ++ b) ∧ s = ⟨bytes a, bytes a + bytes t⟩

/-- **A span that marks something on a line**: what it cuts out is not empty, and there is no
newline in it. -/
def Marks (source : Text) (s : Span) : Prop := ∃ t, Cuts source s t ∧ t ≠ [] ∧ '\n' ∉ t

variable {source t a m b : Text} {s : Span} {lo hi : Nat}

/-- Between two borders a text is cut out. -/
theorem cuts_of_border (hlo : Border source lo) (hhi : Border source hi) (hle : lo ≤ hi) :
    Cuts source ⟨lo, hi⟩ (slice source ⟨lo, hi⟩) := by
  obtain ⟨a, m, b, rfl, rfl, rfl⟩ := hlo.exists_text hhi hle
  rw [slice_append]
  exact ⟨a, b, rfl, rfl⟩

/-- At a border nothing is cut out. -/
theorem cuts_nil (hlo : Border source lo) : Cuts source ⟨lo, lo⟩ [] := by
  obtain ⟨a, b, rfl, rfl⟩ := hlo
  exact ⟨a, b, rfl, rfl⟩

theorem cuts_all (source : Text) : Cuts source ⟨0, source.bytes⟩ source :=
  ⟨[], [], (List.append_nil source).symm, by rw [bytes_nil, Nat.zero_add]⟩

namespace Cuts

theorem slice_eq (h : Cuts source s t) : slice source s = t := by
  obtain ⟨a, b, rfl, rfl⟩ := h
  exact slice_append a t b

theorem stop_eq (h : Cuts source s t) : s.stop = s.start + t.bytes := by
  obtain ⟨a, b, -, rfl⟩ := h
  rfl

theorem border_start (h : Cuts source s t) : Border source s.start := by
  obtain ⟨a, b, hsplit, rfl⟩ := h
  exact ⟨a, t ++ b, hsplit, rfl⟩

/-- **A part of what is cut out is cut out as well**, that many bytes further on. -/
theorem part (h : Cuts source s (a ++ (m ++ b))) :
    Cuts source ⟨s.start + a.bytes, s.start + a.bytes + m.bytes⟩ m := by
  obtain ⟨c, d, rfl, rfl⟩ := h
  rw [List.append_assoc, List.append_assoc, ← List.append_assoc c]
  exact ⟨c ++ a, b ++ d, rfl, by rw [bytes_append c a]⟩

/-- The end of what is cut out. -/
theorem ending (h : Cuts source s (a ++ m)) : Cuts source ⟨s.stop - m.bytes, s.stop⟩ m := by
  have hstop := h.stop_eq
  rw [← List.append_nil m] at h
  have hpart := h.part
  rw [bytes_append] at hstop
  have hstart : s.stop - m.bytes = s.start + a.bytes := by omega
  rw [hstart, hstop, ← Nat.add_assoc]
  exact hpart

end Cuts

/-! ## Splitting at a character -/

/-- The first piece of a text starts with whatever the text starts with, up to the first
separator. -/
theorem exists_splitAt_append {sep : Char} (hm : sep ∉ m) (b : Text) :
    ∃ p ps, splitAt sep (m ++ b) = (m ++ p) :: ps := by
  induction m with
  | nil => exact List.exists_cons_of_ne_nil (splitAt_ne_nil sep b)
  | cons c m ih =>
    obtain ⟨hc, hm⟩ := not_or.mp (hm ∘ List.mem_cons.mpr)
    obtain ⟨p, ps, heq⟩ := ih hm
    refine ⟨p, ps, ?_⟩
    rw [List.cons_append, splitAt, if_neg (Ne.symm hc), heq]
    rfl

/-- **A text is its pieces with the separator between them**, and the separator is in none. -/
theorem intercalate_splitAt (sep : Char) (t : Text) :
    ([sep] : Text).intercalate (splitAt sep t) = t ∧ ∀ p ∈ splitAt sep t, sep ∉ p := by
  induction t with
  | nil => exact ⟨rfl, fun p hp => List.mem_singleton.mp hp ▸ List.not_mem_nil⟩
  | cons c cs ih =>
    obtain ⟨hjoin, hnot⟩ := ih
    obtain ⟨p, ps, heq⟩ := List.exists_cons_of_ne_nil (splitAt_ne_nil sep cs)
    rw [heq] at hjoin hnot
    obtain ⟨hp, hps⟩ := List.forall_mem_cons.mp hnot
    rw [splitAt, heq]
    split
    · next hc =>
      refine ⟨?_, List.forall_mem_cons.mpr ⟨List.not_mem_nil, hnot⟩⟩
      rw [List.intercalate_cons_cons, hjoin, hc]
      rfl
    · next hc =>
      refine ⟨?_, List.forall_mem_cons.mpr
        ⟨List.not_mem_cons_of_ne_of_not_mem (Ne.symm hc) hp, hps⟩⟩
      rw [← hjoin]
      cases ps <;> rfl

end Text

namespace Line

open Text (Cuts Border)

variable {source t : Text} {l : Line} {s : Span} {index start offset : Nat}

/-- At a border these are the newlines of the text before it. -/
theorem indexAt_ofSource (a b : Text) : indexAt (ofSource (a ++ b)) a.bytes = a.count '\n' := by
  rw [indexAt_eq_countP, Text.countP_newlines_append]

theorem indexAt_of_border (h : Border source offset) :
    indexAt (ofSource source) offset = (source.takeBytes offset).count '\n' := by
  obtain ⟨a, b, rfl, rfl⟩ := h
  rw [indexAt_ofSource, Text.takeBytes_append]

/-- A later position is in no earlier line. -/
theorem indexAt_mono (lines : List Line) {offset' : Nat} (hle : offset ≤ offset') :
    indexAt lines offset ≤ indexAt lines offset' := by
  refine Nat.sub_le_sub_right (List.Sublist.length_le ?_) 1
  induction lines with
  | nil => exact .slnil
  | cons l lines ih =>
    by_cases hl : l.span.start ≤ offset
    · rw [List.takeWhile_cons_of_pos (by simpa using hl),
        List.takeWhile_cons_of_pos (by simpa using Nat.le_trans hl hle)]
      exact ih.cons_cons l
    · rw [List.takeWhile_cons_of_neg (by simpa using hl)]
      exact List.nil_sublist _

/-- **Every line cuts its text out of the source**, and there is no newline in it. -/
theorem cuts_of_mem_ofSource (hl : l ∈ ofSource source) :
    Cuts source l.span l.text.toList ∧ '\n' ∉ l.text.toList := by
  have hcuts : ∀ {ts : List Text} {pre : Text} {index : Nat},
      source = pre ++ (['\n'] : Text).intercalate ts → l ∈ enumerate index pre.bytes ts →
        Cuts source l.span l.text.toList ∧ l.text.toList ∈ ts := by
    intro ts
    induction ts with
    | nil => exact fun _ hl => absurd hl List.not_mem_nil
    | cons t ts ih =>
      intro pre index hsource hl
      rcases List.mem_cons.mp hl with rfl | hl
      · obtain ⟨rest, hrest⟩ : ∃ rest, (['\n'] : Text).intercalate (t :: ts) = t ++ rest := by
          cases ts with
          | nil => exact ⟨[], List.intercalate_singleton.trans (List.append_nil t).symm⟩
          | cons u us => exact ⟨_, List.intercalate_cons_cons.trans (List.append_assoc t _ _)⟩
        rw [String.toList_ofList]
        exact ⟨⟨pre, rest, hsource.trans (congrArg (pre ++ ·) hrest), rfl⟩, List.mem_cons_self⟩
      · cases ts with
        | nil => exact absurd hl List.not_mem_nil
        | cons u us =>
          have hbytes : pre.bytes + t.bytes + 1 = Text.bytes (pre ++ (t ++ ['\n'])) := by
            simp only [Text.bytes_append, ← Nat.add_assoc]
            rfl
          rw [hbytes] at hl
          obtain ⟨h, hmem⟩ := ih (by
            rw [hsource, List.intercalate_cons_cons]
            simp only [List.append_assoc]) hl
          exact ⟨h, List.mem_cons_of_mem t hmem⟩
  obtain ⟨hjoin, hnot⟩ := Text.intercalate_splitAt '\n' source
  obtain ⟨h, hmem⟩ := @hcuts _ [] _ hjoin.symm hl
  exact ⟨h, hnot _ hmem⟩

/-- **A text without a newline lies within one line.** -/
theorem exists_around (h : Cuts source s t) (hline : '\n' ∉ t) :
    ∃ l ∈ ofSource source, l.span.start ≤ s.start ∧ s.stop ≤ l.span.stop := by
  have haround : ∀ (a b : Text) (index start : Nat),
      ∃ l ∈ enumerate index start (Text.splitAt '\n' (a ++ (t ++ b))),
        l.span.start ≤ start + a.bytes ∧ start + a.bytes + t.bytes ≤ l.span.stop := by
    intro a b
    induction a with
    | nil =>
      intro index start
      obtain ⟨p, ps, heq⟩ := Text.exists_splitAt_append hline b
      rw [List.nil_append, heq, enumerate]
      refine ⟨_, List.mem_cons_self, Nat.le_refl _, ?_⟩
      show start + 0 + t.bytes ≤ start + Text.bytes (t ++ p)
      rw [Text.bytes_append]
      omega
    | cons c cs ih =>
      intro index start
      rw [Text.bytes_cons, ← Nat.add_assoc]
      by_cases hc : c = '\n'
      · subst hc
        obtain ⟨l, hl, hspan⟩ := ih (index + 1) (start + 1)
        rw [List.cons_append, Text.splitAt, if_pos rfl, enumerate]
        exact ⟨l, List.mem_cons_of_mem _ hl, hspan⟩
      · obtain ⟨l, hl, hspan⟩ := ih index (start + c.utf8Size)
        obtain ⟨p, lines, hcs, hcons⟩ := enumerate_splitAt_cons hc index start (cs ++ (t ++ b))
        rw [hcs] at hl
        rw [List.cons_append, hcons]
        rcases List.mem_cons.mp hl with rfl | hl
        · exact ⟨_, List.mem_cons_self, by dsimp only; omega, hspan.2⟩
        · exact ⟨l, List.mem_cons_of_mem _ hl, hspan⟩
  obtain ⟨a, b, rfl, rfl⟩ := h
  obtain ⟨l, hl, hstart, hstop⟩ := haround a b 0 0
  rw [Nat.zero_add] at hstart hstop
  exact ⟨l, hl, hstart, hstop⟩

end Line
end BraceTree
