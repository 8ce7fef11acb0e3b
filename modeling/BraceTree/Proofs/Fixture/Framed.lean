import Mathlib.Data.List.Infix
import BraceTree.Fixture.Basic
import BraceTree.Proofs.Header.Legible
import BraceTree.Proofs.Text.Trim

/-!
# A fixture is taken apart where it was put together

A fixture is written around two texts: the statement of what is expected, between two lines of
dashes, and behind them the source. What stands around the two (`Frame`) may vary in its line breaks
and in the byte order marks at the start. None of it gets into either text, and neither text loses
anything to it: taking the fixture apart gives both of them back (`Framable.splitText_eq`).

Whether it does depends on the statement only. The closing dashes have to be the first ones at the
start of a line, and a carriage return at the end of the statement would be taken for a part of the
line break behind it (`Framable`). A statement that fails in either way is not found again
(`framable_of_splitText_eq`). Nothing is asked of the source, which may begin with line breaks and
have lines of dashes itself. A statement may begin with line breaks as well, since only one of those
behind the opening dashes is taken off, and this is the one of the frame.
-/

namespace BraceTree.Fixture

/-! ## Frames -/

/-- A line break: a newline, perhaps with a carriage return in front of it. -/
inductive LineBreak where
  | newline
  | returnAndNewline
  deriving DecidableEq

/-- The number of carriage returns in a line break. -/
def LineBreak.returns : LineBreak → Nat
  | .newline => 0
  | .returnAndNewline => 1

/-- The text of a line break. -/
def LineBreak.text (b : LineBreak) : Text := List.replicate b.returns '\r' ++ ['\n']

/-- **What stands around the two texts of a fixture.** -/
structure Frame where
  /-- The number of byte order marks at the start. -/
  marks : Nat
  /-- The line break behind the opening dashes. -/
  opening : LineBreak
  /-- The line break in front of the closing dashes. -/
  inner : LineBreak
  /-- The line break behind the closing dashes. -/
  closing : LineBreak
  deriving DecidableEq

/-- What stands behind a statement of expectations. -/
def Frame.behind (frame : Frame) (source : Text) : Text :=
  frame.inner.text ++ (dashes ++ (frame.closing.text ++ source))

theorem behind_eq (frame : Frame) (source : Text) :
    frame.behind source = List.replicate frame.inner.returns '\r' ++
      '\n' :: (dashes ++ (frame.closing.text ++ source)) := by
  rw [Frame.behind, LineBreak.text, List.append_assoc]
  rfl

/-- The text of a fixture. -/
def Frame.around (frame : Frame) (front source : Text) : Text :=
  List.replicate frame.marks '\uFEFF' ++
    (dashes ++ (frame.opening.text ++ (front ++ frame.behind source)))

/-- **A text that can stand between two lines of dashes.** -/
structure Framable (front : Text) : Prop where
  /-- It does not begin with dashes. -/
  noStart : ¬ dashes <+: front
  /-- No later line of it begins with dashes. -/
  noLine : ¬ '\n' :: dashes <:+: front
  /-- It does not end with a carriage return. -/
  noReturn : front.getLast? ≠ some '\r'

theorem framable_iff {front : Text} : Framable front ↔
    ¬ dashes <+: front ∧ ¬ '\n' :: dashes <:+: front ∧ front.getLast? ≠ some '\r' :=
  ⟨fun h => ⟨h.noStart, h.noLine, h.noReturn⟩, fun ⟨hstart, hline, hreturn⟩ =>
    ⟨hstart, hline, hreturn⟩⟩

instance (front : Text) : Decidable (Framable front) := decidable_of_iff' _ framable_iff

variable {frame : Frame} {front source rest : Text}

/-! ## Line breaks -/

@[simp] theorem dropLineBreak_text (b : LineBreak) (t : Text) :
    dropLineBreak (b.text ++ t) = t := by
  cases b <;> rfl

/-- The carriage returns of a line break are taken off a text that has none at its end. -/
theorem dropReturns (h : front.getLast? ≠ some '\r') (n : Nat) :
    ((front ++ List.replicate n '\r').reverse.dropWhile (· == '\r')).reverse = front := by
  rw [List.reverse_append, List.reverse_replicate,
    Text.dropWhile_replicate_append (List.head?_reverse ▸ h), List.reverse_reverse]

/-- And no text gets longer by it. -/
theorem length_dropReturns_le (t : Text) :
    (t.reverse.dropWhile (· == '\r')).reverse.length ≤ t.length := by
  calc (t.reverse.dropWhile (· == '\r')).reverse.length
      = (t.reverse.dropWhile (· == '\r')).length := List.length_reverse
    _ ≤ t.reverse.length := (List.dropWhile_sublist _).length_le
    _ = t.length := List.length_reverse

/-! ## The closing dashes -/

/-- A text that begins with a word does so before any character that is not in the word. -/
theorem prefix_of_prefix_append {word : Text} {c : Char} (hc : c ∉ word)
    (h : word <+: front ++ c :: rest) : word <+: front := by
  have hfront : front ++ [c] <+: front ++ c :: rest := ⟨rest, by simp⟩
  rcases List.prefix_or_prefix_of_prefix h hfront with h | h
  · rcases List.prefix_concat_iff.mp h with rfl | h
    · exact absurd (List.mem_concat_self ..) hc
    · exact h
  · exact absurd (h.subset (List.mem_concat_self ..)) hc

theorem dropPrefix?_eq_none {word t : Text} (h : ¬ word <+: t) : Text.dropPrefix? word t = none :=
  Option.eq_none_iff_forall_ne_some.mpr fun u hu => h ⟨u, (Text.dropPrefix?_eq_some hu).symm⟩

/-- A line break keeps the dashes behind it out of what stands in front. -/
theorem dropPrefix?_dashes (h : ¬ dashes <+: front) (frame : Frame) (source : Text) :
    Text.dropPrefix? dashes (front ++ frame.behind source) = none := by
  obtain ⟨c, rest, hbehind, hc⟩ : ∃ c rest, frame.behind source = c :: rest ∧ c ∉ dashes := by
    rw [Frame.behind]
    cases frame.inner
    · exact ⟨'\n', _, rfl, by decide⟩
    · exact ⟨'\r', _, rfl, by decide⟩
  rw [hbehind]
  exact dropPrefix?_eq_none fun hstart => h (prefix_of_prefix_append hc hstart)

/-- **The first line that begins with dashes is found.** -/
theorem splitClosing?_append (h : ¬ '\n' :: dashes <:+: front) (rest : Text) :
    splitClosing? (front ++ '\n' :: (dashes ++ rest)) = some (front, rest) := by
  induction front with
  | nil => rw [List.nil_append, splitClosing?, if_pos rfl, Text.dropPrefix?_append]
  | cons c front ih =>
    have hskip : (if c = '\n' then Text.dropPrefix? dashes (front ++ '\n' :: (dashes ++ rest))
        else none) = none := by
      split
      · next hc =>
        refine dropPrefix?_eq_none fun hstart => h ?_
        obtain ⟨tail, rfl⟩ := prefix_of_prefix_append (by decide) hstart
        exact ⟨[], tail, by rw [hc]; rfl⟩
      · rfl
    rw [List.cons_append, splitClosing?, hskip]
    dsimp only
    rw [ih fun hline => h (hline.trans (List.suffix_cons c front).isInfix)]
    rfl

/-- Behind such a line nothing is found any more. -/
theorem exists_splitClosing? (front rest : Text) :
    ∃ p, splitClosing? (front ++ '\n' :: (dashes ++ rest)) = some p ∧
      p.1.length ≤ front.length := by
  induction front with
  | nil => exact ⟨([], rest), splitClosing?_append (by decide) rest, Nat.le_refl 0⟩
  | cons c front ih =>
    rw [List.cons_append, splitClosing?]
    split
    · next t _ => exact ⟨([], t), rfl, Nat.zero_le _⟩
    · obtain ⟨p, hp, hle⟩ := ih
      exact ⟨(c :: p.1, p.2), by rw [hp]; rfl, Nat.succ_le_succ hle⟩

/-- The carriage returns of a line break are in no line of dashes. -/
theorem noLine_returns (h : ¬ '\n' :: dashes <:+: front) (b : LineBreak) :
    ¬ '\n' :: dashes <:+: front ++ List.replicate b.returns '\r' := by
  cases b with
  | newline => rwa [LineBreak.returns, List.replicate_zero, List.append_nil]
  | returnAndNewline =>
    intro hline
    rcases List.infix_concat_iff.mp hline with hend | hline
    · have hlast := hend.getLast (by decide)
      rw [List.getLast_concat] at hlast
      exact absurd hlast (by decide)
    · exact h hline

/-! ## Taking a fixture apart -/

/-- The byte order marks and the opening dashes are passed over. -/
theorem dropPrefix?_around (frame : Frame) (front source : Text) :
    Text.dropPrefix? dashes ((frame.around front source).dropWhile (· == '\uFEFF')) =
      some (frame.opening.text ++ (front ++ frame.behind source)) := by
  have hmark : ∀ t : Text, (dashes ++ t).head? ≠ some '\uFEFF' := fun t => by
    rw [show (dashes ++ t).head? = some '-' from rfl]
    decide
  rw [Frame.around, Text.dropWhile_replicate_append (hmark _), Text.dropPrefix?_append]

/-- A statement that begins with dashes is cut off before them. -/
theorem splitText_of_begins (h : dashes <+: front) (frame : Frame) (source : Text) :
    ∃ after, splitText (frame.around front source) = .ok ([], after) := by
  obtain ⟨tail, rfl⟩ := h
  rw [splitText, dropPrefix?_around]
  dsimp only
  rw [dropLineBreak_text, List.append_assoc, Text.dropPrefix?_append]
  exact ⟨_, rfl⟩

/-- Any other one goes on up to the first line of dashes. -/
theorem splitText_of_not_begins (h : ¬ dashes <+: front) {found : Text × Text}
    (hfound : splitClosing? (front ++ frame.behind source) = some found) :
    splitText (frame.around front source) =
      .ok ((found.1.reverse.dropWhile (· == '\r')).reverse, dropLineBreak found.2) := by
  rw [splitText, dropPrefix?_around]
  dsimp only
  rw [dropLineBreak_text, dropPrefix?_dashes h, hfound]

/-- **The two texts of a fixture are found again.** -/
theorem Framable.splitText_eq (h : Framable front) (frame : Frame) (source : Text) :
    splitText (frame.around front source) = .ok (front, source) := by
  have hclosing : splitClosing? (front ++ frame.behind source) =
      some (front ++ List.replicate frame.inner.returns '\r', frame.closing.text ++ source) := by
    rw [behind_eq, ← List.append_assoc]
    exact splitClosing?_append (noLine_returns h.noLine frame.inner) _
  rw [splitText_of_not_begins h.noStart hclosing]
  dsimp only
  rw [dropReturns h.noReturn, dropLineBreak_text]

/-- **What is found again can stand between two lines of dashes.** -/
theorem framable_of_splitText_eq (h : splitText (frame.around front source) = .ok (front, source)) :
    Framable front := by
  have hbegins : ¬ dashes <+: front := fun hstart => by
    obtain ⟨after, hafter⟩ := splitText_of_begins hstart frame source
    rw [hafter] at h
    obtain ⟨rfl, -⟩ := Prod.mk.inj (Except.ok.inj h)
    exact absurd hstart (by decide)
  obtain ⟨found, hfound, -⟩ := exists_splitClosing?
    (front ++ List.replicate frame.inner.returns '\r') (frame.closing.text ++ source)
  rw [List.append_assoc, ← behind_eq] at hfound
  rw [splitText_of_not_begins hbegins hfound] at h
  obtain ⟨hfront, -⟩ := Prod.mk.inj (Except.ok.inj h)
  refine ⟨hbegins, fun ⟨before, after, hline⟩ => ?_, fun hlast => ?_⟩
  · -- the cut is at this line or before it, so less than the statement is found
    obtain ⟨found', hfound', hle⟩ := exists_splitClosing? before (after ++ frame.behind source)
    have hsame : before ++ '\n' :: (dashes ++ (after ++ frame.behind source)) =
        front ++ frame.behind source := by
      rw [← hline]
      simp
    rw [hsame, hfound] at hfound'
    obtain rfl := Option.some.inj hfound'
    have hcut : front.length ≤ found.1.length := hfront ▸ length_dropReturns_le found.1
    have hlength := congrArg List.length hline
    simp only [List.length_append, List.length_cons] at hlength
    omega
  · rw [← hfront, List.getLast?_reverse] at hlast
    exact Text.head?_dropWhile_ne '\r' _ hlast

/-- **A fixture is taken apart where it was put together.** Whatever the line breaks, and however
many byte order marks are in front, the two texts that a fixture is written around are found again
exactly if the first one can stand between two lines of dashes. Then the first text, and nothing
else, is what the expectations are read from, in whatever way they are, and the second one, whatever
it is, the source they are about. -/
theorem split_around (frame : Frame) (front source : Text) :
    (splitText (frame.around front source) = .ok (front, source) ↔ Framable front) ∧
    ∀ {α : Type} (read : Text → Option α), Framable front →
      splitWith read (frame.around front source) =
        (read front).elim (.error .malformed) fun e => .ok (e, source) := by
  refine ⟨⟨framable_of_splitText_eq, fun h => h.splitText_eq frame source⟩, fun read h => ?_⟩
  rw [splitWith, h.splitText_eq frame source]
  dsimp only [Except.bind]
  cases read front <;> rfl

/-- Marks in front, line breaks of both kinds, and a source that begins like the end of a
statement. -/
theorem split_around_of_dashedSource :
    Framable "expect_parse_error = true".toList ∧
      splitWith some "\uFEFF\uFEFF---\r\nexpect_parse_error = true\n---\r\n\n---\nfoo()".toList =
        .ok ("expect_parse_error = true".toList, "\n---\nfoo()".toList) := by
  have hfront : Framable "expect_parse_error = true".toList := by decide +kernel
  have htext : Frame.around ⟨2, .returnAndNewline, .newline, .returnAndNewline⟩
      "expect_parse_error = true".toList "\n---\nfoo()".toList =
        "\uFEFF\uFEFF---\r\nexpect_parse_error = true\n---\r\n\n---\nfoo()".toList := by
    decide +kernel
  rw [← htext, (split_around _ _ _).2 some hfront]
  exact ⟨hfront, rfl⟩

end BraceTree.Fixture
