import BraceTree.Proofs.Brace.Appended
import BraceTree.Proofs.Text.Closed

/-!
# Blanks before a brace

Blanks outside of literals are no braces and change no reading. So a source with other blanks in a
place has the same braces, and those behind the place are moved by the difference
(`Brace.ofSource_respaced`). Whether a place is outside of literals is told by the brace behind the
blanks: blanks on one line do not end a literal, and a brace in one is text.
-/

namespace BraceTree

/-- Where a position is when `old` bytes at a place are replaced by `new` ones. -/
def shiftFrom (place old new offset : Nat) : Nat :=
  if offset < place then offset else offset - old + new

theorem shiftFrom_of_lt {place offset : Nat} (h : offset < place) (old new : Nat) :
    shiftFrom place old new offset = offset := if_pos h

theorem shiftFrom_of_le {place old offset : Nat} (h : place + old ≤ offset) (new : Nat) :
    shiftFrom place old new offset = offset - old + new := if_neg (by omega)

namespace Brace

variable {before gap gap' after : Text}

/-- There are no braces among blanks. -/
theorem ofGlyphs_of_blank {gs : List Glyph} (h : ∀ g ∈ gs, Text.isBlank g.char = true) :
    ∀ n : Nat, ofGlyphs n gs = [] := by
  induction gs with
  | nil => exact fun _ => rfl
  | cons g gs ih =>
    intro n
    obtain ⟨hg, hgs⟩ := List.forall_mem_cons.mp h
    rw [ofGlyphs_cons, Glyph.is_eq_false_of_blank hg (by decide),
      Glyph.is_eq_false_of_blank hg (by decide), if_neg Bool.false_ne_true,
      if_neg Bool.false_ne_true, ih hgs]

/-- **The braces around blanks** are those before and those behind them. -/
theorem ofSource_around (hout : Quoting.outside.after before = .outside)
    (hgap : Text.isBlankText gap = true) (after : Text) : ofSource (before ++ (gap ++ after)) =
      ofSource before ++ (ofSource after).map (moved (· + (before.bytes + gap.bytes))) := by
  have hblank : ofGlyphs (0 + before.bytes) gap.glyphs = [] := by
    refine ofGlyphs_of_blank (fun g hg => ?_) _
    have hmem : g.char ∈ Glyph.chars gap.glyphs := List.mem_map_of_mem hg
    rw [Text.chars_glyphs] at hmem
    exact List.all_eq_true.mp hgap _ hmem
  rw [ofSource, Text.Closed.glyphs_append hout,
    Text.Closed.glyphs_append (Text.Closed.of_isBlankText hgap), ofGlyphs_append, ofGlyphs_append,
    Text.chars_glyphs, Text.chars_glyphs, hblank, List.nil_append, Nat.add_assoc, ofGlyphs_add]
  rfl

/-- **A source with other blanks in a place has the same braces**, and only those behind it are at
other places. -/
theorem ofSource_respaced (hout : Quoting.outside.after before = .outside)
    (hgap : Text.isBlankText gap = true) (hgap' : Text.isBlankText gap' = true) (after : Text) :
    ofSource (before ++ (gap' ++ after)) = (ofSource (before ++ (gap ++ after))).map
      (moved (shiftFrom before.bytes gap.bytes gap'.bytes)) := by
  have hbefore : (ofSource before).map (moved (shiftFrom before.bytes gap.bytes gap'.bytes)) =
      ofSource before := by
    refine (List.map_congr_left fun b hb => ?_).trans (List.map_id _)
    rw [moved, shiftFrom_of_lt (offset_lt_of_mem_ofSource hb)]
    rfl
  have hbehind : moved (shiftFrom before.bytes gap.bytes gap'.bytes) ∘
      moved (· + (before.bytes + gap.bytes)) = moved (· + (before.bytes + gap'.bytes)) := by
    funext b
    simp only [Function.comp, moved]
    rw [shiftFrom_of_le (by omega)]
    congr 1
    omega
  rw [ofSource_around hout hgap, ofSource_around hout hgap', List.map_append, List.map_map, hbefore,
    hbehind]

/-- **Before a brace and the blanks before it a reader is outside of literals.** -/
theorem outside_of_mem {b : Brace} (hgap : Text.isBlankText gap = true) (hline : '\n' ∉ gap)
    (hb : b ∈ ofSource (before ++ (gap ++ after)))
    (hoffset : b.offset = Text.bytes (before ++ gap)) :
    Quoting.outside.after before = .outside := by
  obtain ⟨pre, g, post, hsplit, hpre, hg⟩ := exists_glyph hb
  have hchars : Glyph.chars pre = before ++ gap := by
    have hsource : Glyph.chars pre ++ Glyph.chars (g :: post) = (before ++ gap) ++ after := by
      rw [← Glyph.chars_append, ← hsplit, Text.chars_glyphs, List.append_assoc]
    exact (Text.append_inj_of_bytes_eq hsource (hpre.symm.trans hoffset)).1
  obtain ⟨-, hrest⟩ := Text.glyphsFrom_split hsplit
  obtain ⟨hhead, -⟩ := List.cons.inj hrest
  -- the brace is structure, and no newline
  have hquoted := congrArg Glyph.quoted hhead
  rw [hg.elim (Glyph.is_iff.mp · |>.1) (Glyph.is_iff.mp · |>.1)] at hquoted
  have hnewline : g.char ≠ '\n' := by
    rcases hg with hg | hg <;> rw [(Glyph.is_iff.mp hg).2] <;> decide
  have hout := Quoting.eq_outside_of_step hquoted.symm hnewline
  rw [hchars, Quoting.after_append] at hout
  exact Quoting.eq_outside_of_after_blank (Quoting.Proper.after (q := .outside) trivial before) hgap
    hline hout

end Brace
end BraceTree
