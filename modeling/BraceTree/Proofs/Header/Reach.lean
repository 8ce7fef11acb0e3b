import BraceTree.Proofs.Brace.Extracted
import BraceTree.Proofs.Header.Lowered

/-!
# How far back a header reaches

The search for a header goes backwards and counts parentheses, and only outside of them does a brace
or a semicolon stop it. So a header may hold whole blocks, namely those that it has in parentheses,
and then it overlaps with the siblings before it. When this happens can be told from the text
between a brace and the end of the header (`Text.Guarded`): the text is on one line, and behind each
place in it where the search would stop, the brace included, more parentheses close than open. A
header reaches back over a brace exactly then (`Header.start_le_iff_of_find?`), and where no header
is found there is no such text (`Header.not_guarded_of_find?_eq_none`).

The search looks at one line by itself. That it sees the same braces and parentheses there as a
reader of the whole source is due to where the line starts, behind a newline or behind the brace of
the parent.
-/

namespace BraceTree

/-! ## What a search takes -/

namespace Glyph

/-- What stops the search for a header outside of parentheses. -/
def stops (g : Glyph) : Bool := g.is '(' || g.is '{' || g.is '}' || g.is ';'

/-- **Glyphs that a search from their end takes as a whole**, given how many parentheses close
behind them: behind each glyph that would stop the search more parentheses close than open. -/
def Guarded (parens : Nat) : List Glyph → Prop
  | [] => True
  | g :: gs =>
    (g.stops = true → gs.countP (·.is '(') < parens + gs.countP (·.is ')')) ∧ Guarded parens gs

instance Guarded.decidable (parens : Nat) : (gs : List Glyph) → Decidable (Guarded parens gs)
  | [] => isTrue trivial
  | _ :: gs =>
    have := Guarded.decidable parens gs
    inferInstanceAs (Decidable (_ ∧ _))

/-- How many parentheses are closed and not opened behind a glyph that is passed, the glyph
included. -/
def passed (parens : Nat) (g : Glyph) : Nat :=
  parens + (if g.is ')' = true then 1 else 0) - if g.is '(' = true then 1 else 0

variable {parens : Nat} {g : Glyph} {gs : List Glyph}

theorem stops_of_is_open (h : g.is '(' = true) : g.stops = true := by
  rw [stops, h]
  rfl

theorem is_close_eq_false_of_stops (h : g.stops = true) : g.is ')' = false := by
  simp only [stops, Bool.or_eq_true] at h
  rcases h with ((h | h) | h) | h <;> exact is_eq_false_of_is h (by decide)

/-- The last of some guarded glyphs stops the search only if there are parentheses behind it. -/
theorem Guarded.pos_of_concat (h : Guarded parens (gs ++ [g])) (hg : g.stops = true) :
    0 < parens := by
  induction gs with
  | nil => exact h.1 hg
  | cons x gs ih => exact ih h.2

/-- **One glyph more at the end** is guarded as what stands before it, with the parentheses that are
then behind that. -/
theorem guarded_concat (hpos : g.stops = true → 0 < parens) :
    Guarded parens (gs ++ [g]) ↔ Guarded (passed parens g) gs := by
  induction gs with
  | nil => exact iff_of_true ⟨hpos, trivial⟩ trivial
  | cons x gs ih =>
    have hcount : (gs ++ [g]).countP (·.is '(') < parens + (gs ++ [g]).countP (·.is ')') ↔
        gs.countP (·.is '(') < passed parens g + gs.countP (·.is ')') := by
      rw [List.countP_append, List.countP_append, List.countP_singleton, List.countP_singleton,
        passed]
      by_cases hopen : g.is '(' = true
      · have := hpos (stops_of_is_open hopen)
        rw [if_pos hopen, is_eq_false_of_is hopen (by decide : '(' ≠ ')')]
        simp only [Bool.false_eq_true, if_false]
        omega
      · rw [if_neg hopen]
        omega
    exact and_congr (imp_congr_right fun _ => hcount) ih

end Glyph

namespace Header

open Glyph (Guarded passed)

variable {parens : Nat} {gs taken : List Glyph}

/-- The search goes on behind a glyph unless that stops it. -/
theorem backwards_cons (parens : Nat) (g : Glyph) (gs : List Glyph) :
    backwards parens (g :: gs) =
      if g.stops = true ∧ parens = 0 then [] else g :: backwards (passed parens g) gs := by
  rw [backwards.eq_def, passed]
  dsimp only
  by_cases hclose : g.is ')' = true
  · have hnot : g.stops = false := Bool.eq_false_iff.mpr fun h =>
      Bool.false_ne_true ((Glyph.is_close_eq_false_of_stops h).symm.trans hclose)
    rw [if_pos hclose, if_pos hclose, hnot, Glyph.is_eq_false_of_is hclose (by decide : ')' ≠ '(')]
    rfl
  · rw [if_neg hclose, if_neg hclose, Nat.add_zero]
    by_cases hopen : g.is '(' = true
    · rw [if_pos hopen, if_pos hopen, Glyph.stops_of_is_open hopen]
      cases parens with
      | zero => rfl
      | succ p => rw [if_neg fun h => Nat.succ_ne_zero p h.2]; rfl
    · rw [if_neg hopen, if_neg hopen, Nat.sub_zero, Glyph.stops, Bool.eq_false_iff.mpr hopen]
      simp

/-- **What the search takes**: as much as is guarded. -/
theorem prefix_backwards_iff : taken.reverse <+: backwards parens gs ↔
    taken.reverse <+: gs ∧ Guarded parens taken := by
  induction gs generalizing parens taken with
  | nil =>
    rw [backwards, List.prefix_nil, List.reverse_eq_nil_iff]
    exact ⟨fun h => ⟨h, h ▸ trivial⟩, And.left⟩
  | cons x gs ih =>
    rcases List.eq_nil_or_concat taken with rfl | ⟨front, g, rfl⟩
    · exact iff_of_true List.nil_prefix ⟨List.nil_prefix, trivial⟩
    · rw [List.concat_eq_append, List.reverse_append, List.reverse_singleton,
        List.singleton_append, backwards_cons, List.cons_prefix_cons]
      split
      · next hstop =>
        refine iff_of_false (fun h => absurd (List.prefix_nil.mp h) (List.cons_ne_nil _ _)) ?_
        rintro ⟨⟨rfl, -⟩, hguarded⟩
        exact absurd hstop.2 (Nat.ne_of_gt (hguarded.pos_of_concat hstop.1))
      · next hgo =>
        rw [List.cons_prefix_cons, ih, ← and_assoc]
        refine and_congr_right fun htaken => ?_
        obtain rfl := htaken.1
        refine (Glyph.guarded_concat fun hstop => ?_).symm
        exact Nat.pos_of_ne_zero fun hzero => hgo ⟨hstop, hzero⟩

end Header

/-- **A text that the search for a header takes as a whole** when it starts at its end: it is on one
line, and behind each place where the search would stop more parentheses close than open. -/
def Text.Guarded (t : Text) : Prop := '\n' ∉ t ∧ Glyph.Guarded 0 t.glyphs

instance (t : Text) : Decidable (Text.Guarded t) := inferInstanceAs (Decidable (_ ∧ _))

/-! ## The end of a text -/

namespace Text

/-- The last line of a text reads by itself as it does at the end of the text. -/
theorem glyphs_afterLast_suffix (t : Text) : (afterLast '\n' t).glyphs <:+ t.glyphs := by
  rcases (afterLast_cases '\n' t).2 with heq | ⟨pre, hpre⟩
  · exact heq.symm ▸ List.suffix_rfl
  · have hread := glyphsFrom_append_newline .outside pre (afterLast '\n' t)
    rw [← hpre] at hread
    exact ⟨_, (hread.trans (List.append_cons _ _ _)).symm⟩

/-- So does any end of it that is read from outside of literals. -/
theorem glyphs_suffix {a : Text} (ha : Quoting.outside.after a = .outside) (s : Text) :
    s.glyphs <:+ (a ++ s).glyphs :=
  ⟨a.glyphs, (Closed.glyphs_append ha s).symm⟩

/-- **Such an end is in the last line exactly if there is no newline in it.** -/
theorem glyphs_suffix_afterLast_iff {a s : Text} (ha : Quoting.outside.after a = .outside) :
    s.glyphs <:+ (afterLast '\n' (a ++ s)).glyphs ↔ '\n' ∉ s := by
  constructor
  · intro h hmem
    have hsuffix := h.map Glyph.char
    rw [← Glyph.chars, ← Glyph.chars, chars_glyphs, chars_glyphs] at hsuffix
    exact (afterLast_cases '\n' (a ++ s)).1 (hsuffix.subset hmem)
  · intro h
    -- both are ends of one text, so the shorter one is an end of the other one
    refine List.suffix_of_suffix_length_le (glyphs_suffix ha s) (glyphs_afterLast_suffix _) ?_
    rw [afterLast_append_of_not_mem h, glyphs, glyphs, length_glyphsFrom, length_glyphsFrom,
      List.length_append]
    exact Nat.le_add_left _ _

/-- Where a glyph is structure and no newline, a text may be read from there on. -/
theorem after_eq_outside {t : Text} {pre post : List Glyph} {g : Glyph}
    (h : t.glyphs = pre ++ g :: post) (hquoted : g.quoted = false) (hline : g.char ≠ '\n') :
    Quoting.outside.after (Glyph.chars pre) = .outside := by
  obtain ⟨-, hpost⟩ := glyphsFrom_split h
  obtain ⟨hg, -⟩ := List.cons.inj hpost
  have hstep := congrArg Glyph.quoted hg
  rw [hquoted] at hstep
  exact Quoting.eq_outside_of_step hstep.symm hline

end Text

namespace Header

variable {a s : Text}

/-- What a search takes of the characters of a line, it takes of its glyphs. -/
theorem suffix_tail_iff_glyphs (ha : Quoting.outside.after a = .outside) :
    s <:+ tail (Text.afterLast '\n' (a ++ s)) ↔
      s.glyphs.reverse <+: backwards 0 (Text.afterLast '\n' (a ++ s)).glyphs.reverse := by
  have hback := backwards_prefix 0 (Text.afterLast '\n' (a ++ s)).glyphs.reverse
  rw [tail]
  generalize backwards 0 (Text.afterLast '\n' (a ++ s)).glyphs.reverse = back at hback ⊢
  rw [Glyph.chars, ← List.map_reverse, ← Glyph.chars]
  rw [← List.reverse_suffix, List.reverse_reverse] at hback ⊢
  constructor
  · intro h
    refine List.suffix_of_suffix_length_le (Text.glyphs_suffix ha s)
      (hback.trans (Text.glyphs_afterLast_suffix _)) ?_
    have hlength := h.length_le
    rwa [Glyph.chars, List.length_map, ← Text.length_glyphsFrom .outside s] at hlength
  · intro h
    have hsuffix := h.map Glyph.char
    rwa [← Glyph.chars, Text.chars_glyphs] at hsuffix

/-- **A search takes the end of a text that may be read by itself exactly if it is guarded.** -/
theorem suffix_tail_iff (ha : Quoting.outside.after a = .outside) :
    s <:+ tail (Text.afterLast '\n' (a ++ s)) ↔ Text.Guarded s := by
  rw [suffix_tail_iff_glyphs ha, prefix_backwards_iff, List.reverse_prefix,
    Text.glyphs_suffix_afterLast_iff ha]
  rfl

/-- A brace in parentheses, one that more parentheses close behind than open on a later line only,
and one with a semicolon outside of parentheses behind it. -/
example : Text.Guarded "\x7d)".toList ∧ ¬ Text.Guarded "\x7d\nb)".toList ∧
    ¬ Text.Guarded "\x7d b); c".toList := by
  decide

/-- A header starts at or before a character that is no blank exactly if the search takes it. -/
theorem start_le_iff_of_atEnd? {lo : Nat} {c : Char} {h : Header}
    (ha : Quoting.outside.after a = .outside) (hc : Text.isBlank c = false)
    (hfound : atEnd? (lo + Text.bytes (a ++ c :: s)) (a ++ c :: s) = some h) :
    h.span.start ≤ lo + Text.bytes a ↔ Text.Guarded (c :: s) := by
  rw [← suffix_tail_iff ha]
  unfold atEnd? at hfound
  dsimp only at hfound
  obtain ⟨line, hline⟩ := Text.exists_append_afterLast '\n' (a ++ c :: s)
  obtain ⟨rest, hrest⟩ := exists_append_tail (Text.afterLast '\n' (a ++ c :: s))
  rw [hrest, ← List.append_assoc] at hline
  generalize tail (Text.afterLast '\n' (a ++ c :: s)) = raw at hfound hline ⊢
  generalize line ++ rest = pre at hline
  split at hfound
  · cases hfound
  · obtain rfl := Option.some.inj hfound
    have hbytes : lo + Text.bytes (a ++ c :: s) - Text.bytes raw = lo + Text.bytes pre := by
      rw [hline, Text.bytes_append]
      omega
    dsimp only
    rw [hbytes]
    constructor
    · intro hle
      obtain ⟨m, -, hraw⟩ := Text.exists_between hline.symm
        (show Text.bytes pre ≤ Text.bytes a by omega)
      exact ⟨m, hraw.symm⟩
    · rintro ⟨m, rfl⟩
      -- the blanks at the start of what is taken end before the character
      have hblanks : (m ++ c :: s).takeWhile Text.isBlank = m.takeWhile Text.isBlank := by
        rw [List.takeWhile_append, List.takeWhile_cons_of_neg (by simp [hc]), List.append_nil]
        split
        · next hlength => exact ((List.takeWhile_prefix _).eq_of_length hlength).symm
        · rfl
      obtain rfl : a = pre ++ m :=
        List.append_cancel_right (hline.trans (List.append_assoc _ _ _).symm)
      have hle := congrArg Text.bytes (List.takeWhile_append_dropWhile (p := Text.isBlank) (l := m))
      rw [Text.bytes_append] at hle
      rw [hblanks, Text.bytes_append]
      omega

/-- Where no header is found at the end of a text, no such end of it is guarded. -/
theorem not_guarded_of_atEnd?_eq_none {stop : Nat} {c : Char}
    (ha : Quoting.outside.after a = .outside) (hc : Text.isBlank c = false)
    (hnone : atEnd? stop (a ++ c :: s) = none) : ¬ Text.Guarded (c :: s) := by
  rw [← suffix_tail_iff ha]
  intro hsuffix
  unfold atEnd? at hnone
  dsimp only at hnone
  split at hnone
  · next hempty =>
    have hblank := List.all_eq_true.mp (Text.trim_eq_nil_iff.mp (List.isEmpty_iff.mp hempty)) c
      (hsuffix.subset List.mem_cons_self)
    exact Bool.false_ne_true (hc.symm.trans hblank)
  · cases hnone

end Header

/-! ## Braces before the end of a header -/

/-- The earlier of two borders between glyphs leaves glyphs up to the later one. -/
theorem Glyph.exists_between {a b a' b' : List Glyph} (h : a ++ b = a' ++ b')
    (hle : Text.bytes (chars a) ≤ Text.bytes (chars a')) : ∃ m, a' = a ++ m ∧ b = m ++ b' := by
  rcases List.append_eq_append_iff.mp h with ⟨m, ha, hb⟩ | ⟨m, ha, hb⟩
  · exact ⟨m, ha, hb⟩
  · have hbytes := congrArg (fun gs => Text.bytes (chars gs)) ha
    simp only [chars_append, Text.bytes_append] at hbytes
    have hm : m = [] := List.map_eq_nil_iff.mp (Text.bytes_eq_zero_iff.mp
      (show Text.bytes (chars m) = 0 by omega))
    subst hm
    exact ⟨[], by rw [ha, List.append_nil, List.append_nil], hb.symm⟩

/-- **A part of a source cut at a brace.** Both what stands before the brace and what starts with it
may be read by themselves. -/
theorem Brace.exists_cut {source : Text} {floor stop : Nat} {x : Brace} (hx : x ∈ ofSource source)
    (hfloor : Text.Fresh source floor) (hstop : Text.Border source stop) (hge : floor ≤ x.offset)
    (hlt : x.offset < stop) :
    ∃ a c s, Text.slice source ⟨floor, stop⟩ = a ++ c :: s ∧
      Text.slice source ⟨x.offset, stop⟩ = c :: s ∧
      floor + Text.bytes (a ++ c :: s) = stop ∧ floor + Text.bytes a = x.offset ∧
      Text.isBlank c = false ∧ Quoting.outside.after a = .outside := by
  obtain ⟨before, rest, hsource, rfl, hread, -⟩ := hfloor
  obtain ⟨pre, g, post, hglyphs, hoff, hg⟩ := exists_glyph hx
  rw [hoff] at hge hlt ⊢
  obtain ⟨m, rfl, hm⟩ := Glyph.exists_between (hread.symm.trans hglyphs)
    (by rwa [Text.chars_glyphs])
  have hquoted : g.quoted = false := hg.elim (Glyph.is_iff.mp · |>.1) (Glyph.is_iff.mp · |>.1)
  have hchar : Text.isBlank g.char = false ∧ g.char ≠ '\n' := by
    rcases hg with hg | hg <;> rw [(Glyph.is_iff.mp hg).2] <;> decide
  have hrest : rest = Glyph.chars m ++ g.char :: Glyph.chars post := by
    rw [← Text.chars_glyphs rest, hm, Glyph.chars_append, Glyph.chars_cons]
  rw [Glyph.chars_append, Text.chars_glyphs, Text.bytes_append] at hlt ⊢
  -- the part ends behind the brace
  obtain ⟨upTo, behind, hcut, rfl⟩ := hstop
  rw [hsource, hrest, ← List.append_assoc] at hcut
  obtain ⟨k, rfl, hk⟩ := Text.exists_between hcut (by rw [Text.bytes_append]; omega)
  cases k with
  | nil =>
    rw [List.append_nil, Text.bytes_append] at hlt
    exact absurd hlt (Nat.lt_irrefl _)
  | cons c s =>
    obtain ⟨rfl, hpost⟩ := List.cons.inj hk
    have hwhole : source = before ++ ((Glyph.chars m ++ g.char :: s) ++ behind) := by
      rw [hsource, hrest, hpost]
      simp
    have hfrom : source = (before ++ Glyph.chars m) ++ ((g.char :: s) ++ behind) := by
      rw [hwhole]
      simp
    have hbytes : Text.bytes (before ++ Glyph.chars m ++ g.char :: s) =
        Text.bytes before + Text.bytes (Glyph.chars m ++ g.char :: s) := by
      rw [List.append_assoc, Text.bytes_append]
    refine ⟨Glyph.chars m, g.char, s, ?_, ?_, hbytes.symm, rfl, hchar.1,
      Text.after_eq_outside hm hquoted hchar.2⟩
    · rw [hbytes, hwhole, Text.slice_append]
    · rw [← Text.bytes_append, Text.bytes_append (before ++ Glyph.chars m), hfrom,
        Text.slice_append]

namespace Header

variable {source : Text} {floor brace : Nat} {x : Brace}

/-- The header that a cut of the source ends with. -/
theorem Cut.atEnd?_of_find? {k : Cut} {h : Header}
    (hfound : find? k.source k.floor k.brace = some h) :
    atEnd? k.stop (k.line ++ [k.last]) = some h := by
  by_cases hline : '\n' ∈ k.gap
  · rw [k.find?_below hline] at hfound
    exact (Option.mem_filter_iff.mp hfound).1
  · rwa [k.find?_on_line hline] at hfound

/-- A brace is no blank, so it does not stand between a header and the brace of its block. -/
theorem Cut.lt_stop {k : Cut} (hx : x ∈ Brace.ofSource k.source) (hlt : x.offset < k.brace) :
    x.offset < k.stop := by
  by_contra hge
  obtain ⟨pre, post, hsource, hoff⟩ := Brace.exists_text_of_mem hx
  have hcut : k.before ++ (k.line ++ [k.last]) ++ (k.gap ++ k.after) = pre ++ x.char :: post :=
    hsource
  obtain ⟨m, rfl, hm⟩ := Text.exists_between hcut (by rw [k.bytes_before_stop]; omega)
  rw [Text.bytes_append, k.bytes_before_stop] at hoff
  obtain ⟨gap, hgap, hrest⟩ := Text.exists_between hm.symm (show Text.bytes m ≤ k.gap.bytes by
    rw [brace] at hlt
    omega)
  cases gap with
  | nil =>
    rw [List.append_nil] at hgap
    rw [brace, hgap] at hlt
    omega
  | cons c gap =>
    obtain ⟨rfl, -⟩ := List.cons.inj hrest
    have hblank := List.all_eq_true.mp k.isBlankText_gap x.char
      (hgap ▸ List.mem_append_right m List.mem_cons_self)
    rw [Brace.char] at hblank
    split at hblank <;> exact absurd hblank (by decide)

theorem lt_stop_of_find? {h : Header} (hfloor : Text.Fresh source floor)
    (hbrace : Text.Border source brace) (hle : floor ≤ brace)
    (hfound : find? source floor brace = some h) (hx : x ∈ Brace.ofSource source)
    (hlt : x.offset < brace) : x.offset < h.span.stop := by
  obtain ⟨k, rfl, rfl, rfl, hstop, -⟩ := exists_cut hfloor hbrace hle hfound
  rw [hstop]
  exact Cut.lt_stop hx hlt

/-- **A header starts at or before a brace exactly if the text from there to its end is
guarded.** -/
theorem start_le_iff_of_find? {h : Header} (hfloor : Text.Fresh source floor)
    (hbrace : Text.Border source brace) (hle : floor ≤ brace)
    (hfound : find? source floor brace = some h) (hx : x ∈ Brace.ofSource source)
    (hge : floor ≤ x.offset) (hlt : x.offset < brace) :
    h.span.start ≤ x.offset ↔ Text.Guarded (Text.slice source ⟨x.offset, h.span.stop⟩) := by
  obtain ⟨k, rfl, rfl, rfl, hstop, -⟩ := exists_cut hfloor hbrace hle hfound
  have hborder : Text.Border k.source k.stop := ⟨_, _, rfl, k.bytes_before_stop⟩
  obtain ⟨a, c, s, hbody, hslice, hbytes, hoff, hc, ha⟩ :=
    Brace.exists_cut hx hfloor hborder hge (Cut.lt_stop hx hlt)
  have hend := Cut.atEnd?_of_find? hfound
  have hline : Text.slice k.source ⟨k.floor, k.stop⟩ = k.line ++ [k.last] := by
    have hsource : k.source = k.before ++ ((k.line ++ [k.last]) ++ (k.gap ++ k.after)) :=
      List.append_assoc _ _ _
    rw [hsource]
    exact Text.slice_append _ _ _
  rw [← hline, hbody, ← hbytes] at hend
  rw [hstop, hslice, ← hoff]
  exact start_le_iff_of_atEnd? ha hc hend

/-- **Where no header is found, no text from a brace on is guarded.** -/
theorem not_guarded_of_find?_eq_none (hfloor : Text.Fresh source floor)
    (hbrace : Text.Border source brace) (hnone : find? source floor brace = none)
    (hx : x ∈ Brace.ofSource source) (hge : floor ≤ x.offset) (hlt : x.offset < brace) :
    ¬ Text.Guarded (Text.slice source ⟨x.offset, brace⟩) := by
  obtain ⟨a, c, s, hbody, hslice, -, -, hc, ha⟩ := Brace.exists_cut hx hfloor hbrace hge hlt
  have hhere : atEnd? brace (Text.slice source ⟨floor, brace⟩) = none := by
    rw [find?] at hnone
    cases hend : atEnd? brace (Text.slice source ⟨floor, brace⟩) with
    | none => rfl
    | some h => rw [hend] at hnone; cases hnone
  rw [hbody] at hhere
  rw [hslice]
  exact not_guarded_of_atEnd?_eq_none ha hc hhere

end Header

/-! ## Headers in a tree -/

/-- **The bounds of a header**: it starts in the body of the parent, and it reaches back over a
brace in there exactly if the text from the brace to its end is guarded. -/
structure Block.HeaderBounded (source : Text) (floor : Nat) (b : Block) : Prop where
  floor_le : floor ≤ b.headerSpan.start
  /-- No brace stands between the header and the brace of the block. -/
  lt_stop : ∀ x ∈ Brace.ofSource source, x.offset < b.span.start → x.offset < b.headerSpan.stop
  start_le_iff : ∀ x ∈ Brace.ofSource source, floor ≤ x.offset → x.offset < b.span.start →
    (b.headerSpan.start ≤ x.offset ↔
      Text.Guarded (Text.slice source ⟨x.offset, b.headerSpan.stop⟩))

namespace BlockTree

variable {source : Text} {t : BlockTree}

/-- A block is judged by the header that is found, and by an empty one before its brace if none
is. -/
theorem span_verdict {c p : Nat} (hp : (t.get c).parent = some p) :
    (t.verdict source (t.get c)).span =
      match Header.find? source (t.get p).body.start (t.get c).span.start with
      | some h => h.span
      | none => ⟨(t.get c).span.start, (t.get c).span.start⟩ := by
  rw [verdict, hp]
  dsimp only
  cases Header.find? source (t.get p).body.start (t.get c).span.start with
  | some h => exact Header.span_verdict h
  | none => rfl

/-- **Every classified block has a header within these bounds.** -/
theorem Bracketed.headerBounded_classify (h : t.Bracketed source) {c p : Nat} (hc : c < t.size)
    (hp : (t.get c).parent = some p) :
    ((t.classify source).get c).HeaderBounded source (t.get p).body.start := by
  have hbrace : Text.Border source (t.get c).span.start :=
    Brace.border (h.matched (h.ne_root_of_parent hp) hc).open_mem
  have hfloor := h.fresh_body_start (h.parent_lt hc hp)
  have hle := (h.inside hc hp).1
  have hfloorle := h.floor_le_classify hc hp
  refine ⟨hfloorle, ?_, ?_⟩ <;> rw [span_classify, headerSpan_classify hp, span_verdict hp]
  · intro x hx hlt
    cases hfound : Header.find? source (t.get p).body.start (t.get c).span.start with
    | some header => exact Header.lt_stop_of_find? hfloor hbrace hle hfound hx hlt
    | none => exact hlt
  · intro x hx hge hlt
    cases hfound : Header.find? source (t.get p).body.start (t.get c).span.start with
    | some header => exact Header.start_le_iff_of_find? hfloor hbrace hle hfound hx hge hlt
    | none =>
      exact iff_of_false (Nat.not_le_of_lt hlt)
        (Header.not_guarded_of_find?_eq_none hfloor hbrace hfound hx hge hlt)

end BlockTree
end BraceTree
