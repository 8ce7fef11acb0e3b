import BraceTree.Expression
import BraceTree.Proofs.Header.Captured
import BraceTree.Proofs.Text.Closed

/-!
# A call is read off its text

The arguments of a call are cut out glyph by glyph, so that a comma in a literal does not part them.
Shown again they are read by themselves, and what was a literal has to be one still. It is, because
a reader who takes a comma or a parenthesis for structure stands outside of literals: each argument
starts there, ends there, and so do the texts that trimming leaves (`Text.Closed`).
-/

namespace BraceTree

namespace Text

/-! ## Cutting glyphs -/

/-- What a glyph means where arguments are cut. -/
def glyphRole (sep : Char) (g : Glyph) : Role :=
  if g.quoted then .plain else if isOpening g.char then .opens
  else if isClosing g.char then .closes else if g.char = sep then .separates else .plain

theorem splitGlyphs_eq (sep : Char) (gs : List Glyph) : ∀ depth,
    splitGlyphs sep depth gs = (Cut.pieces (glyphRole sep) depth gs).map Glyph.chars := by
  have hhead : ∀ (g : Glyph) (ps : List (List Glyph)),
      (ps.map Glyph.chars).modifyHead (g.char :: ·) = (ps.modifyHead (g :: ·)).map Glyph.chars :=
    fun g ps => by cases ps <;> rfl
  induction gs with
  | nil => exact fun _ => rfl
  | cons g gs ih =>
    intro depth
    rw [splitGlyphs, Cut.pieces, glyphRole]
    by_cases hquoted : g.quoted = true
    · rw [if_pos hquoted, if_pos hquoted, ih, hhead]
      rfl
    by_cases hopen : isOpening g.char = true
    · rw [if_neg hquoted, if_pos hopen, if_neg hquoted, if_pos hopen, ih, hhead]
      rfl
    by_cases hclose : isClosing g.char = true
    · rw [if_neg hquoted, if_neg hopen, if_pos hclose, if_neg hquoted, if_neg hopen, if_pos hclose,
        ih, hhead]
      rfl
    rw [if_neg hquoted, if_neg hopen, if_neg hclose, if_neg hquoted, if_neg hopen, if_neg hclose]
    by_cases hsep : g.char = sep
    · cases depth with
      | zero =>
        rw [if_pos ⟨hsep, rfl⟩, if_pos hsep, ih]
        rfl
      | succ depth =>
        rw [if_neg fun h => Nat.succ_ne_zero depth h.2, if_pos hsep, ih, hhead]
        rfl
    · rw [if_neg fun h => hsep h.1, if_neg hsep, ih, hhead]
      rfl

/-- A blank means nothing to the cut. -/
theorem glyphRole_of_isBlank {sep : Char} (hsep : isBlank sep = false) {g : Glyph}
    (h : isBlank g.char = true) : glyphRole sep g = .plain := by
  have hne : ∀ d, isBlank d = false → g.char ≠ d := by
    rintro d hd hg
    exact Bool.false_ne_true (hd.symm.trans (hg ▸ h))
  have hopen : isOpening g.char = false := by
    rw [isOpening, Bool.or_eq_false_iff, beq_eq_false_iff_ne, beq_eq_false_iff_ne]
    exact ⟨hne _ (by decide), hne _ (by decide)⟩
  have hclose : isClosing g.char = false := by
    rw [isClosing, Bool.or_eq_false_iff, beq_eq_false_iff_ne, beq_eq_false_iff_ne]
    exact ⟨hne _ (by decide), hne _ (by decide)⟩
  rw [glyphRole, hopen, hclose, if_neg Bool.false_ne_true, if_neg Bool.false_ne_true,
    if_neg (hne sep hsep)]
  exact ite_self _

/-- **The pieces of a closed text are closed**, each read by itself as it was in the text. -/
theorem closed_of_mem_pieces (sep : Char) : ∀ {t : Text} {q : Quoting} (depth : Nat),
    '\n' ∉ t → q.after t = .outside →
      ∃ p ps, Cut.pieces (glyphRole sep) depth (glyphsFrom q t) = p :: ps ∧
        p = glyphsFrom q (Glyph.chars p) ∧ q.after (Glyph.chars p) = .outside ∧
        ∀ r ∈ ps, r = glyphs (Glyph.chars r) ∧ Quoting.outside.after (Glyph.chars r) = .outside
  | [], q, _, _, hout => ⟨[], [], rfl, rfl, hout, fun _ hr => absurd hr List.not_mem_nil⟩
  | c :: cs, q, depth, hline, hout => by
    have hcs := List.not_mem_of_not_mem_cons hline
    have hnewline := (List.ne_of_not_mem_cons hline).symm
    have hout : (q.step c).1.after cs = .outside := hout
    rw [glyphsFrom, Cut.pieces]
    split
    · rename_i hcut
      -- a separator is met outside of literals, and leaves the reader there
      have hunquoted : (q.step c).2 = false := by
        by_contra hquoted
        rw [glyphRole, if_pos (by simpa using hquoted)] at hcut
        exact Option.some_ne_none _ hcut
      have hq := Quoting.eq_outside_of_step hunquoted hnewline
      have hnext := Quoting.step_of_unquoted hunquoted
      obtain ⟨p, ps, heq, hp, hpout, hps⟩ := closed_of_mem_pieces sep 0 hcs hout
      rw [hnext] at heq hp hpout
      rw [hnext, heq]
      exact ⟨[], p :: ps, rfl, rfl, hq, List.forall_mem_cons.mpr ⟨⟨hp, hpout⟩, hps⟩⟩
    · rename_i next _
      obtain ⟨p, ps, heq, hp, hpout, hps⟩ := closed_of_mem_pieces sep next hcs hout
      rw [heq]
      refine ⟨⟨c, (q.step c).2⟩ :: p, ps, rfl, ?_, hpout, hps⟩
      rw [Glyph.chars_cons, glyphsFrom, ← hp]

/-- **Each piece of a closed text is closed**, the first one like those behind it. -/
theorem Closed.of_mem_pieces {sep : Char} {t : Text} (ht : Closed t) {p : List Glyph}
    (hp : p ∈ Cut.pieces (glyphRole sep) 0 (glyphs t)) :
    p = glyphs (Glyph.chars p) ∧ Closed (Glyph.chars p) := by
  obtain ⟨q, qs, heq, hq, hqout, hqs⟩ := closed_of_mem_pieces sep 0 ht.2 ht.1
  have hread : p = glyphs (Glyph.chars p) ∧
      Quoting.outside.after (Glyph.chars p) = .outside := by
    rw [glyphs, heq] at hp
    rcases List.mem_cons.mp hp with rfl | hp
    · exact ⟨hq, hqout⟩
    · exact hqs p hp
  refine ⟨hread.1, hread.2, fun hline => ht.2 ?_⟩
  obtain ⟨g, hg, hchar⟩ := List.mem_map.mp hline
  rw [← hchar, ← chars_glyphs t]
  exact List.mem_map_of_mem (Cut.mem_of_mem_pieces hp hg)

/-- What closed texts with separators between them are read as. -/
theorem glyphs_intercalate {sep : Char} (hsep : Quoting.isQuote sep = false) {ts : List Text}
    (h : ∀ t ∈ ts, Closed t) : glyphs (([sep, ' '] : Text).intercalate ts) =
      [⟨sep, false⟩, ⟨' ', false⟩].intercalate (ts.map glyphs) := by
  induction ts with
  | nil => rfl
  | cons t ts ih =>
    obtain ⟨ht, hts⟩ := List.forall_mem_cons.mp h
    cases ts with
    | nil =>
      rw [List.intercalate_singleton, List.map_cons, List.map_nil, List.intercalate_singleton]
    | cons u us =>
      have hstep : Quoting.outside.step sep = (.outside, false) := by
        rw [Quoting.step, if_neg (ne_true_of_eq_false hsep)]
      have hglyphs : glyphs [sep, ' '] = [⟨sep, false⟩, ⟨' ', false⟩] := by
        rw [glyphs, glyphsFrom, hstep]
        rfl
      have hout : Quoting.outside.after [sep, ' '] = .outside := by
        show (Quoting.outside.step sep).1.after [' '] = .outside
        rw [hstep]
        rfl
      rw [List.intercalate_cons_cons, List.map_cons, List.map_cons, List.intercalate_cons_cons,
        List.append_assoc, Closed.glyphs_append ht.1, Closed.glyphs_append hout, hglyphs, ih hts,
        List.map_cons, List.append_assoc]

/-- A text is cut as it is when it is trimmed. -/
theorem Closed.walk?_trim {sep : Char} (hsep : isBlank sep = false) {t : Text} (h : Closed t)
    (depth : Nat) : Cut.walk? (glyphRole sep) depth (glyphs (Text.trim t)) =
      Cut.walk? (glyphRole sep) depth (glyphs t) := by
  obtain ⟨-, pre, post, hpre, hpost, hglyphs⟩ := h.trim
  have hplain : ∀ {b : Text}, isBlankText b = true →
      ((glyphs b).filter fun g => glyphRole sep g ≠ .plain) = [] := fun {b} hb =>
    List.filter_eq_nil_iff.mpr fun g hg => by
      have hmem : g.char ∈ b := by
        rw [← chars_glyphs b]
        exact List.mem_map_of_mem hg
      simpa using glyphRole_of_isBlank hsep (List.all_eq_true.mp hb _ hmem)
  refine Cut.walk?_congr ?_ depth
  rw [hglyphs, List.filter_append, List.filter_append, hplain hpre, hplain hpost, List.nil_append,
    List.append_nil]

/-- What a closed text is cut into, but for what is blank. -/
def arguments (sep : Char) (t : Text) : List Text :=
  (splitTopLevel sep t).filter fun a => !a.isEmpty

theorem mem_of_mem_arguments {sep c : Char} {t a : Text} (ha : a ∈ arguments sep t) (hc : c ∈ a) :
    c ∈ t := by
  obtain ⟨piece, hpiece, rfl⟩ := List.mem_map.mp (List.mem_filter.mp ha).1
  rw [splitGlyphs_eq] at hpiece
  obtain ⟨gs, hgs, rfl⟩ := List.mem_map.mp hpiece
  obtain ⟨g, hg, rfl⟩ := List.mem_map.mp (mem_of_mem_trim hc)
  rw [← chars_glyphs t]
  exact List.mem_map_of_mem (Cut.mem_of_mem_pieces hgs hg)

/-- **The arguments of a closed text are read from their text**: what is cut out of the text,
trimmed and joined again is cut out again. -/
theorem arguments_intercalate {sep : Char} (hquote : Quoting.isQuote sep = false)
    (hsep : glyphRole sep ⟨sep, false⟩ = .separates) (hblank : isBlank sep = false) {t : Text}
    (ht : Closed t) :
    arguments sep (([sep, ' '] : Text).intercalate (arguments sep t)) = arguments sep t := by
  -- the pieces that are left, as glyphs
  obtain ⟨ps, hargs, hapart, hps⟩ : ∃ ps : List (List Glyph),
      arguments sep t = ps.map (fun p => trim (Glyph.chars p)) ∧ Cut.Apart (glyphRole sep) ps ∧
        ∀ p ∈ ps, p = glyphs (Glyph.chars p) ∧ Closed (Glyph.chars p) ∧
          (!(trim (Glyph.chars p)).isEmpty) = true := by
    refine ⟨(Cut.pieces (glyphRole sep) 0 (glyphs t)).filter fun p =>
      !(trim (Glyph.chars p)).isEmpty, ?_, (Cut.apart_pieces _).filter _, fun p hp => ?_⟩
    · rw [arguments, splitTopLevel, splitGlyphs_eq, List.map_map, List.filter_map]
      rfl
    · obtain ⟨hmem, hkeep⟩ := List.mem_filter.mp hp
      obtain ⟨hread, hclosed⟩ := ht.of_mem_pieces hmem
      exact ⟨hread, hclosed, hkeep⟩
  have hclosed : ∀ a ∈ arguments sep t, Closed a := by
    rw [hargs]
    exact List.forall_mem_map.mpr fun p hp => (hps p hp).2.1.trim.1
  have hcut : Cut.Apart (glyphRole sep) (ps.map fun p => glyphs (trim (Glyph.chars p))) :=
    hapart.map fun p hp => by
      rw [(hps p hp).2.1.walk?_trim hblank, ← (hps p hp).1]
  have hread := glyphs_intercalate hquote hclosed
  rw [hargs, List.map_map] at hread
  rw [hargs]
  rw [arguments, splitTopLevel, hread, splitGlyphs_eq]
  cases ps with
  | nil => rfl
  | cons p ps =>
    have hplain : glyphRole sep ⟨' ', false⟩ = .plain := glyphRole_of_isBlank hblank (by decide)
    have hpieces := Cut.pieces_intercalate hsep hplain hcut
    rw [List.map_cons]
    show List.filter _ ((List.map Glyph.chars (Cut.pieces (glyphRole sep) 0
      ([⟨sep, false⟩, ⟨' ', false⟩].intercalate (glyphs (trim (Glyph.chars p)) ::
        ps.map fun p => glyphs (trim (Glyph.chars p)))))).map trim) = _
    rw [hpieces, List.map_cons, List.map_cons, chars_glyphs, trim_trim, List.map_map, List.map_map,
      List.map_map]
    have htexts : ps.map (((trim ∘ Glyph.chars) ∘ (⟨' ', false⟩ :: ·)) ∘
        fun p => glyphs (trim (Glyph.chars p))) = ps.map fun p => trim (Glyph.chars p) :=
      List.map_congr_left fun r _ => by
        show trim (' ' :: Glyph.chars (glyphs (trim (Glyph.chars r)))) = _
        rw [chars_glyphs]
        exact trim_trim _
    have hkeep : ∀ a ∈ (p :: ps).map fun p => trim (Glyph.chars p), (!a.isEmpty) = true :=
      List.forall_mem_map.mpr fun r hr => (hps r hr).2.2
    rw [htexts]
    exact List.filter_eq_self.mpr hkeep

end Text

/-! ## Calls -/

namespace Call

/-- **A call that can be told from its text**, which is in one line. -/
structure Legible (c : Call) : Prop where
  /-- The name ends at the first parenthesis. -/
  name : '(' ∉ c.name.toList
  /-- The arguments are read from their text. -/
  args : (Text.arguments ',' (", ".intercalate c.args).toList).map String.ofList = c.args
  line : '\n' ∉ c.display.toList

variable {c d : Call}

theorem toList_display (c : Call) : c.display.toList =
    c.name.toList ++ '(' :: ((", ".intercalate c.args).toList ++ [')']) := by
  simp [display]

/-- **Two calls with one text are one call.** -/
theorem Legible.eq_of_display_eq (hc : c.Legible) (hd : d.Legible) (heq : c.display = d.display) :
    c = d := by
  have htext := congrArg String.toList heq
  rw [toList_display, toList_display] at htext
  obtain ⟨hname, hrest⟩ := Text.append_cons_inj hc.name hd.name htext
  have hargs := congrArg (fun t => (Text.arguments ',' t).map String.ofList)
    (List.append_cancel_right hrest)
  have hargs' : c.args = d.args := hc.args.symm.trans (hargs.trans hd.args)
  obtain ⟨name, args⟩ := c
  obtain ⟨name', args'⟩ := d
  obtain rfl : name = name' := String.toList_inj.mp hname
  obtain rfl : args = args' := hargs'
  rfl

/-- What stands in the parentheses of a call is a closed text. -/
theorem closed_of_enclosed? {t inner : Text} (h : Text.enclosed? '(' ')' t = some inner)
    (hline : '\n' ∉ t) : Text.Closed inner := by
  obtain ⟨pre, hpre, hbody⟩ := Text.exists_of_enclosed? (by decide) h
  obtain ⟨-, hlast⟩ := Text.glyphsFrom_split hpre
  have hstep : ((Quoting.outside.after (Glyph.chars pre)).step ')').2 = false :=
    (congrArg Glyph.quoted (List.cons.inj hlast).1).symm
  have hout := Quoting.eq_outside_of_step hstep (by decide)
  rw [hbody] at hout
  refine ⟨hout, fun hmem => hline ?_⟩
  rw [Text.eq_of_enclosed? (by decide) h]
  exact List.mem_cons_of_mem _ (List.mem_append_left _ hmem)

/-- **The calls that are read are legible.** -/
theorem legible_of_ofText? {t : Text} (h : ofText? t = some c) (hline : '\n' ∉ t) : c.Legible := by
  rw [ofText?] at h
  split at h
  · exact absurd h (Option.some_ne_none _).symm
  · rename_i name rest hname
    obtain ⟨hsplit, hnot⟩ := splitName?_eq_some hname
    split at h
    · exact absurd h (Option.some_ne_none _).symm
    · rename_i inner hinner
      split at h
      · exact absurd h (Option.some_ne_none _).symm
      · obtain rfl := Option.some.inj h
        have hclosed : Text.Closed inner := by
          refine closed_of_enclosed? hinner fun hmem => hline (Text.mem_of_mem_trim ?_)
          rw [hsplit]
          exact List.mem_append_right _ (List.dropWhile_subset Text.isBlank hmem)
        have hjoined : (", ".intercalate ((Text.arguments ',' inner).map String.ofList)).toList =
            ([',', ' '] : Text).intercalate (Text.arguments ',' inner) := by
          rw [String.toList_intercalate, List.map_map]
          refine congrArg _ ((List.map_congr_left fun a _ => ?_).trans (List.map_id _))
          exact String.toList_ofList
        have hread : Text.arguments ',' (([',', ' '] : Text).intercalate
            (Text.arguments ',' inner)) = Text.arguments ',' inner :=
          Text.arguments_intercalate (by decide) (by decide) (by decide) hclosed
        refine ⟨?_, ?_, ?_⟩
        · rw [String.toList_ofList]
          exact hnot '(' (by decide) (by decide)
        · show (Text.arguments ',' (", ".intercalate ((Text.arguments ',' inner).map
            String.ofList)).toList).map String.ofList = (Text.arguments ',' inner).map String.ofList
          rw [hjoined, hread]
        · have hargs : '\n' ∉ ([',', ' '] : Text).intercalate (Text.arguments ',' inner) :=
            fun hmem => by
              rcases Text.mem_intercalate hmem with hsep | ⟨a, ha, hmem⟩
              · exact absurd hsep (by decide)
              · exact hclosed.2 (Text.mem_of_mem_arguments ha hmem)
          rw [toList_display]
          show '\n' ∉ (String.ofList name).toList ++ '(' ::
            ((", ".intercalate ((Text.arguments ',' inner).map String.ofList)).toList ++ [')'])
          rw [hjoined, String.toList_ofList]
          simp only [List.mem_append, List.mem_cons, not_or]
          exact ⟨hnot '\n' (by decide) (by decide), by decide, hargs, by decide, List.not_mem_nil⟩

end Call
end BraceTree
