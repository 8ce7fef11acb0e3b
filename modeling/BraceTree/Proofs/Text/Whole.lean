import BraceTree.Proofs.Text.Rejoined

/-!
# Lists of whole texts

A list is cut at a separator, and the blanks around each piece are taken off. The pieces without
their blanks are sealed, but a writer may put blanks wherever he likes, so what stands between two
separators is less than that: it is contained, and no separator cuts it (`Whole`). Such texts can be
put together and blanks can be put around them, and cutting a list of them gives them back but for
their blanks (`splitTopLevel_intercalate_whole`).

In the other direction nothing has to be known of a text. Whatever it is cut into, the pieces with
the separators between them are the text (`intercalate_splitGlyphs`).
-/

namespace BraceTree.Text

/-- **A text that stays in one piece**, perhaps with blanks around it, when a list with it is cut at
some separators. -/
structure Whole (seps : List Char) (t : Text) : Prop extends Contained t where
  /-- None of the separators cuts it. -/
  whole : ∀ sep ∈ seps, Uncut sep 0 t.glyphs

variable {seps : List Char} {sep : Char} {a b t : Text} {ts : List Text}

theorem Sealed.toWhole (h : Sealed seps t) : Whole seps t := ⟨h.toContained, h.whole⟩

namespace Whole

theorem append (ha : Whole seps a) (hb : Whole seps b) : Whole seps (a ++ b) where
  toContained := ha.toContained.append hb.toContained
  whole := fun sep hsep => by
    rw [ha.toContained.glyphs_append]
    exact (ha.whole sep hsep).append (hb.whole sep hsep)

theorem mono {seps' : List Char} (h : Whole seps t) (hsub : ∀ sep ∈ seps', sep ∈ seps) :
    Whole seps' t := ⟨h.toContained, fun sep hsep => h.whole sep (hsub sep hsep)⟩

theorem of_inert (h : t.all isInert) (hseps : ∀ sep ∈ seps, sep ∉ t) : Whole seps t :=
  ⟨.of_inert h, fun sep hsep => Contained.uncut_of_inert h (hseps sep hsep)⟩

/-- A blank that is no newline has no structure. -/
theorem isInert_of_isBlank {c : Char} (hblank : isBlank c = true) (hnewline : c ≠ '\n') :
    isInert c = true := by
  have hclass : (isBlank c && c != '\n') = true := by
    rw [hblank, Bool.true_and, bne_iff_ne]
    exact hnewline
  exact isInert_of_class (p := fun c => isBlank c && c != '\n') (by decide) hclass

/-- **Blanks in a line are whole** for all separators that are no blanks. -/
theorem of_isBlankText (h : isBlankText t = true) (hline : '\n' ∉ t)
    (hseps : ∀ sep ∈ seps, isBlank sep = false) : Whole seps t := by
  have hblank : ∀ c ∈ t, isBlank c = true := List.all_eq_true.mp h
  refine .of_inert (List.all_eq_true.mpr fun c hc => ?_) fun sep hsep hmem => ?_
  · exact isInert_of_isBlank (hblank c hc) fun hnewline => hline (hnewline ▸ hc)
  · exact Bool.false_ne_true ((hseps sep hsep).symm.trans (hblank sep hmem))

end Whole

/-! ## Cutting what was put together -/

/-- A separator at depth zero is where a text is cut. -/
theorem splitGlyphs_sep (hsep : isInert sep = true) (gs : List Glyph) :
    splitGlyphs sep 0 (⟨sep, false⟩ :: gs) = [] :: splitGlyphs sep 0 gs := by
  obtain ⟨-, hopening, hclosing, -⟩ := isInert_iff.mp hsep
  rw [splitGlyphs, if_neg Bool.false_ne_true, if_neg (ne_true_of_eq_false hopening),
    if_neg (ne_true_of_eq_false hclosing), if_pos ⟨rfl, rfl⟩]

/-- **Whole texts with separators between them are cut into these texts again.** -/
theorem splitTopLevel_intercalate_whole (hmem : sep ∈ seps) (hsep : isInert sep = true) :
    ∀ {ts : List Text}, ts ≠ [] → (∀ t ∈ ts, Whole seps t) →
      splitTopLevel sep (([sep] : Text).intercalate ts) = ts.map trim
  | [], hnil, _ => absurd rfl hnil
  | [t], _, h => by
    have hcut := (h t List.mem_cons_self).whole sep hmem []
    rw [List.append_nil, chars_glyphs] at hcut
    rw [List.intercalate_singleton, splitTopLevel, hcut]
    show [trim (t ++ [])] = [trim t]
    rw [List.append_nil]
  | t :: u :: ts, _, h => by
    obtain ⟨ht, hts⟩ := List.forall_mem_cons.mp h
    have ih := splitTopLevel_intercalate_whole hmem hsep (List.cons_ne_nil u ts) hts
    have hglyphs : glyphs [sep] = [⟨sep, false⟩] :=
      (Contained.glyphs_singleton (isInert_iff.mp hsep).1).1
    rw [splitTopLevel] at ih
    rw [List.intercalate_cons_cons, List.append_assoc, splitTopLevel,
      ht.toContained.glyphs_append, (Contained.of_inert_char hsep).glyphs_append, hglyphs,
      ht.whole sep hmem, List.singleton_append, splitGlyphs_sep hsep, List.modifyHead_cons,
      List.map_cons, ih, chars_glyphs, List.append_nil]
    rfl

/-! ## Putting together what was cut -/

/-- A glyph is where a text is cut, or it belongs to the first piece of the rest. -/
theorem splitGlyphs_cons (sep : Char) (depth : Nat) (g : Glyph) (gs : List Glyph) :
    (∃ depth', splitGlyphs sep depth (g :: gs) =
      (splitGlyphs sep depth' gs).modifyHead (g.char :: ·)) ∨
    g.char = sep ∧ splitGlyphs sep depth (g :: gs) = [] :: splitGlyphs sep 0 gs := by
  rw [splitGlyphs]
  split
  · exact .inl ⟨depth, rfl⟩
  · split
    · exact .inl ⟨depth + 1, rfl⟩
    · split
      · exact .inl ⟨depth - 1, rfl⟩
      · split
        · next hcut => exact .inr ⟨hcut.1, rfl⟩
        · exact .inl ⟨depth, rfl⟩

/-- There is always a piece. -/
theorem exists_splitGlyphs (sep : Char) (gs : List Glyph) :
    ∀ depth : Nat, ∃ t ts, splitGlyphs sep depth gs = t :: ts := by
  induction gs with
  | nil => exact fun _ => ⟨[], [], rfl⟩
  | cons g gs ih =>
    intro depth
    obtain ⟨depth', hcons⟩ | ⟨-, hcons⟩ := splitGlyphs_cons sep depth g gs
    · obtain ⟨t, ts, hts⟩ := ih depth'
      exact ⟨g.char :: t, ts, by rw [hcons, hts, List.modifyHead_cons]⟩
    · exact ⟨[], splitGlyphs sep 0 gs, hcons⟩

/-- **A text is its pieces with the separators between them.** -/
theorem intercalate_splitGlyphs (sep : Char) (gs : List Glyph) : ∀ depth : Nat,
    ([sep] : Text).intercalate (splitGlyphs sep depth gs) = Glyph.chars gs := by
  induction gs with
  | nil => exact fun _ => rfl
  | cons g gs ih =>
    intro depth
    obtain ⟨depth', hcons⟩ | ⟨hsep, hcons⟩ := splitGlyphs_cons sep depth g gs
    · obtain ⟨t, ts, hts⟩ := exists_splitGlyphs sep gs depth'
      rw [hcons, Glyph.chars_cons, ← ih depth', hts, List.modifyHead_cons]
      cases ts <;> rfl
    · obtain ⟨t, ts, hts⟩ := exists_splitGlyphs sep gs 0
      rw [hcons, Glyph.chars_cons, ← ih 0, hts, hsep, List.intercalate_cons_cons]
      rfl

/-- Nothing is lost when texts are put together. -/
theorem mem_intercalate_of_mem {sep : Text} {c : Char} (ha : a ∈ ts) (hc : c ∈ a) :
    c ∈ sep.intercalate ts := by
  induction ts with
  | nil => exact absurd ha List.not_mem_nil
  | cons t ts ih =>
    cases ts with
    | nil =>
      rw [List.intercalate_singleton, ← List.mem_singleton.mp ha]
      exact hc
    | cons u us =>
      rw [List.intercalate_cons_cons, List.mem_append, List.mem_append]
      rcases List.mem_cons.mp ha with rfl | ha
      · exact .inl (.inl hc)
      · exact .inr (ih ha)

/-- There is nothing in a piece that is not in the text. -/
theorem mem_of_mem_splitTopLevel {c : Char} (ha : a ∈ splitTopLevel sep t) (hc : c ∈ a) :
    c ∈ t := by
  obtain ⟨piece, hpiece, rfl⟩ := List.mem_map.mp ha
  rw [← chars_glyphs t, ← intercalate_splitGlyphs sep t.glyphs 0]
  exact mem_intercalate_of_mem hpiece (mem_of_mem_trim hc)

end BraceTree.Text
