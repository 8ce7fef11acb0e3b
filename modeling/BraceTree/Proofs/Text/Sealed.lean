import BraceTree.Proofs.Text.Reading
import BraceTree.Proofs.Text.Trim

/-!
# Texts that stay in one piece

Whoever puts texts together with separators between them wants them back when the result is cut at
those separators. That works for texts which keep their structure to themselves: their literals and
brackets end inside them (`Contained`), and no separator stands in them outside of both (`Sealed`).
Such texts come from three things, characters without any structure, whole literals, and brackets
around such texts again, and `splitTopLevel_intercalate` is the way back.
-/

namespace BraceTree.Text

/-- The characters that mean something to a reader of structure: quotes, brackets and braces, and
what ends a statement. -/
def structural : List Char := ['"', '\'', '(', '[', ')', ']', '{', '}', ';', '\n']

/-- Whether a character means nothing to a reader of structure. -/
def isInert (c : Char) : Bool := !structural.contains c

theorem isInert_iff {c : Char} : isInert c = true ↔ Quoting.isQuote c = false ∧
    isOpening c = false ∧ isClosing c = false ∧ c ∉ ['{', '}', ';', '\n'] := by
  simp only [isInert, structural, Quoting.isQuote, isOpening, isClosing, Bool.not_eq_true',
    List.contains_eq_mem, decide_eq_false_iff_not, Bool.or_eq_false_iff, beq_eq_false_iff_ne,
    List.mem_cons, List.not_mem_nil, or_false, not_or, ne_eq, and_assoc]

/-- A character of a class is none of the characters that are not of the class. -/
theorem contains_eq_false {cs : List Char} {p : Char → Bool} (hp : cs.all fun c => !p c) {c : Char}
    (hc : p c = true) : cs.contains c = false := by
  rw [List.contains_eq_mem, decide_eq_false_iff_not]
  intro hmem
  have hnot := List.all_eq_true.mp hp c hmem
  rw [hc] at hnot
  exact Bool.false_ne_true hnot

/-- A class of characters that has none of the structural ones is inert. -/
theorem isInert_of_class {p : Char → Bool} (hp : structural.all fun c => !p c) {c : Char}
    (hc : p c = true) : isInert c = true := by
  rw [isInert, contains_eq_false hp hc]
  rfl

/-! ## Tight texts -/

/-- That no character of a text is a blank can be computed. -/
theorem not_blank_of_all {t : Text} (h : t.all fun c => !isBlank c) :
    ∀ c ∈ t, isBlank c = false := fun c hc => by
  simpa using List.all_eq_true.mp h c hc

/-- **A text with no blank at either end**, and something in it. -/
def Tight (t : Text) : Prop :=
  (∃ a, t.head? = some a ∧ isBlank a = false) ∧ ∃ b, t.getLast? = some b ∧ isBlank b = false

namespace Tight

variable {a b t : Text}

theorem trimStart_append (h : Tight a) (b : Text) : trimStart (a ++ b) = a ++ b := by
  obtain ⟨⟨c, hhead, hc⟩, -⟩ := h
  obtain ⟨cs, rfl⟩ := List.head?_eq_some_iff.mp hhead
  rw [trimStart, List.cons_append, List.dropWhile_cons, if_neg (by simp [hc])]

/-- Trimming finds a tight text before blanks. -/
theorem trimEnd_append (h : Tight a) {b : Text} (hb : isBlankText b = true) :
    trimEnd (a ++ b) = a := by
  obtain ⟨-, c, hlast, hc⟩ := h
  obtain ⟨cs, rfl⟩ := List.getLast?_eq_some_iff.mp hlast
  have hblanks : ∀ d ∈ b.reverse, isBlank d = true := fun d hd =>
    List.all_eq_true.mp hb d (List.mem_reverse.mp hd)
  rw [trimEnd, List.reverse_append, List.dropWhile_append_of_pos hblanks, List.reverse_append,
    List.reverse_singleton, List.singleton_append, List.dropWhile_cons, if_neg (by simp [hc]),
    List.reverse_cons, List.reverse_reverse]

/-- Trimming leaves a tight text as it is. -/
theorem trim_eq (h : Tight t) : trim t = t := by
  have hstart := h.trimStart_append []
  have hend := h.trimEnd_append (b := []) rfl
  rw [List.append_nil] at hstart hend
  rw [trim, hstart, hend]

theorem ne_nil (h : Tight t) : t ≠ [] := by
  rintro rfl
  obtain ⟨⟨a, ha, -⟩, -⟩ := h
  exact absurd ha (by simp)

theorem isBlankText (h : Tight t) : isBlankText t = false := by
  obtain ⟨⟨a, hhead, ha⟩, -⟩ := h
  obtain ⟨cs, rfl⟩ := List.head?_eq_some_iff.mp hhead
  rw [Text.isBlankText, List.all_cons, ha, Bool.false_and]

/-- A text without any blank is tight. -/
theorem of_all (hne : t ≠ []) (h : t.all fun c => !isBlank c) : Tight t := by
  have hblank := not_blank_of_all h
  exact ⟨⟨t.head hne, List.head?_eq_some_head hne, hblank _ (List.head_mem hne)⟩,
    t.getLast hne, List.getLast?_eq_some_getLast hne, hblank _ (List.getLast_mem hne)⟩

/-- Whatever stands between tight texts, together they are tight. -/
theorem around (ha : Tight a) (m : Text) (hb : Tight b) : Tight (a ++ (m ++ b)) := by
  obtain ⟨⟨c, hhead, hc⟩, -⟩ := ha
  obtain ⟨-, d, hlast, hd⟩ := hb
  exact ⟨⟨c, by rw [List.head?_append, hhead]; rfl, hc⟩,
    d, by rw [List.getLast?_append, List.getLast?_append, hlast]; rfl, hd⟩

end Tight

theorem isBlankText_intercalate (sep : Text) {ts : List Text} (hne : ts ≠ [])
    (h : ∀ t ∈ ts, Tight t) : isBlankText (sep.intercalate ts) = false := by
  obtain ⟨t, ts, rfl⟩ := List.exists_cons_of_ne_nil hne
  have hfirst := (h t List.mem_cons_self).isBlankText
  cases ts with
  | nil => rw [List.intercalate_singleton, hfirst]
  | cons u ts =>
    rw [Text.isBlankText] at hfirst
    rw [List.intercalate_cons_cons, List.append_assoc, Text.isBlankText, List.all_append, hfirst,
      Bool.false_and]

/-- A blank in front of the first text makes no difference to trimmed texts. -/
theorem map_trim_blank (ts : List Text) : (ts.modifyHead (' ' :: ·)).map trim = ts.map trim := by
  cases ts <;> rfl

/-! ## Glyphs that are not cut -/

/-- No separator cuts the glyphs when they start at the given depth, and they end at this depth. -/
def Uncut (sep : Char) (depth : Nat) (gs : List Glyph) : Prop :=
  ∀ rest, splitGlyphs sep depth (gs ++ rest) =
    (splitGlyphs sep depth rest).modifyHead (Glyph.chars gs ++ ·)

namespace Uncut

variable {sep : Char} {depth : Nat} {gs hs : List Glyph}

theorem nil (sep : Char) (depth : Nat) : Uncut sep depth [] := fun rest => by
  rw [List.nil_append]
  cases splitGlyphs sep depth rest <;> rfl

theorem append (hg : Uncut sep depth gs) (hh : Uncut sep depth hs) :
    Uncut sep depth (gs ++ hs) := fun rest => by
  rw [List.append_assoc, hg, hh, List.modifyHead_modifyHead]
  congr 1
  funext t
  rw [Glyph.chars_append, List.append_assoc]
  rfl

/-- Brackets around glyphs that are not cut deeper down. -/
theorem bracket (h : Uncut sep (depth + 1) gs) :
    Uncut sep depth (⟨'[', false⟩ :: (gs ++ [⟨']', false⟩])) := fun rest => by
  have hopen : ∀ xs, splitGlyphs sep depth (⟨'[', false⟩ :: xs) =
      (splitGlyphs sep (depth + 1) xs).modifyHead ('[' :: ·) := fun _ => rfl
  have hclose : ∀ xs, splitGlyphs sep (depth + 1) (⟨']', false⟩ :: xs) =
      (splitGlyphs sep depth xs).modifyHead (']' :: ·) := fun _ => rfl
  rw [List.cons_append, List.append_assoc, hopen, h, List.singleton_append, hclose,
    List.modifyHead_modifyHead, List.modifyHead_modifyHead]
  congr 1
  funext t
  rw [Glyph.chars_cons, Glyph.chars_append]
  simp [Glyph.chars]

theorem of_quoted (h : ∀ g ∈ gs, g.quoted = true) : Uncut sep depth gs := by
  induction gs with
  | nil => exact nil sep depth
  | cons g gs ih =>
    intro rest
    obtain ⟨hg, hgs⟩ := List.forall_mem_cons.mp h
    rw [List.cons_append, splitGlyphs, if_pos hg, ih hgs, List.modifyHead_modifyHead]
    rfl

/-- A character without structure is not cut, be it for the depth or for the separator. -/
theorem of_inert {c : Char} (hc : isInert c = true) (hsep : c ≠ sep ∨ depth ≠ 0) :
    Uncut sep depth [⟨c, false⟩] := fun rest => by
  obtain ⟨-, hopening, hclosing, -⟩ := isInert_iff.mp hc
  have hcut : ¬ (c = sep ∧ depth = 0) := not_and_or.mpr hsep
  rw [List.singleton_append, splitGlyphs, if_neg Bool.false_ne_true,
    if_neg (ne_true_of_eq_false hopening), if_neg (ne_true_of_eq_false hclosing), if_neg hcut]
  rfl

end Uncut

/-! ## Contained texts -/

/-- **A text that keeps its structure to itself**, and has neither a brace nor an end of a statement
in it. -/
structure Contained (t : Text) : Prop where
  /-- Every literal that opens in it closes in it. -/
  closed : Quoting.outside.after t = .outside
  /-- There is no brace and no end of a statement. -/
  calm : ∀ g ∈ t.glyphs, g.quoted = true ∨ g.char ∉ ['{', '}', ';', '\n']
  /-- Inside of brackets no separator cuts it. -/
  uncut : ∀ (sep : Char) (depth : Nat), Uncut sep (depth + 1) t.glyphs
  /-- Its square brackets match. -/
  matched : ∀ (depth : Nat) (rest : List Glyph), rest ≠ [] →
    closesAtEnd '[' ']' (depth + 1) (t.glyphs ++ rest) = closesAtEnd '[' ']' (depth + 1) rest

theorem closesAtEnd_cons (left right : Char) (depth : Nat) (g : Glyph) (gs : List Glyph) :
    closesAtEnd left right depth (g :: gs) =
      if g.quoted then closesAtEnd left right depth gs
      else if g.char = left then closesAtEnd left right (depth + 1) gs
      else if g.char = right then
        match depth with
        | 0 => false
        | 1 => gs.isEmpty
        | d + 2 => closesAtEnd left right (d + 1) gs
      else closesAtEnd left right depth gs := by
  rcases depth with _ | _ | d <;> rfl

/-- A bracket that closes at the end of a text is structure. -/
theorem exists_of_closesAtEnd {left right : Char} : ∀ {gs : List Glyph} {depth : Nat},
    closesAtEnd left right depth gs = true → ∃ pre, gs = pre ++ [⟨right, false⟩]
  | [], depth, h => by cases depth <;> exact absurd h Bool.false_ne_true
  | g :: gs, depth, h => by
    have hbehind : ∀ {depth : Nat}, closesAtEnd left right depth gs = true →
        ∃ pre, g :: gs = pre ++ [⟨right, false⟩] := fun h => by
      obtain ⟨pre, rfl⟩ := exists_of_closesAtEnd h
      exact ⟨g :: pre, rfl⟩
    rw [closesAtEnd_cons] at h
    split at h
    · exact hbehind h
    · rename_i hquoted
      split at h
      · exact hbehind h
      · split at h
        · rename_i hright
          split at h
          · exact absurd h Bool.false_ne_true
          · -- the last bracket
            obtain ⟨c, quoted⟩ := g
            obtain rfl : c = right := hright
            obtain rfl : quoted = false := by simpa using hquoted
            exact ⟨[], by rw [List.isEmpty_iff.mp h]; rfl⟩
          · exact hbehind h
        · exact hbehind h

/-- What is enclosed stands between a bracket and one that is structure. -/
theorem exists_of_enclosed? {left right : Char} {t inner : Text} (hne : left ≠ right)
    (h : enclosed? left right t = some inner) :
    ∃ pre, t.glyphs = pre ++ [⟨right, false⟩] ∧ Glyph.chars pre = left :: inner := by
  rw [enclosed?] at h
  split at h
  · next hbrackets =>
    obtain ⟨hhead, hcloses⟩ := hbrackets
    obtain ⟨pre, hpre⟩ := exists_of_closesAtEnd hcloses
    have ht : t = Glyph.chars pre ++ [right] := by
      rw [← chars_glyphs t, hpre, Glyph.chars_append]
      rfl
    refine ⟨pre, hpre, ?_⟩
    cases hchars : Glyph.chars pre with
    | nil =>
      rw [ht, hchars] at hhead
      exact absurd (Option.some.inj hhead).symm hne
    | cons c cs =>
      rw [ht, hchars] at hhead h
      rw [List.cons_append, List.tail_cons, List.dropLast_concat] at h
      rw [Option.some.inj h, show c = left from Option.some.inj hhead]
  · cases h

theorem eq_of_enclosed? {left right : Char} {t inner : Text} (hne : left ≠ right)
    (h : enclosed? left right t = some inner) : t = left :: (inner ++ [right]) := by
  obtain ⟨pre, hpre, hbody⟩ := exists_of_enclosed? hne h
  rw [← chars_glyphs t, hpre, Glyph.chars_append, hbody]
  rfl

/-- A text behind a contained one is read by itself. -/
theorem Contained.glyphs_append {a : Text} (ha : Contained a) (b : Text) :
    glyphs (a ++ b) = glyphs a ++ glyphs b := by
  rw [glyphs, glyphsFrom_append, ha.closed]
  rfl

/-- A newline is no part of a literal. -/
theorem unquoted_of_newline {g : Glyph} (hg : g.char = '\n') :
    ∀ {q : Quoting} {t : Text}, g ∈ glyphsFrom q t → g.quoted = false
  | _, [], hmem => absurd hmem List.not_mem_nil
  | q, c :: cs, hmem => by
    rcases List.mem_cons.mp hmem with rfl | hmem
    · have hc : c = '\n' := hg
      rw [hc, Quoting.step_newline]
    · exact unquoted_of_newline hg hmem

namespace Contained

variable {a b t : Text}

/-- A contained text is in one line, its literals included. -/
theorem newline_not_mem (h : Contained t) : '\n' ∉ t := fun hmem => by
  rw [← chars_glyphs t] at hmem
  obtain ⟨g, hg, hchar⟩ := List.mem_map.mp hmem
  rcases h.calm g hg with hquoted | hnot
  · rw [unquoted_of_newline hchar hg] at hquoted
    exact Bool.false_ne_true hquoted
  · exact hnot (by simp [hchar])

theorem nil : Contained [] where
  closed := rfl
  calm := fun _ hg => absurd hg List.not_mem_nil
  uncut := fun sep depth => Uncut.nil sep (depth + 1)
  matched := fun _ _ _ => rfl

theorem append (ha : Contained a) (hb : Contained b) : Contained (a ++ b) where
  closed := by
    rw [Quoting.after_append, ha.closed, hb.closed]
  calm := fun g hg => by
    rw [ha.glyphs_append] at hg
    exact (List.mem_append.mp hg).elim (ha.calm g) (hb.calm g)
  uncut := fun sep depth => by
    rw [ha.glyphs_append]
    exact (ha.uncut sep depth).append (hb.uncut sep depth)
  matched := fun depth rest hrest => by
    rw [ha.glyphs_append, List.append_assoc,
      ha.matched depth _ (List.append_ne_nil_of_right_ne_nil _ hrest), hb.matched depth rest hrest]

/-- The glyph of a character that opens no literal. -/
theorem glyphs_singleton {c : Char} (hc : Quoting.isQuote c = false) :
    glyphs [c] = [⟨c, false⟩] ∧ Quoting.outside.after [c] = .outside := by
  have hstep : Quoting.outside.step c = (.outside, false) := by
    rw [Quoting.step, if_neg (by simp [hc])]
  exact ⟨by rw [glyphs, glyphsFrom, hstep]; rfl, by rw [Quoting.after, List.foldl_cons, hstep]; rfl⟩

theorem of_inert_char {c : Char} (hc : isInert c = true) : Contained [c] := by
  obtain ⟨hquote, hopening, hclosing, hcalm⟩ := isInert_iff.mp hc
  obtain ⟨hglyphs, hclosed⟩ := glyphs_singleton hquote
  refine ⟨hclosed, fun g hg => ?_, fun sep depth => ?_, fun depth rest _ => ?_⟩
  · rw [hglyphs, List.mem_singleton] at hg
    subst hg
    exact .inr hcalm
  · rw [hglyphs]
    exact .of_inert hc (.inr (Nat.succ_ne_zero depth))
  · have hleft : c ≠ '[' := by
      rintro rfl
      exact absurd hopening (by decide)
    have hright : c ≠ ']' := by
      rintro rfl
      exact absurd hclosing (by decide)
    rw [hglyphs, List.singleton_append, closesAtEnd_cons, if_neg Bool.false_ne_true,
      if_neg hleft, if_neg hright]

theorem of_inert (h : t.all isInert) : Contained t := by
  induction t with
  | nil => exact nil
  | cons c cs ih =>
    obtain ⟨hc, hcs⟩ := (Bool.and_eq_true _ _).mp h
    exact (of_inert_char hc).append (ih hcs)

/-- Characters without structure are not cut at a separator that is none of them. -/
theorem uncut_of_inert {sep : Char} (h : t.all isInert) (hsep : sep ∉ t) :
    Uncut sep 0 t.glyphs := by
  induction t with
  | nil => exact Uncut.nil sep 0
  | cons c cs ih =>
    obtain ⟨hc, hcs⟩ := (Bool.and_eq_true _ _).mp h
    obtain ⟨hne, hnot⟩ := not_or.mp (mt List.mem_cons.mpr hsep)
    rw [← List.singleton_append, (of_inert_char hc).glyphs_append]
    refine Uncut.append ?_ (ih hcs hnot)
    rw [(glyphs_singleton (isInert_iff.mp hc).1).1]
    exact .of_inert hc (.inl (Ne.symm hne))

/-- A text that is all literal. -/
theorem of_quoted (hclosed : Quoting.outside.after t = .outside)
    (h : ∀ g ∈ t.glyphs, g.quoted = true) : Contained t where
  closed := hclosed
  calm := fun g hg => .inl (h g hg)
  uncut := fun _ _ => .of_quoted h
  matched := fun depth rest _ => by
    generalize t.glyphs = gs at h
    induction gs with
    | nil => rfl
    | cons g gs ih =>
      obtain ⟨hg, hgs⟩ := List.forall_mem_cons.mp h
      rw [List.cons_append, closesAtEnd_cons, if_pos hg]
      exact ih hgs

theorem glyphs_bracket (h : Contained t) :
    glyphs ('[' :: (t ++ [']'])) = ⟨'[', false⟩ :: (glyphs t ++ [⟨']', false⟩]) := by
  show ⟨'[', false⟩ :: glyphs (t ++ [']']) = _
  rw [h.glyphs_append]
  rfl

/-- **Brackets around a contained text.** -/
theorem bracket (h : Contained t) : Contained ('[' :: (t ++ [']'])) where
  closed := by
    show Quoting.outside.after (t ++ [']']) = .outside
    rw [Quoting.after_append, h.closed]
    rfl
  calm := fun g hg => by
    rw [h.glyphs_bracket] at hg
    simp only [List.mem_cons, List.mem_append, List.not_mem_nil, or_false] at hg
    rcases hg with rfl | hg | rfl
    · exact .inr (by decide)
    · exact h.calm g hg
    · exact .inr (by decide)
  uncut := fun sep depth => by
    rw [h.glyphs_bracket]
    exact (h.uncut sep (depth + 1)).bracket
  matched := fun depth rest _ => by
    rw [h.glyphs_bracket, List.cons_append, List.append_assoc]
    show closesAtEnd '[' ']' (depth + 2) _ = _
    rw [h.matched (depth + 1) _ (by simp)]
    rfl

theorem intercalate {sep : Text} (hsep : Contained sep) :
    ∀ {ts : List Text}, (∀ t ∈ ts, Contained t) → Contained (sep.intercalate ts)
  | [], _ => nil
  | [t], h => by
    rw [List.intercalate_singleton]
    exact h t List.mem_cons_self
  | t :: u :: ts, h => by
    obtain ⟨ht, hts⟩ := List.forall_mem_cons.mp h
    rw [List.intercalate_cons_cons]
    exact (ht.append hsep).append (intercalate hsep hts)

/-- What stands in brackets is found between them. -/
theorem enclosed?_bracket (h : Contained t) : enclosed? '[' ']' ('[' :: (t ++ [']'])) = some t := by
  have hcloses : closesAtEnd '[' ']' 0 (glyphs ('[' :: (t ++ [']']))) = true := by
    rw [h.glyphs_bracket]
    show closesAtEnd '[' ']' 1 _ = true
    rw [h.matched 0 _ (by simp)]
    rfl
  rw [enclosed?, if_pos ⟨rfl, hcloses⟩, List.tail_cons, List.dropLast_concat]

end Contained

/-! ## Sealed texts -/

/-- **A text that stays in one piece** when a list with it is cut at some separators. -/
structure Sealed (seps : List Char) (t : Text) : Prop extends Contained t where
  /-- None of the separators cuts it. -/
  whole : ∀ sep ∈ seps, Uncut sep 0 t.glyphs
  /-- It neither starts nor ends with a blank. -/
  tight : Tight t

namespace Sealed

variable {seps : List Char} {t : Text}

theorem of_inert (h : t.all isInert) (hseps : t.all fun c => !seps.contains c)
    (htight : Tight t) : Sealed seps t where
  toContained := .of_inert h
  whole := fun sep hsep => Contained.uncut_of_inert h fun hmem => by
    have hnot := List.all_eq_true.mp hseps sep hmem
    simp [hsep] at hnot
  tight := htight

theorem of_quoted (hclosed : Quoting.outside.after t = .outside)
    (h : ∀ g ∈ t.glyphs, g.quoted = true) (htight : Tight t) : Sealed seps t where
  toContained := .of_quoted hclosed h
  whole := fun _ _ => .of_quoted h
  tight := htight

theorem bracket (h : Contained t) : Sealed seps ('[' :: (t ++ [']'])) where
  toContained := h.bracket
  whole := fun sep _ => by
    rw [h.glyphs_bracket]
    exact (h.uncut sep 0).bracket
  tight := (show Tight ['['] from .of_all (by decide) (by decide)).around t
    (.of_all (by decide) (by decide))

/-- Sealed texts around a contained one that is not cut itself. -/
theorem around {a m b : Text} (ha : Sealed seps a) (hm : Contained m)
    (hwhole : ∀ sep ∈ seps, Uncut sep 0 m.glyphs) (hb : Sealed seps b) :
    Sealed seps (a ++ (m ++ b)) where
  toContained := ha.append (hm.append hb.toContained)
  whole := fun sep hsep => by
    rw [ha.glyphs_append, hm.glyphs_append]
    exact (ha.whole sep hsep).append ((hwhole sep hsep).append (hb.whole sep hsep))
  tight := ha.tight.around m hb.tight

theorem mono {seps' : List Char} (h : Sealed seps t) (hsub : ∀ sep ∈ seps', sep ∈ seps) :
    Sealed seps' t where
  toContained := h.toContained
  whole := fun sep hsep => h.whole sep (hsub sep hsep)
  tight := h.tight

end Sealed

/-- **Sealed texts with separators between them are cut into these texts again.** -/
theorem splitTopLevel_intercalate {seps : List Char} {sep : Char} (hmem : sep ∈ seps)
    (hsep : isInert sep = true) (hne : sep ≠ ' ') :
    ∀ {ts : List Text}, ts ≠ [] → (∀ t ∈ ts, Sealed seps t) →
      splitTopLevel sep (([sep, ' '] : Text).intercalate ts) = ts
  | [], hnil, _ => absurd rfl hnil
  | [t], _, h => by
    have ht := h t List.mem_cons_self
    have hcut := ht.whole sep hmem []
    rw [List.append_nil, chars_glyphs] at hcut
    rw [List.intercalate_singleton, splitTopLevel, hcut]
    show [trim (t ++ [])] = [t]
    rw [List.append_nil, ht.tight.trim_eq]
  | t :: u :: ts, _, h => by
    obtain ⟨ht, hts⟩ := List.forall_mem_cons.mp h
    have ih := splitTopLevel_intercalate hmem hsep hne (List.cons_ne_nil u ts) hts
    rw [splitTopLevel] at ih
    have hsepText : Contained [sep, ' '] := (Contained.of_inert_char hsep).append
      (Contained.of_inert_char (c := ' ') (by decide))
    have hglyphs : glyphs [sep, ' '] = [⟨sep, false⟩, ⟨' ', false⟩] := by
      have hone := (Contained.of_inert_char hsep).glyphs_append [' ']
      rw [(Contained.glyphs_singleton (isInert_iff.mp hsep).1).1] at hone
      exact hone
    have hblank : Uncut sep 0 [⟨' ', false⟩] := .of_inert (by decide) (.inl hne.symm)
    have hrest : ∀ gs, splitGlyphs sep 0 (⟨sep, false⟩ :: gs) = [] :: splitGlyphs sep 0 gs :=
      fun gs => by
        obtain ⟨-, hopening, hclosing, -⟩ := isInert_iff.mp hsep
        rw [splitGlyphs, if_neg Bool.false_ne_true, if_neg (ne_true_of_eq_false hopening),
          if_neg (ne_true_of_eq_false hclosing), if_pos ⟨rfl, rfl⟩]
    rw [List.intercalate_cons_cons, splitTopLevel, List.append_assoc, ht.glyphs_append,
      hsepText.glyphs_append, hglyphs, ht.whole sep hmem, List.cons_append, hrest, hblank]
    show trim (Glyph.chars t.glyphs ++ []) :: (List.modifyHead (' ' :: ·) _).map trim = _
    rw [chars_glyphs, List.append_nil, ht.tight.trim_eq, map_trim_blank, ih]

end BraceTree.Text
