import BraceTree.Proofs.Brace.Pairing
import BraceTree.Proofs.Text.Border
import BraceTree.Text.Split

/-!
# Reading a source from the middle

The statements of a block are cut out of a part of the source as if nothing stood before it. What is
a literal there, and how many brackets are open, could depend on all that came before. It does not:
a structural brace stands outside of literals, so behind it the source is read afresh, and no
bracket reaches over it. `Fresh` are the positions where a reader may start.
-/

namespace BraceTree

namespace Quoting

/-- Where a reader who stands at `q` stands after a text. -/
def after (q : Quoting) (t : Text) : Quoting := t.foldl (fun q c => (q.step c).1) q

theorem after_append (q : Quoting) (a b : Text) : q.after (a ++ b) = (q.after a).after b :=
  List.foldl_append

/-- **What is no part of a literal leaves the reader outside of one.** -/
theorem step_of_unquoted {q : Quoting} {c : Char} (h : (q.step c).2 = false) :
    (q.step c).1 = .outside := by
  by_cases hc : c = '\n'
  · rw [hc, step_newline]
  · cases q with
    | outside =>
      by_cases hq : isQuote c = true
      · exact absurd h (by simp [step, hq])
      · simp [step, hq]
    | inside quote =>
      -- a literal goes on with every other character, or ends with its quote
      have hstep : ((inside quote).step c).2 = true := by
        show (if c = '\n' then (outside, false) else _).2 = true
        rw [if_neg hc]
        split
        · rfl
        · split <;> rfl
      exact absurd (hstep.symm.trans h) (by simp)
    | escaped quote => exact absurd h (by simp [step, hc])

end Quoting

theorem Glyph.chars_append (a b : List Glyph) :
    Glyph.chars (a ++ b) = Glyph.chars a ++ Glyph.chars b := List.map_append

theorem Glyph.chars_cons (g : Glyph) (gs : List Glyph) :
    Glyph.chars (g :: gs) = g.char :: Glyph.chars gs := rfl

namespace Text

theorem glyphsFrom_append (q : Quoting) (a b : Text) :
    glyphsFrom q (a ++ b) = glyphsFrom q a ++ glyphsFrom (q.after a) b := by
  induction a generalizing q with
  | nil => rfl
  | cons c cs ih =>
    show _ :: glyphsFrom _ (cs ++ b) = _ :: (glyphsFrom _ cs ++ _)
    rw [ih]
    rfl

/-- A text is read up to some character as if it ended there. -/
theorem glyphsFrom_split {q : Quoting} {t : Text} {pre post : List Glyph}
    (h : glyphsFrom q t = pre ++ post) :
    pre = glyphsFrom q (Glyph.chars pre) ∧
      post = glyphsFrom (q.after (Glyph.chars pre)) (Glyph.chars post) := by
  have ht : t = Glyph.chars pre ++ Glyph.chars post := by
    rw [← chars_glyphsFrom q t, h, Glyph.chars_append]
  have hlen : pre.length = (glyphsFrom q (Glyph.chars pre)).length := by
    rw [length_glyphsFrom]
    exact (List.length_map _).symm
  rw [ht, glyphsFrom_append] at h
  exact List.append_inj h.symm hlen

end Text

namespace Glyph

/-- The depth of brackets behind a glyph, given the depth before it. -/
def nest (depth : Nat) (g : Glyph) : Nat :=
  if g.quoted then depth
  else if Text.isOpening g.char then depth + 1
  else if Text.isClosing g.char then depth - 1
  else depth

/-- Whether no bracket reaches over a glyph: a newline or a structural brace. -/
def resets (g : Glyph) : Bool := g.is '\n' || g.is '{' || g.is '}'

/-- How many brackets are open behind some glyphs, given the depth before them. -/
def depthFrom (depth : Nat) (gs : List Glyph) : Nat :=
  gs.foldl (fun depth g => if g.resets then 0 else g.nest depth) depth

theorem depthFrom_append (depth : Nat) (a b : List Glyph) :
    depthFrom depth (a ++ b) = depthFrom (depthFrom depth a) b := List.foldl_append

/-- A character as structure is that character. -/
theorem is_iff {g : Glyph} {c : Char} : g.is c = true ↔ g.quoted = false ∧ g.char = c := by
  simp [is]

/-- A glyph is one character as structure, not two. -/
theorem is_eq_false_of_is {g : Glyph} {c d : Char} (h : g.is c = true) (hne : c ≠ d) :
    g.is d = false := by
  rw [← Bool.not_eq_true]
  exact fun hd => hne ((is_iff.mp h).2.symm.trans (is_iff.mp hd).2)

/-- There are neither braces nor parentheses among blanks. -/
theorem is_eq_false_of_blank {g : Glyph} {c : Char} (h : Text.isBlank g.char = true)
    (hc : Text.isBlank c = false) : g.is c = false := by
  rw [← Bool.not_eq_true]
  intro hg
  rw [(is_iff.mp hg).2, hc] at h
  exact Bool.false_ne_true h

end Glyph

namespace Text

/-- **A separator of statements**: a semicolon outside of literals and of the brackets that were
opened since the last newline or structural brace. -/
def IsSeparator (source : Text) (offset : Nat) : Prop :=
  ∃ pre g post, source.glyphs = pre ++ g :: post ∧ g.is ';' = true ∧ Glyph.depthFrom 0 pre = 0 ∧
    bytes (Glyph.chars pre) = offset

/-- **A position where a reader may start**: outside of literals and brackets. -/
def Fresh (source : Text) (offset : Nat) : Prop :=
  ∃ a b, source = a ++ b ∧ bytes a = offset ∧ source.glyphs = glyphs a ++ glyphs b ∧
    Glyph.depthFrom 0 (glyphs a) = 0

theorem fresh_zero (source : Text) : Fresh source 0 := ⟨[], source, rfl, rfl, rfl, rfl⟩

theorem Fresh.border {source : Text} {offset : Nat} (h : Fresh source offset) :
    Border source offset := by
  obtain ⟨a, b, hab, hoff, -⟩ := h
  exact ⟨a, b, hab, hoff⟩

end Text

namespace Brace

variable {source : Text} {b : Brace}

/-- A structural brace is a character of the source, and its position is the border before it. -/
theorem exists_glyph (h : b ∈ ofSource source) :
    ∃ pre g post, source.glyphs = pre ++ g :: post ∧ b.offset = Text.bytes (Glyph.chars pre) ∧
      (g.is '{' = true ∨ g.is '}' = true) := by
  obtain ⟨pre, g, post, hsplit, hoff, hg⟩ := mem_ofGlyphs_iff.mp h
  exact ⟨pre, g, post, hsplit, by rw [hoff, Nat.zero_add], hg.imp (·.1) (·.1)⟩

theorem border (h : b ∈ ofSource source) : Text.Border source b.offset := by
  obtain ⟨pre, g, post, hsplit, hoff, -⟩ := exists_glyph h
  refine ⟨Glyph.chars pre, Glyph.chars (g :: post), ?_, hoff.symm⟩
  rw [← Text.chars_glyphs source, hsplit, Glyph.chars_append]

/-- Every unquoted brace of the source is a structural one. -/
theorem exists_of_glyph {pre post : List Glyph} {g : Glyph}
    (h : source.glyphs = pre ++ g :: post) (hg : g.is '{' = true ∨ g.is '}' = true) :
    ∃ b ∈ ofSource source, b.offset = Text.bytes (Glyph.chars pre) := by
  rcases hg with hg | hg
  · exact ⟨⟨_, true⟩, mem_ofGlyphs_iff.mpr ⟨pre, g, post, h, (Nat.zero_add _).symm, .inl ⟨hg, rfl⟩⟩,
      rfl⟩
  · exact ⟨⟨_, false⟩, mem_ofGlyphs_iff.mpr ⟨pre, g, post, h, (Nat.zero_add _).symm,
      .inr ⟨hg, rfl⟩⟩, rfl⟩

/-- **Behind a structural brace a reader may start.** -/
theorem fresh (h : b ∈ ofSource source) : Text.Fresh source (b.offset + 1) := by
  obtain ⟨pre, g, post, hsplit, hoff, hg⟩ := exists_glyph h
  have hunquoted : g.quoted = false := hg.elim (Glyph.is_iff.mp · |>.1) (Glyph.is_iff.mp · |>.1)
  have hsize : g.char.utf8Size = 1 := by
    rcases hg with hg | hg <;> rw [(Glyph.is_iff.mp hg).2] <;> rfl
  have hresets : g.resets = true := by
    unfold Glyph.resets
    rcases hg with hg | hg <;> simp [hg]
  have hsplit' : source.glyphs = (pre ++ [g]) ++ post := by rw [hsplit, List.append_cons]
  obtain ⟨hleft, hright⟩ := Text.glyphsFrom_split hsplit'
  -- the reader is outside of a literal behind the brace
  have hout : Quoting.after .outside (Glyph.chars (pre ++ [g])) = .outside := by
    obtain ⟨hpre, hrest⟩ := Text.glyphsFrom_split hsplit
    obtain ⟨hg', -⟩ := List.cons.inj hrest
    have hquoted := congrArg Glyph.quoted hg'
    rw [hunquoted] at hquoted
    rw [Glyph.chars_append, Quoting.after_append]
    exact Quoting.step_of_unquoted hquoted.symm
  rw [hout] at hright
  refine ⟨Glyph.chars (pre ++ [g]), Glyph.chars post, ?_, ?_, ?_, ?_⟩
  · rw [← Text.chars_glyphs source, hsplit', Glyph.chars_append]
  · rw [Glyph.chars_append, Text.bytes_append, hoff]
    show _ + (g.char.utf8Size + 0) = _
    omega
  · rw [hsplit', Text.glyphs, ← hleft, Text.glyphs, ← hright]
  · rw [Text.glyphs, ← hleft, Glyph.depthFrom_append]
    show (if g.resets then 0 else _) = 0
    rw [if_pos hresets]

end Brace
end BraceTree
