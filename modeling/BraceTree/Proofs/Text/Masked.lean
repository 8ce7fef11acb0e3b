import BraceTree.Proofs.Text.Reading

/-!
# The mask of a text

The mask of a text has a blank for every byte of its string literals. It is taken line by line
(`mask_append_newline`), since a newline ends every literal, and there is no quote left in it that
could open another one (`mask_mask`).

The mask forgets whether a blank was one before. What a scan sees is said byte by byte instead
(`quotedBytes`), and a part of a source is `ReadAlike` when a scan that starts there afresh sees
each byte as a scan of the whole source does. That is so behind every position where a reader may
start.
-/

namespace BraceTree

/-- What the mask leaves of a glyph. -/
def Glyph.mask (g : Glyph) : Text :=
  if g.quoted then List.replicate g.char.utf8Size ' ' else [g.char]

/-- Whether each byte of a glyph belongs to a literal. -/
def Glyph.quotedBytes (g : Glyph) : List Bool := List.replicate g.char.utf8Size g.quoted

namespace Text

/-- For each byte of a text, whether it belongs to a string literal. -/
def quotedBytes (t : Text) : List Bool := t.glyphs.flatMap Glyph.quotedBytes

theorem bytes_replicate_blank (k : Nat) : bytes (List.replicate k ' ') = k := by
  induction k with
  | zero => rfl
  | succ k ih =>
    show 1 + bytes (List.replicate k ' ') = k + 1
    rw [ih, Nat.add_comm]

theorem bytes_flatMap_mask (gs : List Glyph) :
    bytes (gs.flatMap Glyph.mask) = bytes (Glyph.chars gs) := by
  induction gs with
  | nil => rfl
  | cons g gs ih =>
    rw [List.flatMap_cons, bytes_append, ih, Glyph.chars_cons, bytes_cons]
    obtain ⟨c, _ | _⟩ := g
    · rfl
    · exact congrArg (· + _) (bytes_replicate_blank _)

theorem length_flatMap_quotedBytes (gs : List Glyph) :
    (gs.flatMap Glyph.quotedBytes).length = bytes (Glyph.chars gs) := by
  induction gs with
  | nil => rfl
  | cons g gs ih =>
    rw [List.flatMap_cons, List.length_append, ih, Glyph.chars_cons, bytes_cons,
      Glyph.quotedBytes, List.length_replicate]

/-! ## The laws of the mask -/

/-- **The mask of a line does not depend on the other lines.** -/
theorem mask_append_newline (a b : Text) : mask (a ++ '\n' :: b) = mask a ++ '\n' :: mask b := by
  show (glyphs (a ++ '\n' :: b)).flatMap Glyph.mask = _
  rw [glyphs, glyphsFrom_append_newline, List.flatMap_append]
  rfl

/-- The mask takes as many bytes as the text. -/
theorem bytes_mask (t : Text) : bytes (mask t) = bytes t := by
  have h := bytes_flatMap_mask t.glyphs
  rwa [chars_glyphs] at h

/-- A quote outside of literals opens one, so it belongs to it. -/
theorem not_isQuote_of_mem_glyphsFrom {q : Quoting} {t : Text} {g : Glyph}
    (hg : g ∈ glyphsFrom q t) (hquoted : g.quoted = false) : Quoting.isQuote g.char = false := by
  induction t generalizing q with
  | nil => exact absurd hg List.not_mem_nil
  | cons c cs ih =>
    rcases List.mem_cons.mp hg with rfl | hg
    · by_cases hc : c = '\n'
      · rw [hc]
        rfl
      · cases q with
        | outside =>
          rw [← Bool.not_eq_true]
          exact fun hquote => absurd hquoted (by simp [Quoting.step, hquote])
        | inside quote =>
          -- a literal takes in every other character, its last quote as well
          refine absurd hquoted ?_
          simp only [Quoting.step, if_neg hc]
          split
          · simp
          · split <;> simp
        | escaped quote => exact absurd hquoted (by simp [Quoting.step, hc])
    · exact ih hg

/-- **There are no quotes in a mask.** -/
theorem not_isQuote_of_mem_mask {t : Text} {c : Char} (hc : c ∈ mask t) :
    Quoting.isQuote c = false := by
  obtain ⟨g, hg, hmem⟩ := List.mem_flatMap.mp hc
  split at hmem
  · rw [List.eq_of_mem_replicate hmem]
    rfl
  · rename_i hquoted
    rw [List.mem_singleton.mp hmem]
    exact not_isQuote_of_mem_glyphsFrom hg (Bool.not_eq_true _ ▸ hquoted)

/-- Without quotes there is nothing to mask. -/
theorem mask_of_no_quotes {t : Text} (h : ∀ c ∈ t, Quoting.isQuote c = false) : mask t = t := by
  induction t with
  | nil => rfl
  | cons c cs ih =>
    have hstep : Quoting.outside.step c = (.outside, false) := by
      simp [Quoting.step, h c List.mem_cons_self]
    have hglyphs : glyphs (c :: cs) = ⟨c, false⟩ :: glyphs cs := by
      show ⟨c, (Quoting.outside.step c).2⟩ :: glyphsFrom (Quoting.outside.step c).1 cs = _
      rw [hstep]
      rfl
    show (glyphs (c :: cs)).flatMap Glyph.mask = _
    rw [hglyphs]
    exact congrArg (c :: ·) (ih fun d hd => h d (List.mem_cons_of_mem c hd))

/-- **Masking twice changes nothing.** -/
theorem mask_mask (t : Text) : mask (mask t) = mask t :=
  mask_of_no_quotes fun _ => not_isQuote_of_mem_mask

example : mask "a = 'x\\' \x7b' \x7b".toList = "a =         \x7b".toList := by decide +kernel

/-! ## Parts that are read as in the whole -/

/-- **A part of a source that is read as in the whole.** A scan that starts there afresh takes each
byte of the part for quoted or for structure as a scan of the whole source does, and so sees the
same mask. -/
structure ReadAlike (source : Text) (s : Span) : Prop where
  byte : ∀ o, s.start ≤ o → o < s.stop → ∃ quoted,
    (slice source s).quotedBytes[o - s.start]? = some quoted ∧ source.quotedBytes[o]? = some quoted
  mask : (slice source s).mask = slice source.mask s

variable {source : Text} {lo hi : Nat}

/-- From a position where a reader may start a part is read by itself as in the source. -/
theorem Fresh.exists_glyphs (hlo : Fresh source lo) (hhi : Border source hi) (hle : lo ≤ hi) :
    ∃ pre post, source.glyphs = pre ++ ((slice source ⟨lo, hi⟩).glyphs ++ post) ∧
      bytes (Glyph.chars pre) = lo ∧ lo + bytes (slice source ⟨lo, hi⟩) = hi := by
  obtain ⟨a, m, b, hsplit, ha, hm⟩ := hlo.border.exists_text hhi hle
  obtain ⟨a', rest, hrest, ha', hglyphs, -⟩ := hlo
  obtain ⟨rfl, rfl⟩ := append_inj_of_bytes_eq (hrest.symm.trans hsplit) (ha'.trans ha.symm)
  subst ha hm
  have hslice : slice source ⟨bytes a', bytes a' + bytes m⟩ = m := by
    rw [hsplit, slice_append]
  rw [hslice]
  refine ⟨glyphs a', glyphsFrom (Quoting.after .outside m) b, ?_, by rw [chars_glyphs], rfl⟩
  rw [hglyphs]
  exact congrArg _ (glyphsFrom_append .outside m b)

/-- **Behind a position where a reader may start a part is read as in the whole.** -/
theorem Fresh.readAlike (hlo : Fresh source lo) (hhi : Border source hi) :
    ReadAlike source ⟨lo, hi⟩ := by
  by_cases hle : lo ≤ hi
  · obtain ⟨pre, post, hglyphs, hpre, hlen⟩ := hlo.exists_glyphs hhi hle
    have hlength := length_flatMap_quotedBytes (slice source ⟨lo, hi⟩).glyphs
    rw [chars_glyphs] at hlength
    constructor
    · intro o hlo' hhi'
      simp only at hlo' hhi'
      have hbytes : source.quotedBytes = pre.flatMap Glyph.quotedBytes ++
          ((slice source ⟨lo, hi⟩).quotedBytes ++ post.flatMap Glyph.quotedBytes) := by
        rw [quotedBytes, hglyphs, List.flatMap_append, List.flatMap_append]
        rfl
      have hin : o - lo < (slice source ⟨lo, hi⟩).quotedBytes.length := by
        rw [quotedBytes, hlength]
        omega
      have hpre' : (pre.flatMap Glyph.quotedBytes).length = lo := by
        rw [length_flatMap_quotedBytes, hpre]
      refine ⟨_, List.getElem?_eq_getElem hin, ?_⟩
      rw [hbytes, List.getElem?_append_right (by omega), hpre', List.getElem?_append_left hin,
        List.getElem?_eq_getElem hin]
    · have hmask : source.mask = pre.flatMap Glyph.mask ++
          ((slice source ⟨lo, hi⟩).mask ++ post.flatMap Glyph.mask) := by
        show source.glyphs.flatMap Glyph.mask = _
        rw [hglyphs, List.flatMap_append, List.flatMap_append]
        rfl
      have hcut := slice_append (pre.flatMap Glyph.mask) (slice source ⟨lo, hi⟩).mask
        (post.flatMap Glyph.mask)
      rw [← hmask, bytes_flatMap_mask, bytes_mask, hpre, hlen] at hcut
      exact hcut.symm
  · -- nothing is read
    refine ⟨fun o hlo' hhi' => absurd (Nat.le_of_lt (Nat.lt_of_le_of_lt hlo' hhi')) hle, ?_⟩
    have hstop : hi ≤ lo := Nat.le_of_not_le hle
    rw [slice_of_stop_le source hstop, slice_of_stop_le source.mask hstop]
    rfl

end Text
end BraceTree
