import BraceTree.Proofs.Brace.Extracted
import BraceTree.Proofs.Hierarchy.Bracketed

/-!
# The blocks of a source that goes on

Where the braces of a source have their partners in it, braces on later lines are matched among
themselves. So the longer source has the blocks of the first one, in their order, and then those of
the text behind the newline, moved to their places (`Extraction.exists_ofSource_append`). What is
the innermost pair around a block of the first source stays so: a pair that starts further on is
around nothing before it.
-/

namespace BraceTree

namespace Brace

/-! ## Braces on later lines -/

theorem ofGlyphs_append (gs hs : List Glyph) : ∀ n : Nat,
    ofGlyphs n (gs ++ hs) = ofGlyphs n gs ++ ofGlyphs (n + Text.bytes (Glyph.chars gs)) hs := by
  induction gs with
  | nil => exact fun _ => rfl
  | cons g gs ih =>
    intro n
    have hbytes : n + Text.bytes (Glyph.chars (g :: gs)) =
        n + g.char.utf8Size + Text.bytes (Glyph.chars gs) := (Nat.add_assoc _ _ _).symm
    rw [List.cons_append, ofGlyphs_cons, ofGlyphs_cons, ih, hbytes]
    split
    · rfl
    · split <;> rfl

/-- Braces of glyphs that stand further on stand further on. -/
theorem ofGlyphs_add (k : Nat) (gs : List Glyph) : ∀ n : Nat,
    ofGlyphs (n + k) gs = (ofGlyphs n gs).map (moved (· + k)) := by
  induction gs with
  | nil => exact fun _ => rfl
  | cons g gs ih =>
    intro n
    rw [ofGlyphs_cons, ofGlyphs_cons, Nat.add_right_comm, ih]
    split
    · rfl
    · split <;> rfl

/-- **A source that goes on has its braces**, and those of the new text behind them. -/
theorem ofSource_append (source further : Text) : ofSource (source ++ '\n' :: further) =
    ofSource source ++ (ofSource further).map (moved (· + (source.bytes + 1))) := by
  rw [ofSource, Text.glyphs, Text.glyphsFrom_append_newline, ofGlyphs_append,
    Text.chars_glyphsFrom]
  show _ ++ ofGlyphs (0 + Text.bytes source + 1) further.glyphs = _
  rw [Nat.add_assoc, ofGlyphs_add]
  rfl

/-- **Braces behind those that have their partners are matched by themselves.** -/
theorem pair_append (cs : List Brace) : ∀ {bs : List Brace} {w : List Nat} {spans : List Span},
    pair w bs = .ok spans → pair w (bs ++ cs) = (pair [] cs).map (spans ++ ·)
  | [], [], spans, h => by
    obtain rfl := Except.ok.inj h
    rw [List.nil_append]
    cases pair [] cs <;> rfl
  | [], o :: os, _, h => by cases h
  | ⟨p, true⟩ :: bs, w, spans, h => by
    rw [pair_open] at h
    rw [List.cons_append, pair_open]
    exact pair_append cs h
  | ⟨_, false⟩ :: _, [], _, h => by cases h
  | ⟨p, false⟩ :: bs, o :: os, spans, h => by
    replace h : (pair os bs).map (⟨o, p + 1⟩ :: ·) = .ok spans := h
    cases hrest : pair os bs with
    | error f =>
      rw [hrest] at h
      cases h
    | ok rest =>
      rw [hrest] at h
      obtain rfl := Except.ok.inj h
      show (pair os (bs ++ cs)).map (⟨o, p + 1⟩ :: ·) = _
      rw [pair_append cs hrest]
      cases pair [] cs <;> rfl

/-! ## Innermost pairs -/

variable {bs bs' : List Brace} {s : Span} {p q : Option Span}

/-- There is one innermost pair around a span. -/
theorem Encloser.unique (hp : Encloser bs s p) (hq : Encloser bs s q) : p = q := by
  cases p with
  | none =>
    cases q with
    | none => rfl
    | some q => exact absurd hq.2.1 (hp q hq.1)
  | some p =>
    cases q with
    | none => exact absurd hp.2.1 (hq p hp.1)
    | some q =>
      rcases hp.2.2 q hq.1 hq.2.1 with heq | hqp
      · rw [heq]
      · rcases hq.2.2 p hp.1 hp.2.1 with heq | hpq
        · rw [heq]
        · rw [Span.encloses_iff] at hqp hpq
          refine absurd ?_ hqp.2.2
          cases p
          cases q
          simp only [Span.mk.injEq] at hqp hpq ⊢
          omega

/-- **The innermost pair around a span stays**, if no pair is new that starts before the span. -/
theorem Encloser.congr (h : Encloser bs s p)
    (hmatched : ∀ {q : Span}, q.start ≤ s.start → (Matched bs' q ↔ Matched bs q)) :
    Encloser bs' s p := by
  have hstart : ∀ {q : Span}, q.encloses s = true → q.start ≤ s.start := fun hq =>
    (Span.encloses_iff.mp hq).1
  cases p with
  | none => exact fun q hq henc => h q ((hmatched (hstart henc)).mp hq) henc
  | some p =>
    exact ⟨(hmatched (hstart h.2.1)).mpr h.1, h.2.1,
      fun q hq henc => h.2.2 q ((hmatched (hstart henc)).mp hq) henc⟩

end Brace

namespace Extraction

variable {source further : Text} {e e' : Extraction}

/-- **A source that goes on has the blocks of either part**, those of the new text behind the
newline. -/
theorem exists_ofSource_append (h : ofSource source = .ok e) (h' : ofSource further = .ok e') :
    ∃ e'' more, ofSource (source ++ '\n' :: further) = .ok e'' ∧ e''.spans = e.spans ++ more ∧
      ∀ s ∈ more, source.bytes < s.start := by
  have hmoved : Brace.pair []
      ((Brace.ofSource further).map (Brace.moved (· + (source.bytes + 1)))) =
        .ok (e'.spans.map (Span.moved (· + (source.bytes + 1)))) := by
    have := Brace.pair_moved (· + (source.bytes + 1)) (Brace.ofSource further) []
    rwa [pair_of_ofSource h'] at this
  have hpair := Brace.pair_append
    ((Brace.ofSource further).map (Brace.moved (· + (source.bytes + 1)))) (pair_of_ofSource h)
  rw [hmoved, ← Brace.ofSource_append] at hpair
  refine ⟨⟨_, _⟩, e'.spans.map (Span.moved (· + (source.bytes + 1))),
    by rw [ofSource, hpair]; rfl, rfl, List.forall_mem_map.mpr fun s _ => ?_⟩
  show source.bytes < s.start + (source.bytes + 1)
  omega

/-- Up to the newline there are no other pairs. -/
theorem matched_append_iff (h : ofSource source = .ok e) (h' : ofSource further = .ok e') {s : Span}
    (hs : s.start ≤ source.bytes) :
    Brace.Matched (Brace.ofSource (source ++ '\n' :: further)) s ↔
      Brace.Matched (Brace.ofSource source) s := by
  obtain ⟨e'', more, he'', hspans, hmore⟩ := exists_ofSource_append h h'
  rw [← braces_of_ofSource he'', ← braces_of_ofSource h, ← (exact_of_ofSource he'').mem_spans_iff,
    ← (exact_of_ofSource h).mem_spans_iff, hspans, List.mem_append]
  refine or_iff_left fun hmem => ?_
  have := hmore s hmem
  omega

end Extraction
end BraceTree
