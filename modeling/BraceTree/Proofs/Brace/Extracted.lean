import BraceTree.Proofs.Brace.Structural

/-!
# What is extracted from a source

`Extraction.outcome_of_structural` says what comes of every source. It gives blocks exactly when the
structural braces are balanced, and then one block for every matched pair, in the order in which the
pairs close. Otherwise it gives the brace to blame. What stands in the string literals has no part
in this: sources that differ in nothing else have the same outcome, each brace at its place in
either (`Brace.pair_moved`).
-/

namespace BraceTree

/-- The span between two characters after each of them was moved. -/
def Span.moved (move : Nat → Nat) (s : Span) : Span := ⟨move s.start, move (s.stop - 1) + 1⟩

def Finding.moved (move : Nat → Nat) (f : Finding) : Finding := ⟨f.problem, f.span.moved move⟩

namespace Brace

/-- A brace at another place. -/
def moved (move : Nat → Nat) (b : Brace) : Brace := ⟨move b.offset, b.isOpen⟩

/-! ## Braces at other places -/

/-- **Matching does not look at places**: it commutes with moving the braces. -/
theorem pair_moved (move : Nat → Nat) : ∀ (bs : List Brace) (w : List Nat),
    pair (w.map move) (bs.map (moved move)) =
      ((pair w bs).map (·.map (Span.moved move))).mapError (Finding.moved move)
  | [], [] => rfl
  | [], _ :: os => by
    show Except.error _ = Except.error (Finding.mk (.unclosedBrace (os.length + 1)) _)
    rw [List.length_map]
    rfl
  | ⟨p, true⟩ :: bs, w => by
    rw [pair_open, ← pair_moved move bs (p :: w)]
    exact pair_open _ _ _
  | ⟨_, false⟩ :: _, [] => rfl
  | ⟨p, false⟩ :: bs, o :: os => by
    show (pair (os.map move) (bs.map (moved move))).map _ =
      (((pair os bs).map _).map _).mapError _
    rw [pair_moved move bs os]
    cases pair os bs <;> rfl

/-- Lists of braces that open and close alike are the same up to the places. -/
theorem exists_moved : ∀ {bs bs' : List Brace}, Sorted bs →
    bs'.map (·.isOpen) = bs.map (·.isOpen) → ∃ move : Nat → Nat, bs' = bs.map (moved move)
  | [], bs', _, h => ⟨id, List.map_eq_nil_iff.mp h⟩
  | b :: bs, bs', hs, h => by
    obtain ⟨b', bs', rfl, hb, hbs⟩ := List.map_eq_cons_iff.mp h
    obtain ⟨hhead, htail⟩ := List.pairwise_cons.mp hs
    obtain ⟨move, rfl⟩ := exists_moved htail hbs
    refine ⟨Function.update move b.offset b'.offset, ?_⟩
    have hrest : ∀ x ∈ bs, moved (Function.update move b.offset b'.offset) x = moved move x :=
      fun x hx => by
        rw [moved, Function.update_of_ne (Nat.ne_of_gt (hhead x hx))]
        rfl
    have hb : b'.isOpen = b.isOpen := hb
    rw [List.map_cons, List.map_congr_left hrest, moved, Function.update_self, ← hb]

/-- Whether the braces among some glyphs open or close can be told without the literals. -/
theorem map_isOpen_ofGlyphs (n : Nat) (gs : List Glyph) :
    (ofGlyphs n gs).map (·.isOpen) =
      (Glyph.chars (gs.filter fun g => !g.quoted)).filterMap fun c =>
        if c = '{' then some true else if c = '}' then some false else none := by
  induction gs generalizing n with
  | nil => rfl
  | cons g gs ih =>
    obtain ⟨c, _ | _⟩ := g
    · by_cases hopen : c = '{'
      · simp [ofGlyphs_cons, Glyph.is, Glyph.chars_cons, hopen, ih]
      · by_cases hclose : c = '}' <;>
          simp [ofGlyphs_cons, Glyph.is, Glyph.chars_cons, hopen, hclose, ih]
    · simp [ofGlyphs_cons, Glyph.is, ih]

/-! ## Blocks -/

theorem exists_text_of_mem {source : Text} {b : Brace} (h : b ∈ ofSource source) :
    ∃ pre post, source = pre ++ b.char :: post ∧ b.offset = Text.bytes pre := by
  obtain ⟨pre, g, post, hsplit, hoff, hg⟩ := mem_ofGlyphs_iff.mp h
  have hchar : g.char = b.char := by
    rcases hg with ⟨hg, hopen⟩ | ⟨hg, hopen⟩ <;>
      rw [(Glyph.is_iff.mp hg).2, char, hopen] <;> rfl
  refine ⟨Glyph.chars pre, Glyph.chars post, ?_, by rw [hoff, Nat.zero_add]⟩
  rw [← Text.chars_glyphs source, hsplit, Glyph.chars_append, Glyph.chars_cons, hchar]

/-- **A matched pair stands in the source**, from its opening through its closing brace. -/
theorem Matched.exists_text {source : Text} {s : Span} (h : Matched (ofSource source) s) :
    ∃ a m b, source = a ++ '{' :: (m ++ '}' :: b) ∧
      s = ⟨Text.bytes a, Text.bytes (a ++ '{' :: (m ++ ['}']))⟩ := by
  have hlen := h.start_lt_stop (ofGlyphs_sorted _ _)
  obtain ⟨a, post, hopen, ha⟩ := exists_text_of_mem h.open_mem
  obtain ⟨before, b, hclose, hbefore⟩ := exists_text_of_mem h.close_mem
  have ha : s.start = Text.bytes a := ha
  have hbefore : s.stop - 1 = Text.bytes before := hbefore
  have hopen : source = a ++ '{' :: post := hopen
  have hclose : source = before ++ '}' :: b := hclose
  have hsplit : (a ++ ['{']) ++ post = before ++ '}' :: b := by
    rw [← List.append_cons, ← hopen, hclose]
  have hopened : Text.bytes (a ++ ['{']) = Text.bytes a + 1 := Text.bytes_append _ _
  obtain ⟨m, rfl, rfl⟩ := Text.exists_between hsplit (by omega)
  refine ⟨a, m, b, hopen, ?_⟩
  have hbytes : Text.bytes (a ++ '{' :: (m ++ ['}'])) = Text.bytes (a ++ ['{'] ++ m) + 1 := by
    rw [List.append_cons, ← List.append_assoc, Text.bytes_append _ ['}']]
    rfl
  rw [hbytes, ← hbefore, Nat.sub_add_cancel (by omega), ← ha]

end Brace

namespace Block

/-- The text of a block is what stands between its braces. -/
theorem provisional_text (a m b : Text) :
    (provisional (a ++ '{' :: (m ++ '}' :: b))
      ⟨Text.bytes a, Text.bytes (a ++ '{' :: (m ++ ['}']))⟩).text = String.ofList m := by
  have hstart : Text.bytes (a ++ ['{']) = Text.bytes a + 1 := Text.bytes_append _ _
  have hstop : Text.bytes (a ++ '{' :: (m ++ ['}'])) - 1 =
      Text.bytes (a ++ ['{']) + Text.bytes m := by
    rw [List.append_cons, Text.bytes_append, Text.bytes_append m]
    rfl
  show String.ofList (Text.slice _ ⟨Text.bytes a + 1, _ - 1⟩) = _
  rw [hstop, ← hstart, List.append_cons, Text.slice_append]

end Block

namespace Extraction

/-- The blocks and braces of an extraction at other places. -/
def moved (move : Nat → Nat) (e : Extraction) : Extraction :=
  ⟨e.spans.map (Span.moved move), e.braces.map (Brace.moved move)⟩

/-- **Braces at other places make the same blocks**, or the same finding, at those places. -/
theorem ofSource_of_moved {source source' : Text} {move : Nat → Nat}
    (h : Brace.ofSource source' = (Brace.ofSource source).map (Brace.moved move)) :
    ofSource source' = ((ofSource source).map (moved move)).mapError (Finding.moved move) := by
  have hpair := Brace.pair_moved move (Brace.ofSource source) []
  rw [List.map_nil] at hpair
  rw [ofSource, ofSource, h, hpair]
  cases Brace.pair [] (Brace.ofSource source) <;> rfl

/-- What is outside of the literals is all that counts. -/
theorem ofSource_moved {source source' : Text} (h : source'.unquoted = source.unquoted) :
    ∃ move : Nat → Nat, Brace.ofSource source' = (Brace.ofSource source).map (Brace.moved move) ∧
      ofSource source' = ((ofSource source).map (moved move)).mapError (Finding.moved move) := by
  have hsorted : Brace.Sorted (Brace.ofSource source) := Brace.ofGlyphs_sorted _ _
  have hopen : (Brace.ofSource source').map (·.isOpen) =
      (Brace.ofSource source).map (·.isOpen) := by
    unfold Brace.ofSource
    rw [Brace.map_isOpen_ofGlyphs, Brace.map_isOpen_ofGlyphs]
    exact congrArg (List.filterMap _) h
  obtain ⟨move, hmove⟩ := Brace.exists_moved hsorted hopen
  exact ⟨move, hmove, ofSource_of_moved hmove⟩

/-- Matching gives the blocks of a balanced source, and there is a brace to blame in any other. -/
theorem ofSource_cases (source : Text) :
    ((∃ e, ofSource source = .ok e) ∧ Brace.Balanced (Brace.structural source)) ∨
    ((∃ c, Brace.FirstStray (Brace.structural source) c ∧
        ofSource source = .error ⟨.strayBrace, Brace.spanAt c⟩) ∨
      (∀ p, p <+: Brace.structural source → ¬ Brace.Overclosed p) ∧
        ∃ o, Brace.LastUnmatched (Brace.structural source) o ∧
          ofSource source = .error ⟨.unclosedBrace (Brace.opens (Brace.structural source) -
            Brace.closes (Brace.structural source)), Brace.spanAt o⟩) ∧
      ¬ Brace.Balanced (Brace.structural source) := by
  have hsorted : Brace.Sorted (Brace.ofSource source) := Brace.ofGlyphs_sorted _ _
  have hcases := @Brace.pair_cases (Brace.ofSource source) [] [] (.none .nil)
  rw [← Brace.ofSource_eq_structural]
  rw [List.nil_append] at hcases
  rcases hcases with ⟨spans, h⟩ | ⟨before, c, after, hbs, hbefore, h⟩ |
    ⟨before, o, inner, os, hbs, hbefore, hinner, h⟩
  · exact .inl ⟨⟨_, congrArg (Except.map _) h⟩, (Brace.matched_of_pair (.none .nil) h).1⟩
  · refine .inr ⟨.inl ⟨c, hbs ▸ hbefore.firstStray c after, congrArg (Except.map _) h⟩,
      fun hb => ?_⟩
    have hzero := hb.openAfter_eq 0
    rw [hbs, hbefore.openAfter_pass] at hzero
    exact absurd hzero (by simp)
  · have hopen := (hbefore.push o hinner).openAfter_eq
    rw [← hbs] at hopen
    have hcount := Brace.opens_add_of_openAfter hopen
    rw [List.length_cons] at hcount hopen
    refine .inr ⟨.inr ⟨fun p => Brace.not_overclosed_of_openAfter hopen, o,
      hbs ▸ hinner.lastUnmatched (hbs ▸ hsorted), ?_⟩, fun hb => ?_⟩
    · rw [show Brace.opens (Brace.ofSource source) - Brace.closes (Brace.ofSource source) =
        os.length + 1 by omega]
      exact congrArg (Except.map _) h
    · rw [hb.openAfter_eq] at hopen
      exact absurd hopen (by simp)

/-- **What becomes of a source is decided by its structural braces.** There are blocks exactly if
the braces are balanced: one for each matched pair, in the order in which the pairs close, from the
one brace through the other and with the text between them. Otherwise the finding is at the first
brace up to which more close than open, or at the last one without a partner if there is no such
brace. Sources with the same text outside of their literals have the same outcome up to the places
of the braces, and those in which the literals also take the same room have the very same. -/
theorem outcome_of_structural (source : Text) :
    ((∃ e, ofSource source = .ok e) ↔ Brace.Balanced (Brace.structural source)) ∧
    (∀ e, ofSource source = .ok e →
      e.braces = Brace.structural source ∧ Brace.Sorted e.braces ∧
      (∀ s, s ∈ e.spans ↔ Brace.Matched (Brace.structural source) s) ∧
      (e.spans.Pairwise fun a b => a.stop < b.stop) ∧
      (Forest.ofExtraction source e).tree.size = e.spans.length + 1 ∧
      ∀ (i : Nat) (s : Span), e.spans[i]? = some s → ∃ a m b,
        source = a ++ '{' :: (m ++ '}' :: b) ∧
        s = ⟨Text.bytes a, Text.bytes (a ++ '{' :: (m ++ ['}']))⟩ ∧
        ((Forest.ofExtraction source e).tree.get (i + 1)).span = s ∧
        ((Forest.ofExtraction source e).tree.get (i + 1)).text = String.ofList m) ∧
    (∀ f, ofSource source = .error f →
      f.problem.code = .unbalancedBraces ∧ f.span.stop = f.span.start + 1 ∧
      ((∃ c, Brace.FirstStray (Brace.structural source) c ∧
          f = ⟨.strayBrace, Brace.spanAt c⟩) ∨
        (∀ p, p <+: Brace.structural source → ¬ Brace.Overclosed p) ∧
          ∃ o, Brace.LastUnmatched (Brace.structural source) o ∧
            f = ⟨.unclosedBrace (Brace.opens (Brace.structural source) -
              Brace.closes (Brace.structural source)), Brace.spanAt o⟩)) ∧
    (∀ source', source'.unquoted = source.unquoted → ∃ move : Nat → Nat,
      Brace.structural source' = (Brace.structural source).map (Brace.moved move) ∧
      ofSource source' = ((ofSource source).map (moved move)).mapError (Finding.moved move)) ∧
    ∀ source', source'.mask = source.mask → ofSource source' = ofSource source := by
  refine ⟨⟨fun ⟨e, he⟩ => ?_, fun hb => ?_⟩, fun e he => ?_, fun f hf => ?_, fun source' h => ?_,
    fun source' h => ?_⟩
  · rw [← Brace.ofSource_eq_structural, ← braces_of_ofSource he]
    exact (exact_of_ofSource he).balanced
  · exact ((ofSource_cases source).resolve_right fun h => h.2 hb).1
  · have hexact := exact_of_ofSource he
    have hbraces := braces_of_ofSource he
    have hmatched : ∀ s, s ∈ e.spans ↔ Brace.Matched (Brace.ofSource source) s := fun s => by
      rw [hexact.mem_spans_iff, hbraces]
    rw [← Brace.ofSource_eq_structural]
    refine ⟨hbraces, hexact.sorted, hmatched, hexact.stops, Forest.size_ofExtraction source e,
      fun i s hi => ?_⟩
    obtain ⟨a, m, b, rfl, rfl⟩ := ((hmatched s).mp (List.mem_of_getElem? hi)).exists_text
    refine ⟨a, m, b, rfl, rfl, ?_⟩
    rw [Forest.get_ofExtraction_succ _ hi]
    exact ⟨rfl, Block.provisional_text a m b⟩
  · rcases ofSource_cases source with ⟨⟨e, he⟩, -⟩ | ⟨⟨c, hc, h⟩ | ⟨hnone, o, ho, h⟩, -⟩
    · rw [he] at hf
      exact absurd hf (by simp)
    · obtain rfl := Except.error.inj (h.symm.trans hf)
      exact ⟨rfl, rfl, .inl ⟨c, hc, rfl⟩⟩
    · obtain rfl := Except.error.inj (h.symm.trans hf)
      exact ⟨rfl, rfl, .inr ⟨hnone, o, ho, rfl⟩⟩
  · rw [← Brace.ofSource_eq_structural, ← Brace.ofSource_eq_structural]
    exact ofSource_moved h
  · unfold ofSource
    rw [Brace.ofSource_eq_structural, Brace.ofSource_eq_structural, Brace.structural, h]
    rfl

end Extraction
end BraceTree
