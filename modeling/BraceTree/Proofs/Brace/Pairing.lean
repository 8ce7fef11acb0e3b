import BraceTree.Proofs.Brace.Matching

/-!
# The blocks of a source are its matched pairs

Matching braces with a stack of open ones finds the pairs that `Matched` describes. The invariant
ties the stack to the braces read so far: between two braces that wait, and behind the last one, the
list is balanced (`Waiting`). So when a brace closes, all between it and the top of the stack have
their partners. That no pair is missed follows by counting, since every closing brace makes a span.
-/

namespace BraceTree

namespace Brace

/-! ## Braces among glyphs -/

theorem ofGlyphs_cons (n : Nat) (g : Glyph) (gs : List Glyph) :
    ofGlyphs n (g :: gs) =
      if g.is '{' then ⟨n, true⟩ :: ofGlyphs (n + g.char.utf8Size) gs
      else if g.is '}' then ⟨n, false⟩ :: ofGlyphs (n + g.char.utf8Size) gs
      else ofGlyphs (n + g.char.utf8Size) gs := rfl

/-- The braces among some glyphs are the structural ones, each at its place. -/
theorem mem_ofGlyphs_iff {b : Brace} {n : Nat} {gs : List Glyph} :
    b ∈ ofGlyphs n gs ↔ ∃ pre g post, gs = pre ++ g :: post ∧
      b.offset = n + Text.bytes (Glyph.chars pre) ∧
      ((g.is '{' = true ∧ b.isOpen = true) ∨ (g.is '}' = true ∧ b.isOpen = false)) := by
  induction gs generalizing n with
  | nil => simp [ofGlyphs]
  | cons g gs ih =>
    have hsplit : (∃ pre g' post, g :: gs = pre ++ g' :: post ∧
          b.offset = n + Text.bytes (Glyph.chars pre) ∧
          ((g'.is '{' = true ∧ b.isOpen = true) ∨ (g'.is '}' = true ∧ b.isOpen = false))) ↔
        (b.offset = n ∧ ((g.is '{' = true ∧ b.isOpen = true) ∨
          (g.is '}' = true ∧ b.isOpen = false))) ∨ b ∈ ofGlyphs (n + g.char.utf8Size) gs := by
      rw [ih]
      constructor
      · rintro ⟨pre, g', post, he, hoff, hg⟩
        cases pre with
        | nil =>
          obtain ⟨rfl, rfl⟩ := List.cons.inj he
          exact .inl ⟨by simpa [Glyph.chars] using hoff, hg⟩
        | cons x pre =>
          obtain ⟨rfl, rfl⟩ := List.cons.inj he
          exact .inr ⟨pre, g', post, rfl, by simpa [Glyph.chars, Nat.add_assoc] using hoff, hg⟩
      · rintro (⟨hoff, hg⟩ | ⟨pre, g', post, rfl, hoff, hg⟩)
        · exact ⟨[], g, gs, rfl, by simpa [Glyph.chars] using hoff, hg⟩
        · exact ⟨g :: pre, g', post, rfl, by simpa [Glyph.chars, Nat.add_assoc] using hoff, hg⟩
    rw [hsplit]
    obtain ⟨o, isOpen⟩ := b
    have hne : ¬ (g.is '{' = true ∧ g.is '}' = true) := by
      rintro ⟨h₁, h₂⟩
      simp only [Glyph.is, Bool.and_eq_true, beq_iff_eq] at h₁ h₂
      exact absurd (h₁.2.symm.trans h₂.2) (by decide)
    rw [ofGlyphs_cons]
    split
    · rename_i hopen
      have : ¬ g.is '}' = true := fun h => hne ⟨hopen, h⟩
      simp [hopen, this]
    · split
      · rename_i hopen hclose
        simp [hopen, hclose]
      · rename_i hopen hclose
        simp [hopen, hclose]

theorem le_offset_of_mem_ofGlyphs {b : Brace} {n : Nat} {gs : List Glyph} (h : b ∈ ofGlyphs n gs) :
    n ≤ b.offset := by
  obtain ⟨pre, g, post, -, hoff, -⟩ := mem_ofGlyphs_iff.mp h
  omega

/-- Braces are found in the order of the source. -/
theorem ofGlyphs_sorted (n : Nat) (gs : List Glyph) : Sorted (ofGlyphs n gs) := by
  induction gs generalizing n with
  | nil => exact .nil
  | cons g gs ih =>
    have hpos := g.char.utf8Size_pos
    have hhead : ∀ b ∈ ofGlyphs (n + g.char.utf8Size) gs, n < b.offset := fun b hb => by
      have := le_offset_of_mem_ofGlyphs hb
      omega
    rw [ofGlyphs_cons]
    split
    · exact .cons hhead (ih _)
    · split
      · exact .cons hhead (ih _)
      · exact ih _

/-! ## The stack -/

@[simp] theorem pair_open (w : List Nat) (p : Nat) (bs : List Brace) :
    pair w (⟨p, true⟩ :: bs) = pair (p :: w) bs := by
  cases w <;> rfl

/-- **The invariant of matching**: what the braces read so far and those that still wait for their
partners, the last one first, have to do with each other. -/
inductive Waiting : List Brace → List Nat → Prop where
  /-- No brace waits. -/
  | none {pre : List Brace} (h : Balanced pre) : Waiting pre []
  /-- All behind the last brace that waits has its partners. -/
  | push {pre inner : List Brace} {w : List Nat} (o : Nat) (hpre : Waiting pre w)
    (hinner : Balanced inner) : Waiting (pre ++ ⟨o, true⟩ :: inner) (o :: w)

theorem Waiting.append {pre inner : List Brace} {w : List Nat} (h : Waiting pre w)
    (hinner : Balanced inner) : Waiting (pre ++ inner) w := by
  cases h with
  | none h => exact .none (h.append hinner)
  | push o hpre hlast =>
    rw [List.append_assoc, List.cons_append]
    exact .push o hpre (hlast.append hinner)

/-- **Matching is sound**: when it succeeds the list is balanced, and every span that it finds is a
matched pair. -/
theorem matched_of_pair {bs : List Brace} :
    ∀ {pre : List Brace} {w : List Nat} {spans : List Span}, Waiting pre w →
      pair w bs = .ok spans → Balanced (pre ++ bs) ∧ ∀ s ∈ spans, Matched (pre ++ bs) s := by
  induction bs with
  | nil =>
    intro pre w spans hw h
    cases hw with
    | none hpre =>
      obtain rfl : [] = spans := by simpa [pair] using h
      exact ⟨by simpa using hpre, by simp⟩
    | push o hpre hinner => simp [pair] at h
  | cons b bs ih =>
    intro pre w spans hw h
    obtain ⟨p, _ | _⟩ := b
    · cases hw with
      | none hpre => simp [pair] at h
      | @push pre inner w o hpre hinner =>
        -- the brace closes the last one that waits, and what is left of the stack is as before
        have hassoc : pre ++ ⟨o, true⟩ :: inner ++ ⟨p, false⟩ :: bs
            = pre ++ ⟨o, true⟩ :: (inner ++ [⟨p, false⟩]) ++ bs := by simp
        have hpair : (pair w bs).map (⟨o, p + 1⟩ :: ·) = .ok spans := h
        cases hrest : pair w bs with
        | error f => simp [hrest, Except.map] at hpair
        | ok rest =>
          obtain rfl : ⟨o, p + 1⟩ :: rest = spans := by
            simpa [hrest, Except.map] using hpair
          obtain ⟨hbal, hall⟩ := ih (hpre.append (hinner.enclose o p)) hrest
          rw [hassoc]
          refine ⟨hbal, fun s hs => ?_⟩
          rcases List.mem_cons.mp hs with rfl | hs
          · exact ⟨pre, inner, bs, p, rfl, by simp, hinner⟩
          · exact hall s hs
    · rw [pair_open] at h
      simpa using ih (hw.push p .nil) h

/-- Every closing brace makes a span. -/
theorem map_stop_of_pair {bs : List Brace} : ∀ {w : List Nat} {spans : List Span},
    pair w bs = .ok spans →
      spans.map (·.stop) = (bs.filter fun b => !b.isOpen).map fun b => b.offset + 1 := by
  induction bs with
  | nil =>
    intro w spans h
    cases w with
    | nil =>
      obtain rfl : [] = spans := by simpa [pair] using h
      rfl
    | cons o os => simp [pair] at h
  | cons b bs ih =>
    intro w spans h
    obtain ⟨p, _ | _⟩ := b
    · cases w with
      | nil => simp [pair] at h
      | cons o os =>
        have hpair : (pair os bs).map (⟨o, p + 1⟩ :: ·) = .ok spans := h
        cases hrest : pair os bs with
        | error f => simp [hrest, Except.map] at hpair
        | ok rest =>
          obtain rfl : ⟨o, p + 1⟩ :: rest = spans := by
            simpa [hrest, Except.map] using hpair
          simpa using ih hrest
    · rw [pair_open] at h
      exact ih h

end Brace

namespace Extraction

/-- **The spans of an extraction are the matched pairs of its braces**, in the order in which they
close. -/
structure Exact (e : Extraction) : Prop where
  /-- Every brace has its partner. -/
  balanced : Brace.Balanced e.braces
  /-- The braces stand in the order of the source. -/
  sorted : Brace.Sorted e.braces
  /-- The spans are the matched pairs. -/
  mem_spans_iff : ∀ {s : Span}, s ∈ e.spans ↔ Brace.Matched e.braces s
  /-- Pairs are listed as they close. -/
  stops : e.spans.Pairwise fun a b => a.stop < b.stop

theorem Exact.nodup {e : Extraction} (h : e.Exact) : e.spans.Nodup :=
  h.stops.imp fun hlt he => by
    subst he
    exact Nat.lt_irrefl _ hlt

theorem braces_of_ofSource {source : Text} {e : Extraction} (h : ofSource source = .ok e) :
    e.braces = Brace.ofSource source := by
  unfold ofSource at h
  cases hp : Brace.pair [] (Brace.ofSource source) with
  | error f => simp [hp, Except.map] at h
  | ok spans =>
    obtain rfl : ⟨spans, Brace.ofSource source⟩ = e := by simpa [hp, Except.map] using h
    rfl

theorem pair_of_ofSource {source : Text} {e : Extraction} (h : ofSource source = .ok e) :
    Brace.pair [] (Brace.ofSource source) = .ok e.spans := by
  rw [ofSource] at h
  cases hpair : Brace.pair [] (Brace.ofSource source) with
  | error f =>
    rw [hpair] at h
    cases h
  | ok spans =>
    rw [hpair] at h
    obtain rfl := Except.ok.inj h
    rfl

/-- **What is extracted from a source is exact.** -/
theorem exact_of_ofSource {source : Text} {e : Extraction} (h : ofSource source = .ok e) :
    e.Exact := by
  have hbraces := braces_of_ofSource h
  have hsorted : Brace.Sorted e.braces := hbraces ▸ Brace.ofGlyphs_sorted _ _
  have hpair : Brace.pair [] e.braces = .ok e.spans := by
    rw [hbraces]
    exact pair_of_ofSource h
  obtain ⟨hbal, hsound⟩ := Brace.matched_of_pair (.none .nil) hpair
  have hstops := Brace.map_stop_of_pair hpair
  refine ⟨hbal, hsorted, fun {s} => ⟨fun hs => hsound s hs, fun hs => ?_⟩, ?_⟩
  · -- the closing brace of a matched pair makes a span, which can only be that pair
    have hstop : s.stop ∈ e.spans.map (·.stop) := by
      obtain ⟨pre, inner, post, c, hc, hbs, -⟩ := hs
      rw [hstops, hc]
      refine List.mem_map.mpr ⟨⟨c, false⟩, ?_, rfl⟩
      rw [List.mem_filter, hbs]
      simp
    obtain ⟨q, hq, hqs⟩ := List.mem_map.mp hstop
    rw [← (hsound q hq).eq_of_stop_eq hsorted hs hqs]
    exact hq
  · have hclose : ((e.braces.filter fun b => !b.isOpen).map fun b => b.offset + 1).Pairwise
        (· < ·) := by
      rw [List.pairwise_map]
      exact (hsorted.filter _).imp fun hlt => by omega
    rw [← hstops, List.pairwise_map] at hclose
    exact hclose

end Extraction
end BraceTree
