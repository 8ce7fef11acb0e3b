import BraceTree.Proofs.Statement.Legible
import BraceTree.Proofs.Statement.Visible
import BraceTree.Proofs.Text.Located

/-!
# Where statements stand in the source

The pieces of a segment are found by carrying a position along and adding the size of each character
that is passed, and a statement starts behind the blanks of its piece. That these positions are
right is a fact about texts alone: a piece is a part of the segment, that many bytes behind its
start (`Piece.exists_text_of_mem_cut`). So each is cut out of the source if the segment is, and a
segment is, since it starts and ends at a border. Some segments are turned around, where a header
reaches back over the child before it. They hold nothing, and nothing is cut out for them.

Variables and calls remember the span of the statement that made them.
-/

namespace BraceTree

open Text (Cuts Marks Border)

variable {source t : Text} {s : Span} {p : Piece} {v : Visit} {block : BlockId}

namespace Piece

/-- **A piece is a part of the glyphs that it is cut out of**, and starts where it stands there. -/
theorem exists_text_of_mem_cut : ∀ {gs : List Glyph} {start depth : Nat} {p : Piece},
    p ∈ cut start depth gs →
      ∃ pre post, Glyph.chars gs = pre ++ (p.text ++ post) ∧ p.start = start + Text.bytes pre
  | [], start, _, p, hp => by
    rw [List.mem_singleton.mp hp]
    exact ⟨[], [], rfl, rfl⟩
  | g :: gs, start, depth, p, hp => by
    have hcons : ∀ {q : Piece} {depth' : Nat}, q ∈ cut (start + g.char.utf8Size) depth' gs →
        ∃ pre post, Glyph.chars (g :: gs) = g.char :: pre ++ (q.text ++ post) ∧
          q.start = start + Text.bytes (g.char :: pre) := fun hq => by
      obtain ⟨pre, post, hchars, hstart⟩ := exists_text_of_mem_cut hq
      refine ⟨pre, post, by rw [Glyph.chars_cons, hchars]; rfl, ?_⟩
      rw [hstart, Text.bytes_cons, Nat.add_assoc]
    rw [cut_cons] at hp
    split at hp
    · rcases List.mem_cons.mp hp with rfl | hp
      · exact ⟨[], _, rfl, rfl⟩
      · obtain ⟨pre, post, h⟩ := hcons hp
        exact ⟨_, post, h⟩
    · obtain ⟨text, rest, heq⟩ := exists_cut_eq_cons (start + g.char.utf8Size) (g.nest depth) gs
      rw [heq, List.modifyHead_cons] at hp
      rcases List.mem_cons.mp hp with rfl | hp
      · -- the first piece starts with the glyph
        obtain ⟨pre, post, hchars, hstart⟩ := hcons (heq ▸ List.mem_cons_self)
        have hpre : pre = [] := Text.bytes_eq_zero_iff.mp (by
          rw [Text.bytes_cons] at hstart
          dsimp only at hstart
          omega)
        subst hpre
        exact ⟨[], post, hchars, rfl⟩
      · obtain ⟨pre, post, h⟩ := hcons (heq ▸ List.mem_cons_of_mem _ hp)
        exact ⟨_, post, h⟩

/-- **The pieces of what is cut out are cut out.** -/
theorem cuts_of_mem_cut (h : Cuts source s t) {depth : Nat} (hp : p ∈ cut s.start depth t.glyphs) :
    Cuts source ⟨p.start, p.stop⟩ p.text := by
  obtain ⟨pre, post, hchars, hstart⟩ := exists_text_of_mem_cut hp
  rw [Text.chars_glyphs] at hchars
  subst hchars
  rw [stop, hstart]
  exact h.part

/-- The statement in a piece is cut out, and is not empty. -/
theorem cuts_of_visit? (h : Cuts source ⟨p.start, p.stop⟩ p.text) (hv : p.visit? block = some v) :
    Cuts source v.span v.text ∧ v.text ≠ [] ∧ v.text = Text.trim p.text := by
  cases hblank : Text.isBlankText p.text with
  | true =>
    rw [visit?_of_blank block hblank] at hv
    cases hv
  | false =>
    rw [visit?_of_not_blank block hblank] at hv
    obtain rfl := Option.some.inj hv
    refine ⟨?_, fun hnil => ?_, rfl⟩
    · obtain ⟨post, -, hsplit⟩ := Text.eq_append_trim p.text
      rw [hsplit] at h
      exact h.part
    · rw [Text.trim_eq_nil_iff.mp hnil] at hblank
      cases hblank

end Piece

namespace Segment

variable {g : Segment}

/-- The pieces that a segment is cut into. -/
def pieces (source : Text) (g : Segment) : List Piece :=
  Piece.cut g.span.start 0 (Text.slice source g.span).glyphs

/-- **The parts of a source that are cut out for a segment**: none if it is empty or turned around,
and otherwise the segment and its pieces. -/
def slices (source : Text) (g : Segment) : List Span :=
  if g.span.isEmpty then [] else g.span :: (g.pieces source).map fun p => ⟨p.start, p.stop⟩

/-- What is read of a segment is cut out from its start on. -/
theorem exists_cuts (hlo : Border source g.span.start) (hhi : Border source g.span.stop) :
    ∃ stop, Cuts source ⟨g.span.start, stop⟩ (Text.slice source g.span) ∧
      (g.span.isEmpty = false → stop = g.span.stop) := by
  by_cases hle : g.span.start ≤ g.span.stop
  · exact ⟨_, Text.cuts_of_border hlo hhi hle, fun _ => rfl⟩
  · have hempty := Nat.le_of_not_le hle
    rw [Text.slice_of_stop_le source hempty]
    exact ⟨_, Text.cuts_nil hlo, fun hnot => absurd (decide_eq_true hempty) (by
      rw [Span.isEmpty] at hnot
      rw [hnot]
      exact Bool.false_ne_true)⟩

/-- **Nothing but parts of the source is cut out for a segment.** -/
theorem cuts_of_mem_slices (hlo : Border source g.span.start) (hhi : Border source g.span.stop)
    (hs : s ∈ slices source g) : Cuts source s (Text.slice source s) := by
  obtain ⟨stop, hcuts, hstop⟩ := exists_cuts hlo hhi
  rw [slices] at hs
  split at hs
  · cases hs
  · next hnot =>
    rw [hstop (Bool.eq_false_iff.mpr hnot)] at hcuts
    rcases List.mem_cons.mp hs with rfl | hs
    · exact hcuts
    · obtain ⟨p, hp, rfl⟩ := List.mem_map.mp hs
      have hpiece := Piece.cuts_of_mem_cut hcuts hp
      rw [hpiece.slice_eq]
      exact hpiece

/-- **Statements are cut out**, each in one line and not empty. -/
theorem cuts_of_mem_visits (hlo : Border source g.span.start) (hhi : Border source g.span.stop)
    (hv : v ∈ visits source g) : Cuts source v.span v.text ∧ v.text ≠ [] ∧ '\n' ∉ v.text := by
  obtain ⟨stop, hcuts, -⟩ := exists_cuts hlo hhi
  obtain ⟨p, hp, hvisit⟩ := List.mem_filterMap.mp hv
  obtain ⟨hspan, hne, htrim⟩ := Piece.cuts_of_visit? (Piece.cuts_of_mem_cut hcuts hp) hvisit
  have hline := Piece.newline_not_mem_of_mem_cut
    (fun g hg hchar => Text.unquoted_of_newline hchar hg) hp
  refine ⟨hspan, hne, fun hmem => hline (Text.mem_of_mem_trim ?_)⟩
  rwa [← htrim]

end Segment

namespace Visit

/-- **A statement says what stands in its place.** -/
theorem cuts_of_mem_all {t : BlockTree} (h : t.Headed source) (hv : v ∈ all t source) :
    Cuts source v.span v.text ∧ v.text ≠ [] ∧ '\n' ∉ v.text := by
  rw [Segment.all_eq_flatMap] at hv
  obtain ⟨g, hg, hv⟩ := List.mem_flatMap.mp hv
  obtain ⟨hstart, hstop⟩ := Segment.bounds_of_mem_all h hg
  exact Segment.cuts_of_mem_visits hstart.border hstop hv

/-- Statements are marked by their spans. -/
theorem marks_of_mem_all {t : BlockTree} (h : t.Headed source) (hv : v ∈ all t source) :
    Marks source v.span :=
  ⟨v.text, cuts_of_mem_all h hv⟩

end Visit

/-! ## Calls remember where they stand -/

variable {lines : List Line} {t t' : BlockTree} {i : Nat} {c : CallSite}

theorem Statement.called_of_apply {s : Statement} (ht : t.WellTyped)
    (h : s.apply lines t v.block v.span = .ok t') (hc : c ∈ (t'.get i).calls) :
    c ∈ (t.get i).calls ∨ s = .call c.call ∧ c.span = v.span := by
  cases s with
  | declaration isMutable name typeText init =>
    obtain ⟨type, b, -, hdeclare⟩ := declareVariable_eq_ok h
    obtain ⟨s, -, rfl⟩ := Option.map_eq_some_iff.mp hdeclare
    rw [BlockTree.get_modify] at hc
    split at hc <;> exact .inl hc
  | update name op operand =>
    obtain ⟨owner, x, b, s, -, -, -, -, -, halters⟩ := updateVariable_eq_ok ht h
    by_cases hi : i = owner
    · rw [hi, halters.here] at hc
      exact .inl (hi ▸ hc)
    · rw [halters.elsewhere i hi] at hc
      exact .inl hc
  | call call =>
    obtain rfl := Except.ok.inj h
    rw [BlockTree.addCall, BlockTree.get_modify] at hc
    split at hc
    · rcases List.mem_append.mp hc with hc | hc
      · exact .inl hc
      · obtain rfl := List.mem_singleton.mp hc
        exact .inr ⟨rfl, rfl⟩
    · exact .inl hc

/-- **A call was there before a run, or one of its statements made it.** -/
theorem Visit.called_of_run (lines : List Line) (visits : List Visit) (ht : t.WellTyped) :
    ∀ c ∈ ((run lines t visits).1.get i).calls,
      c ∈ (t.get i).calls ∨
        ∃ v ∈ visits, Statement.read? v.text = some (.call c.call) ∧ c.span = v.span := by
  refine (run_induction lines (P := fun t' => t'.WellTyped ∧ ∀ c ∈ (t'.get i).calls,
    c ∈ (t.get i).calls ∨ ∃ v ∈ visits, Statement.read? v.text = some (.call c.call) ∧
      c.span = v.span) ⟨ht, fun c hc => .inl hc⟩ ?_).2
  intro v hv s t₁ t₂ hread ⟨ht₁, hcalled⟩ happly
  refine ⟨(Statement.wellTyped_and_keeps_of_apply ht₁ happly).1, fun c hc => ?_⟩
  rcases Statement.called_of_apply ht₁ happly hc with hc | ⟨rfl, hspan⟩
  · exact hcalled c hc
  · exact .inr ⟨v, hv, hread, hspan⟩

namespace Program

variable {sourceId : Nat} {p : Program}

/-- **A call of a program is a statement of the source**, which stands where the call says. -/
theorem cuts_of_mem_calls (hp : ofText source sourceId = .ok p) {id : Nat}
    (hc : c ∈ (p.tree.get id).calls) :
    ∃ t, Cuts source c.span t ∧ t ≠ [] ∧ '\n' ∉ t ∧ Statement.read? t = some (.call c.call) := by
  obtain ⟨f, hf, htree⟩ := ofText_eq_ok hp
  rw [htree] at hc
  rcases Visit.called_of_run _ _ (wellTyped_classified hf) c hc with hc | ⟨v, hv, hread, hspan⟩
  · rw [(scope_and_calls_classified hf id).2] at hc
    cases hc
  · obtain ⟨hcuts, hne, hline⟩ := Visit.cuts_of_mem_all (headed_classified hf).1 hv
    exact ⟨v.text, hspan ▸ hcuts, hne, hline, hread⟩

/-- **Variables and calls are marked by their spans.** -/
theorem marks_tree (hp : ofText source sourceId = .ok p) (id : Nat) :
    (∀ w ∈ (p.tree.get id).scope.toList, Marks source w.span) ∧
      ∀ c ∈ (p.tree.get id).calls, Marks source c.span := by
  refine ⟨fun w hw => ?_, fun c hc => ?_⟩
  · obtain ⟨f, hf, htree⟩ := ofText_eq_ok hp
    rw [htree] at hw
    obtain ⟨k, hk⟩ := BlockTree.mem_scope_toList.mp hw
    rcases Visit.declared_of_run _ _ (wellTyped_classified hf) id k w hk with
      ⟨x, hx, -⟩ | ⟨v, hv, hspan⟩
    · rw [scope_classified hf id] at hx
      cases k <;> cases hx
    · exact hspan ▸ Visit.marks_of_mem_all (headed_classified hf).1 hv
  · obtain ⟨t, hcuts, hne, hline, -⟩ := cuts_of_mem_calls hp hc
    exact ⟨t, hcuts, hne, hline⟩

end Program
end BraceTree
