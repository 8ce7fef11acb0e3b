import BraceTree.Proofs.Brace.Appended

/-!
# The tree when braces are moved

Which braces belong together hangs on their order and not on their places. So if a source has the
braces of another one at other places, it has the same blocks in the same order, from the place of
the one brace through that of the other (`Extraction.ofSource_of_moved`), and every block hangs
where it hung (`BlockTree.Moved.parent_eq`). Nothing is asked of the way in which the places
change: both lists are in the order of their sources, so the order of any two braces is kept.
-/

namespace BraceTree

namespace Brace

variable {bs : List Brace} {move : Nat → Nat} {s q : Span}

/-- Counting open braces does not look at places. -/
theorem openAfter_moved (move : Nat → Nat) (bs : List Brace) : ∀ n : Nat,
    openAfter n (bs.map (moved move)) = openAfter n bs := by
  induction bs with
  | nil => exact fun _ => rfl
  | cons b bs ih =>
    intro n
    obtain ⟨o, _ | _⟩ := b
    · cases n with
      | zero => rfl
      | succ n => exact ih n
    · exact ih (n + 1)

theorem balanced_moved_iff : Balanced (bs.map (moved move)) ↔ Balanced bs := by
  constructor
  · intro h
    exact balanced_of_openAfter ((openAfter_moved move bs 0).symm.trans (h.openAfter_eq 0))
  · intro h
    exact balanced_of_openAfter ((openAfter_moved move bs 0).trans (h.openAfter_eq 0))

/-- **The pairs of moved braces are the moved pairs.** -/
theorem matched_moved_iff :
    Matched (bs.map (moved move)) q ↔ ∃ s, Matched bs s ∧ s.moved move = q := by
  constructor
  · rintro ⟨pre', inner', post', c', hc', hbs, hinner⟩
    obtain ⟨pre, rest, rfl, rfl, hrest⟩ := List.map_eq_append_iff.mp hbs
    obtain ⟨⟨o, isOpen⟩, rest, rfl, ho, hrest⟩ := List.map_eq_cons_iff.mp hrest
    obtain ⟨inner, post, rfl, rfl, hpost⟩ := List.map_eq_append_iff.mp hrest
    obtain ⟨⟨c, isOpen'⟩, post, rfl, hc, rfl⟩ := List.map_eq_cons_iff.mp hpost
    simp only [moved, Brace.mk.injEq] at ho hc
    obtain ⟨ho, rfl⟩ := ho
    obtain ⟨rfl, rfl⟩ := hc
    refine ⟨⟨o, c + 1⟩, ⟨pre, inner, post, c, rfl, rfl, balanced_moved_iff.mp hinner⟩, ?_⟩
    cases q
    simp_all [Span.moved]
  · rintro ⟨s, ⟨pre, inner, post, c, hc, rfl, hinner⟩, rfl⟩
    refine ⟨pre.map (moved move), inner.map (moved move), post.map (moved move), move c, ?_, ?_,
      balanced_moved_iff.mpr hinner⟩
    · rw [Span.moved, hc, Nat.add_sub_cancel]
    · simp [moved, Span.moved]

/-- **Two braces stay in their order**, since the lists of both sources are in order. -/
theorem Sorted.move_lt_iff (hs : Sorted bs) (hs' : Sorted (bs.map (moved move))) {x y : Brace}
    (hx : x ∈ bs) (hy : y ∈ bs) : move x.offset < move y.offset ↔ x.offset < y.offset := by
  have hmono : ∀ x ∈ bs, ∀ y ∈ bs, x.offset < y.offset → move x.offset < move y.offset := by
    intro x hx y hy hlt
    obtain ⟨pre, post, rfl⟩ := List.append_of_mem hx
    rcases List.mem_append.mp hy with hy | hy
    · exact absurd hlt (Nat.lt_asymm (hs.lt_of_mem_left hy))
    · rcases List.mem_cons.mp hy with rfl | hy
      · exact absurd hlt (Nat.lt_irrefl _)
      · rw [List.map_append, List.map_cons] at hs'
        exact hs'.lt_of_mem_right (List.mem_map_of_mem hy)
  refine ⟨fun hlt => ?_, hmono x hx y hy⟩
  rcases Nat.lt_trichotomy x.offset y.offset with h | h | h
  · exact h
  · rw [h] at hlt
    exact absurd hlt (Nat.lt_irrefl _)
  · exact absurd hlt (Nat.lt_asymm (hmono y hy x hx h))

/-- A pair is inside another one if it was. -/
theorem Matched.encloses_moved_iff (hs : Sorted bs) (hs' : Sorted (bs.map (moved move)))
    (hq : Matched bs q) (h : Matched bs s) :
    (q.moved move).encloses (s.moved move) = true ↔ q.encloses s = true := by
  have hstart := hs.move_lt_iff hs' hq.open_mem h.open_mem
  have hstop := hs.move_lt_iff hs' h.close_mem hq.close_mem
  have hq' : Matched (bs.map (moved move)) (q.moved move) := matched_moved_iff.mpr ⟨q, hq, rfl⟩
  rw [hq.encloses_iff hs h, hq'.encloses_iff hs' (matched_moved_iff.mpr ⟨s, h, rfl⟩)]
  have hqlong := hq.start_lt_stop hs
  have hlong := h.start_lt_stop hs
  simp only [Span.moved] at hstart hstop ⊢
  omega

/-- **The innermost pair around a pair stays the innermost.** -/
theorem Encloser.moved (hs : Sorted bs) (hs' : Sorted (bs.map (moved move))) (h : Matched bs s)
    {p : Option Span} (he : Encloser bs s p) :
    Encloser (bs.map (moved move)) (s.moved move) (p.map (Span.moved move)) := by
  cases p with
  | none =>
    intro q' hmoved henc
    obtain ⟨q, hq, rfl⟩ := matched_moved_iff.mp hmoved
    exact he q hq ((hq.encloses_moved_iff hs hs' h).mp henc)
  | some p =>
    obtain ⟨hp, hps, hleast⟩ := he
    refine ⟨matched_moved_iff.mpr ⟨p, hp, rfl⟩, (hp.encloses_moved_iff hs hs' h).mpr hps, ?_⟩
    intro q' hmoved henc
    obtain ⟨q, hq, rfl⟩ := matched_moved_iff.mp hmoved
    rcases hleast q hq ((hq.encloses_moved_iff hs hs' h).mp henc) with rfl | hqp
    · exact .inl rfl
    · exact .inr ((hq.encloses_moved_iff hs hs' hp).mpr hqp)

end Brace

namespace BlockTree

/-- **The trees of two sources with the same braces at other places.** -/
structure Moved (source source' : Text) (move : Nat → Nat) (t t' : BlockTree) : Prop where
  /-- The first tree is that of the first source. -/
  bracketed : t.Bracketed source
  /-- The second tree is that of the other one. -/
  bracketed' : t'.Bracketed source'
  /-- The braces of the second source are those of the first one, moved. -/
  braces_eq : Brace.ofSource source' = (Brace.ofSource source).map (Brace.moved move)
  /-- There are as many blocks. -/
  size_eq : t'.size = t.size
  /-- They have the same braces. -/
  span_eq : ∀ {c : Nat}, c ≠ root → c < t.size → (t'.get c).span = (t.get c).span.moved move

namespace Moved

variable {source source' : Text} {move : Nat → Nat} {t t' : BlockTree}
  (h : Moved source source' move t t') {c : Nat}

include h

/-- **Blocks hang where they hung.** -/
theorem parent_eq (hr : c ≠ root) (hc : c < t.size) : (t'.get c).parent = (t.get c).parent := by
  have hsorted : Brace.Sorted (Brace.ofSource source) := Brace.ofGlyphs_sorted _ _
  have hsorted' : Brace.Sorted ((Brace.ofSource source).map (Brace.moved move)) := by
    rw [← h.braces_eq]
    exact Brace.ofGlyphs_sorted _ _
  have hc' : c < t'.size := h.size_eq ▸ hc
  obtain ⟨p, hp, hpar⟩ := h.bracketed.exists_parent hr hc
  obtain ⟨q, hq, hqar⟩ := h.bracketed'.exists_parent hr hc'
  have henc := (h.bracketed.encloser hc hpar).moved hsorted hsorted'
    (h.bracketed.matched_iff.mpr ⟨c, hr, hc, rfl⟩)
  rw [← h.braces_eq, ← h.span_eq hr hc] at henc
  -- there is one innermost pair, and a pair is the span of one block
  have hsame := henc.unique (h.bracketed'.encloser hc' hqar)
  rw [hpar, hqar, Option.some.injEq]
  by_cases hpr : p = root <;> by_cases hqr : q = root
  · rw [hpr, hqr]
  · rw [if_pos hpr, if_neg hqr] at hsame
    cases hsame
  · rw [if_neg hpr, if_pos hqr] at hsame
    cases hsame
  · rw [if_neg hpr, if_neg hqr, Option.map_some, Option.some.injEq, ← h.span_eq hpr hp] at hsame
    exact (h.bracketed'.span_inj hpr (h.size_eq ▸ hp) hqr hq hsame).symm

/-- A body starts behind the same brace. -/
theorem body_start_eq (hr : c ≠ root) (hc : c < t.size) :
    (t'.get c).body.start = move (t.get c).span.start + 1 := by
  rw [(h.bracketed'.body_eq hr (h.size_eq ▸ hc)).2, h.span_eq hr hc]
  rfl

end Moved
end BlockTree

namespace Forest.Sound

variable {source source' : Text} {e : Extraction} {f f' : Forest} {move : Nat → Nat}

/-- **The blocks of an extraction are placed as those of the moved one.** -/
theorem moved_finish (he : Extraction.ofSource source = .ok e)
    (he' : Extraction.ofSource source' = .ok (e.moved move)) (h : f.Sound source e)
    (hdone : f.unplaced = []) (h' : f'.Sound source' (e.moved move)) (hdone' : f'.unplaced = [])
    (lines lines' : List Line) :
    BlockTree.Moved source source' move (f.finish lines) (f'.finish lines') := by
  have hsize := h.size_eq (Extraction.exact_of_ofSource he)
  have hsize' := h'.size_eq (Extraction.exact_of_ofSource he')
  have hlength : (e.moved move).spans.length = e.spans.length := List.length_map _
  refine
    { bracketed := h.bracketed lines he hdone
      bracketed' := h'.bracketed lines' he' hdone'
      braces_eq := by
        rw [← Extraction.braces_of_ofSource he, ← Extraction.braces_of_ofSource he']
        rfl
      size_eq := by rw [size_finish, size_finish, hsize, hsize', hlength]
      span_eq := fun {c} hr hc => ?_ }
  rw [size_finish] at hc
  rw [span_finish _ _ hc, span_finish _ _ (by omega)]
  obtain ⟨i, rfl⟩ := Nat.exists_eq_succ_of_ne_zero hr
  have hi := List.getElem?_eq_getElem (l := e.spans) (i := i) (by omega)
  have hi' : (e.moved move).spans[i]? = some (e.spans[i].moved move) := by
    show (e.spans.map (Span.moved move))[i]? = _
    rw [List.getElem?_map, hi]
    rfl
  rw [Nat.succ_eq_add_one, h.given hi, h'.given hi']

end Forest.Sound
end BraceTree
