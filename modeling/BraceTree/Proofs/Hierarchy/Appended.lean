import BraceTree.Proofs.Block.Grown
import BraceTree.Proofs.Brace.Appended
import BraceTree.Proofs.Hierarchy.Inside
import BraceTree.Proofs.Text.Appended

/-!
# The tree of a source that goes on

Placing the blocks of a source is bracket matching, and so the tree of the longer source can be told
without a look at the rounds. Its first blocks have the spans of the first source, and the others
start behind the newline: that is `Continues`. The innermost pair around each of the first blocks is
the same, so they hang where they hung, and no block of the new text hangs under any of them but the
root. All in all the tree grows (`Forest.Sound.grows_finish`).
-/

namespace BraceTree

namespace BlockTree

/-- Siblings are ordered by where they start. -/
theorem Bracketed.start_lt_start {source : Text} {t : BlockTree} (h : t.Bracketed source)
    (p : Nat) :
    (t.get p).children.Pairwise fun c d => (t.get c).span.start < (t.get d).span.start := by
  refine (h.ordered p).imp_of_mem fun {c d} hc _ hcd => ?_
  obtain ⟨hclt, hcp⟩ := h.mem_children_iff.mp hc
  have := (h.body_eq (h.ne_root_of_parent hcp) hclt).1
  omega

/-- **The trees of a source and of the same source with more text on the next lines**, as far as
their spans are concerned. -/
structure Continues (source further : Text) (t t' : BlockTree) : Prop where
  /-- The first tree is that of the source. -/
  bracketed : t.Bracketed source
  /-- The second tree is that of the longer source. -/
  bracketed' : t'.Bracketed (source ++ '\n' :: further)
  /-- Up to the newline there are no other pairs of braces. -/
  matched_iff : ∀ {s : Span}, s.start ≤ source.bytes →
    (Brace.Matched (Brace.ofSource (source ++ '\n' :: further)) s ↔
      Brace.Matched (Brace.ofSource source) s)
  /-- There are no fewer blocks. -/
  size_le : t.size ≤ t'.size
  /-- The first blocks of the second tree are those of the first one. -/
  span_eq : ∀ {c : Nat}, c ≠ root → c < t.size → (t'.get c).span = (t.get c).span
  /-- The others start behind the newline. -/
  behind : ∀ {c : Nat}, t.size ≤ c → c < t'.size → source.bytes < (t'.get c).span.start

namespace Continues

variable {source further : Text} {t t' : BlockTree} (h : Continues source further t t') {c p : Nat}

include h

theorem lt_size (hc : c < t.size) : c < t'.size := Nat.lt_of_lt_of_le hc h.size_le

/-- The first blocks end before the newline. -/
theorem start_lt_and_stop_le (hr : c ≠ root) (hc : c < t.size) :
    (t.get c).span.start < source.bytes ∧ (t.get c).span.stop ≤ source.bytes := by
  have hlong := (h.bracketed.body_eq hr hc).1
  have hstop := h.bracketed.span_stop_le hc
  rw [h.bracketed.root_span] at hstop
  simp only at hstop
  omega

/-- **Blocks hang where they hung.** -/
theorem parent_eq (hr : c ≠ root) (hc : c < t.size) : (t'.get c).parent = (t.get c).parent := by
  obtain ⟨p, hp, hpar⟩ := h.bracketed.exists_parent hr hc
  obtain ⟨q, hq, hqar⟩ := h.bracketed'.exists_parent hr (h.lt_size hc)
  have henc := h.bracketed.encloser hc hpar
  have henc' := h.bracketed'.encloser (h.lt_size hc) hqar
  rw [h.span_eq hr hc] at henc'
  -- the innermost pair around the block is the same in both sources
  have hstart := Nat.le_of_lt (h.start_lt_and_stop_le hr hc).1
  have hsame := (henc.congr fun hs => h.matched_iff (Nat.le_trans hs hstart)).unique henc'
  rw [hpar, hqar, Option.some.injEq]
  by_cases hpr : p = root <;> by_cases hqr : q = root
  · rw [hpr, hqr]
  · rw [if_pos hpr, if_neg hqr] at hsame
    cases hsame
  · rw [if_neg hpr, if_pos hqr] at hsame
    cases hsame
  · rw [if_neg hpr, if_neg hqr, Option.some.injEq, ← h.span_eq hpr hp] at hsame
    exact (h.bracketed'.span_inj hpr (h.lt_size hp) hqr hq hsame).symm

/-- **A block keeps its children**, and those that it gets stand behind them. -/
theorem children_eq (p : Nat) : (t'.get p).children =
    (t.get p).children ++ (t'.get p).children.filter (t.size ≤ ·) := by
  have hold : ∀ {c : Nat}, c < t.size →
      (c ∈ (t'.get p).children ↔ c ∈ (t.get p).children) := by
    intro c hc
    rw [h.bracketed.mem_children_iff, h.bracketed'.mem_children_iff]
    by_cases hr : c = root
    · rw [hr, h.bracketed.root_parent, h.bracketed'.root_parent]
      simp
    · rw [h.parent_eq hr hc]
      simp only [hc, h.lt_size hc]
  have hlt : ∀ {c : Nat}, c ∈ (t.get p).children → c < t.size ∧
      (t'.get c).span = (t.get c).span ∧ (t.get c).span.start < source.bytes := fun hc => by
    obtain ⟨hclt, hcp⟩ := h.bracketed.mem_children_iff.mp hc
    have hr := h.bracketed.ne_root_of_parent hcp
    exact ⟨hclt, h.span_eq hr hclt, (h.start_lt_and_stop_le hr hclt).1⟩
  have hordered := h.bracketed'.start_lt_start p
  have hnodup := h.bracketed'.children_nodup p
  refine List.Perm.eq_of_pairwise
    (fun c d _ _ hcd hdc => absurd (Nat.lt_trans hcd hdc) (Nat.lt_irrefl _)) hordered ?_ ?_
  · -- the old children are in order, the new ones are, and they start behind the newline
    refine List.pairwise_append.mpr ⟨?_, hordered.filter _, fun c hc d hd => ?_⟩
    · refine (h.bracketed.start_lt_start p).imp_of_mem fun {c d} hc hd hcd => ?_
      rw [(hlt hc).2.1, (hlt hd).2.1]
      exact hcd
    · obtain ⟨hd, hnew⟩ := List.mem_filter.mp hd
      have hbehind := h.behind (of_decide_eq_true hnew) (h.bracketed'.mem_children_iff.mp hd).1
      rw [(hlt hc).2.1]
      have := (hlt hc).2.2
      omega
  · -- both lists have the same blocks, each once
    refine (List.perm_ext_iff_of_nodup hnodup (List.nodup_append.mpr
      ⟨h.bracketed.children_nodup p, hnodup.filter _, fun c hc d hd heq => ?_⟩)).mpr fun c => ?_
    · have hnew := of_decide_eq_true (List.mem_filter.mp hd).2
      exact absurd (heq ▸ hnew) (Nat.not_le_of_lt (hlt hc).1)
    · rw [List.mem_append, List.mem_filter, decide_eq_true_eq]
      by_cases hc : c < t.size
      · rw [hold hc]
        simp [Nat.not_le_of_lt hc]
      · have hnot : c ∉ (t.get p).children := fun hmem => hc (hlt hmem).1
        simp [hnot, Nat.le_of_not_lt hc]

/-- No block but the root gets a child. -/
theorem children_eq_of_ne (hr : p ≠ root) (hp : p < t.size) :
    (t'.get p).children = (t.get p).children := by
  rw [h.children_eq p, List.filter_eq_nil_iff.mpr, List.append_nil]
  intro c hc hnew
  obtain ⟨hclt, hcp⟩ := h.bracketed'.mem_children_iff.mp hc
  have hbehind := h.behind (of_decide_eq_true hnew) hclt
  have hinside := h.bracketed'.within_parent hclt hcp
  have hlong := (h.bracketed'.body_eq (h.bracketed'.ne_root_of_parent hcp) hclt).1
  have := (h.start_lt_and_stop_le hr hp).2
  rw [h.span_eq hr hp] at hinside
  omega

end Continues
end BlockTree

/-- What a pair of braces holds is the same when the source goes on. -/
theorem Block.provisional_append {source : Text} {s : Span}
    (hstart : Text.Border source (s.start + 1)) (hstop : Text.Border source (s.stop - 1))
    (further : Text) :
    Block.provisional (source ++ further) s = Block.provisional source s := by
  unfold Block.provisional
  rw [Text.slice_append_left hstart hstop]

namespace Forest.Sound

open BlockTree (root Continues Grows)

variable {source further : Text} {e e' e'' : Extraction} {f f' : Forest}

/-- The root holds nothing before the first statement. -/
theorem scope_and_calls_root (h : f.Sound source e) (lines : List Line) :
    ((f.finish lines).get root).scope = .empty ∧ ((f.finish lines).get root).calls = [] := by
  rw [get_finish lines f h.root_lt]
  exact ⟨congrArg Block.scope h.root_unlinked, congrArg Block.calls h.root_unlinked⟩

/-- **The blocks of the first source come first**, and the others start behind the newline. -/
theorem continues_finish (he : Extraction.ofSource source = .ok e)
    (he' : Extraction.ofSource further = .ok e')
    (he'' : Extraction.ofSource (source ++ '\n' :: further) = .ok e'') (h : f.Sound source e)
    (hdone : f.unplaced = []) (h' : f'.Sound (source ++ '\n' :: further) e'')
    (hdone' : f'.unplaced = []) (lines lines' : List Line) :
    Continues source further (f.finish lines) (f'.finish lines') := by
  obtain ⟨e₁, more, he₁, hspans, hmore⟩ := Extraction.exists_ofSource_append he he'
  obtain rfl := Except.ok.inj (he₁.symm.trans he'')
  have hsize := h.size_eq (Extraction.exact_of_ofSource he)
  have hsize' := h'.size_eq (Extraction.exact_of_ofSource he'')
  rw [hspans, List.length_append] at hsize'
  refine
    { bracketed := h.bracketed lines he hdone
      bracketed' := h'.bracketed lines' he'' hdone'
      matched_iff := Extraction.matched_append_iff he he'
      size_le := by
        rw [size_finish, size_finish]
        omega
      span_eq := ?span_eq
      behind := ?behind }
  case span_eq =>
    intro c hr hc
    rw [size_finish] at hc
    rw [span_finish _ _ hc, span_finish _ _ (by omega)]
    obtain ⟨i, rfl⟩ := Nat.exists_eq_succ_of_ne_zero hr
    have hi := List.getElem?_eq_getElem (l := e.spans) (i := i) (by omega)
    have hi' : e₁.spans[i]? = some e.spans[i] := by
      rw [hspans, List.getElem?_append_left (by omega), hi]
    rw [Nat.succ_eq_add_one, h.given hi, h'.given hi']
  case behind =>
    intro c hc hlt
    rw [size_finish] at hc hlt
    rw [span_finish _ _ hlt]
    obtain ⟨i, rfl⟩ := Nat.exists_eq_succ_of_ne_zero (show c ≠ 0 by omega)
    have hi := List.getElem?_eq_getElem (l := more) (i := i - e.spans.length) (by omega)
    have hi' : e₁.spans[i]? = some more[i - e.spans.length] := by
      rw [hspans, List.getElem?_append_right (by omega), hi]
    rw [Nat.succ_eq_add_one, h'.given hi']
    exact hmore _ (List.getElem_mem _)

/-- **The tree of a source grows when the source goes on.** -/
theorem grows_finish (h : f.Sound source e) (h' : f'.Sound (source ++ '\n' :: further) e'')
    (hc : Continues source further (f.finish (Line.ofSource source))
      (f'.finish (Line.ofSource (source ++ '\n' :: further)))) :
    Grows (f.finish (Line.ofSource source))
      (f'.finish (Line.ofSource (source ++ '\n' :: further))) where
  size_le := hc.size_le
  get_eq := fun {i} hr hi => by
    have hi' := hc.lt_size hi
    obtain ⟨hstart, hstop⟩ := hc.start_lt_and_stop_le hr hi
    have hbody := (hc.bracketed.body_eq hr hi).2
    have hlo := (hc.bracketed.fresh_body_start hi).border
    have hhi := hc.bracketed.border_body_stop hi
    rw [hbody] at hlo hhi
    rw [h.get_finish_eq _ hr (by rwa [size_finish] at hi),
      h'.get_finish_eq _ hr (by rwa [size_finish] at hi'), hc.span_eq hr hi, hc.parent_eq hr hi,
      hc.children_eq_of_ne hr hi, Block.provisional_append hlo hhi,
      Line.indicesIn_append (Nat.le_of_lt hstart) hstop]
  scope_root := by rw [(h.scope_and_calls_root _).1, (h'.scope_and_calls_root _).1]
  calls_root := by rw [(h.scope_and_calls_root _).2, (h'.scope_and_calls_root _).2]
  exists_children := ⟨_, hc.children_eq root, fun c hmem =>
    of_decide_eq_true (List.mem_filter.mp hmem).2⟩
  behind := fun hnew hlt => by
    rw [hc.bracketed.root_span]
    exact hc.behind hnew hlt

end Forest.Sound
end BraceTree
