import BraceTree.Proofs.Brace.Pairing
import BraceTree.Proofs.Hierarchy.Finished

/-!
# Placing blocks is bracket matching

The rounds work from the inside out and know nothing but a list of spans and a list of braces. For
the blocks that were found in a source they nevertheless end with the tree that plain bracket
matching gives: the parent of a block is the innermost matched pair around it.

The reason is that everything the rounds come across is a matched pair of the source
(`matched_of_reached`). So the search for the braces around it succeeds and finds a matched pair
again, which is the span of a given block, and no block is ever made.
-/

namespace BraceTree

namespace BlockTree

/-- **The tree of bracket matching**: its blocks are the matched pairs of the source, and each hangs
under the innermost pair around it. -/
structure Bracketed (source : Text) (t : BlockTree) : Prop extends Nested t where
  /-- The root is all of the source. -/
  root_span : (t.get root).span = ⟨0, source.bytes⟩
  /-- The other blocks are the matched pairs. -/
  matched_iff : ∀ {s : Span}, Brace.Matched (Brace.ofSource source) s ↔
    ∃ c : Nat, c ≠ root ∧ c < t.size ∧ (t.get c).span = s
  /-- No pair is the span of two blocks. -/
  span_inj : ∀ {c d : Nat}, c ≠ root → c < t.size → d ≠ root → d < t.size →
    (t.get c).span = (t.get d).span → c = d
  /-- The parent of a block is the innermost pair around it, the root if there is none. -/
  encloser : ∀ {p c : Nat}, c < t.size → (t.get c).parent = some p →
    Brace.Encloser (Brace.ofSource source) (t.get c).span
      (if p = root then none else some (t.get p).span)
  /-- The children of a block stand in the order of the source and do not overlap. -/
  ordered : ∀ p : Nat,
    (t.get p).children.Pairwise fun c d => (t.get c).span.stop ≤ (t.get d).span.start

end BlockTree

namespace Brace

/-- A structural brace of a source stands in it. -/
theorem offset_lt_of_mem_ofSource {source : Text} {b : Brace} (h : b ∈ ofSource source) :
    b.offset < source.bytes := by
  obtain ⟨pre, g, post, hsplit, hoff, -⟩ := mem_ofGlyphs_iff.mp h
  have hchars : source = Glyph.chars pre ++ g.char :: Glyph.chars post := by
    rw [← Text.chars_glyphs source, hsplit]
    simp [Glyph.chars]
  have := g.char.utf8Size_pos
  have hbytes := congrArg Text.bytes hchars
  rw [Text.bytes_append, Text.bytes_cons] at hbytes
  omega

end Brace

namespace Extraction

variable {source : Text} {e : Extraction}

theorem proper_of_ofSource (h : ofSource source = .ok e) : e.Proper source := by
  have hexact := exact_of_ofSource h
  have hbraces := braces_of_ofSource h
  refine ⟨hexact.sorted, fun s hs => (hexact.mem_spans_iff.mp hs).start_lt_stop hexact.sorted,
    fun s hs => ?_, fun b hb => Brace.offset_lt_of_mem_ofSource (hbraces ▸ hb)⟩
  have hm := hexact.mem_spans_iff.mp hs
  have hclose : s.stop - 1 < source.bytes :=
    Brace.offset_lt_of_mem_ofSource (hbraces ▸ hm.close_mem)
  omega

/-- **Nothing but matched pairs is come across.** -/
theorem Exact.matched_of_reached (h : e.Exact) {s : Span} (hs : e.Reached s) :
    Brace.Matched e.braces s := by
  induction hs with
  | given hs => exact h.mem_spans_iff.mp hs
  | @around s p _ henc ih =>
    obtain ⟨q, hq, hencloser⟩ := ih.enclosing?_spec h.balanced h.sorted
    obtain rfl : q = some p := by
      rw [hq] at henc
      simpa using henc
    exact hencloser.1

theorem Exact.encloser_of_enclosing? (h : e.Exact) {s : Span} {p : Option Span}
    (hs : e.Reached s) (henc : Brace.enclosing? e.braces s = .ok p) :
    Brace.Encloser e.braces s p := by
  obtain ⟨q, hq, hencloser⟩ := (h.matched_of_reached hs).enclosing?_spec h.balanced h.sorted
  obtain rfl : q = p := by
    rw [hq] at henc
    simpa using henc
  exact hencloser

end Extraction

namespace Forest

open BlockTree (root)

variable {source : Text} {e : Extraction} {f : Forest} {lines : List Line}

/-- No block is made where all blocks are given. -/
theorem Sound.size_eq (hexact : e.Exact) (h : f.Sound source e) :
    f.tree.size = e.spans.length + 1 := by
  have := h.size_gt
  by_contra hne
  have hlast : f.span (f.tree.size - 1) ∉ e.spans := h.made (by omega) (by omega)
  have hroot : f.tree.size - 1 ≠ root := by
    show f.tree.size - 1 ≠ 0
    omega
  exact hlast (hexact.mem_spans_iff.mpr (hexact.matched_of_reached (h.reached hroot (by omega))))

/-- A block is told by its span: all blocks are given, and no pair is given twice. -/
theorem Sound.span_inj (hexact : e.Exact) (h : f.Sound source e) {c d : Nat} (hcr : c ≠ root)
    (hc : c < f.tree.size) (hdr : d ≠ root) (hd : d < f.tree.size)
    (heq : f.span c = f.span d) : c = d := by
  have hsize := h.size_eq hexact
  obtain ⟨i, rfl⟩ := Nat.exists_eq_succ_of_ne_zero hcr
  obtain ⟨j, rfl⟩ := Nat.exists_eq_succ_of_ne_zero hdr
  have hi : i < e.spans.length := by omega
  have hj : j < e.spans.length := by omega
  have hgi := h.given (List.getElem?_eq_getElem hi)
  have hgj := h.given (List.getElem?_eq_getElem hj)
  have : e.spans[i] = e.spans[j] := hgi.symm.trans (heq.trans hgj)
  rw [hexact.nodup.getElem_inj_iff.mp this]

/-- The spans of the blocks are the matched pairs. -/
theorem Sound.matched_iff (hexact : e.Exact) (h : f.Sound source e) {s : Span} :
    Brace.Matched e.braces s ↔ ∃ c : Nat, c ≠ root ∧ c < f.tree.size ∧ f.span c = s := by
  constructor
  · intro hs
    have hsize := h.size_eq hexact
    obtain ⟨i, hi⟩ := List.getElem?_of_mem (hexact.mem_spans_iff.mpr hs)
    have hlt := (List.getElem?_eq_some_iff.mp hi).1
    exact ⟨i + 1, Nat.succ_ne_zero i, by omega, h.given hi⟩
  · rintro ⟨c, hr, hc, rfl⟩
    exact hexact.matched_of_reached (h.reached hr hc)

/-- A block hangs under the innermost pair around it. -/
theorem Sound.encloser (hexact : e.Exact) (h : f.Sound source e) {c p : Nat}
    (hc : c < f.tree.size) (hp : (f.tree.get c).parent = some p) :
    Brace.Encloser e.braces (f.span c) (if p = root then none else some (f.span p)) :=
  hexact.encloser_of_enclosing? (h.reached (h.ne_root_of_parent hp) hc) (h.placed hc hp).2

/-- **Siblings do not overlap**, since the same pair is the innermost around them. -/
theorem Sound.stop_le_start (hexact : e.Exact) (h : f.Sound source e) {c d p : Nat}
    (hc : c < f.tree.size) (hcp : (f.tree.get c).parent = some p) (hd : d < f.tree.size)
    (hdp : (f.tree.get d).parent = some p) (hne : c ≠ d)
    (hle : (f.span c).start ≤ (f.span d).start) : (f.span c).stop ≤ (f.span d).start := by
  have hcr := h.ne_root_of_parent hcp
  have hdr := h.ne_root_of_parent hdp
  have hcm := (h.matched_iff hexact).mpr ⟨c, hcr, hc, rfl⟩
  have hdm := (h.matched_iff hexact).mpr ⟨d, hdr, hd, rfl⟩
  rcases Nat.lt_or_eq_of_le hle with hlt | heq
  · exact (h.encloser hexact hc hcp).stop_le_start hexact.sorted hcm hdm
      (h.encloser hexact hd hdp) hlt
  · exact absurd (h.span_inj hexact hcr hc hdr hd (hcm.eq_of_start_eq hexact.sorted hdm heq)) hne

/-- **The finished tree is the tree of bracket matching.** -/
theorem Sound.bracketed (h : f.Sound source e) (lines : List Line)
    (he : Extraction.ofSource source = .ok e) (hdone : f.unplaced = []) :
    (f.finish lines).Bracketed source := by
  have hexact := Extraction.exact_of_ofSource he
  have hbraces := Extraction.braces_of_ofSource he
  have hnested := h.nested lines (Extraction.proper_of_ofSource he) hdone
  refine
    { toNested := hnested
      root_span := root_span_finish h lines
      matched_iff := ?matched_iff
      span_inj := ?span_inj
      encloser := ?encloser
      ordered := ?ordered }
  case matched_iff =>
    intro s
    rw [← hbraces, h.matched_iff hexact, size_finish]
    constructor
    · rintro ⟨c, hr, hc, rfl⟩
      exact ⟨c, hr, hc, span_finish lines f hc⟩
    · rintro ⟨c, hr, hc, rfl⟩
      exact ⟨c, hr, hc, (span_finish lines f hc).symm⟩
  case span_inj =>
    intro c d hcr hc hdr hd heq
    rw [size_finish] at hc hd
    rw [span_finish lines f hc, span_finish lines f hd] at heq
    exact h.span_inj hexact hcr hc hdr hd heq
  case encloser =>
    intro p c hc hp
    have hplt := hnested.parent_lt hc hp
    rw [size_finish] at hc hplt
    rw [parent_finish lines f hc] at hp
    rw [span_finish lines f hc, span_finish lines f hplt, ← hbraces]
    exact h.encloser hexact hc hp
  case ordered =>
    intro p
    have hstarts := pairwise_children_finish lines f p
    have hnodup := hnested.children_nodup p
    refine (hstarts.and hnodup).imp_of_mem fun {c d} hcmem hdmem hcd => ?_
    obtain ⟨hc, hcp⟩ := hnested.mem_children_iff.mp hcmem
    obtain ⟨hd, hdp⟩ := hnested.mem_children_iff.mp hdmem
    rw [size_finish] at hc hd
    rw [parent_finish lines f hc] at hcp
    rw [parent_finish lines f hd] at hdp
    rw [span_finish lines f hc, span_finish lines f hd]
    exact h.stop_le_start hexact hc hcp hd hdp hcd.2 hcd.1

/-- Blocks that are found in a source can be placed. -/
theorem build_eq_ok (he : Extraction.ofSource source = .ok e) :
    ∃ f, build source e = .ok f ∧ f.Sound source e ∧ f.unplaced = [] := by
  have hexact := Extraction.exact_of_ofSource he
  have hproper := Extraction.proper_of_ofSource he
  have hno : ∀ s, e.Reached s → ∃ p, Brace.enclosing? e.braces s = .ok p := fun s hs => by
    have hmatched := hexact.matched_of_reached hs
    obtain ⟨p, hp, -⟩ := hmatched.enclosing?_spec hexact.balanced hexact.sorted
    exact ⟨p, hp⟩
  show ∃ f, settle source e.braces (roundBound e) (ofExtraction source e) = .ok f ∧
    f.Sound source e ∧ f.unplaced = []
  refine Sound.settle_eq_ok hproper hno (sound_ofExtraction source e) ?_
  rw [size_ofExtraction, roundBound]
  show _ + (List.range' 1 e.spans.length).length + 1 < _
  rw [List.length_range']
  omega

/-- **Placing the blocks of a source gives the tree of bracket matching.** The rounds end, whatever
bound they run with beyond the one that is used, and every block has its place. No block is made:
the blocks are the spans of the extraction, in their order, and these are the matched pairs. The
parent of a block is the innermost pair around it, siblings stand in the order of the source without
overlap and inside the body of their parent (`Bracketed`), every block is listed once, under its
parent, and the order of the source visits every block once and each after its parent. -/
theorem build_eq_bracket_matching (he : Extraction.ofSource source = .ok e) :
    ∃ f, build source e = .ok f ∧ f.unplaced = [] ∧
      (∀ k, settle source e.braces (roundBound e + k) (ofExtraction source e) = .ok f) ∧
      (f.finish (Line.ofSource source)).size = e.spans.length + 1 ∧
      (∀ i s, e.spans[i]? = some s → ((f.finish (Line.ofSource source)).get (i + 1)).span = s) ∧
      (f.finish (Line.ofSource source)).Bracketed source ∧
      (∀ c p : Nat, c ≠ root → c < (f.finish (Line.ofSource source)).size →
        ((f.finish (Line.ofSource source)).get p).children.count c =
          if ((f.finish (Line.ofSource source)).get c).parent = some p then 1 else 0) ∧
      (f.finish (Line.ofSource source)).preorder.Perm
        (List.range (f.finish (Line.ofSource source)).size) ∧
      ∀ p c : Nat, c ∈ ((f.finish (Line.ofSource source)).get p).children →
        [p, c].Sublist (f.finish (Line.ofSource source)).preorder := by
  obtain ⟨f, hf, hsound, hdone⟩ := build_eq_ok he
  have hbracketed := hsound.bracketed (Line.ofSource source) he hdone
  have hsize := hsound.size_eq (Extraction.exact_of_ofSource he)
  refine ⟨f, hf, hdone, fun k => settle_add k hf hdone, by rw [size_finish, hsize], ?_, hbracketed,
    fun c p _ hc => hbracketed.count_children hc p, hbracketed.perm_preorder,
    fun p c hc => hbracketed.parent_before_child hc⟩
  intro i s hi
  have hlt := (List.getElem?_eq_some_iff.mp hi).1
  rw [span_finish _ f (by omega), hsound.given hi]

/-- One block in another one. -/
theorem build_eq_bracket_matching_of_two :
    ∃ e f, Extraction.ofSource ['{', 'a', '{', '}', '}'] = .ok e ∧
      e.spans = [⟨2, 4⟩, ⟨0, 5⟩] ∧ build ['{', 'a', '{', '}', '}'] e = .ok f ∧
      (f.finish (Line.ofSource ['{', 'a', '{', '}', '}'])).size = 3 ∧
      (f.finish (Line.ofSource ['{', 'a', '{', '}', '}'])).Bracketed ['{', 'a', '{', '}', '}'] := by
  have he : Extraction.ofSource ['{', 'a', '{', '}', '}'] =
      .ok ⟨[⟨2, 4⟩, ⟨0, 5⟩], [⟨0, true⟩, ⟨2, true⟩, ⟨3, false⟩, ⟨4, false⟩]⟩ := rfl
  obtain ⟨f, hf, -, -, hsize, -, hbracketed, -⟩ := build_eq_bracket_matching he
  exact ⟨_, f, he, rfl, hf, hsize, hbracketed⟩

end Forest
end BraceTree
