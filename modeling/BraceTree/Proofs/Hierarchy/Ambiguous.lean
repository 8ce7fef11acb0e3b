import Mathlib
import BraceTree.Proofs.Brace.Around
import BraceTree.Proofs.Hierarchy.Finished

/-!
# When blocks cannot be placed

The blocks and the braces of an extraction need not belong together. Spans may be missing, given
twice, or cross one another, and the braces need not match. Walking outward from the given spans,
from nearest pair to nearest pair, comes across the spans that a tree would need
(`Extraction.Outward`). The rounds fail exactly if around one of these the braces cannot be told,
and the failure is reported at such a span.

If they do not fail, the given blocks are where they were, a block was made for each span come
across that none of them has, and every block hangs under its nearest pair.
-/

namespace BraceTree

namespace Extraction

/-- **The spans come across on the way outward**: the given ones, and the nearest pair of braces
around each. -/
inductive Outward (e : Extraction) : Span → Prop where
  | given {s : Span} (h : s ∈ e.spans) : Outward e s
  | pair {s p : Span} (hs : Outward e s) (h : Brace.Nearest e.braces s (some p)) : Outward e p

/-- **A span around which the braces cannot be told**: its own braces are not in the list, or there
is a brace on one side only. -/
def Ambiguous (e : Extraction) (s : Span) : Prop :=
  ¬ Brace.Recorded e.braces s ∨ Brace.HalfEnclosed e.braces s

/-- **The blocks of an extraction in their places.** -/
structure Settled (source : Text) (e : Extraction) (t : BlockTree) : Prop where
  size_gt : e.spans.length < t.size
  /-- The given blocks are the first ones behind the root, in their order, with their spans and
  texts. -/
  given : ∀ (i : Nat) (s : Span), e.spans[i]? = some s →
    (t.get (i + 1)).span = s ∧ (t.get (i + 1)).text = (Block.provisional source s).text
  /-- The others were made for nearest pairs that no given block has. -/
  made : ∀ c : Nat, e.spans.length < c → c < t.size → (t.get c).span ∉ e.spans ∧
    ∃ s, e.Outward s ∧ Brace.Nearest e.braces s (some (t.get c).span)
  /-- No block was made twice. -/
  made_once : ∀ c d : Nat, e.spans.length < c → c < t.size → e.spans.length < d → d < t.size →
    (t.get c).span = (t.get d).span → c = d
  /-- Every block but the root is listed once, under its parent. That is the block of its nearest
  pair, or the root if there is none. -/
  exists_parent : ∀ c : Nat, c ≠ BlockTree.root → c < t.size →
    ∃ p : Nat, p < t.size ∧ (t.get c).parent = some p ∧
      (∀ q : Nat, (t.get q).children.count c = if q = p then 1 else 0) ∧
      Brace.Nearest e.braces (t.get c).span
        (if p = BlockTree.root then none else some (t.get p).span)
  /-- Going from parent to parent ends at the root. -/
  reaches_root : ∀ c : Nat, c < t.size →
    Relation.ReflTransGen (fun c p : Nat => (t.get c).parent = some p) c BlockTree.root

variable {source : Text} {e : Extraction} {s : Span}

theorem Proper.outward_of_reached (he : e.Proper source) (h : e.Reached s) : e.Outward s := by
  induction h with
  | given h => exact .given h
  | around hs h ih =>
    have := he.long_of_reached hs
    exact .pair ih ((Brace.enclosing?_eq_ok_iff he.sorted (by omega)).mp h).2

/-- A span with a misfit around it is ambiguous. -/
theorem Proper.ambiguous_iff (he : e.Proper source) (h : e.Reached s) :
    (∃ m, Brace.enclosing? e.braces s = .error m) ↔ e.Ambiguous s := by
  have := he.long_of_reached h
  exact Brace.exists_error_iff he.sorted (by omega)

/-- **The way outward is the way of the rounds**, up to the first ambiguous span. -/
theorem Proper.reached_of_outward (he : e.Proper source) (h : e.Outward s)
    (hno : ∀ q, e.Reached q → ¬ e.Ambiguous q) : e.Reached s := by
  induction h with
  | given h => exact .given h
  | @pair s p hs h ih =>
    have hlong := he.long_of_reached ih
    have hrec : Brace.Recorded e.braces s := by
      by_contra hrec
      exact hno s ih (.inl hrec)
    exact .around ih ((Brace.enclosing?_eq_ok_iff he.sorted (by omega)).mpr ⟨hrec, h⟩)

end Extraction

namespace Forest

open BlockTree (root)

variable {source : Text} {e : Extraction} {f : Forest} {lines : List Line}

/-- **In the end every span come across is the span of a block**, so none of them is ambiguous. -/
theorem Sound.exists_of_reached (h : f.Sound source e) (hdone : f.unplaced = []) {s : Span}
    (hs : e.Reached s) : ∃ c p : Nat, c ≠ root ∧ c < f.tree.size ∧ f.span c = s ∧
      (f.tree.get c).parent = some p := by
  induction hs with
  | given hs =>
    obtain ⟨i, hi⟩ := List.getElem?_of_mem hs
    have hlt := (List.getElem?_eq_some_iff.mp hi).1
    have := h.size_gt
    obtain ⟨p, hp⟩ := h.exists_parent hdone (Nat.succ_ne_zero i) (by omega)
    exact ⟨i + 1, p, Nat.succ_ne_zero i, by omega, h.given hi, hp⟩
  | around hs henc ih =>
    obtain ⟨c, p, hr, hc, rfl, hp⟩ := ih
    obtain ⟨hplt, hplaced⟩ := h.placed hc hp
    have hparent := Except.ok.inj (henc.symm.trans hplaced)
    by_cases hpr : p = root
    · rw [if_pos hpr] at hparent
      exact absurd hparent (by simp)
    · rw [if_neg hpr] at hparent
      obtain ⟨q, hq⟩ := h.exists_parent hdone hpr hplt
      exact ⟨p, q, hpr, hplt, (Option.some.inj hparent).symm, hq⟩

theorem Sound.not_ambiguous (h : f.Sound source e) (he : e.Proper source) (hdone : f.unplaced = [])
    {s : Span} (hs : e.Reached s) : ¬ e.Ambiguous s := by
  rw [← he.ambiguous_iff hs]
  rintro ⟨m, hm⟩
  obtain ⟨c, p, -, hc, rfl, hp⟩ := h.exists_of_reached hdone hs
  rw [(h.placed hc hp).2] at hm
  exact absurd hm (by simp)

/-- The rounds that `build` runs are enough. -/
theorem build_cases (he : e.Proper source) :
    (∃ f, build source e = .ok f ∧ f.Sound source e ∧ f.unplaced = []) ∨
      ∃ finding, build source e = .error finding ∧ e.Misplaced finding := by
  refine (sound_ofExtraction source e).settle_cases he ?_
  rw [size_ofExtraction, roundBound]
  show _ + (List.range' 1 e.spans.length).length + 1 < _
  rw [List.length_range']
  omega

/-- **A block hangs under the block of its nearest pair**, under the root if there is none. -/
theorem Sound.nearest_of_parent (h : f.Sound source e) (he : e.Proper source) {c p : Nat}
    (hc : c < f.tree.size) (hp : (f.tree.get c).parent = some p) :
    Brace.Nearest e.braces (f.span c) (if p = root then none else some (f.span p)) := by
  have := he.long_of_reached (h.reached (h.ne_root_of_parent hp) hc)
  exact ((Brace.enclosing?_eq_ok_iff he.sorted (by omega)).mp (h.placed hc hp).2).2

/-- **The finished tree has the blocks of the extraction in their places.** -/
theorem Sound.settled (h : f.Sound source e) (lines : List Line) (he : e.Proper source)
    (hdone : f.unplaced = []) : e.Settled source (f.finish lines) := by
  have hnested := h.nested lines he hdone
  refine
    { size_gt := by
        rw [size_finish]
        exact h.size_gt
      given := ?given
      made := ?made
      made_once := ?made_once
      exists_parent := ?exists_parent
      reaches_root := ?reaches_root }
  case given =>
    intro i s hi
    have hlt := (List.getElem?_eq_some_iff.mp hi).1
    have := h.size_gt
    have hid : i + 1 < f.tree.size := by omega
    have hspan := h.given hi
    refine ⟨(span_finish lines f hid).trans hspan, ?_⟩
    rw [get_finish lines f hid]
    have htext := congrArg Block.text (h.unlinked (Nat.succ_ne_zero i) hid)
    rw [hspan] at htext
    exact htext
  case made =>
    intro c hn hc
    rw [size_finish] at hc
    have hroot : c ≠ root := Nat.ne_of_gt (Nat.zero_lt_of_lt hn)
    rw [span_finish lines f hc]
    refine ⟨h.made hn hc, ?_⟩
    cases h.reached hroot hc with
    | given hg => exact absurd hg (h.made hn hc)
    | @around s _ hs henc =>
      have := he.long_of_reached hs
      exact ⟨s, he.outward_of_reached hs,
        ((Brace.enclosing?_eq_ok_iff he.sorted (by omega)).mp henc).2⟩
  case made_once =>
    intro c d hn hc hn' hd heq
    rw [size_finish] at hc hd
    rw [span_finish lines f hc, span_finish lines f hd] at heq
    exact h.made_inj hn hc hn' hd heq
  case exists_parent =>
    intro c hr hc
    obtain ⟨p, hplt, hp⟩ := hnested.exists_parent hr hc
    refine ⟨p, hplt, hp, fun q => ?_, ?_⟩
    · rw [hnested.count_children hc, hp]
      simp only [Option.some.injEq, eq_comm]
    · rw [size_finish] at hc hplt
      rw [parent_finish lines f hc] at hp
      rw [span_finish lines f hc, span_finish lines f hplt]
      exact h.nearest_of_parent he hc hp
  case reaches_root =>
    intro c hc
    exact hnested.induction_from_root (P := fun c => Relation.ReflTransGen
      (fun c p : Nat => ((f.finish lines).get c).parent = some p) c root) .refl
      (fun p c _ hp ih => .head hp ih) hc

/-- **Placing the blocks of an extraction ends**, whatever bound it runs with beyond the one that is
used. It fails exactly if some span come across on the way outward is ambiguous, and then it reports
such a span. If it does not fail, all blocks have their places: the given ones are the first blocks
of the tree, the others were made for nearest pairs that no given block has, and the parent of a
block is the block of its nearest pair (`Extraction.Settled`). -/
theorem build_eq_error_iff (he : e.Proper source) :
    (∀ k, settle source e.braces (roundBound e + k) (ofExtraction source e) = build source e) ∧
    ((∃ finding, build source e = .error finding) ↔ ∃ s, e.Outward s ∧ e.Ambiguous s) ∧
    (∀ finding, build source e = .error finding → finding.problem.code = .ambiguousHierarchy ∧
      e.Outward finding.span ∧ e.Ambiguous finding.span) ∧
    ∀ f, build source e = .ok f → f.unplaced = [] ∧
      ∀ lines : List Line, e.Settled source (f.finish lines) := by
  rcases build_cases he with ⟨f, hf, hsound, hdone⟩ | ⟨finding, hfinding, hmis⟩
  · refine ⟨fun k => ?_, ⟨fun ⟨finding, hfinding⟩ => ?_, fun ⟨s, hs, hamb⟩ => ?_⟩,
      fun finding hfinding => ?_, fun f' hf' => ?_⟩
    · rw [hf]
      exact settle_add k hf hdone
    · rw [hf] at hfinding
      exact absurd hfinding (by simp)
    · have hreached := he.reached_of_outward hs fun q hq => hsound.not_ambiguous he hdone hq
      exact absurd hamb (hsound.not_ambiguous he hdone hreached)
    · rw [hf] at hfinding
      exact absurd hfinding (by simp)
    · obtain rfl := Except.ok.inj (hf.symm.trans hf')
      exact ⟨hdone, fun lines => hsound.settled lines he hdone⟩
  · have hout := he.outward_of_reached hmis.reached
    have hamb := (he.ambiguous_iff hmis.reached).mp hmis.exists_misfit
    refine ⟨fun k => ?_, ⟨fun _ => ⟨_, hout, hamb⟩, fun _ => ⟨finding, hfinding⟩⟩,
      fun finding' hfinding' => ?_, fun f hf => ?_⟩
    · rw [hfinding]
      exact settle_eq_of_le (fun f' hf' => absurd hf' (by simp)) k hfinding
    · obtain rfl := Except.error.inj (hfinding.symm.trans hfinding')
      exact ⟨hmis.code, hout, hamb⟩
    · rw [hfinding] at hf
      exact absurd hf (by simp)

/-- A block that is given twice and its container not at all, and a block with a brace on one side
only. -/
theorem build_eq_error_iff_of_two :
    (∃ e f, e = (⟨[⟨2, 5⟩, ⟨2, 5⟩], [⟨0, true⟩, ⟨2, true⟩, ⟨4, false⟩, ⟨6, false⟩]⟩ : Extraction) ∧
      e.Proper "\x7b \x7b \x7d \x7d".toList ∧ build "\x7b \x7b \x7d \x7d".toList e = .ok f ∧
      f.tree.size = 4 ∧ e.Settled "\x7b \x7b \x7d \x7d".toList (f.finish [])) ∧
    ∃ e, e = (⟨[⟨2, 5⟩], [⟨0, true⟩, ⟨2, true⟩, ⟨4, false⟩]⟩ : Extraction) ∧
      e.Proper "\x7b \x7b \x7d ".toList ∧ ∃ s, e.Outward s ∧ e.Ambiguous s := by
  constructor
  · generalize hsource : "\x7b \x7b \x7d \x7d".toList = source
    generalize he : (⟨[⟨2, 5⟩, ⟨2, 5⟩],
      [⟨0, true⟩, ⟨2, true⟩, ⟨4, false⟩, ⟨6, false⟩]⟩ : Extraction) = e
    have hproper : e.Proper source := by
      subst hsource he
      exact ⟨by decide, by decide, by decide, by decide⟩
    have hsize : (build source e).toOption.map (·.tree.size) = some 4 := by
      subst hsource he
      cbv
    cases hf : build source e with
    | error finding =>
      rw [hf] at hsize
      exact absurd hsize (by simp [Except.toOption])
    | ok f =>
      rw [hf] at hsize
      exact ⟨e, f, rfl, hproper, hf, Option.some.inj hsize,
        ((build_eq_error_iff hproper).2.2.2 f hf).2 []⟩
  · have hproper : Extraction.Proper "\x7b \x7b \x7d ".toList
        ⟨[⟨2, 5⟩], [⟨0, true⟩, ⟨2, true⟩, ⟨4, false⟩]⟩ :=
      ⟨by decide, by decide, by decide, by decide⟩
    refine ⟨_, rfl, hproper, (build_eq_error_iff hproper).2.1.mp ?_⟩
    have hnone : (build "\x7b \x7b \x7d ".toList
        ⟨[⟨2, 5⟩], [⟨0, true⟩, ⟨2, true⟩, ⟨4, false⟩]⟩).toOption.isNone = true := by cbv
    cases hf : build "\x7b \x7b \x7d ".toList
        ⟨[⟨2, 5⟩], [⟨0, true⟩, ⟨2, true⟩, ⟨4, false⟩]⟩ with
    | error finding => exact ⟨finding, rfl⟩
    | ok f =>
      rw [hf] at hnone
      exact absurd hnone (by simp [Except.toOption])

end Forest
end BraceTree
