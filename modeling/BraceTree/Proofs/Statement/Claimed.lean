import Mathlib
import BraceTree.Proofs.Header.Reach
import BraceTree.Proofs.Statement.Lossless

/-!
# What the children of a block take of its body

A child takes its header and its braces, and the statements of a block are what its children leave.
That is sound only if these ranges are disjoint, and they are not always: a header may hold the
siblings before it in parentheses, with all that stands between them. Both the siblings and what
stands between them are then visited as well, as if the header did not hold them.

`Program.headers_apart_iff` says when this happens. The braces of siblings never overlap, and the
header of a child reaches back over the closing brace of a sibling exactly if that brace is caught
in it (`BlockTree.Caught`): if the search for the header would stop nowhere on its way there. A
header that has caught no sibling has nothing in common with any, nor with any statement of the
parent. One that has shares at least the brace.
-/

namespace BraceTree

open BlockTree (root SameFrames)

namespace BlockTree

variable {source : Text} {t t' : BlockTree}

/-- A tree whose headers start where the search for them may end. -/
structure Bounded (source : Text) (t : BlockTree) : Prop extends Headed source t where
  header_bounded : ∀ {c p : Nat}, c < t.size → (t.get c).parent = some p →
    (t.get c).HeaderBounded source (t.get p).body.start

/-- Headers are what statements leave as they are. -/
theorem SameFrames.bounded (h : SameFrames t t') (ht : t.Bounded source) : t'.Bounded source where
  toHeaded := h.headed ht.toHeaded
  header_bounded := fun {c p} hc hp => by
    rw [h.size_eq] at hc
    rw [h.sameShape.parent_eq] at hp
    have hheader := h.congr Block.headerSpan (fun _ => rfl) c
    rw [h.sameShape.body_eq]
    obtain ⟨hfloor, hstop, hstart⟩ := ht.header_bounded hc hp
    refine ⟨?_, ?_, ?_⟩ <;> rw [hheader]
    · exact hfloor
    · rw [h.sameShape.span_eq]
      exact hstop
    · rw [h.sameShape.span_eq]
      exact hstart

theorem Bracketed.bounded_classify (h : t.Bracketed source) :
    (t.classify source).Bounded source where
  toHeaded := h.headed_classify
  header_bounded := fun {c p} hc hp => by
    rw [size_classify] at hc
    rw [parent_classify] at hp
    rw [body_classify]
    exact h.headerBounded_classify hc hp

/-- **The closing brace of a block is caught in the header of another one**: from the brace to the
end of the header there is nowhere for the search to stop. -/
def Caught (source : Text) (t : BlockTree) (d c : BlockId) : Prop :=
  Text.Guarded (Text.slice source ⟨(t.get d).span.stop - 1, (t.get c).headerSpan.stop⟩)

/-- A child whose header gets over no sibling before it. -/
def ClearOf (t : BlockTree) (siblings : List BlockId) (c : BlockId) : Prop :=
  ∀ d ∈ siblings, (t.get d).span.stop ≤ (t.get c).span.start →
    (t.get d).span.stop ≤ (t.get c).claimed.start

/-- Two children of a block are the same or one stands behind the other. -/
theorem Bracketed.siblings_apart (h : t.Bracketed source) {c d p : Nat}
    (hc : c ∈ (t.get p).children) (hd : d ∈ (t.get p).children) :
    c = d ∨ (t.get c).span.stop ≤ (t.get d).span.start ∨
      (t.get d).span.stop ≤ (t.get c).span.start := by
  have hapart : (t.get p).children.Pairwise fun c d =>
      (t.get c).span.stop ≤ (t.get d).span.start ∨ (t.get d).span.stop ≤ (t.get c).span.start :=
    (h.ordered p).imp Or.inl
  by_cases hcd : c = d
  · exact .inl hcd
  · have : Std.Symm fun c d : Nat => (t.get c).span.stop ≤ (t.get d).span.start ∨
        (t.get d).span.stop ≤ (t.get c).span.start := ⟨fun _ _ => Or.symm⟩
    exact .inr (hapart.forall hc hd hcd)

namespace Bounded

variable (h : t.Bounded source) {c d p : Nat}

include h

theorem claimed_eq (hc : c < t.size) (hp : (t.get c).parent = some p) :
    (t.get c).claimed = ⟨(t.get c).headerSpan.start, (t.get c).span.stop⟩ :=
  congrArg (Span.mk · _) (h.header_stands (h.ne_root_of_parent hp) hc).claimed_start

/-- The closing brace of a sibling before a child is one of those that its header may reach. -/
theorem close_mem (hc : c < t.size) (hp : (t.get c).parent = some p) (hd : d < t.size)
    (hdp : (t.get d).parent = some p) (hle : (t.get d).span.stop ≤ (t.get c).span.start) :
    (⟨(t.get d).span.stop - 1, false⟩ : Brace) ∈ Brace.ofSource source ∧
      (t.get p).body.start ≤ (t.get d).span.stop - 1 ∧
      (t.get d).span.stop - 1 < (t.get c).headerSpan.stop ∧ 0 < (t.get d).span.stop := by
  have hdr := h.ne_root_of_parent hdp
  have hmem := (h.matched hdr hd).close_mem
  have hlen := (h.body_eq hdr hd).1
  have hinside := (h.inside hd hdp).1
  refine ⟨hmem, by omega, (h.header_bounded hc hp).lt_stop _ hmem ?_, by omega⟩
  show (t.get d).span.stop - 1 < (t.get c).span.start
  omega

/-- **A header gets over a sibling exactly if it has caught its closing brace.** -/
theorem stop_le_iff (hc : c < t.size) (hp : (t.get c).parent = some p) (hd : d < t.size)
    (hdp : (t.get d).parent = some p) (hle : (t.get d).span.stop ≤ (t.get c).span.start) :
    (t.get d).span.stop ≤ (t.get c).headerSpan.start ↔ ¬ t.Caught source d c := by
  obtain ⟨hmem, hfloor, -, hpos⟩ := h.close_mem hc hp hd hdp hle
  have hreach := (h.header_bounded hc hp).start_le_iff _ hmem hfloor
    (show (t.get d).span.stop - 1 < (t.get c).span.start by omega)
  rw [Caught, ← hreach]
  show _ ↔ ¬ (t.get c).headerSpan.start ≤ (t.get d).span.stop - 1
  omega

/-- Between the header of a child and its brace there are only blanks. -/
theorem isBlankText_gap (hc : c < t.size) (hp : (t.get c).parent = some p) :
    (t.get c).headerSpan.stop ≤ (t.get c).span.start ∧
      Text.isBlankText (Text.slice source ⟨(t.get c).headerSpan.stop, (t.get c).span.start⟩) =
        true := by
  obtain ⟨before, header, gap, rest, hsource, hgap, hspan, hstart⟩ :=
    h.header_stands (h.ne_root_of_parent hp) hc
  have hslice := Text.slice_append (before ++ header) gap rest
  rw [Text.bytes_append, List.append_assoc, ← hsource, hstart] at hslice
  rw [hspan, hslice]
  exact ⟨by simp only; omega, hgap⟩

end Bounded
end BlockTree

namespace Visit

variable {source : Text} {t : BlockTree} {id cursor : Nat} {cs : List BlockId}
  {inside : BlockId → List Visit}

/-- **Along a block a statement is apart from the header of every child** that gets over no
sibling. -/
theorem apart_of_mem_along (h : t.Headed source) (hid : id < t.size) {v : Visit} :
    ∀ {cs : List BlockId} {cursor : Nat}, Ahead source t id cursor cs →
      v ∈ along t source id inside cursor cs →
      (v.block = id ∧ cursor ≤ v.span.start ∧ ∀ c ∈ cs, t.ClearOf cs c →
        v.span.stop ≤ (t.get c).claimed.start ∨ (t.get c).span.stop ≤ v.span.start) ∨
      ∃ c ∈ cs, v ∈ inside c
  | [], cursor, ha, hv => by
    rw [along_nil] at hv
    have hin := (ofSpan_ordered id ha.fresh.border (h.border_body_stop hid)).inside v hv
    exact .inl ⟨block_of_mem_ofSpan hv, hin.1, fun c hc => absurd hc List.not_mem_nil⟩
  | d :: ds, cursor, ha, hv => by
    obtain ⟨-, -, hheader, hcursor, hopen, hbody, hclose, -⟩ := ha.head h
    obtain ⟨hhead, -⟩ := List.pairwise_cons.mp ha.ordered
    rw [along_cons, List.mem_append, List.mem_append] at hv
    rcases hv with hv | hv | hv
    · -- a segment ends where the header of the next child starts
      have hin := (ofSpan_ordered id ha.fresh.border hheader.border_claimed_start).inside v hv
      refine .inl ⟨block_of_mem_ofSpan hv, hin.1, fun c hc hclear => .inl ?_⟩
      rcases List.mem_cons.mp hc with rfl | hc
      · exact hin.2.2
      · have hnext := hclear d List.mem_cons_self (hhead c hc)
        have hclaimed : (t.get d).claimed.start ≤ (t.get d).span.start := Nat.min_le_right _ _
        omega
    · exact .inr ⟨d, List.mem_cons_self, hv⟩
    · rcases apart_of_mem_along h hid (ha.next h) hv with ⟨hblock, hge, hapart⟩ | ⟨c, hc, hv⟩
      · refine .inl ⟨hblock, by omega, fun c hc hclear => ?_⟩
        rcases List.mem_cons.mp hc with rfl | hc
        · exact .inr hge
        · exact hapart c hc fun x hx => hclear x (List.mem_cons_of_mem d hx)
      · exact .inr ⟨c, List.mem_cons_of_mem d hc, hv⟩

/-- **A statement is apart from the header of every child of its block** that gets over no
sibling. -/
theorem apart_of_mem_within (h : t.Headed source) {v : Visit} : ∀ {bound id : Nat}, id < t.size →
    v ∈ within t source bound id → ∀ c ∈ (t.get v.block).children,
      t.ClearOf (t.get v.block).children c →
        v.span.stop ≤ (t.get c).claimed.start ∨ (t.get c).span.stop ≤ v.span.start
  | 0, _, _, hv => absurd hv List.not_mem_nil
  | bound + 1, id, hid, hv => by
    rw [within_succ] at hv
    rcases apart_of_mem_along h hid (.start h hid) hv with ⟨rfl, -, hapart⟩ | ⟨c, hc, hv⟩
    · exact hapart
    · exact apart_of_mem_within h (h.mem_children_iff.mp hc).1 hv

end Visit

namespace Program

variable {source : Text} {sourceId : Nat} {p : Program}

theorem bounded_tree (hp : ofText source sourceId = .ok p) : p.tree.Bounded source := by
  obtain ⟨f, hf, hframes⟩ := exists_sameFrames hp
  obtain ⟨e, he, hsound, hdone⟩ := place_eq_ok hf
  exact hframes.bounded (hsound.bracketed _ he hdone).bounded_classify

/-- A header that holds a block, and a part of a statement, in parentheses. -/
def overlapping : Text := "if (x; a {}) {}".toList

/-- The blocks of `overlapping` as they are placed. -/
def overlappingForest : Forest :=
  ⟨⟨[{ Block.root overlapping with children := [1, 2] },
    { Block.provisional overlapping ⟨9, 11⟩ with parent := some root },
    { Block.provisional overlapping ⟨13, 15⟩ with parent := some root }]⟩, [], [⟨2, 2⟩]⟩

/-- The blocks of `overlapping` in order. -/
def overlappingTree : BlockTree :=
  ⟨[{ Block.root overlapping with children := [1, 2], lines := ⟨0, 1⟩ },
    { Block.provisional overlapping ⟨9, 11⟩ with parent := some root, lines := ⟨0, 1⟩ },
    { Block.provisional overlapping ⟨13, 15⟩ with parent := some root, lines := ⟨0, 1⟩ }]⟩

theorem ofText_overlapping :
    ofText overlapping 0 = .ok (ofTree overlapping 0 overlappingTree) := by
  have hplace : place overlapping = .ok overlappingForest := by cbv
  have hfinish : overlappingForest.finish (Line.ofSource overlapping) = overlappingTree := by cbv
  rw [ofText_of_place 0 hplace, hfinish]

/-- **Headers are apart from siblings and statements, unless they have caught a brace.** The
children of a block stand one behind the other, and the header of each lies in the body of the
parent, with nothing but blanks between it and its opening brace. What one child takes ends before
what a later one takes exactly if the closing brace of the former is not caught in the header of the
latter. And no byte of a header is in a sibling or in a statement of the parent exactly if no
sibling before it is caught in it. -/
theorem headers_apart_iff (hp : ofText source sourceId = .ok p) (id : Nat) :
    ((p.tree.get id).children.Pairwise fun d c =>
      (p.tree.get d).span.stop ≤ (p.tree.get c).span.start ∧
        ((p.tree.get d).claimed.stop ≤ (p.tree.get c).claimed.start ↔
          ¬ p.tree.Caught source d c)) ∧
    ∀ c ∈ (p.tree.get id).children,
      (p.tree.get c).claimed = ⟨(p.tree.get c).headerSpan.start, (p.tree.get c).span.stop⟩ ∧
      (p.tree.get id).body.start ≤ (p.tree.get c).headerSpan.start ∧
      (p.tree.get c).headerSpan.stop ≤ (p.tree.get c).span.start ∧
      Text.isBlankText (Text.slice source
        ⟨(p.tree.get c).headerSpan.stop, (p.tree.get c).span.start⟩) = true ∧
      ((∀ o, (p.tree.get c).headerSpan.covers o = true →
          (∀ d ∈ (p.tree.get id).children, (p.tree.get d).span.covers o = false) ∧
          ∀ v ∈ Visit.all p.tree source, v.block = id → v.span.covers o = false) ↔
        ∀ d ∈ (p.tree.get id).children, (p.tree.get d).span.stop ≤ (p.tree.get c).span.start →
          ¬ p.tree.Caught source d c) := by
  have h := bounded_tree hp
  refine ⟨(h.ordered id).imp_of_mem fun {d c} hd hc hle => ⟨hle, ?_⟩, fun c hc => ?_⟩
  · obtain ⟨hdlt, hdp⟩ := h.mem_children_iff.mp hd
    obtain ⟨hclt, hcp⟩ := h.mem_children_iff.mp hc
    rw [h.claimed_eq hclt hcp, h.claimed_eq hdlt hdp]
    exact h.stop_le_iff hclt hcp hdlt hdp hle
  · obtain ⟨hclt, hcp⟩ := h.mem_children_iff.mp hc
    have hclaimed := h.claimed_eq hclt hcp
    have hstart : (p.tree.get c).claimed.start = (p.tree.get c).headerSpan.start := by rw [hclaimed]
    obtain ⟨hstop, hblank⟩ := h.isBlankText_gap hclt hcp
    have hlen := (h.body_eq (h.ne_root_of_parent hcp) hclt).1
    refine ⟨hclaimed, (h.header_bounded hclt hcp).floor_le, hstop, hblank, ?_⟩
    simp only [← Bool.not_eq_true, Span.covers_iff]
    constructor
    · -- a brace that is caught is a byte of the header and of the sibling
      intro hapart d hd hle
      obtain ⟨hdlt, hdp⟩ := h.mem_children_iff.mp hd
      rw [← h.stop_le_iff hclt hcp hdlt hdp hle]
      by_contra hover
      obtain ⟨-, -, hbefore, hpos⟩ := h.close_mem hclt hcp hdlt hdp hle
      have hdlen := (h.body_eq (h.ne_root_of_parent hdp) hdlt).1
      exact (hapart ((p.tree.get d).span.stop - 1) ⟨by omega, hbefore⟩).1 d hd
        ⟨by omega, by omega⟩
    · intro hnone o ho
      have hclear : p.tree.ClearOf (p.tree.get id).children c := fun d hd hle => by
        obtain ⟨hdlt, hdp⟩ := h.mem_children_iff.mp hd
        rw [hstart]
        exact (h.stop_le_iff hclt hcp hdlt hdp hle).mpr (hnone d hd hle)
      refine ⟨fun d hd hdo => ?_, fun v hv hblock hvo => ?_⟩
      · -- a sibling before the child ends before its header, one behind it starts too late
        rcases h.siblings_apart hd hc with rfl | hle | hle
        · omega
        · have := hclear d hd hle
          omega
        · omega
      · subst hblock
        have := Visit.apart_of_mem_within h.toHeaded h.size_pos hv c hc hclear
        omega

/-- The first block is caught in the header of the second one, which holds a part of a statement of
the parent as well. Nothing is caught in the header of the first one. -/
theorem headers_apart_iff_of_overlapping : ∃ p, ofText overlapping 0 = .ok p ∧
    (p.tree.get root).children = [1, 2] ∧ p.tree.Caught overlapping 1 2 ∧
    (p.tree.get 1).claimed = ⟨7, 11⟩ ∧ (p.tree.get 2).claimed = ⟨0, 15⟩ ∧
    ¬ (p.tree.get 1).claimed.stop ≤ (p.tree.get 2).claimed.start ∧
    (∃ v ∈ Visit.all p.tree overlapping, v.block = root ∧
      (p.tree.get 2).headerSpan.covers 0 = true ∧ v.span.covers 0 = true) ∧
    ∀ o, (p.tree.get 1).headerSpan.covers o = true → (p.tree.get 2).span.covers o = false := by
  have hchildren : ((ofTree overlapping 0 overlappingTree).tree.get root).children = [1, 2] := by
    decide +kernel
  have hcaught : (ofTree overlapping 0 overlappingTree).tree.Caught overlapping 1 2 := by
    unfold BlockTree.Caught
    decide +kernel
  obtain ⟨hpair, hchild⟩ := headers_apart_iff ofText_overlapping root
  rw [hchildren] at hpair hchild
  have hapart := (List.rel_of_pairwise_cons hpair (List.mem_singleton_self 2)).2
  -- no sibling stands before the first block
  obtain ⟨-, -, -, -, hclear⟩ := hchild 1 List.mem_cons_self
  have hfirst := hclear.mpr fun d hd hle => absurd hle (by
    rcases List.mem_pair.mp hd with rfl | rfl <;> decide +kernel)
  exact ⟨_, ofText_overlapping, hchildren, hcaught, by decide +kernel, by decide +kernel,
    fun hle => hapart.mp hle hcaught,
    ⟨⟨root, ⟨0, 6⟩, "if (x;".toList⟩, by decide +kernel, rfl, by decide +kernel, rfl⟩,
    fun o ho => (hfirst o ho).1 2 (List.mem_cons_of_mem 1 (List.mem_singleton_self 2))⟩

end Program
end BraceTree
