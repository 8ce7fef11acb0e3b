import Mathlib.Data.List.Perm.Subperm
import BraceTree.Proofs.Hierarchy.Forest

/-!
# Rounds

A round places all blocks of the frontier, and there is always one: among the blocks that wait for a
place a shortest one holds no other. Blocks that are made on the way have their braces in the list,
and no span is made twice, so there is an end to making them (`Sound.size_le`). Every round
therefore takes one of a bounded number of blocks off the list, and the bound that `Forest.build`
runs with is never reached (`Sound.settle_cases`).
-/

namespace BraceTree

/-- **What is reported when a block cannot be placed**: a span that was come across, and around
which the braces cannot be told. -/
structure Extraction.Misplaced (e : Extraction) (finding : Finding) : Prop where
  reached : e.Reached finding.span
  exists_misfit : ∃ m, Brace.enclosing? e.braces finding.span = .error m
  code : finding.problem.code = .ambiguousHierarchy

namespace Forest

open BlockTree (root)

variable {source : Text} {e : Extraction} {f f' f'' : Forest}

/-! ## Placing blocks one after the other -/

/-- **What placing some blocks does to a forest**: it takes them off the list of those that wait,
and leaves the spans of all blocks as they are. -/
structure Placing (f f' : Forest) (ids : List BlockId) : Prop where
  size_le : f.tree.size ≤ f'.tree.size
  span_eq : ∀ {id : Nat}, id < f.tree.size → f'.span id = f.span id
  mem_unplaced : ∀ {id : Nat}, id ∈ f.unplaced → id ∉ ids → id ∈ f'.unplaced
  /-- Each block that is placed waits no longer, and each that is made does. -/
  count : f'.tree.size + f.unplaced.length = f.tree.size + f'.unplaced.length + ids.length

namespace Placing

theorem refl (f : Forest) : Placing f f [] :=
  ⟨Nat.le_refl _, fun _ => rfl, fun h _ => h, by simp⟩

theorem trans {ids ids' : List BlockId} (h : Placing f f' ids) (h' : Placing f' f'' ids') :
    Placing f f'' (ids ++ ids') where
  size_le := Nat.le_trans h.size_le h'.size_le
  span_eq := fun hid => by
    rw [h'.span_eq (Nat.lt_of_lt_of_le hid h.size_le), h.span_eq hid]
  mem_unplaced := fun hid hni => by
    rw [List.mem_append, not_or] at hni
    exact h'.mem_unplaced (h.mem_unplaced hid hni.1) hni.2
  count := by
    have := h.count
    have := h'.count
    rw [List.length_append]
    omega

theorem hang {p c : Nat} (hp : p < f.tree.size) (hcs : c < f.tree.size) (hc : c ∈ f.unplaced) :
    Placing f (f.hang p c) [c] where
  size_le := by simp
  span_eq := fun _ => span_hang hp hcs _
  mem_unplaced := fun hid hni =>
    (List.mem_erase_of_ne (by simpa using hni)).mpr hid
  count := by
    have := List.length_erase_of_mem hc
    have := List.length_pos_of_mem hc
    rw [size_hang]
    show _ = _ + (f.unplaced.erase c).length + 1
    omega

theorem make (f : Forest) (source : Text) (s : Span) : Placing f (f.make source s) [] where
  size_le := by simp
  span_eq := fun hid => span_make_lt source s hid
  mem_unplaced := fun hid _ => List.mem_append_left _ hid
  count := by
    rw [size_make]
    show _ = _ + (f.unplaced ++ [f.tree.size]).length + 0
    rw [List.length_append, List.length_singleton]
    omega

end Placing

namespace Sound

/-- **Placing a block keeps the invariant**, if it goes where the braces around it say. -/
theorem place (h : f.Sound source e) {c : Nat} {parent : Option Span} (hc : c ∈ f.unplaced)
    (hpar : Brace.enclosing? e.braces (f.span c) = .ok parent) :
    (f.place source parent c).Sound source e ∧ Placing f (f.place source parent c) [c] := by
  obtain ⟨hcroot, hcs, -⟩ := h.mem_unplaced_iff.mp hc
  have hpos := h.root_lt
  cases parent with
  | none =>
    rw [place_none]
    exact ⟨h.hang hc hpos (by rw [hpar, if_pos rfl]), .hang hpos hcs hc⟩
  | some s =>
    rw [place_some]
    split
    · rename_i id hid
      obtain ⟨hroot, hlt, hspan⟩ := withSpan?_eq_some hid
      exact ⟨h.hang hc hlt (by rw [hpar, if_neg hroot, hspan]), .hang hlt hcs hc⟩
    · rename_i hnone
      have hmake := h.make (.around (h.reached hcroot hcs) hpar) hnone
      have hc' : c ∈ (f.make source s).unplaced := List.mem_append_left _ hc
      have hlt : f.tree.size < (f.make source s).tree.size := by simp
      refine ⟨hmake.hang hc' hlt ?_, (Placing.make f source s).trans
        (.hang hlt (by rw [size_make]; omega) hc')⟩
      rw [span_make_lt source s hcs, span_make_size, hpar,
        if_neg (Nat.ne_of_gt hpos : f.tree.size ≠ root)]

/-- Placing blocks one after the other keeps the invariant. -/
theorem places : ∀ {ps : List (Option Span × BlockId)} {f : Forest}, f.Sound source e →
    (ps.map (·.2)).Nodup →
    (∀ q ∈ ps, q.2 ∈ f.unplaced ∧ Brace.enclosing? e.braces (f.span q.2) = .ok q.1) →
    (ps.foldl (fun f p => f.place source p.1 p.2) f).Sound source e ∧
      Placing f (ps.foldl (fun f p => f.place source p.1 p.2) f) (ps.map (·.2))
  | [], f, h, _, _ => ⟨h, .refl f⟩
  | (parent, c) :: ps, f, h, hnd, hps => by
    obtain ⟨hc, hpar⟩ := hps _ List.mem_cons_self
    obtain ⟨hsound, hplacing⟩ := h.place hc hpar
    rw [List.map_cons, List.nodup_cons] at hnd
    obtain ⟨hsound', hplacing'⟩ := places hsound hnd.2 fun q hq => by
      obtain ⟨hmem, henc⟩ := hps q (List.mem_cons_of_mem _ hq)
      have hne : q.2 ∉ [c] := by
        rw [List.mem_singleton]
        rintro rfl
        exact hnd.1 (List.mem_map_of_mem (f := (·.2)) hq)
      exact ⟨hplacing.mem_unplaced hmem hne, by
        rw [hplacing.span_eq (h.lt_size_of_mem_unplaced hmem), henc]⟩
    exact ⟨hsound', hplacing.trans hplacing'⟩

end Sound

/-! ## The frontier -/

theorem mem_frontier_iff {id : Nat} : id ∈ f.frontier ↔
    id ∈ f.unplaced ∧ ∀ other ∈ f.unplaced, ¬ (f.span id).encloses (f.span other) := by
  simp [frontier]

theorem Sound.frontier_nodup (h : f.Sound source e) : f.frontier.Nodup :=
  (List.mergeSort_perm _ _).nodup_iff.mpr (h.unplaced_nodup.filter _)

/-- **Some block of the frontier waits wherever a block waits**: one that holds no other. -/
theorem Sound.frontier_ne_nil (he : e.Proper source) (h : f.Sound source e)
    (hne : f.unplaced ≠ []) : f.frontier ≠ [] := by
  -- as long as a block holds another one, that one is shorter
  have hstep : ∀ n : Nat, ∀ id ∈ f.unplaced, (f.span id).length = n → f.frontier ≠ [] := by
    intro n
    induction n using Nat.strongRecOn with
    | ind n ih =>
      intro id hid hlen
      by_cases hfront : ∀ other ∈ f.unplaced, ¬ (f.span id).encloses (f.span other)
      · exact List.ne_nil_of_mem (mem_frontier_iff.mpr ⟨hid, hfront⟩)
      · obtain ⟨other, hother, henc⟩ : ∃ other ∈ f.unplaced,
            (f.span id).encloses (f.span other) := by
          simpa using hfront
        obtain ⟨hstart, hstop, hneq⟩ := Span.encloses_iff.mp henc
        obtain ⟨hroot, hlt, -⟩ := h.mem_unplaced_iff.mp hother
        have := he.long_of_reached (h.reached hroot hlt)
        have hdiff : (f.span id).start ≠ (f.span other).start ∨
            (f.span id).stop ≠ (f.span other).stop := by
          by_contra hboth
          rw [not_or, Decidable.not_not, Decidable.not_not] at hboth
          exact hneq (by
            cases hi : f.span id
            cases ho : f.span other
            simp_all)
        refine ih _ ?_ other hother rfl
        rw [← hlen]
        simp only [Span.length]
        omega
  obtain ⟨id, hid⟩ := List.exists_mem_of_ne_nil _ hne
  exact hstep _ id hid rfl

/-! ## One round -/

/-- **The search for the parents of some blocks** finds all of them, or it ends at a block around
which the braces cannot be told. -/
theorem parents_cases (source : Text) (braces : List Brace) (f : Forest) (ids : List BlockId) :
    (∃ ps, f.parents source braces ids = .ok ps ∧ ps.map (·.2) = ids ∧
      ∀ q ∈ ps, Brace.enclosing? braces (f.span q.2) = .ok q.1) ∨
    ∃ id ∈ ids, ∃ m, Brace.enclosing? braces (f.span id) = .error m ∧
      f.parents source braces ids = .error (f.misfit source id m) := by
  induction ids with
  | nil => exact .inl ⟨[], rfl, rfl, by simp⟩
  | cons id ids ih =>
    rw [parents]
    cases hid : Brace.enclosing? braces (f.span id) with
    | error m => exact .inr ⟨id, List.mem_cons_self, m, hid, rfl⟩
    | ok p =>
      dsimp only
      rcases ih with ⟨ps, hps, hmap, hall⟩ | ⟨other, hother, m, hm, hps⟩
      · refine .inl ⟨(p, id) :: ps, by rw [hps]; rfl, by rw [List.map_cons, hmap], fun q hq => ?_⟩
        rcases List.mem_cons.mp hq with rfl | hq
        · exact hid
        · exact hall q hq
      · exact .inr ⟨other, List.mem_cons_of_mem _ hother, m, hm, by rw [hps]; rfl⟩

/-- The rounds counted so far are no part of the invariant. -/
theorem Sound.withRounds (h : f.Sound source e) (rs : List Round) :
    Sound source e { f with rounds := rs } :=
  { h with }

/-- **A round keeps the invariant and places the whole frontier**, or it reports a block that it has
come across and around which the braces cannot be told. -/
theorem Sound.round_cases (h : f.Sound source e) :
    (∃ f' ids, f.round source e.braces = .ok f' ∧ f'.Sound source e ∧ Placing f f' ids ∧
      ids.length = f.frontier.length) ∨
    ∃ finding, f.round source e.braces = .error finding ∧ e.Misplaced finding := by
  rcases parents_cases source e.braces f f.frontier with ⟨ps, hps, hmap, hall⟩ | hfail
  · -- the order in which a round serves the parents does not matter here
    have hperm := List.mergeSort_perm ps fun a b => parentPrecedes a.1 b.1
    have hids : ((ps.mergeSort fun a b => parentPrecedes a.1 b.1).map (·.2)).Perm f.frontier :=
      hmap ▸ hperm.map _
    obtain ⟨hsound, hplacing⟩ := (h.withRounds (f.rounds ++
        [⟨f.unplaced.length, f.frontier.length⟩])).places (hids.nodup_iff.mpr h.frontier_nodup)
      fun q hq => ⟨(mem_frontier_iff.mp (hids.mem_iff.mp (List.mem_map_of_mem hq))).1,
        hall q (hperm.mem_iff.mp hq)⟩
    refine .inl ⟨_, _, ?_, hsound, ⟨hplacing.size_le, hplacing.span_eq, hplacing.mem_unplaced,
      hplacing.count⟩, hids.length_eq⟩
    rw [Forest.round, hps]
    rfl
  · obtain ⟨id, hid, m, hm, hps⟩ := hfail
    obtain ⟨hroot, hlt, -⟩ := h.mem_unplaced_iff.mp (mem_frontier_iff.mp hid).1
    refine .inr ⟨f.misfit source id m, by rw [Forest.round, hps]; rfl, ?_⟩
    cases m <;> exact ⟨h.reached hroot hlt, ⟨_, hm⟩, rfl⟩

/-! ## All rounds -/

/-- **There is a bound on the number of blocks.** Those that were not given have spans from one
brace of the list to another, no span twice. -/
theorem Sound.size_le (he : e.Proper source) (h : f.Sound source e) :
    f.tree.size ≤ e.spans.length + e.braces.length * e.braces.length + 1 := by
  have hsize := h.size_gt
  let made := (List.range' (e.spans.length + 1) (f.tree.size - (e.spans.length + 1))).map f.span
  have hmem : ∀ id ∈ List.range' (e.spans.length + 1) (f.tree.size - (e.spans.length + 1)),
      e.spans.length < id ∧ id < f.tree.size := fun id hid => by
    rw [List.mem_range'_1] at hid
    omega
  have hnodup : made.Nodup := List.Nodup.map_on
    (fun i hi j hj he => h.made_inj (hmem i hi).1 (hmem i hi).2 (hmem j hj).1 (hmem j hj).2 he)
    List.nodup_range'
  have hsub : made ⊆ e.braces.flatMap fun a => e.braces.map fun b => ⟨a.offset, b.offset + 1⟩ := by
    intro s hs
    obtain ⟨id, hid, rfl⟩ := List.mem_map.mp hs
    obtain ⟨hn, hlt⟩ := hmem id hid
    have hroot : id ≠ root := by
      rintro rfl
      exact Nat.not_lt_zero _ hn
    cases h.reached hroot hlt with
    | given hg => exact absurd hg (h.made hn hlt)
    | around hs henc =>
      have := he.long_of_reached hs
      obtain ⟨-, -, a, ha, b, hb, hp⟩ := Brace.around_of_enclosing? he.sorted (by omega) henc
      rw [hp]
      exact List.mem_flatMap.mpr ⟨a, ha, List.mem_map_of_mem hb⟩
  have hlen := (hnodup.subperm hsub).length_le
  rw [List.length_flatMap, List.length_map, List.length_range'] at hlen
  simp only [List.length_map, List.map_const', List.sum_replicate_nat] at hlen
  omega

/-- **More rounds change nothing** once every block has its place, or once a round has failed. -/
theorem settle_eq_of_le {braces : List Brace} {r : Except Finding Forest}
    (hr : ∀ f', r = .ok f' → f'.unplaced = []) : ∀ {bound : Nat} {f : Forest} (k : Nat),
    settle source braces bound f = r → settle source braces (bound + k) f = r
  | 0, f, k, h => by
    have hdone : f.unplaced = [] := hr f h.symm
    rw [← h]
    cases k with
    | zero => rfl
    | succ k =>
      show (if f.unplaced.isEmpty then Except.ok f else _) = Except.ok f
      rw [hdone]
      rfl
  | bound + 1, f, k, h => by
    rw [Nat.add_right_comm]
    rw [settle] at h ⊢
    split
    · rename_i hempty
      rwa [if_pos hempty] at h
    · rename_i hempty
      rw [if_neg hempty] at h
      cases hround : f.round source braces with
      | error p =>
        rw [hround] at h
        exact h
      | ok f₁ =>
        rw [hround] at h
        exact settle_eq_of_le hr k h

theorem settle_add {braces : List Brace} {bound : Nat} {f f' : Forest} (k : Nat)
    (h : settle source braces bound f = .ok f') (hf' : f'.unplaced = []) :
    settle source braces (bound + k) f = .ok f' :=
  settle_eq_of_le (fun f'' he => by rwa [← Except.ok.inj he]) k h

/-- **The rounds end before the bound does**: all blocks get their places, or a round fails. -/
theorem Sound.settle_cases (he : e.Proper source) :
    ∀ {bound : Nat} {f : Forest}, f.Sound source e →
      e.spans.length + e.braces.length * e.braces.length + f.unplaced.length + 1 <
        f.tree.size + bound →
      (∃ f', settle source e.braces bound f = .ok f' ∧ f'.Sound source e ∧ f'.unplaced = []) ∨
      ∃ finding, settle source e.braces bound f = .error finding ∧ e.Misplaced finding
  | 0, f, h, hbound => by
    have := h.size_le he
    omega
  | bound + 1, f, h, hbound => by
    rw [settle]
    split
    · rename_i hempty
      exact .inl ⟨f, rfl, h, List.isEmpty_iff.mp hempty⟩
    · rename_i hempty
      rcases h.round_cases with ⟨f₁, ids, hround, hsound, hplacing, hlen⟩ | ⟨finding, hround, hmis⟩
      · have hpos := List.length_pos_iff.mpr (h.frontier_ne_nil he (by simpa using hempty))
        have := hplacing.count
        rw [hround]
        exact Sound.settle_cases he hsound (by omega)
      · rw [hround]
        exact .inr ⟨finding, rfl, hmis⟩

/-- All blocks get their places, if no search for the braces around a span fails. -/
theorem Sound.settle_eq_ok (he : e.Proper source)
    (hno : ∀ s, e.Reached s → ∃ p, Brace.enclosing? e.braces s = .ok p) {bound : Nat} {f : Forest}
    (h : f.Sound source e)
    (hbound : e.spans.length + e.braces.length * e.braces.length + f.unplaced.length + 1 <
      f.tree.size + bound) :
    ∃ f', settle source e.braces bound f = .ok f' ∧ f'.Sound source e ∧ f'.unplaced = [] := by
  refine (h.settle_cases he hbound).resolve_right ?_
  rintro ⟨finding, -, hreached, ⟨m, hm⟩, -⟩
  obtain ⟨p, hp⟩ := hno _ hreached
  rw [hm] at hp
  exact absurd hp (by simp)

end Forest
end BraceTree
