import BraceTree.Proofs.Block.Nested
import BraceTree.Proofs.Brace.Matching

/-!
# Forests on their way to a tree

Placing blocks starts with a list of spans and a list of braces that need not belong together. What
every step preserves is collected in `Forest.Sound`: the given blocks keep their places and spans, a
block that was made has a span that no other block has, and a placed block hangs where the nearest
braces around it say.

A step is taken apart into the two things it can do. It may *make* the block around another one, and
it *hangs* one block under another. Each keeps the invariant by itself (`Sound.make`, `Sound.hang`).
-/

namespace BraceTree

namespace Brace

theorem mem_of_unmatchedOpen? {o : Nat} : ∀ {bs : List Brace} {n : Nat},
    unmatchedOpen? n bs = some o → (⟨o, true⟩ : Brace) ∈ bs
  | ⟨p, true⟩ :: bs, 0, h => by
    obtain rfl : p = o := by simpa [unmatchedOpen?] using h
    exact List.mem_cons_self
  | ⟨_, true⟩ :: bs, n + 1, h => List.mem_cons_of_mem _ (mem_of_unmatchedOpen? (n := n) h)
  | ⟨_, false⟩ :: bs, n, h => List.mem_cons_of_mem _ (mem_of_unmatchedOpen? (n := n + 1) h)

theorem mem_of_unmatchedClose? {c : Nat} : ∀ {bs : List Brace} {n : Nat},
    unmatchedClose? n bs = some c → (⟨c, false⟩ : Brace) ∈ bs
  | ⟨p, false⟩ :: bs, 0, h => by
    obtain rfl : p = c := by simpa [unmatchedClose?] using h
    exact List.mem_cons_self
  | ⟨_, false⟩ :: bs, n + 1, h => List.mem_cons_of_mem _ (mem_of_unmatchedClose? (n := n) h)
  | ⟨_, true⟩ :: bs, n, h => List.mem_cons_of_mem _ (mem_of_unmatchedClose? (n := n + 1) h)

/-- **What is found around a span lies around it**, and starts and ends with braces of the list. -/
theorem around_of_enclosing? {bs : List Brace} {s p : Span} (hs : Sorted bs) (hpos : 0 < s.stop)
    (h : enclosing? bs s = .ok (some p)) :
    p.start < s.start ∧ s.stop < p.stop ∧
      ∃ a ∈ bs, ∃ b ∈ bs, p = ⟨a.offset, b.offset + 1⟩ := by
  unfold enclosing? at h
  split at h
  · rename_i first last hfirst hlast
    split at h
    · rename_i o c ho hc
      obtain rfl : ⟨o, c + 1⟩ = p := by simpa using h
      have ho := List.mem_reverse.mp (mem_of_unmatchedOpen? ho)
      have hc := mem_of_unmatchedClose? hc
      obtain ⟨hfirst, hfoff, -⟩ := List.findIdx?_eq_some_iff_getElem.mp hfirst
      obtain ⟨hlast, hloff, -⟩ := List.findIdx?_eq_some_iff_getElem.mp hlast
      have hfoff : bs[first].offset = s.start := by simpa using hfoff
      have hloff : bs[last].offset = s.stop - 1 := by simpa using hloff
      have hsf : Sorted (bs.take first ++ bs[first] :: bs.drop (first + 1)) := by
        rwa [List.getElem_cons_drop, List.take_append_drop]
      have hsl : Sorted (bs.take last ++ bs[last] :: bs.drop (last + 1)) := by
        rwa [List.getElem_cons_drop, List.take_append_drop]
      have h₁ : o < bs[first].offset := hsf.lt_of_mem_left ho
      have h₂ : bs[last].offset < c := hsl.lt_of_mem_right hc
      exact ⟨by simp only; omega, by simp only; omega, _, List.mem_of_mem_take ho, _,
        List.mem_of_mem_drop hc, rfl⟩
    · exact absurd h (by simp)
    · exact absurd h (by simp)
  · exact absurd h (by simp)

end Brace

namespace Extraction

/-- The spans that placing the blocks of an extraction comes across: the given ones, and whatever
lies next around a span come across before. -/
inductive Reached (e : Extraction) : Span → Prop where
  | given {s : Span} (h : s ∈ e.spans) : Reached e s
  | around {s p : Span} (hs : Reached e s)
    (h : Brace.enclosing? e.braces s = .ok (some p)) : Reached e p

/-- An extraction over a source: the spans are blocks of the source, and the braces stand in it one
behind the other. -/
structure Proper (source : Text) (e : Extraction) : Prop where
  /-- The braces stand in the order of the source. -/
  sorted : Brace.Sorted e.braces
  /-- A block has two braces. -/
  long : ∀ s ∈ e.spans, s.start + 2 ≤ s.stop
  /-- The blocks lie in the source. -/
  spans_inside : ∀ s ∈ e.spans, s.stop ≤ source.bytes
  /-- The braces lie in the source. -/
  braces_inside : ∀ b ∈ e.braces, b.offset < source.bytes

theorem Proper.long_of_reached {source : Text} {e : Extraction} (he : e.Proper source) {s : Span}
    (h : e.Reached s) : s.start + 2 ≤ s.stop := by
  induction h with
  | given h => exact he.long _ h
  | around _ h ih =>
    have := Brace.around_of_enclosing? he.sorted (by omega) h
    omega

theorem Proper.inside_of_reached {source : Text} {e : Extraction} (he : e.Proper source) {s : Span}
    (h : e.Reached s) : s.stop ≤ source.bytes := by
  cases h with
  | given h => exact he.spans_inside _ h
  | around hs h =>
    have := he.long_of_reached hs
    obtain ⟨-, -, -, -, b, hb, rfl⟩ := Brace.around_of_enclosing? he.sorted (by omega) h
    exact he.braces_inside b hb

end Extraction

namespace Forest

open BlockTree (root)

/-- **What placing blocks keeps.** -/
structure Sound (source : Text) (e : Extraction) (f : Forest) : Prop where
  /-- The root and the given blocks are there. -/
  size_gt : e.spans.length < f.tree.size
  /-- The root is the block of the source, its children aside. -/
  root_unlinked : (f.tree.get root).unlinked = Block.root source
  /-- The root is never placed. -/
  root_parent : (f.tree.get root).parent = none
  /-- Every other block is the block of its span, its links aside. -/
  unlinked : ∀ {id : Nat}, id ≠ root → id < f.tree.size →
    (f.tree.get id).unlinked = Block.provisional source (f.span id)
  /-- The given blocks come first, with the given spans. -/
  given : ∀ {i : Nat} {s : Span}, e.spans[i]? = some s → f.span (i + 1) = s
  /-- A block that was made has no given span. -/
  made : ∀ {id : Nat}, e.spans.length < id → id < f.tree.size → f.span id ∉ e.spans
  /-- No span was made twice. -/
  made_inj : ∀ {i j : Nat}, e.spans.length < i → i < f.tree.size → e.spans.length < j →
    j < f.tree.size → f.span i = f.span j → i = j
  /-- Every span was come across. -/
  reached : ∀ {id : Nat}, id ≠ root → id < f.tree.size → e.Reached (f.span id)
  unplaced_nodup : f.unplaced.Nodup
  /-- The blocks that wait for a place are those without a parent, the root aside. -/
  mem_unplaced_iff : ∀ {id : Nat},
    id ∈ f.unplaced ↔ id ≠ root ∧ id < f.tree.size ∧ (f.tree.get id).parent = none
  /-- A block hangs under the block of the nearest braces around it, under the root if there are
  none. -/
  placed : ∀ {c p : Nat}, c < f.tree.size → (f.tree.get c).parent = some p → p < f.tree.size ∧
    Brace.enclosing? e.braces (f.span c) = .ok (if p = root then none else some (f.span p))
  /-- The children of a block are those that have it as their parent. -/
  mem_children_iff : ∀ {p c : Nat},
    c ∈ (f.tree.get p).children ↔ c < f.tree.size ∧ (f.tree.get c).parent = some p
  children_nodup : ∀ p : Nat, (f.tree.get p).children.Nodup

/-! ## The two parts of a step -/

/-- Hangs a block under another one. -/
def hang (f : Forest) (p c : BlockId) : Forest :=
  { f with tree := f.tree.attach p c, unplaced := f.unplaced.erase c }

/-- Makes a block, which then waits for a place. -/
def make (source : Text) (f : Forest) (s : Span) : Forest :=
  { f with
    tree := f.tree.push (.provisional source s)
    unplaced := f.unplaced ++ [f.tree.size] }

theorem place_none (source : Text) (f : Forest) (c : BlockId) :
    f.place source none c = f.hang root c := rfl

theorem place_some (source : Text) (f : Forest) (s : Span) (c : BlockId) :
    f.place source (some s) c =
      match f.withSpan? s with
      | some id => f.hang id c
      | none => (f.make source s).hang f.tree.size c := by
  unfold place
  dsimp only
  cases f.withSpan? s <;> rfl

theorem withSpan?_eq_some {f : Forest} {s : Span} {id : Nat} (h : f.withSpan? s = some id) :
    id ≠ root ∧ id < f.tree.size ∧ f.span id = s := by
  unfold withSpan? at h
  have hmem := List.mem_of_find?_eq_some h
  have hspan := List.find?_some h
  simp only [List.mem_filter, List.mem_reverse, List.mem_range] at hmem
  exact ⟨by simpa using hmem.2, hmem.1, by simpa using hspan⟩

theorem withSpan?_eq_none {f : Forest} {s : Span} (h : f.withSpan? s = none) {id : Nat}
    (hroot : id ≠ root) (hid : id < f.tree.size) : f.span id ≠ s := by
  unfold withSpan? at h
  have := List.find?_eq_none.mp h id (by simp [hid, hroot])
  simpa using this

@[simp] theorem size_hang (f : Forest) (p c : BlockId) : (f.hang p c).tree.size = f.tree.size :=
  f.tree.size_attach p c

@[simp] theorem size_make (source : Text) (f : Forest) (s : Span) :
    (f.make source s).tree.size = f.tree.size + 1 :=
  f.tree.size_push _

theorem span_hang {f : Forest} {p c : Nat} (hp : p < f.tree.size) (hc : c < f.tree.size)
    (id : Nat) : (f.hang p c).span id = f.span id :=
  f.tree.span_attach hp hc id

theorem span_make_lt (source : Text) {f : Forest} (s : Span) {id : Nat} (hid : id < f.tree.size) :
    (f.make source s).span id = f.span id :=
  congrArg Block.span (f.tree.get_push_lt _ hid)

theorem span_make_size (source : Text) (f : Forest) (s : Span) :
    (f.make source s).span f.tree.size = s :=
  congrArg Block.span (f.tree.get_push_size _)

theorem parent_make (source : Text) (f : Forest) (s : Span) (id : Nat) :
    ((f.make source s).tree.get id).parent = (f.tree.get id).parent :=
  (f.tree.links_push rfl rfl id).1

theorem children_make (source : Text) (f : Forest) (s : Span) (id : Nat) :
    ((f.make source s).tree.get id).children = (f.tree.get id).children :=
  (f.tree.links_push rfl rfl id).2

/-- After a block was made, a block is either an old one or the new one. -/
theorem lt_or_eq_of_lt_size_make {source : Text} {f : Forest} {s : Span} {id : Nat}
    (h : id < (f.make source s).tree.size) : id < f.tree.size ∨ id = f.tree.size := by
  rw [size_make] at h
  exact Nat.lt_succ_iff_lt_or_eq.mp h

namespace Sound

variable {source : Text} {e : Extraction} {f : Forest}

theorem root_lt (h : f.Sound source e) : root < f.tree.size :=
  Nat.lt_of_le_of_lt (Nat.zero_le _) h.size_gt

theorem ne_root_of_parent (h : f.Sound source e) {c p : Nat}
    (hp : (f.tree.get c).parent = some p) : c ≠ root := by
  rintro rfl
  rw [h.root_parent] at hp
  exact absurd hp (by simp)

theorem lt_size_of_mem_unplaced (h : f.Sound source e) {c : Nat} (hc : c ∈ f.unplaced) :
    c < f.tree.size :=
  (h.mem_unplaced_iff.mp hc).2.1

/-- **Hanging a block keeps the invariant**, if the block is hung where the braces around it say. -/
theorem hang (h : f.Sound source e) {p c : Nat} (hc : c ∈ f.unplaced) (hp : p < f.tree.size)
    (hpar : Brace.enclosing? e.braces (f.span c) =
      .ok (if p = root then none else some (f.span p))) :
    (f.hang p c).Sound source e := by
  obtain ⟨hcroot, hclt, hcpar⟩ := h.mem_unplaced_iff.mp hc
  have hspan := fun id => span_hang (f := f) hp hclt id
  have hparent : ∀ id : Nat, ((f.hang p c).tree.get id).parent =
      if id = c then some p else (f.tree.get id).parent := f.tree.parent_attach hp hclt
  have hchildren : ∀ id : Nat, ((f.hang p c).tree.get id).children =
      if id = p then (f.tree.get id).children ++ [c] else (f.tree.get id).children :=
    f.tree.children_attach hp hclt
  have hunlinked : ∀ id : Nat, ((f.hang p c).tree.get id).unlinked = (f.tree.get id).unlinked :=
    f.tree.unlinked_attach hp hclt
  -- the block is nobody's child yet
  have hfresh : ∀ q : Nat, c ∉ (f.tree.get q).children := fun q hmem => by
    rw [h.mem_children_iff, hcpar] at hmem
    exact absurd hmem.2 (by simp)
  refine
    { size_gt := by simpa using h.size_gt
      root_unlinked := by rw [hunlinked]; exact h.root_unlinked
      root_parent := by rw [hparent, if_neg (Ne.symm hcroot)]; exact h.root_parent
      unlinked := fun hr hid => by
        rw [hunlinked, hspan]
        exact h.unlinked hr (by simpa using hid)
      given := fun hi => by rw [hspan]; exact h.given hi
      made := fun hn hid => by rw [hspan]; exact h.made hn (by simpa using hid)
      made_inj := fun hi hi' hj hj' he => by
        rw [hspan, hspan] at he
        exact h.made_inj hi (by simpa using hi') hj (by simpa using hj') he
      reached := fun hr hid => by rw [hspan]; exact h.reached hr (by simpa using hid)
      unplaced_nodup := h.unplaced_nodup.erase c
      mem_unplaced_iff := ?mem_unplaced_iff
      placed := ?placed
      mem_children_iff := ?mem_children_iff
      children_nodup := ?children_nodup }
  case mem_unplaced_iff =>
    intro id
    show id ∈ f.unplaced.erase c ↔ _
    rw [h.unplaced_nodup.mem_erase_iff, h.mem_unplaced_iff, hparent, size_hang]
    by_cases hid : id = c
    · simp [hid]
    · simp [hid]
  case placed =>
    intro x q hx hq
    rw [hparent] at hq
    rw [size_hang, hspan, hspan]
    split at hq
    · rename_i hxc
      obtain rfl := Option.some.inj hq
      exact ⟨hp, hxc ▸ hpar⟩
    · exact h.placed (by simpa using hx) hq
  case mem_children_iff =>
    intro q x
    rw [hchildren, hparent, size_hang]
    by_cases hqp : q = p
    · subst hqp
      rw [if_pos rfl, List.mem_append, List.mem_singleton, h.mem_children_iff]
      by_cases hxc : x = c
      · simp [hxc, hclt]
      · simp [hxc]
    · rw [if_neg hqp, h.mem_children_iff]
      by_cases hxc : x = c
      · subst hxc
        simp [hcpar, Ne.symm hqp]
      · simp [hxc]
  case children_nodup =>
    intro q
    rw [hchildren]
    split
    · exact List.nodup_append.mpr ⟨h.children_nodup q, List.nodup_singleton c, by
        rintro x hx y hy rfl
        exact hfresh q (List.mem_singleton.mp hy ▸ hx)⟩
    · exact h.children_nodup q

/-- A span that no block has is none of the given ones. -/
theorem not_mem_spans (h : f.Sound source e) {s : Span} (hnone : f.withSpan? s = none) :
    s ∉ e.spans := by
  intro hmem
  obtain ⟨i, hi⟩ := List.getElem?_of_mem hmem
  have hlt := (List.getElem?_eq_some_iff.mp hi).1
  have := h.size_gt
  exact withSpan?_eq_none hnone (Nat.succ_ne_zero i) (by omega) (h.given hi)

/-- **Making a block keeps the invariant**, if its span was come across and no block has it. -/
theorem make (h : f.Sound source e) {s : Span} (hs : e.Reached s) (hnone : f.withSpan? s = none) :
    (f.make source s).Sound source e := by
  have hget : ∀ {id : Nat}, id < f.tree.size →
      (f.make source s).tree.get id = f.tree.get id := fun hid => f.tree.get_push_lt _ hid
  have hnew : (f.make source s).tree.get f.tree.size = .provisional source s :=
    f.tree.get_push_size _
  have hspan : ∀ {id : Nat}, id < f.tree.size → (f.make source s).span id = f.span id :=
    fun hid => span_make_lt source s hid
  have hsize := size_make source f s
  refine
    { size_gt := by
        rw [hsize]
        exact Nat.lt_succ_of_lt h.size_gt
      root_unlinked := by
        rw [hget h.root_lt]
        exact h.root_unlinked
      root_parent := by
        rw [parent_make]
        exact h.root_parent
      unlinked := ?unlinked
      given := ?given
      made := ?made
      made_inj := ?made_inj
      reached := ?reached
      unplaced_nodup := ?unplaced_nodup
      mem_unplaced_iff := ?mem_unplaced_iff
      placed := ?placed
      mem_children_iff := ?mem_children_iff
      children_nodup := ?children_nodup }
  case unlinked =>
    intro id hr hid
    rcases lt_or_eq_of_lt_size_make hid with hid | rfl
    · rw [hget hid, hspan hid]
      exact h.unlinked hr hid
    · rw [hnew, span_make_size]
      rfl
  case given =>
    intro i s' hi
    have hlt := (List.getElem?_eq_some_iff.mp hi).1
    have := h.size_gt
    rw [hspan (by omega)]
    exact h.given hi
  case made =>
    intro id hn hid
    rcases lt_or_eq_of_lt_size_make hid with hid | rfl
    · rw [hspan hid]
      exact h.made hn hid
    · rw [span_make_size]
      exact h.not_mem_spans hnone
  case made_inj =>
    intro i j hi hi' hj hj' he
    have hfresh : ∀ {k : Nat}, e.spans.length < k → k < f.tree.size → f.span k ≠ s :=
      fun hk hlt => withSpan?_eq_none hnone (Nat.ne_of_gt (Nat.zero_lt_of_lt hk)) hlt
    rcases lt_or_eq_of_lt_size_make hi' with hi' | rfl <;>
      rcases lt_or_eq_of_lt_size_make hj' with hj' | rfl
    · rw [hspan hi', hspan hj'] at he
      exact h.made_inj hi hi' hj hj' he
    · rw [hspan hi', span_make_size] at he
      exact absurd he (hfresh hi hi')
    · rw [hspan hj', span_make_size] at he
      exact absurd he.symm (hfresh hj hj')
    · rfl
  case reached =>
    intro id hr hid
    rcases lt_or_eq_of_lt_size_make hid with hid | rfl
    · rw [hspan hid]
      exact h.reached hr hid
    · rw [span_make_size]
      exact hs
  case unplaced_nodup =>
    exact List.nodup_append.mpr ⟨h.unplaced_nodup, List.nodup_singleton _, by
      rintro x hx y hy rfl
      exact absurd (List.mem_singleton.mp hy) (Nat.ne_of_lt (h.lt_size_of_mem_unplaced hx))⟩
  case mem_unplaced_iff =>
    intro id
    show id ∈ f.unplaced ++ [f.tree.size] ↔ _
    rw [List.mem_append, List.mem_singleton, h.mem_unplaced_iff, parent_make, hsize]
    constructor
    · rintro (⟨hr, hid, hpar⟩ | rfl)
      · exact ⟨hr, Nat.lt_succ_of_lt hid, hpar⟩
      · refine ⟨Nat.ne_of_gt h.root_lt, Nat.lt_succ_self _, ?_⟩
        rw [f.tree.get_of_size_le (Nat.le_refl _)]
        rfl
    · rintro ⟨hr, hid, hpar⟩
      rcases Nat.lt_succ_iff_lt_or_eq.mp hid with hid | rfl
      · exact .inl ⟨hr, hid, hpar⟩
      · exact .inr rfl
  case placed =>
    intro c p _ hp
    rw [parent_make] at hp
    have hc := f.tree.lt_size_of_parent hp
    obtain ⟨hlt, henc⟩ := h.placed hc hp
    rw [hspan hc, hspan hlt, hsize]
    exact ⟨Nat.lt_succ_of_lt hlt, henc⟩
  case mem_children_iff =>
    intro p c
    rw [children_make, parent_make, h.mem_children_iff, hsize]
    constructor
    · rintro ⟨hc, hp⟩
      exact ⟨Nat.lt_succ_of_lt hc, hp⟩
    · rintro ⟨-, hp⟩
      exact ⟨f.tree.lt_size_of_parent hp, hp⟩
  case children_nodup =>
    intro p
    rw [children_make]
    exact h.children_nodup p

end Sound

end Forest
end BraceTree
