import Mathlib.Data.List.Nodup
import BraceTree.Proofs.Block.Arena
import BraceTree.Proofs.Text.Border

/-!
# Trees whose blocks nest

In a tree that is built from a source every block but the root has a parent, parents and children
agree, and a block lies inside the body of its parent. So the room between the braces shrinks with
every step down, which bounds all walks through the tree by the length of the source: no walk is cut
short by the bound it is given.

The main statements are about the order of the source. It lists every block once
(`Nested.perm_preorder`), and each after its parent (`Nested.parent_before_child`).
-/

namespace BraceTree.BlockTree

theorem preorderFrom_succ (t : BlockTree) (b id : Nat) :
    t.preorderFrom (b + 1) id = id :: (t.get id).children.flatMap (t.preorderFrom b) := rfl

theorem blockAtFrom_succ (t : BlockTree) (o bound : Nat) (id : BlockId) :
    t.blockAtFrom o (bound + 1) id =
      ((t.get id).children.find? fun c => (t.get c).body.covers o).elim id
        (t.blockAtFrom o bound) := by
  rw [blockAtFrom]
  split <;> rename_i hfind <;> rw [hfind] <;> rfl

/-- The room between the braces of a block. -/
def room (t : BlockTree) (id : BlockId) : Nat := (t.get id).body.length

/-- **A tree whose blocks nest.** -/
structure Nested (t : BlockTree) : Prop where
  /-- The root is there. -/
  size_pos : root < t.size
  /-- The root has no parent. -/
  root_parent : (t.get root).parent = none
  /-- The body of the root is all of the source. -/
  root_body : (t.get root).body = ⟨0, (t.get root).span.stop⟩
  /-- Every other block has a parent. -/
  exists_parent : ∀ {c : Nat}, c ≠ root → c < t.size → ∃ p, p < t.size ∧ (t.get c).parent = some p
  /-- The children of a block are the blocks that have it as their parent. -/
  mem_children_iff : ∀ {p c : Nat},
    c ∈ (t.get p).children ↔ c < t.size ∧ (t.get c).parent = some p
  /-- No child is listed twice. -/
  children_nodup : ∀ p : Nat, (t.get p).children.Nodup
  /-- A block starts and ends with a brace, and its body stands between them. -/
  body_eq : ∀ {c : Nat}, c ≠ root → c < t.size →
    (t.get c).span.start + 2 ≤ (t.get c).span.stop ∧
      (t.get c).body = ⟨(t.get c).span.start + 1, (t.get c).span.stop - 1⟩
  /-- A block lies inside the body of its parent. -/
  inside : ∀ {p c : Nat}, c < t.size → (t.get c).parent = some p →
    (t.get p).body.start ≤ (t.get c).span.start ∧ (t.get c).span.stop ≤ (t.get p).body.stop
  /-- All blocks lie in the source. -/
  span_stop_le : ∀ {c : Nat}, c < t.size → (t.get c).span.stop ≤ (t.get root).span.stop

namespace Nested

variable {t : BlockTree} (h : t.Nested) {p c : Nat}

include h

theorem ne_root_of_parent (hp : (t.get c).parent = some p) : c ≠ root := by
  rintro rfl
  rw [h.root_parent] at hp
  exact absurd hp (by simp)

theorem parent_lt (hc : c < t.size) (hp : (t.get c).parent = some p) : p < t.size := by
  obtain ⟨p', hp', he⟩ := h.exists_parent (h.ne_root_of_parent hp) hc
  obtain rfl := Option.some.inj (he.symm.trans hp)
  exact hp'

/-- A block holds the positions between its braces. -/
theorem covers_body_iff (hr : c ≠ root) (hc : c < t.size) {o : Nat} :
    (t.get c).body.covers o = true ↔ (t.get c).span.start < o ∧ o + 1 < (t.get c).span.stop := by
  rw [(h.body_eq hr hc).2, Span.covers_iff]
  dsimp only
  omega

/-- A block is listed among the children of its parent, once, and nowhere else. -/
theorem count_children (hc : c < t.size) (p : Nat) :
    (t.get p).children.count c = if (t.get c).parent = some p then 1 else 0 := by
  split
  · rename_i hp
    exact List.count_eq_one_of_mem (h.children_nodup p) (h.mem_children_iff.mpr ⟨hc, hp⟩)
  · rename_i hp
    exact List.count_eq_zero.mpr fun hmem => hp (h.mem_children_iff.mp hmem).2

/-- **A step down costs room.** -/
theorem room_lt (hc : c < t.size) (hp : (t.get c).parent = some p) : t.room c < t.room p := by
  obtain ⟨hlen, hbody⟩ := h.body_eq (h.ne_root_of_parent hp) hc
  obtain ⟨hstart, hstop⟩ := h.inside hc hp
  simp only [room, Span.length, hbody]
  omega

theorem room_root : t.room root = (t.get root).span.stop := by
  simp [room, Span.length, h.root_body]

theorem room_le (hc : c < t.size) : t.room c ≤ t.room root := by
  rw [h.room_root]
  by_cases hroot : c = root
  · subst hroot
    exact Nat.le_of_eq h.room_root
  · have := h.span_stop_le hc
    simp only [room, Span.length, (h.body_eq hroot hc).2]
    omega

theorem room_lt_depthBound : t.room root < t.depthBound := by
  rw [h.room_root, depthBound]
  omega

/-- **Induction from the root**: what holds of the root, and of a block if it holds of its parent,
holds of all blocks. -/
theorem induction_from_root {P : Nat → Prop} (hroot : P root)
    (hstep : ∀ p c, c < t.size → (t.get c).parent = some p → P p → P c) :
    ∀ {c : Nat}, c < t.size → P c := by
  intro c
  induction hk : t.room root - t.room c using Nat.strongRecOn generalizing c with
  | ind k ih =>
    intro hc
    by_cases hr : c = root
    · exact hr ▸ hroot
    · obtain ⟨p, hp, hpar⟩ := h.exists_parent hr hc
      have := h.room_lt hc hpar
      have := h.room_le hp
      exact hstep p c hc hpar (ih _ (by omega) rfl hp)

/-! ## The order of the source -/

theorem lt_size_of_mem_preorderFrom {x : Nat} : ∀ {b id : Nat}, id < t.size →
    x ∈ t.preorderFrom b id → x < t.size
  | 0, _, _, hx => by simp [preorderFrom] at hx
  | b + 1, id, hid, hx => by
    rw [preorderFrom_succ, List.mem_cons, List.mem_flatMap] at hx
    obtain rfl | ⟨c, hc, hx⟩ := hx
    · exact hid
    · exact lt_size_of_mem_preorderFrom (h.mem_children_iff.mp hc).1 hx

/-- The root is in no block. -/
theorem eq_root_of_mem_preorderFrom : ∀ {b id : Nat}, root ∈ t.preorderFrom b id → id = root
  | 0, _, hx => by simp [preorderFrom] at hx
  | b + 1, id, hx => by
    rw [preorderFrom_succ, List.mem_cons, List.mem_flatMap] at hx
    obtain rfl | ⟨c, hc, hx⟩ := hx
    · rfl
    · obtain rfl := eq_root_of_mem_preorderFrom hx
      exact absurd rfl (h.ne_root_of_parent (h.mem_children_iff.mp hc).2)

/-- **A block occurs as often as its parent does one level further up.** -/
theorem count_preorderFrom (hc : c < t.size) (hp : (t.get c).parent = some p) :
    ∀ b id : Nat, (t.preorderFrom (b + 1) id).count c =
      (if id = c then 1 else 0) + (t.preorderFrom b id).count p := by
  intro b
  induction b with
  | zero =>
    intro id
    have hnil : (t.get id).children.flatMap (t.preorderFrom 0) = [] :=
      List.flatMap_eq_nil_iff.mpr fun _ _ => rfl
    rw [preorderFrom_succ, hnil, List.count_cons]
    simp [preorderFrom]
  | succ b ih =>
    intro id
    -- among the children of a block stands `c` once, if the block is its parent
    have hchild : (t.get id).children.count c = if id = p then 1 else 0 := by
      rw [h.count_children hc, hp]
      simp only [Option.some.injEq, eq_comm]
    have hsum : ∀ l : List Nat, (l.flatMap (t.preorderFrom (b + 1))).count c =
        l.count c + (l.flatMap (t.preorderFrom b)).count p := by
      intro l
      induction l with
      | nil => rfl
      | cons x xs ihl =>
        rw [List.flatMap_cons, List.flatMap_cons, List.count_append, List.count_append, ihl, ih x,
          List.count_cons]
        simp only [beq_iff_eq]
        omega
    have hpar : (t.preorderFrom (b + 1) id).count p =
        ((t.get id).children.flatMap (t.preorderFrom b)).count p + if id = p then 1 else 0 := by
      rw [preorderFrom_succ, List.count_cons]
      simp
    rw [hpar, preorderFrom_succ, List.count_cons, hsum, hchild]
    simp only [beq_iff_eq]
    omega

theorem count_root {b : Nat} : (t.preorderFrom (b + 1) root).count root = 1 := by
  rw [preorderFrom_succ, List.count_cons, List.count_eq_zero.mpr]
  · simp
  · intro hmem
    obtain ⟨c, hc, hx⟩ := List.mem_flatMap.mp hmem
    exact h.ne_root_of_parent (h.mem_children_iff.mp hc).2 (h.eq_root_of_mem_preorderFrom hx)

/-- Every block is reached once, as soon as the walk may go as deep as the room shrinks. -/
theorem count_preorderFrom_root (hc : c < t.size) :
    ∀ {b : Nat}, t.room root < t.room c + b → (t.preorderFrom b root).count c = 1 := by
  refine h.induction_from_root (P := fun c => ∀ {b : Nat}, t.room root < t.room c + b →
    (t.preorderFrom b root).count c = 1) ?_ ?_ hc
  · intro b hb
    cases b with
    | zero => omega
    | succ b => exact h.count_root
  · intro p c hc hp ih b hb
    have := h.room_lt hc hp
    have := h.room_le hc
    cases b with
    | zero => omega
    | succ b =>
      rw [h.count_preorderFrom hc hp, if_neg (h.ne_root_of_parent hp).symm, ih (by omega)]

/-- **The order of the source lists every block once.** -/
theorem perm_preorder : t.preorder.Perm (List.range t.size) := by
  rw [List.perm_iff_count]
  intro c
  by_cases hc : c < t.size
  · have := h.room_lt_depthBound
    rw [preorder, h.count_preorderFrom_root hc (by omega),
      List.count_eq_one_of_mem List.nodup_range (List.mem_range.mpr hc)]
  · rw [List.count_eq_zero.mpr, List.count_eq_zero.mpr]
    · simpa using hc
    · exact fun hmem => hc (h.lt_size_of_mem_preorderFrom h.size_pos hmem)

theorem nodup_preorder : t.preorder.Nodup := h.perm_preorder.nodup_iff.mpr List.nodup_range

theorem mem_preorder_iff : c ∈ t.preorder ↔ c < t.size := by
  rw [h.perm_preorder.mem_iff, List.mem_range]

omit h in
/-- A child stands behind its parent wherever the parent stands. -/
theorem sublist_preorderFrom (hc : c ∈ (t.get p).children) :
    ∀ b id : Nat, p ∈ t.preorderFrom b id → [p, c].Sublist (t.preorderFrom (b + 1) id) := by
  intro b
  induction b with
  | zero =>
    intro id hmem
    simp [preorderFrom] at hmem
  | succ b ih =>
    intro id hmem
    rw [preorderFrom_succ, List.mem_cons, List.mem_flatMap] at hmem
    rw [preorderFrom_succ]
    obtain rfl | ⟨x, hx, hmem⟩ := hmem
    · refine .cons_cons p (List.singleton_sublist.mpr (List.mem_flatMap.mpr ⟨c, hc, ?_⟩))
      rw [preorderFrom_succ]
      exact List.mem_cons_self
    · exact (ih x hmem).trans (.cons _ (List.sublist_flatten_of_mem (List.mem_map_of_mem hx)))

/-- **Parents come before their children** in the order of the source. -/
theorem parent_before_child (hc : c ∈ (t.get p).children) : [p, c].Sublist t.preorder := by
  have hmem := h.mem_children_iff.mp hc
  have hp := h.parent_lt hmem.1 hmem.2
  have := h.room_lt hmem.1 hmem.2
  have := h.room_lt_depthBound
  refine sublist_preorderFrom hc (t.depthBound - 1) root ?_
  rw [← List.count_pos_iff, h.count_preorderFrom_root hp (by omega)]
  exact Nat.one_pos

end Nested
end BraceTree.BlockTree
