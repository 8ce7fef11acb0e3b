import Mathlib.Data.List.Find
import BraceTree.Proofs.Block.Walks

/-!
# Trees with more blocks behind the others

When a source goes on, its tree grows at the end: the blocks it has keep their numbers and
everything they hold, and those that are new stand behind them. Only the root takes notice, which
gets more children. `Grows` says this of two trees, and here is what it means for the walks. They
are bounded by the length of the source, so the bounds are not the same in both trees, but where
blocks nest no walk is cut short by them.

No block but the root has a new block in it. So what is in an old block, and the way from it to the
root, are the same in both trees, and a way from a new block comes through new blocks only, up to
the root.
-/

namespace BraceTree.BlockTree

/-- **A tree and the same tree with more blocks behind the others.** -/
structure Grows (t t' : BlockTree) : Prop where
  /-- There are no fewer blocks. -/
  size_le : t.size ≤ t'.size
  /-- The blocks that were there are as they were, the root aside. -/
  get_eq : ∀ {i : Nat}, i ≠ root → i < t.size → t'.get i = t.get i
  /-- The root holds the same variables. -/
  scope_root : (t'.get root).scope = (t.get root).scope
  /-- The root holds the same calls. -/
  calls_root : (t'.get root).calls = (t.get root).calls
  /-- The root has new blocks behind the children it had. -/
  exists_children : ∃ more, (t'.get root).children = (t.get root).children ++ more ∧
    ∀ c ∈ more, t.size ≤ c
  /-- New blocks stand behind all that the root spanned. -/
  behind : ∀ {c : Nat}, t.size ≤ c → c < t'.size →
    (t.get root).span.stop < (t'.get c).span.start

/-- The blocks that a tree gets when it grows, and the root. -/
def Rim (t : BlockTree) (id : BlockId) : Prop := id = root ∨ t.size ≤ id

theorem Nested.ne_root_of_size_le {t : BlockTree} (h : t.Nested) {c : Nat} (hc : t.size ≤ c) :
    c ≠ root := fun hr => Nat.not_le_of_lt h.size_pos (hr ▸ hc)

namespace Grows

variable {t t' : BlockTree} (hg : Grows t t') (h : t.Nested) (h' : t'.Nested) {c d p : Nat}

include hg

theorem scope_eq (hc : c < t.size) : (t'.get c).scope = (t.get c).scope := by
  by_cases hr : c = root
  · rw [hr]
    exact hg.scope_root
  · rw [hg.get_eq hr hc]

include h h'

theorem parent_eq (hc : c < t.size) : (t'.get c).parent = (t.get c).parent := by
  by_cases hr : c = root
  · rw [hr, h.root_parent, h'.root_parent]
  · rw [hg.get_eq hr hc]

/-- A new block is in a new block or right under the root. -/
theorem rim_parent (hc : t.size ≤ c) (hp : (t'.get c).parent = some p) : t.Rim p := by
  by_contra hrim
  obtain ⟨hr, hplt⟩ := not_or.mp hrim
  have hmem := h'.mem_children_iff.mpr ⟨t'.lt_size_of_parent hp, hp⟩
  rw [hg.get_eq hr (Nat.lt_of_not_le hplt)] at hmem
  have := (h.mem_children_iff.mp hmem).1
  omega

/-- What is right in a new block is new: an old block would hang where it hung. -/
theorem size_le_of_parent (hp : t.size ≤ p) (hc : (t'.get c).parent = some p) : t.size ≤ c := by
  by_contra hlt
  have hold := (hg.parent_eq h h' (Nat.lt_of_not_le hlt)).symm.trans hc
  have := h.parent_lt (Nat.lt_of_not_le hlt) hold
  omega

/-- **The way from an old block to the root is the same.** -/
theorem pathToRoot_eq (hc : c < t.size) : t'.pathToRoot c = t.pathToRoot c := by
  refine h.induction_from_root (P := fun c => t'.pathToRoot c = t.pathToRoot c) ?_ ?_ hc
  · rw [h.pathToRoot_root, h'.pathToRoot_root]
  · intro p c hc hp ih
    have hp' := (hg.parent_eq h h' hc).trans hp
    rw [h.pathToRoot_of_parent hc hp,
      h'.pathToRoot_of_parent (Nat.lt_of_lt_of_le hc hg.size_le) hp', ih]

/-- The way from a new block to the root comes through new blocks. -/
theorem rim_of_mem_pathToRoot (hc : c < t'.size) (hrim : t.Rim c) :
    ∀ d ∈ t'.pathToRoot c, t.Rim d := by
  revert hrim
  refine h'.induction_from_root (P := fun c => t.Rim c → ∀ d ∈ t'.pathToRoot c, t.Rim d) ?_ ?_ hc
  · intro _ d hd
    rw [h'.pathToRoot_root, List.mem_singleton] at hd
    exact .inl hd
  · intro p c hc hp ih hrim d hd
    have hnew : t.size ≤ c := hrim.resolve_left (h'.ne_root_of_parent hp)
    rw [h'.pathToRoot_of_parent hc hp, List.mem_cons] at hd
    rcases hd with rfl | hd
    · exact hrim
    · exact ih (hg.rim_parent h h' hnew hp) d hd

/-- **What is in an old block is the same.** -/
theorem subtree_eq (hr : c ≠ root) (hc : c < t.size) : t'.subtree c = t.subtree c := by
  induction hk : t.room c using Nat.strongRecOn generalizing c with
  | ind k ih =>
    rw [h.subtree_eq hc, h'.subtree_eq (Nat.lt_of_lt_of_le hc hg.size_le), hg.get_eq hr hc]
    refine congrArg (c :: ·) (List.flatMap_congr fun d hd => ?_)
    obtain ⟨hdlt, hp⟩ := h.mem_children_iff.mp hd
    have := h.room_lt hdlt hp
    exact ih _ (by omega) (h.ne_root_of_parent hp) hdlt rfl

/-- What is in a new block is new. -/
theorem size_le_of_mem_subtree (hc : t.size ≤ c) (hlt : c < t'.size) (hd : d ∈ t'.subtree c) :
    t.size ≤ d := by
  induction hk : t'.room c using Nat.strongRecOn generalizing c with
  | ind k ih =>
    rcases (h'.mem_subtree_iff hlt).mp hd with rfl | ⟨x, hx, hdx⟩
    · exact hc
    · obtain ⟨hxlt, hp⟩ := h'.mem_children_iff.mp hx
      have := h'.room_lt hxlt hp
      exact ih _ (by omega) (hg.size_le_of_parent h h' hc hp) hxlt hdx rfl

/-- **The order of the source has the new blocks at its end.** -/
theorem exists_preorder_append : ∃ more, t'.preorder = t.preorder ++ more ∧
    ∀ c ∈ more, t.size ≤ c ∧ c < t'.size := by
  obtain ⟨more, hchildren, hmore⟩ := hg.exists_children
  have hold : (t.get root).children.flatMap t'.subtree =
      (t.get root).children.flatMap t.subtree := List.flatMap_congr fun c hc => by
    obtain ⟨hclt, hp⟩ := h.mem_children_iff.mp hc
    exact hg.subtree_eq h h' (h.ne_root_of_parent hp) hclt
  refine ⟨more.flatMap t'.subtree, ?_, fun d hd => ?_⟩
  · show t'.subtree root = t.subtree root ++ _
    rw [h.subtree_eq h.size_pos, h'.subtree_eq h'.size_pos, hchildren, List.flatMap_append, hold]
    rfl
  · obtain ⟨c, hc, hdc⟩ := List.mem_flatMap.mp hd
    have hclt : c < t'.size := (h'.mem_children_iff.mp
      (hchildren ▸ List.mem_append_right _ hc)).1
    exact ⟨hg.size_le_of_mem_subtree h h' (hmore c hc) hclt hdc,
      h'.lt_size_of_mem_preorderFrom hclt hdc⟩

/-- **What is told of the blocks in the order of the source**, block by block, is what was told of
them, if no more is kept of the old blocks and nothing of the new ones. -/
theorem filter_flatMap_preorder {α : Type} {tell tell' : BlockId → List α} {keep : α → Bool}
    (hold : ∀ c : Nat, c < t.size → (tell' c).filter keep = tell c)
    (hnew : ∀ c : Nat, t.size ≤ c → c < t'.size → (tell' c).filter keep = []) :
    (t'.preorder.flatMap tell').filter keep = t.preorder.flatMap tell := by
  obtain ⟨more, hpreorder, hmore⟩ := hg.exists_preorder_append h h'
  have hnone : more.flatMap (fun c => (tell' c).filter keep) = [] :=
    List.flatMap_eq_nil_iff.mpr fun c hc => hnew c (hmore c hc).1 (hmore c hc).2
  rw [List.filter_flatMap, hpreorder, List.flatMap_append, hnone, List.append_nil]
  exact List.flatMap_congr fun c hc => hold c (h.mem_preorder_iff.mp hc)

omit h' in
/-- A walk down to the block around a position is the same from an old block on. -/
theorem blockAtFrom_eq (o : Nat) : ∀ {b b' c : Nat}, c ≠ root → c < t.size → t.room c < b →
    t.room c < b' → t'.blockAtFrom o b' c = t.blockAtFrom o b c
  | b + 1, b' + 1, c, hr, hc, hb, hb' => by
    have hbody : ∀ d ∈ (t.get c).children, (t'.get d).body.covers o = (t.get d).body.covers o :=
      fun d hd => by
        obtain ⟨hdlt, hp⟩ := h.mem_children_iff.mp hd
        rw [hg.get_eq (h.ne_root_of_parent hp) hdlt]
    rw [blockAtFrom_succ, blockAtFrom_succ, hg.get_eq hr hc, List.find?_congr hbody]
    cases hfind : (t.get c).children.find? fun d => (t.get d).body.covers o with
    | none => rfl
    | some d =>
      obtain ⟨hdlt, hp⟩ := h.mem_children_iff.mp (List.mem_of_find?_eq_some hfind)
      have := h.room_lt hdlt hp
      exact blockAtFrom_eq o (h.ne_root_of_parent hp) hdlt (by omega) (by omega)

/-- **A position in front of the new blocks is in the same block.** -/
theorem blockAt_eq {o : Nat} (ho : o ≤ (t.get root).span.stop) : t'.blockAt o = t.blockAt o := by
  obtain ⟨more, hchildren, hmore⟩ := hg.exists_children
  have hold : ∀ d ∈ (t.get root).children,
      (t'.get d).body.covers o = (t.get d).body.covers o := fun d hd => by
    obtain ⟨hdlt, hp⟩ := h.mem_children_iff.mp hd
    rw [hg.get_eq (h.ne_root_of_parent hp) hdlt]
  have hnew : (more.find? fun d => (t'.get d).body.covers o) = none :=
    List.find?_eq_none.mpr fun d hd hcovers => by
      obtain ⟨hdlt, hp⟩ := h'.mem_children_iff.mp (hchildren ▸ List.mem_append_right _ hd)
      have hbehind := hg.behind (hmore d hd) hdlt
      have hstart := ((h'.covers_body_iff (h'.ne_root_of_parent hp) hdlt).mp hcovers).1
      omega
  show t'.blockAtFrom o ((t'.get root).span.stop + 1 + 1) root =
    t.blockAtFrom o ((t.get root).span.stop + 1 + 1) root
  rw [blockAtFrom_succ, blockAtFrom_succ, hchildren, List.find?_append, hnew, Option.or_none,
    List.find?_congr hold]
  cases hfind : (t.get root).children.find? fun d => (t.get d).body.covers o with
  | none => rfl
  | some d =>
    obtain ⟨hdlt, hp⟩ := h.mem_children_iff.mp (List.mem_of_find?_eq_some hfind)
    have hroom := h.room_lt hdlt hp
    have hbound := h.room_root
    have hbound' := h'.room_root
    have hspan := h'.span_stop_le (Nat.lt_of_lt_of_le hdlt hg.size_le)
    have hlen := h.body_eq (h.ne_root_of_parent hp) hdlt
    rw [hg.get_eq (h.ne_root_of_parent hp) hdlt] at hspan
    refine hg.blockAtFrom_eq h o (h.ne_root_of_parent hp) hdlt (by omega) ?_
    rw [room, hlen.2, Span.length]
    simp only
    omega

end Grows
end BraceTree.BlockTree
