import BraceTree.Proofs.Block.Nested

/-!
# Walks without their bounds

Every walk through a tree comes with a bound on its length, and where blocks nest no bound above the
room of a block is ever met. So a walk has the laws that it would have without one: the blocks in a
block are the block and those in its children (`Nested.subtree_eq`), and the way up goes through the
parent (`Nested.pathToRoot_of_parent`).
-/

namespace BraceTree.BlockTree

/-- A block and all blocks in it, in the order of the source. -/
def subtree (t : BlockTree) (id : BlockId) : List BlockId := t.preorderFrom t.depthBound id

namespace Nested

variable {t : BlockTree} (h : t.Nested) {p c d : Nat}

include h

/-! ## The way down -/

/-- **A walk down is not cut short** by a bound above the room of its block. -/
theorem preorderFrom_eq : ∀ {b b' id : Nat}, id < t.size → t.room id < b → t.room id < b' →
    t.preorderFrom b id = t.preorderFrom b' id
  | b + 1, b' + 1, id, _, hb, hb' => by
    rw [preorderFrom_succ, preorderFrom_succ]
    refine congrArg (id :: ·) (List.flatMap_congr fun c hc => ?_)
    obtain ⟨hclt, hp⟩ := h.mem_children_iff.mp hc
    have := h.room_lt hclt hp
    exact preorderFrom_eq hclt (by omega) (by omega)

/-- **The blocks in a block are the block itself and those in its children.** -/
theorem subtree_eq (hc : c < t.size) :
    t.subtree c = c :: (t.get c).children.flatMap t.subtree := by
  have hroom := h.room_le hc
  have hbound := h.room_lt_depthBound
  have hmore : t.preorderFrom t.depthBound c = t.preorderFrom (t.depthBound + 1) c :=
    h.preorderFrom_eq hc (by omega) (by omega)
  show t.preorderFrom t.depthBound c = c :: (t.get c).children.flatMap t.subtree
  rw [hmore, preorderFrom_succ]
  rfl

/-- Every block in another one, but for itself, is in one of its children. -/
theorem mem_subtree_iff (hc : c < t.size) :
    d ∈ t.subtree c ↔ d = c ∨ ∃ x ∈ (t.get c).children, d ∈ t.subtree x := by
  rw [h.subtree_eq hc, List.mem_cons, List.mem_flatMap]

/-! ## The way up -/

/-- **A walk up is not cut short** by a bound above the room that is still to be won. -/
theorem pathUp_eq : ∀ {b b' id : Nat}, id < t.size → t.room root < t.room id + b →
    t.room root < t.room id + b' → t.pathUp b id = t.pathUp b' id
  | 0, _, id, hid, hb, _ => by
    have := h.room_le hid
    omega
  | _ + 1, 0, id, hid, _, hb' => by
    have := h.room_le hid
    omega
  | b + 1, b' + 1, id, hid, hb, hb' => by
    rw [pathUp, pathUp]
    cases hp : (t.get id).parent with
    | none => rfl
    | some p =>
      have := h.room_lt hid hp
      exact congrArg (id :: ·) (pathUp_eq (h.parent_lt hid hp) (by omega) (by omega))

theorem pathToRoot_root : t.pathToRoot root = [root] := by
  show t.pathUp ((t.get root).span.stop + 1 + 1) root = [root]
  rw [pathUp, h.root_parent]

/-- **The way up goes through the parent.** -/
theorem pathToRoot_of_parent (hc : c < t.size) (hp : (t.get c).parent = some p) :
    t.pathToRoot c = c :: t.pathToRoot p := by
  have hbound := h.room_lt_depthBound
  have hmore : t.pathUp t.depthBound c = t.pathUp (t.depthBound + 1) c :=
    h.pathUp_eq hc (by omega) (by omega)
  show t.pathUp t.depthBound c = c :: t.pathUp t.depthBound p
  rw [hmore, pathUp, hp]

/-! ## Depths -/

theorem depth_root : t.depth root = 0 := by
  rw [depth, ancestors, h.pathToRoot_root]
  rfl

/-- **A step down costs one level.** -/
theorem depth_of_parent (hc : c < t.size) (hp : (t.get c).parent = some p) :
    t.depth c = t.depth p + 1 := by
  have hpath : ∃ rest, t.pathToRoot p = p :: rest := by
    show ∃ rest, t.pathUp ((t.get root).span.stop + 1 + 1) p = p :: rest
    rw [pathUp]
    exact ⟨_, rfl⟩
  obtain ⟨rest, hrest⟩ := hpath
  rw [depth, depth, ancestors, ancestors, h.pathToRoot_of_parent hc hp, hrest]
  rfl

/-- The blocks in a block lie deeper than the block. -/
theorem depth_lt_of_mem_subtree : ∀ {c d : Nat}, c < t.size → d ∈ t.subtree c → d ≠ c →
    t.depth c < t.depth d := by
  intro c
  induction hk : t.room c using Nat.strongRecOn generalizing c with
  | ind k ih =>
    intro d hc hd hne
    rcases (h.mem_subtree_iff hc).mp hd with heq | ⟨x, hx, hdx⟩
    · exact absurd heq hne
    · obtain ⟨hxlt, hp⟩ := h.mem_children_iff.mp hx
      have hroom := h.room_lt hxlt hp
      have hdepth := h.depth_of_parent hxlt hp
      by_cases hdx' : d = x
      · rw [hdx']
        omega
      · have := ih _ (by omega) rfl hxlt hdx hdx'
        omega

end Nested
end BraceTree.BlockTree
