import BraceTree.Block.Tree

/-!
# Reading a tree after an edit

The blocks of a tree lie in one list, and everything that changes a tree changes one or two of them
or adds one at the end. What an edit leaves alone is said here once, block by block, so that nothing
further on looks at the list.
-/

namespace BraceTree

namespace Block

/-- A block without its links to others. -/
def unlinked (b : Block) : Block := { b with parent := none, children := [] }

/-- A block without its variables and calls: what the statements of a source leave as it is. -/
def frame (b : Block) : Block := { b with scope := .empty, calls := [] }

end Block

namespace BlockTree

variable (t : BlockTree) {i j p c : Nat}

theorem get_eq (i : Nat) : t.get i = (t.blocks[i]?).getD default :=
  List.getD_eq_getElem?_getD

theorem getElem?_blocks (h : i < t.size) : t.blocks[i]? = some (t.get i) := by
  rw [get_eq, List.getElem?_eq_getElem (show i < t.blocks.length from h)]
  rfl

theorem get_of_size_le (h : t.size ≤ i) : t.get i = default := by
  rw [get_eq, List.getElem?_eq_none (show t.blocks.length ≤ i from h)]
  rfl

/-- There is nothing in a block that is not there. -/
theorem children_of_size_le (h : t.size ≤ i) : (t.get i).children = [] := by
  rw [t.get_of_size_le h]
  rfl

/-- A block with a parent is there. -/
theorem lt_size_of_parent (h : (t.get c).parent = some p) : c < t.size := by
  refine Nat.lt_of_not_le fun hc => ?_
  rw [t.get_of_size_le hc] at h
  exact Option.some_ne_none p h.symm

/-! ## Changing one block -/

@[simp] theorem size_modify (i : Nat) (f : Block → Block) : (t.modify i f).size = t.size :=
  List.length_modify f _ _

theorem get_modify (i j : Nat) (f : Block → Block) :
    (t.modify i f).get j = if i = j ∧ j < t.size then f (t.get j) else t.get j := by
  by_cases hj : j < t.size
  · rw [get_eq]
    show ((t.blocks.modify i f)[j]?).getD default = _
    rw [List.getElem?_modify, getElem?_blocks _ hj]
    by_cases hij : i = j
    · rw [if_pos ⟨hij, hj⟩]
      simp [hij]
    · rw [if_neg fun h => hij h.1]
      simp [hij]
  · rw [if_neg fun h => hj h.2, get_of_size_le _ (Nat.le_of_not_lt hj),
      get_of_size_le _ (by simpa using hj)]

theorem get_modify_self (h : i < t.size) (f : Block → Block) :
    (t.modify i f).get i = f (t.get i) := by
  rw [get_modify, if_pos ⟨rfl, h⟩]

theorem get_modify_ne (h : i ≠ j) (f : Block → Block) : (t.modify i f).get j = t.get j := by
  rw [get_modify, if_neg fun hij => h hij.1]

theorem modify_of_size_le (h : t.size ≤ i) (f : Block → Block) : t.modify i f = t :=
  congrArg BlockTree.mk (List.modify_eq_self h)

/-! ## Adding a block -/

@[simp] theorem size_push (b : Block) : (t.push b).size = t.size + 1 :=
  List.length_append

theorem get_push_size (b : Block) : (t.push b).get t.size = b := by
  rw [get_eq]
  show ((t.blocks ++ [b])[t.blocks.length]?).getD default = b
  rw [List.getElem?_concat_length]
  rfl

theorem get_push_lt (b : Block) (h : i < t.size) : (t.push b).get i = t.get i := by
  rw [get_eq, get_eq]
  show ((t.blocks ++ [b])[i]?).getD default = _
  rw [List.getElem?_append_left h]

/-- A block without links adds no link. -/
theorem links_push {b : Block} (hparent : b.parent = none) (hchildren : b.children = []) (i : Nat) :
    ((t.push b).get i).parent = (t.get i).parent ∧
      ((t.push b).get i).children = (t.get i).children := by
  rcases Nat.lt_trichotomy i t.size with hlt | rfl | hgt
  · rw [t.get_push_lt b hlt]
    exact ⟨rfl, rfl⟩
  · rw [t.get_push_size, t.get_of_size_le (Nat.le_refl _)]
    exact ⟨hparent, hchildren⟩
  · rw [t.get_of_size_le (Nat.le_of_lt hgt), get_of_size_le _ (by rw [size_push]; omega)]
    exact ⟨rfl, rfl⟩

/-! ## Linking a block to its parent -/

@[simp] theorem size_attach (p c : Nat) : (t.attach p c).size = t.size := by
  simp [attach]

theorem get_attach (hp : p < t.size) (hc : c < t.size) (i : Nat) :
    (t.attach p c).get i =
      { t.get i with
        parent := if i = c then some p else (t.get i).parent
        children := if i = p then (t.get i).children ++ [c] else (t.get i).children } := by
  unfold attach
  rw [get_modify, get_modify, size_modify]
  by_cases hip : p = i <;> by_cases hic : c = i
  · subst hip
    subst hic
    simp [hp]
  · subst hip
    simp [hp, hic, Ne.symm (a := c) (b := p) hic]
  · subst hic
    simp [hc, hip, Ne.symm (a := p) (b := c) hip]
  · simp [hip, hic, Ne.symm hip, Ne.symm hic]

theorem unlinked_attach (hp : p < t.size) (hc : c < t.size) (i : Nat) :
    ((t.attach p c).get i).unlinked = (t.get i).unlinked := by
  rw [t.get_attach hp hc]
  rfl

theorem parent_attach (hp : p < t.size) (hc : c < t.size) (i : Nat) :
    ((t.attach p c).get i).parent = if i = c then some p else (t.get i).parent := by
  rw [t.get_attach hp hc]

theorem children_attach (hp : p < t.size) (hc : c < t.size) (i : Nat) :
    ((t.attach p c).get i).children =
      if i = p then (t.get i).children ++ [c] else (t.get i).children := by
  rw [t.get_attach hp hc]

theorem span_attach (hp : p < t.size) (hc : c < t.size) (i : Nat) :
    ((t.attach p c).get i).span = (t.get i).span := by
  rw [t.get_attach hp hc]

end BlockTree
end BraceTree
