import BraceTree.Proofs.Block.Walks
import BraceTree.Proofs.Diagnostic.Sited
import BraceTree.Proofs.Text.Blanks

/-!
# The innermost block around a position

The block of a position is looked up from the root down, into the first child whose body holds the
position (`Descends`). The walk looks at one block of each level only, and asks nothing of the
others. That it nevertheless ends with the deepest of all blocks around the position rests on two
things: whoever holds a position is held by blocks that hold it too, so each of the blocks around
the position can be reached, and bodies of siblings are apart, so no step leads past one of them
(`Bracketed.mem_subtree_blockAt`).

A brace belongs to no body, so a position on a brace is in the block around the pair. No body
reaches past the end of the source, and what lies there counts as lying in the root.
-/

namespace BraceTree

namespace BlockTree

/-- **The way down to a position**, whatever its length: from a block into the first of its children
whose body holds the position, until there is none. -/
inductive Descends (t : BlockTree) (offset : Nat) : BlockId → BlockId → Prop
  /-- The way ends where no child holds the position. -/
  | here {id : BlockId}
      (hnone : ((t.get id).children.find? fun c => (t.get c).body.covers offset) = none) :
      Descends t offset id id
  /-- It goes on in the first child that does. -/
  | down {id child inner : BlockId}
      (hchild : ((t.get id).children.find? fun c => (t.get c).body.covers offset) = some child)
      (h : Descends t offset child inner) : Descends t offset id inner

/-- **The innermost block around a position**: its body holds the position, and all others that do
are less deep. -/
structure Innermost (t : BlockTree) (offset : Nat) (id : BlockId) : Prop where
  lt_size : id < t.size
  covers : (t.get id).body.covers offset = true
  deepest : ∀ other < t.size, other ≠ id → (t.get other).body.covers offset = true →
    t.depth other < t.depth id

variable {source : Text} {t t' : BlockTree} {offset : Nat} {c d p id inner : Nat}

namespace Nested

variable (h : t.Nested)

include h

/-- A block that holds a position is held by one that does. -/
theorem covers_parent (hp : (t.get c).parent = some p)
    (hcovers : (t.get c).body.covers offset = true) : (t.get p).body.covers offset = true := by
  have hc := t.lt_size_of_parent hp
  have hinside := h.inside hc hp
  rw [h.covers_body_iff (h.ne_root_of_parent hp) hc] at hcovers
  rw [Span.covers_iff]
  omega

/-- So all blocks around a block that holds a position do. -/
theorem covers_of_mem_subtree (hc : c < t.size) (hd : d ∈ t.subtree c)
    (hcovers : (t.get d).body.covers offset = true) : (t.get c).body.covers offset = true := by
  induction hk : t.room c using Nat.strongRecOn generalizing c with
  | ind k ih =>
    rcases (h.mem_subtree_iff hc).mp hd with rfl | ⟨x, hx, hdx⟩
    · exact hcovers
    · obtain ⟨hxlt, hp⟩ := h.mem_children_iff.mp hx
      have hroom := h.room_lt hxlt hp
      exact h.covers_parent hp (ih _ (by omega) hxlt hdx rfl)

/-! ## The walk -/

/-- **The walk down comes to its end** before the room of the block is used up. -/
theorem descends_blockAtFrom (offset : Nat) : ∀ {bound id : Nat}, id < t.size →
    t.room id < bound → t.Descends offset id (t.blockAtFrom offset bound id)
  | bound + 1, id, hid, hbound => by
    rw [blockAtFrom_succ]
    cases hfind : (t.get id).children.find? fun c => (t.get c).body.covers offset with
    | none => exact .here hfind
    | some c =>
      obtain ⟨hclt, hp⟩ := h.mem_children_iff.mp (List.mem_of_find?_eq_some hfind)
      have hroom := h.room_lt hclt hp
      exact .down hfind (descends_blockAtFrom offset hclt (by omega))

theorem descends_blockAt (offset : Nat) : t.Descends offset root (t.blockAt offset) :=
  h.descends_blockAtFrom offset h.size_pos h.room_lt_depthBound

end Nested

namespace Descends

/-- The walk stays in the block where it starts. -/
theorem mem_subtree (h : t.Nested) (hd : t.Descends offset id inner) (hid : id < t.size) :
    inner ∈ t.subtree id := by
  induction hd with
  | here => exact (h.mem_subtree_iff hid).mpr (.inl rfl)
  | down hchild _ ih =>
    have hmem := List.mem_of_find?_eq_some hchild
    exact (h.mem_subtree_iff hid).mpr (.inr ⟨_, hmem, ih (h.mem_children_iff.mp hmem).1⟩)

/-- It holds on to the position. -/
theorem covers (hd : t.Descends offset id inner) (hid : (t.get id).body.covers offset = true) :
    (t.get inner).body.covers offset = true := by
  induction hd with
  | here => exact hid
  | down hchild _ ih =>
    have hcovers := List.find?_some hchild
    exact ih hcovers

/-- From a block that does not hold the position it does not go down. -/
theorem eq_of_not_covers (h : t.Nested) (hd : t.Descends offset id inner)
    (hid : (t.get id).body.covers offset = false) : inner = id := by
  cases hd with
  | here => rfl
  | down hchild =>
    have hp := (h.mem_children_iff.mp (List.mem_of_find?_eq_some hchild)).2
    have hcovers := List.find?_some hchild
    rw [h.covers_parent hp hcovers] at hid
    exact Bool.noConfusion hid

/-- It ends where no child holds the position. -/
theorem not_covers_child (hd : t.Descends offset id inner) (hc : c ∈ (t.get inner).children) :
    (t.get c).body.covers offset = false := by
  induction hd with
  | here hnone => exact Bool.eq_false_iff.mpr (List.find?_eq_none.mp hnone c hc)
  | down _ _ ih => exact ih hc

end Descends

/-! ## The deepest of all -/

theorem covers_body_root (h : t.Bracketed source) :
    (t.get root).body.covers offset = true ↔ offset < source.bytes := by
  rw [h.root_body, h.root_span, Span.covers_iff, and_iff_right (Nat.zero_le _)]

namespace Bracketed

variable (h : t.Bracketed source)

include h

/-- Of two children one holds a position. -/
theorem eq_of_covers (hc : c ∈ (t.get p).children) (hd : d ∈ (t.get p).children)
    (hcovers : (t.get c).body.covers offset = true)
    (hdcovers : (t.get d).body.covers offset = true) : c = d := by
  have hspan : ∀ x ∈ (t.get p).children, (t.get x).body.covers offset = true →
      (t.get x).span.start ≤ offset ∧ offset < (t.get x).span.stop := fun x hx hxcovers => by
    obtain ⟨hxlt, hp⟩ := h.mem_children_iff.mp hx
    rw [h.covers_body_iff (h.ne_root_of_parent hp) hxlt] at hxcovers
    omega
  exact Span.eq_of_apart (h.ordered p) hc hd (hspan c hc hcovers) (hspan d hd hdcovers)

/-- **The walk down passes every block around the position.** -/
theorem mem_subtree_blockAt (hd : d < t.size) :
    (t.get d).body.covers offset = true → t.blockAt offset ∈ t.subtree d := by
  have hwalk := h.descends_blockAt offset
  refine h.induction_from_root (P := fun d => (t.get d).body.covers offset = true →
    t.blockAt offset ∈ t.subtree d) (fun _ => hwalk.mem_subtree h.toNested h.size_pos) ?_ hd
  intro p d hd hp ih hcovers
  have hpcovers := h.covers_parent hp hcovers
  have hplt := h.parent_lt hd hp
  have hmem := h.mem_children_iff.mpr ⟨hd, hp⟩
  rcases (h.mem_subtree_iff hplt).mp (ih hpcovers) with heq | ⟨x, hx, hinner⟩
  · -- the walk does not end in the parent, since the block is a child that holds the position
    have hnot := hwalk.not_covers_child (heq ▸ hmem)
    rw [hcovers] at hnot
    exact Bool.noConfusion hnot
  · -- it goes on in a child of the parent, and there is one only
    have hroot : (t.get root).body.covers offset = true :=
      h.covers_of_mem_subtree h.size_pos (h.mem_preorder_iff.mpr hd) hcovers
    have hxcovers := h.covers_of_mem_subtree (h.mem_children_iff.mp hx).1 hinner
      (hwalk.covers hroot)
    rwa [h.eq_of_covers hmem hx hcovers hxcovers]

/-- **In the source the walk ends with the innermost block.** -/
theorem innermost_blockAt (hoffset : offset < source.bytes) :
    t.Innermost offset (t.blockAt offset) where
  lt_size := h.mem_preorder_iff.mp
    ((h.descends_blockAt offset).mem_subtree h.toNested h.size_pos)
  covers := (h.descends_blockAt offset).covers ((covers_body_root h).mpr hoffset)
  deepest := fun _ hother hne hcovers =>
    h.depth_lt_of_mem_subtree hother (h.mem_subtree_blockAt hother hcovers) hne.symm

/-- Past its end there is no block around, and the walk does not leave the root. -/
theorem blockAt_of_bytes_le (hoffset : source.bytes ≤ offset) :
    t.blockAt offset = root ∧ ∀ id < t.size, (t.get id).body.covers offset = false := by
  have hroot : (t.get root).body.covers offset = false := Bool.eq_false_iff.mpr fun hcovers =>
    Nat.not_lt_of_le hoffset ((covers_body_root h).mp hcovers)
  refine ⟨(h.descends_blockAt offset).eq_of_not_covers h.toNested hroot,
    fun id hid => Bool.eq_false_iff.mpr fun hcovers => ?_⟩
  rw [h.covers_of_mem_subtree h.size_pos (h.mem_preorder_iff.mpr hid) hcovers] at hroot
  exact Bool.noConfusion hroot

end Bracketed

/-- Positions are in the same blocks in trees of the same shape. -/
theorem SameShape.blockAt_eq (h : SameShape t t') (offset : Nat) :
    t'.blockAt offset = t.blockAt offset := by
  have hdown : ∀ (bound : Nat) (id : BlockId),
      t'.blockAtFrom offset bound id = t.blockAtFrom offset bound id := by
    intro bound
    induction bound with
    | zero => exact fun _ => rfl
    | succ bound ih =>
      intro id
      rw [blockAtFrom_succ, blockAtFrom_succ, funext ih, h.children_eq]
      simp only [h.body_eq]
  have hbound : t'.depthBound = t.depthBound :=
    congrArg (· + 2) (congrArg Span.stop (h.span_eq root))
  rw [blockAt, blockAt, hbound, hdown]

end BlockTree

/-! ## The owners of lines -/

/-- **Where a line counts as starting**: at its first character that is no blank, and a blank line
at its very start. -/
theorem Line.contentOffset?_cases (l : Line) :
    (Text.isBlankText l.text.toList = true ∧ l.contentOffset?.getD l.span.start = l.span.start) ∨
      ∃ lead c rest, l.text.toList = lead ++ c :: rest ∧ Text.isBlankText lead = true ∧
        Text.isBlank c = false ∧
        l.contentOffset?.getD l.span.start = l.span.start + Text.bytes lead := by
  rw [contentOffset?]
  split
  · next hblank => exact .inl ⟨hblank, rfl⟩
  · next hblank =>
    have hsplit := List.takeWhile_append_dropWhile (p := Text.isBlank) (l := l.text.toList)
    cases hrest : Text.trimStart l.text.toList with
    | nil =>
      exact absurd (List.all_eq_true.mpr (List.dropWhile_eq_nil_iff.mp hrest)) hblank
    | cons c rest =>
      refine .inr ⟨_, c, rest, ?_, Text.isBlankText_takeWhile _, Text.not_blank_of_trimStart hrest,
        rfl⟩
      rw [← hrest]
      exact hsplit.symm

namespace Program

open BlockTree (root)

variable {source : Text} {sourceId : Nat} {p : Program}

/-- A line is owned by the block in which it counts as starting. -/
theorem owner_eq (hp : ofText source sourceId = .ok p) {l : OwnedLine} (hl : l ∈ p.lines) :
    l.owner = p.tree.blockAt (l.contentOffset?.getD l.span.start) := by
  obtain ⟨f, hf, hframes⟩ := exists_sameFrames hp
  have hshape := BlockTree.sameShape_classify (f.finish (Line.ofSource source)) source
  obtain rfl := Except.ok.inj ((ofText_of_place sourceId hf).symm.trans hp)
  obtain ⟨line, -, rfl⟩ := List.mem_map.mp hl
  exact ((hframes.sameShape.blockAt_eq _).trans (hshape.blockAt_eq _)).symm

/-- **A position is looked up in the innermost block around it.** The walk from the root comes to
its end. For a position in the source it ends with a block whose body holds the position, and every
other block whose body does is less deep. No body holds a position past the end, and there the walk
ends with the root. A program lists all lines of its source. Each of them is owned by the block that
is looked up for its first character that is no blank, or for its start if it is blank. -/
theorem blockAt_eq_innermost (hp : ofText source sourceId = .ok p) :
    (∀ offset, p.tree.Descends offset root (p.tree.blockAt offset) ∧
      (offset < source.bytes → p.tree.Innermost offset (p.tree.blockAt offset)) ∧
      (source.bytes ≤ offset → p.tree.blockAt offset = root ∧
        ∀ id < p.tree.size, (p.tree.get id).body.covers offset = false)) ∧
    p.lines.map (·.toLine) = Line.ofSource source ∧
    ∀ l ∈ p.lines, Text.Cuts source l.span l.text.toList ∧
      ((Text.isBlankText l.text.toList = true ∧ l.owner = p.tree.blockAt l.span.start) ∨
        ∃ lead c rest, l.text.toList = lead ++ c :: rest ∧ Text.isBlankText lead = true ∧
          Text.isBlank c = false ∧ l.owner = p.tree.blockAt (l.span.start + Text.bytes lead)) := by
  have h : p.tree.Bracketed source := (bounded_tree hp).toBracketed
  refine ⟨fun offset => ⟨h.descends_blockAt offset, h.innermost_blockAt, h.blockAt_of_bytes_le⟩,
    toLine_lines hp, fun l hl => ⟨?_, ?_⟩⟩
  · have hline : l.toLine ∈ Line.ofSource source := toLine_lines hp ▸ List.mem_map_of_mem hl
    exact (Line.cuts_of_mem_ofSource hline).1
  · rw [owner_eq hp hl]
    rcases l.contentOffset?_cases with ⟨hblank, heq⟩ | ⟨lead, c, rest, htext, hlead, hc, heq⟩
    · exact .inl ⟨hblank, congrArg _ heq⟩
    · exact .inr ⟨lead, c, rest, htext, hlead, hc, congrArg _ heq⟩

/-- Two blocks that touch. The first is empty, and a blank line ends in the second. -/
def touching : Text := "a\x7b\x7d\x7bb\n\n\x7d".toList

/-- The blocks of `touching` in order. -/
def touchingTree : BlockTree :=
  ⟨[{ Block.root touching with children := [1, 2], lines := ⟨0, 3⟩ },
    { Block.provisional touching ⟨1, 3⟩ with parent := some root, lines := ⟨0, 1⟩ },
    { Block.provisional touching ⟨3, 8⟩ with parent := some root, lines := ⟨0, 3⟩ }]⟩

theorem ofText_touching : ofText touching 0 = .ok (ofTree touching 0 touchingTree) := by
  have hplace : (place touching).toOption.map (·.finish (Line.ofSource touching)) =
      some touchingTree := by cbv
  cases hf : place touching with
  | error x =>
    rw [hf] at hplace
    cases hplace
  | ok f =>
    rw [hf] at hplace
    rw [ofText_of_place 0 hf, ← Option.some.inj hplace]

/-- Positions on each of the braces, in the second block and past the end, and the owners of the
three lines. -/
theorem blockAt_eq_innermost_of_touching :
    ∃ p, ofText touching 0 = .ok p ∧
      [1, 2, 3, 4, 6, 7, 8, 50].map p.tree.blockAt = [0, 0, 0, 2, 2, 0, 0, 0] ∧
      p.lines.map (·.owner) = [0, 2, 0] ∧ p.tree.Descends 4 root 2 ∧ p.tree.Innermost 4 2 ∧
      ∀ id < p.tree.size, (p.tree.get id).body.covers 8 = false := by
  obtain ⟨hpositions, -, -⟩ := blockAt_eq_innermost ofText_touching
  have hletter : (ofTree touching 0 touchingTree).tree.blockAt 4 = 2 := by decide +kernel
  refine ⟨_, ofText_touching, by decide +kernel, by decide +kernel, ?_, ?_,
    ((hpositions 8).2.2 (by decide +kernel)).2⟩
  · exact hletter ▸ (hpositions 4).1
  · exact hletter ▸ (hpositions 4).2.1 (by decide +kernel)

end Program
end BraceTree
