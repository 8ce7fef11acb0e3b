import BraceTree.Proofs.Block.Walks

/-!
# Depths in order tell a tree

Listing the depths of all blocks in the order of the source says everything about the shape of a
tree. The blocks in a block are those behind it that lie deeper, and the ones that lie one level
deeper start a child each. So where two trees have the same list of depths, walking through both at
once goes from child to child in both (`exists_isomorphic`).
-/

namespace BraceTree

/-! ## Groups -/

/-- A list of which the first element has a property and no other one. -/
def Grouped {γ : Type} (P : γ → Prop) (zs : List γ) : Prop :=
  ∃ head rest, zs = head :: rest ∧ P head ∧ ∀ z ∈ rest, ¬ P z

variable {γ : Type} {P : γ → Prop}

/-- What follows a group starts with the head of another one. -/
theorem Grouped.of_flatten_eq_cons {gs : List (List γ)} (h : ∀ g ∈ gs, Grouped P g) {z : γ}
    {zs : List γ} (hz : gs.flatten = z :: zs) : P z := by
  cases gs with
  | nil => exact absurd hz.symm (List.cons_ne_nil z zs)
  | cons g gs =>
    obtain ⟨head, rest, rfl, hhead, -⟩ := h g List.mem_cons_self
    obtain ⟨rfl, -⟩ := List.cons.inj hz
    exact hhead

/-- The end of a group is seen by what follows. -/
theorem Grouped.eq_nil_of_append {gs : List (List γ)} (h : ∀ g ∈ gs, Grouped P g)
    {m rest other : List γ} (hrest : ∀ z ∈ rest ++ m, ¬ P z) (hm : gs.flatten = m ++ other) :
    m = [] := by
  cases m with
  | nil => rfl
  | cons z m =>
    exact absurd (of_flatten_eq_cons h hm)
      (hrest z (List.mem_append_right rest List.mem_cons_self))

/-- **Groups are told by their heads**, when they are put one behind the other. -/
theorem Grouped.flatten_inj : ∀ {gs gs' : List (List γ)}, (∀ g ∈ gs, Grouped P g) →
    (∀ g ∈ gs', Grouped P g) → gs.flatten = gs'.flatten → gs = gs'
  | [], [], _, _, _ => rfl
  | [], g :: gs, _, h', heq => by
    obtain ⟨head, rest, rfl, -⟩ := h' g List.mem_cons_self
    exact absurd heq.symm (List.cons_ne_nil head _)
  | g :: gs, [], h, _, heq => by
    obtain ⟨head, rest, rfl, -⟩ := h g List.mem_cons_self
    exact absurd heq (List.cons_ne_nil head _)
  | g :: gs, g' :: gs', h, h', heq => by
    obtain ⟨hg, hgs⟩ := List.forall_mem_cons.mp h
    obtain ⟨hg', hgs'⟩ := List.forall_mem_cons.mp h'
    obtain ⟨head, rest, rfl, -, hrest⟩ := hg
    obtain ⟨head', rest', rfl, -, hrest'⟩ := hg'
    obtain ⟨rfl, htail⟩ := List.cons.inj heq
    have hboth : rest = rest' ∧ gs.flatten = gs'.flatten := by
      rcases List.append_eq_append_iff.mp htail with ⟨m, rfl, hm⟩ | ⟨m, rfl, hm⟩
      · obtain rfl := eq_nil_of_append hgs hrest' hm
        exact ⟨(List.append_nil rest).symm, hm⟩
      · obtain rfl := eq_nil_of_append hgs' hrest hm
        exact ⟨List.append_nil rest', hm.symm⟩
    rw [hboth.1, flatten_inj hgs hgs' hboth.2]

namespace BlockTree

/-! ## Trees of one shape under different numbers -/

/-- **Two trees that are one tree with its blocks numbered in two ways**, of which the second comes
from the first by `rename`. -/
structure Isomorphic (t t' : BlockTree) (rename : BlockId → BlockId) : Prop where
  /-- There are as many blocks. -/
  size_eq : t'.size = t.size
  /-- They stand in the same order. -/
  preorder_eq : t'.preorder = t.preorder.map rename
  /-- Parents are renamed. -/
  parent_eq : ∀ {c : Nat}, c < t.size → (t'.get (rename c)).parent = (t.get c).parent.map rename
  /-- Children are renamed, in their order. -/
  children_eq : ∀ {c : Nat}, c < t.size →
    (t'.get (rename c)).children = (t.get c).children.map rename

variable {t t' : BlockTree} {c d : Nat} {rename : BlockId → BlockId}

namespace Isomorphic

/-- No two blocks get one number. -/
theorem rename_inj (h' : t'.Nested) (h : t.Nested) (hiso : Isomorphic t t' rename)
    (hc : c < t.size) (hd : d < t.size) (heq : rename c = rename d) : c = d := by
  have hnodup := h'.nodup_preorder
  rw [hiso.preorder_eq] at hnodup
  exact List.inj_on_of_nodup_map hnodup (h.mem_preorder_iff.mpr hc) (h.mem_preorder_iff.mpr hd) heq

end Isomorphic

/-- Two lists of the same length are one list with its elements renamed, if the first has none
twice. -/
theorem exists_rename {xs ys : List Nat} (hnodup : xs.Nodup) (hlength : ys.length = xs.length) :
    ∃ rename : Nat → Nat, ys = xs.map rename := by
  refine ⟨fun x => ys.getD (xs.idxOf x) 0, List.ext_getElem (by simpa using hlength)
    fun i hi _ => ?_⟩
  have hix : i < xs.length := hlength ▸ hi
  rw [List.getElem_map, hnodup.idxOf_getElem i hix, List.getD_eq_getElem?_getD,
    List.getElem?_eq_getElem hi]
  rfl

/-- A child and the blocks in it: the child lies one level deeper than the block, and the others
lie deeper still. -/
theorem Nested.grouped_subtree (h : t.Nested) {x : Nat} (hx : x ∈ (t.get c).children) :
    Grouped (fun d => t.depth d = t.depth c + 1) (t.subtree x) := by
  obtain ⟨hxlt, hp⟩ := h.mem_children_iff.mp hx
  have hxdepth := h.depth_of_parent hxlt hp
  refine ⟨x, _, h.subtree_eq hxlt, hxdepth, fun z hz hzdepth => ?_⟩
  obtain ⟨y, hy, hzy⟩ := List.mem_flatMap.mp hz
  obtain ⟨hylt, hyp⟩ := h.mem_children_iff.mp hy
  have hydepth := h.depth_of_parent hylt hyp
  have hle : t.depth y ≤ t.depth z := by
    by_cases hyz : z = y
    · exact Nat.le_of_eq (congrArg t.depth hyz).symm
    · exact Nat.le_of_lt (h.depth_lt_of_mem_subtree hylt hzy hyz)
  omega

/-- **Where the blocks in two blocks are the same up to their numbers**, and lie as deep, so are the
children, and the blocks in each of them. -/
theorem Nested.children_eq_of_subtree_eq (h : t.Nested) (h' : t'.Nested) (hc : c < t.size)
    (hc' : rename c < t'.size) (hdepth : ∀ d < t.size, t'.depth (rename d) = t.depth d)
    (hsub : t'.subtree (rename c) = (t.subtree c).map rename) :
    (t'.get (rename c)).children = (t.get c).children.map rename ∧
      ∀ x ∈ (t.get c).children, t'.subtree (rename x) = (t.subtree x).map rename := by
  rw [h'.subtree_eq hc', h.subtree_eq hc, List.map_cons, List.map_flatMap] at hsub
  have hgroups : (t'.get (rename c)).children.map t'.subtree =
      (t.get c).children.map fun x => (t.subtree x).map rename := by
    refine Grouped.flatten_inj (P := fun d => t'.depth d = t.depth c + 1)
      (List.forall_mem_map.mpr fun y hy => ?_) (List.forall_mem_map.mpr fun x hx => ?_)
      (List.cons.inj hsub).2
    · rw [← hdepth c hc]
      exact h'.grouped_subtree hy
    · obtain ⟨head, rest, heq, hhead, hrest⟩ := h.grouped_subtree hx
      have hlt : ∀ d ∈ head :: rest, d < t.size := fun d hd =>
        h.lt_size_of_mem_preorderFrom (h.mem_children_iff.mp hx).1 (heq ▸ hd)
      obtain ⟨hheadlt, hrestlt⟩ := List.forall_mem_cons.mp hlt
      refine ⟨rename head, rest.map rename, by rw [heq, List.map_cons],
        (hdepth head hheadlt).trans hhead, List.forall_mem_map.mpr fun z hz hz' => ?_⟩
      exact hrest z hz ((hdepth z (hrestlt z hz)).symm.trans hz')
  -- each group starts with the child
  have hchildren : (t'.get (rename c)).children = (t.get c).children.map rename :=
    calc (t'.get (rename c)).children
        = ((t'.get (rename c)).children.map t'.subtree).map (·.headD 0) := by
          rw [List.map_map]
          refine ((List.map_congr_left fun y hy => ?_).trans (List.map_id _)).symm
          rw [Function.comp, h'.subtree_eq (h'.mem_children_iff.mp hy).1]
          rfl
      _ = ((t.get c).children.map fun x => (t.subtree x).map rename).map (·.headD 0) := by
          rw [hgroups]
      _ = (t.get c).children.map rename := by
          rw [List.map_map]
          refine List.map_congr_left fun x hx => ?_
          rw [Function.comp, h.subtree_eq (h.mem_children_iff.mp hx).1]
          rfl
  refine ⟨hchildren, ?_⟩
  rw [hchildren, List.map_map] at hgroups
  exact List.map_inj_left.mp hgroups

/-- **The depths of all blocks in the order of the source tell the tree**, up to the numbers that
its blocks have. -/
theorem exists_isomorphic (h : t.Nested) (h' : t'.Nested)
    (hdepth : t'.preorder.map t'.depth = t.preorder.map t.depth) :
    ∃ rename, Isomorphic t t' rename := by
  have hlength : t'.preorder.length = t.preorder.length := by
    simpa using congrArg List.length hdepth
  obtain ⟨rename, hpreorder⟩ := exists_rename h.nodup_preorder hlength
  have hsize : t'.size = t.size := by
    rw [h.perm_preorder.length_eq, h'.perm_preorder.length_eq, List.length_range,
      List.length_range] at hlength
    exact hlength
  have hlt : ∀ {c : Nat}, c < t.size → rename c < t'.size := fun {c} hc => by
    rw [← h'.mem_preorder_iff, hpreorder]
    exact List.mem_map_of_mem (h.mem_preorder_iff.mpr hc)
  have hdepths : ∀ d < t.size, t'.depth (rename d) = t.depth d := fun d hd => by
    rw [hpreorder, List.map_map] at hdepth
    exact List.map_inj_left.mp hdepth d (h.mem_preorder_iff.mpr hd)
  have hroot : rename root = root := by
    have hfirst : t'.subtree root = (t.subtree root).map rename := hpreorder
    rw [h'.subtree_eq h'.size_pos, h.subtree_eq h.size_pos, List.map_cons] at hfirst
    exact (List.cons.inj hfirst).1.symm
  -- from a block to its children, and so from the root to all blocks
  have hsub : ∀ {c : Nat}, c < t.size → t'.subtree (rename c) = (t.subtree c).map rename := by
    intro c
    refine h.induction_from_root (P := fun c => t'.subtree (rename c) = (t.subtree c).map rename)
      ?_ fun p c hc hp ih => ?_
    · rw [hroot]
      exact hpreorder
    · have hplt := h.parent_lt hc hp
      exact (h.children_eq_of_subtree_eq h' hplt (hlt hplt) hdepths ih).2 c
        (h.mem_children_iff.mpr ⟨hc, hp⟩)
  have hchildren := fun {c : Nat} (hc : c < t.size) =>
    (h.children_eq_of_subtree_eq h' hc (hlt hc) hdepths (hsub hc)).1
  refine ⟨rename, hsize, hpreorder, fun {c} hc => ?_, hchildren⟩
  by_cases hr : c = root
  · rw [hr, hroot, h.root_parent, h'.root_parent]
    rfl
  · obtain ⟨p, hp, hpar⟩ := h.exists_parent hr hc
    have hmem : rename c ∈ (t'.get (rename p)).children := by
      rw [hchildren hp]
      exact List.mem_map_of_mem (h.mem_children_iff.mpr ⟨hc, hpar⟩)
    rw [(h'.mem_children_iff.mp hmem).2, hpar]
    rfl

end BlockTree
end BraceTree
