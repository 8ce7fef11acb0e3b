import BraceTree.Proofs.Block.Walks
import BraceTree.Proofs.Scope.Edited
import BraceTree.Proofs.Statement.Visible

/-!
# Names in a tree that is edited

What a name means in a block is found on the way from the block to the root. The block that declares
the name is *seen* from there (`BlockTree.Sees`) if no block before it on the way declares the name
too, and this settles what the name means (`Nested.lookup?_eq_some_iff`).

An edit changes the scope of one block, so it can be told what it changes about names. A new
variable is what its name means wherever its block is seen, and nothing else changes
(`Filed.declares`). A replaced binding is found wherever the name means this variable, and nothing
else changes (`Filed.rebinds`). Edits keep what this rests on, so it holds after any number of them
(`Program.edits_resolve`).
-/

namespace BraceTree

namespace BlockTree

/-- **A name is sought in another block**: the block itself, or one around it if no block on the way
there, the other one left aside, declares the name. -/
inductive Sees (t : BlockTree) (name : String) : BlockId → BlockId → Prop
  /-- A name is sought in the block itself. -/
  | here (id : BlockId) : Sees t name id id
  /-- It is sought further up if the block does not declare it. -/
  | up {id parent owner : BlockId} (hname : (t.get id).scope.get? name = none)
      (hparent : (t.get id).parent = some parent) (h : Sees t name parent owner) :
      Sees t name id owner

variable {t t' : BlockTree} {id block owner other : Nat} {name : String} {v w : Variable}
  {binding : Binding}

/-! ## Looking up as a walk -/

/-- The way up starts with the block. -/
theorem exists_pathToRoot (t : BlockTree) (id : Nat) : ∃ path, t.pathToRoot id = id :: path := by
  rw [pathToRoot, depthBound, pathUp]
  exact ⟨_, rfl⟩

/-- A name that a block declares means the variable there. -/
theorem lookup?_of_get? (h : (t.get id).scope.get? name = some v) :
    t.lookup? id name = some (id, v) := by
  obtain ⟨path, hpath⟩ := t.exists_pathToRoot id
  rw [lookup?, hpath, List.findSome?_cons, h]
  rfl

namespace Nested

variable (h : t.Nested)

include h

/-- **Any other name means what it means in the parent**, and nothing in the root. -/
theorem lookup?_of_get?_none (hget : (t.get id).scope.get? name = none) :
    t.lookup? id name = (t.get id).parent.bind fun p => t.lookup? p name := by
  cases hp : (t.get id).parent with
  | none =>
    have hpath : t.pathToRoot id = [id] := by
      rw [pathToRoot, depthBound, pathUp, hp]
    rw [lookup?, hpath, List.findSome?_cons, hget]
    rfl
  | some p =>
    rw [lookup?, h.pathToRoot_of_parent (t.lt_size_of_parent hp) hp, List.findSome?_cons, hget]
    rfl

/-- **A name means the variable of the block where it is seen.** -/
theorem lookup?_eq_some_iff : t.lookup? id name = some (owner, v) ↔
    t.Sees name id owner ∧ (t.get owner).scope.get? name = some v := by
  constructor
  · intro hlookup
    refine ⟨?_, get?_of_lookup? hlookup⟩
    -- along the way to the root, which has one block less in the parent
    generalize hlen : (t.pathToRoot id).length = n
    induction n using Nat.strongRecOn generalizing id with
    | ind n ih =>
      cases hget : (t.get id).scope.get? name with
      | some w =>
        have heq := (lookup?_of_get? hget).symm.trans hlookup
        obtain ⟨rfl, -⟩ := Prod.mk.inj (Option.some.inj heq)
        exact .here id
      | none =>
        rw [h.lookup?_of_get?_none hget] at hlookup
        obtain ⟨p, hp, hlookup⟩ := Option.bind_eq_some_iff.mp hlookup
        have hpath := h.pathToRoot_of_parent (t.lt_size_of_parent hp) hp
        rw [hpath, List.length_cons] at hlen
        exact .up hget hp (ih _ (by omega) hlookup rfl)
  · rintro ⟨hsees, hget⟩
    induction hsees with
    | here id => exact lookup?_of_get? hget
    | up hname hparent _ ih =>
      rw [h.lookup?_of_get?_none hname, hparent]
      exact ih hget

end Nested

/-! ## A tree of filed scopes -/

/-- **A tree of filed scopes**, which is what edits make of a parsed tree. -/
structure Filed (t : BlockTree) : Prop where
  nested : t.Nested
  filed : ∀ id : Nat, (t.get id).scope.Filed

/-- Another scope in one block leaves the frames of the blocks and, if it is filed, a filed tree. -/
theorem Filed.withScope (ht : t.Filed) (block : BlockId) {s : Scope} (hs : s.Filed) :
    (t.modify block fun b => { b with scope := s }).Filed ∧
      SameFrames t (t.modify block fun b => { b with scope := s }) := by
  have hframes : SameFrames t (t.modify block fun b => { b with scope := s }) :=
    sameFrames_modify t block fun _ => rfl
  refine ⟨⟨hframes.sameShape.nested ht.nested, fun id => ?_⟩, hframes⟩
  rw [get_modify]
  split
  · exact hs
  · exact ht.filed id

/-! ## Edits -/

/-- An edit of a tree. -/
inductive Edit where
  /-- Declare a variable in a block. -/
  | declare (block : BlockId) (v : Variable)
  /-- Replace the binding of the variable that a name means in a block. -/
  | set (block : BlockId) (name : String) (binding : Binding)

/-- What an edit makes of a tree, if it is not refused. -/
def edit? (t : BlockTree) : Edit → Option BlockTree
  | .declare block v => t.declare? block v
  | .set block name binding => t.setBinding? block name binding

/-- **An edit keeps scopes filed and the frames of all blocks.** -/
theorem Filed.edit? {e : Edit} (ht : t.Filed) (h : t.edit? e = some t') :
    t'.Filed ∧ SameFrames t t' := by
  cases e with
  | declare block v =>
    obtain ⟨s, hs, rfl⟩ := Option.map_eq_some_iff.mp h
    exact ht.withScope block ((ht.filed block).declare? hs)
  | set block name binding =>
    obtain ⟨⟨owner, v⟩, -, hset⟩ := Option.bind_eq_some_iff.mp h
    obtain ⟨s, hs, rfl⟩ := Option.map_eq_some_iff.mp hset
    exact ht.withScope owner ((ht.filed owner).setBinding? hs)

/-! ## What a declaration changes -/

/-- The variables of a name after a declaration. -/
theorem get?_of_declare? (hblock : block < t.size) (h : t.declare? block v = some t') (id : Nat)
    (name : String) : (t'.get id).scope.get? name =
      if id = block ∧ v.name = name then some v else (t.get id).scope.get? name := by
  obtain ⟨s, hs, halters⟩ := declare?_eq_some hblock h
  by_cases hid : id = block
  · subst hid
    simp only [true_and]
    rw [halters.here]
    exact Scope.get?_of_declare? hs name
  · rw [halters.elsewhere id hid, if_neg fun hv => hid hv.1]

/-- **A tree with one variable more**, which its name means wherever its block is seen. -/
structure Declares (t : BlockTree) (block : BlockId) (v : Variable) (t' : BlockTree) : Prop where
  here : ∀ id, t.Sees v.name id block → t'.lookup? id v.name = some (block, v)
  elsewhere : ∀ id name, ¬(name = v.name ∧ t.Sees v.name id block) →
    t'.lookup? id name = t.lookup? id name

/-- What is seen after a declaration was seen before. -/
theorem Sees.of_declare? (hblock : block < t.size) (h : t.declare? block v = some t')
    (hframes : SameFrames t t') (hsees : t'.Sees name id owner) : t.Sees name id owner := by
  induction hsees with
  | here id => exact .here id
  | @up id p owner hname hparent _ ih =>
    rw [get?_of_declare? hblock h] at hname
    split at hname
    · cases hname
    · exact .up hname ((hframes.sameShape.parent_eq id).symm.trans hparent) ih

/-- What was seen before a declaration is still seen, or the new variable stands in front. -/
theorem Sees.declare? (hblock : block < t.size) (h : t.declare? block v = some t')
    (hframes : SameFrames t t') (hsees : t.Sees name id owner) :
    t'.Sees name id owner ∨ v.name = name ∧ t'.Sees name id block := by
  induction hsees with
  | here id => exact .inl (.here id)
  | @up id p owner hname hparent _ ih =>
    by_cases hid : id = block ∧ v.name = name
    · obtain ⟨rfl, hv⟩ := hid
      exact .inr ⟨hv, .here id⟩
    · have hname' : (t'.get id).scope.get? name = none := by
        rw [get?_of_declare? hblock h, if_neg hid, hname]
      have hparent' := (hframes.sameShape.parent_eq id).trans hparent
      exact ih.imp (.up hname' hparent') fun ⟨hv, hp⟩ => ⟨hv, .up hname' hparent' hp⟩

/-- **A declaration changes nothing but what its name means where its block is seen.** -/
theorem Filed.declares (ht : t.Filed) (hblock : block < t.size)
    (h : t.declare? block v = some t') : t.Declares block v t' := by
  obtain ⟨ht', hframes⟩ := ht.edit? (e := .declare block v) h
  refine ⟨fun id hsees => ?_, fun id name hne => ?_⟩
  · refine ht'.nested.lookup?_eq_some_iff.mpr ⟨?_, ?_⟩
    · exact (hsees.declare? hblock h hframes).elim (fun hsees => hsees) fun hsees => hsees.2
    · rw [get?_of_declare? hblock h, if_pos ⟨rfl, rfl⟩]
  · refine Option.ext fun ⟨o, w⟩ => ?_
    rw [ht'.nested.lookup?_eq_some_iff, ht.nested.lookup?_eq_some_iff, get?_of_declare? hblock h]
    constructor
    · rintro ⟨hsees, hget⟩
      have hsees := hsees.of_declare? hblock h hframes
      split at hget
      · next ho => exact absurd ⟨ho.2.symm, ho.2 ▸ ho.1 ▸ hsees⟩ hne
      · exact ⟨hsees, hget⟩
    · rintro ⟨hsees, hget⟩
      split
      · next ho => exact absurd ⟨ho.2.symm, ho.2 ▸ ho.1 ▸ hsees⟩ hne
      · obtain hsees' | ⟨rfl, hsees'⟩ := hsees.declare? hblock h hframes
        · exact ⟨hsees', hget⟩
        · exact absurd ⟨rfl, hsees'.of_declare? hblock h hframes⟩ hne

/-! ## What another binding changes -/

/-- A binding is replaced where the name has a meaning. -/
theorem Filed.isSome_setBinding? (ht : t.Filed) :
    (t.setBinding? block name binding).isSome = (t.lookup? block name).isSome := by
  rw [setBinding?]
  cases hlookup : t.lookup? block name with
  | none => rfl
  | some found =>
    obtain ⟨owner, v⟩ := found
    rw [Option.bind_some, Option.isSome_map, (ht.filed owner).isSome_setBinding?,
      get?_of_lookup? hlookup]
    rfl

/-- The variables of a name after a binding is replaced. -/
theorem Filed.get?_of_setBinding? (ht : t.Filed) (hv : t.lookup? block name = some (owner, v))
    (h : t.setBinding? block name binding = some t') (id : Nat) (other : String) :
    (t'.get id).scope.get? other =
      if id = owner ∧ other = name then some { v with binding }
      else (t.get id).scope.get? other := by
  rw [setBinding?, hv, Option.bind_some] at h
  obtain ⟨s, hs, rfl⟩ := Option.map_eq_some_iff.mp h
  have hget := get?_of_lookup? hv
  rw [get_modify]
  by_cases hid : owner = id
  · subst hid
    rw [if_pos ⟨rfl, lt_size_of_get? hget⟩]
    simp only [true_and]
    exact Scope.get?_of_setBinding? (ht.filed owner) hs hget other
  · rw [if_neg fun hid' => hid hid'.1, if_neg fun hid' => hid hid'.1.symm]

/-- **A tree with another binding for one variable**, found wherever the name means the variable. -/
structure Rebinds (t : BlockTree) (owner : BlockId) (name : String) (binding : Binding)
    (t' : BlockTree) : Prop where
  here : ∀ id v, t.lookup? id name = some (owner, v) →
    t'.lookup? id name = some (owner, { v with binding })
  elsewhere : ∀ id other, ¬(other = name ∧ ∃ v, t.lookup? id name = some (owner, v)) →
    t'.lookup? id other = t.lookup? id other

/-- Names are seen where they were as long as the same blocks declare them. -/
theorem Sees.congr (hframes : SameFrames t t')
    (hget : ∀ id : Nat, (t.get id).scope.get? name = none → (t'.get id).scope.get? name = none)
    (hsees : t.Sees name id owner) : t'.Sees name id owner := by
  induction hsees with
  | here id => exact .here id
  | @up id p owner hname hparent _ ih =>
    exact .up (hget id hname) ((hframes.sameShape.parent_eq id).trans hparent) ih

/-- **Another binding changes nothing but what is held by the variable that was looked up.** -/
theorem Filed.rebinds (ht : t.Filed) (hv : t.lookup? block name = some (owner, v))
    (h : t.setBinding? block name binding = some t') : t.Rebinds owner name binding t' := by
  have hget := get?_of_lookup? hv
  have hget' := ht.get?_of_setBinding? hv h
  obtain ⟨ht', hframes⟩ := ht.edit? (e := .set block name binding) h
  -- the same blocks declare the same names
  have hnone : ∀ (id : Nat) (other : String), (t.get id).scope.get? other = none ↔
      (t'.get id).scope.get? other = none := by
    intro id other
    rw [hget']
    split
    · next hid => simp [hid.1, hid.2, hget]
    · exact Iff.rfl
  have hsees : ∀ {other : String} {id o : Nat}, t.Sees other id o ↔ t'.Sees other id o :=
    fun {other id o} => ⟨.congr hframes fun id => (hnone id other).mp,
      .congr ⟨hframes.size_eq.symm, fun i => (hframes.frame_eq i).symm⟩ fun id =>
        (hnone id other).mpr⟩
  refine ⟨fun id w hlookup => ?_, fun id other hne => ?_⟩
  · obtain ⟨hsees', hw⟩ := ht.nested.lookup?_eq_some_iff.mp hlookup
    obtain rfl : v = w := Option.some.inj (hget.symm.trans hw)
    refine ht'.nested.lookup?_eq_some_iff.mpr ⟨hsees.mp hsees', ?_⟩
    rw [hget', if_pos ⟨rfl, rfl⟩]
  · refine Option.ext fun ⟨o, w⟩ => ?_
    rw [ht'.nested.lookup?_eq_some_iff, ht.nested.lookup?_eq_some_iff, hget', ← hsees]
    refine and_congr_right fun hsees' => ?_
    split
    · next ho =>
      obtain ⟨rfl, rfl⟩ := ho
      exact absurd ⟨rfl, v, ht.nested.lookup?_eq_some_iff.mpr ⟨hsees', hget⟩⟩ hne
    · exact Iff.rfl

/-! ## Any number of edits -/

/-- A tree after some edits; one that is refused leaves it as it is. -/
def edited (t : BlockTree) (edits : List Edit) : BlockTree :=
  edits.foldl (fun t e => (t.edit? e).getD t) t

/-- So does any number of edits. -/
theorem Filed.edited (ht : t.Filed) (edits : List Edit) :
    (t.edited edits).Filed ∧ SameFrames t (t.edited edits) := by
  induction edits generalizing t with
  | nil => exact ⟨ht, .refl t⟩
  | cons e edits ih =>
    rw [BlockTree.edited, List.foldl_cons, ← BlockTree.edited]
    cases he : t.edit? e with
    | none => exact ih ht
    | some t' =>
      obtain ⟨ht', hframes⟩ := ht.edit? he
      exact (ih ht').imp_right hframes.trans

theorem edited_append (t : BlockTree) (edits : List Edit) (e : Edit) :
    t.edited (edits ++ [e]) = ((t.edited edits).edit? e).getD (t.edited edits) := by
  rw [edited, edited, List.foldl_append, List.foldl_cons, List.foldl_nil]

end BlockTree

open BlockTree (SameFrames Edit)

namespace Program

variable {source : Text} {sourceId : Nat} {p : Program}

/-- Before the first statement there is nothing to file. -/
theorem filed_classified {f : Forest} (hf : place source = .ok f) : (classified source f).Filed :=
  ⟨(headed_classified hf).1.toNested, fun id => (wellTyped_classified hf id).filed⟩

theorem filed_tree (hp : ofText source sourceId = .ok p) : p.tree.Filed :=
  ⟨nested_tree hp, fun id => ((reaches_tree hp).wellTyped id).filed⟩

/-- **What an edit changes about names, whatever edits came before.** The frames of the blocks are
those of the parsed tree. A declaration is refused exactly where the block has a variable of the
name, and an edit that is refused changes nothing. One that is made gives the name its new variable
in all blocks from which the block is seen and changes nothing else. A binding is replaced exactly
where the name means something, and then for all blocks in which it means the same variable, and
nothing else changes. -/
theorem edits_resolve (hp : ofText source sourceId = .ok p) (edits : List Edit) :
    let t := p.tree.edited edits
    SameFrames p.tree t ∧
    (∀ e, p.tree.edited (edits ++ [e]) = (t.edit? e).getD t) ∧
    (∀ block < t.size, ∀ v,
      (t.edit? (.declare block v) = none ↔ ∃ w ∈ (t.get block).scope.toList, w.name = v.name) ∧
      ∀ t', t.edit? (.declare block v) = some t' → t.Declares block v t') ∧
    ∀ block < t.size, ∀ name binding,
      ((t.edit? (.set block name binding)).isSome = (t.lookup? block name).isSome) ∧
      ∀ t' owner v, t.lookup? block name = some (owner, v) →
        t.edit? (.set block name binding) = some t' → t.Rebinds owner name binding t' := by
  intro t
  obtain ⟨ht, hframes⟩ := (filed_tree hp).edited edits
  refine ⟨hframes, p.tree.edited_append edits, fun block hblock v => ⟨?_, fun t' h => ?_⟩,
    fun block _ name binding => ⟨ht.isSome_setBinding?, fun t' owner v hlookup h => ?_⟩⟩
  · rw [← Scope.declare?_eq_none_iff]
    exact Option.map_eq_none_iff
  · exact ht.declares hblock h
  · exact ht.rebinds hlookup h

/-- A block in the middle gets a variable of a name that is declared further up and further down,
and then another binding from the block that sees it. -/
theorem edits_resolve_of_shadowing : ∃ source p v t t', ofText source 0 = .ok p ∧
    source =
      "var a : Integer = 1\nf \x7b g \x7b h \x7b var a : Integer = 2 \x7d \x7d \x7d".toList ∧
    t = p.tree.edited [.declare 3 v] ∧ 3 < t.size ∧ t.edit? (.declare 3 v) = none ∧
    (∃ w ∈ (t.get 3).scope.toList, w.name = v.name) ∧
    t.edit? (.set 2 "a" (.value (.boolean true))) = some t' ∧
    t.Rebinds 3 "a" (.value (.boolean true)) t' ∧
    ((List.range 4).map fun id => (t'.lookup? id "a").bind fun found =>
        found.2.binding.value?.map Value.kind) =
      [some .integer, some .integer, some .boolean, some .boolean] := by
  generalize hsource :
    "var a : Integer = 1\nf \x7b g \x7b h \x7b var a : Integer = 2 \x7d \x7d \x7d".toList = source
  let v : Variable := ⟨"a", true, .boolean, .null, ⟨0, 0⟩⟩
  have hparsed : ((ofText source 0).toOption.map fun p =>
      let t := p.tree.edited [.declare 3 v]
      ((t.size, (t.edit? (.declare 3 v)).isNone, (t.lookup? 2 "a").map (·.1)),
        (t.edit? (.set 2 "a" (.value (.boolean true)))).map fun t' =>
          (List.range 4).map fun id => (t'.lookup? id "a").bind fun found =>
            found.2.binding.value?.map Value.kind)) =
      some ((4, true, some 3),
        some [some .integer, some .integer, some .boolean, some .boolean]) := by
    subst hsource
    decide +kernel
  obtain ⟨p, hp, hfacts⟩ := exists_of_toOption_map hparsed
  obtain ⟨hshape, hedit⟩ := Prod.mk.inj hfacts
  obtain ⟨hsize, hnone, hlookup⟩ : _ ∧ _ ∧ _ := by simpa only [Prod.mk.injEq] using hshape
  obtain ⟨t', ht', hlookups⟩ := Option.map_eq_some_iff.mp hedit
  obtain ⟨⟨owner, w⟩, hmeans, rfl⟩ := Option.map_eq_some_iff.mp hlookup
  have hnone := Option.isNone_iff_eq_none.mp hnone
  obtain ⟨-, -, hdeclare, hset⟩ := edits_resolve hp [.declare 3 v]
  have hblock : 3 < (p.tree.edited [.declare 3 v]).size := hsize ▸ by decide
  refine ⟨source, p, v, _, t', hp, rfl, rfl, hblock, hnone,
    (hdeclare 3 hblock v).1.mp hnone, ht', ?_, hlookups⟩
  exact (hset 2 (hsize ▸ by decide) "a" _).2 t' 3 w hmeans ht'

end Program
end BraceTree
