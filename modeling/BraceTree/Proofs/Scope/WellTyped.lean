import Mathlib.Data.List.Nodup
import Mathlib.Tactic.Tauto
import BraceTree.Proofs.Value.Holds

/-!
# Well-typed scopes

A scope keeps its variables in six collections, and looking a name up goes through all six. That it
finds the one variable of the name, and that replacing a binding reaches this variable and no other,
rests on three things that no type states: every variable lies in the collection of its kind, the
collections are ordered by name, and no name is in two of them. A scope for which they hold is
*arranged*. They do not depend on what the variables hold, so an arranged scope stays arranged
whatever binding is put into it, and a well-typed one stays well-typed if the binding fits.

There are two edits. `Adds` and `Rebinds` say what each of them does to the collections, one
variable at a place of one collection and nothing else. That is all that is needed further on.
-/

namespace BraceTree.Scope

variable {s s' : Scope} {v w : Variable} {k l : Kind} {name : String} {b : Binding}

/-- **A well-typed scope.** -/
structure WellTyped (s : Scope) : Prop where
  /-- A variable lies in the collection that the kind of its type has. -/
  kind_eq : ∀ {k v}, v ∈ s.collection k → v.kind = k
  /-- A collection is ordered by name and has no name twice. -/
  ordered : ∀ k, (s.collection k).Pairwise fun v w => v.name < w.name
  /-- A name occurs in one collection only. -/
  one_kind : ∀ {k l v w}, v ∈ s.collection k → w ∈ s.collection l → v.name = w.name → k = l
  /-- A value is in the representation of the declared type. -/
  fits : ∀ {k v}, v ∈ s.collection k → v.binding.Fits v.type

/-- **A scope whose collections are in order**, whatever its variables hold. -/
structure Arranged (s : Scope) : Prop where
  /-- A variable lies in the collection that the kind of its type has. -/
  kind_eq : ∀ {k v}, v ∈ s.collection k → v.kind = k
  /-- A collection is ordered by name and has no name twice. -/
  ordered : ∀ k, (s.collection k).Pairwise fun v w => v.name < w.name
  /-- A name occurs in one collection only. -/
  one_kind : ∀ {k l v w}, v ∈ s.collection k → w ∈ s.collection l → v.name = w.name → k = l

theorem WellTyped.arranged (h : s.WellTyped) : s.Arranged := ⟨h.kind_eq, h.ordered, h.one_kind⟩

theorem Arranged.wellTyped (h : s.Arranged)
    (hfits : ∀ {k v}, v ∈ s.collection k → v.binding.Fits v.type) : s.WellTyped :=
  ⟨h.kind_eq, h.ordered, h.one_kind, hfits⟩

/-! ## Looking a name up -/

theorem get?_eq_none_iff : s.get? name = none ↔ ∀ k, ∀ v ∈ s.collection k, v.name ≠ name := by
  simp only [get?, List.findSome?_eq_none_iff, List.find?_eq_none, beq_iff_eq]
  exact ⟨fun h k => h k k.mem_all, fun h k _ => h k⟩

theorem mem_of_get? (h : s.get? name = some v) : (∃ k, v ∈ s.collection k) ∧ v.name = name := by
  obtain ⟨k, -, hk⟩ := List.exists_of_findSome?_eq_some h
  exact ⟨⟨k, List.mem_of_find?_eq_some hk⟩, by simpa using List.find?_some hk⟩

theorem size_eq_add (s : Scope) : s.size =
    (s.collection .string).length + ((s.collection .integer).length +
      ((s.collection .double).length + ((s.collection .boolean).length +
        ((s.collection .array).length + (s.collection .map).length)))) := by
  simp [size, toList, Kind.all]

/-- Every change to one collection can be taken apart into the collections. -/
theorem collection_modifyCollection_self (s : Scope) (k : Kind)
    (f : List Variable → List Variable) :
    (s.modifyCollection k f).collection k = f (s.collection k) := by
  rw [collection_modifyCollection, if_pos rfl]

theorem collection_modifyCollection_ne (s : Scope) (f : List Variable → List Variable)
    (h : l ≠ k) : (s.modifyCollection k f).collection l = s.collection l := by
  rw [collection_modifyCollection, if_neg h.symm]

namespace Arranged

/-- **A name is the name of one variable.** -/
theorem eq_of_name_eq (h : s.Arranged) (hv : v ∈ s.collection k) (hw : w ∈ s.collection l)
    (hname : v.name = w.name) : v = w := by
  obtain rfl := h.one_kind hv hw hname
  have hnames : ((s.collection k).map (·.name)).Nodup :=
    List.pairwise_map.mpr ((h.ordered k).imp fun {x y} hlt (heq : x.name = y.name) => by
      rw [heq] at hlt
      exact String.lt_irrefl _ hlt)
  exact List.inj_on_of_nodup_map hnames hv hw hname

theorem mem_collection_kind (h : s.Arranged) (hv : v ∈ s.collection k) :
    v ∈ s.collection v.kind := by
  rw [h.kind_eq hv]
  exact hv

end Arranged

theorem collection_empty (k : Kind) : empty.collection k = [] := by cases k <;> rfl

theorem arranged_empty : empty.Arranged := by
  refine ⟨fun {k _} hv => ?_, fun k => ?_, fun {k _ _ _} hv => ?_⟩
  · exact absurd (collection_empty k ▸ hv) List.not_mem_nil
  · rw [collection_empty k]
    exact List.Pairwise.nil
  · exact absurd (collection_empty k ▸ hv) List.not_mem_nil

theorem wellTyped_empty : empty.WellTyped :=
  arranged_empty.wellTyped fun {k _} hv => absurd (collection_empty k ▸ hv) List.not_mem_nil

/-! ## Adding a variable -/

/-- **A scope with one variable more**, whose name was not in it. -/
structure Adds (s : Scope) (v : Variable) (s' : Scope) : Prop where
  /-- The name is new. -/
  absent : ∀ k, ∀ w ∈ s.collection k, w.name ≠ v.name
  /-- The variable gets into the collection of its kind. -/
  at_kind : ∃ before after, s.collection v.kind = before ++ after ∧
    s'.collection v.kind = before ++ v :: after
  /-- The other collections stay. -/
  others : ∀ k, k ≠ v.kind → s'.collection k = s.collection k

theorem insertByName_eq (v : Variable) (vs : List Variable) :
    ∃ before after, vs = before ++ after ∧ insertByName v vs = before ++ v :: after := by
  induction vs with
  | nil => exact ⟨[], [], rfl, rfl⟩
  | cons w ws ih =>
    rw [insertByName]
    split
    · exact ⟨[], w :: ws, rfl, rfl⟩
    · obtain ⟨before, after, hws, hins⟩ := ih
      exact ⟨w :: before, after, congrArg (w :: ·) hws, congrArg (w :: ·) hins⟩

theorem mem_insertByName {vs : List Variable} : w ∈ insertByName v vs ↔ w = v ∨ w ∈ vs := by
  obtain ⟨before, after, hvs, hins⟩ := insertByName_eq v vs
  rw [hins, hvs, List.mem_append, List.mem_cons, List.mem_append]
  exact or_left_comm

/-- A new name keeps a collection ordered. -/
theorem pairwise_insertByName {vs : List Variable}
    (hvs : vs.Pairwise fun v w => v.name < w.name) (hnew : ∀ w ∈ vs, w.name ≠ v.name) :
    (insertByName v vs).Pairwise fun v w => v.name < w.name := by
  induction vs with
  | nil => exact List.pairwise_singleton _ v
  | cons w ws ih =>
    obtain ⟨hw, hws⟩ := List.pairwise_cons.mp hvs
    rw [insertByName]
    split
    · rename_i hlt
      refine List.pairwise_cons.mpr ⟨fun x hx => ?_, hvs⟩
      rcases List.mem_cons.mp hx with rfl | hx
      · exact hlt
      · exact String.lt_trans hlt (hw x hx)
    · rename_i hnlt
      refine List.pairwise_cons.mpr
        ⟨fun x hx => ?_, ih hws fun x hx => hnew x (List.mem_cons_of_mem w hx)⟩
      rcases mem_insertByName.mp hx with rfl | hx
      · by_contra hle
        exact hnew w List.mem_cons_self (String.le_antisymm hnlt hle)
      · exact hw x hx

theorem declare?_eq_some (h : s.declare? v = some s') :
    s.get? v.name = none ∧ s' = s.modifyCollection v.kind (insertByName v) := by
  unfold declare? at h
  split at h
  · exact absurd h (by simp)
  · rename_i hc
    refine ⟨?_, (Option.some.inj h).symm⟩
    rwa [contains, Option.not_isSome_iff_eq_none] at hc

/-- **A declaration adds its variable** and changes nothing else. -/
theorem adds_of_declare? (h : s.declare? v = some s') : s.Adds v s' := by
  obtain ⟨hnew, rfl⟩ := declare?_eq_some h
  refine ⟨get?_eq_none_iff.mp hnew, ?_, fun k hk => collection_modifyCollection_ne s _ hk⟩
  rw [collection_modifyCollection_self]
  exact insertByName_eq v _

namespace Adds

theorem mem_iff (h : s.Adds v s') :
    w ∈ s'.collection k ↔ w ∈ s.collection k ∨ w = v ∧ k = v.kind := by
  by_cases hk : k = v.kind
  · subst hk
    obtain ⟨before, after, hs, hs'⟩ := h.at_kind
    rw [hs, hs', List.mem_append, List.mem_cons, List.mem_append]
    tauto
  · rw [h.others k hk]
    exact ⟨Or.inl, fun hw => hw.elim id fun hv => absurd hv.2 hk⟩

theorem size_eq (h : s.Adds v s') : s'.size = s.size + 1 := by
  have hlen : ∀ k, (s'.collection k).length =
      (s.collection k).length + if k = v.kind then 1 else 0 := fun k => by
    split
    · rename_i hk
      subst hk
      obtain ⟨before, after, hs, hs'⟩ := h.at_kind
      rw [hs, hs', List.length_append, List.length_append, List.length_cons, Nat.add_assoc]
    · rename_i hk
      rw [h.others k hk, Nat.add_zero]
  rw [size_eq_add, size_eq_add]
  simp only [hlen]
  cases v.kind <;> simp <;> omega

end Adds

/-- **An arranged scope stays arranged** when a variable is declared. -/
theorem Arranged.declare? (h : s.Arranged) (hd : s.declare? v = some s') : s'.Arranged := by
  have hadds := adds_of_declare? hd
  refine ⟨fun {k w} hw => ?_, fun k => ?_, fun {k l w x} hw hx hname => ?_⟩
  · rcases hadds.mem_iff.mp hw with hw | ⟨rfl, rfl⟩
    · exact h.kind_eq hw
    · rfl
  · obtain ⟨-, rfl⟩ := declare?_eq_some hd
    by_cases hk : k = v.kind
    · subst hk
      rw [collection_modifyCollection_self]
      exact pairwise_insertByName (h.ordered _) (hadds.absent _)
    · rw [collection_modifyCollection_ne s _ hk]
      exact h.ordered k
  · rcases hadds.mem_iff.mp hw with hw | ⟨rfl, rfl⟩ <;>
      rcases hadds.mem_iff.mp hx with hx | ⟨rfl, rfl⟩
    · exact h.one_kind hw hx hname
    · exact absurd hname (hadds.absent k w hw)
    · exact absurd hname.symm (hadds.absent l x hx)
    · rfl

/-- **A well-typed scope stays well-typed** when a variable whose binding fits is declared. -/
theorem WellTyped.declare? (h : s.WellTyped) (hfits : v.binding.Fits v.type)
    (hd : s.declare? v = some s') : s'.WellTyped :=
  (h.arranged.declare? hd).wellTyped fun {k w} hw => by
    rcases (adds_of_declare? hd).mem_iff.mp hw with hw | ⟨rfl, -⟩
    · exact h.fits hw
    · exact hfits

/-! ## Replacing a binding -/

/-- **A scope with every variable in the collection of its kind.** -/
def Filed (s : Scope) : Prop := ∀ k, ∀ v ∈ s.collection k, v.kind = k

theorem Arranged.filed (h : s.Arranged) : s.Filed := fun _ _ => h.kind_eq

/-- **What is reached is what is found**, as long as variables are in the collections of their
kinds. -/
theorem Filed.reach?_eq (h : s.Filed) (name : String) : s.reach? name = s.get? name := by
  rw [reach?]
  cases hv : s.get? name with
  | none => rfl
  | some v =>
    obtain ⟨_, k, _, -, hk, -⟩ := List.findSome?_eq_some_iff.mp hv
    obtain rfl : v.kind = k := h k v (List.mem_of_find?_eq_some hk)
    exact hk

/-- **A scope with another binding for one of its variables.** -/
structure Rebinds (s : Scope) (v : Variable) (b : Binding) (s' : Scope) : Prop where
  /-- The variable keeps its place and everything but its binding. -/
  at_kind : ∃ before after, s.collection v.kind = before ++ v :: after ∧
    s'.collection v.kind = before ++ { v with binding := b } :: after
  /-- The other collections stay. -/
  others : ∀ k, k ≠ v.kind → s'.collection k = s.collection k

/-- **In an arranged scope a binding is replaced where the name is looked up**, and nowhere else. -/
theorem Arranged.setBinding? (h : s.Arranged) (hv : s.get? name = some v) (b : Binding) :
    ∃ s', s.setBinding? name b = some s' ∧ s.Rebinds v b s' := by
  obtain ⟨⟨k, hk⟩, rfl⟩ := mem_of_get? hv
  have hmem := h.mem_collection_kind hk
  refine ⟨_, by rw [Scope.setBinding?, h.filed.reach?_eq, hv]; rfl, ?_, fun l hl =>
    collection_modifyCollection_ne s _ hl⟩
  obtain ⟨before, after, hsplit⟩ := List.append_of_mem hmem
  refine ⟨before, after, hsplit, ?_⟩
  -- no other variable of the collection has the name
  have hord := h.ordered v.kind
  rw [hsplit, List.pairwise_append, List.pairwise_cons] at hord
  have hbefore : ∀ w ∈ before, ¬ w.name = v.name := fun w hw heq =>
    String.lt_irrefl v.name (heq ▸ hord.2.2 w hw v List.mem_cons_self)
  have hafter : ∀ w ∈ after, ¬ w.name = v.name := fun w hw heq =>
    String.lt_irrefl v.name (heq ▸ hord.2.1.1 w hw)
  have hid : ∀ vs : List Variable, (∀ w ∈ vs, ¬ w.name = v.name) →
      (vs.map fun w => if w.name = v.name then { w with binding := b } else w) = vs :=
    fun vs hvs => (List.map_congr_left fun w hw => if_neg (hvs w hw)).trans (List.map_id vs)
  rw [collection_modifyCollection_self, hsplit, List.map_append, List.map_cons, hid _ hbefore,
    hid _ hafter, if_pos rfl]

theorem WellTyped.setBinding? (h : s.WellTyped) (hv : s.get? name = some v) (b : Binding) :
    ∃ s', s.setBinding? name b = some s' ∧ s.Rebinds v b s' := h.arranged.setBinding? hv b

namespace Rebinds

theorem mem_self (h : s.Rebinds v b s') : v ∈ s.collection v.kind := by
  obtain ⟨before, after, hs, -⟩ := h.at_kind
  rw [hs]
  exact List.mem_append_right before List.mem_cons_self

/-- Every variable was there before, perhaps with another binding. -/
theorem exists_of_mem (h : s.Rebinds v b s') (hw : w ∈ s'.collection k) :
    w ∈ s.collection k ∨ w = { v with binding := b } ∧ k = v.kind := by
  by_cases hk : k = v.kind
  · subst hk
    obtain ⟨before, after, hs, hs'⟩ := h.at_kind
    rw [hs', List.mem_append, List.mem_cons] at hw
    rw [hs, List.mem_append, List.mem_cons]
    tauto
  · rw [h.others k hk] at hw
    exact .inl hw

/-- Every other variable is still there. -/
theorem eq_of_not_mem (h : s.Rebinds v b s') (hw : w ∈ s.collection k)
    (hw' : w ∉ s'.collection k) : w = v ∧ k = v.kind := by
  by_cases hk : k = v.kind
  · subst hk
    obtain ⟨before, after, hs, hs'⟩ := h.at_kind
    rw [hs, List.mem_append, List.mem_cons] at hw
    rw [hs', List.mem_append, List.mem_cons] at hw'
    tauto
  · rw [h.others k hk] at hw'
    exact absurd hw hw'

theorem rebound_mem (h : s.Rebinds v b s') :
    { v with binding := b } ∈ s'.collection v.kind := by
  obtain ⟨before, after, -, hs'⟩ := h.at_kind
  rw [hs']
  exact List.mem_append_right before List.mem_cons_self

/-- The names of a collection stay in their order. -/
theorem map_name (h : s.Rebinds v b s') (k : Kind) :
    (s'.collection k).map (·.name) = (s.collection k).map (·.name) := by
  by_cases hk : k = v.kind
  · subst hk
    obtain ⟨before, after, hs, hs'⟩ := h.at_kind
    rw [hs, hs', List.map_append, List.map_append]
    rfl
  · rw [h.others k hk]

theorem size_eq (h : s.Rebinds v b s') : s'.size = s.size := by
  have hlen : ∀ k, (s'.collection k).length = (s.collection k).length := fun k => by
    rw [← List.length_map (f := (·.name)), h.map_name, List.length_map]
  rw [size_eq_add, size_eq_add]
  simp only [hlen]

end Rebinds

/-- **An arranged scope stays arranged** when a binding is replaced. -/
theorem Arranged.rebinds (h : s.Arranged) (hr : s.Rebinds v b s') : s'.Arranged := by
  have hself := hr.mem_self
  refine ⟨fun {k w} hw => ?_, fun k => ?_, fun {k l w x} hw hx hname => ?_⟩
  · rcases hr.exists_of_mem hw with hw | ⟨rfl, rfl⟩
    · exact h.kind_eq hw
    · rfl
  · have hnames := List.pairwise_map.mpr (h.ordered k)
    rw [← hr.map_name k] at hnames
    exact List.pairwise_map.mp hnames
  · rcases hr.exists_of_mem hw with hw | ⟨rfl, rfl⟩ <;>
      rcases hr.exists_of_mem hx with hx | ⟨rfl, rfl⟩
    · exact h.one_kind hw hx hname
    · exact h.one_kind hw hself hname
    · exact h.one_kind hself hx hname
    · rfl

/-- **A well-typed scope stays well-typed** when a binding is replaced by one that fits. -/
theorem WellTyped.rebinds (h : s.WellTyped) (hr : s.Rebinds v b s') (hfits : b.Fits v.type) :
    s'.WellTyped :=
  (h.arranged.rebinds hr).wellTyped fun {k w} hw => by
    rcases hr.exists_of_mem hw with hw | ⟨rfl, -⟩
    · exact h.fits hw
    · exact hfits

end BraceTree.Scope
