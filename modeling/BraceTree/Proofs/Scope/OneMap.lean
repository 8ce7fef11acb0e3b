import Mathlib.Data.List.Dedup
import BraceTree.Proofs.Scope.Edited

/-!
# A scope is one map

A scope is used like a single map from names to variables, into which a name is put once. What it
keeps is six collections instead, and which of them has a variable is not noted anywhere: whoever
changes a variable finds out its kind first and then seeks the name again in the collection of this
kind (`Scope.reach?`). The two agree in an arranged scope, and all scopes that come about step by
step are arranged (`arranged_run`).

So what a name means after some steps can be told from the steps alone (`Scope.described`): it is
the first variable declared under the name, with the last binding that was put into it. A binding
for a name that is not declared yet has nowhere to go, and a second declaration gives nothing up.
-/

namespace BraceTree.Scope

variable {s s' : Scope} {v w : Variable} {k : Kind} {name other : String} {b : Binding}

/-! ## The list of all variables -/

/-- **All variables are listed**, each as what its name means. -/
theorem Arranged.mem_toList_iff (h : s.Arranged) :
    v ∈ s.toList ↔ s.get? v.name = some v := by
  rw [toList, List.mem_flatMap]
  constructor
  · rintro ⟨k, -, hv⟩
    cases hget : s.get? v.name with
    | none => exact absurd rfl (get?_eq_none_iff.mp hget k v hv)
    | some w =>
      obtain ⟨⟨l, hw⟩, hname⟩ := mem_of_get? hget
      rw [h.eq_of_name_eq hw hv hname]
  · intro hget
    obtain ⟨⟨k, hv⟩, -⟩ := mem_of_get? hget
    exact ⟨k, k.mem_all, hv⟩

/-- **They are listed by kind and then by name.** -/
theorem Arranged.pairwise_toList (h : s.Arranged) : s.toList.Pairwise fun v w =>
    Kind.all.idxOf v.kind < Kind.all.idxOf w.kind ∨ v.kind = w.kind ∧ v.name < w.name := by
  refine List.pairwise_flatMap.mpr ⟨fun k _ => ?_, ?_⟩
  · refine (h.ordered k).imp_of_mem fun {v w} hv hw hlt => ?_
    exact .inr ⟨(h.kind_eq hv).trans (h.kind_eq hw).symm, hlt⟩
  · have hkinds : Kind.all.Pairwise fun k l => Kind.all.idxOf k < Kind.all.idxOf l := by decide
    refine hkinds.imp fun {k l} hlt v hv w hw => ?_
    rw [h.kind_eq hv, h.kind_eq hw]
    exact .inl hlt

/-- No name is listed twice. -/
theorem Arranged.nodup_names (h : s.Arranged) : (s.toList.map (·.name)).Nodup := by
  refine List.pairwise_map.mpr (h.pairwise_toList.imp_of_mem fun {v w} hv hw hvw hname => ?_)
  rw [h.mem_toList_iff] at hv hw
  rw [hname, hw] at hv
  obtain rfl := Option.some.inj hv
  rcases hvw with hlt | ⟨-, hlt⟩
  · exact Nat.lt_irrefl _ hlt
  · exact String.lt_irrefl _ hlt

/-! ## Steps -/

/-- A step on a scope. -/
inductive Step where
  /-- Declare a variable. -/
  | declare (v : Variable)
  /-- Reach the variable of a name and replace its binding. -/
  | set (name : String) (binding : Binding)

/-- What is answered to a step. -/
inductive Answer where
  /-- The variable was declared. -/
  | declared
  /-- The name is taken, and the new variable is handed back. -/
  | refused (v : Variable)
  /-- This variable was reached, and its binding replaced. -/
  | reached (v : Variable)
  /-- There is no variable of the name. -/
  | unknown

/-- Takes a step. -/
def perform (s : Scope) : Step → Scope × Answer
  | .declare v =>
    match s.declare? v with
    | some s' => (s', .declared)
    | none => (s, .refused v)
  | .set name binding =>
    match s.reach? name with
    | some v => ((s.setBinding? name binding).getD s, .reached v)
    | none => (s, .unknown)

/-- The scope after some more steps. -/
def runFrom (s : Scope) (steps : List Step) : Scope :=
  steps.foldl (fun s step => (s.perform step).1) s

/-- The scope after some steps. -/
def run (steps : List Step) : Scope := empty.runFrom steps

/-- What becomes of a scope in a step: it stays, or it has one more variable, or one variable has
another binding. -/
theorem Arranged.perform_cases (h : s.Arranged) (step : Step) :
    (∃ v, step = .declare v ∧ (s.get? v.name).isSome ∧ s.perform step = (s, .refused v)) ∨
    (∃ v s', step = .declare v ∧ s.declare? v = some s' ∧ s.perform step = (s', .declared)) ∨
    (∃ name b, step = .set name b ∧ s.get? name = none ∧ s.perform step = (s, .unknown)) ∨
    (∃ name b v s', step = .set name b ∧ s.get? name = some v ∧ s.setBinding? name b = some s' ∧
      s.Rebinds v b s' ∧ s.perform step = (s', .reached v)) := by
  cases step with
  | declare v =>
    cases hd : s.declare? v with
    | none =>
      refine .inl ⟨v, rfl, ?_, by rw [perform, hd]⟩
      rw [Scope.declare?] at hd
      split at hd
      · next hcontains => exact hcontains
      · cases hd
    | some s' => exact .inr (.inl ⟨v, s', rfl, hd, by rw [perform, hd]⟩)
  | set name b =>
    cases hv : s.get? name with
    | none => exact .inr (.inr (.inl ⟨name, b, rfl, hv, by rw [perform, h.filed.reach?_eq, hv]⟩))
    | some v =>
      obtain ⟨s', hset, hrebinds⟩ := h.setBinding? hv b
      refine .inr (.inr (.inr ⟨name, b, v, s', rfl, hv, hset, hrebinds, ?_⟩))
      rw [perform, h.filed.reach?_eq, hv, hset, Option.getD_some]

/-- **A step keeps a scope arranged.** -/
theorem Arranged.perform (h : s.Arranged) (step : Step) : (s.perform step).1.Arranged := by
  rcases h.perform_cases step with ⟨v, -, -, heq⟩ | ⟨v, s', -, hd, heq⟩ | ⟨name, b, -, -, heq⟩ |
    ⟨name, b, v, s', -, -, -, hrebinds, heq⟩
  · exact heq ▸ h
  · exact heq ▸ h.declare? hd
  · exact heq ▸ h
  · exact heq ▸ h.rebinds hrebinds

/-- **So do any number of steps.** -/
theorem Arranged.runFrom (h : s.Arranged) (steps : List Step) : (s.runFrom steps).Arranged := by
  induction steps generalizing s with
  | nil => exact h
  | cons step steps ih => exact ih (h.perform step)

theorem arranged_run (steps : List Step) : (run steps).Arranged := arranged_empty.runFrom steps

/-! ## What a name means after some steps -/

namespace Step

/-- The name that a step declares, if it is a declaration. -/
def declaredName? : Step → Option String
  | .declare v => some v.name
  | .set .. => none

/-- The binding that a step puts into the variable of a name. -/
def bindingOf? (name : String) : Step → Option Binding
  | .declare _ => none
  | .set other b => if other = name then some b else none

end Step

/-- A variable of a name with the last binding that some steps put into it, if one of them does. -/
def updated (name : String) (steps : List Step) (v : Variable) : Variable :=
  { v with binding := (steps.filterMap (Step.bindingOf? name)).getLast?.getD v.binding }

/-- **What a name means after some steps**, told from the steps: the variable that is declared first
under the name, with the last binding that is put into it afterwards. -/
def described (name : String) : List Step → Option Variable
  | [] => none
  | .declare v :: steps =>
    if v.name = name then some (updated name steps v) else described name steps
  | .set .. :: steps => described name steps

theorem updated_declare (name : String) (v : Variable) (steps : List Step) :
    updated name (.declare v :: steps) = updated name steps := rfl

theorem updated_set_self (name : String) (b : Binding) (steps : List Step) (v : Variable) :
    updated name (.set name b :: steps) v = updated name steps { v with binding := b } := by
  have hb : Step.bindingOf? name (.set name b) = some b := if_pos rfl
  rw [updated, List.filterMap_cons_some hb, List.getLast?_cons]
  rfl

theorem updated_set_ne (h : other ≠ name) (b : Binding) (steps : List Step) :
    updated name (.set other b :: steps) = updated name steps := by
  have hb : Step.bindingOf? name (.set other b) = none := if_neg h
  funext v
  rw [updated, List.filterMap_cons_none hb]
  rfl

/-- **Looking a name up after some more steps.** What the name meant before goes on with the last
binding that the steps put into it. If it meant nothing, the steps alone tell. -/
theorem Arranged.get?_runFrom (h : s.Arranged) (steps : List Step) (name : String) :
    (s.runFrom steps).get? name =
      ((s.get? name).map (updated name steps)).or (described name steps) := by
  induction steps generalizing s with
  | nil =>
    show s.get? name = _
    cases s.get? name <;> rfl
  | cons step steps ih =>
    show ((s.perform step).1.runFrom steps).get? name = _
    rw [ih (h.perform step)]
    rcases h.perform_cases step with ⟨v, rfl, hsome, heq⟩ | ⟨v, s', rfl, hd, heq⟩ |
      ⟨other, b, rfl, hnone, heq⟩ | ⟨other, b, v, s', rfl, hv, hset, -, heq⟩
    · -- the name is taken, so the declaration is not the first one
      rw [heq, updated_declare, described]
      split
      · next hname =>
        obtain ⟨w, hw⟩ := Option.isSome_iff_exists.mp hsome
        rw [← hname, hw]
        rfl
      · rfl
    · rw [heq, get?_of_declare? hd, updated_declare, described]
      split
      · next hname =>
        rw [← hname, (declare?_eq_some hd).1]
        rfl
      · rfl
    · -- there is nothing to put the binding into
      rw [heq, described]
      by_cases hname : other = name
      · rw [← hname, hnone]
        rfl
      · rw [updated_set_ne hname]
    · rw [heq, get?_of_setBinding? h.filed hset hv, described]
      by_cases hname : name = other
      · rw [if_pos hname, hname, hv, Option.map_some, Option.map_some, updated_set_self]
      · rw [if_neg hname, updated_set_ne (Ne.symm hname)]

/-- **After some steps a name means what the steps tell.** -/
theorem get?_run (steps : List Step) (name : String) :
    (run steps).get? name = described name steps := by
  have hempty : empty.get? name = none :=
    get?_eq_none_iff.mpr fun k v hv => absurd (collection_empty k ▸ hv) List.not_mem_nil
  rw [run, arranged_empty.get?_runFrom, hempty]
  exact Option.none_or

/-- A name means something if it was declared. -/
theorem isSome_described {steps : List Step} :
    (described name steps).isSome ↔ name ∈ steps.filterMap Step.declaredName? := by
  induction steps with
  | nil => simp [described]
  | cons step steps ih =>
    cases step with
    | declare v =>
      have hname : Step.declaredName? (.declare v) = some v.name := rfl
      rw [described, List.filterMap_cons_some hname, List.mem_cons]
      split
      · next hname => exact iff_of_true rfl (.inl hname.symm)
      · next hname => rw [ih, or_iff_right (Ne.symm hname)]
    | set other b => exact ih

/-- The names in a scope are the declared ones. -/
theorem mem_names_run {steps : List Step} :
    name ∈ (run steps).toList.map (·.name) ↔ name ∈ steps.filterMap Step.declaredName? := by
  rw [← isSome_described, ← get?_run, Option.isSome_iff_exists, List.mem_map]
  constructor
  · rintro ⟨v, hv, rfl⟩
    exact ⟨v, (arranged_run steps).mem_toList_iff.mp hv⟩
  · rintro ⟨v, hv⟩
    obtain ⟨-, rfl⟩ := mem_of_get? hv
    exact ⟨v, (arranged_run steps).mem_toList_iff.mpr hv, rfl⟩

/-- **A scope is one map with a place for each name.** After any steps a name means what the steps
tell. A declaration is accepted if its name was not declared before, and is handed back otherwise
and leaves the scope as it is. A variable is reached exactly where it is found, and then it is the
same one; where there is none, the scope stays as it is. There are as many variables as different
names were declared. They are listed by kind and then by name, each as what its name means, and no
name twice. -/
theorem run_eq_one_map (steps : List Step) :
    (∀ name, (run steps).get? name = described name steps) ∧
    (∀ v : Variable,
      (v.name ∈ steps.filterMap Step.declaredName? →
        (run steps).perform (.declare v) = (run steps, .refused v)) ∧
      (v.name ∉ steps.filterMap Step.declaredName? →
        (run steps).perform (.declare v) = (run (steps ++ [.declare v]), .declared))) ∧
    (∀ name, (run steps).reach? name = (run steps).get? name ∧ ∀ binding,
      (run steps).perform (.set name binding) =
        match (run steps).get? name with
        | some v => (run (steps ++ [.set name binding]), .reached v)
        | none => (run steps, .unknown)) ∧
    (run steps).size = (steps.filterMap Step.declaredName?).dedup.length ∧
    (∀ v, v ∈ (run steps).toList ↔ (run steps).get? v.name = some v) ∧
    ((run steps).toList.map (·.name)).Nodup ∧
    (run steps).toList.Pairwise fun v w =>
      Kind.all.idxOf v.kind < Kind.all.idxOf w.kind ∨ v.kind = w.kind ∧ v.name < w.name := by
  have h := arranged_run steps
  have hconcat : ∀ step, run (steps ++ [step]) = ((run steps).perform step).1 := fun step =>
    List.foldl_concat ..
  refine ⟨get?_run steps, fun v => ?_, fun name => ⟨h.filed.reach?_eq name, fun b => ?_⟩, ?_,
    fun v => h.mem_toList_iff, h.nodup_names, h.pairwise_toList⟩
  · rw [← isSome_described, ← get?_run, hconcat]
    rcases h.perform_cases (.declare v) with ⟨_, hv, hsome, heq⟩ | ⟨_, s', hv, hd, heq⟩ |
      ⟨_, _, hv, -, -⟩ | ⟨_, _, _, _, hv, -, -, -, -⟩
    · obtain rfl := Step.declare.inj hv
      exact ⟨fun _ => heq, fun hnot => absurd hsome hnot⟩
    · obtain rfl := Step.declare.inj hv
      rw [(declare?_eq_some hd).1, heq]
      exact ⟨fun hsome => Bool.noConfusion hsome, fun _ => rfl⟩
    · cases hv
    · cases hv
  · rw [hconcat]
    rcases h.perform_cases (.set name b) with ⟨_, hv, -, -⟩ | ⟨_, _, hv, -, -⟩ |
      ⟨_, _, hv, hnone, heq⟩ | ⟨_, _, v, s', hv, hget, -, -, heq⟩
    · cases hv
    · cases hv
    · obtain ⟨rfl, rfl⟩ := Step.set.inj hv
      rw [hnone, heq]
    · obtain ⟨rfl, rfl⟩ := Step.set.inj hv
      rw [hget, heq]
  · rw [size, ← List.length_map (f := (·.name))]
    refine List.Perm.length_eq ((List.perm_ext_iff_of_nodup h.nodup_names
      (List.nodup_dedup _)).mpr fun name => ?_)
    rw [mem_names_run, List.mem_dedup]

/-- A binding that comes too early, one that comes in time, a second declaration under another kind,
and a kind that is listed first although it comes last. -/
def mixedSteps : List Step :=
  [.set "b" (.deferred "f()"), .declare ⟨"b", true, .integer, .null, ⟨0, 1⟩⟩,
    .declare ⟨"a", true, .integer, .null, ⟨1, 2⟩⟩, .set "b" (.deferred "g()"),
    .declare ⟨"b", true, .string, .null, ⟨2, 3⟩⟩, .declare ⟨"é", true, .string, .null, ⟨3, 4⟩⟩]

theorem run_eq_one_map_of_mixedSteps :
    (run mixedSteps).get? "b" = some ⟨"b", true, .integer, .deferred "g()", ⟨0, 1⟩⟩ ∧
      (run mixedSteps).perform (.declare ⟨"b", true, .string, .null, ⟨2, 3⟩⟩) =
        (run mixedSteps, .refused ⟨"b", true, .string, .null, ⟨2, 3⟩⟩) ∧
      (run mixedSteps).size = 3 ∧
      (run mixedSteps).toList.map (fun v => (v.name, v.kind)) =
        [("é", .string), ("a", .integer), ("b", .integer)] := by
  obtain ⟨hget, hdeclare, -, hsize, -⟩ := run_eq_one_map mixedSteps
  refine ⟨(hget "b").trans rfl, (hdeclare _).1 (by decide), hsize.trans (by decide), ?_⟩
  decide +kernel

end BraceTree.Scope
