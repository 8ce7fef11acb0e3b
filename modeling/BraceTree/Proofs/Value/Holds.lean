import BraceTree.Statement.Effect

/-!
# What a variable of a type may hold

A type accepts more values than its variables ever hold. An integer is accepted for a double and an
empty array for a map, and only conversion brings them into the representation of the type. `Holds`
is the representation by itself, without any conversion left to do, and it looks at a value all the
way down.

Every value that gets into a binding has been converted (`holds_coerce`), and additions and
subtractions stay in the representation (`Binding.holds_combine`). So the case of `combine` that is
left for a value of the wrong kind is for values that no binding has
(`Binding.combine_eq_mismatch_iff`).
-/

namespace BraceTree

namespace TypeName

/-- **A value in the representation of a type**, at every depth: no integer stands for a double and
no array for a map. -/
def Holds : TypeName → Value → Prop
  | .string, .string _ => True
  | .integer, .integer _ => True
  | .double, .double _ => True
  | .boolean, .boolean _ => True
  | .array e, .array items => ∀ v ∈ items, e.Holds v
  | .map k v, .map entries => ∀ e ∈ entries, k.Holds e.1 ∧ v.Holds e.2
  | _, _ => False

/-- What a type holds is of its kind. -/
theorem Holds.kind_eq {type : TypeName} {v : Value} (h : type.Holds v) : v.kind = type.kind := by
  cases type <;> cases v <;> first | rfl | exact absurd h id

/-- **Coercing an accepted value brings it into the representation.** -/
theorem holds_coerce {type : TypeName} {v : Value} (h : type.accepts v = true) :
    type.Holds (type.coerce v) := by
  induction type generalizing v with
  | string | integer | double | boolean =>
    cases v <;> first | exact trivial | exact absurd h (by simp [accepts])
  | array e ih =>
    cases v with
    | array items =>
      simp only [accepts, List.all_eq_true] at h
      simp only [coerce, Holds, List.forall_mem_map]
      exact fun v hv => ih (h v hv)
    | _ => exact absurd h (by simp [accepts])
  | map k w ihk ihw =>
    cases v with
    | map entries =>
      simp only [accepts, List.all_eq_true, Bool.and_eq_true] at h
      simp only [coerce, Holds, List.forall_mem_map]
      exact fun e he => ⟨ihk (h e he).1, ihw (h e he).2⟩
    | array items => exact fun _ hmem => absurd hmem List.not_mem_nil
    | _ => exact absurd h (by simp [accepts])

end TypeName

namespace Binding

variable {type element : TypeName} {name : String} {op : Operator}

/-- A binding that holds no value, or one in the representation of a type. -/
def Fits (type : TypeName) : Binding → Prop
  | .value v => type.Holds v
  | .null => True
  | .deferred _ => True

/-- What a right-hand side gives a variable fits the type of the variable. -/
theorem fits_ofInitial {init : Text} {b : Binding} (h : ofInitial type name init = .ok b) :
    b.Fits type := by
  unfold ofInitial at h
  split at h
  · split at h <;> exact absurd h (by simp)
  · exact Except.ok.inj h ▸ trivial
  · exact Except.ok.inj h ▸ trivial
  · split at h
    · rename_i hacc
      exact Except.ok.inj h ▸ TypeName.holds_coerce hacc
    · exact absurd h (by simp)

/-- The empty array is stored as the empty map where the type is one of maps. -/
theorem ofInitial_map_nil {init : Text} (key value : TypeName)
    (h : Expression.ofText? init = some (.literal (.array []))) :
    ofInitial (.map key value) name init = .ok (.value (.map [])) := by
  rw [ofInitial, h]
  rfl

/-! ## Additions and subtractions -/

/-- An addition of integers, whichever way it goes, has a result that fits or is an overflow. -/
theorem combineIntegers_eq (name : String) (op : Operator) (a b : Int64) :
    ∃ n : Int, combineIntegers name op a b =
      if Literal.fitsInteger n then .ok (.integer (Int64.ofInt n))
      else .error (.overflow name op b) :=
  ⟨_, rfl⟩

theorem combineDoubles_eq (op : Operator) (a b : Float) :
    ∃ x : Float, combineDoubles op a b = .double x := by
  cases op <;> exact ⟨_, rfl⟩

theorem holds_combineIntegers {a b : Int64} {w : Value}
    (h : combineIntegers name op a b = .ok w) : TypeName.integer.Holds w := by
  obtain ⟨n, hn⟩ := combineIntegers_eq name op a b
  rw [hn] at h
  split at h
  · exact Except.ok.inj h ▸ trivial
  · exact absurd h (by simp)

theorem holds_combineDoubles (op : Operator) (a b : Float) :
    TypeName.double.Holds (combineDoubles op a b) := by
  obtain ⟨x, hx⟩ := combineDoubles_eq op a b
  rw [hx]
  exact trivial

theorem holds_append {items : List Value} {v w : Value} (hitems : ∀ i ∈ items, element.Holds i)
    (h : append name element items v = .ok w) : (TypeName.array element).Holds w := by
  have hsingle : ∀ {x : Value}, (if element.accepts x then
      Except.ok (Value.array (items ++ [element.coerce x])) else
      Except.error (Problem.mismatch name element x)) = .ok w →
        (TypeName.array element).Holds w := by
    intro x hx
    split at hx
    · rename_i hacc
      refine Except.ok.inj hx ▸ fun i hi => ?_
      rcases List.mem_append.mp hi with hi | hi
      · exact hitems i hi
      · exact List.mem_singleton.mp hi ▸ TypeName.holds_coerce hacc
    · exact absurd hx (by simp)
  cases v with
  | array more =>
    simp only [append] at h
    split at h
    · rename_i hacc
      refine Except.ok.inj h ▸ fun i hi => ?_
      rcases List.mem_append.mp hi with hi | hi
      · exact hitems i hi
      · have hmore :
            (TypeName.array element).Holds ((TypeName.array element).coerce (.array more)) :=
          TypeName.holds_coerce hacc
        exact hmore i hi
    · exact hsingle h
  | _ => exact hsingle h

theorem holds_remove {items : List Value} {v w : Value} (hitems : ∀ i ∈ items, element.Holds i)
    (h : remove name element items v = .ok w) : (TypeName.array element).Holds w := by
  unfold remove at h
  split at h
  · exact Except.ok.inj h ▸ fun i hi => hitems i (List.mem_of_mem_eraseP hi)
  · exact absurd h (by simp)

/-- **Additions and subtractions stay in the representation.** -/
theorem holds_combine {a v w : Value} (ha : type.Holds a)
    (h : combine type name op a v = .ok w) : type.Holds w := by
  cases type with
  | integer =>
    cases a with
    | integer a =>
      cases v with
      | integer b => exact holds_combineIntegers h
      | _ => exact absurd h (by simp [combine])
    | _ => exact absurd ha id
  | double =>
    cases a with
    | double a =>
      cases v with
      | double b | integer b => exact Except.ok.inj h ▸ holds_combineDoubles op a _
      | _ => exact absurd h (by simp [combine])
    | _ => exact absurd ha id
  | array element =>
    cases a with
    | array items =>
      cases op with
      | subtract => exact holds_remove ha h
      | add | assign => exact holds_append ha h
    | _ => exact absurd ha id
  | string | boolean | map => exact absurd h (by simp [combine])

/-- The binding that an addition or a subtraction leaves fits the type if the one before did. -/
theorem fits_compound {current b : Binding} {operand : Text} (hcurrent : current.Fits type)
    (h : compound type name current op operand = .ok b) : b.Fits type := by
  unfold compound at h
  split at h
  · exact absurd h (by simp)
  · split at h
    · exact absurd h (by simp)
    · exact Except.ok.inj h ▸ trivial
    · rename_i v _
      cases current with
      | null => exact absurd h (by simp)
      | deferred text => exact Except.ok.inj h ▸ trivial
      | value a =>
        change (combine type name op a v).map .value = .ok b at h
        cases hc : combine type name op a v with
        | error p =>
          rw [hc] at h
          exact absurd h (by simp [Except.map])
        | ok w =>
          rw [hc] at h
          exact Except.ok.inj h ▸ holds_combine hcurrent hc

/-- **What an update leaves fits the type of the variable.** -/
theorem fits_updated {x : Variable} {b : Binding} {operand : Text} (hx : x.binding.Fits x.type)
    (h : updated x op operand = .ok b) : b.Fits x.type := by
  cases op with
  | assign => exact fits_ofInitial h
  | add | subtract => exact fits_compound hx h

/-! ## The case for a value of the wrong kind -/

/-- Whether `combine` has a case of its own for the values of a type. -/
def combines : TypeName → Value → Bool
  | .integer, .integer _ => true
  | .double, .double _ => true
  | .array _, .array _ => true
  | _, _ => false

/-- **The last case of `combine` is the one that finds fault with the value that is there**: all
complaints of the others are about the operand or the type of the items. -/
theorem combine_eq_mismatch_iff {a v : Value} :
    combine type name op a v = .error (.mismatch name type a) ↔ combines type a = false := by
  have hne : ∀ e : TypeName, e ≠ .array e := fun e he => by
    have := congrArg sizeOf he
    simp at this
  cases type with
  | integer =>
    cases a with
    | integer a =>
      cases v with
      | integer b =>
        obtain ⟨n, hn⟩ := combineIntegers_eq name op a b
        simp only [combine, combines, hn]
        split <;> simp
      | _ => simp [combine, combines]
    | _ => simp [combine, combines]
  | double => cases a <;> cases v <;> simp [combine, combines]
  | array element =>
    cases a with
    | array items =>
      cases op <;> simp only [combine, combines, append, remove] <;> repeat' split
      all_goals simp [hne element]
    | _ => simp [combine, combines]
  | string | boolean | map => simp [combine, combines]

/-- A value that a variable of a combinable type holds has a case of its own. -/
theorem combines_of_holds {a : Value} (h : type.Holds a) (hkind : isCombinable type.kind = true) :
    combines type a = true := by
  cases type with
  | integer | double | array => cases a <;> first | rfl | exact absurd h id
  | string | boolean | map => exact absurd hkind (by simp [isCombinable, TypeName.kind])

end Binding
end BraceTree
