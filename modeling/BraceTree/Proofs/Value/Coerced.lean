import BraceTree.Proofs.Value.ReadBack

/-!
# What coercing changes

Acceptance and coercion both follow the type, but each by itself. One rule stands behind the two:
which value takes the place of another one under a type (`TypeName.Converts`). A value converts into
one of its own shape, with the same strings, numbers and truth values in the same places, but that
an integer becomes a double where the type says so, and the empty array the empty map. A type
accepts what converts into something, and coercing then gives just that (`TypeName.converts_iff`).
What holds already converts into itself, so it is what acceptance and coercion leave alone.

Coercion by itself does not keep to the rule. Where the type is one of maps it makes the empty map
of every array, and what is in the array is lost. Only acceptance keeps such an array away, and so
nothing but coercing twice can be said without it (`TypeName.coerce_coerce`).
-/

namespace BraceTree.TypeName

variable {type : TypeName} {v w : Value}

/-- **What a value converts into under a type.** -/
inductive Converts : TypeName → Value → Value → Prop
  | string (s : String) : Converts .string (.string s) (.string s)
  | integer (n : Int64) : Converts .integer (.integer n) (.integer n)
  | double (x : Float) : Converts .double (.double x) (.double x)
  /-- An integer widens where a double is wanted. -/
  | widened (n : Int64) : Converts .double (.integer n) (.double (Float.ofInt n.toInt))
  | boolean (b : Bool) : Converts .boolean (.boolean b) (.boolean b)
  /-- An array keeps its length, and each item its place. -/
  | array {e : TypeName} {items items' : List Value} (hlength : items.length = items'.length)
    (h : ∀ {i i'}, (i, i') ∈ items.zip items' → Converts e i i') :
    Converts (.array e) (.array items) (.array items')
  /-- And so does a map its entries, the keys under the one type and the values under the other. -/
  | map {k x : TypeName} {entries entries' : List (Value × Value)}
    (hlength : entries.length = entries'.length)
    (hkeys : ∀ {e e'}, (e, e') ∈ entries.zip entries' → Converts k e.1 e'.1)
    (hvalues : ∀ {e e'}, (e, e') ∈ entries.zip entries' → Converts x e.2 e'.2) :
    Converts (.map k x) (.map entries) (.map entries')
  /-- What is written `[]` is the empty map where a map is wanted. -/
  | empty (k x : TypeName) : Converts (.map k x) (.array []) (.map [])

/-! ## Coercing twice -/

/-- **Coercing twice is coercing once**, whether or not the value is accepted. -/
theorem coerce_coerce (type : TypeName) (v : Value) :
    type.coerce (type.coerce v) = type.coerce v := by
  induction type generalizing v with
  | string | integer | boolean => rfl
  | double => cases v <;> rfl
  | array e ih =>
    cases v with
    | array items =>
      rw [coerce, coerce, List.map_map]
      exact congrArg Value.array (List.map_congr_left fun i _ => ih i)
    | _ => rfl
  | map k x ihkey ihvalue =>
    cases v with
    | map entries =>
      rw [coerce, coerce, List.map_map]
      exact congrArg Value.map (List.map_congr_left fun e _ => Prod.ext (ihkey e.1) (ihvalue e.2))
    | _ => rfl

example : (map .string .string).coerce (.array [.boolean true]) = .map [] := rfl

/-! ## What holds -/

theorem Holds.accepts (h : type.Holds v) : type.accepts v = true := by
  induction type generalizing v with
  | string | integer | double | boolean => cases v <;> first | rfl | exact absurd h id
  | array e ih =>
    cases v with
    | array items => exact List.all_eq_true.mpr fun i hi => ih (h i hi)
    | _ => exact absurd h id
  | map k x ihkey ihvalue =>
    cases v with
    | map entries =>
      refine List.all_eq_true.mpr fun e he => ?_
      rw [ihkey (h e he).1, ihvalue (h e he).2]
      rfl
    | _ => exact absurd h id

/-- **What holds is left as it is.** -/
theorem Holds.coerce_eq (h : type.Holds v) : type.coerce v = v := by
  induction type generalizing v with
  | string | integer | boolean => rfl
  | double => cases v <;> first | rfl | exact absurd h id
  | array e ih =>
    cases v with
    | array items =>
      have hitems : items.map (fun i => e.coerce i) = items.map id :=
        List.map_congr_left fun i hi => ih (h i hi)
      exact congrArg Value.array (hitems.trans (List.map_id items))
    | _ => exact absurd h id
  | map k x ihkey ihvalue =>
    cases v with
    | map entries =>
      have hentries : entries.map (fun e => (k.coerce e.1, x.coerce e.2)) = entries.map id :=
        List.map_congr_left fun e he => Prod.ext (ihkey (h e he).1) (ihvalue (h e he).2)
      exact congrArg Value.map (hentries.trans (List.map_id entries))
    | _ => exact absurd h id

/-- **The representation is what acceptance and coercion leave alone.** -/
theorem holds_iff : type.Holds v ↔ type.accepts v = true ∧ type.coerce v = v :=
  ⟨fun h => ⟨h.accepts, h.coerce_eq⟩, fun ⟨haccepts, heq⟩ => heq ▸ holds_coerce haccepts⟩

/-! ## Conversion -/

/-- **An accepted value converts into what coercing makes of it.** -/
theorem converts_coerce (h : type.accepts v = true) : type.Converts v (type.coerce v) := by
  induction type generalizing v with
  | string | integer | double | boolean =>
    cases v <;> first | constructor | exact absurd h Bool.false_ne_true
  | array e ih =>
    cases v with
    | array items =>
      have hitems : List.Forall₂ e.Converts items (items.map fun i => e.coerce i) :=
        List.forall₂_map_right_iff.mpr (List.forall₂_same.mpr fun i hi =>
          ih (List.all_eq_true.mp h i hi))
      obtain ⟨hlength, hzip⟩ := List.forall₂_iff_zip.mp hitems
      exact .array hlength hzip
    | _ => exact absurd h Bool.false_ne_true
  | map k x ihkey ihvalue =>
    cases v with
    | array items =>
      obtain rfl := List.isEmpty_iff.mp h
      exact .empty k x
    | map entries =>
      have hentries : List.Forall₂ (fun e e' => k.Converts e.1 e'.1 ∧ x.Converts e.2 e'.2)
          entries (entries.map fun e => (k.coerce e.1, x.coerce e.2)) := by
        refine List.forall₂_map_right_iff.mpr (List.forall₂_same.mpr fun e he => ?_)
        obtain ⟨hkey, hvalue⟩ := Bool.and_eq_true_iff.mp (List.all_eq_true.mp h e he)
        exact ⟨ihkey hkey, ihvalue hvalue⟩
      obtain ⟨hlength, hzip⟩ := List.forall₂_iff_zip.mp hentries
      exact .map hlength (fun he => (hzip he).1) fun he => (hzip he).2
    | _ => exact absurd h Bool.false_ne_true

/-- **A value that converts is accepted**, and it converts into nothing but what coercing makes of
it. -/
theorem Converts.accepts_and_coerce (h : Converts type v w) :
    type.accepts v = true ∧ type.coerce v = w := by
  induction type generalizing v w with
  | string | integer | double | boolean => cases h <;> exact ⟨rfl, rfl⟩
  | array e ih =>
    cases h with
    | array hlength hitems =>
      have hall := (List.forall₂_iff_zip.mpr ⟨hlength, hitems⟩).flip.imp fun _ _ h => ih h
      obtain ⟨haccepts, hcoerce⟩ := all_and_map_of_forall₂ hall
      exact ⟨haccepts, congrArg Value.array hcoerce⟩
  | map k x ihkey ihvalue =>
    cases h with
    | empty => exact ⟨rfl, rfl⟩
    | @map _ _ entries entries' hlength hkeys hvalues =>
      have hall : List.Forall₂ (fun e' e : Value × Value =>
          (k.accepts e.1 && x.accepts e.2) = true ∧ (k.coerce e.1, x.coerce e.2) = e')
          entries' entries := by
        refine List.Forall₂.flip (List.forall₂_iff_zip.mpr ⟨hlength, fun he => ?_⟩)
        obtain ⟨hkey, hkeyCoerce⟩ := ihkey (hkeys he)
        obtain ⟨hvalue, hvalueCoerce⟩ := ihvalue (hvalues he)
        exact ⟨Bool.and_eq_true_iff.mpr ⟨hkey, hvalue⟩, Prod.ext hkeyCoerce hvalueCoerce⟩
      obtain ⟨haccepts, hcoerce⟩ := all_and_map_of_forall₂ hall
      exact ⟨haccepts, congrArg Value.map hcoerce⟩

/-- **Acceptance and coercion are conversion**: the one says which values convert, and the other one
into what. -/
theorem converts_iff : type.Converts v w ↔ type.accepts v = true ∧ type.coerce v = w :=
  ⟨Converts.accepts_and_coerce, fun ⟨haccepts, heq⟩ => heq ▸ converts_coerce haccepts⟩

/-- **Coercing a value.** Doing it twice is doing it once. What a type makes of a value that it
accepts is accepted again and in the representation of the type, and it is what the value converts
into: of the same shape, but for integers that widen and empty arrays that are empty maps. A value
is in the representation of a type exactly if the type accepts it and leaves it as it is. -/
theorem coerce_converts (type : TypeName) (v : Value) :
    type.coerce (type.coerce v) = type.coerce v ∧
    (type.accepts v = true → type.accepts (type.coerce v) = true ∧ type.Holds (type.coerce v)) ∧
    (∀ w, type.Converts v w ↔ type.accepts v = true ∧ type.coerce v = w) ∧
    (type.Holds v ↔ type.accepts v = true ∧ type.coerce v = v) :=
  ⟨coerce_coerce type v, fun h => ⟨(holds_coerce h).accepts, holds_coerce h⟩,
    fun _ => converts_iff, holds_iff⟩

/-- A map with one entry, whose value is an array of an empty collection and a map. -/
def nestedMap (key empty value : Value) : Value :=
  .map [(key, .array [empty, .map [(.string "a", value), (.string "b", .double 0.5)]])]

/-- Integers widen as a key and as a value deep inside, and what is empty becomes a map. -/
theorem coerce_converts_of_nestedMap :
    (map .double (.array (.map .string .double))).accepts
        (nestedMap (.integer 1) (.array []) (.integer 2)) = true ∧
      (map .double (.array (.map .string .double))).Converts
        (nestedMap (.integer 1) (.array []) (.integer 2))
        (nestedMap (.double (Float.ofInt 1)) (.map []) (.double (Float.ofInt 2))) ∧
      (map .double (.array (.map .string .double))).Holds
        (nestedMap (.double (Float.ofInt 1)) (.map []) (.double (Float.ofInt 2))) := by
  obtain ⟨-, haccepted, hconverts, -⟩ := coerce_converts
    (map .double (.array (.map .string .double))) (nestedMap (.integer 1) (.array []) (.integer 2))
  exact ⟨rfl, (hconverts _).mpr ⟨rfl, rfl⟩, (haccepted rfl).2⟩

end BraceTree.TypeName
