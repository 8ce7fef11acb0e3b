import Mathlib.Data.List.Forall2
import BraceTree.Proofs.Value.Spelled

/-!
# Values are read back from their texts

Reading undoes display only up to one thing. Both the empty array and the empty map are written `[]`
and read as the array, so what comes back is a value that *stands for* the one displayed: every type
that the first value is in the representation of accepts it, and coerces it into that value
(`StandsFor`). Reading the text of any value gives such a value (`Value.readWithin_display`), and
with it, whatever its nesting, the value itself for a variable of its type.
-/

namespace BraceTree

/-- If a function takes every element to something related to it, then it takes the list to a list
of such things. -/
theorem exists_mapM {α β : Type} {f : α → Option β} {R : α → β → Prop} :
    ∀ {as : List α}, (∀ a ∈ as, ∃ b, f a = some b ∧ R a b) →
      ∃ bs, as.mapM f = some bs ∧ List.Forall₂ R as bs
  | [], _ => ⟨[], rfl, .nil⟩
  | a :: as, h => by
    obtain ⟨ha, has⟩ := List.forall_mem_cons.mp h
    obtain ⟨b, hb, hab⟩ := ha
    obtain ⟨bs, hbs, hrel⟩ := exists_mapM has
    refine ⟨b :: bs, ?_, .cons hab hrel⟩
    rw [List.mapM_cons, hb, hbs]
    rfl

/-- Where every element passes a test and a function takes it to its partner, all pass the test and
the function takes the list to the list of partners. -/
theorem all_and_map_of_forall₂ {α β : Type} {p : β → Bool} {f : β → α} {as : List α}
    {bs : List β} (h : List.Forall₂ (fun a b => p b = true ∧ f b = a) as bs) :
    bs.all p = true ∧ bs.map f = as := by
  induction h with
  | nil => exact ⟨rfl, rfl⟩
  | cons hab _ ih =>
    exact ⟨by rw [List.all_cons, hab.1, ih.1]; rfl, by rw [List.map_cons, hab.2, ih.2]⟩

theorem length_le_intercalate (sep : Text) {ts : List Text} {t : Text} (ht : t ∈ ts) :
    t.length ≤ (sep.intercalate ts).length := by
  induction ts with
  | nil => exact absurd ht List.not_mem_nil
  | cons u us ih =>
    cases us with
    | nil => rw [List.mem_singleton.mp ht, List.intercalate_singleton]
    | cons w ws =>
      rw [List.intercalate_cons_cons, List.length_append, List.length_append]
      rcases List.mem_cons.mp ht with rfl | ht
      · omega
      · have := ih ht
        omega

namespace Value

/-! ## Values that stand for others -/

/-- **A value stands for another one** if every type of the other one accepts it and coerces it into
the other one. -/
def StandsFor (w v : Value) : Prop :=
  ∀ type : TypeName, type.Holds v → type.accepts w = true ∧ type.coerce w = v

namespace StandsFor

theorem string (s : String) : StandsFor (.string s) (.string s) := fun type h => by
  cases type <;> first | exact ⟨rfl, rfl⟩ | exact absurd h id

theorem integer (n : Int64) : StandsFor (.integer n) (.integer n) := fun type h => by
  cases type <;> first | exact ⟨rfl, rfl⟩ | exact absurd h id

theorem double (x : Float) : StandsFor (.double x) (.double x) := fun type h => by
  cases type <;> first | exact ⟨rfl, rfl⟩ | exact absurd h id

theorem boolean (b : Bool) : StandsFor (.boolean b) (.boolean b) := fun type h => by
  cases type <;> first | exact ⟨rfl, rfl⟩ | exact absurd h id

theorem array {vs ws : List Value} (h : List.Forall₂ (fun v w => StandsFor w v) vs ws) :
    StandsFor (.array ws) (.array vs) := fun type htype => by
  cases type with
  | array e =>
    have hitems := (List.forall₂_and_left _ _).mpr ⟨htype, h⟩
    obtain ⟨haccepts, hcoerce⟩ := all_and_map_of_forall₂ (hitems.imp fun v w hvw => hvw.2 e hvw.1)
    exact ⟨haccepts, congrArg Value.array hcoerce⟩
  | _ => exact absurd htype id

/-- `[]` is read as the empty array, and stands for the empty map. -/
theorem map_nil : StandsFor (.array []) (.map []) := fun type h => by
  cases type <;> first | exact ⟨rfl, rfl⟩ | exact absurd h id

theorem map {es fs : List (Value × Value)}
    (h : List.Forall₂ (fun e f => StandsFor f.1 e.1 ∧ StandsFor f.2 e.2) es fs) :
    StandsFor (.map fs) (.map es) := fun type htype => by
  cases type with
  | map k v =>
    have hentries := (List.forall₂_and_left _ _).mpr ⟨htype, h⟩
    obtain ⟨haccepts, hcoerce⟩ := all_and_map_of_forall₂
      (p := fun f : Value × Value => k.accepts f.1 && v.accepts f.2)
      (f := fun f : Value × Value => (k.coerce f.1, v.coerce f.2))
      (hentries.imp fun e f hef => by
        obtain ⟨hkey, hkeyCoerce⟩ := hef.2.1 k hef.1.1
        obtain ⟨hvalue, hvalueCoerce⟩ := hef.2.2 v hef.1.2
        exact ⟨by rw [hkey, hvalue]; rfl, by rw [hkeyCoerce, hvalueCoerce]⟩)
    exact ⟨haccepts, congrArg Value.map hcoerce⟩
  | _ => exact absurd htype id

end StandsFor
end Value

namespace Literal

/-! ## Strings -/

/-- Escaping a character is undone, whatever follows. -/
theorem stringRest?_escapeChar (c : Char) {rest : Text} (hne : rest ≠ []) :
    stringRest? '"' (Value.escapeChar c ++ rest) = (stringRest? '"' rest).map (c :: ·) := by
  unfold Value.escapeChar
  split
  · subst c
    rfl
  · rename_i hquote
    split
    · subst c
      rfl
    · rename_i hbackslash
      split
      · subst c
        rfl
      · split
        · subst c
          rfl
        · obtain ⟨d, ds, rfl⟩ := List.exists_cons_of_ne_nil hne
          rw [List.singleton_append, stringRest?, if_neg hbackslash, if_neg hquote]

theorem stringRest?_escape (s : Text) :
    stringRest? '"' (s.flatMap Value.escapeChar ++ ['"']) = some s := by
  induction s with
  | nil => rfl
  | cons c cs ih =>
    rw [List.flatMap_cons, List.append_assoc, stringRest?_escapeChar c (by simp), ih]
    rfl

/-- **A string is read back from its literal**, whatever it contains. -/
theorem scalar?_display_string (s : String) :
    scalar? (Value.string s).display.toList = some (.string s) := by
  have hstring : string? (Value.string s).display.toList = some s.toList := by
    rw [Value.toList_display_string, string?, if_pos (by decide), stringRest?_escape]
  rw [scalar?, hstring]
  exact congrArg (some ∘ Value.string) String.ofList_toList

/-! ## Collections -/

variable {read : Text → Option Value}

/-- A sealed element has no colon to part it. -/
theorem keyed?_of_sealed {t : Text} (h : Text.Sealed [',', ':'] t) : keyed? t = none := by
  have hcut := Text.splitTopLevel_intercalate (show ':' ∈ [',', ':'] by simp) (by decide)
    (by decide) (List.cons_ne_nil t []) (List.forall_mem_singleton.mpr h)
  rw [List.intercalate_singleton] at hcut
  rw [keyed?, hcut]

theorem keyed?_entryText {e : Value × Value} (hk : Text.Sealed [',', ':'] e.1.display.toList)
    (hv : Text.Sealed [',', ':'] e.2.display.toList) :
    keyed? (Value.entryText e) = some (e.1.display.toList, e.2.display.toList) := by
  have hcut := Text.splitTopLevel_intercalate (show ':' ∈ [',', ':'] by simp) (by decide)
    (by decide) (List.cons_ne_nil e.1.display.toList [e.2.display.toList])
    (List.forall_mem_cons.mpr ⟨hk, List.forall_mem_singleton.mpr hv⟩)
  rw [keyed?, Value.entryText, hcut]

/-- A collection of sealed elements is cut into these elements again. -/
theorem collection?_intercalate {ts : List Text} (hne : ts ≠ [])
    (h : ∀ t ∈ ts, Text.Sealed [','] t) :
    collection? read ('[' :: (([',', ' '] : Text).intercalate ts ++ [']'])) =
      if ts.all fun e => (keyed? e).isSome then
        ((ts.filterMap keyed?).mapM (readKeyed read)).map .map
      else if ts.all fun e => (keyed? e).isNone then (ts.mapM read).map .array
      else none := by
  have hcontained : Text.Contained (([',', ' '] : Text).intercalate ts) :=
    .intercalate (.of_inert (by decide)) fun t ht => (h t ht).toContained
  have hblank : Text.isBlankText (([',', ' '] : Text).intercalate ts) = false :=
    Text.isBlankText_intercalate _ hne fun t ht => (h t ht).tight
  rw [collection?, hcontained.enclosed?_bracket]
  dsimp only
  rw [hblank, if_neg Bool.false_ne_true,
    Text.splitTopLevel_intercalate (List.mem_singleton_self _) (by decide) (by decide) hne h]

/-- The elements of an array are read one by one. -/
theorem collection?_display_array {items : List Value} (hne : items ≠ [])
    (h : ∀ v ∈ items, Text.Sealed [',', ':'] v.display.toList) :
    collection? read (Value.array items).display.toList =
      (items.mapM fun v => read v.display.toList).map .array := by
  have hsealed : ∀ t ∈ items.map fun v => v.display.toList, Text.Sealed [',', ':'] t :=
    List.forall_mem_map.mpr h
  have hnone : ∀ t ∈ items.map fun v => v.display.toList, keyed? t = none := fun t ht =>
    keyed?_of_sealed (hsealed t ht)
  have hsome : ¬ ((items.map fun v => v.display.toList).all fun t => (keyed? t).isSome) := by
    obtain ⟨v, vs, rfl⟩ := List.exists_cons_of_ne_nil hne
    rw [List.map_cons, List.all_cons, hnone _ (by simp)]
    simp
  rw [Value.toList_display_array, collection?_intercalate (by simpa using hne)
    fun t ht => (hsealed t ht).mono (by simp), if_neg hsome,
    if_pos (List.all_eq_true.mpr fun t ht => by rw [hnone t ht]; rfl), List.mapM_map]
  rfl

/-- The entries of a map are read one by one, the key and the value each by itself. -/
theorem collection?_display_map {entries : List (Value × Value)} (hne : entries ≠ [])
    (h : ∀ e ∈ entries, Text.Sealed [',', ':'] e.1.display.toList ∧
      Text.Sealed [',', ':'] e.2.display.toList) :
    collection? read (Value.map entries).display.toList =
      (entries.mapM fun e => readKeyed read (e.1.display.toList, e.2.display.toList)).map .map := by
  have hkeyed : ∀ e ∈ entries, keyed? (Value.entryText e) =
      some (e.1.display.toList, e.2.display.toList) := fun e he =>
    keyed?_entryText (h e he).1 (h e he).2
  have hall : (entries.map Value.entryText).all fun t => (keyed? t).isSome := by
    rw [List.all_map, List.all_eq_true]
    intro e he
    rw [Function.comp, hkeyed e he]
    rfl
  have hparts : (entries.map Value.entryText).filterMap keyed? =
      entries.map fun e => (e.1.display.toList, e.2.display.toList) := by
    rw [List.filterMap_map, ← List.filterMap_eq_map]
    exact List.filterMap_congr hkeyed
  rw [Value.toList_display_map, collection?_intercalate (by simpa using hne)
    (List.forall_mem_map.mpr fun e he => Value.sealed_entryText (h e he).1 (h e he).2),
    if_pos hall, hparts, List.mapM_map]
  rfl

/-! ## All values -/

/-- A text in square brackets is neither a scalar nor a truth value. -/
theorem readWithin_of_bracket {t : Text} (htight : Text.Tight t) (hhead : t.head? = some '[')
    (depth : Nat) : readWithin (depth + 1) t = collection? (readWithin depth) t := by
  obtain ⟨cs, rfl⟩ := List.head?_eq_some_iff.mp hhead
  rw [readWithin, htight.trim_eq]
  rfl

/-- What does not start like a name is neither a call nor `null`. -/
theorem not_named_of_head {t : Text} {c : Char} (htight : Text.Tight t) (hhead : t.head? = some c)
    (hc : Text.isNameHead c = false) : Call.ofText? t = none ∧ t ≠ "null".toList := by
  have htrim := htight.trim_eq
  obtain ⟨cs, rfl⟩ := List.head?_eq_some_iff.mp hhead
  constructor
  · rw [Call.ofText?, htrim, Call.splitName?, if_neg (by simp [hc])]
  · intro heq
    obtain ⟨rfl, -⟩ := List.cons.inj heq
    exact absurd hc (by decide)

/-- What is read as a literal and is neither a call nor `null` is a literal on a right-hand side. -/
theorem ofText?_of_readWithin {t : Text} {w : Value} (htight : Text.Tight t)
    (hnamed : Call.ofText? t = none ∧ t ≠ "null".toList)
    (hread : readWithin (t.length + 1) t = some w) :
    Expression.ofText? t = some (.literal w) := by
  have htrim := htight.trim_eq
  rw [readWithin, htrim] at hread
  rw [Expression.ofText?, htrim]
  cases hscalar : scalar? t with
  | some v' =>
    rw [hscalar] at hread
    dsimp only
    rw [Option.some.inj hread]
  | none =>
    rw [hscalar] at hread
    dsimp only
    rw [hnamed.1]
    dsimp only
    rw [if_neg hnamed.2]
    cases hboolean : boolean? t with
    | some v' =>
      rw [hboolean] at hread
      dsimp only
      rw [Option.some.inj hread]
    | none =>
      rw [hboolean] at hread
      dsimp only
      rw [show collection? _ _ = some w from hread]
      rfl

end Literal

namespace Value

theorem length_item_lt {items : List Value} {v : Value} (hv : v ∈ items) :
    v.display.toList.length < (array items).display.toList.length := by
  have hle := length_le_intercalate [',', ' ']
    (List.mem_map_of_mem (f := fun v : Value => v.display.toList) hv)
  rw [toList_display_array, List.length_cons, List.length_append]
  omega

theorem length_entry_lt {entries : List (Value × Value)} {e : Value × Value} (he : e ∈ entries) :
    e.1.display.toList.length < (map entries).display.toList.length ∧
      e.2.display.toList.length < (map entries).display.toList.length := by
  have hle := length_le_intercalate [',', ' '] (List.mem_map_of_mem (f := entryText) he)
  have hpart : ∀ t ∈ [e.1.display.toList, e.2.display.toList], t.length ≤ (entryText e).length :=
    fun t ht => length_le_intercalate [':', ' '] ht
  have hkey := hpart e.1.display.toList (by simp)
  have hvalue := hpart e.2.display.toList (by simp)
  rw [toList_display_map, List.length_cons, List.length_append]
  omega

variable {depth : Nat}

theorem exists_readWithin_scalar {v : Value} (hself : StandsFor v v)
    (hread : Literal.scalar? v.display.toList = some v) :
    ∃ w, Literal.readWithin (depth + 1) v.display.toList = some w ∧ StandsFor w v := by
  refine ⟨v, ?_, hself⟩
  rw [Literal.readWithin, (sealed_display v).tight.trim_eq, hread]
  rfl

/-- Where the items of an array are read, the array is. -/
theorem exists_readWithin_array {items : List Value}
    (hitems : ∀ v ∈ items,
      ∃ w, Literal.readWithin depth v.display.toList = some w ∧ StandsFor w v) :
    ∃ w, Literal.readWithin (depth + 1) (array items).display.toList = some w ∧
      StandsFor w (.array items) := by
  have htight := (sealed_display (.array items)).tight
  rw [Literal.readWithin_of_bracket htight (by rw [toList_display_array]; rfl)]
  by_cases hne : items = []
  · subst hne
    exact ⟨.array [], rfl, .array .nil⟩
  · obtain ⟨ws, hws, hstands⟩ := exists_mapM hitems
    rw [Literal.collection?_display_array hne fun v _ => sealed_display v, hws]
    exact ⟨.array ws, rfl, .array hstands⟩

/-- Where the keys and the values of a map are read, the map is. -/
theorem exists_readWithin_map {entries : List (Value × Value)}
    (hentries : ∀ e ∈ entries,
      (∃ k, Literal.readWithin depth e.1.display.toList = some k ∧ StandsFor k e.1) ∧
        ∃ w, Literal.readWithin depth e.2.display.toList = some w ∧ StandsFor w e.2) :
    ∃ w, Literal.readWithin (depth + 1) (map entries).display.toList = some w ∧
      StandsFor w (.map entries) := by
  have htight := (sealed_display (.map entries)).tight
  rw [Literal.readWithin_of_bracket htight (by rw [toList_display_map]; rfl)]
  by_cases hne : entries = []
  · subst hne
    exact ⟨.array [], rfl, .map_nil⟩
  · have hread : ∀ e ∈ entries, ∃ f : Value × Value, Literal.readKeyed
        (Literal.readWithin depth) (e.1.display.toList, e.2.display.toList) = some f ∧
          StandsFor f.1 e.1 ∧ StandsFor f.2 e.2 := fun e he => by
      obtain ⟨⟨k, hk, hkey⟩, w, hw, hvalue⟩ := hentries e he
      exact ⟨(k, w), by rw [Literal.readKeyed, hk, hw], hkey, hvalue⟩
    obtain ⟨fs, hfs, hstands⟩ := exists_mapM hread
    rw [Literal.collection?_display_map hne fun e _ =>
      ⟨sealed_display e.1, sealed_display e.2⟩, hfs]
    exact ⟨.map fs, rfl, .map hstands⟩

/-- **What is read from the text of a value stands for the value**, if collections may nest deep
enough. -/
theorem readWithin_display (v : Value) : DoublesReadBack v → ∀ depth,
    v.display.toList.length ≤ depth →
      ∃ w, Literal.readWithin (depth + 1) v.display.toList = some w ∧ StandsFor w v := by
  induction v using Value.induction with
  | string s =>
    exact fun _ _ _ => exists_readWithin_scalar (.string s) (Literal.scalar?_display_string s)
  | integer n =>
    exact fun _ _ _ => exists_readWithin_scalar (.integer n) (Literal.scalar?_toString n)
  | double x =>
    exact fun h _ _ => exists_readWithin_scalar (.double x)
      (Literal.scalar?_doubleText (doublesReadBack_double.mp h))
  | boolean b => exact fun _ _ _ => ⟨.boolean b, by cases b <;> rfl, .boolean b⟩
  | array items ih =>
    intro h depth hdepth
    refine exists_readWithin_array fun v hv => ?_
    have hlt := length_item_lt hv
    obtain ⟨d, rfl⟩ : ∃ d, depth = d + 1 := Nat.exists_eq_add_one.mpr (by omega)
    exact ih v hv (doublesReadBack_array.mp h v hv) d (by omega)
  | map entries ih =>
    intro h depth hdepth
    refine exists_readWithin_map fun e he => ?_
    obtain ⟨hkey, hvalue⟩ := length_entry_lt he
    obtain ⟨hkeyDoubles, hvalueDoubles⟩ := doublesReadBack_map.mp h e he
    obtain ⟨d, rfl⟩ : ∃ d, depth = d + 1 := Nat.exists_eq_add_one.mpr (by omega)
    exact ⟨(ih e he).1 hkeyDoubles d (by omega), (ih e he).2 hvalueDoubles d (by omega)⟩

/-! ## Right-hand sides -/

/-- The text of a value that is no truth value does not start like a name. -/
theorem head_display (v : Value) (h : DoublesReadBack v) : (∃ b, v = .boolean b) ∨
    ∃ c, v.display.toList.head? = some c ∧ Text.isNameHead c = false := by
  cases v with
  | string s => exact .inr ⟨'"', by rw [toList_display_string]; rfl, by decide⟩
  | integer n =>
    rw [display, Literal.toList_toString]
    exact .inr (Literal.plain_integerNumeral _).head
  | double x =>
    obtain ⟨n, hn, htext⟩ := Literal.exists_numeral_doubleText (doublesReadBack_double.mp h).1
    rw [display, htext]
    exact .inr hn.head
  | boolean b => exact .inl ⟨b, rfl⟩
  | array items => exact .inr ⟨'[', by rw [toList_display_array]; rfl, by decide⟩
  | map entries => exact .inr ⟨'[', by rw [toList_display_map]; rfl, by decide⟩

/-- **The text of a value is a literal** for a value that stands for it. -/
theorem ofText?_display (v : Value) (h : DoublesReadBack v) :
    ∃ w, Expression.ofText? v.display.toList = some (.literal w) ∧ StandsFor w v := by
  rcases head_display v h with ⟨b, rfl⟩ | ⟨c, hhead, hc⟩
  · exact ⟨.boolean b, by cases b <;> rfl, .boolean b⟩
  obtain ⟨w, hread, hstands⟩ := readWithin_display v h _ (Nat.le_refl _)
  have htight := (sealed_display v).tight
  exact ⟨w, Literal.ofText?_of_readWithin htight (Literal.not_named_of_head htight hhead hc) hread,
    hstands⟩

end Value

namespace Binding

/-- **A binding that a source can spell out** for a variable of a type: nothing, or a value in the
representation of the type whose doubles read back. -/
def Spelled (type : TypeName) : Binding → Prop
  | .value v => type.Holds v ∧ v.DoublesReadBack
  | .null => True
  | .deferred _ => False

/-- The text of a binding neither starts nor ends with a blank. -/
theorem tight_display (b : Binding) : Text.Tight b.display.toList := by
  cases b with
  | value v => exact v.sealed_display.tight
  | null => exact .of_all (by decide) (by decide)
  | deferred text =>
    have hangle : ∀ c : Char, Text.isBlank c = false → Text.Tight [c] := fun c hc =>
      .of_all (List.cons_ne_nil c []) (by simp [hc])
    have := (hangle '<' (by decide)).around text.toList (hangle '>' (by decide))
    simpa [display] using this

/-- The text of such a binding stays in one piece. -/
theorem Spelled.sealed_display {type : TypeName} {b : Binding} (h : b.Spelled type) :
    Text.Sealed [',', ':'] b.display.toList := by
  cases b with
  | value v => exact v.sealed_display
  | null => exact .of_inert (by decide) (by decide) (.of_all (by decide) (by decide))
  | deferred text => exact absurd h id

/-- **The text of such a binding makes that binding** for a variable of the type. -/
theorem Spelled.ofInitial_display {type : TypeName} {b : Binding} (h : b.Spelled type)
    (name : String) : ofInitial type name b.display.toList = .ok b := by
  cases b with
  | value v =>
    obtain ⟨hholds, hdoubles⟩ := h
    obtain ⟨w, hread, hstands⟩ := v.ofText?_display hdoubles
    obtain ⟨haccepts, hcoerce⟩ := hstands type hholds
    rw [ofInitial, display, hread]
    show (if type.accepts w then Except.ok (Binding.value (type.coerce w)) else _) = _
    rw [if_pos haccepts, hcoerce]
  | null => rfl
  | deferred text => exact absurd h id

end Binding
end BraceTree
