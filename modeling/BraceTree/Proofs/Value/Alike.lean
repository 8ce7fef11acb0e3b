import BraceTree.Proofs.Value.ReadBack

/-!
# A text is the text of one value

Two values of one type with the same text are the same value, but for two things. A double is known
by its text only, and several doubles can have one text, since an infinity and what is no number are
written as words. And `[]` is the text of the empty array as well as of the empty map, so without
the type nothing could be said. What is left is that the values are *alike* (`Alike`): built in the
same way from the same strings, integers and truth values, with doubles of the same text.
-/

namespace BraceTree

/-- Where two lists have the same images, and elements with the same image are related, the lists
are related. -/
theorem forall₂_of_map_eq {α β γ : Type} {f : α → γ} {g : β → γ} {R : α → β → Prop} :
    ∀ {as : List α} {bs : List β}, (∀ a ∈ as, ∀ b ∈ bs, f a = g b → R a b) →
      as.map f = bs.map g → List.Forall₂ R as bs
  | [], [], _, _ => .nil
  | [], _ :: _, _, heq => absurd heq (by simp)
  | _ :: _, [], _, heq => absurd heq (by simp)
  | a :: as, b :: bs, h, heq => by
    obtain ⟨hab, hrest⟩ := List.cons.inj heq
    exact .cons (h a List.mem_cons_self b List.mem_cons_self hab) (forall₂_of_map_eq
      (fun a ha b hb => h a (List.mem_cons_of_mem _ ha) b (List.mem_cons_of_mem _ hb)) hrest)

/-- Sealed texts can be told from what they are joined to. -/
theorem Text.intercalate_inj {seps : List Char} {sep : Char} (hmem : sep ∈ seps)
    (hsep : isInert sep = true) (hne : sep ≠ ' ') {ts us : List Text}
    (hts : ∀ t ∈ ts, Sealed seps t) (hus : ∀ u ∈ us, Sealed seps u)
    (heq : ([sep, ' '] : Text).intercalate ts = ([sep, ' '] : Text).intercalate us) : ts = us := by
  have hnil : ∀ {ws : List Text}, (∀ w ∈ ws, Sealed seps w) →
      isBlankText (([sep, ' '] : Text).intercalate ws) = true → ws = [] := fun hws hblank => by
    by_contra hne
    rw [isBlankText_intercalate _ hne fun w hw => (hws w hw).tight] at hblank
    exact Bool.false_ne_true hblank
  by_cases hblank : isBlankText (([sep, ' '] : Text).intercalate ts) = true
  · rw [hnil hts hblank, hnil hus (heq ▸ hblank)]
  · have hts' : ts ≠ [] := by
      rintro rfl
      exact hblank rfl
    have hus' : us ≠ [] := by
      rintro rfl
      exact hblank (heq ▸ rfl)
    rw [← splitTopLevel_intercalate hmem hsep hne hts' hts, heq,
      splitTopLevel_intercalate hmem hsep hne hus' hus]

/-! ## The values of a type -/

namespace TypeName.Holds

variable {v : Value}

theorem eq_string (h : TypeName.string.Holds v) : ∃ s, v = .string s := by
  cases v <;> first | exact ⟨_, rfl⟩ | exact absurd h id

theorem eq_integer (h : TypeName.integer.Holds v) : ∃ n, v = .integer n := by
  cases v <;> first | exact ⟨_, rfl⟩ | exact absurd h id

theorem eq_double (h : TypeName.double.Holds v) : ∃ x, v = .double x := by
  cases v <;> first | exact ⟨_, rfl⟩ | exact absurd h id

theorem eq_boolean (h : TypeName.boolean.Holds v) : ∃ b, v = .boolean b := by
  cases v <;> first | exact ⟨_, rfl⟩ | exact absurd h id

theorem eq_array {e : TypeName} (h : (TypeName.array e).Holds v) :
    ∃ items, v = .array items ∧ ∀ i ∈ items, e.Holds i := by
  cases v <;> first | exact ⟨_, rfl, h⟩ | exact absurd h id

theorem eq_map {k x : TypeName} (h : (TypeName.map k x).Holds v) :
    ∃ entries, v = .map entries ∧ ∀ e ∈ entries, k.Holds e.1 ∧ x.Holds e.2 := by
  cases v <;> first | exact ⟨_, rfl, h⟩ | exact absurd h id

end TypeName.Holds

/-! ## Alike values -/

namespace Value

/-- **Alike values**: equal, but that a double only has to have the same text. -/
inductive Alike : Value → Value → Prop where
  | string (s : String) : Alike (.string s) (.string s)
  | integer (n : Int64) : Alike (.integer n) (.integer n)
  | double {x y : Float} (h : doubleText x = doubleText y) : Alike (.double x) (.double y)
  | boolean (b : Bool) : Alike (.boolean b) (.boolean b)
  | array {items items' : List Value} (h : List.Forall₂ Alike items items') :
    Alike (.array items) (.array items')
  | map {entries entries' : List (Value × Value)}
    (hkeys : List.Forall₂ (fun e f => Alike e.1 f.1) entries entries')
    (hvalues : List.Forall₂ (fun e f => Alike e.2 f.2) entries entries') :
    Alike (.map entries) (.map entries')

/-- The two sides of an entry are found in its text. -/
theorem entryText_inj {e f : Value × Value} (h : entryText e = entryText f) :
    e.1.display = f.1.display ∧ e.2.display = f.2.display := by
  have hsealed : ∀ e : Value × Value, ∀ t ∈ [e.1.display.toList, e.2.display.toList],
      Text.Sealed [',', ':'] t := fun e =>
    List.forall_mem_cons.mpr ⟨sealed_display _, List.forall_mem_singleton.mpr (sealed_display _)⟩
  have hsides := Text.intercalate_inj (show ':' ∈ [',', ':'] by simp) (by decide) (by decide)
    (hsealed e) (hsealed f) h
  simp only [List.cons.injEq, String.toList_inj, and_true] at hsides
  exact hsides

/-- What stands between the brackets of a collection is found in its text. -/
theorem between_inj {inner inner' : Text}
    (h : '[' :: (inner ++ [']']) = '[' :: (inner' ++ [']'])) : inner = inner' :=
  List.append_cancel_right (List.cons.inj h).2

theorem display_items_eq {items items' : List Value}
    (h : (array items).display = (array items').display) :
    items.map display = items'.map display := by
  have hlist := congrArg String.toList h
  rw [toList_display_array, toList_display_array] at hlist
  have htexts := Text.intercalate_inj (show ',' ∈ [',', ':'] by simp) (by decide) (by decide)
    (List.forall_mem_map.mpr fun v _ => v.sealed_display)
    (List.forall_mem_map.mpr fun v _ => v.sealed_display) (between_inj hlist)
  refine List.map_injective_iff.mpr (fun _ _ => String.toList_inj.mp) ?_
  rwa [List.map_map, List.map_map]

theorem entryText_entries_eq {entries entries' : List (Value × Value)}
    (h : (map entries).display = (map entries').display) :
    entries.map entryText = entries'.map entryText := by
  have hlist := congrArg String.toList h
  rw [toList_display_map, toList_display_map] at hlist
  have hsealed : ∀ es : List (Value × Value), ∀ t ∈ es.map entryText, Text.Sealed [','] t :=
    fun es => List.forall_mem_map.mpr fun e _ =>
      sealed_entryText e.1.sealed_display e.2.sealed_display
  exact Text.intercalate_inj (List.mem_singleton_self ',') (by decide) (by decide)
    (hsealed entries) (hsealed entries') (between_inj hlist)

/-- **Values of one type with the same text are alike.** -/
theorem alike_of_display_eq {type : TypeName} {v w : Value} (hv : type.Holds v)
    (hw : type.Holds w) (h : v.display = w.display) : v.Alike w := by
  induction type generalizing v w with
  | string =>
    obtain ⟨s, rfl⟩ := hv.eq_string
    obtain ⟨s', rfl⟩ := hw.eq_string
    have hread := Literal.scalar?_display_string s
    rw [h, Literal.scalar?_display_string] at hread
    obtain rfl := Value.string.inj (Option.some.inj hread)
    exact .string _
  | integer =>
    obtain ⟨n, rfl⟩ := hv.eq_integer
    obtain ⟨n', rfl⟩ := hw.eq_integer
    have hread := Literal.scalar?_toString n
    rw [show toString n.toInt = toString n'.toInt from h, Literal.scalar?_toString] at hread
    obtain rfl := Value.integer.inj (Option.some.inj hread)
    exact .integer _
  | double =>
    obtain ⟨x, rfl⟩ := hv.eq_double
    obtain ⟨y, rfl⟩ := hw.eq_double
    exact .double h
  | boolean =>
    obtain ⟨b, rfl⟩ := hv.eq_boolean
    obtain ⟨b', rfl⟩ := hw.eq_boolean
    cases b <;> cases b' <;> first | exact .boolean _ | exact absurd h (by decide)
  | array e ih =>
    obtain ⟨items, rfl, hitems⟩ := hv.eq_array
    obtain ⟨items', rfl, hitems'⟩ := hw.eq_array
    exact .array (forall₂_of_map_eq
      (fun a ha b hb => ih (hitems a ha) (hitems' b hb)) (display_items_eq h))
  | map k x ihk ihx =>
    obtain ⟨entries, rfl, hentries⟩ := hv.eq_map
    obtain ⟨entries', rfl, hentries'⟩ := hw.eq_map
    have htexts := entryText_entries_eq h
    exact .map
      (forall₂_of_map_eq (fun e he f hf hef =>
        ihk (hentries e he).1 (hentries' f hf).1 (entryText_inj hef).1) htexts)
      (forall₂_of_map_eq (fun e he f hf hef =>
        ihx (hentries e he).2 (hentries' f hf).2 (entryText_inj hef).2) htexts)

/-- No value is written `null` or in angle brackets. -/
theorem head_display_not_mem (v : Value) : ∀ c ∈ v.display.toList.head?, c ∉ ['n', '<'] := by
  have hnumber : ∀ n : Literal.Numeral, n.Plain → ∀ c ∈ n.text.head?, c ∉ ['n', '<'] :=
    fun n hn c hc hmem => by
      have hchar := hn.isNumberChar c (List.mem_of_mem_head? hc)
      have hnone : ∀ d ∈ ['n', '<'], Literal.isNumberChar d = false :=
        List.forall_mem_cons.mpr ⟨by decide, List.forall_mem_singleton.mpr (by decide)⟩
      exact Bool.false_ne_true ((hnone c hmem).symm.trans hchar)
  have hmark : ∀ d : Char, d ∉ ['n', '<'] → ∀ c ∈ some d, c ∉ ['n', '<'] :=
    fun d hd c hc => Option.some.inj hc ▸ hd
  cases v with
  | string s =>
    rw [toList_display_string, List.head?_cons]
    exact hmark _ (by decide)
  | integer n =>
    rw [display, Literal.toList_toString]
    exact hnumber _ (Literal.plain_integerNumeral _)
  | double x =>
    rw [display]
    rcases Literal.doubleText_cases x with hword | ⟨n, hn, htext⟩
    · simp only [List.mem_cons, List.not_mem_nil, or_false] at hword
      rcases hword with hword | hword | hword <;> rw [hword] <;> exact hmark _ (by decide)
    · rw [htext]
      exact hnumber n hn
  | boolean b => cases b <;> exact hmark _ (by decide)
  | array items =>
    rw [toList_display_array, List.head?_cons]
    exact hmark _ (by decide)
  | map entries =>
    rw [toList_display_map, List.head?_cons]
    exact hmark _ (by decide)

end Value

namespace Binding

/-- **Alike bindings**: alike values, twice nothing, or the same deferred text. -/
def Alike : Binding → Binding → Prop
  | .value v, .value w => v.Alike w
  | .null, .null => True
  | .deferred text, .deferred text' => text = text'
  | _, _ => False

/-- The three forms of binding start differently. -/
theorem display_ne (v : Value) (text : String) : v.display ≠ "null" ∧
    v.display ≠ (deferred text).display ∧ "null" ≠ (deferred text).display := by
  have hhead := v.head_display_not_mem
  have hdeferred : (deferred text).display.toList.head? = some '<' := by simp [display]
  refine ⟨fun h => ?_, fun h => ?_, fun h => ?_⟩
  · rw [h] at hhead
    exact hhead 'n' rfl (by simp)
  · rw [h] at hhead
    exact hhead '<' hdeferred (by simp)
  · rw [← h] at hdeferred
    exact absurd hdeferred (by decide)

/-- **Bindings with the same text that fit one type are alike.** -/
theorem alike_of_display_eq {type : TypeName} {a b : Binding} (ha : a.Fits type)
    (hb : b.Fits type) (h : a.display = b.display) : a.Alike b := by
  cases a with
  | value v =>
    cases b with
    | value w => exact Value.alike_of_display_eq ha hb h
    | null => exact absurd h (display_ne v "").1
    | deferred text => exact absurd h (display_ne v text).2.1
  | null =>
    cases b with
    | value w => exact absurd h.symm (display_ne w "").1
    | null => exact trivial
    | deferred text => exact absurd h (display_ne default text).2.2
  | deferred text =>
    cases b with
    | value w => exact absurd h.symm (display_ne w text).2.1
    | null => exact absurd h.symm (display_ne default text).2.2
    | deferred text' =>
      have htexts : "<" ++ text ++ ">" = "<" ++ text' ++ ">" := h
      have hlist := congrArg String.toList htexts
      simp only [String.toList_append, List.append_cancel_left_eq, List.append_cancel_right_eq,
        String.toList_inj] at hlist
      exact hlist

end Binding
end BraceTree
