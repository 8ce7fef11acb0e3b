import BraceTree.Proofs.Header.Readers
import BraceTree.Proofs.Text.Blanks

/-!
# How a header is spaced

The readers of headers pass over blanks and do not count them, so a header has the same form however
many blanks are in each place that has any. The form is the kind without the texts that were
captured. All readers but one come to the same on a header and on the squeezed one, in literals as
well as outside, since a header is read without a look at literals.

The one exception is the loop over a collection. Its collection may be a blank if there is another
one before it. So a loop with nothing but blanks where the collection should be is read as a loop if
there are two of them, and not at all if there is only one (`Header.LacksCollection`). That is all
that the number of blanks ever decides (`Header.form?_run_eq_iff`).
-/

namespace BraceTree

/-- **What is left of a kind without the texts that its header captured.** -/
structure BlockKind.Form where
  /-- The name of the kind. -/
  label : String
  /-- Whether a loop is counted, if it is a `for` loop. -/
  counted : Option Bool
  /-- The number of parameters of a function. -/
  arity : Option Nat
  deriving DecidableEq

/-- The form of a kind. -/
def BlockKind.form (k : BlockKind) : BlockKind.Form where
  label := k.label
  counted := match k with
    | .forLoop (.counted _ _ _) => some true
    | .forLoop (.each _ _) => some false
    | _ => none
  arity := match k with
    | .function s => some s.parameters.length
    | _ => none

namespace Header

/-- The form of what a header is read as, none if it is not read. -/
def form? (header : Text) : Option BlockKind.Form := (read? header).map fun r => r.kind.form

variable {t rest inner : Text}

/-! ## Parameters -/

/-- A text without its blanks. -/
def ink (t : Text) : Text := t.filter fun c => !Text.isBlank c

theorem ink_cons_of_blank {c : Char} (hc : Text.isBlank c = true) (t : Text) :
    ink (c :: t) = ink t :=
  List.filter_cons_of_neg (by simp [hc])

theorem ink_cons_of_not_blank {c : Char} (hc : Text.isBlank c = false) (t : Text) :
    ink (c :: t) = c :: ink t :=
  List.filter_cons_of_pos (by simp [hc])

theorem ink_squeeze (t : Text) : ink (Text.squeeze t) = ink t := by
  induction t with
  | nil => rfl
  | cons c cs ih =>
    cases hc : Text.isBlank c with
    | true =>
      rw [Text.squeeze_cons_of_blank hc, ink_cons_of_blank hc]
      split
      · exact ih
      · exact (ink_cons_of_blank (by decide) _).trans ih
    | false =>
      rw [Text.squeeze_cons_of_not_blank hc, ink_cons_of_not_blank hc, ink_cons_of_not_blank hc, ih]

theorem ink_eq_nil_iff : ink t = [] ↔ Text.trim t = [] := by
  rw [ink, List.filter_eq_nil_iff, Text.trim_eq_nil_iff, Text.isBlankText, List.all_eq_true]
  simp

/-- **Blanks play no part where type arguments are cut.** -/
theorem splitArgs_ink (t : Text) : ∀ depth : Nat,
    TypeName.splitArgs depth (ink t) = (TypeName.splitArgs depth t).map ink := by
  induction t with
  | nil => exact fun _ => rfl
  | cons c cs ih =>
    intro depth
    have hhead : ∀ ps : List Text, (ps.modifyHead (c :: ·)).map ink =
        if Text.isBlank c then ps.map ink else (ps.map ink).modifyHead (c :: ·) := fun ps => by
      cases ps with
      | nil => split <;> rfl
      | cons p ps =>
        cases hc : Text.isBlank c <;> simp [ink, hc]
    cases hc : Text.isBlank c with
    | true =>
      have hne : ∀ d, Text.isBlank d = false → c ≠ d := by
        rintro d hd rfl
        exact Bool.false_ne_true (hd.symm.trans hc)
      rw [ink_cons_of_blank hc, TypeName.splitArgs, if_neg (hne '<' (by decide)),
        if_neg (hne '>' (by decide)), if_neg (fun h => hne ',' (by decide) h.1), hhead, hc,
        if_pos rfl, ih]
    | false =>
      rw [ink_cons_of_not_blank hc, TypeName.splitArgs, TypeName.splitArgs]
      split
      · rw [ih, hhead, hc, if_neg Bool.false_ne_true]
      · split
        · rw [ih, hhead, hc, if_neg Bool.false_ne_true]
        · split
          · rw [ih, List.map_cons]
            rfl
          · rw [ih, hhead, hc, if_neg Bool.false_ne_true]

/-- **There are as many parameters as there are pieces that are not blank.** -/
theorem length_parameters (t : Text) : (parameters t).length =
    (TypeName.splitArgs 0 (ink t)).countP fun p => p ≠ [] := by
  rw [parameters, List.length_map, splitArgs_ink, TypeName.arguments,
    ← List.countP_eq_length_filter, List.countP_map, List.countP_map]
  refine List.countP_congr fun p _ => ?_
  simp [ink_eq_nil_iff]

theorem length_parameters_squeeze (t : Text) :
    (parameters (Text.squeeze t)).length = (parameters t).length := by
  rw [length_parameters, ink_squeeze, length_parameters]

/-! ## Parts of a header -/

theorem dropLast?_squeeze {x : Char} (hx : Text.isBlank x = false) (t : Text) :
    Text.dropLast? x (Text.squeeze t) = (Text.dropLast? x t).map Text.squeeze := by
  cases h : Text.dropLast? x t with
  | some rest =>
    rw [Text.dropLast?_eq_some h, Text.squeeze_append_cons hx]
    exact Text.dropLast?_concat x _
  | none =>
    cases hsqueezed : Text.dropLast? x (Text.squeeze t) with
    | none => rfl
    | some rest =>
      obtain ⟨a, b, rfl, -, hb⟩ :=
        Text.exists_of_squeeze_eq hx (Text.dropLast?_eq_some hsqueezed)
      rw [Text.squeeze_eq_nil_iff.mp hb, Text.dropLast?_concat] at h
      cases h

theorem splitName?_squeeze (t : Text) : Call.splitName? (Text.squeeze t) =
    (Call.splitName? t).map fun p => (p.1, Text.squeeze p.2) := by
  cases t with
  | nil => rfl
  | cons c cs =>
    cases hc : Text.isBlank c with
    | true =>
      -- neither text starts with a name
      obtain ⟨d, ds, hsqueeze, hd⟩ := Text.exists_squeeze_cons hc cs
      rw [hsqueeze, Call.splitName?, Call.splitName?, (Text.not_word_of_isBlank hc).1,
        (Text.not_word_of_isBlank hd).1]
      rfl
    | false =>
      obtain ⟨htake, hdrop⟩ := Text.takeWhile_squeeze (fun h => (Text.not_word_of_isBlank h).2) cs
      rw [Text.squeeze_cons_of_not_blank hc, Call.splitName?, Call.splitName?, htake, hdrop]
      split <;> rfl

theorem afterParen?_squeeze (t : Text) :
    afterParen? (Text.squeeze t) = (afterParen? t).map Text.squeeze := by
  rw [afterParen?, afterParen?, Text.trimStart_squeeze]
  cases h : Text.trimStart t with
  | nil => rfl
  | cons c cs =>
    rw [Text.squeeze_cons_of_not_blank (Text.not_blank_of_trimStart h)]
    dsimp only
    split <;> rfl

theorem inParens?_squeeze (t : Text) :
    inParens? (Text.squeeze t) = (inParens? t).map Text.squeeze := by
  rw [inParens?, inParens?, afterParen?_squeeze]
  cases afterParen? t with
  | none => rfl
  | some rest => exact dropLast?_squeeze (by decide) rest

/-- What stands in the parentheses behind a keyword. -/
theorem dropPrefix?_bind_inParens?_squeeze {keyword : Text}
    (hkeyword : ∀ c ∈ keyword, Text.isBlank c = false) (t : Text) :
    (Text.dropPrefix? keyword (Text.squeeze t)).bind inParens? =
      ((Text.dropPrefix? keyword t).bind inParens?).map Text.squeeze := by
  rw [Text.dropPrefix?_squeeze hkeyword]
  cases Text.dropPrefix? keyword t with
  | none => rfl
  | some rest => exact inParens?_squeeze rest

/-! ## Functions -/

theorem returnText?_squeeze (hline : '\n' ∉ t) :
    returnText? (Text.squeeze t) = (returnText? t).map (Option.map Text.squeeze) := by
  cases t with
  | nil => rfl
  | cons c cs =>
    have hempty : (Text.squeeze (c :: cs)).isEmpty = false := by
      rw [List.isEmpty_eq_false_iff]
      exact fun hnil => List.cons_ne_nil c cs (Text.squeeze_eq_nil_iff.mp hnil)
    rw [returnText?, returnText?, hempty, List.isEmpty_cons, if_neg Bool.false_ne_true,
      if_neg Bool.false_ne_true, Text.trimStart_squeeze]
    cases hstart : Text.trimStart (c :: cs) with
    | nil => rfl
    | cons d ds =>
      have hmem : '\n' ∉ Text.trimStart ds := fun hmem => hline <|
        List.dropWhile_subset Text.isBlank (show '\n' ∈ Text.trimStart (c :: cs) from
          hstart ▸ List.mem_cons_of_mem d (List.dropWhile_subset Text.isBlank hmem))
      have hsame : (Text.squeeze (Text.trimStart ds)).isEmpty = (Text.trimStart ds).isEmpty := by
        rw [Bool.eq_iff_iff, List.isEmpty_iff, List.isEmpty_iff, Text.squeeze_eq_nil_iff]
      have hfalse : ∀ {u : Text}, '\n' ∉ u → u.contains '\n' = false := fun h => by simpa using h
      rw [Text.squeeze_cons_of_not_blank (Text.not_blank_of_trimStart hstart)]
      dsimp only
      rw [Text.trimStart_squeeze, hsame, hfalse hmem, hfalse (Text.newline_not_mem_squeeze _)]
      split <;> rfl

/-- **The parameters end at the same parenthesis.** -/
theorem beforeParen?_squeeze (hline : '\n' ∉ t) : beforeParen? returnText? (Text.squeeze t) =
    (beforeParen? returnText? t).map fun p => (Text.squeeze p.1, p.2.map Text.squeeze) := by
  have hclose : Text.isBlank ')' = false := by decide
  have hparts : ∀ {x y : Text}, t = x ++ ')' :: y → '\n' ∉ y := fun hsplit hmem =>
    hline (hsplit ▸ List.mem_append_right _ (List.mem_cons_of_mem _ hmem))
  -- a parenthesis of the squeezed text is one of the text, with the same behind it
  have hnone : ∀ {x y : Text}, t = x ++ ')' :: y →
      (∀ x' y', y = x' ++ ')' :: y' → returnText? y' = none) →
        ∀ u v, Text.squeeze y = u ++ ')' :: v → returnText? v = none := by
    intro x y hsplit hlast u v huv
    obtain ⟨x', y', rfl, -, rfl⟩ := Text.exists_of_squeeze_eq hclose huv
    have hmem : '\n' ∉ y' := fun hmem =>
      hparts hsplit (List.mem_append_right _ (List.mem_cons_of_mem _ hmem))
    rw [returnText?_squeeze hmem, hlast x' y' rfl]
    rfl
  cases h : beforeParen? returnText? t with
  | some p =>
    obtain ⟨inner, typeText⟩ := p
    obtain ⟨rest, hsplit, hread, hlast⟩ := (beforeParen?_eq_some_iff hline).mp h
    refine (beforeParen?_eq_some_iff (Text.newline_not_mem_squeeze t)).mpr
      ⟨Text.squeeze rest, ?_, ?_, hnone hsplit hlast⟩
    · rw [hsplit, Text.squeeze_append_cons hclose]
    · rw [returnText?_squeeze (hparts hsplit), hread]
      rfl
  | none =>
    refine (beforeParen?_eq_none_iff (Text.newline_not_mem_squeeze t)).mpr fun u v huv => ?_
    obtain ⟨x, y, hsplit, -, rfl⟩ := Text.exists_of_squeeze_eq hclose huv
    rw [returnText?_squeeze (hparts hsplit), (beforeParen?_eq_none_iff hline).mp h x y hsplit]
    rfl

/-- **A function has the same form.** -/
theorem function?_squeeze (hline : '\n' ∉ t) :
    (function? (Text.squeeze t)).map (fun r => r.kind.form) =
      (function? t).map fun r => r.kind.form := by
  have hword : ∀ c ∈ "function".toList, Text.isBlank c = false := Text.not_blank_of_all (by decide)
  rw [function?, function?, Text.afterWord?_squeeze hword]
  cases h : Text.afterWord? "function" t with
  | none => rfl
  | some behind =>
    rw [Option.map_some, Option.bind_some, Option.bind_some, splitName?_squeeze]
    cases hname : Call.splitName? behind with
    | none => rfl
    | some p =>
      obtain ⟨name, rest⟩ := p
      dsimp only [Option.map_some]
      rw [afterParen?_squeeze]
      cases hparen : afterParen? rest with
      | none => rfl
      | some open' =>
        have hmem : '\n' ∉ open' := fun hmem => hline (by
          obtain ⟨gap, -, rfl⟩ := afterWord?_eq_some h
          obtain ⟨rfl, -⟩ := Call.splitName?_eq_some hname
          obtain ⟨pre, -, rfl⟩ := afterParen?_eq_some hparen
          simp [hmem])
        rw [Option.map_some, Option.bind_some, Option.bind_some, beforeParen?_squeeze hmem]
        cases beforeParen? returnText? open' with
        | none => rfl
        | some p =>
          obtain ⟨params, typeText⟩ := p
          simp only [Option.map_some, BlockKind.form, BlockKind.label, length_parameters_squeeze]

/-! ## Branches and loops -/

/-- **A condition is read from both or from neither.** -/
theorem isSome_condition?_squeeze {keyword : String}
    (hkeyword : ∀ c ∈ keyword.toList, Text.isBlank c = false) (hline : '\n' ∉ t) :
    (condition? keyword (Text.squeeze t)).isSome = (condition? keyword t).isSome := by
  have hfalse : ∀ {u : Text}, '\n' ∉ u → u.contains '\n' = false := fun h => by simpa using h
  rw [condition?, condition?, dropPrefix?_bind_inParens?_squeeze hkeyword]
  cases h : (Text.dropPrefix? keyword.toList t).bind inParens? with
  | none => rfl
  | some inner =>
    dsimp only [Option.map_some]
    rw [hfalse (Text.newline_not_mem_squeeze inner),
      hfalse fun hmem => hline (mem_of_inParens? h hmem)]
    rfl

theorem isSome_counted?_squeeze (t : Text) :
    (counted? (Text.squeeze t)).isSome = (counted? t).isSome := by
  have hsqueeze : (Text.dropPrefix? "for".toList (Text.squeeze t)).bind inParens? = _ :=
    dropPrefix?_bind_inParens?_squeeze (Text.not_blank_of_all (by decide)) t
  cases h : (Text.dropPrefix? "for".toList t).bind inParens? with
  | none =>
    rw [h] at hsqueeze
    rw [counted?, counted?, hsqueeze, h]
    rfl
  | some inner =>
    rw [h] at hsqueeze
    rw [Bool.eq_iff_iff, isSome_counted?_iff hsqueeze, isSome_counted?_iff h,
      Text.count_squeeze (by decide)]

theorem inLoop?_squeeze (t : Text) :
    inLoop? (Text.squeeze t) = (inLoop? t).map fun p => (p.1, Text.squeeze p.2) := by
  have hfor : ∀ c ∈ "for".toList, Text.isBlank c = false := Text.not_blank_of_all (by decide)
  have hin : ∀ c ∈ "in".toList, Text.isBlank c = false := Text.not_blank_of_all (by decide)
  have hempty : ∀ c ∈ "".toList, Text.isBlank c = false := Text.not_blank_of_all (by decide)
  rw [inLoop?, inLoop?, Text.dropPrefix?_squeeze hfor]
  cases Text.dropPrefix? "for".toList t with
  | none => rfl
  | some behind =>
    rw [Option.map_some, Option.bind_some, Option.bind_some, afterParen?_squeeze]
    cases afterParen? behind with
    | none => rfl
    | some inner =>
      rw [Option.map_some, Option.bind_some, Option.bind_some, Text.trimStart_squeeze,
        splitName?_squeeze]
      cases Call.splitName? (Text.trimStart inner) with
      | none => rfl
      | some p =>
        rw [Option.map_some, Option.bind_some, Option.bind_some, Text.afterWord?_squeeze hempty]
        cases Text.afterWord? "" p.2 with
        | none => rfl
        | some word =>
          rw [Option.map_some, Option.bind_some, Option.bind_some, Text.dropPrefix?_squeeze hin]
          cases Text.dropPrefix? "in".toList word <;> rfl

/-- **A collection that is not blank is found in both texts or in neither.** -/
theorem isSome_collection?_squeeze (hline : '\n' ∉ t)
    (hnot : ∀ gap, Text.isBlankText gap = true → gap ≠ [] → t ≠ gap ++ [')']) :
    (collection? (Text.squeeze t)).isSome = (collection? t).isSome := by
  have hclose : Text.isBlank ')' = false := by decide
  rw [Bool.eq_iff_iff, isSome_collection?_iff hline,
    isSome_collection?_iff (Text.newline_not_mem_squeeze t)]
  constructor
  · rintro ⟨b, m, hsqueeze, hb, hne⟩
    obtain ⟨x, y, rfl, hx, hy⟩ := Text.exists_of_squeeze_eq hclose (u := b :: m) hsqueeze
    obtain rfl := Text.squeeze_eq_nil_iff.mp hy
    cases x with
    | nil => cases hx
    | cons d ds =>
      have hd := Text.head?_squeeze (d :: ds)
      rw [hx] at hd
      refine ⟨d, ds, rfl, hd.symm.trans hb, ?_⟩
      -- one blank cannot have been squeezed out of a longer text
      rintro rfl
      have hblank : Text.isBlankText [d] = true := (Bool.and_true _).trans (hd.symm.trans hb)
      rw [Text.squeeze_of_isBlankText hblank (List.cons_ne_nil d [])] at hx
      exact hne (List.cons.inj hx).2.symm
  · rintro ⟨b, m, rfl, hb, hne⟩
    obtain ⟨d, ds, hsqueeze, hd⟩ := Text.exists_squeeze_cons hb m
    refine ⟨d, ds, ?_, hd, ?_⟩
    · rw [← List.cons_append, Text.squeeze_append_cons hclose, hsqueeze]
      rfl
    · rintro rfl
      have hblank : Text.isBlankText (b :: m) = true := by
        rw [← Text.isBlankText_squeeze, hsqueeze, Text.isBlankText, List.all_cons, hd]
        rfl
      exact hnot (b :: m) hblank (List.cons_ne_nil b m) rfl

/-! ## Loops without a collection -/

/-- **A loop over a collection that is not there**: behind `in` there are only the blanks `gap` and
the parenthesis that ends the header. -/
def LacksCollection (gap header : Text) : Prop :=
  (Text.isBlankText gap = true ∧ gap ≠ []) ∧ ∃ item, Text.IsName item ∧ ∃ a b c : Text,
    Text.isBlankText a = true ∧ Text.isBlankText b = true ∧ Text.isBlankText c = true ∧ c ≠ [] ∧
    Text.trim header = "for".toList ++ (a ++ '(' :: (b ++ (item ++ (c ++
      ("in".toList ++ (gap ++ [')']))))))

theorem mem_of_inLoop? {item : Text} (h : inLoop? t = some (item, rest)) {c : Char}
    (hc : c ∈ rest) : c ∈ t := by
  obtain ⟨-, a, b, gap, -, -, -, -, rfl⟩ := inLoop?_eq_some_iff.mp h
  simp [hc]

theorem lacksCollection_iff {gap header : Text} : LacksCollection gap header ↔
    (Text.isBlankText gap = true ∧ gap ≠ []) ∧
      ∃ item, inLoop? (Text.trim header) = some (item, gap ++ [')']) := by
  simp only [LacksCollection, inLoop?_eq_some_iff]

/-- A collection that is not there is not there however many blanks there are. -/
theorem LacksCollection.of_squeeze_eq {gap header header' : Text} (h : LacksCollection gap header)
    (heq : Text.squeeze header = Text.squeeze header') : ∃ gap', LacksCollection gap' header' := by
  obtain ⟨⟨hblank, hne⟩, item, hbehind⟩ := lacksCollection_iff.mp h
  have hsqueeze := inLoop?_squeeze (Text.trim header)
  rw [← Text.trim_squeeze, heq, Text.trim_squeeze, inLoop?_squeeze, hbehind, Option.map_some,
    Text.squeeze_append_cons (by decide), Text.squeeze_of_isBlankText hblank hne] at hsqueeze
  obtain ⟨⟨_, rest⟩, hrest, hpair⟩ := Option.map_eq_some_iff.mp hsqueeze
  obtain ⟨gap', y, rfl, hgap', hy⟩ :=
    Text.exists_of_squeeze_eq (by decide) (Prod.mk.inj hpair).2
  rw [Text.squeeze_eq_nil_iff.mp hy] at hrest
  refine ⟨gap', lacksCollection_iff.mpr ⟨⟨?_, ?_⟩, _, hrest⟩⟩
  · rw [← Text.isBlankText_squeeze, hgap']
    rfl
  · rintro rfl
    cases hgap'

/-! ## The form of a header -/

/-- The form of a header is told by which readers succeed. -/
theorem form?_eq (header : Text) : form? header =
    if Text.trim header = [] then some BlockKind.plain.form
    else
      ((function? (Text.trim header)).map fun r => r.kind.form) <|>
        if Text.trim header = "else".toList then some BlockKind.elseBranch.form
        else if (condition? "if" (Text.trim header)).isSome then some (BlockKind.ifBranch "").form
        else if (condition? "elif" (Text.trim header)).isSome then
          some (BlockKind.elifBranch "").form
        else if (condition? "while" (Text.trim header)).isSome then
          some (BlockKind.whileLoop "").form
        else if (counted? (Text.trim header)).isSome then
          some (BlockKind.forLoop (.counted "" "" "")).form
        else if (each? (Text.trim header)).isSome then
          some (BlockKind.forLoop (.each "" "")).form
        else none := by
  rw [form?, read?]
  generalize Text.trim header = t
  by_cases hnil : t = []
  · rw [if_pos hnil, hnil]
    rfl
  rw [if_neg (by simpa using hnil), if_neg hnil]
  cases function? t with
  | some r => rfl
  | none =>
    by_cases helse : t = "else".toList
    · rw [if_pos helse, if_pos helse]
      rfl
    rw [if_neg helse, if_neg helse]
    cases condition? "if" t with
    | some c => rfl
    | none =>
      cases condition? "elif" t with
      | some c => rfl
      | none =>
        cases condition? "while" t with
        | some c => rfl
        | none =>
          cases hcounted : counted? t with
          | some clause =>
            obtain ⟨init, condition, step, rfl⟩ := exists_clause_of_counted? hcounted
            rfl
          | none =>
            cases heach : each? t with
            | some clause =>
              obtain ⟨item, collection, rfl⟩ := exists_clause_of_each? heach
              rfl
            | none => rfl

/-- A header that starts with `for` is left to the readers of loops. -/
theorem form?_loop {header : Text} (h : Text.trim header = "for".toList ++ rest) : form? header =
    if (counted? (Text.trim header)).isSome then some (BlockKind.forLoop (.counted "" "" "")).form
    else if (each? (Text.trim header)).isSome then some (BlockKind.forLoop (.each "" "")).form
    else none := by
  rw [form?_eq, h]
  rfl

/-- **Every header has the form of the squeezed one**, but for a loop without a collection. -/
theorem form?_squeeze {header : Text} (hline : '\n' ∉ header)
    (hnot : ∀ gap, ¬ LacksCollection gap header) :
    form? (Text.squeeze header) = form? header := by
  have hline : '\n' ∉ Text.trim header := fun hmem => hline (Text.mem_of_mem_trim hmem)
  have heach : (each? (Text.squeeze (Text.trim header))).isSome =
      (each? (Text.trim header)).isSome := by
    have hsqueeze := inLoop?_squeeze (Text.trim header)
    cases hbehind : inLoop? (Text.trim header) with
    | none =>
      rw [each?_eq, each?_eq, hsqueeze, hbehind]
      rfl
    | some p =>
      obtain ⟨item, rest⟩ := p
      rw [hbehind] at hsqueeze
      replace hsqueeze : _ = some (item, Text.squeeze rest) := hsqueeze
      rw [isSome_each? hsqueeze, isSome_each? hbehind]
      refine isSome_collection?_squeeze (fun hmem => hline (mem_of_inLoop? hbehind hmem))
        fun gap hgap hne hrest => hnot gap ?_
      rw [hrest] at hbehind
      exact lacksCollection_iff.mpr ⟨⟨hgap, hne⟩, item, hbehind⟩
  have helse : Text.squeeze (Text.trim header) = "else".toList ↔
      Text.trim header = "else".toList := Text.squeeze_eq_iff (Text.not_blank_of_all (by decide))
  rw [form?_eq, form?_eq, Text.trim_squeeze, function?_squeeze hline, heach,
    isSome_counted?_squeeze, isSome_condition?_squeeze (Text.not_blank_of_all (by decide)) hline,
    isSome_condition?_squeeze (Text.not_blank_of_all (by decide)) hline,
    isSome_condition?_squeeze (Text.not_blank_of_all (by decide)) hline]
  simp only [Text.squeeze_eq_nil_iff, helse]

theorem LacksCollection.unique {gap gap' header : Text} (h : LacksCollection gap header)
    (h' : LacksCollection gap' header) : gap = gap' := by
  obtain ⟨-, item, hrest⟩ := lacksCollection_iff.mp h
  obtain ⟨-, item', hrest'⟩ := lacksCollection_iff.mp h'
  exact List.append_cancel_right (Prod.mk.inj (Option.some.inj (hrest.symm.trans hrest'))).2

/-- No counted loop lacks a collection. -/
theorem LacksCollection.counted?_eq_none {gap header : Text} (h : LacksCollection gap header) :
    counted? (Text.trim header) = none := by
  obtain ⟨⟨hgap, -⟩, _, ⟨d, ds, rfl, hd, hds⟩, a, b, c, ha, hb, hc, -, ht⟩ := h
  have hinner : (Text.dropPrefix? "for".toList (Text.trim header)).bind inParens? =
      some (b ++ (d :: ds ++ (c ++ ("in".toList ++ gap)))) := by
    have hparen : ∀ x : Text, afterParen? (a ++ '(' :: x) = some x := fun x => by
      rw [afterParen?, Text.trimStart_append_of_isBlankText ha]
      rfl
    rw [ht, Text.dropPrefix?_append, Option.bind_some, inParens?, hparen, Option.bind_some]
    simp only [← List.append_assoc]
    exact Text.dropLast?_concat ')' _
  have hblank : ∀ {x : Text}, Text.isBlankText x = true → ';' ∉ x := fun hx hmem =>
    absurd (List.all_eq_true.mp hx _ hmem) (by decide)
  have hname : ';' ∉ d :: ds := by
    refine List.not_mem_cons_of_ne_of_not_mem ?_ fun hmem =>
      absurd (List.all_eq_true.mp hds _ hmem) (by decide)
    rintro rfl
    exact absurd hd (by decide)
  refine Option.not_isSome_iff_eq_none.mp fun hsome => ?_
  have hcount := (isSome_counted?_iff hinner).mp hsome
  rw [List.count_eq_zero_of_not_mem] at hcount
  · cases hcount
  · simp only [List.mem_append, not_or]
    exact ⟨hblank hb, hname, hblank hc, by decide, hblank hgap⟩

/-- **A loop without a collection is read as a loop over one unless there is one blank for it.** -/
theorem form?_of_lacksCollection {gap header : Text} (hline : '\n' ∉ header)
    (h : LacksCollection gap header) : form? header =
      if gap.length = 1 then none else some (BlockKind.forLoop (.each "" "")).form := by
  have hline : '\n' ∉ Text.trim header := fun hmem => hline (Text.mem_of_mem_trim hmem)
  obtain ⟨⟨hblank, hne⟩, item, hbehind⟩ := lacksCollection_iff.mp h
  obtain ⟨-, a, b, c, -, -, -, -, ht⟩ := inLoop?_eq_some_iff.mp hbehind
  have heach : (each? (Text.trim header)).isSome = true ↔ gap.length ≠ 1 := by
    obtain ⟨d, ds, rfl⟩ := List.exists_cons_of_ne_nil hne
    have hd : Text.isBlank d = true := ((Bool.and_eq_true _ _).mp hblank).1
    rw [isSome_each? hbehind,
      isSome_collection?_iff (fun hmem => hline (mem_of_inLoop? hbehind hmem)), List.length_cons,
      Ne, Nat.add_eq_right, List.length_eq_zero_iff]
    constructor
    · rintro ⟨d', m, hsplit, -, hm⟩ rfl
      exact hm (List.append_cancel_right (List.cons.inj hsplit).2).symm
    · exact fun hds => ⟨d, ds, rfl, hd, hds⟩
  rw [form?_loop ht, h.counted?_eq_none, Option.isSome_none, if_neg Bool.false_ne_true]
  by_cases hone : gap.length = 1
  · rw [if_pos hone, if_neg fun hsome => heach.mp hsome hone]
  · rw [if_neg hone, if_pos (heach.mpr hone)]

/-- **The form of a header depends on how many blanks are in a place only if it lacks a
collection**: the forms are the same unless one of the headers has exactly one blank for a
collection and the other one has more of them. -/
theorem form?_run_eq_iff {before gap gap' after : Text} (hline : '\n' ∉ before ++ (gap ++ after))
    (hgap : Text.isBlankText gap = true ∧ gap ≠ [])
    (hgap' : Text.isBlankText gap' = true ∧ gap' ≠ [] ∧ '\n' ∉ gap') :
    form? (before ++ (gap' ++ after)) = form? (before ++ (gap ++ after)) ↔
      ((∃ d, LacksCollection [d] (before ++ (gap' ++ after))) ↔
        ∃ d, LacksCollection [d] (before ++ (gap ++ after))) := by
  have hline' : '\n' ∉ before ++ (gap' ++ after) := by
    simp only [List.mem_append, not_or] at hline ⊢
    exact ⟨hline.1, hgap'.2.2, hline.2.2⟩
  have hsame : Text.squeeze (before ++ (gap ++ after)) = Text.squeeze (before ++ (gap' ++ after)) :=
    Text.squeeze_run hgap.1 hgap.2 hgap'.1 hgap'.2.1 before after
  generalize before ++ (gap ++ after) = header at hline hsame ⊢
  generalize before ++ (gap' ++ after) = header' at hline' hsame ⊢
  have hone : ∀ {header g}, LacksCollection g header →
      ((∃ d, LacksCollection [d] header) ↔ g.length = 1) := fun {header g} hg => by
    constructor
    · rintro ⟨d, hd⟩
      rw [hg.unique hd]
      rfl
    · intro hlength
      obtain ⟨d, rfl⟩ := List.length_eq_one_iff.mp hlength
      exact ⟨d, hg⟩
  by_cases hlacks : ∃ g, LacksCollection g header
  · obtain ⟨g, hg⟩ := hlacks
    obtain ⟨g', hg'⟩ := hg.of_squeeze_eq hsame
    rw [hone hg, hone hg', form?_of_lacksCollection hline hg, form?_of_lacksCollection hline' hg']
    split <;> split <;> simp_all
  · have hlacks' : ∀ g, ¬ LacksCollection g header' := fun g hg =>
      hlacks (hg.of_squeeze_eq hsame.symm)
    rw [← form?_squeeze hline (not_exists.mp hlacks), ← form?_squeeze hline' hlacks', hsame]
    exact iff_of_true rfl
      (iff_of_false (fun ⟨d, hd⟩ => hlacks' [d] hd) fun ⟨d, hd⟩ => hlacks ⟨[d], hd⟩)

/-- With a second blank behind `in`, a loop without a collection is read. -/
theorem form?_run_eq_iff_of_two_blanks :
    form? "for (x in )".toList = none ∧
      form? "for (x in  )".toList = some ⟨"For", some false, none⟩ ∧
      (form? ("for (x in".toList ++ ([' ', ' '] ++ [')'])) =
          form? ("for (x in".toList ++ ([' '] ++ [')'])) ↔
        ((∃ d, LacksCollection [d] ("for (x in".toList ++ ([' ', ' '] ++ [')']))) ↔
          ∃ d, LacksCollection [d] ("for (x in".toList ++ ([' '] ++ [')'])))) :=
  ⟨by decide +kernel, by decide +kernel, form?_run_eq_iff (by decide) (by decide) (by decide)⟩

end Header
end BraceTree
