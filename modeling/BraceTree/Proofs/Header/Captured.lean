import Mathlib.Data.Option.Basic
import BraceTree.Proofs.Header.Legible

/-!
# What headers capture

Every part of a header that ends up in the kind of a block was cut out of the header at characters
that are not in it, and is in one line if the header is. So the kinds of headers are legible
(`Header.legible_of_read?`), and none of them is the kind of the root.
-/

namespace BraceTree

/-! ## Parameters are read from their text -/

namespace TypeName

/-- What a character means where type arguments are cut. -/
def argRole (c : Char) : Role :=
  if c = '<' then .opens else if c = '>' then .closes else if c = ',' then .separates else .plain

theorem splitArgs_eq (t : Text) : ∀ depth, splitArgs depth t = Cut.pieces argRole depth t := by
  induction t with
  | nil => exact fun _ => rfl
  | cons c cs ih =>
    intro depth
    rw [splitArgs, Cut.pieces, argRole]
    by_cases hopen : c = '<'
    · rw [if_pos hopen, if_pos hopen, ih]
      rfl
    · by_cases hclose : c = '>'
      · rw [if_neg hopen, if_pos hclose, if_neg hopen, if_pos hclose, ih]
        rfl
      · by_cases hcomma : c = ','
        · cases depth with
          | zero =>
            rw [if_neg hopen, if_neg hclose, if_pos ⟨hcomma, rfl⟩, if_neg hopen, if_neg hclose,
              if_pos hcomma, ih]
            rfl
          | succ depth =>
            rw [if_neg hopen, if_neg hclose, if_neg (fun h => Nat.succ_ne_zero depth h.2),
              if_neg hopen, if_neg hclose, if_pos hcomma, ih]
            rfl
        · rw [if_neg hopen, if_neg hclose, if_neg (fun h => hcomma h.1), if_neg hopen,
            if_neg hclose, if_neg hcomma, ih]
          rfl

/-- A blank means nothing to the cut. -/
theorem argRole_of_isBlank {c : Char} (h : Text.isBlank c = true) : argRole c = .plain := by
  have hne : ∀ d, Text.isBlank d = false → c ≠ d := by
    rintro d hd rfl
    exact Bool.false_ne_true (hd.symm.trans h)
  rw [argRole, if_neg (hne '<' (by decide)), if_neg (hne '>' (by decide)),
    if_neg (hne ',' (by decide))]

/-- What is left of a text when all that means nothing to the cut is taken out. -/
def bones (t : Text) : Text := t.filter fun c => argRole c ≠ .plain

theorem bones_append (a b : Text) : bones (a ++ b) = bones a ++ bones b := List.filter_append a b

theorem bones_of_isBlankText {t : Text} (h : Text.isBlankText t = true) : bones t = [] :=
  List.filter_eq_nil_iff.mpr fun c hc => by
    simpa using argRole_of_isBlank (List.all_eq_true.mp h c hc)

theorem bones_trim (t : Text) : bones (Text.trim t) = bones t := by
  obtain ⟨post, hpost, ht⟩ := Text.eq_append_trim t
  have heq := congrArg bones ht
  rw [bones_append, bones_append, bones_of_isBlankText hpost,
    bones_of_isBlankText (Text.isBlankText_takeWhile t), List.nil_append, List.append_nil] at heq
  exact heq.symm

end TypeName

/-- **A name is the start of a text**, and all of it are word characters. -/
theorem Call.splitName?_eq_some {t name rest : Text} (h : splitName? t = some (name, rest)) :
    t = name ++ rest ∧ ∀ c, Text.isNameHead c = false → Text.isWord c = false → c ∉ name := by
  cases t with
  | nil => exact absurd h (Option.some_ne_none _).symm
  | cons d ds =>
    rw [splitName?] at h
    split at h
    · rename_i hd
      obtain ⟨rfl, rfl⟩ := Prod.mk.inj (Option.some.inj h)
      refine ⟨by rw [List.cons_append, List.takeWhile_append_dropWhile], fun c hhead hword => ?_⟩
      refine List.not_mem_cons_of_ne_of_not_mem ?_ fun hmem => ?_
      · rintro rfl
        exact Bool.false_ne_true (hhead.symm.trans hd)
      · exact Bool.false_ne_true (hword.symm.trans
          (List.all_eq_true.mp (List.all_takeWhile (p := Text.isWord) (l := ds)) c hmem))
    · exact absurd h (Option.some_ne_none _).symm

namespace Header

theorem toList_display_parameter (p : Parameter) : p.display.toList =
    match p.typeText with
    | some a => p.name.toList ++ (' ' :: ':' :: ' ' :: a.toList)
    | none => p.name.toList := by
  rw [Parameter.display]
  cases p.typeText <;> simp

/-- A parameter is cut like its text. -/
theorem bones_display_parameter (q : Text) :
    TypeName.bones (parameter q).display.toList = TypeName.bones q := by
  rw [toList_display_parameter, parameter]
  rcases Text.splitFirst?_cases ':' q with ⟨hcut, -⟩ | ⟨name, type, hcut, hq, -⟩
  · rw [hcut]
    show TypeName.bones (String.ofList (Text.trim q)).toList = TypeName.bones q
    rw [String.toList_ofList, TypeName.bones_trim]
  · rw [hcut]
    show TypeName.bones ((String.ofList (Text.trim name)).toList ++
      ([' ', ':', ' '] ++ (String.ofList (Text.trim type)).toList)) = TypeName.bones q
    rw [String.toList_ofList, String.toList_ofList, TypeName.bones_append, TypeName.bones_append,
      TypeName.bones_trim, TypeName.bones_trim, hq, TypeName.bones_append]
    rfl

/-- **A parameter is read from its text.** -/
theorem parameter_display (q : Text) :
    parameter (Text.trim (parameter q).display.toList) = parameter q := by
  rw [toList_display_parameter, parameter.eq_def q]
  rcases Text.splitFirst?_cases ':' q with ⟨hcut, hnot⟩ | ⟨name, type, hcut, -, hname⟩
  · rw [hcut]
    show parameter (Text.trim (String.ofList (Text.trim q)).toList) =
      ⟨String.ofList (Text.trim q), none⟩
    have hnot' : ':' ∉ Text.trim q := fun hmem => hnot (Text.mem_of_mem_trim hmem)
    rcases Text.splitFirst?_cases ':' (Text.trim q) with ⟨hcut', -⟩ | ⟨a, b, -, hsplit, -⟩
    · rw [String.toList_ofList, Text.trim_trim, parameter, hcut', Text.trim_trim]
    · exact absurd (by rw [hsplit]; simp) hnot'
  · rw [hcut]
    show parameter (Text.trim ((String.ofList (Text.trim name)).toList ++
        (' ' :: ':' :: ' ' :: (String.ofList (Text.trim type)).toList))) =
      ⟨String.ofList (Text.trim name), some (String.ofList (Text.trim type))⟩
    have hblank : Text.trim (Text.trim name ++ [' ']) = Text.trim name := by
      show Text.trim ([] ++ (Text.trim name ++ [' '])) = Text.trim name
      rw [Text.trim_between _ rfl rfl, Text.trim_trim]
    have hnot : ':' ∉ Text.trimStart (Text.trim name ++ [' ']) := fun hmem => by
      have hmem' := List.dropWhile_subset Text.isBlank hmem
      rcases List.mem_append.mp hmem' with hmem' | hmem'
      · exact hname (Text.mem_of_mem_trim hmem')
      · exact absurd hmem' (by decide)
    rw [String.toList_ofList, String.toList_ofList, List.append_cons,
      Text.trim_append_cons (by decide), parameter, Text.splitFirst?_append hnot]
    show Parameter.mk (String.ofList (Text.trim (Text.trimStart _)))
      (some (String.ofList (Text.trim (Text.trimEnd (' ' :: Text.trim type))))) = _
    rw [Text.trim_trimStart, hblank, Text.trim_trimEnd]
    show Parameter.mk _ (some (String.ofList (Text.trim (Text.trim type)))) = _
    rw [Text.trim_trim]

/-- Only a blank text is read as no parameter at all. -/
theorem trim_eq_nil_of_parameter_eq {q : Text} (h : parameter q = parameter []) :
    Text.trim q = [] := by
  rw [parameter.eq_def q] at h
  rcases Text.splitFirst?_cases ':' q with ⟨hcut, -⟩ | ⟨name, type, hcut, -, -⟩
  · rw [hcut] at h
    have hname := congrArg (fun p : Parameter => p.name.toList) h
    exact (String.toList_ofList (l := Text.trim q)).symm.trans hname
  · rw [hcut] at h
    exact absurd (congrArg Parameter.typeText h) (by simp [parameter, Text.splitFirst?])

/-- The texts of the parameters, before each of them is read. -/
def parameterTexts (t : Text) : List Text := (TypeName.arguments t).filter fun p => !p.isEmpty

theorem apart_parameterTexts (t : Text) : Cut.Apart TypeName.argRole (parameterTexts t) := by
  unfold parameterTexts TypeName.arguments
  rw [TypeName.splitArgs_eq]
  exact ((Cut.apart_pieces t).map fun p _ => Cut.walk?_congr (TypeName.bones_trim p) 0).filter _

theorem ne_nil_of_mem_parameterTexts {t q : Text} (hq : q ∈ parameterTexts t) :
    Text.trim q ≠ [] := by
  obtain ⟨hmem, hne⟩ := List.mem_filter.mp hq
  obtain ⟨p, -, rfl⟩ := List.mem_map.mp hmem
  rw [Text.trim_trim]
  rintro hnil
  rw [hnil] at hne
  exact absurd hne (by decide)

/-- **Parameters are read from their text** as they were read from a header. -/
theorem parameters_intercalate (t : Text) :
    parameters (", ".intercalate ((parameters t).map Parameter.display)).toList = parameters t := by
  have htexts : parameters t = (parameterTexts t).map parameter := rfl
  have hne := fun q => @ne_nil_of_mem_parameterTexts t q
  have hapart : Cut.Apart TypeName.argRole
      ((parameterTexts t).map fun q => (parameter q).display.toList) :=
    (apart_parameterTexts t).map fun q _ => Cut.walk?_congr (bones_display_parameter q) 0
  rw [String.toList_intercalate, htexts, List.map_map, List.map_map]
  show parameters (([',', ' '] : Text).intercalate
    ((parameterTexts t).map fun q => (parameter q).display.toList)) = _
  generalize parameterTexts t = qs at hne hapart
  cases qs with
  | nil => rfl
  | cons q qs =>
    -- what was joined is cut again, up to the blanks behind the commas
    have hcut : TypeName.arguments (([',', ' '] : Text).intercalate
        ((q :: qs).map fun q => (parameter q).display.toList)) =
          (q :: qs).map fun q => Text.trim (parameter q).display.toList := by
      rw [TypeName.arguments, TypeName.splitArgs_eq, List.map_cons,
        Cut.pieces_intercalate (by decide) (by decide) hapart, List.map_cons, List.map_map,
        List.map_map]
      rfl
    have hkeep : ∀ p ∈ (q :: qs).map fun q => Text.trim (parameter q).display.toList,
        (!p.isEmpty) = true := List.forall_mem_map.mpr fun r hr => by
      rw [Bool.not_eq_true', List.isEmpty_eq_false_iff]
      intro hnil
      have hread := parameter_display r
      rw [hnil] at hread
      exact hne r hr (trim_eq_nil_of_parameter_eq hread.symm)
    rw [parameters, hcut, List.filter_eq_self.mpr hkeep, List.map_map]
    exact List.map_congr_left fun r _ => parameter_display r

/-- There is nothing in the text of parameters that is not in the header, but for what stands
between the parts. -/
theorem mem_of_mem_parameters {t : Text} {c : Char}
    (h : c ∈ (", ".intercalate ((parameters t).map Parameter.display)).toList) :
    c ∈ [',', ' ', ':'] ∨ c ∈ t := by
  rw [String.toList_intercalate, List.map_map] at h
  rcases Text.mem_intercalate h with hsep | ⟨p, hp, hc⟩
  · have hsep' : c ∈ [',', ' '] := hsep
    exact .inl (List.mem_append_left [':'] hsep')
  · obtain ⟨param, hparam, rfl⟩ := List.mem_map.mp hp
    obtain ⟨q, hq, rfl⟩ := List.mem_map.mp hparam
    obtain ⟨piece, hpiece, rfl⟩ := List.mem_map.mp (List.mem_filter.mp hq).1
    rw [TypeName.splitArgs_eq] at hpiece
    have hin : c ∈ Text.trim piece → c ∈ t := fun hmem =>
      Cut.mem_of_mem_pieces hpiece (Text.mem_of_mem_trim hmem)
    rw [Function.comp, toList_display_parameter, parameter] at hc
    rcases Text.splitFirst?_cases ':' (Text.trim piece) with
      ⟨hcut, -⟩ | ⟨name, type, hcut, hsplit, -⟩
    · rw [hcut] at hc
      have hc' : c ∈ (String.ofList (Text.trim (Text.trim piece))).toList := hc
      rw [String.toList_ofList] at hc'
      exact .inr (hin (Text.mem_of_mem_trim hc'))
    · rw [hcut] at hc
      have hc' : c ∈ (String.ofList (Text.trim name)).toList ++
        ([' ', ':', ' '] ++ (String.ofList (Text.trim type)).toList) := hc
      rw [String.toList_ofList, String.toList_ofList, List.mem_append, List.mem_append] at hc'
      rcases hc' with hc' | hc' | hc'
      · exact .inr (hin (hsplit ▸ List.mem_append_left _ (Text.mem_of_mem_trim hc')))
      · have hseparators : [' ', ':', ' '] ⊆ [',', ' ', ':'] := by simp
        exact .inl (hseparators hc')
      · refine .inr (hin (hsplit ▸ List.mem_append_right _ (List.mem_cons_of_mem _ ?_)))
        exact Text.mem_of_mem_trim hc'

/-! ## The parts of a header -/

section Parts

variable {t rest inner name : Text} {c : Char}

theorem afterParen?_eq_some (h : afterParen? t = some rest) :
    ∃ pre, Text.isBlankText pre = true ∧ t = pre ++ '(' :: rest := by
  rw [afterParen?] at h
  have ht := List.takeWhile_append_dropWhile (p := Text.isBlank) (l := t)
  split at h
  · rename_i d ds hstart
    split at h
    · rename_i hd
      obtain rfl := Option.some.inj h
      refine ⟨t.takeWhile Text.isBlank, Text.isBlankText_takeWhile t, ?_⟩
      rw [← hd, ← hstart]
      exact ht.symm
    · exact absurd h (Option.some_ne_none _).symm
  · exact absurd h (Option.some_ne_none _).symm

theorem afterWord?_eq_some {word : String} (h : Text.afterWord? word t = some rest) :
    ∃ gap, Text.isBlankText gap = true ∧ t = word.toList ++ (gap ++ rest) := by
  rw [Text.afterWord?] at h
  split at h
  · rename_i d ds hdrop
    split at h
    · rename_i hd
      obtain rfl := Option.some.inj h
      refine ⟨d :: ds.takeWhile Text.isBlank, ?_, ?_⟩
      · rw [Text.isBlankText, List.all_cons, hd]
        exact Text.isBlankText_takeWhile ds
      · rw [List.cons_append, Text.trimStart, List.takeWhile_append_dropWhile]
        exact Text.dropPrefix?_eq_some hdrop
    · exact absurd h (Option.some_ne_none _).symm
  · exact absurd h (Option.some_ne_none _).symm

/-- What stands in the parentheses behind a keyword is part of the header. -/
theorem mem_of_inParens? {keyword : Text}
    (h : (Text.dropPrefix? keyword t).bind inParens? = some inner) (hc : c ∈ inner) : c ∈ t := by
  obtain ⟨behind, hbehind, hin⟩ := Option.bind_eq_some_iff.mp h
  obtain ⟨open', hopen, hlast⟩ := Option.bind_eq_some_iff.mp hin
  obtain ⟨pre, -, hsplit⟩ := afterParen?_eq_some hopen
  rw [Text.dropPrefix?_eq_some hbehind, hsplit, Text.dropLast?_eq_some hlast]
  simp [hc]

/-- What stands before the parenthesis that ends the parameters is in one line. -/
theorem newline_not_mem_of_beforeParen? {α : Type} {read : Text → Option α} {a : α} :
    ∀ {t inner : Text}, beforeParen? read t = some (inner, a) → '\n' ∉ inner
  | [], _, h => absurd h (Option.some_ne_none _).symm
  | d :: ds, inner, h => by
    rw [beforeParen?] at h
    split at h
    · rename_i inner' a' hdeeper
      split at hdeeper
      · exact absurd hdeeper (Option.some_ne_none _).symm
      · rename_i hd
        obtain ⟨rfl, -⟩ := Prod.mk.inj (Option.some.inj h)
        exact List.not_mem_cons_of_ne_of_not_mem (Ne.symm hd)
          (newline_not_mem_of_beforeParen? hdeeper)
    · split at h
      · obtain ⟨b, -, hb⟩ := Option.map_eq_some_iff.mp h
        obtain ⟨rfl, -⟩ := Prod.mk.inj hb
        exact List.not_mem_nil
      · exact absurd h (Option.some_ne_none _).symm

/-- A collection is in one line, and only blanks and a parenthesis follow it. -/
theorem beforeClose?_eq_some : ∀ {t inner : Text}, beforeClose? t = some inner →
    '\n' ∉ inner ∧ ∃ gap, Text.isBlankText gap = true ∧ t = inner ++ (gap ++ [')'])
  | [], _, h => absurd h (Option.some_ne_none _).symm
  | d :: ds, inner, h => by
    rw [beforeClose?] at h
    split at h
    · exact absurd h (Option.some_ne_none _).symm
    · rename_i hd
      split at h
      · rename_i hend
        obtain rfl := Option.some.inj h
        refine ⟨by simpa using Ne.symm hd, ds.takeWhile Text.isBlank,
          Text.isBlankText_takeWhile ds, ?_⟩
        rw [← hend, Text.trimStart, List.takeWhile_append_dropWhile]
        rfl
      · obtain ⟨more, hmore, rfl⟩ := Option.map_eq_some_iff.mp h
        obtain ⟨hline, gap, hgap, rfl⟩ := beforeClose?_eq_some hmore
        exact ⟨List.not_mem_cons_of_ne_of_not_mem (Ne.symm hd) hline, gap, hgap, rfl⟩

theorem collection?_eq_some : ∀ {t inner : Text}, collection? t = some inner →
    '\n' ∉ inner ∧ ∃ pre gap, Text.isBlankText pre = true ∧ Text.isBlankText gap = true ∧
      t = pre ++ (inner ++ (gap ++ [')']))
  | [], _, h => absurd h (Option.some_ne_none _).symm
  | d :: ds, inner, h => by
    rw [collection?] at h
    split at h
    · rename_i hd
      have hcons : ∀ {pre : Text}, Text.isBlankText pre = true →
          Text.isBlankText (d :: pre) = true := fun hpre => by
        rw [Text.isBlankText, List.all_cons, hd]
        exact hpre
      rcases (Option.orElse_eq_some _ _ _).mp h with h | ⟨-, h⟩
      · obtain ⟨hline, pre, gap, hpre, hgap, rfl⟩ := collection?_eq_some h
        exact ⟨hline, d :: pre, gap, hcons hpre, hgap, rfl⟩
      · obtain ⟨hline, gap, hgap, rfl⟩ := beforeClose?_eq_some h
        exact ⟨hline, [d], gap, @hcons [] rfl, hgap, rfl⟩
    · exact absurd h (Option.some_ne_none _).symm

/-! ## The kinds of headers -/

theorem legible_of_function? {r : Reading} (h : function? t = some r) : r.kind.Legible := by
  rw [function?] at h
  split at h
  · exact absurd h (Option.some_ne_none _).symm
  · rename_i name rest hname
    split at h
    · exact absurd h (Option.some_ne_none _).symm
    · rename_i params typeText hparams
      obtain rfl := Option.some.inj h
      obtain ⟨_, _, hsplit⟩ := Option.bind_eq_some_iff.mp hname
      obtain ⟨_, _, hparen⟩ := Option.bind_eq_some_iff.mp hparams
      obtain ⟨-, hnot⟩ := Call.splitName?_eq_some hsplit
      refine ⟨⟨?_, parameters_intercalate params⟩, fun hmem => ?_⟩
      · show '(' ∉ (String.ofList name).toList
        rw [String.toList_ofList]
        exact hnot '(' (by decide) (by decide)
      · -- each part of the text is in one line
        rw [BlockKind.toList_display, BlockKind.captured, Signature.toList_display] at hmem
        simp only [List.mem_append, List.mem_cons, String.toList_ofList] at hmem
        rcases hmem with hmem | hmem | hmem | hmem | hmem | hmem | hmem
        · exact BlockKind.newline_not_mem_label _ hmem
        · exact absurd hmem (by decide)
        · exact hnot '\n' (by decide) (by decide) hmem
        · exact absurd hmem (by decide)
        · rcases mem_of_mem_parameters hmem with hmem | hmem
          · exact absurd hmem (by decide)
          · exact newline_not_mem_of_beforeParen? hparen hmem
        · exact absurd hmem (by decide)
        · exact Signature.not_mem_returnSuffix (by decide) (by decide) _ hmem

theorem newline_not_mem_of_condition? {keyword c : String} (h : condition? keyword t = some c) :
    '\n' ∉ c.toList := by
  rw [condition?] at h
  split at h
  · exact absurd h (Option.some_ne_none _).symm
  · rename_i inner _
    split at h
    · exact absurd h (Option.some_ne_none _).symm
    · rename_i hline
      rw [← Option.some.inj h, String.toList_ofList]
      intro hmem
      exact hline (by simpa using Text.mem_of_mem_trim hmem)

/-- The condition of a branch or of a `while` loop is shown between parentheses. -/
theorem legible_of_condition? {keyword c : String} (h : condition? keyword t = some c)
    (kind : String → BlockKind) (hparted : ∀ c, (kind c).Parted)
    (hcaptured : ∀ c, (kind c).captured = " (".toList ++ (c.toList ++ [')'])) :
    (kind c).Legible := by
  refine ⟨hparted c, fun hmem => ?_⟩
  rw [BlockKind.toList_display, hcaptured] at hmem
  simp only [List.mem_append] at hmem
  rcases hmem with hmem | hmem | hmem | hmem
  · exact BlockKind.newline_not_mem_label _ hmem
  · exact absurd hmem (by decide)
  · exact newline_not_mem_of_condition? h hmem
  · exact absurd hmem (by decide)

theorem legible_of_counted? {clause : ForClause} (h : counted? t = some clause)
    (hline : '\n' ∉ t) : (BlockKind.forLoop clause).Legible := by
  rw [counted?] at h
  split at h
  · exact absurd h (Option.some_ne_none _).symm
  · rename_i inner hinner
    have hpieces := (Text.length_splitAt ';' inner).2
    split at h
    · rename_i init condition step hcut
      rw [hcut] at hpieces
      have hpart : ∀ p ∈ [init, condition, step],
          ';' ∉ (String.ofList (Text.trim p)).toList ∧
            '\n' ∉ (String.ofList (Text.trim p)).toList := fun p hp => by
        rw [String.toList_ofList]
        obtain ⟨hsep, hmem⟩ := hpieces p hp
        exact ⟨fun hc => hsep (Text.mem_of_mem_trim hc), fun hc =>
          hline (mem_of_inParens? hinner (hmem _ (Text.mem_of_mem_trim hc)))⟩
      simp only [List.forall_mem_cons] at hpart
      obtain ⟨⟨hi, hi'⟩, ⟨hc, hc'⟩, ⟨hs, hs'⟩, -⟩ := hpart
      obtain rfl := Option.some.inj h
      refine ⟨⟨hi, hc, hs⟩, ?_⟩
      rw [BlockKind.toList_display, BlockKind.captured, ForClause.toList_display_counted]
      simp only [List.mem_append, List.mem_cons, not_or]
      exact ⟨BlockKind.newline_not_mem_label _, by decide, by decide, hi', by decide,
        ⟨by decide, hc'⟩, by decide, by decide, hs', by decide, List.not_mem_nil⟩
    · exact absurd h (Option.some_ne_none _).symm

/-- What is read as a loop over a collection was not read as a counted loop. -/
theorem legible_of_each? {clause : ForClause} (h : each? t = some clause)
    (hcounted : counted? t = none) : (BlockKind.forLoop clause).Legible := by
  rw [each?] at h
  split at h
  · exact absurd h (Option.some_ne_none _).symm
  · rename_i item rest hitem
    split at h
    · exact absurd h (Option.some_ne_none _).symm
    · rename_i collection hcollection
      obtain rfl := Option.some.inj h
      obtain ⟨inner, hinner, hsplit⟩ := Option.bind_eq_some_iff.mp hitem
      obtain ⟨behind, hbehind, hopen⟩ := Option.bind_eq_some_iff.mp hinner
      obtain ⟨hstart, hnot⟩ := Call.splitName?_eq_some hsplit
      obtain ⟨afterIn, hin, hread⟩ := Option.bind_eq_some_iff.mp hcollection
      obtain ⟨word, hword, hdrop⟩ := Option.bind_eq_some_iff.mp hin
      obtain ⟨gap, hgap, hrest⟩ := afterWord?_eq_some hword
      obtain ⟨hline, pre, blanks, hpre, hblanks, hafter⟩ := collection?_eq_some hread
      have hsemicolons : ∀ {b : Text}, Text.isBlankText b = true → b.count ';' = 0 := fun hb =>
        List.count_eq_zero.mpr fun hmem =>
          absurd (List.all_eq_true.mp hb ';' hmem) (by decide)
      -- the parentheses end the header, and a counted loop would have been read from the same text
      obtain ⟨body, hbody, hcount⟩ : ∃ body, (Text.dropPrefix? "for".toList t).bind inParens? =
          some body ∧ body.count ';' = item.count ';' + collection.count ';' := by
        refine ⟨inner.takeWhile Text.isBlank ++ (item ++ (gap ++ ("in".toList ++ (pre ++
          (collection ++ blanks))))), ?_, ?_⟩
        · have hinner' : inner = (inner.takeWhile Text.isBlank ++ (item ++ (gap ++ ("in".toList ++
              (pre ++ (collection ++ blanks)))))) ++ [')'] := by
            conv => lhs; rw [← List.takeWhile_append_dropWhile (p := Text.isBlank) (l := inner)]
            show _ ++ Text.trimStart inner = _
            rw [hstart, hrest, Text.dropPrefix?_eq_some hdrop, hafter]
            simp
          rw [hbehind, Option.bind_some, inParens?, hopen, Option.bind_some]
          conv => lhs; rw [hinner']
          exact Text.dropLast?_concat ')' _
        · simp only [List.count_append, hsemicolons hgap, hsemicolons hpre, hsemicolons hblanks,
            hsemicolons (Text.isBlankText_takeWhile inner)]
          have : "in".toList.count ';' = 0 := by decide
          omega
      refine ⟨⟨?_, ?_⟩, ?_⟩
      · rw [String.toList_ofList]
        exact hnot ' ' (by decide) (by decide)
      · intro htwo
        have hlength := (Text.length_splitAt ';' body).1
        have hthree : body.count ';' = 2 := by
          rw [ForClause.toList_display_each] at htwo
          simp [List.count_append] at htwo
          omega
        rw [hthree] at hlength
        obtain ⟨i, c, s, hcut⟩ := List.length_eq_three.mp hlength
        rw [counted?, hbody] at hcounted
        simp only [hcut] at hcounted
        exact Option.some_ne_none _ hcounted
      · rw [BlockKind.toList_display, BlockKind.captured, ForClause.toList_display_each]
        simp only [List.mem_append, List.mem_cons, not_or, String.toList_ofList]
        exact ⟨BlockKind.newline_not_mem_label _, by decide, ⟨by decide,
          hnot '\n' (by decide) (by decide)⟩, by decide, by decide, hline, by decide,
          List.not_mem_nil⟩

/-- **The kinds of headers are legible.** -/
theorem legible_of_read? {header : Text} {r : Reading} (h : read? header = some r)
    (hline : '\n' ∉ header) : r.kind.Legible := by
  have htrim : '\n' ∉ Text.trim header := fun hmem => hline (Text.mem_of_mem_trim hmem)
  rw [read?] at h
  split at h
  · obtain rfl := Option.some.inj h
    exact ⟨trivial, by decide⟩
  · rcases (Option.orElse_eq_some _ _ _).mp h with h | ⟨-, h⟩
    · exact legible_of_function? h
    · obtain ⟨kind, hkind, rfl⟩ := Option.map_eq_some_iff.mp h
      show kind.Legible
      split at hkind
      · obtain rfl := Option.some.inj hkind
        exact ⟨trivial, by decide⟩
      · -- the readers are tried in their order
        rcases (Option.orElse_eq_some _ _ _).mp hkind with hif | ⟨-, hkind⟩
        · obtain ⟨c, hc, rfl⟩ := Option.map_eq_some_iff.mp hif
          exact legible_of_condition? hc .ifBranch (fun _ => trivial) fun _ => rfl
        rcases (Option.orElse_eq_some _ _ _).mp hkind with helif | ⟨-, hkind⟩
        · obtain ⟨c, hc, rfl⟩ := Option.map_eq_some_iff.mp helif
          exact legible_of_condition? hc .elifBranch (fun _ => trivial) fun _ => rfl
        rcases (Option.orElse_eq_some _ _ _).mp hkind with hwhile | ⟨-, hkind⟩
        · obtain ⟨c, hc, rfl⟩ := Option.map_eq_some_iff.mp hwhile
          exact legible_of_condition? hc .whileLoop (fun _ => trivial) fun _ => rfl
        rcases (Option.orElse_eq_some _ _ _).mp hkind with hcounted | ⟨hnone, heach⟩
        · obtain ⟨clause, hclause, rfl⟩ := Option.map_eq_some_iff.mp hcounted
          exact legible_of_counted? hclause htrim
        · obtain ⟨clause, hclause, rfl⟩ := Option.map_eq_some_iff.mp heach
          exact legible_of_each? hclause (Option.map_eq_none_iff.mp hnone)

end Parts

end Header
end BraceTree
