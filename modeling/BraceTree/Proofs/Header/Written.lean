import BraceTree.Proofs.Header.Readers
import BraceTree.Proofs.Header.Titled
import BraceTree.Proofs.Text.Appended
import BraceTree.Proofs.Text.Blanks

/-!
# Kinds are written as headers

What a header captured, written behind its keyword again, is a header of the same kind. The readers
are tried in an order, so this has two sides. A written header is not taken by a reader that comes
before its own: the keywords are told apart by their first letters, and a loop over a collection has
never two semicolons. And its own reader captures the same again, though several parts could be
captured: what stands in the parentheses of a function has no parenthesis behind it that could be
taken for the last one, and a collection is not cut short, since it was as short as it could be when
it was read (`Header.collection?_cons`).
-/

namespace BraceTree

namespace BlockKind

/-- The word that a header of a kind starts with. -/
def keyword : BlockKind → String
  | .ifBranch _ => "if"
  | .elifBranch _ => "elif"
  | .elseBranch => "else"
  | .forLoop _ => "for"
  | .whileLoop _ => "while"
  | .function _ => "function"
  | .main | .plain => ""

/-- **The header that a kind is written with**: its keyword, and what its header captured. The root
and plain blocks are written without any. -/
def heading (k : BlockKind) : Text := k.keyword.toList ++ k.captured

end BlockKind

namespace Text

theorem splitAt_of_not_mem {sep : Char} {t : Text} (h : sep ∉ t) : splitAt sep t = [t] := by
  induction t with
  | nil => rfl
  | cons d ds ih =>
    rw [splitAt, if_neg (List.ne_of_not_mem_cons h).symm, ih (List.not_mem_of_not_mem_cons h)]
    rfl

end Text

namespace Header

variable {t rest inner : Text} {c : String} {clause : ForClause}

/-! ## Conditions -/

/-- A condition is kept without the blanks around it. -/
theorem trim_of_condition? {keyword : String} (h : condition? keyword t = some c) :
    Text.trim c.toList = c.toList := by
  rw [condition?] at h
  split at h
  · cases h
  · split at h
    · cases h
    · rw [← Option.some.inj h, String.toList_ofList, Text.trim_trim]

/-- **A condition is read from parentheses behind its keyword.** -/
theorem condition?_heading {keyword : String} (h : condition? keyword t = some c) :
    condition? keyword (keyword.toList ++ (" (".toList ++ (c.toList ++ [')']))) = some c := by
  rw [condition?, dropPrefix?_bind_inParens?]
  dsimp only
  rw [if_neg (by simpa using newline_not_mem_of_condition? h), trim_of_condition? h,
    String.ofList_toList]

/-! ## Loops -/

/-- The parts of a counted loop have no semicolon in them and no blanks around them. -/
theorem parts_of_counted? {init condition step : String}
    (h : counted? t = some (.counted init condition step)) :
    ∀ s ∈ [init, condition, step], ';' ∉ s.toList ∧ Text.trim s.toList = s.toList := by
  rw [counted?] at h
  split at h
  · cases h
  · rename_i inner _
    have hpieces := (Text.length_splitAt ';' inner).2
    split at h
    · rename_i i c s hcut
      rw [hcut] at hpieces
      have hpart : ∀ p ∈ [i, c, s], ';' ∉ (String.ofList (Text.trim p)).toList ∧
          Text.trim (String.ofList (Text.trim p)).toList = (String.ofList (Text.trim p)).toList :=
        fun p hp => by
          rw [String.toList_ofList, Text.trim_trim]
          exact ⟨fun hmem => (hpieces p hp).1 (Text.mem_of_mem_trim hmem), rfl⟩
      simp only [Option.some.injEq, ForClause.counted.injEq] at h
      obtain ⟨rfl, rfl, rfl⟩ := h
      simpa only [List.forall_mem_cons, List.not_mem_nil, false_implies, implies_true] using hpart
    · cases h

/-- **A counted loop is read from its clause.** -/
theorem counted?_heading {init condition step : String}
    (h : counted? t = some (.counted init condition step)) :
    counted? ("for".toList ++ ' ' :: (ForClause.counted init condition step).display.toList) =
      some (.counted init condition step) := by
  have hparts := parts_of_counted? h
  simp only [List.forall_mem_cons] at hparts
  obtain ⟨⟨hi, hi'⟩, ⟨hc, hc'⟩, ⟨hs, hs'⟩, -⟩ := hparts
  have hblank : ∀ x : Text, Text.trim x = x → Text.trim (' ' :: x) = x := fun x hx =>
    (Text.trim_trimStart (' ' :: x)).symm.trans ((Text.trim_trimStart x).trans hx)
  have hcut : Text.splitAt ';' (init.toList ++ ';' :: ((' ' :: condition.toList) ++
      ';' :: (' ' :: step.toList))) =
        [init.toList, ' ' :: condition.toList, ' ' :: step.toList] := by
    rw [Text.splitAt_append, Text.splitAt_append, Text.splitAt_of_not_mem hi,
      Text.splitAt_of_not_mem (List.not_mem_cons_of_ne_of_not_mem (by decide) hc),
      Text.splitAt_of_not_mem (List.not_mem_cons_of_ne_of_not_mem (by decide) hs)]
    rfl
  have hdisplay : ' ' :: (ForClause.counted init condition step).display.toList =
      " (".toList ++ ((init.toList ++ ';' :: ((' ' :: condition.toList) ++
        ';' :: (' ' :: step.toList))) ++ [')']) := by
    rw [ForClause.toList_display_counted]
    simp
  rw [hdisplay, counted?, dropPrefix?_bind_inParens?]
  simp only [hcut, hi', hblank _ hc', hblank _ hs', String.ofList_toList]

/-- A collection is read again when nothing is behind it. -/
theorem beforeClose?_concat : ∀ {t inner : Text}, beforeClose? t = some inner →
    beforeClose? (inner ++ [')']) = some inner
  | [], _, h => by cases h
  | d :: ds, inner, h => by
    rw [beforeClose?] at h
    split at h
    · cases h
    · rename_i hd
      split at h
      · obtain rfl := Option.some.inj h
        rw [List.singleton_append, beforeClose?, if_neg hd, if_pos (by decide)]
      · rename_i hmore
        obtain ⟨more, hread, rfl⟩ := Option.map_eq_some_iff.mp h
        obtain ⟨-, gap, hgap, hds⟩ := beforeClose?_eq_some hread
        -- a blank rest would have been left out before
        have hnot : Text.trimStart (more ++ [')']) ≠ [')'] := fun hblank => hmore (by
          rw [hds, Text.trimStart_append_of_isBlankText ((Text.trimStart_concat (by decide)).mp
            hblank), Text.trimStart_append_of_isBlankText hgap]
          rfl)
        rw [List.cons_append, beforeClose?, if_neg hd, if_neg hnot, beforeClose?_concat hread]
        rfl

/-- What is read without passing over a blank starts with a character that is no blank, or it is a
single one. -/
theorem collection?_concat_of_eq_none (hnone : collection? t = none)
    (h : beforeClose? t = some inner) : collection? (inner ++ [')']) = none := by
  cases t with
  | nil => cases h
  | cons d ds =>
    rw [beforeClose?] at h
    split at h
    · cases h
    · split at h
      · obtain rfl := Option.some.inj h
        rw [List.singleton_append, collection?]
        split <;> rfl
      · obtain ⟨more, hread, rfl⟩ := Option.map_eq_some_iff.mp h
        -- behind a blank the same could have been read
        have hd : ¬ Text.isBlank d = true := fun hd => by
          rw [collection?, if_pos hd, hread] at hnone
          cases hskip : collection? ds <;> rw [hskip] at hnone <;> cases hnone
        rw [List.cons_append, collection?, if_neg hd]

/-- **A collection is not cut short when it is read again.** -/
theorem collection?_cons : ∀ {t inner : Text}, collection? t = some inner →
    collection? (' ' :: (inner ++ [')'])) = some inner
  | [], _, h => by cases h
  | d :: ds, inner, h => by
    rw [collection?] at h
    split at h
    · rcases (Option.orElse_eq_some _ _ _).mp h with h | ⟨hnone, h⟩
      · exact collection?_cons h
      · rw [collection?, if_pos (by decide), collection?_concat_of_eq_none hnone h,
          beforeClose?_concat h]
        rfl
    · cases h

/-- **A loop over a collection is read from its clause.** -/
theorem each?_heading {item collection : String} (h : each? t = some (.each item collection)) :
    each? ("for".toList ++ ' ' :: (ForClause.each item collection).display.toList) =
      some (.each item collection) := by
  rw [each?] at h
  split at h
  · cases h
  · rename_i name rest hname
    split at h
    · cases h
    · rename_i body hbody
      obtain ⟨inner, -, hsplit⟩ := Option.bind_eq_some_iff.mp hname
      obtain ⟨behind, -, hread⟩ := Option.bind_eq_some_iff.mp hbody
      obtain ⟨-, hisName, -⟩ := Call.splitName?_eq_some_iff.mp hsplit
      simp only [Option.some.injEq, ForClause.each.injEq] at h
      obtain ⟨rfl, rfl⟩ := h
      have hdisplay :
          ' ' :: (ForClause.each (String.ofList name) (String.ofList body)).display.toList =
            " (".toList ++ (name ++ ' ' :: ("in".toList ++ (' ' :: (body ++ [')'])))) := by
        rw [ForClause.toList_display_each]
        simp
      have hparen : ∀ x : Text, afterParen? (" (".toList ++ x) = some x := fun _ => rfl
      have hstart : Text.trimStart (name ++ ' ' :: ("in".toList ++ (' ' :: (body ++ [')'])))) =
          name ++ ' ' :: ("in".toList ++ (' ' :: (body ++ [')']))) :=
        hisName.trimStart_append _
      have hword : ∀ x : Text, Text.afterWord? "" (' ' :: ("in".toList ++ x)) =
          some ("in".toList ++ x) := fun _ => rfl
      rw [hdisplay, each?, Text.dropPrefix?_append, Option.bind_some, hparen, Option.bind_some,
        hstart, Call.splitName?_append hisName (by decide)]
      simp only [hword, Option.bind_some, Text.dropPrefix?_append, collection?_cons hread]

/-- The clause of a loop over a collection is no counted loop. -/
theorem counted?_heading_each {item collection : String} (hnot : counted? t = none)
    (h : each? t = some (.each item collection)) :
    counted? ("for".toList ++ ' ' :: (ForClause.each item collection).display.toList) = none := by
  have hdisplay : (ForClause.each item collection).display.toList =
      '(' :: ((item.toList ++ " in ".toList ++ collection.toList) ++ [')']) := by
    rw [ForClause.toList_display_each]
    simp
  have htwo := (legible_of_each? h hnot).parted.2
  rw [hdisplay] at htwo ⊢
  refine Option.not_isSome_iff_eq_none.mp fun hsome => htwo ?_
  have hcount := (isSome_counted?_iff (dropPrefix?_bind_inParens? "for".toList _)).mp hsome
  rw [List.count_cons_of_ne (by decide), List.count_append, hcount]
  rfl

/-! ## Functions -/

/-- **The last closing parenthesis is the one that is taken**, if what stands behind it can be
read. -/
theorem beforeParen?_append {α : Type} {tail : Text → Option α} {suffix : Text} {a : α}
    (hsuffix : ')' ∉ suffix ∧ '\n' ∉ suffix) (htail : tail suffix = some a) (hline : '\n' ∉ t) :
    beforeParen? tail (t ++ ')' :: suffix) = some (t, a) :=
  have hline : '\n' ∉ t ++ ')' :: suffix :=
    List.not_mem_append hline (List.not_mem_cons_of_ne_of_not_mem (by decide) hsuffix.2)
  (beforeParen?_eq_some_iff hline).mpr ⟨suffix, rfl, htail, fun x y hsplit =>
    absurd (hsplit ▸ List.mem_append_right x List.mem_cons_self) hsuffix.1⟩

/-- **A return type is read behind the parameters.** -/
theorem returnText?_returnSuffix (s : Signature) :
    returnText? s.returnSuffix = some (s.returnType.map fun type => type.display.toList) := by
  rw [Signature.returnSuffix]
  cases s.returnType with
  | none => rfl
  | some type =>
    have htight := type.tight_display
    have hstart : ∀ pre : Text, Text.isBlankText pre = true →
        Text.trimStart (pre ++ type.display.toList) = type.display.toList := fun pre hpre => by
      have h := htight.trimStart_append []
      rw [List.append_nil] at h
      rw [Text.trimStart_append_of_isBlankText hpre, h]
    have hline : '\n' ∉ type.display.toList := fun hmem =>
      absurd (List.all_eq_true.mp type.all_display _ hmem) (by decide)
    show returnText? (' ' :: ':' :: ([' '] ++ type.display.toList)) = _
    rw [returnText?, if_neg (by simp)]
    show (if ':' = ':' ∧ (!(Text.trimStart ([' '] ++ type.display.toList)).isEmpty) = true ∧
      (!(Text.trimStart ([' '] ++ type.display.toList)).contains '\n') = true then _ else _) = _
    rw [hstart [' '] rfl, if_pos]
    · rfl
    · exact ⟨rfl, by simpa using htight.ne_nil, by simpa using hline⟩

/-- **A function is read from its signature**, if its return type is known. -/
theorem function?_heading {r : Reading} {s : Signature} (h : function? t = some r)
    (hkind : r.kind = .function s) :
    function? ("function".toList ++ ' ' :: s.display.toList) = some ⟨.function s, none⟩ := by
  rw [function?] at h
  split at h
  · cases h
  · rename_i name behind hname
    split at h
    · cases h
    · rename_i params typeText hparams
      obtain ⟨_, -, hsplit⟩ := Option.bind_eq_some_iff.mp hname
      obtain ⟨_, -, hread⟩ := Option.bind_eq_some_iff.mp hparams
      obtain ⟨-, hisName, -⟩ := Call.splitName?_eq_some_iff.mp hsplit
      obtain rfl := Option.some.inj h
      obtain rfl := BlockKind.function.inj hkind
      generalize typeText.bind TypeName.ofText? = returnType
      have hword : ∀ x : Text, Text.afterWord? "function" ("function".toList ++ ' ' :: x) =
          some (Text.trimStart x) := fun x => by
        rw [Text.afterWord?, Text.dropPrefix?_append]
        rfl
      have hparen : ∀ x : Text, afterParen? ('(' :: x) = some x := fun _ => rfl
      have hline : '\n' ∉ (", ".intercalate ((parameters params).map Parameter.display)).toList :=
        fun hmem => (mem_of_mem_parameters hmem).elim (absurd · (by decide))
          (newline_not_mem_of_beforeParen? hread)
      rw [function?, hword, Signature.toList_display, String.toList_ofList,
        hisName.trimStart_append, Option.bind_some,
        Call.splitName?_append hisName (by decide)]
      dsimp only
      rw [hparen, Option.bind_some, beforeParen?_append
        ⟨Signature.not_mem_returnSuffix (by decide) (by decide) _,
          Signature.not_mem_returnSuffix (by decide) (by decide) _⟩
        (returnText?_returnSuffix _) hline]
      dsimp only
      rw [parameters_intercalate]
      cases returnType with
      | none => rfl
      | some type => rw [Option.map_some, Option.bind_some, TypeName.ofText?_display]; rfl

/-! ## Reading what was written -/

/-- No blanks are around a written header. -/
theorem trim_heading (k : BlockKind) : Text.trim k.heading = k.heading := by
  have htight : Text.Tight k.keyword.toList → Text.Tight k.heading := fun hkeyword => by
    rcases k.captured_last with hnil | ⟨a, b, hab, hb⟩
    · rw [BlockKind.heading, hnil, List.append_nil]
      exact hkeyword
    · rw [BlockKind.heading, hab]
      exact hkeyword.around a hb
  cases k <;> first
    | rfl
    | exact (htight (.of_all (by simp [BlockKind.keyword])
        (by simp only [BlockKind.keyword]; decide))).trim_eq

/-- **Every kind that a header has is read from the header that it is written with**, and what is
captured is the same. -/
theorem read?_heading {header : Text} {r : Reading} (hread : read? header = some r) :
    read? r.kind.heading = some ⟨r.kind, none⟩ := by
  rw [read?_eq_some_iff, trim_heading]
  cases read?_eq_some_iff.mp hread with
  | plain => exact .plain rfl
  | function h =>
    obtain ⟨s, hs⟩ := exists_signature_of_function? h
    rw [hs]
    exact .function (function?_heading h hs)
  | elseBranch => exact .elseBranch rfl
  | ifBranch h => exact .ifBranch (condition?_heading h)
  | elifBranch h => exact .elifBranch (condition?_heading h)
  | whileLoop h => exact .whileLoop (condition?_heading h)
  | counted h =>
    obtain ⟨init, condition, step, rfl⟩ := exists_clause_of_counted? h
    exact .counted (counted?_heading h)
  | each hnot h =>
    obtain ⟨item, collection, rfl⟩ := exists_clause_of_each? h
    exact .each (counted?_heading_each hnot h) (each?_heading h)

/-- A function with an angle bracket that nothing closes, a colon too many and an empty parameter.
-/
theorem read?_heading_of_function : ∃ r,
    read? "function  f( a:Array<B ,C> ,, :b: , c <, d )  :  Map<String,Integer>".toList = some r ∧
      r.kind = .function ⟨"f", [⟨"a", some "Array<B ,C>"⟩, ⟨"", some "b:"⟩, ⟨"c <, d", none⟩],
        some (.map .string .integer)⟩ ∧
      r.kind.heading = "function f(a : Array<B ,C>,  : b:, c <, d) : Map<String, Integer>".toList ∧
      read? r.kind.heading = some ⟨r.kind, none⟩ := by
  refine ⟨_, rfl, by decide +kernel, by decide +kernel, ?_⟩
  exact @read?_heading "function  f( a:Array<B ,C> ,, :b: , c <, d )  :  Map<String,Integer>".toList
    _ rfl

end Header
end BraceTree
