import BraceTree.Proofs.Header.Readers
import BraceTree.Proofs.Statement.Pieces
import BraceTree.Proofs.Statement.Reached
import BraceTree.Proofs.Text.Blanks
import BraceTree.Proofs.Value.Annotation
import BraceTree.Proofs.Value.ReadBack

/-!
# The text of a variable is a source that declares it

A variable is displayed as the declaration that would make it, and parsing that text makes it
(`Program.parse_display`). Two things have to be seen. The text is one statement: whatever its
strings contain, outside of them it has no brace, no semicolon and no newline, so a source of it is
all root and all one piece (`Program.parse_of_contained`). And the statement is that declaration
(`Statement.read?_display`): the name ends at the blank before the colon, the type at the first
equals sign, since neither has one, and everything behind is the value.
-/

namespace BraceTree

/-! ## Sources of one statement -/

section OneStatement

variable {gs : List Glyph}

/-- Without structural braces there are no blocks. -/
theorem Brace.ofGlyphs_eq_nil (h : ∀ g ∈ gs, g.is '{' = false ∧ g.is '}' = false) (n : Nat) :
    ofGlyphs n gs = [] := by
  refine List.eq_nil_iff_forall_not_mem.mpr fun b hb => ?_
  obtain ⟨pre, g, post, rfl, -, hg⟩ := mem_ofGlyphs_iff.mp hb
  obtain ⟨hopen, hclose⟩ := h g (by simp)
  rcases hg with ⟨hg, -⟩ | ⟨hg, -⟩
  · exact absurd hg (ne_true_of_eq_false hopen)
  · exact absurd hg (ne_true_of_eq_false hclose)

/-- A text whose structure is all its own has no structural braces. -/
theorem Text.Contained.braceless {t : Text} (h : t.Contained) :
    ∀ g ∈ t.glyphs, g.is '{' = false ∧ g.is '}' = false := fun g hg => by
  have hnot : ∀ c ∈ ['{', '}', ';', '\n'], g.is c = false := fun c hc => by
    refine Bool.eq_false_iff.mpr fun his => ?_
    obtain ⟨hquoted, rfl⟩ := Glyph.is_iff.mp his
    rcases h.calm g hg with hcalm | hcalm
    · exact Bool.false_ne_true (hquoted.symm.trans hcalm)
    · exact hcalm hc
  exact ⟨hnot _ (by simp), hnot _ (by simp)⟩

/-- Without structural semicolons and newlines there is one piece. -/
theorem Piece.cut_of_calm (h : ∀ g ∈ gs, g.quoted = true ∨ g.char ∉ ['{', '}', ';', '\n']) :
    ∀ start depth, cut start depth gs = [⟨start, Glyph.chars gs⟩] := by
  induction gs with
  | nil => exact fun _ _ => rfl
  | cons g gs ih =>
    intro start depth
    obtain ⟨hg, hgs⟩ := List.forall_mem_cons.mp h
    have hends : ¬ endsAt depth g = true := by
      simp only [endsAt, Bool.or_eq_true, Bool.and_eq_true, Glyph.is_iff]
      rintro (⟨hquoted, hchar⟩ | ⟨⟨hquoted, hchar⟩, -⟩) <;>
        exact hg.elim (by simp [hquoted]) (fun hnot => hnot (by simp [hchar]))
    rw [cut_cons, if_neg hends, ih hgs]
    rfl

/-- **A line with one statement in it** has that statement, where the blanks before it end. -/
theorem Piece.visits_of_contained (block : BlockId) (start : Nat) {pre core post : Text}
    (hpre : Text.isBlankText pre = true) (hcore : core.Tight) (hpost : Text.isBlankText post = true)
    (hline : Text.Contained (pre ++ (core ++ post))) :
    (cut start 0 (Text.glyphs (pre ++ (core ++ post)))).filterMap (visit? block) =
      [⟨block, ⟨start + pre.bytes, start + pre.bytes + core.bytes⟩, core⟩] := by
  have htake : (pre ++ (core ++ post)).takeWhile Text.isBlank = pre := by
    obtain ⟨⟨c, hc, hblank⟩, -⟩ := hcore
    obtain ⟨cs, rfl⟩ := List.head?_eq_some_iff.mp hc
    rw [List.takeWhile_append_of_pos (List.all_eq_true.mp hpre), List.cons_append,
      List.takeWhile_cons_of_neg (ne_true_of_eq_false hblank), List.append_nil]
  have htrim := hcore.trim_between hpre hpost
  have hblank : Text.isBlankText (pre ++ (core ++ post)) = false := Bool.eq_false_iff.mpr fun h =>
    hcore.ne_nil (htrim.symm.trans (Text.trim_eq_nil_iff.mpr h))
  rw [cut_of_calm hline.calm, Text.chars_glyphs,
    List.filterMap_cons_some (visit?_of_not_blank block hblank), List.filterMap_nil, htake, htrim]

end OneStatement

namespace Program

variable {source : Text}

/-- The tree of a source without braces before its statements: the root, which touches all lines. -/
def bare (source : Text) : BlockTree :=
  ⟨[{ Block.root source with
      lines := Line.indicesIn (Line.ofSource source) ⟨0, source.bytes⟩ }]⟩

/-- **A source without braces** is parsed to the root, with its statements carried out. -/
theorem parse_of_braceless (h : Brace.ofSource source = []) (sourceId : Nat) :
    place source = .ok (Forest.ofExtraction source ⟨[], []⟩) ∧
    classified source (Forest.ofExtraction source ⟨[], []⟩) = bare source ∧
    Visit.all (bare source) source = Visit.ofSpan source BlockTree.root ⟨0, source.bytes⟩ ∧
    ∃ p, ofText source sourceId = .ok p ∧
      p.tree = (Visit.run (Line.ofSource source) (bare source)
        (Visit.ofSpan source BlockTree.root ⟨0, source.bytes⟩)).1 ∧
      p.diagnostics = ((Visit.run (Line.ofSource source) (bare source)
        (Visit.ofSpan source BlockTree.root ⟨0, source.bytes⟩)).2.map
          (Diagnostic.ofFinding (Line.ofSource source) sourceId)).mergeSort
            Diagnostic.precedes := by
  have hplace : place source = .ok (Forest.ofExtraction source ⟨[], []⟩) := by
    rw [place, Extraction.ofSource, h]
    rfl
  have hfinish : (Forest.ofExtraction source ⟨[], []⟩).finish (Line.ofSource source) =
      bare source := by
    show BlockTree.mk [{ Block.root source with
      children := [].mergeSort _
      lines := Line.indicesIn (Line.ofSource source) ⟨0, source.bytes⟩ }] = _
    rw [List.mergeSort_nil]
    rfl
  have hclassified : classified source (Forest.ofExtraction source ⟨[], []⟩) = bare source := by
    rw [classified, hfinish]
    rfl
  have hall : Visit.all (bare source) source =
      Visit.ofSpan source BlockTree.root ⟨0, source.bytes⟩ := rfl
  refine ⟨hplace, hclassified, hall, _, ofText_of_place sourceId hplace, ?_, ?_⟩
  · rw [hfinish]
    rfl
  · have hfindings : ∀ found, findings (bare source) source found = found := fun _ => rfl
    rw [hfinish, ← hall]
    show ((findings (bare source) source (Visit.run (Line.ofSource source) (bare source)
      (Visit.all (bare source) source)).2).map _).mergeSort _ = _
    rw [hfindings]

/-- **A source that is one statement** is parsed to the root with that statement carried out. -/
theorem parse_of_contained (hcontained : source.Contained) (htight : source.Tight) (sourceId : Nat)
    {t : BlockTree} (ht : Visit.apply (Line.ofSource source) (bare source)
      ⟨BlockTree.root, ⟨0, source.bytes⟩, source⟩ = .ok t) :
    ∃ p, ofText source sourceId = .ok p ∧ p.tree = t ∧ p.diagnostics = [] := by
  have hslice : Text.slice source ⟨0, source.bytes⟩ = source := by
    have := Text.slice_append [] source []
    simpa using this
  have hvisits : Visit.ofSpan source BlockTree.root ⟨0, source.bytes⟩ =
      [⟨BlockTree.root, ⟨0, source.bytes⟩, source⟩] := by
    have hblank : Text.isBlankText [] = true := rfl
    have h := Piece.visits_of_contained BlockTree.root 0 hblank htight hblank
      (by simpa using hcontained)
    rw [Visit.ofSpan, hslice]
    simpa using h
  have hrun : Visit.run (Line.ofSource source) (bare source)
      (Visit.ofSpan source BlockTree.root ⟨0, source.bytes⟩) = (t, []) := by
    rw [hvisits, Visit.run, ht]
    rfl
  obtain ⟨-, -, -, p, hp, htree, hdiagnostics⟩ :=
    parse_of_braceless (Brace.ofGlyphs_eq_nil hcontained.braceless 0) sourceId
  refine ⟨p, hp, by rw [htree, hrun], ?_⟩
  rw [hdiagnostics, hrun, List.map_nil, List.mergeSort_nil]

end Program

theorem Scope.toList_declared (k : Kind) (v : Variable) :
    (empty.modifyCollection k (insertByName v)).toList = [v] := by
  cases k <;> rfl

/-! ## The text of a variable -/

namespace Text

/-- Whether a text may be declared as a name: a small ASCII letter and word characters. -/
def isVariableName : Text → Bool
  | [] => false
  | c :: cs => c.isLower && cs.all isWord

theorem isName_of_isVariableName {name : Text} (h : isVariableName name = true) : IsName name := by
  cases name with
  | nil => cases h
  | cons c cs =>
    obtain ⟨hc, hcs⟩ := (Bool.and_eq_true _ _).mp h
    refine ⟨c, cs, rfl, ?_, hcs⟩
    rw [isNameHead, isLetter, hc]
    rfl

/-- A text that starts with a name and does not end with a blank is tight. -/
theorem IsName.tight_append {name : Text} (h : IsName name) (m : Text) {last : Text}
    (hlast : last.Tight) : Tight (name ++ (m ++ last)) := by
  obtain ⟨c, cs, rfl, hc, -⟩ := h
  have hblank : isBlank c = false := Bool.eq_false_iff.mpr fun hblank =>
    Bool.false_ne_true ((not_word_of_isBlank hblank).1.symm.trans hc)
  have hhead : Tight [c] := ⟨⟨c, rfl, hblank⟩, c, rfl, hblank⟩
  have := hhead.around (cs ++ m) hlast
  simpa using this

theorem contained_of_isVariableName {name : Text} (h : isVariableName name = true) :
    Contained name := .of_inert (by
  cases name with
  | nil => rfl
  | cons c cs =>
    obtain ⟨hc, hcs⟩ := (Bool.and_eq_true _ _).mp h
    rw [List.all_cons, isInert_of_class (by decide) hc, Bool.true_and]
    exact List.all_eq_true.mpr fun d hd =>
      isInert_of_class (by decide) (List.all_eq_true.mp hcs d hd))

theorem afterWord?_append (word : String) {gap t : Text} (hgap : isBlankText gap = true)
    (hne : gap ≠ []) (h : t.Tight) : afterWord? word (word.toList ++ (gap ++ t)) = some t := by
  obtain ⟨c, cs, rfl⟩ := List.exists_cons_of_ne_nil hne
  obtain ⟨hc, hcs⟩ := (Bool.and_eq_true _ _).mp hgap
  have htrim := h.trimStart_append []
  rw [List.append_nil] at htrim
  rw [afterWord?, dropPrefix?_append]
  show (if isBlank c = true then some (trimStart (cs ++ t)) else none) = some t
  rw [if_pos hc, trimStart_append_of_isBlankText hcs, htrim]

end Text

namespace Variable

theorem toList_display (v : Variable) : v.display.toList =
    (if v.isMutable then "var" else "val").toList ++ ' ' :: (v.name.toList ++ (" : ".toList ++
      (v.type.display.toList ++ (" = ".toList ++ v.binding.display.toList)))) := by
  rw [display]
  cases v.isMutable <;> simp

variable {v : Variable}

/-- What follows `var` or `val` starts with the name and ends with the value. -/
theorem tight_declared (hname : Text.isVariableName v.name.toList = true) :
    Text.Tight (v.name.toList ++ (" : ".toList ++
      (v.type.display.toList ++ (" = ".toList ++ v.binding.display.toList)))) := by
  have := (Text.isName_of_isVariableName hname).tight_append
    (" : ".toList ++ (v.type.display.toList ++ " = ".toList)) v.binding.tight_display
  simpa using this

theorem tight_display (v : Variable) : Text.Tight v.display.toList := by
  have hword : Text.Tight (if v.isMutable then "var" else "val").toList := by
    cases v.isMutable <;> exact .of_all (by decide) (by decide)
  have := hword.around (' ' :: (v.name.toList ++ (" : ".toList ++
    (v.type.display.toList ++ " = ".toList)))) v.binding.tight_display
  rw [toList_display]
  simpa using this

theorem contained_display (hname : Text.isVariableName v.name.toList = true)
    (hb : v.binding.Spelled v.type) : Text.Contained v.display.toList := by
  have hword : Text.Contained (if v.isMutable then "var" else "val").toList := by
    cases v.isMutable <;> exact .of_inert (by decide)
  have hnameText := Text.contained_of_isVariableName hname
  have htype : Text.Contained v.type.display.toList := .of_inert
    (List.all_eq_true.mpr fun c hc =>
      Text.isInert_of_class (by decide) (List.all_eq_true.mp v.type.all_display c hc))
  have hblank : Text.Contained [' '] := .of_inert_char (by decide)
  rw [toList_display]
  exact hword.append (hblank.append (hnameText.append ((Text.Contained.of_inert (by decide)).append
    (htype.append ((Text.Contained.of_inert (by decide)).append
      hb.sealed_display.toContained)))))

end Variable

namespace Statement

theorem isTypeText_angles {c : Char} {cs inner : Text} (hc : Text.isLetter c = true)
    (hcs : cs.dropWhile Text.isWord = '<' :: (inner ++ ['>'])) : isTypeText (c :: cs) = true := by
  have hlast : ('<' :: (inner ++ ['>'])).getLast? = some '>' := by
    rw [← List.cons_append, List.getLast?_concat]
  have hstart : Text.trimStart ('<' :: (inner ++ ['>'])) = '<' :: (inner ++ ['>']) := rfl
  rw [isTypeText, hcs, hc, hlast, hstart]
  rfl

theorem isTypeText_display (type : TypeName) : isTypeText type.display.toList = true := by
  cases type with
  | string | integer | double | boolean => decide
  | array e =>
    rw [TypeName.toList_display_array]
    exact isTypeText_angles (c := 'A') (by decide) rfl
  | map k v =>
    rw [TypeName.toList_display_map]
    exact isTypeText_angles (c := 'M') (by decide) rfl

variable {name typeText init : Text}

theorem rightSide?_append {gap : Text} (hgap : Text.isBlankText gap = true) (hinit : init.Tight)
    (hline : '\n' ∉ init) : rightSide? (gap ++ init) = some init := by
  have htrim := hinit.trimStart_append []
  rw [List.append_nil] at htrim
  have hcontains : init.contains '\n' = false := by
    rw [List.contains_eq_mem, decide_eq_false_iff_not]
    exact hline
  have hempty : init.isEmpty = false := by
    simpa using hinit.ne_nil
  rw [rightSide?, Text.trimStart_append_of_isBlankText hgap, htrim, hempty, hcontains]
  rfl

/-- What follows `var` or `val` is cut at the colon and the first equals sign, whatever blanks are
around them. -/
theorem declarationRest?_append (isMutable : Bool) (hname : name.isVariableName = true)
    (htype : typeText.Tight) (hequals : '=' ∉ typeText) (htext : isTypeText typeText = true)
    (hinit : init.Tight) (hline : '\n' ∉ init) {a b c d : Text} (ha : Text.isBlankText a = true)
    (hb : Text.isBlankText b = true) (hc : Text.isBlankText c = true)
    (hd : Text.isBlankText d = true) :
    declarationRest? isMutable
        (name ++ (a ++ ':' :: (b ++ (typeText ++ (c ++ '=' :: (d ++ init)))))) =
      some (.declaration isMutable (String.ofList name) typeText init) := by
  cases name with
  | nil => exact absurd hname Bool.false_ne_true
  | cons x xs =>
    obtain ⟨hx, hxs⟩ := (Bool.and_eq_true _ _).mp hname
    have hword := List.all_eq_true.mp hxs
    -- the name ends before the blanks or at the colon
    have hstop : ∀ rest, (a ++ ':' :: rest).takeWhile Text.isWord = [] ∧
        (a ++ ':' :: rest).dropWhile Text.isWord = a ++ ':' :: rest := fun rest => by
      cases a with
      | nil => exact ⟨rfl, rfl⟩
      | cons e es =>
        have he := (Text.not_word_of_isBlank (List.all_eq_true.mp ha e List.mem_cons_self)).2
        exact ⟨List.takeWhile_cons_of_neg (ne_true_of_eq_false he),
          List.dropWhile_cons_of_neg (ne_true_of_eq_false he)⟩
    have hcolon : ∀ rest, Text.dropPrefix? [':'] (Text.trimStart (a ++ ':' :: rest)) =
        some rest := fun rest => by
      rw [Text.trimStart_append_of_isBlankText ha]
      exact Text.dropPrefix?_append [':'] rest
    have hsplit : Text.splitFirst? '=' (typeText ++ (c ++ '=' :: (d ++ init))) =
        some (typeText ++ c, d ++ init) := by
      have hnot : '=' ∉ typeText ++ c := by
        rw [List.mem_append, not_or]
        exact ⟨hequals, fun hmem => absurd (List.all_eq_true.mp hc _ hmem) (by decide)⟩
      rw [← Text.splitFirst?_append hnot, List.append_assoc]
    rw [List.cons_append, declarationRest?, if_pos hx, List.dropWhile_append_of_pos hword,
      (hstop _).2, hcolon]
    dsimp only
    rw [Text.trimStart_append_of_isBlankText hb, htype.trimStart_append, hsplit]
    dsimp only
    rw [htype.trimEnd_append hc, if_pos htext, rightSide?_append hd hinit hline,
      List.takeWhile_append_of_pos hword, (hstop _).1, List.append_nil]
    rfl

/-- **The text of a variable is its declaration.** -/
theorem read?_display {v : Variable} (hname : Text.isVariableName v.name.toList = true)
    (hb : v.binding.Spelled v.type) : read? v.display.toList =
      some (.declaration v.isMutable v.name v.type.display.toList v.binding.display.toList) := by
  have hequals : '=' ∉ v.type.display.toList := fun hmem =>
    absurd (List.all_eq_true.mp v.type.all_display _ hmem) (by decide)
  have hrest : ∀ isMutable, declarationRest? isMutable (v.name.toList ++ (" : ".toList ++
      (v.type.display.toList ++ (" = ".toList ++ v.binding.display.toList)))) = some
        (.declaration isMutable v.name v.type.display.toList v.binding.display.toList) :=
    fun isMutable => by
      have h := declarationRest?_append isMutable hname v.type.tight_display hequals
        (isTypeText_display v.type) hb.sealed_display.tight hb.sealed_display.newline_not_mem
        (a := [' ']) (b := [' ']) (c := [' ']) (d := [' ']) rfl rfl rfl rfl
      rw [String.ofList_toList] at h
      exact h
  have hword : ∀ word : String, Text.afterWord? word (word.toList ++ ' ' :: (v.name.toList ++
      (" : ".toList ++ (v.type.display.toList ++ (" = ".toList ++ v.binding.display.toList))))) =
        some (v.name.toList ++ (" : ".toList ++
          (v.type.display.toList ++ (" = ".toList ++ v.binding.display.toList)))) := fun word =>
    Text.afterWord?_append word (show Text.isBlankText [' '] = true from rfl) (by decide)
      (v.tight_declared hname)
  have hdeclaration : declaration? v.display.toList = some
      (.declaration v.isMutable v.name v.type.display.toList v.binding.display.toList) := by
    rw [declaration?, v.toList_display]
    cases v.isMutable with
    | true =>
      rw [if_pos rfl, hword, Option.bind_some, hrest]
      rfl
    | false =>
      have hvar : ∀ t, Text.afterWord? "var" ("val".toList ++ t) = none := fun _ => rfl
      rw [if_neg Bool.false_ne_true, hvar, hword, Option.bind_some, hrest]
      rfl
  rw [read?, hdeclaration]
  rfl

end Statement

namespace Program

/-- **Parsing the text of a variable declares it.** The name has to be one that may be declared, and
the binding null or a value in the representation of the type, however deep its arrays and maps nest
and whatever its strings contain; of its doubles, the texts have to read back. Then the text is a
source without diagnostics, and its tree a bare root with no children and no calls, whose scope has
that one variable, as it was but for where it stands. -/
theorem parse_display {v : Variable} (hname : Text.isVariableName v.name.toList = true)
    (hb : v.binding.Spelled v.type) (sourceId : Nat) :
    ∃ p b span, parse v.display sourceId = .ok p ∧ p.diagnostics = [] ∧ p.tree.blocks = [b] ∧
      b.kind = .main ∧ b.children = [] ∧ b.calls = [] ∧
      b.scope.toList = [{ v with span := span }] := by
  have happly : Visit.apply (Line.ofSource v.display.toList) (bare v.display.toList)
      ⟨BlockTree.root, ⟨0, Text.bytes v.display.toList⟩, v.display.toList⟩ = .ok
        ((bare v.display.toList).modify BlockTree.root fun b => { b with
          scope := Scope.empty.modifyCollection v.kind
            (Scope.insertByName { v with span := ⟨0, Text.bytes v.display.toList⟩ }) }) := by
    rw [Visit.apply, Statement.read?_display hname hb]
    dsimp only
    rw [Statement.apply, Statement.declareVariable, v.type.ofText?_display]
    dsimp only
    rw [hb.ofInitial_display]
    rfl
  obtain ⟨p, hp, htree, hdiagnostics⟩ := parse_of_contained (v.contained_display hname hb)
    v.tight_display sourceId happly
  refine ⟨p, _, ⟨0, Text.bytes v.display.toList⟩, hp, hdiagnostics, by rw [htree]; rfl, rfl, rfl,
    rfl, ?_⟩
  exact Scope.toList_declared v.kind _

/-- A map from strings to arrays of maps to doubles. Its strings have everything in them that means
something outside of them, and it has empty collections of both kinds. -/
def nested : Variable where
  name := "data_1"
  isMutable := false
  type := .map .string (.array (.map .integer .double))
  binding := .value (.map [
    (.string "say \"hi\"; \\ [x, y] \x7b\n\t\x7d = 'z", .array [.map [], .map
      [(.integer (-5), .double (-0.1))]]),
    (.string ": ,", .array [])])
  span := ⟨7, 9⟩

theorem parse_display_nested :
    nested.display = "val data_1 : Map<String, Array<Map<Integer, Double>>> = " ++
      "[\"say \\\"hi\\\"; \\\\ [x, y] \x7b\\n\\t\x7d = 'z\": [[], [-5: -0.1]], \": ,\": []]" ∧
    ∃ p b span, parse nested.display 3 = .ok p ∧ p.diagnostics = [] ∧ p.tree.blocks = [b] ∧
      b.kind = .main ∧ b.children = [] ∧ b.calls = [] ∧
      b.scope.toList = [{ nested with span := span }] := by
  have htenth : Value.ReadsBack (-0.1) := by
    have htext : Value.doubleText (-0.1) = "-0.1" := by decide +kernel
    have hread : Literal.scalar? "-0.1".toList = some (.double (-0.1)) := rfl
    rw [Value.ReadsBack, htext]
    refine ⟨by decide, fun y hy => ?_⟩
    injection Option.some.inj (hy.symm.trans hread)
  have hspelled : nested.binding.Spelled nested.type :=
    ⟨by simp [nested, TypeName.Holds], by simpa using htenth⟩
  exact ⟨by decide +kernel, parse_display (by decide) hspelled 3⟩

end Program
end BraceTree
