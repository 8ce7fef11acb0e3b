import BraceTree.Proofs.Block.Outlined
import BraceTree.Proofs.Header.Readers
import BraceTree.Proofs.Statement.Sited
import BraceTree.Proofs.Text.Closing

/-!
# The text of a call is read as the call

Two readers look at the brackets of a call, and they disagree about them. The end of a call is found
by its parentheses alone, which have to match; its arguments are cut at the depth of parentheses and
square brackets together, which need not. So it takes an argument for each of them that the text of
a call is that call again. The commas of the text are those between arguments
(`Text.arguments_intercalate`), and its parentheses are those that stood there before: the arguments
are what the cut leaves but for commas and blanks, and it leaves every parenthesis in its order
(`Text.filter_isParen_intercalate`).

Where the text is shown, in a variable that waits for a call and in the outline, it tells the call.
-/

namespace BraceTree

namespace Text

variable {sep : Char} {t name inner : Text}

/-! ## The parentheses of joined arguments -/

/-- What a filter keeps of joined lists, if it keeps nothing of what joins them. -/
theorem filter_intercalate {α : Type} {keep : α → Bool} {sep : List α} (hsep : sep.filter keep = [])
    (ls : List (List α)) : (sep.intercalate ls).filter keep = ls.flatMap (List.filter keep) := by
  induction ls with
  | nil => rfl
  | cons l ls ih =>
    cases ls with
    | nil => rw [List.intercalate_singleton, List.flatMap_singleton]
    | cons k ks =>
      rw [List.intercalate_cons_cons, List.filter_append, List.filter_append, hsep, ih,
        List.append_nil]
      rfl

/-- A separator alone parts what is cut. -/
theorem eq_of_glyphRole_separates {g : Glyph} (h : glyphRole sep g = .separates) :
    g = ⟨sep, false⟩ := by
  obtain ⟨c, quoted⟩ := g
  unfold glyphRole at h
  split at h
  · cases h
  · next hquoted =>
    split at h
    · cases h
    · split at h
      · cases h
      · split at h
        · next hc =>
          obtain rfl : c = sep := hc
          obtain rfl : quoted = false := Bool.eq_false_iff.mpr hquoted
          rfl
        · cases h

theorem closed_of_mem_arguments (ht : Closed t) {a : Text} (ha : a ∈ arguments sep t) :
    Closed a := by
  obtain ⟨piece, hpiece, rfl⟩ := List.mem_map.mp (List.mem_filter.mp ha).1
  rw [splitGlyphs_eq] at hpiece
  obtain ⟨gs, hgs, rfl⟩ := List.mem_map.mp hpiece
  exact (ht.of_mem_pieces hgs).2.trim.1

theorem tight_of_mem_arguments {a : Text} (ha : a ∈ arguments sep t) : Tight a := by
  obtain ⟨hmem, hne⟩ := List.mem_filter.mp ha
  obtain ⟨piece, -, rfl⟩ := List.mem_map.mp hmem
  refine tight_trim (Bool.eq_false_iff.mpr fun hblank => ?_)
  rw [trim_eq_nil_iff.mpr hblank] at hne
  exact absurd hne (by decide)

/-- The parentheses of a piece are those of the argument that is left of it, which is none if it is
blank. -/
theorem filter_isParen_arguments (ht : Closed t) :
    (arguments sep t).flatMap (fun a => (glyphs a).filter isParen) =
      (Cut.pieces (glyphRole sep) 0 (glyphs t)).flatMap (List.filter isParen) := by
  have hpiece : ∀ p ∈ Cut.pieces (glyphRole sep) 0 (glyphs t),
      (glyphs (trim (Glyph.chars p))).filter isParen = p.filter isParen := fun p hp => by
    obtain ⟨hread, hclosed⟩ := ht.of_mem_pieces hp
    obtain ⟨-, pre, post, hpre, hpost, hglyphs⟩ := hclosed.trim
    conv => rhs; rw [hread, hglyphs]
    rw [List.filter_append, List.filter_append, filter_isParen_of_isBlankText hpre,
      filter_isParen_of_isBlankText hpost, List.nil_append, List.append_nil]
  have hargs : arguments sep t = ((Cut.pieces (glyphRole sep) 0 (glyphs t)).map fun p =>
      trim (Glyph.chars p)).filter fun a => !a.isEmpty := by
    rw [arguments, splitTopLevel, splitGlyphs_eq, List.map_map]
    rfl
  rw [hargs]
  generalize Cut.pieces (glyphRole sep) 0 (glyphs t) = ps at hpiece
  induction ps with
  | nil => rfl
  | cons p ps ih =>
    obtain ⟨hp, hps⟩ := List.forall_mem_cons.mp hpiece
    rw [List.map_cons, List.flatMap_cons, ← hp, ← ih hps]
    cases hempty : (trim (Glyph.chars p)).isEmpty with
    | true =>
      rw [List.filter_cons_of_neg (by simp [hempty]), List.isEmpty_iff.mp hempty]
      rfl
    | false => rw [List.filter_cons_of_pos (by simp [hempty]), List.flatMap_cons]

/-- **Joined arguments have the parentheses that they were cut out with.** -/
theorem filter_isParen_intercalate (hquote : Quoting.isQuote sep = false)
    (hparen : isParen ⟨sep, false⟩ = false) (ht : Closed t) :
    (glyphs (([sep, ' '] : Text).intercalate (arguments sep t))).filter isParen =
      (glyphs t).filter isParen := by
  have hjoin : [(⟨sep, false⟩ : Glyph), ⟨' ', false⟩].filter isParen = [] := by
    rw [List.filter_cons_of_neg (ne_true_of_eq_false hparen)]
    rfl
  have hcut : [(⟨sep, false⟩ : Glyph)].filter isParen = [] :=
    List.filter_cons_of_neg (ne_true_of_eq_false hparen)
  have hpieces := Cut.intercalate_pieces (fun g (h : glyphRole sep g = .separates) =>
    eq_of_glyphRole_separates h) (glyphs t) 0
  calc (glyphs (([sep, ' '] : Text).intercalate (arguments sep t))).filter isParen
    _ = (arguments sep t).flatMap fun a => (glyphs a).filter isParen := by
      rw [glyphs_intercalate hquote fun a ha => closed_of_mem_arguments ht ha,
        filter_intercalate hjoin, List.flatMap_map]
    _ = (Cut.pieces (glyphRole sep) 0 (glyphs t)).flatMap (List.filter isParen) :=
      filter_isParen_arguments ht
    _ = (glyphs t).filter isParen := by
      rw [← filter_intercalate hcut, hpieces]

/-- Closed texts are joined to a closed text. -/
theorem after_intercalate (hquote : Quoting.isQuote sep = false) {ts : List Text}
    (h : ∀ a ∈ ts, Closed a) :
    Quoting.outside.after (([sep, ' '] : Text).intercalate ts) = .outside := by
  have hjoin : Quoting.outside.after [sep, ' '] = .outside := by
    show (Quoting.outside.step sep).1.after [' '] = .outside
    rw [Quoting.step, if_neg (ne_true_of_eq_false hquote)]
    rfl
  induction ts with
  | nil => rfl
  | cons a ts ih =>
    obtain ⟨ha, hts⟩ := List.forall_mem_cons.mp h
    cases ts with
    | nil => rw [List.intercalate_singleton, ha.1]
    | cons b bs =>
      rw [List.intercalate_cons_cons, Quoting.after_append, Quoting.after_append, ha.1, hjoin,
        ih hts]

/-- **Arguments stand between matched parentheses if they did before.** -/
theorem Parenthesized.arguments (h : Parenthesized t) (hline : '\n' ∉ t) :
    Parenthesized (([',', ' '] : Text).intercalate (arguments ',' t)) :=
  have ht : Closed t := ⟨h.outside, hline⟩
  h.of_filter_eq (after_intercalate (by decide) fun _ ha => closed_of_mem_arguments ht ha)
    (filter_isParen_intercalate (by decide) (by decide) ht)

/-! ## What stands between parentheses -/

/-- What is enclosed stands between two parentheses, and those in it match. -/
theorem enclosed?_eq_some_iff : enclosed? '(' ')' t = some inner ↔
    t = '(' :: (inner ++ [')']) ∧ Parenthesized inner := by
  constructor
  · intro h
    obtain rfl := eq_of_enclosed? (by decide) h
    refine ⟨rfl, closesAtEnd_iff_parenthesized.mp ?_⟩
    rw [enclosed?] at h
    split at h
    · next hcloses => exact hcloses.2
    · cases h
  · rintro ⟨rfl, h⟩
    rw [enclosed?, if_pos ⟨rfl, closesAtEnd_iff_parenthesized.mpr h⟩, List.tail_cons,
      List.dropLast_concat]

end Text

/-! ## Reading a call -/

/-- **What starts like a name is neither a string nor a number.** -/
theorem Literal.scalar?_of_isNameHead {c : Char} (hc : Text.isNameHead c = true) (cs : Text) :
    scalar? (c :: cs) = none := by
  have hne : ∀ d, Text.isNameHead d = false → c ≠ d := by
    rintro d hd rfl
    exact Bool.false_ne_true (hd.symm.trans hc)
  have hstring : string? (c :: cs) = none := by
    rw [string?, if_neg]
    simp [Quoting.isQuote, hne '"' (by decide), hne '\'' (by decide)]
  have hnumeral : numeral? (c :: cs) = none := by
    simp [numeral?, hne '-' (by decide), isDigit_of_isNameHead hc]
  rw [scalar?, hstring, hnumeral]

namespace Call

variable {c : Call} {t : Text}

/-- **What is read as a call**: a name that is no keyword, and parentheses around its arguments,
with nothing but blanks around the two. -/
theorem ofText?_eq_some_iff : ofText? t = some c ↔ ∃ name gap inner, Text.IsName name ∧
    Text.isBlankText gap = true ∧ Text.Parenthesized inner ∧
    Text.trim t = name ++ (gap ++ '(' :: (inner ++ [')'])) ∧
    keywords.contains (String.ofList name) = false ∧
    c = ⟨String.ofList name, (Text.arguments ',' inner).map String.ofList⟩ := by
  rw [ofText?]
  constructor
  · intro h
    split at h
    · cases h
    next name rest hname =>
    obtain ⟨hsplit, hisName, -⟩ := splitName?_eq_some_iff.mp hname
    split at h
    · cases h
    next inner hinner =>
    obtain ⟨henclosed, hmatched⟩ := Text.enclosed?_eq_some_iff.mp hinner
    split at h
    · cases h
    next hkeyword =>
    refine ⟨name, rest.takeWhile Text.isBlank, inner, hisName, Text.isBlankText_takeWhile rest,
      hmatched, ?_, Bool.eq_false_iff.mpr hkeyword, (Option.some.inj h).symm⟩
    rw [hsplit, ← henclosed, Text.trimStart, List.takeWhile_append_dropWhile]
  · rintro ⟨name, gap, inner, hname, hgap, hmatched, htrim, hkeyword, rfl⟩
    have hrest : (gap ++ '(' :: (inner ++ [')'])).head?.any Text.isWord = false := by
      cases gap with
      | nil => rfl
      | cons b bs => exact (Text.not_word_of_isBlank (List.all_eq_true.mp hgap b (by simp))).2
    have hsplit : splitName? (Text.trim t) = some (name, gap ++ '(' :: (inner ++ [')'])) :=
      splitName?_eq_some_iff.mpr ⟨htrim, hname, hrest⟩
    have henclosed : Text.enclosed? '(' ')' (Text.trimStart (gap ++ '(' :: (inner ++ [')']))) =
        some inner := by
      rw [Text.trimStart_append_of_isBlankText hgap]
      exact Text.enclosed?_eq_some_iff.mpr ⟨rfl, hmatched⟩
    rw [hsplit]
    dsimp only
    rw [henclosed]
    dsimp only
    rw [if_neg (ne_true_of_eq_false hkeyword)]
    rfl

/-- **A call that its text tells**, to the reader of calls and to the reader of right-hand sides. -/
structure ReadsBack (c : Call) : Prop where
  /-- No argument is empty, and none has blanks around it. -/
  args : ∀ a ∈ c.args, a ≠ "" ∧ Text.trim a.toList = a.toList
  call : ofText? c.display.toList = some c
  expression : Expression.ofText? c.display.toList = some (.call c)

/-- **A right-hand side is a call if it is read as one**, since no literal starts like a name before
a parenthesis. -/
theorem expression_iff : Expression.ofText? t = some (.call c) ↔ ofText? t = some c := by
  have htrim : ofText? (Text.trim t) = ofText? t := by rw [ofText?, ofText?, Text.trim_trim]
  constructor
  · intro h
    rw [← htrim]
    exact Expression.call_of_ofText? h
  · intro h
    obtain ⟨name, gap, inner, ⟨d, ds, rfl, hd, -⟩, -, -, hsplit, -⟩ := ofText?_eq_some_iff.mp h
    have hscalar := Literal.scalar?_of_isNameHead hd (ds ++ (gap ++ '(' :: (inner ++ [')'])))
    rw [← List.cons_append, ← hsplit] at hscalar
    rw [Expression.ofText?, hscalar]
    dsimp only
    rw [htrim, h]

/-- The text of a call has no blanks around it. -/
theorem tight_display {name : Text} (hname : Text.IsName name) (args : List String) :
    Text.Tight (display ⟨String.ofList name, args⟩).toList := by
  obtain ⟨d, ds, rfl, hd, -⟩ := hname
  have hblank : Text.isBlank d = false := Bool.eq_false_iff.mpr fun hblank =>
    Bool.false_ne_true ((Text.not_word_of_isBlank hblank).1.symm.trans hd)
  have hone : ∀ {e : Char}, Text.isBlank e = false → Text.Tight [e] := fun he =>
    ⟨⟨_, rfl, he⟩, _, rfl, he⟩
  have hdisplay : (display ⟨String.ofList (d :: ds), args⟩).toList =
      [d] ++ ((ds ++ '(' :: (", ".intercalate args).toList) ++ [')']) := by
    rw [toList_display, String.toList_ofList]
    simp
  rw [hdisplay]
  exact (hone hblank).around _ (hone (by decide))

/-- **A call that is read reads back.** -/
theorem readsBack_of_read (hline : '\n' ∉ t) (h : ofText? t = some c) : c.ReadsBack := by
  obtain ⟨name, gap, inner, hname, -, hmatched, htrim, hkeyword, rfl⟩ := ofText?_eq_some_iff.mp h
  have hinner : '\n' ∉ inner := fun hmem => hline (Text.mem_of_mem_trim (by
    rw [htrim]
    simp [hmem]))
  have hjoined : (", ".intercalate ((Text.arguments ',' inner).map String.ofList)).toList =
      ([',', ' '] : Text).intercalate (Text.arguments ',' inner) := by
    rw [String.toList_intercalate, List.map_map]
    exact congrArg _ ((List.map_congr_left fun a _ => String.toList_ofList).trans (List.map_id _))
  have hcall : ofText? (display ⟨String.ofList name,
      (Text.arguments ',' inner).map String.ofList⟩).toList =
        some ⟨String.ofList name, (Text.arguments ',' inner).map String.ofList⟩ := by
    refine ofText?_eq_some_iff.mpr
      ⟨name, [], _, hname, rfl, hmatched.arguments hinner, ?_, hkeyword, ?_⟩
    · rw [(tight_display hname _).trim_eq, toList_display, hjoined, String.toList_ofList]
      rfl
    · rw [Text.arguments_intercalate (by decide) (by decide) (by decide) ⟨hmatched.outside, hinner⟩]
  refine ⟨List.forall_mem_map.mpr fun a ha => ?_, hcall, expression_iff.mpr hcall⟩
  have htight := Text.tight_of_mem_arguments ha
  rw [String.toList_ofList]
  exact ⟨fun hempty => htight.ne_nil (String.ofList_inj.mp hempty), htight.trim_eq⟩

end Call

/-! ## Where calls are kept -/

/-- **What waits for a call is the text of the call**, which the initial value was. -/
theorem Binding.ofInitial_eq_deferred_iff {type : TypeName} {name text : String} {init : Text} :
    ofInitial type name init = .ok (.deferred text) ↔
      ∃ c, Call.ofText? init = some c ∧ text = c.display := by
  constructor
  · intro h
    unfold ofInitial at h
    split at h
    · split at h <;> cases h
    · cases h
    · next c hc =>
      obtain rfl : c.display = text := by injection Except.ok.inj h
      exact ⟨c, Call.expression_iff.mp hc, rfl⟩
    · split at h <;> cases h
  · rintro ⟨c, hc, rfl⟩
    rw [ofInitial, Call.expression_iff.mpr hc]

/-- A statement that is a call is read as one. -/
theorem Statement.ofText?_of_read? {t : Text} {c : Call} (h : read? t = some (.call c)) :
    Call.ofText? t = some c := by
  rcases (Option.orElse_eq_some _ _ _).mp h with h | ⟨-, h⟩
  · rcases (Option.orElse_eq_some _ _ _).mp h with h | ⟨-, h⟩ <;>
      · obtain ⟨rest, -, hrest⟩ := Option.bind_eq_some_iff.mp h
        obtain ⟨name, typeText, init, hcall, -⟩ := exists_of_declarationRest? hrest
        cases hcall
  · rcases (Option.orElse_eq_some _ _ _).mp h with h | ⟨-, h⟩
    · obtain ⟨name, op, operand, hcall, -⟩ := exists_of_update? h
      cases hcall
    · obtain ⟨d, hd, hcall⟩ := Option.map_eq_some_iff.mp h
      obtain rfl : d = c := by injection hcall
      exact hd

/-- **A statement gave a variable its value**, which is the initial one. -/
def Variable.InitiallyBy (w : Variable) (v : Visit) : Prop :=
  v.span = w.span ∧ ∃ typeText init,
    Statement.read? v.text = some (.declaration w.isMutable w.name typeText init) ∧
      Binding.ofInitial w.type w.name init = .ok w.binding

section Runs

variable {lines : List Line} {t t' : BlockTree} {w : Variable} {id : Nat} {k : Kind}

theorem Statement.initially_of_apply {s : Statement} {v : Visit} (ht : t.WellTyped)
    (hread : read? v.text = some s) (h : s.apply lines t v.block v.span = .ok t')
    (hw : w ∈ (t'.get id).scope.collection k) (hval : w.isMutable = false) :
    w ∈ (t.get id).scope.collection k ∨ w.InitiallyBy v := by
  cases s with
  | declaration isMutable name typeText init =>
    obtain ⟨type, b, hinit, hdeclare⟩ := declareVariable_eq_ok h
    by_cases hb : v.block < t.size
    · obtain ⟨s, hs, halters⟩ := BlockTree.declare?_eq_some hb hdeclare
      by_cases hid : id = v.block
      · subst hid
        rw [halters.here] at hw
        rcases (Scope.adds_of_declare? hs).mem_iff.mp hw with hw | ⟨rfl, -⟩
        · exact .inl hw
        · exact .inr ⟨rfl, typeText, init, hread, hinit⟩
      · rw [halters.elsewhere id hid] at hw
        exact .inl hw
    · obtain ⟨s, -, rfl⟩ := Option.map_eq_some_iff.mp hdeclare
      rw [t.modify_of_size_le (Nat.le_of_not_lt hb)] at hw
      exact .inl hw
  | update name op operand =>
    obtain ⟨owner, x, b, s, -, hmut, -, -, hrebinds, halters⟩ := updateVariable_eq_ok ht h
    by_cases hid : id = owner
    · subst hid
      rw [halters.here] at hw
      rcases hrebinds.exists_of_mem hw with hw | ⟨rfl, rfl⟩
      · exact .inl hw
      · exact absurd (hmut.symm.trans hval) (by simp)
    · rw [halters.elsewhere id hid] at hw
      exact .inl hw
  | call c =>
    obtain rfl := Except.ok.inj h
    have hscope : ((t.addCall v.block ⟨c, v.span⟩).get id).scope = (t.get id).scope := by
      rw [BlockTree.addCall, BlockTree.get_modify]
      split <;> rfl
    rw [hscope] at hw
    exact .inl hw

/-- **What may not be assigned again keeps its initial value** through a run. -/
theorem Visit.initially_of_run (lines : List Line) (visits : List Visit) (ht : t.WellTyped)
    (hw : w ∈ ((run lines t visits).1.get id).scope.collection k) (hval : w.isMutable = false) :
    w ∈ (t.get id).scope.collection k ∨ ∃ v ∈ visits, w.InitiallyBy v := by
  refine (run_induction lines (P := fun t' => t'.WellTyped ∧
    (w ∈ (t'.get id).scope.collection k → w ∈ (t.get id).scope.collection k ∨
      ∃ v ∈ visits, w.InitiallyBy v)) ⟨ht, .inl⟩ ?_).2 hw
  intro v hv s t₁ t₂ hread ⟨ht₁, hbefore⟩ happly
  refine ⟨(Statement.wellTyped_and_keeps_of_apply ht₁ happly).1, fun hw => ?_⟩
  rcases Statement.initially_of_apply ht₁ hread happly hw hval with hw | hinitially
  · exact hbefore hw
  · exact .inr ⟨v, hv, hinitially⟩

end Runs

namespace Program

variable {source : Text} {sourceId : Nat} {p : Program} {id : Nat}

/-- **A call site has the call that stands there.** -/
theorem ofText?_of_mem_calls (hp : ofText source sourceId = .ok p) {s : CallSite}
    (hs : s ∈ (p.tree.get id).calls) :
    '\n' ∉ Text.slice source s.span ∧ Call.ofText? (Text.slice source s.span) = some s.call := by
  obtain ⟨t, hcuts, -, hline, hread⟩ := cuts_of_mem_calls hp hs
  rw [hcuts.slice_eq]
  exact ⟨hline, Statement.ofText?_of_read? hread⟩

/-- **A variable that may not be assigned again has the value that its declaration gives it.** -/
theorem initially_of_mem_scope (hp : ofText source sourceId = .ok p) {w : Variable}
    (hw : w ∈ (p.tree.get id).scope.toList) (hval : w.isMutable = false) : ∃ typeText init,
      '\n' ∉ init ∧ Statement.read? (Text.slice source w.span) =
        some (.declaration false w.name typeText init) ∧
      Binding.ofInitial w.type w.name init = .ok w.binding := by
  obtain ⟨f, hf, htree⟩ := ofText_eq_ok hp
  rw [htree] at hw
  obtain ⟨k, hk⟩ := BlockTree.mem_scope_toList.mp hw
  rcases Visit.initially_of_run _ _ (wellTyped_classified hf) hk hval with
    hempty | ⟨v, hv, hspan, typeText, init, hread, hinit⟩
  · rw [scope_classified hf id] at hempty
    cases k <;> cases hempty
  · obtain ⟨hcuts, -, hline⟩ := Visit.cuts_of_mem_all (headed_classified hf).1 hv
    rw [hspan] at hcuts
    rw [hcuts.slice_eq]
    rw [hval] at hread
    exact ⟨typeText, init, (Statement.legible_of_read? hread hline).2, hread, hinit⟩

/-- **Calls read back from where they are shown.** Whatever text in one line is read as a call, the
call has trimmed arguments, none of them empty, and its own text is read as the very same call, as
well on a right-hand side. A variable waits for a call from its declaration on exactly if its
initial value is one, and then it keeps the text of that call. In a program every call of the
outline is the call that stands in its place in the source, and what a variable that may not be
assigned again waits for is the call in its declaration. -/
theorem calls_read_back :
    (∀ (t : Text) (c : Call), '\n' ∉ t → Call.ofText? t = some c → c.ReadsBack) ∧
    (∀ (type : TypeName) (name text : String) (init : Text),
      Binding.ofInitial type name init = .ok (.deferred text) ↔
        ∃ c, Call.ofText? init = some c ∧ text = c.display) ∧
    ∀ (source : Text) (sourceId : Nat) (p : Program), ofText source sourceId = .ok p →
      ∀ id : Nat,
        (∀ s ∈ (p.tree.get id).calls,
          BlockTree.callLine (p.tree.depth id) s.call ∈ p.tree.outlineLines source id ∧
          Call.ofText? (Text.slice source s.span) = some s.call ∧ s.call.ReadsBack) ∧
        ∀ w ∈ (p.tree.get id).scope.toList, w.isMutable = false →
          ∀ text, w.binding = .deferred text → ∃ typeText init c,
            Statement.read? (Text.slice source w.span) =
              some (.declaration false w.name typeText init) ∧
            Call.ofText? init = some c ∧ text = c.display ∧ c.ReadsBack := by
  refine ⟨fun t c hline h => Call.readsBack_of_read hline h,
    fun type name text init => Binding.ofInitial_eq_deferred_iff, fun source sourceId p hp id =>
    ⟨fun s hs => ?_, fun w hw hval text htext => ?_⟩⟩
  · obtain ⟨hline, hcall⟩ := ofText?_of_mem_calls hp hs
    refine ⟨?_, hcall, Call.readsBack_of_read hline hcall⟩
    rw [BlockTree.outlineLines_eq]
    exact List.mem_cons_of_mem _ (List.mem_append_right _ (List.mem_map_of_mem hs))
  · obtain ⟨typeText, init, hline, hread, hinit⟩ := initially_of_mem_scope hp hw hval
    rw [htext] at hinit
    obtain ⟨c, hc, hdisplay⟩ := Binding.ofInitial_eq_deferred_iff.mp hinit
    exact ⟨typeText, init, c, hread, hc, hdisplay, Call.readsBack_of_read hline hc⟩

/-- A call whose brackets do not match, with commas and a parenthesis in a literal, as a statement
and as an initial value. -/
theorem calls_read_back_of_unmatched : ∃ (t source : Text) (p : Program) (c : Call) (s : CallSite)
    (w : Variable), t = "draw ( [a, (b]), ,\",)\" ,g( x ) )".toList ∧
    source = t ++ '\n' :: ("val v : String = ".toList ++ t) ∧
    c = ⟨"draw", ["[a, (b])", "\",)\"", "g( x )"]⟩ ∧ '\n' ∉ t ∧ Call.ofText? t = some c ∧
    c.ReadsBack ∧ ofText source 0 = .ok p ∧ s ∈ (p.tree.get BlockTree.root).calls ∧ s.call = c ∧
    Call.ofText? (Text.slice source s.span) = some s.call ∧
    w ∈ (p.tree.get BlockTree.root).scope.toList ∧ w.isMutable = false ∧
    w.binding = .deferred c.display ∧
    ∃ typeText init d, Statement.read? (Text.slice source w.span) =
        some (.declaration false w.name typeText init) ∧
      Call.ofText? init = some d ∧ c.display = d.display ∧ d.ReadsBack := by
  generalize ht : "draw ( [a, (b]), ,\",)\" ,g( x ) )".toList = t
  generalize hc : (⟨"draw", ["[a, (b])", "\",)\"", "g( x )"]⟩ : Call) = c
  have hline : '\n' ∉ t := by
    rw [← ht]
    decide
  have hcall : Call.ofText? t = some c := by
    rw [← ht, ← hc]
    decide +kernel
  have hparsed : (ofText (t ++ '\n' :: ("val v : String = ".toList ++ t)) 0).toOption.map (fun p =>
      ((p.tree.get BlockTree.root).calls.map (·.call),
        (p.tree.get BlockTree.root).scope.toList.map fun w =>
          (w.isMutable, w.binding.value?.isNone, w.binding.display))) =
      some ([c], [(false, true, "<" ++ c.display ++ ">")]) := by
    rw [← ht, ← hc]
    decide +kernel
  obtain ⟨p, hp, hvalues⟩ := exists_of_toOption_map hparsed
  obtain ⟨hcalls, hscope⟩ := Prod.mk.inj hvalues
  obtain ⟨s, hs, hsc⟩ := List.map_eq_singleton_iff.mp hcalls
  obtain ⟨w, hw, hwvalues⟩ := List.map_eq_singleton_iff.mp hscope
  obtain ⟨hval, hnone, htext⟩ : _ ∧ _ ∧ _ := by
    simpa only [Prod.mk.injEq] using hwvalues
  obtain ⟨hreads, -, hprogram⟩ := calls_read_back
  obtain ⟨hsites, hvariables⟩ := hprogram _ 0 p hp BlockTree.root
  have hs : s ∈ (p.tree.get BlockTree.root).calls := by
    rw [hs]
    exact List.mem_singleton_self s
  have hw : w ∈ (p.tree.get BlockTree.root).scope.toList := by
    rw [hw]
    exact List.mem_singleton_self w
  have hbinding : w.binding = .deferred c.display := by
    cases hb : w.binding with
    | value v =>
      rw [hb] at hnone
      cases hnone
    | null =>
      rw [hb, ← hc] at htext
      exact absurd htext (by decide +kernel)
    | deferred text =>
      rw [hb] at htext
      exact congrArg Binding.deferred
        ((String.append_right_inj _).mp ((String.append_left_inj _).mp htext))
  exact ⟨t, _, p, c, s, w, rfl, rfl, rfl, hline, hcall, hreads t c hline hcall, hp, hs, hsc,
    (hsites s hs).2.1, hw, hval, hbinding, hvariables w hw hval _ hbinding⟩

end Program
end BraceTree
