import BraceTree.Proofs.Statement.Called
import BraceTree.Proofs.Statement.Displayed
import BraceTree.Proofs.Statement.OneReading
import BraceTree.Proofs.Value.Alike

/-!
# Statements leave what can be told from its text

A variable is shown in one line, and its name has no blank in it; so much is enough for its parts to
be found again (`Variable.Legible.agrees_of_display_eq`). A call is told from its text as well. That
the scopes and the calls of a program are of this kind has to be seen statement by statement: a
statement is in one line, so whatever text it leaves in a binding is, and a value shows the newlines
of its strings escaped.
-/

namespace BraceTree

/-! ## Variables and their texts -/

namespace Variable

/-- **A variable that can be told from its text**, which is in one line. -/
structure Legible (v : Variable) : Prop where
  /-- The name ends at the first blank. -/
  name : Text.isVariableName v.name.toList = true
  line : '\n' ∉ v.binding.display.toList

/-- **Variables that agree**: declared alike, and with alike bindings. -/
structure Agrees (v w : Variable) : Prop where
  name_eq : v.name = w.name
  isMutable_eq : v.isMutable = w.isMutable
  type_eq : v.type = w.type
  binding : v.binding.Alike w.binding

variable {v w : Variable}

/-- A character that stands in no name, and in no type, does not stand in these of a variable. -/
theorem not_mem_name {c : Char} (hword : Text.isWord c = false) (hlower : c.isLower = false)
    (h : Text.isVariableName v.name.toList = true) : c ∉ v.name.toList := by
  generalize v.name.toList = name at h
  cases name with
  | nil => exact List.not_mem_nil
  | cons d ds =>
    obtain ⟨hd, hds⟩ := (Bool.and_eq_true _ _).mp h
    intro hmem
    rcases List.mem_cons.mp hmem with rfl | hmem
    · exact Bool.false_ne_true (hlower.symm.trans hd)
    · exact Bool.false_ne_true (hword.symm.trans (List.all_eq_true.mp hds c hmem))

theorem not_mem_type {c : Char} (hc : TypeName.isTypeChar c = false) (v : Variable) :
    c ∉ v.type.display.toList := fun hmem =>
  Bool.false_ne_true (hc.symm.trans (List.all_eq_true.mp v.type.all_display c hmem))

theorem Legible.newline_not_mem (h : v.Legible) : '\n' ∉ v.display.toList := by
  have hword : '\n' ∉ (if v.isMutable then "var" else "val").toList := by
    cases v.isMutable <;> decide
  rw [toList_display]
  simp only [List.mem_append, List.mem_cons, not_or]
  exact ⟨hword, by decide, not_mem_name (by decide) (by decide) h.name, by decide,
    not_mem_type (by decide) v, by decide, h.line⟩

/-- **Variables with one text agree**, if their bindings fit their types. -/
theorem Legible.agrees_of_display_eq (hv : v.Legible) (hw : w.Legible)
    (hvfits : v.binding.Fits v.type) (hwfits : w.binding.Fits w.type)
    (h : v.display = w.display) : v.Agrees w := by
  have hwords : ∀ u : Variable, ' ' ∉ (if u.isMutable then "var" else "val").toList := fun u => by
    cases u.isMutable <;> decide
  have htext := congrArg String.toList h
  rw [toList_display, toList_display] at htext
  -- the word ends at the first blank, the name at the next, the type before the equals sign
  obtain ⟨hword, hrest⟩ := Text.append_cons_inj (hwords v) (hwords w) htext
  obtain ⟨hname, hrest⟩ := Text.append_cons_inj
    (not_mem_name (by decide) (by decide) hv.name) (not_mem_name (by decide) (by decide) hw.name)
    (show v.name.toList ++ ' ' :: _ = w.name.toList ++ ' ' :: _ from hrest)
  have hannotated : (v.type.display.toList ++ [' ']) ++ '=' :: (' ' :: v.binding.display.toList) =
      (w.type.display.toList ++ [' ']) ++ '=' :: (' ' :: w.binding.display.toList) := by
    have hbehind := (List.cons.inj (List.cons.inj hrest).2).2
    rw [List.append_assoc, List.append_assoc]
    exact hbehind
  have hequals : ∀ u : Variable, '=' ∉ u.type.display.toList ++ [' '] := fun u hmem =>
    (List.mem_append.mp hmem).elim (not_mem_type (by decide) u) (by decide)
  obtain ⟨htype, hbinding⟩ := Text.append_cons_inj (hequals v) (hequals w) hannotated
  have htype' : v.type = w.type := by
    have hread := congrArg TypeName.ofText? (List.append_cancel_right htype)
    rw [TypeName.ofText?_display, TypeName.ofText?_display] at hread
    exact Option.some.inj hread
  refine ⟨String.toList_inj.mp hname, ?_, htype', ?_⟩
  · cases hm : v.isMutable <;> cases hm' : w.isMutable <;> rw [hm, hm'] at hword <;>
      first | rfl | exact absurd hword (by decide)
  · rw [← htype'] at hwfits
    exact Binding.alike_of_display_eq hvfits hwfits
      (String.toList_inj.mp (List.cons.inj hbinding).2)

end Variable

/-! ## What a right-hand side leaves -/

theorem Expression.call_of_ofText? {t : Text} {c : Call} (h : ofText? t = some (.call c)) :
    Call.ofText? (Text.trim t) = some c := by
  unfold ofText? at h
  dsimp only at h
  split at h
  · cases Option.some.inj h
  · split at h
    · rename_i d hd
      obtain rfl : d = c := by injection Option.some.inj h
      exact hd
    · split at h
      · cases Option.some.inj h
      · split at h
        · cases Option.some.inj h
        · obtain ⟨v, -, hv⟩ := Option.map_eq_some_iff.mp h
          cases hv

theorem Expression.legible_of_ofText? {t : Text} {c : Call} (h : ofText? t = some (.call c))
    (hline : '\n' ∉ t) : c.Legible :=
  Call.legible_of_ofText? (call_of_ofText? h) fun hmem => hline (Text.mem_of_mem_trim hmem)

namespace Binding

variable {type : TypeName} {name : String} {op : Operator} {operand init : Text} {b : Binding}

theorem newline_not_mem_value (v : Value) : '\n' ∉ (value v).display.toList :=
  v.sealed_display.newline_not_mem

theorem newline_not_mem_deferred {text : String} :
    '\n' ∉ (deferred text).display.toList ↔ '\n' ∉ text.toList := by
  simp [display]

theorem newline_not_mem_ofInitial (hline : '\n' ∉ init) (h : ofInitial type name init = .ok b) :
    '\n' ∉ b.display.toList := by
  unfold ofInitial at h
  split at h
  · split at h <;> cases h
  · obtain rfl := Except.ok.inj h
    decide
  · rename_i c hc
    obtain rfl := Except.ok.inj h
    exact newline_not_mem_deferred.mpr (Expression.legible_of_ofText? hc hline).line
  · split at h
    · obtain rfl := Except.ok.inj h
      exact newline_not_mem_value _
    · cases h

/-- An operation is kept in one line if its operands are in one. -/
theorem newline_not_mem_postpone {left right : String} (op : Operator) (hleft : '\n' ∉ left.toList)
    (hright : '\n' ∉ right.toList) : '\n' ∉ (postpone left op right).display.toList := by
  have hsign : '\n' ∉ op.sign.toList := by cases op <;> decide
  unfold postpone
  rw [newline_not_mem_deferred]
  simp [hleft, hright, hsign]

theorem newline_not_mem_compound {current : Binding} (hcurrent : '\n' ∉ current.display.toList)
    (hline : '\n' ∉ operand) (h : compound type name current op operand = .ok b) :
    '\n' ∉ b.display.toList := by
  unfold compound at h
  split at h
  · cases h
  · split at h
    · cases h
    · rename_i c hc
      obtain rfl := Except.ok.inj h
      refine newline_not_mem_postpone op hcurrent ?_
      unfold readOperand at hc
      split at hc
      · split at hc <;> cases hc
      · cases hc
      · rename_i d hd
        obtain rfl : d = c := by injection Except.ok.inj hc
        exact (Expression.legible_of_ofText? hd hline).line
      · cases hc
    · split at h
      · cases h
      · obtain rfl := Except.ok.inj h
        exact newline_not_mem_postpone op (newline_not_mem_deferred.mp hcurrent)
          (newline_not_mem_value _)
      · cases hcombine : combine type name op _ _ with
        | error problem =>
          rw [hcombine] at h
          cases h
        | ok v =>
          rw [hcombine] at h
          obtain rfl := Except.ok.inj h
          exact newline_not_mem_value v

theorem newline_not_mem_updated {v : Variable} (hv : '\n' ∉ v.binding.display.toList)
    (hline : '\n' ∉ operand) (h : updated v op operand = .ok b) : '\n' ∉ b.display.toList := by
  cases op with
  | assign => exact newline_not_mem_ofInitial hline h
  | add | subtract => exact newline_not_mem_compound hv hline h

end Binding

/-! ## Statements in one line -/

namespace Statement

/-- **A statement that leaves what can be told from its text.** -/
def Legible : Statement → Prop
  | .declaration _ name _ init => Text.isVariableName name.toList = true ∧ '\n' ∉ init
  | .update _ _ operand => '\n' ∉ operand
  | .call c => c.Legible

theorem newline_not_mem_rightSide? {t rhs : Text} (h : rightSide? t = some rhs) : '\n' ∉ rhs := by
  unfold rightSide? at h
  dsimp only at h
  split at h
  · cases h
  · rename_i hline
    obtain rfl := Option.some.inj h
    intro hmem
    exact hline (by simp [hmem])

/-- What follows `var` or `val` declares a variable, with an initial value in one line. -/
theorem exists_of_declarationRest? {isMutable : Bool} {t : Text} {s : Statement}
    (h : declarationRest? isMutable t = some s) : ∃ name typeText init,
      s = .declaration isMutable name typeText init ∧
      Text.isVariableName name.toList = true ∧ '\n' ∉ init := by
  cases t with
  | nil => cases h
  | cons c cs =>
    rw [declarationRest?] at h
    split at h
    · rename_i hc
      split at h
      · cases h
      · split at h
        · cases h
        · dsimp only at h
          split at h
          · obtain ⟨rhs, hrhs, rfl⟩ := Option.map_eq_some_iff.mp h
            refine ⟨_, _, rhs, rfl, ?_, newline_not_mem_rightSide? hrhs⟩
            rw [String.toList_ofList]
            show (c.isLower && (cs.takeWhile Text.isWord).all Text.isWord) = true
            rw [hc, List.all_takeWhile]
            rfl
          · cases h
    · cases h

/-- An update has an operand in one line. -/
theorem exists_of_update? {t : Text} {s : Statement} (h : update? t = some s) :
    ∃ name op operand, s = .update name op operand ∧ '\n' ∉ operand := by
  unfold update? at h
  split at h
  · cases h
  · split at h
    · cases h
    · split at h
      · cases h
      · rename_i rhs hrhs
        split at h
        · cases h
        · obtain rfl := Option.some.inj h
          exact ⟨_, _, rhs, rfl, newline_not_mem_rightSide? hrhs⟩

/-- **Every statement in one line is legible.** -/
theorem legible_of_read? {t : Text} {s : Statement} (h : read? t = some s) (hline : '\n' ∉ t) :
    s.Legible := by
  unfold read? at h
  rcases (Option.orElse_eq_some _ _ _).mp h with h | ⟨-, h⟩
  · unfold declaration? at h
    rcases (Option.orElse_eq_some _ _ _).mp h with h | ⟨-, h⟩ <;>
      · obtain ⟨rest, -, hrest⟩ := Option.bind_eq_some_iff.mp h
        obtain ⟨name, typeText, init, rfl, hlegible⟩ := exists_of_declarationRest? hrest
        exact hlegible
  · rcases (Option.orElse_eq_some _ _ _).mp h with h | ⟨-, h⟩
    · obtain ⟨name, op, operand, rfl, hlegible⟩ := exists_of_update? h
      exact hlegible
    · obtain ⟨c, hc, rfl⟩ := Option.map_eq_some_iff.mp h
      exact Call.legible_of_ofText? hc hline

end Statement

/-! ## Blocks -/

/-- **A block whose variables and calls can be told from their texts.** -/
structure Block.Legible (b : Block) : Prop where
  scope : ∀ {k : Kind}, ∀ v ∈ b.scope.collection k, v.Legible
  calls : ∀ c ∈ b.calls, c.call.Legible

namespace BlockTree

/-- A tree of such blocks. -/
def Legible (t : BlockTree) : Prop := ∀ id : Nat, (t.get id).Legible

end BlockTree

variable {lines : List Line} {t t' : BlockTree}

/-- **A legible statement leaves the blocks legible.** -/
theorem Statement.legible_of_apply {s : Statement} {block : Nat} {span : Span} (ht : t.WellTyped)
    (hlegible : t.Legible) (hs : s.Legible) (h : s.apply lines t block span = .ok t') :
    t'.Legible := by
  cases s with
  | declaration isMutable name typeText init =>
    obtain ⟨hname, hinit⟩ := hs
    obtain ⟨type, b, hb, hdeclare⟩ := declareVariable_eq_ok h
    by_cases hblock : block < t.size
    · obtain ⟨s, hs, halters⟩ := BlockTree.declare?_eq_some hblock hdeclare
      refine halters.forall_get ⟨fun {k} v hv => ?_, (hlegible block).calls⟩ hlegible
      rcases (Scope.adds_of_declare? hs).mem_iff.mp hv with hv | ⟨rfl, -⟩
      · exact (hlegible block).scope v hv
      · exact ⟨hname, Binding.newline_not_mem_ofInitial hinit hb⟩
    · obtain ⟨s, -, rfl⟩ := Option.map_eq_some_iff.mp hdeclare
      rwa [t.modify_of_size_le (Nat.le_of_not_lt hblock)]
  | update name op operand =>
    obtain ⟨owner, v, b, s, hlookup, -, hb, -, hrebinds, halters⟩ := updateVariable_eq_ok ht h
    have hv : v.Legible := (hlegible owner).scope v hrebinds.mem_self
    refine halters.forall_get ⟨fun {k} w hw => ?_, (hlegible owner).calls⟩ hlegible
    rcases hrebinds.exists_of_mem hw with hw | ⟨rfl, -⟩
    · exact (hlegible owner).scope w hw
    · exact ⟨hv.name, Binding.newline_not_mem_updated hv.line hs hb⟩
  | call c =>
    obtain rfl := Except.ok.inj h
    by_cases hblock : block < t.size
    · refine (t.alters_modify hblock fun blk => { blk with calls := blk.calls ++ [⟨c, span⟩] })
        |>.forall_get ⟨(hlegible block).scope, fun d hd => ?_⟩ hlegible
      rcases List.mem_append.mp hd with hd | hd
      · exact (hlegible block).calls d hd
      · obtain rfl := List.mem_singleton.mp hd
        exact hs
    · rwa [BlockTree.addCall, t.modify_of_size_le (Nat.le_of_not_lt hblock)]

namespace Visit

/-- **Statements in one line leave the blocks legible**, however many are carried out. -/
theorem legible_of_run (lines : List Line) {visits : List Visit} {t : BlockTree}
    (ht : t.WellTyped) (hlegible : t.Legible) (hlines : ∀ v ∈ visits, '\n' ∉ v.text) :
    (run lines t visits).1.Legible := by
  refine (run_induction lines (P := fun t => t.WellTyped ∧ t.Legible) ⟨ht, hlegible⟩ ?_).2
  intro v hv s t₁ t₂ hread ⟨ht₁, hlegible₁⟩ happly
  exact ⟨(Statement.wellTyped_and_keeps_of_apply ht₁ happly).1,
    Statement.legible_of_apply ht₁ hlegible₁ (Statement.legible_of_read? hread (hlines v hv))
      happly⟩

end Visit

/-! ## The statements of a source are in one line each -/

/-- **A piece is in one line.** -/
theorem Piece.newline_not_mem_of_mem_cut {p : Piece} : ∀ {gs : List Glyph} {start depth : Nat},
    (∀ g ∈ gs, g.char = '\n' → g.quoted = false) → p ∈ cut start depth gs → '\n' ∉ p.text
  | [], _, _, _, hp => by
    rw [List.mem_singleton.mp hp]
    exact List.not_mem_nil
  | g :: gs, start, depth, h, hp => by
    obtain ⟨hg, hgs⟩ := List.forall_mem_cons.mp h
    rw [cut_cons] at hp
    split at hp
    · rcases List.mem_cons.mp hp with rfl | hp
      · exact List.not_mem_nil
      · exact newline_not_mem_of_mem_cut hgs hp
    · rename_i hends
      obtain ⟨text, rest, heq⟩ := exists_cut_eq_cons (start + g.char.utf8Size) (g.nest depth) gs
      have hrest : ∀ q ∈ (⟨_, text⟩ : Piece) :: rest, '\n' ∉ q.text := fun q hq =>
        newline_not_mem_of_mem_cut hgs (heq ▸ hq)
      rw [heq, List.modifyHead_cons] at hp
      rcases List.mem_cons.mp hp with rfl | hp
      · -- a newline would have ended the piece
        have hchar : g.char ≠ '\n' := fun hchar => hends (by
          rw [endsAt, Glyph.is_iff.mpr ⟨hg hchar, hchar⟩, Bool.true_or])
        exact List.not_mem_cons_of_ne_of_not_mem hchar.symm (hrest _ List.mem_cons_self)
      · exact hrest p (List.mem_cons_of_mem _ hp)

theorem Visit.newline_not_mem_of_mem_all {source : Text} {v : Visit}
    (hv : v ∈ Visit.all t source) : '\n' ∉ v.text := by
  rw [Segment.all_eq_flatMap] at hv
  obtain ⟨s, -, hs⟩ := List.mem_flatMap.mp hv
  obtain ⟨p, hp, hvisit⟩ := List.mem_filterMap.mp hs
  have hline := Piece.newline_not_mem_of_mem_cut
    (fun g hg hchar => Text.unquoted_of_newline hchar hg) hp
  cases hblank : Text.isBlankText p.text with
  | true =>
    rw [Piece.visit?_of_blank _ hblank] at hvisit
    cases hvisit
  | false =>
    rw [Piece.visit?_of_not_blank _ hblank] at hvisit
    obtain rfl := Option.some.inj hvisit
    exact fun hmem => hline (Text.mem_of_mem_trim hmem)

namespace Program

variable {source : Text} {sourceId : Nat} {p : Program} {f : Forest}

/-- No block has a variable or a call before the first statement. -/
theorem legible_classified (hf : place source = .ok f) : (classified source f).Legible := by
  intro id
  obtain ⟨e, -, hsound, -⟩ := place_eq_ok hf
  refine ⟨fun {k} v hv => ?_, fun c hc => ?_⟩
  · rw [scope_classified hf id] at hv
    cases k <;> exact absurd hv List.not_mem_nil
  · rw [(scope_and_calls_classified hf id).2] at hc
    exact absurd hc List.not_mem_nil

/-- **The variables and calls of a parsed program can be told from their texts.** -/
theorem legible_tree (hp : ofText source sourceId = .ok p) : p.tree.Legible := by
  obtain ⟨f, hf, htree⟩ := ofText_eq_ok hp
  rw [htree]
  exact Visit.legible_of_run _ (wellTyped_classified hf) (legible_classified hf)
    fun v hv => Visit.newline_not_mem_of_mem_all hv

end Program
end BraceTree
