import Mathlib.Data.List.Forall2
import BraceTree.Proofs.Diagnostic.Listed
import BraceTree.Proofs.Header.Readers
import BraceTree.Proofs.Statement.Displayed
import BraceTree.Proofs.Statement.Linewise
import BraceTree.Proofs.Statement.Successive
import BraceTree.Proofs.Value.Oversized

/-!
# Reckoning with an integer variable

An integer variable holds 64 bits, and lines below its declaration assign whole numbers to it, add
them and subtract them. What it holds in the end is what one gets by reckoning without any bound,
if one leaves out the lines whose number or whose result does not fit (`Row.reckon`), and those
lines are what is reported (`Row.skippedLines`). Three things have to agree for that: a literal that
is too large, an addition or subtraction that overflows, and the exact result. They do for one line
(`Binding.updated_of_digits`), since the operands are as exact as they are written. A line that is
refused leaves the tree as it was, so they do for any number of lines.

The lines have no braces in them, and each holds one statement: the source is all root, and its
statements are its lines.
-/

namespace BraceTree

open Literal (denoted sign InRange)

/-! ## Rows -/

/-- Blanks within a line. -/
def Text.Gap (t : Text) : Prop := Text.isBlankText t = true ∧ '\n' ∉ t

/-- A line below the declaration of a variable: blank, or an update by a whole number. -/
inductive Row where
  | blank
  | step (op : Operator) (negative : Bool) (digits : Text)

namespace Row

/-- The integer after a row, however large. -/
def next (n : Int) : Row → Int
  | blank => n
  | step .assign negative digits => denoted negative digits
  | step .add negative digits => n + denoted negative digits
  | step .subtract negative digits => n - denoted negative digits

/-- **The rows that are skipped**: those whose number or whose result has more than 64 bits. -/
def Skipped (n : Int) : Row → Prop
  | blank => False
  | step op negative digits =>
    ¬InRange (denoted negative digits) ∨ ¬InRange ((step op negative digits).next n)

instance (n : Int) : (r : Row) → Decidable (r.Skipped n)
  | blank => inferInstanceAs (Decidable False)
  | step _ _ _ => inferInstanceAs (Decidable (_ ∨ _))

/-- **What is left of an integer after some rows**, by exact arithmetic. -/
def reckon : (n : Int) → List Row → Int
  | n, [] => n
  | n, r :: rs => if r.Skipped n then reckon n rs else reckon (r.next n) rs

/-- The lines that are skipped on the way, given the line of the first row. -/
def skippedLines : (line : Nat) → (n : Int) → List Row → List Nat
  | _, _, [] => []
  | line, n, r :: rs =>
    if r.Skipped n then line :: skippedLines (line + 1) n rs
    else skippedLines (line + 1) (r.next n) rs

/-- **How a row is written**: ASCII digits, and blanks wherever they may stand. -/
inductive Written (name : Text) : Row → Text → Prop
  | blank {line : Text} (h : line.Gap) : Written name blank line
  | step (op : Operator) (negative : Bool) {digits pre a b post : Text} (hne : digits ≠ [])
      (hdigits : ∀ c ∈ digits, c.isDigit = true) (hpre : pre.Gap) (ha : a.Gap) (hb : b.Gap)
      (hpost : post.Gap) : Written name (step op negative digits)
        (pre ++ ((name ++ (a ++ (op.text.toList ++ (b ++ (sign negative ++ digits))))) ++ post))

end Row

/-- **How an integer variable is declared** with a whole number in ASCII digits. -/
inductive Variable.WrittenAs (name : Text) (negative : Bool) (digits : Text) : Text → Prop
  | intro {pre gap a b c d post : Text} (hname : Text.isVariableName name = true)
      (hne : digits ≠ []) (hdigits : ∀ c ∈ digits, c.isDigit = true) (hpre : pre.Gap)
      (hgap : gap.Gap) (hgapne : gap ≠ []) (ha : a.Gap) (hb : b.Gap) (hc : c.Gap) (hd : d.Gap)
      (hpost : post.Gap) : WrittenAs name negative digits
        (pre ++ (("var".toList ++ (gap ++ (name ++ (a ++ ':' :: (b ++ ("Integer".toList ++
          (c ++ '=' :: (d ++ (sign negative ++ digits))))))))) ++ post))

/-! ## What an update by a whole number does -/

namespace Literal

variable {negative : Bool} {digits : Text}

theorem fitsInteger_iff {n : Int} : fitsInteger n = true ↔ InRange n := by
  rw [fitsInteger, Bool.and_eq_true, decide_eq_true_iff, decide_eq_true_iff]
  exact Iff.rfl

/-- A sign and ASCII digits have no blanks around them and no structure. -/
theorem sealed_sign_append (hne : digits ≠ []) (hdigits : ∀ c ∈ digits, c.isDigit = true) :
    Text.Sealed [',', ':'] (sign negative ++ digits) := by
  obtain ⟨hplain, htext⟩ := plain_integer negative hne hdigits
  rw [← htext]
  exact hplain.sealed

/-- **A whole number is read for its value** if it fits, and is oversized if it does not. -/
theorem read_of_ascii (hne : digits ≠ []) (hdigits : ∀ c ∈ digits, c.isDigit = true) :
    (¬InRange (denoted negative digits) ∧ isOversized (sign negative ++ digits) = true) ∨
      ∃ m : Int64, m.toInt = denoted negative digits ∧
        Expression.ofText? (sign negative ++ digits) = some (.literal (.integer m)) := by
  have htrim := (@sealed_sign_append negative digits hne hdigits).tight.trim_eq
  have hnumeral : numeral? (Text.trim (sign negative ++ digits)) =
      some ⟨negative, digits, none⟩ := by
    rw [htrim]
    exact numeral?_eq_integer_iff.mpr ⟨rfl, hne, fun c hc => isDigit_of_ascii (hdigits c hc)⟩
  obtain ⟨hoversized, -, hread⟩ := read_of_numeral? hnumeral
  cases hvalue : integerValue? negative digits with
  | none =>
    have hnone : (integerValue? negative digits).isNone = true := by rw [hvalue]; rfl
    refine .inl ⟨?_, by rw [hoversized, hnone]⟩
    rcases isNone_integerValue?_iff.mp hnone with ⟨c, hc, hascii⟩ | hrange
    · exact absurd (hdigits c hc) (ne_true_of_eq_false hascii)
    · exact hrange
  | some m =>
    refine .inr ⟨m, (integerValue?_eq_some_iff_denoted.mp hvalue).2, ?_⟩
    rw [hread, hvalue]
    rfl

end Literal

namespace Binding

variable {x : Variable} {n : Int64} {op : Operator} {negative : Bool} {digits : Text}

/-- An addition or a subtraction gives the exact result if it fits, and overflows if it does not. -/
theorem combine_of_ne_assign (name : String) (hop : op ≠ .assign) {m : Int64}
    (hm : m.toInt = denoted negative digits) :
    (¬InRange ((Row.step op negative digits).next n.toInt) ∧
      combine .integer name op (.integer n) (.integer m) = .error (.overflow name op m)) ∨
    ∃ k : Int64, k.toInt = (Row.step op negative digits).next n.toInt ∧
      combine .integer name op (.integer n) (.integer m) = .ok (.integer k) := by
  have hcombine : combine .integer name op (.integer n) (.integer m) =
      if Literal.fitsInteger ((Row.step op negative digits).next n.toInt) then
        .ok (.integer (Int64.ofInt ((Row.step op negative digits).next n.toInt)))
      else .error (.overflow name op m) := by
    cases op with
    | assign => exact absurd rfl hop
    | add | subtract =>
      rw [Row.next, ← hm]
      rfl
  rw [hcombine]
  split
  · next hfits =>
    have hrange := Literal.fitsInteger_iff.mp hfits
    exact .inr ⟨_, Int64.toInt_ofInt_of_le hrange.1 (Int.lt_add_one_of_le hrange.2), rfl⟩
  · next hfits => exact .inl ⟨fun hrange => hfits (Literal.fitsInteger_iff.mpr hrange), rfl⟩

/-- An assignment is skipped if its number is oversized, and leaves the number if it is not. -/
theorem ofInitial_of_digits (name : String) (hne : digits ≠ [])
    (hdigits : ∀ c ∈ digits, c.isDigit = true) :
    (¬InRange (denoted negative digits) ∧
      ∃ p, ofInitial .integer name (sign negative ++ digits) = .error p ∧
        p.code = .typeMismatch) ∨
    ∃ k : Int64, k.toInt = denoted negative digits ∧
      ofInitial .integer name (sign negative ++ digits) = .ok (.value (.integer k)) := by
  rcases @Literal.read_of_ascii negative digits hne hdigits with
    ⟨hrange, hoversized⟩ | ⟨k, hk, hread⟩
  · obtain ⟨literal, name, herror⟩ := Literal.ofInitial_oversized_iff.mpr hoversized
    exact .inl ⟨hrange, _, herror, rfl⟩
  · refine .inr ⟨k, hk, ?_⟩
    rw [ofInitial, hread]
    rfl

/-- **An addition or a subtraction is skipped or exact.** -/
theorem compound_of_digits (name : String) (hop : op ≠ .assign) (hne : digits ≠ [])
    (hdigits : ∀ c ∈ digits, c.isDigit = true) :
    ((Row.step op negative digits).Skipped n.toInt ∧
      ∃ p, compound .integer name (.value (.integer n)) op (sign negative ++ digits) = .error p ∧
        p.code = .typeMismatch) ∨
    (¬(Row.step op negative digits).Skipped n.toInt ∧
      ∃ k : Int64, k.toInt = (Row.step op negative digits).next n.toInt ∧
        compound .integer name (.value (.integer n)) op (sign negative ++ digits) =
          .ok (.value (.integer k))) := by
  have hcombinable : isCombinable TypeName.integer.kind = true := rfl
  rw [compound, hcombinable]
  rcases @Literal.read_of_ascii negative digits hne hdigits with
    ⟨hrange, hoversized⟩ | ⟨m, hm, hread⟩
  · obtain ⟨literal, name, herror⟩ := Literal.readOperand_oversized_iff.mpr hoversized
    rw [herror]
    exact .inl ⟨.inl hrange, _, rfl, rfl⟩
  · have hoperand : readOperand name op (sign negative ++ digits) =
        .ok (.literal (.integer m)) := by rw [readOperand, hread]
    rw [hoperand]
    dsimp only [Bool.not_true]
    rcases combine_of_ne_assign name hop hm with ⟨hresult, herror⟩ | ⟨k, hk, hok⟩
    · rw [herror]
      exact .inl ⟨.inr hresult, _, rfl, rfl⟩
    · rw [hok]
      exact .inr ⟨fun hskip => hskip.elim (· (Literal.inRange_iff.mpr ⟨m, hm⟩))
        (· (Literal.inRange_iff.mpr ⟨k, hk⟩)), k, hk, rfl⟩

/-- **An update by a whole number is skipped or exact.** It is refused as a mismatch if the number
or the result does not fit, and otherwise leaves the exact result. -/
theorem updated_of_digits (htype : x.type = .integer) (hbinding : x.binding = .value (.integer n))
    (hne : digits ≠ []) (hdigits : ∀ c ∈ digits, c.isDigit = true) :
    ((Row.step op negative digits).Skipped n.toInt ∧
      ∃ p, updated x op (sign negative ++ digits) = .error p ∧ p.code = .typeMismatch) ∨
    (¬(Row.step op negative digits).Skipped n.toInt ∧
      ∃ k : Int64, k.toInt = (Row.step op negative digits).next n.toInt ∧
        updated x op (sign negative ++ digits) = .ok (.value (.integer k))) := by
  by_cases hop : op = .assign
  · subst hop
    rw [updated, htype]
    rcases @ofInitial_of_digits negative digits x.name hne hdigits with
      ⟨hrange, herror⟩ | ⟨k, hk, hok⟩
    · exact .inl ⟨.inl hrange, herror⟩
    · have hrange : InRange (denoted negative digits) := Literal.inRange_iff.mpr ⟨k, hk⟩
      exact .inr ⟨fun hskip => hskip.elim (· hrange) (· hrange), k, hk, hok⟩
  · rw [updated_eq_compound hop, htype, hbinding]
    exact compound_of_digits x.name hop hne hdigits

end Binding

/-! ## Reading a row -/

theorem Text.Gap.contained {t : Text} (h : t.Gap) : Contained t :=
  (Whole.of_isBlankText h.1 h.2 nofun : Whole [] t).toContained

namespace Statement

variable {t name rest : Text}

/-- A text whose first name is not followed by another one declares nothing. -/
theorem declaration?_of_splitName? (h : Call.splitName? t = some (name, rest))
    (hrest : (Text.trimStart rest).head?.any Char.isLower = false) : declaration? t = none := by
  have hnone : ∀ (word : String) (isMutable : Bool), Text.IsName word.toList →
      (Text.afterWord? word t).bind (declarationRest? isMutable) = none := by
    intro word isMutable hword
    rw [Text.afterWord?_eq]
    cases hdrop : Text.dropPrefix? word.toList t with
    | none => rfl
    | some behind =>
      rw [Option.bind_some]
      split
      · next hblank =>
        -- the word is the first name
        have hstop : behind.head?.any Text.isWord = false := by
          cases behind with
          | nil => rfl
          | cons c cs => exact (Text.not_word_of_isBlank hblank).2
        have hsplit := Call.splitName?_eq_some_iff.mpr
          ⟨Text.dropPrefix?_eq_some hdrop, hword, hstop⟩
        obtain ⟨-, rfl⟩ := Prod.mk.inj (Option.some.inj (h.symm.trans hsplit))
        rw [Option.bind_some]
        cases hbehind : Text.trimStart rest with
        | nil => rfl
        | cons c cs =>
          rw [hbehind] at hrest
          rw [declarationRest?]
          exact if_neg (ne_true_of_eq_false hrest)
      · rfl
  rw [declaration?, hnone "var" true ⟨'v', _, rfl, by decide, by decide⟩,
    hnone "val" false ⟨'v', _, rfl, by decide, by decide⟩]
  rfl

/-- **A name, an operator and a tight operand are an update.** -/
theorem read?_update (hname : Text.IsName name) (op : Operator) {a b operand : Text}
    (ha : Text.isBlankText a = true) (hb : Text.isBlankText b = true) (htight : operand.Tight)
    (hline : '\n' ∉ operand) (hequals : operand.head? ≠ some '=') :
    read? (name ++ (a ++ (op.text.toList ++ (b ++ operand)))) =
      some (.update (String.ofList name) op operand) := by
  have hstop : (a ++ (op.text.toList ++ (b ++ operand))).head?.any Text.isWord = false := by
    cases a with
    | nil => cases op <;> rfl
    | cons c cs => exact (Text.not_word_of_isBlank (List.all_eq_true.mp ha c (by simp))).2
  have hsplit := Call.splitName?_eq_some_iff.mpr ⟨rfl, hname, hstop⟩
  have htrim : Text.trimStart (a ++ (op.text.toList ++ (b ++ operand))) =
      op.text.toList ++ (b ++ operand) := by
    rw [Text.trimStart_append_of_isBlankText ha]
    cases op <;> rfl
  have hoperator : operator? (op.text.toList ++ (b ++ operand)) = some (op, b ++ operand) := by
    cases op <;> rfl
  have hdeclaration := declaration?_of_splitName? hsplit (by
    rw [htrim]
    cases op <;> rfl)
  have hupdate : update? (name ++ (a ++ (op.text.toList ++ (b ++ operand)))) =
      some (.update (String.ofList name) op operand) := by
    rw [update?, hsplit]
    dsimp only
    rw [htrim, hoperator]
    dsimp only
    rw [rightSide?_append hb htight hline]
    exact if_neg fun h => hequals h.2
  rw [read?, hdeclaration, hupdate]
  rfl

end Statement

namespace Visit

/-- A blank line has no statement. -/
theorem ofText_of_gap (block : BlockId) (start : Nat) {line : Text} (h : line.Gap) :
    ofText block start line = [] := by
  have hblank : (⟨start, line⟩ : Piece).visit? block = none := Piece.visit?_of_blank block h.1
  rw [ofText, Piece.cut_of_calm h.contained.calm, Text.chars_glyphs,
    List.filterMap_cons_none hblank]
  rfl

/-- A line behind a newline comes with its own statements. -/
theorem ofText_newline (block : BlockId) (start : Nat) (t : Text) :
    ofText block start ('\n' :: t) = ofText block (start + 1) t := by
  have hnil : ofText block start [] = [] := ofText_of_gap block start ⟨rfl, List.not_mem_nil⟩
  have happend := ofText_append_newline block start [] t
  rw [hnil] at happend
  exact happend

/-- **The statements of lines** are those of the first one and those of the lines below it. -/
theorem ofText_append_lines (block : BlockId) (start : Nat) (first : Text) (lines : List Text) :
    ofText block start (first ++ lines.flatMap ('\n' :: ·)) =
      ofText block start first ++
        ofText block (start + first.bytes) (lines.flatMap ('\n' :: ·)) := by
  cases lines with
  | nil =>
    rw [List.flatMap_nil, List.append_nil, ofText_of_gap block (start + first.bytes)
      ⟨rfl, List.not_mem_nil⟩, List.append_nil]
  | cons line lines =>
    rw [List.flatMap_cons, List.cons_append, ofText_append_newline, ofText_newline]

end Visit

/-! ## Carrying rows out -/

/-- **The root has an integer variable that may be assigned again**, and it holds `n`. -/
structure BlockTree.Counts (t : BlockTree) (name : String) (n : Int) : Prop where
  filed : t.Filed
  holds : ∃ (x : Variable) (m : Int64), t.lookup? BlockTree.root name = some (BlockTree.root, x) ∧
    x.isMutable = true ∧ x.type = .integer ∧ x.binding = .value (.integer m) ∧ m.toInt = n

open BlockTree (Counts)

variable {lines : List Line} {t : BlockTree} {name : Text} {n : Int} {r : Row} {line : Text}

/-- **A line that holds one statement**, with blanks around it. -/
structure Text.HoldsOne (line : Text) (s : Statement) (pre core : Text) : Prop where
  pre_gap : pre.Gap
  line_eq : ∃ post : Text, post.Gap ∧ line = pre ++ (core ++ post)
  tight : core.Tight
  contained : core.Contained
  read : Statement.read? core = some s

namespace Text.HoldsOne

variable {s : Statement} {pre core : Text}

theorem contained_line (h : line.HoldsOne s pre core) : line.Contained := by
  obtain ⟨post, hpost, rfl⟩ := h.line_eq
  exact h.pre_gap.contained.append (h.contained.append hpost.contained)

/-- That statement is found in it. -/
theorem ofText (h : line.HoldsOne s pre core) (block : BlockId) (start : Nat) :
    Visit.ofText block start line =
      [⟨block, ⟨start + pre.bytes, start + pre.bytes + core.bytes⟩, core⟩] := by
  have hline := h.contained_line
  obtain ⟨post, hpost, rfl⟩ := h.line_eq
  exact Piece.visits_of_contained block start h.pre_gap.1 h.tight hpost.1 hline

end Text.HoldsOne

/-- **The line of a step holds that update.** -/
theorem Row.holdsOne_of_written {op : Operator} {negative : Bool} {digits : Text}
    (hname : Text.isVariableName name = true)
    (h : (Row.step op negative digits).Written name line) :
    digits ≠ [] ∧ (∀ c ∈ digits, c.isDigit = true) ∧ ∃ pre core,
      line.HoldsOne (.update (String.ofList name) op (sign negative ++ digits)) pre core := by
  cases h with
  | @step _ _ _ pre a b post hne hdigits hpre ha hb hpost =>
    have hsealed := @Literal.sealed_sign_append negative digits hne hdigits
    have hisName := Text.isName_of_isVariableName hname
    have hequals : (sign negative ++ digits).head? ≠ some '=' := fun h => by
      obtain ⟨d, ds, rfl⟩ := List.exists_cons_of_ne_nil hne
      cases negative with
      | true =>
        have hminus : '-' = '=' := Option.some.inj h
        exact absurd hminus (by decide)
      | false =>
        obtain rfl : d = '=' := Option.some.inj h
        exact absurd (hdigits '=' List.mem_cons_self) (by decide)
    have hop : Text.Contained op.text.toList := by cases op <;> exact .of_inert (by decide)
    refine ⟨hne, hdigits, pre, _, hpre, ⟨post, hpost, rfl⟩, ?_, ?_, ?_⟩
    · have := hisName.tight_append (a ++ (op.text.toList ++ b)) hsealed.tight
      simpa using this
    · exact (Text.contained_of_isVariableName hname).append (ha.contained.append
        (hop.append (hb.contained.append hsealed.toContained)))
    · exact Statement.read?_update hisName op ha.1 hb.1 hsealed.tight hsealed.newline_not_mem
        hequals

/-- A row has no structure. -/
theorem Row.contained_of_written (hname : Text.isVariableName name = true)
    (h : r.Written name line) : line.Contained := by
  cases r with
  | blank =>
    cases h with
    | blank hgap => exact hgap.contained
  | step op negative digits =>
    obtain ⟨-, -, pre, core, hline⟩ := holdsOne_of_written hname h
    exact hline.contained_line

/-- **The line of a declaration holds it.** -/
theorem Variable.holdsOne_of_writtenAs {negative : Bool} {digits : Text}
    (h : Variable.WrittenAs name negative digits line) :
    Text.isVariableName name = true ∧ digits ≠ [] ∧ (∀ c ∈ digits, c.isDigit = true) ∧
      ∃ pre core, line.HoldsOne (.declaration true (String.ofList name) "Integer".toList
        (sign negative ++ digits)) pre core := by
  cases h with
  | @intro pre gap a b c d post hname hne hdigits hpre hgap hgapne ha hb hc hd hpost =>
    have hsealed := @Literal.sealed_sign_append negative digits hne hdigits
    have htype : Text.Tight "Integer".toList := .of_all (by decide) (by decide)
    have hrest : Text.Tight (name ++ (a ++ ':' :: (b ++ ("Integer".toList ++ (c ++ '=' ::
        (d ++ (sign negative ++ digits))))))) := by
      have := (Text.isName_of_isVariableName hname).tight_append
        (a ++ ':' :: (b ++ ("Integer".toList ++ (c ++ '=' :: d)))) hsealed.tight
      simpa using this
    have hchar : ∀ {e : Char} {t : Text}, Text.isInert e = true → t.Contained →
        Text.Contained (e :: t) := fun he ht => (Text.Contained.of_inert_char he).append ht
    refine ⟨hname, hne, hdigits, pre, _, hpre, ⟨post, hpost, rfl⟩, ?_, ?_, ?_⟩
    · have hvar : Text.Tight "var".toList := .of_all (by decide) (by decide)
      exact hvar.around gap hrest
    · exact (Text.Contained.of_inert (by decide)).append (hgap.contained.append
        ((Text.contained_of_isVariableName hname).append (ha.contained.append
          (hchar (by decide) (hb.contained.append ((Text.Contained.of_inert (by decide)).append
            (hc.contained.append (hchar (by decide)
              (hd.contained.append hsealed.toContained)))))))))
    · have hdeclaration : Statement.declarationRest? true _ = some _ :=
        Statement.declarationRest?_append true hname htype (by decide) (by decide) hsealed.tight
          hsealed.newline_not_mem ha.1 hb.1 hc.1 hd.1
      rw [Statement.read?, Statement.declaration?, Text.afterWord?_append "var" hgap.1 hgapne hrest,
        Option.bind_some, hdeclaration]
      rfl

/-- **A declaration with a whole number that fits** is where reckoning starts. -/
theorem Visit.exists_counts (lines : List Line) {negative : Bool} {digits core : Text}
    (ht : t.Filed) (hroot : BlockTree.root < t.size)
    (hfree : (t.get BlockTree.root).scope.toList = []) {declared : String}
    (hread : Statement.read? core = some
      (.declaration true declared "Integer".toList (sign negative ++ digits)))
    (hne : digits ≠ []) (hdigits : ∀ c ∈ digits, c.isDigit = true)
    (hfits : InRange (denoted negative digits)) (span : Span) :
    ∃ t', Visit.apply lines t ⟨BlockTree.root, span, core⟩ = .ok t' ∧
      t'.Counts declared (denoted negative digits) := by
  obtain ⟨hrange, -⟩ | ⟨m, hm, hinitial⟩ :=
    @Binding.ofInitial_of_digits negative digits declared hne hdigits
  · exact absurd hfits hrange
  have hdeclare : ∃ t', t.declare? BlockTree.root
      ⟨declared, true, .integer, .value (.integer m), span⟩ = some t' := by
    refine Option.ne_none_iff_exists'.mp fun hnone => ?_
    obtain ⟨w, hw, -⟩ := Scope.declare?_eq_none_iff.mp (Option.map_eq_none_iff.mp hnone)
    rw [hfree] at hw
    exact List.not_mem_nil hw
  obtain ⟨t', ht'⟩ := hdeclare
  refine ⟨t', ?_, (ht.edit? (e := .declare _ _) ht').1, _, m,
    (ht.declares hroot ht').here _ (.here _), rfl, rfl, rfl, hm⟩
  have htype : TypeName.ofText? "Integer".toList = some .integer := by decide
  unfold Visit.apply
  dsimp only
  rw [hread]
  dsimp only
  rw [Statement.apply, Statement.declareVariable, htype]
  dsimp only
  rw [hinitial]
  dsimp only
  rw [ht']

/-- **A row is carried out or skipped**, and reported on its line if it is skipped. -/
theorem Row.run_of_written (lines : List Line) (hname : Text.isVariableName name = true)
    (hr : r.Written name line) (ht : t.Counts (String.ofList name) n) (start : Nat) :
    (¬r.Skipped n ∧ ∃ t', Visit.run lines t (Visit.ofText BlockTree.root start line) = (t', []) ∧
      t'.Counts (String.ofList name) (r.next n)) ∨
    (r.Skipped n ∧ ∃ f pre rest, line = pre ++ rest ∧
      Visit.run lines t (Visit.ofText BlockTree.root start line) = (t, [f]) ∧
      f.problem.code = .typeMismatch ∧ f.span.start = start + pre.bytes) := by
  cases r with
  | blank =>
    cases hr with
    | blank hgap =>
      rw [Visit.ofText_of_gap _ start hgap]
      exact .inl ⟨id, t, rfl, ht⟩
  | step op negative digits =>
    obtain ⟨hne, hdigits, pre, core, hline⟩ := Row.holdsOne_of_written hname hr
    obtain ⟨post, -, hsplit⟩ := hline.line_eq
    obtain ⟨x, m, hlookup, hmutable, htype, hbinding, rfl⟩ := ht.holds
    rw [hline.ofText]
    have hread : Statement.read? (Visit.mk BlockTree.root
        ⟨start + pre.bytes, start + pre.bytes + core.bytes⟩ core).text =
          some (.update (String.ofList name) op (sign negative ++ digits)) := hline.read
    rcases Binding.updated_of_digits htype hbinding hne hdigits with
      ⟨hskipped, problem, herror, hcode⟩ | ⟨hcarried, k, hk, hok⟩
    · refine .inr ⟨hskipped,
        ⟨problem, ⟨start + pre.bytes, start + pre.bytes + core.bytes⟩⟩, pre, core ++ post, hsplit,
        ?_, hcode, rfl⟩
      rw [Visit.run, Visit.apply_update lines t hread, Statement.updateVariable, hlookup]
      dsimp only
      rw [if_pos hmutable, herror]
      rfl
    · obtain ⟨t', happly, hfiled, hrebinds, -⟩ :=
        Visit.exists_rebinds lines ht.filed hlookup hmutable hread hok
      refine .inl ⟨hcarried, t', ?_, hfiled, { x with binding := .value (.integer k) }, k,
        hrebinds.here _ _ hlookup, hmutable, htype, rfl, hk⟩
      rw [Visit.run, happly]
      rfl

/-- **Rows are reckoned with one by one**: what is left of the variable, and what is reported. -/
theorem Row.run_rows {source : Text} (hname : Text.isVariableName name = true) :
    ∀ {rows : List Row} {texts : List Text}, List.Forall₂ (Row.Written name) rows texts →
      ∀ {above : Text} {t : BlockTree} {n : Int}, t.Counts (String.ofList name) n →
      source = above ++ texts.flatMap ('\n' :: ·) →
      ∃ t' found, Visit.run (Line.ofSource source) t
          (Visit.ofText BlockTree.root above.bytes (texts.flatMap ('\n' :: ·))) = (t', found) ∧
        t'.Counts (String.ofList name) (Row.reckon n rows) ∧
        found.map (fun f => (f.problem.code, Line.indexAt (Line.ofSource source) f.span.start)) =
          (Row.skippedLines (above.count '\n' + 1) n rows).map (.typeMismatch, ·)
  | [], _, .nil, above, t, n, ht, _ => by
    refine ⟨t, [], ?_, ht, rfl⟩
    rw [List.flatMap_nil, Visit.ofText_of_gap _ _ ⟨rfl, by simp⟩]
    rfl
  | r :: rows, text :: texts, .cons hr hrows, above, t, n, ht, hsource => by
    have hcontained := r.contained_of_written hname hr
    have hbytes : above.bytes + 1 + text.bytes = Text.bytes (above ++ '\n' :: text) := by
      rw [Text.bytes_append, Text.bytes_cons, ← Nat.add_assoc]
      rfl
    have hcount : (above ++ '\n' :: text).count '\n' = above.count '\n' + 1 := by
      rw [List.count_append, List.count_cons_self,
        List.count_eq_zero.mpr hcontained.newline_not_mem]
    have hsource' : source = (above ++ '\n' :: text) ++ texts.flatMap ('\n' :: ·) := by
      rw [hsource, List.flatMap_cons, List.append_assoc]
    have hvisits : Visit.ofText BlockTree.root above.bytes ((text :: texts).flatMap ('\n' :: ·)) =
        Visit.ofText BlockTree.root (above.bytes + 1) text ++
          Visit.ofText BlockTree.root (Text.bytes (above ++ '\n' :: text))
            (texts.flatMap ('\n' :: ·)) := by
      rw [List.flatMap_cons, List.cons_append, Visit.ofText_newline, Visit.ofText_append_lines,
        hbytes]
    rw [hvisits, Visit.run_append, Row.reckon, Row.skippedLines]
    rcases Row.run_of_written (Line.ofSource source) hname hr ht (above.bytes + 1) with
      ⟨hcarried, t₁, hrun, ht₁⟩ | ⟨hskipped, f, pre, rest, rfl, hrun, hcode, hstart⟩
    · obtain ⟨t', found, hruns, ht', hfound⟩ := run_rows hname hrows ht₁ hsource'
      rw [hrun, if_neg hcarried, if_neg hcarried]
      rw [hcount] at hfound
      exact ⟨t', found, by rw [hruns, List.nil_append], ht', hfound⟩
    · obtain ⟨t', found, hruns, ht', hfound⟩ := run_rows hname hrows ht hsource'
      rw [hrun, if_pos hskipped, if_pos hskipped]
      rw [hcount] at hfound
      have hline : Line.indexAt (Line.ofSource source) f.span.start = above.count '\n' + 1 := by
        have hat : f.span.start = Text.bytes (above ++ '\n' :: pre) := by
          rw [hstart, Text.bytes_append, Text.bytes_cons, ← Nat.add_assoc]
          rfl
        have hsplit : source = (above ++ '\n' :: pre) ++ (rest ++ texts.flatMap ('\n' :: ·)) := by
          rw [hsource']
          simp only [List.append_assoc, List.cons_append]
        have hpre : '\n' ∉ pre := fun hmem =>
          hcontained.newline_not_mem (List.mem_append_left rest hmem)
        rw [hat, hsplit, Line.indexAt_ofSource, List.count_append, List.count_cons_self,
          List.count_eq_zero.mpr hpre]
      refine ⟨t', f :: found, by rw [hruns]; rfl, ht', ?_⟩
      rw [List.map_cons, List.map_cons, hfound, hcode, hline]

/-! ## Sources of rows -/

namespace Text

/-- Lines with newlines between them are the first one and newlines with the others behind them. -/
theorem intercalate_lines (first : Text) (texts : List Text) :
    (['\n'] : Text).intercalate (first :: texts) = first ++ texts.flatMap ('\n' :: ·) := by
  induction texts generalizing first with
  | nil => rw [List.intercalate_singleton, List.flatMap_nil, List.append_nil]
  | cons t texts ih =>
    rw [List.intercalate_cons_cons, ih, List.flatMap_cons, List.append_assoc]
    rfl

/-- Lines without structure make a source without structural braces. -/
theorem braceless_of_lines {first : Text} {texts : List Text}
    (h : ∀ t ∈ first :: texts, t.Contained) :
    ∀ g ∈ glyphs (first ++ texts.flatMap ('\n' :: ·)), g.is '{' = false ∧ g.is '}' = false := by
  induction texts generalizing first with
  | nil =>
    rw [List.flatMap_nil, List.append_nil]
    exact (h first List.mem_cons_self).braceless
  | cons t texts ih =>
    obtain ⟨hfirst, htexts⟩ := List.forall_mem_cons.mp h
    intro g hg
    rw [List.flatMap_cons, List.cons_append, glyphs, glyphsFrom_append_newline] at hg
    rcases List.mem_append.mp hg with hg | hg
    · exact hfirst.braceless g hg
    · rcases List.mem_cons.mp hg with rfl | hg
      · exact ⟨rfl, rfl⟩
      · exact ih htexts g hg

end Text

namespace Program

/-- What is wrong with the statements of a source without braces is listed in their order. -/
theorem diagnostics_of_braceless {source : Text} (h : Brace.ofSource source = [])
    {sourceId : Nat} {p : Program} (hp : ofText source sourceId = .ok p) :
    p.diagnostics = (Visit.run (Line.ofSource source) (bare source)
      (Visit.ofText BlockTree.root 0 source)).2.map
        (Diagnostic.ofFinding (Line.ofSource source) sourceId) := by
  obtain ⟨hplace, hclassified, hall, q, hq, -, hdiagnostics⟩ := parse_of_braceless h sourceId
  obtain rfl : q = p := Except.ok.inj (hq.symm.trans hp)
  have hordered := Visit.all_ordered (headed_classified hplace).1
  rw [hclassified, hall] at hordered
  rw [hdiagnostics, ← Visit.ofSpan_source]
  have hspans : ((Visit.ofSpan source BlockTree.root ⟨0, source.bytes⟩).map (·.span)).Pairwise
      fun s s' => s.start < s'.start :=
    List.pairwise_map.mpr (hordered.apart.imp_of_mem fun {v w} hv hw hvw =>
      Nat.lt_of_lt_of_le (hordered.inside v hv).2.1 hvw)
  have hfound := hspans.sublist (Visit.spans_run (Line.ofSource source) _ (bare source))
  refine List.mergeSort_of_pairwise (List.pairwise_map.mpr ?_)
  exact (List.pairwise_map.mp hfound).imp fun hlt => Diagnostic.precedes_iff.mpr (.inl hlt)

variable {negative : Bool} {digits first : Text} {rows : List Row} {texts : List Text}

/-- **An integer variable is reckoned with exactly, but for the lines that are skipped.** A source
declares it with a whole number that fits, and the lines below assign whole numbers to it, add them
and subtract them. It is parsed, and the variable is then what exact arithmetic leaves of it without
the lines whose number or whose result has more than 64 bits. Each of these lines is reported once,
as a type mismatch, and nothing else is. -/
theorem reckoned_of_rows (hfirst : Variable.WrittenAs name negative digits first)
    (hfits : InRange (denoted negative digits)) (hrows : List.Forall₂ (Row.Written name) rows texts)
    (sourceId : Nat) : ∃ (p : Program) (x : Variable) (m : Int64),
      ofText ((['\n'] : Text).intercalate (first :: texts)) sourceId = .ok p ∧
      p.tree.lookup? BlockTree.root (String.ofList name) = some (BlockTree.root, x) ∧
      x.isMutable = true ∧ x.type = .integer ∧ x.binding = .value (.integer m) ∧
      m.toInt = Row.reckon (denoted negative digits) rows ∧
      p.diagnostics.map (fun d => (d.code, d.line)) =
        (Row.skippedLines 1 (denoted negative digits) rows).map (.typeMismatch, ·) := by
  obtain ⟨hname, hne, hdigits, pre, core, hline⟩ := Variable.holdsOne_of_writtenAs hfirst
  rw [Text.intercalate_lines]
  generalize hsource : first ++ texts.flatMap ('\n' :: ·) = source
  have hwritten : List.Forall₂ (fun t r => Text.Contained t ∧ Row.Written name r t) texts rows :=
    (hrows.imp fun r t hr => ⟨r.contained_of_written hname hr, hr⟩).flip
  have hcontained : ∀ t ∈ first :: texts, t.Contained :=
    List.forall_mem_cons.mpr
      ⟨hline.contained_line, ((List.forall₂_and_left texts rows).mp hwritten).1⟩
  have hbraces : Brace.ofSource source = [] :=
    Brace.ofGlyphs_eq_nil (hsource ▸ Text.braceless_of_lines hcontained) 0
  obtain ⟨hplace, hclassified, -, p, hp, htree, -⟩ := parse_of_braceless hbraces sourceId
  have hdiagnostics := diagnostics_of_braceless hbraces hp
  rw [Visit.ofSpan_source] at htree
  -- the declaration
  have hbare := hclassified ▸ filed_classified hplace
  obtain ⟨t₁, happly, ht₁⟩ := Visit.exists_counts (Line.ofSource source) hbare Nat.zero_lt_one rfl
    hline.read hne hdigits hfits ⟨0 + pre.bytes, 0 + pre.bytes + core.bytes⟩
  obtain ⟨t', found, hrun, ht', hfound⟩ := Row.run_rows hname hrows ht₁ hsource.symm
  have hzero : first.count '\n' = 0 :=
    List.count_eq_zero.mpr hline.contained_line.newline_not_mem
  have hall : Visit.run (Line.ofSource source) (bare source)
      (Visit.ofText BlockTree.root 0 source) = (t', found) := by
    rw [Nat.zero_add] at happly
    have hvisits := Visit.ofText_append_lines BlockTree.root 0 first texts
    rw [hsource, hline.ofText, Nat.zero_add, Nat.zero_add] at hvisits
    rw [hvisits, List.singleton_append, Visit.run, happly]
    exact hrun
  obtain ⟨x, m, hlookup, hmutable, htype, hbinding, hm⟩ := ht'.holds
  rw [hall] at htree hdiagnostics
  refine ⟨p, x, m, hp, htree ▸ hlookup, hmutable, htype, hbinding, hm, ?_⟩
  rw [hdiagnostics, List.map_map]
  rw [hzero] at hfound
  exact hfound

/-- At both limits: a sum that is too large, a difference from the least number, and a number that
is too large itself are skipped, with a blank line among them. -/
theorem reckoned_of_rows_at_limits : ∃ (p : Program) (x : Variable) (m : Int64),
    Variable.WrittenAs "n".toList false "9223372036854775806".toList
      "var n: Integer = 9223372036854775806".toList ∧
    InRange (denoted false "9223372036854775806".toList) ∧
    List.Forall₂ (Row.Written "n".toList)
      [.step .add false "1".toList, .step .add false "01".toList, .blank,
        .step .assign true "9223372036854775808".toList, .step .subtract false "1".toList,
        .step .assign false "9223372036854775808".toList, .step .subtract true "5".toList]
      ["n += 1".toList, "  n+=01".toList, "\t".toList, "n = -9223372036854775808".toList,
        "n -= 1".toList, "n = 9223372036854775808".toList, "n -= -5 ".toList] ∧
    ofText ("var n: Integer = 9223372036854775806\nn += 1\n  n+=01\n\t\n" ++
      "n = -9223372036854775808\nn -= 1\nn = 9223372036854775808\nn -= -5 ").toList 0 = .ok p ∧
    p.tree.lookup? BlockTree.root "n" = some (BlockTree.root, x) ∧ x.isMutable = true ∧
    x.type = .integer ∧ x.binding = .value (.integer m) ∧ m.toInt = -9223372036854775803 ∧
    p.diagnostics.map (fun d => (d.code, d.line)) =
      [(.typeMismatch, 2), (.typeMismatch, 5), (.typeMismatch, 6)] := by
  have hempty : Text.Gap [] := ⟨rfl, List.not_mem_nil⟩
  have hblank : Text.Gap [' '] := ⟨rfl, by decide⟩
  have hdigits : ∀ {digits : Text}, digits.all Char.isDigit = true →
      ∀ c ∈ digits, c.isDigit = true := fun h => List.all_eq_true.mp h
  have hfirst : Variable.WrittenAs "n".toList false "9223372036854775806".toList
      "var n: Integer = 9223372036854775806".toList :=
    .intro rfl (by decide) (hdigits rfl) hempty hblank (by decide) hempty hblank hblank hblank
      hempty
  have hrows : List.Forall₂ (Row.Written "n".toList)
      [.step .add false "1".toList, .step .add false "01".toList, .blank,
        .step .assign true "9223372036854775808".toList, .step .subtract false "1".toList,
        .step .assign false "9223372036854775808".toList, .step .subtract true "5".toList]
      ["n += 1".toList, "  n+=01".toList, "\t".toList, "n = -9223372036854775808".toList,
        "n -= 1".toList, "n = 9223372036854775808".toList, "n -= -5 ".toList] :=
    .cons (.step .add false (by decide) (hdigits rfl) hempty hblank hblank hempty) <|
    .cons (@Row.Written.step _ .add false "01".toList [' ', ' '] [] [] [] (by decide) (hdigits rfl)
      ⟨rfl, by decide⟩ hempty hempty hempty) <|
    .cons (.blank ⟨rfl, by decide⟩) <|
    .cons (.step .assign true (by decide) (hdigits rfl) hempty hblank hblank hempty) <|
    .cons (.step .subtract false (by decide) (hdigits rfl) hempty hblank hblank hempty) <|
    .cons (.step .assign false (by decide) (hdigits rfl) hempty hblank hblank hempty) <|
    .cons (.step .subtract true (by decide) (hdigits rfl) hempty hblank hblank hblank) .nil
  have hfits : InRange (denoted false "9223372036854775806".toList) := by decide +kernel
  obtain ⟨p, x, m, hp, hlookup, hmutable, htype, hbinding, hm, hlisted⟩ :=
    reckoned_of_rows hfirst hfits hrows 0
  have hsource : (['\n'] : Text).intercalate ["var n: Integer = 9223372036854775806".toList,
      "n += 1".toList, "  n+=01".toList, "\t".toList, "n = -9223372036854775808".toList,
      "n -= 1".toList, "n = 9223372036854775808".toList, "n -= -5 ".toList] =
      ("var n: Integer = 9223372036854775806\nn += 1\n  n+=01\n\t\n" ++
        "n = -9223372036854775808\nn -= 1\nn = 9223372036854775808\nn -= -5 ").toList := by
    decide +kernel
  rw [hsource] at hp
  refine ⟨p, x, m, hfirst, hfits, hrows, hp, hlookup, hmutable, htype, hbinding, ?_, ?_⟩
  · exact hm.trans (by decide +kernel)
  · rw [hlisted]
    decide +kernel

end Program
end BraceTree
