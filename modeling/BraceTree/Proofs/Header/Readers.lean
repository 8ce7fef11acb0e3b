import BraceTree.Proofs.Header.Captured
import BraceTree.Proofs.Text.Blanks

/-!
# The readers of headers

A header is tried as a function, then as `else`, then as one of three kinds with a condition, then
as one of two loops. The order only matters between the loops, since every other pair of readers is
told apart by the first letters. So what a header is read as can be said reader by reader
(`Header.Reads`), without the order in which they are tried.
-/

namespace BraceTree

/-! ## Names -/

/-- **A name**: a letter or an underscore, and word characters behind it. -/
def Text.IsName (t : Text) : Prop :=
  ∃ c cs, t = c :: cs ∧ Text.isNameHead c = true ∧ cs.all Text.isWord = true

/-- There is no blank before a name. -/
theorem Text.IsName.trimStart_append {name : Text} (h : IsName name) (more : Text) :
    trimStart (name ++ more) = name ++ more := by
  obtain ⟨c, cs, rfl, hc, -⟩ := h
  refine trimStart_cons_of_not_blank (Bool.eq_false_iff.mpr fun hblank => ?_) _
  exact Bool.false_ne_true ((not_word_of_isBlank hblank).1.symm.trans hc)

/-- **A name is as long as it can be.** -/
theorem Call.splitName?_eq_some_iff {t name rest : Text} : splitName? t = some (name, rest) ↔
    t = name ++ rest ∧ Text.IsName name ∧ rest.head?.any Text.isWord = false := by
  constructor
  · intro h
    cases t with
    | nil => cases h
    | cons d ds =>
      rw [splitName?] at h
      split at h
      · rename_i hd
        obtain ⟨rfl, rfl⟩ := Prod.mk.inj (Option.some.inj h)
        refine ⟨?_, ⟨d, _, rfl, hd, List.all_takeWhile⟩, ?_⟩
        · rw [List.cons_append, List.takeWhile_append_dropWhile]
        · cases hrest : ds.dropWhile Text.isWord with
          | nil => rfl
          | cons e es =>
            have he := List.head_dropWhile_not Text.isWord (l := ds)
              (by rw [hrest]; exact List.cons_ne_nil e es)
            simp only [hrest, List.head_cons] at he
            exact he
      · cases h
  · rintro ⟨rfl, ⟨c, cs, rfl, hc, hcs⟩, hrest⟩
    have hall : ∀ e ∈ cs, Text.isWord e = true := List.all_eq_true.mp hcs
    have hstop : rest.takeWhile Text.isWord = [] ∧ rest.dropWhile Text.isWord = rest := by
      cases rest with
      | nil => exact ⟨rfl, rfl⟩
      | cons e es =>
        have he : ¬ Text.isWord e = true := ne_true_of_eq_false hrest
        exact ⟨List.takeWhile_cons_of_neg he, List.dropWhile_cons_of_neg he⟩
    rw [List.cons_append, splitName?, if_pos hc, List.takeWhile_append_of_pos hall,
      List.dropWhile_append_of_pos hall, hstop.1, hstop.2, List.append_nil]

theorem Call.splitName?_append {name : Text} (h : Text.IsName name) {c : Char}
    (hc : Text.isWord c = false) (more : Text) :
    splitName? (name ++ c :: more) = some (name, c :: more) :=
  splitName?_eq_some_iff.mpr ⟨rfl, h, hc⟩

namespace Header

/-! ## What is read -/

/-- **What a header without blanks around it is read as.** -/
inductive Reads (t : Text) : Reading → Prop
  | plain (h : t = []) : Reads t ⟨.plain, none⟩
  | function {r : Reading} (h : function? t = some r) : Reads t r
  | elseBranch (h : t = "else".toList) : Reads t ⟨.elseBranch, none⟩
  | ifBranch {c : String} (h : condition? "if" t = some c) : Reads t ⟨.ifBranch c, none⟩
  | elifBranch {c : String} (h : condition? "elif" t = some c) : Reads t ⟨.elifBranch c, none⟩
  | whileLoop {c : String} (h : condition? "while" t = some c) : Reads t ⟨.whileLoop c, none⟩
  | counted {clause : ForClause} (h : counted? t = some clause) : Reads t ⟨.forLoop clause, none⟩
  /-- What could be a counted loop is no loop over a collection. -/
  | each {clause : ForClause} (hnot : counted? t = none) (h : each? t = some clause) :
    Reads t ⟨.forLoop clause, none⟩

variable {t rest inner : Text} {r : Reading}

/-! ## The words that headers start with -/

theorem exists_of_function? (h : function? t = some r) : ∃ rest, t = "function".toList ++ rest := by
  rw [function?] at h
  split at h
  · cases h
  · rename_i name rest hname
    obtain ⟨behind, hword, -⟩ := Option.bind_eq_some_iff.mp hname
    obtain ⟨gap, -, ht⟩ := afterWord?_eq_some hword
    exact ⟨gap ++ behind, ht⟩

theorem exists_of_condition? {keyword c : String} (h : condition? keyword t = some c) :
    ∃ rest, t = keyword.toList ++ rest := by
  rw [condition?] at h
  split at h
  · cases h
  · rename_i inner hinner
    obtain ⟨behind, hbehind, -⟩ := Option.bind_eq_some_iff.mp hinner
    exact ⟨behind, Text.dropPrefix?_eq_some hbehind⟩

theorem exists_of_counted? {clause : ForClause} (h : counted? t = some clause) :
    ∃ rest, t = "for".toList ++ rest := by
  rw [counted?] at h
  split at h
  · cases h
  · rename_i inner hinner
    obtain ⟨behind, hbehind, -⟩ := Option.bind_eq_some_iff.mp hinner
    exact ⟨behind, Text.dropPrefix?_eq_some hbehind⟩

theorem exists_of_each? {clause : ForClause} (h : each? t = some clause) :
    ∃ rest, t = "for".toList ++ rest := by
  rw [each?] at h
  split at h
  · cases h
  · rename_i item rest hitem
    obtain ⟨inner, hinner, -⟩ := Option.bind_eq_some_iff.mp hitem
    obtain ⟨behind, hbehind, -⟩ := Option.bind_eq_some_iff.mp hinner
    exact ⟨behind, Text.dropPrefix?_eq_some hbehind⟩

/-! ## What stands in the parentheses of a loop -/

/-- What stands in the parentheses behind a keyword. -/
theorem dropPrefix?_bind_inParens? (keyword inner : Text) :
    (Text.dropPrefix? keyword (keyword ++ (" (".toList ++ (inner ++ [')'])))).bind inParens? =
      some inner := by
  have hparen : afterParen? (" (".toList ++ (inner ++ [')'])) = some (inner ++ [')']) := rfl
  rw [Text.dropPrefix?_append, Option.bind_some, inParens?, hparen, Option.bind_some,
    Text.dropLast?_concat]

/-- **A counted loop has two semicolons in its parentheses**, and that is all there is to it. -/
theorem isSome_counted?_iff
    (h : (Text.dropPrefix? "for".toList t).bind inParens? = some inner) :
    (counted? t).isSome = true ↔ inner.count ';' = 2 := by
  have hlength := (Text.length_splitAt ';' inner).1
  rw [counted?, h]
  dsimp only
  split
  · rename_i i c s hcut
    rw [hcut, List.length_cons, List.length_cons, List.length_singleton] at hlength
    exact ⟨fun _ => by omega, fun _ => rfl⟩
  · rename_i hnot
    refine ⟨fun hsome => absurd hsome Bool.false_ne_true, fun htwo => ?_⟩
    rw [htwo] at hlength
    obtain ⟨i, c, s, hcut⟩ := List.length_eq_three.mp hlength
    exact absurd hcut (hnot i c s)

theorem exists_clause_of_counted? {clause : ForClause} (h : counted? t = some clause) :
    ∃ init condition step, clause = .counted init condition step := by
  rw [counted?] at h
  split at h
  · cases h
  · split at h
    · exact ⟨_, _, _, (Option.some.inj h).symm⟩
    · cases h

theorem exists_clause_of_each? {clause : ForClause} (h : each? t = some clause) :
    ∃ item collection, clause = .each item collection := by
  rw [each?] at h
  split at h
  · cases h
  · split at h
    · cases h
    · exact ⟨_, _, (Option.some.inj h).symm⟩

theorem exists_signature_of_function? (h : function? t = some r) : ∃ s, r.kind = .function s := by
  rw [function?] at h
  split at h
  · cases h
  · split at h
    · cases h
    · exact ⟨_, congrArg Reading.kind (Option.some.inj h).symm⟩

/-! ## What stands before the last parenthesis -/

section Functions

variable {α : Type} {tail : Text → Option α} {a : α}

/-- Nothing stands before a parenthesis if nothing can be read behind any. -/
theorem beforeParen?_eq_none_iff (hline : '\n' ∉ t) :
    beforeParen? tail t = none ↔ ∀ x y, t = x ++ ')' :: y → tail y = none := by
  induction t with
  | nil => exact ⟨fun _ x y h => absurd h.symm (by simp), fun _ => rfl⟩
  | cons c cs ih =>
    have hc : c ≠ '\n' := (List.ne_of_not_mem_cons hline).symm
    have ih := ih (List.not_mem_of_not_mem_cons hline)
    rw [beforeParen?, if_neg hc]
    constructor
    · intro h x y hsplit
      cases hcs : beforeParen? tail cs with
      | some p =>
        rw [hcs] at h
        cases h
      | none =>
        rw [hcs] at h
        rcases List.cons_eq_append_iff.mp hsplit with ⟨-, hy⟩ | ⟨x, -, hrest⟩
        · obtain ⟨rfl, rfl⟩ := List.cons.inj hy
          exact Option.map_eq_none_iff.mp h
        · exact ih.mp hcs x y hrest
    · intro h
      rw [ih.mpr fun x y hsplit => h (c :: x) y (by rw [hsplit]; rfl)]
      dsimp only
      split
      · rename_i hclose
        rw [h [] cs (by rw [hclose]; rfl)]
        rfl
      · rfl

/-- **The last parenthesis behind which something can be read** is the one that is taken. -/
theorem beforeParen?_eq_some_iff (hline : '\n' ∉ t) : beforeParen? tail t = some (inner, a) ↔
    ∃ rest, t = inner ++ ')' :: rest ∧ tail rest = some a ∧
      ∀ x y, rest = x ++ ')' :: y → tail y = none := by
  induction t generalizing inner with
  | nil => exact ⟨fun h => (by cases h), fun ⟨rest, h, _⟩ => absurd h.symm (by simp)⟩
  | cons c cs ih =>
    have hc : c ≠ '\n' := (List.ne_of_not_mem_cons hline).symm
    have hline := List.not_mem_of_not_mem_cons hline
    rw [beforeParen?, if_neg hc]
    cases hcs : beforeParen? tail cs with
    | some p =>
      obtain ⟨inner', a'⟩ := p
      dsimp only
      constructor
      · intro h
        obtain ⟨rfl, rfl⟩ := Prod.mk.inj (Option.some.inj h)
        obtain ⟨rest, rfl, htail, hlast⟩ := (ih hline).mp hcs
        exact ⟨rest, rfl, htail, hlast⟩
      · rintro ⟨rest, hsplit, htail, hlast⟩
        rcases List.cons_eq_append_iff.mp hsplit with ⟨rfl, hrest⟩ | ⟨inner, rfl, hrest⟩
        · -- a later parenthesis would have been taken
          obtain ⟨-, rfl⟩ := List.cons.inj hrest
          rw [(beforeParen?_eq_none_iff hline).mpr hlast] at hcs
          cases hcs
        · have h := (ih hline).mpr ⟨rest, hrest, htail, hlast⟩
          obtain ⟨rfl, rfl⟩ := Prod.mk.inj (Option.some.inj (hcs.symm.trans h))
          rfl
    | none =>
      have hnone := (beforeParen?_eq_none_iff hline).mp hcs
      dsimp only
      constructor
      · intro h
        split at h
        · rename_i hclose
          obtain ⟨b, hb, hpair⟩ := Option.map_eq_some_iff.mp h
          obtain ⟨rfl, rfl⟩ := Prod.mk.inj hpair
          exact ⟨cs, by rw [hclose]; rfl, hb, hnone⟩
        · cases h
      · rintro ⟨rest, hsplit, htail, -⟩
        rcases List.cons_eq_append_iff.mp hsplit with ⟨rfl, hrest⟩ | ⟨inner, rfl, hrest⟩
        · obtain ⟨rfl, rfl⟩ := List.cons.inj hrest
          rw [if_pos rfl, htail]
          rfl
        · rw [hnone inner rest hrest] at htail
          cases htail

end Functions

/-! ## What stands behind `in` -/

/-- The item of a loop over a collection, and what stands behind `in`. -/
def inLoop? (t : Text) : Option (Text × Text) :=
  (((Text.dropPrefix? "for".toList t).bind afterParen?).bind fun inner =>
    Call.splitName? (Text.trimStart inner)).bind fun p =>
      ((Text.afterWord? "" p.2).bind (Text.dropPrefix? "in".toList)).map (p.1, ·)

/-- A loop over a collection is read in two steps. -/
theorem each?_eq (t : Text) : each? t = (inLoop? t).bind fun p =>
    (collection? p.2).map fun c => .each (String.ofList p.1) (String.ofList c) := by
  rw [each?, inLoop?]
  cases ((Text.dropPrefix? "for".toList t).bind afterParen?).bind fun inner =>
    Call.splitName? (Text.trimStart inner) with
  | none => rfl
  | some p =>
    dsimp only
    rw [Option.bind_some]
    cases (Text.afterWord? "" p.2).bind (Text.dropPrefix? "in".toList) with
    | none => rfl
    | some behind =>
      rw [Option.bind_some, Option.map_some, Option.bind_some]
      cases collection? behind <;> rfl

theorem isSome_each? {item : Text} (h : inLoop? t = some (item, rest)) :
    (each? t).isSome = (collection? rest).isSome := by
  rw [each?_eq, h, Option.bind_some, Option.isSome_map]

/-- What stands behind `in` is what the readers come to. -/
theorem inLoop?_eq_some_iff {item : Text} : inLoop? t = some (item, rest) ↔
    Text.IsName item ∧ ∃ a b c : Text, Text.isBlankText a = true ∧ Text.isBlankText b = true ∧
    Text.isBlankText c = true ∧ c ≠ [] ∧
    t = "for".toList ++ (a ++ '(' :: (b ++ (item ++ (c ++ ("in".toList ++ rest))))) := by
  rw [inLoop?]
  constructor
  · intro h
    obtain ⟨⟨name, afterItem⟩, hitem, hbehind⟩ := Option.bind_eq_some_iff.mp h
    obtain ⟨behindWord, hin, hpair⟩ := Option.map_eq_some_iff.mp hbehind
    obtain ⟨rfl, rfl⟩ : name = item ∧ behindWord = rest := Prod.mk.inj hpair
    obtain ⟨inner, hinner, hname⟩ := Option.bind_eq_some_iff.mp hitem
    obtain ⟨behind, hfor, hparen⟩ := Option.bind_eq_some_iff.mp hinner
    obtain ⟨word, hword, hdrop⟩ := Option.bind_eq_some_iff.mp hin
    obtain ⟨a, ha, rfl⟩ := afterParen?_eq_some hparen
    obtain ⟨hstart, hisName, -⟩ := Call.splitName?_eq_some_iff.mp hname
    rw [Text.afterWord?_eq] at hword
    replace hword : (if afterItem.head?.any Text.isBlank then some (Text.trimStart afterItem)
      else none) = some word := hword
    split at hword
    · rename_i hblank
      refine ⟨hisName, a, inner.takeWhile Text.isBlank, afterItem.takeWhile Text.isBlank, ha,
        Text.isBlankText_takeWhile inner, Text.isBlankText_takeWhile afterItem, ?_, ?_⟩
      · obtain ⟨d, ds, rfl⟩ : ∃ d ds, afterItem = d :: ds := by
          cases afterItem with
          | nil => cases hblank
          | cons d ds => exact ⟨d, ds, rfl⟩
        have hd : Text.isBlank d = true := hblank
        rw [List.takeWhile_cons_of_pos hd]
        exact List.cons_ne_nil _ _
      · rw [Text.dropPrefix?_eq_some hfor, ← Text.dropPrefix?_eq_some hdrop,
          ← Option.some.inj hword, Text.trimStart, List.takeWhile_append_dropWhile, ← hstart,
          Text.trimStart, List.takeWhile_append_dropWhile]
    · cases hword
  · rintro ⟨hisName, a, b, c, ha, hb, hc, hne, rfl⟩
    obtain ⟨d, ds, rfl⟩ := List.exists_cons_of_ne_nil hne
    obtain ⟨hd, -⟩ := (Bool.and_eq_true _ _).mp hc
    have hsplit : Call.splitName?
        (Text.trimStart (b ++ (item ++ (d :: ds ++ ("in".toList ++ rest))))) =
          some (item, d :: ds ++ ("in".toList ++ rest)) := by
      rw [Text.trimStart_append_of_isBlankText hb, hisName.trimStart_append]
      exact Call.splitName?_append hisName (Text.not_word_of_isBlank hd).2 _
    have hword : Text.afterWord? "" (d :: ds ++ ("in".toList ++ rest)) =
        some ("in".toList ++ rest) := by
      rw [Text.afterWord?_eq]
      refine (if_pos hd).trans ?_
      rw [Text.trimStart_append_of_isBlankText hc]
      rfl
    have hparen : afterParen? (a ++ '(' :: (b ++ (item ++ (d :: ds ++ ("in".toList ++ rest))))) =
        some (b ++ (item ++ (d :: ds ++ ("in".toList ++ rest)))) := by
      rw [afterParen?, Text.trimStart_append_of_isBlankText ha]
      rfl
    rw [Text.dropPrefix?_append, Option.bind_some, hparen, Option.bind_some, hsplit,
      Option.bind_some, hword, Option.bind_some, Text.dropPrefix?_append]
    rfl

theorem isSome_beforeClose?_iff (hline : '\n' ∉ t) :
    (beforeClose? t).isSome = true ↔ ∃ m, t = m ++ [')'] ∧ m ≠ [] := by
  induction t with
  | nil => exact ⟨fun h => absurd h Bool.false_ne_true, fun ⟨m, h, _⟩ => absurd h.symm (by simp)⟩
  | cons c cs ih =>
    have hc : c ≠ '\n' := (List.ne_of_not_mem_cons hline).symm
    have ih := ih (List.not_mem_of_not_mem_cons hline)
    rw [beforeClose?, if_neg hc]
    split
    · rename_i hend
      refine ⟨fun _ => ⟨c :: cs.takeWhile Text.isBlank, ?_, List.cons_ne_nil _ _⟩, fun _ => rfl⟩
      rw [← hend, Text.trimStart, List.cons_append, List.takeWhile_append_dropWhile]
    · rename_i hmore
      rw [Option.isSome_map, ih]
      constructor
      · rintro ⟨m, rfl, -⟩
        exact ⟨c :: m, rfl, List.cons_ne_nil c m⟩
      · rintro ⟨m, hsplit, hne⟩
        obtain ⟨d, ds, rfl⟩ := List.exists_cons_of_ne_nil hne
        obtain ⟨rfl, rfl⟩ := List.cons.inj hsplit
        exact ⟨ds, rfl, fun hnil => hmore (by rw [hnil]; rfl)⟩

/-- **A collection may be anything**, if there is a blank before it and a parenthesis behind it. -/
theorem isSome_collection?_iff (hline : '\n' ∉ t) : (collection? t).isSome = true ↔
    ∃ b m, t = b :: (m ++ [')']) ∧ Text.isBlank b = true ∧ m ≠ [] := by
  induction t with
  | nil =>
    constructor
    · intro h
      exact absurd h Bool.false_ne_true
    · rintro ⟨b, m, h, -⟩
      cases h
  | cons c cs ih =>
    have hline := List.not_mem_of_not_mem_cons hline
    have hclose := isSome_beforeClose?_iff hline
    have ih := ih hline
    have hor : ∀ x y : Option Text, (x <|> y).isSome = (x.isSome || y.isSome) := fun x y => by
      cases x <;> rfl
    rw [collection?]
    split
    · rename_i hc
      rw [hor, Bool.or_eq_true, ih, hclose]
      constructor
      · rintro (⟨b, m, rfl, -, -⟩ | ⟨m, rfl, hne⟩)
        · exact ⟨c, b :: m, rfl, hc, List.cons_ne_nil b m⟩
        · exact ⟨c, m, rfl, hc, hne⟩
      · rintro ⟨b, m, hsplit, -, hne⟩
        exact .inr ⟨m, (List.cons.inj hsplit).2, hne⟩
    · rename_i hc
      constructor
      · intro h
        exact absurd h Bool.false_ne_true
      · rintro ⟨b, m, hsplit, hb, -⟩
        rw [← (List.cons.inj hsplit).1] at hb
        exact absurd hb hc

/-! ## Reading a header -/

/-- **A header is read as its readers say**, the order of them aside. -/
theorem read?_eq_some_iff {header : Text} :
    read? header = some r ↔ Reads (Text.trim header) r := by
  rw [read?]
  generalize Text.trim header = t
  constructor
  · intro h
    split at h
    · rename_i hempty
      obtain rfl := Option.some.inj h
      exact .plain (List.isEmpty_iff.mp hempty)
    rcases (Option.orElse_eq_some _ _ _).mp h with h | ⟨-, h⟩
    · exact .function h
    obtain ⟨kind, hkind, rfl⟩ := Option.map_eq_some_iff.mp h
    split at hkind
    · rename_i helse
      obtain rfl := Option.some.inj hkind
      exact .elseBranch helse
    rcases (Option.orElse_eq_some _ _ _).mp hkind with hif | ⟨-, hkind⟩
    · obtain ⟨c, hc, rfl⟩ := Option.map_eq_some_iff.mp hif
      exact .ifBranch hc
    rcases (Option.orElse_eq_some _ _ _).mp hkind with helif | ⟨-, hkind⟩
    · obtain ⟨c, hc, rfl⟩ := Option.map_eq_some_iff.mp helif
      exact .elifBranch hc
    rcases (Option.orElse_eq_some _ _ _).mp hkind with hwhile | ⟨-, hkind⟩
    · obtain ⟨c, hc, rfl⟩ := Option.map_eq_some_iff.mp hwhile
      exact .whileLoop hc
    rcases (Option.orElse_eq_some _ _ _).mp hkind with hcounted | ⟨hnone, heach⟩
    · obtain ⟨clause, hclause, rfl⟩ := Option.map_eq_some_iff.mp hcounted
      exact .counted hclause
    · obtain ⟨clause, hclause, rfl⟩ := Option.map_eq_some_iff.mp heach
      exact .each (Option.map_eq_none_iff.mp hnone) hclause
  · -- the readers before the one that succeeds fail at the first letters
    intro h
    cases h with
    | plain h => subst h; rfl
    | function h =>
      obtain ⟨rest, rfl⟩ := exists_of_function? h
      rw [h]
      rfl
    | elseBranch h => subst h; rfl
    | ifBranch h =>
      obtain ⟨rest, rfl⟩ := exists_of_condition? h
      rw [h]
      rfl
    | elifBranch h =>
      obtain ⟨rest, rfl⟩ := exists_of_condition? h
      rw [h]
      rfl
    | whileLoop h =>
      obtain ⟨rest, rfl⟩ := exists_of_condition? h
      rw [h]
      rfl
    | counted h =>
      obtain ⟨rest, rfl⟩ := exists_of_counted? h
      rw [h]
      rfl
    | each hnot h =>
      obtain ⟨rest, rfl⟩ := exists_of_each? h
      rw [hnot, h]
      rfl

end Header
end BraceTree
