import BraceTree.Proofs.Header.Written
import BraceTree.Proofs.Text.Closing

/-!
# What is in the parentheses of a header

A condition and the clause of a loop are all that stands between the first parenthesis of the header
and its last character, which has to be a parenthesis too. Whether these two are each other's is not
looked at. They are if the parentheses between them are matched, and a literal between them ends
there. Otherwise a header that goes on behind its condition, and by chance ends in a parenthesis, is
still read, as in `if (x) f()`, whose condition is `x) f(`.
-/

namespace BraceTree

/-- **What a kind captures** from what is in the parentheses of its header. -/
inductive BlockKind.Captures (inner : Text) : BlockKind → Prop
  | ifBranch : Captures inner (.ifBranch (String.ofList (Text.trim inner)))
  | elifBranch : Captures inner (.elifBranch (String.ofList (Text.trim inner)))
  | whileLoop : Captures inner (.whileLoop (String.ofList (Text.trim inner)))
  | counted {i c s : Text} (h : Text.splitAt ';' inner = [i, c, s]) :
    Captures inner (.forLoop (.counted (String.ofList (Text.trim i)) (String.ofList (Text.trim c))
      (String.ofList (Text.trim s))))
  /-- Blanks are around the item, around `in` and around the collection. -/
  | each {a item b c collection d : Text} (hitem : Text.IsName item)
      (ha : Text.isBlankText a = true) (hb : Text.isBlankText b = true ∧ b ≠ [])
      (hc : Text.isBlankText c = true) (hd : Text.isBlankText d = true)
      (h : inner = a ++ (item ++ (b ++ ("in".toList ++ (c ++ (collection ++ d)))))) :
    Captures inner (.forLoop (.each (String.ofList item) (String.ofList collection)))

namespace Header

variable {t inner : Text}

/-- A keyword, blanks, and parentheses up to the end. -/
theorem exists_of_inParens? {keyword : Text}
    (h : (Text.dropPrefix? keyword t).bind inParens? = some inner) :
    ∃ gap, Text.isBlankText gap = true ∧ t = keyword ++ (gap ++ '(' :: (inner ++ [')'])) := by
  obtain ⟨behind, hbehind, hparens⟩ := Option.bind_eq_some_iff.mp h
  obtain ⟨opened, hopened, hclosed⟩ := Option.bind_eq_some_iff.mp hparens
  obtain ⟨gap, hgap, rfl⟩ := afterParen?_eq_some hopened
  exact ⟨gap, hgap, by rw [Text.dropPrefix?_eq_some hbehind, Text.dropLast?_eq_some hclosed]⟩

theorem exists_inParens?_of_condition? {keyword c : String} (h : condition? keyword t = some c) :
    ∃ inner, (Text.dropPrefix? keyword.toList t).bind inParens? = some inner ∧
      c = String.ofList (Text.trim inner) := by
  rw [condition?] at h
  split at h
  · cases h
  · rename_i inner hinner
    split at h
    · cases h
    · exact ⟨inner, hinner, (Option.some.inj h).symm⟩

theorem captures_of_counted? {clause : ForClause} (h : counted? t = some clause) :
    ∃ inner, (Text.dropPrefix? "for".toList t).bind inParens? = some inner ∧
      (BlockKind.forLoop clause).Captures inner := by
  rw [counted?] at h
  split at h
  · cases h
  · rename_i inner hinner
    split at h
    · rename_i i c s hcut
      obtain rfl := Option.some.inj h
      exact ⟨inner, hinner, .counted hcut⟩
    · cases h

theorem captures_of_each? {clause : ForClause} (h : each? t = some clause) :
    ∃ gap inner, Text.isBlankText gap = true ∧
      t = "for".toList ++ (gap ++ '(' :: (inner ++ [')'])) ∧
        (BlockKind.forLoop clause).Captures inner := by
  rw [each?_eq] at h
  obtain ⟨⟨item, rest⟩, hitem, hcollection⟩ := Option.bind_eq_some_iff.mp h
  obtain ⟨collection, hread, rfl⟩ := Option.map_eq_some_iff.mp hcollection
  obtain ⟨hname, gap, a, b, hgap, ha, hb, hne, rfl⟩ := inLoop?_eq_some_iff.mp hitem
  obtain ⟨-, c, d, hc, hd, rfl⟩ := collection?_eq_some hread
  refine ⟨gap, a ++ (item ++ (b ++ ("in".toList ++ (c ++ (collection ++ d))))), hgap, by simp, ?_⟩
  exact .each hname ha ⟨hb, hne⟩ hc hd rfl

/-- **What is in parentheses is captured**, from the first one up to the last character of the
header. The two are each other's, in a reading that passes over literals, exactly if the parentheses
between them are matched. -/
theorem read?_parenthesized {header : Text} {r : Reading} (hread : read? header = some r)
    (hkind : r.kind.keyword ∈ ["if", "elif", "while", "for"]) : ∃ gap inner,
      Text.isBlankText gap = true ∧
      Text.trim header = r.kind.keyword.toList ++ (gap ++ '(' :: (inner ++ [')'])) ∧
      r.kind.Captures inner ∧
      (Text.closesAtEnd '(' ')' 0 (Text.glyphs ('(' :: (inner ++ [')']))) = true ↔
        Text.Parenthesized inner) := by
  -- the last part holds of any text
  suffices hparts : ∃ gap inner, Text.isBlankText gap = true ∧
      Text.trim header = r.kind.keyword.toList ++ (gap ++ '(' :: (inner ++ [')'])) ∧
      r.kind.Captures inner by
    obtain ⟨gap, inner, hgap, hsplit, hcaptures⟩ := hparts
    exact ⟨gap, inner, hgap, hsplit, hcaptures, Text.closesAtEnd_iff_parenthesized⟩
  cases read?_eq_some_iff.mp hread with
  | plain => exact absurd hkind (by decide)
  | elseBranch => exact absurd hkind (by decide)
  | function h =>
    obtain ⟨s, hs⟩ := exists_signature_of_function? h
    rw [hs] at hkind
    replace hkind : "function" ∈ ["if", "elif", "while", "for"] := hkind
    exact absurd hkind (by decide)
  | ifBranch h =>
    obtain ⟨inner, hinner, rfl⟩ := exists_inParens?_of_condition? h
    obtain ⟨gap, hgap, hsplit⟩ := exists_of_inParens? hinner
    exact ⟨gap, inner, hgap, hsplit, .ifBranch⟩
  | elifBranch h =>
    obtain ⟨inner, hinner, rfl⟩ := exists_inParens?_of_condition? h
    obtain ⟨gap, hgap, hsplit⟩ := exists_of_inParens? hinner
    exact ⟨gap, inner, hgap, hsplit, .elifBranch⟩
  | whileLoop h =>
    obtain ⟨inner, hinner, rfl⟩ := exists_inParens?_of_condition? h
    obtain ⟨gap, hgap, hsplit⟩ := exists_of_inParens? hinner
    exact ⟨gap, inner, hgap, hsplit, .whileLoop⟩
  | counted h =>
    obtain ⟨inner, hinner, hcaptures⟩ := captures_of_counted? h
    obtain ⟨gap, hgap, hsplit⟩ := exists_of_inParens? hinner
    exact ⟨gap, inner, hgap, hsplit, hcaptures⟩
  | each hnot h => exact captures_of_each? h

/-- A call behind the condition is taken for a part of it. -/
theorem read?_parenthesized_of_call :
    (∃ r, read? "if (x) f()".toList = some r ∧ r.kind = .ifBranch "x) f(" ∧
      ∃ gap inner, Text.isBlankText gap = true ∧
        Text.trim "if (x) f()".toList = r.kind.keyword.toList ++ (gap ++ '(' :: (inner ++ [')'])) ∧
        r.kind.Captures inner ∧
        (Text.closesAtEnd '(' ')' 0 (Text.glyphs ('(' :: (inner ++ [')']))) = true ↔
          Text.Parenthesized inner)) ∧
      Text.closesAtEnd '(' ')' 0 (Text.glyphs "(x) f()".toList) = false :=
  ⟨⟨_, rfl, rfl, @read?_parenthesized "if (x) f()".toList _ rfl (by decide)⟩, by decide⟩

end Header
end BraceTree
