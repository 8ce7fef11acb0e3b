import BraceTree.Proofs.Text.Closed

/-!
# Where a bracket closes

A bracket closes at the end of a text if the brackets behind it are matched up to there: before
every place at most as many of them are closed as opened, and in the end all are closed
(`Text.closesAtEnd_concat_iff`). A bracket in a string literal does not count, so a text between
parentheses has to end outside of its literals as well (`Text.Parenthesized`).
-/

namespace BraceTree.Text

/-- Reading one glyph of a bracket that closes at the end, which is the end or leads on. -/
theorem closesAtEnd_step {left right : Char} (hne : left ≠ right) {g : Glyph} {gs : List Glyph}
    {depth : Nat} (h : closesAtEnd left right (depth + 1) (g :: gs) = true) :
    (gs = [] ∧ depth = 0 ∧ g.is left = false ∧ g.is right = true) ∨
      ∃ depth', closesAtEnd left right (depth' + 1) gs = true ∧
        depth' + [g].countP (·.is right) = depth + [g].countP (·.is left) := by
  rw [closesAtEnd_cons] at h
  simp only [List.countP_singleton, Glyph.is]
  split at h
  · next hquoted => exact .inr ⟨depth, h, by simp [hquoted]⟩
  · next hquoted =>
    split at h
    · next hleft => exact .inr ⟨depth + 1, h, by simp [hquoted, hleft, hne]⟩
    · next hleft =>
      split at h
      · next hright =>
        split at h
        · cases h
        · next hdepth =>
          exact .inl ⟨List.isEmpty_iff.mp h, by omega, by simp [hleft], by simp [hquoted, hright]⟩
        · next d hdepth => exact .inr ⟨d, h, by simp [hquoted, hright, hne.symm]; omega⟩
      · next hright => exact .inr ⟨depth, h, by simp [hleft, hright]⟩

/-- Before a bracket closes at the end, it is open. -/
theorem countP_of_closesAtEnd {left right : Char} (hne : left ≠ right) {hs : List Glyph}
    (hrest : hs ≠ []) : ∀ {gs : List Glyph} {depth : Nat},
      closesAtEnd left right (depth + 1) (gs ++ hs) = true →
        gs.countP (·.is right) ≤ depth + gs.countP (·.is left)
  | [], _, _ => Nat.zero_le _
  | g :: gs, depth, h => by
    rw [← List.singleton_append, List.countP_append, List.countP_append]
    rcases closesAtEnd_step hne h with ⟨hnil, -⟩ | ⟨depth', h', hstep⟩
    · exact absurd (List.append_eq_nil_iff.mp hnil).2 hrest
    · have := countP_of_closesAtEnd hne hrest h'
      omega

/-- When it closes, nothing else is open. -/
theorem countP_eq_of_closesAtEnd {left right : Char} (hne : left ≠ right) :
    ∀ {gs : List Glyph} {depth : Nat}, closesAtEnd left right (depth + 1) gs = true →
      gs.countP (·.is right) = depth + 1 + gs.countP (·.is left)
  | [], _, h => absurd h Bool.false_ne_true
  | g :: gs, depth, h => by
    rw [← List.singleton_append, List.countP_append, List.countP_append]
    rcases closesAtEnd_step hne h with ⟨rfl, rfl, hleft, hright⟩ | ⟨depth', h', hstep⟩
    · simp [hleft, hright]
    · have := countP_eq_of_closesAtEnd hne h'
      omega

/-- A glyph that leaves a bracket open is passed. -/
theorem closesAtEnd_cons_of_open {left right : Char} (hne : left ≠ right) {g : Glyph}
    {gs : List Glyph} {depth depth' : Nat}
    (h : depth' + [g].countP (·.is right) = depth + [g].countP (·.is left)) :
    closesAtEnd left right (depth + 1) (g :: gs) = closesAtEnd left right (depth' + 1) gs := by
  rw [closesAtEnd_cons]
  simp only [List.countP_singleton, Glyph.is] at h
  split
  · next hquoted =>
    obtain rfl : depth' = depth := by simpa [hquoted] using h
    rfl
  · next hquoted =>
    split
    · next hleft =>
      obtain rfl : depth' = depth + 1 := by simpa [hquoted, hleft, hne] using h
      rfl
    · next hleft =>
      split
      · next hright =>
        obtain rfl : depth' + 1 = depth := by simpa [hquoted, hright, hne.symm] using h
        rfl
      · next hright =>
        obtain rfl : depth' = depth := by simpa [hquoted, hleft, hright] using h
        rfl

/-- **A bracket closes at the end** exactly if what it stands before is matched. -/
theorem closesAtEnd_concat_iff {left right : Char} (hne : left ≠ right) {gs : List Glyph}
    {depth : Nat} : closesAtEnd left right (depth + 1) (gs ++ [⟨right, false⟩]) = true ↔
      (∀ a b, gs = a ++ b → a.countP (·.is right) ≤ depth + a.countP (·.is left)) ∧
        gs.countP (·.is right) = depth + gs.countP (·.is left) := by
  have hlast : [(⟨right, false⟩ : Glyph)].countP (·.is right) = 1 ∧
      [(⟨right, false⟩ : Glyph)].countP (·.is left) = 0 := by simp [Glyph.is, hne.symm]
  constructor
  · intro h
    refine ⟨fun a b hsplit => ?_, ?_⟩
    · rw [hsplit, List.append_assoc] at h
      exact countP_of_closesAtEnd hne (List.concat_ne_nil _ b) h
    · have hcount := countP_eq_of_closesAtEnd hne h
      rw [List.countP_append, List.countP_append, hlast.1, hlast.2] at hcount
      omega
  · rintro ⟨hopened, htotal⟩
    induction gs generalizing depth with
    | nil =>
      obtain rfl : depth = 0 := by simpa using htotal.symm
      rw [List.nil_append, closesAtEnd_cons, if_neg Bool.false_ne_true, if_neg hne.symm, if_pos rfl]
      rfl
    | cons g gs ih =>
      have hsingle := hopened [g] gs rfl
      obtain ⟨depth', hdepth⟩ : ∃ depth',
          depth' + [g].countP (·.is right) = depth + [g].countP (·.is left) :=
        ⟨_, Nat.sub_add_cancel hsingle⟩
      rw [List.cons_append, closesAtEnd_cons_of_open hne hdepth]
      have hcons : ∀ (x : List Glyph) (c : Char), (g :: x).countP (·.is c) =
          [g].countP (·.is c) + x.countP (·.is c) := fun x c => by
        rw [← List.countP_append, List.singleton_append]
      refine ih (fun a b hsplit => ?_) ?_
      · have := hopened (g :: a) b (congrArg (g :: ·) hsplit)
        rw [hcons a, hcons a] at this
        omega
      · rw [hcons gs, hcons gs] at htotal
        omega

/-- **A text with matched parentheses**, which may stand between two more. -/
structure Parenthesized (t : Text) : Prop where
  /-- Its literals end in it. -/
  outside : Quoting.outside.after t = .outside
  /-- What is closed was opened before. -/
  opened : ∀ a b, t.glyphs = a ++ b → a.countP (·.is ')') ≤ a.countP (·.is '(')
  /-- What is opened is closed behind it. -/
  closed : t.glyphs.countP (·.is ')') = t.glyphs.countP (·.is '(')

/-- A parenthesis that is structure. -/
def isParen (g : Glyph) : Bool := g.is '(' || g.is ')'

/-- There are no parentheses among blanks. -/
theorem filter_isParen_of_isBlankText {b : Text} (hb : isBlankText b = true) :
    (glyphs b).filter isParen = [] := by
  refine List.filter_eq_nil_iff.mpr fun g hg => ?_
  have hmem : g.char ∈ b := by
    rw [← chars_glyphs b]
    exact List.mem_map_of_mem hg
  have hblank := List.all_eq_true.mp hb _ hmem
  rw [isParen, Glyph.is_eq_false_of_blank hblank (by decide),
    Glyph.is_eq_false_of_blank hblank (by decide)]
  decide

theorem countP_filter_isParen {c : Char} (hc : c = '(' ∨ c = ')') (gs : List Glyph) :
    (gs.filter isParen).countP (·.is c) = gs.countP (·.is c) := by
  rw [List.countP_filter]
  refine List.countP_congr fun g _ => ?_
  rcases hc with rfl | rfl <;> simp only [isParen, Bool.and_eq_true, Bool.or_eq_true] <;> tauto

/-- **Whether parentheses match is told from the parentheses**, if the literals end in the text. -/
theorem Parenthesized.of_filter_eq {t u : Text} (h : Parenthesized t)
    (hout : Quoting.outside.after u = .outside)
    (heq : (glyphs u).filter isParen = (glyphs t).filter isParen) : Parenthesized u where
  outside := hout
  opened := fun a b hsplit => by
    rw [hsplit, List.filter_append] at heq
    obtain ⟨a', b', hglyphs, ha, -⟩ := List.filter_eq_append_iff.mp heq.symm
    have hopened := h.opened a' b' hglyphs
    rwa [← countP_filter_isParen (.inl rfl) a', ← countP_filter_isParen (.inr rfl) a', ha,
      countP_filter_isParen (.inl rfl), countP_filter_isParen (.inr rfl)] at hopened
  closed := by
    rw [← countP_filter_isParen (.inr rfl), heq, countP_filter_isParen (.inr rfl), h.closed,
      ← countP_filter_isParen (.inl rfl), ← heq, countP_filter_isParen (.inl rfl)]

/-- **Parentheses around a text are each other's** exactly if those in it are matched. -/
theorem closesAtEnd_iff_parenthesized {t : Text} :
    closesAtEnd '(' ')' 0 (glyphs ('(' :: (t ++ [')']))) = true ↔ Parenthesized t := by
  have hglyphs : closesAtEnd '(' ')' 0 (glyphs ('(' :: (t ++ [')']))) = closesAtEnd '(' ')' 1
      (t.glyphs ++ [⟨')', ((Quoting.outside.after t).step ')').2⟩]) := by
    show closesAtEnd '(' ')' 1 (glyphs (t ++ [')'])) = _
    rw [glyphs, glyphsFrom_append]
    rfl
  have hiff := @closesAtEnd_concat_iff '(' ')' (by decide) t.glyphs 0
  simp only [Nat.zero_add] at hiff
  rw [hglyphs]
  constructor
  · intro h
    -- the last parenthesis is no part of a literal
    have hlast : ((Quoting.outside.after t).step ')').2 = false := by
      obtain ⟨pre, hpre⟩ := exists_of_closesAtEnd h
      exact congrArg Glyph.quoted (List.singleton_inj.mp (List.append_inj' hpre rfl).2)
    rw [hlast] at h
    obtain ⟨hopened, hclosed⟩ := hiff.mp h
    exact ⟨Quoting.eq_outside_of_step hlast (by decide), hopened, hclosed⟩
  · rintro ⟨houtside, hopened, hclosed⟩
    rw [houtside]
    exact hiff.mpr ⟨hopened, hclosed⟩

end BraceTree.Text
