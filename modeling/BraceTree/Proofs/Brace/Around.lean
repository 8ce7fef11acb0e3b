import BraceTree.Proofs.Brace.Matching

/-!
# The nearest braces around a span

Around a span of any list of braces, balanced or not, the nearest brace that is open before the span
is the one with a balanced list between the two (`Opens`), and the nearest one that closes behind it
is told in the same way (`Closes`). Walking outward brace by brace with a counter finds these two
and nothing else, which is what `enclosing?_eq_ok_iff` and `exists_error_iff` say: the walk fails
exactly if a brace of the span itself is not in the list, or if there is a brace on one side only.
-/

namespace BraceTree.Brace

variable {bs : List Brace} {s : Span}

/-- The braces of a list that stand before a span. -/
def before (bs : List Brace) (s : Span) : List Brace := bs.filter (·.offset < s.start)

/-- The braces of a list that stand behind a span. -/
def behind (bs : List Brace) (s : Span) : List Brace := bs.filter (s.stop ≤ ·.offset)

/-- **The nearest brace that is open before a span**: all braces between the two have their partners
there. -/
def Opens (bs : List Brace) (s : Span) (o : Nat) : Prop :=
  ∃ outer inner, before bs s = outer ++ ⟨o, true⟩ :: inner ∧ Balanced inner

/-- **The nearest brace that closes behind a span** what was opened before it. -/
def Closes (bs : List Brace) (s : Span) (c : Nat) : Prop :=
  ∃ inner outer, behind bs s = inner ++ ⟨c, false⟩ :: outer ∧ Balanced inner

/-- A span whose first and last bytes are braces of the list. -/
def Recorded (bs : List Brace) (s : Span) : Prop :=
  (∃ b ∈ bs, b.offset = s.start) ∧ ∃ b ∈ bs, b.offset + 1 = s.stop

/-- A span with a brace around it on one side only. -/
def HalfEnclosed (bs : List Brace) (s : Span) : Prop :=
  (∃ o, Opens bs s o) ∧ (∀ c, ¬ Closes bs s c) ∨ (∀ o, ¬ Opens bs s o) ∧ ∃ c, Closes bs s c

/-- **The nearest pair of braces around a span**, none if there is no brace on either side. -/
def Nearest (bs : List Brace) (s : Span) : Option Span → Prop
  | none => (∀ o, ¬ Opens bs s o) ∧ ∀ c, ¬ Closes bs s c
  | some p => ∃ o c, Opens bs s o ∧ Closes bs s c ∧ p = ⟨o, c + 1⟩

/-! ## What walking outward finds -/

theorem exists_of_unmatchedOpen? {o : Nat} : ∀ {bs : List Brace} {n : Nat},
    unmatchedOpen? n bs = some o →
      ∃ inner outer, bs = inner ++ ⟨o, true⟩ :: outer ∧ openAfter 0 inner.reverse = some n
  | ⟨p, true⟩ :: bs, 0, h => by
    obtain rfl : p = o := by simpa [unmatchedOpen?] using h
    exact ⟨[], bs, rfl, rfl⟩
  | ⟨p, true⟩ :: bs, n + 1, h => by
    obtain ⟨inner, outer, rfl, hinner⟩ := exists_of_unmatchedOpen? (n := n) h
    exact ⟨⟨p, true⟩ :: inner, outer, rfl, by
      rw [List.reverse_cons, openAfter_append, hinner]
      rfl⟩
  | ⟨p, false⟩ :: bs, n, h => by
    obtain ⟨inner, outer, rfl, hinner⟩ := exists_of_unmatchedOpen? (n := n + 1) h
    exact ⟨⟨p, false⟩ :: inner, outer, rfl, by
      rw [List.reverse_cons, openAfter_append, hinner]
      rfl⟩

theorem exists_of_unmatchedClose? {c : Nat} : ∀ {bs : List Brace} {n : Nat},
    unmatchedClose? n bs = some c →
      ∃ inner outer, bs = inner ++ ⟨c, false⟩ :: outer ∧ openAfter n inner = some 0
  | ⟨p, false⟩ :: bs, 0, h => by
    obtain rfl : p = c := by simpa [unmatchedClose?] using h
    exact ⟨[], bs, rfl, rfl⟩
  | ⟨p, false⟩ :: bs, n + 1, h => by
    obtain ⟨inner, outer, rfl, hinner⟩ := exists_of_unmatchedClose? (n := n) h
    exact ⟨⟨p, false⟩ :: inner, outer, rfl, hinner⟩
  | ⟨p, true⟩ :: bs, n, h => by
    obtain ⟨inner, outer, rfl, hinner⟩ := exists_of_unmatchedClose? (n := n + 1) h
    exact ⟨⟨p, true⟩ :: inner, outer, rfl, hinner⟩

theorem unmatchedOpen?_eq_some_iff {o : Nat} :
    unmatchedOpen? 0 (before bs s).reverse = some o ↔ Opens bs s o := by
  constructor
  · intro h
    obtain ⟨inner, outer, hsplit, hinner⟩ := exists_of_unmatchedOpen? h
    refine ⟨outer.reverse, inner.reverse, ?_, balanced_of_openAfter hinner⟩
    rw [← List.reverse_reverse (before bs s), hsplit]
    simp
  · rintro ⟨outer, inner, hsplit, hinner⟩
    rw [hsplit, List.reverse_append, List.reverse_cons, List.append_assoc,
      hinner.unmatchedOpen?_reverse_append]
    rfl

theorem unmatchedClose?_eq_some_iff {c : Nat} :
    unmatchedClose? 0 (behind bs s) = some c ↔ Closes bs s c := by
  constructor
  · intro h
    obtain ⟨inner, outer, hsplit, hinner⟩ := exists_of_unmatchedClose? h
    exact ⟨inner, outer, hsplit, balanced_of_openAfter hinner⟩
  · rintro ⟨inner, outer, hsplit, hinner⟩
    rw [hsplit, hinner.unmatchedClose?_append]
    rfl

/-- The braces before one of a list. -/
theorem Sorted.filter_lt {pre post : List Brace} {b : Brace} (h : Sorted (pre ++ b :: post)) :
    (pre ++ b :: post).filter (·.offset < b.offset) = pre := by
  rw [List.filter_append, List.filter_eq_self.mpr fun x hx => decide_eq_true (h.lt_of_mem_left hx),
    List.filter_eq_nil_iff.mpr, List.append_nil]
  intro x hx
  rw [decide_eq_true_eq, Nat.not_lt]
  rcases List.mem_cons.mp hx with rfl | hx
  · exact Nat.le_refl _
  · exact Nat.le_of_lt (h.lt_of_mem_right hx)

/-- The braces behind one of a list. -/
theorem Sorted.filter_gt {pre post : List Brace} {b : Brace} (h : Sorted (pre ++ b :: post)) :
    (pre ++ b :: post).filter (b.offset < ·.offset) = post := by
  rw [List.filter_append, List.filter_cons, List.filter_eq_nil_iff.mpr, List.nil_append,
    if_neg (by simp), List.filter_eq_self.mpr fun x hx => decide_eq_true (h.lt_of_mem_right hx)]
  intro x hx
  rw [decide_eq_true_eq, Nat.not_lt]
  exact Nat.le_of_lt (h.lt_of_mem_left hx)

/-- The search starts at the two braces of the span. -/
theorem enclosing?_of_recorded (hs : Sorted bs) (h : Recorded bs s) :
    enclosing? bs s =
      match unmatchedOpen? 0 (before bs s).reverse, unmatchedClose? 0 (behind bs s) with
      | some o, some c => .ok (some ⟨o, c + 1⟩)
      | none, none => .ok none
      | _, _ => .error .halfEnclosed := by
  obtain ⟨⟨first, hfirst, hstart⟩, last, hlast, hstop⟩ := h
  obtain ⟨pre, post, hbs⟩ := List.append_of_mem hfirst
  obtain ⟨pre', post', hbs'⟩ := List.append_of_mem hlast
  have hsfirst : Sorted (pre ++ first :: post) := hbs ▸ hs
  have hslast : Sorted (pre' ++ last :: post') := hbs' ▸ hs
  have hfoff : bs.findIdx? (·.offset == s.start) = some pre.length := by
    rw [← hstart, hbs]
    exact hsfirst.findIdx?_eq
  have hloff : bs.findIdx? (·.offset == s.stop - 1) = some pre'.length := by
    rw [← hstop, Nat.add_sub_cancel, hbs']
    exact hslast.findIdx?_eq
  have hbefore : before bs s = bs.take pre.length := by
    rw [before, ← hstart, hbs, hsfirst.filter_lt, List.take_left]
  have hbehind : behind bs s = bs.drop (pre'.length + 1) := by
    rw [behind, ← hstop]
    show bs.filter (last.offset < ·.offset) = _
    rw [hbs', hslast.filter_gt, List.append_cons, List.drop_left' (by simp)]
  unfold enclosing?
  rw [hbefore, hbehind]
  cases hopen : unmatchedOpen? 0 (bs.take pre.length).reverse <;>
    cases hclose : unmatchedClose? 0 (bs.drop (pre'.length + 1)) <;>
      simp only [hfoff, hloff, hopen, hclose]

/-- Without its own braces in the list nothing is found around a span. -/
theorem enclosing?_of_not_recorded (hpos : 0 < s.stop) (h : ¬ Recorded bs s) :
    enclosing? bs s = .error .unrecorded := by
  unfold enclosing?
  split
  · rename_i first last hfirst hlast
    obtain ⟨hfirst, hfoff, -⟩ := List.findIdx?_eq_some_iff_getElem.mp hfirst
    obtain ⟨hlast, hloff, -⟩ := List.findIdx?_eq_some_iff_getElem.mp hlast
    rw [beq_iff_eq] at hfoff hloff
    refine absurd ⟨⟨_, List.getElem_mem hfirst, hfoff⟩, _, List.getElem_mem hlast, ?_⟩ h
    omega
  · rfl

/-! ## What the search says -/

/-- There is one nearest pair at the most. -/
theorem Nearest.unique {p q : Option Span} (hp : Nearest bs s p) (hq : Nearest bs s q) : p = q := by
  have hopen : ∀ {o o'}, Opens bs s o → Opens bs s o' → o = o' := fun h h' =>
    Option.some.inj
      ((unmatchedOpen?_eq_some_iff.mpr h).symm.trans (unmatchedOpen?_eq_some_iff.mpr h'))
  have hclose : ∀ {c c'}, Closes bs s c → Closes bs s c' → c = c' := fun h h' =>
    Option.some.inj
      ((unmatchedClose?_eq_some_iff.mpr h).symm.trans (unmatchedClose?_eq_some_iff.mpr h'))
  cases p with
  | none =>
    cases q with
    | none => rfl
    | some q =>
      obtain ⟨o, -, ho, -⟩ := hq
      exact absurd ho (hp.1 o)
  | some p =>
    obtain ⟨o, c, ho, hc, rfl⟩ := hp
    cases q with
    | none => exact absurd ho (hq.1 o)
    | some q =>
      obtain ⟨o', c', ho', hc', rfl⟩ := hq
      rw [hopen ho ho', hclose hc hc']

/-- A span with a nearest pair, or with no brace around it, is not enclosed on one side only. -/
theorem Nearest.not_halfEnclosed {p : Option Span} (h : Nearest bs s p) : ¬ HalfEnclosed bs s := by
  cases p with
  | none =>
    rintro (⟨⟨o, ho⟩, -⟩ | ⟨-, c, hc⟩)
    · exact h.1 o ho
    · exact h.2 c hc
  | some p =>
    obtain ⟨o, c, ho, hc, -⟩ := h
    rintro (⟨-, hnone⟩ | ⟨hnone, -⟩)
    · exact hnone c hc
    · exact hnone o ho

/-- **The search around a span finds the nearest pair, or it fails for one of two reasons.** -/
theorem enclosing?_cases (hs : Sorted bs) (hpos : 0 < s.stop) :
    (∃ p, enclosing? bs s = .ok p ∧ Recorded bs s ∧ Nearest bs s p) ∨
      (∃ m, enclosing? bs s = .error m) ∧ (¬ Recorded bs s ∨ HalfEnclosed bs s) := by
  by_cases hrec : Recorded bs s
  · rw [enclosing?_of_recorded hs hrec]
    have hnone : ∀ {o}, unmatchedOpen? 0 (before bs s).reverse = none → ¬ Opens bs s o :=
      fun hnone ho => absurd (hnone.symm.trans (unmatchedOpen?_eq_some_iff.mpr ho)) (by simp)
    have hnone' : ∀ {c}, unmatchedClose? 0 (behind bs s) = none → ¬ Closes bs s c :=
      fun hnone hc => absurd (hnone.symm.trans (unmatchedClose?_eq_some_iff.mpr hc)) (by simp)
    cases ho : unmatchedOpen? 0 (before bs s).reverse with
    | none =>
      cases hc : unmatchedClose? 0 (behind bs s) with
      | none => exact .inl ⟨none, rfl, hrec, fun _ => hnone ho, fun _ => hnone' hc⟩
      | some c =>
        exact .inr ⟨⟨_, rfl⟩, .inr (.inr ⟨fun _ => hnone ho, c, unmatchedClose?_eq_some_iff.mp hc⟩)⟩
    | some o =>
      have ho := unmatchedOpen?_eq_some_iff.mp ho
      cases hc : unmatchedClose? 0 (behind bs s) with
      | none => exact .inr ⟨⟨_, rfl⟩, .inr (.inl ⟨⟨o, ho⟩, fun _ => hnone' hc⟩)⟩
      | some c =>
        exact .inl ⟨_, rfl, hrec, o, c, ho, unmatchedClose?_eq_some_iff.mp hc, rfl⟩
  · exact .inr ⟨⟨_, enclosing?_of_not_recorded hpos hrec⟩, .inl hrec⟩

theorem enclosing?_eq_ok_iff (hs : Sorted bs) (hpos : 0 < s.stop) {p : Option Span} :
    enclosing? bs s = .ok p ↔ Recorded bs s ∧ Nearest bs s p := by
  rcases enclosing?_cases hs hpos with ⟨q, hq, hrec, hnearest⟩ | ⟨⟨m, hm⟩, hbad⟩
  · rw [hq]
    constructor
    · intro h
      obtain rfl := Except.ok.inj h
      exact ⟨hrec, hnearest⟩
    · exact fun h => congrArg _ (hnearest.unique h.2)
  · rw [hm]
    constructor
    · exact fun h => absurd h (by simp)
    · exact fun h => absurd hbad (not_or.mpr ⟨not_not_intro h.1, h.2.not_halfEnclosed⟩)

theorem exists_error_iff (hs : Sorted bs) (hpos : 0 < s.stop) :
    (∃ m, enclosing? bs s = .error m) ↔ ¬ Recorded bs s ∨ HalfEnclosed bs s := by
  rcases enclosing?_cases hs hpos with ⟨q, hq, hrec, hnearest⟩ | ⟨hm, hbad⟩
  · rw [hq]
    constructor
    · rintro ⟨m, hm⟩
      exact absurd hm (by simp)
    · exact fun h => absurd h (not_or.mpr ⟨not_not_intro hrec, hnearest.not_halfEnclosed⟩)
  · exact ⟨fun _ => hbad, fun _ => hm⟩

end BraceTree.Brace
