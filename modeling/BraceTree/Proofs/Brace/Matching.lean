import BraceTree.Proofs.Brace.Balanced

/-!
# Matched pairs of braces

What it means for two braces of a list to be partners is said here without a stack: all braces
between them have their partners there, too. The pairs of a list whose offsets increase are
*laminar* – two of them are disjoint or one lies inside the other (`Matched.inside_or_behind`) – so
the pairs around a span form a chain, and `Encloser` names the innermost of them.

`Matched.enclosing?_spec` is what placing blocks rests on: in a balanced list, walking outward from
a pair to the nearest unmatched braces finds exactly this innermost pair.
-/

namespace BraceTree

namespace Span

theorem encloses_iff {a b : Span} :
    a.encloses b = true ↔ a.start ≤ b.start ∧ b.stop ≤ a.stop ∧ a ≠ b := by
  simp [encloses, and_assoc]

end Span

namespace Brace

/-- The braces of a list stand in the order of a source. -/
abbrev Sorted (bs : List Brace) : Prop := bs.Pairwise fun a b => a.offset < b.offset

/-- **A matched pair of braces**, as the span from the opening brace through the closing one: all
braces between the two have their partners there. -/
def Matched (bs : List Brace) (s : Span) : Prop :=
  ∃ pre inner post c, s.stop = c + 1 ∧
    bs = pre ++ ⟨s.start, true⟩ :: (inner ++ ⟨c, false⟩ :: post) ∧ Balanced inner

/-- **The innermost matched pair around a span**, none if no pair is around it. -/
def Encloser (bs : List Brace) (s : Span) : Option Span → Prop
  | none => ∀ q, Matched bs q → ¬ q.encloses s
  | some p => Matched bs p ∧ p.encloses s ∧ ∀ q, Matched bs q → q.encloses s → q = p ∨ q.encloses p

/-! ## Splitting a list at a brace -/

namespace Sorted

variable {pre post pre' post' : List Brace} {b b' : Brace}

theorem lt_of_mem_left (h : Sorted (pre ++ b :: post)) {x : Brace} (hx : x ∈ pre) :
    x.offset < b.offset :=
  (List.pairwise_append.mp h).2.2 x hx b List.mem_cons_self

theorem lt_of_mem_right (h : Sorted (pre ++ b :: post)) {x : Brace} (hx : x ∈ post) :
    b.offset < x.offset :=
  (List.pairwise_cons.mp (List.pairwise_append.mp h).2.1).1 x hx

/-- A list splits at an offset in one way. -/
theorem split_eq (h : Sorted (pre ++ b :: post)) (he : pre ++ b :: post = pre' ++ b' :: post')
    (hoff : b.offset = b'.offset) : pre = pre' ∧ b = b' ∧ post = post' := by
  rcases List.append_eq_append_iff.mp he with ⟨m, rfl, hm⟩ | ⟨m, rfl, hm⟩
  · cases m with
    | nil => simpa using hm
    | cons x m =>
      obtain ⟨rfl, rfl⟩ := List.cons.inj hm
      have := h.lt_of_mem_right (x := b') (by simp)
      omega
  · cases m with
    | nil => simpa [eq_comm] using hm
    | cons x m =>
      obtain ⟨rfl, -⟩ := List.cons.inj hm
      have := h.lt_of_mem_left (x := b') (by simp)
      omega

/-- The braces before a brace are those with smaller offsets. -/
theorem mem_left_of_lt (h : Sorted (pre ++ b :: post)) {x : Brace} (hx : x ∈ pre ++ b :: post)
    (hlt : x.offset < b.offset) : x ∈ pre := by
  rcases List.mem_append.mp hx with hx | hx
  · exact hx
  · rcases List.mem_cons.mp hx with rfl | hx
    · omega
    · have := h.lt_of_mem_right hx
      omega

/-- The braces between two braces are those with offsets between theirs. -/
theorem mem_between {mid : List Brace} (h : Sorted (pre ++ b :: (mid ++ b' :: post))) {x : Brace}
    (hx : x ∈ pre ++ b :: (mid ++ b' :: post)) (hlt : b.offset < x.offset)
    (hlt' : x.offset < b'.offset) : x ∈ mid := by
  have hassoc : pre ++ b :: (mid ++ b' :: post) = (pre ++ b :: mid) ++ b' :: post := by simp
  rw [hassoc] at hx
  have hleft := mem_left_of_lt (hassoc ▸ h) hx hlt'
  rcases List.mem_append.mp hleft with hx | hx
  · have := h.lt_of_mem_left hx
    omega
  · rcases List.mem_cons.mp hx with rfl | hx
    · omega
    · exact hx

/-- A list holds one brace at an offset. -/
theorem eq_of_mem {bs : List Brace} (h : Sorted bs) (hb : b ∈ bs) (hb' : b' ∈ bs)
    (hoff : b.offset = b'.offset) : b = b' := by
  obtain ⟨pre, post, rfl⟩ := List.append_of_mem hb
  obtain ⟨pre', post', he⟩ := List.append_of_mem hb'
  exact (h.split_eq he hoff).2.1

theorem findIdx?_eq (h : Sorted (pre ++ b :: post)) :
    (pre ++ b :: post).findIdx? (·.offset == b.offset) = some pre.length := by
  rw [List.findIdx?_append, List.findIdx?_eq_none_iff.mpr, List.findIdx?_cons]
  · simp
  · intro x hx
    have := h.lt_of_mem_left hx
    simp
    omega

end Sorted

namespace Matched

variable {bs : List Brace} {s q p : Span}

theorem start_lt_stop (hs : Sorted bs) (h : Matched bs s) : s.start + 2 ≤ s.stop := by
  obtain ⟨pre, inner, post, c, hc, rfl, -⟩ := h
  have : s.start < c := hs.lt_of_mem_right (x := ⟨c, false⟩) (by simp)
  omega

theorem open_mem (h : Matched bs s) : (⟨s.start, true⟩ : Brace) ∈ bs := by
  obtain ⟨pre, inner, post, c, -, rfl, -⟩ := h
  simp

theorem close_mem (h : Matched bs s) : (⟨s.stop - 1, false⟩ : Brace) ∈ bs := by
  obtain ⟨pre, inner, post, c, hc, rfl, -⟩ := h
  simp [hc]

/-- An opening brace has one partner. -/
theorem eq_of_start_eq (hs : Sorted bs) (h : Matched bs s) (h' : Matched bs q)
    (he : s.start = q.start) : s = q := by
  obtain ⟨pre, inner, post, c, hc, rfl, hinner⟩ := h
  obtain ⟨pre', inner', post', c', hc', hbs, hinner'⟩ := h'
  obtain ⟨-, -, hrest⟩ := hs.split_eq hbs he
  obtain ⟨-, rfl, -⟩ := hinner.eq_of_append_close hinner' hrest
  cases s
  cases q
  simp_all

/-- A pair that opens inside a balanced part of the list closes there. -/
theorem close_mem_of_open_mem {pre mid post : List Brace} (hs : Sorted (pre ++ (mid ++ post)))
    (hmid : Balanced mid) (h : Matched (pre ++ (mid ++ post)) q)
    (hopen : (⟨q.start, true⟩ : Brace) ∈ mid) : (⟨q.stop - 1, false⟩ : Brace) ∈ mid := by
  obtain ⟨m, a, rfl⟩ := List.append_of_mem hopen
  obtain ⟨inner, c, rest, rfl, hinner⟩ := hmid.exists_partner
  have hq : Matched (pre ++ (m ++ ⟨q.start, true⟩ :: (inner ++ ⟨c, false⟩ :: rest) ++ post))
      ⟨q.start, c + 1⟩ := ⟨pre ++ m, inner, rest ++ post, c, rfl, by simp, hinner⟩
  rw [h.eq_of_start_eq hs hq rfl]
  simp

/-- A pair that opens inside a balanced part ends before the brace behind that part. -/
theorem stop_le_of_open_mem {pre mid post : List Brace} {b : Brace}
    (hs : Sorted (pre ++ (mid ++ b :: post))) (hmid : Balanced mid)
    (h : Matched (pre ++ (mid ++ b :: post)) q) (hopen : (⟨q.start, true⟩ : Brace) ∈ mid) :
    q.stop ≤ b.offset := by
  have hclose := close_mem_of_open_mem hs hmid h hopen
  have hs' : Sorted ((pre ++ mid) ++ b :: post) := by
    rwa [List.append_assoc]
  have : q.stop - 1 < b.offset := hs'.lt_of_mem_left (List.mem_append_right _ hclose)
  omega

/-- **Matched pairs are laminar**: of two pairs the one that opens later lies inside the other or
behind it. -/
theorem inside_or_behind (hs : Sorted bs) (h : Matched bs s) (h' : Matched bs q)
    (hlt : s.start < q.start) : q.stop < s.stop ∨ s.stop ≤ q.start := by
  have hopen := h'.open_mem
  obtain ⟨pre, inner, post, c, hc, rfl, hinner⟩ := h
  rcases Nat.lt_trichotomy q.start c with hqc | hqc | hqc
  · left
    have hinside : (⟨q.start, true⟩ : Brace) ∈ inner := hs.mem_between hopen hlt hqc
    have hassoc : pre ++ ⟨s.start, true⟩ :: (inner ++ ⟨c, false⟩ :: post)
        = (pre ++ [⟨s.start, true⟩]) ++ (inner ++ ⟨c, false⟩ :: post) := by simp
    have : q.stop ≤ c := stop_le_of_open_mem (hassoc ▸ hs) hinner (hassoc ▸ h') hinside
    omega
  · -- no brace both opens and closes
    have hclose : (⟨c, false⟩ : Brace) ∈
        pre ++ ⟨s.start, true⟩ :: (inner ++ ⟨c, false⟩ :: post) := by simp
    exact absurd (congrArg Brace.isOpen (hs.eq_of_mem hopen hclose hqc)) (by simp)
  · right
    omega

/-- A closing brace has one partner. -/
theorem eq_of_stop_eq (hs : Sorted bs) (h : Matched bs s) (h' : Matched bs q)
    (he : s.stop = q.stop) : s = q := by
  have hlen := h.start_lt_stop hs
  have hlen' := h'.start_lt_stop hs
  rcases Nat.lt_trichotomy s.start q.start with hlt | heq | hgt
  · have := h.inside_or_behind hs h' hlt
    omega
  · exact h.eq_of_start_eq hs h' heq
  · have := h'.inside_or_behind hs h hgt
    omega

/-- A pair that encloses another one shares neither brace with it. -/
theorem encloses_iff (hs : Sorted bs) (h : Matched bs q) (h' : Matched bs s) :
    q.encloses s = true ↔ q.start < s.start ∧ s.stop < q.stop := by
  rw [Span.encloses_iff]
  constructor
  · rintro ⟨h₁, h₂, hne⟩
    have hstart : q.start ≠ s.start := fun he => hne (h.eq_of_start_eq hs h' he)
    have hstop : q.stop ≠ s.stop := fun he => hne (h.eq_of_stop_eq hs h' he)
    omega
  · rintro ⟨h₁, h₂⟩
    refine ⟨by omega, by omega, ?_⟩
    rintro rfl
    omega

end Matched

/-! ## The innermost pair around a pair -/

namespace Encloser

variable {bs : List Brace} {s q p : Span}

/-- Nothing is around a pair if all braces before it have their partners there. -/
theorem none_of_balanced {pre post : List Brace} (hs : Sorted (pre ++ ⟨s.start, true⟩ :: post))
    (h : Matched (pre ++ ⟨s.start, true⟩ :: post) s) (hpre : Balanced pre) :
    Encloser (pre ++ ⟨s.start, true⟩ :: post) s none := by
  intro q hq henc
  rw [hq.encloses_iff hs h] at henc
  have hopen := hs.mem_left_of_lt hq.open_mem henc.1
  have : q.stop ≤ s.start := @Matched.stop_le_of_open_mem q [] pre post _ hs hpre hq hopen
  have := h.start_lt_stop hs
  omega

/-- A pair around another one is the innermost if all braces between the two opening ones have their
partners there. -/
theorem some_of_balanced {pre mid post : List Brace}
    (hs : Sorted (pre ++ ⟨p.start, true⟩ :: (mid ++ ⟨s.start, true⟩ :: post)))
    (h : Matched (pre ++ ⟨p.start, true⟩ :: (mid ++ ⟨s.start, true⟩ :: post)) s)
    (hp : Matched (pre ++ ⟨p.start, true⟩ :: (mid ++ ⟨s.start, true⟩ :: post)) p)
    (hps : p.encloses s) (hmid : Balanced mid) :
    Encloser (pre ++ ⟨p.start, true⟩ :: (mid ++ ⟨s.start, true⟩ :: post)) s (some p) := by
  refine ⟨hp, hps, fun q hq hqs => ?_⟩
  rw [hp.encloses_iff hs h] at hps
  rw [hq.encloses_iff hs h] at hqs
  have hlen := h.start_lt_stop hs
  rcases Nat.lt_trichotomy q.start p.start with hlt | heq | hgt
  · right
    have := hq.inside_or_behind hs hp hlt
    rw [hq.encloses_iff hs hp]
    omega
  · left
    exact hq.eq_of_start_eq hs hp heq
  · -- what opens between the two pairs ends before the inner one starts
    exfalso
    have hopen : (⟨q.start, true⟩ : Brace) ∈ mid := hs.mem_between hq.open_mem hgt hqs.1
    have hassoc : pre ++ ⟨p.start, true⟩ :: (mid ++ ⟨s.start, true⟩ :: post)
        = (pre ++ [⟨p.start, true⟩]) ++ (mid ++ ⟨s.start, true⟩ :: post) := by simp
    have : q.stop ≤ s.start :=
      Matched.stop_le_of_open_mem (hassoc ▸ hs) hmid (hassoc ▸ hq) hopen
    omega

/-- **Pairs with the same innermost pair around them do not overlap.** -/
theorem stop_le_start (hs : Sorted bs) (h : Matched bs s) (h' : Matched bs q) {p : Option Span}
    (he : Encloser bs s p) (he' : Encloser bs q p) (hlt : s.start < q.start) :
    s.stop ≤ q.start := by
  rcases h.inside_or_behind hs h' hlt with hin | hbehind
  · exfalso
    have henc : s.encloses q := (h.encloses_iff hs h').mpr ⟨hlt, hin⟩
    cases p with
    | none => exact he' s h henc
    | some p =>
      obtain ⟨hp, hps, -⟩ := he
      rw [hp.encloses_iff hs h] at hps
      rcases he'.2.2 s h henc with rfl | hsp
      · omega
      · rw [h.encloses_iff hs hp] at hsp
        omega
  · exact hbehind

end Encloser

/-! ## The nearest pair around a pair -/

/-- The walk outward from a span that starts and ends with braces of the list. -/
theorem enclosing?_eq {pre inner post : List Brace} {s : Span} {c : Nat} (hc : s.stop = c + 1)
    (hs : Sorted (pre ++ ⟨s.start, true⟩ :: (inner ++ ⟨c, false⟩ :: post))) :
    enclosing? (pre ++ ⟨s.start, true⟩ :: (inner ++ ⟨c, false⟩ :: post)) s =
      match unmatchedOpen? 0 pre.reverse, unmatchedClose? 0 post with
      | some o, some c => .ok (some ⟨o, c + 1⟩)
      | none, none => .ok none
      | _, _ => .error .halfEnclosed := by
  have hassoc : pre ++ ⟨s.start, true⟩ :: (inner ++ ⟨c, false⟩ :: post)
      = (pre ++ ⟨s.start, true⟩ :: inner) ++ ⟨c, false⟩ :: post := by simp
  have hfirst := hs.findIdx?_eq
  have hlast := Sorted.findIdx?_eq (hassoc ▸ hs)
  rw [← hassoc] at hlast
  have hstop : s.stop - 1 = c := by omega
  have hdrop : (pre ++ ⟨s.start, true⟩ :: (inner ++ ⟨c, false⟩ :: post)).drop
      ((pre ++ ⟨s.start, true⟩ :: inner).length + 1) = post := by
    rw [hassoc, ← List.drop_drop, List.drop_left]
    rfl
  unfold enclosing?
  rw [hstop, hfirst, hlast]
  dsimp only
  cases ho : unmatchedOpen? 0 pre.reverse <;> cases hclose : unmatchedClose? 0 post <;>
    simp only [List.take_left, hdrop, ho, hclose]

/-- **The nearest unmatched braces around a pair are the innermost pair around it.** In a balanced
list there are two such braces or none, never one without the other. -/
theorem Matched.enclosing?_spec {bs : List Brace} {s : Span} (hbal : Balanced bs) (hs : Sorted bs)
    (h : Matched bs s) : ∃ p, enclosing? bs s = .ok p ∧ Encloser bs s p := by
  have hmatched := h
  obtain ⟨pre, inner, post, c, hc, rfl, hinner⟩ := h
  rw [enclosing?_eq hc hs]
  have hzero := hbal.openAfter_eq 0
  rw [openAfter_append] at hzero
  obtain ⟨d, hpre, hrest⟩ := Option.bind_eq_some_iff.mp hzero
  have hpost : openAfter d post = some 0 := by
    rw [openAfter_open, hinner.openAfter_pass, openAfter_close_succ] at hrest
    exact hrest
  cases d with
  | zero =>
    -- nothing is open before the pair
    have hpre' := balanced_of_openAfter hpre
    have hopen : unmatchedOpen? 0 pre.reverse = none := by
      rw [← List.append_nil pre.reverse, hpre'.unmatchedOpen?_reverse_append]
      rfl
    have hclose : unmatchedClose? 0 post = none := by
      rw [← List.append_nil post, (balanced_of_openAfter hpost).unmatchedClose?_append]
      rfl
    exact ⟨none, by rw [hopen, hclose], .none_of_balanced hs hmatched hpre'⟩
  | succ d =>
    obtain ⟨pre₁, o, inner₁, rfl, hinner₁, -⟩ := exists_last_rise (Nat.zero_le d) hpre
    obtain ⟨inner₂, c₂, rest, rfl, hinner₂, -⟩ := exists_first_return (Nat.zero_le d) hpost
    have hopen : unmatchedOpen? 0 (pre₁ ++ ⟨o, true⟩ :: inner₁).reverse = some o := by
      rw [List.reverse_append, List.reverse_cons, List.append_assoc,
        hinner₁.unmatchedOpen?_reverse_append]
      rfl
    have hclose : unmatchedClose? 0 (inner₂ ++ ⟨c₂, false⟩ :: rest) = some c₂ := by
      rw [hinner₂.unmatchedClose?_append]
      rfl
    refine ⟨some ⟨o, c₂ + 1⟩, by rw [hopen, hclose], ?_⟩
    rw [List.append_assoc, List.cons_append] at hs hmatched ⊢
    have hp : Matched (pre₁ ++ ⟨o, true⟩ :: (inner₁ ++ ⟨s.start, true⟩ ::
        (inner ++ ⟨c, false⟩ :: (inner₂ ++ ⟨c₂, false⟩ :: rest)))) ⟨o, c₂ + 1⟩ :=
      ⟨pre₁, inner₁ ++ (⟨s.start, true⟩ :: (inner ++ ⟨c, false⟩ :: inner₂)), rest, c₂, rfl,
        by simp, hinner₁.append (.block _ _ hinner hinner₂)⟩
    have hps : (⟨o, c₂ + 1⟩ : Span).encloses s := by
      rw [Span.encloses_iff]
      have ho : o < s.start := hs.lt_of_mem_right (x := ⟨s.start, true⟩) (by simp)
      have hs' : Sorted ((pre₁ ++ ⟨o, true⟩ :: (inner₁ ++ ⟨s.start, true⟩ :: inner)) ++
          ⟨c, false⟩ :: (inner₂ ++ ⟨c₂, false⟩ :: rest)) := by simpa using hs
      have hc₂ : c < c₂ := hs'.lt_of_mem_right (x := ⟨c₂, false⟩) (by simp)
      refine ⟨Nat.le_of_lt ho, by simp only; omega, ?_⟩
      rintro rfl
      exact Nat.lt_irrefl _ ho
    exact Encloser.some_of_balanced (p := ⟨o, c₂ + 1⟩) hs hmatched hp hps hinner₁

end Brace
end BraceTree
