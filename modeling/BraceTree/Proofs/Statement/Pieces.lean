import BraceTree.Proofs.Statement.Outcome
import BraceTree.Proofs.Text.Reading

/-!
# The statements of a segment

A segment of a source is cut into pieces at newlines and semicolons, and trimmed pieces are its
statements. Nothing is lost but blanks and separators, and the pieces stand in the order of the
segment. Both are facts about cutting glyphs, by induction on them; what the positions mean in the
source comes last, where a segment is known to start at a place where a reader may start.
-/

namespace BraceTree

namespace Piece

/-- Where a piece ends. -/
def stop (p : Piece) : Nat := p.start + p.text.bytes

/-- Whether a glyph ends a piece, given how many brackets are open. -/
def endsAt (depth : Nat) (g : Glyph) : Bool := g.is '\n' || (g.is ';' && depth == 0)

/-- One glyph either ends a piece or belongs to the first one. -/
theorem cut_cons (start depth : Nat) (g : Glyph) (gs : List Glyph) :
    cut start depth (g :: gs) =
      if endsAt depth g then ⟨start, []⟩ :: cut (start + g.char.utf8Size) 0 gs
      else (cut (start + g.char.utf8Size) (g.nest depth) gs).modifyHead (extend start g.char) := by
  obtain ⟨c, quoted⟩ := g
  simp only [cut, endsAt, Glyph.nest, Glyph.is]
  cases quoted with
  | true => rfl
  | false =>
    -- a bracket is neither a newline nor a semicolon
    by_cases hopen : Text.isOpening c = true
    · have hne : ¬ (c = '\n' ∨ c = ';' ∧ depth = 0) := by
        rintro (rfl | ⟨rfl, -⟩) <;> exact absurd hopen (by decide)
      simp [hopen, not_or.mp hne]
    · by_cases hclose : Text.isClosing c = true
      · have hne : ¬ (c = '\n' ∨ c = ';' ∧ depth = 0) := by
          rintro (rfl | ⟨rfl, -⟩) <;> exact absurd hclose (by decide)
        simp [hopen, hclose, not_or.mp hne]
      · simp only [Bool.false_eq_true, if_false, if_neg hopen, if_neg hclose]
        by_cases hnl : c = '\n' <;> by_cases hsemi : c = ';' ∧ depth = 0 <;> simp [hnl, hsemi]

/-- The first piece starts where the glyphs do. -/
theorem exists_cut_eq_cons (start depth : Nat) (gs : List Glyph) :
    ∃ text rest, cut start depth gs = ⟨start, text⟩ :: rest := by
  cases gs with
  | nil => exact ⟨[], [], rfl⟩
  | cons g gs =>
    rw [cut_cons]
    split
    · exact ⟨_, _, rfl⟩
    · obtain ⟨text, rest, heq⟩ := exists_cut_eq_cons (start + g.char.utf8Size) (g.nest depth) gs
      rw [heq]
      exact ⟨_, _, rfl⟩

/-- **Pieces stand one behind the other**, within the bounds of the glyphs. -/
theorem cut_apart (start depth : Nat) (gs : List Glyph) :
    (cut start depth gs).Pairwise (fun p q => p.stop ≤ q.start) ∧
      ∀ p ∈ cut start depth gs, start ≤ p.start ∧ p.stop ≤ start + Text.bytes (Glyph.chars gs) := by
  induction gs generalizing start depth with
  | nil =>
    refine ⟨List.pairwise_singleton _ _, fun p hp => ?_⟩
    obtain rfl := List.mem_singleton.mp hp
    exact ⟨Nat.le_refl _, Nat.le_refl _⟩
  | cons g gs ih =>
    have hbytes : Text.bytes (Glyph.chars (g :: gs)) =
        g.char.utf8Size + Text.bytes (Glyph.chars gs) := rfl
    rw [cut_cons, hbytes]
    split
    · obtain ⟨hpairwise, hbounds⟩ := ih (start + g.char.utf8Size) 0
      refine ⟨List.pairwise_cons.mpr ⟨fun q hq => ?_, hpairwise⟩, fun p hp => ?_⟩
      · have := hbounds q hq
        show start + 0 ≤ q.start
        omega
      · rcases List.mem_cons.mp hp with rfl | hp
        · show start ≤ start ∧ start + 0 ≤ _
          omega
        · have := hbounds p hp
          omega
    · obtain ⟨hpairwise, hbounds⟩ := ih (start + g.char.utf8Size) (g.nest depth)
      obtain ⟨text, rest, heq⟩ := exists_cut_eq_cons (start + g.char.utf8Size) (g.nest depth) gs
      rw [heq] at hpairwise hbounds ⊢
      obtain ⟨hhead, hrest⟩ := List.pairwise_cons.mp hpairwise
      -- the first piece has grown to the left and ends where it did
      have hstop : stop (extend start g.char ⟨start + g.char.utf8Size, text⟩) =
          stop ⟨start + g.char.utf8Size, text⟩ := (Nat.add_assoc _ _ _).symm
      refine ⟨List.pairwise_cons.mpr ⟨fun q hq => hstop ▸ hhead q hq, hrest⟩, fun p hp => ?_⟩
      rcases List.mem_cons.mp hp with rfl | hp
      · have := (hbounds _ List.mem_cons_self).2
        refine ⟨Nat.le_refl _, ?_⟩
        rw [hstop]
        omega
      · have := hbounds p (List.mem_cons_of_mem _ hp)
        omega

/-- Where there are no structural braces, brackets are counted from the start of a piece. -/
theorem depth_of_endsAt (depth : Nat) {g : Glyph} (hopen : g.is '{' = false)
    (hclose : g.is '}' = false) :
    (if g.resets then 0 else g.nest depth) = if endsAt depth g then 0 else g.nest depth := by
  unfold Glyph.resets endsAt
  rw [hopen, hclose, Bool.or_false, Bool.or_false]
  by_cases hnl : g.is '\n' = true
  · simp [hnl]
  · by_cases hsemi : g.is ';' = true
    · obtain ⟨hquoted, hchar⟩ := Glyph.is_iff.mp hsemi
      have hnest : g.nest depth = depth := by
        rw [Glyph.nest, hquoted, hchar]
        rfl
      by_cases hdepth : depth = 0
      · subst hdepth
        simp [hnl, hsemi, hnest]
      · simp [hnl, hsemi, hdepth]
    · simp [hnl, hsemi]

/-- **Every glyph is in a piece or ends one.** -/
theorem exists_piece_of_glyph {pre : List Glyph} (g : Glyph) (post : List Glyph)
    (start depth : Nat) (hbraces : ∀ x ∈ pre, x.is '{' = false ∧ x.is '}' = false) :
    endsAt (Glyph.depthFrom depth pre) g = true ∨
      ∃ p ∈ cut start depth (pre ++ g :: post), ∃ a b, p.text = a ++ g.char :: b ∧
        p.start + Text.bytes a = start + Text.bytes (Glyph.chars pre) := by
  induction pre generalizing start depth with
  | nil =>
    rw [List.nil_append, cut_cons]
    by_cases hends : endsAt depth g = true
    · exact .inl hends
    · obtain ⟨text, rest, heq⟩ := exists_cut_eq_cons (start + g.char.utf8Size) (g.nest depth) post
      rw [if_neg hends, heq]
      exact .inr ⟨_, List.mem_cons_self, [], text, rfl, rfl⟩
  | cons x pre ih =>
    obtain ⟨hopen, hclose⟩ := hbraces x List.mem_cons_self
    have hbraces' := fun y hy => hbraces y (List.mem_cons_of_mem x hy)
    have hbytes : start + Text.bytes (Glyph.chars (x :: pre)) =
        start + x.char.utf8Size + Text.bytes (Glyph.chars pre) := (Nat.add_assoc _ _ _).symm
    rw [List.cons_append, cut_cons, hbytes]
    have hdepth : Glyph.depthFrom depth (x :: pre) =
        Glyph.depthFrom (if endsAt depth x then 0 else x.nest depth) pre := by
      rw [← depth_of_endsAt depth hopen hclose]
      rfl
    rw [hdepth]
    by_cases hends : endsAt depth x = true
    · rw [if_pos hends, if_pos hends]
      obtain hg | ⟨p, hp, hrest⟩ := ih (start + x.char.utf8Size) 0 hbraces'
      · exact .inl hg
      · exact .inr ⟨p, List.mem_cons_of_mem _ hp, hrest⟩
    · rw [if_neg hends, if_neg hends]
      obtain hg | ⟨p, hp, a, b, htext, hpos⟩ := ih (start + x.char.utf8Size) (x.nest depth) hbraces'
      · exact .inl hg
      · refine .inr ?_
        obtain ⟨text, rest, heq⟩ := exists_cut_eq_cons (start + x.char.utf8Size) (x.nest depth)
          (pre ++ g :: post)
        rw [heq] at hp ⊢
        rcases List.mem_cons.mp hp with rfl | hp
        · refine ⟨_, List.mem_cons_self, x.char :: a, b, congrArg (x.char :: ·) htext, ?_⟩
          show start + (x.char.utf8Size + Text.bytes a) = _
          rw [← hpos]
          exact (Nat.add_assoc _ _ _).symm
        · exact ⟨p, List.mem_cons_of_mem _ hp, a, b, htext, hpos⟩

/-! ## The statement in a piece -/

/-- A statement lies in its piece and is not empty. -/
theorem span_of_visit? {p : Piece} {block : BlockId} {v : Visit} (h : p.visit? block = some v) :
    v.block = block ∧ p.start ≤ v.span.start ∧ v.span.start < v.span.stop ∧
      v.span.stop ≤ p.stop := by
  cases htext : Text.isBlankText p.text with
  | true => exact absurd (h.symm.trans (visit?_of_blank block htext)) (by simp)
  | false =>
    obtain rfl := Option.some.inj ((visit?_of_not_blank block htext).symm.trans h)
    obtain ⟨post, -, hsplit⟩ := Text.eq_append_trim p.text
    have hbytes := congrArg Text.bytes hsplit
    rw [Text.bytes_append, Text.bytes_append] at hbytes
    have hne : Text.bytes (Text.trim p.text) ≠ 0 := fun hzero => by
      rw [Text.bytes_eq_zero_iff, Text.trim_eq_nil_iff, htext] at hzero
      exact Bool.false_ne_true hzero
    refine ⟨rfl, Nat.le_add_right _ _, ?_, ?_⟩
    · simp only
      omega
    · simp only [stop]
      omega

/-- **A character that is no blank is in the statement of its piece.** -/
theorem exists_visit_of_char (block : BlockId) {p : Piece} {a b : Text} {c : Char}
    (htext : p.text = a ++ c :: b) (hc : Text.isBlank c = false) :
    ∃ v, p.visit? block = some v ∧ v.span.start ≤ p.start + a.bytes ∧
      p.start + a.bytes + c.utf8Size ≤ v.span.stop := by
  have hblank : ∀ t : Text, Text.isBlankText t = true → c ∉ t := fun t ht hmem => by
    have := List.all_eq_true.mp ht c hmem
    rw [hc] at this
    exact Bool.false_ne_true this
  have hnot : Text.isBlankText p.text = false := by
    rw [← Bool.not_eq_true]
    intro ht
    exact hblank _ ht (htext ▸ List.mem_append_right a List.mem_cons_self)
  obtain ⟨post, hpost, hsplit⟩ := Text.eq_append_trim p.text
  refine ⟨_, visit?_of_not_blank block hnot, ?_⟩
  have hlead := hblank _ (Text.isBlankText_takeWhile p.text)
  generalize p.text.takeWhile Text.isBlank = lead at hsplit hlead ⊢
  generalize Text.trim p.text = said at hsplit ⊢
  rw [htext] at hsplit
  -- the character is behind the blanks in front
  have hle : Text.bytes lead ≤ a.bytes := by
    by_contra hlt
    obtain ⟨m, hm, hrest⟩ := Text.exists_between hsplit (Nat.le_of_not_le hlt)
    cases m with
    | nil => exact hlt (Nat.le_of_eq (by rw [hm, List.append_nil]))
    | cons d m =>
      obtain ⟨rfl, -⟩ := List.cons.inj hrest
      exact hlead (hm ▸ List.mem_append_right a List.mem_cons_self)
  obtain ⟨m, rfl, hrest⟩ := Text.exists_between hsplit.symm hle
  -- and before those at the end
  have hlt : m.bytes < said.bytes := by
    by_contra hge
    obtain ⟨m', -, hm'⟩ := Text.exists_between hrest (Nat.le_of_not_lt hge)
    exact hblank post hpost (hm' ▸ List.mem_append_right m' List.mem_cons_self)
  have := Text.stop_le_of_border hrest ⟨said, post, rfl, rfl⟩ hlt
  simp only [Text.bytes_append]
  omega

end Piece

namespace Visit

/-- **Statements one behind the other**, none of them empty, between two positions. -/
structure Ordered (lo hi : Nat) (vs : List Visit) : Prop where
  apart : vs.Pairwise fun v w => v.span.stop ≤ w.span.start
  inside : ∀ v ∈ vs, lo ≤ v.span.start ∧ v.span.start < v.span.stop ∧ v.span.stop ≤ hi

namespace Ordered

variable {lo mid hi : Nat} {vs ws : List Visit}

theorem nil (lo hi : Nat) : Ordered lo hi [] :=
  ⟨.nil, fun _ hv => absurd hv List.not_mem_nil⟩

theorem mono {lo' hi' : Nat} (h : Ordered lo hi vs) (hlo : lo' ≤ lo) (hhi : hi ≤ hi') :
    Ordered lo' hi' vs :=
  ⟨h.apart, fun v hv => by
    have := h.inside v hv
    omega⟩

theorem append (h : Ordered lo mid vs) (h' : Ordered mid hi ws) (hlo : lo ≤ mid) (hhi : mid ≤ hi) :
    Ordered lo hi (vs ++ ws) := by
  refine ⟨List.pairwise_append.mpr ⟨h.apart, h'.apart, fun v hv w hw => ?_⟩, fun v hv => ?_⟩
  · exact Nat.le_trans (h.inside v hv).2.2 (h'.inside w hw).1
  · rcases List.mem_append.mp hv with hv | hv
    · exact (h.mono (Nat.le_refl _) hhi).inside v hv
    · exact (h'.mono hlo (Nat.le_refl _)).inside v hv

end Ordered

/-! ## Segments of a source -/

variable {source : Text} {block : BlockId} {lo hi : Nat}

theorem block_of_mem_ofSpan {s : Span} {v : Visit} (h : v ∈ ofSpan source block s) :
    v.block = block := by
  obtain ⟨p, -, hp⟩ := List.mem_filterMap.mp h
  exact (Piece.span_of_visit? hp).1

/-- **The statements of a segment stand in it, in order.** -/
theorem ofSpan_ordered (block : BlockId) (hlo : Text.Border source lo)
    (hhi : Text.Border source hi) : Ordered lo hi (ofSpan source block ⟨lo, hi⟩) := by
  by_cases hle : lo ≤ hi
  · obtain ⟨a, m, b, rfl, rfl, rfl⟩ := hlo.exists_text hhi hle
    obtain ⟨hpairwise, hbounds⟩ := Piece.cut_apart a.bytes 0 m.glyphs
    rw [Text.chars_glyphs] at hbounds
    unfold ofSpan
    rw [Text.slice_append]
    refine ⟨List.pairwise_filterMap.mpr (hpairwise.imp fun hpq v hv w hw => ?_), fun v hv => ?_⟩
    · have := Piece.span_of_visit? hv
      have := Piece.span_of_visit? hw
      omega
    · obtain ⟨p, hp, hv⟩ := List.mem_filterMap.mp hv
      have := Piece.span_of_visit? hv
      have := hbounds p hp
      omega
  · unfold ofSpan
    rw [Text.slice_of_stop_le source (Nat.le_of_not_le hle)]
    exact .nil lo hi

/-- **A segment is read as it is in the source**: a character of the segment splits the glyphs of
both, and no bracket is open in the source where the segment starts. -/
theorem exists_split_of_fresh (hlo : Text.Fresh source lo) (hhi : Text.Border source hi)
    {pre post : Text} {c : Char} (hsource : source = pre ++ c :: post) (hge : lo ≤ pre.bytes)
    (hlt : pre.bytes < hi) :
    ∃ outer before g after rest, (Text.slice source ⟨lo, hi⟩).glyphs = before ++ g :: after ∧
      source.glyphs = (outer ++ before) ++ g :: rest ∧ g.char = c ∧
      Text.bytes (Glyph.chars outer) = lo ∧ Glyph.depthFrom 0 outer = 0 ∧
      lo + Text.bytes (Glyph.chars before) = pre.bytes := by
  -- the segment `m` between the text before it and the text behind it
  obtain ⟨a, m, b, hsplit, ha, hm⟩ := hlo.border.exists_text hhi (by omega)
  obtain ⟨a', rest, hrest, ha', hglyphs, hdepth⟩ := hlo
  obtain ⟨rfl, rfl⟩ := Text.append_inj_of_bytes_eq (hrest.symm.trans hsplit) (ha'.trans ha.symm)
  subst ha hm
  -- the character in the segment
  obtain ⟨pre, rfl, hchar⟩ := Text.exists_between (hsplit.symm.trans hsource) hge
  rw [Text.bytes_append] at hlt ⊢
  obtain ⟨k, rfl, hk⟩ := Text.exists_between hchar.symm (by omega)
  obtain ⟨k, rfl⟩ : ∃ k', k = c :: k' := by
    cases k with
    | nil =>
      rw [List.append_nil] at hlt
      exact absurd hlt (Nat.lt_irrefl _)
    | cons d k => exact ⟨k, by rw [(List.cons.inj hk).1]⟩
  have hseg : (Text.slice source ⟨a'.bytes, a'.bytes + Text.bytes (pre ++ c :: k)⟩).glyphs =
      Text.glyphs pre ++ Text.glyphsFrom (Quoting.after .outside pre) (c :: k) := by
    rw [hsplit, Text.slice_append]
    exact Text.glyphsFrom_append _ pre (c :: k)
  have hwhole : source.glyphs = (Text.glyphs a' ++ Text.glyphs pre) ++
      Text.glyphsFrom (Quoting.after .outside pre) (c :: (k ++ b)) := by
    rw [hglyphs, List.append_assoc pre, List.append_assoc]
    exact congrArg _ (Text.glyphsFrom_append _ pre _)
  refine ⟨Text.glyphs a', Text.glyphs pre, ⟨c, _⟩, _, _, hseg, hwhole, rfl, ?_, hdepth, ?_⟩
  · rw [Text.chars_glyphs]
  · rw [Text.chars_glyphs]

/-- **Every character of a segment is in a statement, a blank or a separator**, if there is no
structural brace in the segment. -/
theorem exists_visit_of_char (block : BlockId) (hlo : Text.Fresh source lo)
    (hhi : Text.Border source hi)
    (hbraces : ∀ b ∈ Brace.ofSource source, lo ≤ b.offset → hi ≤ b.offset) {pre post : Text}
    {c : Char} (hsource : source = pre ++ c :: post) (hc : Text.isBlank c = false)
    (hge : lo ≤ pre.bytes) (hlt : pre.bytes < hi) :
    Text.IsSeparator source pre.bytes ∨ ∃ v ∈ ofSpan source block ⟨lo, hi⟩,
      v.span.start ≤ pre.bytes ∧ pre.bytes + c.utf8Size ≤ v.span.stop := by
  obtain ⟨outer, before, g, after, rest, hseg, hwhole, rfl, houter, hdepth, hbefore⟩ :=
    exists_split_of_fresh hlo hhi hsource hge hlt
  have hclean : ∀ x ∈ before, x.is '{' = false ∧ x.is '}' = false := by
    intro x hx
    obtain ⟨before₁, before₂, rfl⟩ := List.append_of_mem hx
    rw [← Bool.not_eq_true, ← Bool.not_eq_true, ← not_or]
    intro hbrace
    rw [← List.append_assoc outer, List.append_assoc, List.cons_append] at hwhole
    obtain ⟨b, hb, hoff⟩ := Brace.exists_of_glyph hwhole hbrace
    have := hbraces b hb
    have := x.char.utf8Size_pos
    rw [Glyph.chars_append, Text.bytes_append] at hoff
    rw [Glyph.chars_append, Glyph.chars_cons, Text.bytes_append, Text.bytes_cons] at hbefore
    omega
  rcases Piece.exists_piece_of_glyph g after lo 0 hclean with hends | hpiece
  · left
    unfold Piece.endsAt at hends
    rw [Bool.or_eq_true, Bool.and_eq_true, beq_iff_eq] at hends
    rcases hends with hnl | ⟨hsemi, hzero⟩
    · rw [(Glyph.is_iff.mp hnl).2] at hc
      exact absurd hc (by decide)
    · refine ⟨_, g, rest, hwhole, hsemi, ?_, ?_⟩
      · rw [Glyph.depthFrom_append, hdepth, hzero]
      · rw [Glyph.chars_append, Text.bytes_append, houter, hbefore]
  · right
    obtain ⟨p, hp, u, w, htext, hpos⟩ := hpiece
    obtain ⟨v, hv, hstart, hstop⟩ := Piece.exists_visit_of_char block htext hc
    refine ⟨v, List.mem_filterMap.mpr ⟨p, ?_, hv⟩, by omega, by omega⟩
    rw [hseg]
    exact hp

end Visit
end BraceTree
