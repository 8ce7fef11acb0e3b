import BraceTree.Proofs.Header.Headed
import BraceTree.Proofs.Statement.Pieces

/-!
# Statements and headers tile the source

A walk through a block alternates between segments of its own and its children. The segments end
where the headers of the children start, so segments, headers and children tile the body: what is in
no segment is a child, a header or a blank between the two. This needs no assumption on headers. One
that reaches back over other children leaves an empty segment, and what it reaches over is in those
children.

`Ahead` is the state of the walk. Three inductions along it say that statements come in order, that
each belongs to the block whose body it is found in, and that nothing is lost.
-/

namespace BraceTree

/-! ## What a child takes of the body -/

namespace Block.HeaderStands

variable {source : Text} {b : Block}

theorem claimed_start (h : b.HeaderStands source) : b.claimed.start = b.headerSpan.start := by
  obtain ⟨before, header, gap, rest, -, -, hspan, hstart⟩ := h
  refine Nat.min_eq_left ?_
  rw [hspan]
  show before.bytes ≤ b.span.start
  omega

theorem border_claimed_start (h : b.HeaderStands source) :
    Text.Border source b.claimed.start := by
  rw [h.claimed_start]
  obtain ⟨before, header, gap, rest, hsource, -, hspan, -⟩ := h
  exact ⟨before, _, hsource, by rw [hspan]⟩

/-- **What stands before the brace of a child is its header**, up to blanks. -/
theorem covers_of_char (h : b.HeaderStands source) {pre post : Text} {c : Char}
    (hsource : source = pre ++ c :: post) (hc : Text.isBlank c = false)
    (hge : b.claimed.start ≤ pre.bytes) (hlt : pre.bytes < b.span.start) :
    b.headerSpan.start ≤ pre.bytes ∧ pre.bytes + c.utf8Size ≤ b.headerSpan.stop := by
  rw [h.claimed_start] at hge
  refine ⟨hge, ?_⟩
  obtain ⟨before, header, gap, rest, hsplit, hgap, hspan, hstart⟩ := h
  rw [hspan] at hge ⊢
  simp only at hge ⊢
  have hborder : Text.Border source (before.bytes + header.bytes) :=
    ⟨before ++ header, gap ++ rest, by rw [hsplit, List.append_assoc], Text.bytes_append _ _⟩
  by_cases hin : pre.bytes < before.bytes + header.bytes
  · exact Text.stop_le_of_border hsource hborder hin
  · -- behind the header there are only blanks
    exfalso
    have hsplit' : (before ++ header) ++ (gap ++ rest) = pre ++ c :: post := by
      rw [List.append_assoc, ← hsplit, hsource]
    obtain ⟨m, rfl, hrest⟩ := Text.exists_between hsplit' (by rw [Text.bytes_append]; omega)
    rw [Text.bytes_append, Text.bytes_append] at hlt
    obtain ⟨k, rfl, hk⟩ := Text.exists_between hrest.symm (by omega)
    cases k with
    | nil =>
      rw [List.append_nil] at hstart
      omega
    | cons d k =>
      obtain ⟨rfl, -⟩ := List.cons.inj hk
      have := List.all_eq_true.mp hgap c (List.mem_append_right m List.mem_cons_self)
      rw [hc] at this
      exact Bool.false_ne_true this

end Block.HeaderStands

namespace Visit

open BlockTree (root)

/-! ## The walk through a block -/

/-- **Where a walk through a block stands**: at a position where a reader may start, with some of
the children ahead and the others behind. -/
structure Ahead (source : Text) (t : BlockTree) (id : BlockId) (cursor : Nat) (cs : List BlockId) :
    Prop where
  fresh : Text.Fresh source cursor
  le_cursor : (t.get id).body.start ≤ cursor
  cursor_le : cursor ≤ (t.get id).body.stop
  mem_children : ∀ c ∈ cs, c ∈ (t.get id).children
  ordered : cs.Pairwise fun c d => (t.get c).span.stop ≤ (t.get d).span.start
  cursor_le_start : ∀ c ∈ cs, cursor ≤ (t.get c).span.start
  ahead_or_behind : ∀ c ∈ (t.get id).children, c ∈ cs ∨ (t.get c).span.stop ≤ cursor

variable {source : Text} {t : BlockTree} {id cursor bound : Nat} {cs : List BlockId}
  {inside : BlockId → List Visit}

theorem along_nil (t : BlockTree) (source : Text) (id : BlockId) (inside : BlockId → List Visit)
    (cursor : Nat) :
    along t source id inside cursor [] = ofSpan source id ⟨cursor, (t.get id).body.stop⟩ := rfl

theorem along_cons (t : BlockTree) (source : Text) (id : BlockId) (inside : BlockId → List Visit)
    (cursor : Nat) (c : BlockId) (cs : List BlockId) :
    along t source id inside cursor (c :: cs) =
      ofSpan source id ⟨cursor, (t.get c).claimed.start⟩ ++
        (inside c ++ along t source id inside (t.get c).span.stop cs) := rfl

theorem within_succ (t : BlockTree) (source : Text) (bound : Nat) (id : BlockId) :
    within t source (bound + 1) id =
      along t source id (within t source bound) (t.get id).body.start (t.get id).children := rfl

/-- The walk starts with all children ahead. -/
theorem Ahead.start (h : t.Headed source) (hid : id < t.size) :
    Ahead source t id (t.get id).body.start (t.get id).children where
  fresh := h.fresh_body_start hid
  le_cursor := Nat.le_refl _
  cursor_le := by
    by_cases hr : id = root
    · rw [hr, h.root_body]
      exact Nat.zero_le _
    · have hlen := (h.body_eq hr hid).1
      rw [(h.body_eq hr hid).2]
      simp only
      omega
  mem_children := fun _ hc => hc
  ordered := h.ordered id
  cursor_le_start := fun c hc => by
    obtain ⟨hclt, hp⟩ := h.mem_children_iff.mp hc
    exact (h.inside hclt hp).1
  ahead_or_behind := fun _ hc => .inl hc

/-- What is known of the next child. -/
theorem Ahead.head {c : BlockId} (h : t.Headed source) (ha : Ahead source t id cursor (c :: cs)) :
    c ≠ root ∧ c < t.size ∧ (t.get c).HeaderStands source ∧ cursor ≤ (t.get c).span.start ∧
      (t.get c).span.start < (t.get c).body.start ∧ (t.get c).body.start ≤ (t.get c).body.stop ∧
      (t.get c).body.stop + 1 = (t.get c).span.stop ∧
      (t.get c).span.stop ≤ (t.get id).body.stop := by
  have hmem := ha.mem_children c List.mem_cons_self
  obtain ⟨hc, hp⟩ := h.mem_children_iff.mp hmem
  have hr := h.ne_root_of_parent hp
  obtain ⟨hlen, hbody⟩ := h.body_eq hr hc
  refine ⟨hr, hc, h.header_stands hr hc, ha.cursor_le_start c List.mem_cons_self, ?_, ?_, ?_,
    (h.inside hc hp).2⟩ <;> rw [hbody] <;> simp only <;> omega

/-- The walk goes on behind the next child. -/
theorem Ahead.next {c : BlockId} (h : t.Headed source) (ha : Ahead source t id cursor (c :: cs)) :
    Ahead source t id (t.get c).span.stop cs := by
  obtain ⟨hr, hc, -, hcursor, hopen, hbody, hclose, hstop⟩ := ha.head h
  obtain ⟨hhead, hordered⟩ := List.pairwise_cons.mp ha.ordered
  refine ⟨h.fresh_span_stop hr hc, Nat.le_trans ha.le_cursor (by omega), hstop,
    fun d hd => ha.mem_children d (List.mem_cons_of_mem c hd), hordered, hhead, fun d hd => ?_⟩
  rcases ha.ahead_or_behind d hd with hd | hd
  · rcases List.mem_cons.mp hd with rfl | hd
    · exact .inr (Nat.le_refl _)
    · exact .inl hd
  · right
    omega

/-! ## Order -/

/-- **Along a block statements come in order**, if they do in the children. -/
theorem along_ordered (h : t.Headed source) (hid : id < t.size)
    (hinside : ∀ c < t.size, Ordered (t.get c).body.start (t.get c).body.stop (inside c)) :
    ∀ {cs : List BlockId} {cursor : Nat}, Ahead source t id cursor cs →
      Ordered cursor (t.get id).body.stop (along t source id inside cursor cs)
  | [], cursor, ha => ofSpan_ordered id ha.fresh.border (h.border_body_stop hid)
  | c :: cs, cursor, ha => by
    obtain ⟨-, hc, hheader, hcursor, hopen, hbody, hclose, hstop⟩ := ha.head h
    have hclaimed : (t.get c).claimed.start ≤ (t.get c).span.start := Nat.min_le_right _ _
    have hown := ofSpan_ordered id ha.fresh.border hheader.border_claimed_start
    have hchild : Ordered (t.get c).span.start (t.get c).span.stop (inside c) :=
      (hinside c hc).mono (Nat.le_of_lt hopen) (by omega)
    have hrest := along_ordered h hid hinside (ha.next h)
    rw [along_cons]
    refine (hown.mono (Nat.le_refl _) hclaimed).append ?_ hcursor (by omega)
    exact hchild.append hrest (by omega) hstop

theorem within_ordered (h : t.Headed source) : ∀ (bound : Nat) {id : Nat}, id < t.size →
    Ordered (t.get id).body.start (t.get id).body.stop (within t source bound id)
  | 0, _, _ => .nil _ _
  | bound + 1, id, hid => by
    rw [within_succ]
    exact along_ordered h hid (fun c hc => within_ordered h bound hc) (.start h hid)

/-! ## The blocks of statements -/

/-- **A statement along a block is in a segment of the block**, apart from all children, or in a
child. -/
theorem mem_along (h : t.Headed source) (hid : id < t.size) {v : Visit} :
    ∀ {cs : List BlockId} {cursor : Nat}, Ahead source t id cursor cs →
      v ∈ along t source id inside cursor cs →
      (v.block = id ∧ cursor ≤ v.span.start ∧
        ∀ c ∈ cs, v.span.stop ≤ (t.get c).span.start ∨ (t.get c).span.stop ≤ v.span.start) ∨
      ∃ c ∈ cs, v ∈ inside c
  | [], cursor, ha, hv => by
    rw [along_nil] at hv
    refine .inl ⟨block_of_mem_ofSpan hv, ?_, fun c hc => absurd hc List.not_mem_nil⟩
    exact ((ofSpan_ordered id ha.fresh.border (h.border_body_stop hid)).inside v hv).1
  | c :: cs, cursor, ha, hv => by
    obtain ⟨-, -, hheader, hcursor, hopen, hbody, hclose, -⟩ := ha.head h
    obtain ⟨hhead, -⟩ := List.pairwise_cons.mp ha.ordered
    rw [along_cons, List.mem_append, List.mem_append] at hv
    rcases hv with hv | hv | hv
    · -- a segment before the next child is before all that follow
      left
      have hin := (ofSpan_ordered id ha.fresh.border hheader.border_claimed_start).inside v hv
      have hclaimed : (t.get c).claimed.start ≤ (t.get c).span.start := Nat.min_le_right _ _
      refine ⟨block_of_mem_ofSpan hv, hin.1, fun d hd => .inl ?_⟩
      rcases List.mem_cons.mp hd with rfl | hd
      · omega
      · have := hhead d hd
        omega
    · exact .inr ⟨c, List.mem_cons_self, hv⟩
    · rcases mem_along h hid (ha.next h) hv with ⟨hblock, hstart, hapart⟩ | ⟨d, hd, hv⟩
      · refine .inl ⟨hblock, by omega, fun d hd => ?_⟩
        rcases List.mem_cons.mp hd with rfl | hd
        · exact .inr hstart
        · exact hapart d hd
      · exact .inr ⟨d, List.mem_cons_of_mem c hd, hv⟩

/-- **A statement belongs to the innermost block around each of its positions.** -/
theorem blockAtFrom_of_mem_within (h : t.Headed source) {v : Visit} {o : Nat}
    (ho : v.span.start ≤ o ∧ o < v.span.stop) : ∀ {bound id : Nat}, id < t.size →
      v ∈ within t source bound id → t.blockAtFrom o bound id = v.block
  | 0, _, _, hv => absurd hv List.not_mem_nil
  | bound + 1, id, hid, hv => by
    rw [within_succ] at hv
    have hcovers : ∀ c ∈ (t.get id).children, (t.get c).body.covers o = true →
        (t.get c).span.start < o ∧ o + 1 < (t.get c).span.stop := by
      intro c hc hco
      obtain ⟨hclt, hp⟩ := h.mem_children_iff.mp hc
      exact (h.covers_body_iff (h.ne_root_of_parent hp) hclt).mp hco
    rw [BlockTree.blockAtFrom_succ]
    rcases mem_along h hid (.start h hid) hv with ⟨hblock, -, hapart⟩ | ⟨c, hc, hv⟩
    · -- no child is around the position
      have hnone : ((t.get id).children.find? fun c => (t.get c).body.covers o) = none :=
        List.find?_eq_none.mpr fun c hc hco => by
          have := hcovers c hc hco
          have := hapart c hc
          omega
      rw [hnone]
      exact hblock.symm
    · -- the child is the only one around it
      obtain ⟨hclt, hp⟩ := h.mem_children_iff.mp hc
      have hbody := (within_ordered h bound hclt).inside v hv
      have hco : (t.get c).body.covers o = true := by
        rw [Span.covers_iff]
        omega
      cases hd : (t.get id).children.find? fun c => (t.get c).body.covers o with
      | none => exact absurd hco (List.find?_eq_none.mp hd c hc)
      | some d =>
        have hcspan := hcovers c hc hco
        have hdo := List.find?_some hd
        have hdspan := hcovers d (List.mem_of_find?_eq_some hd) hdo
        obtain rfl : d = c := Span.eq_of_apart (h.ordered id) (List.mem_of_find?_eq_some hd) hc
          (o := o) (by omega) (by omega)
        exact blockAtFrom_of_mem_within h ho hclt hv

/-! ## Nothing is lost -/

/-- **Where a character of a source can go**, given as the positions from its first byte to behind
its last one: it is a structural brace, or it is in a header, or it is a separator, or it is in a
statement. -/
def Placed (source : Text) (t : BlockTree) (visits : List Visit) (lo hi : Nat) : Prop :=
  (∃ b ∈ Brace.ofSource source, b.offset = lo) ∨
    (∃ c < t.size, (t.get c).headerSpan.start ≤ lo ∧ hi ≤ (t.get c).headerSpan.stop) ∨
    Text.IsSeparator source lo ∨ ∃ v ∈ visits, v.span.start ≤ lo ∧ hi ≤ v.span.stop

theorem Placed.mono {visits visits' : List Visit} {lo hi : Nat}
    (h : Placed source t visits lo hi) (hsub : ∀ v ∈ visits, v ∈ visits') :
    Placed source t visits' lo hi :=
  h.imp_right (.imp_right (.imp_right fun ⟨v, hv, hspan⟩ => ⟨v, hsub v hv, hspan⟩))

/-- Between the position of a walk and the next child there are no structural braces. -/
theorem Ahead.le_offset (h : t.Headed source)
    (hbalanced : Brace.Balanced (Brace.ofSource source)) (hid : id < t.size)
    (ha : Ahead source t id cursor cs) {hi : Nat} (hhi : hi ≤ (t.get id).body.stop)
    (hahead : ∀ c ∈ cs, hi ≤ (t.get c).span.start) :
    ∀ b ∈ Brace.ofSource source, cursor ≤ b.offset → hi ≤ b.offset := by
  intro b hb hcursor
  by_contra hlt
  have hle := ha.le_cursor
  obtain ⟨c, hc, hstart, hstop⟩ :=
    h.exists_child_of_brace hbalanced hid hb (by omega) (by omega)
  rcases ha.ahead_or_behind c hc with hc | hbehind
  · have := hahead c hc
    omega
  · omega

theorem mem_along_of_mem_inside {v : Visit} {c : BlockId} (hv : v ∈ inside c) :
    ∀ {cs : List BlockId} {cursor : Nat}, c ∈ cs → v ∈ along t source id inside cursor cs
  | d :: cs, cursor, hc => by
    rw [along_cons, List.mem_append, List.mem_append]
    rcases List.mem_cons.mp hc with rfl | hc
    · exact .inr (.inl hv)
    · exact .inr (.inr (mem_along_of_mem_inside hv hc))

/-- **Along a block every character goes somewhere**, or it is in a child. -/
theorem placed_along (h : t.Headed source) (hbalanced : Brace.Balanced (Brace.ofSource source))
    (hid : id < t.size) {pre post : Text} {c : Char} (hsource : source = pre ++ c :: post)
    (hc : Text.isBlank c = false) :
    ∀ {cs : List BlockId} {cursor : Nat}, Ahead source t id cursor cs → cursor ≤ pre.bytes →
      pre.bytes < (t.get id).body.stop →
      Placed source t (along t source id inside cursor cs) pre.bytes (pre.bytes + c.utf8Size) ∨
        ∃ d ∈ cs, (t.get d).span.start ≤ pre.bytes ∧ pre.bytes < (t.get d).span.stop
  | [], cursor, ha, hge, hlt => by
    refine .inl (.inr (.inr ?_))
    exact exists_visit_of_char id ha.fresh (h.border_body_stop hid)
      (ha.le_offset h hbalanced hid (Nat.le_refl _) fun d hd => absurd hd List.not_mem_nil)
      hsource hc hge hlt
  | d :: cs, cursor, ha, hge, hlt => by
    obtain ⟨-, hd, hheader, hcursor, hopen, hbody, hclose, hstop⟩ := ha.head h
    obtain ⟨hhead, -⟩ := List.pairwise_cons.mp ha.ordered
    have hclaimed : (t.get d).claimed.start ≤ (t.get d).span.start := Nat.min_le_right _ _
    rw [along_cons]
    by_cases hbefore : pre.bytes < (t.get d).claimed.start
    · -- in the segment before the next child
      have hfree := ha.le_offset h hbalanced hid (Nat.le_trans hclaimed (by omega))
        fun x hx => by
          rcases List.mem_cons.mp hx with rfl | hx
          · exact hclaimed
          · have := hhead x hx
            omega
      refine .inl (.inr (.inr ?_))
      refine (exists_visit_of_char id ha.fresh hheader.border_claimed_start hfree hsource hc hge
        hbefore).imp_right fun ⟨v, hv, hspan⟩ => ⟨v, List.mem_append_left _ hv, hspan⟩
    · by_cases hhere : pre.bytes < (t.get d).span.stop
      · by_cases hbrace : pre.bytes < (t.get d).span.start
        · exact .inl (.inr (.inl ⟨d, hd,
            hheader.covers_of_char hsource hc (Nat.le_of_not_lt hbefore) hbrace⟩))
        · exact .inr ⟨d, List.mem_cons_self, Nat.le_of_not_lt hbrace, hhere⟩
      · -- behind the next child
        rcases placed_along h hbalanced hid hsource hc (ha.next h) (Nat.le_of_not_lt hhere) hlt with
          hplaced | ⟨x, hx, hspan⟩
        · exact .inl (hplaced.mono fun v hv =>
            List.mem_append_right _ (List.mem_append_right _ hv))
        · exact .inr ⟨x, List.mem_cons_of_mem d hx, hspan⟩

/-- **In a body every character goes somewhere**, if the walk may go as deep as there is room. -/
theorem placed_within (h : t.Headed source) (hbalanced : Brace.Balanced (Brace.ofSource source))
    {pre post : Text} {c : Char} (hsource : source = pre ++ c :: post)
    (hc : Text.isBlank c = false) : ∀ {bound id : Nat}, id < t.size → t.room id < bound →
      (t.get id).body.start ≤ pre.bytes → pre.bytes < (t.get id).body.stop →
      Placed source t (within t source bound id) pre.bytes (pre.bytes + c.utf8Size)
  | 0, _, _, hroom, _, _ => absurd hroom (Nat.not_lt_zero _)
  | bound + 1, id, hid, hroom, hge, hlt => by
    rw [within_succ]
    rcases placed_along h hbalanced hid hsource hc (.start h hid) hge hlt with
      hplaced | ⟨d, hd, hstart, hstop⟩
    · exact hplaced
    · obtain ⟨hdlt, hp⟩ := h.mem_children_iff.mp hd
      have hr := h.ne_root_of_parent hp
      obtain ⟨hlen, hbody⟩ := h.body_eq hr hdlt
      have hmatched := h.matched hr hdlt
      -- one of the braces of the child, or in its body
      by_cases hopen : (t.get d).span.start = pre.bytes
      · exact .inl ⟨_, hmatched.open_mem, hopen⟩
      · by_cases hclose : (t.get d).span.stop - 1 = pre.bytes
        · exact .inl ⟨_, hmatched.close_mem, hclose⟩
        · have hfits : t.room d < bound :=
            Nat.lt_of_lt_of_le (h.room_lt hdlt hp) (Nat.le_of_lt_succ hroom)
          have hin := placed_within h hbalanced hsource hc hdlt hfits
            (by rw [hbody]; simp only; omega) (by rw [hbody]; simp only; omega)
          exact hin.mono fun v hv => mem_along_of_mem_inside hv hd

end Visit
end BraceTree
