import BraceTree.Proofs.Header.Appended
import BraceTree.Proofs.Statement.Lossless

/-!
# The statements of a source that goes on

The statements of a source are cut out of its segments, and all segments but the last one of the
root end where they ended. The last one goes on over the newline, but a newline ends every
statement, and so the longer source has the statements of the first one and then others behind them
(`Visit.exists_all_append`). These are in new blocks, or in the root.
-/

namespace BraceTree

/-- **A newline cuts glyphs in two**, and the brackets that were left open before it are forgotten.
-/
theorem Piece.cut_append_newline (gs hs : List Glyph) : ∀ start depth,
    cut start depth (gs ++ ⟨'\n', false⟩ :: hs) =
      cut start depth gs ++ cut (start + Text.bytes (Glyph.chars gs) + 1) 0 hs := by
  induction gs with
  | nil =>
    intro start depth
    rw [List.nil_append, cut_cons, if_pos (by rfl)]
    rfl
  | cons g gs ih =>
    intro start depth
    have hbytes : start + Text.bytes (Glyph.chars (g :: gs)) =
        start + g.char.utf8Size + Text.bytes (Glyph.chars gs) := (Nat.add_assoc _ _ _).symm
    rw [List.cons_append, cut_cons, cut_cons, ih, ih, hbytes]
    split
    · rfl
    · obtain ⟨text, rest, heq⟩ :=
        exists_cut_eq_cons (start + g.char.utf8Size) (g.nest depth) gs
      rw [heq]
      rfl

/-- Behind the newline a reader may start. -/
theorem Text.fresh_newline (source further : Text) :
    Fresh (source ++ '\n' :: further) (source.bytes + 1) := by
  refine ⟨source ++ ['\n'], further, List.append_cons _ _ _, bytes_append _ _, ?_, ?_⟩
  · rw [glyphs, glyphs, glyphsFrom_append_newline, glyphsFrom_append_newline, List.append_assoc]
    rfl
  · rw [glyphs, glyphsFrom_append_newline, Glyph.depthFrom_append]
    rfl

namespace Visit

open BlockTree (root Headed Grows)

variable {source further : Text} {t t' : BlockTree} {lo hi : Nat}

/-! ## Segments -/

theorem ofSpan_append_left (block : BlockId) (hlo : Text.Border source lo)
    (hhi : Text.Border source hi) (further : Text) :
    ofSpan (source ++ further) block ⟨lo, hi⟩ = ofSpan source block ⟨lo, hi⟩ := by
  rw [ofSpan, ofSpan, Text.slice_append_left hlo hhi]

/-- **A segment that reaches over the newline has the statements before it and those behind it.** -/
theorem ofSpan_across (block : BlockId) (hlo : Text.Border source lo)
    (hhi : Text.Border (source ++ '\n' :: further) hi) (hle : source.bytes + 1 ≤ hi) :
    ofSpan (source ++ '\n' :: further) block ⟨lo, hi⟩ = ofSpan source block ⟨lo, source.bytes⟩ ++
      ofSpan (source ++ '\n' :: further) block ⟨source.bytes + 1, hi⟩ := by
  have hbytes : lo + Text.bytes (Text.slice source ⟨lo, source.bytes⟩) = source.bytes := by
    obtain ⟨a, b, rfl, rfl⟩ := hlo
    have hcut := Text.slice_append a b []
    rw [List.append_nil, ← Text.bytes_append] at hcut
    rw [hcut, Text.bytes_append]
  rw [ofSpan, Text.slice_across hlo hhi hle, Text.glyphs, Text.glyphsFrom_append_newline,
    Piece.cut_append_newline, List.filterMap_append, Text.chars_glyphsFrom, hbytes]
  rfl

/-! ## Walks -/

/-- The statements in a block belong to that block or to blocks in it. -/
theorem block_of_mem_within {P : Nat → Prop} (h : t.Headed source)
    (hP : ∀ p c : Nat, P p → c ∈ (t.get p).children → P c) {v : Visit} :
    ∀ {bound id : Nat}, id < t.size → P id → v ∈ within t source bound id → P v.block
  | 0, _, _, _, hv => absurd hv List.not_mem_nil
  | bound + 1, id, hid, hPid, hv => by
    rw [within_succ] at hv
    rcases mem_along h hid (.start h hid) hv with ⟨hblock, -⟩ | ⟨c, hc, hv⟩
    · rw [hblock]
      exact hPid
    · exact block_of_mem_within h hP (h.mem_children_iff.mp hc).1 (hP id c hPid hc) hv

/-- Every statement is in a block of the tree, and it starts in the source. -/
theorem inside_of_mem_all (h : t.Headed source) {v : Visit} (hv : v ∈ all t source) :
    v.block < t.size ∧ v.span.start ≤ source.bytes := by
  have hspan := (all_ordered h).inside v hv
  refine ⟨block_of_mem_within (P := (· < t.size)) h (fun _ _ _ hc => ?_) h.size_pos h.size_pos hv,
    by omega⟩
  exact (h.mem_children_iff.mp hc).1

variable (hg : Grows t t') (h : t.Headed source) (h' : t'.Headed (source ++ '\n' :: further))

include hg h

/-- Along an old block the statements are the same, if they are in its children. -/
theorem along_eq {id : Nat} (hr : id ≠ root) (hid : id < t.size)
    {inside inside' : BlockId → List Visit} (further : Text)
    (hinside : ∀ c ∈ (t.get id).children, inside' c = inside c) :
    ∀ {cs : List BlockId} {cursor : Nat}, Ahead source t id cursor cs →
      along t' (source ++ further) id inside' cursor cs = along t source id inside cursor cs
  | [], cursor, ha => by
    rw [along_nil, along_nil, hg.get_eq hr hid,
      ofSpan_append_left id ha.fresh.border (h.border_body_stop hid)]
  | c :: cs, cursor, ha => by
    obtain ⟨hcr, hc, hheader, -⟩ := ha.head h
    rw [along_cons, along_cons, hg.get_eq hcr hc, hinside c (ha.mem_children c List.mem_cons_self),
      ofSpan_append_left id ha.fresh.border hheader.border_claimed_start,
      along_eq hr hid further hinside (ha.next h)]

/-- **In an old block the statements are the same.** -/
theorem within_eq (further : Text) : ∀ {bound bound' id : Nat}, id ≠ root → id < t.size →
    t.room id < bound → t.room id < bound' →
      within t' (source ++ further) bound' id = within t source bound id
  | bound + 1, bound' + 1, id, hr, hid, hb, hb' => by
    rw [within_succ, within_succ, hg.get_eq hr hid]
    refine along_eq hg h hr hid further (fun c hc => ?_) (.start h hid)
    obtain ⟨hclt, hp⟩ := h.mem_children_iff.mp hc
    have := h.room_lt hclt hp
    exact within_eq further (h.ne_root_of_parent hp) hclt (by omega) (by omega)

include h'

omit hg h in
/-- Over the newline a walk through the root goes on as if it started there. -/
theorem along_across {inside : BlockId → List Visit} (hlo : Text.Border source lo) :
    ∀ {cs : List BlockId}, (∀ c ∈ cs, c ≠ root ∧ c < t'.size ∧
        source.bytes < (t'.get c).headerSpan.start) →
      along t' (source ++ '\n' :: further) root inside lo cs =
        ofSpan source root ⟨lo, source.bytes⟩ ++
          along t' (source ++ '\n' :: further) root inside (source.bytes + 1) cs
  | [], _ => by
    rw [along_nil, along_nil, h'.root_body, h'.root_span]
    refine ofSpan_across root hlo (Text.border_bytes _) ?_
    rw [Text.bytes_append_newline]
    exact Nat.le_add_right _ _
  | c :: cs, hcs => by
    obtain ⟨hr, hc, hbehind⟩ := hcs c List.mem_cons_self
    have hheader := h'.header_stands hr hc
    have hstart : source.bytes + 1 ≤ (t'.get c).claimed.start := by
      rw [hheader.claimed_start]
      exact hbehind
    rw [along_cons, along_cons, ofSpan_across root hlo hheader.border_claimed_start hstart,
      List.append_assoc]

/-- **Along the root the statements are those it had**, and then others. -/
theorem along_root {inside inside' : BlockId → List Visit} {more : List BlockId}
    (hinside : ∀ c ∈ (t.get root).children, inside' c = inside c)
    (hmore : ∀ c ∈ more, c ≠ root ∧ c < t'.size ∧
      source.bytes < (t'.get c).headerSpan.start) :
    ∀ {cs : List BlockId} {cursor : Nat}, Ahead source t root cursor cs →
      along t' (source ++ '\n' :: further) root inside' cursor (cs ++ more) =
        along t source root inside cursor cs ++
          along t' (source ++ '\n' :: further) root inside' (source.bytes + 1) more
  | [], cursor, ha => by
    rw [List.nil_append, along_nil, h.root_body, h.root_span]
    exact along_across h' ha.fresh.border hmore
  | c :: cs, cursor, ha => by
    obtain ⟨hcr, hc, hheader, -⟩ := ha.head h
    rw [List.cons_append, along_cons, along_cons, hg.get_eq hcr hc,
      hinside c (ha.mem_children c List.mem_cons_self),
      ofSpan_append_left root ha.fresh.border hheader.border_claimed_start,
      along_root hinside hmore (ha.next h)]
    simp only [List.append_assoc]

/-- **A source that goes on has its statements and then others**, which stand behind the newline in
the root or in new blocks. -/
theorem exists_all_append (hbehind : ∀ {c : Nat}, t.size ≤ c → c < t'.size →
      source.bytes < (t'.get c).headerSpan.start) :
    ∃ rest, all t' (source ++ '\n' :: further) = all t source ++ rest ∧
      ∀ v ∈ rest, t.Rim v.block ∧ v.block < t'.size ∧ source.bytes < v.span.start := by
  obtain ⟨more, hchildren, hnew⟩ := hg.exists_children
  have hmem : ∀ c ∈ more, c ∈ (t'.get root).children := fun c hc =>
    hchildren ▸ List.mem_append_right _ hc
  have hmore : ∀ c ∈ more, c ≠ root ∧ c < t'.size ∧
      source.bytes < (t'.get c).headerSpan.start := fun c hc => by
    obtain ⟨hclt, hp⟩ := h'.mem_children_iff.mp (hmem c hc)
    exact ⟨h'.ne_root_of_parent hp, hclt, hbehind (hnew c hc) hclt⟩
  have hbytes := Text.bytes_append_newline source further
  have hahead : Ahead (source ++ '\n' :: further) t' root (source.bytes + 1) more :=
    { fresh := Text.fresh_newline source further
      le_cursor := by
        rw [h'.root_body]
        exact Nat.zero_le _
      cursor_le := by
        rw [h'.root_body, h'.root_span]
        simp only
        omega
      mem_children := hmem
      ordered := by
        have := h'.ordered root
        rw [hchildren] at this
        exact (List.pairwise_append.mp this).2.1
      cursor_le_start := fun c hc => by
        have := hg.behind (hnew c hc) (hmore c hc).2.1
        rw [h.root_span] at this
        exact this
      ahead_or_behind := fun c hc => by
        rw [hchildren, List.mem_append] at hc
        refine hc.symm.imp_right fun hc => ?_
        obtain ⟨hclt, hp⟩ := h.mem_children_iff.mp hc
        have hstop := h.span_stop_le hclt
        rw [h.root_span] at hstop
        rw [hg.get_eq (h.ne_root_of_parent hp) hclt]
        exact Nat.le_succ_of_le hstop }
  refine ⟨along t' (source ++ '\n' :: further) root
    (within t' (source ++ '\n' :: further) ((t'.get root).span.stop + 1)) (source.bytes + 1) more,
    ?_, fun v hv => ?_⟩
  · show within t' _ ((t'.get root).span.stop + 1 + 1) root =
      within t source ((t.get root).span.stop + 1 + 1) root ++ _
    have hbody : (t'.get root).body.start = (t.get root).body.start := by
      rw [h.root_body, h'.root_body]
    rw [within_succ, within_succ, hchildren, hbody]
    refine along_root hg h h' (fun c hc => ?_) hmore (.start h h.size_pos)
    obtain ⟨hclt, hp⟩ := h.mem_children_iff.mp hc
    have hroom := h.room_lt hclt hp
    have hroot := h.room_root
    have hspan : (t.get root).span.stop ≤ (t'.get root).span.stop := by
      rw [h.root_span, h'.root_span]
      simp only
      omega
    exact within_eq hg h _ (h.ne_root_of_parent hp) hclt (by omega) (by omega)
  · have hstart := (along_ordered h' h'.size_pos (fun c hc => within_ordered h' _ hc)
      hahead).inside v hv
    have hnested := h.toNested
    have hnested' := h'.toNested
    rcases mem_along h' h'.size_pos hahead hv with ⟨hblock, -⟩ | ⟨c, hc, hv⟩
    · exact ⟨.inl hblock, hblock ▸ h'.size_pos, hstart.1⟩
    · have hin : t.size ≤ v.block ∧ v.block < t'.size :=
        block_of_mem_within (P := fun b => t.size ≤ b ∧ b < t'.size) h' (fun p c hp hc => by
          obtain ⟨hclt, hpar⟩ := h'.mem_children_iff.mp hc
          exact ⟨hg.size_le_of_parent hnested hnested' hp.1 hpar, hclt⟩)
          (hmore c hc).2.1 ⟨hnew c hc, (hmore c hc).2.1⟩ hv
      exact ⟨.inr hin.1, hin.2, hstart.1⟩

end Visit
end BraceTree
