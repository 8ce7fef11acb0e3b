import BraceTree.Proofs.Statement.Reached
import BraceTree.Proofs.Statement.Tiling

/-!
# No text is lost

What the walk through a tree of bracket matching finds is what a parse carries out, and the tree
that the parse ends with is still such a tree: statements only fill scopes and lists of calls, and
leave the frames of the blocks as they are. So everything that was proved of the walk can be said of
a parsed program.
-/

namespace BraceTree

namespace BlockTree

/-- **Two trees with the same blocks, up to variables and calls.** -/
structure SameFrames (t t' : BlockTree) : Prop where
  size_eq : t'.size = t.size
  frame_eq : ∀ i : Nat, (t'.get i).frame = (t.get i).frame

variable {t t' : BlockTree} {source : Text}

namespace SameFrames

theorem refl (t : BlockTree) : SameFrames t t := ⟨rfl, fun _ => rfl⟩

theorem trans {t'' : BlockTree} (h : SameFrames t t') (h' : SameFrames t' t'') :
    SameFrames t t'' :=
  ⟨h'.size_eq.trans h.size_eq, fun i => (h'.frame_eq i).trans (h.frame_eq i)⟩

/-- Whatever is read off the frame of a block is the same. -/
theorem congr {α : Type} (h : SameFrames t t') (f : Block → α) (hf : ∀ b, f b.frame = f b)
    (i : Nat) : f (t'.get i) = f (t.get i) := by
  rw [← hf, h.frame_eq, hf]

theorem sameShape (h : SameFrames t t') : SameShape t t' where
  size_eq := h.size_eq
  parent_eq := h.congr Block.parent fun _ => rfl
  children_eq := h.congr Block.children fun _ => rfl
  span_eq := h.congr Block.span fun _ => rfl
  body_eq := h.congr Block.body fun _ => rfl

theorem headed (h : SameFrames t t') (ht : t.Headed source) : t'.Headed source where
  toBracketed := h.sameShape.bracketed ht.toBracketed
  header_stands := fun {c} hr hc => by
    rw [h.size_eq] at hc
    have hspan := h.sameShape.span_eq c
    have hheader := h.congr Block.headerSpan (fun _ => rfl) c
    unfold Block.HeaderStands
    rw [hspan, hheader]
    exact ht.header_stands hr hc

end SameFrames

theorem sameFrames_modify (t : BlockTree) (id : Nat) {f : Block → Block}
    (hf : ∀ b, (f b).frame = b.frame) : SameFrames t (t.modify id f) := by
  refine ⟨t.size_modify id f, fun i => ?_⟩
  rw [get_modify]
  split
  · exact hf _
  · rfl

end BlockTree

open BlockTree (SameFrames sameFrames_modify)

variable {source : Text} {lines : List Line} {t t' : BlockTree}

/-- **A statement leaves the frames of all blocks**, whatever it says and wherever it stands. -/
theorem Statement.sameFrames_of_apply {s : Statement} {block : BlockId} {span : Span}
    (h : s.apply lines t block span = .ok t') : SameFrames t t' := by
  cases s with
  | declaration isMutable name typeText init =>
    obtain ⟨type, b, -, hdeclare⟩ := Statement.declareVariable_eq_ok h
    obtain ⟨s, -, rfl⟩ := Option.map_eq_some_iff.mp hdeclare
    exact sameFrames_modify t block fun _ => rfl
  | update name op operand =>
    obtain ⟨binding, rfl⟩ : ∃ binding, (t.setBinding? block name binding).getD t = t' := by
      replace h : Statement.updateVariable lines t block name op operand = .ok t' := h
      unfold Statement.updateVariable at h
      split at h
      · exact absurd h (by simp)
      · split at h
        · split at h
          · exact absurd h (by simp)
          · exact ⟨_, Except.ok.inj h⟩
        · exact absurd h (by simp)
    cases hset : t.setBinding? block name binding with
    | none => exact .refl t
    | some t₁ =>
      obtain ⟨⟨owner, v⟩, -, hmap⟩ := Option.bind_eq_some_iff.mp hset
      obtain ⟨s, -, rfl⟩ := Option.map_eq_some_iff.mp hmap
      exact sameFrames_modify t owner fun _ => rfl
  | call c =>
    obtain rfl := Except.ok.inj h
    exact sameFrames_modify t block fun _ => rfl

namespace Visit

theorem sameFrames_of_run (lines : List Line) (visits : List Visit) (t : BlockTree) :
    SameFrames t (run lines t visits).1 :=
  run_induction lines (.refl t) fun _ _ _ _ _ _ hframes happly =>
    hframes.trans (Statement.sameFrames_of_apply happly)

theorem along_congr (h : SameFrames t t') (source : Text) (id : BlockId)
    {inside inside' : BlockId → List Visit} (hinside : ∀ c, inside' c = inside c) :
    ∀ (cs : List BlockId) (cursor : Nat),
      along t' source id inside' cursor cs = along t source id inside cursor cs
  | [], cursor => by
    rw [along_nil, along_nil, h.sameShape.body_eq]
  | c :: cs, cursor => by
    have hclaimed := h.congr Block.claimed (fun _ => rfl) c
    rw [along_cons, along_cons, hclaimed, hinside, h.sameShape.span_eq,
      along_congr h source id hinside cs]

theorem within_congr (h : SameFrames t t') (source : Text) : ∀ (bound : Nat) (id : BlockId),
    within t' source bound id = within t source bound id
  | 0, _ => rfl
  | bound + 1, id => by
    rw [within_succ, within_succ, h.sameShape.body_eq, h.sameShape.children_eq,
      along_congr h source id (within_congr h source bound)]

/-- **Statements do not change which statements there are.** -/
theorem all_congr (h : SameFrames t t') (source : Text) : all t' source = all t source := by
  have hbound : t'.depthBound = t.depthBound :=
    congrArg (· + 2) (congrArg Span.stop (h.sameShape.span_eq BlockTree.root))
  rw [all, all, hbound, within_congr h]

/-! ## All statements of a source -/

theorem all_ordered (h : t.Headed source) : Ordered 0 source.bytes (all t source) := by
  have hordered := within_ordered h t.depthBound h.size_pos
  rw [h.root_body, h.root_span] at hordered
  exact hordered

theorem blockAt_of_mem_all (h : t.Headed source) {v : Visit} (hv : v ∈ all t source) {o : Nat}
    (ho : v.span.start ≤ o ∧ o < v.span.stop) : t.blockAt o = v.block :=
  blockAtFrom_of_mem_within h ho h.size_pos hv

theorem placed_all (h : t.Headed source) (hbalanced : Brace.Balanced (Brace.ofSource source))
    {pre post : Text} {c : Char} (hsource : source = pre ++ c :: post)
    (hc : Text.isBlank c = false) :
    Placed source t (all t source) pre.bytes (pre.bytes + c.utf8Size) := by
  refine placed_within h hbalanced hsource hc h.size_pos h.room_lt_depthBound ?_ ?_
  · rw [h.root_body]
    exact Nat.zero_le _
  · have := c.utf8Size_pos
    have hbytes := congrArg Text.bytes hsource
    rw [Text.bytes_append, Text.bytes_cons] at hbytes
    rw [h.root_body, h.root_span]
    simp only
    omega

end Visit

/-! ## The statements of a parsed program -/

namespace Text

/-- The character at the position of a glyph is that of the glyph. -/
theorem char_of_glyph {pre post : Text} {c : Char} {before after : List Glyph} {g : Glyph}
    (hsource : source = pre ++ c :: post) (hglyphs : source.glyphs = before ++ g :: after)
    (hbytes : bytes (Glyph.chars before) = bytes pre) : g.char = c := by
  have hchars : Glyph.chars before ++ g.char :: Glyph.chars after = pre ++ c :: post := by
    rw [← Glyph.chars_cons, ← Glyph.chars_append, ← hglyphs, chars_glyphs, hsource]
  obtain ⟨-, hrest⟩ := append_inj_of_bytes_eq hchars hbytes
  exact (List.cons.inj hrest).1

end Text

namespace Program

variable {sourceId : Nat} {p : Program} {f : Forest}

theorem headed_classified (hf : place source = .ok f) :
    (classified source f).Headed source ∧ Brace.Balanced (Brace.ofSource source) := by
  obtain ⟨e, he, hsound, hdone⟩ := place_eq_ok hf
  refine ⟨(hsound.bracketed _ he hdone).headed_classify, ?_⟩
  rw [← Extraction.braces_of_ofSource he]
  exact (Extraction.exact_of_ofSource he).balanced

/-- The statements of a source leave the frames of its blocks. -/
theorem exists_sameFrames (hp : ofText source sourceId = .ok p) :
    ∃ f, place source = .ok f ∧ BlockTree.SameFrames (classified source f) p.tree := by
  obtain ⟨f, hf, htree⟩ := ofText_eq_ok hp
  exact ⟨f, hf, htree ▸ Visit.sameFrames_of_run _ _ _⟩

/-- The blocks of a parsed program nest. -/
theorem nested_tree (hp : ofText source sourceId = .ok p) : p.tree.Nested := by
  obtain ⟨f, hf, hframes⟩ := exists_sameFrames hp
  exact (hframes.headed (headed_classified hf).1).toNested

/-- **The statements of a program tile its source with headers, braces and separators.** They are
carried out one behind the other in the order of the source, and none is empty. Every byte of a
character that is no blank and no structural brace lies in a header, or is a separator, or lies in
exactly one statement. And the block that a statement is carried out in is the innermost one around
each of its bytes. -/
theorem statements_tile (hp : ofText source sourceId = .ok p) :
    ∃ f visits, place source = .ok f ∧ visits = Visit.all (classified source f) source ∧
      p.tree = (Visit.run (Line.ofSource source) (classified source f) visits).1 ∧
      visits = Visit.all p.tree source ∧
      (visits.Pairwise fun v w => v.span.stop ≤ w.span.start) ∧
      (∀ v ∈ visits, v.span.start < v.span.stop ∧ v.span.stop ≤ source.bytes) ∧
      (∀ (pre post : Text) (c : Char), source = pre ++ c :: post → Text.isBlank c = false →
        ∀ o, pre.bytes ≤ o → o < pre.bytes + c.utf8Size →
          (∀ b ∈ Brace.ofSource source, b.offset ≠ o) →
            (∃ id < p.tree.size, (p.tree.get id).headerSpan.covers o = true) ∨
            Text.IsSeparator source o ∨ ∃! v, v ∈ visits ∧ v.span.covers o = true) ∧
      ∀ v ∈ visits, ∀ o, v.span.covers o = true → p.tree.blockAt o = v.block := by
  obtain ⟨f, hf, htree⟩ := ofText_eq_ok hp
  obtain ⟨hclassified, hbalanced⟩ := headed_classified hf
  have hframes : SameFrames (classified source f) p.tree := by
    rw [htree]
    exact Visit.sameFrames_of_run _ _ _
  have hheaded := hframes.headed hclassified
  have hall := Visit.all_congr hframes source
  have hordered := Visit.all_ordered hheaded
  rw [← hall] at htree
  refine ⟨f, Visit.all p.tree source, hf, hall, htree, rfl, hordered.apart,
    fun v hv => (hordered.inside v hv).2, ?_, fun v hv o ho =>
      Visit.blockAt_of_mem_all hheaded hv (Span.covers_iff.mp ho)⟩
  intro pre post c hsource hc o hge hlt hbrace
  rcases Visit.placed_all hheaded hbalanced hsource hc with
    ⟨b, hb, hoff⟩ | ⟨id, hid, hstart, hstop⟩ | hsep | ⟨v, hv, hstart, hstop⟩
  · -- a structural brace is one byte
    obtain ⟨before, g, after, hglyphs, hbytes, hg⟩ := Brace.exists_glyph hb
    have hchar := Text.char_of_glyph hsource hglyphs (hbytes.symm.trans hoff)
    have hsize : c.utf8Size = 1 := by
      rw [← hchar]
      rcases hg with hg | hg <;> rw [(Glyph.is_iff.mp hg).2] <;> rfl
    exact absurd (show b.offset = o by omega) (hbrace b hb)
  · exact .inl ⟨id, hid, Span.covers_iff.mpr ⟨by omega, by omega⟩⟩
  · -- and so is a separator
    obtain ⟨before, g, after, hglyphs, hg, hdepth, hbytes⟩ := hsep
    have hchar := Text.char_of_glyph hsource hglyphs hbytes
    have hsize : c.utf8Size = 1 := by
      rw [← hchar, (Glyph.is_iff.mp hg).2]
      rfl
    exact .inr (.inl ⟨before, g, after, hglyphs, hg, hdepth, by omega⟩)
  · refine .inr (.inr ⟨v, ⟨hv, Span.covers_iff.mpr ⟨by omega, by omega⟩⟩, fun w hw => ?_⟩)
    exact Span.eq_of_apart hordered.apart hw.1 hv (Span.covers_iff.mp hw.2) ⟨by omega, by omega⟩

/-- Two statements in a block with a header. -/
theorem statements_tile_of_two :
    ∃ p, ofText "else {a; b}".toList 0 = .ok p ∧
      (Visit.all p.tree "else {a; b}".toList).map (·.span) = [⟨6, 7⟩, ⟨9, 10⟩] ∧
      ∀ v ∈ Visit.all p.tree "else {a; b}".toList, ∀ o, v.span.covers o = true →
        p.tree.blockAt o = v.block := by
  have hspans : ((ofText "else {a; b}".toList 0).toOption.map fun p =>
      (Visit.all p.tree "else {a; b}".toList).map (·.span)) = some [⟨6, 7⟩, ⟨9, 10⟩] := by
    decide +kernel
  cases hp : ofText "else {a; b}".toList 0 with
  | error d =>
    rw [hp] at hspans
    exact absurd hspans (by simp [Except.toOption])
  | ok p =>
    rw [hp] at hspans
    obtain ⟨f, visits, -, -, -, rfl, -, -, -, hblock⟩ := statements_tile hp
    exact ⟨p, rfl, Option.some.inj hspans, hblock⟩

end Program
end BraceTree
