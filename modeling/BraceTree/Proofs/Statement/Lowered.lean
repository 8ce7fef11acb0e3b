import BraceTree.Proofs.Header.Lowered
import BraceTree.Proofs.Statement.Lossless

/-!
# Programs with a brace on a line of its own

A brace may stand on the line of its header or below it. For a header that opens a block this is no
difference: with the brace on a later line the source has the same blocks, in the same places but
for the longer gap, and the block is told by the header that it had (`Program.header_of_lowered`).
A header that is not understood would be lost below its line, where it counts as text of the parent.
-/

namespace BraceTree.Program

open BlockTree (root SameFrames)

variable {source : Text} {e : Extraction}

/-- **A source whose braces match is parsed**, and statements leave the frames of its blocks. -/
theorem exists_of_extraction (he : Extraction.ofSource source = .ok e) (sourceId : Nat) :
    ∃ f p, f.Sound source e ∧ f.unplaced = [] ∧ ofText source sourceId = .ok p ∧
      SameFrames (classified source f) p.tree := by
  obtain ⟨f, hbuild, hsound, hdone⟩ := Forest.build_eq_ok he
  have hplace : place source = .ok f := by
    rw [place, he]
    exact hbuild
  have hp := ofText_of_place sourceId hplace
  obtain ⟨f', hplace', hframes⟩ := exists_sameFrames hp
  obtain rfl := Except.ok.inj (hplace.symm.trans hplace')
  exact ⟨f, _, hsound, hdone, hp, hframes⟩

/-- **It does not matter where the brace of a block stands.** Let the braces of a source match. Then
it is parsed, and if a block has a header on the line of its brace that opens a block, any blanks
with a newline among them may stand before the brace instead: the source with these is parsed, too,
every block is where it was, moved with its braces, under the parent it had, and the block has the
kind that it had, is not flagged, and has the same text as its header in the same place. -/
theorem header_of_lowered (he : Extraction.ofSource source = .ok e) (sourceId : Nat) :
    ∃ p, ofText source sourceId = .ok p ∧
      ∀ id : Nat, id ≠ root → id < p.tree.size → (p.tree.get id).HeadedOnLine source →
        ∀ blanks : Text, Text.isBlankText blanks = true → '\n' ∈ blanks →
          ∃ p', ofText ((p.tree.get id).respaced source blanks) sourceId = .ok p' ∧
            p'.tree.size = p.tree.size ∧
            (∀ c : Nat, c ≠ root → c < p.tree.size →
              (p'.tree.get c).span = (p.tree.get c).span.moved ((p.tree.get id).shift blanks) ∧
              (p'.tree.get c).parent = (p.tree.get c).parent) ∧
            (p.tree.get id).ToldAlike source ((p.tree.get id).respaced source blanks)
              (p'.tree.get id) := by
  obtain ⟨f, p, hsound, hdone, hp, hframes⟩ := exists_of_extraction he sourceId
  refine ⟨p, hp, fun id hr hid honline blanks hblanks hlower => ?_⟩
  have hbracketed := hsound.bracketed (Line.ofSource source) he hdone
  have hsize : p.tree.size = (f.finish (Line.ofSource source)).size :=
    hframes.size_eq.trans (BlockTree.size_classify _ _)
  rw [hsize] at hid
  rw [← Block.headedOnLine_frame, hframes.frame_eq, Block.headedOnLine_frame] at honline
  obtain ⟨k, header, q, rfl, hk⟩ := hbracketed.exists_cutAt hr hid honline
  have hrespaced : (p.tree.get id).respaced k.source blanks = (k.respaced hblanks).source :=
    (hframes.congr (Block.respaced · k.source blanks) (fun _ => rfl) id).trans
      (hk.respaced_eq hblanks)
  have hshift : (p.tree.get id).shift blanks = shiftFrom k.stop k.gap.bytes blanks.bytes :=
    (hframes.congr (Block.shift · blanks) (fun _ => rfl) id).trans (hk.shift_eq blanks)
  -- the other source has the same braces, so it is parsed, and its blocks correspond
  have he' := Extraction.ofSource_of_moved (hk.ofSource_respaced hbracketed hid hblanks)
  rw [he] at he'
  obtain ⟨f', p', hsound', hdone', hp', hframes'⟩ := exists_of_extraction he' sourceId
  have hmoved := Forest.Sound.moved_finish he he' hsound hdone hsound' hdone'
    (Line.ofSource k.source) (Line.ofSource (k.respaced hblanks).source)
  have hsize' : p'.tree.size = p.tree.size := by
    rw [hframes'.size_eq, hsize, classified, BlockTree.size_classify, hmoved.size_eq]
  refine ⟨p', hrespaced ▸ hp', hsize', fun c hcr hc => ?_, ?_⟩
  · rw [hshift, hframes.sameShape.span_eq, hframes'.sameShape.span_eq,
      hframes.sameShape.parent_eq, hframes'.sameShape.parent_eq]
    simp only [classified, BlockTree.span_classify, BlockTree.parent_classify]
    rw [hsize] at hc
    exact ⟨hmoved.span_eq hcr hc, hmoved.parent_eq hcr hc⟩
  · rw [hrespaced, ← Block.toldAlike_frame, hframes.frame_eq, hframes'.frame_eq,
      Block.toldAlike_frame]
    exact hmoved.toldAlike_respaced hk hid hlower

/-- A loop in a function, with no blank before its brace, is told alike with the brace four lines
below. -/
theorem header_of_lowered_of_loop : ∃ source blanks p p',
    source = "function f() \x7b val s : String = \"\x7b\"; while (s)\x7b \x7d \x7d".toList ∧
      blanks = " \n\t\n\n \n".toList ∧ Text.isBlankText blanks = true ∧ '\n' ∈ blanks ∧
      ofText source 0 = .ok p ∧ (p.tree.get 1).HeadedOnLine source ∧
      ofText ((p.tree.get 1).respaced source blanks) 0 = .ok p' ∧
      (p.tree.get 1).kind = .whileLoop "s" ∧ (p'.tree.get 1).kind = .whileLoop "s" := by
  generalize hsource :
    "function f() \x7b val s : String = \"\x7b\"; while (s)\x7b \x7d \x7d".toList = source
  generalize hblanks : " \n\t\n\n \n".toList = blanks
  obtain ⟨e, he⟩ : ∃ e, Extraction.ofSource source = .ok e := by
    rw [← hsource]
    exact ⟨_, rfl⟩
  have hparsed : (ofText source 0).toOption.map (fun p =>
      (p.tree.size, (p.tree.get 1).kind, (p.tree.get 1).headerSpan, (p.tree.get 1).span.start)) =
      some (3, .whileLoop "s", ⟨37, 46⟩, 46) := by
    rw [← hsource]
    decide +kernel
  have hblank : Text.isBlankText blanks = true := hblanks ▸ by decide
  have hlower : '\n' ∈ blanks := hblanks ▸ by decide
  obtain ⟨p, hp, hlowered⟩ := header_of_lowered he 0
  obtain ⟨p₀, hp₀, hfacts⟩ := exists_of_toOption_map hparsed
  obtain rfl := Except.ok.inj (hp₀.symm.trans hp)
  simp only [Prod.mk.injEq] at hfacts
  obtain ⟨hsize, hkind, hspan, hstart⟩ := hfacts
  have honline : (p₀.tree.get 1).HeadedOnLine source := by
    refine ⟨?_, ?_, ?_⟩ <;> rw [hspan] <;> subst hsource
    · decide
    · rw [hstart]
      decide
    · decide +kernel
  obtain ⟨p', hp', -, -, htold⟩ :=
    hlowered 1 (by decide) (by rw [hsize]; decide) honline blanks hblank hlower
  exact ⟨source, blanks, p₀, p', rfl, rfl, hblank, hlower, hp, honline, hp', hkind,
    htold.kind_eq.trans hkind⟩

end BraceTree.Program
