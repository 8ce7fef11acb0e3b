import BraceTree.Proofs.Statement.Appended
import BraceTree.Proofs.Statement.OneReading
import BraceTree.Proofs.Text.Located

/-!
# Statements are the pieces of lines

Two scans cut at semicolons. The one for statements goes over a whole segment, keeps the position of
each piece, cuts at newlines as well and forgets there which brackets are open. The other one is the
cut of lists into elements: it knows no lines and no positions. On a line by itself they take the
same steps (`Piece.texts_cut_of_line`), and a newline is where the first one starts afresh. So the
statements of a segment are the pieces of its lines, each line cut on its own, and nothing that is
left open on one line, be it a bracket or a literal, is known on another
(`Visit.statements_of_lines`).
-/

namespace BraceTree

namespace Text

/-- The statements on a line: the trimmed pieces between its semicolons that are not empty. -/
def statements (line : Text) : List Text := (splitTopLevel ';' line).filter fun t => !t.isEmpty

end Text

namespace Glyph

/-- The glyphs of a text without newlines have none. -/
theorem is_newline_of_mem {t : Text} (hline : '\n' ∉ t) {g : Glyph} (hg : g ∈ t.glyphs) :
    g.is '\n' = false := by
  have hmem : g.char ∈ t := by
    rw [← Text.chars_glyphs t]
    exact List.mem_map_of_mem hg
  refine Bool.eq_false_iff.mpr fun his => hline ?_
  exact (is_iff.mp his).2 ▸ hmem

end Glyph

namespace Piece

/-- **On a line the two scans take the same steps**, whatever is open at its start. -/
theorem texts_cut_of_line {gs : List Glyph} (hline : ∀ g ∈ gs, g.is '\n' = false) :
    ∀ start depth : Nat, (cut start depth gs).map (·.text) = Text.splitGlyphs ';' depth gs := by
  induction gs with
  | nil => exact fun _ _ => rfl
  | cons g gs ih =>
    intro start depth
    obtain ⟨hg, hgs⟩ := List.forall_mem_cons.mp hline
    have hextend : ∀ depth', ((cut (start + g.char.utf8Size) depth' gs).modifyHead
        (extend start g.char)).map (·.text) =
          (Text.splitGlyphs ';' depth' gs).modifyHead (g.char :: ·) := fun depth' => by
      rw [← ih hgs (start + g.char.utf8Size) depth']
      cases cut (start + g.char.utf8Size) depth' gs <;> rfl
    simp only [cut, Text.splitGlyphs]
    by_cases hquoted : g.quoted = true
    · rw [if_pos hquoted, if_pos hquoted, hextend]
    · have hnewline : g.char ≠ '\n' := fun heq => by simp [Glyph.is, hquoted, heq] at hg
      rw [if_neg hquoted, if_neg hquoted, if_neg hnewline]
      split
      · exact hextend _
      · split
        · exact hextend _
        · split
          · rw [List.map_cons, ih hgs]
          · exact hextend _

/-- **A newline cuts a text in two.** -/
theorem cut_glyphs_newline (start depth : Nat) (a b : Text) :
    cut start depth (Text.glyphs (a ++ '\n' :: b)) =
      cut start depth a.glyphs ++ cut (start + a.bytes + 1) 0 b.glyphs := by
  rw [Text.glyphs, Text.glyphsFrom_append_newline, cut_append_newline, Text.chars_glyphsFrom]
  rfl

/-- The pieces of joined lines are those of the lines. -/
theorem texts_cut_intercalate : ∀ {lines : List Text}, lines ≠ [] → (∀ l ∈ lines, '\n' ∉ l) →
    ∀ start : Nat, (cut start 0 (Text.glyphs ((['\n'] : Text).intercalate lines))).map (·.text) =
      lines.flatMap fun line => Text.splitGlyphs ';' 0 line.glyphs
  | [line], _, hlines, start => by
    rw [List.intercalate_singleton, List.flatMap_singleton]
    exact texts_cut_of_line
      (fun _ => Glyph.is_newline_of_mem (hlines line List.mem_cons_self)) start 0
  | line :: l :: lines, _, hlines, start => by
    obtain ⟨hline, hrest⟩ := List.forall_mem_cons.mp hlines
    rw [List.intercalate_cons_cons, List.append_assoc, List.singleton_append, cut_glyphs_newline,
      List.map_append, texts_cut_of_line (fun _ => Glyph.is_newline_of_mem hline),
      texts_cut_intercalate (List.cons_ne_nil l lines) hrest]
    rfl

/-- **The pieces of a text are those of its lines**, each line cut on its own. -/
theorem texts_cut (t : Text) (start : Nat) : (cut start 0 t.glyphs).map (·.text) =
    (Text.splitAt '\n' t).flatMap fun line => Text.splitGlyphs ';' 0 line.glyphs := by
  obtain ⟨hjoin, hlines⟩ := Text.intercalate_splitAt '\n' t
  have htexts := texts_cut_intercalate (Text.splitAt_ne_nil '\n' t) hlines start
  rwa [hjoin] at htexts

/-- Of pieces the statements are the trimmed texts that are not empty. -/
theorem texts_filterMap_visit? (block : BlockId) (ps : List Piece) :
    (ps.filterMap (visit? block)).map (·.text) =
      ((ps.map (·.text)).map Text.trim).filter fun t => !t.isEmpty := by
  induction ps with
  | nil => rfl
  | cons p ps ih =>
    rw [List.map_cons, List.map_cons, List.filterMap_cons, List.filter_cons, ← ih]
    cases hblank : (Text.trim p.text).isEmpty <;> simp [visit?, hblank]

end Piece

namespace Visit

/-- The statements of a block in a text that starts at a position of the source. -/
def ofText (block : BlockId) (start : Nat) (t : Text) : List Visit :=
  (Piece.cut start 0 t.glyphs).filterMap (Piece.visit? block)

/-- The texts of the statements in a text are the statements on its lines. -/
theorem texts_ofText (block : BlockId) (start : Nat) (t : Text) :
    (ofText block start t).map (·.text) = (Text.splitAt '\n' t).flatMap Text.statements := by
  rw [ofText, Piece.texts_filterMap_visit?, Piece.texts_cut, List.map_flatMap, List.filter_flatMap]
  rfl

/-- **A newline parts statements**: those before it are where they would be without what follows,
and those behind it are where they would be without what precedes. -/
theorem ofText_append_newline (block : BlockId) (start : Nat) (a b : Text) :
    ofText block start (a ++ '\n' :: b) =
      ofText block start a ++ ofText block (start + a.bytes + 1) b := by
  rw [ofText, Piece.cut_glyphs_newline, List.filterMap_append, ofText, ofText]

/-- The statements of a whole source. -/
theorem ofSpan_source (source : Text) (block : BlockId) :
    ofSpan source block ⟨0, source.bytes⟩ = ofText block 0 source := by
  have hslice := Text.slice_append [] source []
  rw [List.nil_append, List.append_nil, Text.bytes_nil, Nat.zero_add] at hslice
  rw [ofSpan, hslice]
  rfl

/-- **The statements of a source are the pieces of the lines of its segments**: in any part of a
source, and so in the segments of any tree, the statements are those on its lines, each line cut at
its semicolons like a list at its separators. A line that is added before or behind changes no
statement of the others, and moves them by its length. -/
theorem statements_of_lines (t : BlockTree) (source : Text) :
    ((all t source).map (·.text) = (Segment.all t).flatMap fun s =>
      (Text.splitAt '\n' (Text.slice source s.span)).flatMap Text.statements) ∧
    (∀ (block : BlockId) (s : Span), ofSpan source block s =
        ofText block s.start (Text.slice source s) ∧
      (ofSpan source block s).map (·.text) =
        (Text.splitAt '\n' (Text.slice source s)).flatMap Text.statements) ∧
    ∀ (block : BlockId) (start : Nat) (above line below : Text),
      ofText block start (above ++ '\n' :: (line ++ '\n' :: below)) = ofText block start above ++
        (ofText block (start + above.bytes + 1) line ++
          ofText block (start + above.bytes + 1 + line.bytes + 1) below) := by
  refine ⟨?_, fun block s => ⟨rfl, texts_ofText block s.start _⟩,
    fun block start above line below => ?_⟩
  · rw [Segment.all_eq_flatMap, List.map_flatMap]
    exact List.flatMap_congr fun s _ => texts_ofText s.block s.span.start _
  · rw [ofText_append_newline, ofText_append_newline]

end Visit
end BraceTree
