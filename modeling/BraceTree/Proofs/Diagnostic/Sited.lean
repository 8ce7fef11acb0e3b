import BraceTree.Proofs.Brace.Extracted
import BraceTree.Proofs.Diagnostic.Listed
import BraceTree.Proofs.Header.Sited
import BraceTree.Proofs.Statement.Claimed
import BraceTree.Proofs.Statement.Sited

/-!
# Every position is sound

A parse reports positions of many kinds, and each kind is computed in its own way: braces are found
in one scan of the source, blocks lie between them, headers are looked for backwards, statements are
cut out of what is left, and lines are looked up. Each way was followed in its own module. Put
together, they say that whatever a parse tells about a source, it tells of a part of the source that
is there (`Program.positions_sound`): all spans are within bounds and end between characters.

So no cut of the parse can go wrong. `BlockTree.slices` lists what is cut out of the source: the
bodies of blocks, what the searches for headers read (`Header.find?_eq_inLine?`), and what
statements are cut out of (`Segment.all_eq_flatMap`). To read the text of a header, a statement, an
expression or a type, parts of that text are cut out in turn. They are not listed, since they are
parts of a text and not of the source, and no position is computed from them.
-/

namespace BraceTree

open Text (Cuts Marks Border)
open BlockTree (root)

/-! ## What it means to be sound -/

/-- **A diagnostic that stands where it says**, with the number of newlines before it as its
line. -/
structure Diagnostic.Sited (source : Text) (d : Diagnostic) : Prop where
  marks : Marks source d.span
  line : d.line = (source.takeBytes d.span.start).count '\n'

/-- **A block that stands where it says.** -/
structure Block.Sited (source : Text) (b : Block) : Prop where
  span : ∃ t, Cuts source b.span t
  /-- The text of a block is what stands between its braces. -/
  body : Cuts source b.body b.text.toList
  header : ∃ t, Cuts source b.headerSpan t ∧ '\n' ∉ t

/-- **A block in the body of another one**, which starts at `floor`. -/
structure Block.SitedFrom (source : Text) (floor : Nat) (b : Block) : Prop where
  braces : Cuts source b.span ('{' :: (b.text.toList ++ ['}']))
  /-- The header does not start before the body of the parent. -/
  floor_le : floor ≤ b.headerSpan.start
  /-- Between the header and the brace there are only blanks. -/
  gap : ∃ t, Cuts source ⟨b.headerSpan.stop, b.span.start⟩ t ∧ Text.isBlankText t = true

/-- **The parts of a source that a parse cuts out**, told from the tree that it makes: for every
block its body, what the search for its header looks at, and the header, and then what statements
are cut out of, and they themselves. The cuts that are made in the text of a header or a statement
are cuts of that text and not listed. -/
def BlockTree.slices (source : Text) (t : BlockTree) : List Span :=
  ((List.range t.size).flatMap fun id =>
    match (t.get id).parent with
    | none => []
    | some p => (t.get id).body :: (t.get id).headerSpan ::
        Header.slices source (t.get p).body.start (t.get id).span.start) ++
  (Segment.all t).flatMap (Segment.slices source)

/-- **A program whose positions are sound.** -/
structure Program.Sited (source : Text) (p : Program) : Prop where
  diagnostics : ∀ d ∈ p.diagnostics, d.Sited source
  /-- Diagnostics are listed by where they start and then by where they end, and so line by line. -/
  ordered : p.diagnostics.Pairwise fun a b =>
    (a.span.start < b.span.start ∨ a.span.start = b.span.start ∧ a.span.stop ≤ b.span.stop) ∧
      a.line ≤ b.line
  lines : ∀ l ∈ p.lines, Cuts source l.span l.text.toList
  blocks : ∀ id < p.tree.size, (p.tree.get id).Sited source
  nested : ∀ id < p.tree.size, id ≠ root → ∃ parent < p.tree.size,
    (p.tree.get id).parent = some parent ∧
      (p.tree.get id).SitedFrom source (p.tree.get parent).body.start
  declared : ∀ id, ∀ v ∈ (p.tree.get id).scope.toList, Marks source v.span
  called : ∀ id, ∀ c ∈ (p.tree.get id).calls, Marks source c.span
  /-- Headers, variables and calls lie within one line each. -/
  around : ∀ id < p.tree.size, ∀ s ∈ (p.tree.get id).headerSpan ::
    ((p.tree.get id).scope.toList.map (·.span) ++ (p.tree.get id).calls.map (·.span)),
      ∃ l ∈ p.lines, l.span.start ≤ s.start ∧ s.stop ≤ l.span.stop
  slices : ∀ s ∈ p.tree.slices source, Cuts source s (Text.slice source s)

variable {source : Text} {sourceId : Nat} {p : Program} {f : Forest} {x : Finding}

/-! ## Braces and blocks -/

namespace Brace

/-- A structural brace is marked by its span. -/
theorem marks_spanAt {b : Brace} (hb : b ∈ ofSource source) : Marks source (spanAt b.offset) := by
  obtain ⟨pre, post, hsource, hoff⟩ := exists_text_of_mem hb
  have hchar : b.char.utf8Size = 1 ∧ '\n' ≠ b.char := by
    rw [char]
    split <;> decide
  refine ⟨[b.char], ⟨pre, post, hsource, ?_⟩, List.cons_ne_nil _ _, ?_⟩
  · rw [spanAt, hoff, Text.bytes_cons, hchar.1]
    rfl
  · rw [List.mem_singleton]
    exact hchar.2

/-- **A matched pair is cut out of the source**, and so is what stands between the braces. -/
theorem Matched.cuts {s : Span} (h : Matched (ofSource source) s) :
    ∃ m, Cuts source s ('{' :: (m ++ ['}'])) ∧ Cuts source ⟨s.start + 1, s.stop - 1⟩ m := by
  obtain ⟨a, m, b, hsource, hs⟩ := h.exists_text
  have hcuts : Cuts source s (['{'] ++ (m ++ ['}'])) := by
    refine ⟨a, b, ?_, by rw [hs, Text.bytes_append]; rfl⟩
    rw [hsource]
    simp
  have hstop := hcuts.stop_eq
  rw [Text.bytes_append, Text.bytes_append] at hstop
  have hbraces : Text.bytes ['{'] = 1 ∧ Text.bytes ['}'] = 1 := ⟨rfl, rfl⟩
  have hpart := hcuts.part
  rw [hbraces.1, show s.start + 1 + Text.bytes m = s.stop - 1 by omega] at hpart
  exact ⟨m, hcuts, hpart⟩

end Brace

namespace Program

/-- Only the search for blocks ends a parse: blocks that are found can be placed. -/
theorem place_eq_error (h : place source = .error x) : Extraction.ofSource source = .error x := by
  unfold place at h
  cases he : Extraction.ofSource source with
  | error y =>
    rw [he] at h
    exact congrArg Except.error (Except.error.inj h)
  | ok e =>
    obtain ⟨f, hf, -⟩ := Forest.build_eq_ok he
    rw [he] at h
    cases hf.symm.trans h

/-- **What ends a parse is a brace.** -/
theorem marks_of_place_eq_error (h : place source = .error x) : Marks source x.span := by
  have herror := place_eq_error h
  rcases Extraction.ofSource_cases source with ⟨⟨e, he⟩, -⟩ | ⟨⟨c, hc, hx⟩ | ⟨-, o, ho, hx⟩, -⟩
  · cases he.symm.trans herror
  · obtain ⟨pre, post, hstructural, -⟩ := hc
    obtain rfl := Except.error.inj (hx.symm.trans herror)
    rw [← Brace.ofSource_eq_structural] at hstructural
    exact Brace.marks_spanAt (hstructural ▸ List.mem_append_right pre List.mem_cons_self)
  · obtain ⟨pre, post, hstructural, -⟩ := ho
    obtain rfl := Except.error.inj (hx.symm.trans herror)
    rw [← Brace.ofSource_eq_structural] at hstructural
    exact Brace.marks_spanAt (hstructural ▸ List.mem_append_right pre List.mem_cons_self)

/-- The blocks of a source are placed in a tree of bracket matching. -/
theorem bracketed_finish (hf : place source = .ok f) (lines : List Line) :
    (f.finish lines).Bracketed source := by
  obtain ⟨e, he, hsound, hdone⟩ := place_eq_ok hf
  exact hsound.bracketed lines he hdone

/-- Blocks say what they said when they were found. -/
theorem text_tree (hp : ofText source sourceId = .ok p) {c : Nat} (hr : c ≠ root)
    (hc : c < p.tree.size) :
    (p.tree.get c).text = (Block.provisional source (p.tree.get c).span).text := by
  obtain ⟨f, hf, hframes⟩ := exists_sameFrames hp
  obtain ⟨e, he, hsound, hdone⟩ := place_eq_ok hf
  rw [hframes.size_eq, classified, BlockTree.size_classify, Forest.size_finish] at hc
  rw [hframes.congr Block.text fun _ => rfl, hframes.sameShape.span_eq, classified,
    BlockTree.text_classify, BlockTree.span_classify]
  have hblock := congrArg Block.text (hsound.get_finish_eq (Line.ofSource source) hr hc)
  exact hblock

/-- The root says all of the source, and has no header. -/
theorem root_tree (hp : ofText source sourceId = .ok p) :
    (p.tree.get root).headerSpan = ⟨0, 0⟩ ∧
      (p.tree.get root).text = String.ofList source := by
  obtain ⟨f, hf, hframes⟩ := exists_sameFrames hp
  obtain ⟨e, he, hsound, hdone⟩ := place_eq_ok hf
  have hparent := (bracketed_finish hf (Line.ofSource source)).root_parent
  rw [hframes.congr Block.headerSpan fun _ => rfl, hframes.congr Block.text fun _ => rfl,
    classified, BlockTree.get_classify, if_pos (by rw [hparent]; rfl),
    Forest.get_finish _ f hsound.root_lt]
  have hroot := hsound.root_unlinked
  exact ⟨congrArg Block.headerSpan hroot, congrArg Block.text hroot⟩

theorem sited_root (hp : ofText source sourceId = .ok p) : (p.tree.get root).Sited source := by
  have h := bounded_tree hp
  obtain ⟨hheader, htext⟩ := root_tree hp
  refine ⟨⟨source, ?_⟩, ?_, [], ?_, List.not_mem_nil⟩
  · rw [h.root_span]
    exact Text.cuts_all source
  · rw [h.root_body, h.root_span, htext, String.toList_ofList]
    exact Text.cuts_all source
  · rw [hheader]
    exact Text.cuts_nil ⟨[], source, rfl, rfl⟩

/-- **Every other block stands in the body of its parent**, behind its header. -/
theorem sited_of_parent (hp : ofText source sourceId = .ok p) {c q : Nat}
    (hparent : (p.tree.get c).parent = some q) :
    (p.tree.get c).Sited source ∧
      (p.tree.get c).SitedFrom source (p.tree.get q).body.start := by
  have h := bounded_tree hp
  have hc := p.tree.lt_size_of_parent hparent
  have hr := h.ne_root_of_parent hparent
  obtain ⟨m, hspan, hbody⟩ := (h.matched hr hc).cuts
  have htext : (p.tree.get c).text.toList = m := by
    rw [text_tree hp hr hc, Block.provisional, hbody.slice_eq, String.toList_ofList]
  rw [← (h.body_eq hr hc).2] at hbody
  have hheader : ∃ t, Cuts source (p.tree.get c).headerSpan t ∧ '\n' ∉ t := by
    obtain ⟨f, hf, hframes⟩ := exists_sameFrames hp
    rw [hframes.congr Block.headerSpan fun _ => rfl, classified]
    rw [hframes.sameShape.parent_eq, classified, BlockTree.parent_classify] at hparent
    exact (bracketed_finish hf _).exists_header_line (BlockTree.lt_size_of_parent _ hparent) hparent
  refine ⟨⟨⟨_, hspan⟩, ?_, hheader⟩, ?_, (h.header_bounded hc hparent).floor_le,
    (h.header_stands hr hc).cuts.2⟩
  · rw [htext]
    exact hbody
  · rw [htext]
    exact hspan

theorem sited_tree (hp : ofText source sourceId = .ok p) {id : Nat} (hid : id < p.tree.size) :
    (p.tree.get id).Sited source := by
  by_cases hr : id = root
  · exact hr ▸ sited_root hp
  · obtain ⟨q, -, hparent⟩ := (bounded_tree hp).exists_parent hr hid
    exact (sited_of_parent hp hparent).1

/-! ## Lines and diagnostics -/

/-- A program lists the lines of its source. -/
theorem toLine_lines (hp : ofText source sourceId = .ok p) :
    p.lines.map (·.toLine) = Line.ofSource source := by
  obtain ⟨f, hf, -⟩ := ofText_eq_ok hp
  obtain rfl := Except.ok.inj ((ofText_of_place sourceId hf).symm.trans hp)
  exact (List.map_map ..).trans (List.map_id _)

/-- What is in one line is in one of the lines that a program lists. -/
theorem exists_line_around (hp : ofText source sourceId = .ok p) {s : Span} {t : Text}
    (h : Cuts source s t) (hline : '\n' ∉ t) :
    ∃ l ∈ p.lines, l.span.start ≤ s.start ∧ s.stop ≤ l.span.stop := by
  obtain ⟨l, hl, haround⟩ := Line.exists_around h hline
  rw [← toLine_lines hp] at hl
  obtain ⟨owned, howned, rfl⟩ := List.mem_map.mp hl
  exact ⟨owned, howned, haround⟩

/-- Headers, variables and calls are in one of the lines that a program lists. -/
theorem exists_line_of_mem (hp : ofText source sourceId = .ok p) {id : Nat}
    (hid : id < p.tree.size) {s : Span}
    (hs : s ∈ (p.tree.get id).headerSpan ::
      ((p.tree.get id).scope.toList.map (·.span) ++ (p.tree.get id).calls.map (·.span))) :
    ∃ l ∈ p.lines, l.span.start ≤ s.start ∧ s.stop ≤ l.span.stop := by
  have hmarks : Marks source s → ∃ l ∈ p.lines, l.span.start ≤ s.start ∧ s.stop ≤ l.span.stop :=
    fun ⟨_, hcuts, _, hline⟩ => exists_line_around hp hcuts hline
  rcases List.mem_cons.mp hs with rfl | hs
  · obtain ⟨t, hcuts, hline⟩ := (sited_tree hp hid).header
    exact exists_line_around hp hcuts hline
  · rcases List.mem_append.mp hs with hs | hs
    · obtain ⟨w, hw, rfl⟩ := List.mem_map.mp hs
      exact hmarks ((marks_tree hp id).1 w hw)
    · obtain ⟨c, hc, rfl⟩ := List.mem_map.mp hs
      exact hmarks ((marks_tree hp id).2 c hc)

/-- **What is found is reported where it stands.** -/
theorem sited_ofFinding (hx : Marks source x.span) (sourceId : Nat) :
    (Diagnostic.ofFinding (Line.ofSource source) sourceId x).Sited source := by
  refine ⟨hx, ?_⟩
  obtain ⟨t, hcuts, -⟩ := hx
  exact Line.indexAt_of_border hcuts.border_start

/-- **What is found wrong with a source that parses is marked in it**: there is a header to complain
about, or a statement. -/
theorem marks_of_mem_findings (hf : place source = .ok f)
    (hx : x ∈ findings (classified source f) source (Visit.run (Line.ofSource source)
      (classified source f) (Visit.all (classified source f) source)).2) :
    Marks source x.span := by
  have h := bracketed_finish hf (Line.ofSource source)
  rw [findings, List.mem_append, List.mem_append] at hx
  rcases hx with hx | hx | hx
  · exact h.marks_of_mem_headerFindings hx
  · exact h.marks_of_mem_branchFindings hx
  · obtain ⟨v, hv, hspan⟩ := Visit.exists_of_mem_run hx
    exact hspan ▸ Visit.marks_of_mem_all (headed_classified hf).1 hv

theorem sited_of_mem_diagnostics (hp : ofText source sourceId = .ok p) {d : Diagnostic}
    (hd : d ∈ p.diagnostics) : d.Sited source := by
  obtain ⟨f, hf, -⟩ := ofText_eq_ok hp
  obtain ⟨x, hx, rfl⟩ := List.mem_map.mp ((perm_diagnostics hp hf).mem_iff.mp hd)
  exact sited_ofFinding (marks_of_mem_findings hf hx) sourceId

/-- **Diagnostics are listed in the order of the source**, line by line. -/
theorem ordered_diagnostics (hp : ofText source sourceId = .ok p) :
    p.diagnostics.Pairwise fun a b =>
      (a.span.start < b.span.start ∨ a.span.start = b.span.start ∧ a.span.stop ≤ b.span.stop) ∧
        a.line ≤ b.line := by
  obtain ⟨f, hf, -⟩ := ofText_eq_ok hp
  have hline : ∀ d ∈ p.diagnostics, d.line = Line.indexAt (Line.ofSource source) d.span.start :=
    fun d hd => by
      obtain ⟨x, -, rfl⟩ := List.mem_map.mp ((perm_diagnostics hp hf).mem_iff.mp hd)
      rfl
  have hsorted : p.diagnostics.Pairwise fun a b => a.precedes b = true := by
    obtain rfl := Except.ok.inj ((ofText_of_place sourceId hf).symm.trans hp)
    exact List.pairwise_mergeSort Diagnostic.precedes_trans Diagnostic.precedes_total _
  refine hsorted.imp_of_mem fun {a b} ha hb hprecedes => ?_
  have hspan := Diagnostic.precedes_iff.mp hprecedes
  rw [hline a ha, hline b hb]
  exact ⟨hspan, Line.indexAt_mono _ (by omega)⟩

/-! ## What is cut out -/

/-- **No cut of a parse is out of range or splits a character.** -/
theorem cuts_of_mem_slices (hp : ofText source sourceId = .ok p) {s : Span}
    (hs : s ∈ p.tree.slices source) : Cuts source s (Text.slice source s) := by
  have h := bounded_tree hp
  rcases List.mem_append.mp hs with hs | hs
  · obtain ⟨c, -, hs⟩ := List.mem_flatMap.mp hs
    split at hs
    · cases hs
    · next q hparent =>
      obtain ⟨⟨-, hbody, header, hheader, -⟩, -⟩ := sited_of_parent hp hparent
      obtain ⟨hfloor, hbrace, hle⟩ := h.search (p.tree.lt_size_of_parent hparent) hparent
      rcases List.mem_cons.mp hs with rfl | hs
      · rw [hbody.slice_eq]
        exact hbody
      · rcases List.mem_cons.mp hs with rfl | hs
        · rw [hheader.slice_eq]
          exact hheader
        · exact Header.cuts_of_mem_slices hfloor hbrace hle hs
  · obtain ⟨g, hg, hs⟩ := List.mem_flatMap.mp hs
    obtain ⟨hstart, hstop⟩ := Segment.bounds_of_mem_all h.toHeaded hg
    exact Segment.cuts_of_mem_slices hstart.border hstop hs

/-- **Every position that a parse reports is sound.** The diagnostic that ends a parse marks a part
of a line, and its line is the number of newlines before it. So do all diagnostics of a source that
parses, and they are in order. The lines and blocks of the program say what stands at their spans.
Every block but the root stands in the body of another one, with nothing but blanks between its
header and its brace. Variables and calls are marked, and like headers they lie within one line
each. And whatever the parse cuts out of the source is a part of it. -/
theorem positions_sound (source : Text) (sourceId : Nat) :
    (∀ d, ofText source sourceId = .error d → d.Sited source) ∧
      ∀ p, ofText source sourceId = .ok p → p.Sited source := by
  refine ⟨fun d hd => ?_, fun p hp => ?_⟩
  · unfold ofText at hd
    dsimp only at hd
    split at hd
    · next x hx =>
      obtain rfl := Except.error.inj hd
      exact sited_ofFinding (marks_of_place_eq_error hx) sourceId
    · cases hd
  · refine {
      diagnostics := fun d hd => sited_of_mem_diagnostics hp hd
      ordered := ordered_diagnostics hp
      lines := fun l hl => ?lines
      blocks := fun id hid => sited_tree hp hid
      nested := fun id hid hr => ?nested
      declared := fun id => (marks_tree hp id).1
      called := fun id => (marks_tree hp id).2
      around := fun id hid s hs => exists_line_of_mem hp hid hs
      slices := fun s hs => cuts_of_mem_slices hp hs }
    case lines =>
      exact (Line.cuts_of_mem_ofSource (toLine_lines hp ▸ List.mem_map_of_mem hl)).1
    case nested =>
      obtain ⟨q, hq, hparent⟩ := (bounded_tree hp).exists_parent hr hid
      exact ⟨q, hq, hparent, (sited_of_parent hp hparent).2⟩

/-- A statement behind a blank on the second line, of one character and two bytes. -/
example : ((ofText "f()\n ü".toList 0).toOption.map fun p =>
    p.diagnostics.map fun d => (d.span, d.line)) = some [(⟨5, 7⟩, 1)] := by
  decide +kernel

end Program
end BraceTree
