import BraceTree.Proofs.Statement.Lossless
import BraceTree.Proofs.Text.Masked

/-!
# There is one reading of a source

A source is read more than once. Its braces are found in one scan of the whole, headers are looked
for backwards on a line, and statements are cut out of segments between the children of a block. The
later scans start somewhere in the middle, each of them outside of a literal. They agree with the
first one because of where they start: behind a newline, behind an opening brace or behind a closing
one (`Text.Fresh`), and there the scan of the whole is outside of a literal as well.

`Header.line` and `Segment.all` list what the later scans read, and `find?_eq_inLine?` and
`all_eq_flatMap` say that they read nothing else.
-/

namespace BraceTree

namespace Text

/-- **Behind a newline a reader may start.** -/
theorem fresh_of_newline {source a b : Text} (h : source = (a ++ ['\n']) ++ b) :
    Fresh source (bytes (a ++ ['\n'])) := by
  have hread : ∀ q, glyphsFrom q (a ++ ['\n']) = glyphsFrom q a ++ [⟨'\n', false⟩] := fun q =>
    glyphsFrom_append_newline q a []
  refine ⟨a ++ ['\n'], b, h, rfl, ?_, ?_⟩
  · rw [h, List.append_assoc]
    show glyphs (a ++ '\n' :: b) = _
    rw [glyphs, glyphsFrom_append_newline, List.append_cons, ← hread]
    rfl
  · rw [glyphs, hread, Glyph.depthFrom_append]
    rfl

/-- The first byte of a glyph is quoted if the glyph is. -/
theorem quotedBytes_of_glyph {source : Text} {pre post : List Glyph} {g : Glyph}
    (h : source.glyphs = pre ++ g :: post) :
    source.quotedBytes[bytes (Glyph.chars pre)]? = some g.quoted := by
  have hsize := g.char.utf8Size_pos
  have hlength : (pre.flatMap Glyph.quotedBytes).length = bytes (Glyph.chars pre) :=
    length_flatMap_quotedBytes pre
  rw [quotedBytes, h, List.flatMap_append, List.getElem?_append_right (Nat.le_of_eq hlength),
    hlength, Nat.sub_self, List.flatMap_cons, Glyph.quotedBytes]
  obtain ⟨k, hk⟩ := Nat.exists_eq_succ_of_ne_zero (Nat.ne_of_gt hsize)
  rw [hk]
  rfl

/-- **The scan for braces takes a brace exactly if it is not quoted.** -/
theorem brace_iff_not_quoted {source pre post : Text} {c : Char} (h : source = pre ++ c :: post)
    (hc : c = '\x7b' ∨ c = '\x7d') :
    (∃ b ∈ Brace.ofSource source, b.offset = bytes pre) ↔
      source.quotedBytes[bytes pre]? = some false := by
  constructor
  · rintro ⟨b, hb, hoff⟩
    obtain ⟨before, g, after, hglyphs, hbytes, hg⟩ := Brace.exists_glyph hb
    rw [← hoff, hbytes, quotedBytes_of_glyph hglyphs]
    exact congrArg some (hg.elim (Glyph.is_iff.mp · |>.1) (Glyph.is_iff.mp · |>.1))
  · intro hquoted
    have hglyphs : source.glyphs = glyphs pre ++ ⟨c, ((Quoting.after .outside pre).step c).2⟩ ::
        glyphsFrom ((Quoting.after .outside pre).step c).1 post := by
      rw [h]
      exact glyphsFrom_append .outside pre (c :: post)
    have hfirst := quotedBytes_of_glyph hglyphs
    rw [chars_glyphs, hquoted] at hfirst
    have hg := (Option.some.inj hfirst).symm
    obtain ⟨b, hb, hoff⟩ := Brace.exists_of_glyph hglyphs
      (hc.imp (fun hc => Glyph.is_iff.mpr ⟨hg, hc⟩) fun hc => Glyph.is_iff.mpr ⟨hg, hc⟩)
    exact ⟨b, hb, by rw [hoff, chars_glyphs]⟩

end Text

/-! ## The lines that headers are looked for on -/

namespace Header

/-- The line that the search for a header reads back from `stop`, down to `floor` at the most. -/
def line (source : Text) (floor stop : Nat) : Span :=
  ⟨stop - Text.bytes (Text.afterLast '\n' (Text.slice source ⟨floor, stop⟩)), stop⟩

/-- The last line above a brace that is not blank. -/
def lineAbove (source : Text) (floor brace : Nat) : Span :=
  line source floor (floor + Text.bytes (Text.trimEnd (Text.slice source ⟨floor, brace⟩)))

/-- The header at the end of a line. -/
def inLine? (source : Text) (line : Span) : Option Header :=
  atEnd? line.stop (Text.slice source line)

/-- Whether there are only blanks before a brace on its line, and another line above. -/
def opensLine (source : Text) (floor brace : Nat) : Bool :=
  (Text.slice source ⟨floor, brace⟩).contains '\n' &&
    Text.isBlankText (Text.slice source (line source floor brace))

variable {source : Text} {floor stop brace : Nat}

/-- The line of a search starts where a reader may start, and is what follows the last newline. -/
theorem fresh_line (hfloor : Text.Fresh source floor) (hstop : Text.Border source stop)
    (hle : floor ≤ stop) :
    Text.Fresh source (line source floor stop).start ∧
      Text.slice source (line source floor stop) =
        Text.afterLast '\n' (Text.slice source ⟨floor, stop⟩) := by
  obtain ⟨a, m, b, hsplit, rfl, rfl⟩ := hfloor.border.exists_text hstop hle
  have hslice : Text.slice source ⟨a.bytes, a.bytes + m.bytes⟩ = m := by
    rw [hsplit, Text.slice_append]
  unfold line
  rw [hslice]
  rcases (Text.afterLast_cases '\n' m).2 with heq | ⟨pre, hpre⟩
  · rw [heq, Nat.add_sub_cancel]
    exact ⟨hfloor, hslice⟩
  · generalize Text.afterLast '\n' m = rest at hpre ⊢
    have hsource : source = ((a ++ pre) ++ ['\n']) ++ (rest ++ b) := by
      rw [hsplit, hpre]
      simp
    have hbytes : a.bytes + m.bytes = Text.bytes ((a ++ pre) ++ ['\n']) + rest.bytes := by
      rw [hpre]
      simp only [Text.bytes_append, Text.bytes_cons, Text.bytes_nil]
      omega
    rw [hbytes, Nat.add_sub_cancel]
    exact ⟨Text.fresh_of_newline hsource, by rw [hsource, Text.slice_append]⟩

theorem readAlike_line (hfloor : Text.Fresh source floor) (hstop : Text.Border source stop)
    (hle : floor ≤ stop) : Text.ReadAlike source (line source floor stop) :=
  (fresh_line hfloor hstop hle).1.readAlike hstop

/-- The text above a brace ends at a border, and is cut out of the source up to there. -/
theorem border_above (hfloor : Text.Border source floor) (hbrace : Text.Border source brace)
    (hle : floor ≤ brace) :
    Text.Border source (floor + Text.bytes (Text.trimEnd (Text.slice source ⟨floor, brace⟩))) ∧
      Text.slice source
          ⟨floor, floor + Text.bytes (Text.trimEnd (Text.slice source ⟨floor, brace⟩))⟩ =
        Text.trimEnd (Text.slice source ⟨floor, brace⟩) := by
  obtain ⟨a, m, b, hsplit, rfl, rfl⟩ := hfloor.exists_text hbrace hle
  have hslice : Text.slice source ⟨a.bytes, a.bytes + m.bytes⟩ = m := by
    rw [hsplit, Text.slice_append]
  rw [hslice]
  have hsource : source =
      a ++ (Text.trimEnd m ++ ((m.reverse.takeWhile Text.isBlank).reverse ++ b)) := by
    rw [← List.append_assoc (Text.trimEnd m), Text.trimEnd_append, hsplit]
  generalize (m.reverse.takeWhile Text.isBlank).reverse ++ b = rest at hsource
  rw [hsource, Text.slice_append]
  exact ⟨⟨a ++ Text.trimEnd m, rest, (List.append_assoc _ _ _).symm, Text.bytes_append _ _⟩, rfl⟩

/-- **The line above a brace is read as in the whole.** -/
theorem readAlike_lineAbove (hfloor : Text.Fresh source floor) (hbrace : Text.Border source brace)
    (hle : floor ≤ brace) : Text.ReadAlike source (lineAbove source floor brace) :=
  readAlike_line hfloor (border_above hfloor.border hbrace hle).1 (Nat.le_add_right _ _)

/-- The search at the end of a text reads its last line only. -/
theorem atEnd?_eq_inLine? (hfloor : Text.Fresh source floor) (hstop : Text.Border source stop)
    (hle : floor ≤ stop) :
    atEnd? stop (Text.slice source ⟨floor, stop⟩) = inLine? source (line source floor stop) := by
  unfold inLine?
  rw [(fresh_line hfloor hstop hle).2]
  unfold atEnd?
  rw [Text.afterLast_of_not_mem (Text.afterLast_cases '\n' _).1]
  rfl

/-- **The search for a header reads the line of its brace and the line above**, the latter only if
the brace opens its line. -/
theorem find?_eq_inLine? (hfloor : Text.Fresh source floor) (hbrace : Text.Border source brace)
    (hle : floor ≤ brace) :
    find? source floor brace =
      (inLine? source (line source floor brace) <|>
        if opensLine source floor brace then
          (inLine? source (lineAbove source floor brace)).filter fun h => (read? h.text).isSome
        else none) := by
  obtain ⟨hborder, habove⟩ := border_above hfloor.border hbrace hle
  have hline := atEnd?_eq_inLine? hfloor hborder (Nat.le_add_right _ _)
  rw [habove] at hline
  unfold find? above? opensLine lineAbove
  rw [← atEnd?_eq_inLine? hfloor hbrace hle, ← hline, (fresh_line hfloor hbrace hle).2]

end Header

/-! ## The segments that statements are cut out of -/

/-- A part of a source that the statements of a block are cut out of. -/
structure Segment where
  /-- The block. -/
  block : BlockId
  /-- Where the part stands. -/
  span : Span

namespace Segment

/-- The segments of a block from `cursor` on, with those in the given children in their places. -/
def along (t : BlockTree) (block : BlockId) (inside : BlockId → List Segment) :
    (cursor : Nat) → List BlockId → List Segment
  | cursor, [] => [⟨block, cursor, (t.get block).body.stop⟩]
  | cursor, c :: cs =>
    ⟨block, cursor, (t.get c).claimed.start⟩ ::
      (inside c ++ along t block inside (t.get c).claimed.stop cs)

/-- The segments in a block and in the blocks in it, down to a depth below `bound`. -/
def within (t : BlockTree) : (bound : Nat) → BlockId → List Segment
  | 0, _ => []
  | bound + 1, id => along t id (within t bound) (t.get id).body.start (t.get id).children

/-- All segments that statements are cut out of, in order. -/
def all (t : BlockTree) : List Segment := within t t.depthBound BlockTree.root

/-- The statements in a segment. -/
def visits (source : Text) (s : Segment) : List Visit := Visit.ofSpan source s.block s.span

variable {source : Text} {t : BlockTree} {id : Nat}

theorem flatMap_along (block : BlockId) {inside : BlockId → List Segment}
    {inside' : BlockId → List Visit}
    (hinside : ∀ c, (inside c).flatMap (visits source) = inside' c) (cs : List BlockId)
    (cursor : Nat) :
    (along t block inside cursor cs).flatMap (visits source) =
      Visit.along t source block inside' cursor cs := by
  induction cs generalizing cursor with
  | nil => exact List.flatMap_singleton (visits source) _
  | cons c cs ih =>
    rw [along, List.flatMap_cons, List.flatMap_append, hinside, ih, Visit.along_cons]
    rfl

theorem flatMap_within (source : Text) (t : BlockTree) : ∀ (bound : Nat) (id : BlockId),
    (within t bound id).flatMap (visits source) = Visit.within t source bound id
  | 0, _ => rfl
  | bound + 1, _ => flatMap_along _ (flatMap_within source t bound) _ _

/-- **Statements are cut out of the segments and of nothing else.** -/
theorem all_eq_flatMap (source : Text) (t : BlockTree) :
    Visit.all t source = (all t).flatMap (visits source) :=
  (flatMap_within source t _ _).symm

/-- A segment along a block starts where a reader may start and ends at a border, if those in the
children do. -/
theorem bounds_along (h : t.Headed source) (hid : id < t.size) {inside : BlockId → List Segment}
    (hinside : ∀ c < t.size, ∀ s ∈ inside c,
      Text.Fresh source s.span.start ∧ Text.Border source s.span.stop) :
    ∀ {cs : List BlockId} {cursor : Nat}, Visit.Ahead source t id cursor cs →
      ∀ s ∈ along t id inside cursor cs,
        Text.Fresh source s.span.start ∧ Text.Border source s.span.stop
  | [], cursor, ha, s, hs => by
    rw [List.mem_singleton.mp hs]
    exact ⟨ha.fresh, h.border_body_stop hid⟩
  | c :: cs, cursor, ha, s, hs => by
    obtain ⟨-, hc, hheader, -⟩ := ha.head h
    rcases List.mem_cons.mp hs with rfl | hs
    · exact ⟨ha.fresh, hheader.border_claimed_start⟩
    · rcases List.mem_append.mp hs with hs | hs
      · exact hinside c hc s hs
      · exact bounds_along h hid hinside (ha.next h) s hs

theorem bounds_within (h : t.Headed source) : ∀ (bound : Nat) {id : Nat}, id < t.size →
    ∀ s ∈ within t bound id, Text.Fresh source s.span.start ∧ Text.Border source s.span.stop
  | 0, _, _, _, hs => absurd hs List.not_mem_nil
  | bound + 1, _, hid, s, hs =>
    bounds_along h hid (fun _ hc => bounds_within h bound hc) (.start h hid) s hs

/-- **A segment starts where a reader may start and ends at a border.** -/
theorem bounds_of_mem_all (h : t.Headed source) {s : Segment} (hs : s ∈ all t) :
    Text.Fresh source s.span.start ∧ Text.Border source s.span.stop :=
  bounds_within h t.depthBound h.size_pos s hs

end Segment

namespace Program

variable {source : Text} {sourceId : Nat} {p : Program}

/-- **There is one reading of a source that parses.** A scan that starts afresh in the middle of it
takes each byte for quoted or for structure as the scan for braces does, which takes a brace exactly
if it is not quoted. There are two kinds of such scans: those of the segments, which are all that
statements are cut out of, and those of the line of a brace and of the line above, which are all
that the search for a header reads. The reason is that a mask is taken line by line. It takes as
many bytes as the text, there are no quotes in it, and masking it again changes nothing. -/
theorem scans_read_alike (hp : ofText source sourceId = .ok p) :
    (∀ (pre post : Text) (c : Char), source = pre ++ c :: post → c = '\x7b' ∨ c = '\x7d' →
      ((∃ b ∈ Brace.ofSource source, b.offset = pre.bytes) ↔
        source.quotedBytes[pre.bytes]? = some false)) ∧
    (∃ f, place source = .ok f ∧ p.tree = (Visit.run (Line.ofSource source) (classified source f)
      ((Segment.all p.tree).flatMap (Segment.visits source))).1) ∧
    (∀ s ∈ Segment.all p.tree, Text.ReadAlike source s.span) ∧
    (∀ c < p.tree.size, ∀ parent, (p.tree.get c).parent = some parent →
      let floor := (p.tree.get parent).body.start
      let brace := (p.tree.get c).span.start
      Header.find? source floor brace =
        (Header.inLine? source (Header.line source floor brace) <|>
          if Header.opensLine source floor brace then
            (Header.inLine? source (Header.lineAbove source floor brace)).filter fun h =>
              (Header.read? h.text).isSome
          else none) ∧
      Text.ReadAlike source (Header.line source floor brace) ∧
      Text.ReadAlike source (Header.lineAbove source floor brace)) ∧
    ∀ a b : Text, Text.mask (a ++ '\n' :: b) = Text.mask a ++ '\n' :: Text.mask b ∧
      Text.bytes (Text.mask a) = Text.bytes a ∧ (∀ c ∈ Text.mask a, Quoting.isQuote c = false) ∧
      Text.mask (Text.mask a) = Text.mask a := by
  obtain ⟨f, hf, htree⟩ := ofText_eq_ok hp
  obtain ⟨hclassified, hbalanced⟩ := headed_classified hf
  have hframes : BlockTree.SameFrames (classified source f) p.tree := by
    rw [htree]
    exact Visit.sameFrames_of_run _ _ _
  have hheaded := hframes.headed hclassified
  rw [← Visit.all_congr hframes source, Segment.all_eq_flatMap] at htree
  refine ⟨fun pre post c => Text.brace_iff_not_quoted, ⟨f, hf, htree⟩,
    fun s hs => ?_, fun c hc parent hparent => ?_,
    fun a b => ⟨Text.mask_append_newline a b, Text.bytes_mask a,
      fun _ => Text.not_isQuote_of_mem_mask, Text.mask_mask a⟩⟩
  · obtain ⟨hstart, hstop⟩ := Segment.bounds_of_mem_all hheaded hs
    exact hstart.readAlike hstop
  · have hfloor := hheaded.fresh_body_start (hheaded.parent_lt hc hparent)
    have hbrace : Text.Border source (p.tree.get c).span.start :=
      Brace.border (hheaded.matched (hheaded.ne_root_of_parent hparent) hc).open_mem
    have hle := (hheaded.inside hc hparent).1
    exact ⟨Header.find?_eq_inLine? hfloor hbrace hle, Header.readAlike_line hfloor hbrace hle,
      Header.readAlike_lineAbove hfloor hbrace hle⟩

/-- A literal that a newline cuts short, and braces in literals of a header and of a statement. -/
theorem scans_read_alike_of_cut_literal :
    ∃ source p, source = "a = 'it\nif (\"\x7b\" == x)\n\x7b b = '\x7d' \x7d".toList ∧
      ofText source 0 = .ok p ∧
      (Segment.all p.tree).map (·.span) = [⟨0, 8⟩, ⟨23, 32⟩, ⟨33, 33⟩] ∧
      Header.lineAbove source (p.tree.get 0).body.start (p.tree.get 1).span.start = ⟨8, 21⟩ ∧
      Text.ReadAlike source ⟨23, 32⟩ ∧ Text.ReadAlike source ⟨8, 21⟩ := by
  generalize hsource : "a = 'it\nif (\"\x7b\" == x)\n\x7b b = '\x7d' \x7d".toList = source
  have hparsed : ((ofText source 0).toOption.map fun p => ((Segment.all p.tree).map (·.span),
      Header.lineAbove source (p.tree.get 0).body.start (p.tree.get 1).span.start,
      p.tree.size, (p.tree.get 1).parent)) =
      some ([⟨0, 8⟩, ⟨23, 32⟩, ⟨33, 33⟩], ⟨8, 21⟩, 2, some 0) := by
    rw [← hsource]
    decide +kernel
  cases hp : ofText source 0 with
  | error d =>
    rw [hp] at hparsed
    exact absurd hparsed (by simp [Except.toOption])
  | ok p =>
    rw [hp] at hparsed
    obtain ⟨hspans, hparsed⟩ := Prod.mk.inj (Option.some.inj hparsed)
    obtain ⟨habove, hparsed⟩ := Prod.mk.inj hparsed
    obtain ⟨hsize, hparent⟩ := Prod.mk.inj hparsed
    obtain ⟨-, -, hsegments, hheaders, -⟩ := scans_read_alike hp
    obtain ⟨s, hs, hspan⟩ : ∃ s ∈ Segment.all p.tree, s.span = ⟨23, 32⟩ :=
      List.mem_map.mp (hspans ▸ by simp)
    refine ⟨source, p, rfl, hp, hspans, habove, hspan ▸ hsegments s hs, ?_⟩
    rw [← habove]
    exact (hheaders 1 (by rw [hsize]; decide) 0 hparent).2.2

end Program
end BraceTree
