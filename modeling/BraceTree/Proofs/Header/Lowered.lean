import BraceTree.Proofs.Brace.Respaced
import BraceTree.Proofs.Header.Appended
import BraceTree.Proofs.Header.Titled
import BraceTree.Proofs.Hierarchy.Moved

/-!
# A brace on a line of its own

A header is looked for on the line of the brace, and on a line above if the brace opens its own
line. So where a brace stands behind its header makes no difference: moved to a later line it gets
the same header, if that is one that opens a block. The two searches come to the same text. The
blanks before the brace are passed over by the first one (`Header.atEnd?_append_blank`) and taken
off before the second one starts, and up to there both look at the same line.

Everything else in the source stays as it was. The blanks stand outside of literals, since a brace
follows, and the parent of the block starts before the header.
-/

namespace BraceTree

namespace Text

theorem afterLast_append_of_not_mem {sep : Char} {b : Text} (h : sep ∉ b) (a : Text) :
    afterLast sep (a ++ b) = afterLast sep a ++ b := by
  have hall : ∀ c ∈ b.reverse, (c != sep) = true := fun c hc => by
    simpa using fun heq : c = sep => h (heq ▸ List.mem_reverse.mp hc)
  rw [afterLast, afterLast, List.reverse_append, List.takeWhile_append_of_pos hall,
    List.reverse_append, List.reverse_reverse]

/-- The last line of a text that goes on with blanks and a newline among them is blank. -/
theorem isBlankText_afterLast {gap : Text} (hgap : isBlankText gap = true) (hline : '\n' ∈ gap)
    (a : Text) : isBlankText (afterLast '\n' (a ++ gap)) = true := by
  obtain ⟨x, y, rfl⟩ := List.append_of_mem hline
  rw [isBlankText, List.all_append, List.all_cons, Bool.and_eq_true, Bool.and_eq_true] at hgap
  obtain ⟨pre, hpre⟩ := exists_append_afterLast '\n' y
  have hy := hgap.2.2
  rw [hpre, List.all_append, Bool.and_eq_true] at hy
  rw [← List.append_assoc, afterLast_append]
  exact hy.2

/-- A text that ends with a character that is no blank has that on its last line. -/
theorem isBlankText_afterLast_concat {c : Char} (hc : isBlank c = false) (a : Text) :
    isBlankText (afterLast '\n' (a ++ [c])) = false := by
  have hne : '\n' ∉ [c] := by
    rw [List.mem_singleton]
    rintro rfl
    exact absurd hc (by decide)
  rw [afterLast_append_of_not_mem hne, isBlankText, List.all_append, List.all_cons, hc,
    Bool.false_and, Bool.and_false]

theorem trimEnd_concat_append {c : Char} (hc : isBlank c = false) {gap : Text}
    (hgap : isBlankText gap = true) (a : Text) : trimEnd (a ++ [c] ++ gap) = a ++ [c] := by
  have hall : ∀ d ∈ gap.reverse, isBlank d = true := fun d hd =>
    List.all_eq_true.mp hgap d (List.mem_reverse.mp hd)
  rw [trimEnd, List.reverse_append, List.dropWhile_append_of_pos hall, List.reverse_append,
    List.reverse_singleton, List.singleton_append, List.dropWhile_cons_of_neg (by simp [hc]),
    List.reverse_cons, List.reverse_reverse]

end Text

namespace Header

variable {gap before : Text}

/-! ## Blanks at the end of a line -/

/-- Going backwards passes over blanks. -/
theorem backwards_append_blank {blanks : List Glyph}
    (h : ∀ g ∈ blanks, Text.isBlank g.char = true) (parens : Nat) (gs : List Glyph) :
    backwards parens (blanks ++ gs) = blanks ++ backwards parens gs := by
  induction blanks with
  | nil => rfl
  | cons g blanks ih =>
    obtain ⟨hg, hblanks⟩ := List.forall_mem_cons.mp h
    have hnot : ∀ c, Text.isBlank c = false → g.is c = false := fun c hc =>
      Glyph.is_eq_false_of_blank hg hc
    rw [List.cons_append, backwards.eq_def]
    dsimp only
    rw [hnot ')' (by decide), hnot '(' (by decide), hnot '{' (by decide), hnot '}' (by decide),
      hnot ';' (by decide), ih hblanks]
    rfl

theorem tail_append_blank (hgap : Text.isBlankText gap = true) (line : Text) :
    tail (line ++ gap) = tail line ++ gap := by
  have hblanks : ∀ g ∈ (Text.glyphsFrom (Quoting.outside.after line) gap).reverse,
      Text.isBlank g.char = true := fun g hg => by
    have hmem : g.char ∈ Glyph.chars (Text.glyphsFrom (Quoting.outside.after line) gap) :=
      List.mem_map_of_mem (List.mem_reverse.mp hg)
    rw [Text.chars_glyphsFrom] at hmem
    exact List.all_eq_true.mp hgap _ hmem
  have hchars : (Glyph.chars (Text.glyphsFrom (Quoting.outside.after line) gap).reverse).reverse =
      gap := by
    rw [Glyph.chars, List.map_reverse, List.reverse_reverse]
    exact Text.chars_glyphsFrom _ gap
  rw [tail, tail, Text.glyphs, Text.glyphsFrom_append, List.reverse_append,
    backwards_append_blank hblanks, Glyph.chars_append, List.reverse_append, hchars]
  rfl

/-- No header stands on a blank line. -/
theorem atEnd?_of_blank (stop : Nat)
    (h : Text.isBlankText (Text.afterLast '\n' before) = true) : atEnd? stop before = none := by
  have htail : tail (Text.afterLast '\n' before) = Text.afterLast '\n' before := by
    have hblank := tail_append_blank h []
    rwa [List.nil_append, show tail [] = [] from rfl, List.nil_append] at hblank
  rw [atEnd?, htail]
  dsimp only
  rw [Text.trim_eq_nil_iff.mpr h]
  rfl

/-- **Blanks behind a header make no difference.** -/
theorem atEnd?_append_blank (hgap : Text.isBlankText gap = true) (hline : '\n' ∉ gap) (stop : Nat)
    (before : Text) : atEnd? (stop + gap.bytes) (before ++ gap) = atEnd? stop before := by
  rw [atEnd?, atEnd?, Text.afterLast_append_of_not_mem hline, tail_append_blank hgap]
  generalize tail (Text.afterLast '\n' before) = raw
  have htrim : Text.trim (raw ++ gap) = Text.trim raw := @Text.trim_between [] gap raw rfl hgap
  have hstart : stop + gap.bytes - Text.bytes (raw ++ gap) = stop - Text.bytes raw := by
    rw [Text.bytes_append]
    omega
  dsimp only
  rw [htrim, hstart]
  split
  · rfl
  · rename_i hempty
    -- the blanks before a header are followed by it
    have hlead : (raw ++ gap).takeWhile Text.isBlank = raw.takeWhile Text.isBlank := by
      rw [List.takeWhile_append, if_neg]
      intro hlength
      refine hempty (List.isEmpty_iff.mpr (Text.trim_eq_nil_iff.mpr ?_))
      rw [← (List.takeWhile_prefix Text.isBlank).eq_of_length hlength]
      exact Text.isBlankText_takeWhile raw
    rw [hlead]

/-! ## The header of a brace -/

/-- **A source cut where a header may end before a brace.** In a body there is a line that ends with
a character that is no blank, and from there on there are only blanks up to the brace. -/
structure Cut where
  /-- What stands before the body. -/
  before : Text
  /-- The body up to the character that ends the line. -/
  line : Text
  /-- The character that ends the line. -/
  last : Char
  /-- The blanks before the brace. -/
  gap : Text
  /-- The source from the brace on. -/
  after : Text
  isBlank_last : Text.isBlank last = false
  isBlankText_gap : Text.isBlankText gap = true

namespace Cut

variable (k : Cut)

/-- The source that is cut. -/
def source : Text := k.before ++ (k.line ++ [k.last]) ++ (k.gap ++ k.after)

/-- Where the body starts. -/
def floor : Nat := k.before.bytes

/-- Where the blanks start. -/
def stop : Nat := k.floor + Text.bytes (k.line ++ [k.last])

/-- Where the brace is. -/
def brace : Nat := k.stop + k.gap.bytes

theorem bytes_before_stop : Text.bytes (k.before ++ (k.line ++ [k.last])) = k.stop :=
  Text.bytes_append _ _

theorem slice_body : Text.slice k.source ⟨k.floor, k.brace⟩ = k.line ++ [k.last] ++ k.gap := by
  have hsource : k.source = k.before ++ (k.line ++ [k.last] ++ k.gap ++ k.after) := by
    simp only [source, List.append_assoc]
  have hbrace : k.brace = k.before.bytes + Text.bytes (k.line ++ [k.last] ++ k.gap) := by
    rw [Text.bytes_append (k.line ++ [k.last]), ← Nat.add_assoc]
    rfl
  rw [hsource, hbrace]
  exact Text.slice_append _ _ _

theorem takeBytes_stop : Text.takeBytes k.stop k.source = k.before ++ (k.line ++ [k.last]) := by
  rw [← bytes_before_stop]
  exact Text.takeBytes_append _ _

theorem dropBytes_brace : Text.dropBytes k.brace k.source = k.after := by
  have hbrace : k.brace = Text.bytes (k.before ++ (k.line ++ [k.last]) ++ k.gap) := by
    rw [Text.bytes_append, k.bytes_before_stop]
    rfl
  rw [hbrace, source, ← List.append_assoc (k.before ++ (k.line ++ [k.last]))]
  exact Text.dropBytes_append _ _

/-- The same with other blanks before the brace. -/
def respaced {blanks : Text} (hblanks : Text.isBlankText blanks = true) : Cut :=
  { k with gap := blanks, isBlankText_gap := hblanks }

/-- **Behind its header a brace gets the header that ends there.** -/
theorem find?_on_line (hline : '\n' ∉ k.gap) :
    find? k.source k.floor k.brace = atEnd? k.stop (k.line ++ [k.last]) := by
  have hnone : above? k.floor (k.line ++ [k.last] ++ k.gap) = none := by
    rw [above?, Text.afterLast_append_of_not_mem hline, Text.isBlankText, List.all_append,
      ← Text.isBlankText, Text.isBlankText_afterLast_concat k.isBlank_last, Bool.false_and,
      Bool.and_false, if_neg Bool.false_ne_true]
  rw [find?, k.slice_body, hnone, brace, atEnd?_append_blank k.isBlankText_gap hline]
  cases atEnd? k.stop (k.line ++ [k.last]) <;> rfl

/-- **On a later line a brace gets the header that ends above**, if that opens a block. -/
theorem find?_below (hline : '\n' ∈ k.gap) :
    find? k.source k.floor k.brace =
      (atEnd? k.stop (k.line ++ [k.last])).filter fun h => (read? h.text).isSome := by
  have hblank := Text.isBlankText_afterLast k.isBlankText_gap hline (k.line ++ [k.last])
  have hcontains : (k.line ++ [k.last] ++ k.gap).contains '\n' = true :=
    List.contains_iff_mem.mpr (List.mem_append_right _ hline)
  rw [find?, k.slice_body, atEnd?_of_blank k.brace hblank, above?, hcontains, hblank,
    Text.trimEnd_concat_append k.isBlank_last k.isBlankText_gap]
  rfl

/-- **A header that opens a block is found from a later line too**, where it is. -/
theorem find?_respaced {blanks : Text} {h : Header} (hline : '\n' ∉ k.gap)
    (hfound : find? k.source k.floor k.brace = some h) (hread : (read? h.text).isSome = true)
    (hblanks : Text.isBlankText blanks = true) (hlower : '\n' ∈ blanks) :
    find? (k.respaced hblanks).source k.floor (k.stop + blanks.bytes) = some h := by
  have hbelow := (k.respaced hblanks).find?_below hlower
  refine hbelow.trans ?_
  show Option.filter _ (atEnd? k.stop (k.line ++ [k.last])) = some h
  rw [← k.find?_on_line hline, hfound, Option.filter_some, if_pos hread]

end Cut

/-- **Every header that is found cuts the source**: it ends with a character that is no blank. -/
theorem exists_cut {source : Text} {floor brace : Nat} {h : Header}
    (hfloor : Text.Fresh source floor) (hbrace : Text.Border source brace) (hle : floor ≤ brace)
    (hfound : find? source floor brace = some h) :
    ∃ k : Cut, k.source = source ∧ k.floor = floor ∧ k.brace = brace ∧ h.span.stop = k.stop ∧
      Text.slice source ⟨h.span.stop, brace⟩ = k.gap := by
  obtain ⟨x, gap, after, hsource, hgap, hspan, hstop⟩ :=
    find?_eq_some hfloor.border hbrace hle hfound
  have hstart := floor_le_of_find? hfloor.border hbrace hle hfound
  obtain ⟨hne, -, htrim⟩ := text_of_find? hfound
  have hblank : Text.isBlankText h.text = false := Bool.eq_false_iff.mpr fun hblank =>
    hne (htrim.symm.trans (Text.trim_eq_nil_iff.mpr hblank))
  obtain ⟨last, hlast, hlastBlank⟩ := (Text.tight_trim hblank).2
  rw [htrim] at hlast
  obtain ⟨text, htext⟩ := List.getLast?_eq_some_iff.mp hlast
  -- the header stands in the body
  obtain ⟨before, rest, hbefore, hbytes⟩ := hfloor.border
  rw [hspan] at hstart
  obtain ⟨m, rfl, -⟩ := Text.exists_between (hbefore.symm.trans hsource) (hbytes ▸ hstart)
  let k : Cut := ⟨before, m ++ text, last, gap, after, hlastBlank, hgap⟩
  have hk : k.source = source := by
    rw [hsource, htext]
    simp only [k, Cut.source, List.append_assoc]
  have hends : k.stop = Text.bytes (before ++ m) + h.text.bytes := by
    rw [htext]
    simp only [k, Cut.stop, Cut.floor, Text.bytes_append]
    omega
  have hgapSpan : (⟨h.span.stop, brace⟩ : Span) =
      ⟨Text.bytes (before ++ m ++ h.text), Text.bytes (before ++ m ++ h.text) + gap.bytes⟩ := by
    rw [Text.bytes_append, hstop, hspan]
  refine ⟨k, hk, hbytes, by rw [Cut.brace, hends, hstop], by rw [hspan, hends], ?_⟩
  rw [hgapSpan, hsource, ← List.append_assoc, Text.slice_append]

/-- What is recognised is not flagged. -/
theorem flagged_verdict {h : Header} (hread : (read? h.text).isSome = true) :
    h.verdict.flagged = false := by
  rw [verdict]
  split
  · rename_i hnone
    rw [hnone] at hread
    cases hread
  · rfl
  · rfl

end Header

/-! ## Blocks with their headers on the line of the brace -/

namespace Block

/-- **A block with a header on the line of its brace** that opens a block. -/
structure HeadedOnLine (source : Text) (b : Block) : Prop where
  nonempty : b.headerSpan.start < b.headerSpan.stop
  /-- There is no line break between the header and the brace. -/
  line : '\n' ∉ Text.slice source ⟨b.headerSpan.stop, b.span.start⟩
  recognised : (Header.read? (Text.slice source b.headerSpan)).isSome = true

/-- The source with other blanks between the header of a block and its brace. -/
def respaced (b : Block) (source blanks : Text) : Text :=
  Text.takeBytes b.headerSpan.stop source ++ (blanks ++ Text.dropBytes b.span.start source)

/-- Where positions are then. -/
def shift (b : Block) (blanks : Text) : Nat → Nat :=
  shiftFrom b.headerSpan.stop (b.span.start - b.headerSpan.stop) blanks.bytes

/-- **Blocks that are told by the same header**, in two sources. -/
structure ToldAlike (source source' : Text) (b b' : Block) : Prop where
  kind_eq : b'.kind = b.kind
  /-- The header is understood. -/
  unflagged : b'.flagged = false
  headerSpan_eq : b'.headerSpan = b.headerSpan
  /-- The same text stands there. -/
  text_eq : Text.slice source' b'.headerSpan = Text.slice source b.headerSpan

/-- Statements change nothing of this. -/
theorem headedOnLine_frame {source : Text} {b : Block} :
    b.frame.HeadedOnLine source ↔ b.HeadedOnLine source :=
  ⟨fun h => ⟨h.nonempty, h.line, h.recognised⟩, fun h => ⟨h.nonempty, h.line, h.recognised⟩⟩

theorem toldAlike_frame {source source' : Text} {b b' : Block} :
    b.frame.ToldAlike source source' b'.frame ↔ b.ToldAlike source source' b' :=
  ⟨fun h => ⟨h.kind_eq, h.unflagged, h.headerSpan_eq, h.text_eq⟩,
    fun h => ⟨h.kind_eq, h.unflagged, h.headerSpan_eq, h.text_eq⟩⟩

end Block

namespace BlockTree

variable {source source' blanks : Text} {t t' : BlockTree} {c p : Nat} {k : Header.Cut}
  {header : Header}

/-! ### What the header of a block says -/

theorem verdict_of_find? (hp : (t.get c).parent = some p)
    (hfound : Header.find? source (t.get p).body.start (t.get c).span.start = some header) :
    t.verdict source (t.get c) = header.verdict := by
  rw [verdict, hp]
  dsimp only
  rw [hfound]

theorem Bracketed.slice_of_find? (h : t.Bracketed source) (hc : c < t.size)
    (hp : (t.get c).parent = some p)
    (hfound : Header.find? source (t.get p).body.start (t.get c).span.start = some header) :
    Text.slice source header.span = header.text :=
  Header.slice_of_find? (h.fresh_body_start (h.parent_lt hc hp)).border
    (Brace.border (h.matched (h.ne_root_of_parent hp) hc).open_mem) (h.inside hc hp).1 hfound

/-- **A header that opens a block tells it**, wherever the block is. -/
theorem toldAlike_of_find? {c' p' : Nat} (h : t.Bracketed source) (hc : c < t.size)
    (hp : (t.get c).parent = some p)
    (hfound : Header.find? source (t.get p).body.start (t.get c).span.start = some header)
    (h' : t'.Bracketed source') (hc' : c' < t'.size) (hp' : (t'.get c').parent = some p')
    (hfound' : Header.find? source' (t'.get p').body.start (t'.get c').span.start = some header)
    (hread : (Header.read? header.text).isSome = true) :
    ((t.classify source).get c).ToldAlike source source' ((t'.classify source').get c') := by
  have hverdict := verdict_of_find? hp hfound
  have hverdict' := verdict_of_find? hp' hfound'
  have hspan : ((t.classify source).get c).headerSpan = header.span := by
    rw [headerSpan_classify hp, hverdict, Header.span_verdict]
  have hspan' : ((t'.classify source').get c').headerSpan = header.span := by
    rw [headerSpan_classify hp', hverdict', Header.span_verdict]
  exact
    { kind_eq := by rw [kind_classify hp, kind_classify hp', hverdict, hverdict']
      unflagged := by rw [flagged_classify hp', hverdict', Header.flagged_verdict hread]
      headerSpan_eq := hspan'.trans hspan.symm
      text_eq := by
        rw [hspan, hspan', h.slice_of_find? hc hp hfound, h'.slice_of_find? hc' hp' hfound'] }

/-! ### The brace on a later line -/

/-- **A cut at the header of a block** that is on the line of its brace and opens a block. -/
structure CutAt (t : BlockTree) (p c : BlockId) (k : Header.Cut) (header : Header) : Prop where
  parent : (t.get c).parent = some p
  floor_eq : k.floor = (t.get p).body.start
  brace_eq : k.brace = (t.get c).span.start
  stop_eq : header.span.stop = k.stop
  found : Header.find? k.source k.floor k.brace = some header
  line : '\n' ∉ k.gap
  recognised : (Header.read? header.text).isSome = true

/-- **The source can be cut at such a header.** -/
theorem Bracketed.exists_cutAt (h : t.Bracketed source) (hr : c ≠ root) (hc : c < t.size)
    (honline : ((t.classify source).get c).HeadedOnLine source) :
    ∃ k header p, k.source = source ∧ t.CutAt p c k header := by
  obtain ⟨p, hplt, hp⟩ := h.exists_parent hr hc
  have hspan := @headerSpan_classify t source c p hp
  obtain ⟨hnonempty, hline, hrecognised⟩ := honline
  rw [hspan, span_classify] at hline
  rw [hspan] at hnonempty hrecognised
  rcases verdict_cases source hp with ⟨header, hfound, hverdict⟩ | hverdict
  · rw [hverdict, Header.span_verdict] at hline hrecognised
    rw [h.slice_of_find? hc hp hfound] at hrecognised
    obtain ⟨k, hsource, hfloor, hbrace, hstop, hgap⟩ :=
      Header.exists_cut (h.fresh_body_start hplt) (Brace.border (h.matched hr hc).open_mem)
        (h.inside hc hp).1 hfound
    refine ⟨k, header, p, hsource, hp, hfloor, hbrace, hstop, ?_, hgap ▸ hline, hrecognised⟩
    rw [hsource, hfloor, hbrace, hfound]
  · rw [hverdict] at hnonempty
    exact absurd hnonempty (Nat.lt_irrefl _)

namespace CutAt

variable (hk : t.CutAt p c k header)

include hk

theorem headerSpan_stop : ((t.classify k.source).get c).headerSpan.stop = k.stop := by
  have hfound := hk.found
  rw [hk.floor_eq, hk.brace_eq] at hfound
  rw [headerSpan_classify hk.parent, verdict_of_find? hk.parent hfound, Header.span_verdict,
    hk.stop_eq]

theorem span_start : ((t.classify k.source).get c).span.start = k.brace := by
  rw [span_classify, hk.brace_eq]

theorem respaced_eq (hblanks : Text.isBlankText blanks = true) :
    ((t.classify k.source).get c).respaced k.source blanks = (k.respaced hblanks).source := by
  rw [Block.respaced, hk.headerSpan_stop, hk.span_start, k.takeBytes_stop, k.dropBytes_brace]
  rfl

theorem shift_eq (blanks : Text) : ((t.classify k.source).get c).shift blanks =
    shiftFrom k.stop k.gap.bytes blanks.bytes := by
  rw [Block.shift, hk.headerSpan_stop, hk.span_start, Header.Cut.brace, Nat.add_sub_cancel_left]

/-- **Other blanks before the brace are no braces**: those behind it are moved. -/
theorem ofSource_respaced (h : t.Bracketed k.source) (hc : c < t.size)
    (hblanks : Text.isBlankText blanks = true) :
    Brace.ofSource (k.respaced hblanks).source = (Brace.ofSource k.source).map
      (Brace.moved (shiftFrom k.stop k.gap.bytes blanks.bytes)) := by
  have hopen := (h.matched (h.ne_root_of_parent hk.parent) hc).open_mem
  have hoffset : (t.get c).span.start = Text.bytes (k.before ++ (k.line ++ [k.last]) ++ k.gap) := by
    rw [← hk.brace_eq, Text.bytes_append, k.bytes_before_stop]
    rfl
  have hout := Brace.outside_of_mem k.isBlankText_gap hk.line hopen hoffset
  rw [← k.bytes_before_stop]
  exact Brace.ofSource_respaced hout k.isBlankText_gap hblanks k.after

end CutAt

namespace Moved

/-- A body that starts before a place starts where it did when braces behind that are moved. -/
theorem body_start_of_le {place old new : Nat}
    (h : Moved source source' (shiftFrom place old new) t t') (hp : p < t.size)
    (hle : (t.get p).body.start ≤ place) : (t'.get p).body.start = (t.get p).body.start := by
  by_cases hpr : p = root
  · rw [hpr, h.bracketed.root_body, h.bracketed'.root_body]
  · have hstart : (t.get p).body.start = (t.get p).span.start + 1 :=
      congrArg Span.start (h.bracketed.body_eq hpr hp).2
    rw [h.body_start_eq hpr hp, hstart, shiftFrom_of_lt (by omega)]

/-- **A block whose brace is moved to a later line is told by the header it had.** -/
theorem toldAlike_respaced {hblanks : Text.isBlankText blanks = true}
    (h : Moved k.source (k.respaced hblanks).source
      (shiftFrom k.stop k.gap.bytes blanks.bytes) t t')
    (hk : t.CutAt p c k header) (hc : c < t.size) (hlower : '\n' ∈ blanks) :
    ((t.classify k.source).get c).ToldAlike k.source (k.respaced hblanks).source
      ((t'.classify (k.respaced hblanks).source).get c) := by
  have hr := h.bracketed.ne_root_of_parent hk.parent
  have hle : (t.get p).body.start ≤ k.stop := hk.floor_eq ▸ Nat.le_add_right _ _
  have hstart : (t'.get c).span.start = k.stop + blanks.bytes := by
    rw [h.span_eq hr hc]
    show shiftFrom _ _ _ (t.get c).span.start = _
    rw [← hk.brace_eq, Header.Cut.brace, shiftFrom_of_le (Nat.le_refl _), Nat.add_sub_cancel]
  have hfloor := h.body_start_of_le (h.bracketed.parent_lt hc hk.parent) hle
  refine toldAlike_of_find? h.bracketed hc hk.parent ?_ h.bracketed' (h.size_eq ▸ hc)
    ((h.parent_eq hr hc).trans hk.parent) ?_ hk.recognised
  · rw [← hk.floor_eq, ← hk.brace_eq, hk.found]
  · rw [hfloor, ← hk.floor_eq, hstart,
      k.find?_respaced hk.line hk.found hk.recognised hblanks hlower]

end Moved
end BlockTree
end BraceTree
