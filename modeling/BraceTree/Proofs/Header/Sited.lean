import BraceTree.Proofs.Header.Titled
import BraceTree.Proofs.Statement.OneReading
import BraceTree.Proofs.Text.Located

/-!
# Where headers stand in the source

The search for a header goes backwards from a position, which is that of a brace or, in a second
try, the end of what stands above the line of the brace. Each try cuts parts out of the source, one
in the other: what stands between the floor of the search and the position, the last line of that,
what the search takes of the line, and the header that it makes of it, which is looked at even where
it is then refused (`Header.candidate`). Between the tries the line of the brace is looked for in
all that stands before it, and what stands above the line is cut off (`Header.slices`). The first
part of a try has borders at both ends, and each of the others is a part of the one before, so all
of them are cut out.

What is found is not empty, without blanks around it and in one line, and that is what is reported:
where no header is found there is nothing to complain about, and the block is a plain one, which
goes on with no branch.
-/

namespace BraceTree

open Text (Cuts Marks Border)

namespace Header

variable {source : Text} {floor stop brace : Nat} {h : Header}

/-- What the search for a header takes of the line that it reads back from `stop`. -/
def taken (source : Text) (floor stop : Nat) : Span :=
  ⟨stop - Text.bytes (tail (Text.slice source (line source floor stop))), stop⟩

/-- Where the two tries to find the header of a brace start. -/
def tries (source : Text) (floor brace : Nat) : List Nat :=
  [brace, floor + Text.bytes (Text.trimEnd (Text.slice source ⟨floor, brace⟩))]

/-- Where a try puts the header, at its own position if there is none. -/
def candidate (source : Text) (floor stop : Nat) : Span :=
  ((atEnd? stop (Text.slice source ⟨floor, stop⟩)).map (·.span)).getD ⟨stop, stop⟩

/-- **The parts of a source that the search for the header of a brace cuts out**: what stands before
the brace, what stands above its line, and what each try reads. -/
def slices (source : Text) (floor brace : Nat) : List Span :=
  ⟨0, brace⟩ :: ⟨floor, (line source floor brace).start⟩ ::
    (tries source floor brace).flatMap fun stop =>
      [⟨floor, stop⟩, line source floor stop, taken source floor stop, candidate source floor stop]

/-- A try starts at a border. -/
theorem border_of_mem_tries (hfloor : Border source floor) (hbrace : Border source brace)
    (hle : floor ≤ brace) (hstop : stop ∈ tries source floor brace) :
    Border source stop ∧ floor ≤ stop := by
  rcases List.mem_pair.mp hstop with rfl | rfl
  · exact ⟨hbrace, hle⟩
  · exact ⟨(border_above hfloor hbrace hle).1, Nat.le_add_right _ _⟩

/-- The last line is cut out, and the end of it that is taken. -/
theorem cuts_line (hfloor : Text.Fresh source floor) (hstop : Border source stop)
    (hle : floor ≤ stop) :
    Cuts source (line source floor stop) (Text.slice source (line source floor stop)) ∧
      Cuts source (taken source floor stop)
        (tail (Text.slice source (line source floor stop))) := by
  have hline := Text.cuts_of_border (fresh_line hfloor hstop hle).1.border hstop
    (Nat.sub_le stop (Text.bytes (Text.afterLast '\n' (Text.slice source ⟨floor, stop⟩))))
  obtain ⟨pre, hpre⟩ := exists_append_tail (Text.slice source (line source floor stop))
  refine ⟨hline, Cuts.ending (s := line source floor stop) (a := pre) ?_⟩
  rw [← hpre]
  exact hline

/-- The line of a try does not start before the floor. -/
theorem floor_le_line (hfloor : Border source floor) (hstop : Border source stop)
    (hle : floor ≤ stop) : floor ≤ (line source floor stop).start := by
  obtain ⟨a, m, b, rfl, rfl, rfl⟩ := hfloor.exists_text hstop hle
  obtain ⟨above, habove⟩ := Text.exists_append_afterLast '\n' m
  have hbytes := congrArg Text.bytes habove
  rw [Text.bytes_append] at hbytes
  rw [line, Text.slice_append]
  dsimp only
  omega

/-- What a try makes of its line is cut out, whether or not it is taken for the header. -/
theorem exists_cuts_candidate (hfloor : Border source floor) (hstop : Border source stop)
    (hle : floor ≤ stop) : ∃ t, Cuts source (candidate source floor stop) t := by
  unfold candidate
  cases hfound : atEnd? stop (Text.slice source ⟨floor, stop⟩) with
  | none => exact ⟨[], Text.cuts_nil hstop⟩
  | some h =>
    obtain ⟨a, m, b, rfl, rfl, rfl⟩ := hfloor.exists_text hstop hle
    rw [Text.slice_append] at hfound
    obtain ⟨pre, gap, hm, -, hspan⟩ := atEnd?_eq_some hfound
    have hpart : Cuts (a ++ (m ++ b)) ⟨a.bytes, a.bytes + m.bytes⟩ (pre ++ (h.text ++ gap)) :=
      ⟨a, b, by rw [hm], by rw [hm]⟩
    refine ⟨h.text, ?_⟩
    rw [Option.map_some, Option.getD_some, hspan]
    exact hpart.part

/-- **The search for a header cuts nothing but parts of the source out.** -/
theorem cuts_of_mem_slices (hfloor : Text.Fresh source floor) (hbrace : Border source brace)
    (hle : floor ≤ brace) {s : Span} (hs : s ∈ slices source floor brace) :
    Cuts source s (Text.slice source s) := by
  suffices hcuts : ∃ t, Cuts source s t by
    obtain ⟨t, ht⟩ := hcuts
    rwa [ht.slice_eq]
  rcases List.mem_cons.mp hs with rfl | hs
  · exact ⟨_, Text.cuts_of_border (Text.fresh_zero source).border hbrace (Nat.zero_le brace)⟩
  rcases List.mem_cons.mp hs with rfl | hs
  · exact ⟨_, Text.cuts_of_border hfloor.border (fresh_line hfloor hbrace hle).1.border
      (floor_le_line hfloor.border hbrace hle)⟩
  obtain ⟨stop, hstop, hs⟩ := List.mem_flatMap.mp hs
  obtain ⟨hborder, hfloorle⟩ := border_of_mem_tries hfloor.border hbrace hle hstop
  obtain ⟨hline, htaken⟩ := cuts_line hfloor hborder hfloorle
  simp only [List.mem_cons, List.not_mem_nil, or_false] at hs
  rcases hs with rfl | rfl | rfl | rfl
  · exact ⟨_, Text.cuts_of_border hfloor.border hborder hfloorle⟩
  · exact ⟨_, hline⟩
  · exact ⟨_, htaken⟩
  · exact exists_cuts_candidate hfloor.border hborder hfloorle

/-- **A header that is found is marked by its span.** -/
theorem marks_of_find? (hfloor : Border source floor) (hbrace : Border source brace)
    (hle : floor ≤ brace) (hfound : find? source floor brace = some h) : Marks source h.span := by
  obtain ⟨hne, hline, -⟩ := text_of_find? hfound
  obtain ⟨a, gap, b, hsource, -, hspan, -⟩ := find?_eq_some hfloor hbrace hle hfound
  exact ⟨h.text, ⟨a, gap ++ b, hsource, hspan⟩, hne, hline⟩

end Header

/-- The header of a block is cut out of the source, and so are the blanks before the brace. -/
theorem Block.HeaderStands.cuts {source : Text} {b : Block} (h : b.HeaderStands source) :
    (∃ header, Cuts source b.headerSpan header) ∧
      ∃ gap, Cuts source ⟨b.headerSpan.stop, b.span.start⟩ gap ∧
        Text.isBlankText gap = true := by
  obtain ⟨before, header, gap, rest, hsource, hgap, hspan, hstart⟩ := h
  refine ⟨⟨header, before, gap ++ rest, hsource, hspan⟩, gap, ⟨before ++ header, rest, ?_, ?_⟩,
    hgap⟩
  · rw [hsource, List.append_assoc]
  · rw [hspan, ← hstart, Text.bytes_append]

namespace BlockTree

variable {source : Text} {t : BlockTree} {c p : Nat} {f : Finding}

namespace Bracketed

variable (h : t.Bracketed source)

include h

/-- The search for a header starts at the brace of a block. The body of the parent is its floor. -/
theorem search (hc : c < t.size) (hp : (t.get c).parent = some p) :
    Text.Fresh source (t.get p).body.start ∧ Border source (t.get c).span.start ∧
      (t.get p).body.start ≤ (t.get c).span.start :=
  ⟨h.fresh_body_start (h.parent_lt hc hp),
    Brace.border (h.matched (h.ne_root_of_parent hp) hc).open_mem, (h.inside hc hp).1⟩

/-- **A block is judged by a header that its span marks**, or it has none. -/
theorem verdict_marks (hc : c < t.size) (hp : (t.get c).parent = some p) :
    Marks source (t.verdict source (t.get c)).span ∨
      t.verdict source (t.get c) =
        ⟨.plain, ⟨(t.get c).span.start, (t.get c).span.start⟩, false, none⟩ := by
  obtain ⟨hfloor, hbrace, hle⟩ := h.search hc hp
  rcases verdict_cases source hp with ⟨header, hfound, hverdict⟩ | hverdict
  · rw [hverdict, Header.span_verdict]
    exact .inl (Header.marks_of_find? hfloor.border hbrace hle hfound)
  · exact .inr hverdict

/-- **The header of a classified block is in one line.** -/
theorem exists_header_line (hc : c < t.size) (hp : (t.get c).parent = some p) :
    ∃ header, Cuts source ((t.classify source).get c).headerSpan header ∧ '\n' ∉ header := by
  rw [headerSpan_classify hp]
  rcases h.verdict_marks hc hp with ⟨header, hcuts, -, hline⟩ | hverdict
  · exact ⟨header, hcuts, hline⟩
  · rw [hverdict]
    exact ⟨[], Text.cuts_nil (h.search hc hp).2.1, List.not_mem_nil⟩

/-- **What is reported of headers stands where there is one.** -/
theorem marks_of_mem_headerFindings (hf : f ∈ (t.classify source).headerFindings source) :
    Marks source f.span := by
  obtain ⟨c, -, hproblem⟩ := List.mem_filterMap.mp hf
  dsimp only at hproblem
  rw [parent_classify, verdict_classify] at hproblem
  split at hproblem
  · cases hproblem
  · next hparent =>
    have hnot : (t.get c).parent ≠ none := fun hnone => hparent (by rw [hnone]; rfl)
    obtain ⟨p, hp⟩ := Option.ne_none_iff_exists'.mp hnot
    obtain ⟨q, hq, rfl⟩ := Option.map_eq_some_iff.mp hproblem
    refine (h.verdict_marks (t.lt_size_of_parent hp) hp).resolve_right fun hverdict => ?_
    rw [hverdict] at hq
    cases hq

/-- **What is reported of branches stands where there is a header.** -/
theorem marks_of_mem_branchFindings (hf : f ∈ (t.classify source).branchFindings) :
    Marks source f.span := by
  obtain ⟨id, -, hdangling⟩ := List.mem_flatMap.mp hf
  obtain ⟨b, hb, hbranch, hspan⟩ := exists_of_mem_dangling hdangling
  obtain ⟨c, hchild, rfl⟩ := List.mem_map.mp hb
  rw [children_classify] at hchild
  obtain ⟨hc, hp⟩ := h.mem_children_iff.mp hchild
  rw [kind_classify hp] at hbranch
  rw [hspan, headerSpan_classify hp]
  refine (h.verdict_marks hc hp).resolve_right fun hverdict => ?_
  rw [hverdict] at hbranch
  cases hbranch

end Bracketed
end BlockTree
end BraceTree
