import BraceTree.Proofs.Header.Classified
import BraceTree.Proofs.Hierarchy.Inside
import BraceTree.Proofs.Text.Trim

/-!
# Where the headers of a source stand

A header is looked for backwards from the brace of its block, on the same line or on one above. The
two searches have in common what matters for everything else: the header is a part of the source,
and between it and the brace there are only blanks (`Block.HeaderStands`). About where it starts
nothing is said but that it is in the body of the parent. A header with more closing parentheses
than opening ones reaches back over the blocks before it.
-/

namespace BraceTree

namespace Text

/-- Behind the last occurrence of a character there is a text without it. -/
theorem afterLast_cases (sep : Char) (t : Text) :
    sep ∉ afterLast sep t ∧
      (afterLast sep t = t ∨ ∃ pre, t = pre ++ sep :: afterLast sep t) := by
  constructor
  · intro h
    rw [afterLast, List.mem_reverse] at h
    simpa using List.all_eq_true.mp (List.all_takeWhile (p := (· != sep)) (l := t.reverse)) sep h
  · have ht : (t.reverse.dropWhile (· != sep)).reverse ++ afterLast sep t = t := by
      rw [afterLast, ← List.reverse_append, List.takeWhile_append_dropWhile, List.reverse_reverse]
    cases hdrop : t.reverse.dropWhile (· != sep) with
    | nil =>
      rw [hdrop] at ht
      exact .inl ht
    | cons c cs =>
      have hc : c = sep := by
        have := List.head_dropWhile_not (· != sep) (l := t.reverse)
          (by rw [hdrop]; exact List.cons_ne_nil c cs)
        simpa [hdrop] using this
      subst hc
      rw [hdrop, List.reverse_cons, List.append_assoc] at ht
      exact .inr ⟨cs.reverse, ht.symm⟩

/-- A text without a character is what follows the last occurrence of it. -/
theorem afterLast_of_not_mem {sep : Char} {t : Text} (h : sep ∉ t) : afterLast sep t = t := by
  rcases (afterLast_cases sep t).2 with heq | ⟨pre, hpre⟩
  · exact heq
  · exact absurd (hpre ▸ List.mem_append_right pre List.mem_cons_self) h

theorem exists_append_afterLast (sep : Char) (t : Text) : ∃ pre, t = pre ++ afterLast sep t := by
  rcases (afterLast_cases sep t).2 with heq | ⟨pre, hpre⟩
  · exact ⟨[], heq.symm⟩
  · exact ⟨pre ++ [sep], hpre.trans (List.append_cons _ _ _)⟩

end Text

namespace Header

/-- Going backwards takes one glyph after the other. -/
theorem backwards_prefix (parens : Nat) (gs : List Glyph) : backwards parens gs <+: gs := by
  induction gs generalizing parens with
  | nil => exact List.nil_prefix
  | cons g gs ih =>
    have htake : ∀ p, g :: backwards p gs <+: g :: gs := fun p =>
      (List.prefix_cons_inj g).mpr (ih p)
    unfold backwards
    split
    · exact htake _
    · split
      · cases parens with
        | zero => exact List.nil_prefix
        | succ p => exact htake p
      · split
        · exact List.nil_prefix
        · exact htake _

/-- What a header takes of a line is the end of the line. -/
theorem exists_append_tail (line : Text) : ∃ pre, line = pre ++ tail line := by
  obtain ⟨rest, hrest⟩ := backwards_prefix 0 line.glyphs.reverse
  refine ⟨(Glyph.chars rest).reverse, ?_⟩
  rw [tail, ← List.reverse_append, Glyph.chars, Glyph.chars, ← List.map_append, hrest,
    List.map_reverse, List.reverse_reverse]
  exact (Text.chars_glyphs line).symm

/-- **A header at the end of a text is a part of it, and only blanks follow.** -/
theorem atEnd?_eq_some {lo : Nat} {before : Text} {h : Header}
    (hfound : atEnd? (lo + before.bytes) before = some h) :
    ∃ pre gap, before = pre ++ (h.text ++ gap) ∧ Text.isBlankText gap = true ∧
      h.span = ⟨lo + Text.bytes pre, lo + Text.bytes pre + h.text.bytes⟩ := by
  unfold atEnd? at hfound
  dsimp only at hfound
  obtain ⟨line, hline⟩ := Text.exists_append_afterLast '\n' before
  obtain ⟨rest, hrest⟩ := exists_append_tail (Text.afterLast '\n' before)
  obtain ⟨gap, hgap, htrim⟩ := Text.eq_append_trim (tail (Text.afterLast '\n' before))
  generalize tail (Text.afterLast '\n' before) = raw at hfound hrest htrim
  split at hfound
  · exact absurd hfound (by simp)
  · obtain rfl := Option.some.inj hfound
    have hbefore : before = line ++ rest ++ raw := by
      rw [List.append_assoc, ← hrest]
      exact hline
    have hbytes := congrArg Text.bytes hbefore
    rw [Text.bytes_append] at hbytes
    refine ⟨line ++ rest ++ raw.takeWhile Text.isBlank, gap, ?_, hgap, ?_⟩
    · rw [List.append_assoc (line ++ rest), ← htrim]
      exact hbefore
    · have hstart : lo + before.bytes - raw.bytes = lo + Text.bytes (line ++ rest) := by omega
      rw [hstart, Text.bytes_append (line ++ rest), Nat.add_assoc lo]

/-- The header of a brace is a part of what stands before it, on the same line or on one above, and
only blanks follow. -/
theorem exists_of_find? {a before b : Text} {h : Header}
    (hfound : find? (a ++ (before ++ b)) a.bytes (a.bytes + before.bytes) = some h) :
    ∃ pre gap, before = pre ++ (h.text ++ gap) ∧ Text.isBlankText gap = true ∧
      h.span = ⟨a.bytes + Text.bytes pre, a.bytes + Text.bytes pre + h.text.bytes⟩ := by
  rw [find?, Text.slice_append] at hfound
  cases hhere : atEnd? (a.bytes + before.bytes) before with
  | some h' =>
    rw [hhere] at hfound
    obtain rfl := Option.some.inj hfound
    exact atEnd?_eq_some hhere
  | none =>
    rw [hhere] at hfound
    replace hfound : above? a.bytes before = some h := hfound
    unfold above? at hfound
    split at hfound
    · obtain ⟨pre, gap, htrimmed, hgap, hspan⟩ :=
        atEnd?_eq_some (Option.mem_filter_iff.mp hfound).1
      refine ⟨pre, gap ++ (before.reverse.takeWhile Text.isBlank).reverse, ?_, ?_, hspan⟩
      · rw [← List.append_assoc h.text, ← List.append_assoc pre, ← htrimmed, Text.trimEnd_append]
      · rw [Text.isBlankText, List.all_append, List.all_reverse, Bool.and_eq_true]
        exact ⟨hgap, Text.isBlankText_takeWhile _⟩
    · exact absurd hfound (by simp)

/-- **The search for a header never goes back behind the place where it has to end.** -/
theorem floor_le_of_find? {source : Text} {floor brace : Nat} {h : Header}
    (hfloor : Text.Border source floor) (hbrace : Text.Border source brace) (hle : floor ≤ brace)
    (hfound : find? source floor brace = some h) : floor ≤ h.span.start := by
  obtain ⟨a, before, b, rfl, rfl, rfl⟩ := hfloor.exists_text hbrace hle
  obtain ⟨pre, -, -, -, hspan⟩ := exists_of_find? hfound
  rw [hspan]
  exact Nat.le_add_right _ _

/-- **The header of a brace is a part of the source, and only blanks stand between the two.** -/
theorem find?_eq_some {source : Text} {floor brace : Nat} {h : Header}
    (hfloor : Text.Border source floor) (hbrace : Text.Border source brace) (hle : floor ≤ brace)
    (hfound : find? source floor brace = some h) :
    ∃ a gap b, source = a ++ (h.text ++ (gap ++ b)) ∧ Text.isBlankText gap = true ∧
      h.span = ⟨a.bytes, a.bytes + h.text.bytes⟩ ∧ a.bytes + h.text.bytes + gap.bytes = brace := by
  obtain ⟨a, before, b, rfl, rfl, rfl⟩ := hfloor.exists_text hbrace hle
  obtain ⟨pre, gap, hbefore, hgap, hspan⟩ := exists_of_find? hfound
  refine ⟨a ++ pre, gap, b, ?_, hgap, by rw [hspan, Text.bytes_append], ?_⟩
  · rw [hbefore]
    simp only [List.append_assoc]
  · rw [hbefore]
    simp only [Text.bytes_append]
    omega

/-- Its span cuts it out. -/
theorem slice_of_find? {source : Text} {floor brace : Nat} {h : Header}
    (hfloor : Text.Border source floor) (hbrace : Text.Border source brace) (hle : floor ≤ brace)
    (hfound : find? source floor brace = some h) : Text.slice source h.span = h.text := by
  obtain ⟨a, gap, b, hsource, -, hspan, -⟩ := find?_eq_some hfloor hbrace hle hfound
  rw [hspan, hsource]
  exact Text.slice_append a h.text (gap ++ b)

theorem span_verdict (h : Header) : h.verdict.span = h.span := by
  unfold verdict
  split <;> rfl

end Header

/-- **The header of a block stands in the source before its brace**, with only blanks between. -/
def Block.HeaderStands (source : Text) (b : Block) : Prop :=
  ∃ before header gap rest, source = before ++ (header ++ (gap ++ rest)) ∧
    Text.isBlankText gap = true ∧
    b.headerSpan = ⟨Text.bytes before, Text.bytes before + Text.bytes header⟩ ∧
    Text.bytes before + Text.bytes header + Text.bytes gap = b.span.start

namespace BlockTree

/-- A tree of bracket matching with the headers of its blocks. -/
structure Headed (source : Text) (t : BlockTree) : Prop extends Bracketed source t where
  header_stands : ∀ {c : Nat}, c ≠ root → c < t.size → (t.get c).HeaderStands source

/-! ## Trees of one shape -/

/-- Two trees with the same blocks at the same places in them. -/
structure SameShape (t t' : BlockTree) : Prop where
  size_eq : t'.size = t.size
  parent_eq : ∀ i : Nat, (t'.get i).parent = (t.get i).parent
  children_eq : ∀ i : Nat, (t'.get i).children = (t.get i).children
  span_eq : ∀ i : Nat, (t'.get i).span = (t.get i).span
  body_eq : ∀ i : Nat, (t'.get i).body = (t.get i).body

variable {source : Text} {t t' : BlockTree}

theorem SameShape.nested (h : SameShape t t') (ht : t.Nested) : t'.Nested where
  size_pos := by rw [h.size_eq]; exact ht.size_pos
  root_parent := by rw [h.parent_eq]; exact ht.root_parent
  root_body := by rw [h.body_eq, h.span_eq]; exact ht.root_body
  exists_parent := fun hr hc => by
    rw [h.size_eq] at hc ⊢
    rw [h.parent_eq]
    exact ht.exists_parent hr hc
  mem_children_iff := fun {p c} => by
    rw [h.children_eq, h.size_eq, h.parent_eq]
    exact ht.mem_children_iff
  children_nodup := fun p => by rw [h.children_eq]; exact ht.children_nodup p
  body_eq := fun hr hc => by
    rw [h.size_eq] at hc
    rw [h.span_eq, h.body_eq]
    exact ht.body_eq hr hc
  inside := fun hc hp => by
    rw [h.size_eq] at hc
    rw [h.parent_eq] at hp
    rw [h.body_eq, h.span_eq]
    exact ht.inside hc hp
  span_stop_le := fun hc => by
    rw [h.size_eq] at hc
    rw [h.span_eq, h.span_eq]
    exact ht.span_stop_le hc

/-- **Bracket matching only sees the shape of a tree.** -/
theorem SameShape.bracketed (h : SameShape t t') (ht : t.Bracketed source) :
    t'.Bracketed source where
  toNested := h.nested ht.toNested
  root_span := by rw [h.span_eq]; exact ht.root_span
  matched_iff := fun {s} => by
    rw [ht.matched_iff, h.size_eq]
    simp only [h.span_eq]
  span_inj := fun {c d} hcr hc hdr hd heq => by
    rw [h.size_eq] at hc hd
    rw [h.span_eq, h.span_eq] at heq
    exact ht.span_inj hcr hc hdr hd heq
  encloser := fun {p c} hc hp => by
    rw [h.size_eq] at hc
    rw [h.parent_eq] at hp
    rw [h.span_eq, h.span_eq]
    exact ht.encloser hc hp
  ordered := fun p => by
    rw [h.children_eq]
    simp only [h.span_eq]
    exact ht.ordered p

theorem sameShape_classify (t : BlockTree) (source : Text) : SameShape t (t.classify source) :=
  ⟨by simp, by simp, by simp, by simp, by simp⟩

/-! ## The classified tree -/

/-- **The header of a classified block does not start before the body of its parent.** -/
theorem Bracketed.floor_le_classify (h : t.Bracketed source) {c p : Nat} (hc : c < t.size)
    (hp : (t.get c).parent = some p) :
    (t.get p).body.start ≤ ((t.classify source).get c).headerSpan.start := by
  have hbrace : Text.Border source (t.get c).span.start :=
    Brace.border (h.matched (h.ne_root_of_parent hp) hc).open_mem
  have hfloor := (h.fresh_body_start (h.parent_lt hc hp)).border
  have hinside := (h.inside hc hp).1
  rw [headerSpan_classify hp]
  rcases verdict_cases source hp with ⟨header, hfound, hverdict⟩ | hverdict
  · rw [hverdict, Header.span_verdict]
    exact Header.floor_le_of_find? hfloor hbrace hinside hfound
  · rw [hverdict]
    exact hinside

/-- **Every classified block has its header in the source**, an empty one if none was found. -/
theorem Bracketed.headed_classify (h : t.Bracketed source) : (t.classify source).Headed source where
  toBracketed := (sameShape_classify t source).bracketed h
  header_stands := fun {c} hr hc => by
    rw [size_classify] at hc
    obtain ⟨p, hp, hpar⟩ := h.exists_parent hr hc
    have hbrace : Text.Border source (t.get c).span.start := Brace.border (h.matched hr hc).open_mem
    have hfloor := (h.fresh_body_start hp).border
    rw [get_classify, if_neg (by rw [hpar]; simp)]
    show ∃ before header gap rest, _ ∧ _ ∧ (t.verdict source (t.get c)).span = _ ∧
      _ = (t.get c).span.start
    rcases verdict_cases source hpar with ⟨header, hfound, hverdict⟩ | hverdict
    · obtain ⟨a, gap, b, hsource, hgap, hspan, hstop⟩ :=
        Header.find?_eq_some hfloor hbrace (h.inside hc hpar).1 hfound
      rw [hverdict, Header.span_verdict]
      exact ⟨a, header.text, gap, b, hsource, hgap, hspan, hstop⟩
    · obtain ⟨a, b, hsource, hbytes⟩ := hbrace
      rw [hverdict]
      exact ⟨a, [], [], b, hsource, rfl, by rw [← hbytes]; rfl, hbytes⟩

end BlockTree
end BraceTree
