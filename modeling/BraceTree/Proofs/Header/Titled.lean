import BraceTree.Proofs.Header.Captured
import BraceTree.Proofs.Statement.Lossless

/-!
# The title of a block

The line of a block names its kind, shows what the header captured, and where the header was not
understood shows it as written. So three things have to be told apart in one text: the name has no
blank in it, what was captured can be told by itself, and a header that was not understood is only
shown by plain blocks, which captured nothing (`BlockTree.title_inj`).
-/

namespace BraceTree

namespace Header

/-- The text of a header is in one line and not empty, and no blanks are around it. -/
theorem text_of_atEnd? {stop : Nat} {before : Text} {h : Header}
    (hfound : atEnd? stop before = some h) :
    h.text ≠ [] ∧ '\n' ∉ h.text ∧ Text.trim h.text = h.text := by
  unfold atEnd? at hfound
  dsimp only at hfound
  obtain ⟨rest, hrest⟩ := exists_append_tail (Text.afterLast '\n' before)
  split at hfound
  · cases hfound
  · next hempty =>
    obtain rfl := Option.some.inj hfound
    refine ⟨fun hnil => hempty (List.isEmpty_iff.mpr hnil),
      fun hmem => (Text.afterLast_cases '\n' before).1 ?_, Text.trim_trim _⟩
    rw [hrest]
    exact List.mem_append_right rest (Text.mem_of_mem_trim hmem)

theorem text_of_find? {source : Text} {floor brace : Nat} {h : Header}
    (hfound : find? source floor brace = some h) :
    h.text ≠ [] ∧ '\n' ∉ h.text ∧ Text.trim h.text = h.text := by
  unfold find? at hfound
  dsimp only at hfound
  rcases (Option.orElse_eq_some _ _ _).mp hfound with hfound | ⟨-, hfound⟩
  · exact text_of_atEnd? hfound
  · unfold above? at hfound
    split at hfound
    · exact text_of_atEnd? (Option.mem_filter_iff.mp hfound).1
    · cases hfound

end Header

/-! ## Blocks and their headers -/

/-- **A block whose kind and header can be told from its title.** -/
structure Block.Titled (source : Text) (b : Block) : Prop where
  kind : b.kind.Legible
  /-- Only a plain block has a header that was not understood. -/
  plain : b.flagged = true → b.kind = .plain
  line : b.flagged = true → '\n' ∉ Text.slice source b.headerSpan
  trimmed : b.flagged = true →
    Text.trim (Text.slice source b.headerSpan) = Text.slice source b.headerSpan

/-- Statements change nothing of it. -/
theorem Block.titled_frame {source : Text} {b : Block} : b.frame.Titled source ↔ b.Titled source :=
  ⟨fun h => ⟨h.kind, h.plain, h.line, h.trimmed⟩, fun h => ⟨h.kind, h.plain, h.line, h.trimmed⟩⟩

theorem ForClause.last_display (f : ForClause) : ∃ a, f.display.toList = a ++ [')'] := by
  cases f with
  | counted init condition step =>
    exact ⟨("(" ++ init ++ "; " ++ condition ++ "; " ++ step).toList, by simp [ForClause.display]⟩
  | each item collection =>
    exact ⟨("(" ++ item ++ " in " ++ collection).toList, by simp [ForClause.display]⟩

theorem Signature.last_display (s : Signature) :
    ∃ a b, s.display.toList = a ++ b ∧ Text.Tight b := by
  have hparen : Text.Tight [')'] := .of_all (by decide) (by decide)
  rw [Signature.toList_display, Signature.returnSuffix]
  cases s.returnType with
  | none =>
    exact ⟨s.name.toList ++ '(' :: (", ".intercalate (s.parameters.map Parameter.display)).toList,
      [')'], by simp, hparen⟩
  | some type =>
    exact ⟨s.name.toList ++ '(' :: (", ".intercalate (s.parameters.map Parameter.display)).toList ++
      ')' :: " : ".toList, type.display.toList, by simp, type.tight_display⟩

namespace BlockKind

theorem legible_plain : BlockKind.plain.Legible := ⟨trivial, by decide⟩

theorem legible_main : BlockKind.main.Legible := ⟨trivial, by decide⟩

theorem eq_plain_of_label {k : BlockKind} (h : k.label = BlockKind.plain.label) : k = .plain := by
  cases k <;> first | rfl | exact absurd h (by simp [label])

/-- The name of a kind starts with a capital letter. -/
theorem isUpper_head_label (k : BlockKind) : k.label.toList.head?.any Char.isUpper = true := by
  cases k <;> simp only [label] <;> decide

theorem tight_label (k : BlockKind) : Text.Tight k.label.toList := by
  cases k <;> simp only [label] <;> exact .of_all (by decide) (by decide)

/-- What was captured ends with something other than a blank. -/
theorem captured_last (k : BlockKind) :
    k.captured = [] ∨ ∃ a b, k.captured = a ++ b ∧ Text.Tight b := by
  have hparen : Text.Tight [')'] := .of_all (by decide) (by decide)
  cases k with
  | main | elseBranch | plain => exact .inl rfl
  | ifBranch c | elifBranch c | whileLoop c =>
    exact .inr ⟨" (".toList ++ c.toList, [')'], by simp [captured], hparen⟩
  | forLoop clause =>
    obtain ⟨a, ha⟩ := ForClause.last_display clause
    exact .inr ⟨' ' :: a, [')'], by simp [captured, ha], hparen⟩
  | function s =>
    obtain ⟨a, b, hab, hb⟩ := Signature.last_display s
    exact .inr ⟨' ' :: a, b, by simp [captured, hab], hb⟩

theorem blank_not_mem_label (k : BlockKind) : ' ' ∉ k.label.toList := by
  cases k <;> simp only [label] <;> decide

end BlockKind

/-- The verdict on a header has a legible kind, and shows the header if it was not understood. -/
theorem Header.legible_verdict {h : Header} (hline : '\n' ∉ h.text) :
    h.verdict.kind.Legible ∧ (h.verdict.flagged = true → h.verdict.kind = .plain) := by
  unfold verdict
  split
  · exact ⟨BlockKind.legible_plain, fun _ => rfl⟩
  · rename_i kind hread
    exact ⟨legible_of_read? hread hline, fun hflag => absurd hflag Bool.false_ne_true⟩
  · rename_i kind type hread
    exact ⟨legible_of_read? hread hline, fun hflag => absurd hflag Bool.false_ne_true⟩

namespace BlockTree

variable {source : Text} {t t' : BlockTree} {c : Nat}

/-- **Classified blocks can be told from their titles.** -/
theorem Bracketed.titled_classify (h : t.Bracketed source) (hr : c ≠ root) (hc : c < t.size) :
    ((t.classify source).get c).Titled source := by
  obtain ⟨p, hp, hparent⟩ := h.exists_parent hr hc
  have hbrace : Text.Border source (t.get c).span.start := Brace.border (h.matched hr hc).open_mem
  have hfloor := (h.fresh_body_start hp).border
  rw [get_classify, if_neg (by rw [hparent]; simp)]
  rcases verdict_cases source hparent with ⟨header, hfound, hverdict⟩ | hverdict <;> rw [hverdict]
  · obtain ⟨-, hline, htrim⟩ := Header.text_of_find? hfound
    have hslice : Text.slice source header.verdict.span = header.text := by
      rw [Header.span_verdict]
      exact Header.slice_of_find? hfloor hbrace (h.inside hc hparent).1 hfound
    obtain ⟨hkind, hplain⟩ := Header.legible_verdict hline
    refine ⟨hkind, hplain, fun _ => ?_, fun _ => ?_⟩
    · show '\n' ∉ Text.slice source header.verdict.span
      rw [hslice]
      exact hline
    · show Text.trim (Text.slice source header.verdict.span) =
        Text.slice source header.verdict.span
      rw [hslice, htrim]
  · have hnot : ∀ {P : Prop}, false = true → P := fun h => absurd h Bool.false_ne_true
    exact ⟨BlockKind.legible_plain, hnot, hnot, hnot⟩

end BlockTree

namespace Program

variable {source : Text} {sourceId : Nat} {p : Program} {f : Forest} {c : Nat}

theorem kind_root_classified (hf : place source = .ok f) :
    ((classified source f).get BlockTree.root).kind = .main ∧
      ((classified source f).get BlockTree.root).flagged = false := by
  obtain ⟨e, he, hsound, hdone⟩ := place_eq_ok hf
  have hparent := (hsound.bracketed (Line.ofSource source) he hdone).root_parent
  rw [classified, BlockTree.get_classify, if_pos (by rw [hparent]; rfl),
    Forest.get_finish _ f hsound.root_lt]
  have hroot := hsound.root_unlinked
  exact ⟨congrArg Block.kind hroot, congrArg Block.flagged hroot⟩

/-- **Every block of a parsed program can be told from its title.** -/
theorem titled_tree (hp : ofText source sourceId = .ok p) (hc : c < p.tree.size) :
    (p.tree.get c).Titled source := by
  obtain ⟨f, hf, hframes⟩ := exists_sameFrames hp
  have htitled : ((classified source f).get c).Titled source := by
    by_cases hr : c = BlockTree.root
    · subst hr
      obtain ⟨hkind, hflagged⟩ := kind_root_classified hf
      have hnot : ∀ {P : Prop}, ((classified source f).get BlockTree.root).flagged = true → P :=
        fun h => absurd (hflagged.symm.trans h) Bool.false_ne_true
      exact ⟨hkind ▸ BlockKind.legible_main, hnot, hnot, hnot⟩
    · obtain ⟨e, he, hsound, hdone⟩ := place_eq_ok hf
      rw [hframes.size_eq, classified, BlockTree.size_classify] at hc
      exact (hsound.bracketed _ he hdone).titled_classify hr hc
  rw [← Block.titled_frame, hframes.frame_eq, Block.titled_frame]
  exact htitled

end Program

namespace BlockTree

variable {source source' : Text} {t t' : BlockTree} {c d : Nat}

/-- What the title of a block shows of a header that was not understood. -/
def unclassified (t : BlockTree) (source : Text) (id : BlockId) : Text :=
  if (t.get id).flagged then
    " [unclassified: ".toList ++ (Text.trim (Text.slice source (t.get id).headerSpan) ++ [']'])
  else []

theorem toList_title (t : BlockTree) (source : Text) (id : BlockId) :
    (t.title source id).toList = (t.get id).kind.label.toList ++
      ((t.get id).kind.captured ++ t.unclassified source id) := by
  rw [title, unclassified, String.toList_append, BlockKind.toList_display, List.append_assoc]
  split <;> simp

/-- Behind the name of a kind nothing follows or a blank. -/
theorem behind_label (t : BlockTree) (source : Text) (id : BlockId) :
    (t.get id).kind.captured ++ t.unclassified source id = [] ∨
      ∃ cs, (t.get id).kind.captured ++ t.unclassified source id = ' ' :: cs := by
  rcases (t.get id).kind.captured_cases with hnil | ⟨cs, hcs⟩
  · rw [hnil, unclassified]
    split
    · exact .inr ⟨_, rfl⟩
    · exact .inl rfl
  · exact .inr ⟨cs ++ t.unclassified source id, by rw [hcs]; rfl⟩

/-- A text without blanks is told from what follows it behind a blank. -/
theorem label_inj {a a' x x' : Text} (ha : ' ' ∉ a) (ha' : ' ' ∉ a')
    (hx : x = [] ∨ ∃ cs, x = ' ' :: cs) (hx' : x' = [] ∨ ∃ cs, x' = ' ' :: cs)
    (h : a ++ x = a' ++ x') : a = a' ∧ x = x' := by
  rcases hx with rfl | ⟨cs, rfl⟩ <;> rcases hx' with rfl | ⟨cs', rfl⟩
  · simpa using h
  · rw [List.append_nil] at h
    exact absurd (h ▸ List.mem_append_right a' List.mem_cons_self) ha
  · rw [List.append_nil] at h
    exact absurd (h ▸ List.mem_append_right a List.mem_cons_self) ha'
  · obtain ⟨haa, hcs⟩ := Text.append_cons_inj ha ha' h
    exact ⟨haa, by rw [hcs]⟩

/-- **A title tells the kind of a block**, whether its header was not understood, and that
header. -/
theorem title_inj (hc : (t.get c).Titled source) (hd : (t'.get d).Titled source')
    (h : t.title source c = t'.title source' d) :
    (t.get c).kind = (t'.get d).kind ∧ (t.get c).flagged = (t'.get d).flagged ∧
      ((t.get c).flagged = true → (t.get c).header source = (t'.get d).header source') := by
  have htext := congrArg String.toList h
  rw [toList_title, toList_title] at htext
  obtain ⟨hlabel, hbehind⟩ := label_inj (BlockKind.blank_not_mem_label _)
    (BlockKind.blank_not_mem_label _) (t.behind_label source c) (t'.behind_label source' d) htext
  replace hlabel := String.toList_inj.mp hlabel
  -- a plain block has captured nothing, and its name is that of no other kind
  cases hflag : (t.get c).flagged <;> cases hflag' : (t'.get d).flagged
  · rw [unclassified, unclassified, hflag, hflag', if_neg Bool.false_ne_true,
      if_neg Bool.false_ne_true, List.append_nil, List.append_nil] at hbehind
    exact ⟨hc.kind.eq_of_captured_eq hd.kind hlabel hbehind, rfl,
      fun h => absurd h Bool.false_ne_true⟩
  · have hplain := hd.plain hflag'
    rw [hplain] at hlabel hbehind
    rw [BlockKind.eq_plain_of_label hlabel, unclassified, unclassified, hflag, hflag',
      if_neg Bool.false_ne_true, if_pos rfl] at hbehind
    exact absurd hbehind (by simp [BlockKind.captured])
  · have hplain := hc.plain hflag
    rw [hplain] at hlabel hbehind
    rw [BlockKind.eq_plain_of_label hlabel.symm, unclassified, unclassified, hflag, hflag',
      if_neg Bool.false_ne_true, if_pos rfl] at hbehind
    exact absurd hbehind (by simp [BlockKind.captured])
  · have hplain := hc.plain hflag
    have hplain' := hd.plain hflag'
    rw [hplain, hplain', unclassified, unclassified, hflag, hflag', if_pos rfl, if_pos rfl,
      hc.trimmed hflag, hd.trimmed hflag'] at hbehind
    refine ⟨hplain.trans hplain'.symm, rfl, fun _ => ?_⟩
    exact congrArg String.ofList
      (List.append_cancel_right (List.append_cancel_left (List.append_cancel_left hbehind)))

/-! ## Titles as lines -/

theorem isUpper_head_title (t : BlockTree) (source : Text) (id : BlockId) :
    (t.title source id).toList.head?.any Char.isUpper = true := by
  obtain ⟨c, hc, -⟩ := (t.get id).kind.tight_label.1
  have hupper := (t.get id).kind.isUpper_head_label
  rw [hc] at hupper
  rw [toList_title, List.head?_append, hc]
  exact hupper

theorem tight_title (t : BlockTree) (source : Text) (id : BlockId) :
    Text.Tight (t.title source id).toList := by
  have hlabel := (t.get id).kind.tight_label
  rw [toList_title, unclassified]
  split
  · rw [← List.append_assoc " [unclassified: ".toList, ← List.append_assoc (t.get id).kind.captured]
    exact hlabel.around _ (.of_all (by decide) (by decide))
  · rw [List.append_nil]
    rcases (t.get id).kind.captured_last with hnil | ⟨a, b, hab, hb⟩
    · rw [hnil, List.append_nil]
      exact hlabel
    · rw [hab]
      exact hlabel.around a hb

theorem newline_not_mem_title (h : (t.get c).Titled source) :
    '\n' ∉ (t.title source c).toList := by
  have hdisplay := h.kind.line
  rw [BlockKind.toList_display, List.mem_append, not_or] at hdisplay
  rw [toList_title, List.mem_append, List.mem_append, not_or, not_or]
  refine ⟨hdisplay.1, hdisplay.2, ?_⟩
  unfold unclassified
  split
  · rename_i hflag
    rw [h.trimmed hflag, List.mem_append, List.mem_append, not_or, not_or]
    exact ⟨by decide, h.line hflag, by decide⟩
  · exact List.not_mem_nil

end BlockTree
end BraceTree
