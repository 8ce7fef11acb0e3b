import Mathlib.Data.List.Chain
import BraceTree.Proofs.Diagnostic.Sited

/-!
# Dangling branches

An `elif` or an `else` goes on with a branch, so it has to follow an `if` or an `elif` directly. The
check looks at two siblings at a time, all through the tree. Which blocks it reports is said with
the siblings of a block alone (`BlockTree.Dangling`), and each of them is reported once, at its
header (`Program.branches_reported`). That needs more than the check itself: no two blocks share a
header (`Headed.headerSpan_inj`), and nothing else that is reported has the code of a dangling
branch.

Where none of the children of a block is reported, their kinds fall into groups, each a branch from
its `if` to its end or a single block that has nothing to do with branches (`BlockKind.Group`).
-/

namespace BraceTree

/-! ## Groups of siblings -/

namespace BlockKind

/-- Two kinds that may stand side by side: the second one goes on with a branch only if the first
one allows it. -/
def Follows (j k : BlockKind) : Prop := k.continuesBranch = true → j.allowsBranch = true

/-- **Kinds that belong together**: a branch from its `if` to its end, or a single kind that has
nothing to do with branches. -/
inductive Group : List BlockKind → Prop
  | single {k : BlockKind} (hif : ∀ c, k ≠ .ifBranch c) (helif : ∀ c, k ≠ .elifBranch c)
      (helse : k ≠ .elseBranch) : Group [k]
  | branch (condition : String) (elifs : List String) {last : List BlockKind}
      (hlast : last = [] ∨ last = [.elseBranch]) :
      Group (.ifBranch condition :: (elifs.map .elifBranch ++ last))

variable {k : BlockKind} {ks : List BlockKind}

theorem continuesBranch_iff :
    k.continuesBranch = true ↔ (∃ c, k = .elifBranch c) ∨ k = .elseBranch := by
  cases k <;> simp [continuesBranch]

theorem allowsBranch_iff :
    k.allowsBranch = true ↔ (∃ c, k = .ifBranch c) ∨ ∃ c, k = .elifBranch c := by
  cases k <;> simp [allowsBranch]

/-- Within a group each kind may follow the one before it, and the first one starts anew. -/
theorem Group.isChain (h : Group ks) :
    ks.IsChain Follows ∧ ∃ k ∈ ks.head?, k.continuesBranch = false := by
  cases h with
  | @single k hif helif helse =>
    refine ⟨.singleton k, k, rfl, Bool.eq_false_iff.mpr fun hk => ?_⟩
    rcases continuesBranch_iff.mp hk with ⟨c, rfl⟩ | rfl
    · exact helif c rfl
    · exact helse rfl
  | @branch condition elifs last hlast =>
    refine ⟨?_, _, rfl, rfl⟩
    have hchain : ∀ j : BlockKind, j.allowsBranch = true →
        (j :: (elifs.map .elifBranch ++ last)).IsChain Follows := by
      induction elifs with
      | nil =>
        intro j hj
        rcases hlast with rfl | rfl
        · exact .singleton j
        · exact List.isChain_cons_cons.mpr ⟨fun _ => hj, .singleton _⟩
      | cons c elifs ih => exact fun j hj => List.isChain_cons_cons.mpr ⟨fun _ => hj, ih _ rfl⟩
    exact hchain _ rfl

/-- Behind a kind that allows it a branch goes on to its end, and what is left starts anew. -/
theorem exists_branch {j : BlockKind} (hj : j.allowsBranch = true)
    (h : (j :: ks).IsChain Follows) : ∃ (elifs : List String) (last rest : List BlockKind),
      ks = elifs.map .elifBranch ++ (last ++ rest) ∧ (last = [] ∨ last = [.elseBranch]) ∧
      rest.IsChain Follows ∧ ∀ k ∈ rest.head?, k.continuesBranch = false := by
  induction ks generalizing j with
  | nil => exact ⟨[], [], [], rfl, .inl rfl, .nil, nofun⟩
  | cons k ks ih =>
    obtain ⟨-, hks⟩ := List.isChain_cons_cons.mp h
    cases hk : k.continuesBranch with
    | false =>
      exact ⟨[], [], k :: ks, rfl, .inl rfl, hks, fun _ hmem => Option.some.inj hmem ▸ hk⟩
    | true =>
      rcases continuesBranch_iff.mp hk with ⟨c, rfl⟩ | rfl
      · obtain ⟨elifs, last, rest, rfl, hlast, hrest⟩ := ih rfl hks
        exact ⟨c :: elifs, last, rest, rfl, hlast, hrest⟩
      · -- nothing may go on with a branch behind an `else`
        refine ⟨[], [.elseBranch], ks, rfl, .inr rfl, hks.tail, fun k hmem => ?_⟩
        obtain ⟨ks, rfl⟩ := List.head?_eq_some_iff.mp hmem
        exact Bool.eq_false_iff.mpr fun hk =>
          Bool.false_ne_true ((List.isChain_cons_cons.mp hks).1 hk)

/-- Groups side by side start anew each time, so they may follow one another. -/
theorem isChain_flatten {groups : List (List BlockKind)} (h : ∀ g ∈ groups, Group g) :
    groups.flatten.IsChain Follows ∧ ∀ k ∈ groups.flatten.head?, k.continuesBranch = false := by
  induction groups with
  | nil => exact ⟨.nil, nofun⟩
  | cons g groups ih =>
    obtain ⟨hg, hgroups⟩ := List.forall_mem_cons.mp h
    obtain ⟨hchain, k, hk, hanew⟩ := hg.isChain
    obtain ⟨hbehind, hhead⟩ := ih hgroups
    obtain ⟨ks, rfl⟩ := List.head?_eq_some_iff.mp hk
    refine ⟨List.isChain_append.mpr ⟨hchain, hbehind, fun i hi j hj hcontinues => ?_⟩,
      fun j hj => Option.some.inj hj ▸ hanew⟩
    exact absurd hcontinues (ne_true_of_eq_false (hhead j hj))

/-- Kinds that may follow one another fall into groups. -/
theorem exists_groups : ∀ {ks : List BlockKind}, ks.IsChain Follows →
    (∀ k ∈ ks.head?, k.continuesBranch = false) →
      ∃ groups : List (List BlockKind), (∀ g ∈ groups, Group g) ∧ ks = groups.flatten
  | [], _, _ => ⟨[], nofun, rfl⟩
  | k :: ks, hchain, hhead => by
    have hanew : k.continuesBranch = false := hhead k rfl
    cases hk : k.allowsBranch with
    | false =>
      have hbehind : ∀ j ∈ ks.head?, j.continuesBranch = false := fun j hj => by
        obtain ⟨ks, rfl⟩ := List.head?_eq_some_iff.mp hj
        exact Bool.eq_false_iff.mpr fun hcontinues =>
          ne_true_of_eq_false hk ((List.isChain_cons_cons.mp hchain).1 hcontinues)
      obtain ⟨groups, hgroups, rfl⟩ := exists_groups hchain.tail hbehind
      have hsingle : Group [k] := by
        refine .single (fun c hc => ?_) (fun c hc => ?_) fun hc => ?_ <;> subst hc
        · exact Bool.false_ne_true hk.symm
        · exact Bool.false_ne_true hk.symm
        · exact Bool.false_ne_true hanew.symm
      exact ⟨[k] :: groups, List.forall_mem_cons.mpr ⟨hsingle, hgroups⟩, rfl⟩
    | true =>
      obtain ⟨elifs, last, rest, rfl, hlast, hrest, hbehind⟩ := exists_branch hk hchain
      obtain ⟨groups, hgroups, rfl⟩ := exists_groups hrest hbehind
      obtain ⟨condition, rfl⟩ : ∃ condition, k = .ifBranch condition := by
        rcases allowsBranch_iff.mp hk with hif | ⟨c, rfl⟩
        · exact hif
        · exact absurd hanew.symm Bool.false_ne_true
      exact ⟨_ :: groups, List.forall_mem_cons.mpr ⟨.branch condition elifs hlast, hgroups⟩,
        by simp⟩
termination_by ks => ks.length

end BlockKind

namespace BlockTree

variable {source : Text} {t : BlockTree} {c d : BlockId}

/-- **A dangling branch**: an `elif` or an `else` that is the first child of its parent, or stands
right behind a sibling that is neither an `if` nor an `elif`. -/
def Dangling (t : BlockTree) (c : BlockId) : Prop :=
  ∃ q before behind, (t.get q).children = before ++ c :: behind ∧
    (t.get c).kind.continuesBranch = true ∧
    ∀ d ∈ before.getLast?, (t.get d).kind.allowsBranch = false

/-- Where branches among some siblings are reported, given the kind of the one before them. -/
theorem mem_spans_dangling_iff {s : Span} {bs : List Block} {previous : Option BlockKind} :
    s ∈ (dangling previous bs).map (·.span) ↔ ∃ before b behind, bs = before ++ b :: behind ∧
      b.kind.continuesBranch = true ∧
      (∀ j ∈ (before.getLast?.map (·.kind)).or previous, j.allowsBranch = false) ∧
      s = b.headerSpan := by
  induction bs generalizing previous with
  | nil =>
    refine ⟨fun hs => absurd hs List.not_mem_nil, ?_⟩
    rintro ⟨before, b, behind, hsplit, -⟩
    exact absurd hsplit.symm (by simp)
  | cons b bs ih =>
    have hstep : s ∈ (dangling previous (b :: bs)).map (·.span) ↔
        (b.kind.continuesBranch = true ∧ (∀ j ∈ previous, j.allowsBranch = false) ∧
          s = b.headerSpan) ∨ s ∈ (dangling (some b.kind) bs).map (·.span) := by
      have hnot : (!previous.any BlockKind.allowsBranch) = true ↔
          ∀ j ∈ previous, j.allowsBranch = false := by
        cases previous <;> simp
      rw [dangling, ← hnot, ← and_assoc, ← Bool.and_eq_true]
      split
      · next hdangling => simp [hdangling]
      · next hdangling => simp [hdangling]
    rw [hstep, ih]
    constructor
    · rintro (⟨hcontinues, hprevious, rfl⟩ | ⟨before, b', behind, rfl, hcontinues, hlast, rfl⟩)
      · exact ⟨[], b, bs, rfl, hcontinues, hprevious, rfl⟩
      · refine ⟨b :: before, b', behind, rfl, hcontinues, ?_, rfl⟩
        cases before <;> exact hlast
    · rintro ⟨before, b', behind, hsplit, hcontinues, hlast, rfl⟩
      cases before with
      | nil =>
        obtain ⟨rfl, rfl⟩ := List.cons.inj hsplit
        exact .inl ⟨hcontinues, hlast, rfl⟩
      | cons a before =>
        obtain ⟨rfl, rfl⟩ := List.cons.inj hsplit
        refine .inr ⟨before, b', behind, rfl, hcontinues, ?_, rfl⟩
        cases before <;> exact hlast

/-- Each of the siblings is reported once at most, and they are reported in their order. -/
theorem spans_dangling (bs : List Block) : ∀ previous : Option BlockKind,
    ((dangling previous bs).map (·.span)).Sublist (bs.map (·.headerSpan)) := by
  induction bs with
  | nil => exact fun _ => .slnil
  | cons b bs ih =>
    intro previous
    rw [dangling]
    split
    · exact (ih _).cons_cons b.headerSpan
    · exact (ih _).cons b.headerSpan

namespace Nested

variable (h : t.Nested)

include h

/-- A dangling branch is a child of its parent. -/
theorem exists_parent_of_dangling (hc : t.Dangling c) :
    c < t.size ∧ ∃ q, (t.get c).parent = some q := by
  obtain ⟨q, before, behind, hchildren, -⟩ := hc
  obtain ⟨hlt, hparent⟩ := h.mem_children_iff.mp
    (show c ∈ (t.get q).children by rw [hchildren]; simp)
  exact ⟨hlt, q, hparent⟩

/-- **The branches that are reported are the dangling ones**, each at its header. -/
theorem mem_spans_branchFindings_iff {s : Span} :
    s ∈ t.branchFindings.map (·.span) ↔ ∃ c, t.Dangling c ∧ (t.get c).headerSpan = s := by
  have hlast : ∀ before : List BlockId,
      (∀ j ∈ ((before.map t.get).getLast?.map (·.kind)).or none, j.allowsBranch = false) ↔
        ∀ d ∈ before.getLast?, (t.get d).kind.allowsBranch = false := fun before => by
    rw [List.getLast?_map]
    cases before.getLast? <;> simp
  rw [branchFindings, List.map_flatMap, List.mem_flatMap]
  simp only [mem_spans_dangling_iff]
  constructor
  · rintro ⟨q, -, before, b, behind, hsplit, hcontinues, hallows, rfl⟩
    obtain ⟨before, rest, hchildren, rfl, hrest⟩ := List.map_eq_append_iff.mp hsplit
    obtain ⟨c, behind, rfl, rfl, rfl⟩ := List.map_eq_cons_iff.mp hrest
    exact ⟨c, ⟨q, before, behind, hchildren, hcontinues, (hlast before).mp hallows⟩, rfl⟩
  · rintro ⟨c, ⟨q, before, behind, hchildren, hcontinues, hallows⟩, rfl⟩
    obtain ⟨hc, hq⟩ := h.mem_children_iff.mp
      (show c ∈ (t.get q).children by rw [hchildren]; simp)
    refine ⟨q, h.mem_preorder_iff.mpr (h.parent_lt hc hq), before.map t.get, t.get c,
      behind.map t.get, ?_, hcontinues, (hlast before).mpr hallows, rfl⟩
    rw [hchildren, List.map_append, List.map_cons]

/-- None of the children of a block dangles where each of them may follow the one before it and the
first one starts anew. -/
theorem forall_not_dangling_iff (q : BlockId) : (∀ c ∈ (t.get q).children, ¬t.Dangling c) ↔
    ((t.get q).children.map fun c => (t.get c).kind).IsChain BlockKind.Follows ∧
      ∀ k ∈ ((t.get q).children.map fun c => (t.get c).kind).head?, k.continuesBranch = false := by
  rw [List.isChain_map, List.isChain_iff_forall_rel_of_append_cons_cons, List.head?_map]
  constructor
  · intro hnone
    refine ⟨fun d c before behind hchildren hcontinues => ?_, fun k hk => ?_⟩
    · by_contra hallows
      refine hnone c (by rw [hchildren]; simp) ⟨q, before ++ [d], behind, ?_, hcontinues, ?_⟩
      · rw [hchildren, List.append_assoc, List.singleton_append]
      · intro d' hd'
        rw [List.getLast?_concat] at hd'
        exact Option.some.inj hd' ▸ Bool.eq_false_iff.mpr hallows
    · obtain ⟨c, hc, rfl⟩ := Option.map_eq_some_iff.mp hk
      obtain ⟨behind, hchildren⟩ := List.head?_eq_some_iff.mp hc
      refine Bool.eq_false_iff.mpr fun hcontinues => ?_
      exact hnone c (by rw [hchildren]; simp) ⟨q, [], behind, hchildren, hcontinues, nofun⟩
  · rintro ⟨hchain, hhead⟩ c hc ⟨q', before, behind, hchildren, hcontinues, hallows⟩
    have hc' : c ∈ (t.get q').children := by rw [hchildren]; simp
    obtain rfl : q = q' := Option.some.inj
      ((h.mem_children_iff.mp hc).2.symm.trans (h.mem_children_iff.mp hc').2)
    rcases before.eq_nil_or_concat with rfl | ⟨before, d, rfl⟩
    · refine ne_true_of_eq_false (hhead (t.get c).kind ?_) hcontinues
      rw [hchildren]
      rfl
    · rw [List.concat_eq_append, List.getLast?_concat] at hallows
      refine ne_true_of_eq_false (hallows d rfl) (@hchain d c before behind ?_ hcontinues)
      rw [hchildren, List.concat_eq_append, List.append_assoc, List.singleton_append]

end Nested

/-- The statements leave the dangling branches as they are. -/
theorem SameFrames.dangling_iff {t' : BlockTree} (h : SameFrames t t') :
    t'.Dangling c ↔ t.Dangling c := by
  simp only [Dangling, h.congr Block.children fun _ => rfl, h.congr Block.kind fun _ => rfl]

namespace Headed

variable (h : t.Headed source)

include h

/-- **No two blocks have one header**, since only blanks stand between a header and its brace. -/
theorem headerSpan_inj (hcr : c ≠ root) (hc : c < t.size) (hdr : d ≠ root) (hd : d < t.size)
    (heq : (t.get c).headerSpan = (t.get d).headerSpan) : c = d := by
  -- what stands behind the header is told apart by the first character that is no blank
  have hbehind : ∀ {e : BlockId}, e ≠ root → e < t.size → ∃ before header gap rest,
      source = (before ++ header) ++ (gap ++ '{' :: rest) ∧ Text.isBlankText gap = true ∧
      Text.bytes (before ++ header) = (t.get e).headerSpan.stop ∧
      (t.get e).headerSpan.stop + gap.bytes = (t.get e).span.start := by
    intro e her he
    obtain ⟨before, header, gap, rest, hsource, hgap, hspan, hstart⟩ := h.header_stands her he
    obtain ⟨a, m, b, hbrace, hopen⟩ := (h.matched her he).exists_text
    have hbytes : Text.bytes (before ++ header ++ gap) = Text.bytes a := by
      rw [Text.bytes_append, Text.bytes_append, hstart, hopen]
    have hsplit : (before ++ header ++ gap) ++ rest = a ++ '{' :: (m ++ '}' :: b) := by
      rw [← hbrace, hsource]
      simp only [List.append_assoc]
    obtain ⟨-, rfl⟩ := Text.append_inj_of_bytes_eq hsplit hbytes
    refine ⟨before, header, gap, m ++ '}' :: b, ?_, hgap, ?_, ?_⟩
    · rw [hsource, List.append_assoc]
    · rw [Text.bytes_append, hspan]
    · rw [hspan]
      exact hstart
  have htake : ∀ {gap rest : Text}, Text.isBlankText gap = true →
      (gap ++ '{' :: rest).takeWhile Text.isBlank = gap := fun hgap => by
    rw [List.takeWhile_append_of_pos (List.all_eq_true.mp hgap),
      List.takeWhile_cons_of_neg (by decide), List.append_nil]
  obtain ⟨before, header, gap, rest, hsource, hgap, hstop, hstart⟩ := hbehind hcr hc
  obtain ⟨before', header', gap', rest', hsource', hgap', hstop', hstart'⟩ := hbehind hdr hd
  obtain ⟨-, hrest⟩ := Text.append_inj_of_bytes_eq (hsource.symm.trans hsource')
    (hstop.trans ((congrArg Span.stop heq).trans hstop'.symm))
  obtain rfl : gap = gap' := by rw [← htake hgap, hrest, htake hgap']
  refine h.span_inj hcr hc hdr hd (Brace.Matched.eq_of_start_eq (Brace.ofGlyphs_sorted _ _)
    (h.matched hcr hc) (h.matched hdr hd) ?_)
  rw [← hstart, ← hstart', heq]

/-- No branch is reported twice. -/
theorem nodup_spans_branchFindings : (t.branchFindings.map (·.span)).Nodup := by
  have hchild : ∀ {q : BlockId} {s : Span},
      s ∈ (dangling none ((t.get q).children.map t.get)).map (·.span) →
        ∃ c ∈ (t.get q).children, (t.get c).headerSpan = s := by
    intro q s hs
    have hs := (spans_dangling _ none).mem hs
    rw [List.map_map] at hs
    exact List.mem_map.mp hs
  have hinj : ∀ {p q c d : BlockId}, c ∈ (t.get p).children → d ∈ (t.get q).children →
      (t.get c).headerSpan = (t.get d).headerSpan → c = d := by
    intro p q c d hc hd heq
    obtain ⟨hc, hp⟩ := h.mem_children_iff.mp hc
    obtain ⟨hd, hq⟩ := h.mem_children_iff.mp hd
    exact h.headerSpan_inj (h.ne_root_of_parent hp) hc (h.ne_root_of_parent hq) hd heq
  rw [branchFindings, List.map_flatMap, List.nodup_flatMap]
  constructor
  · intro q _
    refine (spans_dangling _ none).nodup ?_
    rw [List.map_map]
    exact (h.children_nodup q).map_on fun c hc d hd => hinj hc hd
  · refine h.nodup_preorder.imp fun {p q} hne s hs hs' => ?_
    obtain ⟨c, hc, rfl⟩ := hchild hs
    obtain ⟨d, hd, heq⟩ := hchild hs'
    obtain rfl := hinj hd hc heq
    exact hne (Option.some.inj
      ((h.mem_children_iff.mp hc).2.symm.trans (h.mem_children_iff.mp hd).2))

end Headed
end BlockTree

namespace Program

open BlockTree (root)

variable {source : Text} {sourceId : Nat} {p : Program}

/-- **Where branches are reported to dangle.** -/
def danglingSpans (p : Program) : List Span :=
  (p.diagnostics.filter fun d => d.code = .danglingBranch).map (·.span)

/-- Branches are reported by the check of the branches, and by nothing else. -/
theorem perm_danglingSpans (hp : ofText source sourceId = .ok p) {f : Forest}
    (hf : place source = .ok f) :
    p.danglingSpans.Perm ((classified source f).branchFindings.map (·.span)) := by
  have hperm := ((perm_diagnostics hp hf).filter fun d => d.code = .danglingBranch).map (·.span)
  refine hperm.trans (List.Perm.of_eq ?_)
  have hheader : ((classified source f).headerFindings source).filter
      (fun x => x.problem.code = .danglingBranch) = [] :=
    List.filter_eq_nil_iff.mpr fun x hx hcode => by
      have := BlockTree.code_of_mem_headerFindings hx
      rw [of_decide_eq_true hcode] at this
      exact absurd this (by decide)
  have hbranch : (classified source f).branchFindings.filter
      (fun x => x.problem.code = .danglingBranch) = (classified source f).branchFindings :=
    List.filter_eq_self.mpr fun x hx => decide_eq_true (BlockTree.code_of_mem_branchFindings hx)
  have hstatement : (Visit.run (Line.ofSource source) (classified source f)
      (Visit.all (classified source f) source)).2.filter
        (fun x => x.problem.code = .danglingBranch) = [] :=
    List.filter_eq_nil_iff.mpr fun x hx hcode =>
      (Visit.code_of_mem_run hx).2 (of_decide_eq_true hcode)
  rw [List.filter_map, List.map_map]
  show ((findings _ _ _).filter fun x => decide (x.problem.code = .danglingBranch)).map (·.span) = _
  rw [findings, List.filter_append, List.filter_append, hheader, hbranch, hstatement,
    List.nil_append, List.append_nil]

/-- The spans that are reported are the headers of the dangling branches. -/
theorem mem_danglingSpans_iff (hp : ofText source sourceId = .ok p) {s : Span} :
    s ∈ p.danglingSpans ↔ ∃ c, p.tree.Dangling c ∧ (p.tree.get c).headerSpan = s := by
  obtain ⟨f, hf, hframes⟩ := exists_sameFrames hp
  rw [(perm_danglingSpans hp hf).mem_iff, (headed_classified hf).1.mem_spans_branchFindings_iff]
  simp only [hframes.dangling_iff, hframes.congr Block.headerSpan fun _ => rfl]

/-- A branch is reported where there is a header. -/
theorem ne_of_mem_danglingSpans (hp : ofText source sourceId = .ok p) {s : Span}
    (hs : s ∈ p.danglingSpans) : s ≠ (p.tree.get root).headerSpan := by
  obtain ⟨f, hf, -⟩ := exists_sameFrames hp
  obtain ⟨x, hx, rfl⟩ := List.mem_map.mp ((perm_danglingSpans hp hf).mem_iff.mp hs)
  obtain ⟨t, ⟨a, b, -, hspan⟩, hne, -⟩ :=
    (bracketed_finish hf (Line.ofSource source)).marks_of_mem_branchFindings hx
  rw [(root_tree hp).1, hspan]
  intro heq
  obtain ⟨hstart, hstop⟩ := Span.mk.inj heq
  exact hne (Text.bytes_eq_zero_iff.mp (by omega))

/-- **Every dangling branch is reported once, at its header, and nothing else is reported as one.**
None of the children of a block is reported exactly where their kinds fall into groups, each a
branch from its `if` to its end or a single block that has nothing to do with branches. -/
theorem branches_reported (hp : ofText source sourceId = .ok p) :
    p.danglingSpans.Nodup ∧
    (∀ c < p.tree.size, (p.tree.get c).headerSpan ∈ p.danglingSpans ↔ p.tree.Dangling c) ∧
    (∀ s ∈ p.danglingSpans, ∃! c, p.tree.Dangling c ∧ (p.tree.get c).headerSpan = s) ∧
    ∀ q, (∀ c ∈ (p.tree.get q).children, (p.tree.get c).headerSpan ∉ p.danglingSpans) ↔
      ∃ groups : List (List BlockKind), (∀ g ∈ groups, BlockKind.Group g) ∧
        ((p.tree.get q).children.map fun c => (p.tree.get c).kind) = groups.flatten := by
  obtain ⟨f, hf, hframes⟩ := exists_sameFrames hp
  have hheaded := (headed_classified hf).1
  have hnested := nested_tree hp
  have hinj : ∀ {c d}, p.tree.Dangling c → d < p.tree.size → d ≠ root →
      (p.tree.get c).headerSpan = (p.tree.get d).headerSpan → c = d := by
    intro c d hdangling hd hdr heq
    obtain ⟨hc, q, hparent⟩ := hnested.exists_parent_of_dangling hdangling
    exact (hframes.headed hheaded).headerSpan_inj (hnested.ne_root_of_parent hparent) hc hdr hd heq
  have hreported : ∀ c < p.tree.size,
      (p.tree.get c).headerSpan ∈ p.danglingSpans ↔ p.tree.Dangling c := by
    intro c hc
    refine ⟨fun hs => ?_, fun hdangling => (mem_danglingSpans_iff hp).mpr ⟨c, hdangling, rfl⟩⟩
    obtain ⟨d, hdangling, heq⟩ := (mem_danglingSpans_iff hp).mp hs
    have hcr : c ≠ root := by
      rintro rfl
      exact ne_of_mem_danglingSpans hp hs rfl
    exact hinj hdangling hc hcr heq ▸ hdangling
  refine ⟨?_, hreported, fun s hs => ?_, fun q => ?_⟩
  · exact (perm_danglingSpans hp hf).nodup_iff.mpr hheaded.nodup_spans_branchFindings
  · obtain ⟨c, hdangling, rfl⟩ := (mem_danglingSpans_iff hp).mp hs
    refine ⟨c, ⟨hdangling, rfl⟩, fun d ⟨hd, heq⟩ => ?_⟩
    obtain ⟨hc, q, hparent⟩ := hnested.exists_parent_of_dangling hdangling
    exact hinj hd hc (hnested.ne_root_of_parent hparent) heq
  · have hchildren : (∀ c ∈ (p.tree.get q).children,
        (p.tree.get c).headerSpan ∉ p.danglingSpans) ↔
          ∀ c ∈ (p.tree.get q).children, ¬p.tree.Dangling c :=
      forall₂_congr fun c hc => not_congr (hreported c (hnested.mem_children_iff.mp hc).1)
    rw [hchildren, hnested.forall_not_dangling_iff]
    constructor
    · exact fun ⟨hchain, hhead⟩ => BlockKind.exists_groups hchain hhead
    · rintro ⟨groups, hgroups, hflatten⟩
      rw [hflatten]
      exact BlockKind.isChain_flatten hgroups

/-- An `elif` that is alone in an `if` dangles, and the `if` is a group of its own. -/
theorem branches_reported_of_inner : ∃ p,
    ofText "if (a) \x7belif (b) \x7b\x7d\x7d".toList 0 = .ok p ∧ p.danglingSpans = [⟨8, 16⟩] ∧
    p.tree.Dangling 1 ∧ ¬p.tree.Dangling 2 ∧
    (∃ groups : List (List BlockKind), (∀ g ∈ groups, BlockKind.Group g) ∧
      ((p.tree.get root).children.map fun c => (p.tree.get c).kind) = groups.flatten) ∧
    ¬∃ groups : List (List BlockKind), (∀ g ∈ groups, BlockKind.Group g) ∧
      ((p.tree.get 2).children.map fun c => (p.tree.get c).kind) = groups.flatten := by
  have hparsed : (ofText "if (a) \x7belif (b) \x7b\x7d\x7d".toList 0).toOption.map (fun p =>
      (p.danglingSpans, p.tree.size, [root, 2].map fun c => (p.tree.get c).children,
        [1, 2].map fun c => (p.tree.get c).headerSpan)) =
      some ([⟨8, 16⟩], 3, [[2], [1]], [⟨8, 16⟩, ⟨0, 6⟩]) := by
    decide +kernel
  obtain ⟨p, hp, hfacts⟩ := exists_of_toOption_map hparsed
  obtain ⟨hspans, hsize, hchildren, hheaders⟩ : _ ∧ _ ∧ _ ∧ _ := by
    simpa only [Prod.mk.injEq] using hfacts
  obtain ⟨hroot, hif⟩ : _ ∧ _ := by
    simpa only [List.map_cons, List.map_nil, List.cons.injEq, and_true] using hchildren
  obtain ⟨hone, htwo⟩ : _ ∧ _ := by
    simpa only [List.map_cons, List.map_nil, List.cons.injEq, and_true] using hheaders
  have hfirst : (p.tree.get 1).headerSpan ∈ p.danglingSpans := by
    rw [hone, hspans]
    exact List.mem_singleton_self _
  have hsecond : (p.tree.get 2).headerSpan ∉ p.danglingSpans := by
    rw [htwo, hspans]
    decide
  obtain ⟨-, hreported, -, hgroups⟩ := branches_reported hp
  refine ⟨p, hp, hspans, (hreported 1 (by rw [hsize]; decide)).mp hfirst,
    fun h => hsecond ((hreported 2 (by rw [hsize]; decide)).mpr h), (hgroups root).mp ?_,
    fun h => (hgroups 2).mpr h 1 ?_ hfirst⟩
  · rw [hroot]
    exact fun c hc => List.mem_singleton.mp hc ▸ hsecond
  · rw [hif]
    exact List.mem_singleton_self 1

end Program
end BraceTree
