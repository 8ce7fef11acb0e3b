import BraceTree.Fixture.Basic
import BraceTree.Proofs.Block.Isomorphic
import BraceTree.Proofs.Header.Titled
import BraceTree.Proofs.Statement.Legible
import BraceTree.Proofs.Statement.Visible

/-!
# The outline of a program tells the program

Nothing that is shown in an outline has a newline in it, so the outline is cut into its lines again.
Behind its indentation the line of a block starts with a capital letter and every other one with
`v` or `c`, so it is known which lines belong to which block, and which are variables and which are
calls. What a line shows can be told from it, and the indentations of the blocks are their depths,
which tell the tree. Since outlines are compared without the blanks around them, one thing more is
needed: no line ends with a blank, so the only one that is taken off is the last newline.
-/

namespace BraceTree

/-! ## Lines -/

namespace Text

/-- **Lines without newlines in them are told from their texts with newlines behind them.** -/
theorem lines_inj : ∀ {ls ls' : List String}, (∀ l ∈ ls, '\n' ∉ l.toList) →
    (∀ l ∈ ls', '\n' ∉ l.toList) →
    ls.flatMap (fun l => l.toList ++ ['\n']) = ls'.flatMap (fun l => l.toList ++ ['\n']) → ls = ls'
  | [], [], _, _, _ => rfl
  | [], l :: ls, _, _, heq => absurd heq (by simp)
  | l :: ls, [], _, _, heq => absurd heq (by simp)
  | l :: ls, l' :: ls', h, h', heq => by
    obtain ⟨hl, hls⟩ := List.forall_mem_cons.mp h
    obtain ⟨hl', hls'⟩ := List.forall_mem_cons.mp h'
    rw [List.flatMap_cons, List.flatMap_cons, List.append_assoc, List.append_assoc,
      List.singleton_append, List.singleton_append] at heq
    obtain ⟨hline, hrest⟩ := append_cons_inj hl hl' heq
    rw [String.toList_inj.mp hline, lines_inj hls hls' hrest]

/-- A line that shows a text behind blanks, and nothing else. -/
structure Shows (line : String) (content : Text) : Prop where
  indented : ∃ n, line.toList = List.replicate n ' ' ++ content
  tight : Tight content
  line : '\n' ∉ content

namespace Shows

variable {line : String} {content : Text}

theorem trimStart (h : Shows line content) : Text.trimStart line.toList = content := by
  obtain ⟨⟨n, hn⟩, htight, -⟩ := h
  have hblanks : ∀ c ∈ List.replicate n ' ', isBlank c = true := fun c hc => by
    rw [List.eq_of_mem_replicate hc]
    decide
  have hcontent := htight.trimStart_append []
  rw [List.append_nil] at hcontent
  rw [hn, Text.trimStart, List.dropWhile_append_of_pos hblanks]
  exact hcontent

theorem newline_not_mem (h : Shows line content) : '\n' ∉ line.toList := by
  obtain ⟨⟨n, hn⟩, -, hline⟩ := h
  rw [hn, List.mem_append, not_or]
  exact ⟨fun hmem => absurd (List.eq_of_mem_replicate hmem) (by decide), hline⟩

theorem getLast? (h : Shows line content) :
    ∃ c, line.toList.getLast? = some c ∧ isBlank c = false := by
  obtain ⟨⟨n, hn⟩, ⟨-, c, hc, hblank⟩, -⟩ := h
  refine ⟨c, ?_, hblank⟩
  rw [hn, List.getLast?_append, hc]
  rfl

end Shows

/-- Whether a line is that of a block: what it shows starts with a capital letter. -/
def isTitle (line : String) : Bool := (trimStart line.toList).head?.any Char.isUpper

/-- Whether a line is that of a variable. -/
def isVariable (line : String) : Bool := (trimStart line.toList).head? == some 'v'

end Text

namespace BlockTree

variable {source source' : Text} {t t' : BlockTree} {c d : Nat}

/-- The line of a variable in a block at a depth. -/
def variableLine (depth : Nat) (v : Variable) : String :=
  indentation depth ++ "  " ++ v.display

/-- The line of a call in a block at a depth. -/
def callLine (depth : Nat) (c : Call) : String := indentation depth ++ "  call " ++ c.display

theorem outlineLines_eq (t : BlockTree) (source : Text) (id : BlockId) :
    t.outlineLines source id = (indentation (t.depth id) ++ t.title source id) ::
      ((t.get id).scope.toList.map (variableLine (t.depth id)) ++
        (t.get id).calls.map (fun s => callLine (t.depth id) s.call)) := rfl

theorem toList_indentation (depth : Nat) :
    (indentation depth).toList = List.replicate (2 * depth) ' ' := String.toList_ofList

theorem shows_title (h : (t.get c).Titled source) :
    Text.Shows (indentation (t.depth c) ++ t.title source c) (t.title source c).toList where
  indented := ⟨2 * t.depth c, by rw [String.toList_append, toList_indentation]⟩
  tight := t.tight_title source c
  line := newline_not_mem_title h

theorem shows_variable {v : Variable} (h : v.Legible) (depth : Nat) :
    Text.Shows (variableLine depth v) v.display.toList where
  indented := ⟨2 * depth + 2, by
    rw [variableLine, String.toList_append, String.toList_append, toList_indentation,
      List.replicate_add]
    rfl⟩
  tight := v.tight_display
  line := h.newline_not_mem

theorem shows_call {call : Call} (h : call.Legible) (depth : Nat) :
    Text.Shows (callLine depth call) ("call ".toList ++ call.display.toList) where
  indented := ⟨2 * depth + 2, by
    rw [callLine, String.toList_append, String.toList_append, toList_indentation,
      List.replicate_add, List.append_assoc, List.append_assoc]
    rfl⟩
  tight := by
    have hcall : Text.Tight "call".toList := .of_all (by decide) (by decide)
    have hparen : Text.Tight [')'] := .of_all (by decide) (by decide)
    have := hcall.around (' ' :: (call.name.toList ++ '(' :: (", ".intercalate call.args).toList))
      hparen
    rw [Call.toList_display]
    simpa using this
  line := by
    rw [List.mem_append, not_or]
    exact ⟨by decide, h.line⟩

/-! ### What starts a line -/

theorem isTitle_title (h : (t.get c).Titled source) :
    Text.isTitle (indentation (t.depth c) ++ t.title source c) = true := by
  rw [Text.isTitle, (shows_title h).trimStart]
  exact t.isUpper_head_title source c

/-- The text of a variable starts with `var` or `val`. -/
theorem head_display (v : Variable) : v.display.toList.head? = some 'v' := by
  rw [Variable.toList_display]
  cases v.isMutable <;> rfl

theorem isVariable_variableLine {v : Variable} (h : v.Legible) (depth : Nat) :
    Text.isTitle (variableLine depth v) = false ∧
      Text.isVariable (variableLine depth v) = true := by
  rw [Text.isTitle, Text.isVariable, (shows_variable h depth).trimStart, head_display]
  exact ⟨rfl, rfl⟩

theorem not_isVariable_callLine {call : Call} (h : call.Legible) (depth : Nat) :
    Text.isTitle (callLine depth call) = false ∧
      Text.isVariable (callLine depth call) = false := by
  rw [Text.isTitle, Text.isVariable, (shows_call h depth).trimStart]
  exact ⟨rfl, rfl⟩

/-! ### What a line shows -/

/-- Blanks before a text that starts with something else are counted. -/
theorem indentation_inj {n n' : Nat} {a b : String} (ha : Text.Shows (indentation n ++ a) a.toList)
    (hb : Text.Shows (indentation n' ++ b) b.toList)
    (h : indentation n ++ a = indentation n' ++ b) : n = n' ∧ a = b := by
  have hab : a.toList = b.toList := by
    rw [← ha.trimStart, h, hb.trimStart]
  have htext := congrArg String.toList h
  rw [String.toList_append, String.toList_append, toList_indentation, toList_indentation,
    hab] at htext
  have hlength := congrArg List.length (List.append_cancel_right htext)
  rw [List.length_replicate, List.length_replicate] at hlength
  exact ⟨by omega, String.toList_inj.mp hab⟩

theorem display_eq_of_variableLine {v w : Variable} (hv : v.Legible) (hw : w.Legible)
    {depth : Nat} (h : variableLine depth v = variableLine depth w) : v.display = w.display := by
  have hshows := (shows_variable hv depth).trimStart
  rw [h, (shows_variable hw depth).trimStart] at hshows
  exact (String.toList_inj.mp hshows).symm

theorem display_eq_of_callLine {call call' : Call} (hcall : call.Legible) (hcall' : call'.Legible)
    {depth : Nat} (h : callLine depth call = callLine depth call') :
    call.display = call'.display := by
  have hshows := (shows_call hcall depth).trimStart
  rw [h, (shows_call hcall' depth).trimStart] at hshows
  exact (String.toList_inj.mp (List.append_cancel_left hshows)).symm

end BlockTree

/-! ## The lines of a block -/

/-- **A block all of whose lines can be told apart and read.** -/
structure Block.Shown (source : Text) (b : Block) : Prop where
  titled : b.Titled source
  legible : b.Legible
  wellTyped : b.scope.WellTyped

/-- **Blocks that agree**: what is shown of them is the same, apart from doubles of one text. -/
structure Block.Agrees (source source' : Text) (b b' : Block) : Prop where
  kind_eq : b.kind = b'.kind
  flagged_eq : b.flagged = b'.flagged
  header_eq : b.flagged = true → b.header source = b'.header source'
  scope : List.Forall₂ Variable.Agrees b.scope.toList b'.scope.toList
  calls_eq : b.calls.map (·.call) = b'.calls.map (·.call)

namespace BlockTree

variable {source source' : Text} {t t' : BlockTree} {c d : Nat}

theorem legible_of_mem_scope (h : (t.get c).Legible) {v : Variable}
    (hv : v ∈ (t.get c).scope.toList) : v.Legible := by
  obtain ⟨k, hk⟩ := mem_scope_toList.mp hv
  exact h.scope v hk

/-- Every line of a block shows something. -/
theorem exists_shows (h : (t.get c).Shown source) {line : String}
    (hline : line ∈ t.outlineLines source c) : ∃ content, Text.Shows line content := by
  rw [outlineLines_eq, List.mem_cons, List.mem_append, List.mem_map, List.mem_map] at hline
  rcases hline with rfl | ⟨v, hv, rfl⟩ | ⟨s, hs, rfl⟩
  · exact ⟨_, shows_title h.titled⟩
  · exact ⟨_, shows_variable (legible_of_mem_scope h.legible hv) _⟩
  · exact ⟨_, shows_call (h.legible.calls s hs) _⟩

/-- **The lines of a block start with its title**, and there is no other title among them. -/
theorem grouped_outlineLines (h : (t.get c).Shown source) :
    Grouped (fun line => Text.isTitle line = true) (t.outlineLines source c) := by
  refine ⟨_, _, outlineLines_eq t source c, isTitle_title h.titled, fun line hline => ?_⟩
  rw [Bool.not_eq_true]
  rcases List.mem_append.mp hline with hline | hline
  · obtain ⟨v, hv, rfl⟩ := List.mem_map.mp hline
    exact (isVariable_variableLine (legible_of_mem_scope h.legible hv) _).1
  · obtain ⟨s, hs, rfl⟩ := List.mem_map.mp hline
    exact (not_isVariable_callLine (h.legible.calls s hs) _).1

/-- The lines of the variables are those that start with `v`. -/
theorem filter_isVariable (h : (t.get c).Legible) (depth : Nat) :
    ((t.get c).scope.toList.map (variableLine depth) ++
      (t.get c).calls.map (fun s => callLine depth s.call)).filter Text.isVariable =
        (t.get c).scope.toList.map (variableLine depth) := by
  rw [List.filter_append, List.filter_eq_self.mpr, List.filter_eq_nil_iff.mpr, List.append_nil]
  · refine List.forall_mem_map.mpr fun s hs => ?_
    rw [(not_isVariable_callLine (h.calls s hs) depth).2]
    exact Bool.false_ne_true
  · exact List.forall_mem_map.mpr fun v hv =>
      (isVariable_variableLine (legible_of_mem_scope h hv) depth).2

/-- **The lines of a block tell the block** and how deep it lies. -/
theorem agrees_of_outlineLines_eq (hc : (t.get c).Shown source) (hd : (t'.get d).Shown source')
    (h : t.outlineLines source c = t'.outlineLines source' d) :
    t.depth c = t'.depth d ∧ Block.Agrees source source' (t.get c) (t'.get d) := by
  rw [outlineLines_eq, outlineLines_eq] at h
  obtain ⟨hfirst, hitems⟩ := List.cons.inj h
  obtain ⟨hdepth, htitle⟩ := indentation_inj (shows_title hc.titled) (shows_title hd.titled) hfirst
  obtain ⟨hkind, hflagged, hheader⟩ := title_inj hc.titled hd.titled htitle
  rw [← hdepth] at hitems
  have hvariables := congrArg (List.filter Text.isVariable) hitems
  rw [filter_isVariable hc.legible, filter_isVariable hd.legible] at hvariables
  have hcalls := hitems
  rw [hvariables] at hcalls
  refine ⟨hdepth, hkind, hflagged, hheader, ?_, ?_⟩
  · refine forall₂_of_map_eq (fun v hv w hw hvw => ?_) hvariables
    have hvlegible := legible_of_mem_scope hc.legible hv
    have hwlegible := legible_of_mem_scope hd.legible hw
    obtain ⟨k, hk⟩ := mem_scope_toList.mp hv
    obtain ⟨l, hl⟩ := mem_scope_toList.mp hw
    exact hvlegible.agrees_of_display_eq hwlegible (hc.wellTyped.fits hk) (hd.wellTyped.fits hl)
      (display_eq_of_variableLine hvlegible hwlegible hvw)
  · have hsame : List.Forall₂ (fun s s' : CallSite => s.call = s'.call) (t.get c).calls
        (t'.get d).calls :=
      forall₂_of_map_eq (fun s hs s' hs' hss => by
        have hs := hc.legible.calls s hs
        have hs' := hd.legible.calls s' hs'
        exact hs.eq_of_display_eq hs' (display_eq_of_callLine hs hs' hss))
        (List.append_cancel_left hcalls)
    rw [← List.forall₂_eq_eq_eq, List.forall₂_map_left_iff, List.forall₂_map_right_iff]
    exact hsame

/-! ## The outline of a tree -/

theorem toList_outline (t : BlockTree) (source : Text) : (t.outline source).toList =
    (t.preorder.flatMap (t.outlineLines source)).flatMap fun l => l.toList ++ ['\n'] := by
  rw [outline, String.toList_join, List.flatMap_map]
  refine List.flatMap_congr fun l _ => ?_
  rw [String.toList_append]
  rfl

/-- Lines that show something end with no blank, and neither do they together, but for the last
newline. -/
theorem exists_last_of_lines : ∀ {line : String} {ls : List String},
    (∀ l ∈ line :: ls, ∃ content, Text.Shows l content) →
      ∃ body, (line :: ls).flatMap (fun l => l.toList ++ ['\n']) =
        (line.toList ++ body) ++ ['\n'] ∧
          ∃ c, (line.toList ++ body).getLast? = some c ∧ Text.isBlank c = false
  | line, [], h => by
    obtain ⟨content, hshows⟩ := h line List.mem_cons_self
    refine ⟨[], by simp, ?_⟩
    rw [List.append_nil]
    exact hshows.getLast?
  | line, l :: ls, h => by
    obtain ⟨body, hbody, c, hc, hblank⟩ := exists_last_of_lines (List.forall_mem_cons.mp h).2
    refine ⟨'\n' :: (l.toList ++ body), ?_, c, ?_, hblank⟩
    · rw [List.flatMap_cons, hbody]
      simp
    · rw [List.getLast?_append, List.getLast?_cons, hc]
      rfl

/-- **Taking off the blanks around an outline takes off the last newline.** -/
theorem trim_outline (h : t.Nested) (hshown : ∀ c < t.size, (t.get c).Shown source) :
    Text.trim (t.outline source).toList ++ ['\n'] = (t.outline source).toList := by
  have hpreorder : t.preorder = root :: (t.get root).children.flatMap t.subtree :=
    h.subtree_eq h.size_pos
  have hlines : ∀ l ∈ t.preorder.flatMap (t.outlineLines source), ∃ content, Text.Shows l content :=
    fun l hl => by
      obtain ⟨c, hc, hlc⟩ := List.mem_flatMap.mp hl
      exact exists_shows (hshown c (h.mem_preorder_iff.mp hc)) hlc
  rw [toList_outline]
  rw [hpreorder, List.flatMap_cons, outlineLines_eq, List.cons_append] at hlines ⊢
  obtain ⟨body, hbody, c, hlast, hblank⟩ := exists_last_of_lines hlines
  have hfirst : (indentation (t.depth root) ++ t.title source root).toList =
      (t.title source root).toList := by
    rw [h.depth_root, String.toList_append, toList_indentation]
    rfl
  rw [hfirst] at hbody hlast
  -- the first line is that of the root, which is not indented
  have htight : Text.Tight ((t.title source root).toList ++ body) := by
    obtain ⟨⟨d, hd, hdblank⟩, -⟩ := t.tight_title source root
    exact ⟨⟨d, by rw [List.head?_append, hd]; rfl, hdblank⟩, c, hlast, hblank⟩
  have htrim : Text.trim ([] ++ (((t.title source root).toList ++ body) ++ ['\n'])) =
      (t.title source root).toList ++ body := htight.trim_between rfl (by decide)
  rw [List.nil_append] at htrim
  rw [hbody, htrim]

/-- **Equal outlines have equal lines for each block**, in the order of the source. -/
theorem outlineLines_eq_of_trim_eq (h : t.Nested) (h' : t'.Nested)
    (hshown : ∀ c < t.size, (t.get c).Shown source)
    (hshown' : ∀ c < t'.size, (t'.get c).Shown source')
    (heq : Text.trim (t.outline source).toList = Text.trim (t'.outline source').toList) :
    t.preorder.map (t.outlineLines source) = t'.preorder.map (t'.outlineLines source') := by
  have hlines : ∀ {t : BlockTree} {source : Text}, t.Nested →
      (∀ c < t.size, (t.get c).Shown source) →
        ∀ l ∈ t.preorder.flatMap (t.outlineLines source), '\n' ∉ l.toList :=
    fun h hshown l hl => by
      obtain ⟨c, hc, hlc⟩ := List.mem_flatMap.mp hl
      obtain ⟨content, hshows⟩ := exists_shows (hshown c (h.mem_preorder_iff.mp hc)) hlc
      exact hshows.newline_not_mem
  have hgroups : ∀ {t : BlockTree} {source : Text}, t.Nested →
      (∀ c < t.size, (t.get c).Shown source) → ∀ g ∈ t.preorder.map (t.outlineLines source),
        Grouped (fun line => Text.isTitle line = true) g :=
    fun h hshown => List.forall_mem_map.mpr fun c hc =>
      grouped_outlineLines (hshown c (h.mem_preorder_iff.mp hc))
  have htexts : (t.outline source).toList = (t'.outline source').toList := by
    rw [← trim_outline h hshown, heq, trim_outline h' hshown']
  rw [toList_outline, toList_outline] at htexts
  have hflat := Text.lines_inj (hlines h hshown) (hlines h' hshown') htexts
  rw [List.flatMap_def, List.flatMap_def] at hflat
  exact Grouped.flatten_inj (hgroups h hshown) (hgroups h' hshown') hflat

/-- **Trees with equal outlines are one tree under different numbers**, and their blocks agree. -/
theorem exists_isomorphic_of_trim_eq (h : t.Nested) (h' : t'.Nested)
    (hshown : ∀ c < t.size, (t.get c).Shown source)
    (hshown' : ∀ c < t'.size, (t'.get c).Shown source')
    (heq : Text.trim (t.outline source).toList = Text.trim (t'.outline source').toList) :
    ∃ rename, Isomorphic t t' rename ∧
      ∀ c < t.size, Block.Agrees source source' (t.get c) (t'.get (rename c)) := by
  have hblocks : List.Forall₂ (fun c d => t.depth c = t'.depth d ∧
      Block.Agrees source source' (t.get c) (t'.get d)) t.preorder t'.preorder :=
    forall₂_of_map_eq (fun c hc d hd hcd => agrees_of_outlineLines_eq
      (hshown c (h.mem_preorder_iff.mp hc)) (hshown' d (h'.mem_preorder_iff.mp hd)) hcd)
      (outlineLines_eq_of_trim_eq h h' hshown hshown' heq)
  have hdepths : t'.preorder.map t'.depth = t.preorder.map t.depth := by
    rw [eq_comm, ← List.forall₂_eq_eq_eq, List.forall₂_map_left_iff, List.forall₂_map_right_iff]
    exact hblocks.imp fun _ _ hcd => hcd.1
  obtain ⟨rename, hiso⟩ := exists_isomorphic h h' hdepths
  rw [hiso.preorder_eq, List.forall₂_map_right_iff, List.forall₂_same] at hblocks
  exact ⟨rename, hiso, fun c hc => (hblocks c (h.mem_preorder_iff.mpr hc)).2⟩

end BlockTree

/-! ## Programs -/

theorem Fixture.trim_eq_of_checkOutline {actual expected : String}
    (h : checkOutline actual expected = .ok ()) :
    Text.trim actual.toList = Text.trim expected.toList := by
  unfold checkOutline at h
  dsimp only at h
  split at h
  · rename_i heq
    exact String.ofList_inj.mp heq
  · cases h

namespace Program

variable {source source' : Text} {sourceId sourceId' : Nat} {p p' : Program}

/-- **All blocks of a parsed program can be read off its outline.** -/
theorem shown_tree (hp : ofText source sourceId = .ok p) {c : Nat} (hc : c < p.tree.size) :
    (p.tree.get c).Shown source where
  titled := titled_tree hp hc
  legible := legible_tree hp c
  wellTyped := (reaches_tree hp).wellTyped c

/-- **The outline tells the program.** Where two sources parse and their outlines are equal, apart
from blanks around them, the trees of the two programs are one tree whose blocks are numbered in two
ways: the blocks stand in the same order, and `rename` takes parents to parents and children to
children. Blocks that correspond have the same kind, with what its header captured, both have a
header that was not understood or neither has, and then it is the same; their variables agree one by
one in name, mutability, type and binding, where doubles are compared by their texts; and they have
the same calls with the same arguments. -/
theorem outline_determines (hp : ofText source sourceId = .ok p)
    (hp' : ofText source' sourceId' = .ok p')
    (h : Fixture.checkOutline (p.tree.outline source) (p'.tree.outline source') = .ok ()) :
    ∃ rename : BlockId → BlockId, BlockTree.Isomorphic p.tree p'.tree rename ∧
      (∀ c < p.tree.size, ∀ d < p.tree.size, rename c = rename d → c = d) ∧
      ∀ c < p.tree.size,
        Block.Agrees source source' (p.tree.get c) (p'.tree.get (rename c)) := by
  have hnested := nested_tree hp
  have hnested' := nested_tree hp'
  obtain ⟨rename, hiso, hagrees⟩ := BlockTree.exists_isomorphic_of_trim_eq hnested hnested'
    (fun c hc => shown_tree hp hc) (fun c hc => shown_tree hp' hc)
    (Fixture.trim_eq_of_checkOutline h)
  exact ⟨rename, hiso, fun c hc d hd => hiso.rename_inj hnested' hnested hc hd, hagrees⟩

/-- A program in two spellings. -/
theorem outline_determines_respelled : ∃ source source' p p',
    source = "for (x in xs) \x7b foo \x7b f(x, \"a, b\") \x7d \x7d\nvar n : Integer = 7".toList ∧
    source' = "var n: Integer = 007;for ( x in xs )\n\x7b\nfoo\x7bf( x ,\"a, b\",)\x7d\x7d".toList ∧
    ofText source 0 = .ok p ∧ ofText source' 1 = .ok p' ∧ p.tree.size = 3 ∧
    Fixture.checkOutline (p.tree.outline source) (p'.tree.outline source') = .ok () ∧
    ∃ rename, BlockTree.Isomorphic p.tree p'.tree rename ∧
      Block.Agrees source source' (p.tree.get 1) (p'.tree.get (rename 1)) := by
  generalize hsource :
    "for (x in xs) \x7b foo \x7b f(x, \"a, b\") \x7d \x7d\nvar n : Integer = 7".toList = source
  generalize hsource' :
    "var n: Integer = 007;for ( x in xs )\n\x7b\nfoo\x7bf( x ,\"a, b\",)\x7d\x7d".toList = source'
  have hparsed : (ofText source 0).toOption.map (fun p => (p.tree.size, p.tree.outline source)) =
      some (3, "Main\n  var n : Integer = 7\n  For (x in xs)\n    Generic [unclassified: foo]\n" ++
        "      call f(x, \"a, b\")\n") := by
    rw [← hsource]
    decide +kernel
  have hparsed' : (ofText source' 1).toOption.map (fun p => p.tree.outline source') =
      some ("Main\n  var n : Integer = 7\n  For (x in xs)\n    Generic [unclassified: foo]\n" ++
        "      call f(x, \"a, b\")\n") := by
    rw [← hsource']
    decide +kernel
  obtain ⟨p, hp, hvalues⟩ := exists_of_toOption_map hparsed
  obtain ⟨p', hp', houtline'⟩ := exists_of_toOption_map hparsed'
  obtain ⟨hsize, houtline⟩ := Prod.mk.inj hvalues
  have hcheck :
      Fixture.checkOutline (p.tree.outline source) (p'.tree.outline source') = .ok () := by
    rw [houtline, houtline', Fixture.checkOutline]
    exact if_pos rfl
  obtain ⟨rename, hiso, -, hagrees⟩ := outline_determines hp hp' hcheck
  exact ⟨source, source', p, p', rfl, rfl, hp, hp', hsize, hcheck, rename, hiso,
    hagrees 1 (by rw [hsize]; decide)⟩

end Program
end BraceTree
