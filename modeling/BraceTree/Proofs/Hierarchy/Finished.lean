import BraceTree.Proofs.Hierarchy.Rounds

/-!
# The tree that placing blocks leaves

Once no block waits for a place, the forest is a tree. Finishing it only sorts children and notes
lines, so the invariant of the rounds carries over: the blocks nest (`Sound.nested`), whatever the
extraction was, as long as it belongs to the source.
-/

namespace BraceTree.Forest

open BlockTree (root)

variable {source : Text} {e : Extraction} {f : Forest} {lines : List Line}

/-! ## The forest before the first round -/

theorem foldl_push (source : Text) (spans : List Span) (t : BlockTree) :
    spans.foldl (fun t s => t.push (.provisional source s)) t =
      ⟨t.blocks ++ spans.map (.provisional source)⟩ := by
  induction spans generalizing t with
  | nil => simp
  | cons s spans ih =>
    rw [List.foldl_cons, ih]
    simp [BlockTree.push]

theorem tree_ofExtraction (source : Text) (e : Extraction) : (ofExtraction source e).tree =
    ⟨Block.root source :: e.spans.map (.provisional source)⟩ :=
  foldl_push source e.spans (.ofSource source)

theorem size_ofExtraction (source : Text) (e : Extraction) :
    (ofExtraction source e).tree.size = e.spans.length + 1 := by
  rw [tree_ofExtraction, BlockTree.size, List.length_cons, List.length_map]

theorem get_ofExtraction_succ (source : Text) {e : Extraction} {i : Nat} {s : Span}
    (h : e.spans[i]? = some s) :
    (ofExtraction source e).tree.get (i + 1) = .provisional source s := by
  rw [tree_ofExtraction, BlockTree.get_eq, List.getElem?_cons_succ, List.getElem?_map, h]
  rfl

/-- Every block but the root is a given one. -/
theorem exists_given (source : Text) {e : Extraction} {id : Nat} (hr : id ≠ root)
    (hid : id < (ofExtraction source e).tree.size) :
    ∃ i s, id = i + 1 ∧ e.spans[i]? = some s := by
  rw [size_ofExtraction] at hid
  obtain ⟨i, rfl⟩ := Nat.exists_eq_succ_of_ne_zero hr
  have hi : i < e.spans.length := by omega
  exact ⟨i, e.spans[i], rfl, List.getElem?_eq_getElem hi⟩

/-- Nothing is linked yet. -/
theorem links_ofExtraction (source : Text) (e : Extraction) (id : Nat) :
    ((ofExtraction source e).tree.get id).parent = none ∧
      ((ofExtraction source e).tree.get id).children = [] := by
  by_cases hid : id < (ofExtraction source e).tree.size
  · by_cases hr : id = root
    · rw [hr, tree_ofExtraction]
      exact ⟨rfl, rfl⟩
    · obtain ⟨i, s, rfl, hi⟩ := exists_given source hr hid
      rw [get_ofExtraction_succ source hi]
      exact ⟨rfl, rfl⟩
  · rw [BlockTree.get_of_size_le _ (Nat.le_of_not_lt hid)]
    exact ⟨rfl, rfl⟩

/-- **Before the first round nothing is placed, and nothing is wrong.** -/
theorem sound_ofExtraction (source : Text) (e : Extraction) :
    (ofExtraction source e).Sound source e := by
  have hsize := size_ofExtraction source e
  have hspan : ∀ {i : Nat} {s : Span}, e.spans[i]? = some s →
      (ofExtraction source e).span (i + 1) = s :=
    fun hi => congrArg Block.span (get_ofExtraction_succ source hi)
  have hparent := fun id => (links_ofExtraction source e id).1
  have hchildren := fun id => (links_ofExtraction source e id).2
  exact
    { size_gt := by omega
      root_unlinked := by
        rw [tree_ofExtraction]
        rfl
      root_parent := hparent root
      unlinked := fun hr hid => by
        obtain ⟨i, s, rfl, hi⟩ := exists_given source hr hid
        rw [hspan hi, get_ofExtraction_succ source hi]
        rfl
      given := hspan
      made := fun hn hid => by omega
      made_inj := fun hi hi' => by omega
      reached := fun hr hid => by
        obtain ⟨i, s, rfl, hi⟩ := exists_given source hr hid
        rw [hspan hi]
        exact .given (List.mem_of_getElem? hi)
      unplaced_nodup := List.nodup_range'
      mem_unplaced_iff := fun {id} => by
        show id ∈ List.range' 1 e.spans.length ↔ _
        rw [List.mem_range'_1, hsize]
        constructor
        · rintro ⟨h₁, h₂⟩
          exact ⟨Nat.ne_of_gt h₁, by omega, hparent id⟩
        · rintro ⟨h₁, h₂, -⟩
          exact ⟨Nat.pos_of_ne_zero h₁, by omega⟩
      placed := fun {c p} _ hp => absurd ((hparent c).symm.trans hp) (by simp)
      mem_children_iff := fun {p c} => by
        rw [hchildren, hparent]
        simp
      children_nodup := fun p => by
        rw [hchildren]
        exact List.nodup_nil }

/-! ## Finishing -/

@[simp] theorem size_finish (lines : List Line) (f : Forest) :
    (f.finish lines).size = f.tree.size :=
  List.length_map _

theorem get_finish (lines : List Line) (f : Forest) {id : Nat} (hid : id < f.tree.size) :
    (f.finish lines).get id = { f.tree.get id with
      children := (f.tree.get id).children.mergeSort fun c d => (f.span c).start ≤ (f.span d).start
      lines := Line.indicesIn lines (f.span id) } := by
  rw [BlockTree.get_eq]
  unfold finish
  dsimp only
  rw [List.getElem?_map, BlockTree.getElem?_blocks _ hid]
  rfl

theorem span_finish (lines : List Line) (f : Forest) {id : Nat} (hid : id < f.tree.size) :
    ((f.finish lines).get id).span = f.span id := by
  rw [get_finish lines f hid]
  rfl

theorem parent_finish (lines : List Line) (f : Forest) {id : Nat} (hid : id < f.tree.size) :
    ((f.finish lines).get id).parent = (f.tree.get id).parent := by
  rw [get_finish lines f hid]

theorem perm_children_finish (lines : List Line) (f : Forest) (id : Nat) :
    ((f.finish lines).get id).children.Perm (f.tree.get id).children := by
  by_cases hid : id < f.tree.size
  · rw [get_finish lines f hid]
    exact List.mergeSort_perm _ _
  · rw [BlockTree.children_of_size_le _ (by simpa using hid),
      BlockTree.children_of_size_le _ (Nat.le_of_not_lt hid)]

/-- Children are sorted by where they start. -/
theorem pairwise_children_finish (lines : List Line) (f : Forest) (id : Nat) :
    ((f.finish lines).get id).children.Pairwise fun c d => (f.span c).start ≤ (f.span d).start := by
  by_cases hid : id < f.tree.size
  · rw [get_finish lines f hid]
    refine (List.pairwise_mergeSort ?_ ?_ _).imp fun hle => of_decide_eq_true hle
    · intro a b c hab hbc
      rw [decide_eq_true_eq] at hab hbc ⊢
      omega
    · intro a b
      rw [Bool.or_eq_true, decide_eq_true_eq, decide_eq_true_eq]
      omega
  · rw [BlockTree.children_of_size_le _ (by simpa using hid)]
    exact .nil

theorem root_span_finish (h : f.Sound source e) (lines : List Line) :
    ((f.finish lines).get root).span = ⟨0, source.bytes⟩ := by
  rw [span_finish lines f h.root_lt]
  exact congrArg Block.span h.root_unlinked

theorem root_body_finish (h : f.Sound source e) (lines : List Line) :
    ((f.finish lines).get root).body = ⟨0, source.bytes⟩ := by
  rw [get_finish lines f h.root_lt]
  exact congrArg Block.body h.root_unlinked

/-- The body of a block lies between its braces. -/
theorem body_finish (h : f.Sound source e) (lines : List Line) {id : Nat} (hr : id ≠ root)
    (hid : id < f.tree.size) :
    ((f.finish lines).get id).body = ⟨(f.span id).start + 1, (f.span id).stop - 1⟩ := by
  rw [get_finish lines f hid]
  exact congrArg Block.body (h.unlinked hr hid)

namespace Sound

/-- A finished block is the block of its span, but for its links and its lines. -/
theorem get_finish_eq (h : f.Sound source e) (lines : List Line) {id : Nat} (hr : id ≠ root)
    (hid : id < f.tree.size) :
    (f.finish lines).get id = { Block.provisional source ((f.finish lines).get id).span with
      parent := ((f.finish lines).get id).parent
      children := ((f.finish lines).get id).children
      lines := Line.indicesIn lines ((f.finish lines).get id).span } := by
  rw [span_finish lines f hid, get_finish lines f hid, ← h.unlinked hr hid]
  rfl

/-- Every block but the root has its place in the end. -/
theorem exists_parent (h : f.Sound source e) (hdone : f.unplaced = []) {c : Nat} (hr : c ≠ root)
    (hc : c < f.tree.size) : ∃ p, (f.tree.get c).parent = some p := by
  rw [← Option.ne_none_iff_exists']
  intro hnone
  have := h.mem_unplaced_iff.mpr ⟨hr, hc, hnone⟩
  rw [hdone] at this
  exact absurd this (by simp)

/-- A block lies around the blocks that hang under it. -/
theorem around_of_parent (h : f.Sound source e) (he : e.Proper source) {c p : Nat}
    (hc : c < f.tree.size) (hp : (f.tree.get c).parent = some p) (hr : p ≠ root) :
    (f.span p).start < (f.span c).start ∧ (f.span c).stop < (f.span p).stop := by
  have hlong := he.long_of_reached (h.reached (h.ne_root_of_parent hp) hc)
  obtain ⟨-, henc⟩ := h.placed hc hp
  rw [if_neg hr] at henc
  obtain ⟨hstart, hstop, -⟩ := Brace.around_of_enclosing? he.sorted (by omega) henc
  exact ⟨hstart, hstop⟩

/-- **The finished tree nests.** -/
theorem nested (h : f.Sound source e) (lines : List Line) (he : e.Proper source)
    (hdone : f.unplaced = []) :
    (f.finish lines).Nested := by
  have hroot := root_span_finish h lines
  exact
    { size_pos := by
        rw [size_finish]
        exact h.root_lt
      root_parent := by
        rw [parent_finish lines f h.root_lt]
        exact h.root_parent
      root_body := by rw [root_body_finish h lines, hroot]
      exists_parent := fun {c} hr hc => by
        rw [size_finish] at hc
        obtain ⟨p, hp⟩ := h.exists_parent hdone hr hc
        rw [size_finish, parent_finish lines f hc]
        exact ⟨p, (h.placed hc hp).1, hp⟩
      mem_children_iff := fun {p c} => by
        rw [(perm_children_finish lines f p).mem_iff, h.mem_children_iff, size_finish]
        constructor
        · rintro ⟨hc, hp⟩
          exact ⟨hc, by rw [parent_finish lines f hc]; exact hp⟩
        · rintro ⟨hc, hp⟩
          exact ⟨hc, by rw [parent_finish lines f hc] at hp; exact hp⟩
      children_nodup := fun p =>
        (perm_children_finish lines f p).nodup_iff.mpr (h.children_nodup p)
      body_eq := fun hr hc => by
        rw [size_finish] at hc
        rw [span_finish lines f hc, body_finish h lines hr hc]
        exact ⟨he.long_of_reached (h.reached hr hc), rfl⟩
      inside := fun {p c} hc hp => by
        rw [size_finish] at hc
        rw [parent_finish lines f hc] at hp
        rw [span_finish lines f hc]
        by_cases hr : p = root
        · rw [hr, root_body_finish h lines]
          exact ⟨Nat.zero_le _, he.inside_of_reached (h.reached (h.ne_root_of_parent hp) hc)⟩
        · have := h.around_of_parent he hc hp hr
          rw [body_finish h lines hr (h.placed hc hp).1]
          simp only
          omega
      span_stop_le := fun {c} hc => by
        rw [size_finish] at hc
        rw [hroot, span_finish lines f hc]
        by_cases hr : c = root
        · rw [hr]
          exact Nat.le_of_eq (congrArg (fun b => b.span.stop) h.root_unlinked)
        · exact he.inside_of_reached (h.reached hr hc) }

end Sound

end BraceTree.Forest
