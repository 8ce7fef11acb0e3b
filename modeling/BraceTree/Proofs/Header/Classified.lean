import BraceTree.Header.Classify
import BraceTree.Proofs.Block.Nested

/-!
# What classifying does and what it leaves as it is

Classifying gives blocks a kind and a header and touches nothing else. In particular the tree stays
the same tree: what was proved of the placed blocks holds of the classified ones, and they would be
judged as they were. What a verdict can be is said once, in `verdict_cases`.
-/

namespace BraceTree.BlockTree

variable (t : BlockTree) (source : Text) (id : Nat)

@[simp] theorem size_classify : (t.classify source).size = t.size := List.length_map _

theorem get_classify : (t.classify source).get id =
    if (t.get id).parent.isNone then t.get id
    else { t.get id with
      kind := (t.verdict source (t.get id)).kind
      headerSpan := (t.verdict source (t.get id)).span
      flagged := (t.verdict source (t.get id)).flagged } := by
  by_cases hid : id < t.size
  · rw [get_eq]
    unfold classify
    dsimp only
    rw [List.getElem?_map, getElem?_blocks t hid]
    rfl
  · rw [get_of_size_le _ (by simpa using hid), get_of_size_le t (Nat.le_of_not_lt hid)]
    rfl

@[simp] theorem span_classify : ((t.classify source).get id).span = (t.get id).span := by
  rw [get_classify]
  split <;> rfl

@[simp] theorem body_classify : ((t.classify source).get id).body = (t.get id).body := by
  rw [get_classify]
  split <;> rfl

@[simp] theorem parent_classify : ((t.classify source).get id).parent = (t.get id).parent := by
  rw [get_classify]
  split <;> rfl

@[simp] theorem children_classify :
    ((t.classify source).get id).children = (t.get id).children := by
  rw [get_classify]
  split <;> rfl

@[simp] theorem text_classify : ((t.classify source).get id).text = (t.get id).text := by
  rw [get_classify]
  split <;> rfl

@[simp] theorem scope_classify : ((t.classify source).get id).scope = (t.get id).scope := by
  rw [get_classify]
  split <;> rfl

@[simp] theorem calls_classify : ((t.classify source).get id).calls = (t.get id).calls := by
  rw [get_classify]
  split <;> rfl

/-- Classifying blocks does not change the verdicts on them. -/
theorem verdict_classify :
    (t.classify source).verdict source ((t.classify source).get id) =
      t.verdict source (t.get id) := by
  rw [verdict, verdict]
  simp only [parent_classify, span_classify, body_classify]

variable {t source id} {p : Nat}

theorem headerSpan_classify (hp : (t.get id).parent = some p) :
    ((t.classify source).get id).headerSpan = (t.verdict source (t.get id)).span := by
  rw [get_classify, if_neg (by rw [hp]; exact Bool.false_ne_true)]

theorem kind_classify (hp : (t.get id).parent = some p) :
    ((t.classify source).get id).kind = (t.verdict source (t.get id)).kind := by
  rw [get_classify, if_neg (by rw [hp]; exact Bool.false_ne_true)]

theorem flagged_classify (hp : (t.get id).parent = some p) :
    ((t.classify source).get id).flagged = (t.verdict source (t.get id)).flagged := by
  rw [get_classify, if_neg (by rw [hp]; exact Bool.false_ne_true)]

/-- **A block is judged by the header that is found for it**, and is a plain block without one. -/
theorem verdict_cases (source : Text) (hp : (t.get id).parent = some p) :
    (∃ h, Header.find? source (t.get p).body.start (t.get id).span.start = some h ∧
      t.verdict source (t.get id) = h.verdict) ∨
    t.verdict source (t.get id) =
      ⟨.plain, ⟨(t.get id).span.start, (t.get id).span.start⟩, false, none⟩ := by
  unfold verdict
  rw [hp]
  dsimp only
  split
  · next h hfound => exact .inl ⟨h, hfound, rfl⟩
  · exact .inr rfl

/-- What is reported of branches stands at the header of one that goes on with another. -/
theorem exists_of_mem_dangling {f : Finding} : ∀ {bs : List Block} {previous : Option BlockKind},
    f ∈ dangling previous bs →
      ∃ b ∈ bs, b.kind.continuesBranch = true ∧ f.span = b.headerSpan
  | [], _, hf => absurd hf List.not_mem_nil
  | b :: bs, previous, hf => by
    rw [dangling] at hf
    have hrest : f ∈ dangling (some b.kind) bs →
        ∃ b' ∈ b :: bs, b'.kind.continuesBranch = true ∧ f.span = b'.headerSpan := fun hf => by
      obtain ⟨b', hb', h⟩ := exists_of_mem_dangling hf
      exact ⟨b', List.mem_cons_of_mem b hb', h⟩
    split at hf
    · next hdangling =>
      rcases List.mem_cons.mp hf with rfl | hf
      · exact ⟨b, List.mem_cons_self, (Bool.and_eq_true_iff.mp hdangling).1, rfl⟩
      · exact hrest hf
    · exact hrest hf

end BraceTree.BlockTree
