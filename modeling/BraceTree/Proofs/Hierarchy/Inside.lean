import BraceTree.Proofs.Hierarchy.Bracketed
import BraceTree.Proofs.Text.Reading

/-!
# What stands in the body of a block

The tree is described pair by pair: the parent of a block is the innermost pair around it. Walking
through a body needs the other direction. A block that lies in the body of another one, however
deep, lies in one of its children (`Bracketed.exists_child_around`), so there are no braces in a
body but those in the children and their own (`Bracketed.exists_child_of_brace`).
-/

namespace BraceTree

namespace Brace

/-- A pair of a part of a list is a pair of the list. -/
theorem Matched.embed {bs : List Brace} {s : Span} (h : Matched bs s) (before after : List Brace) :
    Matched (before ++ (bs ++ after)) s := by
  obtain ⟨pre, inner, post, c, hc, rfl, hinner⟩ := h
  exact ⟨before ++ pre, inner, post ++ after, c, hc, by simp, hinner⟩

/-- **Every brace of a balanced list belongs to a matched pair.** -/
theorem Balanced.exists_matched {bs : List Brace} (h : Balanced bs) :
    ∀ b ∈ bs, ∃ s, Matched bs s ∧ (s.start = b.offset ∨ s.stop = b.offset + 1) := by
  induction h with
  | nil => exact fun b hb => absurd hb List.not_mem_nil
  | @block o c inner rest hinner hrest ihinner ihrest =>
    intro b hb
    have hpair : Matched (⟨o, true⟩ :: (inner ++ ⟨c, false⟩ :: rest)) ⟨o, c + 1⟩ :=
      ⟨[], inner, rest, c, rfl, rfl, hinner⟩
    rcases List.mem_cons.mp hb with rfl | hb
    · exact ⟨_, hpair, .inl rfl⟩
    · rcases List.mem_append.mp hb with hb | hb
      · obtain ⟨s, hs, hends⟩ := ihinner b hb
        exact ⟨s, hs.embed [⟨o, true⟩] (⟨c, false⟩ :: rest), hends⟩
      · rcases List.mem_cons.mp hb with rfl | hb
        · exact ⟨_, hpair, .inr rfl⟩
        · obtain ⟨s, hs, hends⟩ := ihrest b hb
          refine ⟨s, ?_, hends⟩
          have := hs.embed (⟨o, true⟩ :: (inner ++ [⟨c, false⟩])) []
          simpa using this

end Brace

namespace BlockTree.Bracketed

variable {source : Text} {t : BlockTree} (h : t.Bracketed source) {id c : Nat}

include h

theorem matched (hr : c ≠ root) (hc : c < t.size) :
    Brace.Matched (Brace.ofSource source) (t.get c).span :=
  h.matched_iff.mpr ⟨c, hr, hc, rfl⟩

/-! ## Where a body starts and ends -/

/-- A body starts where a reader may start. -/
theorem fresh_body_start (hid : id < t.size) : Text.Fresh source (t.get id).body.start := by
  by_cases hr : id = root
  · rw [hr, h.root_body]
    exact Text.fresh_zero source
  · rw [(h.body_eq hr hid).2]
    exact Brace.fresh (h.matched hr hid).open_mem

/-- A body ends at a border. -/
theorem border_body_stop (hid : id < t.size) : Text.Border source (t.get id).body.stop := by
  by_cases hr : id = root
  · rw [hr, h.root_body, h.root_span]
    exact Text.border_bytes source
  · rw [(h.body_eq hr hid).2]
    exact Brace.border (h.matched hr hid).close_mem

/-- Behind a block a reader may start. -/
theorem fresh_span_stop (hr : c ≠ root) (hc : c < t.size) :
    Text.Fresh source (t.get c).span.stop := by
  have hlen := (h.body_eq hr hc).1
  have hfresh := Brace.fresh (h.matched hr hc).close_mem
  rwa [Nat.sub_add_cancel (by omega)] at hfresh

/-! ## The children around what a body holds -/

/-- A block lies in its parent. -/
theorem within_parent {d p : Nat} (hd : d < t.size) (hp : (t.get d).parent = some p) :
    (t.get p).span.start ≤ (t.get d).span.start ∧ (t.get d).span.stop ≤ (t.get p).span.stop := by
  have hinside := h.inside hd hp
  by_cases hpr : p = root
  · rw [hpr, h.root_span]
    rw [hpr, h.root_body, h.root_span] at hinside
    exact hinside
  · rw [(h.body_eq hpr (h.parent_lt hd hp)).2] at hinside
    simp only at hinside
    omega

/-- A body that holds a block holds the parent as well, unless it is the body of the parent: nothing
fits between the two. -/
theorem parent_in_body {d p : Nat} (hd : d < t.size) (hp : (t.get d).parent = some p)
    (hid : id < t.size) (hne : id ≠ p) (hstart : (t.get id).body.start ≤ (t.get d).span.start)
    (hstop : (t.get d).span.stop ≤ (t.get id).body.stop) :
    (t.get id).body.start ≤ (t.get p).span.start ∧
      (t.get p).span.stop ≤ (t.get id).body.stop := by
  have hplt := h.parent_lt hd hp
  by_cases hir : id = root
  · rw [hir, h.root_body]
    exact ⟨Nat.zero_le _, h.span_stop_le hplt⟩
  · have hsorted : Brace.Sorted (Brace.ofSource source) := Brace.ofGlyphs_sorted _ _
    have hdm := h.matched (h.ne_root_of_parent hp) hd
    have him := h.matched hir hid
    obtain ⟨hlen, hbody⟩ := h.body_eq hir hid
    rw [hbody] at hstart hstop ⊢
    simp only at hstart hstop ⊢
    have henc : (t.get id).span.encloses (t.get d).span :=
      (him.encloses_iff hsorted hdm).mpr ⟨by omega, by omega⟩
    have hencloser := h.encloser hd hp
    split at hencloser
    · exact absurd henc (hencloser _ him)
    · rename_i hpr
      rcases hencloser.2.2 _ him henc with heq | hpenc
      · exact absurd (h.span_inj hir hid hpr hplt heq) hne
      · rw [him.encloses_iff hsorted hencloser.1] at hpenc
        omega

/-- **A block in the body of another one lies in one of its children.** -/
theorem exists_child_around {d : Nat} (hd : d < t.size) : ∀ id : Nat, id < t.size → id ≠ d →
    (t.get id).body.start ≤ (t.get d).span.start → (t.get d).span.stop ≤ (t.get id).body.stop →
      ∃ c ∈ (t.get id).children, (t.get c).span.start ≤ (t.get d).span.start ∧
        (t.get d).span.stop ≤ (t.get c).span.stop := by
  refine h.induction_from_root (P := fun d => ∀ id : Nat, id < t.size → id ≠ d →
    (t.get id).body.start ≤ (t.get d).span.start → (t.get d).span.stop ≤ (t.get id).body.stop →
      ∃ c ∈ (t.get id).children, (t.get c).span.start ≤ (t.get d).span.start ∧
        (t.get d).span.stop ≤ (t.get c).span.stop) ?_ ?_ hd
  · -- the root lies in no body
    intro id hid hr hstart _
    rw [(h.body_eq hr hid).2, h.root_span] at hstart
    exact absurd hstart (Nat.not_succ_le_zero _)
  · intro p d hd hp ih id hid hne hstart hstop
    by_cases hip : id = p
    · exact ⟨d, h.mem_children_iff.mpr ⟨hd, hip ▸ hp⟩, Nat.le_refl _, Nat.le_refl _⟩
    · obtain ⟨hpstart, hpstop⟩ := h.parent_in_body hd hp hid hip hstart hstop
      obtain ⟨c, hc, hcstart, hcstop⟩ := ih id hid hip hpstart hpstop
      obtain ⟨hdstart, hdstop⟩ := h.within_parent hd hp
      exact ⟨c, hc, Nat.le_trans hcstart hdstart, Nat.le_trans hdstop hcstop⟩

/-- **There are no braces in a body but those of the blocks in it.** -/
theorem exists_child_of_brace (hbalanced : Brace.Balanced (Brace.ofSource source))
    (hid : id < t.size) {b : Brace} (hb : b ∈ Brace.ofSource source)
    (hlo : (t.get id).body.start ≤ b.offset) (hhi : b.offset < (t.get id).body.stop) :
    ∃ c ∈ (t.get id).children, (t.get c).span.start ≤ b.offset ∧
      b.offset < (t.get c).span.stop := by
  have hsorted : Brace.Sorted (Brace.ofSource source) := Brace.ofGlyphs_sorted _ _
  obtain ⟨s, hs, hends⟩ := hbalanced.exists_matched b hb
  have hlen := hs.start_lt_stop hsorted
  obtain ⟨d, hdr, hd, rfl⟩ := h.matched_iff.mp hs
  obtain ⟨hne, hstart, hstop⟩ : id ≠ d ∧ (t.get id).body.start ≤ (t.get d).span.start ∧
      (t.get d).span.stop ≤ (t.get id).body.stop := by
    by_cases hir : id = root
    · rw [hir, h.root_body]
      exact ⟨Ne.symm hdr, Nat.zero_le _, h.span_stop_le hd⟩
    · have him := h.matched hir hid
      have hilen := him.start_lt_stop hsorted
      rw [(h.body_eq hir hid).2] at hlo hhi ⊢
      simp only at hlo hhi ⊢
      -- two pairs are disjoint or nested, and one end of the pair is strictly inside the block
      rcases Nat.lt_trichotomy (t.get d).span.start (t.get id).span.start with hlt | heq | hlt
      · have := hs.inside_or_behind hsorted him hlt
        omega
      · have := congrArg Span.stop (hs.eq_of_start_eq hsorted him heq)
        omega
      · have := him.inside_or_behind hsorted hs hlt
        refine ⟨fun he => ?_, by omega, by omega⟩
        rw [he] at hlt
        exact Nat.lt_irrefl _ hlt
  obtain ⟨c, hc, hcstart, hcstop⟩ := h.exists_child_around hd id hid hne hstart hstop
  exact ⟨c, hc, by omega, by omega⟩

end BlockTree.Bracketed
end BraceTree
