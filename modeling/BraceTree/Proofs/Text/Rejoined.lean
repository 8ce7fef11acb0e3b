import Mathlib.Data.List.Basic
import BraceTree.Proofs.Text.Sealed
import BraceTree.Value.Type

/-!
# Lists that are cut, joined and cut again

The parameters of a function and the arguments of a call are cut out of a text, trimmed, and shown
again with a comma and a blank between them. They are not sealed: a bracket that nothing closes may
stand in the last one, and a closing bracket that nothing opened in any. Cutting the shown text
still gives them back, for the same reason each time. What stands before a separator ends at depth
zero, so every piece but the last leads from depth zero to depth zero, and the last is not cut
(`Cut.apart_pieces`). Trimming a piece changes nothing of this, nor does leaving a blank one out.

Types are cut character by character and calls glyph by glyph. Both are the one cut `Cut.pieces`,
for two ways of telling what an element means.
-/

namespace BraceTree

/-! ## Trimmed texts -/

namespace Text

/-- **Trimming finds the tight text between blanks.** -/
theorem Tight.trim_between {pre t post : Text} (h : Tight t)
    (hpre : Text.isBlankText pre = true) (hpost : Text.isBlankText post = true) :
    trim (pre ++ (t ++ post)) = t := by
  have hblanks : ∀ c ∈ pre, isBlank c = true := fun c hc => List.all_eq_true.mp hpre c hc
  have hstart : trimStart (pre ++ (t ++ post)) = t ++ post := by
    rw [trimStart, List.dropWhile_append_of_pos hblanks]
    exact h.trimStart_append post
  rw [trim, hstart, h.trimEnd_append hpost]

/-- What is left of a text that is not blank is tight. -/
theorem tight_trim {t : Text} (h : isBlankText t = false) : Tight (trim t) := by
  have hstart : trimStart t ≠ [] := fun hnil => by
    have hblank : isBlankText t = true :=
      List.all_eq_true.mpr fun c hc => List.dropWhile_eq_nil_iff.mp hnil c hc
    exact Bool.false_ne_true (h.symm.trans hblank)
  have hhead := List.head_dropWhile_not isBlank hstart
  have hsplit := trimEnd_append (trimStart t)
  have hne : trim t ≠ [] := fun hnil => by
    rw [show trimEnd (trimStart t) = [] from hnil, List.nil_append] at hsplit
    have hall := isBlankText_takeWhile (trimStart t).reverse
    have hmem : (trimStart t).head hstart ∈ ((trimStart t).reverse.takeWhile isBlank).reverse :=
      hsplit.symm ▸ List.head_mem hstart
    have := List.all_eq_true.mp hall _ (List.mem_reverse.mp hmem)
    exact Bool.false_ne_true (hhead.symm.trans this)
  constructor
  · refine ⟨(trimStart t).head hstart, ?_, hhead⟩
    obtain ⟨c, cs, hcs⟩ := List.exists_cons_of_ne_nil hne
    have heq : trimStart t = c :: (cs ++ ((trimStart t).reverse.takeWhile isBlank).reverse) := by
      rw [← List.cons_append, ← hcs]
      exact hsplit.symm
    rw [hcs, List.head?_cons, Option.some_inj]
    exact (List.head_eq_iff_head?_eq_some hstart |>.mpr (by rw [heq]; rfl)).symm
  · have hrev : (trimStart t).reverse.dropWhile isBlank ≠ [] := fun hnil => hne (by
      rw [trim, trimEnd, hnil]
      rfl)
    refine ⟨_, ?_, List.head_dropWhile_not isBlank hrev⟩
    rw [trim, trimEnd, List.getLast?_reverse, List.head?_eq_some_head hrev]

theorem trim_trim (t : Text) : trim (trim t) = trim t := by
  cases h : isBlankText t with
  | true => rw [trim_eq_nil_iff.mpr h]; rfl
  | false => exact (tight_trim h).trim_eq

/-- **Blanks around a text make no difference** to what is left when all of them are taken off. -/
theorem trim_between {pre post : Text} (t : Text) (hpre : isBlankText pre = true)
    (hpost : isBlankText post = true) : trim (pre ++ (t ++ post)) = trim t := by
  cases h : isBlankText t with
  | true =>
    have hall : isBlankText (pre ++ (t ++ post)) = true := by
      rw [isBlankText, List.all_append, List.all_append, Bool.and_eq_true, Bool.and_eq_true]
      exact ⟨hpre, h, hpost⟩
    rw [trim_eq_nil_iff.mpr h, trim_eq_nil_iff.mpr hall]
  | false =>
    obtain ⟨gap, hgap, ht⟩ := eq_append_trim t
    have hsplit : pre ++ (t ++ post) =
        (pre ++ t.takeWhile isBlank) ++ (trim t ++ (gap ++ post)) := by
      rw [List.append_assoc, ← List.append_assoc (trim t), ← List.append_assoc (t.takeWhile _),
        ← ht]
    rw [hsplit]
    refine (tight_trim h).trim_between ?_ ?_
    · rw [isBlankText, List.all_append, Bool.and_eq_true]
      exact ⟨hpre, isBlankText_takeWhile t⟩
    · rw [isBlankText, List.all_append, Bool.and_eq_true]
      exact ⟨hgap, hpost⟩

theorem trim_trimStart (t : Text) : trim (trimStart t) = trim t := by
  have h : trim (t.takeWhile isBlank ++ (trimStart t ++ [])) = trim (trimStart t) :=
    trim_between _ (isBlankText_takeWhile t) rfl
  rw [List.append_nil, trimStart, List.takeWhile_append_dropWhile] at h
  exact h.symm

theorem trim_trimEnd (t : Text) : trim (trimEnd t) = trim t := by
  have hblank : isBlankText (t.reverse.takeWhile isBlank).reverse = true := by
    rw [isBlankText, List.all_reverse]
    exact isBlankText_takeWhile t.reverse
  have h : trim ([] ++ (trimEnd t ++ (t.reverse.takeWhile isBlank).reverse)) =
      trim (trimEnd t) := trim_between _ rfl hblank
  rw [List.nil_append, trimEnd_append] at h
  exact h.symm

/-- A character that is no blank parts the blanks at the start from those at the end. -/
theorem trim_append_cons {c : Char} (hc : isBlank c = false) (a b : Text) :
    trim (a ++ c :: b) = trimStart a ++ c :: trimEnd b := by
  have hstart : trimStart (a ++ c :: b) = trimStart a ++ c :: b := by
    rw [trimStart, trimStart, List.dropWhile_append]
    split
    · rename_i hempty
      rw [List.isEmpty_iff.mp hempty, List.nil_append, List.dropWhile_cons_of_neg (by simp [hc])]
    · rfl
  have hend : ∀ a, trimEnd (a ++ c :: b) = a ++ c :: trimEnd b := fun a => by
    rw [trimEnd, trimEnd, List.reverse_append, List.reverse_cons, List.append_assoc,
      List.dropWhile_append]
    split
    · rename_i hempty
      rw [List.isEmpty_iff.mp hempty, List.singleton_append,
        List.dropWhile_cons_of_neg (by simp [hc])]
      simp
    · simp
  rw [trim, hstart, hend]

theorem mem_of_mem_trim {t : Text} {c : Char} (h : c ∈ trim t) : c ∈ t := by
  obtain ⟨post, -, ht⟩ := eq_append_trim t
  rw [ht]
  exact List.mem_append_right _ (List.mem_append_left _ h)

theorem mem_intercalate {sep : Text} {c : Char} {ts : List Text} (h : c ∈ sep.intercalate ts) :
    c ∈ sep ∨ ∃ t ∈ ts, c ∈ t := by
  induction ts with
  | nil => exact absurd h List.not_mem_nil
  | cons t ts ih =>
    cases ts with
    | nil =>
      rw [List.intercalate_singleton] at h
      exact .inr ⟨t, List.mem_cons_self, h⟩
    | cons u us =>
      rw [List.intercalate_cons_cons, List.mem_append, List.mem_append] at h
      rcases h with (h | h) | h
      · exact .inr ⟨t, List.mem_cons_self, h⟩
      · exact .inl h
      · exact (ih h).imp_right fun ⟨v, hv, hc⟩ => ⟨v, List.mem_cons_of_mem t hv, hc⟩

end Text

/-! ## Cuts -/

/-- What an element means to a cut. -/
inductive Role where
  | opens
  | closes
  | separates
  | plain
  deriving DecidableEq

/-- The depth behind an element; behind a separator at depth zero there is none. -/
def Role.after? : Role → Nat → Option Nat
  | .opens, depth => some (depth + 1)
  | .closes, depth => some (depth - 1)
  | .separates, 0 => none
  | .separates, depth + 1 => some (depth + 1)
  | .plain, depth => some depth

namespace Cut

variable {α : Type} (role : α → Role)

/-- The depth behind a list that is not cut, given the depth before it. -/
def walk? : (depth : Nat) → List α → Option Nat
  | depth, [] => some depth
  | depth, x :: xs => ((role x).after? depth).bind fun depth => walk? depth xs

/-- The pieces of a list between the separators at depth zero. -/
def pieces : (depth : Nat) → List α → List (List α)
  | _, [] => [[]]
  | depth, x :: xs =>
    match (role x).after? depth with
    | none => [] :: pieces 0 xs
    | some depth => (pieces depth xs).modifyHead (x :: ·)

/-- **Pieces that can be told apart** when they are joined: none of them is cut, and behind each but
the last the depth is zero. -/
def Apart (ps : List (List α)) : Prop :=
  ps.Pairwise (fun p _ => walk? role 0 p = some 0) ∧ ∀ p ∈ ps, (walk? role 0 p).isSome = true

variable {role} {depth : Nat} {p q xs ys : List α} {ps : List (List α)}

/-- **Plain elements make no difference.** -/
theorem walk?_filter (xs : List α) : ∀ depth : Nat,
    walk? role depth (xs.filter fun x => role x ≠ .plain) = walk? role depth xs := by
  induction xs with
  | nil => exact fun _ => rfl
  | cons x xs ih =>
    intro depth
    by_cases hx : role x = .plain
    · rw [List.filter_cons_of_neg (by simpa using hx), ih, walk?, hx]
      rfl
    · rw [List.filter_cons_of_pos (by simpa using hx), walk?, walk?]
      exact congrArg (Option.bind _) (funext ih)

/-- A list leads as deep as another one that differs in plain elements only. -/
theorem walk?_congr (h : (xs.filter fun x => role x ≠ .plain) = ys.filter fun x => role x ≠ .plain)
    (depth : Nat) : walk? role depth xs = walk? role depth ys := by
  rw [← walk?_filter, h, walk?_filter]

theorem pieces_of_walk? (xs : List α) : ∀ (p : List α) {depth depth' : Nat},
    walk? role depth p = some depth' →
      pieces role depth (p ++ xs) = (pieces role depth' xs).modifyHead (p ++ ·)
  | [], depth, depth', h => by
    obtain rfl := Option.some.inj h
    rw [List.nil_append]
    cases pieces role depth xs <;> rfl
  | x :: p, depth, depth', h => by
    obtain ⟨next, hnext, hp⟩ := Option.bind_eq_some_iff.mp h
    rw [List.cons_append, pieces, hnext]
    show (pieces role next (p ++ xs)).modifyHead (x :: ·) = _
    rw [pieces_of_walk? xs p hp, List.modifyHead_modifyHead]
    rfl

/-- The pieces that a list is cut into, the first of them from the depth where the list starts. -/
theorem exists_pieces (role : α → Role) (xs : List α) :
    ∀ depth : Nat, ∃ p ps, pieces role depth xs = p :: ps ∧
      (walk? role depth p).isSome = true ∧ (ps ≠ [] → walk? role depth p = some 0) ∧
      Apart role ps := by
  induction xs with
  | nil => exact fun depth => ⟨[], [], rfl, rfl, fun h => absurd rfl h, .nil, by simp⟩
  | cons x xs ih =>
    intro depth
    cases hx : (role x).after? depth with
    | none =>
      -- only a separator at depth zero is cut
      obtain ⟨p, ps, heq, hp, hzero, hps⟩ := ih 0
      have hdepth : depth = 0 := by
        cases hrole : role x <;> rw [hrole] at hx <;> cases depth <;>
          first | rfl | exact absurd hx (by simp [Role.after?])
      subst hdepth
      refine ⟨[], p :: ps, by rw [pieces, hx]; exact congrArg ([] :: ·) heq, rfl, fun _ => rfl,
        List.pairwise_cons.mpr ⟨fun q hq => hzero (List.ne_nil_of_mem hq), hps.1⟩,
        List.forall_mem_cons.mpr ⟨hp, hps.2⟩⟩
    | some next =>
      obtain ⟨p, ps, heq, hp, hzero, hps⟩ := ih next
      have hwalk : walk? role depth (x :: p) = walk? role next p := by
        rw [walk?, hx]
        rfl
      refine ⟨x :: p, ps, by rw [pieces, hx]; exact congrArg (List.modifyHead (x :: ·)) heq, ?_, ?_,
        hps⟩
      · rw [hwalk]
        exact hp
      · rw [hwalk]
        exact hzero

/-- **A list is its pieces with the separators between them**, if one element alone separates. -/
theorem intercalate_pieces {sep : α} (hsep : ∀ x, role x = .separates → x = sep) (xs : List α) :
    ∀ depth : Nat, [sep].intercalate (pieces role depth xs) = xs := by
  induction xs with
  | nil => exact fun _ => rfl
  | cons x xs ih =>
    intro depth
    cases hx : (role x).after? depth with
    | none =>
      have hrole : role x = .separates := by
        cases hrole : role x <;> rw [hrole] at hx <;> first | rfl | exact nomatch hx
      obtain ⟨p, ps, heq, -⟩ := exists_pieces role xs 0
      have ih := ih 0
      rw [heq] at ih
      rw [pieces, hx, heq, List.intercalate_cons_cons, ih, hsep x hrole]
      rfl
    | some next =>
      obtain ⟨p, ps, heq, -⟩ := exists_pieces role xs next
      have ih := ih next
      rw [heq] at ih
      rw [pieces, hx]
      show [sep].intercalate ((pieces role next xs).modifyHead (x :: ·)) = x :: xs
      rw [heq, List.modifyHead_cons, ← ih]
      cases ps <;> rfl

/-- There is nothing in the pieces that is not in the list. -/
theorem mem_of_mem_pieces {x : α} : ∀ {xs : List α} {depth : Nat} {p : List α},
    p ∈ pieces role depth xs → x ∈ p → x ∈ xs
  | [], _, p, hp, hx => by
    rw [List.mem_singleton.mp hp] at hx
    exact hx
  | y :: ys, depth, p, hp, hx => by
    rw [pieces] at hp
    split at hp
    · rcases List.mem_cons.mp hp with rfl | hp
      · exact absurd hx List.not_mem_nil
      · exact List.mem_cons_of_mem y (mem_of_mem_pieces hp hx)
    · rename_i next _
      obtain ⟨q, qs, heq, -⟩ := exists_pieces role ys next
      have hin : ∀ {r}, r ∈ q :: qs → x ∈ r → x ∈ ys := fun hr hxr =>
        mem_of_mem_pieces (heq.symm ▸ hr) hxr
      rw [heq, List.modifyHead_cons] at hp
      rcases List.mem_cons.mp hp with rfl | hp
      · rcases List.mem_cons.mp hx with rfl | hx
        · exact List.mem_cons_self
        · exact List.mem_cons_of_mem y (hin List.mem_cons_self hx)
      · exact List.mem_cons_of_mem y (hin (List.mem_cons_of_mem q hp) hx)

/-- **What a list is cut into can be told apart.** -/
theorem apart_pieces (xs : List α) : Apart role (pieces role 0 xs) := by
  obtain ⟨p, ps, heq, hp, hzero, hps⟩ := exists_pieces role xs 0
  rw [heq]
  exact ⟨List.pairwise_cons.mpr ⟨fun q hq => hzero (List.ne_nil_of_mem hq), hps.1⟩,
    List.forall_mem_cons.mpr ⟨hp, hps.2⟩⟩

/-- Pieces that lead as deep as others can be told apart as they can. -/
theorem Apart.map {β : Type} {role' : β → Role} {f : List α → List β} (h : Apart role ps)
    (hf : ∀ p ∈ ps, walk? role' 0 (f p) = walk? role 0 p) : Apart role' (ps.map f) := by
  constructor
  · refine List.pairwise_map.mpr (h.1.imp_of_mem fun {p q} hp _ hpq => ?_)
    rw [hf p hp]
    exact hpq
  · refine List.forall_mem_map.mpr fun p hp => ?_
    rw [hf p hp]
    exact h.2 p hp

theorem Apart.filter (h : Apart role ps) (keep : List α → Bool) : Apart role (ps.filter keep) :=
  ⟨h.1.filter keep, fun p hp => h.2 p (List.mem_of_mem_filter hp)⟩

/-- **Joined pieces are cut again where they were joined.** -/
theorem pieces_intercalate {sep blank : α} (hsep : role sep = .separates)
    (hblank : role blank = .plain) : ∀ {p : List α} {ps : List (List α)}, Apart role (p :: ps) →
      pieces role 0 ([sep, blank].intercalate (p :: ps)) = p :: ps.map (blank :: ·)
  | p, [], h => by
    obtain ⟨depth, hdepth⟩ := Option.isSome_iff_exists.mp (h.2 p List.mem_cons_self)
    have hpieces := pieces_of_walk? [] p hdepth
    rw [List.append_nil] at hpieces
    rw [List.intercalate_singleton, hpieces]
    show [p ++ []] = [p]
    rw [List.append_nil]
  | p, q :: ps, h => by
    obtain ⟨hzero, hpairs⟩ := List.pairwise_cons.mp h.1
    have ih : pieces role 0 ([sep, blank].intercalate (q :: ps)) = q :: ps.map (blank :: ·) :=
      pieces_intercalate hsep hblank ⟨hpairs, fun r hr => h.2 r (List.mem_cons_of_mem p hr)⟩
    have hcut : ∀ xs, pieces role 0 (sep :: xs) = [] :: pieces role 0 xs := fun xs => by
      rw [pieces, hsep]
      rfl
    have hskip : ∀ xs, pieces role 0 (blank :: xs) =
        (pieces role 0 xs).modifyHead (blank :: ·) := fun xs => by
      rw [pieces, hblank]
      rfl
    rw [List.intercalate_cons_cons, List.append_assoc,
      pieces_of_walk? _ p (hzero q List.mem_cons_self)]
    show (pieces role 0 (sep :: blank :: [sep, blank].intercalate (q :: ps))).modifyHead _ = _
    rw [hcut, hskip, ih]
    show (p ++ []) :: (blank :: q) :: _ = _
    rw [List.append_nil]
    rfl

end Cut
end BraceTree
