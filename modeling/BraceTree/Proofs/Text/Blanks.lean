import BraceTree.Proofs.Text.Rejoined

/-!
# How many blanks there are

Blanks part words, and mostly it makes no difference how many there are. To say so, a text is
compared with the same text in which every run of blanks is one blank (`Text.squeeze`). Squeezing
leaves every other character where it was, so a text is cut at such a character before and after in
the same way (`squeeze_append_cons`, `exists_of_squeeze_eq`), and every reader that only looks for
characters that are no blanks, and whether there are blanks, sees the same.
-/

namespace BraceTree.Text

/-! ## Blanks -/

/-- The code points of blanks. -/
def blankCodes : List Nat :=
  [0x09, 0x0A, 0x0B, 0x0C, 0x0D, 0x20, 0x85, 0xA0, 0x1680, 0x2000, 0x2001, 0x2002, 0x2003, 0x2004,
    0x2005, 0x2006, 0x2007, 0x2008, 0x2009, 0x200A, 0x2028, 0x2029, 0x202F, 0x205F, 0x3000]

theorem toNat_mem_blankCodes {c : Char} (h : isBlank c = true) : c.toNat ∈ blankCodes := by
  simp only [isBlank, Bool.or_eq_true, Bool.and_eq_true, decide_eq_true_eq, beq_iff_eq] at h
  simp only [blankCodes, List.mem_cons, List.not_mem_nil, or_false]
  omega

/-- **No name goes over a blank.** -/
theorem not_word_of_isBlank {c : Char} (h : isBlank c = true) :
    isNameHead c = false ∧ isWord c = false := by
  have hall : ∀ n ∈ blankCodes,
      isNameHead (Char.ofNat n) = false ∧ isWord (Char.ofNat n) = false := by decide +kernel
  have hc := hall _ (toNat_mem_blankCodes h)
  rwa [Char.ofNat_toNat] at hc

theorem trimStart_append_of_isBlankText {a : Text} (h : isBlankText a = true) (b : Text) :
    trimStart (a ++ b) = trimStart b :=
  List.dropWhile_append_of_pos (List.all_eq_true.mp h)

theorem trimStart_cons_of_blank {c : Char} (hc : isBlank c = true) (t : Text) :
    trimStart (c :: t) = trimStart t :=
  List.dropWhile_cons_of_pos hc

theorem trimStart_cons_of_not_blank {c : Char} (hc : isBlank c = false) (t : Text) :
    trimStart (c :: t) = c :: t :=
  List.dropWhile_cons_of_neg (by simp [hc])

theorem not_blank_of_trimStart {t cs : Text} {c : Char} (h : trimStart t = c :: cs) :
    isBlank c = false := by
  induction t with
  | nil => cases h
  | cons d ds ih =>
    cases hd : isBlank d with
    | true => exact ih ((trimStart_cons_of_blank hd ds).symm.trans h)
    | false =>
      rw [trimStart_cons_of_not_blank hd] at h
      rw [← (List.cons.inj h).1, hd]

/-- Only blanks are taken off before the last character of a text. -/
theorem trimStart_concat {c : Char} (hc : isBlank c = false) {t : Text} :
    trimStart (t ++ [c]) = [c] ↔ isBlankText t = true := by
  constructor
  · intro h
    rw [trimStart, List.dropWhile_append] at h
    split at h
    · rename_i hnil
      exact List.all_eq_true.mpr (List.dropWhile_eq_nil_iff.mp (List.isEmpty_iff.mp hnil))
    · rename_i hnot
      exact absurd (List.isEmpty_iff.mpr (List.append_left_eq_self.mp h)) hnot
  · intro h
    rw [trimStart_append_of_isBlankText h, trimStart_cons_of_not_blank hc]

/-- A text that is not blank has a last character that is no blank. -/
theorem exists_of_not_blank {t : Text} (h : isBlankText t = false) :
    ∃ a x b, t = a ++ x :: b ∧ isBlank x = false ∧ isBlankText b = true := by
  obtain ⟨-, x, hlast, hx⟩ := tight_trim h
  obtain ⟨a, ha⟩ := List.getLast?_eq_some_iff.mp hlast
  obtain ⟨post, hpost, ht⟩ := eq_append_trim t
  refine ⟨t.takeWhile isBlank ++ a, x, post, ?_, hx, hpost⟩
  rw [ha] at ht
  simpa using ht

/-! ## Squeezing -/

/-- A text with one blank for every run of blanks. -/
def squeeze : Text → Text
  | [] => []
  | c :: cs =>
    if isBlank c then (if cs.head?.any isBlank then squeeze cs else ' ' :: squeeze cs)
    else c :: squeeze cs

variable {t a b : Text} {c x : Char}

theorem squeeze_cons_of_not_blank (hc : isBlank c = false) (t : Text) :
    squeeze (c :: t) = c :: squeeze t := by
  rw [squeeze, if_neg (by simp [hc])]

/-- Of a run of blanks the last one counts. -/
theorem squeeze_cons_of_blank (hc : isBlank c = true) (t : Text) : squeeze (c :: t) =
    if t.head?.any isBlank then squeeze t else ' ' :: squeeze t := by
  rw [squeeze, if_pos hc]

/-- **Squeezing leaves every character that is no blank.** -/
theorem squeeze_append_cons (hx : isBlank x = false) (a b : Text) :
    squeeze (a ++ x :: b) = squeeze a ++ x :: squeeze b := by
  induction a with
  | nil => exact squeeze_cons_of_not_blank hx b
  | cons d ds ih =>
    have hhead : (ds ++ x :: b).head?.any isBlank = ds.head?.any isBlank := by
      cases ds with
      | nil => exact hx
      | cons e es => rfl
    rw [List.cons_append]
    cases hd : isBlank d with
    | true =>
      rw [squeeze_cons_of_blank hd, squeeze_cons_of_blank hd, hhead, ih]
      split <;> rfl
    | false => rw [squeeze_cons_of_not_blank hd, squeeze_cons_of_not_blank hd, ih, List.cons_append]

theorem squeeze_eq_nil_iff : squeeze t = [] ↔ t = [] := by
  induction t with
  | nil => exact ⟨fun _ => rfl, fun _ => rfl⟩
  | cons c cs ih =>
    refine ⟨fun h => ?_, fun h => absurd h (List.cons_ne_nil c cs)⟩
    rw [squeeze] at h
    split at h
    · split at h
      · rename_i hhead
        rw [ih.mp h] at hhead
        exact absurd hhead Bool.false_ne_true
      · cases h
    · cases h

/-- Whether a text starts with a blank is the same when it is squeezed. -/
theorem head?_squeeze (t : Text) : (squeeze t).head?.any isBlank = t.head?.any isBlank := by
  induction t with
  | nil => rfl
  | cons c cs ih =>
    cases hc : isBlank c with
    | true =>
      rw [squeeze_cons_of_blank hc, List.head?_cons, Option.any_some, hc]
      split
      · rename_i hhead
        rw [ih, hhead]
      · rfl
    | false => rw [squeeze_cons_of_not_blank hc, List.head?_cons, List.head?_cons]

/-- **What stands before and behind a character that is no blank** was squeezed by itself. -/
theorem exists_of_squeeze_eq (hx : isBlank x = false) : ∀ {t u v : Text},
    squeeze t = u ++ x :: v → ∃ a b, t = a ++ x :: b ∧ squeeze a = u ∧ squeeze b = v
  | [], u, v, h => by
    rw [squeeze] at h
    exact absurd h.symm (by simp)
  | c :: cs, u, v, h => by
    cases hc : isBlank c with
    | true =>
      have hhead : ∀ {a b : Text}, cs = a ++ x :: b → cs.head?.any isBlank = a.head?.any isBlank :=
        fun {a b} hcs => by
          rw [hcs]
          cases a with
          | nil => exact hx
          | cons e es => rfl
      rw [squeeze_cons_of_blank hc] at h
      split at h
      · rename_i hnext
        obtain ⟨a, b, rfl, rfl, rfl⟩ := exists_of_squeeze_eq hx h
        refine ⟨c :: a, b, rfl, ?_, rfl⟩
        rw [squeeze_cons_of_blank hc, if_pos (hhead rfl ▸ hnext)]
      · rename_i hnext
        rcases List.cons_eq_append_iff.mp h with ⟨-, hxv⟩ | ⟨u, rfl, hrest⟩
        · rw [(List.cons.inj hxv).1] at hx
          exact absurd hx (by decide)
        · obtain ⟨a, b, rfl, rfl, rfl⟩ := exists_of_squeeze_eq hx hrest
          refine ⟨c :: a, b, rfl, ?_, rfl⟩
          rw [squeeze_cons_of_blank hc, if_neg (hhead rfl ▸ hnext)]
    | false =>
      rw [squeeze_cons_of_not_blank hc] at h
      rcases List.cons_eq_append_iff.mp h with ⟨rfl, hxv⟩ | ⟨u, rfl, hrest⟩
      · obtain ⟨rfl, rfl⟩ := List.cons.inj hxv
        exact ⟨[], cs, rfl, rfl, rfl⟩
      · obtain ⟨a, b, rfl, rfl, rfl⟩ := exists_of_squeeze_eq hx hrest
        exact ⟨c :: a, b, rfl, squeeze_cons_of_not_blank hc a, rfl⟩

/-- A word without blanks is squeezed out of nothing but itself. -/
theorem squeeze_eq_iff {word : Text} (hword : ∀ c ∈ word, isBlank c = false) :
    squeeze t = word ↔ t = word := by
  induction word generalizing t with
  | nil => exact squeeze_eq_nil_iff
  | cons c cs ih =>
    obtain ⟨hc, hcs⟩ := List.forall_mem_cons.mp hword
    constructor
    · intro h
      obtain ⟨a, b, rfl, ha, hb⟩ := exists_of_squeeze_eq hc (u := []) h
      rw [squeeze_eq_nil_iff.mp ha, (ih hcs).mp hb, List.nil_append]
    · rintro rfl
      rw [squeeze_cons_of_not_blank hc, (ih hcs).mpr rfl]

/-- **Of a run of blanks one is left.** -/
theorem squeeze_append_of_isBlankText (h : isBlankText a = true) (hne : a ≠ []) (b : Text) :
    squeeze (a ++ b) = squeeze (' ' :: b) := by
  induction a with
  | nil => exact absurd rfl hne
  | cons c cs ih =>
    obtain ⟨hc, hcs⟩ := (Bool.and_eq_true _ _).mp h
    cases cs with
    | nil => exact (squeeze_cons_of_blank hc b).trans (squeeze_cons_of_blank (by decide) b).symm
    | cons d ds =>
      have hd : (d :: ds ++ b).head?.any isBlank = true := ((Bool.and_eq_true _ _).mp hcs).1
      rw [List.cons_append, squeeze_cons_of_blank hc, if_pos hd]
      exact ih hcs (List.cons_ne_nil d ds)

theorem squeeze_of_isBlankText (h : isBlankText t = true) (hne : t ≠ []) : squeeze t = [' '] := by
  rw [← List.append_nil t, squeeze_append_of_isBlankText h hne]
  rfl

theorem isBlankText_squeeze (t : Text) : isBlankText (squeeze t) = isBlankText t := by
  cases h : isBlankText t with
  | true =>
    cases t with
    | nil => rfl
    | cons c cs =>
      rw [squeeze_of_isBlankText h (List.cons_ne_nil c cs)]
      rfl
  | false =>
    obtain ⟨a, x, b, rfl, hx, -⟩ := exists_of_not_blank h
    rw [squeeze_append_cons hx, isBlankText, List.all_append, List.all_cons, hx, Bool.false_and,
      Bool.and_false]

/-- **How many blanks a run has makes no difference** to the squeezed text. -/
theorem squeeze_run {gap gap' : Text} (hgap : isBlankText gap = true) (hne : gap ≠ [])
    (hgap' : isBlankText gap' = true) (hne' : gap' ≠ []) (a b : Text) :
    squeeze (a ++ (gap ++ b)) = squeeze (a ++ (gap' ++ b)) := by
  have hhead : ∀ {g : Text}, isBlankText g = true → g ≠ [] →
      (g ++ b).head?.any isBlank = true := fun {g} hg hgne => by
    obtain ⟨c, cs, rfl⟩ := List.exists_cons_of_ne_nil hgne
    exact ((Bool.and_eq_true _ _).mp hg).1
  induction a with
  | nil =>
    rw [List.nil_append, List.nil_append, squeeze_append_of_isBlankText hgap hne,
      squeeze_append_of_isBlankText hgap' hne']
  | cons d ds ih =>
    have hnext : (ds ++ (gap ++ b)).head?.any isBlank = (ds ++ (gap' ++ b)).head?.any isBlank := by
      cases ds with
      | nil => rw [List.nil_append, List.nil_append, hhead hgap hne, hhead hgap' hne']
      | cons e es => rfl
    rw [List.cons_append, List.cons_append, squeeze, squeeze, hnext, ih]

/-! ## Reading squeezed texts -/

theorem trimStart_squeeze (t : Text) : trimStart (squeeze t) = squeeze (trimStart t) := by
  induction t with
  | nil => rfl
  | cons c cs ih =>
    cases hc : isBlank c with
    | true =>
      rw [squeeze_cons_of_blank hc, trimStart_cons_of_blank hc]
      split
      · exact ih
      · exact (trimStart_cons_of_blank (by decide) _).trans ih
    | false =>
      rw [squeeze_cons_of_not_blank hc, trimStart_cons_of_not_blank hc,
        trimStart_cons_of_not_blank hc, squeeze_cons_of_not_blank hc]

/-- **Trimming and squeezing can be done in either order.** -/
theorem trim_squeeze (t : Text) : trim (squeeze t) = squeeze (trim t) := by
  cases h : isBlankText t with
  | true =>
    rw [trim_eq_nil_iff.mpr h, trim_eq_nil_iff.mpr ((isBlankText_squeeze t).trans h)]
    rfl
  | false =>
    obtain ⟨a, x, b, rfl, hx, hb⟩ := exists_of_not_blank h
    have hend : ∀ {b : Text}, isBlankText b = true → trimEnd b = [] := fun hb => by
      rw [trimEnd, List.reverse_eq_nil_iff, List.dropWhile_eq_nil_iff]
      exact fun c hc => List.all_eq_true.mp hb c (List.mem_reverse.mp hc)
    rw [squeeze_append_cons hx, trim_append_cons hx, trim_append_cons hx, trimStart_squeeze,
      hend hb, hend ((isBlankText_squeeze b).trans hb), squeeze_append_cons hx]
    rfl

/-- A squeezed text is in one line. -/
theorem newline_not_mem_squeeze (t : Text) : '\n' ∉ squeeze t := by
  induction t with
  | nil => exact List.not_mem_nil
  | cons c cs ih =>
    cases hc : isBlank c with
    | true =>
      rw [squeeze_cons_of_blank hc]
      split
      · exact ih
      · exact List.not_mem_cons_of_ne_of_not_mem (by decide) ih
    | false =>
      rw [squeeze_cons_of_not_blank hc]
      refine List.not_mem_cons_of_ne_of_not_mem ?_ ih
      rintro rfl
      exact absurd hc (by decide)

theorem count_squeeze (hx : isBlank x = false) (t : Text) : (squeeze t).count x = t.count x := by
  have hne : ∀ {c : Char}, isBlank c = true → c ≠ x := by
    rintro c hc rfl
    exact Bool.false_ne_true (hx.symm.trans hc)
  induction t with
  | nil => rfl
  | cons c cs ih =>
    cases hc : isBlank c with
    | true =>
      rw [squeeze_cons_of_blank hc, List.count_cons_of_ne (hne hc)]
      split
      · exact ih
      · rw [List.count_cons_of_ne (hne (by decide)), ih]
    | false => rw [squeeze_cons_of_not_blank hc, List.count_cons, List.count_cons, ih]

/-- A text that starts with a blank does so when it is squeezed. -/
theorem exists_squeeze_cons (hc : isBlank c = true) (t : Text) :
    ∃ d ds, squeeze (c :: t) = d :: ds ∧ isBlank d = true := by
  obtain ⟨d, ds, hsqueeze⟩ := List.exists_cons_of_ne_nil
    (fun hnil => List.cons_ne_nil c t (squeeze_eq_nil_iff.mp hnil))
  refine ⟨d, ds, hsqueeze, ?_⟩
  have hd := head?_squeeze (c :: t)
  rw [hsqueeze, List.head?_cons, List.head?_cons, Option.any_some, Option.any_some] at hd
  exact hd.trans hc

theorem dropPrefix?_squeeze : ∀ {word : Text}, (∀ c ∈ word, isBlank c = false) → ∀ t : Text,
    dropPrefix? word (squeeze t) = (dropPrefix? word t).map squeeze
  | [], _, t => rfl
  | w :: ws, hword, [] => rfl
  | w :: ws, hword, c :: cs => by
    obtain ⟨hw, hws⟩ := List.forall_mem_cons.mp hword
    cases hc : isBlank c with
    | true =>
      have hne : ∀ {d : Char}, isBlank d = true → w ≠ d := by
        rintro d hd rfl
        exact Bool.false_ne_true (hw.symm.trans hd)
      obtain ⟨d, ds, hsqueeze, hd⟩ := exists_squeeze_cons hc cs
      rw [hsqueeze, dropPrefix?, dropPrefix?, if_neg (hne hc), if_neg (hne hd)]
      rfl
    | false =>
      rw [squeeze_cons_of_not_blank hc, dropPrefix?, dropPrefix?]
      split
      · exact dropPrefix?_squeeze hws cs
      · rfl

/-- **What a text starts with, up to the first blank at the latest**, is there when it is squeezed.
-/
theorem takeWhile_squeeze {p : Char → Bool} (hp : ∀ {c : Char}, isBlank c = true → p c = false)
    (t : Text) : (squeeze t).takeWhile p = t.takeWhile p ∧
      (squeeze t).dropWhile p = squeeze (t.dropWhile p) := by
  have hstop : ∀ {u : Text}, u.head?.any isBlank = true →
      u.takeWhile p = [] ∧ u.dropWhile p = u := fun {u} hu => by
    cases u with
    | nil => exact ⟨rfl, rfl⟩
    | cons d ds =>
      have hd : ¬ p d = true := ne_true_of_eq_false (hp hu)
      exact ⟨List.takeWhile_cons_of_neg hd, List.dropWhile_cons_of_neg hd⟩
  induction t with
  | nil => exact ⟨rfl, rfl⟩
  | cons c cs ih =>
    cases hc : isBlank c with
    | true =>
      obtain ⟨htake, hdrop⟩ := @hstop (c :: cs) hc
      obtain ⟨htake', hdrop'⟩ := @hstop (squeeze (c :: cs)) ((head?_squeeze (c :: cs)).trans hc)
      rw [htake, hdrop, htake', hdrop']
      exact ⟨rfl, rfl⟩
    | false =>
      rw [squeeze_cons_of_not_blank hc]
      by_cases hpc : p c = true
      · rw [List.takeWhile_cons_of_pos hpc, List.takeWhile_cons_of_pos hpc,
          List.dropWhile_cons_of_pos hpc, List.dropWhile_cons_of_pos hpc, ih.1, ih.2]
        exact ⟨rfl, rfl⟩
      · rw [List.takeWhile_cons_of_neg hpc, List.takeWhile_cons_of_neg hpc,
          List.dropWhile_cons_of_neg hpc, List.dropWhile_cons_of_neg hpc,
          squeeze_cons_of_not_blank hc]
        exact ⟨rfl, rfl⟩

/-- What stands behind a word and blanks. -/
theorem afterWord?_eq (word : String) (t : Text) : afterWord? word t =
    (dropPrefix? word.toList t).bind fun rest =>
      if rest.head?.any isBlank then some (trimStart rest) else none := by
  rw [afterWord?]
  cases dropPrefix? word.toList t with
  | none => rfl
  | some rest =>
    cases rest with
    | nil => rfl
    | cons c cs =>
      show (if isBlank c then some (trimStart cs) else none) =
        if isBlank c then some (trimStart (c :: cs)) else none
      split
      · rename_i hc
        rw [trimStart_cons_of_blank hc]
      · rfl

theorem afterWord?_squeeze {word : String} (hword : ∀ c ∈ word.toList, isBlank c = false)
    (t : Text) : afterWord? word (squeeze t) = (afterWord? word t).map squeeze := by
  rw [afterWord?_eq, afterWord?_eq, dropPrefix?_squeeze hword]
  cases dropPrefix? word.toList t with
  | none => rfl
  | some rest =>
    rw [Option.map_some, Option.bind_some, Option.bind_some, head?_squeeze, trimStart_squeeze]
    split <;> rfl

end BraceTree.Text
