import BraceTree.Header.Grammar
import BraceTree.Proofs.Text.Rejoined
import BraceTree.Proofs.Value.Annotation

/-!
# What a header captured can be read off its text

The kind of a block is displayed with what its header captured, and the parts are not quoted: a
condition may contain parentheses, a parameter colons, a collection semicolons. Not every kind can
be told from its text, but every one that a header has can (`BlockKind.Legible`), for each reader
only passes on what cannot be mistaken. A clause with two semicolons is read as a counted loop
before anything else is tried, so a collection never has two. A name has no parenthesis in it.
Parameters are read from their text as they were read from the header
(`Header.parameters_intercalate`).
-/

namespace BraceTree

namespace Text

variable {sep : Char} {a a' b b' t : Text}

/-- **The first occurrence of a character** cuts a text at one place. -/
theorem append_cons_inj (h : sep ∉ a) (h' : sep ∉ a') (heq : a ++ sep :: b = a' ++ sep :: b') :
    a = a' ∧ b = b' := by
  have hsplit := congrArg (splitFirst? sep) heq
  rw [splitFirst?_append h, splitFirst?_append h'] at hsplit
  exact Prod.mk.inj (Option.some.inj hsplit)

/-- And so does the last one. -/
theorem append_cons_inj_right (h : sep ∉ b) (h' : sep ∉ b')
    (heq : a ++ sep :: b = a' ++ sep :: b') : a = a' ∧ b = b' := by
  have hrev := congrArg List.reverse heq
  rw [List.reverse_append, List.reverse_append, List.reverse_cons, List.reverse_cons,
    List.append_assoc, List.append_assoc, List.singleton_append, List.singleton_append] at hrev
  obtain ⟨hb, ha⟩ := append_cons_inj (by simpa using h) (by simpa using h') hrev
  exact ⟨List.reverse_injective ha, List.reverse_injective hb⟩

theorem splitFirst?_cases (sep : Char) (t : Text) : splitFirst? sep t = none ∧ sep ∉ t ∨
    ∃ a b, splitFirst? sep t = some (a, b) ∧ t = a ++ sep :: b ∧ sep ∉ a := by
  by_cases hmem : sep ∈ t
  · obtain ⟨a, b, rfl, ha⟩ := List.eq_append_cons_of_mem hmem
    exact .inr ⟨a, b, splitFirst?_append ha b, rfl, ha⟩
  · refine .inl ⟨?_, hmem⟩
    induction t with
    | nil => rfl
    | cons c cs ih =>
      rw [splitFirst?, if_neg (List.ne_of_not_mem_cons hmem).symm,
        ih (List.not_mem_of_not_mem_cons hmem)]
      rfl

/-- There are as many cuts as there are separators, and no piece has one. -/
theorem length_splitAt (sep : Char) (t : Text) :
    (splitAt sep t).length = t.count sep + 1 ∧ ∀ p ∈ splitAt sep t, sep ∉ p ∧ ∀ c ∈ p, c ∈ t := by
  induction t with
  | nil => exact ⟨rfl, fun p hp => by simp [List.mem_singleton.mp hp]⟩
  | cons c cs ih =>
    obtain ⟨hlength, hpieces⟩ := ih
    rw [splitAt]
    split
    · rename_i hc
      subst hc
      refine ⟨by rw [List.length_cons, hlength, List.count_cons_self], fun p hp => ?_⟩
      rcases List.mem_cons.mp hp with rfl | hp
      · exact ⟨List.not_mem_nil, fun _ hd => absurd hd List.not_mem_nil⟩
      · exact ⟨(hpieces p hp).1, fun d hd => List.mem_cons_of_mem c ((hpieces p hp).2 d hd)⟩
    · rename_i hc
      refine ⟨by rw [List.length_modifyHead, hlength, List.count_cons_of_ne hc], ?_⟩
      cases hcut : splitAt sep cs with
      | nil => exact fun p hp => absurd hp List.not_mem_nil
      | cons q qs =>
        rw [hcut] at hpieces
        obtain ⟨hq, hqs⟩ := List.forall_mem_cons.mp hpieces
        refine List.forall_mem_cons.mpr ⟨⟨?_, fun d hd => ?_⟩, fun p hp =>
          ⟨(hqs p hp).1, fun d hd => List.mem_cons_of_mem c ((hqs p hp).2 d hd)⟩⟩
        · exact List.not_mem_cons_of_ne_of_not_mem (Ne.symm hc) hq.1
        · rcases List.mem_cons.mp hd with rfl | hd
          · exact List.mem_cons_self
          · exact List.mem_cons_of_mem c (hq.2 d hd)

theorem dropPrefix?_eq_some : ∀ {start t rest : Text}, dropPrefix? start t = some rest →
    t = start ++ rest
  | [], _, _, h => Option.some.inj h
  | _ :: _, [], _, h => absurd h (Option.some_ne_none _).symm
  | s :: start, c :: t, rest, h => by
    rw [dropPrefix?] at h
    split at h
    · rename_i hs
      rw [hs, List.cons_append, dropPrefix?_eq_some h]
    · exact absurd h (Option.some_ne_none _).symm

theorem dropLast?_eq_some {last : Char} {rest : Text} (h : dropLast? last t = some rest) :
    t = rest ++ [last] := by
  rw [dropLast?] at h
  split at h
  · rename_i hlast
    rw [← Option.some.inj h]
    exact (List.dropLast_append_getLast? last hlast).symm
  · exact absurd h (Option.some_ne_none _).symm

end Text

/-! ## Parts that cannot be mistaken -/

/-- **A clause that can be told from its text.** -/
def ForClause.Legible : ForClause → Prop
  -- the semicolons are those between the parts
  | .counted init condition step =>
    ';' ∉ init.toList ∧ ';' ∉ condition.toList ∧ ';' ∉ step.toList
  -- the name ends at the first blank, and the text is not one of a counted loop
  | .each item collection => ' ' ∉ item.toList ∧ (each item collection).display.toList.count ';' ≠ 2

/-- **A signature that can be told from its text**: the name ends at the first parenthesis, and the
parameters are read from their text. -/
def Signature.Legible (s : Signature) : Prop :=
  '(' ∉ s.name.toList ∧ Header.parameters
    (", ".intercalate (s.parameters.map Parameter.display)).toList = s.parameters

/-- Whether what a kind captured can be told from its text. -/
def BlockKind.Parted : BlockKind → Prop
  | .forLoop clause => clause.Legible
  | .function s => s.Legible
  | _ => True

/-- **A kind that can be told from its text**, which is in one line. -/
structure BlockKind.Legible (k : BlockKind) : Prop where
  parted : k.Parted
  line : '\n' ∉ k.display.toList

/-! ## The parts of kinds are told from their texts -/

namespace ForClause

variable {f g : ForClause}

theorem toList_display_counted (init condition step : String) :
    (counted init condition step).display.toList = '(' :: (init.toList ++ ';' :: (' ' ::
      condition.toList ++ ';' :: (' ' :: (step.toList ++ [')'])))) := by
  simp [display]

theorem toList_display_each (item collection : String) : (each item collection).display.toList =
    ('(' :: item.toList) ++ ' ' :: ("in ".toList ++ (collection.toList ++ [')'])) := by
  simp [display]

theorem count_display_counted {init condition step : String}
    (h : (counted init condition step).Legible) :
    (counted init condition step).display.toList.count ';' = 2 := by
  obtain ⟨hinit, hcondition, hstep⟩ := h
  rw [toList_display_counted]
  simp [List.count_eq_zero.mpr hinit, List.count_eq_zero.mpr hcondition,
    List.count_eq_zero.mpr hstep]

/-- **Two clauses with one text are one clause.** -/
theorem Legible.eq_of_display_eq (hf : f.Legible) (hg : g.Legible)
    (heq : f.display = g.display) : f = g := by
  have htext := congrArg String.toList heq
  cases f with
  | counted init condition step =>
    cases g with
    | counted init' condition' step' =>
      rw [toList_display_counted, toList_display_counted] at htext
      obtain ⟨hi, hrest⟩ := Text.append_cons_inj hf.1 hg.1 (List.cons.inj htext).2
      obtain ⟨hc, hs⟩ := Text.append_cons_inj (by simpa using hf.2.1) (by simpa using hg.2.1) hrest
      rw [String.toList_inj.mp hi, String.toList_inj.mp (List.cons.inj hc).2,
        String.toList_inj.mp (List.append_cancel_right (List.cons.inj hs).2)]
    | each item collection =>
      exact absurd ((congrArg (List.count ';') htext).symm.trans (count_display_counted hf)) hg.2
  | each item collection =>
    cases g with
    | counted init condition step =>
      exact absurd ((congrArg (List.count ';') htext).trans (count_display_counted hg)) hf.2
    | each item' collection' =>
      rw [toList_display_each, toList_display_each] at htext
      obtain ⟨hi, hrest⟩ := Text.append_cons_inj (by simpa using hf.1) (by simpa using hg.1) htext
      have hc := List.append_cancel_right (List.append_cancel_left hrest)
      rw [String.toList_inj.mp (List.cons.inj hi).2, String.toList_inj.mp hc]

end ForClause

namespace Signature

variable {s s' : Signature}

/-- What is shown behind the parameters. -/
def returnSuffix (s : Signature) : Text :=
  match s.returnType with
  | some t => " : ".toList ++ t.display.toList
  | none => []

theorem toList_display (s : Signature) : s.display.toList = s.name.toList ++ '(' ::
    ((", ".intercalate (s.parameters.map Parameter.display)).toList ++ ')' :: s.returnSuffix) := by
  rw [display, returnSuffix]
  cases s.returnType <;> simp

theorem not_mem_returnSuffix {c : Char} (hc : TypeName.isTypeChar c = false) (hcolon : c ≠ ':')
    (s : Signature) : c ∉ s.returnSuffix := by
  rw [returnSuffix]
  cases s.returnType with
  | none => exact List.not_mem_nil
  | some type =>
    intro hmem
    rcases List.mem_append.mp hmem with hmem | hmem
    · have hblank : c ≠ ' ' := by
        rintro rfl
        exact absurd hc (by decide)
      simp [hblank, hcolon] at hmem
    · exact Bool.false_ne_true (hc.symm.trans (List.all_eq_true.mp type.all_display c hmem))

theorem returnType_eq_of_returnSuffix (h : s.returnSuffix = s'.returnSuffix) :
    s.returnType = s'.returnType := by
  rw [returnSuffix, returnSuffix] at h
  cases htype : s.returnType with
  | none =>
    cases htype' : s'.returnType with
    | none => rfl
    | some t => rw [htype, htype'] at h; exact absurd h (by simp)
  | some t =>
    cases htype' : s'.returnType with
    | none => rw [htype, htype'] at h; exact absurd h (by simp)
    | some t' =>
      rw [htype, htype'] at h
      have hread := congrArg TypeName.ofText? (List.append_cancel_left h)
      rw [TypeName.ofText?_display, TypeName.ofText?_display] at hread
      exact hread

/-- **Two signatures with one text are one signature.** -/
theorem Legible.eq_of_display_eq (h : s.Legible) (h' : s'.Legible)
    (heq : s.display = s'.display) : s = s' := by
  have htext := congrArg String.toList heq
  rw [toList_display, toList_display] at htext
  obtain ⟨hname, hrest⟩ := Text.append_cons_inj h.1 h'.1 htext
  obtain ⟨hparams, htype⟩ := Text.append_cons_inj_right
    (not_mem_returnSuffix (by decide) (by decide) s)
    (not_mem_returnSuffix (by decide) (by decide) s') hrest
  have hread := congrArg Header.parameters hparams
  rw [h.2, h'.2] at hread
  obtain ⟨name, parameters, returnType⟩ := s
  obtain ⟨name', parameters', returnType'⟩ := s'
  obtain rfl : name = name' := String.toList_inj.mp hname
  obtain rfl : parameters = parameters' := hread
  obtain rfl : returnType = returnType' := returnType_eq_of_returnSuffix htype
  rfl

end Signature

namespace BlockKind

variable {k k' : BlockKind}

/-- What is shown behind the name of a kind. -/
def captured : BlockKind → Text
  | .ifBranch c | .elifBranch c | .whileLoop c => " (".toList ++ (c.toList ++ [')'])
  | .forLoop clause => ' ' :: clause.display.toList
  | .function s => ' ' :: s.display.toList
  | .main | .elseBranch | .plain => []

theorem toList_display (k : BlockKind) : k.display.toList = k.label.toList ++ k.captured := by
  cases k <;> simp [display, label, captured]

theorem newline_not_mem_label (k : BlockKind) : '\n' ∉ k.label.toList := by
  cases k <;> simp only [label] <;> decide

theorem captured_cases (k : BlockKind) : k.captured = [] ∨ ∃ cs, k.captured = ' ' :: cs := by
  cases k <;> first | exact .inl rfl | exact .inr ⟨_, rfl⟩

/-- **Two kinds of one name that show the same are one kind.** -/
theorem Legible.eq_of_captured_eq (h : k.Legible) (h' : k'.Legible) (hlabel : k.label = k'.label)
    (heq : k.captured = k'.captured) : k = k' := by
  have hcondition : ∀ {c c' : String}, " (".toList ++ (c.toList ++ [')']) =
      " (".toList ++ (c'.toList ++ [')']) → c = c' := fun heq =>
    String.toList_inj.mp (List.append_cancel_right (List.append_cancel_left heq))
  obtain ⟨hparted, -⟩ := h
  obtain ⟨hparted', -⟩ := h'
  cases k <;> cases k' <;> first
    | rfl
    | exact congrArg _ (hcondition heq)
    | exact congrArg _
        (hparted.eq_of_display_eq hparted' (String.toList_inj.mp (List.cons.inj heq).2))
    | exact absurd hlabel (by simp [label])

end BlockKind
end BraceTree
