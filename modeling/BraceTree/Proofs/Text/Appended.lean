import BraceTree.Proofs.Text.Border
import BraceTree.Text.Line

/-!
# Text on the lines after a source

A source may go on: behind a newline there is room for more text. What was cut out of the source is
cut out of the longer one just as well, since positions count from the start. The lines of the
source are the first lines of the longer one, and a position in the source is looked up among the
same lines. A part that starts in the source and ends in the new text is cut by the newline.
-/

namespace BraceTree

namespace Text

variable {source further : Text} {lo hi : Nat}

theorem bytes_append_newline (source further : Text) :
    bytes (source ++ '\n' :: further) = source.bytes + 1 + further.bytes := by
  rw [bytes_append, bytes_cons, Nat.add_assoc]
  rfl

/-- The position behind the newline is a border. -/
theorem border_newline (source further : Text) :
    Border (source ++ '\n' :: further) (source.bytes + 1) :=
  ⟨source ++ ['\n'], further, List.append_cons _ _ _, bytes_append _ _⟩

/-- The first bytes of a text. -/
theorem slice_zero_append (a b : Text) : slice (a ++ b) ⟨0, a.bytes⟩ = a := by
  have hcut := slice_append [] a b
  rwa [List.nil_append, bytes_nil, Nat.zero_add] at hcut

/-- **A part of a text stays where it is** when more text follows. -/
theorem slice_append_left (hlo : Border source lo) (hhi : Border source hi) (further : Text) :
    slice (source ++ further) ⟨lo, hi⟩ = slice source ⟨lo, hi⟩ := by
  by_cases hle : lo ≤ hi
  · obtain ⟨a, m, b, rfl, rfl, rfl⟩ := hlo.exists_text hhi hle
    rw [List.append_assoc a, List.append_assoc m, slice_append, slice_append]
  · have hge := Nat.le_of_not_le hle
    rw [slice_of_stop_le _ hge, slice_of_stop_le _ hge]

/-- **A part that starts before a newline and ends behind it is cut in two by it.** -/
theorem slice_across (hlo : Border source lo) (hhi : Border (source ++ '\n' :: further) hi)
    (hle : source.bytes + 1 ≤ hi) :
    slice (source ++ '\n' :: further) ⟨lo, hi⟩ = slice source ⟨lo, source.bytes⟩ ++
      '\n' :: slice (source ++ '\n' :: further) ⟨source.bytes + 1, hi⟩ := by
  obtain ⟨a, m, b, hsplit, hbefore, rfl⟩ := (border_newline source further).exists_text hhi hle
  obtain ⟨rfl, rfl⟩ := append_inj_of_bytes_eq
    (hsplit.symm.trans (List.append_cons source '\n' further))
    (hbefore.trans (bytes_append source ['\n']).symm)
  obtain ⟨c, d, rfl, rfl⟩ := hlo
  have hleft : slice (c ++ d) ⟨bytes c, bytes (c ++ d)⟩ = d := by
    rw [bytes_append]
    simpa using slice_append c d []
  have hright : slice (c ++ d ++ '\n' :: (m ++ b)) ⟨bytes (c ++ d) + 1,
      bytes (c ++ d ++ ['\n']) + bytes m⟩ = m := by
    rw [hsplit, ← hbefore]
    exact slice_append _ m b
  have hall : slice (c ++ d ++ '\n' :: (m ++ b))
      ⟨bytes c, bytes (c ++ d ++ ['\n']) + bytes m⟩ = d ++ '\n' :: m := by
    have := slice_append c (d ++ '\n' :: m) b
    simpa [Nat.add_assoc] using this
  rw [hleft, hright, hall]

theorem splitAt_ne_nil (sep : Char) (t : Text) : splitAt sep t ≠ [] := by
  induction t with
  | nil => exact List.cons_ne_nil [] []
  | cons c cs ih =>
    rw [splitAt]
    split
    · exact List.cons_ne_nil _ _
    · obtain ⟨p, ps, heq⟩ := List.exists_cons_of_ne_nil ih
      rw [heq]
      exact List.cons_ne_nil _ _

/-- **The pieces of two texts with a separator between them** are the pieces of either. -/
theorem splitAt_append (sep : Char) (a b : Text) :
    splitAt sep (a ++ sep :: b) = splitAt sep a ++ splitAt sep b := by
  induction a with
  | nil =>
    show splitAt sep (sep :: b) = [] :: splitAt sep b
    rw [splitAt, if_pos rfl]
  | cons c cs ih =>
    rw [List.cons_append, splitAt, splitAt, ih]
    split
    · rfl
    · obtain ⟨p, ps, heq⟩ := List.exists_cons_of_ne_nil (splitAt_ne_nil sep cs)
      rw [heq]
      rfl

/-- The bytes of lines, each with a newline at its end. -/
def lineBytes : List Text → Nat
  | [] => 0
  | t :: ts => t.bytes + 1 + lineBytes ts

/-- There is one line more than there are newlines. -/
theorem lineBytes_splitAt (t : Text) : lineBytes (splitAt '\n' t) = t.bytes + 1 := by
  induction t with
  | nil => rfl
  | cons c cs ih =>
    rw [splitAt, bytes_cons]
    split
    · rename_i hc
      subst hc
      show 0 + 1 + lineBytes (splitAt '\n' cs) = 1 + Text.bytes cs + 1
      omega
    · obtain ⟨p, ps, heq⟩ := List.exists_cons_of_ne_nil (splitAt_ne_nil '\n' cs)
      rw [heq] at ih ⊢
      rw [lineBytes] at ih
      rw [List.modifyHead_cons, lineBytes, bytes_cons]
      omega

end Text

namespace Line

variable {source further : Text} {l : Line}

theorem enumerate_append (ts us : List Text) : ∀ index start,
    enumerate index start (ts ++ us) = enumerate index start ts ++
      enumerate (index + ts.length) (start + Text.lineBytes ts) us := by
  induction ts with
  | nil => exact fun _ _ => rfl
  | cons t ts ih =>
    intro index start
    rw [List.cons_append, enumerate, ih, enumerate, List.cons_append, List.length_cons,
      Text.lineBytes]
    have hindex : index + 1 + ts.length = index + (ts.length + 1) := by omega
    have hstart : start + t.bytes + 1 + Text.lineBytes ts =
        start + (t.bytes + 1 + Text.lineBytes ts) := by omega
    rw [hindex, hstart]

/-- Lines stand one behind the other, and each is as long as its text. -/
theorem of_mem_enumerate {ts : List Text} : ∀ {index start : Nat}, l ∈ enumerate index start ts →
    start ≤ l.span.start ∧ l.span.stop = l.span.start + Text.bytes l.text.toList ∧
      l.span.stop + 1 ≤ start + Text.lineBytes ts := by
  induction ts with
  | nil => exact fun hl => absurd hl List.not_mem_nil
  | cons t ts ih =>
    intro index start hl
    rw [Text.lineBytes]
    rcases List.mem_cons.mp hl with rfl | hl
    · refine ⟨Nat.le_refl _, by rw [String.toList_ofList], ?_⟩
      show start + t.bytes + 1 ≤ _
      omega
    · have := ih hl
      omega

/-- **The lines of a source come first**, and the others start behind the newline. -/
theorem exists_ofSource_append (source further : Text) :
    ∃ more, ofSource (source ++ '\n' :: further) = ofSource source ++ more ∧
      ∀ l ∈ more, source.bytes < l.span.start := by
  refine ⟨_, by rw [ofSource, Text.splitAt_append, enumerate_append]; rfl, fun l hl => ?_⟩
  have hstart := (of_mem_enumerate hl).1
  rw [Text.lineBytes_splitAt] at hstart
  omega

/-- The lines up to a position are the same. -/
def AgreeUpTo (stop : Nat) (lines lines' : List Line) : Prop :=
  ∀ offset ≤ stop, indexAt lines' offset = indexAt lines offset

/-- **A position in a source is in the same line** when more lines follow. -/
theorem agreeUpTo_append (source further : Text) :
    AgreeUpTo source.bytes (ofSource source) (ofSource (source ++ '\n' :: further)) := by
  intro offset h
  obtain ⟨more, heq, hmore⟩ := exists_ofSource_append source further
  have hnone : (more.takeWhile fun l => decide (l.span.start ≤ offset)) = [] := by
    cases more with
    | nil => rfl
    | cons l ls =>
      have := hmore l List.mem_cons_self
      rw [List.takeWhile_cons, if_neg (by rw [decide_eq_true_eq]; omega)]
  rw [indexAt, indexAt, heq, List.takeWhile_append, hnone, List.append_nil]
  split
  · rename_i hall
    rw [hall]
  · rfl

/-- A span in a source touches the same lines. -/
theorem indicesIn_append {s : Span} (hstart : s.start ≤ source.bytes)
    (hstop : s.stop ≤ source.bytes) (further : Text) :
    indicesIn (ofSource (source ++ '\n' :: further)) s = indicesIn (ofSource source) s := by
  have hne : ∀ t : Text, (ofSource t).isEmpty = false := fun t => by
    obtain ⟨p, ps, heq⟩ := List.exists_cons_of_ne_nil (Text.splitAt_ne_nil '\n' t)
    rw [ofSource, heq]
    rfl
  rw [indicesIn, indicesIn, hne, hne, agreeUpTo_append source further _ hstart,
    agreeUpTo_append source further _ (by omega)]

/-- What a line of a source says starts in the source. -/
theorem contentOffset_le (hl : l ∈ ofSource source) :
    l.contentOffset?.getD l.span.start ≤ source.bytes := by
  obtain ⟨-, hspan, hstop⟩ := of_mem_enumerate hl
  rw [Text.lineBytes_splitAt] at hstop
  rw [contentOffset?]
  split
  · show l.span.start ≤ source.bytes
    omega
  · show l.span.start + Text.bytes (l.text.toList.takeWhile Text.isBlank) ≤ source.bytes
    have hbytes := congrArg Text.bytes
      (List.takeWhile_append_dropWhile (p := Text.isBlank) (l := l.text.toList))
    rw [Text.bytes_append] at hbytes
    omega

end Line
end BraceTree
