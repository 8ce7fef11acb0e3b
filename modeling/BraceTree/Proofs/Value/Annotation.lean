import BraceTree.Proofs.Text.Sealed
import BraceTree.Value.Type

/-!
# Types are read back from their texts

A type inside another one stands in angle brackets, so the comma between the two arguments of a map
type is the only one that is not inside of further brackets: no comma cuts the text of a type
(`unsplit_display`). So a text comes apart into the texts that it was put together from, and reading
it gives the type back (`ofText?_display`).
-/

namespace BraceTree

namespace Text

variable {sep : Char} {a b : Text}

theorem splitFirst?_append (h : sep ∉ a) (b : Text) :
    splitFirst? sep (a ++ sep :: b) = some (a, b) := by
  induction a with
  | nil => rw [List.nil_append, splitFirst?, if_pos rfl]
  | cons c cs ih =>
    rw [List.cons_append, splitFirst?, if_neg (List.ne_of_not_mem_cons h).symm,
      ih (List.not_mem_of_not_mem_cons h)]
    rfl

theorem dropLast?_concat (last : Char) (t : Text) : dropLast? last (t ++ [last]) = some t := by
  rw [dropLast?, if_pos List.getLast?_concat, List.dropLast_concat]

end Text

namespace TypeName

/-! ## Cutting at commas -/

/-- No comma cuts the text when it starts at the given depth, and it ends at this depth. -/
def Unsplit (depth : Nat) (t : Text) : Prop :=
  ∀ rest, splitArgs depth (t ++ rest) = (splitArgs depth rest).modifyHead (t ++ ·)

namespace Unsplit

variable {depth : Nat} {a b t : Text}

theorem nil (depth : Nat) : Unsplit depth [] := fun rest => by
  rw [List.nil_append]
  cases splitArgs depth rest <;> rfl

theorem append (ha : Unsplit depth a) (hb : Unsplit depth b) : Unsplit depth (a ++ b) :=
  fun rest => by
    rw [List.append_assoc, ha, hb, List.modifyHead_modifyHead]
    congr 1
    funext t
    exact (List.append_assoc a b t).symm

theorem angles (h : Unsplit (depth + 1) t) : Unsplit depth ('<' :: (t ++ ['>'])) := fun rest => by
  have hopen : ∀ xs, splitArgs depth ('<' :: xs) =
      (splitArgs (depth + 1) xs).modifyHead ('<' :: ·) := fun _ => rfl
  have hclose : ∀ xs, splitArgs (depth + 1) ('>' :: xs) =
      (splitArgs depth xs).modifyHead ('>' :: ·) := fun _ => rfl
  rw [List.cons_append, List.append_assoc, hopen, h, List.singleton_append, hclose,
    List.modifyHead_modifyHead, List.modifyHead_modifyHead]
  congr 1
  funext u
  simp

theorem of_letters (h : t.all Text.isLetter) : Unsplit depth t := by
  induction t with
  | nil => exact nil depth
  | cons c cs ih =>
    intro rest
    obtain ⟨hc, hcs⟩ := (Bool.and_eq_true _ _).mp h
    have hne : ∀ d, Text.isLetter d = false → c ≠ d := by
      rintro d hd rfl
      exact Bool.false_ne_true (hd.symm.trans hc)
    rw [List.cons_append, splitArgs, if_neg (hne '<' (by decide)), if_neg (hne '>' (by decide)),
      if_neg (fun h => hne ',' (by decide) h.1), ih hcs, List.modifyHead_modifyHead]
    rfl

end Unsplit

/-! ## The text of a type -/

theorem toList_display_array (e : TypeName) : (array e).display.toList =
    "Array".toList ++ '<' :: (e.display.toList ++ ['>']) := by
  simp [display]

theorem toList_display_map (k v : TypeName) : (map k v).display.toList =
    "Map".toList ++ '<' :: ((k.display.toList ++ (", ".toList ++ v.display.toList)) ++ ['>']) := by
  simp [display]

/-- The characters of which the texts of types consist. -/
def isTypeChar (c : Char) : Bool := Text.isLetter c || c == '<' || c == '>' || c == ',' || c == ' '

theorem all_display (type : TypeName) : type.display.toList.all isTypeChar = true := by
  induction type with
  | string | integer | double | boolean => decide
  | array e ih =>
    rw [toList_display_array, List.all_append, List.all_cons, List.all_append, ih]
    decide
  | map k v ihk ihv =>
    rw [toList_display_map, List.all_append, List.all_cons, List.all_append, List.all_append,
      List.all_append, ihk, ihv]
    decide

/-- **No comma cuts the text of a type.** -/
theorem unsplit_display (type : TypeName) : ∀ depth, Unsplit depth type.display.toList := by
  induction type with
  | string | integer | double | boolean => exact fun depth => .of_letters (by decide)
  | array e ih =>
    intro depth
    rw [toList_display_array]
    exact .append (.of_letters (by decide)) (ih (depth + 1)).angles
  | map k v ihk ihv =>
    intro depth
    have hcomma : Unsplit (depth + 1) ", ".toList := fun rest => by
      show ((splitArgs (depth + 1) rest).modifyHead (' ' :: ·)).modifyHead (',' :: ·) = _
      rw [List.modifyHead_modifyHead]
      rfl
    rw [toList_display_map]
    exact .append (.of_letters (by decide))
      ((ihk (depth + 1)).append (hcomma.append (ihv (depth + 1)))).angles

/-! ## Reading the text of a type -/

/-- The text of a type starts with a letter and ends with a letter or an angle bracket. -/
theorem tight_display (type : TypeName) : Text.Tight type.display.toList := by
  cases type with
  | string | integer | double | boolean => exact .of_all (by decide) (by decide)
  | array e =>
    rw [toList_display_array, ← List.cons_append]
    exact .around (.of_all (by decide) (by decide)) _ (.of_all (by decide) (by decide))
  | map k v =>
    rw [toList_display_map, ← List.cons_append]
    exact .around (.of_all (by decide) (by decide)) _ (.of_all (by decide) (by decide))

/-- The two arguments of a map type are found again. -/
theorem arguments_display (k v : TypeName) :
    arguments (k.display.toList ++ (", ".toList ++ v.display.toList)) =
      [k.display.toList, v.display.toList] := by
  have hcomma : ∀ rest, splitArgs 0 (", ".toList ++ rest) =
      [] :: (splitArgs 0 rest).modifyHead (' ' :: ·) := fun _ => rfl
  have hlast : splitArgs 0 v.display.toList = [v.display.toList ++ []] := by
    have h := unsplit_display v 0 []
    rw [List.append_nil] at h
    exact h
  rw [arguments, unsplit_display k 0, hcomma, hlast]
  show [Text.trim (k.display.toList ++ []), Text.trim (v.display.toList ++ [])] = _
  rw [List.append_nil, List.append_nil, (tight_display k).trim_eq, (tight_display v).trim_eq]

/-- **A type is read back from its text**, if its arguments may nest deep enough. -/
theorem readWithin_display (type : TypeName) : ∀ depth, type.display.toList.length < depth →
    readWithin depth type.display.toList = some type := by
  induction type with
  | string | integer | double | boolean =>
    rintro (_ | depth) h
    · exact absurd h (Nat.not_lt_zero _)
    · rfl
  | array e ih =>
    rintro (_ | depth) h
    · exact absurd h (Nat.not_lt_zero _)
    · rw [readWithin, (tight_display _).trim_eq]
      rw [toList_display_array] at h ⊢
      rw [List.length_append, List.length_cons, List.length_append] at h
      rw [Text.splitFirst?_append (by decide)]
      dsimp only
      rw [Text.dropLast?_concat]
      dsimp only
      rw [if_pos (by decide), ih depth (by omega)]
      rfl
  | map k v ihk ihv =>
    rintro (_ | depth) h
    · exact absurd h (Nat.not_lt_zero _)
    · rw [readWithin, (tight_display _).trim_eq]
      rw [toList_display_map] at h ⊢
      rw [List.length_append, List.length_cons, List.length_append, List.length_append,
        List.length_append] at h
      rw [Text.splitFirst?_append (by decide)]
      dsimp only
      rw [Text.dropLast?_concat]
      dsimp only
      rw [if_neg (by decide), if_pos (by decide), arguments_display]
      dsimp only
      rw [ihk depth (by omega), ihv depth (by omega)]

theorem ofText?_display (type : TypeName) : ofText? type.display.toList = some type :=
  readWithin_display type _ (Nat.lt_succ_self _)

end TypeName
end BraceTree
