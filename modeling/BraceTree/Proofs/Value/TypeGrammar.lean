import BraceTree.Proofs.Header.Captured

/-!
# The grammar of type annotations

What the texts of types are, said as a grammar: a name, or a name and arguments in angle brackets,
with blanks anywhere around these (`Annotates`). The reader does not follow it. It looks for the
first opening bracket, asks whether the very last character closes it, and cuts what is between them
at the commas that no bracket encloses, while a closing bracket that nothing opened is passed over.

What is read is derived (`annotates_of_readWithin`), and for this nothing has to be known of the
brackets: the pieces with the commas between them are the inside of the brackets, whatever was
counted. So where a bracket is missing or left over, or a comma too many, it ends up in an argument,
and no argument is read with it. What is derived is read (`Annotates.readWithin`), since a derived
text is not cut at any depth (`Annotates.unsplit`).
-/

namespace BraceTree.TypeName

/-- The types without arguments, by the names that they are read from. -/
def names : List (String × TypeName) :=
  [("String", .string), ("Integer", .integer), ("Double", .double), ("Boolean", .boolean)]

/-- **A text that annotates a type.** -/
inductive Annotates : Text → TypeName → Prop
  /-- A name, perhaps with blanks around it. -/
  | name {pre post : Text} {word : String} {type : TypeName}
      (hpre : Text.isBlankText pre = true) (h : (word, type) ∈ names)
      (hpost : Text.isBlankText post = true) : Annotates (pre ++ (word.toList ++ post)) type
  /-- The type of the elements between angle brackets. -/
  | array {pre gap inner post : Text} {e : TypeName} (hpre : Text.isBlankText pre = true)
      (hgap : Text.isBlankText gap = true) (h : Annotates inner e)
      (hpost : Text.isBlankText post = true) :
      Annotates (pre ++ ((("Array".toList ++ gap) ++ '<' :: (inner ++ ['>'])) ++ post)) (.array e)
  /-- The types of the keys and of the values, with a comma between them. -/
  | map {pre gap a b post : Text} {k v : TypeName} (hpre : Text.isBlankText pre = true)
      (hgap : Text.isBlankText gap = true) (hkey : Annotates a k) (hvalue : Annotates b v)
      (hpost : Text.isBlankText post = true) :
      Annotates (pre ++ ((("Map".toList ++ gap) ++ '<' :: ((a ++ ',' :: b) ++ ['>'])) ++ post))
        (.map k v)

variable {t pre gap inner post : Text} {type k v : TypeName} {depth : Nat}

namespace Annotates

/-- **Blanks around a text make no difference** to the type that it annotates. -/
theorem between (hpre : Text.isBlankText pre = true) (h : Annotates t type)
    (hpost : Text.isBlankText post = true) : Annotates (pre ++ (t ++ post)) type := by
  have hjoin : ∀ {a b : Text}, Text.isBlankText a = true → Text.isBlankText b = true →
      Text.isBlankText (a ++ b) = true := fun ha hb => by
    rw [Text.isBlankText, List.all_append, Bool.and_eq_true]
    exact ⟨ha, hb⟩
  have hsplit : ∀ pre' core post' : Text, pre ++ ((pre' ++ (core ++ post')) ++ post) =
      (pre ++ pre') ++ (core ++ (post' ++ post)) := fun pre' core post' => by
    simp only [List.append_assoc]
  cases h with
  | name hpre' h hpost' =>
    rw [hsplit]
    exact .name (hjoin hpre hpre') h (hjoin hpost' hpost)
  | array hpre' hgap h hpost' =>
    rw [hsplit]
    exact .array (hjoin hpre hpre') hgap h (hjoin hpost' hpost)
  | map hpre' hgap hkey hvalue hpost' =>
    rw [hsplit]
    exact .map (hjoin hpre hpre') hgap hkey hvalue (hjoin hpost' hpost)

theorem of_trim (h : Annotates (Text.trim t) type) : Annotates t type := by
  obtain ⟨post, hpost, ht⟩ := Text.eq_append_trim t
  rw [ht]
  exact between (Text.isBlankText_takeWhile t) h hpost

end Annotates

/-! ## What is read is derived -/

theorem annotates_of_ofName? (h : ofName? t = some type) : Annotates t type := by
  have hword : ∃ word, (word, type) ∈ names ∧ t = word.toList := by
    unfold ofName? at h
    split at h
    · next ht => exact ⟨"String", by simp [names, ← Option.some.inj h], ht⟩
    split at h
    · next ht => exact ⟨"Integer", by simp [names, ← Option.some.inj h], ht⟩
    split at h
    · next ht => exact ⟨"Double", by simp [names, ← Option.some.inj h], ht⟩
    split at h
    · next ht => exact ⟨"Boolean", by simp [names, ← Option.some.inj h], ht⟩
    · cases h
  obtain ⟨word, hmem, rfl⟩ := hword
  have hname : Annotates ([] ++ (word.toList ++ [])) type := .name rfl hmem rfl
  rwa [List.nil_append, List.append_nil] at hname

/-- **Two arguments are two texts with a comma between them**, whatever brackets are in them. -/
theorem exists_of_arguments {x y : Text} (h : arguments t = [x, y]) :
    ∃ a b, t = a ++ ',' :: b ∧ Text.trim a = x ∧ Text.trim b = y := by
  obtain ⟨a, rest, hsplit, ha, hrest⟩ := List.map_eq_cons_iff.mp h
  obtain ⟨b, rfl, hb⟩ := List.map_eq_singleton_iff.mp hrest
  refine ⟨a, b, ?_, ha, hb⟩
  have hsep : ∀ c, argRole c = .separates → c = ',' := fun c hc => by
    unfold argRole at hc
    split at hc
    · cases hc
    split at hc
    · cases hc
    split at hc
    · assumption
    · cases hc
  have hjoined := Cut.intercalate_pieces hsep t 0
  rw [← splitArgs_eq, hsplit, List.intercalate_cons_cons, List.intercalate_singleton,
    List.append_assoc] at hjoined
  exact hjoined.symm

/-- **What is read is derived.** -/
theorem annotates_of_readWithin : ∀ {depth : Nat} {t : Text} {type : TypeName},
    readWithin depth t = some type → Annotates t type
  | 0, _, _, h => nomatch h
  | depth + 1, t, type, h => by
    refine .of_trim ?_
    rw [readWithin] at h
    rcases Text.splitFirst?_cases '<' (Text.trim t) with ⟨hnone, -⟩ | ⟨base, rest, hsome, ht, -⟩
    · rw [hnone] at h
      exact annotates_of_ofName? h
    rw [hsome] at h
    rw [ht]
    dsimp only at h
    split at h
    · cases h
    next inner hinner =>
    rw [Text.dropLast?_eq_some hinner]
    -- the name stands between blanks, and those before it are before the whole
    obtain ⟨gap, hgap, hbase⟩ := Text.eq_append_trim base
    have hblanks := Text.isBlankText_takeWhile base
    have hnone : Text.isBlankText [] = true := rfl
    split at h
    · next hword =>
      obtain ⟨e, he, rfl⟩ := Option.map_eq_some_iff.mp h
      have harray := Annotates.array hblanks hgap (annotates_of_readWithin he) hnone
      rw [List.append_nil, ← hword, ← List.append_assoc, ← hbase] at harray
      exact harray
    split at h
    · next hword =>
      split at h
      · next x y hargs =>
        split at h
        · next k v hk hv =>
          obtain rfl := Option.some.inj h
          obtain ⟨a, b, rfl, rfl, rfl⟩ := exists_of_arguments hargs
          have hmap := Annotates.map hblanks hgap (annotates_of_readWithin hk).of_trim
            (annotates_of_readWithin hv).of_trim hnone
          rw [List.append_nil, ← hword, ← List.append_assoc, ← hbase] at hmap
          exact hmap
        · cases h
      · cases h
    · cases h

/-! ## What is derived is read -/

namespace Unsplit

/-- Characters that mean nothing to the cut are not cut. -/
theorem of_plain (h : ∀ c ∈ t, argRole c = .plain) : Unsplit depth t := fun rest => by
  have hwalk : Cut.walk? argRole depth t = some depth := by
    rw [← Cut.walk?_filter, List.filter_eq_nil_iff.mpr fun c hc => by simp [h c hc]]
    rfl
  rw [splitArgs_eq, splitArgs_eq, Cut.pieces_of_walk? rest t hwalk]

theorem of_isBlankText (h : Text.isBlankText t = true) : Unsplit depth t :=
  of_plain fun c hc => argRole_of_isBlank (List.all_eq_true.mp h c hc)

/-- A comma between brackets is not cut. -/
theorem comma (depth : Nat) : Unsplit (depth + 1) [','] := fun _ => rfl

end Unsplit

/-- What is between two texts that are not cut is where they are cut. -/
theorem arguments_append {a b : Text} (ha : Unsplit 0 a) (hb : Unsplit 0 b) :
    arguments (a ++ ',' :: b) = [Text.trim a, Text.trim b] := by
  have hcomma : splitArgs 0 (',' :: b) = [] :: splitArgs 0 b := rfl
  have hlast : splitArgs 0 b = [b ++ []] := by
    have hend := hb []
    rw [List.append_nil] at hend
    exact hend
  rw [arguments, ha, hcomma, hlast, List.modifyHead_cons, List.append_nil, List.append_nil]
  rfl

theorem readWithin_trim (depth : Nat) (t : Text) :
    readWithin depth (Text.trim t) = readWithin depth t := by
  cases depth with
  | zero => rfl
  | succ depth => rw [readWithin, readWithin, Text.trim_trim]

/-- The parts of a type with arguments, as the reader finds them. -/
theorem parts_of_angles (word : String) (hpre : Text.isBlankText pre = true)
    (hword : Text.Tight word.toList) (hangle : '<' ∉ word.toList)
    (hgap : Text.isBlankText gap = true) (inner : Text) (hpost : Text.isBlankText post = true) :
    Text.splitFirst? '<' (Text.trim
        (pre ++ (((word.toList ++ gap) ++ '<' :: (inner ++ ['>'])) ++ post))) =
      some (word.toList ++ gap, inner ++ ['>']) ∧
    Text.trim (word.toList ++ gap) = word.toList := by
  have hclose : Text.Tight ['>'] := .of_all (by decide) (by decide)
  have htight : Text.Tight ((word.toList ++ gap) ++ '<' :: (inner ++ ['>'])) := by
    have haround := hword.around (gap ++ '<' :: inner) hclose
    simpa using haround
  have hbase : '<' ∉ word.toList ++ gap := fun hmem => by
    rcases List.mem_append.mp hmem with hmem | hmem
    · exact hangle hmem
    · exact absurd (List.all_eq_true.mp hgap '<' hmem) (by decide)
  constructor
  · rw [htight.trim_between hpre hpost, Text.splitFirst?_append hbase]
  · exact hword.trim_between (show Text.isBlankText [] = true from rfl) hgap

namespace Annotates

/-- **No comma cuts a text that annotates a type.** -/
theorem unsplit (h : Annotates t type) : ∀ depth, Unsplit depth t := by
  have hletters : ∀ p ∈ names, p.1.toList.all Text.isLetter = true := by decide
  induction h with
  | name hpre h hpost =>
    exact fun depth => .append (.of_isBlankText hpre)
      (.append (.of_letters (hletters _ h)) (.of_isBlankText hpost))
  | array hpre hgap _ hpost ih =>
    exact fun depth => .append (.of_isBlankText hpre) (.append
      (.append (.append (.of_letters (by decide)) (.of_isBlankText hgap)) (ih (depth + 1)).angles)
      (.of_isBlankText hpost))
  | map hpre hgap _ _ hpost ihkey ihvalue =>
    exact fun depth => .append (.of_isBlankText hpre) (.append
      (.append (.append (.of_letters (by decide)) (.of_isBlankText hgap))
        ((ihkey (depth + 1)).append ((Unsplit.comma depth).append (ihvalue (depth + 1)))).angles)
      (.of_isBlankText hpost))

/-- **What is derived is read**, to a depth that the length of the text bounds. -/
theorem readWithin (h : Annotates t type) :
    ∀ depth, t.length < depth → TypeName.readWithin depth t = some type := by
  induction h with
  | @name pre post word type hpre h hpost =>
    have hread : ∀ p ∈ names, Text.splitFirst? '<' (Text.trim p.1.toList) = none ∧
        ofName? (Text.trim p.1.toList) = some p.2 := by decide
    obtain ⟨hsplit, hname⟩ := hread _ h
    rintro (_ | depth) hdepth
    · exact absurd hdepth (Nat.not_lt_zero _)
    · rw [TypeName.readWithin, Text.trim_between _ hpre hpost, hsplit]
      exact hname
  | @array pre gap inner post e hpre hgap _ hpost ih =>
    obtain ⟨hsplit, hname⟩ := parts_of_angles "Array" hpre
      (.of_all (by decide) (by decide)) (by decide) hgap inner hpost
    rintro (_ | depth) hdepth
    · exact absurd hdepth (Nat.not_lt_zero _)
    · have hinner : inner.length < depth := by
        simp only [List.length_append, List.length_cons] at hdepth
        omega
      rw [TypeName.readWithin, hsplit]
      dsimp only
      rw [Text.dropLast?_concat]
      dsimp only
      rw [hname, if_pos rfl, ih depth hinner]
      rfl
  | @map pre gap a b post k v hpre hgap hkey hvalue hpost ihkey ihvalue =>
    obtain ⟨hsplit, hname⟩ := parts_of_angles "Map" hpre
      (.of_all (by decide) (by decide)) (by decide) hgap (a ++ ',' :: b) hpost
    rintro (_ | depth) hdepth
    · exact absurd hdepth (Nat.not_lt_zero _)
    · have hinner : a.length < depth ∧ b.length < depth := by
        simp only [List.length_append, List.length_cons] at hdepth
        omega
      rw [TypeName.readWithin, hsplit]
      dsimp only
      rw [Text.dropLast?_concat]
      dsimp only
      rw [hname, if_neg (by decide), if_pos rfl,
        arguments_append (hkey.unsplit 0) (hvalue.unsplit 0)]
      dsimp only
      rw [readWithin_trim, readWithin_trim, ihkey depth hinner.1, ihvalue depth hinner.2]

end Annotates

/-- **A reader with enough depth reads what the grammar derives.** -/
theorem readWithin_eq_some_iff (h : t.length < depth) :
    readWithin depth t = some type ↔ Annotates t type :=
  ⟨annotates_of_readWithin, fun hannotates => hannotates.readWithin depth h⟩

/-- Types with the same text are the same. -/
theorem display_injective : Function.Injective display := fun a b h => by
  have hread := ofText?_display a
  rw [h, ofText?_display] at hread
  exact (Option.some.inj hread).symm

/-- **Type annotations are what the grammar derives.** A text is read as a type exactly if it
annotates the type, and a reader that may go deeper reads the same. The text of a type is read as
the type, so it is the one text that all annotations of the type are shown as. -/
theorem ofText?_eq_some_iff_annotates (t : Text) :
    (∀ type, ofText? t = some type ↔ Annotates t type) ∧
    (∀ more, readWithin (t.length + 1 + more) t = ofText? t) ∧
    (∀ type : TypeName, ofText? type.display.toList = some type) ∧
    ∀ u, (ofText? t).map display = (ofText? u).map display ↔ ofText? t = ofText? u := by
  refine ⟨fun type => readWithin_eq_some_iff (Nat.lt_succ_self _), fun more => ?_, ofText?_display,
    fun u => (Option.map_injective display_injective).eq_iff⟩
  ext type
  exact (readWithin_eq_some_iff (by omega)).trans
    (readWithin_eq_some_iff (Nat.lt_succ_self _)).symm

/-- Blanks of any kind may stand around each part. -/
example : ofText? " Map\u2003<String ,\tArray < Double>\n> ".toList =
    some (.map .string (.array .double)) := by decide

/-- A bracket too many goes to the argument, and no argument has one. -/
example : ofText? "Map<Array<Integer>>, Integer>".toList = none := by decide

end BraceTree.TypeName
