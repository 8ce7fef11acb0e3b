import BraceTree.Command.Arguments

/-!
# Command lines without their action

A command line may leave out the word `parse` in front of the name of a file. Its options come
before that name, and one of them, `--config`, may have its value in a word of its own. `expand`
knows nothing of options: it takes the first word without a dash for the name of the file, while
reading takes such a word behind `--config` for the value.

The two agree as long as no value is such a bare word (`expand_wordsOf`). The first one that is
becomes the word that `expand` looks at. Unless it happens to name an action, `parse` is put in
front of it (`expand_wordsOf_config`), where `--config` takes `parse` for its value. The value
proper is then read as the name of an action, and there is no such action.

So leaving `parse` out is the same as writing it exactly where no value is a bare word. Elsewhere
the command line is wrong (`expand_wordsOf_iff`). Not even writing the action helps, as `parse` is
put in front of a value all the same. That it is wrong takes no more of a reading than that it
refuses a bare word behind options unless the word names an action (`KnowsActions`).
-/

namespace BraceTree.Command

/-- An option that every action knows, in one of the forms in which it is written. -/
inductive GlobalOption where
  /-- `--no-color` -/
  | noColor
  /-- `-v` -/
  | letter
  /-- `--verbose` -/
  | verbose
  /-- `--config PATH`, in two words. -/
  | config (path : String)
  /-- `--config=PATH`, in one word. -/
  | configWith (path : String)

namespace GlobalOption

/-- The words of an option. -/
def words : GlobalOption → List String
  | noColor => ["--no-color"]
  | letter => ["-v"]
  | verbose => ["--verbose"]
  | config path => ["--config", path]
  | configWith path => ["--config=" ++ path]

/-- The words of some options. -/
def wordsOf (options : List GlobalOption) : List String := options.flatMap words

/-- The word of an option that has no dash in front. -/
def bare? : GlobalOption → Option String
  | config path => if startsWithDash path then none else some path
  | _ => none

/-- The first word without a dash among the words of some options. -/
def firstBare? (options : List GlobalOption) : Option String := options.findSome? bare?

variable {o : GlobalOption} {options before after : List GlobalOption} {path file word : String}
  {front rest : List String}

theorem wordsOf_append (before after : List GlobalOption) :
    wordsOf (before ++ after) = wordsOf before ++ wordsOf after := List.flatMap_append

theorem wordsOf_cons (o : GlobalOption) (options : List GlobalOption) :
    wordsOf (o :: options) = o.words ++ wordsOf options := rfl

/-- Only `--config` in two words has a bare word. -/
theorem eq_config_of_bare? (h : o.bare? = some path) :
    o = config path ∧ startsWithDash path = false := by
  cases o with
  | config p =>
    rw [bare?] at h
    split at h
    · simp at h
    · next hp => cases h; exact ⟨rfl, by simpa using hp⟩
  | _ => simp [bare?] at h

/-- The first bare word cuts the options in front of it off. -/
theorem exists_of_firstBare? (h : firstBare? options = some path) :
    ∃ before after, options = before ++ config path :: after ∧ firstBare? before = none ∧
      startsWithDash path = false := by
  obtain ⟨before, o, after, rfl, ho, hbefore⟩ := List.findSome?_eq_some_iff.mp h
  obtain ⟨rfl, hpath⟩ := eq_config_of_bare? ho
  exact ⟨before, after, rfl, List.findSome?_eq_none_iff.mpr hbefore, hpath⟩

/-! ## Putting the action in -/

/-- An option without a bare word is made of words with a dash. -/
theorem startsWithDash_of_mem_words (h : o.bare? = none) (hword : word ∈ o.words) :
    startsWithDash word = true := by
  cases o with
  | config path =>
    rw [bare?] at h
    split at h
    · next hpath =>
      obtain rfl | rfl : word = "--config" ∨ word = path := by simpa [words] using hword
      · decide
      · exact hpath
    · simp at h
  | configWith path =>
    obtain rfl : word = "--config=" ++ path := by simpa [words] using hword
    simp [startsWithDash]
  | _ =>
    cases List.mem_singleton.mp hword
    decide

/-- `expand` goes past the words that start with a dash. -/
theorem expand_append (h : ∀ word ∈ front, startsWithDash word = true) (rest : List String) :
    expand (front ++ rest) = front ++ expand rest := by
  induction front with
  | nil => rfl
  | cons word front ih =>
    rw [List.cons_append, expand, if_pos (h word (by simp)),
      ih fun word hword => h word (by simp [hword]), List.cons_append]

/-- **Options without a bare word are left alone.** -/
theorem expand_wordsOf (h : firstBare? options = none) (rest : List String) :
    expand (wordsOf options ++ rest) = wordsOf options ++ expand rest := by
  refine expand_append (fun word hword => ?_) rest
  obtain ⟨o, ho, hword⟩ := List.mem_flatMap.mp hword
  exact startsWithDash_of_mem_words (List.findSome?_eq_none_iff.mp h o ho) hword

theorem expand_action (h : word ∈ actionNames) (rest : List String) :
    expand (word :: rest) = word :: rest := by
  have hdash : startsWithDash word = false := by
    revert word
    decide
  rw [expand, hdash, if_neg Bool.false_ne_true, if_pos (List.contains_iff_mem.mpr h)]

theorem expand_bare (hdash : startsWithDash word = false) (h : word ∉ actionNames)
    (rest : List String) : expand (word :: rest) = "parse" :: word :: rest := by
  rw [expand, hdash, if_neg Bool.false_ne_true,
    if_neg fun hword => h (List.contains_iff_mem.mp hword)]

/-- What `expand` does with options up to the first bare word. -/
theorem expand_wordsOf_config (h : firstBare? before = none) (after : List GlobalOption)
    (rest : List String) :
    expand (wordsOf (before ++ config path :: after) ++ rest) =
      wordsOf before ++ "--config" :: expand (path :: (wordsOf after ++ rest)) := by
  rw [wordsOf_append, List.append_assoc, expand_wordsOf h]
  rfl

/-! ## Reading the options -/

/-- Giving an option that is neither help nor the version fails only where it must not stand. -/
theorem addOption_cases (name : OptionName) (hhelp : name ≠ .help) (hversion : name ≠ .version)
    (value : String) (g : Given) :
    g.addOption name value = .error .usage ∨ ∃ g', g.addOption name value = .ok g' := by
  rw [Given.addOption, if_neg hhelp, if_neg hversion]
  split
  · exact .inl rfl
  · split
    · exact .inl rfl
    · exact .inr ⟨_, rfl⟩

/-- An option in one word gives what it stands for. -/
theorem readLevel_option (name : OptionName) (value : String) {g : Given} (hdashes : word ≠ "--")
    (hdash : startsWithDash word = true) (hsingle : word ≠ "-") (hhelp : name ≠ .help)
    (hversion : name ≠ .version)
    (hread : readOption .outer word g = (g.addOption name value).map fun g => (g, none))
    (rest : List String) :
    readLevel .outer (word :: rest) g = .error .usage ∨
      ∃ g', readLevel .outer (word :: rest) g = readLevel .outer rest g' := by
  rw [readLevel, if_neg hdashes, hdash, bne_iff_ne.mpr hsingle, if_pos rfl, hread]
  obtain hadd | ⟨g', hadd⟩ := addOption_cases name hhelp hversion value g
  · rw [hadd]
    exact .inl rfl
  · rw [hadd]
    exact .inr ⟨g', rfl⟩

/-- Reading an option goes on behind it, or the command line is wrong. -/
theorem readLevel_words (o : GlobalOption) (rest : List String) (g : Given) :
    readLevel .outer (o.words ++ rest) g = .error .usage ∨
      ∃ g', readLevel .outer (o.words ++ rest) g = readLevel .outer rest g' := by
  cases o with
  | configWith path =>
    have htext : ("--config=" ++ path).toList = "--config=".toList ++ path.toList :=
      String.toList_append
    refine readLevel_option .config path (fun heq => ?_) ?_ (fun heq => ?_)
      (by decide) (by decide) ?_ rest
    · simpa [heq] using congrArg List.length htext
    · simp [startsWithDash]
    · simpa [heq] using congrArg List.length htext
    · simp [readOption, htext, readLong, splitEquals, Level.options, OptionName.long,
        OptionName.takesValue]
  | config path =>
    have hread : readOption .outer "--config" g = .ok (g, some .config) := rfl
    rw [words, List.cons_append, readLevel, if_neg (by decide), if_pos (by decide), hread]
    simp only [List.cons_append, List.nil_append]
    split
    · exact .inl rfl
    · obtain hadd | ⟨g', hadd⟩ := addOption_cases .config (by decide) (by decide) path g
      · rw [hadd]
        exact .inl rfl
      · rw [hadd]
        exact .inr ⟨g', rfl⟩
  | _ =>
    exact readLevel_option _ _ (by decide) (by decide) (by decide) (by decide) (by decide) rfl rest

/-- Reading options goes on behind them, or the command line is wrong. -/
theorem readLevel_wordsOf (options : List GlobalOption) (rest : List String) (g : Given) :
    readLevel .outer (wordsOf options ++ rest) g = .error .usage ∨
      ∃ g', readLevel .outer (wordsOf options ++ rest) g = readLevel .outer rest g' := by
  induction options generalizing g with
  | nil => exact .inr ⟨g, rfl⟩
  | cons o options ih =>
    rw [wordsOf_cons, List.append_assoc]
    obtain hread | ⟨g', hread⟩ := readLevel_words o (wordsOf options ++ rest) g
    · exact .inl hread
    · rw [hread]
      exact ih g'

/-- **A reading of command lines that knows the actions by their names.** Behind options, where the
name of an action belongs, it refuses every other word without a dash. -/
def KnowsActions {α : Type} (read : List String → Except Stop α) : Prop :=
  ∀ (options : List GlobalOption) (word : String) (rest : List String),
    startsWithDash word = false → word ∉ actionNames →
      read (wordsOf options ++ word :: rest) = .error .usage

/-- The actions are known in reading a request. -/
theorem knowsActions_read : KnowsActions Request.read := by
  intro options word rest hdash h
  obtain hread | ⟨g, hread⟩ := readLevel_wordsOf options (word :: rest) {}
  · rw [Request.read, hread]
    rfl
  · have hdashes : word ≠ "--" := by
      rintro rfl
      exact absurd hdash (by decide)
    have hlevel : readLevel .outer (word :: rest) g = .ok (g, word :: rest) := by
      rw [readLevel, if_neg hdashes, hdash, Bool.false_and, if_neg Bool.false_ne_true, if_pos rfl]
    simp only [actionNames, List.mem_cons, List.not_mem_nil, or_false, not_or] at h
    rw [Request.read, hread, hlevel]
    simp [Except.bind, h]

/-! ## Leaving the action out -/

/-- **A bare word that names an action keeps everything as it is.** -/
theorem expand_of_firstBare?_mem (hoptions : firstBare? options = some path)
    (hname : path ∈ actionNames) (rest : List String) :
    expand (wordsOf options ++ rest) = wordsOf options ++ rest := by
  obtain ⟨before, after, rfl, hbefore, -⟩ := exists_of_firstBare? hoptions
  rw [expand_wordsOf_config hbefore, expand_action hname, wordsOf_append, List.append_assoc]
  rfl

/-- **Any other bare word gets `parse` in front of it**, which `--config` takes for its value. -/
theorem expand_of_firstBare?_notMem (hoptions : firstBare? options = some path)
    (hname : path ∉ actionNames) (rest : List String) :
    ∃ before after, options = before ++ config path :: after ∧
      expand (wordsOf options ++ rest) =
        wordsOf (before ++ [config "parse"]) ++ path :: (wordsOf after ++ rest) := by
  obtain ⟨before, after, rfl, hbefore, hpath⟩ := exists_of_firstBare? hoptions
  refine ⟨before, after, rfl, ?_⟩
  rw [expand_wordsOf_config hbefore, expand_bare hpath hname, wordsOf_append, List.append_assoc]
  rfl

/-- The command line is then wrong, whatever comes behind its options. -/
theorem KnowsActions.read_expand_of_notMem {α : Type} {read : List String → Except Stop α}
    (h : KnowsActions read) (hoptions : firstBare? options = some path)
    (hname : path ∉ actionNames) (rest : List String) :
    read (expand (wordsOf options ++ rest)) = .error .usage := by
  obtain ⟨before, after, -, hexpand⟩ := expand_of_firstBare?_notMem hoptions hname rest
  obtain ⟨-, -, -, -, hpath⟩ := exists_of_firstBare? hoptions
  rw [hexpand]
  exact h _ _ _ hpath hname

/-- And with a file behind the options it is wrong whatever the bare word among them. -/
theorem KnowsActions.read_expand_file {α : Type} {read : List String → Except Stop α}
    (h : KnowsActions read) (hoptions : firstBare? options = some path)
    (hdash : startsWithDash file = false) (hfile : file ∉ actionNames) (rest : List String) :
    read (expand (wordsOf options ++ file :: rest)) = .error .usage := by
  by_cases hname : path ∈ actionNames
  · rw [expand_of_firstBare?_mem hoptions hname]
    exact h options file rest hdash hfile
  · exact h.read_expand_of_notMem hoptions hname (file :: rest)

/-- Such a command line does not stay as it is. -/
theorem expand_ne_of_firstBare?_notMem (hoptions : firstBare? options = some path)
    (hname : path ∉ actionNames) (rest : List String) :
    expand (wordsOf options ++ rest) ≠ wordsOf options ++ rest := by
  obtain ⟨before, after, rfl, hexpand⟩ := expand_of_firstBare?_notMem hoptions hname rest
  intro heq
  rw [hexpand, wordsOf_append, wordsOf_append, List.append_assoc, List.append_assoc] at heq
  have hlength := congrArg List.length (List.append_cancel_left heq)
  simp [wordsOf, words] at hlength

/-- If some value is a bare word, `parse` does not come to stand in front of the file. -/
theorem expand_file_ne (hoptions : firstBare? options = some path) (file : String)
    (rest : List String) :
    expand (wordsOf options ++ file :: rest) ≠ wordsOf options ++ "parse" :: file :: rest := by
  intro heq
  by_cases hname : path ∈ actionNames
  · rw [expand_of_firstBare?_mem hoptions hname] at heq
    simpa using congrArg List.length heq
  · obtain ⟨before, after, rfl, hexpand⟩ :=
      expand_of_firstBare?_notMem hoptions hname (file :: rest)
    have hparse : "parse" = path := by
      rw [hexpand, wordsOf_append, wordsOf_append, List.append_assoc, List.append_assoc,
        List.append_cancel_left_eq] at heq
      exact (List.cons.inj (List.cons.inj heq).2).1
    exact hname (hparse ▸ by decide)

/-- **Leaving the action out, and writing it.** Options, among them any number of values, come
before a file or before the name of an action. `parse` is put directly in front of the file exactly
where no value of `--config` stands apart without a dash, and a command line with its action is left
as it is exactly where the first such value, if there is one, is the name of an action itself.
Elsewhere the command line is wrong, for every reading of it that knows the actions. -/
theorem expand_wordsOf_iff {α : Type} (read : List String → Except Stop α)
    (options : List GlobalOption) (rest : List String) :
    (∀ file, startsWithDash file = false → file ∉ actionNames →
      (expand (wordsOf options ++ file :: rest) = wordsOf options ++ "parse" :: file :: rest ↔
        firstBare? options = none) ∧
      (KnowsActions read → firstBare? options ≠ none →
        read (expand (wordsOf options ++ file :: rest)) = .error .usage)) ∧
    ∀ action ∈ ["parse", "test"],
      (expand (wordsOf options ++ action :: rest) = wordsOf options ++ action :: rest ↔
        ∀ path, firstBare? options = some path → path ∈ actionNames) ∧
      (KnowsActions read → (∃ path, firstBare? options = some path ∧ path ∉ actionNames) →
        read (expand (wordsOf options ++ action :: rest)) = .error .usage) := by
  constructor
  · intro file hdash hfile
    refine ⟨?_, fun hread hsome => ?_⟩
    · cases hoptions : firstBare? options with
      | none => simp [expand_wordsOf hoptions, expand_bare hdash hfile]
      | some path => simp [expand_file_ne hoptions file rest]
    · obtain ⟨path, hoptions⟩ := Option.ne_none_iff_exists'.mp hsome
      exact hread.read_expand_file hoptions hdash hfile rest
  · intro action haction
    have hnames : action ∈ actionNames := by
      revert action
      decide
    refine ⟨?_, fun hread ⟨path, hoptions, hname⟩ =>
      hread.read_expand_of_notMem hoptions hname (action :: rest)⟩
    cases hoptions : firstBare? options with
    | none => simp [expand_wordsOf hoptions, expand_action hnames]
    | some path =>
      by_cases hname : path ∈ actionNames
      · simp [expand_of_firstBare?_mem hoptions hname, hname]
      · simp [hname, expand_ne_of_firstBare?_notMem hoptions hname (action :: rest)]

/-- `shs -v --config x.toml a.shs` is wrong, and `shs -v --config x.toml parse a.shs` would be too.
Read as it stands, the latter is right. -/
theorem expand_config_path :
    startsWithDash "a.shs" = false ∧ "a.shs" ∉ actionNames ∧ "parse" ∈ ["parse", "test"] ∧
      KnowsActions Request.read ∧
      expand ["-v", "--config", "x.toml", "a.shs"] ≠
        ["-v", "--config", "x.toml", "parse", "a.shs"] ∧
      Request.read (expand ["-v", "--config", "x.toml", "a.shs"]) = .error .usage ∧
      expand ["-v", "--config", "x.toml", "parse", "a.shs"] ≠
        ["-v", "--config", "x.toml", "parse", "a.shs"] ∧
      Request.read (expand ["-v", "--config", "x.toml", "parse", "a.shs"]) = .error .usage ∧
      (Request.read ["-v", "--config", "x.toml", "parse", "a.shs"]).isOk = true := by
  have hbare : firstBare? [letter, config "x.toml"] = some "x.toml" := by decide
  have hfile := (expand_wordsOf_iff Request.read [letter, config "x.toml"] []).1 "a.shs"
    (by decide) (by decide)
  have haction := (expand_wordsOf_iff Request.read [letter, config "x.toml"] ["a.shs"]).2 "parse"
    (by decide)
  have hnone : firstBare? [letter, config "x.toml"] ≠ none := by simp [hbare]
  refine ⟨by decide, by decide, by decide, knowsActions_read, fun heq => hnone (hfile.1.mp heq),
    hfile.2 knowsActions_read hnone, fun heq => ?_,
    haction.2 knowsActions_read ⟨"x.toml", hbare, by decide⟩, rfl⟩
  exact absurd (haction.1.mp heq "x.toml" hbare) (by decide)

end GlobalOption
end BraceTree.Command
