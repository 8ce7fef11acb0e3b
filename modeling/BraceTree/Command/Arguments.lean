/-!
# Command lines

A command line names an action, `parse` or `test`, and what the action works on. Options may stand
before and behind the name of the action. Those before it belong to the *outer* level of the command
line and those behind it to the level of the action; each level knows its own options, and the few
that both know count on either.

`expand` lets the word `parse` be left out. It looks at nothing but the first word that does not
start with a dash, so the value of an option counts as that word when it stands apart from its
option. `Request.ofArguments` reads the expanded command line from left to right and stops where it
is wrong, or where help or the version is asked for.
-/

namespace BraceTree.Command

/-! ## The action may be left out -/

/-- The words that name an action. -/
def actionNames : List String := ["parse", "test", "help"]

/-- Whether a word of a command line starts with a dash. -/
def startsWithDash (word : String) : Bool := word.toList.head? == some '-'

/-- A command line with its action: `parse` is put in front of the first word without a dash, unless
that word names an action. -/
def expand : List String → List String
  | [] => []
  | word :: words =>
    if startsWithDash word then word :: expand words
    else if actionNames.contains word then word :: words
    else "parse" :: word :: words

/-! ## Options -/

/-- What options there are. -/
inductive OptionName where
  | noColor
  | verbose
  | config
  | tree
  | scopes
  | ast
  | quiet
  | category
  | listCategories
  | help
  | version
  deriving DecidableEq

namespace OptionName

/-- The word that gives an option, without its dashes. -/
def long : OptionName → String
  | .noColor => "no-color"
  | .verbose => "verbose"
  | .config => "config"
  | .tree => "tree"
  | .scopes => "scopes"
  | .ast => "ast"
  | .quiet => "quiet"
  | .category => "category"
  | .listCategories => "list-categories"
  | .help => "help"
  | .version => "version"

/-- The letter that gives an option. -/
def short? : OptionName → Option Char
  | .verbose => some 'v'
  | .quiet => some 'q'
  | .category => some 'c'
  | .help => some 'h'
  | .version => some 'V'
  | _ => none

/-- Whether an option comes with a value. -/
def takesValue : OptionName → Bool
  | .config | .category => true
  | _ => false

/-- Whether an option may be given more than once on one level. -/
def isRepeatable : OptionName → Bool
  | .verbose | .category => true
  | _ => false

end OptionName

/-- The parts of a command line that know their own options. -/
inductive Level where
  /-- What stands before the action. -/
  | outer
  | parse
  | test
  deriving DecidableEq

/-- The options that a level knows. -/
def Level.options : Level → List OptionName
  | .outer => [.noColor, .verbose, .config, .help, .version]
  | .parse => [.noColor, .verbose, .config, .help, .tree, .scopes, .ast, .quiet]
  | .test => [.noColor, .verbose, .config, .help, .category, .listCategories]

/-- Why a command line leads to no action. -/
inductive Stop where
  /-- The command line is wrong. -/
  | usage
  /-- Help is asked for. -/
  | help
  /-- The version is asked for. -/
  | version
  deriving DecidableEq

/-- What a level was given. -/
structure Given where
  /-- The options with their values, in order; the value of a switch is empty. -/
  options : List (OptionName × String) := []
  /-- The words that belong to no option, in order. -/
  operands : List String := []

namespace Given

/-- Whether an option was given. -/
def has (g : Given) (o : OptionName) : Bool := g.options.any fun p => p.1 = o

/-- The values that an option was given, in order. -/
def values (g : Given) (o : OptionName) : List String :=
  (g.options.filter fun p => p.1 = o).map (·.2)

/-- Gives an option. Help and the version are given at once, and the name of a file is not empty. -/
def addOption (o : OptionName) (value : String) (g : Given) : Except Stop Given :=
  if o = .help then .error .help
  else if o = .version then .error .version
  else if g.has o && !o.isRepeatable then .error .usage
  else if o = .config && value.isEmpty then .error .usage
  else .ok { g with options := g.options ++ [(o, value)] }

/-- Gives a word that belongs to no option. There is at most one. -/
def addOperand (word : String) (g : Given) : Except Stop Given :=
  if g.operands.isEmpty then .ok { g with operands := [word] } else .error .usage

end Given

/-! ## Reading a level -/

/-- The part of a word before the first equals sign and, if there is one, the part behind it. -/
def splitEquals : List Char → List Char × Option (List Char)
  | [] => ([], none)
  | c :: cs =>
    if c = '=' then ([], some cs)
    else ((c :: (splitEquals cs).1), (splitEquals cs).2)

/-- Reads the letters behind a single dash. The first that stands for an option with a value takes
the other letters for it, an equals sign in front of them aside. If none are left, the option is
returned and its value is the next word. -/
def readLetters (level : Level) : List Char → Given → Except Stop (Given × Option OptionName)
  | [], g => .ok (g, none)
  | c :: cs, g =>
    match level.options.find? fun o => o.short? = some c with
    | none => .error .usage
    | some o =>
      if !o.takesValue then (g.addOption o "").bind (readLetters level cs)
      else if cs.isEmpty then .ok (g, some o)
      else
        let value := if cs.head? = some '=' then cs.tail else cs
        (g.addOption o (String.ofList value)).map fun g => (g, none)

/-- Reads what stands behind two dashes. If an option lacks its value, the option is returned and
its value is the next word. -/
def readLong (level : Level) (t : List Char) (g : Given) :
    Except Stop (Given × Option OptionName) :=
  let (name, value?) := splitEquals t
  match level.options.find? fun o => o.long.toList = name, value? with
  | none, _ => .error .usage
  | some o, some value =>
    if o.takesValue then (g.addOption o (String.ofList value)).map fun g => (g, none)
    else .error .usage
  | some o, none =>
    if o.takesValue then .ok (g, some o) else (g.addOption o "").map fun g => (g, none)

/-- Reads a word that starts with a dash and is more than that. -/
def readOption (level : Level) (word : String) (g : Given) :
    Except Stop (Given × Option OptionName) :=
  match word.toList with
  | '-' :: '-' :: t => readLong level t g
  | '-' :: t => readLetters level t g
  | _ => .error .usage

/-- Reads the words of a level. The level before the action ends with the first word that belongs to
no option; this word and what follows it are returned. Behind two dashes there are no more options,
and before the action nothing may stand behind them. -/
def readLevel (level : Level) : List String → Given → Except Stop (Given × List String)
  | [], g => .ok (g, [])
  | word :: words, g =>
    if word = "--" then
      if level = .outer then .error .usage
      else (words.foldlM (fun (g : Given) w => g.addOperand w) g).map fun g => (g, [])
    else if startsWithDash word && word != "-" then
      match readOption level word g with
      | .error stop => .error stop
      | .ok (g, none) => readLevel level words g
      | .ok (g, some o) =>
        match words with
        | [] => .error .usage
        | value :: words =>
          if startsWithDash value && value != "-" then .error .usage
          else
            match g.addOption o value with
            | .error stop => .error stop
            | .ok g => readLevel level words g
    else if level = .outer then .ok (g, word :: words)
    else
      match g.addOperand word with
      | .error stop => .error stop
      | .ok g => readLevel level words g

/-! ## Requests -/

/-- What to show of a parse. -/
structure ParseOptions where
  /-- The tree in outline. -/
  tree : Bool
  /-- The variables of each block with their lines. -/
  scopes : Bool
  /-- Everything that the parse gave. -/
  ast : Bool
  /-- No warnings. -/
  quiet : Bool

/-- What is to be done. -/
inductive Action where
  /-- Parse a file. -/
  | parse (file : String) (options : ParseOptions)
  /-- Check the fixtures at a path that are in the given categories. -/
  | test (path : String) (categories : List String)
  /-- List the categories of the fixtures at a path. -/
  | listCategories (path : String)

/-- What a command line asks for. -/
structure Request where
  /-- Whether reports are colored. -/
  isColored : Bool
  /-- How much of the log is shown. -/
  verbosity : Nat
  /-- The settings file, if it is not the usual one. -/
  config : Option String
  /-- What is to be done. -/
  action : Action

namespace Request

/-- The action that the level of an action asks for. -/
def actionOf (level : Level) (g : Given) : Except Stop Action :=
  match level, g.operands with
  | .parse, [file] =>
    .ok (.parse file ⟨g.has .tree, g.has .scopes, g.has .ast, g.has .quiet⟩)
  | .test, [path] =>
    .ok (if g.has .listCategories then .listCategories path
      else .test path (g.values .category))
  | _, _ => .error .usage

/-- The request of the two levels. Where both set the same, the level of the action counts. -/
def ofLevels (outer : Given) (level : Level) (inner : Given) : Except Stop Request :=
  (actionOf level inner).map fun action => {
    isColored := !outer.has .noColor && !inner.has .noColor
    verbosity :=
      if inner.has .verbose then (inner.values .verbose).length
      else (outer.values .verbose).length
    config := (inner.values .config).head? <|> (outer.values .config).head?
    action }

/-- Reads the words behind the name of an action. -/
def ofAction (outer : Given) (level : Level) (words : List String) : Except Stop Request :=
  (readLevel level words {}).bind fun r => ofLevels outer level r.1

/-- Reads a command line with its action. -/
def read (words : List String) : Except Stop Request :=
  (readLevel .outer words {}).bind fun (outer, words) =>
    match words with
    | "parse" :: words => ofAction outer .parse words
    | "test" :: words => ofAction outer .test words
    | ["help"] => .error .help
    | ["help", about] => .error (if actionNames.contains about then .help else .usage)
    | _ => .error .usage

/-- Reads a command line in which `parse` may be left out. -/
def ofArguments (words : List String) : Except Stop Request := read (expand words)

end Request
end BraceTree.Command
