import BraceTree.Toml.Scalar

/-!
# Reading TOML

A document is a list of sections: the entries before the first header, and then a header with the
entries below it. Reading splits the text into sections first and puts them together into one table
afterwards, which is where a key that is given twice is refused.

Whoever reads settings gets the table or nothing; why a document is malformed is not told apart.
-/

namespace BraceTree.Toml

/-- How deep keys, arrays and tables may nest. -/
def maxDepth : Nat := 79

/-! ## Keys -/

/-- Characters of keys that need no quotes. -/
def isBare (c : Char) : Bool := c.isAlphanum || c == '_' || c == '-'

/-- Reads one part of a key. -/
def simpleKey? (t : Text) : Option (String × Text) :=
  match t with
  | '"' :: cs => (basicRest? (cs.length + 1) cs).map fun p => (String.ofList p.1, p.2)
  | '\'' :: cs => (literalRest? cs).map fun p => (String.ofList p.1, p.2)
  | _ =>
    let key := t.takeWhile isBare
    if key.isEmpty then none else some (String.ofList key, t.dropWhile isBare)

/-- Reads a key of at most `bound` parts around points. -/
def keyWithin? : (bound : Nat) → Text → Option (List String × Text)
  | 0, _ => none
  | bound + 1, t =>
    match simpleKey? (skipBlanks t) with
    | none => none
    | some (k, rest) =>
      match skipBlanks rest with
      | '.' :: cs => (keyWithin? bound cs).map fun p => (k :: p.1, p.2)
      | rest => some ([k], rest)

/-- Reads a key and the blanks around it. A key has at most `maxDepth` parts. -/
def key? (t : Text) : Option (List String × Text) := keyWithin? maxDepth t

/-! ## Tables -/

/-- The entries of a table. -/
abbrev Entries := List (String × Node)

/-- Changes the table that a key leads to, which is made where it is missing. With `isDotted` the
key stands in front of a value and may only pass through tables that keys or headers imply; else it
stands in a header. -/
def descend? (isDotted : Bool) (change : Entries → Option Entries) :
    (key : List String) → Entries → Option Entries
  | [], es => change es
  | k :: ks, es =>
    match find? k es with
    | none =>
      (descend? isDotted change ks []).map fun inner =>
        put k (.table (if isDotted then .dotted else .implied) inner) es
    | some (.table origin inner) =>
      if origin = .inline ∨ (isDotted ∧ origin = .header) then none
      else (descend? isDotted change ks inner).map fun inner => put k (.table origin inner) es
    | some (.tables items) =>
      match items.getLast? with
      | none => none
      | some last =>
        (descend? isDotted change ks last).map fun last =>
          put k (.tables (items.dropLast ++ [last])) es
    | some _ => none

/-- Adds an entry that must be new. -/
def addNew? (key : String) (n : Node) (es : Entries) : Option Entries :=
  if (find? key es).isSome then none else some (put key n es)

/-- Whether the last table on a dotted way was made by a dotted key, or is yet to be made. -/
def endsDotted (way : List String) (es : Entries) : Bool :=
  match way with
  | [] => true
  | k :: ks =>
    match find? k es with
    | none => true
    | some (.table origin inner) => if ks.isEmpty then origin = .dotted else endsDotted ks inner
    | some (.tables items) => !ks.isEmpty && endsDotted ks (items.getLast?.getD [])
    | some _ => false

/-- Adds an entry under a dotted key. -/
def addEntry? (es : Entries) (entry : List String × Node) : Option Entries :=
  match entry.1.getLast? with
  | none => none
  | some last =>
    let way := entry.1.dropLast
    if endsDotted way es then descend? true (addNew? last entry.2) way es else none

/-- Adds entries in order. -/
def addEntries? (es : Entries) (entries : List (List String × Node)) : Option Entries :=
  entries.foldlM addEntry? es

/-! ## Values -/

/-- The rest of a line after a comment, if there is a comment and it is well formed. -/
def skipComment? (t : Text) : Option Text :=
  match t with
  | '#' :: cs => some (cs.dropWhile isPlain)
  | _ => some t

/-- A text after blanks, comments and at most `bound` line breaks. -/
def skipTrivia : (bound : Nat) → Text → Text
  | 0, t => t
  | bound + 1, t =>
    let t := skipBlanks t
    match (skipComment? t).bind newline? with
    | some rest => skipTrivia bound rest
    | none => t

/-- Reads the rest of an array of at most `bound` items, after its bracket or a comma. -/
def arrayRest? (item : Text → Option (Node × Text)) :
    (bound : Nat) → Text → Option (List Node × Text)
  | 0, _ => none
  | bound + 1, t =>
    match skipTrivia t.length t with
    | ']' :: rest => some ([], rest)
    | t =>
      match item t with
      | none => none
      | some (n, rest) =>
        match skipTrivia rest.length rest with
        | ',' :: rest => (arrayRest? item bound rest).map fun p => (n :: p.1, p.2)
        | ']' :: rest => some ([n], rest)
        | _ => none

/-- Reads a key, an equals sign and a value, and the blanks behind it. -/
def keyValue? (value : Text → Option (Node × Text)) (t : Text) :
    Option ((List String × Node) × Text) :=
  match key? t with
  | some (k, '=' :: cs) => (value (skipBlanks cs)).map fun p => ((k, p.1), skipBlanks p.2)
  | _ => none

/-- Reads the rest of a table in braces with at least one and at most `bound` entries. -/
def inlineRest? (value : Text → Option (Node × Text)) :
    (bound : Nat) → Text → Option (List (List String × Node) × Text)
  | 0, _ => none
  | bound + 1, t =>
    match keyValue? value t with
    | some (e, ',' :: cs) => (inlineRest? value bound cs).map fun p => (e :: p.1, p.2)
    | some (e, '\x7d' :: cs) => some ([e], cs)
    | _ => none

/-- Reads a value with arrays and tables nested at most `depth` deep. -/
def valueWithin? : (depth : Nat) → Text → Option (Node × Text)
  | 0, t => scalar? t
  | depth + 1, t =>
    match t with
    | '[' :: cs =>
      (arrayRest? (valueWithin? depth) (cs.length + 1) cs).map fun p => (.array p.1, p.2)
    | '\x7b' :: cs =>
      match skipBlanks cs with
      | '\x7d' :: rest => some (.table .inline [], rest)
      | cs =>
        match inlineRest? (valueWithin? depth) (cs.length + 1) cs with
        | none => none
        | some (entries, rest) =>
          (addEntries? [] entries).map fun es => (.table .inline es, rest)
    | _ => scalar? t

/-- Reads a value. Arrays and tables nest at most `maxDepth` deep. -/
def value? (t : Text) : Option (Node × Text) := valueWithin? maxDepth t

/-! ## Sections -/

/-- What a line of a document says. -/
inductive Directive where
  /-- A key and its value. -/
  | entry (key : List String) (value : Node)
  /-- The header of a table. -/
  | table (key : List String)
  /-- The header of a further table in an array of tables. -/
  | tables (key : List String)

/-- Reads a header after its first bracket. -/
def header? (t : Text) : Option (Directive × Text) :=
  match t with
  | '[' :: cs =>
    match key? cs with
    | some (k, ']' :: ']' :: rest) => some (.tables k, rest)
    | _ => none
  | _ =>
    match key? t with
    | some (k, ']' :: rest) => some (.table k, rest)
    | _ => none

/-- Reads the end of a line: a comment perhaps, and a line break or the end of the text. -/
def lineRest? (t : Text) : Option Text :=
  match skipComment? (skipBlanks t) with
  | none => none
  | some [] => some []
  | some t => newline? t

/-- Reads the directives of a document of at most `bound` lines. -/
def directives? : (bound : Nat) → Text → Option (List Directive)
  | 0, _ => none
  | bound + 1, t =>
    match skipBlanks t with
    | [] => some []
    | c :: cs =>
      let directive? : Option (Option Directive × Text) :=
        if c = '#' ∨ c = '\n' ∨ c = '\r' then some (none, c :: cs)
        else if c = '[' then (header? cs).map fun p => (some p.1, p.2)
        else (keyValue? value? (c :: cs)).map fun p => (some (.entry p.1.1 p.1.2), p.2)
      match directive? with
      | none => none
      | some (s, rest) =>
        match lineRest? rest with
        | none => none
        | some rest => (directives? bound rest).map (s.toList ++ ·)

/-- A header, if any, and the entries below it. -/
structure Section where
  /-- The header that opens the section. -/
  header : Option Directive
  /-- The entries of the section. -/
  entries : List (List String × Node)

/-- The sections that some directives make; the first has no header. -/
def sections : List Directive → List Section
  | [] => [⟨none, []⟩]
  | .entry k v :: rest =>
    (sections rest).modifyHead fun s => { s with entries := (k, v) :: s.entries }
  | h :: rest => ⟨none, []⟩ :: (sections rest).modifyHead fun s => { s with header := some h }

/-- Puts a section into the table of a document. -/
def addSection? (es : Entries) (s : Section) : Option Entries :=
  match s.header with
  | some (.table key) =>
    match key.getLast? with
    | none => none
    | some last =>
      descend? false (fun parent =>
        match find? last parent with
        | none => (addEntries? [] s.entries).map fun t => put last (.table .header t) parent
        | some (.table .implied t) =>
          (addEntries? t s.entries).map fun t => put last (.table .header t) parent
        | some _ => none) key.dropLast es
  | some (.tables key) =>
    match key.getLast? with
    | none => none
    | some last =>
      descend? false (fun parent =>
        (addEntries? [] s.entries).bind fun t =>
          match find? last parent with
          | none => some (put last (.tables [t]) parent)
          | some (.tables items) => some (put last (.tables (items ++ [t])) parent)
          | some _ => none) key.dropLast es
  | _ => addEntries? es s.entries

/-- Reads a document into a table. A byte order mark may stand in front of it. -/
def read? (t : Text) : Option Entries :=
  let t := if t.head? = some '\uFEFF' then t.tail else t
  (directives? (t.length + 1) t).bind fun ss => (sections ss).foldlM addSection? []

end BraceTree.Toml
