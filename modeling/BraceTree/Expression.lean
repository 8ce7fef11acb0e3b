import BraceTree.Value.Literal

/-!
# Right-hand sides

What a declaration or an assignment may have on its right: a literal, the word `null`, or a call,
which stays text. Nothing else is an expression here; a sum or a variable is not read.
-/

namespace BraceTree

/-- A call by name, its arguments kept as written. -/
structure Call where
  /-- The name of the function. -/
  name : String
  /-- The arguments, trimmed; empty ones are left out. -/
  args : List String
  deriving DecidableEq, Inhabited

namespace Call

/-- The text of a call. -/
def display (c : Call) : String := c.name ++ "(" ++ ", ".intercalate c.args ++ ")"

/-- The words that open a block or a declaration and so name no function. -/
def keywords : List String := ["if", "elif", "else", "for", "while", "function", "var", "val"]

/-- The name that a text starts with, and what stands behind it. -/
def splitName? : Text → Option (Text × Text)
  | [] => none
  | c :: cs =>
    if Text.isNameHead c then some (c :: cs.takeWhile Text.isWord, cs.dropWhile Text.isWord)
    else none

/-- Reads a text that is one call: a name that is no keyword, and a parenthesis that closes with the
text. -/
def ofText? (text : Text) : Option Call :=
  match splitName? (Text.trim text) with
  | none => none
  | some (name, rest) =>
    match Text.enclosed? '(' ')' (Text.trimStart rest) with
    | none => none
    | some inner =>
      if keywords.contains (String.ofList name) then none
      else
        let args := (Text.splitTopLevel ',' inner).filter fun a => !a.isEmpty
        some ⟨String.ofList name, args.map String.ofList⟩

end Call

/-- A right-hand side. -/
inductive Expression where
  | literal (value : Value)
  | call (call : Call)
  | null

namespace Expression

/-- Reads a right-hand side. Strings and numbers come first, then calls, `null`, truth values and
collections; no text is two of them. -/
def ofText? (text : Text) : Option Expression :=
  let t := Text.trim text
  match Literal.scalar? t with
  | some v => some (.literal v)
  | none =>
    match Call.ofText? t with
    | some c => some (.call c)
    | none =>
      if t = "null".toList then some .null
      else
        match Literal.boolean? t with
        | some v => some (.literal v)
        | none => (Literal.collection? (Literal.readWithin t.length) t).map .literal

end Expression
end BraceTree
