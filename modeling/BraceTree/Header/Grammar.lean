import BraceTree.Block.Kind
import BraceTree.Expression

/-!
# The grammar of headers

What stands before an opening brace decides what kind of block it opens. Functions are tried first,
then branches and `while` loops, then the two forms of a `for` loop; no header at all opens a plain
block. A header ends with its closing parenthesis, save for the return type of a function. Where
several parentheses could be the one, the last that works is taken, and where several texts could be
the collection of a loop, the shortest.
-/

namespace BraceTree.Header

/-! ## Parts of a header -/

/-- What stands behind an opening parenthesis and the blanks before it. -/
def afterParen? (t : Text) : Option Text :=
  match Text.trimStart t with
  | c :: cs => if c = '(' then some cs else none
  | [] => none

/-- What stands between an opening parenthesis and a closing one at the very end. -/
def inParens? (t : Text) : Option Text := (afterParen? t).bind (Text.dropLast? ')')

/-- The longest part of a text before a closing parenthesis such that `tail` can read what stands
behind that. The part holds no newline. -/
def beforeParen? {α : Type} (tail : Text → Option α) : Text → Option (Text × α)
  | [] => none
  | c :: cs =>
    match if c = '\n' then none else beforeParen? tail cs with
    | some (inner, a) => some (c :: inner, a)
    | none => if c = ')' then (tail cs).map fun a => ([], a) else none

/-! ## Functions -/

/-- A parameter: a name, and behind a colon its annotation. -/
def parameter (t : Text) : Parameter :=
  match Text.splitFirst? ':' t with
  | some (name, typeText) =>
    ⟨String.ofList (Text.trim name), some (String.ofList (Text.trim typeText))⟩
  | none => ⟨String.ofList (Text.trim t), none⟩

/-- The parameters in the parentheses of a function header; empty ones are left out. -/
def parameters (t : Text) : List Parameter :=
  ((TypeName.arguments t).filter fun p => !p.isEmpty).map parameter

/-- What follows the parameters: nothing, or a colon and the return type as written. -/
def returnText? (t : Text) : Option (Option Text) :=
  if t.isEmpty then some none
  else
    match Text.trimStart t with
    | [] => none
    | c :: cs =>
      let typeText := Text.trimStart cs
      if c = ':' ∧ !typeText.isEmpty ∧ !typeText.contains '\n' then some (some typeText)
      else none

/-- A recognised header: what it opens, and the return type if it is none. -/
structure Reading where
  /-- The kind of block that the header opens. -/
  kind : BlockKind
  /-- The text given for a return type, if that is no type. -/
  unknownReturn : Option String

/-- Reads the header of a function. -/
def function? (t : Text) : Option Reading :=
  match (Text.afterWord? "function" t).bind Call.splitName? with
  | none => none
  | some (name, rest) =>
    match (afterParen? rest).bind (beforeParen? returnText?) with
    | none => none
    | some (params, typeText) =>
      let returnType := typeText.bind TypeName.ofText?
      some {
        kind := .function ⟨String.ofList name, parameters params, returnType⟩
        unknownReturn :=
          if returnType.isSome then none
          else typeText.map fun a => String.ofList (Text.trim a) }

/-! ## Branches and loops -/

/-- The condition behind a keyword, in parentheses that end the header. -/
def condition? (keyword : String) (t : Text) : Option String :=
  match (Text.dropPrefix? keyword.toList t).bind inParens? with
  | none => none
  | some inner => if inner.contains '\n' then none else some (String.ofList (Text.trim inner))

/-- The clause of a `for` loop with two semicolons. -/
def counted? (t : Text) : Option ForClause :=
  match (Text.dropPrefix? "for".toList t).bind inParens? with
  | none => none
  | some inner =>
    match Text.splitAt ';' inner with
    | [init, condition, step] =>
      some (.counted (String.ofList (Text.trim init)) (String.ofList (Text.trim condition))
        (String.ofList (Text.trim step)))
    | _ => none

/-- The shortest part of a text, at least one character and no newline, behind which only blanks and
a closing parenthesis stand. -/
def beforeClose? : Text → Option Text
  | [] => none
  | c :: cs =>
    if c = '\n' then none
    else if Text.trimStart cs = [')'] then some [c]
    else (beforeClose? cs).map (c :: ·)

/-- The collection behind `in` and at least one blank. All blanks are passed over if that leaves a
collection, else as many as do. -/
def collection? : Text → Option Text
  | [] => none
  | c :: cs => if Text.isBlank c then collection? cs <|> beforeClose? cs else none

/-- The clause of a `for` loop over a collection. -/
def each? (t : Text) : Option ForClause :=
  match ((Text.dropPrefix? "for".toList t).bind afterParen?).bind fun inner =>
      Call.splitName? (Text.trimStart inner) with
  | none => none
  | some (item, rest) =>
    match ((Text.afterWord? "" rest).bind (Text.dropPrefix? "in".toList)).bind collection? with
    | none => none
    | some c => some (.each (String.ofList item) (String.ofList c))

/-- Reads a header. No header opens a plain block; a text that is none of the known headers is not
read. -/
def read? (header : Text) : Option Reading :=
  let t := Text.trim header
  let kind? : Option BlockKind :=
    if t = "else".toList then some .elseBranch
    else
      ((condition? "if" t).map .ifBranch) <|> ((condition? "elif" t).map .elifBranch) <|>
        ((condition? "while" t).map .whileLoop) <|> ((counted? t).map .forLoop) <|>
        ((each? t).map .forLoop)
  if t.isEmpty then some ⟨.plain, none⟩
  else function? t <|> kind?.map fun k => ⟨k, none⟩

end BraceTree.Header
