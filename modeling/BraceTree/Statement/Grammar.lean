import BraceTree.Diagnostic

/-!
# The grammar of statements

A statement declares a variable, updates one, or is a call. The three forms are tried in this order,
and a text that is none of them is not read. What stands on the right of a declaration or an update
is kept as text here: whether it is an expression decides what the statement does, not what it is.

All readers expect a trimmed text.
-/

namespace BraceTree

/-- What a statement says. -/
inductive Statement where
  /-- `var` or `val`, a name, a type annotation and an initial value. -/
  | declaration (isMutable : Bool) (name : String) (typeText init : Text)
  /-- A name, an operator and an operand. -/
  | update (name : String) (op : Operator) (operand : Text)
  /-- A call. -/
  | call (c : Call)

namespace Statement

/-- A right-hand side: all that follows the blanks, which must be something and in one line. -/
def rightSide? (t : Text) : Option Text :=
  let rhs := Text.trimStart t
  if rhs.isEmpty || rhs.contains '\n' then none else some rhs

/-- The annotation that a text is: a name in letters, and perhaps something in angle brackets. -/
def isTypeText : Text → Bool
  | [] => false
  | c :: cs =>
    let rest := cs.dropWhile Text.isWord
    Text.isLetter c &&
      (rest.isEmpty || ((Text.trimStart rest).head? == some '<' && rest.getLast? == some '>'))

/-- Reads what follows `var` or `val`: a name that starts with a small letter, a colon, an
annotation that ends at the first equals sign, and a right-hand side. -/
def declarationRest? (isMutable : Bool) : Text → Option Statement
  | [] => none
  | c :: cs =>
    if c.isLower then
      match Text.dropPrefix? [':'] (Text.trimStart (cs.dropWhile Text.isWord)) with
      | none => none
      | some typed =>
        match Text.splitFirst? '=' (Text.trimStart typed) with
        | none => none
        | some (before, after) =>
          let typeText := Text.trimEnd before
          if isTypeText typeText then
            (rightSide? after).map fun rhs =>
              .declaration isMutable (String.ofList (c :: cs.takeWhile Text.isWord)) typeText rhs
          else none
    else none

/-- Reads a declaration. -/
def declaration? (t : Text) : Option Statement :=
  (Text.afterWord? "var" t).bind (declarationRest? true) <|>
    (Text.afterWord? "val" t).bind (declarationRest? false)

/-- The operator that a text starts with, and what stands behind it. -/
def operator? : Text → Option (Operator × Text)
  | '+' :: '=' :: cs => some (.add, cs)
  | '-' :: '=' :: cs => some (.subtract, cs)
  | '=' :: cs => some (.assign, cs)
  | _ => none

/-- Reads an update. Two equals signs compare; they assign nothing. -/
def update? (t : Text) : Option Statement :=
  match Call.splitName? t with
  | none => none
  | some (name, rest) =>
    match operator? (Text.trimStart rest) with
    | none => none
    | some (op, after) =>
      match rightSide? after with
      | none => none
      | some rhs =>
        if op = .assign ∧ rhs.head? = some '=' then none
        else some (.update (String.ofList name) op rhs)

/-- Reads a statement. -/
def read? (t : Text) : Option Statement :=
  declaration? t <|> update? t <|> (Call.ofText? t).map .call

end Statement
end BraceTree
