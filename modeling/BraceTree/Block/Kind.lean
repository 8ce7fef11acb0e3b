import BraceTree.Value.Type

/-!
# Kinds of block

The control construct that a block belongs to, as its header tells: a branch, a loop, a function, or
none of these. What a header captures is kept as written; only a return type is read, since a
function with an unknown one has to be reported.
-/

namespace BraceTree

/-- The two forms of a `for` loop. -/
inductive ForClause where
  /-- A start, a condition and a step, parted by semicolons. -/
  | counted (init condition step : String)
  /-- A name for each item of a collection. -/
  | each (item collection : String)
  deriving DecidableEq, Inhabited

namespace ForClause

/-- The text of a `for` clause, parentheses included. -/
def display : ForClause → String
  | .counted init condition step => "(" ++ init ++ "; " ++ condition ++ "; " ++ step ++ ")"
  | .each item collection => "(" ++ item ++ " in " ++ collection ++ ")"

end ForClause

/-- A parameter of a function. -/
structure Parameter where
  /-- The name of the parameter. -/
  name : String
  /-- Its annotation as written, which need not be a type. -/
  typeText : Option String
  deriving DecidableEq, Inhabited

namespace Parameter

/-- The text of a parameter. -/
def display (p : Parameter) : String :=
  match p.typeText with
  | some a => p.name ++ " : " ++ a
  | none => p.name

end Parameter

/-- What a function header declares. -/
structure Signature where
  /-- The name of the function. -/
  name : String
  /-- Its parameters in order. -/
  parameters : List Parameter
  /-- The type of its result, if one is given and known. -/
  returnType : Option TypeName
  deriving DecidableEq, Inhabited

namespace Signature

/-- The text of a signature. -/
def display (s : Signature) : String :=
  s.name ++ "(" ++ ", ".intercalate (s.parameters.map Parameter.display) ++ ")" ++
    (match s.returnType with
      | some t => " : " ++ t.display
      | none => "")

end Signature

/-- The construct a block belongs to. -/
inductive BlockKind where
  /-- The whole source. -/
  | main
  | ifBranch (condition : String)
  | elifBranch (condition : String)
  | elseBranch
  | forLoop (clause : ForClause)
  | whileLoop (condition : String)
  | function (signature : Signature)
  /-- A block without a header, or with one that was not understood. -/
  | plain
  deriving DecidableEq, Inhabited

namespace BlockKind

/-- The name of a kind. -/
def label : BlockKind → String
  | .main => "Main"
  | .ifBranch _ => "If"
  | .elifBranch _ => "Elif"
  | .elseBranch => "Else"
  | .forLoop _ => "For"
  | .whileLoop _ => "While"
  | .function _ => "FunctionDecl"
  | .plain => "Generic"

/-- The condition of a branch or of a `while` loop. -/
def condition? : BlockKind → Option String
  | .ifBranch c | .elifBranch c | .whileLoop c => some c
  | _ => none

/-- The text of a kind: its name and what its header captured. -/
def display (k : BlockKind) : String :=
  match k with
  | .ifBranch c | .elifBranch c | .whileLoop c => k.label ++ " (" ++ c ++ ")"
  | .forLoop clause => k.label ++ " " ++ clause.display
  | .function s => k.label ++ " " ++ s.display
  | _ => k.label

/-- Whether a block of this kind goes on with what an `if` began. -/
def continuesBranch : BlockKind → Bool
  | .elifBranch _ | .elseBranch => true
  | _ => false

/-- Whether an `elif` or `else` may follow a block of this kind. -/
def allowsBranch : BlockKind → Bool
  | .ifBranch _ | .elifBranch _ => true
  | _ => false

end BlockKind
end BraceTree
