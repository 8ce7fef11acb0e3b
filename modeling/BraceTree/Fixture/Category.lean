import BraceTree.Text.Basic

/-!
# Categories of fixtures

Fixtures lie in folders, and the folder of a fixture, seen from where the search started, is its
category. The categories and the files of each are kept in order. A request for a category takes in
those nested below it.
-/

namespace BraceTree

/-- The fixtures of one folder. -/
structure Category where
  /-- The folder, empty for the one that the search started in. -/
  name : String
  /-- The files in it, in order. -/
  files : List String
  deriving DecidableEq, Inhabited

namespace Category

/-- How a category is shown. -/
def label (c : Category) : String := if c.name.isEmpty then "(root)" else c.name

/-- Puts a file into its place among others. -/
def insertFile (file : String) : List String → List String
  | [] => [file]
  | f :: fs => if file < f then file :: f :: fs else f :: insertFile file fs

/-- Puts a file into its category, which is made if there is none. -/
def insert (name file : String) : List Category → List Category
  | [] => [⟨name, [file]⟩]
  | c :: cs =>
    if name = c.name then { c with files := insertFile file c.files } :: cs
    else if name < c.name then ⟨name, [file]⟩ :: c :: cs
    else c :: insert name file cs

/-- The categories of files that are given with the names of their folders. -/
def group (files : List (String × String)) : List Category :=
  files.foldl (fun cs f => insert f.1 f.2 cs) []

/-- Adds a category to those already chosen, in order and once. -/
def choose (c : Category) : List Category → List Category
  | [] => [c]
  | d :: ds =>
    if c.name = d.name then d :: ds
    else if c.name < d.name then c :: d :: ds
    else d :: choose c ds

/-- A request without the slashes around it. -/
def trimSlashes (request : String) : Text :=
  ((request.toList.dropWhile (· == '/')).reverse.dropWhile (· == '/')).reverse

/-- Whether a category is the requested one or nested below it. -/
def isIn (request : Text) (c : Category) : Bool :=
  c.name.toList == request || (request ++ ['/']).isPrefixOf c.name.toList

/-- What a choice of categories gives. -/
structure Selection where
  /-- The chosen categories, in order. -/
  chosen : List Category
  /-- The requests that chose nothing new. -/
  notFound : List String

/-- Serves one more request. -/
def serve (all : List Category) (s : Selection) (request : String) : Selection :=
  let wanted := trimSlashes request
  let chosen := (all.filter (isIn wanted)).foldl (fun cs c => choose c cs) s.chosen
  if chosen.length = s.chosen.length then
    { s with notFound := s.notFound ++ [String.ofList wanted] }
  else { s with chosen }

/-- Chooses the requested categories, all of them if nothing is requested. -/
def select (all : List Category) (requests : List String) : Selection :=
  if requests.isEmpty then ⟨all, []⟩ else requests.foldl (serve all) ⟨[], []⟩

end Category
end BraceTree
