import NovelChart.Text.Lines

/-!
Paths as text: names between slashes. Empty names and names of a single dot say nothing, except
that a dot in front of a relative path is kept. Taking a path apart keeps the text of what
remains.
-/

namespace NovelChart.Path

/-- The pieces of a path between slashes. -/
def pieces (path : String) : List String :=
  (Text.pieces '/' path.toList).map String.ofList

/-- Whether a path begins at the root. -/
def isAbsolute (path : String) : Bool :=
  path.toList.head? == some '/'

/-- Pieces, last one first, without those at the end that say nothing. The piece that stands alone
is the front of the path, where a dot is kept. -/
def settle : List String → List String
  | [] => []
  | [name] => if name = "" then [] else [name]
  | name :: rest => if name = "" ∨ name = "." then settle rest else name :: rest

/-- The last name of a path, and the pieces before it, last one first. -/
def takeLast? (path : String) : Option (String × List String) :=
  match settle (pieces path).reverse with
  | [] => none
  | name :: rest => some (name, rest)

/-- The file that a path names. -/
def fileName? (path : String) : Option String :=
  match takeLast? path with
  | some (name, _) => if name = "." ∨ name = ".." then none else some name
  | none => none

/-- The name of the file without its extension. A dot at the front begins no extension. -/
def stem? (path : String) : Option String :=
  (fileName? path).map fun name =>
    match Text.splitLast? '.' name.toList with
    | some (front, _) => if front.isEmpty then name else String.ofList front
    | none => name

/-- The path without its last name. -/
def parent? (path : String) : Option String :=
  (takeLast? path).map fun (_, rest) =>
    match settle rest with
    | [] => if isAbsolute path then "/" else ""
    | rest => String.intercalate "/" rest.reverse

/-- The runs of pieces, last one first, that end in a name, each of them inside the one before. -/
def runs : List String → List (List String)
  | [] => []
  | name :: rest =>
    if settle (name :: rest) = name :: rest then (name :: rest) :: runs rest else runs rest

/-- The paths above a path, the nearest first. Neither the empty path nor the root is among them. -/
def above (path : String) : List String :=
  ((runs (pieces path).reverse).drop 1).map fun names => String.intercalate "/" names.reverse

/-- A path inside a directory; an absolute path stands for itself. -/
def join (dir path : String) : String :=
  if isAbsolute path then path
  else if dir.isEmpty || dir.toList.getLast? == some '/' then dir ++ path
  else dir ++ "/" ++ path

end NovelChart.Path
