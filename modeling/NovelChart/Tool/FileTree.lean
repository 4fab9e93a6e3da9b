import NovelChart.Error
import NovelChart.Tool.Path

/-!
A tree of files below a working directory. Paths are followed name by name, as an operating system
does: every name but the last has to be a directory that exists. Reading, writing and creating
directories fail with the kind of fault that this gives. Of the directories above the working
directory nothing is known but that they are there.
-/

namespace NovelChart

/-- The names that lead from the working directory to a place. A place outside begins with as many
double dots as there are steps up. -/
abbrev Location := List String

/-- Whether a place is the working directory or one above it. -/
def Location.isAbove (place : Location) : Bool :=
  place.all (· == "..")

/-- What a place holds. -/
inductive Node
  | file (bytes : List UInt8)
  | directory
  deriving DecidableEq, Repr

/-- The files and directories below the working directory. -/
structure FileTree where
  entries : List (Location × Node) := []
  deriving DecidableEq, Repr

namespace FileTree

/-- What a place holds, if anything. The working directory itself is always there. -/
def get? (t : FileTree) (place : Location) : Option Node :=
  if place.isAbove then some .directory else t.entries.lookup place

/-- The tree with another node at a place. -/
def set (t : FileTree) (place : Location) (node : Node) : FileTree :=
  if (t.entries.lookup place).isSome then
    ⟨t.entries.map fun (p, n) => if p = place then (p, node) else (p, n)⟩
  else ⟨t.entries ++ [(place, node)]⟩

/-- The longest name that a directory can hold, in bytes. -/
def maxName : Nat := 255

/-- The longest path that can be followed, in bytes. -/
def maxPath : Nat := 4095

/-- The place that one more name leads to from a directory, whether or not anything is there. -/
def child (t : FileTree) (place : Location) (name : String) : Except IoFault Location :=
  match t.get? place with
  | none => .error .notFound
  | some (.file _) => .error .notADirectory
  | some .directory =>
    if name = "" ∨ name = "." then .ok place
    else if name = ".." then .ok (if place.isAbove then place ++ [".."] else place.dropLast)
    else if maxName < name.utf8ByteSize then .error .invalidFilename
    else .ok (place ++ [name])

/-- The place that names lead to. -/
def follow (t : FileTree) : Location → List String → Except IoFault Location
  | place, [] => .ok place
  | place, name :: rest => do
    let place ← t.child place name
    t.follow place rest

/-- The place where a path begins. The root is one of the directories above. -/
def start (path : String) : Location :=
  if Path.isAbsolute path then [".."] else []

/-- The pieces of a path that can be followed. -/
def route (path : String) : Except IoFault (List String) :=
  if path.toList.contains '\x00' then .error .invalidInput
  else if path.isEmpty then .error .notFound
  else if maxPath < path.utf8ByteSize then .error .invalidFilename
  else .ok (Path.pieces path)

/-- What a path leads to. -/
def find (t : FileTree) (path : String) : Except IoFault Node := do
  let names ← route path
  let place ← t.follow (start path) names
  match t.get? place with
  | some node => return node
  | none => .error .notFound

/-- Whether a path leads to something. -/
def contains (t : FileTree) (path : String) : Bool :=
  (t.find path).toBool

/-- The bytes of a file. -/
def read (t : FileTree) (path : String) : Except IoFault (List UInt8) := do
  match ← t.find path with
  | .file bytes => return bytes
  | .directory => .error .isADirectory

/-- The text of a file in UTF-8. -/
def readText (t : FileTree) (path : String) : Except IoFault String := do
  let bytes ← t.read path
  match Encoding.decode .utf8 bytes with
  | .ok s => return s
  | .error _ => .error .invalidData

/-- Whether a path leads to a directory. -/
def isDirectory (t : FileTree) (path : String) : Bool :=
  match t.find path with
  | .ok .directory => true
  | _ => false

/-- Where something new is to be put. -/
structure Target where
  /-- The directory that is to hold it. -/
  directory : Location
  /-- Its name there; empty for the root. -/
  name : String
  /-- Whether a slash follows the name. -/
  slashed : Bool
  deriving DecidableEq, Repr

/-- Whether a name stands for a directory that is there already. -/
def Target.isStanding (target : Target) : Bool :=
  target.name == "" || target.name == "." || target.name == ".."

/-- Where a path puts something new: all its names but the last lead to a directory. -/
def target (t : FileTree) (path : String) : Except IoFault Target := do
  let names ← route path
  -- A slash at the end leaves an empty last piece.
  let named := (names.reverse.dropWhile (·.isEmpty)).reverse
  let place ← t.follow (start path) named.dropLast
  match t.get? place with
  | some .directory => return ⟨place, named.getLast?.getD "", named.length < names.length⟩
  | some (.file _) => .error .notADirectory
  | none => .error .notFound

/-- The place of a file that is to be written: under a name that is no directory. A slash at the end
asks for a directory. -/
def writable (t : FileTree) (path : String) : Except IoFault Location := do
  let target ← t.target path
  if target.slashed || target.isStanding then .error .isADirectory
  else
    let place ← t.child target.directory target.name
    match t.get? place with
    | some .directory => .error .isADirectory
    | _ => return place

/-- Writes a file, new or in place of an old one. -/
def write (t : FileTree) (path : String) (bytes : List UInt8) : Except IoFault FileTree := do
  let place ← t.writable path
  return t.set place (.file bytes)

/-- Makes one directory, where nothing is yet. -/
def makeOne (t : FileTree) (path : String) : Except IoFault FileTree := do
  let target ← t.target path
  if target.isStanding then .error .alreadyExists
  else
    let place ← t.child target.directory target.name
    match t.get? place with
    | some _ => .error .alreadyExists
    | none => return t.set place .directory

/-- Makes one directory, unless there is one already. -/
def ensureOne (t : FileTree) (path : String) : Except IoFault FileTree :=
  match t.makeOne path with
  | .ok t => .ok t
  | .error fault => if t.isDirectory path then .ok t else .error fault

/-- Makes the first of some directories, each of them inside the next. Where it cannot be found, the
next ones are made before it. -/
def makeChain (t : FileTree) : List String → Except IoFault FileTree
  | [] => .ok t
  | path :: above =>
    match t.ensureOne path with
    | .error .notFound => do
      let t ← makeChain t above
      t.ensureOne path
    | result => result

/-- Makes a directory and those above it, as far as they are missing. -/
def makeDirectory (t : FileTree) (path : String) : Except IoFault FileTree :=
  if path.isEmpty then .ok t else t.makeChain (path :: Path.above path)

/-- Makes a place a directory unless it holds something. -/
def addDirectory (t : FileTree) (place : Location) : FileTree :=
  if (t.get? place).isSome then t else t.set place .directory

/-- Puts a file into the tree together with the directories above it. -/
def addFile (t : FileTree) (path : String) (bytes : List UInt8) : FileTree :=
  let names := (Path.pieces path).filter fun name => name ≠ "" ∧ name ≠ "."
  let above := (List.range names.length).map fun n => names.take n
  (above.foldl addDirectory t).set names (.file bytes)

/-- The tree that holds some files. -/
def ofFiles (files : List (String × List UInt8)) : FileTree :=
  files.foldl (fun t (path, bytes) => t.addFile path bytes) {}

/-- The files below the working directory that a tree holds and an older one does not hold with the
same bytes. -/
def changes (before after : FileTree) : List (String × List UInt8) :=
  after.entries.filterMap fun
    | (place, .file bytes) =>
      if before.get? place = some (.file bytes) ∨ place.head? = some ".." then none
      else some (String.intercalate "/" place, bytes)
    | (_, .directory) => none

end FileTree

end NovelChart
