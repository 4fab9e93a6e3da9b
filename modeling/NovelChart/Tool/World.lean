import NovelChart.Failure
import NovelChart.Notice
import NovelChart.Tool.FileTree

/-!
The world that the tool acts on: a tree of files, what was printed, and what was told. An action
changes the world and may fail; what it did before it failed stays.
-/

namespace NovelChart

/-- The files, and what the user saw so far. -/
structure World where
  files : FileTree
  output : String := ""
  notices : List Notice := []
  deriving Repr

/-- An action on the world. -/
abbrev Action (ε α : Type) := ExceptT ε (StateM World) α

/-- An action of the tool. -/
abbrev Tool (α : Type) := Action Failure α

namespace Action

/-- Tells a notice. -/
def tell {ε : Type} (n : Notice) : Action ε Unit :=
  modify fun w => { w with notices := w.notices ++ [n] }

/-- Tells notices in order. -/
def tellAll {ε : Type} (ns : List Notice) : Action ε Unit :=
  modify fun w => { w with notices := w.notices ++ ns }

/-- Prints text. -/
def print {ε : Type} (s : String) : Action ε Unit :=
  modify fun w => { w with output := w.output ++ s }

/-- Looks at the files. -/
def look {α : Type} (op : FileTree → Except IoFault α) : Action IoFault α := do
  match op (← get).files with
  | .ok a => return a
  | .error fault => throw fault

/-- Changes the files. -/
def change (op : FileTree → Except IoFault FileTree) : Action IoFault Unit := do
  match op (← get).files with
  | .ok files => modify fun w => { w with files := files }
  | .error fault => throw fault

/-- A file operation as part of an activity of the tool. -/
def during {α : Type} (activity : Activity) (a : Action IoFault α) : Tool α :=
  a.adapt fun fault => .during activity (.io fault)

/-- A file operation that speaks for itself. -/
def plainly {α : Type} (a : Action IoFault α) : Tool α :=
  a.adapt fun fault => .of (.io fault)

/-- A result that may be a chart error, as part of an activity of the tool. -/
def orFail {α : Type} (f : Error → Failure) : Except Error α → Tool α
  | .ok a => return a
  | .error e => throw (f e)

end Action

end NovelChart
