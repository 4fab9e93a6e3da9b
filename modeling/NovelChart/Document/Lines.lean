import NovelChart.Document.Flow
import NovelChart.Text.Lines

/-!
Records as lines: one line per field, with a key, an equals sign and a value in flow style, and
headings in square brackets that open a record inside the outermost one. A bare key may name inner
records, with dots between the names. A key must not be given twice, and bare text is no value.
-/

namespace NovelChart.Document

/-- Whether a character may stand in a key without quotes. -/
def isKeyChar (c : Char) : Bool :=
  c.isAlphanum || c == '_' || c == '-'

/-- A key in quotes if it needs them. -/
def printKey (key : String) : List Char :=
  if !key.isEmpty && key.toList.all isKeyChar then key.toList else quote key

/-- The lines of a record; other documents have none. -/
def toLines : Document → String
  | record fields => String.ofList (fields.flatMap fun (key, value) =>
      printKey key ++ " = ".toList ++ (value.print " = ".toList).filter (· != '\n') ++ ['\n'])
  | _ => ""

/-- The path of names that a key lexeme spells. -/
def keyPath? : Lexeme → Option (List String)
  | .quoted s => some [s]
  | .bare s =>
    let names := Text.pieces '.' s.toList
    if names.all fun name => !name.isEmpty && name.all isKeyChar then
      some (names.map String.ofList)
    else none
  | _ => none

/-- A record with a value at a path of keys where there was none. -/
def insertAt? (value : Document) : List String → Document → Option Document
  | [], _ => none
  | [key], record fields =>
    if (fields.lookup key).isSome then none else some (record (fields ++ [(key, value)]))
  | key :: rest, record fields =>
    match fields.lookup key with
    | none => do
      let inner ← insertAt? value rest (record [])
      return record (fields ++ [(key, inner)])
    | some inner => do
      let inner ← insertAt? value rest inner
      return record (fields.map fun (k, v) => if k = key then (k, inner) else (k, v))
  | _, _ => none

/-- Whether bare text spells a truth value or a number. -/
def isBareValue (s : String) : Bool :=
  match ofBare s with
  | flag _ => true
  | int _ => true
  | real _ => true
  | _ => false

/-- Whether every bare lexeme is a key or a value. -/
def isStrict : List Lexeme → Bool
  | [] => true
  | .bare _ :: .mark :: rest => isStrict rest
  | .bare s :: rest => isBareValue s && isStrict rest
  | _ :: rest => isStrict rest

/-- The value that lexemes spell to their end. -/
def lineValue? (lexemes : List Lexeme) : Option Document :=
  match read (2 * lexemes.length + 1) lexemes with
  | some (d, []) => if isStrict lexemes then some d else none
  | _ => none

/-- A record after one more line, and the path of the heading that is open. -/
def readLine? (heading : List String) (d : Document) (line : List Char) :
    Option (List String × Document) := do
  match ← lexFrom '=' .between line with
  | [] => return (heading, d)
  | [.openList, key, .closeList] =>
    let path ← keyPath? key
    let d ← insertAt? (record []) path d
    return (path, d)
  | key :: .mark :: lexemes =>
    let path ← keyPath? key
    let value ← lineValue? lexemes
    let d ← insertAt? value (heading ++ path) d
    return (heading, d)
  | _ => none

/-- The record that lines spell. -/
def ofLines? (s : String) : Option Document :=
  ((Text.lines s.toList).foldlM (fun (heading, d) line => readLine? heading d line)
    (([], record []) : List String × Document)).map Prod.snd

end NovelChart.Document
