import NovelChart.Document.Basic
import NovelChart.Encoding.Basic

/-!
Settings of the tool. Every setting may be missing and then has its default; settings that are not
known are passed over, and a value of the wrong kind is a fault. A group of settings may be given by
a list of their values in order, and a choice by a record whose one key names it.
-/

namespace NovelChart

/-- The settings of the tool. -/
structure Settings where
  /-- The encoding of charts. -/
  encoding : Encoding := .cp932
  /-- Whether a chart is copied before it is overwritten for the first time. -/
  backup : Bool := true
  /-- Whether scripts are printed as plain text. -/
  textOnly : Bool := false
  /-- Whether comments of scripts are kept. -/
  keepComments : Bool := false
  deriving DecidableEq, Repr

namespace Settings

/-- The encoding that a setting names: by its key, or by a record with the key over nothing. -/
def encodingOf? : Option Document → Option Encoding
  | none => some .cp932
  | some (.text s) => Encoding.ofKey? s
  | some (.record [(key, .record [])]) => Encoding.ofKey? key
  | some (.record [(key, .list [])]) => Encoding.ofKey? key
  | some _ => none

/-- The truth value of a setting, or its default. -/
def flagOf? (fallback : Bool) : Option Document → Option Bool
  | none => some fallback
  | some d => d.asFlag?

/-- The truth value of the setting inside a group of settings, which is off by default. Of a list the
first item counts. -/
def innerFlag? (name : String) : Option Document → Option Bool
  | none => some false
  | some (.list items) => flagOf? false items.head?
  | some group => do
    match ← group.fields? [name] with
    | [value] => flagOf? false value
    | _ => none

/-- The settings that a document holds. -/
def ofDocument? (d : Document) : Option Settings := do
  match ← d.fields? ["encoding", "backup", "decompiler", "compile"] with
  | [encoding, backup, decompiler, compile] =>
    return {
      encoding := ← encodingOf? encoding
      backup := ← flagOf? true backup
      textOnly := ← innerFlag? "text_only" decompiler
      keepComments := ← innerFlag? "keep_comments" compile }
  | _ => none

end Settings

end NovelChart
