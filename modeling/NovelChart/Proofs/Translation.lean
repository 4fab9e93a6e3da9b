import NovelChart.Proofs.Insertion
import NovelChart.Proofs.Saving

/-!
# Translating keeps a chart writable

Every way of giving a chart new texts looks at them before it touches the chart: a text is scanned
for characters that the encoding cannot write, and the block of a script is written on trial. The
chart itself is written much later, token by token at some depth, field by field and record by
record. Both looks are enough for that, so a chart that can be written can still be written after
any number of edits, whether they are made one by one, by a sheet or by an index of scripts.

## Main definitions

* `Chart.Translated`: one call that gives a chart new texts

## Main results

* `Chart.Revised.exists_toBytes`, `Chart.exists_toBytes_of_revised`: edits leave a chart that can be
  written
* `Chart.Translated.revised`: every call is a run of edits
* `Chart.toBytes_translated`: a chart can be written after any run of calls if it could be before
-/

namespace NovelChart.Chart

open Relation NovelChart.Action

variable {c c' : Chart} {bytes : List UInt8}

/-! ### Edits -/

/-- A chart with a new text can be written if it could be without. -/
theorem exists_toBytes_insert (target : TextTarget) {text : String}
    (written : c.toBytes = .ok bytes) (inserted : target.insert c text = .ok c') :
    ∃ bytes', c'.toBytes = .ok bytes' := by
  obtain ⟨writable, edited⟩ := TextTarget.edited inserted
  exact edited.exists_toBytes_of_written written writable

/-- A chart with a new script can be written if it could be without: the block of the script was. -/
theorem exists_toBytes_script {line : Nat} {keep : Bool} {script : String}
    (written : c.toBytes = .ok bytes) (edited : c.replaceBlockScript line keep script = .ok c') :
    ∃ bytes', c'.toBytes = .ok bytes' := by
  have same : c'.frame = c.frame := frame_replaceBlockScript edited
  have before := exists_encode_of_toBytes written
  simp only [replaceBlockScript, bind_eq_ok, mapError_eq_ok, pure_eq_ok, block_eq_ok] at edited
  obtain ⟨block, ⟨command, found, carries⟩, tokens, _, trial, tried, rfl⟩ := edited
  refine exists_toBytes_of_frame written same fun command' member => ?_
  -- The block that was written on trial is the one that the command gets.
  obtain old | ⟨other, there, rfl⟩ := mem_setBlock member
  · exact before command' old
  · cases found.symm.trans there
    exact Command.exists_encode_mapText carries (before command (List.mem_of_getElem? found))
      fun _ => ⟨trial, tried⟩

/-- An edit leaves a chart that can be written. -/
theorem Revised.exists_toBytes (revised : c.Revised c') (written : c.toBytes = .ok bytes) :
    ∃ bytes', c'.toBytes = .ok bytes' := by
  cases revised with
  | segment edited => exact exists_toBytes_insert (.segment _) written edited
  | plain edited => exact exists_toBytes_insert (.block _) written edited
  | script edited => exact exists_toBytes_script written edited
  | choice edited => exact exists_toBytes_insert (.choice _ _) written edited

/-- So do edits one after another. -/
theorem exists_toBytes_of_revised (run : ReflTransGen Revised c c')
    (written : c.toBytes = .ok bytes) : ∃ bytes', c'.toBytes = .ok bytes' := by
  induction run with
  | refl => exact ⟨bytes, written⟩
  | tail _ revised ih =>
    obtain ⟨_, before⟩ := ih
    exact revised.exists_toBytes before

/-! ### Calls -/

/-- One call that gives a chart new texts. Where a call works in place and may stop half-way, the
chart that it leaves behind counts, too. -/
inductive Translated (c c' : Chart) : Prop
  | text {id : TextId} {text : String} (edited : c.replaceText id text = .ok c')
  | texts {edits : List (TextId × String)} (left : (c.replaceTexts edits).2 = c')
  | plain {line : Nat} {text : String} (edited : c.replaceBlockPlain line text = .ok c')
  | script {line : Nat} {keep : Bool} {script : String}
      (edited : c.replaceBlockScript line keep script = .ok c')
  | choice {line index : Nat} {text : String} (edited : c.replaceChoice line index text = .ok c')
  | sheet {s : Sheet} (left : (s.apply c).chart = c')
  | scripts {stem dir : String} {e : Encoding} {keep ignoreMissing : Bool} {w w' : World}
      {count : Nat}
      (ran : (Scripts.insertAll c stem dir e keep ignoreMissing).Yields w (c', count) w')

/-- Every call is a run of edits. -/
theorem Translated.revised (translated : c.Translated c') : ReflTransGen Revised c c' := by
  cases translated with
  | text edited => exact .single (.segment edited)
  | texts left => exact left ▸ revised_replaceTexts c _
  | plain edited => exact .single (.plain edited)
  | script edited => exact .single (.script edited)
  | choice edited => exact .single (.choice edited)
  | sheet left => exact left ▸ Sheet.revised_apply _ c
  | scripts ran =>
    obtain ⟨_, _, _, inserts⟩ := Scripts.insertAll_yields ran
    exact inserts.revised

/-- A chart that can be written can be written after any run of calls that give it new texts. -/
theorem toBytes_translated (written : c.toBytes = .ok bytes)
    (run : ReflTransGen Translated c c') : ∃ bytes', c'.toBytes = .ok bytes' := by
  have edits : ReflTransGen Revised c c' :=
    reflTransGen_closed (fun _ _ translated => translated.revised) c c' run
  exact exists_toBytes_of_revised edits written

/-- The sample with another text for its choice and another block, which begins with a comment. -/
def sampleTranslated : Chart :=
  TextTarget.sampleRenamed.setBlock 0 ⟨104, [.comment "n", .text "Hey"]⟩

set_option maxRecDepth 10000 in
/-- A choice, a script and a segment get new texts one after another. -/
theorem toBytes_translated_sample : sample.marked.toBytes = .ok sampleBytes ∧
    ReflTransGen Translated sample.marked sampleTranslated ∧
    ∃ bytes', sampleTranslated.toBytes = .ok bytes' := by
  have written : sample.marked.toBytes = .ok sampleBytes := by
    rfl
  have renamed : sample.marked.replaceChoice 1 0 "Run" = .ok TextTarget.sampleRenamed := by
    rfl
  have compiled : TextTarget.sampleRenamed.replaceBlockScript 0 true ";n\nYo" =
      .ok (TextTarget.sampleRenamed.setBlock 0 ⟨104, [.comment "n", .text "Yo"]⟩) := by
    rfl
  have reworded : (TextTarget.sampleRenamed.setBlock 0
      ⟨104, [.comment "n", .text "Yo"]⟩).replaceText ⟨"", 0, 0⟩ "Hey" = .ok sampleTranslated := by
    rfl
  have run : ReflTransGen Translated sample.marked sampleTranslated :=
    .head (.choice renamed) (.head (.script compiled) (.single (.text reworded)))
  exact ⟨written, run, toBytes_translated written run⟩

end NovelChart.Chart
