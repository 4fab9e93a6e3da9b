import Mathlib.Data.List.Forall2
import NovelChart.Proofs.Address
import NovelChart.Proofs.Frame
import NovelChart.Proofs.World
import NovelChart.Tool.Scripts

/-!
# Scripts that are written and inserted again

Extracting writes one file for each text block and an index of them; inserting reads the index and
compiles the files. When the files are not touched in between, the chart comes out as it was. The
files are told apart by their names, so each script is still there when the last one is written, and
the index is none of them; every line of the index leads back to its reference; and the block that
is compiled from a script is the one that was printed, since a chart that was read holds canonical
blocks only.

## Main definitions

* `Scripts.labelled`: the file of a script that goes by a label
* `Scripts.Holds`, `Scripts.Written`: a file in a directory holds the script of a scenario

## Main results

* `Chart.replaceBlockScript_print`: a block's own script changes nothing
* `Scripts.scenarioFile_cases`: what the file of a scenario can be
* `Scripts.exists_pairs`: references are chosen one after another
* `Scripts.writeScripts_holds`, `Scripts.writeScripts_written`: each script is in its file after all
  of them were written
* `Scripts.insertEntries_written`: inserting scripts that were written changes nothing
* `Scripts.insertAll_extract`: inserting what was extracted changes nothing
-/

namespace NovelChart

open NovelChart.Action

/-! ### Blocks and their scripts -/

theorem Command.mapText_self {command : Command} {block : TextBlock}
    (carries : command.text? = some block) : (command.mapText fun _ => block) = command := by
  rw [mapText_congr (h := id), mapText_id]
  intro other same
  rw [carries] at same
  exact Option.some.inj same

namespace Chart

variable {e : Encoding} {bytes : List UInt8} {c : Chart} {line : Nat} {block : TextBlock}

/-- Putting a block where it is already changes nothing. -/
theorem setBlock_self (found : c.block line = .ok block) : c.setBlock line block = c := by
  obtain ⟨command, here, carries⟩ := block_eq_ok.mp found
  apply eq_of_lines
  intro i
  rw [List.getElem?_modify]
  by_cases same : line = i
  · subst same
    simp only [here, if_true, Option.map_eq_map, Option.map_some, Command.mapText_self carries]
  · simp [same]

/-- A block's own script changes nothing. -/
theorem replaceBlockScript_print (read : Chart.ofBytes e bytes = .ok c)
    (found : c.block line = .ok block) (keep : Bool) :
    c.replaceBlockScript line keep (Script.print false block.tokens) = .ok c := by
  obtain ⟨canon, free, text, _, written⟩ := block_canonical read found
  have compiled : Script.compile keep (Script.print false block.tokens) = .ok block.tokens := by
    rw [TextBlock.compile_settle written keep, TextBlock.settle,
      Token.settleAll_of_allCanonical keep block.tokens canon (.inr free),
      Token.gather_of_allCanonical canon]
  simp only [replaceBlockScript, bind_eq_ok, mapError_eq_ok, pure_eq_ok]
  exact ⟨block, found, block.tokens, compiled, text, written, setBlock_self found⟩

/-- A scenario is a text block of the chart. -/
theorem block_of_mem_scenarios {s : Scenario} (member : s ∈ c.scenarios) :
    c.block s.line = .ok s.block := by
  obtain ⟨⟨command, line⟩, inside, made⟩ := List.mem_filterMap.mp member
  obtain ⟨block, carries, rfl⟩ := Option.map_eq_some_iff.mp made
  exact block_eq_ok.mpr ⟨command, List.mem_zipIdx_iff_getElem?.mp inside, carries⟩

end Chart

/-! ### Names of script files -/

namespace Reference

theorem not_mem_escapeFrom {c : Char} (forbidden : isForbidden c = true) (other : c ≠ '_')
    (inRun : Bool) (cs : List Char) : c ∉ escapeFrom inRun cs := by
  induction cs generalizing inRun with
  | nil => simp [escapeFrom]
  | cons x cs ih =>
    rw [escapeFrom]
    split
    · split
      · exact ih true
      · rw [List.mem_cons, not_or]
        exact ⟨other, ih true⟩
    · next plain =>
      rw [List.mem_cons, not_or]
      refine ⟨?_, ih false⟩
      rintro rfl
      exact plain forbidden

end Reference

namespace Scripts

/-- The file of a script, which no index is called. -/
structure IsScript (file : String) : Prop where
  isName : Path.IsName file
  differs : ∀ stem : String, file ≠ stem ++ ".lsbref"

theorem IsScript.ne_empty {file : String} (script : IsScript file) : file ≠ "" := by
  rintro rfl
  cases script.isName.telling

theorem script_ne_index (front stem : String) : front ++ ".lns" ≠ stem ++ ".lsbref" := by
  intro same
  have last := congrArg (fun file => file.toList.getLast?) same
  simp at last

theorem isScript_append {front : String} (plain : '/' ∉ front.toList) :
    IsScript (front ++ ".lns") :=
  ⟨Path.isName_append plain (by decide) (by decide), script_ne_index front⟩

/-- The file of a script that goes by a label. -/
def labelled (stem label : String) : String :=
  stem ++ "-" ++ label ++ ".lns"

theorem lineFile_eq (stem : String) (line : Nat) :
    lineFile stem line = labelled stem ("line" ++ toString line) := by
  simp only [lineFile, labelled, String.append_assoc]
  rfl

/-- What the file of a scenario can be: it goes by its name if no file is called so yet, and by its
line otherwise. -/
theorem scenarioFile_cases (stem : String) (taken : List Reference) (s : Scenario) :
    (∃ name, s.name = some name ∧
      scenarioFile stem taken s = labelled stem (Reference.escapeName name) ∧
      ∀ r ∈ taken, r.file ≠ labelled stem (Reference.escapeName name)) ∨
    (scenarioFile stem taken s = lineFile stem s.line ∧ ∀ name, s.name = some name →
      name = "" ∨ ∃ r ∈ taken, r.file = labelled stem (Reference.escapeName name)) := by
  rw [scenarioFile]
  cases s.name with
  | none => exact .inr ⟨rfl, by simp⟩
  | some name =>
    dsimp only
    split
    · next clash =>
      refine .inr ⟨rfl, fun other same => ?_⟩
      cases same
      simpa [labelled] using clash
    · next free =>
      refine .inl ⟨name, rfl, rfl, fun r member same => free ?_⟩
      simp only [Bool.or_eq_true, List.any_eq_true, beq_iff_eq]
      exact .inr ⟨r, member, same⟩

/-- A scenario goes to the file of a label, which holds no slash. -/
theorem exists_labelled (stem : String) (taken : List Reference) (s : Scenario) :
    ∃ label, '/' ∉ label.toList ∧ scenarioFile stem taken s = labelled stem label := by
  obtain ⟨name, _, same, _⟩ | ⟨same, _⟩ := scenarioFile_cases stem taken s
  · refine ⟨_, ?_, same⟩
    rw [Reference.escapeName, String.toList_ofList]
    exact Reference.not_mem_escapeFrom (by decide) (by decide) _ _
  · refine ⟨_, ?_, same.trans (lineFile_eq stem s.line)⟩
    rw [String.toList_append, List.mem_append, not_or]
    exact ⟨by decide, Text.not_mem_toString (by decide)⟩

/-- A scenario goes to the file of a script. -/
theorem isScript_scenarioFile {stem : String} (plain : '/' ∉ stem.toList) (taken : List Reference)
    (s : Scenario) : IsScript (scenarioFile stem taken s) := by
  obtain ⟨label, flat, same⟩ := exists_labelled stem taken s
  rw [same]
  apply isScript_append
  simp only [String.toList_append, List.mem_append, not_or]
  exact ⟨⟨plain, by decide⟩, flat⟩

/-- The references of scenarios follow those that are taken, and each is chosen when those before it
are taken. -/
theorem exists_pairs (stem : String) (taken : List Reference) (scenarios : List Scenario) :
    ∃ pairs : List (Scenario × Reference), pairs.map Prod.fst = scenarios ∧
      referencesFrom stem taken scenarios = taken ++ pairs.map Prod.snd ∧
      ∀ front pair back, pairs = front ++ pair :: back →
        pair.2 = ⟨scenarioFile stem (taken ++ front.map Prod.snd) pair.1, pair.1.line⟩ := by
  induction scenarios generalizing taken with
  | nil => exact ⟨[], rfl, (List.append_nil taken).symm, by simp⟩
  | cons s scenarios ih =>
    obtain ⟨pairs, firsts, same, chosen⟩ := ih (taken ++ [⟨scenarioFile stem taken s, s.line⟩])
    refine ⟨(s, ⟨scenarioFile stem taken s, s.line⟩) :: pairs, ?_, ?_, ?_⟩
    · rw [List.map_cons, firsts]
    · rw [referencesFrom, same, List.append_assoc, List.map_cons, List.singleton_append]
    · intro front pair back cut
      cases front with
      | nil =>
        cases cut
        rw [List.map_nil, List.append_nil]
      | cons first front =>
        -- The first reference is one of those that are taken when the others are chosen.
        obtain ⟨rfl, rest⟩ := List.cons.inj cut
        rw [chosen front pair back rest, List.map_cons, List.append_assoc, List.singleton_append]

/-- The references of scenarios follow those that are taken: one for each scenario, with its line
and a file of its own kind. -/
theorem exists_referencesFrom {stem : String} (plain : '/' ∉ stem.toList) (taken : List Reference)
    (scenarios : List Scenario) : ∃ refs, referencesFrom stem taken scenarios = taken ++ refs ∧
      List.Forall₂ (fun s r => r.line = s.line ∧ IsScript r.file) scenarios refs := by
  obtain ⟨pairs, rfl, same, chosen⟩ := exists_pairs stem taken scenarios
  refine ⟨_, same, ?_⟩
  rw [List.forall₂_map_left_iff, List.forall₂_map_right_iff, List.forall₂_same]
  intro pair member
  obtain ⟨front, back, cut⟩ := List.append_of_mem member
  rw [chosen front pair back cut]
  exact ⟨rfl, isScript_scenarioFile plain _ pair.1⟩

/-! ### Writing -/

/-- The file of a reference holds the script of a scenario as it was encoded. -/
def Holds (files : FileTree) (dir : String) (textOnly : Bool) (e : Encoding) (s : Scenario)
    (r : Reference) : Prop :=
  ∃ bytes, files.read (Path.join dir r.file) = .ok bytes ∧
    e.encode (Script.print textOnly s.block.tokens) = .ok bytes

/-- The file of a reference holds the script of a scenario. -/
def Written (files : FileTree) (dir : String) (s : Scenario) (r : Reference) : Prop :=
  ∃ bytes, files.read (Path.join dir r.file) = .ok bytes ∧
    Encoding.utf8.decode bytes = .ok (Script.print false s.block.tokens)

/-- A script that is held in UTF-8 is read as text. -/
theorem Holds.written {files : FileTree} {dir : String} {s : Scenario} {r : Reference}
    (held : Holds files dir false .utf8 s r) : Written files dir s r := by
  obtain ⟨bytes, readable, encoded⟩ := held
  refine ⟨bytes, readable, ?_⟩
  rw [Encoding.decode_of_encode encoded, Encoding.reread_utf8]

variable {w w' : World} {dir : String}

/-- What is written as text is read as text. -/
theorem writeText_utf8 {path text : String} {done : Unit}
    (ran : (Store.writeText path text .utf8).Yields w done w') :
    ∃ bytes, w.files.write path bytes = .ok w'.files ∧
      Encoding.utf8.decode bytes = .ok text := by
  obtain ⟨bytes, files, encoded, written, rfl⟩ := Store.writeText_yields.mp ran
  refine ⟨bytes, written, ?_⟩
  rw [Encoding.decode_of_encode encoded, Encoding.reread_utf8]

/-- Scripts that go to files beside one another are all there after they were written, and files
beside them are as before. -/
theorem writeScripts_holds {textOnly : Bool} {e : Encoding} {done : Unit}
    {pairs : List (Scenario × Reference)}
    (apart : pairs.Pairwise fun p q =>
      Path.Beside (Path.join dir p.2.file) (Path.join dir q.2.file))
    (ran : (writeScripts dir textOnly e pairs).Yields w done w') :
    (∀ pair ∈ pairs, Holds w'.files dir textOnly e pair.1 pair.2) ∧
      ∀ path bytes, (∀ pair ∈ pairs, Path.Beside path (Path.join dir pair.2.file)) →
        w.files.read path = .ok bytes → w'.files.read path = .ok bytes := by
  induction pairs generalizing w with
  | nil =>
    obtain ⟨_, rfl⟩ := yields_pure.mp ran
    exact ⟨by simp, fun _ _ _ readable => readable⟩
  | cons pair pairs ih =>
    obtain ⟨s, r⟩ := pair
    obtain ⟨first, apart⟩ := List.pairwise_cons.mp apart
    rw [writeScripts] at ran
    obtain ⟨_, w₁, wrote, telling⟩ := yields_bind.mp ran
    obtain ⟨_, w₂, told, rest⟩ := yields_bind.mp telling
    obtain ⟨bytes, files, encoded, written, rfl⟩ := Store.writeText_yields.mp wrote
    obtain rfl : w₂.files = files := files_of_tell told
    obtain ⟨others, kept⟩ := ih apart rest
    refine ⟨List.forall_mem_cons.mpr ⟨⟨bytes, ?_, encoded⟩, others⟩, ?_⟩
    · -- The file was written first, and the other scripts go to files beside it.
      exact kept _ bytes first (FileTree.read_stored written)
    · intro path old beside readable
      obtain ⟨beside, besides⟩ := List.forall_mem_cons.mp beside
      exact kept path old besides (FileTree.read_of_beside beside readable written)

/-- After all scripts were written each is in its file, and files of other names are as before. -/
theorem writeScripts_written {done : Unit} {pairs : List (Scenario × Reference)}
    (scripts : ∀ pair ∈ pairs, IsScript pair.2.file)
    (distinct : (pairs.map fun pair => pair.2.file).Nodup)
    (ran : (writeScripts dir false .utf8 pairs).Yields w done w') :
    (∀ pair ∈ pairs, Written w'.files dir pair.1 pair.2) ∧
      ∀ name bytes, Path.IsName name → name ∉ pairs.map (fun pair => pair.2.file) →
        w.files.read (Path.join dir name) = .ok bytes →
        w'.files.read (Path.join dir name) = .ok bytes := by
  have apart : pairs.Pairwise fun p q =>
      Path.Beside (Path.join dir p.2.file) (Path.join dir q.2.file) := by
    refine (List.pairwise_map.mp distinct).imp_of_mem fun {p q} before behind differ => ?_
    exact ⟨dir, _, _, rfl, rfl, (scripts p before).isName, (scripts q behind).isName, differ⟩
  obtain ⟨held, kept⟩ := writeScripts_holds apart ran
  refine ⟨fun pair member => (held pair member).written, ?_⟩
  intro name bytes isName missing readable
  refine kept _ bytes (fun pair member => ?_) readable
  refine ⟨dir, _, _, rfl, rfl, isName, (scripts pair member).isName, ?_⟩
  rintro rfl
  exact missing (List.mem_map_of_mem member)

/-! ### Inserting -/

variable {e : Encoding} {bytes : List UInt8} {chart : Chart} {keep ignoreMissing : Bool}

/-- Inserting a script that was written changes neither the chart nor the world. -/
theorem insert_written {s : Scenario} {r : Reference} (read : Chart.ofBytes e bytes = .ok chart)
    (member : s ∈ chart.scenarios) (line : r.line = s.line) (written : Written w.files dir s r) :
    (insert chart r.line (Path.join dir r.file) .utf8 keep).Yields w chart w := by
  obtain ⟨script, readable, decoded⟩ := written
  have same := Chart.replaceBlockScript_print read (Chart.block_of_mem_scenarios member) keep
  rw [← line] at same
  exact yields_bind.mpr ⟨_, w, Store.readText_yields.mpr ⟨rfl, script, readable, decoded⟩,
    yields_orFail.mpr ⟨same, rfl⟩⟩

/-- Inserting scripts that were written changes nothing, and counts them. -/
theorem insertEntries_written {files : FileTree} {scenarios : List Scenario}
    {refs : List Reference} (read : Chart.ofBytes e bytes = .ok chart)
    (paired : List.Forall₂ (fun s r => s ∈ chart.scenarios ∧ r.line = s.line ∧
      IsScript r.file ∧ Written files dir s r) scenarios refs)
    (same : w.files = files) (count : Nat) :
    ∃ w', (insertEntries dir .utf8 keep ignoreMissing (refs.map Reference.text) chart count).Yields
      w (chart, count + refs.length) w' := by
  induction paired generalizing w count with
  | nil => exact ⟨w, yields_pure.mpr ⟨rfl, rfl⟩⟩
  | @cons s r scenarios refs first _ ih =>
    obtain ⟨member, line, script, written⟩ := first
    have small : r.line < Text.positionLimit := by
      rw [line]
      exact Chart.line_lt read (Chart.block_of_mem_scenarios member)
    have parsed := Reference.ofText_text script.ne_empty small
    have inserted : (insert chart r.line (Path.join dir r.file) .utf8 keep).Yields w chart w :=
      insert_written read member line (same ▸ written)
    obtain ⟨_, readable, _⟩ := written
    let told : World := { w with notices := w.notices ++ [.replacedScenario r.line r.file] }
    obtain ⟨w', ran⟩ := ih (w := told) same (count + 1)
    refine ⟨w', ?_⟩
    rw [List.map_cons, insertEntries, parsed]
    refine yields_bind.mpr ⟨w, w, yields_get.mpr ⟨rfl, rfl⟩, ?_⟩
    rw [if_pos (FileTree.contains_of_read (same ▸ readable))]
    refine yields_bind.mpr ⟨chart, w, inserted, yields_bind.mpr ⟨(), told, ?_, ?_⟩⟩
    · exact yields_tell.mpr rfl
    · rw [List.length_cons, Nat.add_comm refs.length, ← Nat.add_assoc]
      exact ran

/-- Inserting what was extracted changes nothing. -/
theorem insertAll_extract {stem : String} {refs : List Reference}
    (read : Chart.ofBytes e bytes = .ok chart) (plain : '/' ∉ stem.toList)
    (ran : (extract chart stem dir false .utf8).Yields w refs w')
    (distinct : (refs.map Reference.file).Nodup) (flat : ∀ r ∈ refs, '\n' ∉ r.file.toList)
    (keep ignoreMissing : Bool) :
    ∃ w'', (insertAll chart stem dir .utf8 keep ignoreMissing).Yields w' (chart, refs.length)
      w'' := by
  rw [extract] at ran
  obtain ⟨_, w₁, _, writing⟩ := yields_bind.mp ran
  obtain ⟨_, w₂, scripts, indexing⟩ := yields_bind.mp writing
  obtain ⟨_, w₃, indexed, last⟩ := yields_bind.mp indexing
  obtain ⟨rfl, rfl⟩ := yields_pure.mp last
  obtain ⟨refs, made, paired⟩ := exists_referencesFrom plain [] chart.scenarios
  rw [List.nil_append] at made
  change references stem chart = refs at made
  rw [made] at scripts indexed distinct flat ⊢
  obtain ⟨length, paired⟩ := List.forall₂_iff_zip.mp paired
  have files : (chart.scenarios.zip refs).map (fun pair => pair.2.file) =
      refs.map Reference.file := by
    rw [← List.map_snd_zip length.ge, List.map_map, List.map_snd_zip length.ge]
    rfl
  obtain ⟨written, _⟩ := writeScripts_written (fun pair member => (paired member).2)
    (files ▸ distinct) scripts
  obtain ⟨bytes', stored, decoded⟩ := writeText_utf8 indexed
  -- The index lies beside the scripts, so that they are as before.
  have isName : Path.IsName (stem ++ ".lsbref") := Path.isName_append plain (by decide) (by decide)
  have kept : List.Forall₂ (fun s r => s ∈ chart.scenarios ∧ r.line = s.line ∧
      IsScript r.file ∧ Written w₃.files dir s r) chart.scenarios refs := by
    refine List.forall₂_iff_zip.mpr ⟨length, fun {s r} member => ?_⟩
    obtain ⟨line, script⟩ := paired member
    obtain ⟨bytes'', readable, decoded⟩ := written (s, r) member
    exact ⟨(List.of_mem_zip member).1, line, script, bytes'',
      FileTree.read_beside script.isName isName (script.differs stem) readable stored, decoded⟩
  obtain ⟨w'', inserted⟩ := insertEntries_written read kept rfl 0
  refine ⟨w'', yields_bind.mpr ⟨_, w₃, Store.readText_yields.mpr ⟨rfl, bytes', ?_, decoded⟩, ?_⟩⟩
  · exact FileTree.read_stored stored
  · rw [Reference.indexEntries_indexText flat]
    rw [Nat.zero_add] at inserted
    exact inserted

/-- The references of the sample, under a stem that holds the mark of a reference. -/
def sampleReferences : List Reference :=
  [⟨"c:-line0.lns", 0⟩]

/-- The world in which the sample was extracted. -/
def sampleExtracted (script index : List UInt8) : World where
  files := ⟨[(["out"], .directory), (["out", "c:-line0.lns"], .file script),
    (["out", "c:.lsbref"], .file index)]⟩
  notices := [.wrote "out/c:-line0.lns"]

set_option maxRecDepth 10000 in
/-- The sample is extracted, and inserting its script changes nothing. -/
theorem insertAll_extract_sample : ∃ script index,
    (extract Chart.sample.marked "c:" "out" false .utf8).Yields ⟨{}, "", []⟩ sampleReferences
        (sampleExtracted script index) ∧
      ∃ w'', (insertAll Chart.sample.marked "c:" "out" .utf8 true false).Yields
        (sampleExtracted script index) (Chart.sample.marked, 1) w'' := by
  have read : Chart.ofBytes .cp932 Chart.sampleBytes = .ok Chart.sample.marked := by
    rfl
  have refs : references "c:" Chart.sample.marked = sampleReferences := by
    rfl
  obtain ⟨s, pairs⟩ : ∃ s, Chart.sample.marked.scenarios.zip sampleReferences =
      [(s, ⟨"c:-line0.lns", 0⟩)] := ⟨_, rfl⟩
  have writable : ∀ text : String, ∃ bytes, Encoding.utf8.encode text = .ok bytes := fun text =>
    ⟨_, Encoding.encodeChars_utf8 text.toList⟩
  obtain ⟨script, encoded⟩ := writable (Script.print false s.block.tokens)
  obtain ⟨index, encoded'⟩ := writable (Reference.indexText sampleReferences)
  let made : World := ⟨⟨[(["out"], .directory)]⟩, "", []⟩
  let wrote : World :=
    ⟨⟨[(["out"], .directory), (["out", "c:-line0.lns"], .file script)]⟩, "", []⟩
  let told : World := { wrote with notices := [.wrote "out/c:-line0.lns"] }
  have written :
      (writeScripts "out" false .utf8 [(s, ⟨"c:-line0.lns", 0⟩)]).Yields made () told := by
    refine yields_bind.mpr ⟨(), wrote, ?_, yields_bind.mpr ⟨(), told, ?_, ?_⟩⟩
    · exact Store.writeText_yields.mpr ⟨script, wrote.files, encoded, rfl, rfl⟩
    · exact yields_tell.mpr rfl
    · exact yields_pure.mpr ⟨rfl, rfl⟩
  have ran : (extract Chart.sample.marked "c:" "out" false .utf8).Yields ⟨{}, "", []⟩
      sampleReferences (sampleExtracted script index) := by
    rw [extract, refs]
    dsimp only
    rw [pairs]
    refine yields_bind.mpr ⟨(), made, ?_, yields_bind.mpr ⟨(), told, written, ?_⟩⟩
    · exact yields_during.mpr (yields_change.mpr ⟨made.files, rfl, rfl⟩)
    · refine yields_bind.mpr ⟨(), sampleExtracted script index, ?_, yields_pure.mpr ⟨rfl, rfl⟩⟩
      exact Store.writeText_yields.mpr
        ⟨index, (sampleExtracted script index).files, encoded', rfl, rfl⟩
  exact ⟨script, index, ran, insertAll_extract read (by decide) ran (by decide) (by decide) true
    false⟩

end Scripts

end NovelChart
