import NovelChart.Proofs.Certification
import NovelChart.Proofs.Frame
import NovelChart.Proofs.World
import NovelChart.Tool.Run

/-!
# What is written back is certified

Three jobs edit a chart and write it over the file that it was read from. Whatever scripts, indexes
or sheets they take their texts from, the file can be read again afterwards, and it is certified.
Until the chart is written the jobs only look at files, so the path still leads to where the chart
was read; and the chart that is written has the frame of the one that was read, so its bytes are the
image of a chart.

What a job makes of its chart is told by the files that it finds, without a run: a script is put in
place of a block, the scripts of an index one after another, and a sheet is applied. How sheets and
settings are spelled is left to the formats of the run.

## Main definitions

* `Job.edited?`: the path of the chart that a job edits
* `Scripts.Inserts`, `Job.Edits`: what an index and what a job make of a chart

## Main results

* `Validator.validate_isOk`: an image is certified
* `Chart.image_of_frame`: what editing makes of a chart that was read is written as an image
* `Run.job_writes`: a job that edits a chart writes what it makes of it
* `Run.request_certified`: after a job that edits a chart, the file holds the edited chart and is
  certified
-/

namespace NovelChart

open NovelChart.Action

/-- The bytes of a chart are certified when scripts leave nothing out. -/
theorem Validator.validate_isOk {e : Encoding} {bytes : List UInt8} {chart : Chart}
    {layout : Layout} (image : Chart.Image e bytes chart layout) (keep : Bool) :
    ∃ report, Validator.validate ⟨false, keep⟩ e bytes = .ok report ∧ report.isOk = true := by
  have read : Chart.decodeLayout ⟨e, true⟩ bytes = .ok (chart, layout) :=
    Chart.decodeLayout_eq_ok.mpr image
  obtain ⟨checks, checked, _, same⟩ := @checkBlocks_eq_ok e ⟨false, keep⟩ layout _ image.holds.2 0
  refine ⟨⟨Digest.sha256Hex bytes, Digest.sha256Hex bytes, [], checks⟩, ?_, ?_⟩
  · simp only [validate, read, Except.mapError, bind, Except.bind, image.toBytes_eq, checked,
      if_true, pure, Except.pure]
  · rw [Report.isOk, Report.isIdentical, beq_self_eq_true, Bool.true_and, List.all_eq_true]
    exact same rfl

namespace Chart

variable {e : Encoding} {bytes : List UInt8} {c : Chart}

/-- The bytes of a chart with the frame of one that was read are the image of some chart. -/
theorem image_of_frame {c' : Chart} {bytes' : List UInt8} (read : Chart.ofBytes e bytes = .ok c)
    (same : c'.frame = c.frame) (written : c'.toBytes = .ok bytes')
    (small : bytes'.length < 2 ^ 32) : ∃ chart layout, Image e bytes' chart layout := by
  obtain ⟨layout, image⟩ := ofBytes_eq_ok.mp read
  obtain ⟨layout', image'⟩ := image_reread (image.sound.of_frame same) written small
  rw [encoding_of_frame same, image.encoding] at image'
  exact ⟨_, layout', image'⟩

end Chart

/-! ### What jobs make of a chart -/

/-- A path leads to a text in an encoding. -/
def FileTree.HoldsText (files : FileTree) (path : String) (e : Encoding) (text : String) : Prop :=
  ∃ bytes, files.read path = .ok bytes ∧ e.decode bytes = .ok text

/-- The scripts that the entries of an index list are put into a chart one after another. One that
is missing may be passed over. -/
inductive Scripts.Inserts (files : FileTree) (dir : String) (e : Encoding)
    (keep ignoreMissing : Bool) : List String → Chart → Chart → Prop
  | nil (chart : Chart) : Inserts files dir e keep ignoreMissing [] chart chart
  | put {entry script : String} {entries : List String} {r : Reference} {c c₁ c' : Chart}
      (listed : Reference.ofText entry = .ok r)
      (held : files.HoldsText (Path.join dir r.file) e script)
      (edited : c.replaceBlockScript r.line keep script = .ok c₁)
      (rest : Inserts files dir e keep ignoreMissing entries c₁ c') :
      Inserts files dir e keep ignoreMissing (entry :: entries) c c'
  | pass {entry : String} {entries : List String} {r : Reference} {c c' : Chart}
      (listed : Reference.ofText entry = .ok r)
      (missing : files.contains (Path.join dir r.file) = false) (ignored : ignoreMissing = true)
      (rest : Inserts files dir e keep ignoreMissing entries c c') :
      Inserts files dir e keep ignoreMissing (entry :: entries) c c'

namespace Job

/-- The path of the chart that a job edits, if it edits one. -/
def edited? : Job → Option String
  | .insert input .. => some input
  | .batchInsert input .. => some input
  | .insertSheet input .. => some input
  | _ => none

/-- What a job makes of its chart, under some settings and with the files that it finds. -/
inductive Edits (formats : Formats) (s : Settings) (files : FileTree) : Job → Chart → Chart → Prop
  | insert {input path script : String} {line : Nat} {e : Encoding} {backup : Bool} {c c' : Chart}
      (held : files.HoldsText path e script)
      (edited : c.replaceBlockScript line s.keepComments script = .ok c') :
      Edits formats s files (.insert input path line e backup) c c'
  | batchInsert {input dir stem index : String} {e : Encoding} {backup ignoreMissing : Bool}
      {c c' : Chart} (named : Path.stem? input = some stem)
      (held : files.HoldsText (Reference.indexPath dir stem) e index)
      (edited : Scripts.Inserts files dir e s.keepComments ignoreMissing
        (Reference.indexEntries index) c c') :
      Edits formats s files (.batchInsert input dir e backup ignoreMissing) c c'
  | insertSheet {input path text : String} {sheet : Sheet} {backup : Bool} {count : Nat} {c : Chart}
      (held : files.readText path = .ok text) (spelled : formats.sheet? text = some sheet)
      (applied : (sheet.apply c).result = .ok count) :
      Edits formats s files (.insertSheet input path backup) c (sheet.apply c).chart

end Job

/-- Inserting the scripts of an index is editing. -/
theorem Scripts.Inserts.revised {files : FileTree} {dir : String} {e : Encoding}
    {keep ignoreMissing : Bool} {entries : List String} {c c' : Chart}
    (inserts : Inserts files dir e keep ignoreMissing entries c c') :
    Relation.ReflTransGen Chart.Revised c c' := by
  induction inserts with
  | nil chart => exact .refl
  | put _ _ edited _ ih => exact .head (.script edited) ih
  | pass _ _ _ _ ih => exact ih

/-- What a job makes of a chart has the frame of the chart. -/
theorem Job.Edits.frame {formats : Formats} {s : Settings} {files : FileTree} {j : Job}
    {c c' : Chart} (edits : j.Edits formats s files c c') : c'.frame = c.frame := by
  cases edits with
  | insert _ edited => exact Chart.frame_replaceBlockScript edited
  | batchInsert _ _ edited => exact Chart.frame_of_revised edited.revised
  | insertSheet _ _ _ => exact Sheet.frame_apply _ c

/-- If there were no texts to replace, the chart is as it was. -/
theorem Chart.replaceTexts_none {edits : List (TextId × String)} {c c' : Chart}
    (replaced : c.replaceTexts edits = (.ok 0, c')) : c' = c := by
  simp only [replaceTexts, Prod.mk.injEq] at replaced
  obtain ⟨counted, same⟩ := replaced
  cases outcome : (replaceInOrder (edits.mergeSort notBefore) c).1 with
  | error e =>
    rw [outcome] at counted
    cases counted
  | ok done =>
    rw [outcome] at counted
    obtain rfl : edits = [] := List.length_eq_zero_iff.mp (Except.ok.inj counted)
    rw [← same, List.mergeSort_nil, replaceInOrder]

namespace Sheet

/-- The number of replacements goes up with each of them. -/
theorem applyChoices_count {current : List Choice} {entries : List ChoiceEntry} {n count : Nat}
    {c : Chart} (applied : (applyChoices current entries n c).result = .ok count) :
    n ≤ count ∧ (count = n → (applyChoices current entries n c).chart = c) := by
  fun_induction applyChoices current entries n c with
  | case1 n c =>
    cases applied
    exact ⟨le_rfl, fun _ => rfl⟩
  | case2 entry entries n c empty ih => exact ih applied
  | case3 entry entries n c filled there c' replaced ih =>
    obtain ⟨more, _⟩ := ih applied
    exact ⟨by omega, by omega⟩
  | case4 entry entries n c filled there e refused => cases applied
  | case5 entry entries n c filled stale rest ih => exact ih applied

/-- A sheet that replaces nothing leaves the chart as it is. -/
theorem apply_none {s : Sheet} {c : Chart} (applied : (s.apply c).result = .ok 0) :
    (s.apply c).chart = c := by
  rw [apply] at applied ⊢
  cases asked : edits s.chart (c.texts s.chart) s.texts with
  | mk notices asks =>
    rw [asked] at applied
    cases asks with
    | error f => cases applied
    | ok edits =>
      dsimp only at applied ⊢
      cases replaced : c.replaceTexts edits with
      | mk result c' =>
        rw [replaced] at applied
        cases result with
        | error e => cases applied
        | ok n =>
          obtain ⟨few, same⟩ := applyChoices_count applied
          obtain rfl : n = 0 := by omega
          exact (same rfl).trans (Chart.replaceTexts_none replaced)

end Sheet

/-! ### Actions that only look -/

section

variable {w w' : World} {path : String} {e : Encoding} {chart chart' : Chart}

theorem Store.entryStem_yields {stem : String} (ran : (Store.entryStem path).Yields w stem w') :
    w' = w ∧ Path.stem? path = some stem := by
  rw [Store.entryStem] at ran
  split at ran
  · next named =>
    obtain ⟨rfl, rfl⟩ := yields_pure.mp ran
    exact ⟨rfl, named⟩
  · exact (yields_throw.mp ran).elim

namespace Scripts

/-- Inserting a script leaves the files alone and compiles what the script's file holds. -/
theorem insert_yields {line : Nat} {keep : Bool}
    (ran : (insert chart line path e keep).Yields w chart' w') : w'.files = w.files ∧
      ∃ script, w.files.HoldsText path e script ∧
        chart.replaceBlockScript line keep script = .ok chart' := by
  rw [insert, yields_bind] at ran
  obtain ⟨script, _, looked, rest⟩ := ran
  obtain ⟨rfl, held⟩ := Store.readText_yields.mp looked
  obtain ⟨edited, rfl⟩ := yields_orFail.mp rest
  exact ⟨rfl, script, held, edited⟩

variable {dir : String} {keep ignoreMissing : Bool} {count : Nat}

/-- Inserting the entries of an index leaves the files alone and puts in one script after another. -/
theorem insertEntries_yields {entries : List String} {start : Nat}
    (ran : (insertEntries dir e keep ignoreMissing entries chart start).Yields w
      (chart', count) w') :
    w'.files = w.files ∧ Inserts w.files dir e keep ignoreMissing entries chart chart' := by
  induction entries generalizing chart start w with
  | nil =>
    obtain ⟨same, rfl⟩ := yields_pure.mp ran
    cases same
    exact ⟨rfl, .nil _⟩
  | cons entry entries ih =>
    rw [insertEntries] at ran
    split at ran
    · exact (yields_throw.mp ran).elim
    · next r listed =>
      obtain ⟨_, _, got, rest⟩ := yields_bind.mp ran
      obtain ⟨rfl, rfl⟩ := yields_get.mp got
      split at rest
      · obtain ⟨chart₁, w₁, inserted, telling⟩ := yields_bind.mp rest
        obtain ⟨_, w₂, told, last⟩ := yields_bind.mp telling
        obtain ⟨files, script, held, edited⟩ := insert_yields inserted
        obtain ⟨files', more⟩ := ih last
        rw [files_of_tell told, files] at files' more
        exact ⟨files', .put listed held edited more⟩
      · next missing =>
        rw [Bool.not_eq_true] at missing
        split at rest
        · next ignored =>
          obtain ⟨_, _, told, last⟩ := yields_bind.mp rest
          obtain ⟨files, more⟩ := ih last
          rw [files_of_tell told] at files more
          exact ⟨files, .pass listed missing ignored more⟩
        · exact (yields_throw.mp rest).elim

theorem insertAll_yields {stem : String}
    (ran : (insertAll chart stem dir e keep ignoreMissing).Yields w (chart', count) w') :
    w'.files = w.files ∧ ∃ index, w.files.HoldsText (Reference.indexPath dir stem) e index ∧
      Inserts w.files dir e keep ignoreMissing (Reference.indexEntries index) chart chart' := by
  rw [insertAll, yields_bind] at ran
  obtain ⟨index, _, looked, rest⟩ := ran
  obtain ⟨rfl, held⟩ := Store.readText_yields.mp looked
  obtain ⟨files, inserts⟩ := insertEntries_yields rest
  exact ⟨files, index, held, inserts⟩

end Scripts

namespace Run

variable {formats : Formats}

theorem loadSheet_yields {sheet : Sheet} (ran : (loadSheet formats path).Yields w sheet w') :
    w' = w ∧ ∃ text, w.files.readText path = .ok text ∧ formats.sheet? text = some sheet := by
  rw [loadSheet, yields_bind] at ran
  obtain ⟨text, _, looked, rest⟩ := ran
  obtain ⟨found, rfl⟩ := yields_look.mp (yields_during.mp looked)
  split at rest
  · next spelled =>
    obtain ⟨rfl, rfl⟩ := yields_pure.mp rest
    exact ⟨rfl, text, found, spelled⟩
  · exact (yields_throw.mp rest).elim

theorem applySheet_yields {sheet : Sheet} {count : Nat}
    (ran : (applySheet sheet chart).Yields w (chart', count) w') :
    w'.files = w.files ∧ chart' = (sheet.apply chart).chart ∧
      (sheet.apply chart).result = .ok count := by
  rw [applySheet] at ran
  obtain ⟨_, _, told, rest⟩ := yields_bind.mp ran
  obtain rfl := yields_tellAll.mp told
  split at rest
  · next ended =>
    obtain ⟨same, rfl⟩ := yields_pure.mp rest
    cases same
    exact ⟨rfl, rfl, ended⟩
  · exact (yields_throw.mp rest).elim

theorem loadSettings_yields {s : Settings} (ran : (loadSettings formats path).Yields w s w') :
    w' = w := by
  rw [loadSettings, yields_bind] at ran
  obtain ⟨text, _, looked, rest⟩ := ran
  obtain ⟨_, rfl⟩ := yields_look.mp (yields_during.mp looked)
  split at rest
  · exact (yields_pure.mp rest).2.symm
  · exact (yields_throw.mp rest).elim

/-- The settings of a request are read before anything is changed. -/
theorem settings_yields {s : Settings} {r : Request} (ran : (settings formats r).Yields w s w') :
    w' = w := by
  rw [settings] at ran
  split at ran
  · obtain ⟨_, _, loaded, rest⟩ := yields_bind.mp ran
    obtain rfl := loadSettings_yields loaded
    exact (yields_pure.mp rest).2.symm
  · obtain ⟨_, _, chosen, rest⟩ := yields_bind.mp ran
    obtain ⟨_, rfl⟩ := yields_pure.mp chosen
    exact (yields_pure.mp rest).2.symm

end Run

end

/-! ### Jobs that edit -/

namespace Run

variable {w w' : World} {path : String} {formats : Formats} {done : Unit}

/-- A chart that is saved is there when this was told. -/
theorem saveChart_told {chart : Chart} {backup : Bool} {n : Notice} {old : List UInt8}
    (readable : w.files.read path = .ok old)
    (ran : (do Store.saveChart path chart backup; tell n : Tool Unit).Yields w done w') :
    ∃ bytes, chart.toBytes = .ok bytes ∧ w'.files.read path = .ok bytes := by
  obtain ⟨_, _, saved, told⟩ := yields_bind.mp ran
  rw [files_of_tell told]
  exact Store.saveChart_yields readable saved

/-- A job that edits a chart reads it, and afterwards the file holds what the job makes of it. -/
theorem job_writes {s : Settings} {j : Job} (edited : j.edited? = some path)
    (ran : (job formats s j).Yields w done w') : ∃ old chart chart' bytes,
      w.files.read path = .ok old ∧ Chart.ofBytes s.encoding old = .ok chart ∧
      j.Edits formats s w.files chart chart' ∧
      chart'.toBytes = .ok bytes ∧ w'.files.read path = .ok bytes := by
  cases j with
  | insert input script line scripts backup =>
    cases edited
    rw [job] at ran
    obtain ⟨chart, w₁, loaded, editing⟩ := yields_bind.mp ran
    obtain ⟨files, old, readable, read⟩ := Store.loadChart_yields loaded
    obtain ⟨chart', w₂, inserted, saving⟩ := yields_bind.mp editing
    obtain ⟨files', text, held, edited⟩ := Scripts.insert_yields inserted
    rw [files] at held files'
    obtain ⟨bytes, written, stored⟩ := saveChart_told (files' ▸ readable) saving
    exact ⟨old, chart, chart', bytes, readable, read, .insert held edited, written, stored⟩
  | batchInsert input dir scripts backup ignoreMissing =>
    cases edited
    rw [job] at ran
    obtain ⟨chart, w₁, loaded, naming⟩ := yields_bind.mp ran
    obtain ⟨files, old, readable, read⟩ := Store.loadChart_yields loaded
    obtain ⟨stem, _, stemmed, editing⟩ := yields_bind.mp naming
    obtain ⟨rfl, named⟩ := Store.entryStem_yields stemmed
    obtain ⟨⟨chart', count⟩, w₂, inserted, saving⟩ := yields_bind.mp editing
    obtain ⟨files', index, held, inserts⟩ := Scripts.insertAll_yields inserted
    rw [files] at held inserts files'
    obtain ⟨bytes, written, stored⟩ := saveChart_told (files' ▸ readable) saving
    exact ⟨old, chart, chart', bytes, readable, read, .batchInsert named held inserts, written,
      stored⟩
  | insertSheet input sheetPath backup =>
    cases edited
    rw [job] at ran
    obtain ⟨chart, w₁, loaded, reading⟩ := yields_bind.mp ran
    obtain ⟨files, old, readable, read⟩ := Store.loadChart_yields loaded
    obtain ⟨sheet, _, looked, editing⟩ := yields_bind.mp reading
    obtain ⟨rfl, text, held, spelled⟩ := loadSheet_yields looked
    obtain ⟨⟨chart', count⟩, w₂, applying, saving⟩ := yields_bind.mp editing
    obtain ⟨files', rfl, applied⟩ := applySheet_yields applying
    rw [files] at held files'
    have edits : (Job.insertSheet path sheetPath backup).Edits formats s w.files chart
        (sheet.apply chart).chart := .insertSheet held spelled applied
    dsimp only at saving
    split at saving
    · next none =>
      -- Nothing was replaced, so the file is the one that was read.
      subst none
      obtain ⟨layout, image⟩ := Chart.ofBytes_eq_ok.mp read
      refine ⟨old, chart, _, old, readable, read, edits, ?_, ?_⟩
      · rw [Sheet.apply_none applied]
        exact image.toBytes_eq
      · rw [files_of_tell saving, files']
        exact readable
    · obtain ⟨bytes, written, stored⟩ := saveChart_told (files' ▸ readable) saving
      exact ⟨old, chart, _, bytes, readable, read, edits, written, stored⟩
  | info input => cases edited
  | validate inputs => cases edited
  | dump input output textOnly => cases edited
  | extract inputs outputDir scripts => cases edited
  | extractSheet input output => cases edited

/-- A request that edits a chart and succeeds has read the chart and holds what the job makes of it
in its place, in whatever formats sheets and settings are spelled. The file can be read in the
encoding of the request and is certified, unless it is too long. -/
theorem request_certified {r : Request} (edited : r.job.edited? = some path)
    (ran : (request r formats).Yields w done w') : ∃ s old chart chart' bytes,
      (settings formats r).Yields w s w ∧
      w.files.read path = .ok old ∧ Chart.ofBytes s.encoding old = .ok chart ∧
      r.job.Edits formats s w.files chart chart' ∧
      chart'.toBytes = .ok bytes ∧ w'.files.read path = .ok bytes ∧
      (bytes.length < 2 ^ 32 → (∃ chart, Chart.ofBytes s.encoding bytes = .ok chart) ∧
        ∀ keep, ∃ report, Validator.validate ⟨false, keep⟩ s.encoding bytes = .ok report ∧
          report.isOk = true) := by
  rw [request, yields_bind] at ran
  obtain ⟨s, _, chosen, working⟩ := ran
  obtain rfl := settings_yields chosen
  obtain ⟨old, chart, chart', bytes, readable, read, edits, written, stored⟩ :=
    job_writes edited working
  refine ⟨s, old, chart, chart', bytes, chosen, readable, read, edits, written, stored, ?_⟩
  intro small
  obtain ⟨chart'', layout, image⟩ := Chart.image_of_frame read edits.frame written small
  exact ⟨⟨chart'', Chart.ofBytes_eq_ok.mpr ⟨layout, image⟩⟩, Validator.validate_isOk image⟩

/-- A sheet of the sample in block style, with a new text for the first segment. -/
def sampleSheetText : String :=
  "chart: c.lsb\ntexts:\n- id: lsb:text:c.lsb:0:0\n  original: Hi;\n  translation: Yo\nchoices: []\n"

/-- The sheet that the text spells. -/
def sampleSheet : Sheet where
  chart := "c.lsb"
  texts := [⟨"lsb:text:c.lsb:0:0", "Hi;", "Yo"⟩]

/-- Settings that name the encoding in single quotes. -/
def sampleSettingsText : String :=
  "encoding = 'cp932'\n"

/-- Formats with readers that know the two texts. -/
def sampleFormats : Formats where
  print := Document.toText
  sheet? text := if text = sampleSheetText then some sampleSheet else none
  settings? text := if text = sampleSettingsText then some {} else none

/-- A text as a file. -/
def textFile (text : String) : Node :=
  .file (text.toList.flatMap String.utf8EncodeChar)

/-- A directory with the sample chart, the sheet and the settings. -/
def sampleWorld : World where
  files := ⟨[(["c.lsb"], .file Chart.sampleBytes), (["t.yaml"], textFile sampleSheetText),
    (["s.toml"], textFile sampleSettingsText)]⟩

/-- The sheet is applied under the settings. -/
def sampleRequest : Request where
  settings := some "s.toml"
  job := .insertSheet "c.lsb" "t.yaml" true

/-- The chart that the request makes of the sample. -/
def sampleEdited : Chart :=
  Chart.sample.marked.setBlock 0 ⟨104, [.text "Yo", .lineBreak,
    .span ⟨"A", [("ID", "-3"), ("NAME", "x")]⟩ [.text "ｱ", .mark ⟨"PS", []⟩]]⟩

/-- A text in a file is read as it is. -/
theorem readText_textFile {files : FileTree} {path text : String}
    (found : files.find path = .ok (textFile text)) : files.readText path = .ok text := by
  have decoded := Encoding.decode_of_encode (e := .utf8) (Encoding.encodeChars_utf8 text.toList)
  rw [Encoding.reread_utf8] at decoded
  simp only [FileTree.readText, FileTree.read, found, textFile, bind, Except.bind, pure,
    Except.pure, decoded]

/-- The settings are read from a file with their text. -/
theorem loadSettings_sample {w : World}
    (found : w.files.find "s.toml" = .ok (textFile sampleSettingsText)) :
    (loadSettings sampleFormats "s.toml").Yields w {} w := by
  have spelled : sampleFormats.settings? sampleSettingsText = some {} := by
    simp [sampleFormats]
  refine yields_bind.mpr ⟨_, _, yields_during.mpr
    (yields_look.mpr ⟨readText_textFile found, rfl⟩), ?_⟩
  rw [spelled]
  exact yields_pure.mpr ⟨rfl, rfl⟩

/-- So is the sheet. -/
theorem loadSheet_sample {w : World}
    (found : w.files.find "t.yaml" = .ok (textFile sampleSheetText)) :
    (loadSheet sampleFormats "t.yaml").Yields w sampleSheet w := by
  have spelled : sampleFormats.sheet? sampleSheetText = some sampleSheet := by
    simp [sampleFormats]
  refine yields_bind.mpr ⟨_, _, yields_during.mpr
    (yields_look.mpr ⟨readText_textFile found, rfl⟩), ?_⟩
  rw [spelled]
  exact yields_pure.mpr ⟨rfl, rfl⟩

/-- The sheet replaces one text. -/
theorem apply_sampleSheet :
    sampleSheet.apply Chart.sample.marked = ⟨sampleEdited, [], .ok 1⟩ := by
  have asked : Sheet.edits sampleSheet.chart (Chart.sample.marked.texts sampleSheet.chart)
      sampleSheet.texts = ([], .ok [(⟨"c.lsb", 0, 0⟩, "Yo")]) := by
    rfl
  have made : Chart.replaceInOrder [(⟨"c.lsb", 0, 0⟩, "Yo")] Chart.sample.marked =
      (.ok (), sampleEdited) := by
    rfl
  simp only [Sheet.apply, asked, Chart.replaceTexts, List.mergeSort_singleton, made]
  rfl

set_option maxRecDepth 10000 in
/-- The request succeeds, and the chart is certified. -/
theorem request_certified_sample : ∃ w' bytes,
    (request sampleRequest sampleFormats).Yields sampleWorld () w' ∧
      w'.files.read "c.lsb" = .ok bytes ∧ sampleEdited.toBytes = .ok bytes ∧
      bytes.length < 2 ^ 32 ∧ ∃ report, Validator.validate ⟨false, true⟩ .cp932 bytes = .ok report ∧
        report.isOk = true := by
  let w₁ : World :=
    { sampleWorld with notices := Chart.readingNotices .cp932 Chart.sampleBytes }
  let w₂ := ((Store.saveChart "c.lsb" sampleEdited true).run.run w₁).2
  have chosen : (settings sampleFormats sampleRequest).Yields sampleWorld {} sampleWorld :=
    yields_bind.mpr ⟨{}, sampleWorld, loadSettings_sample (by rfl), yields_pure.mpr ⟨rfl, rfl⟩⟩
  have loaded : (Store.loadChart "c.lsb" .cp932).Yields sampleWorld Chart.sample.marked w₁ := by
    change _ = _
    rfl
  have applied : (applySheet sampleSheet Chart.sample.marked).Yields w₁ (sampleEdited, 1) w₁ := by
    rw [applySheet, apply_sampleSheet]
    change _ = _
    rfl
  have saved : (Store.saveChart "c.lsb" sampleEdited true).Yields w₁ () w₂ := by
    refine Prod.ext ?_ rfl
    rfl
  have ran : (request sampleRequest sampleFormats).Yields sampleWorld () _ :=
    yields_bind.mpr ⟨{}, sampleWorld, chosen, yields_bind.mpr ⟨_, w₁, loaded,
      yields_bind.mpr ⟨_, w₁, loadSheet_sample (by rfl), yields_bind.mpr ⟨_, w₁, applied,
        yields_bind.mpr ⟨(), w₂, saved, yields_tell.mpr rfl⟩⟩⟩⟩⟩
  obtain ⟨s, old, chart, chart', bytes, chosen', _, _, _, _, found, certified⟩ :=
    request_certified rfl ran
  cases chosen.symm.trans chosen'
  obtain ⟨_, written, stored⟩ := Store.saveChart_yields (by rfl) saved
  cases found.symm.trans stored
  have small : bytes.length < 2 ^ 32 := by
    have length : (sampleEdited.toBytes.map List.length).toOption = some 140 := by
      rfl
    rw [written] at length
    have count : bytes.length = 140 := Option.some.inj length
    omega
  exact ⟨_, bytes, ran, found, written, small, (certified small).2 true⟩

end Run

end NovelChart
