import NovelChart.Proofs.Insertion

/-!
# What a failed job leaves behind

A job that edits a chart works on the chart that it has read and writes at its very end. As long as
it reads, compiles and replaces it only looks at files, however that ends. Only then the chart is
encoded, its file is copied, directories are made and the file is written over, and nothing can fail
after that. So a job that fails at any point leaves every file as it was. What it can leave behind
are the copy and directories.

## Main definitions

* `Action.Fails`: from one world, the action fails in another
* `Action.Looks`: however it ends, the action leaves the files as they are
* `FileTree.Aside`: what may be added to a tree while a file is saved
* `Action.Spares`: when it fails, the action has only added to the files

## Main results

* `Store.spares_saveChart`: saving a chart can fail, but not after the file was written
* `Run.failure_spares_files`: a job that fails leaves every file as it was
-/

namespace NovelChart

namespace Action

variable {ε ε' α β : Type} {a : Action ε α} {g : α → Action ε β} {w w' : World} {f : ε}

/-! ### Actions that fail -/

theorem run_bind (a : Action ε α) (g : α → Action ε β) (w : World) :
    (a >>= g).run.run w = match a.run.run w with
      | (.ok x, w') => (g x).run.run w'
      | (.error f, w') => (.error f, w') := by
  rw [ExceptT.run_bind, StateT.run_bind]
  cases a.run.run w with
  | mk result w₁ => cases result <;> rfl

/-- From a world, the action fails in another world. -/
def Fails (a : Action ε α) (w : World) (f : ε) (w' : World) : Prop :=
  a.run.run w = (.error f, w')

/-- A sequence fails in its first action, or in the second one after the first has succeeded. -/
theorem fails_bind {w'' : World} : (a >>= g).Fails w f w'' ↔
    a.Fails w f w'' ∨ ∃ x w', a.Yields w x w' ∧ (g x).Fails w' f w'' := by
  simp only [Fails, Yields, run_bind]
  constructor
  · intro failed
    split at failed
    · next x w' ran => exact .inr ⟨x, w', ran, failed⟩
    · next ran =>
      cases failed
      exact .inl ran
  · rintro (ran | ⟨x, w', ran, failed⟩)
    · rw [ran]
    · rw [ran]
      exact failed

theorem not_fails_pure {x : α} : ¬(pure x : Action ε α).Fails w f w' := by
  intro failed
  cases failed

theorem not_fails_tell {n : Notice} : ¬(tell n : Action ε Unit).Fails w f w' := by
  intro failed
  cases failed

theorem fails_look {op : FileTree → Except IoFault α} {fault : IoFault}
    (failed : (look op).Fails w fault w') : w' = w := by
  rw [look] at failed
  rcases fails_bind.mp failed with early | ⟨_, _, got, looked⟩
  · cases early
  obtain ⟨rfl, rfl⟩ := yields_get.mp got
  split at looked
  · exact (not_fails_pure looked).elim
  · cases looked
    rfl

/-- A change that fails changes nothing. -/
theorem fails_change {op : FileTree → Except IoFault FileTree} {fault : IoFault}
    (failed : (change op).Fails w fault w') : w' = w := by
  rw [change] at failed
  rcases fails_bind.mp failed with early | ⟨_, _, got, changed⟩
  · cases early
  obtain ⟨rfl, rfl⟩ := yields_get.mp got
  split at changed
  · cases changed
  · cases changed
    rfl

theorem fails_adapt {f' : ε'} {h : ε → ε'} (failed : Fails (ExceptT.adapt h a) w f' w') :
    ∃ f, a.Fails w f w' := by
  have run_eq : (ExceptT.adapt h a).run.run w =
      ((a.run.run w).1.mapError h, (a.run.run w).2) := rfl
  rw [Fails, run_eq] at failed
  simp only [Fails]
  cases ran : a.run.run w with
  | mk result w₁ =>
    rw [ran] at failed
    cases result with
    | ok x => cases failed
    | error f =>
      cases failed
      exact ⟨f, rfl⟩

/-! ### Actions that only look -/

/-- However it ends, the action leaves the files as they are. -/
def Looks (a : Action ε α) : Prop :=
  ∀ w, (a.run.run w).2.files = w.files

theorem Looks.files_of_yields {x : α} (looks : a.Looks) (ran : a.Yields w x w') :
    w'.files = w.files := by
  have same := looks w
  rwa [ran] at same

theorem Looks.files_of_fails (looks : a.Looks) (failed : a.Fails w f w') :
    w'.files = w.files := by
  have same := looks w
  rwa [failed] at same

theorem looks_pure (x : α) : (pure x : Action ε α).Looks :=
  fun _ => rfl

theorem looks_throw (f : ε) : (throw f : Action ε α).Looks :=
  fun _ => rfl

theorem looks_get : (get : Action ε World).Looks :=
  fun _ => rfl

theorem looks_tell (n : Notice) : (tell n : Action ε Unit).Looks :=
  fun _ => rfl

theorem looks_tellAll (ns : List Notice) : (tellAll ns : Action ε Unit).Looks :=
  fun _ => rfl

theorem Looks.bind (first : a.Looks) (second : ∀ x, (g x).Looks) : (a >>= g).Looks := by
  intro w
  have same := first w
  rw [run_bind]
  split
  · next x w' ran =>
    rw [ran] at same
    exact (second x w').trans same
  · next ran =>
    rw [ran] at same
    exact same

theorem Looks.adapt {h : ε → ε'} (looks : a.Looks) : Looks (ExceptT.adapt h a) :=
  fun w => looks w

theorem looks_look (op : FileTree → Except IoFault α) : (look op).Looks := by
  rw [look]
  apply looks_get.bind
  intro w
  split
  · exact looks_pure _
  · exact looks_throw _

theorem looks_during (activity : Activity) (op : FileTree → Except IoFault α) :
    (during activity (look op)).Looks :=
  (looks_look op).adapt

theorem looks_orFail (h : Error → Failure) (m : Except Error α) : (orFail h m).Looks := by
  cases m with
  | ok x => exact looks_pure x
  | error e => exact looks_throw (h e)

end Action

open NovelChart.Action

/-! ### What the jobs look at -/

namespace Store

theorem looks_readText (path : String) (e : Encoding) : (readText path e).Looks := by
  rw [readText]
  apply (looks_during _ _).bind
  intro bytes
  split
  · exact looks_pure _
  · exact looks_throw _

theorem looks_loadChart (path : String) (e : Encoding) : (loadChart path e).Looks := by
  rw [loadChart]
  apply (looks_during _ _).bind
  intro bytes
  apply (looks_tellAll _).bind
  intro _
  split
  · exact looks_pure _
  · exact looks_throw _

theorem looks_entryStem (path : String) : (entryStem path).Looks := by
  rw [entryStem]
  split
  · exact looks_pure _
  · exact looks_throw _

end Store

namespace Scripts

theorem looks_insert (chart : Chart) (line : Nat) (path : String) (e : Encoding) (keep : Bool) :
    (insert chart line path e keep).Looks := by
  rw [insert]
  apply (Store.looks_readText path e).bind
  intro script
  exact looks_orFail _ _

theorem looks_insertEntries (dir : String) (e : Encoding) (keep ignoreMissing : Bool)
    (entries : List String) (chart : Chart) (count : Nat) :
    (insertEntries dir e keep ignoreMissing entries chart count).Looks := by
  induction entries generalizing chart count with
  | nil => exact looks_pure _
  | cons entry entries ih =>
    rw [insertEntries]
    split
    · exact looks_throw _
    · next r _ =>
      -- Of the files it is only asked whether they hold the script.
      apply looks_get.bind
      intro w
      split
      · apply (looks_insert chart r.line _ e keep).bind
        intro chart'
        exact (looks_tell _).bind fun _ => ih chart' (count + 1)
      · split
        · exact (looks_tell _).bind fun _ => ih chart count
        · exact looks_throw _

theorem looks_insertAll (chart : Chart) (stem dir : String) (e : Encoding)
    (keep ignoreMissing : Bool) : (insertAll chart stem dir e keep ignoreMissing).Looks := by
  rw [insertAll]
  apply (Store.looks_readText _ e).bind
  intro index
  exact looks_insertEntries dir e keep ignoreMissing _ chart 0

end Scripts

namespace Run

variable (formats : Formats)

theorem looks_loadSheet (path : String) : (loadSheet formats path).Looks := by
  rw [loadSheet]
  apply (looks_during _ _).bind
  intro text
  split
  · exact looks_pure _
  · exact looks_throw _

theorem looks_applySheet (sheet : Sheet) (chart : Chart) : (applySheet sheet chart).Looks := by
  rw [applySheet]
  apply (looks_tellAll _).bind
  intro _
  split
  · exact looks_pure _
  · exact looks_throw _

theorem looks_loadSettings (path : String) : (loadSettings formats path).Looks := by
  rw [loadSettings]
  apply (looks_during _ _).bind
  intro text
  split
  · exact looks_pure _
  · exact looks_throw _

theorem looks_settings (r : Request) : (settings formats r).Looks := by
  rw [settings]
  split
  · exact (looks_loadSettings formats _).bind fun _ => looks_pure _
  · exact (looks_pure _).bind fun _ => looks_pure _

end Run

/-! ### What is added while a file is saved -/

/-- What may be added to a tree while the file that a path names is saved: directories, and beside
the file a copy of it under its name with an extension. -/
inductive FileTree.Aside (t : FileTree) (path : String) : Location → Node → Prop
  | directory (place : Location) : Aside t path place .directory
  | copy {directory : Location} {name : String} {bytes : List UInt8}
    (named : Path.fileName? path = some name)
    (leads : t.follow (FileTree.start path) (Path.telling path) = .ok (directory ++ [name]))
    (holds : t.get? (directory ++ [name]) = some (.file bytes)) :
    Aside t path (directory ++ [name ++ ".bak"]) (.file bytes)

namespace FileTree

variable {t t' : FileTree} {path : String} {place place' : Location} {bytes bytes' : List UInt8}

/-- There is only one file that may be added. -/
theorem Aside.file_unique (one : t.Aside path place (.file bytes))
    (two : t.Aside path place' (.file bytes')) : place = place' ∧ bytes = bytes' := by
  cases one with
  | copy named leads holds =>
    cases two with
    | copy named' leads' holds' =>
      cases named.symm.trans named'
      have same := List.append_cancel_right (Except.ok.inj (leads.symm.trans leads'))
      subst same
      cases holds.symm.trans holds'
      exact ⟨rfl, rfl⟩

/-- A file is read as before from a tree that gained something. -/
theorem Gains.read {new : Location → Node → Prop} (gains : t.Gains new t')
    (readable : t.read path = .ok bytes) : t'.read path = .ok bytes := by
  obtain ⟨names, place, routed, found, here⟩ := read_eq_ok.mp readable
  exact read_eq_ok.mpr ⟨names, place, routed, gains.keeps.follow found, gains.kept _ _ here⟩

/-- The copy of a file goes beside it, where nothing was. -/
theorem gains_copy {entry : String} (named : Path.fileName? path = some entry)
    (missing : t.contains
      (Store.copyPath (Path.join ((Path.parent? path).getD ".") entry)) = false)
    (readable : t.read (Path.join ((Path.parent? path).getD ".") entry) = .ok bytes)
    (written : t.write (Store.copyPath (Path.join ((Path.parent? path).getD ".") entry)) bytes =
      .ok t') : t.Gains (t.Aside path) t' := by
  have isName := Path.isName_of_fileName? named
  have isName' : Path.IsName (entry ++ ".bak") :=
    Path.isName_append isName.plain (by decide) (by decide)
  obtain ⟨telling, rooted⟩ := Path.telling_join_parent named
  obtain ⟨front, joined⟩ := Path.exists_pieces_join ((Path.parent? path).getD ".")
  rw [Store.copyPath, Path.join_append isName.plain (by decide)] at missing written
  obtain ⟨_, place, routed, found, here⟩ := read_eq_ok.mp readable
  obtain ⟨_, place', routed', found', _, _, rfl⟩ := write_eq_ok written
  have free := get?_of_not_contains missing routed' found'
  obtain rfl := route_eq_ok routed
  obtain rfl := route_eq_ok routed'
  have leads := follow_telling found
  change t.follow _ (Path.telling _) = _ at leads
  rw [telling, start, rooted, ← start] at leads
  -- Both paths lead through the same directory.
  rw [start, (joined entry isName.plain).1, (joined entry isName.plain).2] at found
  rw [start, (joined _ isName'.plain).1, (joined _ isName'.plain).2] at found'
  obtain ⟨directory, first, rfl⟩ := follow_name isName found
  obtain ⟨directory', first', rfl⟩ := follow_name isName' found'
  obtain rfl := Except.ok.inj (first.symm.trans first')
  exact gains_set free (.copy named leads here)

end FileTree

namespace Action

variable {ε ε' α β : Type} {a : Action ε α} {g : α → Action ε β} {path : String}

/-- When the action fails, nothing but what goes aside of a file was added, and nothing else was
changed. -/
def Spares (path : String) (a : Action ε α) : Prop :=
  ∀ w f w', a.Fails w f w' → w.files.Gains (w.files.Aside path) w'.files

theorem Looks.spares (looks : a.Looks) : a.Spares path := by
  intro w f w' failed
  rw [looks.files_of_fails failed]
  exact .refl _

/-- What comes before only looks. -/
theorem Looks.spares_bind (looks : a.Looks) (rest : ∀ x, (g x).Spares path) :
    (a >>= g).Spares path := by
  intro w f w'' failed
  rcases fails_bind.mp failed with early | ⟨x, w', ran, late⟩
  · exact looks.spares w f w'' early
  · have gains := rest x w' f w'' late
    rwa [looks.files_of_yields ran] at gains

/-- What comes after cannot fail. -/
theorem Spares.bind_tell {a : Action ε Unit} (spares : a.Spares path) (n : Notice) :
    (do a; tell n).Spares path := by
  intro w f w'' failed
  rcases fails_bind.mp failed with early | ⟨_, w', _, late⟩
  · exact spares w f w'' early
  · exact (not_fails_tell late).elim

theorem Spares.adapt {h : ε → ε'} (spares : a.Spares path) : Spares path (ExceptT.adapt h a) := by
  intro w f w' failed
  obtain ⟨f', failed'⟩ := fails_adapt failed
  exact spares w f' w' failed'

end Action

namespace Store

variable {w w' : World} {path entry : String} {fault : IoFault}

/-- Copying a file that fails leaves the files as they are. -/
theorem backUp_fails (failed : (backUp path).Fails w fault w') : w' = w := by
  rw [backUp] at failed
  rcases fails_bind.mp failed with early | ⟨_, _, got, copying⟩
  · cases early
  obtain ⟨rfl, rfl⟩ := yields_get.mp got
  dsimp only at copying
  split at copying
  · rcases fails_bind.mp copying with unread | ⟨bytes, _, looked, writing⟩
    · exact fails_look unread
    obtain ⟨_, rfl⟩ := yields_look.mp looked
    rcases fails_bind.mp writing with unwritten | ⟨_, _, _, told⟩
    · exact fails_change unwritten
    · exact (not_fails_tell told).elim
  · exact (not_fails_pure copying).elim

/-- A file is copied beside it. -/
theorem backUp_gains (named : Path.fileName? path = some entry) {done : Unit}
    (ran : (backUp (Path.join ((Path.parent? path).getD ".") entry)).Yields w done w') :
    w.files.Gains (w.files.Aside path) w'.files := by
  rcases backUp_cases ran with ⟨same, _⟩ | ⟨bytes, missing, readable, written⟩
  · rw [same]
    exact .refl _
  · exact FileTree.gains_copy named missing readable written

/-- Writing a file back can fail, but not after it was written over. -/
theorem spares_writeBack (named : Path.fileName? path = some entry) (backup : Bool)
    (bytes : List UInt8) :
    (writeBack ((Path.parent? path).getD ".") backup entry bytes).Spares path := by
  intro w fault w' failed
  -- A step that fails changes nothing, so only the steps before it have to be followed.
  let joined := Path.join ((Path.parent? path).getD ".") entry
  have write : ∀ {w₁ : World}, w.files.Gains (w.files.Aside path) w₁.files →
      (Action.change (·.write joined bytes)).Fails w₁ fault w' →
      w.files.Gains (w.files.Aside path) w'.files := by
    intro w₁ gains failed
    rwa [fails_change failed]
  have make : ∀ {w₁ : World} {parent : String}, w.files.Gains (w.files.Aside path) w₁.files →
      (do Action.change (·.makeDirectory parent)
          Action.change (·.write joined bytes)).Fails w₁ fault w' →
      w.files.Gains (w.files.Aside path) w'.files := by
    intro w₁ parent gains failed
    rcases fails_bind.mp failed with unmade | ⟨_, _, made, unwritten⟩
    · rwa [fails_change unmade]
    · obtain ⟨files, directory, rfl⟩ := yields_change.mp made
      have added : w₁.files.Gains (w.files.Aside path) files := by
        apply (FileTree.gains_makeDirectory directory).mono
        rintro place _ ⟨rfl, _⟩
        exact .directory place
      exact write (gains.trans added) unwritten
  rw [writeBack] at failed
  dsimp only at failed
  split at failed
  · rcases fails_bind.mp failed with uncopied | ⟨_, w₁, copied, rest⟩
    · rw [backUp_fails uncopied]
      exact .refl _
    · have gains := backUp_gains named copied
      split at rest
      · exact make gains rest
      · exact write gains rest
  · split at failed
    · exact make (.refl _) failed
    · exact write (.refl _) failed

/-- Saving a chart can fail, but not after its file was written over. -/
theorem spares_saveChart (path : String) (chart : Chart) (backup : Bool) :
    (saveChart path chart backup).Spares path := by
  rw [saveChart, entryName]
  split
  · next entry named =>
    rw [pure_bind]
    apply (looks_orFail _ _).spares_bind
    intro bytes
    exact (spares_writeBack named backup bytes).adapt
  · intro w f w' failed
    rcases fails_bind.mp failed with nameless | ⟨_, _, ran, _⟩
    · exact (looks_throw _).spares w f w' nameless
    · exact (yields_throw.mp ran).elim

end Store

/-! ### Jobs that fail -/

namespace Run

variable {path : String} {formats : Formats}

/-- A job that edits a chart only looks at files before it saves the chart. -/
theorem spares_job {s : Settings} {j : Job} (edited : j.edited? = some path) :
    (job formats s j).Spares path := by
  cases j with
  | insert input script line scripts backup =>
    cases edited
    rw [job]
    apply (Store.looks_loadChart path s.encoding).spares_bind
    intro chart
    apply (Scripts.looks_insert chart line script scripts s.keepComments).spares_bind
    intro chart'
    exact (Store.spares_saveChart path chart' _).bind_tell _
  | batchInsert input dir scripts backup ignoreMissing =>
    cases edited
    rw [job]
    apply (Store.looks_loadChart path s.encoding).spares_bind
    intro chart
    apply (Store.looks_entryStem path).spares_bind
    intro stem
    apply (Scripts.looks_insertAll chart stem dir scripts s.keepComments ignoreMissing).spares_bind
    rintro ⟨chart', count⟩
    exact (Store.spares_saveChart path chart' _).bind_tell _
  | insertSheet input sheetPath backup =>
    cases edited
    rw [job]
    apply (Store.looks_loadChart path s.encoding).spares_bind
    intro chart
    apply (looks_loadSheet formats sheetPath).spares_bind
    intro sheet
    apply (looks_applySheet sheet chart).spares_bind
    rintro ⟨chart', count⟩
    dsimp only
    split
    · exact (looks_tell _).spares
    · exact (Store.spares_saveChart path chart' _).bind_tell _
  | info input => cases edited
  | validate inputs => cases edited
  | dump input output textOnly => cases edited
  | extract inputs outputDir scripts => cases edited
  | extractSheet input output => cases edited

/-- A request to edit a chart that fails at any point leaves every file as it was, under whatever
path it is read and in whatever formats sheets and settings are spelled. What it may have added are
directories and one copy of the chart beside it. -/
theorem failure_spares_files {r : Request} (edited : r.job.edited? = some path) {w w' : World}
    {f : Failure} (failed : (request r formats).Fails w f w') :
    (∀ other bytes, w.files.read other = .ok bytes → w'.files.read other = .ok bytes) ∧
    (∀ place node, w.files.get? place = some node → w'.files.get? place = some node) ∧
    (∀ place node, w'.files.get? place = some node →
      w.files.get? place = some node ∨ w.files.Aside path place node) ∧
    ∀ place place' bytes bytes', w'.files.get? place = some (.file bytes) →
      w.files.get? place = none → w'.files.get? place' = some (.file bytes') →
      w.files.get? place' = none → place = place' := by
  have spares : (request r formats).Spares path := by
    rw [request]
    exact (looks_settings formats r).spares_bind fun s => spares_job edited
  have gains := spares w f w' failed
  have aside : ∀ place node, w'.files.get? place = some node → w.files.get? place = none →
      w.files.Aside path place node := by
    intro place node there free
    rcases gains.fresh place node there with old | added
    · cases free.symm.trans old
    · exact added
  refine ⟨fun other bytes readable => gains.read readable, gains.kept, gains.fresh, ?_⟩
  intro place place' bytes bytes' there free there' free'
  exact ((aside _ _ there free).file_unique (aside _ _ there' free')).1

/-- A directory with the sample chart, settings, a script, and an index that lists the script and
another one that is not there. -/
def brokenWorld : World where
  files := ⟨[(["c.lsb"], .file Chart.sampleBytes), (["s.toml"], textFile sampleSettingsText),
    (["t.lns"], textFile ";n\nYo"), (["c.lsbref"], textFile "t.lns:0\nu.lns:0")]⟩

/-- The scripts of the index are put in place of the text blocks. -/
def brokenRequest : Request where
  settings := some "s.toml"
  job := .batchInsert "c.lsb" "." .utf8 true false

/-- The chart after the first script; the comment is dropped. -/
def brokenEdited : Chart :=
  Chart.sample.marked.setBlock 0 ⟨104, [.text "Yo"]⟩

set_option maxRecDepth 10000 in
/-- The first script is compiled, the second one is missed, and the chart is as before. -/
theorem failure_spares_files_broken : ∃ w',
    (request brokenRequest sampleFormats).Fails brokenWorld (.of (.missingScript "./u.lns")) w' ∧
      w'.files.read "c.lsb" = .ok Chart.sampleBytes := by
  let w₁ : World :=
    { brokenWorld with notices := Chart.readingNotices .cp932 Chart.sampleBytes }
  let w₂ : World := { w₁ with notices := w₁.notices ++ [.replacedScenario 0 "t.lns"] }
  have chosen : (settings sampleFormats brokenRequest).Yields brokenWorld {} brokenWorld :=
    yields_bind.mpr ⟨{}, brokenWorld, loadSettings_sample (by rfl), yields_pure.mpr ⟨rfl, rfl⟩⟩
  have loaded : (Store.loadChart "c.lsb" .cp932).Yields brokenWorld Chart.sample.marked w₁ := by
    change _ = _
    rfl
  have named : (Store.entryStem "c.lsb").Yields w₁ "c" w₁ := by
    change _ = _
    rfl
  have listed : (Store.readText "./c.lsbref" .utf8).Yields w₁ "t.lns:0\nu.lns:0" w₁ :=
    Store.readText_yields.mpr ⟨rfl, _, rfl, by decide +kernel⟩
  have entries : Reference.indexEntries "t.lns:0\nu.lns:0" = ["t.lns:0", "u.lns:0"] := by
    decide +kernel
  have inserted :
      (Scripts.insert Chart.sample.marked 0 "./t.lns" .utf8 false).Yields w₁ brokenEdited w₁ := by
    change _ = _
    rfl
  have missed : (Scripts.insertEntries "." .utf8 false false ["u.lns:0"] brokenEdited 1).Fails w₂
      (.of (.missingScript "./u.lns")) w₂ := by
    have spelled : Reference.ofText "u.lns:0" = .ok ⟨"u.lns", 0⟩ := by rfl
    simp only [Scripts.insertEntries, spelled]
    exact fails_bind.mpr (.inr ⟨w₂, w₂, yields_get.mpr ⟨rfl, rfl⟩, rfl⟩)
  have broken : (Scripts.insertEntries "." .utf8 false false ["t.lns:0", "u.lns:0"]
      Chart.sample.marked 0).Fails w₁ (.of (.missingScript "./u.lns")) w₂ := by
    have spelled : Reference.ofText "t.lns:0" = .ok ⟨"t.lns", 0⟩ := by rfl
    rw [Scripts.insertEntries]
    simp only [spelled]
    refine fails_bind.mpr (.inr ⟨w₁, w₁, yields_get.mpr ⟨rfl, rfl⟩, ?_⟩)
    rw [if_pos (by rfl)]
    exact fails_bind.mpr (.inr ⟨_, w₁, inserted,
      fails_bind.mpr (.inr ⟨(), w₂, yields_tell.mpr rfl, missed⟩)⟩)
  have failed : (request brokenRequest sampleFormats).Fails brokenWorld (.of (.missingScript "./u.lns")) w₂ :=
    fails_bind.mpr (.inr ⟨{}, brokenWorld, chosen, fails_bind.mpr (.inr ⟨_, w₁, loaded,
      fails_bind.mpr (.inr ⟨"c", w₁, named, fails_bind.mpr (.inl
        (fails_bind.mpr (.inr ⟨_, w₁, listed, entries ▸ broken⟩)))⟩)⟩)⟩)
  obtain ⟨readable, _⟩ := failure_spares_files rfl failed
  exact ⟨w₂, failed, readable "c.lsb" Chart.sampleBytes (by rfl)⟩

end Run

end NovelChart
