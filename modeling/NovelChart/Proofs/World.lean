import NovelChart.Proofs.Path
import NovelChart.Tool.Store

/-!
# What actions do to the world

An action is known by its successful runs: which worlds it leads to, and with which result. The
runs of a sequence are the runs of its parts, one after the other, so that a program is taken apart
by rewriting. An action that only looks leaves the files as they are.

## Main definitions

* `Action.Yields`: from one world, the action succeeds with a result in another

## Main results

* `Store.saveChart_yields`: a chart that is saved is read back under the path of the old one
-/

namespace NovelChart

namespace Action

variable {ε ε' α β : Type} {a : Action ε α} {f : α → Action ε β} {w w' : World} {x : α} {y : β}

/-- From a world, the action succeeds with a result in another world. -/
def Yields (a : Action ε α) (w : World) (x : α) (w' : World) : Prop :=
  a.run.run w = (.ok x, w')

/-- A sequence of actions succeeds when both do, one after the other. -/
theorem yields_bind {w'' : World} : (a >>= f).Yields w y w'' ↔
    ∃ x w', a.Yields w x w' ∧ (f x).Yields w' y w'' := by
  simp only [Yields]
  constructor
  · intro ran
    rw [ExceptT.run_bind, StateT.run_bind] at ran
    cases outcome : a.run.run w with
    | mk result w₁ =>
      cases result with
      | ok x =>
        refine ⟨x, w₁, rfl, ?_⟩
        rw [outcome] at ran
        exact ran
      | error e =>
        rw [outcome] at ran
        cases ran
  · rintro ⟨x, w₁, first, second⟩
    rw [ExceptT.run_bind, StateT.run_bind, first]
    exact second

theorem yields_pure {y : α} : (pure x : Action ε α).Yields w y w' ↔ x = y ∧ w = w' := by
  change ((Except.ok x, w) = (Except.ok y, w')) ↔ _
  rw [Prod.mk.injEq, Except.ok.injEq]

theorem yields_throw {e : ε} {y : α} : (throw e : Action ε α).Yields w y w' ↔ False := by
  change ((Except.error e, w) = (Except.ok y, w')) ↔ _
  simp

theorem yields_get {there : World} : (get : Action ε World).Yields w there w' ↔
    there = w ∧ w' = w := by
  change ((Except.ok w, w) = (Except.ok there, w')) ↔ _
  rw [Prod.mk.injEq, Except.ok.injEq, eq_comm, @eq_comm _ w w']

theorem yields_modify {g : World → World} {done : Unit} :
    (modify g : Action ε Unit).Yields w done w' ↔ w' = g w := by
  change ((Except.ok (), g w) = (Except.ok done, w')) ↔ _
  simp [eq_comm]

theorem yields_adapt {g : ε → ε'} : Yields (ExceptT.adapt g a) w x w' ↔ a.Yields w x w' := by
  have run_eq : (ExceptT.adapt g a).run.run w =
      ((a.run.run w).1.mapError g, (a.run.run w).2) := rfl
  simp only [Yields]
  rw [run_eq, Prod.ext_iff, Prod.ext_iff, mapError_eq_ok]

theorem yields_tell {n : Notice} {done : Unit} : (tell n : Action ε Unit).Yields w done w' ↔
    w' = { w with notices := w.notices ++ [n] } :=
  yields_modify

theorem files_of_tell {n : Notice} {done : Unit}
    (told : (tell n : Action ε Unit).Yields w done w') : w'.files = w.files := by
  rw [yields_tell.mp told]

theorem yields_tellAll {ns : List Notice} {done : Unit} :
    (tellAll ns : Action ε Unit).Yields w done w' ↔ w' = { w with notices := w.notices ++ ns } :=
  yields_modify

theorem yields_look {op : FileTree → Except IoFault α} :
    (look op).Yields w x w' ↔ op w.files = .ok x ∧ w' = w := by
  rw [look, yields_bind]
  constructor
  · rintro ⟨there, w₁, got, done⟩
    obtain ⟨rfl, rfl⟩ := yields_get.mp got
    split at done
    · next found =>
      obtain ⟨rfl, rfl⟩ := yields_pure.mp done
      exact ⟨found, rfl⟩
    · exact (yields_throw.mp done).elim
  · rintro ⟨found, rfl⟩
    refine ⟨w', w', yields_get.mpr ⟨rfl, rfl⟩, ?_⟩
    rw [found]
    exact yields_pure.mpr ⟨rfl, rfl⟩

theorem yields_change {op : FileTree → Except IoFault FileTree} {done : Unit} :
    (change op).Yields w done w' ↔ ∃ files, op w.files = .ok files ∧ w' = { w with files } := by
  rw [change, yields_bind]
  constructor
  · rintro ⟨there, w₁, got, done⟩
    obtain ⟨rfl, rfl⟩ := yields_get.mp got
    split at done
    · next files found => exact ⟨files, found, yields_modify.mp done⟩
    · exact (yields_throw.mp done).elim
  · rintro ⟨files, found, rfl⟩
    refine ⟨w, w, yields_get.mpr ⟨rfl, rfl⟩, ?_⟩
    rw [found]
    exact yields_modify.mpr rfl

theorem yields_during {activity : Activity} {a : Action IoFault α} :
    (during activity a).Yields w x w' ↔ a.Yields w x w' :=
  yields_adapt

theorem yields_orFail {g : Error → Failure} {m : Except Error α} :
    (orFail g m).Yields w x w' ↔ m = .ok x ∧ w' = w := by
  cases m with
  | ok y =>
    rw [orFail, yields_pure, Except.ok.injEq, @eq_comm _ w w']
  | error e =>
    rw [orFail, yields_throw]
    simp

end Action

/-! ### Charts in files -/

namespace Store

open NovelChart.Action

variable {w w' : World} {path : String} {e : Encoding} {chart : Chart}

theorem readText_yields {text : String} : (readText path e).Yields w text w' ↔
    w' = w ∧ ∃ bytes, w.files.read path = .ok bytes ∧ e.decode bytes = .ok text := by
  rw [readText, yields_bind]
  constructor
  · rintro ⟨bytes, _, looked, rest⟩
    obtain ⟨found, rfl⟩ := yields_look.mp (yields_during.mp looked)
    split at rest
    · next decoded =>
      obtain ⟨rfl, rfl⟩ := yields_pure.mp rest
      exact ⟨rfl, bytes, found, decoded⟩
    · exact (yields_throw.mp rest).elim
  · rintro ⟨rfl, bytes, found, decoded⟩
    refine ⟨bytes, w', yields_during.mpr (yields_look.mpr ⟨found, rfl⟩), ?_⟩
    rw [decoded]
    exact yields_pure.mpr ⟨rfl, rfl⟩

theorem writeText_yields {text : String} {done : Unit} :
    (writeText path text e).Yields w done w' ↔ ∃ bytes files, e.encode text = .ok bytes ∧
      w.files.write path bytes = .ok files ∧ w' = { w with files } := by
  rw [writeText]
  cases encoded : e.encode text with
  | ok bytes =>
    simp only [Except.ok.injEq, exists_and_left, exists_eq_left']
    exact yields_during.trans yields_change
  | error fault =>
    simp only [reduceCtorEq, false_and, exists_false, iff_false]
    exact yields_throw.mp

/-- A chart is loaded from the bytes that its file holds, and no file changes. -/
theorem loadChart_yields (ran : (loadChart path e).Yields w chart w') : w'.files = w.files ∧
    ∃ bytes, w.files.read path = .ok bytes ∧ Chart.ofBytes e bytes = .ok chart := by
  rw [loadChart, yields_bind] at ran
  obtain ⟨bytes, _, looked, rest⟩ := ran
  obtain ⟨found, rfl⟩ := yields_look.mp (yields_during.mp looked)
  obtain ⟨_, _, told, last⟩ := yields_bind.mp rest
  obtain rfl := yields_tellAll.mp told
  split at last
  · next chart' read =>
    obtain ⟨rfl, rfl⟩ := yields_pure.mp last
    exact ⟨rfl, bytes, found, read⟩
  · exact (yields_throw.mp last).elim

/-- A file is copied under a path that led to nothing, unless there is nothing to copy or it has a
copy. -/
theorem backUp_cases {done : Unit} (ran : (backUp path).Yields w done w') :
    (w'.files = w.files ∧
      (w.files.contains path = true → w.files.contains (copyPath path) = true)) ∨
    ∃ bytes, w.files.contains (copyPath path) = false ∧
      w.files.read path = .ok bytes ∧ w.files.write (copyPath path) bytes = .ok w'.files := by
  rw [backUp, yields_bind] at ran
  obtain ⟨_, _, got, rest⟩ := ran
  obtain ⟨rfl, rfl⟩ := yields_get.mp got
  dsimp only at rest
  split at rest
  · next absent =>
    obtain ⟨bytes, _, looked, copying⟩ := yields_bind.mp rest
    obtain ⟨readable, rfl⟩ := yields_look.mp looked
    obtain ⟨_, _, changed, told⟩ := yields_bind.mp copying
    obtain ⟨files, written, rfl⟩ := yields_change.mp changed
    obtain rfl := yields_tell.mp told
    rw [Bool.and_eq_true, Bool.not_eq_true'] at absent
    exact .inr ⟨bytes, absent.2, readable, written⟩
  · next present =>
    obtain ⟨_, rfl⟩ := yields_pure.mp rest
    rw [Bool.and_eq_true, Bool.not_eq_true', not_and, Bool.not_eq_false] at present
    exact .inl ⟨rfl, present⟩

/-- Copying a file keeps the directories. -/
theorem backUp_yields {done : Unit} (ran : (backUp path).Yields w done w') :
    w.files.Keeps w'.files := by
  rcases backUp_cases ran with ⟨same, _⟩ | ⟨_, _, _, written⟩
  · rw [same]
    exact .refl _
  · exact FileTree.keeps_write written

/-- What writing an entry does: the file is copied if asked for, directories are made on the way of
its path, and the file is written. -/
theorem writeBack_cases {root entry : String} {backup : Bool} {bytes : List UInt8} {done : Unit}
    (ran : (writeBack root backup entry bytes).Yields w done w') : ∃ w₁ files,
      (if backup then (backUp (Path.join root entry)).Yields w done w₁ else w₁ = w) ∧
      w₁.files.Gains (fun place node => node = .directory ∧
        place ∈ Path.way (Path.join root entry)) files ∧
      files.write (Path.join root entry) bytes = .ok w'.files := by
  have write : ∀ {w₁ : World}, (writeBack root false entry bytes).Yields w₁ done w' →
      ∃ files, w₁.files.Gains (fun place node => node = .directory ∧
        place ∈ Path.way (Path.join root entry)) files ∧
      files.write (Path.join root entry) bytes = .ok w'.files := by
    intro w₁ ran
    rw [writeBack] at ran
    dsimp only at ran
    rw [if_neg Bool.false_ne_true] at ran
    split at ran
    · next parent above =>
      obtain ⟨_, _, made, rest⟩ := yields_bind.mp ran
      obtain ⟨files, directory, rfl⟩ := yields_change.mp made
      obtain ⟨files', written, rfl⟩ := yields_change.mp rest
      refine ⟨files, (FileTree.gains_makeDirectory directory).mono ?_, written⟩
      rintro place node ⟨made, passed⟩
      exact ⟨made, Path.way_parent?_subset above passed⟩
    · obtain ⟨files, written, rfl⟩ := yields_change.mp ran
      exact ⟨w₁.files, .refl _, written⟩
  cases backup with
  | true =>
    change (do backUp (Path.join root entry); writeBack root false entry bytes).Yields
      w done w' at ran
    obtain ⟨_, w₁, copied, rest⟩ := yields_bind.mp ran
    obtain ⟨files, made, written⟩ := write rest
    exact ⟨w₁, files, copied, made, written⟩
  | false =>
    obtain ⟨files, made, written⟩ := write ran
    exact ⟨w, files, rfl, made, written⟩

/-- A file that could be read is read with the bytes that were written back over it. -/
theorem writeBack_yields {root entry : String} {backup : Bool} {bytes old : List UInt8}
    {done : Unit} (readable : w.files.read path = .ok old)
    (telling : Path.telling (Path.join root entry) = Path.telling path)
    (rooted : Path.isAbsolute (Path.join root entry) = Path.isAbsolute path)
    (ran : (writeBack root backup entry bytes).Yields w done w') :
    w'.files.read path = .ok bytes := by
  obtain ⟨w₁, files, copied, made, written⟩ := writeBack_cases ran
  -- Whatever comes before the last write keeps the directories.
  have keeps : w.files.Keeps w₁.files := by
    split at copied
    · exact backUp_yields copied
    · rw [copied]
      exact .refl _
  exact FileTree.read_of_write readable (keeps.trans made.keeps) written telling rooted

/-- A chart that is saved is there under the path of the old one. -/
theorem saveChart_yields {backup : Bool} {done : Unit} {old : List UInt8}
    (readable : w.files.read path = .ok old)
    (ran : (saveChart path chart backup).Yields w done w') :
    ∃ bytes, chart.toBytes = .ok bytes ∧ w'.files.read path = .ok bytes := by
  rw [saveChart, yields_bind] at ran
  obtain ⟨entry, _, named, rest⟩ := ran
  rw [entryName] at named
  split at named
  · next name found =>
    obtain ⟨rfl, rfl⟩ := yields_pure.mp named
    obtain ⟨bytes, _, encoded, stored⟩ := yields_bind.mp rest
    obtain ⟨written, rfl⟩ := yields_orFail.mp encoded
    obtain ⟨telling, rooted⟩ := Path.telling_join_parent found
    exact ⟨bytes, written, writeBack_yields readable telling rooted (yields_adapt.mp stored)⟩
  · exact (yields_throw.mp named).elim

end Store

end NovelChart
