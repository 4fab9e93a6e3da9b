import Mathlib.Data.List.InsertIdx
import NovelChart.Proofs.Chart
import NovelChart.Proofs.Raised

/-!
# Labels keep to their commands

A label stores a number, the place of a command, and every edit that moves commands has to move the
numbers along. What the numbers mean is said here without them. A ledger gives each command an
identity that it keeps for life and ties each label to an anchor, a command or the end; its own
steps speak of identities only. The ledger is then run beside the chart: after every edit the chart
is the ledger with each anchor replaced by the place where it stands now.

## Main definitions

* `Edit`, `Edit.step`, `Edit.run`: the edits of a chart, where an edit that fails changes nothing
* `Anchor`, `Ledger`, `Ledger.step`: commands with identities, labels with anchors
* `Ledger.Tracks`: a ledger and a chart say the same

## Main results

* `Ledger.Tracks.step`: one edit takes chart and ledger to a pair that agrees again
* `Ledger.filter_step`: an edit leaves every record alone but the one that it is about
* `Edit.labels_follow`: the same along every run from a new chart or one that was read
-/

namespace NovelChart

/-! ### Edits -/

/-- An edit of a chart. -/
inductive Edit
  | push (command : Command)
  | insert (index : Nat) (command : Command)
  | remove (index : Nat)
  /-- Puts another command in the place of one. -/
  | replace (line : Nat) (command : Command)
  | addLabel (name : String) (target : Nat)
  | setScramble (params : Option ScrambleParams)

namespace Edit

/-- What an edit makes of a chart, unless it fails. -/
def attempt (c : Chart) : Edit → Except Error Chart
  | push command => .ok (c.push command)
  | insert index command => c.insert index command
  | remove index => do
    let (_, c) ← c.remove index
    return c
  | replace line command => do
    let _ ← c.command line
    return c.setCommand line command
  | addLabel name target => c.addLabel name target
  | setScramble params => .ok (c.setScramble params)

/-- The chart after an edit; one that fails changes nothing. -/
def step (c : Chart) (edit : Edit) : Chart :=
  match edit.attempt c with
  | .ok c => c
  | .error _ => c

/-- The chart after a run of edits. -/
def run (edits : List Edit) (c : Chart) : Chart :=
  edits.foldl step c

end Edit

/-! ### Ledgers -/

/-- What a label is tied to. -/
inductive Anchor
  /-- The command with this identity. -/
  | on (id : Nat)
  /-- The end, behind the last command. -/
  | behind
  deriving DecidableEq

/-- Commands under identities, and labels under anchors. -/
structure Ledger where
  /-- The identity that the next new command gets. -/
  next : Nat
  records : List (Nat × Command)
  labels : List (String × Anchor)

namespace Ledger

/-- The identities in order. -/
def ids (g : Ledger) : List Nat :=
  g.records.map Prod.fst

/-- What stands at a place: a command, or the end. -/
def anchorAt (g : Ledger) (place : Nat) : Anchor :=
  match g.records[place]? with
  | some record => .on record.1
  | none => .behind

/-- Where an anchor stands now. -/
def position (g : Ledger) : Anchor → Nat
  | .on id => g.ids.idxOf id
  | .behind => g.records.length

/-- A label, tied to `new` if it was tied to `old`. -/
def retie (old new : Anchor) (l : String × Anchor) : String × Anchor :=
  if l.2 = old then (l.1, new) else l

/-- The ledger after an edit. Insertion leaves all anchors alone; a label on a removed command goes
to the one that followed; a label at the end goes to a command that is appended. -/
def step (g : Ledger) : Edit → Ledger
  | .push command =>
    { next := g.next + 1
      records := g.records ++ [(g.next, command)]
      labels := g.labels.map (retie .behind (.on g.next)) }
  | .insert index command =>
    if index ≤ g.records.length then
      { g with next := g.next + 1, records := g.records.insertIdx index (g.next, command) }
    else g
  | .remove index =>
    match g.records[index]? with
    | some record =>
      { g with
        records := g.records.eraseIdx index
        labels := g.labels.map (retie (.on record.1) (g.anchorAt (index + 1))) }
    | none => g
  | .replace line command =>
    { g with records := g.records.modify line fun record => (record.1, command) }
  | .addLabel name target =>
    if target ≤ g.records.length then { g with labels := g.labels ++ [(name, g.anchorAt target)] }
    else g
  | .setScramble _ => g

/-- The ledger after a run of edits. -/
def run (edits : List Edit) (g : Ledger) : Ledger :=
  edits.foldl step g

/-- The ledger that is opened on a chart: commands are numbered, and each label is tied to what it
points at. -/
def ofChart (c : Chart) : Ledger :=
  let numbered : Ledger :=
    { next := c.length, records := c.commands.zipIdx.map Prod.swap, labels := [] }
  { numbered with labels := c.labels.map fun l => (l.name, numbered.anchorAt l.target) }

/-- The command that an edit inserts, removes or replaces. -/
def touched (g : Ledger) : Edit → Option Nat
  | .push _ => some g.next
  | .insert index _ => if index ≤ g.records.length then some g.next else none
  | .remove index => g.records[index]?.map Prod.fst
  | .replace line _ => g.records[line]?.map Prod.fst
  | .addLabel _ _ => none
  | .setScramble _ => none

/-- The names that an edit adds to the label table. -/
def newNames (g : Ledger) : Edit → List String
  | .addLabel name target => if target ≤ g.records.length then [name] else []
  | _ => []

/-- The chart is the ledger with every anchor replaced by its position. -/
structure Tracks (g : Ledger) (c : Chart) : Prop where
  distinct : g.ids.Nodup
  fresh : ∀ id ∈ g.ids, id < g.next
  anchored : ∀ l ∈ g.labels, ∀ id, l.2 = .on id → id ∈ g.ids
  commands : c.commands = g.records.map Prod.snd
  labels : c.labels = g.labels.map fun l => ⟨l.1, g.position l.2⟩

variable {g : Ledger} {c : Chart} {index : Nat}

theorem length_ids (g : Ledger) : g.ids.length = g.records.length :=
  List.length_map _

theorem Tracks.length_eq (tracks : Tracks g c) : c.length = g.records.length := by
  rw [Chart.length, tracks.commands, List.length_map]

/-- At a place stands a command that is on record, or the end. -/
theorem anchorAt_cases (g : Ledger) (place : Nat) :
    (∃ id ∈ g.ids, g.anchorAt place = .on id) ∨
      (g.anchorAt place = .behind ∧ g.records.length ≤ place) := by
  rw [anchorAt]
  cases found : g.records[place]? with
  | some record =>
    exact .inl ⟨record.1, List.mem_map_of_mem (List.mem_of_getElem? found), rfl⟩
  | none => exact .inr ⟨rfl, List.getElem?_eq_none_iff.mp found⟩

/-- A place that commands take, or the end, is the position of what stands there. -/
theorem position_anchorAt (distinct : g.ids.Nodup) {place : Nat}
    (inside : place ≤ g.records.length) : g.position (g.anchorAt place) = place := by
  rw [anchorAt]
  split
  · next record found =>
    obtain ⟨low, here⟩ := List.getElem?_eq_some_iff.mp found
    have placed : g.ids[place]? = some record.1 := by
      rw [ids, List.getElem?_map, found, Option.map_some]
    obtain ⟨low, here⟩ := List.getElem?_eq_some_iff.mp placed
    rw [position, ← here]
    exact distinct.idxOf_getElem place low
  · next missing =>
    have outside := List.getElem?_eq_none_iff.mp missing
    rw [position]
    omega

/-! ### One edit -/

theorem Tracks.push (tracks : Tracks g c) (command : Command) :
    Tracks (g.step (.push command)) (c.push command) := by
  have absent : g.next ∉ g.ids := fun member => Nat.lt_irrefl _ (tracks.fresh _ member)
  have ids_eq : (g.step (.push command)).ids = g.ids ++ [g.next] := by
    simp [ids, step]
  refine ⟨?_, ?_, ?_, ?_, ?_⟩
  · rw [ids_eq]
    refine tracks.distinct.append (List.nodup_singleton _) ?_
    simpa using absent
  · intro id member
    rw [ids_eq, List.mem_append, List.mem_singleton] at member
    change id < g.next + 1
    rcases member with old | rfl
    · exact Nat.lt_succ_of_lt (tracks.fresh id old)
    · exact Nat.lt_succ_self _
  · intro l member id tied
    obtain ⟨l₀, member₀, rfl⟩ := List.mem_map.mp member
    rw [ids_eq, List.mem_append, List.mem_singleton]
    by_cases ended : l₀.2 = .behind
    · rw [retie, if_pos ended] at tied
      exact .inr (Anchor.on.inj tied).symm
    · rw [retie, if_neg ended] at tied
      exact .inl (tracks.anchored l₀ member₀ id tied)
  · simp [Chart.push, step, tracks.commands]
  · change c.labels = _
    rw [tracks.labels, step, List.map_map]
    refine List.map_congr_left fun l member => ?_
    rw [Function.comp_apply, retie]
    cases tied : l.2 with
    | behind =>
      -- The end was where the new command is now.
      rw [if_pos rfl]
      congr 1
      change g.records.length = (g.step (.push command)).ids.idxOf g.next
      rw [ids_eq, List.idxOf_append, if_neg absent, List.idxOf_cons_self, Nat.zero_add, length_ids]
    | on id =>
      rw [if_neg Anchor.noConfusion, tied]
      congr 1
      change g.ids.idxOf id = (g.step (.push command)).ids.idxOf id
      rw [ids_eq, List.idxOf_append, if_pos (tracks.anchored l member id tied)]

/-- Inserting one identity moves those behind it by one. -/
theorem idxOf_inserted (front back : List Nat) {new id : Nat} (other : new ≠ id) :
    (front ++ new :: back).idxOf id =
      if front.length ≤ (front ++ back).idxOf id then (front ++ back).idxOf id + 1
      else (front ++ back).idxOf id := by
  rw [List.idxOf_append, List.idxOf_append, List.idxOf_cons_ne _ other]
  by_cases ahead : id ∈ front
  · have low := List.idxOf_lt_length_of_mem ahead
    rw [if_pos ahead, if_pos ahead, if_neg (by omega)]
  · rw [if_neg ahead, if_neg ahead, if_pos (by omega)]
    omega

/-- Removing one identity moves those behind it back by one. -/
theorem idxOf_removed (front back : List Nat) {old id : Nat} (other : old ≠ id) :
    (front ++ back).idxOf id =
      if front.length < (front ++ old :: back).idxOf id then (front ++ old :: back).idxOf id - 1
      else (front ++ old :: back).idxOf id := by
  rw [List.idxOf_append, List.idxOf_append, List.idxOf_cons_ne _ other]
  by_cases ahead : id ∈ front
  · have low := List.idxOf_lt_length_of_mem ahead
    rw [if_pos ahead, if_pos ahead, if_neg (by omega)]
  · rw [if_neg ahead, if_neg ahead, if_pos (by omega)]
    omega

theorem afterInsert_mk (index target : Nat) (name : String) :
    Label.afterInsert index ⟨name, target⟩ =
      ⟨name, if index ≤ target then target + 1 else target⟩ := by
  rw [Label.afterInsert]
  split <;> rfl

theorem afterRemove_mk (index target : Nat) (name : String) :
    Label.afterRemove index ⟨name, target⟩ =
      ⟨name, if index < target then target - 1 else target⟩ := by
  rw [Label.afterRemove]
  split <;> rfl

theorem Tracks.insert (tracks : Tracks g c) (command : Command)
    (inside : index ≤ g.records.length) :
    Tracks (g.step (.insert index command))
      { c with
        commands := c.commands.insertIdx index command
        labels := c.labels.map (Label.afterInsert index) } := by
  have absent : g.next ∉ g.ids := fun member => Nat.lt_irrefl _ (tracks.fresh _ member)
  obtain ⟨front, back, cut, rfl⟩ := exists_cut inside
  have ids_old : g.ids = front.map Prod.fst ++ back.map Prod.fst := by
    rw [ids, cut, List.map_append]
  have step_eq : g.step (.insert front.length command) =
      { g with next := g.next + 1, records := front ++ (g.next, command) :: back } := by
    rw [step, if_pos inside, cut, insertIdx_at_cut]
  have ids_new : (g.step (.insert front.length command)).ids =
      front.map Prod.fst ++ g.next :: back.map Prod.fst := by
    rw [step_eq, ids, List.map_append, List.map_cons]
  refine ⟨?_, ?_, ?_, ?_, ?_⟩
  · rw [ids_new, List.nodup_middle, ← ids_old]
    exact List.nodup_cons.mpr ⟨absent, tracks.distinct⟩
  · intro id member
    rw [ids_new, mem_cut, ← ids_old] at member
    rw [step_eq]
    change id < g.next + 1
    rcases member with rfl | old
    · exact Nat.lt_succ_self _
    · exact Nat.lt_succ_of_lt (tracks.fresh id old)
  · intro l member id tied
    rw [step_eq] at member
    have old := tracks.anchored l member id tied
    rw [ids_new, mem_cut, ← ids_old]
    exact .inr old
  · rw [step_eq]
    simp only [tracks.commands, cut, List.map_append, List.map_cons]
    simpa using insertIdx_at_cut (front.map Prod.snd) (back.map Prod.snd) command
  · rw [step_eq, tracks.labels, List.map_map]
    refine List.map_congr_left fun l member => ?_
    rw [Function.comp_apply, afterInsert_mk]
    congr 1
    cases tied : l.2 with
    | behind =>
      simp only [position, cut, List.length_append, List.length_cons]
      rw [if_pos (by omega)]
      omega
    | on id =>
      have other : g.next ≠ id := by
        rintro rfl
        exact absent (tracks.anchored l member _ tied)
      have moved := idxOf_inserted (front.map Prod.fst) (back.map Prod.fst) other
      rw [List.length_map, ← ids_old, ← ids_new, step_eq] at moved
      exact moved.symm

theorem Tracks.remove (tracks : Tracks g c) {record : Nat × Command}
    (found : g.records[index]? = some record) :
    Tracks (g.step (.remove index))
      { c with
        commands := c.commands.eraseIdx index
        labels := c.labels.map (Label.afterRemove index) } := by
  obtain ⟨front, back, cut, rfl⟩ := exists_cut_at found
  have ids_old : g.ids = front.map Prod.fst ++ record.1 :: back.map Prod.fst := by
    rw [ids, cut, List.map_append, List.map_cons]
  -- What follows the removed command.
  let follower := g.anchorAt (front.length + 1)
  have step_eq : g.step (.remove front.length) =
      { g with
        records := front ++ back
        labels := g.labels.map (retie (.on record.1) follower) } := by
    rw [step, found, cut, eraseIdx_at_cut]
  have ids_new : (g.step (.remove front.length)).ids = front.map Prod.fst ++ back.map Prod.fst := by
    rw [step_eq, ids, List.map_append]
  have distinct := tracks.distinct
  rw [ids_old, List.nodup_middle, List.nodup_cons] at distinct
  obtain ⟨single, distinct⟩ := distinct
  have follower_eq : follower = (g.step (.remove front.length)).anchorAt front.length := by
    rw [step_eq]
    simp only [follower, anchorAt, cut]
    rw [List.getElem?_append_right (Nat.le_add_right _ 1),
      List.getElem?_append_right (Nat.le_refl _), Nat.add_sub_cancel_left, Nat.sub_self,
      List.getElem?_cons_succ]
  have inside : front.length ≤ (g.step (.remove front.length)).records.length := by
    rw [step_eq]
    simp
  have position_follower := position_anchorAt (ids_new ▸ distinct) inside
  rw [← follower_eq] at position_follower
  refine ⟨ids_new ▸ distinct, ?_, ?_, ?_, ?_⟩
  · intro id member
    rw [ids_new] at member
    have old := tracks.fresh id
    rw [ids_old, mem_cut] at old
    rw [step_eq]
    exact old (.inr member)
  · intro l member id tied
    rw [step_eq] at member
    obtain ⟨l₀, member₀, rfl⟩ := List.mem_map.mp member
    by_cases gone : l₀.2 = .on record.1
    · rw [retie, if_pos gone] at tied
      change follower = _ at tied
      rcases anchorAt_cases (g.step (.remove front.length)) front.length with
        ⟨id', member', on⟩ | ⟨ended, _⟩
      · rw [follower_eq, on] at tied
        cases tied
        exact member'
      · rw [follower_eq, ended] at tied
        cases tied
    · rw [retie, if_neg gone] at tied
      have old := tracks.anchored l₀ member₀ id tied
      rw [ids_old, mem_cut] at old
      rw [ids_new]
      rcases old with rfl | old
      · exact absurd tied gone
      · exact old
  · rw [step_eq]
    simp only [tracks.commands, cut, List.map_append, List.map_cons]
    simpa using eraseIdx_at_cut (front.map Prod.snd) (back.map Prod.snd) record.2
  · have labels_eq : (g.step (.remove front.length)).labels =
        g.labels.map (retie (.on record.1) follower) := by
      rw [step_eq]
    rw [labels_eq, tracks.labels, List.map_map, List.map_map]
    refine List.map_congr_left fun l member => ?_
    rw [Function.comp_apply, Function.comp_apply, afterRemove_mk, retie]
    cases tied : l.2 with
    | behind =>
      have kept : Anchor.behind ≠ .on record.1 := Anchor.noConfusion
      rw [if_neg kept, tied]
      congr 1
      rw [step_eq]
      simp only [position, cut, List.length_append, List.length_cons]
      rw [if_pos (by omega)]
      omega
    | on id =>
      by_cases gone : record.1 = id
      · -- The label stays at the place, where the follower stands now.
        subst gone
        rw [if_pos rfl]
        have here : g.position (.on record.1) = front.length := by
          have ahead : record.1 ∉ front.map Prod.fst := fun ahead =>
            single (List.mem_append_left _ ahead)
          rw [position, ids_old, List.idxOf_append, if_neg ahead, List.idxOf_cons_self,
            List.length_map, Nat.zero_add]
        rw [here, if_neg (Nat.lt_irrefl _), position_follower]
      · rw [if_neg fun same => gone (Anchor.on.inj same).symm, tied]
        congr 1
        have moved := idxOf_removed (front.map Prod.fst) (back.map Prod.fst) gone
        rw [List.length_map, ← ids_old, ← ids_new] at moved
        exact moved.symm

theorem Tracks.replace (tracks : Tracks g c) {line : Nat} {record : Nat × Command}
    (found : g.records[line]? = some record) (command : Command) :
    Tracks (g.step (.replace line command)) (c.setCommand line command) := by
  obtain ⟨front, back, cut, rfl⟩ := exists_cut_at found
  have step_eq : g.step (.replace front.length command) =
      { g with records := front ++ (record.1, command) :: back } := by
    rw [step, cut, modify_at_cut]
  have ids_eq : (g.step (.replace front.length command)).ids = g.ids := by
    rw [step_eq, ids, ids, cut]
    simp
  have position_eq : (g.step (.replace front.length command)).position = g.position := by
    funext anchor
    cases anchor with
    | on id => rw [position, position, ids_eq]
    | behind => rw [position, position, ← length_ids, ids_eq, length_ids]
  refine ⟨ids_eq ▸ tracks.distinct, ?_, ?_, ?_, ?_⟩
  · rw [ids_eq, step_eq]
    exact tracks.fresh
  · rw [ids_eq, step_eq]
    exact tracks.anchored
  · rw [step_eq, Chart.setCommand, tracks.commands, cut]
    simp
  · rw [position_eq, step_eq]
    exact tracks.labels

theorem Tracks.addLabel (tracks : Tracks g c) (name : String) {target : Nat}
    (inside : target ≤ g.records.length) :
    Tracks (g.step (.addLabel name target)) { c with labels := c.labels ++ [⟨name, target⟩] } := by
  have step_eq : g.step (.addLabel name target) =
      { g with labels := g.labels ++ [(name, g.anchorAt target)] } := by
    rw [step, if_pos inside]
  rw [step_eq]
  refine ⟨tracks.distinct, tracks.fresh, ?_, tracks.commands, ?_⟩
  · intro l member id tied
    rw [List.mem_append, List.mem_singleton] at member
    rcases member with old | rfl
    · exact tracks.anchored l old id tied
    · rcases anchorAt_cases g target with ⟨id', member', on⟩ | ⟨ended, _⟩
      · rw [on] at tied
        cases tied
        exact member'
      · rw [ended] at tied
        cases tied
  · simp only [tracks.labels, List.map_append, List.map_cons, List.map_nil]
    congr 3
    exact (position_anchorAt tracks.distinct inside).symm

/-- An edit takes a chart and its ledger to a chart and its ledger. -/
theorem Tracks.step (tracks : Tracks g c) (edit : Edit) : Tracks (g.step edit) (edit.step c) := by
  have length := tracks.length_eq
  cases edit with
  | push command => exact tracks.push command
  | insert index command =>
    rw [Edit.step, Edit.attempt, Chart.insert]
    by_cases inside : index ≤ g.records.length
    · rw [if_neg (by omega)]
      exact tracks.insert command inside
    · rw [if_pos (by omega), Ledger.step, if_neg inside]
      exact tracks
  | remove index =>
    rw [Edit.step, Edit.attempt, Chart.remove, Chart.command, tracks.commands, List.getElem?_map]
    cases found : g.records[index]? with
    | some record =>
      have removed := tracks.remove found
      rw [tracks.commands] at removed
      exact removed
    | none =>
      rw [Ledger.step, found]
      exact tracks
  | replace line command =>
    rw [Edit.step, Edit.attempt, Chart.command, tracks.commands, List.getElem?_map]
    cases found : g.records[line]? with
    | some record => exact tracks.replace found command
    | none =>
      have outside := List.getElem?_eq_none_iff.mp found
      rw [Ledger.step, List.modify_eq_self outside]
      exact tracks
  | addLabel name target =>
    rw [Edit.step, Edit.attempt, Chart.addLabel]
    by_cases inside : target ≤ g.records.length
    · rw [if_neg (by omega)]
      exact tracks.addLabel name inside
    · rw [if_pos (by omega), Ledger.step, if_neg inside]
      exact tracks
  | setScramble params => exact ⟨tracks.distinct, tracks.fresh, tracks.anchored, tracks.commands,
      tracks.labels⟩

/-- A chart and its ledger agree along every run. -/
theorem Tracks.run (tracks : Tracks g c) (edits : List Edit) :
    Tracks (g.run edits) (Edit.run edits c) := by
  induction edits generalizing g c with
  | nil => exact tracks
  | cons edit edits ih => exact ih (tracks.step edit)

/-! ### What an edit leaves alone -/

/-- Apart from the one that an edit is about, the records stay as they are and in their order. -/
theorem filter_step (g : Ledger) (edit : Edit) :
    ((g.step edit).records.filter fun record => some record.1 ≠ g.touched edit) =
      g.records.filter fun record => some record.1 ≠ g.touched edit := by
  cases edit with
  | push command => simp [step, touched]
  | insert index command =>
    by_cases inside : index ≤ g.records.length
    · obtain ⟨front, back, cut, rfl⟩ := exists_cut inside
      rw [step, touched, if_pos inside, if_pos inside, cut, insertIdx_at_cut]
      simp
    · rw [step, if_neg inside]
  | remove index =>
    cases found : g.records[index]? with
    | some record =>
      obtain ⟨front, back, cut, rfl⟩ := exists_cut_at found
      rw [step, touched, found, cut, eraseIdx_at_cut]
      simp
    | none => rw [step, found]
  | replace line command =>
    cases found : g.records[line]? with
    | some record =>
      obtain ⟨front, back, cut, rfl⟩ := exists_cut_at found
      rw [step, touched, found, cut, modify_at_cut]
      simp
    | none =>
      have outside := List.getElem?_eq_none_iff.mp found
      rw [step, List.modify_eq_self outside]
  | addLabel name target =>
    rw [step]
    split <;> rfl
  | setScramble params => rfl

/-- Labels keep their names and their order; a new one is added behind. -/
theorem names_step (g : Ledger) (edit : Edit) :
    (g.step edit).labels.map Prod.fst = g.labels.map Prod.fst ++ g.newNames edit := by
  have retied : ∀ old new, (g.labels.map (retie old new)).map Prod.fst = g.labels.map Prod.fst := by
    intro old new
    rw [List.map_map]
    refine List.map_congr_left fun l _ => ?_
    rw [Function.comp_apply, retie]
    split <;> rfl
  cases edit with
  | push command => simp only [step, newNames, retied, List.append_nil]
  | insert index command =>
    simp only [step, newNames, List.append_nil]
    split <;> rfl
  | remove index =>
    simp only [step, newNames, List.append_nil]
    split
    · exact retied _ _
    · rfl
  | replace line command => simp only [step, newNames, List.append_nil]
  | addLabel name target =>
    rw [step, newNames]
    split
    · rw [List.map_append, List.map_singleton]
    · rw [List.append_nil]
  | setScramble params => simp only [step, newNames, List.append_nil]

/-! ### Opening a ledger -/

theorem ids_ofChart (c : Chart) : (ofChart c).ids = List.range c.length := by
  simp only [ids, ofChart, List.map_map]
  rw [show Prod.fst ∘ Prod.swap = (Prod.snd : Command × Nat → Nat) from rfl, List.zipIdx_map_snd,
    List.range_eq_range']
  rfl

/-- A chart whose labels all point at commands or at the end agrees with the ledger opened on it. -/
theorem tracks_ofChart (inside : ∀ l ∈ c.labels, l.target ≤ c.length) : Tracks (ofChart c) c := by
  have ids_eq := ids_ofChart c
  have length : (ofChart c).records.length = c.length := by
    rw [← length_ids, ids_eq, List.length_range]
  have distinct : (ofChart c).ids.Nodup := ids_eq ▸ List.nodup_range
  refine ⟨distinct, ?_, ?_, ?_, ?_⟩
  · intro id member
    rw [ids_eq] at member
    exact List.mem_range.mp member
  · intro l member id tied
    obtain ⟨l₀, _, rfl⟩ := List.mem_map.mp member
    rcases anchorAt_cases (ofChart c) l₀.target with ⟨id', member', on⟩ | ⟨ended, _⟩
    · cases on.symm.trans tied
      exact member'
    · cases ended.symm.trans tied
  · simp only [ofChart, List.map_map]
    rw [show Prod.snd ∘ Prod.swap = (Prod.fst : Command × Nat → Command) from rfl,
      List.zipIdx_map_fst]
  · change c.labels = (c.labels.map _).map _
    rw [List.map_map]
    refine (List.map_id' _).symm.trans (List.map_congr_left fun l member => ?_)
    have here := position_anchorAt distinct (length ▸ inside l member)
    exact congrArg (Label.mk l.name) here.symm

end Ledger

/-! ### Writing -/

/-- The outcome is no complaint about the target of a label. -/
def SparesLabels {α : Type} : Except Error α → Prop
  | .error (.labelOutOfRange _ _ _) => False
  | _ => True

section Sparing

variable {α β : Type} {e : Encoding}

theorem SparesLabels.bind {m : Except Error α} {f : α → Except Error β} (first : SparesLabels m)
    (second : ∀ x, SparesLabels (f x)) : SparesLabels (m >>= f) := by
  cases m with
  | ok x => exact second x
  | error cause => cases cause <;> exact first

/-- A fault of a text is not one of a label. -/
theorem sparesLabels_of_raises {m : Except Error α} (raises : Raises Error.OfText m) :
    SparesLabels m := by
  cases m with
  | ok x => trivial
  | error cause =>
    cases raises cause rfl with
    | text fault => trivial
    | tag name fault => trivial

theorem sparesLabels_write (e : Encoding) (s : String) : SparesLabels (e.write s) :=
  sparesLabels_of_raises (e.raises_write s)

theorem sparesLabels_items {elem : Kind}
    (one : ∀ v field, SparesLabels (Value.encode e v elem field)) (items : List Value)
    (field : String) (i : Nat) : SparesLabels (Value.encodeItems e items elem field i) := by
  induction items generalizing i with
  | nil => trivial
  | cons v items ih =>
    rw [Value.encodeItems]
    exact (one v _).bind fun _ => (ih (i + 1)).bind fun _ => trivial

theorem sparesLabels_value (e : Encoding) (v : Value) (kind : Kind) (field : String) :
    SparesLabels (v.encode e kind field) := by
  induction kind generalizing v field with
  | int => cases v <;> trivial
  | real => cases v <;> trivial
  | flag => cases v <;> trivial
  | str =>
    cases v with
    | str s => exact (sparesLabels_write e s).bind fun _ => trivial
    | _ => trivial
  | array elem ih =>
    cases v with
    | array items =>
      rw [Value.encode]
      exact (sparesLabels_items ih items field 0).bind fun _ => trivial
    | _ => trivial

theorem sparesLabels_fields (e : Encoding) (label : Field → String) (fields : List Field)
    (values : List Value) : SparesLabels (Field.encodeAll e label fields values) := by
  induction fields generalizing values with
  | nil => trivial
  | cons f fields ih =>
    cases values with
    | nil => trivial
    | cons v values =>
      rw [Field.encodeAll]
      exact (sparesLabels_value e v _ _).bind fun _ => (ih values).bind fun _ => trivial

theorem sparesLabels_groups (e : Encoding) (opcode : Opcode) (tail : List Field) (group : Nat)
    (groups : List (List Value)) :
    SparesLabels (Parameters.encodeGroups e opcode tail group groups) := by
  induction groups generalizing group with
  | nil => trivial
  | cons values groups ih =>
    rw [Parameters.encodeGroups]
    split
    · trivial
    · exact (sparesLabels_fields e _ tail values).bind fun _ =>
        (ih (group + 1)).bind fun _ => trivial

theorem sparesLabels_block (e : Encoding) (block : TextBlock) : SparesLabels (block.encode e) :=
  sparesLabels_of_raises (block.raises_encode e)

theorem sparesLabels_params (e : Encoding) (opcode : Opcode) (s : Schema) (p : Parameters) :
    SparesLabels (p.encode e opcode s) := by
  have values : SparesLabels (p.encodeValues e opcode s) := by
    rw [Parameters.encodeValues]
    split
    · trivial
    · refine (sparesLabels_fields e _ _ _).bind fun _ => SparesLabels.bind ?_ fun _ => trivial
      rw [Parameters.encodeTail]
      split
      · exact (sparesLabels_groups e opcode _ 0 _).bind fun _ => trivial
      · split <;> trivial
  have text : SparesLabels (p.encodeText e opcode s) := by
    rw [Parameters.encodeText]
    split
    · exact sparesLabels_block e _
    · trivial
    · trivial
    · trivial
  exact values.bind fun _ => text.bind fun _ => trivial

theorem sparesLabels_command (e : Encoding) (c : Command) : SparesLabels (c.encode e) := by
  refine SparesLabels.bind ?_ fun _ => trivial
  rw [Command.encodeBody]
  split
  · trivial
  · exact sparesLabels_params e _ _ _
  · trivial

theorem sparesLabels_commands (e : Encoding) (commands : List Command) :
    SparesLabels (Command.encodeAll e commands) := by
  induction commands with
  | nil => trivial
  | cons c commands ih => exact (sparesLabels_command e c).bind fun _ => ih.bind fun _ => trivial

theorem sparesLabels_labels {commands : Nat} {labels : List Label}
    (inside : ∀ l ∈ labels, l.target ≤ commands) :
    SparesLabels (Label.encodeAll e commands labels) := by
  induction labels with
  | nil => trivial
  | cons l labels ih =>
    have first := inside l List.mem_cons_self
    have rest := ih fun l member => inside l (List.mem_cons_of_mem _ member)
    rw [Label.encodeAll, if_neg (Nat.not_lt.mpr first)]
    exact (sparesLabels_write e _).bind fun _ => rest.bind fun _ => trivial

/-- A chart whose labels all point at commands or at the end is never refused over one. -/
theorem Chart.sparesLabels_toPlainBytes {c : Chart} (inside : ∀ l ∈ c.labels, l.target ≤ c.length) :
    SparesLabels c.toPlainBytes := by
  have stream : SparesLabels (Command.encodeStream c.encoding c.commands) :=
    (sparesLabels_commands c.encoding c.commands).bind fun _ => trivial
  have table : SparesLabels (Label.encodeTable c.encoding c.length c.labels) :=
    (sparesLabels_labels inside).bind fun _ => trivial
  have body : SparesLabels c.encodeBody := by
    rw [Chart.encodeBody]
    exact stream.bind fun _ => table.bind fun _ => trivial
  rw [Chart.toPlainBytes]
  exact body.bind fun _ => trivial

end Sparing

/-! ### Runs of edits -/

namespace Ledger

variable {g : Ledger} {c : Chart}

theorem Tracks.target_le (tracks : Tracks g c) : ∀ l ∈ c.labels, l.target ≤ c.length := by
  intro l member
  rw [tracks.labels] at member
  obtain ⟨l₀, _, rfl⟩ := List.mem_map.mp member
  rw [tracks.length_eq]
  change g.position l₀.2 ≤ _
  cases l₀.2 with
  | on id =>
    rw [position, ← length_ids]
    exact List.idxOf_le_length
  | behind => exact Nat.le_refl _

theorem Tracks.names_eq (tracks : Tracks g c) :
    c.labels.map Label.name = g.labels.map Prod.fst := by
  rw [tracks.labels, List.map_map]
  rfl

/-- An edit that fails on the chart is none on the ledger. -/
theorem Tracks.step_of_error (tracks : Tracks g c) {edit : Edit} {cause : Error}
    (failed : edit.attempt c = .error cause) : g.step edit = g := by
  have length := tracks.length_eq
  cases edit with
  | push command => cases failed
  | insert index command =>
    rw [Edit.attempt, Chart.insert] at failed
    split at failed
    · rw [Ledger.step, if_neg (by omega)]
    · cases failed
  | remove index =>
    rw [Edit.attempt, Chart.remove, Chart.command, tracks.commands, List.getElem?_map] at failed
    cases found : g.records[index]? with
    | some record =>
      rw [found] at failed
      cases failed
    | none => rw [Ledger.step, found]
  | replace line command =>
    rw [Edit.attempt, Chart.command, tracks.commands, List.getElem?_map] at failed
    cases found : g.records[line]? with
    | some record =>
      rw [found] at failed
      cases failed
    | none => rw [Ledger.step, List.modify_eq_self (List.getElem?_eq_none_iff.mp found)]
  | addLabel name target =>
    rw [Edit.attempt, Chart.addLabel] at failed
    split at failed
    · rw [Ledger.step, if_neg (by omega)]
    · cases failed
  | setScramble params => cases failed

end Ledger

/-- A chart that editing starts from: a new one, or one that was read. -/
def Chart.Begun (c : Chart) : Prop :=
  (∃ version e, Chart.new version e = .ok c) ∨ ∃ e bytes, Chart.ofBytes e bytes = .ok c

theorem Chart.Begun.target_le {c : Chart} (begun : c.Begun) :
    ∀ l ∈ c.labels, l.target ≤ c.length := by
  rcases begun with ⟨version, e, made⟩ | ⟨e, bytes, read⟩
  · simp only [Chart.new, bind_eq_ok, pure_eq_ok] at made
    obtain ⟨_, _, rfl⟩ := made
    intro l member
    cases member
  · rw [Chart.ofBytes, bind_eq_ok] at read
    obtain ⟨⟨_, layout⟩, read, same⟩ := read
    cases same
    obtain ⟨_, _, _, _, records, _, _, _, ⟨_, _, many, _⟩, _, _, commands, _⟩ :=
      Chart.decodeLayout_eq_ok.mp read
    rw [Chart.length, commands, List.length_map]
    intro l member
    obtain ⟨_, _, _, inside, _⟩ := many.spelled member
    exact inside

/-- Labels follow their commands along every run of edits. Each target is where the label's anchor
stands now; a further edit touches no command but the one that it is about, adds to the names of the
labels only behind the others, and changes nothing when it fails; and no label is a reason not to
write the chart. -/
theorem Edit.labels_follow {start c : Chart} {g : Ledger} {edits : List Edit}
    (begun : start.Begun) (reached : Edit.run edits start = c)
    (recorded : (Ledger.ofChart start).run edits = g) :
    g.Tracks c ∧
      (∀ edit, (g.step edit).Tracks (edit.step c) ∧
        ((g.step edit).records.filter fun record => some record.1 ≠ g.touched edit) =
          (g.records.filter fun record => some record.1 ≠ g.touched edit) ∧
        (edit.step c).labels.map Label.name = c.labels.map Label.name ++ g.newNames edit) ∧
      (∀ edit cause, edit.attempt c = .error cause → g.step edit = g ∧ edit.step c = c) ∧
      ∀ name target length, c.toPlainBytes ≠ .error (.labelOutOfRange name target length) := by
  have tracks : g.Tracks c := by
    rw [← reached, ← recorded]
    exact (Ledger.tracks_ofChart begun.target_le).run edits
  refine ⟨tracks, ?_, ?_, ?_⟩
  · intro edit
    refine ⟨tracks.step edit, g.filter_step edit, ?_⟩
    rw [(tracks.step edit).names_eq, tracks.names_eq, g.names_step]
  · intro edit cause failed
    refine ⟨tracks.step_of_error failed, ?_⟩
    rw [Edit.step, failed]
  · intro name target length failed
    have spared := Chart.sparesLabels_toPlainBytes tracks.target_le
    rw [failed] at spared
    exact spared

/-- A run on a chart that was read: the label at the end stays there when the last command is
removed, and goes to the command that is appended then. -/
def Edit.sampleRun : List Edit :=
  [.remove 2, .push (.ofRaw ⟨0x09⟩ [4]), .insert 0 (.ofRaw ⟨0x09⟩ []), .addLabel "new" 4, .remove 9]

set_option maxRecDepth 10000 in
/-- The labels follow along the run. -/
theorem Edit.labels_follow_sampleRun :
    (Edit.run sampleRun Chart.sample.marked).labels = [⟨"end", 3⟩, ⟨"new", 4⟩] ∧
      ((Ledger.ofChart Chart.sample.marked).run sampleRun).labels =
        [("end", .on 3), ("new", .behind)] ∧
      ((Ledger.ofChart Chart.sample.marked).run sampleRun).Tracks
        (Edit.run sampleRun Chart.sample.marked) := by
  have begun : Chart.sample.marked.Begun := .inr ⟨.cp932, Chart.sampleBytes, rfl⟩
  exact ⟨rfl, rfl, (Edit.labels_follow begun rfl rfl).1⟩

end NovelChart
