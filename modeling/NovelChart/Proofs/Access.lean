import NovelChart.Proofs.Address
import NovelChart.Proofs.Conformance

/-!
# Parameters by place and by name

The parameters of a command can be listed, fetched by their place in the list, or fetched by the
name that the list gives them. Listing walks along the schema and the values; a place is taken apart
by division into the number of a group and a place in it; a name is taken apart at its bracket and
the number is read back. All three come to the same slots, so that they agree on what a parameter
is, and storing a value by place or by name changes one entry of the list and nothing else.

## Main definitions

* `Slot.label`: the name of a slot in the list of parameters
* `Slot.pick`: the entry for a slot in a list that is laid out as a schema has it
* `Command.kinds`: the kinds that the schema asks for, in the order of the list

## Main results

* `Schema.slotNamed?_label`: the name of a slot leads to the slot, in any letter case
* `Schema.getElem?_laid`: a place of such a list leads to the entry for the slot of the place
* `Command.getElem?_fields`: what is listed at a place is what the slot of the place holds
* `Command.fields_set`: storing a value changes one entry of the list
* `Command.access_agrees`: reading and storing by place and by name agree
-/

namespace NovelChart

/-! ### Lists of equal groups -/

/-- In groups of one width, one behind the other, an entry is found by dividing its place. -/
theorem getElem?_flatten_of_width {α : Type} {groups : List (List α)} {width : Nat}
    (pos : 0 < width) (uniform : ∀ entries ∈ groups, entries.length = width) (i : Nat) :
    groups.flatten[i]? = groups[i / width]?.bind fun entries => entries[i % width]? := by
  induction groups generalizing i with
  | nil => rfl
  | cons entries groups ih =>
    obtain ⟨here, others⟩ := List.forall_mem_cons.mp uniform
    rw [List.flatten_cons]
    by_cases first : i < width
    · rw [List.getElem?_append_left (by omega), Nat.div_eq_of_lt first, Nat.mod_eq_of_lt first]
      rfl
    · -- Behind the first group, places count from its end.
      have behind := Nat.not_lt.mp first
      rw [List.getElem?_append_right (by omega), here, ih others, Nat.div_eq_sub_div pos behind,
        Nat.mod_eq_sub_mod behind]
      rfl

/-! ### Letters -/

namespace Text

variable {x y : Char}

/-- A letter, whatever its case, is neither a blank nor a bracket. -/
theorem of_isLower_toLower (letter : x.toLower.isLower = true) : isBlank x = false ∧ x ≠ '[' := by
  have bounds := toNat_of_isLower letter
  rw [toNat_toLower] at bounds
  constructor
  · refine not_isBlank_of_range ?_ ?_
    · split at bounds <;> omega
    · split at bounds <;> omega
  · rintro rfl
    simp at bounds

/-- A character that is no letter has no other case. -/
theorem eq_of_toLower_eq (other : x.toLower.isLower = false) (same : y.toLower = x.toLower) :
    y = x := by
  have small : ¬(97 ≤ x.toLower.toNat ∧ x.toLower.toNat ≤ 122) := by
    intro bounds
    have letter : x.toLower.isLower = true :=
      Bool.and_eq_true_iff.mpr ⟨decide_eq_true (UInt32.le_iff_toNat_le.mpr bounds.1),
        decide_eq_true (UInt32.le_iff_toNat_le.mpr bounds.2)⟩
    rw [letter] at other
    cases other
  have values := congrArg Char.toNat same
  rw [toNat_toLower] at small
  rw [toNat_toLower, toNat_toLower] at values
  apply Char.toNat_inj.mp
  split at small <;> split at values <;> omega

/-- Another spelling of a text that ends without letters has the same end. -/
theorem exists_front {a b c : String} (plain : ∀ x ∈ b.toList, x.toLower.isLower = false)
    (same : sameLetters (a ++ b) c = true) : ∃ a', sameLetters a a' = true ∧ c = a' ++ b := by
  rw [sameLetters_iff, String.toList_append, List.map_append, eq_comm,
    List.map_eq_append_iff] at same
  obtain ⟨front, back, cut, fronts, backs⟩ := same
  have kept : back = b.toList := by
    clear cut
    generalize b.toList = letters at plain backs
    induction letters generalizing back with
    | nil => exact List.map_eq_nil_iff.mp backs
    | cons x letters ih =>
      obtain ⟨y, rest, rfl, first, others⟩ := List.map_eq_cons_iff.mp backs
      obtain ⟨here, later⟩ := List.forall_mem_cons.mp plain
      rw [eq_of_toLower_eq here first, ih rest later others]
  refine ⟨String.ofList front, ?_, ?_⟩
  · rw [sameLetters_iff, String.toList_ofList, fronts]
  · apply String.toList_injective
    rw [cut, kept, String.toList_append, String.toList_ofList]

/-- There are no letters in a number, nor in the brackets around it. -/
theorem not_isLower_bracketed (n : Nat) :
    ∀ x ∈ ("[" ++ toString n ++ "]").toList, x.toLower.isLower = false := by
  intro x member
  simp only [String.toList_append, List.mem_append] at member
  rcases member with (bracket | digit) | bracket
  · cases List.mem_singleton.mp bracket
    rfl
  · rw [Bool.eq_false_iff]
    intro letter
    have lower := toNat_of_isLower letter
    have bounds := toNat_of_isDigit (isDigit_toString digit)
    rw [toNat_toLower] at lower
    split at lower <;> omega
  · cases List.mem_singleton.mp bracket
    rfl

end Text

/-! ### The names of slots -/

/-- The number of the group that a slot stands in. -/
def Slot.group : Slot → Nat
  | .fixed _ => 0
  | .tail group _ => group

/-- The name of a slot in the list of parameters. -/
def Slot.label (f : Field) : Slot → String
  | .fixed _ => f.name
  | .tail group _ => f.nameInGroup group

/-- The entry for a slot, among entries for the fixed fields and groups of entries for the tail. -/
def Slot.pick {α : Type} (front : List α) (groups : List (List α)) : Slot → Option α
  | .fixed i => front[i]?
  | .tail group i => groups[group]?.bind fun entries => entries[i]?

/-- The names of the fields are told apart without regard to case, and made of letters. -/
structure Field.Named (fields : List Field) : Prop where
  found : ∀ k ∈ fields.zipIdx, Field.find? fields k.1.name = some k.2
  letters : ∀ f ∈ fields, ∀ x ∈ f.name.toList, x.toLower.isLower = true

namespace Field

variable {fields : List Field} {i : Nat} {f : Field} {name : String}

theorem Named.find?_eq (named : Named fields) (inside : fields[i]? = some f)
    (same : Text.sameLetters f.name name = true) : find? fields name = some i := by
  have found := named.found (f, i) (List.mem_zipIdx_iff_getElem?.mpr inside)
  simpa only [find?, Text.sameLetters_congr same] using found

/-- A name with a bracket is none of them. -/
theorem Named.find?_bracket (named : Named fields) (bracket : '[' ∈ name.toList) :
    find? fields name = none := by
  rw [find?, List.findIdx?_eq_none_iff]
  intro f member
  by_contra same
  rw [Bool.not_eq_false, Text.sameLetters_iff] at same
  -- A letter of the field would have the bracket for its lower case.
  have inside : '['.toLower ∈ f.name.toList.map Char.toLower := by
    rw [same]
    exact List.mem_map_of_mem bracket
  obtain ⟨x, among, lower⟩ := List.mem_map.mp inside
  have letter := named.letters f member x among
  rw [lower] at letter
  cases letter

end Field

namespace Opcode

variable {opcode : Opcode} {s : Schema} {fields : List Field}

/-- The rows of the catalogue tell their fields apart. -/
theorem named_fields (schema : opcode.schema? = some s)
    (listed : fields ∈ s.fields :: s.tail.toList) : Field.Named fields := by
  have rows : ∀ entry ∈ catalogue, ∀ s ∈ entry.schema, ∀ fields ∈ s.fields :: s.tail.toList,
      (∀ k ∈ fields.zipIdx, Field.find? fields k.1.name = some k.2) ∧
        ∀ f ∈ fields, f.name.toList.all (fun x => x.toLower.isLower) = true := by
    decide
  obtain ⟨entry, found, row⟩ := Option.bind_eq_some_iff.mp schema
  obtain ⟨named, letters⟩ := rows entry (List.mem_of_getElem? found) s row fields listed
  exact ⟨named, fun f member => List.all_eq_true.mp (letters f member)⟩

/-- No group of a tail is empty, or it would take no bytes. -/
theorem length_tail_pos (schema : opcode.schema? = some s) (there : s.tail = some fields) :
    0 < fields.length := by
  have wide := two_le_minSizes schema fields there
  cases fields with
  | nil => cases wide
  | cons f fields => exact Nat.succ_pos _

end Opcode

namespace Schema

variable {opcode : Opcode} {s : Schema} {slot : Slot} {f : Field} {name : String}

/-- The name of a slot leads to the slot, in any letter case. -/
theorem slotNamed?_label (schema : opcode.schema? = some s) (held : s.fieldOf? slot = some f)
    (small : slot.group < Text.positionLimit)
    (same : Text.sameLetters (slot.label f) name = true) :
    s.slotNamed? name = some (slot, f) := by
  have named : Field.Named s.fields := Opcode.named_fields schema List.mem_cons_self
  cases slot with
  | fixed i =>
    have inside : s.fields[i]? = some f := held
    rw [slotNamed?, fieldIndex?, named.find?_eq inside same]
    simp only [inside, Option.map_some]
  | tail group i =>
    obtain ⟨fields, there, inside⟩ := Option.bind_eq_some_iff.mp held
    have named' : Field.Named fields :=
      Opcode.named_fields schema (List.mem_cons_of_mem _ (by simp [there]))
    have small' : group < Text.positionLimit := small
    -- Only the letters in front of the bracket have another case.
    obtain ⟨base, letters, rfl⟩ : ∃ base, Text.sameLetters f.name base = true ∧
        name = Field.nameInGroup ⟨base, f.kind⟩ group := by
      have cut : f.nameInGroup group = f.name ++ ("[" ++ toString group ++ "]") := by
        simp [Field.nameInGroup, String.append_assoc]
      rw [Slot.label, cut] at same
      obtain ⟨base, letters, rfl⟩ := Text.exists_front (Text.not_isLower_bracketed group) same
      exact ⟨base, letters, by simp [Field.nameInGroup, String.append_assoc]⟩
    have bracket : '[' ∈ (Field.nameInGroup ⟨base, f.kind⟩ group).toList := by
      simp [Field.nameInGroup]
    have among : ∀ x ∈ base.toList, Text.isBlank x = false ∧ x ≠ '[' := fun x member =>
      Text.of_isLower_toLower (Text.isLower_of_sameLetters letters
        (named'.letters f (List.mem_of_getElem? inside)) member)
    have split : Field.splitName? (Field.nameInGroup ⟨base, f.kind⟩ group) = some (base, group) :=
      Field.splitName?_nameInGroup (fun member => (among _ member).2 rfl)
        (fun x member => (among x member).1) small'
    simp only [slotNamed?, fieldIndex?, named.find?_bracket bracket, split, there,
      named'.find?_eq inside letters, inside, bind, Option.bind_some, pure]

/-! ### The places of slots -/

variable {groups i j : Nat} {fields : List Field}

theorem slotAt?_eq_fixed {k : Nat} (found : s.slotAt? groups i = some (.fixed k, f)) :
    i = k ∧ s.fields[k]? = some f := by
  rw [slotAt?] at found
  split at found
  · next g inside =>
    cases found
    exact ⟨rfl, inside⟩
  · simp only [bind, Option.bind_eq_some_iff, Option.ite_none_right_eq_some] at found
    obtain ⟨_, _, _, _, _, same⟩ := found
    cases same

theorem slotAt?_eq_tail {group k : Nat} (found : s.slotAt? groups i = some (.tail group k, f)) :
    ∃ fields, s.tail = some fields ∧ s.fields.length ≤ i ∧ group < groups ∧
      (i - s.fields.length) / fields.length = group ∧
      (i - s.fields.length) % fields.length = k ∧ fields[k]? = some f := by
  rw [slotAt?] at found
  split at found
  · cases found
  · next behind =>
    simp only [bind, Option.bind_eq_some_iff, Option.ite_none_right_eq_some] at found
    obtain ⟨fields, there, g, inside, few, same⟩ := found
    cases same
    exact ⟨fields, there, List.getElem?_eq_none_iff.mp behind, few, rfl, rfl, inside⟩

/-- The groups of slots are numbered below the number of groups. -/
theorem group_le (found : s.slotAt? groups i = some (slot, f)) : slot.group ≤ groups := by
  cases slot with
  | fixed k => exact Nat.zero_le _
  | tail group k =>
    obtain ⟨_, _, _, few, _⟩ := slotAt?_eq_tail found
    exact Nat.le_of_lt few

/-- Different places have different slots. -/
theorem slotAt?_inj {g : Field} (left : s.slotAt? groups i = some (slot, f))
    (right : s.slotAt? groups j = some (slot, g)) : i = j := by
  cases slot with
  | fixed k => rw [(slotAt?_eq_fixed left).1, (slotAt?_eq_fixed right).1]
  | tail group k =>
    obtain ⟨fields, there, behind, _, rfl, rfl, _⟩ := slotAt?_eq_tail left
    obtain ⟨fields', there', behind', _, groups_eq, places_eq, _⟩ := slotAt?_eq_tail right
    cases there.symm.trans there'
    have left := Nat.div_add_mod (i - s.fields.length) fields.length
    have right := Nat.div_add_mod (j - s.fields.length) fields.length
    rw [groups_eq, places_eq, left] at right
    omega

/-- What a list holds at a place, if it has an entry for each fixed field and behind these groups
with an entry for each field of the tail: the entry for the slot of the place. -/
theorem getElem?_laid {α : Type} (schema : opcode.schema? = some s) {front : List α}
    {groups : List (List α)} (fixed : front.length = s.fields.length)
    (tail : ∀ entries ∈ groups, ∃ fields, s.tail = some fields ∧ entries.length = fields.length)
    (i : Nat) :
    (front ++ groups.flatten)[i]? =
      (s.slotAt? groups.length i).bind fun x => x.1.pick front groups := by
  rw [slotAt?]
  by_cases before : i < s.fields.length
  · rw [List.getElem?_append_left (fixed ▸ before), List.getElem?_eq_getElem before]
    rfl
  · have behind := Nat.not_lt.mp before
    rw [List.getElem?_append_right (fixed ▸ behind), fixed, List.getElem?_eq_none behind]
    cases there : s.tail with
    | none =>
      have empty : groups = [] := by
        refine List.eq_nil_iff_forall_not_mem.mpr fun entries member => ?_
        obtain ⟨fields, there', _⟩ := tail entries member
        cases there.symm.trans there'
      rw [empty]
      rfl
    | some fields =>
      have pos := Opcode.length_tail_pos schema there
      have uniform : ∀ entries ∈ groups, entries.length = fields.length := by
        intro entries member
        obtain ⟨fields', there', length⟩ := tail entries member
        cases there.symm.trans there'
        exact length
      rw [getElem?_flatten_of_width pos uniform]
      dsimp only [bind, Option.bind_some]
      generalize i - s.fields.length = place
      rw [List.getElem?_eq_getElem (Nat.mod_lt place pos), Option.bind_some]
      by_cases few : place / fields.length < groups.length
      · rw [if_pos few]
        rfl
      · rw [if_neg few, List.getElem?_eq_none (Nat.not_lt.mp few)]
        rfl

end Schema

/-! ### Slots of typed bodies -/

namespace Parameters

variable {s : Schema} {p : Parameters}

@[simp] theorem text_set (p : Parameters) (v : Value) (slot : Slot) :
    (p.set v slot).text = p.text := by
  cases slot with
  | fixed i => rfl
  | tail group i => rfl

@[simp] theorem length_tail_set (p : Parameters) (v : Value) (slot : Slot) :
    (p.set v slot).tail.length = p.tail.length := by
  cases slot with
  | fixed i => rfl
  | tail group i => exact List.length_modify ..

/-- Storing a value changes what one slot holds. -/
theorem get?_set (p : Parameters) (v : Value) (slot slot' : Slot) :
    (p.set v slot).get? slot' =
      if slot = slot' then (p.get? slot').map fun _ => v else p.get? slot' := by
  cases slot with
  | fixed i =>
    cases slot' with
    | fixed j => simp [set, get?, List.getElem?_set', Function.const_def]
    | tail group j => rfl
  | tail group i =>
    cases slot' with
    | fixed j => rfl
    | tail group' j =>
      simp only [set, get?, List.getElem?_modify]
      cases p.tail[group']? with
      | none => simp
      | some values =>
        by_cases here : group = group'
        · simp [here, List.getElem?_set', Function.const_def]
        · simp [here]

end Parameters

/-! ### The list of parameters -/

namespace Field

variable {fields : List Field} {values : List Value}

theorem Match.length_zip (fit : Match fields values) :
    (fields.zip values).length = fields.length := by
  rw [List.length_zip, fit.length_eq, Nat.min_self]

/-- Under every field there is a value. -/
theorem Match.getElem?_zip {i : Nat} {f : Field} (fit : Match fields values)
    (inside : fields[i]? = some f) :
    ∃ v, values[i]? = some v ∧ (fields.zip values)[i]? = some (f, v) := by
  obtain ⟨before, _⟩ := List.getElem?_eq_some_iff.mp inside
  have held := List.getElem?_eq_getElem (fit.length_eq ▸ before)
  exact ⟨_, held, List.getElem?_zip_eq_some.mpr ⟨inside, held⟩⟩

end Field

namespace Command

/-- The kinds that the schema asks for, in the order of the list of parameters. -/
def kinds (c : Command) : List Kind :=
  match c.typed? with
  | none => []
  | some (schema, p) =>
    schema.fields.map Field.kind ++ p.tail.flatMap fun _ => (schema.tail.getD []).map Field.kind

section

variable {c : Command} {s : Schema} {p : Parameters} (schema : c.opcode.schema? = some s)
  (typed : c.body = .typed p) (conforms : p.Conforms s)

include schema typed

/-- The list of the parameters, laid out as the schema has it. -/
theorem fields_eq : c.fields = (s.fields.zip p.fixed).map (fun x => (x.1.name, x.2)) ++
    (p.tail.zipIdx.map fun x =>
      ((s.tail.getD []).zip x.1).map fun y => (y.1.nameInGroup x.2, y.2)).flatten := by
  have parts : c.typed? = some (s, p) := typed?_eq_some.mpr ⟨schema, typed⟩
  rw [fields, parts]
  dsimp only
  cases there : s.tail with
  | none => simp
  | some fields =>
    dsimp only
    rw [List.flatMap_def]
    rfl

/-- The kinds, laid out in the same way. -/
theorem kinds_eq : c.kinds = s.fields.map Field.kind ++
    (p.tail.map fun _ => (s.tail.getD []).map Field.kind).flatten := by
  have parts : c.typed? = some (s, p) := typed?_eq_some.mpr ⟨schema, typed⟩
  rw [kinds, parts]
  dsimp only
  rw [List.flatMap_def]

include conforms

/-- What is listed at a place is what the slot of the place holds. -/
theorem getElem?_fields (i : Nat) : c.fields[i]? =
    (s.slotAt? p.tail.length i).bind fun x => (p.get? x.1).map fun v => (x.1.label x.2, v) := by
  rw [fields_eq schema typed, Schema.getElem?_laid schema, List.length_map, List.length_zipIdx]
  · apply Option.bind_congr
    rintro ⟨slot, f⟩ found
    cases slot with
    | fixed k =>
      obtain ⟨rfl, inside⟩ := Schema.slotAt?_eq_fixed found
      obtain ⟨v, held, pair⟩ := conforms.fixed.getElem?_zip inside
      simp only [Slot.pick, List.getElem?_map, pair, Parameters.get?, held, Option.map_some,
        Slot.label]
    | tail group k =>
      obtain ⟨fields, there, _, few, _, _, inside⟩ := Schema.slotAt?_eq_tail found
      have fit := conforms.match_of_mem there _ (List.getElem_mem few)
      obtain ⟨v, held, pair⟩ := fit.getElem?_zip inside
      simp only [Slot.pick, List.getElem?_map, List.getElem?_zipIdx, Parameters.get?, there,
        List.getElem?_eq_getElem few, Option.map_some, Option.bind_some, Option.getD_some, pair,
        held, Slot.label, Nat.zero_add]
  · rw [List.length_map, conforms.fixed.length_zip]
  · intro entries member
    obtain ⟨⟨values, group⟩, inside, rfl⟩ := List.mem_map.mp member
    obtain ⟨fields, there, fit⟩ := conforms.tail values (List.fst_mem_of_mem_zipIdx inside)
    refine ⟨fields, there, ?_⟩
    rw [List.length_map, there, Option.getD_some, fit.length_zip]

/-- The kinds stand in the same places. -/
theorem getElem?_kinds (i : Nat) :
    c.kinds[i]? = (s.slotAt? p.tail.length i).map fun x => x.2.kind := by
  rw [kinds_eq schema typed, Schema.getElem?_laid schema (List.length_map ..), List.length_map,
    Option.map_eq_bind]
  · apply Option.bind_congr
    rintro ⟨slot, f⟩ found
    cases slot with
    | fixed k =>
      obtain ⟨rfl, inside⟩ := Schema.slotAt?_eq_fixed found
      simp only [Slot.pick, List.getElem?_map, inside, Option.map_some, Function.comp_apply]
    | tail group k =>
      obtain ⟨fields, there, _, few, _, _, inside⟩ := Schema.slotAt?_eq_tail found
      simp only [Slot.pick, List.getElem?_map, List.getElem?_eq_getElem few, there, inside,
        Option.map_some, Option.bind_some, Option.getD_some, Function.comp_apply]
  · intro entries member
    obtain ⟨values, inside, rfl⟩ := List.mem_map.mp member
    obtain ⟨fields, there, _⟩ := conforms.tail values inside
    refine ⟨fields, there, ?_⟩
    rw [List.length_map, there, Option.getD_some]

/-- Storing a value changes one entry of the list. -/
theorem fields_set {i : Nat} {slot : Slot} {f : Field} {v : Value}
    (found : s.slotAt? p.tail.length i = some (slot, f)) (fits : v.fits f.kind = true) :
    { c with body := .typed (p.set v slot) : Command }.fields =
      c.fields.set i (slot.label f, v) := by
  have kept := conforms.set (Schema.fieldOf?_slotAt? found) fits
  apply List.ext_getElem?
  intro j
  let c' : Command := { c with body := .typed (p.set v slot) }
  have schema' : c'.opcode.schema? = some s := schema
  rw [getElem?_fields schema' rfl kept, Parameters.length_tail_set, List.getElem?_set',
    getElem?_fields schema typed conforms]
  by_cases here : i = j
  · subst here
    simp only [found, Option.bind_some, Parameters.get?_set, if_true, Option.map_eq_map,
      Option.map_map, Function.comp_def]
    rfl
  · rw [if_neg here]
    cases other : s.slotAt? p.tail.length j with
    | none => rfl
    | some x =>
      obtain ⟨slot', g⟩ := x
      have apart : slot ≠ slot' := by
        rintro rfl
        exact here (Schema.slotAt?_inj found other)
      simp only [Option.bind_some, Parameters.get?_set, if_neg apart]

/-- Behind every entry of the list there is a slot. -/
theorem exists_slot {i : Nat} {name : String} {x : Value} (listed : c.fields[i]? = some (name, x)) :
    ∃ slot f, s.slotAt? p.tail.length i = some (slot, f) ∧ p.get? slot = some x ∧
      slot.label f = name := by
  rw [getElem?_fields schema typed conforms, Option.bind_eq_some_iff] at listed
  obtain ⟨⟨slot, f⟩, found, listed⟩ := listed
  obtain ⟨v, held, same⟩ := Option.map_eq_some_iff.mp listed
  cases same
  exact ⟨slot, f, found, held, rfl⟩

theorem fieldAt?_eq (i : Nat) : c.fieldAt? i = c.fields[i]?.map Prod.snd := by
  have parts : c.typed? = some (s, p) := typed?_eq_some.mpr ⟨schema, typed⟩
  rw [getElem?_fields schema typed conforms, fieldAt?, parts, Option.map_bind]
  simp only [Function.comp_def, Option.map_map, Option.map_id']
  rfl

end

/-! ### Reading and storing -/

section

variable {c : Command} {s : Schema} {p : Parameters} {slot : Slot} {f : Field} {name : String}
  {i : Nat} (schema : c.opcode.schema? = some s) (typed : c.body = .typed p)

include schema typed

theorem field_eq_ok {x : Value} (found : s.slotNamed? name = some (slot, f))
    (held : p.get? slot = some x) : c.field name = .ok x := by
  have parts : c.typed = .ok (s, p) := typed_eq_ok.mpr ⟨schema, typed⟩
  simp only [field, parts, found, held, bind, Except.bind, Option.bind_some, pure, Except.pure]

/-- A value goes into a slot that holds one, under any label. -/
theorem store_of_fits {x v : Value} (held : p.get? slot = some x) (fits : v.fits f.kind = true)
    (label : String) : c.store slot f label v = .ok { c with body := .typed (p.set v slot) } :=
  store_eq_ok.mpr ⟨fits, s, p, schema, typed, by rw [held, Option.isSome_some], rfl⟩

omit schema typed in
theorem store_of_misfit {v : Value} (misfit : v.fits f.kind = false) (label : String) :
    c.store slot f label v = .error (.typeMismatch label f.kind v.kindName) := by
  rw [store, misfit]
  rfl

theorem setFieldAt_eq_store (found : s.slotAt? p.tail.length i = some (slot, f)) (v : Value) :
    c.setFieldAt i v = c.store slot f ("#" ++ toString i) v := by
  have parts : c.typed = .ok (s, p) := typed_eq_ok.mpr ⟨schema, typed⟩
  simp only [setFieldAt, parts, found, bind, Except.bind]

omit typed in
theorem setField_eq_store (found : s.slotNamed? name = some (slot, f)) (v : Value) :
    c.setField name v = c.store slot f name v := by
  simp only [setField, schema, found]

end

variable {c : Command}

/-- The parameters of a command can be had by place and by name, and both agree with their list. A
place outside the list holds nothing; the entry at a place is what is read there, and what is read
by its name, in any letter case. A value that fits is stored by either way with the same outcome,
which is another value at this place of the list; any other value is refused by both. -/
theorem access_agrees (typed : c.isRaw = false) (conforms : c.Conforms)
    (few : c.tailLength < Text.positionLimit) (i : Nat) :
    (c.fieldAt? i = none ↔ c.fields.length ≤ i) ∧
      ∀ name x, c.fields[i]? = some (name, x) →
        c.fieldAt? i = some x ∧
        (∀ name', Text.sameLetters name name' = true → c.field name' = .ok x) ∧
        ∃ kind, c.kinds[i]? = some kind ∧
          ∀ v name', Text.sameLetters name name' = true →
            (v.fits kind = true → ∃ c', c.setField name' v = .ok c' ∧ c.setFieldAt i v = .ok c' ∧
              c'.fields = c.fields.set i (name, v) ∧ c'.opcode = c.opcode ∧
              c'.indent = c.indent ∧ c'.flags = c.flags ∧ c'.text? = c.text?) ∧
            (v.fits kind = false →
              c.setField name' v = .error (.typeMismatch name' kind v.kindName) ∧
              c.setFieldAt i v =
                .error (.typeMismatch ("#" ++ toString i) kind v.kindName) ∧
              ParamEdit.step c (.setField name' v) = c ∧
              ParamEdit.step c (.setFieldAt i v) = c) := by
  obtain ⟨p, body⟩ : ∃ p, c.body = .typed p := by
    cases body : c.body with
    | typed p => exact ⟨p, rfl⟩
    | raw bytes =>
      rw [isRaw, body] at typed
      cases typed
  obtain ⟨s, schema, conforms⟩ := conforms p body
  have groups : c.tailLength = p.tail.length := by
    rw [tailLength, params?, body]
  have place := fieldAt?_eq schema body conforms i
  refine ⟨by rw [place, Option.map_eq_none_iff, List.getElem?_eq_none_iff], ?_⟩
  intro name x listed
  refine ⟨by rw [place, listed, Option.map_some], ?_⟩
  obtain ⟨slot, f, found, held, rfl⟩ := exists_slot schema body conforms listed
  have small : slot.group < Text.positionLimit := by
    rw [groups] at few
    exact Nat.lt_of_le_of_lt (Schema.group_le found) few
  -- From here on, the place and every spelling of the name stand for one slot.
  have named : ∀ name', Text.sameLetters (slot.label f) name' = true →
      s.slotNamed? name' = some (slot, f) := fun _ same =>
    Schema.slotNamed?_label schema (Schema.fieldOf?_slotAt? found) small same
  refine ⟨fun name' same => field_eq_ok schema body (named name' same) held, f.kind, ?_, ?_⟩
  · rw [getElem?_kinds schema body conforms, found, Option.map_some]
  intro v name' same
  have byName := setField_eq_store schema (named name' same) v
  have byPlace := setFieldAt_eq_store schema body found v
  constructor
  · intro fits
    have stored := store_of_fits schema body held fits
    refine ⟨_, byName.trans (stored _), byPlace.trans (stored _),
      fields_set schema body conforms found fits, rfl, rfl, rfl, ?_⟩
    rw [text?, text?, params?, params?, body]
    exact Parameters.text_set p v slot
  · intro misfit
    rw [store_of_misfit misfit] at byName byPlace
    refine ⟨byName, byPlace, ?_, ?_⟩
    · rw [ParamEdit.step, ParamEdit.attempt, byName]
    · rw [ParamEdit.step, ParamEdit.attempt, byPlace]

/-- A menu with two choices. -/
def sampleChoices : Command :=
  { opcode := .menu, indent := 2, body := .typed
      { fixed := [.str "m", .flag true], tail := [[.str "Yes", .int 1], [.str "No", .int 2]] } }

set_option maxRecDepth 10000 in
/-- The text of the second choice has the place behind two fixed parameters and one choice. -/
theorem access_agrees_sampleChoices :
    sampleChoices.fields[4]? = some ("Text[1]", .str "No") ∧
      sampleChoices.fieldAt? 4 = some (.str "No") ∧
      sampleChoices.field "tEXT[1]" = .ok (.str "No") ∧
      (∃ c, sampleChoices.setField "tEXT[1]" (.str "Never") = .ok c ∧
        sampleChoices.setFieldAt 4 (.str "Never") = .ok c ∧
        c.fields = sampleChoices.fields.set 4 ("Text[1]", .str "Never")) ∧
      sampleChoices.setField "tEXT[1]" (.int 3) = .error (.typeMismatch "tEXT[1]" .str "Int") ∧
      sampleChoices.setFieldAt 4 (.int 3) = .error (.typeMismatch "#4" .str "Int") ∧
      sampleChoices.fieldAt? 6 = none := by
  have conforms : sampleChoices.Conforms := by
    rintro p ⟨⟩
    refine ⟨_, rfl, ?_, ?_, rfl⟩
    · exact .cons rfl (.cons rfl .nil)
    · intro group member
      rcases List.mem_pair.mp member with rfl | rfl
      · exact ⟨_, rfl, .cons rfl (.cons rfl .nil)⟩
      · exact ⟨_, rfl, .cons rfl (.cons rfl .nil)⟩
  have few : sampleChoices.tailLength < Text.positionLimit := by decide
  obtain ⟨_, agree⟩ := access_agrees rfl conforms few 4
  obtain ⟨place, name, kind, asked, store⟩ := agree "Text[1]" (.str "No") rfl
  cases asked
  obtain ⟨c, stored, stored', fields, _⟩ := (store (.str "Never") "tEXT[1]" rfl).1 rfl
  obtain ⟨refused, refused', _⟩ := (store (.int 3) "tEXT[1]" rfl).2 rfl
  exact ⟨rfl, place, name _ rfl, ⟨c, stored, stored', fields⟩, refused, refused',
    (access_agrees rfl conforms few 6).1.mpr (by decide)⟩

end Command

end NovelChart
