import Mathlib.Data.List.Forall2
import NovelChart.Proofs.Frame
import NovelChart.Proofs.Raised

/-!
# Commands conform to their schemas

A schema says of a typed body how many parameters there are and of what kinds, what a group of the
tail is made of, and whether a text block follows. Making a command checks its values against the
schema, and so does every change of a parameter, each with a lookup of its own: by name, by place,
or a whole group at a time. All of them come down to a slot with the field that the schema has for
it, so that one law of slots carries conformance through every edit.

## Main definitions

* `Parameters.Conforms`, `Command.Conforms`: a body, and a command, as its schema has it
* `ParamEdit`, `ParamEdit.step`, `ParamEdit.run`: the edits of a command's parameters, where an edit
  that fails changes nothing
* `Command.Begun`: the commands that editing starts from

## Main results

* `Command.Begun.conforms`: a command that was made, or read, conforms to its schema
* `ParamEdit.conforms_step`: every edit keeps a command conforming
* `Command.Conforms.raises_encode`: a conforming command is refused only for its texts
* `ParamEdit.run_conforms`: all of this along every run of edits
-/

namespace NovelChart

variable {e : Encoding}

/-! ### Values and fields -/

namespace Value

theorem fitsAll_iff {vs : List Value} {kind : Kind} :
    fitsAll vs kind = true ↔ ∀ v ∈ vs, v.fits kind = true := by
  induction vs with
  | nil => simp [fitsAll]
  | cons v vs ih => simp [fitsAll, ih]

/-- What the bytes of a kind stand for fits the kind. -/
theorem Spelled.fits {kind : Kind} {bytes : List UInt8} {v : Value}
    (spelled : Spelled e kind bytes v) : v.fits kind = true := by
  induction kind generalizing bytes v with
  | int =>
    obtain ⟨n, _, rfl⟩ := spelled
    rfl
  | real =>
    obtain ⟨bits, _, rfl⟩ := spelled
    rfl
  | flag =>
    obtain ⟨b, _, rfl⟩ := spelled
    rfl
  | str =>
    obtain ⟨s, _, rfl⟩ := spelled
    rfl
  | array elem ih =>
    obtain ⟨items, body, _, many, _, rfl⟩ := spelled
    refine fitsAll_iff.mpr fun v member => ?_
    obtain ⟨_, spelled⟩ := many.spelled member
    exact ih spelled

theorem raises_encodeItems {elem : Kind} {items : List Value}
    (one : ∀ v ∈ items, ∀ field, Raises Error.OfText (v.encode e elem field)) (field : String)
    (i : Nat) : Raises Error.OfText (encodeItems e items elem field i) := by
  induction items generalizing i with
  | nil => exact .ok _
  | cons v items ih =>
    have rest := ih fun v member => one v (List.mem_cons_of_mem _ member)
    rw [encodeItems]
    exact (one v List.mem_cons_self _).bind fun _ _ => (rest (i + 1)).map _

/-- A value that fits its slot is refused only for the texts in it. -/
theorem raises_encode {kind : Kind} {v : Value} (fits : v.fits kind = true) (field : String) :
    Raises Error.OfText (v.encode e kind field) := by
  induction kind generalizing v field with
  | int =>
    cases v with
    | int n => exact .ok _
    | _ => cases fits
  | real =>
    cases v with
    | real bits => exact .ok _
    | _ => cases fits
  | flag =>
    cases v with
    | flag b => exact .ok _
    | _ => cases fits
  | str =>
    cases v with
    | str s => exact (e.raises_write s).map _
    | _ => cases fits
  | array elem ih =>
    cases v with
    | array items =>
      have items_fit := fitsAll_iff.mp fits
      rw [encode]
      exact (raises_encodeItems (fun v member => ih (items_fit v member)) field 0).map _
    | _ => cases fits

end Value

namespace Field

variable {fields : List Field} {values : List Value}

/-- There is one value of the right kind for each field. -/
def Match (fields : List Field) (values : List Value) : Prop :=
  List.Forall₂ (fun f v => v.fits f.kind = true) fields values

theorem Match.length_eq (fit : Match fields values) : values.length = fields.length :=
  (List.Forall₂.length_eq fit).symm

/-- Values are accepted exactly when they match the fields. -/
theorem accept_eq_ok {opcode : Opcode} :
    accept opcode fields values = .ok () ↔ Match fields values := by
  rw [accept, refuse_eq_ok, Match, List.forall₂_iff_zip]
  refine and_congr (by rw [ne_eq, Decidable.not_not, eq_comm]) ?_
  constructor
  · intro accepted f v member
    split at accepted
    · cases accepted
    · next none => simpa using List.find?_eq_none.mp none (f, v) member
  · intro fit
    split
    · next f v found =>
      have misfit := List.find?_some found
      simp [fit (List.mem_of_find?_eq_some found)] at misfit
    · rfl

theorem Spelled.match {bytes : List UInt8} (spelled : Spelled e fields bytes values) :
    Match fields values := by
  induction spelled with
  | nil => exact .nil
  | cons first _ ih => exact .cons first.fits ih

/-- A value goes where its field stands. -/
theorem Match.set (fit : Match fields values) {i : Nat} {f : Field} {v : Value}
    (found : fields[i]? = some f) (fits : v.fits f.kind = true) :
    Match fields (values.set i v) := by
  induction fit generalizing i with
  | nil => cases found
  | @cons g w fs vs first rest ih =>
    cases i with
    | zero =>
      cases found
      exact .cons fits rest
    | succ i => exact .cons first (ih found)

theorem Match.raises_encodeAll (fit : Match fields values) (label : Field → String) :
    Raises Error.OfText (encodeAll e label fields values) := by
  induction fit with
  | nil => exact .ok _
  | cons fits _ ih =>
    rw [encodeAll]
    exact (Value.raises_encode fits _).bind fun _ _ => ih.map _

end Field

/-! ### Slots -/

/-- What a schema says of a slot. A slot of the tail has the same field in every group. -/
def Schema.fieldOf? (s : Schema) : Slot → Option Field
  | .fixed i => s.fields[i]?
  | .tail _ i => s.tail.bind fun fields => fields[i]?

namespace Schema

variable {s : Schema} {slot : Slot} {f : Field}

/-- A name leads to a slot together with what the schema says of it. -/
theorem fieldOf?_slotNamed? {name : String} (found : s.slotNamed? name = some (slot, f)) :
    s.fieldOf? slot = some f := by
  rw [slotNamed?] at found
  split at found
  · next i _ =>
    obtain ⟨g, inside, same⟩ := Option.map_eq_some_iff.mp found
    cases same
    exact inside
  · simp only [bind, Option.bind_eq_some_iff, pure, Option.some.injEq] at found
    obtain ⟨⟨base, group⟩, _, tail, there, i, _, g, inside, same⟩ := found
    cases same
    rw [fieldOf?, there, Option.bind_some, inside]

/-- So does a place in the list of all parameters. -/
theorem fieldOf?_slotAt? {groups index : Nat} (found : s.slotAt? groups index = some (slot, f)) :
    s.fieldOf? slot = some f := by
  rw [slotAt?] at found
  split at found
  · next g inside =>
    cases found
    exact inside
  · simp only [bind, Option.bind_eq_some_iff] at found
    obtain ⟨tail, there, g, inside, found⟩ := found
    split at found
    · cases found
      rw [fieldOf?, there, Option.bind_some, inside]
    · cases found

end Schema

/-! ### Typed bodies -/

/-- The parameters are what the schema asks for. -/
structure Parameters.Conforms (s : Schema) (p : Parameters) : Prop where
  fixed : Field.Match s.fields p.fixed
  /-- Every group matches the fields of the tail; without these, there is no group. -/
  tail : ∀ group ∈ p.tail, ∃ fields, s.tail = some fields ∧ Field.Match fields group
  text : p.text.isSome = s.carriesText

namespace Parameters

variable {s : Schema} {p : Parameters}

/-- What the bytes of a typed body stand for conforms to the schema. -/
theorem Spelled.conforms {bytes : List UInt8} (spelled : Spelled e s bytes p) : p.Conforms s := by
  obtain ⟨_, text, ⟨fixed, tail, spelled₁, spelled₂, _⟩, spelled₃, _⟩ := spelled
  refine ⟨spelled₁.match, fun group member => ?_, ?_⟩
  · cases there : s.tail with
    | some fields =>
      rw [there] at spelled₂
      obtain ⟨_, body, many, _⟩ := spelled₂
      obtain ⟨_, spelled⟩ := many.spelled member
      exact ⟨fields, rfl, spelled.match⟩
    | none =>
      rw [there] at spelled₂
      rw [spelled₂.2] at member
      cases member
  · cases carries : s.carriesText with
    | true =>
      rw [carries] at spelled₃
      obtain ⟨block, _, found⟩ := spelled₃
      rw [found, Option.isSome_some]
    | false =>
      rw [carries] at spelled₃
      rw [spelled₃.2, Option.isSome_none]

/-- The groups of a tail all match its fields. -/
theorem Conforms.match_of_mem (conforms : p.Conforms s) {fields : List Field}
    (there : s.tail = some fields) : ∀ group ∈ p.tail, Field.Match fields group := by
  intro group member
  obtain ⟨fields', there', fit⟩ := conforms.tail group member
  cases there.symm.trans there'
  exact fit

/-- A value goes into the slot whose field it fits. -/
theorem Conforms.set (conforms : p.Conforms s) {slot : Slot} {f : Field} {v : Value}
    (found : s.fieldOf? slot = some f) (fits : v.fits f.kind = true) :
    (p.set v slot).Conforms s := by
  cases slot with
  | fixed i => exact ⟨conforms.fixed.set found fits, conforms.tail, conforms.text⟩
  | tail place i =>
    refine ⟨conforms.fixed, fun group member => ?_, conforms.text⟩
    obtain ⟨fields, there, inside⟩ := Option.bind_eq_some_iff.mp found
    obtain ⟨j, at_j⟩ := List.mem_iff_getElem?.mp member
    rw [Parameters.set, List.getElem?_modify] at at_j
    obtain ⟨old, at_old, rfl⟩ := Option.map_eq_some_iff.mp at_j
    have fit := conforms.match_of_mem there old (List.mem_of_getElem? at_old)
    refine ⟨fields, there, ?_⟩
    by_cases here : place = j
    · rw [if_pos here]
      exact fit.set inside fits
    · rw [if_neg here]
      exact fit

theorem Conforms.push (conforms : p.Conforms s) {fields : List Field} {values : List Value}
    (there : s.tail = some fields) (fit : Field.Match fields values) :
    Conforms s { p with tail := p.tail ++ [values] } := by
  refine ⟨conforms.fixed, fun group member => ?_, conforms.text⟩
  rcases List.mem_append.mp member with old | new
  · exact conforms.tail group old
  · cases List.mem_singleton.mp new
    exact ⟨fields, there, fit⟩

theorem Conforms.remove (conforms : p.Conforms s) (index : Nat) :
    Conforms s { p with tail := p.tail.eraseIdx index } :=
  ⟨conforms.fixed, fun group member => conforms.tail group (List.mem_of_mem_eraseIdx member),
    conforms.text⟩

theorem Conforms.mapText (conforms : p.Conforms s) (f : TextBlock → TextBlock) :
    Conforms s { p with text := p.text.map f } :=
  ⟨conforms.fixed, conforms.tail, by rw [Option.isSome_map, conforms.text]⟩

/-! ### Writing -/

theorem raises_encodeGroups {opcode : Opcode} {fields : List Field} {groups : List (List Value)}
    (fit : ∀ group ∈ groups, Field.Match fields group) (n : Nat) :
    Raises Error.OfText (encodeGroups e opcode fields n groups) := by
  induction groups generalizing n with
  | nil => exact .ok _
  | cons values groups ih =>
    have first := fit values List.mem_cons_self
    have rest := ih fun group member => fit group (List.mem_cons_of_mem _ member)
    rw [encodeGroups, if_neg (not_not_intro first.length_eq)]
    exact (first.raises_encodeAll _).bind fun _ _ => (rest (n + 1)).map _

theorem Conforms.raises_encodeTail (conforms : p.Conforms s) (opcode : Opcode) :
    Raises Error.OfText (encodeTail e opcode s p.tail) := by
  rw [encodeTail]
  split
  · next fields there =>
    exact (raises_encodeGroups (conforms.match_of_mem there) 0).map _
  · next absent =>
    have empty : p.tail = [] := by
      refine List.eq_nil_iff_forall_not_mem.mpr fun group member => ?_
      obtain ⟨fields, there, _⟩ := conforms.tail group member
      cases there.symm.trans absent
    rw [empty]
    exact .ok _

theorem Conforms.raises_encodeText (conforms : p.Conforms s) (opcode : Opcode) :
    Raises Error.OfText (p.encodeText e opcode s) := by
  have text := conforms.text
  rw [encodeText]
  split
  · exact TextBlock.raises_encode e _
  · next absent carries =>
    rw [absent, carries] at text
    cases text
  · next found carries =>
    rw [found, carries] at text
    cases text
  · exact .ok _

/-- Conforming parameters are refused only for the texts in them. -/
theorem Conforms.raises_encode (conforms : p.Conforms s) (opcode : Opcode) :
    Raises Error.OfText (p.encode e opcode s) := by
  have values : Raises Error.OfText (p.encodeValues e opcode s) := by
    rw [encodeValues, if_neg (not_not_intro conforms.fixed.length_eq)]
    exact (conforms.fixed.raises_encodeAll _).bind fun _ _ =>
      (conforms.raises_encodeTail opcode).map _
  exact values.bind fun _ _ => (conforms.raises_encodeText opcode).map _

end Parameters

/-! ### Commands -/

namespace Command

variable {c c' : Command}

/-- A typed body has a schema, and is what the schema asks for. -/
def Conforms (c : Command) : Prop :=
  ∀ p, c.body = .typed p → ∃ s, c.opcode.schema? = some s ∧ p.Conforms s

/-- A command that editing starts from: one that was made of values, or one that was read. -/
def Begun (c : Command) : Prop :=
  (∃ opcode values, ofParams opcode values = .ok c) ∨
    ∃ r start span behind, decode r start = .ok ((c, span), behind)

theorem conforms_ofParams {opcode : Opcode} {values : List Value}
    (made : ofParams opcode values = .ok c) : c.Conforms := by
  rw [ofParams] at made
  split at made
  · cases made
  · next s schema =>
    simp only [bind_eq_ok, pure_eq_ok] at made
    obtain ⟨_, accepted, rfl⟩ := made
    rintro p ⟨⟩
    refine ⟨s, schema, Field.accept_eq_ok.mp accepted, fun group member => ?_, ?_⟩
    · cases member
    · cases carries : s.carriesText with
      | true => simp
      | false => simp

theorem conforms_decode {r : Reading} {start behind : Cursor} {span : Span}
    (read : decode r start = .ok ((c, span), behind)) : c.Conforms := by
  simp only [decode, bind_eq_ok, pure_eq_ok, decodeBody_eq_ok] at read
  obtain ⟨⟨code, _⟩, _, _, _, _, _, _, _, _, _, body, spelled, same⟩ := read
  cases same
  intro p typed
  rw [BodySpelled] at spelled
  split at spelled
  · next s schema =>
    obtain ⟨params, spelled, rfl⟩ := spelled
    cases typed
    exact ⟨s, schema, spelled.conforms⟩
  · rw [spelled] at typed
    cases typed

theorem Begun.conforms (begun : c.Begun) : c.Conforms := by
  rcases begun with ⟨opcode, values, made⟩ | ⟨r, start, span, behind, read⟩
  · exact conforms_ofParams made
  · exact conforms_decode read

/-- Other parameters that conform leave the command conforming. -/
theorem Conforms.withParams {s : Schema} {p : Parameters} (schema : c.opcode.schema? = some s)
    (conforms : p.Conforms s) : Conforms { c with body := .typed p } := by
  rintro _ ⟨⟩
  exact ⟨s, schema, conforms⟩

theorem Conforms.params {s : Schema} {p : Parameters} (conforms : c.Conforms)
    (schema : c.opcode.schema? = some s) (typed : c.body = .typed p) : p.Conforms s := by
  obtain ⟨s', schema', conforms⟩ := conforms p typed
  cases schema.symm.trans schema'
  exact conforms

theorem Conforms.store {s : Schema} {slot : Slot} {f : Field} {label : String} {v : Value}
    (conforms : c.Conforms) (schema : c.opcode.schema? = some s)
    (found : s.fieldOf? slot = some f) (stored : c.store slot f label v = .ok c') :
    c'.Conforms := by
  obtain ⟨fits, s', p, schema', typed, _, rfl⟩ := store_eq_ok.mp stored
  cases schema.symm.trans schema'
  exact .withParams schema ((conforms.params schema typed).set found fits)

theorem Conforms.setField {name : String} {v : Value} (conforms : c.Conforms)
    (stored : c.setField name v = .ok c') : c'.Conforms := by
  rw [Command.setField] at stored
  split at stored
  · cases stored
  · next s schema =>
    split at stored
    · cases stored
    · next slot f found =>
      exact conforms.store schema (Schema.fieldOf?_slotNamed? found) stored

theorem Conforms.setFieldAt {index : Nat} {v : Value} (conforms : c.Conforms)
    (stored : c.setFieldAt index v = .ok c') : c'.Conforms := by
  simp only [Command.setFieldAt, bind_eq_ok, Prod.exists, typed_eq_ok] at stored
  obtain ⟨s, p, ⟨schema, _⟩, stored⟩ := stored
  split at stored
  · cases stored
  · next slot f found =>
    exact conforms.store schema (Schema.fieldOf?_slotAt? found) stored

theorem Conforms.pushGroup {values : List Value} (conforms : c.Conforms)
    (pushed : c.pushGroup values = .ok c') : c'.Conforms := by
  simp only [Command.pushGroup, bind_eq_ok, Prod.exists, typed_eq_ok] at pushed
  obtain ⟨s, p, ⟨schema, typed⟩, pushed⟩ := pushed
  split at pushed
  · cases pushed
  · next fields there =>
    simp only [bind_eq_ok, pure_eq_ok] at pushed
    obtain ⟨_, accepted, rfl⟩ := pushed
    have fit := Field.accept_eq_ok.mp accepted
    exact .withParams schema ((conforms.params schema typed).push there fit)

theorem Conforms.removeGroup {index : Nat} {values : List Value} (conforms : c.Conforms)
    (removed : c.removeGroup index = .ok (values, c')) : c'.Conforms := by
  simp only [Command.removeGroup, bind_eq_ok, Prod.exists, typed_eq_ok] at removed
  obtain ⟨s, p, ⟨schema, typed⟩, removed⟩ := removed
  split at removed
  · cases removed
  · cases removed
    exact .withParams schema ((conforms.params schema typed).remove index)

theorem Conforms.mapText (conforms : c.Conforms) (f : TextBlock → TextBlock) :
    (c.mapText f).Conforms := by
  obtain ⟨opcode, indent, flags, body⟩ := c
  cases body with
  | typed p =>
    obtain ⟨s, schema, conforms⟩ := conforms p rfl
    exact .withParams (c := ⟨opcode, indent, flags, .typed p⟩) schema (conforms.mapText f)
  | raw bytes => exact conforms

/-- A conforming command is refused only for the texts in it. -/
theorem Conforms.raises_encode (conforms : c.Conforms) :
    Raises Error.OfText (c.encode e) := by
  refine Raises.map ?_ _
  rw [encodeBody]
  split
  · exact .ok _
  · next p s typed schema => exact (conforms.params schema typed).raises_encode _
  · next p typed absent =>
    obtain ⟨s, schema, _⟩ := conforms p typed
    cases schema.symm.trans absent

/-- Where the count of the groups stands in the record of a command with a tail: behind the fixed
part of the record and the fixed parameters. -/
theorem encode_tail {s : Schema} {p : Parameters} {fields : List Field} {bytes : List UInt8}
    (schema : c.opcode.schema? = some s) (typed : c.body = .typed p)
    (there : s.tail = some fields) (written : c.encode e = .ok bytes) :
    ∃ opening fixed behind, opening.length = minSize ∧
      Field.encodeAll e Field.name s.fields p.fixed = .ok fixed ∧
      bytes = opening ++ fixed ++ Bytes.count p.tail.length ++ behind := by
  simp only [encode, encodeBody, typed, schema, Parameters.encode, Parameters.encodeValues,
    Parameters.encodeTail, there, refuse_eq_ok, bind_eq_ok, pure_eq_ok] at written
  obtain ⟨_, ⟨_, ⟨_, fixed, written₁, _, ⟨groups, _, rfl⟩, rfl⟩, text, _, rfl⟩, rfl⟩ := written
  let body := fixed ++ (Bytes.count p.tail.length ++ groups) ++ text
  refine ⟨c.opcode.code :: (Bytes.u32 c.indent ++ c.flags :: Bytes.count body.length), fixed,
    groups ++ text, ?_, written₁, ?_⟩
  · simp [minSize]
  · simp [Bytes.counted, body]

end Command

/-! ### Edits -/

/-- An edit of a command's parameters. -/
inductive ParamEdit
  | setField (name : String) (v : Value)
  | setFieldAt (index : Nat) (v : Value)
  | pushGroup (values : List Value)
  | removeGroup (index : Nat)
  /-- Puts another text block in the place of the one that is there. -/
  | setText (block : TextBlock)

namespace ParamEdit

/-- What an edit makes of a command, unless it fails. -/
def attempt (c : Command) : ParamEdit → Except Error Command
  | setField name v => c.setField name v
  | setFieldAt index v => c.setFieldAt index v
  | pushGroup values => c.pushGroup values
  | removeGroup index => do
    let (_, c) ← c.removeGroup index
    return c
  | setText block => .ok (c.mapText fun _ => block)

/-- The command after an edit; one that fails changes nothing. -/
def step (c : Command) (edit : ParamEdit) : Command :=
  match edit.attempt c with
  | .ok c => c
  | .error _ => c

/-- The command after a run of edits. -/
def run (edits : List ParamEdit) (c : Command) : Command :=
  edits.foldl step c

variable {c c' : Command}

theorem conforms_attempt {edit : ParamEdit} (conforms : c.Conforms)
    (edited : edit.attempt c = .ok c') : c'.Conforms := by
  cases edit with
  | setField name v => exact conforms.setField edited
  | setFieldAt index v => exact conforms.setFieldAt edited
  | pushGroup values => exact conforms.pushGroup edited
  | removeGroup index =>
    simp only [attempt, bind_eq_ok, pure_eq_ok, Prod.exists] at edited
    obtain ⟨values, _, removed, rfl⟩ := edited
    exact conforms.removeGroup removed
  | setText block =>
    cases edited
    exact conforms.mapText _

/-- Every edit keeps a command conforming, whether or not it succeeds. -/
theorem conforms_step (conforms : c.Conforms) (edit : ParamEdit) : (edit.step c).Conforms := by
  rw [step]
  split
  · next edited => exact conforms_attempt conforms edited
  · exact conforms

theorem conforms_run (conforms : c.Conforms) (edits : List ParamEdit) :
    (run edits c).Conforms := by
  induction edits generalizing c with
  | nil => exact conforms
  | cons edit edits ih => exact ih (conforms_step conforms edit)

/-- A command keeps to its schema along every run of edits, from one that was made of values or one
that was read. It is therefore never refused for its schema or for the kind of a parameter, and
the count of groups that is written is the number of its groups, as long as a signed word can hold
it. -/
theorem run_conforms {start : Command} {edits : List ParamEdit} (begun : start.Begun)
    (reached : run edits start = c) :
    c.Conforms ∧
      (∀ e opcode fault, c.encode e ≠ .error (.schema opcode fault)) ∧
      (∀ e field kind found, c.encode e ≠ .error (.typeMismatch field kind found)) ∧
      ∀ e bytes s p fields, c.opcode.schema? = some s → c.body = .typed p →
        s.tail = some fields → c.encode e = .ok bytes →
        ∃ opening fixed count behind, opening.length = Command.minSize ∧
          Field.encodeAll e Field.name s.fields p.fixed = .ok fixed ∧
          bytes = opening ++ fixed ++ Bytes.i32 count ++ behind ∧
          (c.tailLength < 2 ^ 31 → count.toInt = c.tailLength) := by
  have conforms : c.Conforms := reached ▸ conforms_run begun.conforms edits
  refine ⟨conforms, ?_, ?_, ?_⟩
  · intro e opcode fault failed
    cases conforms.raises_encode _ failed
  · intro e field kind found failed
    cases conforms.raises_encode _ failed
  · intro e bytes s p fields schema typed there written
    obtain ⟨opening, fixed, behind, length, fixed_eq, rfl⟩ :=
      Command.encode_tail schema typed there written
    have groups : c.tailLength = p.tail.length := by
      simp only [Command.tailLength, Command.params?, typed]
    refine ⟨opening, fixed, Int32.ofNat p.tail.length, behind, length, fixed_eq, rfl, ?_⟩
    intro few
    rw [groups] at few ⊢
    exact Int32.toInt_ofNat_of_lt few

/-- A menu without choices. -/
def sampleMenu : Command :=
  { opcode := .menu, body := .typed { fixed := [.str "m", .flag true] } }

/-- A run that finds the same group by name and by place, and holds a group of the wrong kinds, a
name of a group that is not there, and a text block for a command that has none. -/
def sampleRun : List ParamEdit :=
  [.pushGroup [.int 1, .str "Yes"], .pushGroup [.str "Yes", .int 1], .setText {},
    .setField "text[0]" (.str "No"), .setField "jump[1]" (.int 2), .pushGroup [.str "", .int 0],
    .setFieldAt 3 (.int 7), .removeGroup 1]

set_option maxRecDepth 10000 in
/-- The run leaves one choice, and what is written counts one. -/
theorem run_conforms_sampleRun :
    Command.ofParams .menu [.str "m", .flag true] = .ok sampleMenu ∧
      run sampleRun sampleMenu = { sampleMenu with
        body := .typed { fixed := [.str "m", .flag true], tail := [[.str "No", .int 7]] } } ∧
      (run sampleRun sampleMenu).Conforms ∧
      ∃ bytes opening count behind, (run sampleRun sampleMenu).encode .cp932 = .ok bytes ∧
        opening.length = 16 ∧ bytes = opening ++ Bytes.i32 count ++ behind ∧ count.toInt = 1 := by
  have begun : sampleMenu.Begun := .inl ⟨.menu, [.str "m", .flag true], rfl⟩
  obtain ⟨conforms, _, _, counted⟩ :=
    run_conforms begun (rfl : run sampleRun sampleMenu = run sampleRun sampleMenu)
  obtain ⟨bytes, written⟩ : ∃ bytes, (run sampleRun sampleMenu).encode .cp932 = .ok bytes :=
    ⟨_, rfl⟩
  obtain ⟨opening, fixed, count, behind, length, first, rfl, value⟩ :=
    counted .cp932 bytes _ _ _ rfl rfl rfl written
  cases first
  refine ⟨rfl, rfl, conforms, _, _, count, behind, written, ?_, rfl, value (by decide)⟩
  rw [List.length_append, length]
  rfl

end ParamEdit

end NovelChart
