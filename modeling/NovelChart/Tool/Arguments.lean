import NovelChart.Tool.Usage

/-!
Reading a command line. Words are taken one at a time. A value is checked when the next switch or
the next place begins, or at the end, so a word that is not known is reported before a bad value
in front of it. Switches that stand in front of a job and behind it are counted apart; where both
give a value the one behind the job wins.
-/

namespace NovelChart

/-- A word of the command line. -/
inductive Word
  /-- Two dashes alone: the words behind it are values. -/
  | mark
  /-- A switch by its name, with the value that an equals sign joins to it. -/
  | name (text : String) (value : Option String)
  /-- Switches by their letters. -/
  | letters (cs : List Char)
  /-- Any other word. -/
  | plain (text : String)
  deriving DecidableEq, Repr

/-- The part behind the first equals sign. -/
def Word.valueOf? (cs : List Char) : Option String :=
  match cs.dropWhile (· ≠ '=') with
  | [] => none
  | _ :: value => some (String.ofList value)

/-- The word that a text is. A dash alone is a plain word. -/
def Word.ofText (text : String) : Word :=
  match text.toList with
  | ['-', '-'] => .mark
  | '-' :: '-' :: cs => .name (String.ofList (cs.takeWhile (· ≠ '='))) (valueOf? cs)
  | '-' :: c :: cs => .letters (c :: cs)
  | _ => .plain text

/-- The values that were given and are good. -/
structure Given where
  switches : List (Switch × Option Argument) := []
  placed : List Argument := []
  deriving Repr

namespace Given

/-- Whether a switch was given. -/
def has (g : Given) (s : Switch) : Bool :=
  g.switches.any (·.1 = s)

/-- The value that a switch was given with. -/
def value? (g : Given) (s : Switch) : Option Argument :=
  (g.switches.find? (·.1 = s)).bind (·.2)

/-- The path that a switch was given with. -/
def path? (g : Given) (s : Switch) : Option String :=
  match g.value? s with
  | some (.path name) => some name
  | _ => none

/-- The encoding that a switch was given with. -/
def encoding? (g : Given) (s : Switch) : Option Encoding :=
  match g.value? s with
  | some (.encoding e) => some e
  | _ => none

/-- The encoding of scripts. -/
def scripts (g : Given) : Encoding :=
  (g.encoding? .scriptEncoding).getD .utf8

/-- The paths that stand in places. -/
def paths (g : Given) : List String :=
  g.placed.filterMap fun
    | .path name => some name
    | _ => none

/-- Takes a switch. A value that is missing is reported before a switch that is repeated, and that
before a value that is bad. -/
def take (g : Given) (s : Switch) (text : Option String) : Except UsageFault Given :=
  match s, s.form?, text with
  | .help, _, _ => .error .helpAsked
  | .version, _, _ => .error .versionAsked
  | _, some _, none => .error .missingValue
  | _, form?, text =>
    if g.has s then .error .repeatedSwitch
    else do
      let value ← match form?, text with
        | some form, some text => some <$> form.read text
        | _, _ => pure none
      return { g with switches := g.switches ++ [(s, value)] }

/-- The job that the values make, unless one is missing. -/
def job? (g : Given) : JobName → Option Job
  | .info =>
    match g.placed with
    | [.path input] => some (.info input)
    | _ => none
  | .validate => if g.paths.isEmpty then none else some (.validate g.paths)
  | .dump =>
    match g.placed, g.path? .output with
    | [.path input], some output => some (.dump input output (g.has .textOnly))
    | _, _ => none
  | .extract =>
    if g.paths.isEmpty then none else some (.extract g.paths (g.path? .outputDir) g.scripts)
  | .insert =>
    match g.placed with
    | [.path input, .path script, .position line] =>
      some (.insert input script line g.scripts (!g.has .noBackup))
    | _ => none
  | .batchInsert =>
    match g.placed with
    | [.path input, .path dir] =>
      some (.batchInsert input dir g.scripts (!g.has .noBackup) (g.has .ignoreMissing))
    | _ => none
  | .extractSheet =>
    match g.placed, g.path? .output with
    | [.path input], some output => some (.extractSheet input output)
    | _, _ => none
  | .insertSheet =>
    match g.placed with
    | [.path input, .path sheet] => some (.insertSheet input sheet (!g.has .noBackup))
    | _ => none

end Given

/-- Values that are not checked yet, and what they are for. -/
inductive Pending
  | nothing
  /-- A switch, with its value once that was seen. -/
  | switch (s : Switch) (text : Option String)
  /-- The values that stand in a place. -/
  | place (index : Nat) (form : ArgumentForm) (texts : List String)
  deriving Repr

/-- What was seen of a command line. -/
structure Walk where
  given : Given := {}
  pending : Pending := .nothing
  /-- The number of values that stood in places. -/
  count : Nat := 0
  /-- Whether the mark was seen, so that every word is a value. -/
  literal : Bool := false
  deriving Repr

namespace Walk

/-- Whether the next plain word is the value of a switch. -/
def awaits (w : Walk) : Option Switch :=
  match w.pending with
  | .switch s none => if w.literal then none else some s
  | _ => none

/-- Checks what is pending. -/
def settle (w : Walk) : Except UsageFault Walk :=
  match w.pending with
  | .nothing => .ok w
  | .switch s text => do
    return { w with given := ← w.given.take s text, pending := .nothing }
  | .place _ form texts => do
    let values ← texts.mapM form.read
    let given := { w.given with placed := w.given.placed ++ values }
    return { w with given := given, pending := .nothing }

/-- Takes a switch with the value that is joined to it. -/
def switch (w : Walk) (s : Switch) (joined : Option String) : Except UsageFault Walk :=
  match s.form?, joined with
  | none, some _ => .error .unwantedValue
  | some _, none => do return { ← w.settle with pending := .switch s none }
  | _, joined => do
    let w ← w.settle
    return { w with given := ← w.given.take s joined }

/-- Takes switches by their letters. The letters behind a switch that takes a value are its value,
with or without an equals sign in front. -/
def letters (u : Usage) (w : Walk) : List Char → Except UsageFault Walk
  | [] => .ok w
  | c :: cs =>
    match u.ofLetter? c with
    | none => .error .unknownArgument
    | some s =>
      if s.form?.isNone then do letters u (← w.switch s none) cs
      else
        match cs with
        | [] => w.switch s none
        | '=' :: value => w.switch s (some (String.ofList value))
        | value => w.switch s (some (String.ofList value))

/-- Takes a plain word: the value of a switch, or a value for the next place. -/
def value (u : Usage) (w : Walk) (text : String) : Except UsageFault Walk :=
  match w.awaits with
  | some s => .ok { w with pending := .switch s (some text) }
  | none =>
    let index := u.placeAt w.count
    match u.places[index]?, w.pending with
    | none, _ => .error .unknownArgument
    | some form, .place i _ texts =>
      -- Only a place that repeats is met twice: its values are checked together.
      if i = index then
        .ok { w with pending := .place i form (texts ++ [text]), count := w.count + 1 }
      else do
        return { ← w.settle with pending := .place index form [text], count := w.count + 1 }
    | some form, _ => do
      return { ← w.settle with pending := .place index form [text], count := w.count + 1 }

/-- Takes a word. -/
def step (u : Usage) (w : Walk) (text : String) : Except UsageFault Walk :=
  if w.literal then w.value u text
  else
    match Word.ofText text with
    | .mark => .ok { w with literal := true }
    | .name name joined =>
      match u.ofName? name with
      | some s => w.switch s joined
      | none => .error .unknownArgument
    | .letters cs => w.letters u cs
    | .plain text => w.value u text

end Walk

/-- A word that stands where a job has to stand. -/
inductive Verb
  | help
  | job (name : JobName)
  deriving DecidableEq, Repr

/-- What a word in the place of a job stands for. -/
def Verb.ofWord? (s : String) : Option Verb :=
  if s = "help" then some .help else (JobName.ofWord? s).map .job

namespace Request

/-- The answer to a question for help on some words: help is there on each job alone. -/
def helpOn : List String → UsageFault
  | [] => .helpAsked
  | [word] => if (Verb.ofWord? word).isSome then .helpAsked else .unknownJob
  | _ => .unknownJob

/-- The job of some words behind its name, with the values behind it. -/
def jobOf (name : JobName) (words : List String) : Except UsageFault (Given × Job) := do
  let w ← words.foldlM (Walk.step name.usage) {}
  let w ← w.settle
  match w.given.job? name with
  | some job => return (w.given, job)
  | none => throw .missingArgument

/-- The request of a job, with the values in front of it and behind it. -/
def ofGiven (outer inner : Given) (job : Job) : Request where
  settings := inner.path? .settings <|> outer.path? .settings
  encoding := inner.encoding? .encoding <|> outer.encoding? .encoding
  job := job

/-- The fault of a word that no switch awaits where a job has to stand. -/
def strayWord (w : Walk) (text : String) : UsageFault :=
  if w.literal && (Verb.ofWord? text).isSome then .unknownArgument else .unknownJob

/-- Whether a word is a value, or would have to name a job. -/
def isPlain (w : Walk) (text : String) : Bool :=
  w.literal || Word.ofText text = .plain text

/-- The request of the words that follow some others in front of the job. -/
def ofWordsFrom (w : Walk) : List String → Except UsageFault Request
  | [] => do
    let w ← w.settle
    throw (if w.given.switches.isEmpty then .nothingAsked else .missingJob)
  | text :: words =>
    if isPlain w text && w.awaits.isNone then
      match Verb.ofWord? text, w.literal with
      | some .help, false => .error (helpOn words)
      | some (.job name), false => do
        -- Faults behind the job come before a bad value in front of it.
        let (inner, job) ← jobOf name words
        let w ← w.settle
        return ofGiven w.given inner job
      | _, _ => .error (strayWord w text)
    else do ofWordsFrom (← w.step .front text) words

/-- The request of a command line. -/
def ofWords (words : List String) : Except UsageFault Request :=
  ofWordsFrom {} words

end Request

end NovelChart
