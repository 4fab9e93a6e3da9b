import NovelChart.Proofs.Filling
import NovelChart.Proofs.ScriptFiles

/-!
# What extracting leaves behind

Extracting gives each scenario a file and lists the files in an index. A scenario goes by its name,
or by its line if its name is taken; whether the line is taken is not asked again. So a scenario
that is called like the line of a later one takes the file which that one falls back to, and its
script is overwritten. This is the only way to lose a script: all other files differ, lie beside one
another and beside the index, and hold what was written to them.

The index has a line for each file and protects nothing that stands in it. A name loses the
characters that the names of files may not hold, but line feeds are not among them, and one of them
tears its line apart. Without line feeds the index leads back to what it was made of.

## Main definitions

* `Scripts.Listed`: scenarios with references that were chosen one after another
* `Scripts.Usurps`: a scenario is called like the line by which a later one goes

## Main results

* `Scripts.Listed.nodup_iff`: the files differ unless one scenario usurps the file of another
* `Scripts.extract_distinct`: then each file holds the script of the scenario on its line
* `Scripts.extract_overwritten`: a script that is overwritten
* `Scripts.extract_index`: when the index leads back to the references
* `Scripts.extract_torn`: an index that does not
-/

namespace NovelChart

open NovelChart.Action

/-! ### Lists -/

/-- A relation holds between all elements of a list if it holds between each of them and those in
front of it. -/
theorem pairwise_of_cut {α : Type} {R : α → α → Prop} {l : List α}
    (holds : ∀ front x back, l = front ++ x :: back → ∀ y ∈ front, R y x) : l.Pairwise R := by
  induction l using List.reverseRecOn with
  | nil => exact .nil
  | append_singleton l x ih =>
    refine List.pairwise_append.mpr ⟨ih fun front y back cut => ?_, List.pairwise_singleton R x, ?_⟩
    · exact holds front y (back ++ [x]) (by rw [cut, List.append_assoc, List.cons_append])
    · simpa using holds l x [] rfl

/-- A list of results is made of one result for each element. -/
theorem mapM_eq_ok {ε α β : Type} {f : α → Except ε β} {xs : List α} {ys : List β} :
    xs.mapM f = .ok ys ↔ List.Forall₂ (fun x y => f x = .ok y) xs ys := by
  induction xs generalizing ys with
  | nil => rw [List.mapM_nil, pure_eq_ok, List.forall₂_nil_left_iff, eq_comm]
  | cons x xs ih =>
    simp only [List.mapM_cons, bind_eq_ok, pure_eq_ok, List.forall₂_cons_left_iff, ih]
    constructor
    · rintro ⟨y, first, ys, rest, rfl⟩
      exact ⟨y, ys, first, rest, rfl⟩
    · rintro ⟨y, ys, first, rest, rfl⟩
      exact ⟨y, first, ys, rest, rfl⟩

namespace Scripts

variable {stem : String}

/-! ### Files that differ -/

theorem labelled_inj {label label' : String} :
    labelled stem label = labelled stem label' ↔ label = label' := by
  simp only [labelled, String.append_left_inj, String.append_right_inj]

theorem lineFile_inj {line line' : Nat} :
    lineFile stem line = lineFile stem line' ↔ line = line' := by
  rw [lineFile_eq, lineFile_eq, labelled_inj, String.append_right_inj]
  exact ⟨fun same => Text.toString_injective (congrArg String.toList same), congrArg _⟩

/-- Scenarios with their references, each of which was chosen when those before it were taken. -/
def Listed (stem : String) (pairs : List (Scenario × Reference)) : Prop :=
  ∀ front pair back, pairs = front ++ pair :: back →
    pair.2 = ⟨scenarioFile stem (front.map Prod.snd) pair.1, pair.1.line⟩

/-- The scenarios of a chart are listed with its references. -/
theorem listed_references (stem : String) (chart : Chart) :
    ∃ pairs, pairs.map Prod.fst = chart.scenarios ∧ pairs.map Prod.snd = references stem chart ∧
      Listed stem pairs := by
  obtain ⟨pairs, scenarios, refs, chosen⟩ := exists_pairs stem [] chart.scenarios
  exact ⟨pairs, scenarios, refs.symm, chosen⟩

/-- A scenario is called like the line by which a later one goes. -/
def Usurps (stem : String) (earlier later : Scenario × Reference) : Prop :=
  later.2.file = lineFile stem later.1.line ∧
    earlier.1.name.map Reference.escapeName = some ("line" ++ toString later.1.line)

variable {pairs : List (Scenario × Reference)} {pair : Scenario × Reference}

theorem Listed.front {front back : List (Scenario × Reference)}
    (listed : Listed stem (front ++ back)) : Listed stem front := by
  intro before pair behind cut
  refine listed before pair (behind ++ back) ?_
  rw [cut, List.append_assoc, List.cons_append]

theorem Listed.chosen (listed : Listed stem pairs) (member : pair ∈ pairs) :
    ∃ front ⊆ pairs, pair.2 = ⟨scenarioFile stem (front.map Prod.snd) pair.1, pair.1.line⟩ := by
  obtain ⟨front, back, cut⟩ := List.append_of_mem member
  exact ⟨front, cut ▸ List.subset_append_left front _, listed front pair back cut⟩

/-- A scenario that is called like a line takes the file of the line, unless one before it did. -/
theorem Listed.exists_lineFile (listed : Listed stem pairs) (member : pair ∈ pairs) {line : Nat}
    (called : pair.1.name.map Reference.escapeName = some ("line" ++ toString line)) :
    ∃ first ∈ pairs, first.2.file = lineFile stem line := by
  obtain ⟨name, named, escaped⟩ := Option.map_eq_some_iff.mp called
  obtain ⟨front, before, chosen⟩ := listed.chosen member
  obtain ⟨name', named', file, _⟩ | ⟨_, taken⟩ :=
    scenarioFile_cases stem (front.map Prod.snd) pair.1
  · cases named.symm.trans named'
    refine ⟨pair, member, ?_⟩
    rw [chosen, file, escaped, lineFile_eq]
  · obtain rfl | ⟨r, inside, file⟩ := taken name named
    · -- The empty name is not that of a line.
      have filled := congrArg String.toList escaped
      simp [Reference.escapeName, Reference.escapeFrom] at filled
    · obtain ⟨first, early, rfl⟩ := List.mem_map.mp inside
      refine ⟨first, before early, ?_⟩
      rw [file, escaped, lineFile_eq]

/-- The files differ unless one scenario usurps the file of another. -/
theorem Listed.nodup_iff (listed : Listed stem pairs)
    (lines : pairs.Pairwise fun p q => p.1.line ≠ q.1.line) :
    (pairs.map fun pair => pair.2.file).Nodup ↔
      pairs.Pairwise fun earlier later => ¬Usurps stem earlier later := by
  rw [List.Nodup, List.pairwise_map]
  constructor
  · intro distinct
    refine pairwise_of_cut fun front later back cut earlier member => ?_
    rintro ⟨byLine, called⟩
    -- Some file before the later one is already that of its line.
    have fresh : ∀ pair ∈ front, pair.2.file ≠ later.2.file := by
      rw [cut, List.pairwise_append] at distinct
      exact fun pair before => distinct.2.2 pair before later List.mem_cons_self
    obtain ⟨first, before, same⟩ := (cut ▸ listed).front.exists_lineFile member called
    exact fresh first before (same.trans byLine.symm)
  · intro free
    refine pairwise_of_cut fun front later back cut earlier member same => ?_
    have chosen := listed front later back cut
    obtain ⟨name, _, file, fresh⟩ | ⟨file, _⟩ :=
      scenarioFile_cases stem (front.map Prod.snd) later.1
    · -- A name that is taken is not given again.
      refine fresh earlier.2 (List.mem_map_of_mem member) ?_
      rw [same, chosen, file]
    · -- The later one goes by its line; the earlier one can have this file only by its name, since
      -- no two scenarios are on one line.
      have byLine : later.2.file = lineFile stem later.1.line := by
        rw [chosen, file]
      rw [cut, List.pairwise_append] at lines free
      obtain ⟨front', _, chosen'⟩ := (cut ▸ listed).front.chosen member
      obtain ⟨name, named, file', _⟩ | ⟨file', _⟩ :=
        scenarioFile_cases stem (front'.map Prod.snd) earlier.1
      · refine free.2.2 earlier member later List.mem_cons_self ⟨byLine, ?_⟩
        rw [byLine, chosen', file', lineFile_eq, labelled_inj] at same
        rw [named, Option.map_some, same]
      · rw [byLine, chosen', file', lineFile_inj] at same
        exact lines.2.2 earlier member later List.mem_cons_self same

/-! ### Scripts in their files -/

theorem Listed.exists_label (listed : Listed stem pairs) (member : pair ∈ pairs) :
    ∃ label, '/' ∉ label.toList ∧ pair.2.file = labelled stem label := by
  obtain ⟨front, _, chosen⟩ := listed.chosen member
  rw [chosen]
  exact exists_labelled stem _ pair.1

/-- What stands behind the stem in the file of a label is a name. -/
theorem exists_behind_stem (stem : String) {label : String} (plain : '/' ∉ label.toList) :
    ∃ rest, labelled stem label = stem ++ rest ∧ '/' ∉ rest.toList ∧ 3 ≤ rest.toList.length := by
  refine ⟨"-" ++ label ++ ".lns", ?_, ?_, ?_⟩
  · simp only [labelled, String.append_assoc]
  · simpa [not_or] using plain
  · simp

/-- The files of different labels are beside one another. -/
theorem beside_labelled {label label' : String} (dir : String) (plain : '/' ∉ label.toList)
    (plain' : '/' ∉ label'.toList) (differ : labelled stem label ≠ labelled stem label') :
    Path.Beside (Path.join dir (labelled stem label)) (Path.join dir (labelled stem label')) := by
  obtain ⟨rest, same, flat, long⟩ := exists_behind_stem stem plain
  obtain ⟨rest', same', flat', long'⟩ := exists_behind_stem stem plain'
  rw [same, same', ne_eq, String.append_right_inj] at differ
  rw [same, same']
  exact Path.beside_append dir stem flat flat' long long' differ

/-- The index is beside the file of each label. -/
theorem beside_index {label : String} (dir stem : String) (plain : '/' ∉ label.toList) :
    Path.Beside (Path.join dir (labelled stem label)) (Reference.indexPath dir stem) := by
  have differ : labelled stem label ≠ stem ++ ".lsbref" := script_ne_index _ stem
  obtain ⟨rest, same, flat, long⟩ := exists_behind_stem stem plain
  rw [same, ne_eq, String.append_right_inj] at differ
  rw [same]
  exact Path.beside_append dir stem flat (by decide) long (by decide) differ

/-- Files that differ are beside one another. -/
theorem Listed.pairwise_beside (listed : Listed stem pairs) (dir : String)
    (distinct : (pairs.map fun pair => pair.2.file).Nodup) :
    pairs.Pairwise fun p q => Path.Beside (Path.join dir p.2.file) (Path.join dir q.2.file) := by
  refine (List.pairwise_map.mp distinct).imp_of_mem fun {p q} before behind differ => ?_
  obtain ⟨label, plain, file⟩ := listed.exists_label before
  obtain ⟨label', plain', file'⟩ := listed.exists_label behind
  rw [file, file'] at differ ⊢
  exact beside_labelled dir plain plain' differ

end Scripts

/-- The scenarios of a chart stand on different lines. -/
theorem Chart.pairwise_scenarios (chart : Chart) :
    chart.scenarios.Pairwise fun s t => s.line ≠ t.line := by
  refine List.Pairwise.filterMap _ ?_ (pairwise_zipIdx chart.commands 0)
  rintro ⟨command, line⟩ ⟨command', line'⟩ below s made s' made'
  obtain ⟨_, _, rfl⟩ := Option.map_eq_some_iff.mp made
  obtain ⟨_, _, rfl⟩ := Option.map_eq_some_iff.mp made'
  exact Nat.ne_of_lt below

namespace Scripts

variable {chart : Chart} {dir : String} {textOnly : Bool} {e : Encoding} {w w' : World}
  {refs : List Reference}

/-- Extracting writes the scripts and then the index. -/
theorem extract_yields (ran : (extract chart stem dir textOnly e).Yields w refs w') :
    refs = references stem chart ∧ ∃ w₁ w₂,
      (writeScripts dir textOnly e (chart.scenarios.zip refs)).Yields w₁ () w₂ ∧
      (Store.writeText (Reference.indexPath dir stem) (Reference.indexText refs) e).Yields w₂ ()
        w' := by
  rw [extract] at ran
  obtain ⟨_, w₁, _, writing⟩ := yields_bind.mp ran
  obtain ⟨_, w₂, scripts, indexing⟩ := yields_bind.mp writing
  obtain ⟨_, w₃, indexed, last⟩ := yields_bind.mp indexing
  obtain ⟨rfl, rfl⟩ := yields_pure.mp last
  exact ⟨rfl, w₁, w₂, scripts, indexed⟩

/-- The extracted files differ unless one scenario usurps the file of another; and if they differ,
each of them holds the script of the scenario on its line. -/
theorem extract_distinct (ran : (extract chart stem dir textOnly e).Yields w refs w') :
    ((refs.map Reference.file).Nodup ↔
      (chart.scenarios.zip refs).Pairwise fun earlier later => ¬Usurps stem earlier later) ∧
    ((refs.map Reference.file).Nodup → List.Forall₂ (fun s r =>
      r.line = s.line ∧ Holds w'.files dir textOnly e s r) chart.scenarios refs) := by
  obtain ⟨rfl, w₁, w₂, scripts, indexed⟩ := extract_yields ran
  -- Scenarios and references are both read off the pairs.
  obtain ⟨pairs, scenarios, refs, listed⟩ := listed_references stem chart
  have lines : pairs.Pairwise fun p q => p.1.line ≠ q.1.line := by
    have below := chart.pairwise_scenarios
    rwa [← scenarios, List.pairwise_map] at below
  have zipped : chart.scenarios.zip (references stem chart) = pairs :=
    (List.zip_of_prod scenarios refs).symm
  rw [zipped] at scripts ⊢
  rw [← scenarios, ← refs, List.map_map]
  refine ⟨listed.nodup_iff lines, fun distinct => ?_⟩
  obtain ⟨held, _⟩ := writeScripts_holds (listed.pairwise_beside dir distinct) scripts
  obtain ⟨_, files, _, written, rfl⟩ := Store.writeText_yields.mp indexed
  rw [List.forall₂_map_left_iff, List.forall₂_map_right_iff, List.forall₂_same]
  intro pair member
  obtain ⟨front, _, chosen⟩ := listed.chosen member
  refine ⟨congrArg Reference.line chosen, ?_⟩
  -- The index is written last, and beside the scripts.
  obtain ⟨bytes, readable, encoded⟩ := held pair member
  obtain ⟨label, plain, file⟩ := listed.exists_label member
  have beside := beside_index dir stem plain
  rw [← file] at beside
  exact ⟨bytes, FileTree.read_of_beside beside readable written, encoded⟩

/-- A chart with a text two lines below a label, and another text below it. -/
def sampleNamed (name : String) : Chart where
  header := ⟨117, 0, none⟩
  encoding := .utf8
  commands := [
    ⟨.label, 0, 0, .typed ⟨[.str name], [], none⟩⟩,
    ⟨⟨0x09⟩, 0, 0, .raw []⟩,
    ⟨.textInsert, 0, 0, .typed ⟨[.str "", .flag true, .flag false, .flag true], [],
      some ⟨104, [.text "a"]⟩⟩⟩,
    ⟨.textInsert, 0, 0, .typed ⟨[.str "", .flag true, .flag false, .flag true], [],
      some ⟨104, [.text "b"]⟩⟩⟩]
  labels := []

/-- The references of the sample with a colon in its name. -/
def sampleColon : List Reference :=
  [⟨"c-a_b.lns", 2⟩, ⟨"c-line3.lns", 3⟩]

set_option maxRecDepth 10000 in
theorem extract_sampleColon : ∃ w', (extract (sampleNamed "a:b") "c" "out" false .utf8).Yields
    ⟨{}, "", []⟩ sampleColon w' :=
  ⟨_, Prod.ext (by rfl) rfl⟩

/-- Two scenarios go to two files, one by its name and one by its line. -/
theorem extract_distinct_sample : ∃ w', (extract (sampleNamed "a:b") "c" "out" false .utf8).Yields
      ⟨{}, "", []⟩ sampleColon w' ∧
    List.Forall₂ (fun s r => r.line = s.line ∧ Holds w'.files "out" false .utf8 s r)
      (sampleNamed "a:b").scenarios sampleColon := by
  obtain ⟨w', ran⟩ := extract_sampleColon
  exact ⟨w', ran, (extract_distinct ran).2 (by decide)⟩

set_option maxRecDepth 10000 in
/-- A scenario that is called like the line of the next one goes to the same file, and its script is
overwritten. -/
theorem extract_overwritten :
    ∃ w', (extract (sampleNamed "line3") "c" "out" false .utf8).Yields ⟨{}, "", []⟩
        [⟨"c-line3.lns", 2⟩, ⟨"c-line3.lns", 3⟩] w' ∧
      ¬["c-line3.lns", "c-line3.lns"].Nodup ∧
      (⟨2, some "line3", ⟨104, [.text "a"]⟩⟩ : Scenario) ∈ (sampleNamed "line3").scenarios ∧
      ¬Holds w'.files "out" false .utf8 ⟨2, some "line3", ⟨104, [.text "a"]⟩⟩
        ⟨"c-line3.lns", 2⟩ := by
  refine ⟨_, Prod.ext (by rfl) rfl, by decide, by decide, ?_⟩
  rintro ⟨bytes, readable, encoded⟩
  have script : Encoding.utf8.encode (Script.print false [.text "a"]) = .ok [97] := by
    rfl
  cases script.symm.trans encoded
  -- What is there is the script of the other scenario.
  exact absurd readable (by decide)

end Scripts

/-! ### Indexes that are read back -/

namespace Text

/-- No line holds a line feed. -/
theorem not_mem_of_mem_lines {cs line : List Char} (member : line ∈ lines cs) : '\n' ∉ line := by
  rw [lines, List.mem_append] at member
  rcases member with ended | last
  · obtain ⟨piece, inside, rfl⟩ := List.mem_map.mp ended
    intro feed
    exact not_mem_of_mem_pieces (List.dropLast_subset _ inside) (dropReturn_subset piece feed)
  · have inside := List.mem_of_getLast? (Option.mem_toList.mp (List.mem_of_mem_filter last))
    exact not_mem_of_mem_pieces inside

end Text

namespace Reference

/-- An index leads back to its references when no line feed stands in them. -/
theorem mapM_ofText_iff {refs : List Reference} (named : ∀ r ∈ refs, r.file ≠ "") :
    (indexEntries (indexText refs)).mapM ofText = .ok refs ↔
      ∀ r ∈ refs, '\n' ∉ r.file.toList ∧ r.line < Text.positionLimit := by
  rw [mapM_eq_ok]
  constructor
  · intro paired r member
    -- An entry is a line, and what is read of it stands in it.
    obtain ⟨length, read⟩ := List.forall₂_iff_zip.mp paired
    rw [← List.map_snd_zip length.ge] at member
    obtain ⟨⟨entry, r⟩, inside, rfl⟩ := List.mem_map.mp member
    obtain ⟨_, _, _, numeral, _, cut⟩ := ofText_eq_ok.mp (read inside)
    obtain ⟨line, listed, rfl⟩ := List.mem_map.mp (List.of_mem_zip inside).1
    rw [String.toList_ofList] at cut
    refine ⟨fun feed => ?_, numeral.small⟩
    refine Text.not_mem_of_mem_lines (List.mem_of_mem_filter listed) ?_
    rw [cut]
    exact List.mem_append_left _ feed
  · intro plain
    rw [indexEntries_indexText fun r member => (plain r member).1, List.forall₂_map_left_iff,
      List.forall₂_same]
    intro r member
    exact ofText_text (named r member) (plain r member).2

/-- Escaping brings in nothing but underscores. -/
theorem mem_escapeFrom {c : Char} {inRun : Bool} {cs : List Char}
    (member : c ∈ escapeFrom inRun cs) : c = '_' ∨ c ∈ cs := by
  induction cs generalizing inRun with
  | nil => cases member
  | cons x cs ih =>
    rw [List.mem_cons]
    rw [escapeFrom] at member
    split at member
    · split at member
      · exact (ih member).imp_right .inr
      · rcases List.mem_cons.mp member with rfl | rest
        · exact .inl rfl
        · exact (ih rest).imp_right .inr
    · rcases List.mem_cons.mp member with rfl | rest
      · exact .inr (.inl rfl)
      · exact (ih rest).imp_right .inr

end Reference

namespace Scripts

variable {chart : Chart} {stem dir : String} {textOnly : Bool} {w w' : World}
  {refs : List Reference}

/-- The file of a scenario holds a line feed only if the stem or the name does. -/
theorem not_mem_scenarioFile (flat : '\n' ∉ stem.toList) {s : Scenario}
    (plain : ∀ name, s.name = some name → '\n' ∉ name.toList) (taken : List Reference) :
    '\n' ∉ (scenarioFile stem taken s).toList := by
  have behind : ∀ label : String, '\n' ∉ label.toList → '\n' ∉ (labelled stem label).toList := by
    intro label plain
    simpa [labelled, not_or] using ⟨flat, plain⟩
  obtain ⟨name, named, file, _⟩ | ⟨file, _⟩ := scenarioFile_cases stem taken s
  · rw [file]
    refine behind _ fun feed => ?_
    rw [Reference.escapeName, String.toList_ofList] at feed
    obtain other | inside := Reference.mem_escapeFrom feed
    · exact absurd other (by decide)
    · exact plain name named inside
  · rw [file, lineFile_eq]
    refine behind _ ?_
    rw [String.toList_append, List.mem_append, not_or]
    exact ⟨by decide, Text.not_mem_toString (by decide)⟩

/-- The index of an extraction is read back. It leads back to the references unless one of them
holds a line feed; and none does if neither the stem nor the name of a scenario does. -/
theorem extract_index (ran : (extract chart stem dir textOnly .utf8).Yields w refs w') :
    ∃ text, (Store.readText (Reference.indexPath dir stem) .utf8).Yields w' text w' ∧
      ((Reference.indexEntries text).mapM Reference.ofText = .ok refs ↔
        ∀ r ∈ refs, '\n' ∉ r.file.toList ∧ r.line < Text.positionLimit) ∧
      (chart.length ≤ Text.positionLimit → '\n' ∉ stem.toList →
        (∀ s ∈ chart.scenarios, ∀ name, s.name = some name → '\n' ∉ name.toList) →
        (Reference.indexEntries text).mapM Reference.ofText = .ok refs) := by
  obtain ⟨rfl, w₁, w₂, _, indexed⟩ := extract_yields ran
  obtain ⟨bytes, written, decoded⟩ := writeText_utf8 indexed
  obtain ⟨pairs, scenarios, refs, listed⟩ := listed_references stem chart
  have named : ∀ r ∈ references stem chart, r.file ≠ "" := by
    rw [← refs]
    intro r member
    obtain ⟨pair, inside, rfl⟩ := List.mem_map.mp member
    obtain ⟨label, _, file⟩ := listed.exists_label inside
    rw [file, labelled, ne_eq, String.append_eq_empty_iff, not_and_or]
    exact .inr (by decide)
  refine ⟨_, Store.readText_yields.mpr ⟨rfl, bytes, FileTree.read_stored written, decoded⟩,
    Reference.mapM_ofText_iff named, fun few flat plain => ?_⟩
  refine (Reference.mapM_ofText_iff named).mpr fun r member => ?_
  rw [← refs] at member
  obtain ⟨pair, inside, rfl⟩ := List.mem_map.mp member
  obtain ⟨front, _, chosen⟩ := listed.chosen inside
  have member : pair.1 ∈ chart.scenarios := scenarios ▸ List.mem_map_of_mem inside
  rw [chosen]
  refine ⟨not_mem_scenarioFile flat (plain pair.1 member) _, ?_⟩
  obtain ⟨_, here, _⟩ := Chart.block_eq_ok.mp (Chart.block_of_mem_scenarios member)
  exact Nat.lt_of_lt_of_le (List.getElem?_eq_some_iff.mp here).1 few

/-- A colon in a name is escaped, and the index is read back. -/
theorem extract_index_sample : ∃ w' text,
    (extract (sampleNamed "a:b") "c" "out" false .utf8).Yields ⟨{}, "", []⟩ sampleColon w' ∧
      (Store.readText (Reference.indexPath "out" "c") .utf8).Yields w' text w' ∧
      (Reference.indexEntries text).mapM Reference.ofText = .ok sampleColon := by
  obtain ⟨w', ran⟩ := extract_sampleColon
  obtain ⟨text, read, back, _⟩ := extract_index ran
  exact ⟨w', text, ran, read, back.mpr (by decide)⟩

set_option maxRecDepth 10000 in
/-- A line feed in a name is not escaped, and the index is torn apart there. -/
theorem extract_torn : ∃ w', (extract (sampleNamed "a\nb") "c" "out" false .utf8).Yields
      ⟨{}, "", []⟩ [⟨"c-a\nb.lns", 2⟩, ⟨"c-line3.lns", 3⟩] w' ∧
    (Store.readText (Reference.indexPath "out" "c") .utf8).Yields w'
      "c-a\nb.lns:2\nc-line3.lns:3\n" w' ∧
    (Reference.indexEntries "c-a\nb.lns:2\nc-line3.lns:3\n").mapM Reference.ofText =
      .error (.of (.badReference "c-a")) := by
  refine ⟨_, Prod.ext (by rfl) rfl, ?_, by rfl⟩
  exact Store.readText_yields.mpr ⟨rfl, _, by rfl, by rfl⟩

end Scripts

end NovelChart
