import Mathlib.Data.List.Infix
import Mathlib.Tactic.SplitIfs
import NovelChart.Proofs.Format
import NovelChart.Tool.FileTree

/-!
# Where paths lead

A path is followed name by name, and names that say nothing are stepped over. Two paths therefore
lead to the same place when they begin at the same place and hold the same telling names. This is
how a file that was read under one path is found again under the path that is put together from its
directory and its name. Following asks nothing of the tree but that directories are directories, so
it is not disturbed by files that are written or directories that are made.

## Main definitions

* `Path.telling`: the names of a path that lead somewhere
* `Path.Beside`: two paths that lead to different names in one directory
* `Path.way`, `Path.place`: the places that a path passes, and the place that it leads to
* `FileTree.Keeps`: every directory of one tree is a directory of another
* `FileTree.Gains`: one tree is another with something added

## Main results

* `Path.telling_join_parent`: directory and name of a path lead to where the path leads
* `FileTree.Keeps.follow`: a path is followed alike in a tree that keeps the directories
* `FileTree.write_eq_ok`: what writing a file changes
* `Path.beside_append`: different things behind one path lead to different names in one directory
* `FileTree.read_of_write`, `FileTree.read_beside`: how a file is read after it or another one
  beside it was written
-/

namespace NovelChart

/-! ### Pieces -/

theorem Text.pieces_eq_splitOn (separator : Char) (cs : List Char) :
    pieces separator cs = cs.splitOn separator := by
  induction cs with
  | nil => rfl
  | cons c cs ih =>
    rw [pieces, List.splitOn_cons_eq_if_modifyHead, ih]
    by_cases same : c = separator
    · simp [same]
    · have some := List.splitOn_ne_nil separator cs
      simp only [same, beq_iff_eq, if_false]
      cases cut : cs.splitOn separator with
      | nil => exact absurd cut some
      | cons piece rest => rfl

/-- A piece does not hold the separator. -/
theorem Text.not_mem_of_mem_pieces {separator : Char} {cs piece : List Char}
    (member : piece ∈ pieces separator cs) : separator ∉ piece := by
  induction cs generalizing piece with
  | nil =>
    obtain rfl := List.mem_singleton.mp member
    simp
  | cons c cs ih =>
    rw [pieces] at member
    split at member
    · rcases List.mem_cons.mp member with rfl | later
      · simp
      · exact ih later
    · next other =>
      split at member
      · next none => exact absurd none (pieces_ne_nil separator cs)
      · next first rest cut =>
        rcases List.mem_cons.mp member with rfl | later
        · rw [List.mem_cons, not_or]
          exact ⟨fun same => other same.symm, ih (cut ▸ List.mem_cons_self)⟩
        · exact ih (cut ▸ List.mem_cons_of_mem _ later)

/-- The characters of a piece stand in the text. -/
theorem Text.subset_of_mem_pieces {separator : Char} {cs piece : List Char}
    (member : piece ∈ pieces separator cs) : piece ⊆ cs := by
  induction cs generalizing piece with
  | nil =>
    obtain rfl := List.mem_singleton.mp member
    exact List.Subset.refl []
  | cons c cs ih =>
    rw [pieces] at member
    split at member
    · rcases List.mem_cons.mp member with rfl | later
      · exact List.nil_subset _
      · exact List.subset_cons_of_subset c (ih later)
    · split at member
      · next none => exact absurd none (pieces_ne_nil separator cs)
      · next first rest cut =>
        rcases List.mem_cons.mp member with rfl | later
        · exact List.cons_subset_cons c (ih (cut ▸ List.mem_cons_self))
        · exact List.subset_cons_of_subset c (ih (cut ▸ List.mem_cons_of_mem _ later))

namespace Path

variable {path dir name entry : String} {names : List String}

theorem pieces_eq (path : String) :
    pieces path = (path.toList.splitOn '/').map String.ofList := by
  rw [pieces, Text.pieces_eq_splitOn]

theorem pieces_ne_nil (path : String) : pieces path ≠ [] := by
  rw [pieces_eq, ne_eq, List.map_eq_nil_iff]
  exact List.splitOn_ne_nil _ _

theorem not_mem_of_mem_pieces (member : name ∈ pieces path) : '/' ∉ name.toList := by
  obtain ⟨piece, cut, rfl⟩ := List.mem_map.mp member
  rw [String.toList_ofList]
  exact Text.not_mem_of_mem_pieces cut

theorem pieces_of_not_mem (plain : '/' ∉ name.toList) : pieces name = [name] := by
  rw [pieces_eq, List.splitOn_eq_singleton plain, List.map_singleton, String.ofList_toList]

theorem pieces_append_slash (front back : String) :
    pieces (front ++ "/" ++ back) = pieces front ++ pieces back := by
  have slash : (front ++ "/" ++ back).toList = front.toList ++ '/' :: back.toList := by
    simp
  rw [pieces_eq, slash, List.splitOn_append_cons_self, List.map_append, ← pieces_eq, ← pieces_eq]

theorem pieces_intercalate (some : names ≠ []) (plain : ∀ name ∈ names, '/' ∉ name.toList) :
    pieces (String.intercalate "/" names) = names := by
  induction names with
  | nil => exact absurd rfl some
  | cons name names ih =>
    obtain ⟨first, rest⟩ := List.forall_mem_cons.mp plain
    cases names with
    | nil => rw [String.intercalate_singleton, pieces_of_not_mem first]
    | cons next names =>
      rw [String.intercalate_cons_cons, pieces_append_slash, pieces_of_not_mem first,
        ih (List.cons_ne_nil _ _) rest, List.singleton_append]

/-- A path begins at the root if its first piece is empty and not its only one. -/
theorem isAbsolute_iff : isAbsolute path = true ↔ ∃ rest, rest ≠ [] ∧ pieces path = "" :: rest := by
  rw [isAbsolute, beq_iff_eq]
  constructor
  · intro rooted
    obtain ⟨rest, same⟩ := List.head?_eq_some_iff.mp rooted
    refine ⟨(rest.splitOn '/').map String.ofList, ?_, ?_⟩
    · rw [ne_eq, List.map_eq_nil_iff]
      exact List.splitOn_ne_nil _ _
    · rw [pieces_eq, same, List.splitOn_cons_eq_if_modifyHead]
      rfl
  · rintro ⟨rest, some, cut⟩
    rw [pieces_eq] at cut
    cases same : path.toList with
    | nil =>
      rw [same] at cut
      cases cut
      exact absurd rfl some
    | cons c cs =>
      rw [same, List.splitOn_cons_eq_if_modifyHead] at cut
      by_cases slash : c = '/'
      · rw [slash, List.head?_cons]
      · simp only [slash, beq_iff_eq, if_false] at cut
        cases tail : cs.splitOn '/' with
        | nil => exact absurd tail (List.splitOn_ne_nil _ _)
        | cons piece more =>
          rw [tail] at cut
          have empty := List.head_eq_of_cons_eq cut
          simp at empty

/-! ### Names that lead somewhere -/

/-- Whether a name leads somewhere from a directory. -/
def tells (name : String) : Bool :=
  name != "" && name != "."

/-- The names of a path that lead somewhere. -/
def telling (path : String) : List String :=
  (pieces path).filter tells

theorem settle_cons_cons (name next : String) (names : List String) :
    settle (name :: next :: names) =
      if name = "" ∨ name = "." then settle (next :: names) else name :: next :: names :=
  rfl

/-- What is dropped from the end of a path says nothing. -/
theorem exists_settle (names : List String) :
    ∃ blank, names = blank ++ settle names ∧ blank.filter tells = [] := by
  induction names with
  | nil => exact ⟨[], rfl, rfl⟩
  | cons name names ih =>
    cases names with
    | nil =>
      rw [settle]
      by_cases empty : name = ""
      · exact ⟨[name], by simp [empty], by simp [empty, tells]⟩
      · exact ⟨[], by simp [empty], rfl⟩
    | cons next names =>
      rw [settle_cons_cons]
      by_cases silent : name = "" ∨ name = "."
      · obtain ⟨blank, same, none⟩ := ih
        refine ⟨name :: blank, ?_, ?_⟩
        · rw [if_pos silent, List.cons_append, ← same]
        · have dropped : tells name = false := by
            rcases silent with rfl | rfl <;> rfl
          rw [List.filter_cons_of_neg (by simp [dropped]), none]
      · exact ⟨[], by rw [if_neg silent, List.nil_append], rfl⟩

theorem ne_empty_of_settle {rest : List String} (settled : settle names = name :: rest) :
    name ≠ "" := by
  induction names with
  | nil => cases settled
  | cons first names ih =>
    cases names with
    | nil =>
      rw [settle] at settled
      split at settled
      · cases settled
      · next some =>
        cases settled
        exact some
    | cons next names =>
      rw [settle_cons_cons] at settled
      split at settled
      · exact ih settled
      · next telling =>
        cases settled
        exact fun empty => telling (.inl empty)

theorem isAbsolute_of_pieces {first : String} {rest : List String}
    (cut : pieces path = first :: rest) (some : rest ≠ []) :
    isAbsolute path = decide (first = "") := by
  rw [Bool.eq_iff_iff, isAbsolute_iff, decide_eq_true_iff, cut]
  constructor
  · rintro ⟨rest', _, same⟩
    exact List.head_eq_of_cons_eq same
  · rintro rfl
    exact ⟨rest, some, rfl⟩

theorem isAbsolute_of_not_mem (plain : '/' ∉ name.toList) : isAbsolute name = false := by
  rw [isAbsolute, beq_eq_false_iff_ne]
  intro rooted
  exact plain (List.mem_of_mem_head? rooted)

/-- A name inside a directory that does not end with a slash. -/
theorem join_of_last {last : String} (cut : pieces dir = names ++ [last]) (some : last ≠ "")
    (plain : '/' ∉ name.toList) : join dir name = dir ++ "/" ++ name := by
  have filled : dir.isEmpty = false := by
    rw [Bool.eq_false_iff]
    intro empty
    obtain rfl := String.isEmpty_iff.mp empty
    have cut : [] ++ [""] = names ++ [last] := cut
    have same := List.append_inj_right' cut rfl
    exact some (List.singleton_inj.mp same).symm
  have unslashed : dir.toList.getLast? ≠ Option.some '/' := by
    intro slash
    obtain ⟨front, same⟩ := List.getLast?_eq_some_iff.mp slash
    have split : dir = String.ofList front ++ "/" ++ "" := by
      apply String.toList_inj.mp
      simp [same]
    rw [split, pieces_append_slash] at cut
    have same : [""] = [last] := List.append_inj_right' cut rfl
    exact some (List.singleton_inj.mp same).symm
  rw [join, isAbsolute_of_not_mem plain, filled]
  simp [unslashed]

/-- A path that names a file is the path of its directory, the name, and what says nothing. -/
theorem cut_of_fileName? (named : fileName? path = some entry) :
    tells entry = true ∧ ∃ names silent blank, pieces path = names ++ (silent ++ entry :: blank) ∧
      silent.filter tells = [] ∧ blank.filter tells = [] ∧
      ((names = [] ∧ parent? path = some (if isAbsolute path then "/" else "")) ∨
        ∃ front last, names = front ++ [last] ∧ last ≠ "" ∧
          parent? path = some (String.intercalate "/" names)) := by
  rw [fileName?] at named
  split at named
  · next last rest taken =>
    rw [Option.ite_none_left_eq_some, not_or, Option.some.injEq] at named
    obtain ⟨⟨notDot, _⟩, rfl⟩ := named
    have settled : settle (pieces path).reverse = last :: rest := by
      rw [takeLast?] at taken
      split at taken
      · cases taken
      · next same =>
        cases taken
        exact same
    have filled := ne_empty_of_settle settled
    obtain ⟨blank, whole, silent⟩ := exists_settle (pieces path).reverse
    obtain ⟨blank', whole', silent'⟩ := exists_settle rest
    refine ⟨by simp [tells, filled, notDot], (settle rest).reverse, blank'.reverse, blank.reverse,
      ?_, ?_, ?_, ?_⟩
    · rw [← List.reverse_reverse (pieces path), whole, settled, List.reverse_append,
        List.reverse_cons, ← List.append_assoc, ← List.reverse_append, ← whole', List.append_assoc]
      rfl
    · rw [List.filter_reverse, silent', List.reverse_nil]
    · rw [List.filter_reverse, silent, List.reverse_nil]
    · rw [parent?, taken]
      dsimp only [Option.map_some]
      cases above : settle rest with
      | nil => exact .inl ⟨rfl, rfl⟩
      | cons last' more =>
        exact .inr ⟨more.reverse, last', List.reverse_cons, ne_empty_of_settle above, rfl⟩
  · cases named

/-- The directory and the name of a path lead to where the path leads. -/
theorem telling_join_parent (named : fileName? path = some entry) :
    telling (join ((parent? path).getD ".") entry) = telling path ∧
      isAbsolute (join ((parent? path).getD ".") entry) = isAbsolute path := by
  obtain ⟨tells_entry, names, silent, blank, cut, none₁, none₂, parents⟩ := cut_of_fileName? named
  have plain : ∀ name ∈ names ++ (silent ++ entry :: blank), '/' ∉ name.toList := fun name member =>
    not_mem_of_mem_pieces (cut ▸ member)
  have plain_entry := plain entry (by simp)
  have telling_path : telling path = names.filter tells ++ [entry] := by
    rw [telling, cut, List.filter_append, List.filter_append, none₁,
      List.filter_cons_of_pos tells_entry, none₂, List.nil_append]
  rw [telling_path]
  rcases parents with ⟨rfl, parent⟩ | ⟨front, last, rfl, filled, parent⟩
  · rw [parent, Option.getD_some]
    by_cases rooted : isAbsolute path = true
    · have joined : join "/" entry = "" ++ "/" ++ entry := by
        simp [join, isAbsolute_of_not_mem plain_entry]
      have cut' : pieces ("" ++ "/" ++ entry) = "" :: [entry] := by
        rw [pieces_append_slash, pieces_of_not_mem plain_entry]
        rfl
      rw [if_pos rooted, joined, telling, cut', rooted]
      refine ⟨?_, isAbsolute_iff.mpr ⟨_, List.cons_ne_nil _ _, cut'⟩⟩
      simp [tells_entry, show tells "" = false from rfl]
    · have joined : join "" entry = entry := by
        simp [join, isAbsolute_of_not_mem plain_entry]
      rw [if_neg rooted, joined, telling, pieces_of_not_mem plain_entry,
        isAbsolute_of_not_mem plain_entry, Bool.eq_false_iff.mpr rooted]
      simp [tells_entry]
  · have directory := pieces_intercalate (by simp) fun name member =>
      plain name (List.mem_append_left _ member)
    have cut' : pieces (String.intercalate "/" (front ++ [last]) ++ "/" ++ entry) =
        front ++ [last] ++ [entry] := by
      rw [pieces_append_slash, directory, pieces_of_not_mem plain_entry]
    rw [parent, Option.getD_some, join_of_last directory filled plain_entry]
    refine ⟨?_, ?_⟩
    · rw [telling, cut', List.filter_append, List.filter_cons_of_pos tells_entry, List.filter_nil]
    · -- Both paths begin with the first name of the directory.
      obtain ⟨first, more, same⟩ := List.exists_cons_of_ne_nil
        (show front ++ [last] ≠ [] by simp)
      rw [same, List.cons_append] at cut cut'
      rw [same, isAbsolute_of_pieces cut (by simp), isAbsolute_of_pieces cut' (by simp)]

/-- A name that stands for something inside a directory. -/
structure IsName (name : String) : Prop where
  telling : tells name = true
  inside : name ≠ ".."
  plain : '/' ∉ name.toList

/-- A file with an extension is a name. -/
theorem isName_append {front extension : String} (plain : '/' ∉ front.toList)
    (plain' : '/' ∉ extension.toList) (long : 3 ≤ extension.toList.length) :
    IsName (front ++ extension) := by
  have differ : ∀ short : String, short.toList.length ≤ 2 → front ++ extension ≠ short := by
    rintro short low rfl
    rw [String.toList_append, List.length_append] at low
    omega
  refine ⟨?_, differ ".." (by decide), ?_⟩
  · simp only [tells, Bool.and_eq_true, bne_iff_ne]
    exact ⟨differ "" (by decide), differ "." (by decide)⟩
  · rw [String.toList_append, List.mem_append, not_or]
    exact ⟨plain, plain'⟩

/-- The file that a path names has a name. -/
theorem isName_of_fileName? (named : fileName? path = some entry) : IsName entry := by
  obtain ⟨telling, names, silent, blank, cut, _⟩ := cut_of_fileName? named
  have member : entry ∈ pieces path := by simp [cut]
  refine ⟨telling, ?_, not_mem_of_mem_pieces member⟩
  rw [fileName?] at named
  split at named
  · rw [Option.ite_none_left_eq_some, not_or, Option.some.injEq] at named
    obtain ⟨⟨_, inside⟩, rfl⟩ := named
    exact inside
  · cases named

/-- An extension goes behind the name, whatever directory the name is in. -/
theorem join_append {extension : String} (plain : '/' ∉ name.toList)
    (plain' : '/' ∉ extension.toList) :
    join dir name ++ extension = join dir (name ++ extension) := by
  have whole : '/' ∉ (name ++ extension).toList := by
    rw [String.toList_append, List.mem_append, not_or]
    exact ⟨plain, plain'⟩
  simp only [join, isAbsolute_of_not_mem plain, isAbsolute_of_not_mem whole]
  split_ifs <;> simp only [String.append_assoc]

/-- A path goes through its directory to a name in it. -/
theorem exists_pieces_join (dir : String) : ∃ names, ∀ name, '/' ∉ name.toList →
    pieces (join dir name) = names ++ [name] ∧ isAbsolute (join dir name) = isAbsolute dir := by
  by_cases empty : dir = ""
  · refine ⟨[], fun name plain => ?_⟩
    have joined : join dir name = name := by
      rw [join, isAbsolute_of_not_mem plain, empty]
      simp
    rw [joined, empty, pieces_of_not_mem plain, isAbsolute_of_not_mem plain]
    exact ⟨rfl, rfl⟩
  · have filled : dir.isEmpty = false := by
      rw [Bool.eq_false_iff, ne_eq, String.isEmpty_iff]
      exact empty
    obtain ⟨c, cs, chars⟩ : ∃ c cs, dir.toList = c :: cs := by
      apply List.exists_cons_of_ne_nil
      rw [ne_eq, String.toList_eq_nil_iff]
      exact empty
    by_cases slashed : dir.toList.getLast? = some '/'
    · -- The slash at the end of the directory is the one in front of the name.
      obtain ⟨front, same⟩ := List.getLast?_eq_some_iff.mp slashed
      have cut : dir = String.ofList front ++ "/" := by
        apply String.toList_inj.mp
        rw [same]
        simp
      refine ⟨pieces (String.ofList front), fun name plain => ?_⟩
      have joined : join dir name = dir ++ name := by
        rw [join, isAbsolute_of_not_mem plain, slashed]
        simp
      refine ⟨?_, ?_⟩
      · rw [joined, cut, pieces_append_slash, pieces_of_not_mem plain]
      · rw [joined, isAbsolute, isAbsolute, String.toList_append, chars, List.cons_append,
          List.head?_cons, List.head?_cons]
    · refine ⟨pieces dir, fun name plain => ?_⟩
      have joined : join dir name = dir ++ "/" ++ name := by
        rw [join, isAbsolute_of_not_mem plain, filled]
        simp [slashed]
      refine ⟨?_, ?_⟩
      · rw [joined, pieces_append_slash, pieces_of_not_mem plain]
      · rw [joined, isAbsolute, isAbsolute, String.toList_append, String.toList_append, chars,
          List.cons_append, List.cons_append, List.head?_cons, List.head?_cons]

/-! ### Names in one directory -/

/-- What goes on behind a slash goes on in the directory that the slash ends. -/
theorem join_slash (dir front : String) (plain : '/' ∉ name.toList) :
    join dir (front ++ "/" ++ name) = join (join dir (front ++ "/")) name := by
  have rooted : isAbsolute (front ++ "/" ++ name) = isAbsolute (front ++ "/") := by
    simp only [isAbsolute, String.toList_append]
    cases front.toList with
    | nil => rfl
    | cons c cs => rfl
  have ends : join dir (front ++ "/" ++ name) = join dir (front ++ "/") ++ name := by
    simp only [join, rooted]
    split_ifs <;> simp only [String.append_assoc]
  have slashed : (join dir (front ++ "/")).toList.getLast? = some '/' := by
    rw [join]
    split_ifs <;> simp only [String.toList_append, ← List.append_assoc] <;>
      exact List.getLast?_concat
  have whole : join (join dir (front ++ "/")) name = join dir (front ++ "/") ++ name := by
    generalize join dir (front ++ "/") = base at slashed
    simp [join, isAbsolute_of_not_mem plain, slashed]
  rw [ends, whole]

/-- Whatever goes on behind a path is in one directory. -/
theorem exists_join_append (dir stem : String) : ∃ base front, '/' ∉ front.toList ∧
    ∀ rest, '/' ∉ rest.toList → join dir (stem ++ rest) = join base (front ++ rest) := by
  by_cases slash : '/' ∈ stem.toList.reverse
  · -- The last slash ends the directory, and what stands behind it begins the name.
    obtain ⟨last, above, cut, flat⟩ := List.eq_append_cons_of_mem slash
    have cut : stem = String.ofList above.reverse ++ "/" ++ String.ofList last.reverse := by
      apply String.toList_inj.mp
      rw [← List.reverse_reverse stem.toList, cut]
      simp
    refine ⟨join dir (String.ofList above.reverse ++ "/"), String.ofList last.reverse,
      by simpa using flat, fun rest plain => ?_⟩
    have behind : '/' ∉ (String.ofList last.reverse ++ rest).toList := by
      simpa [not_or] using ⟨flat, plain⟩
    rw [cut, String.append_assoc, join_slash dir _ behind]
  · exact ⟨dir, stem, by simpa using slash, fun _ _ => rfl⟩

/-- The paths lead to different names in one directory. -/
def Beside (path other : String) : Prop :=
  ∃ dir name name', path = join dir name ∧ other = join dir name' ∧ IsName name ∧ IsName name' ∧
    name ≠ name'

/-- Different things behind one path lead to different names in one directory. -/
theorem beside_append (dir stem : String) {rest rest' : String} (plain : '/' ∉ rest.toList)
    (plain' : '/' ∉ rest'.toList) (long : 3 ≤ rest.toList.length)
    (long' : 3 ≤ rest'.toList.length) (differ : rest ≠ rest') :
    Beside (join dir (stem ++ rest)) (join dir (stem ++ rest')) := by
  obtain ⟨base, front, flat, joined⟩ := exists_join_append dir stem
  refine ⟨base, front ++ rest, front ++ rest', joined rest plain, joined rest' plain',
    isName_append flat plain long, isName_append flat plain' long', ?_⟩
  rw [ne_eq, String.append_right_inj]
  exact differ

end Path

/-! ### Places by their names -/

/-- The place that one more name leads to from a directory. -/
def Location.into (place : Location) (name : String) : Location :=
  if name = "" ∨ name = "." then place
  else if name = ".." then if place.isAbove then place ++ [".."] else place.dropLast
  else place ++ [name]

namespace Path

variable {path dir name : String} {rest names : List String}

/-- The places that a path passes where its directories are there, the last one included. -/
def way (path : String) : List Location :=
  (pieces path).inits.map fun names => names.foldl Location.into (FileTree.start path)

/-- The place that a path leads to where its directories are there. -/
def place (path : String) : Location :=
  (pieces path).foldl Location.into (FileTree.start path)

theorem mem_way {place : Location} : place ∈ way path ↔
    ∃ names, names <+: pieces path ∧ names.foldl Location.into (FileTree.start path) = place := by
  simp [way]

theorem place_mem_way (path : String) : place path ∈ way path :=
  mem_way.mpr ⟨pieces path, List.prefix_rfl, rfl⟩

theorem isAbsolute_of_front (front : pieces dir <+: pieces path) (some : pieces dir ≠ [""]) :
    isAbsolute dir = isAbsolute path := by
  obtain ⟨more, whole⟩ := front
  obtain ⟨first, rest, cut⟩ := List.exists_cons_of_ne_nil (pieces_ne_nil dir)
  rw [cut, List.cons_append] at whole
  by_cases single : rest = []
  · have filled : first ≠ "" := by
      rintro rfl
      exact some (by rw [cut, single])
    have relative : ∀ path rest, pieces path = first :: rest → isAbsolute path = false := by
      intro path rest cut
      rw [Bool.eq_false_iff, ne_eq, isAbsolute_iff]
      rintro ⟨_, _, same⟩
      exact filled (List.head_eq_of_cons_eq (cut.symm.trans same))
    rw [relative dir rest cut, relative path _ whole.symm]
  · rw [isAbsolute_of_pieces cut single, isAbsolute_of_pieces whole.symm (by simp [single])]

theorem way_subset (front : pieces dir <+: pieces path)
    (rooted : isAbsolute dir = isAbsolute path) : way dir ⊆ way path := by
  intro place member
  obtain ⟨names, front', leads⟩ := mem_way.mp member
  refine mem_way.mpr ⟨names, front'.trans front, ?_⟩
  rwa [FileTree.start, ← rooted, ← FileTree.start]

/-- The path of a name among the pieces of a path lies on the way. -/
theorem way_subset_of_suffix (suffix : name :: rest <:+ (pieces path).reverse)
    (filled : name ≠ "") : way (String.intercalate "/" (name :: rest).reverse) ⊆ way path := by
  have front : (name :: rest).reverse <+: pieces path := by
    rwa [← List.reverse_suffix, List.reverse_reverse]
  have cut : pieces (String.intercalate "/" (name :: rest).reverse) = (name :: rest).reverse :=
    pieces_intercalate (by simp) fun name member => not_mem_of_mem_pieces (front.subset member)
  rw [← cut] at front
  refine way_subset front (isAbsolute_of_front front ?_)
  rw [cut, ne_eq, List.reverse_eq_iff]
  rintro ⟨⟩
  exact filled rfl

theorem settle_suffix (names : List String) : settle names <:+ names := by
  obtain ⟨blank, whole, _⟩ := exists_settle names
  exact ⟨blank, whole.symm⟩

/-- The directory of a path lies on its way. -/
theorem way_parent?_subset (parent : parent? path = some dir) : way dir ⊆ way path := by
  rw [parent?, Option.map_eq_some_iff] at parent
  obtain ⟨⟨last, rest⟩, taken, named⟩ := parent
  have suffix : settle rest <:+ (pieces path).reverse := by
    rw [takeLast?] at taken
    split at taken
    · cases taken
    · next settled =>
      cases taken
      exact ((settle_suffix rest).trans (List.suffix_cons last rest)).trans
        (settled ▸ settle_suffix _)
  dsimp only at named
  split at named
  · -- Of the path nothing is left but the place where it begins.
    have begins : ∀ place ∈ way dir, place = FileTree.start path := by
      subst named
      rw [FileTree.start]
      split <;> decide
    intro place member
    exact mem_way.mpr ⟨[], List.nil_prefix, (begins place member).symm⟩
  · next left =>
    obtain ⟨name, above, settled⟩ := List.exists_cons_of_ne_nil left
    rw [settled] at named suffix
    subst named
    exact way_subset_of_suffix suffix (ne_empty_of_settle settled)

theorem exists_of_mem_runs {run : List String} (member : run ∈ runs names) :
    ∃ name rest, run = name :: rest ∧ name ≠ "" ∧ run <:+ names := by
  induction names with
  | nil => cases member
  | cons first names ih =>
    have later : run ∈ runs names → ∃ name rest, run = name :: rest ∧ name ≠ "" ∧
        run <:+ first :: names := by
      intro member
      obtain ⟨name, rest, same, filled, suffix⟩ := ih member
      exact ⟨name, rest, same, filled, suffix.trans (List.suffix_cons first names)⟩
    rw [runs] at member
    split at member
    · next settled =>
      rcases List.mem_cons.mp member with rfl | member
      · exact ⟨first, names, rfl, ne_empty_of_settle settled, List.suffix_rfl⟩
      · exact later member
    · exact later member

/-- The paths above a path lie on its way. -/
theorem way_subset_of_mem_above (member : dir ∈ above path) : way dir ⊆ way path := by
  obtain ⟨run, dropped, rfl⟩ := List.mem_map.mp member
  obtain ⟨name, rest, rfl, filled, suffix⟩ := exists_of_mem_runs (List.mem_of_mem_drop dropped)
  exact way_subset_of_suffix suffix filled

/-- Names that say nothing lead nowhere. -/
theorem foldl_into_silent {place : Location} (silent : names.filter tells = []) :
    names.foldl Location.into place = place := by
  induction names with
  | nil => rfl
  | cons name names ih =>
    rw [List.filter_eq_nil_iff, List.forall_mem_cons] at silent
    have here : place.into name = place := by
      rw [Location.into, if_pos]
      by_contra telling
      exact silent.1 (by simpa [tells, not_or] using telling)
    rw [List.foldl_cons, here]
    exact ih (List.filter_eq_nil_iff.mpr silent.2)

end Path

/-! ### Trees -/

namespace FileTree

variable {t t' : FileTree} {place other : Location} {node : Node} {path : String}
  {bytes : List UInt8} {names : List String}

theorem lookup_replaced (entries : List (Location × Node)) (place other : Location) (node : Node) :
    (entries.map fun (p, n) => if p = place then (p, node) else (p, n)).lookup other =
      if other = place then (entries.lookup place).map fun _ => node
      else entries.lookup other := by
  induction entries with
  | nil => simp
  | cons entry entries ih =>
    obtain ⟨p, n⟩ := entry
    rw [List.map_cons, List.lookup_cons, List.lookup_cons]
    by_cases here : p = place
    · subst here
      by_cases same : other = p
      · simp [same]
      · have apart : (other == p) = false := beq_false_of_ne same
        simp [same, ih, List.lookup_cons, apart]
    · by_cases same : other = place
      · subst same
        simp [here, beq_false_of_ne (Ne.symm here), ih]
      · simp [here, same, ih, List.lookup_cons]

theorem lookup_set (t : FileTree) (place other : Location) (node : Node) :
    (t.set place node).entries.lookup other =
      if other = place then some node else t.entries.lookup other := by
  rw [set]
  split
  · next taken =>
    rw [lookup_replaced]
    obtain ⟨old, found⟩ := Option.isSome_iff_exists.mp taken
    rw [found, Option.map_some]
  · next free =>
    rw [List.lookup_append]
    by_cases same : other = place
    · subst same
      simp [Option.not_isSome_iff_eq_none.mp free]
    · have apart : (other == place) = false := beq_false_of_ne same
      simp [same, List.lookup_cons, apart]

/-- What a tree holds with another node at a place. -/
theorem get?_set (below : place.isAbove = false) :
    (t.set place node).get? other = if other = place then some node else t.get? other := by
  rw [get?, get?, lookup_set]
  by_cases same : other = place
  · rw [if_pos same, if_pos same, same, below]
    rfl
  · rw [if_neg same, if_neg same]

/-- Every directory of one tree is a directory of another. -/
def Keeps (t t' : FileTree) : Prop :=
  ∀ place, t.get? place = some .directory → t'.get? place = some .directory

theorem Keeps.refl (t : FileTree) : t.Keeps t :=
  fun _ there => there

theorem Keeps.trans {t'' : FileTree} (first : t.Keeps t') (second : t'.Keeps t'') : t.Keeps t'' :=
  fun place there => second place (first place there)

theorem keeps_set (below : place.isAbove = false) (free : t.get? place ≠ some .directory) :
    t.Keeps (t.set place node) := by
  intro other there
  rw [get?_set below, if_neg]
  · exact there
  · rintro rfl
    exact free there

/-- Whatever one tree holds another holds as well, and what else the other holds has a property. -/
structure Gains (new : Location → Node → Prop) (t t' : FileTree) : Prop where
  kept : ∀ place node, t.get? place = some node → t'.get? place = some node
  fresh : ∀ place node, t'.get? place = some node → t.get? place = some node ∨ new place node

section

variable {new new' : Location → Node → Prop}

theorem Gains.refl (t : FileTree) : t.Gains new t :=
  ⟨fun _ _ there => there, fun _ _ there => .inl there⟩

theorem Gains.trans {t'' : FileTree} (first : t.Gains new t') (second : t'.Gains new t'') :
    t.Gains new t'' := by
  refine ⟨fun place node there => second.kept place node (first.kept place node there), ?_⟩
  intro place node there
  rcases second.fresh place node there with there' | added
  · exact first.fresh place node there'
  · exact .inr added

theorem Gains.mono (gains : t.Gains new t')
    (more : ∀ place node, new place node → new' place node) : t.Gains new' t' :=
  ⟨gains.kept, fun place node there => (gains.fresh place node there).imp_right (more place node)⟩

theorem Gains.keeps (gains : t.Gains new t') : t.Keeps t' :=
  fun place there => gains.kept place .directory there

/-- A node is added where nothing is yet. -/
theorem gains_set (free : t.get? place = none) (added : new place node) :
    t.Gains new (t.set place node) := by
  -- What is above the working directory is always there.
  have below : place.isAbove = false := by
    rw [get?] at free
    split at free
    · cases free
    · next below => exact Bool.eq_false_iff.mpr below
  refine ⟨?_, ?_⟩
  · intro other old there
    rw [get?_set below, if_neg]
    · exact there
    · rintro rfl
      cases free.symm.trans there
  · intro other old there
    rw [get?_set below] at there
    split at there
    · next same =>
      cases there
      exact .inr (same ▸ added)
    · exact .inl there

end

theorem child_eq_ok {name : String} : t.child place name = .ok other ↔
    t.get? place = some .directory ∧
      (if name = "" ∨ name = "." then other = place
      else if name = ".." then
        other = if place.isAbove then place ++ [".."] else place.dropLast
      else name.utf8ByteSize ≤ maxName ∧ other = place ++ [name]) := by
  rw [child]
  split
  · next missing => simp [missing]
  · next found => simp [found]
  · next found =>
    simp only [found, true_and]
    split_ifs with silent up above tooLong
    · rw [Except.ok.injEq, eq_comm]
    · rw [Except.ok.injEq, eq_comm]
    · rw [Except.ok.injEq, eq_comm]
    · exact iff_of_false (by simp) fun fits => Nat.not_le.mpr tooLong fits.1
    · simp [Nat.not_lt.mp tooLong, eq_comm]

theorem Keeps.child {name : String} (keeps : t.Keeps t') (found : t.child place name = .ok other) :
    t'.child place name = .ok other := by
  rw [child_eq_ok] at found ⊢
  exact ⟨keeps place found.1, found.2⟩

/-- A path is followed alike in a tree that keeps the directories. -/
theorem Keeps.follow (keeps : t.Keeps t') (found : t.follow place names = .ok other) :
    t'.follow place names = .ok other := by
  induction names generalizing place with
  | nil => exact found
  | cons name names ih =>
    simp only [FileTree.follow, bind_eq_ok] at found ⊢
    obtain ⟨next, first, rest⟩ := found
    exact ⟨next, keeps.child first, ih rest⟩

theorem follow_append {more : List String} : t.follow place (names ++ more) = .ok other ↔
    ∃ next, t.follow place names = .ok next ∧ t.follow next more = .ok other := by
  induction names generalizing place with
  | nil => simp [follow]
  | cons name names ih =>
    simp only [List.cons_append, follow, bind_eq_ok, ih]
    constructor
    · rintro ⟨middle, first, next, rest, last⟩
      exact ⟨next, ⟨middle, first, rest⟩, last⟩
    · rintro ⟨next, ⟨middle, first, rest⟩, last⟩
      exact ⟨middle, first, next, rest, last⟩

/-- Names that say nothing are stepped over. -/
theorem follow_telling (found : t.follow place names = .ok other) :
    t.follow place (names.filter Path.tells) = .ok other := by
  induction names generalizing place with
  | nil => exact found
  | cons name names ih =>
    simp only [follow, bind_eq_ok] at found
    obtain ⟨next, first, rest⟩ := found
    by_cases telling : Path.tells name = true
    · rw [List.filter_cons_of_pos telling]
      simp only [follow, bind_eq_ok]
      exact ⟨next, first, ih rest⟩
    · rw [List.filter_cons_of_neg telling]
      have silent : name = "" ∨ name = "." := by
        by_contra other
        exact telling (by simpa [Path.tells, not_or] using other)
      rw [child_eq_ok, if_pos silent] at first
      rw [← first.2]
      exact ih rest

/-- What reading a file asks for. -/
theorem read_eq_ok : t.read path = .ok bytes ↔ ∃ names place, route path = .ok names ∧
    t.follow (start path) names = .ok place ∧ t.get? place = some (.file bytes) := by
  simp only [read, find, bind_eq_ok]
  constructor
  · rintro ⟨node, ⟨names, routed, place, found, here⟩, read⟩
    split at here
    · next node' there =>
      cases here
      split at read
      · cases read
        exact ⟨names, place, routed, found, there⟩
      · cases read
    · cases here
  · rintro ⟨names, place, routed, found, there⟩
    refine ⟨.file bytes, ⟨names, routed, place, found, ?_⟩, rfl⟩
    rw [there]
    rfl

theorem route_eq_ok (routed : route path = .ok names) : names = Path.pieces path := by
  simp only [route, refuse_eq_ok, Except.ok.injEq] at routed
  exact routed.2.2.2.symm

theorem child_eq_into {name : String} (found : t.child place name = .ok other) :
    other = place.into name := by
  obtain ⟨_, leads⟩ := child_eq_ok.mp found
  rw [Location.into]
  split_ifs at leads ⊢ with silent up above
  · exact leads
  · exact leads
  · exact leads
  · exact leads.2

/-- Where names lead is told by the names alone. -/
theorem follow_eq_foldl (found : t.follow place names = .ok other) :
    other = names.foldl Location.into place := by
  induction names generalizing place with
  | nil => exact (Except.ok.inj found).symm
  | cons name names ih =>
    simp only [follow, bind_eq_ok] at found
    obtain ⟨next, first, rest⟩ := found
    rw [List.foldl_cons, ← child_eq_into first]
    exact ih rest

theorem eq_place_of_follow (routed : route path = .ok names)
    (found : t.follow (start path) names = .ok place) : place = Path.place path := by
  rw [follow_eq_foldl found, route_eq_ok routed, Path.place]

/-- The name of a place is not that of a directory above. -/
theorem isAbove_append {name : String} (plain : name ≠ "..") :
    Location.isAbove (place ++ [name]) = false := by
  simp [Location.isAbove, plain]

/-- A name leads from a directory to the place of that name in it. -/
theorem follow_name {name : String} (isName : Path.IsName name)
    (found : t.follow place (names ++ [name]) = .ok other) :
    ∃ directory, t.follow place names = .ok directory ∧ other = directory ++ [name] := by
  obtain ⟨directory, first, last⟩ := follow_append.mp found
  refine ⟨directory, first, ?_⟩
  simp only [follow, bind_eq_ok, Except.ok.injEq, exists_eq_right] at last
  obtain ⟨_, there⟩ := child_eq_ok.mp last
  have telling := isName.telling
  simp only [Path.tells, Bool.and_eq_true, bne_iff_ne] at telling
  rw [if_neg (not_or.mpr telling), if_neg isName.inside] at there
  exact there.2

/-- Where something new is to be put under a name: all before the name leads to its directory, and
only slashes stand behind it. -/
theorem target_eq_ok {target : Target} (found : t.target path = .ok target)
    (plain : ¬target.isStanding = true) : ∃ front blank, Path.IsName target.name ∧
      route path = .ok (front ++ target.name :: blank) ∧ blank.filter Path.tells = [] ∧
      (target.slashed = false → blank = []) ∧
      t.follow (start path) front = .ok target.directory := by
  simp only [FileTree.target, bind_eq_ok] at found
  obtain ⟨names, routed, directory, found, here⟩ := found
  have whole := List.takeWhile_append_dropWhile (p := (·.isEmpty)) (l := names.reverse)
  have empty := List.all_takeWhile (p := (·.isEmpty)) (l := names.reverse)
  generalize names.reverse.takeWhile (·.isEmpty) = blank at whole empty
  generalize names.reverse.dropWhile (·.isEmpty) = named at whole found here
  have cut : names = named.reverse ++ blank.reverse := by
    rw [← List.reverse_append, whole, List.reverse_reverse]
  split at here
  · cases here
    simp only [Target.isStanding, Bool.or_eq_true, beq_iff_eq, not_or] at plain
    obtain ⟨⟨notEmpty, notDot⟩, notUp⟩ := plain
    cases last : named.reverse.getLast? with
    | none =>
      rw [last] at notEmpty
      exact absurd rfl notEmpty
    | some name =>
      rw [last, Option.getD_some] at notEmpty notDot notUp
      obtain ⟨front, same⟩ := List.getLast?_eq_some_iff.mp last
      rw [same] at cut found
      rw [List.dropLast_concat] at found
      rw [List.append_assoc, List.singleton_append] at cut
      have member : name ∈ Path.pieces path := by simp [← route_eq_ok routed, cut]
      have isName : Path.IsName name :=
        ⟨by simp [Path.tells, notEmpty, notDot], notUp, Path.not_mem_of_mem_pieces member⟩
      refine ⟨front, blank.reverse, isName, ?_, ?_, ?_, found⟩
      · rw [routed, cut]
        rfl
      · rw [List.filter_eq_nil_iff]
        intro name member
        have empty := List.all_eq_true.mp empty name (List.mem_reverse.mp member)
        simp [Path.tells, String.isEmpty_iff.mp empty]
      · -- A slash at the end is told by the pieces that are dropped there.
        intro unslashed
        have long := of_decide_eq_false unslashed
        rw [same, cut] at long
        simp only [List.length_append, List.length_cons, List.length_nil] at long
        exact List.length_eq_zero_iff.mp (by omega)
  · cases here
  · cases here

/-- Where a file is written: the path ends with a name and leads to it, and no directory is
there. -/
theorem writable_eq_ok (writable : t.writable path = .ok place) :
    ∃ front name, Path.IsName name ∧ route path = .ok (front ++ [name]) ∧
      t.follow (start path) (front ++ [name]) = .ok place ∧ t.get? place ≠ some .directory := by
  simp only [FileTree.writable, bind_eq_ok, refuse_eq_ok] at writable
  obtain ⟨target, found, plain, place', child, writable⟩ := writable
  rw [Bool.or_eq_true, not_or, Bool.not_eq_true] at plain
  obtain ⟨front, blank, isName, routed, _, unslashed, leads⟩ := target_eq_ok found plain.2
  rw [unslashed plain.1] at routed
  split at writable
  · cases writable
  · next free =>
    cases writable
    refine ⟨front, target.name, isName, routed, ?_, fun there => free there⟩
    rw [follow_append]
    refine ⟨target.directory, leads, ?_⟩
    simp only [follow, bind_eq_ok]
    exact ⟨_, child, rfl⟩

/-- What writing a file does: at the place where the path leads, the bytes are there; every other
place is as it was. -/
theorem write_eq_ok (written : t.write path bytes = .ok t') : ∃ names place,
    route path = .ok names ∧ t.follow (start path) names = .ok place ∧
      t.get? place ≠ some .directory ∧ place.isAbove = false ∧ t' = t.set place (.file bytes) := by
  simp only [write, bind_eq_ok] at written
  obtain ⟨place, writable, same⟩ := written
  cases same
  obtain ⟨front, name, isName, routed, found, free⟩ := writable_eq_ok writable
  obtain ⟨directory, _, rfl⟩ := follow_name isName found
  exact ⟨front ++ [name], _, routed, found, free, isAbove_append isName.inside, rfl⟩

theorem keeps_write (written : t.write path bytes = .ok t') : t.Keeps t' := by
  obtain ⟨_, _, _, _, free, below, rfl⟩ := write_eq_ok written
  exact keeps_set below free

/-- A file that was written is read with the bytes that were written. -/
theorem read_stored (written : t.write path bytes = .ok t') : t'.read path = .ok bytes := by
  obtain ⟨names, place, routed, found, free, below, rfl⟩ := write_eq_ok written
  refine read_eq_ok.mpr ⟨names, place, routed, (keeps_set below free).follow found, ?_⟩
  rw [get?_set below, if_pos rfl]

/-- A file is not touched by writing another one beside it. -/
theorem read_beside {dir name other : String} {more : List UInt8} (isName : Path.IsName name)
    (isName' : Path.IsName other) (differ : name ≠ other)
    (readable : t.read (Path.join dir name) = .ok bytes)
    (written : t.write (Path.join dir other) more = .ok t') :
    t'.read (Path.join dir name) = .ok bytes := by
  obtain ⟨names, joined⟩ := Path.exists_pieces_join dir
  obtain ⟨_, place, routed, found, here⟩ := read_eq_ok.mp readable
  obtain ⟨_, place', routed', found', free, below, rfl⟩ := write_eq_ok written
  refine read_eq_ok.mpr ⟨_, place, routed, (keeps_set below free).follow found, ?_⟩
  obtain rfl := route_eq_ok routed
  obtain rfl := route_eq_ok routed'
  rw [start, (joined name isName.plain).1, (joined name isName.plain).2] at found
  rw [start, (joined other isName'.plain).1, (joined other isName'.plain).2] at found'
  obtain ⟨directory, _, rfl⟩ := follow_name isName found
  obtain ⟨directory', _, rfl⟩ := follow_name isName' found'
  rw [get?_set below, if_neg]
  · exact here
  · intro same
    exact differ (List.singleton_inj.mp (List.append_inj_right' same rfl))

theorem read_of_beside {other : String} {more : List UInt8} (beside : Path.Beside path other)
    (readable : t.read path = .ok bytes) (written : t.write other more = .ok t') :
    t'.read path = .ok bytes := by
  obtain ⟨dir, name, name', rfl, rfl, isName, isName', differ⟩ := beside
  exact read_beside isName isName' differ readable written

/-- Where a path leads nothing is, if the path leads to nothing. -/
theorem get?_of_not_contains (missing : t.contains path = false) (routed : route path = .ok names)
    (found : t.follow (start path) names = .ok place) : t.get? place = none := by
  cases there : t.get? place with
  | none => rfl
  | some node =>
    have leads : t.find path = .ok node := by
      simp only [find, bind_eq_ok]
      refine ⟨names, routed, place, found, ?_⟩
      rw [there]
      rfl
    rw [contains, leads] at missing
    cases missing

theorem contains_of_read (readable : t.read path = .ok bytes) : t.contains path = true := by
  simp only [read, bind_eq_ok] at readable
  obtain ⟨node, found, _⟩ := readable
  rw [contains, found]
  rfl

/-- A file that could be read is read with the bytes that were written, under whatever path with
the same telling names. -/
theorem read_of_write {path' : String} {old : List UInt8} (readable : t.read path = .ok old)
    (keeps : t.Keeps t') {t'' : FileTree} (written : t'.write path' bytes = .ok t'')
    (telling : Path.telling path' = Path.telling path)
    (rooted : Path.isAbsolute path' = Path.isAbsolute path) : t''.read path = .ok bytes := by
  obtain ⟨names, place, routed, found, _⟩ := read_eq_ok.mp readable
  obtain ⟨names', place', routed', found', free, below, rfl⟩ := write_eq_ok written
  have keeps' : t'.Keeps (t'.set place' (.file bytes)) := keeps_set below free
  have found₁ := (keeps.trans keeps').follow found
  have found₂ := keeps'.follow found'
  -- Both paths lead to the same place, because they hold the same telling names.
  have same : place = place' := by
    have one := follow_telling found₁
    have two := follow_telling found₂
    obtain rfl := route_eq_ok routed
    obtain rfl := route_eq_ok routed'
    rw [start, rooted, ← start] at two
    change FileTree.follow _ _ (Path.telling path') = _ at two
    rw [telling] at two
    exact Except.ok.inj (one.symm.trans two)
  refine read_eq_ok.mpr ⟨names, place, routed, found₁, ?_⟩
  rw [get?_set below, if_pos same]

/-- Making a directory adds it where the path leads. -/
theorem gains_makeOne (made : t.makeOne path = .ok t') :
    t.Gains (fun place node => node = .directory ∧ place = Path.place path) t' := by
  simp only [makeOne, bind_eq_ok, refuse_eq_ok] at made
  obtain ⟨target, found, plain, place, child, made⟩ := made
  obtain ⟨front, blank, _, routed, silent, _, leads⟩ := target_eq_ok found plain
  split at made
  · cases made
  · next missing =>
    cases made
    refine gains_set missing ⟨rfl, ?_⟩
    rw [Path.place, ← route_eq_ok routed, List.foldl_append, List.foldl_cons,
      Path.foldl_into_silent silent, ← follow_eq_foldl leads, ← child_eq_into child]

theorem gains_ensureOne (made : t.ensureOne path = .ok t') :
    t.Gains (fun place node => node = .directory ∧ place = Path.place path) t' := by
  rw [ensureOne] at made
  split at made
  · next made' =>
    cases made
    exact gains_makeOne made'
  · split at made
    · cases made
      exact .refl t
    · cases made

theorem gains_makeChain {paths : List String} (made : t.makeChain paths = .ok t') :
    t.Gains (fun place node => node = .directory ∧ ∃ path ∈ paths, place = Path.place path) t' := by
  induction paths generalizing t t' with
  | nil =>
    cases made
    exact .refl t
  | cons path above ih =>
    have first : ∀ {t t' : FileTree}, t.ensureOne path = .ok t' →
        t.Gains (fun place node => node = .directory ∧
          ∃ p ∈ path :: above, place = Path.place p) t' := by
      intro t t' made
      apply (gains_ensureOne made).mono
      rintro place node ⟨directory, leads⟩
      exact ⟨directory, path, List.mem_cons_self, leads⟩
    rw [makeChain] at made
    split at made
    · simp only [bind_eq_ok] at made
      obtain ⟨t₁, chained, made⟩ := made
      refine ((ih chained).mono ?_).trans (first made)
      rintro place node ⟨directory, p, member, leads⟩
      exact ⟨directory, p, List.mem_cons_of_mem path member, leads⟩
    · exact first made

/-- Making directories adds directories on the way of the path and nothing else. -/
theorem gains_makeDirectory (made : t.makeDirectory path = .ok t') :
    t.Gains (fun place node => node = .directory ∧ place ∈ Path.way path) t' := by
  rw [makeDirectory] at made
  split at made
  · cases made
    exact .refl t
  · apply (gains_makeChain made).mono
    rintro place node ⟨directory, p, member, rfl⟩
    refine ⟨directory, ?_⟩
    rcases List.mem_cons.mp member with rfl | member
    · exact Path.place_mem_way p
    · exact Path.way_subset_of_mem_above member (Path.place_mem_way p)

end FileTree

end NovelChart
