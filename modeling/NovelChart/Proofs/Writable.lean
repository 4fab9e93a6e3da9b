import NovelChart.Proofs.Head
import NovelChart.Proofs.Token

/-!
# When a text block can be written

Canonical tokens leave the encoder nothing to complain about but their characters. The encoder
looks every tag up in the table again, places its attributes again and counts the levels of nesting
again, and on canonical tokens that are not nested too deeply all of this succeeds. What is left
hinges on the characters of the runs and of the text attributes: the block is written when the
encoding can write all of them, and refused for one that it cannot write otherwise.

## Main definitions

* `Token.written`: the characters of runs and text attributes, at every depth
* `Token.depth`: how deeply spans are nested
* `Hinges`: an outcome that depends only on whether characters can be written

## Main results

* `Markup.hinges_encodeTokens`: writing canonical tokens hinges on their characters
* `TextBlock.hinges_encode`: so does writing a block of such tokens
-/

namespace NovelChart

/-! ### Characters and depth of tokens -/

/-- The characters that a value of an attribute has to have written; only texts are written out. -/
def AttrKind.written : AttrKind → String → List Char
  | .str, value => value.toList
  | _, _ => []

/-- The characters of the text attributes of a tag. -/
def Tag.written (tag : Tag) : List Char :=
  match TagSpec.ofName? tag.name with
  | none => []
  | some spec =>
    tag.attrs.flatMap fun (key, value) =>
      match spec.attrs.find? fun a => Text.sameLetters a.name key with
      | none => []
      | some a => a.kind.written value

namespace Token

mutual

/-- The characters of runs and text attributes of a token, its content included. -/
def written : Token → List Char
  | text run => run.toList
  | mark tag => tag.written
  | span tag content => tag.written ++ writtenAll content
  | _ => []

/-- The characters of runs and text attributes of tokens. -/
def writtenAll : List Token → List Char
  | [] => []
  | t :: ts => t.written ++ writtenAll ts

end

mutual

/-- How many spans are nested in a token, itself included. -/
def depth : Token → Nat
  | span _ content => depthAll content + 1
  | _ => 0

/-- How many spans are nested in some token at most. -/
def depthAll : List Token → Nat
  | [] => 0
  | t :: ts => max t.depth (depthAll ts)

end

end Token

/-! ### Outcomes -/

section Outcomes

variable {α β : Type} {e : Encoding} {cs ds : List Char} {m : Except Error α}

/-- The outcome hinges on the characters: it is a success and all of them can be written, or it is
the complaint about one of them that cannot. -/
def Hinges (e : Encoding) (cs : List Char) : Except Error α → Prop
  | .ok _ => ∀ c ∈ cs, (e.encodeChar c).isSome = true
  | .error cause => ∃ c ∈ cs, e.encodeChar c = none ∧ cause = .text (.unencodable c e)

theorem Hinges.ok (x : α) : Hinges e [] (.ok x : Except Error α) := by
  rintro _ ⟨⟩

theorem Hinges.bind {f : α → Except Error β} (first : Hinges e cs m)
    (second : ∀ x, m = .ok x → Hinges e ds (f x)) : Hinges e (cs ++ ds) (m >>= f) := by
  cases m with
  | error cause =>
    obtain ⟨c, member, missing, complaint⟩ := first
    exact ⟨c, List.mem_append_left ds member, missing, complaint⟩
  | ok x =>
    have rest := second x rfl
    change Hinges e (cs ++ ds) (f x)
    cases outcome : f x with
    | ok y =>
      rw [outcome] at rest
      intro c member
      rcases List.mem_append.mp member with front | back
      · exact first c front
      · exact rest c back
    | error cause =>
      rw [outcome] at rest
      obtain ⟨c, member, missing, complaint⟩ := rest
      exact ⟨c, List.mem_append_right cs member, missing, complaint⟩

theorem Hinges.map (hinges : Hinges e cs m) (f : α → β) :
    Hinges e cs (m >>= fun x => pure (f x)) := by
  have both := hinges.bind fun x _ => Hinges.ok (f x)
  rwa [List.append_nil] at both

/-- An outcome that hinges on characters is a success exactly when all can be written. -/
theorem Hinges.exists_ok_iff (hinges : Hinges e cs m) :
    (∃ x, m = .ok x) ↔ ∀ c ∈ cs, (e.encodeChar c).isSome = true := by
  cases m with
  | ok x => exact ⟨fun _ => hinges, fun _ => ⟨x, rfl⟩⟩
  | error cause =>
    obtain ⟨c, member, missing, _⟩ := hinges
    constructor
    · rintro ⟨_, ⟨⟩⟩
    · intro all
      have found := all c member
      rw [missing] at found
      cases found

end Outcomes

/-! ### Texts -/

namespace Encoding

variable (e : Encoding)

theorem hinges_encodeChars (cs : List Char) :
    Hinges e cs ((e.encodeChars cs).mapError Error.text) := by
  induction cs with
  | nil => exact .ok _
  | cons c cs ih =>
    cases found : e.encodeChar c with
    | none =>
      simp only [encodeChars, found]
      exact ⟨c, List.mem_cons_self, found, rfl⟩
    | some bytes =>
      simp only [encodeChars, found]
      cases rest : e.encodeChars cs with
      | ok more =>
        rw [rest] at ih
        intro d member
        rcases List.mem_cons.mp member with rfl | later
        · rw [found, Option.isSome_some]
        · exact ih d later
      | error fault =>
        rw [rest] at ih
        obtain ⟨d, member, missing, complaint⟩ := ih
        exact ⟨d, List.mem_cons_of_mem c member, missing, complaint⟩

theorem hinges_write (s : String) : Hinges e s.toList (e.write s) :=
  e.hinges_encodeChars s.toList

end Encoding

/-! ### Tags -/

namespace TagSpec

/-- Every attribute of a row is found by its name, without its place. -/
theorem find?_attr : ∀ spec ∈ table, ∀ a ∈ spec.attrs,
    (spec.attrs.find? fun b => Text.sameLetters b.name a.name) = some a := by
  decide

end TagSpec

open AttrEntry in
/-- The characters of a canonical tag are those of its entries. -/
theorem Tag.written_named {spec : TagSpec} {given : List AttrEntry}
    (member : spec ∈ TagSpec.table) (inside : ∀ entry ∈ given, entry.1 ∈ spec.attrs.zipIdx) :
    Tag.written ⟨spec.name, named given⟩ =
      given.flatMap fun entry => entry.1.1.kind.written entry.2 := by
  rw [Tag.written]
  simp only [TagSpec.ofName?_name spec member, named, List.flatMap_map]
  refine List.flatMap_congr fun entry listed => ?_
  have attr := List.fst_mem_of_mem_zipIdx (inside entry listed)
  simp only [TagSpec.find?_attr spec member entry.1.1 attr]

namespace Markup

open AttrEntry

variable (e : Encoding)

theorem hinges_encodeAttr {spec : TagSpec} {a : AttrSpec} {value : String}
    (member : spec ∈ TagSpec.table) (attr : a ∈ spec.attrs) (canon : a.kind.IsCanonical value)
    (tag : String) : Hinges e (a.kind.written value) (encodeAttr e tag a value) := by
  obtain ⟨name, kind⟩ := a
  cases kind with
  | int =>
    obtain ⟨n, rfl⟩ := canon
    simp only [encodeAttr, AttrSpec.int?_int32]
    exact .ok _
  | str => exact (e.hinges_write value).map _
  | word words =>
    obtain ⟨i, listed⟩ := List.getElem?_of_mem canon
    obtain ⟨_, found⟩ := TagSpec.findIdx?_word member attr rfl listed
    simp only [encodeAttr, found]
    exact .ok _

theorem hinges_encodeAttrs {spec : TagSpec} {given : List AttrEntry}
    (member : spec ∈ TagSpec.table) (inside : ∀ entry ∈ given, entry.1 ∈ spec.attrs.zipIdx)
    (canon : ∀ entry ∈ given, entry.1.1.kind.IsCanonical entry.2) (tag : String) :
    Hinges e (given.flatMap fun entry => entry.1.1.kind.written entry.2)
      (encodeAttrs e tag (valued given)) := by
  induction given with
  | nil => exact .ok _
  | cons entry given ih =>
    have attr := List.fst_mem_of_mem_zipIdx (inside entry List.mem_cons_self)
    have first := hinges_encodeAttr e member attr (canon entry List.mem_cons_self) tag
    have rest := ih (fun entry listed => inside entry (List.mem_cons_of_mem _ listed))
      fun entry listed => canon entry (List.mem_cons_of_mem _ listed)
    exact first.bind fun _ _ => rest.map _

/-- Writing the head of a canonical tag hinges on the characters of its text attributes. -/
theorem hinges_encodeHead {tag : Tag} {spec : TagSpec} (canon : tag.IsCanonical spec) :
    Hinges e tag.written (encodeHead e tag spec.paired) := by
  have member := canon.1
  obtain ⟨given, sublist, values, rfl⟩ := canon.entries
  have inside : ∀ entry ∈ given, entry.1 ∈ spec.attrs.zipIdx := fun entry listed =>
    sublist.subset (List.mem_map_of_mem listed)
  rw [encodeHead_named member sublist, encodePlaced, Tag.written_named member inside]
  cases code : spec.code with
  | brk kind =>
    obtain rfl := eq_nil_of_brk member code inside
    exact .ok _
  | tag code =>
    simp only [TagSpec.arrange_eq_valued, TagSpec.entries_placed sublist]
    exact (hinges_encodeAttrs e member inside values _).map _

/-! ### Tokens -/

theorem hinges_encodeRun (run : List Char) : Hinges e run (encodeRun e run) := by
  induction run with
  | nil => exact .ok _
  | cons c run ih =>
    have first := e.hinges_write (String.singleton c)
    rw [String.toList_singleton] at first
    exact first.bind fun _ _ => ih.map _

mutual

/-- Writing a canonical token hinges on its characters, if it is not nested too deeply. -/
theorem hinges_encodeToken (depth : Nat) (t : Token) (canon : t.IsCanonical)
    (shallow : depth + t.depth ≤ maxDepth) : Hinges e t.written (encodeToken e depth t) := by
  cases t with
  | text run =>
    rw [encodeToken, Token.written]
    exact (hinges_encodeRun e _).map _
  | lineBreak => exact .ok _
  | pageBreak => exact .ok _
  | comment body => exact .ok _
  | mark tag =>
    obtain ⟨spec, canon, single⟩ := canon
    rw [encodeToken, Token.written, ← single]
    exact (hinges_encodeHead e canon).map _
  | span tag content =>
    obtain ⟨⟨spec, canon, paired⟩, contents⟩ := canon
    rw [Token.depth] at shallow
    rw [encodeToken, Token.written, ← paired]
    refine (hinges_encodeHead e canon).bind fun _ _ => ?_
    rw [if_neg (by omega)]
    exact (hinges_encodeTokens (depth + 1) content contents (by omega)).map _

/-- Writing canonical tokens hinges on their characters, if they are not nested too deeply. -/
theorem hinges_encodeTokens (depth : Nat) (ts : List Token) (canon : Token.AllCanonical ts)
    (shallow : depth + Token.depthAll ts ≤ maxDepth) :
    Hinges e (Token.writtenAll ts) (encodeTokens e depth ts) := by
  cases ts with
  | nil => exact .ok _
  | cons t ts =>
    obtain ⟨first, _, rest⟩ := canon
    rw [Token.depthAll] at shallow
    rw [encodeTokens, Token.writtenAll]
    exact (hinges_encodeToken depth t first (by omega)).bind fun _ _ =>
      (hinges_encodeTokens depth ts rest (by omega)).map _

end

end Markup

/-- Writing a block of canonical tokens hinges on their characters. -/
theorem TextBlock.hinges_encode (e : Encoding) {block : TextBlock}
    (low : block.version.toNat ≤ 999) (canon : Token.AllCanonical block.tokens)
    (shallow : Token.depthAll block.tokens ≤ maxDepth) :
    Hinges e (Token.writtenAll block.tokens) (block.encode e) := by
  rw [TextBlock.encode, if_neg (by omega)]
  exact (Markup.hinges_encodeTokens e 0 _ canon (by omega)).map _

end NovelChart
