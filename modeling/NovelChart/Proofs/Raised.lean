import NovelChart.Markup.Block

/-!
# What can go wrong in writing

Writing fails for different causes, and a caller wants to know which of them are ruled out. `Raises`
bounds the causes of an outcome by a condition, and passes through a sequence of computations when
both halves keep to it. A text block, whatever its tokens are, is refused only for a character that
the encoding cannot write or for its markup: the block knows nothing of commands and their schemas.

## Main definitions

* `Raises`: every error that an outcome can be meets a condition
* `Error.OfText`: errors about characters and markup

## Main results

* `Raises.bind`: a sequence of computations keeps to the condition when its parts do
* `TextBlock.raises_encode`: a text block is refused for its characters or its markup
-/

namespace NovelChart

/-! ### Outcomes -/

section Outcomes

variable {α β : Type} {P : Error → Prop} {m : Except Error α} {cause : Error}

/-- If the outcome is an error, its cause meets the condition. -/
def Raises (P : Error → Prop) (m : Except Error α) : Prop :=
  ∀ cause, m = .error cause → P cause

theorem Raises.ok (x : α) : Raises P (.ok x : Except Error α) := by
  rintro _ ⟨⟩

theorem raises_error : Raises P (.error cause : Except Error α) ↔ P cause := by
  constructor
  · intro raises
    exact raises cause rfl
  · rintro holds _ ⟨⟩
    exact holds

/-- The second computation has to keep to the condition only on what the first makes. -/
theorem Raises.bind {f : α → Except Error β} (first : Raises P m)
    (second : ∀ x, m = .ok x → Raises P (f x)) : Raises P (m >>= f) := by
  cases m with
  | ok x => exact second x rfl
  | error cause => exact raises_error.mpr (raises_error.mp first)

/-- What is done last with a result cannot fail. -/
theorem Raises.map (raises : Raises P m) (f : α → β) :
    Raises P (m >>= fun x => pure (f x)) :=
  raises.bind fun x _ => .ok (f x)

end Outcomes

/-! ### Text blocks -/

/-- The error is about a character or about markup. -/
inductive Error.OfText : Error → Prop
  | text (fault : TextFault) : OfText (.text fault)
  | tag (name : String) (fault : TagFault) : OfText (.tag name fault)

open Error (OfText)

theorem raises_tag {α : Type} (name : String) (fault : TagFault) :
    Raises OfText (.error (.tag name fault) : Except Error α) :=
  raises_error.mpr (.tag name fault)

theorem Encoding.raises_write (e : Encoding) (s : String) : Raises OfText (e.write s) := by
  rw [Encoding.write]
  cases e.encode s with
  | ok bytes => exact .ok bytes
  | error fault => exact raises_error.mpr (.text fault)

namespace Markup

variable (e : Encoding)

theorem raises_encodeAttr (tag : String) (a : AttrSpec) (value : String) :
    Raises OfText (encodeAttr e tag a value) := by
  rw [encodeAttr]
  split
  · split
    · exact .ok _
    · exact raises_tag _ _
  · exact (e.raises_write value).map _
  · split
    · exact .ok _
    · exact raises_tag _ _

theorem raises_encodeAttrs (tag : String) (placed : List (AttrSpec × String)) :
    Raises OfText (encodeAttrs e tag placed) := by
  induction placed with
  | nil => exact .ok _
  | cons attr placed ih =>
    exact (raises_encodeAttr e tag attr.1 attr.2).bind fun _ _ => ih.map _

theorem raises_encodeHead (tag : Tag) (paired : Bool) :
    Raises OfText (encodeHead e tag paired) := by
  rw [encodeHead]
  split
  · exact raises_tag _ _
  · split
    · exact raises_tag _ _
    · split
      · exact raises_tag _ _
      · rw [encodePlaced]
        split
        · split
          · exact .ok _
          · exact raises_tag _ _
        · exact (raises_encodeAttrs e _ _).map _

theorem raises_encodeRun (run : List Char) : Raises OfText (encodeRun e run) := by
  induction run with
  | nil => exact .ok _
  | cons c run ih => exact (e.raises_write _).bind fun _ _ => ih.map _

mutual

theorem raises_encodeToken (depth : Nat) (t : Token) : Raises OfText (encodeToken e depth t) := by
  cases t with
  | text run =>
    rw [encodeToken]
    exact (raises_encodeRun e _).map _
  | lineBreak => exact .ok _
  | pageBreak => exact .ok _
  | comment text => exact .ok _
  | mark tag =>
    rw [encodeToken]
    exact (raises_encodeHead e tag _).map _
  | span tag content =>
    rw [encodeToken]
    refine (raises_encodeHead e tag _).bind fun _ _ => ?_
    split
    · exact raises_tag _ _
    · exact (raises_encodeTokens (depth + 1) content).map _

theorem raises_encodeTokens (depth : Nat) (ts : List Token) :
    Raises OfText (encodeTokens e depth ts) := by
  cases ts with
  | nil => exact .ok _
  | cons t ts =>
    rw [encodeTokens]
    exact (raises_encodeToken depth t).bind fun _ _ => (raises_encodeTokens depth ts).map _

end

end Markup

/-- A text block is refused for its characters or its markup. -/
theorem TextBlock.raises_encode (e : Encoding) (block : TextBlock) :
    Raises OfText (block.encode e) := by
  rw [TextBlock.encode]
  split
  · exact raises_tag _ _
  · exact (Markup.raises_encodeTokens e 0 _).map _

end NovelChart
