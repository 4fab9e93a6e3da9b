import NovelChart.Proofs.Tag

/-!
# Runs of text in token lists

A run of text is stored character by character and put together again from its characters. Broken
into *units*, a run is one token per character; gathering joins neighbouring runs. Where no run is
empty and no two runs are neighbours, gathering the units restores the tokens.

## Main definitions

* `Token.units`, `Token.gather`: runs taken apart and put together
* `Token.AllCanonical`: the tokens are spelled as the table spells them, with no run that could be
  shorter or joined to its neighbour
* `Token.anyComment`: some token, at any depth, is a comment

## Main results

* `Token.allCanonical_append`: when canonical tokens may stand side by side
* `Token.gather_units`: canonical tokens are gathered from their units
-/

namespace NovelChart.Token

/-- Neighbouring runs of text joined into one. -/
def gather (units : List Token) : List Token :=
  units.foldr join []

/-- A run of text as one token per character; any other token as it is. -/
def units : Token → List Token
  | text run => run.toList.map fun c => text (String.singleton c)
  | t => [t]

mutual

/-- The token is spelled as the table spells it, and holds nothing that is spelled otherwise. -/
def IsCanonical : Token → Prop
  | text run => run ≠ ""
  | lineBreak => True
  | pageBreak => True
  | comment body => ∀ c ∈ body.toList, c ≠ '\r' ∧ c ≠ '\n'
  | mark tag => ∃ spec, tag.IsCanonical spec ∧ spec.paired = false
  | span tag content => (∃ spec, tag.IsCanonical spec ∧ spec.paired = true) ∧ AllCanonical content

/-- All tokens are canonical, and no run of text follows another. -/
def AllCanonical : List Token → Prop
  | [] => True
  | t :: ts => t.IsCanonical ∧ (t.isText = true → ∀ u ∈ ts.head?, u.isText = false) ∧
      AllCanonical ts

end

mutual

/-- Whether the token is a comment or encloses one. -/
def hasComment : Token → Bool
  | comment _ => true
  | span _ content => anyComment content
  | _ => false

/-- Whether some token is a comment or encloses one. -/
def anyComment : List Token → Bool
  | [] => false
  | t :: ts => t.hasComment || anyComment ts

end

/-- Canonical tokens side by side are canonical unless two runs of text meet. -/
theorem allCanonical_append {ts us : List Token} : AllCanonical (ts ++ us) ↔
    AllCanonical ts ∧ AllCanonical us ∧
      ∀ t ∈ ts.getLast?, t.isText = true → ∀ u ∈ us.head?, u.isText = false := by
  induction ts with
  | nil => simp [AllCanonical]
  | cons t ts ih =>
    cases ts with
    | nil =>
      simp only [List.singleton_append, AllCanonical, List.getLast?_singleton, Option.mem_def,
        Option.some.injEq, forall_eq']
      simp [and_comm]
    | cons v ts =>
      rw [List.cons_append, AllCanonical, ih]
      simp only [AllCanonical, List.cons_append, List.head?_cons, List.getLast?_cons_cons,
        and_assoc]

theorem anyComment_append (ts us : List Token) :
    anyComment (ts ++ us) = (anyComment ts || anyComment us) := by
  induction ts with
  | nil => rfl
  | cons t ts ih => rw [List.cons_append, anyComment, ih, anyComment, Bool.or_assoc]

/-- Tokens that are not both runs of text stay apart. -/
theorem join_of_apart {t : Token} {ts : List Token}
    (apart : t.isText = true → ∀ u ∈ ts.head?, u.isText = false) : t.join ts = t :: ts := by
  cases t with
  | text run =>
    cases ts with
    | nil => rfl
    | cons u ts =>
      have plain := apart rfl u rfl
      cases u with
      | text other => cases plain
      | _ => rfl
  | _ => rfl

/-- Characters are gathered in front of what is no run of text. -/
theorem foldr_join_chars {cs : List Char} {ts : List Token} (filled : cs ≠ [])
    (plain : ∀ u ∈ ts.head?, u.isText = false) :
    (cs.map fun c => text (String.singleton c)).foldr join ts = text (String.ofList cs) :: ts := by
  induction cs with
  | nil => exact absurd rfl filled
  | cons c cs ih =>
    rw [List.map_cons, List.foldr_cons, String.singleton_eq_ofList]
    cases cs with
    | nil => exact join_of_apart fun _ => plain
    | cons d cs =>
      rw [ih (List.cons_ne_nil _ _), join, ← String.ofList_append]
      rfl

/-- Canonical tokens are gathered from their units. -/
theorem gather_units {ts : List Token} (canon : AllCanonical ts) :
    gather (ts.flatMap units) = ts := by
  induction ts with
  | nil => rfl
  | cons t ts ih =>
    obtain ⟨first, apart, rest⟩ := canon
    have later : (ts.flatMap units).foldr join [] = ts := ih rest
    rw [gather, List.flatMap_cons, List.foldr_append, later]
    cases t with
    | text run =>
      have filled : run.toList ≠ [] := fun empty => first (String.toList_eq_nil_iff.mp empty)
      rw [units, foldr_join_chars filled (apart rfl), String.ofList_toList]
    | _ => exact join_of_apart apart

end NovelChart.Token
