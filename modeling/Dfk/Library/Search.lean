import Mathlib.Order.Basic

/-!
# The first place with a property

A search goes through the places one after the other, and ends at the first
one with a property, or finds that there is none.
-/

namespace Search

variable {holds : Nat → Prop} {result result' : Option Nat}

/-- The first place with a property, or none if no place has it. -/
def Finds (holds : Nat → Prop) : Option Nat → Prop
  | some place => holds place ∧ ∀ earlier, earlier < place → ¬ holds earlier
  | none => ∀ place, ¬ holds place

/-- There is only one first place. -/
theorem Finds.unique
    (finds : Finds holds result)
    (finds' : Finds holds result') :
    result = result' := by
  cases result with
  | none =>
      cases result' with
      | none => rfl
      | some place => exact absurd finds'.1 (finds place)
  | some place =>
      cases result' with
      | none => exact absurd finds.1 (finds' place)
      | some place' =>
          rcases Nat.lt_trichotomy place place' with before | same | behind
          · exact absurd finds.1 (finds'.2 place before)
          · exact congrArg some same
          · exact absurd finds'.1 (finds.2 place' behind)

/-- A place with the property, behind places without it. -/
theorem finds_here
    {place : Nat}
    (here : holds place)
    (passed : ∀ earlier, earlier < place → ¬ holds earlier) :
    Finds holds (some place) :=
  ⟨here, passed⟩

/-- No place up to a bound has the property, and none behind it can. -/
theorem finds_none
    {bound : Nat}
    (passed : ∀ earlier, earlier < bound → ¬ holds earlier)
    (bounded : ∀ place, holds place → place < bound) :
    Finds holds none := by
  intro place here
  exact passed place (bounded place here) here

/-- One place more has been passed. -/
theorem passed_succ
    {place : Nat}
    (passed : ∀ earlier, earlier < place → ¬ holds earlier)
    (notHere : ¬ holds place) :
    ∀ earlier, earlier < place + 1 → ¬ holds earlier := by
  intro earlier before
  rcases Nat.lt_succ_iff_lt_or_eq.mp before with less | same
  · exact passed earlier less
  · rw [same]
    exact notHere

end Search
