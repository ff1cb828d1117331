import Mathlib

/-!
# Loops with a bound on their rounds

A loop takes its rounds one after the other until one of them stops it.  Where
a loop with a bound ends, its rounds have led to a state at which one round
stops it; and what is said about such states does not depend on the bound.
-/

namespace Loops

variable {σ ρ ε : Type}

/-- What one round leads to. -/
inductive Outcome (σ ρ : Type) where
  | stop (result : ρ)
  | next (state : σ)
  deriving Repr, DecidableEq

/-- Take rounds, at most as many as the bound allows. -/
def iterate (round : σ → Except ε (Outcome σ ρ)) (outOfFuel : ε) :
    Nat → σ → Except ε ρ
  | 0, _ => .error outOfFuel
  | fuel + 1, state =>
      match round state with
      | .error fault => .error fault
      | .ok (.stop result) => .ok result
      | .ok (.next state) => iterate round outOfFuel fuel state

/-- One round leads from a state to another. -/
def Goes (round : σ → Except ε (Outcome σ ρ)) (state next : σ) : Prop :=
  round state = .ok (.next next)

/-- The rounds of a loop lead from a state to another. -/
abbrev Comes (round : σ → Except ε (Outcome σ ρ)) : σ → σ → Prop :=
  Relation.ReflTransGen (Goes round)

section Rounds

variable {round : σ → Except ε (Outcome σ ρ)} {outOfFuel : ε}
variable {start middle final : σ} {result : ρ} {fuel : Nat}

/-- A round that is taken leaves the rest of the loop. -/
theorem iterate_of_goes (goes : Goes round start middle) :
    iterate round outOfFuel (fuel + 1) start =
      iterate round outOfFuel fuel middle := by
  rw [iterate, goes]

/-- A round that stops ends the loop. -/
theorem iterate_of_stop (stops : round start = .ok (.stop result)) :
    iterate round outOfFuel (fuel + 1) start = .ok result := by
  rw [iterate, stops]

/-- A loop that ends has come to a round that stops it. -/
theorem stop_of_iterate
    (ends : iterate round outOfFuel fuel start = .ok result) :
    ∃ last, Comes round start last ∧ round last = .ok (.stop result) := by
  induction fuel generalizing start with
  | zero =>
      cases ends
  | succ fuel inductionHypothesis =>
      cases outcome : round start with
      | error fault =>
          rw [iterate, outcome] at ends
          cases ends
      | ok outcome' =>
          cases outcome' with
          | stop stopped =>
              rw [iterate_of_stop outcome] at ends
              cases ends
              exact ⟨start, .refl, outcome⟩
          | next state =>
              rw [iterate_of_goes outcome] at ends
              obtain ⟨last, comes, stops⟩ := inductionHypothesis ends
              exact ⟨last, .head outcome comes, stops⟩

/-- A loop that comes to a round that stops ends there. -/
theorem iterate_of_comes
    (comes : Comes round start final)
    (stops : round final = .ok (.stop result)) :
    ∃ fuel, iterate round outOfFuel fuel start = .ok result := by
  induction comes using Relation.ReflTransGen.head_induction_on with
  | refl =>
      exact ⟨1, iterate_of_stop stops⟩
  | head goes _ inductionHypothesis =>
      obtain ⟨fuel, ends⟩ := inductionHypothesis
      exact ⟨fuel + 1, (iterate_of_goes goes).trans ends⟩

/-- Where a number of rounds lead to. -/
def rounds (round : σ → Except ε (Outcome σ ρ)) : Nat → σ → Option σ
  | 0, state => some state
  | count + 1, state =>
      match round state with
      | .ok (.next state) => rounds round count state
      | _ => none

/-- What is computed round by round is what the loop comes to. -/
theorem comes_of_rounds
    {count : Nat}
    (computed : rounds round count start = some final) :
    Comes round start final := by
  induction count generalizing start with
  | zero =>
      cases computed
      exact .refl
  | succ count inductionHypothesis =>
      rw [rounds] at computed
      split at computed
      next state goes =>
        exact .head goes (inductionHypothesis computed)
      next =>
        cases computed

/-- What the loop comes to is computed round by round. -/
theorem rounds_of_comes
    (comes : Comes round start final) :
    ∃ count, rounds round count start = some final := by
  induction comes using Relation.ReflTransGen.head_induction_on with
  | refl =>
      exact ⟨0, rfl⟩
  | head goes _ inductionHypothesis =>
      obtain ⟨count, computed⟩ := inductionHypothesis
      refine ⟨count + 1, ?_⟩
      rw [rounds, goes]
      exact computed

/-- Rounds that cannot all be taken. -/
theorem rounds_none_of_le
    {count more : Nat}
    (fewer : count ≤ more)
    (cut : rounds round count start = none) :
    rounds round more start = none := by
  induction count generalizing start more with
  | zero =>
      cases cut
  | succ count inductionHypothesis =>
      obtain ⟨more, rfl⟩ := Nat.exists_eq_add_of_le' fewer
      rw [← Nat.add_assoc, rounds]
      rw [rounds] at cut
      split
      next state goes =>
        rw [goes] at cut
        exact inductionHypothesis (Nat.le_of_succ_le_succ fewer) cut
      next =>
        rfl

/-- What a loop comes to lies before the round that stops it. -/
theorem comes_last
    (comes : Comes round start middle)
    (comesLast : Comes round start final)
    (stops : round final = .ok (.stop result)) :
    Comes round middle final := by
  induction comes using Relation.ReflTransGen.head_induction_on with
  | refl =>
      exact comesLast
  | head goes _ inductionHypothesis =>
      apply inductionHypothesis
      rcases Relation.ReflTransGen.cases_head comesLast with
        same | ⟨next, goes', comesLast⟩
      · rw [same] at goes
        cases goes.symm.trans stops
      · cases goes.symm.trans goes'
        exact comesLast

/-- What every round preserves holds of all states a loop comes to. -/
theorem invariant
    {holds : σ → Prop}
    (comes : Comes round start final)
    (starts : holds start)
    (preserved :
      ∀ state next, holds state → Goes round state next → holds next) :
    holds final := by
  induction comes with
  | refl =>
      exact starts
  | tail _ goes inductionHypothesis =>
      exact preserved _ _ inductionHypothesis goes

end Rounds

/--
Steps that make a measure smaller until a goal is reached do reach it, if the
measure cannot become smaller for ever.
-/
theorem reaches_of_accessible
    {τ : Type} {less : τ → τ → Prop}
    {step : σ → σ → Prop} {goal : σ → Prop} {start : σ}
    (measure : σ → τ)
    (accessible : Acc less (measure start))
    (progresses :
      ∀ state, Relation.ReflTransGen step start state →
        goal state ∨
          ∃ next, step state next ∧ less (measure next) (measure state)) :
    ∃ final, Relation.ReflTransGen step start final ∧ goal final := by
  generalize isMeasure : measure start = size at accessible
  induction accessible generalizing start with
  | intro size _ inductionHypothesis =>
      subst isMeasure
      rcases progresses start .refl with reached | ⟨next, goes, smaller⟩
      · exact ⟨start, .refl, reached⟩
      · obtain ⟨final, comes, reached⟩ :=
          inductionHypothesis (measure next) smaller
            (fun state comes => progresses state (.head goes comes)) rfl
        exact ⟨final, .head goes comes, reached⟩

/-- Steps that make a number smaller until a goal is reached do reach it. -/
theorem reaches_of_decreasing
    {step : σ → σ → Prop} {goal : σ → Prop} {start : σ}
    (measure : σ → Nat)
    (progresses :
      ∀ state, Relation.ReflTransGen step start state →
        goal state ∨ ∃ next, step state next ∧ measure next < measure state) :
    ∃ final, Relation.ReflTransGen step start final ∧ goal final :=
  reaches_of_accessible measure (wellFounded_lt.apply _) progresses

end Loops
