import Mathlib

/-!
# Transducers

A machine reads its input symbol by symbol.  It writes while it reads, and once
more where the input ends.
-/

/-- A machine with states in `σ` that reads `α` and writes `β`. -/
structure Transducer (σ α β : Type) where
  step : σ → α → σ × List β
  /-- What is written at the end of the input. -/
  finish : σ → List β

namespace Transducer

variable {σ α β : Type}

/-- What a machine writes for the rest of its input. -/
def output (machine : Transducer σ α β) : σ → List α → List β
  | state, [] => machine.finish state
  | state, symbol :: input =>
      (machine.step state symbol).2 ++
        output machine (machine.step state symbol).1 input

/-- Where a machine is behind a part of its input, and what it has written. -/
def run (machine : Transducer σ α β) : σ → List α → σ × List β
  | state, [] => (state, [])
  | state, symbol :: input =>
      ((run machine (machine.step state symbol).1 input).1,
        (machine.step state symbol).2 ++
          (run machine (machine.step state symbol).1 input).2)

variable {machine : Transducer σ α β}

theorem output_cons (state : σ) (symbol : α) (input : List α) :
    machine.output state (symbol :: input) =
      (machine.step state symbol).2 ++
        machine.output (machine.step state symbol).1 input :=
  rfl

/-- A symbol whose step is known. -/
theorem output_of_step
    {state later : σ} {symbol : α} {written : List β}
    (steps : machine.step state symbol = (later, written))
    (input : List α) :
    machine.output state (symbol :: input) =
      written ++ machine.output later input := by
  rw [output_cons, steps]

/-- A run goes on with the next symbol. -/
theorem run_of_step
    {state later last : σ} {symbol : α} {input : List α}
    {written more : List β}
    (steps : machine.step state symbol = (later, written))
    (runs : machine.run later input = (last, more)) :
    machine.run state (symbol :: input) = (last, written ++ more) := by
  rw [run, steps, runs]

/-- Runs one after the other. -/
theorem run_append
    {state middle last : σ} {first second : List α}
    {written more : List β}
    (before : machine.run state first = (middle, written))
    (after : machine.run middle second = (last, more)) :
    machine.run state (first ++ second) = (last, written ++ more) := by
  induction first generalizing state written with
  | nil =>
      cases before
      exact after
  | cons symbol first inductionHypothesis =>
      cases before
      rw [List.cons_append, run, inductionHypothesis rfl,
        List.append_assoc]

/-- A part of the input that has been read leaves the rest. -/
theorem output_of_run
    {state later : σ} {input : List α} {written : List β}
    (runs : machine.run state input = (later, written))
    (rest : List α) :
    machine.output state (input ++ rest) =
      written ++ machine.output later rest := by
  induction input generalizing state written with
  | nil =>
      cases runs
      rfl
  | cons symbol input inductionHypothesis =>
      cases runs
      rw [List.cons_append, output_cons, inductionHypothesis rfl,
        List.append_assoc]

/--
What is written first from the states of a set: such a state is kept as long as
nothing is written.
-/
theorem first_of_kept
    {kept : σ → Prop} {allowed : β → Prop}
    (steps :
      ∀ state symbol, kept state →
        (machine.step state symbol).2 = [] ∧
            kept (machine.step state symbol).1 ∨
          ∃ first rest,
            (machine.step state symbol).2 = first :: rest ∧ allowed first)
    (ends :
      ∀ state, kept state →
        ∀ first ∈ (machine.finish state).head?, allowed first)
    {state : σ} (isKept : kept state) (input : List α) :
    ∀ first ∈ (machine.output state input).head?, allowed first := by
  induction input generalizing state with
  | nil =>
      exact ends state isKept
  | cons symbol input inductionHypothesis =>
      rw [output_cons]
      rcases steps state symbol isKept with
        ⟨silent, stays⟩ | ⟨first, rest, writes, isAllowed⟩
      · rw [silent]
        exact inductionHypothesis stays
      · rw [writes]
        intro other same
        cases same
        exact isAllowed

/-- What is written holds if every step keeps to it. -/
theorem forall_output
    {holds : σ → Prop} {read : α → Prop} {allowed : β → Prop}
    (steps :
      ∀ state symbol, holds state → read symbol →
        holds (machine.step state symbol).1 ∧
          ∀ written ∈ (machine.step state symbol).2, allowed written)
    (ends :
      ∀ state, holds state →
        ∀ written ∈ machine.finish state, allowed written)
    {state : σ} (starts : holds state) {input : List α}
    (all : ∀ symbol ∈ input, read symbol) :
    ∀ written ∈ machine.output state input, allowed written := by
  induction input generalizing state with
  | nil =>
      exact ends state starts
  | cons symbol input inductionHypothesis =>
      obtain ⟨first, others⟩ := List.forall_mem_cons.mp all
      obtain ⟨next, here⟩ := steps state symbol starts first
      intro written member
      rw [output_cons, List.mem_append] at member
      rcases member with now | later
      · exact here written now
      · exact inductionHypothesis next others written later

end Transducer
