import Mathlib

/-!
# Runs of a step relation

A run takes its steps one after the other.  What holds in the beginning and is
preserved by every step holds in the end.  A run of steps that are computed
can be computed.
-/

namespace Runs

variable {σ α : Type}

/-- Steps with labels that lead from one state to another. -/
inductive Run (step : σ → α → σ → Prop) : σ → List α → σ → Prop where
  | nil (state : σ) : Run step state [] state
  | snoc {start middle final : σ} {labels : List α} {label : α}
      (run : Run step start labels middle)
      (last : step middle label final) :
      Run step start (labels ++ [label]) final

variable {step : σ → α → σ → Prop}

/-- What all steps with the labels of a run preserve holds in the end. -/
theorem Run.invariant
    {start final : σ} {labels : List α} {holds : σ → Prop}
    (run : Run step start labels final)
    (starts : holds start)
    (preserved :
      ∀ state label next,
        label ∈ labels → holds state → step state label next → holds next) :
    holds final := by
  induction run with
  | nil =>
      exact starts
  | snoc run last inductionHypothesis =>
      apply preserved _ _ _ (List.mem_append_right _ (List.mem_singleton_self _))
        _ last
      apply inductionHypothesis
      intro state label next member
      exact preserved state label next (List.mem_append_left _ member)

/-- A run of steps that are others as well, as long as an invariant holds. -/
theorem Run.transfer
    {step' : σ → α → σ → Prop} {start final : σ} {labels : List α}
    {holds : σ → Prop}
    (run : Run step start labels final)
    (starts : holds start)
    (transfers :
      ∀ state label next,
        holds state → step state label next →
          step' state label next ∧ holds next) :
    Run step' start labels final ∧ holds final := by
  induction run with
  | nil =>
      exact ⟨Run.nil _, starts⟩
  | snoc run last inductionHypothesis =>
      obtain ⟨before, held⟩ := inductionHypothesis
      obtain ⟨last', holds'⟩ := transfers _ _ _ held last
      exact ⟨before.snoc last', holds'⟩

/-- A run is one of another system if every step of it is. -/
theorem Run.simulated
    {τ β : Type} {step' : τ → β → τ → Prop} {start final : σ} {start' : τ}
    {labels : List α} {relabel : α → β} {related : σ → τ → Prop}
    (run : Run step start labels final)
    (starts : related start start')
    (simulates :
      ∀ state state' label next,
        related state state' → step state label next →
          ∃ next',
            step' state' (relabel label) next' ∧ related next next') :
    ∃ final',
      Run step' start' (labels.map relabel) final' ∧
        related final final' := by
  induction run with
  | nil =>
      exact ⟨start', Run.nil _, starts⟩
  | snoc run last inductionHypothesis =>
      obtain ⟨middle', before, relatedBefore⟩ := inductionHypothesis
      obtain ⟨final', last', relatedFinal⟩ :=
        simulates _ _ _ _ relatedBefore last
      refine ⟨final', ?_, relatedFinal⟩
      rw [List.map_append]
      exact before.snoc last'

/-- Steps that are determined by their labels lead to one end. -/
theorem Run.unique
    {start final final' : σ} {labels : List α}
    (functional :
      ∀ state label next next',
        step state label next → step state label next' → next = next')
    (run : Run step start labels final)
    (run' : Run step start labels final') :
    final = final' := by
  induction run generalizing final' with
  | nil =>
      generalize isNil : ([] : List α) = labels at run'
      cases run' with
      | nil =>
          rfl
      | snoc _ _ =>
          exact absurd isNil.symm (List.append_ne_nil_of_right_ne_nil _
            (List.cons_ne_nil _ _))
  | @snoc middle final labels label run last inductionHypothesis =>
      generalize isConcat : labels ++ [label] = labels' at run'
      cases run' with
      | nil =>
          exact absurd isConcat (List.append_ne_nil_of_right_ne_nil _
            (List.cons_ne_nil _ _))
      | snoc run' last' =>
          obtain ⟨rfl, same⟩ := List.append_inj' isConcat rfl
          cases same
          cases inductionHypothesis run'
          exact functional _ _ _ _ last last'

/-- Compute one step after the other. -/
def execute (perform : σ → α → Option σ) (start : σ) (labels : List α) :
    Option σ :=
  labels.foldlM perform start

/-- What has been computed is the end of a run. -/
theorem run_of_execute
    {perform : σ → α → Option σ} {start final : σ} {labels : List α}
    (sound :
      ∀ state label next, perform state label = some next →
        step state label next)
    (executed : execute perform start labels = some final) :
    Run step start labels final := by
  rw [execute] at executed
  induction labels using List.reverseRecOn generalizing final with
  | nil =>
      cases executed
      exact Run.nil start
  | append_singleton labels label inductionHypothesis =>
      rw [List.foldlM_append, Option.bind_eq_bind,
        Option.bind_eq_some_iff] at executed
      obtain ⟨middle, before, last⟩ := executed
      apply Run.snoc (inductionHypothesis before)
      apply sound
      simpa using last

end Runs
