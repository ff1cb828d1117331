import Dfk.Scheduler.Source

/-!
# Loops over fibers

A broadcast resumes one fiber after the other, and so does the event loop.
What is preserved by resuming one of them is preserved by the loop.
-/

namespace Dfk.Scheduler

variable {ι μ κ : Type}
variable {state : State ι μ κ} {cond : κ}

/-- A fiber that waited for a descriptor is resumed like any other. -/
theorem ioresume_eq (state : State ι μ κ) (fiber : ι) :
    ioresume state fiber =
      resume { state with iowait := state.iowait - 1 } fiber :=
  rfl

section Conditions

variable [DecidableEq κ]

/-- A broadcast is a signal and another broadcast, if anyone waits. -/
theorem condBroadcast_cons
    {first : ι} {waitqueue : List ι}
    (waiting : state.conds cond = first :: waitqueue) :
    condBroadcast state cond = condBroadcast (condSignal state cond) cond := by
  have signalled :
      condSignal state cond =
        resume ((state.setCond cond waitqueue).emit [.woken cond first])
          first := by
    rw [condSignal, waiting]
  have left : (condSignal state cond).conds cond = waitqueue := by
    rw [signalled]
    simp [resume, State.emit, State.setCond]
  have overwritten :
      (condSignal state cond).setCond cond [] =
        resume ((state.setCond cond []).emit [.woken cond first]) first := by
    rw [signalled]
    simp only [resume, State.emit, State.setCond]
    congr 1
    funext query
    by_cases same : query = cond
    · simp [same]
    · simp [same]
  rw [condBroadcast, condBroadcast, waiting, left, overwritten, wakeAll]

/-- A broadcast that nobody waits for. -/
theorem condBroadcast_nil
    (waiting : state.conds cond = []) :
    condBroadcast state cond = state := by
  have unchanged : state.setCond cond [] = state := by
    rw [State.setCond]
    congr 1
    funext query
    by_cases same : query = cond
    · simp [same, waiting]
    · simp [same]
  rw [condBroadcast, waiting, wakeAll, unchanged]

/-- A broadcast preserves what every signal preserves. -/
theorem condBroadcast_preserves
    {holds : State ι μ κ → Prop}
    (signal : ∀ state, holds state → holds (condSignal state cond)) :
    ∀ {state : State ι μ κ}, holds state → holds (condBroadcast state cond) := by
  intro state start
  induction waiting : state.conds cond generalizing state with
  | nil =>
      rw [condBroadcast_nil waiting]
      exact start
  | cons first waitqueue inductionHypothesis =>
      rw [condBroadcast_cons waiting]
      apply inductionHypothesis (signal state start)
      rw [condSignal, waiting]
      simp [resume, State.emit, State.setCond]

end Conditions

section Descriptors

variable [DecidableEq ι]

/-- A fiber that waits for a descriptor is resumed. -/
def takeReady (ready : Ready) (passed elements : List (FdElement ι))
    (element : FdElement ι) (state : State ι μ κ) : State ι μ κ :=
  ioresume
    { state.setResumption element.yieldback
        (.io (ready.events element.fd)) with
      fds := passed ++ elements }
    element.yieldback

/-- The loop over descriptors preserves what every single one preserves. -/
theorem dispatch_preserves
    {ready : Ready} {holds : State ι μ κ → Prop}
    (take :
      ∀ state passed element elements,
        state.fds = passed ++ element :: elements →
          holds state →
            holds (takeReady ready passed elements element state))
    {elements : List (FdElement ι)} :
    ∀ {passed : List (FdElement ι)} {state : State ι μ κ},
      state.fds = passed ++ elements →
        holds state → holds (dispatch ready passed elements state) := by
  induction elements with
  | nil =>
      intro passed state _ start
      exact start
  | cons element elements inductionHypothesis =>
      intro passed state isFds start
      rw [dispatch]
      by_cases isReady : ready.any element.fd = true
      · rw [if_pos isReady]
        exact inductionHypothesis rfl
          (take state passed element elements isFds start)
      · rw [if_neg isReady]
        exact inductionHypothesis (by simp [isFds]) start

end Descriptors

end Dfk.Scheduler
