import Dfk.Scheduler.Queues

/-!
# Mutual exclusion

What `Consistent` and `Traced` say about a mutex: a fiber owns it from its
acquisition to its release, fibers that wait for it are granted it in the order
in which they came, and nobody overtakes them.
-/

namespace Dfk.Scheduler

open Fifo (replay puts takes)
open Runs

variable {ι μ κ : Type} [DecidableEq ι] [DecidableEq μ] [DecidableEq κ]
variable {state : State ι μ κ} {location : ι → Option (Place μ κ)}
variable {this fiber : ι} {mutex : μ}

namespace Consistent

/-- A fiber that waits for a mutex does not own it. -/
theorem not_owner
    (consistent : Consistent state location)
    (member : fiber ∈ (state.mutexes mutex).waitqueue) :
    state.owner mutex ≠ some fiber := by
  have isAt : location fiber = some (.mutex mutex) := by
    apply consistent.location_of_count
    exact List.count_pos_iff.mpr member
  have fits := consistent.fits fiber
  rw [isAt] at fits
  exact fits.2

/-- No fiber waits twice for a mutex. -/
theorem nodup
    (consistent : Consistent state location)
    (mutex : μ) :
    (state.mutexes mutex).waitqueue.Nodup := by
  apply List.nodup_iff_count_le_one.mpr
  intro fiber
  have counted := consistent.count fiber (.mutex mutex)
  rw [State.count] at counted
  rw [counted]
  split
  · exact Nat.le_refl 1
  · exact Nat.zero_le 1

/-- The assertion at the end of `dfk_mutex_lock`, behind the suspension. -/
theorem owner_of_resumed
    (consistent : Consistent state location)
    (control : state.control = .fiber this)
    (resumed :
      state.resumption this = .lock mutex ∨
        ∃ cond, state.resumption this = .relock cond mutex) :
    state.owner mutex = some this := by
  have fits := consistent.fits this
  rw [consistent.running control] at fits
  rcases resumed with isLock | ⟨cond, isRelock⟩
  · rw [isLock] at fits
    exact fits
  · rw [isRelock] at fits
    exact fits

/-- Who has a mutex after `dfk_mutex_trylock` had it, or nobody waited. -/
theorem of_trylock
    (consistent : Consistent state location)
    (locks : (mutexTrylock state this mutex).1 = true) :
    state.owner mutex = some this ∨
      state.owner mutex = none ∧ (state.mutexes mutex).waitqueue = [] := by
  rw [mutexTrylock] at locks
  rcases isOwner : (state.mutexes mutex).owner with _ | owner
  · exact Or.inr ⟨isOwner, consistent.free mutex isOwner⟩
  · simp only [isOwner, decide_eq_true_eq] at locks
    rw [locks] at isOwner
    exact Or.inl isOwner

end Consistent

omit [DecidableEq κ] in
/-- The fiber that has acquired a mutex and not released it, if there is one. -/
theorem length_holders
    (held : holders mutex state.trace = (state.owner mutex).toList) :
    (holders mutex state.trace).length ≤ 1 := by
  rw [held]
  cases state.owner mutex with
  | none => exact Nat.zero_le 1
  | some owner => exact Nat.le_refl 1

/--
In every reachable state and for every mutex: at most one fiber has acquired it
and not released it, and that fiber is the owner; the wait queue is empty if
there is no owner, has the owner nowhere and no fiber twice; a fiber that goes
on in `dfk_mutex_lock` is the owner, and no assertion fails; fibers that waited
have been granted the mutex in the order in which they began to wait; and
`dfk_mutex_trylock` succeeds only for the owner or if nobody waits.
-/
theorem mutual_exclusion
    {main : ι} {actions : List (Action ι μ κ)}
    (run : Run Steps (start main) actions state)
    (mutex : μ) :
    (holders mutex state.trace).length ≤ 1 ∧
      holders mutex state.trace = (state.owner mutex).toList ∧
      (state.owner mutex = none → (state.mutexes mutex).waitqueue = []) ∧
      (∀ fiber,
        state.owner mutex = some fiber →
          fiber ∉ (state.mutexes mutex).waitqueue) ∧
      (state.mutexes mutex).waitqueue.Nodup ∧
      (∀ this,
        state.control = .fiber this →
          (state.resumption this = .lock mutex ∨
              ∃ cond, state.resumption this = .relock cond mutex) →
            state.owner mutex = some this) ∧
      (∀ action,
        Allowed state action → ∃ after, step state action = .ok after) ∧
      puts (queuedAt mutex state.trace) =
        takes (queuedAt mutex state.trace) ++
          (state.mutexes mutex).waitqueue ∧
      (∀ this,
        (mutexTrylock state this mutex).1 = true →
          state.owner mutex = some this ∨
            state.owner mutex = none ∧
              (state.mutexes mutex).waitqueue = []) := by
  obtain ⟨location, consistent⟩ := consistent_run run
  have traced := traced_run run
  have held := traced.owner mutex
  refine ⟨length_holders held, held, consistent.free mutex,
    fun fiber isOwner member => ?_, consistent.nodup mutex,
    fun this => consistent.owner_of_resumed, fun action allowed => ?_,
    Fifo.puts_of_replay (traced.mutex mutex),
    fun this => consistent.of_trylock⟩
  · exact consistent.not_owner member isOwner
  · obtain ⟨after, -, happens, -⟩ := consistent.step allowed
    exact ⟨after, happens⟩

/-- The main fiber is the only one with the mutex. -/
theorem mutual_exclusion_rendezvous :
    ∃ state : State Nat Nat Nat,
      Run Steps (start 1) rendezvous state ∧
        (holders 0 state.trace).length ≤ 1 ∧
          puts (queuedAt 0 state.trace) =
            takes (queuedAt 0 state.trace) ++
              (state.mutexes 0).waitqueue := by
  obtain ⟨state, run, -⟩ := rendezvous_run
  obtain ⟨atMostOne, -, -, -, -, -, -, inOrder, -⟩ := mutual_exclusion run 0
  exact ⟨state, run, atMostOne, inOrder⟩

end Dfk.Scheduler
