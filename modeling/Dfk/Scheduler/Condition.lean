import Dfk.Scheduler.Waiting

/-!
# Condition variables

A signal wakes the fiber that has waited longest, a broadcast wakes all that
wait, and nothing else wakes a fiber.  Fibers return from `dfk_cond_wait` with
the mutex and in the order in which they called it.
-/

namespace Dfk.Scheduler

open Fifo (replay puts takes)
open Runs

variable {ι μ κ : Type}

/-- The fibers that have been woken, in this order. -/
def wakes [DecidableEq κ] (cond : κ) (trace : List (Event ι μ κ)) : List ι :=
  takes (waitedAt cond trace)

/-- The fibers to be woken if some wait. -/
def Action.wakes [DecidableEq κ] (cond : κ) (waiting : List ι) :
    Action ι μ κ → List ι
  | .call (.signal at') => if at' = cond then waiting.take 1 else []
  | .call (.broadcast at') => if at' = cond then waiting else []
  | _ => []

variable [DecidableEq κ]
variable {state middle next : State ι μ κ} {location : ι → Option (Place μ κ)}
variable {this fiber : ι} {mutex mutex' : μ} {cond cond' : κ}

/-- Fibers have been woken and have returned since. -/
structure Since (cond : κ) (state next : State ι μ κ)
    (woken returned : List ι) : Prop where
  wakes : wakes cond next.trace = wakes cond state.trace ++ woken
  returns : returns cond next.trace = returns cond state.trace ++ returned

namespace Since

variable {woken returned woken' returned' : List ι}

/-- What has been added to the trace. -/
theorem of_trace
    {events : List (Event ι μ κ)}
    (trace : next.trace = state.trace ++ events)
    (isWoken : Scheduler.wakes cond events = woken)
    (isReturned : Scheduler.returns cond events = returned) :
    Since cond state next woken returned := by
  constructor
  · rw [trace, ← isWoken, Scheduler.wakes, waitedAt, List.filterMap_append,
      Fifo.takes_append]
    rfl
  · rw [trace, ← isReturned]
    exact List.filterMap_append ..

/-- Nothing has been added to the trace. -/
theorem of_same
    (trace : next.trace = state.trace) :
    Since cond state next [] [] :=
  of_trace (trace.trans (List.append_nil _).symm) rfl rfl

/-- One after the other. -/
theorem trans
    (earlier : Since cond state middle woken returned)
    (later : Since cond middle next woken' returned') :
    Since cond state next (woken ++ woken') (returned ++ returned') := by
  constructor
  · rw [later.wakes, earlier.wakes, List.append_assoc]
  · rw [later.returns, earlier.returns, List.append_assoc]

/-- A fiber becomes ready. -/
theorem resume : Since cond state (resume state fiber) [] [] :=
  of_trace rfl rfl rfl

section Fibers

variable [DecidableEq ι]

/-- A fiber returns from `dfk_cond_wait`. -/
theorem condReturn :
    Since cond state (condReturn this cond' state) []
      (if cond' = cond then [this] else []) := by
  refine of_trace rfl rfl ?_
  by_cases same : cond' = cond
  · simp [Scheduler.returns, same]
  · simp [Scheduler.returns, same]

/-- `dfk_spawn` -/
theorem spawn
    {fiber : Option ι} :
    Since cond state (spawn state fiber) [] [] := by
  cases fiber with
  | none => exact of_same rfl
  | some fiber => exact of_trace rfl rfl rfl

omit [DecidableEq ι] in
/-- A round of the loop over the local list, or what is behind the loop. -/
theorem drain : Since cond state (drain state) [] [] := by
  rw [Scheduler.drain]
  split
  · exact of_trace rfl rfl rfl
  · split
    · exact of_same rfl
    · exact of_same rfl

/-- `dfk__scheduler` up to its loop over the local list. -/
theorem spin : Since cond state (spin state) [] [] := by
  rw [Scheduler.spin]
  split
  · exact of_same rfl
  · exact of_same rfl

/-- The event loop goes on. -/
theorem eventloopMain
    {outcome : Outcome} :
    Since cond state (eventloopMain state outcome) [] [] := by
  have goesOn : Since cond state (poll state outcome) [] [] := by
    cases outcome with
    | interrupted => exact of_same rfl
    | none => exact of_same rfl
    | ready ready =>
        have dispatched :
            Since cond state (dispatch ready [] state.fds state) [] [] := by
          apply @dispatch_preserves ι μ κ _ ready
            (fun next => Since cond state next [] []) ?_ _ _ state rfl
            (of_same rfl)
          intro next passed element elements _ since
          exact since.trans (of_trace rfl rfl rfl)
        rw [poll]
        split
        · exact dispatched.trans (of_same rfl)
        · exact dispatched.trans (of_same rfl)
  rw [Scheduler.eventloopMain]
  split
  · split
    · exact of_same rfl
    · exact goesOn
  · exact goesOn

end Fibers

section Mutexes

variable [DecidableEq ι] [DecidableEq μ]

omit [DecidableEq ι] in
/-- The release of a mutex by its owner. -/
theorem release : Since cond state (release state this mutex) [] [] := by
  rw [Scheduler.release]
  split
  · exact of_trace rfl rfl rfl
  · exact of_trace (List.append_assoc ..) rfl rfl

/-- `dfk_mutex_lock`, and what comes after it. -/
theorem mutexLock
    {blocked : Resumption μ κ} {goes : State ι μ κ → State ι μ κ}
    (cond : κ)
    (happens : mutexLock state this mutex blocked goes = .ok next) :
    Since cond state next [] [] ∨
      ∃ after,
        Since cond state after [] [] ∧ after.control = state.control ∧
          after.owner mutex = some this ∧ next = goes after := by
  rw [Scheduler.mutexLock] at happens
  rcases isOwner : (state.mutexes mutex).owner with _ | owner
  · simp only [isOwner, locked] at happens
    obtain ⟨done, passed, happens⟩ := of_bind happens
    have owns := of_check passed
    cases happens
    refine Or.inr ⟨_, ?_, ?_, ?_, rfl⟩
    · exact of_trace rfl rfl rfl
    · rfl
    · exact owns
  · simp only [isOwner] at happens
    by_cases same : owner = this
    · rw [if_pos same, locked] at happens
      obtain ⟨done, passed, happens⟩ := of_bind happens
      have owns := of_check passed
      cases happens
      exact Or.inr ⟨_, of_same rfl, rfl, owns, rfl⟩
    · rw [if_neg same] at happens
      cases happens
      exact Or.inl (of_trace rfl rfl rfl)

/-- `dfk_cond_wait` -/
theorem condWait
    (happens : condWait state this cond' mutex = .ok next) :
    Since cond state next [] [] := by
  rw [Scheduler.condWait] at happens
  obtain ⟨done, -, happens⟩ := of_bind happens
  obtain ⟨done, -, happens⟩ := of_bind happens
  cases happens
  apply release.trans
  refine of_trace rfl ?_ rfl
  by_cases same : cond' = cond
  · simp [Scheduler.wakes, waitedAt, Event.atCond?, same, takes]
  · simp [Scheduler.wakes, waitedAt, Event.atCond?, same, takes]

end Mutexes

/-- `dfk_cond_signal` -/
theorem condSignal :
    Since cond state (condSignal state cond')
      (if cond' = cond then (state.conds cond).take 1 else []) [] := by
  rw [Scheduler.condSignal]
  by_cases same : cond' = cond
  · subst same
    rw [if_pos rfl]
    rcases waiting : state.conds cond' with _ | ⟨first, waitqueue⟩
    · exact of_same rfl
    · refine of_trace (List.append_assoc ..) ?_ rfl
      simp [Scheduler.wakes, waitedAt, Event.atCond?, takes,
        List.filterMap_cons]
  · rw [if_neg same]
    split
    · refine of_trace (List.append_assoc ..) ?_ rfl
      simp [Scheduler.wakes, waitedAt, Event.atCond?, takes, same,
        List.filterMap_cons]
    · exact of_same rfl

/-- `dfk_cond_broadcast` -/
theorem condBroadcast :
    Since cond state (condBroadcast state cond')
      (if cond' = cond then state.conds cond else []) [] := by
  by_cases same : cond' = cond
  · subst same
    rw [if_pos rfl]
    induction waiting : state.conds cond' generalizing state with
    | nil =>
        rw [condBroadcast_nil waiting]
        exact of_same rfl
    | cons first waitqueue inductionHypothesis =>
        have signalled := @condSignal ι μ κ _ state cond' cond'
        rw [if_pos rfl, waiting] at signalled
        rw [condBroadcast_cons waiting]
        apply signalled.trans
        apply inductionHypothesis
        rw [Scheduler.condSignal, waiting]
        simp [Scheduler.resume, State.emit, State.setCond]
  · rw [if_neg same]
    apply @condBroadcast_preserves ι μ κ cond' _
      (fun next => Since cond state next [] []) ?_ state (of_same rfl)
    intro next since
    have signalled := @condSignal ι μ κ _ next cond cond'
    rw [if_neg same] at signalled
    exact since.trans signalled

end Since

variable [DecidableEq ι] [DecidableEq μ]

/-- A fiber that goes on returns from `dfk_cond_wait` only with the mutex. -/
theorem Ordered.proceed_since
    (ordered : Ordered state cond mutex)
    (control : state.control = .fiber this)
    (happens : Scheduler.proceed state this = .ok next) :
    ∃ returned,
      Since cond state next [] returned ∧
        ∀ fiber ∈ returned,
          next.control = .fiber fiber ∧ next.owner mutex = some fiber := by
  rw [Scheduler.proceed] at happens
  rcases goesOn : state.resumption this with
    _ | mutex' | ⟨cond', mutex'⟩ | ⟨cond', mutex'⟩ | events
  · simp only [goesOn] at happens
    cases happens
    exact ⟨[], Since.of_same rfl, by simp⟩
  · simp only [goesOn, locked] at happens
    obtain ⟨done, -, happens⟩ := of_bind happens
    cases happens
    exact ⟨[], Since.of_same rfl, by simp⟩
  · simp only [goesOn] at happens
    rcases Since.mutexLock cond happens with
      since | ⟨after, since, sameControl, isOwner, rfl⟩
    · exact ⟨[], since, by simp⟩
    · refine ⟨_, since.trans Since.condReturn, ?_⟩
      intro fiber member
      by_cases same : cond' = cond
      · subst same
        obtain rfl := ordered.oneMutex this mutex' (Or.inl goesOn)
        simp only [if_true, List.nil_append, List.mem_singleton] at member
        subst member
        exact ⟨sameControl.trans control, isOwner⟩
      · simp only [same, if_false, List.append_nil, List.not_mem_nil] at member
  · simp only [goesOn, locked] at happens
    obtain ⟨done, passed, happens⟩ := of_bind happens
    have isOwner := of_check passed
    cases happens
    refine ⟨_, Since.condReturn, ?_⟩
    intro fiber member
    by_cases same : cond' = cond
    · subst same
      obtain rfl := ordered.oneMutex this mutex' (Or.inr goesOn)
      simp only [if_true, List.mem_singleton] at member
      subst member
      exact ⟨control, isOwner⟩
    · simp only [same, if_false, List.not_mem_nil] at member
  · simp only [goesOn] at happens
    cases happens
    exact ⟨[], Since.of_same rfl, by simp⟩

/-- A call wakes what it is to wake, and no fiber returns by it. -/
theorem Since.perform
    {call : Call ι μ κ}
    (happens : perform state this call = .ok next) :
    Since cond state next
      (Action.wakes cond (state.conds cond) (.call call)) [] := by
  cases call with
  | spawn fiber =>
      cases happens
      exact Since.spawn
  | postpone =>
      cases happens
      exact Since.of_trace rfl rfl rfl
  | lock mutex =>
      rcases Since.mutexLock cond happens with since | ⟨after, since, -, -, rfl⟩
      · exact since
      · exact since
  | trylock mutex =>
      cases happens
      rw [mutexTrylock]
      split
      · exact Since.of_same rfl
      · exact Since.of_trace rfl rfl rfl
  | unlock mutex =>
      rw [Scheduler.perform, mutexUnlock] at happens
      obtain ⟨done, -, happens⟩ := of_bind happens
      obtain ⟨done, -, happens⟩ := of_bind happens
      cases happens
      exact Since.release
  | wait cond' mutex => exact Since.condWait happens
  | signal cond' =>
      cases happens
      exact Since.condSignal
  | broadcast cond' =>
      cases happens
      exact Since.condBroadcast
  | io socket events =>
      cases happens
      exact Since.of_same rfl
  | exit =>
      cases happens
      exact Since.of_same rfl

/-- What a step wakes, and that a fiber returns only with the mutex. -/
theorem Ordered.step_since
    {action : Action ι μ κ}
    (ordered : Ordered state cond mutex)
    (steps : Steps state action next) :
    ∃ returned,
      Since cond state next (action.wakes cond (state.conds cond)) returned ∧
        ∀ fiber ∈ returned,
          next.control = .fiber fiber ∧ next.owner mutex = some fiber := by
  obtain ⟨allowed, happens⟩ := steps
  cases action with
  | schedule =>
      rcases allowed with control | control
      · simp only [Scheduler.step, control] at happens
        cases happens
        exact ⟨[], Since.spin, by simp⟩
      · simp only [Scheduler.step, control] at happens
        cases happens
        exact ⟨[], Since.drain, by simp⟩
  | poll outcome =>
      have control : state.control = .eventloop := allowed
      simp only [Scheduler.step, control] at happens
      cases happens
      exact ⟨[], Since.eventloopMain, by simp⟩
  | proceed =>
      obtain ⟨this, control, -⟩ := allowed
      simp only [Scheduler.step, control] at happens
      exact ordered.proceed_since control happens
  | call call =>
      obtain ⟨this, control, -⟩ := allowed
      simp only [Scheduler.step, control] at happens
      exact ⟨[], Since.perform happens, by simp⟩

/--
If every `dfk_cond_wait` for a condition variable is called with one mutex,
then in every reachable state: the fibers that have called it are those that
have been woken, in this order, and those that wait; a signal wakes the first
of those, a broadcast wakes all of them, and nothing else wakes one; a fiber
returns only with the mutex; and fibers have returned in the order in which
they called.
-/
theorem cond_wait_in_order
    {main : ι} {actions : List (Action ι μ κ)}
    (run : Run Steps (start main) actions state)
    (isMutex :
      ∀ other, Action.call (.wait cond other) ∈ actions → other = mutex) :
    waits cond state.trace =
        wakes cond state.trace ++ state.conds cond ∧
      (∀ action next,
        Steps state action next →
          wakes cond next.trace =
              wakes cond state.trace ++
                action.wakes cond (state.conds cond) ∧
            ∃ returned,
              returns cond next.trace =
                  returns cond state.trace ++ returned ∧
                ∀ fiber ∈ returned,
                  next.control = .fiber fiber ∧
                    next.owner mutex = some fiber) ∧
      returns cond state.trace <+: waits cond state.trace := by
  have traced := traced_run run
  have ordered := ordered_run run isMutex
  refine ⟨Fifo.puts_of_replay (traced.cond cond),
    fun action next steps => ?_, ?_⟩
  · obtain ⟨returned, since, withMutex⟩ := ordered.step_since steps
    exact ⟨since.wakes, returned, since.returns, withMutex⟩
  · rw [ordered.inOrder]
    exact List.prefix_append ..

/-- The main fiber has waited with one mutex, and returned in order. -/
theorem cond_wait_in_order_rendezvous :
    ∃ state : State Nat Nat Nat,
      Run Steps (start 1) rendezvous state ∧
        1 ∈ returns 0 state.trace ∧
          returns 0 state.trace <+: waits 0 state.trace := by
  obtain ⟨state, run, -, -, returned⟩ := rendezvous_run
  have isMutex (other : Nat)
      (member : Action.call (.wait 0 other) ∈ rendezvous) :
      other = 0 := by
    simpa [rendezvous] using member
  obtain ⟨-, -, inOrder⟩ := cond_wait_in_order run isMutex
  refine ⟨state, run, ?_, inOrder⟩
  rw [returns, List.mem_filterMap]
  exact ⟨_, returned, rfl⟩

end Dfk.Scheduler
