import Dfk.Library.Fifo
import Dfk.Scheduler.Placement

/-!
# Queues of fibers and their histories

The trace has a history of the scheduler, of each mutex and of each condition
variable.  `Traced` says that the queues they are kept in have served these
histories from an empty queue on, and that the owner of a mutex is the one
fiber that has acquired and not released it.
-/

namespace Dfk.Scheduler

open Fifo (replay puts takes)

variable {ι μ κ : Type}

namespace Event

/-- A fiber becomes ready, or the scheduler switches to it. -/
def atScheduler? : Event ι μ κ → Option (Fifo.Event ι)
  | .ready fiber => some (.put fiber)
  | .switched fiber => some (.take fiber)
  | _ => none

/-- A fiber begins to wait for a mutex, or is granted it. -/
def atMutex? [DecidableEq μ] (mutex : μ) : Event ι μ κ → Option (Fifo.Event ι)
  | .queued at' fiber => if at' = mutex then some (.put fiber) else none
  | .granted at' fiber => if at' = mutex then some (.take fiber) else none
  | _ => none

/-- A fiber begins to wait for a condition variable, or is woken. -/
def atCond? [DecidableEq κ] (cond : κ) : Event ι μ κ → Option (Fifo.Event ι)
  | .waited at' fiber => if at' = cond then some (.put fiber) else none
  | .woken at' fiber => if at' = cond then some (.take fiber) else none
  | _ => none

/-- A fiber has acquired a mutex, or released it. -/
def hold [DecidableEq ι] [DecidableEq μ] (mutex : μ) (holders : List ι) :
    Event ι μ κ → List ι
  | .acquired at' fiber | .granted at' fiber =>
      if at' = mutex then holders ++ [fiber] else holders
  | .released at' fiber =>
      if at' = mutex then holders.erase fiber else holders
  | _ => holders

end Event

/-- Ready events and switches. -/
def scheduled (trace : List (Event ι μ κ)) : List (Fifo.Event ι) :=
  trace.filterMap Event.atScheduler?

/-- What happened at the wait queue of a mutex. -/
def queuedAt [DecidableEq μ] (mutex : μ) (trace : List (Event ι μ κ)) :
    List (Fifo.Event ι) :=
  trace.filterMap (Event.atMutex? mutex)

/-- What happened at the wait queue of a condition variable. -/
def waitedAt [DecidableEq κ] (cond : κ) (trace : List (Event ι μ κ)) :
    List (Fifo.Event ι) :=
  trace.filterMap (Event.atCond? cond)

/-- The fibers that have acquired a mutex and not released it. -/
def holders [DecidableEq ι] [DecidableEq μ] (mutex : μ)
    (trace : List (Event ι μ κ)) : List ι :=
  trace.foldl (Event.hold mutex) []

variable [DecidableEq ι] [DecidableEq μ] [DecidableEq κ]
variable {state next : State ι μ κ} {this fiber : ι} {mutex : μ} {cond : κ}

/-- The queues have served the histories in the trace. -/
structure Traced (state : State ι μ κ) : Prop where
  ready : replay (scheduled state.trace) = some (state.batch ++ state.pending)
  mutex : ∀ mutex,
    replay (queuedAt mutex state.trace) =
      some (state.mutexes mutex).waitqueue
  cond : ∀ cond, replay (waitedAt cond state.trace) = some (state.conds cond)
  owner : ∀ mutex, holders mutex state.trace = (state.owner mutex).toList

omit [DecidableEq μ] [DecidableEq κ] in
/-- Events that are none of a queue. -/
theorem replay_silent
    {history later : List (Fifo.Event ι)}
    (silent : later = []) :
    replay (history ++ later) = replay history := by
  rw [silent, List.append_nil]

namespace Traced

/-- Events have been added to the trace, and queues and owners follow them. -/
theorem extend
    {events : List (Event ι μ κ)}
    (trace : next.trace = state.trace ++ events)
    (ready :
      replay (scheduled state.trace ++ scheduled events) =
        some (next.batch ++ next.pending))
    (mutex : ∀ mutex,
      replay (queuedAt mutex state.trace ++ queuedAt mutex events) =
        some (next.mutexes mutex).waitqueue)
    (cond : ∀ cond,
      replay (waitedAt cond state.trace ++ waitedAt cond events) =
        some (next.conds cond))
    (owner : ∀ mutex,
      events.foldl (Event.hold mutex) (holders mutex state.trace) =
        (next.owner mutex).toList) :
    Traced next := by
  refine ⟨?_, fun query => ?_, fun query => ?_, fun query => ?_⟩
  · rw [trace, scheduled, List.filterMap_append]
    exact ready
  · rw [trace, queuedAt, List.filterMap_append]
    exact mutex query
  · rw [trace, waitedAt, List.filterMap_append]
    exact cond query
  · rw [trace, holders, List.foldl_append]
    exact owner query

/-- What is not in the trace does not matter, apart from queues and owners. -/
theorem of_same
    (traced : Traced state)
    (trace : next.trace = state.trace)
    (ready : next.batch ++ next.pending = state.batch ++ state.pending)
    (mutexes : next.mutexes = state.mutexes)
    (conds : next.conds = state.conds) :
    Traced next := by
  refine ⟨?_, fun mutex => ?_, fun cond => ?_, fun mutex => ?_⟩
  · rw [trace, ready]
    exact traced.ready
  · rw [trace, mutexes]
    exact traced.mutex mutex
  · rw [trace, conds]
    exact traced.cond cond
  · rw [trace, State.owner, mutexes]
    exact traced.owner mutex

/-- A fiber becomes ready. -/
theorem resume
    (traced : Traced state) :
    Traced (resume state fiber) := by
  refine extend rfl ?_
    (fun mutex => (replay_silent rfl).trans (traced.mutex mutex))
    (fun cond => (replay_silent rfl).trans (traced.cond cond)) traced.owner
  have served := Fifo.replay_put traced.ready fiber
  rw [List.append_assoc] at served
  exact served

/-- The scheduler switches to the first fiber. -/
theorem switch
    {batch : List ι}
    (traced : Traced state)
    (isBatch : state.batch = fiber :: batch) :
    Traced
      ({ state with batch := batch, control := .fiber fiber }.emit
        [.switched fiber]) := by
  refine extend rfl ?_
    (fun mutex => (replay_silent rfl).trans (traced.mutex mutex))
    (fun cond => (replay_silent rfl).trans (traced.cond cond)) traced.owner
  have ready := traced.ready
  rw [isBatch] at ready
  exact Fifo.replay_take ready

/-- A fiber returns from `dfk_cond_wait`. -/
theorem returned
    (traced : Traced state) :
    Traced (state.emit [.returned cond fiber]) :=
  extend rfl ((replay_silent rfl).trans traced.ready)
    (fun mutex => (replay_silent rfl).trans (traced.mutex mutex))
    (fun cond => (replay_silent rfl).trans (traced.cond cond)) traced.owner

/-- Something happens at one mutex. -/
theorem atMutex
    {contents : Mutex ι} {events : List (Event ι μ κ)}
    (traced : Traced state)
    (unscheduled : scheduled events = [])
    (noWaits : ∀ cond, waitedAt cond events = [])
    (elsewhere : ∀ other, other ≠ mutex →
      queuedAt other events = [] ∧
        ∀ held, events.foldl (Event.hold other) held = held)
    (queue :
      replay (queuedAt mutex state.trace ++ queuedAt mutex events) =
        some contents.waitqueue)
    (owner :
      events.foldl (Event.hold mutex) (holders mutex state.trace) =
        contents.owner.toList) :
    Traced ((state.setMutex mutex contents).emit events) := by
  refine extend rfl ((replay_silent unscheduled).trans traced.ready)
    (fun other => ?_)
    (fun cond => (replay_silent (noWaits cond)).trans (traced.cond cond))
    (fun other => ?_)
  · by_cases same : other = mutex
    · subst same
      simpa [State.emit, State.setMutex] using queue
    · have silent := elsewhere other same
      simpa [State.emit, State.setMutex, same, silent.1]
        using traced.mutex other
  · by_cases same : other = mutex
    · subst same
      simpa [State.emit, State.setMutex, State.owner] using owner
    · have silent := elsewhere other same
      rw [State.setMutex, silent.2]
      simpa [State.emit, State.owner, same] using traced.owner other

/-- A mutex without owner is acquired. -/
theorem acquire
    (traced : Traced state)
    (isFree : (state.mutexes mutex).owner = none) :
    Traced
      ((state.setMutex mutex
          { state.mutexes mutex with owner := some this }).emit
        [.acquired mutex this]) := by
  refine traced.atMutex rfl (fun _ => rfl)
    (fun other differs => ⟨rfl, fun held => ?_⟩)
    ((replay_silent rfl).trans (traced.mutex mutex)) ?_
  · exact if_neg (Ne.symm differs)
  · rw [traced.owner, State.owner, isFree]
    exact if_pos rfl

/-- A fiber begins to wait for a mutex. -/
theorem queue
    {owner : ι}
    (traced : Traced state)
    (isOwner : (state.mutexes mutex).owner = some owner) :
    Traced
      ((state.setMutex mutex
          { owner := some owner
            waitqueue := (state.mutexes mutex).waitqueue ++ [this] }).emit
        [.queued mutex this]) := by
  refine traced.atMutex rfl (fun _ => rfl)
    (fun other differs => ⟨?_, fun held => rfl⟩) ?_ ?_
  · simp [queuedAt, Event.atMutex?, Ne.symm differs]
  · have served := Fifo.replay_put (traced.mutex mutex) this
    simpa [queuedAt, Event.atMutex?] using served
  · rw [← isOwner]
    exact traced.owner mutex

/-- A mutex is released, and nobody is granted it. -/
theorem free
    (traced : Traced state)
    (isOwner : (state.mutexes mutex).owner = some this)
    (nobody : (state.mutexes mutex).waitqueue = []) :
    Traced
      ((state.setMutex mutex { owner := none, waitqueue := [] }).emit
        [.released mutex this]) := by
  refine traced.atMutex rfl (fun _ => rfl)
    (fun other differs => ⟨rfl, fun held => ?_⟩) ?_ ?_
  · exact if_neg (Ne.symm differs)
  · rw [← nobody]
    exact (replay_silent rfl).trans (traced.mutex mutex)
  · rw [traced.owner, State.owner, isOwner]
    simp [Event.hold]

/-- A mutex is released, and the first fiber that waits is granted it. -/
theorem handOff
    {heir : ι} {waitqueue : List ι}
    (traced : Traced state)
    (isOwner : (state.mutexes mutex).owner = some this)
    (waiting : (state.mutexes mutex).waitqueue = heir :: waitqueue) :
    Traced
      ((state.setMutex mutex
          { owner := some heir, waitqueue := waitqueue }).emit
        [.released mutex this, .granted mutex heir]) := by
  refine traced.atMutex rfl (fun _ => rfl)
    (fun other differs => ⟨?_, fun held => ?_⟩) ?_ ?_
  · simp [queuedAt, Event.atMutex?, Ne.symm differs]
  · simp [Event.hold, Ne.symm differs]
  · have before := traced.mutex mutex
    rw [waiting] at before
    have served := Fifo.replay_take before
    simpa [queuedAt, Event.atMutex?, List.filterMap_cons] using served
  · rw [traced.owner, State.owner, isOwner]
    simp [Event.hold]

/-- Something happens at one condition variable. -/
theorem atCond
    {waitqueue : List ι} {event : Event ι μ κ}
    (traced : Traced state)
    (unscheduled : scheduled [event] = [])
    (noMutex : ∀ mutex,
      queuedAt mutex [event] = [] ∧ ∀ held, event.hold mutex held = held)
    (elsewhere : ∀ other, other ≠ cond → waitedAt other [event] = [])
    (queue :
      replay (waitedAt cond state.trace ++ waitedAt cond [event]) =
        some waitqueue) :
    Traced ((state.setCond cond waitqueue).emit [event]) := by
  refine extend rfl ((replay_silent unscheduled).trans traced.ready)
    (fun mutex =>
      (replay_silent (noMutex mutex).1).trans (traced.mutex mutex))
    (fun other => ?_) (fun mutex => ?_)
  · by_cases same : other = cond
    · subst same
      simpa [State.emit, State.setCond] using queue
    · have silent := elsewhere other same
      simpa [State.emit, State.setCond, same, silent] using traced.cond other
  · exact ((noMutex mutex).2 _).trans (traced.owner mutex)

/-- A fiber begins to wait for a condition variable. -/
theorem wait
    (traced : Traced state) :
    Traced
      ((state.setCond cond (state.conds cond ++ [this])).emit
        [.waited cond this]) := by
  refine traced.atCond rfl (fun _ => ⟨rfl, fun _ => rfl⟩)
    (fun other differs => ?_) ?_
  · simp [waitedAt, Event.atCond?, Ne.symm differs]
  · have served := Fifo.replay_put (traced.cond cond) this
    simpa [waitedAt, Event.atCond?] using served

/-- The first fiber that waits for a condition variable is woken. -/
theorem wake
    {waitqueue : List ι}
    (traced : Traced state)
    (waiting : state.conds cond = fiber :: waitqueue) :
    Traced ((state.setCond cond waitqueue).emit [.woken cond fiber]) := by
  refine traced.atCond rfl (fun _ => ⟨rfl, fun _ => rfl⟩)
    (fun other differs => ?_) ?_
  · simp [waitedAt, Event.atCond?, Ne.symm differs]
  · have before := traced.cond cond
    rw [waiting] at before
    have served := Fifo.replay_take before
    simpa [waitedAt, Event.atCond?] using served

/-! ## Functions of the source -/

/-- A fiber stops running, and goes on elsewhere later. -/
theorem yieldBack
    {resumption : Resumption μ κ}
    (traced : Traced state) :
    Traced (yieldBack state this resumption) :=
  traced.of_same rfl rfl rfl rfl

/-- A fiber goes on elsewhere. -/
theorem setResumption
    {resumption : Resumption μ κ}
    (traced : Traced state) :
    Traced (state.setResumption this resumption) :=
  traced.of_same rfl rfl rfl rfl

/-- The return from `dfk_cond_wait`. -/
theorem condReturn
    (traced : Traced state) :
    Traced (condReturn this cond state) :=
  traced.setResumption.returned

/-- `dfk_spawn` -/
theorem spawn
    {fiber : Option ι}
    (traced : Traced state) :
    Traced (spawn state fiber) := by
  cases fiber with
  | none => exact traced
  | some fiber =>
      rw [Scheduler.spawn]
      apply Traced.resume
      exact traced.of_same rfl rfl rfl rfl

/-- `dfk_mutex_lock`, and what comes after it. -/
theorem mutexLock
    {blocked : Resumption μ κ} {goes : State ι μ κ → State ι μ κ}
    (traced : Traced state)
    (goesOn : ∀ after : State ι μ κ, Traced after → Traced (goes after))
    (happens : mutexLock state this mutex blocked goes = .ok next) :
    Traced next := by
  rw [Scheduler.mutexLock] at happens
  rcases isOwner : (state.mutexes mutex).owner with _ | owner
  · simp only [isOwner, locked] at happens
    obtain ⟨done, -, happens⟩ := of_bind happens
    cases happens
    exact goesOn _ (traced.acquire isOwner)
  · simp only [isOwner] at happens
    by_cases same : owner = this
    · rw [if_pos same, locked] at happens
      obtain ⟨done, -, happens⟩ := of_bind happens
      cases happens
      exact goesOn _ traced
    · rw [if_neg same] at happens
      cases happens
      apply Traced.yieldBack
      exact traced.queue isOwner

/-- The release of a mutex by its owner. -/
theorem release
    (traced : Traced state)
    (isOwner : (state.mutexes mutex).owner = some this) :
    Traced (release state this mutex) := by
  rw [Scheduler.release]
  rcases waiting : (state.mutexes mutex).waitqueue with _ | ⟨heir, waitqueue⟩
  · exact traced.free isOwner waiting
  · apply Traced.resume
    exact traced.handOff isOwner waiting

/-- `dfk_cond_wait` -/
theorem condWait
    (traced : Traced state)
    (happens : condWait state this cond mutex = .ok next) :
    Traced next := by
  rw [Scheduler.condWait] at happens
  obtain ⟨done, -, happens⟩ := of_bind happens
  obtain ⟨done, passed, happens⟩ := of_bind happens
  cases happens
  apply Traced.yieldBack
  exact (traced.release (of_check passed)).wait

/-- `dfk_cond_signal` -/
theorem condSignal
    (traced : Traced state) :
    Traced (condSignal state cond) := by
  rw [Scheduler.condSignal]
  rcases waiting : state.conds cond with _ | ⟨first, waitqueue⟩
  · exact traced
  · apply Traced.resume
    exact traced.wake waiting

/-- `dfk_cond_broadcast` -/
theorem condBroadcast
    (traced : Traced state) :
    Traced (condBroadcast state cond) :=
  condBroadcast_preserves (fun _ traced => traced.condSignal) traced

/-- `dfk__scheduler` up to its loop over the local list. -/
theorem spin
    (traced : Traced state)
    (noBatch : state.batch = []) :
    Traced (spin state) := by
  rw [Scheduler.spin]
  split
  · exact traced.of_same rfl rfl rfl rfl
  · refine traced.of_same rfl ?_ rfl rfl
    rw [noBatch, List.append_nil, List.nil_append]

/-- A round of the loop over the local list, or what is behind the loop. -/
theorem drain
    (traced : Traced state) :
    Traced (drain state) := by
  rw [Scheduler.drain]
  rcases isBatch : state.batch with _ | ⟨first, batch⟩
  · dsimp only
    split
    · exact traced.of_same rfl (by rw [isBatch]) rfl rfl
    · exact traced.of_same rfl (by rw [isBatch]) rfl rfl
  · exact traced.switch isBatch

/-- The event loop goes on. -/
theorem eventloopMain
    {outcome : Outcome}
    (traced : Traced state) :
    Traced (eventloopMain state outcome) := by
  have goesOn : Traced (poll state outcome) := by
    cases outcome with
    | interrupted => exact traced.of_same rfl rfl rfl rfl
    | none => exact traced.of_same rfl rfl rfl rfl
    | ready ready =>
        have dispatched : Traced (dispatch ready [] state.fds state) := by
          apply dispatch_preserves ?_ rfl traced
          intro state passed element elements _ traced
          rw [takeReady, ioresume_eq]
          apply Traced.resume
          exact traced.of_same rfl rfl rfl rfl
        rw [poll]
        split
        · exact dispatched.of_same rfl rfl rfl rfl
        · exact dispatched.of_same rfl rfl rfl rfl
  rw [Scheduler.eventloopMain]
  split
  · split
    · exact traced.of_same rfl rfl rfl rfl
    · exact goesOn
  · exact goesOn

/-- A fiber goes on in the function in which it was suspended. -/
theorem proceed
    (traced : Traced state)
    (happens : proceed state this = .ok next) :
    Traced next := by
  rw [Scheduler.proceed] at happens
  rcases goesOn : state.resumption this with
    _ | mutex | ⟨cond, mutex⟩ | ⟨cond, mutex⟩ | events
  · simp only [goesOn] at happens
    cases happens
    exact traced
  · simp only [goesOn, locked] at happens
    obtain ⟨done, -, happens⟩ := of_bind happens
    cases happens
    exact traced.setResumption
  · simp only [goesOn] at happens
    exact traced.mutexLock (fun _ after => after.condReturn) happens
  · simp only [goesOn, locked] at happens
    obtain ⟨done, -, happens⟩ := of_bind happens
    cases happens
    exact traced.condReturn
  · simp only [goesOn] at happens
    cases happens
    exact traced.setResumption

/-- A fiber makes a call. -/
theorem perform
    {call : Call ι μ κ}
    (traced : Traced state)
    (happens : perform state this call = .ok next) :
    Traced next := by
  cases call with
  | spawn fiber =>
      cases happens
      exact traced.spawn
  | postpone =>
      cases happens
      exact traced.resume.yieldBack
  | lock mutex => exact traced.mutexLock (fun _ after => after) happens
  | trylock mutex =>
      cases happens
      rw [mutexTrylock]
      rcases isOwner : (state.mutexes mutex).owner with _ | owner
      · exact traced.acquire isOwner
      · exact traced
  | unlock mutex =>
      rw [Scheduler.perform, mutexUnlock] at happens
      obtain ⟨done, -, happens⟩ := of_bind happens
      obtain ⟨done, passed, happens⟩ := of_bind happens
      cases happens
      exact traced.release (of_check passed)
  | wait cond mutex => exact traced.condWait happens
  | signal cond =>
      cases happens
      exact traced.condSignal
  | broadcast cond =>
      cases happens
      exact traced.condBroadcast
  | io socket events =>
      cases happens
      exact traced.of_same rfl rfl rfl rfl
  | exit =>
      cases happens
      exact traced.of_same rfl rfl rfl rfl

/-- Whatever happens is in the trace. -/
theorem step
    {location : ι → Option (Place μ κ)} {action : Action ι μ κ}
    (traced : Traced state)
    (consistent : Consistent state location)
    (steps : Steps state action next) :
    Traced next := by
  obtain ⟨allowed, happens⟩ := steps
  cases action with
  | schedule =>
      rcases allowed with control | control
      · simp only [Scheduler.step, control] at happens
        cases happens
        exact traced.spin (consistent.batch (Or.inl control))
      · simp only [Scheduler.step, control] at happens
        cases happens
        exact traced.drain
  | poll outcome =>
      have control : state.control = .eventloop := allowed
      simp only [Scheduler.step, control] at happens
      cases happens
      exact traced.eventloopMain
  | proceed =>
      obtain ⟨this, control, -⟩ := allowed
      simp only [Scheduler.step, control] at happens
      exact traced.proceed happens
  | call call =>
      obtain ⟨this, control, -⟩ := allowed
      simp only [Scheduler.step, control] at happens
      exact traced.perform happens

end Traced

/-- In the beginning only the main fiber is in the trace. -/
theorem traced_start (main : ι) : Traced (start main : State ι μ κ) :=
  ⟨rfl, fun _ => rfl, fun _ => rfl, fun _ => rfl⟩

open Runs

/-- The queues serve the histories in the trace in every run. -/
theorem traced_run
    {main : ι} {actions : List (Action ι μ κ)}
    (run : Run Steps (start main) actions state) :
    Traced state := by
  have both : Traced state ∧ ∃ location, Consistent state location := by
    apply run.invariant ⟨traced_start main, _, consistent_start main⟩
    rintro before action after _ ⟨traced, location, consistent⟩ steps
    obtain ⟨result, location', happens, consistent'⟩ :=
      consistent.step steps.1
    rw [steps.2] at happens
    cases happens
    exact ⟨traced.step consistent steps, location', consistent'⟩
  exact both.1

/--
The local list and the pending list behind it are one queue that serves all
ready events: the scheduler has switched to the fibers in the order in which
they became ready, the rest of them is still in the queue, and none of them is
when the scheduler returns.
-/
theorem scheduler_is_fifo
    {main : ι} {actions : List (Action ι μ κ)}
    (run : Run Steps (start main) actions state) :
    replay (scheduled state.trace) = some (state.batch ++ state.pending) ∧
      puts (scheduled state.trace) =
        takes (scheduled state.trace) ++ (state.batch ++ state.pending) ∧
      (state.control = .finished →
        puts (scheduled state.trace) = takes (scheduled state.trace)) := by
  have ready := (traced_run run).ready
  have inOrder := Fifo.puts_of_replay ready
  refine ⟨ready, inOrder, fun finished => ?_⟩
  obtain ⟨location, consistent⟩ := consistent_run run
  have noBatch := consistent.batch (Or.inr (Or.inr finished))
  have nonePending := (consistent.finished finished).2.1
  rw [inOrder, noBatch, nonePending, List.append_nil, List.append_nil]

/-- The scheduler has switched to fibers in order. -/
theorem scheduler_is_fifo_rendezvous :
    ∃ state : State Nat Nat Nat,
      Run Steps (start 1) rendezvous state ∧
        puts (scheduled state.trace) =
          takes (scheduled state.trace) ++ (state.batch ++ state.pending) := by
  obtain ⟨state, run, -⟩ := rendezvous_run
  exact ⟨state, run, (scheduler_is_fifo run).2.1⟩

end Dfk.Scheduler
