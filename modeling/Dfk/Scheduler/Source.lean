import Dfk.Fault

/-!
# The scheduler, mutexes, condition variables and the event loop

`scheduler.c`, `mutex.c`, `cond.c` and `select.c` after the source.  Fibers
are cooperative: what a fiber does up to its next context switch is one step.
An intrusive list is the list of the fibers whose hooks it links.  `trace`
records what the properties are about and is read by no function.
-/

namespace Dfk.Scheduler

variable {ι μ κ : Type}

/-- `DFK_IO_IN`, `DFK_IO_OUT` and `DFK_IO_ERR` -/
structure IoEvents where
  isIn : Bool
  isOut : Bool
  isErr : Bool
  deriving Repr, DecidableEq

/-- `dfk_fdlist_element_t` -/
structure FdElement (ι : Type) where
  fd : Int
  events : IoEvents
  yieldback : ι
  deriving Repr, DecidableEq

/-- `dfk_mutex_t` -/
structure Mutex (ι : Type) where
  owner : Option ι
  waitqueue : List ι
  deriving Repr, DecidableEq

/-- Where a fiber goes on when it is switched to. -/
inductive Resumption (μ κ : Type) where
  /-- in client code, behind `dfk__postpone` or at the entry point -/
  | client
  /-- behind `dfk__suspend` in `dfk_mutex_lock` -/
  | lock (mutex : μ)
  /-- behind `dfk__suspend` in `dfk_cond_wait` -/
  | wait (cond : κ) (mutex : μ)
  /-- behind `dfk__suspend` in `dfk_mutex_lock`, called by `dfk_cond_wait` -/
  | relock (cond : κ) (mutex : μ)
  /-- behind `dfk__iosuspend` in `dfk__io`, about to return the events -/
  | io (events : IoEvents)
  deriving Repr, DecidableEq

/-- Which fiber runs, and where the scheduler goes on. -/
inductive Control (ι : Type) where
  /-- the scheduler, at the beginning of `dfk__scheduler` -/
  | spinning
  /-- the scheduler, at the head of the loop over its local list -/
  | draining
  /-- a fiber the scheduler has switched to in that loop -/
  | fiber (this : ι)
  /-- the fiber of the event loop -/
  | eventloop
  /-- `dfk__scheduler` has returned 1 -/
  | finished
  deriving Repr, DecidableEq

/-- Where the event loop goes on. -/
inductive EventloopAt where
  /-- at the head of its loop -/
  | head
  /-- behind the `DFK_SUSPEND` of the branch without descriptors -/
  | select
  deriving Repr, DecidableEq

/-- What happens to fibers. -/
inductive Event (ι μ κ : Type) where
  /-- appended to the pending list -/
  | ready (fiber : ι)
  /-- switched to by the scheduler -/
  | switched (fiber : ι)
  /-- appended to the wait queue of a mutex -/
  | queued (mutex : μ) (fiber : ι)
  /-- made the owner of a mutex that had none -/
  | acquired (mutex : μ) (fiber : ι)
  /-- made the owner of a mutex by the fiber that released it -/
  | granted (mutex : μ) (fiber : ι)
  /-- no longer the owner of a mutex -/
  | released (mutex : μ) (fiber : ι)
  /-- appended to the wait queue of a condition variable -/
  | waited (cond : κ) (fiber : ι)
  /-- taken from the wait queue of a condition variable -/
  | woken (cond : κ) (fiber : ι)
  /-- returned from `dfk_cond_wait` -/
  | returned (cond : κ) (fiber : ι)
  deriving Repr, DecidableEq

/-- `dfk_scheduler_t` and what its fibers share. -/
structure State (ι μ κ : Type) where
  control : Control ι
  pending : List ι
  /-- the local list of `dfk__scheduler` -/
  batch : List ι
  iowait : Int
  terminated : List ι
  fds : List (FdElement ι)
  eventloop : EventloopAt
  mutexes : μ → Mutex ι
  conds : κ → List ι
  /-- fibers that have been allocated and not been freed -/
  live : ι → Bool
  resumption : ι → Resumption μ κ
  trace : List (Event ι μ κ)

namespace State

/-- Add to the trace. -/
def emit (state : State ι μ κ) (events : List (Event ι μ κ)) : State ι μ κ :=
  { state with trace := state.trace ++ events }

/-- Write to a mutex. -/
def setMutex [DecidableEq μ]
    (state : State ι μ κ) (mutex : μ) (contents : Mutex ι) : State ι μ κ :=
  { state with
    mutexes := fun query =>
      if query = mutex then contents else state.mutexes query }

/-- Write to the wait queue of a condition variable. -/
def setCond [DecidableEq κ]
    (state : State ι μ κ) (cond : κ) (waitqueue : List ι) : State ι μ κ :=
  { state with
    conds := fun query =>
      if query = cond then waitqueue else state.conds query }

/-- Set where a fiber goes on. -/
def setResumption [DecidableEq ι]
    (state : State ι μ κ) (fiber : ι) (resumption : Resumption μ κ) :
    State ι μ κ :=
  { state with
    resumption := fun query =>
      if query = fiber then resumption else state.resumption query }

end State

variable [DecidableEq ι] [DecidableEq μ] [DecidableEq κ]

/-! ## The scheduler -/

/-- `dfk__resume` -/
def resume (state : State ι μ κ) (fiber : ι) : State ι μ κ :=
  { state with pending := state.pending ++ [fiber] }.emit [.ready fiber]

/-- `dfk_yield(this, scheduler->fiber)` of a fiber other than the event loop. -/
def yieldBack (state : State ι μ κ) (this : ι)
    (resumption : Resumption μ κ) : State ι μ κ :=
  { state.setResumption this resumption with control := .draining }

/-- `dfk__suspend` -/
def suspend (state : State ι μ κ) (this : ι) (resumption : Resumption μ κ) :
    State ι μ κ :=
  yieldBack state this resumption

/-- `dfk__iosuspend` -/
def iosuspend (state : State ι μ κ) (this : ι) (resumption : Resumption μ κ) :
    State ι μ κ :=
  yieldBack { state with iowait := state.iowait + 1 } this resumption

/-- `dfk__ioresume` -/
def ioresume (state : State ι μ κ) (fiber : ι) : State ι μ κ :=
  { state with
    iowait := state.iowait - 1
    pending := state.pending ++ [fiber] }.emit [.ready fiber]

/-- `dfk__postpone` -/
def postpone (state : State ι μ κ) (this : ι) : State ι μ κ :=
  yieldBack
    ({ state with pending := state.pending ++ [this] }.emit [.ready this])
    this .client

/-- `dfk__terminate` -/
def terminate (state : State ι μ κ) (this : ι) : State ι μ κ :=
  yieldBack { state with terminated := state.terminated ++ [this] }
    this .client

/-- `dfk_spawn`, if memory for the fiber is obtained. -/
def spawn (state : State ι μ κ) (fiber : Option ι) : State ι μ κ :=
  match fiber with
  | some fiber =>
      resume
        { state.setResumption fiber .client with
          live := fun query => query = fiber || state.live query }
        fiber
  | none => state

/-- `dfk__scheduler` up to its loop over the local list. -/
def spin (state : State ι μ κ) : State ι μ κ :=
  if state.terminated = [] ∧ state.pending = [] ∧ state.iowait = 0 then
    { state with control := .finished }
  else
    { state with
      live := fun query => state.live query && query ∉ state.terminated
      terminated := []
      batch := state.pending
      pending := []
      control := .draining }

/-- A round of the loop over the local list, or what is behind the loop. -/
def drain (state : State ι μ κ) : State ι μ κ :=
  match state.batch with
  | fiber :: batch =>
      { state with batch := batch, control := .fiber fiber }.emit
        [.switched fiber]
  | [] =>
      if state.pending = [] ∧ state.iowait ≠ 0 then
        { state with control := .eventloop }
      else { state with control := .spinning }

/-! ## Mutexes -/

/-- The end of `dfk_mutex_lock`, and what comes after it. -/
def locked (state : State ι μ κ) (this : ι) (mutex : μ)
    (next : State ι μ κ → State ι μ κ) : Except Fault (State ι μ κ) := do
  check ((state.mutexes mutex).owner = some this)
  pure (next state)

/-- `dfk_mutex_lock`; a fiber that is suspended in it goes on as `blocked`. -/
def mutexLock (state : State ι μ κ) (this : ι) (mutex : μ)
    (blocked : Resumption μ κ) (next : State ι μ κ → State ι μ κ) :
    Except Fault (State ι μ κ) :=
  let contents := state.mutexes mutex
  match contents.owner with
  | none =>
      let state := state.setMutex mutex { contents with owner := some this }
      locked (state.emit [.acquired mutex this]) this mutex next
  | some owner =>
      if owner = this then
        locked state this mutex next
      else
        let state :=
          state.setMutex mutex
            { contents with waitqueue := contents.waitqueue ++ [this] }
        pure (suspend (state.emit [.queued mutex this]) this blocked)

/--
What `dfk_mutex_unlock` does behind its assertions, and `dfk_cond_wait` again
in the same words.
-/
def release (state : State ι μ κ) (this : ι) (mutex : μ) : State ι μ κ :=
  match (state.mutexes mutex).waitqueue with
  | [] =>
      (state.setMutex mutex { owner := none, waitqueue := [] }).emit
        [.released mutex this]
  | next :: waitqueue =>
      resume
        ((state.setMutex mutex
            { owner := some next, waitqueue := waitqueue }).emit
          [.released mutex this, .granted mutex next])
        next

/-- `dfk_mutex_unlock` -/
def mutexUnlock (state : State ι μ κ) (this : ι) (mutex : μ) :
    Except Fault (State ι μ κ) := do
  check ((state.mutexes mutex).owner ≠ none)
  check ((state.mutexes mutex).owner = some this)
  pure (release state this mutex)

/-- `dfk_mutex_trylock`; whether it returns `dfk_err_ok`. -/
def mutexTrylock (state : State ι μ κ) (this : ι) (mutex : μ) :
    Bool × State ι μ κ :=
  let contents := state.mutexes mutex
  match contents.owner with
  | some owner => (owner = this, state)
  | none =>
      (true,
        (state.setMutex mutex { contents with owner := some this }).emit
          [.acquired mutex this])

/-! ## Condition variables -/

/-- `dfk_cond_wait` up to the context switch. -/
def condWait (state : State ι μ κ) (this : ι) (cond : κ) (mutex : μ) :
    Except Fault (State ι μ κ) := do
  check ((state.mutexes mutex).owner ≠ none)
  check ((state.mutexes mutex).owner = some this)
  let state := release state this mutex
  let state := state.setCond cond (state.conds cond ++ [this])
  pure (suspend (state.emit [.waited cond this]) this (.wait cond mutex))

/-- The return from `dfk_cond_wait`. -/
def condReturn (this : ι) (cond : κ) (state : State ι μ κ) : State ι μ κ :=
  (state.setResumption this .client).emit [.returned cond this]

/-- `dfk_cond_signal` -/
def condSignal (state : State ι μ κ) (cond : κ) : State ι μ κ :=
  match state.conds cond with
  | fiber :: waitqueue =>
      resume ((state.setCond cond waitqueue).emit [.woken cond fiber]) fiber
  | [] => state

/-- The loop of `dfk_cond_broadcast` over its local list. -/
def wakeAll (cond : κ) : List ι → State ι μ κ → State ι μ κ
  | fiber :: waitqueue, state =>
      wakeAll cond waitqueue (resume (state.emit [.woken cond fiber]) fiber)
  | [], state => state

/-- `dfk_cond_broadcast` -/
def condBroadcast (state : State ι μ κ) (cond : κ) : State ι μ κ :=
  wakeAll cond (state.conds cond) (state.setCond cond [])

/-! ## Input and output -/

/-- `dfk__io` up to the context switch. -/
def io (state : State ι μ κ) (this : ι) (socket : Int) (events : IoEvents) :
    State ι μ κ :=
  iosuspend
    { state with
      fds :=
        state.fds ++ [{ fd := socket, events := events, yieldback := this }] }
    this (.io events)

/-- What `select` reports for a descriptor. -/
structure Ready where
  readable : Int → Bool
  writable : Int → Bool
  exceptional : Int → Bool

/-- Whether any of the three sets holds a descriptor. -/
def Ready.any (ready : Ready) (fd : Int) : Bool :=
  ready.readable fd || ready.writable fd || ready.exceptional fd

/-- The events that are handed to the fiber. -/
def Ready.events (ready : Ready) (fd : Int) : IoEvents where
  isIn := ready.readable fd
  isOut := ready.writable fd
  isErr := ready.exceptional fd

/-- `select` is interrupted, returns 0, or reports ready descriptors. -/
inductive Outcome where
  | interrupted
  | none
  | ready (ready : Ready)

/--
The loop over the descriptors that `select` was called for, some of which have
been passed.
-/
def dispatch (ready : Ready) :
    List (FdElement ι) → List (FdElement ι) → State ι μ κ → State ι μ κ
  | passed, element :: elements, state =>
      if ready.any element.fd then
        let state :=
          state.setResumption element.yieldback
            (.io (ready.events element.fd))
        let state := { state with fds := passed ++ elements }
        dispatch ready passed elements (ioresume state element.yieldback)
      else dispatch ready (passed ++ [element]) elements state
  | _, [], state => state

/-- `DFK_SUSPEND` in the event loop. -/
def suspendEventloop (state : State ι μ κ) (eventloop : EventloopAt) :
    State ι μ κ :=
  { state with control := .spinning, eventloop := eventloop }

/-- The event loop from the call of `select` on. -/
def poll (state : State ι μ κ) : Outcome → State ι μ κ
  | .interrupted => { state with eventloop := .head }
  | .none => suspendEventloop state .head
  | .ready ready =>
      let anyReady := state.fds.any fun element => ready.any element.fd
      let state := dispatch ready [] state.fds state
      if anyReady then suspendEventloop state .head
      else { state with eventloop := .head }

/-- `dfk__eventloop_main` up to the next call of `select` and behind it. -/
def eventloopMain (state : State ι μ κ) (outcome : Outcome) : State ι μ κ :=
  match state.eventloop with
  | .head =>
      if state.fds = [] then suspendEventloop state .select
      else poll state outcome
  | .select => poll state outcome

/-! ## Steps -/

/-- What a fiber may call. -/
inductive Call (ι μ κ : Type) where
  | spawn (fiber : Option ι)
  | postpone
  | lock (mutex : μ)
  | trylock (mutex : μ)
  | unlock (mutex : μ)
  | wait (cond : κ) (mutex : μ)
  | signal (cond : κ)
  | broadcast (cond : κ)
  | io (socket : Int) (events : IoEvents)
  | exit
  deriving Repr, DecidableEq

/-- What happens next. -/
inductive Action (ι μ κ : Type) where
  /-- the scheduler goes on -/
  | schedule
  /-- the event loop goes on -/
  | poll (outcome : Outcome)
  /-- a fiber goes on in the function in which it was suspended -/
  | proceed
  /-- a fiber makes a call -/
  | call (call : Call ι μ κ)

/-- Make a call. -/
def perform (state : State ι μ κ) (this : ι) :
    Call ι μ κ → Except Fault (State ι μ κ)
  | .spawn fiber => .ok (spawn state fiber)
  | .postpone => .ok (postpone state this)
  | .lock mutex => mutexLock state this mutex (.lock mutex) id
  | .trylock mutex => .ok (mutexTrylock state this mutex).2
  | .unlock mutex => mutexUnlock state this mutex
  | .wait cond mutex => condWait state this cond mutex
  | .signal cond => .ok (condSignal state cond)
  | .broadcast cond => .ok (condBroadcast state cond)
  | .io socket events => .ok (io state this socket events)
  | .exit => .ok (terminate state this)

/-- Go on in the function in which a fiber was suspended. -/
def proceed (state : State ι μ κ) (this : ι) : Except Fault (State ι μ κ) :=
  match state.resumption this with
  | .client => .ok state
  | .lock mutex =>
      locked state this mutex fun state => state.setResumption this .client
  | .wait cond mutex =>
      mutexLock state this mutex (.relock cond mutex) (condReturn this cond)
  | .relock cond mutex => locked state this mutex (condReturn this cond)
  | .io _ => .ok (state.setResumption this .client)

/-- Do what happens next. -/
def step (state : State ι μ κ) (action : Action ι μ κ) :
    Except Fault (State ι μ κ) :=
  match state.control, action with
  | .spinning, .schedule => .ok (spin state)
  | .draining, .schedule => .ok (drain state)
  | .eventloop, .poll outcome => .ok (eventloopMain state outcome)
  | .fiber this, .proceed => proceed state this
  | .fiber this, .call call => perform state this call
  | _, _ => .ok state

/-- A new fiber is allocated; a mutex is released by its owner. -/
def Call.Allowed (state : State ι μ κ) (this : ι) : Call ι μ κ → Prop
  | .spawn (some fiber) => state.live fiber = false
  | .unlock mutex => (state.mutexes mutex).owner = some this
  | .wait _ mutex => (state.mutexes mutex).owner = some this
  | _ => True

/-- Whether an action may happen next. -/
def Allowed (state : State ι μ κ) : Action ι μ κ → Prop
  | .schedule => state.control = .spinning ∨ state.control = .draining
  | .poll _ => state.control = .eventloop
  | .proceed =>
      ∃ this, state.control = .fiber this ∧ state.resumption this ≠ .client
  | .call call =>
      ∃ this,
        state.control = .fiber this ∧ state.resumption this = .client ∧
          call.Allowed state this

instance (state : State ι μ κ) (this : ι) :
    (call : Call ι μ κ) → Decidable (call.Allowed state this)
  | .spawn (some _) => inferInstanceAs (Decidable (_ = _))
  | .unlock _ => inferInstanceAs (Decidable (_ = _))
  | .wait _ _ => inferInstanceAs (Decidable (_ = _))
  | .spawn none | .postpone | .lock _ | .trylock _ | .signal _
  | .broadcast _ | .io _ _ | .exit => inferInstanceAs (Decidable True)

instance (state : State ι μ κ) :
    (action : Action ι μ κ) → Decidable (Allowed state action)
  | .schedule => inferInstanceAs (Decidable (_ ∨ _))
  | .poll _ => inferInstanceAs (Decidable (_ = _))
  | .proceed =>
      match control : state.control with
      | .fiber this =>
          decidable_of_iff (state.resumption this ≠ .client)
            ⟨fun goesOn => ⟨this, control, goesOn⟩,
              fun ⟨_, isThis, goesOn⟩ =>
                Control.fiber.inj (control.symm.trans isThis) ▸ goesOn⟩
      | .spinning | .draining | .eventloop | .finished =>
          isFalse fun ⟨_, isThis, _⟩ => nomatch control.symm.trans isThis
  | .call call =>
      match control : state.control with
      | .fiber this =>
          decidable_of_iff
            (state.resumption this = .client ∧ call.Allowed state this)
            ⟨fun allowed => ⟨this, control, allowed⟩,
              fun ⟨_, isThis, allowed⟩ =>
                Control.fiber.inj (control.symm.trans isThis) ▸ allowed⟩
      | .spinning | .draining | .eventloop | .finished =>
          isFalse fun ⟨_, isThis, _⟩ => nomatch control.symm.trans isThis

/-- An action that may happen, and does. -/
def Steps (state : State ι μ κ) (action : Action ι μ κ)
    (next : State ι μ κ) : Prop :=
  Allowed state action ∧ step state action = .ok next

/-- Do what happens next, if it may happen and does. -/
def attempt (state : State ι μ κ) (action : Action ι μ κ) :
    Option (State ι μ κ) :=
  if Allowed state action then (step state action).toOption else none

/-- The state in which `dfk__scheduler_main` begins to loop. -/
def start (main : ι) : State ι μ κ where
  control := .spinning
  pending := [main]
  batch := []
  iowait := 0
  terminated := []
  fds := []
  eventloop := .head
  mutexes := fun _ => { owner := none, waitqueue := [] }
  conds := fun _ => []
  live := fun query => query = main
  resumption := fun _ => .client
  trace := [.ready main]

end Dfk.Scheduler
