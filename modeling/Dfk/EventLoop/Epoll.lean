import Dfk.Scheduler.WorkCycle

/-!
# The event loop of `epoll.c`

`dfk__io` and `dfk__eventloop_main` after the source, with the part of the
kernel that they rest on.  The kernel keeps pointers to arguments that live in
the frames of `dfk__io`.  `fds` of the scheduler stands for who is suspended
there; no function here reads it.
-/

namespace Dfk.EventLoop

open Scheduler

variable {ι μ κ : Type}

/-- `dfk_epoll_arg_t` -/
structure EpollArg (ι : Type) where
  yieldback : ι
  events : IoEvents
  fd : Int
  deriving Repr, DecidableEq

/--
What the kernel keeps of `EPOLL_CTL_ADD`; `data` is the fiber in whose frame
the argument is that `event.data.ptr` points to.
-/
structure Registration (ι : Type) where
  fd : Int
  events : IoEvents
  data : ι
  deriving Repr, DecidableEq

/-- Who waits for a descriptor. -/
def Registration.element (registration : Registration ι) : FdElement ι where
  fd := registration.fd
  events := registration.events
  yieldback := registration.data

/-- The scheduler, the event loop and its part of the kernel. -/
structure Epoll (ι μ κ : Type) where
  scheduler : Scheduler.State ι μ κ
  /-- the argument in the frame of `dfk__io`, of a fiber that is in it -/
  args : ι → Option (EpollArg ι)
  registered : List (Registration ι)
  isOpen : Int → Bool
  /-- whose descriptor was closed meanwhile, which no function reads -/
  stranded : List (FdElement ι)
  /-- what `dfk__io` has returned, which no function reads -/
  results : List (ι × IoEvents)

/-- `DFK_IO_ERR` -/
def ioErr : IoEvents where
  isIn := false
  isOut := false
  isErr := true

/-- No events. -/
def noEvents : IoEvents where
  isIn := false
  isOut := false
  isErr := false

/--
`epoll_wait` is interrupted, returns 0, or reports what is registered, with
events.
-/
inductive EpollWait (ι : Type) where
  | interrupted
  | none
  | ready (reported : List (Registration ι × IoEvents))

namespace Epoll

/-- `epoll_ctl` with `EPOLL_CTL_DEL`; whether it succeeds. -/
def ctlDel (epoll : Epoll ι μ κ) (fd : Int) : Bool × Epoll ι μ κ :=
  (epoll.registered.any fun registration => registration.fd = fd,
    { epoll with
      registered :=
        epoll.registered.filter fun registration => registration.fd ≠ fd })

variable [DecidableEq ι]

/-- `dfk__io`; whether `EPOLL_CTL_ADD` succeeds is up to the kernel. -/
def io (epoll : Epoll ι μ κ) (this : ι) (socket : Int) (events : IoEvents)
    (adds : Bool) : Epoll ι μ κ :=
  if adds then
    { epoll with
      scheduler := Scheduler.io epoll.scheduler this socket events
      args :=
        Function.update epoll.args this
          (some { yieldback := this, events := noEvents, fd := socket })
      registered :=
        epoll.registered ++ [{ fd := socket, events := events, data := this }] }
  else { epoll with results := epoll.results ++ [(this, ioErr)] }

/-- `dfk__io` behind `DFK_IOSUSPEND`; its frame is left. -/
def ioReturn [DecidableEq μ] [DecidableEq κ]
    (epoll : Epoll ι μ κ) (this : ι) : Except Fault (Epoll ι μ κ) := do
  let arg ← deref (epoll.args this)
  let scheduler ← Scheduler.proceed epoll.scheduler this
  pure
    { epoll with
      scheduler := scheduler
      args := Function.update epoll.args this none
      results := epoll.results ++ [(this, arg.events)] }

/-- A round of the loop over what is reported; whether the loop goes on. -/
def round (epoll : Epoll ι μ κ) (reported : Registration ι × IoEvents) :
    Except Fault (Bool × Epoll ι μ κ) := do
  let arg ← deref (epoll.args reported.1.data)
  let args :=
    Function.update epoll.args reported.1.data
      (some { arg with events := reported.2 })
  -- `DFK_IORESUME`, and the wait set without the fiber
  let scheduler := epollTake epoll.scheduler (arg.yieldback, reported.2)
  pure ({ epoll with scheduler := scheduler, args := args }.ctlDel arg.fd)

/-- The loop over what is reported. -/
def rounds : List (Registration ι × IoEvents) → Epoll ι μ κ →
    Except Fault (Epoll ι μ κ)
  | [], epoll => pure epoll
  | first :: reported, epoll => do
      let (deleted, epoll) ← epoll.round first
      if deleted then rounds reported epoll
      else pure epoll

/-- `dfk__eventloop_main`, from one `epoll_wait` to the next. -/
def main (epoll : Epoll ι μ κ) :
    EpollWait ι → Except Fault (Epoll ι μ κ)
  | .interrupted => pure epoll
  | .none =>
      pure
        { epoll with scheduler := suspendEventloop epoll.scheduler .head }
  | .ready reported => do
      let epoll ← rounds reported epoll
      pure
        { epoll with scheduler := suspendEventloop epoll.scheduler .head }

/-- `close`; the kernel forgets what is registered for the descriptor. -/
def close (epoll : Epoll ι μ κ) (fd : Int) : Epoll ι μ κ :=
  { epoll with
    isOpen := Function.update epoll.isOpen fd false
    registered :=
      epoll.registered.filter fun registration => registration.fd ≠ fd
    stranded :=
      epoll.stranded ++
        (epoll.registered.filter fun registration =>
          registration.fd = fd).map Registration.element }

end Epoll

/-! ## Steps -/

/-- What happens next. -/
inductive EpollAction (ι μ κ : Type) where
  /-- the scheduler or a fiber goes on, outside of `dfk__io` -/
  | goOn (action : Action ι μ κ)
  | io (socket : Int) (events : IoEvents) (adds : Bool)
  | ioReturn
  | wait (outcome : EpollWait ι)
  | opens (fd : Int)
  | closes (fd : Int)

/-- The fiber that runs. -/
def runs (state : Scheduler.State ι μ κ) : Option ι :=
  match state.control with
  | .fiber this => some this
  | .spinning | .draining | .eventloop | .finished => none

theorem control_of_runs
    {state : Scheduler.State ι μ κ} {this : ι}
    (isRunning : runs state = some this) :
    state.control = .fiber this := by
  rw [runs] at isRunning
  split at isRunning
  · next control =>
      cases isRunning
      exact control
  all_goals cases isRunning

/-- Whether a fiber runs, in client code. -/
def isInClient [DecidableEq μ] [DecidableEq κ]
    (state : Scheduler.State ι μ κ) : Bool :=
  (runs state).any fun this => state.resumption this = .client

/-- Whether a fiber runs that is about to return from `dfk__io`. -/
def isInIo (state : Scheduler.State ι μ κ) : Bool :=
  (runs state).any fun this =>
    match state.resumption this with
    | .io _ => true
    | .client | .lock _ | .wait _ _ | .relock _ _ => false

/-- Actions of the scheduler that have nothing to do with `dfk__io`. -/
def isOutside (state : Scheduler.State ι μ κ) : Action ι μ κ → Bool
  | .poll _ => false
  | .call (.io _ _) => false
  | .call _ | .schedule => true
  | .proceed => !isInIo state

/-- At most 64 of those that are registered are reported, each of them once. -/
def EpollWait.Delivers (epoll : Epoll ι μ κ) : EpollWait ι → Prop
  | .interrupted | .none => True
  | .ready reported =>
      (0 < reported.length ∧ reported.length ≤ 64) ∧
        (reported.map Prod.fst).Nodup ∧
        ∀ registration ∈ reported.map Prod.fst,
          registration ∈ epoll.registered

variable [DecidableEq ι] [DecidableEq μ] [DecidableEq κ]

namespace EpollAction

/-- Do what happens next. -/
def perform (epoll : Epoll ι μ κ) :
    EpollAction ι μ κ → Except Fault (Epoll ι μ κ)
  | .goOn action => do
      let scheduler ← step epoll.scheduler action
      pure { epoll with scheduler := scheduler }
  | .io socket events adds =>
      match runs epoll.scheduler with
      | some this => pure (epoll.io this socket events adds)
      | none => pure epoll
  | .ioReturn =>
      match runs epoll.scheduler with
      | some this => epoll.ioReturn this
      | none => pure epoll
  | .wait outcome => epoll.main outcome
  | .opens fd =>
      pure { epoll with isOpen := Function.update epoll.isOpen fd true }
  | .closes fd => pure (epoll.close fd)

/--
Whether an action may happen next.  A descriptor is added that is open and not
registered yet.
-/
def Allowed (epoll : Epoll ι μ κ) : EpollAction ι μ κ → Prop
  | .goOn action =>
      Scheduler.Allowed epoll.scheduler action ∧
        isOutside epoll.scheduler action = true
  | .io socket _ adds =>
      isInClient epoll.scheduler = true ∧
        (adds = true →
          epoll.isOpen socket = true ∧
            ∀ registration ∈ epoll.registered, registration.fd ≠ socket)
  | .ioReturn => isInIo epoll.scheduler = true
  | .wait outcome =>
      epoll.scheduler.control = .eventloop ∧ outcome.Delivers epoll
  | .opens fd =>
      isInClient epoll.scheduler = true ∧ epoll.isOpen fd = false
  | .closes _ => isInClient epoll.scheduler = true

instance (epoll : Epoll ι μ κ) :
    (outcome : EpollWait ι) → Decidable (outcome.Delivers epoll)
  | .interrupted | .none => inferInstanceAs (Decidable True)
  | .ready _ => inferInstanceAs (Decidable (_ ∧ _ ∧ _))

instance (epoll : Epoll ι μ κ) :
    (action : EpollAction ι μ κ) → Decidable (action.Allowed epoll)
  | .goOn _ => inferInstanceAs (Decidable (_ ∧ _))
  | .io _ _ _ => inferInstanceAs (Decidable (_ ∧ (_ → _ ∧ _)))
  | .ioReturn => inferInstanceAs (Decidable (_ = _))
  | .wait _ => inferInstanceAs (Decidable (_ ∧ _))
  | .opens _ => inferInstanceAs (Decidable (_ ∧ _))
  | .closes _ => inferInstanceAs (Decidable (_ = _))

/-- Do what happens next, if it may happen and does. -/
def attempt (epoll : Epoll ι μ κ) (action : EpollAction ι μ κ) :
    Option (Epoll ι μ κ) :=
  if action.Allowed epoll then (action.perform epoll).toOption else none

end EpollAction

/-- An action that may happen, and does. -/
def EpollSteps (epoll : Epoll ι μ κ) (action : EpollAction ι μ κ)
    (next : Epoll ι μ κ) : Prop :=
  action.Allowed epoll ∧ action.perform epoll = .ok next

/-- The state in which `dfk__scheduler_main` begins to loop. -/
def startEpoll (main : ι) (isOpen : Int → Bool) : Epoll ι μ κ where
  scheduler := start main
  args := fun _ => none
  registered := []
  isOpen := isOpen
  stranded := []
  results := []

end Dfk.EventLoop
