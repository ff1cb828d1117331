import Dfk.Library.Ledger
import Dfk.Scheduler.Source

/-!
# A work cycle

`dfk_work`, `dfk__scheduler_main` and the end of `dfk__fiber_main` after the
source, around the scheduler.  Besides the fibers that are spawned by others
there are one for the scheduler and one for the event loop, which is that of
`select.c` or of `epoll.c`.
-/

namespace Dfk.Scheduler

variable {ι μ κ : Type}

/-- Fiber objects that are obtained from `dfk__spawn`. -/
inductive Object (ι : Type) where
  /-- `mainf`, or a fiber obtained from `dfk_spawn` -/
  | fiber (this : ι)
  | scheduler
  | eventloop
  deriving Repr, DecidableEq

/-- Whether the scheduler is to run an object from its lists. -/
def Object.isFiber : Object ι → Bool
  | .fiber _ => true
  | .scheduler | .eventloop => false

/-- Calls of `dfk__spawn`, context switches and calls of `dfk__fiber_free`. -/
abbrev Lifetimes (ι : Type) := List (Ledger.Event (Object ι))

/-- Where `dfk_work` is. -/
inductive Work (ι μ κ : Type) where
  /-- in the loop of `dfk__scheduler_main` -/
  | looping (state : State (Object ι) μ κ) (lifetimes : Lifetimes ι)
  | returned (lifetimes : Lifetimes ι)

/-- What has happened to fiber objects. -/
def Work.lifetimes : Work ι μ κ → Lifetimes ι
  | .looping _ lifetimes | .returned lifetimes => lifetimes

/-- `dfk_work` has returned. -/
def Work.HasReturned : Work ι μ κ → Prop
  | .looping _ _ => False
  | .returned _ => True

/-! ## From the call of `dfk_work` on -/

/-- Which calls of `dfk__spawn` obtain memory. -/
structure Obtains where
  main : Bool
  scheduler : Bool
  eventloop : Bool
  deriving Repr, DecidableEq

/-- `dfk_work` behind `coro_transfer`. -/
def comeback (lifetimes : Lifetimes ι) : Work ι μ κ :=
  .returned (lifetimes ++ [.released .scheduler])

/-- `dfk__scheduler_main` up to its loop. -/
def schedulerMain [DecidableEq ι] (main : ι) (obtains : Bool)
    (lifetimes : Lifetimes ι) : Work ι μ κ :=
  if obtains then
    .looping (start (.fiber main)) (lifetimes ++ [.obtained .eventloop])
  else comeback (lifetimes ++ [.released (.fiber main)])

/-- `dfk_work` -/
def dfkWork [DecidableEq ι] (main : ι) (obtains : Obtains) : Work ι μ κ :=
  if obtains.main then
    if obtains.scheduler then
      schedulerMain main obtains.eventloop
        [.obtained (.fiber main), .obtained .scheduler, .used .scheduler]
    else .returned [.obtained (.fiber main), .released (.fiber main)]
  else .returned []

/-- `dfk__scheduler_main` behind its loop. -/
def schedulerEnd (lifetimes : Lifetimes ι) : Work ι μ κ :=
  comeback (lifetimes ++ [.released .eventloop])

/-! ## The event loop -/

/-- The event loop that the library is built with. -/
inductive Poller where
  | select
  | epoll
  deriving Repr, DecidableEq

section Eventloop

variable [DecidableEq ι]

/--
`epoll_wait` is interrupted, returns 0, or reports arguments of `dfk__io`: the
fibers in it and the events.
-/
inductive EpollOutcome (ι : Type) where
  | interrupted
  | none
  | ready (reported : List (ι × IoEvents))

/-- A round of the loop over the reported arguments. -/
def epollTake (state : State ι μ κ) (reported : ι × IoEvents) : State ι μ κ :=
  let state := state.setResumption reported.1 (.io reported.2)
  let state := ioresume state reported.1
  -- The descriptor has just been reported, so that `EPOLL_CTL_DEL` succeeds.
  { state with
    fds := state.fds.filter fun element => element.yieldback ≠ reported.1 }

/-- `dfk__eventloop_main` of `epoll.c`, from one `epoll_wait` to the next. -/
def epollMain (state : State ι μ κ) : EpollOutcome ι → State ι μ κ
  | .interrupted => state
  | .none => suspendEventloop state .head
  | .ready reported =>
      suspendEventloop (reported.foldl epollTake state) .head

/-- At most 64 arguments of `dfk__io` are reported, and each of them once. -/
def EpollOutcome.Reported (state : State ι μ κ) : EpollOutcome ι → Prop
  | .interrupted | .none => True
  | .ready reported =>
      (0 < reported.length ∧ reported.length ≤ 64) ∧
        (reported.map Prod.fst).Nodup ∧
        ∀ fiber ∈ reported.map Prod.fst,
          fiber ∈ state.fds.map FdElement.yieldback

instance (state : State ι μ κ) :
    (outcome : EpollOutcome ι) → Decidable (outcome.Reported state)
  | .interrupted | .none => inferInstanceAs (Decidable True)
  | .ready _ => inferInstanceAs (Decidable (_ ∧ _ ∧ _))

/--
The end of `dfk__fiber_main` of the event loop, behind the `break` that
`dfk__eventloop_main` leaves its loop with.  The scheduler frees its fiber with
the others that are terminated.
-/
def leaveEventloop (state : State (Object ι) μ κ) : State (Object ι) μ κ :=
  { state with
    terminated := state.terminated ++ [.eventloop]
    live := fun query => query = .eventloop || state.live query
    control := .spinning }

end Eventloop

/-! ## Turns -/

variable [DecidableEq ι] [DecidableEq μ] [DecidableEq κ]

/-- What happens next in a work cycle. -/
inductive Turn (ι μ κ : Type) where
  /-- the scheduler, the event loop of `select.c` or a fiber goes on -/
  | goOn (action : Action (Object ι) μ κ)
  /-- the event loop of `epoll.c` goes on -/
  | report (outcome : EpollOutcome (Object ι))
  /-- `select` or `epoll_wait` fails with an error other than `EINTR` -/
  | fail
  /-- `dfk__scheduler` has returned 1 -/
  | finish

/-- What `dfk__scheduler` frees, or switches to. -/
def schedules (state : State (Object ι) μ κ) : Lifetimes ι :=
  match state.control with
  | .spinning => state.terminated.map .released
  | .draining =>
      match state.batch with
      | fiber :: _ => [.used fiber]
      | [] =>
          if state.pending = [] ∧ state.iowait ≠ 0 then [.used .eventloop]
          else []
  | .fiber _ | .eventloop | .finished => []

/-- What happens to fiber objects in an action. -/
def happens (state : State (Object ι) μ κ) :
    Action (Object ι) μ κ → Lifetimes ι
  | .schedule => schedules state
  | .call (.spawn (some fiber)) => [.obtained fiber]
  | .call _ | .poll _ | .proceed => []

/-- Take a turn. -/
def advance (state : State (Object ι) μ κ) (lifetimes : Lifetimes ι) :
    Turn ι μ κ → Except Fault (Work ι μ κ)
  | .goOn action => do
      let next ← step state action
      pure (.looping next (lifetimes ++ happens state action))
  | .report outcome => pure (.looping (epollMain state outcome) lifetimes)
  | .fail => pure (.looping (leaveEventloop state) lifetimes)
  | .finish => pure (schedulerEnd lifetimes)

/--
What an action is restricted to in a work cycle.  A fiber that has been freed
does not go on.
-/
def FitsCycle (poller : Poller) (lifetimes : Lifetimes ι) :
    Action (Object ι) μ κ → Prop
  | .poll _ =>
      poller = .select ∧ Ledger.held lifetimes .eventloop = true
  | .call (.spawn (some fiber)) => fiber.isFiber = true
  | .call _ | .schedule | .proceed => True

/-- Whether a turn may be taken next. -/
def Turn.Allowed (poller : Poller) (state : State (Object ι) μ κ)
    (lifetimes : Lifetimes ι) : Turn ι μ κ → Prop
  | .goOn action =>
      Scheduler.Allowed state action ∧ FitsCycle poller lifetimes action
  | .report outcome =>
      poller = .epoll ∧ state.control = .eventloop ∧
        Ledger.held lifetimes .eventloop = true ∧ outcome.Reported state
  | .fail =>
      state.control = .eventloop ∧
        Ledger.held lifetimes .eventloop = true ∧
        -- Without descriptors `select` is not called before a suspension.
        (poller = .epoll ∨ state.eventloop = .select ∨ state.fds ≠ [])
  | .finish => state.control = .finished

instance (poller : Poller) (lifetimes : Lifetimes ι) :
    (action : Action (Object ι) μ κ) →
      Decidable (FitsCycle poller lifetimes action)
  | .poll _ => inferInstanceAs (Decidable (_ ∧ _))
  | .call (.spawn (some _)) => inferInstanceAs (Decidable (_ = _))
  | .call (.spawn none) | .call .postpone | .call (.lock _)
  | .call (.trylock _) | .call (.unlock _) | .call (.wait _ _)
  | .call (.signal _) | .call (.broadcast _) | .call (.io _ _) | .call .exit
  | .schedule | .proceed => inferInstanceAs (Decidable True)

instance (poller : Poller) (state : State (Object ι) μ κ)
    (lifetimes : Lifetimes ι) :
    (turn : Turn ι μ κ) → Decidable (turn.Allowed poller state lifetimes)
  | .goOn _ => inferInstanceAs (Decidable (_ ∧ _))
  | .report _ => inferInstanceAs (Decidable (_ ∧ _ ∧ _ ∧ _))
  | .fail => inferInstanceAs (Decidable (_ ∧ _ ∧ _))
  | .finish => inferInstanceAs (Decidable (_ = _))

/-- A turn that may be taken, and is. -/
def Work.Steps (poller : Poller) :
    Work ι μ κ → Turn ι μ κ → Work ι μ κ → Prop
  | .looping state lifetimes, turn, next =>
      turn.Allowed poller state lifetimes ∧
        advance state lifetimes turn = .ok next
  | .returned _, _, _ => False

/-- Take a turn, if it may be taken. -/
def Work.attempt (poller : Poller) :
    Work ι μ κ → Turn ι μ κ → Option (Work ι μ κ)
  | .looping state lifetimes, turn =>
      if turn.Allowed poller state lifetimes then
        (advance state lifetimes turn).toOption
      else none
  | .returned _, _ => none

end Dfk.Scheduler
