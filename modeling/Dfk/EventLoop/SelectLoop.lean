import Dfk.EventLoop.Epoll
import Dfk.EventLoop.WokenWaiters

/-!
# The event loop of `select.c`

`dfk__io` and `dfk__eventloop_main` after the source, with the list of
descriptors in memory.  An element is in the frame of `dfk__io`, and a fiber is
in one such frame at most, so that an element goes by the name of its fiber.
`fds` of the scheduler is not used.
-/

namespace Dfk.EventLoop

open LinkedList Scheduler

variable {ι μ κ : Type}

/-- What `select` is called with. -/
structure Asked where
  /-- `readfds`, `writefds` and `exceptfds` -/
  sets : Ready
  maxfd : Int

namespace Asked

/-- `FD_ZERO` of all sets. -/
def zero : Asked where
  sets :=
    { readable := fun _ => false
      writable := fun _ => false
      exceptional := fun _ => false }
  maxfd := 0

/-- A round of the loop that fills the sets. -/
def add (asked : Asked) (element : FdElement ι) : Asked where
  sets :=
    { readable :=
        if element.events.isIn then
          Function.update asked.sets.readable element.fd true
        else asked.sets.readable
      writable :=
        if element.events.isOut then
          Function.update asked.sets.writable element.fd true
        else asked.sets.writable
      exceptional :=
        Function.update asked.sets.exceptional element.fd true }
  maxfd := max asked.maxfd element.fd

end Asked

/-- The scheduler, and the list of the event loop. -/
structure Selecting (ι μ κ : Type) where
  scheduler : Scheduler.State ι μ κ
  /-- the hooks of the elements, and the list `fds` -/
  memory : LinkedList.Memory ι Unit
  /-- what is in the frames of `dfk__io`, or was -/
  elements : ι → FdElement ι
  /-- what `select` was called with, which no function reads -/
  asked : Option Asked
  /-- what `dfk__io` has returned, which no function reads -/
  results : List (ι × IoEvents)

namespace Selecting

/-- A loop over hooks that takes more rounds does not end. -/
def bound (selecting : Selecting ι μ κ) : Nat :=
  selecting.scheduler.iowait.toNat + 3

variable [DecidableEq ι]

/-- `dfk__io`, up to the context switch. -/
def io (selecting : Selecting ι μ κ) (this : ι) (socket : Int)
    (events : IoEvents) : Except Fault (Selecting ι μ κ) := do
  -- the initializer of the element does not name its hook
  let memory :=
    selecting.memory.modify this fun _ => { next := none, prev := none }
  let memory ← LinkedList.append selecting.bound memory () this
  pure
    { selecting with
      scheduler := iosuspend selecting.scheduler this (.io events)
      memory := memory
      elements :=
        Function.update selecting.elements this
          { fd := socket, events := events, yieldback := this } }

/-- `dfk__io` behind `DFK_IOSUSPEND`. -/
def ioReturn (selecting : Selecting ι μ κ) (this : ι) : Selecting ι μ κ :=
  { selecting with
    scheduler := selecting.scheduler.setResumption this .client
    results :=
      selecting.results ++ [(this, (selecting.elements this).events)] }

/-- The loop that fills the sets, which takes at most `rounds` rounds. -/
def askFrom (selecting : Selecting ι μ κ) (stop : It ι) :
    Nat → It ι → Asked → Except Fault Asked
  | 0, _, _ => .error .outOfFuel
  | rounds + 1, it, asked => do
      if ← LinkedList.itEqual selecting.bound selecting.memory it stop then
        pure asked
      else
        let hook ← deref it.value
        let it ← LinkedList.itNext selecting.bound selecting.memory it
        selecting.askFrom stop rounds it
          (asked.add (selecting.elements hook))

/-- What `select` is called with next. -/
def ask (selecting : Selecting ι μ κ) : Except Fault Asked := do
  let it ← LinkedList.begin selecting.bound selecting.memory ()
  let stop ← LinkedList.listEnd selecting.bound selecting.memory ()
  selecting.askFrom stop selecting.bound it .zero

/-- What the pass over the list starts with. -/
def toPass (selecting : Selecting ι μ κ) :
    Pass (Layout.default : Layout ι Unit) ι μ κ where
  memory := selecting.memory
  elements := selecting.elements
  scheduler := selecting.scheduler
  anyReady := false
  visited := []

/-- Some descriptors are ready. -/
def dispatch (selecting : Selecting ι μ κ) (ready : Ready) :
    Except Fault (Selecting ι μ κ) := do
  let pass ←
    selectPass Layout.default selecting.bound ready () selecting.toPass
  pure
    { selecting with
      memory := pass.memory
      elements := pass.elements
      scheduler :=
        if pass.anyReady then suspendEventloop pass.scheduler .head
        else { pass.scheduler with eventloop := .head } }

/-- The event loop from the loop that fills the sets on. -/
def select (selecting : Selecting ι μ κ) (outcome : Outcome) :
    Except Fault (Selecting ι μ κ) := do
  let asked ← selecting.ask
  let selecting := { selecting with asked := some asked }
  match outcome with
  | .interrupted =>
      pure
        { selecting with
          scheduler := { selecting.scheduler with eventloop := .head } }
  | .none =>
      pure
        { selecting with
          scheduler := suspendEventloop selecting.scheduler .head }
  | .ready ready => selecting.dispatch ready

/-- `dfk__eventloop_main` up to the next call of `select` and behind it. -/
def main (selecting : Selecting ι μ κ) (outcome : Outcome) :
    Except Fault (Selecting ι μ κ) :=
  match selecting.scheduler.eventloop with
  | .head => do
      if ← LinkedList.empty selecting.bound selecting.memory () then
        pure
          { selecting with
            scheduler := suspendEventloop selecting.scheduler .select }
      else selecting.select outcome
  | .select => selecting.select outcome

end Selecting

/-! ## Steps -/

/-- What happens next. -/
inductive SelectAction (ι μ κ : Type) where
  /-- the scheduler or a fiber goes on, outside of `dfk__io` -/
  | goOn (action : Action ι μ κ)
  | io (socket : Int) (events : IoEvents)
  | ioReturn
  | select (outcome : Outcome)

/-- What it is called where the list is not in memory. -/
def SelectAction.abstracted : SelectAction ι μ κ → Action ι μ κ
  | .goOn action => action
  | .io socket events => .call (.io socket events)
  | .ioReturn => .proceed
  | .select outcome => .poll outcome

variable [DecidableEq ι] [DecidableEq μ] [DecidableEq κ]

namespace SelectAction

/-- Do what happens next. -/
def perform (selecting : Selecting ι μ κ) :
    SelectAction ι μ κ → Except Fault (Selecting ι μ κ)
  | .goOn action => do
      let scheduler ← step selecting.scheduler action
      pure { selecting with scheduler := scheduler }
  | .io socket events =>
      match runs selecting.scheduler with
      | some this => selecting.io this socket events
      | none => pure selecting
  | .ioReturn =>
      match runs selecting.scheduler with
      | some this => pure (selecting.ioReturn this)
      | none => pure selecting
  | .select outcome => selecting.main outcome

/-- Whether an action may happen next. -/
def Allowed (selecting : Selecting ι μ κ) : SelectAction ι μ κ → Prop
  | .goOn action =>
      Scheduler.Allowed selecting.scheduler action ∧
        isOutside selecting.scheduler action = true
  | .io _ _ => isInClient selecting.scheduler = true
  | .ioReturn => isInIo selecting.scheduler = true
  | .select _ => selecting.scheduler.control = .eventloop

instance (selecting : Selecting ι μ κ) :
    (action : SelectAction ι μ κ) → Decidable (action.Allowed selecting)
  | .goOn _ => inferInstanceAs (Decidable (_ ∧ _))
  | .io _ _ => inferInstanceAs (Decidable (_ = _))
  | .ioReturn => inferInstanceAs (Decidable (_ = _))
  | .select _ => inferInstanceAs (Decidable (_ = _))

/-- Do what happens next, if it may happen and does. -/
def attempt (selecting : Selecting ι μ κ) (action : SelectAction ι μ κ) :
    Option (Selecting ι μ κ) :=
  if action.Allowed selecting then (action.perform selecting).toOption
  else none

end SelectAction

/-- An action that may happen, and does. -/
def SelectSteps (selecting : Selecting ι μ κ) (action : SelectAction ι μ κ)
    (next : Selecting ι μ κ) : Prop :=
  action.Allowed selecting ∧ action.perform selecting = .ok next

/--
The state in which `dfk__scheduler_main` begins to loop; the memory of frames
may hold anything.
-/
def startSelect (main : ι) (constantTimeSize : Bool) (hooks : ι → Hook ι)
    (elements : ι → FdElement ι) : Selecting ι μ κ where
  scheduler := start main
  memory :=
    { hooks := hooks
      lists := fun _ => freshList constantTimeSize }
  elements := elements
  asked := none
  results := []

end Dfk.EventLoop
