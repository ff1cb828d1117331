import Dfk.Scheduler.Frame
import Dfk.Scheduler.Placement

/-!
# Closed descriptors in the wait set

`dfk__close` after the source, beside the scheduler and the event loop of
`select.c`.  A number is an open descriptor from the call that returns it to
the one that closes it; afterwards it may be given to another file.  `openings`
and `waitsFor` tell such files apart and are read by no function.
-/

namespace Dfk.EventLoop

open Scheduler

variable {ι μ κ : Type}

/-- The scheduler, and the descriptors of the process. -/
structure Descriptors (ι μ κ : Type) where
  scheduler : Scheduler.State ι μ κ
  /-- the open descriptors, each with the number of its opening -/
  opened : Int → Option Nat
  openings : Nat
  /-- the opening of the descriptor that a fiber has called `dfk__io` for -/
  waitsFor : ι → Option Nat

/-- `dfk__eventloop_fd_in_set` -/
def fdInSet (fds : List (FdElement ι)) (fd : Int) : Bool :=
  fds.any fun element => element.fd = fd

/-- `socket`, `accept` or `pipe`, which return a number that is not open. -/
def Descriptors.openAs (descriptors : Descriptors ι μ κ) (fd : Int) :
    Descriptors ι μ κ :=
  { descriptors with
    opened := Function.update descriptors.opened fd
      (some descriptors.openings)
    openings := descriptors.openings + 1 }

/-- `close`, which fails for a number that is not open. -/
def Descriptors.close (descriptors : Descriptors ι μ κ) (fd : Int) :
    Bool × Descriptors ι μ κ :=
  ((descriptors.opened fd).isSome,
    { descriptors with opened := Function.update descriptors.opened fd none })

/-- `dfk__close`; whether it returns `dfk_err_ok`. -/
def dfkClose (descriptors : Descriptors ι μ κ) (sock : Int) :
    Bool × Descriptors ι μ κ :=
  descriptors.close sock

/-- `dfk_tcp_socket_t` -/
structure TcpSocket where
  socket : Int
  deriving Repr, DecidableEq

/-- `dfk_tcp_socket_close` -/
def tcpSocketClose (descriptors : Descriptors ι μ κ) (sock : TcpSocket) :
    Bool × Descriptors ι μ κ :=
  dfkClose descriptors sock.socket

/-! ## Steps -/

/-- What happens next. -/
inductive SocketAction (ι μ κ : Type) where
  | goOn (action : Action ι μ κ)
  /-- the running fiber obtains a descriptor -/
  | opens (fd : Int)
  /-- the running fiber calls `dfk_tcp_socket_close` -/
  | closes (sock : TcpSocket)

variable [DecidableEq ι] [DecidableEq μ] [DecidableEq κ]

/-- The opening that a fiber waits for, if an action calls `dfk__io`. -/
def Descriptors.awaited (descriptors : Descriptors ι μ κ) :
    Action ι μ κ → ι → Option Nat
  | .call (.io socket _) =>
      match descriptors.scheduler.control with
      | .fiber this =>
          Function.update descriptors.waitsFor this (descriptors.opened socket)
      | .spinning | .draining | .eventloop | .finished => descriptors.waitsFor
  | _ => descriptors.waitsFor

/-- Do what happens next. -/
def SocketAction.perform (descriptors : Descriptors ι μ κ) :
    SocketAction ι μ κ → Except Fault (Descriptors ι μ κ)
  | .goOn action => do
      let scheduler ← step descriptors.scheduler action
      pure
        { descriptors with
          scheduler := scheduler
          waitsFor := descriptors.awaited action }
  | .opens fd => pure (descriptors.openAs fd)
  | .closes sock => pure (tcpSocketClose descriptors sock).2

/-- A fiber runs, in client code. -/
def inClient (state : Scheduler.State ι μ κ) : Bool :=
  match state.control with
  | .fiber this => state.resumption this = .client
  | .spinning | .draining | .eventloop | .finished => false

/--
`dfk__io` is only called for a descriptor for which a system call has just
returned `EAGAIN` or `EINPROGRESS`.
-/
def Descriptors.Answers (descriptors : Descriptors ι μ κ) :
    Action ι μ κ → Prop
  | .call (.io socket _) => (descriptors.opened socket).isSome = true
  | .call _ | .schedule | .poll _ | .proceed => True

/-- Whether an action may happen next. -/
def SocketAction.Allowed (descriptors : Descriptors ι μ κ) :
    SocketAction ι μ κ → Prop
  | .goOn action =>
      Scheduler.Allowed descriptors.scheduler action ∧
        descriptors.Answers action
  | .opens fd =>
      inClient descriptors.scheduler = true ∧ descriptors.opened fd = none
  | .closes _ => inClient descriptors.scheduler = true

instance (descriptors : Descriptors ι μ κ) :
    (action : Action ι μ κ) → Decidable (descriptors.Answers action)
  | .call (.io _ _) => inferInstanceAs (Decidable (_ = _))
  | .call (.spawn _) | .call .postpone | .call (.lock _)
  | .call (.trylock _) | .call (.unlock _) | .call (.wait _ _)
  | .call (.signal _) | .call (.broadcast _) | .call .exit
  | .schedule | .poll _ | .proceed => inferInstanceAs (Decidable True)

instance (descriptors : Descriptors ι μ κ) :
    (action : SocketAction ι μ κ) → Decidable (action.Allowed descriptors)
  | .goOn _ => inferInstanceAs (Decidable (_ ∧ _))
  | .opens _ => inferInstanceAs (Decidable (_ ∧ _))
  | .closes _ => inferInstanceAs (Decidable (_ = _))

/-- An action that may happen, and does. -/
def SocketSteps (descriptors : Descriptors ι μ κ)
    (action : SocketAction ι μ κ) (next : Descriptors ι μ κ) : Prop :=
  action.Allowed descriptors ∧ action.perform descriptors = .ok next

/-- Do what happens next, if it may happen and does. -/
def SocketAction.attempt (descriptors : Descriptors ι μ κ)
    (action : SocketAction ι μ κ) : Option (Descriptors ι μ κ) :=
  if action.Allowed descriptors then (action.perform descriptors).toOption
  else none

/-- The state in which `dfk__scheduler_main` begins to loop. -/
def startWith (main : ι) (isOpen : Int → Bool) : Descriptors ι μ κ where
  scheduler := start main
  opened := fun fd => if isOpen fd then some 0 else none
  openings := 1
  waitsFor := fun _ => none

/-! ## Waiters of closed descriptors -/

/-- What is claimed of a step. -/
structure NoWaiterLeft (descriptors : Descriptors ι μ κ)
    (action : SocketAction ι μ κ) (next : Descriptors ι μ κ) : Prop where
  /-- Nobody waits for a descriptor that has been closed. -/
  closed :
    ∀ sock,
      action = .closes sock →
        fdInSet next.scheduler.fds sock.socket = false
  /-- Every descriptor in the wait set is open. -/
  areOpen :
    ∀ element ∈ next.scheduler.fds, (next.opened element.fd).isSome
  /-- The assertion of `dfk__io` never meets an element of another file. -/
  notReused :
    ∀ socket events,
      action = .goOn (.call (.io socket events)) →
        ∀ element ∈ descriptors.scheduler.fds,
          element.fd = socket →
            descriptors.waitsFor element.yieldback =
              descriptors.opened socket
  /-- `select` is only called for open descriptors. -/
  selected :
    ∀ outcome,
      action = .goOn (.poll outcome) →
        ∀ element ∈ descriptors.scheduler.fds,
          (descriptors.opened element.fd).isSome

/-- No descriptor is closed that another fiber is blocked in `dfk__io` for. -/
def SocketAction.Unawaited (descriptors : Descriptors ι μ κ) :
    SocketAction ι μ κ → Prop
  | .closes sock =>
      ∀ fiber events,
        { fd := sock.socket, events := events, yieldback := fiber } ∉
          descriptors.scheduler.fds
  | .goOn _ | .opens _ => True

/-- Every waiter waits for the file that its descriptor stands for. -/
structure Current (descriptors : Descriptors ι μ κ) : Prop where
  consistent : ∃ location, Consistent descriptors.scheduler location
  areOpen :
    ∀ element ∈ descriptors.scheduler.fds,
      (descriptors.opened element.fd).isSome
  same :
    ∀ element ∈ descriptors.scheduler.fds,
      descriptors.waitsFor element.yieldback = descriptors.opened element.fd

section Steps

variable {descriptors next : Descriptors ι μ κ}
variable {action : SocketAction ι μ κ} {element : FdElement ι}

/-- Whoever is in the wait set does not call `dfk__io`. -/
theorem awaited_of_registered
    {location : ι → Option (Place μ κ)} {act : Action ι μ κ}
    (consistent : Consistent descriptors.scheduler location)
    (registered : element ∈ descriptors.scheduler.fds) :
    descriptors.awaited act element.yieldback =
      descriptors.waitsFor element.yieldback := by
  have isIo : location element.yieldback = some .io := by
    apply consistent.location_of_count
    apply List.count_pos_iff.mpr
    exact List.mem_map.mpr ⟨element, registered, rfl⟩
  cases act with
  | call call =>
      cases call with
      | io socket events =>
          rw [Descriptors.awaited]
          cases control : descriptors.scheduler.control with
          | fiber this =>
              have isRunning := consistent.running control
              have differs : element.yieldback ≠ this := by
                intro same
                rw [same, isRunning] at isIo
                cases isIo
              exact Function.update_of_ne differs ..
          | _ => rfl
      | _ => rfl
  | _ => rfl

/-- The scheduler, the event loop or a fiber goes on. -/
theorem Current.goOn
    {act : Action ι μ κ}
    (current : Current descriptors)
    (steps : SocketSteps descriptors (.goOn act) next) :
    Current next := by
  obtain ⟨⟨allowed, isOpen⟩, performs⟩ := steps
  obtain ⟨location, consistent⟩ := current.consistent
  obtain ⟨after, performed, isNext⟩ := of_bind performs
  cases isNext
  obtain ⟨_, location', performed', consistent'⟩ := consistent.step allowed
  cases performed'.symm.trans performed
  refine ⟨⟨location', consistent'⟩, fun element member => ?_,
    fun element member => ?_⟩
  · rcases step_fds allowed performed member with isOld | ⟨-, isIo⟩
    · exact current.areOpen element isOld
    · rw [isIo] at isOpen
      exact isOpen
  · rcases step_fds allowed performed member with isOld | ⟨control, isIo⟩
    · exact (awaited_of_registered consistent isOld).trans
        (current.same element isOld)
    · change descriptors.awaited act element.yieldback = _
      rw [isIo, Descriptors.awaited, control]
      exact Function.update_self ..

/-- A descriptor is obtained. -/
theorem Current.opens
    {fd : Int}
    (current : Current descriptors)
    (steps : SocketSteps descriptors (.opens fd) next) :
    Current next := by
  obtain ⟨⟨-, isClosed⟩, performs⟩ := steps
  cases performs
  have same (element : FdElement ι)
      (member : element ∈ descriptors.scheduler.fds) :
      (descriptors.openAs fd).opened element.fd =
        descriptors.opened element.fd := by
    apply Function.update_of_ne
    intro isSame
    have isOpen := current.areOpen element member
    rw [isSame, isClosed] at isOpen
    cases isOpen
  refine ⟨current.consistent, fun element member => ?_,
    fun element member => ?_⟩
  · rw [same element member]
    exact current.areOpen element member
  · rw [same element member]
    exact current.same element member

/-- A descriptor is closed that nobody waits for. -/
theorem Current.closes
    {sock : TcpSocket}
    (current : Current descriptors)
    (unawaited : SocketAction.Unawaited descriptors (.closes sock))
    (steps : SocketSteps descriptors (.closes sock) next) :
    Current next := by
  obtain ⟨-, performs⟩ := steps
  cases performs
  have same (element : FdElement ι)
      (member : element ∈ descriptors.scheduler.fds) :
      (tcpSocketClose descriptors sock).2.opened element.fd =
        descriptors.opened element.fd := by
    apply Function.update_of_ne
    intro isSame
    apply unawaited element.yieldback element.events
    rw [← isSame]
    exact member
  refine ⟨current.consistent, fun element member => ?_,
    fun element member => ?_⟩
  · rw [same element member]
    exact current.areOpen element member
  · rw [same element member]
    exact current.same element member

/-- A step of a program that closes no descriptor that is waited for. -/
theorem Current.step
    (current : Current descriptors)
    (unawaited : action.Unawaited descriptors)
    (steps : SocketSteps descriptors action next) :
    Current next := by
  cases action with
  | goOn act => exact current.goOn steps
  | opens fd => exact current.opens steps
  | closes sock => exact current.closes unawaited steps

/-- After such a step nobody waits for a descriptor that is not open. -/
theorem Current.noWaiterLeft
    (current : Current descriptors)
    (unawaited : action.Unawaited descriptors)
    (steps : SocketSteps descriptors action next) :
    NoWaiterLeft descriptors action next where
  closed := by
    intro sock isClose
    subst isClose
    obtain ⟨-, performs⟩ := steps
    cases performs
    apply List.any_eq_false.mpr
    intro element member
    rw [decide_eq_true_iff]
    intro isSame
    apply unawaited element.yieldback element.events
    rw [← isSame]
    exact member
  areOpen := (current.step unawaited steps).areOpen
  notReused := by
    intro socket events isIo element member isSocket
    rw [← isSocket]
    exact current.same element member
  selected := fun _ _ => current.areOpen

/-- A close that leaves nobody behind closes what nobody waits for. -/
theorem NoWaiterLeft.unawaited
    (none : NoWaiterLeft descriptors action next)
    (steps : SocketSteps descriptors action next) :
    action.Unawaited descriptors := by
  cases action with
  | goOn act => trivial
  | opens fd => trivial
  | closes sock =>
      obtain ⟨-, performs⟩ := steps
      cases performs
      intro fiber events member
      have isClosed := none.closed sock rfl
      rw [fdInSet, List.any_eq_false] at isClosed
      exact isClosed _ member (decide_eq_true rfl)

theorem current_startWith (main : ι) (isOpen : Int → Bool) :
    Current (startWith main isOpen : Descriptors ι μ κ) where
  consistent := ⟨_, consistent_start main⟩
  areOpen := fun _ member => (List.not_mem_nil member).elim
  same := fun _ member => (List.not_mem_nil member).elim

end Steps

open Runs

/--
In exactly those runs nobody waits for a descriptor that has been closed, in
which no descriptor is closed that a fiber is blocked for.
-/
theorem no_waiter_left_iff
    (main : ι) (isOpen : Int → Bool) (actions : List (SocketAction ι μ κ))
    (final : Descriptors ι μ κ) :
    Run (fun descriptors action next =>
          SocketSteps descriptors action next ∧
            NoWaiterLeft descriptors action next)
        (startWith main isOpen) actions final ↔
      Run (fun descriptors action next =>
          SocketSteps descriptors action next ∧
            action.Unawaited descriptors)
        (startWith main isOpen) actions final := by
  have current : Current (startWith main isOpen : Descriptors ι μ κ) :=
    current_startWith main isOpen
  constructor
  · intro run
    refine (run.transfer current ?_).1
    rintro descriptors action next current ⟨steps, none⟩
    have unawaited := none.unawaited steps
    exact ⟨⟨steps, unawaited⟩, current.step unawaited steps⟩
  · intro run
    refine (run.transfer current ?_).1
    rintro descriptors action next current ⟨steps, unawaited⟩
    exact ⟨⟨steps, current.noWaiterLeft unawaited steps⟩,
      current.step unawaited steps⟩

/-- What is attempted with success is a step. -/
theorem socketSteps_of_attempt
    {descriptors next : Descriptors ι μ κ} {action : SocketAction ι μ κ}
    (attempted : action.attempt descriptors = some next) :
    SocketSteps descriptors action next :=
  of_attempt attempted

/--
The main fiber is blocked in `dfk__io` on a socket that another fiber closes.
-/
def closeWhileWaiting : List (SocketAction Nat Unit Unit) :=
  [.goOn .schedule, .goOn .schedule, .goOn (.call (.spawn (some 2))),
    .opens 4,
    .goOn (.call (.io 4 { isIn := true, isOut := false, isErr := false })),
    .goOn .schedule, .goOn .schedule, .goOn .schedule,
    .closes { socket := 4 }]

/-- The wait set holds a descriptor that is not open. -/
theorem waiter_left_behind :
    ∃ final : Descriptors Nat Unit Unit,
      Run SocketSteps (startWith 1 fun _ => false) closeWhileWaiting final ∧
        fdInSet final.scheduler.fds 4 = true ∧ final.opened 4 = none := by
  have executed :
      ((execute (fun descriptors action => SocketAction.attempt descriptors action)
          (startWith 1 fun _ => false) closeWhileWaiting).any fun final =>
        fdInSet final.scheduler.fds 4 = true ∧ final.opened 4 = none) =
        true := by
    rfl
  obtain ⟨final, isFinal, isSo⟩ := (Option.any_eq_true _ _).mp executed
  exact ⟨final, run_of_execute (fun _ _ _ => socketSteps_of_attempt) isFinal,
    of_decide_eq_true isSo⟩

end Dfk.EventLoop
