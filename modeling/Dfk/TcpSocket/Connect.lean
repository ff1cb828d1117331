import Dfk.Fault

/-!
# Connecting

`dfk_tcp_socket_connect`, over what `connect(2)`, the event loop and
`getsockopt(2)` answer.  A connection in progress is awaited; its end is the
pending error of the socket, which is looked at only if the event loop reports
no error.
-/

namespace Dfk.TcpSocket

/-- The codes `dfk_tcp_socket_connect` and `dfk_tcp_socket_listen` return. -/
inductive Err where
  | ok
  | sys
  | connectionRefused
  deriving Repr, DecidableEq

/-- `ECONNREFUSED` -/
def econnrefused : Nat := 111

/-- `EINPROGRESS` -/
def einprogress : Nat := 115

/-- How `DFK_IO` returns. -/
inductive Wait where
  /-- The descriptor cannot be waited for; `errno` says why. -/
  | refused (errno : Nat)
  /-- Events have occurred, `DFK_IO_ERR` among them or not. -/
  | woken (ioErr : Bool) (errno : Nat)
  deriving Repr, DecidableEq

/-- Whether `DFK_IO` returns `DFK_IO_ERR`. -/
def Wait.ioErr : Wait → Bool
  | .refused _ => true
  | .woken ioErr _ => ioErr

/-- `errno` when `DFK_IO` returns. -/
def Wait.errno : Wait → Nat
  | .refused errno => errno
  | .woken _ errno => errno

/-- What the outside answers to an attempt to connect. -/
structure Outcomes where
  /-- `errno` of `connect(2)`, if it fails. -/
  connect : Option Nat
  wait : Wait
  /-- `SO_ERROR` of the socket, or `errno` of `getsockopt(2)`. -/
  pending : Except Nat Nat
  deriving DecidableEq

/-- What `dfk_tcp_socket_connect` returns, and stores to `sys_errno`. -/
structure ConnectResult where
  err : Err
  sysErrno : Option Nat
  deriving Repr, DecidableEq

/-- The end of a connection that was in progress. -/
def connectEnd (outcomes : Outcomes) : ConnectResult :=
  if outcomes.wait.ioErr then
    { err := .sys, sysErrno := some outcomes.wait.errno }
  else
    match outcomes.pending with
    | .error errno => { err := .sys, sysErrno := some errno }
    | .ok err =>
        if err ≠ 0 then
          if err = econnrefused then
            { err := .connectionRefused, sysErrno := none }
          else { err := .sys, sysErrno := some err }
        else { err := .ok, sysErrno := none }

/-- `dfk_tcp_socket_connect` -/
def tcpSocketConnect (outcomes : Outcomes) : ConnectResult :=
  match outcomes.connect with
  | none => { err := .ok, sysErrno := none }
  | some errno =>
      if errno = einprogress then connectEnd outcomes
      else if errno = econnrefused then
        { err := .connectionRefused, sysErrno := none }
      -- no branch for another error
      else { err := .ok, sysErrno := none }

/-! ## What has become of the connection -/

/-- How an attempt to connect ends. -/
inductive Ending where
  | connected
  | refused
  | failed (errno : Nat)
  deriving Repr, DecidableEq

/-- What an error of the connection means. -/
def Ending.ofError (errno : Nat) : Ending :=
  if errno = econnrefused then .refused else .failed errno

/-- What the pending error of a socket says. -/
def Ending.ofPending : Except Nat Nat → Ending
  | .error errno => .failed errno
  | .ok err => if err = 0 then .connected else .ofError err

/-- How a connection in progress ends. -/
def Outcomes.awaited (outcomes : Outcomes) : Ending :=
  match outcomes.wait with
  | .refused errno => .failed errno
  | .woken _ _ => .ofPending outcomes.pending

/-- How an attempt with these outcomes ends. -/
def Outcomes.ending (outcomes : Outcomes) : Ending :=
  match outcomes.connect with
  | none => .connected
  | some errno =>
      if errno = einprogress then outcomes.awaited else .ofError errno

/-- The code for an end. -/
def Ending.err : Ending → Err
  | .connected => .ok
  | .refused => .connectionRefused
  | .failed _ => .sys

/-- The code says how the attempt ended. -/
def TellsEnding (outcomes : Outcomes) : Prop :=
  ((tcpSocketConnect outcomes).err = .ok ↔ outcomes.ending = .connected) ∧
    ((tcpSocketConnect outcomes).err = .connectionRefused ↔
      outcomes.ending = .refused) ∧
    ∀ errno, outcomes.ending = .failed errno →
      (tcpSocketConnect outcomes).err = .sys

/-- A failure is told with its number. -/
def TellsErrno (outcomes : Outcomes) : Prop :=
  ∀ errno, outcomes.ending = .failed errno →
    (tcpSocketConnect outcomes).sysErrno = some errno

/--
`connect(2)` fails in no way that is not looked for, and an error event of a
connection in progress is told by a failure other than a refusal.
-/
def Outcomes.Foreseen (outcomes : Outcomes) : Prop :=
  (∀ errno ∈ outcomes.connect,
    errno = einprogress ∨ errno = econnrefused) ∧
    (outcomes.connect = some einprogress → outcomes.wait.ioErr = true →
      outcomes.awaited ≠ .connected ∧ outcomes.awaited ≠ .refused)

/-- `errno` is the failure of the connection when an error event is reported. -/
def Outcomes.Current (outcomes : Outcomes) : Prop :=
  outcomes.connect = some einprogress → outcomes.wait.ioErr = true →
    outcomes.awaited = .failed outcomes.wait.errno

/-! ## When the code is right -/

section Telling

variable {outcomes : Outcomes}

/-- The code that belongs to the end is the one that is returned. -/
theorem tellsEnding_iff :
    TellsEnding outcomes ↔
      (tcpSocketConnect outcomes).err = outcomes.ending.err := by
  rw [TellsEnding]
  cases (tcpSocketConnect outcomes).err <;> cases outcomes.ending <;>
    simp [Ending.err]

/-- A connection at once is told. -/
theorem tells_of_connected (atOnce : outcomes.connect = none) :
    (TellsEnding outcomes ∧ TellsErrno outcomes) ∧
      outcomes.Foreseen ∧ outcomes.Current := by
  have ends : outcomes.ending = .connected := by
    rw [Outcomes.ending, atOnce]
  refine ⟨⟨?_, ?_⟩, ⟨?_, ?_⟩, ?_⟩
  · rw [tellsEnding_iff, ends, tcpSocketConnect, atOnce]
    rfl
  · intro errno fails
    rw [ends] at fails
    cases fails
  · intro errno isError
    rw [atOnce] at isError
    cases isError
  · intro inProgress
    rw [atOnce] at inProgress
    cases inProgress
  · intro inProgress
    rw [atOnce] at inProgress
    cases inProgress

/-- A refusal at once is told. -/
theorem tells_of_refused (atOnce : outcomes.connect = some econnrefused) :
    (TellsEnding outcomes ∧ TellsErrno outcomes) ∧
      outcomes.Foreseen ∧ outcomes.Current := by
  have other : econnrefused ≠ einprogress := by
    decide
  have ends : outcomes.ending = .refused := by
    rw [Outcomes.ending, atOnce]
    exact (if_neg other).trans (if_pos rfl)
  refine ⟨⟨?_, ?_⟩, ⟨?_, ?_⟩, ?_⟩
  · rw [tellsEnding_iff, ends, tcpSocketConnect, atOnce]
    rfl
  · intro errno fails
    rw [ends] at fails
    cases fails
  · intro errno isError
    rw [atOnce] at isError
    cases isError
    exact Or.inr rfl
  · intro inProgress
    rw [atOnce] at inProgress
    exact absurd (Option.some.inj inProgress) other
  · intro inProgress
    rw [atOnce] at inProgress
    exact absurd (Option.some.inj inProgress) other

/-- Another error at once is told as a connection. -/
theorem not_tells_of_other
    {errno : Nat}
    (atOnce : outcomes.connect = some errno)
    (other : errno ≠ einprogress) (noRefusal : errno ≠ econnrefused) :
    ¬ TellsEnding outcomes ∧ ¬ outcomes.Foreseen := by
  constructor
  · rw [tellsEnding_iff, tcpSocketConnect, Outcomes.ending, atOnce]
    simp only [if_neg other, if_neg noRefusal, Ending.ofError, Ending.err]
    exact Err.noConfusion
  · intro foreseen
    rcases foreseen.1 errno atOnce with inProgress | isRefusal
    · exact other inProgress
    · exact noRefusal isRefusal

/-- In progress, it is the end of the connection that is told. -/
theorem tcpSocketConnect_of_inProgress
    (inProgress : outcomes.connect = some einprogress) :
    tcpSocketConnect outcomes = connectEnd outcomes ∧
      outcomes.ending = outcomes.awaited := by
  rw [tcpSocketConnect, Outcomes.ending, inProgress]
  exact ⟨if_pos rfl, if_pos rfl⟩

/-- Without an error event the pending error is told, with its number. -/
theorem connectEnd_of_pending
    (noError : outcomes.wait.ioErr = false) :
    (connectEnd outcomes).err = outcomes.awaited.err ∧
      ∀ errno, outcomes.awaited = .failed errno →
        (connectEnd outcomes).sysErrno = some errno := by
  have awaited : outcomes.awaited = .ofPending outcomes.pending := by
    rcases wait : outcomes.wait with errno | ⟨ioErr, errno⟩
    · rw [wait] at noError
      cases noError
    · rw [Outcomes.awaited, wait]
  rw [awaited, connectEnd, noError, if_neg Bool.false_ne_true]
  rcases outcomes.pending with errno | err
  · refine ⟨rfl, ?_⟩
    intro other fails
    cases fails
    rfl
  · dsimp only [Ending.ofPending]
    by_cases noFailure : err = 0
    · rw [if_neg (not_not_intro noFailure), if_pos noFailure]
      refine ⟨rfl, ?_⟩
      intro other fails
      cases fails
    · rw [if_pos noFailure, if_neg noFailure, Ending.ofError]
      by_cases isRefusal : err = econnrefused
      · rw [if_pos isRefusal, if_pos isRefusal]
        refine ⟨rfl, ?_⟩
        intro other fails
        cases fails
      · rw [if_neg isRefusal, if_neg isRefusal]
        refine ⟨rfl, ?_⟩
        intro other fails
        cases fails
        rfl

/-- An error event is told as a failure, with `errno` as it is. -/
theorem connectEnd_of_ioErr (isError : outcomes.wait.ioErr = true) :
    connectEnd outcomes =
      { err := .sys, sysErrno := some outcomes.wait.errno } := by
  rw [connectEnd, isError]
  rfl

/-- The code for an end is the one for a failure. -/
theorem Ending.err_eq_sys_iff (ending : Ending) :
    .sys = ending.err ↔ ending ≠ .connected ∧ ending ≠ .refused := by
  cases ending <;> simp [Ending.err]

/-- A connection in progress. -/
theorem tells_of_inProgress
    (inProgress : outcomes.connect = some einprogress) :
    (TellsEnding outcomes ↔ outcomes.Foreseen) ∧
      (TellsEnding outcomes →
        (TellsErrno outcomes ↔ outcomes.Current)) := by
  obtain ⟨returns, ends⟩ := tcpSocketConnect_of_inProgress inProgress
  have looked :
      ∀ errno ∈ outcomes.connect,
        errno = einprogress ∨ errno = econnrefused := by
    intro errno isError
    rw [inProgress] at isError
    cases isError
    exact Or.inl rfl
  cases isError : outcomes.wait.ioErr with
  | false =>
      obtain ⟨code, number⟩ := connectEnd_of_pending isError
      constructor
      · apply iff_of_true
        · rw [tellsEnding_iff, returns, ends]
          exact code
        · refine ⟨looked, ?_⟩
          intro _ reported
          rw [isError] at reported
          cases reported
      · intro _
        apply iff_of_true
        · intro errno fails
          rw [returns]
          rw [ends] at fails
          exact number errno fails
        · intro _ reported
          rw [isError] at reported
          cases reported
  | true =>
      have failure := connectEnd_of_ioErr isError
      constructor
      · rw [tellsEnding_iff, returns, ends, failure, Ending.err_eq_sys_iff]
        constructor
        · intro fails
          exact ⟨looked, fun _ _ => fails⟩
        · intro foreseen
          exact foreseen.2 inProgress isError
      · intro tells
        rw [tellsEnding_iff, returns, ends, failure,
          Ending.err_eq_sys_iff] at tells
        rw [TellsErrno, Outcomes.Current, returns, ends, failure]
        constructor
        · intro number _ _
          rcases awaited : outcomes.awaited with _ | _ | errno
          · exact absurd awaited tells.1
          · exact absurd awaited tells.2
          · exact congrArg Ending.failed
              (Option.some.inj (number errno awaited)).symm
        · intro current errno fails
          rw [current inProgress isError] at fails
          cases fails
          rfl

end Telling

/--
The code tells how the attempt ended if and only if no error of `connect(2)`
is unforeseen and no error event hides a connection or a refusal; it tells a
failure by its number if and only if `errno` is that failure when an error
event is reported.
-/
theorem connect_tells_iff (outcomes : Outcomes) :
    (TellsEnding outcomes ∧ TellsErrno outcomes ↔
        outcomes.Foreseen ∧ outcomes.Current) ∧
      (TellsEnding outcomes ↔ outcomes.Foreseen) := by
  rcases atOnce : outcomes.connect with _ | errno
  · obtain ⟨tells, holds⟩ := tells_of_connected atOnce
    exact ⟨iff_of_true tells holds, iff_of_true tells.1 holds.1⟩
  · by_cases inProgress : errno = einprogress
    · rw [inProgress] at atOnce
      obtain ⟨code, number⟩ := tells_of_inProgress atOnce
      refine ⟨⟨?_, ?_⟩, code⟩
      · intro both
        exact ⟨code.mp both.1, (number both.1).mp both.2⟩
      · intro both
        have tells := code.mpr both.1
        exact ⟨tells, (number tells).mpr both.2⟩
    · by_cases isRefusal : errno = econnrefused
      · rw [isRefusal] at atOnce
        obtain ⟨tells, holds⟩ := tells_of_refused atOnce
        exact ⟨iff_of_true tells holds, iff_of_true tells.1 holds.1⟩
      · obtain ⟨silent, unforeseen⟩ :=
          not_tells_of_other atOnce inProgress isRefusal
        exact
          ⟨iff_of_false (fun both => silent both.1)
              (fun both => unforeseen both.1),
            iff_of_false silent unforeseen⟩

/--
An unreachable network (101) is told as a connection; a refusal that comes
with an error event is told as a failure, with the number `errno` still has.
-/
theorem connect_not_told :
    ¬ TellsEnding
        { connect := some 101, wait := .woken false 0, pending := .ok 0 } ∧
      ¬ TellsEnding
        { connect := some einprogress
          wait := .woken true einprogress
          pending := .ok econnrefused } := by
  constructor
  · rw [tellsEnding_iff]
    decide
  · rw [tellsEnding_iff]
    decide

end Dfk.TcpSocket
