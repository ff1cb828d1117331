import Dfk.Library.Runs
import Dfk.TcpSocket.Connect

/-!
# Accepting connections

The loop of `dfk_tcp_socket_listen` among the fibers it spawns.  A descriptor
that `accept(2)` returns is closed by the loop or handed to a fiber, unless
there is no memory for the fiber: then the loop forgets it.
-/

namespace Dfk.TcpSocket

open Runs (Run)

/-! ## The source -/

/-- A descriptor, with the number of descriptors that were accepted before. -/
structure Descriptor where
  number : Nat
  serial : Nat
  deriving Repr, DecidableEq

/-- Where the fiber that listens is. -/
inductive ListenStatus where
  /-- In the loop. -/
  | running
  /-- In `DFK_IO`. -/
  | waiting
  | returned (err : Err)
  deriving Repr, DecidableEq

/-- A listening socket with what has become of the descriptors. -/
structure Listener where
  status : ListenStatus
  /-- What `accept(2)` has returned. -/
  accepted : List Descriptor
  /-- The arguments of fibers that are to be started. -/
  pending : List Descriptor
  /-- The arguments of fibers that have been started. -/
  started : List Descriptor
  /-- What the loop has closed. -/
  closed : List Descriptor
  deriving Repr, DecidableEq

/-- `EWOULDBLOCK` -/
def ewouldblock : Nat := 11

/-- What the outside answers in one round of the loop. -/
structure AcceptRound where
  /-- The descriptor, or `errno`, of `accept(2)`. -/
  accept : Except Nat Nat
  /-- Whether the event loop takes the listening socket. -/
  waits : Bool
  /-- Whether `fcntl(2)` gets the flags. -/
  getFlags : Bool
  /-- Whether `fcntl(2)` sets the flags. -/
  setFlags : Bool
  /-- Whether `malloc` has memory for a fiber. -/
  memory : Bool
  deriving DecidableEq

/-- `dfk__make_nonblock` -/
def AcceptRound.makeNonblock (round : AcceptRound) : Err :=
  if round.getFlags = false then .sys
  else if round.setFlags = false then .sys
  else .ok

/-- `dfk_spawn` of a fiber for a connection; what it returns is dropped. -/
def spawnAccepted (listener : Listener) (memory : Bool)
    (socket : Descriptor) : Listener :=
  if memory then { listener with pending := listener.pending ++ [socket] }
  else listener

/-- What the loop does with a descriptor. -/
def handleAccepted (listener : Listener) (round : AcceptRound)
    (socket : Descriptor) : Listener :=
  if round.makeNonblock ≠ .ok then
    { listener with closed := listener.closed ++ [socket] }
  else spawnAccepted listener round.memory socket

/-- One round of the loop in `dfk_tcp_socket_listen`. -/
def listenRound (listener : Listener) (round : AcceptRound) : Listener :=
  match round.accept with
  | .error errno =>
      if errno = ewouldblock then
        if round.waits then { listener with status := .waiting }
        else { listener with status := .returned .sys }
      else { listener with status := .returned .sys }
  | .ok number =>
      let socket : Descriptor :=
        { number := number, serial := listener.accepted.length }
      handleAccepted
        { listener with accepted := listener.accepted ++ [socket] } round
        socket

/-- `dfk_tcp_socket_listen` up to the loop, over `bind(2)` and `listen(2)`. -/
def tcpSocketListen (binds listens : Bool) : Listener where
  status :=
    if binds = false then .returned .sys
    else if listens = false then .returned .sys
    else .running
  accepted := []
  pending := []
  started := []
  closed := []

/-- What happens next. -/
inductive Act where
  | round (answers : AcceptRound)
  /-- `DFK_IO` returns, with `DFK_IO_ERR` or without. -/
  | wake (ioErr : Bool)
  /-- The scheduler starts a fiber with `dfk__tcp_socket_accepted_main`. -/
  | start
  deriving DecidableEq

/-- The scheduler has no other fiber while the loop is running. -/
def Listener.perform (listener : Listener) : Act → Option Listener
  | .round round =>
      if listener.status = .running then some (listenRound listener round)
      else none
  | .wake ioErr =>
      if listener.status = .waiting then
        some
          { listener with
            status := if ioErr then .returned .sys else .running }
      else none
  | .start =>
      if listener.status = .running then none
      else
        match listener.pending with
        | [] => none
        | socket :: pending =>
            some
              { listener with
                pending := pending
                started := listener.started ++ [socket] }

/-- What happens leads from one state to another. -/
def Steps (listener : Listener) (act : Act) (next : Listener) : Prop :=
  listener.perform act = some next

/-! ## What is promised -/

/-- How often a descriptor has been handed to a fiber, or closed. -/
def Listener.kept (listener : Listener) (socket : Descriptor) : Nat :=
  (listener.pending ++ listener.started).count socket +
    listener.closed.count socket

/-- Every accepted descriptor is handed to one fiber or closed, once. -/
structure KeepsAll (listener : Listener) : Prop where
  kept : ∀ socket ∈ listener.accepted, listener.kept socket = 1
  /-- The scheduler only has to start the fibers. -/
  settles :
    listener.status ≠ .running →
      ∃ after,
        Run Steps listener
            (List.replicate listener.pending.length Act.start) after ∧
          after.pending = [] ∧
          ∀ socket ∈ listener.accepted,
            after.started.count socket + after.closed.count socket = 1

/-- No descriptor that is accepted ends the loop. -/
def GoesOn (start : Listener) : Prop :=
  ∀ acts listener round number next,
    Run Steps start acts listener →
      Steps listener (.round round) next →
        round.accept = .ok number → next.status = .running

/-- There is no memory for the fiber of a non-blocking descriptor. -/
def AcceptRound.Leaks (round : AcceptRound) : Prop :=
  (∃ number, round.accept = .ok number) ∧ round.makeNonblock = .ok ∧
    round.memory = false

/-- What happens is a round without memory for the fiber. -/
def Act.Leaks : Act → Prop
  | .round answers => answers.Leaks
  | .wake _ | .start => False

/-! ## One step -/

section Steps

variable {listener next : Listener} {round : AcceptRound}

/-- How often a descriptor is in a list with one. -/
theorem count_single (socket query : Descriptor) :
    [socket].count query = if query = socket then 1 else 0 := by
  rw [List.count_singleton]
  by_cases same : query = socket
  · rw [if_pos same, same, beq_self_eq_true, if_pos rfl]
  · rw [if_neg same, beq_eq_false_iff_ne.mpr (Ne.symm same),
      if_neg Bool.false_ne_true]

/-- A descriptor that is handed to a fiber or closed is kept once more. -/
theorem kept_handleAccepted
    (keeps : ¬ (round.makeNonblock = .ok ∧ round.memory = false))
    (socket query : Descriptor) :
    (handleAccepted listener round socket).kept query =
      listener.kept query + if query = socket then 1 else 0 := by
  rw [handleAccepted]
  by_cases nonblocking : round.makeNonblock = .ok
  · have memory : round.memory = true := by
      rw [← Bool.not_eq_false]
      exact fun none => keeps ⟨nonblocking, none⟩
    rw [if_neg (not_not.mpr nonblocking), spawnAccepted, if_pos memory,
      Listener.kept, Listener.kept]
    dsimp only
    simp only [List.count_append, count_single]
    omega
  · rw [if_pos nonblocking, Listener.kept, Listener.kept]
    dsimp only
    simp only [List.count_append, count_single]
    omega

/-- A fiber that is started keeps its descriptor. -/
theorem kept_start
    {socket : Descriptor} {pending : List Descriptor}
    (isPending : listener.pending = socket :: pending)
    (query : Descriptor) :
    Listener.kept
        { listener with
          pending := pending
          started := listener.started ++ [socket] } query =
      listener.kept query := by
  have split : listener.pending = [socket] ++ pending := isPending
  rw [Listener.kept, Listener.kept, split]
  dsimp only
  simp only [List.count_append, count_single]
  omega

/-- A descriptor without a fiber is forgotten. -/
theorem handleAccepted_leaks
    (nonblocking : round.makeNonblock = .ok) (none : round.memory = false)
    (socket : Descriptor) :
    handleAccepted listener round socket = listener := by
  rw [handleAccepted, if_neg (not_not.mpr nonblocking), spawnAccepted, none,
    if_neg Bool.false_ne_true]

theorem status_handleAccepted (socket : Descriptor) :
    (handleAccepted listener round socket).status = listener.status := by
  rw [handleAccepted, spawnAccepted]
  split
  · rfl
  · split <;> rfl

theorem accepted_handleAccepted (socket : Descriptor) :
    (handleAccepted listener round socket).accepted = listener.accepted := by
  rw [handleAccepted, spawnAccepted]
  split
  · rfl
  · split <;> rfl

/-- What a step does to the descriptors. -/
inductive Changes (listener : Listener) : Act → Listener → Prop where
  /-- None is accepted. -/
  | same {act : Act} {next : Listener}
      (leaks : ¬ act.Leaks)
      (accepted : next.accepted = listener.accepted)
      (kept : ∀ query, next.kept query = listener.kept query) :
      Changes listener act next
  /-- One is accepted, and kept. -/
  | keeps {act : Act} {next : Listener} {socket : Descriptor}
      (leaks : ¬ act.Leaks)
      (isNew : socket.serial = listener.accepted.length)
      (accepted : next.accepted = listener.accepted ++ [socket])
      (kept :
        ∀ query,
          next.kept query =
            listener.kept query + if query = socket then 1 else 0) :
      Changes listener act next
  /-- One is accepted, and forgotten. -/
  | leaks {act : Act} {next : Listener} {socket : Descriptor}
      (leaks : act.Leaks)
      (isNew : socket.serial = listener.accepted.length)
      (accepted : next.accepted = listener.accepted ++ [socket])
      (kept : ∀ query, next.kept query = listener.kept query) :
      Changes listener act next

/-- One round of the loop. -/
theorem listenRound_changes :
    Changes listener (.round round) (listenRound listener round) := by
  rw [listenRound]
  cases accept : round.accept with
  | error errno =>
      have noLeak : ¬ (Act.round round).Leaks := by
        rintro ⟨⟨number, isAccepted⟩, -⟩
        rw [accept] at isAccepted
        cases isAccepted
      dsimp only
      split
      · split
        · exact .same noLeak rfl fun _ => rfl
        · exact .same noLeak rfl fun _ => rfl
      · exact .same noLeak rfl fun _ => rfl
  | ok number =>
      by_cases leaks : round.makeNonblock = .ok ∧ round.memory = false
      · dsimp only
        rw [handleAccepted_leaks leaks.1 leaks.2]
        exact .leaks ⟨⟨number, accept⟩, leaks⟩ rfl rfl fun _ => rfl
      · refine .keeps (fun isLeak => leaks isLeak.2) rfl
          (accepted_handleAccepted _) fun query => ?_
        exact kept_handleAccepted leaks _ query

/-- One step. -/
theorem perform_changes
    {act : Act}
    (performed : listener.perform act = some next) :
    Changes listener act next := by
  cases act with
  | round round =>
      rw [Listener.perform] at performed
      split at performed
      · cases performed
        exact listenRound_changes
      · cases performed
  | wake ioErr =>
      rw [Listener.perform] at performed
      split at performed
      · cases performed
        exact .same id rfl fun _ => rfl
      · cases performed
  | start =>
      rw [Listener.perform] at performed
      split at performed
      · cases performed
      · split at performed
        · cases performed
        · next socket pending isPending =>
            cases performed
            exact .same id rfl (kept_start isPending)

/-- The loop goes on after a descriptor. -/
theorem goesOn (start : Listener) : GoesOn start := by
  intro acts listener round number next _ performed accept
  rw [Steps, Listener.perform] at performed
  split at performed
  · next running =>
      cases performed
      rw [listenRound, accept]
      dsimp only
      rw [status_handleAccepted]
      exact running
  · cases performed

end Steps

/-! ## Runs -/

section Runs

variable {start final : Listener} {acts : List Act}

/-- Descriptors are told apart by their numbers, and no others are kept. -/
structure Numbered (listener : Listener) : Prop where
  below :
    ∀ socket ∈ listener.accepted,
      socket.serial < listener.accepted.length
  unknown :
    ∀ socket : Descriptor,
      listener.accepted.length ≤ socket.serial → listener.kept socket = 0

/-- A descriptor that is accepted is a new one. -/
theorem Numbered.concat
    {listener next : Listener} {socket : Descriptor} {count : Nat}
    (numbered : Numbered listener)
    (isNew : socket.serial = listener.accepted.length)
    (accepted : next.accepted = listener.accepted ++ [socket])
    (kept :
      ∀ query,
        next.kept query =
          listener.kept query + if query = socket then count else 0) :
    Numbered next ∧ next.kept socket = count ∧
      ∀ query ∈ listener.accepted, next.kept query = listener.kept query := by
  have known (query : Descriptor) (member : query ∈ listener.accepted) :
      query ≠ socket := by
    rintro rfl
    exact Nat.ne_of_lt (numbered.below query member) isNew
  refine ⟨⟨?_, ?_⟩, ?_, ?_⟩
  · intro query member
    rw [accepted, List.mem_append, List.mem_singleton] at member
    rw [accepted, List.length_append, List.length_singleton]
    rcases member with before | rfl
    · exact Nat.lt_succ_of_lt (numbered.below query before)
    · exact isNew ▸ Nat.lt_succ_self _
  · intro query beyond
    rw [accepted, List.length_append, List.length_singleton] at beyond
    have other : query ≠ socket := by
      rintro rfl
      omega
    rw [kept, if_neg other, numbered.unknown query (by omega)]
  · rw [kept, if_pos rfl, numbered.unknown socket (Nat.le_of_eq isNew.symm),
      Nat.zero_add]
  · intro query member
    rw [kept, if_neg (known query member), Nat.add_zero]

/-- In a run all descriptors are kept once, exactly if no step leaks. -/
theorem run_kept_iff
    (run : Run Steps start acts final)
    (numbered : Numbered start)
    (kept : ∀ socket ∈ start.accepted, start.kept socket = 1) :
    Numbered final ∧
      ((∀ socket ∈ final.accepted, final.kept socket = 1) ↔
        ∀ act ∈ acts, ¬ act.Leaks) := by
  induction run with
  | nil =>
      exact ⟨numbered, iff_of_true kept fun act member => by cases member⟩
  | @snoc middle final acts act run last inductionHypothesis =>
      obtain ⟨isNumbered, isKept⟩ := inductionHypothesis
      have splits :
          (∀ other ∈ acts ++ [act], ¬ other.Leaks) ↔
            (∀ other ∈ acts, ¬ other.Leaks) ∧ ¬ act.Leaks := by
        simp [or_imp, forall_and]
      rw [splits, ← isKept]
      cases perform_changes last with
      | same noLeak accepted same =>
          refine ⟨⟨?_, ?_⟩, ?_⟩
          · rw [accepted]
            exact isNumbered.below
          · intro socket beyond
            rw [accepted] at beyond
            rw [same]
            exact isNumbered.unknown socket beyond
          · rw [accepted, and_iff_left noLeak]
            simp only [same]
      | keeps noLeak isNew accepted keeps =>
          obtain ⟨numberedNext, one, before⟩ :=
            isNumbered.concat isNew accepted keeps
          refine ⟨numberedNext, ?_⟩
          rw [accepted, and_iff_left noLeak]
          constructor
          · intro all socket member
            rw [← before socket member]
            exact all socket (List.mem_append_left _ member)
          · intro all socket member
            rcases List.mem_append.mp member with known | isLast
            · rw [before socket known]
              exact all socket known
            · rw [List.mem_singleton.mp isLast]
              exact one
      | @leaks socket isLeak isNew accepted same =>
          have none (query : Descriptor) :
              final.kept query =
                middle.kept query + if query = socket then 0 else 0 := by
            rw [same, ite_self, Nat.add_zero]
          obtain ⟨numberedNext, zero, -⟩ :=
            isNumbered.concat isNew accepted none
          refine ⟨numberedNext, iff_of_false ?_ fun both => both.2 isLeak⟩
          intro all
          have one := all socket (by simp [accepted])
          rw [zero] at one
          cases one

/-- The scheduler starts as many fibers as there are. -/
theorem run_start
    {listener : Listener}
    (idle : listener.status ≠ .running)
    {count : Nat} :
    count ≤ listener.pending.length →
      ∃ after,
        Run Steps listener (List.replicate count Act.start) after ∧
          after.pending = listener.pending.drop count ∧
          after.status = listener.status ∧
          ∀ socket, after.kept socket = listener.kept socket := by
  induction count with
  | zero =>
      intro _
      exact ⟨listener, Run.nil _, rfl, rfl, fun _ => rfl⟩
  | succ count inductionHypothesis =>
      intro within
      obtain ⟨middle, run, pending, status, kept⟩ :=
        inductionHypothesis (Nat.le_of_succ_le within)
      rw [List.drop_eq_getElem_cons within] at pending
      refine
        ⟨{ middle with
            pending := listener.pending.drop (count + 1)
            started := middle.started ++ [listener.pending[count]] },
          ?_, rfl, status, fun socket => ?_⟩
      · rw [List.replicate_succ']
        apply run.snoc
        rw [Steps, Listener.perform, if_neg (status ▸ idle), pending]
      · rw [kept_start pending, kept]

end Runs

/--
In a run every descriptor that is accepted is handed to one fiber or closed,
once, exactly if there is memory for the fiber of each non-blocking one; the
loop goes on in any case.
-/
theorem accept_loop_keeps_iff
    {binds listens : Bool} {acts : List Act} {final : Listener}
    (run : Run Steps (tcpSocketListen binds listens) acts final) :
    (KeepsAll final ∧ GoesOn (tcpSocketListen binds listens)) ↔
      ∀ act ∈ acts, ¬ act.Leaks := by
  have numbered : Numbered (tcpSocketListen binds listens) :=
    ⟨fun socket member => (List.not_mem_nil member).elim, fun _ _ => rfl⟩
  obtain ⟨-, isKept⟩ :=
    run_kept_iff run numbered fun socket member =>
      (List.not_mem_nil member).elim
  rw [← isKept]
  constructor
  · rintro ⟨keeps, -⟩
    exact keeps.kept
  · intro kept
    refine ⟨⟨kept, fun idle => ?_⟩, goesOn _⟩
    obtain ⟨after, starts, pending, -, same⟩ :=
      run_start idle (Nat.le_refl _)
    rw [List.drop_length] at pending
    refine ⟨after, starts, pending, fun socket member => ?_⟩
    have once := same socket
    rw [kept socket member, Listener.kept, pending, List.nil_append] at once
    exact once

/-- A connection, one that cannot be switched, and then a wait. -/
def ordinaryActs : List Act :=
  [.round ⟨.ok 5, true, true, true, true⟩,
    .round ⟨.ok 6, true, true, false, true⟩,
    .round ⟨.error ewouldblock, true, true, true, true⟩, .start, .wake false]

/-- The state they lead to. -/
def ordinaryListener : Listener where
  status := .running
  accepted := [⟨5, 0⟩, ⟨6, 1⟩]
  pending := []
  started := [⟨5, 0⟩]
  closed := [⟨6, 1⟩]

theorem accept_loop_keeps_iff_ordinary :
    Run Steps (tcpSocketListen true true) ordinaryActs ordinaryListener ∧
      ((KeepsAll ordinaryListener ∧ GoesOn (tcpSocketListen true true)) ↔
        ∀ act ∈ ordinaryActs, ¬ act.Leaks) := by
  have run :
      Run Steps (tcpSocketListen true true) ordinaryActs ordinaryListener :=
    Runs.run_of_execute (fun _ _ _ performed => performed)
      (by decide :
        Runs.execute Listener.perform (tcpSocketListen true true)
            ordinaryActs =
          some ordinaryListener)
  exact ⟨run, accept_loop_keeps_iff run⟩

/-- A connection for whose fiber there is no memory. -/
def leakingRound : AcceptRound :=
  ⟨.ok 5, true, true, true, false⟩

/-- Its descriptor is neither handed to a fiber nor closed. -/
theorem accept_loop_leaks :
    ∃ final,
      Run Steps (tcpSocketListen true true) [.round leakingRound] final ∧
        ¬ KeepsAll final := by
  refine ⟨listenRound (tcpSocketListen true true) leakingRound,
    (Run.nil _).snoc rfl, fun keeps => ?_⟩
  exact absurd (keeps.kept ⟨5, 0⟩ (by decide)) (by decide)

end Dfk.TcpSocket
