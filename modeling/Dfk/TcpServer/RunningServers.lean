import Dfk.LinkedList.Refinement
import Dfk.LinkedList.Traversal
import Dfk.TcpServer.GracefulStop

/-!
# The list of running servers

`dfk_tcp_serve` appends the hook of its server to `_tcp_servers` first of all,
and nothing takes it off again.  `Meets` says of a step that no server is left
in the list that is not serving, and that none is appended twice.
-/

namespace Dfk.TcpServer

open LinkedList (Memory Holds Represents)
open Runs

variable {ι : Type} [DecidableEq ι]
variable {state next : State ι} {server query : ι} {call : Nat}
variable {sequence : List ι}

/-- `_tcp_servers` has every server that is serving once, and no other. -/
def Listed (state : State ι) : Prop :=
  ∃ sequence,
    Holds state.memory () sequence ∧
      ∀ server,
        server ∈ sequence ↔ (state.servers server).state = .serving

/-- `dfk_stop` ends, and its assertions hold. -/
def Stoppable (state : State ι) : Prop :=
  ∀ shuts, ∃ next, dfkStop state shuts = .ok next

/-- No server enters the list that does not serve, and none stops serving. -/
def Action.Meets (state : State ι) : Action ι → Prop
  | .serve server answers =>
      answers.socket = true ∧ (state.servers server).state ≠ .serving
  | .stop _ shuts => shuts = false
  | .stopAll shuts =>
      state.stopped = true ∨
        ∀ server, (state.servers server).state = .serving →
          shuts server = false
  | _ => True

/-- The sequence of the servers that are serving, with fuel for its loops. -/
structure Enumerates (state : State ι) (sequence : List ι) : Prop where
  holds : Holds state.memory () sequence
  members : ∀ server,
    server ∈ sequence ↔ (state.servers server).state = .serving
  room : sequence.length ≤ state.calls.length

namespace Enumerates

omit [DecidableEq ι] in
theorem listed (enumerates : Enumerates state sequence) : Listed state :=
  ⟨sequence, enumerates.holds, enumerates.members⟩

omit [DecidableEq ι] in
theorem enough (enumerates : Enumerates state sequence) :
    sequence.length ≤ state.bound :=
  Nat.le_add_right_of_le enumerates.room

omit [DecidableEq ι] in
/-- No server starts or stops serving. -/
theorem of_same
    (enumerates : Enumerates state sequence)
    (memory : next.memory = state.memory)
    (calls : next.calls.length = state.calls.length)
    (states : ∀ server,
      (next.servers server).state = (state.servers server).state) :
    Enumerates next sequence := by
  constructor
  · rw [memory]
    exact enumerates.holds
  · intro server
    rw [states]
    exact enumerates.members server
  · rw [calls]
    exact enumerates.room

omit [DecidableEq ι] in
/-- A server that is in the list and not serving is not listed. -/
theorem serving_of_listed
    (enumerates : Enumerates state sequence)
    (memory : next.memory = state.memory)
    (listed : Listed next)
    (serving : (state.servers server).state = .serving) :
    (next.servers server).state = .serving := by
  obtain ⟨sequence', holds', members'⟩ := listed
  rw [memory] at holds'
  rw [← members', enumerates.holds.unique holds', enumerates.members]
  exact serving

/-! ## Serving -/

/-- The hook of a server that is not serving is appended. -/
theorem append
    (enumerates : Enumerates state sequence)
    (notServing : (state.servers server).state ≠ .serving) :
    ∃ memory,
      LinkedList.append state.bound state.memory () server = .ok memory ∧
        Holds memory () (sequence ++ [server]) := by
  have represents : Represents state.memory fun _ => sequence :=
    ⟨fun _ => enumerates.holds, fun list other differs => absurd rfl differs⟩
  have appends :
      ∃ memory,
        LinkedList.append state.bound state.memory () server = .ok memory ∧
          Represents memory
            (Function.update (fun _ => sequence) () (sequence ++ [server])) := by
    apply represents.append
    · intro _
      exact Nat.add_lt_add_right (Nat.lt_succ_of_le enumerates.room) 1
    · intro _ member
      exact notServing ((enumerates.members server).mp member)
  obtain ⟨memory, appended, isAppended⟩ := appends
  have holds := isAppended.holds ()
  rw [Function.update_self] at holds
  exact ⟨memory, appended, holds⟩

end Enumerates

/-- `dfk_tcp_serve` behind `dfk_tcp_socket_listen`, which returns errors. -/
theorem behindListen_returns
    {close : Bool} {err : Option Err}
    (isErr : err = none ∨ err = some .sys) :
    ∃ progress,
      behindListen state call server close err =
        state.setProgress call progress := by
  rcases isErr with rfl | rfl
  · exact ⟨.listening, rfl⟩
  · exact ⟨.returned .sys, rfl⟩

/-- What `dfk_tcp_serve` does to the list and to the states of servers. -/
theorem serve_eq
    {answers : Answers}
    (happens : tcpServe state server answers = .ok next) :
    LinkedList.append state.bound state.memory () server = .ok next.memory ∧
      next.calls.length = state.calls.length + 1 ∧
      ∀ query,
        (next.servers query).state =
          if answers.socket = true ∧ query = server then .serving
          else (state.servers query).state := by
  rw [tcpServe] at happens
  obtain ⟨memory, appended, happens⟩ := of_bind happens
  cases socket : answers.socket with
  | false =>
      simp only [socket, if_true] at happens
      cases happens
      refine ⟨appended, ?_, ?_⟩
      · simp [State.setProgress]
      · simp [State.setProgress]
  | true =>
      simp only [socket, Bool.true_eq_false, if_false] at happens
      let opened : State ι :=
        { state with
          memory := memory
          calls := state.calls ++
            [({ server := server, progress := .listening } : Serving ι)]
          }.setServer server
          { state.servers server with
            state := .serving, listener := .opened }
      obtain ⟨err, spawned, listened, isErr, -⟩ :=
        tcpSocketListen_eq opened state.calls.length server answers
      obtain ⟨progress, returns⟩ :=
        @behindListen_returns ι _
          (opened.spawn state.calls.length server spawned) server
          state.calls.length answers.close err isErr
      have isNext :
          behindListen
              (tcpSocketListen opened state.calls.length server answers).2
              state.calls.length server answers.close
              (tcpSocketListen opened state.calls.length server answers).1 =
            next :=
        Except.ok.inj happens
      rw [listened, returns] at isNext
      rw [← isNext]
      refine ⟨appended, ?_, ?_⟩
      · simp [opened, State.setProgress, State.spawn, State.setServer]
      · intro query
        by_cases same : query = server
        · simp [opened, State.setProgress, State.spawn, State.setServer, same]
        · simp [opened, State.setProgress, State.spawn, State.setServer, same]

/-- What happens behind `DFK_IO` changes neither the list nor a server. -/
theorem ready_same
    {error close : Bool} {accepts : Accepts} :
    (goOnListening state call server error accepts close).memory =
        state.memory ∧
      (goOnListening state call server error accepts close).calls.length =
        state.calls.length ∧
      (goOnListening state call server error accepts close).servers =
        state.servers := by
  rw [goOnListening]
  cases error with
  | true => exact ⟨rfl, List.length_modify .., rfl⟩
  | false =>
      obtain ⟨err, spawned, accepted, isErr, -⟩ :=
        acceptLoop_eq state call server accepts
      obtain ⟨progress, returns⟩ :=
        @behindListen_returns ι _ (state.spawn call server spawned) server call
          close err isErr
      simp only [Bool.false_eq_true, if_false, accepted, returns]
      exact ⟨rfl, List.length_modify .., rfl⟩

/-- A server that has not been serving is listed as soon as it serves. -/
theorem Enumerates.serve
    {answers : Answers}
    (enumerates : Enumerates state sequence)
    (happens : tcpServe state server answers = .ok next)
    (meets : (Action.serve server answers).Meets state) :
    Enumerates next (sequence ++ [server]) := by
  obtain ⟨socket, notServing⟩ := meets
  obtain ⟨appended, calls, states⟩ := serve_eq happens
  obtain ⟨memory, isMemory, holds⟩ := enumerates.append notServing
  rw [appended] at isMemory
  cases isMemory
  constructor
  · exact holds
  · intro query
    rw [states, List.mem_append, List.mem_singleton, enumerates.members]
    by_cases same : query = server
    · simp [socket, same]
    · simp [same]
  · rw [calls, List.length_append]
    exact Nat.succ_le_succ enumerates.room

/-- A server is listed once it serves only if it has not been before. -/
theorem Enumerates.meets_serve
    {answers : Answers}
    (enumerates : Enumerates state sequence)
    (happens : tcpServe state server answers = .ok next)
    (listed : Listed next) :
    (Action.serve server answers).Meets state := by
  obtain ⟨sequence', holds', members'⟩ := listed
  obtain ⟨appended, calls, states⟩ := serve_eq happens
  have notServing : (state.servers server).state ≠ .serving := by
    intro serving
    have linked :
        next.memory = LinkedList.linkLast state.memory () server := by
      rw [LinkedList.append] at appended
      obtain ⟨-, -, appended⟩ := of_bind appended
      obtain ⟨-, -, appended⟩ := of_bind appended
      obtain ⟨-, -, appended⟩ := of_bind appended
      exact (Except.ok.inj appended).symm
    rw [linked] at holds'
    apply enumerates.holds.not_linkLast_again
      ((enumerates.members server).mpr serving) holds'
    intro query
    rw [members', enumerates.members, states]
    by_cases same : query = server
    · simp [same, serving]
    · simp [same]
  obtain ⟨memory, isMemory, holds⟩ := enumerates.append notServing
  rw [appended] at isMemory
  cases isMemory
  have serving : (next.servers server).state = .serving := by
    rw [← members', holds.unique holds']
    exact List.mem_append_right _ (List.mem_singleton_self _)
  rw [states] at serving
  refine ⟨?_, notServing⟩
  by_contra noSocket
  rw [if_neg fun opened => noSocket opened.1] at serving
  exact notServing serving

/-! ## Stopping -/

/-- The servers that are stopped, where `shutdown` succeeds. -/
def stopEach (state : State ι) (shuts : ι → Bool) (servers : List ι) :
    State ι :=
  { state with
    servers := fun query =>
      if query ∈ servers ∧ shuts query = true then
        { state.servers query with
          state := .stopRequested, listener := .shutDown }
      else state.servers query }

theorem stopEach_nil (shuts : ι → Bool) : stopEach state shuts [] = state := by
  simp [stopEach]

/-- Servers are stopped one after the other. -/
theorem stopEach_cons
    {shuts : ι → Bool} {servers : List ι}
    (isNew : server ∉ servers) :
    stopEach (stopEach state shuts [server]) shuts servers =
      stopEach state shuts (server :: servers) := by
  rw [stopEach, stopEach, stopEach, State.mk.injEq]
  refine ⟨?_, rfl, rfl, rfl, rfl⟩
  funext query
  by_cases same : query = server
  · subst same
    simp [isNew]
  · simp [same]

/-- `dfk_tcp_server_stop` for a server that is serving. -/
theorem tcpServerStop_eq
    (shuts : ι → Bool)
    (serving : (state.servers server).state = .serving) :
    tcpServerStop state server (shuts server) =
      .ok (stopEach state shuts [server]) := by
  rw [tcpServerStop, check_pos serving, ok_bind, stopEach]
  cases isShut : shuts server with
  | false =>
      rw [if_neg Bool.false_ne_true, pure_eq_ok]
      apply congrArg Except.ok
      cases state
      rw [State.mk.injEq]
      refine ⟨?_, rfl, rfl, rfl, rfl⟩
      funext query
      by_cases same : query = server
      · simp [same, isShut]
      · simp [same]
  | true =>
      rw [if_pos rfl, pure_eq_ok, State.setServer]
      apply congrArg Except.ok
      rw [State.mk.injEq]
      refine ⟨?_, rfl, rfl, rfl, rfl⟩
      funext query
      by_cases same : query = server
      · simp [same, isShut]
      · simp [same]

/-- The loop of `dfk_stop` stops what is left of a list of running servers. -/
theorem stopFrom_eq
    {shuts : ι → Bool} {rounds : Nat} :
    ∀ {place : Nat} {state : State ι},
      Holds state.memory () sequence →
        sequence.length ≤ state.bound →
          (∀ server ∈ sequence.drop place,
            (state.servers server).state = .serving) →
            sequence.length < place + rounds →
              place ≤ sequence.length →
                stopFrom shuts { value := none } rounds
                    { value := sequence[place]? } state =
                  .ok (stopEach state shuts (sequence.drop place)) := by
  induction rounds with
  | zero =>
      intro place state holds enough serving left within
      omega
  | succ rounds inductionHypothesis =>
      intro place state holds enough serving left within
      rw [stopFrom]
      cases isHook : sequence[place]? with
      | none =>
          have past := List.getElem?_eq_none_iff.mp isHook
          rw [holds.itEqual_end enough (by simp), ok_bind,
            List.drop_eq_nil_of_le past, stopEach_nil]
          rfl
      | some server =>
          obtain ⟨goesOn, next⟩ :=
            holds.round enough holds.follows_next (fun _ member => member)
              isHook
          obtain ⟨inside, atPlace⟩ := List.getElem?_eq_some_iff.mp isHook
          have shape :
              sequence.drop place = server :: sequence.drop (place + 1) := by
            rw [List.drop_eq_getElem_cons inside, atPlace]
          have isNew : server ∉ sequence.drop (place + 1) := by
            have noDuplicates := holds.noDuplicates.sublist
              (List.drop_sublist place sequence)
            rw [shape] at noDuplicates
            exact (List.nodup_cons.mp noDuplicates).1
          have servingHere : (state.servers server).state = .serving := by
            apply serving
            rw [shape]
            exact List.mem_cons_self
          have servingBehind :
              ∀ query ∈ sequence.drop (place + 1),
                ((stopEach state shuts [server]).servers query).state =
                  .serving := by
            intro query member
            have differs : query ≠ server := by
              rintro rfl
              exact isNew member
            have behind : query ∈ sequence.drop place := by
              rw [shape]
              exact List.mem_cons_of_mem _ member
            simpa [stopEach, differs] using serving query behind
          have rest :=
            @inductionHypothesis (place + 1) (stopEach state shuts [server])
              holds enough servingBehind (by omega) inside
          rw [isHook] at goesOn next
          rw [goesOn, ok_bind, if_neg Bool.false_ne_true, deref_some, ok_bind,
            tcpServerStop_eq shuts servingHere, ok_bind, shape,
            ← stopEach_cons isNew]
          rw [LinkedList.itNext]
          change (LinkedList.advance state.bound state.memory
            state.memory.next _ >>= _) = _
          rw [next, ok_bind]
          exact rest

/-- `dfk_stop` stops the servers that are serving. -/
theorem Enumerates.dfkStop_eq
    (enumerates : Enumerates state sequence) (shuts : ι → Bool) :
    dfkStop state shuts =
      .ok
        (if state.stopped then state
        else stopEach { state with stopped := true } shuts sequence) := by
  rw [dfkStop]
  cases state.stopped with
  | true => rfl
  | false =>
      have holds := enumerates.holds
      have enough := enumerates.enough
      have stops :=
        @stopFrom_eq ι _ sequence shuts state.bound 0
          { state with stopped := true } holds enough
          (fun server member => (enumerates.members server).mp member)
          (by
            have room := enumerates.room
            simp only [State.bound]
            omega)
          (Nat.zero_le _)
      rw [if_neg Bool.false_ne_true, if_neg Bool.false_ne_true]
      change (LinkedList.begin state.bound state.memory () >>= _) = _
      rw [holds.begin enough, ok_bind, List.head?_eq_getElem?]
      change (LinkedList.listEnd state.bound state.memory () >>= _) = _
      rw [holds.listEnd enough, ok_bind]
      exact stops

theorem Enumerates.stoppable (enumerates : Enumerates state sequence) :
    Stoppable state :=
  fun shuts => ⟨_, enumerates.dfkStop_eq shuts⟩

/-- A server that is stopped is not serving. -/
theorem stopEach_state
    {shuts : ι → Bool} {servers : List ι}
    (member : server ∈ servers) (isShut : shuts server = true) :
    ((stopEach state shuts servers).servers server).state ≠ .serving := by
  simp [stopEach, member, isShut]

/-- Servers that cannot be shut down stay as they are. -/
theorem stopEach_unshut
    {shuts : ι → Bool} {servers : List ι}
    (unshut : ∀ server ∈ servers, shuts server = false) :
    stopEach state shuts servers = state := by
  cases state
  rw [stopEach, State.mk.injEq]
  refine ⟨?_, rfl, rfl, rfl, rfl⟩
  funext query
  apply if_neg
  rintro ⟨member, isShut⟩
  rw [unshut query member] at isShut
  cases isShut

/-- The list of servers is right after `dfk_tcp_server_stop` if it fails. -/
theorem Enumerates.stop
    {shuts : Bool}
    (enumerates : Enumerates state sequence)
    (serving : (state.servers server).state = .serving)
    (happens : tcpServerStop state server shuts = .ok next) :
    ((Action.stop server shuts).Meets state → Enumerates next sequence) ∧
      (Listed next → (Action.stop server shuts).Meets state) := by
  rw [tcpServerStop_eq (fun _ => shuts) serving] at happens
  cases happens
  constructor
  · intro unshut
    rw [stopEach_unshut fun _ _ => unshut]
    exact enumerates
  · intro listed
    have memory :
        (stopEach state (fun _ => shuts) [server]).memory = state.memory := rfl
    have stays := enumerates.serving_of_listed memory listed serving
    change shuts = false
    by_contra isShut
    exact stopEach_state (List.mem_singleton_self _)
      (Bool.eq_true_of_not_eq_false isShut) stays

/-- The list of servers is right after `dfk_stop` if it stops no server. -/
theorem Enumerates.stopAll
    {shuts : ι → Bool}
    (enumerates : Enumerates state sequence)
    (happens : dfkStop state shuts = .ok next) :
    ((Action.stopAll shuts).Meets state → Enumerates next sequence) ∧
      (Listed next → (Action.stopAll shuts).Meets state) := by
  rw [enumerates.dfkStop_eq] at happens
  by_cases stopped : state.stopped = true
  · rw [if_pos stopped] at happens
    cases happens
    exact ⟨fun _ => enumerates, fun _ => Or.inl stopped⟩
  · rw [if_neg stopped] at happens
    cases happens
    constructor
    · intro meets
      have unshut := meets.resolve_left stopped
      rw [stopEach_unshut fun server member =>
        unshut server ((enumerates.members server).mp member)]
      exact enumerates.of_same rfl rfl fun _ => rfl
    · intro listed
      have memory :
          (stopEach { state with stopped := true } shuts sequence).memory =
            state.memory := rfl
      right
      intro server serving
      have stays := enumerates.serving_of_listed memory listed serving
      by_contra isShut
      exact stopEach_state ((enumerates.members server).mpr serving)
        (Bool.eq_true_of_not_eq_false isShut) stays

/-! ## Every run -/

/-- The list of servers stays right in exactly the steps that meet `Meets`. -/
theorem Enumerates.preserved
    {action : Action ι}
    (enumerates : Enumerates state sequence) (abrupt : Abrupt state)
    (steps : Steps state action next) :
    (action.Meets state → ∃ sequence, Enumerates next sequence) ∧
      (Listed next → action.Meets state) := by
  have happening := abrupt.happening steps
  obtain ⟨allowed, happens⟩ := steps
  cases action with
  | serve server answers =>
      exact ⟨fun meets => ⟨_, enumerates.serve happens meets⟩,
        enumerates.meets_serve happens⟩
  | ready call error accepts close =>
      obtain ⟨serving, isServing, -⟩ := allowed
      simp only [step, isServing] at happens
      cases happens
      obtain ⟨memory, calls, servers⟩ :=
        @ready_same ι _ state serving.server call error close accepts
      refine ⟨fun _ => ⟨sequence, ?_⟩, fun _ => trivial⟩
      apply enumerates.of_same memory calls
      intro server
      rw [servers]
  | start connection =>
      cases happening with
      | start isConnection phase handed =>
          refine ⟨fun _ => ⟨sequence, ?_⟩, fun _ => trivial⟩
          apply enumerates.of_same handed.memory _ handed.states
          rw [handed.calls]
  | finish connection =>
      cases happening with
      | finish isConnection phase handed =>
          refine ⟨fun _ => ⟨sequence, ?_⟩, fun _ => trivial⟩
          apply enumerates.of_same handed.memory _ handed.states
          rw [handed.calls]
  | goOn call close => cases happening
  | stop server shuts =>
      obtain ⟨stays, meets⟩ := enumerates.stop allowed happens
      exact ⟨fun unshut => ⟨sequence, stays unshut⟩, meets⟩
  | stopAll shuts =>
      obtain ⟨stays, meets⟩ := enumerates.stopAll happens
      exact ⟨fun unshut => ⟨sequence, stays unshut⟩, meets⟩

/-- The list of servers is right, and `dfk_tcp_serve` has not gone far. -/
structure Running (state : State ι) : Prop where
  abrupt : Abrupt state
  enumerated : ∃ sequence, Enumerates state sequence

theorem running_fresh (constantTimeSize : Bool) :
    Running (fresh constantTimeSize : State ι) := by
  refine ⟨abrupt_run (Run.nil _), [], ?_, ?_, Nat.le_refl _⟩
  · exact (LinkedList.represents_fresh fun _ => rfl).holds ()
  · intro server
    simp [fresh, serverInit]

omit [DecidableEq ι] in
theorem Running.listed (running : Running state) : Listed state := by
  obtain ⟨sequence, enumerates⟩ := running.enumerated
  exact enumerates.listed

theorem Running.stoppable (running : Running state) : Stoppable state := by
  obtain ⟨sequence, enumerates⟩ := running.enumerated
  exact enumerates.stoppable

/-- A step that meets `Meets` keeps the list of servers right. -/
theorem Running.preserved
    {action : Action ι}
    (running : Running state) (steps : Steps state action next) :
    (action.Meets state → Running next) ∧ (Listed next → action.Meets state) := by
  obtain ⟨sequence, enumerates⟩ := running.enumerated
  obtain ⟨stays, meets⟩ := enumerates.preserved running.abrupt steps
  have abrupt := running.abrupt.preserved (running.abrupt.happening steps)
  exact ⟨fun isMet => ⟨abrupt, stays isMet⟩, meets⟩

/-- A step that may happen and meets `Meets` does not fail. -/
theorem Running.succeeds
    {action : Action ι}
    (running : Running state) (allowed : Allowed state action)
    (meets : action.Meets state) :
    ∃ next, step state action = .ok next := by
  obtain ⟨sequence, enumerates⟩ := running.enumerated
  cases action with
  | serve server answers =>
      obtain ⟨memory, appended, -⟩ := enumerates.append meets.2
      rw [step, tcpServe, appended, ok_bind]
      dsimp only
      split
      · exact ⟨_, rfl⟩
      · exact ⟨_, rfl⟩
  | ready call error accepts close =>
      obtain ⟨serving, isServing, -⟩ := allowed
      simp [step, isServing]
  | start connection =>
      obtain ⟨contents, isConnection, -⟩ := allowed
      simp [step, isConnection]
  | finish connection =>
      obtain ⟨contents, isConnection, -⟩ := allowed
      simp [step, isConnection]
  | goOn call close =>
      obtain ⟨serving, isServing, -⟩ := allowed
      simp [step, isServing]
  | stop server shuts =>
      exact ⟨_, tcpServerStop_eq (fun _ => shuts) allowed⟩
  | stopAll shuts =>
      exact enumerates.stoppable shuts

/--
The list has exactly the running servers, and `dfk_stop` succeeds, in the
states of exactly the runs in which no server that is serving is served again
or stopped, and none fails to get a socket.
-/
theorem servers_listed_iff
    (constantTimeSize : Bool) (actions : List (Action ι)) (state : State ι) :
    (Listed (fresh constantTimeSize : State ι) ∧
        Stoppable (fresh constantTimeSize : State ι)) ∧
      (Run
          (fun state action next =>
            Steps state action next ∧ Listed next ∧ Stoppable next)
          (fresh constantTimeSize) actions state ↔
        Run
          (fun state action next => Steps state action next ∧ action.Meets state)
          (fresh constantTimeSize) actions state) := by
  have running : Running (fresh constantTimeSize : State ι) := running_fresh _
  refine ⟨⟨running.listed, running.stoppable⟩, ?_, ?_⟩
  · intro run
    refine (run.transfer running ?_).1
    rintro state action next running ⟨steps, listed, -⟩
    obtain ⟨stays, meets⟩ := running.preserved steps
    exact ⟨⟨steps, meets listed⟩, stays (meets listed)⟩
  · intro run
    refine (run.transfer running ?_).1
    rintro state action next running ⟨steps, meets⟩
    have after := (running.preserved steps).1 meets
    exact ⟨⟨steps, after.listed, after.stoppable⟩, after⟩

/-- A server is served and stopped. -/
def stopServing : List (Action Unit) :=
  [.serve ()
      { socket := true
        bind := true
        listen := true
        accepts := { accepted := [], blocks := true }
        close := true },
    .stop () true]

/-- A server that has been stopped is left in the list, and `dfk_stop` fails. -/
theorem stopped_server_listed :
    ∃ state : State Unit,
      Run Steps (fresh false) stopServing state ∧ ¬ Listed state ∧
        dfkStop state (fun _ => true) = .error .assertion := by
  have served :
      Allowed (fresh false) (stopServing.head (List.cons_ne_nil _ _)) := by
    intro serving member
    cases member
  refine ⟨_, ((Run.nil _).snoc ⟨served, rfl⟩).snoc ⟨?_, rfl⟩, ?_, rfl⟩
  · rfl
  · rintro ⟨sequence, holds, members⟩
    have isHead : sequence.head? = some () := holds.head.symm
    have serving := (members ()).mp (List.mem_of_head? isHead)
    cases serving

end Dfk.TcpServer
