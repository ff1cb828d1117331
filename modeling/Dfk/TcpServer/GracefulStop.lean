import Dfk.Library.Runs
import Dfk.TcpServer.Source

/-!
# Stopping a server

`Graceful` says that no connection outlives the call of `dfk_tcp_serve` whose
`listen_ud` it uses.  `dfk_tcp_socket_listen` returns nothing but errors, so
that `dfk_tcp_serve` never waits and never closes its socket.
-/

namespace Dfk.TcpServer

open Runs

variable {ι : Type}

/-- One element of a list is changed. -/
theorem countP_modify
    {α : Type} {counts : α → Bool} {change : α → α} {items : List α}
    {place : Nat} {item : α}
    (isItem : items[place]? = some item) :
    (items.modify place change).countP counts +
        (if counts item then 1 else 0) =
      items.countP counts + if counts (change item) then 1 else 0 := by
  induction items generalizing place with
  | nil => cases isItem
  | cons first items inductionHypothesis =>
      cases place with
      | zero =>
          cases isItem
          simp only [List.modify_zero_cons, List.countP_cons]
          exact Nat.add_right_comm ..
      | succ place =>
          have behind := inductionHypothesis isItem
          simp only [List.modify_succ_cons, List.countP_cons]
          rw [Nat.add_right_comm, behind, Nat.add_right_comm]

variable [DecidableEq ι]
variable {state next : State ι} {server query : ι} {call : Nat}

/-- The connections of a server that have yet to start or are being handled. -/
def outstanding (state : State ι) (server : ι) : Nat :=
  state.connections.countP fun connection =>
    connection.server = server ∧ connection.phase ≠ .finished

/-- The connections of a server that are being handled. -/
def handled (state : State ι) (server : ι) : Nat :=
  state.connections.countP fun connection =>
    connection.server = server ∧ connection.phase = .handling

/--
No connection is left by a call that has returned, connections are counted,
and when `dfk_tcp_serve` has returned the socket is closed and the server is
stopped.
-/
structure Graceful (state : State ι) : Prop where
  noneLeft : ∀ (call : Nat) (serving : Serving ι),
    state.calls[call]? = some serving → serving.Returned →
      ∀ connection ∈ state.connections,
        connection.call = call → connection.phase = .finished
  counted : ∀ server,
    (state.servers server).activeConnections = outstanding state server
  closed : ∀ server,
    (∃ serving ∈ state.calls, serving.server = server) →
      (∀ serving ∈ state.calls,
        serving.server = server → serving.Returned) →
        (state.servers server).listener = .closed ∧
          (state.servers server).state = .stopped

/-- Nothing is accepted, and the accept loop is not left. -/
def Accepts.Idle (accepts : Accepts) : Prop :=
  (∀ spawned ∈ accepts.accepted, spawned = false) ∧ accepts.blocks = true

/-- No connection is accepted, and `dfk_tcp_serve` does not return. -/
def Action.StaysIdle : Action ι → Prop
  | .serve _ answers =>
      answers.socket = true ∧ answers.bind = true ∧ answers.listen = true ∧
        answers.accepts.Idle
  | .ready _ error accepts _ => error = false ∧ accepts.Idle
  | _ => True

/-- Calls are in the accept loop or have returned an error. -/
structure Abrupt (state : State ι) : Prop where
  calls : ∀ (call : Nat) (serving : Serving ι),
    state.calls[call]? = some serving →
      serving.progress = .listening ∨ serving.progress = .returned .sys
  single : ∀ (call other : Nat) (serving otherServing : Serving ι),
    state.calls[call]? = some serving →
      state.calls[other]? = some otherServing →
        serving.server = otherServing.server →
          serving.progress = .listening →
            otherServing.progress = .listening → call = other
  states : ∀ server,
    (state.servers server).state ≠ .stopWaitConnections ∧
      (state.servers server).state ≠ .stopped

/-- What the accept loop has done when it is suspended or left. -/
structure Outcome (state next : State ι) (call : Nat) (server : ι)
    (spawned : Nat) (progress : Progress) : Prop where
  connections :
    next.connections =
      state.connections ++
        List.replicate spawned
          { call := call, server := server, phase := .spawned }
  active : ∀ query,
    (next.servers query).activeConnections =
      (state.servers query).activeConnections
  states : ∀ query,
    (next.servers query).state = (state.servers query).state ∨
      (next.servers query).state = .serving
  calls : ∀ query : Nat,
    next.calls[query]? =
      if query = call then
        some { server := server, progress := progress }
      else state.calls[query]?
  progress : progress = .listening ∨ progress = .returned .sys

/-- Whether a list of answers has none that spawns a fiber. -/
theorem filter_spawned (accepted : List Bool) :
    (∀ spawned ∈ accepted, spawned = false) ↔
      (accepted.filter id).length = 0 := by
  rw [List.length_eq_zero_iff, List.filter_eq_nil_iff]
  simp

/-- The rest of `dfk_tcp_serve` for what the accept loop returns. -/
theorem Outcome.behindListen
    {middle : State ι} {close : Bool} {err : Option Err} {serving : Serving ι}
    {spawned : Nat}
    (connections :
      middle.connections =
        state.connections ++
          List.replicate spawned
            { call := call, server := server, phase := .spawned })
    (active : ∀ query,
      (middle.servers query).activeConnections =
        (state.servers query).activeConnections)
    (states : ∀ query,
      (middle.servers query).state = (state.servers query).state ∨
        (middle.servers query).state = .serving)
    (isServing : middle.calls[call]? = some serving)
    (isServer : serving.server = server)
    (calls : ∀ query, query ≠ call →
      middle.calls[query]? = state.calls[query]?)
    (isErr : err = none ∨ err = some .sys) :
    ∃ progress,
      Outcome state (behindListen middle call server close err) call server
          spawned progress ∧
        (progress = .listening ↔ err = none) := by
  have modified (progress : Progress) (query : Nat) :
      (middle.setProgress call progress).calls[query]? =
        if query = call then
          some { server := server, progress := progress }
        else state.calls[query]? := by
    rw [State.setProgress, List.getElem?_modify]
    by_cases same : query = call
    · subst same
      simp [isServing, isServer]
    · rw [if_neg same, calls query same]
      simp [Ne.symm same]
  rcases isErr with rfl | rfl
  · exact ⟨.listening,
      ⟨connections, active, states, modified .listening, Or.inl rfl⟩,
      by simp⟩
  · exact ⟨.returned .sys,
      ⟨connections, active, states, modified (.returned .sys), Or.inr rfl⟩,
      by simp⟩

/-- Connections have been spawned for a call. -/
def State.spawn (state : State ι) (call : Nat) (server : ι) (spawned : Nat) :
    State ι :=
  { state with
    connections :=
      state.connections ++
        List.replicate spawned
          { call := call, server := server, phase := .spawned } }

omit [DecidableEq ι] in
/-- The accept loop spawns connections and is suspended, or returns an error. -/
theorem acceptLoop_eq
    (state : State ι) (call : Nat) (server : ι) (accepts : Accepts) :
    ∃ err spawned,
      acceptLoop state call server accepts =
          (err, state.spawn call server spawned) ∧
        (err = none ∨ err = some .sys) ∧
        (accepts.Idle ↔ err = none ∧ spawned = 0) := by
  refine ⟨if accepts.blocks then none else some .sys,
    (accepts.accepted.filter id).length, ?_, ?_, ?_⟩
  · simp [acceptLoop, State.spawn]
  · split
    · exact Or.inl rfl
    · exact Or.inr rfl
  · rw [Accepts.Idle, filter_spawned, and_comm]
    cases accepts.blocks with
    | true => simp
    | false => simp

omit [DecidableEq ι] in
/-- `dfk_tcp_socket_listen` does the same. -/
theorem tcpSocketListen_eq
    (state : State ι) (call : Nat) (server : ι) (answers : Answers) :
    ∃ err spawned,
      tcpSocketListen state call server answers =
          (err, state.spawn call server spawned) ∧
        (err = none ∨ err = some .sys) ∧
        (answers.bind = true ∧ answers.listen = true ∧ answers.accepts.Idle ↔
          err = none ∧ spawned = 0) := by
  have unchanged : state = state.spawn call server 0 := by
    simp [State.spawn]
  rw [tcpSocketListen]
  cases answers.bind with
  | false => exact ⟨some .sys, 0, by simp [← unchanged], by simp, by simp⟩
  | true =>
      cases answers.listen with
      | false => exact ⟨some .sys, 0, by simp [← unchanged], by simp, by simp⟩
      | true =>
          simpa using acceptLoop_eq state call server answers.accepts

/-- `DFK_IO` returns in the accept loop. -/
theorem outcome_ready
    {serving : Serving ι} {error close : Bool} {accepts : Accepts}
    (isServing : state.calls[call]? = some serving) :
    ∃ spawned progress,
      Outcome state
          (goOnListening state call serving.server error accepts close) call
          serving.server spawned progress ∧
        (error = false ∧ accepts.Idle ↔
          progress = .listening ∧ spawned = 0) := by
  rw [goOnListening]
  cases error with
  | true =>
      obtain ⟨progress, outcome, listens⟩ :=
        @Outcome.behindListen ι _ state serving.server call state close
          (some .sys) serving 0 (List.append_nil _).symm (fun _ => rfl)
          (fun _ => Or.inl rfl) isServing rfl (fun _ _ => rfl) (Or.inr rfl)
      refine ⟨0, progress, outcome, ?_⟩
      simp [listens]
  | false =>
      obtain ⟨err, spawned, accepted, isErr, idle⟩ :=
        acceptLoop_eq state call serving.server accepts
      obtain ⟨progress, outcome, listens⟩ :=
        @Outcome.behindListen ι _ state serving.server call
          (state.spawn call serving.server spawned) close err serving spawned
          rfl (fun _ => rfl) (fun _ => Or.inl rfl) isServing rfl
          (fun _ _ => rfl) isErr
      refine ⟨spawned, progress, ?_, ?_⟩
      · simp only [Bool.false_eq_true, if_false, accepted]
        exact outcome
      · rw [idle, listens]
        simp

/-- `dfk_tcp_serve` is called. -/
theorem outcome_serve
    {answers : Answers}
    (happens : tcpServe state server answers = .ok next) :
    ∃ spawned progress,
      Outcome state next state.calls.length server spawned progress ∧
        ((answers.socket = true ∧ answers.bind = true ∧
            answers.listen = true ∧ answers.accepts.Idle) ↔
          progress = .listening ∧ spawned = 0) := by
  rw [tcpServe] at happens
  obtain ⟨memory, -, happens⟩ := of_bind happens
  have called (query : Nat) (differs : query ≠ state.calls.length)
      (serving : Serving ι) :
      (state.calls ++ [serving])[query]? = state.calls[query]? := by
    rw [List.getElem?_append]
    split
    · rfl
    · next behind =>
        rw [List.getElem?_eq_none_iff.mpr (by simp; omega),
          List.getElem?_eq_none_iff.mpr (by omega)]
  cases socket : answers.socket with
  | false =>
      simp only [socket, if_true] at happens
      cases happens
      obtain ⟨progress, outcome, listens⟩ :=
        @Outcome.behindListen ι _ state server state.calls.length
          { state with
            memory := memory
            calls := state.calls ++
              [{ server := server, progress := .listening }] }
          answers.close (some .sys)
          { server := server, progress := .listening } 0
          (List.append_nil _).symm (fun _ => rfl) (fun _ => Or.inl rfl)
          (by simp) rfl (fun query differs => called query differs _)
          (Or.inr rfl)
      refine ⟨0, progress, outcome, ?_⟩
      simp [listens]
  | true =>
      simp only [socket, Bool.true_eq_false, if_false] at happens
      let opened : State ι :=
        { state with
          memory := memory
          calls := state.calls ++
            [({ server := server, progress := .listening } : Serving ι)]
          }.setServer server
          { state.servers server with
            state := .serving, listener := .opened }
      obtain ⟨err, spawned, listened, isErr, idle⟩ :=
        tcpSocketListen_eq opened state.calls.length server answers
      have kept (query : ι) :
          (opened.servers query).activeConnections =
              (state.servers query).activeConnections ∧
            ((opened.servers query).state = (state.servers query).state ∨
              (opened.servers query).state = .serving) := by
        by_cases same : query = server
        · subst same
          simp [opened, State.setServer]
        · simp [opened, State.setServer, same]
      obtain ⟨progress, outcome, listens⟩ :=
        @Outcome.behindListen ι _ state server state.calls.length
          (opened.spawn state.calls.length server spawned) answers.close err
          { server := server, progress := .listening } spawned rfl
          (fun query => (kept query).1) (fun query => (kept query).2)
          (by simp [opened, State.spawn, State.setServer]) rfl
          (fun query differs => called query differs _) isErr
      refine ⟨spawned, progress, ?_, ?_⟩
      · have isNext :
            behindListen
                (tcpSocketListen opened state.calls.length server answers).2
                state.calls.length server answers.close
                (tcpSocketListen opened state.calls.length server answers).1 =
              next :=
          Except.ok.inj happens
        rw [← isNext, listened]
        exact outcome
      · rw [idle, listens]
        simp

/-! ## Stopping -/

/-- Servers have been stopped, or not. -/
structure Halted (state next : State ι) : Prop where
  connections : next.connections = state.connections
  calls : next.calls = state.calls
  active : ∀ query,
    (next.servers query).activeConnections =
      (state.servers query).activeConnections
  states : ∀ query,
    (next.servers query).state = (state.servers query).state ∨
      (next.servers query).state = .stopRequested

omit [DecidableEq ι] in
theorem Halted.refl (state : State ι) : Halted state state :=
  ⟨rfl, rfl, fun _ => rfl, fun _ => Or.inl rfl⟩

omit [DecidableEq ι] in
theorem Halted.trans
    {middle : State ι}
    (first : Halted state middle) (second : Halted middle next) :
    Halted state next := by
  constructor
  · exact second.connections.trans first.connections
  · exact second.calls.trans first.calls
  · intro query
    exact (second.active query).trans (first.active query)
  · intro query
    rcases second.states query with same | requested
    · rw [same]
      exact first.states query
    · exact Or.inr requested

/-- `dfk_tcp_server_stop` -/
theorem halted_stop
    {shuts : Bool}
    (happens : tcpServerStop state server shuts = .ok next) :
    Halted state next := by
  rw [tcpServerStop] at happens
  obtain ⟨-, -, happens⟩ := of_bind happens
  cases shuts with
  | false =>
      cases happens
      exact Halted.refl _
  | true =>
      cases happens
      refine ⟨rfl, rfl, ?_, ?_⟩
      · intro query
        by_cases same : query = server
        · subst same
          simp [State.setServer]
        · simp [State.setServer, same]
      · intro query
        by_cases same : query = server
        · simp [State.setServer, same]
        · simp [State.setServer, same]

/-- The loop of `dfk_stop`. -/
theorem halted_stopFrom
    {shuts : ι → Bool} {stop it : LinkedList.It ι} {rounds : Nat}
    (happens : stopFrom shuts stop rounds it state = .ok next) :
    Halted state next := by
  induction rounds generalizing it state with
  | zero => cases happens
  | succ rounds inductionHypothesis =>
      rw [stopFrom] at happens
      obtain ⟨ended, -, happens⟩ := of_bind happens
      cases ended with
      | true =>
          cases happens
          exact Halted.refl _
      | false =>
          obtain ⟨server, -, happens⟩ := of_bind happens
          obtain ⟨middle, stops, happens⟩ := of_bind happens
          obtain ⟨it, -, happens⟩ := of_bind happens
          exact (halted_stop stops).trans (inductionHypothesis happens)

/-- `dfk_stop` -/
theorem halted_stopAll
    {shuts : ι → Bool}
    (happens : dfkStop state shuts = .ok next) :
    Halted state next := by
  rw [dfkStop] at happens
  split at happens
  · cases happens
    exact Halted.refl _
  · obtain ⟨it, -, happens⟩ := of_bind happens
    obtain ⟨stop, -, happens⟩ := of_bind happens
    have halted := halted_stopFrom happens
    exact ⟨halted.connections, halted.calls, halted.active, halted.states⟩

/-! ## What every step preserves -/

omit [DecidableEq ι] in
/-- The accept loop of the only call that is in progress on a server. -/
theorem Abrupt.of_outcome
    {spawned : Nat} {progress : Progress}
    (abrupt : Abrupt state)
    (outcome : Outcome state next call server spawned progress)
    (only : ∀ (other : Nat) (serving : Serving ι),
      state.calls[other]? = some serving → serving.server = server →
        serving.progress = .listening → other = call) :
    Abrupt next := by
  constructor
  · intro other serving isServing
    rw [outcome.calls] at isServing
    by_cases same : other = call
    · rw [if_pos same] at isServing
      cases isServing
      exact outcome.progress
    · rw [if_neg same] at isServing
      exact abrupt.calls other serving isServing
  · intro left right leftServing rightServing isLeft isRight sameServer
      leftListens rightListens
    rw [outcome.calls] at isLeft isRight
    by_cases sameLeft : left = call
    · by_cases sameRight : right = call
      · exact sameLeft.trans sameRight.symm
      · rw [if_pos sameLeft] at isLeft
        rw [if_neg sameRight] at isRight
        cases isLeft
        rw [only right rightServing isRight sameServer.symm rightListens]
        exact sameLeft
    · rw [if_neg sameLeft] at isLeft
      by_cases sameRight : right = call
      · rw [if_pos sameRight] at isRight
        cases isRight
        rw [only left leftServing isLeft sameServer leftListens]
        exact sameRight.symm
      · rw [if_neg sameRight] at isRight
        exact abrupt.single left right leftServing rightServing isLeft isRight
          sameServer leftListens rightListens
  · intro query
    rcases outcome.states query with same | serving
    · rw [same]
      exact abrupt.states query
    · rw [serving]
      exact ⟨by decide, by decide⟩

omit [DecidableEq ι] in
theorem Abrupt.of_halted
    (abrupt : Abrupt state) (halted : Halted state next) :
    Abrupt next := by
  constructor
  · rw [halted.calls]
    exact abrupt.calls
  · rw [halted.calls]
    exact abrupt.single
  · intro query
    rcases halted.states query with same | requested
    · rw [same]
      exact abrupt.states query
    · rw [requested]
      exact ⟨by decide, by decide⟩

/-- A connection starts or ends, and no call is waiting for it. -/
structure Handed (state next : State ι) (server : ι) (connection : Nat)
    (phase : Phase) (activeConnections : Nat) : Prop where
  connections :
    next.connections =
      state.connections.modify connection fun contents =>
        { contents with phase := phase }
  calls : next.calls = state.calls
  active : ∀ query,
    (next.servers query).activeConnections =
      if query = server then activeConnections
      else (state.servers query).activeConnections
  states : ∀ query,
    (next.servers query).state = (state.servers query).state
  memory : next.memory = state.memory

/-- `dfk_tcp_server_callback` up to the handler. -/
theorem handed_begin
    (state : State ι) (connection : Nat) (server : ι) :
    Handed state (beginConnection state connection server) server connection
      .handling ((state.servers server).activeConnections + 1) := by
  refine ⟨rfl, rfl, ?_, ?_, rfl⟩
  · intro query
    by_cases same : query = server
    · simp [beginConnection, State.setPhase, State.setServer, same]
    · simp [beginConnection, State.setPhase, State.setServer, same]
  · intro query
    by_cases same : query = server
    · simp [beginConnection, State.setPhase, State.setServer, same]
    · simp [beginConnection, State.setPhase, State.setServer, same]

/-- `dfk_tcp_server_callback` behind the handler. -/
theorem Abrupt.handed_end
    (abrupt : Abrupt state) (connection call : Nat) (server : ι) :
    Handed state (endConnection state connection call server) server connection
      .finished ((state.servers server).activeConnections - 1) := by
  have notWaiting := (abrupt.states server).1
  rw [endConnection, if_neg (fun ends => notWaiting ends.2)]
  refine ⟨rfl, rfl, ?_, ?_, rfl⟩
  · intro query
    by_cases same : query = server
    · simp [State.setPhase, State.setServer, same]
    · simp [State.setPhase, State.setServer, same]
  · intro query
    by_cases same : query = server
    · simp [State.setPhase, State.setServer, same]
    · simp [State.setPhase, State.setServer, same]

theorem Abrupt.of_handed
    {connection activeConnections : Nat} {phase : Phase}
    (abrupt : Abrupt state)
    (handed : Handed state next server connection phase activeConnections) :
    Abrupt next := by
  constructor
  · rw [handed.calls]
    exact abrupt.calls
  · rw [handed.calls]
    exact abrupt.single
  · intro query
    rw [handed.states query]
    exact abrupt.states query

/-- What happens next, where no call is waiting for connections. -/
inductive Happening (state next : State ι) : Action ι → Prop where
  | serve {server : ι} {answers : Answers} {spawned : Nat} {progress : Progress}
      (outcome :
        Outcome state next state.calls.length server spawned progress)
      (others : ∀ serving ∈ state.calls,
        serving.server = server → serving.Returned)
      (idle : (Action.serve server answers).StaysIdle ↔
        progress = .listening ∧ spawned = 0) :
      Happening state next (.serve server answers)
  | ready {call : Nat} {error close : Bool} {accepts : Accepts}
      {serving : Serving ι} {spawned : Nat} {progress : Progress}
      (isServing : state.calls[call]? = some serving)
      (listens : serving.progress = .listening)
      (outcome : Outcome state next call serving.server spawned progress)
      (idle : (Action.ready call error accepts close : Action ι).StaysIdle ↔
        progress = .listening ∧ spawned = 0) :
      Happening state next (.ready call error accepts close)
  | start {connection : Nat} {contents : Connection ι}
      (isConnection : state.connections[connection]? = some contents)
      (phase : contents.phase = .spawned)
      (handed :
        Handed state next contents.server connection .handling
          ((state.servers contents.server).activeConnections + 1)) :
      Happening state next (.start connection)
  | finish {connection : Nat} {contents : Connection ι}
      (isConnection : state.connections[connection]? = some contents)
      (phase : contents.phase = .handling)
      (handed :
        Handed state next contents.server connection .finished
          ((state.servers contents.server).activeConnections - 1)) :
      Happening state next (.finish connection)
  | stop {server : ι} {shuts : Bool} (halted : Halted state next) :
      Happening state next (.stop server shuts)
  | stopAll {shuts : ι → Bool} (halted : Halted state next) :
      Happening state next (.stopAll shuts)

/-- What a step does. -/
theorem Abrupt.happening
    {action : Action ι}
    (abrupt : Abrupt state) (steps : Steps state action next) :
    Happening state next action := by
  obtain ⟨allowed, happens⟩ := steps
  cases action with
  | serve server answers =>
      obtain ⟨spawned, progress, outcome, idle⟩ := outcome_serve happens
      exact Happening.serve outcome allowed idle
  | ready call error accepts close =>
      obtain ⟨serving, isServing, listens, -⟩ := allowed
      simp only [step, isServing] at happens
      cases happens
      obtain ⟨spawned, progress, outcome, idle⟩ :=
        @outcome_ready ι _ state call serving error close accepts isServing
      exact Happening.ready isServing listens outcome idle
  | start connection =>
      obtain ⟨contents, isConnection, phase⟩ := allowed
      simp only [step, isConnection] at happens
      cases happens
      exact Happening.start isConnection phase (handed_begin ..)
  | finish connection =>
      obtain ⟨contents, isConnection, phase⟩ := allowed
      simp only [step, isConnection] at happens
      cases happens
      exact Happening.finish isConnection phase (abrupt.handed_end ..)
  | goOn call close =>
      obtain ⟨serving, isServing, resumed⟩ := allowed
      rcases abrupt.calls call serving isServing with listens | returned
      · cases resumed.symm.trans listens
      · cases resumed.symm.trans returned
  | stop server shuts =>
      exact Happening.stop (halted_stop happens)
  | stopAll shuts =>
      exact Happening.stopAll (halted_stopAll happens)

/-- Calls stay in the accept loop until they return an error. -/
theorem Abrupt.preserved
    {action : Action ι}
    (abrupt : Abrupt state) (happening : Happening state next action) :
    Abrupt next := by
  cases happening with
  | serve outcome others idle =>
      apply abrupt.of_outcome outcome
      intro other serving isServing sameServer listens
      obtain ⟨err, returned⟩ :=
        others serving (List.mem_of_getElem? isServing) sameServer
      cases listens.symm.trans returned
  | ready isServing listens outcome idle =>
      apply abrupt.of_outcome outcome
      intro other otherServing isOther sameServer otherListens
      exact abrupt.single _ _ _ _ isOther isServing sameServer otherListens
        listens
  | start isConnection phase handed => exact abrupt.of_handed handed
  | finish isConnection phase handed => exact abrupt.of_handed handed
  | stop halted => exact abrupt.of_halted halted
  | stopAll halted => exact abrupt.of_halted halted

/-- Calls stay in the accept loop in every run. -/
theorem abrupt_run
    {constantTimeSize : Bool} {actions : List (Action ι)}
    (run : Run Steps (fresh constantTimeSize) actions state) :
    Abrupt state := by
  apply run.invariant
  · constructor
    · intro call serving isServing
      cases isServing
    · intro call other serving otherServing isServing
      cases isServing
    · intro server
      constructor
      · simp [fresh, serverInit]
      · simp [fresh, serverInit]
  · intro state action next _ abrupt steps
    exact abrupt.preserved (abrupt.happening steps)

/-! ## Counting connections -/

/-- A new phase changes the number of connections being handled. -/
theorem Handed.handled
    {connection activeConnections : Nat} {phase : Phase}
    {contents : Connection ι}
    (handed : Handed state next server connection phase activeConnections)
    (isConnection : state.connections[connection]? = some contents)
    (query : ι) :
    handled next query +
        (if contents.server = query ∧ contents.phase = .handling then 1
          else 0) =
      handled state query +
        if contents.server = query ∧ phase = .handling then 1 else 0 := by
  have modified :=
    @countP_modify (Connection ι)
      (fun connection =>
        decide (connection.server = query ∧ connection.phase = .handling))
      (fun contents => { contents with phase := phase }) _ _ _ isConnection
  simp only [decide_eq_true_eq] at modified
  rw [TcpServer.handled, TcpServer.handled, handed.connections]
  exact modified

/-- Connections that have been spawned are not handled yet. -/
theorem Outcome.handled
    {spawned : Nat} {progress : Progress}
    (outcome : Outcome state next call server spawned progress) :
    handled next query = handled state query := by
  rw [TcpServer.handled, outcome.connections, List.countP_append,
    List.countP_replicate]
  simp [TcpServer.handled]

/-- The counter of a server follows the connections being handled. -/
theorem handled_preserved
    {action : Action ι}
    (counts : ∀ server,
      (state.servers server).activeConnections = handled state server)
    (happening : Happening state next action) :
    (next.servers query).activeConnections = handled next query := by
  cases happening with
  | serve outcome others idle =>
      rw [outcome.active, outcome.handled]
      exact counts query
  | ready isServing listens outcome idle =>
      rw [outcome.active, outcome.handled]
      exact counts query
  | @start connection contents isConnection phase handed =>
      have changed := handed.handled isConnection query
      rw [handed.active]
      by_cases same : contents.server = query
      · simp only [phase, same, reduceCtorEq, and_false, if_false, and_true,
          if_true] at changed ⊢
        rw [counts]
        exact changed.symm
      · rw [if_neg (Ne.symm same), counts]
        simpa [same] using changed.symm
  | @finish connection contents isConnection phase handed =>
      have changed := handed.handled isConnection query
      rw [handed.active]
      by_cases same : contents.server = query
      · simp only [phase, same, reduceCtorEq, and_false, if_false, and_true,
          if_true] at changed ⊢
        rw [counts]
        exact (Nat.eq_sub_of_add_eq changed).symm
      · rw [if_neg (Ne.symm same), counts]
        simpa [same] using changed.symm
  | stop halted =>
      rw [halted.active, counts, handled, handled, halted.connections]
  | stopAll halted =>
      rw [halted.active, counts, handled, handled, halted.connections]

/-- `_active_connections` leaves out connections that have yet to start. -/
theorem active_eq_handled
    {constantTimeSize : Bool} {actions : List (Action ι)}
    (run : Run Steps (fresh constantTimeSize) actions state) (server : ι) :
    (state.servers server).activeConnections = handled state server := by
  have start : Abrupt (fresh constantTimeSize : State ι) :=
    abrupt_run (Run.nil _)
  have reached :
      Abrupt state ∧ ∀ server,
        (state.servers server).activeConnections = handled state server := by
    refine @Run.invariant (State ι) (Action ι) _ _ _ _
      (fun state => Abrupt state ∧ ∀ server,
        (state.servers server).activeConnections = handled state server)
      run ⟨start, fun _ => rfl⟩ ?_
    rintro state action next - ⟨abrupt, counts⟩ steps
    have happening := abrupt.happening steps
    exact ⟨abrupt.preserved happening,
      fun _ => handled_preserved counts happening⟩
  exact reached.2 server

/-! ## The claim about stopping -/

/-- Every call is in the accept loop, and nothing has been accepted. -/
structure Quiet (state : State ι) : Prop where
  connections : state.connections = []
  calls : ∀ serving ∈ state.calls, serving.progress = .listening
  active : ∀ server, (state.servers server).activeConnections = 0

theorem Quiet.graceful (quiet : Quiet state) : Graceful state := by
  constructor
  · intro call serving isServing returned connection member
    rw [quiet.connections] at member
    cases member
  · intro server
    rw [quiet.active, outstanding, quiet.connections, List.countP_nil]
  · intro server served allReturned
    obtain ⟨serving, member, isServer⟩ := served
    obtain ⟨err, returned⟩ := allReturned serving member isServer
    cases (quiet.calls serving member).symm.trans returned

omit [DecidableEq ι] in
theorem Quiet.of_outcome
    {spawned : Nat} {progress : Progress}
    (quiet : Quiet state)
    (outcome : Outcome state next call server spawned progress)
    (listens : progress = .listening) (noneSpawned : spawned = 0) :
    Quiet next := by
  constructor
  · rw [outcome.connections, quiet.connections, noneSpawned]
    rfl
  · intro serving member
    obtain ⟨other, isServing⟩ := List.getElem?_of_mem member
    rw [outcome.calls] at isServing
    split at isServing
    · cases isServing
      exact listens
    · exact quiet.calls serving (List.mem_of_getElem? isServing)
  · intro query
    rw [outcome.active]
    exact quiet.active query

omit [DecidableEq ι] in
theorem Quiet.of_halted
    (quiet : Quiet state) (halted : Halted state next) : Quiet next := by
  constructor
  · rw [halted.connections]
    exact quiet.connections
  · rw [halted.calls]
    exact quiet.calls
  · intro query
    rw [halted.active]
    exact quiet.active query

/-- While nothing is accepted and no call returns, all stays quiet. -/
theorem Quiet.preserved
    {action : Action ι}
    (quiet : Quiet state) (happening : Happening state next action)
    (staysIdle : action.StaysIdle) :
    Quiet next := by
  cases happening with
  | serve outcome others idle =>
      obtain ⟨listens, noneSpawned⟩ := idle.mp staysIdle
      exact quiet.of_outcome outcome listens noneSpawned
  | ready isServing listening outcome idle =>
      obtain ⟨listens, noneSpawned⟩ := idle.mp staysIdle
      exact quiet.of_outcome outcome listens noneSpawned
  | start isConnection phase handed =>
      rw [quiet.connections] at isConnection
      cases isConnection
  | finish isConnection phase handed =>
      rw [quiet.connections] at isConnection
      cases isConnection
  | stop halted => exact quiet.of_halted halted
  | stopAll halted => exact quiet.of_halted halted

/-- Connections that have been spawned are outstanding. -/
theorem Outcome.outstanding
    {spawned : Nat} {progress : Progress}
    (outcome : Outcome state next call server spawned progress) :
    outstanding next server = outstanding state server + spawned := by
  rw [TcpServer.outstanding, outcome.connections, List.countP_append,
    List.countP_replicate]
  simp [TcpServer.outstanding]

/-- A call that returns, or accepts a connection, breaks what is claimed. -/
theorem Abrupt.idle
    {spawned : Nat} {progress : Progress}
    (abrupt : Abrupt next) (before : Graceful state) (graceful : Graceful next)
    (outcome : Outcome state next call server spawned progress)
    (others : ∀ (other : Nat) (serving : Serving ι),
      other ≠ call → state.calls[other]? = some serving →
        serving.server = server → serving.Returned) :
    progress = .listening ∧ spawned = 0 := by
  constructor
  · rcases outcome.progress with listens | returned
    · exact listens
    · have isCall : next.calls[call]? =
          some { server := server, progress := progress } := by
        rw [outcome.calls, if_pos rfl]
      obtain ⟨-, stopped⟩ :=
        graceful.closed server ⟨_, List.mem_of_getElem? isCall, rfl⟩ (by
          intro serving member isServer
          obtain ⟨other, isServing⟩ := List.getElem?_of_mem member
          rw [outcome.calls] at isServing
          split at isServing
          · cases isServing
            exact ⟨.sys, returned⟩
          · next differs => exact others other serving differs isServing isServer)
      exact absurd stopped (abrupt.states server).2
  · have counted := graceful.counted server
    rw [outcome.active, before.counted, outcome.outstanding] at counted
    exact Nat.left_eq_add.mp counted

/-- What is claimed of stopping holds only while nothing is accepted. -/
theorem Abrupt.staysIdle
    {action : Action ι}
    (abrupt : Abrupt state) (before : Graceful state)
    (happening : Happening state next action) (graceful : Graceful next) :
    action.StaysIdle := by
  have after := abrupt.preserved happening
  cases happening with
  | serve outcome others idle =>
      apply idle.mpr
      apply after.idle before graceful outcome
      intro other serving _ isServing isServer
      exact others serving (List.mem_of_getElem? isServing) isServer
  | ready isServing listens outcome idle =>
      apply idle.mpr
      apply after.idle before graceful outcome
      intro other serving differs isOther isServer
      rcases abrupt.calls other serving isOther with otherListens | returned
      · exact absurd
          (abrupt.single _ _ _ _ isOther isServing isServer otherListens
            listens) differs
      · exact ⟨.sys, returned⟩
  | start isConnection phase handed => trivial
  | finish isConnection phase handed => trivial
  | stop halted => trivial
  | stopAll halted => trivial

omit [DecidableEq ι] in
theorem quiet_fresh
    (constantTimeSize : Bool) :
    Quiet (fresh constantTimeSize : State ι) := by
  refine ⟨rfl, ?_, fun _ => rfl⟩
  intro serving member
  cases member

/--
A server is stopped gracefully in the states of exactly the runs in which
nothing is accepted and `dfk_tcp_serve` does not return.
-/
theorem graceful_iff_idle
    (constantTimeSize : Bool) (actions : List (Action ι)) (state : State ι) :
    Graceful (fresh constantTimeSize : State ι) ∧
      (Run (fun state action next => Steps state action next ∧ Graceful next)
          (fresh constantTimeSize) actions state ↔
        Run (fun state action next => Steps state action next ∧ action.StaysIdle)
          (fresh constantTimeSize) actions state) := by
  have quiet : Quiet (fresh constantTimeSize : State ι) := quiet_fresh _
  have abrupt : Abrupt (fresh constantTimeSize : State ι) :=
    abrupt_run (Run.nil _)
  refine ⟨quiet.graceful, ?_, ?_⟩
  · intro run
    refine (@Run.transfer (State ι) (Action ι) _ _ _ _ _
      (fun state => Abrupt state ∧ Graceful state) run
      ⟨abrupt, quiet.graceful⟩ ?_).1
    rintro state action next ⟨abrupt, before⟩ ⟨steps, graceful⟩
    have happening := abrupt.happening steps
    exact ⟨⟨steps, abrupt.staysIdle before happening graceful⟩,
      abrupt.preserved happening, graceful⟩
  · intro run
    refine (@Run.transfer (State ι) (Action ι) _ _ _ _ _
      (fun state => Abrupt state ∧ Quiet state) run ⟨abrupt, quiet⟩ ?_).1
    rintro state action next ⟨abrupt, quiet⟩ ⟨steps, staysIdle⟩
    have happening := abrupt.happening steps
    have quietNext := quiet.preserved happening staysIdle
    exact ⟨⟨steps, quietNext.graceful⟩, abrupt.preserved happening, quietNext⟩

/-- A server that is stopped while the one connection it has is handled. -/
def stopWhileHandling : List (Action Unit) :=
  [.serve ()
      { socket := true
        bind := true
        listen := true
        accepts := { accepted := [true], blocks := true }
        close := true },
    .start 0,
    .stop () true,
    .ready 0 false { accepted := [], blocks := false } true]

/--
`dfk_tcp_serve` returns while a connection is handled; the socket is not closed
and the server cannot be freed.
-/
theorem left_while_handling :
    ∃ state : State Unit,
      Run Steps (fresh false) stopWhileHandling state ∧ ¬ Graceful state ∧
        (state.servers ()).listener = .shutDown ∧
        tcpServerFree state () = .error .assertion := by
  have served :
      Allowed (fresh false) (stopWhileHandling.head (List.cons_ne_nil _ _)) := by
    intro serving member
    cases member
  refine ⟨_,
    ((((Run.nil _).snoc ⟨served, rfl⟩).snoc ⟨⟨_, rfl, rfl⟩, rfl⟩).snoc
        ⟨rfl, rfl⟩).snoc ⟨⟨_, rfl, rfl, fun _ => rfl⟩, rfl⟩, ?_, rfl, rfl⟩
  intro graceful
  have finished :=
    graceful.noneLeft 0 _ rfl ⟨.sys, rfl⟩ _ (List.mem_singleton_self _) rfl
  cases finished

end Dfk.TcpServer
