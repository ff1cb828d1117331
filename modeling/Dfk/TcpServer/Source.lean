import Dfk.LinkedList.Source

/-!
# The TCP server

`tcp_server.c`, the accept loop of `tcp_socket.c` and `dfk_stop` of `context.c`
after the source.  Fibers are cooperative: what a fiber does up to its next
context switch is one step.  What the operating system answers is part of the
step.
-/

namespace Dfk.TcpServer

open LinkedList (Memory It)

variable {ι : Type}

/-- `dfk_err_ok` and `dfk_err_sys` -/
inductive Err where
  | ok
  | sys
  deriving Repr, DecidableEq

/-- `_state` of a server. -/
inductive ServerState where
  | initialized
  | serving
  | stopRequested
  | stopWaitConnections
  | stopped
  deriving Repr, DecidableEq

/-- What has become of the socket of a server. -/
inductive Listener where
  | absent
  | opened
  | shutDown
  | closed
  deriving Repr, DecidableEq

/-- `dfk_tcp_server_t` -/
structure Server where
  state : ServerState
  activeConnections : Nat
  listener : Listener
  deriving Repr, DecidableEq

/-- Where a call of `dfk_tcp_serve` goes on. -/
inductive Progress where
  /-- behind `DFK_IO` in the accept loop -/
  | listening
  /-- behind `DFK_SUSPEND`, not resumed yet -/
  | waiting
  /-- behind `DFK_SUSPEND` -/
  | resumed
  | returned (err : Err)
  deriving Repr, DecidableEq

/-- A call of `dfk_tcp_serve`, whose stack frame holds a `listen_ud`. -/
structure Serving (ι : Type) where
  server : ι
  progress : Progress
  deriving Repr, DecidableEq

/-- How far the fiber of a connection is. -/
inductive Phase where
  | spawned
  | handling
  | finished
  deriving Repr, DecidableEq

/-- The fiber of a connection; `call` is the call whose `listen_ud` it uses. -/
structure Connection (ι : Type) where
  call : Nat
  server : ι
  phase : Phase
  deriving Repr, DecidableEq

/-- The servers of a `dfk_t`, whose hooks are in `memory`. -/
structure State (ι : Type) where
  servers : ι → Server
  calls : List (Serving ι)
  connections : List (Connection ι)
  /-- the hooks of servers, and the list `_tcp_servers` -/
  memory : Memory ι Unit
  /-- `_stopped` -/
  stopped : Bool

namespace State

/-- A loop over hooks that takes more rounds does not end. -/
def bound (state : State ι) : Nat :=
  state.calls.length + 2

/-- Write to a server. -/
def setServer [DecidableEq ι]
    (state : State ι) (server : ι) (contents : Server) : State ι :=
  { state with
    servers := fun query =>
      if query = server then contents else state.servers query }

/-- Set where a call goes on. -/
def setProgress (state : State ι) (call : Nat) (progress : Progress) :
    State ι :=
  { state with
    calls := state.calls.modify call fun serving =>
      { serving with progress := progress } }

/-- Set how far a connection is. -/
def setPhase (state : State ι) (connection : Nat) (phase : Phase) : State ι :=
  { state with
    connections := state.connections.modify connection fun contents =>
      { contents with phase := phase } }

end State

/-- What `accept` answers until the accept loop is suspended or left. -/
structure Accepts where
  /-- for each socket that is accepted, whether a fiber is spawned for it -/
  accepted : List Bool
  /-- `EWOULDBLOCK` at last, and not another error -/
  blocks : Bool
  deriving Repr, DecidableEq

/-- What the operating system answers in `dfk_tcp_serve`. -/
structure Answers where
  socket : Bool
  bind : Bool
  listen : Bool
  accepts : Accepts
  close : Bool
  deriving Repr, DecidableEq

variable [DecidableEq ι]

/-! ## Serving -/

/-- `dfk_tcp_server_init` -/
def serverInit : Server where
  state := .initialized
  activeConnections := 0
  listener := .absent

/-- `dfk_tcp_server_free` -/
def tcpServerFree (state : State ι) (server : ι) : Except Fault Unit :=
  check
    ((state.servers server).state = .initialized ∨
      (state.servers server).state = .stopped)

/-- The accept loop up to `DFK_IO`, or up to the error it returns. -/
def acceptLoop (state : State ι) (call : Nat) (server : ι)
    (accepts : Accepts) : Option Err × State ι :=
  let spawned :=
    (accepts.accepted.filter id).map fun _ =>
      { call := call, server := server, phase := .spawned : Connection ι }
  let state := { state with connections := state.connections ++ spawned }
  (if accepts.blocks then none else some .sys, state)

/-- `dfk_tcp_socket_listen` up to `DFK_IO`, or up to the error it returns. -/
def tcpSocketListen (state : State ι) (call : Nat) (server : ι)
    (answers : Answers) : Option Err × State ι :=
  if answers.bind = false then (some .sys, state)
  else if answers.listen = false then (some .sys, state)
  else acceptLoop state call server answers.accepts

/-- `dfk_tcp_serve` from where it closes the socket. -/
def closeAndStop (state : State ι) (call : Nat) (server : ι) (close : Bool) :
    State ι :=
  if close then
    let contents : Server :=
      { state.servers server with state := .stopped, listener := .closed }
    (state.setServer server contents).setProgress call (.returned .ok)
  else state.setProgress call (.returned .sys)

/-- `dfk_tcp_serve` behind `dfk_tcp_socket_listen`, if it has returned. -/
def behindListen (state : State ι) (call : Nat) (server : ι) (close : Bool) :
    Option Err → State ι
  | none => state.setProgress call .listening
  | some .ok =>
      if (state.servers server).activeConnections ≠ 0 then
        let contents : Server :=
          { state.servers server with state := .stopWaitConnections }
        (state.setServer server contents).setProgress call .waiting
      else closeAndStop state call server close
  | some err => state.setProgress call (.returned err)

/-- `dfk_tcp_serve` -/
def tcpServe (state : State ι) (server : ι) (answers : Answers) :
    Except Fault (State ι) := do
  let memory ← LinkedList.append state.bound state.memory () server
  let call := state.calls.length
  let serving : Serving ι := { server := server, progress := .listening }
  let state := { state with memory := memory, calls := state.calls ++ [serving] }
  if answers.socket = false then
    pure (state.setProgress call (.returned .sys))
  else
    let contents : Server :=
      { state.servers server with state := .serving, listener := .opened }
    let (err, state) :=
      tcpSocketListen (state.setServer server contents) call server answers
    pure (behindListen state call server answers.close err)

/-- The accept loop behind `DFK_IO`. -/
def goOnListening (state : State ι) (call : Nat) (server : ι) (error : Bool)
    (accepts : Accepts) (close : Bool) : State ι :=
  let (err, state) :=
    if error then (some .sys, state)
    else acceptLoop state call server accepts
  behindListen state call server close err

/-! ## Connections -/

/-- `dfk_tcp_server_callback` up to the handler. -/
def beginConnection (state : State ι) (connection : Nat) (server : ι) :
    State ι :=
  let contents := state.servers server
  (state.setServer server
      { contents with
        activeConnections := contents.activeConnections + 1 }).setPhase
    connection .handling

/-- `DFK_RESUME` of the fiber that serves. -/
def resumeServing (state : State ι) (call : Nat) : State ι :=
  { state with
    calls := state.calls.modify call fun serving =>
      if serving.progress = .waiting then
        { serving with progress := .resumed }
      else serving }

/-- `dfk_tcp_server_callback` behind the handler. -/
def endConnection (state : State ι) (connection call : Nat) (server : ι) :
    State ι :=
  let contents := state.servers server
  let activeConnections := contents.activeConnections - 1
  let state :=
    (state.setServer server
        { contents with activeConnections := activeConnections }).setPhase
      connection .finished
  if activeConnections = 0 ∧ contents.state = .stopWaitConnections then
    resumeServing state call
  else state

/-! ## Stopping -/

/-- `dfk_tcp_server_stop`, and whether `shutdown` succeeds. -/
def tcpServerStop (state : State ι) (server : ι) (shuts : Bool) :
    Except Fault (State ι) := do
  let contents := state.servers server
  check (contents.state = .serving)
  if shuts then
    pure
      (state.setServer server
        { contents with state := .stopRequested, listener := .shutDown })
  else pure state

/-- The loop of `dfk_stop`. -/
def stopFrom (shuts : ι → Bool) (stop : It ι) :
    Nat → It ι → State ι → Except Fault (State ι)
  | 0, _, _ => .error .outOfFuel
  | rounds + 1, it, state => do
      if ← LinkedList.itEqual state.bound state.memory it stop then
        pure state
      else
        let server ← deref it.value
        let state ← tcpServerStop state server (shuts server)
        let it ← LinkedList.itNext state.bound state.memory it
        stopFrom shuts stop rounds it state

/-- `dfk_stop`, and for which servers `shutdown` succeeds. -/
def dfkStop (state : State ι) (shuts : ι → Bool) :
    Except Fault (State ι) := do
  if state.stopped then
    pure state
  else
    let state := { state with stopped := true }
    let it ← LinkedList.begin state.bound state.memory ()
    let stop ← LinkedList.listEnd state.bound state.memory ()
    stopFrom shuts stop state.bound it state

/-! ## Steps -/

/-- What happens next. -/
inductive Action (ι : Type) where
  /-- `dfk_tcp_serve` is called -/
  | serve (server : ι) (answers : Answers)
  /-- `DFK_IO` returns in the accept loop, with an error or without one -/
  | ready (call : Nat) (error : Bool) (accepts : Accepts) (close : Bool)
  /-- the fiber of a connection starts -/
  | start (connection : Nat)
  /-- the handler of a connection returns -/
  | finish (connection : Nat)
  /-- `dfk_tcp_serve` goes on behind `DFK_SUSPEND` -/
  | goOn (call : Nat) (close : Bool)
  /-- `dfk_tcp_server_stop` is called -/
  | stop (server : ι) (shuts : Bool)
  /-- `dfk_stop` is called -/
  | stopAll (shuts : ι → Bool)

/-- Do what happens next. -/
def step (state : State ι) : Action ι → Except Fault (State ι)
  | .serve server answers => tcpServe state server answers
  | .ready call error accepts close =>
      match state.calls[call]? with
      | some serving =>
          .ok (goOnListening state call serving.server error accepts close)
      | none => .ok state
  | .start connection =>
      match state.connections[connection]? with
      | some contents => .ok (beginConnection state connection contents.server)
      | none => .ok state
  | .finish connection =>
      match state.connections[connection]? with
      | some contents =>
          .ok (endConnection state connection contents.call contents.server)
      | none => .ok state
  | .goOn call close =>
      match state.calls[call]? with
      | some serving => .ok (closeAndStop state call serving.server close)
      | none => .ok state
  | .stop server shuts => tcpServerStop state server shuts
  | .stopAll shuts => dfkStop state shuts

/-- A call of `dfk_tcp_serve` has returned. -/
def Serving.Returned (serving : Serving ι) : Prop :=
  ∃ err, serving.progress = .returned err

/--
Whether an action may happen next.  A server is served by one call at a time
and stopped while it is serving, as asserted, and `accept` fails on a socket
that is shut down.
-/
def Allowed (state : State ι) : Action ι → Prop
  | .serve server _ =>
      ∀ serving ∈ state.calls, serving.server = server → serving.Returned
  | .ready call _ accepts _ =>
      ∃ serving,
        state.calls[call]? = some serving ∧ serving.progress = .listening ∧
          ((state.servers serving.server).listener = .shutDown →
            accepts = { accepted := [], blocks := false })
  | .start connection =>
      ∃ contents,
        state.connections[connection]? = some contents ∧
          contents.phase = .spawned
  | .finish connection =>
      ∃ contents,
        state.connections[connection]? = some contents ∧
          contents.phase = .handling
  | .goOn call _ =>
      ∃ serving,
        state.calls[call]? = some serving ∧ serving.progress = .resumed
  | .stop server _ => (state.servers server).state = .serving
  | .stopAll _ => True

/-- An action that may happen, and does. -/
def Steps (state : State ι) (action : Action ι) (next : State ι) : Prop :=
  Allowed state action ∧ step state action = .ok next

/-- No server has been served, and the list of servers is empty. -/
def fresh (constantTimeSize : Bool) : State ι where
  servers := fun _ => serverInit
  calls := []
  connections := []
  memory :=
    { hooks := fun _ => { next := none, prev := none }
      lists := fun _ => LinkedList.freshList constantTimeSize }
  stopped := false

end Dfk.TcpServer
