import Dfk.Http.Body
import Dfk.Http.ResponseHead

/-!
# The protocol of a connection

`dfk__http_protocol`: requests are read from a connection, handed to a handler
and answered, as long as the connection is kept alive.  A handler is the row of
calls it makes, each of which may depend on what the calls before it returned.
-/

namespace Dfk.Http

variable {σ : Type}

/-!
## Handlers
-/

/-- The fields of `dfk_http_response_t` that a handler may assign. -/
structure ResponseFields where
  majorVersion : Nat
  minorVersion : Nat
  status : Nat
  contentLength : Nat
  chunked : Bool
  keepalive : Bool
  deriving Repr, DecidableEq

/-- Assign the fields. -/
def Response.assign (response : Response) (fields : ResponseFields) :
    Response :=
  { response with
    majorVersion := fields.majorVersion
    minorVersion := fields.minorVersion
    status := fields.status
    contentLength := fields.contentLength
    chunked := fields.chunked
    keepalive := fields.keepalive }

/-- A `dfk_http_handler` at work. -/
inductive Handler where
  /-- It returns; 0 is `dfk_err_ok`. -/
  | done (result : Int)
  /-- `dfk_http_request_read` -/
  | read (size : Nat) (next : Int → Bytes → Handler)
  /-- `dfk_http_response_write` or `dfk_http_response_writev` -/
  | write (call : BodyCall) (next : Int → Handler)
  | set (setter : Setter) (name value : Bytes) (next : Err → Handler)
  | assign (fields : ResponseFields) (next : Handler)

/-- A request while it is answered. -/
structure Exchange (σ : Type) where
  request : Request σ
  response : Response
  world : World
  /-- The headers of the head, once it has been put on the socket. -/
  sent : Option (List Header)
  deriving Repr, DecidableEq

namespace Exchange

/-- The headers of a head that is put on the socket now. -/
def headHeaders (response : Response) (world : World) :
    Except Fault (List Header) := do
  let (response, world) ← addContentLength response world
  -- without memory for its buffers a head is a status line only
  pure (if world.alloc.1 then response.headers.list else [])

/-- The headers of the head after a flush. -/
def sentBy (exchange : Exchange σ) : Except Fault (Option (List Header)) :=
  if exchange.response.headersFlushed then .ok exchange.sent
  else do
    let headers ← headHeaders exchange.response exchange.world
    pure (some headers)

/-- `dfk__http_response_flush_headers` -/
def flush (exchange : Exchange σ) : Except Fault (Exchange σ) := do
  let sent ← exchange.sentBy
  let (response, world) ← flushHeaders exchange.response exchange.world
  pure { exchange with response := response, world := world, sent := sent }

/-- `dfk_http_response_write` or `dfk_http_response_writev` -/
def write (exchange : Exchange σ) (call : BodyCall) :
    Except Fault (Int × Exchange σ) := do
  let sent ← exchange.sentBy
  let (nwritten, response, world) ←
    call.perform exchange.response exchange.world
  pure
    (nwritten,
      { exchange with response := response, world := world, sent := sent })

/-- One of the `dfk_http_response_set` functions. -/
def set (exchange : Exchange σ) (setter : Setter) (name value : Bytes) :
    Except Fault (Err × Exchange σ) := do
  let (err, response, world) ←
    setter.perform exchange.response exchange.world name value
  pure (err, { exchange with response := response, world := world })

/-- `dfk_http_request_read` -/
def read (http : HttpParser σ) (fuel : Nat) (exchange : Exchange σ)
    (size : Nat) : Except Fault (Int × Bytes × Exchange σ) := do
  let (result, reading) ←
    requestRead http fuel exchange.request exchange.world size
  pure
    (result, reading.out,
      { exchange with request := reading.request, world := reading.world })

end Exchange

/-- Let a handler work until it returns. -/
def Handler.run (http : HttpParser σ) (fuel : Nat) :
    Handler → Exchange σ → Except Fault (Int × Exchange σ)
  | .done result, exchange => .ok (result, exchange)
  | .read size next, exchange => do
      let (result, bytes, exchange) ← exchange.read http fuel size
      (next result bytes).run http fuel exchange
  | .write call next, exchange => do
      let (nwritten, exchange) ← exchange.write call
      (next nwritten).run http fuel exchange
  | .set setter name value next, exchange => do
      let (err, exchange) ← exchange.set setter name value
      (next err).run http fuel exchange
  | .assign fields next, exchange =>
      next.run http fuel
        { exchange with response := exchange.response.assign fields }

/-!
## Answering
-/

/-- `DFK_HTTP_CONNECTION` -/
def connectionName : Bytes := ascii "Connection"

/-- `close`, as the value of a `Connection` header. -/
def closeValue : Bytes := ascii "close"

/-- `Keep-Alive`, as the value of a `Connection` header. -/
def keepAliveValue : Bytes := ascii "Keep-Alive"

/-- `!strncmp(value, text, DFK_MIN(size, sizeof(text) - 1))` -/
def agreesWith (value text : Bytes) : Bool :=
  value.take text.length = text.take value.length

/-- Whether the client asks to keep the connection alive. -/
def requestedKeepalive (request : Request σ) : Bool :=
  match (request.headers.get connectionName).getD [] with
  | [] => !(request.majorVersion = 1 ∧ request.minorVersion = 0)
  | value =>
      let keepalive := if agreesWith value closeValue then false else true
      if agreesWith value keepAliveValue then true else keepalive

/-- No response has a version above that of its request. -/
def fixVersion (request : Request σ) (response : Response) : Response :=
  if request.majorVersion < response.majorVersion then
    { response with
      majorVersion := request.majorVersion
      minorVersion := request.minorVersion }
  else if request.minorVersion < response.minorVersion then
    { response with minorVersion := request.minorVersion }
  else response

/-- Whether a request is the last one of its connection. -/
def limitReached (config : Config) (nrequests : Nat) : Bool :=
  0 ≤ config.keepaliveRequests ∧ config.keepaliveRequests ≤ nrequests + 1

/-- What the handler has left, with the status and the version put right. -/
def Exchange.correct (exchange : Exchange σ) (hres : Int) : Exchange σ :=
  let response :=
    if hres ≠ 0 then
      { exchange.response with status := internalServerError }
    else exchange.response
  { exchange with response := fixVersion exchange.request response }

/-- Whether the connection is kept alive for another request. -/
def keepsAlive (config : Config) (nrequests : Nat) (requested : Bool)
    (response : Response) : Bool :=
  let keepalive := requested && response.keepalive
  if keepalive && limitReached config nrequests then false else keepalive

/-- What a `Connection` header says. -/
def connectionValue (keepalive : Bool) : Bytes :=
  if keepalive then keepAliveValue else closeValue

/-- The head of a response as soon as its handler has returned. -/
def Exchange.conclude (exchange : Exchange σ) (keepalive : Bool) :
    Except Fault (Exchange σ) := do
  let (_, exchange) ←
    exchange.set .set connectionName (connectionValue keepalive)
  let (_, exchange) ← exchange.set .set contentLengthName (ascii "0")
  exchange.flush

/-- The request handed to the handler, and its response. -/
def Exchange.begin (request : Request σ) (world : World) : Exchange σ where
  request := request
  response :=
    Response.init request.majorVersion request.minorVersion
      (requestedKeepalive request)
  world := world
  sent := none

/-- Let the handler answer, and conclude the head of its response. -/
def respond (http : HttpParser σ) (config : Config) (fuel : Nat)
    (handler : Request σ → Handler) (nrequests : Nat)
    (request : Request σ) (world : World) :
    Except Fault (Bool × Exchange σ) := do
  let (hres, exchange) ←
    (handler request).run http fuel (Exchange.begin request world)
  let exchange := exchange.correct hres
  let keepalive :=
    keepsAlive config nrequests (requestedKeepalive request) exchange.response
  let exchange ← exchange.conclude keepalive
  pure (keepalive, exchange)

/-!
## The loop
-/

/-- The loop that skips `bytesremain` bytes; `false` if a read fails. -/
def skipFrom (http : HttpParser σ) (fuel : Nat) :
    Nat → Nat → Request σ → World →
      Except Fault (Bool × Request σ × World)
  | 0, _, _, _ => .error .outOfFuel
  | rounds + 1, bytesremain, request, world =>
      if bytesremain = 0 then .ok (true, request, world)
      else do
        let (nread, reading) ←
          requestRead http fuel request world (min bytesremain 1024)
        if nread < 0 then pure (false, reading.request, reading.world)
        else
          -- `size_t` is unsigned
          skipFrom http fuel rounds ((bytesremain - nread) % 2 ^ 64).toNat
            reading.request reading.world

/-- Skip the part of a body that its handler has not read. -/
def skipBody (http : HttpParser σ) (fuel : Nat) (request : Request σ)
    (world : World) : Except Fault (Bool × Request σ × World) :=
  if 0 < request.contentLength ∧ request.bodyNread < request.contentLength then
    skipFrom http fuel fuel
      (request.contentLength - request.bodyNread).toNat request world
  else .ok (true, request, world)

/-- A connection between two requests. -/
structure Connected where
  nrequests : Nat
  keepalive : Bool
  world : World
  deriving Repr, DecidableEq

/-- What the loop does once a request has been answered. -/
def Exchange.finish (http : HttpParser σ) (fuel : Nat) (nrequests : Nat)
    (keepalive : Bool) (exchange : Exchange σ) : Except Fault Connected := do
  let (skipped, _, world) ← skipBody http fuel exchange.request exchange.world
  if skipped then
    pure
      { nrequests := nrequests + 1
        keepalive := keepalive
        world := world }
  else
    pure
      { nrequests := nrequests
        keepalive := false
        world := world }

/-- One round of the loop of `dfk__http_protocol`. -/
def serveRequest (http : HttpParser σ) (config : Config)
    (memory : Nat → Nat → UInt8) (fuel : Nat)
    (handler : Request σ → Handler) (connected : Connected) :
    Except Fault Connected := do
  let (err, request, world) ←
    readHeaders http config memory fuel connected.world
  if err ≠ .ok then
    pure { connected with keepalive := false, world := world }
  else do
    let (keepalive, exchange) ←
      respond http config fuel handler connected.nrequests request world
    exchange.finish http fuel connected.nrequests keepalive

end Dfk.Http
