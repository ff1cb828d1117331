import Dfk.Http.Request

/-!
# Request bodies

`dfk_http_request_read`: the bytes left over behind the head come first, then
those of the socket.  The parser takes them to the buffer of the caller.
-/

namespace Dfk.Http

variable {σ : Type}

/--
`dfk_body_parser_data_t` with what the callbacks change through its request,
and the bytes being parsed.
-/
structure BodyData where
  /-- What the buffer of the caller has been filled with. -/
  out : Bytes
  /-- What is left of the buffer of the caller. -/
  size : Nat
  bodyNread : Nat
  given : Bytes
  deriving Repr, DecidableEq

/-- `dfk_http_request_on_body` -/
def onBody (span : Span) (data : BodyData) :
    Except Fault (Verdict × BodyData) :=
  let bytes := (data.given.drop span.offset).take span.size
  -- the bytes are moved before the assertion on their number
  if bytes.length ≠ span.size ∨ data.size < span.size then
    .error .outOfBounds
  else
    .ok
      (.proceed,
        { data with
          out := data.out ++ bytes
          size := data.size - span.size
          bodyNread := data.bodyNread + span.size })

/--
The callbacks while a body is read; those for heads take the data of a body
for that of a head.
-/
def onBodyPart : Callback → BodyData → Except Fault (Verdict × BodyData)
  | .body span, data => onBody span data
  | .messageComplete, data => .ok (.pause, data)
  | .messageBegin, data => .ok (.proceed, data)
  | .chunkHeader, data => .ok (.proceed, data)
  | .chunkComplete, data => .ok (.proceed, data)
  | _, _ => .error .outOfBounds

/-- The number of a `dfk_err_e` as it is returned by mistake. -/
def errProtocol : Int := 11

/-- The state of the loop of `dfk_http_request_read`. -/
structure BodyReading (σ : Type) where
  request : Request σ
  world : World
  out : Bytes
  size : Nat
  deriving Repr, DecidableEq

/-- What one round of the loop leads to. -/
inductive BodyStep (σ : Type) where
  | stop (result : Int) (reading : BodyReading σ)
  | next (reading : BodyReading σ)
  deriving Repr, DecidableEq

/-- `req->content_length - req->_body_nread`, in 64 bits without sign. -/
def bodyLeft (request : Request σ) : Nat :=
  ((request.contentLength - request.bodyNread) % 2 ^ 64).toNat

/-- The bytes for the parser, with the request and the world behind them. -/
inductive Inbuf where
  /-- The socket returns no byte. -/
  | none (world : World)
  /-- The socket fails: `-1` is taken for a number of bytes. -/
  | failed (world : World)
  | some (bytes : Bytes) (world : World)
  deriving Repr, DecidableEq

/-- Take bytes for the parser, cached ones if there are any. -/
def takeInbuf (reading : BodyReading σ) : Except Fault Inbuf :=
  let toread := min reading.size (bodyLeft reading.request)
  if reading.request.remainder ≠ [] then
    .ok (.some (reading.request.remainder.take toread) reading.world)
  else do
    match ← tcpSocketRead reading.world toread with
    | (.none, world) => pure (.failed world)
    | (.some [], world) => pure (.none world)
    | (.some bytes, world) => pure (.some bytes world)

/-- Give bytes to the parser. -/
def parseBody (http : HttpParser σ) (inbuf : Bytes) (world : World)
    (reading : BodyReading σ) : Except Fault (BodyStep σ) := do
  let (nparsed, parser, data) ←
    http.run onBodyPart reading.request.parser inbuf
      { out := reading.out
        size := reading.size
        bodyNread := reading.request.bodyNread
        given := inbuf }
  let after : BodyReading σ :=
    { request :=
        { reading.request with
          parser := parser
          bodyNread := data.bodyNread }
      world := world
      out := data.out
      size := data.size }
  if parser.httpErrno ≠ .paused ∧ parser.httpErrno ≠ .ok then
    pure (.stop errProtocol after)
  else do
    check (nparsed ≤ inbuf.length)
    pure
      (.next
        { after with
          request :=
            { after.request with
              remainder := reading.request.remainder.drop nparsed } })

/-- One round of the loop of `dfk_http_request_read`. -/
def readRound (http : HttpParser σ) (reading : BodyReading σ) :
    Except Fault (BodyStep σ) := do
  match ← takeInbuf reading with
  | .none world => pure (.stop 0 { reading with world := world })
  | .failed world =>
      -- a parser that is stopped does not look at the bytes
      if reading.request.parser.httpErrno = .ok then .error .outOfBounds
      else parseBody http [] world reading
  | .some inbuf world => do
      check (inbuf ≠ [])
      parseBody http inbuf world reading

/-- The loop of `dfk_http_request_read`. -/
def requestReadFrom (http : HttpParser σ) :
    Nat → BodyReading σ → Except Fault (Int × BodyReading σ)
  | 0, _ => .error .outOfFuel
  | fuel + 1, reading =>
      if reading.size ≠ 0 ∧
          (reading.out = [] ∨ reading.request.remainder ≠ []) then do
        match ← readRound http reading with
        | .stop result reading => pure (result, reading)
        | .next reading => requestReadFrom http fuel reading
      else .ok (reading.out.length, reading)

/--
`dfk_http_request_read` into a buffer of a size: what it returns, and the
bytes that are then in the buffer.
-/
def requestRead (http : HttpParser σ) (fuel : Nat)
    (request : Request σ) (world : World) (size : Nat) :
    Except Fault (Int × BodyReading σ) :=
  if request.contentLength = 0 ∧ request.chunked = false then
    .ok
      (-1, { request := request, world := world, out := [], size := size })
  else
    requestReadFrom http fuel
      { request := request, world := world, out := [], size := size }

/-- A call of `dfk_http_request_read` returns, whatever time it takes. -/
def ReadsTo (http : HttpParser σ) (request : Request σ) (world : World)
    (size : Nat) (result : Int) (reading : BodyReading σ) : Prop :=
  ∃ fuel,
    requestRead http fuel request world size = .ok (result, reading)

/-- A loop that has ended does not go on with more time. -/
theorem requestReadFrom_mono
    {http : HttpParser σ} (fuel : Nat) :
    ∀ {reading : BodyReading σ} {ended : Int × BodyReading σ},
      requestReadFrom http fuel reading = .ok ended →
        ∀ more, requestReadFrom http (fuel + more) reading = .ok ended := by
  induction fuel with
  | zero =>
      intro reading ended ran
      cases ran
  | succ fuel inductionHypothesis =>
      intro reading ended ran more
      rw [Nat.add_right_comm, requestReadFrom]
      rw [requestReadFrom] at ran
      split at ran
      · next goesOn =>
          obtain ⟨step, round, ran⟩ := of_bind ran
          rw [if_pos goesOn, round, ok_bind]
          cases step with
          | stop result last =>
              exact ran
          | next after =>
              exact inductionHypothesis ran more
      · next ended =>
          rw [if_neg ended]
          exact ran

/-- A call returns in one way only. -/
theorem ReadsTo.unique
    {http : HttpParser σ} {request : Request σ} {world : World}
    {size : Nat} {result otherResult : Int}
    {reading otherReading : BodyReading σ}
    (readsTo : ReadsTo http request world size result reading)
    (other : ReadsTo http request world size otherResult otherReading) :
    otherResult = result ∧ otherReading = reading := by
  obtain ⟨fuel, ran⟩ := readsTo
  obtain ⟨otherFuel, otherRan⟩ := other
  rw [requestRead] at ran otherRan
  split at ran
  · next refused =>
      rw [if_pos refused] at otherRan
      cases ran
      cases otherRan
      exact ⟨rfl, rfl⟩
  · next taken =>
      rw [if_neg taken] at otherRan
      have first := requestReadFrom_mono fuel ran otherFuel
      have second := requestReadFrom_mono otherFuel otherRan fuel
      rw [Nat.add_comm, first] at second
      cases second
      exact ⟨rfl, rfl⟩

end Dfk.Http
