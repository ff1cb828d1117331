import Dfk.Http.BodyRounds

/-!
# Decoding in the buffer of the caller

`dfk_http_request_read` has the socket write into the buffer that the parser's
callback moves the body to.  Here the buffer is memory, the parser reads what
is in it when it calls back, and `reported` records what the parser has been
given as the body.  Moving never reaches bytes that are not parsed yet, so
that the buffer is filled as if it were another one.
-/

namespace Dfk.Http

open Loops

variable {σ τ : Type}

/-! ## Memory -/

/-- `memmove(buffer + target, bytes, size)`, the bytes already read. -/
def memmove (buffer : Bytes) (target : Nat) (bytes : Bytes) :
    Except Fault Bytes :=
  if target + bytes.length ≤ buffer.length then
    .ok
      (buffer.take target ++ bytes ++ buffer.drop (target + bytes.length))
  else .error .outOfBounds

section Memmove

variable {buffer bytes moved : Bytes} {target position : Nat}

/-- The bytes fit. -/
theorem memmove_eq (fits : target + bytes.length ≤ buffer.length) :
    memmove buffer target bytes =
      .ok
        (buffer.take target ++ bytes ++
          buffer.drop (target + bytes.length)) := by
  rw [memmove, if_pos fits]

theorem memmove_length
    (moves : memmove buffer target bytes = .ok moved) :
    moved.length = buffer.length := by
  rw [memmove] at moves
  split at moves
  · next fits =>
      cases moves
      rw [List.length_append, List.length_append, List.length_take,
        List.length_drop]
      omega
  · cases moves

/-- What is before the target stays, and the bytes follow it. -/
theorem memmove_take
    (moves : memmove buffer target bytes = .ok moved) :
    moved.take (target + bytes.length) = buffer.take target ++ bytes := by
  rw [memmove] at moves
  split at moves
  · next fits =>
      cases moves
      apply List.take_left'
      rw [List.length_append, List.length_take]
      omega
  · cases moves

/-- What is behind the target stays. -/
theorem memmove_drop
    (moves : memmove buffer target bytes = .ok moved)
    (behind : target + bytes.length ≤ position) :
    moved.drop position = buffer.drop position := by
  rw [memmove] at moves
  split at moves
  · next fits =>
      cases moves
      have length :
          (buffer.take target ++ bytes).length = target + bytes.length := by
        rw [List.length_append, List.length_take]
        omega
      rw [List.drop_append, length, List.drop_drop,
        Nat.add_sub_cancel' behind]
      rw [List.drop_eq_nil_of_le (by omega), List.nil_append]
  · cases moves

end Memmove

/-! ## The loop -/

/-- Where the bytes lie that are being parsed. -/
inductive Source where
  /-- In the buffer of the caller. -/
  | received (offset count : Nat)
  /-- In `_remainder`. -/
  | cached
  deriving Repr, DecidableEq

/--
`dfk_body_parser_data_t` with what the callbacks change through its request;
`given` is what the bytes being parsed were at first.
-/
structure InPlaceData where
  buffer : Bytes
  /-- `outbuf.data`, as an offset in the buffer of the caller. -/
  outbuf : Nat
  /-- `outbuf.size` -/
  size : Nat
  bodyNread : Nat
  source : Source
  given : Bytes
  reported : Bytes
  deriving Repr, DecidableEq

/-- The bytes being parsed, as they are in memory now. -/
def InPlaceData.current (data : InPlaceData) : Bytes :=
  match data.source with
  | .received offset count => (data.buffer.drop offset).take count
  | .cached => data.given

/-- Read a part of the bytes being parsed. -/
def InPlaceData.load (data : InPlaceData) (span : Span) :
    Except Fault Bytes :=
  let bytes := (data.current.drop span.offset).take span.size
  if bytes.length = span.size then .ok bytes else .error .outOfBounds

/-- The data once a part of the bytes has been moved. -/
def InPlaceData.advance (data : InPlaceData) (span : Span) (buffer : Bytes) :
    InPlaceData :=
  { data with
    buffer := buffer
    outbuf := data.outbuf + span.size
    size := data.size - span.size
    bodyNread := data.bodyNread + span.size
    reported :=
      data.reported ++ (data.given.drop span.offset).take span.size }

/-- `dfk_http_request_on_body` -/
def moveBody (span : Span) (data : InPlaceData) :
    Except Fault (Verdict × InPlaceData) := do
  let bytes ← data.load span
  let buffer ← memmove data.buffer data.outbuf bytes
  check (span.size ≤ data.size)
  pure (.proceed, data.advance span buffer)

/--
The callbacks while a body is read; those for heads take the data of a body
for that of a head.
-/
def moveBodyPart : Callback → InPlaceData →
    Except Fault (Verdict × InPlaceData)
  | .body span, data => moveBody span data
  | .messageComplete, data => .ok (.pause, data)
  | .messageBegin, data => .ok (.proceed, data)
  | .chunkHeader, data => .ok (.proceed, data)
  | .chunkComplete, data => .ok (.proceed, data)
  | _, _ => .error .outOfBounds

/-- The state of the loop of `dfk_http_request_read`. -/
structure InPlace (σ : Type) where
  request : Request σ
  world : World
  buffer : Bytes
  outbuf : Nat
  size : Nat
  reported : Bytes
  deriving Repr, DecidableEq

namespace InPlace

/-- The loop before its first round. -/
def start (request : Request σ) (world : World) (buffer : Bytes) :
    InPlace σ where
  request := request
  world := world
  buffer := buffer
  outbuf := 0
  size := buffer.length
  reported := []

/-- The loop goes on. -/
def GoesOn (inPlace : InPlace σ) : Prop :=
  inPlace.size ≠ 0 ∧
    (inPlace.outbuf = 0 ∨ inPlace.request.remainder ≠ [])

instance (inPlace : InPlace σ) : Decidable inPlace.GoesOn :=
  inferInstanceAs (Decidable (_ ∧ _))

/-- Take bytes for the parser, cached ones if there are any. -/
def takeInbuf (inPlace : InPlace σ) : Except Fault Inbuf :=
  Http.takeInbuf
    { request := inPlace.request
      world := inPlace.world
      out := []
      size := inPlace.size }

/-- What the callbacks start with. -/
def parserData (inPlace : InPlace σ) (buffer : Bytes) (source : Source)
    (inbuf : Bytes) : InPlaceData where
  buffer := buffer
  outbuf := inPlace.outbuf
  size := inPlace.size
  bodyNread := inPlace.request.bodyNread
  source := source
  given := inbuf
  reported := inPlace.reported

/-- The bytes are cached, or the socket writes them to the rest of the buffer. -/
def receive (inPlace : InPlace σ) (inbuf : Bytes) :
    Except Fault InPlaceData :=
  if inPlace.request.remainder ≠ [] then
    .ok (inPlace.parserData inPlace.buffer .cached inbuf)
  else do
    let buffer ← memmove inPlace.buffer inPlace.outbuf inbuf
    pure
      (inPlace.parserData buffer (.received inPlace.outbuf inbuf.length) inbuf)

/-- Give bytes to the parser. -/
def parse (http : HttpParser σ) (inbuf : Bytes) (data : InPlaceData)
    (world : World) (inPlace : InPlace σ) :
    Except Fault (Outcome (InPlace σ) (Int × InPlace σ)) := do
  let (nparsed, parser, data) ←
    http.run moveBodyPart inPlace.request.parser inbuf data
  let after : InPlace σ :=
    { request :=
        { inPlace.request with
          parser := parser
          bodyNread := data.bodyNread }
      world := world
      buffer := data.buffer
      outbuf := data.outbuf
      size := data.size
      reported := data.reported }
  if parser.httpErrno ≠ .paused ∧ parser.httpErrno ≠ .ok then
    pure (.stop (errProtocol, after))
  else do
    check (nparsed ≤ inbuf.length)
    pure
      (.next
        { after with
          request :=
            { after.request with
              remainder := inPlace.request.remainder.drop nparsed } })

/-- A round of the loop, its condition included. -/
def round (http : HttpParser σ) (inPlace : InPlace σ) :
    Except Fault (Outcome (InPlace σ) (Int × InPlace σ)) :=
  if inPlace.GoesOn then do
    match ← inPlace.takeInbuf with
    | .none world => pure (.stop (0, { inPlace with world := world }))
    | .failed world =>
        -- a parser that is stopped does not look at the bytes
        if inPlace.request.parser.httpErrno = .ok then .error .outOfBounds
        else
          parse http [] (inPlace.parserData inPlace.buffer .cached []) world
            inPlace
    | .some inbuf world => do
        check (inbuf ≠ [])
        let data ← inPlace.receive inbuf
        parse http inbuf data world inPlace
  else .ok (.stop (inPlace.outbuf, inPlace))

end InPlace

/-- `dfk_http_request_read` -/
def readInPlace (http : HttpParser σ) (fuel : Nat) (request : Request σ)
    (world : World) (buffer : Bytes) : Except Fault (Int × InPlace σ) :=
  if request.contentLength = 0 ∧ request.chunked = false then
    .ok (-1, .start request world buffer)
  else
    iterate (InPlace.round http) .outOfFuel fuel
      (.start request world buffer)

/-! ## Orderly parsers -/

/-- The part of the body that a callback reports. -/
def Callback.bodySpan : Callback → Option Span
  | .body span => some span
  | _ => none

/-- The parts of the body that callbacks report. -/
def bodySpans (stops : List (Stop σ)) : List Span :=
  stops.filterMap fun stop => stop.callback.bodySpan

/--
A parser that reports the body in parts of the bytes it is given, one behind
the other.
-/
def HttpParser.Orderly (http : HttpParser σ) : Prop :=
  ∀ state bytes,
    Increasing bytes.length 0 (bodySpans (http.execute state bytes).stops)

/-! ## Moving what the parser reports -/

/--
Callbacks that have reported the bytes before a position: what is behind it is
still there, and the part of the buffer that is filled does not reach it.
-/
structure InPlaceData.Unharmed (requested : Nat) (inbuf : Bytes)
    (position : Nat) (data : InPlaceData) : Prop where
  length : data.buffer.length = requested
  room : data.outbuf + data.size = data.buffer.length
  filled : data.buffer.take data.outbuf = data.reported
  given_eq : data.given = inbuf
  unread : data.current.drop position = inbuf.drop position
  placed :
    match data.source with
    | .received offset count =>
        count = inbuf.length ∧ data.outbuf ≤ offset + position ∧
          offset + inbuf.length ≤ data.buffer.length
    | .cached =>
        data.outbuf + (inbuf.length - position) ≤ data.buffer.length

section Moving

variable {inbuf : Bytes} {requested position : Nat} {data : InPlaceData}
variable {span : Span}

/-- The bytes behind the position are still there. -/
theorem InPlaceData.Unharmed.unread_behind
    {behind : Nat}
    (unharmed : data.Unharmed requested inbuf position)
    (after : position ≤ behind) :
    data.current.drop behind = inbuf.drop behind := by
  calc
    data.current.drop behind =
        (data.current.drop position).drop (behind - position) := by
      rw [List.drop_drop, Nat.add_sub_cancel' after]
    _ = (inbuf.drop position).drop (behind - position) := by
      rw [unharmed.unread]
    _ = inbuf.drop behind := by
      rw [List.drop_drop, Nat.add_sub_cancel' after]

/-- A move in front of a byte of the buffer is not seen behind it. -/
theorem current_advance
    {buffer : Bytes} {offset count behind : Nat}
    (source : data.source = .received offset count)
    (same :
      buffer.drop (offset + behind) = data.buffer.drop (offset + behind)) :
    (data.advance span buffer).current.drop behind =
      data.current.drop behind := by
  have before :
      data.current.drop behind =
        (data.buffer.drop (offset + behind)).take (count - behind) := by
    rw [InPlaceData.current, source, List.drop_take, List.drop_drop]
  have after :
      (data.advance span buffer).current.drop behind =
        (buffer.drop (offset + behind)).take (count - behind) := by
    rw [InPlaceData.current, InPlaceData.advance, source, List.drop_take,
      List.drop_drop]
  rw [before, after, same]

/-- The part of the bytes that a span stands for is still there. -/
theorem load_eq
    (unharmed : data.Unharmed requested inbuf position)
    (behind : position ≤ span.offset)
    (inside : span.offset + span.size ≤ inbuf.length) :
    data.load span = .ok ((inbuf.drop span.offset).take span.size) := by
  have there := unharmed.unread_behind behind
  rw [InPlaceData.load, there]
  apply if_pos
  rw [List.length_take, List.length_drop]
  omega

/-- What there is to move fits into the room that is left. -/
theorem room_for_span
    (unharmed : data.Unharmed requested inbuf position)
    (behind : position ≤ span.offset)
    (inside : span.offset + span.size ≤ inbuf.length) :
    data.outbuf + span.size ≤ data.buffer.length := by
  have placed := unharmed.placed
  cases source : data.source with
  | received offset count =>
      rw [source] at placed
      obtain ⟨-, before, fits⟩ := placed
      omega
  | cached =>
      rw [source] at placed
      dsimp only at placed
      omega

/-- Moving a span changes nothing behind it. -/
theorem InPlaceData.Unharmed.advance
    {buffer : Bytes}
    (unharmed : data.Unharmed requested inbuf position)
    (behind : position ≤ span.offset)
    (inside : span.offset + span.size ≤ inbuf.length)
    (moves :
      memmove data.buffer data.outbuf
        ((inbuf.drop span.offset).take span.size) = .ok buffer) :
    (data.advance span buffer).Unharmed requested inbuf (span.offset + span.size) := by
  have fits := room_for_span unharmed behind inside
  have length :
      ((inbuf.drop span.offset).take span.size).length = span.size := by
    rw [List.length_take, List.length_drop]
    omega
  have kept := memmove_length moves
  have room := unharmed.room
  have filled := memmove_take moves
  rw [length, unharmed.filled] at filled
  have placed := unharmed.placed
  constructor
  · exact kept.trans unharmed.length
  · change data.outbuf + span.size + (data.size - span.size) = buffer.length
    omega
  · change buffer.take (data.outbuf + span.size) = _
    rw [filled, InPlaceData.advance, unharmed.given_eq]
  · exact unharmed.given_eq
  · have after : position ≤ span.offset + span.size :=
      Nat.le_add_right_of_le behind
    have still := unharmed.unread_behind after
    cases source : data.source with
    | received offset count =>
        rw [source] at placed
        have away : data.outbuf + span.size ≤ offset + (span.offset + span.size) := by
          have before := placed.2.1
          omega
        rw [current_advance source]
        · exact still
        · apply memmove_drop moves
          rw [length]
          exact away
    | cached =>
        have current : (data.advance span buffer).current = inbuf := by
          rw [InPlaceData.current, InPlaceData.advance, source]
          exact unharmed.given_eq
        rw [current]
  · rw [InPlaceData.advance]
    cases source : data.source with
    | received offset count =>
        rw [source] at placed
        obtain ⟨count_eq, before, fitsBefore⟩ := placed
        dsimp only
        omega
    | cached =>
        rw [source] at placed
        dsimp only at placed ⊢
        omega

/-- Moving a span succeeds, and its assertion holds. -/
theorem moveBody_eq
    (unharmed : data.Unharmed requested inbuf position)
    (behind : position ≤ span.offset)
    (inside : span.offset + span.size ≤ inbuf.length) :
    span.size ≤ data.size ∧
      ∃ buffer,
        moveBody span data = .ok (.proceed, data.advance span buffer) ∧
          (data.advance span buffer).Unharmed requested inbuf
            (span.offset + span.size) := by
  have loads := load_eq unharmed behind inside
  have fits := room_for_span unharmed behind inside
  have size : span.size ≤ data.size := by
    have room := unharmed.room
    omega
  have length :
      ((inbuf.drop span.offset).take span.size).length = span.size := by
    rw [List.length_take, List.length_drop]
    omega
  obtain ⟨buffer, moves⟩ :
      ∃ buffer,
        memmove data.buffer data.outbuf
          ((inbuf.drop span.offset).take span.size) = .ok buffer :=
    ⟨_, memmove_eq (by rw [length]; exact fits)⟩
  refine ⟨size, buffer, ?_, unharmed.advance behind inside moves⟩
  rw [moveBody, loads, ok_bind, moves, ok_bind, check_pos size, ok_bind]
  rfl

/-- The data without the memory. -/
def InPlaceData.snapshot (data : InPlaceData) : BodyData where
  out := data.reported
  size := data.size
  bodyNread := data.bodyNread
  given := data.given

/-- Outside of the buffer a span is moved as well. -/
theorem onBody_snapshot
    (unharmed : data.Unharmed requested inbuf position)
    (inside : span.offset + span.size ≤ inbuf.length)
    (size : span.size ≤ data.size) (buffer : Bytes) :
    onBody span data.snapshot =
      .ok (.proceed, (data.advance span buffer).snapshot) := by
  have length :
      ((inbuf.drop span.offset).take span.size).length = span.size := by
    rw [List.length_take, List.length_drop]
    omega
  rw [onBody]
  apply if_neg
  rw [InPlaceData.snapshot, unharmed.given_eq, length]
  exact not_or.mpr ⟨not_not_intro rfl, Nat.not_lt.mpr size⟩

/-- A callback that reports a part of the body is the one for bodies. -/
theorem callback_of_bodySpan
    {callback : Callback} (spanned : callback.bodySpan = some span) :
    callback = .body span := by
  cases callback with
  | body other =>
      cases spanned
      rfl
  | _ => cases spanned

/-- Other callbacks see neither the memory nor what has been reported. -/
theorem moveBodyPart_other
    {callback : Callback} (other : callback.bodySpan = none) :
    (∃ verdict, ∀ data : InPlaceData,
        moveBodyPart callback data = .ok (verdict, data) ∧
          onBodyPart callback data.snapshot = .ok (verdict, data.snapshot)) ∨
      ∀ data : InPlaceData,
        moveBodyPart callback data = .error .outOfBounds ∧
          onBodyPart callback data.snapshot = .error .outOfBounds := by
  cases callback with
  | body span => cases other
  | messageBegin => exact Or.inl ⟨.proceed, fun _ => ⟨rfl, rfl⟩⟩
  | messageComplete => exact Or.inl ⟨.pause, fun _ => ⟨rfl, rfl⟩⟩
  | chunkHeader => exact Or.inl ⟨.proceed, fun _ => ⟨rfl, rfl⟩⟩
  | chunkComplete => exact Or.inl ⟨.proceed, fun _ => ⟨rfl, rfl⟩⟩
  | url span => exact Or.inr fun _ => ⟨rfl, rfl⟩
  | headerField span => exact Or.inr fun _ => ⟨rfl, rfl⟩
  | headerValue span => exact Or.inr fun _ => ⟨rfl, rfl⟩
  | headersComplete => exact Or.inr fun _ => ⟨rfl, rfl⟩

/-- Callbacks that go through in turn leave the rest of the spans to come. -/
theorem callbacks_unharmed
    (earlier later : List (Stop σ)) :
    ∀ {position : Nat} {data after : InPlaceData},
      data.Unharmed requested inbuf position →
        Increasing inbuf.length position (bodySpans (earlier ++ later)) →
        HttpParser.callbacks moveBodyPart earlier data = .ok (none, after) →
          ∃ reached, after.Unharmed requested inbuf reached ∧
            Increasing inbuf.length reached (bodySpans later) := by
  induction earlier with
  | nil =>
      intro position data after unharmed increasing ran
      cases ran
      exact ⟨position, unharmed, increasing⟩
  | cons stop earlier inductionHypothesis =>
      intro position data after unharmed increasing ran
      rw [HttpParser.callbacks] at ran
      cases spanned : stop.callback.bodySpan with
      | none =>
          rw [bodySpans, List.cons_append, List.filterMap_cons, spanned]
            at increasing
          rcases moveBodyPart_other spanned with ⟨verdict, handled⟩ | faulty
          · rw [(handled data).1, ok_bind] at ran
            cases verdict with
            | proceed => exact inductionHypothesis unharmed increasing ran
            | fail => cases ran
            | pause => cases ran
          · rw [(faulty data).1] at ran
            cases ran
      | some span =>
          rw [bodySpans, List.cons_append, List.filterMap_cons, spanned]
            at increasing
          obtain ⟨behind, inside, increasing⟩ := increasing
          obtain ⟨-, buffer, moves, unharmedAfter⟩ :=
            moveBody_eq unharmed behind inside
          rw [callback_of_bodySpan spanned, moveBodyPart, moves, ok_bind]
            at ran
          exact inductionHypothesis unharmedAfter increasing ran

/-- In the buffer or outside of it, callbacks do the same. -/
theorem callbacks_snapshot
    (stops : List (Stop σ)) :
    ∀ {position : Nat} {data : InPlaceData},
      data.Unharmed requested inbuf position →
        Increasing inbuf.length position (bodySpans stops) →
        HttpParser.callbacks onBodyPart stops data.snapshot =
            (HttpParser.callbacks moveBodyPart stops data).map
              (fun (stopped, after) => (stopped, after.snapshot)) ∧
          ∀ stopped after,
            HttpParser.callbacks moveBodyPart stops data =
                .ok (stopped, after) →
              ∃ reached, after.Unharmed requested inbuf reached := by
  induction stops with
  | nil =>
      intro position data unharmed _
      refine ⟨rfl, ?_⟩
      intro stopped after ran
      cases ran
      exact ⟨position, unharmed⟩
  | cons stop stops inductionHypothesis =>
      intro position data unharmed increasing
      rw [HttpParser.callbacks, HttpParser.callbacks]
      cases spanned : stop.callback.bodySpan with
      | none =>
          rw [bodySpans, List.filterMap_cons, spanned] at increasing
          rcases moveBodyPart_other spanned with ⟨verdict, handled⟩ | faulty
          · rw [(handled data).1, (handled data).2, ok_bind, ok_bind]
            cases verdict with
            | proceed =>
                exact inductionHypothesis unharmed increasing
            | fail =>
                refine ⟨rfl, ?_⟩
                intro stopped after ran
                cases ran
                exact ⟨position, unharmed⟩
            | pause =>
                refine ⟨rfl, ?_⟩
                intro stopped after ran
                cases ran
                exact ⟨position, unharmed⟩
          · rw [(faulty data).1, (faulty data).2]
            refine ⟨rfl, ?_⟩
            intro stopped after ran
            cases ran
      | some span =>
          rw [bodySpans, List.filterMap_cons, spanned] at increasing
          obtain ⟨behind, inside, increasing⟩ := increasing
          obtain ⟨size, buffer, moves, unharmedAfter⟩ :=
            moveBody_eq unharmed behind inside
          rw [callback_of_bodySpan spanned, moveBodyPart, moves, onBodyPart,
            onBody_snapshot unharmed inside size buffer, ok_bind, ok_bind]
          exact inductionHypothesis unharmedAfter increasing

/-- In the buffer or outside of it, an execution does the same. -/
theorem run_snapshot
    {http : HttpParser σ} (parser : Parser σ)
    (orderly : http.Orderly)
    (unharmed : data.Unharmed requested inbuf 0) :
    http.run onBodyPart parser inbuf data.snapshot =
        (http.run moveBodyPart parser inbuf data).map
          (fun (nparsed, parser, after) => (nparsed, parser, after.snapshot)) ∧
      ∀ nparsed later after,
        http.run moveBodyPart parser inbuf data = .ok (nparsed, later, after) →
          ∃ reached, after.Unharmed requested inbuf reached := by
  rw [HttpParser.run, HttpParser.run]
  by_cases ready : parser.httpErrno = .ok
  · obtain ⟨same, kept⟩ :=
      callbacks_snapshot (http.execute parser.state inbuf).stops unharmed
        (orderly parser.state inbuf)
    rw [if_neg (not_not_intro ready), if_neg (not_not_intro ready)]
    dsimp only
    rw [same]
    cases called :
        HttpParser.callbacks moveBodyPart
          (http.execute parser.state inbuf).stops data with
    | error fault =>
        refine ⟨rfl, ?_⟩
        intro nparsed later after ran
        cases ran
    | ok outcome =>
        obtain ⟨stopped, after⟩ := outcome
        have unharmedAfter := kept stopped after called
        cases stopped with
        | none =>
            refine ⟨rfl, ?_⟩
            intro nparsed later last ran
            cases ran
            exact unharmedAfter
        | some stop =>
            refine ⟨rfl, ?_⟩
            intro nparsed later last ran
            cases ran
            exact unharmedAfter
  · rw [if_pos ready, if_pos ready]
    refine ⟨rfl, ?_⟩
    intro nparsed later after ran
    cases ran
    exact ⟨0, unharmed⟩

end Moving

/-! ## Rounds -/

namespace InPlace

/-- The part of the buffer that is filled holds what has been reported. -/
structure Filled (requested : Nat) (inPlace : InPlace σ) : Prop where
  length : inPlace.buffer.length = requested
  room : inPlace.outbuf + inPlace.size = inPlace.buffer.length
  filled : inPlace.buffer.take inPlace.outbuf = inPlace.reported

/-- The loop without the memory. -/
def snapshot (inPlace : InPlace σ) : BodyReading σ where
  request := inPlace.request
  world := inPlace.world
  out := inPlace.reported
  size := inPlace.size

/-- What a round leads to, without the memory. -/
def snapshotOutcome :
    Outcome (InPlace σ) (Int × InPlace σ) →
      Outcome (BodyReading σ) (Int × BodyReading σ)
  | .stop (result, inPlace) => .stop (result, inPlace.snapshot)
  | .next inPlace => .next inPlace.snapshot

section Rounds

variable {http : HttpParser σ} {inPlace : InPlace σ} {inbuf : Bytes}
variable {requested : Nat} {world : World} {data : InPlaceData}

/-- As many bytes have been reported as the buffer is filled with. -/
theorem Filled.outbuf_eq (filled : inPlace.Filled requested) :
    inPlace.reported.length = inPlace.outbuf := by
  have room := filled.room
  rw [← filled.filled, List.length_take]
  omega

/-- The loop goes on or not, with the memory or without it. -/
theorem Filled.goesOn_iff (filled : inPlace.Filled requested) :
    inPlace.snapshot.GoesOn ↔ inPlace.GoesOn := by
  rw [BodyReading.GoesOn, GoesOn, snapshot, ← filled.outbuf_eq,
    List.length_eq_zero_iff]

/-- No more bytes are taken than there is room for. -/
theorem takeInbuf_length
    (taken : inPlace.takeInbuf = .ok (.some inbuf world)) :
    inbuf.length ≤ inPlace.size := by
  have atMost : min inPlace.size (bodyLeft inPlace.request) ≤ inPlace.size :=
    Nat.min_le_left _ _
  rw [takeInbuf, Http.takeInbuf] at taken
  split at taken
  · cases taken
    rw [List.length_take]
    exact (Nat.min_le_left _ _).trans atMost
  · obtain ⟨⟨bytes, later⟩, read, taken⟩ := of_bind taken
    rcases bytes with _ | _ | ⟨byte, bytes⟩
    · cases taken
    · cases taken
    · cases taken
      have short := ((tcpSocketRead_readOn read).2 _ rfl).2
      exact short.trans atMost

/-- The bytes to parse are where the socket or the cache has put them. -/
theorem receive_unharmed
    (filled : inPlace.Filled requested)
    (fits : inbuf.length ≤ inPlace.size) :
    ∃ data,
      inPlace.receive inbuf = .ok data ∧
        data.Unharmed requested inbuf 0 ∧
        data.snapshot = inPlace.snapshot.parserData inbuf := by
  have room := filled.room
  by_cases cached : inPlace.request.remainder ≠ []
  · refine ⟨_, if_pos cached, ?_, rfl⟩
    refine ⟨filled.length, room, filled.filled, rfl, rfl, ?_⟩
    change inPlace.outbuf + (inbuf.length - 0) ≤ inPlace.buffer.length
    omega
  · obtain ⟨buffer, moves⟩ :
        ∃ buffer, memmove inPlace.buffer inPlace.outbuf inbuf = .ok buffer :=
      ⟨_, memmove_eq (by omega)⟩
    have kept := memmove_length moves
    have written := memmove_take moves
    have before : buffer.take inPlace.outbuf = inPlace.reported := by
      calc
        buffer.take inPlace.outbuf =
            (buffer.take (inPlace.outbuf + inbuf.length)).take
              inPlace.outbuf := by
          rw [List.take_take, Nat.min_eq_left (Nat.le_add_right _ _)]
        _ = (inPlace.reported ++ inbuf).take inPlace.outbuf := by
          rw [written, filled.filled]
        _ = inPlace.reported := List.take_left' filled.outbuf_eq
    have there :
        (buffer.drop inPlace.outbuf).take inbuf.length = inbuf := by
      rw [List.take_drop, written, filled.filled]
      exact List.drop_left' filled.outbuf_eq
    refine ⟨inPlace.parserData buffer
      (.received inPlace.outbuf inbuf.length) inbuf, ?_, ?_, rfl⟩
    · rw [receive, if_neg cached, moves]
      rfl
    · refine ⟨kept.trans filled.length, room.trans kept.symm, before, rfl, ?_,
        rfl, Nat.le_refl _, ?_⟩
      · exact congrArg (List.drop 0) there
      · change inPlace.outbuf + inbuf.length ≤ buffer.length
        omega

/-- The parser is given the same bytes, with the memory or without it. -/
theorem parse_snapshot
    (orderly : http.Orderly)
    (unharmed : data.Unharmed requested inbuf 0)
    (same : data.snapshot = inPlace.snapshot.parserData inbuf) :
    BodyStep.outcome <$> parseBody http inbuf world inPlace.snapshot =
        (parse http inbuf data world inPlace).map snapshotOutcome ∧
      ∀ outcome, parse http inbuf data world inPlace = .ok outcome →
        (∀ next, outcome = .next next → next.Filled requested) ∧
          ∀ result after, outcome = .stop (result, after) →
            after.Filled requested := by
  obtain ⟨equal, kept⟩ :=
    run_snapshot inPlace.request.parser orderly unharmed
  rw [same] at equal
  change
    BodyStep.outcome <$>
        (http.run onBodyPart inPlace.request.parser inbuf
          (inPlace.snapshot.parserData inbuf) >>= _) = _ ∧ _
  rw [equal, parse]
  cases ran : http.run moveBodyPart inPlace.request.parser inbuf data with
  | error fault =>
      refine ⟨rfl, ?_⟩
      intro outcome parses
      cases parses
  | ok returned =>
      obtain ⟨nparsed, parser, after⟩ := returned
      obtain ⟨reached, unharmedAfter⟩ := kept nparsed parser after ran
      rw [ok_bind]
      dsimp only [Except.map]
      rw [ok_bind]
      dsimp only
      by_cases errs : parser.httpErrno ≠ .paused ∧ parser.httpErrno ≠ .ok
      · rw [if_pos errs, if_pos errs]
        refine ⟨rfl, ?_⟩
        intro outcome parses
        cases parses
        constructor
        · intro next isNext
          cases isNext
        · intro result last isStop
          cases isStop
          exact ⟨unharmedAfter.length, unharmedAfter.room, unharmedAfter.filled⟩
      · rw [if_neg errs, if_neg errs]
        by_cases parsed : nparsed ≤ inbuf.length
        · rw [check_pos parsed, ok_bind]
          refine ⟨rfl, ?_⟩
          intro outcome parses
          cases parses
          constructor
          · intro next isNext
            cases isNext
            exact
              ⟨unharmedAfter.length, unharmedAfter.room, unharmedAfter.filled⟩
          · intro result last isStop
            cases isStop
        · rw [check_neg parsed]
          refine ⟨rfl, ?_⟩
          intro outcome parses
          cases parses

/-- Nothing to parse harms nothing. -/
theorem Filled.cached_nothing (filled : inPlace.Filled requested) :
    (inPlace.parserData inPlace.buffer .cached []).Unharmed requested [] 0 := by
  refine ⟨filled.length, filled.room, filled.filled, rfl, rfl, ?_⟩
  change inPlace.outbuf + 0 ≤ inPlace.buffer.length
  have room := filled.room
  omega

/-- A round does the same with the memory as without it. -/
theorem round_snapshot
    (orderly : http.Orderly)
    (filled : inPlace.Filled requested) :
    bodyRound http inPlace.snapshot =
        (round http inPlace).map snapshotOutcome ∧
      ∀ outcome, round http inPlace = .ok outcome →
        (∀ next, outcome = .next next → next.Filled requested) ∧
          ∀ result after, outcome = .stop (result, after) →
            after.Filled requested := by
  rw [bodyRound, round]
  by_cases goesOn : inPlace.GoesOn
  · rw [if_pos (filled.goesOn_iff.mpr goesOn), if_pos goesOn]
    rw [readRound]
    change
      BodyStep.outcome <$> (inPlace.takeInbuf >>= _) =
          (inPlace.takeInbuf >>= _).map snapshotOutcome ∧ _
    cases taken : inPlace.takeInbuf with
    | error fault =>
        refine ⟨rfl, ?_⟩
        intro outcome rounds
        cases rounds
    | ok inbuf =>
        rw [ok_bind, ok_bind]
        cases inbuf with
        | none world =>
            refine ⟨rfl, ?_⟩
            intro outcome rounds
            cases rounds
            constructor
            · intro next isNext
              cases isNext
            · intro result after isStop
              cases isStop
              exact ⟨filled.length, filled.room, filled.filled⟩
        | failed world =>
            dsimp only
            change
              BodyStep.outcome <$>
                  (if inPlace.request.parser.httpErrno = .ok then _ else _) =
                _ ∧ _
            by_cases ready : inPlace.request.parser.httpErrno = .ok
            · rw [if_pos ready, if_pos ready]
              refine ⟨rfl, ?_⟩
              intro outcome rounds
              cases rounds
            · rw [if_neg ready, if_neg ready]
              exact parse_snapshot orderly filled.cached_nothing rfl
        | some inbuf world =>
            dsimp only
            obtain ⟨data, receives, unharmed, same⟩ :=
              receive_unharmed filled (takeInbuf_length taken)
            by_cases notEmpty : inbuf ≠ []
            · rw [check_pos notEmpty, ok_bind, ok_bind, receives, ok_bind]
              exact parse_snapshot orderly unharmed same
            · rw [check_neg notEmpty]
              refine ⟨rfl, ?_⟩
              intro outcome rounds
              cases rounds
  · rw [if_neg (mt filled.goesOn_iff.mp goesOn), if_neg goesOn]
    constructor
    · rw [snapshot, filled.outbuf_eq]
      rfl
    · intro outcome rounds
      cases rounds
      constructor
      · intro next isNext
        cases isNext
      · intro result after isStop
        cases isStop
        exact filled

end Rounds

/-! ## Calls -/

/-- A call comes to a round. -/
def Comes (http : HttpParser σ) (request : Request σ) (world : World)
    (buffer : Bytes) (inPlace : InPlace σ) : Prop :=
  ¬ Bodiless request ∧
    Loops.Comes (round http) (start request world buffer) inPlace

/-- `dfk_http_request_on_body` is called in a round. -/
structure BodyCalled (http : HttpParser σ) (inPlace : InPlace σ) (span : Span)
    (data : InPlaceData) (inbuf : Bytes) (world : World)
    (first : InPlaceData) (earlier later : List (Stop σ)) (stop : Stop σ) :
    Prop where
  goesOn : inPlace.GoesOn
  taken : inPlace.takeInbuf = .ok (.some inbuf world)
  received : inPlace.receive inbuf = .ok first
  ready : inPlace.request.parser.httpErrno = .ok
  stops :
    (http.execute inPlace.request.parser.state inbuf).stops =
      earlier ++ stop :: later
  callback : stop.callback = .body span
  before : HttpParser.callbacks moveBodyPart earlier first = .ok (none, data)

/-- Moving a span succeeds and changes no byte that has not been parsed yet. -/
structure Moves (requested : Nat) (span : Span) (data after : InPlaceData) :
    Prop where
  moves : moveBody span data = .ok (.proceed, after)
  asserted : span.size ≤ data.size
  unread :
    after.current.drop (span.offset + span.size) =
      data.current.drop (span.offset + span.size)
  fits : after.outbuf ≤ requested
  filled : after.buffer.take after.outbuf = after.reported

/-- A call that decodes a body in the buffer of its caller. -/
structure Decodes (http : HttpParser σ) (request : Request σ) (world : World)
    (buffer : Bytes) : Prop where
  moves :
    ∀ inPlace span data inbuf later first earlier rest stop,
      Comes http request world buffer inPlace →
        BodyCalled http inPlace span data inbuf later first earlier rest stop →
          ∃ after, Moves buffer.length span data after
  /-- The socket is left alone once anything has been delivered or cached. -/
  reads :
    ∀ inPlace, Comes http request world buffer inPlace → inPlace.GoesOn →
      (inPlace.outbuf ≠ 0 ∨ inPlace.request.remainder ≠ []) →
        ∃ inbuf, inPlace.takeInbuf = .ok (.some inbuf inPlace.world)
  /-- What is delivered is what the parser has reported as the body. -/
  delivers :
    ∀ fuel result inPlace,
      readInPlace http fuel request world buffer = .ok (result, inPlace) →
        inPlace.buffer.take inPlace.outbuf = inPlace.reported ∧
          requestRead http fuel request world buffer.length =
            .ok (result, inPlace.snapshot)

section Calls

variable {http : HttpParser σ} {request : Request σ} {world : World}
variable {buffer : Bytes} {inPlace : InPlace σ}

/-- Nothing is filled before the first round. -/
theorem start_filled : (start request world buffer).Filled buffer.length where
  length := rfl
  room := Nat.zero_add _
  filled := rfl

/-- In every round the buffer holds what has been reported. -/
theorem filled_of_comes
    (orderly : http.Orderly)
    (comes : Loops.Comes (round http) (start request world buffer) inPlace) :
    inPlace.Filled buffer.length := by
  apply Loops.invariant comes start_filled
  intro state next filled goes
  exact ((round_snapshot orderly filled).2 _ goes).1 next rfl

/-- The loop does the same with the memory as without it. -/
theorem iterate_snapshot
    (orderly : http.Orderly) (fuel : Nat) :
    ∀ {inPlace : InPlace σ} {requested : Nat}, inPlace.Filled requested →
      iterate (bodyRound http) .outOfFuel fuel inPlace.snapshot =
        (iterate (round http) .outOfFuel fuel inPlace).map
          (fun (result, after) => (result, after.snapshot)) := by
  induction fuel with
  | zero =>
      intro inPlace requested filled
      rfl
  | succ fuel inductionHypothesis =>
      intro inPlace requested filled
      obtain ⟨same, kept⟩ := round_snapshot orderly filled
      rw [iterate, iterate, same]
      cases outcome : round http inPlace with
      | error fault =>
          rfl
      | ok outcome' =>
          cases outcome' with
          | stop stopped =>
              rfl
          | next next =>
              exact inductionHypothesis ((kept _ outcome).1 next rfl)

end Calls

/--
Whatever an orderly parser reports of a body, it is decoded in the buffer of
the caller.
-/
theorem decodes_in_place
    (http : HttpParser σ) (orderly : http.Orderly)
    (request : Request σ) (world : World) (buffer : Bytes) :
    Decodes http request world buffer where
  moves := by
    intro inPlace span data inbuf later first earlier rest stop comes called
    have filled := filled_of_comes orderly comes.2
    obtain ⟨data', receives, unharmed, -⟩ :=
      receive_unharmed filled (takeInbuf_length called.taken)
    rw [called.received] at receives
    cases receives
    have increasing := orderly inPlace.request.parser.state inbuf
    rw [called.stops] at increasing
    obtain ⟨reached, unharmedThere, increasingThere⟩ :=
      callbacks_unharmed earlier (stop :: rest) unharmed increasing
        called.before
    rw [bodySpans, List.filterMap_cons, called.callback] at increasingThere
    obtain ⟨behind, inside, -⟩ := increasingThere
    obtain ⟨size, moved, moves, unharmedAfter⟩ :=
      moveBody_eq unharmedThere behind inside
    have fits : (data.advance span moved).outbuf ≤ buffer.length := by
      have room := unharmedAfter.room
      have length := unharmedAfter.length
      omega
    refine ⟨_, moves, size, ?_, fits, unharmedAfter.filled⟩
    rw [unharmedAfter.unread]
    exact (unharmedThere.unread_behind (Nat.le_add_right_of_le behind)).symm
  reads := by
    intro inPlace comes goesOn delivered
    have cached : inPlace.request.remainder ≠ [] := by
      rcases delivered with some | cached
      · rcases goesOn.2 with nothing | cached
        · exact absurd nothing some
        · exact cached
      · exact cached
    exact ⟨_, if_pos cached⟩
  delivers := by
    intro fuel result inPlace ran
    rw [readInPlace] at ran
    rw [requestRead]
    split at ran
    · next refused =>
        cases ran
        rw [if_pos refused]
        exact ⟨rfl, rfl⟩
    · next taken =>
        have filled : (start request world buffer).Filled buffer.length :=
          start_filled
        have same := iterate_snapshot orderly fuel filled
        obtain ⟨last, comes, stops⟩ := stop_of_iterate ran
        have filledLast := filled_of_comes orderly comes
        have filledAfter :=
          ((round_snapshot orderly filledLast).2 _ stops).2 result inPlace rfl
        rw [ran] at same
        rw [if_neg taken, requestReadFrom_eq_iterate]
        exact ⟨filledAfter.filled, same⟩

/-- A parser of two chunks of two bytes, each behind a byte that announces it. -/
def pairParser : HttpParser Unit where
  init := ()
  execute := fun _ bytes =>
    { stops :=
        if 6 ≤ bytes.length then
          [⟨.chunkHeader, 1, ()⟩, ⟨.body ⟨1, 2⟩, 3, ()⟩, ⟨.chunkHeader, 4, ()⟩,
            ⟨.body ⟨4, 2⟩, 6, ()⟩]
        else []
      nparsed := bytes.length
      failed := false
      final := () }
  httpMajor := fun _ => 1
  httpMinor := fun _ => 1
  method := fun _ => 3
  contentLength := fun _ => none
  chunked := fun _ => true
  shouldKeepAlive := fun _ => true
  parseUrl := fun _ => none

theorem pairParser_orderly : pairParser.Orderly := by
  intro state bytes
  by_cases long : 6 ≤ bytes.length
  · have spans :
        bodySpans (pairParser.execute state bytes).stops = [⟨1, 2⟩, ⟨4, 2⟩] := by
      rw [pairParser]
      dsimp only
      rw [if_pos long]
      rfl
    rw [spans]
    exact
      ⟨Nat.zero_le _, (by decide : 3 ≤ 6).trans long, by decide, long, trivial⟩
  · have spans : bodySpans (pairParser.execute state bytes).stops = [] := by
      rw [pairParser]
      dsimp only
      rw [if_neg long]
      rfl
    rw [spans]
    trivial

/-- Two chunks that the socket writes to the buffer are moved to its start. -/
theorem decodes_in_place_pair :
    Decodes pairParser { Request.init pairParser with chunked := true }
        { silentWorld with input := ascii "2ab2cd" } (List.replicate 8 0) ∧
      (readInPlace pairParser 2
          { Request.init pairParser with chunked := true }
          { silentWorld with input := ascii "2ab2cd" }
          (List.replicate 8 0)).map
          (fun (result, inPlace) => (result, inPlace.buffer)) =
        .ok (4, ascii "abcdcd" ++ [0, 0]) :=
  ⟨decodes_in_place pairParser pairParser_orderly _ _ _, by decide⟩

end InPlace

end Dfk.Http
