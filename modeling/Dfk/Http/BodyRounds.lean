import Dfk.Http.Body
import Dfk.Library.Loops

/-!
# The rounds of reading a body

The loop of `dfk_http_request_read`, one round after the other: where each
round finds its bytes, what the parser makes of them, and which of the four
ways of leaving the loop belongs to which result.
-/

namespace Dfk.Http

open Loops

variable {σ τ : Type}

namespace HttpParser

variable {http : HttpParser σ} {holds : τ → Prop}
variable {handle : Callback → τ → Except Fault (Verdict × τ)}

/-- What every callback preserves is preserved by all of them. -/
theorem callbacks_preserves
    (preserved :
      ∀ callback before verdict after,
        holds before → handle callback before = .ok (verdict, after) →
          holds after)
    (stops : List (Stop σ)) :
    ∀ {data after : τ} {stopped : Option (HttpErrno × Nat × σ)},
      holds data → callbacks handle stops data = .ok (stopped, after) →
        holds after := by
  induction stops with
  | nil =>
      intro data after stopped held ran
      cases ran
      exact held
  | cons stop stops inductionHypothesis =>
      intro data after stopped held ran
      rw [callbacks] at ran
      obtain ⟨⟨verdict, between⟩, handled, ran⟩ := of_bind ran
      have heldBetween := preserved _ _ _ _ held handled
      cases verdict with
      | proceed =>
          exact inductionHypothesis heldBetween ran
      | fail =>
          cases ran
          exact heldBetween
      | pause =>
          cases ran
          exact heldBetween

/-- What every callback preserves is preserved by an execution. -/
theorem run_preserves
    {parser later : Parser σ} {bytes : Bytes} {data after : τ} {nparsed : Nat}
    (preserved :
      ∀ callback before verdict after,
        holds before → handle callback before = .ok (verdict, after) →
          holds after)
    (held : holds data)
    (ran : http.run handle parser bytes data = .ok (nparsed, later, after)) :
    holds after := by
  rw [run] at ran
  split at ran
  · cases ran
    exact held
  · obtain ⟨⟨stopped, between⟩, called, ran⟩ := of_bind ran
    have heldBetween := callbacks_preserves preserved _ held called
    cases stopped with
    | none =>
        cases ran
        exact heldBetween
    | some stop =>
        cases ran
        exact heldBetween

end HttpParser

/-- The loop of `dfk_http_request_read` goes on. -/
def BodyReading.GoesOn (reading : BodyReading σ) : Prop :=
  reading.size ≠ 0 ∧ (reading.out = [] ∨ reading.request.remainder ≠ [])

instance (reading : BodyReading σ) : Decidable reading.GoesOn :=
  inferInstanceAs (Decidable (_ ∧ _))

/-- What a round leads to, for the loop. -/
def BodyStep.outcome : BodyStep σ → Outcome (BodyReading σ) (Int × BodyReading σ)
  | .stop result reading => .stop (result, reading)
  | .next reading => .next reading

/-- A round of the loop, its condition included. -/
def bodyRound (http : HttpParser σ) (reading : BodyReading σ) :
    Except Fault (Outcome (BodyReading σ) (Int × BodyReading σ)) :=
  if reading.GoesOn then BodyStep.outcome <$> readRound http reading
  else .ok (.stop (reading.out.length, reading))

/-- The loop takes these rounds. -/
theorem requestReadFrom_eq_iterate (http : HttpParser σ) (fuel : Nat) :
    ∀ reading : BodyReading σ,
      requestReadFrom http fuel reading =
        iterate (bodyRound http) .outOfFuel fuel reading := by
  induction fuel with
  | zero =>
      intro reading
      rfl
  | succ fuel inductionHypothesis =>
      intro reading
      rw [requestReadFrom, iterate, bodyRound]
      by_cases goesOn : reading.GoesOn
      · rw [if_pos goesOn]
        rw [BodyReading.GoesOn] at goesOn
        rw [if_pos goesOn]
        cases round : readRound http reading with
        | error fault =>
            rfl
        | ok step =>
            cases step with
            | stop result after =>
                rfl
            | next after =>
                exact inductionHypothesis after
      · rw [if_neg goesOn]
        rw [BodyReading.GoesOn] at goesOn
        rw [if_neg goesOn]

/-- The loop of a call before its first round. -/
def BodyReading.start (request : Request σ) (world : World) (size : Nat) :
    BodyReading σ where
  request := request
  world := world
  out := []
  size := size

/-- A request without a body is not read. -/
def Bodiless (request : Request σ) : Prop :=
  request.contentLength = 0 ∧ request.chunked = false

/-- A call comes to a round. -/
def ReadComes (http : HttpParser σ) (request : Request σ) (world : World)
    (size : Nat) (reading : BodyReading σ) : Prop :=
  ¬ Bodiless request ∧
    Comes (bodyRound http) (.start request world size) reading

/-- A call returns what one of its rounds stops with. -/
theorem readsTo_iff_stop
    {http : HttpParser σ} {request : Request σ} {world : World}
    {size : Nat} {result : Int} {after : BodyReading σ}
    (body : ¬ Bodiless request) :
    ReadsTo http request world size result after ↔
      ∃ last, ReadComes http request world size last ∧
        bodyRound http last = .ok (.stop (result, after)) := by
  have unfolded (fuel : Nat) :
      requestRead http fuel request world size =
        iterate (bodyRound http) .outOfFuel fuel
          (.start request world size) := by
    rw [Bodiless] at body
    rw [requestRead, if_neg body, requestReadFrom_eq_iterate]
    rfl
  constructor
  · intro readsTo
    obtain ⟨fuel, ends⟩ := readsTo
    rw [unfolded] at ends
    obtain ⟨last, comes, stops⟩ := stop_of_iterate ends
    exact ⟨last, ⟨body, comes⟩, stops⟩
  · intro stopped
    obtain ⟨last, ⟨-, comes⟩, stops⟩ := stopped
    obtain ⟨fuel, ends⟩ := iterate_of_comes comes stops
    exact ⟨fuel, (unfolded fuel).trans ends⟩

/-- A call of a request without a body is refused. -/
theorem readsTo_bodiless
    {http : HttpParser σ} {request : Request σ} {world : World}
    {size : Nat} {result : Int} {after : BodyReading σ}
    (bodiless : Bodiless request)
    (readsTo : ReadsTo http request world size result after) :
    result = -1 := by
  obtain ⟨fuel, ran⟩ := readsTo
  rw [Bodiless] at bodiless
  rw [requestRead, if_pos bodiless] at ran
  cases ran
  rfl

/-!
## Rounds
-/

section Rounds

variable {http : HttpParser σ} {reading next after : BodyReading σ}
variable {world : World} {inbuf : Bytes} {result : Int}

/-- The socket is at the end of its input. -/
def FindsEnd (reading : BodyReading σ) : Prop :=
  reading.GoesOn ∧ ∃ world, takeInbuf reading = .ok (.none world)

/-- The read of the socket fails. -/
def SocketFails (reading : BodyReading σ) : Prop :=
  reading.GoesOn ∧ ∃ world, takeInbuf reading = .ok (.failed world)

/-- What the callbacks of a round start with. -/
def BodyReading.parserData (reading : BodyReading σ) (inbuf : Bytes) :
    BodyData where
  out := reading.out
  size := reading.size
  bodyNread := reading.request.bodyNread
  given := inbuf

/-- What a round that goes on gives to the parser. -/
inductive Feeds (reading : BodyReading σ) (inbuf : Bytes) (world : World) :
    Prop where
  | bytes
      (taken : takeInbuf reading = .ok (.some inbuf world))
      (notEmpty : inbuf ≠ [])
  /-- The parser is stopped when `-1` is taken for a number of bytes. -/
  | nothing
      (taken : takeInbuf reading = .ok (.failed world))
      (stopped : reading.request.parser.httpErrno ≠ .ok)
      (empty : inbuf = [])

/-- The parser reports an error about what it is given in a round. -/
def ParserFails (http : HttpParser σ) (reading : BodyReading σ) : Prop :=
  reading.GoesOn ∧
    ∃ inbuf world nparsed parser data,
      Feeds reading inbuf world ∧
        http.run onBodyPart reading.request.parser inbuf
            (reading.parserData inbuf) =
          .ok (nparsed, parser, data) ∧
        parser.httpErrno ≠ .paused ∧ parser.httpErrno ≠ .ok

/-- Once the loop is left a call returns as many bytes as it has delivered. -/
theorem bodyRound_ended (ended : ¬ reading.GoesOn) :
    bodyRound http reading = .ok (.stop (reading.out.length, reading)) := by
  rw [bodyRound, if_neg ended]

/-- At the end of the input a call returns 0. -/
theorem bodyRound_end
    (goesOn : reading.GoesOn)
    (taken : takeInbuf reading = .ok (.none world)) :
    bodyRound http reading =
      .ok (.stop (0, { reading with world := world })) := by
  rw [bodyRound, if_pos goesOn, readRound, taken]
  rfl

/-- How the parser goes on from a round, or stops the call by an error. -/
theorem parseBody_cases
    {step : BodyStep σ}
    (parses : parseBody http inbuf world reading = .ok step) :
    ∃ nparsed parser data,
      http.run onBodyPart reading.request.parser inbuf
          (reading.parserData inbuf) =
        .ok (nparsed, parser, data) ∧
      ((parser.httpErrno ≠ .paused ∧ parser.httpErrno ≠ .ok) ∧
          step =
            .stop errProtocol
              { request :=
                  { reading.request with
                    parser := parser
                    bodyNread := data.bodyNread }
                world := world
                out := data.out
                size := data.size } ∨
        ¬ (parser.httpErrno ≠ .paused ∧ parser.httpErrno ≠ .ok) ∧
          step =
            .next
              { request :=
                  { reading.request with
                    parser := parser
                    bodyNread := data.bodyNread
                    remainder := reading.request.remainder.drop nparsed }
                world := world
                out := data.out
                size := data.size }) := by
  rw [parseBody] at parses
  obtain ⟨⟨nparsed, parser, data⟩, ran, parses⟩ := of_bind parses
  dsimp only at parses
  refine ⟨nparsed, parser, data, ran, ?_⟩
  split at parses
  · next errs =>
      cases parses
      exact Or.inl ⟨errs, rfl⟩
  · next goes =>
      obtain ⟨checked, -, parses⟩ := of_bind parses
      cases parses
      exact Or.inr ⟨goes, rfl⟩

/-- A round of the loop ends the input, or feeds the parser. -/
theorem bodyRound_cases
    {outcome : Outcome (BodyReading σ) (Int × BodyReading σ)}
    (goesOn : reading.GoesOn)
    (round : bodyRound http reading = .ok outcome) :
    FindsEnd reading ∧
        (∃ world, outcome = .stop (0, { reading with world := world })) ∨
      ∃ inbuf world step,
        Feeds reading inbuf world ∧
          parseBody http inbuf world reading = .ok step ∧
          outcome = step.outcome := by
  rw [bodyRound, if_pos goesOn] at round
  cases stepped : readRound http reading with
  | error fault =>
      rw [stepped] at round
      cases round
  | ok step =>
      rw [stepped] at round
      cases round
      rw [readRound] at stepped
      obtain ⟨taken, takes, stepped⟩ := of_bind stepped
      cases taken with
      | none world =>
          cases stepped
          exact Or.inl ⟨⟨goesOn, world, takes⟩, world, rfl⟩
      | failed world =>
          dsimp only at stepped
          split at stepped
          · cases stepped
          · next stopped =>
              exact Or.inr
                ⟨[], world, step, .nothing takes stopped rfl, stepped, rfl⟩
      | some inbuf world =>
          obtain ⟨checked, notEmpty, stepped⟩ := of_bind stepped
          exact Or.inr
            ⟨inbuf, world, step, .bytes takes (of_check notEmpty), stepped, rfl⟩

/-- A round that feeds the parser goes on as the parser does. -/
theorem bodyRound_of_feeds
    (goesOn : reading.GoesOn)
    (feeds : Feeds reading inbuf world) :
    bodyRound http reading =
      BodyStep.outcome <$> parseBody http inbuf world reading := by
  rw [bodyRound, if_pos goesOn, readRound]
  cases feeds with
  | bytes taken notEmpty =>
      rw [taken, ok_bind]
      dsimp only
      rw [check_pos notEmpty, ok_bind]
  | nothing taken stopped empty =>
      rw [taken, ok_bind]
      dsimp only
      rw [if_neg stopped, empty]

/-- A round on which the parser fails ends the call with a positive number. -/
theorem bodyRound_of_parserFails
    (fails : ParserFails http reading) :
    ∃ after, bodyRound http reading = .ok (.stop (errProtocol, after)) := by
  obtain ⟨goesOn, inbuf, world, nparsed, parser, data, feeds, ran, errs⟩ :=
    fails
  rw [bodyRound_of_feeds goesOn feeds, parseBody]
  rw [BodyReading.parserData] at ran
  rw [ran, ok_bind]
  dsimp only
  rw [if_pos errs]
  exact ⟨_, rfl⟩

end Rounds

/-!
## What is delivered
-/

/-- What is delivered, and room for the rest of a buffer. -/
def BodyData.Fills (size : Nat) (data : BodyData) : Prop :=
  data.out.length + data.size = size

/-- Callbacks move bytes into the room that is left. -/
theorem onBodyPart_fills
    {size : Nat} (callback : Callback) (before : BodyData) (verdict : Verdict)
    (after : BodyData)
    (fills : before.Fills size)
    (handled : onBodyPart callback before = .ok (verdict, after)) :
    after.Fills size := by
  cases callback with
  | body span =>
      rw [onBodyPart, onBody] at handled
      split at handled
      · cases handled
      · next fits =>
          cases handled
          rw [not_or, not_not, Nat.not_lt] at fits
          rw [BodyData.Fills] at fills ⊢
          rw [List.length_append, fits.1, Nat.add_assoc,
            Nat.add_sub_cancel' fits.2]
          exact fills
  | messageComplete =>
      cases handled
      exact fills
  | messageBegin =>
      cases handled
      exact fills
  | chunkHeader =>
      cases handled
      exact fills
  | chunkComplete =>
      cases handled
      exact fills
  | url span => cases handled
  | headerField span => cases handled
  | headerValue span => cases handled
  | headersComplete => cases handled

/-- What is delivered, and room for the rest of a buffer. -/
def BodyReading.Fills (size : Nat) (reading : BodyReading σ) : Prop :=
  reading.out.length + reading.size = size

section Delivered

variable {http : HttpParser σ} {request : Request σ} {world : World}
variable {size : Nat} {reading : BodyReading σ}

/-- No round delivers more than there is room for. -/
theorem Goes.fills
    {next : BodyReading σ}
    (fills : reading.Fills size)
    (goes : Goes (bodyRound http) reading next) :
    next.Fills size := by
  have goesOn : reading.GoesOn := by
    apply Decidable.byContradiction
    intro ended
    rw [Goes, bodyRound_ended ended] at goes
    cases goes
  rcases bodyRound_cases goesOn goes with ⟨-, world, stops⟩ | fed
  · cases stops
  · obtain ⟨inbuf, world, step, -, parses, outcome⟩ := fed
    obtain ⟨nparsed, parser, data, ran, ⟨-, stops⟩ | ⟨-, proceeds⟩⟩ :=
      parseBody_cases parses
    · rw [stops] at outcome
      cases outcome
    · rw [proceeds] at outcome
      cases outcome
      have filled : (reading.parserData inbuf).Fills size := fills
      have filledAfter : data.Fills size :=
        HttpParser.run_preserves onBodyPart_fills filled ran
      exact filledAfter

/-- A call never delivers more than it was asked for. -/
theorem ReadComes.fills
    (comes : ReadComes http request world size reading) :
    reading.Fills size :=
  Loops.invariant comes.2 (Nat.zero_add size)
    fun _ _ fills goes => Goes.fills fills goes

/-- What a call that returns has gone through. -/
inductive Returned (http : HttpParser σ) (request : Request σ) (world : World)
    (size : Nat) (result : Int) (after : BodyReading σ) : Prop where
  /-- The request has no body. -/
  | refused (bodiless : Bodiless request) (result_eq : result = -1)
  /-- The buffer is full, or something is in it. -/
  | delivered
      (comes : ReadComes http request world size after)
      (ended : ¬ after.GoesOn)
      (result_eq : result = after.out.length)
  | ended
      (last : BodyReading σ)
      (comes : ReadComes http request world size last)
      (finds : FindsEnd last)
      (result_eq : result = 0)
  | erred
      (last : BodyReading σ)
      (comes : ReadComes http request world size last)
      (fails : ParserFails http last)
      (result_eq : result = errProtocol)

/-- How a call returns. -/
theorem ReadsTo.returned
    {result : Int} {after : BodyReading σ}
    (readsTo : ReadsTo http request world size result after) :
    Returned http request world size result after := by
  by_cases bodiless : Bodiless request
  · exact .refused bodiless (readsTo_bodiless bodiless readsTo)
  · obtain ⟨last, comes, stops⟩ := (readsTo_iff_stop bodiless).mp readsTo
    by_cases goesOn : last.GoesOn
    · rcases bodyRound_cases goesOn stops with ⟨finds, world, outcome⟩ | fed
      · cases outcome
        exact .ended last comes finds rfl
      · obtain ⟨inbuf, world, step, feeds, parses, outcome⟩ := fed
        obtain ⟨nparsed, parser, data, ran, ⟨errs, stopped⟩ | ⟨-, goes⟩⟩ :=
          parseBody_cases parses
        · rw [stopped] at outcome
          cases outcome
          exact .erred last comes
            ⟨goesOn, inbuf, world, nparsed, parser, data, feeds, ran, errs⟩ rfl
        · rw [goes] at outcome
          cases outcome
    · rw [bodyRound_ended goesOn] at stops
      cases stops
      exact .delivered comes goesOn rfl

/-- A call into a buffer that returns without an error delivers something. -/
theorem delivered_pos
    (asked : size ≠ 0)
    (comes : ReadComes http request world size reading)
    (ended : ¬ reading.GoesOn) :
    0 < reading.out.length := by
  apply List.length_pos_iff.mpr
  intro empty
  have fills := comes.fills
  rw [BodyReading.Fills, empty, List.length_nil, Nat.zero_add] at fills
  apply ended
  rw [BodyReading.GoesOn, fills]
  exact ⟨asked, Or.inl empty⟩

/-- A call that comes to a round returns no negative number. -/
theorem ReadsTo.nonneg
    {result : Int} {after : BodyReading σ}
    (body : ¬ Bodiless request)
    (readsTo : ReadsTo http request world size result after) :
    0 ≤ result := by
  cases readsTo.returned with
  | refused bodiless _ => exact absurd bodiless body
  | delivered _ _ result_eq =>
      rw [result_eq]
      exact Int.natCast_nonneg _
  | ended _ _ _ result_eq => exact result_eq.ge
  | erred _ _ _ result_eq =>
      rw [result_eq]
      decide

end Delivered

/-!
## A parser and a client that stop
-/

/-- A parser that takes no byte, as for a chunk without a size. -/
def refusingParser : HttpParser Unit where
  init := ()
  execute := fun _ _ => { stops := [], nparsed := 0, failed := true, final := () }
  httpMajor := fun _ => 1
  httpMinor := fun _ => 1
  method := fun _ => 3
  contentLength := fun _ => none
  chunked := fun _ => true
  shouldKeepAlive := fun _ => true
  parseUrl := fun _ => none

/-- A client that sends nothing more. -/
def silentWorld : World where
  input := []
  output := []
  reads := []
  writes := []
  waits := []
  allocations := []

end Dfk.Http
