import Dfk.Http.BodyDelivery
import Dfk.Http.ConnectionLoop

/-!
# Boundaries of requests

The requests of a client stand one behind the other in what it writes.
Whatever its handler reads of the body, a round takes the bytes of its request
off the socket, and drops what the read of the head has brought from behind
them.
-/

namespace Dfk

namespace World

/-!
## A socket that is only waited for
-/

/-- No read fails, and neither does the event loop. -/
structure Attentive (world : World) : Prop where
  waits : ∀ answer ∈ world.waits, answer = true
  delivering : world.Delivering

/-- Without errors of the event loop the number of waits does not matter. -/
theorem moved_waits
    {size : Nat} {schedule : List Kernel} {waits other : List Bool}
    (noError : ∀ answer ∈ waits, answer = true)
    (noOther : ∀ answer ∈ other, answer = true) :
    (moved size schedule waits).1 = (moved size schedule other).1 ∧
      (moved size schedule waits).2.1 = (moved size schedule other).2.1 ∧
      ∀ answer ∈ (moved size schedule waits).2.2, answer = true := by
  have asked
      {answers : List Bool}
      (none : ∀ answer ∈ answers, answer = true) :
      next answers = (true, answers.tail) := by
    cases answers with
    | nil =>
        rfl
    | cons answer answers =>
        rw [next, none answer (List.mem_cons_self ..)]
        rfl
  have fewer : ∀ answer ∈ waits.tail, answer = true :=
    fun answer member => noError answer (List.mem_of_mem_tail member)
  rw [moved, moved]
  rcases answer size schedule with ⟨errno | count, later⟩
  · cases errno with
    | again =>
        simp only [asked noError, asked noOther]
        rcases answer size later with ⟨failure | count, last⟩
        · exact ⟨rfl, rfl, fewer⟩
        · exact ⟨rfl, rfl, fewer⟩
    | other =>
        exact ⟨rfl, rfl, noError⟩
  · exact ⟨rfl, rfl, noError⟩

/-- Reads do not depend on it either. -/
theorem serves_of_waits
    (sizes : List Nat) :
    ∀ {reads : List Kernel} {waits other : List Bool},
      (∀ answer ∈ waits, answer = true) →
        (∀ answer ∈ other, answer = true) →
        Serves sizes reads waits → Serves sizes reads other := by
  induction sizes with
  | nil =>
      intro reads waits other _ _ _
      trivial
  | cons size sizes inductionHypothesis =>
      intro reads waits other noError noOther serves
      obtain ⟨some, rest⟩ := serves
      obtain ⟨same, sameReads, fewer⟩ :=
        @moved_waits size reads waits other noError noOther
      have fewerOther :=
        (@moved_waits size reads other waits noOther noError).2.2
      refine ⟨same ▸ some, ?_⟩
      rw [sameReads] at rest
      exact inductionHypothesis fewer fewerOther rest

/-- Between two worlds nothing has been read. -/
structure Unread (world later : World) : Prop where
  input : later.input = world.input
  attentive : world.Attentive → later.Attentive

namespace Unread

variable {first second third world : World}

theorem refl (world : World) : world.Unread world where
  input := rfl
  attentive := id

theorem trans
    (earlier : first.Unread second) (later : second.Unread third) :
    first.Unread third where
  input := later.input.trans earlier.input
  attentive := later.attentive ∘ earlier.attentive

/-- Only the memory and what the client receives are different. -/
theorem of_reads
    (input : second.input = first.input)
    (reads : second.reads = first.reads)
    (waits : second.waits = first.waits) :
    first.Unread second where
  input := input
  attentive := by
    intro attentive
    refine ⟨?_, ?_⟩
    · rw [waits]
      exact attentive.waits
    · intro sizes
      rw [reads, waits]
      exact attentive.delivering sizes

/-- Bytes are offered to the socket. -/
theorem takes (world : World) (size : Nat) :
    world.Unread (world.takes size).2 where
  input := rfl
  attentive := by
    intro attentive
    obtain ⟨-, -, fewer⟩ :=
      @moved_waits size world.writes world.waits _ attentive.waits
        attentive.waits
    refine ⟨fewer, ?_⟩
    intro sizes
    exact serves_of_waits sizes attentive.waits fewer
      (attentive.delivering sizes)

end Unread

end World

/-- Writing reads nothing. -/
theorem tcpSocketWrite_unread
    {world later : World} {buf : Bytes} {nwritten : Int}
    (written : tcpSocketWrite world buf = .ok (nwritten, later)) :
    world.Unread later := by
  have notEmpty : buf ≠ [] := by
    intro empty
    rw [empty, tcpSocketWrite_nil] at written
    cases written
  rw [tcpSocketWrite_eq notEmpty] at written
  cases written
  exact (World.Unread.takes world buf.length).trans
    (.of_reads rfl rfl rfl)

/-- Neither does writing several buffers. -/
theorem tcpSocketWritevFrom_unread
    (iov : List Bytes) :
    ∀ {world later : World} {total nwritten : Int},
      tcpSocketWritevFrom world total iov = .ok (nwritten, later) →
        world.Unread later := by
  induction iov with
  | nil =>
      intro world later total nwritten written
      cases written
      exact World.Unread.refl world
  | cons buf iov inductionHypothesis =>
      intro world later total nwritten written
      obtain ⟨⟨count, between⟩, first, written⟩ := of_bind written
      have unread := tcpSocketWrite_unread first
      dsimp only at written
      split at written
      · cases written
        exact unread
      · split at written
        · cases written
          exact unread
        · exact unread.trans (inductionHypothesis written)

theorem tcpSocketWritev_unread
    {world later : World} {iov : List Bytes} {nwritten : Int}
    (written : tcpSocketWritev world iov = .ok (nwritten, later)) :
    world.Unread later := by
  obtain ⟨-, -, written⟩ := of_bind written
  exact tcpSocketWritevFrom_unread iov written

namespace Http

variable {σ : Type}

/-!
## Answering
-/

section Answering

variable {response after : Response} {world later : World}

/-- Allocating reads nothing. -/
theorem allocEach_unread (count : Nat) :
    ∀ world : World, world.Unread (allocEach count world).2 := by
  induction count with
  | zero =>
      intro world
      exact World.Unread.refl world
  | succ count inductionHypothesis =>
      intro world
      have once : world.Unread world.alloc.2 := .of_reads rfl rfl rfl
      rw [allocEach]
      rcases allocated : world.alloc with ⟨succeeds, between⟩
      rw [allocated] at once
      cases succeeds with
      | true => exact once.trans (inductionHypothesis between)
      | false => exact once

/-- Neither does setting a header. -/
theorem storeItem_unread
    (allocations : Nat) (response : Response) (world : World)
    (header : Header) :
    world.Unread (storeItem allocations response world header).2.2 := by
  have unread := allocEach_unread allocations world
  rw [storeItem]
  rcases allocated : allocEach allocations world with ⟨succeeds, between⟩
  rw [allocated] at unread
  cases succeeds with
  | true => exact unread
  | false => exact unread

theorem addContentLength_unread
    (added : addContentLength response world = .ok (after, later)) :
    world.Unread later := by
  rw [addContentLength] at added
  split at added
  · have unread :=
      storeItem_unread 2 response world
        { name := contentLengthName
          value := decimal response.contentLength }
    split at added
    · next stored =>
        rw [stored] at unread
        cases added
        exact unread
    · cases added
  · cases added
    exact World.Unread.refl _

/-- The head is put on the socket without reading. -/
theorem flushHeaders_unread
    (flushed : flushHeaders response world = .ok (after, later)) :
    world.Unread later := by
  rw [flushHeaders] at flushed
  split at flushed
  · cases flushed
    exact World.Unread.refl _
  · obtain ⟨⟨headed, between⟩, added, flushed⟩ := of_bind flushed
    have unread := addContentLength_unread added
    have once : between.Unread between.alloc.2 := .of_reads rfl rfl rfl
    dsimp only at flushed
    split at flushed
    · next allocated =>
        rw [allocated] at once
        obtain ⟨iov, -, flushed⟩ := of_bind flushed
        obtain ⟨⟨count, last⟩, written, flushed⟩ := of_bind flushed
        cases flushed
        exact (unread.trans once).trans (tcpSocketWritev_unread written)
    · next allocated =>
        rw [allocated] at once
        obtain ⟨⟨count, last⟩, written, flushed⟩ := of_bind flushed
        cases flushed
        exact (unread.trans once).trans (tcpSocketWrite_unread written)

end Answering

namespace Exchange

variable {exchange after : Exchange σ}

/-- What a handler writes leaves its request and the input alone. -/
structure Answers (exchange after : Exchange σ) : Prop where
  request : after.request = exchange.request
  world : exchange.world.Unread after.world

theorem Answers.trans
    {first second third : Exchange σ}
    (earlier : first.Answers second) (later : second.Answers third) :
    first.Answers third where
  request := later.request.trans earlier.request
  world := earlier.world.trans later.world

theorem answers_write
    {call : BodyCall} {nwritten : Int}
    (writes : exchange.write call = .ok (nwritten, after)) :
    exchange.Answers after := by
  obtain ⟨sent, -, writes⟩ := of_bind writes
  obtain ⟨⟨count, response, world⟩, performs, writes⟩ := of_bind writes
  cases writes
  obtain ⟨served, flushed, written⟩ :=
    responseWritev_inv (BodyCall.perform_eq_writev performs)
  exact ⟨rfl,
    (flushHeaders_unread flushed).trans (tcpSocketWritev_unread written)⟩

theorem answers_set
    {setter : Setter} {name value : Bytes} {err : Err}
    (sets : exchange.set setter name value = .ok (err, after)) :
    exchange.Answers after := by
  obtain ⟨⟨result, response, world⟩, performs, sets⟩ := of_bind sets
  cases sets
  rw [Setter.perform_eq, setItem] at performs
  obtain ⟨-, -, performs⟩ := of_bind performs
  obtain ⟨-, -, performs⟩ := of_bind performs
  have unread :=
    storeItem_unread setter.allocations exchange.response exchange.world
      { name := name, value := value }
  rw [Except.ok.inj performs] at unread
  exact ⟨rfl, unread⟩

theorem answers_flush
    (flushes : exchange.flush = .ok after) :
    exchange.Answers after := by
  obtain ⟨sent, -, flushes⟩ := of_bind flushes
  obtain ⟨⟨response, world⟩, flushed, flushes⟩ := of_bind flushes
  cases flushes
  exact ⟨rfl, flushHeaders_unread flushed⟩

/-- The head is concluded without reading. -/
theorem answers_conclude
    {keepalive : Bool}
    (concludes : exchange.conclude keepalive = .ok after) :
    exchange.Answers after := by
  obtain ⟨⟨first, named⟩, setsName, concludes⟩ := of_bind concludes
  obtain ⟨⟨second, sized⟩, setsLength, concludes⟩ := of_bind concludes
  exact ((answers_set setsName).trans (answers_set setsLength)).trans
    (answers_flush concludes)

end Exchange

/-!
## What belongs to a request
-/

section Own

variable {http : HttpParser σ} {framing : http.LengthFraming}
variable {cached later : Bytes}

/--
What is to come up to `later` belongs to the request: some of its body, or
nothing at all.  The bytes of `later` that are `cached` have been read already.
-/
inductive Owns (framing : http.LengthFraming) (cached later : Bytes)
    (request : Request σ) (world : World) : Prop where
  | body {length : Nat} {lead rest : Bytes}
      (positioned :
        Positioned framing length lead rest later request world)
      (feeds : lead.length = feed request)
      (isCached : behind lead rest request = cached)
      (attentive : world.Attentive)
  | bodiless
      (contentLength : request.contentLength = 0)
      (plain : request.chunked = false)
      (input : cached ++ world.input = later)
      (attentive : world.Attentive)

/-- Answering changes nothing about it. -/
theorem Owns.unread
    {request : Request σ} {world after : World}
    (owns : Owns framing cached later request world)
    (unread : world.Unread after) :
    Owns framing cached later request after := by
  cases owns with
  | body positioned feeds isCached attentive =>
      have still := unread.attentive attentive
      refine .body { positioned with
        stream := ?_, delivering := still.delivering } feeds isCached still
      rw [unread.input]
      exact positioned.stream
  | bodiless contentLength plain input attentive =>
      refine .bodiless contentLength plain ?_ (unread.attentive attentive)
      rw [unread.input]
      exact input

section Reads

variable {holds : World → Prop}

/-- Where a round has come to. -/
def BodyStep.reading : BodyStep σ → BodyReading σ
  | .stop _ reading => reading
  | .next reading => reading

/-- The world in which the parser gets its bytes. -/
def Inbuf.world : Inbuf → World
  | .none world => world
  | .failed world => world
  | .some _ world => world

/-- What every read keeps is kept by a round of a call that reads a body. -/
theorem readRound_invariant
    (preserved :
      ∀ {world after nbytes result},
        holds world → tcpSocketRead world nbytes = .ok (result, after) →
          holds after)
    {reading : BodyReading σ} {step : BodyStep σ}
    (before : holds reading.world)
    (round : readRound http reading = .ok step) :
    holds step.reading.world := by
  obtain ⟨inbuf, taken, round⟩ := of_bind round
  have parsed
      {bytes : Bytes} {world : World}
      (still : holds world)
      (parses : parseBody http bytes world reading = .ok step) :
      holds step.reading.world := by
    obtain ⟨⟨nparsed, parser, data⟩, -, parses⟩ := of_bind parses
    dsimp only at parses
    split at parses
    · cases parses
      exact still
    · obtain ⟨-, -, parses⟩ := of_bind parses
      cases parses
      exact still
  have still : holds inbuf.world := by
    rw [takeInbuf] at taken
    split at taken
    · cases taken
      exact before
    · obtain ⟨⟨result, world⟩, read, taken⟩ := of_bind taken
      have after := preserved before read
      rcases result with _ | _ | ⟨byte, bytes⟩
      · cases taken
        exact after
      · cases taken
        exact after
      · cases taken
        exact after
  cases inbuf with
  | none world =>
      cases round
      exact still
  | failed world =>
      dsimp only at round
      split at round
      · cases round
      · exact parsed still round
  | some bytes world =>
      obtain ⟨-, -, round⟩ := of_bind round
      exact parsed still round

/-- And by a whole call. -/
theorem requestRead_invariant
    (preserved :
      ∀ {world after nbytes result},
        holds world → tcpSocketRead world nbytes = .ok (result, after) →
          holds after)
    {fuel size : Nat} {request : Request σ} {world : World} {result : Int}
    {reading : BodyReading σ}
    (before : holds world)
    (ran :
      requestRead http fuel request world size = .ok (result, reading)) :
    holds reading.world := by
  have loops (fuel : Nat) :
      ∀ {reading after : BodyReading σ} {result : Int},
        holds reading.world →
          requestReadFrom http fuel reading = .ok (result, after) →
            holds after.world := by
    induction fuel with
    | zero =>
        intro reading after result before ran
        cases ran
    | succ fuel inductionHypothesis =>
        intro reading after result before ran
        rw [requestReadFrom] at ran
        split at ran
        · obtain ⟨step, round, ran⟩ := of_bind ran
          have still := readRound_invariant preserved before round
          cases step with
          | stop result last =>
              cases ran
              exact still
          | next reading =>
              exact inductionHypothesis still ran
        · cases ran
          exact before
  rw [requestRead] at ran
  split at ran
  · cases ran
    exact before
  · exact loops fuel before ran

end Reads

/-- Without errors of the event loop a read leaves none to come. -/
theorem tcpSocketRead_attentive
    {world after : World} {nbytes : Nat} {result : Option Bytes}
    (attentive : world.Attentive)
    (read : tcpSocketRead world nbytes = .ok (result, after)) :
    after.Attentive := by
  have readOn := (tcpSocketRead_readOn read).1
  have asked : nbytes ≠ 0 := by
    intro nothing
    rw [tcpSocketRead, check_neg (not_not_intro nothing)] at read
    cases read
  rw [tcpSocketRead_eq asked] at read
  refine ⟨?_, readOn.delivering attentive.delivering⟩
  obtain ⟨-, -, fewer⟩ :=
    @World.moved_waits nbytes world.reads world.waits _ attentive.waits
      attentive.waits
  cases read
  exact fewer

/-- A call with no room returns at once. -/
theorem requestRead_zero
    {fuel : Nat} {request : Request σ} {world : World} {result : Int}
    {reading : BodyReading σ}
    (ran : requestRead http fuel request world 0 = .ok (result, reading)) :
    reading.request = request ∧ reading.world = world := by
  rw [requestRead] at ran
  split at ran
  · cases ran
    exact ⟨rfl, rfl⟩
  · cases fuel with
    | zero =>
        cases ran
    | succ fuel =>
        cases ran
        exact ⟨rfl, rfl⟩

/-- A call that returns takes what belongs to the request only. -/
theorem Owns.read
    {fuel size : Nat} {request : Request σ} {world : World} {result : Int}
    {reading : BodyReading σ}
    (owns : Owns framing cached later request world)
    (ran :
      requestRead http fuel request world size = .ok (result, reading)) :
    Owns framing cached later reading.request reading.world := by
  cases owns with
  | bodiless contentLength plain input attentive =>
      rw [requestRead, if_pos ⟨contentLength, plain⟩] at ran
      cases ran
      exact .bodiless contentLength plain input attentive
  | body positioned feeds isCached attentive =>
      have still :=
        requestRead_invariant tcpSocketRead_attentive attentive ran
      rcases Nat.eq_zero_or_pos size with rfl | asked
      · obtain ⟨sameRequest, sameWorld⟩ := requestRead_zero ran
        rw [sameRequest, sameWorld]
        exact .body positioned feeds isCached attentive
      · by_cases modest : Modest request size
        · obtain ⟨count, other, -, -, -, readsTo, -, sameBehind, next,
            noFeed⟩ := readsTo_of_modest positioned feeds asked modest
          obtain ⟨-, rfl⟩ := readsTo.unique ⟨fuel, ran⟩
          exact .body next noFeed.symm (sameBehind.trans isCached) still
        · exact absurd ⟨fuel, ran⟩
            (not_readsTo_of_not_modest positioned feeds asked modest)

/-- Whatever a handler does, it takes what belongs to its request only. -/
theorem Handler.run_owns
    {fuel : Nat} {hres : Int} (handler : Handler) :
    ∀ {exchange returned : Exchange σ},
      Owns framing cached later exchange.request exchange.world →
        handler.run http fuel exchange = .ok (hres, returned) →
          Owns framing cached later returned.request returned.world := by
  induction handler with
  | done result =>
      intro exchange returned owns runs
      cases runs
      exact owns
  | read size next inductionHypothesis =>
      intro exchange returned owns runs
      obtain ⟨⟨result, bytes, after⟩, reads, runs⟩ := of_bind runs
      obtain ⟨⟨count, reading⟩, ran, reads⟩ := of_bind reads
      cases reads
      exact inductionHypothesis _ _ (owns.read ran) runs
  | write call next inductionHypothesis =>
      intro exchange returned owns runs
      obtain ⟨⟨nwritten, after⟩, writes, runs⟩ := of_bind runs
      have answers := Exchange.answers_write writes
      refine inductionHypothesis nwritten ?_ runs
      rw [answers.request]
      exact owns.unread answers.world
  | set setter name value next inductionHypothesis =>
      intro exchange returned owns runs
      obtain ⟨⟨err, after⟩, sets, runs⟩ := of_bind runs
      have answers := Exchange.answers_set sets
      refine inductionHypothesis err ?_ runs
      rw [answers.request]
      exact owns.unread answers.world
  | assign fields next inductionHypothesis =>
      intro exchange returned owns runs
      exact inductionHypothesis (by exact owns) runs

/-!
## Skipping
-/

/-- Behind the body the bytes are to come that are not cached. -/
theorem input_of_finished
    {length : Nat} {lead : Bytes} {request : Request σ} {world : World}
    (positioned : Positioned framing length lead [] later request world)
    (isCached : behind lead [] request = cached) :
    cached ++ world.input = later := by
  have stream := positioned.stream
  have none : lead = [] := by
    rcases positioned.lead with none | ⟨-, some⟩
    · exact none
    · exact absurd rfl some
  rw [none] at isCached stream
  rw [← isCached]
  exact stream

/-- The loop that skips a body takes all of it and nothing behind it. -/
theorem skipFrom_owns
    {fuel : Nat} (rounds : Nat) :
    ∀ {length : Nat} {lead rest : Bytes} {request after : Request σ}
      {world next : World},
      Positioned framing length lead rest later request world →
        lead.length = feed request →
        behind lead rest request = cached →
        world.Attentive →
        skipFrom http fuel rounds rest.length request world =
            .ok (true, after, next) →
          cached ++ next.input = later ∧ next.Attentive := by
  induction rounds with
  | zero =>
      intro length lead rest request after world next _ _ _ _ ran
      cases ran
  | succ rounds inductionHypothesis =>
      intro length lead rest request after world next positioned feeds
        isCached attentive ran
      rw [skipFrom] at ran
      split at ran
      · next finished =>
          cases ran
          rw [List.eq_nil_of_length_eq_zero finished] at positioned isCached
          exact ⟨input_of_finished positioned isCached, attentive⟩
      · next unfinished =>
          obtain ⟨⟨nread, reading⟩, read, ran⟩ := of_bind ran
          have left := positioned.left
          have range := positioned.range
          have modest : Modest request (min rest.length 1024) := by
            rw [Modest, positioned.contentLength]
            omega
          obtain ⟨count, other, someRead, -, most, readsTo, -, sameBehind,
            later', noFeed⟩ :=
            readsTo_of_modest positioned feeds (by omega) modest
          obtain ⟨rfl, rfl⟩ := readsTo.unique ⟨fuel, read⟩
          have fewer :
              (((rest.length : Int) - (count : Int)) % 2 ^ 64).toNat =
                (rest.drop count).length := by
            rw [List.length_drop]
            omega
          dsimp only at ran
          rw [if_neg (by omega), fewer] at ran
          exact inductionHypothesis later' noFeed.symm
            (sameBehind.trans isCached)
            (requestRead_invariant tcpSocketRead_attentive attentive read) ran

/-- What the handler leaves of the body is skipped, and nothing else. -/
theorem Owns.skipBody
    {fuel : Nat} {request after : Request σ} {world next : World}
    (owns : Owns framing cached later request world)
    (skipped :
      Http.skipBody http fuel request world = .ok (true, after, next)) :
    cached ++ next.input = later ∧ next.Attentive := by
  rw [Http.skipBody] at skipped
  cases owns with
  | bodiless contentLength plain input attentive =>
      rw [contentLength, if_neg (fun some => absurd some.1 (by decide))]
        at skipped
      cases skipped
      exact ⟨input, attentive⟩
  | @body length lead rest positioned feeds isCached attentive =>
      have left := positioned.left
      have positive := positioned.positive
      rw [positioned.contentLength] at skipped
      split at skipped
      · have remains :
            ((length : Int) - (request.bodyNread : Int)).toNat =
              rest.length := by
          omega
        rw [remains] at skipped
        exact skipFrom_owns fuel positioned feeds isCached attentive skipped
      · have finished : rest = [] := by
          apply List.eq_nil_of_length_eq_zero
          omega
        cases skipped
        rw [finished] at positioned isCached
        exact ⟨input_of_finished positioned isCached, attentive⟩

/-- The handler has answered, and the head of its response is concluded. -/
theorem respond_owns
    {config : Config} {fuel nrequests : Nat}
    {handler : Request σ → Handler} {request : Request σ} {world : World}
    {keepalive : Bool} {exchange : Exchange σ}
    (owns : Owns framing cached later request world)
    (responds :
      respond http config fuel handler nrequests request world =
        .ok (keepalive, exchange)) :
    Owns framing cached later exchange.request exchange.world := by
  obtain ⟨⟨hres, returned⟩, runs, responds⟩ := of_bind responds
  obtain ⟨concluded, concludes, responds⟩ := of_bind responds
  cases responds
  have returnedOwns :
      Owns framing cached later returned.request returned.world :=
    Handler.run_owns (handler request) owns runs
  have answers := Exchange.answers_conclude concludes
  rw [answers.request]
  exact returnedOwns.unread answers.world

/-- A round that goes on leaves what is not read behind its request. -/
theorem serveRequest_owns
    {config : Config} {memory : Nat → Nat → UInt8} {fuel : Nat}
    {handler : Request σ → Handler} {connected next : Connected}
    (serves :
      serveRequest http config memory fuel handler connected = .ok next)
    (goesOn : next.keepalive = true)
    (reads :
      ∀ request world,
        readHeaders http config memory fuel connected.world =
            .ok (.ok, request, world) →
          Owns framing cached later request world) :
    cached ++ next.world.input = later ∧ next.world.Attentive := by
  obtain ⟨⟨err, request, world⟩, read, serves⟩ := of_bind serves
  dsimp only at serves
  split at serves
  · cases serves
    cases goesOn
  · next accepted =>
      have noError : err = .ok := Decidable.not_not.mp accepted
      subst noError
      obtain ⟨⟨keepalive, exchange⟩, responds, serves⟩ := of_bind serves
      have owns := respond_owns (reads request world read) responds
      obtain ⟨⟨skipped, after, last⟩, skips, serves⟩ := of_bind serves
      cases skipped with
      | true =>
          cases serves
          exact owns.skipBody skips
      | false =>
          cases serves
          cases goesOn

end Own

/-!
## Reading the head of a request
-/

/-- What a client writes for a request; a line feed ends the head. -/
structure Written where
  head : Bytes
  body : Bytes
  deriving Repr, DecidableEq

/-- The bytes of a request. -/
def Written.bytes (written : Written) : Bytes :=
  written.head ++ 10 :: written.body

/--
Whatever is behind it, the parser stops at the line feed of a request, and
knows how long its body is.
-/
def Recognises (http : HttpParser σ) (written : Written) : Prop :=
  ∀ more stop,
    headEnd http (written.head ++ 10 :: more) = some stop →
      stop.nparsed = written.head.length ∧
        http.chunked stop.resume = false ∧
        (written.body ≠ [] →
          http.contentLength stop.resume = some written.body.length)

/--
The first read brings the head of a request, and the length of the body is
recorded.
-/
structure ReadsHead (http : HttpParser σ) (config : Config)
    (memory : Nat → Nat → UInt8) (fuel : Nat) (written : Written)
    (world : World) : Prop where
  brings : written.head.length < (firstRead config world).length
  recorded :
    ∀ request after,
      readHeaders http config memory fuel world = .ok (.ok, request, after) →
        request.contentLength = written.body.length

/-- What the read of a head has brought from behind its request. -/
def overread (config : Config) (written : Written) (world : World) : Bytes :=
  (firstRead config world).drop written.bytes.length

section Run

variable {http : HttpParser σ} {config : Config}
variable {memory : Nat → Nat → UInt8} {fuel : Nat}
variable {handler : Request σ → Handler}

/-- Where the connection stands when a head has been read. -/
theorem readHeaders_stream
    {written : Written} {later : Bytes} {world after : World}
    {request : Request σ}
    (complete : http.Complete)
    (headsFirst : http.HeadsFirst)
    (room : config.headerMaxSize ≤ config.headersBufferSize)
    (positive : 0 < config.headerMaxSize)
    (recognises : Recognises http written)
    (stream : world.input = written.bytes ++ later)
    (brings : written.head.length < (firstRead config world).length)
    (read :
      readHeaders http config memory fuel world =
        .ok (.ok, request, after)) :
    request.remainder =
        (firstRead config world).drop written.head.length ∧
      request.remainder ++ after.input = 10 :: (written.body ++ later) ∧
      http.chunked request.parser.state = false ∧
      (written.body ≠ [] →
        http.contentLength request.parser.state =
          some written.body.length) ∧
      (∀ answer ∈ after.waits, answer ∈ (afterFirst config world).waits) := by
  obtain ⟨data, parser, remainder, between, url, path, query, fragment,
    arguments, heads, rfl, allocations, rfl⟩ := readHeaders_parsed read
  obtain ⟨executed, isBetween⟩ := readHead_parsed complete room positive heads
  obtain ⟨earlier, stop, rest, before, split, proceeded, handled, rfl, rfl,
    -⟩ := execute_parsed rfl executed
  have isEnd := isEnd_of_pause headsFirst split proceeded handled
  have others := not_headersComplete_of_proceeds proceeded
  have ends :
      headEnd http (firstGiven config memory world) = some stop := by
    rw [headEnd, split]
    exact (beforeHeadersComplete_append rest others isEnd).2
  have isPrefix : firstRead config world <+: world.input :=
    List.take_prefix _ _
  obtain ⟨more, begins⟩ :
      ∃ more, firstRead config world = written.head ++ 10 :: more := by
    have headBytes : written.head ++ [10] <+: world.input := by
      rw [stream, Written.bytes, List.append_assoc, List.cons_append]
      exact ⟨written.body ++ later, by simp⟩
    have within :
        (written.head ++ [10]).length ≤
          (firstRead config world).length := by
      rw [List.length_append]
      exact brings
    obtain ⟨more, same⟩ :=
      List.prefix_of_prefix_length_le headBytes isPrefix within
    exact ⟨more, by rw [← same, List.append_assoc]; rfl⟩
  have given :
      firstGiven config memory world =
        written.head ++ 10 :: (more ++
          (stale config memory 0).drop
            (firstRead config world).length) := by
    rw [firstGiven, begins]
    simp only [List.append_assoc, List.cons_append]
  rw [given] at ends
  obtain ⟨count, plain, framed⟩ := recognises _ _ ends
  have input :
      firstRead config world ++ (afterFirst config world).input =
        world.input :=
    List.take_append_drop _ _
  refine ⟨?_, ?_, plain, framed, ?_⟩
  · rw [← count]
    rfl
  · change (firstRead config world).drop stop.nparsed ++ between.input = _
    have cut :
        (firstRead config world).drop stop.nparsed ++ between.input =
          world.input.drop written.head.length := by
      rw [count, isBetween, ← input,
        List.drop_append_of_le_length (Nat.le_of_lt brings)]
    rw [cut, stream, Written.bytes, List.append_assoc,
      List.drop_left, List.cons_append]
  · intro answer member
    rw [← isBetween]
    exact member

/-- After its head has been read, the rest of a request is its own. -/
theorem owns_of_readsHead
    (framing : http.LengthFraming)
    {written : Written} {later : Bytes} {world after : World}
    {request : Request σ}
    (complete : http.Complete)
    (headsFirst : http.HeadsFirst)
    (room : config.headerMaxSize ≤ config.headersBufferSize)
    (positive : 0 < config.headerMaxSize)
    (recognises : Recognises http written)
    (attentive : world.Attentive)
    (stream : world.input = written.bytes ++ later)
    (readsHead : ReadsHead http config memory fuel written world)
    (read :
      readHeaders http config memory fuel world =
        .ok (.ok, request, after)) :
    Owns framing (overread config written world) later request after := by
  obtain ⟨remainder, rest, plain, framed, waits⟩ :=
    readHeaders_stream complete headsFirst room positive recognises stream
      readsHead.brings read
  obtain ⟨accepted, readOn⟩ := readHeaders_accepted read
  have recorded := readsHead.recorded request after read
  have still : after.Attentive := by
    obtain ⟨-, -, fewer⟩ :=
      @World.moved_waits config.headersBufferSize world.reads world.waits _
        attentive.waits attentive.waits
    exact ⟨fun answer member => fewer answer (waits answer member),
      readOn.delivering attentive.delivering⟩
  have isCached :
      request.remainder.drop (1 + written.body.length) =
        overread config written world := by
    rw [remainder, List.drop_drop, overread, Written.bytes,
      List.length_append, List.length_cons, Nat.add_comm 1]
  by_cases bodiless : written.body = []
  · rw [bodiless] at recorded isCached rest
    refine .bodiless recorded (accepted.chunked.trans plain) ?_ still
    have some : request.remainder ≠ [] := by
      have brings := readsHead.brings
      rw [ne_eq, remainder, List.drop_eq_nil_iff]
      exact Nat.not_le_of_lt brings
    obtain ⟨byte, behind, isRemainder⟩ := List.exists_cons_of_ne_nil some
    rw [isRemainder] at rest isCached
    rw [← isCached]
    exact (List.cons.inj rest).2
  · have some : 0 < written.body.length := List.length_pos_iff.mpr bodiless
    refine .body
      (accepted.positioned framing still.delivering (framed bodiless) some
        plain recorded rest rfl) ?_ isCached still
    rw [feed, accepted.unread]
    rfl

/-- A round that goes on has taken one request, and counts it. -/
theorem serveRequest_counts
    {connected next : Connected}
    (serves :
      serveRequest http config memory fuel handler connected = .ok next)
    (goesOn : next.keepalive = true) :
    next.nrequests = connected.nrequests + 1 ∧
      ∃ request world,
        readHeaders http config memory fuel connected.world =
          .ok (.ok, request, world) := by
  obtain ⟨⟨err, request, world⟩, read, serves⟩ := of_bind serves
  dsimp only at serves
  split at serves
  · cases serves
    cases goesOn
  · next accepted =>
      have noError : err = .ok := Decidable.not_not.mp accepted
      subst noError
      obtain ⟨⟨keepalive, exchange⟩, responds, serves⟩ := of_bind serves
      exact ⟨(finish_goesOn serves goesOn).2, request, world, read⟩

/-- Nothing is accepted where the client writes nothing more. -/
theorem not_accepted_of_silence
    {world after : World} {request : Request σ}
    (complete : http.Complete)
    (headsFirst : http.HeadsFirst)
    (room : config.headerMaxSize ≤ config.headersBufferSize)
    (positive : 0 < config.headerMaxSize)
    (silent : world.input = [])
    (read :
      readHeaders http config memory fuel world =
        .ok (.ok, request, after)) :
    False := by
  obtain ⟨earlier, stop, rest, before, data, parsed⟩ :=
    parsedHead_of_accepted complete headsFirst room positive read
  apply parsed.read
  rw [firstRead, silent, List.take_nil]

/-- The requests that are still to come after some rounds. -/
def toCome (requests : List Written) (connected : Connected) : Bytes :=
  ((requests.drop connected.nrequests).map Written.bytes).flatten

/-- The connection stands at the beginning of the next request. -/
def AtRequest (requests : List Written) (connected : Connected) : Prop :=
  connected.world.input = toCome requests connected ∧
    connected.nrequests ≤ requests.length

/-- A round that goes on takes a request, and what was read behind it. -/
theorem serveRequest_takes
    (framing : http.LengthFraming)
    {requests : List Written} {connected next : Connected}
    (complete : http.Complete)
    (headsFirst : http.HeadsFirst)
    (room : config.headerMaxSize ≤ config.headersBufferSize)
    (positive : 0 < config.headerMaxSize)
    (recognised : ∀ written ∈ requests, Recognises http written)
    (attentive : connected.world.Attentive)
    (stands : AtRequest requests connected)
    (readsHead :
      ∀ written ∈ requests[connected.nrequests]?,
        ReadsHead http config memory fuel written connected.world)
    (serves :
      serveRequest http config memory fuel handler connected = .ok next)
    (goesOn : next.keepalive = true) :
    ∃ written ∈ requests[connected.nrequests]?,
      overread config written connected.world ++ next.world.input =
          toCome requests next ∧
        next.nrequests ≤ requests.length ∧ next.world.Attentive := by
  obtain ⟨input, -⟩ := stands
  obtain ⟨count, request, after, read⟩ := serveRequest_counts serves goesOn
  cases isNext : requests[connected.nrequests]? with
  | none =>
      have past := List.getElem?_eq_none_iff.mp isNext
      rw [toCome, List.drop_eq_nil_of_le past] at input
      exact (not_accepted_of_silence complete headsFirst room positive
        input read).elim
  | some written =>
      obtain ⟨inside, isWritten⟩ := List.getElem?_eq_some_iff.mp isNext
      have member : written ∈ requests := isWritten ▸ List.getElem_mem inside
      have front :
          toCome requests connected =
            written.bytes ++ toCome requests next := by
        rw [toCome, toCome, count, List.drop_eq_getElem_cons inside,
          isWritten, List.map_cons, List.flatten_cons]
      obtain ⟨left, attentiveNext⟩ :=
        serveRequest_owns serves goesOn fun request after read =>
          owns_of_readsHead framing complete headsFirst room positive
            (recognised written member) attentive (input.trans front)
            (readsHead written isNext) read
      exact ⟨written, rfl, left, count ▸ inside, attentiveNext⟩

end Run

/-- A request with a body of three bytes. -/
def posted : Written where
  head := lengthHead.dropLast
  body := ascii "abc"

/-- Two of them, of which the first comes in two pieces. -/
def twoPosted : World :=
  sending (posted.bytes ++ posted.bytes) [.move 37, .move 1, .move 39]

/-- The connection when the first of them has been answered. -/
def oncePosted : Connected where
  nrequests := 1
  keepalive := true
  world :=
    { sending posted.bytes [.move 39] with
      output :=
        ascii "HTTP/1.1 200 OK\r\nContent-Length: 0\r\n" ++
          ascii "Connection: Keep-Alive\r\n\r\n" }

/-- A socket that delivers pieces of these lengths, less one. -/
theorem attentive_sending (input : Bytes) (counts : List Nat) :
    (sending input (counts.map .move)).Attentive := by
  refine ⟨nofun, ?_⟩
  intro sizes
  change World.Serves sizes (counts.map .move) []
  induction sizes generalizing counts with
  | nil =>
      trivial
  | cons size sizes inductionHypothesis =>
      cases counts with
      | nil =>
          exact ⟨rfl, inductionHypothesis []⟩
      | cons count counts =>
          exact ⟨rfl, inductionHypothesis counts⟩

/-- The parser stops at the end of the head. -/
theorem recognises_posted : Recognises lengthParser posted := by
  intro more stop ends
  have isEnd :
      headEnd lengthParser (posted.head ++ 10 :: more) =
        some ⟨.headersComplete, 36, .body 1 3⟩ := by
    have begins : lengthHead <+: posted.head ++ 10 :: more := ⟨more, rfl⟩
    change ((lengthParser.execute .head _).stops.find? _) = _
    rw [lengthParser, oneHead_stops begins]
    rfl
  rw [isEnd] at ends
  cases ends
  exact ⟨rfl, rfl, fun _ => rfl⟩

end Http

end Dfk
