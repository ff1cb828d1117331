import Dfk.Http.Accepted
import Dfk.Http.Body
import Dfk.Http.Segmentation

/-!
# Delivery of bodies framed by a length

Bytes of a body come from the cache behind the head or from the socket, in
pieces of any size.  A call that asks for no more than is left, or finds
nothing cached behind the body, returns the next bytes of it.  Any other call
runs into an assertion.
-/

namespace Dfk.Http

variable {σ : Type}

/-- How a parser goes through a body framed by its length. -/
structure HttpParser.LengthFraming (http : HttpParser σ) where
  /-- A state before the rest of a head and a body of so many bytes. -/
  Awaits : σ → Bytes → Nat → Prop
  /-- The parser stops at the line feed that ends a head. -/
  headed :
    ∀ {before : σ} {bytes : Bytes} {stop : Stop σ} {length : Nat},
      stop ∈ (http.execute before bytes).stops →
        stop.callback = .headersComplete →
        http.contentLength stop.resume = some length →
          Awaits stop.resume [10] length
  /-- No body is awaited behind a message. -/
  completed :
    ∀ {before : σ} {bytes : Bytes} {stop : Stop σ},
      stop ∈ (http.execute before bytes).stops →
        stop.callback = .messageComplete →
          http.contentLength stop.resume = none
  /-- A part of a body is handed over in one piece. -/
  part :
    ∀ {state : σ} {lead bytes : Bytes} {length : Nat},
      Awaits state lead length →
        bytes.take lead.length = lead.take bytes.length →
        bytes.length < lead.length + length →
          ∃ next resume,
            Awaits next (lead.drop bytes.length)
                (length - (bytes.length - lead.length)) ∧
              http.execute state bytes =
                { stops :=
                    if bytes.length ≤ lead.length then []
                    else
                      [⟨.body ⟨lead.length, bytes.length - lead.length⟩,
                        bytes.length, resume⟩]
                  nparsed := bytes.length
                  failed := false
                  final := next }
  /-- The end of a body is handed over before the message is completed. -/
  whole :
    ∀ {state : σ} {lead bytes : Bytes} {length : Nat},
      Awaits state lead length →
        lead <+: bytes →
        0 < length →
        lead.length + length ≤ bytes.length →
          ∃ nparsed between resume later,
            (http.execute state bytes).stops =
              ⟨.body ⟨lead.length, length⟩, nparsed, between⟩ ::
                ⟨.messageComplete, lead.length + length, resume⟩ :: later

/--
A request with a body of `length` bytes and a world with `lead` of the head and
`rest` of the body to come, and `later` behind them.
-/
structure Positioned
    {http : HttpParser σ} (framing : http.LengthFraming) (length : Nat)
    (lead rest later : Bytes) (request : Request σ) (world : World) :
    Prop where
  awaits :
    rest ≠ [] →
      request.parser.httpErrno = .ok ∧
        framing.Awaits request.parser.state lead rest.length
  stream : request.remainder ++ world.input = lead ++ rest ++ later
  lead : lead = [] ∨ lead = [10] ∧ rest ≠ []
  contentLength : request.contentLength = length
  left : length = request.bodyNread + rest.length
  range : length < 2 ^ 63
  positive : 0 < length
  plain : request.chunked = false
  delivering : world.Delivering

section Round

variable {http : HttpParser σ} {framing : http.LengthFraming}
variable {length : Nat}
variable {lead rest later : Bytes} {reading : BodyReading σ}

/-- What is left of the body, as the source computes it. -/
theorem bodyLeft_eq
    {request : Request σ} {world : World}
    (positioned : Positioned framing length lead rest later request world) :
    bodyLeft request = rest.length := by
  have left := positioned.left
  have range := positioned.range
  have same :
      request.contentLength - request.bodyNread = (rest.length : Int) := by
    rw [positioned.contentLength]
    omega
  rw [bodyLeft, same, Int.emod_eq_of_lt (by omega) (by omega),
    Int.toNat_natCast]

/-- The next bytes for the parser, and where they leave the rest. -/
theorem takeInbuf_eq
    (positioned :
      Positioned framing length lead rest later reading.request reading.world)
    (unfinished : rest ≠ [])
    (asked : reading.size ≠ 0) :
    ∃ count world,
      0 < count ∧ count ≤ min reading.size rest.length ∧
        (reading.request.remainder ≠ [] →
          count =
            min (min reading.size rest.length)
              reading.request.remainder.length) ∧
        takeInbuf reading = .ok (.some ((lead ++ rest).take count) world) ∧
        reading.request.remainder.drop count ++ world.input =
          (lead ++ rest ++ later).drop count ∧
        world.Delivering := by
  have nonempty : 0 < rest.length := List.length_pos_iff.mpr unfinished
  have stream := positioned.stream
  rw [takeInbuf, bodyLeft_eq positioned]
  by_cases cached : reading.request.remainder = []
  · rw [cached, List.nil_append] at stream
    have nothing : min reading.size rest.length ≠ 0 := by
      omega
    obtain ⟨count, reads, waits, positive, atMost, -, read, delivering⟩ :=
      tcpSocketRead_of_delivering nothing positioned.delivering
    have taken :
        reading.world.input.take count = (lead ++ rest).take count := by
      rw [stream, List.take_append_of_le_length]
      rw [List.length_append]
      omega
    have notEmpty : (lead ++ rest).take count ≠ [] := by
      rw [ne_eq, List.take_eq_nil_iff, List.append_eq_nil_iff]
      rintro (none | ⟨-, empty⟩)
      · omega
      · exact unfinished empty
    refine ⟨count, reading.world.advance reads waits count, positive, atMost,
      fun filled => absurd cached filled, ?_, ?_, delivering⟩
    · simp only [cached, ne_eq, not_true_eq_false, if_false, read, ok_bind,
        taken]
      rcases taken : (lead ++ rest).take count with _ | ⟨byte, bytes⟩
      · exact absurd taken notEmpty
      · rfl
    · simp [cached, World.advance, stream]
  · have someCached : 0 < reading.request.remainder.length :=
      List.length_pos_iff.mpr cached
    have taken :
        reading.request.remainder.take (min reading.size rest.length) =
          (lead ++ rest).take
            (min (min reading.size rest.length)
              reading.request.remainder.length) := by
      calc
        reading.request.remainder.take (min reading.size rest.length) =
            reading.request.remainder.take
              (min (min reading.size rest.length)
                reading.request.remainder.length) :=
          (List.take_eq_take_min ..)
        _ =
            (reading.request.remainder ++ reading.world.input).take
              (min (min reading.size rest.length)
                reading.request.remainder.length) :=
          (List.take_append_of_le_length (by omega)).symm
        _ = _ := by
          rw [stream, List.take_append_of_le_length]
          rw [List.length_append]
          omega
    refine ⟨_, reading.world, ?_, Nat.min_le_left _ _, fun _ => rfl, ?_, ?_,
      positioned.delivering⟩
    · omega
    · rw [if_pos cached, taken]
    · rw [← stream, List.drop_append_of_le_length (Nat.min_le_right _ _)]

/-- A piece of the body goes to the buffer of the caller. -/
theorem onBody_eq
    {data : BodyData} {count : Nat}
    (given : data.given = (lead ++ rest).take count)
    (least : lead.length ≤ count)
    (most : count ≤ lead.length + rest.length)
    (room : count - lead.length ≤ data.size) :
    onBody ⟨lead.length, count - lead.length⟩ data =
      .ok
        (.proceed,
          { data with
            out := data.out ++ rest.take (count - lead.length)
            size := data.size - (count - lead.length)
            bodyNread := data.bodyNread + (count - lead.length) }) := by
  have piece :
      (data.given.drop lead.length).take (count - lead.length) =
        rest.take (count - lead.length) := by
    rw [given, List.drop_take, List.drop_left, List.take_take,
      Nat.min_self]
  have length :
      (rest.take (count - lead.length)).length = count - lead.length := by
    rw [List.length_take]
    omega
  simp only [onBody, piece, length]
  rw [if_neg (by omega)]

/-- The parser takes bytes that do not end the body. -/
theorem parseBody_part
    (world : World) {count : Nat}
    (positioned :
      Positioned framing length lead rest later reading.request reading.world)
    (unfinished : rest ≠ [])
    (least : lead.length ≤ count)
    (most : count < lead.length + rest.length)
    (room : count - lead.length ≤ reading.size) :
    ∃ state,
      framing.Awaits state (lead.drop count)
          (rest.length - (count - lead.length)) ∧
        parseBody http ((lead ++ rest).take count) world reading =
          .ok
            (.next
              { request :=
                  { reading.request with
                    parser := { state := state, httpErrno := .ok }
                    bodyNread :=
                      reading.request.bodyNread + (count - lead.length)
                    remainder := reading.request.remainder.drop count }
                world := world
                out := reading.out ++ rest.take (count - lead.length)
                size := reading.size - (count - lead.length) }) := by
  obtain ⟨ready, awaits⟩ := positioned.awaits unfinished
  have length : ((lead ++ rest).take count).length = count := by
    rw [List.length_take, List.length_append]
    omega
  have fits :
      ((lead ++ rest).take count).take lead.length =
        lead.take ((lead ++ rest).take count).length := by
    rw [length, List.take_take, Nat.min_eq_left least, List.take_left,
      List.take_of_length_le least]
  obtain ⟨state, resume, awaitsRest, executed⟩ :=
    framing.part awaits fits (by omega)
  rw [length] at awaitsRest executed
  refine ⟨state, awaitsRest, ?_⟩
  have called :
      HttpParser.callbacks onBodyPart
          (http.execute reading.request.parser.state
            ((lead ++ rest).take count)).stops
          { out := reading.out
            size := reading.size
            bodyNread := reading.request.bodyNread
            given := (lead ++ rest).take count } =
        .ok (none,
          { out := reading.out ++ rest.take (count - lead.length)
            size := reading.size - (count - lead.length)
            bodyNread :=
              reading.request.bodyNread + (count - lead.length)
            given := (lead ++ rest).take count }) := by
    rw [executed]
    dsimp only
    by_cases leadOnly : count ≤ lead.length
    · have none : count - lead.length = 0 := by
        omega
      rw [if_pos leadOnly, none]
      simp [HttpParser.callbacks]
    · rw [if_neg leadOnly, HttpParser.callbacks]
      dsimp only
      rw [onBodyPart, onBody_eq rfl least most.le room]
      rfl
  have ran :
      http.run onBodyPart reading.request.parser ((lead ++ rest).take count)
          { out := reading.out
            size := reading.size
            bodyNread := reading.request.bodyNread
            given := (lead ++ rest).take count } =
        .ok (count, { state := state, httpErrno := .ok },
          { out := reading.out ++ rest.take (count - lead.length)
            size := reading.size - (count - lead.length)
            bodyNread :=
              reading.request.bodyNread + (count - lead.length)
            given := (lead ++ rest).take count }) := by
    rw [HttpParser.run_of_proceeds ready called, executed]
    rfl
  rw [parseBody, ran, ok_bind]
  dsimp only
  rw [if_neg (by simp), length, check_pos (Nat.le_refl _)]
  rfl

/-- The parser takes the last bytes of the body, and is paused. -/
theorem parseBody_whole
    (world : World)
    (positioned :
      Positioned framing length [] rest later reading.request reading.world)
    (unfinished : rest ≠ [])
    (room : rest.length ≤ reading.size) :
    ∃ state,
      parseBody http rest world reading =
        .ok
          (.next
            { request :=
                { reading.request with
                  parser := { state := state, httpErrno := .paused }
                  bodyNread := reading.request.bodyNread + rest.length
                  remainder := reading.request.remainder.drop rest.length }
              world := world
              out := reading.out ++ rest
              size := reading.size - rest.length }) := by
  obtain ⟨ready, awaits⟩ := positioned.awaits unfinished
  have nonempty : 0 < rest.length := List.length_pos_iff.mpr unfinished
  obtain ⟨nparsed, between, resume, later, executed⟩ :=
    framing.whole awaits (List.nil_prefix : [] <+: rest) nonempty
      (by simp)
  refine ⟨resume, ?_⟩
  have called :
      HttpParser.callbacks onBodyPart
          (http.execute reading.request.parser.state rest).stops
          { out := reading.out
            size := reading.size
            bodyNread := reading.request.bodyNread
            given := rest } =
        .ok (some (.paused, rest.length, resume),
          { out := reading.out ++ rest
            size := reading.size - rest.length
            bodyNread := reading.request.bodyNread + rest.length
            given := rest }) := by
    have taken :=
      @onBody_eq [] rest
        { out := reading.out
          size := reading.size
          bodyNread := reading.request.bodyNread
          given := rest }
        rest.length (by simp) (by simp) (by simp) (by simpa using room)
    rw [executed, HttpParser.callbacks]
    dsimp only
    rw [onBodyPart]
    simp only [List.length_nil, Nat.sub_zero, List.take_length] at taken
    rw [List.length_nil, taken, ok_bind]
    simp [HttpParser.callbacks, onBodyPart]
  have ran :
      http.run onBodyPart reading.request.parser rest
          { out := reading.out
            size := reading.size
            bodyNread := reading.request.bodyNread
            given := rest } =
        .ok (rest.length, { state := resume, httpErrno := .paused },
          { out := reading.out ++ rest
            size := reading.size - rest.length
            bodyNread := reading.request.bodyNread + rest.length
            given := rest }) :=
    HttpParser.run_of_stopped ready called
  rw [parseBody, ran, ok_bind]
  dsimp only
  rw [if_neg (by simp), check_pos (Nat.le_refl _)]
  rfl

/-- One round takes some bytes of the head and the body. -/
theorem readRound_eq
    (positioned :
      Positioned framing length lead rest later reading.request reading.world)
    (unfinished : rest ≠ [])
    (asked : reading.size ≠ 0) :
    ∃ count request world,
      0 < count ∧ count ≤ min reading.size rest.length ∧
        (reading.request.remainder ≠ [] →
          count =
            min (min reading.size rest.length)
              reading.request.remainder.length) ∧
        readRound http reading =
          .ok
            (.next
              { request := request
                world := world
                out := reading.out ++ rest.take (count - lead.length)
                size := reading.size - (count - lead.length) }) ∧
        request.remainder = reading.request.remainder.drop count ∧
        Positioned framing length (lead.drop count)
          (rest.drop (count - lead.length)) later request world := by
  obtain ⟨count, world, positive, most, cached, taken, stream, delivering⟩ :=
    takeInbuf_eq positioned unfinished asked
  have left := positioned.left
  have nonempty : 0 < rest.length := List.length_pos_iff.mpr unfinished
  have least : lead.length ≤ count := by
    rcases positioned.lead with none | ⟨feed, -⟩
    · simp [none]
    · simpa [feed] using Nat.succ_le_of_lt positive
  have notEmpty : (lead ++ rest).take count ≠ [] := by
    rw [ne_eq, List.take_eq_nil_iff, List.append_eq_nil_iff]
    rintro (none | ⟨-, empty⟩)
    · omega
    · exact unfinished empty
  have noLead : lead.drop count = [] := List.drop_of_length_le least
  have restStream :
      (lead ++ rest ++ later).drop count =
        rest.drop (count - lead.length) ++ later := by
    rw [List.append_assoc, List.drop_append, noLead, List.nil_append,
      List.drop_append_of_le_length (by omega)]
  by_cases partly : count < lead.length + rest.length
  · obtain ⟨state, awaits, parsed⟩ :=
      parseBody_part world positioned unfinished least partly (by omega)
    refine
      ⟨count,
        { reading.request with
          parser := { state := state, httpErrno := .ok }
          bodyNread := reading.request.bodyNread + (count - lead.length)
          remainder := reading.request.remainder.drop count },
        world, positive, most, cached, ?_, rfl, ?_⟩
    · rw [readRound, taken, ok_bind]
      dsimp only
      rw [check_pos notEmpty, ok_bind, parsed]
    · refine
        { awaits := fun _ => ⟨rfl, ?_⟩
          stream := ?_
          lead := Or.inl noLead
          left := ?_
          contentLength := positioned.contentLength
          range := positioned.range
          positive := positioned.positive
          plain := positioned.plain
          delivering := delivering }
      · rw [List.length_drop]
        exact awaits
      · rw [noLead, List.nil_append, stream, restStream]
      · simp only [List.length_drop]
        omega
  · have leadNone : lead = [] := by
      rcases positioned.lead with none | ⟨feed, -⟩
      · exact none
      · simp only [feed, List.length_singleton] at partly
        omega
    subst leadNone
    have all : count = rest.length := by
      simp only [List.length_nil] at partly
      omega
    subst all
    obtain ⟨state, parsed⟩ :=
      parseBody_whole world positioned unfinished (by omega)
    refine
      ⟨rest.length,
        { reading.request with
          parser := { state := state, httpErrno := .paused }
          bodyNread := reading.request.bodyNread + rest.length
          remainder := reading.request.remainder.drop rest.length },
        world, positive, most, cached, ?_, rfl, ?_⟩
    · rw [List.nil_append, List.take_length] at taken notEmpty
      rw [readRound, taken, ok_bind]
      dsimp only
      rw [check_pos notEmpty, ok_bind, parsed]
      simp
    · refine
        { awaits := fun some => absurd (by simp) some
          stream := ?_
          lead := Or.inl noLead
          left := ?_
          contentLength := positioned.contentLength
          range := positioned.range
          positive := positioned.positive
          plain := positioned.plain
          delivering := delivering }
      · rw [noLead, List.nil_append, stream, restStream]
      · simp only [List.length_drop, List.length_nil]
        omega

end Round

/-!
## Calls
-/

/-- The cached bytes behind the body. -/
def behind (lead rest : Bytes) (request : Request σ) : Bytes :=
  request.remainder.drop (lead.length + rest.length)

section Call

variable {http : HttpParser σ} {framing : http.LengthFraming}
variable {length : Nat}
variable {later : Bytes}

/-- A loop that is not to take more than the body returns the next bytes. -/
theorem requestReadFrom_eq
    (fuel : Nat) :
    ∀ {lead rest : Bytes} {reading : BodyReading σ},
      Positioned framing length lead rest later reading.request reading.world →
        rest ≠ [] →
        reading.size ≠ 0 →
        (reading.out = [] ∨ reading.request.remainder ≠ []) →
        (reading.out = [] ∨ lead = []) →
        (reading.size ≤ rest.length ∨
          behind lead rest reading.request = []) →
        lead.length + reading.size < fuel →
          ∃ count request world,
            0 < count ∧ count ≤ reading.size ∧ count ≤ rest.length ∧
              requestReadFrom http fuel reading =
                .ok
                  ((reading.out ++ rest.take count).length,
                    { request := request
                      world := world
                      out := reading.out ++ rest.take count
                      size := reading.size - count }) ∧
              behind [] (rest.drop count) request =
                behind lead rest reading.request ∧
              Positioned framing length [] (rest.drop count) later request
                world := by
  induction fuel with
  | zero =>
      intro lead rest reading _ _ _ _ _ _ enough
      omega
  | succ fuel inductionHypothesis =>
      intro lead rest reading positioned unfinished asked goesOn fresh
        modest enough
      have nonempty : 0 < rest.length := List.length_pos_iff.mpr unfinished
      obtain ⟨count, request, world, positive, most, cached, round,
        remainder, next⟩ := readRound_eq positioned unfinished asked
      have atMostOne : lead.length ≤ 1 := by
        rcases positioned.lead with none | ⟨feed, -⟩
        · simp [none]
        · simp [feed]
      have noLead : lead.drop count = [] :=
        List.drop_of_length_le (by omega)
      rw [noLead] at next
      have sameBehind :
          behind [] (rest.drop (count - lead.length)) request =
            behind lead rest reading.request := by
        rw [behind, behind, remainder, List.drop_drop, List.length_drop,
          List.length_nil]
        congr 1
        omega
      rw [requestReadFrom, if_pos ⟨asked, goesOn⟩, round, ok_bind]
      dsimp only
      -- either the call is over, or another round follows
      by_cases another :
          reading.size - (count - lead.length) ≠ 0 ∧
            (reading.out ++ rest.take (count - lead.length) = [] ∨
              request.remainder ≠ [])
      · have stillUnfinished : rest.drop (count - lead.length) ≠ [] := by
          intro finished
          rcases another with ⟨room, noBytes | some⟩
          · rw [List.append_eq_nil_iff, List.take_eq_nil_iff] at noBytes
            rw [List.drop_eq_nil_iff] at finished
            rcases noBytes.2 with none | empty
            · omega
            · exact unfinished empty
          · rcases modest with few | nothing
            · rw [List.drop_eq_nil_iff] at finished
              omega
            · rw [← sameBehind, finished, behind] at nothing
              exact some (by simpa using nothing)
        have shorter :
            ([] : Bytes).length + (reading.size - (count - lead.length)) <
              fuel := by
          rw [List.length_nil]
          omega
        have stillModest :
            reading.size - (count - lead.length) ≤
                (rest.drop (count - lead.length)).length ∨
              behind [] (rest.drop (count - lead.length)) request = [] := by
          rcases modest with few | nothing
          · left
            rw [List.length_drop]
            omega
          · right
            rw [sameBehind, nothing]
        obtain ⟨more, lastRequest, lastWorld, morePositive, moreSize,
          moreRest, rest', lastBehind, last⟩ :=
          @inductionHypothesis [] _
            { request := request
              world := world
              out := reading.out ++ rest.take (count - lead.length)
              size := reading.size - (count - lead.length) }
            next stillUnfinished another.1 another.2 (Or.inr rfl) stillModest
            shorter
        refine ⟨count - lead.length + more, lastRequest, lastWorld, by omega,
          by dsimp only at moreSize; omega,
          by rw [List.length_drop] at moreRest; omega, ?_, ?_, ?_⟩
        · rw [rest']
          simp only [List.append_assoc, List.take_add, Nat.sub_sub]
        · rw [← List.drop_drop, lastBehind, sameBehind]
        · rw [← List.drop_drop]
          exact last
      · have taken : 0 < count - lead.length := by
          rcases fresh with noBytes | none
          · by_contra nothing
            have none : count - lead.length = 0 := by
              omega
            apply another
            rw [none, noBytes]
            exact ⟨asked, Or.inl rfl⟩
          · simpa [none] using positive
        refine ⟨count - lead.length, request, world, taken, by omega,
          by omega, ?_, sameBehind, next⟩
        cases fuel with
        | zero =>
            omega
        | succ fuel =>
            rw [requestReadFrom, if_neg another]

/-- Nothing can be read behind the body. -/
theorem requestReadFrom_finished
    {reading : BodyReading σ}
    (positioned :
      Positioned framing length [] [] later reading.request reading.world)
    (asked : reading.size ≠ 0)
    (goesOn : reading.out = [] ∨ reading.request.remainder ≠ [])
    (fuel : Nat) (ended : Int × BodyReading σ) :
    requestReadFrom http fuel reading ≠ .ok ended := by
  intro ran
  cases fuel with
  | zero =>
      cases ran
  | succ fuel =>
      rw [requestReadFrom, if_pos ⟨asked, goesOn⟩, readRound, takeInbuf,
        bodyLeft_eq positioned] at ran
      by_cases cached : reading.request.remainder = []
      · simp [cached, tcpSocketRead] at ran
      · simp [cached] at ran

/-- A call that asks for more than the body runs into what is behind it. -/
theorem requestReadFrom_greedy
    (fuel : Nat) :
    ∀ {lead rest : Bytes} {reading : BodyReading σ},
      Positioned framing length lead rest later reading.request reading.world →
        rest ≠ [] →
        rest.length < reading.size →
        behind lead rest reading.request ≠ [] →
          ∀ ended, requestReadFrom http fuel reading ≠ .ok ended := by
  induction fuel with
  | zero =>
      intro lead rest reading _ _ _ _ ended ran
      cases ran
  | succ fuel inductionHypothesis =>
      intro lead rest reading positioned unfinished greedy cached ended ran
      have nonempty : 0 < rest.length := List.length_pos_iff.mpr unfinished
      have long :
          lead.length + rest.length < reading.request.remainder.length := by
        simpa [behind, ← List.length_pos_iff] using cached
      have filled : reading.request.remainder ≠ [] := by
        rw [← List.length_pos_iff]
        omega
      have asked : reading.size ≠ 0 := by
        omega
      obtain ⟨count, request, world, positive, most, cachedCount, round,
        remainder, next⟩ := readRound_eq positioned unfinished asked
      have all : count = rest.length := by
        rw [cachedCount filled]
        omega
      rw [requestReadFrom, if_pos ⟨asked, Or.inr filled⟩, round,
        ok_bind] at ran
      dsimp only at ran
      have stillFilled : request.remainder ≠ [] := by
        rw [remainder, ← List.length_pos_iff, List.length_drop]
        omega
      rcases positioned.lead with none | ⟨feed, -⟩
      · have finished : rest.drop (count - lead.length) = [] := by
          rw [List.drop_eq_nil_iff, none, all, List.length_nil]
          omega
        rw [finished, none, List.drop_nil] at next
        refine requestReadFrom_finished next ?_ (Or.inr stillFilled) fuel _
          ran
        dsimp only
        omega
      · have noLead : lead.drop count = [] := by
          rw [List.drop_eq_nil_iff, feed, List.length_singleton]
          omega
        have feedLength : lead.length = 1 := by
          rw [feed, List.length_singleton]
        rw [noLead] at next
        refine inductionHypothesis next ?_ ?_ ?_ _ ran
        · rw [ne_eq, List.drop_eq_nil_iff]
          omega
        · rw [List.length_drop]
          dsimp only
          omega
        · rw [behind, remainder, ne_eq, List.drop_eq_nil_iff,
            List.length_drop, List.length_drop, List.length_nil]
          omega

end Call

/-!
## Sequences of calls
-/

/--
The calls return the bytes of `rest` in order, each call some of them while
there are any and none behind them, and leave `cached` behind them in the
remainder.
-/
def Exact (http : HttpParser σ) (cached later : Bytes) :
    List Nat → Bytes → Request σ → World → Prop
  | [], _, _, _ => True
  | size :: sizes, rest, request, world =>
      ∃ result reading,
        ReadsTo http request world size result reading ∧
          reading.out = rest.take reading.out.length ∧
          reading.out.length ≤ size ∧
          (rest ≠ [] → 0 < result ∧ result = reading.out.length) ∧
          (rest = [] → result ≤ 0) ∧
          reading.request.remainder ++ reading.world.input =
            rest.drop reading.out.length ++ later ∧
          reading.request.remainder.drop
              (rest.length - reading.out.length) =
            cached ∧
          Exact http cached later sizes (rest.drop reading.out.length)
            reading.request reading.world

/-- The line feed that is left of a head before its body is read. -/
def feed (request : Request σ) : Nat :=
  if request.bodyNread = 0 then 1 else 0

/--
The body is not finished, and the call asks for no more than is left of it or
nothing is cached behind it.
-/
def Modest (request : Request σ) (size : Nat) : Prop :=
  request.bodyNread < request.contentLength ∧
    (size ≤ request.contentLength - request.bodyNread ∨
      request.remainder.length ≤
        feed request + (request.contentLength - request.bodyNread))

instance (request : Request σ) (size : Nat) :
    Decidable (Modest request size) :=
  inferInstanceAs (Decidable (_ ∧ (_ ∨ _)))

/-- All calls of a row are modest in the states in which they are made. -/
def AllModest (http : HttpParser σ) :
    List Nat → Request σ → World → Prop
  | [], _, _ => True
  | size :: sizes, request, world =>
      Modest request size ∧
        ∀ result reading,
          ReadsTo http request world size result reading →
            AllModest http sizes reading.request reading.world

section Run

variable {http : HttpParser σ} {framing : http.LengthFraming}
variable {length : Nat}
variable {later lead rest : Bytes} {request : Request σ} {world : World}

/-- A modest call of a positioned request returns the next bytes. -/
theorem readsTo_of_modest
    {size : Nat}
    (positioned : Positioned framing length lead rest later request world)
    (feeds : lead.length = feed request)
    (asked : 0 < size)
    (modest : Modest request size) :
    ∃ count reading,
      0 < count ∧ count ≤ size ∧ count ≤ rest.length ∧
        ReadsTo http request world size count reading ∧
        reading.out = rest.take count ∧
        behind [] (rest.drop count) reading.request =
          behind lead rest request ∧
        Positioned framing length [] (rest.drop count) later reading.request
          reading.world ∧
        feed reading.request = 0 := by
  have left := positioned.left
  obtain ⟨unfinished, bounded⟩ := modest
  rw [positioned.contentLength] at unfinished bounded
  have nonempty : rest ≠ [] := by
    rw [← List.length_pos_iff]
    omega
  have modest :
      size ≤ rest.length ∨ behind lead rest request = [] := by
    rcases bounded with few | short
    · left
      omega
    · right
      rw [behind, List.drop_eq_nil_iff]
      omega
  obtain ⟨count, next, after, positive, most, mostRest, ran, sameBehind,
    nextPositioned⟩ :=
    @requestReadFrom_eq σ http framing length later (lead.length + size + 1)
      lead rest
      { request := request, world := world, out := [], size := size }
      positioned nonempty (Nat.pos_iff_ne_zero.mp asked) (Or.inl rfl)
      (Or.inl rfl) modest (Nat.lt_succ_self _)
  refine
    ⟨count,
      { request := next
        world := after
        out := [] ++ rest.take count
        size := size - count },
      positive, most, mostRest, ⟨lead.length + size + 1, ?_⟩, rfl,
      sameBehind, nextPositioned, ?_⟩
  · have framed : request.contentLength ≠ 0 := by
      rw [positioned.contentLength]
      exact_mod_cast positioned.positive.ne'
    rw [requestRead, if_neg (fun refused => framed refused.1), ran]
    rw [List.nil_append, List.length_take, Nat.min_eq_left mostRest]
  · have nextLeft := nextPositioned.left
    rw [List.length_drop] at nextLeft
    rw [feed, if_neg]
    dsimp only
    omega

/-- A call that is not modest does not return more of the body. -/
theorem not_readsTo_of_not_modest
    {size : Nat} {result : Int} {reading : BodyReading σ}
    (positioned : Positioned framing length lead rest later request world)
    (feeds : lead.length = feed request)
    (asked : 0 < size)
    (immodest : ¬ Modest request size) :
    ¬ ReadsTo http request world size result reading := by
  rintro ⟨fuel, ran⟩
  have framed : request.contentLength ≠ 0 := by
    rw [positioned.contentLength]
    exact_mod_cast positioned.positive.ne'
  have left := positioned.left
  rw [requestRead, if_neg (fun refused => framed refused.1)] at ran
  rw [Modest, positioned.contentLength] at immodest
  by_cases finished : rest = []
  · have leadNone : lead = [] := by
      rcases positioned.lead with none | ⟨-, some⟩
      · exact none
      · exact absurd finished some
    subst finished leadNone
    exact
      @requestReadFrom_finished σ http framing length later
        { request := request, world := world, out := [], size := size }
        positioned (Nat.pos_iff_ne_zero.mp asked) (Or.inl rfl) fuel _ ran
  · have nonempty : 0 < rest.length := List.length_pos_iff.mpr finished
    have greedy : rest.length < size := by
      by_contra few
      apply immodest
      refine ⟨?_, Or.inl ?_⟩
      · omega
      · omega
    have cached : behind lead rest request ≠ [] := by
      intro none
      apply immodest
      rw [behind, List.drop_eq_nil_iff] at none
      refine ⟨?_, Or.inr ?_⟩
      · omega
      · omega
    exact
      @requestReadFrom_greedy σ http framing length later fuel lead rest
        { request := request, world := world, out := [], size := size }
        positioned finished greedy cached _ ran

end Run

/-- Calls deliver the body exactly if all of them are modest. -/
theorem exact_iff_allModest
    {http : HttpParser σ} {framing : http.LengthFraming} {length : Nat}
    {later cached : Bytes} (sizes : List Nat) :
    ∀ {lead rest : Bytes} {request : Request σ} {world : World},
      Positioned framing length lead rest later request world →
        lead.length = feed request →
        behind lead rest request = cached →
        (∀ size ∈ sizes, 0 < size) →
          (Exact http cached later sizes rest request world ↔
            AllModest http sizes request world) := by
  induction sizes with
  | nil =>
      intro lead rest request world _ _ _ _
      exact Iff.rfl
  | cons size sizes inductionHypothesis =>
      intro lead rest request world positioned feeds isCached asked
      have askedFirst := asked size (List.mem_cons_self ..)
      have askedRest : ∀ later ∈ sizes, 0 < later := fun later member =>
        asked later (List.mem_cons_of_mem _ member)
      constructor
      · rintro ⟨result, reading, readsTo, -, -, -, -, -, -, rest'⟩
        have modest : Modest request size := by
          by_contra immodest
          exact not_readsTo_of_not_modest positioned feeds askedFirst
            immodest readsTo
        obtain ⟨count, next, -, -, mostRest, nextReadsTo, out, sameBehind,
          nextPositioned, nextFeed⟩ :=
          readsTo_of_modest positioned feeds askedFirst modest
        refine ⟨modest, fun otherResult other otherReadsTo => ?_⟩
        obtain ⟨-, rfl⟩ := nextReadsTo.unique otherReadsTo
        obtain ⟨-, rfl⟩ := readsTo.unique otherReadsTo
        have length : other.out.length = count := by
          rw [out, List.length_take, Nat.min_eq_left mostRest]
        rw [length] at rest'
        exact
          (inductionHypothesis nextPositioned nextFeed.symm
            (sameBehind.trans isCached) askedRest).mp rest'
      · rintro ⟨modest, rest'⟩
        obtain ⟨count, next, positive, most, mostRest, readsTo, out,
          sameBehind, nextPositioned, nextFeed⟩ :=
          readsTo_of_modest positioned feeds askedFirst modest
        have length : next.out.length = count := by
          rw [out, List.length_take, Nat.min_eq_left mostRest]
        have lengthRest :
            (rest.drop count).length = rest.length - count :=
          List.length_drop
        refine ⟨count, next, readsTo, by rw [length, out], by omega,
          fun _ => ⟨by omega, by omega⟩, fun finished => ?_, ?_, ?_, ?_⟩
        · simp only [finished, List.length_nil] at mostRest
          omega
        · rw [length]
          exact nextPositioned.stream
        · rw [length, ← lengthRest, ← isCached, ← sameBehind, behind]
          simp
        · rw [length]
          exact
            (inductionHypothesis nextPositioned nextFeed.symm
              (sameBehind.trans isCached) askedRest).mpr
              (rest' _ _ readsTo)

/-!
## Accepted requests
-/

/-- A number that is not out of range fits into 64 bits with a sign. -/
theorem range_of_converted
    {digits : Bytes} {number value : Int}
    (converted :
      (if digits = [] then .badarg
        else if number < - 2 ^ 63 ∨ 2 ^ 63 ≤ number then .overflow
        else .ok number) = Converted.ok value) :
    value < 2 ^ 63 := by
  split at converted
  · cases converted
  · split at converted
    · cases converted
    · next within =>
        cases converted
        omega

/-- A converted text does. -/
theorem dfkStrtoll_range
    {text : Bytes} {value : Int}
    (converted : dfkStrtoll text = .ok value) :
    value < 2 ^ 63 := by
  rw [dfkStrtoll] at converted
  split at converted
  · cases converted
  · rw [strtoll] at converted
    exact range_of_converted converted

/-- So does the length of a request. -/
theorem requestLength_range (headers : Headers) (chunked : Bool) :
    requestLength headers chunked < 2 ^ 63 := by
  have given : givenLength headers < 2 ^ 63 := by
    rw [givenLength]
    split
    · decide
    · decide
    · split
      · next converted =>
          exact dfkStrtoll_range converted
      · decide
  rw [requestLength]
  split
  · decide
  · exact given

/-- Where an accepted request stands whose length was found. -/
theorem Accepted.positioned
    {http : HttpParser σ} (framing : http.LengthFraming)
    {request : Request σ} {world : World} {length : Nat}
    {body later : Bytes}
    (accepted : Accepted http request)
    (delivering : world.Delivering)
    (framed : http.contentLength request.parser.state = some length)
    (positive : 0 < length)
    (plain : http.chunked request.parser.state = false)
    (found : request.contentLength = length)
    (stream : request.remainder ++ world.input = 10 :: (body ++ later))
    (whole : body.length = length) :
    Positioned framing length [10] body later request world where
  awaits := by
    intro _
    obtain ⟨before, bytes, stop, member, ends, resume⟩ := accepted.stopsAt
    refine ⟨accepted.ready, ?_⟩
    rw [← resume] at framed ⊢
    rw [whole]
    rcases ends with headed | completed
    · exact framing.headed member headed framed
    · rw [framing.completed member completed] at framed
      cases framed
  stream := stream
  lead := by
    refine Or.inr ⟨rfl, ?_⟩
    rw [← List.length_pos_iff]
    omega
  contentLength := found
  left := by
    rw [accepted.unread, whole, Nat.zero_add]
  range := by
    have range := requestLength_range request.headers request.chunked
    rw [← accepted.contentLength, found] at range
    exact_mod_cast range
  positive := positive
  plain := accepted.chunked.trans plain
  delivering := delivering

/--
The calls deliver the body of an accepted request exactly if none of them is
made when the body is finished, and none asks for more than is left of it
while bytes behind it are cached.
-/
theorem body_delivered_iff
    {http : HttpParser σ} (framing : http.LengthFraming)
    {config : Config} {memory : Nat → Nat → UInt8} {fuel : Nat}
    {start world : World} {request : Request σ} {length : Nat}
    {body later : Bytes} {sizes : List Nat}
    (read :
      readHeaders http config memory fuel start =
        .ok (.ok, request, world))
    (delivering : start.Delivering)
    (framed : http.contentLength request.parser.state = some length)
    (positive : 0 < length)
    (plain : http.chunked request.parser.state = false)
    (found : request.contentLength = length ∨ request.contentLength = 0)
    (stream : request.remainder ++ world.input = 10 :: (body ++ later))
    (whole : body.length = length)
    (asked : ∀ size ∈ sizes, 0 < size) :
    Exact http (request.remainder.drop (1 + length)) later sizes body request
        world ↔
      AllModest http sizes request world := by
  obtain ⟨accepted, readOn⟩ := readHeaders_accepted read
  rcases found with found | missing
  · have positioned :=
      accepted.positioned framing (readOn.delivering delivering) framed
        positive plain found stream whole
    have feeds : ([10] : Bytes).length = feed request := by
      rw [feed, accepted.unread]
      rfl
    have cached :
        behind [10] body request = request.remainder.drop (1 + length) := by
      rw [behind, whole, List.length_singleton]
    exact exact_iff_allModest sizes positioned feeds cached asked
  · cases sizes with
    | nil =>
        exact Iff.rfl
    | cons size sizes =>
        constructor
        · rintro ⟨result, reading, ⟨enough, ran⟩, -, -, progress, -⟩
          rw [requestRead, if_pos ⟨missing, accepted.chunked.trans plain⟩]
            at ran
          cases ran
          have nonempty : body ≠ [] := by
            rw [← List.length_pos_iff]
            omega
          have positiveResult := (progress nonempty).1
          omega
        · rintro ⟨⟨unfinished, -⟩, -⟩
          rw [missing] at unfinished
          omega

/-!
## A parser of one head
-/

section OneHead

variable {head bytes lead : Bytes} {callbacks : List Callback}
variable {length remaining : Nat} {before : HeadState} {stop : Stop HeadState}

/-- The parser of one head stops at its end. -/
theorem oneHead_headed
    (member :
      stop ∈ ((oneHead head callbacks length).execute before bytes).stops)
    (headed : stop.callback = .headersComplete)
    (framed :
      (oneHead head callbacks length).contentLength stop.resume =
        some remaining) :
    stop.resume = .body ([10] : Bytes).length remaining ∧
      ([10] : Bytes).length ≤ 1 := by
  cases before with
  | head =>
      simp only [oneHead] at member framed
      split at member
      · obtain ⟨callback, -, rfl⟩ := List.mem_map.mp member
        cases framed
        exact ⟨rfl, Nat.le_refl _⟩
      · cases member
  | body skip left =>
      simp only [oneHead, executeBody] at member
      split at member
      · dsimp only at member
        split at member
        · cases member
        · rw [List.mem_singleton.mp member] at headed
          cases headed
      · rcases List.mem_append.mp member with isBody | isEnd
        · split at isBody
          · cases isBody
          · rw [List.mem_singleton.mp isBody] at headed
            cases headed
        · rw [List.mem_singleton.mp isEnd] at headed
          cases headed
  | done =>
      cases member

/-- The parser of one head awaits no body behind a message. -/
theorem oneHead_completed
    (heads : .messageComplete ∉ callbacks)
    (member :
      stop ∈ ((oneHead head callbacks length).execute before bytes).stops)
    (completed : stop.callback = .messageComplete) :
    (oneHead head callbacks length).contentLength stop.resume = none := by
  cases before with
  | head =>
      simp only [oneHead] at member
      split at member
      · obtain ⟨callback, isCallback, rfl⟩ := List.mem_map.mp member
        rw [← completed] at heads
        exact absurd isCallback heads
      · cases member
  | body skip left =>
      simp only [oneHead, executeBody] at member ⊢
      split at member
      · dsimp only at member
        split at member
        · cases member
        · rw [List.mem_singleton.mp member] at completed
          cases completed
      · rcases List.mem_append.mp member with isBody | isEnd
        · split at isBody
          · cases isBody
          · rw [List.mem_singleton.mp isBody] at completed
            cases completed
        · rw [List.mem_singleton.mp isEnd]
  | done =>
      cases member

/-- The parser of one head hands over a part of a body in one piece. -/
theorem oneHead_part
    (atMostOne : lead.length ≤ 1)
    (short : bytes.length < lead.length + remaining) :
    ∃ next resume,
      (next = .body (lead.drop bytes.length).length
            (remaining - (bytes.length - lead.length)) ∧
          (lead.drop bytes.length).length ≤ 1) ∧
        (oneHead head callbacks length).execute
            (.body lead.length remaining) bytes =
          { stops :=
              if bytes.length ≤ lead.length then []
              else
                [⟨.body ⟨lead.length, bytes.length - lead.length⟩,
                  bytes.length, resume⟩]
            nparsed := bytes.length
            failed := false
            final := next } := by
  simp only [oneHead, executeBody, if_pos short]
  refine ⟨_, _, ⟨?_, ?_⟩, rfl⟩
  · rw [List.length_drop]
  · rw [List.length_drop]
    omega

/-- The parser of one head hands over the end of a body first. -/
theorem oneHead_whole
    (positive : 0 < remaining)
    (long : lead.length + remaining ≤ bytes.length) :
    ∃ nparsed between resume later,
      ((oneHead head callbacks length).execute
            (.body lead.length remaining) bytes).stops =
        ⟨.body ⟨lead.length, remaining⟩, nparsed, between⟩ ::
          ⟨.messageComplete, lead.length + remaining, resume⟩ :: later := by
  simp only [oneHead, executeBody]
  rw [if_neg (by omega), if_neg (by omega)]
  exact ⟨_, _, _, _, rfl⟩

end OneHead

/-- The parser of one head goes through bodies as it should. -/
def oneHeadFraming
    (head : Bytes) (callbacks : List Callback) (length : Nat)
    (heads : .messageComplete ∉ callbacks) :
    (oneHead head callbacks length).LengthFraming where
  Awaits := fun state lead remaining =>
    state = .body lead.length remaining ∧ lead.length ≤ 1
  headed := oneHead_headed
  completed := oneHead_completed heads
  part := fun awaits _ short => awaits.1 ▸ oneHead_part awaits.2 short
  whole := fun awaits _ positive long => awaits.1 ▸ oneHead_whole positive long

/-- A head with a body of three bytes. -/
def lengthHead : Bytes :=
  ascii "GET / HTTP/1.1\r\nContent-Length: 3\r\n\r\n"

/-- How the parser calls back on it. -/
def lengthCallbacks : List Callback :=
  [.messageBegin, .url ⟨4, 1⟩, .headerField ⟨16, 14⟩, .headerValue ⟨32, 1⟩,
    .headersComplete]

/-- A parser of it. -/
def lengthParser : HttpParser HeadState :=
  oneHead lengthHead lengthCallbacks 3

/-- Buffers of 64 bytes. -/
def largeBuffers : Config where
  keepaliveRequests := -1
  headerMaxSize := 16
  headersBufferSize := 64
  headersBufferCount := 2

/-- The request once its head is read, with some bytes cached behind it. -/
def lengthRequest (remainder : Bytes) : Request HeadState :=
  { Request.init lengthParser with
    majorVersion := 1
    minorVersion := 1
    method := 1
    url := ascii "/"
    path := ascii "/"
    contentLength := 3
    keepalive := true
    headers :=
      Headers.insert .leaf
        { name := contentLengthName, value := ascii "3" }
    remainder := remainder
    parser := { state := .body 1 3, httpErrno := .ok } }

/-- A body of three bytes is delivered in two calls, bytes cached behind it. -/
theorem body_delivered_iff_abc :
    Exact lengthParser (ascii "GET") (ascii "GET") [2, 1] (ascii "abc")
        (lengthRequest (ascii "\nabcGET")) (sending [] []) ↔
      AllModest lengthParser [2, 1] (lengthRequest (ascii "\nabcGET"))
        (sending [] []) := by
  have read :
      readHeaders lengthParser largeBuffers (fun _ _ => 0) 1
          (sending (lengthHead ++ ascii "abcGET") []) =
        .ok (.ok, lengthRequest (ascii "\nabcGET"), sending [] []) := by
    decide
  exact
    body_delivered_iff
      (oneHeadFraming lengthHead lengthCallbacks 3 (by decide)) read
      (delivering_sending _) rfl (by decide) rfl (Or.inl rfl)
      (by decide : _ = 10 :: (ascii "abc" ++ ascii "GET")) (by decide)
      (by decide)

/--
A call that asks for a byte more than the body finds the next request cached
and fails an assertion, and so does a call when the body has been read.
-/
theorem body_not_delivered :
    (readHeaders lengthParser largeBuffers (fun _ _ => 0) 1
          (sending (lengthHead ++ ascii "abcGET") []) =
        .ok (.ok, lengthRequest (ascii "\nabcGET"), sending [] []) ∧
      ¬ Exact lengthParser (ascii "GET") (ascii "GET") [4] (ascii "abc")
          (lengthRequest (ascii "\nabcGET")) (sending [] [])) ∧
    (readHeaders lengthParser largeBuffers (fun _ _ => 0) 1
          (sending (lengthHead ++ ascii "abc") []) =
        .ok (.ok, lengthRequest (ascii "\nabc"), sending [] []) ∧
      ¬ Exact lengthParser [] [] [3, 3] (ascii "abc")
          (lengthRequest (ascii "\nabc")) (sending [] [])) := by
  have piped :
      readHeaders lengthParser largeBuffers (fun _ _ => 0) 1
          (sending (lengthHead ++ ascii "abcGET") []) =
        .ok (.ok, lengthRequest (ascii "\nabcGET"), sending [] []) := by
    decide
  have alone :
      readHeaders lengthParser largeBuffers (fun _ _ => 0) 1
          (sending (lengthHead ++ ascii "abc") []) =
        .ok (.ok, lengthRequest (ascii "\nabc"), sending [] []) := by
    decide
  have positioned
      {remainder later : Bytes}
      (accepted : Accepted lengthParser (lengthRequest remainder))
      (stream : remainder = 10 :: (ascii "abc" ++ later)) :
      Positioned (oneHeadFraming lengthHead lengthCallbacks 3 (by decide)) 3
        [10] (ascii "abc") later (lengthRequest remainder)
        (sending [] []) := by
    refine accepted.positioned _ (delivering_sending _) rfl (by decide) rfl
      rfl ?_ (by decide)
    rw [← stream]
    exact List.append_nil _
  refine ⟨⟨piped, fun exactly => ?_⟩, alone, fun exactly => ?_⟩
  · obtain ⟨result, reading, readsTo, -⟩ := exactly
    have pipedPositioned :=
      positioned (readHeaders_accepted piped).1
        (by decide : _ = 10 :: (ascii "abc" ++ ascii "GET"))
    exact not_readsTo_of_not_modest pipedPositioned rfl (by decide)
      (by decide) readsTo
  · have alonePositioned :=
      positioned (readHeaders_accepted alone).1
        (by decide : _ = 10 :: (ascii "abc" ++ []))
    obtain ⟨-, afterFirst⟩ :=
      (exact_iff_allModest [3, 3] alonePositioned rfl rfl (by decide)).mp
        exactly
    have finished := (afterFirst 3 _ ⟨5, rfl⟩).1.1
    revert finished
    decide

end Dfk.Http
