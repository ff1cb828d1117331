import Dfk.Http.Segmentation

/-!
# Rounds of the loop

The states in which the loop of `dfk__http_request_read_headers` begins a
round, and what the parser comes to in it.
-/

namespace Dfk.Http

variable {σ : Type}

/-- What the parser is called with in a round of the loop. -/
structure HeadInput where
  received : Bytes
  given : Bytes
  data : HeaderData
  world : World
  deriving Repr, DecidableEq

/-- What the parser is called with in a round, if it is called. -/
def headInput (config : Config) (reading : Reading σ) : Option HeadInput :=
  if reading.curbuf.size < config.headerMaxSize then none
  else
    match tcpSocketRead reading.world reading.curbuf.size with
    | .ok (some (byte :: bytes), world) =>
        match fillBuf reading.data reading.curbuf (byte :: bytes) with
        | .ok (given, data) =>
            some
              { received := byte :: bytes
                given := given
                data := data
                world := world }
        | .error _ => none
    | _ => none

/-- What `http_parser_execute` has come to in a round of the loop. -/
structure HeadCall (σ : Type) where
  received : Bytes
  nparsed : Nat
  parser : Parser σ
  data : HeaderData
  world : World
  deriving Repr, DecidableEq

/-- The call of `http_parser_execute` in a round, if it returns. -/
def headCall (http : HttpParser σ) (config : Config) (reading : Reading σ) :
    Option (HeadCall σ) :=
  match headInput config reading with
  | none => none
  | some input =>
      match http.run (onHead config) reading.parser input.given
          input.data with
      | .ok (nparsed, parser, data) =>
          some
            { received := input.received
              nparsed := nparsed
              parser := parser
              data := data
              world := input.world }
      | .error _ => none

/-- The state in which the next round begins, if there is one. -/
def headRound (http : HttpParser σ) (config : Config)
    (memory : Nat → Nat → UInt8) (reading : Reading σ) :
    Option (Reading σ) :=
  match headCall http config reading with
  | none => none
  | some call =>
      match afterExecute config memory reading.curbuf call.received
          call.nparsed call.parser call.data with
      | .ok (.next parser data curbuf) =>
          some
            { parser := parser
              data := data
              curbuf := curbuf
              world := call.world }
      | _ => none

/-- The states in which rounds begin, from one on. -/
def readingsFrom (http : HttpParser σ) (config : Config)
    (memory : Nat → Nat → UInt8) : Nat → Reading σ → List (Reading σ)
  | 0, _ => []
  | fuel + 1, reading =>
      reading ::
        match headRound http config memory reading with
        | none => []
        | some next => readingsFrom http config memory fuel next

/-- The states in which rounds of `dfk__http_request_read_headers` begin. -/
def readings (http : HttpParser σ) (config : Config)
    (memory : Nat → Nat → UInt8) (fuel : Nat) (world : World) :
    List (Reading σ) :=
  match allocateHeadersBuf config memory (noHeaders world.allocations) with
  | (none, _) => []
  | (some curbuf, data) =>
      readingsFrom http config memory fuel
        { parser := { state := http.init, httpErrno := .ok }
          data := data
          curbuf := curbuf
          world := world }

/-- What a round has gone through up to the call of the parser. -/
theorem headInput_eq_some
    {config : Config} {reading : Reading σ} {input : HeadInput}
    (isInput : headInput config reading = some input) :
    config.headerMaxSize ≤ reading.curbuf.size ∧
      input.received ≠ [] ∧
      tcpSocketRead reading.world reading.curbuf.size =
        .ok (some input.received, input.world) ∧
      fillBuf reading.data reading.curbuf input.received =
        .ok (input.given, input.data) := by
  rw [headInput] at isInput
  split at isInput
  · cases isInput
  · next room =>
      split at isInput
      · next byte bytes world read =>
          split at isInput
          · next given data filled =>
              cases isInput
              exact ⟨Nat.le_of_not_lt room, List.cons_ne_nil _ _, read,
                filled⟩
          · cases isInput
      · cases isInput

/-- What a call of the parser has gone through. -/
theorem headCall_eq_some
    {http : HttpParser σ} {config : Config} {reading : Reading σ}
    {call : HeadCall σ}
    (called : headCall http config reading = some call) :
    ∃ input,
      headInput config reading = some input ∧
        call.received = input.received ∧
        call.world = input.world ∧
        http.run (onHead config) reading.parser input.given input.data =
          .ok (call.nparsed, call.parser, call.data) := by
  rw [headCall] at called
  split at called
  · cases called
  · next input isInput =>
      split at called
      · next nparsed parser data ran =>
          cases called
          exact ⟨input, isInput, rfl, rfl, ran⟩
      · cases called

/-- What a round that goes on has gone through. -/
theorem headRound_eq_some
    {http : HttpParser σ} {config : Config} {memory : Nat → Nat → UInt8}
    {reading next : Reading σ}
    (round : headRound http config memory reading = some next) :
    ∃ call switchedBuf,
      headCall http config reading = some call ∧
        call.nparsed ≤ call.received.length ∧
        call.parser.httpErrno = .ok ∧
        switchBuf config memory call.nparsed call.data reading.curbuf =
          .ok (.ok (next.data, switchedBuf)) ∧
        next =
          { parser := call.parser
            data := next.data
            curbuf :=
              { data :=
                  { switchedBuf.data with
                    offset := switchedBuf.data.offset + call.nparsed }
                size := switchedBuf.size - call.nparsed }
            world := call.world } := by
  rw [headRound] at round
  split at round
  · cases round
  · next call called =>
      split at round
      · next parser data curbuf after =>
          cases round
          obtain ⟨_, within, after⟩ := of_bind after
          cases errno : call.parser.httpErrno with
          | ok =>
              simp only [errno] at after
              obtain ⟨switch, switched, after⟩ := of_bind after
              rcases switch with ⟨err, stop⟩ | ⟨later, switchedBuf⟩
              · cases after
              · cases after
                exact ⟨call, switchedBuf, called, of_check within, errno,
                  switched, rfl⟩
          | paused | callback | protocol =>
              simp only [errno] at after
              cases after
      · cases round

/-- The loop goes on from the state in which the next round begins. -/
theorem readHeadersFrom_of_headRound
    {http : HttpParser σ} {config : Config} {memory : Nat → Nat → UInt8}
    {reading next : Reading σ} (fuel : Nat)
    (round : headRound http config memory reading = some next) :
    (readHeadersFrom http config memory (fuel + 1) reading).2 =
      (readHeadersFrom http config memory fuel next).2 := by
  rw [headRound] at round
  split at round
  · cases round
  · next call called =>
      split at round
      · next parser data curbuf after =>
          cases round
          obtain ⟨input, isInput, sameReceived, sameWorld, ran⟩ :=
            headCall_eq_some called
          obtain ⟨room, notEmpty, read, filled⟩ :=
            headInput_eq_some isInput
          obtain ⟨byte, bytes, isReceived⟩ :=
            List.exists_cons_of_ne_nil notEmpty
          rw [sameReceived] at after
          rw [isReceived] at read filled after
          simp only [readHeadersFrom, if_neg (Nat.not_lt_of_le room), read,
            filled, execute, ran, ok_bind, after, sameWorld]
      · cases round

/-- Without another round the loop ends in this one. -/
theorem readHeadersFrom_of_last
    {http : HttpParser σ} {config : Config} {memory : Nat → Nat → UInt8}
    {reading : Reading σ} (fuel : Nat)
    (last : headRound http config memory reading = none) :
    readHeadersFrom http config memory (fuel + 1) reading =
      readHeadersFrom http config memory 1 reading := by
  simp only [readHeadersFrom]
  split
  · rfl
  · next room =>
      split
      · rfl
      · rfl
      · rfl
      · next received world notEmpty read =>
          split
          · rfl
          · next given filled isFilled =>
              split
              · rfl
              · rfl
              · next parser data curbuf executed =>
                  obtain ⟨byte, bytes, rfl⟩ :=
                    List.exists_cons_of_ne_nil notEmpty
                  obtain ⟨⟨nparsed, stopped, between⟩, ran, after⟩ :=
                    of_bind executed
                  simp only [headRound, headCall, headInput, if_neg room,
                    read, isFilled, ran, after] at last
                  cases last

/-!
## The first round
-/

/-- The state in which the first round begins. -/
def firstReading (http : HttpParser σ) (config : Config)
    (memory : Nat → Nat → UInt8) (world : World) : Reading σ where
  parser := { state := http.init, httpErrno := .ok }
  data := withBuffer config memory world
  curbuf := firstBuf config
  world := world

/-- What the parser is called with in the first round. -/
def firstInput (config : Config) (memory : Nat → Nat → UInt8)
    (world : World) : HeadInput where
  received := firstRead config world
  given := firstGiven config memory world
  data := firstData config memory world
  world := afterFirst config world

section First

variable {http : HttpParser σ} {config : Config}
variable {memory : Nat → Nat → UInt8} {world : World}

/-- The first round reads what comes first. -/
theorem tcpSocketRead_first
    (room : config.headerMaxSize ≤ config.headersBufferSize)
    (positive : 0 < config.headerMaxSize)
    (read : firstRead config world ≠ []) :
    tcpSocketRead world config.headersBufferSize =
      .ok (some (firstRead config world), afterFirst config world) := by
  rcases moves :
      (World.moved config.headersBufferSize world.reads
        world.waits).1 with _ | count
  · rw [firstRead, moves] at read
    simp at read
  · rw [tcpSocketRead_eq (by omega), afterFirst, firstRead, moves]
    rfl

/-- With some input the parser is called in the first round. -/
theorem headInput_first
    (room : config.headerMaxSize ≤ config.headersBufferSize)
    (positive : 0 < config.headerMaxSize)
    (read : firstRead config world ≠ []) :
    headInput config (firstReading http config memory world) =
      some (firstInput config memory world) := by
  have size : (firstBuf config).size = config.headersBufferSize := rfl
  have filled := fillBuf_first config memory world
  have reads := tcpSocketRead_first room positive read
  obtain ⟨byte, bytes, isRead⟩ := List.exists_cons_of_ne_nil read
  rw [isRead] at filled reads
  rw [headInput, firstReading, firstInput]
  dsimp only
  rw [if_neg (by rw [size]; omega), size, reads]
  dsimp only
  rw [filled, isRead]

/-- Without input it is not. -/
theorem headInput_eof
    (read : firstRead config world = []) :
    headInput config (firstReading http config memory world) = none := by
  have size : (firstBuf config).size = config.headersBufferSize := rfl
  rw [headInput, firstReading]
  dsimp only
  rw [size]
  split
  · rfl
  · by_cases asked : config.headersBufferSize = 0
    · rw [asked]
      rfl
    · rcases tcpSocketRead_eof asked read with reads | reads
      · rw [reads]
      · rw [reads]

/-- What the parser comes to in the first round. -/
theorem headCall_first
    (room : config.headerMaxSize ≤ config.headersBufferSize)
    (positive : 0 < config.headerMaxSize)
    {call : HeadCall σ}
    (called :
      headCall http config (firstReading http config memory world) =
        some call) :
    firstRead config world ≠ [] ∧
      call.received = firstRead config world ∧
      call.world = afterFirst config world ∧
      http.run (onHead config) { state := http.init, httpErrno := .ok }
          (firstGiven config memory world) (firstData config memory world) =
        .ok (call.nparsed, call.parser, call.data) := by
  obtain ⟨input, isInput, sameReceived, sameWorld, ran⟩ :=
    headCall_eq_some called
  by_cases read : firstRead config world = []
  · rw [headInput_eof read] at isInput
    cases isInput
  · rw [headInput_first room positive read] at isInput
    cases isInput
    exact ⟨read, sameReceived, sameWorld, ran⟩

/-- What the parser comes to is the call of the first round. -/
theorem headCall_of_run
    {nparsed : Nat} {parser : Parser σ} {data : HeaderData}
    (room : config.headerMaxSize ≤ config.headersBufferSize)
    (positive : 0 < config.headerMaxSize)
    (read : firstRead config world ≠ [])
    (ran :
      http.run (onHead config) { state := http.init, httpErrno := .ok }
          (firstGiven config memory world) (firstData config memory world) =
        .ok (nparsed, parser, data)) :
    headCall http config (firstReading http config memory world) =
      some
        { received := firstRead config world
          nparsed := nparsed
          parser := parser
          data := data
          world := afterFirst config world } := by
  rw [headCall, headInput_first room positive read]
  dsimp only [firstInput, firstReading]
  rw [ran]

/-- Behind the first round nothing is left of the buffer. -/
theorem size_of_headRound
    {next : Reading σ}
    (complete : http.Complete)
    (room : config.headerMaxSize ≤ config.headersBufferSize)
    (positive : 0 < config.headerMaxSize)
    (round :
      headRound http config memory (firstReading http config memory world) =
        some next) :
    next.curbuf.size = 0 := by
  obtain ⟨call, switchedBuf, called, -, proceeds, switched, isNext⟩ :=
    headRound_eq_some round
  obtain ⟨-, -, -, ran⟩ := headCall_first room positive called
  have whole := run_all complete rfl ran proceeds
  rw [length_firstGiven] at whole
  have size : switchedBuf.size = config.headersBufferSize := by
    rcases switchBuf_size switched with same | fresh
    · exact same
    · exact fresh
  rw [isNext]
  dsimp only
  rw [size, whole, Nat.sub_self]

/-- Behind the first round at most one more begins, with an empty buffer. -/
theorem readings_succ
    (memory : Nat → Nat → UInt8) (fuel : Nat)
    (complete : http.Complete)
    (room : config.headerMaxSize ≤ config.headersBufferSize)
    (positive : 0 < config.headerMaxSize)
    (allocated : (allocEach 2 world).1 = true) :
    ∃ rest,
      readings http config memory (fuel + 1) world =
          firstReading http config memory world :: rest ∧
        ∀ reading ∈ rest,
          headRound http config memory
                (firstReading http config memory world) =
              some reading ∧
            reading.curbuf.size = 0 := by
  have begins :
      readings http config memory (fuel + 1) world =
        readingsFrom http config memory (fuel + 1)
          (firstReading http config memory world) := by
    rw [readings, allocateHeadersBuf_first, if_pos allocated]
    rfl
  rw [begins, readingsFrom]
  cases round :
      headRound http config memory
        (firstReading http config memory world) with
  | none =>
      exact ⟨[], rfl, nofun⟩
  | some next =>
      have empty := size_of_headRound complete room positive round
      refine ⟨readingsFrom http config memory fuel next, rfl, ?_⟩
      intro reading member
      cases fuel with
      | zero =>
          cases member
      | succ fuel =>
          have last : headRound http config memory next = none := by
            rw [headRound, headCall, headInput, if_pos (by omega)]
          simp only [readingsFrom, last, List.mem_singleton] at member
          rw [member]
          exact ⟨rfl, empty⟩

/-- Rounds begin with the first one, or with nothing left of the buffer. -/
theorem readings_cases
    {fuel : Nat} {reading : Reading σ}
    (complete : http.Complete)
    (room : config.headerMaxSize ≤ config.headersBufferSize)
    (positive : 0 < config.headerMaxSize)
    (member : reading ∈ readings http config memory fuel world) :
    (allocEach 2 world).1 = true ∧
      (reading = firstReading http config memory world ∨
        headRound http config memory (firstReading http config memory world) =
            some reading ∧
          reading.curbuf.size = 0) := by
  by_cases allocated : (allocEach 2 world).1 = true
  · refine ⟨allocated, ?_⟩
    cases fuel with
    | zero =>
        rw [readings, allocateHeadersBuf_first, if_pos allocated] at member
        cases member
    | succ fuel =>
        obtain ⟨rest, isReadings, others⟩ :=
          readings_succ memory fuel complete room positive allocated
        rw [isReadings] at member
        rcases List.mem_cons.mp member with isFirst | later
        · exact Or.inl isFirst
        · exact Or.inr (others reading later)
  · rw [readings, allocateHeadersBuf_first, if_neg allocated] at member
    cases member

end First

end Dfk.Http
