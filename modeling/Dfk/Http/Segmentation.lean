import Dfk.Http.Request

/-!
# Segmentation of request heads

The parser is given the whole buffer whatever was read into it.  So it gets
exactly the bytes received only if the first read fills the buffer; it is never
called again then, and nothing depends on how the rest is delivered.
-/

namespace Dfk.Http

variable {σ : Type}

/-- The calls of the parser hand over the received bytes, once and in order. -/
def HandsExactly (calls : List ParserCall) : Prop :=
  ∀ count,
    (calls.take count).flatMap ParserCall.given =
      (calls.take count).flatMap ParserCall.received

/-- The bytes the first read of a head returns. -/
def firstRead (config : Config) (world : World) : Bytes :=
  world.input.take
    ((World.moved config.headersBufferSize world.reads world.waits).1.getD 0)

/--
Nothing is read, as there is no buffer or no input, or the first read fills
the buffer.
-/
def FirstReadFills (config : Config) (world : World) : Prop :=
  (allocEach 2 world).1 = false ∨ firstRead config world = [] ∨
    (firstRead config world).length = config.headersBufferSize

/-- What the reading of a head comes to. -/
structure Outcome where
  err : Err
  method : Nat
  majorVersion : Nat
  minorVersion : Nat
  url : Bytes
  headers : Headers
  /-- The remainder, and what is still unread. -/
  rest : Bytes
  deriving Repr, DecidableEq

/-- The outcome of reading a head. -/
def outcome (result : Except Fault (Err × Request σ × World)) :
    Except Fault Outcome :=
  result.map fun (err, request, world) =>
    { err := err
      method := request.method
      majorVersion := request.majorVersion
      minorVersion := request.minorVersion
      url := request.url
      headers := request.headers
      rest := request.remainder ++ world.input }

/-- The same bytes are sent, however they are delivered. -/
def SameStream (world other : World) : Prop :=
  other.input = world.input ∧ other.allocations = world.allocations

/-!
## One call of the parser
-/

/-- An execution that nothing stops goes through all bytes. -/
theorem run_all
    {http : HttpParser σ} {config : Config}
    {parser after : Parser σ} {bytes : Bytes} {data later : HeaderData}
    {nparsed : Nat}
    (complete : http.Complete)
    (ready : parser.httpErrno = .ok)
    (ran :
      http.run (onHead config) parser bytes data =
        .ok (nparsed, after, later))
    (proceeds : after.httpErrno = .ok) :
    nparsed = bytes.length := by
  rcases HttpParser.run_cases ready ran with
    ⟨called, count, -, errno⟩ | ⟨-, stopped⟩
  · have noFailure :
        (http.execute parser.state bytes).failed = false := by
      rcases errno with ⟨-, noFailure⟩ | ⟨failed, -⟩
      · exact noFailure
      · rw [proceeds] at failed
        cases failed
    rw [count]
    apply complete parser.state bytes noFailure
    intro stop member completes
    obtain ⟨before, next, handled⟩ :=
      HttpParser.callbacks_none _ called stop member
    rw [completes] at handled
    cases handled
  · exact absurd proceeds stopped

/-- A new buffer has the configured size. -/
theorem allocateHeadersBuf_size
    {config : Config} {memory : Nat → Nat → UInt8}
    {data later : HeaderData} {curbuf : CurBuf}
    (allocated :
      allocateHeadersBuf config memory data = (some curbuf, later)) :
    curbuf.size = config.headersBufferSize := by
  rw [allocateHeadersBuf] at allocated
  split at allocated
  · cases allocated
  · split at allocated
    · cases allocated
    · cases allocated
      rfl

/-- The buffer in use has its old size, or is a new one. -/
theorem switchBuf_size
    {config : Config} {memory : Nat → Nat → UInt8} {nparsed : Nat}
    {data later : HeaderData} {curbuf newBuf : CurBuf}
    (switched :
      switchBuf config memory nparsed data curbuf =
        .ok (.ok (later, newBuf))) :
    newBuf.size = curbuf.size ∨ newBuf.size = config.headersBufferSize := by
  rw [switchBuf] at switched
  split at switched
  · cases switched
    exact Or.inl rfl
  · next field _ =>
      split at switched
      · cases switched
      · split at switched
        · split at switched
          · cases switched
          · split at switched
            · cases switched
            · next newData fresh allocated =>
                rcases moved :
                    moveHeader nparsed field newData.data fresh with
                  fault | between
                · simp [moved] at switched
                · rw [moved] at switched
                  cases switched
                  exact Or.inr (allocateHeadersBuf_size allocated)
        · cases switched
          exact Or.inl rfl

/-- A buffer parsed whole leaves no room for another read. -/
theorem execute_next_size
    {http : HttpParser σ} {config : Config} {memory : Nat → Nat → UInt8}
    {parser after : Parser σ} {curbuf newBuf : CurBuf}
    {received given : Bytes} {data later : HeaderData}
    (complete : http.Complete)
    (ready : parser.httpErrno = .ok)
    (whole : curbuf.size = config.headersBufferSize)
    (all : given.length = config.headersBufferSize)
    (executed :
      execute http config memory parser curbuf received given data =
        .ok (.next after later newBuf)) :
    newBuf.size = 0 := by
  rw [execute] at executed
  rcases ran : http.run (onHead config) parser given data with
    fault | ⟨nparsed, stopped, between⟩
  · simp [ran] at executed
  · rw [ran, ok_bind] at executed
    dsimp only at executed
    rw [afterExecute] at executed
    by_cases within : nparsed ≤ received.length
    · rw [check_pos within, ok_bind] at executed
      cases errno : stopped.httpErrno with
      | ok =>
          have count := run_all complete ready ran errno
          simp only [errno] at executed
          rcases switched :
              switchBuf config memory nparsed between curbuf with
            fault | result
          · simp [switched] at executed
          · rw [switched, ok_bind] at executed
            rcases result with ⟨err, stop⟩ | ⟨next, switchedBuf⟩
            · cases executed
            · cases executed
              rcases switchBuf_size switched with same | fresh
              · simp only
                omega
              · simp only
                omega
      | paused =>
          simp [errno] at executed
      | callback =>
          simp [errno] at executed
      | protocol =>
          simp [errno] at executed
    · simp [within] at executed

/-!
## The first read
-/

/-- The first buffer of a request. -/
def firstBuf (config : Config) : CurBuf where
  data := { buffer := 0, offset := 0 }
  size := config.headersBufferSize

/-- What the callbacks start from, with the first buffer allocated. -/
def withBuffer
    (config : Config) (memory : Nat → Nat → UInt8) (world : World) :
    HeaderData :=
  { noHeaders (allocEach 2 world).2.allocations with
    buffers := [stale config memory 0] }

/-- What the parser is given after the first read. -/
def firstGiven
    (config : Config) (memory : Nat → Nat → UInt8) (world : World) : Bytes :=
  firstRead config world ++
    (stale config memory 0).drop (firstRead config world).length

/-- The first read returns no more than fits into the buffer. -/
theorem length_firstRead_le (config : Config) (world : World) :
    (firstRead config world).length ≤ config.headersBufferSize := by
  rw [firstRead, List.length_take]
  rcases moves :
      (World.moved config.headersBufferSize world.reads
        world.waits).1 with _ | count
  · simp
  · have atMost := World.moved_le moves
    rw [Option.getD_some]
    omega

/-- The parser is given as many bytes as the buffer has. -/
@[simp] theorem length_firstGiven
    (config : Config) (memory : Nat → Nat → UInt8) (world : World) :
    (firstGiven config memory world).length = config.headersBufferSize := by
  have atMost := length_firstRead_le config world
  simp only [firstGiven, stale, List.length_append, List.length_drop,
    List.length_map, List.length_range]
  omega

/-- The callbacks' data when the parser is called first. -/
def firstData
    (config : Config) (memory : Nat → Nat → UInt8) (world : World) :
    HeaderData :=
  { withBuffer config memory world with
    buffers := [firstGiven config memory world] }

/-- The world after the first read. -/
def afterFirst (config : Config) (world : World) : World :=
  world.advance
    (World.moved config.headersBufferSize world.reads world.waits).2.1
    (World.moved config.headersBufferSize world.reads world.waits).2.2
    ((World.moved config.headersBufferSize world.reads world.waits).1.getD 0)

/-- The first buffer is allocated, or not. -/
theorem allocateHeadersBuf_first
    (config : Config) (memory : Nat → Nat → UInt8) (world : World) :
    allocateHeadersBuf config memory (noHeaders world.allocations) =
      if (allocEach 2 world).1 then
        (some (firstBuf config), withBuffer config memory world)
      else (none, noHeaders (allocEach 2 world).2.allocations) := by
  rcases world with ⟨input, output, reads, writes, waits, allocations⟩
  rcases allocations with _ | ⟨first, _ | ⟨second, rest⟩⟩
  · rfl
  · cases first <;> rfl
  · cases first <;> cases second <;> rfl

/-- The first buffer holds what was read, and stale bytes behind it. -/
theorem fillBuf_first
    (config : Config) (memory : Nat → Nat → UInt8) (world : World) :
    fillBuf (withBuffer config memory world) (firstBuf config)
        (firstRead config world) =
      .ok (firstGiven config memory world,
        firstData config memory world) := by
  have stored :
      store [stale config memory 0] (firstBuf config).data
          (firstRead config world) =
        .ok [firstGiven config memory world] := by
    have inside :
        (firstBuf config).data.offset + (firstRead config world).length ≤
          ([stale config memory 0].getD (firstBuf config).data.buffer
            []).length := by
      simpa [firstBuf, stale] using length_firstRead_le config world
    rw [store, if_pos inside]
    simp [firstBuf, firstGiven]
  have loaded :
      load [firstGiven config memory world] (firstBuf config).data
          (firstBuf config).size =
        .ok (firstGiven config memory world) := by
    have length := length_firstGiven config memory world
    have whole :
        List.take (firstBuf config).size
            (([firstGiven config memory world].getD 0 []).drop 0) =
          firstGiven config memory world :=
      List.take_of_length_le length.le
    rw [load]
    exact (if_pos (congrArg List.length whole |>.trans length)).trans
      (congrArg Except.ok whole)
  rw [fillBuf, withBuffer, stored, ok_bind, loaded]
  rfl

/-- The first round of the loop, with a buffer and some input. -/
theorem readHead_first
    {http : HttpParser σ} {config : Config} {memory : Nat → Nat → UInt8}
    {world : World} {fuel : Nat}
    (room : config.headerMaxSize ≤ config.headersBufferSize)
    (positive : 0 < config.headerMaxSize)
    (allocated : (allocEach 2 world).1 = true)
    (read : firstRead config world ≠ []) :
    readHead http config memory (fuel + 1) world =
      match
        execute http config memory
          { state := http.init, httpErrno := .ok } (firstBuf config)
          (firstRead config world) (firstGiven config memory world)
          (firstData config memory world) with
      | .error fault =>
          ([⟨firstRead config world, firstGiven config memory world⟩],
            .error fault)
      | .ok (.stop result) =>
          ([⟨firstRead config world, firstGiven config memory world⟩],
            .ok (result, afterFirst config world))
      | .ok (.next parser data curbuf) =>
          (⟨firstRead config world, firstGiven config memory world⟩ ::
              (readHeadersFrom http config memory fuel
                { parser := parser
                  data := data
                  curbuf := curbuf
                  world := afterFirst config world }).1,
            (readHeadersFrom http config memory fuel
              { parser := parser
                data := data
                curbuf := curbuf
                world := afterFirst config world }).2) := by
  obtain ⟨count, moves⟩ :
      ∃ count,
        (World.moved config.headersBufferSize world.reads
          world.waits).1 = some count := by
    rcases moves :
        (World.moved config.headersBufferSize world.reads
          world.waits).1 with _ | count
    · rw [firstRead, moves] at read
      simp at read
    · exact ⟨count, rfl⟩
  have reads :
      tcpSocketRead world config.headersBufferSize =
        .ok (some (firstRead config world), afterFirst config world) := by
    rw [tcpSocketRead_eq (by omega), afterFirst, firstRead, moves]
    rfl
  obtain ⟨first, rest, split⟩ := List.exists_cons_of_ne_nil read
  have filled := fillBuf_first config memory world
  rw [readHead, allocateHeadersBuf_first, if_pos allocated]
  simp only [readHeadersFrom]
  rw [if_neg (by simp only [firstBuf]; omega)]
  have size : (firstBuf config).size = config.headersBufferSize := rfl
  rw [size, reads]
  simp only [split] at filled ⊢
  exact filled ▸ rfl

/-- The first call of the parser. -/
theorem readHead_calls
    {http : HttpParser σ} {config : Config} {memory : Nat → Nat → UInt8}
    {world : World} {fuel : Nat}
    (room : config.headerMaxSize ≤ config.headersBufferSize)
    (positive : 0 < config.headerMaxSize)
    (allocated : (allocEach 2 world).1 = true)
    (read : firstRead config world ≠ []) :
    ∃ rest,
      (readHead http config memory (fuel + 1) world).1 =
        ⟨firstRead config world, firstGiven config memory world⟩ ::
          rest := by
  rw [readHead_first room positive allocated read]
  split
  · exact ⟨[], rfl⟩
  · exact ⟨[], rfl⟩
  · exact ⟨_, rfl⟩

/-- Without input the first read fails, or returns no bytes. -/
theorem tcpSocketRead_eof
    {config : Config} {world : World}
    (asked : config.headersBufferSize ≠ 0)
    (read : firstRead config world = []) :
    tcpSocketRead world config.headersBufferSize =
        .ok (none, afterFirst config world) ∨
      tcpSocketRead world config.headersBufferSize =
        .ok (some [], afterFirst config world) := by
  rw [tcpSocketRead_eq asked, afterFirst]
  rw [firstRead] at read
  rcases moves :
      (World.moved config.headersBufferSize world.reads
        world.waits).1 with _ | count
  · exact Or.inl rfl
  · right
    rw [moves, Option.getD_some] at read
    rw [Option.map_some, read]

/-- With a buffer and no input nothing is parsed. -/
theorem readHead_eof
    {http : HttpParser σ} {config : Config} {memory : Nat → Nat → UInt8}
    {world : World} {fuel : Nat}
    (room : config.headerMaxSize ≤ config.headersBufferSize)
    (positive : 0 < config.headerMaxSize)
    (allocated : (allocEach 2 world).1 = true)
    (read : firstRead config world = []) :
    readHead http config memory (fuel + 1) world =
      ([], .ok (.err .eof (allocEach 2 world).2.allocations,
        afterFirst config world)) := by
  have asked : config.headersBufferSize ≠ 0 := by omega
  have reads := tcpSocketRead_eof asked read
  have size : (firstBuf config).size = config.headersBufferSize := rfl
  rw [readHead, allocateHeadersBuf_first, if_pos allocated]
  simp only [readHeadersFrom]
  rw [if_neg (by simp only [firstBuf]; omega), size]
  rcases reads with reads | reads
  · rw [reads]
    rfl
  · rw [reads]
    rfl

/-- Without a buffer nothing is read. -/
theorem readHead_nomem
    {http : HttpParser σ} {config : Config} {memory : Nat → Nat → UInt8}
    {world : World} {fuel : Nat}
    (refused : (allocEach 2 world).1 = false) :
    readHead http config memory fuel world =
      ([], .ok (.err .nomem (allocEach 2 world).2.allocations, world)) := by
  rw [readHead, allocateHeadersBuf_first, if_neg (by simp [refused])]
  rfl

/-- A read that fills the buffer is the only one. -/
theorem readHead_full
    {http : HttpParser σ} {config : Config} {memory : Nat → Nat → UInt8}
    {world : World} {fuel : Nat}
    (complete : http.Complete)
    (room : config.headerMaxSize ≤ config.headersBufferSize)
    (positive : 0 < config.headerMaxSize)
    (allocated : (allocEach 2 world).1 = true)
    (full :
      (firstRead config world).length = config.headersBufferSize) :
    firstGiven config memory world = firstRead config world ∧
      readHead http config memory (fuel + 1) world =
        ([⟨firstRead config world, firstRead config world⟩],
          match
            execute http config memory
              { state := http.init, httpErrno := .ok } (firstBuf config)
              (firstRead config world) (firstRead config world)
              (firstData config memory world) with
          | .error fault => .error fault
          | .ok (.stop result) => .ok (result, afterFirst config world)
          | .ok (.next _ _ _) =>
              if fuel = 0 then .error .outOfFuel else .error .assertion) := by
  have given : firstGiven config memory world = firstRead config world := by
    rw [firstGiven, List.drop_of_length_le, List.append_nil]
    simp [stale, full]
  have read : firstRead config world ≠ [] := by
    intro empty
    rw [empty, List.length_nil] at full
    omega
  refine ⟨given, ?_⟩
  rw [readHead_first room positive allocated read, given]
  rcases executed :
      execute http config memory
        { state := http.init, httpErrno := .ok } (firstBuf config)
        (firstRead config world) (firstRead config world)
        (firstData config memory world) with fault | ⟨result⟩ | ⟨parser, data, curbuf⟩
  · rfl
  · rfl
  · have none :=
      execute_next_size complete rfl rfl full executed
    cases fuel with
    | zero =>
        rfl
    | succ fuel =>
        simp only [readHeadersFrom]
        rw [if_pos (by omega)]
        rfl

/-!
## Which segmentations do not matter
-/

/-- The parser gets exactly the received bytes if the first read fills. -/
theorem handsExactly_iff
    {http : HttpParser σ} {config : Config} {memory : Nat → Nat → UInt8}
    {world : World} {fuel : Nat}
    (complete : http.Complete)
    (room : config.headerMaxSize ≤ config.headersBufferSize)
    (positive : 0 < config.headerMaxSize) :
    HandsExactly (readHead http config memory (fuel + 1) world).1 ↔
      FirstReadFills config world := by
  by_cases allocated : (allocEach 2 world).1 = true
  · by_cases read : firstRead config world = []
    · rw [readHead_eof room positive allocated read]
      constructor
      · intro _
        exact Or.inr (Or.inl read)
      · intro _ count
        simp
    · constructor
      · intro exactly
        obtain ⟨rest, calls⟩ := readHead_calls room positive allocated read
        have first := exactly 1
        rw [calls] at first
        have sameLength := congrArg List.length first
        simp only [List.take_succ_cons, List.take_zero,
          List.flatMap_cons, List.flatMap_nil, List.append_nil,
          length_firstGiven] at sameLength
        exact Or.inr (Or.inr sameLength.symm)
      · intro fills
        have full :
            (firstRead config world).length =
              config.headersBufferSize := by
          rcases fills with refused | empty | full
          · rw [allocated] at refused
            cases refused
          · exact absurd empty read
          · exact full
        rw [(readHead_full complete room positive allocated full).2]
        intro count
        cases count <;> simp
  · have refused : (allocEach 2 world).1 = false := by
      simpa using allocated
    rw [readHead_nomem refused]
    constructor
    · intro _
      exact Or.inl refused
    · intro _ count
      simp

/-- The same bytes, each read answered in full. -/
def allAtOnce (world : World) : World :=
  { world with reads := [], waits := [] }

/-- The answers of the allocator are the same. -/
theorem allocEach_allAtOnce (world : World) :
    (allocEach 2 (allAtOnce world)).1 = (allocEach 2 world).1 ∧
      (allocEach 2 (allAtOnce world)).2.allocations =
        (allocEach 2 world).2.allocations := by
  rcases world with ⟨input, output, reads, writes, waits, allocations⟩
  rcases allocations with _ | ⟨first, _ | ⟨second, rest⟩⟩
  · exact ⟨rfl, rfl⟩
  · cases first <;> exact ⟨rfl, rfl⟩
  · cases first <;> cases second <;> exact ⟨rfl, rfl⟩

/-- A read that fills the buffer reads what is read at once. -/
theorem firstRead_of_full
    {config : Config} {world : World}
    (full :
      (firstRead config world).length = config.headersBufferSize) :
    firstRead config (allAtOnce world) = firstRead config world ∧
      (afterFirst config (allAtOnce world)).input =
        (afterFirst config world).input := by
  have amount :
      (World.moved config.headersBufferSize world.reads
        world.waits).1.getD 0 = config.headersBufferSize := by
    have atMost :
        (World.moved config.headersBufferSize world.reads
          world.waits).1.getD 0 ≤ config.headersBufferSize := by
      rcases moves :
          (World.moved config.headersBufferSize world.reads
            world.waits).1 with _ | count
      · simp
      · exact World.moved_le moves
    rw [firstRead, List.length_take] at full
    omega
  rw [firstRead, firstRead, afterFirst, afterFirst, amount]
  exact ⟨rfl, rfl⟩

/-- A delivering socket that returns nothing has nothing to return. -/
theorem input_of_firstRead
    {config : Config} {world : World}
    (positive : 0 < config.headersBufferSize)
    (delivering : world.Delivering)
    (read : firstRead config world = []) :
    world.input = [] := by
  obtain ⟨count, moves⟩ :=
    Option.isSome_iff_exists.mp
      (delivering [config.headersBufferSize]).1
  have some := World.moved_pos positive moves
  rw [firstRead, moves, Option.getD_some, List.take_eq_nil_iff] at read
  rcases read with none | empty
  · omega
  · exact empty

/-- The outcome of a reading whose first read fills the buffer. -/
theorem outcome_allAtOnce
    {http : HttpParser σ} {config : Config} {memory : Nat → Nat → UInt8}
    {world : World} {fuel : Nat}
    (complete : http.Complete)
    (room : config.headerMaxSize ≤ config.headersBufferSize)
    (positive : 0 < config.headerMaxSize)
    (delivering : world.Delivering)
    (fills : FirstReadFills config world) :
    outcome (readHeaders http config memory (fuel + 1) world) =
      outcome
        (readHeaders http config memory (fuel + 1) (allAtOnce world)) := by
  obtain ⟨sameAnswer, sameArena⟩ := allocEach_allAtOnce world
  by_cases allocated : (allocEach 2 world).1 = true
  · have allocatedAtOnce := sameAnswer.trans allocated
    by_cases read : firstRead config world = []
    · have empty :=
        input_of_firstRead (Nat.lt_of_lt_of_le positive room) delivering read
      have readAtOnce : firstRead config (allAtOnce world) = [] := by
        simp [firstRead, allAtOnce, empty]
      rw [readHeaders, readHeaders,
        readHead_eof room positive allocated read,
        readHead_eof room positive allocatedAtOnce readAtOnce]
      simp only [finishHead, afterFirst, World.advance, allAtOnce, empty,
        List.drop_nil, ok_bind, pure_eq_ok, outcome]
      rfl
    · have full :
          (firstRead config world).length = config.headersBufferSize := by
        rcases fills with refused | none | full
        · rw [allocated] at refused
          cases refused
        · exact absurd none read
        · exact full
      obtain ⟨sameRead, sameInput⟩ := firstRead_of_full full
      have fullAtOnce :
          (firstRead config (allAtOnce world)).length =
            config.headersBufferSize := by
        rw [sameRead, full]
      have sameData :
          firstData config memory (allAtOnce world) =
            firstData config memory world := by
        simp only [firstData, withBuffer, firstGiven, sameRead, sameArena]
      rw [readHeaders, readHeaders,
        (readHead_full complete room positive allocated full).2,
        (readHead_full complete room positive allocatedAtOnce fullAtOnce).2,
        sameRead, sameData]
      rcases execute http config memory
          { state := http.init, httpErrno := .ok } (firstBuf config)
          (firstRead config world) (firstRead config world)
          (firstData config memory world) with
        fault | ⟨result⟩ | ⟨parser, data, curbuf⟩
      · rfl
      · simp only [ok_bind]
        rcases finishHead http result with
          fault | ⟨err, request, allocations⟩
        · rfl
        · simp only [ok_bind, pure_eq_ok, outcome, Except.map, sameInput]
      · rfl
  · have refused : (allocEach 2 world).1 = false := by
      simpa using allocated
    rw [readHeaders, readHeaders, readHead_nomem refused,
      readHead_nomem (sameAnswer.trans refused)]
    rfl

/-- A head with one header. -/
def hostHead : Bytes := ascii "GET / HTTP/1.1\r\nHost: a\r\n\r\n"

/-- How the parser calls back on it. -/
def hostCallbacks : List Callback :=
  [.messageBegin, .url ⟨4, 1⟩, .headerField ⟨16, 4⟩, .headerValue ⟨22, 1⟩,
    .headersComplete]

/-- Buffers of 30 bytes. -/
def smallBuffers : Config where
  keepaliveRequests := -1
  headerMaxSize := 8
  headersBufferSize := 30
  headersBufferCount := 2

/-- A connection on which a client has sent some bytes. -/
def sending (input : Bytes) (reads : List Kernel) : World where
  input := input
  output := []
  reads := reads
  writes := []
  waits := []
  allocations := []

/-- Without a schedule the socket delivers. -/
theorem delivering_sending (input : Bytes) :
    (sending input []).Delivering := by
  intro sizes
  induction sizes with
  | nil =>
      trivial
  | cons size sizes inductionHypothesis =>
      exact ⟨rfl, inductionHypothesis⟩

/-- The same head, ten bytes of it delivered first. -/
def splitHead : World := sending (hostHead ++ ascii "abc") [.move 9]

end Dfk.Http
