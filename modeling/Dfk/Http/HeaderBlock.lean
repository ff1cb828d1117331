import Dfk.Http.Accepted
import Dfk.Http.Segmentation

/-!
# Header blocks

An accepted head has been parsed in one execution.  The headers of the request
are then those that the parser reported in it, stored one after another.
-/

namespace Dfk.Http

variable {σ : Type}

/-- The bytes in a span. -/
def Span.part (span : Span) (bytes : Bytes) : Bytes :=
  (bytes.drop span.offset).take span.size

/--
The headers that callbacks report: pieces of a name are put together, then
those of its value, until the next name or the end.
-/
def reported (bytes : Bytes) :
    Option Bytes → Option Bytes → List Callback → List Header
  | some name, some value, [] => [{ name := name, value := value }]
  | _, _, [] => []
  | name, some value, .headerField span :: callbacks =>
      { name := name.getD [], value := value } ::
        reported bytes (some (span.part bytes)) none callbacks
  | name, none, .headerField span :: callbacks =>
      reported bytes (some (name.getD [] ++ span.part bytes)) none callbacks
  | name, value, .headerValue span :: callbacks =>
      reported bytes name (some (value.getD [] ++ span.part bytes)) callbacks
  | name, value, _ :: callbacks => reported bytes name value callbacks

/-- The callbacks of an execution before the end of a head. -/
def beforeHeadersComplete (stops : List (Stop σ)) : List Callback :=
  (stops.map Stop.callback).takeWhile (· ≠ .headersComplete)

/-- The headers that a parser reports in the head some bytes begin with. -/
def headerFields (http : HttpParser σ) (bytes : Bytes) : List Header :=
  reported bytes none none
    (beforeHeadersComplete (http.execute http.init bytes).stops)

/-- The end of the head that some bytes begin with. -/
def headEnd (http : HttpParser σ) (bytes : Bytes) : Option (Stop σ) :=
  (http.execute http.init bytes).stops.find?
    fun stop => stop.callback = .headersComplete

/-- No message is complete before its head is. -/
def HttpParser.HeadsFirst (http : HttpParser σ) : Prop :=
  ∀ bytes,
    .messageComplete ∉
      beforeHeadersComplete (http.execute http.init bytes).stops

/--
The headers that are stored: the last one is flushed at the end of the head,
where it is not noticed if the allocation for it fails.
-/
def storedFields (fields : List Header) (allocations : List Bool) :
    List Header :=
  if (World.next (allocations.drop (fields.length - 1))).1 then fields
  else fields.dropLast

/-!
## Callbacks
-/

/-- What has been taken down of a head while its callbacks run. -/
structure TakenDown
    (given : Bytes) (arena : List Bool) (data : HeaderData)
    (name value : Option Bytes) (done : List Header) : Prop where
  buffers : data.buffers = [given]
  base : data.base = { buffer := 0, offset := 0 }
  nameAt :
    match data.cheaderField.data with
    | some start =>
        start.buffer = 0 ∧
          name =
            some ((⟨start.offset, data.cheaderField.size⟩ : Span).part given)
    | none => name = none
  valueAt :
    match data.cheaderValue.data with
    | some start =>
        start.buffer = 0 ∧
          value =
            some ((⟨start.offset, data.cheaderValue.size⟩ : Span).part given)
    | none => value = none
  begun : name = none → done = []
  headers : data.headers = done.foldl Headers.insert .leaf
  allocations : data.allocations = arena.drop done.length

/-- Spans next to each other hold the bytes of both. -/
theorem part_append (bytes : Bytes) (offset size more : Nat) :
    (⟨offset, size + more⟩ : Span).part bytes =
      (⟨offset, size⟩ : Span).part bytes ++
        (⟨offset + size, more⟩ : Span).part bytes := by
  simp only [Span.part, List.take_add, List.drop_drop]

/-- A text put together of two parts holds the bytes of both. -/
theorem append_part
    (given : Bytes) {text appended : Text} {span : Span}
    (added :
      text.append { buffer := 0, offset := 0 + span.offset } span.size =
        .ok appended) :
    ∃ start,
      appended.data = some start ∧ start.buffer = 0 ∧
        (⟨start.offset, appended.size⟩ : Span).part given =
          (match text.data with
            | some first =>
                (⟨first.offset, text.size⟩ : Span).part given
            | none => []) ++ span.part given := by
  rw [Text.append] at added
  rcases isData : text.data with _ | start
  · simp only [isData] at added
    cases added
    refine ⟨_, rfl, rfl, ?_⟩
    rw [Nat.zero_add]
    rfl
  · simp only [isData] at added
    obtain ⟨_, adjacent, added⟩ := of_bind added
    obtain ⟨sameBuffer, next⟩ := of_check adjacent
    cases added
    refine ⟨start, rfl, sameBuffer, ?_⟩
    dsimp only
    rw [part_append, next, Nat.zero_add]

section Callbacks

variable {config : Config} {given : Bytes} {arena : List Bool}
variable {data after : HeaderData} {name value : Option Bytes}
variable {done : List Header}

/-- The bytes of a name that has been taken down. -/
theorem TakenDown.name_bytes
    (takenDown : TakenDown given arena data name value done)
    {bytes : Bytes}
    (loaded : data.cheaderField.bytes data.buffers = .ok bytes) :
    bytes = name.getD [] := by
  have isName := takenDown.nameAt
  rw [takenDown.buffers] at loaded
  rw [Text.bytes] at loaded
  split at loaded
  · next start isStart =>
      rw [isStart] at isName
      obtain ⟨buffer, rfl⟩ := isName
      rw [load, buffer] at loaded
      split at loaded
      · cases loaded
        rfl
      · cases loaded
  · next isNone =>
      rw [isNone] at isName
      split at loaded
      · cases loaded
        rw [isName]
        rfl
      · cases loaded

/-- The bytes of a value that has been taken down. -/
theorem TakenDown.value_bytes
    {content : Bytes}
    (takenDown : TakenDown given arena data name (some content) done)
    {bytes : Bytes}
    (loaded : data.cheaderValue.bytes data.buffers = .ok bytes) :
    bytes = content := by
  have isValue := takenDown.valueAt
  rw [takenDown.buffers] at loaded
  rw [Text.bytes] at loaded
  split at loaded
  · next start isStart =>
      rw [isStart] at isValue
      obtain ⟨buffer, isPart⟩ := isValue
      rw [load, buffer] at loaded
      split at loaded
      · cases loaded
        exact (Option.some.inj isPart).symm
      · cases loaded
  · next isNone =>
      rw [isNone] at isValue
      cases isValue

/-- Flushing a header stores it if the allocation succeeds. -/
theorem TakenDown.flushed
    {content : Bytes} {verdict : Verdict}
    (takenDown : TakenDown given arena data name (some content) done)
    (flushed : flushHeader data = .ok (verdict, after)) :
    (World.next (arena.drop done.length)).1 = true ∧
        verdict = .proceed ∧
        TakenDown given arena after name (some content)
          (done ++ [{ name := name.getD [], value := content }]) ∨
      (World.next (arena.drop done.length)).1 = false ∧
        verdict = .fail ∧
        after.headers = done.foldl Headers.insert .leaf := by
  have tail : (World.next (arena.drop done.length)).2 =
      arena.drop (done.length + 1) := by
    rw [← List.drop_drop]
    rcases arena.drop done.length with _ | ⟨answer, answers⟩ <;> rfl
  rw [flushHeader, takenDown.allocations] at flushed
  rcases answered : World.next (arena.drop done.length) with
    ⟨_ | _, allocations⟩
  · simp only [answered] at flushed
    cases flushed
    exact Or.inr ⟨rfl, rfl, takenDown.headers⟩
  · simp only [answered] at flushed
    obtain ⟨nameBytes, named, flushed⟩ := of_bind flushed
    obtain ⟨valueBytes, valued, flushed⟩ := of_bind flushed
    obtain ⟨_, checked, flushed⟩ := of_bind flushed
    cases flushed
    refine Or.inl ⟨rfl, rfl, ?_⟩
    exact
      { buffers := takenDown.buffers
        base := takenDown.base
        nameAt := takenDown.nameAt
        valueAt := takenDown.valueAt
        begun := fun noName => by
          have isName := takenDown.nameAt
          obtain ⟨start, isStart⟩ :=
            Option.isSome_iff_exists.mp (of_check checked).1
          rw [isStart, noName] at isName
          cases isName.2
        headers := by
          rw [List.foldl_append, ← takenDown.headers,
            takenDown.name_bytes named, takenDown.value_bytes valued]
          rfl
        allocations := by
          rw [List.length_append, List.length_singleton, ← tail, answered] }

/-- A text whose length is within the limit is no error. -/
theorem of_limit
    {text : Text} {before : HeaderData}
    (limited :
      (pure (HeaderData.limit config text before) :
        Except Fault (Verdict × HeaderData)) = .ok (.proceed, after)) :
    after = before := by
  have same := Except.ok.inj limited
  rw [HeaderData.limit] at same
  split at same
  · cases same
  · exact (Prod.mk.inj same).2.symm

/-- A callback that proceeds takes down what it reports. -/
theorem TakenDown.step
    {callback : Callback}
    (takenDown : TakenDown given arena data name value done)
    (called : onHead config callback data = .ok (.proceed, after)) :
    ∃ nextName nextValue nextDone,
      TakenDown given arena after nextName nextValue nextDone ∧
        ∀ callbacks,
          done ++ reported given name value (callback :: callbacks) =
            nextDone ++ reported given nextName nextValue callbacks := by
  have place (span : Span) :
      data.place span = { buffer := 0, offset := 0 + span.offset } := by
    rw [HeaderData.place, takenDown.base]
  cases callback with
  | messageBegin | chunkHeader | chunkComplete =>
      cases called
      refine ⟨name, value, done, takenDown, fun callbacks => ?_⟩
      cases name <;> cases value <;> rfl
  | body span =>
      cases called
  | messageComplete =>
      cases called
  | headersComplete =>
      simp only [onHead, onHeadersComplete] at called
      split at called
      · obtain ⟨-, -, called⟩ := of_bind called
        obtain ⟨⟨verdict, between⟩, -, called⟩ := of_bind called
        cases called
      · cases called
  | url span =>
      obtain ⟨url, -, called⟩ := of_bind called
      rw [of_limit called]
      refine ⟨name, value, done, ⟨takenDown.buffers, takenDown.base,
        takenDown.nameAt, takenDown.valueAt, takenDown.begun, takenDown.headers,
        takenDown.allocations⟩, fun callbacks => ?_⟩
      cases name <;> cases value <;> rfl
  | headerField span =>
      simp only [onHead, onHeaderField] at called
      have isValue := takenDown.valueAt
      split at called
      · next someValue =>
          obtain ⟨start, isStart⟩ := Option.isSome_iff_exists.mp someValue
          rw [isStart] at isValue
          obtain ⟨buffer, rfl⟩ := isValue
          obtain ⟨⟨verdict, between⟩, flushed, called⟩ := of_bind called
          rcases takenDown.flushed flushed with
            ⟨-, rfl, stored⟩ | ⟨-, rfl, -⟩
          · rw [of_limit called]
            refine ⟨some (span.part given), none, _,
              ⟨stored.buffers, stored.base, ?_, rfl, by simp, stored.headers,
                stored.allocations⟩, fun callbacks => ?_⟩
            · rw [HeaderData.place, stored.base]
              dsimp only
              rw [Nat.zero_add]
              exact ⟨rfl, rfl⟩
            · simp [reported]
          · cases called
      · next noValue =>
          rw [Option.not_isSome_iff_eq_none] at noValue
          rw [noValue] at isValue
          subst isValue
          obtain ⟨field, appended, called⟩ := of_bind called
          rw [place] at appended
          obtain ⟨start, isStart, buffer, isPart⟩ :=
            append_part given appended
          have isName := takenDown.nameAt
          rw [of_limit called]
          refine ⟨some (name.getD [] ++ span.part given), none, done,
            ⟨takenDown.buffers, takenDown.base, ?_, takenDown.valueAt, by simp,
              takenDown.headers, takenDown.allocations⟩,
            fun callbacks => ?_⟩
          · rw [isStart]
            refine ⟨buffer, congrArg some (Eq.trans ?_ isPart.symm)⟩
            cases started : data.cheaderField.data with
            | some first =>
                rw [started] at isName
                rw [isName.2]
                rfl
            | none =>
                rw [started] at isName
                rw [isName]
                rfl
          · simp [reported]
  | headerValue span =>
      simp only [onHead, onHeaderValue] at called
      have isValue := takenDown.valueAt
      split at called
      · next isNone =>
          rw [isNone] at isValue
          subst isValue
          rw [of_limit called]
          refine ⟨name, some (span.part given), done,
            ⟨takenDown.buffers, takenDown.base, takenDown.nameAt, ?_,
              takenDown.begun, takenDown.headers, takenDown.allocations⟩,
            fun callbacks => ?_⟩
          · rw [place]
            dsimp only
            rw [Nat.zero_add]
            exact ⟨rfl, rfl⟩
          · simp [reported]
      · next start isStart =>
          rw [isStart] at isValue
          obtain ⟨buffer, rfl⟩ := isValue
          obtain ⟨appendedValue, appended, called⟩ := of_bind called
          rw [place] at appended
          obtain ⟨first, isFirst, firstBuffer, isPart⟩ :=
            append_part given appended
          rw [of_limit called]
          refine
            ⟨name,
              some
                ((⟨start.offset, data.cheaderValue.size⟩ : Span).part given
                  ++ span.part given),
              done,
              ⟨takenDown.buffers, takenDown.base, takenDown.nameAt, ?_,
                takenDown.begun, takenDown.headers, takenDown.allocations⟩,
              fun callbacks => ?_⟩
          · rw [isFirst]
            refine ⟨firstBuffer, ?_⟩
            rw [isPart, isStart]
          · simp [reported]

/-- Callbacks that all proceed take down what they report. -/
theorem TakenDown.run
    (stops : List (Stop σ)) :
    ∀ {data after : HeaderData} {name value : Option Bytes}
      {done : List Header},
      TakenDown given arena data name value done →
        HttpParser.callbacks (onHead config) stops data =
            .ok (none, after) →
          ∃ lastName lastValue lastDone,
            TakenDown given arena after lastName lastValue lastDone ∧
              done ++ reported given name value (stops.map Stop.callback) =
                lastDone ++ reported given lastName lastValue [] := by
  induction stops with
  | nil =>
      intro data after name value done takenDown ran
      cases ran
      exact ⟨name, value, done, takenDown, rfl⟩
  | cons stop stops inductionHypothesis =>
      intro data after name value done takenDown ran
      rw [HttpParser.callbacks] at ran
      obtain ⟨⟨verdict, between⟩, called, ran⟩ := of_bind ran
      cases verdict with
      | proceed =>
          obtain ⟨nextName, nextValue, nextDone, next, sameFields⟩ :=
            takenDown.step called
          obtain ⟨lastName, lastValue, lastDone, last, lastFields⟩ :=
            inductionHypothesis next ran
          refine ⟨lastName, lastValue, lastDone, last, ?_⟩
          rw [List.map_cons, sameFields, lastFields]
      | fail =>
          cases ran
      | pause =>
          cases ran

/-- The end of a head stores its last header, if the allocation succeeds. -/
theorem TakenDown.complete
    (takenDown : TakenDown given arena data name value done)
    (called : onHeadersComplete data = .ok (.pause, after)) :
    after.headers =
      (storedFields (done ++ reported given name value []) arena).foldl
        Headers.insert .leaf := by
  have isName := takenDown.nameAt
  have isValue := takenDown.valueAt
  rw [onHeadersComplete] at called
  split at called
  · next someField =>
      obtain ⟨_, valued, called⟩ := of_bind called
      have someValue := of_check valued
      obtain ⟨⟨verdict, between⟩, flushed, called⟩ := of_bind called
      cases called
      obtain ⟨field, isField⟩ := Option.isSome_iff_exists.mp someField
      obtain ⟨start, isStart⟩ := Option.isSome_iff_exists.mp someValue
      rw [isField] at isName
      rw [isStart] at isValue
      obtain ⟨-, rfl⟩ := isName
      obtain ⟨-, rfl⟩ := isValue
      rw [storedFields, reported, List.length_append, List.length_singleton,
        Nat.add_sub_cancel]
      rcases takenDown.flushed flushed with
        ⟨answer, -, stored⟩ | ⟨answer, -, kept⟩
      · rw [if_pos answer]
        exact stored.headers
      · rw [answer, kept]
        simp
  · next noField =>
      rw [Option.not_isSome_iff_eq_none] at noField
      rw [noField] at isName
      cases called
      subst isName
      have nothing : reported given none value [] = [] := by
        cases value <;> rfl
      rw [nothing, List.append_nil, takenDown.begun rfl, takenDown.headers,
        takenDown.begun rfl, storedFields]
      simp

end Callbacks

/-!
## Accepted requests
-/

/-- The loop of a parser that goes through all bytes ends in its first round. -/
theorem readHead_parsed
    {http : HttpParser σ} {config : Config} {memory : Nat → Nat → UInt8}
    {fuel : Nat} {start world : World} {data : HeaderData}
    {parser : Parser σ} {remainder : Bytes}
    (complete : http.Complete)
    (room : config.headerMaxSize ≤ config.headersBufferSize)
    (positive : 0 < config.headerMaxSize)
    (read :
      (readHead http config memory fuel start).2 =
        .ok (.parsed data parser remainder, world)) :
    execute http config memory { state := http.init, httpErrno := .ok }
          (firstBuf config) (firstRead config start)
          (firstGiven config memory start) (firstData config memory start) =
        .ok (.stop (.parsed data parser remainder)) ∧
      world = afterFirst config start := by
  cases fuel with
  | zero =>
      rw [readHead] at read
      split at read
      · cases read
      · cases read
  | succ fuel =>
      have allocated : (allocEach 2 start).1 = true := by
        by_contra refused
        rw [Bool.not_eq_true] at refused
        rw [readHead_nomem refused] at read
        cases read
      have someRead : firstRead config start ≠ [] := by
        intro none
        rw [readHead_eof room positive allocated none] at read
        cases read
      rw [readHead_first room positive allocated someRead] at read
      rcases executed :
          execute http config memory
            { state := http.init, httpErrno := .ok } (firstBuf config)
            (firstRead config start) (firstGiven config memory start)
            (firstData config memory start) with
        fault | result | ⟨next, nextData, curbuf⟩
      · rw [executed] at read
        cases read
      · rw [executed] at read
        cases read
        exact ⟨rfl, rfl⟩
      · rw [executed] at read
        have empty :=
          execute_next_size complete rfl rfl
            (length_firstGiven config memory start) executed
        cases fuel with
        | zero =>
            cases read
        | succ fuel =>
            simp only [readHeadersFrom, empty, if_pos positive] at read
            cases read

/-- Two answers of the allocator are used up for a buffer. -/
theorem allocations_allocEach (world : World) :
    (allocEach 2 world).1 = true →
      (allocEach 2 world).2.allocations = world.allocations.drop 2 := by
  rcases world with ⟨input, output, reads, writes, waits, allocations⟩
  rcases allocations with _ | ⟨first, _ | ⟨second, rest⟩⟩
  · exact fun _ => rfl
  · cases first <;> exact fun _ => rfl
  · cases first <;> cases second <;> intro allocated
    · cases allocated
    · cases allocated
    · cases allocated
    · rfl

/-- A head is not at its end where a callback proceeds. -/
theorem not_headersComplete_of_proceeds
    {config : Config} {earlier : List (Stop σ)} {data after : HeaderData}
    (proceeded :
      HttpParser.callbacks (onHead config) earlier data =
        .ok (none, after)) :
    ∀ callback ∈ earlier.map Stop.callback,
      callback ≠ .headersComplete := by
  intro callback member same
  obtain ⟨stop, isStop, isCallback⟩ := List.mem_map.mp member
  obtain ⟨before, next, called⟩ :=
    HttpParser.callbacks_none _ proceeded stop isStop
  rw [isCallback, same] at called
  simp only [onHead, onHeadersComplete] at called
  split at called
  · obtain ⟨-, -, called⟩ := of_bind called
    obtain ⟨⟨verdict, between⟩, -, called⟩ := of_bind called
    cases called
  · cases called

/-- The first end of a head, and what comes before it. -/
theorem beforeHeadersComplete_append
    {earlier : List (Stop σ)} (rest : List (Stop σ)) {stop : Stop σ}
    (others :
      ∀ callback ∈ earlier.map Stop.callback, callback ≠ .headersComplete)
    (isEnd : stop.callback = .headersComplete) :
    beforeHeadersComplete (earlier ++ stop :: rest) =
        earlier.map Stop.callback ∧
      (earlier ++ stop :: rest).find?
          (fun stop => stop.callback = .headersComplete) =
        some stop := by
  constructor
  · rw [beforeHeadersComplete, List.map_append, List.map_cons,
      List.takeWhile_append_of_pos]
    · rw [List.takeWhile_cons_of_neg (by simp [isEnd]), List.append_nil]
    · intro callback member
      simpa using others callback member
  · rw [List.find?_append, List.find?_eq_none.mpr, Option.none_or,
      List.find?_cons_of_pos]
    · simp [isEnd]
    · intro other member
      simpa using others other.callback (List.mem_map_of_mem member)

/-- How an accepted head has been parsed: up to its end, in the first call. -/
structure ParsedHead (http : HttpParser σ) (config : Config)
    (memory : Nat → Nat → UInt8) (start : World) (request : Request σ)
    (earlier : List (Stop σ)) (stop : Stop σ) (rest : List (Stop σ))
    (before data : HeaderData) : Prop where
  allocated : (allocEach 2 start).1 = true
  read : firstRead config start ≠ []
  split :
    (http.execute http.init (firstGiven config memory start)).stops =
      earlier ++ stop :: rest
  proceeded :
    HttpParser.callbacks (onHead config) earlier
        (firstData config memory start) =
      .ok (none, before)
  isEnd : stop.callback = .headersComplete
  called : onHeadersComplete before = .ok (.pause, data)
  within : stop.nparsed ≤ (firstRead config start).length
  headers : request.headers = data.headers
  state : request.parser.state = stop.resume

namespace ParsedHead

variable {http : HttpParser σ} {config : Config}
variable {memory : Nat → Nat → UInt8} {start : World} {request : Request σ}
variable {earlier : List (Stop σ)} {stop : Stop σ} {rest : List (Stop σ)}
variable {before data : HeaderData}

/-- The end of the head is the one that the parser reports. -/
theorem headEnd
    (parsed :
      ParsedHead http config memory start request earlier stop rest before
        data) :
    Http.headEnd http (firstGiven config memory start) = some stop := by
  have others := not_headersComplete_of_proceeds parsed.proceeded
  rw [Http.headEnd, parsed.split]
  exact (beforeHeadersComplete_append rest others parsed.isEnd).2

/-- The headers before it are those that the callbacks report. -/
theorem headerFields
    (parsed :
      ParsedHead http config memory start request earlier stop rest before
        data) :
    Http.headerFields http (firstGiven config memory start) =
      reported (firstGiven config memory start) none none
        (earlier.map Stop.callback) := by
  have others := not_headersComplete_of_proceeds parsed.proceeded
  rw [Http.headerFields, parsed.split,
    (beforeHeadersComplete_append rest others parsed.isEnd).1]

end ParsedHead

/-- What pauses the parser while a head is read is the end of the head. -/
theorem isEnd_of_pause
    {http : HttpParser σ} {config : Config} {bytes : Bytes}
    {earlier rest : List (Stop σ)} {stop : Stop σ}
    {data before after : HeaderData}
    (headsFirst : http.HeadsFirst)
    (split :
      (http.execute http.init bytes).stops = earlier ++ stop :: rest)
    (proceeded :
      HttpParser.callbacks (onHead config) earlier data =
        .ok (none, before))
    (handled : onHead config stop.callback before = .ok (.pause, after)) :
    stop.callback = .headersComplete := by
  have others := not_headersComplete_of_proceeds proceeded
  rcases (onHead_verdict handled).1 rfl with complete | message
  · exact complete
  · refine absurd ?_ (headsFirst bytes)
    rw [split, beforeHeadersComplete, List.map_append, List.map_cons,
      List.takeWhile_append_of_pos, message, List.takeWhile_cons_of_pos]
    · simp
    · rfl
    · intro callback member
      simpa using others callback member

/-- An accepted head has been parsed up to its end, in the first call. -/
theorem parsedHead_of_accepted
    {http : HttpParser σ} {config : Config} {memory : Nat → Nat → UInt8}
    {fuel : Nat} {start world : World} {request : Request σ}
    (complete : http.Complete)
    (headsFirst : http.HeadsFirst)
    (room : config.headerMaxSize ≤ config.headersBufferSize)
    (positive : 0 < config.headerMaxSize)
    (accepted :
      readHeaders http config memory fuel start =
        .ok (.ok, request, world)) :
    ∃ earlier stop rest before data,
      ParsedHead http config memory start request earlier stop rest before
        data := by
  obtain ⟨data, parser, remainder, between, url, path, query, fragment,
    arguments, heads, rfl, allocations, rfl⟩ := readHeaders_parsed accepted
  have executed := (readHead_parsed complete room positive heads).1
  obtain ⟨earlier, stop, rest, before, split, proceeded, handled, rfl, -,
    within⟩ := execute_parsed rfl executed
  have allocated : (allocEach 2 start).1 = true := by
    by_contra refused
    rw [Bool.not_eq_true] at refused
    rw [readHead_nomem refused] at heads
    cases heads
  have read : firstRead config start ≠ [] := by
    intro nothing
    cases fuel with
    | zero =>
        rw [readHead, allocateHeadersBuf_first, if_pos allocated] at heads
        cases heads
    | succ fuel =>
        rw [readHead_eof room positive allocated nothing] at heads
        cases heads
  have isEnd : stop.callback = .headersComplete :=
    isEnd_of_pause headsFirst split proceeded handled
  rw [isEnd] at handled
  exact ⟨earlier, stop, rest, before, data, allocated, read, split, proceeded,
    isEnd, handled, within, rfl, rfl⟩

/-- An accepted request has the headers its parser reported. -/
theorem readHeaders_fields
    {http : HttpParser σ} {config : Config} {memory : Nat → Nat → UInt8}
    {fuel : Nat} {start world : World} {request : Request σ}
    (complete : http.Complete)
    (headsFirst : http.HeadsFirst)
    (room : config.headerMaxSize ≤ config.headersBufferSize)
    (positive : 0 < config.headerMaxSize)
    (read :
      readHeaders http config memory fuel start =
        .ok (.ok, request, world)) :
    ∃ stop,
      headEnd http (firstGiven config memory start) = some stop ∧
        request.parser.state = stop.resume ∧
        request.headers =
          (storedFields
            (headerFields http (firstGiven config memory start))
            (start.allocations.drop 2)).foldl Headers.insert .leaf := by
  obtain ⟨earlier, stop, rest, before, data, parsed⟩ :=
    parsedHead_of_accepted complete headsFirst room positive read
  have takenDown :
      TakenDown (firstGiven config memory start)
        (start.allocations.drop 2) (firstData config memory start) none
        none [] :=
    { buffers := rfl
      base := rfl
      nameAt := rfl
      valueAt := rfl
      begun := fun _ => rfl
      headers := rfl
      allocations := allocations_allocEach start parsed.allocated }
  obtain ⟨lastName, lastValue, lastDone, last, fields⟩ :=
    takenDown.run _ parsed.proceeded
  refine ⟨stop, parsed.headEnd, parsed.state, ?_⟩
  rw [parsed.headers, last.complete parsed.called, ← fields,
    parsed.headerFields]
  rfl

end Dfk.Http
