import Dfk.Http.HeadReport
import Dfk.Http.FramingAgreement

/-!
# Memory for headers

Each header needs an allocation before it is stored.  A header is flushed when
the next one begins, and the last one at the end of the head, where the result
of flushing it is ignored.
-/

namespace Dfk.Http

variable {σ : Type}

/-- What is passed to `dfk_strmap_insert` when a header is flushed. -/
def flushOffers (data : HeaderData) : List Header :=
  match World.next data.allocations with
  | (false, _) => []
  | (true, _) =>
      match data.cheaderField.bytes data.buffers,
          data.cheaderValue.bytes data.buffers with
      | .ok name, .ok value => [{ name := name, value := value }]
      | _, _ => []

/-- Whether a callback calls `dfk__http_request_flush_header`. -/
def flushes (data : HeaderData) : Callback → Bool
  | .headerField _ => data.cheaderValue.data.isSome
  | .headersComplete =>
      data.cheaderField.data.isSome && data.cheaderValue.data.isSome
  | _ => false

/-- The headers that callbacks pass to `dfk_strmap_insert`. -/
def offers (config : Config) : List (Stop σ) → HeaderData → List Header
  | [], _ => []
  | stop :: stops, data =>
      (if flushes data stop.callback then flushOffers data else []) ++
        match onHead config stop.callback data with
        | .ok (.proceed, after) => offers config stops after
        | _ => []

/-- The headers that a reading of a head passes to `dfk_strmap_insert`. -/
def headOffers (http : HttpParser σ) (config : Config)
    (memory : Nat → Nat → UInt8) (fuel : Nat) (world : World) :
    List Header :=
  (readings http config memory fuel world).flatMap fun reading =>
    match headInput config reading with
    | none => []
    | some input =>
        offers config (http.execute reading.parser.state input.given).stops
          input.data

/-- In some round the allocation for a header fails. -/
def HeaderRefused (http : HttpParser σ) (config : Config)
    (memory : Nat → Nat → UInt8) (fuel : Nat) (world : World) : Prop :=
  ∃ reading ∈ readings http config memory fuel world,
    ∃ input, headInput config reading = some input ∧
      ∃ earlier stop rest before,
        (http.execute reading.parser.state input.given).stops =
            earlier ++ stop :: rest ∧
          HttpParser.callbacks (onHead config) earlier input.data =
            .ok (none, before) ∧
          flushes before stop.callback = true ∧
          (World.next before.allocations).1 = false

/--
An accepted request has been offered all headers that the parser reported, and
a header without memory makes the reading fail with `dfk_err_nomem`.
-/
structure NoHeaderLost (http : HttpParser σ) (config : Config)
    (memory : Nat → Nat → UInt8) (fuel : Nat) (world : World) : Prop where
  offered :
    ∀ request later,
      readHeaders http config memory fuel world = .ok (.ok, request, later) →
        headOffers http config memory fuel world =
          headerFields http (firstGiven config memory world)
  noticed :
    HeaderRefused http config memory fuel world →
      ∃ request later,
        readHeaders http config memory fuel world =
          .ok (.nomem, request, later)

/-- There is no memory for the query of a URL or one of its arguments. -/
def QueryRefused (http : HttpParser σ) (url : Bytes) (answers : List Bool) :
    Prop :=
  ∃ fields,
    http.parseUrl url = some fields ∧
      (readQuery (urlPart url fields.query) answers).1 = .nomem

/--
Where memory for a header is refused, the parser stands within the bytes that
have been received; at the end of the head, the query is refused memory too.
-/
def RefusalsSeen (http : HttpParser σ) (config : Config)
    (memory : Nat → Nat → UInt8) (world : World) : Prop :=
  (allocEach 2 world).1 = true → firstRead config world ≠ [] →
    ∀ earlier stop rest report,
      firstStops http config memory world = earlier ++ stop :: rest →
        firstReport config memory world earlier = some report →
          report.Refused stop.callback →
            stop.nparsed ≤ (firstRead config world).length ∧
              (stop.callback = .headersComplete →
                QueryRefused http
                  (report.urlBytes (firstGiven config memory world))
                  report.answersBehind)

/-! ## Refusals -/

section Steps

variable {config : Config} {given : Bytes} {report : Report}
variable {data : HeaderData}

/-- A callback flushes a header that has been reported with a value. -/
theorem Report.Shown.refused_iff
    (shown : report.Shown given data) (callback : Callback) :
    flushes data callback = true ∧
        (World.next data.allocations).1 = false ↔
      report.Refused callback := by
  have isText := shown.value
  have hasValue : data.cheaderValue.data.isSome = report.value.isSome := by
    cases isValue : report.value with
    | none =>
        rw [isValue] at isText
        rw [isText]
        rfl
    | some value =>
        rw [isValue] at isText
        rw [isText]
        rfl
  have hasName : data.cheaderField.data.isSome = report.name.isSome := by
    rw [shown.name]
    cases report.name <;> rfl
  rw [shown.answers]
  cases callback with
  | headerField piece =>
      rw [flushes, hasValue]
      exact Iff.rfl
  | headersComplete =>
      rw [flushes, hasValue, hasName, Bool.and_eq_true]
      exact and_assoc
  | messageBegin | url | headerValue | body | messageComplete | chunkHeader
  | chunkComplete =>
      exact ⟨fun both => Bool.noConfusion both.1, False.elim⟩

/-- Where a header begins and the one before it cannot be stored. -/
theorem Report.Shown.refused_field
    {piece : Span} (config : Config)
    (shown : report.Shown given data)
    (refused : report.Refused (.headerField piece)) :
    ∃ after,
      onHead config (.headerField piece) data = .ok (.fail, after) ∧
        after.dfkErrno = .nomem := by
  obtain ⟨hasValue, answer⟩ := refused
  obtain ⟨value, isValue⟩ := Option.isSome_iff_exists.mp hasValue
  have isText := shown.value
  rw [isValue] at isText
  rcases answered : World.next report.answers with ⟨_ | _, answers⟩
  · have flushed := shown.flushHeader isValue
    rw [answered] at flushed
    rw [onHead, onHeaderField,
      if_pos (by rw [isText]; exact isSome_textOf value), flushed]
    exact ⟨_, rfl, rfl⟩
  · rw [answered] at answer
    cases answer

/-- A head may end with a header that cannot be stored. -/
theorem Report.Refused.ends
    (refused : report.Refused .headersComplete) : report.Ends := by
  obtain ⟨-, hasValue, answer⟩ := refused
  intro name isName
  refine ⟨hasValue, fun answered => ?_⟩
  rw [answer] at answered
  cases answered

end Steps

/-- Whatever else a URL is refused for comes of its query. -/
theorem readUrl_err_iff
    (http : HttpParser σ) (request : Request σ) (answers : List Bool)
    {err : Err} (notProtocol : err ≠ .protocol) :
    (readUrl http request answers).1 = err ↔
      ∃ fields,
        http.parseUrl request.url = some fields ∧
          (readQuery (urlPart request.url fields.query) answers).1 = err := by
  rw [readUrl]
  cases http.parseUrl request.url with
  | none =>
      constructor
      · intro same
        exact absurd same.symm notProtocol
      · rintro ⟨fields, same, -⟩
        cases same
  | some fields =>
      constructor
      · intro same
        exact ⟨fields, rfl, same⟩
      · rintro ⟨other, same, queried⟩
        cases same
        exact queried

section First

variable {http : HttpParser σ} {config : Config}
variable {memory : Nat → Nat → UInt8} {world : World}
variable {earlier rest : List (Stop σ)} {stop : Stop σ} {report : Report}

/-- A head that is parsed ends with what reading its URL comes to. -/
theorem finishHead_parsed
    {given : Bytes} {before after : HeaderData} {parser : Parser σ}
    {remainder : Bytes}
    (shown : report.Shown given before)
    (url : after.url = before.url) (buffers : after.buffers = before.buffers) :
    finishHead http (.parsed after parser remainder) =
      .ok
        (readUrl http
          (preprocess http after parser remainder (report.urlBytes given))
          after.allocations) := by
  rw [finishHead, url, buffers, shown.urlBytes]
  rfl

/-- A header that is refused memory is noticed, or not. -/
theorem readHeaders_of_refused
    (fuel : Nat)
    (inOrder : http.ReportsInOrder)
    (room : config.headerMaxSize ≤ config.headersBufferSize)
    (positive : 0 < config.headerMaxSize)
    (allocated : (allocEach 2 world).1 = true)
    (read : firstRead config world ≠ [])
    (split :
      firstStops http config memory world = earlier ++ stop :: rest)
    (reported : firstReport config memory world earlier = some report)
    (refused : report.Refused stop.callback) :
    (∃ request later,
        readHeaders http config memory (fuel + 1) world =
          .ok (.nomem, request, later)) ↔
      stop.nparsed ≤ (firstRead config world).length ∧
        (stop.callback = .headersComplete →
          QueryRefused http
            (report.urlBytes (firstGiven config memory world))
            report.answersBehind) := by
  obtain ⟨before, proceeded, shown⟩ :=
    (firstReport_iff inOrder allocated split).1 report reported
  have faulty {fault : Fault}
      (executed : firstExecuted http config memory world = .error fault) :
      ¬ ∃ request later,
          readHeaders http config memory (fuel + 1) world =
            .ok (.nomem, request, later) := by
    rintro ⟨request, later, read'⟩
    rw [readHeaders_of_fault fuel room positive allocated read executed]
      at read'
    cases read'
  cases isCallback : stop.callback with
  | headerField piece =>
      rw [isCallback] at refused
      obtain ⟨after, called, isNomem⟩ :=
        shown.refused_field config refused
      rw [← isCallback] at called
      have executed := firstExecuted_of_fail split proceeded called
      by_cases within : stop.nparsed ≤ (firstRead config world).length
      · rw [if_pos within, isNomem] at executed
        refine ⟨fun _ => ⟨within, nofun⟩, fun _ => ?_⟩
        rw [readHeaders_of_stop fuel room positive allocated read executed]
        exact ⟨_, _, rfl⟩
      · rw [if_neg within] at executed
        exact
          ⟨fun noticed => absurd noticed (faulty executed),
            fun both => absurd both.1 within⟩
  | headersComplete =>
      rw [isCallback] at refused
      obtain ⟨after, called, url, buffers, answers⟩ :=
        shown.completes refused.ends
      have calledHead :
          onHead config stop.callback before = .ok (.pause, after) := by
        rw [isCallback]
        exact called
      have executed := firstExecuted_of_pause split proceeded calledHead
      by_cases within : stop.nparsed ≤ (firstRead config world).length
      · rw [if_pos within] at executed
        rw [readHeaders_of_stop fuel room positive allocated read executed,
          finishHead_parsed shown url buffers, answers]
        have queries :=
          readUrl_err_iff http
            (preprocess http after
              { state := stop.resume, httpErrno := .ok }
              ((firstRead config world).drop stop.nparsed)
              (report.urlBytes (firstGiven config memory world)))
            report.answersBehind
            (by decide : Err.nomem ≠ .protocol)
        constructor
        · rintro ⟨request, later, same⟩
          refine ⟨within, fun _ => queries.mp ?_⟩
          exact congrArg Prod.fst (Except.ok.inj same)
        · rintro ⟨-, refusedQuery⟩
          have isNomem := queries.mpr (refusedQuery rfl)
          refine ⟨_, _, congrArg Except.ok (Prod.ext isNomem rfl)⟩
      · rw [if_neg within] at executed
        exact
          ⟨fun noticed => absurd noticed (faulty executed),
            fun both => absurd both.1 within⟩
  | messageBegin | url | headerValue | body | messageComplete | chunkHeader
  | chunkComplete =>
      rw [isCallback] at refused
      exact refused.elim

end First

/-! ## Headers offered and reported -/

section Offers

variable {config : Config} {given : Bytes} {report later : Report}
variable {data : HeaderData}

/-- A callback offers the header that it completes. -/
theorem Report.Shown.offered
    {callback : Callback}
    (shown : report.Shown given data)
    (added : report.add given callback = some later) :
    later.headers =
      report.headers ++
        if flushes data callback then flushOffers data else [] := by
  have isText := shown.value
  cases callback with
  | messageBegin | chunkHeader | chunkComplete =>
      cases added
      exact (List.append_nil _).symm
  | url piece | headerValue piece =>
      rw [Report.add] at added
      obtain ⟨whole, -, rfl⟩ := Option.map_eq_some_iff.mp added
      exact (List.append_nil _).symm
  | headersComplete | messageComplete | body piece =>
      cases added
  | headerField piece =>
      rw [flushes]
      cases isValue : report.value with
      | none =>
          rw [Report.add, isValue] at added
          rw [isValue] at isText
          obtain ⟨whole, -, rfl⟩ := Option.map_eq_some_iff.mp added
          rw [isText]
          exact (List.append_nil _).symm
      | some value =>
          rw [isValue] at isText
          rw [isText, if_pos (isSome_textOf value)]
          cases isName : report.name with
          | none =>
              rw [Report.add, isValue, isName] at added
              cases added
          | some name =>
              rw [Report.add, isValue, isName] at added
              dsimp only at added
              rw [Report.store] at added
              rw [flushOffers, shown.answers]
              rcases answered : World.next report.answers with
                ⟨_ | _, answers⟩
              · rw [answered] at added
                cases added
              · rw [answered] at added
                dsimp only at added
                split at added
                · cases added
                · cases added
                  dsimp only
                  rw [shown.name, isName, isText, shown.buffers,
                    bytes_textOf (shown.nameInside name isName),
                    bytes_textOf (shown.valueInside value isValue)]

/-- Callbacks offer the headers that they complete. -/
theorem Report.Shown.offers
    (stops : List (Stop σ)) :
    ∀ {report later : Report} {data : HeaderData},
      report.Shown given data →
        (∀ stop ∈ stops, ∀ piece, stop.callback.span = some piece →
          piece.offset + piece.size ≤ given.length) →
        report.after given config.headerMaxSize
            (stops.map Stop.callback) = some later →
          later.headers = report.headers ++ Http.offers config stops data := by
  induction stops with
  | nil =>
      intro report later data shown _ reached
      cases reached
      exact (List.append_nil _).symm
  | cons stop stops inductionHypothesis =>
      intro report later data shown inside reached
      rw [Report.after, List.map_cons, List.foldlM_cons] at reached
      obtain ⟨between, next, reached⟩ := Option.bind_eq_some_iff.mp reached
      obtain ⟨after, called, shownAfter⟩ :=
        shown.of_next (inside stop (List.mem_cons_self ..)) next
      have rest :=
        inductionHypothesis shownAfter
          (fun other member => inside other (List.mem_cons_of_mem _ member))
          reached
      rw [Report.next] at next
      have first := shown.offered (Option.filter_eq_some_iff.mp next).1
      rw [rest, first, Http.offers, called, List.append_assoc]

/-- Behind callbacks that proceed the next ones make their offers. -/
theorem offers_append
    (earlier rest : List (Stop σ)) :
    ∀ {data between : HeaderData},
      HttpParser.callbacks (onHead config) earlier data =
          .ok (none, between) →
        offers config (earlier ++ rest) data =
          offers config earlier data ++ offers config rest between := by
  induction earlier with
  | nil =>
      intro data between ran
      cases ran
      rfl
  | cons stop earlier inductionHypothesis =>
      intro data between ran
      rw [HttpParser.callbacks] at ran
      obtain ⟨⟨verdict, next⟩, called, ran⟩ := of_bind ran
      cases verdict with
      | proceed =>
          rw [List.cons_append, offers, offers, called,
            List.append_assoc]
          dsimp only
          rw [inductionHypothesis ran]
      | fail | pause =>
          cases ran

/-- The bytes of a part with a piece more. -/
theorem part_joined
    (given : Bytes) {part : Option Span} {piece whole : Span}
    (isWhole : joined part piece = some whole) :
    whole.part given =
      (part.map fun part => part.part given).getD [] ++ piece.part given := by
  cases part with
  | none =>
      cases isWhole
      rfl
  | some part =>
      rw [joined] at isWhole
      split at isWhole
      · next follows =>
          cases isWhole
          rw [part_append, follows]
          rfl
      · cases isWhole

/-- The headers that have been reported, with those still to come. -/
theorem Report.reported_add
    {callback : Callback} (callbacks : List Callback)
    (added : report.add given callback = some later) :
    report.headers ++
        reported given (report.name.map fun part => part.part given)
          (report.value.map fun part => part.part given)
          (callback :: callbacks) =
      later.headers ++
        reported given (later.name.map fun part => part.part given)
          (later.value.map fun part => part.part given) callbacks := by
  cases callback with
  | messageBegin | chunkHeader | chunkComplete =>
      cases added
      cases report.name <;> cases report.value <;> rfl
  | url piece =>
      rw [Report.add] at added
      obtain ⟨whole, -, rfl⟩ := Option.map_eq_some_iff.mp added
      cases report.name <;> cases report.value <;> rfl
  | headersComplete | messageComplete | body piece =>
      cases added
  | headerValue piece =>
      rw [Report.add] at added
      obtain ⟨whole, isWhole, rfl⟩ := Option.map_eq_some_iff.mp added
      have isPart := part_joined given isWhole
      dsimp only
      rw [Option.map_some, isPart]
      cases report.name <;> cases report.value <;> rfl
  | headerField piece =>
      rw [Report.add] at added
      cases isValue : report.value with
      | none =>
          rw [isValue] at added
          obtain ⟨whole, isWhole, rfl⟩ := Option.map_eq_some_iff.mp added
          have isPart := part_joined given isWhole
          dsimp only
          rw [Option.map_some, isPart]
          cases report.name <;> rfl
      | some value =>
          cases isName : report.name with
          | none =>
              rw [isValue, isName] at added
              cases added
          | some name =>
              rw [isValue, isName] at added
              dsimp only at added
              rw [Report.store] at added
              split at added
              · cases added
              · split at added
                · cases added
                · cases added
                  simp [reported]

/-- The headers that callbacks report, with those still to come. -/
theorem Report.reported_after
    {limit : Nat} (callbacks : List Callback) :
    ∀ {report later : Report},
      report.after given limit callbacks = some later →
        report.headers ++
            reported given (report.name.map fun part => part.part given)
              (report.value.map fun part => part.part given) callbacks =
          later.headers ++
            reported given (later.name.map fun part => part.part given)
              (later.value.map fun part => part.part given) [] := by
  induction callbacks with
  | nil =>
      intro report later reached
      cases reached
      rfl
  | cons callback callbacks inductionHypothesis =>
      intro report later reached
      rw [Report.after, List.foldlM_cons] at reached
      obtain ⟨between, next, reached⟩ := Option.bind_eq_some_iff.mp reached
      rw [Report.next] at next
      rw [Report.reported_add callbacks (Option.filter_eq_some_iff.mp next).1]
      exact inductionHypothesis reached

/-- The end of a head offers the last header if there is memory for it. -/
theorem Report.Shown.offers_end
    (shown : report.Shown given data) (ends : report.Ends)
    (served : ¬ report.Refused .headersComplete) :
    (if flushes data .headersComplete then flushOffers data else []) =
      reported given (report.name.map fun part => part.part given)
        (report.value.map fun part => part.part given) [] := by
  have isText := shown.value
  rw [flushes, shown.name]
  cases isName : report.name with
  | none =>
      cases report.value <;> rfl
  | some name =>
      obtain ⟨hasValue, -⟩ := ends name isName
      obtain ⟨value, isValue⟩ := Option.isSome_iff_exists.mp hasValue
      rw [isValue] at isText ⊢
      rw [isText]
      have answered : (World.next report.answers).1 = true := by
        by_contra refused
        rw [Bool.not_eq_true] at refused
        apply served
        refine ⟨?_, hasValue, refused⟩
        rw [isName]
        rfl
      rw [flushOffers, shown.answers, shown.name, isName, isText,
        shown.buffers]
      rcases isAnswer : World.next report.answers with ⟨_ | _, answers⟩
      · rw [isAnswer] at answered
        cases answered
      · dsimp only
        rw [bytes_textOf (shown.nameInside name isName),
          bytes_textOf (shown.valueInside value isValue)]
        rfl

end Offers

section Main

variable {http : HttpParser σ} {config : Config}
variable {memory : Nat → Nat → UInt8} {world : World}

/-- Where nothing is left of a buffer the parser is not called. -/
theorem headInput_of_empty
    {reading : Reading σ}
    (positive : 0 < config.headerMaxSize)
    (empty : reading.curbuf.size = 0) : headInput config reading = none := by
  rw [headInput, if_pos]
  rw [empty]
  exact positive

/-- Memory for a header is refused in the first call or not at all. -/
theorem headerRefused_iff
    (memory : Nat → Nat → UInt8) (world : World) (fuel : Nat)
    (complete : http.Complete) (inOrder : http.ReportsInOrder)
    (room : config.headerMaxSize ≤ config.headersBufferSize)
    (positive : 0 < config.headerMaxSize) :
    HeaderRefused http config memory (fuel + 1) world ↔
      (allocEach 2 world).1 = true ∧ firstRead config world ≠ [] ∧
        ∃ earlier stop rest report,
          firstStops http config memory world = earlier ++ stop :: rest ∧
            firstReport config memory world earlier = some report ∧
            report.Refused stop.callback := by
  constructor
  · rintro ⟨reading, member, input, isInput, earlier, stop, rest, before,
      split, proceeded, flushed, refused⟩
    obtain ⟨allocated, rfl | ⟨-, empty⟩⟩ :=
      readings_cases complete room positive member
    · by_cases read : firstRead config world = []
      · rw [headInput_eof read] at isInput
        cases isInput
      · rw [headInput_first room positive read] at isInput
        cases isInput
        obtain ⟨report, reported, shown⟩ :=
          (firstReport_iff inOrder allocated split).2 before proceeded
        exact ⟨allocated, read, earlier, stop, rest, report, split, reported,
          (shown.refused_iff stop.callback).mp ⟨flushed, refused⟩⟩
    · rw [headInput_of_empty positive empty] at isInput
      cases isInput
  · rintro ⟨allocated, read, earlier, stop, rest, report, split, reported,
      refused⟩
    obtain ⟨before, proceeded, shown⟩ :=
      (firstReport_iff inOrder allocated split).1 report reported
    obtain ⟨flushed, isRefused⟩ :=
      (shown.refused_iff stop.callback).mpr refused
    refine ⟨firstReading http config memory world, ?_,
      firstInput config memory world, headInput_first room positive read,
      earlier, stop, rest, before, split, proceeded, flushed, isRefused⟩
    rw [readings, allocateHeadersBuf_first, if_pos allocated]
    exact List.mem_cons_self ..

/-- What is offered is offered in the first call. -/
theorem headOffers_eq
    (fuel : Nat)
    (complete : http.Complete)
    (room : config.headerMaxSize ≤ config.headersBufferSize)
    (positive : 0 < config.headerMaxSize)
    (allocated : (allocEach 2 world).1 = true)
    (read : firstRead config world ≠ []) :
    headOffers http config memory (fuel + 1) world =
      offers config (firstStops http config memory world)
        (firstData config memory world) := by
  obtain ⟨rest, isReadings, others⟩ :=
    readings_succ memory fuel complete room positive allocated
  have nothing :
      rest.flatMap
          (fun reading =>
            match headInput config reading with
            | none => []
            | some input =>
                offers config
                  (http.execute reading.parser.state input.given).stops
                  input.data) =
        [] := by
    rw [List.flatMap_eq_nil_iff]
    intro reading member
    rw [headInput_of_empty positive (others reading member).2]
  rw [headOffers, isReadings, List.flatMap_cons, nothing, List.append_nil,
    headInput_first room positive read]
  rfl

/-- Of an accepted head all headers are offered but one without memory. -/
theorem headOffers_of_accepted
    {request : Request σ} {later : World} (fuel : Nat)
    (complete : http.Complete) (inOrder : http.ReportsInOrder)
    (headsFirst : http.HeadsFirst)
    (room : config.headerMaxSize ≤ config.headersBufferSize)
    (positive : 0 < config.headerMaxSize)
    (accepted :
      readHeaders http config memory (fuel + 1) world =
        .ok (.ok, request, later)) :
    (allocEach 2 world).1 = true ∧ firstRead config world ≠ [] ∧
      ∃ earlier stop rest report,
        firstStops http config memory world = earlier ++ stop :: rest ∧
          firstReport config memory world earlier = some report ∧
          stop.callback = .headersComplete ∧
          (¬ report.Refused .headersComplete →
            headOffers http config memory (fuel + 1) world =
              headerFields http (firstGiven config memory world)) := by
  obtain ⟨earlier, stop, rest, before, data, parsed⟩ :=
    parsedHead_of_accepted complete headsFirst room positive accepted
  have split :
      firstStops http config memory world = earlier ++ stop :: rest :=
    parsed.split
  obtain ⟨report, isReport, shown⟩ :=
    (firstReport_iff inOrder parsed.allocated split).2 before
      parsed.proceeded
  refine ⟨parsed.allocated, parsed.read, earlier, stop, rest, report, split,
    isReport, parsed.isEnd, ?_⟩
  intro served
  have inside := inside_firstStops inOrder split
  have stored :
      offers config earlier (firstData config memory world) =
        report.headers :=
    ((shown_start parsed.allocated).offers earlier inside isReport).symm
  have last := shown.offers_end (shown.ends parsed.called) served
  have ended :
      offers config (stop :: rest) before =
        reported (firstGiven config memory world)
          (report.name.map fun part =>
            part.part (firstGiven config memory world))
          (report.value.map fun part =>
            part.part (firstGiven config memory world)) [] := by
    have called : onHead config stop.callback before = .ok (.pause, data) := by
      rw [parsed.isEnd]
      exact parsed.called
    rw [offers, called, parsed.isEnd, last, List.append_nil]
  calc
    headOffers http config memory (fuel + 1) world =
        offers config (earlier ++ stop :: rest)
          (firstData config memory world) := by
      rw [headOffers_eq fuel complete room positive parsed.allocated
        parsed.read, split]
    _ = report.headers ++
          reported (firstGiven config memory world)
            (report.name.map fun part =>
              part.part (firstGiven config memory world))
            (report.value.map fun part =>
              part.part (firstGiven config memory world)) [] := by
      rw [offers_append earlier (stop :: rest) parsed.proceeded, stored,
        ended]
    _ = headerFields http (firstGiven config memory world) := by
      rw [parsed.headerFields, ← Report.reported_after _ isReport]
      rfl

/--
No header is lost exactly if each refusal of memory for one is seen: it comes
within the bytes received, and not at the end of the head unless the query is
refused memory too.
-/
theorem no_header_lost_iff
    (fuel : Nat)
    (complete : http.Complete) (inOrder : http.ReportsInOrder)
    (headsFirst : http.HeadsFirst)
    (room : config.headerMaxSize ≤ config.headersBufferSize)
    (positive : 0 < config.headerMaxSize) :
    NoHeaderLost http config memory (fuel + 1) world ↔
      RefusalsSeen http config memory world := by
  have refusals :=
    headerRefused_iff memory world fuel complete inOrder room positive
  constructor
  · intro kept allocated read earlier stop rest report split reported refused
    have noticed :=
      kept.noticed
        (refusals.mpr
          ⟨allocated, read, earlier, stop, rest, report, split, reported,
            refused⟩)
    exact
      (readHeaders_of_refused fuel inOrder room positive allocated read split
        reported refused).mp noticed
  · intro seen
    refine ⟨?_, ?_⟩
    · intro request later accepted
      obtain ⟨allocated, read, earlier, stop, rest, report, split, reported,
        isEnd, offered⟩ :=
        headOffers_of_accepted fuel complete inOrder headsFirst room positive
          accepted
      apply offered
      intro refused
      rw [← isEnd] at refused
      obtain ⟨other, last, noticed⟩ :=
        (readHeaders_of_refused fuel inOrder room positive allocated read
          split reported refused).mpr
          (seen allocated read earlier stop rest report split reported
            refused)
      rw [accepted] at noticed
      cases noticed
    · intro isRefused
      obtain ⟨allocated, read, earlier, stop, rest, report, split, reported,
        refused⟩ := refusals.mp isRefused
      exact
        (readHeaders_of_refused fuel inOrder room positive allocated read
          split reported refused).mpr
          (seen allocated read earlier stop rest report split reported
            refused)

end Main

/-- With memory for everything no header is lost. -/
theorem no_header_lost_iff_hostHead :
    NoHeaderLost (oneHead hostHead hostCallbacks 0) smallBuffers
        (fun _ _ => 0) 1 (sending hostHead []) ↔
      RefusalsSeen (oneHead hostHead hostCallbacks 0) smallBuffers
        (fun _ _ => 0) (sending hostHead []) :=
  no_header_lost_iff 0 (oneHead_complete _ _ _)
    (oneHead_reportsInOrder 0 (by decide))
    (oneHead_headsFirst 0 (by decide)) (by decide) (by decide)

/-- A world in which the third allocation fails, behind those for a buffer. -/
def lastRefused : World :=
  { sending hostHead [] with allocations := [true, true, false] }

/--
Without memory for its only header a request is accepted, and the header is
not stored.
-/
theorem last_header_dropped :
    (readHeaders (oneHead hostHead hostCallbacks 0) smallBuffers
          (fun _ _ => 0) 1 lastRefused).map
        (fun (err, request, _) => (err, request.headers)) =
      .ok (.ok, .leaf) ∧
    headerFields (oneHead hostHead hostCallbacks 0)
        (firstGiven smallBuffers (fun _ _ => 0) lastRefused) =
      [{ name := ascii "Host", value := ascii "a" }] ∧
    ¬ NoHeaderLost (oneHead hostHead hostCallbacks 0) smallBuffers
        (fun _ _ => 0) 1 lastRefused := by
  have fields :
      headerFields (oneHead hostHead hostCallbacks 0)
          (firstGiven smallBuffers (fun _ _ => 0) lastRefused) =
        [{ name := ascii "Host", value := ascii "a" }] := by
    decide
  have nothing :
      headOffers (oneHead hostHead hostCallbacks 0) smallBuffers
          (fun _ _ => 0) 1 lastRefused =
        [] := by
    decide
  have accepted :
      ∃ request later,
        readHeaders (oneHead hostHead hostCallbacks 0) smallBuffers
            (fun _ _ => 0) 1 lastRefused =
          .ok (.ok, request, later) := ⟨_, _, rfl⟩
  refine ⟨by decide, fields, ?_⟩
  intro kept
  obtain ⟨request, later, read⟩ := accepted
  have all := kept.offered request later read
  rw [nothing, fields] at all
  cases all

end Dfk.Http
