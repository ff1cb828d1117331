import Dfk.Http.HeaderAllocations
import Dfk.Http.HeaderRoom

/-!
# Limits of a head

`dfk_http_t` has fields for the size of a part of a head, for the size of the
headers buffers and for their number.  The first one is never read: the
callbacks compare with `DFK_HTTP_HEADER_MAX_SIZE`, and see what the first call
of the parser reports.  The number of buffers is compared by equality, with one
buffer listed already.
-/

namespace Dfk.Http

variable {σ : Type}

/-!
## What is limited
-/

/--
How long the parts are that callbacks report, from those of the current header
and the URL on: the names and values, and the URL.
-/
def partSizes : Nat → Nat → Option Nat → List Callback → List Nat
  | url, name, value, [] => [url, name, value.getD 0]
  | url, name, value, .url piece :: callbacks =>
      partSizes (url + piece.size) name value callbacks
  | url, name, none, .headerField piece :: callbacks =>
      partSizes url (name + piece.size) none callbacks
  | url, name, some value, .headerField piece :: callbacks =>
      name :: value :: partSizes url piece.size none callbacks
  | url, name, value, .headerValue piece :: callbacks =>
      partSizes url name (some (value.getD 0 + piece.size)) callbacks
  | url, name, value, _ :: callbacks => partSizes url name value callbacks

/-- How long the parts are of the head that some bytes begin with. -/
def headParts (http : HttpParser σ) (bytes : Bytes) : List Nat :=
  partSizes 0 0 none
    (beforeHeadersComplete (http.execute http.init bytes).stops)

/-- The URL of the head that some bytes begin with. -/
def headUrl (http : HttpParser σ) (bytes : Bytes) : Bytes :=
  (beforeHeadersComplete (http.execute http.init bytes).stops).flatMap
    fun callback =>
      match callback with
      | .url piece => piece.part bytes
      | _ => []

/-- A URL is parsed, and its query is decoded and stored. -/
def UrlRead (http : HttpParser σ) (url : Bytes) (answers : List Bool) :
    Prop :=
  ∃ fields,
    http.parseUrl url = some fields ∧
      (readQuery (urlPart url fields.query) answers).1 = .ok

/-- The URL, a name or a value is longer than a limit. -/
def HasLongPart (http : HttpParser σ) (limit : Nat) (bytes : Bytes) : Prop :=
  ∃ size ∈ headParts http bytes, limit < size

/--
Some bytes begin with a request none of whose parts is longer than a limit.
Each part fits into a headers buffer, and the head into all of them.
-/
structure Admissible (http : HttpParser σ) (config : Config) (limit : Nat)
    (bytes : Bytes) : Prop where
  headFits :
    ∃ stop ∈ headEnd http bytes,
      stop.nparsed ≤
        config.headersBufferSize * max 1 config.headersBufferCount
  within : ∀ size ∈ headParts http bytes, size ≤ limit
  partsFit : ∀ size ∈ headParts http bytes, size ≤ config.headersBufferSize
  urlRead : UrlRead http (headUrl http bytes) []

/-- There is memory for everything, and no read fails. -/
structure AllServed (world : World) : Prop where
  memory : ∀ answer ∈ world.allocations, answer = true
  delivering : world.Delivering

/-- The number of buffers held behind an event. -/
def BufferEvent.hold (count : Nat) : BufferEvent → Nat
  | .malloc _ => count + 1
  | .append _ => count
  | .free _ => count - 1

/-- The number of buffers held behind some events. -/
def held (events : List BufferEvent) : Nat :=
  events.foldl BufferEvent.hold 0

/--
The limits of `dfk_http_t` are enforced, of which `limit` is
`header_max_size`: a part longer than it is refused, a request within all of
them is accepted, and there are never more buffers than allowed.
-/
structure LimitsEnforced (http : HttpParser σ) (config : Config)
    (limit : Nat) (memory : Nat → Nat → UInt8) (fuel : Nat)
    (world : World) : Prop where
  refused :
    AllServed world → HasLongPart http limit world.input →
      ∃ request later,
        readHeaders http config memory fuel world =
          .ok (.overflow, request, later)
  accepted :
    AllServed world → Admissible http config limit world.input →
      ∃ request later,
        readHeaders http config memory fuel world = .ok (.ok, request, later)
  buffers :
    ∀ events ∈ (readEvents http config memory fuel world).inits,
      held events ≤ max 1 config.headersBufferCount

/-!
## What is seen
-/

/-- There is a first call of the parser. -/
structure IsCalled (config : Config) (world : World) : Prop where
  allocated : (allocEach 2 world).1 = true
  room : config.headerMaxSize ≤ config.headersBufferSize
  read : firstRead config world ≠ []

/-- The current header begins near to the end of the first buffer. -/
def Report.NearEnd (config : Config) (report : Report) : Prop :=
  ∃ name ∈ report.name,
    config.headersBufferSize < name.offset + config.headerMaxSize

/--
The first call reports a part longer than `DFK_HTTP_HEADER_MAX_SIZE`, within
the bytes received, or goes through all of the only buffer, with the current
header near to its end.
-/
structure Overflows (http : HttpParser σ) (config : Config)
    (memory : Nat → Nat → UInt8) (world : World) : Prop where
  called : IsCalled config world
  overflows :
    (∃ earlier stop rest report,
        firstStops http config memory world = earlier ++ stop :: rest ∧
          firstReport config memory world earlier = some report ∧
          report.TooLong (firstGiven config memory world)
            config.headerMaxSize stop.callback ∧
          stop.nparsed ≤ (firstRead config world).length) ∨
      ∃ report,
        GoesThrough http config memory world report ∧
          report.NearEnd config ∧ config.headersBufferCount = 1

/--
The first call comes to the end of the head, within the bytes received and
with no part longer than `DFK_HTTP_HEADER_MAX_SIZE`, and the URL is read.
-/
structure Completes (http : HttpParser σ) (config : Config)
    (memory : Nat → Nat → UInt8) (world : World) : Prop where
  called : IsCalled config world
  completes :
    ∃ earlier stop rest report,
      firstStops http config memory world = earlier ++ stop :: rest ∧
        firstReport config memory world earlier = some report ∧
        stop.callback = .headersComplete ∧
        report.Ends ∧
        stop.nparsed ≤ (firstRead config world).length ∧
        UrlRead http (report.urlBytes (firstGiven config memory world))
          report.answersBehind

/-- Behind the first call there is memory for a second buffer. -/
structure TakesBuffer (http : HttpParser σ) (config : Config)
    (memory : Nat → Nat → UInt8) (world : World) : Prop where
  called : IsCalled config world
  takes :
    ∃ report,
      GoesThrough http config memory world report ∧
        report.NearEnd config ∧ config.headersBufferCount ≠ 1 ∧
        (World.next report.answers).1 = true

/-!
## The first call
-/

section First

variable {http : HttpParser σ} {config : Config}
variable {memory : Nat → Nat → UInt8} {world : World}

/-- Without a call of the parser reading a head fails for other reasons. -/
theorem err_of_not_called
    {fuel : Nat} {err : Err} {request : Request σ} {later : World}
    (positive : 0 < config.headerMaxSize)
    (uncalled : ¬ IsCalled config world)
    (read :
      readHeaders http config memory (fuel + 1) world =
        .ok (err, request, later)) :
    err = .nomem ∨ err = .eof := by
  by_cases allocated : (allocEach 2 world).1 = true
  · by_cases room : config.headerMaxSize ≤ config.headersBufferSize
    · by_cases nothing : firstRead config world = []
      · rw [readHeaders, readHead_eof room positive allocated nothing] at read
        cases read
        exact Or.inr rfl
      · exact absurd ⟨allocated, room, nothing⟩ uncalled
    · have size : (firstBuf config).size = config.headersBufferSize := rfl
      rw [readHeaders, readHead, allocateHeadersBuf_first,
        if_pos allocated] at read
      dsimp only at read
      rw [readHeadersFrom] at read
      dsimp only at read
      rw [size, if_pos (Nat.lt_of_not_le room)] at read
      cases read
  · rw [Bool.not_eq_true] at allocated
    rw [readHeaders, readHead_nomem allocated] at read
    cases read
    exact Or.inl rfl

/-- Reading a head that returns has ended behind the first call. -/
theorem firstExecuted_of_readHeaders
    {fuel : Nat} {err : Err} {request : Request σ} {later : World}
    (complete : http.Complete)
    (positive : 0 < config.headerMaxSize)
    (called : IsCalled config world)
    (read :
      readHeaders http config memory (fuel + 1) world =
        .ok (err, request, later)) :
    ∃ result answers,
      firstExecuted http config memory world = .ok (.stop result) ∧
        finishHead http result = .ok (err, request, answers) := by
  cases executed : firstExecuted http config memory world with
  | error fault =>
      rw [readHeaders_of_fault fuel called.room positive called.allocated
        called.read executed] at read
      cases read
  | ok parsed =>
      cases parsed with
      | stop result =>
          rw [readHeaders_of_stop fuel called.room positive called.allocated
            called.read executed] at read
          cases finished : finishHead http result with
          | error fault =>
              rw [finished] at read
              cases read
          | ok done =>
              rw [finished] at read
              cases read
              exact ⟨result, _, rfl, finished⟩
      | next parser data curbuf =>
          -- nothing is left of the buffer, so that the next round has no room
          have empty :=
            execute_next_size complete rfl rfl
              (length_firstGiven config memory world) executed
          rw [firstExecuted] at executed
          rw [readHeaders, readHead_first called.room positive
            called.allocated called.read, executed] at read
          dsimp only at read
          cases fuel with
          | zero =>
              cases read
          | succ fuel =>
              rw [readHeadersFrom] at read
              dsimp only at read
              rw [empty, if_pos positive] at read
              cases read

/-- Where the current header begins. -/
theorem Report.nearEnd_iff
    {config : Config} {report : Report} {name : Span}
    (isName : report.name = some name) :
    report.NearEnd config ↔
      config.headersBufferSize < name.offset + config.headerMaxSize := by
  rw [Report.NearEnd, isName]
  simp

/-- The loop has no other buffer where only one is allowed. -/
theorem Report.Shown.switchBuf_overflow_iff
    {report : Report} {given : Bytes} {data : HeaderData}
    (config : Config) (memory : Nat → Nat → UInt8) (nparsed : Nat)
    (shown : report.Shown given data) :
    (∃ stopped,
        switchBuf config memory nparsed data (firstBuf config) =
          .ok (.error (.overflow, stopped))) ↔
      report.NearEnd config ∧ config.headersBufferCount = 1 := by
  have size : (firstBuf config).size = config.headersBufferSize := rfl
  rw [switchBuf, shown.name, shown.buffers]
  cases isName : report.name with
  | none =>
      constructor
      · rintro ⟨stopped, same⟩
        cases same
      · rintro ⟨⟨name, isSome, -⟩, -⟩
        rw [isName] at isSome
        cases isSome
  | some name =>
      rw [Report.nearEnd_iff isName]
      simp only [textOf, firstBuf, ne_eq, not_true_eq_false, if_false,
        Nat.zero_add, List.length_singleton]
      split
      · next isNear =>
          split
          · next isOne =>
              exact
                ⟨fun _ => ⟨isNear, isOne.symm⟩, fun _ => ⟨data, rfl⟩⟩
          · next others =>
              constructor
              · rintro ⟨stopped, same⟩
                split at same
                · cases same
                · obtain ⟨moved, -, same⟩ := of_bind same
                  cases same
              · rintro ⟨-, isOne⟩
                exact absurd isOne.symm others
      · next isFar =>
          constructor
          · rintro ⟨stopped, same⟩
            cases same
          · rintro ⟨isNear, -⟩
            exact absurd isNear isFar

/-- A callback that records `dfk_err_overflow` has met a part too long. -/
theorem Report.Shown.tooLong_of_overflow
    {report : Report} {given : Bytes} {data after : HeaderData}
    {callback : Callback}
    (shown : report.Shown given data)
    (inside :
      ∀ piece, callback.span = some piece →
        piece.offset + piece.size ≤ given.length)
    (called : onHead config callback data = .ok (.fail, after))
    (overflow : after.dfkErrno = .overflow) :
    report.TooLong given config.headerMaxSize callback := by
  have does :
      report.Does config given callback (onHead config callback data) :=
    shown.does inside
  rw [Report.Does, called] at does
  rw [Report.TooLong]
  cases added : report.add given callback with
  | none =>
      rw [added] at does
      rcases does _ _ rfl with ⟨-, -, nomem⟩ | paused
      · rw [overflow] at nomem
        cases nomem
      · cases paused
  | some later =>
      rw [added] at does
      dsimp only at does
      refine ⟨later, rfl, ?_⟩
      split at does
      · obtain ⟨other, same, -⟩ := does
        cases same
      · next long =>
          exact Nat.lt_of_not_le long

/-- A part that is too long is refused with `dfk_err_overflow`. -/
theorem Report.Shown.overflow_of_tooLong
    {report : Report} {given : Bytes} {data : HeaderData}
    {callback : Callback}
    (shown : report.Shown given data)
    (inside :
      ∀ piece, callback.span = some piece →
        piece.offset + piece.size ≤ given.length)
    (tooLong : report.TooLong given config.headerMaxSize callback) :
    ∃ after,
      onHead config callback data = .ok (.fail, after) ∧
        after.dfkErrno = .overflow := by
  obtain ⟨later, added, long⟩ := tooLong
  have does :
      report.Does config given callback (onHead config callback data) :=
    shown.does inside
  rw [Report.Does, Option.mem_def.mp added] at does
  dsimp only at does
  rw [if_neg (Nat.not_le_of_lt long)] at does
  exact does

/-- Where the first call ends with `dfk_err_overflow` it overflows. -/
theorem overflows_of_firstExecuted
    {answers : List Bool}
    (complete : http.Complete) (inOrder : http.ReportsInOrder)
    (positive : 0 < config.headerMaxSize)
    (called : IsCalled config world)
    (executed :
      firstExecuted http config memory world =
        .ok (.stop (.err .overflow answers))) :
    Overflows http config memory world := by
  refine ⟨called, ?_⟩
  rw [firstExecuted] at executed
  obtain ⟨⟨nparsed, stopped, between⟩, ran, executed⟩ := of_bind executed
  obtain ⟨_, within, executed⟩ := of_bind executed
  have ends := HttpParser.run_cases rfl ran
  cases errno : stopped.httpErrno with
  | ok =>
      simp only [errno] at executed
      obtain ⟨switch, switched, executed⟩ := of_bind executed
      rcases switch with ⟨err, stop⟩ | ⟨next, switchedBuf⟩
      · cases executed
        obtain ⟨report, through, shown, -⟩ :=
          goesThrough_of_headCall complete inOrder called.room positive
            called.allocated
            (headCall_of_run called.room positive called.read ran)
            (of_check within) errno
        have overflow :=
          (shown.switchBuf_overflow_iff config memory nparsed).mp
            ⟨stop, switched⟩
        exact Or.inr ⟨report, through, overflow⟩
      · cases executed
  | paused | protocol =>
      simp only [errno] at executed
      cases executed
  | callback =>
      simp only [errno] at executed
      have isOverflow : between.dfkErrno = .overflow := by
        simp only [pure_eq_ok, Except.ok.injEq, Parsed.stop.injEq,
          HeadRead.err.injEq] at executed
        exact executed.1
      rcases ends with ⟨-, -, -, ⟨same, -⟩ | ⟨same, -⟩⟩ | ⟨calls, -⟩
      · rw [errno] at same
        cases same
      · rw [errno] at same
        cases same
      · obtain ⟨earlier, stop, rest, verdict, before, split, proceeded,
          handled, verdicts, count, -⟩ := HttpParser.callbacks_some _ calls
        rcases verdicts with ⟨rfl, -⟩ | ⟨-, same⟩
        · obtain ⟨report, reported, shown⟩ :=
            (firstReport_iff inOrder called.allocated split).2 before
              proceeded
          have member : stop ∈ firstStops http config memory world := by
            rw [firstStops, split]
            simp
          have tooLong :=
            shown.tooLong_of_overflow
              (fun piece isPiece => inOrder.inside member isPiece) handled
              isOverflow
          rw [count] at within
          exact
            Or.inl
              ⟨earlier, stop, rest, report, split, reported, tooLong,
                of_check within⟩
        · rw [errno] at same
          cases same

/-- A query is not refused for its length. -/
theorem parseQuery_err
    (query : Bytes) :
    ∀ (state : QueryState) (arguments : Headers) (answers : List Bool),
      (parseQuery state arguments answers query).1 ≠ .overflow := by
  induction query with
  | nil =>
      intro state arguments answers
      cases state with
      | initial | readingKey | observingSign =>
          rw [parseQuery]
          · exact nofun
          all_goals exact nofun
      | readingValue key value =>
          rw [parseQuery]
          rcases addArgument arguments answers
              { name := key, value := value } with
            ⟨_ | stored, rest⟩
          · exact nofun
          · exact nofun
  | cons character query inductionHypothesis =>
      intro state arguments answers
      rw [parseQuery]
      rcases queryStep state character with ⟨next, _ | argument⟩
      · exact inductionHypothesis next arguments answers
      · dsimp only
        rcases addArgument arguments answers argument with
          ⟨_ | stored, rest⟩
        · exact nofun
        · exact inductionHypothesis next stored rest

/-- Nor is a URL. -/
theorem readUrl_err
    (http : HttpParser σ) (request : Request σ) (answers : List Bool) :
    (readUrl http request answers).1 ≠ .overflow := by
  intro overflow
  obtain ⟨fields, -, queried⟩ :=
    (readUrl_err_iff http request answers
      (by decide : Err.overflow ≠ .protocol)).mp overflow
  rw [readQuery] at queried
  split at queried
  · cases queried
  · split at queried
    · cases queried
    · split at queried
      · cases queried
      · exact parseQuery_err _ _ _ _ queried

/-- Where the first call overflows, reading the head does. -/
theorem Overflows.readHeaders
    (overflows : Overflows http config memory world) (fuel : Nat)
    (complete : http.Complete) (inOrder : http.ReportsInOrder)
    (positive : 0 < config.headerMaxSize) :
    ∃ request later,
      Http.readHeaders http config memory (fuel + 1) world =
        .ok (.overflow, request, later) := by
  obtain ⟨called, ⟨earlier, stop, rest, report, split, reported, tooLong,
    within⟩ | ⟨report, through, overflow⟩⟩ := overflows
  · obtain ⟨before, proceeded, shown⟩ :=
      (firstReport_iff inOrder called.allocated split).1 report reported
    have member : stop ∈ firstStops http config memory world := by
      rw [split]
      simp
    obtain ⟨after, handled, isOverflow⟩ :=
      shown.overflow_of_tooLong
        (fun piece isPiece => inOrder.inside member isPiece) tooLong
    have executed := firstExecuted_of_fail split proceeded handled
    rw [if_pos within, isOverflow] at executed
    rw [readHeaders_of_stop fuel called.room positive called.allocated
      called.read executed]
    exact ⟨_, _, rfl⟩
  · obtain ⟨call, isCall, within, proceeds, shown, -⟩ :=
      through.headCall complete inOrder called.room positive
    obtain ⟨-, isReceived, -, ran⟩ :=
      headCall_first called.room positive isCall
    obtain ⟨stopped, switched⟩ :=
      (shown.switchBuf_overflow_iff config memory call.nparsed).mpr overflow
    have executed :
        firstExecuted http config memory world =
          .ok (.stop (.err .overflow stopped.allocations)) := by
      rw [isReceived] at within
      rw [firstExecuted, execute, ran, ok_bind]
      dsimp only
      rw [afterExecute, check_pos within, ok_bind, proceeds]
      dsimp only
      rw [switched]
      rfl
    rw [readHeaders_of_stop fuel called.room positive called.allocated
      called.read executed]
    exact ⟨_, _, rfl⟩

/-- Reading a head fails with `dfk_err_overflow` where its first call does. -/
theorem readHeaders_overflow_iff
    (memory : Nat → Nat → UInt8) (world : World) (fuel : Nat)
    (complete : http.Complete) (inOrder : http.ReportsInOrder)
    (positive : 0 < config.headerMaxSize) :
    (∃ request later,
        readHeaders http config memory (fuel + 1) world =
          .ok (.overflow, request, later)) ↔
      Overflows http config memory world := by
  constructor
  · rintro ⟨request, later, read⟩
    by_cases called : IsCalled config world
    · obtain ⟨result, answers, executed, finished⟩ :=
        firstExecuted_of_readHeaders complete positive called read
      cases result with
      | err err left =>
          cases finished
          exact
            overflows_of_firstExecuted complete inOrder positive called
              executed
      | parsed data parser remainder =>
          -- behind the loop nothing fails with `dfk_err_overflow`
          obtain ⟨url, -, finished⟩ := of_bind finished
          have overflow := congrArg Prod.fst (Except.ok.inj finished)
          exact absurd overflow (readUrl_err _ _ _)
    · rcases err_of_not_called positive called read with nomem | eof
      · cases nomem
      · cases eof
  · intro overflows
    exact overflows.readHeaders fuel complete inOrder positive

/-- A head is read without an error where its first call completes it. -/
theorem readHeaders_ok_iff
    (memory : Nat → Nat → UInt8) (world : World) (fuel : Nat)
    (complete : http.Complete) (inOrder : http.ReportsInOrder)
    (headsFirst : http.HeadsFirst)
    (positive : 0 < config.headerMaxSize) :
    (∃ request later,
        readHeaders http config memory (fuel + 1) world =
          .ok (.ok, request, later)) ↔
      Completes http config memory world := by
  constructor
  · rintro ⟨request, later, read⟩
    by_cases called : IsCalled config world
    · obtain ⟨result, answers, executed, finished⟩ :=
        firstExecuted_of_readHeaders complete positive called read
      cases result with
      | err err left =>
          cases finished
          exact absurd rfl (execute_sound rfl executed)
      | parsed data parser remainder =>
          obtain ⟨earlier, stop, rest, before, split, proceeded, handled, -,
            -, within⟩ := execute_parsed rfl executed
          have isEnd := isEnd_of_pause headsFirst split proceeded handled
          obtain ⟨report, reported, shown⟩ :=
            (firstReport_iff inOrder called.allocated split).2 before
              proceeded
          rw [isEnd] at handled
          have ends := shown.ends handled
          obtain ⟨after, completed, url, buffers, behind⟩ :=
            shown.completes ends
          rw [onHead, completed] at handled
          cases handled
          rw [finishHead_parsed shown url buffers, behind] at finished
          have queried :=
            (readUrl_err_iff http _ _ (by decide : Err.ok ≠ .protocol)).mp
              (congrArg Prod.fst (Except.ok.inj finished))
          exact
            ⟨called, earlier, stop, rest, report, split, reported, isEnd,
              ends, within, queried⟩
    · rcases err_of_not_called positive called read with nomem | eof
      · cases nomem
      · cases eof
  · rintro ⟨called, earlier, stop, rest, report, split, reported, isEnd,
      ends, within, queried⟩
    obtain ⟨before, proceeded, shown⟩ :=
      (firstReport_iff inOrder called.allocated split).1 report reported
    obtain ⟨after, completed, url, buffers, behind⟩ := shown.completes ends
    have handled :
        onHead config stop.callback before = .ok (.pause, after) := by
      rw [isEnd]
      exact completed
    have executed := firstExecuted_of_pause split proceeded handled
    rw [if_pos within] at executed
    rw [readHeaders_of_stop fuel called.room positive called.allocated
      called.read executed, finishHead_parsed shown url buffers, behind]
    have isOk :=
      (readUrl_err_iff http
        (preprocess http after { state := stop.resume, httpErrno := .ok }
          ((firstRead config world).drop stop.nparsed)
          (report.urlBytes (firstGiven config memory world)))
        report.answersBehind (by decide : Err.ok ≠ .protocol)).mpr queried
    exact ⟨_, _, congrArg Except.ok (Prod.ext isOk rfl)⟩

/-!
## Buffers
-/

/-- Whether an event is a call of `dfk__malloc`. -/
def BufferEvent.isMalloc : BufferEvent → Bool
  | .malloc _ => true
  | _ => false

/-- No more buffers are held than have been allocated. -/
theorem held_le (events : List BufferEvent) :
    held events ≤ events.countP BufferEvent.isMalloc := by
  have behind (count : Nat) :
      events.foldl BufferEvent.hold count ≤
        count + events.countP BufferEvent.isMalloc := by
    induction events generalizing count with
    | nil =>
        exact Nat.le_refl count
    | cons event events inductionHypothesis =>
        have rest := inductionHypothesis (event.hold count)
        rw [List.foldl_cons, List.countP_cons]
        cases event with
        | malloc buffer =>
            exact rest.trans (Nat.le_of_eq (Nat.add_right_comm count 1 _))
        | append buffer =>
            exact rest
        | free buffer =>
            exact
              rest.trans (Nat.add_le_add_right (Nat.sub_le count 1) _)
  have all := behind 0
  rw [Nat.zero_add] at all
  exact all

/-- Nor are there more on the way. -/
theorem held_le_of_mem_inits
    {events earlier : List BufferEvent}
    (member : earlier ∈ events.inits) :
    held earlier ≤ events.countP BufferEvent.isMalloc :=
  (held_le earlier).trans
    ((List.mem_inits earlier events).mp member).sublist.countP_le

/-- The switch behind the first call takes a buffer if the header is near. -/
theorem Report.Shown.switchEvents
    {report : Report} {given : Bytes} {data : HeaderData}
    (config : Config) (shown : report.Shown given data) :
    Http.switchEvents config data (firstBuf config) = [] ∧
        ¬ (report.NearEnd config ∧ config.headersBufferCount ≠ 1 ∧
          (World.next report.answers).1 = true) ∨
      (∃ event,
          event.isMalloc = false ∧
            Http.switchEvents config data (firstBuf config) =
              [.malloc 1, event]) ∧
        report.NearEnd config ∧ config.headersBufferCount ≠ 1 ∧
          (World.next report.answers).1 = true := by
  rw [Http.switchEvents, allocateEvents, shown.name, shown.buffers,
    shown.answers]
  cases isName : report.name with
  | none =>
      refine Or.inl ⟨rfl, ?_⟩
      rintro ⟨⟨name, isSome, -⟩, -⟩
      rw [isName] at isSome
      cases isSome
  | some name =>
      rw [Report.nearEnd_iff isName]
      simp only [textOf, firstBuf, ne_eq, not_true_eq_false, if_false,
        Nat.zero_add, List.length_singleton]
      split
      · next isNear =>
          split
          · next isOne =>
              exact Or.inl ⟨rfl, fun takes => takes.2.1 isOne.symm⟩
          · next others =>
              rcases World.next report.answers with ⟨_ | _, answers⟩
              · exact Or.inl ⟨rfl, fun takes => Bool.noConfusion takes.2.2⟩
              · right
                dsimp only
                rcases World.next answers with ⟨_ | _, rest⟩
                · exact ⟨⟨_, rfl, rfl⟩, isNear, Ne.symm others, rfl⟩
                · exact ⟨⟨_, rfl, rfl⟩, isNear, Ne.symm others, rfl⟩
      · next isFar =>
          exact Or.inl ⟨rfl, fun takes => isFar takes.1⟩

/-- What the first call does with buffers, besides the first one. -/
theorem executeEvents_first
    (memory : Nat → Nat → UInt8)
    (complete : http.Complete) (inOrder : http.ReportsInOrder)
    (positive : 0 < config.headerMaxSize)
    (called : IsCalled config world) :
    executeEvents http config { state := http.init, httpErrno := .ok }
          (firstBuf config) (firstRead config world)
          (firstGiven config memory world)
          (firstData config memory world) = [] ∧
        ¬ TakesBuffer http config memory world ∨
      (∃ event,
          event.isMalloc = false ∧
            executeEvents http config
                { state := http.init, httpErrno := .ok } (firstBuf config)
                (firstRead config world) (firstGiven config memory world)
                (firstData config memory world) =
              [.malloc 1, event]) ∧
        TakesBuffer http config memory world := by
  by_cases through :
      ∃ report, GoesThrough http config memory world report
  · obtain ⟨report, through⟩ := through
    obtain ⟨call, isCall, within, proceeds, shown, -⟩ :=
      through.headCall complete inOrder called.room positive
    obtain ⟨-, isReceived, -, ran⟩ :=
      headCall_first called.room positive isCall
    rw [isReceived] at within
    have taken :
        TakesBuffer http config memory world ↔
          report.NearEnd config ∧ config.headersBufferCount ≠ 1 ∧
            (World.next report.answers).1 = true := by
      constructor
      · rintro ⟨-, other, otherThrough, takes⟩
        have same := through.reported.symm.trans otherThrough.reported
        cases same
        exact takes
      · intro takes
        exact ⟨called, report, through, takes⟩
    rw [executeEvents, ran, taken]
    dsimp only
    rw [if_pos ⟨within, proceeds⟩]
    exact shown.switchEvents config
  · left
    refine ⟨?_, fun takes => through ?_⟩
    · rw [executeEvents]
      split
      · rfl
      · next nparsed parser data ran =>
          split
          · next goesOn =>
              obtain ⟨report, goes, -⟩ :=
                goesThrough_of_headCall complete inOrder called.room
                  positive called.allocated
                  (headCall_of_run called.room positive called.read ran)
                  goesOn.1 goesOn.2
              exact absurd ⟨report, goes⟩ through
          · rfl
    · obtain ⟨-, report, goes, -⟩ := takes
      exact ⟨report, goes⟩

/-- Reading a head does with buffers what its first call does. -/
theorem readEvents_first
    (memory : Nat → Nat → UInt8) (fuel : Nat)
    (complete : http.Complete)
    (positive : 0 < config.headerMaxSize)
    (called : IsCalled config world) :
    readEvents http config memory (fuel + 1) world =
      [.malloc 0, .append 0] ++
        executeEvents http config { state := http.init, httpErrno := .ok }
          (firstBuf config) (firstRead config world)
          (firstGiven config memory world)
          (firstData config memory world) := by
  have allocation :=
    grows_allocateEvents config memory (noHeaders world.allocations)
  have reads :=
    tcpSocketRead_first called.room positive called.read
  have filled := fillBuf_first config memory world
  have size : (firstBuf config).size = config.headersBufferSize := rfl
  obtain ⟨byte, bytes, isRead⟩ := List.exists_cons_of_ne_nil called.read
  rw [allocateHeadersBuf_first, if_pos called.allocated] at allocation
  rw [readEvents, allocation.2, allocateHeadersBuf_first,
    if_pos called.allocated]
  dsimp only
  rw [readEventsFrom]
  dsimp only
  rw [isRead] at reads filled ⊢
  rw [size, if_neg (Nat.not_lt_of_le called.room), reads]
  dsimp only
  rw [filled]
  dsimp only
  congr 1
  rw [← List.append_nil (executeEvents _ _ _ _ _ _ _), List.append_assoc]
  congr 1
  split
  · next parser data curbuf executed =>
      have empty :=
        execute_next_size complete rfl rfl
          (length_firstGiven config memory world) executed
      cases fuel with
      | zero =>
          rfl
      | succ fuel =>
          rw [readEventsFrom]
          dsimp only
          rw [empty, if_pos positive]
          rfl
  · rfl

/-- Without a call of the parser there is at most one buffer. -/
theorem readEvents_of_not_called
    (http : HttpParser σ) (memory : Nat → Nat → UInt8) (fuel : Nat)
    (positive : 0 < config.headerMaxSize)
    (uncalled : ¬ IsCalled config world) :
    (readEvents http config memory (fuel + 1) world).countP
        BufferEvent.isMalloc ≤ 1 := by
  have first :
      (allocateEvents (noHeaders world.allocations)).countP
          BufferEvent.isMalloc ≤ 1 := by
    rw [allocateEvents]
    rcases World.next (noHeaders world.allocations).allocations with
      ⟨_ | _, answers⟩
    · exact Nat.zero_le 1
    · dsimp only
      rcases World.next answers with ⟨_ | _, rest⟩
      · exact Nat.le_refl 1
      · exact Nat.le_refl 1
  rw [readEvents, allocateHeadersBuf_first]
  by_cases allocated : (allocEach 2 world).1 = true
  · have nothing :
        readEventsFrom http config memory (fuel + 1)
            { parser := { state := http.init, httpErrno := .ok }
              data := withBuffer config memory world
              curbuf := firstBuf config
              world := world } = [] := by
      have size : (firstBuf config).size = config.headersBufferSize := rfl
      rw [readEventsFrom]
      dsimp only
      rw [size]
      split
      · rfl
      · next room =>
          have read : firstRead config world = [] := by
            by_contra some
            exact uncalled ⟨allocated, Nat.le_of_not_lt room, some⟩
          have asked : config.headersBufferSize ≠ 0 := by omega
          rcases tcpSocketRead_eof asked read with reads | reads
          · rw [reads]
          · rw [reads]
    rw [if_pos allocated]
    dsimp only
    rw [nothing, List.append_nil]
    exact first
  · rw [if_neg allocated]
    dsimp only
    rw [List.append_nil]
    exact first

/-- There are more buffers than allowed if none is, and a second is taken. -/
theorem held_le_iff
    (memory : Nat → Nat → UInt8) (world : World) (fuel : Nat)
    (complete : http.Complete) (inOrder : http.ReportsInOrder)
    (positive : 0 < config.headerMaxSize) :
    (∀ events ∈ (readEvents http config memory (fuel + 1) world).inits,
        held events ≤ max 1 config.headersBufferCount) ↔
      (TakesBuffer http config memory world →
        config.headersBufferCount ≠ 0) := by
  by_cases called : IsCalled config world
  · rw [readEvents_first memory fuel complete positive called]
    rcases executeEvents_first memory complete inOrder positive called with
      ⟨nothing, stays⟩ | ⟨⟨event, noMalloc, isSecond⟩, takes⟩
    · rw [nothing]
      refine ⟨fun _ takes => absurd takes stays, fun _ => ?_⟩
      intro events member
      exact (held_le_of_mem_inits member).trans (Nat.le_max_left 1 _)
    · rw [isSecond]
      constructor
      · intro atMost _ none
        -- the second buffer is held before its entry is allocated
        have second := atMost [.malloc 0, .append 0, .malloc 1] (by simp)
        rw [none] at second
        exact absurd second (by decide)
      · intro allowed
        have some := allowed takes
        obtain ⟨-, report, -, -, others, -⟩ := takes
        have two : 2 ≤ config.headersBufferCount := by omega
        have mallocs :
            ([.malloc 0, .append 0, .malloc 1, event] :
                List BufferEvent).countP BufferEvent.isMalloc ≤ 2 := by
          have isOther : ¬ event.isMalloc = true := by
            rw [noMalloc]
            exact Bool.false_ne_true
          rw [List.countP_cons_of_pos rfl,
            List.countP_cons_of_neg Bool.false_ne_true,
            List.countP_cons_of_pos rfl, List.countP_cons_of_neg isOther,
            List.countP_nil]
        intro events member
        calc
          held events ≤ _ := held_le_of_mem_inits member
          _ ≤ 2 := mallocs
          _ ≤ max 1 config.headersBufferCount :=
            two.trans (Nat.le_max_right _ _)
  · refine ⟨fun _ takes => absurd takes.called called, fun _ => ?_⟩
    intro events member
    calc
      held events ≤ _ := held_le_of_mem_inits member
      _ ≤ 1 := readEvents_of_not_called http memory fuel positive called
      _ ≤ max 1 config.headersBufferCount := Nat.le_max_left _ _

end First

end Dfk.Http
