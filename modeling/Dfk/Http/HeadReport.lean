import Dfk.Http.HeaderBlock
import Dfk.Http.HeadRounds

/-!
# What the parser reports of a head

The callbacks of `dfk__http_request_read_headers` keep pointers into a buffer.
Here the same is said in parts of the bytes that the parser is given: which of
them are the URL and the current header, and what a callback makes of them.
-/

namespace Dfk.Http

variable {σ : Type}

/--
What has been reported of a head: its URL, the current header and those before
it, with the answers the allocator has left.
-/
structure Report where
  url : Option Span
  name : Option Span
  value : Option Span
  headers : List Header
  answers : List Bool
  deriving Repr, DecidableEq

/-- A part with a piece more, which has to follow it at once. -/
def joined : Option Span → Span → Option Span
  | none, piece => some piece
  | some part, piece =>
      if part.offset + part.size = piece.offset then
        some { part with size := part.size + piece.size }
      else none

namespace Report

/-- Nothing has been reported. -/
def start (answers : List Bool) : Report where
  url := none
  name := none
  value := none
  headers := []
  answers := answers

/-- The next header begins if the one before it can be stored. -/
def store (given : Bytes) (report : Report) (name value piece : Span) :
    Option Report :=
  match World.next report.answers with
  | (false, _) => none
  | (true, answers) =>
      if name.size = 0 then none
      else
        some
          { report with
            name := some piece
            value := none
            headers :=
              report.headers ++
                [{ name := name.part given, value := value.part given }]
            answers := answers }

/-- What has been reported behind a callback, if the parser may go on. -/
def add (given : Bytes) (report : Report) : Callback → Option Report
  | .messageBegin | .chunkHeader | .chunkComplete => some report
  | .url piece =>
      (joined report.url piece).map fun url =>
        { report with url := some url }
  | .headerField piece =>
      match report.value, report.name with
      | none, name =>
          (joined name piece).map fun name =>
            { report with name := some name }
      | some value, some name => store given report name value piece
      | some _, none => none
  | .headerValue piece =>
      (joined report.value piece).map fun value =>
        { report with value := some value }
  | .headersComplete | .messageComplete | .body _ => none

/-- How long the part is that a callback has added to. -/
def length (report : Report) : Callback → Nat
  | .url _ => (report.url.map Span.size).getD 0
  | .headerField _ => (report.name.map Span.size).getD 0
  | .headerValue _ => (report.value.map Span.size).getD 0
  | _ => 0

/-- What has been reported behind a callback that adds no part too long. -/
def next (given : Bytes) (limit : Nat) (report : Report)
    (callback : Callback) : Option Report :=
  (report.add given callback).filter
    fun later => later.length callback ≤ limit

/-- What has been reported behind callbacks with which the parser goes on. -/
def after (given : Bytes) (limit : Nat) (report : Report)
    (callbacks : List Callback) : Option Report :=
  callbacks.foldlM (next given limit) report

/-- A callback makes a part too long. -/
def TooLong (given : Bytes) (limit : Nat) (report : Report)
    (callback : Callback) : Prop :=
  ∃ later ∈ report.add given callback, limit < later.length callback

/-- A callback stores a header, for which there is no memory. -/
def Refused (report : Report) : Callback → Prop
  | .headerField _ =>
      report.value.isSome ∧ (World.next report.answers).1 = false
  | .headersComplete =>
      report.name.isSome ∧ report.value.isSome ∧
        (World.next report.answers).1 = false
  | _ => False

end Report

/-! ## Pointers and parts -/

/-- The text of a part of the first buffer. -/
def textOf : Option Span → Text
  | none => .null
  | some part =>
      { data := some { buffer := 0, offset := part.offset }
        size := part.size }

/-- The callbacks' data shows what has been reported. -/
structure Report.Shown (given : Bytes) (report : Report) (data : HeaderData) :
    Prop where
  buffers : data.buffers = [given]
  base : data.base = { buffer := 0, offset := 0 }
  url : data.url = textOf report.url
  name : data.cheaderField = textOf report.name
  value :
    match report.value with
    | some value => data.cheaderValue = textOf (some value)
    | none => data.cheaderValue.data = none
  urlInside : ∀ part ∈ report.url, part.offset + part.size ≤ given.length
  nameInside : ∀ part ∈ report.name, part.offset + part.size ≤ given.length
  valueInside : ∀ part ∈ report.value, part.offset + part.size ≤ given.length
  headers : data.headers = report.headers.foldl Headers.insert .leaf
  answers : data.allocations = report.answers

/-- A piece is appended to the text of a part if it follows it. -/
theorem append_textOf (part : Option Span) (piece : Span) :
    (textOf part).append { buffer := 0, offset := 0 + piece.offset }
        piece.size =
      match joined part piece with
      | some whole => .ok (textOf (some whole))
      | none => .error .assertion := by
  cases part with
  | none =>
      rw [Nat.zero_add]
      rfl
  | some part =>
      rw [textOf, Text.append, joined]
      dsimp only
      rw [Nat.zero_add]
      by_cases follows : part.offset + part.size = piece.offset
      · rw [check_pos ⟨rfl, follows⟩, if_pos follows]
        rfl
      · rw [check_neg (fun both => follows both.2), if_neg follows]
        rfl

/-- The bytes of the text of a part. -/
theorem bytes_textOf
    {given : Bytes} {part : Span}
    (inside : part.offset + part.size ≤ given.length) :
    (textOf (some part)).bytes [given] = .ok (part.part given) := by
  rw [textOf, Text.bytes]
  refine if_pos ?_
  rw [List.length_take, List.length_drop, List.getD_cons_zero]
  dsimp only
  omega

/-- A part that is joined is inside what its parts are inside of. -/
theorem joined_inside
    {length : Nat} {part : Option Span} {piece whole : Span}
    (isWhole : joined part piece = some whole)
    (pieceInside : piece.offset + piece.size ≤ length) :
    whole.offset + whole.size ≤ length := by
  rw [joined.eq_def] at isWhole
  split at isWhole
  · cases isWhole
    exact pieceInside
  · split at isWhole
    · cases isWhole
      dsimp only
      omega
    · cases isWhole

section Steps

variable {config : Config} {given : Bytes} {report : Report}
variable {data : HeaderData}

/-- Flushing a header, when there is a value. -/
theorem Report.Shown.flushHeader
    {value : Span}
    (shown : report.Shown given data) (isValue : report.value = some value) :
    Http.flushHeader data =
      match World.next report.answers, report.name with
      | (false, answers), _ =>
          .ok
            (.fail,
              { data with allocations := answers, dfkErrno := .nomem })
      | (true, answers), some name =>
          if name.size = 0 then .error .assertion
          else
            .ok
              (.proceed,
                { data with
                  allocations := answers
                  headers :=
                    data.headers.insert
                      { name := name.part given
                        value := value.part given } })
      | (true, _), none => .error .assertion := by
  have isText := shown.value
  rw [isValue] at isText
  rw [Http.flushHeader, shown.answers]
  rcases World.next report.answers with ⟨_ | _, answers⟩
  · rfl
  · dsimp only
    rw [shown.name, isText, shown.buffers,
      bytes_textOf (shown.valueInside value isValue)]
    cases isName : report.name with
    | none =>
        rfl
    | some name =>
        have inside := shown.nameInside name isName
        rw [bytes_textOf inside, ok_bind, ok_bind]
        dsimp only
        by_cases empty : name.size = 0
        · have nothing : name.part given = [] := by
            rw [Span.part, empty, List.take_zero]
          rw [if_pos empty, check_neg]
          · rfl
          · exact fun both => both.2 nothing
        · have something : name.part given ≠ [] := by
            intro nothing
            have length := congrArg List.length nothing
            rw [Span.part, List.length_take, List.length_drop,
              List.length_nil] at length
            omega
          rw [if_neg empty, check_pos ⟨rfl, something⟩]
          rfl

/-- A part that is too long is refused with `dfk_err_overflow`. -/
theorem limit_eq (text : Text) (data : HeaderData) :
    (pure (HeaderData.limit config text data) :
        Except Fault (Verdict × HeaderData)) =
      if text.size ≤ config.headerMaxSize then .ok (.proceed, data)
      else .ok (.fail, { data with dfkErrno := .overflow }) := by
  rw [HeaderData.limit]
  by_cases fits : text.size ≤ config.headerMaxSize
  · rw [if_neg (Nat.not_lt_of_le fits), if_pos fits]
    rfl
  · rw [if_pos (Nat.lt_of_not_le fits), if_neg fits]
    rfl

/-- What a callback does, in terms of what has been reported. -/
def Report.Does (config : Config) (given : Bytes) (report : Report)
    (callback : Callback) (done : Except Fault (Verdict × HeaderData)) :
    Prop :=
  match report.add given callback with
  | some later =>
      if later.length callback ≤ config.headerMaxSize then
        ∃ after, done = .ok (.proceed, after) ∧ later.Shown given after
      else ∃ after, done = .ok (.fail, after) ∧ after.dfkErrno = .overflow
  | none =>
      ∀ verdict after, done = .ok (verdict, after) →
        verdict = .fail ∧ report.Refused callback ∧
            after.dfkErrno = .nomem ∨
          verdict = .pause

/-- A callback that adds to a part, whose length is checked behind. -/
theorem Report.does_of_limit
    {callback : Callback} {later : Report} {text : Text}
    {after : HeaderData}
    (added : report.add given callback = some later)
    (size : text.size = later.length callback)
    (shown : later.Shown given after) :
    report.Does config given callback
      (pure (HeaderData.limit config text after)) := by
  rw [Report.Does, added, limit_eq, size]
  dsimp only
  split
  · exact ⟨after, rfl, shown⟩
  · exact ⟨_, rfl, rfl⟩

/-- Each callback does what has to be done with what it reports. -/
theorem Report.Shown.does
    {callback : Callback}
    (shown : report.Shown given data)
    (inside :
      ∀ piece, callback.span = some piece →
        piece.offset + piece.size ≤ given.length) :
    report.Does config given callback (onHead config callback data) := by
  have place (piece : Span) :
      data.place piece = { buffer := 0, offset := 0 + piece.offset } := by
    rw [HeaderData.place, shown.base]
  cases callback with
  | messageBegin | chunkHeader | chunkComplete =>
      exact ⟨data, rfl, shown⟩
  | body piece =>
      intro verdict after done
      cases done
  | messageComplete =>
      intro verdict after done
      cases done
      exact Or.inr rfl
  | headersComplete =>
      intro verdict after done
      refine Or.inr ?_
      simp only [onHead, onHeadersComplete] at done
      split at done
      · obtain ⟨-, -, done⟩ := of_bind done
        obtain ⟨⟨flushVerdict, between⟩, -, done⟩ := of_bind done
        cases done
        rfl
      · cases done
        rfl
  | url piece =>
      have pieceInside := inside piece rfl
      have appended := append_textOf report.url piece
      rw [onHead, onUrl, shown.url, place, appended]
      cases isWhole : joined report.url piece with
      | none =>
          rw [Report.Does, Report.add, isWhole]
          intro verdict after done
          cases done
      | some whole =>
          refine Report.does_of_limit
            (by rw [Report.add, isWhole]; rfl) rfl ?_
          exact
            { shown with
              url := rfl
              urlInside := fun part isPart => by
                cases isPart
                exact joined_inside isWhole pieceInside }
  | headerValue piece =>
      have pieceInside := inside piece rfl
      have isText := shown.value
      have valued (whole : Span)
          (isWhole : joined report.value piece = some whole) :
          report.Does config given (.headerValue piece)
            (pure
              (HeaderData.limit config (textOf (some whole))
                { data with cheaderValue := textOf (some whole) })) := by
        refine Report.does_of_limit (by rw [Report.add, isWhole]; rfl) rfl ?_
        exact
          { shown with
            value := rfl
            valueInside := fun part isPart => by
              cases isPart
              exact joined_inside isWhole pieceInside }
      rw [onHead, onHeaderValue]
      cases isValue : report.value with
      | none =>
          rw [isValue] at isText
          rw [isText]
          dsimp only
          rw [pure_eq_ok, ok_bind, place, Nat.zero_add]
          exact valued piece (by rw [isValue]; rfl)
      | some value =>
          rw [isValue] at isText
          have appended := append_textOf (some value) piece
          rw [isText]
          dsimp only [textOf] at appended ⊢
          rw [place, appended]
          cases isWhole : joined (some value) piece with
          | none =>
              rw [Report.Does, Report.add, isValue, isWhole]
              intro verdict after done
              cases done
          | some whole =>
              exact valued whole (by rw [isValue, isWhole])
  | headerField piece =>
      have pieceInside := inside piece rfl
      have isText := shown.value
      rw [onHead, onHeaderField]
      cases isValue : report.value with
      | none =>
          rw [isValue] at isText
          have appended := append_textOf report.name piece
          rw [if_neg (by rw [isText]; exact Bool.false_ne_true), shown.name,
            place, appended]
          cases isWhole : joined report.name piece with
          | none =>
              rw [Report.Does, Report.add, isValue]
              dsimp only
              rw [isWhole]
              intro verdict after done
              cases done
          | some whole =>
              have added :
                  report.add given (.headerField piece) =
                    some { report with name := some whole } := by
                rw [Report.add, isValue]
                dsimp only
                rw [isWhole]
                rfl
              refine Report.does_of_limit added rfl ?_
              exact
                { shown with
                  name := rfl
                  value := by
                    rw [isValue]
                    exact isText
                  nameInside := fun part isPart => by
                    cases isPart
                    exact joined_inside isWhole pieceInside }
      | some value =>
          rw [isValue] at isText
          rw [if_pos (by rw [isText]; rfl), shown.flushHeader isValue]
          rcases answered : World.next report.answers with
            ⟨_ | _, answers⟩
          · have notAdded :
                report.add given (.headerField piece) = none := by
              rw [Report.add, isValue]
              cases report.name with
              | none =>
                  rfl
              | some name =>
                  dsimp only
                  rw [Report.store, answered]
            rw [Report.Does, notAdded]
            intro verdict after done
            cases done
            refine Or.inl ⟨rfl, ⟨?_, ?_⟩, rfl⟩
            · rw [isValue]
              rfl
            · rw [answered]
          · cases isName : report.name with
            | none =>
                rw [Report.Does, Report.add, isValue, isName]
                intro verdict after done
                cases done
            | some name =>
                have stored :
                    report.add given (.headerField piece) =
                      if name.size = 0 then none
                      else
                        some
                          { report with
                            name := some piece
                            value := none
                            headers :=
                              report.headers ++
                                [{ name := name.part given
                                   value := value.part given }]
                            answers := answers } := by
                  rw [Report.add, isValue, isName]
                  dsimp only
                  rw [Report.store, answered]
                dsimp only
                by_cases empty : name.size = 0
                · rw [if_pos empty] at stored ⊢
                  rw [Report.Does, stored]
                  intro verdict after done
                  cases done
                · rw [if_neg empty] at stored ⊢
                  refine Report.does_of_limit stored rfl ?_
                  exact
                    { buffers := shown.buffers
                      base := shown.base
                      url := shown.url
                      name := by
                        rw [HeaderData.place]
                        dsimp only
                        rw [shown.base, Nat.zero_add]
                        rfl
                      value := rfl
                      urlInside := shown.urlInside
                      nameInside := fun part isPart => by
                        cases isPart
                        exact pieceInside
                      valueInside := fun part isPart => by
                        cases isPart
                      headers := by
                        rw [List.foldl_append, ← shown.headers]
                        rfl
                      answers := rfl }

/-- The parser goes on with a callback that adds no part too long. -/
theorem Report.Shown.of_next
    {callback : Callback} {later : Report}
    (shown : report.Shown given data)
    (inside :
      ∀ piece, callback.span = some piece →
        piece.offset + piece.size ≤ given.length)
    (next :
      report.next given config.headerMaxSize callback = some later) :
    ∃ after,
      onHead config callback data = .ok (.proceed, after) ∧
        later.Shown given after := by
  have does :
      report.Does config given callback (onHead config callback data) :=
    shown.does inside
  rw [Report.next] at next
  obtain ⟨added, fits⟩ := Option.filter_eq_some_iff.mp next
  rw [Report.Does, added] at does
  dsimp only at does
  rw [if_pos (of_decide_eq_true fits)] at does
  exact does

/-- Where it goes on, it is with such a callback. -/
theorem Report.Shown.proceeds
    {callback : Callback} {after : HeaderData}
    (shown : report.Shown given data)
    (inside :
      ∀ piece, callback.span = some piece →
        piece.offset + piece.size ≤ given.length)
    (called : onHead config callback data = .ok (.proceed, after)) :
    ∃ later,
      report.next given config.headerMaxSize callback = some later ∧
        later.Shown given after := by
  have does :
      report.Does config given callback (onHead config callback data) :=
    shown.does inside
  rw [Report.Does] at does
  cases added : report.add given callback with
  | none =>
      rw [added] at does
      rcases does _ _ called with ⟨failed, -⟩ | paused
      · cases failed
      · cases paused
  | some later =>
      rw [added] at does
      dsimp only at does
      split at does
      · next fits =>
          obtain ⟨other, same, later⟩ := does
          rw [called] at same
          cases same
          refine ⟨_, ?_, later⟩
          rw [Report.next, added]
          exact Option.filter_some_pos (decide_eq_true fits)
      · obtain ⟨other, same, -⟩ := does
        rw [called] at same
        cases same

/-- The last header, if there is one, has a value, and a name to be stored. -/
def Report.Ends (report : Report) : Prop :=
  ∀ name ∈ report.name,
    report.value.isSome ∧
      ((World.next report.answers).1 = true → name.size ≠ 0)

/-- The answers that are left behind the last header. -/
def Report.answersBehind (report : Report) : List Bool :=
  match report.name with
  | some _ => (World.next report.answers).2
  | none => report.answers

/-- The bytes of the URL. -/
def Report.urlBytes (given : Bytes) (report : Report) : Bytes :=
  match report.url with
  | some part => part.part given
  | none => []

/-- The text of the URL holds its bytes. -/
theorem Report.Shown.urlBytes
    (shown : report.Shown given data) :
    data.url.bytes data.buffers = .ok (report.urlBytes given) := by
  rw [shown.url, shown.buffers, Report.urlBytes]
  cases isUrl : report.url with
  | none =>
      rfl
  | some part =>
      exact bytes_textOf (shown.urlInside part isUrl)

/-- A part has a text. -/
theorem isSome_textOf (part : Span) :
    (textOf (some part)).data.isSome = true :=
  rfl

/-- What the end of a head does with the last header. -/
theorem Report.Shown.completes
    (shown : report.Shown given data) (ends : report.Ends) :
    ∃ after,
      onHeadersComplete data = .ok (.pause, after) ∧
        after.url = data.url ∧ after.buffers = data.buffers ∧
        after.allocations = report.answersBehind := by
  have isText := shown.value
  rw [onHeadersComplete, Report.answersBehind, shown.name]
  cases isName : report.name with
  | none =>
      exact ⟨data, rfl, rfl, rfl, shown.answers⟩
  | some name =>
      obtain ⟨hasValue, notEmpty⟩ := ends name isName
      obtain ⟨value, isValue⟩ := Option.isSome_iff_exists.mp hasValue
      have flushed := shown.flushHeader isValue
      rw [isName] at flushed
      rw [isValue] at isText
      rw [if_pos (isSome_textOf name), isText, check_pos (isSome_textOf value),
        ok_bind, flushed]
      rcases answered : World.next report.answers with ⟨_ | _, answers⟩
      · exact ⟨_, rfl, rfl, rfl, rfl⟩
      · rw [answered] at notEmpty
        dsimp only
        rw [if_neg (notEmpty rfl)]
        exact ⟨_, rfl, rfl, rfl, rfl⟩

/-- The end of a head comes where the last header is complete. -/
theorem Report.Shown.ends
    {verdict : Verdict} {after : HeaderData}
    (shown : report.Shown given data)
    (called : onHeadersComplete data = .ok (verdict, after)) :
    report.Ends := by
  intro name isName
  have isText := shown.value
  rw [onHeadersComplete, shown.name, isName,
    if_pos (isSome_textOf name)] at called
  cases isValue : report.value with
  | none =>
      rw [isValue] at isText
      have noValue : ¬ (none : Option Pointer).isSome = true :=
        Bool.false_ne_true
      rw [isText, check_neg noValue] at called
      cases called
  | some value =>
      refine ⟨rfl, ?_⟩
      have flushed := shown.flushHeader isValue
      rw [isName] at flushed
      rw [isValue] at isText
      intro answer empty
      rw [isText, check_pos (isSome_textOf value), ok_bind, flushed] at called
      rcases answered : World.next report.answers with ⟨_ | _, answers⟩
      · rw [answered] at answer
        cases answer
      · rw [answered] at called
        dsimp only at called
        rw [if_pos empty] at called
        cases called

end Steps

section Runs

variable {config : Config} {given : Bytes}

/-- The parser goes on with callbacks that add no part too long. -/
theorem Report.Shown.of_after
    (stops : List (Stop σ)) :
    ∀ {report later : Report} {data : HeaderData},
      report.Shown given data →
        (∀ stop ∈ stops, ∀ piece, stop.callback.span = some piece →
          piece.offset + piece.size ≤ given.length) →
        report.after given config.headerMaxSize
            (stops.map Stop.callback) = some later →
          ∃ last,
            HttpParser.callbacks (onHead config) stops data =
                .ok (none, last) ∧
              later.Shown given last := by
  induction stops with
  | nil =>
      intro report later data shown _ reached
      cases reached
      exact ⟨data, rfl, shown⟩
  | cons stop stops inductionHypothesis =>
      intro report later data shown inside reached
      rw [Report.after, List.map_cons, List.foldlM_cons] at reached
      obtain ⟨between, next, reached⟩ := Option.bind_eq_some_iff.mp reached
      obtain ⟨after, called, shownAfter⟩ :=
        shown.of_next (inside stop (List.mem_cons_self ..)) next
      obtain ⟨last, ran, shownLast⟩ :=
        inductionHypothesis shownAfter
          (fun other member => inside other (List.mem_cons_of_mem _ member))
          reached
      refine ⟨last, ?_, shownLast⟩
      rw [HttpParser.callbacks, called, ok_bind]
      exact ran

/-- Where it goes on, it is with such callbacks. -/
theorem Report.Shown.ran
    (stops : List (Stop σ)) :
    ∀ {report : Report} {data last : HeaderData},
      report.Shown given data →
        (∀ stop ∈ stops, ∀ piece, stop.callback.span = some piece →
          piece.offset + piece.size ≤ given.length) →
        HttpParser.callbacks (onHead config) stops data =
            .ok (none, last) →
          ∃ later,
            report.after given config.headerMaxSize
                (stops.map Stop.callback) = some later ∧
              later.Shown given last := by
  induction stops with
  | nil =>
      intro report data last shown _ ran
      cases ran
      exact ⟨report, rfl, shown⟩
  | cons stop stops inductionHypothesis =>
      intro report data last shown inside ran
      rw [HttpParser.callbacks] at ran
      obtain ⟨⟨verdict, between⟩, called, ran⟩ := of_bind ran
      cases verdict with
      | proceed =>
          obtain ⟨next, isNext, shownNext⟩ :=
            shown.proceeds (inside stop (List.mem_cons_self ..)) called
          obtain ⟨later, reached, shownLater⟩ :=
            inductionHypothesis shownNext
              (fun other member =>
                inside other (List.mem_cons_of_mem _ member)) ran
          refine ⟨later, ?_, shownLater⟩
          rw [Report.after, List.map_cons, List.foldlM_cons, isNext]
          exact reached
      | fail | pause =>
          cases ran

end Runs

/-! ## The first call -/

section First

variable {http : HttpParser σ} {config : Config}
variable {memory : Nat → Nat → UInt8} {world : World}

/-- What the first call reports, in order. -/
def firstStops (http : HttpParser σ) (config : Config)
    (memory : Nat → Nat → UInt8) (world : World) : List (Stop σ) :=
  (http.execute http.init (firstGiven config memory world)).stops

/-- What the callbacks of the first call have reported. -/
def firstReport (config : Config) (memory : Nat → Nat → UInt8)
    (world : World) (stops : List (Stop σ)) : Option Report :=
  (Report.start (world.allocations.drop 2)).after
    (firstGiven config memory world) config.headerMaxSize
    (stops.map Stop.callback)

/-- Nothing has been reported before the first call. -/
theorem shown_start
    (allocated : (allocEach 2 world).1 = true) :
    (Report.start (world.allocations.drop 2)).Shown
      (firstGiven config memory world) (firstData config memory world) where
  buffers := rfl
  base := rfl
  url := rfl
  name := rfl
  value := rfl
  urlInside := nofun
  nameInside := nofun
  valueInside := nofun
  headers := rfl
  answers := allocations_allocEach world allocated

/-- The first call reports parts of what it is given. -/
theorem inside_firstStops
    {earlier later : List (Stop σ)}
    (inOrder : http.ReportsInOrder)
    (split : firstStops http config memory world = earlier ++ later) :
    ∀ stop ∈ earlier, ∀ piece, stop.callback.span = some piece →
      piece.offset + piece.size ≤
        (firstGiven config memory world).length := by
  intro stop member piece isPiece
  have reports : stop ∈ firstStops http config memory world := by
    rw [split]
    exact List.mem_append_left _ member
  exact inOrder.inside reports isPiece

/-- Callbacks of the first call proceed exactly if they are reported so. -/
theorem firstReport_iff
    {earlier later : List (Stop σ)}
    (inOrder : http.ReportsInOrder)
    (allocated : (allocEach 2 world).1 = true)
    (split : firstStops http config memory world = earlier ++ later) :
    (∀ report, firstReport config memory world earlier = some report →
        ∃ data,
          HttpParser.callbacks (onHead config) earlier
              (firstData config memory world) = .ok (none, data) ∧
            report.Shown (firstGiven config memory world) data) ∧
      ∀ data,
        HttpParser.callbacks (onHead config) earlier
            (firstData config memory world) = .ok (none, data) →
          ∃ report,
            firstReport config memory world earlier = some report ∧
              report.Shown (firstGiven config memory world) data := by
  have inside := inside_firstStops inOrder split
  have shown :
      (Report.start (world.allocations.drop 2)).Shown
        (firstGiven config memory world) (firstData config memory world) :=
    shown_start allocated
  constructor
  · intro report reached
    exact shown.of_after earlier inside reached
  · intro data ran
    exact shown.ran earlier inside ran

/--
The first read fills the buffer, and the first call of the parser goes through
all of it without coming to the end of the head.
-/
structure GoesThrough (http : HttpParser σ) (config : Config)
    (memory : Nat → Nat → UInt8) (world : World) (report : Report) :
    Prop where
  allocated : (allocEach 2 world).1 = true
  full : (firstRead config world).length = config.headersBufferSize
  noFailure :
    (http.execute http.init (firstGiven config memory world)).failed = false
  reported :
    firstReport config memory world (firstStops http config memory world) =
      some report

/-- The first call leaves more to be read only if it goes through all bytes. -/
theorem goesThrough_of_headCall
    {call : HeadCall σ}
    (complete : http.Complete) (inOrder : http.ReportsInOrder)
    (room : config.headerMaxSize ≤ config.headersBufferSize)
    (positive : 0 < config.headerMaxSize)
    (allocated : (allocEach 2 world).1 = true)
    (called :
      headCall http config (firstReading http config memory world) =
        some call)
    (within : call.nparsed ≤ call.received.length)
    (proceeds : call.parser.httpErrno = .ok) :
    ∃ report,
      GoesThrough http config memory world report ∧
        report.Shown (firstGiven config memory world) call.data ∧
        call.nparsed = config.headersBufferSize := by
  obtain ⟨-, isReceived, -, ran⟩ := headCall_first room positive called
  have whole := run_all complete rfl ran proceeds
  rw [length_firstGiven] at whole
  have atMost := length_firstRead_le config world
  rw [isReceived] at within
  rcases HttpParser.run_cases rfl ran with
    ⟨proceeded, -, -, ⟨-, noFailure⟩ | ⟨failed, -⟩⟩ | ⟨-, stopped⟩
  · have split :
        firstStops http config memory world =
          firstStops http config memory world ++ [] :=
      (List.append_nil _).symm
    obtain ⟨report, reported, shown⟩ :=
      (firstReport_iff inOrder allocated split).2 call.data proceeded
    exact ⟨report, ⟨allocated, by omega, noFailure, reported⟩, shown, whole⟩
  · rw [proceeds] at failed
    cases failed
  · exact absurd proceeds stopped

/-- If it goes through all bytes there is more to be read. -/
theorem GoesThrough.headCall
    {report : Report}
    (through : GoesThrough http config memory world report)
    (complete : http.Complete) (inOrder : http.ReportsInOrder)
    (room : config.headerMaxSize ≤ config.headersBufferSize)
    (positive : 0 < config.headerMaxSize) :
    ∃ call,
      Http.headCall http config (firstReading http config memory world) =
          some call ∧
        call.nparsed ≤ call.received.length ∧
        call.parser.httpErrno = .ok ∧
        report.Shown (firstGiven config memory world) call.data ∧
        call.nparsed = config.headersBufferSize := by
  have read : firstRead config world ≠ [] := by
    intro nothing
    have full := through.full
    rw [nothing, List.length_nil] at full
    omega
  have split :
      firstStops http config memory world =
        firstStops http config memory world ++ [] :=
    (List.append_nil _).symm
  obtain ⟨data, proceeded, shown⟩ :=
    (firstReport_iff inOrder through.allocated split).1 report
      through.reported
  have ran :
      http.run (onHead config) { state := http.init, httpErrno := .ok }
          (firstGiven config memory world) (firstData config memory world) =
        _ :=
    HttpParser.run_of_proceeds rfl proceeded
  dsimp only at ran
  rw [if_neg (by rw [through.noFailure]; exact Bool.false_ne_true)] at ran
  have whole := run_all complete rfl ran rfl
  rw [length_firstGiven] at whole
  have called := headCall_of_run room positive read ran
  refine ⟨_, called, ?_, rfl, shown, whole⟩
  dsimp only at whole ⊢
  rw [whole, through.full]

/-- What the first call is given, and what it comes to. -/
def firstExecuted (http : HttpParser σ) (config : Config)
    (memory : Nat → Nat → UInt8) (world : World) :
    Except Fault (Parsed σ) :=
  execute http config memory { state := http.init, httpErrno := .ok }
    (firstBuf config) (firstRead config world)
    (firstGiven config memory world) (firstData config memory world)

/-- A loop that ends in its first round ends with what follows from it. -/
theorem readHeaders_of_stop
    {result : HeadRead σ} (fuel : Nat)
    (room : config.headerMaxSize ≤ config.headersBufferSize)
    (positive : 0 < config.headerMaxSize)
    (allocated : (allocEach 2 world).1 = true)
    (read : firstRead config world ≠ [])
    (executed :
      firstExecuted http config memory world = .ok (.stop result)) :
    readHeaders http config memory (fuel + 1) world =
      (finishHead http result).map fun (err, request, allocations) =>
        (err, request,
          { afterFirst config world with allocations := allocations }) := by
  rw [firstExecuted] at executed
  rw [readHeaders, readHead_first room positive allocated read, executed]
  dsimp only
  rw [ok_bind]
  cases finishHead http result <;> rfl

/-- A fault in its first round is a fault of the loop. -/
theorem readHeaders_of_fault
    {fault : Fault} (fuel : Nat)
    (room : config.headerMaxSize ≤ config.headersBufferSize)
    (positive : 0 < config.headerMaxSize)
    (allocated : (allocEach 2 world).1 = true)
    (read : firstRead config world ≠ [])
    (executed : firstExecuted http config memory world = .error fault) :
    readHeaders http config memory (fuel + 1) world = .error fault := by
  rw [firstExecuted] at executed
  rw [readHeaders, readHead_first room positive allocated read, executed]
  rfl

/-- The error number of a parser behind a callback. -/
def Verdict.errno : Verdict → HttpErrno
  | .proceed => .ok
  | .fail => .callback
  | .pause => .paused

/-- A callback of the first call stops the parser where it is. -/
theorem run_of_callback
    {earlier rest : List (Stop σ)} {stop : Stop σ} {verdict : Verdict}
    {before after : HeaderData}
    (split :
      firstStops http config memory world = earlier ++ stop :: rest)
    (proceeded :
      HttpParser.callbacks (onHead config) earlier
          (firstData config memory world) =
        .ok (none, before))
    (called : onHead config stop.callback before = .ok (verdict, after))
    (stops : verdict ≠ .proceed) :
    http.run (onHead config) { state := http.init, httpErrno := .ok }
        (firstGiven config memory world) (firstData config memory world) =
      .ok
        (stop.nparsed, { state := stop.resume, httpErrno := verdict.errno },
          after) := by
  apply HttpParser.run_of_stopped rfl
  change HttpParser.callbacks (onHead config)
    (firstStops http config memory world) _ = _
  rw [split, HttpParser.callbacks_append earlier (stop :: rest) proceeded,
    HttpParser.callbacks, called, ok_bind]
  cases verdict with
  | proceed =>
      exact absurd rfl stops
  | fail | pause =>
      rfl

/-- A callback that fails ends the loop with the error it has recorded. -/
theorem firstExecuted_of_fail
    {earlier rest : List (Stop σ)} {stop : Stop σ}
    {before after : HeaderData}
    (split :
      firstStops http config memory world = earlier ++ stop :: rest)
    (proceeded :
      HttpParser.callbacks (onHead config) earlier
          (firstData config memory world) =
        .ok (none, before))
    (called : onHead config stop.callback before = .ok (.fail, after)) :
    firstExecuted http config memory world =
      if stop.nparsed ≤ (firstRead config world).length then
        .ok (.stop (.err after.dfkErrno after.allocations))
      else .error .assertion := by
  rw [firstExecuted, execute,
    run_of_callback split proceeded called (by decide), ok_bind]
  dsimp only [Verdict.errno]
  rw [afterExecute]
  by_cases within : stop.nparsed ≤ (firstRead config world).length
  · rw [if_pos within, check_pos within]
    rfl
  · rw [if_neg within, check_neg within]
    rfl

/-- A callback that pauses the parser ends the loop with the headers parsed. -/
theorem firstExecuted_of_pause
    {earlier rest : List (Stop σ)} {stop : Stop σ}
    {before after : HeaderData}
    (split :
      firstStops http config memory world = earlier ++ stop :: rest)
    (proceeded :
      HttpParser.callbacks (onHead config) earlier
          (firstData config memory world) =
        .ok (none, before))
    (called : onHead config stop.callback before = .ok (.pause, after)) :
    firstExecuted http config memory world =
      if stop.nparsed ≤ (firstRead config world).length then
        .ok
          (.stop
            (.parsed after { state := stop.resume, httpErrno := .ok }
              ((firstRead config world).drop stop.nparsed)))
      else .error .assertion := by
  rw [firstExecuted, execute,
    run_of_callback split proceeded called (by decide), ok_bind]
  dsimp only [Verdict.errno]
  rw [afterExecute]
  by_cases within : stop.nparsed ≤ (firstRead config world).length
  · rw [if_pos within, check_pos within]
    rfl
  · rw [if_neg within, check_neg within]
    rfl

end First

end Dfk.Http
