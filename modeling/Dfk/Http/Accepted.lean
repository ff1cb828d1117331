import Dfk.Http.Request

/-!
# Accepted requests

What holds of a request when `dfk__http_request_read_headers` returns without
an error: the parser stands where a callback paused it, and nothing but
reading has happened outside.
-/

namespace Dfk.Http

variable {σ : Type}

/-- A state in which the end of a head or a message stops a parser. -/
def StopsAt (http : HttpParser σ) (state : σ) : Prop :=
  ∃ before bytes stop,
    stop ∈ (http.execute before bytes).stops ∧
      (stop.callback = .headersComplete ∨
        stop.callback = .messageComplete) ∧
      stop.resume = state

/-- A request whose head has been accepted, and of whose body nothing is read. -/
structure Accepted (http : HttpParser σ) (request : Request σ) : Prop where
  ready : request.parser.httpErrno = .ok
  stopsAt : StopsAt http request.parser.state
  unread : request.bodyNread = 0
  contentLength :
    request.contentLength = requestLength request.headers request.chunked
  chunked : request.chunked = http.chunked request.parser.state

/-!
## Callbacks
-/

/-- A text that is too long is refused with an error, any other accepted. -/
theorem limit_verdict
    {config : Config} {text : Text} {data after : HeaderData}
    {verdict : Verdict}
    (limited : HeaderData.limit config text data = (verdict, after)) :
    verdict ≠ .pause ∧ (verdict = .fail → after.dfkErrno ≠ .ok) := by
  rw [HeaderData.limit] at limited
  split at limited
  · cases limited
    exact ⟨by decide, fun _ => by simp⟩
  · cases limited
    exact ⟨by decide, fun failed => by cases failed⟩

/-- Flushing a header fails with an error, or goes on. -/
theorem flushHeader_verdict
    {data after : HeaderData} {verdict : Verdict}
    (flushed : flushHeader data = .ok (verdict, after)) :
    verdict ≠ .pause ∧ (verdict = .fail → after.dfkErrno ≠ .ok) := by
  rw [flushHeader] at flushed
  split at flushed
  · cases flushed
    exact ⟨by decide, fun _ => by simp⟩
  · obtain ⟨name, -, flushed⟩ := of_bind flushed
    obtain ⟨value, -, flushed⟩ := of_bind flushed
    obtain ⟨-, -, flushed⟩ := of_bind flushed
    cases flushed
    exact ⟨by decide, fun failed => by cases failed⟩

/-- The callbacks record an error when they fail, and pause at ends only. -/
theorem onHead_verdict
    {config : Config} {callback : Callback} {data after : HeaderData}
    {verdict : Verdict}
    (called : onHead config callback data = .ok (verdict, after)) :
    (verdict = .pause →
        callback = .headersComplete ∨ callback = .messageComplete) ∧
      (verdict = .fail → after.dfkErrno ≠ .ok) := by
  have limits
      {text : Text} {before : HeaderData}
      (same : (pure (HeaderData.limit config text before) :
        Except Fault (Verdict × HeaderData)) = .ok (verdict, after)) :
      verdict ≠ .pause ∧ (verdict = .fail → after.dfkErrno ≠ .ok) :=
    limit_verdict (Except.ok.inj same)
  cases callback with
  | messageBegin | chunkHeader | chunkComplete =>
      cases called
      exact ⟨nofun, nofun⟩
  | body span =>
      cases called
  | messageComplete =>
      cases called
      exact ⟨fun _ => Or.inr rfl, nofun⟩
  | url span =>
      obtain ⟨url, -, called⟩ := of_bind called
      obtain ⟨noPause, failure⟩ := limits called
      exact ⟨fun paused => absurd paused noPause, failure⟩
  | headerField span =>
      simp only [onHead, onHeaderField] at called
      split at called
      · obtain ⟨⟨flushVerdict, between⟩, flushed, called⟩ := of_bind called
        obtain ⟨noPause, failure⟩ := flushHeader_verdict flushed
        cases flushVerdict with
        | proceed =>
            obtain ⟨noPause, failure⟩ := limits called
            exact ⟨fun paused => absurd paused noPause, failure⟩
        | fail =>
            cases called
            exact ⟨nofun, failure⟩
        | pause =>
            exact absurd rfl noPause
      · obtain ⟨field, -, called⟩ := of_bind called
        obtain ⟨noPause, failure⟩ := limits called
        exact ⟨fun paused => absurd paused noPause, failure⟩
  | headerValue span =>
      simp only [onHead, onHeaderValue] at called
      split at called
      · obtain ⟨noPause, failure⟩ := limits called
        exact ⟨fun paused => absurd paused noPause, failure⟩
      · obtain ⟨value, -, called⟩ := of_bind called
        obtain ⟨noPause, failure⟩ := limits called
        exact ⟨fun paused => absurd paused noPause, failure⟩
  | headersComplete =>
      refine ⟨fun _ => Or.inl rfl, fun failed => ?_⟩
      simp only [onHead, onHeadersComplete] at called
      subst failed
      split at called
      · obtain ⟨-, -, called⟩ := of_bind called
        obtain ⟨⟨flushVerdict, between⟩, -, called⟩ := of_bind called
        cases called
      · cases called

/-!
## The loop
-/

/-- How the loop may end. -/
def HeadRead.Sound (http : HttpParser σ) : HeadRead σ → Prop
  | .err code _ => code ≠ .ok
  | .parsed _ parser _ =>
      parser.httpErrno = .ok ∧ StopsAt http parser.state

/-- How one call of the parser may end. -/
def Parsed.Sound (http : HttpParser σ) : Parsed σ → Prop
  | .stop result => result.Sound http
  | .next parser _ _ => parser.httpErrno = .ok

/-- A new buffer that cannot be had is an error. -/
theorem switchBuf_err
    {config : Config} {memory : Nat → Nat → UInt8} {nparsed : Nat}
    {data later : HeaderData} {curbuf : CurBuf} {err : Err}
    (switched :
      switchBuf config memory nparsed data curbuf =
        .ok (.error (err, later))) :
    err ≠ .ok := by
  rw [switchBuf] at switched
  split at switched
  · cases switched
  · split at switched
    · cases switched
    · split at switched
      · split at switched
        · cases switched
          decide
        · split at switched
          · cases switched
            decide
          · obtain ⟨between, -, switched⟩ := of_bind switched
            cases switched
      · cases switched

/-- A call that ends the loop with a head was paused by a callback. -/
theorem execute_parsed
    {http : HttpParser σ} {config : Config} {memory : Nat → Nat → UInt8}
    {parser after : Parser σ} {curbuf : CurBuf} {received given : Bytes}
    {data later : HeaderData} {remainder : Bytes}
    (ready : parser.httpErrno = .ok)
    (executed :
      execute http config memory parser curbuf received given data =
        .ok (.stop (.parsed later after remainder))) :
    ∃ earlier stop rest before,
      (http.execute parser.state given).stops = earlier ++ stop :: rest ∧
        HttpParser.callbacks (onHead config) earlier data =
          .ok (none, before) ∧
        onHead config stop.callback before = .ok (.pause, later) ∧
        after = { state := stop.resume, httpErrno := .ok } ∧
        remainder = received.drop stop.nparsed ∧
        stop.nparsed ≤ received.length := by
  obtain ⟨⟨nparsed, stopped, between⟩, ran, executed⟩ := of_bind executed
  obtain ⟨_, within, executed⟩ := of_bind executed
  have ends := HttpParser.run_cases ready ran
  cases errno : stopped.httpErrno with
  | ok =>
      simp only [errno] at executed
      obtain ⟨switch, switched, executed⟩ := of_bind executed
      rcases switch with ⟨err, stop⟩ | ⟨next, switchedBuf⟩
      · cases executed
      · cases executed
  | callback | protocol =>
      simp only [errno] at executed
      cases executed
  | paused =>
      simp only [errno] at executed
      cases executed
      rcases ends with ⟨-, -, -, ⟨same, -⟩ | ⟨same, -⟩⟩ | ⟨called, -⟩
      · rw [errno] at same
        cases same
      · rw [errno] at same
        cases same
      · obtain ⟨earlier, stop, rest, verdict, before, split, proceeded,
          handled, verdicts, count, resumed⟩ :=
          HttpParser.callbacks_some _ called
        rcases verdicts with ⟨-, same⟩ | ⟨rfl, -⟩
        · rw [errno] at same
          cases same
        · refine ⟨earlier, stop, rest, before, split, proceeded, handled, ?_,
            by rw [count], ?_⟩
          · rw [Parser.pause, resumed]
            rfl
          · rw [← count]
            exact of_check within

/-- One call of the parser ends the loop soundly, or leaves it ready. -/
theorem execute_sound
    {http : HttpParser σ} {config : Config} {memory : Nat → Nat → UInt8}
    {parser : Parser σ} {curbuf : CurBuf} {received given : Bytes}
    {data : HeaderData} {parsed : Parsed σ}
    (ready : parser.httpErrno = .ok)
    (executed :
      execute http config memory parser curbuf received given data =
        .ok parsed) :
    parsed.Sound http := by
  rcases parsed with ⟨⟨code, arena⟩ | ⟨later, after, remainder⟩⟩ |
    ⟨after, later, newBuf⟩
  · obtain ⟨⟨nparsed, stopped, between⟩, ran, executed⟩ := of_bind executed
    obtain ⟨-, -, executed⟩ := of_bind executed
    have ends := HttpParser.run_cases ready ran
    cases errno : stopped.httpErrno with
    | ok =>
        simp only [errno] at executed
        obtain ⟨switch, switched, executed⟩ := of_bind executed
        rcases switch with ⟨err, stop⟩ | ⟨next, switchedBuf⟩
        · cases executed
          exact switchBuf_err switched
        · cases executed
    | paused =>
        simp only [errno] at executed
        cases executed
    | callback =>
        simp only [errno] at executed
        cases executed
        rcases ends with ⟨-, -, -, ⟨same, -⟩ | ⟨same, -⟩⟩ | ⟨called, -⟩
        · rw [errno] at same
          cases same
        · rw [errno] at same
          cases same
        · obtain ⟨earlier, stop, rest, verdict, before, split, -, handled,
            verdicts, -, -⟩ := HttpParser.callbacks_some _ called
          apply (onHead_verdict handled).2
          rcases verdicts with ⟨failed, -⟩ | ⟨-, same⟩
          · exact failed
          · rw [errno] at same
            cases same
    | protocol =>
        simp only [errno] at executed
        cases executed
        intro same
        cases same
  · obtain ⟨earlier, stop, rest, before, split, -, handled, rfl, -, -⟩ :=
      execute_parsed ready executed
    refine ⟨rfl, parser.state, given, stop, ?_,
      (onHead_verdict handled).1 rfl, rfl⟩
    rw [split]
    simp
  · obtain ⟨⟨nparsed, stopped, between⟩, ran, executed⟩ := of_bind executed
    obtain ⟨-, -, executed⟩ := of_bind executed
    cases errno : stopped.httpErrno with
    | ok =>
        simp only [errno] at executed
        obtain ⟨switch, switched, executed⟩ := of_bind executed
        rcases switch with ⟨err, stop⟩ | ⟨next, switchedBuf⟩
        · cases executed
        · cases executed
          exact errno
    | paused | callback | protocol =>
        simp only [errno] at executed
        cases executed

/-- The loop ends soundly, and nothing but reading happens outside. -/
theorem readHeadersFrom_sound
    {http : HttpParser σ} {config : Config} {memory : Nat → Nat → UInt8}
    (fuel : Nat) :
    ∀ {reading : Reading σ} {result : HeadRead σ} {world : World},
      reading.parser.httpErrno = .ok →
        (readHeadersFrom http config memory fuel reading).2 =
            .ok (result, world) →
          result.Sound http ∧ reading.world.ReadOn world := by
  induction fuel with
  | zero =>
      intro reading result world ready ran
      cases ran
  | succ fuel inductionHypothesis =>
      intro reading result world ready ran
      simp only [readHeadersFrom] at ran
      split at ran
      · cases ran
      · rcases reads :
            tcpSocketRead reading.world reading.curbuf.size with
          fault | ⟨_ | _ | ⟨byte, bytes⟩, later⟩
        · rw [reads] at ran
          cases ran
        · rw [reads] at ran
          cases ran
          exact ⟨nofun, (tcpSocketRead_readOn reads).1⟩
        · rw [reads] at ran
          cases ran
          exact ⟨nofun, (tcpSocketRead_readOn reads).1⟩
        · have readOn := (tcpSocketRead_readOn reads).1
          simp only [reads] at ran
          rcases filled :
              fillBuf reading.data reading.curbuf (byte :: bytes) with
            fault | ⟨given, data⟩
          · rw [filled] at ran
            cases ran
          · simp only [filled] at ran
            rcases executed :
                execute http config memory reading.parser reading.curbuf
                  (byte :: bytes) given data with
              fault | stopped | ⟨parser, next, curbuf⟩
            · rw [executed] at ran
              cases ran
            · rw [executed] at ran
              cases ran
              exact ⟨execute_sound ready executed, readOn⟩
            · simp only [executed] at ran
              have readyNext : parser.httpErrno = .ok :=
                execute_sound ready executed
              obtain ⟨sound, rest⟩ := inductionHypothesis readyNext ran
              exact ⟨sound, readOn.trans rest⟩

/-- Reading the URL fills in its parts and the arguments. -/
theorem readUrl_request
    (http : HttpParser σ) (request : Request σ) (allocations : List Bool) :
    ∃ path query fragment arguments,
      (readUrl http request allocations).2.1 =
        { request with
          path := path
          query := query
          fragment := fragment
          arguments := arguments } := by
  rw [readUrl]
  split
  · exact ⟨_, _, _, _, rfl⟩
  · exact ⟨_, _, _, _, rfl⟩

/-- The loop ends soundly, if it is entered at all. -/
theorem readHead_sound
    {http : HttpParser σ} {config : Config} {memory : Nat → Nat → UInt8}
    {fuel : Nat} {start world : World} {head : HeadRead σ}
    (read :
      (readHead http config memory fuel start).2 = .ok (head, world)) :
    head.Sound http ∧ start.ReadOn world := by
  rw [readHead] at read
  split at read
  · cases read
    exact ⟨nofun, World.ReadOn.refl _⟩
  · exact readHeadersFrom_sound fuel rfl read

/-- A request that is read without an error has had its headers parsed. -/
theorem readHeaders_parsed
    {http : HttpParser σ} {config : Config} {memory : Nat → Nat → UInt8}
    {fuel : Nat} {start world : World} {request : Request σ}
    (read :
      readHeaders http config memory fuel start =
        .ok (.ok, request, world)) :
    ∃ data parser remainder between url path query fragment arguments,
      (readHead http config memory fuel start).2 =
          .ok (.parsed data parser remainder, between) ∧
        request =
          { preprocess http data parser remainder url with
            path := path
            query := query
            fragment := fragment
            arguments := arguments } ∧
        ∃ allocations,
          world = { between with allocations := allocations } := by
  obtain ⟨⟨head, between⟩, heads, read⟩ := of_bind read
  obtain ⟨⟨err, done, allocations⟩, finished, same⟩ := of_bind read
  cases same
  cases head with
  | err code arena =>
      cases finished
      exact absurd rfl (readHead_sound heads).1
  | parsed data parser remainder =>
      obtain ⟨url, -, finished⟩ := of_bind finished
      obtain ⟨path, query, fragment, arguments, isRequest⟩ :=
        readUrl_request http (preprocess http data parser remainder url)
          data.allocations
      rw [Except.ok.inj finished] at isRequest
      exact ⟨data, parser, remainder, between, url, path, query, fragment,
        arguments, heads, isRequest, allocations, rfl⟩

/-- A request that is read without an error is accepted. -/
theorem readHeaders_accepted
    {http : HttpParser σ} {config : Config} {memory : Nat → Nat → UInt8}
    {fuel : Nat} {start world : World} {request : Request σ}
    (read :
      readHeaders http config memory fuel start =
        .ok (.ok, request, world)) :
    Accepted http request ∧ start.ReadOn world := by
  obtain ⟨data, parser, remainder, between, url, path, query, fragment,
    arguments, heads, rfl, allocations, rfl⟩ := readHeaders_parsed read
  obtain ⟨⟨ready, stopsAt⟩, readOn⟩ := readHead_sound heads
  exact ⟨⟨ready, stopsAt, rfl, rfl, rfl⟩, readOn.allocating allocations⟩

end Dfk.Http
