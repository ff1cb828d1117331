import Dfk.Http.Accepted

/-!
# Headers buffers

What is done with the buffers of a request while its head is read, and behind
it.  A buffer is allocated first, and appended to `_buffers` if there is memory
for its entry in the list; otherwise it is freed on the spot.  All buffers in
the list are freed with the request.
-/

namespace Dfk.Http

variable {σ : Type}

/-- What is done with the buffers of a request, the first of them being 0. -/
inductive BufferEvent where
  | malloc (buffer : Nat)
  /-- `dfk_list_append` to `_buffers`. -/
  | append (buffer : Nat)
  | free (buffer : Nat)
  deriving Repr, DecidableEq

/-!
## Reading a head
-/

/-- `dfk__http_request_allocate_headers_buf` -/
def allocateEvents (data : HeaderData) : List BufferEvent :=
  match World.next data.allocations with
  | (false, _) => []
  | (true, allocations) =>
      match World.next allocations with
      | (false, _) =>
          [.malloc data.buffers.length, .free data.buffers.length]
      | (true, _) =>
          [.malloc data.buffers.length, .append data.buffers.length]

/-- A new buffer is allocated if too little of the old one is left. -/
def switchEvents (config : Config) (data : HeaderData) (curbuf : CurBuf) :
    List BufferEvent :=
  match data.cheaderField.data with
  | none => []
  | some field =>
      if field.buffer ≠ curbuf.data.buffer then []
      else if curbuf.data.offset + curbuf.size <
          field.offset + config.headerMaxSize then
        if data.buffers.length = config.headersBufferCount then []
        else allocateEvents data
      else []

/-- Behind `http_parser_execute` a buffer may be needed. -/
def executeEvents (http : HttpParser σ) (config : Config)
    (parser : Parser σ) (curbuf : CurBuf) (received given : Bytes)
    (data : HeaderData) : List BufferEvent :=
  match http.run (onHead config) parser given data with
  | .error _ => []
  | .ok (nparsed, parser, data) =>
      if nparsed ≤ received.length ∧ parser.httpErrno = .ok then
        switchEvents config data curbuf
      else []

/-- The loop of `dfk__http_request_read_headers`. -/
def readEventsFrom (http : HttpParser σ) (config : Config)
    (memory : Nat → Nat → UInt8) :
    Nat → Reading σ → List BufferEvent
  | 0, _ => []
  | fuel + 1, reading =>
      let data := reading.data
      let curbuf := reading.curbuf
      if curbuf.size < config.headerMaxSize then []
      else
        match tcpSocketRead reading.world curbuf.size with
        | .error _ => []
        | .ok (none, _) => []
        | .ok (some [], _) => []
        | .ok (some received, world) =>
            match fillBuf data curbuf received with
            | .error _ => []
            | .ok (given, data) =>
                executeEvents http config reading.parser curbuf received
                    given data ++
                  match execute http config memory reading.parser curbuf
                      received given data with
                  | .ok (.next parser data curbuf) =>
                      readEventsFrom http config memory fuel
                        { parser := parser
                          data := data
                          curbuf := curbuf
                          world := world }
                  | _ => []

/-- `dfk__http_request_read_headers` -/
def readEvents (http : HttpParser σ) (config : Config)
    (memory : Nat → Nat → UInt8) (fuel : Nat) (world : World) :
    List BufferEvent :=
  allocateEvents (noHeaders world.allocations) ++
    match allocateHeadersBuf config memory (noHeaders world.allocations) with
    | (none, _) => []
    | (some curbuf, data) =>
        readEventsFrom http config memory fuel
          { parser := { state := http.init, httpErrno := .ok }
            data := data
            curbuf := curbuf
            world := world }

/-- The buffers in `_buffers`. -/
def listed (events : List BufferEvent) : List Nat :=
  events.filterMap fun event =>
    match event with
    | .append buffer => some buffer
    | _ => none

/-- `dfk__http_request_free` -/
def requestFree (buffers : List Nat) : List BufferEvent :=
  buffers.map .free

/-!
## One buffer after the other
-/

/--
Buffers are listed one after the other, from the given one on; at most the last
one is freed again.
-/
inductive Grows : Nat → List BufferEvent → Prop where
  | done (buffer : Nat) : Grows buffer []
  | refused (buffer : Nat) : Grows buffer [.malloc buffer, .free buffer]
  | more {buffer : Nat} {events : List BufferEvent}
      (grows : Grows (buffer + 1) events) :
      Grows buffer (.malloc buffer :: .append buffer :: events)

/-- The callbacks do not change the buffers. -/
theorem onHead_buffers
    {config : Config} {callback : Callback} {data after : HeaderData}
    {verdict : Verdict}
    (called : onHead config callback data = .ok (verdict, after)) :
    after.buffers = data.buffers := by
  have limits
      {text : Text} {before : HeaderData}
      (same : (pure (HeaderData.limit config text before) :
        Except Fault (Verdict × HeaderData)) = .ok (verdict, after))
      (kept : before.buffers = data.buffers) :
      after.buffers = data.buffers := by
    have isLimit := Except.ok.inj same
    rw [HeaderData.limit] at isLimit
    split at isLimit
    · cases isLimit
      exact kept
    · cases isLimit
      exact kept
  have flushes
      {before between : HeaderData} {flushVerdict : Verdict}
      (flushed : flushHeader before = .ok (flushVerdict, between)) :
      between.buffers = before.buffers := by
    rw [flushHeader] at flushed
    split at flushed
    · cases flushed
      rfl
    · obtain ⟨name, -, flushed⟩ := of_bind flushed
      obtain ⟨value, -, flushed⟩ := of_bind flushed
      obtain ⟨-, -, flushed⟩ := of_bind flushed
      cases flushed
      rfl
  cases callback with
  | messageBegin | chunkHeader | chunkComplete | messageComplete =>
      cases called
      rfl
  | body span =>
      cases called
  | url span =>
      obtain ⟨url, -, called⟩ := of_bind called
      exact limits called rfl
  | headerField span =>
      simp only [onHead, onHeaderField] at called
      split at called
      · obtain ⟨⟨flushVerdict, between⟩, flushed, called⟩ := of_bind called
        have kept := flushes flushed
        cases flushVerdict with
        | proceed =>
            exact limits called kept
        | fail | pause =>
            cases called
            exact kept
      · obtain ⟨field, -, called⟩ := of_bind called
        exact limits called rfl
  | headerValue span =>
      simp only [onHead, onHeaderValue] at called
      split at called
      · exact limits (Eq.trans (ok_bind _ _).symm called) rfl
      · obtain ⟨value, -, called⟩ := of_bind called
        exact limits called rfl
  | headersComplete =>
      simp only [onHead, onHeadersComplete] at called
      split at called
      · obtain ⟨-, -, called⟩ := of_bind called
        obtain ⟨⟨flushVerdict, between⟩, flushed, called⟩ := of_bind called
        cases called
        exact flushes flushed
      · cases called
        rfl

/-- Bytes are stored without another buffer. -/
theorem length_of_fillBuf
    {data later : HeaderData} {curbuf : CurBuf} {received given : Bytes}
    (filled : fillBuf data curbuf received = .ok (given, later)) :
    later.buffers.length = data.buffers.length := by
  obtain ⟨buffers, stored, filled⟩ := of_bind filled
  obtain ⟨bytes, -, filled⟩ := of_bind filled
  cases filled
  rw [store] at stored
  split at stored
  · cases stored
    exact List.length_set
  · cases stored

/-- An allocation lists a buffer, or leaves none. -/
theorem grows_allocateEvents
    (config : Config) (memory : Nat → Nat → UInt8) (data : HeaderData) :
    match allocateHeadersBuf config memory data with
    | (none, _) => Grows data.buffers.length (allocateEvents data)
    | (some _, later) =>
        later.buffers.length = data.buffers.length + 1 ∧
          allocateEvents data =
            [.malloc data.buffers.length, .append data.buffers.length] := by
  rw [allocateHeadersBuf, allocateEvents]
  rcases World.next data.allocations with ⟨_ | _, allocations⟩
  · exact Grows.done _
  · dsimp only
    rcases World.next allocations with ⟨_ | _, others⟩
    · exact Grows.refused _
    · exact ⟨by simp, rfl⟩

/-- Moving a header needs no buffer. -/
theorem length_of_moveHeader
    {nparsed : Nat} {field target : Pointer} {data later : HeaderData}
    (moved : moveHeader nparsed field target data = .ok later) :
    later.buffers.length = data.buffers.length := by
  obtain ⟨copied, -, moved⟩ := of_bind moved
  obtain ⟨buffers, stored, moved⟩ := of_bind moved
  cases moved
  rw [store] at stored
  split at stored
  · cases stored
    exact List.length_set
  · cases stored

/-- Switching lists a buffer, or leaves none. -/
theorem grows_switchEvents
    (config : Config) (memory : Nat → Nat → UInt8) (nparsed : Nat)
    (data : HeaderData) (curbuf : CurBuf) :
    Grows data.buffers.length (switchEvents config data curbuf) ∧
      ∀ later newBuf,
        switchBuf config memory nparsed data curbuf =
            .ok (.ok (later, newBuf)) →
          ∀ events, Grows later.buffers.length events →
            Grows data.buffers.length
              (switchEvents config data curbuf ++ events) := by
  rw [switchEvents, switchBuf]
  cases data.cheaderField.data with
  | none =>
      refine ⟨Grows.done _, ?_⟩
      intro later newBuf switched events grows
      cases switched
      exact grows
  | some field =>
      dsimp only
      split
      · refine ⟨Grows.done _, ?_⟩
        intro later newBuf switched
        cases switched
      · split
        · split
          · refine ⟨Grows.done _, ?_⟩
            intro later newBuf switched
            cases switched
          · have allocation := grows_allocateEvents config memory data
            rcases allocated : allocateHeadersBuf config memory data with
              ⟨_ | fresh, between⟩
            · rw [allocated] at allocation
              refine ⟨allocation, ?_⟩
              intro later newBuf switched
              cases switched
            · rw [allocated] at allocation
              obtain ⟨length, isEvents⟩ := allocation
              rw [isEvents]
              refine ⟨Grows.more (Grows.done _), ?_⟩
              intro later newBuf switched events grows
              obtain ⟨moved, moves, switched⟩ := of_bind switched
              cases switched
              rw [length_of_moveHeader moves, length] at grows
              exact Grows.more grows
        · refine ⟨Grows.done _, ?_⟩
          intro later newBuf switched events grows
          cases switched
          exact grows

/-- A call of the parser lists a buffer, or leaves none. -/
theorem grows_executeEvents
    (http : HttpParser σ) (config : Config) (memory : Nat → Nat → UInt8)
    (parser : Parser σ) (curbuf : CurBuf) (received given : Bytes)
    (data : HeaderData) :
    Grows data.buffers.length
        (executeEvents http config parser curbuf received given data) ∧
      ∀ after later newBuf,
        execute http config memory parser curbuf received given data =
            .ok (.next after later newBuf) →
          ∀ events, Grows later.buffers.length events →
            Grows data.buffers.length
              (executeEvents http config parser curbuf received given data ++
                events) := by
  rw [executeEvents]
  rcases ran : http.run (onHead config) parser given data with
    fault | ⟨nparsed, stopped, between⟩
  · refine ⟨Grows.done _, ?_⟩
    intro after later newBuf executed
    rw [execute, ran] at executed
    cases executed
  · have kept : between.buffers = data.buffers :=
      HttpParser.run_invariant
        (fun later => later.buffers = data.buffers)
        (fun starts called => (onHead_buffers called).trans starts) rfl ran
    dsimp only
    rw [← kept]
    obtain ⟨grows, continues⟩ :=
      grows_switchEvents config memory nparsed between curbuf
    constructor
    · split
      · exact grows
      · exact Grows.done _
    · intro after later newBuf executed
      rw [execute, ran, ok_bind] at executed
      obtain ⟨_, within, executed⟩ := of_bind executed
      cases errno : stopped.httpErrno with
      | ok =>
          simp only [errno] at executed
          obtain ⟨switch, switched, executed⟩ := of_bind executed
          rcases switch with ⟨err, stop⟩ | ⟨next, switchedBuf⟩
          · cases executed
          · cases executed
            rw [if_pos ⟨of_check within, rfl⟩]
            exact continues later switchedBuf switched
      | paused | callback | protocol =>
          simp only [errno] at executed
          cases executed

/-- The loop lists one buffer after the other. -/
theorem grows_readEventsFrom
    (http : HttpParser σ) (config : Config) (memory : Nat → Nat → UInt8)
    (fuel : Nat) :
    ∀ reading : Reading σ,
      Grows reading.data.buffers.length
        (readEventsFrom http config memory fuel reading) := by
  induction fuel with
  | zero =>
      intro reading
      exact Grows.done _
  | succ fuel inductionHypothesis =>
      intro reading
      simp only [readEventsFrom]
      split
      · exact Grows.done _
      · split
        · exact Grows.done _
        · exact Grows.done _
        · exact Grows.done _
        · next received world _ _ =>
            split
            · exact Grows.done _
            · next given data filled =>
                rw [← length_of_fillBuf filled]
                obtain ⟨grows, continues⟩ :=
                  grows_executeEvents http config memory reading.parser
                    reading.curbuf received given data
                split
                · next parser later newBuf executed =>
                    have later :=
                      inductionHypothesis
                        { parser := parser
                          data := later
                          curbuf := newBuf
                          world := world }
                    exact continues _ _ _ executed _ later
                · rw [List.append_nil]
                  exact grows

/-- Buffers are listed one after the other, beginning with the first. -/
theorem grows_readEvents
    (http : HttpParser σ) (config : Config) (memory : Nat → Nat → UInt8)
    (fuel : Nat) (world : World) :
    Grows 0 (readEvents http config memory fuel world) := by
  have allocation :=
    grows_allocateEvents config memory (noHeaders world.allocations)
  rw [readEvents]
  rcases allocated :
      allocateHeadersBuf config memory (noHeaders world.allocations) with
    ⟨_ | curbuf, data⟩
  · rw [allocated] at allocation
    rw [List.append_nil]
    exact allocation
  · rw [allocated] at allocation
    obtain ⟨length, isEvents⟩ := allocation
    rw [isEvents]
    have grows :=
      grows_readEventsFrom http config memory fuel
        { parser := { state := http.init, httpErrno := .ok }
          data := data
          curbuf := curbuf
          world := world }
    dsimp only at grows
    rw [length] at grows
    exact Grows.more grows

end Dfk.Http
