import Dfk.Http.RequestBoundaries

/-!
# What the client of a connection receives

With memory for everything and a socket that takes everything, a client gets
one response for each request that was accepted, in order: a head that it can
read, and behind it what the handler has written.  Nothing else is put on the
socket, so a client that knows how long the bodies are tells all of them apart.
-/

namespace Dfk

/-- Without errors of the event loop the number of waits does not matter. -/
theorem World.takesWhole_of_waits
    (sizes : List Nat) :
    ∀ {world other : World},
      (∀ answer ∈ world.waits, answer = true) →
        (∀ answer ∈ other.waits, answer = true) →
        other.writes = world.writes →
        world.TakesWhole sizes → other.TakesWhole sizes := by
  induction sizes with
  | nil =>
      intro world other _ _ _ _
      trivial
  | cons size sizes inductionHypothesis =>
      intro world other noError noOther sameWrites whole
      obtain ⟨first, rest⟩ := whole
      obtain ⟨same, sameRest, fewer⟩ :=
        @moved_waits size world.writes world.waits other.waits noError noOther
      have fewerOther :=
        (@moved_waits size world.writes other.waits world.waits noOther
          noError).2.2
      rw [← sameWrites] at same sameRest fewerOther
      refine ⟨?_, inductionHypothesis fewer ?_ ?_ rest⟩
      · rw [takes]
        dsimp only
        rw [← same, sameWrites]
        exact first
      · exact fewerOther
      · rw [takes, takes]
        dsimp only
        rw [← sameRest, sameWrites]

namespace Http

variable {σ : Type}

/-- Memory is there, the socket takes every byte, and waiting never fails. -/
structure Generous (world : World) : Prop where
  obliging : Obliging world
  waits : ∀ answer ∈ world.waits, answer = true

namespace Generous

variable {world : World}

/-- The socket takes a buffer, and is as generous as before. -/
theorem takes (generous : Generous world) (size : Nat) :
    Generous (world.takes size).2 where
  obliging :=
    { allocates := generous.obliging.allocates
      accepts := fun sizes => (generous.obliging.accepts (size :: sizes)).2 }
  waits :=
    (World.moved_waits generous.waits generous.waits).2.2

theorem offered
    (sizes : List Nat) :
    ∀ {world : World}, Generous world → Generous (world.offered sizes) := by
  induction sizes with
  | nil =>
      intro world generous
      exact generous
  | cons size sizes inductionHypothesis =>
      intro world generous
      exact inductionHypothesis (generous.takes size)

theorem emit (generous : Generous world) (bytes : Bytes) :
    Generous (world.emit bytes) where
  obliging :=
    { allocates := generous.obliging.allocates
      accepts := fun sizes =>
        (World.takesWhole_emit bytes sizes world).mpr
          (generous.obliging.accepts sizes) }
  waits := generous.waits

/-- Allocations succeed. -/
theorem allocEach
    (count : Nat) :
    ∀ {world : World},
      Generous world →
        ∃ after,
          Http.allocEach count world = (true, after) ∧ Generous after ∧
            after.output = world.output := by
  intro world generous
  obtain ⟨after, allocated, obliging⟩ := generous.obliging.allocEach count
  have unread := allocEach_unread count world
  have output := allocEach_output count world
  rw [allocated] at unread output
  refine ⟨after, allocated, ⟨obliging, ?_⟩, output⟩
  have waits (count : Nat) :
      ∀ world : World, (Http.allocEach count world).2.waits = world.waits := by
    induction count with
    | zero =>
        intro world
        rfl
    | succ count inductionHypothesis =>
        intro world
        rw [Http.allocEach]
        rcases once : world.alloc with ⟨succeeds, between⟩
        have same : between.waits = world.waits :=
          congrArg (fun result => result.2.waits) once.symm
        cases succeeds with
        | true => exact (inductionHypothesis between).trans same
        | false => exact same
  have sameWaits := waits count world
  rw [allocated] at sameWaits
  rw [sameWaits]
  exact generous.waits

/-- Reading does not change what the socket takes. -/
theorem read
    {after : World} {nbytes : Nat} {result : Option Bytes}
    (generous : Generous world)
    (read : tcpSocketRead world nbytes = .ok (result, after)) :
    Generous after := by
  have asked : nbytes ≠ 0 := by
    intro nothing
    rw [tcpSocketRead, check_neg (not_not_intro nothing)] at read
    cases read
  rw [tcpSocketRead_eq asked] at read
  obtain ⟨-, -, fewer⟩ :=
    @World.moved_waits nbytes world.reads world.waits _ generous.waits
      generous.waits
  cases read
  refine ⟨⟨generous.obliging.allocates, fun sizes => ?_⟩, fewer⟩
  exact World.takesWhole_of_waits sizes generous.waits fewer rfl
    (generous.obliging.accepts sizes)

/-- An item is stored. -/
theorem storeItem
    (generous : Generous world)
    (allocations : Nat) (response : Response) (header : Header) :
    ∃ after,
      Http.storeItem allocations response world header =
          (.ok, { response with headers := response.headers.insert header },
            after) ∧
        Generous after ∧ after.output = world.output := by
  obtain ⟨after, allocated, still, output⟩ := generous.allocEach allocations
  exact ⟨after, by rw [Http.storeItem, allocated], still, output⟩

/-- A header is set; nothing is written. -/
theorem setHeader
    {exchange after : Exchange σ} {setter : Setter} {name value : Bytes}
    {err : Err}
    (generous : Generous exchange.world)
    (sets : exchange.set setter name value = .ok (err, after)) :
    Generous after.world ∧ after.world.output = exchange.world.output ∧
      after.response =
        { exchange.response with
          headers :=
            exchange.response.headers.insert
              { name := name, value := value } } := by
  obtain ⟨⟨result, response, world⟩, performs, sets⟩ := of_bind sets
  cases sets
  rw [Setter.perform_eq, setItem] at performs
  obtain ⟨-, -, performs⟩ := of_bind performs
  obtain ⟨-, -, performs⟩ := of_bind performs
  obtain ⟨later, stored, still, output⟩ :=
    generous.storeItem setter.allocations exchange.response
      { name := name, value := value }
  rw [stored] at performs
  cases performs
  exact ⟨still, output, rfl⟩

/-- The whole head is put on the socket. -/
theorem flushHeaders
    {response after : Response} {served : World}
    (generous : Generous world)
    (fresh : response.headersFlushed = false)
    (flushed : Http.flushHeaders response world = .ok (after, served)) :
    after = { completed response with headersFlushed := true } ∧
      Generous served ∧
      served.output = world.output ++ head (completed response) := by
  obtain ⟨rfl, rfl⟩ :=
    flushHeaders_of_serves fresh (generous.obliging.servesHead response)
      flushed
  obtain ⟨between, allocated, still, output⟩ :=
    generous.allocEach (headAllocations response)
  rw [headServed, allocated]
  refine ⟨rfl, (still.offered _).emit _, ?_⟩
  rw [World.emit_output, World.offered_output, output]

/-- All buffers of a vectored write are put on it. -/
theorem writev
    {iov : List Bytes} {nwritten : Int} {after : World}
    (generous : Generous world)
    (written : tcpSocketWritev world iov = .ok (nwritten, after)) :
    Generous after ∧ after.output = world.output ++ iov.flatten := by
  obtain ⟨-, -, written⟩ := of_bind written
  have whole := generous.obliging.accepts (iov.map List.length)
  have notEmpty := notEmpty_of_writtenFrom _ whole written
  rw [tcpSocketWritevFrom_of_takesWhole _ notEmpty _ _ whole] at written
  cases written
  refine ⟨(generous.offered _).emit _, ?_⟩
  rw [World.emit_output, World.offered_output]

end Generous

/-!
## Handlers
-/

/-- A head that a client can read. -/
structure Readable (response : Response) : Prop where
  status : 100 ≤ response.status ∧ response.status ≤ 999
  headers : ∀ header ∈ response.headers.list, Clean header

/-- A handler that sets clean headers and statuses of three digits only. -/
def Handler.Tidy : Handler → Prop
  | .done _ => True
  | .read _ next => ∀ result bytes, (next result bytes).Tidy
  | .write _ next => ∀ nwritten, (next nwritten).Tidy
  | .set _ name value next =>
      Clean { name := name, value := value } ∧ ∀ err, (next err).Tidy
  | .assign fields next =>
      (100 ≤ fields.status ∧ fields.status ≤ 999) ∧ next.Tidy

/-- The bytes of the body that a handler writes. -/
def Handler.written (http : HttpParser σ) (fuel : Nat) :
    Handler → Exchange σ → Bytes
  | .done _, _ => []
  | .read size next, exchange =>
      match exchange.read http fuel size with
      | .ok (result, bytes, exchange) =>
          (next result bytes).written http fuel exchange
      | .error _ => []
  | .write call next, exchange =>
      match exchange.write call with
      | .ok (nwritten, exchange) =>
          call.iov.flatten ++ (next nwritten).written http fuel exchange
      | .error _ => []
  | .set setter name value next, exchange =>
      match exchange.set setter name value with
      | .ok (err, exchange) => (next err).written http fuel exchange
      | .error _ => []
  | .assign fields next, exchange =>
      next.written http fuel
        { exchange with response := exchange.response.assign fields }

/-- An added header is clean if it is, and so are the others. -/
theorem Readable.insert
    {response : Response} {header : Header}
    (readable : Readable response) (clean : Clean header) :
    Readable
      { response with headers := response.headers.insert header } where
  status := readable.status
  headers := by
    intro other member
    rcases Headers.mem_list_insert member with rfl | inHeaders
    · exact clean
    · exact readable.headers other inHeaders

/-- The header that the library adds is clean. -/
theorem Readable.completed
    {response : Response} (readable : Readable response) :
    Readable (completed response) := by
  rw [Http.completed]
  split
  · next sets =>
      apply readable.insert
      apply clean_ownHeaders response
      rw [ownHeaders, if_pos sets.1]
      exact List.mem_singleton_self _
  · exact readable

/--
What the client has received of a response: nothing, or a head that it can
read, and a body.
-/
inductive Receives (start : Bytes) (exchange : Exchange σ) :
    Option Response → Bytes → Prop where
  | nothing
      (fresh : exchange.response.headersFlushed = false)
      (silent : exchange.world.output = start) :
      Receives start exchange none []
  | answer {heading : Response} {body : Bytes}
      (flushed : exchange.response.headersFlushed = true)
      (readable : Readable heading)
      (received :
        exchange.world.output = start ++ (head heading ++ body)) :
      Receives start exchange (some heading) body

/-- A response on its way to a client that can read it. -/
structure Readying (start : Bytes) (exchange : Exchange σ) (body : Bytes) :
    Prop where
  receives : ∃ heading, Receives start exchange heading body
  readable : Readable exchange.response
  generous : Generous exchange.world

section Run

variable {http : HttpParser σ} {fuel : Nat}
variable {start body : Bytes} {exchange after : Exchange σ}

/-- After a flush a head has been received. -/
theorem Readying.flushed
    {response : Response} {world : World}
    (readying : Readying start exchange body)
    (flushed :
      flushHeaders exchange.response exchange.world =
        .ok (response, world)) :
    response.headersFlushed = true ∧ Readable response ∧ Generous world ∧
      ∃ heading,
        Readable heading ∧
          world.output = start ++ (head heading ++ body) := by
  obtain ⟨⟨heading, receives⟩, readable, generous⟩ := readying
  cases receives with
  | nothing fresh silent =>
      obtain ⟨rfl, still, output⟩ := generous.flushHeaders fresh flushed
      have completed := readable.completed
      refine ⟨rfl, ⟨completed.status, completed.headers⟩, still, _, completed,
        ?_⟩
      rw [output, silent, List.append_nil]
  | answer already headed received =>
      rw [flushHeaders_of_flushed already] at flushed
      cases flushed
      exact ⟨already, readable, generous, _, headed, received⟩

theorem Readying.write
    {call : BodyCall} {nwritten : Int}
    (readying : Readying start exchange body)
    (writes : exchange.write call = .ok (nwritten, after)) :
    Readying start after (body ++ call.iov.flatten) := by
  obtain ⟨sent, -, writes⟩ := of_bind writes
  obtain ⟨⟨count, response, world⟩, performs, writes⟩ := of_bind writes
  cases writes
  obtain ⟨served, flushes, written⟩ :=
    responseWritev_inv (BodyCall.perform_eq_writev performs)
  obtain ⟨flushed, readable, generous, heading, headed, received⟩ :=
    readying.flushed flushes
  obtain ⟨still, output⟩ := generous.writev written
  refine ⟨⟨some heading, .answer flushed headed ?_⟩, readable, still⟩
  dsimp only
  rw [output, received]
  simp only [List.append_assoc]

theorem Readying.set
    {setter : Setter} {name value : Bytes} {err : Err}
    (readying : Readying start exchange body)
    (clean : Clean { name := name, value := value })
    (sets : exchange.set setter name value = .ok (err, after)) :
    Readying start after body := by
  obtain ⟨⟨heading, receives⟩, readable, generous⟩ := readying
  obtain ⟨still, output, isResponse⟩ := generous.setHeader sets
  have inserted := readable.insert clean
  rw [← isResponse] at inserted
  refine ⟨⟨heading, ?_⟩, inserted, still⟩
  have sameFlushed :
      after.response.headersFlushed = exchange.response.headersFlushed := by
    rw [isResponse]
  cases receives with
  | nothing fresh silent =>
      exact .nothing (sameFlushed.trans fresh) (output.trans silent)
  | answer flushed headed received =>
      exact .answer (sameFlushed.trans flushed) headed
        (output.trans received)

theorem Readying.read
    {size : Nat} {result : Int} {bytes : Bytes}
    (readying : Readying start exchange body)
    (reads : exchange.read http fuel size = .ok (result, bytes, after)) :
    Readying start after body := by
  obtain ⟨⟨count, reading⟩, ran, reads⟩ := of_bind reads
  cases reads
  obtain ⟨⟨heading, receives⟩, readable, generous⟩ := readying
  have still := requestRead_invariant Generous.read generous ran
  have output : reading.world.output = exchange.world.output :=
    @requestRead_invariant σ http
      (fun world => world.output = exchange.world.output)
      (fun before read =>
        (tcpSocketRead_readOn read).1.output.trans before)
      _ _ _ _ _ _ rfl ran
  refine ⟨⟨heading, ?_⟩, readable, still⟩
  cases receives with
  | nothing fresh silent =>
      exact .nothing fresh (output.trans silent)
  | answer flushed headed received =>
      exact .answer flushed headed (output.trans received)

/-- What a handler writes is received behind what was written before. -/
theorem Handler.run_readying
    {hres : Int} (handler : Handler) :
    ∀ {exchange returned : Exchange σ} {body : Bytes},
      handler.Tidy →
        Readying start exchange body →
        handler.run http fuel exchange = .ok (hres, returned) →
          Readying start returned
            (body ++ handler.written http fuel exchange) := by
  induction handler with
  | done result =>
      intro exchange returned body _ readying runs
      cases runs
      rw [Handler.written, List.append_nil]
      exact readying
  | read size next inductionHypothesis =>
      intro exchange returned body tidy readying runs
      obtain ⟨⟨result, bytes, after⟩, reads, runs⟩ := of_bind runs
      rw [Handler.written, reads]
      exact inductionHypothesis result bytes (tidy result bytes)
        (readying.read reads) runs
  | write call next inductionHypothesis =>
      intro exchange returned body tidy readying runs
      obtain ⟨⟨nwritten, after⟩, writes, runs⟩ := of_bind runs
      rw [Handler.written, writes, ← List.append_assoc]
      exact inductionHypothesis nwritten (tidy nwritten)
        (readying.write writes) runs
  | set setter name value next inductionHypothesis =>
      intro exchange returned body tidy readying runs
      obtain ⟨⟨err, after⟩, sets, runs⟩ := of_bind runs
      rw [Handler.written, sets]
      exact inductionHypothesis err (tidy.2 err)
        (readying.set tidy.1 sets) runs
  | assign fields next inductionHypothesis =>
      intro exchange returned body tidy readying runs
      rw [Handler.written]
      refine inductionHypothesis tidy.2 ?_ runs
      obtain ⟨⟨heading, receives⟩, readable, generous⟩ := readying
      refine ⟨⟨heading, ?_⟩, ⟨tidy.1, readable.headers⟩, generous⟩
      cases receives with
      | nothing fresh silent =>
          exact .nothing fresh silent
      | answer flushed headed received =>
          exact .answer flushed headed received

/-- The statuses that the library sets itself have three digits. -/
theorem statuses :
    (100 ≤ statusOk ∧ statusOk ≤ 999) ∧
      100 ≤ internalServerError ∧ internalServerError ≤ 999 := by
  decide

/-- What the protocol puts right does not make a head unreadable. -/
theorem Readying.correct
    (readying : Readying start exchange body) (hres : Int) :
    Readying start (exchange.correct hres) body := by
  obtain ⟨⟨heading, receives⟩, readable, generous⟩ := readying
  have versions
      {request : Request σ} {response : Response}
      (isReadable : Readable response) :
      Readable (fixVersion request response) ∧
        (fixVersion request response).headersFlushed =
          response.headersFlushed := by
    rw [fixVersion]
    split
    · exact ⟨⟨isReadable.status, isReadable.headers⟩, rfl⟩
    · split
      · exact ⟨⟨isReadable.status, isReadable.headers⟩, rfl⟩
      · exact ⟨isReadable, rfl⟩
  have corrected :
      Readable (exchange.correct hres).response ∧
        (exchange.correct hres).response.headersFlushed =
          exchange.response.headersFlushed := by
    rw [Exchange.correct]
    dsimp only
    split
    · exact versions ⟨statuses.2, readable.headers⟩
    · exact versions readable
  refine ⟨⟨heading, ?_⟩, corrected.1, generous⟩
  cases receives with
  | nothing fresh silent =>
      exact .nothing (corrected.2.trans fresh) silent
  | answer flushed headed received =>
      exact .answer (corrected.2.trans flushed) headed received

/-- Both headers that conclude a head are clean. -/
theorem clean_connection (keepalive : Bool) :
    Clean
        { name := connectionName, value := connectionValue keepalive } ∧
      Clean { name := contentLengthName, value := ascii "0" } := by
  cases keepalive with
  | false => decide
  | true => decide

/-- A request that is answered gets one head, and the body behind it. -/
theorem respond_received
    {config : Config} {nrequests : Nat} {handler : Request σ → Handler}
    {request : Request σ} {world : World} {keepalive : Bool}
    (tidy : (handler request).Tidy)
    (generous : Generous world)
    (responds :
      respond http config fuel handler nrequests request world =
        .ok (keepalive, exchange)) :
    Generous exchange.world ∧
      ∃ heading,
        Readable heading ∧
          exchange.world.output =
            world.output ++
              (head heading ++
                (handler request).written http fuel
                  (Exchange.begin request world)) := by
  obtain ⟨⟨hres, returned⟩, runs, responds⟩ := of_bind responds
  obtain ⟨concluded, concludes, responds⟩ := of_bind responds
  cases responds
  have begins :
      Readying world.output (Exchange.begin request world) [] :=
    { receives := ⟨none, .nothing rfl rfl⟩
      readable := ⟨statuses.1, nofun⟩
      generous := generous }
  have answered := Handler.run_readying _ tidy begins runs
  rw [List.nil_append] at answered
  have corrected := answered.correct hres
  obtain ⟨⟨first, named⟩, setsName, concludes⟩ := of_bind concludes
  obtain ⟨⟨second, sized⟩, setsLength, concludes⟩ := of_bind concludes
  have clean :=
    clean_connection
      (keepsAlive config nrequests (requestedKeepalive request)
        (returned.correct hres).response)
  have headed :=
    (corrected.set clean.1 setsName).set clean.2 setsLength
  obtain ⟨sent, -, concludes⟩ := of_bind concludes
  obtain ⟨⟨response, last⟩, flushes, concludes⟩ := of_bind concludes
  cases concludes
  obtain ⟨-, -, still, received⟩ := headed.flushed flushes
  exact ⟨still, received⟩

/-- Skipping what is left of a body writes nothing. -/
theorem skipBody_received
    {request last : Request σ} {world later : World} {skipped : Bool}
    (generous : Generous world)
    (skips :
      skipBody http fuel request world = .ok (skipped, last, later)) :
    Generous later ∧ later.output = world.output := by
  have reads
      {request : Request σ} {world : World} {size : Nat} {nread : Int}
      {reading : BodyReading σ}
      (generous : Generous world)
      (ran :
        requestRead http fuel request world size = .ok (nread, reading)) :
      Generous reading.world ∧ reading.world.output = world.output :=
    ⟨requestRead_invariant Generous.read generous ran,
      @requestRead_invariant σ http
        (fun other => other.output = world.output)
        (fun before read =>
          (tcpSocketRead_readOn read).1.output.trans before)
        _ _ _ _ _ _ rfl ran⟩
  have loops (rounds : Nat) :
      ∀ {bytesremain : Nat} {request : Request σ} {world : World},
        Generous world →
          skipFrom http fuel rounds bytesremain request world =
              .ok (skipped, last, later) →
            Generous later ∧ later.output = world.output := by
    induction rounds with
    | zero =>
        intro bytesremain request world _ ran
        cases ran
    | succ rounds inductionHypothesis =>
        intro bytesremain request world generous ran
        rw [skipFrom] at ran
        split at ran
        · cases ran
          exact ⟨generous, rfl⟩
        · obtain ⟨⟨nread, reading⟩, read, ran⟩ := of_bind ran
          obtain ⟨still, output⟩ := reads generous read
          dsimp only at ran
          split at ran
          · cases ran
            exact ⟨still, output⟩
          · obtain ⟨last, sameOutput⟩ := inductionHypothesis still ran
            exact ⟨last, sameOutput.trans output⟩
  rw [skipBody] at skips
  split at skips
  · exact loops fuel generous skips
  · cases skips
    exact ⟨generous, rfl⟩

end Run

/-!
## Memory for a head
-/

/-- Every allocation that is still to come succeeds. -/
def Granted (allocations : List Bool) : Prop :=
  ∀ answer ∈ allocations, answer = true

/-- An allocation leaves the later answers. -/
theorem Granted.next
    {allocations later : List Bool} {answer : Bool}
    (granted : Granted allocations)
    (next : World.next allocations = (answer, later)) : Granted later := by
  cases allocations with
  | nil =>
      cases next
      exact granted
  | cons first allocations =>
      cases next
      exact fun other member => granted other (List.mem_cons_of_mem _ member)

section Granting

variable {http : HttpParser σ} {config : Config}
variable {memory : Nat → Nat → UInt8}
variable {data after : HeaderData}

/-- Flushing a header takes an answer. -/
theorem flushHeader_granted
    {verdict : Verdict}
    (granted : Granted data.allocations)
    (flushed : flushHeader data = .ok (verdict, after)) :
    Granted after.allocations := by
  rw [flushHeader] at flushed
  split at flushed
  · next next =>
      cases flushed
      exact granted.next next
  · next next =>
      obtain ⟨name, -, flushed⟩ := of_bind flushed
      obtain ⟨value, -, flushed⟩ := of_bind flushed
      obtain ⟨-, -, flushed⟩ := of_bind flushed
      cases flushed
      exact granted.next next

/-- Checking a length takes none. -/
theorem limit_granted
    {verdict : Verdict} {text : Text}
    (limited :
      (pure (HeaderData.limit config text data) :
        Except Fault (Verdict × HeaderData)) = .ok (verdict, after))
    (granted : Granted data.allocations) :
    Granted after.allocations := by
  have isLimit := Except.ok.inj limited
  rw [HeaderData.limit] at isLimit
  split at isLimit
  · cases isLimit
    exact granted
  · cases isLimit
    exact granted

/-- The callbacks take answers in order. -/
theorem onHead_granted
    {callback : Callback} {verdict : Verdict}
    (granted : Granted data.allocations)
    (called : onHead config callback data = .ok (verdict, after)) :
    Granted after.allocations := by
  cases callback with
  | messageBegin | chunkHeader | chunkComplete | messageComplete =>
      cases called
      exact granted
  | body span =>
      cases called
  | url span =>
      obtain ⟨url, -, called⟩ := of_bind called
      exact limit_granted called granted
  | headerField span =>
      simp only [onHead, onHeaderField] at called
      split at called
      · obtain ⟨⟨flushVerdict, between⟩, flushed, called⟩ := of_bind called
        have kept := flushHeader_granted granted flushed
        cases flushVerdict with
        | proceed =>
            exact limit_granted called kept
        | fail | pause =>
            cases called
            exact kept
      · obtain ⟨field, -, called⟩ := of_bind called
        exact limit_granted called granted
  | headerValue span =>
      simp only [onHead, onHeaderValue] at called
      split at called
      · exact limit_granted (Eq.trans (ok_bind _ _).symm called) granted
      · obtain ⟨value, -, called⟩ := of_bind called
        exact limit_granted called granted
  | headersComplete =>
      simp only [onHead, onHeadersComplete] at called
      split at called
      · obtain ⟨-, -, called⟩ := of_bind called
        obtain ⟨⟨flushVerdict, between⟩, flushed, called⟩ := of_bind called
        cases called
        exact flushHeader_granted granted flushed
      · cases called
        exact granted

/-- A buffer takes two answers. -/
theorem allocateHeadersBuf_granted
    {curbuf : Option CurBuf}
    (granted : Granted data.allocations)
    (allocated : allocateHeadersBuf config memory data = (curbuf, after)) :
    Granted after.allocations := by
  rw [allocateHeadersBuf] at allocated
  split at allocated
  · next next =>
      cases allocated
      exact granted.next next
  · next first =>
      split at allocated
      · next second =>
          cases allocated
          exact (granted.next first).next second
      · next second =>
          cases allocated
          exact (granted.next first).next second

/-- So does a buffer that is switched to. -/
theorem switchBuf_granted
    {nparsed : Nat} {curbuf : CurBuf}
    {result : Except (Err × HeaderData) (HeaderData × CurBuf)}
    (granted : Granted data.allocations)
    (switched :
      switchBuf config memory nparsed data curbuf = .ok result) :
    match result with
    | .error (_, later) => Granted later.allocations
    | .ok (later, _) => Granted later.allocations := by
  rw [switchBuf] at switched
  split at switched
  · cases switched
    exact granted
  · split at switched
    · cases switched
    · split at switched
      · split at switched
        · cases switched
          exact granted
        · split at switched
          · next allocated =>
              cases switched
              exact allocateHeadersBuf_granted granted allocated
          · next allocated =>
              obtain ⟨moved, moves, switched⟩ := of_bind switched
              cases switched
              have kept := allocateHeadersBuf_granted granted allocated
              obtain ⟨copied, -, moves⟩ := of_bind moves
              obtain ⟨buffers, -, moves⟩ := of_bind moves
              cases moves
              exact kept
      · cases switched
        exact granted

/-- The answers that a reading of a head leaves. -/
def HeadRead.allocations : HeadRead σ → List Bool
  | .err _ allocations => allocations
  | .parsed data _ _ => data.allocations

/-- One call of the parser leaves answers. -/
theorem execute_granted
    {parser : Parser σ} {curbuf : CurBuf} {received given : Bytes}
    {parsed : Parsed σ}
    (granted : Granted data.allocations)
    (executed :
      execute http config memory parser curbuf received given data =
        .ok parsed) :
    match parsed with
    | .stop result => Granted result.allocations
    | .next _ later _ => Granted later.allocations := by
  obtain ⟨⟨nparsed, later, between⟩, ran, executed⟩ := of_bind executed
  have kept : Granted between.allocations :=
    HttpParser.run_invariant
      (fun data : HeaderData => Granted data.allocations)
      onHead_granted granted ran
  obtain ⟨-, -, executed⟩ := of_bind executed
  split at executed
  · cases executed
    exact kept
  · cases executed
    exact kept
  · cases executed
    exact kept
  · obtain ⟨result, switched, executed⟩ := of_bind executed
    have still := switchBuf_granted kept switched
    rcases result with ⟨err, stopped⟩ | ⟨next, curbuf⟩
    · cases executed
      exact still
    · cases executed
      exact still

/-- Reading a head leaves a generous world and the later answers. -/
theorem readHeadersFrom_granted
    (fuel : Nat) :
    ∀ {reading : Reading σ} {result : HeadRead σ} {world : World},
      Generous reading.world →
        Granted reading.data.allocations →
        (readHeadersFrom http config memory fuel reading).2 =
            .ok (result, world) →
          Generous world ∧ Granted result.allocations := by
  induction fuel with
  | zero =>
      intro reading result world _ _ ran
      cases ran
  | succ fuel inductionHypothesis =>
      intro reading result world generous granted ran
      simp only [readHeadersFrom] at ran
      split at ran
      · cases ran
      · rcases reads :
            tcpSocketRead reading.world reading.curbuf.size with
          fault | ⟨_ | _ | ⟨byte, bytes⟩, later⟩
        · rw [reads] at ran
          cases ran
        · rw [reads] at ran
          cases ran
          exact ⟨generous.read reads, granted⟩
        · rw [reads] at ran
          cases ran
          exact ⟨generous.read reads, granted⟩
        · have still := generous.read reads
          simp only [reads] at ran
          rcases filled :
              fillBuf reading.data reading.curbuf (byte :: bytes) with
            fault | ⟨given, data⟩
          · rw [filled] at ran
            cases ran
          · simp only [filled] at ran
            have same : Granted data.allocations := by
              obtain ⟨buffers, -, filled⟩ := of_bind filled
              obtain ⟨bytes, -, filled⟩ := of_bind filled
              cases filled
              exact granted
            rcases executed :
                execute http config memory reading.parser reading.curbuf
                  (byte :: bytes) given data with
              fault | stopped | ⟨parser, next, curbuf⟩
            · rw [executed] at ran
              cases ran
            · rw [executed] at ran
              cases ran
              exact ⟨still, execute_granted same executed⟩
            · simp only [executed] at ran
              exact inductionHypothesis still
                (execute_granted same executed) ran

/-- Arguments take an answer each. -/
theorem parseQuery_granted
    (query : Bytes) :
    ∀ {state : QueryState} {arguments : Headers} {allocations : List Bool},
      Granted allocations →
        Granted (parseQuery state arguments allocations query).2.2 := by
  have adds
      {arguments : Headers} {argument : Header}
      {allocations later : List Bool} {added : Option Headers}
      (granted : Granted allocations)
      (add : addArgument arguments allocations argument = (added, later)) :
      Granted later := by
    rw [addArgument] at add
    split at add
    · next next =>
        cases add
        exact granted.next next
    · next next =>
        cases add
        exact granted.next next
  induction query with
  | nil =>
      intro state arguments allocations granted
      cases state with
      | initial | readingKey key | observingSign key =>
          exact granted
      | readingValue key value =>
          rw [parseQuery]
          split
          · next add =>
              exact adds granted add
          · next add =>
              exact adds granted add
  | cons character query inductionHypothesis =>
      intro state arguments allocations granted
      rw [parseQuery]
      split
      · exact inductionHypothesis granted
      · split
        · next add =>
            exact inductionHypothesis (adds granted add)
        · next add =>
            exact adds granted add

/-- So does a query, and its copy takes one more. -/
theorem readQuery_granted
    (query : Bytes) {allocations : List Bool}
    (granted : Granted allocations) :
    Granted (readQuery query allocations).2.2 := by
  rw [readQuery]
  split
  · exact granted
  · split
    · next next =>
        exact granted.next next
    · next next =>
        split
        · exact granted.next next
        · exact parseQuery_granted _ (granted.next next)

/-- What follows when the loop has ended takes answers too. -/
theorem finishHead_granted
    {result : HeadRead σ} {err : Err} {request : Request σ}
    {allocations : List Bool}
    (granted : Granted result.allocations)
    (finished :
      finishHead http result = .ok (err, request, allocations)) :
    Granted allocations := by
  cases result with
  | err err answers =>
      cases finished
      exact granted
  | parsed data parser remainder =>
      obtain ⟨url, -, finished⟩ := of_bind finished
      rcases reads :
          readUrl http (preprocess http data parser remainder url)
            data.allocations with
        ⟨readErr, readRequest, answers⟩
      rw [reads] at finished
      cases finished
      rw [readUrl] at reads
      split at reads
      · cases reads
        exact granted
      · cases reads
        exact readQuery_granted _ granted

end Granting

/-!
## Rounds
-/

section Rounds

variable {http : HttpParser σ} {config : Config}
variable {memory : Nat → Nat → UInt8} {fuel : Nat}
variable {handler : Request σ → Handler}

/-- The body that a round writes, if it accepts a head. -/
def roundBody (http : HttpParser σ) (config : Config)
    (memory : Nat → Nat → UInt8) (fuel : Nat)
    (handler : Request σ → Handler) (connected : Connected) :
    Option Bytes :=
  match readHeaders http config memory fuel connected.world with
  | .ok (.ok, request, world) =>
      some ((handler request).written http fuel
        (Exchange.begin request world))
  | _ => none

/-- Rounds of a connection, with the bodies they write. -/
inductive Answered (http : HttpParser σ) (config : Config)
    (memory : Nat → Nat → UInt8) (fuel : Nat)
    (handler : Request σ → Handler) (start : Connected) :
    List Bytes → Connected → Prop where
  | start : Answered http config memory fuel handler start [] start
  | round {bodies : List Bytes} {connected next : Connected}
      (earlier :
        Answered http config memory fuel handler start bodies connected)
      (kept : connected.keepalive = true)
      (serves :
        serveRequest http config memory fuel handler connected = .ok next) :
      Answered http config memory fuel handler start
        (bodies ++
          (roundBody http config memory fuel handler connected).toList)
        next

/-- Reading a head writes nothing. -/
theorem readHeaders_received
    {world later : World} {err : Err} {request : Request σ}
    (generous : Generous world)
    (read :
      readHeaders http config memory fuel world =
        .ok (err, request, later)) :
    Generous later ∧ later.output = world.output := by
  obtain ⟨⟨result, between⟩, reads, read⟩ := of_bind read
  obtain ⟨⟨_, _, allocations⟩, finished, read⟩ := of_bind read
  cases read
  have output := (readHead_sound reads).2.output
  have still : Generous between ∧ Granted result.allocations := by
    have granted : Granted world.allocations := generous.obliging.allocates
    rw [readHead] at reads
    split at reads
    · next allocated =>
        cases reads
        exact ⟨generous, allocateHeadersBuf_granted granted allocated⟩
    · next allocated =>
        exact readHeadersFrom_granted fuel generous
          (allocateHeadersBuf_granted granted allocated) reads
  refine ⟨⟨⟨finishHead_granted still.2 finished, fun sizes => ?_⟩,
    still.1.waits⟩, output⟩
  exact takesWhole_withAllocations _ sizes (still.1.obliging.accepts sizes)

/-- A round puts one response on the socket, or nothing. -/
theorem serveRequest_received
    {connected next : Connected}
    (tidy : ∀ request, (handler request).Tidy)
    (generous : Generous connected.world)
    (serves :
      serveRequest http config memory fuel handler connected = .ok next) :
    Generous next.world ∧
      ((roundBody http config memory fuel handler connected = none ∧
          next.world.output = connected.world.output) ∨
        ∃ body heading,
          roundBody http config memory fuel handler connected = some body ∧
            Readable heading ∧
            next.world.output =
              connected.world.output ++ (head heading ++ body)) := by
  obtain ⟨⟨err, request, world⟩, read, serves⟩ := of_bind serves
  obtain ⟨still, output⟩ := readHeaders_received generous read
  dsimp only at serves
  split at serves
  · next refused =>
      cases serves
      refine ⟨still, Or.inl ⟨?_, output⟩⟩
      rw [roundBody, read]
      cases err with
      | ok => exact absurd rfl refused
      | eof | nomem | overflow | protocol => rfl
  · next accepted =>
      have noError : err = .ok := Decidable.not_not.mp accepted
      subst noError
      obtain ⟨⟨keepalive, exchange⟩, responds, serves⟩ := of_bind serves
      obtain ⟨generousAnswer, heading, readable, received⟩ :=
        respond_received (tidy request) still responds
      obtain ⟨⟨skipped, last, later⟩, skips, serves⟩ := of_bind serves
      obtain ⟨generousLater, outputLater⟩ :=
        skipBody_received generousAnswer skips
      have isBody :
          roundBody http config memory fuel handler connected =
            some ((handler request).written http fuel
              (Exchange.begin request world)) := by
        rw [roundBody, read]
      rw [output] at received
      cases skipped with
      | true | false =>
          cases serves
          exact ⟨generousLater,
            Or.inr ⟨_, heading, isBody, readable,
              outputLater.trans received⟩⟩

/-- What a client reads that knows how long the bodies are. -/
def receive : List Nat → Bytes → Option (List (ResponseHead × Bytes) × Bytes)
  | [], bytes => some ([], bytes)
  | length :: lengths, bytes => do
      let (head, rest) ← parseHead bytes
      let (answers, rest') ← receive lengths (rest.drop length)
      some ((head, rest.take length) :: answers, rest')

/-- What a head says to a client. -/
def said (response : Response) : ResponseHead where
  majorVersion := response.majorVersion
  minorVersion := response.minorVersion
  status := response.status
  headers := response.headers.list

/-- Heads and bodies on the wire. -/
def onTheWire (answers : List (Response × Bytes)) : Bytes :=
  answers.flatMap fun answer => head answer.1 ++ answer.2

/-- A client reads all heads and bodies, and nothing is left. -/
theorem receive_onTheWire
    (answers : List (Response × Bytes))
    (readable : ∀ answer ∈ answers, Readable answer.1) :
    receive (answers.map fun answer => answer.2.length)
        (onTheWire answers) =
      some (answers.map fun answer => (said answer.1, answer.2), []) := by
  induction answers with
  | nil =>
      rfl
  | cons answer answers inductionHypothesis =>
      obtain ⟨heading, body⟩ := answer
      have first : Readable heading :=
        readable (heading, body) List.mem_cons_self
      have later :=
        inductionHypothesis fun other member =>
          readable other (List.mem_cons_of_mem _ member)
      have parsed :=
        parseHead_head first.status first.headers
          (body ++ onTheWire answers)
      have wire :
          onTheWire ((heading, body) :: answers) =
            head heading ++ (body ++ onTheWire answers) := by
        rw [onTheWire, List.flatMap_cons, List.append_assoc]
        rfl
      rw [wire, List.map_cons, receive, parsed]
      dsimp only [Option.bind_eq_bind, Option.bind_some]
      rw [List.drop_left, List.take_left, later]
      rfl

end Rounds

/-- A handler that greets. -/
def greeting : Handler :=
  .write (.writev [ascii "hel", ascii "lo"]) fun _ => .done 0

/-- Without a schedule for what it takes a world is generous. -/
theorem generous_sending (input : Bytes) (reads : List Kernel) :
    Generous (sending input reads) where
  obliging :=
    { allocates := nofun
      accepts := by
        intro sizes
        apply World.takesWhole_of_waits sizes _ _ _
          (obliging_atOnce.accepts sizes)
        · exact fun answer member => absurd member List.not_mem_nil
        · exact fun answer member => absurd member List.not_mem_nil
        · rfl }
  waits := nofun

/-- What a client gets that is greeted. -/
def greeted : Bytes := ascii "HTTP/1.1 200 OK\r\n\r\nhello"

/-- The connection when the first request has been answered. -/
def onceGreeted : Connected where
  nrequests := 1
  keepalive := true
  world :=
    { sending posted.bytes [.move 39] with output := greeted }

/-- The connection when both requests have been answered. -/
def twiceGreeted : Connected where
  nrequests := 2
  keepalive := false
  world := { sending [] [] with output := greeted ++ greeted }

end Http

end Dfk
