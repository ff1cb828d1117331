import Dfk.Http.FramingAgreement
import Dfk.Http.Protocol

/-!
# What a `Connection` header says

The header is set when the handler has returned.  A head that the handler has
put on the socket before lacks it, and so does one for which there is no
memory; a header of this name that the handler has set is kept.
-/

namespace Dfk.Http

variable {σ : Type}

/-- Names of headers do not depend on the case of letters. -/
def IsConnection (name : Bytes) : Prop :=
  name.map lowerCase = connectionName.map lowerCase

instance (name : Bytes) : Decidable (IsConnection name) :=
  inferInstanceAs (Decidable (_ = _))

/-- The `Connection` headers of a head. -/
def connectionHeaders (headers : List Header) : List Header :=
  headers.filter fun header => IsConnection header.name

/-- A head says whether the connection is closed, once. -/
def Tells (headers : List Header) (closes : Prop) : Prop :=
  ∃ header,
    connectionHeaders headers = [header] ∧
      (closes → header.value = closeValue) ∧
      (¬ closes → header.value = keepAliveValue)

/-- The loop ends with this response. -/
def Closes (http : HttpParser σ) (nrequests : Nat) (keepalive : Bool)
    (answered : Exchange σ) : Prop :=
  ∃ fuel connected,
    answered.finish http fuel nrequests keepalive = .ok connected ∧
      connected.keepalive = false

/-!
## The head of a response
-/

namespace Exchange

/-- What the handler has left, with the headers that are set behind it. -/
def headed (exchange : Exchange σ) (keepalive : Bool) : Exchange σ :=
  let (_, response, world) :=
    storeItem 1 exchange.response exchange.world
      { name := connectionName, value := connectionValue keepalive }
  let (_, response, world) :=
    storeItem 1 response world
      { name := contentLengthName, value := ascii "0" }
  { exchange with response := response, world := world }

/-- Both headers have a name and a value. -/
theorem conclude_eq (exchange : Exchange σ) (keepalive : Bool) :
    exchange.conclude keepalive = (exchange.headed keepalive).flush := by
  have named : connectionName ≠ [] := by decide
  have lengthNamed : contentLengthName ≠ [] := by decide
  have valued : connectionValue keepalive ≠ [] := by
    cases keepalive with
    | false => decide
    | true => decide
  have zero : ascii "0" ≠ [] := by decide
  simp only [conclude, set, Setter.perform, Http.set, setItem,
    check_pos named, check_pos lengthNamed, check_pos valued, check_pos zero,
    ok_bind, pure_eq_ok]
  rfl

/-- A flushed head is one that has been put on the socket. -/
def Consistent (exchange : Exchange σ) : Prop :=
  exchange.response.headersFlushed = exchange.sent.isSome

end Exchange

/-- A flush leaves a flushed head. -/
theorem flushHeaders_flushed
    {response after : Response} {world later : World}
    (flushed : flushHeaders response world = .ok (after, later)) :
    after.headersFlushed = true := by
  rw [flushHeaders] at flushed
  split at flushed
  · next already =>
      cases flushed
      exact already
  · obtain ⟨⟨response, world⟩, -, flushed⟩ := of_bind flushed
    dsimp only at flushed
    split at flushed
    · obtain ⟨iov, -, flushed⟩ := of_bind flushed
      obtain ⟨written, -, flushed⟩ := of_bind flushed
      cases flushed
      rfl
    · obtain ⟨written, -, flushed⟩ := of_bind flushed
      cases flushed
      rfl

/-- Setting a header does not flush the head. -/
theorem storeItem_flushed
    (allocations : Nat) (response : Response) (world : World)
    (header : Header) :
    (storeItem allocations response world header).2.1.headersFlushed =
      response.headersFlushed := by
  rw [storeItem]
  split
  · rfl
  · rfl

namespace Exchange

variable {exchange after : Exchange σ}

/-- A head is put on the socket by its first flush. -/
theorem isSome_sentBy
    {sent : Option (List Header)}
    (consistent : exchange.Consistent)
    (isSent : exchange.sentBy = .ok sent) :
    sent.isSome = true := by
  rw [sentBy] at isSent
  split at isSent
  · next flushed =>
      cases isSent
      rw [← consistent]
      exact flushed
  · obtain ⟨headers, -, isSent⟩ := of_bind isSent
    cases isSent
    rfl

theorem Consistent.write
    {call : BodyCall} {nwritten : Int}
    (consistent : exchange.Consistent)
    (writes : exchange.write call = .ok (nwritten, after)) :
    after.Consistent := by
  rw [Exchange.write] at writes
  obtain ⟨sent, isSent, writes⟩ := of_bind writes
  obtain ⟨⟨count, response, world⟩, performs, writes⟩ := of_bind writes
  cases writes
  obtain ⟨served, flushed, -⟩ :=
    responseWritev_inv (BodyCall.perform_eq_writev performs)
  rw [Consistent, flushHeaders_flushed flushed,
    isSome_sentBy consistent isSent]

theorem Consistent.set
    {setter : Setter} {name value : Bytes} {err : Err}
    (consistent : exchange.Consistent)
    (sets : exchange.set setter name value = .ok (err, after)) :
    after.Consistent := by
  have isItem :
      ∃ allocations,
        setter.perform = setItem allocations := by
    cases setter with
    | set => exact ⟨1, rfl⟩
    | setCopy => exact ⟨3, rfl⟩
    | setCopyName => exact ⟨2, rfl⟩
    | setCopyValue => exact ⟨2, rfl⟩
  obtain ⟨allocations, isItem⟩ := isItem
  rw [Exchange.set, isItem] at sets
  obtain ⟨⟨result, response, world⟩, stores, sets⟩ := of_bind sets
  rw [setItem] at stores
  obtain ⟨-, -, stores⟩ := of_bind stores
  obtain ⟨-, -, stores⟩ := of_bind stores
  have stored :=
    storeItem_flushed allocations exchange.response exchange.world
      { name := name, value := value }
  rw [Except.ok.inj stores] at stored
  cases sets
  rw [Consistent, stored]
  exact consistent

theorem Consistent.read
    {http : HttpParser σ} {fuel size : Nat} {result : Int} {bytes : Bytes}
    (consistent : exchange.Consistent)
    (reads : exchange.read http fuel size = .ok (result, bytes, after)) :
    after.Consistent := by
  rw [Exchange.read] at reads
  obtain ⟨⟨count, reading⟩, -, reads⟩ := of_bind reads
  cases reads
  exact consistent

end Exchange

/-- Whatever a handler does, it knows no other way to flush the head. -/
theorem Handler.run_consistent
    {http : HttpParser σ} {fuel : Nat} {hres : Int} (handler : Handler) :
    ∀ {exchange returned : Exchange σ},
      exchange.Consistent →
        handler.run http fuel exchange = .ok (hres, returned) →
          returned.Consistent := by
  induction handler with
  | done result =>
      intro exchange returned consistent runs
      cases runs
      exact consistent
  | read size next inductionHypothesis =>
      intro exchange returned consistent runs
      obtain ⟨⟨result, bytes, after⟩, reads, runs⟩ := of_bind runs
      exact inductionHypothesis result bytes (consistent.read reads) runs
  | write call next inductionHypothesis =>
      intro exchange returned consistent runs
      obtain ⟨⟨nwritten, after⟩, writes, runs⟩ := of_bind runs
      exact inductionHypothesis nwritten (consistent.write writes) runs
  | set setter name value next inductionHypothesis =>
      intro exchange returned consistent runs
      obtain ⟨⟨err, after⟩, sets, runs⟩ := of_bind runs
      exact inductionHypothesis err (consistent.set sets) runs
  | assign fields next inductionHypothesis =>
      intro exchange returned consistent runs
      apply inductionHypothesis _ runs
      exact consistent

/-!
## Headers of this name
-/

section Headers

variable {headers : Headers} {header : Header}

/-- Another header is inserted. -/
theorem connectionHeaders_insert_other
    (differs : ¬ IsConnection header.name) :
    connectionHeaders (headers.insert header).list =
      connectionHeaders headers.list := by
  cases found : AvlShape.find (Headers.turn header.name) headers with
  | some stored =>
      rw [Headers.insert_of_found (by rw [found]; rfl)]
  | none =>
      obtain ⟨before, after, old, new⟩ :=
        Headers.list_insert_of_absent found
      rw [old, new]
      simp [connectionHeaders, differs]

/-- It is the only one of its name if there is none before. -/
theorem connectionHeaders_insert_iff
    {only : Header}
    (isConnection : IsConnection header.name)
    (absent : AvlShape.find (Headers.turn header.name) headers = none) :
    connectionHeaders (headers.insert header).list = [only] ↔
      connectionHeaders headers.list = [] ∧ only = header := by
  obtain ⟨before, after, old, new⟩ := Headers.list_insert_of_absent absent
  have split :
      connectionHeaders (headers.insert header).list =
        connectionHeaders before ++ header :: connectionHeaders after := by
    rw [new]
    simp [connectionHeaders, isConnection]
  have joined :
      connectionHeaders headers.list =
        connectionHeaders before ++ connectionHeaders after := by
    rw [old, connectionHeaders, List.filter_append]
    rfl
  rw [split, joined, List.append_eq_nil_iff]
  cases connectionHeaders before with
  | nil =>
      rw [List.nil_append, List.cons_eq_cons]
      constructor
      · rintro ⟨same, rest⟩
        exact ⟨⟨rfl, rest⟩, same.symm⟩
      · rintro ⟨⟨-, rest⟩, same⟩
        exact ⟨same.symm, rest⟩
  | cons first rest => simp

end Headers

/-- An item for another header leaves the headers of this name. -/
theorem connectionHeaders_storeItem
    {allocations : Nat} {response : Response} {world : World}
    {header : Header}
    (differs : ¬ IsConnection header.name) :
    connectionHeaders
        (storeItem allocations response world header).2.1.headers.list =
      connectionHeaders response.headers.list := by
  rw [storeItem]
  split
  · rfl
  · exact connectionHeaders_insert_other differs

/-- `Content-Length` is another header. -/
theorem not_isConnection_contentLength : ¬ IsConnection contentLengthName := by
  decide

/-- Memory is there for the header, and the map has none that is found. -/
def Stores (exchange : Exchange σ) : Prop :=
  exchange.world.alloc.1 = true ∧
    exchange.response.headers.get connectionName = none

instance (exchange : Exchange σ) : Decidable (Stores exchange) :=
  inferInstanceAs (Decidable (_ ∧ _))

/-- Memory is there for the buffers of the head. -/
def HeadAllocated (exchange : Exchange σ) : Prop :=
  (allocEach (headAllocations exchange.response) exchange.world).1 = true

instance (exchange : Exchange σ) : Decidable (HeadAllocated exchange) :=
  inferInstanceAs (Decidable (_ = _))

/-- The only header of this name behind the handler. -/
theorem connectionHeaders_headed_iff
    {exchange : Exchange σ} {keepalive : Bool} {only : Header} :
    connectionHeaders (exchange.headed keepalive).response.headers.list =
        [only] ↔
      if Stores exchange then
        connectionHeaders exchange.response.headers.list = [] ∧
          only =
            { name := connectionName, value := connectionValue keepalive }
      else connectionHeaders exchange.response.headers.list = [only] := by
  have skipped :
      connectionHeaders (exchange.headed keepalive).response.headers.list =
        connectionHeaders
          (storeItem 1 exchange.response exchange.world
            { name := connectionName
              value := connectionValue keepalive }).2.1.headers.list :=
    connectionHeaders_storeItem not_isConnection_contentLength
  rw [skipped, storeItem, allocEach_one]
  by_cases stores : Stores exchange
  · have absent := stores.2
    rw [Headers.get, Option.map_eq_none_iff] at absent
    have served : exchange.world.alloc = (true, exchange.world.alloc.2) :=
      Prod.ext stores.1 rfl
    rw [if_pos stores, served]
    exact connectionHeaders_insert_iff rfl absent
  · rw [if_neg stores]
    by_cases allocated : exchange.world.alloc.1 = true
    · have served : exchange.world.alloc = (true, exchange.world.alloc.2) :=
        Prod.ext allocated rfl
      have present :
          (AvlShape.find (Headers.turn connectionName)
            exchange.response.headers).isSome = true := by
        rw [Option.isSome_iff_ne_none]
        intro absent
        apply stores
        rw [Stores, Headers.get, absent]
        exact ⟨allocated, rfl⟩
      rw [served]
      dsimp only
      rw [Headers.insert_of_found present]
    · have refused : exchange.world.alloc = (false, exchange.world.alloc.2) :=
        Prod.ext (Bool.eq_false_iff.mpr allocated) rfl
      rw [refused]

/-!
## The head that is put on the socket
-/

/-- `Content-Length` is set, and whether there is memory for the head. -/
theorem addContentLength_ok
    {response after : Response} {world between : World}
    (adds : addContentLength response world = .ok (after, between)) :
    after = completed response ∧
      between.alloc.1 =
        (allocEach (headAllocations response) world).1 := by
  rw [addContentLength] at adds
  rw [completed, headAllocations]
  split at adds
  · next missing =>
      rw [if_pos missing, if_pos missing]
      rw [storeItem] at adds
      rcases item : allocEach 2 world with ⟨_ | _, later⟩
      · simp [item] at adds
      · rw [item] at adds
        cases adds
        refine ⟨rfl, ?_⟩
        rw [allocEach] at item ⊢
        rcases first : world.alloc with ⟨_ | _, middle⟩
        · simp [first] at item
        · rw [first] at item
          dsimp only at item ⊢
          rw [allocEach_one] at item
          rw [allocEach, item]
          exact congrArg Prod.fst (allocEach_one between).symm
  · next complete =>
      cases adds
      rw [if_neg complete, if_neg complete, allocEach_one]
      exact ⟨rfl, rfl⟩

/-- The headers of this name in a head that is flushed. -/
theorem flush_connectionHeaders
    {exchange answered : Exchange σ}
    (fresh : exchange.response.headersFlushed = false)
    (flushed : exchange.flush = .ok answered) :
    connectionHeaders (answered.sent.getD []) =
      if HeadAllocated exchange then
        connectionHeaders exchange.response.headers.list
      else [] := by
  rw [Exchange.flush] at flushed
  obtain ⟨sent, isSent, flushed⟩ := of_bind flushed
  obtain ⟨⟨response, world⟩, -, flushed⟩ := of_bind flushed
  cases flushed
  rw [Exchange.sentBy, if_neg (by simp [fresh])] at isSent
  obtain ⟨headers, isHeaders, isSent⟩ := of_bind isSent
  cases isSent
  rw [Exchange.headHeaders] at isHeaders
  obtain ⟨⟨after, between⟩, adds, isHeaders⟩ := of_bind isHeaders
  obtain ⟨isCompleted, allocated⟩ := addContentLength_ok adds
  cases isHeaders
  have kept :
      connectionHeaders (completed exchange.response).headers.list =
        connectionHeaders exchange.response.headers.list := by
    rw [completed]
    split
    · exact connectionHeaders_insert_other not_isConnection_contentLength
    · rfl
  by_cases memory : HeadAllocated exchange
  · rw [if_pos memory, ← kept, ← isCompleted]
    rw [HeadAllocated] at memory
    dsimp only
    rw [allocated, if_pos memory]
    rfl
  · rw [if_neg memory]
    rw [HeadAllocated] at memory
    dsimp only
    rw [allocated, if_neg memory]
    rfl

/-!
## What is decided and what is said
-/

/--
What it takes for the head to say what the server does.  A head that the
handler has put on the socket has to say so already.  Otherwise there is memory
for the head, and either the header is set, is the only one, and the server
does as decided; or it is not set, and the handler has set the right one.
-/
def Announces (http : HttpParser σ) (nrequests : Nat) (keepalive : Bool)
    (returned answered : Exchange σ) : Prop :=
  match returned.sent with
  | some headers => Tells headers (Closes http nrequests keepalive answered)
  | none =>
      HeadAllocated (returned.headed keepalive) ∧
        if Stores returned then
          connectionHeaders returned.response.headers.list = [] ∧
            (Closes http nrequests keepalive answered ↔ keepalive = false)
        else
          Tells returned.response.headers.list
            (Closes http nrequests keepalive answered)

/-- Putting the status and the version right does not flush the head. -/
theorem Exchange.Consistent.correct
    {exchange : Exchange σ}
    (consistent : exchange.Consistent) (hres : Int) :
    (exchange.correct hres).Consistent := by
  have fixed (response : Response) :
      (fixVersion exchange.request response).headersFlushed =
        response.headersFlushed := by
    rw [fixVersion]
    split
    · rfl
    · split
      · rfl
      · rfl
  rw [Exchange.Consistent, Exchange.correct]
  dsimp only
  rw [fixed]
  split
  · exact consistent
  · exact consistent

/-- The headers that are set behind the handler do not flush the head. -/
theorem Exchange.headed_flushed (exchange : Exchange σ) (keepalive : Bool) :
    (exchange.headed keepalive).response.headersFlushed =
      exchange.response.headersFlushed :=
  (storeItem_flushed ..).trans (storeItem_flushed ..)

/-- A head that has been flushed stays as it is. -/
theorem flush_sent
    {exchange answered : Exchange σ}
    (already : exchange.response.headersFlushed = true)
    (flushed : exchange.flush = .ok answered) :
    answered.sent = exchange.sent := by
  rw [Exchange.flush, Exchange.sentBy, if_pos already, ok_bind] at flushed
  obtain ⟨result, -, flushed⟩ := of_bind flushed
  cases flushed
  rfl

/-- What the head of a response says, for what the handler has left. -/
theorem tells_iff
    {http : HttpParser σ} {nrequests : Nat} {keepalive : Bool}
    {returned answered : Exchange σ}
    (consistent : returned.Consistent)
    (flushed : (returned.headed keepalive).flush = .ok answered) :
    Tells (answered.sent.getD [])
        (Closes http nrequests keepalive answered) ↔
      Announces http nrequests keepalive returned answered := by
  rw [Exchange.Consistent] at consistent
  rw [Announces]
  cases isSent : returned.sent with
  | some headers =>
      have already : (returned.headed keepalive).response.headersFlushed = true := by
        rw [Exchange.headed_flushed, consistent, isSent]
        rfl
      have same : answered.sent = some headers :=
        (flush_sent already flushed).trans isSent
      rw [same]
      rfl
  | none =>
      have fresh : (returned.headed keepalive).response.headersFlushed = false := by
        rw [Exchange.headed_flushed, consistent, isSent]
        rfl
      have head := flush_connectionHeaders fresh flushed
      rw [Tells, head]
      by_cases memory : HeadAllocated (returned.headed keepalive)
      · rw [if_pos memory]
        simp only [connectionHeaders_headed_iff]
        by_cases stores : Stores returned
        · simp only [if_pos stores]
          rw [and_iff_right memory]
          constructor
          · rintro ⟨only, ⟨noneBefore, rfl⟩, closes, staysOpen⟩
            refine ⟨noneBefore, ?_⟩
            cases keepalive with
            | false =>
                refine ⟨fun _ => rfl, fun _ => ?_⟩
                by_contra stays
                exact absurd (staysOpen stays) (by decide)
            | true =>
                refine ⟨fun isClosed => ?_, fun other => by cases other⟩
                exact absurd (closes isClosed) (by decide)
          · rintro ⟨noneBefore, agrees⟩
            refine ⟨_, ⟨noneBefore, rfl⟩, ?_, ?_⟩
            · intro isClosed
              rw [agrees.mp isClosed]
              rfl
            · intro staysOpen
              have kept : keepalive = true := by
                by_contra refused
                exact staysOpen (agrees.mpr (Bool.eq_false_iff.mpr refused))
              rw [kept]
              rfl
        · simp only [if_neg stores]
          exact (and_iff_right memory).symm
      · rw [if_neg memory]
        constructor
        · rintro ⟨only, isOnly, -⟩
          cases isOnly
        · intro announces
          exact absurd announces.1 memory

/--
The head of a response has one `Connection` header, which says whether the
server closes the connection, exactly if `Announces` holds of what the handler
has left, with the status and the version put right.
-/
theorem connection_header_iff
    {http : HttpParser σ} {config : Config} {fuel nrequests : Nat}
    {handler : Request σ → Handler} {request : Request σ} {world : World}
    {hres : Int} {keepalive : Bool} {returned answered : Exchange σ}
    (ran :
      (handler request).run http fuel (Exchange.begin request world) =
        .ok (hres, returned))
    (responded :
      respond http config fuel handler nrequests request world =
        .ok (keepalive, answered)) :
    Tells (answered.sent.getD [])
        (Closes http nrequests keepalive answered) ↔
      Announces http nrequests keepalive (returned.correct hres) answered := by
  have begins : (Exchange.begin request world).Consistent := rfl
  have consistent := (handler request).run_consistent begins ran
  rw [respond, ran, ok_bind] at responded
  obtain ⟨concluded, concludes, responded⟩ := of_bind responded
  cases responded
  rw [Exchange.conclude_eq] at concludes
  exact tells_iff (consistent.correct hres) concludes

/-- The settings of a server that keeps all connections alive. -/
def patient : Config where
  keepaliveRequests := -1
  headerMaxSize := 1
  headersBufferSize := 1
  headersBufferCount := 1

/-- A parser that is not asked to parse anything. -/
def unasked : HttpParser HeadState := oneHead [] [] 0

/-- A request without headers and without a body. -/
def plainRequest : Request HeadState :=
  { Request.init unasked with
    majorVersion := 1
    minorVersion := 1
    contentLength := 0 }

/-- What is left of a request once its response is known. -/
def respondedTo (response : Response) (output : Bytes)
    (sent : Option (List Header)) : Exchange HeadState where
  request := plainRequest
  response := response
  world := writing output []
  sent := sent

/-- The response of a handler that does nothing. -/
def quietResponse : Response :=
  { Response.init 1 1 true with
    headersFlushed := true
    headers :=
      Headers.insert
        (Headers.insert .leaf
          { name := connectionName, value := keepAliveValue })
        { name := contentLengthName, value := ascii "0" } }

/-- The exchange of a handler that does nothing. -/
def quietExchange : Exchange HeadState :=
  respondedTo quietResponse (head quietResponse) (some quietResponse.headers.list)

/-- A handler that does nothing has its response say `Keep-Alive`. -/
theorem connection_header_iff_quiet :
    Tells quietResponse.headers.list
      (Closes unasked 0 true quietExchange) := by
  have ran :
      (Handler.done 0).run unasked 1 (Exchange.begin plainRequest (writing [] [])) =
        .ok (0, Exchange.begin plainRequest (writing [] [])) := rfl
  have responded :
      respond unasked patient 1 (fun _ => .done 0) 0 plainRequest
          (writing [] []) =
        .ok (true, quietExchange) := by
    decide +kernel
  have staysOpen : ¬ Closes unasked 0 true quietExchange := by
    rintro ⟨fuel, connected, finished, closed⟩
    cases finished
    cases closed
  apply (connection_header_iff ran responded).mpr
  refine ⟨by decide, by decide, iff_of_false staysOpen ?_⟩
  decide

/-- A handler that writes one byte. -/
def writesByte (_ : Request HeadState) : Handler :=
  .write (.write (ascii "a")) fun _ => .done 0

/-- The head of the response of such a handler has no `Connection` header. -/
theorem written_head_silent :
    ∃ answered,
      respond unasked patient 1 writesByte 0 plainRequest (writing [] []) =
          .ok (true, answered) ∧
        answered.world.output = plainHead ++ ascii "a" ∧
        ¬ Tells (answered.sent.getD []) (Closes unasked 0 true answered) := by
  refine
    ⟨respondedTo quietResponse (plainHead ++ ascii "a") (some []),
      by decide +kernel, by decide +kernel, ?_⟩
  rintro ⟨header, one, -⟩
  cases one

end Dfk.Http
