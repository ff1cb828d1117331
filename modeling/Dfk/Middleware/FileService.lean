import Dfk.Middleware.HandlingReturns

/-!
# Files on the wire

The file server as the handler of a connection with memory for everything and
a socket that takes everything.  A client that reads each body as long as its
head announces receives the files and the listings that it asks for, and for
any other request the status, in the order of its requests.
-/

namespace Dfk

namespace Http

variable {σ : Type}

/-! ## Writes to a generous world -/

namespace Generous

variable {world : World}

/-- An allocation succeeds. -/
theorem alloc (generous : Generous world) :
    ∃ after,
      world.alloc = (true, after) ∧ Generous after ∧
        after.output = world.output := by
  obtain ⟨after, allocated, still, output⟩ := generous.allocEach 1
  rw [allocEach_one] at allocated
  exact ⟨after, allocated, still, output⟩

/-- What a vectored write reports is what it was given. -/
theorem nwritten
    {iov : List Bytes} {nwritten : Int} {after : World}
    (generous : Generous world)
    (written : tcpSocketWritev world iov = .ok (nwritten, after)) :
    nwritten = iov.flatten.length := by
  obtain ⟨-, -, written⟩ := of_bind written
  have whole := generous.obliging.accepts (iov.map List.length)
  have notEmpty := notEmpty_of_writtenFrom _ whole written
  rw [tcpSocketWritevFrom_of_takesWhole _ notEmpty _ _ whole] at written
  cases written
  exact Int.zero_add _

section Parts

variable {response headed : Response} {later : World} {iov : List Bytes}
variable {nwritten : Int}

/-- The first part of a body is written behind the head. -/
theorem firstPart
    (generous : Generous world) (fresh : response.headersFlushed = false)
    (writes :
      responseWritev response world iov = .ok (nwritten, headed, later)) :
    nwritten = iov.flatten.length ∧ Generous later ∧
      headed.headersFlushed = true ∧
      later.output =
        world.output ++ (head (completed response) ++ iov.flatten) := by
  obtain ⟨served, flushes, body⟩ := responseWritev_inv writes
  obtain ⟨rfl, between, headOutput⟩ := generous.flushHeaders fresh flushes
  obtain ⟨still, output⟩ := between.writev body
  refine ⟨between.nwritten body, still, rfl, ?_⟩
  rw [output, headOutput, List.append_assoc]

/-- Any other part is written behind what is there. -/
theorem nextPart
    (generous : Generous world) (flushed : response.headersFlushed = true)
    (writes :
      responseWritev response world iov = .ok (nwritten, headed, later)) :
    nwritten = iov.flatten.length ∧ Generous later ∧
      headed.headersFlushed = true ∧
      later.output = world.output ++ iov.flatten := by
  obtain ⟨served, flushes, body⟩ := responseWritev_inv writes
  rw [flushHeaders_of_flushed flushed] at flushes
  cases flushes
  obtain ⟨still, output⟩ := generous.writev body
  exact ⟨generous.nwritten body, still, flushed, output⟩

end Parts

end Generous

end Http

namespace Middleware

open Http Loops

variable {σ : Type}

/-! ## What is answered -/

/-- What a client gets for a request: a status and a body. -/
def answerTo (fs : FileServer) (disk : Disk) (request : Request σ) :
    Nat × Bytes :=
  if request.method = methodGet then
    let fullpath := cString (fullpath fs request)
    match disk.stat fullpath with
    | .missing => (notFound, [])
    | .failed => (internalServerError, [])
    | .directory =>
        if !fs.autoindex then (notFound, [])
        else
          match disk.opendir fullpath with
          | none => (internalServerError, [])
          | some readings =>
              if .failed ∈ readings then (internalServerError, [])
              else
                (statusOk,
                  page request.path ((listed readings).map Dirent.name))
    | .other _ =>
        match disk.fopen fullpath with
        | none => (internalServerError, [])
        | some file => (statusOk, file)
  else (methodNotAllowed, [])

/-- Files do not change between `stat` and `fopen`. -/
def Disk.Steady (disk : Disk) : Prop :=
  ∀ path stSize file,
    disk.stat path = .other stSize → disk.fopen path = some file →
      stSize = file.length

/--
What the handler leaves: a status and nothing on the socket, or a head that
announces a body, and the body.
-/
inductive Left (start : Bytes) (response : Response) (world : World) :
    Nat × Bytes → Prop where
  | status {status : Nat}
      (fresh : response.headersFlushed = false)
      (bare : response.headers = .leaf)
      (isStatus : response.status = status)
      (silent : world.output = start) :
      Left start response world (status, [])
  | body {announcing : Response} {body : Bytes}
      (flushed : response.headersFlushed = true)
      (bare : announcing.headers = .leaf)
      (isOk : announcing.status = statusOk)
      (announced : announcing.contentLength = body.length)
      (output :
        world.output = start ++ (head (completed announcing) ++ body)) :
      Left start response world (statusOk, body)

/-- A response to which nothing has been added yet. -/
structure Bare (response : Response) : Prop where
  fresh : response.headersFlushed = false
  headers : response.headers = .leaf
  status : response.status = statusOk

/-- So is one that announces a body. -/
theorem Bare.announcing
    {response : Response} (bare : Bare response) (contentLength : Nat) :
    Bare { response with contentLength } :=
  ⟨bare.fresh, bare.headers, bare.status⟩

section Answering

variable {handling done : Handling}

/-- There is memory for whatever the handler wants. -/
theorem alloc_of_generous
    (generous : Generous handling.world) :
    ∃ later,
      handling.alloc = (true, later) ∧ Generous later.world ∧
        later.response = handling.response ∧
        later.world.output = handling.world.output := by
  obtain ⟨after, allocated, still, output⟩ := generous.alloc
  refine ⟨{ handling with world := after }, ?_, still, rfl, output⟩
  rw [Handling.alloc, allocated]

/-- A directory is read up to its end, if reading it does not fail. -/
theorem readEntries_of_generous
    {readings : List Readdir} {filelist : List Dirent}
    {result : Option (List Dirent)}
    (generous : Generous handling.world)
    (reads : readEntries readings filelist handling = (result, done)) :
    result =
        (if .failed ∈ readings then none
        else some (filelist ++ listed readings)) ∧
      Generous done.world ∧ done.response = handling.response ∧
      done.world.output = handling.world.output := by
  induction readings generalizing filelist handling with
  | nil =>
      cases reads
      refine ⟨?_, generous, rfl, rfl⟩
      rw [if_neg List.not_mem_nil, listed, List.append_nil]
  | cons reading readings inductionHypothesis =>
      cases reading with
      | failed =>
          cases reads
          exact ⟨(if_pos List.mem_cons_self).symm, generous, rfl, rfl⟩
      | entry res =>
          have used :
              Generous (handling.record (.used .directory)).world :=
            generous
          have sameFailure :
              Readdir.failed ∈ Readdir.entry res :: readings ↔
                Readdir.failed ∈ readings := by
            apply List.mem_cons.trans (or_iff_right _)
            intro same
            cases same
          rw [if_congr sameFailure rfl rfl]
          rw [readEntries] at reads
          split at reads
          · next ignored =>
              rw [listed, if_pos ignored]
              obtain ⟨same, last, response, output⟩ :=
                inductionHypothesis used reads
              exact ⟨same, last, response, output⟩
          · next kept =>
              obtain ⟨later, allocation, still, response, output⟩ :=
                alloc_of_generous used
              rw [allocation] at reads
              obtain ⟨same, last, sameResponse, sameOutput⟩ :=
                inductionHypothesis still reads
              rw [listed, if_neg kept]
              refine ⟨?_, last, sameResponse.trans response,
                sameOutput.trans output⟩
              rw [same, List.append_assoc]
              rfl

/-- A directory is answered with its listing, or with an error. -/
theorem left_of_serveDirectory
    {path : Bytes} {readings : List Readdir} {err : HandlerErr}
    (generous : Generous handling.world) (bare : Bare handling.response)
    (serves : serveDirectory path readings handling = .ok (err, done)) :
    err = .ok ∧ Generous done.world ∧
      Left handling.world.output done.response done.world
        (if .failed ∈ readings then (internalServerError, [])
        else (statusOk, page path ((listed readings).map Dirent.name))) := by
  have opened : Generous (handling.record (.obtained .directory)).world :=
    generous
  obtain ⟨later, allocation, still, response, output⟩ :=
    alloc_of_generous opened
  rw [serveDirectory] at serves
  dsimp only at serves
  rw [allocation] at serves
  dsimp only at serves
  rcases reads : readEntries readings [] later with ⟨filelist, read⟩
  obtain ⟨same, generousRead, responseRead, outputRead⟩ :=
    readEntries_of_generous still reads
  rw [reads] at serves
  have bareRead : Bare read.response :=
    (responseRead.trans response) ▸ bare
  have silent : read.world.output = handling.world.output :=
    outputRead.trans output
  by_cases fails : Readdir.failed ∈ readings
  · rw [if_pos fails] at same ⊢
    rw [same] at serves
    cases serves
    exact ⟨rfl, generousRead,
      .status bareRead.fresh bareRead.headers rfl silent⟩
  · rw [if_neg fails] at same ⊢
    rw [same] at serves
    dsimp only at serves
    obtain ⟨⟨made, world⟩, lists, serves⟩ := of_bind serves
    have some : path ≠ [] := by
      intro empty
      rw [empty, makeListing_of_nil] at lists
      cases lists
    obtain ⟨after, allocated, generousAfter, outputAfter⟩ :=
      generousRead.alloc
    obtain ⟨listing, makes, holds⟩ :=
      makeListing_eq (listed readings) some allocated
    rw [List.nil_append, Handling.record_world, makes] at lists
    cases lists
    obtain ⟨⟨nwritten, headed, sent⟩, writes, serves⟩ := of_bind serves
    cases serves
    have announcing :=
      bareRead.announcing listing.contentLength
    obtain ⟨-, last, flushed, outputSent⟩ :=
      generousAfter.firstPart announcing.fresh writes
    rw [outputAfter, silent, holds.written] at outputSent
    exact ⟨rfl, last,
      .body flushed announcing.headers announcing.status holds.announced
        outputSent⟩

end Answering

/-! ## Files -/

/-- How far a file has been sent. -/
structure Underway (start : Bytes) (announcing : Response) (file : Bytes)
    (sending : Sending) : Prop where
  generous : Generous sending.handling.world
  remains : sending.position + sending.towrite = file.length
  sent :
    (sending.position = 0 ∧ sending.handling.response = announcing ∧
        sending.handling.world.output = start) ∨
      (sending.handling.response.headersFlushed = true ∧
        sending.handling.world.output =
          start ++
            (head (completed announcing) ++ file.take sending.position))

/-- A file is on its way after a round, or all of it is there. -/
def LeftAfter (start : Bytes) (announcing : Response) (file : Bytes) :
    Outcome Sending (HandlerErr × Handling) → Prop
  | .stop result =>
      result.1 = .ok ∧ Generous result.2.world ∧
        Left start result.2.response result.2.world (statusOk, file)
  | .next sending => Underway start announcing file sending

section Files

variable {start file : Bytes} {announcing : Response} {sending : Sending}

/-- What `fread` returns is all that it was asked for. -/
theorem length_fread_of_le
    {position toread : Nat} (within : position + toread ≤ file.length) :
    (fread file position toread).length = toread := by
  rw [fread, List.length_take, List.length_drop]
  exact Nat.min_eq_left (Nat.le_sub_of_add_le' within)

/-- And it goes on where the file was left. -/
theorem take_append_fread (position toread : Nat) :
    file.take position ++ fread file position toread =
      file.take (position + toread) := by
  rw [fread, List.take_add]

/-- Where nothing is left to be written the file is there. -/
theorem Underway.whole
    (underway : Underway start announcing file sending)
    (bare : Bare announcing)
    (announced : announcing.contentLength = file.length)
    (nothing : sending.towrite = 0) :
    Left start sending.handling.response sending.handling.world
      (statusOk, file) := by
  have atEnd : sending.position = file.length := by
    have remains := underway.remains
    rwa [nothing, Nat.add_zero] at remains
  rcases underway.sent with ⟨atStart, same, silent⟩ | ⟨flushed, output⟩
  · have empty : file = [] :=
      List.eq_nil_of_length_eq_zero (atEnd.symm.trans atStart)
    rw [empty, same]
    exact .status bare.fresh bare.headers bare.status silent
  · rw [atEnd, List.take_length] at output
    exact .body flushed bare.headers bare.status announced output

/-- A part of the file is written, the first one behind the head. -/
theorem Underway.write
    {toread : Nat} {nwritten : Int} {headed : Response} {later : World}
    (underway : Underway start announcing file sending)
    (bare : Bare announcing)
    (within : toread ≤ sending.towrite)
    (writes :
      responseWrite sending.handling.response sending.handling.world
          (fread file sending.position toread) =
        .ok (nwritten, headed, later)) :
    nwritten = toread ∧ Generous later ∧ headed.headersFlushed = true ∧
      later.output =
        start ++
          (head (completed announcing) ++
            file.take (sending.position + toread)) := by
  obtain ⟨-, -, writes⟩ := of_bind writes
  have size :
      (fread file sending.position toread).length = toread :=
    length_fread_of_le
      (underway.remains ▸ Nat.add_le_add_left within sending.position)
  have single :
      [fread file sending.position toread].flatten =
        fread file sending.position toread :=
    List.flatten_singleton
  rcases underway.sent with ⟨atStart, same, silent⟩ | ⟨flushed, output⟩
  · rw [same] at writes
    obtain ⟨count, still, headFlushed, received⟩ :=
      underway.generous.firstPart bare.fresh writes
    rw [single] at count received
    refine ⟨by rw [count, size], still, headFlushed, ?_⟩
    rw [received, silent, ← take_append_fread, atStart, List.take_zero,
      List.nil_append]
  · obtain ⟨count, still, headFlushed, received⟩ :=
      underway.generous.nextPart flushed writes
    rw [single] at count received
    refine ⟨by rw [count, size], still, headFlushed, ?_⟩
    rw [received, output, ← take_append_fread]
    simp only [List.append_assoc]

/-- A round sends the next part of the file. -/
theorem leftAfter_sendRound
    {ioBufSize : Nat}
    {outcome : Outcome Sending (HandlerErr × Handling)}
    (underway : Underway start announcing file sending)
    (bare : Bare announcing)
    (announced : announcing.contentLength = file.length)
    (sends : sendRound ioBufSize file sending = .ok outcome) :
    LeftAfter start announcing file outcome := by
  rw [sendRound] at sends
  split at sends
  · next nothing =>
      cases sends
      exact ⟨rfl, underway.generous, underway.whole bare announced nothing⟩
  · have within : min ioBufSize sending.towrite ≤ sending.towrite :=
      Nat.min_le_right _ _
    have size :
        (fread file sending.position (min ioBufSize sending.towrite)).length =
          min ioBufSize sending.towrite :=
      length_fread_of_le
        (underway.remains ▸ Nat.add_le_add_left within sending.position)
    dsimp only at sends
    rw [if_neg (Nat.not_lt.mpr (Nat.le_of_eq size.symm))] at sends
    obtain ⟨⟨nwritten, headed, later⟩, writes, sends⟩ := of_bind sends
    obtain ⟨rfl, still, flushed, output⟩ :=
      underway.write bare within writes
    dsimp only at sends
    rw [if_neg (Int.not_lt.mpr (Int.natCast_nonneg _))] at sends
    obtain ⟨-, -, sends⟩ := of_bind sends
    cases sends
    refine ⟨still, ?_, Or.inr ⟨flushed, ?_⟩⟩
    · dsimp only
      rw [size, Int.toNat_natCast, Nat.add_assoc, Nat.add_sub_cancel' within]
      exact underway.remains
    · dsimp only
      rw [size]
      exact output

/-- A file is answered with what is in it, or with an error. -/
theorem left_of_serveFile
    {ioBufSize fuel stSize : Nat} {opened : Option Bytes}
    {handling done : Handling} {err : HandlerErr}
    (generous : Generous handling.world) (bare : Bare handling.response)
    (steady : ∀ file ∈ opened, stSize = file.length)
    (serves :
      serveFile ioBufSize fuel stSize opened handling = .ok (err, done)) :
    err = .ok ∧ Generous done.world ∧
      Left handling.world.output done.response done.world
        (opened.elim (internalServerError, []) fun file =>
          (statusOk, file)) := by
  have announcing := bare.announcing stSize
  cases opened with
  | none =>
      cases serves
      exact ⟨rfl, generous,
        .status announcing.fresh announcing.headers rfl rfl⟩
  | some file =>
      have sameSize := steady file rfl
      have obtained :
          Generous
            (Handling.record
              { handling with
                response :=
                  { handling.response with contentLength := stSize } }
              (.obtained .file)).world :=
        generous
      obtain ⟨later, allocation, still, response, output⟩ :=
        alloc_of_generous obtained
      rw [serveFile] at serves
      dsimp only at serves
      rw [allocation] at serves
      obtain ⟨last, comes, stops⟩ := stop_of_iterate serves
      have starts :
          Underway handling.world.output
            { handling.response with contentLength := stSize } file
            { handling := later.record (.obtained .buffer)
              position := 0
              towrite := stSize } :=
        { generous := still
          remains := by
            dsimp only
            rw [Nat.zero_add]
            exact sameSize
          sent := Or.inl ⟨rfl, response, output⟩ }
      have before :
          LeftAfter handling.world.output
            { handling.response with contentLength := stSize } file
            (.next last) := by
        apply Loops.invariant comes starts
        intro state next underway goes
        exact leftAfter_sendRound underway announcing sameSize goes
      exact leftAfter_sendRound before announcing sameSize stops

end Files

/-- With memory for everything the handler leaves the answer. -/
theorem left_of_handle
    {fs : FileServer} {ioBufSize fuel : Nat} {disk : Disk}
    {request : Request σ} {handling done : Handling}
    {calls : List FileCall} {err : HandlerErr}
    (steady : disk.Steady)
    (generous : Generous handling.world) (bare : Bare handling.response)
    (handles :
      handle fs ioBufSize fuel disk request handling =
        .ok (calls, err, done)) :
    err = .ok ∧ Generous done.world ∧
      Left handling.world.output done.response done.world
        (answerTo fs disk request) := by
  rw [handle] at handles
  rw [answerTo]
  split at handles
  · next isGet =>
      rw [if_pos isGet]
      obtain ⟨later, allocation, still, response, output⟩ :=
        alloc_of_generous generous
      rw [allocation] at handles
      have bareLater : Bare later.response := response ▸ bare
      rw [← output]
      dsimp only at handles ⊢
      cases found : disk.stat (cString (fullpath fs request)) with
      | missing | failed =>
          rw [found] at handles
          cases handles
          exact ⟨rfl, still,
            .status bareLater.fresh bareLater.headers rfl rfl⟩
      | directory =>
          rw [found] at handles
          dsimp only at handles ⊢
          split at handles
          · next noIndex =>
              rw [if_pos noIndex]
              cases handles
              exact ⟨rfl, still,
                .status bareLater.fresh bareLater.headers rfl rfl⟩
          · next index =>
              rw [if_neg index]
              cases opened :
                  disk.opendir (cString (fullpath fs request)) with
              | none =>
                  rw [opened] at handles
                  cases handles
                  exact ⟨rfl, still,
                    .status bareLater.fresh bareLater.headers rfl rfl⟩
              | some readings =>
                  rw [opened] at handles
                  obtain ⟨result, serves, handles⟩ := of_bind handles
                  cases handles
                  exact left_of_serveDirectory still bareLater serves
      | other stSize =>
          rw [found] at handles
          dsimp only at handles ⊢
          obtain ⟨result, serves, handles⟩ := of_bind handles
          cases handles
          have answered :=
            left_of_serveFile still bareLater
              (fun file opened => steady _ stSize file found opened) serves
          cases opened : disk.fopen (cString (fullpath fs request)) with
          | none | some file =>
              rw [opened] at answered
              exact answered
  · next notGet =>
      rw [if_neg notGet]
      cases handles
      exact ⟨rfl, generous, .status bare.fresh bare.headers rfl rfl⟩

/-! ## The connection -/

/-- The number of the error. -/
def HandlerErr.code : HandlerErr → Int
  | .ok => 0
  | .sys => 6

/--
Let the file server answer; the headers of the head that it puts on the socket
are not kept.
-/
def respondWithFile (config : Config) (fs : FileServer) (ioBufSize fuel : Nat)
    (disk : Disk) (nrequests : Nat) (request : Request σ) (world : World) :
    Except Fault (Bool × Exchange σ) := do
  let exchange := Exchange.begin request world
  let (_, err, handling) ←
    handle fs ioBufSize fuel disk request ⟨exchange.response, world, []⟩
  let exchange :=
    { exchange with response := handling.response, world := handling.world }
  let exchange := exchange.correct err.code
  let keepalive :=
    keepsAlive config nrequests (requestedKeepalive request) exchange.response
  let exchange ← exchange.conclude keepalive
  pure (keepalive, exchange)

/-- One round of the loop of `dfk__http_protocol`, with the file server. -/
def serveFileRequest (http : HttpParser σ) (config : Config)
    (memory : Nat → Nat → UInt8) (fs : FileServer) (ioBufSize fuel : Nat)
    (disk : Disk) (connected : Connected) : Except Fault Connected := do
  let (err, request, world) ←
    readHeaders http config memory fuel connected.world
  if err ≠ .ok then
    pure { connected with keepalive := false, world := world }
  else do
    let (keepalive, exchange) ←
      respondWithFile config fs ioBufSize fuel disk connected.nrequests
        request world
    exchange.finish http fuel connected.nrequests keepalive

/-- The length that the headers of a head announce. -/
def announced (headers : List Header) : Option Nat := do
  let header ← headers.find? (·.name = contentLengthName)
  parseDecimal header.value

/-- What a client reads that takes bodies as long as they are announced. -/
def receiveAnswers : Nat → Bytes → Option (List (Nat × Bytes) × Bytes)
  | 0, bytes => some ([], bytes)
  | count + 1, bytes => do
      let (heading, rest) ← parseHead bytes
      let length ← announced heading.headers
      if rest.length < length then none
      else
        let (answers, rest') ← receiveAnswers count (rest.drop length)
        some ((heading.status, rest.take length) :: answers, rest')

section Connections

variable {http : HttpParser σ} {config : Config}
variable {memory : Nat → Nat → UInt8} {fs : FileServer}
variable {ioBufSize fuel : Nat} {disk : Disk}

/-- A head that a client can read, and that announces its body. -/
structure Heading (heading : Response) (answer : Nat × Bytes) : Prop where
  readable : Readable heading
  status : heading.status = answer.1
  announced : announced heading.headers.list = some answer.2.length

/-- A head that the handler has caused to be written announces the body. -/
theorem heading_completed
    {announcing : Response} {body : Bytes}
    (bare : announcing.headers = .leaf)
    (isOk : announcing.status = statusOk)
    (length : announcing.contentLength = body.length)
    (short : body.length < noLength) :
    Heading (completed announcing) (statusOk, body) := by
  have readable : Readable announcing :=
    { status := isOk ▸ statuses.1
      headers := by
        rw [bare]
        exact nofun }
  have adds :
      announcing.contentLength ≠ noLength ∧
        announcing.headers.get contentLengthName = none := by
    refine ⟨?_, ?_⟩
    · rw [length]
      exact Nat.ne_of_lt short
    · rw [bare]
      rfl
  refine ⟨readable.completed, ?_, ?_⟩
  · rw [completed, if_pos adds]
    exact isOk
  · rw [completed, if_pos adds, bare, length]
    exact parseDecimal_decimal body.length

/-- The headers of a response to which nothing else has been added. -/
def concluding (keepalive : Bool) : Headers :=
  (Headers.insert .leaf
      { name := connectionName, value := connectionValue keepalive }).insert
    { name := contentLengthName, value := ascii "0" }

/-- They announce that there is no body. -/
theorem heading_concluding
    {response : Response} {status : Nat} {keepalive : Bool}
    (isStatus : response.status = status)
    (threeDigits : 100 ≤ status ∧ status ≤ 999) :
    Heading (completed { response with headers := concluding keepalive })
      (status, []) := by
  have length :
      (concluding keepalive).get contentLengthName = some (ascii "0") := by
    cases keepalive with
    | true | false => decide
  have isCompleted :
      completed { response with headers := concluding keepalive } =
        { response with headers := concluding keepalive } := by
    apply if_neg
    intro adds
    rw [length] at adds
    exact absurd adds.2 nofun
  have readable :
      Readable { response with headers := concluding keepalive } := by
    have clean := clean_connection keepalive
    have empty : Readable { response with headers := .leaf } :=
      { status := isStatus ▸ threeDigits
        headers := nofun }
    exact (empty.insert clean.1).insert clean.2
  have nothing : announced (concluding keepalive).list = some 0 := by
    cases keepalive with
    | true | false => decide +kernel
  rw [isCompleted]
  exact ⟨readable, isStatus, nothing⟩

/-- Once the head is concluded the answer is on the socket. -/
theorem concluded_of_left
    {exchange after : Exchange σ} {keepalive : Bool} {start : Bytes}
    {answer : Nat × Bytes}
    (generous : Generous exchange.world)
    (left : Left start exchange.response exchange.world answer)
    (threeDigits : 100 ≤ answer.1 ∧ answer.1 ≤ 999)
    (short : answer.2.length < noLength)
    (concludes : exchange.conclude keepalive = .ok after) :
    Generous after.world ∧
      ∃ heading,
        Heading heading answer ∧
          after.world.output = start ++ (head heading ++ answer.2) := by
  obtain ⟨⟨first, named⟩, setsName, concludes⟩ := of_bind concludes
  obtain ⟨⟨second, sized⟩, setsLength, concludes⟩ := of_bind concludes
  obtain ⟨sent, -, concludes⟩ := of_bind concludes
  obtain ⟨⟨response, world⟩, flushes, concludes⟩ := of_bind concludes
  cases concludes
  obtain ⟨generousNamed, outputNamed, isNamed⟩ :=
    generous.setHeader setsName
  obtain ⟨generousSized, outputSized, isSized⟩ :=
    generousNamed.setHeader setsLength
  have unwritten : sized.world.output = exchange.world.output :=
    outputSized.trans outputNamed
  cases left with
  | status fresh bare isStatus silent =>
      have headers :
          sized.response =
            { exchange.response with headers := concluding keepalive } := by
        rw [isSized, isNamed, bare, concluding]
      have freshSized : sized.response.headersFlushed = false := by
        rw [headers]
        exact fresh
      obtain ⟨-, still, output⟩ :=
        generousSized.flushHeaders freshSized flushes
      refine
        ⟨still, _, headers ▸ heading_concluding isStatus threeDigits, ?_⟩
      dsimp only
      rw [output, unwritten, silent, List.append_nil]
  | body flushed bare isOk announces output =>
      have flushedSized : sized.response.headersFlushed = true := by
        rw [isSized, isNamed]
        exact flushed
      rw [flushHeaders_of_flushed flushedSized] at flushes
      cases flushes
      exact ⟨generousSized, _,
        heading_completed bare isOk announces short,
        unwritten.trans output⟩

/-- Putting the version right does not change what is left. -/
theorem Left.correct
    {exchange : Exchange σ} {start : Bytes} {answer : Nat × Bytes}
    (left : Left start exchange.response exchange.world answer) :
    Left start (exchange.correct 0).response (exchange.correct 0).world
      answer := by
  have same :
      (exchange.correct 0).response.headersFlushed =
          exchange.response.headersFlushed ∧
        (exchange.correct 0).response.headers = exchange.response.headers ∧
        (exchange.correct 0).response.status =
          exchange.response.status := by
    rw [Exchange.correct, if_neg (not_not_intro rfl), fixVersion]
    split
    · exact ⟨rfl, rfl, rfl⟩
    · split
      · exact ⟨rfl, rfl, rfl⟩
      · exact ⟨rfl, rfl, rfl⟩
  obtain ⟨sameFlushed, sameHeaders, sameStatus⟩ := same
  cases left with
  | status fresh bare isStatus silent =>
      exact .status (sameFlushed.trans fresh) (sameHeaders.trans bare)
        (sameStatus.trans isStatus) silent
  | body flushed bare isOk announces output =>
      exact .body (sameFlushed.trans flushed) bare isOk announces output

/-- The status of an answer has three digits. -/
theorem answerTo_status (request : Request σ) :
    100 ≤ (answerTo fs disk request).1 ∧
      (answerTo fs disk request).1 ≤ 999 := by
  have ofOther :
      (100 ≤ notFound ∧ notFound ≤ 999) ∧
        100 ≤ methodNotAllowed ∧ methodNotAllowed ≤ 999 := by
    decide
  rw [answerTo]
  split
  · dsimp only
    split
    · exact ofOther.1
    · exact statuses.2
    · split
      · exact ofOther.1
      · split
        · exact statuses.2
        · split
          · exact statuses.2
          · exact statuses.1
    · split
      · exact statuses.2
      · exact statuses.1
  · exact ofOther.2

/-- A request that is accepted is answered. -/
theorem respondWithFile_received
    {nrequests : Nat} {request : Request σ} {world : World}
    {keepalive : Bool} {after : Exchange σ}
    (steady : disk.Steady)
    (short : (answerTo fs disk request).2.length < noLength)
    (generous : Generous world)
    (responds :
      respondWithFile config fs ioBufSize fuel disk nrequests request world =
        .ok (keepalive, after)) :
    Generous after.world ∧
      ∃ heading,
        Heading heading (answerTo fs disk request) ∧
          after.world.output =
            world.output ++
              (head heading ++ (answerTo fs disk request).2) := by
  obtain ⟨⟨calls, err, done⟩, handles, responds⟩ := of_bind responds
  obtain ⟨concluded, concludes, responds⟩ := of_bind responds
  cases responds
  have begins : Bare (Exchange.begin request world).response :=
    ⟨rfl, rfl, rfl⟩
  obtain ⟨rfl, still, left⟩ :=
    left_of_handle steady generous begins handles
  have corrected :=
    @Left.correct _
      { Exchange.begin request world with
        response := done.response
        world := done.world } _ _ left
  exact concluded_of_left still corrected (answerTo_status request) short
    concludes

/-- The request of a round, if it is accepted. -/
def accepted (http : HttpParser σ) (config : Config)
    (memory : Nat → Nat → UInt8) (fuel : Nat) (connected : Connected) :
    Option (Request σ) :=
  match readHeaders http config memory fuel connected.world with
  | .ok (.ok, request, _) => some request
  | _ => none

/-- Rounds of a connection, with the requests that are accepted. -/
inductive Served (http : HttpParser σ) (config : Config)
    (memory : Nat → Nat → UInt8) (fs : FileServer) (ioBufSize fuel : Nat)
    (disk : Disk) (start : Connected) :
    List (Request σ) → Connected → Prop where
  | start : Served http config memory fs ioBufSize fuel disk start [] start
  | round {requests : List (Request σ)} {connected next : Connected}
      (earlier :
        Served http config memory fs ioBufSize fuel disk start requests
          connected)
      (kept : connected.keepalive = true)
      (serves :
        serveFileRequest http config memory fs ioBufSize fuel disk
            connected =
          .ok next) :
      Served http config memory fs ioBufSize fuel disk start
        (requests ++ (accepted http config memory fuel connected).toList)
        next

/-- A round puts one answer on the socket, or nothing. -/
theorem serveFileRequest_received
    {connected next : Connected}
    (steady : disk.Steady)
    (short :
      ∀ request ∈ accepted http config memory fuel connected,
        (answerTo fs disk request).2.length < noLength)
    (generous : Generous connected.world)
    (serves :
      serveFileRequest http config memory fs ioBufSize fuel disk connected =
        .ok next) :
    Generous next.world ∧
      ((accepted http config memory fuel connected = none ∧
          next.world.output = connected.world.output) ∨
        ∃ request heading,
          accepted http config memory fuel connected = some request ∧
            Heading heading (answerTo fs disk request) ∧
            next.world.output =
              connected.world.output ++
                (head heading ++ (answerTo fs disk request).2)) := by
  obtain ⟨⟨err, request, world⟩, read, serves⟩ := of_bind serves
  obtain ⟨still, output⟩ := readHeaders_received generous read
  dsimp only at serves
  split at serves
  · next refused =>
      cases serves
      refine ⟨still, Or.inl ⟨?_, output⟩⟩
      rw [accepted, read]
      cases err with
      | ok => exact absurd rfl refused
      | eof | nomem | overflow | protocol => rfl
  · next isAccepted =>
      have noError : err = .ok := Decidable.not_not.mp isAccepted
      subst noError
      have isRequest :
          accepted http config memory fuel connected = some request := by
        rw [accepted, read]
      obtain ⟨⟨keepalive, exchange⟩, responds, serves⟩ := of_bind serves
      obtain ⟨generousAnswer, heading, isHeading, received⟩ :=
        respondWithFile_received steady (short request isRequest) still
          responds
      obtain ⟨⟨skipped, last, later⟩, skips, serves⟩ := of_bind serves
      obtain ⟨generousLater, outputLater⟩ :=
        skipBody_received generousAnswer skips
      rw [output] at received
      cases skipped with
      | true | false =>
          cases serves
          exact ⟨generousLater,
            Or.inr ⟨request, heading, isRequest, isHeading,
              outputLater.trans received⟩⟩

/-- A client reads all answers, and nothing is left. -/
theorem receiveAnswers_onTheWire
    (answers : List (Response × (Nat × Bytes)))
    (headings : ∀ answer ∈ answers, Heading answer.1 answer.2) :
    receiveAnswers answers.length
        (onTheWire (answers.map fun answer => (answer.1, answer.2.2))) =
      some (answers.map Prod.snd, []) := by
  induction answers with
  | nil =>
      rfl
  | cons answer answers inductionHypothesis =>
      obtain ⟨heading, status, body⟩ := answer
      have first : Heading heading (status, body) :=
        headings (heading, status, body) List.mem_cons_self
      have later :=
        inductionHypothesis fun other member =>
          headings other (List.mem_cons_of_mem _ member)
      have parsed :=
        parseHead_head first.readable.status first.readable.headers
          (body ++
            onTheWire (answers.map fun answer => (answer.1, answer.2.2)))
      have wire :
          onTheWire
              (((heading, status, body) :: answers).map fun answer =>
                (answer.1, answer.2.2)) =
            head heading ++
              (body ++
                onTheWire
                  (answers.map fun answer => (answer.1, answer.2.2))) := by
        rw [onTheWire, List.map_cons, List.flatMap_cons, List.append_assoc]
        rfl
      have enough :
          ¬ (body ++
              onTheWire
                (answers.map fun answer =>
                  (answer.1, answer.2.2))).length < body.length := by
        rw [List.length_append]
        exact Nat.not_lt.mpr (Nat.le_add_right _ _)
      rw [wire, List.length_cons, receiveAnswers, parsed]
      dsimp only [Option.bind_eq_bind, Option.bind_some]
      rw [first.announced]
      dsimp only [Option.bind_some]
      rw [if_neg enough, List.drop_left, List.take_left, later, first.status]
      rfl

end Connections

/-- A directory with one file. -/
def shared : Disk where
  stat path := if path = ascii "/srv/" then .directory else .missing
  opendir path :=
    if path = ascii "/srv/" then
      some [.entry { dType := dtReg, dName := ascii "a" }]
    else none
  fopen _ := none

/-- Its listing, behind a head. -/
def listing : Bytes :=
  ascii "HTTP/1.1 200 OK\r\nContent-Length: 208\r\n\r\n" ++
    page (ascii "/") [ascii "a"]

/-- The connection when it has been listed once. -/
def onceListed : Connected where
  nrequests := 1
  keepalive := true
  world := { sending posted.bytes [.move 39] with output := listing }

/-- The connection when it has been listed twice. -/
def twiceListed : Connected where
  nrequests := 2
  keepalive := false
  world := { sending [] [] with output := listing ++ listing }

end Middleware

end Dfk
