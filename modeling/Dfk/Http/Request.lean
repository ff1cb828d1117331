import Dfk.Socket
import Dfk.Http.Response
import Dfk.Http.Parser
import Dfk.Http.UrlEncoding

/-!
# Request heads

`dfk__http_request_read_headers`: bytes are read into buffers and handed to
the parser, whose callbacks collect the URL and the headers as pointers into
the buffers, until the parser is paused at the end of the head.
-/

namespace Dfk.Http

/-- A place in one of the buffers of a request. -/
structure Pointer where
  buffer : Nat
  offset : Nat
  deriving Repr, DecidableEq

/-- `dfk_buf_t` or `dfk_cbuf_t`, pointing into a buffer of a request. -/
structure Text where
  data : Option Pointer
  size : Nat
  deriving Repr, DecidableEq

/-- `{NULL, 0}` -/
def Text.null : Text := { data := none, size := 0 }

/-- `dfk_buf_append` -/
def Text.append (text : Text) (data : Pointer) (size : Nat) :
    Except Fault Text :=
  match text.data with
  | some start => do
      check
        (start.buffer = data.buffer ∧
          start.offset + text.size = data.offset)
      pure { text with size := text.size + size }
  | none => pure { data := some data, size := size }

/-- The bytes from a place of a buffer on. -/
def load (buffers : List Bytes) (data : Pointer) (size : Nat) :
    Except Fault Bytes :=
  let bytes := ((buffers.getD data.buffer []).drop data.offset).take size
  if bytes.length = size then .ok bytes else .error .outOfBounds

/-- The bytes of a text. -/
def Text.bytes (buffers : List Bytes) (text : Text) : Except Fault Bytes :=
  match text.data with
  | some data => load buffers data text.size
  | none => if text.size = 0 then .ok [] else .error .nullPointer

/-- Put bytes at a place of a buffer. -/
def store (buffers : List Bytes) (data : Pointer) (bytes : Bytes) :
    Except Fault (List Bytes) :=
  let buffer := buffers.getD data.buffer []
  if data.offset + bytes.length ≤ buffer.length then
    .ok (buffers.set data.buffer
      (buffer.take data.offset ++ bytes ++
        buffer.drop (data.offset + bytes.length)))
  else .error .outOfBounds

/-- The part of `dfk_http_t` a connection uses. -/
structure Config where
  keepaliveRequests : Int
  /-- `DFK_HTTP_HEADER_MAX_SIZE` -/
  headerMaxSize : Nat
  headersBufferSize : Nat
  headersBufferCount : Nat
  deriving Repr, DecidableEq

/-- `dfk_http_request_t` -/
structure Request (σ : Type) where
  majorVersion : Nat
  minorVersion : Nat
  method : Nat
  url : Bytes
  path : Bytes
  query : Bytes
  fragment : Bytes
  host : Option Bytes
  userAgent : Option Bytes
  accept : Option Bytes
  contentType : Option Bytes
  contentLength : Int
  keepalive : Bool
  chunked : Bool
  headers : Headers
  arguments : Headers
  /-- The bytes `_remainder` points to. -/
  remainder : Bytes
  bodyNread : Nat
  parser : Parser σ
  deriving Repr, DecidableEq

/-- `dfk__http_request_init` -/
def Request.init {σ : Type} (http : HttpParser σ) : Request σ where
  majorVersion := 0
  minorVersion := 0
  method := 0
  url := []
  path := []
  query := []
  fragment := []
  host := none
  userAgent := none
  accept := none
  contentType := none
  contentLength := -1
  keepalive := false
  chunked := false
  headers := .leaf
  arguments := .leaf
  remainder := []
  bodyNread := 0
  parser := { state := http.init, httpErrno := .ok }

/-!
## Callbacks
-/

/--
`dfk_header_parser_data_t` with what the callbacks change through its request,
and the place and contents of the bytes being parsed.
-/
structure HeaderData where
  cheaderField : Text
  cheaderValue : Text
  dfkErrno : Err
  url : Text
  headers : Headers
  allocations : List Bool
  buffers : List Bytes
  base : Pointer
  deriving Repr, DecidableEq

namespace HeaderData

/-- The place of a span. -/
def place (data : HeaderData) (span : Span) : Pointer :=
  { data.base with offset := data.base.offset + span.offset }

/-- Record an error. -/
def failWith (data : HeaderData) (err : Err) : Verdict × HeaderData :=
  (.fail, { data with dfkErrno := err })

/-- Refuse a text that is too long. -/
def limit (config : Config) (text : Text) (data : HeaderData) :
    Verdict × HeaderData :=
  if config.headerMaxSize < text.size then data.failWith .overflow
  else (.proceed, data)

end HeaderData

/-- `dfk_http_request_on_url` -/
def onUrl (config : Config) (span : Span) (data : HeaderData) :
    Except Fault (Verdict × HeaderData) := do
  let url ← data.url.append (data.place span) span.size
  pure (HeaderData.limit config url { data with url := url })

/-- `dfk__http_request_flush_header` -/
def flushHeader (data : HeaderData) :
    Except Fault (Verdict × HeaderData) :=
  match World.next data.allocations with
  | (false, allocations) =>
      .ok ({ data with allocations := allocations }.failWith .nomem)
  | (true, allocations) => do
      let name ← data.cheaderField.bytes data.buffers
      let value ← data.cheaderValue.bytes data.buffers
      check (data.cheaderField.data.isSome ∧ name ≠ [])
      pure
        (.proceed,
          { data with
            allocations := allocations
            headers :=
              data.headers.insert { name := name, value := value } })

/-- `dfk_http_request_on_header_field` -/
def onHeaderField (config : Config) (span : Span) (data : HeaderData) :
    Except Fault (Verdict × HeaderData) := do
  if data.cheaderValue.data.isSome then
    match ← flushHeader data with
    | (.proceed, data) =>
        let field : Text := { data := some (data.place span), size := span.size }
        pure
          (HeaderData.limit config field
            { data with
              cheaderValue := { data.cheaderValue with data := none }
              cheaderField := field })
    | stopped => pure stopped
  else
    let field ← data.cheaderField.append (data.place span) span.size
    pure (HeaderData.limit config field { data with cheaderField := field })

/-- `dfk_http_request_on_header_value` -/
def onHeaderValue (config : Config) (span : Span) (data : HeaderData) :
    Except Fault (Verdict × HeaderData) := do
  let value ←
    match data.cheaderValue.data with
    | none => pure { data := some (data.place span), size := span.size }
    | some _ => data.cheaderValue.append (data.place span) span.size
  pure (HeaderData.limit config value { data with cheaderValue := value })

/-- `dfk_http_request_on_headers_complete` -/
def onHeadersComplete (data : HeaderData) :
    Except Fault (Verdict × HeaderData) := do
  if data.cheaderField.data.isSome then
    check data.cheaderValue.data.isSome
    -- the result of flushing the last header is ignored
    let (_, data) ← flushHeader data
    pure (.pause, data)
  else pure (.pause, data)

/-- The callbacks while a head is read; a body cannot begin there. -/
def onHead (config : Config) : Callback → HeaderData →
    Except Fault (Verdict × HeaderData)
  | .url span, data => onUrl config span data
  | .headerField span, data => onHeaderField config span data
  | .headerValue span, data => onHeaderValue config span data
  | .headersComplete, data => onHeadersComplete data
  | .messageComplete, data => .ok (.pause, data)
  | .body _, _ => .error .outOfBounds
  | _, data => .ok (.proceed, data)

/-!
## The loop
-/

/-- The buffer being filled: its place and what is left of it. -/
structure CurBuf where
  data : Pointer
  size : Nat
  deriving Repr, DecidableEq

/-- The state of the loop that reads a head. -/
structure Reading (σ : Type) where
  parser : Parser σ
  data : HeaderData
  curbuf : CurBuf
  world : World
  deriving Repr, DecidableEq

/-- The contents `dfk__malloc` leaves in a buffer. -/
def stale (config : Config) (memory : Nat → Nat → UInt8) (buffer : Nat) :
    Bytes :=
  (List.range config.headersBufferSize).map (memory buffer)

/-- `dfk__http_request_allocate_headers_buf` -/
def allocateHeadersBuf
    (config : Config) (memory : Nat → Nat → UInt8) (data : HeaderData) :
    Option CurBuf × HeaderData :=
  match World.next data.allocations with
  | (false, allocations) => (none, { data with allocations := allocations })
  | (true, allocations) =>
      match World.next allocations with
      | (false, allocations) =>
          (none, { data with allocations := allocations })
      | (true, allocations) =>
          (some
            { data := { buffer := data.buffers.length, offset := 0 }
              size := config.headersBufferSize },
            { data with
              allocations := allocations
              buffers :=
                data.buffers ++ [stale config memory data.buffers.length] })

/-- Copy the current header to another buffer, and point to it there. -/
def moveHeader (nparsed : Nat) (field target : Pointer) (data : HeaderData) :
    Except Fault HeaderData := do
  let copied ← load data.buffers field nparsed
  let buffers ← store data.buffers target copied
  let value :=
    data.cheaderValue.data.map fun value =>
      { target with offset := target.offset + (value.offset - field.offset) }
  pure
    { data with
      buffers := buffers
      cheaderField := { data.cheaderField with data := some target }
      cheaderValue := { data.cheaderValue with data := value } }

/--
Go on with a new buffer if too little of the old one is left for the current
header; an error code if that is not possible.
-/
def switchBuf
    (config : Config) (memory : Nat → Nat → UInt8) (nparsed : Nat)
    (data : HeaderData) (curbuf : CurBuf) :
    Except Fault (Except (Err × HeaderData) (HeaderData × CurBuf)) :=
  match data.cheaderField.data with
  | none => .ok (.ok (data, curbuf))
  | some field =>
      -- the difference of pointers into different buffers is undefined
      if field.buffer ≠ curbuf.data.buffer then .error .outOfBounds
      else if curbuf.data.offset + curbuf.size <
          field.offset + config.headerMaxSize then
        if data.buffers.length = config.headersBufferCount then
          .ok (.error (.overflow, data))
        else
          match allocateHeadersBuf config memory data with
          | (none, data) => .ok (.error (.nomem, data))
          | (some curbuf, data) => do
              let data ← moveHeader nparsed field curbuf.data data
              pure (.ok (data, curbuf))
      else .ok (.ok (data, curbuf))

/-- A call of `http_parser_execute`: what was read before, and what is given. -/
structure ParserCall where
  received : Bytes
  given : Bytes
  deriving Repr, DecidableEq

/-- How the loop ends: an error code, or all headers parsed. -/
inductive HeadRead (σ : Type) where
  | err (err : Err) (allocations : List Bool)
  | parsed (data : HeaderData) (parser : Parser σ) (remainder : Bytes)
  deriving Repr, DecidableEq

/-- What the loop does with the bytes the parser was given. -/
inductive Parsed (σ : Type) where
  | stop (result : HeadRead σ)
  | next (parser : Parser σ) (data : HeaderData) (curbuf : CurBuf)
  deriving Repr, DecidableEq

/-- The part of the loop behind `http_parser_execute`. -/
def afterExecute
    {σ : Type} (config : Config) (memory : Nat → Nat → UInt8)
    (curbuf : CurBuf) (received : Bytes)
    (nparsed : Nat) (parser : Parser σ) (data : HeaderData) :
    Except Fault (Parsed σ) := do
  check (nparsed ≤ received.length)
  match parser.httpErrno with
  | .paused =>
      pure
        (.stop
          (.parsed data (parser.pause false) (received.drop nparsed)))
  | .callback => pure (.stop (.err data.dfkErrno data.allocations))
  | .protocol => pure (.stop (.err .protocol data.allocations))
  | .ok => do
      match ← switchBuf config memory nparsed data curbuf with
      | .error (err, data) => pure (.stop (.err err data.allocations))
      | .ok (data, curbuf) =>
          pure
            (.next parser data
              { data :=
                  { curbuf.data with
                    offset := curbuf.data.offset + nparsed }
                size := curbuf.size - nparsed })

/-- The bytes read stand in the buffer, and all of it goes to the parser. -/
def fillBuf (data : HeaderData) (curbuf : CurBuf) (received : Bytes) :
    Except Fault (Bytes × HeaderData) := do
  let buffers ← store data.buffers curbuf.data received
  -- `curbuf.size` bytes are given, not the number of bytes read
  let given ← load buffers curbuf.data curbuf.size
  pure (given, { data with buffers := buffers, base := curbuf.data })

/-- One call of `http_parser_execute`, and what follows from it. -/
def execute
    {σ : Type} (http : HttpParser σ) (config : Config)
    (memory : Nat → Nat → UInt8) (parser : Parser σ) (curbuf : CurBuf)
    (received given : Bytes) (data : HeaderData) :
    Except Fault (Parsed σ) := do
  let (nparsed, parser, data) ←
    http.run (onHead config) parser given data
  afterExecute config memory curbuf received nparsed parser data

/-- What `dfk__http_request_read_headers` starts with. -/
def noHeaders (allocations : List Bool) : HeaderData where
  cheaderField := .null
  cheaderValue := .null
  dfkErrno := .ok
  url := .null
  headers := .leaf
  allocations := allocations
  buffers := []
  base := { buffer := 0, offset := 0 }

/--
The loop of `dfk__http_request_read_headers`, with the calls of the parser it
makes.
-/
def readHeadersFrom
    {σ : Type} (http : HttpParser σ) (config : Config)
    (memory : Nat → Nat → UInt8) :
    Nat → Reading σ → List ParserCall × Except Fault (HeadRead σ × World)
  | 0, _ => ([], .error .outOfFuel)
  | fuel + 1, reading =>
      let data := reading.data
      let curbuf := reading.curbuf
      if curbuf.size < config.headerMaxSize then ([], .error .assertion)
      else
        match tcpSocketRead reading.world curbuf.size with
        | .error fault => ([], .error fault)
        | .ok (none, world) => ([], .ok (.err .eof data.allocations, world))
        | .ok (some [], world) =>
            ([], .ok (.err .eof data.allocations, world))
        | .ok (some received, world) =>
            match fillBuf data curbuf received with
            | .error fault => ([], .error fault)
            | .ok (given, data) =>
                let call : ParserCall :=
                  { received := received, given := given }
                match execute http config memory reading.parser curbuf
                    received given data with
                | .error fault => ([call], .error fault)
                | .ok (.stop result) => ([call], .ok (result, world))
                | .ok (.next parser data curbuf) =>
                    let (calls, result) :=
                      readHeadersFrom http config memory fuel
                        { parser := parser
                          data := data
                          curbuf := curbuf
                          world := world }
                    (call :: calls, result)

/-- Read and parse a head, with the calls of the parser that it takes. -/
def readHead
    {σ : Type} (http : HttpParser σ) (config : Config)
    (memory : Nat → Nat → UInt8) (fuel : Nat) (world : World) :
    List ParserCall × Except Fault (HeadRead σ × World) :=
  match allocateHeadersBuf config memory (noHeaders world.allocations) with
  | (none, data) => ([], .ok (.err .nomem data.allocations, world))
  | (some curbuf, data) =>
      readHeadersFrom http config memory fuel
        { parser := { state := http.init, httpErrno := .ok }
          data := data
          curbuf := curbuf
          world := world }

/-!
## Pre-processing
-/

/-- The part of the URL in a span. -/
def urlPart (url : Bytes) : Option Span → Bytes
  | some span => (url.drop span.offset).take span.size
  | none => []

/-- `dfk_http_request_add_argument` -/
def addArgument
    (arguments : Headers) (allocations : List Bool) (argument : Header) :
    Option Headers × List Bool :=
  match World.next allocations with
  | (false, allocations) => (none, allocations)
  | (true, allocations) => (some (arguments.insert argument), allocations)

/-- The loop that parses a decoded query. -/
def parseQuery :
    QueryState → Headers → List Bool → Bytes → Err × Headers × List Bool
  | .initial, arguments, allocations, [] => (.ok, arguments, allocations)
  | .readingValue key value, arguments, allocations, [] =>
      match
        addArgument arguments allocations { name := key, value := value } with
      | (some arguments, allocations) => (.ok, arguments, allocations)
      | (none, allocations) => (.nomem, arguments, allocations)
  | _, arguments, allocations, [] => (.protocol, arguments, allocations)
  | state, arguments, allocations, character :: query =>
      match queryStep state character with
      | (state, none) => parseQuery state arguments allocations query
      | (state, some argument) =>
          match addArgument arguments allocations argument with
          | (some arguments, allocations) =>
              parseQuery state arguments allocations query
          | (none, allocations) => (.nomem, arguments, allocations)

/-- Decode and parse a query. -/
def readQuery (query : Bytes) (allocations : List Bool) :
    Err × Headers × List Bool :=
  if query = [] then (.ok, .leaf, allocations)
  else
    match World.next allocations with
    | (false, allocations) => (.nomem, .leaf, allocations)
    | (true, allocations) =>
        match urldecode query with
        | none => (.protocol, .leaf, allocations)
        | some decoded => parseQuery .initial .leaf allocations decoded

/-- The content length that a header gives, `-1` if it gives none. -/
def givenLength (headers : Headers) : Int :=
  match headers.get contentLengthName with
  | none => -1
  | some [] => -1
  | some value =>
      match dfkStrtoll value with
      | .ok length => length
      | _ => -1

/-- The content length of a request; without any framing it is 0. -/
def requestLength (headers : Headers) (chunked : Bool) : Int :=
  if givenLength headers = -1 ∧ chunked = false then 0
  else givenLength headers

/-- The request once all its headers are parsed. -/
def preprocess
    {σ : Type} (http : HttpParser σ) (data : HeaderData) (parser : Parser σ)
    (remainder url : Bytes) : Request σ :=
  { Request.init http with
    majorVersion := http.httpMajor parser.state
    minorVersion := http.httpMinor parser.state
    method := http.method parser.state
    url := url
    host := data.headers.get (ascii "Host")
    userAgent := data.headers.get (ascii "User-Agent")
    accept := data.headers.get (ascii "Accept")
    contentType := data.headers.get (ascii "Content-Type")
    contentLength := requestLength data.headers (http.chunked parser.state)
    keepalive := http.shouldKeepAlive parser.state
    chunked := http.chunked parser.state
    headers := data.headers
    remainder := remainder
    parser := parser }

/-- The part of `dfk__http_request_read_headers` behind its loop. -/
def readUrl
    {σ : Type} (http : HttpParser σ) (request : Request σ)
    (allocations : List Bool) : Err × Request σ × List Bool :=
  match http.parseUrl request.url with
  | none => (.protocol, request, allocations)
  | some fields =>
      let request :=
        { request with
          path := urlPart request.url fields.path
          query := urlPart request.url fields.query
          fragment := urlPart request.url fields.fragment }
      let (err, arguments, allocations) :=
        readQuery request.query allocations
      (err, { request with arguments := arguments }, allocations)

/-- What follows when the loop has ended. -/
def finishHead {σ : Type} (http : HttpParser σ) :
    HeadRead σ → Except Fault (Err × Request σ × List Bool)
  | .err err allocations => .ok (err, Request.init http, allocations)
  | .parsed data parser remainder => do
      let url ← data.url.bytes data.buffers
      pure
        (readUrl http (preprocess http data parser remainder url)
          data.allocations)

/-- `dfk__http_request_read_headers` -/
def readHeaders
    {σ : Type} (http : HttpParser σ) (config : Config)
    (memory : Nat → Nat → UInt8) (fuel : Nat) (world : World) :
    Except Fault (Err × Request σ × World) := do
  let (head, world) ← (readHead http config memory fuel world).2
  let (err, request, allocations) ← finishHead http head
  pure (err, request, { world with allocations := allocations })

end Dfk.Http
