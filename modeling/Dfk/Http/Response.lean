import Dfk.Socket
import Dfk.Http.Headers

/-!
# Responses

`response.c`: a response collects headers, and puts its head on the socket
before the first byte of its body.
-/

namespace Dfk.Http

/-- Error codes of the functions modelled here. -/
inductive Err where
  | ok
  | eof
  | nomem
  | overflow
  | protocol
  deriving Repr, DecidableEq

/-- `(size_t) -1`, the content length of a response that sets none. -/
def noLength : Nat := 2 ^ 64 - 1

/-- `DFK_HTTP_OK` -/
def statusOk : Nat := 200

/-- `DFK_HTTP_INTERNAL_SERVER_ERROR` -/
def internalServerError : Nat := 500

/-- `dfk_http_reason_phrase` -/
def reasonPhrase : Nat → String
  | 100 => "Continue"
  | 101 => "Switching Protocols"
  | 102 => "Processing"
  | 200 => "OK"
  | 201 => "Created"
  | 202 => "Accepted"
  | 203 => "Non Authoritative information"
  | 204 => "No Content"
  | 205 => "Reset Content"
  | 206 => "Partial Content"
  | 207 => "Multi Status"
  | 208 => "Already Reported"
  | 226 => "IM Used"
  | 300 => "Multiple Choices"
  | 301 => "Moved Permanently"
  | 302 => "Found"
  | 303 => "See Other"
  | 304 => "Not Modified"
  | 305 => "Use Proxy"
  | 306 => "Switch Proxy"
  | 307 => "Temporary Redirect"
  | 308 => "Permanent Redirect"
  | 400 => "Bad Request"
  | 401 => "Unauthorized"
  | 402 => "Payment Required"
  | 403 => "Forbidden"
  | 404 => "Not Found"
  | 405 => "Method Not Allowed"
  | 406 => "Not Acceptable"
  | 407 => "Proxy Authentication Required"
  | 408 => "Request Timeout"
  | 409 => "Conflict"
  | 410 => "Gone"
  | 411 => "Length Required"
  | 412 => "Precondition Failed"
  | 413 => "Payload Too Large"
  | 414 => "Uri Too Long"
  | 415 => "Unsupported Media Type"
  | 416 => "Range Not Satisfiable"
  | 417 => "Expectation Failed"
  | 418 => "I'm a teapot"
  | 421 => "Misdirected Request"
  | 422 => "Unprocessable Entity"
  | 423 => "Locked"
  | 424 => "Failed Dependency"
  | 426 => "Upgrade Required"
  | 428 => "Precondition Required"
  | 429 => "Too Many Requests"
  | 431 => "Request Header Fields Too Large"
  | 451 => "Unavailable For Legal Reasons"
  | 500 => "Internal Server Error"
  | 501 => "Not Implemented"
  | 502 => "Bad Gateway"
  | 503 => "Service Unavailable"
  | 504 => "Gateway Timeout"
  | 505 => "HTTP Version Not Supported"
  | 506 => "Variant Also Negotiates"
  | 507 => "Insufficient Storage"
  | 508 => "Loop Detected"
  | 510 => "Not Extended"
  | 511 => "Network Authentication Required"
  | _ => "Unknown"

/-- `%d` of a number that is not negative. -/
def decimal (n : Nat) : Bytes :=
  (Nat.toDigits 10 n).map fun digit => digit.toNat.toUInt8

/-- `%3d` of a number that is not negative. -/
def decimal3 (n : Nat) : Bytes :=
  ascii (String.ofList (List.replicate (3 - (decimal n).length) ' ')) ++
    decimal n

/-- The end of a line. -/
def crlf : Bytes := [13, 10]

/-- What stands between the name of a header and its value. -/
def colonSpace : Bytes := [58, 32]

/-- `DFK_HTTP_CONTENT_LENGTH` -/
def contentLengthName : Bytes := ascii "Content-Length"

/-- `dfk_http_response_t` -/
structure Response where
  headersFlushed : Bool
  majorVersion : Nat
  minorVersion : Nat
  status : Nat
  contentLength : Nat
  chunked : Bool
  keepalive : Bool
  headers : Headers
  deriving Repr, DecidableEq

namespace Response

/-- `dfk__http_response_init`, for a request of the given version. -/
def init (majorVersion minorVersion : Nat) (keepalive : Bool) : Response where
  headersFlushed := false
  majorVersion := majorVersion
  minorVersion := minorVersion
  status := statusOk
  contentLength := noLength
  chunked := false
  keepalive := keepalive
  headers := .leaf

end Response

/-- Allocations one after another, as long as they succeed. -/
def allocEach : Nat → World → Bool × World
  | 0, world => (true, world)
  | count + 1, world =>
      match world.alloc with
      | (true, world) => allocEach count world
      | (false, world) => (false, world)

/--
Make a string map item for the response, with the given number of
allocations, and insert it.
-/
def storeItem
    (allocations : Nat) (response : Response) (world : World)
    (header : Header) : Err × Response × World :=
  match allocEach allocations world with
  | (false, world) => (.nomem, response, world)
  | (true, world) =>
      (.ok,
        { response with headers := response.headers.insert header }, world)

/-- What the `dfk_http_response_set` functions have in common. -/
def setItem
    (allocations : Nat) (response : Response) (world : World)
    (name value : Bytes) : Except Fault (Err × Response × World) := do
  check (name ≠ [])
  check (value ≠ [])
  pure (storeItem allocations response world { name := name, value := value })

/-- `dfk_http_response_set` -/
def set :
    Response → World → Bytes → Bytes →
      Except Fault (Err × Response × World) :=
  setItem 1

/-- `dfk_http_response_set_copy`: name, value and item are allocated. -/
def setCopy :
    Response → World → Bytes → Bytes →
      Except Fault (Err × Response × World) :=
  setItem 3

/-- `dfk_http_response_set_copy_name`: name and item are allocated. -/
def setCopyName :
    Response → World → Bytes → Bytes →
      Except Fault (Err × Response × World) :=
  setItem 2

/-- `dfk_http_response_set_copy_value`: value and item are allocated. -/
def setCopyValue :
    Response → World → Bytes → Bytes →
      Except Fault (Err × Response × World) :=
  setItem 2

/-!
## The head
-/

/-- Set `Content-Length` if it is known and not set by hand. -/
def addContentLength (response : Response) (world : World) :
    Except Fault (Response × World) :=
  if response.contentLength ≠ noLength ∧
      response.headers.get contentLengthName = none then
    match
      storeItem 2 response world
        { name := contentLengthName
          value := decimal response.contentLength } with
    | (.ok, response, world) => .ok (response, world)
    -- the null item goes into the map all the same
    | (_, _, _) => .error .assertion
  else .ok (response, world)

/-- The line `sbuf` holds. -/
def statusLine (response : Response) : Bytes :=
  ascii "HTTP/" ++ decimal response.majorVersion ++ ascii "." ++
    decimal response.minorVersion ++ ascii " " ++ decimal3 response.status ++
    ascii " " ++ ascii (reasonPhrase response.status) ++ crlf

/-- Store entries behind the last one of an array with `niov` entries. -/
def storeEntries (niov : Nat) (iov entries : List Bytes) :
    Except Fault (List Bytes) :=
  if iov.length + entries.length ≤ niov then .ok (iov ++ entries)
  else .error .outOfBounds

/-- The four entries of a header. -/
def headerEntries (header : Header) : List Bytes :=
  [header.name, colonSpace, header.value, crlf]

/-- The loop that stores the headers. -/
def storeHeaders (niov : Nat) :
    List Bytes → List Header → Except Fault (List Bytes)
  | iov, [] => .ok iov
  | iov, header :: headers =>
      if iov.length < niov then do
        let iov ← storeEntries niov iov (headerEntries header)
        storeHeaders niov iov headers
      else .ok iov

/-- The array of `4 * totalheaders + 2` entries that makes up the head. -/
def headIov (response : Response) : Except Fault (List Bytes) := do
  let totalheaders := response.headers.list.length
  let niov := 4 * totalheaders + 2
  let iov ← storeEntries niov [] [statusLine response]
  let iov ← storeHeaders niov iov response.headers.list
  let iov ← storeEntries niov iov [crlf]
  -- the write is told of all entries, stored or not
  if iov.length = niov then .ok iov else .error .outOfBounds

/-- `dfk__http_response_flush_headers` -/
def flushHeaders (response : Response) (world : World) :
    Except Fault (Response × World) :=
  if response.headersFlushed then .ok (response, world)
  else do
    let (response, world) ← addContentLength response world
    match world.alloc with
    | (true, world) =>
        let iov ← headIov response
        let (_, world) ← tcpSocketWritev world iov
        pure ({ response with headersFlushed := true }, world)
    | (false, world) =>
        let response := { response with status := internalServerError }
        let (_, world) ← tcpSocketWrite world (statusLine response)
        pure ({ response with headersFlushed := true }, world)

/-- `dfk_http_response_writev` -/
def responseWritev
    (response : Response) (world : World) (iov : List Bytes) :
    Except Fault (Int × Response × World) := do
  check (iov ≠ [])
  let (response, world) ← flushHeaders response world
  let (nwritten, world) ← tcpSocketWritev world iov
  pure (nwritten, response, world)

/-- `dfk_http_response_write` -/
def responseWrite (response : Response) (world : World) (buf : Bytes) :
    Except Fault (Int × Response × World) := do
  check (buf ≠ [])
  responseWritev response world [buf]

/-!
## The buffers of a head
-/

/-- The buffers of the head, one after another. -/
def headBuffers (response : Response) : List Bytes :=
  statusLine response ::
    (response.headers.list.flatMap headerEntries ++ [crlf])

/-- The head as the client should receive it. -/
def head (response : Response) : Bytes :=
  (headBuffers response).flatten

/-- Storing headers, with room for them and one more entry. -/
theorem storeHeaders_eq
    (niov : Nat) (headers : List Header) :
    ∀ iov : List Bytes,
      iov.length + 4 * headers.length < niov →
        storeHeaders niov iov headers =
          .ok (iov ++ headers.flatMap headerEntries) := by
  induction headers with
  | nil =>
      intro iov room
      simp [storeHeaders]
  | cons header headers inductionHypothesis =>
      intro iov room
      rw [List.length_cons] at room
      have entries :
          storeEntries niov iov (headerEntries header) =
            .ok (iov ++ headerEntries header) :=
        if_pos (by simp only [headerEntries, List.length_cons,
          List.length_nil]; omega)
      rw [storeHeaders, if_pos (by omega), entries, ok_bind,
        inductionHypothesis]
      · simp
      · simp only [headerEntries, List.length_append, List.length_cons,
          List.length_nil]
        omega

/-- Each header has four entries. -/
theorem length_flatMap_headerEntries (headers : List Header) :
    (headers.flatMap headerEntries).length = 4 * headers.length := by
  induction headers with
  | nil =>
      rfl
  | cons header headers inductionHypothesis =>
      simp only [List.flatMap_cons, List.length_append,
        inductionHypothesis, headerEntries, List.length_cons,
        List.length_nil]
      omega

/-- The array has room for the head and is filled by it. -/
theorem headIov_eq (response : Response) :
    headIov response = .ok (headBuffers response) := by
  have count := length_flatMap_headerEntries response.headers.list
  have filled :
      (headBuffers response).length =
        4 * response.headers.list.length + 2 := by
    simp only [headBuffers, List.length_cons, List.length_append, count,
      List.length_nil]
  have first :
      storeEntries (4 * response.headers.list.length + 2) []
          [statusLine response] = .ok [statusLine response] :=
    if_pos (by simp)
  have middle :=
    storeHeaders_eq (4 * response.headers.list.length + 2)
      response.headers.list [statusLine response]
      (by simp only [List.length_singleton]; omega)
  have last :
      storeEntries (4 * response.headers.list.length + 2)
          ([statusLine response] ++
            response.headers.list.flatMap headerEntries) [crlf] =
        .ok (headBuffers response) := by
    rw [storeEntries, if_pos]
    · simp [headBuffers]
    · simp only [List.length_append, List.length_singleton, count]
      omega
  rw [headIov, first, ok_bind, middle, ok_bind, last, ok_bind,
    if_pos filled]

end Dfk.Http
