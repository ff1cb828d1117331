import Dfk.Http.ConnectionHeader

/-!
# Persistent connections

The parser and the protocol both decide whether a client keeps its connection.
The parser goes by the options in all `Connection` headers.  The protocol looks
up one spelling of the name in the string map and compares the start of what
it finds with `close`, whatever the version.
-/

namespace Dfk.Http

variable {σ : Type}

/-!
## Options
-/

/-- A blank or a tab. -/
def isBlank (byte : UInt8) : Bool :=
  byte = 32 || byte = 9

/-- An element of a list without the blanks around it. -/
def trim (element : Bytes) : Bytes :=
  ((element.dropWhile isBlank).reverse.dropWhile isBlank).reverse

/-- The elements of a list with commas between them. -/
def listElements (value : Bytes) : List Bytes :=
  (value.splitOn 44).map trim

/-- The options in the `Connection` headers of a head, in lower case. -/
def connectionOptions (fields : List Header) : List Bytes :=
  (connectionHeaders fields).flatMap fun header =>
    (listElements header.value).map fun option => option.map lowerCase

/-- One of the options is `close`. -/
def AsksToClose (fields : List Header) : Prop :=
  ascii "close" ∈ connectionOptions fields

/-- One of the options is `keep-alive`. -/
def AsksToKeepAlive (fields : List Header) : Prop :=
  ascii "keep-alive" ∈ connectionOptions fields

instance (fields : List Header) : Decidable (AsksToClose fields) :=
  inferInstanceAs (Decidable (_ ∈ _))

instance (fields : List Header) : Decidable (AsksToKeepAlive fields) :=
  inferInstanceAs (Decidable (_ ∈ _))

/-- Whether a connection persists, for a minor version of HTTP/1. -/
def Persists (minorVersion : Nat) (fields : List Header) : Prop :=
  ¬ AsksToClose fields ∧ (minorVersion = 0 → AsksToKeepAlive fields)

instance (minorVersion : Nat) (fields : List Header) :
    Decidable (Persists minorVersion fields) :=
  inferInstanceAs (Decidable (_ ∧ _))

/-- What `http_should_keep_alive` says of requests of HTTP/1. -/
structure HttpParser.KeepsAlive (http : HttpParser σ) : Prop where
  of_head :
    ∀ {bytes : Bytes} {stop : Stop σ},
      headEnd http bytes = some stop →
        http.httpMajor stop.resume = 1 →
          (http.shouldKeepAlive stop.resume = true ↔
            Persists (http.httpMinor stop.resume) (headerFields http bytes))

/-!
## What the protocol decides
-/

/-- The value found under `Connection` when headers are stored. -/
def storedConnection (stored : List Header) : Bytes :=
  ((stored.foldl Headers.insert .leaf).get connectionName).getD []

/--
What is found agrees with what the head asks for.  With no value the version
decides, and with one only whether it and `close` begin alike.
-/
def FindsOptions (minorVersion : Nat) (fields : List Header)
    (value : Bytes) : Prop :=
  if value = [] then
    if minorVersion = 0 then AsksToKeepAlive fields → AsksToClose fields
    else ¬ AsksToClose fields
  else if agreesWith value closeValue then
    AsksToClose fields ∨ minorVersion = 0 ∧ ¬ AsksToKeepAlive fields
  else
    ¬ AsksToClose fields ∧ (minorVersion = 0 → AsksToKeepAlive fields)

/-- Nothing begins both like `close` and like `Keep-Alive`. -/
theorem not_keepAlive_of_close
    {value : Bytes}
    (notEmpty : value ≠ [])
    (close : agreesWith value closeValue = true) :
    agreesWith value keepAliveValue = false := by
  cases value with
  | nil =>
      exact absurd rfl notEmpty
  | cons first rest =>
      have isC : first = 99 := by
        simp only [agreesWith, decide_eq_true_eq] at close
        exact (List.cons.inj close).1
      subst isC
      rw [agreesWith, decide_eq_false_iff_not]
      intro same
      exact absurd (List.cons.inj same).1 (by decide)

/-- The decision, by the value that is found. -/
theorem requestedKeepalive_eq
    {request : Request σ}
    (major : request.majorVersion = 1) :
    requestedKeepalive request =
      if (request.headers.get connectionName).getD [] = [] then
        decide (request.minorVersion ≠ 0)
      else
        !agreesWith ((request.headers.get connectionName).getD [])
          closeValue := by
  rw [requestedKeepalive]
  cases (request.headers.get connectionName).getD [] with
  | nil =>
      simp [major]
  | cons first rest =>
      have notEmpty : first :: rest ≠ [] := List.cons_ne_nil _ _
      rw [if_neg notEmpty]
      dsimp only
      cases close : agreesWith (first :: rest) closeValue with
      | true =>
          rw [not_keepAlive_of_close notEmpty close]
          rfl
      | false =>
          cases agreesWith (first :: rest) keepAliveValue with
          | true =>
              rfl
          | false =>
              rfl

/-- What an accepted request takes from its parser. -/
theorem readHeaders_version
    {http : HttpParser σ} {config : Config} {memory : Nat → Nat → UInt8}
    {fuel : Nat} {start world : World} {request : Request σ}
    (read :
      readHeaders http config memory fuel start =
        .ok (.ok, request, world)) :
    request.majorVersion = http.httpMajor request.parser.state ∧
      request.minorVersion = http.httpMinor request.parser.state ∧
      request.keepalive = http.shouldKeepAlive request.parser.state := by
  obtain ⟨data, parser, remainder, between, url, path, query, fragment,
    arguments, heads, rfl, allocations, rfl⟩ := readHeaders_parsed read
  exact ⟨rfl, rfl, rfl⟩

/--
The protocol decides as the parser does exactly if the value it finds agrees
with the options of the head.
-/
theorem persistence_agrees_iff
    {http : HttpParser σ} {config : Config} {memory : Nat → Nat → UInt8}
    {fuel : Nat} {start world : World} {request : Request σ}
    (complete : http.Complete)
    (headsFirst : http.HeadsFirst)
    (keepsAlive : http.KeepsAlive)
    (room : config.headerMaxSize ≤ config.headersBufferSize)
    (positive : 0 < config.headerMaxSize)
    (read :
      readHeaders http config memory fuel start =
        .ok (.ok, request, world))
    (major : request.majorVersion = 1) :
    requestedKeepalive request = request.keepalive ↔
      FindsOptions request.minorVersion
        (headerFields http (firstGiven config memory start))
        (storedConnection
          (storedFields
            (headerFields http (firstGiven config memory start))
            (start.allocations.drop 2))) := by
  obtain ⟨stop, isEnd, state, headers⟩ :=
    readHeaders_fields complete headsFirst room positive read
  obtain ⟨isMajor, isMinor, isKeepalive⟩ := readHeaders_version read
  have verdict :
      request.keepalive = true ↔
        Persists request.minorVersion
          (headerFields http (firstGiven config memory start)) := by
    rw [isKeepalive, isMinor, state]
    apply keepsAlive.of_head isEnd
    rw [← state, ← isMajor]
    exact major
  rw [requestedKeepalive_eq major, headers, ← storedConnection, FindsOptions,
    Bool.eq_iff_iff, verdict, Persists]
  by_cases nothing :
      storedConnection
          (storedFields
            (headerFields http (firstGiven config memory start))
            (start.allocations.drop 2)) =
        []
  · rw [if_pos nothing, if_pos nothing]
    by_cases old : request.minorVersion = 0
    · simp only [old, ne_eq, not_true_eq_false, decide_false,
        Bool.false_eq_true, forall_const, false_iff, if_true]
      tauto
    · simp [old]
  · rw [if_neg nothing, if_neg nothing]
    cases agreesWith
        (storedConnection
          (storedFields
            (headerFields http (firstGiven config memory start))
            (start.allocations.drop 2)))
        closeValue with
    | true =>
        simp only [Bool.not_true, Bool.false_eq_true, false_iff, if_true]
        tauto
    | false =>
        simp only [Bool.not_false, true_iff, Bool.false_eq_true, if_false]

/-!
## A head with one `Connection` header
-/

/-- A request whose `Connection` header has the given value. -/
def connectionHead (value : Bytes) : Bytes :=
  ascii "GET / HTTP/1.1\r\nConnection: " ++ value ++ ascii "\r\n\r\n"

/-- How a parser calls back on it. -/
def connectionCallbacks (value : Bytes) : List Callback :=
  [.messageBegin, .url ⟨4, 1⟩, .headerField ⟨16, 10⟩,
    .headerValue ⟨28, value.length⟩, .headersComplete]

/-- A parser of it that says the connection is closed. -/
def closingParser (value : Bytes) : HttpParser HeadState :=
  { oneHead (connectionHead value) (connectionCallbacks value) 0 with
    shouldKeepAlive := fun _ => false }

/-- It is right about heads that do not persist. -/
theorem closingParser_keepsAlive
    {value : Bytes}
    (reports :
      ∀ rest,
        reported (connectionHead value ++ rest) none none
            ((connectionCallbacks value).takeWhile (· ≠ .headersComplete)) =
          [⟨connectionName, value⟩])
    (closes : ¬ Persists 1 [⟨connectionName, value⟩]) :
    (closingParser value).KeepsAlive where
  of_head := by
    intro bytes stop isEnd _
    have isHead :
        headEnd (oneHead (connectionHead value) (connectionCallbacks value) 0)
            bytes =
          some stop :=
      isEnd
    have isFields :
        headerFields (closingParser value) bytes = [⟨connectionName, value⟩] :=
      (oneHead_fields _ reports isHead).1
    rw [isFields]
    constructor
    · intro keeps
      cases keeps
    · intro persists
      exact absurd persists closes

/-- The request that asks for `close`. -/
def closeRequest : Request HeadState :=
  { Request.init (closingParser closeValue) with
    majorVersion := 1
    minorVersion := 1
    method := 1
    url := ascii "/"
    path := ascii "/"
    contentLength := 0
    headers := Headers.insert .leaf ⟨connectionName, closeValue⟩
    remainder := ascii "\n"
    parser := { state := .body 1 0, httpErrno := .ok } }

/-- Both decide to close if a client asks for `close`. -/
theorem persistence_agrees_iff_close :
    requestedKeepalive closeRequest = closeRequest.keepalive ↔
      FindsOptions closeRequest.minorVersion
        (headerFields (closingParser closeValue)
          (firstGiven largeBuffers (fun _ _ => 0)
            (sending (connectionHead closeValue) [])))
        (storedConnection
          (storedFields
            (headerFields (closingParser closeValue)
              (firstGiven largeBuffers (fun _ _ => 0)
                (sending (connectionHead closeValue) [])))
            [])) := by
  have read :
      readHeaders (closingParser closeValue) largeBuffers (fun _ _ => 0) 1
          (sending (connectionHead closeValue) []) =
        .ok (.ok, closeRequest, sending [] []) := by
    decide
  have keepsAlive : (closingParser closeValue).KeepsAlive :=
    closingParser_keepsAlive (fun _ => rfl) (by decide +kernel)
  exact
    persistence_agrees_iff (oneHead_complete _ _ _)
      (oneHead_headsFirst 0 (by decide)) keepsAlive (by decide) (by decide)
      read (by decide)

/-- Another spelling of `close` is not noticed. -/
theorem capital_close_kept :
    (closingParser (ascii "Close")).KeepsAlive ∧
      ∃ request world,
        readHeaders (closingParser (ascii "Close")) largeBuffers
              (fun _ _ => 0) 1
              (sending (connectionHead (ascii "Close")) []) =
            .ok (.ok, request, world) ∧
          request.majorVersion = 1 ∧ request.minorVersion = 1 ∧
          request.headers.list = [⟨ascii "Connection", ascii "Close"⟩] ∧
          request.keepalive = false ∧
          requestedKeepalive request = true := by
  refine
    ⟨closingParser_keepsAlive (fun _ => rfl) (by decide +kernel), ?_⟩
  exact ⟨_, _, rfl, by decide, by decide, by decide, by decide, by decide⟩

end Dfk.Http
