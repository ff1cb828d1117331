import Dfk.Fault
import Dfk.Bytes

/-!
# The HTTP parser

`http_parser` is not part of the library.  It is taken as a parameter: how it
goes through the bytes it is given, calling back at some of them, and what it
says about a head afterwards.  What happens when a callback stops it is fixed
here.
-/

namespace Dfk.Http

/-- A part of the bytes a parser is given. -/
structure Span where
  offset : Nat
  size : Nat
  deriving Repr, DecidableEq

/-- Spans one behind the other, from a position up to a length. -/
def Increasing (length : Nat) : Nat → List Span → Prop
  | _, [] => True
  | position, span :: spans =>
      position ≤ span.offset ∧ span.offset + span.size ≤ length ∧
        Increasing length (span.offset + span.size) spans

instance decidableIncreasing (length : Nat) :
    (position : Nat) → (spans : List Span) →
      Decidable (Increasing length position spans)
  | _, [] => isTrue trivial
  | _, span :: spans =>
      @instDecidableAnd _ _ inferInstance
        (@instDecidableAnd _ _ inferInstance
          (decidableIncreasing length (span.offset + span.size) spans))

/-- All of them are within the length. -/
theorem Increasing.inside
    {length : Nat} {spans : List Span} :
    ∀ {position : Nat},
      Increasing length position spans →
        ∀ span ∈ spans, span.offset + span.size ≤ length := by
  induction spans with
  | nil =>
      exact fun _ => nofun
  | cons first spans inductionHypothesis =>
      intro position increasing span member
      obtain ⟨-, inside, rest⟩ := increasing
      rcases List.mem_cons.mp member with rfl | later
      · exact inside
      · exact inductionHypothesis rest span later

/-- There is more room in a longer string. -/
theorem Increasing.within
    {shorter length : Nat} (atMost : shorter ≤ length) (spans : List Span) :
    ∀ {position : Nat},
      Increasing shorter position spans →
        Increasing length position spans := by
  induction spans with
  | nil =>
      exact fun _ => trivial
  | cons span spans inductionHypothesis =>
      intro position increasing
      obtain ⟨after, inside, rest⟩ := increasing
      exact ⟨after, inside.trans atMost, inductionHypothesis rest⟩

/-- The callbacks of `http_parser_settings` that are set. -/
inductive Callback where
  | messageBegin
  | url (span : Span)
  | headerField (span : Span)
  | headerValue (span : Span)
  | headersComplete
  | body (span : Span)
  | messageComplete
  | chunkHeader
  | chunkComplete
  deriving Repr, DecidableEq

/-- The part of the bytes that a callback reports. -/
def Callback.span : Callback → Option Span
  | .url span | .headerField span | .headerValue span | .body span => some span
  | _ => none

/--
A callback of an execution: how many bytes have been parsed if the callback
stops the parser, and the state the parser is in then.
-/
structure Stop (σ : Type) where
  callback : Callback
  nparsed : Nat
  resume : σ
  deriving Repr, DecidableEq

/-- An execution none of whose callbacks stops the parser. -/
structure Execution (σ : Type) where
  stops : List (Stop σ)
  nparsed : Nat
  failed : Bool
  final : σ
  deriving Repr, DecidableEq

/-- `struct http_parser_url`, as far as it is used. -/
structure UrlFields where
  path : Option Span
  query : Option Span
  fragment : Option Span
  deriving Repr, DecidableEq

/-- `http_parser` for requests. -/
structure HttpParser (σ : Type) where
  /-- `http_parser_init` -/
  init : σ
  /-- `http_parser_execute` on a parser that is neither stopped nor failed. -/
  execute : σ → Bytes → Execution σ
  httpMajor : σ → Nat
  httpMinor : σ → Nat
  method : σ → Nat
  /-- The length of the body, if the head frames it by a length. -/
  contentLength : σ → Option Nat
  /-- `flags & F_CHUNKED` -/
  chunked : σ → Bool
  /-- `http_should_keep_alive` -/
  shouldKeepAlive : σ → Bool
  /-- `http_parser_parse_url` -/
  parseUrl : Bytes → Option UrlFields

/-- `http_errno`, in the classes the callers tell apart. -/
inductive HttpErrno where
  | ok
  | paused
  | callback
  | protocol
  deriving Repr, DecidableEq

/-- A `http_parser` object. -/
structure Parser (σ : Type) where
  state : σ
  httpErrno : HttpErrno
  deriving Repr, DecidableEq

/-- `http_parser_pause` -/
def Parser.pause {σ : Type} (parser : Parser σ) (paused : Bool) : Parser σ :=
  { parser with httpErrno := if paused then .paused else .ok }

/-- What a callback tells the parser. -/
inductive Verdict where
  | proceed
  /-- The callback returns an error. -/
  | fail
  /-- The callback pauses the parser. -/
  | pause
  deriving Repr, DecidableEq

namespace HttpParser

variable {σ τ : Type}

/-- The callbacks of an execution, up to the first one that stops it. -/
def callbacks (handle : Callback → τ → Except Fault (Verdict × τ)) :
    List (Stop σ) → τ → Except Fault (Option (HttpErrno × Nat × σ) × τ)
  | [], data => .ok (none, data)
  | stop :: stops, data => do
      match ← handle stop.callback data with
      | (.proceed, data) => callbacks handle stops data
      | (.fail, data) =>
          pure (some (.callback, stop.nparsed, stop.resume), data)
      | (.pause, data) =>
          pure (some (.paused, stop.nparsed, stop.resume), data)

/-- `http_parser_execute` -/
def run
    (http : HttpParser σ)
    (handle : Callback → τ → Except Fault (Verdict × τ))
    (parser : Parser σ) (bytes : Bytes) (data : τ) :
    Except Fault (Nat × Parser σ × τ) :=
  if parser.httpErrno ≠ .ok then .ok (0, parser, data)
  else do
    let execution := http.execute parser.state bytes
    match ← callbacks handle execution.stops data with
    | (some (errno, nparsed, state), data) =>
        pure (nparsed, { state := state, httpErrno := errno }, data)
    | (none, data) =>
        pure
          (execution.nparsed,
            { state := execution.final
              httpErrno := if execution.failed then .protocol else .ok },
            data)

/-- Where all callbacks proceed, each of them was called and proceeded. -/
theorem callbacks_none
    {handle : Callback → τ → Except Fault (Verdict × τ)}
    (stops : List (Stop σ)) :
    ∀ {data after : τ},
      callbacks handle stops data = .ok (none, after) →
        ∀ stop ∈ stops, ∃ before next,
          handle stop.callback before = .ok (.proceed, next) := by
  induction stops with
  | nil =>
      intro data after ran stop member
      cases member
  | cons first stops inductionHypothesis =>
      intro data after ran
      rw [callbacks] at ran
      rcases handled : handle first.callback data with
        fault | ⟨verdict, between⟩
      · simp [handled] at ran
      · rw [handled, ok_bind] at ran
        cases verdict with
        | proceed =>
            intro stop member
            rcases List.mem_cons.mp member with rfl | later
            · exact ⟨data, between, handled⟩
            · exact inductionHypothesis ran stop later
        | fail =>
            cases ran
        | pause =>
            cases ran

/-- A stop comes from a callback that fails or pauses. -/
theorem callbacks_some
    {handle : Callback → τ → Except Fault (Verdict × τ)}
    (stops : List (Stop σ)) :
    ∀ {data after : τ} {errno : HttpErrno} {nparsed : Nat} {state : σ},
      callbacks handle stops data =
          .ok (some (errno, nparsed, state), after) →
        ∃ earlier stop later verdict before,
          stops = earlier ++ stop :: later ∧
            callbacks handle earlier data = .ok (none, before) ∧
            handle stop.callback before = .ok (verdict, after) ∧
            (verdict = .fail ∧ errno = .callback ∨
              verdict = .pause ∧ errno = .paused) ∧
            nparsed = stop.nparsed ∧ state = stop.resume := by
  induction stops with
  | nil =>
      intro data after errno nparsed state ran
      cases ran
  | cons first stops inductionHypothesis =>
      intro data after errno nparsed state ran
      rw [callbacks] at ran
      rcases handled : handle first.callback data with
        fault | ⟨verdict, between⟩
      · simp [handled] at ran
      · rw [handled, ok_bind] at ran
        cases verdict with
        | proceed =>
            obtain ⟨earlier, stop, later, verdict, before, split, proceeded,
              rest⟩ := inductionHypothesis ran
            refine ⟨first :: earlier, stop, later, verdict, before,
              by rw [split]; rfl, ?_, rest⟩
            rw [callbacks, handled, ok_bind]
            exact proceeded
        | fail =>
            simp only [pure_eq_ok, Except.ok.injEq, Prod.mk.injEq,
              Option.some.injEq] at ran
            obtain ⟨⟨rfl, rfl, rfl⟩, rfl⟩ := ran
            exact ⟨[], first, stops, _, data, rfl, rfl, handled,
              Or.inl ⟨rfl, rfl⟩, rfl, rfl⟩
        | pause =>
            simp only [pure_eq_ok, Except.ok.injEq, Prod.mk.injEq,
              Option.some.injEq] at ran
            obtain ⟨⟨rfl, rfl, rfl⟩, rfl⟩ := ran
            exact ⟨[], first, stops, _, data, rfl, rfl, handled,
              Or.inr ⟨rfl, rfl⟩, rfl, rfl⟩

/-- Behind callbacks that proceed the next ones are called. -/
theorem callbacks_append
    {handle : Callback → τ → Except Fault (Verdict × τ)}
    (earlier later : List (Stop σ)) :
    ∀ {data between : τ},
      callbacks handle earlier data = .ok (none, between) →
        callbacks handle (earlier ++ later) data =
          callbacks handle later between := by
  induction earlier with
  | nil =>
      intro data between ran
      cases ran
      rfl
  | cons stop earlier inductionHypothesis =>
      intro data between ran
      rw [callbacks] at ran
      obtain ⟨⟨verdict, next⟩, handled, ran⟩ := of_bind ran
      cases verdict with
      | proceed =>
          rw [List.cons_append, callbacks, handled, ok_bind]
          exact inductionHypothesis ran
      | fail | pause =>
          cases ran

/-- What every callback preserves is preserved by a run of the parser. -/
theorem run_invariant
    {http : HttpParser σ}
    {handle : Callback → τ → Except Fault (Verdict × τ)}
    (holds : τ → Prop)
    (preserved :
      ∀ {callback data verdict after},
        holds data → handle callback data = .ok (verdict, after) →
          holds after)
    {parser after : Parser σ} {bytes : Bytes} {data later : τ}
    {nparsed : Nat}
    (starts : holds data)
    (ran :
      http.run handle parser bytes data = .ok (nparsed, after, later)) :
    holds later := by
  have called (stops : List (Stop σ)) :
      ∀ {data later : τ} {stopped : Option (HttpErrno × Nat × σ)},
        holds data →
          callbacks handle stops data = .ok (stopped, later) →
            holds later := by
    induction stops with
    | nil =>
        intro data later stopped starts called
        cases called
        exact starts
    | cons stop stops inductionHypothesis =>
        intro data later stopped starts called
        rw [callbacks] at called
        obtain ⟨⟨verdict, between⟩, handled, called⟩ := of_bind called
        have next := preserved starts handled
        cases verdict with
        | proceed =>
            exact inductionHypothesis next called
        | fail =>
            cases called
            exact next
        | pause =>
            cases called
            exact next
  rw [run] at ran
  split at ran
  · cases ran
    exact starts
  · obtain ⟨⟨stopped, between⟩, calls, ran⟩ := of_bind ran
    have kept := called _ starts calls
    cases stopped with
    | none =>
        cases ran
        exact kept
    | some stop =>
        cases ran
        exact kept

/-- A run that no callback stops. -/
theorem run_of_proceeds
    {http : HttpParser σ}
    {handle : Callback → τ → Except Fault (Verdict × τ)}
    {parser : Parser σ} {bytes : Bytes} {data after : τ}
    (ready : parser.httpErrno = .ok)
    (called :
      callbacks handle (http.execute parser.state bytes).stops data =
        .ok (none, after)) :
    http.run handle parser bytes data =
      .ok
        ((http.execute parser.state bytes).nparsed,
          { state := (http.execute parser.state bytes).final
            httpErrno :=
              if (http.execute parser.state bytes).failed then .protocol
              else .ok },
          after) := by
  rw [run, if_neg (by simp [ready])]
  dsimp only
  rw [called]
  rfl

/-- A run that a callback stops. -/
theorem run_of_stopped
    {http : HttpParser σ}
    {handle : Callback → τ → Except Fault (Verdict × τ)}
    {parser : Parser σ} {bytes : Bytes} {data after : τ}
    {errno : HttpErrno} {nparsed : Nat} {state : σ}
    (ready : parser.httpErrno = .ok)
    (called :
      callbacks handle (http.execute parser.state bytes).stops data =
        .ok (some (errno, nparsed, state), after)) :
    http.run handle parser bytes data =
      .ok (nparsed, { state := state, httpErrno := errno }, after) := by
  rw [run, if_neg (by simp [ready])]
  dsimp only
  rw [called]
  rfl

/-- How a run of a parser that is ready ends. -/
theorem run_cases
    {http : HttpParser σ}
    {handle : Callback → τ → Except Fault (Verdict × τ)}
    {parser after : Parser σ} {bytes : Bytes} {data later : τ}
    {nparsed : Nat}
    (ready : parser.httpErrno = .ok)
    (ran :
      http.run handle parser bytes data = .ok (nparsed, after, later)) :
    callbacks handle (http.execute parser.state bytes).stops data =
        .ok (none, later) ∧
      nparsed = (http.execute parser.state bytes).nparsed ∧
      after.state = (http.execute parser.state bytes).final ∧
      (after.httpErrno = .ok ∧
          (http.execute parser.state bytes).failed = false ∨
        after.httpErrno = .protocol ∧
          (http.execute parser.state bytes).failed = true) ∨
    callbacks handle (http.execute parser.state bytes).stops data =
        .ok (some (after.httpErrno, nparsed, after.state), later) ∧
      after.httpErrno ≠ .ok := by
  rw [run, if_neg (by simp [ready])] at ran
  rcases called :
      callbacks handle (http.execute parser.state bytes).stops data with
    fault | ⟨stopped, between⟩
  · simp [called] at ran
  · simp only [called, ok_bind] at ran
    rcases stopped with _ | ⟨errno, count, state⟩
    · simp only [pure_eq_ok, Except.ok.injEq, Prod.mk.injEq] at ran
      obtain ⟨rfl, rfl, rfl⟩ := ran
      left
      refine ⟨rfl, rfl, rfl, ?_⟩
      cases (http.execute parser.state bytes).failed with
      | true =>
          exact Or.inr ⟨rfl, rfl⟩
      | false =>
          exact Or.inl ⟨rfl, rfl⟩
    · simp only [pure_eq_ok, Except.ok.injEq, Prod.mk.injEq] at ran
      obtain ⟨rfl, rfl, rfl⟩ := ran
      right
      obtain ⟨_, _, _, _, _, _, _, _, verdicts, _⟩ :=
        callbacks_some _ called
      refine ⟨rfl, ?_⟩
      rcases verdicts with ⟨_, isErrno⟩ | ⟨_, isErrno⟩
      · simp [isErrno]
      · simp [isErrno]

/--
A parser that goes through all bytes, unless it fails or completes a message.
-/
def Complete (http : HttpParser σ) : Prop :=
  ∀ state bytes,
    (http.execute state bytes).failed = false →
    (∀ stop ∈ (http.execute state bytes).stops,
      stop.callback ≠ .messageComplete) →
    (http.execute state bytes).nparsed = bytes.length

/--
A parser whose way up to a callback depends on the bytes up to there only, the
byte it stands at included.
-/
def Causal (http : HttpParser σ) : Prop :=
  ∀ state bytes more other before stop after,
    (http.execute state (bytes ++ more)).stops = before ++ stop :: after →
    stop.nparsed < bytes.length →
    ∃ otherAfter,
      (http.execute state (bytes ++ other)).stops =
        before ++ stop :: otherAfter

/--
A parser that reports parts of the bytes it goes through, one behind the other.
-/
def ReportsInOrder (http : HttpParser σ) : Prop :=
  ∀ state bytes,
    (http.execute state bytes).nparsed ≤ bytes.length ∧
      Increasing (http.execute state bytes).nparsed 0
        ((http.execute state bytes).stops.filterMap
          fun stop => stop.callback.span)

/-- What it reports is part of the bytes it is given. -/
theorem ReportsInOrder.inside
    {http : HttpParser σ} (inOrder : http.ReportsInOrder) {state : σ}
    {bytes : Bytes} {stop : Stop σ} {span : Span}
    (member : stop ∈ (http.execute state bytes).stops)
    (isSpan : stop.callback.span = some span) :
    span.offset + span.size ≤ bytes.length := by
  obtain ⟨within, increasing⟩ := inOrder state bytes
  have inside :=
    increasing.inside span (List.mem_filterMap.mpr ⟨stop, member, isSpan⟩)
  exact inside.trans within

end HttpParser

/-!
## A parser of one head
-/

/-- How far a parser of one head is. -/
inductive HeadState where
  | head
  /-- After the head but `skip` bytes of it, with `remaining` bytes to come. -/
  | body (skip remaining : Nat)
  | done
  deriving Repr, DecidableEq

/-- How many bytes two strings have in common at their start. -/
def commonLength : Bytes → Bytes → Nat
  | a :: left, b :: right => if a = b then commonLength left right + 1 else 0
  | _, _ => 0

/-- What two strings have in common is no longer than the second one. -/
theorem commonLength_le (left right : Bytes) :
    commonLength left right ≤ right.length := by
  induction left generalizing right with
  | nil =>
      exact Nat.zero_le _
  | cons first left inductionHypothesis =>
      cases right with
      | nil =>
          exact Nat.zero_le _
      | cons second right =>
          rw [commonLength, List.length_cons]
          split
          · exact Nat.succ_le_succ (inductionHypothesis right)
          · exact Nat.zero_le _

/-- The execution of a parser that has left the head. -/
def executeBody (skip remaining : Nat) (bytes : Bytes) :
    Execution HeadState :=
  if bytes.length < skip + remaining then
    let next : HeadState :=
      .body (skip - bytes.length) (remaining - (bytes.length - skip))
    { stops :=
        if bytes.length ≤ skip then []
        else
          [⟨.body ⟨skip, bytes.length - skip⟩, bytes.length, next⟩]
      nparsed := bytes.length
      failed := false
      final := next }
  else
    { stops :=
        (if remaining = 0 then []
          else [⟨.body ⟨skip, remaining⟩, skip + remaining, .done⟩]) ++
          [⟨.messageComplete, skip + remaining, .done⟩]
      nparsed := skip + remaining
      failed := false
      final := .done }

/--
A parser that accepts requests for `/` with one head only, given with its
callbacks and the length of the body.
-/
def oneHead (head : Bytes) (callbacks : List Callback) (length : Nat) :
    HttpParser HeadState where
  init := .head
  execute := fun state bytes =>
    match state with
    | .head =>
        if head <+: bytes then
          { stops :=
              callbacks.map fun callback =>
                ⟨callback, head.length - 1, .body 1 length⟩
            nparsed := bytes.length
            failed := false
            final := .done }
        else
          { stops := []
            nparsed := commonLength head bytes
            failed := true
            final := .head }
    | .body skip remaining => executeBody skip remaining bytes
    | .done => { stops := [], nparsed := 0, failed := true, final := .done }
  httpMajor := fun _ => 1
  httpMinor := fun _ => 1
  method := fun _ => 1
  contentLength := fun state =>
    match state with
    | .body _ remaining => some remaining
    | _ => none
  chunked := fun _ => false
  shouldKeepAlive := fun _ => true
  parseUrl := fun _ =>
    some { path := some ⟨0, 1⟩, query := none, fragment := none }

/-- It goes through all bytes. -/
theorem oneHead_complete
    (head : Bytes) (callbacks : List Callback) (length : Nat) :
    (oneHead head callbacks length).Complete := by
  intro state bytes noFailure noMessage
  cases state with
  | head =>
      simp only [oneHead] at noFailure ⊢
      split at noFailure
      · next found =>
          rw [if_pos found]
      · cases noFailure
  | body skip remaining =>
      simp only [oneHead, executeBody] at noMessage ⊢
      split at noMessage
      · next short =>
          rw [if_pos short]
      · exact absurd rfl
          (noMessage _ (List.mem_append_right _ (List.mem_singleton_self _)))
  | done =>
      cases noFailure

/-- It reports parts in order if they are in order in its head. -/
theorem oneHead_reportsInOrder
    {head : Bytes} {callbacks : List Callback} (length : Nat)
    (inOrder : Increasing head.length 0 (callbacks.filterMap Callback.span)) :
    (oneHead head callbacks length).ReportsInOrder := by
  intro state bytes
  cases state with
  | head =>
      simp only [oneHead]
      split
      · next found =>
          refine ⟨Nat.le_refl _, ?_⟩
          rw [List.filterMap_map]
          exact inOrder.within found.length_le _
      · exact ⟨commonLength_le head bytes, trivial⟩
  | body skip remaining =>
      simp only [oneHead, executeBody]
      split
      · refine ⟨Nat.le_refl _, ?_⟩
        split
        · exact trivial
        · exact ⟨Nat.zero_le _, by dsimp only; omega, trivial⟩
      · refine ⟨by dsimp only; omega, ?_⟩
        split
        · exact trivial
        · exact ⟨Nat.zero_le _, Nat.le_refl _, trivial⟩
  | done =>
      exact ⟨Nat.zero_le _, trivial⟩

end Dfk.Http
