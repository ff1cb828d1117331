import Dfk.Http.HeadGrammar
import Dfk.Http.ResponseStream

/-!
# Response heads

A client reads from the head of a response the version and the status, and the
headers that were set, each name with the first value it was given.  The
library checks neither names nor values, so this needs names without a colon
and no end of a line in either.
-/

namespace Dfk.Http

open Cut Headers

/-- The functions that set a header. -/
inductive Setter where
  | set
  | setCopy
  | setCopyName
  | setCopyValue
  deriving Repr, DecidableEq

namespace Setter

/-- How often each of them allocates. -/
def allocations : Setter → Nat
  | .set => 1
  | .setCopy => 3
  | .setCopyName => 2
  | .setCopyValue => 2

/-- One call. -/
def perform :
    Setter → Response → World → Bytes → Bytes →
      Except Fault (Err × Response × World)
  | .set => Http.set
  | .setCopy => Http.setCopy
  | .setCopyName => Http.setCopyName
  | .setCopyValue => Http.setCopyValue

/-- The functions differ in how often they allocate. -/
theorem perform_eq (setter : Setter) :
    setter.perform = setItem setter.allocations := by
  cases setter <;> rfl

end Setter

/-- A call that sets a header. -/
structure SetCall where
  setter : Setter
  header : Header
  deriving Repr, DecidableEq

/-- Set headers one after another, as long as all calls succeed. -/
def setAll :
    Response → World → List SetCall → Except Fault (Err × Response × World)
  | response, world, [] => .ok (.ok, response, world)
  | response, world, call :: calls => do
      let (err, response, world) ←
        call.setter.perform response world call.header.name call.header.value
      if err = .ok then setAll response world calls
      else pure (err, response, world)

/-- `Content-Length`, where the response adds it. -/
def ownHeaders (response : Response) : List Header :=
  if response.contentLength ≠ noLength then
    [{ name := contentLengthName, value := decimal response.contentLength }]
  else []

/-- The headers of a response, the first one of each name. -/
def expectedHeaders (response : Response) (calls : List SetCall) :
    List Header :=
  (calls.map SetCall.header ++ ownHeaders response).foldl keep []

/-- The names a response deals with. -/
def NamesOf (response : Response) (calls : List SetCall) (name : Bytes) :
    Prop :=
  ∃ header ∈ calls.map SetCall.header ++ ownHeaders response,
    header.name = name

/-- Every allocation succeeds, and the socket takes every byte. -/
structure Obliging (world : World) : Prop where
  allocates : ∀ answer ∈ world.allocations, answer = true
  accepts : ∀ sizes, world.TakesWhole sizes

/-- What is taken whole depends on the socket alone. -/
theorem takesWhole_withAllocations
    (allocations : List Bool) (sizes : List Nat) :
    ∀ {world : World},
      world.TakesWhole sizes →
        World.TakesWhole { world with allocations := allocations } sizes := by
  induction sizes with
  | nil =>
      intro world whole
      trivial
  | cons size sizes inductionHypothesis =>
      intro world whole
      exact ⟨whole.1, inductionHypothesis whole.2⟩

/-- Allocations succeed and leave an obliging world obliging. -/
theorem Obliging.allocEach
    (count : Nat) :
    ∀ {world : World},
      Obliging world →
        ∃ after,
          Http.allocEach count world = (true, after) ∧ Obliging after := by
  induction count with
  | zero =>
      intro world obliging
      exact ⟨world, rfl, obliging⟩
  | succ count inductionHypothesis =>
      intro world obliging
      have answers :
          (World.next world.allocations).1 = true ∧
            ∀ answer ∈ (World.next world.allocations).2,
              answer = true := by
        have allocates := obliging.allocates
        revert allocates
        rcases world.allocations with _ | ⟨first, allocations⟩
        · intro _
          exact ⟨rfl, by simp [World.next]⟩
        · intro allocates
          exact ⟨allocates first (by simp),
            fun later member =>
              allocates later (List.mem_cons_of_mem _ member)⟩
      rw [Http.allocEach, World.alloc, answers.1]
      apply inductionHypothesis
      exact ⟨answers.2, fun sizes =>
        takesWhole_withAllocations _ sizes (obliging.accepts sizes)⟩

/-- An obliging world serves any head. -/
theorem Obliging.servesHead
    {world : World}
    (obliging : Obliging world)
    (response : Response) :
    ServesHead response world := by
  obtain ⟨after, allocated, obliged⟩ :=
    obliging.allocEach (headAllocations response)
  rw [ServesHead, allocated]
  exact ⟨rfl, obliged.accepts _⟩

/-- Setting headers keeps the first of each name. -/
theorem setAll_eq
    {names : Bytes → Prop}
    (apart : StrMap.Apart names)
    (calls : List SetCall) :
    ∀ {response : Response} {world : World} {kept : List Header},
      Keeps names response.headers kept →
      Obliging world →
      (∀ call ∈ calls,
        call.header.name ≠ [] ∧ call.header.value ≠ [] ∧
          names call.header.name) →
      ∃ headers after,
        setAll response world calls =
            .ok (.ok, { response with headers := headers }, after) ∧
          after.output = world.output ∧ Obliging after ∧
          Keeps names headers
            ((calls.map SetCall.header).foldl keep kept) := by
  induction calls with
  | nil =>
      intro response world kept keeps obliging allowed
      exact ⟨response.headers, world, rfl, rfl, obliging, keeps⟩
  | cons call calls inductionHypothesis =>
      intro response world kept keeps obliging allowed
      obtain ⟨named, valued, nameIn⟩ := allowed call (by simp)
      obtain ⟨between, allocated, obliged⟩ :=
        obliging.allocEach call.setter.allocations
      have unsent :=
        allocEach_output call.setter.allocations world
      rw [allocated] at unsent
      have stores :
          call.setter.perform response world call.header.name
              call.header.value =
            .ok (.ok,
              { response with
                headers := response.headers.insert call.header },
              between) := by
        rw [Setter.perform_eq, setItem, check_pos named, ok_bind,
          check_pos valued, ok_bind, storeItem, allocated]
        rfl
      have keepsOne :
          Keeps names
            (Response.headers
              { response with
                headers := response.headers.insert call.header })
            (keep kept call.header) :=
        keeps.insert apart nameIn
      obtain ⟨headers, after, rest, received, obligedAfter, keepsAll⟩ :=
        inductionHypothesis keepsOne obliged
          (fun other member => allowed other (by simp [member]))
      refine ⟨headers, after, ?_, received.trans unsent, obligedAfter,
        keepsAll⟩
      rw [setAll, stores, ok_bind]
      exact rest

/-- The response adds its own header unless it was set. -/
theorem completed_keeps
    {names : Bytes → Prop} {response : Response} {kept : List Header}
    (apart : StrMap.Apart names)
    (keeps : Keeps names response.headers kept)
    (ownIn : ∀ header ∈ ownHeaders response, names header.name) :
    Keeps names (completed response).headers
      ((ownHeaders response).foldl keep kept) := by
  by_cases known : response.contentLength ≠ noLength
  · have own :
        ownHeaders response =
          [{ name := contentLengthName
             value := decimal response.contentLength }] :=
      if_pos known
    have ownName : names contentLengthName := ownIn
      { name := contentLengthName
        value := decimal response.contentLength } (by simp [own])
    rw [own]
    by_cases absent : response.headers.get contentLengthName = none
    · rw [completed, if_pos ⟨known, absent⟩]
      exact keeps.insert apart ownName
    · have there :=
        not_not.mp (mt (keeps.get_eq_none_iff apart ownName).mpr absent)
      rw [completed, if_neg (fun both => absent both.2)]
      rw [List.foldl_cons, keep, if_pos there]
      exact keeps
  · have own : ownHeaders response = [] := if_neg known
    rw [own, completed, if_neg (fun both => known both.1)]
    exact keeps

/-- Nothing but the headers changes. -/
theorem completed_eq (response : Response) :
    completed response =
      { response with headers := (completed response).headers } := by
  rw [completed]
  split <;> rfl

/-- The own header of a response is clean. -/
theorem clean_ownHeaders (response : Response) :
    ∀ header ∈ ownHeaders response, Clean header := by
  intro header member
  have nameClean :
      contentLengthName ≠ [] ∧ 58 ∉ contentLengthName ∧
        Apart 13 10 contentLengthName := by
    decide
  rw [ownHeaders] at member
  split at member
  · rw [List.mem_singleton.mp member]
    exact ⟨nameClean.1, nameClean.2.1, nameClean.2.2,
      apart_of_not_mem (not_mem_decimal (by decide))⟩
  · cases member

/-- Only headers that were offered are kept. -/
theorem mem_of_mem_foldl_keep
    (headers : List Header) :
    ∀ {kept : List Header} {header : Header},
      header ∈ headers.foldl keep kept → header ∈ kept ++ headers := by
  induction headers with
  | nil =>
      intro kept header member
      simpa using member
  | cons first headers inductionHypothesis =>
      intro kept header member
      have offered := inductionHypothesis member
      rw [keep] at offered
      split at offered
      · rw [List.mem_append, List.mem_cons]
        rcases List.mem_append.mp offered with inKept | inHeaders
        · exact Or.inl inKept
        · exact Or.inr (Or.inr inHeaders)
      · simpa using offered

/-- A flush writes the head to an outside that serves it. -/
theorem flushHeaders_served
    {response : Response} {world : World}
    (fresh : response.headersFlushed = false)
    (serves : ServesHead response world)
    (notEmpty :
      ∀ header ∈ (completed response).headers.list,
        header.name ≠ [] ∧ header.value ≠ []) :
    flushHeaders response world =
      .ok
        ({ completed response with headersFlushed := true },
          (headServed response world).emit (head (completed response))) := by
  obtain ⟨allocated, whole⟩ := serves
  obtain ⟨between, set, array⟩ := addContentLength_eq allocated
  have buffersNotEmpty :
      ∀ buf ∈ headBuffers (completed response), buf ≠ [] := by
    intro buf member
    rcases List.mem_cons.mp member with rfl | member
    · simp [statusLine, crlf]
    · rcases List.mem_append.mp member with inHeaders | isLast
      · obtain ⟨header, inList, isEntry⟩ := List.mem_flatMap.mp inHeaders
        obtain ⟨named, valued⟩ := notEmpty header inList
        simp only [headerEntries, List.mem_cons, List.not_mem_nil,
          or_false] at isEntry
        rcases isEntry with rfl | rfl | rfl | rfl
        · exact named
        · exact List.cons_ne_nil _ _
        · exact valued
        · exact List.cons_ne_nil _ _
      · rw [List.mem_singleton.mp isLast]
        exact List.cons_ne_nil _ _
  rw [flushHeaders, if_neg (by simp [fresh]), set, ok_bind]
  simp only [array]
  rw [headIov_eq, ok_bind, tcpSocketWritev,
    check_pos (by simp [headBuffers]), ok_bind,
    tcpSocketWritevFrom_of_takesWhole _ buffersNotEmpty _ _ whole]
  rfl

/--
Headers that are clean and whose names are not confused are read from the head
as they were set, with the version and the status of the response.
-/
theorem head_round_trip
    {response : Response} {world : World} {calls : List SetCall}
    (empty : response.headers = .leaf)
    (fresh : response.headersFlushed = false)
    (threeDigits : 100 ≤ response.status ∧ response.status ≤ 999)
    (obliging : Obliging world)
    (accepted : ∀ call ∈ calls, call.header.value ≠ [])
    (clean : ∀ call ∈ calls, Clean call.header)
    (apart : StrMap.Apart (NamesOf response calls))
    (body : Bytes) :
    ∃ ready between flushed after written parsed,
      setAll response world calls = .ok (.ok, ready, between) ∧
        flushHeaders ready between = .ok (flushed, after) ∧
        after.output = world.output ++ written ∧
        parseHead (written ++ body) = some (parsed, body) ∧
        parsed.majorVersion = response.majorVersion ∧
        parsed.minorVersion = response.minorVersion ∧
        parsed.status = response.status ∧
        parsed.headers.Perm (expectedHeaders response calls) := by
  have start : Keeps (NamesOf response calls) response.headers [] := by
    rw [empty]
    exact keeps_leaf _
  have allowed :
      ∀ call ∈ calls,
        call.header.name ≠ [] ∧ call.header.value ≠ [] ∧
          NamesOf response calls call.header.name := by
    intro call member
    exact ⟨(clean call member).1, accepted call member, call.header,
      List.mem_append_left _ (List.mem_map_of_mem member), rfl⟩
  obtain ⟨headers, between, sets, unsent, obliged, keeps⟩ :=
    setAll_eq apart calls start obliging allowed
  let ready : Response := { response with headers := headers }
  have keepsAll :
      Keeps (NamesOf response calls) (completed ready).headers
        (expectedHeaders response calls) := by
    rw [expectedHeaders, List.foldl_append]
    exact completed_keeps apart keeps fun header member =>
      ⟨header, List.mem_append_right _ member, rfl⟩
  have offered :
      ∀ header ∈ (completed ready).headers.list,
        Clean header ∧ header.value ≠ [] := by
    intro header member
    have isExpected := keepsAll.contents.mem_iff.mp member
    rcases List.mem_append.mp (mem_of_mem_foldl_keep _ isExpected) with
      none | isOffered
    · cases none
    · rcases List.mem_append.mp isOffered with isSet | isOwn
      · obtain ⟨call, isCall, rfl⟩ := List.mem_map.mp isSet
        exact ⟨clean call isCall, accepted call isCall⟩
      · refine ⟨clean_ownHeaders response header isOwn, ?_⟩
        rw [ownHeaders] at isOwn
        split at isOwn
        · rw [List.mem_singleton.mp isOwn]
          exact decimal_ne_nil _
        · cases isOwn
  have freshReady : ready.headersFlushed = false := fresh
  have flushes :=
    flushHeaders_served freshReady (obliged.servesHead ready)
      fun header member =>
      ⟨(offered header member).1.1, (offered header member).2⟩
  have fields := completed_eq ready
  have statusReady :
      100 ≤ (completed ready).status ∧ (completed ready).status ≤ 999 := by
    rw [fields]
    exact threeDigits
  have reads :=
    parseHead_head statusReady
      (fun header member => (offered header member).1) body
  refine ⟨ready, between, _, _, _, _, sets, flushes, ?_, reads, ?_, ?_, ?_,
    keepsAll.contents⟩
  · rw [World.emit_output, headServed, World.offered_output,
      allocEach_output, unsent]
  · rw [fields]
  · rw [fields]
  · rw [fields]

/-- An outside that serves every call in full. -/
def atOnce : World where
  input := []
  output := []
  reads := []
  writes := []
  waits := []
  allocations := []

/-- It is obliging. -/
theorem obliging_atOnce : Obliging atOnce where
  allocates := by simp [atOnce]
  accepts := by
    intro sizes
    induction sizes with
    | nil =>
        trivial
    | cons size sizes inductionHypothesis =>
        exact ⟨rfl, inductionHypothesis⟩

/-- Two headers, the second one copied. -/
def hostAndServer : List SetCall :=
  [⟨.set, ⟨ascii "Host", ascii "dfk"⟩⟩,
    ⟨.setCopy, ⟨ascii "Server", ascii "dfk:0"⟩⟩]

/-- Both headers are read from the head. -/
theorem head_round_trip_host_server :
    ∃ ready between flushed after written parsed,
      setAll (Response.init 1 1 true) atOnce hostAndServer =
          .ok (.ok, ready, between) ∧
        flushHeaders ready between = .ok (flushed, after) ∧
        after.output = atOnce.output ++ written ∧
        parseHead (written ++ ascii "body") =
          some (parsed, ascii "body") ∧
        parsed.majorVersion = 1 ∧ parsed.minorVersion = 1 ∧
        parsed.status = 200 ∧
        parsed.headers.Perm
          (expectedHeaders (Response.init 1 1 true) hostAndServer) := by
  have apart :
      StrMap.Apart (NamesOf (Response.init 1 1 true) hostAndServer) := by
    rintro left right ⟨first, isFirst, rfl⟩ ⟨second, isSecond, rfl⟩
    revert first second
    decide
  exact head_round_trip rfl rfl (by decide) obliging_atOnce (by decide)
    (by decide) apart (ascii "body")

/-- A header whose value holds the end of a line and another header. -/
def splitting : List SetCall :=
  [⟨.set, ⟨ascii "Location", ascii "/\r\nSet-Cookie: a"⟩⟩]

/-- It is read from the head as two headers. -/
theorem head_splits :
    ∃ ready between flushed after written parsed,
      setAll (Response.init 1 1 true) atOnce splitting =
          .ok (.ok, ready, between) ∧
        flushHeaders ready between = .ok (flushed, after) ∧
        after.output = atOnce.output ++ written ∧
        parseHead written = some (parsed, []) ∧
        parsed.headers =
          [⟨ascii "Location", ascii "/"⟩,
            ⟨ascii "Set-Cookie", ascii "a"⟩] ∧
        ¬ parsed.headers.Perm
            (expectedHeaders (Response.init 1 1 true) splitting) := by
  let ready : Response :=
    { Response.init 1 1 true with
      headers :=
        Headers.insert .leaf
          ⟨ascii "Location", ascii "/\r\nSet-Cookie: a"⟩ }
  refine ⟨ready, atOnce, { ready with headersFlushed := true },
    { atOnce with output := head ready }, head ready,
    ⟨1, 1, 200, [⟨ascii "Location", ascii "/"⟩,
      ⟨ascii "Set-Cookie", ascii "a"⟩]⟩, ?_, ?_, ?_, ?_, rfl, ?_⟩
  · decide
  · decide
  · decide
  · decide +kernel
  · intro permuted
    have sameLength := permuted.length_eq
    revert sameLength
    decide

end Dfk.Http
