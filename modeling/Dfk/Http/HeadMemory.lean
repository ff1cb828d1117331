import Dfk.Http.ResponseHead

/-!
# Response heads and memory

A flush allocates for the `Content-Length` that the response adds, and for the
array of the buffers of its head.  Without the first the null item goes into
the map; without the second the status line is written and no more, so that
the client takes what comes next for headers.
-/

namespace Dfk.Http

open Cut

/-- A status line with its end. -/
def IsStatusLine (line : Bytes) : Prop :=
  ∃ text, line = text ++ crlf ∧ ascii "HTTP/" <+: text ∧ 13 ∉ text

/-- A status line, the lines of some headers, and an empty line. -/
def CompleteHead (written : Bytes) : Prop :=
  ∃ line, ∃ headers : List Header,
    IsStatusLine line ∧
      written = line ++ ((headers.flatMap headerEntries).flatten ++ crlf)

/-- The client finds the end of the head whatever comes behind it. -/
def EndsHead (written : Bytes) : Prop :=
  ∀ body, ∃ parsed, parseHead (written ++ body) = some (parsed, body)

/-- Headers as the setters admit them. -/
def Filled (headers : Headers) : Prop :=
  ∀ header ∈ headers.list, header.name ≠ [] ∧ header.value ≠ []

instance (headers : Headers) : Decidable (Filled headers) :=
  inferInstanceAs (Decidable (∀ header ∈ _, _))

/-- A socket that takes every byte it is given. -/
def Accepting (world : World) : Prop :=
  ∀ sizes, world.TakesWhole sizes

/--
A flush returns and writes a complete head; if the headers are clean and the
status has three digits, the client can tell its end.
-/
def HeadSurvives (response : Response) (world : World) : Prop :=
  ∃ after later written,
    flushHeaders response world = .ok (after, later) ∧
      later.output = world.output ++ written ∧
      CompleteHead written ∧
      (100 ≤ response.status → response.status ≤ 999 →
        (∀ header ∈ response.headers.list, Clean header) →
          EndsHead written)

/-!
## Lines
-/

/-- The setters keep headers filled. -/
theorem Filled.perform
    {setter : Setter} {response after : Response} {world later : World}
    {name value : Bytes} {err : Err}
    (filled : Filled response.headers)
    (performed :
      setter.perform response world name value = .ok (err, after, later)) :
    Filled after.headers := by
  rw [Setter.perform_eq] at performed
  obtain ⟨_, named, performed⟩ := of_bind performed
  obtain ⟨_, valued, performed⟩ := of_bind performed
  have stored := Except.ok.inj performed
  rw [storeItem] at stored
  split at stored
  · cases stored
    exact filled
  · cases stored
    intro header member
    rcases Headers.mem_list_insert member with rfl | before
    · exact ⟨of_check named, of_check valued⟩
    · exact filled header before

/-- Padding has no end of line. -/
theorem not_mem_decimal3 (status : Nat) : (13 : UInt8) ∉ decimal3 status := by
  rw [decimal3, List.mem_append, not_or]
  refine ⟨?_, not_mem_decimal (by decide)⟩
  intro member
  obtain ⟨character, inPadding, isReturn⟩ := List.mem_map.mp member
  rw [String.toList_ofList, List.mem_replicate] at inPadding
  rw [inPadding.2] at isReturn
  exact absurd isReturn (by decide)

/-- Every response has a status line. -/
theorem isStatusLine_statusLine (response : Response) :
    IsStatusLine (statusLine response) := by
  refine ⟨_, rfl, ?_, ?_⟩
  · simp only [List.append_assoc]
    exact List.prefix_append _ _
  · simp only [List.mem_append, not_or]
    exact ⟨⟨⟨⟨⟨⟨⟨by decide, not_mem_decimal (by decide)⟩, by decide⟩,
      not_mem_decimal (by decide)⟩, by decide⟩, not_mem_decimal3 _⟩,
      by decide⟩, not_mem_reasonPhrase response.status⟩

/-- The lines of headers end as lines do. -/
theorem crlf_suffix_lines
    {line : Bytes} (isStatusLine : IsStatusLine line) (headers : List Header) :
    crlf <:+ line ++ (headers.flatMap headerEntries).flatten := by
  obtain ⟨text, rfl, -, -⟩ := isStatusLine
  rcases List.eq_nil_or_concat headers with rfl | ⟨others, last, rfl⟩
  · exact ⟨text, by simp⟩
  · refine ⟨text ++ crlf ++ (others.flatMap headerEntries).flatten ++
      headerText last, ?_⟩
    simp [headerEntries, headerText]

/-- A complete head ends with an empty line. -/
theorem CompleteHead.suffix
    {written : Bytes} (complete : CompleteHead written) :
    crlf ++ crlf <:+ written := by
  obtain ⟨line, headers, isStatusLine, rfl⟩ := complete
  obtain ⟨before, same⟩ := crlf_suffix_lines isStatusLine headers
  refine ⟨before, ?_⟩
  rw [← List.append_assoc line, ← same, List.append_assoc]

/-- A status line is no complete head. -/
theorem not_completeHead_statusLine
    {response : Response}
    (isError : response.status = internalServerError) :
    ¬ CompleteHead (statusLine response) := by
  intro complete
  have isReason :
      ascii (reasonPhrase response.status) ++ crlf =
        ascii "Internal Server Err" ++ (ascii "or" ++ crlf) := by
    rw [isError]
    rfl
  have ends : ascii "or" ++ crlf <:+ statusLine response := by
    rw [statusLine, List.append_assoc _ _ crlf, isReason, ← List.append_assoc]
    exact List.suffix_append _ _
  have noEmptyLine :=
    List.suffix_of_suffix_length_le complete.suffix ends (Nat.le_refl 4)
  exact absurd noEmptyLine (by decide)

/-- The head of a response is complete. -/
theorem completeHead_head (response : Response) :
    CompleteHead (head response) := by
  refine ⟨statusLine response, response.headers.list,
    isStatusLine_statusLine response, ?_⟩
  rw [head, headBuffers, List.flatten_cons, List.flatten_append,
    List.flatten_singleton]

/-!
## Memory
-/

/-- Allocating does not change the socket. -/
theorem Accepting.allocEach
    (count : Nat) :
    ∀ {world : World},
      Accepting world → Accepting (Http.allocEach count world).2 := by
  induction count with
  | zero =>
      intro world accepting
      exact accepting
  | succ count inductionHypothesis =>
      intro world accepting
      have after : Accepting world.alloc.2 := fun sizes =>
        takesWhole_withAllocations _ sizes (accepting sizes)
      rw [Http.allocEach]
      rcases allocated : world.alloc with ⟨_ | _, between⟩
      · rw [allocated] at after
        exact after
      · rw [allocated] at after
        exact inductionHypothesis after

/-- The header that the response adds is filled and clean. -/
theorem mem_completed
    {response : Response} {header : Header}
    (member : header ∈ (completed response).headers.list) :
    header ∈ response.headers.list ∨ header ∈ ownHeaders response := by
  rw [completed] at member
  split at member
  · next sets =>
      rcases Headers.mem_list_insert member with rfl | before
      · right
        rw [ownHeaders, if_pos sets.1]
        exact List.mem_singleton_self _
      · exact Or.inl before
  · exact Or.inl member

/-- What the response adds has a name and a value. -/
theorem filled_completed
    {response : Response} (filled : Filled response.headers) :
    Filled (completed response).headers := by
  intro header member
  rcases mem_completed member with before | isOwn
  · exact filled header before
  · rw [ownHeaders] at isOwn
    split at isOwn
    · have named : contentLengthName ≠ [] := by
        decide
      rw [List.mem_singleton.mp isOwn]
      exact ⟨named, decimal_ne_nil _⟩
    · cases isOwn

/-- One allocation more. -/
theorem allocEach_concat (count : Nat) :
    ∀ {world between : World},
      allocEach count world = (true, between) →
        allocEach (count + 1) world = between.alloc := by
  induction count with
  | zero =>
      intro world between allocated
      cases allocated
      exact allocEach_one world
  | succ count inductionHypothesis =>
      intro world between allocated
      rw [allocEach] at allocated
      rw [allocEach]
      rcases first : world.alloc with ⟨_ | _, after⟩
      · rw [first] at allocated
        cases allocated
      · rw [first] at allocated
        exact inductionHypothesis allocated

/-- The array is allocated behind what the response adds. -/
theorem alloc_of_addContentLength
    {response ready : Response} {world between : World}
    (added : addContentLength response world = .ok (ready, between)) :
    between.output = world.output ∧
      (Accepting world → Accepting between) ∧
      (allocEach (headAllocations response) world).1 = between.alloc.1 := by
  rw [addContentLength] at added
  rw [headAllocations]
  split at added
  · next sets =>
      rw [if_pos sets]
      have unsent := allocEach_output 2 world
      have takes : Accepting world → Accepting (allocEach 2 world).2 :=
        Accepting.allocEach 2
      rw [storeItem] at added
      rcases allocated : allocEach 2 world with ⟨_ | _, after⟩
      · rw [allocated] at added
        cases added
      · rw [allocated] at added unsent takes
        cases added
        exact ⟨unsent, takes, by rw [allocEach_concat 2 allocated]⟩
  · next keeps =>
      rw [if_neg keeps]
      cases added
      exact ⟨rfl, id, by rw [allocEach_one]⟩

/-- Without memory for the array the status line of an error is written. -/
theorem flushHeaders_of_refused
    {response after : Response} {world later : World}
    (fresh : response.headersFlushed = false)
    (accepting : Accepting world)
    (refused : (allocEach (headAllocations response) world).1 = false)
    (flushed : flushHeaders response world = .ok (after, later)) :
    ∃ failed : Response,
      failed.status = internalServerError ∧
        later.output = world.output ++ statusLine failed := by
  rw [flushHeaders, if_neg (by simp [fresh])] at flushed
  obtain ⟨⟨ready, between⟩, added, flushed⟩ := of_bind flushed
  obtain ⟨unsent, takes, sameAnswer⟩ := alloc_of_addContentLength added
  rw [refused] at sameAnswer
  rcases array : between.alloc with ⟨_ | _, last⟩
  · simp only [array] at flushed
    have notEmpty :
        statusLine { ready with status := internalServerError } ≠ [] := by
      simp [statusLine, crlf]
    have accepts : Accepting last := by
      have allocated := (takes accepting).allocEach 1
      rw [allocEach_one, array] at allocated
      exact allocated
    have received : last.output = world.output := by
      have sent := allocEach_output 1 between
      rw [allocEach_one, array] at sent
      exact sent.trans unsent
    rw [tcpSocketWrite_eq notEmpty, ok_bind] at flushed
    cases flushed
    refine ⟨{ ready with status := internalServerError }, rfl, ?_⟩
    have whole := (accepts [(statusLine
      { ready with status := internalServerError }).length]).1
    rw [World.emit_output, World.takes_output, received, whole,
      Option.getD_some, List.take_length]
  · rw [array] at sameAnswer
    cases sameAnswer

/-- A world in which the first allocation fails. -/
def exhausted : World :=
  { atOnce with allocations := [false] }

end Dfk.Http
