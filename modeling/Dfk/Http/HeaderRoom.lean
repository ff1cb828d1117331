import Dfk.Http.HeadReport
import Dfk.Http.HeaderSwitch

/-!
# Room for headers

`dfk__http_request_read_headers` asserts in each round that the buffer in use
has room for a header of the maximal size.  A new buffer is taken only if the
current header begins near to the end of the old one.  The parser is given all
of a buffer, so that nothing is left of it when another round begins.
-/

namespace Dfk.Http

variable {σ : Type}

/-- The size of the buffer that the loop goes on with, if it does. -/
def switchSize (config : Config) (memory : Nat → Nat → UInt8)
    (data : HeaderData) (curbuf : CurBuf) : Option Nat :=
  match data.cheaderField.data with
  | none => some curbuf.size
  | some field =>
      if field.buffer ≠ curbuf.data.buffer then none
      else if curbuf.data.offset + curbuf.size <
          field.offset + config.headerMaxSize then
        if data.buffers.length = config.headersBufferCount then none
        else (allocateHeadersBuf config memory data).1.map CurBuf.size
      else some curbuf.size

/--
What a round leaves of the buffer for the next one, whether or not the header
can be copied on the way.
-/
def sizeLeft (http : HttpParser σ) (config : Config)
    (memory : Nat → Nat → UInt8) (reading : Reading σ) : Option Nat :=
  match headCall http config reading with
  | none => none
  | some call =>
      if call.nparsed ≤ call.received.length ∧
          call.parser.httpErrno = .ok then
        (switchSize config memory call.data reading.curbuf).map
          fun size => size - call.nparsed
      else none

/-- A read of this size is not empty, and has room for a header. -/
def HasRoom (config : Config) (size : Nat) : Prop :=
  config.headerMaxSize ≤ size ∧ 0 < size

/-- Each round begins with room for a header, and leaves room for one. -/
def RoomInEveryRound (http : HttpParser σ) (config : Config)
    (memory : Nat → Nat → UInt8) (world : World) : Prop :=
  ∀ fuel, ∀ reading ∈ readings http config memory fuel world,
    HasRoom config reading.curbuf.size ∧
      ∀ left ∈ sizeLeft http config memory reading, HasRoom config left

/-- There is another buffer, and memory for it. -/
def HasBuffer (config : Config) (answers : List Bool) : Prop :=
  config.headersBufferCount ≠ 1 ∧ (World.next answers).1 = true ∧
    (World.next (World.next answers).2).1 = true

/--
Another round is possible: no header has begun, or the current one begins far
from the end of the buffer, or there is another buffer.
-/
def Report.GoesOn (config : Config) (report : Report) : Prop :=
  ∀ name ∈ report.name,
    config.headersBufferSize < name.offset + config.headerMaxSize →
      HasBuffer config report.answers

/-- The size of the buffer that the loop goes on with. -/
theorem switchSize_of_switchBuf
    {config : Config} {memory : Nat → Nat → UInt8} {nparsed : Nat}
    {data later : HeaderData} {curbuf newBuf : CurBuf}
    (switched :
      switchBuf config memory nparsed data curbuf =
        .ok (.ok (later, newBuf))) :
    switchSize config memory data curbuf = some newBuf.size := by
  rw [switchBuf] at switched
  rw [switchSize]
  cases isField : data.cheaderField.data with
  | none =>
      rw [isField] at switched
      cases switched
      rfl
  | some field =>
      rw [isField] at switched
      dsimp only at switched ⊢
      split at switched
      · cases switched
      · next sameBuffer =>
          rw [if_neg sameBuffer]
          split at switched
          · next near =>
              rw [if_pos near]
              split at switched
              · cases switched
              · next more =>
                  rw [if_neg more]
                  split at switched
                  · cases switched
                  · next fresh between allocated =>
                      obtain ⟨moved, -, switched⟩ := of_bind switched
                      cases switched
                      rw [allocated]
                      rfl
          · next far =>
              cases switched
              rw [if_neg far]

/-- What a round leaves is what the next one begins with. -/
theorem sizeLeft_of_headRound
    {http : HttpParser σ} {config : Config} {memory : Nat → Nat → UInt8}
    {reading next : Reading σ}
    (round : headRound http config memory reading = some next) :
    sizeLeft http config memory reading = some next.curbuf.size := by
  obtain ⟨call, switchedBuf, called, within, proceeds, switched, isNext⟩ :=
    headRound_eq_some round
  rw [sizeLeft, called]
  dsimp only
  rw [if_pos ⟨within, proceeds⟩, switchSize_of_switchBuf switched, isNext]
  rfl

/-- A buffer is allocated if the allocator answers twice. -/
theorem allocateHeadersBuf_isSome
    (config : Config) (memory : Nat → Nat → UInt8) (data : HeaderData) :
    (allocateHeadersBuf config memory data).1.map CurBuf.size =
      if (World.next data.allocations).1 = true ∧
          (World.next (World.next data.allocations).2).1 = true then
        some config.headersBufferSize
      else none := by
  rw [allocateHeadersBuf]
  rcases World.next data.allocations with ⟨_ | _, first⟩
  · rfl
  · dsimp only
    rcases World.next first with ⟨_ | _, second⟩ <;> rfl

section First

variable {http : HttpParser σ} {config : Config}
variable {memory : Nat → Nat → UInt8} {world : World}

/-- Behind the first buffer there is another one of its size, or none. -/
theorem Report.Shown.switchSize
    {report : Report} {given : Bytes} {data : HeaderData}
    (config : Config) (memory : Nat → Nat → UInt8)
    (shown : report.Shown given data) :
    Http.switchSize config memory data (firstBuf config) =
        some config.headersBufferSize ∧
      report.GoesOn config ∨
    Http.switchSize config memory data (firstBuf config) = none ∧
      ¬ report.GoesOn config := by
  have size : (firstBuf config).size = config.headersBufferSize := rfl
  rw [Http.switchSize, shown.name, shown.buffers,
    allocateHeadersBuf_isSome, shown.answers]
  cases isName : report.name with
  | none =>
      left
      refine ⟨rfl, ?_⟩
      intro name isSome
      rw [isName] at isSome
      cases isSome
  | some name =>
      have goesOn :
          report.GoesOn config ↔
            (config.headersBufferSize <
                name.offset + config.headerMaxSize →
              HasBuffer config report.answers) := by
        rw [Report.GoesOn, isName]
        simp
      rw [goesOn]
      simp only [textOf, firstBuf, ne_eq, not_true_eq_false, if_false,
        Nat.zero_add, List.length_singleton]
      by_cases near :
          config.headersBufferSize < name.offset + config.headerMaxSize
      · rw [if_pos near]
        by_cases last : config.headersBufferCount = 1
        · rw [if_pos last.symm]
          right
          exact ⟨rfl, fun goesOn => (goesOn near).1 last⟩
        · rw [if_neg (Ne.symm last)]
          by_cases served :
              (World.next report.answers).1 = true ∧
                (World.next (World.next report.answers).2).1 = true
          · rw [if_pos served]
            left
            exact ⟨rfl, fun _ => ⟨last, served⟩⟩
          · rw [if_neg served]
            right
            exact ⟨rfl, fun goesOn => served (goesOn near).2⟩
      · rw [if_neg near]
        left
        exact ⟨rfl, fun isNear => absurd isNear near⟩

/--
The first round leaves nothing of the buffer for another one, and there is
another one exactly if the parser goes through all bytes and the loop goes on.
-/
theorem sizeLeft_first
    (memory : Nat → Nat → UInt8)
    (complete : http.Complete) (inOrder : http.ReportsInOrder)
    (room : config.headerMaxSize ≤ config.headersBufferSize)
    (positive : 0 < config.headerMaxSize)
    (allocated : (allocEach 2 world).1 = true) :
    (∀ left ∈
        sizeLeft http config memory (firstReading http config memory world),
      left = 0) ∧
    ((sizeLeft http config memory
          (firstReading http config memory world)).isSome ↔
      ∃ report,
        GoesThrough http config memory world report ∧
          report.GoesOn config) := by
  have sizes
      {call : HeadCall σ} {report : Report}
      (called :
        headCall http config (firstReading http config memory world) =
          some call)
      (within : call.nparsed ≤ call.received.length)
      (proceeds : call.parser.httpErrno = .ok)
      (shown :
        report.Shown (firstGiven config memory world) call.data)
      (whole : call.nparsed = config.headersBufferSize) :
      sizeLeft http config memory (firstReading http config memory world) =
            some 0 ∧
          report.GoesOn config ∨
        sizeLeft http config memory (firstReading http config memory world) =
            none ∧
          ¬ report.GoesOn config := by
    rw [sizeLeft, called]
    dsimp only [firstReading]
    rw [if_pos ⟨within, proceeds⟩]
    rcases shown.switchSize config memory with
      ⟨isSize, goesOn⟩ | ⟨isNone, stops⟩
    · rw [isSize, Option.map_some, whole, Nat.sub_self]
      exact Or.inl ⟨rfl, goesOn⟩
    · rw [isNone]
      exact Or.inr ⟨rfl, stops⟩
  cases isLeft :
      sizeLeft http config memory (firstReading http config memory world) with
  | none =>
      refine ⟨nofun, nofun, ?_⟩
      rintro ⟨report, through, goesOn⟩
      obtain ⟨call, called, within, proceeds, shown, whole⟩ :=
        through.headCall complete inOrder room positive
      rcases sizes called within proceeds shown whole with
        ⟨isSize, -⟩ | ⟨-, stops⟩
      · rw [isLeft] at isSize
        cases isSize
      · exact absurd goesOn stops
  | some left =>
      have ofCall : ∃ call,
          headCall http config (firstReading http config memory world) =
              some call ∧
            call.nparsed ≤ call.received.length ∧
            call.parser.httpErrno = .ok := by
        rw [sizeLeft] at isLeft
        split at isLeft
        · cases isLeft
        · next call called =>
            split at isLeft
            · next conditions =>
                exact ⟨call, called, conditions⟩
            · cases isLeft
      obtain ⟨call, called, within, proceeds⟩ := ofCall
      obtain ⟨report, through, shown, whole⟩ :=
        goesThrough_of_headCall complete inOrder room positive allocated
          called within proceeds
      rcases sizes called within proceeds shown whole with
        ⟨isSize, goesOn⟩ | ⟨isNone, -⟩
      · rw [isLeft] at isSize
        cases isSize
        refine ⟨?_, fun _ => ⟨report, through, goesOn⟩, fun _ => rfl⟩
        intro other isOther
        cases isOther
        rfl
      · rw [isLeft] at isNone
        cases isNone

/--
There is room for a header in every round exactly if the loop does not go on
behind its first round: the first read does not fill the buffer, or the parser
stops in it, or a new buffer is refused.
-/
theorem room_in_every_round_iff
    (complete : http.Complete) (inOrder : http.ReportsInOrder)
    (room : config.headerMaxSize ≤ config.headersBufferSize)
    (positive : 0 < config.headerMaxSize) :
    RoomInEveryRound http config memory world ↔
      ¬ ∃ report,
          GoesThrough http config memory world report ∧
            report.GoesOn config := by
  have first (allocated : (allocEach 2 world).1 = true) :
      firstReading http config memory world ∈
        readings http config memory 1 world := by
    rw [readings, allocateHeadersBuf_first, if_pos allocated]
    exact List.mem_cons_self ..
  constructor
  · rintro rooms ⟨report, through, goesOn⟩
    obtain ⟨isZero, isSome⟩ :=
      sizeLeft_first memory complete inOrder room positive
        through.allocated
    obtain ⟨left, isLeft⟩ :=
      Option.isSome_iff_exists.mp (isSome.mpr ⟨report, through, goesOn⟩)
    have nothing := isZero left isLeft
    have leaves :=
      (rooms 1 _ (first through.allocated)).2 left isLeft
    rw [nothing] at leaves
    exact Nat.lt_irrefl 0 leaves.2
  · intro stops fuel reading member
    obtain ⟨allocated, isFirst | ⟨round, -⟩⟩ :=
      readings_cases complete room positive member
    · rw [isFirst]
      obtain ⟨-, isSome⟩ :=
        sizeLeft_first memory complete inOrder room positive
          allocated
      refine ⟨⟨room, Nat.lt_of_lt_of_le positive room⟩, ?_⟩
      intro left isLeft
      refine absurd (isSome.mp ?_) stops
      rw [Option.isSome_iff_exists]
      exact ⟨left, isLeft⟩
    · have isLeft := sizeLeft_of_headRound round
      obtain ⟨-, isSome⟩ :=
        sizeLeft_first memory complete inOrder room positive
          allocated
      refine absurd (isSome.mp ?_) stops
      rw [isLeft]
      rfl

end First

/-- Empty lines before a request fill a buffer. -/
def blankLines : Bytes := (List.replicate 32 crlf).flatten

/-- A request in one piece leaves room. -/
theorem room_in_every_round_iff_hostHead :
    RoomInEveryRound (oneHead hostHead hostCallbacks 0) smallBuffers
        (fun _ _ => 0) (sending hostHead []) ↔
      ¬ ∃ report,
          GoesThrough (oneHead hostHead hostCallbacks 0) smallBuffers
              (fun _ _ => 0) (sending hostHead []) report ∧
            report.GoesOn smallBuffers :=
  room_in_every_round_iff (oneHead_complete _ _ _)
    (oneHead_reportsInOrder 0 (by decide)) (by decide) (by decide)

/--
The parser goes through empty lines without a callback: the second round of the
loop has no room, and its assertion fails.
-/
theorem blank_lines_no_room :
    ¬ RoomInEveryRound (oneHead blankLines [] 0) twoBuffers (fun _ _ => 0)
        (sending blankLines []) ∧
      readHeaders (oneHead blankLines [] 0) twoBuffers (fun _ _ => 0) 2
          (sending blankLines []) =
        .error .assertion := by
  constructor
  · intro rooms
    have isLeft :
        0 ∈ sizeLeft (oneHead blankLines [] 0) twoBuffers (fun _ _ => 0)
          (firstReading (oneHead blankLines [] 0) twoBuffers (fun _ _ => 0)
            (sending blankLines [])) := by
      decide
    have leaves :=
      (rooms 1 _ (List.mem_cons_self ..)).2 0 isLeft
    exact Nat.lt_irrefl 0 leaves.2
  · decide

end Dfk.Http
