import Dfk.Http.HeadRounds
import Dfk.Http.HeadersBuffers

/-!
# Moving headers between buffers

When little of a buffer is left the loop of `dfk__http_request_read_headers`
goes on with a new one and moves the current header there.  It copies as many
bytes as it has just parsed, from the beginning of the header on, whatever has
been collected of the header.
-/

namespace Dfk.Http

variable {σ : Type}

/-- A state in which the loop moves the current header. -/
structure HeaderMove where
  nparsed : Nat
  data : HeaderData
  curbuf : CurBuf
  deriving Repr, DecidableEq

/--
The current header begins too near to the end of its buffer, and there is
another one.
-/
def MovesHeader (config : Config) (memory : Nat → Nat → UInt8)
    (data : HeaderData) (curbuf : CurBuf) : Prop :=
  ∃ field ∈ data.cheaderField.data,
    field.buffer = curbuf.data.buffer ∧
      curbuf.data.offset + curbuf.size <
        field.offset + config.headerMaxSize ∧
      data.buffers.length ≠ config.headersBufferCount ∧
      (allocateHeadersBuf config memory data).1.isSome

instance (config : Config) (memory : Nat → Nat → UInt8) (data : HeaderData)
    (curbuf : CurBuf) : Decidable (MovesHeader config memory data curbuf) :=
  inferInstanceAs (Decidable (∃ field ∈ data.cheaderField.data, _ ∧ _))

/-- The move in a round of the loop, if there is one. -/
def headerMove (http : HttpParser σ) (config : Config)
    (memory : Nat → Nat → UInt8) (reading : Reading σ) : Option HeaderMove :=
  match headCall http config reading with
  | none => none
  | some call =>
      if call.nparsed ≤ call.received.length ∧
          call.parser.httpErrno = .ok ∧
          MovesHeader config memory call.data reading.curbuf then
        some
          { nparsed := call.nparsed
            data := call.data
            curbuf := reading.curbuf }
      else none

/-- The bytes collected of the current header, its name being the first. -/
def HeaderData.collected (data : HeaderData) : Nat :=
  match data.cheaderField.data, data.cheaderValue.data with
  | some field, some value =>
      value.offset - field.offset + data.cheaderValue.size
  | _, _ => data.cheaderField.size

/-- The text that is being collected. -/
def HeaderData.current (data : HeaderData) : Text :=
  match data.cheaderValue.data with
  | some _ => data.cheaderValue
  | none => data.cheaderField

/-- The place behind a text. -/
def Text.behind (text : Text) : Option Pointer :=
  text.data.map fun start =>
    { start with offset := start.offset + text.size }

/-- The current text can be continued with bytes that are read to a place. -/
def HeaderData.ContinuesAt (data : HeaderData) (place : Pointer) : Prop :=
  ∀ received buffers,
    store data.buffers place received = .ok buffers →
      ∀ size ≤ received.length,
        ∃ text bytes,
          data.current.append place size = .ok text ∧
            data.current.bytes data.buffers = .ok bytes ∧
            text.bytes buffers = .ok (bytes ++ received.take size)

/--
The name and the value have the same bytes behind a move, and the next read
continues them.
-/
def HeaderMove.Keeps (config : Config) (memory : Nat → Nat → UInt8)
    (move : HeaderMove) : Prop :=
  ∃ later newBuf next,
    switchBuf config memory move.nparsed move.data move.curbuf =
        .ok (.ok (later, newBuf)) ∧
      next =
        { newBuf.data with offset := newBuf.data.offset + move.nparsed } ∧
      later.cheaderField.bytes later.buffers =
        move.data.cheaderField.bytes move.data.buffers ∧
      later.cheaderValue.bytes later.buffers =
        move.data.cheaderValue.bytes move.data.buffers ∧
      later.current.behind = some next ∧
      later.ContinuesAt next

/-!
## Where the texts are
-/

/--
A name and a value in the buffer in use, the value behind the name, and both
before a position.
-/
structure Housed (config : Config) (curbuf : CurBuf) (position : Nat)
    (data : HeaderData) : Prop where
  lengths :
    ∀ buffer ∈ data.buffers, buffer.length = config.headersBufferSize
  current : curbuf.data.buffer < data.buffers.length
  room : curbuf.data.offset + curbuf.size ≤ config.headersBufferSize
  inside : position ≤ curbuf.size
  field :
    ∀ start, data.cheaderField.data = some start →
      start.buffer = curbuf.data.buffer ∧
        start.offset + data.cheaderField.size ≤
          curbuf.data.offset + position
  value :
    ∀ start first, data.cheaderField.data = some start →
      data.cheaderValue.data = some first →
        first.buffer = curbuf.data.buffer ∧
          start.offset + data.cheaderField.size ≤ first.offset ∧
          first.offset + data.cheaderValue.size ≤
            curbuf.data.offset + position

/-- The position behind what a callback reports. -/
def Callback.behind (position : Nat) (callback : Callback) : Nat :=
  match callback.span with
  | some span => span.offset + span.size
  | none => position

/-- The texts and the buffers are the same. -/
structure SameTexts (data after : HeaderData) : Prop where
  buffers : after.buffers = data.buffers
  base : after.base = data.base
  field : after.cheaderField = data.cheaderField
  value : after.cheaderValue = data.cheaderValue

/-- Checking the length of a text changes no text. -/
theorem sameTexts_limit
    {config : Config} {text : Text} {data after : HeaderData}
    {verdict : Verdict}
    (limited :
      (pure (HeaderData.limit config text data) :
        Except Fault (Verdict × HeaderData)) = .ok (verdict, after)) :
    SameTexts data after := by
  have same := Except.ok.inj limited
  rw [HeaderData.limit] at same
  split at same
  · cases same
    exact ⟨rfl, rfl, rfl, rfl⟩
  · cases same
    exact ⟨rfl, rfl, rfl, rfl⟩

/-- Flushing a header changes no text. -/
theorem sameTexts_flushHeader
    {data after : HeaderData} {verdict : Verdict}
    (flushed : flushHeader data = .ok (verdict, after)) :
    SameTexts data after := by
  rw [flushHeader] at flushed
  split at flushed
  · cases flushed
    exact ⟨rfl, rfl, rfl, rfl⟩
  · obtain ⟨name, -, flushed⟩ := of_bind flushed
    obtain ⟨value, -, flushed⟩ := of_bind flushed
    obtain ⟨-, -, flushed⟩ := of_bind flushed
    cases flushed
    exact ⟨rfl, rfl, rfl, rfl⟩

/-- A text with something added ends behind it. -/
theorem append_ends
    {text added : Text} {place : Pointer} {size : Nat}
    (appended : text.append place size = .ok added) :
    ∃ start,
      added.data = some start ∧ start.buffer = place.buffer ∧
        start.offset + added.size = place.offset + size ∧
        (text.data = some start ∨ text.data = none ∧ start = place) := by
  rw [Text.append] at appended
  rcases isData : text.data with _ | start
  · simp only [isData] at appended
    cases appended
    exact ⟨place, rfl, rfl, rfl, Or.inr ⟨rfl, rfl⟩⟩
  · simp only [isData] at appended
    obtain ⟨_, adjacent, appended⟩ := of_bind appended
    obtain ⟨sameBuffer, next⟩ := of_check adjacent
    cases appended
    refine ⟨start, rfl, sameBuffer, ?_, Or.inl rfl⟩
    dsimp only
    rw [← next, Nat.add_assoc]

section Callbacks

variable {config : Config} {curbuf : CurBuf} {position : Nat}
variable {data after : HeaderData}

/-- What is housed stays housed when something else changes. -/
theorem Housed.of_sameTexts
    (housed : Housed config curbuf position data)
    (same : SameTexts data after) : Housed config curbuf position after := by
  obtain ⟨buffers, -, field, value⟩ := same
  exact
    { lengths := by rw [buffers]; exact housed.lengths
      current := by rw [buffers]; exact housed.current
      room := housed.room
      inside := housed.inside
      field := by rw [field]; exact housed.field
      value := by rw [field, value]; exact housed.value }

/-- What is housed before a position is housed before a later one. -/
theorem Housed.later
    {reached : Nat}
    (housed : Housed config curbuf position data)
    (atLeast : position ≤ reached) (inside : reached ≤ curbuf.size) :
    Housed config curbuf reached data where
  lengths := housed.lengths
  current := housed.current
  room := housed.room
  inside := inside
  field := fun start isStart => by
    obtain ⟨buffer, ends⟩ := housed.field start isStart
    exact ⟨buffer, by omega⟩
  value := fun start first isStart isFirst => by
    obtain ⟨buffer, behind, ends⟩ :=
      housed.value start first isStart isFirst
    exact ⟨buffer, behind, by omega⟩

/-- A name that ends where a part does, without a value. -/
theorem Housed.named
    {named : HeaderData} {span : Span} {start : Pointer}
    (housed : Housed config curbuf position data)
    (inside : span.offset + span.size ≤ curbuf.size)
    (buffers : named.buffers = data.buffers)
    (isStart : named.cheaderField.data = some start)
    (buffer : start.buffer = curbuf.data.buffer)
    (ends :
      start.offset + named.cheaderField.size =
        curbuf.data.offset + span.offset + span.size)
    (noValue : named.cheaderValue.data = none) :
    Housed config curbuf (span.offset + span.size) named where
  lengths := by rw [buffers]; exact housed.lengths
  current := by rw [buffers]; exact housed.current
  room := housed.room
  inside := inside
  field := fun other isOther => by
    rw [isStart] at isOther
    cases isOther
    exact ⟨buffer, by omega⟩
  value := fun other first _ isFirst => by
    rw [noValue] at isFirst
    cases isFirst

/-- A callback puts the texts in the buffer the parser reads. -/
theorem Housed.step
    {callback : Callback} {verdict : Verdict}
    (housed : Housed config curbuf position data)
    (base : data.base = curbuf.data)
    (spanned :
      ∀ span, callback.span = some span →
        position ≤ span.offset ∧ span.offset + span.size ≤ curbuf.size)
    (called : onHead config callback data = .ok (verdict, after)) :
    Housed config curbuf (callback.behind position) after ∧
      after.base = curbuf.data := by
  have place (span : Span) :
      data.place span =
        { curbuf.data with offset := curbuf.data.offset + span.offset } := by
    rw [HeaderData.place, base]
  have unchanged
      (same : SameTexts data after) (reached : Nat)
      (atLeast : position ≤ reached) (inside : reached ≤ curbuf.size) :
      Housed config curbuf reached after ∧ after.base = curbuf.data :=
    ⟨(housed.of_sameTexts same).later atLeast inside,
      same.base.trans base⟩
  cases callback with
  | messageBegin | chunkHeader | chunkComplete | messageComplete =>
      cases called
      exact ⟨housed, base⟩
  | body span =>
      cases called
  | url span =>
      obtain ⟨after', inside⟩ := spanned span rfl
      obtain ⟨url, -, called⟩ := of_bind called
      have same := sameTexts_limit called
      exact unchanged ⟨same.buffers, same.base, same.field, same.value⟩
        (span.offset + span.size) (by omega) inside
  | headersComplete =>
      simp only [onHead, onHeadersComplete] at called
      split at called
      · obtain ⟨-, -, called⟩ := of_bind called
        obtain ⟨⟨flushVerdict, between⟩, flushed, called⟩ := of_bind called
        cases called
        exact unchanged (sameTexts_flushHeader flushed) _ (Nat.le_refl _)
          housed.inside
      · cases called
        exact ⟨housed, base⟩
  | headerField span =>
      obtain ⟨behind, inside⟩ := spanned span rfl
      simp only [onHead, onHeaderField] at called
      split at called
      · obtain ⟨⟨flushVerdict, between⟩, flushed, called⟩ := of_bind called
        have flushedSame := sameTexts_flushHeader flushed
        cases flushVerdict with
        | proceed =>
            have same := sameTexts_limit called
            refine ⟨?_, same.base.trans (flushedSame.base.trans base)⟩
            refine housed.named inside
              (same.buffers.trans flushedSame.buffers)
              (congrArg Text.data same.field) ?_ ?_
              (congrArg Text.data same.value)
            · rw [HeaderData.place, flushedSame.base, base]
            · rw [same.field, HeaderData.place, flushedSame.base, base]
        | fail | pause =>
            cases called
            exact unchanged flushedSame (span.offset + span.size) (by omega)
              inside
      · next noValue =>
          obtain ⟨field, appended, called⟩ := of_bind called
          rw [place] at appended
          obtain ⟨start, isStart, buffer, ends, -⟩ := append_ends appended
          have same := sameTexts_limit called
          refine ⟨?_, same.base.trans base⟩
          refine housed.named inside same.buffers
            ((congrArg Text.data same.field).trans isStart) buffer ?_ ?_
          · rw [same.field]
            exact ends
          · rw [same.value]
            exact Option.not_isSome_iff_eq_none.mp noValue
  | headerValue span =>
      obtain ⟨behind, inside⟩ := spanned span rfl
      have valued
          {valued : HeaderData} {value : Text} {first : Pointer}
          (same : SameTexts { data with cheaderValue := value } valued)
          (isFirst : value.data = some first)
          (buffer : first.buffer = curbuf.data.buffer)
          (ends :
            first.offset + value.size =
              curbuf.data.offset + span.offset + span.size)
          (follows :
            ∀ start, data.cheaderField.data = some start →
              start.offset + data.cheaderField.size ≤ first.offset) :
          Housed config curbuf (span.offset + span.size) valued ∧
            valued.base = curbuf.data := by
        have buffers : valued.buffers = data.buffers := same.buffers
        have field : valued.cheaderField = data.cheaderField := same.field
        have isValue : valued.cheaderValue = value := same.value
        refine ⟨?_, same.base.trans base⟩
        exact
          { lengths := by rw [buffers]; exact housed.lengths
            current := by rw [buffers]; exact housed.current
            room := housed.room
            inside := inside
            field := by
              rw [field]
              intro start isStart
              obtain ⟨sameBuffer, before⟩ := housed.field start isStart
              exact ⟨sameBuffer, by omega⟩
            value := by
              rw [field, isValue]
              intro start other isStart isOther
              rw [isFirst] at isOther
              cases isOther
              exact ⟨buffer, follows start isStart, by omega⟩ }
      simp only [onHead, onHeaderValue] at called
      split at called
      · refine valued (sameTexts_limit (Eq.trans (ok_bind _ _).symm called))
          rfl ?_ ?_ ?_
        · rw [place]
        · rw [place]
        · intro start isStart
          rw [place]
          have before := (housed.field start isStart).2
          dsimp only
          omega
      · next first isFirst =>
          obtain ⟨value, appended, called⟩ := of_bind called
          rw [place] at appended
          obtain ⟨other, isOther, buffer, ends, began⟩ :=
            append_ends appended
          refine valued (sameTexts_limit called) isOther buffer ends ?_
          intro start isStart
          rcases began with same | ⟨noValue, -⟩
          · exact (housed.value start other isStart same).2.1
          · rw [isFirst] at noValue
            cases noValue

/-- Callbacks that all proceed put the texts in the buffer they read. -/
theorem Housed.run
    {nparsed : Nat} (stops : List (Stop σ)) :
    ∀ {position : Nat} {data after : HeaderData},
      Housed config curbuf position data →
        data.base = curbuf.data →
        position ≤ nparsed →
        nparsed ≤ curbuf.size →
        Increasing nparsed position
          (stops.filterMap fun stop => stop.callback.span) →
        HttpParser.callbacks (onHead config) stops data =
            .ok (none, after) →
          Housed config curbuf nparsed after := by
  induction stops with
  | nil =>
      intro position data after housed base atLeast inside _ ran
      cases ran
      exact housed.later atLeast inside
  | cons stop stops inductionHypothesis =>
      intro position data after housed base atLeast inside increasing ran
      rw [HttpParser.callbacks] at ran
      obtain ⟨⟨verdict, between⟩, called, ran⟩ := of_bind ran
      cases verdict with
      | fail | pause =>
          cases ran
      | proceed =>
          cases isSpan : stop.callback.span with
          | none =>
              obtain ⟨next, nextBase⟩ :=
                housed.step base (fun span same => by
                  rw [isSpan] at same
                  cases same) called
              simp only [List.filterMap_cons, isSpan] at increasing
              rw [Callback.behind, isSpan] at next
              exact inductionHypothesis next nextBase atLeast inside
                increasing ran
          | some span =>
              simp only [List.filterMap_cons, isSpan] at increasing
              obtain ⟨behind, reaches, increasing⟩ := increasing
              obtain ⟨next, nextBase⟩ :=
                housed.step base (fun other same => by
                  rw [isSpan] at same
                  cases same
                  exact ⟨behind, reaches.trans inside⟩) called
              rw [Callback.behind, isSpan] at next
              exact inductionHypothesis next nextBase reaches inside
                increasing ran

/-- Storing bytes changes the length of no buffer. -/
theorem lengths_of_store
    {buffers later : List Bytes} {place : Pointer} {bytes : Bytes}
    {length : Nat}
    (stored : store buffers place bytes = .ok later)
    (lengths : ∀ buffer ∈ buffers, buffer.length = length) :
    ∀ buffer ∈ later, buffer.length = length := by
  rw [store] at stored
  split at stored
  · next fits =>
      cases stored
      intro buffer member
      rcases List.mem_or_eq_of_mem_set member with before | rfl
      · exact lengths buffer before
      · by_cases known : place.buffer < buffers.length
        · have isBuffer :
              buffers.getD place.buffer [] = buffers[place.buffer] :=
            List.getD_eq_getElem _ _ known
          have whole := lengths _ (List.getElem_mem known)
          rw [isBuffer] at fits ⊢
          rw [List.length_append, List.length_append, List.length_take,
            List.length_drop]
          omega
        · rw [List.set_eq_of_length_le (Nat.le_of_not_lt known)] at member
          exact lengths _ member
  · cases stored

/-- A read puts bytes into the buffer in use, and all of it is parsed. -/
theorem Housed.filled
    {received given : Bytes}
    (housed : Housed config curbuf 0 data)
    (filled : fillBuf data curbuf received = .ok (given, after)) :
    Housed config curbuf 0 after ∧ after.base = curbuf.data ∧
      given.length = curbuf.size := by
  have sameLength := length_of_fillBuf filled
  obtain ⟨buffers, stored, filled⟩ := of_bind filled
  obtain ⟨bytes, loaded, filled⟩ := of_bind filled
  cases filled
  refine ⟨?_, rfl, ?_⟩
  · exact
      { lengths := lengths_of_store stored housed.lengths
        current := by
          rw [sameLength]
          exact housed.current
        room := housed.room
        inside := housed.inside
        field := housed.field
        value := housed.value }
  · rw [load] at loaded
    split at loaded
    · next whole =>
        cases loaded
        exact whole
    · cases loaded

/-- Where the parser has gone through what it was given, texts are housed. -/
theorem Housed.called
    {http : HttpParser σ} {reading : Reading σ} {call : HeadCall σ}
    (housed : Housed config reading.curbuf 0 reading.data)
    (inOrder : http.ReportsInOrder)
    (called : headCall http config reading = some call)
    (proceeds : call.parser.httpErrno = .ok) :
    Housed config reading.curbuf call.nparsed call.data := by
  obtain ⟨input, isInput, -, -, ran⟩ := headCall_eq_some called
  obtain ⟨-, -, -, isFilled⟩ := headInput_eq_some isInput
  obtain ⟨start, base, length⟩ := housed.filled isFilled
  by_cases ready : reading.parser.httpErrno = .ok
  · obtain ⟨within, increasing⟩ := inOrder reading.parser.state input.given
    rw [length] at within
    rcases HttpParser.run_cases ready ran with
      ⟨proceeded, count, -, -⟩ | ⟨-, stopped⟩
    · rw [count]
      exact start.run _ base (Nat.zero_le _) within increasing proceeded
    · exact absurd proceeds stopped
  · rw [HttpParser.run, if_pos ready] at ran
    obtain ⟨-, same⟩ := Prod.mk.inj (Except.ok.inj ran)
    rw [← (Prod.mk.inj same).1] at proceeds
    exact absurd proceeds ready

end Callbacks

/-!
## Switching buffers
-/

section Switching

variable {config : Config} {memory : Nat → Nat → UInt8} {nparsed : Nat}
variable {curbuf newBuf : CurBuf} {data later : HeaderData}

/-- The buffer in use is the old one, or the header has moved to a new one. -/
theorem switchBuf_cases
    (switched :
      switchBuf config memory nparsed data curbuf =
        .ok (.ok (later, newBuf))) :
    later = data ∧ newBuf = curbuf ∨
      MovesHeader config memory data curbuf ∧
        ∃ field between,
          data.cheaderField.data = some field ∧
            allocateHeadersBuf config memory data =
              (some newBuf, between) ∧
            moveHeader nparsed field newBuf.data between = .ok later := by
  rw [switchBuf] at switched
  split at switched
  · cases switched
    exact Or.inl ⟨rfl, rfl⟩
  · next field isField =>
      split at switched
      · cases switched
      · next sameBuffer =>
          split at switched
          · next near =>
              split at switched
              · cases switched
              · next more =>
                  split at switched
                  · cases switched
                  · next fresh between allocated =>
                      obtain ⟨moved, moves, switched⟩ := of_bind switched
                      cases switched
                      refine Or.inr ⟨⟨field, isField,
                        Decidable.not_not.mp sameBuffer, near, more, ?_⟩,
                        field, between, isField, allocated, moves⟩
                      rw [allocated]
                      rfl
          · cases switched
            exact Or.inl ⟨rfl, rfl⟩

/-- Where the loop moves a header, switching is moving. -/
theorem switchBuf_of_moves
    (nparsed : Nat)
    (moves : MovesHeader config memory data curbuf) :
    ∃ field fresh between,
      data.cheaderField.data = some field ∧
        allocateHeadersBuf config memory data = (some fresh, between) ∧
        switchBuf config memory nparsed data curbuf =
          (moveHeader nparsed field fresh.data between).map
            fun later => .ok (later, fresh) := by
  obtain ⟨field, isField, sameBuffer, near, more, allocated⟩ := moves
  rcases isAllocated : allocateHeadersBuf config memory data with
    ⟨_ | fresh, between⟩
  · rw [isAllocated] at allocated
    cases allocated
  · refine ⟨field, fresh, between, isField, rfl, ?_⟩
    rw [switchBuf, isField]
    dsimp only
    rw [if_neg (not_not_intro sameBuffer), if_pos near, if_neg more,
      isAllocated]
    dsimp only
    cases moveHeader nparsed field fresh.data between <;> rfl

/-- A new buffer stands behind the others. -/
theorem allocateHeadersBuf_eq_some
    (allocated :
      allocateHeadersBuf config memory data = (some newBuf, later)) :
    newBuf =
        { data := { buffer := data.buffers.length, offset := 0 }
          size := config.headersBufferSize } ∧
      later =
        { data with
          allocations := later.allocations
          buffers :=
            data.buffers ++ [stale config memory data.buffers.length] } := by
  rw [allocateHeadersBuf] at allocated
  split at allocated
  · cases allocated
  · split at allocated
    · cases allocated
    · cases allocated
      exact ⟨rfl, rfl⟩

/-- What moving a header consists of. -/
theorem moveHeader_eq_ok
    {field target : Pointer}
    (moved : moveHeader nparsed field target data = .ok later) :
    ∃ copied,
      load data.buffers field nparsed = .ok copied ∧
        store data.buffers target copied = .ok later.buffers ∧
        later.cheaderField =
          { data.cheaderField with data := some target } ∧
        later.cheaderValue =
          { data.cheaderValue with
            data :=
              data.cheaderValue.data.map fun value =>
                { target with
                  offset := target.offset + (value.offset - field.offset) } } := by
  obtain ⟨copied, loaded, moved⟩ := of_bind moved
  obtain ⟨buffers, stored, moved⟩ := of_bind moved
  cases moved
  exact ⟨copied, loaded, stored, rfl, rfl⟩

/-- The current text of a moved header ends as far behind its beginning. -/
theorem behind_of_moved
    {field target : Pointer}
    (isField : data.cheaderField.data = some field)
    (movedField :
      later.cheaderField = { data.cheaderField with data := some target })
    (movedValue :
      later.cheaderValue =
        { data.cheaderValue with
          data :=
            data.cheaderValue.data.map fun value =>
              { target with
                offset := target.offset + (value.offset - field.offset) } }) :
    later.current.behind =
      some { target with offset := target.offset + data.collected } := by
  rw [HeaderData.current, HeaderData.collected, isField, movedField,
    movedValue]
  cases data.cheaderValue.data with
  | none =>
      rfl
  | some value =>
      simp only [Option.map_some, Text.behind, Nat.add_assoc]

/-- A part of what has been copied is that part of the original. -/
theorem part_of_copied
    {original : Bytes} (rest : Bytes) {start offset size : Nat}
    (whole : ((original.drop start).take nparsed).length = nparsed)
    (within : offset + size ≤ nparsed) :
    (((original.drop start).take nparsed ++ rest).drop offset).take size =
      (original.drop (start + offset)).take size := by
  calc
    (((original.drop start).take nparsed ++ rest).drop offset).take size =
        (((original.drop start).take nparsed).drop offset).take size := by
      rw [List.drop_append_of_le_length (by omega),
        List.take_append_of_le_length]
      rw [List.length_drop]
      omega
    _ = (original.drop (start + offset)).take size := by
      rw [List.drop_take, List.take_take, List.drop_drop,
        Nat.min_eq_left (by omega)]

/-- As many bytes as are collected can be copied. -/
theorem Housed.copies
    {field : Pointer}
    (housed : Housed config curbuf nparsed data)
    (isField : data.cheaderField.data = some field)
    (collected : data.collected = nparsed) :
    (((data.buffers.getD field.buffer []).drop field.offset).take
      nparsed).length = nparsed := by
  obtain ⟨sameBuffer, fieldEnds⟩ := housed.field field isField
  have known : field.buffer < data.buffers.length := by
    rw [sameBuffer]
    exact housed.current
  have length :
      (data.buffers.getD field.buffer []).length =
        config.headersBufferSize := by
    rw [List.getD_eq_getElem _ _ known]
    exact housed.lengths _ (List.getElem_mem known)
  have room := housed.room
  have inside := housed.inside
  -- the copy ends with the last byte collected
  have ends : field.offset + nparsed ≤ config.headersBufferSize := by
    rw [HeaderData.collected, isField] at collected
    cases isValue : data.cheaderValue.data with
    | none =>
        rw [isValue] at collected
        dsimp only at collected
        omega
    | some value =>
        obtain ⟨-, behind, valueEnds⟩ :=
          housed.value field value isField isValue
        rw [isValue] at collected
        dsimp only at collected
        omega
  rw [List.length_take, List.length_drop, length]
  omega

/-- Bytes copied to the front of a new buffer are read there. -/
theorem load_copied
    {buffers : List Bytes} (rest : Bytes) {field original : Pointer}
    {offset size : Nat}
    (whole :
      (((buffers.getD field.buffer []).drop field.offset).take
        nparsed).length = nparsed)
    (sameBuffer : original.buffer = field.buffer)
    (isOffset : original.offset = field.offset + offset)
    (within : offset + size ≤ nparsed) :
    load
        (buffers ++
          [((buffers.getD field.buffer []).drop field.offset).take nparsed ++
            rest])
        { buffer := buffers.length, offset := offset } size =
      load buffers original size := by
  rw [load, load]
  dsimp only
  rw [List.getD_append_right _ _ _ _ (Nat.le_refl _), Nat.sub_self,
    List.getD_cons_zero, part_of_copied _ whole within, sameBuffer, isOffset]

/-- Bytes are copied to the front of a new buffer. -/
theorem moveHeader_of_whole
    {field : Pointer} {between : HeaderData}
    (known : field.buffer < data.buffers.length)
    (allocated :
      allocateHeadersBuf config memory data = (some newBuf, between))
    (whole :
      (((data.buffers.getD field.buffer []).drop field.offset).take
        nparsed).length = nparsed)
    (fits : nparsed ≤ config.headersBufferSize) :
    ∃ later,
      moveHeader nparsed field newBuf.data between = .ok later ∧
        later.buffers =
          data.buffers ++
            [((data.buffers.getD field.buffer []).drop field.offset).take
                nparsed ++
              (stale config memory data.buffers.length).drop nparsed] := by
  obtain ⟨rfl, isBetween⟩ := allocateHeadersBuf_eq_some allocated
  have loaded :
      load between.buffers field nparsed =
        .ok (((data.buffers.getD field.buffer []).drop field.offset).take
          nparsed) := by
    rw [isBetween, load]
    dsimp only
    rw [List.getD_append _ _ _ _ known]
    exact if_pos whole
  have stored :
      store between.buffers
          { buffer := data.buffers.length, offset := 0 }
          (((data.buffers.getD field.buffer []).drop field.offset).take
            nparsed) =
        .ok
          (data.buffers ++
            [((data.buffers.getD field.buffer []).drop field.offset).take
                nparsed ++
              (stale config memory data.buffers.length).drop nparsed]) := by
    rw [isBetween, store]
    dsimp only
    rw [whole, List.getD_append_right _ _ _ _ (Nat.le_refl _),
      if_pos]
    · simp
    · simp only [Nat.sub_self, List.getD_cons_zero, stale, List.length_map,
        List.length_range]
      omega
  rw [moveHeader, loaded, ok_bind, stored]
  exact ⟨_, rfl, rfl⟩

/-- A header whose bytes are as many as those parsed is copied whole. -/
theorem moveHeader_of_collected
    {field : Pointer} {between : HeaderData}
    (housed : Housed config curbuf nparsed data)
    (isField : data.cheaderField.data = some field)
    (allocated :
      allocateHeadersBuf config memory data = (some newBuf, between))
    (collected : data.collected = nparsed) :
    ∃ later,
      moveHeader nparsed field newBuf.data between = .ok later ∧
        later.cheaderField.bytes later.buffers =
          data.cheaderField.bytes data.buffers ∧
        later.cheaderValue.bytes later.buffers =
          data.cheaderValue.bytes data.buffers := by
  have whole := housed.copies isField collected
  have known : field.buffer < data.buffers.length := by
    rw [(housed.field field isField).1]
    exact housed.current
  have room := housed.room
  have inside := housed.inside
  obtain ⟨later, moved, buffers⟩ :=
    moveHeader_of_whole known allocated whole (by omega)
  obtain ⟨rfl, isBetween⟩ := allocateHeadersBuf_eq_some allocated
  have betweenField : between.cheaderField = data.cheaderField := by
    rw [isBetween]
  have betweenValue : between.cheaderValue = data.cheaderValue := by
    rw [isBetween]
  obtain ⟨-, -, -, laterField, laterValue⟩ := moveHeader_eq_ok moved
  rw [betweenField] at laterField
  rw [betweenValue] at laterValue
  rw [HeaderData.collected, isField] at collected
  refine ⟨later, moved, ?_, ?_⟩
  · have within : 0 + data.cheaderField.size ≤ nparsed := by
      cases isValue : data.cheaderValue.data with
      | none =>
          rw [isValue] at collected
          dsimp only at collected
          omega
      | some value =>
          have behind := (housed.value field value isField isValue).2.1
          rw [isValue] at collected
          dsimp only at collected
          omega
    rw [Text.bytes, Text.bytes, laterField, isField, buffers]
    exact load_copied _ whole rfl rfl within
  · rw [Text.bytes, Text.bytes, laterValue]
    cases isValue : data.cheaderValue.data with
    | none =>
        rfl
    | some value =>
        obtain ⟨sameBuffer, behind, -⟩ :=
          housed.value field value isField isValue
        rw [isValue] at collected
        dsimp only at collected
        rw [buffers, Option.map_some]
        dsimp only
        rw [Nat.zero_add]
        refine load_copied _ whole ?_ ?_ ?_
        · rw [sameBuffer, (housed.field field isField).1]
        · omega
        · omega

/-- Bytes that are put behind a part of a string continue it. -/
theorem part_of_stored
    {original received : Bytes} (tail : Bytes) {start length size : Nat}
    (inside : start + length ≤ original.length)
    (within : size ≤ received.length) :
    ((original.take (start + length) ++ received ++ tail).drop start).take
        (length + size) =
      (original.drop start).take length ++ received.take size := by
  have whole : ((original.drop start).take length).length = length := by
    rw [List.length_take, List.length_drop]
    omega
  have front :
      (original.take (start + length) ++ received ++ tail).drop start =
        (original.drop start).take length ++ (received ++ tail) := by
    rw [List.append_assoc, List.drop_append_of_le_length, List.drop_take,
      Nat.add_sub_cancel_left]
    rw [List.length_take]
    omega
  calc
    ((original.take (start + length) ++ received ++ tail).drop start).take
          (length + size) =
        ((original.drop start).take length ++ (received ++ tail)).take
          (((original.drop start).take length).length + size) := by
      rw [front, whole]
    _ = (original.drop start).take length ++ received.take size := by
      rw [List.take_length_add_append, List.take_append_of_le_length within]

/-- Bytes that are read where the current text ends continue it. -/
theorem continuesAt_of_behind
    {place : Pointer}
    (behind : data.current.behind = some place) : data.ContinuesAt place := by
  intro received buffers stored size within
  rw [Text.behind] at behind
  obtain ⟨start, isStart, rfl⟩ := Option.map_eq_some_iff.mp behind
  rw [store] at stored
  split at stored
  · next fits =>
      cases stored
      dsimp only at fits
      have inside :
          start.offset + data.current.size ≤
            (data.buffers.getD start.buffer []).length := by
        omega
      have wholeText :
          (((data.buffers.getD start.buffer []).drop start.offset).take
            data.current.size).length = data.current.size := by
        rw [List.length_take, List.length_drop]
        omega
      refine ⟨{ data := some start, size := data.current.size + size },
        ((data.buffers.getD start.buffer []).drop start.offset).take
          data.current.size, ?_, ?_, ?_⟩
      · rw [Text.append, isStart]
        dsimp only
        rw [check_pos ⟨rfl, rfl⟩, ok_bind]
        rfl
      · rw [Text.bytes, isStart]
        exact if_pos wholeText
      · have isBuffer (bytes : Bytes)
            (nothing : data.buffers.length ≤ start.buffer → bytes = []) :
            (data.buffers.set start.buffer bytes).getD start.buffer [] =
              bytes := by
          by_cases known : start.buffer < data.buffers.length
          · simp [known]
          · rw [nothing (Nat.le_of_not_lt known)]
            simp [known]
        rw [Text.bytes]
        dsimp only
        rw [load, isBuffer, part_of_stored _ inside within]
        · refine if_pos ?_
          rw [List.length_append, wholeText, List.length_take,
            Nat.min_eq_left within]
        · intro beyond
          rw [List.getD_eq_default _ _ beyond] at fits ⊢
          have noBytes : received = [] :=
            List.eq_nil_of_length_eq_zero
              (by rw [List.length_nil] at fits; omega)
          simp [noBytes]
  · cases stored

/-!
## Moves
-/

/--
Where the loop moves a header it keeps it exactly if the bytes collected of it
are as many as those parsed.
-/
theorem keeps_iff
    (housed : Housed config curbuf nparsed data)
    (moves : MovesHeader config memory data curbuf) :
    HeaderMove.Keeps config memory
        { nparsed := nparsed, data := data, curbuf := curbuf } ↔
      data.collected = nparsed := by
  obtain ⟨field, fresh, between, isField, allocated, switches⟩ :=
    switchBuf_of_moves nparsed moves
  have isBetween := (allocateHeadersBuf_eq_some allocated).2
  have behind {later : HeaderData}
      (moved : moveHeader nparsed field fresh.data between = .ok later) :
      later.current.behind =
        some
          { fresh.data with
            offset := fresh.data.offset + data.collected } := by
    obtain ⟨-, -, -, laterField, laterValue⟩ := moveHeader_eq_ok moved
    apply behind_of_moved isField
    · rw [laterField, isBetween]
    · rw [laterValue, isBetween]
  constructor
  · rintro ⟨later, newBuf, next, switched, rfl, -, -, ends, -⟩
    rw [switches] at switched
    rcases moved : moveHeader nparsed field fresh.data between with
      fault | done
    · rw [moved] at switched
      cases switched
    · rw [moved] at switched
      cases switched
      rw [behind moved] at ends
      have sameOffset := congrArg Pointer.offset (Option.some.inj ends)
      exact Nat.add_left_cancel sameOffset
  · intro collected
    obtain ⟨later, moved, sameField, sameValue⟩ :=
      moveHeader_of_collected housed isField allocated collected
    have ends := behind moved
    rw [collected] at ends
    refine ⟨later, fresh, _, ?_, rfl, sameField, sameValue, ends,
      continuesAt_of_behind ends⟩
    rw [switches, moved]
    rfl

/-- Behind what has been parsed the next read has the rest of the buffer. -/
theorem Housed.advance
    (housed : Housed config curbuf nparsed data) :
    Housed config
      { data := { curbuf.data with offset := curbuf.data.offset + nparsed }
        size := curbuf.size - nparsed }
      0 data where
  lengths := housed.lengths
  current := housed.current
  room := by
    have room := housed.room
    have inside := housed.inside
    dsimp only
    omega
  inside := Nat.zero_le _
  field := housed.field
  value := housed.value

/-- A header that has been copied whole is housed in the new buffer. -/
theorem Housed.moved
    {field : Pointer} {between : HeaderData}
    (housed : Housed config curbuf nparsed data)
    (isField : data.cheaderField.data = some field)
    (allocated :
      allocateHeadersBuf config memory data = (some newBuf, between))
    (moved : moveHeader nparsed field newBuf.data between = .ok later)
    (collected : data.collected = nparsed) :
    Housed config
      { data := { newBuf.data with offset := newBuf.data.offset + nparsed }
        size := newBuf.size - nparsed }
      0 later := by
  have room := housed.room
  have inside := housed.inside
  obtain ⟨rfl, isBetween⟩ := allocateHeadersBuf_eq_some allocated
  obtain ⟨copied, -, stored, laterField, laterValue⟩ :=
    moveHeader_eq_ok moved
  have count := length_of_moveHeader moved
  rw [isBetween] at stored laterField laterValue count
  rw [HeaderData.collected, isField] at collected
  exact
    { lengths := by
        apply lengths_of_store stored
        intro buffer member
        rcases List.mem_append.mp member with before | isNew
        · exact housed.lengths buffer before
        · rw [List.mem_singleton.mp isNew, stale, List.length_map,
            List.length_range]
      current := by
        rw [count, List.length_append, List.length_singleton]
        exact Nat.lt_succ_self _
      room := by
        dsimp only
        omega
      inside := Nat.zero_le _
      field := fun start isStart => by
        rw [laterField] at isStart ⊢
        cases isStart
        refine ⟨rfl, ?_⟩
        dsimp only
        cases isValue : data.cheaderValue.data with
        | none =>
            rw [isValue] at collected
            dsimp only at collected
            omega
        | some value =>
            have behind := (housed.value field value isField isValue).2.1
            rw [isValue] at collected
            dsimp only at collected
            omega
      value := fun start first isStart isFirst => by
        rw [laterField] at isStart ⊢
        rw [laterValue] at isFirst ⊢
        cases isStart
        obtain ⟨value, isValue, rfl⟩ := Option.map_eq_some_iff.mp isFirst
        obtain ⟨-, behind, -⟩ := housed.value field value isField isValue
        rw [isValue] at collected
        dsimp only at collected ⊢
        exact ⟨rfl, by omega, by omega⟩ }

/-- A round leaves texts housed if what it moves has been copied whole. -/
theorem Housed.round
    {http : HttpParser σ} {reading next : Reading σ}
    (inOrder : http.ReportsInOrder)
    (housed : Housed config reading.curbuf 0 reading.data)
    (round : headRound http config memory reading = some next)
    (collected :
      ∀ move ∈ headerMove http config memory reading,
        move.data.collected = move.nparsed) :
    Housed config next.curbuf 0 next.data := by
  obtain ⟨call, switchedBuf, called, within, proceeds, switched, isNext⟩ :=
    headRound_eq_some round
  have calls := housed.called inOrder called proceeds
  rcases switchBuf_cases switched with
    ⟨sameData, rfl⟩ | ⟨moves, field, between, isField, allocated, moved⟩
  · rw [isNext, sameData]
    exact calls.advance
  · rw [isNext]
    refine calls.moved isField allocated moved ?_
    refine
      collected
        { nparsed := call.nparsed
          data := call.data
          curbuf := reading.curbuf } ?_
    rw [headerMove, called]
    exact if_pos ⟨within, proceeds, moves⟩

end Switching

/-- The moves of `dfk__http_request_read_headers`. -/
def headerMoves (http : HttpParser σ) (config : Config)
    (memory : Nat → Nat → UInt8) (fuel : Nat) (world : World) :
    List HeaderMove :=
  (readings http config memory fuel world).filterMap
    (headerMove http config memory)

/-- A round moves a header only where the texts are housed. -/
theorem headerMove_keeps_iff
    {http : HttpParser σ} {config : Config} {memory : Nat → Nat → UInt8}
    {reading : Reading σ} {move : HeaderMove}
    (inOrder : http.ReportsInOrder)
    (housed : Housed config reading.curbuf 0 reading.data)
    (moves : headerMove http config memory reading = some move) :
    move.Keeps config memory ↔ move.data.collected = move.nparsed := by
  rw [headerMove] at moves
  split at moves
  · cases moves
  · next call called =>
      split at moves
      · next conditions =>
          obtain ⟨within, proceeds, movesHeader⟩ := conditions
          cases moves
          exact keeps_iff (housed.called inOrder called proceeds) movesHeader
      · cases moves

/-- What holds of all that is found holds of what is found first. -/
theorem forall_mem_filterMap_cons
    {α β : Type} {holds : β → Prop} (find : α → Option β) (first : α)
    (rest : List α) :
    (∀ found ∈ (first :: rest).filterMap find, holds found) ↔
      (∀ found ∈ find first, holds found) ∧
        ∀ found ∈ rest.filterMap find, holds found := by
  rw [List.filterMap_cons]
  cases find first with
  | none =>
      simp
  | some found =>
      simp

/-- The rounds from a state on keep headers if they copy them whole. -/
theorem readingsFrom_keep_iff
    {http : HttpParser σ} {config : Config} {memory : Nat → Nat → UInt8}
    (inOrder : http.ReportsInOrder) (fuel : Nat) :
    ∀ {reading : Reading σ},
      Housed config reading.curbuf 0 reading.data →
        ((∀ move ∈ (readingsFrom http config memory fuel reading).filterMap
              (headerMove http config memory),
            move.Keeps config memory) ↔
          ∀ move ∈ (readingsFrom http config memory fuel reading).filterMap
              (headerMove http config memory),
            move.data.collected = move.nparsed) := by
  induction fuel with
  | zero =>
      intro reading housed
      simp [readingsFrom]
  | succ fuel inductionHypothesis =>
      intro reading housed
      have first :
          (∀ move ∈ headerMove http config memory reading,
              move.Keeps config memory) ↔
            ∀ move ∈ headerMove http config memory reading,
              move.data.collected = move.nparsed :=
        forall₂_congr fun move moves =>
          headerMove_keeps_iff inOrder housed moves
      rw [readingsFrom, forall_mem_filterMap_cons, forall_mem_filterMap_cons,
        first]
      -- up to the first header that is not copied whole texts are housed
      apply and_congr_right
      intro collected
      cases round : headRound http config memory reading with
      | none =>
          simp
      | some next =>
          exact inductionHypothesis (housed.round inOrder round collected)

/-- The first buffer houses no texts yet. -/
theorem housed_start
    {config : Config} {memory : Nat → Nat → UInt8} {curbuf : CurBuf}
    {data : HeaderData} {allocations : List Bool}
    (allocated :
      allocateHeadersBuf config memory (noHeaders allocations) =
        (some curbuf, data)) :
    Housed config curbuf 0 data := by
  obtain ⟨rfl, isData⟩ := allocateHeadersBuf_eq_some allocated
  rw [isData]
  exact
    { lengths := fun buffer member => by
        rw [List.mem_singleton.mp member, stale, List.length_map,
          List.length_range]
      current := Nat.zero_lt_one
      room := Nat.le_of_eq (Nat.zero_add _)
      inside := Nat.zero_le _
      field := nofun
      value := nofun }

/--
`dfk__http_request_read_headers` keeps the headers it moves exactly if, each
time, the bytes collected of the header are as many as it has just parsed.
-/
theorem header_moves_iff
    {http : HttpParser σ} (inOrder : http.ReportsInOrder) (config : Config)
    (memory : Nat → Nat → UInt8) (fuel : Nat) (world : World) :
    (∀ move ∈ headerMoves http config memory fuel world,
        move.Keeps config memory) ↔
      ∀ move ∈ headerMoves http config memory fuel world,
        move.data.collected = move.nparsed := by
  rw [headerMoves, readings]
  rcases allocated :
      allocateHeadersBuf config memory (noHeaders world.allocations) with
    ⟨_ | curbuf, data⟩
  · simp
  · exact readingsFrom_keep_iff inOrder fuel (housed_start allocated)

/-- A head that is not at its end when the buffer is full. -/
def cutHead : Bytes :=
  ascii "GET / HTTP/1.1\r\nHost: 0123456789.0123456789.012345\r\nAccept-Langu"

/-- How the parser calls back on it. -/
def cutCallbacks : List Callback :=
  [.messageBegin, .url ⟨4, 1⟩, .headerField ⟨16, 4⟩, .headerValue ⟨22, 28⟩,
    .headerField ⟨52, 12⟩]

/-- Buffers of 64 bytes. -/
def twoBuffers : Config where
  keepaliveRequests := -1
  headerMaxSize := 32
  headersBufferSize := 64
  headersBufferCount := 2

/-- The head is cut in a name, of which there are fewer bytes than parsed. -/
theorem header_moves_iff_cut :
    (∀ move ∈ headerMoves (oneHead cutHead cutCallbacks 0) twoBuffers
          (fun _ _ => 0) 1 (sending cutHead []),
        move.Keeps twoBuffers (fun _ _ => 0)) ↔
      ∀ move ∈ headerMoves (oneHead cutHead cutCallbacks 0) twoBuffers
          (fun _ _ => 0) 1 (sending cutHead []),
        move.data.collected = move.nparsed :=
  header_moves_iff (oneHead_reportsInOrder 0 (by decide)) twoBuffers
    (fun _ _ => 0) 1 (sending cutHead [])

/--
Of the second header 12 bytes have been collected at the end of a buffer, and
64 bytes are copied from there.
-/
theorem cut_header_lost :
    (∃ move ∈ headerMoves (oneHead cutHead cutCallbacks 0) twoBuffers
          (fun _ _ => 0) 1 (sending cutHead []),
        move.data.collected = 12 ∧ move.nparsed = 64 ∧
          ¬ move.Keeps twoBuffers (fun _ _ => 0)) ∧
      readHeaders (oneHead cutHead cutCallbacks 0) twoBuffers (fun _ _ => 0)
          1 (sending cutHead []) =
        .error .outOfBounds := by
  constructor
  · have moves :
        ∃ move ∈ headerMoves (oneHead cutHead cutCallbacks 0) twoBuffers
            (fun _ _ => 0) 1 (sending cutHead []),
          move.data.collected = 12 ∧ move.nparsed = 64 ∧
            switchBuf twoBuffers (fun _ _ => 0) move.nparsed move.data
                move.curbuf =
              .error .outOfBounds := by
      decide
    obtain ⟨move, member, collected, count, overrun⟩ := moves
    refine ⟨move, member, collected, count, ?_⟩
    rintro ⟨later, newBuf, next, switched, -⟩
    rw [overrun] at switched
    cases switched
  · decide

end Dfk.Http
