import Dfk.Http.ResponseStream
import Dfk.Library.Loops

/-!
# The contents of a file

`dfk_fileserver_handler` from the size of a file on.  The file does not change;
what is read of it is known by its place and by the size that is asked for.
-/

namespace Dfk.Middleware

open Http Loops

/-! ## The source -/

/-- The error codes of the handler. -/
inductive HandlerErr where
  | ok
  | sys
  deriving Repr, DecidableEq

/-- The variables of the loop, and what has been asked of the file. -/
structure Copying where
  /-- The position of `f` -/
  position : Nat
  towrite : Nat
  response : Response
  world : World
  reads : List (Nat × Nat)

/-- `fread`, of a regular file. -/
def fread (file : Bytes) (position toread : Nat) : Bytes :=
  (file.drop position).take toread

/-- One round of the loop that copies a file. -/
def copyRound (ioBufSize : Nat) (file : Bytes) (copying : Copying) :
    Except Fault (Outcome Copying (HandlerErr × Copying)) :=
  if copying.towrite = 0 then .ok (.stop (.ok, copying))
  else
    let toread := min ioBufSize copying.towrite
    let buffer := fread file copying.position toread
    let reads := copying.reads ++ [(copying.position, toread)]
    let position := copying.position + buffer.length
    if buffer.length < toread then
      .ok (.stop (.sys, { copying with position, reads }))
    else do
      let (nwritten, response, world) ←
        responseWrite copying.response copying.world buffer
      let copying := { copying with position, reads, response, world }
      -- `dfk_errno` is set by the socket, to `dfk_err_sys`
      if nwritten < 0 then pure (.stop (.sys, copying))
      else do
        check (nwritten ≤ copying.towrite)
        let towrite := copying.towrite - nwritten.toNat
        pure (.next { copying with towrite })

/-- The size of the file is announced, and all of it is to be written. -/
def copyStart (file : Bytes) (response : Response) (world : World) :
    Copying where
  position := 0
  towrite := file.length
  response := { response with contentLength := file.length }
  world := world
  reads := []

/-- The answer if a file cannot be opened, or there is no memory for it. -/
def refuseFile (copying : Copying) : HandlerErr × Copying :=
  let response :=
    { copying.response with status := internalServerError }
  (.ok, { copying with response })

/-- What the handler does with a file that can be opened or not. -/
def sendFile (ioBufSize fuel : Nat) (opens : Bool) (file : Bytes)
    (response : Response) (world : World) :
    Except Fault (HandlerErr × Copying) :=
  if ¬ opens then .ok (refuseFile (copyStart file response world))
  else
    match world.alloc with
    | (false, world) => .ok (refuseFile (copyStart file response world))
    | (true, world) =>
        iterate (copyRound ioBufSize file) .outOfFuel fuel
          (copyStart file response world)

/-- Where a file is opened and there is memory for a buffer it is copied. -/
theorem sendFile_of_alloc
    {ioBufSize fuel : Nat} {file : Bytes} {response : Response}
    {world later : World} (allocated : world.alloc = (true, later)) :
    sendFile ioBufSize fuel true file response world =
      iterate (copyRound ioBufSize file) .outOfFuel fuel
        (copyStart file response later) := by
  rw [sendFile, if_neg (not_not_intro rfl), allocated]

/-! ## What is reported -/

/-- Parts of a file, so many of them of one size. -/
def parts (size : Nat) : Nat → Bytes → List Bytes
  | 0, _ => []
  | count + 1, file => file.take size :: parts size count (file.drop size)

/-- How many parts a file has. -/
def partCount (size length : Nat) : Nat :=
  (length + size - 1) / size

/-- What `dfk_http_response_write` reports for one part after the other. -/
def reports : Response → World → List Bytes → Except Fault (List Int)
  | _, _, [] => .ok []
  | response, world, buf :: bufs => do
      let (nwritten, response, world) ← responseWrite response world buf
      let others ← reports response world bufs
      pure (nwritten :: others)

/-- The write of a part as large as the buffer fails. -/
def FailsBefore (size length : Nat) (answers : List Int) : Prop :=
  ∃ i < length / size, ∃ answer ∈ answers[i]?, answer < 0

/-- No write of a part is short. -/
def NoneShort (parts : List Bytes) (answers : List Int) : Prop :=
  ∀ written ∈ parts.zip answers,
    0 ≤ written.2 → written.2 = written.1.length

/-- The body that the client receives behind the head. -/
def Receives (response : Response) (world : World) (body : Bytes)
    (later : World) : Prop :=
  if body = [] then later.output = world.output
  else
    ∃ headed served,
      flushHeaders response world = .ok (headed, served) ∧
        later.output = served.output ++ body

/--
The loop ends, asks for nothing behind the end of the file, and if it ends
without an error the client receives the file.
-/
def SendsAll (ioBufSize fuel : Nat) (file : Bytes) (copying : Copying)
    (body : Bytes) : Prop :=
  ∃ err last,
    iterate (copyRound ioBufSize file) .outOfFuel fuel copying =
        .ok (err, last) ∧
      (∀ read ∈ last.reads, read.1 + read.2 ≤ file.length) ∧
      (err = .ok →
        Receives copying.response copying.world body last.world ∧
          last.response.contentLength = copying.response.contentLength)

/-! ## Writes -/

section Writes

variable {response headed : Response} {world served later : World}
variable {buf : Bytes} {nwritten : Int}

/-- After a flush the head is out, with the length that was announced. -/
theorem flushHeaders_result
    (flushes : flushHeaders response world = .ok (headed, served)) :
    headed.headersFlushed = true ∧
      headed.contentLength = response.contentLength := by
  rw [flushHeaders] at flushes
  by_cases flushed : response.headersFlushed = true
  · rw [if_pos flushed] at flushes
    cases flushes
    exact ⟨flushed, rfl⟩
  · rw [if_neg flushed] at flushes
    obtain ⟨⟨added, world'⟩, adds, flushes⟩ := of_bind flushes
    have same : added.contentLength = response.contentLength := by
      rw [addContentLength, storeItem] at adds
      by_cases announces :
          response.contentLength ≠ noLength ∧
            response.headers.get contentLengthName = none
      · rw [if_pos announces] at adds
        rcases allocations : allocEach 2 world with ⟨_ | _, allocated⟩
        · rw [allocations] at adds
          cases adds
        · rw [allocations] at adds
          cases adds
          rfl
      · rw [if_neg announces] at adds
        cases adds
        rfl
    dsimp only at flushes
    rcases alloc : world'.alloc with ⟨_ | _, allocated⟩
    · rw [alloc] at flushes
      obtain ⟨written, -, flushes⟩ := of_bind flushes
      cases flushes
      exact ⟨rfl, same⟩
    · rw [alloc] at flushes
      obtain ⟨iov, -, flushes⟩ := of_bind flushes
      obtain ⟨written, -, flushes⟩ := of_bind flushes
      cases flushes
      exact ⟨rfl, same⟩

/-- A write puts the head on the socket first, and then a part of the bytes. -/
theorem responseWrite_result
    (written :
      responseWrite response world buf = .ok (nwritten, headed, later)) :
    ∃ served,
      flushHeaders response world = .ok (headed, served) ∧
        later.output = served.output ++ buf.take nwritten.toNat ∧
        nwritten ≤ buf.length := by
  rw [responseWrite] at written
  obtain ⟨-, -, written⟩ := of_bind written
  obtain ⟨served, flushes, writes⟩ := responseWritev_inv written
  refine ⟨served, flushes, ?_⟩
  have steady : served.Steady [buf] := by
    by_cases whole : (served.takes buf.length).1 = some buf.length
    · exact Or.inr ⟨whole, trivial⟩
    · refine Or.inl fun other isHead => ?_
      cases isHead
      exact whole
  have truthful := tcpSocketWritev_truthful steady writes
  rw [List.flatten_singleton] at truthful
  exact truthful

theorem receives_nil (response : Response) (world : World) :
    Receives response world [] world := by
  rw [Receives, if_pos rfl]

/-- What is received in two parts. -/
theorem receives_append_iff
    {first second : Bytes} {last : World}
    (flushes : flushHeaders response world = .ok (headed, served))
    (output : later.output = served.output ++ first)
    (notEmpty : first ≠ []) :
    Receives response world (first ++ second) last ↔
      Receives headed later second last := by
  have flushed :=
    flushHeaders_of_flushed (flushHeaders_result flushes).1 later
  have whole :
      Receives response world (first ++ second) last ↔
        last.output = served.output ++ (first ++ second) := by
    rw [Receives, if_neg (List.append_ne_nil_of_left_ne_nil notEmpty _)]
    constructor
    · rintro ⟨headed', served', flushes', output'⟩
      rw [flushes] at flushes'
      cases flushes'
      exact output'
    · exact fun output' => ⟨headed, served, flushes, output'⟩
  rw [whole, ← List.append_assoc, ← output, Receives]
  by_cases isEnd : second = []
  · rw [if_pos isEnd, isEnd, List.append_nil]
  · rw [if_neg isEnd]
    constructor
    · exact fun output' => ⟨headed, later, flushed, output'⟩
    · rintro ⟨headed', served', flushes', output'⟩
      rw [flushed] at flushes'
      cases flushes'
      exact output'

end Writes

/-! ## Rounds -/

section Rounds

variable {size fuel length : Nat} {file : Bytes} {copying : Copying}
variable {answers others : List Int} {nwritten : Int}

theorem partCount_pos (sizeSome : 0 < size) (some : 0 < length) :
    partCount size length = partCount size (length - size) + 1 := by
  rw [partCount, partCount]
  rcases Nat.lt_or_ge length size with short | long
  · rw [Nat.sub_eq_zero_of_le short.le, Nat.zero_add,
      Nat.div_eq_of_lt (Nat.sub_lt sizeSome Nat.one_pos)]
    have split : length + size - 1 = size + (length - 1) := by omega
    rw [split, Nat.add_div_left _ sizeSome, Nat.div_eq_of_lt (by omega)]
  · have split : length + size - 1 = length - size + size - 1 + size := by
      omega
    rw [split, Nat.add_div_right _ sizeSome]

theorem partCount_zero (sizeSome : 0 < size) : partCount size 0 = 0 := by
  rw [partCount, Nat.zero_add]
  exact Nat.div_eq_of_lt (Nat.sub_lt sizeSome Nat.one_pos)

/-- A write that has not failed leaves the failures behind it. -/
theorem failsBefore_cons_iff
    (sizeSome : 0 < size) (accepted : 0 ≤ nwritten) :
    FailsBefore size length (nwritten :: others) ↔
      FailsBefore size (length - size) others := by
  have bounds (i : Nat) :
      i + 1 < length / size ↔ i < (length - size) / size := by
    rcases Nat.lt_or_ge length size with short | long
    · rw [Nat.div_eq_of_lt short, Nat.sub_eq_zero_of_le short.le,
        Nat.zero_div]
      exact iff_of_false (Nat.not_lt_zero _) (Nat.not_lt_zero _)
    · rw [Nat.div_eq_sub_div sizeSome long]
      exact Nat.succ_lt_succ_iff
  constructor
  · rintro ⟨_ | i, inside, answer, isAnswer, negative⟩
    · cases isAnswer
      exact absurd negative (Int.not_lt.mpr accepted)
    · exact ⟨i, (bounds i).mp inside, answer, isAnswer, negative⟩
  · rintro ⟨i, inside, answer, isAnswer, negative⟩
    exact ⟨i + 1, (bounds i).mpr inside, answer, isAnswer, negative⟩

/-- What is reported for the first part, and for the others. -/
theorem reports_cons
    {response : Response} {world : World} {buf : Bytes} {bufs : List Bytes}
    (reported : reports response world (buf :: bufs) = .ok answers) :
    ∃ nwritten headed later others,
      responseWrite response world buf = .ok (nwritten, headed, later) ∧
        reports headed later bufs = .ok others ∧
        answers = nwritten :: others := by
  rw [reports] at reported
  obtain ⟨⟨nwritten, headed, later⟩, writes, reported⟩ := of_bind reported
  obtain ⟨others, reports', reported⟩ := of_bind reported
  cases reported
  exact ⟨nwritten, headed, later, others, writes, reports', rfl⟩

/-- A round that asks for more than there is ends the loop. -/
theorem copyRound_beyond
    (left : copying.towrite ≠ 0)
    (beyond :
      (file.drop copying.position).length < min size copying.towrite) :
    copyRound size file copying =
      .ok (.stop (.sys,
        { copying with
          position :=
            copying.position + (file.drop copying.position).length
          reads :=
            copying.reads ++
              [(copying.position, min size copying.towrite)] })) := by
  have whole :
      fread file copying.position (min size copying.towrite) =
        file.drop copying.position :=
    List.take_of_length_le beyond.le
  rw [copyRound, if_neg left]
  dsimp only
  rw [whole, if_pos beyond]

/-- A round that finds what it asks for writes it. -/
theorem copyRound_writes
    {headed : Response} {later : World}
    (left : copying.towrite ≠ 0)
    (inside :
      min size copying.towrite ≤ (file.drop copying.position).length)
    (writes :
      responseWrite copying.response copying.world
          ((file.drop copying.position).take (min size copying.towrite)) =
        .ok (nwritten, headed, later)) :
    copyRound size file copying =
      .ok (
        let copying :=
          { copying with
            position := copying.position + min size copying.towrite
            reads :=
              copying.reads ++
                [(copying.position, min size copying.towrite)]
            response := headed
            world := later }
        if nwritten < 0 then .stop (.sys, copying)
        else
          let towrite := copying.towrite - nwritten.toNat
          .next { copying with towrite }) := by
  have asked :
      (fread file copying.position (min size copying.towrite)).length =
        min size copying.towrite := by
    rw [fread, List.length_take]
    exact Nat.min_eq_left inside
  obtain ⟨-, -, -, atMost⟩ := responseWrite_result writes
  rw [← fread, asked] at atMost
  have fits : nwritten ≤ copying.towrite :=
    atMost.trans (Int.ofNat_le.mpr (Nat.min_le_right _ _))
  rw [copyRound, if_neg left]
  dsimp only
  rw [asked, if_neg (Nat.lt_irrefl _), fread, writes, ok_bind]
  dsimp only
  by_cases fails : nwritten < 0
  · rw [if_pos fails, if_pos fails]
    rfl
  · rw [if_neg fails, if_neg fails, check_pos fits]
    rfl

/-- Nothing has been asked for behind the end of the file. -/
def Inside (file : Bytes) (copying : Copying) : Prop :=
  ∀ read ∈ copying.reads, read.1 + read.2 ≤ file.length

/-- Where the loop is, with the bytes of the file that are left. -/
structure Stands (size count : Nat) (file : Bytes) (copying : Copying)
    (answers : List Int) (left : Bytes) : Prop where
  remains : left = file.drop copying.position
  position : copying.position ≤ file.length
  counted : count = partCount size left.length
  reported :
    reports copying.response copying.world (parts size count left) =
      .ok answers
  inside : Inside file copying

/-- One read more that the file has the bytes for. -/
theorem Stands.read
    {count toread : Nat} {left : Bytes} {last : Copying}
    (stands : Stands size count file copying answers left)
    (fits : toread ≤ left.length)
    (reads : last.reads = copying.reads ++ [(copying.position, toread)]) :
    Inside file last := by
  intro read member
  rw [reads] at member
  rcases List.mem_append.mp member with earlier | isLast
  · exact stands.inside read earlier
  · rw [List.mem_singleton.mp isLast]
    have long := fits
    rw [stands.remains, List.length_drop] at long
    have position := stands.position
    dsimp only
    omega

/-- Behind a part that has been read and written, however short. -/
theorem Stands.next
    {count toread : Nat} {left : Bytes} {next : Copying}
    (stands : Stands size (count + 1) file copying answers left)
    (sizeSome : 0 < size) (some : left ≠ [])
    (fits : toread = min size left.length)
    (position : next.position = copying.position + toread)
    (reads : next.reads = copying.reads ++ [(copying.position, toread)])
    (reported :
      reports next.response next.world (parts size count (left.drop size)) =
        .ok others) :
    Stands size count file next others (left.drop size) := by
  have long := congrArg List.length stands.remains
  rw [List.length_drop] at long
  have bounded := stands.position
  refine ⟨?_, ?_, ?_, reported, ?_⟩
  · rw [position, stands.remains, List.drop_drop]
    rcases Nat.le_total size left.length with within | beyond
    · rw [fits, Nat.min_eq_left within]
    · rw [fits, Nat.min_eq_right beyond, List.drop_eq_nil_of_le (by omega),
        List.drop_eq_nil_of_le (by omega)]
  · rw [position, fits]
    have smaller := Nat.min_le_right size left.length
    omega
  · have counts := stands.counted
    rw [partCount_pos sizeSome (List.length_pos_iff.mpr some)] at counts
    rw [List.length_drop]
    exact Nat.succ.inj counts
  · apply stands.read _ reads
    rw [fits]
    exact Nat.min_le_right _ _

/-- A round that finds what it asks for: the write fails, or it goes on. -/
theorem Stands.round
    {count : Nat} {left : Bytes}
    (stands : Stands size (count + 1) file copying answers left)
    (sizeSome : 0 < size) (some : left ≠ [])
    (asks : min size copying.towrite = min size left.length) :
    ∃ nwritten headed later others,
      answers = nwritten :: others ∧
        responseWrite copying.response copying.world (left.take size) =
          .ok (nwritten, headed, later) ∧
        ((nwritten < 0 ∧
            ∃ last,
              copyRound size file copying = .ok (.stop (.sys, last)) ∧
                Inside file last) ∨
          0 ≤ nwritten ∧
            ∃ next,
              Goes (copyRound size file) copying next ∧
                Stands size count file next others (left.drop size) ∧
                next.towrite = copying.towrite - nwritten.toNat ∧
                next.response = headed ∧ next.world = later) := by
  obtain ⟨nwritten, headed, later, others, writes, reported, isAnswers⟩ :=
    reports_cons stands.reported
  refine ⟨nwritten, headed, later, others, isAnswers, writes, ?_⟩
  have positive : 0 < min size left.length :=
    Nat.lt_min.mpr ⟨sizeSome, List.length_pos_iff.mpr some⟩
  have towrite : copying.towrite ≠ 0 := by
    intro nothing
    rw [nothing, Nat.min_zero] at asks
    exact Nat.ne_of_lt positive asks
  have fits : min size copying.towrite ≤ left.length := by
    rw [asks]
    exact Nat.min_le_right _ _
  have found :
      (file.drop copying.position).take (min size copying.towrite) =
        left.take size := by
    rw [← stands.remains, asks, ← List.take_take, List.take_length]
  rw [← found] at writes
  have rounds := copyRound_writes towrite
    (by rw [← stands.remains]; exact fits) writes
  by_cases fails : nwritten < 0
  · left
    rw [if_pos fails] at rounds
    exact ⟨fails, _, rounds, stands.read fits rfl⟩
  · right
    rw [if_neg fails] at rounds
    exact ⟨Int.not_lt.mp fails, _, rounds,
      stands.next sizeSome some asks rfl rfl reported, rfl, rfl, rfl⟩

/-- A short rest of a file is not enough for what is still to be written. -/
theorem iterate_beyond
    {count : Nat} {left : Bytes}
    (stands : Stands size count file copying answers left)
    (short : left.length < size) (lags : left.length < copying.towrite) :
    ∃ last,
      iterate (copyRound size file) .outOfFuel (fuel + 1) copying =
          .ok (.sys, last) ∧
        (Inside file last ↔ FailsBefore size left.length answers) := by
  have beyond :
      (file.drop copying.position).length < min size copying.towrite := by
    rw [← stands.remains]
    exact Nat.lt_min.mpr ⟨short, lags⟩
  have stops := copyRound_beyond (Nat.ne_zero_of_lt lags) beyond
  refine ⟨_, iterate_of_stop stops, iff_of_false ?_ ?_⟩
  · intro inside
    have isLast :=
      inside _ (List.mem_append_right _ (List.mem_singleton_self _))
    have long := beyond
    rw [List.length_drop] at long
    have bounded := stands.position
    dsimp only at isLast
    omega
  · rintro ⟨i, before, -⟩
    rw [Nat.div_eq_of_lt short] at before
    exact Nat.not_lt_zero _ before

/--
Where more is to be written than there is left, the loop ends with an error;
only if a write fails early it asks for nothing behind the end.
-/
theorem iterate_lagging
    (sizeSome : 0 < size) (count : Nat) :
    ∀ {copying : Copying} {answers : List Int} {left : Bytes} {fuel : Nat},
      Stands size count file copying answers left →
        left.length < copying.towrite → count < fuel →
          ∃ last,
            iterate (copyRound size file) .outOfFuel fuel copying =
                .ok (.sys, last) ∧
              (Inside file last ↔ FailsBefore size left.length answers) := by
  induction count with
  | zero =>
      intro copying answers left fuel stands lags enough
      obtain ⟨fuel, rfl⟩ := Nat.exists_eq_add_of_lt enough
      apply iterate_beyond stands _ lags
      apply Nat.lt_of_not_le
      intro long
      have counts := stands.counted
      rw [partCount_pos sizeSome (sizeSome.trans_le long)] at counts
      cases counts
  | succ count inductionHypothesis =>
      intro copying answers left fuel stands lags enough
      obtain ⟨fuel, rfl⟩ := Nat.exists_eq_add_of_lt enough
      rcases Nat.lt_or_ge left.length size with short | long
      · exact iterate_beyond stands short lags
      · have some : left ≠ [] :=
          List.length_pos_iff.mp (sizeSome.trans_le long)
        have asks : min size copying.towrite = min size left.length := by
          rw [Nat.min_eq_left (long.trans lags.le), Nat.min_eq_left long]
        obtain ⟨nwritten, headed, later, others, rfl, writes,
          ⟨fails, last, stops, inside⟩ |
            ⟨accepted, next, goes, stands', towrite, -, -⟩⟩ :=
          stands.round sizeSome some asks
        · refine ⟨last, iterate_of_stop stops, iff_of_true inside ?_⟩
          exact ⟨0, Nat.div_pos long sizeSome, nwritten, rfl, fails⟩
        · rw [iterate_of_goes goes, failsBefore_cons_iff sizeSome accepted,
            ← List.length_drop]
          apply inductionHypothesis stands' _ (by omega)
          obtain ⟨-, -, -, atMost⟩ := responseWrite_result writes
          rw [List.length_take_of_le long] at atMost
          rw [towrite, List.length_drop]
          omega

/-- The first part is taken whole, or it was not written. -/
theorem noneShort_cons_iff {buf : Bytes} {bufs : List Bytes} :
    NoneShort (buf :: bufs) (nwritten :: others) ↔
      (0 ≤ nwritten → nwritten = buf.length) ∧ NoneShort bufs others := by
  rw [NoneShort, List.zip_cons_cons, List.forall_mem_cons]
  rfl

/-- A part that is taken whole leaves the others to be sent. -/
theorem sendsAll_next_iff
    {left : Bytes} {next : Copying}
    (sizeSome : 0 < size) (some : left ≠ [])
    (goes : Goes (copyRound size file) copying next)
    (writes :
      responseWrite copying.response copying.world (left.take size) =
        .ok ((left.take size).length, next.response, next.world)) :
    SendsAll size (fuel + 1) file copying left ↔
      SendsAll size fuel file next (left.drop size) := by
  obtain ⟨served, flushes, output, -⟩ := responseWrite_result writes
  rw [Int.toNat_natCast, List.take_length] at output
  have notEmpty : left.take size ≠ [] := by
    intro nothing
    rcases List.take_eq_nil_iff.mp nothing with isZero | isEnd
    · exact sizeSome.ne' isZero
    · exact some isEnd
  have received (last : World) :
      Receives copying.response copying.world left last ↔
        Receives next.response next.world (left.drop size) last := by
    have split :
        Receives copying.response copying.world
            (left.take size ++ left.drop size) last ↔
          Receives next.response next.world (left.drop size) last :=
      receives_append_iff flushes output notEmpty
    rw [List.take_append_drop] at split
    exact split
  rw [SendsAll, SendsAll, iterate_of_goes goes,
    (flushHeaders_result flushes).2]
  simp only [received]

/--
Where as much is to be written as there is left, the loop sends it, if and only
if a write fails early or none is short.
-/
theorem sendsAll_iff
    (sizeSome : 0 < size) (count : Nat) :
    ∀ {copying : Copying} {answers : List Int} {left : Bytes} {fuel : Nat},
      Stands size count file copying answers left →
        copying.towrite = left.length → count < fuel →
          (SendsAll size fuel file copying left ↔
            FailsBefore size left.length answers ∨
              NoneShort (parts size count left) answers) := by
  induction count with
  | zero =>
      intro copying answers left fuel stands same enough
      obtain ⟨fuel, rfl⟩ := Nat.exists_eq_add_of_lt enough
      have isEnd : left = [] := by
        by_contra some
        have counts := stands.counted
        rw [partCount_pos sizeSome (List.length_pos_iff.mpr some)] at counts
        cases counts
      subst isEnd
      have stops : copyRound size file copying = .ok (.stop (.ok, copying)) :=
        if_pos same
      refine iff_of_true
        ⟨.ok, copying, iterate_of_stop stops, stands.inside, fun _ => ?_⟩ ?_
      · exact ⟨receives_nil _ _, rfl⟩
      · exact Or.inr fun written member => by cases member
  | succ count inductionHypothesis =>
      intro copying answers left fuel stands same enough
      obtain ⟨fuel, rfl⟩ := Nat.exists_eq_add_of_lt enough
      have some : left ≠ [] := by
        rintro rfl
        have counts := stands.counted
        rw [List.length_nil, partCount_zero sizeSome] at counts
        cases counts
      obtain ⟨nwritten, headed, later, others, rfl, writes,
        ⟨fails, last, stops, inside⟩ |
          ⟨accepted, next, goes, stands', towrite, rfl, rfl⟩⟩ :=
        stands.round sizeSome some (by rw [same])
      · refine iff_of_true
          ⟨.sys, last, iterate_of_stop stops, inside, fun isOk => ?_⟩ ?_
        · cases isOk
        · rcases Nat.lt_or_ge left.length size with short | long
          · right
            have counts := stands.counted
            rw [partCount_pos sizeSome (List.length_pos_iff.mpr some),
              Nat.sub_eq_zero_of_le short.le, partCount_zero sizeSome]
              at counts
            cases counts
            rw [parts, noneShort_cons_iff]
            refine ⟨fun accepted => absurd fails (Int.not_lt.mpr accepted), ?_⟩
            intro written member
            cases member
          · exact Or.inl ⟨0, Nat.div_pos long sizeSome, nwritten, rfl, fails⟩
      · rw [failsBefore_cons_iff sizeSome accepted, parts, noneShort_cons_iff,
          imp_iff_right accepted, ← List.length_drop]
        by_cases whole : nwritten = (left.take size).length
        · rw [and_iff_right whole]
          rw [whole] at writes towrite
          rw [sendsAll_next_iff sizeSome some goes writes]
          apply inductionHypothesis stands' _ (by omega)
          rw [towrite, same, Int.toNat_natCast, List.length_take,
            List.length_drop]
          omega
        · obtain ⟨-, -, -, atMost⟩ := responseWrite_result writes
          have lags : (left.drop size).length < next.towrite := by
            rw [List.length_take] at atMost whole
            rw [towrite, same, List.length_drop]
            have positive := List.length_pos_iff.mpr some
            omega
          have enough' : count < count + 1 + fuel := by omega
          obtain ⟨last, ends, inside_iff⟩ :=
            iterate_lagging sizeSome count stands' lags enough'
          rw [or_iff_left fun both => whole both.1, ← inside_iff, SendsAll,
            iterate_of_goes goes, ends]
          constructor
          · rintro ⟨err, last', isLast, inside, -⟩
            cases isLast
            exact inside
          · intro inside
            exact ⟨.sys, last, rfl, inside, fun isOk => by cases isOk⟩

end Rounds

/-! ## Files -/

theorem partCount_le {size length : Nat} (some : 0 < length) :
    partCount size length ≤ length := by
  rw [partCount]
  rcases size with _ | size
  · rw [Nat.div_zero]
    exact some.le
  · apply Nat.div_le_of_le_mul
    calc length + (size + 1) - 1
        = length + size * 1 := by omega
      _ ≤ length + size * length :=
          Nat.add_le_add_left (Nat.mul_le_mul_left size some) length
      _ = (size + 1) * length := by rw [Nat.succ_mul, Nat.add_comm]

/-- Without a buffer the first write is of no bytes. -/
theorem copyRound_without_buffer
    {file : Bytes} {copying : Copying} (towrite : copying.towrite ≠ 0) :
    copyRound 0 file copying = .error .assertion := by
  have nothing :
      fread file copying.position (min 0 copying.towrite) = [] := by
    rw [Nat.zero_min, fread, List.take_zero]
  rw [copyRound, if_neg towrite]
  dsimp only
  rw [nothing, Nat.zero_min, if_neg (Nat.not_lt_zero _)]
  rfl

/--
The contents of a file are sent, if and only if there are none, or there is a
buffer and no write is short, unless one of the writes of a whole buffer fails.
-/
theorem file_sent_iff
    (ioBufSize fuel : Nat) (file : Bytes) (response : Response)
    (world : World) {answers : List Int}
    (reported :
      reports { response with contentLength := file.length } world
          (parts ioBufSize (partCount ioBufSize file.length) file) =
        .ok answers)
    (enough : file.length + 1 < fuel) :
    SendsAll ioBufSize fuel file (copyStart file response world) file ↔
      file = [] ∨
        ioBufSize ≠ 0 ∧
          (FailsBefore ioBufSize file.length answers ∨
            NoneShort
              (parts ioBufSize (partCount ioBufSize file.length) file)
              answers) := by
  have noReads : Inside file (copyStart file response world) := by
    intro read member
    cases member
  by_cases isEmpty : file = []
  · refine iff_of_true ?_ (Or.inl isEmpty)
    obtain ⟨fuel, rfl⟩ := Nat.exists_eq_add_of_lt enough
    have stops :
        copyRound ioBufSize file (copyStart file response world) =
          .ok (.stop (.ok, copyStart file response world)) :=
      if_pos (by rw [copyStart, isEmpty]; rfl)
    refine ⟨.ok, _, iterate_of_stop stops, noReads, fun _ => ⟨?_, rfl⟩⟩
    rw [isEmpty]
    exact receives_nil _ _
  · rw [or_iff_right isEmpty]
    have positive := List.length_pos_iff.mpr isEmpty
    rcases Nat.eq_zero_or_pos ioBufSize with rfl | sizeSome
    · apply iff_of_false
      · rintro ⟨err, last, ends, -⟩
        obtain ⟨fuel, rfl⟩ := Nat.exists_eq_add_of_lt enough
        rw [iterate, copyRound_without_buffer positive.ne'] at ends
        cases ends
      · exact fun both => both.1 rfl
    · rw [and_iff_right sizeSome.ne']
      apply sendsAll_iff sizeSome (partCount ioBufSize file.length) _ rfl
      · exact (partCount_le positive).trans_lt (Nat.lt_of_succ_lt enough)
      · exact ⟨rfl, Nat.zero_le _, rfl, reported, noReads⟩

/-- A socket that takes everything. -/
def wholeWorld : World where
  input := []
  output := []
  reads := []
  writes := []
  waits := []
  allocations := []

theorem file_sent_iff_whole :
    SendsAll 2 5 (ascii "abc")
      (copyStart (ascii "abc") (Response.init 1 1 true) wholeWorld)
      (ascii "abc") := by
  have reported :
      reports { Response.init 1 1 true with contentLength := 3 } wholeWorld
        (parts 2 (partCount 2 3) (ascii "abc")) = .ok [2, 1] :=
    rfl
  apply (file_sent_iff 2 5 (ascii "abc") (Response.init 1 1 true) wholeWorld
    reported (by decide)).mpr
  refine Or.inr ⟨by decide, Or.inr ?_⟩
  intro written member _
  revert written
  decide

/-- A socket that takes the head, and one byte of what is written next. -/
def shortWorld : World where
  input := []
  output := []
  reads := []
  writes := List.replicate 6 (.move 99) ++ [.move 0]
  waits := []
  allocations := []

/-- Behind a short write the loop reads on behind the end of the file. -/
theorem short_write_reads_on :
    ∃ last,
      iterate (copyRound 4 (ascii "ab")) .outOfFuel 4
          (copyStart (ascii "ab") (Response.init 1 1 true) shortWorld) =
          .ok (.sys, last) ∧
        last.reads = [(0, 2), (2, 1)] ∧
        ¬ SendsAll 4 4 (ascii "ab")
          (copyStart (ascii "ab") (Response.init 1 1 true) shortWorld)
          (ascii "ab") := by
  have ends :
      ∃ last,
        iterate (copyRound 4 (ascii "ab")) .outOfFuel 4
          (copyStart (ascii "ab") (Response.init 1 1 true) shortWorld) =
          .ok (.sys, last) ∧
        last.reads = [(0, 2), (2, 1)] :=
    ⟨_, rfl, rfl⟩
  obtain ⟨last, ends, reads⟩ := ends
  refine ⟨last, ends, reads, ?_⟩
  rintro ⟨err, last', ends', inside, -⟩
  rw [ends] at ends'
  cases ends'
  rw [reads] at inside
  exact absurd (inside (2, 1) (by decide)) (by decide)

end Dfk.Middleware
