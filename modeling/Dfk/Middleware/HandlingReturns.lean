import Dfk.Http.ConnectionOutput
import Dfk.Http.HeadMemory
import Dfk.Middleware.Handling

/-!
# The file server gives back what it takes

`dfk_fileserver_handler` returns with memory for everything, whatever it finds
and however much the socket takes, and in any case it keeps nothing.
-/

namespace Dfk.Middleware

open Http Loops Ledger

variable {σ : Type}

/-! ## Writes return -/

section Writes

variable {response : Response} {world : World}

/-- Where all answers are positive the next one is. -/
theorem allocated_of_granted
    {allocations later : List Bool} {answer : Bool}
    (granted : Granted allocations)
    (next : World.next allocations = (answer, later)) :
    answer = true := by
  cases allocations with
  | nil =>
      cases next
      rfl
  | cons first allocations =>
      cases next
      exact granted answer List.mem_cons_self

/-- Memory that is there for all allocations is there for some. -/
theorem allocEach_granted (count : Nat) :
    ∀ {world : World},
      Granted world.allocations →
        (allocEach count world).1 = true ∧
          Granted (allocEach count world).2.allocations := by
  induction count with
  | zero =>
      intro world granted
      exact ⟨rfl, granted⟩
  | succ count inductionHypothesis =>
      intro world granted
      rcases once : world.alloc with ⟨allocated, between⟩
      have next :
          World.next world.allocations = (allocated, between.allocations) := by
        cases once
        rfl
      rw [allocEach, once, allocated_of_granted granted next]
      exact inductionHypothesis (granted.next next)

/-- Buffers that are not empty can be written, with whatever result. -/
theorem tcpSocketWritevFrom_returns (iov : List Bytes) :
    ∀ {world : World} {total : Int},
      (∀ buf ∈ iov, buf ≠ []) →
        ∃ nwritten later,
          tcpSocketWritevFrom world total iov = .ok (nwritten, later) ∧
            later.allocations = world.allocations := by
  induction iov with
  | nil =>
      intro world total _
      exact ⟨total, world, rfl, rfl⟩
  | cons buf iov inductionHypothesis =>
      intro world total notEmpty
      obtain ⟨count, between, written, same⟩ :
          ∃ count between,
            tcpSocketWrite world buf = .ok (count, between) ∧
              between.allocations = world.allocations :=
        ⟨_, _, tcpSocketWrite_eq (notEmpty buf List.mem_cons_self) world, rfl⟩
      rw [tcpSocketWritevFrom, written, ok_bind]
      dsimp only
      split
      · exact ⟨count, between, rfl, same⟩
      · split
        · exact ⟨count, between, rfl, same⟩
        · obtain ⟨nwritten, later, writes, allocations⟩ :=
            @inductionHypothesis between (total + count) fun other member =>
              notEmpty other (List.mem_cons_of_mem _ member)
          exact ⟨nwritten, later, writes, allocations.trans same⟩

/-- The head of a response whose headers are filled has no empty buffer. -/
theorem headBuffers_ne_nil
    (filled : Filled response.headers) :
    ∀ buf ∈ Http.headBuffers response, buf ≠ [] := by
  intro buf member
  rcases List.mem_cons.mp member with rfl | member
  · simp [statusLine, crlf]
  · rcases List.mem_append.mp member with inHeaders | isLast
    · obtain ⟨header, inList, isEntry⟩ := List.mem_flatMap.mp inHeaders
      obtain ⟨named, valued⟩ := filled header inList
      simp only [headerEntries, List.mem_cons, List.not_mem_nil,
        or_false] at isEntry
      rcases isEntry with rfl | rfl | rfl | rfl
      · exact named
      · exact List.cons_ne_nil _ _
      · exact valued
      · exact List.cons_ne_nil _ _
    · rw [List.mem_singleton.mp isLast]
      exact List.cons_ne_nil _ _

/-- With memory for it the head of a response is written, or it was before. -/
theorem flushHeaders_returns
    (filled : Filled response.headers) (granted : Granted world.allocations) :
    ∃ headed later,
      flushHeaders response world = .ok (headed, later) ∧
        Filled headed.headers ∧ Granted later.allocations := by
  by_cases flushed : response.headersFlushed = true
  · exact ⟨response, world, flushHeaders_of_flushed flushed world, filled,
      granted⟩
  · obtain ⟨allocated, still⟩ :=
      allocEach_granted (headAllocations response) granted
    obtain ⟨between, adds, array⟩ := addContentLength_eq allocated
    have filledAfter := filled_completed filled
    obtain ⟨nwritten, later, writes, allocations⟩ :=
      @tcpSocketWritevFrom_returns (Http.headBuffers (completed response))
        (allocEach (headAllocations response) world).2 0
        (headBuffers_ne_nil filledAfter)
    refine ⟨{ completed response with headersFlushed := true }, later, ?_,
      filledAfter, ?_⟩
    · rw [flushHeaders, if_neg flushed, adds, ok_bind]
      simp only [array]
      rw [headIov_eq, ok_bind, tcpSocketWritev,
        check_pos (by simp [Http.headBuffers]), ok_bind, writes]
      rfl
    · rw [allocations]
      exact still

/-- With memory for a head, buffers of a body can be written. -/
theorem responseWritev_returns
    {iov : List Bytes}
    (filled : Filled response.headers) (granted : Granted world.allocations)
    (some : iov ≠ []) (notEmpty : ∀ buf ∈ iov, buf ≠ []) :
    ∃ nwritten headed later,
      responseWritev response world iov = .ok (nwritten, headed, later) ∧
        Filled headed.headers ∧ Granted later.allocations := by
  obtain ⟨headed, served, flushes, filledAfter, still⟩ :=
    flushHeaders_returns filled granted
  obtain ⟨nwritten, later, writes, allocations⟩ :=
    @tcpSocketWritevFrom_returns iov served 0 notEmpty
  refine ⟨nwritten, headed, later, ?_, filledAfter, ?_⟩
  · rw [responseWritev, check_pos some, ok_bind, flushes, ok_bind]
    dsimp only
    rw [tcpSocketWritev, check_pos some, ok_bind, writes]
    rfl
  · rw [allocations]
    exact still

end Writes

/-! ## The handler returns -/

section Returns

variable {handling : Handling}

/-- Memory is there, and the headers set so far have names and values. -/
structure Supplied (handling : Handling) : Prop where
  filled : Filled handling.response.headers
  granted : Granted handling.world.allocations

/-- What is supplied with memory gets it. -/
theorem Supplied.alloc (supplied : Supplied handling) :
    ∃ later,
      handling.alloc = (true, later) ∧ Supplied later := by
  have allocated := @allocated_of_granted handling.world.allocations _ _
    supplied.granted rfl
  refine ⟨handling.alloc.2, Prod.ext allocated rfl, supplied.filled, ?_⟩
  exact supplied.granted.next rfl

/-- A round of the loop that copies a file ends it, or goes on in the file. -/
theorem sendRound_returns
    {ioBufSize : Nat} {file : Bytes} {sending : Sending}
    (sizeSome : 0 < ioBufSize)
    (supplied : Supplied sending.handling)
    (inside : sending.position ≤ file.length) :
    ∃ outcome,
      sendRound ioBufSize file sending = .ok outcome ∧
        ∀ next, outcome = .next next →
          Supplied next.handling ∧ sending.position < next.position ∧
            next.position ≤ file.length := by
  have stops
      {round : Except Fault (Outcome Sending (HandlerErr × Handling))}
      (result : HandlerErr × Handling) (isStop : round = .ok (.stop result)) :
      ∃ outcome,
        round = .ok outcome ∧
          ∀ next, outcome = .next next →
            Supplied next.handling ∧ sending.position < next.position ∧
              next.position ≤ file.length := by
    refine ⟨_, isStop, ?_⟩
    intro next isNext
    cases isNext
  rw [sendRound]
  split
  · exact stops _ rfl
  · next left =>
      dsimp only
      split
      · exact stops _ rfl
      · next whole =>
          obtain ⟨buffer, isBuffer⟩ :
              ∃ buffer,
                buffer =
                  fread file sending.position
                    (min ioBufSize sending.towrite) :=
            ⟨_, rfl⟩
          rw [← isBuffer] at whole ⊢
          have atMost :
              buffer.length ≤ min ioBufSize sending.towrite ∧
                sending.position + buffer.length ≤ file.length := by
            rw [isBuffer, fread, List.length_take, List.length_drop]
            omega
          have positive : 0 < buffer.length :=
            Nat.lt_of_lt_of_le
              (Nat.lt_min.mpr ⟨sizeSome, Nat.pos_of_ne_zero left⟩)
              (Nat.le_of_not_lt whole)
          obtain ⟨nwritten, headed, later, writes, filled, granted⟩ :
              ∃ nwritten headed later,
                responseWrite sending.handling.response
                    sending.handling.world buffer =
                  .ok (nwritten, headed, later) ∧
                  Filled headed.headers ∧ Granted later.allocations := by
            rw [responseWrite, check_pos (List.length_pos_iff.mp positive),
              ok_bind]
            apply responseWritev_returns supplied.filled supplied.granted
              (List.cons_ne_nil buffer [])
            intro buf member
            rw [List.mem_singleton.mp member]
            exact List.length_pos_iff.mp positive
          obtain ⟨-, -, -, fits⟩ := responseWrite_result writes
          have smaller : nwritten ≤ sending.towrite := by
            have first := atMost.1
            omega
          rw [Handling.record_response, Handling.record_response,
            Handling.record_world, Handling.record_world, writes, ok_bind]
          dsimp only
          split
          · exact stops _ rfl
          · rw [check_pos smaller]
            refine ⟨_, rfl, ?_⟩
            intro next isNext
            cases isNext
            exact ⟨⟨filled, granted⟩, Nat.lt_add_of_pos_right positive,
              atMost.2⟩

/-- The loop ends, whatever the file and the writes are like. -/
theorem iterate_sendRound_returns
    {ioBufSize : Nat} {file : Bytes} (sizeSome : 0 < ioBufSize)
    (fuel : Nat) :
    ∀ {sending : Sending},
      Supplied sending.handling → sending.position ≤ file.length →
        file.length - sending.position < fuel →
          ∃ result,
            iterate (sendRound ioBufSize file) .outOfFuel fuel sending =
              .ok result := by
  induction fuel with
  | zero =>
      intro sending _ _ enough
      cases enough
  | succ fuel inductionHypothesis =>
      intro sending supplied inside enough
      obtain ⟨outcome, sends, goesOn⟩ :=
        sendRound_returns sizeSome supplied inside
      cases outcome with
      | stop result =>
          exact ⟨result, iterate_of_stop sends⟩
      | next next =>
          obtain ⟨suppliedNext, further, insideNext⟩ := goesOn next rfl
          rw [iterate_of_goes sends]
          exact inductionHypothesis suppliedNext insideNext (by omega)

/-- What is answered for a file is answered at some time. -/
theorem serveFile_returns
    {ioBufSize fuel stSize : Nat} {opened : Option Bytes}
    (sizeSome : 0 < ioBufSize)
    (supplied : Supplied handling)
    (enough : ∀ file ∈ opened, file.length < fuel) :
    ∃ result,
      serveFile ioBufSize fuel stSize opened handling = .ok result := by
  cases opened with
  | none =>
      exact ⟨_, rfl⟩
  | some file =>
      have announced :
          Supplied
            (Handling.record
              { handling with
                response :=
                  { handling.response with contentLength := stSize } }
              (.obtained .file)) :=
        ⟨supplied.filled, supplied.granted⟩
      obtain ⟨later, allocation, suppliedLater⟩ := announced.alloc
      rw [serveFile]
      dsimp only
      rw [allocation]
      apply iterate_sendRound_returns sizeSome fuel
      · exact ⟨suppliedLater.filled, suppliedLater.granted⟩
      · exact Nat.zero_le _
      · exact enough file rfl

/-- What is listed has been read. -/
theorem mem_listed
    {readings : List Readdir} {de : Dirent}
    (member : de ∈ listed readings) :
    .entry de ∈ readings := by
  induction readings with
  | nil =>
      cases member
  | cons reading readings inductionHypothesis =>
      cases reading with
      | failed =>
          cases member
      | entry res =>
          rw [listed] at member
          split at member
          · exact List.mem_cons_of_mem _ (inductionHypothesis member)
          · rcases List.mem_cons.mp member with rfl | later
            · exact List.mem_cons_self
            · exact List.mem_cons_of_mem _ (inductionHypothesis later)

/-- A directory that has been opened is read with memory for all entries. -/
theorem readEntries_supplied
    {readings : List Readdir} {filelist : List Dirent} {done : Handling}
    {result : Option (List Dirent)}
    (supplied : Supplied handling)
    (reads : readEntries readings filelist handling = (result, done)) :
    Supplied done := by
  induction readings generalizing filelist handling with
  | nil =>
      cases reads
      exact ⟨supplied.filled, supplied.granted⟩
  | cons reading readings inductionHypothesis =>
      have used : Supplied (handling.record (.used .directory)) :=
        ⟨supplied.filled, supplied.granted⟩
      cases reading with
      | failed =>
          cases reads
          exact ⟨supplied.filled, supplied.granted⟩
      | entry res =>
          rw [readEntries] at reads
          split at reads
          · exact inductionHypothesis used reads
          · obtain ⟨later, allocation, suppliedLater⟩ := used.alloc
            rw [allocation] at reads
            exact inductionHypothesis suppliedLater reads

/-- Entries that have been stored stand behind the ones before. -/
theorem storeEntries_append
    {niov : Nat} {iov entries stored : List Bytes}
    (stores : storeEntries niov iov entries = .ok stored) :
    stored = iov ++ entries := by
  rw [storeEntries] at stores
  split at stores
  · cases stores
    rfl
  · cases stores

/-- So do the buffers of a list of files. -/
theorem storeFilelist_append
    {niov : Nat} {path : Bytes} {addSeparator : Bool}
    {filelist : List Dirent} {iov stored : List Bytes}
    (stores : storeFilelist niov path addSeparator iov filelist = .ok stored) :
    stored = iov ++ filelist.flatMap (entryIov path addSeparator) := by
  induction filelist generalizing iov with
  | nil =>
      cases stores
      rw [List.flatMap_nil, List.append_nil]
  | cons de filelist inductionHypothesis =>
      obtain ⟨between, first, stores⟩ := of_bind stores
      rw [inductionHypothesis stores, storeEntries_append first,
        List.flatMap_cons, List.append_assoc]

/-- No buffer of an entry is empty, if the path is not and its name is not. -/
theorem entryIov_ne_nil
    {path : Bytes} {addSeparator : Bool} {de : Dirent}
    (some : path ≠ []) (named : de.name ≠ []) :
    ∀ buf ∈ entryIov path addSeparator de, buf ≠ [] := by
  have separators :
      ∀ buf ∈ (if addSeparator then [ascii "/"] else []), buf ≠ [] := by
    cases addSeparator
    · exact nofun
    · decide
  intro buf member
  rw [entryIov, List.mem_append, List.mem_append] at member
  rcases member with (isOpen | isSeparator) | isRest
  · rcases List.mem_pair.mp isOpen with rfl | rfl
    · decide
    · exact some
  · exact separators buf isSeparator
  · simp only [List.mem_cons, List.not_mem_nil, or_false] at isRest
    rcases isRest with rfl | rfl | rfl | rfl
    · exact named
    · decide
    · exact named
    · decide

/-- No buffer of a page is empty, if the path is not and no name is. -/
theorem listing_ne_nil
    {path : Bytes} {filelist : List Dirent} {world later : World}
    {listing : Listing}
    (some : path ≠ []) (named : ∀ de ∈ filelist, de.name ≠ [])
    (lists : makeListing path filelist world = .ok (.some listing, later)) :
    listing.iov ≠ [] ∧ ∀ buf ∈ listing.iov, buf ≠ [] := by
  obtain ⟨addSeparator, -, lists⟩ := of_bind lists
  dsimp only at lists
  split at lists
  · cases lists
  · obtain ⟨headers, isHeaders, lists⟩ := of_bind lists
    obtain ⟨entries, isEntries, lists⟩ := of_bind lists
    obtain ⟨iov, isIov, lists⟩ := of_bind lists
    by_cases filled :
        iov.length =
          6 + 6 * filelist.length +
            if addSeparator then filelist.length else 0
    · rw [if_pos filled] at lists
      cases lists
      dsimp only
      rw [storeEntries_append isIov, storeFilelist_append isEntries,
        storeEntries_append isHeaders, List.nil_append]
      refine ⟨by simp, ?_⟩
      intro buf member
      rw [List.mem_append, List.mem_append] at member
      rcases member with (isHeader | isEntry) | isFooter
      · revert buf
        simp [some, autoindexHeader1, autoindexHeader2, autoindexHeader3]
      · obtain ⟨de, inList, isEntry⟩ := List.mem_flatMap.mp isEntry
        exact entryIov_ne_nil some (named de inList) buf isEntry
      · rw [List.mem_singleton.mp isFooter, autoindexFooter]
        exact List.append_ne_nil_of_right_ne_nil _ (List.cons_ne_nil _ _)
    · rw [if_neg filled] at lists
      cases lists

/-- The entries of a directory have names. -/
def Named (readings : List Readdir) : Prop :=
  ∀ res, .entry res ∈ readings → res.name ≠ []

/-- What is answered for a directory is answered at some time. -/
theorem serveDirectory_returns
    {path : Bytes} {readings : List Readdir}
    (some : path ≠ []) (named : Named readings)
    (supplied : Supplied handling) :
    ∃ result, serveDirectory path readings handling = .ok result := by
  have opened : Supplied (handling.record (.obtained .directory)) :=
    ⟨supplied.filled, supplied.granted⟩
  obtain ⟨between, allocation, suppliedBetween⟩ := opened.alloc
  rw [serveDirectory]
  dsimp only
  rw [allocation]
  dsimp only
  rcases reads : readEntries readings [] between with ⟨_ | filelist, read⟩
  · exact ⟨_, rfl⟩
  · obtain ⟨filled, granted⟩ := readEntries_supplied suppliedBetween reads
    have isListed := readFilelist_eq_listed (readEntries_eq reads).1
    rw [List.nil_append] at isListed
    have namedToo : ∀ de ∈ filelist, de.name ≠ [] := by
      rw [isListed]
      exact fun de member => named de (mem_listed member)
    have allocated := @allocated_of_granted read.world.allocations _ _
      granted rfl
    obtain ⟨listing, lists, -⟩ :=
      @makeListing_eq path filelist read.world read.world.alloc.2 some
        (Prod.ext allocated rfl)
    obtain ⟨someBuffers, notEmpty⟩ := listing_ne_nil some namedToo lists
    obtain ⟨nwritten, headed, later, writes, -, -⟩ :=
      @responseWritev_returns
        { read.response with contentLength := listing.contentLength }
        read.world.alloc.2 listing.iov filled (granted.next rfl)
        someBuffers notEmpty
    dsimp only
    rw [Handling.record_world, Handling.record_response, lists, ok_bind]
    dsimp only
    rw [writes]
    exact ⟨_, rfl⟩

/-- With memory for everything a request for a path is answered. -/
theorem handle_returns
    {fs : FileServer} {ioBufSize fuel : Nat} {disk : Disk}
    {request : Request σ}
    (sizeSome : 0 < ioBufSize) (some : request.path ≠ [])
    (supplied : Supplied handling)
    (named :
      ∀ path, ∀ readings ∈ disk.opendir path, Named readings)
    (enough : ∀ path, ∀ file ∈ disk.fopen path, file.length < fuel) :
    ∃ result,
      handle fs ioBufSize fuel disk request handling = .ok result := by
  rw [handle]
  split
  · obtain ⟨later, allocation, suppliedLater⟩ := supplied.alloc
    rw [allocation]
    dsimp only
    split
    · exact ⟨_, rfl⟩
    · exact ⟨_, rfl⟩
    · split
      · exact ⟨_, rfl⟩
      · split
        · exact ⟨_, rfl⟩
        · next opened =>
            obtain ⟨result, serves⟩ :=
              serveDirectory_returns some (named _ _ opened) suppliedLater
            rw [serves]
            exact ⟨_, rfl⟩
    · next stSize _ =>
        obtain ⟨result, serves⟩ :=
          @serveFile_returns later ioBufSize fuel stSize
            (disk.fopen (cString (fullpath fs request))) sizeSome
            suppliedLater (enough _)
        rw [serves]
        exact ⟨_, rfl⟩
  · exact ⟨_, rfl⟩

end Returns

end Dfk.Middleware
