import Dfk.Middleware.Listing
import Dfk.Middleware.FileCopy
import Dfk.Library.Ledger

/-!
# The file server as a whole

`dfk_fileserver_handler` from the request to the status that is answered, with
an account of the directory, the file and the buffer that it holds.  The
parts that are treated elsewhere are parts of it.
-/

namespace Dfk.Middleware

open Http Loops Ledger

variable {σ : Type}

/-! ## The source -/

/-- What `stat` finds; a directory has no size of interest. -/
inductive Found where
  /-- `ENOENT` or `ENOTDIR` -/
  | missing
  | failed
  | directory
  | other (stSize : Nat)
  deriving Repr, DecidableEq

/-- What the operating system answers to calls with a path. -/
structure Disk where
  stat : Bytes → Found
  /-- What is read of the directory, if it can be opened. -/
  opendir : Bytes → Option (List Readdir)
  /-- The contents of the file, if it can be opened. -/
  fopen : Bytes → Option Bytes

/-- What the handler has to give back. -/
inductive Acquired where
  /-- `dp` -/
  | directory
  /-- `f` -/
  | file
  /-- `buffer` -/
  | buffer
  deriving Repr, DecidableEq

/-- The handler at work. -/
structure Handling where
  response : Response
  world : World
  ledger : List (Event Acquired)

namespace Handling

/-- Something is obtained, used or released. -/
def record (handling : Handling) (event : Event Acquired) : Handling :=
  { handling with ledger := handling.ledger ++ [event] }

@[simp] theorem record_response (handling : Handling)
    (event : Event Acquired) :
    (handling.record event).response = handling.response :=
  rfl

@[simp] theorem record_world (handling : Handling)
    (event : Event Acquired) :
    (handling.record event).world = handling.world :=
  rfl

/-- `dfk_arena_alloc` or `dfk->malloc` -/
def alloc (handling : Handling) : Bool × Handling :=
  (handling.world.alloc.1, { handling with world := handling.world.alloc.2 })

/-- `response->status = status; return dfk_err_ok;` -/
def answer (handling : Handling) (status : Nat) : HandlerErr × Handling :=
  (.ok, { handling with response := { handling.response with status } })

/-- `fclose(f); fs->dfk->free(fs->dfk, buffer);` -/
def close (handling : Handling) : Handling :=
  (handling.record (.released .file)).record (.released .buffer)

end Handling

/-- The loops that read a directory; it is closed where they fail. -/
def readEntries :
    List Readdir → List Dirent → Handling → Option (List Dirent) × Handling
  | [], filelist, handling =>
      -- `res` is null
      (some filelist, handling.record (.used .directory))
  | .failed :: _, _, handling =>
      (none,
        (handling.record (.used .directory)).record (.released .directory))
  | .entry res :: readings, filelist, handling =>
      let handling := handling.record (.used .directory)
      if ignoreFile res then readEntries readings filelist handling
      else
        match handling.alloc with
        | (false, handling) => (none, handling.record (.released .directory))
        | (true, handling) =>
            readEntries readings (filelist ++ [res]) handling

/-- What is answered for a directory that has been opened. -/
def serveDirectory (path : Bytes) (readings : List Readdir)
    (handling : Handling) : Except Fault (HandlerErr × Handling) :=
  let handling := handling.record (.obtained .directory)
  match handling.alloc with
  | (false, handling) =>
      .ok ((handling.record (.released .directory)).answer
        internalServerError)
  | (true, handling) =>
      match readEntries readings [] handling with
      | (none, handling) => .ok (handling.answer internalServerError)
      | (some filelist, handling) => do
          let handling := handling.record (.released .directory)
          match ← makeListing path filelist handling.world with
          | (none, world) =>
              pure ({ handling with world }.answer internalServerError)
          | (some listing, world) =>
              let response :=
                { handling.response with
                  contentLength := listing.contentLength }
              let (_, response, world) ←
                responseWritev response world listing.iov
              pure ({ handling with response, world }.answer statusOk)

/-- The variables of the loop that copies a file. -/
structure Sending where
  handling : Handling
  /-- The position of `f` -/
  position : Nat
  towrite : Nat

/-- One round of the loop; file and buffer are given back where it ends. -/
def sendRound (ioBufSize : Nat) (file : Bytes) (sending : Sending) :
    Except Fault (Outcome Sending (HandlerErr × Handling)) :=
  if sending.towrite = 0 then .ok (.stop (.ok, sending.handling.close))
  else
    let toread := min ioBufSize sending.towrite
    let buffer := fread file sending.position toread
    let handling :=
      (sending.handling.record (.used .file)).record (.used .buffer)
    if buffer.length < toread then .ok (.stop (.sys, handling.close))
    else do
      let (nwritten, response, world) ←
        responseWrite handling.response handling.world buffer
      let handling :=
        { handling with response, world }.record (.used .buffer)
      if nwritten < 0 then pure (.stop (.sys, handling.close))
      else do
        check (nwritten ≤ sending.towrite)
        pure (.next
          { handling
            position := sending.position + buffer.length
            towrite := sending.towrite - nwritten.toNat })

/-- What is answered for a file of this size. -/
def serveFile (ioBufSize fuel stSize : Nat) (opened : Option Bytes)
    (handling : Handling) : Except Fault (HandlerErr × Handling) :=
  let handling :=
    { handling with
      response := { handling.response with contentLength := stSize } }
  match opened with
  | none => .ok (handling.answer internalServerError)
  | some file =>
      let handling := handling.record (.obtained .file)
      match handling.alloc with
      | (false, handling) =>
          .ok ((handling.record (.released .file)).answer
            internalServerError)
      | (true, handling) =>
          iterate (sendRound ioBufSize file) .outOfFuel fuel
            { handling := handling.record (.obtained .buffer)
              position := 0
              towrite := stSize }

/-- `dfk_fileserver_handler`, with the calls it makes with a path. -/
def handle (fs : FileServer) (ioBufSize fuel : Nat) (disk : Disk)
    (request : Request σ) (handling : Handling) :
    Except Fault (List FileCall × HandlerErr × Handling) :=
  if request.method = methodGet then
    match handling.alloc with
    | (false, handling) =>
        .ok ([], handling.answer internalServerError)
    | (true, handling) =>
        let fullpath := cString (fullpath fs request)
        match disk.stat fullpath with
        | .missing => .ok ([.stat fullpath], handling.answer notFound)
        | .failed =>
            .ok ([.stat fullpath], handling.answer internalServerError)
        | .directory =>
            if !fs.autoindex then
              .ok ([.stat fullpath], handling.answer notFound)
            else
              match disk.opendir fullpath with
              | none =>
                  .ok ([.stat fullpath, .opendir fullpath],
                    handling.answer internalServerError)
              | some readings => do
                  let result ← serveDirectory request.path readings handling
                  pure ([.stat fullpath, .opendir fullpath], result)
        | .other stSize => do
            let result ←
              serveFile ioBufSize fuel stSize (disk.fopen fullpath) handling
            pure ([.stat fullpath, .fopen fullpath], result)
  else .ok ([], handling.answer methodNotAllowed)

/-! ## What is held -/

/-- The ledger is sound, and these are held. -/
structure Holding (handling : Handling) (owned : List Acquired) : Prop where
  sound : Sound handling.ledger
  isHeld : ∀ acquired, held handling.ledger acquired = decide (acquired ∈ owned)

/-- Nothing is used or released that is not held, and nothing is kept. -/
abbrev Settled (handling : Handling) : Prop := Holding handling []

namespace Holding

variable {handling : Handling} {owned : List Acquired} {acquired : Acquired}

/-- What the handler holds does not depend on the response or the world. -/
theorem of_ledger
    {other : Handling}
    (holding : Holding handling owned) (same : other.ledger = handling.ledger) :
    Holding other owned where
  sound := same ▸ holding.sound
  isHeld := same ▸ holding.isHeld

/-- Neither does the order in which things were obtained matter. -/
theorem swap
    {other : Acquired} (holding : Holding handling [acquired, other]) :
    Holding handling [other, acquired] where
  sound := holding.sound
  isHeld query := by
    rw [holding.isHeld]
    exact decide_eq_decide.mpr (List.Perm.swap _ _ _).mem_iff

theorem answer (holding : Holding handling owned) (status : Nat) :
    Holding (handling.answer status).2 owned :=
  holding.of_ledger rfl

theorem obtained (holding : Holding handling owned) :
    Holding (handling.record (.obtained acquired)) (acquired :: owned) where
  sound := holding.sound.obtained acquired
  isHeld other := by
    rw [Handling.record, held_concat, holdsAfter, holding.isHeld,
      Bool.or_comm, ← Bool.decide_or]
    exact decide_eq_decide.mpr
      ((or_congr_left eq_comm).trans List.mem_cons.symm)

theorem used (holding : Holding handling owned) (member : acquired ∈ owned) :
    Holding (handling.record (.used acquired)) owned where
  sound := by
    apply holding.sound.used
    rw [holding.isHeld]
    exact decide_eq_true member
  isHeld other := by
    rw [Handling.record, held_concat]
    exact holding.isHeld other

theorem released
    (holding : Holding handling (acquired :: owned))
    (isNew : acquired ∉ owned) :
    Holding (handling.record (.released acquired)) owned where
  sound := by
    apply holding.sound.released
    rw [holding.isHeld]
    exact decide_eq_true List.mem_cons_self
  isHeld other := by
    rw [Handling.record, held_concat, holdsAfter, holding.isHeld,
      ← Bool.decide_and]
    apply decide_eq_decide.mpr
    rw [List.mem_cons]
    refine ⟨?_, ?_⟩
    · intro both
      rcases both.1 with same | member
      · exact absurd same.symm both.2
      · exact member
    · intro member
      exact ⟨Or.inr member, fun same => isNew (same ▸ member)⟩

theorem alloc
    {allocated : Bool} {later : Handling}
    (holding : Holding handling owned)
    (allocation : handling.alloc = (allocated, later)) :
    Holding later owned :=
  holding.of_ledger
    (congrArg (fun result => result.2.ledger) allocation.symm)

/-- File and buffer are given back. -/
theorem close (holding : Holding handling [.file, .buffer]) :
    Settled handling.close :=
  (holding.released (by decide)).released List.not_mem_nil

end Holding

section Settling

variable {handling done : Handling} {err : HandlerErr}

/-- Where reading a directory fails it is closed, and it is held otherwise. -/
theorem holding_readEntries
    {readings : List Readdir} {filelist : List Dirent}
    {result : Option (List Dirent)}
    (holding : Holding handling [.directory])
    (reads : readEntries readings filelist handling = (result, done)) :
    Holding done (if result.isSome then [.directory] else []) := by
  induction readings generalizing filelist handling with
  | nil =>
      cases reads
      exact holding.used List.mem_cons_self
  | cons reading readings inductionHypothesis =>
      have used : Holding (handling.record (.used .directory)) [.directory] :=
        holding.used List.mem_cons_self
      cases reading with
      | failed =>
          cases reads
          exact used.released List.not_mem_nil
      | entry res =>
          rw [readEntries] at reads
          split at reads
          · exact inductionHypothesis used reads
          · split at reads
            · next allocation =>
                cases reads
                exact (used.alloc allocation).released List.not_mem_nil
            · next allocation =>
                exact inductionHypothesis (used.alloc allocation) reads

/-- A directory is closed once its listing has been sent, or has failed. -/
theorem settled_serveDirectory
    {path : Bytes} {readings : List Readdir}
    (holding : Holding handling [])
    (serves : serveDirectory path readings handling = .ok (err, done)) :
    Settled done := by
  have opened :
      Holding (handling.record (.obtained .directory)) [.directory] :=
    holding.obtained
  rw [serveDirectory] at serves
  dsimp only at serves
  split at serves
  · next allocation =>
      cases serves
      exact ((opened.alloc allocation).released List.not_mem_nil).answer _
  · next allocation =>
      have between := opened.alloc allocation
      split at serves
      · next reads =>
          cases serves
          exact (holding_readEntries between reads).answer _
      · next reads =>
          have closed :=
            (holding_readEntries between reads).released List.not_mem_nil
          obtain ⟨⟨listing, world⟩, -, serves⟩ := of_bind serves
          cases listing with
          | none =>
              cases serves
              exact closed.of_ledger rfl
          | some listing =>
              obtain ⟨⟨_, response, later⟩, -, serves⟩ := of_bind serves
              cases serves
              exact closed.of_ledger rfl

/-- What is held after a round of the loop that copies a file. -/
def HoldsAfter : Outcome Sending (HandlerErr × Handling) → Prop
  | .stop result => Settled result.2
  | .next sending => Holding sending.handling [.file, .buffer]

/-- A round ends with everything given back, or goes on with what is held. -/
theorem holdsAfter_sendRound
    {ioBufSize : Nat} {file : Bytes} {sending : Sending}
    {outcome : Outcome Sending (HandlerErr × Handling)}
    (holding : Holding sending.handling [.file, .buffer])
    (sends : sendRound ioBufSize file sending = .ok outcome) :
    HoldsAfter outcome := by
  rw [sendRound] at sends
  split at sends
  · cases sends
    exact holding.close
  · have used :
        Holding
          ((sending.handling.record (.used .file)).record (.used .buffer))
          [.file, .buffer] :=
      (holding.used (by decide)).used (by decide)
    dsimp only at sends
    split at sends
    · cases sends
      exact used.close
    · obtain ⟨⟨nwritten, response, world⟩, -, sends⟩ := of_bind sends
      have written :
          Holding
            (Handling.record
              ⟨response, world,
                ((sending.handling.record (.used .file)).record
                  (.used .buffer)).ledger⟩
              (.used .buffer))
            [.file, .buffer] :=
        Holding.used (used.of_ledger rfl) (by decide)
      dsimp only at sends
      split at sends
      · cases sends
        exact written.close
      · obtain ⟨-, -, sends⟩ := of_bind sends
        cases sends
        exact written

/-- A file that has been opened is closed, and its buffer freed. -/
theorem settled_serveFile
    {ioBufSize fuel stSize : Nat} {opened : Option Bytes}
    (holding : Holding handling [])
    (serves :
      serveFile ioBufSize fuel stSize opened handling = .ok (err, done)) :
    Settled done := by
  cases opened with
  | none =>
      cases serves
      exact holding.of_ledger rfl
  | some file =>
      have isOpen :
          Holding
            (Handling.record
              { handling with
                response :=
                  { handling.response with contentLength := stSize } }
              (.obtained .file))
            [.file] :=
        Holding.obtained (holding.of_ledger rfl)
      rw [serveFile] at serves
      dsimp only at serves
      split at serves
      · next allocation =>
          cases serves
          exact Holding.of_ledger
            ((isOpen.alloc allocation).released List.not_mem_nil) rfl
      · next allocation =>
          obtain ⟨last, comes, stops⟩ := stop_of_iterate serves
          have starts :
              HoldsAfter (.next
                { handling := Handling.record _ (.obtained .buffer)
                  position := 0
                  towrite := stSize }) :=
            (isOpen.alloc allocation).obtained.swap
          have before : HoldsAfter (.next last) := by
            apply Loops.invariant comes starts
            intro state next holding goes
            exact holdsAfter_sendRound holding goes
          exact holdsAfter_sendRound before stops

/-- Whatever it is asked for, the handler gives back all it obtains. -/
theorem settled_handle
    {fs : FileServer} {ioBufSize fuel : Nat} {disk : Disk}
    {request : Request σ} {calls : List FileCall}
    (holding : Holding handling [])
    (handles :
      handle fs ioBufSize fuel disk request handling =
        .ok (calls, err, done)) :
    Settled done := by
  rw [handle] at handles
  split at handles
  · split at handles
    · next allocation =>
        cases handles
        exact (holding.alloc allocation).of_ledger rfl
    · next allocation =>
        have between := holding.alloc allocation
        dsimp only at handles
        split at handles
        · cases handles
          exact between.of_ledger rfl
        · cases handles
          exact between.of_ledger rfl
        · split at handles
          · cases handles
            exact between.of_ledger rfl
          · split at handles
            · cases handles
              exact between.of_ledger rfl
            · obtain ⟨result, serves, handles⟩ := of_bind handles
              cases handles
              exact settled_serveDirectory between serves
        · obtain ⟨result, serves, handles⟩ := of_bind handles
          cases handles
          exact settled_serveFile between serves
  · cases handles
    exact holding.of_ledger rfl

end Settling

/-! ## The parts -/

section Parts

variable {handling done : Handling} {err : HandlerErr}

/-- An allocation is one of the world. -/
theorem alloc_world
    {allocated : Bool} {later : Handling}
    (allocation : handling.alloc = (allocated, later)) :
    handling.world.alloc = (allocated, later.world) ∧
      later.response = handling.response := by
  cases allocation
  exact ⟨rfl, rfl⟩

/-- Reading the directory, without the account of it. -/
theorem readEntries_eq
    {readings : List Readdir} {filelist : List Dirent}
    {result : Option (List Dirent)}
    (reads : readEntries readings filelist handling = (result, done)) :
    readFilelist readings filelist handling.world = (result, done.world) ∧
      done.response = handling.response := by
  induction readings generalizing filelist handling with
  | nil =>
      cases reads
      exact ⟨rfl, rfl⟩
  | cons reading readings inductionHypothesis =>
      cases reading with
      | failed =>
          cases reads
          exact ⟨rfl, rfl⟩
      | entry res =>
          rw [readEntries] at reads
          rw [readFilelist]
          split at reads
          · next ignored =>
              rw [if_pos ignored]
              obtain ⟨same, response⟩ := inductionHypothesis reads
              exact ⟨same, response⟩
          · next kept =>
              rw [if_neg kept]
              split at reads
              · next allocation =>
                  obtain ⟨same, response⟩ := alloc_world allocation
                  rw [Handling.record_world] at same
                  rw [same]
                  cases reads
                  exact ⟨rfl, response⟩
              · next allocation =>
                  obtain ⟨same, response⟩ := alloc_world allocation
                  rw [Handling.record_world] at same
                  rw [same]
                  obtain ⟨sameRest, responseRest⟩ :=
                    inductionHypothesis reads
                  exact ⟨sameRest, responseRest.trans response⟩

/-- What is answered for a directory is what is sent for it elsewhere. -/
theorem directoryHandler_of_serveDirectory
    {path : Bytes} {readings : List Readdir}
    (serves : serveDirectory path readings handling = .ok (err, done)) :
    err = .ok ∧
      directoryHandler path readings handling.response handling.world =
        .ok (done.response, done.world) := by
  rw [serveDirectory] at serves
  rw [directoryHandler, listDirectory, readDirectory]
  dsimp only at serves
  split at serves
  · next allocation =>
      obtain ⟨same, response⟩ := alloc_world allocation
      rw [Handling.record_world] at same
      rw [Handling.record_response] at response
      rw [same, ← response]
      cases serves
      exact ⟨rfl, rfl⟩
  · next allocation =>
      obtain ⟨same, response⟩ := alloc_world allocation
      rw [Handling.record_world] at same
      rw [Handling.record_response] at response
      rw [same, ← response]
      dsimp only
      split at serves
      · next reads =>
          obtain ⟨sameFiles, sameResponse⟩ := readEntries_eq reads
          rw [sameFiles, ← sameResponse]
          cases serves
          exact ⟨rfl, rfl⟩
      · next reads =>
          obtain ⟨sameFiles, sameResponse⟩ := readEntries_eq reads
          rw [sameFiles, ← sameResponse]
          dsimp only
          obtain ⟨⟨listing, world⟩, lists, serves⟩ := of_bind serves
          rw [Handling.record_world] at lists
          rw [lists, ok_bind]
          cases listing with
          | none =>
              cases serves
              exact ⟨rfl, rfl⟩
          | some listing =>
              obtain ⟨⟨_, headed, later⟩, writes, serves⟩ := of_bind serves
              rw [Handling.record_response] at writes
              cases serves
              refine ⟨rfl, ?_⟩
              dsimp only
              rw [writes]
              rfl

/-- The loop that copies a file stands at the same place. -/
structure SamePlace (sending : Sending) (copying : Copying) : Prop where
  position : copying.position = sending.position
  towrite : copying.towrite = sending.towrite
  response : copying.response = sending.handling.response
  world : copying.world = sending.handling.world

/-- Rounds with and without the account lead to the same. -/
def SameOutcome :
    Outcome Sending (HandlerErr × Handling) →
      Outcome Copying (HandlerErr × Copying) → Prop
  | .stop sent, .stop copied =>
      copied.1 = sent.1 ∧ copied.2.response = sent.2.response ∧
        copied.2.world = sent.2.world
  | .next sending, .next copying => SamePlace sending copying
  | _, _ => False

/-- A round is one of the loop that keeps no account. -/
theorem copyRound_of_sendRound
    {ioBufSize : Nat} {file : Bytes} {sending : Sending} {copying : Copying}
    {outcome : Outcome Sending (HandlerErr × Handling)}
    (same : SamePlace sending copying)
    (sends : sendRound ioBufSize file sending = .ok outcome) :
    ∃ copied,
      copyRound ioBufSize file copying = .ok copied ∧
        SameOutcome outcome copied := by
  obtain ⟨position, towrite, response, world⟩ := same
  rw [sendRound] at sends
  rw [copyRound, towrite, position, response, world]
  split at sends
  · next nothing =>
      rw [if_pos nothing]
      cases sends
      exact ⟨_, rfl, rfl, response, world⟩
  · next some =>
      rw [if_neg some]
      dsimp only at sends ⊢
      split at sends
      · next short =>
          rw [if_pos short]
          cases sends
          exact ⟨_, rfl, rfl, rfl, rfl⟩
      · next whole =>
          rw [if_neg whole]
          obtain ⟨⟨nwritten, headed, later⟩, writes, sends⟩ := of_bind sends
          rw [Handling.record_response, Handling.record_response,
            Handling.record_world, Handling.record_world] at writes
          rw [writes, ok_bind]
          dsimp only at sends ⊢
          split at sends
          · next fails =>
              rw [if_pos fails]
              cases sends
              exact ⟨_, rfl, rfl, rfl, rfl⟩
          · next accepted =>
              rw [if_neg accepted]
              obtain ⟨_, fits, sends⟩ := of_bind sends
              rw [fits, ok_bind]
              cases sends
              exact ⟨_, rfl, rfl, rfl, rfl, rfl⟩

/-- Where the loop ends, the one that keeps no account does. -/
theorem iterate_copyRound_of_sendRound
    {ioBufSize : Nat} {file : Bytes} (fuel : Nat) :
    ∀ {sending : Sending} {copying : Copying},
      SamePlace sending copying →
        iterate (sendRound ioBufSize file) .outOfFuel fuel sending =
            .ok (err, done) →
          ∃ copied,
            iterate (copyRound ioBufSize file) .outOfFuel fuel copying =
                .ok (err, copied) ∧
              copied.response = done.response ∧
              copied.world = done.world := by
  induction fuel with
  | zero =>
      intro sending copying _ ends
      cases ends
  | succ fuel inductionHypothesis =>
      intro sending copying same ends
      cases sends : sendRound ioBufSize file sending with
      | error fault =>
          rw [iterate, sends] at ends
          cases ends
      | ok outcome =>
          obtain ⟨copied, copies, alike⟩ := copyRound_of_sendRound same sends
          cases outcome with
          | stop sent =>
              rw [iterate_of_stop sends] at ends
              cases ends
              cases copied with
              | stop result =>
                  obtain ⟨err', copying'⟩ := result
                  obtain ⟨rfl, response, world⟩ := alike
                  exact ⟨copying', iterate_of_stop copies, response, world⟩
              | next _ =>
                  exact alike.elim
          | next next =>
              cases copied with
              | stop _ =>
                  exact alike.elim
              | next copying' =>
                  rw [iterate_of_goes sends] at ends
                  rw [iterate_of_goes copies]
                  exact inductionHypothesis alike ends

/-- What is answered for a file is what is sent for it elsewhere. -/
theorem sendFile_of_serveFile
    {ioBufSize fuel : Nat} {opened : Option Bytes} {file : Bytes}
    (contents : ∀ found ∈ opened, found = file)
    (serves :
      serveFile ioBufSize fuel file.length opened handling =
        .ok (err, done)) :
    ∃ copied,
      sendFile ioBufSize fuel opened.isSome file handling.response
          handling.world =
        .ok (err, copied) ∧
        copied.response = done.response ∧ copied.world = done.world := by
  cases opened with
  | none =>
      cases serves
      exact ⟨_, if_pos Bool.false_ne_true, rfl, rfl⟩
  | some found =>
      cases contents found rfl
      rw [serveFile] at serves
      rw [sendFile, if_neg fun closed => closed rfl]
      dsimp only at serves
      split at serves
      · next allocation =>
          obtain ⟨same, response⟩ := alloc_world allocation
          rw [Handling.record_world] at same
          rw [Handling.record_response] at response
          rw [same]
          cases serves
          refine ⟨_, rfl, ?_, rfl⟩
          dsimp only
          rw [Handling.record_response, response]
          rfl
      · next allocation =>
          obtain ⟨same, response⟩ := alloc_world allocation
          rw [Handling.record_world] at same
          rw [Handling.record_response] at response
          rw [same]
          refine iterate_copyRound_of_sendRound fuel ?_ serves
          exact ⟨rfl, rfl, response.symm, rfl⟩

/-- What the operating system answers, without what is read. -/
def Disk.fileSystem (disk : Disk) : FileSystem where
  stat path :=
    match disk.stat path with
    | .missing => .missing
    | .failed => .failed
    | .directory => .directory
    | .other _ => .other
  opendir path := (disk.opendir path).isSome
  fopen path := (disk.fopen path).isSome

/--
The calls with a path are those known from the handler's beginning, which also
knows the status, if nothing has to be read.
-/
theorem fileserverHandler_of_handle
    {fs : FileServer} {ioBufSize fuel : Nat} {disk : Disk}
    {request : Request σ} {calls : List FileCall}
    (handles :
      handle fs ioBufSize fuel disk request handling =
        .ok (calls, err, done)) :
    calls =
        (fileserverHandler fs disk.fileSystem request
          handling.world).calls ∧
      ∀ status ∈
          (fileserverHandler fs disk.fileSystem request
            handling.world).status,
        err = .ok ∧ done.response.status = status := by
  rw [handle] at handles
  rw [fileserverHandler]
  split at handles
  · next isGet =>
      rw [if_pos isGet]
      dsimp only
      split at handles
      · next allocation =>
          obtain ⟨same, -⟩ := alloc_world allocation
          rw [same, if_neg Bool.false_ne_true]
          cases handles
          refine ⟨rfl, ?_⟩
          intro status isStatus
          cases isStatus
          exact ⟨rfl, rfl⟩
      · next allocation =>
          obtain ⟨same, -⟩ := alloc_world allocation
          rw [same, if_pos rfl, Disk.fileSystem]
          dsimp only at handles ⊢
          cases found : disk.stat (cString (fullpath fs request)) with
          | missing | failed =>
              rw [found] at handles
              cases handles
              refine ⟨rfl, ?_⟩
              intro status isStatus
              cases isStatus
              exact ⟨rfl, rfl⟩
          | directory =>
              rw [found] at handles
              dsimp only at handles ⊢
              split at handles
              · next noIndex =>
                  rw [if_pos noIndex]
                  cases handles
                  refine ⟨rfl, ?_⟩
                  intro status isStatus
                  cases isStatus
                  exact ⟨rfl, rfl⟩
              · next index =>
                  rw [if_neg index]
                  split at handles
                  · next closed =>
                      simp only [closed, Option.isSome_none,
                        Bool.false_eq_true, if_false]
                      cases handles
                      refine ⟨rfl, ?_⟩
                      intro status isStatus
                      cases isStatus
                      exact ⟨rfl, rfl⟩
                  · next opened =>
                      simp only [opened, Option.isSome_some, if_true]
                      obtain ⟨result, -, handles⟩ := of_bind handles
                      cases handles
                      refine ⟨rfl, ?_⟩
                      intro status isStatus
                      cases isStatus
          | other stSize =>
              rw [found] at handles
              dsimp only at handles ⊢
              obtain ⟨result, serves, handles⟩ := of_bind handles
              cases handles
              refine ⟨rfl, ?_⟩
              rcases Option.eq_none_or_eq_some
                  (disk.fopen (cString (fullpath fs request))) with
                closed | ⟨file, opened⟩
              · rw [closed] at serves
                simp only [closed, Option.isSome_none, Bool.false_eq_true,
                  if_false]
                cases serves
                intro status isStatus
                cases isStatus
                exact ⟨rfl, rfl⟩
              · simp only [opened, Option.isSome_some, if_true]
                intro status isStatus
                cases isStatus
  · next notGet =>
      rw [if_neg notGet]
      cases handles
      refine ⟨rfl, ?_⟩
      intro status isStatus
      cases isStatus
      exact ⟨rfl, rfl⟩

end Parts

end Dfk.Middleware
