import Dfk.Middleware.FileServer
import Dfk.Http.ResponseStream

/-!
# The listing of a directory

`dfk_fileserver_handler` from an opened directory on: the entries it keeps, the
array of buffers it fills, and what it announces and writes.
-/

namespace Dfk.Middleware

open Http

/-! ## The source -/

/-- `autoindex_header_1`; each of these arrays ends with a zero byte. -/
def autoindexHeader1 : Bytes :=
  ascii "<html>\n  <head>\n    <title>Directory listing for " ++ [0]

/-- `autoindex_header_2` -/
def autoindexHeader2 : Bytes :=
  ascii "</title>\n  </head>\n  <body>\n    <h2>Directory listing for " ++ [0]

/-- `autoindex_header_3` -/
def autoindexHeader3 : Bytes :=
  ascii "</h2>\n    <hr>\n    <ul>\n" ++ [0]

/-- `autoindex_footer` -/
def autoindexFooter : Bytes :=
  ascii "    </ul>\n    <hr>\n  </body>\n</html>\n" ++ [0]

/-- `DT_DIR` -/
def dtDir : Nat := 4

/-- `DT_REG` -/
def dtReg : Nat := 8

/-- `struct dirent` -/
structure Dirent where
  dType : Nat
  /-- The bytes of `d_name`, of which those behind the last one are zero. -/
  dName : Bytes
  deriving Repr, DecidableEq

/-- The `strnlen` bytes of the name. -/
def Dirent.name (de : Dirent) : Bytes := cString de.dName

/-- `.` -/
def fullStop : UInt8 := 46

/-- `/` -/
def separator : UInt8 := 47

/-- `ignore_file`, on Linux -/
def ignoreFile (de : Dirent) : Bool :=
  if de.dType &&& (dtDir ||| dtReg) = 0 then false
  else
    de.dName.getD 0 0 = fullStop &&
      (de.dName.getD 1 0 = 0 ||
        de.dName.getD 1 0 = fullStop && de.dName.getD 2 0 = 0)

/-- What `readdir_r` does, as long as there are entries. -/
inductive Readdir where
  | entry (res : Dirent)
  | failed
  deriving Repr, DecidableEq

/--
The loops that read a directory, with memory for one more entry: an entry that
is kept takes it, and more is allocated.
-/
def readFilelist :
    List Readdir → List Dirent → World → Option (List Dirent) × World
  | [], filelist, world => (some filelist, world)
  | .failed :: _, _, world => (none, world)
  | .entry res :: readings, filelist, world =>
      if ignoreFile res then readFilelist readings filelist world
      else
        match world.alloc with
        | (false, world) => (none, world)
        | (true, world) => readFilelist readings (filelist ++ [res]) world

/-- `filelist`, if neither memory nor the directory fails. -/
def readDirectory (readings : List Readdir) (world : World) :
    Option (List Dirent) × World :=
  match world.alloc with
  | (false, world) => (none, world)
  | (true, world) => readFilelist readings [] world

/-- `add_separator_after_path` -/
def addSeparatorAfterPath (path : Bytes) : Except Fault Bool :=
  match path.getLast? with
  | none => .error .outOfBounds
  | some last => .ok (last ≠ separator)

/-- The buffers of one entry. -/
def entryIov (path : Bytes) (addSeparator : Bool) (de : Dirent) :
    List Bytes :=
  [ascii "      <li><a href=\"", path] ++
    (if addSeparator then [ascii "/"] else []) ++
      [de.name, ascii "\">", de.name, ascii "</a></li>\n"]

/-- The loop that stores the entries. -/
def storeFilelist (niov : Nat) (path : Bytes) (addSeparator : Bool) :
    List Bytes → List Dirent → Except Fault (List Bytes)
  | iov, [] => .ok iov
  | iov, de :: filelist => do
      let iov ← storeEntries niov iov (entryIov path addSeparator de)
      storeFilelist niov path addSeparator iov filelist

/-- What is passed to `dfk_http_response_writev`. -/
structure Listing where
  niov : Nat
  iov : List Bytes
  contentLength : Nat
  deriving Repr, DecidableEq

/--
From `filelist` to the array of buffers.  Their sizes are those of a path that
could be opened and of names, the sum of which is far from overflowing.
-/
def makeListing (path : Bytes) (filelist : List Dirent) (world : World) :
    Except Fault (Option Listing × World) := do
  let addSeparator ← addSeparatorAfterPath path
  let niov :=
    6 + 6 * filelist.length + if addSeparator then filelist.length else 0
  match world.alloc with
  | (false, world) => pure (none, world)
  | (true, world) =>
      let iov ←
        storeEntries niov []
          [autoindexHeader1, path, autoindexHeader2, path, autoindexHeader3]
      let iov ← storeFilelist niov path addSeparator iov filelist
      let iov ← storeEntries niov iov [autoindexFooter]
      -- the sizes of all entries are added, stored or not
      if iov.length = niov then
        pure (some ⟨niov, iov, (iov.map List.length).sum⟩, world)
      else .error .outOfBounds

/-- The listing of a directory, unless the answer is an error. -/
def listDirectory (path : Bytes) (readings : List Readdir) (world : World) :
    Except Fault (Option Listing × World) :=
  match readDirectory readings world with
  | (none, world) => .ok (none, world)
  | (some filelist, world) => makeListing path filelist world

/-- The handler, from an opened directory on. -/
def directoryHandler (path : Bytes) (readings : List Readdir)
    (response : Response) (world : World) :
    Except Fault (Response × World) := do
  match ← listDirectory path readings world with
  | (none, world) =>
      pure ({ response with status := internalServerError }, world)
  | (some listing, world) =>
      let response :=
        { response with contentLength := listing.contentLength }
      let (_, response, world) ← responseWritev response world listing.iov
      pure ({ response with status := statusOk }, world)

/-! ## What is listed -/

/-- The entries that are not ignored, up to the first failure. -/
def listed : List Readdir → List Dirent
  | [] => []
  | .failed :: _ => []
  | .entry res :: readings =>
      if ignoreFile res then listed readings else res :: listed readings

/-- What has been read is what is listed. -/
theorem readFilelist_eq_listed
    {readings : List Readdir} {filelist read : List Dirent}
    {world later : World}
    (reads : readFilelist readings filelist world = (some read, later)) :
    read = filelist ++ listed readings := by
  induction readings generalizing filelist world with
  | nil =>
      cases reads
      exact (List.append_nil _).symm
  | cons reading readings inductionHypothesis =>
      cases reading with
      | failed =>
          cases reads
      | entry res =>
          by_cases ignored : ignoreFile res
          · rw [readFilelist, if_pos ignored] at reads
            rw [listed, if_pos ignored]
            exact inductionHypothesis reads
          · rw [readFilelist, if_neg ignored] at reads
            rw [listed, if_neg ignored]
            rcases allocation : world.alloc with ⟨allocated, after⟩
            rw [allocation] at reads
            cases allocated with
            | false =>
                cases reads
            | true =>
                rw [inductionHypothesis reads, List.append_assoc]
                rfl

/-- A directory that has been read is listed. -/
theorem readDirectory_eq_listed
    {readings : List Readdir} {filelist : List Dirent} {world later : World}
    (reads : readDirectory readings world = (some filelist, later)) :
    filelist = listed readings := by
  rw [readDirectory] at reads
  rcases allocation : world.alloc with ⟨allocated, after⟩
  rw [allocation] at reads
  cases allocated with
  | false =>
      cases reads
  | true =>
      exact readFilelist_eq_listed reads

/-! ## What is stored -/

/-- What stands between the path and a name. -/
def separatorAfter (path : Bytes) : Bytes :=
  if path.getLast? = some separator then [] else [separator]

/-- The target of a link. -/
def target (path name : Bytes) : Bytes :=
  path ++ separatorAfter path ++ name

/-- The line of an entry. -/
def item (path name : Bytes) : Bytes :=
  ascii "      <li><a href=\"" ++ target path name ++ ascii "\">" ++ name ++
    ascii "</a></li>\n"

/-- The page that lists some names. -/
def page (path : Bytes) (names : List Bytes) : Bytes :=
  autoindexHeader1 ++ path ++ autoindexHeader2 ++ path ++ autoindexHeader3 ++
    names.flatMap (item path) ++ autoindexFooter

/-- The number of buffers of an entry. -/
def entrySize (addSeparator : Bool) : Nat :=
  if addSeparator then 7 else 6

/-- Each entry has as many buffers as any other. -/
theorem length_entryIov
    (path : Bytes) (addSeparator : Bool) (de : Dirent) :
    (entryIov path addSeparator de).length = entrySize addSeparator := by
  cases addSeparator
  · rfl
  · rfl

/-- The buffers of an entry are its line. -/
theorem flatten_entryIov
    {path : Bytes} {addSeparator : Bool}
    (adds : addSeparatorAfterPath path = .ok addSeparator) (de : Dirent) :
    (entryIov path addSeparator de).flatten = item path de.name := by
  have separated :
      (if addSeparator then [ascii "/"] else []).flatten =
        separatorAfter path := by
    rw [addSeparatorAfterPath] at adds
    cases last : path.getLast? with
    | none =>
        rw [last] at adds
        cases adds
    | some byte =>
        rw [last] at adds
        cases adds
        rw [separatorAfter, last]
        by_cases same : byte = separator
        · rw [if_pos (congrArg some same), same]
          rfl
        · rw [if_neg (mt Option.some.inj same), decide_eq_true same]
          rfl
  rw [entryIov, List.flatten_append, List.flatten_append, separated]
  simp [item, target]

/-- Storing entries for which there is room. -/
theorem storeFilelist_eq
    {niov : Nat} {path : Bytes} {addSeparator : Bool}
    (filelist : List Dirent) :
    ∀ iov : List Bytes,
      iov.length + entrySize addSeparator * filelist.length ≤ niov →
        storeFilelist niov path addSeparator iov filelist =
          .ok (iov ++ filelist.flatMap (entryIov path addSeparator)) := by
  induction filelist with
  | nil =>
      intro iov room
      rw [storeFilelist, List.flatMap_nil, List.append_nil]
  | cons de filelist inductionHypothesis =>
      intro iov room
      rw [List.length_cons, Nat.mul_succ] at room
      have size := length_entryIov path addSeparator de
      have stored :
          storeEntries niov iov (entryIov path addSeparator de) =
            .ok (iov ++ entryIov path addSeparator de) := by
        apply if_pos
        rw [size]
        omega
      rw [storeFilelist, stored, ok_bind, inductionHypothesis,
        List.flatMap_cons, List.append_assoc]
      rw [List.length_append, size]
      omega

/-- The buffers of all entries. -/
theorem length_flatMap_entryIov
    (path : Bytes) (addSeparator : Bool) (filelist : List Dirent) :
    (filelist.flatMap (entryIov path addSeparator)).length =
      entrySize addSeparator * filelist.length := by
  rw [List.length_flatMap]
  simp only [length_entryIov, List.map_const', List.sum_replicate,
    smul_eq_mul]
  exact Nat.mul_comm _ _

/-- The buffers of all entries are their lines. -/
theorem flatten_flatMap_entryIov
    {path : Bytes} {addSeparator : Bool}
    (adds : addSeparatorAfterPath path = .ok addSeparator)
    (filelist : List Dirent) :
    (filelist.flatMap (entryIov path addSeparator)).flatten =
      (filelist.map Dirent.name).flatMap (item path) := by
  induction filelist with
  | nil =>
      rfl
  | cons de filelist inductionHypothesis =>
      rw [List.flatMap_cons, List.flatten_append, inductionHypothesis,
        flatten_entryIov adds]
      rfl

/-- The array is filled, and its buffers are the page. -/
structure Listing.Holds (listing : Listing) (path : Bytes)
    (names : List Bytes) : Prop where
  filled : listing.iov.length = listing.niov
  written : listing.iov.flatten = page path names
  announced : listing.contentLength = (page path names).length

/-- A listing for which there is memory is made. -/
theorem makeListing_eq
    {path : Bytes} (filelist : List Dirent) {world later : World}
    (notEmpty : path ≠ []) (allocated : world.alloc = (true, later)) :
    ∃ listing,
      makeListing path filelist world = .ok (some listing, later) ∧
        listing.Holds path (filelist.map Dirent.name) := by
  obtain ⟨addSeparator, adds⟩ :
      ∃ addSeparator, addSeparatorAfterPath path = .ok addSeparator := by
    rw [addSeparatorAfterPath, List.getLast?_eq_getLast_of_ne_nil notEmpty]
    exact ⟨_, rfl⟩
  obtain ⟨headers, isHeaders⟩ :
      ∃ headers,
        headers =
          [autoindexHeader1, path, autoindexHeader2, path,
            autoindexHeader3] :=
    ⟨_, rfl⟩
  obtain ⟨niov, isNiov⟩ :
      ∃ niov,
        niov =
          6 + 6 * filelist.length +
            if addSeparator then filelist.length else 0 :=
    ⟨_, rfl⟩
  have five : headers.length = 5 := by
    rw [isHeaders]
    rfl
  have room :
      headers.length + entrySize addSeparator * filelist.length + 1 =
        niov := by
    rw [five, isNiov]
    cases addSeparator
    · simp only [entrySize, Bool.false_eq_true, if_false]
      omega
    · simp only [entrySize, if_true]
      omega
  let entries := filelist.flatMap (entryIov path addSeparator)
  have size :
      (headers ++ entries ++ [autoindexFooter]).length = niov := by
    rw [List.length_append, List.length_append, length_flatMap_entryIov]
    exact room
  have storedHeaders : storeEntries niov [] headers = .ok headers := by
    apply if_pos
    rw [List.length_nil, Nat.zero_add]
    omega
  have storedEntries :
      storeFilelist niov path addSeparator headers filelist =
        .ok (headers ++ entries) :=
    storeFilelist_eq filelist headers (by omega)
  have storedFooter :
      storeEntries niov (headers ++ entries) [autoindexFooter] =
        .ok (headers ++ entries ++ [autoindexFooter]) := by
    apply if_pos
    rw [← List.length_append, size]
  have written :
      (headers ++ entries ++ [autoindexFooter]).flatten =
        page path (filelist.map Dirent.name) := by
    rw [List.flatten_append, List.flatten_append,
      flatten_flatMap_entryIov adds, isHeaders, page]
    simp
  refine
    ⟨⟨niov, headers ++ entries ++ [autoindexFooter],
      (page path (filelist.map Dirent.name)).length⟩, ?_, size, written, rfl⟩
  rw [makeListing, adds, ok_bind]
  dsimp only
  rw [← isNiov, ← isHeaders, allocated]
  dsimp only
  rw [storedHeaders, ok_bind, storedEntries, ok_bind, storedFooter,
    ok_bind, if_pos size, ← List.length_flatten, written]
  rfl

/-- An empty path is read at its last byte all the same. -/
theorem makeListing_of_nil (filelist : List Dirent) (world : World) :
    makeListing [] filelist world = .error .outOfBounds :=
  rfl

/-! ## What is emitted -/

/-- A first write on a connection that takes every buffer whole. -/
theorem responseWritev_output
    {response after : Response} {world later : World} {iov : List Bytes}
    {nwritten : Int}
    (fresh : response.headersFlushed = false)
    (serves : ServesHead response world)
    (whole :
      (headServed response world).TakesWhole (iov.map List.length))
    (notEmpty : ∀ buf ∈ iov, buf ≠ [])
    (writes :
      responseWritev response world iov = .ok (nwritten, after, later)) :
    later.output =
      world.output ++ (head (completed response) ++ iov.flatten) := by
  obtain ⟨served, flushes, body⟩ := responseWritev_inv writes
  obtain ⟨-, isServed⟩ := flushHeaders_of_serves fresh serves flushes
  have taken : served.TakesWhole (iov.map List.length) := by
    rw [isServed]
    exact (World.takesWhole_emit _ _ _).mpr whole
  have received :
      served.output = world.output ++ head (completed response) := by
    rw [isServed, World.emit_output, headServed, World.offered_output,
      allocEach_output]
  obtain ⟨_, _, all⟩ := of_bind body
  rw [tcpSocketWritevFrom_of_takesWhole _ notEmpty _ _ taken] at all
  cases all
  rw [World.emit_output, World.offered_output, received, List.append_assoc]

/--
On a connection that takes every buffer whole, the client receives a head that
announces the page, and the page.
-/
theorem directoryHandler_output
    {path : Bytes} {readings : List Readdir}
    {response announcing after : Response}
    {world read later : World} {listing : Listing} {names : List Bytes}
    (lists : listDirectory path readings world = .ok (some listing, read))
    (holds : listing.Holds path names)
    (announces :
      announcing =
        { response with contentLength := (page path names).length })
    (fresh : announcing.headersFlushed = false)
    (serves : ServesHead announcing read)
    (whole :
      (headServed announcing read).TakesWhole
        (listing.iov.map List.length))
    (notEmpty : ∀ buf ∈ listing.iov, buf ≠ [])
    (handled :
      directoryHandler path readings response world = .ok (after, later)) :
    later.output =
      read.output ++ (head (completed announcing) ++ page path names) := by
  rw [directoryHandler, lists, ok_bind] at handled
  dsimp only at handled
  rw [holds.announced, ← announces] at handled
  obtain ⟨⟨nwritten, headed, sent⟩, writes, done⟩ := of_bind handled
  cases done
  rw [← holds.written]
  exact responseWritev_output fresh serves whole notEmpty writes

end Dfk.Middleware
