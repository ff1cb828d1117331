import Dfk.Library.Paths
import Dfk.Middleware.FileServer

/-!
# Where the file server looks

The path of a request is appended to the base path as it is.  What it leads to
is inside the base directory exactly if its own steps up, taken together with
the last name of the base path, come back through the names they leave.
-/

namespace Dfk.Middleware

open Http Paths Paths.Location

variable {σ : Type}

/-- `/` -/
def slash : UInt8 := 47

/-- `.` -/
def dot : UInt8 := 46

/-! ## Resolving paths -/

/-- The parts of a path between its slashes. -/
def pieces : Bytes → List Bytes
  | [] => [[]]
  | byte :: bytes =>
      if byte = slash then [] :: pieces bytes
      else
        match pieces bytes with
        | [] => [[byte]]
        | piece :: later => (byte :: piece) :: later

/-- What a part of a path stands for. -/
def segment (piece : Bytes) : Segment Bytes :=
  if piece = [] ∨ piece = [dot] then .stay
  else if piece = [dot, dot] then .up
  else .down piece

/-- What a path stands for. -/
def segments (path : Bytes) : List (Segment Bytes) :=
  (pieces path).map segment

/-- Where a path leads to, links left aside. -/
def resolve (path : Bytes) : Location Bytes :=
  (start (path.head? = some slash)).walk (segments path)

theorem pieces_ne_nil (path : Bytes) : pieces path ≠ [] := by
  cases path with
  | nil =>
      exact List.cons_ne_nil _ _
  | cons byte path =>
      rw [pieces]
      split
      · exact List.cons_ne_nil _ _
      · split
        · exact List.cons_ne_nil _ _
        · exact List.cons_ne_nil _ _

/-- A path may be taken apart at a slash. -/
theorem pieces_append_slash (before after : Bytes) :
    pieces (before ++ slash :: after) = pieces before ++ pieces after := by
  induction before with
  | nil =>
      rw [List.nil_append, pieces.eq_2, if_pos rfl]
      rfl
  | cons byte before inductionHypothesis =>
      rw [List.cons_append, pieces, pieces]
      split
      · rw [inductionHypothesis]
        rfl
      · rw [inductionHypothesis]
        cases first : pieces before with
        | nil =>
            exact absurd first (pieces_ne_nil before)
        | cons piece later =>
            rfl

/-- Without a slash a path is one part. -/
theorem pieces_of_no_slash (path : Bytes) (plain : slash ∉ path) :
    pieces path = [path] := by
  induction path with
  | nil =>
      rfl
  | cons byte path inductionHypothesis =>
      rw [List.mem_cons, not_or] at plain
      rw [pieces, if_neg (Ne.symm plain.1), inductionHypothesis plain.2]

/-- A single part stays, goes up once or goes down once. -/
theorem reduce_segment (piece : Bytes) :
    (reduce [segment piece]).ups = 0 ∨ (reduce [segment piece]).names = [] := by
  cases segment piece with
  | stay => exact Or.inl rfl
  | up => exact Or.inr rfl
  | down name => exact Or.inl rfl

/-! ## The last name of a path -/

/-- What stands behind the last slash. -/
def lastPiece (path : Bytes) : Bytes := path.rtakeWhile (· ≠ slash)

/-- What stands before it, the slash included. -/
def front (path : Bytes) : Bytes := path.rdropWhile (· ≠ slash)

theorem front_append_lastPiece (path : Bytes) :
    front path ++ lastPiece path = path :=
  List.rdropWhile_append_rtakeWhile

theorem lastPiece_plain (path : Bytes) : slash ∉ lastPiece path := by
  intro member
  have other := List.mem_rtakeWhile_imp member
  exact absurd rfl (of_decide_eq_true other)

/-- The front is empty, or ends with a slash. -/
theorem front_cases (path : Bytes) :
    front path = [] ∨ ∃ before, front path = before ++ [slash] := by
  by_cases nothing : front path = []
  · exact Or.inl nothing
  · right
    have last : (front path).getLast nothing = slash := by
      apply Decidable.byContradiction
      intro other
      exact List.rdropWhile_last_not _ _ nothing (decide_eq_true other)
    refine ⟨(front path).dropLast, ?_⟩
    rw [← last, List.dropLast_append_getLast]

/-- What follows a front is walked from where the front leads to. -/
theorem resolve_front_append
    (path follow : Bytes)
    (relative : front path = [] → follow.head? ≠ some slash) :
    resolve (front path ++ follow) =
      (resolve (front path)).walk (segments follow) := by
  rcases front_cases path with nothing | ⟨before, isFront⟩
  · rw [nothing, List.nil_append, resolve, resolve,
      decide_eq_false (relative nothing)]
    rfl
  · have appended : before ++ [slash] ++ follow = before ++ slash :: follow :=
      List.append_assoc _ _ _
    have root :
        (before ++ slash :: follow).head? = (before ++ [slash]).head? := by
      cases before with
      | nil => rfl
      | cons byte before => rfl
    have parts :
        segments (before ++ slash :: follow) =
          segments before ++ segments follow := by
      rw [segments, pieces_append_slash, List.map_append]
      rfl
    have frontParts :
        segments (before ++ [slash]) = segments before ++ [.stay] := by
      rw [segments, pieces_append_slash, List.map_append]
      rfl
    rw [isFront, appended, resolve, resolve, root, parts, frontParts,
      walk_append, walk_append]
    rfl

/-! ## Confinement -/

/-- The part of a request path that the operating system sees. -/
def seen (basepath path : Bytes) : Bytes :=
  if 0 ∈ basepath then [] else cString path

/-- A string that does not end within another one goes on behind it. -/
theorem cString_append_of_plain
    {before : Bytes} (after : Bytes) (plain : 0 ∉ before) :
    cString (before ++ after) = before ++ cString after := by
  apply List.takeWhile_append_of_pos
  intro byte member
  apply decide_eq_true
  intro zero
  rw [zero] at member
  exact plain member

/-- A string that ends within another one does not see what is behind it. -/
theorem cString_append_of_ended
    {before : Bytes} (after : Bytes) (ended : 0 ∈ before) :
    cString (before ++ after) = cString before := by
  induction before with
  | nil =>
      cases ended
  | cons byte before inductionHypothesis =>
      rw [List.cons_append, cString, cString, List.takeWhile_cons,
        List.takeWhile_cons]
      by_cases zero : byte = 0
      · rw [zero]
        rfl
      · have later : 0 ∈ before := by
          rcases List.mem_cons.mp ended with here | later
          · exact absurd here.symm zero
          · exact later
        rw [if_pos (decide_eq_true zero), if_pos (decide_eq_true zero)]
        exact congrArg (byte :: ·) (inductionHypothesis later)

/-- The operating system sees the base path and a part of the request path. -/
theorem cString_fullpath (fs : FileServer) (request : Request σ) :
    cString (fullpath fs request) =
      cString fs.basepath ++ seen fs.basepath request.path := by
  rw [fullpath, List.append_assoc, seen]
  by_cases ended : 0 ∈ fs.basepath
  · rw [cString_append_of_ended _ ended, if_pos ended, List.append_nil]
  · have whole : cString fs.basepath = fs.basepath := by
      have self := cString_append_of_plain [] ended
      rw [List.append_nil] at self
      exact self.trans (List.append_nil _)
    rw [cString_append_of_plain _ ended, if_neg ended, whole]
    congr 1
    by_cases endedPath : 0 ∈ request.path
    · exact cString_append_of_ended _ endedPath
    · have wholePath := cString_append_of_plain [] endedPath
      rw [List.append_nil] at wholePath
      rw [cString_append_of_plain _ endedPath, wholePath]
      rfl

/--
The request path comes back into the base directory: taken together with the
last name of the base path, its steps up are followed by the names they leave.
-/
def StaysIn (basepath path : Bytes) : Prop :=
  (basepath = [] → path.head? ≠ some slash) ∧
    (resolve (front basepath)).ComesBack
      (reduce (segments (lastPiece basepath)))
      (reduce (segments (lastPiece basepath ++ path)))

/-- The last name of a path is a single part. -/
theorem segments_lastPiece (path : Bytes) :
    segments (lastPiece path) = [segment (lastPiece path)] := by
  rw [segments, pieces_of_no_slash _ (lastPiece_plain path)]
  rfl

/-- A path is inside the directory it is appended to if it comes back into it. -/
theorem inside_iff_staysIn (basepath path : Bytes) :
    (resolve basepath).Inside (resolve (basepath ++ path)) ↔
      StaysIn basepath path := by
  by_cases rooted : basepath = [] → path.head? ≠ some slash
  · have relative :
        front basepath = [] → (lastPiece basepath).head? ≠ some slash := by
      intro _ head
      exact lastPiece_plain basepath (List.mem_of_head? head)
    have relativeFile :
        front basepath = [] →
          (lastPiece basepath ++ path).head? ≠ some slash := by
      intro nothing
      cases last : lastPiece basepath with
      | nil =>
          have empty : basepath = [] := by
            rw [← front_append_lastPiece basepath, nothing, last]
            rfl
          exact rooted empty
      | cons byte later =>
          rw [last] at relative
          exact relative nothing
    have directory :
        resolve basepath =
          (resolve (front basepath)).climb
            (reduce (segments (lastPiece basepath))) := by
      rw [← walk_eq_climb, ← resolve_front_append basepath _ relative,
        front_append_lastPiece]
    have file :
        resolve (basepath ++ path) =
          (resolve (front basepath)).climb
            (reduce (segments (lastPiece basepath ++ path))) := by
      rw [← walk_eq_climb, ← resolve_front_append basepath _ relativeFile,
        ← List.append_assoc, front_append_lastPiece]
    have simple :
        (reduce (segments (lastPiece basepath))).ups = 0 ∨
          (reduce (segments (lastPiece basepath))).names = [] := by
      rw [segments_lastPiece]
      exact reduce_segment _
    rw [directory, file, inside_climb_iff simple, StaysIn]
    exact ⟨fun back => ⟨rooted, back⟩, fun stays => stays.2⟩
  · apply iff_of_false
    · intro inside
      rw [Classical.not_imp, not_not] at rooted
      obtain ⟨rfl, head⟩ := rooted
      have same := inside.1
      rw [resolve, resolve, walk_absolute, walk_absolute, List.nil_append, head]
        at same
      cases same
    · intro stays
      exact rooted stays.1

/--
All paths that the handler passes to the operating system are inside the base
directory exactly if the path of the request comes back into it, unless none is
passed at all.
-/
theorem confined_iff
    (fs : FileServer) (files : FileSystem) (request : Request σ)
    (world : World) :
    (∀ call ∈ (fileserverHandler fs files request world).calls,
        (resolve (cString fs.basepath)).Inside (resolve call.path)) ↔
      (request.method = methodGet → world.alloc.1 = true →
        StaysIn (cString fs.basepath) (seen fs.basepath request.path)) := by
  have path :
      ∀ call ∈ (fileserverHandler fs files request world).calls,
        call.path = cString fs.basepath ++ seen fs.basepath request.path :=
    fun call member => (path_of_call member).trans (cString_fullpath fs request)
  constructor
  · intro inside get allocated
    obtain ⟨call, member⟩ :=
      List.exists_mem_of_ne_nil _ (calls_nonempty_iff.mpr ⟨get, allocated⟩)
    have within := inside call member
    rw [path call member] at within
    exact (inside_iff_staysIn _ _).mp within
  · intro stays call member
    obtain ⟨get, allocated⟩ :=
      calls_nonempty_iff.mp (List.ne_nil_of_mem member)
    rw [path call member]
    exact (inside_iff_staysIn _ _).mpr (stays get allocated)

/-- The head of a request for a file outside. -/
def passwdHead : Bytes := ascii "GET /../../etc/passwd HTTP/1.1\r\n\r\n"

/-- A parser of this head, which takes the whole target for a path. -/
def passwdParser : HttpParser HeadState :=
  { oneHead passwdHead [.messageBegin, .url ⟨4, 17⟩, .headersComplete] 0 with
    parseUrl := fun url =>
      some { path := some ⟨0, url.length⟩, query := none, fragment := none } }

/-- A client that has sent the head. -/
def passwdClient : World where
  input := passwdHead
  output := []
  reads := []
  writes := []
  waits := []
  allocations := []

/-- Buffers large enough for the head. -/
def headBuffers : Config where
  keepaliveRequests := 100
  headerMaxSize := 64
  headersBufferSize := 64
  headersBufferCount := 1

/-- The request for the file. -/
def passwdRequest : Request HeadState :=
  { Request.init passwdParser with
    majorVersion := 1
    minorVersion := 1
    method := 1
    url := ascii "/../../etc/passwd"
    path := ascii "/../../etc/passwd"
    contentLength := 0
    keepalive := true
    remainder := ascii "\n"
    parser := { state := .body 1 0, httpErrno := .ok } }

/-- A file system with a file wherever one is asked for. -/
def anyFile : FileSystem where
  stat := fun _ => .other
  opendir := fun _ => true
  fopen := fun _ => true

/-- The request is accepted, and a file outside the base directory opened. -/
theorem passwd_opened :
    readHeaders passwdParser headBuffers (fun _ _ => 0) 1 passwdClient =
        .ok (.ok, passwdRequest, { passwdClient with input := [] }) ∧
      (fileserverHandler (init (ascii "/srv/www")) anyFile passwdRequest
          passwdClient).calls =
        [.stat (ascii "/srv/www/../../etc/passwd"),
          .fopen (ascii "/srv/www/../../etc/passwd")] ∧
      ¬ (resolve (ascii "/srv/www")).Inside
        (resolve (ascii "/srv/www/../../etc/passwd")) := by
  refine ⟨by decide, by decide, by decide⟩

end Dfk.Middleware
