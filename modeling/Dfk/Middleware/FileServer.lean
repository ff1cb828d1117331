import Dfk.Http.Request

/-!
# The file server

`dfk_fileserver_handler`, up to the point at which the listing of a directory
or the contents of a file are written: which paths it hands to the operating
system, and how it answers when it does not get further.
-/

namespace Dfk.Middleware

open Http

variable {σ : Type}

/-- `dfk_fileserver_t` -/
structure FileServer where
  /-- `_basepathlen` bytes at `_basepath` -/
  basepath : Bytes
  autoindex : Bool
  deriving Repr, DecidableEq

/-- `dfk_fileserver_init`, once its copy of the base path is allocated. -/
def init (basepath : Bytes) : FileServer where
  basepath := basepath
  autoindex := true

/-- What `stat` finds. -/
inductive FileStatus where
  /-- `ENOENT` or `ENOTDIR` -/
  | missing
  | failed
  | directory
  | other
  deriving Repr, DecidableEq

/-- How the operating system answers. -/
structure FileSystem where
  stat : Bytes → FileStatus
  opendir : Bytes → Bool
  fopen : Bytes → Bool

/-- A call of the operating system with a path. -/
inductive FileCall where
  | stat (path : Bytes)
  | opendir (path : Bytes)
  | fopen (path : Bytes)
  deriving Repr, DecidableEq

/-- The path of a call. -/
def FileCall.path : FileCall → Bytes
  | .stat path => path
  | .opendir path => path
  | .fopen path => path

/-- What the handler has done before it writes a body. -/
structure Handled where
  calls : List FileCall
  /-- The status it has set, if it does not write a body. -/
  status : Option Nat
  world : World
  deriving Repr, DecidableEq

/-- `DFK_HTTP_GET` -/
def methodGet : Nat := 1

/-- `DFK_HTTP_NOT_FOUND` -/
def notFound : Nat := 404

/-- `DFK_HTTP_METHOD_NOT_ALLOWED` -/
def methodNotAllowed : Nat := 405

/-- The string that ends at the first zero byte. -/
def cString (bytes : Bytes) : Bytes := bytes.takeWhile (· ≠ 0)

/-- `fullpath` -/
def fullpath (fs : FileServer) (request : Request σ) : Bytes :=
  fs.basepath ++ request.path ++ [0]

/-- `dfk_fileserver_handler` -/
def fileserverHandler (fs : FileServer) (files : FileSystem)
    (request : Request σ) (world : World) : Handled :=
  if request.method = methodGet then
    let (allocated, world) := world.alloc
    if allocated then
      let fullpath := cString (fullpath fs request)
      match files.stat fullpath with
      | .missing => ⟨[.stat fullpath], some notFound, world⟩
      | .failed => ⟨[.stat fullpath], some internalServerError, world⟩
      | .directory =>
          if !fs.autoindex then ⟨[.stat fullpath], some notFound, world⟩
          else
            ⟨[.stat fullpath, .opendir fullpath],
              if files.opendir fullpath then none
              else some internalServerError,
              world⟩
      | .other =>
          ⟨[.stat fullpath, .fopen fullpath],
            if files.fopen fullpath then none
            else some internalServerError,
            world⟩
    else ⟨[], some internalServerError, world⟩
  else ⟨[], some methodNotAllowed, world⟩

/-- Every path the handler passes is the full path. -/
theorem path_of_call
    {fs : FileServer} {files : FileSystem} {request : Request σ}
    {world : World} {call : FileCall}
    (member : call ∈ (fileserverHandler fs files request world).calls) :
    call.path = cString (fullpath fs request) := by
  rw [fileserverHandler] at member
  split at member
  · dsimp only at member
    split at member
    · split at member
      · rw [List.mem_singleton.mp member]
        rfl
      · rw [List.mem_singleton.mp member]
        rfl
      · split at member
        · rw [List.mem_singleton.mp member]
          rfl
        · rcases List.mem_pair.mp member with isStat | isOpen
          · rw [isStat]
            rfl
          · rw [isOpen]
            rfl
      · rcases List.mem_pair.mp member with isStat | isOpen
        · rw [isStat]
          rfl
        · rw [isOpen]
          rfl
    · cases member
  · cases member

/-- The handler passes a path if the request is for one and memory suffices. -/
theorem calls_nonempty_iff
    {fs : FileServer} {files : FileSystem} {request : Request σ}
    {world : World} :
    (fileserverHandler fs files request world).calls ≠ [] ↔
      request.method = methodGet ∧ world.alloc.1 = true := by
  rw [fileserverHandler]
  by_cases get : request.method = methodGet
  · rw [if_pos get]
    dsimp only
    by_cases allocated : world.alloc.1 = true
    · rw [if_pos allocated]
      apply iff_of_true _ ⟨get, allocated⟩
      split
      · exact List.cons_ne_nil _ _
      · exact List.cons_ne_nil _ _
      · split
        · exact List.cons_ne_nil _ _
        · exact List.cons_ne_nil _ _
      · exact List.cons_ne_nil _ _
    · rw [if_neg allocated]
      apply iff_of_false
      · exact not_not_intro rfl
      · intro both
        exact allocated both.2
  · rw [if_neg get]
    apply iff_of_false
    · exact not_not_intro rfl
    · intro both
      exact get both.1

end Dfk.Middleware
