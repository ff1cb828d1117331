import Dfk.Fault
import Dfk.Bytes

/-!
# Arenas

`arena.c` after the source.  A segment is a block of `malloc`; its header takes
the first bytes of it.  `size_t` arithmetic is modulo 2 ^ 64.
-/

namespace Dfk.Arena

/-- Sizes that are fixed when the library is built. -/
structure Layout where
  /-- `DFK_ARENA_SEGMENT_SIZE` -/
  segmentSize : Nat
  /-- `sizeof(segment_t)` -/
  headerSize : Nat
  /-- `sizeof(owc_t)` -/
  owcSize : Nat
  headerFits : headerSize ≤ segmentSize
  bounded : segmentSize < 2 ^ 64

/-- A `size_t`. -/
def sizeT (value : Nat) : Nat :=
  value % 2 ^ 64

/-- `segment_t`, and the size of the `malloc` block it stands in. -/
structure Segment where
  mallocSize : Nat
  size : Nat
  used : Nat
  deriving Repr, DecidableEq

/-- A place in the `malloc` block of a segment. -/
structure Pointer where
  segment : Nat
  offset : Nat
  deriving Repr, DecidableEq

/-- `owc_t`, at its place. -/
structure Owc where
  place : Pointer
  cleanup : Nat
  deriving Repr, DecidableEq

/-- `dfk_arena_t`, with the bytes in the blocks of its segments. -/
structure State where
  segments : List Segment
  owc : List Owc
  memory : Nat → Nat → UInt8

/-- `dfk_arena_init`; a block of `malloc` holds any bytes at first. -/
def init (memory : Nat → Nat → UInt8) : State where
  segments := []
  owc := []
  memory := memory

/-- `dfk__arena_bytes_available` of the current segment. -/
def bytesAvailable (segment : Segment) : Except Fault Nat := do
  check (segment.used < segment.size)
  pure (sizeT (2 ^ 64 + segment.size - segment.used))

/-- The branch of `dfk_arena_alloc` that begins a segment. -/
def beginSegment (layout : Layout) (arena : State) (answer : Bool)
    (size : Nat) : Option Pointer × State :=
  let toalloc := max layout.segmentSize (sizeT (size + layout.headerSize))
  if answer then
    (some { segment := arena.segments.length, offset := layout.headerSize },
      { arena with
        segments :=
          arena.segments ++
            [{ mallocSize := toalloc
               size := layout.segmentSize - layout.headerSize
               used := sizeT (layout.headerSize + size) }] })
  else (none, arena)

/-- `dfk_arena_alloc`, `malloc` giving an answer if it is called. -/
def alloc (layout : Layout) (arena : State) (answer : Bool) (size : Nat) :
    Except Fault (Option Pointer × State) := do
  check (size ≠ 0)
  match arena.segments.getLast? with
  | none => pure (beginSegment layout arena answer size)
  | some segment => do
      if (← bytesAvailable segment) < size then
        pure (beginSegment layout arena answer size)
      else
        pure
          (some
            { segment := arena.segments.length - 1, offset := segment.used },
            { arena with
              segments :=
                arena.segments.dropLast ++
                  [{ segment with used := sizeT (segment.used + size) }] })

/-- Whether bytes at a place stand in the block of a segment. -/
def State.covers (arena : State) (pointer : Pointer) (size : Nat) : Bool :=
  match arena.segments[pointer.segment]? with
  | some segment => pointer.offset + size ≤ segment.mallocSize
  | none => false

/-- `memcpy` to a place. -/
def copy (arena : State) (pointer : Pointer) (data : Bytes) :
    Except Fault State :=
  if arena.covers pointer data.length then
    .ok
      { arena with
        memory := fun segment offset =>
          if segment = pointer.segment ∧ pointer.offset ≤ offset ∧
              offset < pointer.offset + data.length then
            data.getD (offset - pointer.offset) 0
          else arena.memory segment offset }
  else .error .outOfBounds

/-- `dfk_arena_alloc_copy` -/
def allocCopy (layout : Layout) (arena : State) (answer : Bool)
    (data : Bytes) : Except Fault (Option Pointer × State) := do
  check (data ≠ [])
  match ← alloc layout arena answer data.length with
  | (some allocated, arena) => do
      pure (some allocated, ← copy arena allocated data)
  | (none, arena) => pure (none, arena)

/-- `dfk_arena_alloc_ex` -/
def allocEx (layout : Layout) (arena : State) (answer : Bool)
    (size cleanup : Nat) : Except Fault (Option Pointer × State) := do
  check (size ≠ 0)
  match ← alloc layout arena answer (sizeT (layout.owcSize + size)) with
  | (some owc, arena) =>
      if arena.covers owc layout.owcSize then
        pure
          (some { owc with offset := owc.offset + layout.owcSize },
            { arena with
              owc := arena.owc ++ [{ place := owc, cleanup := cleanup }] })
      else .error .outOfBounds
  | (none, arena) => pure (none, arena)

/-- Calls on an arena. -/
inductive Call where
  | alloc (size : Nat)
  | allocCopy (data : Bytes)
  | allocEx (size cleanup : Nat)
  deriving Repr, DecidableEq

/-- The size that a call asks for. -/
def Call.size : Call → Nat
  | .alloc size => size
  | .allocCopy data => data.length
  | .allocEx size _ => size

/-- Make a call. -/
def perform (layout : Layout) (arena : State) (answer : Bool) :
    Call → Except Fault (Option Pointer × State)
  | .alloc size => alloc layout arena answer size
  | .allocCopy data => allocCopy layout arena answer data
  | .allocEx size cleanup => allocEx layout arena answer size cleanup

end Dfk.Arena
