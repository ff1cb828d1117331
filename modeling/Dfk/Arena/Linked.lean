import Dfk.Arena.Disjointness
import Dfk.LinkedList.Refinement

/-!
# Arenas on their lists

`arena.c` once more, with the two lists of an arena as `list.c` keeps them: the
hooks stand in the segments and in the records of objects with a cleanup, which
themselves stand in the segments.  A segment that has been freed is gone.
-/

namespace Dfk.Arena

/-- What the hooks of an arena stand in. -/
inductive Hook where
  /-- A `segment_t`, by the order of its `malloc`. -/
  | segment (index : Nat)
  /-- An `owc_t` at its place. -/
  | owc (place : Pointer)
  deriving Repr, DecidableEq

/-- The lists of an arena. -/
inductive ListName where
  | segments
  | owc
  deriving Repr, DecidableEq

/-- `dfk_arena_t` with everything it refers to. -/
structure Linked where
  lists : LinkedList.Memory Hook ListName
  /-- What `malloc` has given, as long as it has not been freed. -/
  blocks : List (Option Segment)
  /-- `cleanup` of the `owc_t` at a place. -/
  cleanups : Pointer → Nat
  memory : Nat → Nat → UInt8

/-- `dfk_list_hook_init` -/
def hookInit (lists : LinkedList.Memory Hook ListName) (hook : Hook) :
    LinkedList.Memory Hook ListName :=
  lists.modify hook fun _ => { next := none, prev := none }

namespace Linked

/-- `dfk_arena_init` -/
def init (fuel : Nat) (constantTimeSize : Bool) (arena : Linked) :
    Except Fault Linked := do
  let lists ←
    LinkedList.init fuel constantTimeSize arena.lists ListName.segments
  let lists ← LinkedList.init fuel constantTimeSize lists ListName.owc
  pure { arena with lists := lists }

/-- The `segment_t` of a block. -/
def segment (arena : Linked) (index : Nat) : Except Fault Segment :=
  deref arena.blocks[index]?.join

/-- The segment a hook stands in. -/
def segmentOf : Option Hook → Except Fault Nat
  | some (.segment index) => .ok index
  | _ => .error .nullPointer

/-- The place of the record a hook stands in. -/
def recordOf : Option Hook → Except Fault Pointer
  | some (.owc place) => .ok place
  | _ => .error .nullPointer

/-- `dfk__arena_current_segment` -/
def currentSegment (fuel : Nat) (arena : Linked) : Except Fault Nat := do
  let last ← LinkedList.back fuel arena.lists ListName.segments
  segmentOf last

/-- `dfk__arena_bytes_available` -/
def bytesAvailable (fuel : Nat) (arena : Linked) : Except Fault Nat := do
  let index ← currentSegment fuel arena
  let segment ← arena.segment index
  Arena.bytesAvailable segment

/-- The branch of `dfk_arena_alloc` that begins a segment. -/
def beginSegment (layout : Layout) (fuel : Nat) (arena : Linked)
    (answer : Bool) (size : Nat) :
    Except Fault (Option Pointer × Linked) :=
  if answer then do
    let index := arena.blocks.length
    let lists ←
      LinkedList.append fuel (hookInit arena.lists (.segment index))
        ListName.segments (.segment index)
    pure
      (some { segment := index, offset := layout.headerSize },
        { arena with
          lists := lists
          blocks :=
            arena.blocks ++
              [some
                { mallocSize :=
                    max layout.segmentSize (sizeT (size + layout.headerSize))
                  size := layout.segmentSize - layout.headerSize
                  used := sizeT (layout.headerSize + size) }] })
  else .ok (none, arena)

/-- The branch of `dfk_arena_alloc` for the current segment. -/
def useSegment (fuel : Nat) (arena : Linked) (size : Nat) :
    Except Fault (Option Pointer × Linked) := do
  let index ← currentSegment fuel arena
  let segment ← arena.segment index
  pure
    (some { segment := index, offset := segment.used },
      { arena with
        blocks :=
          arena.blocks.set index
            (some { segment with used := sizeT (segment.used + size) }) })

/-- `dfk_arena_alloc` -/
def alloc (layout : Layout) (fuel : Nat) (arena : Linked) (answer : Bool)
    (size : Nat) : Except Fault (Option Pointer × Linked) := do
  check (size ≠ 0)
  let isEmpty ← LinkedList.empty fuel arena.lists ListName.segments
  if isEmpty then beginSegment layout fuel arena answer size
  else do
    let available ← bytesAvailable fuel arena
    if available < size then beginSegment layout fuel arena answer size
    else useSegment fuel arena size

/-- Whether bytes at a place stand in a block that has not been freed. -/
def covers (arena : Linked) (pointer : Pointer) (size : Nat) : Bool :=
  arena.blocks[pointer.segment]?.join.any fun segment =>
    pointer.offset + size ≤ segment.mallocSize

/-- `memcpy` to a place. -/
def copy (arena : Linked) (pointer : Pointer) (data : Bytes) :
    Except Fault Linked :=
  if arena.covers pointer data.length then
    .ok
      { arena with
        memory := fun segment offset =>
          if segment = pointer.segment ∧ pointer.offset ≤ offset ∧
              offset < pointer.offset + data.length then
            data.getD (offset - pointer.offset) 0
          else arena.memory segment offset }
  else .error .outOfBounds

/-- Copy to a block, if there is one. -/
def copyTo (data : Bytes) (allocated : Option Pointer × Linked) :
    Except Fault (Option Pointer × Linked) :=
  match allocated.1 with
  | some place => do
      let arena ← allocated.2.copy place data
      pure (some place, arena)
  | none => .ok (none, allocated.2)

/-- `dfk_arena_alloc_copy` -/
def allocCopy (layout : Layout) (fuel : Nat) (arena : Linked)
    (answer : Bool) (data : Bytes) :
    Except Fault (Option Pointer × Linked) := do
  check (data ≠ [])
  let allocated ← alloc layout fuel arena answer data.length
  copyTo data allocated

/-- What `dfk_arena_alloc_ex` does with the block it has allocated. -/
def register (layout : Layout) (fuel cleanup : Nat)
    (allocated : Option Pointer × Linked) :
    Except Fault (Option Pointer × Linked) :=
  match allocated.1 with
  | some owc =>
      if allocated.2.covers owc layout.owcSize then do
        let lists ←
          LinkedList.append fuel (hookInit allocated.2.lists (.owc owc))
            ListName.owc (.owc owc)
        pure
          (some { owc with offset := owc.offset + layout.owcSize },
            { allocated.2 with
              lists := lists
              cleanups :=
                Function.update allocated.2.cleanups owc cleanup })
      else .error .outOfBounds
  | none => .ok (none, allocated.2)

/-- `dfk_arena_alloc_ex` -/
def allocEx (layout : Layout) (fuel : Nat) (arena : Linked) (answer : Bool)
    (size cleanup : Nat) : Except Fault (Option Pointer × Linked) := do
  check (size ≠ 0)
  let allocated ←
    alloc layout fuel arena answer (sizeT (layout.owcSize + size))
  register layout fuel cleanup allocated

/-- `dfk_arena_alloc_copy_ex` -/
def allocCopyEx (layout : Layout) (fuel : Nat) (arena : Linked)
    (answer : Bool) (data : Bytes) (cleanup : Nat) :
    Except Fault (Option Pointer × Linked) := do
  check (data ≠ [])
  let allocated ← allocEx layout fuel arena answer data.length cleanup
  copyTo data allocated

/-! ## Release -/

/-- What `dfk_arena_free` does that can be seen from outside. -/
inductive Event where
  | cleanup (cleanup : Nat) (object : Pointer)
  | freed (segment : Nat)
  deriving Repr, DecidableEq

/-- The loop of `dfk_arena_free` over the objects with a cleanup. -/
def cleanFrom (layout : Layout) (fuel : Nat) (arena : Linked)
    (stop : LinkedList.It Hook) :
    Nat → LinkedList.It Hook → List Event → Except Fault (List Event)
  | 0, _, _ => .error .outOfFuel
  | rounds + 1, it, events => do
      let isEnd ← LinkedList.itEqual fuel arena.lists it stop
      if isEnd then pure events
      else do
        let owc ← recordOf it.value
        -- the record is read, so that its segment must still be there
        let _ ← arena.segment owc.segment
        let object := { owc with offset := owc.offset + layout.owcSize }
        let it ← LinkedList.itNext fuel arena.lists it
        cleanFrom layout fuel arena stop rounds it
          (events ++ [.cleanup (arena.cleanups owc) object])

/-- The loop of `dfk_arena_free` over the segments. -/
def freeFrom (fuel : Nat) :
    Nat → Linked → List Event → Except Fault (List Event × Linked)
  | 0, _, _ => .error .outOfFuel
  | rounds + 1, arena, events => do
      let isEmpty ← LinkedList.empty fuel arena.lists ListName.segments
      if isEmpty then pure (events, arena)
      else do
        let front ← LinkedList.front fuel arena.lists ListName.segments
        let index ← segmentOf front
        let lists ←
          LinkedList.popFront fuel arena.lists ListName.segments
        let _ ← arena.segment index
        freeFrom fuel rounds
          { arena with
            lists := lists
            blocks := arena.blocks.set index none }
          (events ++ [.freed index])

/-- `dfk_arena_free` -/
def free (layout : Layout) (fuel : Nat) (arena : Linked) :
    Except Fault (List Event × Linked) := do
  let it ← LinkedList.begin fuel arena.lists ListName.owc
  let stop ← LinkedList.listEnd fuel arena.lists ListName.owc
  let events ← cleanFrom layout fuel arena stop fuel it []
  freeFrom fuel fuel arena events

/-! ## Requests -/

/-- Calls on an arena that allocate. -/
inductive Request where
  | alloc (size : Nat)
  | allocCopy (data : Bytes)
  | allocEx (size cleanup : Nat)
  | allocCopyEx (data : Bytes) (cleanup : Nat)
  deriving Repr, DecidableEq

/-- The cleanup a request comes with. -/
def Request.cleanup? : Request → Option Nat
  | .alloc _ | .allocCopy _ => none
  | .allocEx _ cleanup | .allocCopyEx _ cleanup => some cleanup

/-- Make a request. -/
def perform (layout : Layout) (fuel : Nat) (arena : Linked)
    (answer : Bool) : Request → Except Fault (Option Pointer × Linked)
  | .alloc size => alloc layout fuel arena answer size
  | .allocCopy data => allocCopy layout fuel arena answer data
  | .allocEx size cleanup => allocEx layout fuel arena answer size cleanup
  | .allocCopyEx data cleanup =>
      allocCopyEx layout fuel arena answer data cleanup

/-- Make requests, each with the answer of `malloc` if it is asked. -/
def performAll (layout : Layout) (fuel : Nat) :
    Linked → List (Request × Bool) →
      Except Fault (List (Option Pointer) × Linked)
  | arena, [] => .ok ([], arena)
  | arena, made :: requests => do
      let first ← perform layout fuel arena made.2 made.1
      let rest ← performAll layout fuel first.2 requests
      pure (first.1 :: rest.1, rest.2)

end Linked

end Dfk.Arena
