import Dfk.Fault
import Dfk.Bytes

/-!
# The heap

Blocks of `malloc`, with the bytes they hold.  A block that is given out holds
any bytes at first, and is never given out again; the bytes of a block that
has been freed are gone.
-/

namespace Dfk

/-- An pointer space, in which the sizes of objects can be added up. -/
structure AddressSpace where
  limit : Nat
  small : 3 * limit < 2 ^ 64

/-- A place in a block. -/
structure BlockPointer where
  block : Nat
  offset : Nat
  deriving Repr, DecidableEq

namespace BlockPointer

/-- `pointer + count` -/
def add (pointer : BlockPointer) (count : Nat) : BlockPointer :=
  { pointer with offset := pointer.offset + count }

/-- `left <= right`, of pointers into one block. -/
def Le (left right : BlockPointer) : Prop :=
  left.block = right.block ∧ left.offset ≤ right.offset

instance (left right : BlockPointer) : Decidable (left.Le right) :=
  inferInstanceAs (Decidable (_ ∧ _))

/-- `left - right`, of pointers into one block, as a `size_t`. -/
def minus (left right : BlockPointer) : Except Fault Nat :=
  if left.block = right.block then
    .ok ((left.offset + 2 ^ 64 - right.offset) % 2 ^ 64)
  else .error .outOfBounds

/-- The difference of two pointers in order. -/
theorem minus_eq
    {left right : BlockPointer}
    (same : left.block = right.block) (ordered : right.offset ≤ left.offset)
    (bounded : left.offset < 2 ^ 64) :
    left.minus right = .ok (left.offset - right.offset) := by
  rw [minus, if_pos same]
  apply congrArg Except.ok
  omega

end BlockPointer

/-- The blocks given out so far, and the further answers of `malloc`. -/
structure Heap where
  blocks : List (Option Bytes)
  answers : List Bool
  /-- What a block holds at first. -/
  fresh : Nat → Nat → UInt8

/-- Bytes with others in their place from an offset on. -/
def overwrite (bytes : Bytes) (offset : Nat) (data : Bytes) : Bytes :=
  bytes.take offset ++ data ++ bytes.drop (offset + data.length)

section Overwrite

variable {bytes data : Bytes} {offset : Nat}

theorem length_overwrite (fits : offset + data.length ≤ bytes.length) :
    (overwrite bytes offset data).length = bytes.length := by
  rw [overwrite, List.length_append, List.length_append, List.length_take,
    List.length_drop]
  omega

/-- What is in front stays, and the data follows. -/
theorem take_overwrite (fits : offset + data.length ≤ bytes.length) :
    (overwrite bytes offset data).take (offset + data.length) =
      bytes.take offset ++ data := by
  apply List.take_left'
  rw [List.length_append, List.length_take]
  omega

/-- What is in front of the data, or behind it, is the same. -/
theorem slice_overwrite
    {start size : Nat}
    (fits : offset + data.length ≤ bytes.length)
    (apart : offset + data.length ≤ start ∨ start + size ≤ offset) :
    ((overwrite bytes offset data).drop start).take size =
      (bytes.drop start).take size := by
  apply List.ext_getElem?
  intro index
  rw [List.getElem?_take, List.getElem?_take]
  by_cases inside : index < size
  · rw [if_pos inside, if_pos inside, List.getElem?_drop,
      List.getElem?_drop, overwrite]
    rcases apart with behind | before
    · rw [List.getElem?_append_right (by simp; omega), List.getElem?_drop]
      apply congrArg (bytes[·]?)
      simp
      omega
    · rw [List.append_assoc, List.getElem?_append_left (by simp; omega),
        List.getElem?_take_of_lt (by omega)]
  · rw [if_neg inside, if_neg inside]

/-- The data is where it was written. -/
theorem slice_overwrite_self
    (fits : offset + data.length ≤ bytes.length) :
    ((overwrite bytes offset data).drop offset).take data.length = data := by
  have front : (bytes.take offset).length = offset := by
    rw [List.length_take]
    omega
  rw [overwrite, List.append_assoc, List.drop_left' front,
    List.take_left' rfl]

end Overwrite

namespace Heap

/-- The bytes of a block that has not been freed. -/
def bytes? (heap : Heap) (block : Nat) : Option Bytes :=
  heap.blocks[block]?.join

/-- The heap with other bytes in a block. -/
def put (heap : Heap) (block : Nat) (bytes : Bytes) : Heap :=
  { heap with blocks := heap.blocks.set block (some bytes) }

/-- The heap without a block. -/
def erase (heap : Heap) (block : Nat) : Heap :=
  { heap with blocks := heap.blocks.set block none }

/-- The heap with one more block. -/
def grow (heap : Heap) (size : Nat) : Heap :=
  { heap with
    blocks :=
      heap.blocks ++
        [some ((List.range size).map (heap.fresh heap.blocks.length))]
    answers := heap.answers.tail }

/-- The heap after a request that was refused. -/
def refuse (heap : Heap) : Heap :=
  { heap with answers := heap.answers.tail }

/-- `dfk__malloc`; `true` is the answer where the answers end. -/
def malloc (space : AddressSpace) (heap : Heap) (size : Nat) :
    Except Fault (Option BlockPointer × Heap) := do
  check (size ≠ 0)
  if heap.answers.headD true = true ∧ size ≤ space.limit then
    pure
      (some { block := heap.blocks.length, offset := 0 }, heap.grow size)
  else pure (none, heap.refuse)

/-- `dfk__free` -/
def free (heap : Heap) (pointer : BlockPointer) : Except Fault Heap :=
  if pointer.offset = 0 ∧ (heap.bytes? pointer.block).isSome then
    .ok (heap.erase pointer.block)
  else .error .outOfBounds

/-- Read bytes. -/
def load (heap : Heap) (pointer : BlockPointer) (size : Nat) :
    Except Fault Bytes :=
  match heap.bytes? pointer.block with
  | some bytes =>
      if pointer.offset + size ≤ bytes.length then
        .ok ((bytes.drop pointer.offset).take size)
      else .error .outOfBounds
  | none => .error .outOfBounds

/-- Write bytes. -/
def store (heap : Heap) (pointer : BlockPointer) (data : Bytes) :
    Except Fault Heap :=
  match heap.bytes? pointer.block with
  | some bytes =>
      if pointer.offset + data.length ≤ bytes.length then
        .ok (heap.put pointer.block (overwrite bytes pointer.offset data))
      else .error .outOfBounds
  | none => .error .outOfBounds

section Blocks

variable {heap : Heap} {block other size offset : Nat}
variable {bytes data : Bytes}

/-- A block that holds bytes has been given out. -/
theorem given_of_bytes (holds : heap.bytes? block = some bytes) :
    block < heap.blocks.length := by
  apply Decidable.byContradiction
  intro beyond
  rw [bytes?, List.getElem?_eq_none (not_lt.mp beyond)] at holds
  cases holds

@[simp] theorem bytes?_put (holds : heap.bytes? block = some bytes) :
    (heap.put block data).bytes? block = some data := by
  rw [bytes?, put, List.getElem?_set_self (given_of_bytes holds)]
  rfl

theorem bytes?_put_of_ne (apart : block ≠ other) :
    (heap.put block data).bytes? other = heap.bytes? other := by
  rw [bytes?, put, List.getElem?_set_ne apart]
  rfl

theorem bytes?_erase_of_ne (apart : block ≠ other) :
    (heap.erase block).bytes? other = heap.bytes? other := by
  rw [bytes?, erase, List.getElem?_set_ne apart]
  rfl

/-- The block that is added. -/
theorem bytes?_grow :
    (heap.grow size).bytes? heap.blocks.length =
      some ((List.range size).map (heap.fresh heap.blocks.length)) := by
  rw [bytes?, grow, List.getElem?_concat_length]
  rfl

/-- The blocks there were. -/
theorem bytes?_grow_of_lt (given : block < heap.blocks.length) :
    (heap.grow size).bytes? block = heap.bytes? block := by
  rw [bytes?, grow, List.getElem?_append_left given]
  rfl

@[simp] theorem bytes?_refuse :
    heap.refuse.bytes? block = heap.bytes? block :=
  rfl

/-- A request is refused, or a block is added that is not too large. -/
theorem malloc_cases
    (heap : Heap) (space : AddressSpace) (asked : size ≠ 0) :
    heap.malloc space size = .ok (none, heap.refuse) ∨
      size ≤ space.limit ∧
        heap.malloc space size =
          .ok
            (some { block := heap.blocks.length, offset := 0 },
              heap.grow size) := by
  rw [malloc, check_pos asked, ok_bind]
  by_cases granted : heap.answers.headD true = true ∧ size ≤ space.limit
  · rw [if_pos granted]
    exact Or.inr ⟨granted.2, rfl⟩
  · rw [if_neg granted]
    exact Or.inl rfl

/-- Bytes in a block are read. -/
theorem load_eq
    (holds : heap.bytes? block = some bytes)
    (fits : offset + size ≤ bytes.length) :
    heap.load { block := block, offset := offset } size =
      .ok ((bytes.drop offset).take size) := by
  rw [load, holds]
  exact if_pos fits

/-- Bytes in a block are written. -/
theorem store_eq
    (holds : heap.bytes? block = some bytes)
    (fits : offset + data.length ≤ bytes.length) :
    heap.store { block := block, offset := offset } data =
      .ok (heap.put block (overwrite bytes offset data)) := by
  rw [store, holds]
  exact if_pos fits

section Stores

variable {after : Heap} {pointer query : BlockPointer}

/-- Only bytes in a block are written. -/
theorem of_store (stored : heap.store pointer data = .ok after) :
    ∃ bytes,
      heap.bytes? pointer.block = some bytes ∧
        pointer.offset + data.length ≤ bytes.length ∧
        after =
          heap.put pointer.block (overwrite bytes pointer.offset data) := by
  rw [store] at stored
  split at stored
  · next bytes holds =>
      by_cases fits : pointer.offset + data.length ≤ bytes.length
      · rw [if_pos fits] at stored
        exact ⟨bytes, holds, fits, (Except.ok.inj stored).symm⟩
      · rw [if_neg fits] at stored
        cases stored
  · cases stored

/-- What is written is read. -/
theorem load_store_self (stored : heap.store pointer data = .ok after) :
    after.load pointer data.length = .ok data := by
  obtain ⟨bytes, holds, fits, rfl⟩ := of_store stored
  have fitsAfter :
      pointer.offset + data.length ≤
        (overwrite bytes pointer.offset data).length := by
    rw [length_overwrite fits]
    exact fits
  rw [load_eq (bytes?_put holds) fitsAfter, slice_overwrite_self fits]

/-- What is written does not show where no byte of it is. -/
theorem load_store_apart
    (stored : heap.store pointer data = .ok after)
    (apart :
      pointer.block ≠ query.block ∨
        pointer.offset + data.length ≤ query.offset ∨
        query.offset + size ≤ pointer.offset) :
    after.load query size = heap.load query size := by
  obtain ⟨bytes, holds, fits, rfl⟩ := of_store stored
  by_cases same : pointer.block = query.block
  · rw [load, load, ← same, bytes?_put holds, holds]
    dsimp only
    rw [length_overwrite fits,
      slice_overwrite fits (apart.resolve_left (not_not.mpr same))]
  · rw [load, load, bytes?_put_of_ne same]

end Stores

/-- A block is freed. -/
theorem free_eq (holds : heap.bytes? block = some bytes) :
    heap.free { block := block, offset := 0 } = .ok (heap.erase block) := by
  rw [free]
  apply if_pos
  refine ⟨rfl, ?_⟩
  rw [holds]
  rfl

end Blocks

end Heap

end Dfk
