import Dfk.Arena.Disjointness
import Dfk.AvlTree.Source
import Dfk.Heap

/-!
# Items of string maps

The constructors of `dfk_strmap_item_t` after `strmap.c`.  Three of them take a
block of `malloc` for the item and what is copied, the other three take their
blocks from an arena, one for each part.
-/

namespace Dfk.ItemCopies

open AvlTree (hookInit)

/-- Sizes that are fixed when the library is built. -/
structure Build where
  /-- Whether `DFK_DEBUG` is set. -/
  debug : Bool
  space : AddressSpace
  layout : Arena.Layout
  /-- `sizeof(dfk_strmap_item_t)` -/
  itemSize : Nat
  itemSome : itemSize ≠ 0
  itemFits : itemSize ≤ space.limit
  headerFits : layout.headerSize ≤ space.limit

/-- A place in a block of `malloc`, or in a segment of the arena. -/
inductive Place where
  | heap (pointer : BlockPointer)
  | arena (pointer : Arena.Pointer)
  deriving Repr, DecidableEq

/-- `pointer + count` -/
def Place.add : Place → Nat → Place
  | .heap pointer, count => .heap (pointer.add count)
  | .arena pointer, count =>
      .arena { pointer with offset := pointer.offset + count }

/-- `dfk_buf_t` and `dfk_cbuf_t` -/
structure Buffer where
  data : Option Place
  size : Nat
  deriving Repr, DecidableEq

/-- `dfk_strmap_item_t` without its hook. -/
structure Item where
  key : Buffer
  value : Buffer
  deriving Repr, DecidableEq

/-- The memory of a program with one arena. -/
structure World where
  heap : Heap
  arena : Arena.State
  hooks : AvlTree.Memory Place
  items : Place → Item

namespace World

/-- Read bytes. -/
def load (world : World) : Place → Nat → Except Fault Bytes
  | .heap pointer, size => world.heap.load pointer size
  | .arena pointer, size =>
      if world.arena.covers pointer size then
        .ok
          ((List.range size).map fun index =>
            world.arena.memory pointer.segment (pointer.offset + index))
      else .error .outOfBounds

/-- Write bytes. -/
def store (world : World) : Place → Bytes → Except Fault World
  | .heap pointer, data => do
      let heap ← world.heap.store pointer data
      pure { world with heap := heap }
  | .arena pointer, data => do
      let arena ← Arena.copy world.arena pointer data
      pure { world with arena := arena }

/-- The bytes of a buffer. -/
def read (world : World) (buffer : Buffer) : Except Fault Bytes :=
  if buffer.size = 0 then .ok []
  else do
    let place ← deref buffer.data
    world.load place buffer.size

/-- `memcpy` -/
def memcpy (world : World) (dest : Place) (src : Buffer) :
    Except Fault World := do
  let bytes ← world.read src
  world.store dest bytes

end World

/-- `if (!allocated) { return NULL; }` -/
def orNull (next : Place → World → Except Fault (Option Place × World))
    (allocated : Option Place × World) :
    Except Fault (Option Place × World) :=
  match allocated.1 with
  | some place => next place allocated.2
  | none => .ok (none, allocated.2)

/-- `dfk__malloc` -/
def malloc (build : Build) (world : World) (size : Nat) :
    Except Fault (Option Place × World) := do
  let allocated ← world.heap.malloc build.space (Arena.sizeT size)
  pure (allocated.1.map Place.heap, { world with heap := allocated.2 })

/-- `dfk_arena_alloc` -/
def arenaAlloc (build : Build) (world : World) (answer : Bool)
    (size : Nat) : Except Fault (Option Place × World) := do
  let allocated ← Arena.alloc build.layout world.arena answer size
  pure (allocated.1.map Place.arena, { world with arena := allocated.2 })

/-- `dfk_arena_alloc_copy` -/
def arenaAllocCopy (build : Build) (world : World) (answer : Bool)
    (src : Buffer) : Except Fault (Option Place × World) := do
  check (src.data.isSome = true)
  check (src.size ≠ 0)
  let allocated ← arenaAlloc build world answer src.size
  match allocated.1 with
  | some place => do
      let world ← allocated.2.memcpy place src
      pure (some place, world)
  | none => pure allocated

/-- What all constructors assert of their arguments. -/
def checkArguments (key value : Buffer) : Except Fault Unit := do
  check (key.data.isSome = true)
  check (key.size ≠ 0)
  check (value.data.isSome = true ∨ value.size = 0)

/-- `dfk_strmap_item_init` -/
def itemInit (build : Build) (world : World) (item : Place)
    (key value : Buffer) : Except Fault World := do
  checkArguments key value
  pure
    { world with
      hooks := hookInit build.debug world.hooks item
      items :=
        Function.update world.items item { key := key, value := value } }

/-- `dfk_strmap_item_init` of an item that is then returned. -/
def returnItem (build : Build) (key value : Buffer) (item : Place)
    (world : World) : Except Fault (Option Place × World) := do
  let world ← itemInit build world item key value
  pure (some item, world)

/-- `dfk_strmap_item_copy` -/
def itemCopy (build : Build) (world : World) (key value : Buffer) :
    Except Fault (Option Place × World) := do
  checkArguments key value
  let item ← malloc build world (build.itemSize + key.size + value.size)
  orNull
    (fun item world => do
      let pkey := item.add build.itemSize
      let pvalue := pkey.add key.size
      let world ← world.memcpy pkey key
      let world ← world.memcpy pvalue value
      returnItem build { data := pkey, size := key.size }
        { data := pvalue, size := value.size } item world)
    item

/-- `dfk_strmap_item_copy_key` -/
def itemCopyKey (build : Build) (world : World) (key value : Buffer) :
    Except Fault (Option Place × World) := do
  checkArguments key value
  let item ← malloc build world (build.itemSize + key.size)
  orNull
    (fun item world => do
      let pkey := item.add build.itemSize
      let world ← world.memcpy pkey key
      returnItem build { data := pkey, size := key.size } value item world)
    item

/-- `dfk_strmap_item_copy_value` -/
def itemCopyValue (build : Build) (world : World) (key value : Buffer) :
    Except Fault (Option Place × World) := do
  checkArguments key value
  let item ← malloc build world (build.itemSize + value.size)
  orNull
    (fun item world => do
      let pvalue := item.add build.itemSize
      let world ← world.memcpy pvalue value
      returnItem build key { data := pvalue, size := value.size } item world)
    item

/-- `dfk_strmap_item_acopy`, `malloc` answering the arena if it asks. -/
def itemAcopy (build : Build) (answers : Nat → Bool) (world : World)
    (key value : Buffer) : Except Fault (Option Place × World) := do
  checkArguments key value
  let pkey ← arenaAllocCopy build world (answers 0) key
  orNull
    (fun pkey world => do
      let pvalue ← arenaAllocCopy build world (answers 1) value
      orNull
        (fun pvalue world => do
          let item ← arenaAlloc build world (answers 2) build.itemSize
          orNull
            (returnItem build { data := pkey, size := key.size }
              { data := pvalue, size := value.size })
            item)
        pvalue)
    pkey

/-- `dfk_strmap_item_acopy_key` -/
def itemAcopyKey (build : Build) (answers : Nat → Bool) (world : World)
    (key value : Buffer) : Except Fault (Option Place × World) := do
  checkArguments key value
  let pkey ← arenaAllocCopy build world (answers 0) key
  orNull
    (fun pkey world => do
      let item ← arenaAlloc build world (answers 1) build.itemSize
      orNull
        (returnItem build { data := pkey, size := key.size } value)
        item)
    pkey

/-- `dfk_strmap_item_acopy_value` -/
def itemAcopyValue (build : Build) (answers : Nat → Bool) (world : World)
    (key value : Buffer) : Except Fault (Option Place × World) := do
  checkArguments key value
  let pvalue ← arenaAllocCopy build world (answers 0) value
  orNull
    (fun pvalue world => do
      let item ← arenaAlloc build world (answers 1) build.itemSize
      orNull
        (returnItem build key { data := pvalue, size := value.size })
        item)
    pvalue

/-- The six constructors. -/
inductive Constructor where
  | copy
  | copyKey
  | copyValue
  | acopy
  | acopyKey
  | acopyValue
  deriving Repr, DecidableEq

/-- Call a constructor. -/
def Constructor.run (build : Build) (answers : Nat → Bool) (world : World)
    (key value : Buffer) :
    Constructor → Except Fault (Option Place × World)
  | .copy => itemCopy build world key value
  | .copyKey => itemCopyKey build world key value
  | .copyValue => itemCopyValue build world key value
  | .acopy => itemAcopy build answers world key value
  | .acopyKey => itemAcopyKey build answers world key value
  | .acopyValue => itemAcopyValue build answers world key value

end Dfk.ItemCopies
