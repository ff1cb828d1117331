import Dfk.Heap

/-!
# Sponges

`sponge.c` after the source: a stream of bytes in one block of the heap, which
a larger block replaces when there is no room behind the bytes.
-/

namespace Dfk.ByteStream

/-- The codes that writing to a sponge returns. -/
inductive Err where
  | ok
  | nomem
  deriving Repr, DecidableEq

/-- Where the library runs. -/
structure Platform where
  space : AddressSpace
  /-- `DFK_PAGE_SIZE`, the size of the first block. -/
  pageSize : Nat

/-- `dfk__sponge_t` -/
structure Sponge where
  base : Option BlockPointer
  cur : Option BlockPointer
  size : Nat
  capacity : Nat
  deriving Repr, DecidableEq

/-- `dfk__sponge_init` -/
def spongeInit : Sponge where
  base := none
  cur := none
  size := 0
  capacity := 0

/-- What `dfk__sponge_check_invariants` asserts. -/
def Sponge.Consistent (sponge : Sponge) : Prop :=
  (sponge.base = none →
    sponge.size = 0 ∧ sponge.cur = none ∧ sponge.capacity = 0) ∧
    ∀ base ∈ sponge.base, ∃ cur ∈ sponge.cur,
      base.Le cur ∧ cur.Le (base.add sponge.size) ∧
        (base.add sponge.size).Le (base.add sponge.capacity)

instance (sponge : Sponge) : Decidable sponge.Consistent :=
  inferInstanceAs (Decidable (_ ∧ _))

/-- A sponge and the heap it lives on. -/
structure Stream where
  sponge : Sponge
  heap : Heap

/-- `dfk__sponge_check_invariants` -/
def checkInvariants (stream : Stream) : Except Fault Unit :=
  check stream.sponge.Consistent

/-- The branch of `dfk__sponge_write` for an empty sponge. -/
def writeFirst (platform : Platform) (stream : Stream) (buf : Bytes) :
    Except Fault (Err × Stream) := do
  let toalloc := max buf.length platform.pageSize
  let allocated ← stream.heap.malloc platform.space toalloc
  match allocated.1 with
  | none =>
      pure
        (.nomem,
          { sponge := { stream.sponge with base := none }
            heap := allocated.2 })
  | some base => do
      let heap ← allocated.2.store base buf
      pure
        (.ok,
          { sponge :=
              { base := some base
                cur := some base
                size := buf.length
                capacity := toalloc }
            heap := heap })

/-- The branch of `dfk__sponge_write` for a block with enough room. -/
def writeBehind (stream : Stream) (buf : Bytes) :
    Except Fault (Err × Stream) := do
  let base ← deref stream.sponge.base
  let heap ← stream.heap.store (base.add stream.sponge.size) buf
  pure
    (.ok,
      { sponge :=
          { stream.sponge with
            size := (stream.sponge.size + buf.length) % 2 ^ 64 }
        heap := heap })

/-- The branch of `dfk__sponge_write` that moves to a larger block. -/
def writeMoving (platform : Platform) (stream : Stream) (buf : Bytes) :
    Except Fault (Err × Stream) := do
  let base ← deref stream.sponge.base
  let cur ← deref stream.sponge.cur
  let nused ← (base.add stream.sponge.size).minus cur
  let newsize :=
    (stream.sponge.capacity +
      max ((nused + buf.length) % 2 ^ 64) stream.sponge.capacity) % 2 ^ 64
  let allocated ← stream.heap.malloc platform.space newsize
  match allocated.1 with
  | none => pure (.nomem, { stream with heap := allocated.2 })
  | some newbase => do
      let unread ← allocated.2.load cur nused
      let heap ← allocated.2.store newbase unread
      let heap ← heap.store (newbase.add nused) buf
      let heap ← heap.free base
      pure
        (.ok,
          { sponge :=
              { base := some newbase
                cur := some newbase
                size := (nused + buf.length) % 2 ^ 64
                capacity := newsize }
            heap := heap })

/-- The branches of `dfk__sponge_write`. -/
def writeBranch (platform : Platform) (stream : Stream) (buf : Bytes) :
    Except Fault (Err × Stream) :=
  if stream.sponge.capacity = 0 then writeFirst platform stream buf
  else if buf.length ≤
      (stream.sponge.capacity + 2 ^ 64 - stream.sponge.size) % 2 ^ 64 then
    writeBehind stream buf
  else writeMoving platform stream buf

/-- `dfk__sponge_write` -/
def spongeWrite (platform : Platform) (stream : Stream) (buf : Bytes) :
    Except Fault (Err × Stream) := do
  checkInvariants stream
  check (buf ≠ [])
  let written ← writeBranch platform stream buf
  -- a refused request returns at once
  if written.1 ≠ .ok then pure written
  else do
    checkInvariants written.2
    pure written

/-- The result of `dfk__sponge_writev`, with the buffers it has written. -/
structure WritevResult where
  err : Err
  accepted : List Bytes
  stream : Stream

/-- The loop of `dfk__sponge_writev`. -/
def spongeWritevFrom (platform : Platform) :
    Stream → List Bytes → List Bytes → Except Fault WritevResult
  | stream, accepted, [] => do
      checkInvariants stream
      pure { err := .ok, accepted := accepted, stream := stream }
  | stream, accepted, buf :: iov => do
      let written ← spongeWrite platform stream buf
      if written.1 ≠ .ok then
        pure
          { err := written.1, accepted := accepted, stream := written.2 }
      else
        spongeWritevFrom platform written.2 (accepted ++ [buf]) iov

/-- `dfk__sponge_writev` -/
def spongeWritev (platform : Platform) (stream : Stream)
    (iov : List Bytes) : Except Fault WritevResult := do
  checkInvariants stream
  check (iov ≠ [])
  spongeWritevFrom platform stream [] iov

/-- `sponge->cur += toread` -/
def Stream.advance (stream : Stream) (cur : BlockPointer) (toread : Nat) :
    Stream :=
  { stream with
    sponge := { stream.sponge with cur := some (cur.add toread) } }

/-- `dfk__sponge_read`: the bytes that are copied to the buffer. -/
def spongeRead (stream : Stream) (nbytes : Nat) :
    Except Fault (Bytes × Stream) := do
  checkInvariants stream
  check (nbytes ≠ 0)
  if stream.sponge.size = 0 then pure ([], stream)
  else do
    let base ← deref stream.sponge.base
    let cur ← deref stream.sponge.cur
    let available ← (base.add stream.sponge.size).minus cur
    let toread := min nbytes available
    let bytes ← stream.heap.load cur toread
    checkInvariants (stream.advance cur toread)
    pure (bytes, stream.advance cur toread)

/-- The result of `dfk__sponge_readv`, with the buffers of the caller. -/
structure ReadvResult where
  totalnread : Nat
  buffers : List Bytes
  stream : Stream

/-- The loop of `dfk__sponge_readv`, with the buffers behind it. -/
def spongeReadvFrom :
    Stream → Nat → List Bytes → List Bytes → Except Fault ReadvResult
  | stream, totalnread, passed, [] => do
      checkInvariants stream
      pure
        { totalnread := totalnread, buffers := passed, stream := stream }
  | stream, totalnread, passed, buf :: iov => do
      let nread ← spongeRead stream buf.length
      let totalnread := totalnread + nread.1.length
      if nread.1.length = 0 then do
        checkInvariants nread.2
        pure
          { totalnread := totalnread
            buffers := passed ++ filled buf nread.1 :: iov
            stream := nread.2 }
      else
        spongeReadvFrom nread.2 totalnread
          (passed ++ [filled buf nread.1]) iov

/-- `dfk__sponge_readv` -/
def spongeReadv (stream : Stream) (iov : List Bytes) :
    Except Fault ReadvResult := do
  checkInvariants stream
  check (iov ≠ [])
  spongeReadvFrom stream 0 [] iov

end Dfk.ByteStream
