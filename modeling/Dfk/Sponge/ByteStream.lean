import Dfk.Library.Fifo
import Dfk.Sponge.Source

/-!
# A sponge is a stream of bytes

What has not been read lies between `cur` and `base + size` in the block of the
sponge.  Writing adds to its end, in the block or in a larger one, and reading
takes from its front; a write that finds no memory leaves it alone.
-/

namespace Dfk.ByteStream

/-- The bytes between `cur` and `base + size`. -/
def Stream.unread (stream : Stream) : Bytes :=
  (stream.sponge.base.bind fun base =>
    stream.sponge.cur.bind fun cur =>
      (stream.heap.bytes? base.block).map fun bytes =>
        (bytes.take (base.offset + stream.sponge.size)).drop
          cur.offset).getD []

/-! ## The invariant -/

/-- The sponge has a block, of which it has used a part and consumed some. -/
structure Filled (platform : Platform) (stream : Stream)
    (block consumed : Nat) (bytes : Bytes) : Prop where
  base : stream.sponge.base = some { block := block, offset := 0 }
  cur : stream.sponge.cur = some { block := block, offset := consumed }
  ordered : consumed ≤ stream.sponge.size
  within : stream.sponge.size ≤ stream.sponge.capacity
  capacity : stream.sponge.capacity = bytes.length
  positive : 0 < stream.sponge.capacity
  bounded : stream.sponge.capacity ≤ platform.space.limit
  holds : stream.heap.bytes? block = some bytes

/-- A sponge that is empty as at first, or has a block. -/
def Sound (platform : Platform) (stream : Stream) : Prop :=
  stream.sponge = spongeInit ∨
    ∃ block consumed bytes, Filled platform stream block consumed bytes

section Streams

variable {platform : Platform} {stream : Stream}
variable {block consumed : Nat} {bytes buf : Bytes}

/-- What is unread in a block. -/
theorem Filled.unread_eq
    (isFilled : Filled platform stream block consumed bytes) :
    stream.unread = (bytes.take stream.sponge.size).drop consumed := by
  simp only [Stream.unread, isFilled.base, isFilled.cur, isFilled.holds,
    Option.bind_some, Option.map_some, Option.getD_some, Nat.zero_add]

/-- Nothing is unread at first. -/
theorem unread_of_init (isInit : stream.sponge = spongeInit) :
    stream.unread = [] := by
  rw [Stream.unread, isInit]
  rfl

/-- How much is unread. -/
theorem Filled.length_unread
    (isFilled : Filled platform stream block consumed bytes) :
    stream.unread.length = stream.sponge.size - consumed := by
  have within := isFilled.within
  rw [isFilled.capacity] at within
  rw [isFilled.unread_eq, List.length_drop, List.length_take,
    Nat.min_eq_left within]

/-- What is asserted holds. -/
theorem Filled.consistent
    (isFilled : Filled platform stream block consumed bytes) :
    stream.sponge.Consistent := by
  constructor
  · intro isNone
    rw [isFilled.base] at isNone
    cases isNone
  · intro base isBase
    rw [isFilled.base] at isBase
    cases isBase
    refine ⟨_, isFilled.cur, ⟨rfl, Nat.zero_le _⟩, ⟨rfl, ?_⟩, ⟨rfl, ?_⟩⟩
    · exact isFilled.ordered.trans (Nat.le_add_left _ 0)
    · exact Nat.add_le_add_left isFilled.within 0

/-- What is asserted holds of a sound sponge. -/
theorem Sound.consistent (sound : Sound platform stream) :
    stream.sponge.Consistent := by
  rcases sound with isInit | ⟨block, consumed, bytes, isFilled⟩
  · rw [isInit]
    decide
  · exact isFilled.consistent

/-- The assertions of a sound sponge pass. -/
theorem Sound.checks (sound : Sound platform stream) :
    checkInvariants stream = .ok () :=
  check_pos sound.consistent

/-! ## Writing -/

/-- A write that adds its bytes, or finds no memory and adds none. -/
def Writes (platform : Platform) (stream : Stream) (buf : Bytes)
    (written : Err × Stream) : Prop :=
  Sound platform written.2 ∧
    written.2.unread =
      stream.unread ++ if written.1 = .ok then buf else []

/-- A write that leaves a block with its bytes behind what was unread. -/
theorem writes_of_filled
    {written : Err × Stream}
    (succeeds : written.1 = .ok)
    (isFilled : Filled platform written.2 block consumed bytes)
    (added :
      (bytes.take written.2.sponge.size).drop consumed =
        stream.unread ++ buf) :
    Writes platform stream buf written := by
  refine ⟨Or.inr ⟨block, consumed, bytes, isFilled⟩, ?_⟩
  rw [isFilled.unread_eq, added, if_pos succeeds]

/-- The first write takes a block. -/
theorem writeFirst_writes
    (isInit : stream.sponge = spongeInit)
    (notEmpty : buf ≠ []) :
    ∃ written, writeFirst platform stream buf = .ok written ∧
      Writes platform stream buf written := by
  have positive : 0 < buf.length := List.length_pos_iff.mpr notEmpty
  have asked : max buf.length platform.pageSize ≠ 0 :=
    Nat.ne_of_gt (positive.trans_le (Nat.le_max_left _ _))
  rcases stream.heap.malloc_cases platform.space asked with
    refused | ⟨fits, granted⟩
  · rw [writeFirst, refused, ok_bind]
    have still : ({ stream.sponge with base := none } : Sponge) =
        spongeInit := by
      rw [isInit]
      rfl
    refine ⟨_, rfl, Or.inl still, ?_⟩
    rw [unread_of_init still, unread_of_init isInit]
    rfl
  · have room :
        0 + buf.length ≤
          ((List.range (max buf.length platform.pageSize)).map
            (stream.heap.fresh stream.heap.blocks.length)).length := by
      rw [List.length_map, List.length_range, Nat.zero_add]
      exact Nat.le_max_left _ _
    rw [writeFirst, granted, ok_bind]
    dsimp only
    rw [Heap.store_eq Heap.bytes?_grow room, ok_bind]
    refine ⟨_, rfl, writes_of_filled rfl
      { base := rfl
        cur := rfl
        ordered := Nat.zero_le _
        within := Nat.le_max_left _ _
        capacity := by
          rw [length_overwrite room, List.length_map, List.length_range]
        positive := Nat.pos_of_ne_zero asked
        bounded := fits
        holds := Heap.bytes?_put Heap.bytes?_grow } ?_⟩
    have taken := take_overwrite room
    rw [Nat.zero_add] at taken
    rw [unread_of_init isInit]
    exact taken

/-- There is room behind the bytes. -/
theorem writeBehind_writes
    (isFilled : Filled platform stream block consumed bytes)
    (room :
      buf.length ≤ stream.sponge.capacity - stream.sponge.size) :
    ∃ written, writeBehind stream buf = .ok written ∧
      Writes platform stream buf written := by
  have ordered := isFilled.ordered
  have within := isFilled.within
  have capacity := isFilled.capacity
  have bounded := isFilled.bounded
  have small := platform.space.small
  have fits : stream.sponge.size + buf.length ≤ bytes.length := by
    omega
  have noWrap :
      (stream.sponge.size + buf.length) % 2 ^ 64 =
        stream.sponge.size + buf.length :=
    Nat.mod_eq_of_lt (by omega)
  have stores :
      stream.heap.store
          (({ block := block, offset := 0 } : BlockPointer).add
            stream.sponge.size) buf =
        .ok
          (stream.heap.put block (overwrite bytes stream.sponge.size buf)) := by
    rw [BlockPointer.add, Nat.zero_add]
    exact Heap.store_eq isFilled.holds fits
  rw [writeBehind, isFilled.base, deref_some, ok_bind, stores, ok_bind,
    noWrap]
  refine ⟨_, rfl, writes_of_filled rfl
    { base := isFilled.base
      cur := isFilled.cur
      ordered := ordered.trans (Nat.le_add_right _ _)
      within := (Nat.add_le_add_left room _).trans_eq
        (Nat.add_sub_cancel' within)
      capacity := by
        rw [length_overwrite fits]
        exact capacity
      positive := isFilled.positive
      bounded := bounded
      holds := Heap.bytes?_put isFilled.holds } ?_⟩
  rw [isFilled.unread_eq, take_overwrite fits, List.drop_append_of_le_length]
  rw [List.length_take]
  omega

/-- The bytes move to a larger block. -/
theorem writeMoving_writes
    (isFilled : Filled platform stream block consumed bytes)
    (fits : buf.length ≤ platform.space.limit) :
    ∃ written, writeMoving platform stream buf = .ok written ∧
      Writes platform stream buf written := by
  have ordered := isFilled.ordered
  have within := isFilled.within
  have capacity := isFilled.capacity
  have positive := isFilled.positive
  have bounded := isFilled.bounded
  have small := platform.space.small
  have nused :
      (({ block := block, offset := 0 } : BlockPointer).add
          stream.sponge.size).minus { block := block, offset := consumed } =
        .ok (stream.sponge.size - consumed) := by
    rw [BlockPointer.add, Nat.zero_add]
    have sized : stream.sponge.size < 2 ^ 64 := by
      omega
    exact BlockPointer.minus_eq rfl ordered sized
  have noWrap :
      (stream.sponge.size - consumed + buf.length) % 2 ^ 64 =
        stream.sponge.size - consumed + buf.length :=
    Nat.mod_eq_of_lt (by omega)
  have noWrapSize :
      (stream.sponge.capacity +
          max (stream.sponge.size - consumed + buf.length)
            stream.sponge.capacity) % 2 ^ 64 =
        stream.sponge.capacity +
          max (stream.sponge.size - consumed + buf.length)
            stream.sponge.capacity :=
    Nat.mod_eq_of_lt (by omega)
  rw [writeMoving, isFilled.base, isFilled.cur, deref_some, deref_some,
    ok_bind, ok_bind, nused, ok_bind]
  dsimp only
  rw [noWrap, noWrapSize]
  generalize isSize :
    stream.sponge.capacity +
      max (stream.sponge.size - consumed + buf.length)
        stream.sponge.capacity = newsize
  have asked : newsize ≠ 0 := by
    omega
  rcases stream.heap.malloc_cases platform.space asked with
    refused | ⟨notTooLarge, granted⟩
  · rw [refused, ok_bind]
    have still :
        Filled platform { stream with heap := stream.heap.refuse }
          block consumed bytes :=
      { isFilled with holds := isFilled.holds }
    refine ⟨_, rfl, Or.inr ⟨block, consumed, bytes, still⟩, ?_⟩
    rw [still.unread_eq, isFilled.unread_eq]
    exact (List.append_nil _).symm
  · have old := Heap.given_of_bytes isFilled.holds
    have apart : stream.heap.blocks.length ≠ block :=
      Nat.ne_of_gt old
    have inHeap :
        (stream.heap.grow newsize).bytes? block = some bytes :=
      (Heap.bytes?_grow_of_lt old).trans isFilled.holds
    have available :
        consumed + (stream.sponge.size - consumed) ≤ bytes.length := by
      omega
    rw [granted, ok_bind]
    dsimp only
    rw [Heap.load_eq inHeap available, ok_bind]
    have unreadIs :
        (bytes.drop consumed).take (stream.sponge.size - consumed) =
          stream.unread := by
      rw [isFilled.unread_eq, List.drop_take]
    have length := isFilled.length_unread
    rw [unreadIs]
    generalize isFresh :
      (List.range newsize).map (stream.heap.fresh stream.heap.blocks.length) =
        fresh
    have freshLength : fresh.length = newsize := by
      rw [← isFresh, List.length_map, List.length_range]
    have holdsFresh :
        (stream.heap.grow newsize).bytes? stream.heap.blocks.length =
          some fresh := by
      rw [Heap.bytes?_grow, isFresh]
    have room : 0 + stream.unread.length ≤ fresh.length := by
      omega
    rw [Heap.store_eq holdsFresh room, ok_bind]
    have roomBehind :
        stream.sponge.size - consumed + buf.length ≤
          (overwrite fresh 0 stream.unread).length := by
      rw [length_overwrite room]
      omega
    have stores :=
      Heap.store_eq (Heap.bytes?_put holdsFresh) roomBehind
    rw [BlockPointer.add, Nat.zero_add, stores, ok_bind]
    have stillThere (first second : Bytes) :
        (((stream.heap.grow newsize).put stream.heap.blocks.length first).put
          stream.heap.blocks.length second).bytes? block = some bytes :=
      ((Heap.bytes?_put_of_ne apart).trans
        (Heap.bytes?_put_of_ne apart)).trans inHeap
    rw [Heap.free_eq (stillThere _ _), ok_bind]
    have lengthFinal := length_overwrite roomBehind
    rw [length_overwrite room] at lengthFinal
    refine ⟨_, rfl, writes_of_filled rfl
      { base := rfl
        cur := rfl
        ordered := Nat.zero_le _
        within := by
          rw [← isSize]
          exact (Nat.le_max_left _ _).trans (Nat.le_add_left _ _)
        capacity := (lengthFinal.trans freshLength).symm
        positive := Nat.pos_of_ne_zero asked
        bounded := notTooLarge
        holds :=
          (Heap.bytes?_erase_of_ne apart.symm).trans
            (Heap.bytes?_put (Heap.bytes?_put holdsFresh)) } ?_⟩
    have front := take_overwrite room
    rw [Nat.zero_add, List.take_zero, List.nil_append, length] at front
    exact (take_overwrite roomBehind).trans
      (congrArg (· ++ buf) front)

/-- Each branch adds the bytes, or finds no memory. -/
theorem writeBranch_writes
    (sound : Sound platform stream)
    (notEmpty : buf ≠ []) (fits : buf.length ≤ platform.space.limit) :
    ∃ written, writeBranch platform stream buf = .ok written ∧
      Writes platform stream buf written := by
  rw [writeBranch]
  rcases sound with isInit | ⟨block, consumed, bytes, isFilled⟩
  · have nothing : stream.sponge.capacity = 0 := by
      rw [isInit]
      rfl
    rw [if_pos nothing]
    exact writeFirst_writes isInit notEmpty
  · have bounded := isFilled.bounded
    have within := isFilled.within
    have small := platform.space.small
    rw [if_neg (Nat.ne_of_gt isFilled.positive)]
    by_cases enough :
      buf.length ≤ stream.sponge.capacity - stream.sponge.size
    · rw [if_pos]
      · exact writeBehind_writes isFilled enough
      · -- an empty block has no size that wraps around
        omega
    · rw [if_neg]
      · exact writeMoving_writes isFilled fits
      · omega

/-- `dfk__sponge_write` adds its bytes, or returns `dfk_err_nomem`. -/
theorem spongeWrite_writes
    (sound : Sound platform stream)
    (notEmpty : buf ≠ []) (fits : buf.length ≤ platform.space.limit) :
    ∃ written, spongeWrite platform stream buf = .ok written ∧
      Writes platform stream buf written := by
  obtain ⟨written, runs, writes⟩ := writeBranch_writes sound notEmpty fits
  refine ⟨written, ?_, writes⟩
  rw [spongeWrite, sound.checks, ok_bind, check_pos notEmpty, ok_bind, runs,
    ok_bind]
  by_cases fails : written.1 ≠ .ok
  · exact if_pos fails
  · rw [if_neg fails, writes.1.checks]
    rfl

/-- What `dfk__sponge_writev` leaves. -/
structure WritesAll (platform : Platform) (stream : Stream)
    (iov : List Bytes) (result : WritevResult) : Prop where
  sound : Sound platform result.stream
  inOrder : result.accepted <+: iov
  ok_iff : result.err = .ok ↔ result.accepted = iov
  unread : result.stream.unread = stream.unread ++ result.accepted.flatten

/-- The loop of `dfk__sponge_writev` writes its buffers until one fails. -/
theorem spongeWritevFrom_writes
    {iov : List Bytes}
    (buffers :
      ∀ buf ∈ iov, buf ≠ [] ∧ buf.length ≤ platform.space.limit)
    (sound : Sound platform stream) (passed : List Bytes) :
    ∃ result more,
      spongeWritevFrom platform stream passed iov = .ok result ∧
        result.accepted = passed ++ more ∧
        WritesAll platform stream iov { result with accepted := more } := by
  induction iov generalizing stream passed with
  | nil =>
      rw [spongeWritevFrom, sound.checks, ok_bind]
      refine ⟨_, [], rfl, (List.append_nil passed).symm, ?_⟩
      exact
        { sound := sound
          inOrder := List.nil_prefix
          ok_iff := iff_of_true rfl rfl
          unread := (List.append_nil _).symm }
  | cons buf iov inductionHypothesis =>
      obtain ⟨notEmpty, fits⟩ := buffers buf List.mem_cons_self
      obtain ⟨⟨err, after⟩, runs, soundAfter, unread⟩ :=
        spongeWrite_writes sound notEmpty fits
      rw [spongeWritevFrom, runs, ok_bind]
      dsimp only at unread soundAfter ⊢
      cases err with
      | nomem =>
          rw [if_pos (by decide)]
          refine ⟨_, [], rfl, (List.append_nil passed).symm, ?_⟩
          exact
            { sound := soundAfter
              inOrder := List.nil_prefix
              ok_iff :=
                iff_of_false (fun isOk => by cases isOk)
                  (List.cons_ne_nil _ _).symm
              unread := unread }
      | ok =>
          rw [if_neg (not_not_intro rfl)]
          rw [if_pos rfl] at unread
          have restBuffers :
              ∀ other ∈ iov,
                other ≠ [] ∧ other.length ≤ platform.space.limit := by
            intro other member
            exact buffers other (List.mem_cons_of_mem buf member)
          obtain ⟨result, more, goesOn, accepted, writes⟩ :=
            inductionHypothesis restBuffers soundAfter (passed ++ [buf])
          refine ⟨result, buf :: more, goesOn, ?_, ?_⟩
          · rw [accepted, List.append_assoc]
            rfl
          · exact
              { sound := writes.sound
                inOrder := by
                  obtain ⟨rest, isRest⟩ := writes.inOrder
                  exact ⟨rest, congrArg (buf :: ·) isRest⟩
                ok_iff := by
                  apply writes.ok_iff.trans
                  constructor
                  · intro all
                    exact congrArg (buf :: ·) all
                  · intro all
                    exact (List.cons.inj all).2
                unread := by
                  rw [writes.unread, unread, List.append_assoc]
                  rfl }

/-- `dfk__sponge_writev` writes its buffers until one fails. -/
theorem spongeWritev_writes
    {iov : List Bytes}
    (sound : Sound platform stream) (given : iov ≠ [])
    (buffers :
      ∀ buf ∈ iov, buf ≠ [] ∧ buf.length ≤ platform.space.limit) :
    ∃ result, spongeWritev platform stream iov = .ok result ∧
      WritesAll platform stream iov result := by
  obtain ⟨result, more, runs, accepted, writes⟩ :=
    spongeWritevFrom_writes buffers sound []
  refine ⟨result, ?_, ?_⟩
  · rw [spongeWritev, sound.checks, ok_bind, check_pos given, ok_bind]
    exact runs
  · rw [List.nil_append] at accepted
    rw [← accepted] at writes
    exact writes

/-! ## Reading -/

/-- Reading consumes more of the block. -/
theorem Filled.advance
    {count : Nat}
    (isFilled : Filled platform stream block consumed bytes)
    (available : count ≤ stream.sponge.size - consumed) :
    Filled platform
      (stream.advance { block := block, offset := consumed } count)
      block (consumed + count) bytes :=
  { base := isFilled.base
    cur := rfl
    ordered := by
      have ordered := isFilled.ordered
      show consumed + count ≤ stream.sponge.size
      omega
    within := isFilled.within
    capacity := isFilled.capacity
    positive := isFilled.positive
    bounded := isFilled.bounded
    holds := isFilled.holds }

/-- `dfk__sponge_read` takes from the front of what is unread. -/
theorem spongeRead_takes
    {nbytes : Nat}
    (sound : Sound platform stream) (asked : nbytes ≠ 0) :
    ∃ after,
      spongeRead stream nbytes = .ok (stream.unread.take nbytes, after) ∧
        Sound platform after ∧
        after.unread = stream.unread.drop nbytes := by
  rw [spongeRead, sound.checks, ok_bind, check_pos asked, ok_bind]
  have isSound := sound
  rcases sound with isInit | ⟨block, consumed, bytes, isFilled⟩
  · have nothing : stream.sponge.size = 0 := by
      rw [isInit]
      rfl
    rw [if_pos nothing, unread_of_init isInit]
    refine ⟨stream, ?_, Or.inl isInit, ?_⟩
    · rw [List.take_nil]
      rfl
    · rw [unread_of_init isInit]
      exact List.drop_nil.symm
  · have ordered := isFilled.ordered
    have within := isFilled.within
    have capacity := isFilled.capacity
    have bounded := isFilled.bounded
    have small := platform.space.small
    have unread := isFilled.unread_eq
    have length := isFilled.length_unread
    by_cases nothing : stream.sponge.size = 0
    · rw [if_pos nothing]
      rw [nothing, Nat.zero_sub] at length
      have isNil := List.length_eq_zero_iff.mp length
      refine ⟨stream, ?_, isSound, ?_⟩
      · rw [isNil, List.take_nil]
        rfl
      · rw [isNil]
        exact List.drop_nil.symm
    · have sized : stream.sponge.size < 2 ^ 64 := by
        omega
      have available :
          (({ block := block, offset := 0 } : BlockPointer).add
              stream.sponge.size).minus
                { block := block, offset := consumed } =
            .ok (stream.sponge.size - consumed) := by
        rw [BlockPointer.add, Nat.zero_add]
        exact BlockPointer.minus_eq rfl ordered sized
      have inBlock :
          consumed + min nbytes (stream.sponge.size - consumed) ≤
            bytes.length := by
        omega
      have taken :
          (bytes.drop consumed).take
              (min nbytes (stream.sponge.size - consumed)) =
            stream.unread.take nbytes := by
        rw [unread, List.drop_take, List.take_take]
      rw [if_neg nothing, isFilled.base, isFilled.cur, deref_some,
        deref_some, ok_bind, ok_bind, available, ok_bind]
      dsimp only
      rw [Heap.load_eq isFilled.holds inBlock, ok_bind, taken]
      have later := isFilled.advance
        (Nat.min_le_right nbytes (stream.sponge.size - consumed))
      have soundLater : Sound platform _ := Or.inr ⟨_, _, _, later⟩
      refine ⟨_, ?_, soundLater, ?_⟩
      · rw [soundLater.checks]
        rfl
      · rw [later.unread_eq, unread, List.drop_drop]
        show (bytes.take stream.sponge.size).drop _ = _
        rcases Nat.le_total nbytes (stream.sponge.size - consumed) with
          short | long
        · rw [Nat.min_eq_left short]
        · rw [Nat.min_eq_right long]
          have allTaken :
              (bytes.take stream.sponge.size).length ≤
                consumed + (stream.sponge.size - consumed) := by
            rw [List.length_take]
            omega
          rw [List.drop_eq_nil_of_le allTaken]
          exact
            (List.drop_eq_nil_of_le
              (allTaken.trans (Nat.add_le_add_left long consumed))).symm

/-- What `dfk__sponge_readv` leaves. -/
structure ReadsAll (platform : Platform) (stream : Stream)
    (iov : List Bytes) (result : ReadvResult) : Prop where
  sound : Sound platform result.stream
  total :
    result.totalnread = min iov.flatten.length stream.unread.length
  sizes : result.buffers.map List.length = iov.map List.length
  contents :
    result.buffers.flatten =
      filled iov.flatten (stream.unread.take iov.flatten.length)
  unread :
    result.stream.unread = stream.unread.drop iov.flatten.length

/-- Filling one buffer after the other fills all of them. -/
theorem filled_append
    (front rest bytes : Bytes) (size : Nat) :
    filled (front ++ rest) (bytes.take (front.length + size)) =
      filled front (bytes.take front.length) ++
        filled rest ((bytes.drop front.length).take size) := by
  rw [List.take_add]
  rcases Nat.le_total front.length bytes.length with enough | short
  · have whole : (bytes.take front.length).length = front.length := by
      rw [List.length_take, Nat.min_eq_left enough]
    simp only [filled, List.length_append, whole, List.drop_length,
      List.append_nil, List.drop_length_add_append, List.append_assoc]
  · rw [List.drop_eq_nil_of_le short, List.take_nil, List.append_nil,
      List.take_of_length_le short]
    simp only [filled, List.length_nil, List.drop_zero, List.nil_append,
      List.drop_append_of_le_length short, List.append_assoc]

/-- The loop of `dfk__sponge_readv` fills its buffers in order. -/
theorem spongeReadvFrom_reads
    {iov : List Bytes}
    (buffers : ∀ buf ∈ iov, buf ≠ [])
    (sound : Sound platform stream) (totalnread : Nat)
    (passed : List Bytes) :
    ∃ result count more,
      spongeReadvFrom stream totalnread passed iov = .ok result ∧
        result.totalnread = totalnread + count ∧
        result.buffers = passed ++ more ∧
        ReadsAll platform stream iov
          { totalnread := count
            buffers := more
            stream := result.stream } := by
  induction iov generalizing stream totalnread passed with
  | nil =>
      rw [spongeReadvFrom, sound.checks, ok_bind]
      refine
        ⟨_, 0, [], rfl, rfl, (List.append_nil passed).symm, ?_⟩
      exact
        { sound := sound
          total := (Nat.zero_min _).symm
          sizes := rfl
          contents := rfl
          unread := rfl }
  | cons buf iov inductionHypothesis =>
      have notEmpty := buffers buf List.mem_cons_self
      have asked : buf.length ≠ 0 :=
        fun nothing => notEmpty (List.length_eq_zero_iff.mp nothing)
      obtain ⟨after, runs, soundAfter, unread⟩ :=
        spongeRead_takes sound asked
      rw [spongeReadvFrom, runs, ok_bind]
      dsimp only
      by_cases atEnd : (stream.unread.take buf.length).length = 0
      · have isNil : stream.unread = [] := by
          rw [List.length_take] at atEnd
          apply List.length_eq_zero_iff.mp
          omega
        rw [if_pos atEnd, soundAfter.checks, ok_bind]
        refine ⟨_, 0, buf :: iov, rfl, ?_, ?_, ?_⟩
        · dsimp only
          rw [atEnd]
        · rw [isNil, List.take_nil]
          rfl
        · exact
            { sound := soundAfter
              total := by
                rw [isNil]
                exact (Nat.min_zero _).symm
              sizes := rfl
              contents := by
                rw [isNil]
                simp only [List.take_nil]
                rfl
              unread := by
                rw [isNil, List.drop_nil]
                rw [isNil, List.drop_nil] at unread
                exact unread }
      · rw [if_neg atEnd]
        have restBuffers : ∀ other ∈ iov, other ≠ [] := by
          intro other member
          exact buffers other (List.mem_cons_of_mem buf member)
        obtain ⟨result, count, more, goesOn, total, isMore, reads⟩ :=
          inductionHypothesis restBuffers soundAfter
            (totalnread + (stream.unread.take buf.length).length)
            (passed ++ [filled buf (stream.unread.take buf.length)])
        refine
          ⟨result, (stream.unread.take buf.length).length + count,
            filled buf (stream.unread.take buf.length) :: more, goesOn, ?_,
            ?_, ?_⟩
        · rw [total, Nat.add_assoc]
        · rw [isMore, List.append_assoc]
          rfl
        · have totalRest := reads.total
          have contents := reads.contents
          have unreadRest := reads.unread
          rw [unread] at totalRest contents unreadRest
          exact
            { sound := reads.sound
              total := by
                rw [List.length_drop] at totalRest
                rw [List.flatten_cons, List.length_append,
                  List.length_take]
                dsimp only at totalRest ⊢
                omega
              sizes := by
                have fits := List.length_take_le buf.length stream.unread
                rw [List.map_cons, List.map_cons, length_filled fits]
                exact congrArg (buf.length :: ·) reads.sizes
              contents := by
                rw [List.flatten_cons, List.flatten_cons,
                  List.length_append, filled_append]
                exact congrArg (_ ++ ·) contents
              unread := by
                rw [unreadRest, List.drop_drop, List.flatten_cons,
                  List.length_append] }

/-- `dfk__sponge_readv` fills its buffers in order. -/
theorem spongeReadv_reads
    {iov : List Bytes}
    (sound : Sound platform stream) (given : iov ≠ [])
    (buffers : ∀ buf ∈ iov, buf ≠ []) :
    ∃ result, spongeReadv stream iov = .ok result ∧
      ReadsAll platform stream iov result := by
  obtain ⟨result, count, more, runs, total, isMore, reads⟩ :=
    spongeReadvFrom_reads buffers sound 0 []
  refine ⟨result, ?_, ?_⟩
  · rw [spongeReadv, sound.checks, ok_bind, check_pos given, ok_bind]
    exact runs
  · rw [List.nil_append] at isMore
    rw [Nat.zero_add] at total
    rw [← isMore, ← total] at reads
    exact reads

end Streams

/-! ## Runs -/

/-- Calls on a sponge. -/
inductive Operation where
  | write (buf : Bytes)
  | writev (iov : List Bytes)
  | read (nbytes : Nat)
  | readv (iov : List Bytes)
  deriving Repr, DecidableEq

/-- There are buffers, none of them is empty, and each is an object. -/
def Operation.Valid (platform : Platform) : Operation → Prop
  | .write buf => buf ≠ [] ∧ buf.length ≤ platform.space.limit
  | .writev iov =>
      iov ≠ [] ∧ ∀ buf ∈ iov, buf ≠ [] ∧ buf.length ≤ platform.space.limit
  | .read nbytes => nbytes ≠ 0
  | .readv iov => iov ≠ [] ∧ ∀ buf ∈ iov, buf ≠ []

instance (platform : Platform) :
    ∀ operation : Operation, Decidable (operation.Valid platform)
  | .write _ => inferInstanceAs (Decidable (_ ∧ _))
  | .writev _ => inferInstanceAs (Decidable (_ ∧ _))
  | .read nbytes => inferInstanceAs (Decidable (nbytes ≠ 0))
  | .readv _ => inferInstanceAs (Decidable (_ ∧ _))

/--
What a call has put into the stream, by writes that returned `dfk_err_ok`, and
what it has given to the caller.
-/
structure Outcome where
  accepted : Bytes
  delivered : Bytes
  deriving Repr, DecidableEq

/-- Make a call. -/
def perform (platform : Platform) (stream : Stream) :
    Operation → Except Fault (Outcome × Stream)
  | .write buf => do
      let written ← spongeWrite platform stream buf
      pure
        ({ accepted := if written.1 = .ok then buf else []
           delivered := [] }, written.2)
  | .writev iov => do
      let result ← spongeWritev platform stream iov
      pure
        ({ accepted := result.accepted.flatten, delivered := [] },
          result.stream)
  | .read nbytes => do
      let nread ← spongeRead stream nbytes
      pure ({ accepted := [], delivered := nread.1 }, nread.2)
  | .readv iov => do
      let result ← spongeReadv stream iov
      pure
        ({ accepted := []
           delivered := result.buffers.flatten.take result.totalnread },
          result.stream)

/-- Make calls one after the other. -/
def performAll (platform : Platform) :
    Stream → List Operation → Except Fault (List Outcome × Stream)
  | stream, [] => .ok ([], stream)
  | stream, operation :: operations => do
      let first ← perform platform stream operation
      let rest ← performAll platform first.2 operations
      pure (first.1 :: rest.1, rest.2)

/-- A sponge at first, with the answers of `malloc`. -/
def start (answers : List Bool) (fresh : Nat → Nat → UInt8) : Stream where
  sponge := spongeInit
  heap := { blocks := [], answers := answers, fresh := fresh }

/-- What calls have put into a stream and taken from it. -/
def history : List Outcome → List (Fifo.Event UInt8)
  | [] => []
  | outcome :: outcomes =>
      outcome.accepted.map .put ++ outcome.delivered.map .take ++
        history outcomes

section Calls

variable {platform : Platform} {stream : Stream}

/-- A call puts what it accepts behind what is unread, or takes from it. -/
theorem perform_serves
    {operation : Operation}
    (sound : Sound platform stream)
    (valid : operation.Valid platform) :
    ∃ outcome after, perform platform stream operation = .ok (outcome, after) ∧
      Sound platform after ∧
      stream.unread ++ outcome.accepted =
        outcome.delivered ++ after.unread := by
  cases operation with
  | write buf =>
      obtain ⟨written, runs, soundAfter, unread⟩ :=
        spongeWrite_writes sound valid.1 valid.2
      rw [perform, runs, ok_bind]
      exact ⟨_, _, rfl, soundAfter, unread.symm⟩
  | writev iov =>
      obtain ⟨result, runs, writes⟩ :=
        spongeWritev_writes sound valid.1 valid.2
      rw [perform, runs, ok_bind]
      exact ⟨_, _, rfl, writes.sound, writes.unread.symm⟩
  | read nbytes =>
      obtain ⟨after, runs, soundAfter, unread⟩ :=
        spongeRead_takes sound valid
      rw [perform, runs, ok_bind]
      refine ⟨_, _, rfl, soundAfter, ?_⟩
      rw [unread]
      exact (List.append_nil _).trans (List.take_append_drop _ _).symm
  | readv iov =>
      obtain ⟨result, runs, reads⟩ :=
        spongeReadv_reads sound valid.1 valid.2
      rw [perform, runs, ok_bind]
      refine ⟨_, _, rfl, reads.sound, ?_⟩
      have length :
          result.totalnread =
            (stream.unread.take iov.flatten.length).length := by
        rw [List.length_take]
        exact reads.total
      rw [reads.contents, length, reads.unread]
      dsimp only
      rw [filled, List.take_left', List.append_nil, List.take_append_drop]
      rfl

/-- A run serves its history as a queue of bytes does. -/
theorem performAll_serves
    {operations : List Operation}
    (sound : Sound platform stream)
    (valid : ∀ operation ∈ operations, operation.Valid platform)
    (earlier : List (Fifo.Event UInt8))
    (served : Fifo.replay earlier = some stream.unread) :
    ∃ outcomes after,
      performAll platform stream operations = .ok (outcomes, after) ∧
        Sound platform after ∧
        Fifo.replay (earlier ++ history outcomes) = some after.unread := by
  induction operations generalizing stream earlier with
  | nil =>
      refine ⟨[], stream, rfl, sound, ?_⟩
      rw [history, List.append_nil]
      exact served
  | cons operation operations inductionHypothesis =>
      obtain ⟨outcome, between, runs, soundBetween, serves⟩ :=
        perform_serves sound (valid operation List.mem_cons_self)
      have put := Fifo.replay_puts served outcome.accepted
      rw [serves] at put
      have taken := Fifo.replay_takes put
      obtain ⟨outcomes, after, goesOn, soundAfter, served⟩ :=
        inductionHypothesis soundBetween
          (fun other member =>
            valid other (List.mem_cons_of_mem operation member))
          _ taken
      refine ⟨outcome :: outcomes, after, ?_, soundAfter, ?_⟩
      · rw [performAll, runs, ok_bind]
        dsimp only
        rw [goesOn]
        rfl
      · rw [history]
        simp only [List.append_assoc] at served ⊢
        exact served

/-- What a history puts in is what is accepted. -/
theorem puts_history (outcomes : List Outcome) :
    Fifo.puts (history outcomes) =
      (outcomes.map Outcome.accepted).flatten := by
  induction outcomes with
  | nil =>
      rfl
  | cons outcome outcomes inductionHypothesis =>
      rw [history, Fifo.puts_append, Fifo.puts_append, Fifo.puts_map_put,
        Fifo.puts_map_take, List.append_nil, inductionHypothesis]
      rfl

/-- What a history takes is what is delivered. -/
theorem takes_history (outcomes : List Outcome) :
    Fifo.takes (history outcomes) =
      (outcomes.map Outcome.delivered).flatten := by
  induction outcomes with
  | nil =>
      rfl
  | cons outcome outcomes inductionHypothesis =>
      rw [history, Fifo.takes_append, Fifo.takes_append, Fifo.takes_map_put,
        Fifo.takes_map_take, List.nil_append, inductionHypothesis]
      rfl

end Calls

/-- What the next call on a sponge does, whichever it is. -/
structure Serves (platform : Platform) (stream : Stream) : Prop where
  write :
    ∀ buf, Operation.Valid platform (.write buf) →
      ∃ err after,
        spongeWrite platform stream buf = .ok (err, after) ∧
          after.unread = stream.unread ++ if err = .ok then buf else []
  writev :
    ∀ iov, Operation.Valid platform (.writev iov) →
      ∃ result,
        spongeWritev platform stream iov = .ok result ∧
          result.accepted <+: iov ∧
          (result.err = .ok ↔ result.accepted = iov) ∧
          result.stream.unread = stream.unread ++ result.accepted.flatten
  read :
    ∀ nbytes, Operation.Valid platform (.read nbytes) →
      ∃ bytes after,
        spongeRead stream nbytes = .ok (bytes, after) ∧
          bytes.length = min nbytes stream.unread.length ∧
          (bytes = [] → stream.unread = []) ∧
          stream.unread = bytes ++ after.unread
  readv :
    ∀ iov, Operation.Valid platform (.readv iov) →
      ∃ result,
        spongeReadv stream iov = .ok result ∧
          result.totalnread = min iov.flatten.length stream.unread.length ∧
          result.buffers.map List.length = iov.map List.length ∧
          result.buffers.flatten =
            filled iov.flatten (stream.unread.take result.totalnread) ∧
          result.stream.unread = stream.unread.drop result.totalnread

/-- A sound sponge serves any call. -/
theorem Sound.serves
    {platform : Platform} {stream : Stream}
    (sound : Sound platform stream) :
    Serves platform stream where
  write := by
    intro buf valid
    obtain ⟨written, runs, -, unread⟩ :=
      spongeWrite_writes sound valid.1 valid.2
    exact ⟨written.1, written.2, runs, unread⟩
  writev := by
    intro iov valid
    obtain ⟨result, runs, writes⟩ :=
      spongeWritev_writes sound valid.1 valid.2
    exact ⟨result, runs, writes.inOrder, writes.ok_iff, writes.unread⟩
  read := by
    intro nbytes valid
    obtain ⟨after, runs, -, unread⟩ := spongeRead_takes sound valid
    refine ⟨_, after, runs, List.length_take, ?_, ?_⟩
    · intro nothing
      have length := congrArg List.length nothing
      rw [List.length_take, List.length_nil] at length
      have asked : nbytes ≠ 0 := valid
      apply List.length_eq_zero_iff.mp
      omega
    · rw [unread]
      exact (List.take_append_drop _ _).symm
  readv := by
    intro iov valid
    obtain ⟨result, runs, reads⟩ :=
      spongeReadv_reads sound valid.1 valid.2
    have total := reads.total
    refine ⟨result, runs, total, reads.sizes, ?_, ?_⟩
    · rw [reads.contents, total, ← List.take_eq_take_min]
    · rw [reads.unread, total]
      rcases Nat.le_total iov.flatten.length stream.unread.length with
        enough | short
      · rw [Nat.min_eq_left enough]
      · rw [Nat.min_eq_right short, List.drop_length,
          List.drop_eq_nil_of_le short]

/--
A sponge is a lossless stream of bytes: what was delivered, and behind it what
is unread, is what was accepted, in the same order; what the sponge asserts
holds, and the next call does what a stream does.
-/
theorem sponge_is_lossless
    (platform : Platform) (answers : List Bool) (fresh : Nat → Nat → UInt8)
    (operations : List Operation)
    (valid : ∀ operation ∈ operations, operation.Valid platform) :
    ∃ outcomes stream,
      performAll platform (start answers fresh) operations =
          .ok (outcomes, stream) ∧
        (outcomes.map Outcome.accepted).flatten =
          (outcomes.map Outcome.delivered).flatten ++ stream.unread ∧
        stream.sponge.Consistent ∧ Serves platform stream := by
  have sound : Sound platform (start answers fresh) := Or.inl rfl
  obtain ⟨outcomes, stream, runs, soundAfter, served⟩ :=
    performAll_serves sound valid [] rfl
  rw [List.nil_append] at served
  refine ⟨outcomes, stream, runs, ?_, soundAfter.consistent,
    soundAfter.serves⟩
  rw [← puts_history, ← takes_history]
  exact Fifo.puts_of_replay served

/-- An address space of 47 bits, and pages of four bytes. -/
def smallPages : Platform where
  space := { limit := 140737488355328, small := by norm_num }
  pageSize := 4

/-- Writes of which the last finds no memory, and reads between them. -/
def mixedOperations : List Operation :=
  [.write (ascii "foo"), .read 2, .writev [ascii "bar", ascii "quuux"],
    .readv [[0, 0], [0, 0, 0]]]

/-- A stream whose second write moves, and whose third finds no memory. -/
theorem sponge_is_lossless_mixed :
    ∃ outcomes stream,
      performAll smallPages (start [true, true, false] fun _ _ => 0)
          mixedOperations = .ok (outcomes, stream) ∧
        (outcomes.map Outcome.accepted).flatten =
          (outcomes.map Outcome.delivered).flatten ++ stream.unread ∧
        stream.sponge.Consistent ∧ Serves smallPages stream :=
  sponge_is_lossless smallPages [true, true, false] (fun _ _ => 0)
    mixedOperations (by decide)

end Dfk.ByteStream
