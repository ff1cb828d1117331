import Dfk.AvlTree.Insert
import Dfk.StrMap.ItemSource

/-!
# Items and their originals

An item returned by a constructor holds the bytes of the arguments, and what is
copied stands apart from the originals.  The constructors that copy to an arena
are served if and only if they ask for no empty block.
-/

namespace Dfk.ItemCopies

/-! ## What is promised -/

/-- Two ranges of bytes with no byte in common. -/
def Apart : Place → Nat → Place → Nat → Prop
  | .heap place, size, .heap other, otherSize =>
      place.block ≠ other.block ∨ place.offset + size ≤ other.offset ∨
        other.offset + otherSize ≤ place.offset
  | .arena place, size, .arena other, otherSize =>
      Arena.Disjoint ⟨place, size⟩ ⟨other, otherSize⟩
  | _, _, _, _ => True

/-- Some bytes are written inside an original. -/
def Within (write : Place × Bytes) (original : Buffer) : Prop :=
  write.2 ≠ [] ∧
    ∃ place offset,
      original.data = some place ∧ write.1 = place.add offset ∧
        offset + write.2.length ≤ original.size

namespace World

/-- A buffer in memory holds bytes. -/
structure Holds (world : World) (buffer : Buffer) (bytes : Bytes) :
    Prop where
  size : buffer.size = bytes.length
  read : world.read buffer = .ok bytes

/-- Write to several places. -/
def storeAll : World → List (Place × Bytes) → Except Fault World
  | world, [] => .ok world
  | world, write :: writes => do
      let world ← world.store write.1 write.2
      storeAll world writes

/-- A buffer holds its bytes, whatever is written to the originals. -/
def Keeps (world : World) (buffer : Buffer) (bytes : Bytes)
    (originals : List Buffer) : Prop :=
  ∀ writes last,
    (∀ write ∈ writes, ∃ original ∈ originals, Within write original) →
      world.storeAll writes = .ok last → last.Holds buffer bytes

end World

/-- Whether a constructor copies the key. -/
def Constructor.copiesKey : Constructor → Bool
  | .copy | .copyKey | .acopy | .acopyKey => true
  | .copyValue | .acopyValue => false

/-- Whether a constructor copies the value. -/
def Constructor.copiesValue : Constructor → Bool
  | .copy | .copyValue | .acopy | .acopyValue => true
  | .copyKey | .acopyKey => false

/-- An item as a constructor is to return it. -/
structure Made (constructor : Constructor) (key value : Buffer)
    (keyBytes valueBytes : Bytes) (item : Place) (after : World) :
    Prop where
  hook : AvlTree.Fresh after.hooks item
  keyHolds : after.Holds (after.items item).key keyBytes
  valueHolds : after.Holds (after.items item).value valueBytes
  keepsKey :
    constructor.copiesKey = true →
      after.Keeps (after.items item).key keyBytes [key, value]
  keepsValue :
    constructor.copiesValue = true →
      after.Keeps (after.items item).value valueBytes [key, value]

/-- A block of `malloc` of a size is refused. -/
def Refuses (build : Build) (world : World) (size : Nat) : Prop :=
  world.heap.answers.headD true = false ∨ build.space.limit < size

/-- One of the allocations of a constructor fails. -/
def Constructor.Denied (build : Build) (answers : Nat → Bool) (world : World)
    (key value : Buffer) : Constructor → Prop
  | .copy => Refuses build world (build.itemSize + key.size + value.size)
  | .copyKey => Refuses build world (build.itemSize + key.size)
  | .copyValue => Refuses build world (build.itemSize + value.size)
  | .acopy => ∃ index < 3, answers index = false
  | .acopyKey | .acopyValue => ∃ index < 2, answers index = false

/--
A call returns; it returns `NULL` only if an allocation fails, and otherwise an
item as it should.
-/
def Outcome (denied : Prop) (made : Place → World → Prop)
    (called : Except Fault (Option Place × World)) : Prop :=
  ∃ result after,
    called = .ok (result, after) ∧
      (result = none → denied) ∧ ∀ item ∈ result, made item after

/-- An original in the arena is one of the ranges in use. -/
def Lies (given : List Arena.Block) (buffer : Buffer) : Prop :=
  ∀ pointer,
    buffer.data = some (.arena pointer) →
      ({ place := pointer, size := buffer.size } : Arena.Block) ∈ given

/-- Arguments that the constructors declare to accept. -/
structure Admitted (build : Build) (world : World)
    (given : List Arena.Block) (key value : Buffer)
    (keyBytes valueBytes : Bytes) : Prop where
  keyData : key.data.isSome = true
  keySome : key.size ≠ 0
  valueData : value.data.isSome = true ∨ value.size = 0
  keyHolds : world.Holds key keyBytes
  valueHolds : world.Holds value valueBytes
  keyFits : key.size ≤ build.space.limit
  valueFits : value.size ≤ build.space.limit
  tidy : Arena.Tidy build.layout world.arena given
  keyLies : Lies given key
  valueLies : Lies given value

/-- What a constructor asks of the arena, with the answers of `malloc`. -/
def Constructor.requests (build : Build) (answers : Nat → Bool)
    (key value : Buffer) : Constructor → List (Nat × Bool)
  | .copy | .copyKey | .copyValue => []
  | .acopy =>
      [(key.size, answers 0), (value.size, answers 1),
        (build.itemSize, answers 2)]
  | .acopyKey => [(key.size, answers 0), (build.itemSize, answers 1)]
  | .acopyValue => [(value.size, answers 0), (build.itemSize, answers 1)]

/--
With so much left of the current segment, no request up to the first one that
is refused is for nothing or finds the segment filled.
-/
def Passes (layout : Arena.Layout) : Option Nat → List (Nat × Bool) → Prop
  | _, [] => True
  | left, made :: requests =>
      made.1 ≠ 0 ∧ left ≠ some 0 ∧
        (left.any (made.1 ≤ ·) = true ∨ made.2 = true →
          Passes layout (Arena.spend layout left made.2 made.1) requests)

/-! ## Reading after writing -/

section Stores

variable {world after : World} {place other : Place} {data bytes : Bytes}
variable {size otherSize : Nat} {buffer : Buffer}

/-- What is written to a place is read there. -/
theorem load_store_self
    (stored : world.store place data = .ok after) :
    after.load place data.length = .ok data := by
  cases place with
  | heap pointer =>
      obtain ⟨heap, isStored, stored⟩ := of_bind stored
      cases stored
      exact Heap.load_store_self isStored
  | arena pointer =>
      obtain ⟨arena, isCopied, stored⟩ := of_bind stored
      cases stored
      rw [Arena.copy] at isCopied
      by_cases covers :
          world.arena.covers pointer data.length = true
      · rw [if_pos covers] at isCopied
        cases isCopied
        rw [World.load]
        refine (if_pos covers).trans (congrArg Except.ok ?_)
        apply List.ext_getElem
        · rw [List.length_map, List.length_range]
        · intro index inside insideData
          rw [List.getElem_map, List.getElem_range]
          dsimp only
          rw [if_pos ⟨rfl, Nat.le_add_right _ _,
            Nat.add_lt_add_left insideData _⟩, Nat.add_sub_cancel_left]
          exact (List.getElem_eq_getD _).symm
      · rw [if_neg covers] at isCopied
        cases isCopied

/-- What is written to a place does not show at places apart from it. -/
theorem load_store_apart
    (stored : world.store place data = .ok after)
    (apart : Apart place data.length other otherSize) :
    after.load other otherSize = world.load other otherSize := by
  cases place with
  | heap pointer =>
      obtain ⟨heap, isStored, stored⟩ := of_bind stored
      cases stored
      cases other with
      | heap query =>
          exact Heap.load_store_apart isStored apart
      | arena query =>
          rfl
  | arena pointer =>
      obtain ⟨arena, isCopied, stored⟩ := of_bind stored
      cases stored
      cases other with
      | heap query =>
          rfl
      | arena query =>
          have same := Arena.copy_segments isCopied
          rw [World.load, World.load]
          dsimp only
          have covers :
              arena.covers query otherSize =
                world.arena.covers query otherSize := by
            rw [Arena.State.covers, Arena.State.covers, same]
          rw [covers]
          have bytes :
              ∀ index < otherSize,
                arena.memory query.segment (query.offset + index) =
                  world.arena.memory query.segment
                    (query.offset + index) :=
            Arena.copy_sameBytes isCopied apart
          rw [List.map_congr_left fun index member =>
            bytes index (List.mem_range.mp member)]

/-- A buffer of which no byte is in a range. -/
def Clear (place : Place) (size : Nat) (buffer : Buffer) : Prop :=
  ∀ other,
    buffer.data = some other → buffer.size ≠ 0 →
      Apart place size other buffer.size

/-- Reading depends on what is loaded from the place of the buffer. -/
theorem World.Holds.of_load
    (holds : world.Holds buffer bytes)
    (same :
      ∀ other,
        buffer.data = some other → buffer.size ≠ 0 →
          world.load other buffer.size = .ok bytes →
            after.load other buffer.size = .ok bytes) :
    after.Holds buffer bytes := by
  refine ⟨holds.size, ?_⟩
  have read := holds.read
  rw [World.read] at read ⊢
  by_cases empty : buffer.size = 0
  · rw [if_pos empty] at read ⊢
    exact read
  · rw [if_neg empty] at read ⊢
    obtain ⟨other, isOther, loaded⟩ := of_bind read
    cases isData : buffer.data with
    | none =>
        rw [isData] at isOther
        cases isOther
    | some pointed =>
        rw [isData, deref_some] at isOther
        cases isOther
        exact same _ isData empty loaded

/-- What is written to a place does not show in buffers clear of it. -/
theorem World.Holds.store
    (holds : world.Holds buffer bytes)
    (stored : world.store place data = .ok after)
    (clear : Clear place data.length buffer) :
    after.Holds buffer bytes :=
  holds.of_load fun other isData some loaded => by
    rw [load_store_apart stored (clear other isData some)]
    exact loaded

/-- A buffer that is written holds what is written. -/
theorem holds_store_self
    (stored : world.store place data = .ok after) :
    after.Holds { data := some place, size := data.length } data := by
  refine ⟨rfl, ?_⟩
  rw [World.read]
  by_cases empty : data.length = 0
  · rw [if_pos empty, List.eq_nil_of_length_eq_zero empty]
  · rw [if_neg empty]
    exact load_store_self stored

theorem Apart.symm
    (apart : Apart place size other otherSize) :
    Apart other otherSize place size := by
  cases place with
  | heap pointer =>
      cases other with
      | heap query =>
          rcases apart with blocks | before | behind
          · exact Or.inl (Ne.symm blocks)
          · exact Or.inr (Or.inr before)
          · exact Or.inr (Or.inl behind)
      | arena query =>
          trivial
  | arena pointer =>
      cases other with
      | heap query =>
          trivial
      | arena query =>
          rcases apart with segments | before | behind
          · exact Or.inl (Ne.symm segments)
          · exact Or.inr (Or.inr before)
          · exact Or.inr (Or.inl behind)

/-- What is inside a range is apart from what the range is apart from. -/
theorem Apart.within
    {offset count : Nat}
    (apart : Apart place size other otherSize)
    (inside : offset + count ≤ otherSize) :
    Apart place size (other.add offset) count := by
  cases place with
  | heap pointer =>
      cases other with
      | heap query =>
          rcases apart with blocks | before | behind
          · exact Or.inl blocks
          · exact Or.inr (Or.inl (Nat.le_trans before (Nat.le_add_right _ _)))
          · exact Or.inr (Or.inr
              (Nat.le_trans
                ((Nat.add_assoc _ _ _).trans_le
                  (Nat.add_le_add_left inside _)) behind))
      | arena query =>
          trivial
  | arena pointer =>
      cases other with
      | heap query =>
          trivial
      | arena query =>
          rcases apart with segments | before | behind
          · exact Or.inl segments
          · exact Or.inr (Or.inl (Nat.le_trans before (Nat.le_add_right _ _)))
          · exact Or.inr (Or.inr
              (Nat.le_trans
                ((Nat.add_assoc _ _ _).trans_le
                  (Nat.add_le_add_left inside _)) behind))

/-- A buffer that is clear of the originals keeps its bytes. -/
theorem World.Holds.keeps
    {originals : List Buffer}
    (holds : world.Holds { data := some place, size := size } bytes)
    (clear : ∀ original ∈ originals, Clear place size original) :
    world.Keeps { data := some place, size := size } bytes originals := by
  intro writes
  induction writes generalizing world with
  | nil =>
      intro last _ stored
      cases stored
      exact holds
  | cons write writes inductionHypothesis =>
      intro last within stored
      obtain ⟨between, isStored, stored⟩ := of_bind stored
      obtain ⟨original, isOriginal, some, other, offset, isData, isPlace,
        inside⟩ := within write (List.mem_cons_self ..)
      have apart :
          Apart place size write.1 write.2.length := by
        have length : write.2.length ≠ 0 :=
          fun empty => some (List.eq_nil_of_length_eq_zero empty)
        rw [isPlace]
        exact Apart.within
          (clear original isOriginal other isData (by omega)) inside
      refine inductionHypothesis (holds.store isStored ?_) last
        (fun other member => within other (List.mem_cons_of_mem _ member))
        stored
      intro pointed isPointed _
      cases isPointed
      exact apart.symm

end Stores

/-! ## Returning an item -/

section Constructors

variable {build : Build} {answers : Nat → Bool} {world : World}
variable {key value : Buffer} {keyBytes valueBytes : Bytes}
variable {constructor : Constructor} {denied : Prop}
variable {given : List Arena.Block} {bytes : Bytes}

/-- Arguments that pass the assertions. -/
theorem checkArguments_eq
    (keyData : key.data.isSome = true)
    (keySome : key.size ≠ 0)
    (valueData : value.data.isSome = true ∨ value.size = 0) :
    checkArguments key value = .ok () := by
  rw [checkArguments, check_pos keyData, ok_bind, check_pos keySome, ok_bind,
    check_pos valueData]

theorem Admitted.checked
    (admitted : Admitted build world given key value keyBytes valueBytes) :
    checkArguments key value = .ok () :=
  checkArguments_eq admitted.keyData admitted.keySome admitted.valueData

/-- An item is returned with buffers that hold the bytes. -/
theorem outcome_returnItem
    {item : Place} {newKey newValue : Buffer}
    (checked : checkArguments newKey newValue = .ok ())
    (keyHolds : world.Holds newKey keyBytes)
    (valueHolds : world.Holds newValue valueBytes)
    (keyClear :
      constructor.copiesKey = true →
        ∃ place, newKey.data = some place ∧
          ∀ original ∈ [key, value], Clear place newKey.size original)
    (valueClear :
      constructor.copiesValue = true →
        ∃ place, newValue.data = some place ∧
          ∀ original ∈ [key, value], Clear place newValue.size original) :
    Outcome denied (Made constructor key value keyBytes valueBytes)
      (returnItem build newKey newValue item world) := by
  rw [returnItem, itemInit, checked, ok_bind]
  refine ⟨_, _, rfl, nofun, ?_⟩
  intro returned isReturned
  cases isReturned
  have isItem :
      Function.update world.items item { key := newKey, value := newValue }
          item =
        { key := newKey, value := newValue } :=
    Function.update_self ..
  have fresh :
      AvlTree.Fresh (AvlTree.hookInit build.debug world.hooks item) item := by
    have isHook :
        AvlTree.hookInit build.debug world.hooks item item =
          AvlTree.freshHook build.debug (world.hooks item) :=
      if_pos rfl
    refine ⟨?_, ?_, ?_, ?_⟩ <;> rw [isHook] <;> rfl
  refine ⟨fresh, ?_, ?_, fun copies => ?_, fun copies => ?_⟩
  · dsimp only
    rw [isItem]
    exact ⟨keyHolds.size, keyHolds.read⟩
  · dsimp only
    rw [isItem]
    exact ⟨valueHolds.size, valueHolds.read⟩
  · obtain ⟨place, isData, clear⟩ := keyClear copies
    dsimp only
    rw [isItem]
    obtain ⟨data, size⟩ := newKey
    cases isData
    apply World.Holds.keeps _ clear
    exact ⟨keyHolds.size, keyHolds.read⟩
  · obtain ⟨place, isData, clear⟩ := valueClear copies
    dsimp only
    rw [isItem]
    obtain ⟨data, size⟩ := newValue
    cases isData
    apply World.Holds.keeps _ clear
    exact ⟨valueHolds.size, valueHolds.read⟩

/-! ## Blocks of `malloc` -/

/-- A block of `malloc` with so many bytes. -/
def Owns (world : World) (block size : Nat) : Prop :=
  ∃ bytes,
    world.heap.bytes? block = some bytes ∧ bytes.length = size

/-- A new block of `malloc`, with everything else as before. -/
structure Grown (world : World) (block size : Nat) (after : World) :
    Prop where
  owns : Owns after block size
  holds :
    ∀ buffer bytes, world.Holds buffer bytes → after.Holds buffer bytes
  clear :
    ∀ buffer bytes offset count,
      world.Holds buffer bytes →
        Clear (.heap { block := block, offset := offset }) count buffer

/-- The heap with one more block. -/
theorem grown_grow
    (world : World) (size : Nat) :
    Grown world world.heap.blocks.length size
      { world with heap := world.heap.grow size } := by
  have alive (pointer : BlockPointer) (count : Nat) (loaded : Bytes)
      (isLoaded : world.heap.load pointer count = .ok loaded) :
      pointer.block < world.heap.blocks.length := by
    rw [Heap.load] at isLoaded
    split at isLoaded
    · next bytes holds =>
        exact Heap.given_of_bytes holds
    · cases isLoaded
  refine ⟨⟨_, Heap.bytes?_grow, by simp⟩, ?_, ?_⟩
  · intro buffer bytes holds
    apply holds.of_load
    intro other isData some loaded
    cases other with
    | heap pointer =>
        have given := alive pointer _ _ loaded
        rw [World.load, Heap.load] at loaded ⊢
        dsimp only
        rw [Heap.bytes?_grow_of_lt given]
        exact loaded
    | arena pointer =>
        exact loaded
  · intro buffer bytes offset count holds other isData some
    cases other with
    | heap pointer =>
        have read := holds.read
        rw [World.read, if_neg some, isData, deref_some, ok_bind] at read
        exact Or.inl (Nat.ne_of_gt (alive pointer _ _ read))
    | arena pointer =>
        trivial

/-- What is called with a block of `malloc`, if there is one. -/
theorem outcome_malloc
    {size : Nat} {made : Place → World → Prop}
    {next : Place → World → Except Fault (Option Place × World)}
    (some : size ≠ 0)
    (bounded : size < 2 ^ 64)
    (denies : Refuses build world size → denied)
    (rest :
      ∀ block after,
        Grown world block size after →
          Outcome denied made
            (next (.heap { block := block, offset := 0 }) after)) :
    Outcome denied made (malloc build world size >>= orNull next) := by
  have noWrap : Arena.sizeT size = size := Nat.mod_eq_of_lt bounded
  rw [malloc, noWrap, Heap.malloc, check_pos some, ok_bind]
  by_cases granted :
      world.heap.answers.headD true = true ∧ size ≤ build.space.limit
  · rw [if_pos granted]
    exact rest _ _ (grown_grow world size)
  · rw [if_neg granted]
    refine ⟨none, _, rfl, fun _ => denies ?_,
      fun item isItem => by cases isItem⟩
    rw [Refuses]
    rcases not_and_or.mp granted with refused | large
    · exact Or.inl (Bool.not_eq_true _ ▸ refused)
    · exact Or.inr (Nat.not_le.mp large)

/-- A copy to a part of a block. -/
theorem memcpy_owned
    {block size offset : Nat} {src : Buffer}
    (owns : Owns world block size)
    (holds : world.Holds src bytes)
    (fits : offset + src.size ≤ size) :
    ∃ after,
      world.memcpy (.heap { block := block, offset := offset }) src =
          .ok after ∧
        Owns after block size ∧
        after.Holds
          { data := some (.heap { block := block, offset := offset })
            size := src.size } bytes ∧
        ∀ buffer others,
          Clear (.heap { block := block, offset := offset }) src.size
              buffer →
            world.Holds buffer others → after.Holds buffer others := by
  obtain ⟨old, isOld, length⟩ := owns
  rw [holds.size, ← length] at fits
  have isStored := Heap.store_eq isOld fits
  have stored :
      world.store (.heap { block := block, offset := offset }) bytes =
        .ok
          { world with
            heap := world.heap.put block (overwrite old offset bytes) } := by
    rw [World.store, isStored]
    rfl
  rw [World.memcpy, holds.read, ok_bind, stored]
  refine ⟨_, rfl, ⟨_, Heap.bytes?_put isOld, ?_⟩, ?_, ?_⟩
  · rw [length_overwrite fits, length]
  · rw [holds.size]
    exact holds_store_self stored
  · intro buffer others clear isHeld
    rw [holds.size] at clear
    exact isHeld.store stored clear

section Heap

variable
  (admitted : Admitted build world given key value keyBytes valueBytes)

include admitted

/-- A new block is clear of the originals. -/
theorem Grown.clear_originals
    {block size : Nat} {after : World}
    (grown : Grown world block size after) (offset count : Nat) :
    ∀ original ∈ [key, value],
      Clear (.heap { block := block, offset := offset }) count original := by
  intro original member
  rcases List.mem_cons.mp member with rfl | isValue
  · exact grown.clear _ _ offset count admitted.keyHolds
  · rw [List.mem_singleton.mp isValue]
    exact grown.clear _ _ offset count admitted.valueHolds

/-- `dfk_strmap_item_copy` -/
theorem outcome_itemCopy :
    Outcome (Refuses build world (build.itemSize + key.size + value.size))
      (Made .copy key value keyBytes valueBytes)
      (itemCopy build world key value) := by
  have small := build.space.small
  have itemFits := build.itemFits
  have keyFits := admitted.keyFits
  have valueFits := admitted.valueFits
  have itemSome := build.itemSome
  rw [itemCopy, admitted.checked, ok_bind]
  apply outcome_malloc (by omega) (by omega) id
  intro block grown isGrown
  have originals := isGrown.clear_originals admitted
  obtain ⟨keyed, isKeyed, ownsKeyed, keyCopied, keptKeyed⟩ :=
    @memcpy_owned grown keyBytes block _ (0 + build.itemSize) key
      isGrown.owns (isGrown.holds _ _ admitted.keyHolds) (by omega)
  have valueHolds : keyed.Holds value valueBytes :=
    keptKeyed value valueBytes (originals _ _ value (by simp))
      (isGrown.holds _ _ admitted.valueHolds)
  obtain ⟨valued, isValued, -, valueCopied, keptValued⟩ :=
    @memcpy_owned keyed valueBytes block _ (0 + build.itemSize + key.size)
      value ownsKeyed valueHolds (by omega)
  have keyHolds :=
    keptValued _ keyBytes
      (fun other isOther _ => by
        cases isOther
        exact Or.inr (Or.inr (Nat.le_refl _)))
      keyCopied
  dsimp only [Place.add, BlockPointer.add]
  rw [isKeyed, ok_bind, isValued, ok_bind]
  exact outcome_returnItem
    (checkArguments_eq rfl admitted.keySome (Or.inl rfl)) keyHolds
    valueCopied (fun _ => ⟨_, rfl, originals _ _⟩)
    fun _ => ⟨_, rfl, originals _ _⟩

/-- `dfk_strmap_item_copy_key` -/
theorem outcome_itemCopyKey :
    Outcome (Refuses build world (build.itemSize + key.size))
      (Made .copyKey key value keyBytes valueBytes)
      (itemCopyKey build world key value) := by
  have small := build.space.small
  have itemFits := build.itemFits
  have keyFits := admitted.keyFits
  have itemSome := build.itemSome
  rw [itemCopyKey, admitted.checked, ok_bind]
  apply outcome_malloc (by omega) (by omega) id
  intro block grown isGrown
  have originals := isGrown.clear_originals admitted
  obtain ⟨keyed, isKeyed, -, keyCopied, keptKeyed⟩ :=
    @memcpy_owned grown keyBytes block _ (0 + build.itemSize) key
      isGrown.owns (isGrown.holds _ _ admitted.keyHolds) (by omega)
  have valueHolds : keyed.Holds value valueBytes :=
    keptKeyed value valueBytes (originals _ _ value (by simp))
      (isGrown.holds _ _ admitted.valueHolds)
  dsimp only [Place.add, BlockPointer.add]
  rw [isKeyed, ok_bind]
  exact outcome_returnItem
    (checkArguments_eq rfl admitted.keySome admitted.valueData) keyCopied
    valueHolds (fun _ => ⟨_, rfl, originals _ _⟩) nofun

/-- `dfk_strmap_item_copy_value` -/
theorem outcome_itemCopyValue :
    Outcome (Refuses build world (build.itemSize + value.size))
      (Made .copyValue key value keyBytes valueBytes)
      (itemCopyValue build world key value) := by
  have small := build.space.small
  have itemFits := build.itemFits
  have valueFits := admitted.valueFits
  have itemSome := build.itemSome
  rw [itemCopyValue, admitted.checked, ok_bind]
  apply outcome_malloc (by omega) (by omega) id
  intro block grown isGrown
  have originals := isGrown.clear_originals admitted
  obtain ⟨valued, isValued, -, valueCopied, keptValued⟩ :=
    @memcpy_owned grown valueBytes block _ (0 + build.itemSize) value
      isGrown.owns (isGrown.holds _ _ admitted.valueHolds) (by omega)
  have keyHolds : valued.Holds key keyBytes :=
    keptValued key keyBytes (originals _ _ key (by simp))
      (isGrown.holds _ _ admitted.keyHolds)
  dsimp only [Place.add, BlockPointer.add]
  rw [isValued, ok_bind]
  exact outcome_returnItem
    (checkArguments_eq admitted.keyData admitted.keySome (Or.inl rfl))
    keyHolds valueCopied nofun fun _ => ⟨_, rfl, originals _ _⟩

end Heap

/-! ## Blocks of the arena -/

/-- An arena with one more block, and everything else as before. -/
structure Extends (build : Build) (world : World)
    (given : List Arena.Block) (pointer : Arena.Pointer) (size : Nat)
    (after : World) : Prop where
  tidy :
    Arena.Tidy build.layout after.arena
      ({ place := pointer, size := size } :: given)
  apart :
    ∀ block ∈ given,
      Arena.Disjoint { place := pointer, size := size } block
  holds :
    ∀ buffer bytes,
      Lies given buffer → world.Holds buffer bytes →
        after.Holds buffer bytes

/-- A range that is in use stands in a segment. -/
theorem covers_of_given
    {layout : Arena.Layout} {arena : Arena.State} {block : Arena.Block}
    (tidy : Arena.Tidy layout arena given)
    (member : block ∈ given) :
    arena.covers block.place block.size = true := by
  obtain ⟨segment, isSegment, ends⟩ := tidy.given block member
  obtain ⟨-, -, within, -, -⟩ :=
    tidy.segments segment (List.mem_of_getElem? isSegment)
  rw [Arena.State.covers, isSegment]
  exact decide_eq_true (Nat.le_trans ends within)

/-- A block that is taken extends the arena. -/
theorem extends_of_taken
    {pointer : Arena.Pointer} {size : Nat} {arena : Arena.State}
    (tidy : Arena.Tidy build.layout world.arena given)
    (isTaken : Arena.Taken build.layout world.arena pointer size arena) :
    Extends build world given pointer size { world with arena := arena } := by
  obtain ⟨-, apart, tidyAfter⟩ :=
    isTaken.block tidy (Nat.le_refl _) (Nat.le_refl _)
  refine ⟨tidyAfter, apart, fun buffer bytes lies holds => ?_⟩
  apply holds.of_load
  intro other isData _ loaded
  cases other with
  | heap query =>
      exact loaded
  | arena query =>
      have before := covers_of_given tidy (lies query isData)
      have after :=
        covers_of_given (isTaken.tidy given tidy) (lies query isData)
      rw [World.load, if_pos before] at loaded
      rw [World.load]
      refine (if_pos after).trans ?_
      rw [isTaken.memory]
      exact loaded

/-- A block that extends an arena is clear of what was in use. -/
theorem Extends.clear
    {pointer : Arena.Pointer} {size : Nat} {after : World} {buffer : Buffer}
    (isExtended : Extends build world given pointer size after)
    (lies : Lies given buffer) :
    Clear (.arena pointer) size buffer := by
  intro other isData _
  cases other with
  | heap query =>
      trivial
  | arena query =>
      exact isExtended.apart _ (lies query isData)

/-- What is in use stays in use. -/
theorem Lies.cons
    {buffer : Buffer} (lies : Lies given buffer) (block : Arena.Block) :
    Lies (block :: given) buffer :=
  fun pointer isData => List.mem_cons_of_mem _ (lies pointer isData)

/-- The new block is in use. -/
theorem lies_self
    (pointer : Arena.Pointer) (size : Nat) :
    Lies ({ place := pointer, size := size } :: given)
      { data := some (.arena pointer), size := size } := by
  intro other isData
  cases isData
  exact List.mem_cons_self ..

/-- A copy to the new block. -/
theorem Extends.copied
    {pointer : Arena.Pointer} {after : World} {src : Buffer}
    (isExtended : Extends build world given pointer src.size after)
    (holds : world.Holds src bytes)
    (lies : Lies given src) :
    ∃ last,
      after.memcpy (.arena pointer) src = .ok last ∧
        Extends build world given pointer src.size last ∧
        last.Holds { data := some (.arena pointer), size := src.size }
          bytes ∧
        last.arena.segments = after.arena.segments := by
  have holdsAfter := isExtended.holds src bytes lies holds
  have covers : after.arena.covers pointer bytes.length = true := by
    rw [← holds.size]
    exact covers_of_given isExtended.tidy (List.mem_cons_self ..)
  obtain ⟨arena, isCopied⟩ :
      ∃ arena, Arena.copy after.arena pointer bytes = .ok arena := by
    rw [Arena.copy, if_pos covers]
    exact ⟨_, rfl⟩
  have stored :
      after.store (.arena pointer) bytes =
        .ok { after with arena := arena } := by
    rw [World.store, isCopied]
    rfl
  have segments := Arena.copy_segments isCopied
  rw [World.memcpy, holdsAfter.read, ok_bind, stored]
  refine ⟨_, rfl, ⟨isExtended.tidy.of_segments segments, isExtended.apart,
    ?_⟩, ?_, segments⟩
  · intro buffer others isLying isHeld
    have clear := isExtended.clear isLying
    rw [holds.size] at clear
    exact (isExtended.holds buffer others isLying isHeld).store stored clear
  · rw [holds.size]
    exact holds_store_self stored

section Requests

variable {made : Place → World → Prop} {requests : List (Nat × Bool)}
variable {next : Place → World → Except Fault (Option Place × World)}
variable {answer : Bool}

/-- Nothing comes of a call that fails. -/
theorem outcome_error
    {fault : Fault} :
    ¬ Outcome denied made (.error fault) := by
  rintro ⟨_, _, failed, -⟩
  cases failed

/-- What is called with a block of the arena, if there is one. -/
theorem outcome_arena
    {size : Nat}
    (tidy : Arena.Tidy build.layout world.arena given)
    (small : size ≤ build.space.limit)
    (denies : answer = false → denied)
    (rest :
      ∀ pointer after,
        Extends build world given pointer size after →
          (Outcome denied made (next (.arena pointer) after) ↔
            Passes build.layout (Arena.left after.arena) requests)) :
    Outcome denied made
        (arenaAlloc build world answer size >>= orNull next) ↔
      Passes build.layout (Arena.left world.arena)
        ((size, answer) :: requests) := by
  have bounded : build.layout.headerSize + size < 2 ^ 64 := by
    have headerFits := build.headerFits
    have small := build.space.small
    omega
  rw [Passes, arenaAlloc]
  by_cases empty : size = 0
  · rw [Arena.alloc, check_neg (not_not.mpr empty)]
    exact iff_of_false outcome_error fun passes => passes.1 empty
  by_cases room : Arena.HasRoom world.arena
  · have isLeft := Arena.hasRoom_iff.mp room
    have served
        {pointer : Arena.Pointer} {arena : Arena.State}
        (allocated :
          Arena.alloc build.layout world.arena answer size =
            .ok (some pointer, arena))
        (isTaken :
          Arena.Taken build.layout world.arena pointer size arena)
        (serves :
          (Arena.left world.arena).any (size ≤ ·) = true ∨ answer = true) :
        Outcome denied made
            ((do
              let allocated ←
                Arena.alloc build.layout world.arena answer size
              pure
                (allocated.1.map Place.arena,
                  { world with arena := allocated.2 })) >>= orNull next) ↔
          size ≠ 0 ∧ Arena.left world.arena ≠ some 0 ∧
            ((Arena.left world.arena).any (size ≤ ·) = true ∨
                answer = true →
              Passes build.layout
                (Arena.spend build.layout (Arena.left world.arena) answer
                  size) requests) := by
      rw [← Arena.left_alloc tidy (Or.inl bounded) allocated, allocated]
      exact (rest pointer _ (extends_of_taken tidy isTaken)).trans
        ⟨fun passes => ⟨empty, isLeft, fun _ => passes⟩,
          fun passes => passes.2.2 serves⟩
    rcases Arena.alloc_of_room answer tidy room empty with
      ⟨opens, begun⟩ | ⟨notOpens, pointer, arena, allocated, isTaken⟩
    · have short := Arena.any_left_iff.mpr opens
      cases answer with
      | false =>
          rw [begun]
          refine iff_of_true
            ⟨none, world, rfl, fun _ => denies rfl,
              fun item isItem => by cases isItem⟩
            ⟨empty, isLeft, fun serves => ?_⟩
          rw [short] at serves
          rcases serves with never | never <;> cases never
      | true =>
          exact served begun
            (Arena.beginSegment_taken bounded
              (rfl :
                Arena.beginSegment build.layout world.arena true size = _))
            (Or.inr rfl)
    · have serves :
          (Arena.left world.arena).any (size ≤ ·) = true := by
        rw [← Bool.not_eq_false]
        exact fun short => notOpens (Arena.any_left_iff.mp short)
      exact served allocated isTaken (Or.inl serves)
  · refine iff_of_false ?_ fun passes =>
      room (Arena.hasRoom_iff.mpr passes.2.1)
    rintro ⟨result, after, called, -⟩
    obtain ⟨_, allocates, -⟩ := of_bind called
    obtain ⟨_, allocated, -⟩ := of_bind allocates
    exact Arena.alloc_of_no_room room allocated

/-- What is called with a copy in the arena, if there is one. -/
theorem outcome_arenaCopy
    {src : Buffer}
    (tidy : Arena.Tidy build.layout world.arena given)
    (data : src.data.isSome = true ∨ src.size = 0)
    (small : src.size ≤ build.space.limit)
    (holds : world.Holds src bytes)
    (lies : Lies given src)
    (denies : answer = false → denied)
    (rest :
      ∀ pointer after,
        Extends build world given pointer src.size after →
          after.Holds { data := some (.arena pointer), size := src.size }
              bytes →
            (Outcome denied made (next (.arena pointer) after) ↔
              Passes build.layout (Arena.left after.arena) requests)) :
    Outcome denied made
        (arenaAllocCopy build world answer src >>= orNull next) ↔
      Passes build.layout (Arena.left world.arena)
        ((src.size, answer) :: requests) := by
  by_cases some : src.data.isSome = true
  · by_cases empty : src.size = 0
    · rw [arenaAllocCopy, check_pos some, ok_bind,
        check_neg (not_not.mpr empty)]
      exact iff_of_false outcome_error fun passes => passes.1 empty
    · have copies :
          arenaAllocCopy build world answer src >>= orNull next =
            arenaAlloc build world answer src.size >>=
              orNull (fun place world => do
                let world ← world.memcpy place src
                next place world) := by
        rw [arenaAllocCopy, check_pos some, ok_bind, check_pos empty,
          ok_bind]
        cases arenaAlloc build world answer src.size with
        | error fault =>
            rfl
        | ok allocated =>
            rcases allocated with ⟨_ | place, after⟩
            · rfl
            · rw [ok_bind, ok_bind]
              dsimp only [orNull]
              cases after.memcpy place src <;> rfl
      rw [copies]
      apply outcome_arena tidy small denies
      intro pointer after isExtended
      obtain ⟨last, isCopied, isExtendedLast, isHeld, segments⟩ :=
        isExtended.copied holds lies
      have sameLeft : Arena.left after.arena = Arena.left last.arena := by
        rw [Arena.left, Arena.left, segments]
      rw [isCopied, ok_bind, sameLeft]
      exact rest pointer last isExtendedLast isHeld
  · have empty : src.size = 0 := data.resolve_left some
    rw [arenaAllocCopy, check_neg some]
    exact iff_of_false outcome_error fun passes => passes.1 empty

end Requests

section Arena

variable
  (admitted : Admitted build world given key value keyBytes valueBytes)

include admitted

/-- A block of the arena is clear of the originals. -/
theorem Extends.clear_originals
    {base : World} {others : List Arena.Block} {pointer : Arena.Pointer}
    {size : Nat} {after : World}
    (isExtended : Extends build base others pointer size after)
    (among : ∀ block ∈ given, block ∈ others) :
    ∀ original ∈ [key, value], Clear (.arena pointer) size original := by
  intro original member
  apply isExtended.clear
  intro query isData
  apply among
  rcases List.mem_cons.mp member with rfl | isValue
  · exact admitted.keyLies query isData
  · rw [List.mem_singleton.mp isValue] at isData ⊢
    exact admitted.valueLies query isData

/-- `dfk_strmap_item_acopy` -/
theorem outcome_itemAcopy :
    Outcome (∃ index < 3, answers index = false)
        (Made .acopy key value keyBytes valueBytes)
        (itemAcopy build answers world key value) ↔
      Passes build.layout (Arena.left world.arena)
        (Constructor.acopy.requests build answers key value) := by
  rw [itemAcopy, admitted.checked, ok_bind]
  apply outcome_arenaCopy admitted.tidy (Or.inl admitted.keyData)
    admitted.keyFits admitted.keyHolds admitted.keyLies
    fun denied => ⟨0, by decide, denied⟩
  intro pkey keyed isKeyed keyHeld
  apply outcome_arenaCopy isKeyed.tidy admitted.valueData
    admitted.valueFits
    (isKeyed.holds _ _ admitted.valueLies admitted.valueHolds)
    (admitted.valueLies.cons _) fun denied => ⟨1, by decide, denied⟩
  intro pvalue valued isValued valueHeld
  apply outcome_arena isValued.tidy build.itemFits
    fun denied => ⟨2, by decide, denied⟩
  intro item last isLast
  refine iff_of_true ?_ trivial
  have keyLast :=
    isLast.holds _ _ ((lies_self pkey key.size).cons _)
      (isValued.holds _ _ (lies_self pkey key.size) keyHeld)
  have valueLast := isLast.holds _ _ (lies_self pvalue value.size) valueHeld
  exact outcome_returnItem
    (checkArguments_eq rfl admitted.keySome (Or.inl rfl)) keyLast valueLast
    (fun _ => ⟨_, rfl, isKeyed.clear_originals admitted fun _ => id⟩)
    fun _ =>
      ⟨_, rfl,
        isValued.clear_originals admitted fun _ =>
          List.mem_cons_of_mem _⟩

/-- `dfk_strmap_item_acopy_key` -/
theorem outcome_itemAcopyKey :
    Outcome (∃ index < 2, answers index = false)
        (Made .acopyKey key value keyBytes valueBytes)
        (itemAcopyKey build answers world key value) ↔
      Passes build.layout (Arena.left world.arena)
        (Constructor.acopyKey.requests build answers key value) := by
  rw [itemAcopyKey, admitted.checked, ok_bind]
  apply outcome_arenaCopy admitted.tidy (Or.inl admitted.keyData)
    admitted.keyFits admitted.keyHolds admitted.keyLies
    fun denied => ⟨0, by decide, denied⟩
  intro pkey keyed isKeyed keyHeld
  apply outcome_arena isKeyed.tidy build.itemFits
    fun denied => ⟨1, by decide, denied⟩
  intro item last isLast
  refine iff_of_true ?_ trivial
  have keyLast := isLast.holds _ _ (lies_self pkey key.size) keyHeld
  have valueLast :=
    isLast.holds _ _ (admitted.valueLies.cons _)
      (isKeyed.holds _ _ admitted.valueLies admitted.valueHolds)
  exact outcome_returnItem
    (checkArguments_eq rfl admitted.keySome admitted.valueData) keyLast
    valueLast
    (fun _ => ⟨_, rfl, isKeyed.clear_originals admitted fun _ => id⟩) nofun

/-- `dfk_strmap_item_acopy_value` -/
theorem outcome_itemAcopyValue :
    Outcome (∃ index < 2, answers index = false)
        (Made .acopyValue key value keyBytes valueBytes)
        (itemAcopyValue build answers world key value) ↔
      Passes build.layout (Arena.left world.arena)
        (Constructor.acopyValue.requests build answers key value) := by
  rw [itemAcopyValue, admitted.checked, ok_bind]
  apply outcome_arenaCopy admitted.tidy admitted.valueData
    admitted.valueFits admitted.valueHolds admitted.valueLies
    fun denied => ⟨0, by decide, denied⟩
  intro pvalue valued isValued valueHeld
  apply outcome_arena isValued.tidy build.itemFits
    fun denied => ⟨1, by decide, denied⟩
  intro item last isLast
  refine iff_of_true ?_ trivial
  have keyLast :=
    isLast.holds _ _ (admitted.keyLies.cons _)
      (isValued.holds _ _ admitted.keyLies admitted.keyHolds)
  have valueLast := isLast.holds _ _ (lies_self pvalue value.size) valueHeld
  exact outcome_returnItem
    (checkArguments_eq admitted.keyData admitted.keySome (Or.inl rfl))
    keyLast valueLast nofun
    fun _ => ⟨_, rfl, isValued.clear_originals admitted fun _ => id⟩

end Arena

end Constructors

/--
A constructor does what it should for the arguments it declares to accept if
and only if, up to the first refusal, it asks the arena for no empty block and
never finds the current segment filled.
-/
theorem item_constructors_iff
    {build : Build} {answers : Nat → Bool} {world : World}
    {given : List Arena.Block} {key value : Buffer}
    {keyBytes valueBytes : Bytes}
    (constructor : Constructor)
    (admitted : Admitted build world given key value keyBytes valueBytes) :
    Outcome (constructor.Denied build answers world key value)
        (Made constructor key value keyBytes valueBytes)
        (constructor.run build answers world key value) ↔
      Passes build.layout (Arena.left world.arena)
        (constructor.requests build answers key value) := by
  cases constructor with
  | copy =>
      exact iff_of_true (outcome_itemCopy admitted) trivial
  | copyKey =>
      exact iff_of_true (outcome_itemCopyKey admitted) trivial
  | copyValue =>
      exact iff_of_true (outcome_itemCopyValue admitted) trivial
  | acopy =>
      exact outcome_itemAcopy admitted
  | acopyKey =>
      exact outcome_itemAcopyKey admitted
  | acopyValue =>
      exact outcome_itemAcopyValue admitted

/-- A build for 64 bits with the default configuration. -/
def defaultBuild : Build where
  debug := false
  space := { limit := 2 ^ 47, small := by norm_num }
  layout := Arena.defaultLayout
  itemSize := 64
  itemSome := by decide
  itemFits := by norm_num
  headerFits := by norm_num [Arena.defaultLayout]

/-- A caller with a name and a value in one block, and an empty arena. -/
def callerWorld : World where
  heap :=
    { blocks := [some (ascii "foobar")]
      answers := []
      fresh := fun _ _ => 0 }
  arena := Arena.init fun _ _ => 0
  hooks := fun _ =>
    { left := none, right := none, parent := none, bal := 0, tree := none }
  items := fun _ =>
    { key := { data := none, size := 0 }
      value := { data := none, size := 0 } }

/-- A part of the block of the caller. -/
def callerBuffer (offset size : Nat) : Buffer where
  data := some (.heap { block := 0, offset := offset })
  size := size

/-- A name of three bytes with any part of the block as value. -/
theorem admitted_caller
    {offset size : Nat} {bytes : Bytes}
    (holds : callerWorld.Holds (callerBuffer offset size) bytes)
    (small : size ≤ 6) :
    Admitted defaultBuild callerWorld [] (callerBuffer 0 3)
      (callerBuffer offset size) (ascii "foo") bytes where
  keyData := rfl
  keySome := by decide
  valueData := Or.inl rfl
  keyHolds := ⟨by decide, by decide⟩
  valueHolds := holds
  keyFits := by norm_num [callerBuffer, defaultBuild]
  valueFits := by
    rw [callerBuffer, defaultBuild]
    dsimp only
    omega
  tidy := Arena.tidy_init _ _
  keyLies := nofun
  valueLies := nofun

theorem item_constructors_iff_caller :
    Admitted defaultBuild callerWorld [] (callerBuffer 0 3)
        (callerBuffer 3 3) (ascii "foo") (ascii "bar") ∧
      (Outcome
          (Constructor.acopy.Denied defaultBuild (fun _ => true) callerWorld
            (callerBuffer 0 3) (callerBuffer 3 3))
          (Made .acopy (callerBuffer 0 3) (callerBuffer 3 3) (ascii "foo")
            (ascii "bar"))
          (Constructor.acopy.run defaultBuild (fun _ => true) callerWorld
            (callerBuffer 0 3) (callerBuffer 3 3)) ↔
        Passes defaultBuild.layout (Arena.left callerWorld.arena)
          (Constructor.acopy.requests defaultBuild (fun _ => true)
            (callerBuffer 0 3) (callerBuffer 3 3))) := by
  have admitted :
      Admitted defaultBuild callerWorld [] (callerBuffer 0 3)
        (callerBuffer 3 3) (ascii "foo") (ascii "bar") :=
    admitted_caller ⟨by decide, by decide⟩ (by decide)
  exact ⟨admitted, item_constructors_iff .acopy admitted⟩

/-- An empty value trips an assertion if the arena is to copy it. -/
theorem item_acopy_empty :
    Admitted defaultBuild callerWorld [] (callerBuffer 0 3)
        (callerBuffer 3 0) (ascii "foo") [] ∧
      ¬ Outcome
          (Constructor.acopy.Denied defaultBuild (fun _ => true) callerWorld
            (callerBuffer 0 3) (callerBuffer 3 0))
          (Made .acopy (callerBuffer 0 3) (callerBuffer 3 0) (ascii "foo")
            [])
          (Constructor.acopy.run defaultBuild (fun _ => true) callerWorld
            (callerBuffer 0 3) (callerBuffer 3 0)) := by
  refine ⟨admitted_caller ⟨by decide, by decide⟩ (by decide), ?_⟩
  rintro ⟨result, after, called, -⟩
  cases called

end Dfk.ItemCopies
