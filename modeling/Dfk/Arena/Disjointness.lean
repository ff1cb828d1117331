import Dfk.Arena.Source

/-!
# Disjoint blocks

The recorded size of a segment is that of its smallest block without the
header, while the header counts as used.  So long as every call finds less
used than that, all blocks are in bounds and disjoint.
-/

namespace Dfk.Arena

/-- A block that has been given out. -/
structure Block where
  place : Pointer
  size : Nat
  deriving Repr, DecidableEq

/-- A block in a segment, behind its header. -/
def Inside (layout : Layout) (arena : State) (block : Block) : Prop :=
  layout.headerSize ≤ block.place.offset ∧
    arena.covers block.place block.size = true

/-- Two blocks with no byte in common. -/
def Disjoint (first second : Block) : Prop :=
  first.place.segment ≠ second.place.segment ∨
    first.place.offset + first.size ≤ second.place.offset ∨
    second.place.offset + second.size ≤ first.place.offset

/-- A block holds the same bytes as before. -/
def SameBytes (arena after : State) (block : Block) : Prop :=
  ∀ index < block.size,
    after.memory block.place.segment (block.place.offset + index) =
      arena.memory block.place.segment (block.place.offset + index)

/--
Every call returns, and a block that it returns is inside a segment and
disjoint from the blocks given out before, which keep their bytes; a call that
returns none changes nothing.
-/
def Sound (layout : Layout) :
    List (Call × Bool) → State → List Block → Prop
  | [], _, _ => True
  | (call, answer) :: calls, arena, given =>
      ∃ result after,
        perform layout arena answer call = .ok (result, after) ∧
          (result = none → after = arena) ∧
          (∀ place ∈ result,
            Inside layout after { place := place, size := call.size } ∧
              ∀ earlier ∈ given,
                Disjoint { place := place, size := call.size } earlier ∧
                  SameBytes arena after earlier) ∧
          Sound layout calls after
            ((result.map fun place =>
                ({ place := place, size := call.size } : Block)).toList ++
              given)

/-- Some of the current segment is left, if there is one. -/
def HasRoom (arena : State) : Prop :=
  ∀ segment ∈ arena.segments.getLast?, segment.used < segment.size

/-- A call that needs a new segment. -/
def Opens (arena : State) (size : Nat) : Prop :=
  ∀ segment ∈ arena.segments.getLast?, segment.size - segment.used < size

/-- The bytes a call takes from a segment. -/
def Call.needed (layout : Layout) : Call → Nat
  | .alloc size => size
  | .allocCopy data => data.length
  | .allocEx size _ => layout.owcSize + size

/--
A call finds some of the current segment left, and what it takes is in the
range of a size together with the header, unless memory is refused.
-/
def Meets (layout : Layout) (arena : State) (call : Call) (answer : Bool) :
    Prop :=
  HasRoom arena ∧
    (layout.headerSize + call.needed layout < 2 ^ 64 ∨
      answer = false ∧ sizeT (call.needed layout) ≠ 0 ∧
        Opens arena (sizeT (call.needed layout)))

/-- What is left of the current segment, if there is one. -/
def left (arena : State) : Option Nat :=
  arena.segments.getLast?.map fun segment => segment.size - segment.used

/-- What is left after a request for bytes. -/
def spend (layout : Layout) (left : Option Nat) (answer : Bool) (size : Nat) :
    Option Nat :=
  if left.any (size ≤ ·) then left.map (· - size)
  else if answer then
    some (layout.segmentSize - 2 * layout.headerSize - size)
  else left

/--
With so much left something is left, and what the call takes is in the range
of a size together with the header, unless memory is refused.
-/
def Call.Fits (layout : Layout) (left : Option Nat) (call : Call)
    (answer : Bool) : Prop :=
  left ≠ some 0 ∧
    (layout.headerSize + call.needed layout < 2 ^ 64 ∨
      answer = false ∧ sizeT (call.needed layout) ≠ 0 ∧
        left.any (sizeT (call.needed layout) ≤ ·) = false)

/-- Every call of a run fits what the calls before it left. -/
def AllFit (layout : Layout) : List (Call × Bool) → Option Nat → Prop
  | [], _ => True
  | (call, answer) :: calls, left =>
      call.Fits layout left answer ∧
        AllFit layout calls
          (spend layout left answer (sizeT (call.needed layout)))

/-!
## What a step can do
-/

/-- Segments and the blocks given out of them. -/
structure Tidy (layout : Layout) (arena : State) (given : List Block) :
    Prop where
  segments :
    ∀ segment ∈ arena.segments,
      segment.size = layout.segmentSize - layout.headerSize ∧
        layout.headerSize ≤ segment.used ∧
        segment.used ≤ segment.mallocSize ∧
        layout.segmentSize ≤ segment.mallocSize ∧
        segment.mallocSize < 2 ^ 64
  given :
    ∀ block ∈ given, ∃ segment,
      arena.segments[block.place.segment]? = some segment ∧
        block.place.offset + block.size ≤ segment.used

/-- An arena in which so many bytes have been taken at a place. -/
structure Taken (layout : Layout) (arena : State) (place : Pointer)
    (size : Nat) (after : State) : Prop where
  owc : after.owc = arena.owc
  memory : after.memory = arena.memory
  behindHeader : layout.headerSize ≤ place.offset
  segment :
    ∃ segment,
      after.segments[place.segment]? = some segment ∧
        place.offset + size = segment.used
  /-- Every segment from before is there, and not used behind the place. -/
  earlier :
    ∀ index segment,
      arena.segments[index]? = some segment →
        ∃ later,
          after.segments[index]? = some later ∧
            segment.used ≤ later.used ∧
            (index = place.segment → segment.used ≤ place.offset)
  tidy : ∀ given, Tidy layout arena given → Tidy layout after given

/-- A segment that is begun. -/
theorem beginSegment_taken
    {layout : Layout} {arena after : State} {answer : Bool} {size : Nat}
    {place : Pointer}
    (fits : layout.headerSize + size < 2 ^ 64)
    (begun :
      beginSegment layout arena answer size = (some place, after)) :
    Taken layout arena place size after := by
  rw [beginSegment] at begun
  cases answer with
  | false =>
      cases begun
  | true =>
      cases begun
      have noWrap : sizeT (layout.headerSize + size) =
          layout.headerSize + size :=
        Nat.mod_eq_of_lt fits
      have noWrapAlloc : sizeT (size + layout.headerSize) =
          layout.headerSize + size := by
        rw [Nat.add_comm, noWrap]
      have bounded := layout.bounded
      refine ⟨rfl, rfl, Nat.le_refl _, ⟨_, List.getElem?_concat_length, ?_⟩,
        ?_, ?_⟩
      · exact noWrap.symm
      · intro index segment isSegment
        have inside : index < arena.segments.length :=
          (List.getElem?_eq_some_iff.mp isSegment).1
        refine ⟨segment, ?_, Nat.le_refl _, fun same => ?_⟩
        · rw [List.getElem?_append_left inside, isSegment]
        · dsimp only at same
          omega
      · intro given tidy
        refine ⟨?_, ?_⟩
        · intro segment member
          rcases List.mem_append.mp member with before | isNew
          · exact tidy.segments segment before
          · rw [List.mem_singleton.mp isNew]
            dsimp only
            rw [noWrap, noWrapAlloc]
            exact ⟨rfl, by omega, by omega, by omega, by omega⟩
        · intro block member
          obtain ⟨segment, isSegment, within⟩ := tidy.given block member
          have inside : block.place.segment < arena.segments.length :=
            (List.getElem?_eq_some_iff.mp isSegment).1
          refine ⟨segment, ?_, within⟩
          rw [List.getElem?_append_left inside, isSegment]

/-- Bytes taken from the current segment. -/
theorem current_taken
    {layout : Layout} {arena : State} {given : List Block}
    {segment : Segment} {front : List Segment} {size : Nat}
    (tidy : Tidy layout arena given)
    (segments : arena.segments = front ++ [segment])
    (available : size ≤ segment.size - segment.used) :
    Taken layout arena
      { segment := arena.segments.length - 1, offset := segment.used } size
      { arena with
        segments :=
          arena.segments.dropLast ++
            [{ segment with used := sizeT (segment.used + size) }] } := by
  obtain ⟨recorded, behind, within, least, bounded⟩ :=
    tidy.segments segment (by simp [segments])
  have position : arena.segments.length - 1 = front.length := by
    simp [segments]
  have noWrap : sizeT (segment.used + size) = segment.used + size :=
    Nat.mod_eq_of_lt (by omega)
  have frontIs : arena.segments.dropLast = front := by
    simp [segments]
  rw [position, frontIs, noWrap]
  have later (index : Nat) (before : Segment)
      (isBefore : arena.segments[index]? = some before) :
      ∃ later,
        (front ++
            [{ segment with used := segment.used + size }])[index]? =
          some later ∧
          before.used ≤ later.used ∧
          (index = front.length → before = segment) := by
    rw [segments] at isBefore
    have inside : index < front.length + 1 := by
      simpa using (List.getElem?_eq_some_iff.mp isBefore).1
    by_cases inFront : index < front.length
    · rw [List.getElem?_append_left inFront] at isBefore ⊢
      exact ⟨before, isBefore, Nat.le_refl _, fun same => by omega⟩
    · have last : index = front.length := by
        omega
      subst last
      rw [List.getElem?_concat_length] at isBefore ⊢
      cases isBefore
      exact ⟨_, rfl, Nat.le_add_right _ _, fun _ => rfl⟩
  refine ⟨rfl, rfl, behind, ⟨_, List.getElem?_concat_length, rfl⟩, ?_, ?_⟩
  · intro index before isBefore
    obtain ⟨after, isAfter, grows, whenLast⟩ := later index before isBefore
    refine ⟨after, isAfter, grows, fun same => ?_⟩
    rw [whenLast same]
  · intro others otherTidy
    refine ⟨?_, ?_⟩
    · intro other member
      rcases List.mem_append.mp member with before | isLast
      · exact otherTidy.segments other (by simp [segments, before])
      · rw [List.mem_singleton.mp isLast]
        exact ⟨recorded, by dsimp only; omega, by dsimp only; omega, least,
          bounded⟩
    · intro block member
      obtain ⟨before, isBefore, ends⟩ := otherTidy.given block member
      obtain ⟨after, isAfter, grows, -⟩ := later _ before isBefore
      exact ⟨after, isAfter, Nat.le_trans ends grows⟩

/-- What `dfk_arena_alloc` does when it finds some of the segment left. -/
theorem alloc_of_room
    {layout : Layout} {arena : State} {given : List Block} {size : Nat}
    (answer : Bool)
    (tidy : Tidy layout arena given)
    (room : HasRoom arena)
    (positive : size ≠ 0) :
    Opens arena size ∧
        alloc layout arena answer size =
          .ok (beginSegment layout arena answer size) ∨
      ¬ Opens arena size ∧
        ∃ place after,
          alloc layout arena answer size = .ok (some place, after) ∧
            Taken layout arena place size after := by
  rw [alloc, check_pos positive, ok_bind]
  cases current : arena.segments.getLast? with
  | none =>
      refine Or.inl ⟨?_, rfl⟩
      intro segment isCurrent
      rw [current] at isCurrent
      cases isCurrent
  | some segment =>
      obtain ⟨front, segments⟩ := List.getLast?_eq_some_iff.mp current
      have left := room segment current
      obtain ⟨recorded, behind, within, least, bounded⟩ :=
        tidy.segments segment (by simp [segments])
      have noWrap :
          sizeT (2 ^ 64 + segment.size - segment.used) =
            segment.size - segment.used := by
        rw [sizeT]
        omega
      dsimp only
      rw [bytesAvailable, check_pos left, ok_bind, noWrap, pure_eq_ok,
        ok_bind]
      by_cases short : segment.size - segment.used < size
      · rw [if_pos short]
        refine Or.inl ⟨?_, rfl⟩
        intro other isCurrent
        rw [current] at isCurrent
        cases isCurrent
        exact short
      · rw [if_neg short]
        refine Or.inr ⟨fun opens => ?_, _, _, rfl,
          current_taken tidy segments (Nat.not_lt.mp short)⟩
        exact short (opens segment current)

/-- Without any of the segment left the assertion fails. -/
theorem alloc_of_no_room
    {layout : Layout} {arena : State} {size : Nat} {answer : Bool}
    {ended : Option Pointer × State}
    (full : ¬ HasRoom arena) :
    alloc layout arena answer size ≠ .ok ended := by
  intro allocated
  obtain ⟨-, -, allocated⟩ := of_bind allocated
  apply full
  intro segment isCurrent
  rw [Option.mem_def] at isCurrent
  rw [isCurrent] at allocated
  obtain ⟨available, checked, -⟩ := of_bind allocated
  obtain ⟨_, checked, -⟩ := of_bind checked
  exact of_check checked

/-!
## Calls
-/

section Calls

variable {layout : Layout} {arena after : State} {given : List Block}
variable {place : Pointer} {taken : Nat}

/-- The bytes of a block do not matter to where blocks stand. -/
theorem Tidy.of_segments
    (tidy : Tidy layout arena given)
    (same : after.segments = arena.segments) :
    Tidy layout after given where
  segments := by
    rw [same]
    exact tidy.segments
  given := by
    rw [same]
    exact tidy.given

/-- A block among the bytes taken is new. -/
theorem Taken.block
    (isTaken : Taken layout arena place taken after)
    (tidy : Tidy layout arena given)
    {offset size : Nat}
    (begins : place.offset ≤ offset)
    (ends : offset + size ≤ place.offset + taken) :
    Inside layout after ⟨⟨place.segment, offset⟩, size⟩ ∧
      (∀ earlier ∈ given,
        Disjoint ⟨⟨place.segment, offset⟩, size⟩ earlier) ∧
      Tidy layout after (⟨⟨place.segment, offset⟩, size⟩ :: given) := by
  obtain ⟨segment, isSegment, used⟩ := isTaken.segment
  have afterTidy := isTaken.tidy given tidy
  obtain ⟨-, -, within, -, -⟩ :=
    afterTidy.segments segment (List.mem_of_getElem? isSegment)
  refine ⟨⟨Nat.le_trans isTaken.behindHeader begins, ?_⟩, ?_, ?_⟩
  · simp only [State.covers, isSegment, decide_eq_true_eq]
    omega
  · intro earlier member
    obtain ⟨before, isBefore, beforeEnds⟩ := tidy.given earlier member
    obtain ⟨-, -, -, behind⟩ := isTaken.earlier _ before isBefore
    by_cases same : earlier.place.segment = place.segment
    · right
      right
      have ordered := behind same
      dsimp only
      omega
    · exact Or.inl (Ne.symm same)
  · refine ⟨afterTidy.segments, fun block member => ?_⟩
    rcases List.mem_cons.mp member with rfl | before
    · exact ⟨segment, isSegment, by dsimp only; omega⟩
    · exact afterTidy.given block before

/-- What a call that meets the condition leads to. -/
structure Good (layout : Layout) (arena : State) (given : List Block)
    (size : Nat) (result : Option Pointer) (after : State) : Prop where
  refused : result = none → after = arena
  block :
    ∀ place ∈ result,
      Inside layout after { place := place, size := size } ∧
        ∀ earlier ∈ given,
          Disjoint { place := place, size := size } earlier ∧
            SameBytes arena after earlier
  tidy :
    Tidy layout after
      ((result.map fun place =>
          ({ place := place, size := size } : Block)).toList ++ given)

/-- A refused call changes nothing. -/
theorem good_none
    (tidy : Tidy layout arena given) (size : Nat) :
    Good layout arena given size none arena where
  refused := fun _ => rfl
  block := nofun
  tidy := tidy

/-- A call that only takes bytes gives a new block among them. -/
theorem Taken.good
    (isTaken : Taken layout arena place taken after)
    (tidy : Tidy layout arena given)
    {last : State} {offset size : Nat}
    (begins : place.offset ≤ offset)
    (ends : offset + size ≤ place.offset + taken)
    (sameSegments : last.segments = after.segments)
    (sameBytes :
      ∀ earlier : Block,
        Disjoint ⟨⟨place.segment, offset⟩, size⟩ earlier →
          SameBytes after last earlier) :
    Good layout arena given size (some ⟨place.segment, offset⟩) last := by
  obtain ⟨inside, disjoint, afterTidy⟩ := isTaken.block tidy begins ends
  refine ⟨nofun, ?_, ?_⟩
  · intro result isResult
    cases isResult
    refine ⟨⟨inside.1, ?_⟩, fun earlier member => ?_⟩
    · rw [← inside.2, State.covers, State.covers, sameSegments]
    · have apart := disjoint earlier member
      refine ⟨apart, ?_⟩
      have same := sameBytes earlier apart
      rw [SameBytes, isTaken.memory] at same
      exact same
  · exact afterTidy.of_segments sameSegments

/-- Copying into a block changes no block that is disjoint from it. -/
theorem copy_sameBytes
    {last : State} {data : Bytes} {earlier : Block}
    (copied : copy after place data = .ok last)
    (apart : Disjoint ⟨place, data.length⟩ earlier) :
    SameBytes after last earlier := by
  rw [copy] at copied
  split at copied
  · cases copied
    intro index within
    dsimp only
    rw [if_neg]
    rintro ⟨sameSegment, atLeast, below⟩
    rcases apart with other | before | behind
    · exact other sameSegment.symm
    · dsimp only at before
      omega
    · dsimp only at behind
      omega
  · cases copied

/-- Copying changes no segment. -/
theorem copy_segments
    {last : State} {data : Bytes}
    (copied : copy after place data = .ok last) :
    last.segments = after.segments := by
  rw [copy] at copied
  split at copied
  · cases copied
    rfl
  · cases copied

/-- `dfk_arena_alloc` of a size in range is refused, or takes bytes. -/
theorem alloc_of_fits
    {size : Nat} (answer : Bool)
    (tidy : Tidy layout arena given)
    (room : HasRoom arena)
    (positive : size ≠ 0)
    (fits : layout.headerSize + size < 2 ^ 64) :
    alloc layout arena answer size = .ok (none, arena) ∨
      ∃ place after,
        alloc layout arena answer size = .ok (some place, after) ∧
          Taken layout arena place size after := by
  rcases alloc_of_room answer tidy room positive with
    ⟨opens, begun⟩ | ⟨-, place, after, allocated, isTaken⟩
  · rw [begun]
    cases answer with
    | false =>
        exact Or.inl rfl
    | true =>
        exact Or.inr ⟨_, _, rfl, beginSegment_taken fits
          (rfl : beginSegment layout arena true size = _)⟩
  · exact Or.inr ⟨place, after, allocated, isTaken⟩

/-- Without memory no segment is begun. -/
theorem alloc_of_refused
    {size : Nat}
    (tidy : Tidy layout arena given)
    (room : HasRoom arena)
    (positive : size ≠ 0)
    (opens : Opens arena size) :
    alloc layout arena false size = .ok (none, arena) := by
  rcases alloc_of_room false tidy room positive with
    ⟨-, begun⟩ | ⟨notOpens, -⟩
  · exact begun
  · exact absurd opens notOpens

/-- `dfk_arena_alloc` for a call that meets the condition. -/
theorem alloc_of_meets
    {call : Call} {answer : Bool}
    (tidy : Tidy layout arena given)
    (positive : 0 < call.size)
    (meets : Meets layout arena call answer) :
    alloc layout arena answer (sizeT (call.needed layout)) =
        .ok (none, arena) ∨
      ∃ place after,
        alloc layout arena answer (sizeT (call.needed layout)) =
            .ok (some place, after) ∧
          Taken layout arena place (call.needed layout) after := by
  have some : call.needed layout ≠ 0 := by
    cases call with
    | alloc size =>
        exact Nat.pos_iff_ne_zero.mp positive
    | allocCopy data =>
        exact Nat.pos_iff_ne_zero.mp positive
    | allocEx size cleanup =>
        exact Nat.pos_iff_ne_zero.mp (Nat.add_pos_right _ positive)
  obtain ⟨room, fits | ⟨rfl, nonzero, opens⟩⟩ := meets
  · have noWrap : sizeT (call.needed layout) = call.needed layout :=
      Nat.mod_eq_of_lt (Nat.lt_of_le_of_lt (Nat.le_add_left _ _) fits)
    rw [noWrap]
    exact alloc_of_fits answer tidy room some fits
  · exact Or.inl (alloc_of_refused tidy room nonzero opens)

/-- A call that meets the condition is good. -/
theorem perform_of_meets
    {call : Call} {answer : Bool}
    (tidy : Tidy layout arena given)
    (positive : 0 < call.size)
    (ranged : call.size < 2 ^ 64)
    (meets : Meets layout arena call answer) :
    ∃ result after,
      perform layout arena answer call = .ok (result, after) ∧
        Good layout arena given call.size result after := by
  have noWrap : sizeT call.size = call.size := Nat.mod_eq_of_lt ranged
  have allocates := alloc_of_meets tidy positive meets
  cases call with
  | alloc size =>
      change sizeT size = size at noWrap
      rw [Call.needed, noWrap] at allocates
      rcases allocates with refused | ⟨place, after, allocated, isTaken⟩
      · exact ⟨none, arena, refused, good_none tidy _⟩
      · exact ⟨_, after, allocated,
          isTaken.good tidy (Nat.le_refl _) (Nat.le_refl _) rfl
            fun _ _ _ _ => rfl⟩
  | allocCopy data =>
      change sizeT data.length = data.length at noWrap
      rw [Call.needed, noWrap] at allocates
      have nonempty : data ≠ [] := List.length_pos_iff.mp positive
      rw [perform, allocCopy, check_pos nonempty, ok_bind]
      rcases allocates with refused | ⟨place, after, allocated, isTaken⟩
      · rw [refused]
        exact ⟨none, arena, rfl, good_none tidy _⟩
      · obtain ⟨inside, -, -⟩ :=
          isTaken.block tidy (Nat.le_refl _) (Nat.le_refl _)
        have covers : after.covers place data.length = true := inside.2
        have copied : ∃ last, copy after place data = .ok last := by
          rw [copy, if_pos covers]
          exact ⟨_, rfl⟩
        obtain ⟨last, copied⟩ := copied
        refine ⟨_, last, ?_,
          isTaken.good tidy (Nat.le_refl _) (Nat.le_refl _)
            (copy_segments copied) fun earlier apart =>
              copy_sameBytes copied apart⟩
        rw [allocated, ok_bind]
        dsimp only
        rw [copied]
        rfl
  | allocEx size cleanup =>
      change 0 < size at positive
      rw [Call.needed] at allocates
      rw [perform, allocEx, check_pos (Nat.pos_iff_ne_zero.mp positive),
        ok_bind]
      rcases allocates with refused | ⟨place, after, allocated, isTaken⟩
      · rw [refused]
        exact ⟨none, arena, rfl, good_none tidy _⟩
      · obtain ⟨inside, -, -⟩ :=
          @Taken.block layout arena after given place _ isTaken tidy
            place.offset layout.owcSize (Nat.le_refl _)
            (Nat.add_le_add_left (Nat.le_add_right _ _) _)
        have covers : after.covers place layout.owcSize = true := inside.2
        rw [allocated, ok_bind]
        dsimp only
        rw [if_pos covers]
        exact ⟨_, _, rfl,
          isTaken.good tidy (Nat.le_add_right _ _)
            (Nat.le_of_eq (Nat.add_assoc _ _ _)) rfl
            fun _ _ _ _ => rfl⟩

/-- A place that is returned is behind a header, in a block with a size. -/
theorem alloc_bounds
    {answer : Bool} {size : Nat}
    (tidy : Tidy layout arena given)
    (allocated :
      alloc layout arena answer size = .ok (some place, after)) :
    layout.headerSize ≤ place.offset ∧
      ∀ segment ∈ after.segments, segment.mallocSize < 2 ^ 64 := by
  have bounded := layout.bounded
  have begun
      (begins :
        beginSegment layout arena answer size = (some place, after)) :
      layout.headerSize ≤ place.offset ∧
        ∀ segment ∈ after.segments, segment.mallocSize < 2 ^ 64 := by
    rw [beginSegment] at begins
    cases answer with
    | false =>
        cases begins
    | true =>
        cases begins
        refine ⟨Nat.le_refl _, fun segment member => ?_⟩
        rcases List.mem_append.mp member with before | isNew
        · exact (tidy.segments segment before).2.2.2.2
        · rw [List.mem_singleton.mp isNew]
          have small : sizeT (size + layout.headerSize) < 2 ^ 64 :=
            Nat.mod_lt _ (by decide)
          dsimp only
          omega
  obtain ⟨_, -, allocated⟩ := of_bind allocated
  split at allocated
  · exact begun (Except.ok.inj allocated)
  · next segment current =>
      obtain ⟨front, segments⟩ := List.getLast?_eq_some_iff.mp current
      obtain ⟨available, -, allocated⟩ := of_bind allocated
      split at allocated
      · exact begun (Except.ok.inj allocated)
      · cases allocated
        have facts := tidy.segments segment (by simp [segments])
        refine ⟨facts.2.1, fun other member => ?_⟩
        rcases List.mem_append.mp member with before | isLast
        · exact (tidy.segments other
            ((List.dropLast_sublist _).subset before)).2.2.2.2
        · rw [List.mem_singleton.mp isLast]
          exact facts.2.2.2.2

/-- A block that a segment covers ends in the range of a size. -/
theorem end_bounded_of_covers
    {block : Block}
    (bounded : ∀ segment ∈ after.segments, segment.mallocSize < 2 ^ 64)
    (covers : after.covers block.place block.size = true) :
    block.place.offset + block.size < 2 ^ 64 := by
  rw [State.covers] at covers
  split at covers
  · next segment isSegment =>
      have small := bounded segment (List.mem_of_getElem? isSegment)
      have within := of_decide_eq_true covers
      exact Nat.lt_of_le_of_lt within small
  · cases covers

/-- `dfk_arena_alloc` returns only if the condition is met. -/
theorem meets_of_alloc
    {call : Call} {answer : Bool} {result : Option Pointer}
    (tidy : Tidy layout arena given)
    (allocated :
      alloc layout arena answer (sizeT (call.needed layout)) =
        .ok (result, after))
    (fits :
      ∀ place ∈ result, layout.headerSize + call.needed layout < 2 ^ 64) :
    Meets layout arena call answer := by
  have room : HasRoom arena := by
    by_contra full
    exact alloc_of_no_room full allocated
  refine ⟨room, ?_⟩
  cases result with
  | some place =>
      exact Or.inl (fits place rfl)
  | none =>
      have positive : sizeT (call.needed layout) ≠ 0 := by
        obtain ⟨_, checked, -⟩ := of_bind allocated
        exact of_check checked
      rcases alloc_of_room answer tidy room positive with
        ⟨opens, begun⟩ | ⟨-, _, _, taken, -⟩
      · rw [begun] at allocated
        cases answer with
        | false =>
            exact Or.inr ⟨rfl, positive, opens⟩
        | true =>
            cases allocated
      · rw [taken] at allocated
        cases allocated

/-- A call whose block is inside a segment met the condition. -/
theorem meets_of_inside
    {call : Call} {answer : Bool} {result : Option Pointer}
    (tidy : Tidy layout arena given)
    (ranged : call.size < 2 ^ 64)
    (performed : perform layout arena answer call = .ok (result, after))
    (inside :
      ∀ place ∈ result,
        Inside layout after { place := place, size := call.size }) :
    Meets layout arena call answer := by
  cases call with
  | alloc size =>
      have noWrap : sizeT size = size := Nat.mod_eq_of_lt ranged
      refine @meets_of_alloc layout arena after given (.alloc size) answer
        result tidy ?_ fun place isResult => ?_
      · rw [Call.needed, noWrap]
        exact performed
      · cases isResult
        obtain ⟨behind, bounded⟩ := alloc_bounds tidy performed
        have small := end_bounded_of_covers bounded (inside place rfl).2
        exact Nat.lt_of_le_of_lt (Nat.add_le_add_right behind _) small
  | allocCopy data =>
      have noWrap : sizeT data.length = data.length :=
        Nat.mod_eq_of_lt ranged
      obtain ⟨_, -, performed⟩ := of_bind performed
      obtain ⟨⟨found, between⟩, allocated, performed⟩ := of_bind performed
      refine @meets_of_alloc layout arena between given (.allocCopy data)
        answer found tidy ?_ fun place isFound => ?_
      · rw [Call.needed, noWrap]
        exact allocated
      · cases isFound
        obtain ⟨last, copied, performed⟩ := of_bind performed
        cases performed
        obtain ⟨behind, bounded⟩ := alloc_bounds tidy allocated
        rw [← copy_segments copied] at bounded
        have small := end_bounded_of_covers bounded (inside place rfl).2
        exact Nat.lt_of_le_of_lt (Nat.add_le_add_right behind _) small
  | allocEx size cleanup =>
      obtain ⟨_, -, performed⟩ := of_bind performed
      obtain ⟨⟨found, between⟩, allocated, performed⟩ := of_bind performed
      refine @meets_of_alloc layout arena between given
        (.allocEx size cleanup) answer found tidy allocated
        fun place isFound => ?_
      cases isFound
      dsimp only at performed
      split at performed
      · cases performed
        obtain ⟨behind, bounded⟩ := alloc_bounds tidy allocated
        have small :
            place.offset + layout.owcSize + size < 2 ^ 64 :=
          end_bounded_of_covers bounded (inside _ rfl).2
        calc
          layout.headerSize + (layout.owcSize + size)
              ≤ place.offset + (layout.owcSize + size) :=
            Nat.add_le_add_right behind _
          _ = place.offset + layout.owcSize + size :=
            (Nat.add_assoc _ _ _).symm
          _ < 2 ^ 64 := small
      · cases performed

/-!
## What is left
-/

theorem any_left_iff
    {size : Nat} :
    (left arena).any (size ≤ ·) = false ↔ Opens arena size := by
  rw [left, Opens]
  cases arena.segments.getLast? with
  | none =>
      simp
  | some segment =>
      simp

theorem hasRoom_iff :
    HasRoom arena ↔ left arena ≠ some 0 := by
  rw [left, HasRoom]
  cases arena.segments.getLast? with
  | none =>
      simp
  | some segment =>
      simp only [Option.mem_def, Option.some.injEq, Option.map_some, ne_eq,
        forall_eq']
      omega

/-- The condition on a call is about what is left. -/
theorem fits_iff_meets
    {call : Call} {answer : Bool} :
    call.Fits layout (left arena) answer ↔ Meets layout arena call answer := by
  rw [Call.Fits, Meets, hasRoom_iff, any_left_iff]

/-- What is left when a segment is begun. -/
theorem left_beginSegment
    {answer : Bool} {size : Nat} {result : Option Pointer}
    (fits : layout.headerSize + size < 2 ^ 64 ∨ answer = false)
    (opens : Opens arena size)
    (begun : beginSegment layout arena answer size = (result, after)) :
    left after = spend layout (left arena) answer size := by
  rw [spend, any_left_iff.mpr opens]
  cases answer with
  | false =>
      cases begun
      rfl
  | true =>
      cases begun
      have noWrap : sizeT (layout.headerSize + size) =
          layout.headerSize + size :=
        Nat.mod_eq_of_lt (fits.resolve_right nofun)
      rw [left, List.getLast?_concat, Option.map_some, noWrap]
      dsimp only
      rw [if_neg Bool.false_ne_true, if_pos rfl]
      apply congrArg some
      omega

/-- What is left when bytes are taken from the current segment. -/
theorem left_alloc
    {answer : Bool} {size : Nat} {result : Option Pointer}
    (tidy : Tidy layout arena given)
    (fits :
      layout.headerSize + size < 2 ^ 64 ∨
        answer = false ∧ Opens arena size)
    (allocated :
      alloc layout arena answer size = .ok (result, after)) :
    left after = spend layout (left arena) answer size := by
  have room : HasRoom arena := by
    by_contra full
    exact alloc_of_no_room full allocated
  have positive : size ≠ 0 := by
    obtain ⟨_, checked, -⟩ := of_bind allocated
    exact of_check checked
  rcases alloc_of_room answer tidy room positive with
    ⟨opens, begun⟩ | ⟨notOpens, -⟩
  · rw [begun] at allocated
    exact left_beginSegment (fits.imp_right And.left) opens
      (Except.ok.inj allocated)
  · have taken : (left arena).any (size ≤ ·) = true := by
      rw [← Bool.not_eq_false]
      exact fun short => notOpens (any_left_iff.mp short)
    rw [spend, if_pos taken]
    rw [Opens] at notOpens
    rw [alloc, check_pos positive, ok_bind] at allocated
    cases current : arena.segments.getLast? with
    | none =>
        rw [current] at notOpens
        exact absurd nofun notOpens
    | some segment =>
        obtain ⟨front, segments⟩ := List.getLast?_eq_some_iff.mp current
        obtain ⟨-, -, within, -, bounded⟩ :=
          tidy.segments segment (by simp [segments])
        have enough : ¬ segment.size - segment.used < size := by
          intro short
          apply notOpens
          intro other isCurrent
          rw [current] at isCurrent
          cases isCurrent
          exact short
        have noWrap : sizeT (segment.used + size) = segment.used + size := by
          apply Nat.mod_eq_of_lt
          have recorded := (tidy.segments segment (by simp [segments])).1
          have segmentBounded := layout.bounded
          have some := room segment current
          omega
        rw [current] at allocated
        obtain ⟨available, isAvailable, allocated⟩ := of_bind allocated
        split at allocated
        · next short =>
            obtain ⟨_, checked, isAvailable⟩ := of_bind isAvailable
            cases isAvailable
            have some := of_check checked
            have recorded := (tidy.segments segment (by simp [segments])).1
            have segmentBounded := layout.bounded
            rw [sizeT] at short
            omega
        · cases allocated
          rw [left, left, List.getLast?_concat, current, Option.map_some,
            Option.map_some, Option.map_some, noWrap, Nat.sub_sub]

/-- What is left after a call. -/
theorem left_perform
    {call : Call} {answer : Bool} {result : Option Pointer}
    (tidy : Tidy layout arena given)
    (ranged : call.size < 2 ^ 64)
    (meets : Meets layout arena call answer)
    (performed : perform layout arena answer call = .ok (result, after)) :
    left after =
      spend layout (left arena) answer (sizeT (call.needed layout)) := by
  have fits :
      layout.headerSize + sizeT (call.needed layout) < 2 ^ 64 ∨
        answer = false ∧ Opens arena (sizeT (call.needed layout)) := by
    rcases meets.2 with fits | ⟨refused, -, opens⟩
    · exact Or.inl
        (Nat.lt_of_le_of_lt
          (Nat.add_le_add_left (Nat.mod_le _ _) _) fits)
    · exact Or.inr ⟨refused, opens⟩
  cases call with
  | alloc size =>
      have noWrap : sizeT size = size := Nat.mod_eq_of_lt ranged
      rw [Call.needed, noWrap] at fits ⊢
      exact left_alloc tidy fits performed
  | allocCopy data =>
      have noWrap : sizeT data.length = data.length :=
        Nat.mod_eq_of_lt ranged
      rw [Call.needed, noWrap] at fits ⊢
      obtain ⟨_, -, performed⟩ := of_bind performed
      obtain ⟨⟨found, between⟩, allocated, performed⟩ := of_bind performed
      rw [← left_alloc tidy fits allocated]
      cases found with
      | none =>
          cases performed
          rfl
      | some place =>
          obtain ⟨last, copied, performed⟩ := of_bind performed
          cases performed
          rw [left, left, copy_segments copied]
  | allocEx size cleanup =>
      obtain ⟨_, -, performed⟩ := of_bind performed
      obtain ⟨⟨found, between⟩, allocated, performed⟩ := of_bind performed
      rw [← left_alloc tidy fits allocated]
      cases found with
      | none =>
          cases performed
          rfl
      | some place =>
          dsimp only at performed
          split at performed
          · cases performed
            rfl
          · cases performed

end Calls

/-- Runs are sound exactly if every call fits. -/
theorem sound_iff_allFit
    {layout : Layout} (calls : List (Call × Bool)) :
    ∀ {arena : State} {given : List Block},
      Tidy layout arena given →
        (∀ made ∈ calls, 0 < made.1.size ∧ made.1.size < 2 ^ 64) →
          (Sound layout calls arena given ↔
            AllFit layout calls (left arena)) := by
  induction calls with
  | nil =>
      intro arena given _ _
      exact Iff.rfl
  | cons made calls inductionHypothesis =>
      intro arena given tidy ranged
      rcases made with ⟨call, answer⟩
      obtain ⟨positive, bounded⟩ := ranged _ (List.mem_cons_self ..)
      have rangedRest :
          ∀ made ∈ calls, 0 < made.1.size ∧ made.1.size < 2 ^ 64 :=
        fun made member => ranged made (List.mem_cons_of_mem _ member)
      constructor
      · rintro ⟨result, after, performed, -, blocks, rest⟩
        have meets : Meets layout arena call answer :=
          meets_of_inside tidy bounded performed fun place member =>
            (blocks place member).1
        obtain ⟨goodResult, goodAfter, goodPerformed, good⟩ :=
          perform_of_meets tidy positive bounded meets
        rw [performed] at goodPerformed
        cases goodPerformed
        refine ⟨fits_iff_meets.mpr meets, ?_⟩
        rw [← left_perform tidy bounded meets performed]
        exact (inductionHypothesis good.tidy rangedRest).mp rest
      · rintro ⟨fits, rest⟩
        have meets : Meets layout arena call answer :=
          fits_iff_meets.mp fits
        obtain ⟨result, after, performed, good⟩ :=
          perform_of_meets tidy positive bounded meets
        rw [← left_perform tidy bounded meets performed] at rest
        exact ⟨result, after, performed, good.refused, good.block,
          (inductionHypothesis good.tidy rangedRest).mpr rest⟩

/-- An empty arena is tidy. -/
theorem tidy_init
    (layout : Layout) (memory : Nat → Nat → UInt8) :
    Tidy layout (init memory) [] where
  segments := nofun
  given := nofun

/--
The calls on an arena give blocks that are in bounds and disjoint exactly if
none of them finds the current segment filled, and each takes what is in the
range of a size together with the header.
-/
theorem arena_sound_iff
    {layout : Layout} {memory : Nat → Nat → UInt8}
    {calls : List (Call × Bool)}
    (ranged : ∀ made ∈ calls, 0 < made.1.size ∧ made.1.size < 2 ^ 64) :
    Sound layout calls (init memory) [] ↔ AllFit layout calls none :=
  sound_iff_allFit calls (tidy_init layout memory) ranged

/-- The sizes of a build for 64 bits with the default configuration. -/
def defaultLayout : Layout where
  segmentSize := 40960
  headerSize := 32
  owcSize := 24
  headerFits := by decide
  bounded := by decide

/-- Calls of which the last one begins a second segment. -/
def ordinaryCalls : List (Call × Bool) :=
  [(.alloc 8, true), (.allocEx 100 0, true), (.alloc 40800, true)]

theorem arena_sound_iff_ordinary :
    (∀ made ∈ ordinaryCalls, 0 < made.1.size ∧ made.1.size < 2 ^ 64) ∧
      (Sound defaultLayout ordinaryCalls (init fun _ _ => 0) [] ↔
        AllFit defaultLayout ordinaryCalls none) := by
  have ranged :
      ∀ made ∈ ordinaryCalls, 0 < made.1.size ∧ made.1.size < 2 ^ 64 := by
    decide
  exact ⟨ranged, arena_sound_iff ranged⟩

/-- An object that is larger than a segment, and one more byte. -/
def largeCalls : List (Call × Bool) :=
  [(.alloc 122880, true), (.alloc 1, true)]

/-- After a large object the assertion on the current segment fails. -/
theorem arena_unsound :
    (∀ made ∈ largeCalls, 0 < made.1.size ∧ made.1.size < 2 ^ 64) ∧
      ¬ Sound defaultLayout largeCalls (init fun _ _ => 0) [] := by
  have ranged :
      ∀ made ∈ largeCalls, 0 < made.1.size ∧ made.1.size < 2 ^ 64 := by
    decide
  refine ⟨ranged, fun sound => ?_⟩
  have fits :=
    (sound_iff_allFit largeCalls (tidy_init defaultLayout _) ranged).mp sound
  exact fits.2.1.1 rfl

end Dfk.Arena
