import Dfk.Arena.Linked

/-!
# Release of an arena

The lists of an arena hold its segments and its records, in the order in which
they were begun and registered, so that `dfk_arena_free` calls the cleanups in
that order and then frees every segment.
-/

namespace Dfk.Arena

open LinkedList (Represents Sequences)
open Linked (Event Request)

/-! ## Hooks -/

/-- The hooks on the lists of an arena. -/
def hooksOf (state : State) : Sequences Hook ListName
  | .segments => (List.range state.segments.length).map Hook.segment
  | .owc => state.owc.map fun owc => Hook.owc owc.place

/-- An arena on its lists shows what is in it. -/
structure Shows (arena : Linked) (state : State) : Prop where
  lists : Represents arena.lists (hooksOf state)
  blocks : arena.blocks = state.segments.map some
  cleanups : ∀ owc ∈ state.owc, arena.cleanups owc.place = owc.cleanup

/-- Loops through the lists of an arena end, also with some hooks more. -/
def Room (fuel spare : Nat) (state : State) : Prop :=
  ∀ list, (hooksOf state list).length + spare < fuel

theorem Room.less
    {fuel spare : Nat} {state : State}
    (room : Room fuel (spare + 1) state) :
    Room fuel spare state :=
  fun list => Nat.lt_of_succ_lt (room list)

/-- A hook that is in no list may be set. -/
theorem represents_hookInit
    {lists : LinkedList.Memory Hook ListName}
    {sequences : Sequences Hook ListName} {hook : Hook}
    (represents : Represents lists sequences)
    (isNew : ∀ list, hook ∉ sequences list) :
    Represents (hookInit lists hook) sequences where
  holds := by
    intro list
    refine LinkedList.Holds.congr (represents.holds list) rfl ?_
    intro other member
    have apart : other ≠ hook := by
      rintro rfl
      exact isNew list member
    exact ⟨congrArg LinkedList.Hook.next (if_neg apart),
      congrArg LinkedList.Hook.prev (if_neg apart)⟩
  apart := represents.apart

/-- A hook that is in no list is set and appended. -/
theorem append_hookInit
    {lists : LinkedList.Memory Hook ListName}
    {sequences : Sequences Hook ListName} {hook : Hook} {fuel : Nat}
    (represents : Represents lists sequences)
    (room : ∀ list, (sequences list).length + 1 < fuel)
    (isNew : ∀ list, hook ∉ sequences list)
    (list : ListName) :
    ∃ written,
      LinkedList.append fuel (hookInit lists hook) list hook = .ok written ∧
        Represents written
          (Function.update sequences list (sequences list ++ [hook])) :=
  (represents_hookInit represents isNew).append room isNew

/-- A segment that is begun has the next hook. -/
theorem hooksOf_begin
    (state : State) (segment : Segment) :
    Function.update (hooksOf state) .segments
        (hooksOf state .segments ++ [.segment state.segments.length]) =
      hooksOf { state with segments := state.segments ++ [segment] } := by
  funext list
  cases list with
  | segments =>
      rw [Function.update_self, hooksOf, hooksOf, List.length_append,
        List.length_singleton, List.range_succ, List.map_append]
      rfl
  | owc =>
      rw [Function.update_of_ne (by decide), hooksOf, hooksOf]

/-- A record that is registered has its own hook. -/
theorem hooksOf_register
    (state : State) (owc : Pointer) (cleanup : Nat) :
    Function.update (hooksOf state) .owc
        (hooksOf state .owc ++ [.owc owc]) =
      hooksOf
        { state with
          owc := state.owc ++ [{ place := owc, cleanup := cleanup }] } := by
  funext list
  cases list with
  | segments =>
      rw [Function.update_of_ne (by decide), hooksOf, hooksOf]
  | owc =>
      rw [Function.update_self, hooksOf, hooksOf, List.map_append]
      rfl

/-- The hooks only depend on how many segments there are. -/
theorem hooksOf_segments
    {state : State} {segments : List Segment}
    (count : segments.length = state.segments.length) :
    hooksOf { state with segments := segments } = hooksOf state := by
  funext list
  cases list with
  | segments =>
      rw [hooksOf, hooksOf, count]
  | owc =>
      rw [hooksOf, hooksOf]

/-! ## Allocation on the lists -/

section Calls

variable {layout : Layout} {fuel : Nat} {arena : Linked}
variable {state after : State} {answer : Bool} {result : Option Pointer}

/-- A segment that is there is the block of its number. -/
theorem Shows.segment
    (shows : Shows arena state)
    {index : Nat} {segment : Segment}
    (isSegment : state.segments[index]? = some segment) :
    arena.segment index = .ok segment := by
  rw [Linked.segment, shows.blocks, List.getElem?_map, isSegment]
  rfl

/-- Bytes are covered on the lists where they are in the arena. -/
theorem Shows.covers
    (shows : Shows arena state) (place : Pointer) (size : Nat) :
    arena.covers place size = state.covers place size := by
  rw [Linked.covers, State.covers, shows.blocks, List.getElem?_map]
  cases state.segments[place.segment]? with
  | none =>
      rfl
  | some segment =>
      rfl

/-- The last segment is the current one. -/
theorem Shows.currentSegment
    (shows : Shows arena state)
    (room : Room fuel 1 state)
    {segment : Segment}
    (current : state.segments.getLast? = some segment) :
    arena.currentSegment fuel = .ok (state.segments.length - 1) ∧
      arena.segment (state.segments.length - 1) = .ok segment := by
  have agrees :=
    shows.lists.agrees (fun list => Nat.lt_of_succ_lt (room list)) .segments
  have isLast :
      (hooksOf state .segments).getLast? =
        some (.segment (state.segments.length - 1)) := by
    obtain ⟨front, segments⟩ := List.getLast?_eq_some_iff.mp current
    rw [hooksOf, segments, List.length_append, List.length_singleton,
      List.range_succ, List.map_append, List.map_singleton,
      List.getLast?_concat, Nat.add_sub_cancel]
  refine ⟨?_, shows.segment ?_⟩
  · rw [Linked.currentSegment, agrees.back, isLast]
    rfl
  · rw [← List.getLast?_eq_getElem?, current]

/-- Beginning a segment on the lists. -/
theorem Shows.beginSegment
    {size : Nat}
    (shows : Shows arena state)
    (room : Room fuel 1 state)
    (begun : beginSegment layout state answer size = (result, after)) :
    ∃ linked,
      arena.beginSegment layout fuel answer size = .ok (result, linked) ∧
        Shows linked after := by
  rw [Arena.beginSegment] at begun
  rw [Linked.beginSegment]
  cases answer with
  | false =>
      cases begun
      exact ⟨arena, rfl, shows⟩
  | true =>
      cases begun
      have count : arena.blocks.length = state.segments.length := by
        rw [shows.blocks, List.length_map]
      have isNew :
          ∀ list, Hook.segment state.segments.length ∉ hooksOf state list := by
        intro list member
        cases list with
        | segments =>
            obtain ⟨index, inside, same⟩ := List.mem_map.mp member
            cases same
            exact Nat.lt_irrefl _ (List.mem_range.mp inside)
        | owc =>
            obtain ⟨owc, -, same⟩ := List.mem_map.mp member
            cases same
      obtain ⟨written, appended, represents⟩ :=
        append_hookInit shows.lists room isNew .segments
      rw [hooksOf_begin] at represents
      rw [if_pos rfl]
      dsimp only
      rw [count, appended]
      refine ⟨_, rfl, represents, ?_, shows.cleanups⟩
      rw [shows.blocks, List.map_append]
      rfl

/-- Taking bytes from the current segment on the lists. -/
theorem Shows.useSegment
    {size : Nat} {segment : Segment}
    (shows : Shows arena state)
    (room : Room fuel 1 state)
    (current : state.segments.getLast? = some segment) :
    ∃ linked,
      arena.useSegment fuel size =
          .ok
            (some
              { segment := state.segments.length - 1
                offset := segment.used },
              linked) ∧
        Shows linked
          { state with
            segments :=
              state.segments.dropLast ++
                [{ segment with used := sizeT (segment.used + size) }] } := by
  obtain ⟨isIndex, isSegment⟩ := shows.currentSegment room current
  obtain ⟨front, segments⟩ := List.getLast?_eq_some_iff.mp current
  rw [Linked.useSegment, isIndex, ok_bind, isSegment, ok_bind]
  refine ⟨_, rfl, ?_, ?_, shows.cleanups⟩
  · dsimp only
    rw [hooksOf_segments (by simp [segments])]
    exact shows.lists
  · dsimp only
    rw [shows.blocks, segments, List.dropLast_concat, List.map_append,
      List.map_append, List.length_append, List.length_singleton,
      Nat.add_sub_cancel, List.set_append_right _ _ (by simp)]
    simp

/-- `dfk_arena_alloc` on the lists. -/
theorem Shows.alloc
    {size : Nat}
    (shows : Shows arena state)
    (room : Room fuel 1 state)
    (allocated : alloc layout state answer size = .ok (result, after)) :
    ∃ linked,
      arena.alloc layout fuel answer size = .ok (result, linked) ∧
        Shows linked after := by
  have agrees :=
    shows.lists.agrees (fun list => Nat.lt_of_succ_lt (room list)) .segments
  obtain ⟨_, checked, allocated⟩ := of_bind allocated
  rw [Linked.alloc, checked, ok_bind, agrees.empty, ok_bind]
  cases current : state.segments.getLast? with
  | none =>
      have isEmpty : (hooksOf state .segments).isEmpty = true := by
        rw [hooksOf, List.getLast?_eq_none_iff.mp current]
        rfl
      rw [current] at allocated
      rw [isEmpty, if_pos rfl]
      exact shows.beginSegment room (Except.ok.inj allocated)
  | some segment =>
      have notEmpty : (hooksOf state .segments).isEmpty = false := by
        obtain ⟨front, segments⟩ := List.getLast?_eq_some_iff.mp current
        rw [hooksOf, segments, List.length_append, List.length_singleton,
          List.range_succ]
        simp
      obtain ⟨isIndex, isSegment⟩ := shows.currentSegment room current
      rw [current] at allocated
      obtain ⟨available, isAvailable, allocated⟩ := of_bind allocated
      rw [notEmpty, if_neg Bool.false_ne_true, Linked.bytesAvailable, isIndex,
        ok_bind, isSegment, ok_bind, isAvailable, ok_bind]
      by_cases short : available < size
      · rw [if_pos short] at allocated ⊢
        exact shows.beginSegment room (Except.ok.inj allocated)
      · rw [if_neg short] at allocated ⊢
        cases allocated
        exact shows.useSegment room current

/-- Copying to a block on the lists. -/
theorem Shows.copyTo
    {data : Bytes}
    (shows : Shows arena state)
    (covers : ∀ place ∈ result, state.covers place data.length = true) :
    ∃ linked,
      Linked.copyTo data (result, arena) = .ok (result, linked) ∧
        Shows linked state := by
  cases result with
  | none =>
      exact ⟨arena, rfl, shows⟩
  | some place =>
      have covered : arena.covers place data.length = true := by
        rw [shows.covers]
        exact covers place rfl
      rw [Linked.copyTo]
      dsimp only
      rw [Linked.copy, if_pos covered]
      exact ⟨_, rfl, shows.lists, shows.blocks, shows.cleanups⟩

/-- A record is registered at a place where there is none. -/
theorem Shows.register
    {owc : Pointer} {cleanup : Nat}
    (shows : Shows arena state)
    (room : Room fuel 1 state)
    (covers : state.covers owc layout.owcSize = true)
    (isNew : ∀ earlier ∈ state.owc, earlier.place ≠ owc) :
    ∃ linked,
      Linked.register layout fuel cleanup (some owc, arena) =
          .ok
            (some { owc with offset := owc.offset + layout.owcSize },
              linked) ∧
        Shows linked
          { state with
            owc := state.owc ++ [{ place := owc, cleanup := cleanup }] } := by
  have notListed : ∀ list, Hook.owc owc ∉ hooksOf state list := by
    intro list member
    cases list with
    | segments =>
        obtain ⟨index, -, same⟩ := List.mem_map.mp member
        cases same
    | owc =>
        obtain ⟨earlier, isEarlier, same⟩ := List.mem_map.mp member
        cases same
        exact isNew earlier isEarlier rfl
  obtain ⟨written, appended, represents⟩ :=
    append_hookInit shows.lists room notListed .owc
  rw [Linked.register]
  dsimp only
  rw [shows.covers, if_pos covers, appended]
  rw [hooksOf_register state owc cleanup] at represents
  refine ⟨_, rfl, represents, shows.blocks, ?_⟩
  intro earlier member
  rcases List.mem_append.mp member with before | isLast
  · dsimp only
    rw [Function.update_of_ne (isNew earlier before)]
    exact shows.cleanups earlier before
  · rw [List.mem_singleton.mp isLast]
    exact Function.update_self ..

/-- What is shown does not depend on the bytes in the blocks. -/
theorem Shows.of_copied
    (shows : Shows arena state)
    (segments : after.segments = state.segments)
    (owc : after.owc = state.owc) :
    Shows arena after where
  lists := by
    have hooks : hooksOf after = hooksOf state := by
      funext list
      cases list with
      | segments =>
          rw [hooksOf, hooksOf, segments]
      | owc =>
          rw [hooksOf, hooksOf, owc]
    rw [hooks]
    exact shows.lists
  blocks := by
    rw [segments]
    exact shows.blocks
  cleanups := by
    rw [owc]
    exact shows.cleanups

/-! ## Requests -/

/-- The first bytes of the records of an arena. -/
def records (state : State) : List Block :=
  state.owc.map fun owc => { place := owc.place, size := 1 }

/-- The cleanup of a record, with the object behind it. -/
def cleanupOf (layout : Layout) (owc : Owc) : Event :=
  .cleanup owc.cleanup
    { owc.place with offset := owc.place.offset + layout.owcSize }

/-- The call of `dfk_arena_alloc_copy_ex` before it copies. -/
def Linked.Request.call : Request → Call
  | .alloc size => .alloc size
  | .allocCopy data => .allocCopy data
  | .allocEx size cleanup => .allocEx size cleanup
  | .allocCopyEx data cleanup => .allocEx data.length cleanup

/-- The cleanup that a request registers, if it returns an object. -/
def registration (request : Request) (result : Option Pointer) :
    Option Event :=
  request.cleanup?.bind fun cleanup => result.map (.cleanup cleanup)

/-- The cleanups that requests register, in order. -/
def registrations (requests : List (Request × Bool))
    (results : List (Option Pointer)) : List Event :=
  (requests.zip results).filterMap fun made =>
    registration made.1.1 made.2

/-- What the segments and the records are after a request. -/
structure Registers (layout : Layout) (state : State)
    (event : Option Event) (after : State) : Prop where
  tidy : Tidy layout after (records after)
  segments : after.segments.length ≤ state.segments.length + 1
  events :
    after.owc.map (cleanupOf layout) =
      state.owc.map (cleanupOf layout) ++ event.toList

/-- At most one hook is added to each list. -/
theorem Registers.room
    {event : Option Event} {spare : Nat}
    (registers : Registers layout state event after)
    (room : Room fuel (spare + 1) state) :
    Room fuel spare after := by
  have count :
      after.owc.length = state.owc.length + event.toList.length := by
    have lengths := congrArg List.length registers.events
    rw [List.length_map, List.length_append, List.length_map] at lengths
    exact lengths
  have atMostOne : event.toList.length ≤ 1 := by
    cases event with
    | none =>
        exact Nat.zero_le _
    | some event =>
        exact Nat.le_refl _
  have segments := registers.segments
  intro list
  have before := room list
  cases list with
  | segments =>
      rw [hooksOf, List.length_map, List.length_range] at before ⊢
      omega
  | owc =>
      rw [hooksOf, List.length_map] at before ⊢
      omega

/-- Bytes from which a record or an object is taken, if there are any. -/
structure Obtained (layout : Layout) (state : State) (taken : Nat)
    (found : Option Pointer) (between : State) : Prop where
  refused : found = none → between = state
  isTaken : ∀ place ∈ found, Taken layout state place taken between
  segments : between.segments.length ≤ state.segments.length + 1

/-- At most one segment is begun. -/
theorem alloc_segments
    {size : Nat}
    (allocated : alloc layout state answer size = .ok (result, after)) :
    after.segments.length ≤ state.segments.length + 1 := by
  have begun
      (begins : Arena.beginSegment layout state answer size =
        (result, after)) :
      after.segments.length ≤ state.segments.length + 1 := by
    rw [Arena.beginSegment] at begins
    cases answer with
    | false =>
        cases begins
        exact Nat.le_succ _
    | true =>
        cases begins
        exact Nat.le_of_eq (List.length_append ..)
  obtain ⟨_, -, allocated⟩ := of_bind allocated
  split at allocated
  · exact begun (Except.ok.inj allocated)
  · next segment current =>
      obtain ⟨front, segments⟩ := List.getLast?_eq_some_iff.mp current
      obtain ⟨available, -, allocated⟩ := of_bind allocated
      split at allocated
      · exact begun (Except.ok.inj allocated)
      · cases allocated
        simp [segments]

/-- What `dfk_arena_alloc` obtains for a call that meets the condition. -/
theorem obtained_of_meets
    {call : Call}
    (tidy : Tidy layout state (records state))
    (positive : 0 < call.size)
    (meets : Meets layout state call answer) :
    ∃ found between,
      alloc layout state answer (sizeT (call.needed layout)) =
          .ok (found, between) ∧
        Obtained layout state (call.needed layout) found between := by
  rcases alloc_of_meets tidy positive meets with
    refused | ⟨place, after, allocated, isTaken⟩
  · refine ⟨none, state, refused, fun _ => rfl, ?_, Nat.le_succ _⟩
    intro place isPlace
    cases isPlace
  · refine ⟨some place, after, allocated, ?_, ?_, alloc_segments allocated⟩
    · intro isNone
      cases isNone
    · intro other isOther
      cases isOther
      exact isTaken

section Obtained

variable {between : State} {taken : Nat} {found : Option Pointer}
variable (obtained : Obtained layout state taken found between)

include obtained

/-- The records are the same, and the arena stays tidy. -/
theorem Obtained.registers
    (tidy : Tidy layout state (records state)) :
    Registers layout state none between := by
  cases found with
  | none =>
      rw [obtained.refused rfl]
      exact ⟨tidy, Nat.le_succ _, (List.append_nil _).symm⟩
  | some place =>
      have isTaken := obtained.isTaken place rfl
      refine ⟨?_, obtained.segments, ?_⟩
      · rw [records, isTaken.owc]
        exact isTaken.tidy _ tidy
      · rw [isTaken.owc]
        exact (List.append_nil _).symm

/-- What is obtained stands in a segment, in each of its parts. -/
theorem Obtained.covers
    {place : Pointer} {offset size : Nat}
    (tidy : Tidy layout state (records state))
    (isFound : found = some place)
    (begins : place.offset ≤ offset)
    (ends : offset + size ≤ place.offset + taken) :
    between.covers ⟨place.segment, offset⟩ size = true :=
  ((obtained.isTaken place isFound).block tidy begins ends).1.2

/-- A record at the begin of what is obtained is registered. -/
theorem Obtained.register
    {owc : Pointer} {cleanup : Nat}
    (tidy : Tidy layout state (records state))
    (isFound : found = some owc)
    (some : 0 < taken) :
    (∀ earlier ∈ between.owc, earlier.place ≠ owc) ∧
      Registers layout state
        (Option.some
          (.cleanup cleanup
            { owc with offset := owc.offset + layout.owcSize }))
        { between with
          owc := between.owc ++ [{ place := owc, cleanup := cleanup }] } := by
  have isTaken := obtained.isTaken owc isFound
  obtain ⟨-, apart, tidyAfter⟩ :=
    @Taken.block layout state between (records state) owc taken isTaken tidy
      owc.offset 1 (Nat.le_refl _) (Nat.add_le_add_left some _)
  refine ⟨?_, ⟨tidyAfter.segments, ?_⟩, obtained.segments, ?_⟩
  · rintro earlier member rfl
    rw [isTaken.owc] at member
    have disjoint := apart _ (List.mem_map_of_mem member)
    rcases disjoint with other | before | behind
    · exact other rfl
    · exact Nat.not_succ_le_self _ before
    · exact Nat.not_succ_le_self _ behind
  · intro block member
    apply tidyAfter.given block
    rw [records, List.map_append, isTaken.owc] at member
    rcases List.mem_append.mp member with before | isLast
    · exact List.mem_cons_of_mem _ before
    · rw [List.mem_singleton.mp isLast]
      exact List.mem_cons_self ..
  · dsimp only
    rw [isTaken.owc, List.map_append]
    rfl

end Obtained

/-- `dfk_arena_alloc_ex` on the lists. -/
theorem Shows.allocEx
    {size cleanup : Nat}
    (shows : Shows arena state)
    (tidy : Tidy layout state (records state))
    (room : Room fuel 2 state)
    (positive : 0 < size)
    (meets : Meets layout state (.allocEx size cleanup) answer) :
    ∃ result after linked,
      allocEx layout state answer size cleanup = .ok (result, after) ∧
        arena.allocEx layout fuel answer size cleanup =
          .ok (result, linked) ∧
        Shows linked after ∧
        Registers layout state (result.map (.cleanup cleanup)) after ∧
        ∀ place ∈ result, after.covers place size = true := by
  obtain ⟨found, between, allocated, obtained⟩ :=
    @obtained_of_meets layout state answer (.allocEx size cleanup) tidy
      positive meets
  rw [Call.needed] at allocated obtained
  have nonzero : size ≠ 0 := Nat.pos_iff_ne_zero.mp positive
  obtain ⟨linked, isAllocated, showsBetween⟩ := shows.alloc room.less allocated
  rw [Arena.allocEx, Linked.allocEx, check_pos nonzero, ok_bind, ok_bind,
    allocated, ok_bind, isAllocated, ok_bind]
  have registers := obtained.registers tidy
  cases found with
  | none =>
      refine ⟨none, between, linked, rfl, rfl, showsBetween, registers, ?_⟩
      intro place isPlace
      cases isPlace
  | some owc =>
      have some : 0 < layout.owcSize + size := Nat.add_pos_right _ positive
      have covers : between.covers owc layout.owcSize = true :=
        obtained.covers tidy rfl (Nat.le_refl _)
          (Nat.add_le_add_left (Nat.le_add_right _ _) _)
      have coversObject :
          between.covers ⟨owc.segment, owc.offset + layout.owcSize⟩ size =
            true :=
        obtained.covers tidy rfl (Nat.le_add_right _ _)
          (Nat.le_of_eq (Nat.add_assoc _ _ _))
      obtain ⟨isNew, isRegistered⟩ :=
        @Obtained.register layout state between _ _ obtained owc cleanup tidy
          rfl some
      have roomBetween : Room fuel 1 between := registers.room room
      obtain ⟨final, registered, showsFinal⟩ :=
        @Shows.register layout fuel linked between owc cleanup showsBetween
          roomBetween covers isNew
      dsimp only
      rw [if_pos covers, registered]
      refine ⟨_, _, final, rfl, rfl, showsFinal, isRegistered, ?_⟩
      intro place isPlace
      cases isPlace
      exact coversObject

/-- A copy to what a request has returned. -/
theorem Shows.copied
    {data : Bytes} {linked : Linked} {event : Option Event}
    (shows : Shows linked after)
    (registers : Registers layout state event after)
    (covers : ∀ place ∈ result, after.covers place data.length = true) :
    ∃ final,
      Linked.copyTo data (result, linked) = .ok (result, final) ∧
        Shows final after ∧
        (∀ place ∈ result, ∃ last,
          copy after place data = .ok last ∧
            Shows final last ∧
            Registers layout state event last) := by
  obtain ⟨final, copied, showsFinal⟩ := shows.copyTo covers
  refine ⟨final, copied, showsFinal, fun place isPlace => ?_⟩
  rw [copy, if_pos (covers place isPlace)]
  exact ⟨_, rfl, showsFinal.of_copied rfl rfl,
    registers.tidy.of_segments rfl, registers.segments, registers.events⟩

/-- One request on the lists. -/
theorem Shows.perform
    {request : Request}
    (shows : Shows arena state)
    (tidy : Tidy layout state (records state))
    (room : Room fuel 2 state)
    (positive : 0 < request.call.size)
    (ranged : request.call.size < 2 ^ 64)
    (meets : Meets layout state request.call answer) :
    ∃ result after linked,
      perform layout state answer request.call = .ok (result, after) ∧
        arena.perform layout fuel answer request = .ok (result, linked) ∧
        Shows linked after ∧
        Registers layout state (registration request result) after := by
  cases request with
  | alloc size =>
      have noWrap : sizeT size = size := Nat.mod_eq_of_lt ranged
      obtain ⟨found, between, allocated, obtained⟩ :=
        obtained_of_meets tidy positive meets
      rw [Linked.Request.call, Call.needed, noWrap] at allocated
      obtain ⟨linked, isAllocated, showsBetween⟩ :=
        shows.alloc room.less allocated
      exact ⟨found, between, linked, allocated, isAllocated, showsBetween,
        obtained.registers tidy⟩
  | allocCopy data =>
      have noWrap : sizeT data.length = data.length :=
        Nat.mod_eq_of_lt ranged
      have nonempty : data ≠ [] := List.length_pos_iff.mp positive
      obtain ⟨found, between, allocated, obtained⟩ :=
        obtained_of_meets tidy positive meets
      have covers :
          ∀ place ∈ found, between.covers place data.length = true :=
        fun place isPlace =>
          obtained.covers tidy isPlace (Nat.le_refl _) (Nat.le_refl _)
      rw [Linked.Request.call, Call.needed, noWrap] at allocated
      obtain ⟨linked, isAllocated, showsBetween⟩ :=
        shows.alloc room.less allocated
      obtain ⟨final, copied, showsFinal, whenFound⟩ :=
        showsBetween.copied (obtained.registers tidy) covers
      rw [Linked.Request.call, Arena.perform, allocCopy, check_pos nonempty,
        ok_bind, allocated, ok_bind, Linked.perform, Linked.allocCopy,
        check_pos nonempty, ok_bind, isAllocated, ok_bind, copied]
      cases found with
      | none =>
          exact ⟨none, between, final, rfl, rfl, showsFinal,
            obtained.registers tidy⟩
      | some place =>
          obtain ⟨last, isCopied, showsLast, registers⟩ := whenFound place rfl
          dsimp only
          rw [isCopied]
          exact ⟨_, last, final, rfl, rfl, showsLast, registers⟩
  | allocEx size cleanup =>
      obtain ⟨result, after, linked, allocated, isAllocated, showsAfter,
        registers, -⟩ := shows.allocEx tidy room positive meets
      exact ⟨result, after, linked, allocated, isAllocated, showsAfter,
        registers⟩
  | allocCopyEx data cleanup =>
      have nonempty : data ≠ [] := List.length_pos_iff.mp positive
      obtain ⟨result, after, linked, allocated, isAllocated, showsAfter,
        registers, covers⟩ := shows.allocEx tidy room positive meets
      obtain ⟨final, copied, showsFinal, -⟩ :=
        showsAfter.copied registers covers
      refine ⟨result, after, final, allocated, ?_, showsFinal, registers⟩
      rw [Linked.perform, Linked.allocCopyEx, check_pos nonempty, ok_bind]
      change
        arena.allocEx layout fuel answer data.length cleanup =
          .ok (result, linked) at isAllocated
      rw [isAllocated, ok_bind, copied]

/-! ## Runs -/

/-- Requests on the lists register their cleanups in order. -/
theorem Shows.performAll
    (requests : List (Request × Bool)) :
    ∀ {arena : Linked} {state : State},
      Shows arena state →
        Tidy layout state (records state) →
          Room fuel (requests.length + 1) state →
            (∀ made ∈ requests,
              0 < made.1.call.size ∧ made.1.call.size < 2 ^ 64) →
              AllFit layout
                  (requests.map fun made => (made.1.call, made.2))
                  (left state) →
                ∃ results linked after,
                  arena.performAll layout fuel requests =
                      .ok (results, linked) ∧
                    results.length = requests.length ∧
                    Shows linked after ∧
                    Tidy layout after (records after) ∧
                    Room fuel 1 after ∧
                    after.owc.map (cleanupOf layout) =
                      state.owc.map (cleanupOf layout) ++
                        registrations requests results := by
  induction requests with
  | nil =>
      intro arena state shows tidy room _ _
      exact ⟨[], arena, state, rfl, rfl, shows, tidy, room,
        (List.append_nil _).symm⟩
  | cons made requests inductionHypothesis =>
      intro arena state shows tidy room ranged fits
      rcases made with ⟨request, answer⟩
      obtain ⟨positive, bounded⟩ := ranged _ (List.mem_cons_self ..)
      have roomHere : Room fuel 2 state := fun list =>
        Nat.lt_of_le_of_lt
          (Nat.add_le_add_left (Nat.le_add_left 2 requests.length) _)
          (room list)
      have meets : Meets layout state request.call answer :=
        fits_iff_meets.mp fits.1
      obtain ⟨result, after, linked, performed, isPerformed, showsAfter,
        registers⟩ := shows.perform tidy roomHere positive bounded meets
      have fitsRest := fits.2
      rw [← left_perform tidy bounded meets performed] at fitsRest
      obtain ⟨results, final, last, rest, count, showsLast, tidyLast,
        roomLast, events⟩ :=
        inductionHypothesis showsAfter registers.tidy (registers.room room)
          (fun made member => ranged made (List.mem_cons_of_mem _ member))
          fitsRest
      refine ⟨result :: results, final, last, ?_, congrArg (· + 1) count,
        showsLast, tidyLast, roomLast, ?_⟩
      · rw [Linked.performAll, isPerformed, ok_bind, rest]
        rfl
      · rw [events, registers.events, List.append_assoc, registrations,
          registrations, List.zip_cons_cons, List.filterMap_cons]
        cases registration request result with
        | none =>
            rfl
        | some event =>
            rfl

/-! ## Release -/

/-- The loop over the records calls what is left of the cleanups. -/
theorem Shows.cleanFrom
    (shows : Shows arena state)
    (tidy : Tidy layout state (records state))
    (room : Room fuel 1 state)
    {rounds : Nat} :
    ∀ {index : Nat} {events : List Event},
      index ≤ state.owc.length →
        state.owc.length < index + rounds →
          arena.cleanFrom layout fuel { value := none } rounds
              { value := (hooksOf state .owc)[index]? } events =
            .ok (events ++ (state.owc.drop index).map (cleanupOf layout)) := by
  have holds := shows.lists.holds .owc
  have enough : (hooksOf state .owc).length ≤ fuel :=
    Nat.le_of_lt (room.less .owc)
  induction rounds with
  | zero =>
      intro index events within left
      exact absurd left (Nat.not_lt.mpr within)
  | succ rounds inductionHypothesis =>
      intro index events within left
      rw [Linked.cleanFrom]
      cases isOwc : state.owc[index]? with
      | none =>
          have past : state.owc.length ≤ index :=
            List.getElem?_eq_none_iff.mp isOwc
          have isHook : (hooksOf state .owc)[index]? = none := by
            rw [hooksOf, List.getElem?_map, isOwc, Option.map_none]
          rw [isHook, holds.itEqual_end enough (by simp), ok_bind,
            List.drop_eq_nil_of_le past]
          exact congrArg Except.ok (List.append_nil _).symm
      | some owc =>
          have isHook :
              (hooksOf state .owc)[index]? = some (.owc owc.place) := by
            rw [hooksOf, List.getElem?_map, isOwc, Option.map_some]
          obtain ⟨inside, atIndex⟩ := List.getElem?_eq_some_iff.mp isOwc
          have member : owc ∈ state.owc := List.mem_of_getElem? isOwc
          obtain ⟨goesOn, next⟩ :=
            holds.round enough holds.follows_next (fun _ member => member)
              isHook
          obtain ⟨segment, isSegment, -⟩ :=
            tidy.given _ (List.mem_map_of_mem member)
          rw [isHook] at goesOn next
          rw [isHook, goesOn, ok_bind, if_neg Bool.false_ne_true,
            Linked.recordOf, ok_bind, shows.segment isSegment, ok_bind,
            LinkedList.itNext, next, ok_bind,
            inductionHypothesis inside (by omega),
            List.drop_eq_getElem_cons inside, atIndex, List.map_cons,
            List.append_assoc, shows.cleanups owc member]
          rfl

/-- The loop over the segments frees each of them. -/
theorem freeFrom_frees
    {sequences : Sequences Hook ListName} {rounds : Nat} :
    ∀ {arena : Linked} {events : List Event} {freed : Nat}
      {rest : List Segment},
      Represents arena.lists
          (Function.update sequences .segments
            ((List.range' freed rest.length).map Hook.segment)) →
        (sequences .owc).length + 1 < fuel →
          rest.length + 1 < fuel →
            arena.blocks = List.replicate freed none ++ rest.map some →
              rest.length < rounds →
                ∃ released,
                  Linked.freeFrom fuel rounds arena events =
                      .ok
                        (events ++
                          (List.range' freed rest.length).map Event.freed,
                          released) ∧
                    released.blocks =
                      List.replicate (freed + rest.length) none := by
  induction rounds with
  | zero =>
      intro arena events freed rest _ _ _ _ left
      exact absurd left (Nat.not_lt_zero _)
  | succ rounds inductionHypothesis =>
      intro arena events freed rest represents roomOwc roomRest blocks left
      have room :
          ∀ list,
            (Function.update sequences .segments
              ((List.range' freed rest.length).map Hook.segment)
              list).length + 1 < fuel := by
        intro list
        cases list with
        | segments =>
            rw [Function.update_self, List.length_map, List.length_range']
            exact roomRest
        | owc =>
            rw [Function.update_of_ne (by decide)]
            exact roomOwc
      have agrees :=
        represents.agrees (fun list => Nat.lt_of_succ_lt (room list))
          .segments
      rw [Function.update_self] at agrees
      rw [Linked.freeFrom, agrees.empty, ok_bind]
      cases rest with
      | nil =>
          refine ⟨arena, congrArg Except.ok ?_, ?_⟩
          · exact Prod.ext (List.append_nil _).symm rfl
          · rw [blocks]
            exact List.append_nil _
      | cons segment rest =>
          have begins :
              (List.range' freed (segment :: rest).length).map Hook.segment =
                .segment freed ::
                  (List.range' (freed + 1) rest.length).map Hook.segment :=
            rfl
          have nonempty :
              Function.update sequences .segments
                  ((List.range' freed (segment :: rest).length).map
                    Hook.segment) .segments ≠
                [] := by
            rw [Function.update_self, begins]
            exact List.cons_ne_nil _ _
          obtain ⟨written, popped, representsRest⟩ :=
            represents.popFront room nonempty
          rw [Function.update_self, Function.update_idem, begins,
            List.tail_cons] at representsRest
          have isSegment : arena.segment freed = .ok segment := by
            rw [Linked.segment, blocks,
              List.getElem?_append_right (by simp)]
            simp
          have blocksRest :
              arena.blocks.set freed none =
                List.replicate (freed + 1) none ++ rest.map some := by
            rw [blocks, List.set_append_right _ _ (by simp),
              List.replicate_succ', List.append_assoc]
            simp
          obtain ⟨released, isFreed, isReleased⟩ :=
            @inductionHypothesis
              { arena with
                lists := written
                blocks := arena.blocks.set freed none }
              (events ++ [.freed freed]) (freed + 1) rest representsRest
              roomOwc (Nat.lt_of_succ_lt roomRest) blocksRest
              (Nat.lt_of_succ_lt_succ left)
          refine ⟨released, ?_, ?_⟩
          · rw [begins, List.isEmpty_cons, if_neg Bool.false_ne_true,
              agrees.front, ok_bind, begins, List.head?_cons,
              Linked.segmentOf, ok_bind, popped, ok_bind, isSegment, ok_bind,
              isFreed, List.append_assoc]
            rfl
          · rw [isReleased, List.length_cons]
            apply congrArg (List.replicate · none)
            omega

end Calls

/-- `dfk_list_init` of one of the lists passes its own check. -/
theorem init_list
    {fuel : Nat} {constantTimeSize : Bool}
    {lists : LinkedList.Memory Hook ListName} (list : ListName) :
    LinkedList.init fuel constantTimeSize lists list =
      .ok (lists.setList list (LinkedList.freshList constantTimeSize)) := by
  have fresh :=
    @LinkedList.represents_fresh Hook ListName
      { lists with lists := fun _ => LinkedList.freshList constantTimeSize }
      constantTimeSize fun _ => rfl
  have holds :
      LinkedList.Holds
        (lists.setList list (LinkedList.freshList constantTimeSize)) list
        [] :=
    LinkedList.Holds.congr (fresh.holds list) (if_pos rfl) nofun
  rw [LinkedList.init]
  rw [holds.listCheckInvariants (Nat.zero_le _)]
  rfl

/-- `dfk_arena_init` gives two empty lists. -/
theorem init_shows
    {fuel : Nat} {constantTimeSize : Bool} {arena : Linked}
    (blocks : arena.blocks = []) :
    ∃ fresh,
      arena.init fuel constantTimeSize = .ok fresh ∧
        Shows fresh (init fresh.memory) := by
  rw [Linked.init, init_list, ok_bind, init_list, ok_bind]
  refine ⟨_, rfl, ?_, blocks, nofun⟩
  have none : hooksOf (init arena.memory) = fun _ => [] := by
    funext list
    cases list <;> rfl
  dsimp only
  rw [none]
  apply LinkedList.represents_fresh
  intro list
  cases list <;> rfl

/--
After any requests, `dfk_arena_free` calls the cleanups that were registered,
in order and each with the object that was returned, and then frees every
segment once.
-/
theorem arena_released
    {layout : Layout} {fuel : Nat} {constantTimeSize : Bool} {arena : Linked}
    {requests : List (Request × Bool)}
    (empty : arena.blocks = [])
    (ranged :
      ∀ made ∈ requests,
        0 < made.1.call.size ∧ made.1.call.size < 2 ^ 64)
    (fits :
      AllFit layout (requests.map fun made => (made.1.call, made.2)) none)
    (enough : requests.length + 1 < fuel) :
    ∃ fresh results filled released,
      arena.init fuel constantTimeSize = .ok fresh ∧
        fresh.performAll layout fuel requests = .ok (results, filled) ∧
        results.length = requests.length ∧
        none ∉ filled.blocks ∧
        filled.free layout fuel =
          .ok
            (registrations requests results ++
              (List.range filled.blocks.length).map Event.freed,
              released) ∧
        released.blocks = List.replicate filled.blocks.length none := by
  obtain ⟨fresh, isFresh, shows⟩ :=
    @init_shows fuel constantTimeSize arena empty
  have room : Room fuel (requests.length + 1) (init fresh.memory) := by
    intro list
    cases list <;> exact (Nat.zero_add _).symm ▸ enough
  obtain ⟨results, filled, after, performed, count, showsAfter, tidy,
    roomAfter, events⟩ :=
    shows.performAll requests (tidy_init layout _) room ranged fits
  refine ⟨fresh, results, filled, ?_⟩
  have blocks : filled.blocks.length = after.segments.length := by
    rw [showsAfter.blocks, List.length_map]
  have held : none ∉ filled.blocks := by
    rw [showsAfter.blocks]
    simp
  have roomOwc : (hooksOf after .owc).length + 1 < fuel := roomAfter .owc
  have roomSegments : after.segments.length + 1 < fuel := by
    have room := roomAfter .segments
    rw [hooksOf, List.length_map, List.length_range] at room
    exact room
  have cleaned :=
    @Shows.cleanFrom layout fuel filled after showsAfter tidy roomAfter fuel
      0 [] (Nat.zero_le _) (by
        rw [hooksOf, List.length_map] at roomOwc
        omega)
  have sameHooks :
      Function.update (hooksOf after) .segments
          ((List.range' 0 after.segments.length).map Hook.segment) =
        hooksOf after := by
    rw [← List.range_eq_range']
    exact Function.update_eq_self ListName.segments (hooksOf after)
  obtain ⟨released, isFreed, isReleased⟩ :=
    @freeFrom_frees fuel (hooksOf after) fuel filled
      (registrations requests results) 0 after.segments
      (by rw [sameHooks]; exact showsAfter.lists) roomOwc roomSegments
      showsAfter.blocks (Nat.lt_of_succ_lt roomSegments)
  refine ⟨released, isFresh, performed, count, held, ?_, ?_⟩
  · have holds := showsAfter.lists.holds .owc
    have enoughOwc : (hooksOf after .owc).length ≤ fuel :=
      Nat.le_of_lt (roomAfter.less .owc)
    rw [List.drop_zero, events, List.nil_append] at cleaned
    rw [← List.head?_eq_getElem?] at cleaned
    rw [Linked.free, holds.begin enoughOwc, ok_bind,
      holds.listEnd enoughOwc, ok_bind, cleaned, ok_bind]
    rw [blocks, List.range_eq_range']
    exact isFreed
  · rw [isReleased, blocks, Nat.zero_add]

/-- Both kinds of requests, a refusal, and an object for a second segment. -/
def mixedRequests : List (Request × Bool) :=
  [(.allocEx 40 1, false), (.allocEx 40 1, true), (.alloc 7, true),
    (.allocCopyEx [104, 105] 2, true), (.alloc 40800, true),
    (.allocCopy [104, 105], true)]

/-- An arena before `dfk_arena_init`. -/
def unsetArena : Linked where
  lists :=
    { hooks := fun _ => { next := none, prev := none }
      lists := fun _ => { head := none, tail := none, size := none } }
  blocks := []
  cleanups := fun _ => 0
  memory := fun _ _ => 0

theorem arena_released_mixed :
    ∃ fresh results filled released,
      unsetArena.init 8 true = .ok fresh ∧
        fresh.performAll defaultLayout 8 mixedRequests =
          .ok (results, filled) ∧
        results.length = mixedRequests.length ∧
        none ∉ filled.blocks ∧
        filled.free defaultLayout 8 =
          .ok
            (registrations mixedRequests results ++
              (List.range filled.blocks.length).map Event.freed,
              released) ∧
        released.blocks = List.replicate filled.blocks.length none := by
  have ranged :
      ∀ made ∈ mixedRequests,
        0 < made.1.call.size ∧ made.1.call.size < 2 ^ 64 := by
    decide
  have fits :
      AllFit defaultLayout
        (mixedRequests.map fun made => (made.1.call, made.2)) none := by
    simp [mixedRequests, AllFit, Call.Fits, spend, sizeT, defaultLayout,
      Linked.Request.call, Call.needed]
  exact arena_released rfl ranged fits (by decide)

end Dfk.Arena
