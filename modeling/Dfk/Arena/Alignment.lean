import Dfk.Arena.Disjointness

/-!
# Alignment of blocks

A block begins where the block before it in its segment ends.  All blocks are
aligned if and only if only the last request to each segment has an odd size,
and the records of the arena itself have sizes that keep the alignment.
-/

namespace Dfk.Arena

/-! ## Runs -/

/--
The blocks that `dfk_arena_alloc` and `dfk_arena_alloc_ex` return during a
call: that of a new `owc_t`, and that of the client.
-/
def returned (arena after : State) (result : Option Pointer) : List Pointer :=
  (after.owc.drop arena.owc.length).map Owc.place ++ result.toList

/-- Make calls, with all the blocks that are returned. -/
def performAll (layout : Layout) :
    State → List (Call × Bool) → Except Fault (List Pointer × State)
  | arena, [] => .ok ([], arena)
  | arena, made :: calls => do
      let first ← perform layout arena made.2 made.1
      let rest ← performAll layout first.2 calls
      pure (returned arena first.2 first.1 ++ rest.1, rest.2)

/-- `DFK_MALLOC_ALIGNMENT`, a power of two. -/
structure Alignment where
  value : Nat
  positive : 0 < value
  divides : value ∣ 2 ^ 64

/-- A block at an aligned address, the segments being where they are. -/
def Aligned (alignment : Alignment) (base : Nat → Nat) (place : Pointer) :
    Prop :=
  alignment.value ∣ base place.segment + place.offset

instance (alignment : Alignment) (base : Nat → Nat) (place : Pointer) :
    Decidable (Aligned alignment base place) :=
  inferInstanceAs (Decidable (_ ∣ _))

/-! ## Sizes -/

/-- Whether a call leaves a record for a cleanup. -/
def Call.registers : Call → Bool
  | .allocEx _ _ => true
  | _ => false

/-- A request is served from a segment of which these have been served. -/
def Served (layout : Layout) (current : List Nat) (size : Nat) : Prop :=
  current ≠ [] ∧
    size ≤
      layout.segmentSize - layout.headerSize -
        sizeT (layout.headerSize + current.sum)

instance (layout : Layout) (current : List Nat) (size : Nat) :
    Decidable (Served layout current size) :=
  inferInstanceAs (Decidable (_ ∧ _))

/-- The record of a call that leaves one keeps the alignment. -/
def RoundRecord (layout : Layout) (alignment : Alignment) (call : Call) :
    Prop :=
  call.registers = true → alignment.value ∣ layout.owcSize

/--
A request that is served from a segment finds only multiples of the alignment
among the sizes that the segment has served, and so are the sizes of the
header and, where one is needed, of the record.
-/
def RoundFrom (layout : Layout) (alignment : Alignment) :
    List (Call × Bool) → List Nat → Prop
  | [], _ => True
  | made :: calls, current =>
      if Served layout current (sizeT (made.1.needed layout)) then
        (∀ earlier ∈ current, alignment.value ∣ earlier) ∧
          RoundRecord layout alignment made.1 ∧
          RoundFrom layout alignment calls
            (current ++ [sizeT (made.1.needed layout)])
      else if made.2 = true then
        alignment.value ∣ layout.headerSize ∧
          RoundRecord layout alignment made.1 ∧
          RoundFrom layout alignment calls [sizeT (made.1.needed layout)]
      else RoundFrom layout alignment calls current

/-! ## What a call does -/

section Calls

variable {layout : Layout} {arena after : State} {result : Option Pointer}
variable {alignment : Alignment} {base : Nat → Nat} {current : List Nat}
variable {answer : Bool} {size : Nat}

/-- The current segment has served requests of these sizes. -/
structure Tracks (layout : Layout) (arena : State) (current : List Nat) :
    Prop where
  none_iff : arena.segments.getLast? = none ↔ current = []
  used :
    ∀ segment ∈ arena.segments.getLast?,
      segment.size = layout.segmentSize - layout.headerSize ∧
        segment.used = sizeT (layout.headerSize + current.sum)

/-- What `dfk_arena_alloc` returns: a block of the segment, or a new one. -/
inductive Allocates (layout : Layout) (arena : State) (current : List Nat)
    (answer : Bool) (size : Nat) : Option Pointer → State → Prop where
  | served {segment : Nat} {after : State}
      (serves : Served layout current size)
      (owc : after.owc = arena.owc)
      (tracks : Tracks layout after (current ++ [size])) :
      Allocates layout arena current answer size
        (some
          { segment := segment
            offset := sizeT (layout.headerSize + current.sum) })
        after
  | begun {segment : Nat} {after : State}
      (serves : ¬ Served layout current size)
      (granted : answer = true)
      (owc : after.owc = arena.owc)
      (tracks : Tracks layout after [size]) :
      Allocates layout arena current answer size
        (some { segment := segment, offset := layout.headerSize }) after
  | refused
      (serves : ¬ Served layout current size)
      (denied : answer = false) :
      Allocates layout arena current answer size none arena

/-- What a segment has served depends on the segments only. -/
theorem Tracks.of_segments
    (tracks : Tracks layout arena current)
    (same : after.segments = arena.segments) :
    Tracks layout after current where
  none_iff := by
    rw [same]
    exact tracks.none_iff
  used := by
    rw [same]
    exact tracks.used

/-- A new segment has served one request. -/
theorem beginSegment_allocates
    (serves : ¬ Served layout current size)
    (begun : beginSegment layout arena answer size = (result, after)) :
    Allocates layout arena current answer size result after := by
  rw [beginSegment] at begun
  cases answer with
  | false =>
      cases begun
      exact .refused serves rfl
  | true =>
      cases begun
      refine .begun serves rfl rfl ⟨?_, ?_⟩
      · rw [List.getLast?_concat]
        exact iff_of_false (Option.some_ne_none _) (List.cons_ne_nil _ _)
      · intro segment isLast
        rw [List.getLast?_concat] at isLast
        cases isLast
        exact ⟨rfl, rfl⟩

/-- A `size_t` is counted on as one. -/
theorem sizeT_add (left right : Nat) :
    sizeT (sizeT left + right) = sizeT (left + right) :=
  Nat.mod_add_mod _ _ _

/-- `dfk_arena_alloc` serves a request from the segment, or begins one. -/
theorem alloc_allocates
    (tracks : Tracks layout arena current)
    (allocated : alloc layout arena answer size = .ok (result, after)) :
    Allocates layout arena current answer size result after := by
  obtain ⟨_, -, allocated⟩ := of_bind allocated
  cases last : arena.segments.getLast? with
  | none =>
      rw [last] at allocated
      have isNil := tracks.none_iff.mp last
      apply beginSegment_allocates _ (Except.ok.inj allocated)
      intro serves
      exact serves.1 isNil
  | some segment =>
      obtain ⟨recorded, used⟩ := tracks.used segment last
      rw [last] at allocated
      obtain ⟨available, isAvailable, allocated⟩ := of_bind allocated
      obtain ⟨_, checked, isAvailable⟩ := of_bind isAvailable
      have left := of_check checked
      have notNil : current ≠ [] := by
        intro isNil
        have isNone := tracks.none_iff.mpr isNil
        rw [last] at isNone
        cases isNone
      have bounded := layout.bounded
      have availableIs :
          available =
            layout.segmentSize - layout.headerSize -
              sizeT (layout.headerSize + current.sum) := by
        cases isAvailable
        rw [← recorded, ← used, sizeT]
        omega
      by_cases short : available < size
      · rw [if_pos short] at allocated
        apply beginSegment_allocates _ (Except.ok.inj allocated)
        intro serves
        have enough := serves.2
        omega
      · rw [if_neg short] at allocated
        cases allocated
        rw [used]
        refine .served ⟨notNil, by omega⟩ rfl ⟨?_, ?_⟩
        · rw [List.getLast?_concat]
          exact iff_of_false (Option.some_ne_none _) (by simp)
        · intro other isLast
          rw [List.getLast?_concat] at isLast
          cases isLast
          refine ⟨recorded, ?_⟩
          dsimp only
          rw [sizeT_add, List.sum_append, List.sum_singleton, Nat.add_assoc]

/-- The blocks of a call, at the block that was allocated for it. -/
def Call.blocks (layout : Layout) (call : Call) (place : Pointer) :
    List Pointer :=
  if call.registers then
    [place, { place with offset := place.offset + layout.owcSize }]
  else [place]

/-- A call allocates once, and returns the blocks at its block. -/
theorem perform_returned
    {call : Call}
    (ranged : call.size < 2 ^ 64)
    (performed : perform layout arena answer call = .ok (result, after)) :
    ∃ found between,
      alloc layout arena answer (sizeT (call.needed layout)) =
          .ok (found, between) ∧
        after.segments = between.segments ∧
        (between.owc = arena.owc →
          returned arena after result =
            found.toList.flatMap (call.blocks layout)) := by
  have noWrap : sizeT call.size = call.size := Nat.mod_eq_of_lt ranged
  cases call with
  | alloc size =>
      refine ⟨result, after, ?_, rfl, ?_⟩
      · rw [Call.needed, show sizeT size = size from noWrap]
        exact performed
      · intro same
        rw [returned, same, List.drop_length]
        cases result <;> rfl
  | allocCopy data =>
      obtain ⟨_, -, performed⟩ := of_bind performed
      obtain ⟨⟨found, between⟩, allocated, performed⟩ := of_bind performed
      refine ⟨found, between, ?_, ?_⟩
      · rw [Call.needed, show sizeT data.length = data.length from noWrap]
        exact allocated
      · cases found with
        | none =>
            cases performed
            refine ⟨rfl, ?_⟩
            intro same
            rw [returned, same, List.drop_length]
            rfl
        | some place =>
            obtain ⟨copied, copies, performed⟩ := of_bind performed
            cases performed
            refine ⟨copy_segments copies, ?_⟩
            intro same
            have owc : after.owc = between.owc := by
              rw [copy] at copies
              by_cases fits : between.covers place data.length = true
              · rw [if_pos fits] at copies
                cases copies
                rfl
              · rw [if_neg fits] at copies
                cases copies
            rw [returned, owc, same, List.drop_length]
            rfl
  | allocEx size cleanup =>
      obtain ⟨_, -, performed⟩ := of_bind performed
      obtain ⟨⟨found, between⟩, allocated, performed⟩ := of_bind performed
      refine ⟨found, between, allocated, ?_⟩
      cases found with
      | none =>
          cases performed
          refine ⟨rfl, ?_⟩
          intro same
          rw [returned, same, List.drop_length]
          rfl
      | some place =>
          dsimp only at performed
          by_cases covered : between.covers place layout.owcSize = true
          · rw [if_pos covered] at performed
            cases performed
            refine ⟨rfl, ?_⟩
            intro same
            rw [returned]
            dsimp only
            rw [same, List.drop_left]
            rfl
          · rw [if_neg covered] at performed
            cases performed

/-- The blocks of a call are aligned if its block and the record are. -/
theorem blocks_aligned_iff
    {call : Call} {place : Pointer} {offset : Nat}
    (bases : ∀ segment, alignment.value ∣ base segment)
    (offsetIs : place.offset = offset) :
    (∀ block ∈ call.blocks layout place, Aligned alignment base block) ↔
      alignment.value ∣ offset ∧ RoundRecord layout alignment call := by
  subst offsetIs
  have atBase (count : Nat) :
      Aligned alignment base { place with offset := count } ↔
        alignment.value ∣ count :=
    (Nat.dvd_add_right (bases place.segment))
  have here : Aligned alignment base place ↔ alignment.value ∣ place.offset :=
    atBase place.offset
  rw [Call.blocks, RoundRecord]
  by_cases registers : call.registers = true
  · rw [if_pos registers, List.forall_mem_cons, List.forall_mem_singleton,
      here, atBase]
    constructor
    · intro both
      exact ⟨both.1, fun _ => (Nat.dvd_add_right both.1).mp both.2⟩
    · intro both
      exact ⟨both.1, (Nat.dvd_add_right both.1).mpr (both.2 registers)⟩
  · rw [if_neg registers, List.forall_mem_singleton, here]
    constructor
    · intro aligned
      exact ⟨aligned, fun isTrue => absurd isTrue registers⟩
    · intro both
      exact both.1

/-- Wrapping around keeps the alignment. -/
theorem dvd_sizeT_iff (count : Nat) :
    alignment.value ∣ sizeT count ↔ alignment.value ∣ count :=
  Nat.dvd_mod_iff alignment.divides

/-- All sizes but the last one that a segment has served are multiples. -/
def RoundBehind (layout : Layout) (alignment : Alignment)
    (current : List Nat) : Prop :=
  current ≠ [] →
    alignment.value ∣ layout.headerSize ∧
      ∀ earlier ∈ current.dropLast, alignment.value ∣ earlier

/-- A sum of multiples. -/
theorem dvd_sum {sizes : List Nat}
    (round : ∀ size ∈ sizes, alignment.value ∣ size) :
    alignment.value ∣ sizes.sum := by
  induction sizes with
  | nil =>
      exact Nat.dvd_zero _
  | cons size sizes inductionHypothesis =>
      rw [List.sum_cons]
      obtain ⟨roundFirst, roundRest⟩ := List.forall_mem_cons.mp round
      exact Nat.dvd_add roundFirst (inductionHypothesis roundRest)

/-- The next block is aligned if the last size is a multiple as well. -/
theorem next_aligned_iff
    (notNil : current ≠ [])
    (behind : RoundBehind layout alignment current) :
    alignment.value ∣ sizeT (layout.headerSize + current.sum) ↔
      ∀ earlier ∈ current, alignment.value ∣ earlier := by
  obtain ⟨header, round⟩ := behind notNil
  obtain ⟨front, last, isCurrent⟩ :=
    (List.eq_nil_or_concat current).resolve_left notNil
  subst isCurrent
  rw [List.concat_eq_append, List.dropLast_concat] at round
  rw [dvd_sizeT_iff, Nat.dvd_add_right header, List.concat_eq_append,
    List.sum_append, List.sum_singleton, Nat.dvd_add_right (dvd_sum round),
    List.forall_mem_append, List.forall_mem_singleton]
  exact (and_iff_right round).symm

/-- What has been served before is not odd when the next block is aligned. -/
theorem RoundBehind.snoc
    (behind : RoundBehind layout alignment current)
    (notNil : current ≠ [])
    (round : ∀ earlier ∈ current, alignment.value ∣ earlier) (size : Nat) :
    RoundBehind layout alignment (current ++ [size]) := by
  intro _
  rw [List.dropLast_concat]
  exact ⟨(behind notNil).1, round⟩

end Calls

/-- The blocks of a run are aligned exactly if its sizes keep the alignment. -/
theorem performAll_aligned_iff
    {layout : Layout} {alignment : Alignment} {base : Nat → Nat}
    (bases : ∀ segment, alignment.value ∣ base segment)
    (calls : List (Call × Bool)) :
    ∀ {arena final : State} {current : List Nat} {places : List Pointer},
      Tracks layout arena current →
        RoundBehind layout alignment current →
          (∀ made ∈ calls, made.1.size < 2 ^ 64) →
            performAll layout arena calls = .ok (places, final) →
              ((∀ place ∈ places, Aligned alignment base place) ↔
                RoundFrom layout alignment calls current) := by
  induction calls with
  | nil =>
      intro arena final current places _ _ _ runs
      cases runs
      exact iff_of_true (fun place member => by cases member) trivial
  | cons made calls inductionHypothesis =>
      intro arena final current places tracks behind ranged runs
      obtain ⟨⟨result, after⟩, performed, runs⟩ := of_bind runs
      obtain ⟨⟨later, last⟩, goesOn, isEnd⟩ := of_bind runs
      cases isEnd
      have rangedRest :
          ∀ other ∈ calls, other.1.size < 2 ^ 64 := by
        intro other member
        exact ranged other (List.mem_cons_of_mem made member)
      obtain ⟨found, between, allocated, segments, blocks⟩ :=
        perform_returned (ranged made List.mem_cons_self) performed
      dsimp only at goesOn ⊢
      rw [List.forall_mem_append, RoundFrom]
      cases alloc_allocates tracks allocated with
      | served serves owc tracksNext =>
          have notNil := serves.1
          rw [if_pos serves, blocks owc, Option.toList_some,
            List.flatMap_singleton, blocks_aligned_iff bases rfl,
            next_aligned_iff notNil behind, and_assoc]
          apply and_congr_right
          intro round
          apply and_congr_right
          intro _
          exact inductionHypothesis (tracksNext.of_segments segments)
            (behind.snoc notNil round _) rangedRest goesOn
      | begun serves granted owc tracksNext =>
          rw [if_neg serves, if_pos granted, blocks owc, Option.toList_some,
            List.flatMap_singleton, blocks_aligned_iff bases rfl, and_assoc]
          apply and_congr_right
          intro header
          apply and_congr_right
          intro _
          apply inductionHypothesis (tracksNext.of_segments segments) _
            rangedRest goesOn
          intro _
          exact ⟨header, fun earlier member => by cases member⟩
      | refused serves denied =>
          have notGranted : ¬ made.2 = true := by
            rw [denied]
            exact Bool.false_ne_true
          rw [if_neg serves, if_neg notGranted, blocks rfl]
          refine (and_iff_right ?_).trans
            (inductionHypothesis (tracks.of_segments segments) behind
              rangedRest goesOn)
          intro place member
          cases member

/-- Nothing has been served yet. -/
theorem tracks_init (layout : Layout) (memory : Nat → Nat → UInt8) :
    Tracks layout (init memory) [] where
  none_iff := iff_of_true rfl rfl
  used := by
    intro segment isLast
    cases isLast

/--
Where `malloc` aligns its blocks, all blocks that an arena returns in a run are
aligned if and only if no request is served from a segment behind one of an
odd size, and the sizes of the header and of the records that are needed are
multiples of the alignment.
-/
theorem arena_aligned_iff
    {layout : Layout} {alignment : Alignment} {base : Nat → Nat}
    {memory : Nat → Nat → UInt8} {calls : List (Call × Bool)}
    {places : List Pointer} {final : State}
    (bases : ∀ segment, alignment.value ∣ base segment)
    (ranged : ∀ made ∈ calls, made.1.size < 2 ^ 64)
    (runs : performAll layout (init memory) calls = .ok (places, final)) :
    (∀ place ∈ places, Aligned alignment base place) ↔
      RoundFrom layout alignment calls [] :=
  performAll_aligned_iff bases calls (tracks_init layout memory)
    (fun notNil => absurd rfl notNil) ranged runs

/-- The alignment of `malloc` on a 64-bit machine. -/
def sixteen : Alignment where
  value := 16
  positive := by norm_num
  divides := by norm_num

/-- A header name of three bytes, and an item for it. -/
def nameAndItem : List (Call × Bool) :=
  [(.allocCopy (ascii "foo"), true), (.alloc 56, true)]

/-- Two items, in segments that begin at multiples of 4096. -/
theorem arena_aligned_iff_items :
    ∃ places final,
      performAll defaultLayout (init fun _ _ => 0)
          [(.alloc 48, true), (.alloc 48, true)] = .ok (places, final) ∧
        ((∀ place ∈ places,
            Aligned sixteen (fun segment => 4096 * segment) place) ↔
          RoundFrom defaultLayout sixteen
            [(.alloc 48, true), (.alloc 48, true)] []) := by
  refine ⟨_, _, rfl, arena_aligned_iff ?_ ?_ rfl⟩
  · intro segment
    exact (by norm_num : 16 ∣ 4096).mul_right segment
  · decide

/-- The item is put at an address that is not aligned. -/
theorem arena_unaligned :
    (∀ segment : Nat, sixteen.value ∣ 4096 * segment) ∧
      ∃ places final,
        performAll defaultLayout (init fun _ _ => 0) nameAndItem =
            .ok (places, final) ∧
          ¬ ∀ place ∈ places,
            Aligned sixteen (fun segment => 4096 * segment) place := by
  constructor
  · intro segment
    exact (by norm_num : 16 ∣ 4096).mul_right segment
  · refine ⟨_, _, rfl, ?_⟩
    decide

end Dfk.Arena
