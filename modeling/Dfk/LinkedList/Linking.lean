import Dfk.LinkedList.Representation

/-!
# Writing links

What the writes of an insertion and of an erasure have in common, whichever
branch does them, is `Spliced` and `Unlinked`.  All lists in a memory hold
disjoint sequences before and after them.
-/

namespace Dfk.LinkedList

open Chain

variable {ι κ : Type}

/-- The sequences that lists hold. -/
abbrev Sequences (ι κ : Type) := κ → List ι

/-- Every list holds its sequence, and no hook is in two of them. -/
structure Represents (memory : Memory ι κ) (sequences : Sequences ι κ) :
    Prop where
  holds : ∀ list, Holds memory list (sequences list)
  apart :
    ∀ list other, list ≠ other →
      List.Disjoint (sequences list) (sequences other)

/-- A list only depends on its header and its hooks. -/
theorem Holds.congr
    {memory memory' : Memory ι κ} {list : κ} {sequence : List ι}
    (holds : Holds memory list sequence)
    (sameList : memory'.lists list = memory.lists list)
    (sameLinks :
      ∀ hook ∈ sequence,
        memory'.next hook = memory.next hook ∧
          memory'.prev hook = memory.prev hook) :
    Holds memory' list sequence where
  linked := holds.linked.congr sameLinks
  noDuplicates := holds.noDuplicates
  head := by
    rw [sameList]
    exact holds.head
  tail := by
    rw [sameList]
    exact holds.tail
  size := by
    rw [sameList]
    exact holds.size

/-! ## Reading what was written -/

namespace Memory

variable {memory : Memory ι κ} {list other : κ} {hook query : ι}
variable {target pointer : Option ι}

section Lists

variable [DecidableEq κ]

@[simp] theorem setHead_next :
    (memory.setHead list pointer).next query = memory.next query :=
  rfl

@[simp] theorem setHead_prev :
    (memory.setHead list pointer).prev query = memory.prev query :=
  rfl

@[simp] theorem setHead_self :
    (memory.setHead list pointer).lists list =
      { memory.lists list with head := pointer } :=
  if_pos rfl

@[simp] theorem setHead_other
    (apart : other ≠ list) :
    (memory.setHead list pointer).lists other = memory.lists other :=
  if_neg apart

@[simp] theorem setTail_next :
    (memory.setTail list pointer).next query = memory.next query :=
  rfl

@[simp] theorem setTail_prev :
    (memory.setTail list pointer).prev query = memory.prev query :=
  rfl

@[simp] theorem setTail_self :
    (memory.setTail list pointer).lists list =
      { memory.lists list with tail := pointer } :=
  if_pos rfl

@[simp] theorem setTail_other
    (apart : other ≠ list) :
    (memory.setTail list pointer).lists other = memory.lists other :=
  if_neg apart

@[simp] theorem resize_next {change : Nat → Nat} :
    (memory.resize list change).next query = memory.next query :=
  rfl

@[simp] theorem resize_prev {change : Nat → Nat} :
    (memory.resize list change).prev query = memory.prev query :=
  rfl

@[simp] theorem resize_self {change : Nat → Nat} :
    (memory.resize list change).lists list =
      { memory.lists list with
        size := (memory.lists list).size.map change } :=
  if_pos rfl

@[simp] theorem resize_other {change : Nat → Nat}
    (apart : other ≠ list) :
    (memory.resize list change).lists other = memory.lists other :=
  if_neg apart

@[simp] theorem setHeadIf_next {condition : Bool} :
    (memory.setHeadIf condition list pointer).next query =
      memory.next query := by
  cases condition <;> rfl

@[simp] theorem setHeadIf_prev {condition : Bool} :
    (memory.setHeadIf condition list pointer).prev query =
      memory.prev query := by
  cases condition <;> rfl

@[simp] theorem setHeadIf_self {condition : Bool} :
    (memory.setHeadIf condition list pointer).lists list =
      { memory.lists list with
        head := if condition then pointer else (memory.lists list).head } := by
  cases condition with
  | false => rfl
  | true => exact setHead_self

@[simp] theorem setHeadIf_other {condition : Bool}
    (apart : other ≠ list) :
    (memory.setHeadIf condition list pointer).lists other =
      memory.lists other := by
  cases condition with
  | false => rfl
  | true => exact setHead_other apart

@[simp] theorem setTailIf_next {condition : Bool} :
    (memory.setTailIf condition list pointer).next query =
      memory.next query := by
  cases condition <;> rfl

@[simp] theorem setTailIf_prev {condition : Bool} :
    (memory.setTailIf condition list pointer).prev query =
      memory.prev query := by
  cases condition <;> rfl

@[simp] theorem setTailIf_self {condition : Bool} :
    (memory.setTailIf condition list pointer).lists list =
      { memory.lists list with
        tail := if condition then pointer else (memory.lists list).tail } := by
  cases condition with
  | false => rfl
  | true => exact setTail_self

@[simp] theorem setTailIf_other {condition : Bool}
    (apart : other ≠ list) :
    (memory.setTailIf condition list pointer).lists other =
      memory.lists other := by
  cases condition with
  | false => rfl
  | true => exact setTail_other apart

end Lists

section Hooks

variable [DecidableEq ι]

@[simp] theorem setNext_next :
    (memory.setNext hook pointer).next query =
      if query = hook then pointer else memory.next query := by
  by_cases same : query = hook
  · simp [next, setNext, modify, same]
  · simp [next, setNext, modify, same]

@[simp] theorem setNext_prev :
    (memory.setNext hook pointer).prev query = memory.prev query := by
  by_cases same : query = hook
  · simp [prev, setNext, modify, same]
  · simp [prev, setNext, modify, same]

@[simp] theorem setPrev_prev :
    (memory.setPrev hook pointer).prev query =
      if query = hook then pointer else memory.prev query := by
  by_cases same : query = hook
  · simp [prev, setPrev, modify, same]
  · simp [prev, setPrev, modify, same]

@[simp] theorem setPrev_next :
    (memory.setPrev hook pointer).next query = memory.next query := by
  by_cases same : query = hook
  · simp [next, setPrev, modify, same]
  · simp [next, setPrev, modify, same]

@[simp] theorem setNext_lists :
    (memory.setNext hook pointer).lists = memory.lists :=
  rfl

@[simp] theorem setPrev_lists :
    (memory.setPrev hook pointer).lists = memory.lists :=
  rfl

@[simp] theorem setNextOf_next :
    (memory.setNextOf target pointer).next query =
      if target = some query then pointer else memory.next query := by
  cases target with
  | none =>
      simp [setNextOf]
  | some hook =>
      simp [setNextOf, eq_comm]

@[simp] theorem setNextOf_prev :
    (memory.setNextOf target pointer).prev query = memory.prev query := by
  cases target <;> simp [setNextOf]

@[simp] theorem setPrevOf_prev :
    (memory.setPrevOf target pointer).prev query =
      if target = some query then pointer else memory.prev query := by
  cases target with
  | none =>
      simp [setPrevOf]
  | some hook =>
      simp [setPrevOf, eq_comm]

@[simp] theorem setPrevOf_next :
    (memory.setPrevOf target pointer).next query = memory.next query := by
  cases target <;> simp [setPrevOf]

@[simp] theorem setNextOf_lists :
    (memory.setNextOf target pointer).lists = memory.lists := by
  cases target <;> rfl

@[simp] theorem setPrevOf_lists :
    (memory.setPrevOf target pointer).lists = memory.lists := by
  cases target <;> rfl

end Hooks

end Memory

/-- A sequence that is replaced stays apart from the others. -/
theorem Represents.apart_update [DecidableEq κ]
    {memory : Memory ι κ} {sequences : Sequences ι κ}
    {list : κ} {sequence : List ι}
    (represents : Represents memory sequences)
    (elsewhere :
      ∀ other, other ≠ list → List.Disjoint sequence (sequences other))
    (first second : κ)
    (differ : first ≠ second) :
    List.Disjoint (Function.update sequences list sequence first)
      (Function.update sequences list sequence second) := by
  by_cases firstIs : first = list
  · subst firstIs
    rw [Function.update_self, Function.update_of_ne differ.symm]
    exact elsewhere second differ.symm
  · rw [Function.update_of_ne firstIs]
    by_cases secondIs : second = list
    · subst secondIs
      rw [Function.update_self]
      exact fun query member memberList =>
        elsewhere first firstIs memberList member
    · rw [Function.update_of_ne secondIs]
      exact represents.apart first second differ

/-! ## Insertion -/

/-- A hook has been put between two parts of the sequence of a list. -/
structure Spliced [DecidableEq ι] (memory : Memory ι κ) (list : κ) (before : List ι)
    (hook : ι) (after : List ι) (memory' : Memory ι κ) : Prop where
  next :
    ∀ query,
      memory'.next query =
        if query = hook then after.head?
        else if before.getLast? = some query then some hook
        else memory.next query
  prev :
    ∀ query,
      memory'.prev query =
        if query = hook then before.getLast?
        else if after.head? = some query then some hook
        else memory.prev query
  others : ∀ other, other ≠ list → memory'.lists other = memory.lists other
  list :
    memory'.lists list =
      { head := (before ++ hook :: after).head?
        tail := (before ++ hook :: after).getLast?
        size := (memory.lists list).size.map (· + 1) }

theorem Represents.splice [DecidableEq ι] [DecidableEq κ]
    {memory memory' : Memory ι κ} {sequences : Sequences ι κ}
    {list : κ} {before after : List ι} {hook : ι}
    (represents : Represents memory sequences)
    (shape : sequences list = before ++ after)
    (isNew : ∀ other, hook ∉ sequences other)
    (spliced : Spliced memory list before hook after memory') :
    Represents memory'
      (Function.update sequences list (before ++ hook :: after)) := by
  have holds := represents.holds list
  rw [shape] at holds
  have newHere : hook ∉ before ++ after := by
    rw [← shape]
    exact isNew list
  have apart (other : ι) (member : other ∈ before ++ after) : other ≠ hook := by
    rintro rfl
    exact newHere member
  have isLast {other : ι} (last : before.getLast? = some other) :
      other ∈ before ++ after :=
    List.mem_append_left _ (List.mem_of_getLast? last)
  have isHead {other : ι} (head : after.head? = some other) :
      other ∈ before ++ after :=
    List.mem_append_right _ (List.mem_of_head? head)
  refine ⟨fun other => ?_, fun first second differ => ?_⟩
  · by_cases same : other = list
    · subst same
      rw [Function.update_self]
      refine ⟨?_, ?_, ?_, ?_, ?_⟩
      · apply holds.linked.splice holds.noDuplicates
        · rw [spliced.next, if_pos rfl]
        · rw [spliced.prev, if_pos rfl]
        · intro query last
          rw [spliced.next, if_neg (apart query (isLast last)), if_pos last]
        · intro query head
          rw [spliced.prev, if_neg (apart query (isHead head)), if_pos head]
        · intro query member notLast
          rw [spliced.next, if_neg (apart query member), if_neg notLast]
        · intro query member notHead
          rw [spliced.prev, if_neg (apart query member), if_neg notHead]
      · rw [List.nodup_middle, List.nodup_cons]
        exact ⟨newHere, holds.noDuplicates⟩
      · rw [spliced.list]
      · rw [spliced.list]
      · intro size isSize
        rw [spliced.list] at isSize
        obtain ⟨old, isOld, rfl⟩ := Option.map_eq_some_iff.mp isSize
        rw [holds.size old isOld]
        simp only [List.length_append, List.length_cons]
        omega
    · rw [Function.update_of_ne same]
      apply (represents.holds other).congr (spliced.others other same)
      intro query member
      have notHook : query ≠ hook := by
        rintro rfl
        exact isNew other member
      have elsewhere : query ∉ before ++ after := by
        rw [← shape]
        exact represents.apart other list same member
      rw [spliced.next, spliced.prev, if_neg notHook, if_neg notHook,
        if_neg fun last => elsewhere (isLast last),
        if_neg fun head => elsewhere (isHead head)]
      exact ⟨rfl, rfl⟩
  · have elsewhere (other : κ) (differs : other ≠ list) :
        List.Disjoint (before ++ hook :: after) (sequences other) := by
      intro query member memberOther
      rcases List.mem_append.mp member with inBefore | inRest
      · apply represents.apart list other differs.symm _ memberOther
        rw [shape]
        exact List.mem_append_left _ inBefore
      · rcases List.mem_cons.mp inRest with rfl | inAfter
        · exact isNew other memberOther
        · apply represents.apart list other differs.symm _ memberOther
          rw [shape]
          exact List.mem_append_right _ inAfter
    exact represents.apart_update elsewhere first second differ

/-! ## Erasure -/

/-- A hook between two parts of the sequence of a list has been taken out. -/
structure Unlinked (memory : Memory ι κ) (list : κ) (before after : List ι)
    (memory' : Memory ι κ) : Prop where
  ends :
    ∀ query,
      before.getLast? = some query → memory'.next query = after.head?
  starts :
    ∀ query,
      after.head? = some query → memory'.prev query = before.getLast?
  sameNext :
    ∀ query,
      before.getLast? ≠ some query → memory'.next query = memory.next query
  samePrev :
    ∀ query,
      after.head? ≠ some query → memory'.prev query = memory.prev query
  others : ∀ other, other ≠ list → memory'.lists other = memory.lists other
  list :
    memory'.lists list =
      { head := (before ++ after).head?
        tail := (before ++ after).getLast?
        size := (memory.lists list).size.map (· - 1) }

theorem Represents.unlink [DecidableEq ι] [DecidableEq κ]
    {memory memory' : Memory ι κ} {sequences : Sequences ι κ}
    {list : κ} {before after : List ι} {hook : ι}
    (represents : Represents memory sequences)
    (shape : sequences list = before ++ hook :: after)
    (unlinked : Unlinked memory list before after memory') :
    Represents memory'
      (Function.update sequences list (before ++ after)) := by
  have holds := represents.holds list
  rw [shape] at holds
  have noDuplicates : (before ++ after).Nodup :=
    (List.nodup_cons.mp (List.nodup_middle.mp holds.noDuplicates)).2
  have included (query : ι) (member : query ∈ before ++ after) :
      query ∈ sequences list := by
    rw [shape]
    rcases List.mem_append.mp member with inBefore | inAfter
    · exact List.mem_append_left _ inBefore
    · exact List.mem_append_right _ (List.mem_cons_of_mem _ inAfter)
  refine ⟨fun other => ?_, fun first second differ => ?_⟩
  · by_cases same : other = list
    · subst same
      rw [Function.update_self]
      refine ⟨?_, noDuplicates, ?_, ?_, ?_⟩
      · exact holds.linked.unlink noDuplicates unlinked.ends unlinked.starts
          (fun query _ => unlinked.sameNext query)
          fun query _ => unlinked.samePrev query
      · rw [unlinked.list]
      · rw [unlinked.list]
      · intro size isSize
        rw [unlinked.list] at isSize
        obtain ⟨old, isOld, rfl⟩ := Option.map_eq_some_iff.mp isSize
        rw [holds.size old isOld]
        simp only [List.length_append, List.length_cons]
        omega
    · rw [Function.update_of_ne same]
      apply (represents.holds other).congr (unlinked.others other same)
      intro query member
      have elsewhere : query ∉ before ++ after := by
        intro here
        exact represents.apart other list same member (included query here)
      have notLast : before.getLast? ≠ some query := by
        intro last
        exact elsewhere
          (List.mem_append_left _ (List.mem_of_getLast? last))
      have notHead : after.head? ≠ some query := by
        intro head
        exact elsewhere
          (List.mem_append_right _ (List.mem_of_head? head))
      exact ⟨unlinked.sameNext query notLast, unlinked.samePrev query notHead⟩
  · have elsewhere (other : κ) (differs : other ≠ list) :
        List.Disjoint (before ++ after) (sequences other) := by
      intro query member memberOther
      exact represents.apart list other differs.symm (included query member)
        memberOther
    exact represents.apart_update elsewhere first second differ

/-! ## Headers -/

section Sources

variable [DecidableEq κ] {sequences : Sequences ι κ}
variable {list src dst lhs rhs first second other : κ}

/-- The list whose header a list has after `dfk_list_clear`. -/
def clearedFrom (list query : κ) : Option κ :=
  if query = list then none else some query

/-- The list whose header a list has after `dfk_list_move`. -/
def movedFrom (src dst query : κ) : Option κ :=
  if query = src then none
  else if query = dst then some src
  else some query

/-- The list whose header a list has after `dfk_list_swap`. -/
def swappedFrom (lhs rhs query : κ) : Option κ :=
  if query = rhs then some lhs
  else if query = lhs then some rhs
  else some query

theorem elim_clearedFrom :
    (fun query => (clearedFrom list query).elim [] sequences) =
      Function.update sequences list [] := by
  funext query
  by_cases same : query = list
  · subst same
    simp [clearedFrom]
  · simp [clearedFrom, same]

theorem elim_movedFrom :
    (fun query => (movedFrom src dst query).elim [] sequences) =
      Function.update (Function.update sequences dst (sequences src))
        src [] := by
  funext query
  by_cases isSrc : query = src
  · subst isSrc
    simp [movedFrom]
  · by_cases isDst : query = dst
    · subst isDst
      simp [movedFrom, isSrc]
    · simp [movedFrom, isSrc, isDst]

theorem elim_swappedFrom :
    (fun query => (swappedFrom lhs rhs query).elim [] sequences) =
      Function.update (Function.update sequences lhs (sequences rhs))
        rhs (sequences lhs) := by
  funext query
  by_cases isRhs : query = rhs
  · subst isRhs
    simp [swappedFrom]
  · by_cases isLhs : query = lhs
    · subst isLhs
      simp [swappedFrom, isRhs]
    · simp [swappedFrom, isRhs, isLhs]

theorem clearedFrom_injective
    (firstFrom : clearedFrom list first = some other)
    (secondFrom : clearedFrom list second = some other) :
    first = second := by
  rw [clearedFrom] at firstFrom secondFrom
  split_ifs at firstFrom secondFrom
  cases firstFrom
  cases secondFrom
  rfl

theorem movedFrom_injective
    (firstFrom : movedFrom src dst first = some other)
    (secondFrom : movedFrom src dst second = some other) :
    first = second := by
  rw [movedFrom] at firstFrom secondFrom
  split_ifs at firstFrom secondFrom <;> grind

theorem swappedFrom_injective
    (firstFrom : swappedFrom lhs rhs first = some other)
    (secondFrom : swappedFrom lhs rhs second = some other) :
    first = second := by
  rw [swappedFrom] at firstFrom secondFrom
  split_ifs at firstFrom secondFrom <;> grind

end Sources

/-- Headers that are moved between lists take the sequences with them. -/
theorem Represents.rearrange
    {memory memory' : Memory ι κ} {sequences : Sequences ι κ}
    (represents : Represents memory sequences)
    (source : κ → Option κ)
    (distinct :
      ∀ first second list,
        source first = some list → source second = some list →
          first = second)
    (sameHooks : memory'.hooks = memory.hooks)
    (moved :
      ∀ list source',
        source list = some source' →
          memory'.lists list = memory.lists source')
    (emptied :
      ∀ list,
        source list = none →
          (memory'.lists list).head = none ∧
            (memory'.lists list).tail = none ∧
            ∀ size ∈ (memory'.lists list).size, size = 0) :
    Represents memory' fun list => (source list).elim [] sequences := by
  have sameNext : memory'.next = memory.next := by
    funext hook
    rw [Memory.next, Memory.next, sameHooks]
  have samePrev : memory'.prev = memory.prev := by
    funext hook
    rw [Memory.prev, Memory.prev, sameHooks]
  refine ⟨fun list => ?_, fun first second differ => ?_⟩
  · cases from' : source list with
    | none =>
        obtain ⟨head, tail, size⟩ := emptied list from'
        exact ⟨trivial, List.nodup_nil, head, tail, size⟩
    | some other =>
        have holds := represents.holds other
        have header := moved list other from'
        refine ⟨?_, holds.noDuplicates, ?_, ?_, ?_⟩
        · rw [sameNext, samePrev]
          exact holds.linked
        · rw [header]
          exact holds.head
        · rw [header]
          exact holds.tail
        · rw [header]
          exact holds.size
  · cases firstFrom : source first with
    | none =>
        exact List.disjoint_nil_left _
    | some list =>
        cases secondFrom : source second with
        | none =>
            exact List.disjoint_nil_right _
        | some other =>
            apply represents.apart list other
            rintro rfl
            exact differ (distinct first second list firstFrom secondFrom)

end Dfk.LinkedList
