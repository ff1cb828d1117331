import Dfk.LinkedList.MemoryOptimized.Linking

/-!
# Edited lists with one pointer in a hook

An insertion splices its hook in.  An erasure unlinks it, as long as its
iterator knows the element before a hook in the middle.
-/

namespace Dfk.LinkedList.MemoryOptimized

open XorChain

variable {κ : Type} {width : Nat}

/-! ## Reading what was written -/

namespace Memory

variable {memory : Memory width κ} {hook query : Address width}
variable {target pointer : Pointer width}

@[simp] theorem setP_p :
    (memory.setP hook pointer).p query =
      if query = hook then pointer else memory.p query := by
  by_cases same : query = hook <;> simp [p, setP, same]

@[simp] theorem setP_lists :
    (memory.setP hook pointer).lists = memory.lists :=
  rfl

@[simp] theorem changePOf_p {change : Pointer width → Pointer width} :
    (memory.changePOf target change).p query =
      if target = some query then change (memory.p query)
      else memory.p query := by
  cases target with
  | none =>
      rfl
  | some hook =>
      by_cases same : query = hook
      · subst same
        simp [changePOf]
      · simp [changePOf, same, Ne.symm same]

@[simp] theorem changePOf_lists {change : Pointer width → Pointer width} :
    (memory.changePOf target change).lists = memory.lists := by
  cases target <;> rfl

variable [DecidableEq κ] {list other : κ} {condition : Bool}
variable {change : Nat → Nat}

@[simp] theorem setHead_p :
    (memory.setHead list pointer).p query = memory.p query :=
  rfl

@[simp] theorem setHead_lists :
    (memory.setHead list pointer).lists other =
      if other = list then { memory.lists list with head := pointer }
      else memory.lists other :=
  rfl

@[simp] theorem setTail_p :
    (memory.setTail list pointer).p query = memory.p query :=
  rfl

@[simp] theorem setTail_lists :
    (memory.setTail list pointer).lists other =
      if other = list then { memory.lists list with tail := pointer }
      else memory.lists other :=
  rfl

@[simp] theorem resize_p :
    (memory.resize list change).p query = memory.p query :=
  rfl

@[simp] theorem resize_lists :
    (memory.resize list change).lists other =
      if other = list then
        { memory.lists list with size := (memory.lists list).size.map change }
      else memory.lists other :=
  rfl

@[simp] theorem setHeadIf_p :
    (memory.setHeadIf condition list pointer).p query = memory.p query := by
  cases condition <;> rfl

@[simp] theorem setHeadIf_lists :
    (memory.setHeadIf condition list pointer).lists other =
      if other = list then
        { memory.lists list with
          head := if condition then pointer else (memory.lists list).head }
      else memory.lists other := by
  cases condition with
  | true => rfl
  | false =>
      by_cases same : other = list
      · subst same
        simp [setHeadIf]
      · simp [setHeadIf, same]

@[simp] theorem setTailIf_p :
    (memory.setTailIf condition list pointer).p query = memory.p query := by
  cases condition <;> rfl

@[simp] theorem setTailIf_lists :
    (memory.setTailIf condition list pointer).lists other =
      if other = list then
        { memory.lists list with
          tail := if condition then pointer else (memory.lists list).tail }
      else memory.lists other := by
  cases condition with
  | true => rfl
  | false =>
      by_cases same : other = list
      · subst same
        simp [setTailIf]
      · simp [setTailIf, same]

end Memory

/-! ## Insertions -/

variable [DecidableEq κ] {memory : Memory width κ} {list : κ}
variable {sequence before after : List (Address width)}
variable {hook value : Address width}

/-- What `dfk_list_append` writes. -/
theorem Holds.linkLast
    (holds : Holds memory list sequence)
    (isNew : hook ∉ sequence) :
    Spliced memory list sequence hook [] (linkLast memory list hook) := by
  have head := holds.head
  have tail := holds.tail
  have notLast : sequence.getLast? ≠ some hook := fun last =>
    isNew (List.mem_of_getLast? last)
  rw [MemoryOptimized.linkLast]
  refine ⟨?_, fun query isLast => ?_, nofun, fun query isOther notLast _ => ?_,
    fun other differs => ?_, ?_⟩
  · simp [tail, notLast]
  · have isOther : query ≠ hook := by
      rintro rfl
      exact notLast isLast
    simp [tail, isLast, isOther, ptrXor3]
  · simp [tail, notLast, isOther]
  · simp [differs]
  · cases sequence with
    | nil => simp [head]
    | cons first rest =>
        simp [head, List.getLast?_cons, List.getLast?_append]

/-- What `dfk_list_prepend` writes. -/
theorem Holds.linkFirst
    (holds : Holds memory list sequence)
    (isNew : hook ∉ sequence) :
    Spliced memory list [] hook sequence (linkFirst memory list hook) := by
  have head := holds.head
  have tail := holds.tail
  have notFirst : sequence.head? ≠ some hook := fun first =>
    isNew (List.mem_of_head? first)
  rw [MemoryOptimized.linkFirst]
  refine ⟨?_, nofun, fun query isFirst => ?_, fun query isOther _ notFirst => ?_,
    fun other differs => ?_, ?_⟩
  · simp [head, notFirst]
  · have isOther : query ≠ hook := by
      rintro rfl
      exact notFirst isFirst
    simp [head, isFirst, isOther, ptrXor3]
  · simp [head, notFirst, isOther]
  · simp [differs]
  · cases sequence with
    | nil => simp [tail]
    | cons first rest => simp [tail, List.getLast?_cons]

omit [DecidableEq κ] in
/-- The node before a place is not the one behind it, and neither is new. -/
theorem Holds.apart
    (holds : Holds memory list (before ++ after))
    (isNew : hook ∉ before ++ after) :
    before.getLast? ≠ some hook ∧ after.head? ≠ some hook ∧
      ∀ query, before.getLast? = some query → after.head? ≠ some query := by
  refine ⟨fun isLast => ?_, fun isFirst => ?_, fun query isLast isFirst => ?_⟩
  · exact isNew (List.mem_append_left _ (List.mem_of_getLast? isLast))
  · exact isNew (List.mem_append_right _ (List.mem_of_head? isFirst))
  · exact List.disjoint_of_nodup_append holds.noDuplicates
      (List.mem_of_getLast? isLast) (List.mem_of_head? isFirst)

omit [DecidableEq κ] in
/-- The header of a list after an insertion. -/
theorem Holds.header_inserted
    (holds : Holds memory list (before ++ after)) :
    { head :=
        if before.getLast?.isNone then some hook
        else (memory.lists list).head
      tail :=
        if after.head?.isNone then some hook
        else (memory.lists list).tail
      size := (memory.lists list).size.map (· + 1) } =
      { head := (before ++ hook :: after).head?
        tail := (before ++ hook :: after).getLast?
        size := (memory.lists list).size.map (· + 1) : ListT (Address width) } := by
  rw [holds.head, holds.tail]
  cases before with
  | nil =>
      cases after with
      | nil => simp
      | cons next rest => simp [List.getLast?_cons]
  | cons first front =>
      cases after with
      | nil => simp [List.getLast?_cons, List.getLast?_append]
      | cons next rest =>
          simp [List.getLast?_cons, List.getLast?_append]

/-- What `dfk_list_insert` writes at a position between two parts. -/
theorem Holds.linkBefore
    {position : It width}
    (holds : Holds memory list (before ++ after))
    (isNew : hook ∉ before ++ after)
    (isValue : position.value = after.head?)
    (isPrev : after ≠ [] → position.prev = before.getLast?) :
    Spliced memory list before hook after
      (linkBefore memory list hook position) := by
  obtain ⟨lastIsOld, firstIsOld, apart⟩ := holds.apart isNew
  have isBefore :
      (if position.value.isSome then position.prev
        else (memory.lists list).tail) =
        before.getLast? := by
    cases after with
    | nil =>
        rw [isValue, holds.tail, List.append_nil]
        rfl
    | cons next rest =>
        rw [isValue, isPrev (List.cons_ne_nil next rest)]
        rfl
  rw [MemoryOptimized.linkBefore, isBefore, isValue]
  refine ⟨?_, fun query isLast => ?_, fun query isFirst => ?_,
    fun query isOther notLast notFirst => ?_, fun other differs => ?_, ?_⟩
  · simp
  · have isOther : query ≠ hook := by
      rintro rfl
      exact lastIsOld isLast
    simp [isLast, isOther, apart query isLast]
  · have isOther : query ≠ hook := by
      rintro rfl
      exact firstIsOld isFirst
    have notLast : before.getLast? ≠ some query := fun isLast =>
      apart query isLast isFirst
    simp [isFirst, isOther, notLast]
  · simp [isOther, notLast, notFirst]
  · simp [differs]
  · rw [← holds.header_inserted]
    simp

/-- What `dfk_list_rinsert` writes at a position between two parts. -/
theorem Holds.linkBehind
    {position : It width}
    (holds : Holds memory list (before ++ after))
    (isNew : hook ∉ before ++ after)
    (isValue : position.value = before.getLast?)
    (isPrev : before ≠ [] → position.prev = after.head?) :
    Spliced memory list before hook after
      (linkBehind memory list hook position) := by
  obtain ⟨lastIsOld, firstIsOld, apart⟩ := holds.apart isNew
  have isBefore :
      (if position.value.isSome then position.prev
        else if (memory.lists list).tail.isSome then
          (memory.lists list).head
        else none) =
        after.head? := by
    rcases List.eq_nil_or_concat before with rfl | ⟨front, last, rfl⟩
    · rw [isValue, holds.head, holds.tail, List.nil_append]
      cases after with
      | nil => rfl
      | cons next rest => simp [List.getLast?_cons]
    · rw [List.concat_eq_append] at isValue isPrev
      rw [isValue, List.getLast?_concat, isPrev (by simp)]
      rfl
  rw [MemoryOptimized.linkBehind, isBefore, isValue]
  refine ⟨?_, fun query isLast => ?_, fun query isFirst => ?_,
    fun query isOther notLast notFirst => ?_, fun other differs => ?_, ?_⟩
  · simp [combine_comm]
  · have isOther : query ≠ hook := by
      rintro rfl
      exact lastIsOld isLast
    simp [isLast, isOther, apart query isLast, combine_right_comm]
  · have isOther : query ≠ hook := by
      rintro rfl
      exact firstIsOld isFirst
    have notLast : before.getLast? ≠ some query := fun isLast =>
      apart query isLast isFirst
    simp [isFirst, isOther, notLast, combine_right_comm]
  · simp [isOther, notLast, notFirst]
  · simp [differs]
  · rw [← holds.header_inserted]
    simp

/-! ## Erasures -/

/-- The hook of a list with one element is unlinked. -/
theorem Holds.unlink_only
    {it : It width}
    (holds : Holds memory list [hook])
    (isValue : it.value = some hook) :
    ∃ written,
      unlink memory list it = .ok written ∧
        Unlinked memory list [] hook [] (written.resize list (· - 1)) := by
  have isHead : (memory.lists list).head = some hook := holds.head
  have isTail : (memory.lists list).tail = some hook := holds.tail
  rw [MemoryOptimized.unlink, isHead, isTail, isValue, if_pos rfl,
    check_pos rfl, ok_bind]
  refine ⟨_, rfl, nofun, nofun, fun _ _ _ => rfl, fun other differs => ?_, ?_⟩
  · simp [differs]
  · simp

/-- The first hook is unlinked. -/
theorem Holds.unlink_first
    {it : It width} {next : Address width}
    (holds : Holds memory list (hook :: next :: after))
    (isValue : it.value = some hook) :
    ∃ written,
      MemoryOptimized.unlink memory list it = .ok written ∧
        Unlinked memory list [] hook (next :: after)
          (written.resize list (· - 1)) := by
  obtain ⟨last, isLast⟩ : ∃ last, (next :: after).getLast? = some last := by
    rw [List.getLast?_cons]
    exact ⟨_, rfl⟩
  have isHead : (memory.lists list).head = some hook := holds.head
  have isTail : (memory.lists list).tail = some last := by
    rw [holds.tail, List.getLast?_cons_cons, isLast]
  have isNext : memory.p hook = some next :=
    (holds.threaded [] hook (next :: after) rfl).trans (null_combine _)
  have several : ¬ some hook = some last := by
    rintro ⟨⟩
    exact (List.nodup_cons.mp holds.noDuplicates).1
      (List.mem_of_getLast? isLast)
  rw [MemoryOptimized.unlink, isHead, isTail, isValue, if_neg several,
    if_pos rfl, deref_some, ok_bind, isNext, deref_some, ok_bind]
  refine ⟨_, rfl, nofun, fun query isFirst => ?_, fun query _ notFirst => ?_,
    fun other differs => ?_, ?_⟩
  · cases isFirst
    simp [ptrXor3]
  · have differs : query ≠ next := fun same =>
      notFirst (congrArg some same.symm)
    simp [differs]
  · simp [differs]
  · simp [isTail, isLast]

omit [DecidableEq κ] in
/-- A hook behind others is not the head. -/
theorem Holds.head_before
    {front : List (Address width)} {previous : Address width}
    (holds : Holds memory list (front ++ [previous] ++ hook :: after)) :
    ∃ first ∈ front ++ [previous],
      (memory.lists list).head = some first ∧
        (front ++ [previous]).head? = some first ∧ first ≠ hook := by
  obtain ⟨first, isFirst⟩ : ∃ first, (front ++ [previous]).head? = some first := by
    rw [List.head?_append, List.head?_cons, Option.or_some]
    exact ⟨_, rfl⟩
  have member := List.mem_of_head? isFirst
  have isHead : (memory.lists list).head = some first := by
    rw [holds.head, List.head?_append, isFirst]
    rfl
  refine ⟨first, member, isHead, isFirst, ?_⟩
  rintro rfl
  exact List.disjoint_of_nodup_append holds.noDuplicates member
    (List.mem_cons_self ..)

/-- The last hook is unlinked. -/
theorem Holds.unlink_last
    {it : It width} {front : List (Address width)} {previous : Address width}
    (holds : Holds memory list (front ++ [previous] ++ [hook]))
    (isValue : it.value = some hook) :
    ∃ written,
      MemoryOptimized.unlink memory list it = .ok written ∧
        Unlinked memory list (front ++ [previous]) hook []
          (written.resize list (· - 1)) := by
  obtain ⟨first, -, isHead, headBefore, notHook⟩ := holds.head_before
  have isPrevious : (front ++ [previous]).getLast? = some previous :=
    List.getLast?_concat
  have isTail : (memory.lists list).tail = some hook := by
    rw [holds.tail, List.getLast?_concat]
  have isPrev : memory.p hook = some previous := by
    rw [holds.threaded _ hook [] rfl, isPrevious]
    exact combine_null _
  have several : ¬ some first = some hook := fun same =>
    notHook (Option.some.inj same)
  rw [MemoryOptimized.unlink, isHead, isTail, isValue, if_neg several,
    if_neg (Ne.symm several), if_pos rfl, deref_some, ok_bind, isPrev,
    deref_some, ok_bind]
  refine ⟨_, rfl, fun query isLast => ?_, nofun, fun query notLast _ => ?_,
    fun other differs => ?_, ?_⟩
  · rw [isPrevious] at isLast
    cases isLast
    simp [ptrXor3]
  · have differs : query ≠ previous := fun same =>
      notLast (by rw [isPrevious, same])
    simp [differs]
  · simp [differs]
  · rw [List.append_nil, headBefore, isPrevious]
    simp [isHead]

omit [DecidableEq κ] in
/-- A hook in the middle of a list is at neither end. -/
theorem Holds.middle
    {front : List (Address width)} {previous next : Address width}
    (holds : Holds memory list (front ++ [previous] ++ hook :: next :: after)) :
    ∃ first last,
      (memory.lists list).head = some first ∧
        (memory.lists list).tail = some last ∧
        (front ++ [previous]).head? = some first ∧
        (next :: after).getLast? = some last ∧
        first ≠ last ∧ hook ≠ first ∧ hook ≠ last := by
  obtain ⟨first, firstInside, isHead, headBefore, notHead⟩ :=
    holds.head_before
  obtain ⟨last, isLast⟩ : ∃ last, (next :: after).getLast? = some last := by
    rw [List.getLast?_cons]
    exact ⟨_, rfl⟩
  have lastInside : last ∈ next :: after := List.mem_of_getLast? isLast
  have noDuplicates := List.nodup_middle.mp holds.noDuplicates
  have isTail : (memory.lists list).tail = some last := by
    rw [holds.tail, List.getLast?_append, List.getLast?_cons_cons, isLast,
      Option.some_or]
  refine ⟨first, last, isHead, isTail, headBefore, isLast, ?_, notHead.symm, ?_⟩
  · rintro rfl
    exact List.disjoint_of_nodup_append (List.nodup_cons.mp noDuplicates).2
      firstInside lastInside
  · rintro rfl
    exact (List.nodup_cons.mp noDuplicates).1
      (List.mem_append_right _ lastInside)

/-- A hook in the middle is unlinked, if the iterator knows what is before. -/
theorem Holds.unlink_middle
    {it : It width} {front : List (Address width)}
    {previous next : Address width}
    (holds : Holds memory list (front ++ [previous] ++ hook :: next :: after))
    (isValue : it.value = some hook)
    (isPrev : it.prev = some previous) :
    ∃ written,
      MemoryOptimized.unlink memory list it = .ok written ∧
        Unlinked memory list (front ++ [previous]) hook (next :: after)
          (written.resize list (· - 1)) := by
  obtain ⟨first, last, isHead, isTail, headBefore, isLast, several, notFirst,
    notLast⟩ := holds.middle
  have isPrevious : (front ++ [previous]).getLast? = some previous :=
    List.getLast?_concat
  have isNext :
      ptrXor (memory.p hook) (some previous) = some next := by
    rw [holds.threaded _ hook _ rfl, isPrevious, List.head?_cons, ptrXor,
      combine_comm, combine_cancel]
  have distinct : previous ≠ next := by
    rintro rfl
    exact List.disjoint_of_nodup_append
      (List.nodup_cons.mp (List.nodup_middle.mp holds.noDuplicates)).2
      (List.mem_append_right _ (List.mem_singleton_self _))
      (List.mem_cons_self ..)
  rw [MemoryOptimized.unlink, isHead, isTail, isValue, isPrev,
    if_neg (mt Option.some.inj several), if_neg (mt Option.some.inj notFirst),
    if_neg (mt Option.some.inj notLast), deref_some, ok_bind,
    isNext, check_pos (Option.some_ne_none next), ok_bind,
    check_pos (Option.some_ne_none previous), ok_bind, deref_some, ok_bind,
    deref_some, ok_bind]
  refine ⟨_, rfl, fun query isEnd => ?_, fun query isStart => ?_,
    fun query notEnd notStart => ?_, fun other differs => ?_, ?_⟩
  · rw [isPrevious] at isEnd
    cases isEnd
    simp [distinct]
  · cases isStart
    simp [distinct.symm]
  · have notPrevious : query ≠ previous := fun same =>
      notEnd (by rw [isPrevious, same])
    have notNext : query ≠ next := fun same =>
      notStart (congrArg some same.symm)
    simp [notPrevious, notNext]
  · simp [differs]
  · rw [List.head?_append, headBefore, List.getLast?_append, isLast]
    simp [isHead, isTail]

/-- An erasure from the middle leaves what its iterator does not lead to. -/
theorem Holds.unlink_elsewhere
    {it : It width} {front : List (Address width)}
    {previous next query : Address width} {written : Memory width κ}
    (holds : Holds memory list (front ++ [previous] ++ hook :: next :: after))
    (isValue : it.value = some hook)
    (notPrev : it.prev ≠ some query)
    (notNext : ptrXor (memory.p hook) it.prev ≠ some query)
    (unlinks : MemoryOptimized.unlink memory list it = .ok written) :
    written.p query = memory.p query := by
  obtain ⟨first, last, isHead, isTail, -, -, several, notFirst, notLast⟩ :=
    holds.middle
  rw [MemoryOptimized.unlink, isHead, isTail, isValue,
    if_neg (mt Option.some.inj several), if_neg (mt Option.some.inj notFirst),
    if_neg (mt Option.some.inj notLast), deref_some, ok_bind] at unlinks
  obtain ⟨_, -, checked⟩ := of_bind unlinks
  obtain ⟨_, -, derefs⟩ := of_bind checked
  cases isNext : ptrXor (memory.p hook) it.prev with
  | none =>
      rw [isNext] at derefs
      cases derefs
  | some nextMade =>
      cases isPrev : it.prev with
      | none =>
          rw [isNext, isPrev] at derefs
          cases derefs
      | some prevMade =>
          rw [isNext, isPrev] at derefs
          cases derefs
          rw [isNext] at notNext
          rw [isPrev] at notPrev
          have apartNext : query ≠ nextMade := fun same =>
            notNext (congrArg some same.symm)
          have apartPrev : query ≠ prevMade := fun same =>
            notPrev (congrArg some same.symm)
          simp [apartNext, apartPrev]

/-- What `dfk_list_erase` writes. -/
theorem Holds.unlink
    {it : It width}
    (holds : Holds memory list (before ++ hook :: after))
    (isValue : it.value = some hook)
    (isPrev : before ≠ [] → after ≠ [] → it.prev = before.getLast?) :
    ∃ written,
      MemoryOptimized.unlink memory list it = .ok written ∧
        Unlinked memory list before hook after
          (written.resize list (· - 1)) := by
  rcases List.eq_nil_or_concat before with isNil | ⟨front, previous, isConcat⟩
  · subst isNil
    cases after with
    | nil => exact holds.unlink_only isValue
    | cons next rest => exact holds.unlink_first isValue
  · rw [List.concat_eq_append] at isConcat
    subst isConcat
    cases after with
    | nil => exact holds.unlink_last isValue
    | cons next rest =>
        apply holds.unlink_middle isValue
        rw [isPrev (by simp) (List.cons_ne_nil next rest),
          List.getLast?_concat]

end Dfk.LinkedList.MemoryOptimized
