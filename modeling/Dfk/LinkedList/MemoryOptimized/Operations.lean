import Dfk.LinkedList.MemoryOptimized.Editing
import Dfk.LinkedList.MemoryOptimized.Traversal
import Dfk.LinkedList.Refinement

/-!
# Operations with one pointer in a hook

An operation on lists in memory does what it does on sequences.  The one
exception is `dfk_list_rerase` on a hook in the middle.  The iterator that it
makes up for `dfk_list_erase` is astray, unless the address of the hook happens
to be the exclusive or of its neighbours.
-/

namespace Dfk.LinkedList.MemoryOptimized

open XorChain

variable {κ : Type} {width : Nat} [DecidableEq κ]
variable {memory : Memory width κ} {sequences : Sequences (Address width) κ}
variable {fuel : Nat} {list : κ} {hook : Address width}
variable {before after : List (Address width)}

/-! ## Insertions -/

/-- What is asserted around an insertion. -/
theorem Represents.inserted
    {written : Memory width κ}
    (represents : Represents memory sequences)
    (room : ∀ list, (sequences list).length + 1 < fuel)
    (shape : sequences list = before ++ after)
    (isNew : ∀ other, hook ∉ sequences other)
    (spliced : Spliced memory list before hook after written) :
    listCheckInvariants fuel memory list = .ok () ∧
      listCheckInvariants fuel written list = .ok () ∧
      Represents written
        (Function.update sequences list (before ++ hook :: after)) := by
  have roomHere := room list
  have isSpliced := represents.splice shape isNew spliced
  have holds := isSpliced.holds list
  rw [Function.update_self] at holds
  refine ⟨?_, holds.listCheckInvariants ?_, isSpliced⟩
  · exact (represents.holds list).listCheckInvariants (by omega)
  · rw [shape, List.length_append] at roomHere
    rw [List.length_append, List.length_cons]
    omega

/-- What `dfk_list_append` writes makes the hook the last one. -/
theorem Represents.linkLast
    (represents : Represents memory sequences)
    (isNew : ∀ other, hook ∉ sequences other) :
    Represents (MemoryOptimized.linkLast memory list hook)
      (Function.update sequences list (sequences list ++ [hook])) :=
  represents.splice (List.append_nil _).symm isNew
    ((represents.holds list).linkLast (isNew list))

/-- `dfk_list_append` appends. -/
theorem Represents.append
    (represents : Represents memory sequences)
    (room : ∀ list, (sequences list).length + 1 < fuel)
    (isNew : ∀ other, hook ∉ sequences other) :
    ∃ written,
      append fuel memory list hook = .ok written ∧
        Represents written
          (Function.update sequences list (sequences list ++ [hook])) := by
  obtain ⟨checked, checkedAfter, isAppended⟩ :=
    represents.inserted room (List.append_nil _).symm isNew
      ((represents.holds list).linkLast (isNew list))
  refine ⟨_, ?_, isAppended⟩
  rw [MemoryOptimized.append, checked, ok_bind]
  dsimp only
  rw [checkedAfter, ok_bind, pure_eq_ok]

/-- `dfk_list_prepend` prepends. -/
theorem Represents.prepend
    (represents : Represents memory sequences)
    (room : ∀ list, (sequences list).length + 1 < fuel)
    (isNew : ∀ other, hook ∉ sequences other) :
    ∃ written,
      prepend fuel memory list hook = .ok written ∧
        Represents written
          (Function.update sequences list (hook :: sequences list)) := by
  obtain ⟨checked, checkedAfter, isPrepended⟩ :=
    represents.inserted room (List.nil_append _).symm isNew
      ((represents.holds list).linkFirst (isNew list))
  refine ⟨_, ?_, isPrepended⟩
  rw [MemoryOptimized.prepend, checked, ok_bind]
  dsimp only
  rw [checkedAfter, ok_bind, pure_eq_ok]

/-- `dfk_list_insert` inserts where the iterator stands. -/
theorem Represents.insert
    {position : It width}
    (represents : Represents memory sequences)
    (room : ∀ list, (sequences list).length + 1 < fuel)
    (shape : sequences list = before ++ after)
    (isNew : ∀ other, hook ∉ sequences other)
    (isValue : position.value = after.head?)
    (isPrev : after ≠ [] → position.prev = before.getLast?) :
    ∃ written,
      insert fuel memory list hook position = .ok written ∧
        Represents written
          (Function.update sequences list (before ++ hook :: after)) := by
  have holds := represents.holds list
  have newHere := isNew list
  rw [shape] at holds newHere
  obtain ⟨checked, checkedAfter, isInserted⟩ :=
    represents.inserted room shape isNew
      (holds.linkBefore newHere isValue isPrev)
  refine ⟨_, ?_, isInserted⟩
  rw [MemoryOptimized.insert, checked, ok_bind]
  dsimp only
  rw [checkedAfter, ok_bind, pure_eq_ok]

/-- `dfk_list_rinsert` inserts where the reverse iterator stands. -/
theorem Represents.rinsert
    {position : It width}
    (represents : Represents memory sequences)
    (room : ∀ list, (sequences list).length + 1 < fuel)
    (shape : sequences list = before ++ after)
    (isNew : ∀ other, hook ∉ sequences other)
    (isValue : position.value = before.getLast?)
    (isPrev : before ≠ [] → position.prev = after.head?) :
    ∃ written,
      rinsert fuel memory list hook position = .ok written ∧
        Represents written
          (Function.update sequences list (before ++ hook :: after)) := by
  have holds := represents.holds list
  have newHere := isNew list
  rw [shape] at holds newHere
  obtain ⟨checked, checkedAfter, isInserted⟩ :=
    represents.inserted room shape isNew
      (holds.linkBehind newHere isValue isPrev)
  refine ⟨_, ?_, isInserted⟩
  rw [MemoryOptimized.rinsert, checked, ok_bind]
  dsimp only
  rw [checkedAfter, ok_bind, pure_eq_ok]

/-! ## Erasures -/

/-- `dfk_list_erase` takes the hook out that the iterator stands at. -/
theorem Represents.erase
    {it : It width}
    (represents : Represents memory sequences)
    (room : ∀ list, (sequences list).length + 1 < fuel)
    (shape : sequences list = before ++ hook :: after)
    (isValue : it.value = some hook)
    (isPrev : before ≠ [] → after ≠ [] → it.prev = before.getLast?) :
    ∃ written,
      erase fuel memory list it = .ok written ∧
        Represents written
          (Function.update sequences list (before ++ after)) := by
  have holds := represents.holds list
  have roomHere := room list
  rw [shape] at holds roomHere
  rw [List.length_append, List.length_cons] at roomHere
  have someHook : (before ++ hook :: after).length ≠ 0 := by
    simp
  obtain ⟨written, unlinks, unlinked⟩ := holds.unlink isValue isPrev
  have isUnlinked := represents.unlink shape unlinked
  have holdsAfter := isUnlinked.holds list
  rw [Function.update_self] at holdsAfter
  have short : (before ++ after).length ≤ fuel := by
    rw [List.length_append]
    omega
  have shortBefore : (before ++ hook :: after).length < fuel := by
    rw [List.length_append, List.length_cons]
    omega
  refine ⟨_, ?_, isUnlinked⟩
  rw [MemoryOptimized.erase,
    holds.listCheckInvariants (Nat.le_of_lt shortBefore), ok_bind,
    holds.size_eq shortBefore, ok_bind, check_pos someHook, ok_bind, unlinks,
    ok_bind]
  dsimp only
  rw [holdsAfter.listCheckInvariants short, ok_bind, pure_eq_ok]

/-- `dfk_list_rerase`, as far as the conversion of its iterator is right. -/
theorem Represents.rerase
    {rit : It width}
    (represents : Represents memory sequences)
    (room : ∀ list, (sequences list).length + 1 < fuel)
    (shape : sequences list = before ++ hook :: after)
    (isValue : rit.value = some hook)
    (converts :
      before ≠ [] → after ≠ [] →
        ptrXor rit.prev rit.value = before.getLast?) :
    ∃ written,
      rerase fuel memory list rit = .ok written ∧
        Represents written
          (Function.update sequences list (before ++ after)) := by
  have roomHere := room list
  obtain ⟨written, erases, isErased⟩ :=
    @Represents.erase _ _ _ memory sequences fuel list hook before after
      { prev := ptrXor rit.prev rit.value, value := rit.value } represents
      room shape isValue converts
  have holdsAfter := isErased.holds list
  rw [Function.update_self] at holdsAfter
  have short : (before ++ after).length ≤ fuel := by
    rw [shape, List.length_append, List.length_cons] at roomHere
    rw [List.length_append]
    omega
  refine ⟨written, ?_, isErased⟩
  rw [MemoryOptimized.rerase,
    (represents.holds list).listCheckInvariants (by omega), ok_bind]
  dsimp only
  rw [erases, ok_bind, holdsAfter.listCheckInvariants short]
  rfl

/-- `dfk_list_rerase` in the middle, where the conversion goes wrong. -/
theorem Represents.rerase_astray
    {rit : It width} {written : Memory width κ} {fuel' : Nat}
    {front rest : List (Address width)} {previous next : Address width}
    (represents : Represents memory sequences)
    (shape : sequences list = front ++ [previous] ++ hook :: next :: rest)
    (isValue : rit.value = some hook)
    (isPrev : rit.prev = some next)
    (astray : combine (some previous) (some next) ≠ some hook)
    (erases :
      MemoryOptimized.rerase fuel memory list rit = .ok written) :
    forwards fuel' written list ≠
      .ok (front ++ [previous] ++ next :: rest) := by
  have holds := represents.holds list
  rw [shape] at holds
  have isLink :
      memory.p hook = combine (some previous) (some next) := by
    rw [holds.threaded _ hook _ rfl, List.getLast?_concat, List.head?_cons]
  have linkBefore : memory.p previous = combine front.getLast? (some hook) := by
    rw [List.append_assoc] at holds
    exact holds.threaded front previous (hook :: next :: rest) rfl
  have notPrev : ptrXor rit.prev rit.value ≠ some previous := by
    rw [isValue, isPrev]
    intro same
    apply astray
    rw [combine_comm, ← same, combine_cancel]
  have notNext :
      ptrXor (memory.p hook) (ptrXor rit.prev rit.value) ≠
        some previous := by
    rw [isValue, isPrev, isLink, ptrXor, ptrXor, combine_assoc,
      combine_cancel]
    intro same
    have isNull : (some hook : Pointer width) = none := by
      apply @combine_right_injective _ (some previous)
      rw [combine_null]
      exact same
    cases isNull
  obtain ⟨_, -, erases⟩ := of_bind erases
  obtain ⟨erased, erases, finishes⟩ := of_bind erases
  obtain ⟨_, -, isErased⟩ := of_bind finishes
  cases isErased
  obtain ⟨_, -, erases⟩ := of_bind erases
  obtain ⟨_, -, erases⟩ := of_bind erases
  obtain ⟨_, -, erases⟩ := of_bind erases
  obtain ⟨unlinked, unlinks, resizes⟩ := of_bind erases
  obtain ⟨_, -, isResized⟩ := of_bind resizes
  cases isResized
  have kept : unlinked.p previous = memory.p previous := by
    apply holds.unlink_elsewhere _ _ _ unlinks
    · exact isValue
    · exact notPrev
    · exact notNext
  intro visits
  obtain ⟨first, begins, visits⟩ := of_bind visits
  obtain ⟨_, isFirst, begins⟩ := of_bind begins
  cases begins
  obtain ⟨atEnd, -, visits⟩ := of_bind visits
  rw [List.append_assoc] at visits
  have link := link_of_visitFrom visits
  rw [Option.or_none, Memory.resize_p, kept, linkBefore] at link
  have same : hook = next := Option.some.inj (combine_right_injective link)
  subst same
  have noDuplicates := List.nodup_middle.mp holds.noDuplicates
  exact (List.nodup_cons.mp noDuplicates).1
    (List.mem_append_right _ (List.mem_cons_self ..))

/-- `dfk_list_pop_front` leaves the tail of the sequence. -/
theorem Represents.popFront
    (represents : Represents memory sequences)
    (room : ∀ list, (sequences list).length + 1 < fuel)
    (nonempty : sequences list ≠ []) :
    ∃ written,
      popFront fuel memory list = .ok written ∧
        Represents written
          (Function.update sequences list (sequences list).tail) := by
  have holds := represents.holds list
  have roomHere := room list
  obtain ⟨first, rest, shape⟩ := List.exists_cons_of_ne_nil nonempty
  have someHook : (sequences list).length ≠ 0 :=
    Nat.pos_iff_ne_zero.mp (List.length_pos_iff.mpr nonempty)
  obtain ⟨written, erases, isErased⟩ :=
    @Represents.erase _ _ _ memory sequences fuel list first [] rest
      { prev := none, value := (sequences list).head? } represents room shape
      (by rw [shape, List.head?_cons]) fun absurd' => (absurd' rfl).elim
  have isTail : [] ++ rest = (sequences list).tail := by
    rw [shape, List.tail_cons, List.nil_append]
  rw [isTail] at isErased
  have holdsAfter := isErased.holds list
  rw [Function.update_self] at holdsAfter
  have short : (sequences list).tail.length ≤ fuel := by
    rw [List.length_tail]
    omega
  refine ⟨written, ?_, isErased⟩
  rw [MemoryOptimized.popFront, holds.listCheckInvariants (by omega),
    ok_bind, holds.size_eq (by omega), ok_bind, check_pos someHook, ok_bind,
    holds.begin (by omega), ok_bind, erases, ok_bind,
    holdsAfter.listCheckInvariants short]
  rfl

/-- `dfk_list_pop_back` leaves all but the last of the sequence. -/
theorem Represents.popBack
    (represents : Represents memory sequences)
    (room : ∀ list, (sequences list).length + 1 < fuel)
    (nonempty : sequences list ≠ []) :
    ∃ written,
      popBack fuel memory list = .ok written ∧
        Represents written
          (Function.update sequences list (sequences list).dropLast) := by
  have holds := represents.holds list
  have roomHere := room list
  obtain ⟨front, last, shape⟩ :=
    (List.eq_nil_or_concat (sequences list)).resolve_left nonempty
  rw [List.concat_eq_append] at shape
  have someHook : (sequences list).length ≠ 0 :=
    Nat.pos_iff_ne_zero.mp (List.length_pos_iff.mpr nonempty)
  have isLast : (sequences list).reverse.head? = some last := by
    rw [List.head?_reverse, shape, List.getLast?_concat]
  obtain ⟨written, erases, isErased⟩ :=
    @Represents.rerase _ _ _ memory sequences fuel list last front []
      { prev := none, value := (sequences list).reverse.head? } represents
      room shape isLast fun _ absurd' => (absurd' rfl).elim
  have isFront : front ++ [] = (sequences list).dropLast := by
    rw [shape, List.dropLast_concat, List.append_nil]
  rw [isFront] at isErased
  have holdsAfter := isErased.holds list
  rw [Function.update_self] at holdsAfter
  have short : (sequences list).dropLast.length ≤ fuel := by
    rw [List.length_dropLast]
    omega
  refine ⟨written, ?_, isErased⟩
  rw [MemoryOptimized.popBack, holds.listCheckInvariants (by omega),
    ok_bind, holds.size_eq (by omega), ok_bind, check_pos someHook, ok_bind,
    holds.rbegin (by omega), ok_bind, erases, ok_bind,
    holdsAfter.listCheckInvariants short]
  rfl

/-! ## Headers -/

/-- The invariants of a list after an operation on it. -/
theorem Represents.checked_after
    {written : Memory width κ} {operation : Operation (Address width) κ}
    (represents : Represents written (operation.apply sequences))
    (room : ∀ list, (sequences list).length + 1 < fuel)
    (list : κ) :
    listCheckInvariants fuel written list = .ok () := by
  have short (other : κ) : (sequences other).length ≤ fuel - 2 := by
    have roomHere := room other
    omega
  have shortAfter := @length_apply _ _ _ _ _ operation _ short list
  have roomHere := room list
  exact (represents.holds list).listCheckInvariants (by omega)

/-- `dfk_list_clear` leaves nothing. -/
theorem Represents.clear
    (represents : Represents memory sequences)
    (room : ∀ list, (sequences list).length + 1 < fuel) :
    ∃ written,
      clear fuel memory list = .ok written ∧
        Represents written (Function.update sequences list []) := by
  have roomHere := room list
  let written :=
    ((memory.setHead list none).setTail list none).resize list fun _ => 0
  have isCleared : Represents written (Function.update sequences list []) := by
    rw [← elim_clearedFrom]
    apply represents.rearrange (clearedFrom list)
    · intro first second other
      exact clearedFrom_injective
    · rfl
    · intro query other isFrom
      rw [clearedFrom] at isFrom
      split_ifs at isFrom with same
      cases isFrom
      simp [written, same]
    · intro query isFrom
      rw [clearedFrom] at isFrom
      split_ifs at isFrom with same
      subst same
      simp [written]
  refine ⟨written, ?_, isCleared⟩
  rw [MemoryOptimized.clear,
    (represents.holds list).listCheckInvariants (by omega), ok_bind]
  dsimp only
  rw [@Represents.checked_after _ _ _ sequences _ _ (.clear list) isCleared
    room list, ok_bind, pure_eq_ok]

/-- `dfk_list_move` leaves the source empty. -/
theorem Represents.move
    {src dst : κ}
    (represents : Represents memory sequences)
    (room : ∀ list, (sequences list).length + 1 < fuel) :
    ∃ written,
      move fuel memory src dst = .ok written ∧
        Represents written
          (Function.update (Function.update sequences dst (sequences src))
            src []) := by
  have roomSrc := room src
  have roomDst := room dst
  let written :=
    (memory.setList dst (memory.lists src)).setList src
      (zeroed ((memory.setList dst (memory.lists src)).lists src))
  have isMoved :
      Represents written
        (Function.update (Function.update sequences dst (sequences src))
          src []) := by
    rw [← elim_movedFrom]
    apply represents.rearrange (movedFrom src dst)
    · intro first second other
      exact movedFrom_injective
    · rfl
    · intro query other isFrom
      rw [movedFrom] at isFrom
      split_ifs at isFrom with isSrc isDst
      · cases isFrom
        subst isDst
        simp [written, Memory.setList, isSrc]
      · cases isFrom
        simp [written, Memory.setList, isSrc, isDst]
    · intro query isFrom
      rw [movedFrom] at isFrom
      split_ifs at isFrom with isSrc
      subst isSrc
      simp [written, Memory.setList, zeroed]
  have checkedAfter (list : κ) : listCheckInvariants fuel written list = .ok () :=
    @Represents.checked_after _ _ _ sequences _ _ (.move src dst) isMoved
      room list
  refine ⟨written, ?_, isMoved⟩
  rw [MemoryOptimized.move,
    (represents.holds src).listCheckInvariants (by omega), ok_bind,
    (represents.holds dst).listCheckInvariants (by omega), ok_bind]
  dsimp only
  rw [checkedAfter dst, ok_bind, checkedAfter src, ok_bind, pure_eq_ok]

/-- `dfk_list_swap` exchanges two sequences. -/
theorem Represents.swap
    {lhs rhs : κ}
    (represents : Represents memory sequences)
    (room : ∀ list, (sequences list).length + 1 < fuel) :
    ∃ written,
      swap fuel memory lhs rhs = .ok written ∧
        Represents written
          (Function.update (Function.update sequences lhs (sequences rhs))
            rhs (sequences lhs)) := by
  have roomLhs := room lhs
  have roomRhs := room rhs
  let written :=
    (memory.setList lhs (memory.lists rhs)).setList rhs (memory.lists lhs)
  have isSwapped :
      Represents written
        (Function.update (Function.update sequences lhs (sequences rhs))
          rhs (sequences lhs)) := by
    rw [← elim_swappedFrom]
    apply represents.rearrange (swappedFrom lhs rhs)
    · intro first second other
      exact swappedFrom_injective
    · rfl
    · intro query other isFrom
      rw [swappedFrom] at isFrom
      split_ifs at isFrom with isRhs isLhs
      · cases isFrom
        simp [written, Memory.setList, isRhs]
      · cases isFrom
        subst isLhs
        simp [written, Memory.setList, isRhs]
      · cases isFrom
        simp [written, Memory.setList, isRhs, isLhs]
    · intro query isFrom
      rw [swappedFrom] at isFrom
      split_ifs at isFrom
  have checkedAfter (list : κ) : listCheckInvariants fuel written list = .ok () :=
    @Represents.checked_after _ _ _ sequences _ _ (.swap lhs rhs) isSwapped
      room list
  refine ⟨written, ?_, isSwapped⟩
  rw [MemoryOptimized.swap,
    (represents.holds lhs).listCheckInvariants (by omega), ok_bind,
    (represents.holds rhs).listCheckInvariants (by omega), ok_bind]
  dsimp only
  rw [checkedAfter lhs, ok_bind, checkedAfter rhs, ok_bind, pure_eq_ok]

end Dfk.LinkedList.MemoryOptimized
