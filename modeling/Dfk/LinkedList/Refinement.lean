import Dfk.LinkedList.Editing
import Dfk.LinkedList.Traversal

/-!
# Lists refine sequences

An operation on lists in memory does what the operation of the same name does
on sequences.
-/

namespace Dfk.LinkedList

variable {ι κ : Type} [DecidableEq ι] [DecidableEq κ]

/-! ## Operations -/

/-- Operations; an iterator is the hook it is at, or the end. -/
inductive Operation (ι κ : Type) where
  | append (list : κ) (hook : ι)
  | prepend (list : κ) (hook : ι)
  | insert (list : κ) (hook : ι) (position : Option ι)
  | rinsert (list : κ) (hook : ι) (position : Option ι)
  | erase (list : κ) (hook : ι)
  | rerase (list : κ) (hook : ι)
  | popFront (list : κ)
  | popBack (list : κ)
  | clear (list : κ)
  | move (src dst : κ)
  | swap (lhs rhs : κ)
  deriving Repr, DecidableEq

/-- Do an operation in memory. -/
def Operation.run (fuel : Nat) (memory : Memory ι κ) :
    Operation ι κ → Except Fault (Memory ι κ)
  | .append list hook => LinkedList.append fuel memory list hook
  | .prepend list hook => LinkedList.prepend fuel memory list hook
  | .insert list hook position =>
      LinkedList.insert fuel memory list hook { value := position }
  | .rinsert list hook position =>
      LinkedList.rinsert fuel memory list hook { value := position }
  | .erase list hook =>
      LinkedList.erase fuel memory list { value := some hook }
  | .rerase list hook =>
      LinkedList.rerase fuel memory list { value := some hook }
  | .popFront list => LinkedList.popFront fuel memory list
  | .popBack list => LinkedList.popBack fuel memory list
  | .clear list => LinkedList.clear fuel memory list
  | .move src dst => LinkedList.move fuel memory src dst
  | .swap lhs rhs => LinkedList.swap fuel memory lhs rhs

/-- Insert before a position, or at the end. -/
def insertBefore (hook : ι) (position : Option ι) : List ι → List ι
  | [] => [hook]
  | first :: rest =>
      if position = some first then hook :: first :: rest
      else first :: insertBefore hook position rest

/-- Do an operation on sequences. -/
def Operation.apply (sequences : Sequences ι κ) :
    Operation ι κ → Sequences ι κ
  | .append list hook =>
      Function.update sequences list (sequences list ++ [hook])
  | .prepend list hook =>
      Function.update sequences list (hook :: sequences list)
  | .insert list hook position =>
      Function.update sequences list
        (insertBefore hook position (sequences list))
  | .rinsert list hook position =>
      Function.update sequences list
        (insertBefore hook position (sequences list).reverse).reverse
  | .erase list hook | .rerase list hook =>
      Function.update sequences list ((sequences list).erase hook)
  | .popFront list =>
      Function.update sequences list (sequences list).tail
  | .popBack list =>
      Function.update sequences list (sequences list).dropLast
  | .clear list => Function.update sequences list []
  | .move src dst =>
      Function.update (Function.update sequences dst (sequences src)) src []
  | .swap lhs rhs =>
      Function.update (Function.update sequences lhs (sequences rhs)) rhs
        (sequences lhs)

/--
Hooks that are added are in no list, positions and hooks that are erased are
in the list, and only lists with an element are popped.
-/
def Operation.Valid (sequences : Sequences ι κ) : Operation ι κ → Prop
  | .append _ hook | .prepend _ hook => ∀ other, hook ∉ sequences other
  | .insert list hook position | .rinsert list hook position =>
      (∀ other, hook ∉ sequences other) ∧
        ∀ value ∈ position, value ∈ sequences list
  | .erase list hook | .rerase list hook => hook ∈ sequences list
  | .popFront list | .popBack list => sequences list ≠ []
  | .clear _ | .move _ _ | .swap _ _ => True

/-- All operations are valid where they are done. -/
def AllValid : List (Operation ι κ) → Sequences ι κ → Prop
  | [], _ => True
  | operation :: operations, sequences =>
      operation.Valid sequences ∧
        AllValid operations (operation.apply sequences)

/-- What can be seen of a list is its sequence. -/
structure Agrees (fuel : Nat) (memory : Memory ι κ) (list : κ)
    (sequence : List ι) : Prop where
  forwards : forwards fuel memory list = .ok sequence
  backwards : backwards fuel memory list = .ok sequence.reverse
  front : front fuel memory list = .ok sequence.head?
  back : back fuel memory list = .ok sequence.getLast?
  empty : empty fuel memory list = .ok sequence.isEmpty
  size : size fuel memory list = .ok sequence.length

/-- All operations succeed, and after each one all lists agree. -/
def Refines (fuel : Nat) :
    List (Operation ι κ) → Memory ι κ → Sequences ι κ → Prop
  | [], memory, sequences =>
      ∀ list, Agrees fuel memory list (sequences list)
  | operation :: operations, memory, sequences =>
      (∀ list, Agrees fuel memory list (sequences list)) ∧
        ∃ after,
          operation.run fuel memory = .ok after ∧
            Refines fuel operations after (operation.apply sequences)

/-! ## Operations that are done -/

section Operations

variable {memory : Memory ι κ} {sequences : Sequences ι κ} {fuel : Nat}
variable {list : κ} {hook : ι}

/-- What is asserted after an insertion. -/
theorem Represents.inserted
    {written : Memory ι κ} {before after : List ι}
    (represents : Represents memory sequences)
    (room : ∀ list, (sequences list).length + 1 < fuel)
    (shape : sequences list = before ++ after)
    (isNew : ∀ other, hook ∉ sequences other)
    (spliced : Spliced memory list before hook after written) :
    Represents written
        (Function.update sequences list (before ++ hook :: after)) ∧
      listCheckInvariants fuel written list = .ok () ∧
      hookCheckInvariants fuel written hook = .ok () ∧
      ∀ position : It ι,
        (∀ value ∈ position.value, value ∈ sequences list) →
          itCheckInvariants fuel written position = .ok () := by
  have isSpliced := represents.splice shape isNew spliced
  have holds := isSpliced.holds list
  rw [Function.update_self] at holds
  have short : (before ++ hook :: after).length ≤ fuel := by
    have roomHere := room list
    rw [shape, List.length_append] at roomHere
    rw [List.length_append, List.length_cons]
    omega
  refine ⟨isSpliced, holds.listCheckInvariants short,
    holds.hookCheckInvariants short (by simp), fun position inside => ?_⟩
  apply holds.itCheckInvariants short
  intro value isValue
  have member := inside value isValue
  rw [shape, List.mem_append] at member
  rw [List.mem_append, List.mem_cons]
  exact member.imp_right Or.inr

/-- `dfk_list_erase` takes the hook out of the sequence. -/
theorem Represents.erase
    (represents : Represents memory sequences)
    (room : ∀ list, (sequences list).length + 1 < fuel)
    (member : hook ∈ sequences list) :
    ∃ written,
      erase fuel memory list { value := some hook } = .ok written ∧
        Represents written
          (Function.update sequences list ((sequences list).erase hook)) := by
  have holds := represents.holds list
  have roomHere := room list
  have checked : itCheckInvariants fuel memory { value := some hook : It ι } =
      .ok () := by
    apply holds.itCheckInvariants (by omega)
    rintro value ⟨⟩
    exact member
  have someHook : (sequences list).length ≠ 0 :=
    Nat.pos_iff_ne_zero.mp (List.length_pos_of_mem member)
  obtain ⟨before, after, shape⟩ := List.append_of_mem member
  have notBefore : hook ∉ before := by
    intro inBefore
    have noDuplicates := holds.noDuplicates
    rw [shape, List.nodup_middle, List.nodup_cons] at noDuplicates
    exact noDuplicates.1 (List.mem_append_left _ inBefore)
  have erased : (sequences list).erase hook = before ++ after := by
    rw [shape, List.erase_append_right _ notBefore, List.erase_cons_head]
  rw [LinkedList.erase, holds.listCheckInvariants (by omega), ok_bind,
    checked, ok_bind, holds.size_eq (by omega), ok_bind, check_pos someHook,
    ok_bind, erased]
  rw [shape] at holds
  obtain ⟨written, unlinks, unlinked⟩ := holds.unlink
  have isUnlinked := represents.unlink shape unlinked
  have holdsAfter := isUnlinked.holds list
  rw [Function.update_self] at holdsAfter
  have short : (before ++ after).length ≤ fuel := by
    rw [shape] at roomHere
    rw [List.length_append, List.length_cons] at roomHere
    rw [List.length_append]
    omega
  refine ⟨_, ?_, isUnlinked⟩
  rw [unlinks, ok_bind]
  dsimp only
  rw [holdsAfter.listCheckInvariants short, ok_bind, pure_eq_ok]

/-- `dfk_list_rerase` takes the hook out of the sequence. -/
theorem Represents.rerase
    (represents : Represents memory sequences)
    (room : ∀ list, (sequences list).length + 1 < fuel)
    (member : hook ∈ sequences list) :
    ∃ written,
      rerase fuel memory list { value := some hook } = .ok written ∧
        Represents written
          (Function.update sequences list ((sequences list).erase hook)) := by
  have holds := represents.holds list
  have roomHere := room list
  have checked : itCheckInvariants fuel memory { value := some hook : It ι } =
      .ok () := by
    apply holds.itCheckInvariants (by omega)
    rintro value ⟨⟩
    exact member
  obtain ⟨written, erases, isErased⟩ := represents.erase room member
  have holdsAfter := isErased.holds list
  rw [Function.update_self] at holdsAfter
  have short : ((sequences list).erase hook).length ≤ fuel := by
    have shorter := List.length_erase_le (a := hook) (l := sequences list)
    omega
  refine ⟨written, ?_, isErased⟩
  rw [LinkedList.rerase, holds.listCheckInvariants (by omega), ok_bind,
    checked, ok_bind]
  dsimp only
  rw [erases, ok_bind, holdsAfter.listCheckInvariants short]
  rfl

/-- `dfk_list_pop_front` leaves the tail of the sequence. -/
theorem Represents.popFront
    (represents : Represents memory sequences)
    (room : ∀ list, (sequences list).length + 1 < fuel)
    (nonempty : sequences list ≠ []) :
    ∃ written,
      popFront fuel memory list = .ok written ∧
        Represents written
          (Function.update sequences list (sequences list).tail) := by
  have holds := represents.holds list
  have roomHere := room list
  obtain ⟨first, rest, shape⟩ := List.exists_cons_of_ne_nil nonempty
  have member : first ∈ sequences list := by
    rw [shape]
    exact List.mem_cons_self ..
  have isTail : (sequences list).erase first = (sequences list).tail := by
    rw [shape, List.erase_cons_head, List.tail_cons]
  have someHook : (sequences list).length ≠ 0 :=
    Nat.pos_iff_ne_zero.mp (List.length_pos_of_mem member)
  have isHead : (sequences list).head? = some first := by
    rw [shape, List.head?_cons]
  obtain ⟨written, erases, isErased⟩ := represents.erase room member
  rw [isTail] at isErased
  have holdsAfter := isErased.holds list
  rw [Function.update_self] at holdsAfter
  have short : (sequences list).tail.length ≤ fuel := by
    rw [List.length_tail]
    omega
  refine ⟨written, ?_, isErased⟩
  rw [LinkedList.popFront, holds.listCheckInvariants (by omega), ok_bind,
    holds.size_eq (by omega), ok_bind, check_pos someHook, ok_bind,
    holds.begin (by omega), ok_bind, isHead, erases, ok_bind,
    holdsAfter.listCheckInvariants short]
  rfl

/-- `dfk_list_pop_back` leaves all but the last of the sequence. -/
theorem Represents.popBack
    (represents : Represents memory sequences)
    (room : ∀ list, (sequences list).length + 1 < fuel)
    (nonempty : sequences list ≠ []) :
    ∃ written,
      popBack fuel memory list = .ok written ∧
        Represents written
          (Function.update sequences list (sequences list).dropLast) := by
  have holds := represents.holds list
  have roomHere := room list
  have noDuplicates := holds.noDuplicates
  obtain ⟨front, last, shape⟩ :=
    (List.eq_nil_or_concat (sequences list)).resolve_left nonempty
  rw [List.concat_eq_append] at shape
  have member : last ∈ sequences list := by
    rw [shape]
    exact List.mem_append_right _ (List.mem_singleton_self last)
  have notFront : last ∉ front := by
    rw [shape] at noDuplicates
    exact fun inFront =>
      List.disjoint_of_nodup_append noDuplicates inFront
        (List.mem_singleton_self last)
  have isFront : (sequences list).erase last = (sequences list).dropLast := by
    rw [shape, List.erase_append_right _ notFront, List.erase_cons_head,
      List.append_nil, List.dropLast_concat]
  have someHook : (sequences list).length ≠ 0 :=
    Nat.pos_iff_ne_zero.mp (List.length_pos_of_mem member)
  have isLast : (sequences list).getLast? = some last := by
    rw [shape, List.getLast?_concat]
  obtain ⟨written, erases, isErased⟩ := represents.rerase room member
  rw [isFront] at isErased
  have holdsAfter := isErased.holds list
  rw [Function.update_self] at holdsAfter
  have short : (sequences list).dropLast.length ≤ fuel := by
    rw [List.length_dropLast]
    omega
  refine ⟨written, ?_, isErased⟩
  rw [LinkedList.popBack, holds.listCheckInvariants (by omega), ok_bind,
    holds.size_eq (by omega), ok_bind, check_pos someHook, ok_bind,
    holds.rbegin (by omega), ok_bind, isLast, erases, ok_bind,
    holdsAfter.listCheckInvariants short]
  rfl

/-- `dfk_list_clear` leaves nothing. -/
theorem Represents.clear
    (represents : Represents memory sequences)
    (room : ∀ list, (sequences list).length + 1 < fuel) :
    ∃ written,
      clear fuel memory list = .ok written ∧
        Represents written (Function.update sequences list []) := by
  have holds := represents.holds list
  have roomHere := room list
  let written :=
    ((memory.setHead list none).setTail list none).resize list fun _ => 0
  have isCleared : Represents written (Function.update sequences list []) := by
    rw [← elim_clearedFrom]
    apply represents.rearrange (clearedFrom list)
    · intro first second other
      exact clearedFrom_injective
    · rfl
    · intro query other isFrom
      rw [clearedFrom] at isFrom
      split_ifs at isFrom with same
      cases isFrom
      simp [written, same]
    · intro query isFrom
      rw [clearedFrom] at isFrom
      split_ifs at isFrom with same
      subst same
      simp [written]
  have holdsAfter := isCleared.holds list
  rw [Function.update_self] at holdsAfter
  refine ⟨written, ?_, isCleared⟩
  rw [LinkedList.clear, holds.listCheckInvariants (by omega), ok_bind]
  dsimp only
  rw [holdsAfter.listCheckInvariants (Nat.zero_le _), ok_bind, pure_eq_ok]

/-- `dfk_list_move` leaves the source empty. -/
theorem Represents.move
    {src dst : κ}
    (represents : Represents memory sequences)
    (room : ∀ list, (sequences list).length + 1 < fuel) :
    ∃ written,
      move fuel memory src dst = .ok written ∧
        Represents written
          (Function.update (Function.update sequences dst (sequences src))
            src []) := by
  have short (list : κ) : (sequences list).length ≤ fuel := by
    have roomHere := room list
    omega
  let written :=
    (memory.setList dst (memory.lists src)).setList src
      (zeroed ((memory.setList dst (memory.lists src)).lists src))
  have isMoved :
      Represents written
        (Function.update (Function.update sequences dst (sequences src))
          src []) := by
    rw [← elim_movedFrom]
    apply represents.rearrange (movedFrom src dst)
    · intro first second other
      exact movedFrom_injective
    · rfl
    · intro query other isFrom
      rw [movedFrom] at isFrom
      split_ifs at isFrom with isSrc isDst
      · cases isFrom
        subst isDst
        simp [written, Memory.setList, isSrc]
      · cases isFrom
        simp [written, Memory.setList, isSrc, isDst]
    · intro query isFrom
      rw [movedFrom] at isFrom
      split_ifs at isFrom with isSrc
      subst isSrc
      simp [written, Memory.setList, zeroed]
  have shortAfter (list : κ) :
      (Function.update (Function.update sequences dst (sequences src)) src []
        list).length ≤ fuel := by
    rw [← elim_movedFrom]
    dsimp only
    cases movedFrom src dst list with
    | none => exact Nat.zero_le _
    | some other => exact short other
  refine ⟨written, ?_, isMoved⟩
  rw [LinkedList.move, (represents.holds src).listCheckInvariants (short src),
    ok_bind, (represents.holds dst).listCheckInvariants (short dst), ok_bind]
  dsimp only
  rw [(isMoved.holds dst).listCheckInvariants (shortAfter dst), ok_bind,
    (isMoved.holds src).listCheckInvariants (shortAfter src), ok_bind,
    pure_eq_ok]

/-- `dfk_list_swap` exchanges two sequences. -/
theorem Represents.swap
    {lhs rhs : κ}
    (represents : Represents memory sequences)
    (room : ∀ list, (sequences list).length + 1 < fuel) :
    ∃ written,
      swap fuel memory lhs rhs = .ok written ∧
        Represents written
          (Function.update (Function.update sequences lhs (sequences rhs))
            rhs (sequences lhs)) := by
  have short (list : κ) : (sequences list).length ≤ fuel := by
    have roomHere := room list
    omega
  let written :=
    (memory.setList lhs (memory.lists rhs)).setList rhs (memory.lists lhs)
  have isSwapped :
      Represents written
        (Function.update (Function.update sequences lhs (sequences rhs))
          rhs (sequences lhs)) := by
    rw [← elim_swappedFrom]
    apply represents.rearrange (swappedFrom lhs rhs)
    · intro first second other
      exact swappedFrom_injective
    · rfl
    · intro query other isFrom
      rw [swappedFrom] at isFrom
      split_ifs at isFrom with isRhs isLhs
      · cases isFrom
        simp [written, Memory.setList, isRhs]
      · cases isFrom
        subst isLhs
        simp [written, Memory.setList, isRhs]
      · cases isFrom
        simp [written, Memory.setList, isRhs, isLhs]
    · intro query isFrom
      rw [swappedFrom] at isFrom
      split_ifs at isFrom
  have shortAfter (list : κ) :
      (Function.update (Function.update sequences lhs (sequences rhs)) rhs
        (sequences lhs) list).length ≤ fuel := by
    rw [← elim_swappedFrom]
    dsimp only
    cases swappedFrom lhs rhs list with
    | none => exact Nat.zero_le _
    | some other => exact short other
  refine ⟨written, ?_, isSwapped⟩
  rw [LinkedList.swap, (represents.holds lhs).listCheckInvariants (short lhs),
    ok_bind, (represents.holds rhs).listCheckInvariants (short rhs), ok_bind]
  dsimp only
  rw [(isSwapped.holds lhs).listCheckInvariants (shortAfter lhs), ok_bind,
    (isSwapped.holds rhs).listCheckInvariants (shortAfter rhs), ok_bind,
    pure_eq_ok]

/-- An insertion before a position that is in the sequence. -/
theorem insertBefore_some
    {before after : List ι} {value : ι}
    (notBefore : value ∉ before) :
    insertBefore hook (some value) (before ++ value :: after) =
      before ++ hook :: value :: after := by
  induction before with
  | nil =>
      rw [List.nil_append, insertBefore, if_pos rfl, List.nil_append]
  | cons first rest inductionHypothesis =>
      obtain ⟨differs, notRest⟩ := not_or.mp (mt List.mem_cons.mpr notBefore)
      rw [List.cons_append, insertBefore, if_neg, inductionHypothesis notRest,
        List.cons_append]
      exact fun same => differs (Option.some.inj same)

/-- An insertion before the end. -/
theorem insertBefore_none
    {sequence : List ι} :
    insertBefore hook none sequence = sequence ++ [hook] := by
  induction sequence with
  | nil =>
      rfl
  | cons first rest inductionHypothesis =>
      rw [insertBefore, if_neg nofun, inductionHypothesis, List.cons_append]

/-- `dfk_list_insert` inserts before the position. -/
theorem Represents.insert
    {position : Option ι}
    (represents : Represents memory sequences)
    (room : ∀ list, (sequences list).length + 1 < fuel)
    (isNew : ∀ other, hook ∉ sequences other)
    (inside : ∀ value ∈ position, value ∈ sequences list) :
    ∃ written,
      insert fuel memory list hook { value := position } = .ok written ∧
        Represents written
          (Function.update sequences list
            (insertBefore hook position (sequences list))) := by
  have holds := represents.holds list
  have roomHere := room list
  obtain ⟨before, after, shape, inserted, spliced⟩ :
      ∃ before after,
        sequences list = before ++ after ∧
          insertBefore hook position (sequences list) =
            before ++ hook :: after ∧
          Spliced memory list before hook after
            (linkBefore memory list hook { value := position }) := by
    cases position with
    | none =>
        exact ⟨sequences list, [], (List.append_nil _).symm,
          insertBefore_none, holds.linkBefore_end⟩
    | some value =>
        obtain ⟨before, after, shape⟩ := List.append_of_mem (inside value rfl)
        have noDuplicates := holds.noDuplicates
        rw [shape] at holds noDuplicates
        refine ⟨before, value :: after, shape, ?_, holds.linkBefore⟩
        rw [shape]
        apply insertBefore_some
        rw [List.nodup_middle, List.nodup_cons] at noDuplicates
        exact fun inBefore =>
          noDuplicates.1 (List.mem_append_left _ inBefore)
  obtain ⟨isInserted, listChecked, hookChecked, itChecked⟩ :=
    represents.inserted room shape isNew spliced
  refine ⟨_, ?_, inserted ▸ isInserted⟩
  have checked :
      itCheckInvariants fuel memory { value := position : It ι } = .ok () :=
    holds.itCheckInvariants (by omega) inside
  rw [LinkedList.insert, holds.listCheckInvariants (by omega), ok_bind,
    checked, ok_bind]
  dsimp only
  rw [listChecked, ok_bind, hookChecked, ok_bind,
    itChecked { value := position } inside, ok_bind, pure_eq_ok]

/-- `dfk_list_rinsert` inserts before the position in the reverse. -/
theorem Represents.rinsert
    {position : Option ι}
    (represents : Represents memory sequences)
    (room : ∀ list, (sequences list).length + 1 < fuel)
    (isNew : ∀ other, hook ∉ sequences other)
    (inside : ∀ value ∈ position, value ∈ sequences list) :
    ∃ written,
      rinsert fuel memory list hook { value := position } = .ok written ∧
        Represents written
          (Function.update sequences list
            (insertBefore hook position (sequences list).reverse).reverse) := by
  have holds := represents.holds list
  have roomHere := room list
  obtain ⟨before, after, shape, inserted, spliced⟩ :
      ∃ before after,
        sequences list = before ++ after ∧
          (insertBefore hook position (sequences list).reverse).reverse =
            before ++ hook :: after ∧
          Spliced memory list before hook after
            (linkBehind memory list hook { value := position }) := by
    cases position with
    | none =>
        refine ⟨[], sequences list, rfl, ?_, holds.linkBehind_end⟩
        rw [insertBefore_none]
        simp
    | some value =>
        obtain ⟨before, after, shape⟩ := List.append_of_mem (inside value rfl)
        have noDuplicates := holds.noDuplicates
        rw [shape] at holds noDuplicates
        refine ⟨before ++ [value], after, by simp [shape], ?_,
          holds.linkBehind⟩
        have notAfter : value ∉ after.reverse := by
          rw [List.nodup_middle, List.nodup_cons] at noDuplicates
          exact fun inAfter =>
            noDuplicates.1
              (List.mem_append_right _ (List.mem_reverse.mp inAfter))
        have reversed :
            (sequences list).reverse =
              after.reverse ++ value :: before.reverse := by
          simp [shape]
        rw [reversed, insertBefore_some notAfter]
        simp
  obtain ⟨isInserted, listChecked, hookChecked, itChecked⟩ :=
    represents.inserted room shape isNew spliced
  refine ⟨_, ?_, inserted ▸ isInserted⟩
  have checked :
      itCheckInvariants fuel memory { value := position : It ι } = .ok () :=
    holds.itCheckInvariants (by omega) inside
  rw [LinkedList.rinsert, holds.listCheckInvariants (by omega), ok_bind,
    checked, ok_bind]
  dsimp only
  rw [listChecked, ok_bind, hookChecked, ok_bind,
    itChecked { value := position } inside, ok_bind, pure_eq_ok]

/-- What `dfk_list_append` writes makes the hook the last one. -/
theorem Represents.linkLast
    (represents : Represents memory sequences)
    (isNew : ∀ other, hook ∉ sequences other) :
    Represents (LinkedList.linkLast memory list hook)
      (Function.update sequences list (sequences list ++ [hook])) :=
  represents.splice (List.append_nil _).symm isNew
    ((represents.holds list).linkLast (isNew list))

/-- `dfk_list_append` appends. -/
theorem Represents.append
    (represents : Represents memory sequences)
    (room : ∀ list, (sequences list).length + 1 < fuel)
    (isNew : ∀ other, hook ∉ sequences other) :
    ∃ written,
      append fuel memory list hook = .ok written ∧
        Represents written
          (Function.update sequences list (sequences list ++ [hook])) := by
  have holds := represents.holds list
  have roomHere := room list
  obtain ⟨isAppended, listChecked, hookChecked, -⟩ :=
    represents.inserted room (List.append_nil _).symm isNew
      (holds.linkLast (isNew list))
  refine ⟨_, ?_, isAppended⟩
  rw [LinkedList.append, holds.listCheckInvariants (by omega), ok_bind]
  dsimp only
  rw [listChecked, ok_bind, hookChecked, ok_bind, pure_eq_ok]

/-- `dfk_list_prepend` prepends. -/
theorem Represents.prepend
    (represents : Represents memory sequences)
    (room : ∀ list, (sequences list).length + 1 < fuel)
    (isNew : ∀ other, hook ∉ sequences other) :
    ∃ written,
      prepend fuel memory list hook = .ok written ∧
        Represents written
          (Function.update sequences list (hook :: sequences list)) := by
  have holds := represents.holds list
  have roomHere := room list
  obtain ⟨isPrepended, listChecked, hookChecked, -⟩ :=
    represents.inserted room (List.nil_append _).symm isNew
      (holds.linkFirst (isNew list))
  refine ⟨_, ?_, isPrepended⟩
  rw [LinkedList.prepend, holds.listCheckInvariants (by omega), ok_bind]
  dsimp only
  rw [listChecked, ok_bind, hookChecked, ok_bind, pure_eq_ok]

end Operations

/-! ## Runs -/

section Runs

variable {memory : Memory ι κ} {sequences : Sequences ι κ} {fuel : Nat}

omit [DecidableEq κ] in
/-- What can be seen of a list that holds a sequence. -/
theorem Represents.agrees
    (represents : Represents memory sequences)
    (room : ∀ list, (sequences list).length < fuel)
    (list : κ) :
    Agrees fuel memory list (sequences list) := by
  have holds := represents.holds list
  have roomHere := room list
  refine ⟨holds.forwards roomHere, holds.backwards roomHere, ?_, ?_, ?_,
    holds.size_eq roomHere⟩
  · rw [front, holds.listCheckInvariants (Nat.le_of_lt roomHere), ok_bind,
      holds.head, pure_eq_ok]
  · rw [back, holds.listCheckInvariants (Nat.le_of_lt roomHere), ok_bind,
      holds.tail, pure_eq_ok]
  · rw [empty, holds.listCheckInvariants (Nat.le_of_lt roomHere), ok_bind,
      holds.head, pure_eq_ok]
    cases sequences list <;> rfl

/-- A valid operation succeeds and refines the one on sequences. -/
theorem Represents.run
    {operation : Operation ι κ}
    (represents : Represents memory sequences)
    (room : ∀ list, (sequences list).length + 1 < fuel)
    (valid : operation.Valid sequences) :
    ∃ written,
      operation.run fuel memory = .ok written ∧
        Represents written (operation.apply sequences) := by
  cases operation with
  | append list hook => exact represents.append room valid
  | prepend list hook => exact represents.prepend room valid
  | insert list hook position =>
      exact represents.insert room valid.1 valid.2
  | rinsert list hook position =>
      exact represents.rinsert room valid.1 valid.2
  | erase list hook => exact represents.erase room valid
  | rerase list hook => exact represents.rerase room valid
  | popFront list => exact represents.popFront room valid
  | popBack list => exact represents.popBack room valid
  | clear list => exact represents.clear room
  | move src dst => exact represents.move room
  | swap lhs rhs => exact represents.swap room

theorem length_insertBefore
    {hook : ι} {position : Option ι} {sequence : List ι} :
    (insertBefore hook position sequence).length = sequence.length + 1 := by
  induction sequence with
  | nil =>
      rfl
  | cons first rest inductionHypothesis =>
      rw [insertBefore]
      split
      · rfl
      · rw [List.length_cons, List.length_cons, inductionHypothesis]

/-- No sequence grows by more than one element. -/
theorem length_apply
    {operation : Operation ι κ} {bound : Nat}
    (short : ∀ list, (sequences list).length ≤ bound)
    (list : κ) :
    (operation.apply sequences list).length ≤ bound + 1 := by
  have update (changed : κ) (sequence : List ι)
      (grows : sequence.length ≤ bound + 1) :
      (Function.update sequences changed sequence list).length ≤
        bound + 1 := by
    by_cases same : list = changed
    · subst same
      rw [Function.update_self]
      exact grows
    · rw [Function.update_of_ne same]
      exact Nat.le_succ_of_le (short list)
  have erase (list : κ) (hook : ι) :
      ((sequences list).erase hook).length ≤ bound + 1 :=
    Nat.le_succ_of_le (Nat.le_trans List.length_erase_le (short list))
  cases operation with
  | append changed hook =>
      apply update
      rw [List.length_append]
      exact Nat.succ_le_succ (short changed)
  | prepend changed hook =>
      exact update _ _ (Nat.succ_le_succ (short changed))
  | insert changed hook position =>
      apply update
      rw [length_insertBefore]
      exact Nat.succ_le_succ (short changed)
  | rinsert changed hook position =>
      apply update
      rw [List.length_reverse, length_insertBefore, List.length_reverse]
      exact Nat.succ_le_succ (short changed)
  | erase changed hook => exact update _ _ (erase changed hook)
  | rerase changed hook => exact update _ _ (erase changed hook)
  | popFront changed =>
      apply update
      rw [List.length_tail]
      exact Nat.le_trans (Nat.sub_le _ _) (Nat.le_succ_of_le (short changed))
  | popBack changed =>
      apply update
      rw [List.length_dropLast]
      exact Nat.le_trans (Nat.sub_le _ _) (Nat.le_succ_of_le (short changed))
  | clear changed => exact update _ _ (Nat.zero_le _)
  | move src dst =>
      rw [Operation.apply]
      by_cases same : list = src
      · subst same
        rw [Function.update_self]
        exact Nat.zero_le _
      · rw [Function.update_of_ne same]
        exact update _ _ (Nat.le_succ_of_le (short src))
  | swap lhs rhs =>
      rw [Operation.apply]
      by_cases same : list = rhs
      · subst same
        rw [Function.update_self]
        exact Nat.le_succ_of_le (short lhs)
      · rw [Function.update_of_ne same]
        exact update _ _ (Nat.le_succ_of_le (short rhs))

/-- Runs from a memory that represents sequences. -/
theorem Represents.refines
    {operations : List (Operation ι κ)} :
    ∀ {memory : Memory ι κ} {sequences : Sequences ι κ} {bound : Nat},
      Represents memory sequences →
        (∀ list, (sequences list).length ≤ bound) →
          bound + operations.length < fuel →
            AllValid operations sequences →
              Refines fuel operations memory sequences := by
  induction operations with
  | nil =>
      intro memory sequences bound represents short room valid
      exact represents.agrees fun list => Nat.lt_of_le_of_lt (short list) room
  | cons operation operations inductionHypothesis =>
      intro memory sequences bound represents short room valid
      rw [List.length_cons] at room
      have roomHere (list : κ) : (sequences list).length + 1 < fuel := by
        have shortHere := short list
        omega
      obtain ⟨written, runs, after⟩ := represents.run roomHere valid.1
      refine ⟨represents.agrees fun list => Nat.lt_of_succ_lt (roomHere list),
        written, runs, ?_⟩
      exact inductionHypothesis after (length_apply short) (by omega) valid.2

end Runs

omit [DecidableEq ι] [DecidableEq κ] in
/-- After `dfk_list_init` all lists are empty. -/
theorem represents_fresh
    {memory : Memory ι κ} {constantTimeSize : Bool}
    (fresh : ∀ list, memory.lists list = freshList constantTimeSize) :
    Represents memory fun _ => [] := by
  refine ⟨fun list => ?_, fun _ _ _ => List.disjoint_nil_left _⟩
  refine ⟨trivial, List.nodup_nil, ?_, ?_, ?_⟩
  · rw [fresh]
    rfl
  · rw [fresh]
    rfl
  · intro size isSize
    rw [fresh] at isSize
    cases constantTimeSize with
    | false => cases isSize
    | true =>
        cases isSize
        rfl

omit [DecidableEq κ] in
/-- A hook that is in no list may be written to. -/
theorem Represents.modify
    {memory : Memory ι κ} {sequences : Sequences ι κ} {hook : ι}
    {change : Hook ι → Hook ι}
    (represents : Represents memory sequences)
    (isApart : ∀ list, hook ∉ sequences list) :
    Represents (memory.modify hook change) sequences where
  holds := by
    intro list
    refine (represents.holds list).congr rfl ?_
    intro other member
    have apart : other ≠ hook := by
      intro same
      exact isApart list (same ▸ member)
    exact ⟨congrArg Hook.next (if_neg apart),
      congrArg Hook.prev (if_neg apart)⟩
  apart := represents.apart

/--
Valid operations on lists that have been initialised succeed, and after each
one all lists agree with the sequences.
-/
theorem list_refines_sequences
    {memory : Memory ι κ} {constantTimeSize : Bool} {fuel : Nat}
    {operations : List (Operation ι κ)}
    (fresh : ∀ list, memory.lists list = freshList constantTimeSize)
    (valid : AllValid operations fun _ => [])
    (enough : operations.length < fuel) :
    Refines fuel operations memory fun _ => [] :=
  (represents_fresh fresh).refines (fun _ => Nat.le_refl 0)
    (by rwa [Nat.zero_add]) valid

/-- Insertions at both ends and in the middle, then a move and two removals. -/
def mixedOperations : List (Operation Nat Bool) :=
  [.append false 1, .prepend false 2, .insert false 3 (some 1),
    .rinsert true 4 none, .move false true, .rerase true 3, .popFront true]

/-- A memory in which the lists have been initialised. -/
def freshMemory (constantTimeSize : Bool) : Memory Nat Bool where
  hooks := fun _ => { next := none, prev := some 0 }
  lists := fun _ => freshList constantTimeSize

theorem list_refines_sequences_mixed :
    AllValid mixedOperations (fun _ => []) ∧
      Refines 8 mixedOperations (freshMemory true) fun _ => [] := by
  have valid : AllValid mixedOperations fun _ => [] := by
    simp [mixedOperations, AllValid, Operation.Valid, Operation.apply,
      insertBefore, Function.update]
  exact ⟨valid, @list_refines_sequences Nat Bool _ _ (freshMemory true) true 8
    mixedOperations (fun _ => rfl) valid (by decide)⟩

end Dfk.LinkedList
