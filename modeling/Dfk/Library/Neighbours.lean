import Mathlib.Data.List.Basic
import Mathlib.Data.List.Nodup

/-!
# Neighbours in a sequence

What is in front of an element of a sequence without duplicates, and what is
behind it.  Whether another one is put in front of it or taken away, the
element keeps the neighbour in front of it, unless that neighbour is the other.
-/

namespace Neighbours

variable {α : Type} [DecidableEq α]
variable {value other : α} {front rest order : List α}

/-- The element directly in front of another one. -/
def before (value : α) (order : List α) : Option α :=
  (order.take (order.idxOf value)).getLast?

/-- All elements behind another one. -/
def behind (value : α) (order : List α) : List α :=
  order.drop (order.idxOf value + 1)

omit [DecidableEq α] in
/-- A sequence without duplicates around one of its elements. -/
theorem split (member : value ∈ order) (noDuplicates : order.Nodup) :
    ∃ front rest, order = front ++ value :: rest ∧ value ∉ front := by
  obtain ⟨front, rest, shape⟩ := List.append_of_mem member
  subst shape
  refine ⟨front, rest, rfl, fun inFront => ?_⟩
  exact List.disjoint_of_nodup_append noDuplicates inFront
    (List.mem_cons_self ..)

/-- Where the element is found that a sequence is split at. -/
theorem idxOf_split (notFront : value ∉ front) :
    (front ++ value :: rest).idxOf value = front.length := by
  rw [List.idxOf_append_of_notMem notFront, List.idxOf_cons_self,
    Nat.add_zero]

theorem before_split (notFront : value ∉ front) :
    before value (front ++ value :: rest) = front.getLast? := by
  rw [before, idxOf_split notFront, List.take_left]

/-- The neighbour in front is an element, too. -/
theorem mem_of_before (isBefore : before value order = some other) :
    other ∈ order :=
  List.mem_of_mem_take (List.mem_of_getLast? isBefore)

/-- Two elements follow each other. -/
theorem before_eq_some_iff
    (member : value ∈ order)
    (noDuplicates : order.Nodup) :
    before value order = some other ↔ [other, value] <:+: order := by
  constructor
  · intro isBefore
    obtain ⟨front, rest, shape, notFront⟩ := split member noDuplicates
    rw [shape, before_split notFront] at isBefore
    obtain ⟨others, isFront⟩ := List.getLast?_eq_some_iff.mp isBefore
    refine ⟨others, rest, ?_⟩
    rw [shape, isFront]
    simp
  · rintro ⟨others, rest, shape⟩
    have shape' : order = (others ++ [other]) ++ value :: rest := by
      rw [← shape]
      simp
    have notFront : value ∉ others ++ [other] := by
      intro inFront
      rw [shape'] at noDuplicates
      exact List.disjoint_of_nodup_append noDuplicates inFront
        (List.mem_cons_self ..)
    rw [shape', before_split notFront, List.getLast?_concat]

/-! ## One element more -/

/-- The neighbour is a new one if it is put in between. -/
theorem before_insert_front
    (notFront : value ∉ front)
    (differs : value ≠ other) :
    before value (front ++ other :: value :: rest) = some other := by
  have notBefore : value ∉ front ++ [other] := by
    intro member
    rcases List.mem_append.mp member with inFront | isOther
    · exact notFront inFront
    · exact differs (List.mem_singleton.mp isOther)
  have shape :
      front ++ other :: value :: rest =
        (front ++ [other]) ++ value :: rest := by
    simp
  rw [shape, before_split notBefore, List.getLast?_concat]

/-! ## One element less -/

/-- An element keeps its neighbour unless that is the one taken away. -/
theorem before_erase_iff
    (member : value ∈ order)
    (noDuplicates : order.Nodup)
    (differs : other ≠ value) :
    before value (order.erase other) = before value order ↔
      before value order ≠ some other := by
  constructor
  · intro same isOther
    rw [isOther] at same
    exact noDuplicates.not_mem_erase (mem_of_before same)
  · obtain ⟨front, rest, shape, notFront⟩ := split member noDuplicates
    subst shape
    rw [before_split notFront]
    intro notOther
    by_cases inFront : other ∈ front
    · have noDuplicatesFront := List.Nodup.of_append_left noDuplicates
      obtain ⟨others, between, shape, notOthers⟩ :=
        split inFront noDuplicatesFront
      have erased : front.erase other = others ++ between := by
        rw [shape, List.erase_append_right _ notOthers,
          List.erase_cons_head]
      have notErased : value ∉ front.erase other := fun inErased =>
        notFront (List.mem_of_mem_erase inErased)
      rw [List.erase_append_left _ inFront, before_split notErased, erased,
        shape]
      rw [shape] at notOther
      cases between with
      | nil => exact absurd List.getLast?_concat notOther
      | cons first between =>
          rw [List.getLast?_append, List.getLast?_append,
            List.getLast?_cons_cons]
    · rw [List.erase_append_right _ inFront,
        List.erase_cons_tail (by simpa using differs.symm),
        before_split notFront]

/-- Taking away an element looks the same from the other end. -/
theorem reverse_erase (noDuplicates : order.Nodup) :
    (order.erase other).reverse = order.reverse.erase other := by
  rw [noDuplicates.erase_eq_filter,
    (List.nodup_reverse.mpr noDuplicates).erase_eq_filter,
    List.filter_reverse]

end Neighbours
