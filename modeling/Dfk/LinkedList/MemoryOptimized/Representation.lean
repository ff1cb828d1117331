import Dfk.LinkedList.MemoryOptimized.Source
import Dfk.LinkedList.Representation

/-!
# Hooks with one pointer that represent a sequence

A list holds a sequence if its hooks are threaded in this order and its header
agrees.  Then the assertions on its invariants pass, and both traversals go
through the sequence.
-/

namespace Dfk.LinkedList.MemoryOptimized

open XorChain

variable {κ : Type} {width : Nat}

/-- A list in memory holds a sequence of hooks. -/
structure Holds (memory : Memory width κ) (list : κ)
    (sequence : List (Address width)) : Prop where
  threaded : Threaded memory.p sequence
  noDuplicates : sequence.Nodup
  head : (memory.lists list).head = sequence.head?
  tail : (memory.lists list).tail = sequence.getLast?
  size : ∀ size ∈ (memory.lists list).size, size = sequence.length

/-! ## Invariants -/

section Checks

variable {p : Address width → Pointer width}
variable {sequence : List (Address width)} {size : Option Nat}

/-- A loop of `dfk__list_check_invariants` ends without a failure. -/
theorem checkTraversal_of_stands
    (threaded : Threaded p sequence)
    (noDuplicates : sequence.Nodup)
    (several : 2 ≤ sequence.length)
    (sized : ∀ kept ∈ size, kept = sequence.length)
    {fuel : Nat} :
    ∀ {slow : Nat} {i j : Cursor width},
      Stands sequence slow i →
        Stands sequence (2 * slow) j →
          slow < sequence.length →
            sequence.length ≤ slow + fuel →
              checkTraversal p sequence.getLast? size fuel i j slow =
                .ok () := by
  induction fuel with
  | zero =>
      intro slow i j _ _ inside enough
      exact absurd enough (Nat.not_le.mpr inside)
  | succ fuel inductionHypothesis =>
      intro slow i j stands standsFast inside enough
      rw [checkTraversal, List.getLast?_eq_getElem?, stands.value]
      by_cases atEnd : slow = sequence.length - 1
      · have past : j.value = none := by
          rw [standsFast.value, List.getElem?_eq_none_iff]
          omega
        rw [if_pos (by rw [← atEnd]), check_pos past, ok_bind]
        apply checkSize_of_forall
        intro kept isKept
        rw [sized kept isKept]
        omega
      · have notLast :
            ¬ sequence[slow]? = sequence[sequence.length - 1]? :=
          getElem?_ne_of_lt noDuplicates inside (by omega)
        have present : sequence[slow]? ≠ none := by
          rw [ne_eq, List.getElem?_eq_none_iff]
          omega
        have nextInside : slow + 1 < sequence.length := by
          omega
        have next : Stands sequence (slow + 1) (hop p i) :=
          stands.hop threaded
        have nextFast :
            Stands sequence (2 * (slow + 1)) (hop p (hop p j)) :=
          standsFast.hop_twice threaded
        have apart : (hop p i).value ≠ (hop p (hop p j)).value := by
          rw [next.value, nextFast.value]
          exact getElem?_ne_of_lt noDuplicates nextInside (by omega)
        have shorter : checkSize size (slow + 1 < ·) = .ok () := by
          apply checkSize_of_forall
          intro kept isKept
          rw [sized kept isKept]
          exact nextInside
        rw [if_neg notLast, check_pos present, ok_bind,
          ← List.getLast?_eq_getElem?]
        dsimp only
        rw [check_pos apart, ok_bind, shorter, ok_bind]
        exact inductionHypothesis next nextFast nextInside (by omega)

end Checks

section Holds

variable {memory : Memory width κ} {list : κ}
variable {sequence : List (Address width)} {fuel : Nat}

/-- The invariants of a list that holds a sequence. -/
theorem Holds.listCheckInvariants
    (holds : Holds memory list sequence)
    (enough : sequence.length ≤ fuel) :
    listCheckInvariants fuel memory list = .ok () := by
  have head := holds.head
  have tail := holds.tail
  have noDuplicates := holds.noDuplicates
  rw [MemoryOptimized.listCheckInvariants]
  rcases sequence with _ | ⟨first, _ | ⟨second, rest⟩⟩
  · rw [head, tail]
    dsimp only [List.head?, List.getLast?]
    rw [check_pos rfl, ok_bind, ok_bind]
    exact checkSize_of_forall holds.size
  · have alone : memory.p first = none :=
      (holds.threaded [] first [] rfl).trans (combine_self none)
    rw [head, tail]
    dsimp only [List.head?, List.getLast?, List.getLast]
    rw [if_pos rfl, check_pos alone, ok_bind]
    exact checkSize_of_forall holds.size
  · obtain ⟨last, isLast⟩ : ∃ last, (second :: rest).getLast? = some last := by
      rw [List.getLast?_cons]
      exact ⟨_, rfl⟩
    have isLastOfAll : (first :: second :: rest).getLast? = some last := by
      rw [List.getLast?_cons_cons, isLast]
    have apart : first ≠ last := by
      rintro rfl
      exact (List.nodup_cons.mp noDuplicates).1 (List.mem_of_getLast? isLast)
    have forwards :
        checkTraversal memory.p (some last) (memory.lists list).size fuel
            { prev := none, value := some first }
            { prev := none, value := some first } 0 =
          .ok () := by
      have starts := stands_head (first :: second :: rest)
      rw [← isLastOfAll]
      exact checkTraversal_of_stands holds.threaded noDuplicates (by simp)
        holds.size starts starts (Nat.succ_pos _) (by omega)
    have backwards :
        checkTraversal memory.p (some first) (memory.lists list).size fuel
            { prev := none, value := some last }
            { prev := none, value := some last } 0 =
          .ok () := by
      have starts := stands_head (first :: second :: rest).reverse
      have ends :
          (first :: second :: rest).reverse.getLast? = some first := by
        rw [List.getLast?_reverse]
        rfl
      rw [List.head?_reverse, isLastOfAll] at starts
      rw [← ends]
      apply checkTraversal_of_stands holds.threaded.reverse
        (List.nodup_reverse.mpr noDuplicates) _ _ starts starts
      · simp
      · rw [List.length_reverse]
        omega
      · simp
      · rw [List.length_reverse]
        exact holds.size
    rw [head, tail, isLastOfAll]
    dsimp only [List.head?]
    rw [if_neg apart, forwards, ok_bind, backwards]

end Holds

end Dfk.LinkedList.MemoryOptimized
