import Dfk.Library.Chain
import Dfk.LinkedList.Source

/-!
# Hooks that represent a sequence

A list holds a sequence if its hooks are chained in this order and its header
agrees.  Then the assertions on its invariants pass, and both traversals go
through the sequence.
-/

namespace Dfk.LinkedList

open Chain

variable {ι κ : Type}

/-- A list in memory holds a sequence of hooks. -/
structure Holds (memory : Memory ι κ) (list : κ) (sequence : List ι) :
    Prop where
  linked : Linked memory.next memory.prev none sequence none
  noDuplicates : sequence.Nodup
  head : (memory.lists list).head = sequence.head?
  tail : (memory.lists list).tail = sequence.getLast?
  size : ∀ size ∈ (memory.lists list).size, size = sequence.length

/-- Following pointers leads through a sequence, and then to `NULL`. -/
def Follows (follow : ι → Option ι) (sequence : List ι) : Prop :=
  ∀ index : Nat, sequence[index]?.bind follow = sequence[index + 1]?

namespace Holds

variable {memory : Memory ι κ} {list : κ} {sequence : List ι}

theorem follows_next
    (holds : Holds memory list sequence) :
    Follows memory.next sequence :=
  holds.linked.getElem?_bind_next

theorem follows_prev
    (holds : Holds memory list sequence) :
    Follows memory.prev sequence.reverse :=
  (linked_reverse.mpr holds.linked).getElem?_bind_next

/-- The links of a hook in the middle of a sequence. -/
theorem links
    {before after : List ι} {hook : ι}
    (holds : Holds memory list (before ++ hook :: after)) :
    memory.prev hook = before.getLast? ∧ memory.next hook = after.head? := by
  have links := holds.linked.links
  rw [Option.or_none, Option.or_none] at links
  exact links

end Holds

section Checks

variable {follow : ι → Option ι} {sequence : List ι} {size : Option Nat}

/-- An assertion on the size of a list that holds a sequence. -/
theorem checkSize_of_forall
    {condition : Nat → Prop} [DecidablePred condition]
    (holds : ∀ kept ∈ size, condition kept) :
    checkSize size condition = .ok () := by
  cases size with
  | none =>
      rfl
  | some size =>
      exact check_pos (holds size rfl)

/-- Two steps along a sequence. -/
theorem Follows.twice
    (follows : Follows follow sequence) (index : Nat) :
    (sequence[index]?.bind follow).bind follow = sequence[index + 2]? := by
  rw [follows index, follows (index + 1)]

/-- Places of a sequence without duplicates differ. -/
theorem getElem?_ne_of_lt
    {slow fast : Nat}
    (noDuplicates : sequence.Nodup)
    (inside : slow < sequence.length)
    (ahead : slow < fast) :
    sequence[slow]? ≠ sequence[fast]? := by
  intro same
  have equal : slow = fast :=
    (List.getElem?_inj inside noDuplicates).mp same
  exact Nat.ne_of_lt ahead equal

variable [DecidableEq ι]

/-- A loop of `dfk__list_check_invariants` ends without a failure. -/
theorem checkTraversal_of_follows
    (follows : Follows follow sequence)
    (noDuplicates : sequence.Nodup)
    (several : 2 ≤ sequence.length)
    (sized : ∀ kept ∈ size, kept = sequence.length)
    {fuel : Nat} :
    ∀ {slow : Nat},
      slow < sequence.length →
        sequence.length ≤ slow + fuel →
          checkTraversal follow sequence.getLast? size fuel
              sequence[slow]? sequence[2 * slow]? slow =
            .ok () := by
  induction fuel with
  | zero =>
      intro slow inside enough
      omega
  | succ fuel inductionHypothesis =>
      intro slow inside enough
      rw [checkTraversal, List.getLast?_eq_getElem?]
      by_cases atEnd : slow = sequence.length - 1
      · have past : sequence[2 * slow]? = none := by
          rw [List.getElem?_eq_none_iff]
          omega
        rw [if_pos (by rw [← atEnd]), check_pos past, ok_bind]
        apply checkSize_of_forall
        intro kept isKept
        rw [sized kept isKept]
        omega
      · have notLast :
            ¬ sequence[slow]? = sequence[sequence.length - 1]? :=
          getElem?_ne_of_lt noDuplicates inside (by omega)
        have present : sequence[slow]? ≠ none := by
          rw [ne_eq, List.getElem?_eq_none_iff]
          omega
        have nextInside : slow + 1 < sequence.length := by
          omega
        have apart : sequence[slow + 1]? ≠ sequence[2 * slow + 2]? :=
          getElem?_ne_of_lt noDuplicates nextInside (by omega)
        have shorter : checkSize size (slow + 1 < ·) = .ok () := by
          apply checkSize_of_forall
          intro kept isKept
          rw [sized kept isKept]
          exact nextInside
        rw [if_neg notLast, check_pos present, ok_bind, follows slow,
          follows.twice, ← List.getLast?_eq_getElem?]
        dsimp only
        rw [check_pos apart, ok_bind, shorter, ok_bind]
        exact inductionHypothesis nextInside (by omega)

/-- A loop of `dfk__list_hook_check_invariants` ends without a failure. -/
theorem hookCheckTraversal_of_follows
    (follows : Follows follow sequence)
    (noDuplicates : sequence.Nodup)
    {fuel : Nat} :
    ∀ {slow fast : Nat} {hook : ι},
      sequence[slow]? = some hook →
        slow ≤ fast →
          sequence.length ≤ slow + fuel →
            hookCheckTraversal follow fuel hook sequence[fast]? =
              .ok () := by
  induction fuel with
  | zero =>
      intro slow fast hook isHook ahead enough
      have inside := (List.getElem?_eq_some_iff.mp isHook).1
      omega
  | succ fuel inductionHypothesis =>
      intro slow fast hook isHook ahead enough
      have isNext : follow hook = sequence[slow + 1]? := by
        rw [← follows slow, isHook, Option.bind_some]
      rw [hookCheckTraversal, isNext]
      cases next : sequence[slow + 1]? with
      | none =>
          rfl
      | some following =>
          have inside := (List.getElem?_eq_some_iff.mp next).1
          have apart : some following ≠ sequence[fast + 2]? := by
            rw [← next]
            exact getElem?_ne_of_lt noDuplicates inside (by omega)
          dsimp only
          rw [follows.twice, check_pos apart, ok_bind]
          exact inductionHypothesis next (by omega) (by omega)

end Checks

section Holds

variable [DecidableEq ι]
variable {memory : Memory ι κ} {list : κ} {sequence : List ι} {fuel : Nat}

/-- The invariants of a list that holds a sequence. -/
theorem Holds.listCheckInvariants
    (holds : Holds memory list sequence)
    (enough : sequence.length ≤ fuel) :
    listCheckInvariants fuel memory list = .ok () := by
  have head := holds.head
  have tail := holds.tail
  have noDuplicates := holds.noDuplicates
  rw [LinkedList.listCheckInvariants]
  rcases sequence with _ | ⟨first, _ | ⟨second, rest⟩⟩
  · rw [head, tail]
    dsimp only [List.head?, List.getLast?]
    rw [check_pos rfl, ok_bind, ok_bind]
    exact checkSize_of_forall holds.size
  · have isPrev : memory.prev first = none := holds.linked.1
    have isNext : memory.next first = none := holds.linked.2.1
    rw [head, tail]
    dsimp only [List.head?, List.getLast?, List.getLast]
    rw [if_pos rfl, check_pos isNext, ok_bind, check_pos isPrev, ok_bind]
    exact checkSize_of_forall holds.size
  · obtain ⟨last, isLast⟩ : ∃ last, (second :: rest).getLast? = some last := by
      rw [List.getLast?_cons]
      exact ⟨_, rfl⟩
    have isLastOfAll : (first :: second :: rest).getLast? = some last := by
      rw [List.getLast?_cons_cons, isLast]
    have apart : first ≠ last := by
      rintro rfl
      exact (List.nodup_cons.mp noDuplicates).1 (List.mem_of_getLast? isLast)
    have isPrev : memory.prev first = none := holds.linked.1
    have isNext : memory.next last = none := by
      obtain ⟨front, shape⟩ := List.getLast?_eq_some_iff.mp isLastOfAll
      rw [shape] at holds
      exact holds.links.2
    have forwards :
        checkTraversal memory.next (some last) (memory.lists list).size fuel
            (some first) (some first) 0 =
          .ok () := by
      rw [← isLastOfAll]
      exact checkTraversal_of_follows holds.follows_next noDuplicates
        (by simp) holds.size (Nat.succ_pos _) (by omega)
    have backwards :
        checkTraversal memory.prev (some first) (memory.lists list).size fuel
            (some last) (some last) 0 =
          .ok () := by
      have begins :
          (first :: second :: rest).reverse[0]? = some last := by
        rw [← List.head?_eq_getElem?, List.head?_reverse, isLastOfAll]
      have ends :
          (first :: second :: rest).reverse.getLast? = some first := by
        rw [List.getLast?_reverse]
        rfl
      rw [← begins, ← ends]
      apply checkTraversal_of_follows holds.follows_prev
        (List.nodup_reverse.mpr noDuplicates)
      · simp
      · rw [List.length_reverse]
        exact holds.size
      · simp
      · rw [List.length_reverse]
        omega
    rw [head, tail, isLastOfAll]
    dsimp only [List.head?]
    rw [if_neg apart, check_pos isPrev, ok_bind, check_pos isNext, ok_bind,
      forwards, ok_bind, backwards]

/-- The invariants of a hook in a list. -/
theorem Holds.hookCheckInvariants
    (holds : Holds memory list sequence)
    (enough : sequence.length ≤ fuel)
    {hook : ι}
    (member : hook ∈ sequence) :
    hookCheckInvariants fuel memory hook = .ok () := by
  obtain ⟨place, isHook⟩ := List.mem_iff_getElem?.mp member
  obtain ⟨placeBack, isHookBack⟩ :=
    List.mem_iff_getElem?.mp (List.mem_reverse.mpr member)
  have forwards :
      hookCheckTraversal memory.next fuel hook (some hook) = .ok () := by
    rw [← isHook]
    exact hookCheckTraversal_of_follows holds.follows_next
      holds.noDuplicates isHook (Nat.le_refl _) (by omega)
  have backwards :
      hookCheckTraversal memory.prev fuel hook (some hook) = .ok () := by
    rw [← isHookBack]
    apply hookCheckTraversal_of_follows holds.follows_prev
      (List.nodup_reverse.mpr holds.noDuplicates) isHookBack (Nat.le_refl _)
    rw [List.length_reverse]
    omega
  rw [LinkedList.hookCheckInvariants, forwards, ok_bind, backwards]

/-- The invariants of an iterator into a list. -/
theorem Holds.itCheckInvariants
    (holds : Holds memory list sequence)
    (enough : sequence.length ≤ fuel)
    {it : It ι}
    (member : ∀ hook ∈ it.value, hook ∈ sequence) :
    itCheckInvariants fuel memory it = .ok () := by
  rw [LinkedList.itCheckInvariants]
  cases isValue : it.value with
  | none =>
      rfl
  | some hook =>
      exact holds.hookCheckInvariants enough (member hook isValue)

end Holds

end Dfk.LinkedList
