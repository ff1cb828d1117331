import Dfk.LinkedList.Representation

/-!
# Traversals

A loop over the iterators of a list goes through its sequence, and a loop over
the reverse iterators through the reverse.  The same loop counts the elements
if the size is not kept.
-/

namespace Dfk.LinkedList

variable {ι κ : Type} [DecidableEq ι]

/-- The hooks that a loop from an iterator goes through before it stops. -/
def visitFrom (fuel : Nat) (memory : Memory ι κ)
    (next : It ι → Except Fault (It ι)) (stop : It ι) :
    Nat → It ι → Except Fault (List ι)
  | 0, _ => .error .outOfFuel
  | rounds + 1, it => do
      if ← itEqual fuel memory it stop then
        pure []
      else
        let hook ← deref it.value
        let it ← next it
        let rest ← visitFrom fuel memory next stop rounds it
        pure (hook :: rest)

/-- The traversal from `dfk_list_begin` to `dfk_list_end`. -/
def forwards (fuel : Nat) (memory : Memory ι κ) (list : κ) :
    Except Fault (List ι) := do
  let it ← begin fuel memory list
  let stop ← listEnd fuel memory list
  visitFrom fuel memory (itNext fuel memory) stop fuel it

/-- The traversal from `dfk_list_rbegin` to `dfk_list_rend`. -/
def backwards (fuel : Nat) (memory : Memory ι κ) (list : κ) :
    Except Fault (List ι) := do
  let rit ← rbegin fuel memory list
  let stop ← listEnd fuel memory list
  visitFrom fuel memory (ritNext fuel memory) stop fuel rit

namespace Holds

variable {memory : Memory ι κ} {list : κ} {sequence : List ι} {fuel : Nat}

theorem begin
    (holds : Holds memory list sequence)
    (enough : sequence.length ≤ fuel) :
    begin fuel memory list = .ok { value := sequence.head? } := by
  have checked :
      LinkedList.itCheckInvariants fuel memory
          { value := sequence.head? : It ι } =
        .ok () :=
    holds.itCheckInvariants enough fun _ => List.mem_of_head?
  rw [LinkedList.begin, holds.listCheckInvariants enough, ok_bind, holds.head]
  dsimp only
  rw [checked, ok_bind, pure_eq_ok]

theorem rbegin
    (holds : Holds memory list sequence)
    (enough : sequence.length ≤ fuel) :
    rbegin fuel memory list = .ok { value := sequence.getLast? } := by
  have checked :
      LinkedList.itCheckInvariants fuel memory
          { value := sequence.getLast? : It ι } =
        .ok () :=
    holds.itCheckInvariants enough fun _ => List.mem_of_getLast?
  rw [LinkedList.rbegin, holds.listCheckInvariants enough, ok_bind,
    holds.tail]
  dsimp only
  rw [checked, ok_bind, pure_eq_ok]

theorem listEnd
    (holds : Holds memory list sequence)
    (enough : sequence.length ≤ fuel) :
    listEnd fuel memory list = .ok { value := none } := by
  rw [LinkedList.listEnd, holds.listCheckInvariants enough]
  rfl

/-- Whether an iterator into a list is at its end. -/
theorem itEqual_end
    (holds : Holds memory list sequence)
    (enough : sequence.length ≤ fuel)
    {value : Option ι}
    (member : ∀ hook ∈ value, hook ∈ sequence) :
    itEqual fuel memory { value := value } { value := none } =
      .ok (decide (value = none)) := by
  have checked :
      LinkedList.itCheckInvariants fuel memory { value := value : It ι } =
        .ok () :=
    holds.itCheckInvariants enough member
  rw [itEqual, checked]
  rfl

/-- The next iterator into a list, in either direction. -/
theorem advance
    (holds : Holds memory list sequence)
    (enough : sequence.length ≤ fuel)
    {follow : ι → Option ι} {hook : ι}
    (member : hook ∈ sequence)
    (memberNext : ∀ next ∈ follow hook, next ∈ sequence) :
    advance fuel memory follow { value := some hook } =
      .ok { value := follow hook } := by
  have checked :
      LinkedList.itCheckInvariants fuel memory { value := some hook : It ι } =
        .ok () :=
    holds.itCheckInvariants enough fun other isHook => by
      cases isHook
      exact member
  have checkedNext :
      LinkedList.itCheckInvariants fuel memory
          { value := follow hook : It ι } =
        .ok () :=
    holds.itCheckInvariants enough memberNext
  rw [LinkedList.advance, checked, ok_bind, deref_some, ok_bind]
  dsimp only
  rw [checkedNext, ok_bind, pure_eq_ok]

section Loops

variable {follow : ι → Option ι} {order : List ι}
variable (holds : Holds memory list sequence)
variable (enough : sequence.length ≤ fuel)
variable (follows : Follows follow order)
variable (members : ∀ hook ∈ order, hook ∈ sequence)

include holds enough follows members

/-- One round of a loop along an order of the hooks of a list. -/
theorem round
    {index : Nat} {hook : ι}
    (isHook : order[index]? = some hook) :
    itEqual fuel memory { value := order[index]? } { value := none } =
        .ok false ∧
      LinkedList.advance fuel memory follow { value := order[index]? } =
        .ok { value := order[index + 1]? } := by
  have isNext : follow hook = order[index + 1]? := by
    rw [← follows index, isHook, Option.bind_some]
  have inside {place : Nat} : ∀ next ∈ order[place]?, next ∈ sequence :=
    fun next isNext => members next (List.mem_of_getElem? isNext)
  refine ⟨?_, ?_⟩
  · rw [holds.itEqual_end enough inside, isHook]
    rfl
  · rw [isHook, ← isNext]
    apply holds.advance enough (members hook (List.mem_of_getElem? isHook))
    rw [isNext]
    exact inside

/-- A loop goes through what is left of the order. -/
theorem visitFrom
    {rounds : Nat} :
    ∀ {index : Nat},
      index ≤ order.length →
        order.length < index + rounds →
          visitFrom fuel memory (LinkedList.advance fuel memory follow)
              { value := none } rounds { value := order[index]? } =
            .ok (order.drop index) := by
  induction rounds with
  | zero =>
      intro index within left
      omega
  | succ rounds inductionHypothesis =>
      intro index within left
      rw [LinkedList.visitFrom]
      cases isHook : order[index]? with
      | none =>
          have past : order.length ≤ index :=
            List.getElem?_eq_none_iff.mp isHook
          rw [holds.itEqual_end enough (by simp), ok_bind,
            List.drop_eq_nil_of_le past]
          rfl
      | some hook =>
          obtain ⟨goesOn, next⟩ :=
            holds.round enough follows members isHook
          obtain ⟨inside, atIndex⟩ := List.getElem?_eq_some_iff.mp isHook
          rw [isHook] at goesOn next
          rw [goesOn, ok_bind, if_neg Bool.false_ne_true, deref_some,
            ok_bind, next, ok_bind, inductionHypothesis inside (by omega), ok_bind,
            List.drop_eq_getElem_cons inside, atIndex]
          rfl

/-- The loop of `dfk_list_size` counts what is left of the order. -/
theorem countFrom
    (isNext : follow = memory.next)
    {rounds : Nat} :
    ∀ {index counted : Nat},
      index ≤ order.length →
        order.length < index + rounds →
          countFrom fuel memory { value := none } rounds
              { value := order[index]? } counted =
            .ok (counted + (order.length - index)) := by
  induction rounds with
  | zero =>
      intro index counted within left
      omega
  | succ rounds inductionHypothesis =>
      intro index counted within left
      rw [LinkedList.countFrom]
      cases isHook : order[index]? with
      | none =>
          have past : order.length ≤ index :=
            List.getElem?_eq_none_iff.mp isHook
          rw [holds.itEqual_end enough (by simp), ok_bind,
            Nat.sub_eq_zero_of_le past]
          rfl
      | some hook =>
          obtain ⟨goesOn, next⟩ :=
            holds.round enough follows members isHook
          have inside := (List.getElem?_eq_some_iff.mp isHook).1
          rw [isHook] at goesOn next
          rw [goesOn, ok_bind, if_neg Bool.false_ne_true, itNext, ← isNext,
            next, ok_bind, inductionHypothesis inside (by omega)]
          apply congrArg
          omega

end Loops

/-- The forward traversal visits the sequence. -/
theorem forwards
    (holds : Holds memory list sequence)
    (enough : sequence.length < fuel) :
    forwards fuel memory list = .ok sequence := by
  have visited :=
    @visitFrom ι κ _ memory list sequence fuel memory.next sequence holds
      (Nat.le_of_lt enough) holds.follows_next (fun _ member => member) fuel
      0 (Nat.zero_le _) (by omega)
  rw [LinkedList.forwards, holds.begin (Nat.le_of_lt enough), ok_bind,
    holds.listEnd (Nat.le_of_lt enough), ok_bind, List.head?_eq_getElem?]
  exact visited

/-- The reverse traversal visits the reverse of the sequence. -/
theorem backwards
    (holds : Holds memory list sequence)
    (enough : sequence.length < fuel) :
    backwards fuel memory list = .ok sequence.reverse := by
  have visited :=
    @visitFrom ι κ _ memory list sequence fuel memory.prev sequence.reverse
      holds (Nat.le_of_lt enough) holds.follows_prev
      (fun _ member => List.mem_reverse.mp member) fuel 0
      (Nat.zero_le _) (by rw [List.length_reverse]; omega)
  rw [LinkedList.backwards, holds.rbegin (Nat.le_of_lt enough), ok_bind,
    holds.listEnd (Nat.le_of_lt enough), ok_bind, ← List.head?_reverse,
    List.head?_eq_getElem?]
  exact visited

/-- `dfk_list_size` is the length of the sequence, kept or counted. -/
theorem size_eq
    (holds : Holds memory list sequence)
    (enough : sequence.length < fuel) :
    LinkedList.size fuel memory list = .ok sequence.length := by
  rw [LinkedList.size, holds.listCheckInvariants (Nat.le_of_lt enough),
    ok_bind]
  cases kept : (memory.lists list).size with
  | some size =>
      exact congrArg Except.ok (holds.size size kept)
  | none =>
      have counted :=
        @countFrom ι κ _ memory list sequence fuel memory.next sequence holds
          (Nat.le_of_lt enough) holds.follows_next (fun _ member => member)
          rfl fuel 0 0 (Nat.zero_le _) (by omega)
      dsimp only
      rw [holds.begin (Nat.le_of_lt enough), ok_bind,
        holds.listEnd (Nat.le_of_lt enough), ok_bind,
        List.head?_eq_getElem?, counted, Nat.zero_add, Nat.sub_zero]

end Holds

end Dfk.LinkedList
