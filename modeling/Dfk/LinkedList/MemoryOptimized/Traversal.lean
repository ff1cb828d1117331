import Dfk.LinkedList.MemoryOptimized.Representation

/-!
# Traversals with one pointer in a hook

An iterator that stands at a place of the sequence goes on to the next one, so
that loops over the iterators go through the sequence, and loops over the
reverse iterators through the reverse.
-/

namespace Dfk.LinkedList.MemoryOptimized

open XorChain

variable {κ : Type} {width : Nat}

/-- The hooks that a loop from an iterator goes through before it stops. -/
def visitFrom (memory : Memory width κ) (stop : It width) :
    Nat → It width → Except Fault (List (Address width))
  | 0, _ => .error .outOfFuel
  | rounds + 1, it =>
      if itEqual it stop then
        pure []
      else do
        let hook ← deref it.value
        let it ← itNext memory it
        let rest ← visitFrom memory stop rounds it
        pure (hook :: rest)

/-- The traversal from `dfk_list_begin` to `dfk_list_end`. -/
def forwards (fuel : Nat) (memory : Memory width κ) (list : κ) :
    Except Fault (List (Address width)) := do
  let it ← begin fuel memory list
  let stop ← listEnd fuel memory list
  visitFrom memory stop fuel it

/-- The traversal from `dfk_list_rbegin` to `dfk_list_rend`. -/
def backwards (fuel : Nat) (memory : Memory width κ) (list : κ) :
    Except Fault (List (Address width)) := do
  let rit ← rbegin fuel memory list
  let stop ← listEnd fuel memory list
  visitFrom memory stop fuel rit

variable {memory : Memory width κ} {list : κ} {fuel : Nat}
variable {sequence order : List (Address width)}

/-! ## Loops along an order of the hooks -/

/-- The next iterator, in either direction. -/
theorem itNext_of_stands
    {it : It width} {place : Nat}
    (stands : Stands order place it)
    (inside : place < order.length) :
    itNext memory it = .ok (hop memory.p it) := by
  have isValue : it.value = some order[place] := by
    rw [stands.value, List.getElem?_eq_getElem inside]
  rw [itNext, hop, isValue]
  rfl

/-- Where an iterator at an element goes on to. -/
theorem itNext_of_value
    {it : It width} {value : Address width}
    (isValue : it.value = some value) :
    itNext memory it =
      .ok
        { prev := some value
          value := combine it.prev (memory.p value) } := by
  rw [itNext, isValue, deref_some, ok_bind]
  rfl

section Loops

variable (threaded : Threaded memory.p order)

include threaded

/-- A loop goes through what is left of the order. -/
theorem visitFrom_of_stands
    {rounds : Nat} {atEnd : It width}
    (isEnd : atEnd.value = none) :
    ∀ {place : Nat} {it : It width},
      Stands order place it →
        place ≤ order.length →
          order.length < place + rounds →
            visitFrom memory atEnd rounds it = .ok (order.drop place) := by
  induction rounds with
  | zero =>
      intro place it _ within left
      omega
  | succ rounds inductionHypothesis =>
      intro place it stands within left
      rw [visitFrom, itEqual, isEnd, stands.value]
      cases isHook : order[place]? with
      | none =>
          rw [List.drop_eq_nil_of_le (List.getElem?_eq_none_iff.mp isHook)]
          rfl
      | some hook =>
          obtain ⟨inside, atPlace⟩ := List.getElem?_eq_some_iff.mp isHook
          rw [if_neg (by simp), deref_some, ok_bind,
            itNext_of_stands stands inside, ok_bind,
            inductionHypothesis (stands.hop threaded) inside (by omega),
            ok_bind, List.drop_eq_getElem_cons inside, atPlace]
          rfl

/-- The loop of `dfk_list_size` counts what is left of the order. -/
theorem countFrom_of_stands
    {rounds : Nat} {atEnd : It width}
    (isEnd : atEnd.value = none) :
    ∀ {place counted : Nat} {it : It width},
      Stands order place it →
        place ≤ order.length →
          order.length < place + rounds →
            countFrom memory atEnd rounds it counted =
              .ok (counted + (order.length - place)) := by
  induction rounds with
  | zero =>
      intro place counted it _ within left
      omega
  | succ rounds inductionHypothesis =>
      intro place counted it stands within left
      rw [countFrom, itEqual, isEnd, stands.value]
      cases isHook : order[place]? with
      | none =>
          have past := List.getElem?_eq_none_iff.mp isHook
          rw [Nat.sub_eq_zero_of_le past]
          rfl
      | some hook =>
          have inside := (List.getElem?_eq_some_iff.mp isHook).1
          rw [if_neg (by simp), itNext_of_stands stands inside,
            ok_bind,
            inductionHypothesis (stands.hop threaded) inside (by omega)]
          apply congrArg
          omega

/-- The loop of `dfk_list_it_from_value` stops at the value. -/
theorem seek_of_stands
    {rounds target : Nat} {value : Address width}
    (noDuplicates : order.Nodup)
    (isTarget : order[target]? = some value) :
    ∀ {place : Nat} {it : It width},
      Stands order place it →
        place ≤ target →
          target < place + rounds →
            ∃ found,
              seek memory value rounds it = .ok found ∧
                Stands order target found := by
  have targetInside := (List.getElem?_eq_some_iff.mp isTarget).1
  induction rounds with
  | zero =>
      intro place it _ before left
      omega
  | succ rounds inductionHypothesis =>
      intro place it stands before left
      rw [seek, stands.value, ← isTarget]
      by_cases arrived : place = target
      · subst arrived
        rw [if_pos rfl]
        exact ⟨it, rfl, stands⟩
      · have ahead : place < target := Nat.lt_of_le_of_ne before arrived
        have inside : place < order.length := ahead.trans targetInside
        rw [if_neg (getElem?_ne_of_lt noDuplicates inside ahead),
          itNext_of_stands stands inside, ok_bind]
        exact inductionHypothesis (stands.hop threaded) ahead (by omega)

end Loops

/-- Each node of a traversal leads to the next. -/
theorem link_of_visitFrom
    {atEnd : It width}
    {front rest : List (Address width)} {previous next : Address width} :
    ∀ {rounds : Nat} {it : It width},
      visitFrom memory atEnd rounds it =
          .ok (front ++ previous :: next :: rest) →
        memory.p previous =
          combine (front.getLast?.or it.prev) (some next) := by
  have visited {visit : List (Address width)} {node : Address width}
      {rounds : Nat} {it : It width}
      (visits : visitFrom memory atEnd rounds it = .ok (node :: visit)) :
      ∃ rounds',
        it.value = some node ∧
          visitFrom memory atEnd rounds'
              { prev := some node
                value := ptrXor it.prev (memory.p node) } =
            .ok visit := by
    cases rounds with
    | zero =>
        cases visits
    | succ rounds =>
        rw [visitFrom] at visits
        split_ifs at visits
        · cases visits
        · obtain ⟨first, isFirst, goesOn⟩ := of_bind visits
          obtain ⟨it', isNext, goesOn⟩ := of_bind goesOn
          obtain ⟨others, visitsOthers, isVisit⟩ := of_bind goesOn
          cases isVisit
          cases isValue : it.value with
          | none =>
              rw [isValue] at isFirst
              cases isFirst
          | some value =>
              rw [isValue] at isFirst
              cases isFirst
              rw [itNext, isValue] at isNext
              cases isNext
              exact ⟨rounds, rfl, visitsOthers⟩
  induction front with
  | nil =>
      intro rounds it visits
      obtain ⟨left, -, visitsNext⟩ := visited visits
      obtain ⟨-, isNext, -⟩ := visited visitsNext
      rw [List.getLast?_nil, Option.none_or, ← isNext, combine_cancel]
  | cons node front inductionHypothesis =>
      intro rounds it visits
      obtain ⟨left, -, visitsRest⟩ := visited visits
      rw [inductionHypothesis visitsRest, List.getLast?_cons]
      cases front.getLast? <;> rfl

/-! ## Lists that hold a sequence -/

namespace Holds

theorem begin
    (holds : Holds memory list sequence)
    (enough : sequence.length ≤ fuel) :
    begin fuel memory list =
      .ok { prev := none, value := sequence.head? } := by
  rw [MemoryOptimized.begin, holds.listCheckInvariants enough, ok_bind,
    holds.head]
  rfl

theorem rbegin
    (holds : Holds memory list sequence)
    (enough : sequence.length ≤ fuel) :
    rbegin fuel memory list =
      .ok { prev := none, value := sequence.reverse.head? } := by
  rw [MemoryOptimized.rbegin, holds.listCheckInvariants enough, ok_bind,
    holds.tail, List.head?_reverse]
  rfl

theorem listEnd
    (holds : Holds memory list sequence)
    (enough : sequence.length ≤ fuel) :
    listEnd fuel memory list = .ok { prev := none, value := none } := by
  rw [MemoryOptimized.listEnd, holds.listCheckInvariants enough]
  rfl

theorem front
    (holds : Holds memory list sequence)
    (enough : sequence.length ≤ fuel) :
    front fuel memory list = .ok sequence.head? := by
  rw [MemoryOptimized.front, holds.listCheckInvariants enough, ok_bind,
    holds.head, pure_eq_ok]

theorem back
    (holds : Holds memory list sequence)
    (enough : sequence.length ≤ fuel) :
    back fuel memory list = .ok sequence.getLast? := by
  rw [MemoryOptimized.back, holds.listCheckInvariants enough, ok_bind,
    holds.tail, pure_eq_ok]

/-- The forward traversal visits the sequence. -/
theorem forwards
    (holds : Holds memory list sequence)
    (enough : sequence.length < fuel) :
    forwards fuel memory list = .ok sequence := by
  rw [MemoryOptimized.forwards, holds.begin (Nat.le_of_lt enough), ok_bind,
    holds.listEnd (Nat.le_of_lt enough), ok_bind]
  apply visitFrom_of_stands holds.threaded rfl (stands_head sequence)
    (Nat.zero_le _)
  rw [Nat.zero_add]
  exact enough

/-- The reverse traversal visits the reverse of the sequence. -/
theorem backwards
    (holds : Holds memory list sequence)
    (enough : sequence.length < fuel) :
    backwards fuel memory list = .ok sequence.reverse := by
  rw [MemoryOptimized.backwards, holds.rbegin (Nat.le_of_lt enough), ok_bind,
    holds.listEnd (Nat.le_of_lt enough), ok_bind]
  apply visitFrom_of_stands holds.threaded.reverse rfl
    (stands_head sequence.reverse) (Nat.zero_le _)
  rw [Nat.zero_add, List.length_reverse]
  exact enough

/-- `dfk_list_size` is the length of the sequence, kept or counted. -/
theorem size_eq
    (holds : Holds memory list sequence)
    (enough : sequence.length < fuel) :
    MemoryOptimized.size fuel memory list = .ok sequence.length := by
  rw [MemoryOptimized.size, holds.listCheckInvariants (Nat.le_of_lt enough),
    ok_bind]
  cases kept : (memory.lists list).size with
  | some size =>
      exact congrArg Except.ok (holds.size size kept)
  | none =>
      dsimp only
      rw [holds.begin (Nat.le_of_lt enough), ok_bind,
        holds.listEnd (Nat.le_of_lt enough), ok_bind,
        countFrom_of_stands holds.threaded rfl (stands_head sequence)
          (Nat.zero_le _) (by rw [Nat.zero_add]; exact enough),
        Nat.zero_add, Nat.sub_zero]

/-- `dfk_list_it_from_value` finds the place of the value. -/
theorem itFromValue
    {place : Nat} {value : Address width}
    (holds : Holds memory list sequence)
    (enough : sequence.length < fuel)
    (isValue : sequence[place]? = some value) :
    ∃ found,
      itFromValue fuel memory list value = .ok found ∧
        Stands sequence place found := by
  have inside := (List.getElem?_eq_some_iff.mp isValue).1
  obtain ⟨found, seeks, stands⟩ :=
    @seek_of_stands _ _ memory sequence holds.threaded fuel place value
      holds.noDuplicates isValue 0 _ (stands_head sequence)
      (Nat.zero_le _) (by omega)
  refine ⟨found, ?_, stands⟩
  rw [MemoryOptimized.itFromValue,
    holds.listCheckInvariants (Nat.le_of_lt enough), ok_bind,
    holds.begin (Nat.le_of_lt enough), ok_bind, seeks]
  rfl

/-- `dfk_list_rit_from_value` finds the place of the value from behind. -/
theorem ritFromValue
    {place : Nat} {value : Address width}
    (holds : Holds memory list sequence)
    (enough : sequence.length < fuel)
    (isValue : sequence.reverse[place]? = some value) :
    ∃ found,
      ritFromValue fuel memory list value = .ok found ∧
        Stands sequence.reverse place found := by
  have inside := (List.getElem?_eq_some_iff.mp isValue).1
  rw [List.length_reverse] at inside
  obtain ⟨found, seeks, stands⟩ :=
    @seek_of_stands _ _ memory sequence.reverse holds.threaded.reverse fuel
      place value (List.nodup_reverse.mpr holds.noDuplicates) isValue 0 _
      (stands_head sequence.reverse) (Nat.zero_le _) (by omega)
  refine ⟨found, ?_, stands⟩
  rw [MemoryOptimized.ritFromValue,
    holds.listCheckInvariants (Nat.le_of_lt enough), ok_bind,
    holds.rbegin (Nat.le_of_lt enough), ok_bind, seeks]
  rfl

end Holds

end Dfk.LinkedList.MemoryOptimized
