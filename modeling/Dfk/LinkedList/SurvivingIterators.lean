import Dfk.Library.Neighbours
import Dfk.LinkedList.Equivalence

/-!
# Iterators next to an edit

An iterator stands at an element while an element is inserted next to it, or
another one is erased through an iterator of its own.  Then it goes on.  What
it visits is what is behind its element in the modified list, if it only knows
its element.  With one pointer in a hook it also has to know what is in front.
-/

namespace Dfk.LinkedList

/-! ## Loops over the rest of a list -/

section Loops

variable {ι κ : Type} {layout : Layout ι κ}

/-- The elements that a loop visits from an iterator on. -/
def Layout.visitFrom (layout : Layout ι κ) (direction : Direction)
    (fuel : Nat) (memory : layout.Memory) (stop : layout.It) :
    Nat → layout.It → Except Fault (List ι)
  | 0, _ => .error .outOfFuel
  | rounds + 1, it => do
      if ← layout.equal fuel memory it stop then
        pure []
      else
        let value ← deref (layout.value it)
        let it ← layout.next direction fuel memory it
        let rest ← layout.visitFrom direction fuel memory stop rounds it
        pure (value :: rest)

/-- The elements that an iterator visits when it goes on. -/
def Layout.goOn (layout : Layout ι κ) (direction : Direction) (fuel : Nat)
    (memory : layout.Memory) (list : κ) (it : layout.It) :
    Except Fault (List ι) := do
  let stop ← layout.listEnd fuel memory list
  let it ← layout.next direction fuel memory it
  layout.visitFrom direction fuel memory stop fuel it

end Loops

/-! ## Edits -/

/-- A single change of a list. -/
inductive Edit (ι : Type) where
  /-- `dfk_list_insert` or `dfk_list_rinsert` -/
  | insert (direction : Direction) (hook : ι)
  /-- `dfk_list_erase` or `dfk_list_rerase` -/
  | erase (direction : Direction) (hook : ι)
  deriving Repr, DecidableEq

section Edits

variable {ι κ : Type}

/-- The direction of the iterator that an edit is made through. -/
def Edit.direction : Edit ι → Direction
  | .insert direction _ => direction
  | .erase direction _ => direction

/-- The element at which an edit next to another one is made. -/
def Edit.target (value : ι) : Edit ι → ι
  | .insert _ _ => value
  | .erase _ hook => hook

/-- Do an edit through an iterator. -/
def Edit.perform (layout : Layout ι κ) (fuel : Nat) (memory : layout.Memory)
    (list : κ) (position : layout.It) : Edit ι → Except Fault layout.Memory
  | .insert direction hook =>
      layout.insert direction fuel memory list hook position
  | .erase direction _ => layout.erase direction fuel memory list position

/-- The operation that an edit next to an element is. -/
def Edit.operation (list : κ) (value : ι) : Edit ι → Operation ι κ
  | .insert direction hook => direction.insertion list hook (some value)
  | .erase direction hook => direction.erasure list hook

/-- A new element is inserted, or another one of the list is erased. -/
def Edit.Valid (sequences : Sequences ι κ) (list : κ) (value : ι) :
    Edit ι → Prop
  | .insert _ hook => ∀ other, hook ∉ sequences other
  | .erase _ hook => hook ∈ sequences list ∧ hook ≠ value

/-- A list, an iterator of it, and the iterator that the edit is made with. -/
structure Scene (layout : Layout ι κ) where
  memory : layout.Memory
  it : layout.It
  position : layout.It

/-- What can be seen after an edit. -/
structure Sight (ι : Type) where
  elements : List ι
  visited : List ι
  deriving Repr, DecidableEq

/-- Do the edit, look at the list, and go on with the iterator. -/
def Scene.observe {layout : Layout ι κ} (scene : Scene layout) (fuel : Nat)
    (list : κ) (direction : Direction) (edit : Edit ι) :
    Except Fault (Sight ι) := do
  let memory ←
    edit.perform layout fuel scene.memory list scene.position
  let elements ← layout.traverse .forth fuel memory list
  let visited ← layout.goOn direction fuel memory list scene.it
  pure { elements := elements, visited := visited }

variable [DecidableEq ι] [DecidableEq κ]

/-- What should be seen after an edit. -/
def Edit.sight (edit : Edit ι) (sequences : Sequences ι κ) (list : κ)
    (direction : Direction) (value : ι) : Sight ι where
  elements := (edit.operation list value).apply sequences list
  visited :=
    Neighbours.behind value
      (direction.order ((edit.operation list value).apply sequences list))

/--
The iterator stands at an element, and the one for the edit where that is made.
-/
structure Scene.Shows {layout : Layout ι κ}
    (Represents : layout.Memory → Sequences ι κ → Prop)
    (Stands : List ι → Nat → layout.It → Prop) (scene : Scene layout)
    (sequences : Sequences ι κ) (list : κ) (direction : Direction) (value : ι)
    (edit : Edit ι) : Prop where
  memory : Represents scene.memory sequences
  it :
    Stands (direction.order (sequences list))
      ((direction.order (sequences list)).idxOf value) scene.it
  position :
    Stands (edit.direction.order (sequences list))
      ((edit.direction.order (sequences list)).idxOf (edit.target value))
      scene.position

/-- An edit that is an erasure is made where it is erasable. -/
def Edit.Erases (Erasable : Direction → List ι → Nat → Prop)
    (sequence : List ι) : Edit ι → Prop
  | .insert _ _ => True
  | .erase direction hook =>
      Erasable direction sequence ((direction.order sequence).idxOf hook)

/--
What is in front of the element stays there: nothing is inserted in the
direction of the iterator, and it is not the element in front that is erased.
-/
def Edit.LeavesFront (direction : Direction) (value : ι)
    (sequence : List ι) : Edit ι → Prop
  | .insert edited _ => edited ≠ direction
  | .erase _ hook => ¬ [hook, value] <:+: direction.order sequence

end Edits

/-! ## What is in front of an element -/

section Neighbourhood

variable {ι κ : Type} {direction : Direction} {sequence : List ι}

theorem order_order :
    direction.order (direction.order sequence) = sequence := by
  cases direction with
  | forth => rfl
  | back => exact List.reverse_reverse sequence

/-- Two directions that are not the same are opposite. -/
theorem order_of_ne
    {other : Direction}
    (differs : other ≠ direction) :
    other.order sequence = (direction.order sequence).reverse := by
  cases other with
  | forth =>
      cases direction with
      | forth => exact absurd rfl differs
      | back => exact (List.reverse_reverse sequence).symm
  | back =>
      cases direction with
      | forth => rfl
      | back => exact absurd rfl differs

theorem nodup_order (noDuplicates : sequence.Nodup) :
    (direction.order sequence).Nodup := by
  cases direction with
  | forth => exact noDuplicates
  | back => exact List.nodup_reverse.mpr noDuplicates

variable [DecidableEq ι] [DecidableEq κ]
variable {sequences : Sequences ι κ} {list : κ} {value : ι} {edit : Edit ι}

/-- An element is where it is found. -/
theorem getElem?_order_idxOf
    (direction : Direction)
    (member : value ∈ sequence) :
    (direction.order sequence)[(direction.order sequence).idxOf value]? =
      some value :=
  List.getElem?_idxOf (mem_order.mpr member)

theorem idxOf_order_lt (member : value ∈ sequence) :
    (direction.order sequence).idxOf value < sequence.length := by
  rw [← length_order]
  exact List.idxOf_lt_length_of_mem (mem_order.mpr member)

/-- An erasure is the same in the order of an iterator. -/
theorem order_erase
    {hook : ι}
    (noDuplicates : sequence.Nodup) :
    direction.order (sequence.erase hook) =
      (direction.order sequence).erase hook := by
  cases direction with
  | forth => rfl
  | back => exact Neighbours.reverse_erase noDuplicates

/-- A list after an insertion, in the order of the iterator for it. -/
theorem insertion_same
    {hook : ι} {position : Option ι} :
    (direction.insertion list hook position).apply sequences list =
      direction.order
        (insertBefore hook position (direction.order (sequences list))) := by
  cases direction <;> exact Function.update_self ..

/-- A list after an erasure. -/
theorem erasure_same
    {hook : ι} :
    (direction.erasure list hook).apply sequences list =
      (sequences list).erase hook := by
  cases direction <;> exact Function.update_self ..

/-- A sequence around an element, after an insertion next to it. -/
theorem order_insertion
    {edited : Direction} {front rest : List ι} {hook : ι}
    (noDuplicates : (sequences list).Nodup)
    (shape : direction.order (sequences list) = front ++ value :: rest) :
    direction.order
        ((edited.insertion list hook (some value)).apply sequences list) =
      if edited = direction then front ++ hook :: value :: rest
      else front ++ value :: hook :: rest := by
  have noDuplicates' : (direction.order (sequences list)).Nodup :=
    nodup_order noDuplicates
  rw [shape] at noDuplicates'
  rw [insertion_same]
  by_cases same : edited = direction
  · have notFront : value ∉ front := fun member =>
      List.disjoint_of_nodup_append noDuplicates' member
        (List.mem_cons_self ..)
    subst same
    rw [if_pos rfl, order_order, shape, insertBefore_some notFront]
  · have notRest : value ∉ rest.reverse := fun member =>
      (List.nodup_cons.mp (List.Nodup.of_append_right noDuplicates')).1
        (List.mem_reverse.mp member)
    have reversed :
        (front ++ value :: rest).reverse =
          rest.reverse ++ value :: front.reverse := by
      simp
    rw [if_neg same, order_of_ne (Ne.symm same), order_order,
      order_of_ne same, shape, reversed, insertBefore_some notRest]
    simp

/-- The element is still in the list after an edit next to it. -/
theorem Edit.Valid.mem
    (valid : edit.Valid sequences list value)
    (noDuplicates : (sequences list).Nodup)
    (member : value ∈ sequences list) :
    value ∈ (edit.operation list value).apply sequences list := by
  cases edit with
  | insert edited hook =>
      obtain ⟨front, rest, shape, -⟩ := Neighbours.split member noDuplicates
      have inserted :=
        @order_insertion ι κ .forth _ _ sequences list value edited front
          rest hook noDuplicates shape
      change (edited.insertion list hook (some value)).apply sequences list =
        _ at inserted
      rw [Edit.operation, inserted]
      by_cases same : edited = .forth <;> simp [same]
  | erase edited hook =>
      rw [Edit.operation, erasure_same]
      exact (List.mem_erase_of_ne valid.2.symm).mpr member

/-- What is in front of the element stays there or not. -/
theorem Edit.Valid.before_iff
    (valid : edit.Valid sequences list value)
    (noDuplicates : (sequences list).Nodup)
    (member : value ∈ sequences list) :
    Neighbours.before value
          (direction.order
            ((edit.operation list value).apply sequences list)) =
        Neighbours.before value (direction.order (sequences list)) ↔
      edit.LeavesFront direction value (sequences list) := by
  have noDuplicates' : (direction.order (sequences list)).Nodup :=
    nodup_order noDuplicates
  have member' : value ∈ direction.order (sequences list) :=
    mem_order.mpr member
  cases edit with
  | insert edited hook =>
      obtain ⟨front, rest, shape, notFront⟩ :=
        Neighbours.split member' noDuplicates'
      rw [Edit.operation, order_insertion noDuplicates shape, shape,
        Neighbours.before_split notFront, Edit.LeavesFront]
      by_cases same : edited = direction
      · have isNew : hook ∉ sequences list := valid list
        have differs : value ≠ hook := fun isHook => isNew (isHook ▸ member)
        rw [if_pos same, Neighbours.before_insert_front notFront differs]
        refine ⟨fun isHook => ?_, fun notSame => absurd same notSame⟩
        have inFront := List.mem_of_getLast? isHook.symm
        have isOld : hook ∈ direction.order (sequences list) := by
          rw [shape]
          exact List.mem_append_left _ inFront
        exact absurd (mem_order.mp isOld) isNew
      · rw [if_neg same, Neighbours.before_split notFront]
        exact ⟨fun _ => same, fun _ => rfl⟩
  | erase edited hook =>
      rw [Edit.operation, erasure_same, order_erase noDuplicates,
        Neighbours.before_erase_iff member' noDuplicates' valid.2,
        Edit.LeavesFront, ← Neighbours.before_eq_some_iff member'
          noDuplicates']

end Neighbourhood

/-! ## Iterators that survive -/

section Survival

variable {ι κ : Type} [DecidableEq ι] [DecidableEq κ] {layout : Layout ι κ}
variable {Represents : layout.Memory → Sequences ι κ → Prop}
variable {Stands : List ι → Nat → layout.It → Prop}
variable {Erasable : Direction → List ι → Nat → Prop}
variable {memory : layout.Memory} {sequences : Sequences ι κ} {fuel : Nat}
variable {direction : Direction} {list : κ} {value : ι} {edit : Edit ι}
variable {scene : Scene layout}

/-- A loop goes through what is left of the order. -/
theorem Layout.Faithful.visitFrom
    {stop : layout.It} {rounds : Nat}
    (faithful : layout.Faithful Represents Stands Erasable)
    (represents : Represents memory sequences)
    (room : Room fuel sequences)
    (isEnd : layout.value stop = none) :
    ∀ {place : Nat} {it : layout.It},
      Stands (direction.order (sequences list)) place it →
        place ≤ (sequences list).length →
          (sequences list).length < place + rounds →
            layout.visitFrom direction fuel memory stop rounds it =
              .ok ((direction.order (sequences list)).drop place) := by
  induction rounds with
  | zero =>
      intro place it _ within left
      omega
  | succ rounds inductionHypothesis =>
      intro place it stands within left
      have isValue := faithful.value stands
      have compares := faithful.equal represents room stands isEnd
      rw [Layout.visitFrom, compares, ok_bind]
      cases isHook : (direction.order (sequences list))[place]? with
      | none =>
          have past := List.getElem?_eq_none_iff.mp isHook
          rw [List.drop_eq_nil_of_le past]
          rfl
      | some hook =>
          obtain ⟨inside, atPlace⟩ := List.getElem?_eq_some_iff.mp isHook
          have inside' : place < (sequences list).length := by
            rw [← length_order]
            exact inside
          obtain ⟨it', advances, standsNext⟩ :=
            faithful.next represents room stands inside'
          have goesOn : ¬ (decide (some hook = none) = true) := by
            simp
          rw [if_neg goesOn, isValue, isHook, deref_some, ok_bind, advances,
            ok_bind, inductionHypothesis standsNext inside' (by omega),
            ok_bind, List.drop_eq_getElem_cons inside, atPlace]
          rfl

/-- An iterator that stands at an element visits what is behind it. -/
theorem Layout.Faithful.goOn
    {it : layout.It}
    (faithful : layout.Faithful Represents Stands Erasable)
    (represents : Represents memory sequences)
    (room : Room fuel sequences)
    (member : value ∈ sequences list)
    (stands :
      Stands (direction.order (sequences list))
        ((direction.order (sequences list)).idxOf value) it) :
    layout.goOn direction fuel memory list it =
      .ok (Neighbours.behind value (direction.order (sequences list))) := by
  have inside :
      (direction.order (sequences list)).idxOf value <
        (sequences list).length :=
    idxOf_order_lt member
  obtain ⟨stop, ends, standsEnd⟩ :=
    faithful.listEnd represents room direction list
  have isEnd : layout.value stop = none := by
    rw [faithful.value standsEnd]
    exact List.getElem?_eq_none (Nat.le_of_eq length_order)
  obtain ⟨it', advances, standsNext⟩ :=
    faithful.next represents room stands inside
  have enough := room list
  rw [Layout.goOn, ends, ok_bind, advances, ok_bind,
    faithful.visitFrom represents room isEnd standsNext inside (by omega)]
  rfl

/-- Where an edit succeeds, it is what it is on sequences. -/
theorem Layout.Faithful.performEdit
    (faithful : layout.Faithful Represents Stands Erasable)
    (shows :
      scene.Shows Represents Stands sequences list direction value edit)
    (room : Room fuel sequences)
    (member : value ∈ sequences list)
    (valid : edit.Valid sequences list value)
    (erases : edit.Erases Erasable (sequences list)) :
    ∃ written,
      edit.perform layout fuel scene.memory list scene.position =
          .ok written ∧
        Represents written ((edit.operation list value).apply sequences) := by
  have stands := shows.position
  cases edit with
  | insert edited hook =>
      have inserted :=
        faithful.insert shows.memory room valid stands
          (Nat.le_of_lt (idxOf_order_lt member))
      dsimp only [Edit.target, Edit.direction] at inserted
      rw [getElem?_order_idxOf _ member] at inserted
      exact inserted
  | erase edited hook =>
      exact faithful.erase shows.memory room stands
        (getElem?_order_idxOf _ valid.1) erases

/-- After an edit that succeeds the list is seen as it should be. -/
theorem Layout.Faithful.observe
    {written : layout.Memory}
    (faithful : layout.Faithful Represents Stands Erasable)
    (represents :
      Represents written ((edit.operation list value).apply sequences))
    (room : Room fuel ((edit.operation list value).apply sequences))
    (performs :
      edit.perform layout fuel scene.memory list scene.position =
        .ok written) :
    scene.observe fuel list direction edit =
      (layout.goOn direction fuel written list scene.it).map fun visited =>
        { elements := (edit.operation list value).apply sequences list
          visited := visited } := by
  have observes := (faithful.observes represents room list).forwards
  rw [Scene.observe, performs, ok_bind, observes, ok_bind]
  cases layout.goOn direction fuel written list scene.it <;> rfl

/-- An iterator that stands at its element after the edit survives it. -/
theorem Layout.Faithful.survives
    (faithful : layout.Faithful Represents Stands Erasable)
    (shows :
      scene.Shows Represents Stands sequences list direction value edit)
    (room : Room fuel sequences)
    (roomAfter : Room fuel ((edit.operation list value).apply sequences))
    (member : value ∈ sequences list)
    (valid : edit.Valid sequences list value)
    (erases : edit.Erases Erasable (sequences list))
    (stands :
      Stands
        (direction.order ((edit.operation list value).apply sequences list))
        ((direction.order
            ((edit.operation list value).apply sequences list)).idxOf value)
        scene.it) :
    scene.observe fuel list direction edit =
      .ok (edit.sight sequences list direction value) := by
  obtain ⟨written, performs, represents⟩ :=
    faithful.performEdit shows room member valid erases
  have noDuplicates := faithful.noDuplicates shows.memory list
  have remains := valid.mem noDuplicates member
  rw [faithful.observe represents roomAfter performs,
    faithful.goOn represents roomAfter remains stands]
  rfl

omit [DecidableEq ι] [DecidableEq κ] in
/-- What a loop visits first is what its iterator stands at. -/
theorem Layout.visitFrom_head
    {stop it : layout.It} {rounds : Nat} {visited : List ι}
    (compares :
      ∀ it,
        layout.equal fuel memory it stop = .ok (layout.value it).isNone)
    (visits :
      layout.visitFrom direction fuel memory stop rounds it = .ok visited) :
    visited.head? = layout.value it := by
  cases rounds with
  | zero => cases visits
  | succ rounds =>
      rw [Layout.visitFrom, compares, ok_bind] at visits
      cases isValue : layout.value it with
      | none =>
          rw [isValue] at visits
          cases visits
          rfl
      | some hook =>
          rw [isValue, Option.isNone_some, if_neg Bool.false_ne_true,
            deref_some, ok_bind] at visits
          obtain ⟨it', -, visits⟩ := of_bind visits
          obtain ⟨rest, -, isVisited⟩ := of_bind visits
          cases isVisited
          rfl

end Survival

section Layouts

open XorChain

variable {κ : Type} [DecidableEq κ] {width fuel : Nat}
variable {sequences : Sequences (Address width) κ} {list : κ}
variable {direction : Direction} {value : Address width}
variable {edit : Edit (Address width)}
variable {plain : Scene (Layout.default : Layout (Address width) κ)}
variable {optimized : Scene (Layout.memoryOptimized width : Layout _ κ)}

/-- An iterator that only knows its element stands at it. -/
abbrev Scene.ShowsDefault
    (scene : Scene (Layout.default : Layout (Address width) κ))
    (sequences : Sequences (Address width) κ) (list : κ)
    (direction : Direction) (value : Address width)
    (edit : Edit (Address width)) : Prop :=
  scene.Shows Represents
    (fun sequence place it => It.StandsAt it sequence place) sequences list
    direction value edit

/-- An iterator that also knows the element in front stands at its own. -/
abbrev Scene.ShowsOptimized
    (scene : Scene (Layout.memoryOptimized width : Layout _ κ))
    (sequences : Sequences (Address width) κ) (list : κ)
    (direction : Direction) (value : Address width)
    (edit : Edit (Address width)) : Prop :=
  scene.Shows MemoryOptimized.Represents Stands sequences list direction value
    edit

/-- In both layouts what should be seen is seen. -/
def SurviveBoth
    (plain : Scene (Layout.default : Layout (Address width) κ))
    (optimized : Scene (Layout.memoryOptimized width : Layout _ κ))
    (fuel : Nat) (sequences : Sequences (Address width) κ) (list : κ)
    (direction : Direction) (value : Address width)
    (edit : Edit (Address width)) : Prop :=
  plain.observe fuel list direction edit =
      .ok (edit.sight sequences list direction value) ∧
    optimized.observe fuel list direction edit =
      .ok (edit.sight sequences list direction value)

/-- There is room for one element more. -/
theorem room_after
    {operation : Operation (Address width) κ}
    (enough : ∀ other, (sequences other).length + 2 < fuel) :
    Room fuel (operation.apply sequences) := by
  intro other
  have positive := enough other
  have short (other : κ) : (sequences other).length ≤ fuel - 3 := by
    have here := enough other
    omega
  have shortAfter : (operation.apply sequences other).length ≤ fuel - 3 + 1 :=
    length_apply short other
  omega

/-- An iterator that only knows its element survives every edit. -/
theorem Scene.ShowsDefault.observe
    (shows : plain.ShowsDefault sequences list direction value edit)
    (member : value ∈ sequences list)
    (valid : edit.Valid sequences list value)
    (enough : ∀ other, (sequences other).length + 2 < fuel) :
    plain.observe fuel list direction edit =
      .ok (edit.sight sequences list direction value) := by
  have noDuplicates := (shows.memory.holds list).noDuplicates
  have erases : edit.Erases (fun _ _ _ => True) (sequences list) := by
    cases edit <;> exact trivial
  have remains := valid.mem noDuplicates member
  have room : Room fuel sequences := fun other =>
    Nat.lt_of_succ_lt (enough other)
  apply default_faithful.survives shows room (room_after enough) member valid
    erases
  have isValue : plain.it.value = some value :=
    shows.it.trans (getElem?_order_idxOf _ member)
  exact isValue.trans (getElem?_order_idxOf _ remains).symm

/-- An iterator that visits what is behind its element came from in front. -/
theorem isBefore_of_goOn
    {memory : MemoryOptimized.Memory width κ}
    {it : MemoryOptimized.It width}
    (represents : MemoryOptimized.Represents memory sequences)
    (member : value ∈ sequences list)
    (isValue : it.value = some value)
    (goesOn :
      (Layout.memoryOptimized width).goOn direction fuel memory list it =
        .ok (Neighbours.behind value (direction.order (sequences list)))) :
    it.prev =
      Neighbours.before value (direction.order (sequences list)) := by
  have threaded : Threaded memory.p (direction.order (sequences list)) := by
    cases direction with
    | forth => exact (represents.holds list).threaded
    | back => exact (represents.holds list).threaded.reverse
  unfold Layout.goOn at goesOn
  obtain ⟨stop, ends, goesOn⟩ := of_bind goesOn
  obtain ⟨it', advances, visits⟩ := of_bind goesOn
  have isEnd : stop.value = none := by
    change MemoryOptimized.listEnd fuel memory list = .ok stop at ends
    rw [MemoryOptimized.listEnd] at ends
    obtain ⟨-, -, isStop⟩ := of_bind ends
    cases isStop
    rfl
  have isNext : it'.value = combine it.prev (memory.p value) := by
    cases (MemoryOptimized.itNext_of_value isValue).symm.trans advances
    rfl
  have first := Layout.visitFrom_head (fun it => ?_) visits
  · change _ = it'.value at first
    rw [isNext, Neighbours.behind, List.head?_drop] at first
    exact (threaded.finds_next_iff (getElem?_order_idxOf _ member)).mp
      first.symm
  · change Except.ok (decide (it.value = stop.value)) = .ok it.value.isNone
    rw [isEnd]
    cases it.value <;> rfl

/--
An edit leaves what is in front of the element, and an erasure through a reverse
iterator can be converted.
-/
def Edit.Spares (edit : Edit (Address width)) (direction : Direction)
    (value : Address width) (sequence : List (Address width)) : Prop :=
  edit.LeavesFront direction value sequence ∧
    edit.Erases ReversibleIn sequence

/-- A list that is seen as it should be was not erased from astray. -/
theorem erases_of_observe
    (shows : optimized.ShowsOptimized sequences list direction value edit)
    (valid : edit.Valid sequences list value)
    (observed :
      optimized.observe fuel list direction edit =
        .ok (edit.sight sequences list direction value)) :
    edit.Erases ReversibleIn (sequences list) := by
  cases edit with
  | insert edited hook => exact trivial
  | erase edited hook =>
      intro isBack
      subst isBack
      apply Classical.byContradiction
      intro irreversible
      unfold Scene.observe at observed
      obtain ⟨written, erases, observed⟩ := of_bind observed
      obtain ⟨elements, forwards, observed⟩ := of_bind observed
      obtain ⟨visited, -, isSight⟩ := of_bind observed
      have isElements :
          elements =
            (Direction.back.erasure list hook).apply sequences list :=
        congrArg Sight.elements (Except.ok.inj isSight)
      subst isElements
      exact not_forwards_of_not_reversible shows.memory
        (getElem?_order_idxOf .back valid.1) shows.position irreversible erases
        forwards

/--
An iterator that also knows the element in front survives the edits that spare
it, and no other ones.
-/
theorem Scene.ShowsOptimized.observe_iff
    (shows : optimized.ShowsOptimized sequences list direction value edit)
    (member : value ∈ sequences list)
    (valid : edit.Valid sequences list value)
    (enough : ∀ other, (sequences other).length + 2 < fuel) :
    optimized.observe fuel list direction edit =
        .ok (edit.sight sequences list direction value) ↔
      edit.Spares direction value (sequences list) := by
  have noDuplicates := (shows.memory.holds list).noDuplicates
  have remains := valid.mem noDuplicates member
  have room : Room fuel sequences := fun other =>
    Nat.lt_of_succ_lt (enough other)
  have isValue : optimized.it.value = some value :=
    shows.it.value.trans (getElem?_order_idxOf _ member)
  have isPrev :
      optimized.it.prev =
        Neighbours.before value (direction.order (sequences list)) := by
    apply shows.it.prev
    rw [length_order]
    exact idxOf_order_lt member
  constructor
  · intro observed
    have erases := erases_of_observe shows valid observed
    refine ⟨(valid.before_iff noDuplicates member).mp ?_, erases⟩
    obtain ⟨written, performs, represents⟩ :=
      memoryOptimized_faithful.performEdit shows room member valid erases
    rw [memoryOptimized_faithful.observe represents (room_after enough)
      performs] at observed
    rw [← isPrev]
    symm
    apply isBefore_of_goOn represents remains isValue
    cases goesOn :
        (Layout.memoryOptimized width : Layout _ κ).goOn direction fuel
          written list optimized.it with
    | error fault =>
        rw [goesOn] at observed
        cases observed
    | ok visited =>
        rw [goesOn] at observed
        exact congrArg Except.ok
          (congrArg Sight.visited (Except.ok.inj observed))
  · rintro ⟨leaves, erases⟩
    apply memoryOptimized_faithful.survives shows room (room_after enough)
      member valid erases
    refine ⟨isValue.trans (getElem?_order_idxOf _ remains).symm, fun _ => ?_⟩
    rw [isPrev, ← (valid.before_iff noDuplicates member).mpr leaves]
    rfl

/--
Iterators survive an edit in both layouts, if and only if it leaves the element
in front of theirs, and is not an erasure through a reverse iterator that
cannot be converted.
-/
theorem iterators_survive_iff
    (shows : plain.ShowsDefault sequences list direction value edit)
    (shows' : optimized.ShowsOptimized sequences list direction value edit)
    (member : value ∈ sequences list)
    (valid : edit.Valid sequences list value)
    (enough : ∀ other, (sequences other).length + 2 < fuel) :
    SurviveBoth plain optimized fuel sequences list direction value edit ↔
      edit.Spares direction value (sequences list) := by
  rw [← shows'.observe_iff member valid enough]
  exact and_iff_right (shows.observe member valid enough)

end Layouts

/-! ## Three hooks -/

section Runs

open XorChain

/-- Hooks at 16, 32 and 64 in the default layout. -/
def threeHooks : Memory (Address 64) Unit :=
  [firstHook, secondHook, fourthHook].foldl
    (fun memory hook => linkLast memory () hook) emptyMemory

/-- Hooks at 16, 32 and 64 with one pointer. -/
def threeOptimized : MemoryOptimized.Memory 64 Unit :=
  [firstHook, secondHook, fourthHook].foldl
    (fun memory hook => MemoryOptimized.linkLast memory () hook)
    emptyOptimized

/-- The list of three hooks. -/
def threeSequences : Sequences (Address 64) Unit :=
  fun _ => [firstHook, secondHook, fourthHook]

/-- An iterator at one hook, and one for an edit at another. -/
def plainScene (value position : Address 64) :
    Scene (Layout.default : Layout (Address 64) Unit) where
  memory := threeHooks
  it := { value := some value : It (Address 64) }
  position := { value := some position : It (Address 64) }

/-- The same, coming from the hooks in front. -/
def optimizedScene (prev : Pointer 64) (value : Address 64)
    (prevPosition : Pointer 64) (position : Address 64) :
    Scene (Layout.memoryOptimized 64 : Layout _ Unit) where
  memory := threeOptimized
  it := { prev := prev, value := some value : MemoryOptimized.It 64 }
  position :=
    { prev := prevPosition, value := some position : MemoryOptimized.It 64 }

/-- The hooks at 16, 32 and 64 are in the list. -/
theorem represents_threeHooks : Represents threeHooks threeSequences := by
  have empty : Represents emptyMemory fun _ : Unit => [] :=
    represents_fresh fun _ => rfl
  have one :=
    @Represents.linkLast _ Unit _ _ _ _ () firstHook empty (by decide)
  have two :=
    @Represents.linkLast _ Unit _ _ _ _ () secondHook one (by decide)
  exact @Represents.linkLast _ Unit _ _ _ _ () fourthHook two
    (by decide)

/-- The same with one pointer. -/
theorem represents_threeOptimized :
    MemoryOptimized.Represents threeOptimized threeSequences := by
  have empty : MemoryOptimized.Represents emptyOptimized fun _ : Unit => [] :=
    represents_fresh_optimized fun _ => rfl
  have one :=
    @MemoryOptimized.Represents.linkLast Unit 64 _ _ _ () firstHook empty
      (by decide)
  have two :=
    @MemoryOptimized.Represents.linkLast Unit 64 _ _ _ () secondHook one
      (by decide)
  exact @MemoryOptimized.Represents.linkLast Unit 64 _ _ _ () fourthHook
    two (by decide)

/-- An iterator at the first hook survives when the second is erased. -/
theorem iterators_survive_iff_behind :
    SurviveBoth (plainScene firstHook secondHook)
      (optimizedScene none firstHook (some firstHook) secondHook) 8
      threeSequences () .forth firstHook (.erase .forth secondHook) := by
  have shows :
      (plainScene firstHook secondHook).ShowsDefault threeSequences () .forth
        firstHook (.erase .forth secondHook) :=
    ⟨represents_threeHooks, rfl, rfl⟩
  have shows' :
      (optimizedScene none firstHook (some firstHook)
        secondHook).ShowsOptimized threeSequences () .forth firstHook
          (.erase .forth secondHook) :=
    ⟨represents_threeOptimized, ⟨by decide, by decide⟩,
      ⟨by decide, by decide⟩⟩
  have notInFront :
      ¬ [secondHook, firstHook] <:+:
        [firstHook, secondHook, fourthHook] := by
    decide
  exact (iterators_survive_iff shows shows' (by decide)
    ⟨by decide, by decide⟩ (by decide)).mpr
      ⟨notInFront, fun isBack => by cases isBack⟩

/-- The first hook is erased behind an iterator that has gone on from it. -/
def behindPlain : Scene (Layout.default : Layout (Address 64) Unit) :=
  plainScene secondHook firstHook

/-- The same with one pointer. -/
def behindOptimized : Scene (Layout.memoryOptimized 64 : Layout _ Unit) :=
  optimizedScene (some firstHook) secondHook none firstHook

/--
As in the loop over the descriptors after `select`, an iterator has gone on to
the second hook, and the first is erased through a copy.
-/
theorem iterator_lost_behind_erased :
    behindPlain.ShowsDefault threeSequences () .forth secondHook
        (.erase .forth firstHook) ∧
      behindOptimized.ShowsOptimized threeSequences () .forth secondHook
        (.erase .forth firstHook) ∧
      (Edit.erase .forth firstHook).Valid threeSequences () secondHook ∧
      behindPlain.observe 8 () .forth (.erase .forth firstHook) =
        .ok
          { elements := [secondHook, fourthHook]
            visited := [fourthHook] } ∧
      behindOptimized.observe 8 () .forth (.erase .forth firstHook) =
        .ok
          { elements := [secondHook, fourthHook]
            visited := [alignedHook 4, secondHook, firstHook] } ∧
      ¬ SurviveBoth behindPlain behindOptimized 8 threeSequences () .forth
        secondHook (.erase .forth firstHook) := by
  have visits :
      behindOptimized.observe 8 () .forth (.erase .forth firstHook) =
        .ok
          { elements := [secondHook, fourthHook]
            visited := [alignedHook 4, secondHook, firstHook] } := by
    decide
  refine ⟨⟨represents_threeHooks, rfl, rfl⟩,
    ⟨represents_threeOptimized, ⟨by decide, by decide⟩,
      ⟨by decide, by decide⟩⟩,
    ⟨by decide, by decide⟩, by decide, visits, fun survive => ?_⟩
  have same := visits.symm.trans survive.2
  exact absurd same (by decide)

end Runs

end Dfk.LinkedList
