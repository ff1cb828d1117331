import Dfk.LinkedList.Layouts

/-!
# Faithful layouts

A layout is faithful if its functions do what they do on sequences, and its
iterators stand at places of a sequence.  Both layouts are, the one with one
pointer in a hook with the exception of `dfk_list_rerase` in the middle.
-/

namespace Dfk.LinkedList

/-- What can be seen of a list. -/
structure Observes {ι κ : Type} (layout : Layout ι κ) (fuel : Nat)
    (memory : layout.Memory) (list : κ) (sequence : List ι) : Prop where
  forwards : layout.traverse .forth fuel memory list = .ok sequence
  backwards : layout.traverse .back fuel memory list = .ok sequence.reverse
  front : layout.front fuel memory list = .ok sequence.head?
  back : layout.back fuel memory list = .ok sequence.getLast?
  size : layout.size fuel memory list = .ok sequence.length

/-! ## Faithful layouts -/

section Faithful

variable {ι κ ρ : Type} [DecidableEq ι] [DecidableEq κ]

/-- Loops may take more rounds than any list has elements. -/
def Room (fuel : Nat) (sequences : Sequences ι κ) : Prop :=
  ∀ list, (sequences list).length + 1 < fuel

/--
The functions of a layout do what they do on sequences, and its iterators stand
at places.  An erasure is only expected to where it is erasable.
-/
structure Layout.Faithful (layout : Layout ι κ)
    (Represents : layout.Memory → Sequences ι κ → Prop)
    (Stands : List ι → Nat → layout.It → Prop)
    (Erasable : Direction → List ι → Nat → Prop) : Prop where
  noDuplicates :
    ∀ {memory sequences},
      Represents memory sequences → ∀ list, (sequences list).Nodup
  observes :
    ∀ {fuel memory sequences},
      Represents memory sequences → Room fuel sequences →
        ∀ list, Observes layout fuel memory list (sequences list)
  value :
    ∀ {sequence place it},
      Stands sequence place it → layout.value it = sequence[place]?
  begin :
    ∀ {fuel memory sequences},
      Represents memory sequences → Room fuel sequences →
        ∀ (direction : Direction) (list : κ), ∃ it,
          layout.begin direction fuel memory list = .ok it ∧
            Stands (direction.order (sequences list)) 0 it
  listEnd :
    ∀ {fuel memory sequences},
      Represents memory sequences → Room fuel sequences →
        ∀ (direction : Direction) (list : κ), ∃ it,
          layout.listEnd fuel memory list = .ok it ∧
            Stands (direction.order (sequences list))
              (sequences list).length it
  fromValue :
    ∀ {fuel memory sequences},
      Represents memory sequences → Room fuel sequences →
        ∀ {direction : Direction} {list value place},
          (direction.order (sequences list))[place]? = some value →
            ∃ it,
              layout.fromValue direction fuel memory list value = .ok it ∧
                Stands (direction.order (sequences list)) place it
  next :
    ∀ {fuel memory sequences},
      Represents memory sequences → Room fuel sequences →
        ∀ {direction : Direction} {list place it},
          Stands (direction.order (sequences list)) place it →
            place < (sequences list).length →
              ∃ it',
                layout.next direction fuel memory it = .ok it' ∧
                  Stands (direction.order (sequences list)) (place + 1) it'
  equal :
    ∀ {fuel memory sequences},
      Represents memory sequences → Room fuel sequences →
        ∀ {direction : Direction} {list place it stop},
          Stands (direction.order (sequences list)) place it →
            layout.value stop = none →
              layout.equal fuel memory it stop =
                .ok (decide
                  ((direction.order (sequences list))[place]? = none))
  modify :
    ∀ {fuel memory sequences},
      Represents memory sequences → Room fuel sequences →
        ∀ {modification : Modification ι κ},
          modification.operation.Valid sequences →
            ∃ written,
              layout.modify fuel memory modification = .ok written ∧
                Represents written (modification.operation.apply sequences)
  insert :
    ∀ {fuel memory sequences},
      Represents memory sequences → Room fuel sequences →
        ∀ {direction : Direction} {list hook place it},
          (∀ other, hook ∉ sequences other) →
            Stands (direction.order (sequences list)) place it →
              place ≤ (sequences list).length →
                ∃ written,
                  layout.insert direction fuel memory list hook it =
                      .ok written ∧
                    Represents written
                      ((direction.insertion list hook
                        (direction.order (sequences list))[place]?).apply
                        sequences)
  erase :
    ∀ {fuel memory sequences},
      Represents memory sequences → Room fuel sequences →
        ∀ {direction : Direction} {list hook place it},
          Stands (direction.order (sequences list)) place it →
            (direction.order (sequences list))[place]? = some hook →
              Erasable direction (sequences list) place →
                ∃ written,
                  layout.erase direction fuel memory list it =
                      .ok written ∧
                    Represents written
                      ((direction.erasure list hook).apply sequences)

/-- An erasure where it is erasable. -/
def Command.Erases (Erasable : Direction → List ι → Nat → Prop)
    (tracking : Tracking ι κ ρ) : Command ι κ ρ → Prop
  | .erase direction list it =>
      ∀ place, tracking.its direction it = some place →
        Erasable direction (tracking.sequences list) place.index
  | _ => True

/-- A state is where a program is kept track of. -/
structure Layout.Follows (layout : Layout ι κ)
    (Represents : layout.Memory → Sequences ι κ → Prop)
    (Stands : List ι → Nat → layout.It → Prop)
    (state : State layout ρ) (tracking : Tracking ι κ ρ) : Prop where
  memory : Represents state.memory tracking.sequences
  its :
    ∀ direction it place,
      tracking.its direction it = some place →
        ∃ value,
          state.its direction it = some value ∧
            place.index ≤ (tracking.sequences place.list).length ∧
            Stands (direction.order (tracking.sequences place.list))
              place.index value

section Steps

variable {layout : Layout ι κ}
variable {Represents : layout.Memory → Sequences ι κ → Prop}
variable {Stands : List ι → Nat → layout.It → Prop}
variable {Erasable : Direction → List ι → Nat → Prop}
variable {state : State layout ρ} {tracking : Tracking ι κ ρ} {fuel : Nat}

omit [DecidableEq ι] [DecidableEq κ] in
theorem length_order {direction : Direction} {sequence : List ι} :
    (direction.order sequence).length = sequence.length := by
  cases direction with
  | forth => rfl
  | back => exact List.length_reverse

omit [DecidableEq ι] [DecidableEq κ] in
theorem mem_order {direction : Direction} {sequence : List ι} {value : ι} :
    value ∈ direction.order sequence ↔ value ∈ sequence := by
  cases direction with
  | forth => rfl
  | back => exact List.mem_reverse

/-- Other lists keep their sequences. -/
theorem apply_other
    {modification : Modification ι κ} {sequences : Sequences ι κ} {other : κ}
    (elsewhere : other ∉ modification.lists) :
    modification.operation.apply sequences other = sequences other := by
  cases modification <;>
    simp_all [Modification.lists, Modification.operation, Operation.apply]

/-- Other lists keep their sequences when a hook is put into one. -/
theorem insertion_other
    {direction : Direction} {sequences : Sequences ι κ} {list other : κ}
    {hook : ι} {position : Option ι}
    (elsewhere : other ∉ [list]) :
    (direction.insertion list hook position).apply sequences other =
      sequences other := by
  have differs : other ≠ list := fun same =>
    elsewhere (List.mem_singleton.mpr same)
  cases direction <;> exact Function.update_of_ne differs ..

/-- Other lists keep their sequences when a hook is taken out of one. -/
theorem erasure_other
    {direction : Direction} {sequences : Sequences ι κ} {list other : κ}
    {hook : ι}
    (elsewhere : other ∉ [list]) :
    (direction.erasure list hook).apply sequences other = sequences other := by
  have differs : other ≠ list := fun same =>
    elsewhere (List.mem_singleton.mpr same)
  cases direction <;> exact Function.update_of_ne differs ..

omit [DecidableEq ι] [DecidableEq κ] in
/-- An iterator that has been obtained is kept track of. -/
theorem Layout.Follows.obtain [DecidableEq ρ]
    {direction : Direction} {it : ρ} {place : Place κ} {value : layout.It}
    (follows : layout.Follows Represents Stands state tracking)
    (inside : place.index ≤ (tracking.sequences place.list).length)
    (stands :
      Stands (direction.order (tracking.sequences place.list)) place.index
        value) :
    layout.Follows Represents Stands
      { state with its := state.its.assign direction it value }
      (tracking.obtain direction it place) := by
  refine ⟨follows.memory, fun queryDirection query queryPlace tracked => ?_⟩
  dsimp only [Tracking.obtain, Variables.assign] at tracked ⊢
  by_cases same : queryDirection = direction ∧ query = it
  · rw [if_pos same] at tracked ⊢
    cases tracked
    rw [same.1]
    exact ⟨value, rfl, inside, stands⟩
  · rw [if_neg same] at tracked ⊢
    exact follows.its queryDirection query queryPlace tracked

/-- Iterators of other lists are kept track of after a change. -/
theorem Layout.Follows.afterChange
    {operation : Operation ι κ} {lists : List κ} {written : layout.Memory}
    (follows : layout.Follows Represents Stands state tracking)
    (represents :
      Represents written (operation.apply tracking.sequences))
    (others :
      ∀ other, other ∉ lists →
        operation.apply tracking.sequences other =
          tracking.sequences other) :
    layout.Follows Represents Stands { state with memory := written }
      (tracking.afterChange lists operation) := by
  refine ⟨represents, fun direction it place tracked => ?_⟩
  obtain ⟨before, elsewhere⟩ := Option.filter_eq_some_iff.mp tracked
  obtain ⟨value, isValue, inside, stands⟩ :=
    follows.its direction it place before
  have same := others place.list (of_decide_eq_true elsewhere)
  rw [← same] at inside stands
  exact ⟨value, isValue, inside, stands⟩

/-- A valid call succeeds, and the state stays kept track of. -/
theorem Layout.Faithful.perform [DecidableEq ρ]
    {command : Command ι κ ρ}
    (faithful : layout.Faithful Represents Stands Erasable)
    (follows : layout.Follows Represents Stands state tracking)
    (room : Room fuel tracking.sequences)
    (valid : command.Valid tracking)
    (erases : command.Erases Erasable tracking) :
    ∃ after,
      command.perform layout fuel state = .ok after ∧
        layout.Follows Represents Stands after (command.track tracking) := by
  have represents := follows.memory
  cases command with
  | begin direction list it =>
      obtain ⟨value, begins, stands⟩ :=
        faithful.begin represents room direction list
      refine ⟨_, ?_, follows.obtain (Nat.zero_le _) stands⟩
      rw [Command.perform, begins]
      rfl
  | listEnd direction list it =>
      obtain ⟨value, ends, stands⟩ :=
        faithful.listEnd represents room direction list
      refine ⟨_, ?_, follows.obtain (Nat.le_refl _) stands⟩
      rw [Command.perform, ends]
      rfl
  | fromValue direction list value it =>
      have member : value ∈ direction.order (tracking.sequences list) :=
        mem_order.mpr valid
      have inside := List.idxOf_lt_length_of_mem member
      obtain ⟨found, finds, stands⟩ :=
        faithful.fromValue represents room (List.getElem?_idxOf member)
      rw [length_order] at inside
      refine ⟨_, ?_, follows.obtain (Nat.le_of_lt inside) stands⟩
      rw [Command.perform, finds]
      rfl
  | next direction it =>
      obtain ⟨place, tracked, inside⟩ := valid
      obtain ⟨value, isValue, -, stands⟩ :=
        follows.its direction it place tracked
      obtain ⟨value', advances, standsNext⟩ :=
        faithful.next represents room stands inside
      rw [Command.track, tracked]
      refine ⟨_, ?_, follows.obtain inside standsNext⟩
      rw [Command.perform, isValue, deref_some, ok_bind, advances]
      rfl
  | modify modification =>
      obtain ⟨written, modifies, isModified⟩ :=
        faithful.modify represents room valid
      refine ⟨_, ?_, follows.afterChange isModified fun _ => apply_other⟩
      rw [Command.perform, modifies]
      rfl
  | insert direction list hook position =>
      obtain ⟨isNew, place, tracked, isList⟩ := valid
      subst isList
      obtain ⟨value, isValue, inside, stands⟩ :=
        follows.its direction position place tracked
      obtain ⟨written, inserts, isInserted⟩ :=
        faithful.insert represents room isNew stands inside
      rw [Command.track, tracked]
      refine ⟨_, ?_, follows.afterChange isInserted fun _ => insertion_other⟩
      rw [Command.perform, isValue, deref_some, ok_bind, inserts]
      rfl
  | erase direction list it =>
      obtain ⟨place, tracked, isList, inside⟩ := valid
      subst isList
      obtain ⟨value, isValue, -, stands⟩ :=
        follows.its direction it place tracked
      obtain ⟨hook, isHook⟩ :
          ∃ hook, tracking.elementAt direction place = some hook := by
        refine ⟨_, List.getElem?_eq_getElem ?_⟩
        rw [length_order]
        exact inside
      obtain ⟨written, erased, isErased⟩ :=
        faithful.erase represents room stands isHook (erases place tracked)
      rw [Command.track, tracked, Option.bind_some, isHook]
      refine ⟨_, ?_, follows.afterChange isErased fun _ => erasure_other⟩
      rw [Command.perform, isValue, deref_some, ok_bind, erased]
      rfl

end Steps

end Faithful

/-! ## The layout with two pointers -/

section Default

variable {ι κ : Type} [DecidableEq ι] [DecidableEq κ]

/-- An iterator that only knows the element it is at. -/
def It.StandsAt (it : It ι) (sequence : List ι) (place : Nat) : Prop :=
  it.value = sequence[place]?

omit [DecidableEq ι] in
theorem It.StandsAt.eq
    {sequence : List ι} {place : Nat} {it : It ι}
    (stands : it.StandsAt sequence place) :
    it = { value := sequence[place]? } := by
  cases it
  exact congrArg It.mk stands

omit [DecidableEq κ] in
/-- The iterator that is found from an element. -/
theorem Holds.itFromValue
    {memory : Memory ι κ} {list : κ} {sequence : List ι} {fuel : Nat}
    {value : ι}
    (holds : Holds memory list sequence)
    (enough : sequence.length ≤ fuel)
    (member : value ∈ sequence) :
    itFromValue fuel memory list value = .ok { value := some value } := by
  have itChecked :
      LinkedList.itCheckInvariants fuel memory { value := some value : It ι } =
        .ok () := by
    apply holds.itCheckInvariants enough
    rintro hook ⟨⟩
    exact member
  have hookChecked := holds.hookCheckInvariants enough member
  rw [LinkedList.itFromValue, holds.listCheckInvariants enough, ok_bind,
    hookChecked, ok_bind]
  dsimp only
  rw [itChecked, ok_bind, ok_bind, ok_bind, pure_eq_ok]

/-- The layout with two pointers in a hook is faithful. -/
theorem default_faithful :
    (Layout.default : Layout ι κ).Faithful Represents
      (fun sequence place it => It.StandsAt it sequence place)
      fun _ _ _ => True where
  noDuplicates := fun represents list => (represents.holds list).noDuplicates
  observes := by
    intro fuel memory sequences represents room list
    have agrees :=
      represents.agrees (fun list => Nat.lt_of_succ_lt (room list)) list
    exact ⟨agrees.forwards, agrees.backwards, agrees.front, agrees.back,
      agrees.size⟩
  value := fun stands => stands
  begin := by
    intro fuel memory sequences represents room direction list
    have enough := Nat.le_of_lt (Nat.lt_of_succ_lt (room list))
    cases direction with
    | forth =>
        exact ⟨_, (represents.holds list).begin enough,
          List.head?_eq_getElem?⟩
    | back =>
        refine ⟨_, (represents.holds list).rbegin enough, ?_⟩
        rw [It.StandsAt, ← List.head?_reverse, List.head?_eq_getElem?]
        rfl
  listEnd := by
    intro fuel memory sequences represents room direction list
    have enough := Nat.le_of_lt (Nat.lt_of_succ_lt (room list))
    refine ⟨_, (represents.holds list).listEnd enough, ?_⟩
    rw [It.StandsAt, List.getElem?_eq_none (Nat.le_of_eq length_order)]
  fromValue := by
    intro fuel memory sequences represents room direction list value place
      isValue
    have enough := Nat.le_of_lt (Nat.lt_of_succ_lt (room list))
    have member : value ∈ sequences list :=
      mem_order.mp (List.mem_of_getElem? isValue)
    exact ⟨_, (represents.holds list).itFromValue enough member,
      isValue.symm⟩
  next := by
    intro fuel memory sequences represents room direction list place it
      stands inside
    have enough := Nat.le_of_lt (Nat.lt_of_succ_lt (room list))
    have holds := represents.holds list
    obtain ⟨hook, isHook⟩ :
        ∃ hook, (direction.order (sequences list))[place]? = some hook := by
      refine ⟨_, List.getElem?_eq_getElem ?_⟩
      rw [length_order]
      exact inside
    have isIt : it = { value := some hook } := by
      rw [← isHook]
      exact stands.eq
    subst isIt
    have member : hook ∈ sequences list :=
      mem_order.mp (List.mem_of_getElem? isHook)
    cases direction with
    | forth =>
        have isNext : memory.next hook = (sequences list)[place + 1]? := by
          rw [← holds.follows_next place]
          exact (congrArg (Option.bind · memory.next) isHook).symm
        refine ⟨_, holds.advance enough member ?_, isNext⟩
        rw [isNext]
        exact fun next isNext => List.mem_of_getElem? isNext
    | back =>
        have isPrev :
            memory.prev hook = (sequences list).reverse[place + 1]? := by
          rw [← holds.follows_prev place]
          exact (congrArg (Option.bind · memory.prev) isHook).symm
        refine ⟨_, holds.advance enough member ?_, isPrev⟩
        rw [isPrev]
        exact fun prev isPrev =>
          List.mem_reverse.mp (List.mem_of_getElem? isPrev)
  equal := by
    intro fuel memory sequences represents room direction list place it stop
      stands isEnd
    have enough := Nat.le_of_lt (Nat.lt_of_succ_lt (room list))
    have isStop : stop = { value := none } := by
      have standsAtEnd : It.StandsAt stop [] 0 := isEnd
      exact standsAtEnd.eq
    have isIt : it = { value := (direction.order (sequences list))[place]? } :=
      stands.eq
    rw [isStop, isIt]
    apply (represents.holds list).itEqual_end enough
    exact fun hook isHook => mem_order.mp (List.mem_of_getElem? isHook)
  modify := by
    intro fuel memory sequences represents room modification valid
    cases modification with
    | append list hook => exact represents.append room valid
    | prepend list hook => exact represents.prepend room valid
    | popFront list => exact represents.popFront room valid
    | popBack list => exact represents.popBack room valid
    | clear list => exact represents.clear room
    | move src dst => exact represents.move room
    | swap lhs rhs => exact represents.swap room
  insert := by
    intro fuel memory sequences represents room direction list hook place it
      isNew stands inside
    have isIt : it = { value := (direction.order (sequences list))[place]? } :=
      stands.eq
    have member :
        ∀ value ∈ (direction.order (sequences list))[place]?,
          value ∈ sequences list := fun value isValue =>
      mem_order.mp (List.mem_of_getElem? isValue)
    rw [isIt]
    cases direction with
    | forth => exact represents.insert room isNew member
    | back => exact represents.rinsert room isNew member
  erase := by
    intro fuel memory sequences represents room direction list hook place it
      stands isHook erasable
    have isIt : it = { value := some hook } := by
      rw [← isHook]
      exact stands.eq
    have member : hook ∈ sequences list :=
      mem_order.mp (List.mem_of_getElem? isHook)
    rw [isIt]
    cases direction with
    | forth => exact represents.erase room member
    | back => exact represents.rerase room member

end Default

/-! ## The layout with one pointer -/

section MemoryOptimized

open XorChain

variable {κ : Type} {width : Nat} [DecidableEq κ]

/--
The reverse iterator at a place can be converted: it is at the last or at the
first element, or the addresses of its neighbours make up that of its own.
-/
def Reversible (sequence : List (Address width)) (place : Nat) : Prop :=
  place = 0 ∨ place + 1 = sequence.length ∨
    combine sequence.reverse[place - 1]? sequence.reverse[place + 1]? =
      sequence.reverse[place]?

/-- An erasure which the layout with one pointer is up to. -/
def ReversibleIn (direction : Direction) (sequence : List (Address width))
    (place : Nat) : Prop :=
  direction = .back → Reversible sequence place

/-- What is before a place that is not the first. -/
theorem getLast?_take_of_pos
    {α : Type} {order : List α} {place : Nat}
    (inside : place < order.length)
    (positive : place ≠ 0) :
    (order.take place).getLast? = order[place - 1]? := by
  have before : place - 1 < order.length := by
    omega
  rw [List.getLast?_take, if_neg positive, List.getElem?_eq_getElem before,
    Option.some_or]

/-- An insertion before the element at a place. -/
theorem insertBefore_at
    {ι : Type} [DecidableEq ι] {order : List ι} {place : Nat} {hook : ι}
    (noDuplicates : order.Nodup) :
    insertBefore hook order[place]? order =
      order.take place ++ hook :: order.drop place := by
  cases isValue : order[place]? with
  | none =>
      have past := List.getElem?_eq_none_iff.mp isValue
      rw [insertBefore_none, List.take_of_length_le past,
        List.drop_eq_nil_of_le past]
  | some value =>
      obtain ⟨inside, isElement⟩ := List.getElem?_eq_some_iff.mp isValue
      have shape : order.drop place = value :: order.drop (place + 1) := by
        rw [List.drop_eq_getElem_cons inside, isElement]
      have notBefore : value ∉ order.take place := by
        intro member
        rw [← List.take_append_drop place order] at noDuplicates
        apply List.disjoint_of_nodup_append noDuplicates member
        rw [shape]
        exact List.mem_cons_self ..
      have inserted :
          insertBefore hook (some value)
              (order.take place ++ value :: order.drop (place + 1)) =
            order.take place ++ hook :: value :: order.drop (place + 1) :=
        insertBefore_some notBefore
      rw [← shape, List.take_append_drop] at inserted
      exact inserted

/-- What an erasure leaves of a sequence. -/
theorem erasure_between
    {ι : Type} [DecidableEq ι] {direction : Direction}
    {sequences : Sequences ι κ} {list : κ} {before after : List ι} {hook : ι}
    (noDuplicates : (sequences list).Nodup)
    (shape : sequences list = before ++ hook :: after) :
    (direction.erasure list hook).apply sequences =
      Function.update sequences list (before ++ after) := by
  have notBefore : hook ∉ before := by
    intro member
    rw [shape] at noDuplicates
    exact List.disjoint_of_nodup_append noDuplicates member
      (List.mem_cons_self ..)
  have erased : (sequences list).erase hook = before ++ after := by
    rw [shape, List.erase_append_right _ notBefore, List.erase_cons_head]
  rw [← erased]
  cases direction <;> rfl

/-- A sequence around a place of its reverse. -/
theorem split_reverse_at
    {sequence : List (Address width)} {place : Nat} {hook : Address width}
    (isHook : sequence.reverse[place]? = some hook) :
    sequence =
      (sequence.reverse.drop (place + 1)).reverse ++
        hook :: (sequence.reverse.take place).reverse := by
  have shape := split_at isHook
  have reversed := congrArg List.reverse shape
  rw [List.reverse_reverse] at reversed
  rw [← List.reverse_reverse sequence] at reversed ⊢
  simpa using reversed

/--
The layout with one pointer in a hook is faithful, as far as reverse iterators
that are erased can be converted.
-/
theorem memoryOptimized_faithful :
    (Layout.memoryOptimized width : Layout _ κ).Faithful
      MemoryOptimized.Represents Stands ReversibleIn where
  noDuplicates := fun represents list => (represents.holds list).noDuplicates
  observes := by
    intro fuel memory sequences represents room list
    have enough := Nat.lt_of_succ_lt (room list)
    have holds := represents.holds list
    refine ⟨holds.forwards enough, holds.backwards enough, ?_, ?_,
      holds.size_eq enough⟩
    · exact holds.front (Nat.le_of_lt enough)
    · exact holds.back (Nat.le_of_lt enough)
  value := fun stands => stands.value
  begin := by
    intro fuel memory sequences represents room direction list
    have enough := Nat.le_of_lt (Nat.lt_of_succ_lt (room list))
    cases direction with
    | forth => exact ⟨_, (represents.holds list).begin enough, stands_head _⟩
    | back => exact ⟨_, (represents.holds list).rbegin enough, stands_head _⟩
  listEnd := by
    intro fuel memory sequences represents room direction list
    have enough := Nat.le_of_lt (Nat.lt_of_succ_lt (room list))
    refine ⟨_, (represents.holds list).listEnd enough, ?_, fun inside => ?_⟩
    · exact (List.getElem?_eq_none (Nat.le_of_eq length_order)).symm
    · rw [length_order] at inside
      exact absurd inside (Nat.lt_irrefl _)
  fromValue := by
    intro fuel memory sequences represents room direction list value place
      isValue
    have enough := Nat.lt_of_succ_lt (room list)
    cases direction with
    | forth => exact (represents.holds list).itFromValue enough isValue
    | back => exact (represents.holds list).ritFromValue enough isValue
  next := by
    intro fuel memory sequences represents room direction list place it
      stands inside
    have threaded := (represents.holds list).threaded
    cases direction with
    | forth =>
        exact ⟨_, MemoryOptimized.itNext_of_stands stands inside,
          stands.hop threaded⟩
    | back =>
        rw [← List.length_reverse] at inside
        exact ⟨_, MemoryOptimized.itNext_of_stands stands inside,
          stands.hop threaded.reverse⟩
  equal := by
    intro fuel memory sequences represents room direction list place it stop
      stands isEnd
    have isValue := stands.value
    change stop.value = none at isEnd
    change Except.ok (decide (it.value = stop.value)) = _
    rw [isValue, isEnd]
  modify := by
    intro fuel memory sequences represents room modification valid
    cases modification with
    | append list hook => exact represents.append room valid
    | prepend list hook => exact represents.prepend room valid
    | popFront list => exact represents.popFront room valid
    | popBack list => exact represents.popBack room valid
    | clear list => exact represents.clear room
    | move src dst => exact represents.move room
    | swap lhs rhs => exact represents.swap room
  insert := by
    intro fuel memory sequences represents room direction list hook place it
      isNew stands inside
    have noDuplicates := (represents.holds list).noDuplicates
    have isValue := stands.value
    have isPrev := stands.prev
    cases direction with
    | forth =>
        change it.value = (sequences list)[place]? at isValue
        have inserted :
            insertBefore hook (sequences list)[place]? (sequences list) =
              (sequences list).take place ++
                hook :: (sequences list).drop place :=
          insertBefore_at noDuplicates
        change ∃ written,
          MemoryOptimized.insert fuel memory list hook it = .ok written ∧
            MemoryOptimized.Represents written
              (Function.update sequences list
                (insertBefore hook (sequences list)[place]?
                  (sequences list)))
        rw [inserted]
        apply represents.insert room (List.take_append_drop place _).symm isNew
        · rw [isValue, List.head?_drop]
        · intro nonempty
          apply isPrev
          apply Nat.lt_of_not_le
          intro past
          exact nonempty (List.drop_eq_nil_of_le past)
    | back =>
        change it.value = (sequences list).reverse[place]? at isValue
        have inserted :
            insertBefore hook (sequences list).reverse[place]?
                (sequences list).reverse =
              (sequences list).reverse.take place ++
                hook :: (sequences list).reverse.drop place :=
          insertBefore_at (List.nodup_reverse.mpr noDuplicates)
        have shape :
            sequences list =
              ((sequences list).reverse.drop place).reverse ++
                ((sequences list).reverse.take place).reverse := by
          rw [← List.reverse_append, List.take_append_drop,
            List.reverse_reverse]
        have after :
            ((sequences list).reverse.take place ++
                hook :: (sequences list).reverse.drop place).reverse =
              ((sequences list).reverse.drop place).reverse ++
                hook :: ((sequences list).reverse.take place).reverse := by
          simp
        change ∃ written,
          MemoryOptimized.rinsert fuel memory list hook it = .ok written ∧
            MemoryOptimized.Represents written
              (Function.update sequences list
                (insertBefore hook (sequences list).reverse[place]?
                  (sequences list).reverse).reverse)
        rw [inserted, after]
        apply represents.rinsert room shape isNew
        · rw [isValue, List.getLast?_reverse, List.head?_drop]
        · intro nonempty
          rw [List.head?_reverse]
          apply isPrev
          apply Nat.lt_of_not_le
          intro past
          change (sequences list).reverse.length ≤ place at past
          apply nonempty
          rw [List.drop_eq_nil_of_le past, List.reverse_nil]
  erase := by
    intro fuel memory sequences represents room direction list hook place it
      stands isHook reversible
    have noDuplicates := (represents.holds list).noDuplicates
    have inside := (List.getElem?_eq_some_iff.mp isHook).1
    have isValue := stands.value.trans isHook
    have isPrev := stands.prev inside
    cases direction with
    | forth =>
        change (sequences list)[place]? = some hook at isHook
        have shape := split_at isHook
        rw [erasure_between noDuplicates shape]
        exact represents.erase room shape isValue fun _ _ => isPrev
    | back =>
        change (sequences list).reverse[place]? = some hook at isHook
        change place < (sequences list).reverse.length at inside
        change it.prev = ((sequences list).reverse.take place).getLast?
          at isPrev
        have shape := split_reverse_at isHook
        rw [erasure_between noDuplicates shape]
        apply represents.rerase room shape isValue
        intro someBefore someAfter
        rcases reversible rfl with isLast | isFirst | combines
        · subst isLast
          exact absurd rfl someAfter
        · apply absurd _ someBefore
          rw [isFirst, List.drop_eq_nil_of_le (by simp), List.reverse_nil]
        · have positive : place ≠ 0 := by
            rintro rfl
            exact someAfter rfl
          rw [isHook] at combines
          rw [isValue, isPrev, getLast?_take_of_pos inside positive,
            ← combines, MemoryOptimized.ptrXor, combine_cancel,
            List.getLast?_reverse, List.head?_drop]

end MemoryOptimized

end Dfk.LinkedList
