import Dfk.LinkedList.FaithfulLayouts

/-!
# Equivalence of the layouts

A program of calls can be run with either layout.  All views of all lists are
the same in between, as long as the program does not erase through a reverse
iterator in the middle of a list.
-/

namespace Dfk.LinkedList

section Views

variable {ι κ ρ : Type}

/-- Both return the same. -/
def SameResult {α : Type} (left right : Except Fault α) : Prop :=
  ∃ result, left = .ok result ∧ right = .ok result

/-- All traversals, ends and sizes are the same in two layouts. -/
structure SameView (left right : Layout ι κ) (fuel : Nat)
    (memory : left.Memory) (memory' : right.Memory) (list : κ) : Prop where
  traverse :
    ∀ direction,
      SameResult (left.traverse direction fuel memory list)
        (right.traverse direction fuel memory' list)
  front :
    SameResult (left.front fuel memory list) (right.front fuel memory' list)
  back :
    SameResult (left.back fuel memory list) (right.back fuel memory' list)
  size :
    SameResult (left.size fuel memory list) (right.size fuel memory' list)

/-- All calls succeed in both layouts, with the same views in between. -/
def Equivalent [DecidableEq ρ] (left right : Layout ι κ) (fuel : Nat) :
    List (Command ι κ ρ) → State left ρ → State right ρ → Prop
  | [], state, state' =>
      ∀ list, SameView left right fuel state.memory state'.memory list
  | command :: commands, state, state' =>
      (∀ list, SameView left right fuel state.memory state'.memory list) ∧
        ∃ after after',
          command.perform left fuel state = .ok after ∧
            command.perform right fuel state' = .ok after' ∧
            Equivalent left right fuel commands after after'

variable {left right : Layout ι κ} {fuel : Nat}

theorem Equivalent.sameView [DecidableEq ρ]
    {commands : List (Command ι κ ρ)} {state : State left ρ}
    {state' : State right ρ}
    (equivalent : Equivalent left right fuel commands state state')
    (list : κ) :
    SameView left right fuel state.memory state'.memory list := by
  cases commands with
  | nil => exact equivalent list
  | cons command commands => exact equivalent.1 list

/-- All calls of a program succeed in the second layout. -/
theorem Equivalent.performs [DecidableEq ρ]
    {commands : List (Command ι κ ρ)} {state : State left ρ}
    {state' : State right ρ}
    (equivalent : Equivalent left right fuel commands state state') :
    ∃ final,
      commands.foldlM (fun state command => command.perform right fuel state)
          state' =
        .ok final := by
  induction commands generalizing state state' with
  | nil =>
      exact ⟨state', rfl⟩
  | cons command commands inductionHypothesis =>
      obtain ⟨-, after, after', -, performs, rest⟩ := equivalent
      obtain ⟨final, others⟩ := inductionHypothesis rest
      refine ⟨final, ?_⟩
      rw [List.foldlM_cons, performs, ok_bind]
      exact others

/-- Lists that show the same sequence have the same view. -/
theorem Observes.sameView
    {memory : left.Memory} {memory' : right.Memory} {list : κ}
    {sequence : List ι}
    (observes : Observes left fuel memory list sequence)
    (observes' : Observes right fuel memory' list sequence) :
    SameView left right fuel memory memory' list where
  traverse direction := by
    cases direction with
    | forth => exact ⟨sequence, observes.forwards, observes'.forwards⟩
    | back =>
        exact ⟨sequence.reverse, observes.backwards, observes'.backwards⟩
  front := ⟨sequence.head?, observes.front, observes'.front⟩
  back := ⟨sequence.getLast?, observes.back, observes'.back⟩
  size := ⟨sequence.length, observes.size, observes'.size⟩

end Views

section Programs

open XorChain

variable {κ ρ : Type} [DecidableEq κ] [DecidableEq ρ] {width : Nat}
variable {tracking : Tracking (Address width) κ ρ}
variable {command : Command (Address width) κ ρ}
variable {commands : List (Command (Address width) κ ρ)}
variable {state : State (Layout.default : Layout (Address width) κ) ρ}
variable {state' : State (Layout.memoryOptimized width : Layout _ κ) ρ}
variable {fuel bound : Nat}

/-- A program that a default layout keeps track of. -/
abbrev FollowsDefault
    (state : State (Layout.default : Layout (Address width) κ) ρ)
    (tracking : Tracking (Address width) κ ρ) : Prop :=
  Layout.default.Follows Represents
    (fun sequence place it => It.StandsAt it sequence place) state tracking

/-- A program that the layout with one pointer keeps track of. -/
abbrev FollowsOptimized
    (state : State (Layout.memoryOptimized width : Layout _ κ) ρ)
    (tracking : Tracking (Address width) κ ρ) : Prop :=
  (Layout.memoryOptimized width).Follows MemoryOptimized.Represents Stands
    state tracking

/--
An erasure through a reverse iterator is at one of the ends of the list, or at
a hook whose address is the exclusive or of those of its neighbours.
-/
def Convertible (tracking : Tracking (Address width) κ ρ)
    (command : Command (Address width) κ ρ) : Prop :=
  command.Erases ReversibleIn tracking

/-- No list grows by more than one element. -/
theorem length_track
    (short : ∀ list, (tracking.sequences list).length ≤ bound)
    (list : κ) :
    ((command.track tracking).sequences list).length ≤ bound + 1 := by
  have kept : (tracking.sequences list).length ≤ bound + 1 :=
    Nat.le_succ_of_le (short list)
  cases command with
  | begin direction list it => exact kept
  | listEnd direction list it => exact kept
  | fromValue direction list value it => exact kept
  | next direction it =>
      rw [Command.track]
      cases tracking.its direction it <;> exact kept
  | modify modification => exact length_apply short list
  | insert direction changed hook position =>
      rw [Command.track]
      cases tracking.its direction position with
      | none => exact kept
      | some place => exact length_apply short list
  | erase direction changed it =>
      rw [Command.track]
      cases (tracking.its direction it).bind
          (tracking.elementAt direction) with
      | none => exact kept
      | some hook => exact length_apply short list

omit [DecidableEq κ] [DecidableEq ρ] in
/-- The default layout is up to every erasure. -/
theorem erases_always : command.Erases (fun _ _ _ => True) tracking := by
  cases command with
  | erase direction list it => exact fun _ _ => trivial
  | _ => exact trivial

omit [DecidableEq ρ] in
/-- Views of lists that hold the same sequences. -/
theorem sameView_of_follows
    (follows : FollowsDefault state tracking)
    (follows' : FollowsOptimized state' tracking)
    (room : Room fuel tracking.sequences)
    (list : κ) :
    SameView Layout.default (Layout.memoryOptimized width) fuel state.memory
      state'.memory list :=
  (default_faithful.observes follows.memory room list).sameView
    (memoryOptimized_faithful.observes follows'.memory room list)

/-- What is around a place from which a reverse iterator cannot be erased. -/
theorem middle_of_not_reversible
    {sequence : List (Address width)} {place : Nat} {hook : Address width}
    (isHook : sequence.reverse[place]? = some hook)
    (irreversible : ¬ Reversible sequence place) :
    ∃ front previous next rest,
      sequence = front ++ [previous] ++ hook :: next :: rest ∧
        combine (some previous) (some next) ≠ some hook ∧
        (sequence.reverse.take place).getLast? = some next := by
  obtain ⟨notLast, notFirst, astray⟩ :
      place ≠ 0 ∧ place + 1 ≠ sequence.length ∧
        combine sequence.reverse[place - 1]? sequence.reverse[place + 1]? ≠
          sequence.reverse[place]? := by
    rw [Reversible, not_or, not_or] at irreversible
    exact irreversible
  have inside := (List.getElem?_eq_some_iff.mp isHook).1
  have insideBefore : place + 1 < sequence.reverse.length := by
    rw [List.length_reverse] at inside ⊢
    omega
  have insideAfter : place - 1 < sequence.reverse.length := by
    omega
  have isNext := getLast?_take_of_pos inside notLast
  rw [List.getElem?_eq_getElem insideAfter] at isNext astray
  obtain ⟨others, isTake⟩ := List.getLast?_eq_some_iff.mp isNext
  have isDrop := List.drop_eq_getElem_cons insideBefore
  rw [List.getElem?_eq_getElem insideBefore, isHook, combine_comm] at astray
  refine ⟨(sequence.reverse.drop (place + 1 + 1)).reverse, _, _,
    others.reverse, ?_, astray, isNext⟩
  have shape := split_reverse_at isHook
  rw [isDrop, isTake, List.reverse_cons, List.reverse_concat] at shape
  exact shape

omit [DecidableEq ρ] in
/-- An erasure that goes astray does not leave the other elements. -/
theorem not_forwards_of_not_reversible
    {memory written : MemoryOptimized.Memory width κ}
    {sequences : Sequences (Address width) κ} {list : κ} {place fuel' : Nat}
    {hook : Address width} {rit : MemoryOptimized.It width}
    (represents : MemoryOptimized.Represents memory sequences)
    (isHook : (sequences list).reverse[place]? = some hook)
    (stands : Stands (sequences list).reverse place rit)
    (irreversible : ¬ Reversible (sequences list) place)
    (erases : MemoryOptimized.rerase fuel memory list rit = .ok written) :
    MemoryOptimized.forwards fuel' written list ≠
      .ok ((Direction.back.erasure list hook).apply sequences list) := by
  obtain ⟨front, previous, next, rest, shape, astray, isNext⟩ :=
    middle_of_not_reversible isHook irreversible
  have inside := (List.getElem?_eq_some_iff.mp isHook).1
  have noDuplicates := (represents.holds list).noDuplicates
  have shape' :
      sequences list = (front ++ [previous]) ++ hook :: (next :: rest) :=
    shape
  rw [erasure_between noDuplicates shape', Function.update_self]
  exact represents.rerase_astray shape (stands.value.trans isHook)
    ((stands.prev inside).trans isNext) astray erases

/-- Programs without an erasure that goes astray. -/
theorem equivalent_of_convertible :
    ∀ {tracking : Tracking (Address width) κ ρ} {bound : Nat}
      {state : State (Layout.default : Layout (Address width) κ) ρ}
      {state' : State (Layout.memoryOptimized width : Layout _ κ) ρ},
      FollowsDefault state tracking →
        FollowsOptimized state' tracking →
          (∀ list, (tracking.sequences list).length ≤ bound) →
            bound + commands.length + 1 < fuel →
              Throughout Command.Valid commands tracking →
                Throughout Convertible commands tracking →
                  Equivalent Layout.default (Layout.memoryOptimized width)
                    fuel commands state state' := by
  induction commands with
  | nil =>
      intro tracking bound state state' follows follows' short enough _ _ list
      apply sameView_of_follows follows follows'
      intro other
      exact Nat.lt_of_le_of_lt (Nat.succ_le_succ (short other)) enough
  | cons command commands inductionHypothesis =>
      intro tracking bound state state' follows follows' short enough valid
        convertible
      rw [List.length_cons] at enough
      have room : Room fuel tracking.sequences := by
        intro other
        have shortHere := short other
        omega
      obtain ⟨after, performs, followsAfter⟩ :=
        default_faithful.perform follows room valid.1 erases_always
      obtain ⟨after', performs', followsAfter'⟩ :=
        memoryOptimized_faithful.perform follows' room valid.1 convertible.1
      refine ⟨sameView_of_follows follows follows' room, after, after',
        performs, performs', ?_⟩
      exact inductionHypothesis followsAfter followsAfter'
        (length_track short) (by omega) valid.2 convertible.2

/-- After an erasure that goes astray the traversals differ. -/
theorem convertible_of_sameView
    {after : State (Layout.default : Layout (Address width) κ) ρ}
    {after' : State (Layout.memoryOptimized width : Layout _ κ) ρ}
    (follows' : FollowsOptimized state' tracking)
    (followsAfter : FollowsDefault after (command.track tracking))
    (room : Room fuel (command.track tracking).sequences)
    (valid : command.Valid tracking)
    (performs' :
      command.perform (Layout.memoryOptimized width) fuel state' =
        .ok after')
    (same :
      ∀ list,
        SameView Layout.default (Layout.memoryOptimized width) fuel
          after.memory after'.memory list) :
    Convertible tracking command := by
  cases command with
  | erase direction list it =>
      obtain ⟨place, tracked, isList, inside⟩ := valid
      subst isList
      intro place' tracked' isBack
      subst isBack
      rw [tracked] at tracked'
      cases tracked'
      apply Classical.byContradiction
      intro irreversible
      obtain ⟨value, isIt, -, stands⟩ := follows'.its .back it place tracked
      rw [← List.length_reverse] at inside
      obtain ⟨hook, isHook⟩ :
          ∃ hook,
            (tracking.sequences place.list).reverse[place.index]? =
              some hook :=
        ⟨_, List.getElem?_eq_getElem inside⟩
      have isElement :
          (tracking.its .back it).bind (tracking.elementAt .back) =
            some hook := by
        rw [tracked]
        exact isHook
      have erased :
          ((Command.erase .back place.list it).track tracking).sequences =
            (Direction.back.erasure place.list hook).apply
              tracking.sequences := by
        rw [Command.track, isElement]
        rfl
      have observes :=
        (default_faithful.observes followsAfter.memory room
          place.list).forwards
      rw [erased] at observes
      obtain ⟨result, isLeft, isRight⟩ := (same place.list).traverse .forth
      rw [observes] at isLeft
      cases isLeft
      rw [Command.perform, isIt, deref_some, ok_bind] at performs'
      obtain ⟨written, erases, isAfter⟩ := of_bind performs'
      cases isAfter
      exact not_forwards_of_not_reversible follows'.memory isHook stands
        irreversible erases isRight
  | _ => exact trivial

/-- Programs that stay equivalent have no erasure that goes astray. -/
theorem convertible_of_equivalent :
    ∀ {tracking : Tracking (Address width) κ ρ} {bound : Nat}
      {state : State (Layout.default : Layout (Address width) κ) ρ}
      {state' : State (Layout.memoryOptimized width : Layout _ κ) ρ},
      FollowsDefault state tracking →
        FollowsOptimized state' tracking →
          (∀ list, (tracking.sequences list).length ≤ bound) →
            bound + commands.length + 1 < fuel →
              Throughout Command.Valid commands tracking →
                Equivalent Layout.default (Layout.memoryOptimized width)
                    fuel commands state state' →
                  Throughout Convertible commands tracking := by
  induction commands with
  | nil =>
      intro tracking bound state state' _ _ _ _ _ _
      exact trivial
  | cons command commands inductionHypothesis =>
      intro tracking bound state state' follows follows' short enough valid
        equivalent
      rw [List.length_cons] at enough
      have room : Room fuel tracking.sequences := by
        intro other
        have shortHere := short other
        omega
      have shortAfter (list : κ) :=
        @length_track _ _ _ _ _ _ command _ short list
      have roomAfter : Room fuel (command.track tracking).sequences := by
        intro other
        have shortHere := shortAfter other
        omega
      obtain ⟨-, after, after', performs, performs', rest⟩ := equivalent
      obtain ⟨_, isAfter, followsAfter⟩ :=
        default_faithful.perform follows room valid.1 erases_always
      rw [performs] at isAfter
      cases isAfter
      have convertible : Convertible tracking command :=
        convertible_of_sameView follows' followsAfter roomAfter valid.1
          performs' rest.sameView
      obtain ⟨_, isAfter', followsAfter'⟩ :=
        memoryOptimized_faithful.perform follows' room valid.1 convertible
      rw [performs'] at isAfter'
      cases isAfter'
      exact ⟨convertible, inductionHypothesis followsAfter followsAfter'
        shortAfter (by omega) valid.2 rest⟩

omit [DecidableEq κ] in
/-- After `dfk_list_init` all lists are empty. -/
theorem represents_fresh_optimized
    {optimized : MemoryOptimized.Memory width κ} {constantTimeSize : Bool}
    (fresh :
      ∀ list, optimized.lists list = freshList constantTimeSize) :
    MemoryOptimized.Represents optimized fun _ : κ => [] := by
  let plain : Memory (Address width) κ :=
    { hooks := fun _ => { next := none, prev := none }
      lists := optimized.lists }
  have isFresh : Represents plain fun _ : κ => [] := represents_fresh fresh
  exact ⟨plain, isFresh, fun _ _ member => (by cases member), rfl⟩

/--
Programs that only use iterators obtained after the last change of their list
see the same in both layouts, if and only if none of them erases through a
reverse iterator that cannot be converted.
-/
theorem layouts_equivalent_iff
    {memory : Memory (Address width) κ}
    {optimized : MemoryOptimized.Memory width κ} {constantTimeSize : Bool}
    (fresh : ∀ list, memory.lists list = freshList constantTimeSize)
    (freshOptimized :
      ∀ list, optimized.lists list = freshList constantTimeSize)
    (valid :
      Throughout Command.Valid commands
        (Tracking.fresh : Tracking (Address width) κ ρ))
    (enough : commands.length + 1 < fuel) :
    Equivalent Layout.default (Layout.memoryOptimized width) fuel commands
        (State.start memory) (State.start optimized) ↔
      Throughout Convertible commands
        (Tracking.fresh : Tracking (Address width) κ ρ) := by
  have represents : Represents memory fun _ : κ => [] :=
    represents_fresh fresh
  have follows :
      FollowsDefault (State.start memory)
        (Tracking.fresh : Tracking (Address width) κ ρ) :=
    ⟨represents, fun _ _ _ tracked => by cases tracked⟩
  have representsOptimized :
      MemoryOptimized.Represents optimized fun _ : κ => [] :=
    represents_fresh_optimized freshOptimized
  have followsOptimized :
      FollowsOptimized (State.start optimized)
        (Tracking.fresh : Tracking (Address width) κ ρ) :=
    ⟨representsOptimized, fun _ _ _ tracked => by cases tracked⟩
  have short (list : κ) :
      ((Tracking.fresh : Tracking (Address width) κ ρ).sequences
        list).length ≤ 0 :=
    Nat.le_refl 0
  rw [← Nat.zero_add commands.length] at enough
  exact ⟨convertible_of_equivalent follows followsOptimized short enough
      valid,
    equivalent_of_convertible follows followsOptimized short enough valid⟩

end Programs

/-! ## Two programs -/

section Runs

open XorChain

/-- Addresses of hooks in a row of two words each. -/
theorem aligned_ne_null (place : Fin 8) :
    BitVec.ofNat 64 (16 * (place.val + 1)) ≠ 0 := by
  revert place
  decide

/-- Hooks in a row. -/
def alignedHook (place : Fin 8) : Address 64 :=
  ⟨BitVec.ofNat 64 (16 * (place.val + 1)), aligned_ne_null place⟩

/-- The hook at 16. -/
def firstHook : Address 64 :=
  alignedHook 0

/-- The hook at 32. -/
def secondHook : Address 64 :=
  alignedHook 1

/-- The hook at 64. -/
def fourthHook : Address 64 :=
  alignedHook 3

/-- A memory whose hooks have not been written to, in the default layout. -/
def emptyMemory : Memory (Address 64) Unit where
  hooks := fun _ => { next := none, prev := none }
  lists := fun _ => freshList true

/-- A memory whose hooks have not been written to, with one pointer. -/
def emptyOptimized : MemoryOptimized.Memory 64 Unit where
  hooks := fun _ => { p := none }
  lists := fun _ => freshList true

/-- Append three hooks, and begin at the last one. -/
def withThreeHooks (commands : List (Command (Address 64) Unit Unit)) :
    List (Command (Address 64) Unit Unit) :=
  [.modify (.append () (alignedHook 0)), .modify (.append () (alignedHook 1)),
    .modify (.append () (alignedHook 3)), .begin .back () ()] ++ commands

theorem layouts_equivalent_iff_last :
    Equivalent Layout.default (Layout.memoryOptimized 64) 8
      (withThreeHooks [.erase .back () ()]) (State.start emptyMemory)
      (State.start emptyOptimized) := by
  have valid :
      Throughout Command.Valid (withThreeHooks [.erase .back () ()])
        (Tracking.fresh : Tracking (Address 64) Unit Unit) := by
    simp [withThreeHooks, Throughout, Command.Valid, Command.track,
      Modification.operation, Operation.Valid, Operation.apply,
      Tracking.fresh, Tracking.afterChange, Modification.lists,
      Tracking.obtain, Variables.assign, alignedHook]
  have convertible :
      Throughout Convertible (withThreeHooks [.erase .back () ()])
        (Tracking.fresh : Tracking (Address 64) Unit Unit) := by
    simp [withThreeHooks, Throughout, Convertible, Command.Erases,
      ReversibleIn, Reversible, Command.track, Modification.operation,
      Operation.apply, Tracking.fresh, Tracking.afterChange,
      Modification.lists, Tracking.obtain, Variables.assign, alignedHook]
  exact (@layouts_equivalent_iff Unit Unit _ _ 64 _ 8 emptyMemory
    emptyOptimized true (fun _ => rfl) (fun _ => rfl) valid
    (by decide)).mpr convertible

/-- The second of three hooks, at 16, 32 and 64, is erased from the back. -/
theorem rerase_in_the_middle_diverges :
    Throughout Command.Valid
        (withThreeHooks [.next .back (), .erase .back () ()])
        (Tracking.fresh : Tracking (Address 64) Unit Unit) ∧
      ¬ Equivalent Layout.default (Layout.memoryOptimized 64) 8
        (withThreeHooks [.next .back (), .erase .back () ()])
        (State.start emptyMemory) (State.start emptyOptimized) := by
  refine ⟨?_, fun equivalent => ?_⟩
  · simp [withThreeHooks, Throughout, Command.Valid, Command.track,
      Modification.operation, Operation.Valid, Operation.apply,
      Tracking.fresh, Tracking.afterChange, Modification.lists,
      Tracking.obtain, Variables.assign, alignedHook]
  · obtain ⟨final, performs⟩ := equivalent.performs
    cases performs

end Runs

end Dfk.LinkedList
