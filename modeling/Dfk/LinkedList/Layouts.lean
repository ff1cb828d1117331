import Dfk.LinkedList.MemoryOptimized.Operations

/-!
# Two layouts of one list

What the functions of `list.c` have in common with and without
`DFK_LIST_MEMORY_OPTIMIZED`.  A program of calls can be run with either layout.
It keeps iterators in variables, and may use them until their list changes.
-/

namespace Dfk.LinkedList

/-- Iterators and reverse iterators. -/
inductive Direction where
  | forth
  | back
  deriving Repr, DecidableEq

/-- Modifications of lists without an iterator. -/
inductive Modification (ι κ : Type) where
  | append (list : κ) (hook : ι)
  | prepend (list : κ) (hook : ι)
  | popFront (list : κ)
  | popBack (list : κ)
  | clear (list : κ)
  | move (src dst : κ)
  | swap (lhs rhs : κ)
  deriving Repr, DecidableEq

/-- The functions of `list.c` in one layout. -/
structure Layout (ι κ : Type) where
  Memory : Type
  It : Type
  value : It → Option ι
  begin : Direction → Nat → Memory → κ → Except Fault It
  listEnd : Nat → Memory → κ → Except Fault It
  fromValue : Direction → Nat → Memory → κ → ι → Except Fault It
  next : Direction → Nat → Memory → It → Except Fault It
  equal : Nat → Memory → It → It → Except Fault Bool
  front : Nat → Memory → κ → Except Fault (Option ι)
  back : Nat → Memory → κ → Except Fault (Option ι)
  size : Nat → Memory → κ → Except Fault Nat
  traverse : Direction → Nat → Memory → κ → Except Fault (List ι)
  modify : Nat → Memory → Modification ι κ → Except Fault Memory
  insert : Direction → Nat → Memory → κ → ι → It → Except Fault Memory
  erase : Direction → Nat → Memory → κ → It → Except Fault Memory

section Layouts

variable {ι κ : Type} [DecidableEq κ]

/-- The layout without `DFK_LIST_MEMORY_OPTIMIZED`. -/
def Layout.default [DecidableEq ι] : Layout ι κ where
  Memory := LinkedList.Memory ι κ
  It := LinkedList.It ι
  value := It.value
  begin
    | .forth => LinkedList.begin
    | .back => LinkedList.rbegin
  listEnd := LinkedList.listEnd
  fromValue _ := LinkedList.itFromValue
  next
    | .forth => LinkedList.itNext
    | .back => LinkedList.ritNext
  equal := LinkedList.itEqual
  front := LinkedList.front
  back := LinkedList.back
  size := LinkedList.size
  traverse
    | .forth => LinkedList.forwards
    | .back => LinkedList.backwards
  modify fuel memory
    | .append list hook => LinkedList.append fuel memory list hook
    | .prepend list hook => LinkedList.prepend fuel memory list hook
    | .popFront list => LinkedList.popFront fuel memory list
    | .popBack list => LinkedList.popBack fuel memory list
    | .clear list => LinkedList.clear fuel memory list
    | .move src dst => LinkedList.move fuel memory src dst
    | .swap lhs rhs => LinkedList.swap fuel memory lhs rhs
  insert
    | .forth => LinkedList.insert
    | .back => LinkedList.rinsert
  erase
    | .forth => LinkedList.erase
    | .back => LinkedList.rerase

/-- The layout with `DFK_LIST_MEMORY_OPTIMIZED`. -/
def Layout.memoryOptimized (width : Nat) :
    Layout (XorChain.Address width) κ where
  Memory := MemoryOptimized.Memory width κ
  It := MemoryOptimized.It width
  value := XorChain.Cursor.value
  begin
    | .forth => MemoryOptimized.begin
    | .back => MemoryOptimized.rbegin
  listEnd := MemoryOptimized.listEnd
  fromValue
    | .forth => MemoryOptimized.itFromValue
    | .back => MemoryOptimized.ritFromValue
  next _ _ := MemoryOptimized.itNext
  equal _ _ lhs rhs := .ok (MemoryOptimized.itEqual lhs rhs)
  front := MemoryOptimized.front
  back := MemoryOptimized.back
  size := MemoryOptimized.size
  traverse
    | .forth => MemoryOptimized.forwards
    | .back => MemoryOptimized.backwards
  modify fuel memory
    | .append list hook => MemoryOptimized.append fuel memory list hook
    | .prepend list hook => MemoryOptimized.prepend fuel memory list hook
    | .popFront list => MemoryOptimized.popFront fuel memory list
    | .popBack list => MemoryOptimized.popBack fuel memory list
    | .clear list => MemoryOptimized.clear fuel memory list
    | .move src dst => MemoryOptimized.move fuel memory src dst
    | .swap lhs rhs => MemoryOptimized.swap fuel memory lhs rhs
  insert
    | .forth => MemoryOptimized.insert
    | .back => MemoryOptimized.rinsert
  erase
    | .forth => MemoryOptimized.erase
    | .back => MemoryOptimized.rerase

end Layouts

/-! ## Programs -/

/-- Calls, with the variables for their iterators. -/
inductive Command (ι κ ρ : Type) where
  | begin (direction : Direction) (list : κ) (it : ρ)
  | listEnd (direction : Direction) (list : κ) (it : ρ)
  | fromValue (direction : Direction) (list : κ) (value : ι) (it : ρ)
  | next (direction : Direction) (it : ρ)
  | modify (modification : Modification ι κ)
  | insert (direction : Direction) (list : κ) (hook : ι) (position : ρ)
  | erase (direction : Direction) (list : κ) (it : ρ)
  deriving Repr, DecidableEq

/-- Variables for iterators and for reverse iterators. -/
abbrev Variables (ρ α : Type) := Direction → ρ → Option α

section Programs

variable {ι κ ρ α : Type} [DecidableEq ρ]

/-- Give a variable its value. -/
def Variables.assign (its : Variables ρ α) (direction : Direction) (it : ρ)
    (value : α) : Variables ρ α :=
  fun queryDirection query =>
    if queryDirection = direction ∧ query = it then some value
    else its queryDirection query

/-- What a program with one of the layouts works on. -/
structure State (layout : Layout ι κ) (ρ : Type) where
  memory : layout.Memory
  its : Variables ρ layout.It

/-- No iterator has been obtained yet. -/
def State.start {layout : Layout ι κ} (memory : layout.Memory) :
    State layout ρ where
  memory := memory
  its := fun _ _ => none

/-- Do a call. -/
def Command.perform (layout : Layout ι κ) (fuel : Nat)
    (state : State layout ρ) : Command ι κ ρ → Except Fault (State layout ρ)
  | .begin direction list it => do
      let value ← layout.begin direction fuel state.memory list
      pure { state with its := state.its.assign direction it value }
  | .listEnd direction list it => do
      let value ← layout.listEnd fuel state.memory list
      pure { state with its := state.its.assign direction it value }
  | .fromValue direction list value it => do
      let value ← layout.fromValue direction fuel state.memory list value
      pure { state with its := state.its.assign direction it value }
  | .next direction it => do
      let value ← deref (state.its direction it)
      let value ← layout.next direction fuel state.memory value
      pure { state with its := state.its.assign direction it value }
  | .modify modification => do
      let memory ← layout.modify fuel state.memory modification
      pure { state with memory := memory }
  | .insert direction list hook position => do
      let position ← deref (state.its direction position)
      let memory ←
        layout.insert direction fuel state.memory list hook position
      pure { state with memory := memory }
  | .erase direction list it => do
      let it ← deref (state.its direction it)
      let memory ← layout.erase direction fuel state.memory list it
      pure { state with memory := memory }

end Programs

/-! ## What is kept track of -/

/-- A sequence in the order of an iterator. -/
def Direction.order {ι : Type} : Direction → List ι → List ι
  | .forth, sequence => sequence
  | .back, sequence => sequence.reverse

/-- Where an iterator is: in which list, and how far from its begin. -/
structure Place (κ : Type) where
  list : κ
  index : Nat
  deriving Repr, DecidableEq

/--
The sequences of the lists, and the places of the iterators that have been
obtained after the last change of their list.
-/
structure Tracking (ι κ ρ : Type) where
  sequences : Sequences ι κ
  its : Variables ρ (Place κ)

section Tracking

variable {ι κ ρ : Type}

/-- The operation on sequences that a modification is. -/
def Modification.operation : Modification ι κ → Operation ι κ
  | .append list hook => .append list hook
  | .prepend list hook => .prepend list hook
  | .popFront list => .popFront list
  | .popBack list => .popBack list
  | .clear list => .clear list
  | .move src dst => .move src dst
  | .swap lhs rhs => .swap lhs rhs

/-- The lists that a modification is made to. -/
def Modification.lists : Modification ι κ → List κ
  | .append list _ | .prepend list _ | .popFront list | .popBack list
  | .clear list => [list]
  | .move src dst => [src, dst]
  | .swap lhs rhs => [lhs, rhs]

/-- The operation that an insertion is. -/
def Direction.insertion (direction : Direction) (list : κ) (hook : ι)
    (position : Option ι) : Operation ι κ :=
  match direction with
  | .forth => .insert list hook position
  | .back => .rinsert list hook position

/-- The operation that an erasure is. -/
def Direction.erasure (direction : Direction) (list : κ) (hook : ι) :
    Operation ι κ :=
  match direction with
  | .forth => .erase list hook
  | .back => .rerase list hook

/-- The element at a place, or the end. -/
def Tracking.elementAt (tracking : Tracking ι κ ρ) (direction : Direction)
    (place : Place κ) : Option ι :=
  (direction.order (tracking.sequences place.list))[place.index]?

variable [DecidableEq ι] [DecidableEq κ] [DecidableEq ρ]

/-- Forget the iterators of lists that change. -/
def Tracking.afterChange (tracking : Tracking ι κ ρ) (lists : List κ)
    (operation : Operation ι κ) : Tracking ι κ ρ where
  sequences := operation.apply tracking.sequences
  its := fun direction it =>
    (tracking.its direction it).filter fun place => place.list ∉ lists

/-- Keep track of an iterator that has been obtained. -/
def Tracking.obtain (tracking : Tracking ι κ ρ) (direction : Direction)
    (it : ρ) (place : Place κ) : Tracking ι κ ρ where
  sequences := tracking.sequences
  its := tracking.its.assign direction it place

/-- Keep track of a call. -/
def Command.track (tracking : Tracking ι κ ρ) :
    Command ι κ ρ → Tracking ι κ ρ
  | .begin direction list it =>
      tracking.obtain direction it { list := list, index := 0 }
  | .listEnd direction list it =>
      tracking.obtain direction it
        { list := list, index := (tracking.sequences list).length }
  | .fromValue direction list value it =>
      tracking.obtain direction it
        { list := list
          index := (direction.order (tracking.sequences list)).idxOf value }
  | .next direction it =>
      match tracking.its direction it with
      | some place =>
          tracking.obtain direction it
            { place with index := place.index + 1 }
      | none => tracking
  | .modify modification =>
      tracking.afterChange modification.lists modification.operation
  | .insert direction list hook position =>
      match tracking.its direction position with
      | some place =>
          tracking.afterChange [list]
            (direction.insertion list hook
              (tracking.elementAt direction place))
      | none => tracking
  | .erase direction list it =>
      match (tracking.its direction it).bind
          (tracking.elementAt direction) with
      | some hook =>
          tracking.afterChange [list] (direction.erasure list hook)
      | none => tracking

/--
Every iterator has been obtained after the last change of its list, is at an
element where the call needs one, and is given to its own list.  Otherwise a
call is valid like the operation on sequences.
-/
def Command.Valid (tracking : Tracking ι κ ρ) : Command ι κ ρ → Prop
  | .begin _ _ _ | .listEnd _ _ _ => True
  | .fromValue _ list value _ => value ∈ tracking.sequences list
  | .next direction it =>
      ∃ place, tracking.its direction it = some place ∧
        place.index < (tracking.sequences place.list).length
  | .modify modification =>
      modification.operation.Valid tracking.sequences
  | .insert direction list hook position =>
      (∀ other, hook ∉ tracking.sequences other) ∧
        ∃ place, tracking.its direction position = some place ∧
          place.list = list
  | .erase direction list it =>
      ∃ place, tracking.its direction it = some place ∧
        place.list = list ∧
        place.index < (tracking.sequences list).length

/-- A property of each call of a program, where it is done. -/
def Throughout (property : Tracking ι κ ρ → Command ι κ ρ → Prop) :
    List (Command ι κ ρ) → Tracking ι κ ρ → Prop
  | [], _ => True
  | command :: commands, tracking =>
      property tracking command ∧
        Throughout property commands (command.track tracking)

/-- All lists have been initialised, and no iterator has been obtained. -/
def Tracking.fresh : Tracking ι κ ρ where
  sequences := fun _ => []
  its := fun _ _ => none

end Tracking

end Dfk.LinkedList
