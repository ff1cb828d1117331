import Dfk.Fault

/-!
# The intrusive doubly linked list

`list.c` after the source, for the layout with `_next` and `_prev`.  Hooks and
lists live in a memory; `NULL` is `none`.  The size of a list is kept only with
`DFK_LIST_CONSTANT_TIME_SIZE`.  An iterator is the pointer it holds, and a
reverse iterator differs from it only in the functions it is given to.
-/

namespace Dfk.LinkedList

variable {ι κ : Type}

/-- `dfk_list_hook_t` -/
structure Hook (ι : Type) where
  next : Option ι
  prev : Option ι
  deriving Repr, DecidableEq

/-- `dfk_list_t` -/
structure ListT (ι : Type) where
  head : Option ι
  tail : Option ι
  size : Option Nat
  deriving Repr, DecidableEq

/-- `dfk_list_it` and `dfk_list_rit` -/
structure It (ι : Type) where
  value : Option ι
  deriving Repr, DecidableEq

/-- The contents of every hook and every list. -/
structure Memory (ι κ : Type) where
  hooks : ι → Hook ι
  lists : κ → ListT ι

namespace Memory

/-- `hook->_next` of a hook. -/
def next (memory : Memory ι κ) (hook : ι) : Option ι :=
  (memory.hooks hook).next

/-- `hook->_prev` of a hook. -/
def prev (memory : Memory ι κ) (hook : ι) : Option ι :=
  (memory.hooks hook).prev

/-- Write to a list. -/
def setList [DecidableEq κ]
    (memory : Memory ι κ) (list : κ) (contents : ListT ι) : Memory ι κ where
  hooks := memory.hooks
  lists := fun query => if query = list then contents else memory.lists query

/-- `list->_head = pointer` -/
def setHead [DecidableEq κ]
    (memory : Memory ι κ) (list : κ) (pointer : Option ι) : Memory ι κ :=
  memory.setList list { memory.lists list with head := pointer }

/-- `list->_tail = pointer` -/
def setTail [DecidableEq κ]
    (memory : Memory ι κ) (list : κ) (pointer : Option ι) : Memory ι κ :=
  memory.setList list { memory.lists list with tail := pointer }

/-- `if (condition) { list->_head = pointer; }` -/
def setHeadIf [DecidableEq κ]
    (memory : Memory ι κ) (condition : Bool) (list : κ)
    (pointer : Option ι) : Memory ι κ :=
  if condition then memory.setHead list pointer else memory

/-- `if (condition) { list->_tail = pointer; }` -/
def setTailIf [DecidableEq κ]
    (memory : Memory ι κ) (condition : Bool) (list : κ)
    (pointer : Option ι) : Memory ι κ :=
  if condition then memory.setTail list pointer else memory

/-- A write to `list->_size`, if it is kept. -/
def resize [DecidableEq κ]
    (memory : Memory ι κ) (list : κ) (change : Nat → Nat) : Memory ι κ :=
  memory.setList list
    { memory.lists list with size := (memory.lists list).size.map change }

/-- Write to a hook. -/
def modify [DecidableEq ι]
    (memory : Memory ι κ) (hook : ι) (change : Hook ι → Hook ι) :
    Memory ι κ where
  hooks := fun query =>
    if query = hook then change (memory.hooks hook) else memory.hooks query
  lists := memory.lists

/-- `hook->_next = pointer` -/
def setNext [DecidableEq ι]
    (memory : Memory ι κ) (hook : ι) (pointer : Option ι) : Memory ι κ :=
  memory.modify hook fun contents => { contents with next := pointer }

/-- `hook->_prev = pointer` -/
def setPrev [DecidableEq ι]
    (memory : Memory ι κ) (hook : ι) (pointer : Option ι) : Memory ι κ :=
  memory.modify hook fun contents => { contents with prev := pointer }

/-- `if (target) { target->_next = pointer; }` -/
def setNextOf [DecidableEq ι]
    (memory : Memory ι κ) (target pointer : Option ι) : Memory ι κ :=
  match target with
  | some hook => memory.setNext hook pointer
  | none => memory

/-- `if (target) { target->_prev = pointer; }` -/
def setPrevOf [DecidableEq ι]
    (memory : Memory ι κ) (target pointer : Option ι) : Memory ι κ :=
  match target with
  | some hook => memory.setPrev hook pointer
  | none => memory

end Memory

variable [DecidableEq ι] [DecidableEq κ]

/-! ## Invariants that are asserted -/

/-- An assertion on the size, if it is kept. -/
def checkSize (size : Option Nat) (condition : Nat → Prop)
    [DecidablePred condition] : Except Fault Unit :=
  match size with
  | some size => check (condition size)
  | none => pure ()

/--
A loop of `dfk__list_check_invariants` from `i` to the other end of the list;
`j` goes twice as fast.
-/
def checkTraversal (follow : ι → Option ι) (last : Option ι)
    (size : Option Nat) :
    Nat → Option ι → Option ι → Nat → Except Fault Unit
  | 0, _, _, _ => .error .outOfFuel
  | fuel + 1, i, j, nhops =>
      if i = last then do
        check (j = none)
        checkSize size (nhops + 1 = ·)
      else do
        check (i ≠ none)
        let i := i.bind follow
        let j := (j.bind follow).bind follow
        check (i ≠ j)
        let nhops := nhops + 1
        checkSize size (nhops < ·)
        checkTraversal follow last size fuel i j nhops

/-- `dfk__list_check_invariants` -/
def listCheckInvariants (fuel : Nat) (memory : Memory ι κ) (list : κ) :
    Except Fault Unit :=
  let contents := memory.lists list
  match contents.head, contents.tail with
  | some head, some tail =>
      if head = tail then do
        check (memory.next head = none)
        check (memory.prev head = none)
        checkSize contents.size (· = 1)
      else do
        check (memory.prev head = none)
        check (memory.next tail = none)
        checkTraversal memory.next (some tail) contents.size fuel
          (some head) (some head) 0
        checkTraversal memory.prev (some head) contents.size fuel
          (some tail) (some tail) 0
  | head, tail => do
      check (head = none)
      check (tail = none)
      checkSize contents.size (· = 0)

/-- A loop of `dfk__list_hook_check_invariants`. -/
def hookCheckTraversal (follow : ι → Option ι) :
    Nat → ι → Option ι → Except Fault Unit
  | 0, _, _ => .error .outOfFuel
  | fuel + 1, i, j =>
      match follow i with
      | some i => do
          let j := (j.bind follow).bind follow
          check (some i ≠ j)
          hookCheckTraversal follow fuel i j
      | none => pure ()

/-- `dfk__list_hook_check_invariants` -/
def hookCheckInvariants (fuel : Nat) (memory : Memory ι κ) (hook : ι) :
    Except Fault Unit := do
  hookCheckTraversal memory.next fuel hook (some hook)
  hookCheckTraversal memory.prev fuel hook (some hook)

/-- `dfk__list_it_check_invariants` and `dfk__list_rit_check_invariants` -/
def itCheckInvariants (fuel : Nat) (memory : Memory ι κ) (it : It ι) :
    Except Fault Unit :=
  match it.value with
  | some hook => hookCheckInvariants fuel memory hook
  | none => pure ()

/-! ## Iterators -/

/-- `dfk_list_begin` -/
def begin (fuel : Nat) (memory : Memory ι κ) (list : κ) :
    Except Fault (It ι) := do
  listCheckInvariants fuel memory list
  let it := { value := (memory.lists list).head : It ι }
  itCheckInvariants fuel memory it
  pure it

/-- `dfk_list_rbegin` -/
def rbegin (fuel : Nat) (memory : Memory ι κ) (list : κ) :
    Except Fault (It ι) := do
  listCheckInvariants fuel memory list
  let rit := { value := (memory.lists list).tail : It ι }
  itCheckInvariants fuel memory rit
  pure rit

/-- `dfk_list_end` and `dfk_list_rend` -/
def listEnd (fuel : Nat) (memory : Memory ι κ) (list : κ) :
    Except Fault (It ι) := do
  listCheckInvariants fuel memory list
  let it := { value := none : It ι }
  itCheckInvariants fuel memory it
  pure it

/-- `dfk_list_it_from_value` and `dfk_list_rit_from_value` -/
def itFromValue (fuel : Nat) (memory : Memory ι κ) (list : κ) (value : ι) :
    Except Fault (It ι) := do
  listCheckInvariants fuel memory list
  hookCheckInvariants fuel memory value
  let it := { value := some value : It ι }
  itCheckInvariants fuel memory it
  hookCheckInvariants fuel memory value
  listCheckInvariants fuel memory list
  pure it

/-- What `dfk_list_it_next` and `dfk_list_rit_next` have in common. -/
def advance (fuel : Nat) (memory : Memory ι κ) (follow : ι → Option ι)
    (it : It ι) : Except Fault (It ι) := do
  itCheckInvariants fuel memory it
  let value ← deref it.value
  let it := { value := follow value : It ι }
  itCheckInvariants fuel memory it
  pure it

/-- `dfk_list_it_next` -/
def itNext (fuel : Nat) (memory : Memory ι κ) (it : It ι) :
    Except Fault (It ι) :=
  advance fuel memory memory.next it

/-- `dfk_list_rit_next` -/
def ritNext (fuel : Nat) (memory : Memory ι κ) (rit : It ι) :
    Except Fault (It ι) :=
  advance fuel memory memory.prev rit

/-- `dfk_list_it_equal` and `dfk_list_rit_equal` -/
def itEqual (fuel : Nat) (memory : Memory ι κ) (lhs rhs : It ι) :
    Except Fault Bool := do
  itCheckInvariants fuel memory lhs
  itCheckInvariants fuel memory rhs
  pure (lhs.value = rhs.value)

/-! ## Access -/

/-- `dfk_list_front` -/
def front (fuel : Nat) (memory : Memory ι κ) (list : κ) :
    Except Fault (Option ι) := do
  listCheckInvariants fuel memory list
  pure (memory.lists list).head

/-- `dfk_list_back` -/
def back (fuel : Nat) (memory : Memory ι κ) (list : κ) :
    Except Fault (Option ι) := do
  listCheckInvariants fuel memory list
  pure (memory.lists list).tail

/-- `dfk_list_empty` -/
def empty (fuel : Nat) (memory : Memory ι κ) (list : κ) :
    Except Fault Bool := do
  listCheckInvariants fuel memory list
  pure (memory.lists list).head.isNone

/-- The loop of `dfk_list_size`, which takes at most `rounds` rounds. -/
def countFrom (fuel : Nat) (memory : Memory ι κ) (stop : It ι) :
    Nat → It ι → Nat → Except Fault Nat
  | 0, _, _ => .error .outOfFuel
  | rounds + 1, it, size => do
      if ← itEqual fuel memory it stop then
        pure size
      else
        let it ← itNext fuel memory it
        countFrom fuel memory stop rounds it (size + 1)

/-- `dfk_list_size` -/
def size (fuel : Nat) (memory : Memory ι κ) (list : κ) :
    Except Fault Nat := do
  listCheckInvariants fuel memory list
  match (memory.lists list).size with
  | some size => pure size
  | none => do
      let it ← begin fuel memory list
      let stop ← listEnd fuel memory list
      countFrom fuel memory stop fuel it 0

/-! ## Changes -/

/-- The contents `dfk_list_init` gives to a list. -/
def freshList (constantTimeSize : Bool) : ListT ι where
  head := none
  tail := none
  size := if constantTimeSize then some 0 else none

/-- `dfk_list_init` -/
def init (fuel : Nat) (constantTimeSize : Bool) (memory : Memory ι κ)
    (list : κ) : Except Fault (Memory ι κ) := do
  let memory := memory.setList list (freshList constantTimeSize)
  listCheckInvariants fuel memory list
  pure memory

/-- What `dfk_list_append` writes. -/
def linkLast (memory : Memory ι κ) (list : κ) (hook : ι) : Memory ι κ :=
  let tail := (memory.lists list).tail
  let memory := memory.setNext hook none
  let memory := memory.setPrev hook tail
  let memory := memory.setNextOf tail (some hook)
  let memory :=
    memory.setHeadIf (memory.lists list).head.isNone list (some hook)
  let memory := memory.setTail list (some hook)
  memory.resize list (· + 1)

/-- `dfk_list_append` -/
def append (fuel : Nat) (memory : Memory ι κ) (list : κ) (hook : ι) :
    Except Fault (Memory ι κ) := do
  listCheckInvariants fuel memory list
  let memory := linkLast memory list hook
  listCheckInvariants fuel memory list
  hookCheckInvariants fuel memory hook
  pure memory

/-- What `dfk_list_prepend` writes. -/
def linkFirst (memory : Memory ι κ) (list : κ) (hook : ι) : Memory ι κ :=
  let head := (memory.lists list).head
  let memory := memory.setPrev hook none
  let memory := memory.setNext hook head
  let memory := memory.setPrevOf head (some hook)
  let memory := memory.setHead list (some hook)
  let memory :=
    memory.setTailIf (memory.lists list).tail.isNone list (some hook)
  memory.resize list (· + 1)

/-- `dfk_list_prepend` -/
def prepend (fuel : Nat) (memory : Memory ι κ) (list : κ) (hook : ι) :
    Except Fault (Memory ι κ) := do
  listCheckInvariants fuel memory list
  let memory := linkFirst memory list hook
  listCheckInvariants fuel memory list
  hookCheckInvariants fuel memory hook
  pure memory

/-- What `dfk_list_insert` writes. -/
def linkBefore (memory : Memory ι κ) (list : κ) (hook : ι)
    (position : It ι) : Memory ι κ :=
  let before :=
    match position.value with
    | some value => memory.prev value
    | none => (memory.lists list).tail
  let memory := memory.setPrevOf position.value (some hook)
  let memory := memory.setNextOf before (some hook)
  let memory := memory.setPrev hook before
  let memory := memory.setNext hook position.value
  let memory := memory.setHeadIf before.isNone list (some hook)
  let memory := memory.setTailIf position.value.isNone list (some hook)
  memory.resize list (· + 1)

/-- `dfk_list_insert` -/
def insert (fuel : Nat) (memory : Memory ι κ) (list : κ) (hook : ι)
    (position : It ι) : Except Fault (Memory ι κ) := do
  listCheckInvariants fuel memory list
  itCheckInvariants fuel memory position
  let memory := linkBefore memory list hook position
  listCheckInvariants fuel memory list
  hookCheckInvariants fuel memory hook
  itCheckInvariants fuel memory position
  pure memory

/-- What `dfk_list_rinsert` writes. -/
def linkBehind (memory : Memory ι κ) (list : κ) (hook : ι)
    (position : It ι) : Memory ι κ :=
  let before :=
    match position.value with
    | some value => memory.next value
    | none =>
        if (memory.lists list).tail.isSome then (memory.lists list).head
        else none
  let memory := memory.setNextOf position.value (some hook)
  let memory := memory.setPrevOf before (some hook)
  let memory := memory.setNext hook before
  let memory := memory.setPrev hook position.value
  let memory := memory.setHeadIf position.value.isNone list (some hook)
  let memory := memory.setTailIf before.isNone list (some hook)
  memory.resize list (· + 1)

/-- `dfk_list_rinsert` -/
def rinsert (fuel : Nat) (memory : Memory ι κ) (list : κ) (hook : ι)
    (position : It ι) : Except Fault (Memory ι κ) := do
  listCheckInvariants fuel memory list
  itCheckInvariants fuel memory position
  let memory := linkBehind memory list hook position
  listCheckInvariants fuel memory list
  hookCheckInvariants fuel memory hook
  itCheckInvariants fuel memory position
  pure memory

/-- `dfk_list_clear` -/
def clear (fuel : Nat) (memory : Memory ι κ) (list : κ) :
    Except Fault (Memory ι κ) := do
  listCheckInvariants fuel memory list
  let memory := memory.setHead list none
  let memory := memory.setTail list none
  let memory := memory.resize list fun _ => 0
  listCheckInvariants fuel memory list
  pure memory

/-- What `dfk_list_erase` writes, with the assertions between. -/
def unlink (memory : Memory ι κ) (list : κ) (hook : Option ι) :
    Except Fault (Memory ι κ) := do
  let contents := memory.lists list
  if contents.head = contents.tail then
    check (contents.head = hook)
    pure ((memory.setHead list none).setTail list none)
  else if hook = contents.head then
    let hook ← deref hook
    check (memory.next hook ≠ none)
    let next ← deref (memory.next hook)
    pure ((memory.setPrev next none).setHead list (some next))
  else if hook = contents.tail then
    let hook ← deref hook
    check (memory.prev hook ≠ none)
    let prev ← deref (memory.prev hook)
    pure ((memory.setNext prev none).setTail list (some prev))
  else
    let hook ← deref hook
    check (memory.prev hook ≠ none)
    check (memory.next hook ≠ none)
    let prev ← deref (memory.prev hook)
    let next ← deref (memory.next hook)
    pure ((memory.setNext prev (some next)).setPrev next (some prev))

/-- `dfk_list_erase` -/
def erase (fuel : Nat) (memory : Memory ι κ) (list : κ) (it : It ι) :
    Except Fault (Memory ι κ) := do
  listCheckInvariants fuel memory list
  itCheckInvariants fuel memory it
  check ((← size fuel memory list) ≠ 0)
  let memory ← unlink memory list it.value
  let memory := memory.resize list (· - 1)
  listCheckInvariants fuel memory list
  pure memory

/-- `dfk_list_rerase` -/
def rerase (fuel : Nat) (memory : Memory ι κ) (list : κ) (rit : It ι) :
    Except Fault (Memory ι κ) := do
  listCheckInvariants fuel memory list
  itCheckInvariants fuel memory rit
  let it := { value := rit.value : It ι }
  let memory ← erase fuel memory list it
  listCheckInvariants fuel memory list
  pure memory

/-- `dfk_list_pop_front` -/
def popFront (fuel : Nat) (memory : Memory ι κ) (list : κ) :
    Except Fault (Memory ι κ) := do
  listCheckInvariants fuel memory list
  check ((← size fuel memory list) ≠ 0)
  let first ← begin fuel memory list
  let memory ← erase fuel memory list first
  listCheckInvariants fuel memory list
  pure memory

/-- `dfk_list_pop_back` -/
def popBack (fuel : Nat) (memory : Memory ι κ) (list : κ) :
    Except Fault (Memory ι κ) := do
  listCheckInvariants fuel memory list
  check ((← size fuel memory list) ≠ 0)
  let last ← rbegin fuel memory list
  let memory ← rerase fuel memory list last
  listCheckInvariants fuel memory list
  pure memory

/-- A list of zero bytes. -/
def zeroed (contents : ListT ι) : ListT ι where
  head := none
  tail := none
  size := contents.size.map fun _ => 0

/-- `dfk_list_move` -/
def move (fuel : Nat) (memory : Memory ι κ) (src dst : κ) :
    Except Fault (Memory ι κ) := do
  listCheckInvariants fuel memory src
  listCheckInvariants fuel memory dst
  let memory := memory.setList dst (memory.lists src)
  let memory := memory.setList src (zeroed (memory.lists src))
  listCheckInvariants fuel memory dst
  listCheckInvariants fuel memory src
  pure memory

/-- `dfk_list_swap` -/
def swap (fuel : Nat) (memory : Memory ι κ) (lhs rhs : κ) :
    Except Fault (Memory ι κ) := do
  listCheckInvariants fuel memory lhs
  listCheckInvariants fuel memory rhs
  let copy := memory.lists lhs
  let memory := memory.setList lhs (memory.lists rhs)
  let memory := memory.setList rhs copy
  listCheckInvariants fuel memory lhs
  listCheckInvariants fuel memory rhs
  pure memory

end Dfk.LinkedList
