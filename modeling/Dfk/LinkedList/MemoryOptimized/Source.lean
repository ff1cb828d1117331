import Dfk.Library.XorChain
import Dfk.LinkedList.Source

/-!
# The list with one pointer in a hook

`list.c` after the source with `DFK_LIST_MEMORY_OPTIMIZED`.  A hook only keeps
the exclusive or of its neighbours, and an iterator also keeps the element it
came from.  The assertions on hooks and iterators only look for `NULL` here,
and have no definition.
-/

namespace Dfk.LinkedList.MemoryOptimized

open XorChain

variable {κ : Type} {width : Nat}

/-- `DFK_PTR_XOR` -/
abbrev ptrXor (x y : Pointer width) : Pointer width :=
  combine x y

/-- `DFK_PTR_XOR3` -/
abbrev ptrXor3 (x y z : Pointer width) : Pointer width :=
  combine (combine x y) z

/-- `dfk_list_hook_t` -/
structure Hook (width : Nat) where
  p : Pointer width
  deriving DecidableEq

/-- `dfk_list_it` and `dfk_list_rit` -/
abbrev It (width : Nat) := Cursor width

/-- The contents of every hook and every list. -/
structure Memory (width : Nat) (κ : Type) where
  hooks : Address width → Hook width
  lists : κ → ListT (Address width)

namespace Memory

/-- `hook->_p` of a hook. -/
def p (memory : Memory width κ) (hook : Address width) : Pointer width :=
  (memory.hooks hook).p

/-- `hook->_p = pointer` -/
def setP (memory : Memory width κ) (hook : Address width)
    (pointer : Pointer width) : Memory width κ where
  hooks := fun query =>
    if query = hook then { p := pointer } else memory.hooks query
  lists := memory.lists

/-- `if (target) { target->_p = change(target->_p); }` -/
def changePOf (memory : Memory width κ) (target : Pointer width)
    (change : Pointer width → Pointer width) : Memory width κ :=
  match target with
  | some hook => memory.setP hook (change (memory.p hook))
  | none => memory

variable [DecidableEq κ]

/-- Write to a list. -/
def setList (memory : Memory width κ) (list : κ)
    (contents : ListT (Address width)) : Memory width κ where
  hooks := memory.hooks
  lists := fun query => if query = list then contents else memory.lists query

/-- `list->_head = pointer` -/
def setHead (memory : Memory width κ) (list : κ) (pointer : Pointer width) :
    Memory width κ :=
  memory.setList list { memory.lists list with head := pointer }

/-- `list->_tail = pointer` -/
def setTail (memory : Memory width κ) (list : κ) (pointer : Pointer width) :
    Memory width κ :=
  memory.setList list { memory.lists list with tail := pointer }

/-- `if (condition) { list->_head = pointer; }` -/
def setHeadIf (memory : Memory width κ) (condition : Bool) (list : κ)
    (pointer : Pointer width) : Memory width κ :=
  if condition then memory.setHead list pointer else memory

/-- `if (condition) { list->_tail = pointer; }` -/
def setTailIf (memory : Memory width κ) (condition : Bool) (list : κ)
    (pointer : Pointer width) : Memory width κ :=
  if condition then memory.setTail list pointer else memory

/-- A write to `list->_size`, if it is kept. -/
def resize (memory : Memory width κ) (list : κ) (change : Nat → Nat) :
    Memory width κ :=
  memory.setList list
    { memory.lists list with size := (memory.lists list).size.map change }

end Memory

/-! ## Invariants that are asserted -/

/--
A loop of `dfk__list_check_invariants` from `i` to the other end of the list;
`j` goes twice as fast.
-/
def checkTraversal (p : Address width → Pointer width) (last : Pointer width)
    (size : Option Nat) :
    Nat → Cursor width → Cursor width → Nat → Except Fault Unit
  | 0, _, _, _ => .error .outOfFuel
  | fuel + 1, i, j, nhops =>
      if i.value = last then do
        check (j.value = none)
        checkSize size (nhops + 1 = ·)
      else do
        check (i.value ≠ none)
        let i := hop p i
        let j := hop p (hop p j)
        check (i.value ≠ j.value)
        let nhops := nhops + 1
        checkSize size (nhops < ·)
        checkTraversal p last size fuel i j nhops

/-- `dfk__list_check_invariants` -/
def listCheckInvariants (fuel : Nat) (memory : Memory width κ) (list : κ) :
    Except Fault Unit :=
  let contents := memory.lists list
  match contents.head, contents.tail with
  | some head, some tail =>
      if head = tail then do
        check (memory.p head = none)
        checkSize contents.size (· = 1)
      else do
        let first := { prev := none, value := some head }
        checkTraversal memory.p (some tail) contents.size fuel first first 0
        let last := { prev := none, value := some tail }
        checkTraversal memory.p (some head) contents.size fuel last last 0
  | head, tail => do
      check (head = none)
      check (tail = none)
      checkSize contents.size (· = 0)

/-! ## Iterators -/

/-- `dfk_list_begin` -/
def begin (fuel : Nat) (memory : Memory width κ) (list : κ) :
    Except Fault (It width) := do
  listCheckInvariants fuel memory list
  pure { prev := none, value := (memory.lists list).head }

/-- `dfk_list_rbegin` -/
def rbegin (fuel : Nat) (memory : Memory width κ) (list : κ) :
    Except Fault (It width) := do
  listCheckInvariants fuel memory list
  pure { prev := none, value := (memory.lists list).tail }

/-- `dfk_list_end` and `dfk_list_rend` -/
def listEnd (fuel : Nat) (memory : Memory width κ) (list : κ) :
    Except Fault (It width) := do
  listCheckInvariants fuel memory list
  pure { prev := none, value := none }

/-- `dfk_list_it_next` and `dfk_list_rit_next` -/
def itNext (memory : Memory width κ) (it : It width) :
    Except Fault (It width) := do
  let value ← deref it.value
  pure
    { prev := some value
      value := ptrXor it.prev (memory.p value) }

/-- `dfk_list_it_equal` and `dfk_list_rit_equal` -/
def itEqual (lhs rhs : It width) : Bool :=
  lhs.value = rhs.value

/-- The loops of `dfk_list_it_from_value` and `dfk_list_rit_from_value`. -/
def seek (memory : Memory width κ) (value : Address width) :
    Nat → It width → Except Fault (It width)
  | 0, _ => .error .outOfFuel
  | rounds + 1, it =>
      if it.value = some value then
        pure it
      else do
        let it ← itNext memory it
        seek memory value rounds it

/-- `dfk_list_it_from_value` -/
def itFromValue (fuel : Nat) (memory : Memory width κ) (list : κ)
    (value : Address width) : Except Fault (It width) := do
  listCheckInvariants fuel memory list
  let it ← begin fuel memory list
  let it ← seek memory value fuel it
  listCheckInvariants fuel memory list
  pure it

/-- `dfk_list_rit_from_value` -/
def ritFromValue (fuel : Nat) (memory : Memory width κ) (list : κ)
    (value : Address width) : Except Fault (It width) := do
  listCheckInvariants fuel memory list
  let rit ← rbegin fuel memory list
  let rit ← seek memory value fuel rit
  listCheckInvariants fuel memory list
  pure rit

/-! ## Access -/

/-- `dfk_list_front` -/
def front (fuel : Nat) (memory : Memory width κ) (list : κ) :
    Except Fault (Pointer width) := do
  listCheckInvariants fuel memory list
  pure (memory.lists list).head

/-- `dfk_list_back` -/
def back (fuel : Nat) (memory : Memory width κ) (list : κ) :
    Except Fault (Pointer width) := do
  listCheckInvariants fuel memory list
  pure (memory.lists list).tail

/-- The loop of `dfk_list_size`, which takes at most `rounds` rounds. -/
def countFrom (memory : Memory width κ) (stop : It width) :
    Nat → It width → Nat → Except Fault Nat
  | 0, _, _ => .error .outOfFuel
  | rounds + 1, it, size =>
      if itEqual it stop then
        pure size
      else do
        let it ← itNext memory it
        countFrom memory stop rounds it (size + 1)

/-- `dfk_list_size` -/
def size (fuel : Nat) (memory : Memory width κ) (list : κ) :
    Except Fault Nat := do
  listCheckInvariants fuel memory list
  match (memory.lists list).size with
  | some size => pure size
  | none => do
      let it ← begin fuel memory list
      let stop ← listEnd fuel memory list
      countFrom memory stop fuel it 0

/-! ## Changes -/

variable [DecidableEq κ]

/-- What `dfk_list_append` writes. -/
def linkLast (memory : Memory width κ) (list : κ) (hook : Address width) :
    Memory width κ :=
  let tail := (memory.lists list).tail
  let memory := memory.setP hook tail
  let memory := memory.changePOf tail fun p => ptrXor p (some hook)
  let memory :=
    memory.setHeadIf (memory.lists list).head.isNone list (some hook)
  let memory := memory.setTail list (some hook)
  memory.resize list (· + 1)

/-- `dfk_list_append` -/
def append (fuel : Nat) (memory : Memory width κ) (list : κ)
    (hook : Address width) : Except Fault (Memory width κ) := do
  listCheckInvariants fuel memory list
  let memory := linkLast memory list hook
  listCheckInvariants fuel memory list
  pure memory

/-- What `dfk_list_prepend` writes. -/
def linkFirst (memory : Memory width κ) (list : κ) (hook : Address width) :
    Memory width κ :=
  let head := (memory.lists list).head
  let memory := memory.setP hook head
  let memory := memory.changePOf head fun p => ptrXor p (some hook)
  let memory := memory.setHead list (some hook)
  let memory :=
    memory.setTailIf (memory.lists list).tail.isNone list (some hook)
  memory.resize list (· + 1)

/-- `dfk_list_prepend` -/
def prepend (fuel : Nat) (memory : Memory width κ) (list : κ)
    (hook : Address width) : Except Fault (Memory width κ) := do
  listCheckInvariants fuel memory list
  let memory := linkFirst memory list hook
  listCheckInvariants fuel memory list
  pure memory

/-- What `dfk_list_insert` writes. -/
def linkBefore (memory : Memory width κ) (list : κ) (hook : Address width)
    (position : It width) : Memory width κ :=
  let before :=
    if position.value.isSome then position.prev
    else (memory.lists list).tail
  let memory :=
    memory.changePOf position.value fun p => ptrXor3 p before (some hook)
  let memory :=
    memory.changePOf before fun p => ptrXor3 p (some hook) position.value
  let memory := memory.setP hook (ptrXor before position.value)
  let memory := memory.setHeadIf before.isNone list (some hook)
  let memory := memory.setTailIf position.value.isNone list (some hook)
  memory.resize list (· + 1)

/-- `dfk_list_insert` -/
def insert (fuel : Nat) (memory : Memory width κ) (list : κ)
    (hook : Address width) (position : It width) :
    Except Fault (Memory width κ) := do
  listCheckInvariants fuel memory list
  let memory := linkBefore memory list hook position
  listCheckInvariants fuel memory list
  pure memory

/-- What `dfk_list_rinsert` writes. -/
def linkBehind (memory : Memory width κ) (list : κ) (hook : Address width)
    (position : It width) : Memory width κ :=
  let before :=
    if position.value.isSome then position.prev
    else if (memory.lists list).tail.isSome then (memory.lists list).head
    else none
  let memory :=
    memory.changePOf position.value fun p => ptrXor3 p before (some hook)
  let memory :=
    memory.changePOf before fun p => ptrXor3 p (some hook) position.value
  let memory := memory.setP hook (ptrXor before position.value)
  let memory := memory.setHeadIf position.value.isNone list (some hook)
  let memory := memory.setTailIf before.isNone list (some hook)
  memory.resize list (· + 1)

/-- `dfk_list_rinsert` -/
def rinsert (fuel : Nat) (memory : Memory width κ) (list : κ)
    (hook : Address width) (position : It width) :
    Except Fault (Memory width κ) := do
  listCheckInvariants fuel memory list
  let memory := linkBehind memory list hook position
  listCheckInvariants fuel memory list
  pure memory

/-- `dfk_list_clear` -/
def clear (fuel : Nat) (memory : Memory width κ) (list : κ) :
    Except Fault (Memory width κ) := do
  listCheckInvariants fuel memory list
  let memory := memory.setHead list none
  let memory := memory.setTail list none
  let memory := memory.resize list fun _ => 0
  listCheckInvariants fuel memory list
  pure memory

/-- What `dfk_list_erase` writes, with the assertions between. -/
def unlink (memory : Memory width κ) (list : κ) (it : It width) :
    Except Fault (Memory width κ) := do
  let contents := memory.lists list
  if contents.head = contents.tail then
    check (contents.head = it.value)
    pure ((memory.setHead list none).setTail list none)
  else if it.value = contents.head then
    let hook ← deref it.value
    let head ← deref (memory.p hook)
    let memory := memory.setHead list (some head)
    pure (memory.setP head (ptrXor (memory.p head) (some hook)))
  else if it.value = contents.tail then
    let hook ← deref it.value
    let tail ← deref (memory.p hook)
    let memory := memory.setTail list (some tail)
    pure (memory.setP tail (ptrXor (memory.p tail) (some hook)))
  else
    let hook ← deref it.value
    check (ptrXor (memory.p hook) it.prev ≠ none)
    check (it.prev ≠ none)
    let next ← deref (ptrXor (memory.p hook) it.prev)
    let prev ← deref it.prev
    let memory :=
      memory.setP next (ptrXor3 (memory.p next) (some hook) (some prev))
    pure (memory.setP prev (ptrXor3 (memory.p prev) (some hook) (some next)))

/-- `dfk_list_erase` -/
def erase (fuel : Nat) (memory : Memory width κ) (list : κ) (it : It width) :
    Except Fault (Memory width κ) := do
  listCheckInvariants fuel memory list
  check ((← size fuel memory list) ≠ 0)
  let memory ← unlink memory list it
  let memory := memory.resize list (· - 1)
  listCheckInvariants fuel memory list
  pure memory

/-- `dfk_list_rerase` -/
def rerase (fuel : Nat) (memory : Memory width κ) (list : κ)
    (rit : It width) : Except Fault (Memory width κ) := do
  listCheckInvariants fuel memory list
  -- The conversion takes `rit->value` where it would need `rit->value->_p`.
  let it := { prev := ptrXor rit.prev rit.value, value := rit.value }
  let memory ← erase fuel memory list it
  listCheckInvariants fuel memory list
  pure memory

/-- `dfk_list_pop_front` -/
def popFront (fuel : Nat) (memory : Memory width κ) (list : κ) :
    Except Fault (Memory width κ) := do
  listCheckInvariants fuel memory list
  check ((← size fuel memory list) ≠ 0)
  let first ← begin fuel memory list
  let memory ← erase fuel memory list first
  listCheckInvariants fuel memory list
  pure memory

/-- `dfk_list_pop_back` -/
def popBack (fuel : Nat) (memory : Memory width κ) (list : κ) :
    Except Fault (Memory width κ) := do
  listCheckInvariants fuel memory list
  check ((← size fuel memory list) ≠ 0)
  let last ← rbegin fuel memory list
  let memory ← rerase fuel memory list last
  listCheckInvariants fuel memory list
  pure memory

/-- `dfk_list_move` -/
def move (fuel : Nat) (memory : Memory width κ) (src dst : κ) :
    Except Fault (Memory width κ) := do
  listCheckInvariants fuel memory src
  listCheckInvariants fuel memory dst
  let memory := memory.setList dst (memory.lists src)
  let memory := memory.setList src (zeroed (memory.lists src))
  listCheckInvariants fuel memory dst
  listCheckInvariants fuel memory src
  pure memory

/-- `dfk_list_swap` -/
def swap (fuel : Nat) (memory : Memory width κ) (lhs rhs : κ) :
    Except Fault (Memory width κ) := do
  listCheckInvariants fuel memory lhs
  listCheckInvariants fuel memory rhs
  let copy := memory.lists lhs
  let memory := memory.setList lhs (memory.lists rhs)
  let memory := memory.setList rhs copy
  listCheckInvariants fuel memory lhs
  listCheckInvariants fuel memory rhs
  pure memory

end Dfk.LinkedList.MemoryOptimized
