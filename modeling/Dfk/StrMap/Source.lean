import Dfk.AvlTree.Source
import Dfk.Bytes

/-!
# String maps

`dfk_strmap_t` is an AVL tree of items ordered by their keys.  An item keeps
its key and its value for as long as it lives, so it serves as the address of
its own hook.
-/

namespace Dfk.StrMap

open AvlTree

/-- `dfk_buf_t`, its data given by an address. -/
structure Buf where
  data : Option Nat
  size : Nat
  deriving Repr, DecidableEq

/-- `dfk_strmap_item_t`, with the address it is stored at. -/
structure Item where
  address : Nat
  key : Bytes
  value : Buf
  deriving Repr, DecidableEq

/-- `dfk__strmap_lookup_cmp` -/
def lookupCmp (lh rh : Bytes) : Int :=
  let tocmp := min lh.length rh.length
  let res := strncmp tocmp lh rh
  if res ≠ 0 then res
  else if rh.length < lh.length then 1 else 0

/-- `dfk__strmap_cmp` -/
def cmp (l r : Item) : Int :=
  lookupCmp l.key r.key

/-- `dfk_strmap_item_init` -/
def itemInit (debug : Bool) (memory : Memory Item) (item : Item) :
    Except Fault (Memory Item) := do
  check (item.key ≠ [])
  check (item.value.data.isSome ∨ item.value.size = 0)
  pure (hookInit debug memory item)

/-- `dfk_strmap_t` and the hooks of all items. -/
structure State where
  memory : Memory Item
  map : AvlTree.Tree Item

/-- `dfk_strmap_init` -/
def init
    (memory : Memory Item) (self : Nat) (constantTimeSize : Bool) :
    State where
  memory := memory
  map := AvlTree.init self constantTimeSize cmp

/-- `dfk_strmap_size` -/
def size (fuel : Nat) (state : State) : Except Fault Nat :=
  AvlTree.size fuel state.memory state.map

/-- `dfk_strmap_get` -/
def get (fuel : Nat) (state : State) (key : Bytes) : Except Fault Buf := do
  check (key ≠ [])
  let item ←
    find fuel state.memory state.map fun stored =>
      lookupCmp stored.key key
  match item with
  | some item => pure item.value
  | none => pure { data := none, size := 0 }

/-- `dfk_strmap_insert` -/
def insert (fuel : Nat) (state : State) (item : Item) :
    Except Fault State := do
  let (_, map, memory) ←
    AvlTree.insert fuel state.memory state.map item
  pure { memory := memory, map := map }

/-- `dfk_strmap_erase`, the iterator standing on `item`. -/
def erase (debug : Bool) (fuel : Nat) (state : State) (item : Item) :
    Except Fault State := do
  let (map, memory) ←
    AvlTree.erase debug fuel state.memory state.map item
  pure { memory := memory, map := map }

/-- What a client calls; an item is initialised before it is inserted. -/
inductive Call where
  | insert (item : Item)
  | erase (item : Item)
  | get (key : Bytes)
  | size
  deriving Repr, DecidableEq

/-- What a client gets back. -/
inductive Answer where
  | done
  | value (buf : Buf)
  | count (size : Nat)
  deriving Repr, DecidableEq

/-- One call. -/
def perform (fuel : Nat) (state : State) :
    Call → Except Fault (Answer × State)
  | .insert item => do
      let memory ← itemInit false state.memory item
      let state ← insert fuel { state with memory := memory } item
      pure (.done, state)
  | .erase item => do
      let state ← erase false fuel state item
      pure (.done, state)
  | .get key => do
      let value ← get fuel state key
      pure (.value value, state)
  | .size => do
      let size ← size fuel state
      pure (.count size, state)

/-- A sequence of calls. -/
def run (fuel : Nat) :
    State → List Call → Except Fault (List Answer × State)
  | state, [] => .ok ([], state)
  | state, call :: calls => do
      let (answer, state) ← perform fuel state call
      let (answers, state) ← run fuel state calls
      pure (answer :: answers, state)

end Dfk.StrMap
