import Dfk.Fault

/-!
# The intrusive AVL tree

Hooks live in a memory that maps every hook address to its contents; the
objects embedding the hooks, and so the result of comparing two of them, do
not change while the tree is edited.  `NULL` is `none`.  Builds differ in two
ways: `size` is kept only with `DFK_AVLTREE_CONSTANT_TIME_SIZE`, and the
back-pointer `tree` only matters with `DFK_DEBUG`.
-/

namespace Dfk.AvlTree

variable {ι : Type}

/-- `dfk_avltree_hook_t`; `tree` is the address of a `dfk_avltree_t`. -/
structure Hook (ι : Type) where
  left : Option ι
  right : Option ι
  parent : Option ι
  bal : Int
  tree : Option Nat
  deriving Repr, DecidableEq

/-- `dfk_avltree_t`, with the address it is stored at. -/
structure Tree (ι : Type) where
  self : Nat
  root : Option ι
  cmp : ι → ι → Int
  size : Option Nat

/-- The contents of every hook. -/
abbrev Memory (ι : Type) := ι → Hook ι

namespace Memory

variable [DecidableEq ι]

/-- Update one hook. -/
def modify
    (memory : Memory ι)
    (address : ι)
    (change : Hook ι → Hook ι) : Memory ι :=
  fun query =>
    if query = address then change (memory address) else memory query

/-- `hook->_left = pointer` -/
def setLeft (memory : Memory ι) (hook : ι) (pointer : Option ι) : Memory ι :=
  memory.modify hook fun contents => { contents with left := pointer }

/-- `hook->_right = pointer` -/
def setRight (memory : Memory ι) (hook : ι) (pointer : Option ι) : Memory ι :=
  memory.modify hook fun contents => { contents with right := pointer }

/-- `hook->_parent = pointer` -/
def setParent (memory : Memory ι) (hook : ι) (pointer : Option ι) : Memory ι :=
  memory.modify hook fun contents => { contents with parent := pointer }

/-- `hook->_bal = balance` -/
def setBal (memory : Memory ι) (hook : ι) (balance : Int) : Memory ι :=
  memory.modify hook fun contents => { contents with bal := balance }

/-- `hook->_tree = pointer` -/
def setTree (memory : Memory ι) (hook : ι) (pointer : Option Nat) : Memory ι :=
  memory.modify hook fun contents => { contents with tree := pointer }

/-- `if (child) { child->_parent = pointer; }` -/
def setParentOf
    (memory : Memory ι) (child pointer : Option ι) : Memory ι :=
  match child with
  | some hook => memory.setParent hook pointer
  | none => memory

end Memory

variable [DecidableEq ι]

/-- `dfk_avltree_init` -/
def init (self : Nat) (constantTimeSize : Bool) (cmp : ι → ι → Int) :
    Tree ι where
  self := self
  root := none
  cmp := cmp
  size := if constantTimeSize then some 0 else none

/-- The contents `dfk_avltree_hook_init` gives to a hook. -/
def freshHook (debug : Bool) (old : Hook ι) : Hook ι where
  left := none
  right := none
  parent := none
  bal := 0
  tree := if debug then none else old.tree

/-- `dfk_avltree_hook_init` -/
def hookInit (debug : Bool) (memory : Memory ι) (hook : ι) : Memory ι :=
  memory.modify hook (freshHook debug)

/-- The check of one child pointer in `dfk__avltree_check_invariants_node`. -/
def checkInvariantsChild
    (checkNode : ι → Except Fault Nat)
    (memory : Memory ι) (node : ι) : Option ι → Except Fault Nat
  | some child => do
      check ((memory child).parent = some node)
      checkNode child
  | none => pure 0

/-- `dfk__avltree_check_invariants_node`; returns the height. -/
def checkInvariantsNode :
    Nat → Memory ι → ι → Except Fault Nat
  | 0, _, _ => .error .outOfFuel
  | fuel + 1, memory, node => do
      let lheight ←
        checkInvariantsChild (checkInvariantsNode fuel memory)
          memory node (memory node).left
      let rheight ←
        checkInvariantsChild (checkInvariantsNode fuel memory)
          memory node (memory node).right
      check (((lheight : Int) - rheight).natAbs ≤ 1)
      check ((memory node).bal = (rheight : Int) - lheight)
      pure (1 + max lheight rheight)

/-- `dfk__avltree_check_invariants` -/
def checkInvariants
    (fuel : Nat) (memory : Memory ι) (tree : Tree ι) : Except Fault Unit :=
  match tree.root with
  | some root => do
      check ((memory root).parent = none)
      let _ ← checkInvariantsNode fuel memory root
      pure ()
  | none => pure ()

/-- `dfk__avltree_single_rot` -/
def singleRot (memory : Memory ι) (prime : ι) :
    Except Fault (ι × Memory ι) := do
  if (memory prime).bal = 2 then
    check (memory prime).right.isSome
    let x ← deref (memory prime).right
    check ((memory x).bal = 0 ∨ (memory x).bal = 1)
    let memory := memory.setRight prime (memory x).left
    let memory := memory.setParentOf (memory x).left (some prime)
    let memory := memory.setLeft x (some prime)
    let memory := memory.setParent prime (some x)
    let memory := memory.setBal prime (1 - (memory x).bal)
    let memory := memory.setBal x ((memory x).bal - 1)
    pure (x, memory)
  else
    check ((memory prime).bal = -2)
    check (memory prime).left.isSome
    let x ← deref (memory prime).left
    check ((memory x).bal = 0 ∨ (memory x).bal = -1)
    let memory := memory.setLeft prime (memory x).right
    let memory := memory.setParentOf (memory x).right (some prime)
    let memory := memory.setRight x (some prime)
    let memory := memory.setParent prime (some x)
    let memory := memory.setBal prime (-1 - (memory x).bal)
    let memory := memory.setBal x ((memory x).bal + 1)
    pure (x, memory)

/-- The value of `!value` in C. -/
def logicalNot (value : Int) : Int :=
  if value = 0 then 1 else 0

/-- `dfk__avltree_double_rot` -/
def doubleRot (memory : Memory ι) (prime : ι) :
    Except Fault (ι × Memory ι) := do
  if (memory prime).bal = 2 then
    let b ← deref (memory prime).right
    let x ← deref (memory b).left
    let memory := memory.setRight prime (memory x).left
    let memory := memory.setParentOf (memory x).left (some prime)
    let memory := memory.setLeft x (some prime)
    let memory := memory.setParent prime (some x)
    let memory := memory.setLeft b (memory x).right
    let memory := memory.setParentOf (memory x).right (some b)
    let memory := memory.setRight x (some b)
    let memory := memory.setParent b (some x)
    let memory := memory.setBal b (logicalNot ((memory x).bal + 1))
    let memory := memory.setBal prime (0 - logicalNot ((memory x).bal - 1))
    let memory := memory.setBal x 0
    pure (x, memory)
  else
    let b ← deref (memory prime).left
    let x ← deref (memory b).right
    let memory := memory.setLeft prime (memory x).right
    let memory := memory.setParentOf (memory x).right (some prime)
    let memory := memory.setRight x (some prime)
    let memory := memory.setParent prime (some x)
    let memory := memory.setRight b (memory x).left
    let memory := memory.setParentOf (memory x).left (some b)
    let memory := memory.setLeft x (some b)
    let memory := memory.setParent b (some x)
    let memory := memory.setBal b (0 - logicalNot ((memory x).bal - 1))
    let memory := memory.setBal prime (logicalNot ((memory x).bal + 1))
    let memory := memory.setBal x 0
    pure (x, memory)

/-- `dfk__avltree_promote_prime` -/
def promotePrime
    (primeParentDir : Int)
    (prime : ι)
    (primeParent : Option ι)
    (tree : Tree ι)
    (memory : Memory ι) : Except Fault (Tree ι × Memory ι) := do
  if primeParentDir = 0 then
    pure ({ tree with root := some prime }, memory.setParent prime none)
  else if primeParentDir = 1 then
    let parent ← deref primeParent
    let memory := memory.setRight parent (some prime)
    pure (tree, memory.setParent prime primeParent)
  else
    check (primeParentDir = -1)
    let parent ← deref primeParent
    let memory := memory.setLeft parent (some prime)
    pure (tree, memory.setParent prime primeParent)

/-- The variables of `dfk_avltree_insert` that its descent keeps track of. -/
structure Prime (ι : Type) where
  prime : ι
  primeParent : Option ι
  primeParentDir : Int

/--
The first loop of `dfk_avltree_insert`, from node `i`; `none` is the early
return of an element that is already there.
-/
def insertDescend (cmp : ι → ι → Int) (e : ι) :
    Nat → Memory ι → ι → Prime ι →
      Except Fault (Option (Prime ι × Memory ι))
  | 0, _, _, _ => .error .outOfFuel
  | fuel + 1, memory, i, lowest =>
      if cmp i e < 0 then
        match (memory i).left with
        | some left =>
            insertDescend cmp e fuel memory left
              (if (memory left).bal ≠ 0 then ⟨left, some i, -1⟩ else lowest)
        | none =>
            .ok (some (lowest,
              (memory.setLeft i (some e)).setParent e (some i)))
      else if 0 < cmp i e then
        match (memory i).right with
        | some right =>
            insertDescend cmp e fuel memory right
              (if (memory right).bal ≠ 0 then ⟨right, some i, 1⟩ else lowest)
        | none =>
            .ok (some (lowest,
              (memory.setRight i (some e)).setParent e (some i)))
      else .ok none

/-- The second loop of `dfk_avltree_insert`, from pointer `i`. -/
def insertAdjust (cmp : ι → ι → Int) (e : ι) :
    Nat → Memory ι → Option ι → Except Fault (Memory ι)
  | 0, _, _ => .error .outOfFuel
  | fuel + 1, memory, pointer => do
      if pointer = some e then
        pure memory
      else
        let i ← deref pointer
        if cmp i e < 0 then
          let memory := memory.setBal i ((memory i).bal - 1)
          insertAdjust cmp e fuel memory (memory i).left
        else
          check (0 < cmp i e)
          let memory := memory.setBal i ((memory i).bal + 1)
          insertAdjust cmp e fuel memory (memory i).right

/-- Choice and execution of the rotation at the end of `dfk_avltree_insert`. -/
def insertRotate (memory : Memory ι) (prime : ι) :
    Except Fault (Option (ι × Memory ι)) := do
  if (memory prime).bal = 2 then
    let right ← deref (memory prime).right
    if (memory right).bal = -1 then
      return some (← doubleRot memory prime)
    else
      check ((memory right).bal = 1)
      return some (← singleRot memory prime)
  else if (memory prime).bal = -2 then
    let left ← deref (memory prime).left
    if (memory left).bal = 1 then
      return some (← doubleRot memory prime)
    else
      check ((memory left).bal = -1)
      return some (← singleRot memory prime)
  else
    return none

/-- `if (new_prime) { dfk__avltree_promote_prime(...); }` -/
def insertPromote
    (lowest : Prime ι) (tree : Tree ι) (memory : Memory ι) :
    Option (ι × Memory ι) → Except Fault (Tree ι × Memory ι)
  | some (newPrime, rotated) =>
      promotePrime lowest.primeParentDir newPrime lowest.primeParent
        tree rotated
  | none => pure (tree, memory)

/-- `dfk_avltree_insert`; the first component is the returned pointer. -/
def insert (fuel : Nat) (memory : Memory ι) (tree : Tree ι) (e : ι) :
    Except Fault (Option ι × Tree ι × Memory ι) := do
  checkInvariants fuel memory tree
  check ((memory e).left = none)
  check ((memory e).right = none)
  check ((memory e).parent = none)
  check ((memory e).bal = 0)
  match tree.root with
  | none =>
      pure (some e,
        { tree with root := some e, size := tree.size.map fun _ => 1 },
        memory)
  | some root =>
      match ← insertDescend tree.cmp e fuel memory root ⟨root, none, 0⟩ with
      | none => pure (none, tree, memory)
      | some (lowest, memory) =>
          let memory ←
            insertAdjust tree.cmp e fuel memory (some lowest.prime)
          let (tree, memory) ←
            insertPromote lowest tree memory
              (← insertRotate memory lowest.prime)
          let tree := { tree with size := tree.size.map (· + 1) }
          checkInvariants fuel memory tree
          pure (some e, tree, memory)

/-- `parent ? (parent->_left == child ? -1 : 1) : 0` -/
def direction (memory : Memory ι) (parent : Option ι) (child : ι) : Int :=
  match parent with
  | some parent => if (memory parent).left = some child then -1 else 1
  | none => 0

/-- `while (i->_left->_left) i = i->_left;` -/
def eraseDescend : Nat → Memory ι → ι → Except Fault ι
  | 0, _, _ => .error .outOfFuel
  | fuel + 1, memory, i => do
      let left ← deref (memory i).left
      match (memory left).left with
      | some _ => eraseDescend fuel memory left
      | none => pure i

/-- What the first half of `dfk_avltree_erase` leaves in its variables. -/
structure Detached (ι : Type) where
  newe : Option ι
  prime : Option ι
  eraseDirection : Int
  memory : Memory ι

/-- The three replacement shapes of `dfk_avltree_erase`. -/
def eraseDetach (fuel : Nat) (memory : Memory ι) (e : ι) :
    Except Fault (Detached ι) := do
  match (memory e).right with
  | none =>
      pure {
        newe := (memory e).left
        prime := (memory e).parent
        eraseDirection := direction memory (memory e).parent e
        memory := memory
      }
  | some r =>
      if (memory r).left = none then
        let a := (memory e).left
        let memory := memory.setLeft r a
        let memory := memory.setParentOf a (some r)
        let memory := memory.setBal r (memory e).bal
        pure {
          newe := some r
          prime := some r
          eraseDirection := 1
          memory := memory
        }
      else
        let a := (memory e).left
        check (memory r).left.isSome
        let x ← eraseDescend fuel memory r
        let y ← deref (memory x).left
        check ((memory y).left = none)
        let z := (memory y).right
        let memory := memory.setLeft y (memory e).left
        let memory := memory.setRight y (memory e).right
        let memory := memory.setBal y (memory e).bal
        let memory := memory.setParent r (some y)
        let a ← deref a
        let memory := memory.setParent a (some y)
        let memory := memory.setLeft x z
        let memory := memory.setParentOf z (some x)
        pure {
          newe := some y
          prime := some x
          eraseDirection := -1
          memory := memory
        }

/-- Hang the replacement of `e` where `e` was. -/
def eraseReplace
    (memory : Memory ι) (tree : Tree ι) (e : ι) (newe : Option ι) :
    Tree ι × Memory ι :=
  let (tree, memory) :=
    match (memory e).parent with
    | some parent =>
        if (memory parent).left = some e then
          (tree, memory.setLeft parent newe)
        else
          (tree, memory.setRight parent newe)
    | none => ({ tree with root := newe }, memory)
  (tree, memory.setParentOf newe (memory e).parent)

/--
One iteration of the upward loop of `dfk_avltree_erase` up to its last two
assignments; the first component is the node to go up from, or `none` after a
`break`.
-/
def eraseStep
    (memory : Memory ι) (tree : Tree ι) (prime : ι) (eraseDirection : Int) :
    Except Fault (Option ι × Tree ι × Memory ι) := do
  if eraseDirection = -1 then
    let memory := memory.setBal prime ((memory prime).bal + 1)
    if (memory prime).bal = 1 then
      pure (none, tree, memory)
    else if (memory prime).bal = 2 then
      let parent := (memory prime).parent
      let dir := direction memory parent prime
      let right ← deref (memory prime).right
      let rightbal := (memory right).bal
      let (newPrime, memory) ←
        (if rightbal = -1 then doubleRot memory prime
          else singleRot memory prime)
      let (tree, memory) ← promotePrime dir newPrime parent tree memory
      pure (if rightbal = 0 then none else some newPrime, tree, memory)
    else
      pure (some prime, tree, memory)
  else
    check (eraseDirection = 1)
    let memory := memory.setBal prime ((memory prime).bal - 1)
    if (memory prime).bal = -1 then
      pure (none, tree, memory)
    else if (memory prime).bal = -2 then
      let parent := (memory prime).parent
      let dir := direction memory parent prime
      let left ← deref (memory prime).left
      let leftbal := (memory left).bal
      let (newPrime, memory) ←
        (if leftbal = 1 then doubleRot memory prime
          else singleRot memory prime)
      let (tree, memory) ← promotePrime dir newPrime parent tree memory
      pure (if leftbal = 0 then none else some newPrime, tree, memory)
    else
      pure (some prime, tree, memory)

/-- The upward loop of `dfk_avltree_erase`. -/
def eraseRebalance :
    Nat → Memory ι → Tree ι → Option ι → Int →
      Except Fault (Tree ι × Memory ι)
  | 0, _, _, _, _ => .error .outOfFuel
  | _ + 1, memory, tree, none, _ => .ok (tree, memory)
  | fuel + 1, memory, tree, some prime, eraseDirection => do
      match ← eraseStep memory tree prime eraseDirection with
      | (none, tree, memory) => pure (tree, memory)
      | (some prime, tree, memory) =>
          eraseRebalance fuel memory tree (memory prime).parent
            (direction memory (memory prime).parent prime)

/-- `dfk_avltree_erase` -/
def erase
    (debug : Bool) (fuel : Nat)
    (memory : Memory ι) (tree : Tree ι) (e : ι) :
    Except Fault (Tree ι × Memory ι) := do
  checkInvariants fuel memory tree
  check (tree.size ≠ some 0)
  check (debug = false ∨ (memory e).tree = some tree.self)
  let detached ← eraseDetach fuel memory e
  let (tree, memory) := eraseReplace detached.memory tree e detached.newe
  let (tree, memory) ←
    eraseRebalance fuel memory tree detached.prime detached.eraseDirection
  let tree := { tree with size := tree.size.map (· - 1) }
  let memory := if debug then memory.setTree e none else memory
  checkInvariants fuel memory tree
  pure (tree, memory)

/-- The loop of `dfk_avltree_find`. -/
def findFrom (cmp : ι → Int) :
    Nat → Memory ι → Option ι → Except Fault (Option ι)
  | 0, _, _ => .error .outOfFuel
  | _ + 1, _, none => .ok none
  | fuel + 1, memory, some i =>
      if cmp i < 0 then findFrom cmp fuel memory (memory i).left
      else if 0 < cmp i then findFrom cmp fuel memory (memory i).right
      else .ok (some i)

/-- `dfk_avltree_find`, the comparison already applied to the sought value. -/
def find
    (fuel : Nat) (memory : Memory ι) (tree : Tree ι) (cmp : ι → Int) :
    Except Fault (Option ι) := do
  checkInvariants fuel memory tree
  findFrom cmp fuel memory tree.root

/-- `while (i->_left) i = i->_left;` -/
def leftmost : Nat → Memory ι → ι → Except Fault ι
  | 0, _, _ => .error .outOfFuel
  | fuel + 1, memory, i =>
      match (memory i).left with
      | some left => leftmost fuel memory left
      | none => .ok i

/-- `dfk_avltree_begin`; an iterator is the hook it stands on. -/
def begin (fuel : Nat) (memory : Memory ι) (tree : Tree ι) :
    Except Fault (Option ι) := do
  checkInvariants fuel memory tree
  match tree.root with
  | some root => some <$> leftmost fuel memory root
  | none => pure none

/-- The upward loop and the final step of `dfk_avltree_it_next`. -/
def climb : Nat → Memory ι → ι → Except Fault (Option ι)
  | 0, _, _ => .error .outOfFuel
  | fuel + 1, memory, value =>
      match (memory value).parent with
      | some parent =>
          if (memory parent).right = some value then
            climb fuel memory parent
          else .ok (some parent)
      | none => .ok none

/-- `dfk_avltree_it_next` -/
def itNext (fuel : Nat) (memory : Memory ι) (it : Option ι) :
    Except Fault (Option ι) := do
  check it.isSome
  let value ← deref it
  match (memory value).right with
  | some right => some <$> leftmost fuel memory right
  | none => climb fuel memory value

/-- The counting loop of `dfk_avltree_size`. -/
def sizeFrom :
    Nat → Memory ι → Option ι → Nat → Except Fault Nat
  | 0, _, _, _ => .error .outOfFuel
  | fuel + 1, memory, it, size =>
      match it with
      | none => .ok size
      | some _ => do
          let next ← itNext fuel memory it
          sizeFrom fuel memory next (size + 1)

/-- `dfk_avltree_size` -/
def size (fuel : Nat) (memory : Memory ι) (tree : Tree ι) :
    Except Fault Nat := do
  checkInvariants fuel memory tree
  match tree.size with
  | some size => pure size
  | none =>
      let it ← begin fuel memory tree
      sizeFrom fuel memory it 0

end Dfk.AvlTree
