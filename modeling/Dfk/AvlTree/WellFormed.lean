import Dfk.AvlTree.Placement

/-!
# Well-formed trees

The invariant of `dfk_avltree_t`, the assertions that check part of it, and
the search that relies on it.
-/

namespace Dfk.AvlTree

open AvlShape AvlShape.Shape

variable {ι : Type}

/--
`tree` is well formed and its hooks form `shape`: ordered by the comparison of
the tree, linked back to their parents, with balances that are height
differences within one of zero, and counted by the size when it is kept.
-/
structure WellFormed
    (memory : Memory ι)
    (tree : Tree ι)
    (shape : Shape ι) : Prop where
  represents : Represents memory tree.root none shape
  ordered : Ordered tree.cmp shape
  balanced : shape.Balanced
  counted : ∀ {size}, tree.size = some size → size = shape.inorder.length

/-- An initialised tree is well formed and empty. -/
theorem wellFormed_init
    (memory : Memory ι) (self : Nat) (constantTimeSize : Bool)
    (cmp : ι → ι → Int) :
    WellFormed memory (init self constantTimeSize cmp) leaf where
  represents := rfl
  ordered := trivial
  balanced := trivial
  counted := by
    intro size kept
    cases constantTimeSize <;> simp_all [init]

/-- The hooks of a well-formed tree are distinct. -/
theorem WellFormed.noDuplicates
    {κ : Type} [LinearOrder κ] {key : ι → κ} {domain : ι → Prop}
    {memory : Memory ι} {tree : Tree ι} {shape : Shape ι}
    (wellFormed : WellFormed memory tree shape)
    (threeWay : ThreeWayOn tree.cmp key domain)
    (included : ∀ hook ∈ shape.inorder, domain hook) :
    shape.inorder.Nodup :=
  ((threeWay.ordered_iff_sorted included).mp wellFormed.ordered).imp
    fun less same => less.ne (congrArg key same)

/-- The search loop follows the represented shape. -/
theorem findFrom_eq
    {memory : Memory ι} {pointer parent : Option ι} {shape : Shape ι}
    {fuel : Nat} (cmp : ι → Int)
    (represents : Represents memory pointer parent shape)
    (enough : shape.height < fuel) :
    findFrom cmp fuel memory pointer = .ok (AvlShape.find cmp shape) := by
  induction fuel generalizing pointer parent shape with
  | zero =>
      simp at enough
  | succ fuel inductionHypothesis =>
      cases pointer with
      | none =>
          simp [findFrom, represents.of_none, AvlShape.find]
      | some hook =>
          obtain ⟨left, right, rfl, -, leftRep, rightRep⟩ :=
            represents.of_some
          simp only [height_node] at enough
          simp only [findFrom, AvlShape.find]
          split_ifs
          · exact inductionHypothesis leftRep (by omega)
          · exact inductionHypothesis rightRep (by omega)
          · rfl

variable [DecidableEq ι]

/-- The recursive invariant check passes on a balanced tree. -/
theorem checkInvariantsNode_eq
    {memory : Memory ι} {hook : ι} {parent : Option ι} {shape : Shape ι}
    {fuel : Nat}
    (represents : Represents memory (some hook) parent shape)
    (balanced : shape.Balanced)
    (enough : shape.height ≤ fuel) :
    checkInvariantsNode fuel memory hook = .ok shape.height := by
  induction fuel generalizing hook parent shape with
  | zero =>
      obtain ⟨left, right, rfl, -⟩ := represents.of_some
      simp at enough
  | succ fuel inductionHypothesis =>
      obtain ⟨left, right, rfl, -, leftRep, rightRep⟩ :=
        represents.of_some
      obtain ⟨balanceEq, low, high, leftBalanced, rightBalanced⟩ :=
        balanced
      simp only [height_node] at enough
      have childHeight : ∀ {pointer child},
          Represents memory pointer (some hook) child →
          child.Balanced → child.height ≤ fuel →
            checkInvariantsChild (checkInvariantsNode fuel memory)
              memory hook pointer = .ok child.height := by
        intro pointer child childRep childBalanced childEnough
        cases pointer with
        | none =>
            simp [checkInvariantsChild, childRep.of_none]
        | some other =>
            obtain ⟨_, _, -, parentEq, -⟩ := childRep.of_some
            simp only [checkInvariantsChild, parentEq, check_pos, ok_bind]
            exact inductionHypothesis childRep childBalanced childEnough
      have within :
          ((left.height : Int) - right.height).natAbs ≤ 1 := by omega
      simp only [checkInvariantsNode]
      rw [childHeight leftRep leftBalanced (by omega), ok_bind,
        childHeight rightRep rightBalanced (by omega), ok_bind,
        check_pos within, ok_bind, check_pos balanceEq, ok_bind,
        pure_eq_ok, height_node, Nat.add_comm]

/-- `DFK_AVLTREE_CHECK_INVARIANTS` passes on a balanced tree. -/
theorem checkInvariants_eq
    {memory : Memory ι} {tree : Tree ι} {shape : Shape ι} {fuel : Nat}
    (represents : Represents memory tree.root none shape)
    (balanced : shape.Balanced)
    (enough : shape.height ≤ fuel) :
    checkInvariants fuel memory tree = .ok () := by
  cases atRoot : tree.root with
  | none =>
      simp [checkInvariants, atRoot]
  | some root =>
      rw [atRoot] at represents
      obtain ⟨_, _, -, parentEq, -⟩ := represents.of_some
      simp [checkInvariants, atRoot, parentEq,
        checkInvariantsNode_eq represents balanced enough]

/-- `dfk_avltree_find` follows the represented shape. -/
theorem find_eq
    {memory : Memory ι} {tree : Tree ι} {shape : Shape ι} {fuel : Nat}
    (cmp : ι → Int)
    (represents : Represents memory tree.root none shape)
    (balanced : shape.Balanced)
    (enough : shape.height < fuel) :
    find fuel memory tree cmp = .ok (AvlShape.find cmp shape) := by
  rw [find, checkInvariants_eq represents balanced (by omega), ok_bind,
    findFrom_eq cmp represents enough]

/-!
## A small tree
-/

/-- Four hooks forming a tree that leans to the right. -/
def leaningMemory : Memory Nat
  | 1 => ⟨none, none, some 2, 0, none⟩
  | 2 => ⟨some 1, some 3, none, 1, none⟩
  | 3 => ⟨none, some 4, some 2, 1, none⟩
  | 4 => ⟨none, none, some 3, 0, none⟩
  | _ => ⟨none, none, none, 0, none⟩

/-- The tree of these hooks, ordered by their addresses. -/
def leaningTree : Tree Nat where
  self := 0
  root := some 2
  cmp stored other := (other : Int) - stored
  size := some 4

/-- The shape of `leaningTree`. -/
def leaningShape : Shape Nat :=
  node (node leaf 1 0 leaf) 2 1 (node leaf 3 1 (node leaf 4 0 leaf))

/-- Subtraction compares addresses. -/
theorem leaning_threeWay :
    ThreeWayOn leaningTree.cmp (fun hook => hook) fun _ => True where
  neg_iff _ _ := by
    simp only [leaningTree]
    omega
  pos_iff _ _ := by
    simp only [leaningTree]
    omega

/-- The small tree is well formed. -/
theorem leaning_wellFormed :
    WellFormed leaningMemory leaningTree leaningShape where
  represents := by
    simp [Represents, leaningShape, leaningTree, leaningMemory]
  ordered := by
    simp [Ordered, leaningShape, leaningTree]
  balanced := by
    simp [leaningShape]
  counted kept := by
    simpa [leaningTree, leaningShape] using kept.symm

end Dfk.AvlTree
