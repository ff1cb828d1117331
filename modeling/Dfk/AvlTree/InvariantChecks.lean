import Dfk.Library.TwoPointers
import Dfk.AvlTree.WellFormed

/-!
# What the assertions on a tree notice

`dfk__avltree_check_invariants` runs on any contents of the memory.  It comes
to a verdict, as parent pointers that lead back keep its recursion from going
around.  It passes exactly on balanced trees, except that one hook may stand on
both sides of its parent.
-/

namespace Dfk.AvlTree

open AvlShape AvlShape.Shape TwoPointers

variable {ι : Type}

/-- `hook->_parent` -/
def up (memory : Memory ι) (hook : ι) : Option ι := (memory hook).parent

/-- From each hook of a tree the parent pointers lead to its root. -/
theorem Represents.climbs
    {memory : Memory ι} {shape : Shape ι} :
    ∀ {top : ι} {parent : Option ι},
      Represents memory (some top) parent shape →
        ∀ hook ∈ shape.inorder,
          ∃ levels, walk (up memory) (some hook) levels = some top := by
  induction shape with
  | leaf =>
      intro top parent represents
      cases represents
  | node left label balance right leftHypothesis rightHypothesis =>
      intro top parent represents hook member
      obtain ⟨same, -, -, isLeft, isRight⟩ := represents
      cases same
      have above
          {pointer : Option ι} {child : Shape ι}
          (represents : Represents memory pointer (some label) child)
          (climbs :
            ∀ {other : ι},
              Represents memory (some other) (some label) child →
                ∃ levels, walk (up memory) (some hook) levels = some other)
          (member : hook ∈ child.inorder) :
          ∃ levels, walk (up memory) (some hook) levels = some label := by
        cases pointer with
        | none =>
            rw [represents.of_none] at member
            cases member
        | some other =>
            obtain ⟨levels, climbed⟩ := climbs represents
            obtain ⟨_, _, -, isParent, -⟩ := represents.of_some
            refine ⟨levels + 1, ?_⟩
            rw [walk_succ, climbed]
            exact isParent
      rw [inorder_node] at member
      rcases List.mem_append.mp member with inLeft | atRootOrRight
      · exact above isLeft (fun isChild => leftHypothesis isChild hook inLeft)
          inLeft
      · rcases List.mem_cons.mp atRootOrRight with rfl | inRight
        · exact ⟨0, rfl⟩
        · exact above isRight
            (fun isChild => rightHypothesis isChild hook inRight) inRight

/-- The memory determines the tree below a pointer. -/
theorem Represents.unique
    {memory : Memory ι} {shape : Shape ι} :
    ∀ {pointer parent : Option ι} {other : Shape ι},
      Represents memory pointer parent shape →
        Represents memory pointer parent other → shape = other := by
  induction shape with
  | leaf =>
      intro pointer parent other represents representsToo
      rw [Represents] at represents
      rw [represents] at representsToo
      exact representsToo.of_none.symm
  | node left label balance right leftHypothesis rightHypothesis =>
      intro pointer parent other represents representsToo
      obtain ⟨rfl, -, isBalance, isLeft, isRight⟩ := represents
      obtain ⟨leftToo, rightToo, rfl, -, isLeftToo, isRightToo⟩ :=
        representsToo.of_some
      rw [leftHypothesis isLeft isLeftToo, rightHypothesis isRight isRightToo,
        isBalance]

/-- Both children of a hook are the same hook. -/
def Twins (memory : Memory ι) (hook : ι) : Prop :=
  (memory hook).left = (memory hook).right ∧ (memory hook).left ≠ none

/-- Different children of a hook have no hooks below them in common. -/
theorem disjoint_of_ne
    {memory : Memory ι} {above left right : ι} {leftShape rightShape : Shape ι}
    {height : Nat}
    (isLeft : Represents memory (some left) (some above) leftShape)
    (isRight : Represents memory (some right) (some above) rightShape)
    (ends : walk (up memory) (some above) height = none)
    (apart : left ≠ right) :
    List.Disjoint leftShape.inorder rightShape.inorder := by
  have parents :
      up memory left = some above ∧ up memory right = some above := by
    obtain ⟨_, _, -, leftParent, -⟩ := isLeft.of_some
    obtain ⟨_, _, -, rightParent, -⟩ := isRight.of_some
    exact ⟨leftParent, rightParent⟩
  -- where one child is above the other, the parent is above itself
  have notBelow
      {lower upper hook : ι} {levels more : Nat}
      (isLower : up memory lower = some above)
      (isUpper : up memory upper = some above)
      (climbsLower : walk (up memory) (some hook) levels = some lower)
      (climbsUpper : walk (up memory) (some hook) (levels + more) = some upper)
      (positive : 0 < more) :
      False := by
    obtain ⟨more, rfl⟩ := Nat.exists_eq_add_of_lt positive
    rw [Nat.zero_add] at climbsUpper
    rw [walk_add, climbsLower, Nat.add_comm more 1, walk_add, walk_succ,
      walk_zero, Option.bind_some, isLower] at climbsUpper
    have returns :
        walk (up memory) (some above) (more + 1) = some above := by
      rw [walk_succ, climbsUpper, Option.bind_some, isUpper]
    exact ne_start_of_ends ends (Nat.succ_pos more) returns
  intro hook inLeft inRight
  obtain ⟨leftLevels, climbsLeft⟩ := isLeft.climbs hook inLeft
  obtain ⟨rightLevels, climbsRight⟩ := isRight.climbs hook inRight
  rcases Nat.lt_trichotomy leftLevels rightLevels with lower | same | upper
  · obtain ⟨more, rfl⟩ := Nat.exists_eq_add_of_le (Nat.le_of_lt lower)
    exact notBelow parents.1 parents.2 climbsLeft climbsRight (by omega)
  · rw [same, climbsRight] at climbsLeft
    exact apart (Option.some.inj climbsLeft).symm
  · obtain ⟨more, rfl⟩ := Nat.exists_eq_add_of_le (Nat.le_of_lt upper)
    exact notBelow parents.2 parents.1 climbsRight climbsLeft (by omega)

/-- A hook is not among the hooks below it. -/
theorem not_mem_of_child
    {memory : Memory ι} {above : ι} {pointer : Option ι} {shape : Shape ι}
    {height : Nat}
    (represents : Represents memory pointer (some above) shape)
    (ends : walk (up memory) (some above) height = none) :
    above ∉ shape.inorder := by
  intro member
  cases pointer with
  | none =>
      rw [represents.of_none] at member
      cases member
  | some child =>
      obtain ⟨levels, climbs⟩ := represents.climbs above member
      obtain ⟨_, _, -, isParent, -⟩ := represents.of_some
      have returns :
          walk (up memory) (some above) (levels + 1) = some above := by
        rw [walk_succ, climbs]
        exact isParent
      exact ne_start_of_ends ends (Nat.succ_pos levels) returns

/-- The hooks of a tree are distinct exactly if it has no twins. -/
theorem nodup_iff_no_twins
    {memory : Memory ι} {shape : Shape ι} :
    ∀ {pointer parent : Option ι} {height : Nat},
      Represents memory pointer parent shape →
        walk (up memory) parent height = none →
          (shape.inorder.Nodup ↔
            ∀ hook ∈ shape.inorder, ¬ Twins memory hook) := by
  induction shape with
  | leaf =>
      intro pointer parent height _ _
      simp
  | node left label balance right leftHypothesis rightHypothesis =>
      intro pointer parent height represents ends
      obtain ⟨rfl, isParent, -, isLeft, isRight⟩ := represents
      have endsHere : walk (up memory) (some label) (height + 1) = none := by
        rw [Nat.add_comm, walk_add, walk_succ, walk_zero, Option.bind_some]
        rw [up, isParent, ends]
      have leftIff := leftHypothesis isLeft endsHere
      have rightIff := rightHypothesis isRight endsHere
      have noLeft := not_mem_of_child isLeft endsHere
      have noRight := not_mem_of_child isRight endsHere
      have sides :
          List.Disjoint left.inorder right.inorder ↔
            ¬ Twins memory label := by
        refine ⟨?_, ?_⟩
        · intro disjoint given
          obtain ⟨same, present⟩ := given
          obtain ⟨child, isChild⟩ := Option.ne_none_iff_exists'.mp present
          rw [same] at isChild
          rw [same, isChild] at isLeft
          rw [isChild] at isRight
          exact disjoint (mem_inorder_of_root isLeft.pointer_eq.symm)
            (mem_inorder_of_root isRight.pointer_eq.symm)
        · intro noTwins
          cases leftPointer : (memory label).left with
          | none =>
              rw [leftPointer] at isLeft
              rw [isLeft.of_none]
              exact List.disjoint_nil_left _
          | some leftChild =>
              cases rightPointer : (memory label).right with
              | none =>
                  rw [rightPointer] at isRight
                  rw [isRight.of_none]
                  exact List.disjoint_nil_right _
              | some rightChild =>
                  rw [leftPointer] at isLeft
                  rw [rightPointer] at isRight
                  apply disjoint_of_ne isLeft isRight endsHere
                  intro same
                  apply noTwins
                  rw [Twins, leftPointer, rightPointer, same]
                  exact ⟨rfl, nofun⟩
      rw [inorder_node, List.nodup_append', List.nodup_cons, leftIff, rightIff,
        List.disjoint_cons_right, sides, List.forall_mem_append,
        List.forall_mem_cons]
      tauto

/-!
## The verdict
-/

section Verdict

variable [DecidableEq ι] {memory : Memory ι} {fuel : Nat}

/-- A hook and what is below it form a balanced tree. -/
def IsBalanced (memory : Memory ι) (pointer parent : Option ι)
    (shape : Shape ι) : Prop :=
  Represents memory pointer parent shape ∧ shape.Balanced

/-- What the check of a subtree says about it. -/
def Judges (memory : Memory ι) (pointer parent : Option ι)
    (result : Except Fault Nat) : Prop :=
  (∃ shape,
      IsBalanced memory pointer parent shape ∧ result = .ok shape.height) ∨
    (∀ shape, ¬ IsBalanced memory pointer parent shape) ∧
      result = .error .assertion

/-- A child is checked with its parent pointer. -/
theorem judges_child
    {checkNode : ι → Except Fault Nat} {hook : ι}
    (pointer : Option ι)
    (judges :
      ∀ child ∈ pointer,
        (memory child).parent = some hook →
          Judges memory (some child) (some hook) (checkNode child)) :
    Judges memory pointer (some hook)
      (checkInvariantsChild checkNode memory hook pointer) := by
  cases pointer with
  | none =>
      exact Or.inl ⟨leaf, ⟨rfl, trivial⟩, rfl⟩
  | some child =>
      rw [checkInvariantsChild]
      by_cases isParent : (memory child).parent = some hook
      · rw [check_pos isParent, ok_bind]
        exact judges child rfl isParent
      · rw [check_neg isParent, error_bind]
        refine Or.inr ⟨?_, rfl⟩
        intro shape balanced
        obtain ⟨_, _, -, sameParent, -⟩ := balanced.1.of_some
        exact isParent sameParent

/-- The recursion ends, as its way down leads back up. -/
theorem judges_node
    [Fintype ι] (fuel : Nat) :
    ∀ {hook : ι} {above : List ι},
      (∀ index : Nat,
          (hook :: above)[index]?.bind (up memory) =
            (hook :: above)[index + 1]?) →
        Fintype.card ι ≤ fuel + above.length →
          Judges memory (some hook) (memory hook).parent
            (checkInvariantsNode fuel memory hook) := by
  induction fuel with
  | zero =>
      intro hook above leads enough
      have few := (nodup_of_follows leads).length_le_card
      rw [List.length_cons] at few
      omega
  | succ fuel inductionHypothesis =>
      intro hook above leads enough
      have below (pointer : Option ι) :
          Judges memory pointer (some hook)
            (checkInvariantsChild (checkInvariantsNode fuel memory) memory
              hook pointer) := by
        apply judges_child
        intro child _ isParent
        rw [← isParent]
        apply @inductionHypothesis child (hook :: above)
        · intro index
          cases index with
          | zero =>
              exact isParent
          | succ index =>
              exact leads index
        · rw [List.length_cons]
          omega
      rw [checkInvariantsNode]
      rcases below (memory hook).left with
        ⟨left, ⟨isLeft, leftBalanced⟩, checked⟩ | ⟨never, failed⟩
      · rw [checked, ok_bind]
        rcases below (memory hook).right with
          ⟨right, ⟨isRight, rightBalanced⟩, checked⟩ | ⟨never, failed⟩
        · rw [checked, ok_bind]
          have represents :
              Represents memory (some hook) (memory hook).parent
                (node left hook (memory hook).bal right) :=
            ⟨rfl, rfl, rfl, isLeft, isRight⟩
          have only
              {shape : Shape ι}
              (isBalanced :
                IsBalanced memory (some hook) (memory hook).parent shape) :
              (node left hook (memory hook).bal right).Balanced := by
            rw [represents.unique isBalanced.1]
            exact isBalanced.2
          by_cases within : ((left.height : Int) - right.height).natAbs ≤ 1
          · rw [check_pos within, ok_bind]
            by_cases isBalance :
                (memory hook).bal = (right.height : Int) - left.height
            · rw [check_pos isBalance, ok_bind]
              refine Or.inl ⟨_, ⟨represents, isBalance, ?_, ?_, leftBalanced,
                rightBalanced⟩, ?_⟩
              · omega
              · omega
              · rw [height_node, Nat.add_comm]
                rfl
            · rw [check_neg isBalance, error_bind]
              exact Or.inr ⟨fun shape isBalanced =>
                isBalance (only isBalanced).1, rfl⟩
          · rw [check_neg within, error_bind]
            refine Or.inr ⟨fun shape isBalanced => within ?_, rfl⟩
            obtain ⟨same, low, high, -⟩ := only isBalanced
            omega
        · rw [failed, error_bind]
          refine Or.inr ⟨?_, rfl⟩
          intro shape given
          obtain ⟨represents, balanced⟩ := given
          obtain ⟨_, right, rfl, -, -, isRight⟩ := represents.of_some
          exact never right ⟨isRight, balanced.2.2.2.2⟩
      · rw [failed, error_bind]
        refine Or.inr ⟨?_, rfl⟩
        intro shape given
        obtain ⟨represents, balanced⟩ := given
        obtain ⟨left, _, rfl, -, isLeft, -⟩ := represents.of_some
        exact never left ⟨isLeft, balanced.2.2.2.1⟩

/--
The assertions on a tree always come to a verdict.  They pass exactly on a
balanced tree, whose hooks are distinct if and only if it has no twins.
-/
theorem tree_verdict_on_any_memory
    [Fintype ι]
    (memory : Memory ι) (tree : Tree ι)
    (enough : Fintype.card ι ≤ fuel) :
    (∃ shape,
        Represents memory tree.root none shape ∧ shape.Balanced ∧
          (shape.inorder.Nodup ↔
            ∀ hook ∈ shape.inorder, ¬ Twins memory hook) ∧
          checkInvariants fuel memory tree = .ok ()) ∨
      (¬ ∃ shape,
          Represents memory tree.root none shape ∧ shape.Balanced) ∧
        checkInvariants fuel memory tree = .error .assertion := by
  rw [checkInvariants]
  cases tree.root with
  | none =>
      exact Or.inl ⟨leaf, rfl, trivial, by simp, rfl⟩
  | some top =>
      dsimp only
      by_cases isRoot : (memory top).parent = none
      · rw [check_pos isRoot, ok_bind]
        have leads (index : Nat) :
            [top][index]?.bind (up memory) = [top][index + 1]? := by
          cases index with
          | zero =>
              exact isRoot
          | succ index =>
              rfl
        have judged :=
          @judges_node ι _ memory _ fuel top [] leads enough
        rw [isRoot] at judged
        rcases judged with
          ⟨shape, ⟨represents, balanced⟩, checked⟩ | ⟨never, failed⟩
        · rw [checked]
          exact Or.inl ⟨shape, represents, balanced,
            @nodup_iff_no_twins ι memory shape _ none 0 represents rfl, rfl⟩
        · rw [failed]
          exact Or.inr ⟨fun balanced => balanced.elim never,
            rfl⟩
      · rw [check_neg isRoot, error_bind]
        refine Or.inr ⟨?_, rfl⟩
        intro given
        obtain ⟨shape, represents, _⟩ := given
        obtain ⟨_, _, -, isParent, -⟩ := represents.of_some
        exact isRoot isParent

/-- A hook that stands on both sides of the root. -/
def twinMemory : Memory (Fin 2) :=
  ![⟨some 1, some 1, none, 0, none⟩, ⟨none, none, some 0, 0, none⟩]

/-- The tree with this root. -/
def twinTree : Tree (Fin 2) where
  self := 0
  root := some 0
  cmp _ _ := 0
  size := none

/-- The verdict on it. -/
theorem tree_verdict_on_any_memory_twins :
    (∃ shape,
        Represents twinMemory twinTree.root none shape ∧ shape.Balanced ∧
          (shape.inorder.Nodup ↔
            ∀ hook ∈ shape.inorder, ¬ Twins twinMemory hook) ∧
          checkInvariants 2 twinMemory twinTree = .ok ()) ∨
      (¬ ∃ shape,
          Represents twinMemory twinTree.root none shape ∧ shape.Balanced) ∧
        checkInvariants 2 twinMemory twinTree = .error .assertion :=
  tree_verdict_on_any_memory twinMemory twinTree (by decide)

example : checkInvariants 2 twinMemory twinTree = .ok () := by
  decide

end Verdict

end Dfk.AvlTree
