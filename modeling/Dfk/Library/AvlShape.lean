import Mathlib

/-!
# Height-balanced shapes

A shape is a binary tree whose nodes carry a label and a stored balance.
This module develops the mathematics of such trees: heights, the balance
condition, the in-order sequence, one-hole contexts, the rotations and the
textbook insertion.  No order on the labels is assumed here: an insertion is
steered by a function telling where to turn at each label.
-/

namespace AvlShape

variable {ι : Type}

/-- A binary tree with a label and a stored balance at every node. -/
inductive Shape (ι : Type) where
  | leaf : Shape ι
  | node : Shape ι → ι → Int → Shape ι → Shape ι
  deriving Repr, DecidableEq

namespace Shape

/-- Labels in symmetric order. -/
def inorder : Shape ι → List ι
  | leaf => []
  | node left label _ right =>
      left.inorder ++ label :: right.inorder

/-- Number of nodes on a longest downward path. -/
def height : Shape ι → Nat
  | leaf => 0
  | node left _ _ right =>
      max left.height right.height + 1

/-- Stored balance of the root; an empty tree counts as balanced. -/
def balance : Shape ι → Int
  | leaf => 0
  | node _ _ balance _ => balance

/-- Label of the root. -/
def root : Shape ι → Option ι
  | leaf => none
  | node _ label _ _ => some label

/--
Every stored balance is the height difference of the two subtrees and is
within one of zero.
-/
def Balanced : Shape ι → Prop
  | leaf => True
  | node left _ balance right =>
      balance = (right.height : Int) - left.height ∧
        -1 ≤ balance ∧ balance ≤ 1 ∧
        left.Balanced ∧ right.Balanced

/-- Relabel every node. -/
def map {κ : Type} (relabel : ι → κ) : Shape ι → Shape κ
  | leaf => leaf
  | node left label balance right =>
      node (left.map relabel) (relabel label) balance
        (right.map relabel)

@[simp] theorem inorder_leaf :
    (leaf : Shape ι).inorder = [] :=
  rfl

@[simp] theorem inorder_node
    (left : Shape ι) (label : ι) (balance : Int) (right : Shape ι) :
    (node left label balance right).inorder =
      left.inorder ++ label :: right.inorder :=
  rfl

@[simp] theorem height_leaf :
    (leaf : Shape ι).height = 0 :=
  rfl

@[simp] theorem height_node
    (left : Shape ι) (label : ι) (balance : Int) (right : Shape ι) :
    (node left label balance right).height =
      max left.height right.height + 1 :=
  rfl

@[simp] theorem balance_node
    (left : Shape ι) (label : ι) (balance : Int) (right : Shape ι) :
    (node left label balance right).balance = balance :=
  rfl

@[simp] theorem balanced_leaf :
    (leaf : Shape ι).Balanced :=
  trivial

@[simp] theorem balanced_node
    (left : Shape ι) (label : ι) (balance : Int) (right : Shape ι) :
    (node left label balance right).Balanced ↔
      balance = (right.height : Int) - left.height ∧
        -1 ≤ balance ∧ balance ≤ 1 ∧
        left.Balanced ∧ right.Balanced :=
  Iff.rfl

/-- Relabelling acts pointwise on the in-order sequence. -/
@[simp] theorem inorder_map
    {κ : Type} (relabel : ι → κ) (shape : Shape ι) :
    (shape.map relabel).inorder = shape.inorder.map relabel := by
  induction shape with
  | leaf =>
      rfl
  | node left label balance right leftHypothesis rightHypothesis =>
      simp [map, leftHypothesis, rightHypothesis]

/-- A root label is one of the labels of the tree. -/
theorem mem_inorder_of_root
    {shape : Shape ι} {label : ι}
    (atRoot : shape.root = some label) :
    label ∈ shape.inorder := by
  cases shape with
  | leaf =>
      simp [root] at atRoot
  | node left other balance right =>
      simp only [root, Option.some.injEq] at atRoot
      simp [atRoot]

/-- The height never exceeds the number of labels. -/
theorem height_le_length (shape : Shape ι) :
    shape.height ≤ shape.inorder.length := by
  induction shape with
  | leaf =>
      simp
  | node left label balance right leftHypothesis rightHypothesis =>
      simp only [height_node, inorder_node, List.length_append,
        List.length_cons]
      omega

end Shape

open Shape

/-!
## Rotations
-/

/--
Restore the balance of a node whose right subtree is too high (stored balance
`2`) or whose left subtree is too high (stored balance `-2`).  A subtree
leaning the other way is rotated twice, any other one once.
-/
def settle : Shape ι → Shape ι
  | node a prime 2 (node (node b x xBalance c) y (-1) d) =>
      node
        (node a prime (if xBalance = 1 then -1 else 0) b)
        x 0
        (node c y (if xBalance = -1 then 1 else 0) d)
  | node a prime 2 (node b x xBalance c) =>
      node (node a prime (1 - xBalance) b) x (xBalance - 1) c
  | node (node d y 1 (node c x xBalance b)) prime (-2) a =>
      node
        (node d y (if xBalance = 1 then -1 else 0) c)
        x 0
        (node b prime (if xBalance = -1 then 1 else 0) a)
  | node (node c x xBalance b) prime (-2) a =>
      node c x (xBalance + 1) (node b prime (-1 - xBalance) a)
  | shape => shape

/-- Rotations do not change the in-order sequence. -/
@[simp] theorem inorder_settle (shape : Shape ι) :
    (settle shape).inorder = shape.inorder := by
  unfold settle
  split <;> simp [List.append_assoc]

/-- A node within balance is left alone. -/
theorem settle_of_within
    {left right : Shape ι} {label : ι} {balance : Int}
    (notHigh : balance ≠ 2)
    (notLow : balance ≠ -2) :
    settle (node left label balance right) =
      node left label balance right := by
  unfold settle
  split <;> simp_all

/-- A right subtree that does not lean left is rotated once. -/
theorem settle_high_single
    {left inner outer : Shape ι} {prime y : ι} {yBalance : Int}
    (leansRight : yBalance ≠ -1) :
    settle (node left prime 2 (node inner y yBalance outer)) =
      node (node left prime (1 - yBalance) inner) y
        (yBalance - 1) outer := by
  cases inner <;> simp [settle, leansRight]

/-- A left subtree that does not lean right is rotated once. -/
theorem settle_low_single
    {outer inner right : Shape ι} {prime y : ι} {yBalance : Int}
    (leansLeft : yBalance ≠ 1) :
    settle (node (node outer y yBalance inner) prime (-2) right) =
      node outer y (yBalance + 1)
        (node inner prime (-1 - yBalance) right) := by
  cases inner <;> simp [settle, leansLeft]

/--
A right-heavy node whose subtrees are balanced is restored by `settle`; the
result is one level lower, unless the right subtree was itself balanced.
-/
theorem balanced_settle_high
    {left right : Shape ι} (prime : ι)
    (leftBalanced : left.Balanced)
    (rightBalanced : right.Balanced)
    (high : right.height = left.height + 2) :
    (settle (node left prime 2 right)).Balanced ∧
      (right.balance = 0 →
        (settle (node left prime 2 right)).height = right.height + 1) ∧
      (right.balance ≠ 0 →
        (settle (node left prime 2 right)).height = right.height) := by
  cases right with
  | leaf =>
      simp at high
  | node inner y yBalance outer =>
      simp only [balanced_node, height_node] at rightBalanced high
      obtain ⟨yBalanceEq, yLow, yHigh, innerBalanced, outerBalanced⟩ :=
        rightBalanced
      by_cases leansLeft : yBalance = -1
      · subst leansLeft
        cases inner with
        | leaf =>
            simp only [height_leaf] at yBalanceEq
            omega
        | node b x xBalance c =>
            simp only [balanced_node, height_node]
              at innerBalanced yBalanceEq high
            obtain ⟨xBalanceEq, xLow, xHigh, bBalanced, cBalanced⟩ :=
              innerBalanced
            simp only [settle, balanced_node, height_node, balance_node,
              leftBalanced, bBalanced, cBalanced, outerBalanced,
              and_true]
            split_ifs <;>
              refine ⟨by omega, False.elim, fun _ => by omega⟩
      · simp only [settle_high_single leansLeft, balanced_node,
          height_node, balance_node, leftBalanced, innerBalanced,
          outerBalanced, and_true]
        refine ⟨by omega, fun _ => ?_, fun _ => ?_⟩ <;> omega

/-- The mirror image of `balanced_settle_high`. -/
theorem balanced_settle_low
    {left right : Shape ι} (prime : ι)
    (leftBalanced : left.Balanced)
    (rightBalanced : right.Balanced)
    (low : left.height = right.height + 2) :
    (settle (node left prime (-2) right)).Balanced ∧
      (left.balance = 0 →
        (settle (node left prime (-2) right)).height = left.height + 1) ∧
      (left.balance ≠ 0 →
        (settle (node left prime (-2) right)).height = left.height) := by
  cases left with
  | leaf =>
      simp at low
  | node outer y yBalance inner =>
      simp only [balanced_node, height_node] at leftBalanced low
      obtain ⟨yBalanceEq, yLow, yHigh, outerBalanced, innerBalanced⟩ :=
        leftBalanced
      by_cases leansRight : yBalance = 1
      · subst leansRight
        cases inner with
        | leaf =>
            simp only [height_leaf] at yBalanceEq
            omega
        | node c x xBalance b =>
            simp only [balanced_node, height_node]
              at innerBalanced yBalanceEq low
            obtain ⟨xBalanceEq, xLow, xHigh, cBalanced, bBalanced⟩ :=
              innerBalanced
            simp only [settle, balanced_node, height_node, balance_node,
              rightBalanced, bBalanced, cBalanced, outerBalanced,
              and_true]
            split_ifs <;>
              refine ⟨by omega, fun _ => ?_, fun _ => ?_⟩ <;> omega
      · simp only [settle_low_single leansRight, balanced_node,
          height_node, balance_node, rightBalanced, innerBalanced,
          outerBalanced, and_true, true_and]
        refine ⟨by omega, fun _ => ?_, fun _ => ?_⟩ <;> omega

end AvlShape
