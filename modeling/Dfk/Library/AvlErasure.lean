import Dfk.Library.AvlInsertion

/-!
# Erasure

Taking a node out of a balanced tree leaves a context whose hole became one
level lower.  `lower` repairs such a context from the inside out and stops at
the first frame that keeps its height.
-/

namespace AvlShape

open Shape

variable {ι : Type}

/--
Fill a frame whose hole became one level lower.  The flag says whether the
filled frame is one level lower than it was as well.
-/
def refill : Frame ι → Shape ι → Shape ι × Bool
  | .inLeft prime balance right, hole =>
      if balance + 1 = 1 then
        (node hole prime (balance + 1) right, false)
      else if balance + 1 = 2 then
        (settle (node hole prime (balance + 1) right),
          decide (right.balance ≠ 0))
      else
        (node hole prime (balance + 1) right, true)
  | .inRight left prime balance, hole =>
      if balance - 1 = -1 then
        (node left prime (balance - 1) hole, false)
      else if balance - 1 = -2 then
        (settle (node left prime (balance - 1) hole),
          decide (left.balance ≠ 0))
      else
        (node left prime (balance - 1) hole, true)

/-- Fill a context whose hole became one level lower. -/
def lower : Context ι → Shape ι → Shape ι
  | [], hole => hole
  | frame :: outer, hole =>
      match refill frame hole with
      | (filled, true) => lower outer filled
      | (filled, false) => Context.plug outer filled

/-- Refilling a frame keeps the in-order sequence. -/
theorem inorder_refill (frame : Frame ι) (hole : Shape ι) :
    (refill frame hole).1.inorder = (frame.plug hole).inorder := by
  cases frame <;> simp only [refill] <;> split_ifs <;>
    simp [Frame.plug]

/-- Repairing a context keeps the in-order sequence. -/
theorem inorder_lower (context : Context ι) (hole : Shape ι) :
    (lower context hole).inorder = (context.plug hole).inorder := by
  induction context generalizing hole with
  | nil =>
      rfl
  | cons frame outer inductionHypothesis =>
      have sameLabels :
          (Context.plug outer (refill frame hole).1).inorder =
            (Context.plug outer (frame.plug hole)).inorder := by
        rw [Context.inorder_plug, inorder_refill, ← Context.inorder_plug]
      rw [lower, Context.plug_cons, ← sameLabels]
      split
      · next filled refilled =>
          rw [refilled, inductionHypothesis]
      · next filled refilled =>
          rw [refilled]

/--
A refilled frame is balanced, at its old height or one level lower as the flag
says; `old` is what filled the frame before.
-/
theorem balanced_refill
    {frame : Frame ι} {outer : Context ι} {hole old : Shape ι}
    (holeBalanced : hole.Balanced)
    (balanced : Context.Balanced (frame :: outer) old.height)
    (lowered : old.height = hole.height + 1) :
    (refill frame hole).1.Balanced ∧
      (frame.plug old).height =
        (refill frame hole).1.height +
          if (refill frame hole).2 then 1 else 0 := by
  cases frame with
  | inLeft prime balance right =>
      obtain ⟨balanceEq, low, high, rightBalanced, -⟩ := balanced
      by_cases stops : balance + 1 = 1
      · rw [refill, if_pos stops]
        refine ⟨by simp [holeBalanced, rightBalanced]; omega, ?_⟩
        simp [Frame.plug]
        omega
      · by_cases rotates : balance + 1 = 2
        · rw [refill, if_neg stops, if_pos rotates, rotates]
          obtain ⟨settled, whenEven, whenUneven⟩ :=
            balanced_settle_high prime holeBalanced rightBalanced
              (by omega)
          refine ⟨settled, ?_⟩
          by_cases even : right.balance = 0
          · simp [Frame.plug, even, whenEven even]
            omega
          · simp [Frame.plug, even, whenUneven even]
            omega
        · rw [refill, if_neg stops, if_neg rotates]
          refine ⟨by simp [holeBalanced, rightBalanced]; omega, ?_⟩
          simp [Frame.plug]
          omega
  | inRight left prime balance =>
      obtain ⟨balanceEq, low, high, leftBalanced, -⟩ := balanced
      by_cases stops : balance - 1 = -1
      · rw [refill, if_pos stops]
        refine ⟨by simp [holeBalanced, leftBalanced]; omega, ?_⟩
        simp [Frame.plug]
        omega
      · by_cases rotates : balance - 1 = -2
        · rw [refill, if_neg stops, if_pos rotates, rotates]
          obtain ⟨settled, whenEven, whenUneven⟩ :=
            balanced_settle_low prime leftBalanced holeBalanced
              (by omega)
          refine ⟨settled, ?_⟩
          by_cases even : left.balance = 0
          · simp [Frame.plug, even, whenEven even]
            omega
          · simp [Frame.plug, even, whenUneven even]
            omega
        · rw [refill, if_neg stops, if_neg rotates]
          refine ⟨by simp [holeBalanced, leftBalanced]; omega, ?_⟩
          simp [Frame.plug]
          omega

/-- The outer part of a balanced context is balanced. -/
theorem Context.Balanced.outer
    {frame : Frame ι} {outer : Context ι} {hole : Shape ι}
    (balanced : Context.Balanced (frame :: outer) hole.height) :
    Context.Balanced outer (frame.plug hole).height := by
  cases frame with
  | inLeft label balance right =>
      exact balanced.2.2.2.2
  | inRight left label balance =>
      exact balanced.2.2.2.2

/-- A repaired context is balanced, and no higher than it was. -/
theorem balanced_lower
    {context : Context ι} {hole old : Shape ι}
    (holeBalanced : hole.Balanced)
    (balanced : context.Balanced old.height)
    (lowered : old.height = hole.height + 1) :
    (lower context hole).Balanced ∧
      (lower context hole).height ≤ (context.plug old).height := by
  induction context generalizing hole old with
  | nil =>
      exact ⟨holeBalanced, by simp [lower, lowered]⟩
  | cons frame outer inductionHypothesis =>
      obtain ⟨filledBalanced, filledHeight⟩ :=
        balanced_refill holeBalanced balanced lowered
      have outerBalanced := balanced.outer
      rw [lower, Context.plug_cons]
      split
      · next filled refilled =>
          rw [refilled] at filledBalanced filledHeight
          exact inductionHypothesis filledBalanced outerBalanced
            filledHeight
      · next filled refilled =>
          rw [refilled] at filledBalanced filledHeight
          rw [filledHeight] at outerBalanced
          refine ⟨(Context.balanced_plug outer filled).mpr
            ⟨filledBalanced, outerBalanced⟩, ?_⟩
          apply Nat.le_of_eq
          rw [Context.height_plug_congr outer filledHeight]

/-- Every label of a tree is the root of a subtree. -/
theorem exists_plug_of_mem
    {shape : Shape ι} {label : ι}
    (member : label ∈ shape.inorder) :
    ∃ (context : Context ι) (left right : Shape ι) (balance : Int),
      shape = context.plug (node left label balance right) := by
  induction shape with
  | leaf =>
      simp at member
  | node left other balance right leftHypothesis rightHypothesis =>
      simp only [inorder_node, List.mem_append, List.mem_cons] at member
      rcases member with inLeft | rfl | inRight
      · obtain ⟨context, inner, outer, innerBalance, rfl⟩ :=
          leftHypothesis inLeft
        refine ⟨context ++ [.inLeft other balance right],
          inner, outer, innerBalance, ?_⟩
        rw [Context.plug_append]
        rfl
      · exact ⟨[], left, right, balance, rfl⟩
      · obtain ⟨context, inner, outer, innerBalance, rfl⟩ :=
          rightHypothesis inRight
        refine ⟨context ++ [.inRight left other balance],
          inner, outer, innerBalance, ?_⟩
        rw [Context.plug_append]
        rfl

/-- The balance condition of a composed context. -/
theorem Context.balanced_append
    (inner outer : Context ι) (hole : Shape ι) :
    Context.Balanced (inner ++ outer) hole.height ↔
      inner.Balanced hole.height ∧
        outer.Balanced (inner.plug hole).height := by
  induction inner generalizing hole with
  | nil =>
      simp [Context.Balanced]
  | cons frame rest inductionHypothesis =>
      have atFrame := inductionHypothesis (frame.plug hole)
      cases frame with
      | inLeft label balance right =>
          simp only [Frame.plug, height_node] at atFrame
          simp only [List.cons_append, Context.Balanced, atFrame,
            Context.plug_cons, Frame.plug]
          tauto
      | inRight left label balance =>
          simp only [Frame.plug, height_node] at atFrame
          simp only [List.cons_append, Context.Balanced, atFrame,
            Context.plug_cons, Frame.plug]
          tauto

end AvlShape
