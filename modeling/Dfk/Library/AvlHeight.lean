import Dfk.Library.AvlOrder

/-!
# Heights of balanced shapes

A balanced shape of a given height has at least as many labels as a shape in
which every node leans.  This bound is reached, so that it is known exactly
how high a balanced shape with a given number of labels can be.
-/

namespace AvlShape

open Shape

variable {ι κ : Type}

/-- The labels of a balanced shape are at least a Fibonacci number, less one. -/
theorem fib_le_length
    {shape : Shape ι}
    (balanced : shape.Balanced) :
    Nat.fib (shape.height + 2) ≤ shape.inorder.length + 1 := by
  induction shape with
  | leaf =>
      exact Nat.le_refl 1
  | node left label balance right leftHypothesis rightHypothesis =>
      obtain ⟨isBalance, low, high, leftBalanced, rightBalanced⟩ := balanced
      have fewLeft := leftHypothesis leftBalanced
      have fewRight := rightHypothesis rightBalanced
      have atLeast (lower higher : Nat)
          (near : higher ≤ lower + 1) :
          Nat.fib (higher + 1) ≤ Nat.fib (lower + 2) :=
        Nat.fib_mono (Nat.succ_le_succ near)
      have sum :
          Nat.fib (max left.height right.height + 1 + 2) ≤
            Nat.fib (left.height + 2) + Nat.fib (right.height + 2) := by
        rcases Nat.le_total left.height right.height with lower | lower
        · rw [Nat.max_eq_right lower, Nat.fib_add_two]
          apply Nat.add_le_add_right
          exact atLeast _ _ (by omega)
        · rw [Nat.max_eq_left lower, Nat.fib_add_two, Nat.add_comm]
          apply Nat.add_le_add_left
          exact atLeast _ _ (by omega)
      rw [height_node, inorder_node, List.length_append, List.length_cons]
      omega

/-- A balanced shape with few labels is low. -/
theorem height_lt_of_length_lt
    {shape : Shape ι} {bound : Nat}
    (balanced : shape.Balanced)
    (few : shape.inorder.length + 1 < Nat.fib (bound + 2)) :
    shape.height < bound := by
  by_contra high
  have least :
      Nat.fib (bound + 2) ≤ Nat.fib (shape.height + 2) :=
    Nat.fib_mono (by omega)
  exact absurd (Nat.le_trans least (fib_le_length balanced)) (by omega)

/-!
## The bound is reached
-/

/-- The number of labels decides how two balanced subtrees are filled. -/
theorem exists_parts
    {total least most leastToo mostToo : Nat}
    (atLeast : least + leastToo ≤ total)
    (atMost : total ≤ most + mostToo)
    (range : least ≤ most)
    (rangeToo : leastToo ≤ mostToo) :
    ∃ part partToo,
      part + partToo = total ∧ least ≤ part ∧ part ≤ most ∧
        leastToo ≤ partToo ∧ partToo ≤ mostToo := by
  refine ⟨max least (total - mostToo),
    total - max least (total - mostToo), ?_, ?_, ?_, ?_, ?_⟩
  · omega
  · omega
  · omega
  · omega
  · omega

/-- How far Fibonacci numbers stay below the powers of two. -/
theorem fib_le_two_pow (height : Nat) :
    Nat.fib (height + 2) ≤ 2 ^ height ∧
      Nat.fib (height + 3) ≤ 2 ^ height + 1 := by
  induction height with
  | zero =>
      exact ⟨Nat.le_refl 1, Nat.le_refl 2⟩
  | succ height inductionHypothesis =>
      obtain ⟨first, second⟩ := inductionHypothesis
      have next : Nat.fib (height + 4) =
          Nat.fib (height + 2) + Nat.fib (height + 3) :=
        Nat.fib_add_two
      have double : 2 ^ (height + 1) = 2 ^ height * 2 :=
        Nat.pow_succ 2 height
      have positive : 0 < 2 ^ height :=
        Nat.two_pow_pos height
      refine ⟨?_, ?_⟩
      · change Nat.fib (height + 3) ≤ 2 ^ (height + 1)
        omega
      · change Nat.fib (height + 4) ≤ 2 ^ (height + 1) + 1
        omega

/--
Between the fewest and the most labels of a height there is a balanced shape
with each number of labels.
-/
theorem exists_balanced
    (label : ι) (height count : Nat)
    (atLeast : Nat.fib (height + 2) ≤ count + 1)
    (atMost : count + 1 ≤ 2 ^ height) :
    ∃ shape : Shape ι,
      shape.Balanced ∧ shape.height = height ∧
        shape.inorder.length = count := by
  induction height using Nat.twoStepInduction generalizing count with
  | zero =>
      refine ⟨leaf, trivial, rfl, ?_⟩
      exact (Nat.le_zero.mp (Nat.le_of_succ_le_succ atMost)).symm
  | one =>
      refine ⟨node leaf label 0 leaf, by simp, rfl, ?_⟩
      exact Nat.le_antisymm (Nat.le_of_succ_le_succ atLeast)
        (Nat.le_of_succ_le_succ atMost)
  | more height lowerHypothesis higherHypothesis =>
      change Nat.fib (height + 4) ≤ count + 1 at atLeast
      change ∀ count, Nat.fib (height + 3) ≤ count + 1 → _
        at higherHypothesis
      obtain ⟨low, high⟩ := fib_le_two_pow height
      have split : Nat.fib (height + 4) =
          Nat.fib (height + 2) + Nat.fib (height + 3) :=
        Nat.fib_add_two
      have double : 2 ^ (height + 1) = 2 ^ height * 2 :=
        Nat.pow_succ 2 height
      have fourfold : 2 ^ (height + 2) = 2 ^ (height + 1) * 2 :=
        Nat.pow_succ 2 (height + 1)
      have positive : 0 < Nat.fib (height + 2) :=
        Nat.fib_pos.mpr (Nat.succ_pos _)
      have positiveToo : 0 < Nat.fib (height + 3) :=
        Nat.fib_pos.mpr (Nat.succ_pos _)
      have power : 0 < 2 ^ height :=
        Nat.two_pow_pos height
      by_cases leans : count + 1 ≤ 2 ^ (height + 1) + 2 ^ height
      · -- few enough labels for a node that leans to the right
        obtain ⟨part, partToo, total, least, most, leastToo, mostToo⟩ :=
          @exists_parts (count - 1) (Nat.fib (height + 2) - 1)
            (2 ^ height - 1) (Nat.fib (height + 3) - 1)
            (2 ^ (height + 1) - 1) (by omega) (by omega) (by omega)
            (by omega)
        obtain ⟨left, leftBalanced, leftHeight, leftLength⟩ :=
          lowerHypothesis part (by omega) (by omega)
        obtain ⟨right, rightBalanced, rightHeight, rightLength⟩ :=
          higherHypothesis partToo (by omega) (by omega)
        refine ⟨node left label 1 right, ?_, ?_, ?_⟩
        · rw [balanced_node, leftHeight, rightHeight]
          exact ⟨by omega, by omega, by omega, leftBalanced,
            rightBalanced⟩
        · rw [height_node, leftHeight, rightHeight]
          omega
        · rw [inorder_node, List.length_append, List.length_cons,
            leftLength, rightLength]
          omega
      · obtain ⟨part, partToo, total, least, most, leastToo, mostToo⟩ :=
          @exists_parts (count - 1) (Nat.fib (height + 3) - 1)
            (2 ^ (height + 1) - 1) (Nat.fib (height + 3) - 1)
            (2 ^ (height + 1) - 1) (by omega) (by omega) (by omega)
            (by omega)
        obtain ⟨left, leftBalanced, leftHeight, leftLength⟩ :=
          higherHypothesis part (by omega) (by omega)
        obtain ⟨right, rightBalanced, rightHeight, rightLength⟩ :=
          higherHypothesis partToo (by omega) (by omega)
        refine ⟨node left label 0 right, ?_, ?_, ?_⟩
        · rw [balanced_node, leftHeight, rightHeight]
          exact ⟨by omega, by omega, by omega, leftBalanced,
            rightBalanced⟩
        · rw [height_node, leftHeight, rightHeight]
          omega
        · rw [inorder_node, List.length_append, List.length_cons,
            leftLength, rightLength]
          omega

/-- Any number of labels can be put as high as the bound allows. -/
theorem exists_balanced_of_length
    (label : ι) (count bound : Nat)
    (many : Nat.fib (bound + 2) ≤ count + 1) :
    ∃ shape : Shape ι,
      shape.Balanced ∧ bound ≤ shape.height ∧
        shape.inorder.length = count := by
  have atLeast : bound + 2 ≤ (count + 1).greatestFib :=
    Nat.le_greatestFib.mpr many
  obtain ⟨height, isHeight⟩ := Nat.exists_eq_add_of_le'
    (Nat.le_trans (Nat.le_add_left 2 bound) atLeast)
  have few : count + 1 < Nat.fib (height + 3) := by
    have below := Nat.lt_fib_greatestFib_add_one (count + 1)
    rw [isHeight] at below
    exact below
  have fits : Nat.fib (height + 2) ≤ count + 1 := by
    rw [← isHeight]
    exact Nat.fib_greatestFib_le _
  have roomy : Nat.fib (height + 3) ≤ 2 ^ height + 1 :=
    (fib_le_two_pow height).2
  obtain ⟨shape, balanced, isHigh, isLength⟩ :=
    exists_balanced label height count fits (by omega)
  exact ⟨shape, balanced, by omega, isLength⟩

end AvlShape
