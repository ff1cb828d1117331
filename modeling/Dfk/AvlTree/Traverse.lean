import Dfk.AvlTree.WellFormed
import Dfk.Library.AvlErasure

/-!
# Traversal

An iterator stands on a hook of the tree; advancing it leads to the next hook
of the in-order sequence, and counting the steps gives the size.
-/

namespace Dfk.AvlTree

open AvlShape AvlShape.Shape

variable {ι : Type}

/-- The leftward loop ends on the first hook of the sequence. -/
theorem leftmost_eq
    {memory : Memory ι} {i : ι} {parent : Option ι} {shape : Shape ι}
    {fuel : Nat}
    (represents : Represents memory (some i) parent shape)
    (enough : shape.height ≤ fuel) :
    ∃ first rest,
      leftmost fuel memory i = .ok first ∧
        shape.inorder = first :: rest := by
  induction fuel generalizing i parent shape with
  | zero =>
      obtain ⟨left, right, rfl, -⟩ := represents.of_some
      simp at enough
  | succ fuel inductionHypothesis =>
      obtain ⟨left, right, rfl, -, leftRep, -⟩ := represents.of_some
      simp only [height_node] at enough
      cases leftPointer : (memory i).left with
      | none =>
          rw [leftPointer] at leftRep
          obtain rfl := leftRep.of_none
          exact ⟨i, right.inorder, by simp [leftmost, leftPointer],
            by simp⟩
      | some child =>
          rw [leftPointer] at leftRep
          obtain ⟨first, rest, run, sequence⟩ :=
            inductionHypothesis leftRep (by omega)
          refine ⟨first, rest ++ i :: right.inorder, ?_, ?_⟩
          · simpa [leftmost, leftPointer] using run
          · simp [sequence]

variable [DecidableEq ι]

/-- The upward loop ends on the first hook behind the hole. -/
theorem climb_eq
    {memory : Memory ι} {root : Option ι} {value : ι}
    {context : Context ι} {fuel : Nat}
    (represents : RepresentsContext memory root (some value)
      (memory value).parent context)
    (outside : value ∉ contextHooks context)
    (noDuplicates : (contextHooks context).Nodup)
    (enough : context.length < fuel) :
    climb fuel memory value = .ok context.after.head? := by
  induction context generalizing value fuel with
  | nil =>
      obtain ⟨fuel, rfl⟩ := Nat.exists_eq_add_of_lt enough
      simp [climb, represents.2, Context.after]
  | cons frame outer inductionHypothesis =>
      obtain ⟨fuel, rfl⟩ : ∃ rest, fuel = rest + 1 :=
        ⟨fuel - 1, by omega⟩
      simp only [List.length_cons] at enough
      cases frame with
      | inLeft hook balance right =>
          obtain ⟨parentEq, -, -, rightRep, -⟩ := represents
          rw [mem_inLeft_iff] at outside
          have notRight := rightRep.pointer_ne value (by tauto)
          simp [climb, parentEq, notRight, Context.after, Frame.after]
      | inRight left hook balance =>
          obtain ⟨parentEq, rightEq, -, -, outerRep⟩ := represents
          obtain ⟨-, hookOutside, -, outerNodup, -⟩ :=
            nodup_inRight noDuplicates
          have above := inductionHypothesis outerRep hookOutside
            outerNodup (show outer.length < fuel by omega)
          simpa [climb, parentEq, rightEq, Context.after, Frame.after]
            using above

/-- `dfk_avltree_it_next` leads to the next hook of the sequence. -/
theorem itNext_eq
    {memory : Memory ι} {root : Option ι} {shape : Shape ι}
    {value : ι} {before after : List ι} {fuel : Nat}
    (represents : Represents memory root none shape)
    (noDuplicates : shape.inorder.Nodup)
    (sequence : shape.inorder = before ++ value :: after)
    (enough : shape.height < fuel) :
    itNext fuel memory (some value) = .ok after.head? := by
  obtain ⟨context, left, right, balance, rfl⟩ :=
    exists_plug_of_mem (show value ∈ shape.inorder by simp [sequence])
  have higher := Context.length_add_height_le context
    (node left value balance right)
  simp only [height_node] at higher
  have split :
      (context.plug (node left value balance right)).inorder =
        (context.before ++ left.inorder) ++
          value :: (right.inorder ++ context.after) := by
    rw [Context.inorder_plug]
    simp
  have afterEq : after = right.inorder ++ context.after := by
    have sameSequence := sequence.symm.trans split
    rw [sequence] at noDuplicates
    have notBefore : value ∉ before := by
      intro member
      exact (List.nodup_append.mp noDuplicates).2.2 value member value
        (by simp) rfl
    have notAfter : value ∉ after :=
      (List.nodup_cons.mp (List.nodup_append.mp noDuplicates).2.1).1
    exact (List.append_cons_inj_of_notMem notBefore notAfter
      |>.mp sameSequence).2.2
  obtain ⟨contextNodup, -, apart⟩ := nodup_plug_iff.mp noDuplicates
  obtain ⟨pointer, parent, contextRep, nodeRep⟩ :=
    RepresentsContext.plug_iff.mp represents
  obtain ⟨rfl, rfl, -, -, rightRep⟩ := nodeRep
  cases rightPointer : (memory value).right with
  | none =>
      rw [rightPointer] at rightRep
      obtain rfl := rightRep.of_none
      have above := climb_eq contextRep (apart value (by simp))
        contextNodup (show context.length < fuel by omega)
      simpa [itNext, rightPointer, afterEq] using above
  | some child =>
      rw [rightPointer] at rightRep
      obtain ⟨first, rest, run, rightSequence⟩ :=
        leftmost_eq rightRep (show right.height ≤ fuel by omega)
      simp [itNext, rightPointer, run, afterEq, rightSequence]

/-- `dfk_avltree_begin` stands on the first hook of the sequence. -/
theorem begin_eq
    {memory : Memory ι} {tree : Tree ι} {shape : Shape ι} {fuel : Nat}
    (represents : Represents memory tree.root none shape)
    (balanced : shape.Balanced)
    (enough : shape.height ≤ fuel) :
    begin fuel memory tree = .ok shape.inorder.head? := by
  rw [begin, checkInvariants_eq represents balanced enough, ok_bind]
  cases atRoot : tree.root with
  | none =>
      rw [atRoot] at represents
      simp [represents.of_none]
  | some root =>
      rw [atRoot] at represents
      obtain ⟨first, rest, run, sequence⟩ := leftmost_eq represents enough
      simp [run, sequence]

/-- Counting goes once over the rest of the sequence. -/
theorem sizeFrom_eq
    {memory : Memory ι} {root : Option ι} {shape : Shape ι}
    {before after : List ι} {fuel size : Nat}
    (represents : Represents memory root none shape)
    (noDuplicates : shape.inorder.Nodup)
    (sequence : shape.inorder = before ++ after)
    (enough : shape.height + after.length < fuel) :
    sizeFrom fuel memory after.head? size = .ok (size + after.length) := by
  induction after generalizing before fuel size with
  | nil =>
      obtain ⟨fuel, rfl⟩ := Nat.exists_eq_add_of_lt enough
      simp [sizeFrom]
  | cons value rest inductionHypothesis =>
      obtain ⟨fuel, rfl⟩ : ∃ less, fuel = less + 1 :=
        ⟨fuel - 1, by omega⟩
      simp only [List.length_cons] at enough
      have next := itNext_eq represents noDuplicates sequence
        (show shape.height < fuel by omega)
      simp only [List.head?_cons, sizeFrom, next, ok_bind]
      rw [inductionHypothesis
        (show shape.inorder = (before ++ [value]) ++ rest by
          simp [sequence])
        (by omega), List.length_cons]
      congr 1
      omega

/-- `dfk_avltree_size` counts the hooks, whether the size is kept or not. -/
theorem size_eq
    {memory : Memory ι} {tree : Tree ι} {shape : Shape ι} {fuel : Nat}
    (represents : Represents memory tree.root none shape)
    (balanced : shape.Balanced)
    (counted : ∀ {size},
      tree.size = some size → size = shape.inorder.length)
    (noDuplicates : shape.inorder.Nodup)
    (enough : shape.height + shape.inorder.length < fuel) :
    size fuel memory tree = .ok shape.inorder.length := by
  rw [size, checkInvariants_eq represents balanced (by omega), ok_bind]
  cases kept : tree.size with
  | some size =>
      simp [counted kept]
  | none =>
      simp only
      rw [begin_eq represents balanced (by omega), ok_bind,
        sizeFrom_eq represents noDuplicates (List.nil_append _).symm
          enough, Nat.zero_add]

end Dfk.AvlTree
