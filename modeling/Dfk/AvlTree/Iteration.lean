import Dfk.AvlTree.Erase
import Dfk.AvlTree.Traverse

/-!
# Iteration

The iterators of a tree visit the in-order sequence of its hooks, whatever its
shape.  Erasing a hook changes the shape, and takes this one hook out of what
an iterator that stands on another one is still to visit.
-/

namespace Dfk.AvlTree

open AvlShape AvlShape.Shape

variable {ι : Type}

variable [DecidableEq ι]

/-- The hooks that an iterator visits before it equals `dfk_avltree_end`. -/
def visitFrom (fuel : Nat) (memory : Memory ι) :
    Nat → Option ι → Except Fault (List ι)
  | 0, _ => .error .outOfFuel
  | _ + 1, none => .ok []
  | rounds + 1, some value => do
      let next ← itNext fuel memory (some value)
      let rest ← visitFrom fuel memory rounds next
      pure (value :: rest)

section Visit

variable {memory : Memory ι} {root : Option ι} {shape : Shape ι}
variable {before after : List ι} {fuel rounds : Nat}

/-- An iterator visits what is left of the sequence. -/
theorem visitFrom_eq
    (represents : Represents memory root none shape)
    (noDuplicates : shape.inorder.Nodup)
    (sequence : shape.inorder = before ++ after)
    (enough : shape.height < fuel)
    (left : after.length < rounds) :
    visitFrom fuel memory rounds after.head? = .ok after := by
  induction after generalizing before rounds with
  | nil =>
      obtain ⟨rounds, rfl⟩ : ∃ less, rounds = less + 1 :=
        ⟨rounds - 1, (Nat.succ_pred_eq_of_pos left).symm⟩
      rfl
  | cons value rest inductionHypothesis =>
      obtain ⟨rounds, rfl⟩ : ∃ less, rounds = less + 1 :=
        ⟨rounds - 1, (Nat.succ_pred_eq_of_pos (Nat.zero_lt_of_lt left)).symm⟩
      have next := itNext_eq represents noDuplicates sequence enough
      have sequenceRest : shape.inorder = (before ++ [value]) ++ rest := by
        rw [sequence, List.append_assoc]
        rfl
      have visited :=
        inductionHypothesis sequenceRest (Nat.lt_of_succ_lt_succ left)
      rw [List.head?_cons, visitFrom, next, ok_bind, visited, ok_bind,
        pure_eq_ok]

/-- One element is taken out of a list at another one. -/
theorem erase_at_other
    {sequence : List ι} {e f : ι}
    (noDuplicates : sequence.Nodup)
    (split : sequence = before ++ f :: after)
    (differs : e ≠ f) :
    ∃ front, sequence.erase e = front ++ f :: after.erase e := by
  subst split
  by_cases member : e ∈ before
  · have notAfter : e ∉ after := by
      intro inAfter
      exact (List.nodup_append.mp noDuplicates).2.2 e member e
        (List.mem_cons_of_mem _ inAfter) rfl
    refine ⟨before.erase e, ?_⟩
    rw [List.erase_append_left _ member, List.erase_of_not_mem notAfter]
  · refine ⟨before, ?_⟩
    rw [List.erase_append_right _ member,
      List.erase_cons_tail (by simpa using Ne.symm differs)]

end Visit

section Ordered

variable {κ : Type} [LinearOrder κ]
variable {memory : Memory ι} {tree : Tree ι} {shape : Shape ι}
variable {key : ι → κ} {fuel : Nat}

/-- The sequence of a tree after an erasure. -/
theorem Erased.inorder_eq
    {e : ι} {changed : Memory ι} {newTree : Tree ι} {erased : Shape ι}
    (isErased : Erased memory tree shape e changed newTree erased)
    (noDuplicates : shape.inorder.Nodup) :
    erased.inorder = shape.inorder.erase e := by
  obtain ⟨before, after, old, new⟩ := isErased.sequence
  rw [old] at noDuplicates ⊢
  have notBefore : e ∉ before := by
    intro member
    exact (List.nodup_append.mp noDuplicates).2.2 e member e
      List.mem_cons_self rfl
  rw [new, List.erase_append_right _ notBefore, List.erase_cons_head]

/-- What an iterator visits behind `f` once `e` has been erased. -/
theorem visitFrom_erase
    {before after : List ι} {e f : ι}
    (threeWay : ThreeWayOn tree.cmp key (· ∈ shape.inorder))
    (wellFormed : WellFormed memory tree shape)
    (enough : 2 * shape.inorder.length < fuel)
    (sequence : shape.inorder = before ++ f :: after)
    (member : e ∈ shape.inorder)
    (differs : e ≠ f) :
    ∃ newTree changed,
      erase false fuel memory tree e = .ok (newTree, changed) ∧
        visitFrom fuel changed fuel (some f) = .ok (f :: after.erase e) := by
  have noDuplicates := wellFormed.noDuplicates threeWay fun _ inside => inside
  have low := height_le_length shape
  obtain ⟨newTree, changed, erased, erases, isErased⟩ :=
    @erase_wellFormed ι _ κ _ memory tree shape e key (· ∈ shape.inorder) fuel
      threeWay (fun _ inside => inside) wellFormed member (by omega)
  have erasedSequence := isErased.inorder_eq noDuplicates
  obtain ⟨front, split⟩ := erase_at_other noDuplicates sequence differs
  have shorter : erased.inorder.length ≤ shape.inorder.length := by
    rw [erasedSequence]
    exact List.length_erase_le
  have lowErased := height_le_length erased
  have whole : erased.inorder = front ++ f :: after.erase e :=
    erasedSequence.trans split
  have distinct : erased.inorder.Nodup := by
    rw [erasedSequence]
    exact noDuplicates.erase e
  have behind : (f :: after.erase e).length ≤ erased.inorder.length := by
    rw [whole, List.length_append]
    exact Nat.le_add_left _ _
  have visited :=
    @visitFrom_eq ι _ changed newTree.root erased front (f :: after.erase e)
      fuel fuel isErased.wellFormed.represents distinct whole (by omega)
      (by omega)
  exact ⟨newTree, changed, erases, visited⟩

/--
Iterators of a well-formed tree visit its hooks in order, a search finds a
hook at which it has to stop if there is one, and erasing a hook takes it out
of what an iterator on another hook is still to visit.
-/
theorem iteration_correct
    (threeWay : ThreeWayOn tree.cmp key (· ∈ shape.inorder))
    (wellFormed : WellFormed memory tree shape)
    (enough : 2 * shape.inorder.length < fuel) :
    (shape.inorder.Nodup ∧
      ∃ it,
        begin fuel memory tree = .ok it ∧
          visitFrom fuel memory fuel it = .ok shape.inorder) ∧
    (size fuel memory tree = .ok shape.inorder.length ∧
      size fuel memory { tree with size := none } =
        .ok shape.inorder.length) ∧
    (∀ lookup : ι → Int,
      Steered lookup shape.inorder →
        ∃ found,
          find fuel memory tree lookup = .ok found ∧
            (∀ hook ∈ found, hook ∈ shape.inorder ∧ lookup hook = 0) ∧
            (found.isSome ↔ ∃ hook ∈ shape.inorder, lookup hook = 0)) ∧
    (∀ before f after,
      shape.inorder = before ++ f :: after →
        ∀ e ∈ shape.inorder,
          e ≠ f →
            ∃ newTree changed,
              erase false fuel memory tree e = .ok (newTree, changed) ∧
                visitFrom fuel changed fuel (some f) =
                  .ok (f :: after.erase e)) := by
  have noDuplicates := wellFormed.noDuplicates threeWay fun _ inside => inside
  have low := height_le_length shape
  have represents := wellFormed.represents
  have balanced := wellFormed.balanced
  refine ⟨⟨noDuplicates, shape.inorder.head?, ?_, ?_⟩, ⟨?_, ?_⟩, ?_, ?_⟩
  · exact begin_eq represents balanced (by omega)
  · exact visitFrom_eq represents noDuplicates (List.nil_append _).symm
      (by omega) (by omega)
  · exact size_eq represents balanced wellFormed.counted noDuplicates
      (by omega)
  · have uncounted :
        ∀ {size}, ({ tree with size := none } : Tree ι).size = some size →
          size = shape.inorder.length := by
      intro size kept
      cases kept
    exact size_eq represents balanced uncounted noDuplicates (by omega)
  · intro lookup steered
    refine ⟨AvlShape.find lookup shape,
      find_eq lookup represents balanced (by omega), ?_, ?_⟩
    · intro hook found
      exact find_sound found
    · constructor
      · intro found
        obtain ⟨hook, isHook⟩ := Option.isSome_iff_exists.mp found
        exact ⟨hook, find_sound isHook⟩
      · rintro ⟨hook, member, stops⟩
        exact find_complete steered member stops
  · intro before f after sequence e member differs
    exact visitFrom_erase threeWay wellFormed enough sequence member differs

end Ordered

/-- Iterating over a leaning tree. -/
theorem iteration_correct_leaning :
    ∃ newTree changed,
      erase false 9 leaningMemory leaningTree 3 = .ok (newTree, changed) ∧
        visitFrom 9 changed 9 (some 1) = .ok [1, 2, 4] :=
  (iteration_correct (leaning_threeWay.mono fun _ _ => trivial)
    leaning_wellFormed (by decide)).2.2.2 [] 1 [2, 3, 4] rfl 3 (by decide)
    (by decide)

end Dfk.AvlTree
