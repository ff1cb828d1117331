import Dfk.AvlTree.WellFormed
import Dfk.Library.AvlErasure

/-!
# Erasure

`dfk_avltree_erase` takes a node out in one of three ways, each of which
leaves a context whose hole became one level lower, and then repairs that
context upwards.
-/

namespace Dfk.AvlTree

open AvlShape AvlShape.Shape

variable {ι : Type} [DecidableEq ι]

/-- Rewriting the balance of a root. -/
theorem Represents.setBal
    {memory : Memory ι} {hook : ι} {parent : Option ι}
    {left right : Shape ι} {balance : Int}
    (represents : Represents memory (some hook) parent
      (node left hook balance right))
    (noDuplicates : (node left hook balance right).inorder.Nodup)
    (newBalance : Int) :
    Represents (memory.setBal hook newBalance) (some hook) parent
      (node left hook newBalance right) := by
  obtain ⟨-, parentEq, -, leftRep, rightRep⟩ := represents
  simp only [inorder_node, List.nodup_append, List.nodup_cons,
    List.mem_cons] at noDuplicates
  refine ⟨rfl, by simpa using parentEq, by simp, ?_, ?_⟩
  · simp only [Memory.setBal_apply, if_true]
    refine leftRep.frame fun other member => ?_
    have : other ≠ hook := by grind
    simp [this]
  · simp only [Memory.setBal_apply, if_true]
    refine rightRep.frame fun other member => ?_
    have : other ≠ hook := by grind
    simp [this]

/--
One iteration of the upward loop refills the innermost frame, and goes on
exactly when the filled frame is one level lower.
-/
theorem eraseStep_eq
    {memory : Memory ι} {tree : Tree ι} {frame : Frame ι}
    {outer : Context ι} {hole old : Shape ι}
    (represents :
      Represents memory tree.root none (Context.plug (frame :: outer) hole))
    (noDuplicates : (Context.plug (frame :: outer) hole).inorder.Nodup)
    (balanced : Context.Balanced (frame :: outer) old.height)
    (lowered : old.height = hole.height + 1) :
    ∃ next root changed,
      eraseStep memory tree frame.label
          (contextDirection (frame :: outer)) =
        .ok (next, { tree with root := root }, changed) ∧
      next = (if (refill frame hole).2 then (refill frame hole).1.root
        else none) ∧
      Represents changed root none
        (Context.plug outer (refill frame hole).1) ∧
      ∀ hook, hook ∉ (Context.plug (frame :: outer) hole).inorder →
        changed hook = memory hook := by
  rw [Context.plug_cons] at noDuplicates represents
  obtain ⟨-, nodeNodup, apart⟩ := nodup_plug_iff.mp noDuplicates
  obtain ⟨pointer, parent, contextRep, nodeRep⟩ :=
    RepresentsContext.plug_iff.mp represents
  cases frame with
  | inLeft prime balance right =>
      simp only [Frame.plug] at *
      obtain rfl : pointer = some prime := nodeRep.1
      have balanceEq : (memory prime).bal = balance := nodeRep.2.2.1
      have outside : prime ∉ contextHooks outer := apart prime (by simp)
      have changedRep := nodeRep.setBal nodeNodup (balance + 1)
      have elsewhere : ∀ hook,
          hook ∉ (node hole prime balance right).inorder →
            memory.setBal prime (balance + 1) hook = memory hook := by
        intro hook notMember
        have : hook ≠ prime := by
          rintro rfl
          exact notMember (by simp)
        simp [this]
      have changedContext :
          RepresentsContext (memory.setBal prime (balance + 1)) tree.root
            (some prime) parent outer :=
        contextRep.frame fun hook member =>
          elsewhere hook fun inside => apart hook inside member
      have whenStill :
          Represents (memory.setBal prime (balance + 1)) tree.root none
            (Context.plug outer (node hole prime (balance + 1) right)) :=
        RepresentsContext.plug_iff.mpr ⟨_, _, changedContext, changedRep⟩
      have untouched : ∀ hook,
          hook ∉ (Context.plug outer
            (node hole prime balance right)).inorder →
            memory.setBal prime (balance + 1) hook = memory hook :=
        fun hook notMember => elsewhere hook fun inside =>
          notMember (mem_plug_iff.mpr (Or.inr inside))
      by_cases stops : balance + 1 = 1
      · refine ⟨none, tree.root, _, ?_, ?_, ?_, untouched⟩
        · simp [eraseStep, Frame.label, balanceEq, stops]
        · simp [refill, stops]
        · simpa [refill, stops] using whenStill
      · by_cases rotates : balance + 1 = 2
        · obtain ⟨heightEq, -, -, rightBalanced, -⟩ := balanced
          have elsewhereHigh := elsewhere
          rw [rotates] at changedRep changedContext elsewhereHigh
          have highNodup :
              (node hole prime 2 right).inorder.Nodup := nodeNodup
          have parentEq := changedRep.2.1
          have rightRep := changedRep.2.2.2.2
          have dirEq := direction_eq changedContext outside
          cases rightPointer : (memory.setBal prime 2 prime).right with
          | none =>
              rw [rightPointer] at rightRep
              obtain rfl := rightRep.of_none
              simp only [height_leaf] at heightEq
              omega
          | some y =>
              rw [rightPointer] at rightRep
              obtain ⟨x, rotated, newParent, run, -, settled,
                  rotatedElsewhere⟩ :=
                rotate_high changedRep highNodup rightPointer rightBalanced
              obtain ⟨root, changed, promote, filled, changedElsewhere⟩ :=
                promotePrime_represents changedContext noDuplicates
                  (by simp) settled rotatedElsewhere
              refine ⟨if right.balance = 0 then none else some x, root,
                changed, ?_, ?_, ?_, ?_⟩
              · simp [eraseStep, Frame.label, balanceEq,
                  rotates, changedRep.bal_eq, parentEq, rightPointer,
                  rightRep.bal_eq, dirEq, run, promote,
                  -Memory.setBal_apply]
              · simp [refill, rotates, settled.pointer_eq]
              · simpa [refill, stops, rotates] using filled
              · intro hook notMember
                rw [changedElsewhere hook notMember, ← rotates]
                exact untouched hook notMember
        · refine ⟨some prime, tree.root, _, ?_, ?_, ?_, untouched⟩
          · simp [eraseStep, Frame.label, balanceEq, stops, rotates]
          · simp [refill, stops, rotates, Shape.root]
          · simpa [refill, stops, rotates] using whenStill
  | inRight left prime balance =>
      simp only [Frame.plug] at *
      obtain rfl : pointer = some prime := nodeRep.1
      have balanceEq : (memory prime).bal = balance := nodeRep.2.2.1
      have outside : prime ∉ contextHooks outer := apart prime (by simp)
      have changedRep := nodeRep.setBal nodeNodup (balance - 1)
      have elsewhere : ∀ hook,
          hook ∉ (node left prime balance hole).inorder →
            memory.setBal prime (balance - 1) hook = memory hook := by
        intro hook notMember
        have : hook ≠ prime := by
          rintro rfl
          exact notMember (by simp)
        simp [this]
      have changedContext :
          RepresentsContext (memory.setBal prime (balance - 1)) tree.root
            (some prime) parent outer :=
        contextRep.frame fun hook member =>
          elsewhere hook fun inside => apart hook inside member
      have whenStill :
          Represents (memory.setBal prime (balance - 1)) tree.root none
            (Context.plug outer (node left prime (balance - 1) hole)) :=
        RepresentsContext.plug_iff.mpr ⟨_, _, changedContext, changedRep⟩
      have untouched : ∀ hook,
          hook ∉ (Context.plug outer
            (node left prime balance hole)).inorder →
            memory.setBal prime (balance - 1) hook = memory hook :=
        fun hook notMember => elsewhere hook fun inside =>
          notMember (mem_plug_iff.mpr (Or.inr inside))
      by_cases stops : balance - 1 = -1
      · refine ⟨none, tree.root, _, ?_, ?_, ?_, untouched⟩
        · simp [eraseStep, Frame.label, balanceEq, stops]
        · simp [refill, stops]
        · simpa [refill, stops] using whenStill
      · by_cases rotates : balance - 1 = -2
        · obtain ⟨heightEq, -, -, leftBalanced, -⟩ := balanced
          have elsewhereLow := elsewhere
          rw [rotates] at changedRep changedContext elsewhereLow
          have lowNodup :
              (node left prime (-2) hole).inorder.Nodup := nodeNodup
          have parentEq := changedRep.2.1
          have leftRep := changedRep.2.2.2.1
          have dirEq := direction_eq changedContext outside
          cases leftPointer : (memory.setBal prime (-2) prime).left with
          | none =>
              rw [leftPointer] at leftRep
              obtain rfl := leftRep.of_none
              simp only [height_leaf] at heightEq
              omega
          | some y =>
              rw [leftPointer] at leftRep
              obtain ⟨x, rotated, newParent, run, -, settled,
                  rotatedElsewhere⟩ :=
                rotate_low changedRep lowNodup leftPointer leftBalanced
              obtain ⟨root, changed, promote, filled, changedElsewhere⟩ :=
                promotePrime_represents changedContext noDuplicates
                  (by simp) settled rotatedElsewhere
              refine ⟨if left.balance = 0 then none else some x, root,
                changed, ?_, ?_, ?_, ?_⟩
              · simp [eraseStep, Frame.label, balanceEq,
                  rotates, changedRep.bal_eq, parentEq, leftPointer,
                  leftRep.bal_eq, dirEq, run, promote,
                  -Memory.setBal_apply]
              · simp [refill, rotates, settled.pointer_eq]
              · simpa [refill, stops, rotates] using filled
              · intro hook notMember
                rw [changedElsewhere hook notMember, ← rotates]
                exact untouched hook notMember
        · refine ⟨some prime, tree.root, _, ?_, ?_, ?_, untouched⟩
          · simp [eraseStep, Frame.label, balanceEq, stops, rotates]
          · simp [refill, stops, rotates, Shape.root]
          · simpa [refill, stops, rotates] using whenStill

/-- The upward loop repairs the context. -/
theorem eraseRebalance_eq
    {memory : Memory ι} {tree : Tree ι} {context : Context ι}
    {hole old : Shape ι} {fuel : Nat}
    (represents :
      Represents memory tree.root none (context.plug hole))
    (noDuplicates : (context.plug hole).inorder.Nodup)
    (holeBalanced : hole.Balanced)
    (balanced : context.Balanced old.height)
    (lowered : old.height = hole.height + 1)
    (enough : context.length < fuel) :
    ∃ root changed,
      eraseRebalance fuel memory tree (context.head?.map Frame.label)
          (contextDirection context) =
        .ok ({ tree with root := root }, changed) ∧
      Represents changed root none (lower context hole) ∧
      ∀ hook, hook ∉ (context.plug hole).inorder →
        changed hook = memory hook := by
  induction context generalizing memory tree hole old fuel with
  | nil =>
      obtain ⟨fuel, rfl⟩ := Nat.exists_eq_add_of_lt enough
      refine ⟨tree.root, memory, ?_, represents, fun _ _ => rfl⟩
      simp [eraseRebalance]
  | cons frame outer inductionHypothesis =>
      obtain ⟨fuel, rfl⟩ : ∃ rest, fuel = rest + 1 :=
        ⟨fuel - 1, by omega⟩
      simp only [List.length_cons] at enough
      obtain ⟨next, root, changed, step, nextEq, filledRep, elsewhere⟩ :=
        eraseStep_eq represents noDuplicates balanced lowered
      obtain ⟨filledBalanced, filledHeight⟩ :=
        balanced_refill holeBalanced balanced lowered
      have sameLabels := inorder_refill frame hole
      simp only [List.head?_cons, Option.map_some, eraseRebalance]
      rw [step]
      rcases refilled : refill frame hole with ⟨filled, goesOn⟩
      rw [refilled] at nextEq filledRep filledBalanced
      rw [refilled] at filledHeight sameLabels
      have samePlug :
          (Context.plug outer filled).inorder =
            (Context.plug (frame :: outer) hole).inorder := by
        rw [Context.plug_cons, Context.inorder_plug, sameLabels,
          ← Context.inorder_plug]
      cases goesOn with
      | false =>
          simp only [Bool.false_eq_true, if_false] at nextEq
          subst nextEq
          refine ⟨root, changed, rfl, ?_, elsewhere⟩
          simpa [lower, refilled] using filledRep
      | true =>
          simp only [if_true] at nextEq filledHeight
          obtain ⟨pointer, parent, contextRep, pointerRep⟩ :=
            RepresentsContext.plug_iff.mp filledRep
          cases next with
          | none =>
              cases filled with
              | leaf =>
                  cases frame <;> simp [Frame.plug] at sameLabels
              | node left label balance right =>
                  simp [Shape.root] at nextEq
          | some prime =>
              obtain rfl : pointer = some prime :=
                pointerRep.pointer_eq.trans nextEq.symm
              have filledNodup :
                  (Context.plug outer filled).inorder.Nodup := by
                rw [samePlug]
                exact noDuplicates
              obtain ⟨-, -, apart⟩ := nodup_plug_iff.mp filledNodup
              have primeOutside : prime ∉ contextHooks outer :=
                apart prime (mem_inorder_of_root nextEq.symm)
              obtain ⟨_, _, -, parentEq, -⟩ := pointerRep.of_some
              obtain ⟨newRoot, newChanged, run, loweredRep,
                  newElsewhere⟩ :=
                inductionHypothesis
                  (show Represents changed
                    ({ tree with root := root } : Tree ι).root none
                      (Context.plug outer filled) from filledRep)
                  filledNodup filledBalanced balanced.outer filledHeight
                  (show outer.length < fuel by omega)
              refine ⟨newRoot, newChanged, ?_, ?_, ?_⟩
              · rw [← run, ← contextRep.parent_eq,
                  ← direction_eq contextRep primeOutside]
                simp [parentEq]
              · simpa [lower, refilled] using loweredRep
              · intro hook notMember
                rw [newElsewhere hook (by rwa [samePlug]),
                  elsewhere hook notMember]

/-- What the leftward loop of `dfk_avltree_erase` finds. -/
structure LowestLeft
    (memory : Memory ι) (i x y : ι)
    (context : Context ι) (shape rest : Shape ι) : Prop where
  above : (memory x).left = some y
  left : (memory y).left = none
  right : (memory y).right = rest.root
  member : x ∈ (context.plug rest).inorder
  sequence : shape.inorder = y :: (context.plug rest).inorder
  lowest : ∃ balance, shape = context.plug (node leaf y balance rest)
  parent : context.head?.map Frame.label = some x
  direction : contextDirection context = -1
  unlink :
    ∀ {changed : Memory ι} {parent : Option ι},
      Represents memory (some i) parent shape →
      (∀ hook ∈ (context.plug rest).inorder,
        changed hook =
          ((memory.setLeft x rest.root).setParentOf rest.root
            (some x)) hook) →
      Represents changed (some i) parent (context.plug rest)

/-- The leftward loop finds the node above the lowest one on the left. -/
theorem eraseDescend_eq
    {memory : Memory ι} {i : ι} {parent : Option ι}
    {left right : Shape ι} {balance : Int} {fuel : Nat}
    (represents :
      Represents memory (some i) parent (node left i balance right))
    (noDuplicates : (node left i balance right).inorder.Nodup)
    (notLowest : (memory i).left ≠ none)
    (enough : left.height ≤ fuel) :
    ∃ x y context rest,
      eraseDescend fuel memory i = .ok x ∧
        LowestLeft memory i x y context (node left i balance right)
          rest := by
  induction fuel generalizing i parent left right balance with
  | zero =>
      obtain ⟨-, -, -, leftRep, -⟩ := represents
      cases left with
      | leaf =>
          exact (notLowest leftRep).elim
      | node _ _ _ _ =>
          simp at enough
  | succ fuel inductionHypothesis =>
      obtain ⟨-, -, balanceEq, leftRep, rightRep⟩ := id represents
      simp only [inorder_node, List.nodup_append, List.nodup_cons,
        List.mem_cons] at noDuplicates
      cases leftPointer : (memory i).left with
      | none =>
          exact (notLowest leftPointer).elim
      | some y =>
          rw [leftPointer] at leftRep
          obtain ⟨inner, rest, rfl, parentEq, innerRep, restRep⟩ :=
            leftRep.of_some
          simp only [height_node] at enough
          cases innerPointer : (memory y).left with
          | none =>
              rw [innerPointer] at innerRep
              obtain rfl := innerRep.of_none
              refine ⟨i, y, [.inLeft i balance right], rest, ?_, ?_⟩
              · simp [eraseDescend, leftPointer, innerPointer]
              · refine ⟨leftPointer, innerPointer, restRep.pointer_eq,
                  by simp [Frame.plug], by simp [Frame.plug],
                  ⟨_, rfl⟩, rfl, rfl, ?_⟩
                intro changed parent represents unchanged
                obtain ⟨-, parentEq, -, -, -⟩ := represents
                simp only [inorder_node, inorder_leaf, List.nil_append,
                  List.nodup_cons, List.mem_cons] at noDuplicates
                simp only [Context.plug_cons, Context.plug_nil,
                  Frame.plug, inorder_node, List.mem_append,
                  List.mem_cons] at unchanged
                have notRest := restRep.pointer_ne i (by grind)
                rw [restRep.pointer_eq] at notRest
                have atI : changed i =
                    { memory i with left := rest.root } := by
                  rw [unchanged i (by simp)]
                  simp [notRest]
                refine ⟨rfl, by rw [atI, parentEq],
                  by rw [atI, balanceEq], ?_, ?_⟩
                · rw [atI, ← restRep.pointer_eq]
                  refine restRep.reparent (by grind) ?_ ?_
                  · intro hook atRoot
                    have member : hook ∈ rest.inorder :=
                      mem_inorder_of_root
                        (restRep.pointer_eq.symm.trans atRoot)
                    have notI : hook ≠ i := by grind
                    rw [unchanged hook (by simp [member])]
                    simp [notI, ← restRep.pointer_eq, atRoot]
                  · intro hook member notRoot
                    have notI : hook ≠ i := by grind
                    rw [unchanged hook (by simp [member])]
                    simp [notI, ← restRep.pointer_eq, notRoot]
                · rw [atI]
                  refine rightRep.frame fun hook member => ?_
                  have notI : hook ≠ i := by grind
                  have notRoot := restRep.pointer_ne hook (by grind)
                  rw [unchanged hook (by simp [member])]
                  simp [notI, ← restRep.pointer_eq, notRoot]
          | some z =>
              obtain ⟨x, lowest, context, remaining, descend, found⟩ :=
                inductionHypothesis leftRep (by grind)
                  (by simp [innerPointer]) (by omega)
              have xNotI : x ≠ i := by
                rintro rfl
                have : x ∈ (node inner y (memory y).bal rest).inorder := by
                  rw [found.sequence]
                  exact List.mem_cons_of_mem _ found.member
                grind
              refine ⟨x, lowest, context ++ [.inLeft i balance right],
                remaining, ?_, ?_⟩
              · simp [eraseDescend, leftPointer, innerPointer, descend]
              · have plugged :
                    Context.plug (context ++ [.inLeft i balance right])
                      remaining =
                    node (context.plug remaining) i balance right :=
                  Context.plug_append _ _ _
                refine ⟨found.above, found.left, found.right, ?_, ?_, ?_,
                  ?_, ?_, ?_⟩
                · simp [plugged, found.member]
                · rw [plugged]
                  simp [found.sequence]
                · obtain ⟨lowestBalance, shapeEq⟩ := found.lowest
                  refine ⟨lowestBalance, ?_⟩
                  rw [Context.plug_append, ← shapeEq]
                  rfl
                · rw [List.head?_append, Option.map_or, found.parent]
                  rfl
                · cases context with
                  | nil =>
                      have := found.parent
                      simp at this
                  | cons frame outer =>
                      cases frame <;> exact found.direction
                · rw [plugged]
                  intro changed parent represents unchanged
                  obtain ⟨-, parentEq, -, -, -⟩ := represents
                  simp only [inorder_node, List.mem_append,
                    List.mem_cons] at unchanged
                  have inLeft : ∀ hook,
                      hook ∈ (context.plug remaining).inorder →
                        hook ∈ (node inner y (memory y).bal rest).inorder := by
                    intro hook member
                    rw [found.sequence]
                    exact List.mem_cons_of_mem _ member
                  have elsewhere : ∀ hook,
                      hook ∉ (context.plug remaining).inorder →
                      (hook = i ∨ hook ∈ right.inorder) →
                        changed hook = memory hook := by
                    intro hook notMember here
                    have notX : hook ≠ x := by
                      rintro rfl
                      exact notMember found.member
                    have notRoot : remaining.root ≠ some hook := by
                      intro atRoot
                      refine notMember (mem_plug_iff.mpr (Or.inr ?_))
                      exact mem_inorder_of_root atRoot
                    rw [unchanged hook (Or.inr here)]
                    simp [notX, notRoot]
                  have atI : changed i = memory i :=
                    elsewhere i (by grind) (Or.inl rfl)
                  refine ⟨rfl, by rw [atI, parentEq],
                    by rw [atI, balanceEq], ?_, ?_⟩
                  · rw [atI, leftPointer]
                    exact found.unlink leftRep fun hook member =>
                      unchanged hook (Or.inl member)
                  · rw [atI]
                    exact rightRep.frame fun hook member =>
                      elsewhere hook (by grind) (Or.inr member)

/-- Hanging a replacement where `e` was fills the context of `e`. -/
theorem eraseReplace_represents
    {memory : Memory ι} {tree : Tree ι} {e : ι}
    {newe oldParent : Option ι} {context : Context ι} {hole : Shape ι}
    (contextRep : RepresentsContext memory tree.root (some e)
      (memory e).parent context)
    (outside : e ∉ contextHooks context)
    (holeRep : Represents memory newe oldParent hole)
    (noDuplicates : (context.plug hole).inorder.Nodup) :
    ∃ root changed,
      eraseReplace memory tree e newe =
        ({ tree with root := root }, changed) ∧
      Represents changed root none (context.plug hole) ∧
      ∀ hook, hook ∉ (context.plug hole).inorder →
        changed hook = memory hook := by
  refine ⟨_, _, eraseReplace_eq contextRep outside newe,
    represents_plug_of_relink contextRep holeRep noDuplicates, ?_⟩
  intro hook notMember
  rw [mem_plug_iff, not_or] at notMember
  have notRoot := holeRep.pointer_ne hook notMember.2
  simp [notRoot, relink_of_not_mem notMember.1]

/--
The outcome of taking `e` out: a context whose hole became one level lower,
the variables of the source pointing at that hole.
-/
structure TakenOut
    (memory : Memory ι) (tree : Tree ι) (shape : Shape ι) (e : ι)
    (detached : Detached ι) (root : Option ι) (changed : Memory ι)
    (context : Context ι) (hole : Shape ι) : Prop where
  replaced :
    eraseReplace detached.memory tree e detached.newe =
      ({ tree with root := root }, changed)
  prime : detached.prime = context.head?.map Frame.label
  side : detached.eraseDirection = contextDirection context
  represents : Represents changed root none (context.plug hole)
  holeBalanced : hole.Balanced
  lowered :
    ∃ old : Shape ι,
      context.Balanced old.height ∧ old.height = hole.height + 1 ∧
        (context.plug old).height = shape.height
  sequence :
    ∃ before after,
      shape.inorder = before ++ e :: after ∧
        (context.plug hole).inorder = before ++ after
  elsewhere : ∀ hook, hook ∉ shape.inorder → changed hook = memory hook

section Detach

variable {memory : Memory ι} {tree : Tree ι} {e : ι}
variable {context : Context ι} {left right : Shape ι}
variable {balance : Int} {fuel : Nat}

/-- Replacing `e` by a subtree of the remaining hooks takes it out. -/
theorem takenOut_of_detached
    (detached : Detached ι) (inner : Context ι)
    (hole filling old : Shape ι) {oldParent : Option ι}
    (represents : Represents memory tree.root none
      (context.plug (node left e balance right)))
    (noDuplicates :
      (context.plug (node left e balance right)).inorder.Nodup)
    (kept : ∀ hook, hook ∉ (node left e balance right).inorder →
      detached.memory hook = memory hook)
    (sameParent : (detached.memory e).parent = (memory e).parent)
    (fillingRep :
      Represents detached.memory detached.newe oldParent filling)
    (sameLabels : filling.inorder = left.inorder ++ right.inorder)
    (plugged : inner.plug hole = context.plug filling)
    (prime : detached.prime = inner.head?.map Frame.label)
    (side : detached.eraseDirection = contextDirection inner)
    (holeBalanced : hole.Balanced)
    (balanced : inner.Balanced old.height)
    (lowered : old.height = hole.height + 1)
    (sameHeight : (inner.plug old).height =
      (context.plug (node left e balance right)).height) :
    ∃ root changed,
      TakenOut memory tree (context.plug (node left e balance right)) e
        detached root changed inner hole := by
  obtain ⟨pointer, parent, contextRep, nodeRep⟩ :=
    RepresentsContext.plug_iff.mp represents
  obtain ⟨-, -, apart⟩ := nodup_plug_iff.mp noDuplicates
  obtain ⟨rfl, rfl, -⟩ := nodeRep
  have sequence :
      (context.plug filling).inorder =
        (context.before ++ left.inorder) ++
          (right.inorder ++ context.after) := by
    rw [Context.inorder_plug, sameLabels]
    simp
  have oldSequence :
      (context.plug (node left e balance right)).inorder =
        (context.before ++ left.inorder) ++
          e :: (right.inorder ++ context.after) := by
    rw [Context.inorder_plug]
    simp
  have newNodup : (context.plug filling).inorder.Nodup := by
    rw [oldSequence] at noDuplicates
    rw [sequence]
    exact (List.nodup_middle.mp noDuplicates).of_cons
  have keptContext : RepresentsContext detached.memory tree.root (some e)
      (detached.memory e).parent context := by
    rw [sameParent]
    exact contextRep.frame fun hook member =>
      kept hook fun inside => apart hook inside member
  obtain ⟨root, changed, replaced, filledRep, elsewhere⟩ :=
    eraseReplace_represents keptContext (apart e (by simp)) fillingRep
      newNodup
  refine ⟨root, changed, replaced, prime, side, plugged ▸ filledRep,
    holeBalanced, ⟨old, balanced, lowered, sameHeight⟩,
    ⟨_, _, oldSequence, plugged ▸ sequence⟩, ?_⟩
  intro hook notMember
  rw [oldSequence] at notMember
  have notFilled : hook ∉ (context.plug filling).inorder := by
    rw [sequence]
    simp only [List.mem_append, List.mem_cons] at notMember ⊢
    tauto
  rw [elsewhere hook notFilled]
  refine kept hook fun inside => notMember ?_
  simp only [inorder_node, List.mem_append, List.mem_cons] at inside ⊢
  tauto

/-- Taking out a node without a right subtree. -/
theorem eraseDetach_leaf
    (represents : Represents memory tree.root none
      (context.plug (node left e balance leaf)))
    (noDuplicates :
      (context.plug (node left e balance leaf)).inorder.Nodup)
    (balanced : (context.plug (node left e balance leaf)).Balanced) :
    ∃ detached root changed,
      eraseDetach fuel memory e = .ok detached ∧
        TakenOut memory tree (context.plug (node left e balance leaf)) e
          detached root changed context left := by
  obtain ⟨pointer, parent, contextRep, nodeRep⟩ :=
    RepresentsContext.plug_iff.mp represents
  obtain ⟨-, -, apart⟩ := nodup_plug_iff.mp noDuplicates
  obtain ⟨rfl, rfl, -, leftRep, rightNone⟩ := nodeRep
  obtain ⟨⟨-, -, -, leftBalanced, -⟩, contextBalanced⟩ :=
    (Context.balanced_plug context _).mp balanced
  have rightEq : (memory e).right = none := rightNone
  obtain ⟨root, changed, taken⟩ :=
    takenOut_of_detached
      { newe := (memory e).left
        prime := (memory e).parent
        eraseDirection := direction memory (memory e).parent e
        memory := memory }
      context left left (node left e balance leaf) represents
      noDuplicates (fun _ _ => rfl) rfl leftRep (by simp) rfl
      contextRep.parent_eq (direction_eq contextRep (apart e (by simp)))
      leftBalanced contextBalanced (by simp) rfl
  exact ⟨_, root, changed, by simp [eraseDetach, rightEq], taken⟩

/-- Taking out a node whose right subtree has no left subtree. -/
theorem eraseDetach_lowest
    {r : ι} {rightBalance : Int} {outer : Shape ι}
    (represents : Represents memory tree.root none
      (context.plug
        (node left e balance (node leaf r rightBalance outer))))
    (noDuplicates :
      (context.plug (node left e balance
        (node leaf r rightBalance outer))).inorder.Nodup)
    (balanced :
      (context.plug (node left e balance
        (node leaf r rightBalance outer))).Balanced) :
    ∃ detached root changed,
      eraseDetach fuel memory e = .ok detached ∧
        TakenOut memory tree
          (context.plug
            (node left e balance (node leaf r rightBalance outer)))
          e detached root changed (.inRight left r balance :: context)
          outer := by
  obtain ⟨pointer, parent, contextRep, nodeRep⟩ :=
    RepresentsContext.plug_iff.mp represents
  obtain ⟨-, nodeNodup, apart⟩ := nodup_plug_iff.mp noDuplicates
  obtain ⟨rfl, rfl, balanceEq, leftRep, rightEq, rParent, -, leftNone,
    outerRep⟩ := nodeRep
  obtain ⟨⟨heightEq, low, high, leftBalanced, rightBalanced⟩,
    contextBalanced⟩ := (Context.balanced_plug context _).mp balanced
  obtain ⟨-, -, -, -, outerBalanced⟩ := rightBalanced
  simp only [inorder_node, inorder_leaf, List.nil_append,
    List.nodup_append, List.nodup_cons, List.mem_cons] at nodeNodup
  have leftEq : (memory r).left = none := leftNone
  have eNotR : e ≠ r := by grind
  have eNotRoot := leftRep.pointer_ne e (by grind)
  have rNotRoot := leftRep.pointer_ne r (by grind)
  let relinked :=
    ((memory.setLeft r (memory e).left).setParentOf
      (memory e).left (some r)).setBal r (memory e).bal
  have kept : ∀ hook,
      hook ∉ (node left e balance
        (node leaf r rightBalance outer)).inorder →
        relinked hook = memory hook := by
    intro hook notMember
    simp only [inorder_node, inorder_leaf, List.nil_append,
      List.mem_append, List.mem_cons, not_or] at notMember
    have notRoot := leftRep.pointer_ne hook notMember.1
    simp [relinked, notMember.2.2.1, notRoot]
  have atR : relinked r =
      { memory r with left := (memory e).left, bal := balance } := by
    simp [relinked, rNotRoot, balanceEq]
  have fillingRep :
      Represents relinked (some r) (some e)
        (node left r balance outer) := by
    refine ⟨rfl, by rw [atR, rParent], by rw [atR], ?_, ?_⟩
    · rw [atR]
      refine leftRep.reparent (by grind) ?_ ?_
      · intro hook atRoot
        have notR : hook ≠ r := by grind
        simp [relinked, atRoot, notR]
      · intro hook member notRoot
        have notR : hook ≠ r := by grind
        simp [relinked, notRoot, notR]
    · rw [atR]
      refine outerRep.frame fun hook member => ?_
      have notR : hook ≠ r := by grind
      have notRoot := leftRep.pointer_ne hook (by grind)
      simp [relinked, notRoot, notR]
  obtain ⟨root, changed, taken⟩ :=
    takenOut_of_detached
      { newe := some r
        prime := some r
        eraseDirection := 1
        memory := relinked }
      (.inRight left r balance :: context) outer
      (node left r balance outer) (node leaf r rightBalance outer)
      represents noDuplicates kept
      (by simp [relinked, eNotR, eNotRoot]) fillingRep
      (by simp) rfl rfl rfl outerBalanced
      ⟨heightEq, low, high, leftBalanced, contextBalanced⟩ (by simp)
      (Context.height_plug_congr context rfl)
  exact ⟨_, root, changed,
    by simp [eraseDetach, rightEq, leftEq, relinked, eNotR, eNotRoot],
    taken⟩

/-- Taking out a node whose right subtree has a left subtree. -/
theorem eraseDetach_deep
    {a : Shape ι} {r : ι} {rightBalance : Int} {outer : Shape ι}
    (represents : Represents memory tree.root none
      (context.plug
        (node left e balance (node a r rightBalance outer))))
    (noDuplicates :
      (context.plug (node left e balance
        (node a r rightBalance outer))).inorder.Nodup)
    (balanced :
      (context.plug (node left e balance
        (node a r rightBalance outer))).Balanced)
    (deep : a ≠ leaf)
    (enough : a.height ≤ fuel) :
    ∃ detached root changed inner hole,
      eraseDetach fuel memory e = .ok detached ∧
        TakenOut memory tree
          (context.plug
            (node left e balance (node a r rightBalance outer)))
          e detached root changed inner hole := by
  obtain ⟨pointer, parent, contextRep, nodeRep⟩ :=
    RepresentsContext.plug_iff.mp represents
  obtain ⟨-, nodeNodup, apart⟩ := nodup_plug_iff.mp noDuplicates
  obtain ⟨rfl, rfl, balanceEq, leftRep, rightRep⟩ := nodeRep
  obtain ⟨⟨heightEq, low, high, leftBalanced, rightBalanced⟩,
    contextBalanced⟩ := (Context.balanced_plug context _).mp balanced
  obtain rightEq : (memory e).right = some r := rightRep.1
  rw [rightEq] at rightRep
  have notLowest : (memory r).left ≠ none := by
    intro none
    have aRep := rightRep.2.2.2.1
    rw [none] at aRep
    exact deep aRep.of_none
  rw [inorder_node, List.nodup_append, List.nodup_cons] at nodeNodup
  simp only [List.mem_cons] at nodeNodup
  obtain ⟨x, y, descent, rest, descend, found⟩ :=
    eraseDescend_eq rightRep (by grind) notLowest enough
  obtain ⟨b, leftEq⟩ : ∃ b, (memory e).left = some b := by
    cases leftPointer : (memory e).left with
    | some b =>
        exact ⟨b, rfl⟩
    | none =>
        rw [leftPointer] at leftRep
        obtain rfl := leftRep.of_none
        cases a with
        | leaf =>
            exact (deep rfl).elim
        | node _ _ _ _ =>
            simp only [height_node, height_leaf] at heightEq
            omega
  rw [leftEq] at leftRep
  have bIn : b ∈ left.inorder :=
    mem_inorder_of_root leftRep.pointer_eq.symm
  have rIn : r ∈ (node a r rightBalance outer).inorder := by simp
  generalize rightShape : node a r rightBalance outer = right at *
  have rightNodup := nodeNodup.2.1.2
  rw [found.sequence] at nodeNodup rightNodup rIn
  simp only [List.nodup_cons, List.mem_cons] at nodeNodup rightNodup rIn
  have xIn := found.member
  have restIn : ∀ hook, rest.root = some hook →
      hook ∈ (descent.plug rest).inorder := fun hook atRoot =>
    mem_plug_iff.mpr (Or.inr (mem_inorder_of_root atRoot))
  have unlinked := found.unlink rightRep fun _ _ => rfl
  have yNotR : y ≠ r := by
    rintro rfl
    exact notLowest found.left
  have restNotR : rest.root ≠ some r := by
    intro atRoot
    obtain ⟨_, _, -, parentEq, -⟩ := unlinked.of_some
    simp [atRoot] at parentEq
    grind
  let relinked :=
    ((((((memory.setLeft y (some b)).setRight y (some r)).setBal y
      balance).setParent r (some y)).setParent b (some y)).setLeft x
        rest.root).setParentOf rest.root (some x)
  have kept : ∀ hook, hook ∉ (node left e balance right).inorder →
      relinked hook = memory hook := by
    intro hook notMember
    simp only [inorder_node, found.sequence, List.mem_append,
      List.mem_cons, not_or] at notMember
    have notY : hook ≠ y := by grind
    have notR : hook ≠ r := by grind
    have notB : hook ≠ b := by grind
    have notX : hook ≠ x := by grind
    have notRest : rest.root ≠ some hook := by grind
    simp [relinked, notY, notR, notB, notX, notRest]
  have atE : relinked e = memory e := by
    have notY : e ≠ y := by grind
    have notR : e ≠ r := by grind
    have notB : e ≠ b := by grind
    have notX : e ≠ x := by grind
    have notRest : rest.root ≠ some e := by grind
    simp [relinked, notY, notR, notB, notX, notRest]
  have atY : relinked y =
      { memory y with
        left := some b, right := some r, bal := balance } := by
    have notB : y ≠ b := by grind
    have notX : y ≠ x := by grind
    have notRest : rest.root ≠ some y := by grind
    simp [relinked, yNotR, notB, notX, notRest]
  have leftFilled : Represents relinked (some b) (some y) left := by
    refine leftRep.reparent (by grind) ?_ ?_
    · rintro hook ⟨⟩
      have notY : b ≠ y := by grind
      have notR : b ≠ r := by grind
      have notX : b ≠ x := by grind
      have notRest : rest.root ≠ some b := by grind
      simp [relinked, notY, notR, notX, notRest]
    · intro hook member notRoot
      have notB : hook ≠ b := by grind
      have notY : hook ≠ y := by grind
      have notR : hook ≠ r := by grind
      have notX : hook ≠ x := by grind
      have notRest : rest.root ≠ some hook := by grind
      simp [relinked, notY, notR, notB, notX, notRest]
  have rightFilled :
      Represents relinked (some r) (some y) (descent.plug rest) := by
    refine unlinked.reparent rightNodup.2 ?_ ?_
    · rintro hook ⟨⟩
      have notB : r ≠ b := by grind
      by_cases sameX : r = x
      · simp [relinked, yNotR.symm, notB, restNotR, ← sameX]
      · simp [relinked, yNotR.symm, notB, restNotR, sameX]
    · intro hook member notRoot
      have notY : hook ≠ y := by grind
      have notB : hook ≠ b := by grind
      have notR : hook ≠ r := by grind
      simp [relinked, notY, notB, notR]
  have fillingRep :
      Represents relinked (some y) (memory y).parent
        (node left y balance (descent.plug rest)) :=
    ⟨rfl, by rw [atY], by rw [atY], by rw [atY]; exact leftFilled,
      by rw [atY]; exact rightFilled⟩
  obtain ⟨lowestBalance, lowestEq⟩ := found.lowest
  have plugged :
      Context.plug (descent ++ .inRight left y balance :: context) rest =
        context.plug (node left y balance (descent.plug rest)) :=
    Context.plug_append _ _ _
  rw [lowestEq, Context.balanced_plug] at rightBalanced
  obtain ⟨⟨-, -, -, -, restBalanced⟩, descentBalanced⟩ := rightBalanced
  have innerBalanced :
      Context.Balanced (descent ++ .inRight left y balance :: context)
        (node leaf y lowestBalance rest).height := by
    rw [Context.balanced_append, ← lowestEq]
    exact ⟨descentBalanced, heightEq, low, high, leftBalanced,
      contextBalanced⟩
  have primeEq :
      some x =
        (descent ++ .inRight left y balance :: context).head?.map
          Frame.label := by
    rw [List.head?_append, Option.map_or, found.parent, Option.some_or]
  have sideEq :
      -1 = contextDirection
        (descent ++ .inRight left y balance :: context) := by
    cases descent with
    | nil =>
        have := found.parent
        simp at this
    | cons frame above =>
        cases frame <;> exact found.direction.symm
  have sameHeight :
      (Context.plug (descent ++ .inRight left y balance :: context)
        (node leaf y lowestBalance rest)).height =
        (context.plug (node left e balance right)).height := by
    rw [Context.plug_append, ← lowestEq]
    exact Context.height_plug_congr context rfl
  obtain ⟨root, changed, taken⟩ :=
    takenOut_of_detached
      { newe := some y
        prime := some x
        eraseDirection := -1
        memory := relinked }
      (descent ++ .inRight left y balance :: context) rest
      (node left y balance (descent.plug rest))
      (node leaf y lowestBalance rest) represents noDuplicates
      kept (congrArg Hook.parent atE) fillingRep
      (by simp [found.sequence]) plugged primeEq sideEq restBalanced
      innerBalanced (by simp) sameHeight
  refine ⟨_, root, changed, _, rest, ?_, taken⟩
  have eNotY : e ≠ y := by grind
  have hasLeft : (memory r).left.isSome :=
    Option.isSome_iff_ne_none.mpr notLowest
  simp [eraseDetach, rightEq, leftEq, notLowest, hasLeft, descend,
    found.above, found.left, found.right, eNotY, balanceEq, relinked]

/-- Every stored node can be taken out. -/
theorem eraseDetach_eq
    {shape : Shape ι}
    (represents : Represents memory tree.root none shape)
    (noDuplicates : shape.inorder.Nodup)
    (balanced : shape.Balanced)
    (member : e ∈ shape.inorder)
    (enough : shape.height ≤ fuel) :
    ∃ detached root changed inner hole,
      eraseDetach fuel memory e = .ok detached ∧
        TakenOut memory tree shape e detached root changed inner hole := by
  obtain ⟨context, left, right, balance, rfl⟩ := exists_plug_of_mem member
  cases right with
  | leaf =>
      obtain ⟨detached, root, changed, run, taken⟩ :=
        eraseDetach_leaf represents noDuplicates balanced
      exact ⟨detached, root, changed, _, _, run, taken⟩
  | node a r rightBalance outer =>
      cases a with
      | leaf =>
          obtain ⟨detached, root, changed, run, taken⟩ :=
            eraseDetach_lowest represents noDuplicates balanced
          exact ⟨detached, root, changed, _, _, run, taken⟩
      | node b c middle d =>
          have higher := Context.length_add_height_le context
            (node left e balance
              (node (node b c middle d) r rightBalance outer))
          simp only [height_node] at higher
          refine eraseDetach_deep represents noDuplicates balanced
            (by simp) ?_
          rw [height_node]
          omega

/-- `dfk_avltree_erase` takes a stored hook out and repairs the tree. -/
theorem erase_of_member
    {shape : Shape ι}
    (represents : Represents memory tree.root none shape)
    (balanced : shape.Balanced)
    (counted : ∀ {size},
      tree.size = some size → size = shape.inorder.length)
    (noDuplicates : shape.inorder.Nodup)
    (member : e ∈ shape.inorder)
    (enough : shape.height < fuel) :
    ∃ root changed erased before after,
      erase false fuel memory tree e =
        .ok ({ tree with root := root, size := tree.size.map (· - 1) },
          changed) ∧
      Represents changed root none erased ∧
      erased.Balanced ∧
      shape.inorder = before ++ e :: after ∧
      erased.inorder = before ++ after ∧
      ∀ hook, hook ∉ shape.inorder → changed hook = memory hook := by
  obtain ⟨detached, root, moved, inner, hole, detach, taken⟩ :=
    eraseDetach_eq represents noDuplicates balanced member
      (Nat.le_of_lt enough)
  obtain ⟨before, after, sequence, newSequence⟩ := taken.sequence
  obtain ⟨old, innerBalanced, lowered, sameHeight⟩ := taken.lowered
  have newNodup : (inner.plug hole).inorder.Nodup := by
    rw [sequence] at noDuplicates
    rw [newSequence]
    exact (List.nodup_middle.mp noDuplicates).of_cons
  have short : inner.length < fuel := by
    have := Context.length_add_height_le inner old
    omega
  obtain ⟨newRoot, changed, rebalance, loweredRep, elsewhere⟩ :=
    eraseRebalance_eq
      (show Represents moved ({ tree with root := root } : Tree ι).root
        none (inner.plug hole) from taken.represents)
      newNodup taken.holeBalanced innerBalanced lowered short
  obtain ⟨erasedBalanced, erasedHeight⟩ :=
    balanced_lower taken.holeBalanced innerBalanced lowered
  refine ⟨newRoot, changed, lower inner hole, before, after, ?_,
    loweredRep, erasedBalanced, sequence, ?_, ?_⟩
  · have entry := checkInvariants_eq represents balanced
      (Nat.le_of_lt enough)
    have exit : checkInvariants fuel changed
        { tree with root := newRoot, size := tree.size.map (· - 1) } =
        .ok () :=
      checkInvariants_eq loweredRep erasedBalanced (by omega)
    have notEmpty : tree.size ≠ some 0 := by
      intro kept
      have := counted kept
      rw [sequence] at this
      simp at this
    rw [erase, entry]
    simp [notEmpty, detach, taken.replaced, taken.prime, taken.side,
      rebalance, exit]
  · rw [inorder_lower, newSequence]
  · intro hook notMember
    have notMoved : hook ∉ (inner.plug hole).inorder := by
      rw [sequence] at notMember
      rw [newSequence]
      simp only [List.mem_append, List.mem_cons] at notMember ⊢
      tauto
    rw [elsewhere hook notMoved, taken.elsewhere hook notMember]

end Detach

/-- The result of erasing a stored hook. -/
structure Erased
    (memory : Memory ι) (tree : Tree ι) (shape : Shape ι) (e : ι)
    (changed : Memory ι) (newTree : Tree ι) (erased : Shape ι) :
    Prop where
  wellFormed : WellFormed changed newTree erased
  sequence :
    ∃ before after,
      shape.inorder = before ++ e :: after ∧
        erased.inorder = before ++ after
  sameCmp : newTree.cmp = tree.cmp
  size : newTree.size = tree.size.map (· - 1)
  elsewhere :
    ∀ hook, hook ∉ shape.inorder → changed hook = memory hook

section Ordered

variable {κ : Type} [LinearOrder κ]
variable {memory : Memory ι} {tree : Tree ι} {shape : Shape ι} {e : ι}
variable {key : ι → κ} {domain : ι → Prop} {fuel : Nat}

/-- Erasing a stored hook keeps the tree well formed. -/
theorem erase_wellFormed
    (threeWay : ThreeWayOn tree.cmp key domain)
    (included : ∀ hook ∈ shape.inorder, domain hook)
    (wellFormed : WellFormed memory tree shape)
    (member : e ∈ shape.inorder)
    (enough : shape.height < fuel) :
    ∃ newTree changed erased,
      erase false fuel memory tree e = .ok (newTree, changed) ∧
        Erased memory tree shape e changed newTree erased := by
  obtain ⟨root, changed, erased, before, after, run, represents,
      balanced, oldSequence, newSequence, elsewhere⟩ :=
    erase_of_member wellFormed.represents wellFormed.balanced
      wellFormed.counted (wellFormed.noDuplicates threeWay included)
      member enough
  have remaining : List.Sublist erased.inorder shape.inorder := by
    rw [oldSequence, newSequence]
    exact (List.sublist_cons_self e after).append_left before
  have erasedIn : ∀ hook ∈ erased.inorder, domain hook :=
    fun hook stays => included hook (remaining.subset stays)
  refine ⟨_, changed, erased, run, ⟨represents, ?_, balanced, ?_⟩,
    ⟨before, after, oldSequence, newSequence⟩, rfl, rfl, elsewhere⟩
  · rw [threeWay.ordered_iff_sorted erasedIn]
    exact ((threeWay.ordered_iff_sorted included).mp
      wellFormed.ordered).sublist remaining
  · intro size kept
    obtain ⟨oldSize, oldKept, rfl⟩ := Option.map_eq_some_iff.mp kept
    rw [wellFormed.counted oldKept, newSequence, oldSequence]
    simp

/--
In a build without `DFK_DEBUG`, `dfk_avltree_erase` returns without following
a null pointer or failing an assertion, takes exactly `e` out and keeps the
tree well formed.  The comparison only has to order the stored hooks.
-/
theorem erasure_correct
    (threeWay : ThreeWayOn tree.cmp key (· ∈ shape.inorder))
    (wellFormed : WellFormed memory tree shape)
    (member : e ∈ shape.inorder)
    (enough : shape.height < fuel) :
    ∃ newTree changed erased,
      erase false fuel memory tree e = .ok (newTree, changed) ∧
        Erased memory tree shape e changed newTree erased :=
  erase_wellFormed threeWay (fun _ inside => inside) wellFormed member
    enough

end Ordered

/-- Erasing on the lighter side of a leaning tree. -/
theorem erasure_correct_leaning :
    ∃ newTree changed erased,
      erase false 4 leaningMemory leaningTree 1 =
        .ok (newTree, changed) ∧
      Erased leaningMemory leaningTree leaningShape 1
        changed newTree erased :=
  erasure_correct (leaning_threeWay.mono fun _ _ => trivial)
    leaning_wellFormed (by decide) (by decide)

end Dfk.AvlTree
