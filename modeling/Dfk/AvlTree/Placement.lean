import Dfk.AvlTree.Rotation

/-!
# Hanging a subtree where another one was

Both editing functions end a local change by redirecting one child pointer,
or the root pointer, to the hook that replaces the old one.
-/

namespace Dfk.AvlTree

open AvlShape AvlShape.Shape

variable {ι : Type}

/-- The value `direction` computes for the child filling a context. -/
def contextDirection : Context ι → Int
  | [] => 0
  | .inLeft _ _ _ :: _ => -1
  | .inRight _ _ _ :: _ => 1

@[simp] theorem contextDirection_inLeft
    (hook : ι) (balance : Int) (right : Shape ι) (outer : Context ι) :
    contextDirection (.inLeft hook balance right :: outer) = -1 :=
  rfl

@[simp] theorem contextDirection_inRight
    (left : Shape ι) (hook : ι) (balance : Int) (outer : Context ι) :
    contextDirection (.inRight left hook balance :: outer) = 1 :=
  rfl

/-- Redirect the pointer to the hole of a context. -/
def relink [DecidableEq ι]
    (context : Context ι) (pointer : Option ι)
    (memory : Memory ι) : Memory ι :=
  match context with
  | [] => memory
  | .inLeft hook _ _ :: _ => memory.setLeft hook pointer
  | .inRight _ hook _ :: _ => memory.setRight hook pointer

/-- Root pointer after the hole of a context got a new pointer. -/
def relinkRoot
    (context : Context ι) (root pointer : Option ι) : Option ι :=
  match context with
  | [] => pointer
  | _ :: _ => root

/-- Hooks of a filled context are distinct when both parts are apart. -/
theorem nodup_plug_iff {context : Context ι} {hole : Shape ι} :
    (context.plug hole).inorder.Nodup ↔
      (contextHooks context).Nodup ∧ hole.inorder.Nodup ∧
        ∀ hook ∈ hole.inorder, hook ∉ contextHooks context := by
  rw [Context.inorder_plug]
  simp only [contextHooks, List.nodup_append, List.mem_append]
  grind

/-- Membership in a filled context. -/
theorem mem_plug_iff
    {context : Context ι} {hole : Shape ι} {hook : ι} :
    hook ∈ (context.plug hole).inorder ↔
      hook ∈ contextHooks context ∨ hook ∈ hole.inorder := by
  rw [Context.inorder_plug]
  simp only [contextHooks, List.mem_append]
  tauto

/-- Hooks of a context that starts with a hole on the left. -/
theorem nodup_inLeft
    {hook : ι} {balance : Int} {right : Shape ι} {outer : Context ι}
    (noDuplicates :
      (contextHooks (.inLeft hook balance right :: outer)).Nodup) :
    hook ∉ right.inorder ∧ hook ∉ contextHooks outer ∧
      right.inorder.Nodup ∧ (contextHooks outer).Nodup ∧
      ∀ other ∈ right.inorder, other ∉ contextHooks outer := by
  simp only [contextHooks, Context.before, Context.after, Frame.before,
    Frame.after, List.nodup_append, List.mem_append, List.nodup_cons,
    List.cons_append, List.append_nil, List.mem_cons] at *
  grind

/-- Hooks of a context that starts with a hole on the right. -/
theorem nodup_inRight
    {hook : ι} {balance : Int} {left : Shape ι} {outer : Context ι}
    (noDuplicates :
      (contextHooks (.inRight left hook balance :: outer)).Nodup) :
    hook ∉ left.inorder ∧ hook ∉ contextHooks outer ∧
      left.inorder.Nodup ∧ (contextHooks outer).Nodup ∧
      ∀ other ∈ left.inorder, other ∉ contextHooks outer := by
  simp only [contextHooks, Context.before, Context.after, Frame.before,
    Frame.after, List.nodup_append, List.mem_append, List.nodup_cons,
    List.mem_cons, List.nil_append] at *
  grind

/-- Membership in a context that starts with a hole on the left. -/
theorem mem_inLeft_iff
    {hook other : ι} {balance : Int} {right : Shape ι}
    {outer : Context ι} :
    other ∈ contextHooks (.inLeft hook balance right :: outer) ↔
      other = hook ∨ other ∈ right.inorder ∨
        other ∈ contextHooks outer := by
  rw [RepresentsContext.mem_hooks_cons]
  simp [Frame.before, Frame.after, or_assoc]

/-- Membership in a context that starts with a hole on the right. -/
theorem mem_inRight_iff
    {hook other : ι} {balance : Int} {left : Shape ι}
    {outer : Context ι} :
    other ∈ contextHooks (.inRight left hook balance :: outer) ↔
      other = hook ∨ other ∈ left.inorder ∨
        other ∈ contextHooks outer := by
  rw [RepresentsContext.mem_hooks_cons]
  simp only [Frame.before, Frame.after, List.mem_append,
    List.mem_singleton, List.not_mem_nil]
  tauto

variable [DecidableEq ι]

/-- Redirecting the pointer to the hole writes to the innermost hook only. -/
theorem relink_of_not_mem
    {context : Context ι} {pointer : Option ι}
    {memory : Memory ι} {hook : ι}
    (outside : hook ∉ contextHooks context) :
    relink context pointer memory hook = memory hook := by
  cases context with
  | nil =>
      rfl
  | cons frame outer =>
      cases frame with
      | inLeft other balance right =>
          rw [mem_inLeft_iff] at outside
          simp [relink, show hook ≠ other by tauto]
      | inRight left other balance =>
          rw [mem_inRight_iff] at outside
          simp [relink, show hook ≠ other by tauto]

/-- A redirected context has the new pointer to its hole. -/
theorem RepresentsContext.relink
    {memory : Memory ι} {root pointer parent newPointer : Option ι}
    {context : Context ι}
    (represents : RepresentsContext memory root pointer parent context)
    (noDuplicates : (contextHooks context).Nodup) :
    RepresentsContext (relink context newPointer memory)
      (relinkRoot context root newPointer) newPointer parent context := by
  cases context with
  | nil =>
      exact ⟨rfl, represents.2⟩
  | cons frame outer =>
      cases frame with
      | inLeft hook balance right =>
          obtain ⟨rfl, -, balanceEq, rightRep, outerRep⟩ := represents
          obtain ⟨notRight, notOuter, -⟩ := nodup_inLeft noDuplicates
          refine ⟨rfl, by simp [AvlTree.relink],
            by simpa [AvlTree.relink] using balanceEq, ?_, ?_⟩
          · simp only [AvlTree.relink, Memory.setLeft_apply, if_true]
            refine rightRep.frame fun other member => ?_
            have : other ≠ hook := fun same => notRight (same ▸ member)
            simp [this]
          · simp only [AvlTree.relink, Memory.setLeft_apply, if_true]
            refine outerRep.frame fun other member => ?_
            have : other ≠ hook := fun same => notOuter (same ▸ member)
            simp [this]
      | inRight left hook balance =>
          obtain ⟨rfl, -, balanceEq, leftRep, outerRep⟩ := represents
          obtain ⟨notLeft, notOuter, -⟩ := nodup_inRight noDuplicates
          refine ⟨rfl, by simp [AvlTree.relink],
            by simpa [AvlTree.relink] using balanceEq, ?_, ?_⟩
          · simp only [AvlTree.relink, Memory.setRight_apply, if_true]
            refine leftRep.frame fun other member => ?_
            have : other ≠ hook := fun same => notLeft (same ▸ member)
            simp [this]
          · simp only [AvlTree.relink, Memory.setRight_apply, if_true]
            refine outerRep.frame fun other member => ?_
            have : other ≠ hook := fun same => notOuter (same ▸ member)
            simp [this]

/-- The side of its parent a hook hangs on is the side of the hole. -/
theorem direction_eq
    {memory : Memory ι} {root parent : Option ι} {child : ι}
    {context : Context ι}
    (represents :
      RepresentsContext memory root (some child) parent context)
    (outside : child ∉ contextHooks context) :
    direction memory parent child = contextDirection context := by
  cases context with
  | nil =>
      simp [direction, contextDirection, represents.2]
  | cons frame outer =>
      cases frame with
      | inLeft hook balance right =>
          obtain ⟨rfl, leftEq, -⟩ := represents
          simp [direction, contextDirection, leftEq]
      | inRight left hook balance =>
          obtain ⟨rfl, -, -, leftRep, -⟩ := represents
          rw [mem_inRight_iff] at outside
          have notLeft := leftRep.pointer_ne child (by tauto)
          simp [direction, contextDirection, notLeft]

/-- `promotePrime` hangs its argument at the hole of the context. -/
theorem promotePrime_eq
    {memory : Memory ι} {tree : Tree ι} {pointer parent : Option ι}
    {context : Context ι}
    (represents : RepresentsContext memory tree.root pointer parent context)
    (prime : ι) :
    promotePrime (contextDirection context) prime parent tree memory =
      .ok ({ tree with
          root := relinkRoot context tree.root (some prime) },
        (relink context (some prime) memory).setParent prime parent) := by
  cases context with
  | nil =>
      simp [promotePrime, contextDirection, relink, relinkRoot,
        represents.2]
  | cons frame outer =>
      cases frame with
      | inLeft hook balance right =>
          obtain ⟨rfl, -⟩ := represents
          simp [promotePrime, contextDirection, relink, relinkRoot]
      | inRight left hook balance =>
          obtain ⟨rfl, -⟩ := represents
          simp [promotePrime, contextDirection, relink, relinkRoot]

/-- `eraseReplace` hangs its last argument where `e` was. -/
theorem eraseReplace_eq
    {memory : Memory ι} {tree : Tree ι} {e : ι}
    {context : Context ι}
    (represents : RepresentsContext memory tree.root (some e)
      (memory e).parent context)
    (outside : e ∉ contextHooks context)
    (newe : Option ι) :
    eraseReplace memory tree e newe =
      ({ tree with root := relinkRoot context tree.root newe },
        (relink context newe memory).setParentOf newe
          (memory e).parent) := by
  cases context with
  | nil =>
      simp [eraseReplace, relink, relinkRoot, represents.2]
  | cons frame outer =>
      cases frame with
      | inLeft hook balance right =>
          rw [mem_inLeft_iff] at outside
          obtain ⟨parentEq, leftEq, -⟩ := represents
          have notHook : e ≠ hook := by tauto
          simp [eraseReplace, relink, relinkRoot, parentEq, leftEq,
            notHook]
      | inRight left hook balance =>
          rw [mem_inRight_iff] at outside
          obtain ⟨parentEq, -, -, leftRep, -⟩ := represents
          have notHook : e ≠ hook := by tauto
          have notLeft := leftRep.pointer_ne e (by tauto)
          simp [eraseReplace, relink, relinkRoot, parentEq, notLeft,
            notHook]

/-- A subtree hung at the hole of a context fills it. -/
theorem represents_plug_of_relink
    {memory : Memory ι} {root pointer parent oldParent newPointer : Option ι}
    {context : Context ι} {hole : Shape ι}
    (contextRep : RepresentsContext memory root pointer parent context)
    (holeRep : Represents memory newPointer oldParent hole)
    (noDuplicates : (context.plug hole).inorder.Nodup) :
    Represents
      ((relink context newPointer memory).setParentOf newPointer parent)
      (relinkRoot context root newPointer) none (context.plug hole) := by
  obtain ⟨contextNodup, holeNodup, apart⟩ :=
    nodup_plug_iff.mp noDuplicates
  refine RepresentsContext.plug_iff.mpr
    ⟨newPointer, parent, ?_, ?_⟩
  · refine (contextRep.relink contextNodup).frame fun hook member => ?_
    have notRoot := holeRep.pointer_ne hook
      fun inHole => apart hook inHole member
    simp [notRoot]
  · refine holeRep.reparent holeNodup ?_ ?_
    · rintro hook rfl
      have outside := apart hook
        (mem_inorder_of_root holeRep.pointer_eq.symm)
      simp [relink_of_not_mem outside]
    · intro hook member notRoot
      simp [notRoot, relink_of_not_mem (apart hook member)]

/-- Promoting the root of a rotated subtree fills the context with it. -/
theorem promotePrime_represents
    {memory rotated : Memory ι} {tree : Tree ι}
    {pointer parent newParent : Option ι} {x : ι}
    {context : Context ι} {before after : Shape ι}
    (contextRep :
      RepresentsContext memory tree.root pointer parent context)
    (noDuplicates : (context.plug before).inorder.Nodup)
    (sameLabels : after.inorder = before.inorder)
    (represents : Represents rotated (some x) newParent after)
    (elsewhere :
      ∀ hook, hook ∉ before.inorder → rotated hook = memory hook) :
    ∃ root changed,
      promotePrime (contextDirection context) x parent tree rotated =
        .ok ({ tree with root := root }, changed) ∧
      Represents changed root none (context.plug after) ∧
      ∀ hook, hook ∉ (context.plug before).inorder →
        changed hook = memory hook := by
  obtain ⟨-, -, apart⟩ := nodup_plug_iff.mp noDuplicates
  have rotatedContext :
      RepresentsContext rotated tree.root pointer parent context :=
    contextRep.frame fun hook member =>
      elsewhere hook fun inside => apart hook inside member
  have afterNodup : (context.plug after).inorder.Nodup := by
    rw [Context.inorder_plug, sameLabels, ← Context.inorder_plug]
    exact noDuplicates
  refine ⟨relinkRoot context tree.root (some x),
    (relink context (some x) rotated).setParent x parent,
    promotePrime_eq rotatedContext x,
    represents_plug_of_relink rotatedContext represents afterNodup, ?_⟩
  intro hook outside
  rw [mem_plug_iff, not_or] at outside
  have notX : hook ≠ x := by
    rintro rfl
    refine outside.2 ?_
    rw [← sameLabels]
    exact mem_inorder_of_root represents.pointer_eq.symm
  simp only [Memory.setParent_apply, notX, if_false]
  rw [relink_of_not_mem outside.1, elsewhere hook outside.2]

end Dfk.AvlTree
