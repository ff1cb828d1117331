import Dfk.AvlTree.Source
import Dfk.Library.AvlOrder

/-!
# Hooks that represent a shape

`Represents` reads a tree off the memory, following child pointers and
checking parent pointers and balances.  `RepresentsContext` does the same for
a tree with a hole.  The frame rules say which writes leave them alone.
-/

namespace Dfk.AvlTree

open AvlShape AvlShape.Shape

variable {ι : Type}

/--
The hooks reached from `pointer` form the given shape; `parent` is the parent
pointer of its root.
-/
def Represents (memory : Memory ι) :
    Option ι → Option ι → Shape ι → Prop
  | pointer, _, leaf => pointer = none
  | pointer, parent, node left hook balance right =>
      pointer = some hook ∧
        (memory hook).parent = parent ∧
        (memory hook).bal = balance ∧
        Represents memory (memory hook).left (some hook) left ∧
        Represents memory (memory hook).right (some hook) right

/--
The hooks above a hole form the given context: `pointer` is what the hole is
reached by, `parent` the parent pointer its filling should have.
-/
def RepresentsContext (memory : Memory ι) (root : Option ι) :
    Option ι → Option ι → Context ι → Prop
  | pointer, parent, [] => pointer = root ∧ parent = none
  | pointer, parent, .inLeft hook balance right :: outer =>
      parent = some hook ∧
        (memory hook).left = pointer ∧
        (memory hook).bal = balance ∧
        Represents memory (memory hook).right (some hook) right ∧
        RepresentsContext memory root (some hook) (memory hook).parent outer
  | pointer, parent, .inRight left hook balance :: outer =>
      parent = some hook ∧
        (memory hook).right = pointer ∧
        (memory hook).bal = balance ∧
        Represents memory (memory hook).left (some hook) left ∧
        RepresentsContext memory root (some hook) (memory hook).parent outer

/-- Hooks of a context. -/
def contextHooks (context : Context ι) : List ι :=
  context.before ++ context.after

namespace Represents

/-- The pointer to a represented tree is its root. -/
theorem pointer_eq
    {memory : Memory ι} {pointer parent : Option ι} {shape : Shape ι}
    (represents : Represents memory pointer parent shape) :
    pointer = shape.root := by
  cases shape with
  | leaf =>
      exact represents
  | node left hook balance right =>
      exact represents.1

/-- The balance of a represented root is the balance of the shape. -/
theorem bal_eq
    {memory : Memory ι} {hook : ι} {parent : Option ι} {shape : Shape ι}
    (represents : Represents memory (some hook) parent shape) :
    (memory hook).bal = shape.balance := by
  cases shape with
  | leaf =>
      simp [Represents] at represents
  | node left other balance right =>
      obtain ⟨same, -, balanceEq, -⟩ := represents
      simp only [Option.some.injEq] at same
      subst same
      exact balanceEq

/-- A non-null pointer leads to a node. -/
theorem of_some
    {memory : Memory ι} {hook : ι} {parent : Option ι} {shape : Shape ι}
    (represents : Represents memory (some hook) parent shape) :
    ∃ left right,
      shape = node left hook (memory hook).bal right ∧
        (memory hook).parent = parent ∧
        Represents memory (memory hook).left (some hook) left ∧
        Represents memory (memory hook).right (some hook) right := by
  cases shape with
  | leaf =>
      simp [Represents] at represents
  | node left other balance right =>
      obtain ⟨same, parentEq, rfl, leftRep, rightRep⟩ := represents
      simp only [Option.some.injEq] at same
      subst same
      exact ⟨left, right, rfl, parentEq, leftRep, rightRep⟩

/-- A pointer to a tree is not a pointer to a hook outside of it. -/
theorem pointer_ne
    {memory : Memory ι} {pointer parent : Option ι} {shape : Shape ι}
    (represents : Represents memory pointer parent shape)
    (hook : ι)
    (outside : hook ∉ shape.inorder) :
    pointer ≠ some hook := by
  intro same
  rw [represents.pointer_eq] at same
  exact outside (mem_inorder_of_root same)

/-- A null pointer is the empty tree. -/
theorem of_none
    {memory : Memory ι} {parent : Option ι} {shape : Shape ι}
    (represents : Represents memory none parent shape) :
    shape = leaf := by
  cases shape with
  | leaf =>
      rfl
  | node left hook balance right =>
      simp [Represents] at represents

/-- Writes outside the tree leave it alone. -/
theorem frame
    {memory changed : Memory ι} {pointer parent : Option ι}
    {shape : Shape ι}
    (represents : Represents memory pointer parent shape)
    (unchanged : ∀ hook ∈ shape.inorder, changed hook = memory hook) :
    Represents changed pointer parent shape := by
  induction shape generalizing pointer parent with
  | leaf =>
      exact represents
  | node left hook balance right leftHypothesis rightHypothesis =>
      obtain ⟨pointerEq, parentEq, balanceEq, leftRep, rightRep⟩ :=
        represents
      have atHook : changed hook = memory hook :=
        unchanged hook (by simp)
      refine ⟨pointerEq, by rw [atHook, parentEq],
        by rw [atHook, balanceEq], ?_, ?_⟩
      · rw [atHook]
        exact leftHypothesis leftRep
          (fun other member => unchanged other (by simp [member]))
      · rw [atHook]
        exact rightHypothesis rightRep
          (fun other member => unchanged other (by simp [member]))

/-- Rewriting the parent pointer of the root moves the tree elsewhere. -/
theorem reparent
    {memory changed : Memory ι} {pointer parent newParent : Option ι}
    {shape : Shape ι}
    (represents : Represents memory pointer parent shape)
    (noDuplicates : shape.inorder.Nodup)
    (atRoot : ∀ hook,
      pointer = some hook →
        changed hook = { memory hook with parent := newParent })
    (unchanged : ∀ hook ∈ shape.inorder,
      pointer ≠ some hook → changed hook = memory hook) :
    Represents changed pointer newParent shape := by
  cases shape with
  | leaf =>
      exact represents
  | node left hook balance right =>
      obtain ⟨rfl, -, balanceEq, leftRep, rightRep⟩ := represents
      have rootContents := atRoot hook rfl
      simp only [inorder_node, List.nodup_append, List.nodup_cons,
        List.mem_cons] at noDuplicates
      obtain ⟨-, ⟨notRight, -⟩, disjoint⟩ := noDuplicates
      refine ⟨rfl, by rw [rootContents], by rw [rootContents, balanceEq],
        ?_, ?_⟩
      · rw [rootContents]
        refine leftRep.frame fun other member =>
          unchanged other (by simp [member]) ?_
        rintro ⟨⟩
        exact disjoint hook member hook (Or.inl rfl) rfl
      · rw [rootContents]
        refine rightRep.frame fun other member =>
          unchanged other (by simp [member]) ?_
        rintro ⟨⟩
        exact notRight member

end Represents

namespace RepresentsContext

/-- A filled context is represented exactly when both parts are. -/
theorem plug_iff
    {memory : Memory ι} {root : Option ι}
    {context : Context ι} {hole : Shape ι} :
    Represents memory root none (context.plug hole) ↔
      ∃ pointer parent,
        RepresentsContext memory root pointer parent context ∧
          Represents memory pointer parent hole := by
  induction context generalizing hole with
  | nil =>
      constructor
      · intro represents
        exact ⟨root, none, ⟨rfl, rfl⟩, represents⟩
      · rintro ⟨pointer, parent, ⟨rfl, rfl⟩, represents⟩
        exact represents
  | cons frame outer inductionHypothesis =>
      rw [Context.plug_cons, inductionHypothesis]
      cases frame with
      | inLeft hook balance right =>
          constructor
          · rintro ⟨pointer, parent, outerRep,
              rfl, rfl, rfl, holeRep, rightRep⟩
            exact ⟨_, _, ⟨rfl, rfl, rfl, rightRep, outerRep⟩, holeRep⟩
          · rintro ⟨pointer, parent,
              ⟨rfl, rfl, rfl, rightRep, outerRep⟩, holeRep⟩
            exact ⟨_, _, outerRep, rfl, rfl, rfl, holeRep, rightRep⟩
      | inRight left hook balance =>
          constructor
          · rintro ⟨pointer, parent, outerRep,
              rfl, rfl, rfl, leftRep, holeRep⟩
            exact ⟨_, _, ⟨rfl, rfl, rfl, leftRep, outerRep⟩, holeRep⟩
          · rintro ⟨pointer, parent,
              ⟨rfl, rfl, rfl, leftRep, outerRep⟩, holeRep⟩
            exact ⟨_, _, outerRep, rfl, rfl, rfl, leftRep, holeRep⟩

/-- The parent pointer of a hole is the innermost hook of its context. -/
theorem parent_eq
    {memory : Memory ι} {root pointer parent : Option ι}
    {context : Context ι}
    (represents : RepresentsContext memory root pointer parent context) :
    parent = context.head?.map Frame.label := by
  cases context with
  | nil =>
      exact represents.2
  | cons frame outer =>
      cases frame <;> exact represents.1

/-- Hooks of a context, its innermost frame taken apart. -/
theorem mem_hooks_cons
    {frame : Frame ι} {outer : Context ι} {hook : ι} :
    hook ∈ contextHooks (frame :: outer) ↔
      hook ∈ frame.before ∨ hook ∈ frame.after ∨
        hook ∈ contextHooks outer := by
  simp only [contextHooks, Context.before, Context.after,
    List.mem_append]
  tauto

/-- Writes outside the context leave it alone. -/
theorem frame
    {memory changed : Memory ι} {root pointer parent : Option ι}
    {context : Context ι}
    (represents : RepresentsContext memory root pointer parent context)
    (unchanged : ∀ hook ∈ contextHooks context,
      changed hook = memory hook) :
    RepresentsContext changed root pointer parent context := by
  induction context generalizing pointer parent with
  | nil =>
      exact represents
  | cons frame outer inductionHypothesis =>
      have outerUnchanged : ∀ hook ∈ contextHooks outer,
          changed hook = memory hook :=
        fun hook member => unchanged hook
          (mem_hooks_cons.mpr (Or.inr (Or.inr member)))
      cases frame with
      | inLeft hook balance right =>
          obtain ⟨parentEq, leftEq, balanceEq, rightRep, outerRep⟩ :=
            represents
          have atHook : changed hook = memory hook :=
            unchanged hook (mem_hooks_cons.mpr (by simp [Frame.after]))
          refine ⟨parentEq, by rw [atHook, leftEq],
            by rw [atHook, balanceEq], ?_, ?_⟩
          · rw [atHook]
            exact rightRep.frame fun other member => unchanged other
              (mem_hooks_cons.mpr (by simp [Frame.after, member]))
          · rw [atHook]
            exact inductionHypothesis outerRep outerUnchanged
      | inRight left hook balance =>
          obtain ⟨parentEq, rightEq, balanceEq, leftRep, outerRep⟩ :=
            represents
          have atHook : changed hook = memory hook :=
            unchanged hook (mem_hooks_cons.mpr (by simp [Frame.before]))
          refine ⟨parentEq, by rw [atHook, rightEq],
            by rw [atHook, balanceEq], ?_, ?_⟩
          · rw [atHook]
            exact leftRep.frame fun other member => unchanged other
              (mem_hooks_cons.mpr (by simp [Frame.before, member]))
          · rw [atHook]
            exact inductionHypothesis outerRep outerUnchanged

end RepresentsContext

end Dfk.AvlTree
