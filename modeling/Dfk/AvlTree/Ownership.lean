import Dfk.AvlTree.Insert
import Dfk.Library.Runs

/-!
# The back-pointer of debug builds

`dfk_avltree_erase` asserts that a hook points back to its tree and resets the
pointer, but nothing ever sets it.  Whatever is done with any number of trees,
the pointer of a hook that has been initialised is `NULL`.
-/

namespace Dfk.AvlTree

open AvlShape AvlShape.Shape
open Runs

variable {ι : Type} [DecidableEq ι]

/-! ## Writes that leave back-pointers alone -/

/-- No back-pointer is changed. -/
def KeepsTrees (before after : Memory ι) : Prop :=
  ∀ hook, (after hook).tree = (before hook).tree

omit [DecidableEq ι] in
theorem KeepsTrees.refl (memory : Memory ι) : KeepsTrees memory memory :=
  fun _ => rfl

omit [DecidableEq ι] in
theorem KeepsTrees.trans
    {first second third : Memory ι}
    (before : KeepsTrees first second) (after : KeepsTrees second third) :
    KeepsTrees first third :=
  fun hook => (after hook).trans (before hook)

section Writes

variable {memory : Memory ι} {hook query : ι}

/-- A write to a field that is not the back-pointer. -/
theorem modify_tree
    {change : Hook ι → Hook ι}
    (keeps : ∀ contents, (change contents).tree = contents.tree) :
    ((memory.modify hook change) query).tree = (memory query).tree := by
  rw [Memory.modify]
  split
  · next same => rw [keeps, same]
  · rfl

theorem setLeft_tree {pointer : Option ι} :
    ((memory.setLeft hook pointer) query).tree = (memory query).tree :=
  modify_tree fun _ => rfl

theorem setRight_tree {pointer : Option ι} :
    ((memory.setRight hook pointer) query).tree = (memory query).tree :=
  modify_tree fun _ => rfl

theorem setParent_tree {pointer : Option ι} :
    ((memory.setParent hook pointer) query).tree = (memory query).tree :=
  modify_tree fun _ => rfl

theorem setBal_tree {balance : Int} :
    ((memory.setBal hook balance) query).tree = (memory query).tree :=
  modify_tree fun _ => rfl

theorem setParentOf_tree {child pointer : Option ι} :
    ((memory.setParentOf child pointer) query).tree = (memory query).tree := by
  cases child with
  | none => rfl
  | some hook => exact setParent_tree

end Writes

section Insertion

variable {memory after : Memory ι} {tree newTree : Tree ι}
variable {prime newPrime e i : ι} {fuel : Nat}

theorem singleRot_keepsTrees
    (rotates : singleRot memory prime = .ok (newPrime, after)) :
    KeepsTrees memory after := by
  intro hook
  rw [singleRot] at rotates
  split at rotates
  · obtain ⟨-, -, rotates⟩ := of_bind rotates
    obtain ⟨x, -, rotates⟩ := of_bind rotates
    obtain ⟨-, -, rotates⟩ := of_bind rotates
    cases rotates
    simp only [setLeft_tree, setRight_tree, setParent_tree, setBal_tree,
      setParentOf_tree]
  · obtain ⟨-, -, rotates⟩ := of_bind rotates
    obtain ⟨-, -, rotates⟩ := of_bind rotates
    obtain ⟨x, -, rotates⟩ := of_bind rotates
    obtain ⟨-, -, rotates⟩ := of_bind rotates
    cases rotates
    simp only [setLeft_tree, setRight_tree, setParent_tree, setBal_tree,
      setParentOf_tree]

theorem doubleRot_keepsTrees
    (rotates : doubleRot memory prime = .ok (newPrime, after)) :
    KeepsTrees memory after := by
  intro hook
  rw [doubleRot] at rotates
  split at rotates
  · obtain ⟨b, -, rotates⟩ := of_bind rotates
    obtain ⟨x, -, rotates⟩ := of_bind rotates
    cases rotates
    simp only [setLeft_tree, setRight_tree, setParent_tree, setBal_tree,
      setParentOf_tree]
  · obtain ⟨b, -, rotates⟩ := of_bind rotates
    obtain ⟨x, -, rotates⟩ := of_bind rotates
    cases rotates
    simp only [setLeft_tree, setRight_tree, setParent_tree, setBal_tree,
      setParentOf_tree]

theorem promotePrime_keepsTrees
    {direction : Int} {parent : Option ι}
    (promotes :
      promotePrime direction prime parent tree memory = .ok (newTree, after)) :
    KeepsTrees memory after := by
  intro hook
  rw [promotePrime] at promotes
  split at promotes
  · cases promotes
    rw [setParent_tree]
  · split at promotes
    · obtain ⟨parent, -, promotes⟩ := of_bind promotes
      cases promotes
      rw [setParent_tree, setRight_tree]
    · obtain ⟨-, -, promotes⟩ := of_bind promotes
      obtain ⟨parent, -, promotes⟩ := of_bind promotes
      cases promotes
      rw [setParent_tree, setLeft_tree]

theorem insertDescend_keepsTrees
    {cmp : ι → ι → Int} {lowest last : Prime ι}
    (descends :
      insertDescend cmp e fuel memory i lowest = .ok (some (last, after))) :
    KeepsTrees memory after := by
  induction fuel generalizing i lowest with
  | zero => cases descends
  | succ fuel inductionHypothesis =>
      rw [insertDescend] at descends
      split at descends
      · split at descends
        · exact inductionHypothesis descends
        · cases descends
          intro hook
          rw [setParent_tree, setLeft_tree]
      · split at descends
        · split at descends
          · exact inductionHypothesis descends
          · cases descends
            intro hook
            rw [setParent_tree, setRight_tree]
        · cases descends

theorem insertAdjust_keepsTrees
    {cmp : ι → ι → Int} {pointer : Option ι}
    (adjusts : insertAdjust cmp e fuel memory pointer = .ok after) :
    KeepsTrees memory after := by
  induction fuel generalizing memory pointer with
  | zero => cases adjusts
  | succ fuel inductionHypothesis =>
      rw [insertAdjust] at adjusts
      split at adjusts
      · cases adjusts
        exact KeepsTrees.refl _
      · obtain ⟨i, -, adjusts⟩ := of_bind adjusts
        split at adjusts
        · intro hook
          rw [inductionHypothesis adjusts hook, setBal_tree]
        · obtain ⟨-, -, adjusts⟩ := of_bind adjusts
          intro hook
          rw [inductionHypothesis adjusts hook, setBal_tree]

theorem insertRotate_keepsTrees
    (rotates : insertRotate memory prime = .ok (some (newPrime, after))) :
    KeepsTrees memory after := by
  rw [insertRotate] at rotates
  split at rotates
  · obtain ⟨right, -, rotates⟩ := of_bind rotates
    split at rotates
    · obtain ⟨⟨x, changed⟩, rotation, rotates⟩ := of_bind rotates
      cases rotates
      exact doubleRot_keepsTrees rotation
    · obtain ⟨-, -, rotates⟩ := of_bind rotates
      obtain ⟨⟨x, changed⟩, rotation, rotates⟩ := of_bind rotates
      cases rotates
      exact singleRot_keepsTrees rotation
  · split at rotates
    · obtain ⟨left, -, rotates⟩ := of_bind rotates
      split at rotates
      · obtain ⟨⟨x, changed⟩, rotation, rotates⟩ := of_bind rotates
        cases rotates
        exact doubleRot_keepsTrees rotation
      · obtain ⟨-, -, rotates⟩ := of_bind rotates
        obtain ⟨⟨x, changed⟩, rotation, rotates⟩ := of_bind rotates
        cases rotates
        exact singleRot_keepsTrees rotation
    · cases rotates

/-- `dfk_avltree_insert` writes no back-pointer. -/
theorem insert_keepsTrees
    {returned : Option ι}
    (inserts :
      insert fuel memory tree e = .ok (returned, newTree, after)) :
    KeepsTrees memory after := by
  rw [insert] at inserts
  obtain ⟨-, -, inserts⟩ := of_bind inserts
  obtain ⟨-, -, inserts⟩ := of_bind inserts
  obtain ⟨-, -, inserts⟩ := of_bind inserts
  obtain ⟨-, -, inserts⟩ := of_bind inserts
  obtain ⟨-, -, inserts⟩ := of_bind inserts
  split at inserts
  · cases inserts
    exact KeepsTrees.refl _
  · obtain ⟨descended, descends, inserts⟩ := of_bind inserts
    split at inserts
    · cases inserts
      exact KeepsTrees.refl _
    · next lowest linked =>
        obtain ⟨adjusted, adjusts, inserts⟩ := of_bind inserts
        obtain ⟨rotated, rotates, inserts⟩ := of_bind inserts
        obtain ⟨⟨promotedTree, promoted⟩, promotes, inserts⟩ := of_bind inserts
        obtain ⟨-, -, inserts⟩ := of_bind inserts
        cases inserts
        have before :=
          (insertDescend_keepsTrees descends).trans
            (insertAdjust_keepsTrees adjusts)
        cases rotated with
        | none =>
            cases promotes
            exact before
        | some rotation =>
            obtain ⟨newPrime, turned⟩ := rotation
            exact before.trans
              ((insertRotate_keepsTrees rotates).trans
                (promotePrime_keepsTrees promotes))

end Insertion

section Erasure

variable {memory after : Memory ι} {tree newTree : Tree ι}
variable {prime e : ι} {fuel : Nat}

theorem eraseDetach_keepsTrees
    {detached : Detached ι}
    (detaches : eraseDetach fuel memory e = .ok detached) :
    KeepsTrees memory detached.memory := by
  intro hook
  rw [eraseDetach] at detaches
  split at detaches
  · cases detaches
    rfl
  · split at detaches
    · cases detaches
      simp only [setLeft_tree, setBal_tree, setParentOf_tree]
    · obtain ⟨-, -, detaches⟩ := of_bind detaches
      obtain ⟨x, -, detaches⟩ := of_bind detaches
      obtain ⟨y, -, detaches⟩ := of_bind detaches
      obtain ⟨-, -, detaches⟩ := of_bind detaches
      obtain ⟨a, -, detaches⟩ := of_bind detaches
      cases detaches
      simp only [setLeft_tree, setRight_tree, setParent_tree, setBal_tree,
        setParentOf_tree]

theorem eraseReplace_keepsTrees {newe : Option ι} :
    KeepsTrees memory (eraseReplace memory tree e newe).2 := by
  intro hook
  rw [eraseReplace]
  cases (memory e).parent with
  | none =>
      exact setParentOf_tree
  | some parent =>
      by_cases side : (memory parent).left = some e
      · simp only [side, ↓reduceIte]
        rw [setParentOf_tree, setLeft_tree]
      · simp only [side, ↓reduceIte]
        rw [setParentOf_tree, setRight_tree]

theorem eraseStep_keepsTrees
    {eraseDirection : Int} {next : Option ι}
    (steps :
      eraseStep memory tree prime eraseDirection = .ok (next, newTree, after)) :
    KeepsTrees memory after := by
  intro hook
  rw [eraseStep] at steps
  split at steps
  · dsimp only at steps
    split at steps
    · cases steps
      exact setBal_tree
    · split at steps
      · obtain ⟨right, -, steps⟩ := of_bind steps
        obtain ⟨⟨newPrime, rotated⟩, rotates, steps⟩ := of_bind steps
        obtain ⟨⟨promotedTree, promoted⟩, promotes, steps⟩ := of_bind steps
        cases steps
        rw [promotePrime_keepsTrees promotes hook]
        split at rotates
        · rw [doubleRot_keepsTrees rotates hook, setBal_tree]
        · rw [singleRot_keepsTrees rotates hook, setBal_tree]
      · cases steps
        exact setBal_tree
  · obtain ⟨-, -, steps⟩ := of_bind steps
    dsimp only at steps
    split at steps
    · cases steps
      exact setBal_tree
    · split at steps
      · obtain ⟨left, -, steps⟩ := of_bind steps
        obtain ⟨⟨newPrime, rotated⟩, rotates, steps⟩ := of_bind steps
        obtain ⟨⟨promotedTree, promoted⟩, promotes, steps⟩ := of_bind steps
        cases steps
        rw [promotePrime_keepsTrees promotes hook]
        split at rotates
        · rw [doubleRot_keepsTrees rotates hook, setBal_tree]
        · rw [singleRot_keepsTrees rotates hook, setBal_tree]
      · cases steps
        exact setBal_tree

theorem eraseRebalance_keepsTrees
    {pointer : Option ι} {eraseDirection : Int}
    (rebalances :
      eraseRebalance fuel memory tree pointer eraseDirection =
        .ok (newTree, after)) :
    KeepsTrees memory after := by
  induction fuel generalizing memory tree pointer eraseDirection with
  | zero => cases rebalances
  | succ fuel inductionHypothesis =>
      cases pointer with
      | none =>
          cases rebalances
          exact KeepsTrees.refl _
      | some prime =>
          rw [eraseRebalance] at rebalances
          obtain ⟨⟨next, steppedTree, stepped⟩, steps, rebalances⟩ :=
            of_bind rebalances
          cases next with
          | none =>
              cases rebalances
              exact eraseStep_keepsTrees steps
          | some above =>
              exact (eraseStep_keepsTrees steps).trans
                (inductionHypothesis rebalances)

/-- `dfk_avltree_erase` of a debug build resets the pointer of its hook only. -/
theorem erase_tree
    (erases : erase true fuel memory tree e = .ok (newTree, after)) (hook : ι) :
    (after hook).tree = if hook = e then none else (memory hook).tree := by
  rw [erase] at erases
  obtain ⟨-, -, erases⟩ := of_bind erases
  obtain ⟨-, -, erases⟩ := of_bind erases
  obtain ⟨-, -, erases⟩ := of_bind erases
  obtain ⟨detached, detaches, erases⟩ := of_bind erases
  obtain ⟨⟨rebalancedTree, rebalanced⟩, rebalances, erases⟩ := of_bind erases
  obtain ⟨-, -, erases⟩ := of_bind erases
  cases erases
  have kept : (rebalanced hook).tree = (memory hook).tree :=
    (eraseDetach_keepsTrees detaches).trans
      (eraseReplace_keepsTrees.trans
        (eraseRebalance_keepsTrees rebalances)) hook
  by_cases same : hook = e
  · subst same
    rw [if_pos rfl, if_pos rfl, Memory.setTree, Memory.modify, if_pos rfl]
  · rw [if_pos rfl, if_neg same, Memory.setTree, Memory.modify, if_neg same, kept]

/-- Nothing is erased through a hook that points back to no tree. -/
theorem erase_refused
    (unowned : (memory e).tree = none) :
    ∃ fault, erase true fuel memory tree e = .error fault := by
  cases erases : erase true fuel memory tree e with
  | error fault =>
      exact ⟨fault, rfl⟩
  | ok erased =>
      rw [erase] at erases
      obtain ⟨-, -, erases⟩ := of_bind erases
      obtain ⟨-, -, erases⟩ := of_bind erases
      obtain ⟨passed, owned, erases⟩ := of_bind erases
      rcases of_check owned with release | back
      · cases release
      · rw [unowned] at back
        cases back

end Erasure

/-! ## Any number of trees -/

/--
Hooks, the trees at their addresses, and the hooks that have been given to
`dfk_avltree_hook_init`.
-/
structure Forest (ι : Type) where
  memory : Memory ι
  trees : Nat → Tree ι
  initialised : List ι

/-- What is called with a hook; a tree is given by its address. -/
inductive Change (ι : Type) where
  | hookInit (hook : ι)
  | insert (address : Nat) (hook : ι)
  | erase (address : Nat) (hook : ι)
  deriving Repr, DecidableEq

/-- Whether the call is one of `dfk_avltree_insert`. -/
def Change.inserts : Change ι → Bool
  | .insert _ _ => true
  | _ => false

namespace Forest

/-- Trees straight from `dfk_avltree_init`, and hooks that hold anything. -/
def fresh
    (memory : Memory ι) (constantTimeSize : Bool)
    (cmp : Nat → ι → ι → Int) : Forest ι where
  memory := memory
  trees := fun address => init address constantTimeSize (cmp address)
  initialised := []

/-- The hook is stored in the tree at the address. -/
def Stores (forest : Forest ι) (address : Nat) (hook : ι) : Prop :=
  ∃ shape : Shape ι,
    Represents forest.memory (forest.trees address).root none shape ∧
      hook ∈ shape.inorder

/-- Put the outcome of a call back. -/
def update
    (forest : Forest ι) (address : Nat) (tree : Tree ι)
    (memory : Memory ι) : Forest ι :=
  { forest with
    memory := memory
    trees := fun query => if query = address then tree else forest.trees query }

/-- The calls of a debug build. -/
def perform (fuel : Nat) (forest : Forest ι) :
    Change ι → Except Fault (Forest ι)
  | .hookInit hook =>
      .ok { forest with
        memory := hookInit true forest.memory hook
        initialised := hook :: forest.initialised }
  | .insert address hook => do
      let (_, tree, memory) ←
        insert fuel forest.memory (forest.trees address) hook
      pure (forest.update address tree memory)
  | .erase address hook => do
      let (tree, memory) ←
        erase true fuel forest.memory (forest.trees address) hook
      pure (forest.update address tree memory)

/-- What a caller may ask for: stored hooks are erased, others inserted. -/
def Allowed (forest : Forest ι) : Change ι → Prop
  | .hookInit hook => ∀ address, ¬ forest.Stores address hook
  | .insert _ hook =>
      hook ∈ forest.initialised ∧ ∀ address, ¬ forest.Stores address hook
  | .erase address hook => forest.Stores address hook

/-- A call that is allowed and returns. -/
def Changes (forest : Forest ι) (change : Change ι) (next : Forest ι) : Prop :=
  forest.Allowed change ∧ ∃ fuel, forest.perform fuel change = .ok next

/-- A hook points back to the tree it is stored in, or to none without one. -/
def Owned (forest : Forest ι) : Prop :=
  ∀ hook, hook ∈ forest.initialised →
    (∀ address, forest.Stores address hook →
      (forest.memory hook).tree = some address) ∧
    ((∀ address, ¬ forest.Stores address hook) →
      (forest.memory hook).tree = none)

/-- No hook points back to a tree. -/
def Unowned (forest : Forest ι) : Prop :=
  ∀ hook, hook ∈ forest.initialised → (forest.memory hook).tree = none

variable {forest next : Forest ι} {change : Change ι} {address : Nat} {hook : ι}

/-- Calls only ever reset a back-pointer. -/
theorem Unowned.preserved
    {fuel : Nat}
    (unowned : forest.Unowned)
    (performs : forest.perform fuel change = .ok next) :
    next.Unowned := by
  intro query known
  cases change with
  | hookInit hook =>
      cases performs
      by_cases same : query = hook
      · subst same
        exact congrArg Hook.tree (if_pos rfl)
      · rcases List.mem_cons.mp known with isHook | before
        · exact absurd isHook same
        · exact (congrArg Hook.tree (if_neg same)).trans (unowned query before)
  | insert address hook =>
      obtain ⟨⟨returned, tree, memory⟩, inserts, done⟩ := of_bind performs
      cases done
      exact (insert_keepsTrees inserts query).trans (unowned query known)
  | erase address hook =>
      obtain ⟨⟨tree, memory⟩, erases, done⟩ := of_bind performs
      cases done
      have cleared := erase_tree erases query
      rw [unowned query known, ite_self] at cleared
      exact cleared

/-- Whatever is done with the trees, no hook ever points back to one. -/
theorem unowned_run
    {memory : Memory ι} {constantTimeSize : Bool} {cmp : Nat → ι → ι → Int}
    {changes : List (Change ι)}
    (run : Run Changes (fresh memory constantTimeSize cmp) changes forest) :
    forest.Unowned := by
  apply run.invariant
  · intro hook known
    cases known
  · intro state change next _ unowned changes
    obtain ⟨-, fuel, performs⟩ := changes
    exact unowned.preserved performs

/-- So nothing that has been initialised can ever be erased. -/
theorem erase_refused_run
    {memory : Memory ι} {constantTimeSize : Bool} {cmp : Nat → ι → ι → Int}
    {changes : List (Change ι)} {fuel : Nat}
    (run : Run Changes (fresh memory constantTimeSize cmp) changes forest)
    (known : hook ∈ forest.initialised) :
    ∃ fault, forest.perform fuel (.erase address hook) = .error fault := by
  have refused :
      ∃ fault,
        erase true fuel forest.memory (forest.trees address) hook =
          .error fault :=
    erase_refused (unowned_run run hook known)
  obtain ⟨fault, refused⟩ := refused
  exact ⟨fault, congrArg (· >>= _) refused⟩

/-- Nothing is ever put into the trees, and no hook points back to one. -/
structure Bare (forest : Forest ι) : Prop where
  empty : ∀ address, (forest.trees address).root = none
  unowned : forest.Unowned

omit [DecidableEq ι] in
theorem Bare.fresh
    {memory : Memory ι} {constantTimeSize : Bool} {cmp : Nat → ι → ι → Int} :
    (fresh memory constantTimeSize cmp).Bare where
  empty := fun _ => rfl
  unowned := by
    intro hook known
    cases known

omit [DecidableEq ι] in
theorem Bare.not_stores (bare : forest.Bare) : ¬ forest.Stores address hook := by
  intro stores
  obtain ⟨shape, represents, member⟩ := stores
  rw [bare.empty] at represents
  rw [represents.of_none] at member
  cases member

omit [DecidableEq ι] in
theorem Bare.owned (bare : forest.Bare) : forest.Owned := by
  intro hook known
  constructor
  · intro address stores
    exact absurd stores bare.not_stores
  · intro _
    exact bare.unowned hook known

/-- Only an insertion puts anything into the trees. -/
theorem Bare.preserved
    (bare : forest.Bare)
    (changes : forest.Changes change next)
    (kept : change.inserts = false) :
    next.Bare := by
  obtain ⟨allowed, fuel, performs⟩ := changes
  cases change with
  | hookInit hook =>
      have unowned := bare.unowned.preserved performs
      cases performs
      exact ⟨bare.empty, unowned⟩
  | insert address hook =>
      cases kept
  | erase address hook =>
      exact absurd allowed bare.not_stores

/-- A hook inserted into an empty tree is stored there. -/
theorem stores_inserted
    {fuel : Nat} {returned : Option ι} {tree : Tree ι} {memory : Memory ι}
    (bare : forest.Bare)
    (inserts :
      insert fuel forest.memory (forest.trees address) hook =
        .ok (returned, tree, memory)) :
    (forest.update address tree memory).Stores address hook := by
  rw [insert] at inserts
  obtain ⟨-, -, inserts⟩ := of_bind inserts
  obtain ⟨checkedLeft, left, inserts⟩ := of_bind inserts
  obtain ⟨checkedRight, right, inserts⟩ := of_bind inserts
  obtain ⟨checkedParent, parent, inserts⟩ := of_bind inserts
  obtain ⟨checkedBal, bal, inserts⟩ := of_bind inserts
  rw [bare.empty] at inserts
  cases inserts
  refine ⟨node leaf hook 0 leaf, ?_, List.mem_singleton_self hook⟩
  rw [update]
  simp only [↓reduceIte]
  have atLeft := of_check left
  have atRight := of_check right
  exact ⟨rfl, of_check parent, of_check bal, atLeft, atRight⟩

/-- The first insertion stores a hook that does not point back. -/
theorem Bare.not_owned
    (bare : forest.Bare)
    (changes : forest.Changes change next)
    (inserted : change.inserts = true) :
    ¬ next.Owned := by
  intro owned
  obtain ⟨allowed, fuel, performs⟩ := changes
  cases change with
  | hookInit hook =>
      cases inserted
  | erase address hook =>
      cases inserted
  | insert address hook =>
      have unowned := bare.unowned.preserved performs
      obtain ⟨⟨returned, tree, memory⟩, inserts, done⟩ := of_bind performs
      cases done
      have back :=
        (owned hook allowed.1).1 address (stores_inserted bare inserts)
      rw [unowned hook allowed.1] at back
      cases back

/--
The back-pointer is right for as long as nothing is inserted, and wrong from
the first insertion on.
-/
theorem owned_iff_nothing_inserted
    (memory : Memory ι) (constantTimeSize : Bool) (cmp : Nat → ι → ι → Int)
    (changes : List (Change ι)) (forest : Forest ι) :
    (fresh memory constantTimeSize cmp).Owned ∧
      (Run (fun before change after =>
          Changes before change after ∧ after.Owned)
          (fresh memory constantTimeSize cmp) changes forest ↔
        Run (fun before change after =>
          Changes before change after ∧ change.inserts = false)
          (fresh memory constantTimeSize cmp) changes forest) := by
  have bare : (fresh memory constantTimeSize cmp).Bare := Bare.fresh
  apply And.intro bare.owned
  constructor
  · intro run
    apply (run.transfer bare _).1
    intro before change after bareBefore step
    obtain ⟨changes, owned⟩ := step
    have kept : change.inserts = false := by
      cases inserted : change.inserts with
      | false => rfl
      | true => exact absurd owned (bareBefore.not_owned changes inserted)
    exact ⟨⟨changes, kept⟩, bareBefore.preserved changes kept⟩
  · intro run
    apply (run.transfer bare _).1
    intro before change after bareBefore step
    obtain ⟨changes, kept⟩ := step
    have bareAfter := bareBefore.preserved changes kept
    exact ⟨⟨changes, bareAfter.owned⟩, bareAfter⟩

/-- Trees of numbers, before anything is done with them. -/
def numbers : Forest Nat :=
  fresh (fun _ => ⟨none, none, none, 0, none⟩) true
    fun _ first second => second - first

/-- A hook has been initialised. -/
def initialisedOnce : Forest Nat :=
  { numbers with
    memory := hookInit true numbers.memory 0
    initialised := [0] }

/-- The hook has been inserted into the first tree. -/
def insertedOnce : Forest Nat :=
  initialisedOnce.update 0
    { initialisedOnce.trees 0 with root := some 0, size := some 1 }
    initialisedOnce.memory

/-- A hook that has been inserted has no back-pointer and cannot be erased. -/
theorem inserted_hook_unowned :
    Run Changes numbers [.hookInit 0, .insert 0 0] insertedOnce ∧
      insertedOnce.Stores 0 0 ∧
      (insertedOnce.memory 0).tree = none ∧
      ¬ insertedOnce.Owned ∧
      insertedOnce.perform 4 (.erase 0 0) = .error .assertion := by
  have bare : numbers.Bare := Bare.fresh
  have initialises : numbers.Changes (.hookInit 0) initialisedOnce :=
    ⟨fun _ => bare.not_stores, 4, rfl⟩
  have stillBare : initialisedOnce.Bare := bare.preserved initialises rfl
  have inserts : initialisedOnce.Changes (.insert 0 0) insertedOnce :=
    ⟨⟨List.mem_singleton_self 0, fun _ => stillBare.not_stores⟩, 4, rfl⟩
  have run := ((Run.nil numbers).snoc initialises).snoc inserts
  have stored : insertedOnce.Stores 0 0 :=
    ⟨node leaf 0 0 leaf, ⟨rfl, rfl, rfl, rfl, rfl⟩, List.mem_singleton_self 0⟩
  have notOwned := stillBare.not_owned inserts rfl
  exact ⟨run, stored, rfl, notOwned, rfl⟩

end Forest

end Dfk.AvlTree
