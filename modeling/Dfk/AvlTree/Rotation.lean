import Dfk.AvlTree.Representation

/-!
# Rotations on hooks

Each rotation of the source turns hooks representing an unbalanced node into
hooks representing its `settle`d form; hanging the result where the node was
completes a rebalancing step.
-/

namespace Dfk.AvlTree

open AvlShape AvlShape.Shape

variable {ι : Type} [DecidableEq ι]

namespace Memory

/-!
## What a write changes
-/

@[simp] theorem setLeft_apply
    (memory : Memory ι) (hook query : ι) (pointer : Option ι) :
    memory.setLeft hook pointer query =
      if query = hook then { memory query with left := pointer }
      else memory query := by
  by_cases same : query = hook <;> simp [setLeft, modify, same]

@[simp] theorem setRight_apply
    (memory : Memory ι) (hook query : ι) (pointer : Option ι) :
    memory.setRight hook pointer query =
      if query = hook then { memory query with right := pointer }
      else memory query := by
  by_cases same : query = hook <;> simp [setRight, modify, same]

@[simp] theorem setParent_apply
    (memory : Memory ι) (hook query : ι) (pointer : Option ι) :
    memory.setParent hook pointer query =
      if query = hook then { memory query with parent := pointer }
      else memory query := by
  by_cases same : query = hook <;> simp [setParent, modify, same]

@[simp] theorem setBal_apply
    (memory : Memory ι) (hook query : ι) (balance : Int) :
    memory.setBal hook balance query =
      if query = hook then { memory query with bal := balance }
      else memory query := by
  by_cases same : query = hook <;> simp [setBal, modify, same]

@[simp] theorem setParentOf_apply
    (memory : Memory ι) (child : Option ι) (query : ι)
    (pointer : Option ι) :
    memory.setParentOf child pointer query =
      if child = some query then { memory query with parent := pointer }
      else memory query := by
  cases child with
  | none =>
      simp [setParentOf]
  | some hook =>
      by_cases same : query = hook
      · simp [setParentOf, same]
      · simp [setParentOf, same, Ne.symm same]

end Memory

/-!
## Single rotation
-/

/-- Contents of the hooks after a single rotation towards the left. -/
theorem singleRot_high_effect
    {memory : Memory ι} {prime x : ι}
    (high : (memory prime).bal = 2)
    (rightEq : (memory prime).right = some x)
    (leans : (memory x).bal = 0 ∨ (memory x).bal = 1)
    (distinct : prime ≠ x)
    (innerNeX : (memory x).left ≠ some x)
    (innerNePrime : (memory x).left ≠ some prime) :
    ∃ rotated,
      singleRot memory prime = .ok (x, rotated) ∧
        rotated x = { memory x with
          left := some prime, bal := (memory x).bal - 1 } ∧
        rotated prime = { memory prime with
          right := (memory x).left, parent := some x,
          bal := 1 - (memory x).bal } ∧
        (∀ hook, (memory x).left = some hook →
          rotated hook = { memory hook with parent := some prime }) ∧
        (∀ hook, hook ≠ x → hook ≠ prime →
          (memory x).left ≠ some hook →
            rotated hook = memory hook) := by
  refine ⟨_, by
    simp only [singleRot, high, rightEq, leans, check_pos, ok_bind,
      deref_some, if_true, Option.isSome_some, pure_eq_ok]
    rfl, ?_, ?_, ?_, ?_⟩
  · simp [distinct.symm, innerNeX]
  · simp [distinct, distinct.symm, innerNeX, innerNePrime]
  · rintro hook inner
    have hookNeX : hook ≠ x := fun same => innerNeX (same ▸ inner)
    have hookNePrime : hook ≠ prime := fun same =>
      innerNePrime (same ▸ inner)
    simp [distinct.symm, hookNeX, hookNePrime, inner]
  · rintro hook hookNeX hookNePrime notInner
    simp [distinct.symm, hookNeX, hookNePrime, notInner]

/-- Contents of the hooks after a single rotation towards the right. -/
theorem singleRot_low_effect
    {memory : Memory ι} {prime x : ι}
    (low : (memory prime).bal = -2)
    (leftEq : (memory prime).left = some x)
    (leans : (memory x).bal = 0 ∨ (memory x).bal = -1)
    (distinct : prime ≠ x)
    (innerNeX : (memory x).right ≠ some x)
    (innerNePrime : (memory x).right ≠ some prime) :
    ∃ rotated,
      singleRot memory prime = .ok (x, rotated) ∧
        rotated x = { memory x with
          right := some prime, bal := (memory x).bal + 1 } ∧
        rotated prime = { memory prime with
          left := (memory x).right, parent := some x,
          bal := -1 - (memory x).bal } ∧
        (∀ hook, (memory x).right = some hook →
          rotated hook = { memory hook with parent := some prime }) ∧
        (∀ hook, hook ≠ x → hook ≠ prime →
          (memory x).right ≠ some hook →
            rotated hook = memory hook) := by
  refine ⟨_, by
    simp only [singleRot, low, leftEq, leans, check_pos, ok_bind,
      deref_some, Option.isSome_some, pure_eq_ok,
      show ¬ (-2 : Int) = 2 by decide, if_false]
    rfl, ?_, ?_, ?_, ?_⟩
  · simp [distinct.symm, innerNeX]
  · simp [distinct, distinct.symm, innerNeX, innerNePrime]
  · rintro hook inner
    have hookNeX : hook ≠ x := fun same => innerNeX (same ▸ inner)
    have hookNePrime : hook ≠ prime := fun same =>
      innerNePrime (same ▸ inner)
    simp [distinct.symm, hookNeX, hookNePrime, inner]
  · rintro hook hookNeX hookNePrime notInner
    simp [distinct.symm, hookNeX, hookNePrime, notInner]

/-!
## Double rotation
-/

/-- Contents of the hooks after a double rotation towards the left. -/
theorem doubleRot_high_effect
    {memory : Memory ι} {prime y x : ι}
    (high : (memory prime).bal = 2)
    (rightEq : (memory prime).right = some y)
    (innerEq : (memory y).left = some x)
    (distinct : [prime, y, x].Nodup)
    (beforeOut : ∀ hook ∈ [prime, y, x], (memory x).left ≠ some hook)
    (afterOut : ∀ hook ∈ [prime, y, x], (memory x).right ≠ some hook)
    (apart : ∀ hook, (memory x).left = some hook →
      (memory x).right ≠ some hook) :
    ∃ rotated,
      doubleRot memory prime = .ok (x, rotated) ∧
        rotated x = { memory x with
          left := some prime, right := some y, bal := 0 } ∧
        rotated prime = { memory prime with
          right := (memory x).left, parent := some x,
          bal := 0 - logicalNot ((memory x).bal - 1) } ∧
        rotated y = { memory y with
          left := (memory x).right, parent := some x,
          bal := logicalNot ((memory x).bal + 1) } ∧
        (∀ hook, (memory x).left = some hook →
          rotated hook = { memory hook with parent := some prime }) ∧
        (∀ hook, (memory x).right = some hook →
          rotated hook = { memory hook with parent := some y }) ∧
        (∀ hook, hook ∉ [prime, y, x] →
          (memory x).left ≠ some hook →
          (memory x).right ≠ some hook →
            rotated hook = memory hook) := by
  simp only [List.nodup_cons, List.mem_cons, List.not_mem_nil, or_false,
    not_or] at distinct
  obtain ⟨⟨primeNeY, primeNeX⟩, yNeX, -⟩ := distinct
  simp only [List.mem_cons, List.not_mem_nil, or_false, forall_eq_or_imp,
    forall_eq] at beforeOut afterOut
  obtain ⟨beforePrime, beforeY, beforeX⟩ := beforeOut
  obtain ⟨afterPrime, afterY, afterX⟩ := afterOut
  have yNePrime := Ne.symm primeNeY
  have xNePrime := Ne.symm primeNeX
  have xNeY := Ne.symm yNeX
  refine ⟨_, by
    simp only [doubleRot, high, rightEq, innerEq, ok_bind, deref_some,
      if_true, pure_eq_ok]
    rfl, ?_, ?_, ?_, ?_, ?_, ?_⟩
  · simp [*]
  · simp [*]
  · simp [*]
  · rintro hook before
    have notAfter := apart hook before
    have hookNeX : hook ≠ x := fun same => beforeX (same ▸ before)
    have hookNeY : hook ≠ y := fun same => beforeY (same ▸ before)
    have hookNePrime : hook ≠ prime := fun same =>
      beforePrime (same ▸ before)
    simp [*]
  · rintro hook after
    have notBefore : (memory x).left ≠ some hook := fun before =>
      apart hook before after
    have hookNeX : hook ≠ x := fun same => afterX (same ▸ after)
    have hookNeY : hook ≠ y := fun same => afterY (same ▸ after)
    have hookNePrime : hook ≠ prime := fun same =>
      afterPrime (same ▸ after)
    simp [*]
  · intro hook outside notBefore notAfter
    simp only [List.mem_cons, List.not_mem_nil, or_false, not_or]
      at outside
    obtain ⟨hookNePrime, hookNeY, hookNeX⟩ := outside
    simp [*]

/-- Contents of the hooks after a double rotation towards the right. -/
theorem doubleRot_low_effect
    {memory : Memory ι} {prime y x : ι}
    (low : (memory prime).bal = -2)
    (leftEq : (memory prime).left = some y)
    (innerEq : (memory y).right = some x)
    (distinct : [prime, y, x].Nodup)
    (beforeOut : ∀ hook ∈ [prime, y, x], (memory x).left ≠ some hook)
    (afterOut : ∀ hook ∈ [prime, y, x], (memory x).right ≠ some hook)
    (apart : ∀ hook, (memory x).left = some hook →
      (memory x).right ≠ some hook) :
    ∃ rotated,
      doubleRot memory prime = .ok (x, rotated) ∧
        rotated x = { memory x with
          left := some y, right := some prime, bal := 0 } ∧
        rotated prime = { memory prime with
          left := (memory x).right, parent := some x,
          bal := logicalNot ((memory x).bal + 1) } ∧
        rotated y = { memory y with
          right := (memory x).left, parent := some x,
          bal := 0 - logicalNot ((memory x).bal - 1) } ∧
        (∀ hook, (memory x).right = some hook →
          rotated hook = { memory hook with parent := some prime }) ∧
        (∀ hook, (memory x).left = some hook →
          rotated hook = { memory hook with parent := some y }) ∧
        (∀ hook, hook ∉ [prime, y, x] →
          (memory x).left ≠ some hook →
          (memory x).right ≠ some hook →
            rotated hook = memory hook) := by
  simp only [List.nodup_cons, List.mem_cons, List.not_mem_nil, or_false,
    not_or] at distinct
  obtain ⟨⟨primeNeY, primeNeX⟩, yNeX, -⟩ := distinct
  simp only [List.mem_cons, List.not_mem_nil, or_false, forall_eq_or_imp,
    forall_eq] at beforeOut afterOut
  obtain ⟨beforePrime, beforeY, beforeX⟩ := beforeOut
  obtain ⟨afterPrime, afterY, afterX⟩ := afterOut
  have yNePrime := Ne.symm primeNeY
  have xNePrime := Ne.symm primeNeX
  have xNeY := Ne.symm yNeX
  refine ⟨_, by
    simp only [doubleRot, low, leftEq, innerEq, ok_bind, deref_some,
      pure_eq_ok, show ¬ (-2 : Int) = 2 by decide, if_false]
    rfl, ?_, ?_, ?_, ?_, ?_, ?_⟩
  · simp [*]
  · simp [*]
  · simp [*]
  · rintro hook after
    have notBefore : (memory x).left ≠ some hook := fun before =>
      apart hook before after
    have hookNeX : hook ≠ x := fun same => afterX (same ▸ after)
    have hookNeY : hook ≠ y := fun same => afterY (same ▸ after)
    have hookNePrime : hook ≠ prime := fun same =>
      afterPrime (same ▸ after)
    simp [*]
  · rintro hook before
    have notAfter := apart hook before
    have hookNeX : hook ≠ x := fun same => beforeX (same ▸ before)
    have hookNeY : hook ≠ y := fun same => beforeY (same ▸ before)
    have hookNePrime : hook ≠ prime := fun same =>
      beforePrime (same ▸ before)
    simp [*]
  · intro hook outside notBefore notAfter
    simp only [List.mem_cons, List.not_mem_nil, or_false, not_or]
      at outside
    obtain ⟨hookNePrime, hookNeY, hookNeX⟩ := outside
    simp [*]

/-!
## Rotations settle the represented shape
-/

/-- A single rotation towards the left settles the shape. -/
theorem singleRot_high
    {memory : Memory ι} {prime x : ι} {parent : Option ι}
    {a b c : Shape ι} {xBalance : Int}
    (represents : Represents memory (some prime) parent
      (node a prime 2 (node b x xBalance c)))
    (noDuplicates :
      (node a prime 2 (node b x xBalance c)).inorder.Nodup)
    (leans : xBalance = 0 ∨ xBalance = 1) :
    ∃ rotated newParent,
      singleRot memory prime = .ok (x, rotated) ∧
        Represents rotated (some x) newParent
          (node (node a prime (1 - xBalance) b) x (xBalance - 1) c) ∧
        ∀ hook,
          hook ∉ (node a prime 2 (node b x xBalance c)).inorder →
            rotated hook = memory hook := by
  obtain ⟨-, -, primeBal, aRep, rightEq, -, rfl, bRep, cRep⟩ :=
    represents
  simp only [inorder_node, List.nodup_append, List.nodup_cons,
    List.mem_append, List.mem_cons] at noDuplicates ⊢
  have innerNeX := bRep.pointer_ne x (by grind)
  have innerNePrime := bRep.pointer_ne prime (by grind)
  obtain ⟨rotated, run, atX, atPrime, atInner, elsewhere⟩ :=
    singleRot_high_effect primeBal rightEq leans (by grind)
      innerNeX innerNePrime
  refine ⟨rotated, (rotated x).parent, run,
    ⟨rfl, rfl, by rw [atX], ?_, ?_⟩, ?_⟩
  · rw [atX]
    refine ⟨rfl, by rw [atPrime], by rw [atPrime], ?_, ?_⟩
    · rw [atPrime]
      exact aRep.frame fun hook member =>
        elsewhere hook (by grind) (by grind)
          (bRep.pointer_ne _ (by grind))
    · rw [atPrime]
      exact bRep.reparent (by grind) atInner fun hook member notRoot =>
        elsewhere hook (by grind) (by grind) notRoot
  · rw [atX]
    exact cRep.frame fun hook member =>
      elsewhere hook (by grind) (by grind) (bRep.pointer_ne _ (by grind))
  · intro hook outside
    exact elsewhere hook (by grind) (by grind)
      (bRep.pointer_ne _ (by grind))

/-- A single rotation towards the right settles the shape. -/
theorem singleRot_low
    {memory : Memory ι} {prime x : ι} {parent : Option ι}
    {a b c : Shape ι} {xBalance : Int}
    (represents : Represents memory (some prime) parent
      (node (node c x xBalance b) prime (-2) a))
    (noDuplicates :
      (node (node c x xBalance b) prime (-2) a).inorder.Nodup)
    (leans : xBalance = 0 ∨ xBalance = -1) :
    ∃ rotated newParent,
      singleRot memory prime = .ok (x, rotated) ∧
        Represents rotated (some x) newParent
          (node c x (xBalance + 1) (node b prime (-1 - xBalance) a)) ∧
        ∀ hook,
          hook ∉ (node (node c x xBalance b) prime (-2) a).inorder →
            rotated hook = memory hook := by
  obtain ⟨-, -, primeBal, ⟨leftEq, -, rfl, cRep, bRep⟩, aRep⟩ :=
    represents
  simp only [inorder_node, List.nodup_append, List.nodup_cons,
    List.mem_append, List.mem_cons] at noDuplicates ⊢
  have innerNeX := bRep.pointer_ne x (by grind)
  have innerNePrime := bRep.pointer_ne prime (by grind)
  obtain ⟨rotated, run, atX, atPrime, atInner, elsewhere⟩ :=
    singleRot_low_effect primeBal leftEq leans (by grind)
      innerNeX innerNePrime
  refine ⟨rotated, (rotated x).parent, run,
    ⟨rfl, rfl, by rw [atX], ?_, ?_⟩, ?_⟩
  · rw [atX]
    exact cRep.frame fun hook member =>
      elsewhere hook (by grind) (by grind) (bRep.pointer_ne _ (by grind))
  · rw [atX]
    refine ⟨rfl, by rw [atPrime], by rw [atPrime], ?_, ?_⟩
    · rw [atPrime]
      exact bRep.reparent (by grind) atInner fun hook member notRoot =>
        elsewhere hook (by grind) (by grind) notRoot
    · rw [atPrime]
      exact aRep.frame fun hook member =>
        elsewhere hook (by grind) (by grind)
          (bRep.pointer_ne _ (by grind))
  · intro hook outside
    exact elsewhere hook (by grind) (by grind)
      (bRep.pointer_ne _ (by grind))

/-- The balance a double rotation gives to the node on the left. -/
theorem leftBalance_eq {xBalance : Int} :
    0 - logicalNot (xBalance - 1) = if xBalance = 1 then -1 else 0 := by
  by_cases leansRight : xBalance = 1
  · simp [logicalNot, leansRight]
  · have : xBalance - 1 ≠ 0 := by omega
    simp [logicalNot, leansRight, this]

/-- The balance a double rotation gives to the node on the right. -/
theorem rightBalance_eq {xBalance : Int} :
    logicalNot (xBalance + 1) = if xBalance = -1 then 1 else 0 := by
  by_cases leansLeft : xBalance = -1
  · simp [logicalNot, leansLeft]
  · have : xBalance + 1 ≠ 0 := by omega
    simp [logicalNot, leansLeft, this]

/-- A double rotation towards the left settles the shape. -/
theorem doubleRot_high
    {memory : Memory ι} {prime x y : ι} {parent : Option ι}
    {a b c d : Shape ι} {xBalance : Int}
    (represents : Represents memory (some prime) parent
      (node a prime 2 (node (node b x xBalance c) y (-1) d)))
    (noDuplicates :
      (node a prime 2 (node (node b x xBalance c) y (-1) d)).inorder.Nodup) :
    ∃ rotated newParent,
      doubleRot memory prime = .ok (x, rotated) ∧
        Represents rotated (some x) newParent
          (settle
            (node a prime 2 (node (node b x xBalance c) y (-1) d))) ∧
        ∀ hook,
          hook ∉
            (node a prime 2 (node (node b x xBalance c) y (-1) d)).inorder →
              rotated hook = memory hook := by
  obtain ⟨-, -, primeBal, aRep, rightEq, -, -,
    ⟨innerEq, -, rfl, bRep, cRep⟩, dRep⟩ := represents
  simp only [inorder_node, List.nodup_append, List.nodup_cons,
    List.mem_append, List.mem_cons] at noDuplicates ⊢
  have beforeOut : ∀ hook ∈ [prime, y, x], (memory x).left ≠ some hook :=
    fun hook member => bRep.pointer_ne _ (by grind)
  have afterOut : ∀ hook ∈ [prime, y, x], (memory x).right ≠ some hook :=
    fun hook member => cRep.pointer_ne _ (by grind)
  have apart : ∀ hook, (memory x).left = some hook →
      (memory x).right ≠ some hook := by
    intro hook before
    have member := mem_inorder_of_root (bRep.pointer_eq.symm.trans before)
    exact cRep.pointer_ne _ (by grind)
  obtain ⟨rotated, run, atX, atPrime, atY, atBefore, atAfter, elsewhere⟩ :=
    doubleRot_high_effect primeBal rightEq innerEq (by grind)
      beforeOut afterOut apart
  refine ⟨rotated, (rotated x).parent, run,
    ⟨rfl, rfl, by rw [atX], ?_, ?_⟩, ?_⟩
  · rw [atX]
    refine ⟨rfl, by rw [atPrime], by rw [atPrime, leftBalance_eq], ?_, ?_⟩
    · rw [atPrime]
      exact aRep.frame fun hook member =>
        elsewhere hook (by grind) (bRep.pointer_ne _ (by grind))
          (cRep.pointer_ne _ (by grind))
    · rw [atPrime]
      exact bRep.reparent (by grind) atBefore fun hook member notRoot =>
        elsewhere hook (by grind) notRoot (cRep.pointer_ne _ (by grind))
  · rw [atX]
    refine ⟨rfl, by rw [atY], by rw [atY, rightBalance_eq], ?_, ?_⟩
    · rw [atY]
      exact cRep.reparent (by grind) atAfter fun hook member notRoot =>
        elsewhere hook (by grind) (bRep.pointer_ne _ (by grind)) notRoot
    · rw [atY]
      exact dRep.frame fun hook member =>
        elsewhere hook (by grind) (bRep.pointer_ne _ (by grind))
          (cRep.pointer_ne _ (by grind))
  · intro hook outside
    exact elsewhere hook (by grind) (bRep.pointer_ne _ (by grind))
      (cRep.pointer_ne _ (by grind))

/-- A double rotation towards the right settles the shape. -/
theorem doubleRot_low
    {memory : Memory ι} {prime x y : ι} {parent : Option ι}
    {a b c d : Shape ι} {xBalance : Int}
    (represents : Represents memory (some prime) parent
      (node (node d y 1 (node c x xBalance b)) prime (-2) a))
    (noDuplicates :
      (node (node d y 1 (node c x xBalance b)) prime (-2) a).inorder.Nodup) :
    ∃ rotated newParent,
      doubleRot memory prime = .ok (x, rotated) ∧
        Represents rotated (some x) newParent
          (settle
            (node (node d y 1 (node c x xBalance b)) prime (-2) a)) ∧
        ∀ hook,
          hook ∉
            (node (node d y 1 (node c x xBalance b)) prime (-2) a).inorder →
              rotated hook = memory hook := by
  obtain ⟨-, -, primeBal, ⟨leftEq, -, -, dRep,
    ⟨innerEq, -, rfl, cRep, bRep⟩⟩, aRep⟩ := represents
  simp only [inorder_node, List.nodup_append, List.nodup_cons,
    List.mem_append, List.mem_cons] at noDuplicates ⊢
  have beforeOut : ∀ hook ∈ [prime, y, x], (memory x).left ≠ some hook :=
    fun hook member => cRep.pointer_ne _ (by grind)
  have afterOut : ∀ hook ∈ [prime, y, x], (memory x).right ≠ some hook :=
    fun hook member => bRep.pointer_ne _ (by grind)
  have apart : ∀ hook, (memory x).left = some hook →
      (memory x).right ≠ some hook := by
    intro hook before
    have member := mem_inorder_of_root (cRep.pointer_eq.symm.trans before)
    exact bRep.pointer_ne _ (by grind)
  obtain ⟨rotated, run, atX, atPrime, atY, atAfter, atBefore, elsewhere⟩ :=
    doubleRot_low_effect primeBal leftEq innerEq (by grind)
      beforeOut afterOut apart
  refine ⟨rotated, (rotated x).parent, run,
    ⟨rfl, rfl, by rw [atX], ?_, ?_⟩, ?_⟩
  · rw [atX]
    refine ⟨rfl, by rw [atY], by rw [atY, leftBalance_eq], ?_, ?_⟩
    · rw [atY]
      exact dRep.frame fun hook member =>
        elsewhere hook (by grind) (cRep.pointer_ne _ (by grind))
          (bRep.pointer_ne _ (by grind))
    · rw [atY]
      exact cRep.reparent (by grind) atBefore fun hook member notRoot =>
        elsewhere hook (by grind) notRoot (bRep.pointer_ne _ (by grind))
  · rw [atX]
    refine ⟨rfl, by rw [atPrime], by rw [atPrime, rightBalance_eq],
      ?_, ?_⟩
    · rw [atPrime]
      exact bRep.reparent (by grind) atAfter fun hook member notRoot =>
        elsewhere hook (by grind) (cRep.pointer_ne _ (by grind)) notRoot
    · rw [atPrime]
      exact aRep.frame fun hook member =>
        elsewhere hook (by grind) (cRep.pointer_ne _ (by grind))
          (bRep.pointer_ne _ (by grind))
  · intro hook outside
    exact elsewhere hook (by grind) (cRep.pointer_ne _ (by grind))
      (bRep.pointer_ne _ (by grind))

/-- The rotation chosen for a right-heavy node settles its shape. -/
theorem rotate_high
    {memory : Memory ι} {prime y : ι} {parent : Option ι}
    {a right : Shape ι}
    (represents : Represents memory (some prime) parent
      (node a prime 2 right))
    (noDuplicates : (node a prime 2 right).inorder.Nodup)
    (rightEq : (memory prime).right = some y)
    (rightBalanced : right.Balanced) :
    ∃ x rotated newParent,
      (if right.balance = -1 then doubleRot memory prime
        else singleRot memory prime) = .ok (x, rotated) ∧
        x ∈ (node a prime 2 right).inorder ∧
        Represents rotated (some x) newParent
          (settle (node a prime 2 right)) ∧
        ∀ hook, hook ∉ (node a prime 2 right).inorder →
          rotated hook = memory hook := by
  have rightRep := represents.2.2.2.2
  rw [rightEq] at rightRep
  obtain ⟨inner, outer, rfl, -, -, -⟩ := rightRep.of_some
  obtain ⟨balanceEq, low, high, -, -⟩ := rightBalanced
  by_cases leansLeft : (memory y).bal = -1
  · rw [leansLeft] at represents noDuplicates balanceEq ⊢
    cases inner with
    | leaf =>
        simp only [height_leaf] at balanceEq
        omega
    | node b x xBalance c =>
        obtain ⟨rotated, newParent, run, settled, elsewhere⟩ :=
          doubleRot_high represents noDuplicates
        exact ⟨x, rotated, newParent, by simpa using run, by simp,
          settled, elsewhere⟩
  · obtain ⟨rotated, newParent, run, settled, elsewhere⟩ :=
      singleRot_high represents noDuplicates (by omega)
    refine ⟨y, rotated, newParent, by simpa [leansLeft] using run,
      by simp, ?_, elsewhere⟩
    rw [settle_high_single leansLeft]
    exact settled

/-- The rotation chosen for a left-heavy node settles its shape. -/
theorem rotate_low
    {memory : Memory ι} {prime y : ι} {parent : Option ι}
    {left a : Shape ι}
    (represents : Represents memory (some prime) parent
      (node left prime (-2) a))
    (noDuplicates : (node left prime (-2) a).inorder.Nodup)
    (leftEq : (memory prime).left = some y)
    (leftBalanced : left.Balanced) :
    ∃ x rotated newParent,
      (if left.balance = 1 then doubleRot memory prime
        else singleRot memory prime) = .ok (x, rotated) ∧
        x ∈ (node left prime (-2) a).inorder ∧
        Represents rotated (some x) newParent
          (settle (node left prime (-2) a)) ∧
        ∀ hook, hook ∉ (node left prime (-2) a).inorder →
          rotated hook = memory hook := by
  have leftRep := represents.2.2.2.1
  rw [leftEq] at leftRep
  obtain ⟨outer, inner, rfl, -, -, -⟩ := leftRep.of_some
  obtain ⟨balanceEq, low, high, -, -⟩ := leftBalanced
  by_cases leansRight : (memory y).bal = 1
  · rw [leansRight] at represents noDuplicates balanceEq ⊢
    cases inner with
    | leaf =>
        simp only [height_leaf] at balanceEq
        omega
    | node c x xBalance b =>
        obtain ⟨rotated, newParent, run, settled, elsewhere⟩ :=
          doubleRot_low represents noDuplicates
        exact ⟨x, rotated, newParent, by simpa using run, by simp,
          settled, elsewhere⟩
  · obtain ⟨rotated, newParent, run, settled, elsewhere⟩ :=
      singleRot_low represents noDuplicates (by omega)
    refine ⟨y, rotated, newParent, by simpa [leansRight] using run,
      by simp, ?_, elsewhere⟩
    rw [settle_low_single leansRight]
    exact settled

end Dfk.AvlTree
