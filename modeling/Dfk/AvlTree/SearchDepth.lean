import Dfk.AvlTree.Erase
import Dfk.AvlTree.Insert
import Dfk.Library.AvlHeight

/-!
# How deep a search goes

A tree is edited and searched in any order.  Each call is done within a
number of rounds of its loops that grows with the logarithm of the number of
hooks, and no smaller number of rounds suffices for all trees of this size.
-/

namespace Dfk.AvlTree

open AvlShape AvlShape.Shape

variable {ι κ : Type}

/-!
## Runs of calls on one tree
-/

/-- A tree and the memory its hooks live in. -/
structure Held (ι : Type) where
  memory : Memory ι
  tree : Tree ι

/-- A call. -/
inductive Use (ι : Type) where
  /-- `dfk_avltree_hook_init`, then `dfk_avltree_insert` -/
  | insert (e : ι)
  | erase (e : ι)
  /-- `dfk_avltree_find` by the comparison of the tree -/
  | find (sought : ι)
  deriving Repr, DecidableEq

section Calls

variable [DecidableEq ι]

/-- Make a call in a build without `DFK_DEBUG`; answer what it returns. -/
def Held.use (fuel : Nat) (held : Held ι) :
    Use ι → Except Fault (Option ι × Held ι)
  | .insert e => do
      let (result, tree, memory) ←
        AvlTree.insert fuel (hookInit false held.memory e) held.tree e
      pure (result, ⟨memory, tree⟩)
  | .erase e => do
      let (tree, memory) ← AvlTree.erase false fuel held.memory held.tree e
      pure (none, ⟨memory, tree⟩)
  | .find sought => do
      let result ←
        AvlTree.find fuel held.memory held.tree
          fun stored => held.tree.cmp stored sought
      pure (result, held)

/-- Make calls one after the other. -/
def Held.useAll (fuel : Nat) :
    Held ι → List (Use ι) → Except Fault (List (Option ι) × Held ι)
  | held, [] => .ok ([], held)
  | held, call :: calls => do
      let (result, held) ← held.use fuel call
      let (results, held) ← held.useAll fuel calls
      pure (result :: results, held)

end Calls

section Sets

variable [DecidableEq ι] [DecidableEq κ] (key : ι → κ)

/-- What a set of hooks that differ in their keys answers, and becomes. -/
def expect (stored : List ι) : Use ι → Option ι × List ι
  | .insert e =>
      if stored.any fun hook => key hook = key e then (none, stored)
      else (some e, e :: stored)
  | .erase e => (none, stored.erase e)
  | .find sought => (stored.find? fun hook => key hook = key sought, stored)

/-- Its answers to calls one after the other. -/
def expectAll (stored : List ι) : List (Use ι) → List (Option ι)
  | [] => []
  | call :: calls =>
      (expect key stored call).1 :: expectAll (expect key stored call).2 calls

/-- Hooks are inserted while they are not stored, and erased while they are. -/
def Proper (stored : List ι) : Use ι → Prop
  | .insert e => e ∉ stored
  | .erase e => e ∈ stored
  | .find _ => True

/-- All calls are proper, and no more hooks are stored than `most`. -/
def ProperWithin (most : Nat) (stored : List ι) : List (Use ι) → Prop
  | [] => stored.length ≤ most
  | call :: calls =>
      stored.length ≤ most ∧ Proper stored call ∧
        ProperWithin most (expect key stored call).2 calls

end Sets

section Rounds

variable [LinearOrder κ] {key : ι → κ} {fuel : Nat}
variable {held : Held ι} {stored : List ι}

/-- The tree is well formed and holds this set of hooks. -/
structure HoldsSet (key : ι → κ) (held : Held ι) (stored : List ι) :
    Prop where
  threeWay : ThreeWayOn held.tree.cmp key fun _ => True
  shaped :
    ∃ shape, WellFormed held.memory held.tree shape ∧
      shape.inorder.Perm stored

/-- An initialised tree holds nothing. -/
theorem holdsSet_init
    {cmp : ι → ι → Int} (self : Nat) (constantTimeSize : Bool)
    (memory : Memory ι)
    (threeWay : ThreeWayOn cmp key fun _ => True) :
    HoldsSet key ⟨memory, init self constantTimeSize cmp⟩ [] where
  threeWay := threeWay
  shaped :=
    ⟨leaf, wellFormed_init memory self constantTimeSize cmp,
      List.Perm.refl []⟩

/-- Hooks that a well-formed tree holds differ in their keys. -/
theorem WellFormed.key_injective
    {memory : Memory ι} {tree : Tree ι} {shape : Shape ι}
    (wellFormed : WellFormed memory tree shape)
    (threeWay : ThreeWayOn tree.cmp key fun _ => True)
    {hook other : ι}
    (member : hook ∈ shape.inorder)
    (memberToo : other ∈ shape.inorder)
    (same : key hook = key other) :
    hook = other := by
  have sorted :=
    (threeWay.ordered_iff_sorted fun _ _ => trivial).mp wellFormed.ordered
  have apart : (shape.inorder.map key).Nodup :=
    List.pairwise_map.mpr (sorted.imp fun less => ne_of_lt less)
  exact List.inj_on_of_nodup_map apart member memberToo same

/-- Searching the shape is searching the set. -/
theorem HoldsSet.find_eq
    {memory : Memory ι} {tree : Tree ι} {shape : Shape ι} {sought : ι}
    (wellFormed : WellFormed memory tree shape)
    (threeWay : ThreeWayOn tree.cmp key fun _ => True)
    (contents : shape.inorder.Perm stored) :
    AvlShape.find (fun hook => tree.cmp hook sought) shape =
      stored.find? fun hook => key hook = key sought := by
  have equal (hook : ι) : tree.cmp hook sought = 0 ↔ key hook = key sought :=
    threeWay.eq_zero_iff trivial trivial
  cases found : AvlShape.find (fun hook => tree.cmp hook sought) shape with
  | none =>
      symm
      rw [List.find?_eq_none]
      intro hook member isSought
      have finds :=
        find_complete
          (threeWay.steered_of_sorted (fun _ _ => trivial)
            ((threeWay.ordered_iff_sorted fun _ _ => trivial).mp
              wellFormed.ordered)
            trivial)
          (contents.mem_iff.mpr member)
          ((equal hook).mpr (of_decide_eq_true isSought))
      rw [found] at finds
      cases finds
  | some hook =>
      obtain ⟨member, stops⟩ := find_sound found
      have isSought := (equal hook).mp stops
      cases first : stored.find? fun hook => key hook = key sought with
      | none =>
          rw [List.find?_eq_none] at first
          exact absurd (decide_eq_true isSought)
            (first hook (contents.mem_iff.mp member))
      | some other =>
          have isSoughtToo := of_decide_eq_true (@List.find?_some ι _ _ _ first)
          apply congrArg some
          exact wellFormed.key_injective threeWay member
            (contents.mem_iff.mpr (List.mem_of_find?_eq_some first))
            (isSought.trans isSoughtToo.symm)

variable [DecidableEq ι]

/--
A call does what it does to the set, in as many rounds as the number of hooks
calls for.
-/
theorem HoldsSet.use
    {call : Use ι}
    (holds : HoldsSet key held stored)
    (proper : Proper stored call)
    (few : stored.length + 1 < Nat.fib (fuel + 2)) :
    ∃ next,
      held.use fuel call = .ok ((expect key stored call).1, next) ∧
        HoldsSet key next (expect key stored call).2 := by
  obtain ⟨threeWay, shape, wellFormed, contents⟩ := holds
  have low : shape.height < fuel := by
    apply height_lt_of_length_lt wellFormed.balanced
    rw [contents.length_eq]
    exact few
  cases call with
  | insert e =>
      have outside (hook : ι) (member : hook ∈ shape.inorder) : hook ≠ e :=
        fun same => proper (same ▸ contents.mem_iff.mp member)
      have still :
          WellFormed (hookInit false held.memory e) held.tree shape :=
        { wellFormed with
          represents := by
            apply wellFormed.represents.frame
            intro hook member
            exact if_neg (outside hook member) }
      have fresh := fresh_hookInit false held.memory e
      by_cases present : ∃ hook ∈ stored, key hook = key e
      · obtain ⟨hook, member, same⟩ := present
        have refused :
            AvlTree.insert fuel (hookInit false held.memory e) held.tree e =
              .ok (none, held.tree, hookInit false held.memory e) :=
          insert_of_stored threeWay (fun _ _ => trivial) trivial still fresh
            low ⟨hook, contents.mem_iff.mpr member,
              (threeWay.eq_zero_iff trivial trivial).mpr same⟩
        have isPresent :
            (stored.any fun hook => key hook = key e) = true :=
          List.any_eq_true.mpr ⟨hook, member, decide_eq_true same⟩
        rw [expect, if_pos isPresent, Held.use, refused]
        exact ⟨_, rfl, threeWay, shape, still, contents⟩
      · have absent (hook : ι) (member : hook ∈ shape.inorder) :
            held.tree.cmp hook e ≠ 0 := by
          rw [Ne, threeWay.eq_zero_iff trivial trivial]
          exact fun same =>
            present ⟨hook, contents.mem_iff.mp member, same⟩
        obtain ⟨tree, memory, grown, inserts, inserted⟩ :=
          insert_of_absent threeWay (fun _ _ => trivial) trivial still fresh
            low absent
        have isAbsent :
            ¬ (stored.any fun hook => key hook = key e) = true := by
          intro isPresent
          obtain ⟨hook, member, same⟩ := List.any_eq_true.mp isPresent
          exact present ⟨hook, member, of_decide_eq_true same⟩
        rw [expect, if_neg isAbsent, Held.use, inserts]
        refine ⟨_, rfl, ?_, grown, inserted.wellFormed, ?_⟩
        · dsimp only
          rw [inserted.sameCmp]
          exact threeWay
        · obtain ⟨before, after, split, splitToo, -⟩ := inserted.placed
          rw [splitToo]
          rw [split] at contents
          exact List.perm_middle.trans (contents.cons e)
  | erase e =>
      obtain ⟨tree, memory, less, erases, erased⟩ :=
        erase_wellFormed threeWay (fun _ _ => trivial) wellFormed
          (contents.mem_iff.mpr proper) low
      rw [Held.use, erases]
      refine ⟨_, rfl, ?_, less, erased.wellFormed, ?_⟩
      · dsimp only
        rw [erased.sameCmp]
        exact threeWay
      · obtain ⟨before, after, split, splitToo⟩ := erased.sequence
        rw [splitToo]
        rw [split] at contents
        have without := (List.perm_middle.symm.trans contents).erase e
        rw [List.erase_cons_head] at without
        exact without
  | find sought =>
      rw [Held.use, AvlTree.find_eq _ wellFormed.represents
        wellFormed.balanced low, HoldsSet.find_eq wellFormed threeWay
        contents]
      exact ⟨held, rfl, threeWay, shape, wellFormed, contents⟩

/--
Calls one after the other do what they do to the set, and no loop takes more
than `fuel` rounds if the Fibonacci number of `fuel + 2` exceeds the number of
hooks by two or more.
-/
theorem useAll_within_fib
    {calls : List (Use ι)} {cmp : ι → ι → Int}
    (most self : Nat) (constantTimeSize : Bool)
    (memory : Memory ι)
    (threeWay : ThreeWayOn cmp key fun _ => True)
    (within : ProperWithin key most [] calls)
    (few : most + 1 < Nat.fib (fuel + 2)) :
    ∃ last,
      Held.useAll fuel ⟨memory, init self constantTimeSize cmp⟩ calls =
        .ok (expectAll key [] calls, last) := by
  have holds := holdsSet_init self constantTimeSize memory threeWay
  generalize ([] : List ι) = stored at within holds ⊢
  generalize
    (⟨memory, init self constantTimeSize cmp⟩ : Held ι) = held at holds ⊢
  induction calls generalizing held stored with
  | nil =>
      exact ⟨held, rfl⟩
  | cons call calls inductionHypothesis =>
      obtain ⟨atMost, proper, within⟩ := within
      have fewNow : stored.length + 1 < Nat.fib (fuel + 2) :=
        Nat.lt_of_le_of_lt (Nat.succ_le_succ atMost) few
      obtain ⟨next, used, holdsNext⟩ := holds.use proper fewNow
      obtain ⟨last, usedAll⟩ := inductionHypothesis _ within _ holdsNext
      refine ⟨last, ?_⟩
      rw [Held.useAll, used, ok_bind]
      dsimp only
      rw [usedAll]
      rfl

/-- Numbers compare as numbers. -/
def byNumber (stored other : Nat) : Int := (other : Int) - stored

theorem threeWay_byNumber :
    ThreeWayOn byNumber (fun hook : Nat => hook) fun _ => True where
  neg_iff _ _ := by
    rw [byNumber]
    omega
  pos_iff _ _ := by
    rw [byNumber]
    omega

/-- Seven hooks may be stored at once: five rounds are enough. -/
theorem useAll_within_fib_seven :
    ∃ last,
      Held.useAll 5
          ⟨fun _ => ⟨none, none, none, 0, none⟩, init 0 true byNumber⟩
          [.insert 4, .insert 2, .insert 6, .find 6, .erase 4, .find 4] =
        .ok
          (expectAll (fun hook : Nat => hook) []
            [.insert 4, .insert 2, .insert 6, .find 6, .erase 4, .find 4],
          last) :=
  useAll_within_fib 7 0 true _ threeWay_byNumber
    (by simp [ProperWithin, Proper, expect]) (by decide)

end Rounds

/-!
## Trees in which a search goes deepest
-/

section Layouts

variable [DecidableEq ι]

/-- Write the hooks of a shape to the memory. -/
def layout : Option ι → Shape ι → Memory ι → Memory ι
  | _, leaf, memory => memory
  | parent, node left hook balance right, memory =>
      layout (some hook) left <|
        layout (some hook) right <|
          memory.modify hook fun _ =>
            ⟨left.root, right.root, parent, balance, none⟩

/-- Hooks of no other shape are written. -/
theorem layout_of_not_mem
    {shape : Shape ι} {memory : Memory ι} {parent : Option ι} {hook : ι}
    (outside : hook ∉ shape.inorder) :
    layout parent shape memory hook = memory hook := by
  induction shape generalizing parent memory with
  | leaf =>
      rfl
  | node left top balance right leftHypothesis rightHypothesis =>
      rw [inorder_node, List.mem_append, List.mem_cons, not_or, not_or]
        at outside
      obtain ⟨notLeft, notTop, notRight⟩ := outside
      rw [layout, leftHypothesis notLeft, rightHypothesis notRight]
      exact if_neg notTop

/-- What has been written is read. -/
theorem represents_layout
    {shape : Shape ι} (memory : Memory ι) (parent : Option ι)
    (distinct : shape.inorder.Nodup) :
    Represents (layout parent shape memory) shape.root parent shape := by
  induction shape generalizing parent memory with
  | leaf =>
      rfl
  | node left top balance right leftHypothesis rightHypothesis =>
      rw [inorder_node, List.nodup_append, List.nodup_cons] at distinct
      obtain ⟨leftDistinct, ⟨notRight, rightDistinct⟩, apart⟩ := distinct
      have notLeft : top ∉ left.inorder := fun member =>
        apart top member top List.mem_cons_self rfl
      have atTop :
          layout parent (node left top balance right) memory top =
            ⟨left.root, right.root, parent, balance, none⟩ := by
        rw [layout, layout_of_not_mem notLeft, layout_of_not_mem notRight]
        exact if_pos rfl
      refine ⟨rfl, ?_, ?_, ?_, ?_⟩
      · rw [atTop]
      · rw [atTop]
      · rw [atTop]
        exact leftHypothesis _ _ leftDistinct
      · rw [atTop]
        apply (rightHypothesis _ _ rightDistinct).frame
        intro hook member
        rw [layout]
        exact layout_of_not_mem fun memberToo =>
          apart hook memberToo hook (List.mem_cons_of_mem _ member) rfl

end Layouts

/-- The odd numbers from `2 * start + 1` on, in symmetric order. -/
def numbered : Nat → Shape ι → Shape Nat
  | _, leaf => leaf
  | start, node left _ balance right =>
      node (numbered start left) (2 * (start + left.inorder.length) + 1)
        balance (numbered (start + left.inorder.length + 1) right)

@[simp] theorem inorder_numbered (start : Nat) (shape : Shape ι) :
    (numbered start shape).inorder =
      (List.range' start shape.inorder.length).map (2 * · + 1) := by
  induction shape generalizing start with
  | leaf =>
      rfl
  | node left hook balance right leftHypothesis rightHypothesis =>
      rw [numbered, inorder_node, leftHypothesis, rightHypothesis,
        inorder_node, List.length_append, List.length_cons,
        ← List.range'_append_1, List.map_append]
      rfl

@[simp] theorem height_numbered (start : Nat) (shape : Shape ι) :
    (numbered start shape).height = shape.height := by
  induction shape generalizing start with
  | leaf =>
      rfl
  | node left hook balance right leftHypothesis rightHypothesis =>
      rw [numbered, height_node, leftHypothesis, rightHypothesis,
        height_node]

/-- Numbering keeps a shape balanced. -/
theorem balanced_numbered
    {shape : Shape ι} (start : Nat)
    (balanced : shape.Balanced) :
    (numbered start shape).Balanced := by
  induction shape generalizing start with
  | leaf =>
      trivial
  | node left hook balance right leftHypothesis rightHypothesis =>
      obtain ⟨isBalance, low, high, leftBalanced, rightBalanced⟩ := balanced
      rw [numbered, balanced_node, height_numbered, height_numbered]
      exact ⟨isBalance, low, high, leftHypothesis _ leftBalanced,
        rightHypothesis _ rightBalanced⟩

/-- A search that ends below a lowest hook is not done after the height. -/
theorem findFrom_runs_out
    {memory : Memory Nat} {pointer parent : Option Nat} {fuel : Nat}
    (shape : Shape ι) (start : Nat)
    (represents : Represents memory pointer parent (numbered start shape))
    (few : fuel ≤ shape.height) :
    ∃ gap, start ≤ gap ∧ gap ≤ start + shape.inorder.length ∧
      findFrom (fun hook => byNumber hook (2 * gap)) fuel memory pointer =
        .error .outOfFuel := by
  induction shape generalizing start pointer parent fuel with
  | leaf =>
      cases Nat.le_zero.mp few
      exact ⟨start, Nat.le_refl _, Nat.le_refl _, rfl⟩
  | node left hook balance right leftHypothesis rightHypothesis =>
      cases fuel with
      | zero =>
          exact ⟨start, Nat.le_refl _, Nat.le_add_right _ _, rfl⟩
      | succ fuel =>
          obtain ⟨rfl, -, -, isLeft, isRight⟩ := represents
          rw [height_node, Nat.succ_le_succ_iff, le_max_iff] at few
          rw [inorder_node, List.length_append, List.length_cons]
          rcases few with inLeft | inRight
          · obtain ⟨gap, atLeast, atMost, runsOut⟩ :=
              leftHypothesis start isLeft inLeft
            refine ⟨gap, atLeast, by omega, ?_⟩
            rw [findFrom, if_pos (by rw [byNumber]; omega)]
            exact runsOut
          · obtain ⟨gap, atLeast, atMost, runsOut⟩ :=
              rightHypothesis _ isRight inRight
            refine ⟨gap, by omega, by omega, ?_⟩
            rw [findFrom, if_neg (by rw [byNumber]; omega),
              if_pos (by rw [byNumber]; omega)]
            exact runsOut

/--
The number of rounds that suffice for every search in every tree of so many
hooks.
-/
theorem search_rounds_iff (count fuel : Nat) :
    (∀ (memory : Memory Nat) (tree : Tree Nat) (shape : Shape Nat)
        (sought : Nat),
      ThreeWayOn tree.cmp (fun hook : Nat => hook) (fun _ => True) →
        WellFormed memory tree shape → shape.inorder.length = count →
          ∃ found,
            find fuel memory tree (fun stored => tree.cmp stored sought) =
              .ok found) ↔
      count + 1 < Nat.fib (fuel + 2) := by
  refine ⟨?_, ?_⟩
  · intro enough
    by_contra many
    obtain ⟨shape, balanced, high, isCount⟩ :=
      exists_balanced_of_length () count fuel (Nat.le_of_not_lt many)
    let memory : Memory Nat :=
      layout none (numbered 0 shape) fun _ => ⟨none, none, none, 0, none⟩
    let tree : Tree Nat := ⟨0, (numbered 0 shape).root, byNumber, none⟩
    have sorted :
        (numbered 0 shape).inorder.Pairwise fun earlier later =>
          earlier < later := by
      rw [inorder_numbered, List.pairwise_map]
      apply (List.pairwise_lt_range' 1).imp
      intro earlier later less
      omega
    have represents :
        Represents memory tree.root none (numbered 0 shape) :=
      represents_layout _ none (sorted.imp fun less => Nat.ne_of_lt less)
    have wellFormed : WellFormed memory tree (numbered 0 shape) :=
      { represents := represents
        ordered :=
          (threeWay_byNumber.ordered_iff_sorted fun _ _ => trivial).mpr sorted
        balanced := balanced_numbered 0 balanced
        counted := nofun }
    obtain ⟨gap, -, -, runsOut⟩ :=
      findFrom_runs_out shape 0 represents high
    obtain ⟨found, finds⟩ :=
      enough memory tree _ (2 * gap) threeWay_byNumber wellFormed
        (by rw [inorder_numbered, List.length_map, List.length_range',
          isCount])
    rw [find] at finds
    obtain ⟨-, -, finds⟩ := of_bind finds
    cases runsOut.symm.trans finds
  · intro few memory tree shape sought _ wellFormed isCount
    refine ⟨_, find_eq _ wellFormed.represents wellFormed.balanced ?_⟩
    apply height_lt_of_length_lt wellFormed.balanced
    rw [isCount]
    exact few

end Dfk.AvlTree
