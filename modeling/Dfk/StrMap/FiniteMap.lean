import Dfk.StrMap.Source
import Dfk.AvlTree.Insert
import Dfk.AvlTree.Erase
import Dfk.AvlTree.Traverse

/-!
# String maps as finite maps

The abstract map is the list of stored items.  A run of the source agrees with
it as long as no two of the keys in use are confused by the comparison, and
only then.
-/

namespace Dfk.StrMap

open AvlTree AvlShape AvlShape.Shape

/-!
## The abstract map
-/

/-- Store an item unless its key is already there. -/
def store (stored : List Item) (item : Item) : List Item :=
  if ∃ other ∈ stored, other.key = item.key then stored
  else item :: stored

/-- The value stored under a key. -/
def lookup (stored : List Item) (key : Bytes) : Buf :=
  match stored.find? fun item => item.key = key with
  | some item => item.value
  | none => { data := none, size := 0 }

/-- One call on the abstract map. -/
def expect (stored : List Item) : Call → Answer × List Item
  | .insert item => (.done, store stored item)
  | .erase item => (.done, stored.erase item)
  | .get key => (.value (lookup stored key), stored)
  | .size => (.count stored.length, stored)

/-- A sequence of calls on the abstract map. -/
def expectAll (stored : List Item) : List Call → List Answer
  | [] => []
  | call :: calls =>
      (expect stored call).1 :: expectAll (expect stored call).2 calls

/-- Calls a client may make. -/
def Allowed (stored : List Item) : Call → Prop
  | .insert item =>
      item.key ≠ [] ∧
        (item.value.data.isSome ∨ item.value.size = 0) ∧
        item ∉ stored
  | .erase item => item ∈ stored
  | .get key => key ≠ []
  | .size => True

/-- Sequences of calls a client may make. -/
def AllAllowed (stored : List Item) : List Call → Prop
  | [] => True
  | call :: calls =>
      Allowed stored call ∧ AllAllowed (expect stored call).2 calls

/-- The keys of a call are taken from a set. -/
def Call.KeyIn (keys : Bytes → Prop) : Call → Prop
  | .insert item => keys item.key
  | .erase _ => True
  | .get key => keys key
  | .size => True

/-!
## Comparison of keys
-/

/-- No two keys of a set are confused by `strncmp`. -/
def Apart (keys : Bytes → Prop) : Prop :=
  ∀ left right, keys left → keys right → ¬ Confusable left right

/-- Different keys compare by their first different characters. -/
theorem lookupCmp_of_apart
    {keys : Bytes → Prop}
    (apart : Apart keys)
    {left right : Bytes}
    (leftIn : keys left)
    (rightIn : keys right)
    (different : left ≠ right) :
    lookupCmp left right =
        strncmp (min left.length right.length) left right ∧
      lookupCmp left right ≠ 0 := by
  have unequal :
      strncmp (min left.length right.length) left right ≠ 0 := by
    intro equal
    exact apart left right leftIn rightIn
      ⟨different, (strncmp_eq_zero_iff left right).mp equal⟩
  have sameResult :
      lookupCmp left right =
        strncmp (min left.length right.length) left right := by
    simp [lookupCmp, unequal]
  exact ⟨sameResult, sameResult ▸ unequal⟩

/-- A key equals itself. -/
theorem lookupCmp_self (key : Bytes) : lookupCmp key key = 0 := by
  simp [lookupCmp]

/-- The comparison is negative on lexicographically smaller keys. -/
theorem lookupCmp_neg_iff
    {keys : Bytes → Prop}
    (apart : Apart keys)
    {left right : Bytes}
    (leftIn : keys left)
    (rightIn : keys right) :
    lookupCmp left right < 0 ↔ characters left < characters right := by
  by_cases same : left = right
  · simp [same, lookupCmp_self]
  · obtain ⟨result, unequal⟩ :=
      lookupCmp_of_apart apart leftIn rightIn same
    rw [result] at unequal ⊢
    constructor
    · exact characters_lt_of_strncmp_neg
    · intro less
      rcases Int.lt_or_gt_of_ne unequal with negative | positive
      · exact negative
      · exact absurd (characters_lt_of_strncmp_pos positive) less.asymm

/-- The comparison is positive on lexicographically greater keys. -/
theorem lookupCmp_pos_iff
    {keys : Bytes → Prop}
    (apart : Apart keys)
    {left right : Bytes}
    (leftIn : keys left)
    (rightIn : keys right) :
    0 < lookupCmp left right ↔ characters right < characters left := by
  by_cases same : left = right
  · simp [same, lookupCmp_self]
  · obtain ⟨result, unequal⟩ :=
      lookupCmp_of_apart apart leftIn rightIn same
    rw [result] at unequal ⊢
    constructor
    · exact characters_lt_of_strncmp_pos
    · intro less
      rcases Int.lt_or_gt_of_ne unequal with negative | positive
      · exact absurd (characters_lt_of_strncmp_neg negative) less.asymm
      · exact positive

/-- Items are ordered by descending keys. -/
def order (item : Item) : OrderDual (List Nat) :=
  OrderDual.toDual (characters item.key)

/-- On keys that are not confused the comparison orders the items. -/
theorem threeWay_of_apart
    {keys : Bytes → Prop}
    (apart : Apart keys) :
    ThreeWayOn cmp order fun item => keys item.key where
  neg_iff := fun storedIn otherIn =>
    lookupCmp_neg_iff apart storedIn otherIn
  pos_iff := fun storedIn otherIn =>
    lookupCmp_pos_iff apart storedIn otherIn

/-!
## Simulation
-/

/-- No key is stored twice. -/
def DistinctKeys (stored : List Item) : Prop :=
  stored.Pairwise fun first second => first.key ≠ second.key

/-- A stored item is found under its key. -/
theorem lookup_of_mem
    {stored : List Item} {item : Item}
    (distinct : DistinctKeys stored)
    (member : item ∈ stored) :
    lookup stored item.key = item.value := by
  induction stored with
  | nil =>
      simp at member
  | cons head rest inductionHypothesis =>
      obtain ⟨headDistinct, restDistinct⟩ := List.pairwise_cons.mp distinct
      rcases List.mem_cons.mp member with rfl | inRest
      · simp [lookup]
      · have differs := headDistinct item inRest
        simpa [lookup, differs] using
          inductionHypothesis restDistinct inRest

/-- Nothing is found under a key that is not stored. -/
theorem lookup_of_absent
    {stored : List Item} {key : Bytes}
    (absent : ∀ item ∈ stored, item.key ≠ key) :
    lookup stored key = { data := none, size := 0 } := by
  have nothing :
      (stored.find? fun item => item.key = key) = none := by
    simpa [List.find?_eq_none] using absent
  simp [lookup, nothing]

/-- The tree of a map holds exactly the stored items. -/
structure Holds
    (keys : Bytes → Prop)
    (state : State)
    (stored : List Item)
    (shape : Shape Item) : Prop where
  wellFormed : WellFormed state.memory state.map shape
  comparison : state.map.cmp = cmp
  contents : shape.inorder.Perm stored
  keysIn : ∀ item ∈ stored, keys item.key

namespace Holds

variable {keys : Bytes → Prop} {state : State} {stored : List Item}
variable {shape : Shape Item}

/-- Keys of the items in the tree. -/
theorem inorderIn (holds : Holds keys state stored shape) :
    ∀ item ∈ shape.inorder, keys item.key :=
  fun item member =>
    holds.keysIn item (holds.contents.mem_iff.mp member)

/-- The height of the tree is bounded by the number of items. -/
theorem height_le (holds : Holds keys state stored shape) :
    shape.height ≤ stored.length := by
  rw [← holds.contents.length_eq]
  exact height_le_length shape

/-- The items of the tree are sorted. -/
theorem sorted
    (holds : Holds keys state stored shape)
    (apart : Apart keys) :
    shape.inorder.Pairwise fun earlier later =>
      order earlier < order later := by
  have ordered := holds.wellFormed.ordered
  rw [holds.comparison] at ordered
  exact ((threeWay_of_apart apart).ordered_iff_sorted
    holds.inorderIn).mp ordered

/-- No key is stored twice. -/
theorem distinct
    (holds : Holds keys state stored shape)
    (apart : Apart keys) :
    DistinctKeys stored := by
  have inTree : DistinctKeys shape.inorder := by
    apply (holds.sorted apart).imp
    intro first second less same
    simp [order, same] at less
  exact holds.contents.pairwise inTree fun differs => differs.symm

end Holds

/-- An initialised map holds nothing. -/
theorem holds_init
    (keys : Bytes → Prop) (memory : Memory Item) (self : Nat)
    (constantTimeSize : Bool) :
    Holds keys (init memory self constantTimeSize) [] leaf where
  wellFormed := wellFormed_init memory self constantTimeSize cmp
  comparison := rfl
  contents := List.Perm.refl []
  keysIn := by simp

/-- Looking a key up agrees with the abstract map. -/
theorem get_eq
    {keys : Bytes → Prop} {state : State} {stored : List Item}
    {shape : Shape Item} {key : Bytes} {fuel : Nat}
    (apart : Apart keys)
    (holds : Holds keys state stored shape)
    (keyIn : keys key)
    (notEmpty : key ≠ [])
    (enough : stored.length < fuel) :
    get fuel state key = .ok (lookup stored key) := by
  have shallow : shape.height < fuel :=
    Nat.lt_of_le_of_lt holds.height_le enough
  have search :=
    find_eq (fun item => lookupCmp item.key key)
      holds.wellFormed.represents holds.wellFormed.balanced shallow
  rw [get, check_pos notEmpty, ok_bind, search, ok_bind]
  cases found : AvlShape.find (fun item => lookupCmp item.key key)
      shape with
  | some item =>
      obtain ⟨member, equal⟩ := find_sound found
      have sameKey : item.key = key := by
        by_contra different
        exact (lookupCmp_of_apart apart (holds.inorderIn item member)
          keyIn different).2 equal
      have value :=
        lookup_of_mem (holds.distinct apart)
          (holds.contents.mem_iff.mp member)
      simp [← value, sameKey]
  | none =>
      have absent : ∀ item ∈ stored, item.key ≠ key := by
        rintro item member rfl
        let probe : Item :=
          { address := 0, key := item.key, value := item.value }
        have steered :=
          (threeWay_of_apart apart).steered_of_sorted holds.inorderIn
            (holds.sorted apart) (show keys probe.key from keyIn)
        have finds := find_complete steered
          (holds.contents.mem_iff.mpr member)
          (lookupCmp_self item.key)
        have found : AvlShape.find (fun label => cmp label probe) shape =
            none := found
        simp [found] at finds
      simp [lookup_of_absent absent]

/-- The number of items agrees with the abstract map. -/
theorem size_eq
    {keys : Bytes → Prop} {state : State} {stored : List Item}
    {shape : Shape Item} {fuel : Nat}
    (apart : Apart keys)
    (holds : Holds keys state stored shape)
    (enough : 2 * stored.length < fuel) :
    size fuel state = .ok stored.length := by
  have sameLength := holds.contents.length_eq
  have shallow := holds.height_le
  have noDuplicates : shape.inorder.Nodup :=
    (holds.sorted apart).imp fun less same => less.ne (congrArg order same)
  rw [size, AvlTree.size_eq holds.wellFormed.represents
    holds.wellFormed.balanced holds.wellFormed.counted noDuplicates
    (by omega), sameLength]

/-- Initialising an item outside of the map leaves the map alone. -/
theorem Holds.hookInit
    {keys : Bytes → Prop} {state : State} {stored : List Item}
    {shape : Shape Item} {item : Item}
    (holds : Holds keys state stored shape)
    (outside : item ∉ stored) :
    Holds keys
      { state with memory := hookInit false state.memory item }
      stored shape where
  wellFormed := {
    represents := by
      refine holds.wellFormed.represents.frame fun hook member => ?_
      have other : hook ≠ item := by
        rintro rfl
        exact outside (holds.contents.mem_iff.mp member)
      simp [AvlTree.hookInit, Memory.modify, other]
    ordered := holds.wellFormed.ordered
    balanced := holds.wellFormed.balanced
    counted := holds.wellFormed.counted
  }
  comparison := holds.comparison
  contents := holds.contents
  keysIn := holds.keysIn

/-- Inserting a fresh item agrees with the abstract map. -/
theorem insert_eq
    {keys : Bytes → Prop} {state : State} {stored : List Item}
    {shape : Shape Item} {item : Item} {fuel : Nat}
    (apart : Apart keys)
    (holds : Holds keys state stored shape)
    (keyIn : keys item.key)
    (fresh : Fresh state.memory item)
    (enough : stored.length < fuel) :
    ∃ newState newShape,
      insert fuel state item = .ok newState ∧
        Holds keys newState (store stored item) newShape := by
  have shallow : shape.height < fuel :=
    Nat.lt_of_le_of_lt holds.height_le enough
  have threeWay := threeWay_of_apart apart
  rw [← holds.comparison] at threeWay
  by_cases present : ∃ other ∈ stored, other.key = item.key
  · obtain ⟨other, member, sameKey⟩ := id present
    have refused :
        AvlTree.insert fuel state.memory state.map item =
          .ok (none, state.map, state.memory) := by
      refine insert_of_stored threeWay holds.inorderIn keyIn
        holds.wellFormed fresh shallow
        ⟨other, holds.contents.mem_iff.mpr member, ?_⟩
      rw [holds.comparison, cmp, sameKey]
      exact lookupCmp_self item.key
    refine ⟨state, shape, by simp [insert, refused], ?_⟩
    rw [store, if_pos present]
    exact holds
  · have absent :
        ∀ other ∈ shape.inorder, state.map.cmp other item ≠ 0 := by
      intro other member
      have inStored := holds.contents.mem_iff.mp member
      rw [holds.comparison]
      exact (lookupCmp_of_apart apart (holds.keysIn other inStored) keyIn
        fun sameKey => present ⟨other, inStored, sameKey⟩).2
    obtain ⟨newTree, changed, inserted, run, placed⟩ :=
      insert_of_absent threeWay holds.inorderIn keyIn holds.wellFormed
        fresh shallow absent
    refine ⟨{ memory := changed, map := newTree }, inserted,
      by simp [insert, run], ?_⟩
    rw [store, if_neg present]
    obtain ⟨before, after, oldSequence, newSequence, -⟩ := placed.placed
    refine ⟨placed.wellFormed, placed.sameCmp.trans holds.comparison,
      ?_, ?_⟩
    · rw [newSequence]
      apply List.perm_middle.trans
      rw [← oldSequence]
      exact holds.contents.cons item
    · intro other member
      rcases List.mem_cons.mp member with rfl | inStored
      · exact keyIn
      · exact holds.keysIn other inStored

/-- Erasing a stored item agrees with the abstract map. -/
theorem erase_eq
    {keys : Bytes → Prop} {state : State} {stored : List Item}
    {shape : Shape Item} {item : Item} {fuel : Nat}
    (apart : Apart keys)
    (holds : Holds keys state stored shape)
    (member : item ∈ stored)
    (enough : stored.length < fuel) :
    ∃ newState newShape,
      erase false fuel state item = .ok newState ∧
        Holds keys newState (stored.erase item) newShape := by
  have shallow : shape.height < fuel :=
    Nat.lt_of_le_of_lt holds.height_le enough
  have threeWay := threeWay_of_apart apart
  rw [← holds.comparison] at threeWay
  have noDuplicates : shape.inorder.Nodup :=
    (holds.sorted apart).imp fun less same => less.ne (congrArg order same)
  obtain ⟨newTree, changed, erased, run, result⟩ :=
    erase_wellFormed threeWay holds.inorderIn holds.wellFormed
      (holds.contents.mem_iff.mpr member) shallow
  obtain ⟨before, after, oldSequence, newSequence⟩ := result.sequence
  refine ⟨{ memory := changed, map := newTree }, erased,
    by simp [erase, run], ?_⟩
  refine ⟨result.wellFormed, result.sameCmp.trans holds.comparison,
    ?_, fun other stays => holds.keysIn other
      (List.mem_of_mem_erase stays)⟩
  have notBefore : item ∉ before := by
    rw [oldSequence] at noDuplicates
    intro inBefore
    exact (List.nodup_append.mp noDuplicates).2.2 item inBefore item
      (by simp) rfl
  have withoutItem : shape.inorder.erase item = before ++ after := by
    rw [oldSequence, List.erase_append_right _ notBefore,
      List.erase_cons_head]
  rw [newSequence, ← withoutItem]
  exact holds.contents.erase item

/-- One call agrees with the abstract map. -/
theorem perform_eq
    {keys : Bytes → Prop} {state : State} {stored : List Item}
    {shape : Shape Item} {call : Call} {fuel : Nat}
    (apart : Apart keys)
    (holds : Holds keys state stored shape)
    (keyIn : call.KeyIn keys)
    (allowed : Allowed stored call)
    (enough : 2 * stored.length < fuel) :
    ∃ newState newShape,
      perform fuel state call =
        .ok ((expect stored call).1, newState) ∧
      Holds keys newState (expect stored call).2 newShape := by
  cases call with
  | insert item =>
      obtain ⟨notEmpty, valueGiven, outside⟩ := allowed
      obtain ⟨newState, newShape, run, newHolds⟩ :=
        insert_eq apart (holds.hookInit outside) keyIn
          (fresh_hookInit false state.memory item)
          (show stored.length < fuel by omega)
      refine ⟨newState, newShape, ?_, newHolds⟩
      simp [perform, itemInit, check_pos notEmpty, check_pos valueGiven,
        run, expect]
  | erase item =>
      obtain ⟨newState, newShape, run, newHolds⟩ :=
        erase_eq apart holds allowed (show stored.length < fuel by omega)
      exact ⟨newState, newShape, by simp [perform, run, expect],
        newHolds⟩
  | get key =>
      have value := get_eq apart holds keyIn allowed
        (show stored.length < fuel by omega)
      exact ⟨state, shape, by simp [perform, value, expect], holds⟩
  | size =>
      have count := size_eq apart holds enough
      exact ⟨state, shape, by simp [perform, count, expect], holds⟩

/-- A call stores at most one item. -/
theorem length_expect_le (stored : List Item) (call : Call) :
    (expect stored call).2.length ≤ stored.length + 1 := by
  cases call with
  | insert item =>
      simp only [expect, store]
      split_ifs <;> simp
  | erase item =>
      have := List.length_erase_le (a := item) (l := stored)
      simp only [expect]
      omega
  | get key =>
      simp [expect]
  | size =>
      simp [expect]

/-- A run agrees with the abstract map. -/
theorem run_eq
    {keys : Bytes → Prop} {state : State} {stored : List Item}
    {shape : Shape Item} {calls : List Call} {fuel : Nat}
    (apart : Apart keys)
    (holds : Holds keys state stored shape)
    (keysIn : ∀ call ∈ calls, call.KeyIn keys)
    (allowed : AllAllowed stored calls)
    (enough : 2 * (stored.length + calls.length) < fuel) :
    ∃ newState,
      run fuel state calls = .ok (expectAll stored calls, newState) := by
  induction calls generalizing state stored shape with
  | nil =>
      exact ⟨state, rfl⟩
  | cons call rest inductionHypothesis =>
      obtain ⟨callAllowed, restAllowed⟩ := allowed
      simp only [List.length_cons] at enough
      obtain ⟨nextState, nextShape, step, nextHolds⟩ :=
        perform_eq apart holds (keysIn call (by simp)) callAllowed
          (show 2 * stored.length < fuel by omega)
      have grows := length_expect_le stored call
      obtain ⟨newState, remaining⟩ :=
        inductionHypothesis nextHolds
          (fun other member => keysIn other (by simp [member]))
          restAllowed (by omega)
      exact ⟨newState, by simp [run, step, remaining, expectAll]⟩

/-!
## Independence of the order of insertion
-/

/-- A permuted map finds the same values. -/
theorem lookup_perm
    {first second : List Item}
    (distinct : DistinctKeys first)
    (permuted : first.Perm second)
    (key : Bytes) :
    lookup first key = lookup second key := by
  have secondDistinct : DistinctKeys second :=
    permuted.pairwise distinct fun differs => differs.symm
  by_cases present : ∃ item ∈ first, item.key = key
  · obtain ⟨item, member, rfl⟩ := present
    rw [lookup_of_mem distinct member,
      lookup_of_mem secondDistinct (permuted.mem_iff.mp member)]
  · have absent : ∀ item ∈ first, item.key ≠ key :=
      fun item member same => present ⟨item, member, same⟩
    rw [lookup_of_absent absent, lookup_of_absent fun item member =>
      absent item (permuted.mem_iff.mpr member)]

/-- A call keeps keys distinct. -/
theorem distinctKeys_expect
    {stored : List Item}
    (distinct : DistinctKeys stored)
    (call : Call) :
    DistinctKeys (expect stored call).2 := by
  cases call with
  | insert item =>
      simp only [expect, store]
      split_ifs with present
      · exact distinct
      · exact List.pairwise_cons.mpr
          ⟨fun other member same => present ⟨other, member, same.symm⟩,
            distinct⟩
  | erase item =>
      exact distinct.sublist List.erase_sublist
  | get key =>
      exact distinct
  | size =>
      exact distinct

/-- A call on permuted maps gives the same answer and permuted maps. -/
theorem expect_perm
    {first second : List Item}
    (distinct : DistinctKeys first)
    (permuted : first.Perm second)
    (call : Call) :
    (expect first call).1 = (expect second call).1 ∧
      (expect first call).2.Perm (expect second call).2 := by
  cases call with
  | insert item =>
      have samePresence :
          (∃ other ∈ first, other.key = item.key) ↔
            ∃ other ∈ second, other.key = item.key := by
        simp only [permuted.mem_iff]
      refine ⟨rfl, ?_⟩
      simp only [expect, store, samePresence]
      split_ifs
      · exact permuted
      · exact permuted.cons item
  | erase item =>
      exact ⟨rfl, permuted.erase item⟩
  | get key =>
      exact ⟨by simp [expect, lookup_perm distinct permuted key],
        permuted⟩
  | size =>
      exact ⟨by simp [expect, permuted.length_eq], permuted⟩

/-- Permuted maps answer every sequence of calls alike. -/
theorem expectAll_perm
    {first second : List Item}
    (distinct : DistinctKeys first)
    (permuted : first.Perm second)
    (calls : List Call) :
    expectAll first calls = expectAll second calls := by
  induction calls generalizing first second with
  | nil =>
      rfl
  | cons call rest inductionHypothesis =>
      obtain ⟨sameAnswer, stillPermuted⟩ :=
        expect_perm distinct permuted call
      simp only [expectAll]
      rw [sameAnswer,
        inductionHypothesis (distinctKeys_expect distinct call)
          stillPermuted]

/-- Items with distinct keys are all stored. -/
theorem store_all_perm
    {items stored : List Item}
    (distinct : DistinctKeys (items ++ stored)) :
    (items.foldl store stored).Perm (items ++ stored) := by
  induction items generalizing stored with
  | nil =>
      exact List.Perm.refl stored
  | cons item rest inductionHypothesis =>
      have shifted : (rest ++ item :: stored).Perm
          (item :: rest ++ stored) :=
        List.perm_middle
      obtain ⟨headDistinct, -⟩ := List.pairwise_cons.mp distinct
      have absent : ¬ ∃ other ∈ stored, other.key = item.key := by
        rintro ⟨other, member, same⟩
        exact headDistinct other (by simp [member]) same.symm
      rw [List.foldl_cons, store, if_neg absent]
      exact (inductionHypothesis
        (shifted.symm.pairwise distinct fun differs => differs.symm)).trans
          shifted

/-- What the abstract map answers after a row of insertions. -/
theorem expectAll_inserts
    (items stored : List Item) (calls : List Call) :
    expectAll stored (items.map Call.insert ++ calls) =
      items.map (fun _ => Answer.done) ++
        expectAll (items.foldl store stored) calls := by
  induction items generalizing stored with
  | nil =>
      rfl
  | cons item rest inductionHypothesis =>
      simp [expectAll, expect, inductionHypothesis]

/-!
## When string maps are finite maps
-/

/-- The answers to a sequence of calls on an initialised map. -/
def answers
    (fuel : Nat) (memory : Memory Item) (self : Nat)
    (constantTimeSize : Bool) (calls : List Call) :
    Except Fault (List Answer) :=
  Prod.fst <$> run fuel (init memory self constantTimeSize) calls

/--
On the given keys, every run from an initialised map answers like the abstract
map, and items with distinct keys may be inserted in any order.
-/
structure IsFiniteMap (keys : Bytes → Prop) : Prop where
  agrees :
    ∀ memory self constantTimeSize calls fuel,
      (∀ call ∈ calls, call.KeyIn keys) →
      AllAllowed [] calls →
      2 * calls.length < fuel →
      answers fuel memory self constantTimeSize calls =
        .ok (expectAll [] calls)
  orderFree :
    ∀ memory self constantTimeSize first second calls fuel,
      first.Perm second →
      DistinctKeys first →
      (∀ call ∈ first.map Call.insert ++ calls, call.KeyIn keys) →
      AllAllowed [] (first.map Call.insert ++ calls) →
      AllAllowed [] (second.map Call.insert ++ calls) →
      2 * (first.length + calls.length) < fuel →
      answers fuel memory self constantTimeSize
          (first.map Call.insert ++ calls) =
        answers fuel memory self constantTimeSize
          (second.map Call.insert ++ calls)

/-- Runs on keys that are not confused. -/
theorem answers_of_apart
    {keys : Bytes → Prop}
    (apart : Apart keys)
    (memory : Memory Item) (self : Nat) (constantTimeSize : Bool)
    {calls : List Call} {fuel : Nat}
    (keysIn : ∀ call ∈ calls, call.KeyIn keys)
    (allowed : AllAllowed [] calls)
    (enough : 2 * calls.length < fuel) :
    answers fuel memory self constantTimeSize calls =
      .ok (expectAll [] calls) := by
  obtain ⟨newState, result⟩ :=
    run_eq apart (holds_init keys memory self constantTimeSize) keysIn
      allowed (by simpa using enough)
  simp [answers, result]

/-- The order of insertion does not matter on keys that are not confused. -/
theorem orderFree_of_apart
    {keys : Bytes → Prop}
    (apart : Apart keys)
    (memory : Memory Item) (self : Nat) (constantTimeSize : Bool)
    {first second : List Item} {calls : List Call} {fuel : Nat}
    (permuted : first.Perm second)
    (distinct : DistinctKeys first)
    (keysIn :
      ∀ call ∈ first.map Call.insert ++ calls, call.KeyIn keys)
    (firstAllowed : AllAllowed [] (first.map Call.insert ++ calls))
    (secondAllowed : AllAllowed [] (second.map Call.insert ++ calls))
    (enough : 2 * (first.length + calls.length) < fuel) :
    answers fuel memory self constantTimeSize
        (first.map Call.insert ++ calls) =
      answers fuel memory self constantTimeSize
        (second.map Call.insert ++ calls) := by
  have sameCalls :
      (first.map Call.insert ++ calls).Perm
        (second.map Call.insert ++ calls) :=
    (permuted.map Call.insert).append_right calls
  have sameLength := permuted.length_eq
  rw [answers_of_apart apart memory self constantTimeSize keysIn
      firstAllowed (by simpa using enough),
    answers_of_apart apart memory self constantTimeSize
      (fun call member => keysIn call (sameCalls.mem_iff.mpr member))
      secondAllowed (by simpa [← sameLength] using enough),
    expectAll_inserts, expectAll_inserts]
  have secondDistinct : DistinctKeys second :=
    permuted.pairwise distinct fun differs => differs.symm
  have stored :
      (first.foldl store []).Perm (second.foldl store []) := by
    apply (store_all_perm (by simpa using distinct)).trans
    apply List.Perm.trans ?_
      (store_all_perm (by simpa using secondDistinct)).symm
    simpa using permuted
  have allDistinct : DistinctKeys (first ++ []) := by
    simpa using distinct
  have firstStored : DistinctKeys (first.foldl store []) :=
    (store_all_perm allDistinct).symm.pairwise allDistinct
      fun differs => differs.symm
  rw [expectAll_perm firstStored stored]
  simp [sameLength]

/-- A key that is confused with a stored one finds its value. -/
theorem answers_of_confused
    (memory : Memory Item) (self : Nat) (constantTimeSize : Bool)
    {item : Item} {key : Bytes}
    (itemNotEmpty : item.key ≠ [])
    (valueGiven : item.value.data.isSome ∨ item.value.size = 0)
    (notEmpty : key ≠ [])
    (confused : lookupCmp item.key key = 0) :
    answers 5 memory self constantTimeSize [.insert item, .get key] =
      .ok [.done, .value item.value] := by
  have empty := wellFormed_init memory self constantTimeSize cmp
  have untouched :
      Represents (hookInit false memory item)
        (AvlTree.init self constantTimeSize cmp).root none leaf :=
    empty.represents
  obtain ⟨root, changed, inserted, represents, -⟩ :=
    insert_of_accepted untouched empty.balanced empty.counted
      List.nodup_nil (List.not_mem_nil : item ∉ [])
      (fresh_hookInit false memory item) (show 0 < 5 by omega) rfl
  have search :=
    find_eq (fun stored => lookupCmp stored.key key)
      (show Represents changed
        ({ AvlTree.init self constantTimeSize cmp with
          root := root,
          size := (AvlTree.init self constantTimeSize cmp).size.map
            (· + 1) } : AvlTree.Tree Item).root none
        (node leaf item 0 leaf) from represents)
      (by simp) (show 1 < 5 by omega)
  have finds :
      AvlShape.find (fun stored => lookupCmp stored.key key)
        (node leaf item 0 leaf) = some item := by
    simp [AvlShape.find, confused]
  rw [finds] at search
  simp [answers, run, perform, init, itemInit, insert, get,
    check_pos itemNotEmpty, check_pos valueGiven, check_pos notEmpty,
    inserted, search]

/-- Two keys that are confused make some run differ from a finite map. -/
theorem not_confusable_of_agrees
    {keys : Bytes → Prop}
    (notEmpty : ∀ key, keys key → key ≠ [])
    (isFiniteMap : IsFiniteMap keys)
    {left right : Bytes}
    (leftIn : keys left)
    (rightIn : keys right)
    (shorter : left.length ≤ right.length) :
    ¬ Confusable left right := by
  rintro ⟨different, reason⟩
  have equal : lookupCmp left right = 0 := by
    have same := (strncmp_eq_zero_iff left right).mpr reason
    simp [lookupCmp, same, Nat.not_lt.mpr shorter]
  let item : Item :=
    { address := 0, key := left, value := { data := some 0, size := 0 } }
  have expected :=
    isFiniteMap.agrees (fun _ => ⟨none, none, none, 0, none⟩) 0 true
      [.insert item, .get right] 5
      (by simp [Call.KeyIn, item, leftIn, rightIn])
      (by simp [AllAllowed, Allowed, item, notEmpty left leftIn,
        notEmpty right rightIn])
      (by simp)
  rw [answers_of_confused _ 0 true
    (show item.key ≠ [] from notEmpty left leftIn) (by simp [item])
    (notEmpty right rightIn) equal] at expected
  simp [expectAll, expect, store, lookup, item, different] at expected

/--
`dfk_strmap_t` is a finite map over a set of keys exactly when no two of the
keys are confused: none is a prefix of another one, and no two agree up to a
zero byte.
-/
theorem isFiniteMap_iff
    {keys : Bytes → Prop}
    (notEmpty : ∀ key, keys key → key ≠ []) :
    IsFiniteMap keys ↔
      ∀ left right, keys left → keys right → ¬ Confusable left right := by
  constructor
  · intro isFiniteMap left right leftIn rightIn confusable
    rcases Nat.le_total left.length right.length with shorter | shorter
    · exact not_confusable_of_agrees notEmpty isFiniteMap leftIn rightIn
        shorter confusable
    · exact not_confusable_of_agrees notEmpty isFiniteMap rightIn leftIn
        shorter confusable.symm
  · intro apart
    exact {
      agrees := fun memory self constantTimeSize _ _ keysIn allowed
          enough =>
        answers_of_apart apart memory self constantTimeSize keysIn
          allowed enough
      orderFree := fun memory self constantTimeSize _ _ _ _ permuted
          distinct keysIn firstAllowed secondAllowed enough =>
        orderFree_of_apart apart memory self constantTimeSize permuted
          distinct keysIn firstAllowed secondAllowed enough
    }

/-- `Host` and `Accept` are not confused. -/
theorem isFiniteMap_iff_host_accept :
    IsFiniteMap (fun key => key = ascii "Host" ∨ key = ascii "Accept") ↔
      ∀ left right,
        left = ascii "Host" ∨ left = ascii "Accept" →
        right = ascii "Host" ∨ right = ascii "Accept" →
        ¬ Confusable left right :=
  isFiniteMap_iff (by rintro key (rfl | rfl) <;> decide)

/-- A header, and one whose name continues that of the first. -/
def accept : Item :=
  { address := 0, key := ascii "Accept",
    value := { data := some 64, size := 3 } }

@[inherit_doc accept]
def acceptEncoding : Item :=
  { address := 1, key := ascii "Accept-Encoding",
    value := { data := some 80, size := 4 } }

/-- `Accept-Encoding` is dropped when `Accept` is stored before it. -/
theorem acceptEncoding_dropped :
    answers 9 (fun _ => ⟨none, none, none, 0, none⟩) 0 true
        [.insert accept, .insert acceptEncoding,
          .get (ascii "Accept-Encoding"), .size] =
      .ok [.done, .done, .value accept.value, .count 1] ∧
    expectAll []
        [.insert accept, .insert acceptEncoding,
          .get (ascii "Accept-Encoding"), .size] =
      [.done, .done, .value acceptEncoding.value, .count 2] ∧
    ¬ IsFiniteMap fun key => key ≠ [] := by
  refine ⟨by decide, by decide, fun isFiniteMap => ?_⟩
  have expected :=
    isFiniteMap.agrees (fun _ => ⟨none, none, none, 0, none⟩) 0 true
      [.insert accept, .insert acceptEncoding,
        .get (ascii "Accept-Encoding"), .size]
      9
      (by simp [Call.KeyIn]; decide)
      (by simp [AllAllowed, Allowed]; decide)
      (by simp)
  revert expected
  decide

end Dfk.StrMap
