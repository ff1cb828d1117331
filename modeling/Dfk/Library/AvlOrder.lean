import Dfk.Library.AvlInsertion

/-!
# Search order

A search is steered by the sign of a function of the labels.  On a tree whose
in-order sequence respects that sign the search is complete and an insertion
happens at the one place where the sign changes.  Orders enter through a key
function into a linear order and a three-way comparison of the keys.
-/

namespace AvlShape

open Shape

variable {ι κ : Type}

/-- Along the list `turn` says right, then stop, then left. -/
def Steered (turn : ι → Int) (labels : List ι) : Prop :=
  labels.Pairwise fun earlier later =>
    (turn earlier < 0 → turn later < 0) ∧
      (0 < turn later → 0 < turn earlier)

/-- A search only stops at a label of the tree where `turn` is zero. -/
theorem find_sound
    {turn : ι → Int} {shape : Shape ι} {label : ι}
    (found : find turn shape = some label) :
    label ∈ shape.inorder ∧ turn label = 0 := by
  induction shape with
  | leaf =>
      simp [find] at found
  | node left other balance right leftHypothesis rightHypothesis =>
      simp only [find] at found
      split_ifs at found with toLeft toRight
      · obtain ⟨member, stops⟩ := leftHypothesis found
        exact ⟨by simp [member], stops⟩
      · obtain ⟨member, stops⟩ := rightHypothesis found
        exact ⟨by simp [member], stops⟩
      · simp only [Option.some.injEq] at found
        subst found
        exact ⟨by simp, by omega⟩

/-- A steered search finds a label at which it has to stop. -/
theorem find_complete
    {turn : ι → Int} {shape : Shape ι}
    (steered : Steered turn shape.inorder)
    {label : ι}
    (member : label ∈ shape.inorder)
    (stops : turn label = 0) :
    (find turn shape).isSome := by
  induction shape with
  | leaf =>
      simp at member
  | node left other balance right leftHypothesis rightHypothesis =>
      simp only [Steered, inorder_node, List.pairwise_append,
        List.pairwise_cons, List.mem_cons] at steered
      obtain ⟨leftSteered, ⟨fromRoot, rightSteered⟩, acrossRoot⟩ := steered
      simp only [find]
      split_ifs with toLeft toRight
      · refine leftHypothesis leftSteered ?_
        simp only [inorder_node, List.mem_append, List.mem_cons] at member
        rcases member with inLeft | rfl | inRight
        · exact inLeft
        · omega
        · have := (fromRoot label inRight).1 toLeft
          omega
      · refine rightHypothesis rightSteered ?_
        simp only [inorder_node, List.mem_append, List.mem_cons] at member
        rcases member with inLeft | rfl | inRight
        · have := (acrossRoot label inLeft other (Or.inl rfl)).2 toRight
          omega
        · omega
        · exact inRight
      · rfl

/-- A steered insertion separates the smaller labels from the greater. -/
theorem inorder_insert_of_steered
    {turn : ι → Int} {fresh : ι}
    {shape inserted : Shape ι} {grew : Bool}
    (steered : Steered turn shape.inorder)
    (succeeds : insert turn fresh shape = some (inserted, grew)) :
    ∃ before after,
      shape.inorder = before ++ after ∧
        inserted.inorder = before ++ fresh :: after ∧
        (∀ label ∈ before, 0 < turn label) ∧
        (∀ label ∈ after, turn label < 0) := by
  induction shape generalizing inserted grew with
  | leaf =>
      simp only [insert, Option.some.injEq, Prod.mk.injEq] at succeeds
      obtain ⟨rfl, _⟩ := succeeds
      exact ⟨[], [], by simp, by simp, by simp, by simp⟩
  | node left label balance right leftHypothesis rightHypothesis =>
      simp only [Steered, inorder_node, List.pairwise_append,
        List.pairwise_cons, List.mem_cons] at steered
      obtain ⟨leftSteered, ⟨fromRoot, rightSteered⟩, acrossRoot⟩ := steered
      obtain ⟨newLeft, childGrew, toLeft, child, whenGrown, whenStill⟩ |
          ⟨newRight, childGrew, toRight, child, whenGrown, whenStill⟩ :=
        insert_node_cases succeeds
      · obtain ⟨before, after, leftShape, newShape, smaller, greater⟩ :=
          leftHypothesis leftSteered child
        refine ⟨before, after ++ label :: right.inorder,
          by simp [leftShape], ?_, smaller, ?_⟩
        · cases childGrew with
          | true =>
              rw [(whenGrown rfl).1]
              simp [newShape]
          | false =>
              rw [(whenStill rfl).1]
              simp [newShape]
        · intro other member
          simp only [List.mem_append, List.mem_cons] at member
          rcases member with inAfter | rfl | inRight
          · exact greater other inAfter
          · exact toLeft
          · exact (fromRoot other inRight).1 toLeft
      · obtain ⟨before, after, rightShape, newShape, smaller, greater⟩ :=
          rightHypothesis rightSteered child
        refine ⟨left.inorder ++ label :: before, after,
          by simp [rightShape], ?_, ?_, greater⟩
        · cases childGrew with
          | true =>
              rw [(whenGrown rfl).1]
              simp [newShape]
          | false =>
              rw [(whenStill rfl).1]
              simp [newShape]
        · intro other member
          simp only [List.mem_append, List.mem_cons] at member
          rcases member with inLeft | rfl | inBefore
          · exact (acrossRoot other inLeft label (Or.inl rfl)).2 toRight
          · exact toRight
          · exact smaller other inBefore

/-!
## Comparisons of keys
-/

/--
Everything left of a node compares negative against it and everything right
of it positive.
-/
def Ordered (cmp : ι → ι → Int) : Shape ι → Prop
  | leaf => True
  | node left label _ right =>
      (∀ other ∈ left.inorder, cmp label other < 0) ∧
        (∀ other ∈ right.inorder, 0 < cmp label other) ∧
        Ordered cmp left ∧ Ordered cmp right

/--
On the labels in `domain`, `cmp` is the three-way comparison of their keys:
negative when the second key is smaller, positive when it is greater.
-/
structure ThreeWayOn [LinearOrder κ]
    (cmp : ι → ι → Int)
    (key : ι → κ)
    (domain : ι → Prop) : Prop where
  neg_iff :
    ∀ {stored other},
      domain stored → domain other →
      (cmp stored other < 0 ↔ key other < key stored)
  pos_iff :
    ∀ {stored other},
      domain stored → domain other →
      (0 < cmp stored other ↔ key stored < key other)

namespace ThreeWayOn

variable [LinearOrder κ]
variable {cmp : ι → ι → Int} {key : ι → κ} {domain : ι → Prop}

/-- A comparison is zero exactly on equal keys. -/
theorem eq_zero_iff
    (threeWay : ThreeWayOn cmp key domain)
    {stored other : ι}
    (storedIn : domain stored)
    (otherIn : domain other) :
    cmp stored other = 0 ↔ key stored = key other := by
  have negative := threeWay.neg_iff storedIn otherIn
  have positive := threeWay.pos_iff storedIn otherIn
  constructor
  · intro zero
    refine le_antisymm ?_ ?_
    · exact not_lt.mp fun less => by
        have := negative.mpr less
        omega
    · exact not_lt.mp fun less => by
        have := positive.mpr less
        omega
  · intro same
    have notNegative : ¬ cmp stored other < 0 := fun less =>
      (negative.mp less).ne same.symm
    have notPositive : ¬ 0 < cmp stored other := fun less =>
      (positive.mp less).ne same
    omega

/-- A smaller domain keeps the comparison three-way. -/
theorem mono
    (threeWay : ThreeWayOn cmp key domain)
    {smaller : ι → Prop}
    (included : ∀ label, smaller label → domain label) :
    ThreeWayOn cmp key smaller where
  neg_iff storedIn otherIn :=
    threeWay.neg_iff (included _ storedIn) (included _ otherIn)
  pos_iff storedIn otherIn :=
    threeWay.pos_iff (included _ storedIn) (included _ otherIn)

/-- Ordered trees are those with a strictly increasing key sequence. -/
theorem ordered_iff_sorted
    (threeWay : ThreeWayOn cmp key domain)
    {shape : Shape ι}
    (included : ∀ label ∈ shape.inorder, domain label) :
    Ordered cmp shape ↔
      shape.inorder.Pairwise fun earlier later =>
        key earlier < key later := by
  induction shape with
  | leaf =>
      simp [Ordered]
  | node left label balance right leftHypothesis rightHypothesis =>
      have labelIn : domain label := included label (by simp)
      have leftIn : ∀ other ∈ left.inorder, domain other :=
        fun other member => included other (by simp [member])
      have rightIn : ∀ other ∈ right.inorder, domain other :=
        fun other member => included other (by simp [member])
      simp only [Ordered, leftHypothesis leftIn, rightHypothesis rightIn,
        inorder_node, List.pairwise_append, List.pairwise_cons,
        List.mem_cons]
      constructor
      · rintro ⟨smaller, greater, leftSorted, rightSorted⟩
        have belowRoot : ∀ other ∈ left.inorder, key other < key label :=
          fun other member =>
            (threeWay.neg_iff labelIn (leftIn other member)).mp
              (smaller other member)
        have aboveRoot : ∀ other ∈ right.inorder, key label < key other :=
          fun other member =>
            (threeWay.pos_iff labelIn (rightIn other member)).mp
              (greater other member)
        refine ⟨leftSorted, ⟨aboveRoot, rightSorted⟩, ?_⟩
        rintro first inLeft second (rfl | inRight)
        · exact belowRoot first inLeft
        · exact (belowRoot first inLeft).trans (aboveRoot second inRight)
      · rintro ⟨leftSorted, ⟨aboveRoot, rightSorted⟩, across⟩
        refine ⟨fun other member => ?_, fun other member => ?_,
          leftSorted, rightSorted⟩
        · exact (threeWay.neg_iff labelIn (leftIn other member)).mpr
            (across other member label (Or.inl rfl))
        · exact (threeWay.pos_iff labelIn (rightIn other member)).mpr
            (aboveRoot other member)

/-- Comparing against one key steers a search through a sorted list. -/
theorem steered_of_sorted
    (threeWay : ThreeWayOn cmp key domain)
    {labels : List ι}
    (included : ∀ label ∈ labels, domain label)
    (sorted : labels.Pairwise fun earlier later =>
      key earlier < key later)
    {other : ι}
    (otherIn : domain other) :
    Steered (fun label => cmp label other) labels := by
  refine List.Pairwise.imp_of_mem ?_ sorted
  intro earlier later earlierMember laterMember less
  have earlierIn := included earlier earlierMember
  have laterIn := included later laterMember
  rw [threeWay.neg_iff earlierIn otherIn, threeWay.neg_iff laterIn otherIn,
    threeWay.pos_iff earlierIn otherIn, threeWay.pos_iff laterIn otherIn]
  exact ⟨fun below => below.trans less, fun above => less.trans above⟩

end ThreeWayOn

end AvlShape
