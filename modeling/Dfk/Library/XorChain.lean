import Dfk.Library.Chain

/-!
# Chains with one link for two neighbours

A pointer is an address, which is never zero, or null.  A node of a threaded
chain only keeps the exclusive or of the pointers to its two neighbours.
Whoever comes to a node and knows where from can tell where to go on, in
either direction.
-/

namespace XorChain

/-- Addresses differ from the null pointer. -/
abbrev Address (width : Nat) := { bits : BitVec width // bits ≠ 0 }

/-- An address or null. -/
abbrev Pointer (width : Nat) := Option (Address width)

variable {width : Nat}

/-! ## Pointers -/

/-- The bits of a pointer. -/
def bitsOf : Pointer width → BitVec width
  | some address => address.val
  | none => 0

/-- The pointer with some bits. -/
def ofBits (bits : BitVec width) : Pointer width :=
  if isNull : bits = 0 then none else some ⟨bits, isNull⟩

/-- The exclusive or of two pointers. -/
def combine (first second : Pointer width) : Pointer width :=
  ofBits (bitsOf first ^^^ bitsOf second)

section Pointers

variable {first second third : Pointer width}

@[simp] theorem bitsOf_ofBits (bits : BitVec width) :
    bitsOf (ofBits bits) = bits := by
  by_cases isNull : bits = 0
  · rw [ofBits, dif_pos isNull, isNull]
    rfl
  · rw [ofBits, dif_neg isNull]
    rfl

@[simp] theorem ofBits_bitsOf (pointer : Pointer width) :
    ofBits (bitsOf pointer) = pointer := by
  cases pointer with
  | none => exact dif_pos rfl
  | some address => exact dif_neg address.property

theorem combine_comm (first second : Pointer width) :
    combine first second = combine second first := by
  rw [combine, combine, BitVec.xor_comm]

theorem combine_assoc (first second third : Pointer width) :
    combine (combine first second) third =
      combine first (combine second third) := by
  rw [combine, combine, combine, combine, bitsOf_ofBits, bitsOf_ofBits,
    BitVec.xor_assoc]

theorem combine_right_comm (first second third : Pointer width) :
    combine (combine first second) third =
      combine (combine first third) second := by
  rw [combine_assoc, combine_comm second, combine_assoc]

@[simp] theorem combine_null (pointer : Pointer width) :
    combine pointer none = pointer := by
  calc
    combine pointer none = ofBits (bitsOf pointer) :=
      congrArg ofBits BitVec.xor_zero
    _ = pointer := ofBits_bitsOf pointer

@[simp] theorem null_combine (pointer : Pointer width) :
    combine none pointer = pointer := by
  rw [combine_comm, combine_null]

@[simp] theorem combine_self (pointer : Pointer width) :
    combine pointer pointer = none := by
  rw [combine, BitVec.xor_self]
  exact dif_pos rfl

/-- A pointer cancels itself out. -/
@[simp] theorem combine_cancel (first second : Pointer width) :
    combine first (combine first second) = second := by
  rw [← combine_assoc, combine_self, null_combine]

theorem combine_right_injective
    (same : combine first second = combine first third) :
    second = third := by
  rw [← combine_cancel first second, same, combine_cancel]

/-- Only the first of two pointers leaves the second. -/
theorem combine_eq_second_iff :
    combine third (combine first second) = second ↔ third = first := by
  constructor
  · intro same
    have cancels :
        combine (combine first second) third =
          combine (combine first second) first := by
      rw [combine_comm, same, combine_comm, combine_cancel]
    exact combine_right_injective cancels
  · rintro rfl
    exact combine_cancel third second

/-- Another pointer takes the place of the first of two. -/
theorem combine_replace_first (first second other : Pointer width) :
    combine (combine (combine first second) first) other =
      combine other second := by
  rw [combine_comm (combine first second) first, combine_cancel,
    combine_comm]

/-- Another pointer takes the place of the second of two. -/
theorem combine_replace_second (first second other : Pointer width) :
    combine (combine (combine first second) other) second =
      combine first other := by
  rw [combine_assoc (combine first second), combine_comm other,
    combine_assoc first, combine_cancel]

end Pointers

/-! ## Chains -/

variable {link : Address width → Pointer width}
variable {sequence : List (Address width)}

/-- Each node keeps both neighbours in one link. -/
def Threaded (link : Address width → Pointer width)
    (sequence : List (Address width)) : Prop :=
  ∀ before node after,
    sequence = before ++ node :: after →
      link node = combine before.getLast? after.head?

/-- A chain whose links combine those of a chain with two. -/
theorem threaded_of_linked
    {next prev : Address width → Option (Address width)}
    (linked : Chain.Linked next prev none sequence none)
    (combines :
      ∀ node ∈ sequence, link node = combine (prev node) (next node)) :
    Threaded link sequence := by
  intro before node after shape
  have member : node ∈ sequence := by
    rw [shape]
    exact List.mem_append_right _ (List.mem_cons_self ..)
  rw [shape] at linked
  have links := linked.links
  rw [Option.or_none, Option.or_none] at links
  rw [combines node member, links.1, links.2]

/-- A chain is the same in both directions. -/
theorem Threaded.reverse (threaded : Threaded link sequence) :
    Threaded link sequence.reverse := by
  intro before node after shape
  have shapeBack :
      sequence = after.reverse ++ node :: before.reverse := by
    rw [← List.reverse_reverse sequence, shape]
    simp
  rw [threaded _ _ _ shapeBack, List.getLast?_reverse, List.head?_reverse,
    combine_comm]

/-- Where somebody is, and where from. -/
structure Cursor (width : Nat) where
  prev : Pointer width
  value : Pointer width
  deriving DecidableEq

/-- Go on by one node, unless there is none. -/
def hop (link : Address width → Pointer width) (cursor : Cursor width) :
    Cursor width :=
  match cursor.value with
  | some node =>
      { prev := some node
        value := combine cursor.prev (link node) }
  | none => cursor

/-- A cursor is at a place of a sequence, or past its end. -/
structure Stands (sequence : List (Address width)) (place : Nat)
    (cursor : Cursor width) : Prop where
  value : cursor.value = sequence[place]?
  prev :
    place < sequence.length → cursor.prev = (sequence.take place).getLast?

/-- A sequence in front of a place, and behind it. -/
theorem split_at
    {place : Nat} {node : Address width}
    (isNode : sequence[place]? = some node) :
    sequence = sequence.take place ++ node :: sequence.drop (place + 1) := by
  obtain ⟨inside, rfl⟩ := List.getElem?_eq_some_iff.mp isNode
  rw [← List.drop_eq_getElem_cons inside, List.take_append_drop]

/--
Whoever is at a node finds the next one, if and only if coming from the one in
front.
-/
theorem Threaded.finds_next_iff
    {place : Nat} {node : Address width} {prev : Pointer width}
    (threaded : Threaded link sequence)
    (isNode : sequence[place]? = some node) :
    combine prev (link node) = sequence[place + 1]? ↔
      prev = (sequence.take place).getLast? := by
  rw [threaded _ _ _ (split_at isNode), List.head?_drop]
  exact combine_eq_second_iff

/-- Whoever stands at a node finds the next one. -/
theorem Stands.combine
    {place : Nat} {cursor : Cursor width} {node : Address width}
    (stands : Stands sequence place cursor)
    (threaded : Threaded link sequence)
    (isNode : sequence[place]? = some node) :
    combine cursor.prev (link node) = sequence[place + 1]? := by
  have inside := (List.getElem?_eq_some_iff.mp isNode).1
  exact (threaded.finds_next_iff isNode).mpr (stands.prev inside)

/-- One node further. -/
theorem Stands.hop
    {place : Nat} {cursor : Cursor width}
    (stands : Stands sequence place cursor)
    (threaded : Threaded link sequence) :
    Stands sequence (place + 1) (hop link cursor) := by
  cases isNode : sequence[place]? with
  | none =>
      have isEnd : cursor.value = none := stands.value.trans isNode
      have past : sequence.length ≤ place :=
        List.getElem?_eq_none_iff.mp isNode
      rw [XorChain.hop, isEnd]
      refine ⟨?_, fun inside => ?_⟩
      · rw [isEnd]
        exact (List.getElem?_eq_none (Nat.le_succ_of_le past)).symm
      · exact absurd (Nat.lt_of_succ_lt inside) (Nat.not_lt.mpr past)
  | some node =>
      have isValue : cursor.value = some node := stands.value.trans isNode
      rw [XorChain.hop, isValue]
      refine ⟨stands.combine threaded isNode, fun _ => ?_⟩
      rw [List.take_add_one, isNode]
      exact List.getLast?_concat.symm

/-- Two nodes further. -/
theorem Stands.hop_twice
    {place : Nat} {cursor : Cursor width}
    (stands : Stands sequence place cursor)
    (threaded : Threaded link sequence) :
    Stands sequence (place + 2)
      (XorChain.hop link (XorChain.hop link cursor)) :=
  (stands.hop threaded).hop threaded

/-- At the first node. -/
theorem stands_head (sequence : List (Address width)) :
    Stands sequence 0 { prev := none, value := sequence.head? } :=
  ⟨List.head?_eq_getElem?, fun _ => rfl⟩

end XorChain
