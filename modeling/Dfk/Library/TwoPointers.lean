import Mathlib

/-!
# A slow and a fast pointer

Nodes point to at most one other node each.  A pointer that goes two steps
where another one goes one step meets it again exactly if there is a loop, or
behind the end.  Among finitely many nodes this does not take longer than going
past all of them.
-/

namespace TwoPointers

variable {ι : Type} {follow : ι → Option ι} {start : Option ι}

/-- Where a number of steps leads to; nothing follows the end. -/
def walk (follow : ι → Option ι) (start : Option ι) : Nat → Option ι
  | 0 => start
  | count + 1 => (walk follow start count).bind follow

@[simp] theorem walk_zero : walk follow start 0 = start :=
  rfl

theorem walk_succ (count : Nat) :
    walk follow start (count + 1) = (walk follow start count).bind follow :=
  rfl

/-- Steps in two parts. -/
theorem walk_add (count more : Nat) :
    walk follow start (count + more) =
      walk follow (walk follow start count) more := by
  induction more with
  | zero =>
      rfl
  | succ more inductionHypothesis =>
      rw [← Nat.add_assoc, walk_succ, walk_succ, inductionHypothesis]

@[simp] theorem walk_none (count : Nat) : walk follow none count = none := by
  induction count with
  | zero =>
      rfl
  | succ count inductionHypothesis =>
      rw [walk_succ, inductionHypothesis, Option.bind_none]

/-- Behind the end there is nothing. -/
theorem walk_past
    {count later : Nat}
    (ended : walk follow start count = none) (past : count ≤ later) :
    walk follow start later = none := by
  obtain ⟨more, rfl⟩ := Nat.exists_eq_add_of_le past
  rw [walk_add, ended, walk_none]

section Repeats

variable {first second : Nat}

/-- A place that is visited twice is visited again and again. -/
theorem walk_repeats
    (ahead : first ≤ second)
    (repeats : walk follow start first = walk follow start second)
    {later : Nat} (past : first ≤ later) (rounds : Nat) :
    walk follow start (later + rounds * (second - first)) =
      walk follow start later := by
  obtain ⟨more, rfl⟩ := Nat.exists_eq_add_of_le past
  induction rounds with
  | zero =>
      rw [Nat.zero_mul, Nat.add_zero]
  | succ rounds inductionHypothesis =>
      have again :
          first + more + (rounds + 1) * (second - first) =
            second + (more + rounds * (second - first)) := by
        rw [Nat.succ_mul]
        omega
      calc
        walk follow start (first + more + (rounds + 1) * (second - first)) =
            walk follow (walk follow start second)
              (more + rounds * (second - first)) := by
          rw [again, walk_add]
        _ = walk follow start
              (first + more + rounds * (second - first)) := by
          rw [← repeats, ← walk_add, Nat.add_assoc]
        _ = walk follow start (first + more) := inductionHypothesis

/-- The fast pointer meets the slow one. -/
theorem meets
    (ahead : first < second)
    (repeats : walk follow start first = walk follow start second) :
    ∃ meeting,
      0 < meeting ∧ meeting ≤ second ∧
        walk follow start meeting = walk follow start (2 * meeting) := by
  -- the first multiple of the period from the repeated place on
  let period := second - first
  have positive : 0 < period := Nat.sub_pos_of_lt ahead
  let rounds := first / period + 1
  have past : first ≤ rounds * period := by
    have division := Nat.div_add_mod first period
    have below := Nat.mod_lt first positive
    have expanded : rounds * period = period * (first / period) + period := by
      rw [Nat.succ_mul, Nat.mul_comm]
    omega
  have soon : rounds * period ≤ second := by
    have division := Nat.div_mul_le_self first period
    have expanded : rounds * period = first / period * period + period :=
      Nat.succ_mul _ _
    omega
  refine ⟨rounds * period, Nat.mul_pos (Nat.succ_pos _) positive, soon, ?_⟩
  rw [Nat.two_mul]
  exact (walk_repeats (Nat.le_of_lt ahead) repeats past rounds).symm

/-- A walk that ends has not been anywhere twice. -/
theorem ne_of_ends
    {last : Nat}
    (inside : (walk follow start last).isSome)
    (ends : walk follow start (last + 1) = none)
    (ahead : first < second) (within : first ≤ last) :
    walk follow start first ≠ walk follow start second := by
  intro repeats
  have again :=
    walk_repeats (Nat.le_of_lt ahead) repeats within 1
  have past : walk follow start (last + 1 * (second - first)) = none :=
    walk_past ends (by omega)
  rw [← again, past] at inside
  cases inside

end Repeats

/-- A walk that ends does not come back to where it begins. -/
theorem ne_start_of_ends
    {node : ι} {last count : Nat}
    (ends : walk follow (some node) last = none) (positive : 0 < count) :
    walk follow (some node) count ≠ some node := by
  intro returns
  have again :=
    walk_repeats (Nat.zero_le count) returns.symm (Nat.zero_le 0) last
  have past : last ≤ 0 + last * (count - 0) := by
    rw [Nat.zero_add, Nat.sub_zero]
    exact Nat.le_mul_of_pos_right last positive
  rw [walk_past ends past] at again
  cases again

/-- Among finitely many nodes a walk comes to a place again, or ends. -/
theorem exists_repeats
    [Fintype ι] (follow : ι → Option ι) (start : Option ι) :
    ∃ first second,
      first < second ∧ second ≤ Fintype.card ι + 1 ∧
        walk follow start first = walk follow start second := by
  have fewer :
      Fintype.card (Option ι) < Fintype.card (Fin (Fintype.card ι + 2)) := by
    rw [Fintype.card_option, Fintype.card_fin]
    exact Nat.lt_succ_self _
  obtain ⟨left, right, apart, same⟩ :=
    Fintype.exists_ne_map_eq_of_card_lt
      (fun place : Fin (Fintype.card ι + 2) =>
        walk follow start place.val)
      fewer
  rcases Nat.lt_or_gt_of_ne (Fin.val_ne_of_ne apart) with before | behind
  · exact ⟨left, right, before, Nat.le_of_lt_succ right.isLt, same⟩
  · exact ⟨right, left, behind, Nat.le_of_lt_succ left.isLt, same.symm⟩

/-- Among finitely many nodes the pointers meet soon. -/
theorem exists_meeting
    [Fintype ι] (follow : ι → Option ι) (start : Option ι) :
    ∃ meeting,
      0 < meeting ∧ meeting ≤ Fintype.card ι + 1 ∧
        walk follow start meeting = walk follow start (2 * meeting) := by
  obtain ⟨first, second, ahead, soon, repeats⟩ :=
    exists_repeats follow start
  obtain ⟨meeting, positive, within, same⟩ := meets ahead repeats
  exact ⟨meeting, positive, Nat.le_trans within soon, same⟩

/-- A walk that ends does not take longer than there are nodes. -/
theorem length_le_card
    [Fintype ι] {last : Nat}
    (inside : (walk follow start last).isSome)
    (ends : walk follow start (last + 1) = none) :
    last ≤ Fintype.card ι := by
  obtain ⟨first, second, ahead, soon, repeats⟩ :=
    exists_repeats follow start
  have late : last < first := by
    apply Nat.lt_of_not_le
    intro within
    exact ne_of_ends inside ends ahead within repeats
  omega

/-!
## The nodes of a walk
-/

/-- The nodes of the first steps of a walk. -/
def path (follow : ι → Option ι) : Nat → Option ι → List ι
  | 0, _ => []
  | _ + 1, none => []
  | count + 1, some node => node :: path follow count (follow node)

/-- They are where the steps lead to. -/
theorem getElem?_path
    (count : Nat) :
    ∀ (start : Option ι) (index : Nat),
      (path follow count start)[index]? =
        if index < count then walk follow start index else none := by
  induction count with
  | zero =>
      intro start index
      rfl
  | succ count inductionHypothesis =>
      intro start index
      cases start with
      | none =>
          rw [walk_none, ite_self]
          rfl
      | some node =>
          cases index with
          | zero =>
              rfl
          | succ index =>
              rw [path, List.getElem?_cons_succ, inductionHypothesis,
                Nat.add_comm index 1, walk_add]
              have same : index < count ↔ 1 + index < count + 1 := by
                omega
              exact if_congr same rfl rfl

/-- Where a row of nodes is followed, the steps lead through it. -/
theorem walk_of_follows
    {nodes : List ι}
    (follows :
      ∀ index : Nat, nodes[index]?.bind follow = nodes[index + 1]?)
    (count : Nat) :
    walk follow nodes[0]? count = nodes[count]? := by
  induction count with
  | zero =>
      rfl
  | succ count inductionHypothesis =>
      rw [walk_succ, inductionHypothesis, follows]

/-- A row of nodes that ends has no duplicates. -/
theorem nodup_of_follows
    {nodes : List ι}
    (follows :
      ∀ index : Nat, nodes[index]?.bind follow = nodes[index + 1]?) :
    nodes.Nodup := by
  rw [List.nodup_iff_getElem?_ne_getElem?]
  intro slow fast ahead inside
  have steps := walk_of_follows follows
  have past : walk follow nodes[0]? (nodes.length - 1 + 1) = none := by
    rw [steps, List.getElem?_eq_none_iff]
    omega
  have atLast : (walk follow nodes[0]? (nodes.length - 1)).isSome := by
    rw [steps, List.getElem?_eq_getElem (by omega)]
    rfl
  rw [← steps slow, ← steps fast]
  exact ne_of_ends atLast past ahead (by omega)

end TwoPointers
