import Mathlib

/-!
# Doubly linked chains

A chain is a row of nodes linked both ways, between what stands before its
first node and behind its last one.  The rules say how chains are joined, read
backwards, and what may be written without breaking them.
-/

namespace Chain

variable {ι : Type}

/-- The nodes are linked in this order, between `first` and `last`. -/
def Linked (next prev : ι → Option ι) :
    Option ι → List ι → Option ι → Prop
  | _, [], _ => True
  | first, node :: rest, last =>
      prev node = first ∧
        next node = rest.head?.or last ∧
        Linked next prev (some node) rest last

variable {next prev next' prev' : ι → Option ι}
variable {first last first' last' : Option ι}
variable {before after nodes : List ι} {node : ι}

/-- A chain of two parts: each part ends where the other begins. -/
theorem linked_append :
    Linked next prev first (before ++ after) last ↔
      Linked next prev first before (after.head?.or last) ∧
        Linked next prev (before.getLast?.or first) after last := by
  induction before generalizing first with
  | nil =>
      simp [Linked]
  | cons node rest inductionHypothesis =>
      have ends :
          (node :: rest).getLast?.or first =
            rest.getLast?.or (some node) := by
        rw [List.getLast?_cons, Option.or_some]
        rfl
      have begins :
          (rest ++ after).head?.or last =
            rest.head?.or (after.head?.or last) := by
        rw [List.head?_append, Option.or_assoc]
      rw [List.cons_append, Linked, Linked, begins, ends,
        inductionHypothesis]
      simp only [and_assoc]

/-- A chain read backwards. -/
theorem linked_reverse :
    Linked prev next last nodes.reverse first ↔
      Linked next prev first nodes last := by
  induction nodes generalizing first with
  | nil =>
      simp [Linked]
  | cons node rest inductionHypothesis =>
      rw [List.reverse_cons, linked_append, List.getLast?_reverse]
      change Linked prev next last rest.reverse (some node) ∧
          next node = rest.head?.or last ∧ prev node = first ∧ True ↔
        prev node = first ∧ next node = rest.head?.or last ∧
          Linked next prev (some node) rest last
      rw [inductionHypothesis]
      tauto

/-- The links of a node in a chain. -/
theorem Linked.links
    (linked : Linked next prev first (before ++ node :: after) last) :
    prev node = before.getLast?.or first ∧
      next node = after.head?.or last := by
  obtain ⟨-, isPrev, isNext, -⟩ := linked_append.mp linked
  exact ⟨isPrev, isNext⟩

/-- Nodes with the links of a chain are one. -/
theorem linked_of_links
    (links :
      ∀ before node after,
        nodes = before ++ node :: after →
          prev node = before.getLast?.or first ∧
            next node = after.head?.or last) :
    Linked next prev first nodes last := by
  induction nodes generalizing first with
  | nil =>
      trivial
  | cons node rest inductionHypothesis =>
      obtain ⟨isPrev, isNext⟩ := links [] node rest rfl
      refine ⟨isPrev, isNext, inductionHypothesis ?_⟩
      intro before other after split
      have behind :=
        links (node :: before) other after (by rw [split, List.cons_append])
      rw [List.getLast?_cons, Option.some_or] at behind
      cases isLast : before.getLast? with
      | none =>
          rw [isLast] at behind
          exact behind
      | some last =>
          rw [isLast] at behind
          exact behind

/-- Following the links of a chain leads through its nodes. -/
theorem Linked.getElem?_bind_next
    (linked : Linked next prev first nodes none)
    (index : Nat) :
    nodes[index]?.bind next = nodes[index + 1]? := by
  induction nodes generalizing first index with
  | nil =>
      rfl
  | cons node rest inductionHypothesis =>
      obtain ⟨-, isNext, linkedRest⟩ := linked
      cases index with
      | zero =>
          rw [List.getElem?_cons_zero, Option.bind_some, isNext,
            Option.or_none, List.head?_eq_getElem?, List.getElem?_cons_succ]
      | succ index =>
          rw [List.getElem?_cons_succ, List.getElem?_cons_succ]
          exact inductionHypothesis linkedRest index

/-- What leads through the nodes in both directions makes them a chain. -/
theorem linked_of_getElem?_bind
    (follows :
      ∀ index : Nat, nodes[index]?.bind next = nodes[index + 1]?)
    (followsBack :
      ∀ index : Nat,
        nodes.reverse[index]?.bind prev = nodes.reverse[index + 1]?) :
    Linked next prev none nodes none := by
  have behind
      {follow : ι → Option ι} {front rest : List ι} {node : ι}
      (follows :
        ∀ index : Nat,
          (front ++ node :: rest)[index]?.bind follow =
            (front ++ node :: rest)[index + 1]?) :
      follow node = rest.head? := by
    have follows := follows front.length
    rw [List.getElem?_append_right (Nat.le_refl _), Nat.sub_self,
      List.getElem?_cons_zero, Option.bind_some,
      List.getElem?_append_right (Nat.le_add_right _ 1),
      Nat.add_sub_cancel_left,
      List.getElem?_cons_succ, ← List.head?_eq_getElem?] at follows
    exact follows
  apply linked_of_links
  intro before node after split
  have reversed :
      nodes.reverse = after.reverse ++ node :: before.reverse := by
    rw [split, List.reverse_append, List.reverse_cons, List.append_assoc,
      List.singleton_append]
  rw [reversed] at followsBack
  rw [split] at follows
  rw [behind followsBack, behind follows, List.head?_reverse,
    Option.or_none, Option.or_none]
  exact ⟨rfl, rfl⟩

/-- A chain only depends on the links of its nodes. -/
theorem Linked.congr
    (linked : Linked next prev first nodes last)
    (same : ∀ node ∈ nodes, next' node = next node ∧ prev' node = prev node) :
    Linked next' prev' first nodes last := by
  induction nodes generalizing first with
  | nil =>
      trivial
  | cons node rest inductionHypothesis =>
      obtain ⟨isPrev, isNext, linkedRest⟩ := linked
      obtain ⟨sameNext, samePrev⟩ := same node (List.mem_cons_self ..)
      refine ⟨samePrev.trans isPrev, sameNext.trans isNext, ?_⟩
      exact inductionHypothesis linkedRest fun other member =>
        same other (List.mem_cons_of_mem _ member)

/-- Let the last node of a chain point to something else. -/
theorem Linked.endAt
    (linked : Linked next prev first nodes last)
    (noDuplicates : nodes.Nodup)
    (ends : ∀ node, nodes.getLast? = some node → next' node = last')
    (same :
      ∀ node ∈ nodes,
        nodes.getLast? ≠ some node → next' node = next node) :
    Linked next' prev first nodes last' := by
  rcases List.eq_nil_or_concat nodes with rfl | ⟨front, node, rfl⟩
  · trivial
  · rw [List.concat_eq_append] at linked noDuplicates ends same ⊢
    rw [linked_append] at linked ⊢
    obtain ⟨linkedFront, isPrev, isNext, -⟩ := linked
    refine ⟨linkedFront.congr fun other member => ⟨?_, rfl⟩,
      isPrev, ends node List.getLast?_concat, trivial⟩
    apply same other (List.mem_append_left _ member)
    rw [List.getLast?_concat]
    rintro ⟨⟩
    exact List.disjoint_of_nodup_append noDuplicates member
      (List.mem_singleton_self _)

/-- Let the first node of a chain point back to something else. -/
theorem Linked.startAt
    (linked : Linked next prev first nodes last)
    (noDuplicates : nodes.Nodup)
    (starts : ∀ node, nodes.head? = some node → prev' node = first')
    (same :
      ∀ node ∈ nodes,
        nodes.head? ≠ some node → prev' node = prev node) :
    Linked next prev' first' nodes last := by
  rw [← linked_reverse] at linked ⊢
  apply linked.endAt (List.nodup_reverse.mpr noDuplicates)
  · intro node isLast
    rw [List.getLast?_reverse] at isLast
    exact starts node isLast
  · intro node member notLast
    rw [List.getLast?_reverse] at notLast
    exact same node (List.mem_reverse.mp member) notLast

/-- Put a node between two parts of a chain. -/
theorem Linked.splice
    (linked : Linked next prev none (before ++ after) none)
    (noDuplicates : (before ++ after).Nodup)
    (isNext : next' node = after.head?)
    (isPrev : prev' node = before.getLast?)
    (ends : ∀ other, before.getLast? = some other → next' other = some node)
    (starts : ∀ other, after.head? = some other → prev' other = some node)
    (sameNext :
      ∀ other ∈ before ++ after,
        before.getLast? ≠ some other → next' other = next other)
    (samePrev :
      ∀ other ∈ before ++ after,
        after.head? ≠ some other → prev' other = prev other) :
    Linked next' prev' none (before ++ node :: after) none := by
  obtain ⟨linkedBefore, linkedAfter⟩ := linked_append.mp linked
  have apart : List.Disjoint before after :=
    List.disjoint_of_nodup_append noDuplicates
  rw [linked_append]
  refine ⟨?_, ?_, ?_, ?_⟩
  · have retargeted :
        Linked next' prev none before (some node) :=
      linkedBefore.endAt noDuplicates.of_append_left ends
        fun other member => sameNext other (List.mem_append_left _ member)
    refine retargeted.congr fun other member => ⟨rfl, ?_⟩
    apply samePrev other (List.mem_append_left _ member)
    exact fun isHead => apart member (List.mem_of_head? isHead)
  · rw [isPrev, Option.or_none]
  · rw [isNext, Option.or_none]
  · have retargeted :
        Linked next prev' (some node) after none :=
      linkedAfter.startAt noDuplicates.of_append_right starts
        fun other member => samePrev other (List.mem_append_right _ member)
    refine retargeted.congr fun other member => ⟨?_, rfl⟩
    apply sameNext other (List.mem_append_right _ member)
    exact fun isLast => apart (List.mem_of_getLast? isLast) member

/-- Take a node out of a chain. -/
theorem Linked.unlink
    (linked : Linked next prev none (before ++ node :: after) none)
    (noDuplicates : (before ++ after).Nodup)
    (ends : ∀ other, before.getLast? = some other → next' other = after.head?)
    (starts :
      ∀ other, after.head? = some other → prev' other = before.getLast?)
    (sameNext :
      ∀ other ∈ before ++ after,
        before.getLast? ≠ some other → next' other = next other)
    (samePrev :
      ∀ other ∈ before ++ after,
        after.head? ≠ some other → prev' other = prev other) :
    Linked next' prev' none (before ++ after) none := by
  obtain ⟨linkedBefore, -, -, linkedAfter⟩ := linked_append.mp linked
  have apart : List.Disjoint before after :=
    List.disjoint_of_nodup_append noDuplicates
  rw [linked_append, Option.or_none, Option.or_none]
  refine ⟨?_, ?_⟩
  · have retargeted :
        Linked next' prev none before after.head? :=
      linkedBefore.endAt noDuplicates.of_append_left ends
        fun other member => sameNext other (List.mem_append_left _ member)
    refine retargeted.congr fun other member => ⟨rfl, ?_⟩
    apply samePrev other (List.mem_append_left _ member)
    exact fun isHead => apart member (List.mem_of_head? isHead)
  · have retargeted :
        Linked next prev' before.getLast? after none :=
      linkedAfter.startAt noDuplicates.of_append_right starts
        fun other member => samePrev other (List.mem_append_right _ member)
    refine retargeted.congr fun other member => ⟨?_, rfl⟩
    apply sameNext other (List.mem_append_right _ member)
    exact fun isLast => apart (List.mem_of_getLast? isLast) member

end Chain
