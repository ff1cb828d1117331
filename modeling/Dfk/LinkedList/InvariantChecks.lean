import Dfk.Library.TwoPointers
import Dfk.LinkedList.Representation

/-!
# What the assertions on a list notice

`dfk__list_check_invariants` runs on any contents of the memory.  It returns
exactly if the pointers lead from the head to the tail in one direction and
back in the other, and runs into an assertion otherwise; it does not go around
in a loop.  It does not compare the two directions with each other.
-/

namespace Dfk.LinkedList

open TwoPointers

variable {ι κ : Type}

/-- The pointers lead through a row of hooks, and through another one back. -/
structure Reads (memory : Memory ι κ) (list : κ) (forth back : List ι) :
    Prop where
  next : Follows memory.next forth
  prev : Follows memory.prev back
  head : (memory.lists list).head = forth.head?
  tail : (memory.lists list).tail = back.head?
  last : forth.getLast? = back.head?
  first : back.getLast? = forth.head?
  size :
    ∀ size ∈ (memory.lists list).size,
      size = forth.length ∧ size = back.length

/-- The pointers lead from a hook to another one, and end there. -/
structure Leads (follow : ι → Option ι) (first last : ι) (hops : Nat) :
    Prop where
  arrives : walk follow (some first) hops = some last
  ends : follow last = none

section Rows

variable {follow : ι → Option ι} {nodes : List ι} {first last : ι}
variable {hops : Nat}

theorem Leads.past (leads : Leads follow first last hops) :
    walk follow (some first) (hops + 1) = none := by
  rw [walk_succ, leads.arrives, Option.bind_some, leads.ends]

/-- A row of hooks between two hooks is as long as the steps take. -/
theorem Leads.unique
    {others : Nat}
    (leads : Leads follow first last hops)
    (leadsToo : Leads follow first last others) :
    hops = others := by
  have notBefore
      {hops others : Nat}
      (leads : Leads follow first last hops)
      (leadsToo : Leads follow first last others) :
      ¬ hops < others := by
    intro before
    have ended := walk_past leads.past before
    rw [leadsToo.arrives] at ended
    cases ended
  have left := notBefore leads leadsToo
  have right := notBefore leadsToo leads
  omega

/-- The steps to the end of a row of hooks. -/
theorem Follows.leads
    (follows : Follows follow nodes)
    (isFirst : nodes.head? = some first)
    (isLast : nodes.getLast? = some last) :
    Leads follow first last (nodes.length - 1) := by
  rw [List.head?_eq_getElem?] at isFirst
  rw [List.getLast?_eq_getElem?] at isLast
  refine ⟨?_, ?_⟩
  · rw [← isFirst, walk_of_follows follows, isLast]
  · have past := follows (nodes.length - 1)
    rw [isLast, Option.bind_some] at past
    rw [past, List.getElem?_eq_none_iff]
    omega

/-- Steps that end lead through a row of hooks. -/
theorem Leads.follows
    (leads : Leads follow first last hops) :
    ∃ nodes : List ι,
      Follows follow nodes ∧ nodes.head? = some first ∧
        nodes.getLast? = some last ∧ nodes.length = hops + 1 := by
  let nodes := path follow (hops + 1) (some first)
  have places (index : Nat) :
      nodes[index]? =
        if index < hops + 1 then walk follow (some first) index else none :=
    getElem?_path _ _ _
  have length : nodes.length = hops + 1 := by
    apply Nat.le_antisymm
    · rw [← List.getElem?_eq_none_iff, places, if_neg (Nat.lt_irrefl _)]
    · apply Nat.lt_of_not_le
      intro short
      have missing : nodes[hops]? = none :=
        List.getElem?_eq_none_iff.mpr short
      rw [places, if_pos (Nat.lt_succ_self _), leads.arrives] at missing
      cases missing
  refine ⟨nodes, ?_, ?_, ?_, length⟩
  · intro index
    rw [places, places]
    by_cases inside : index < hops
    · rw [if_pos (Nat.lt_succ_of_lt inside),
        if_pos (Nat.succ_lt_succ inside), walk_succ]
    · rw [if_neg (fun within => inside (Nat.lt_of_succ_lt_succ within))]
      split
      · have atEnd : index = hops := by
          omega
        rw [atEnd, leads.arrives, Option.bind_some, leads.ends]
      · rfl
  · rw [List.head?_eq_getElem?, places, if_pos (Nat.succ_pos _)]
    rfl
  · rw [List.getLast?_eq_getElem?, length, places, Nat.add_sub_cancel,
      if_pos (Nat.lt_succ_self _), leads.arrives]

/-- The pointers from a hook lead to an end. -/
def Ends (follow : ι → Option ι) (hook : ι) : Prop :=
  ∃ count, walk follow (some hook) count = none

/-- From a hook of a row the pointers lead to its end. -/
theorem Follows.ends
    {hook : ι}
    (follows : Follows follow nodes) (member : hook ∈ nodes) :
    Ends follow hook := by
  obtain ⟨index, isHook⟩ := List.mem_iff_getElem?.mp member
  refine ⟨nodes.length, ?_⟩
  have steps := walk_of_follows follows
  rw [← isHook, ← steps, ← walk_add, steps, List.getElem?_eq_none_iff]
  omega

end Rows

/-!
## Assertions as decisions
-/

/-- A function returns if a condition holds, and fails an assertion if not. -/
def Decides {α : Type} (condition : Prop) (value : α)
    (result : Except Fault α) : Prop :=
  condition ∧ result = .ok value ∨
    ¬ condition ∧ result = .error .assertion

section Decisions

variable {α β : Type} {condition other : Prop} {value : α} {later : β}
variable {result : Except Fault α}

/-- One assertion. -/
theorem decides_check (condition : Prop) [Decidable condition] :
    Decides condition () (check condition) := by
  by_cases holds : condition
  · exact Or.inl ⟨holds, check_pos holds⟩
  · exact Or.inr ⟨holds, check_neg holds⟩

/-- What needs no assertion. -/
theorem decides_ok (value : α) : Decides True value (.ok value) :=
  Or.inl ⟨trivial, rfl⟩

/-- One decision behind another one. -/
theorem Decides.andThen
    {next : α → Except Fault β}
    (decides : Decides condition value result)
    (decidesNext : condition → Decides other later (next value)) :
    Decides (condition ∧ other) later (result >>= next) := by
  rcases decides with ⟨holds, passed⟩ | ⟨fails, failed⟩
  · rw [passed, ok_bind]
    rcases decidesNext holds with ⟨holdsToo, passed⟩ | ⟨fails, failed⟩
    · exact Or.inl ⟨⟨holds, holdsToo⟩, passed⟩
    · exact Or.inr ⟨fun both => fails both.2, failed⟩
  · rw [failed, error_bind]
    exact Or.inr ⟨fun both => fails both.1, rfl⟩

/-- The same decision in other words. -/
theorem Decides.congr
    (decides : Decides condition value result) (same : condition ↔ other) :
    Decides other value result := by
  rw [Decides, ← same]
  exact decides

/-- An assertion on the size, if it is kept. -/
theorem decides_checkSize
    (size : Option Nat) (condition : Nat → Prop) [DecidablePred condition] :
    Decides (∀ kept ∈ size, condition kept) () (checkSize size condition) := by
  cases size with
  | none =>
      exact Or.inl ⟨nofun, rfl⟩
  | some size =>
      apply (decides_check (condition size)).congr
      simp

end Decisions

section Traversals

variable {follow : ι → Option ι} {first last : ι}
variable {size : Option Nat} {hops meeting : Nat}

/-- Two steps of the fast pointer. -/
theorem walk_twice (start : Option ι) (slow : Nat) :
    ((walk follow start (2 * slow)).bind follow).bind follow =
      walk follow start (2 * (slow + 1)) :=
  rfl

/-- Between a hook and the end there is a last one. -/
theorem Ends.exists_last
    {hook : ι} (ends : Ends follow hook) :
    ∃ last,
      (walk follow (some hook) last).isSome ∧
        walk follow (some hook) (last + 1) = none := by
  obtain ⟨count, ended⟩ := ends
  induction count with
  | zero =>
      cases ended
  | succ count inductionHypothesis =>
      cases before : walk follow (some hook) count with
      | none =>
          exact inductionHypothesis before
      | some last =>
          exact ⟨count, by rw [before]; rfl, ended⟩

variable [DecidableEq ι]

/-- A loop that arrives at the other end; the size decides. -/
theorem checkTraversal_of_leads
    (leads : Leads follow first last hops)
    (fuel : Nat) :
    ∀ {slow : Nat},
      (slow < hops ∨ slow = hops ∧ 0 < hops) →
        hops < slow + fuel →
          checkTraversal follow (some last) size fuel
              (walk follow (some first) slow)
              (walk follow (some first) (2 * slow)) slow =
            checkSize size (hops + 1 = ·) := by
  have atLast : (walk follow (some first) hops).isSome := by
    rw [leads.arrives]
    rfl
  induction fuel with
  | zero =>
      intro slow within enough
      omega
  | succ fuel inductionHypothesis =>
      intro slow within enough
      rw [checkTraversal]
      rcases within with before | ⟨atEnd, several⟩
      · have notLast : walk follow (some first) slow ≠ some last := by
          rw [← leads.arrives]
          exact ne_of_ends atLast leads.past before (Nat.le_of_lt before)
        have present : walk follow (some first) slow ≠ none := by
          intro missing
          have ended := walk_past missing (Nat.le_of_lt before)
          rw [leads.arrives] at ended
          cases ended
        have apart :
            walk follow (some first) (slow + 1) ≠
              walk follow (some first) (2 * (slow + 1)) :=
          ne_of_ends atLast leads.past (by omega) before
        rw [if_neg notLast, check_pos present, ok_bind, walk_twice,
          ← walk_succ]
        dsimp only
        rw [check_pos apart, ok_bind,
          inductionHypothesis (by omega) (by omega)]
        cases size with
        | none =>
            rfl
        | some size =>
            by_cases more : slow + 1 < size
            · rw [checkSize, check_pos more, ok_bind]
            · have different : ¬ hops + 1 = size := by
                omega
              rw [checkSize, checkSize, check_neg more, error_bind,
                check_neg different]
      · have past : walk follow (some first) (2 * slow) = none :=
          walk_past leads.past (by omega)
        rw [atEnd, leads.arrives, if_pos rfl]
        rw [atEnd] at past
        rw [check_pos past, ok_bind]

/-- A loop that does not arrive runs into an assertion. -/
theorem checkTraversal_of_meets
    (never : ∀ hops, walk follow (some first) hops ≠ some last)
    (meets :
      walk follow (some first) meeting =
        walk follow (some first) (2 * meeting))
    (fuel : Nat) :
    ∀ {slow : Nat},
      slow < meeting →
        meeting ≤ slow + fuel →
          checkTraversal follow (some last) size fuel
              (walk follow (some first) slow)
              (walk follow (some first) (2 * slow)) slow =
            .error .assertion := by
  induction fuel with
  | zero =>
      intro slow before enough
      omega
  | succ fuel inductionHypothesis =>
      intro slow before enough
      rw [checkTraversal, if_neg (never slow), walk_twice, ← walk_succ]
      by_cases present : walk follow (some first) slow ≠ none
      · rw [check_pos present, ok_bind]
        dsimp only
        by_cases apart :
            walk follow (some first) (slow + 1) ≠
              walk follow (some first) (2 * (slow + 1))
        · have later : slow + 1 < meeting := by
            rcases Nat.lt_or_eq_of_le before with later | isMeeting
            · exact later
            · rw [Nat.succ_eq_add_one] at isMeeting
              rw [isMeeting] at apart
              exact absurd meets apart
          rw [check_pos apart, ok_bind,
            inductionHypothesis later (by omega)]
          cases size with
          | none =>
              rfl
          | some size =>
              by_cases more : slow + 1 < size
              · rw [checkSize, check_pos more, ok_bind]
              · rw [checkSize, check_neg more, error_bind]
        · rw [check_neg apart, error_bind]
      · rw [check_neg present, error_bind]

/-- A loop of `dfk__list_check_invariants` on any contents of the hooks. -/
theorem decides_checkTraversal
    [Fintype ι] {fuel : Nat}
    (apart : first ≠ last)
    (ends : follow last = none)
    (enough : Fintype.card ι + 2 ≤ fuel) :
    Decides
      (∃ hops, Leads follow first last hops ∧ ∀ kept ∈ size, hops + 1 = kept)
      () (checkTraversal follow (some last) size fuel
        (some first) (some first) 0) := by
  by_cases arrives : ∃ hops, walk follow (some first) hops = some last
  · obtain ⟨hops, arrives⟩ := arrives
    have leads : Leads follow first last hops := ⟨arrives, ends⟩
    have several : 0 < hops := by
      apply Nat.pos_of_ne_zero
      intro none
      rw [none] at arrives
      exact apart (Option.some.inj arrives)
    have short : hops ≤ Fintype.card ι := by
      apply length_le_card _ leads.past
      rw [arrives]
      rfl
    have checked :=
      @checkTraversal_of_leads ι follow first last size hops _ leads fuel 0
        (Or.inl several) (by omega)
    rw [Nat.mul_zero, walk_zero] at checked
    rw [checked]
    apply (decides_checkSize size (hops + 1 = ·)).congr
    refine ⟨fun sized => ⟨hops, leads, sized⟩, ?_⟩
    intro given
    obtain ⟨others, leadsToo, sized⟩ := given
    rw [leads.unique leadsToo]
    exact sized
  · obtain ⟨meeting, positive, soon, meets⟩ :=
      exists_meeting follow (some first)
    refine Or.inr ⟨?_, ?_⟩
    · intro given
      obtain ⟨hops, leads, _⟩ := given
      exact arrives ⟨hops, leads.arrives⟩
    · exact checkTraversal_of_meets
        (fun hops arrived => arrives ⟨hops, arrived⟩) meets fuel positive
        (by omega)

/-- A loop over the hooks behind one that ends. -/
theorem hookCheckTraversal_of_ends
    {start : Option ι} {last : Nat}
    (atLast : (walk follow start last).isSome)
    (past : walk follow start (last + 1) = none)
    (fuel : Nat) :
    ∀ {slow : Nat} {hook : ι},
      walk follow start slow = some hook →
        slow ≤ last →
          last < slow + fuel →
            hookCheckTraversal follow fuel hook
                (walk follow start (2 * slow)) =
              .ok () := by
  induction fuel with
  | zero =>
      intro slow hook _ within enough
      omega
  | succ fuel inductionHypothesis =>
      intro slow hook isHook within enough
      have isNext : follow hook = walk follow start (slow + 1) := by
        rw [walk_succ, isHook, Option.bind_some]
      rw [hookCheckTraversal, isNext]
      cases next : walk follow start (slow + 1) with
      | none =>
          rfl
      | some following =>
          have before : slow + 1 ≤ last := by
            apply Nat.lt_of_not_le
            intro late
            have ended := walk_past past (Nat.succ_le_succ late)
            rw [next] at ended
            cases ended
          have apart :
              some following ≠ walk follow start (2 * (slow + 1)) := by
            rw [← next]
            exact ne_of_ends atLast past (by omega) before
          dsimp only
          rw [walk_twice, check_pos apart, ok_bind]
          exact inductionHypothesis next before (by omega)

/-- A loop over hooks that lead around runs into an assertion. -/
theorem hookCheckTraversal_of_meets
    {start : Option ι}
    (never : ∀ count, walk follow start count ≠ none)
    (meets : walk follow start meeting = walk follow start (2 * meeting))
    (fuel : Nat) :
    ∀ {slow : Nat} {hook : ι},
      walk follow start slow = some hook →
        slow < meeting →
          meeting ≤ slow + fuel →
            hookCheckTraversal follow fuel hook
                (walk follow start (2 * slow)) =
              .error .assertion := by
  induction fuel with
  | zero =>
      intro slow hook _ before enough
      omega
  | succ fuel inductionHypothesis =>
      intro slow hook isHook before enough
      have isNext : follow hook = walk follow start (slow + 1) := by
        rw [walk_succ, isHook, Option.bind_some]
      rw [hookCheckTraversal, isNext]
      cases next : walk follow start (slow + 1) with
      | none =>
          exact absurd next (never (slow + 1))
      | some following =>
          dsimp only
          rw [walk_twice]
          by_cases apart :
              some following ≠ walk follow start (2 * (slow + 1))
          · have later : slow + 1 < meeting := by
              rcases Nat.lt_or_eq_of_le before with later | isMeeting
              · exact later
              · rw [← next] at apart
                rw [Nat.succ_eq_add_one] at isMeeting
                rw [isMeeting] at apart
                exact absurd meets apart
            rw [check_pos apart, ok_bind]
            exact inductionHypothesis next later (by omega)
          · rw [check_neg apart, error_bind]

/-- A loop of `dfk__list_hook_check_invariants` on any contents. -/
theorem decides_hookCheckTraversal
    [Fintype ι] {fuel : Nat}
    (hook : ι) (enough : Fintype.card ι + 2 ≤ fuel) :
    Decides (Ends follow hook) ()
      (hookCheckTraversal follow fuel hook (some hook)) := by
  by_cases ends : Ends follow hook
  · obtain ⟨last, atLast, past⟩ := ends.exists_last
    have short := length_le_card atLast past
    refine Or.inl ⟨ends, ?_⟩
    exact @hookCheckTraversal_of_ends ι follow _ (some hook) last atLast past
      fuel 0 hook rfl (Nat.zero_le _) (by omega)
  · obtain ⟨meeting, positive, soon, meets⟩ :=
      exists_meeting follow (some hook)
    refine Or.inr ⟨ends, ?_⟩
    exact @hookCheckTraversal_of_meets ι follow meeting _ (some hook)
      (fun count ended => ends ⟨count, ended⟩) meets fuel 0 hook rfl
      positive (by omega)

end Traversals

section Verdict

variable {memory : Memory ι κ} {list : κ} {forth back : List ι}

/-- The rows of a list that has a head and a tail. -/
theorem Reads.leads
    {first last : ι}
    (reads : Reads memory list forth back)
    (isHead : (memory.lists list).head = some first)
    (isTail : (memory.lists list).tail = some last) :
    ∃ hops hopsBack,
      Leads memory.next first last hops ∧
        Leads memory.prev last first hopsBack ∧
        ∀ size ∈ (memory.lists list).size,
          hops + 1 = size ∧ hopsBack + 1 = size := by
  have isFirst := reads.head.symm.trans isHead
  have isLast := reads.tail.symm.trans isTail
  refine ⟨_, _, reads.next.leads isFirst (reads.last.trans isLast),
    reads.prev.leads isLast (reads.first.trans isFirst), ?_⟩
  intro size isSize
  obtain ⟨sizes, sizesBack⟩ := reads.size size isSize
  have some (nodes : List ι) {node : ι} (isHead : nodes.head? = some node) :
      0 < nodes.length :=
    List.length_pos_of_mem (List.mem_of_head? isHead)
  have someForth := some forth isFirst
  have someBack := some back isLast
  exact ⟨by omega, by omega⟩

/-- Rows of hooks in both directions make a list that reads. -/
theorem reads_of_leads
    {first last : ι} {hops hopsBack : Nat}
    (isHead : (memory.lists list).head = some first)
    (isTail : (memory.lists list).tail = some last)
    (leads : Leads memory.next first last hops)
    (leadsBack : Leads memory.prev last first hopsBack)
    (sized : ∀ size ∈ (memory.lists list).size, hops + 1 = size)
    (sizedBack : ∀ size ∈ (memory.lists list).size, hopsBack + 1 = size) :
    ∃ forth back, Reads memory list forth back := by
  obtain ⟨forth, follows, begins, arrives, length⟩ := leads.follows
  obtain ⟨back, followsBack, beginsBack, arrivesBack, lengthBack⟩ :=
    leadsBack.follows
  refine ⟨forth, back, follows, followsBack, isHead.trans begins.symm,
    isTail.trans beginsBack.symm, arrives.trans beginsBack.symm,
    arrivesBack.trans begins.symm, ?_⟩
  intro size isSize
  rw [length, lengthBack]
  exact ⟨(sized size isSize).symm, (sizedBack size isSize).symm⟩

/-- A list without a head or a tail reads if it has neither. -/
theorem reads_iff_empty
    (missing :
      (memory.lists list).head = none ∨ (memory.lists list).tail = none) :
    (∃ forth back, Reads memory list forth back) ↔
      (memory.lists list).head = none ∧ (memory.lists list).tail = none ∧
        ∀ size ∈ (memory.lists list).size, size = 0 := by
  refine ⟨?_, ?_⟩
  · intro given
    obtain ⟨forth, back, reads⟩ := given
    have both : forth = [] ∧ back = [] := by
      have last := reads.last
      have first := reads.first
      rcases missing with noHead | noTail
      · rw [reads.head, List.head?_eq_none_iff] at noHead
        rw [noHead, List.head?_nil, List.getLast?_eq_none_iff] at first
        exact ⟨noHead, first⟩
      · rw [reads.tail, List.head?_eq_none_iff] at noTail
        rw [noTail, List.head?_nil, List.getLast?_eq_none_iff] at last
        exact ⟨last, noTail⟩
    rw [both.1, both.2] at reads
    exact ⟨reads.head, reads.tail, fun size isSize =>
      (reads.size size isSize).1⟩
  · intro given
    obtain ⟨noHead, noTail, sized⟩ := given
    exact ⟨[], [], fun _ => rfl, fun _ => rfl, noHead, noTail, rfl, rfl,
      fun size isSize => ⟨sized size isSize, sized size isSize⟩⟩

/-- A list holds a sequence if it reads as the sequence in both directions. -/
theorem holds_iff_reads (sequence : List ι) :
    Holds memory list sequence ↔
      Reads memory list sequence sequence.reverse := by
  refine ⟨?_, ?_⟩
  · intro holds
    refine ⟨holds.follows_next, holds.follows_prev, holds.head, ?_, ?_, ?_,
      ?_⟩
    · rw [holds.tail, List.head?_reverse]
    · rw [List.head?_reverse]
    · rw [List.getLast?_reverse]
    · intro size isSize
      rw [List.length_reverse]
      exact ⟨holds.size size isSize, holds.size size isSize⟩
  · intro reads
    refine ⟨?_, nodup_of_follows reads.next, reads.head, ?_,
      fun size isSize => (reads.size size isSize).1⟩
    · exact Chain.linked_of_getElem?_bind reads.next reads.prev
    · rw [reads.tail, List.head?_reverse]

variable [DecidableEq ι]

/-- The invariants of a list, on any contents of the memory. -/
theorem decides_listCheckInvariants
    [Fintype ι] {fuel : Nat}
    (memory : Memory ι κ) (list : κ)
    (enough : Fintype.card ι + 2 ≤ fuel) :
    Decides (∃ forth back, Reads memory list forth back) ()
      (listCheckInvariants fuel memory list) := by
  rw [listCheckInvariants]
  cases isHead : (memory.lists list).head with
  | none =>
      dsimp only
      apply Decides.congr _ (reads_iff_empty (Or.inl isHead)).symm
      rw [isHead]
      exact (decides_check _).andThen fun _ =>
        (decides_check _).andThen fun _ => decides_checkSize _ _
  | some first =>
      cases isTail : (memory.lists list).tail with
      | none =>
          dsimp only
          apply Decides.congr _ (reads_iff_empty (Or.inr isTail)).symm
          rw [isHead, isTail]
          exact (decides_check _).andThen fun _ =>
            (decides_check _).andThen fun _ => decides_checkSize _ _
      | some last =>
          dsimp only
          split
          · next same =>
              subst same
              apply Decides.congr ((decides_check _).andThen fun _ =>
                (decides_check _).andThen fun _ => decides_checkSize _ _)
              refine ⟨?_, ?_⟩
              · intro given
                obtain ⟨isNext, isPrev, sized⟩ := given
                have sizes (size : Nat)
                    (isSize : size ∈ (memory.lists list).size) :
                    0 + 1 = size :=
                  (sized size isSize).symm
                exact reads_of_leads isHead isTail ⟨rfl, isNext⟩
                  ⟨rfl, isPrev⟩ sizes sizes
              · intro given
                obtain ⟨forth, back, reads⟩ := given
                obtain ⟨hops, hopsBack, leads, leadsBack, sized⟩ :=
                  reads.leads isHead isTail
                have none : hops = 0 :=
                  leads.unique ⟨rfl, leads.ends⟩
                rw [none] at sized
                exact ⟨leads.ends, leadsBack.ends, fun size isSize =>
                  (sized size isSize).1.symm⟩
          · next apart =>
              apply Decides.congr ((decides_check _).andThen fun isPrev =>
                (decides_check _).andThen fun isNext =>
                  (decides_checkTraversal apart isNext enough).andThen
                    fun _ =>
                      decides_checkTraversal (Ne.symm apart) isPrev enough)
              refine ⟨?_, ?_⟩
              · intro given
                obtain ⟨_, _, ⟨hops, leads, sized⟩, hopsBack, leadsBack,
                  sizedBack⟩ := given
                exact reads_of_leads isHead isTail leads leadsBack sized
                  sizedBack
              · intro given
                obtain ⟨forth, back, reads⟩ := given
                obtain ⟨hops, hopsBack, leads, leadsBack, sized⟩ :=
                  reads.leads isHead isTail
                exact ⟨leadsBack.ends, leads.ends,
                  ⟨hops, leads, fun size isSize =>
                    (sized size isSize).1⟩,
                  hopsBack, leadsBack, fun size isSize =>
                    (sized size isSize).2⟩

/--
The assertions on a list always come to a verdict.  They pass exactly if it
reads, and it holds a sequence if it reads as this sequence both ways.
-/
theorem list_verdict_on_any_memory
    [Fintype ι] {fuel : Nat}
    (memory : Memory ι κ) (list : κ)
    (enough : Fintype.card ι + 2 ≤ fuel) :
    (listCheckInvariants fuel memory list = .ok () ↔
        ∃ forth back, Reads memory list forth back) ∧
      (listCheckInvariants fuel memory list = .ok () ∨
        listCheckInvariants fuel memory list = .error .assertion) ∧
      ∀ sequence,
        Holds memory list sequence ↔
          Reads memory list sequence sequence.reverse := by
  rcases decides_listCheckInvariants memory list enough with
    ⟨reads, passed⟩ | ⟨fails, failed⟩
  · exact ⟨⟨fun _ => reads, fun _ => passed⟩, Or.inl passed,
      holds_iff_reads⟩
  · refine ⟨⟨?_, fun reads => absurd reads fails⟩, Or.inr failed,
      holds_iff_reads⟩
    intro passed
    rw [failed] at passed
    cases passed

/-- Three hooks; the way back leaves out the one in the middle. -/
def skipping : Memory (Fin 3) Unit where
  hooks := ![⟨some 1, none⟩, ⟨some 2, some 0⟩, ⟨none, some 0⟩]
  lists := fun _ => { head := some 0, tail := some 2, size := none }

/-- The verdict on them. -/
theorem list_verdict_on_any_memory_skipping :
    (listCheckInvariants 5 skipping () = .ok () ↔
        ∃ forth back, Reads skipping () forth back) ∧
      (listCheckInvariants 5 skipping () = .ok () ∨
        listCheckInvariants 5 skipping () = .error .assertion) ∧
      ∀ sequence,
        Holds skipping () sequence ↔
          Reads skipping () sequence sequence.reverse :=
  list_verdict_on_any_memory skipping () (by decide)

example : listCheckInvariants 5 skipping () = .ok () := by
  decide

/-- The invariants of a hook, on any contents of the memory. -/
theorem decides_hookCheckInvariants
    [Fintype ι] {fuel : Nat}
    (memory : Memory ι κ) (hook : ι)
    (enough : Fintype.card ι + 2 ≤ fuel) :
    Decides (Ends memory.next hook ∧ Ends memory.prev hook) ()
      (hookCheckInvariants fuel memory hook) :=
  (decides_hookCheckTraversal hook enough).andThen fun _ =>
    decides_hookCheckTraversal hook enough

/-- The invariants of an iterator. -/
theorem decides_itCheckInvariants
    [Fintype ι] {fuel : Nat}
    (memory : Memory ι κ) (it : It ι)
    (enough : Fintype.card ι + 2 ≤ fuel) :
    Decides
      (∀ hook ∈ it.value, Ends memory.next hook ∧ Ends memory.prev hook) ()
      (itCheckInvariants fuel memory it) := by
  rw [itCheckInvariants]
  cases it.value with
  | none =>
      exact (decides_ok ()).congr (by simp)
  | some hook =>
      apply (decides_hookCheckInvariants memory hook enough).congr
      simp

/-- The loop of `dfk_list_size` along a row of hooks. -/
theorem decides_countFrom
    [Fintype ι] {fuel : Nat}
    (follows : Follows memory.next forth)
    (enough : Fintype.card ι + 2 ≤ fuel)
    (rounds : Nat) :
    ∀ {index counted : Nat},
      (∀ hook ∈ forth[index]?, Ends memory.prev hook) →
        index ≤ forth.length →
          forth.length < index + rounds →
            Decides (∀ hook ∈ forth.drop index, Ends memory.prev hook)
              (counted + (forth.length - index))
              (countFrom fuel memory { value := none } rounds
                { value := forth[index]? } counted) := by
  have checks (index : Nat) :=
    (decides_itCheckInvariants memory { value := forth[index]? : It ι }
      enough).congr
      (show _ ↔ ∀ hook ∈ forth[index]?, Ends memory.prev hook from
        ⟨fun both hook isHook => (both hook isHook).2,
          fun ends hook isHook =>
            ⟨follows.ends (List.mem_of_getElem? isHook), ends hook isHook⟩⟩)
  induction rounds with
  | zero =>
      intro index counted _ within left
      omega
  | succ rounds inductionHypothesis =>
      intro index counted here within left
      have passed :
          itCheckInvariants fuel memory { value := forth[index]? : It ι } =
            .ok () := by
        rcases checks index with ⟨-, passed⟩ | ⟨fails, -⟩
        · exact passed
        · exact absurd here fails
      have equal :
          itEqual fuel memory { value := forth[index]? : It ι }
              { value := none } =
            .ok (decide (forth[index]? = none)) := by
        rw [itEqual, passed]
        rfl
      rw [countFrom, equal, ok_bind]
      cases isHook : forth[index]? with
      | none =>
          have past := List.getElem?_eq_none_iff.mp isHook
          rw [if_pos (decide_eq_true rfl), List.drop_eq_nil_of_le past,
            Nat.sub_eq_zero_of_le past]
          exact (decides_ok counted).congr (by simp)
      | some hook =>
          obtain ⟨inside, atIndex⟩ := List.getElem?_eq_some_iff.mp isHook
          have isNext : memory.next hook = forth[index + 1]? := by
            rw [← follows index, isHook, Option.bind_some]
          have advances :
              itNext fuel memory { value := some hook } =
                itCheckInvariants fuel memory
                    { value := forth[index + 1]? : It ι } >>=
                  fun _ => .ok { value := forth[index + 1]? } := by
            rw [itNext, advance, ← isHook, passed, ok_bind, isHook,
              deref_some, ok_bind, isNext]
            rfl
          have value :
              counted + (forth.length - index) =
                counted + 1 + (forth.length - (index + 1)) := by
            omega
          have ends : Ends memory.prev hook := here hook isHook
          rw [if_neg (by simp), advances, bind_assoc, value,
            List.drop_eq_getElem_cons inside, atIndex]
          apply Decides.congr ((checks (index + 1)).andThen fun next =>
            inductionHypothesis next inside (by omega))
          refine ⟨fun both => ?_, fun all => ⟨?_, ?_⟩⟩
          · intro other member
            rcases List.mem_cons.mp member with rfl | later
            · exact ends
            · exact both.2 other later
          · intro other isOther
            apply all other
            apply List.mem_cons_of_mem
            rw [← List.head?_drop] at isOther
            exact List.mem_of_head? isOther
          · intro other later
            exact all other (List.mem_cons_of_mem _ later)

/-- The size of a list that reads, if it has to be counted. -/
theorem decides_size_of_reads
    [Fintype ι] {fuel : Nat}
    (reads : Reads memory list forth back)
    (counts : (memory.lists list).size = none)
    (enough : Fintype.card ι + 2 ≤ fuel) :
    Decides (∀ hook ∈ forth, Ends memory.prev hook) forth.length
      (size fuel memory list) := by
  have passed : listCheckInvariants fuel memory list = .ok () := by
    rcases decides_listCheckInvariants memory list enough with
      ⟨-, passed⟩ | ⟨fails, -⟩
    · exact passed
    · exact absurd ⟨forth, back, reads⟩ fails
  have head : (memory.lists list).head = forth[0]? := by
    rw [reads.head, List.head?_eq_getElem?]
  have short : forth.length < fuel := by
    cases isLast : forth.getLast? with
    | none =>
        rw [List.getLast?_eq_none_iff.mp isLast, List.length_nil]
        omega
    | some last =>
        have isHead : (memory.lists list).head = forth.head? := reads.head
        have isTail := reads.tail.trans (reads.last.symm.trans isLast)
        cases isFirst : forth.head? with
        | none =>
            rw [List.head?_eq_none_iff.mp isFirst, List.length_nil]
            omega
        | some first =>
            have leads := reads.next.leads isFirst isLast
            have atLast :
                (walk memory.next (some first) (forth.length - 1)).isSome := by
              rw [leads.arrives]
              rfl
            have bounded := length_le_card atLast leads.past
            omega
  have begins :
      size fuel memory list =
        itCheckInvariants fuel memory { value := forth[0]? : It ι } >>=
          fun _ =>
            countFrom fuel memory { value := none } fuel
              { value := forth[0]? } 0 := by
    rw [size, passed, ok_bind, counts]
    dsimp only
    rw [begin, passed, ok_bind, head, bind_assoc]
    apply congrArg
    funext checked
    rw [pure_eq_ok, ok_bind, listEnd, passed]
    rfl
  rw [begins]
  have checked :=
    decides_itCheckInvariants memory { value := forth[0]? : It ι } enough
  have counted
      (here :
        ∀ hook ∈ forth[0]?, Ends memory.next hook ∧ Ends memory.prev hook) :=
    @decides_countFrom ι κ memory forth _ _ fuel reads.next enough fuel 0 0
      (fun hook isHook => (here hook isHook).2) (Nat.zero_le _) (by omega)
  rw [Nat.zero_add, Nat.sub_zero, List.drop_zero] at counted
  apply (checked.andThen counted).congr
  refine ⟨And.right, fun all => ⟨fun hook isHook => ?_, all⟩⟩
  have member := List.mem_of_getElem? isHook
  exact ⟨reads.next.ends member, all hook member⟩

/--
`dfk_list_size` on any contents of the memory.  If the size has to be counted,
the iterators check each hook, and it takes more for it to return.
-/
theorem size_on_any_memory
    [Fintype ι] {fuel : Nat}
    (memory : Memory ι κ) (list : κ)
    (enough : Fintype.card ι + 2 ≤ fuel) :
    (∃ forth back,
        Reads memory list forth back ∧
          ((memory.lists list).size = none →
            ∀ hook ∈ forth, Ends memory.prev hook) ∧
          size fuel memory list = .ok forth.length) ∨
      (¬ ∃ forth back,
          Reads memory list forth back ∧
            ((memory.lists list).size = none →
              ∀ hook ∈ forth, Ends memory.prev hook)) ∧
        size fuel memory list = .error .assertion := by
  rcases decides_listCheckInvariants memory list enough with
    ⟨⟨forth, back, reads⟩, passed⟩ | ⟨fails, failed⟩
  · cases kept : (memory.lists list).size with
    | some kept' =>
        refine Or.inl ⟨forth, back, reads, nofun, ?_⟩
        rw [size, passed, ok_bind, kept]
        exact congrArg Except.ok (reads.size kept' kept).1
    | none =>
        rcases decides_size_of_reads reads kept enough with
          ⟨ends, counted⟩ | ⟨missing, failed⟩
        · exact Or.inl ⟨forth, back, reads, fun _ => ends, counted⟩
        · refine Or.inr ⟨?_, failed⟩
          intro given
          obtain ⟨others, othersBack, readsToo, ends⟩ := given
          rcases decides_size_of_reads readsToo kept enough with
            ⟨-, counted⟩ | ⟨missing, -⟩
          · rw [failed] at counted
            cases counted
          · exact missing (ends rfl)
  · refine Or.inr ⟨?_, ?_⟩
    · intro given
      obtain ⟨forth, back, reads, _⟩ := given
      exact fails ⟨forth, back, reads⟩
    · rw [size, failed, error_bind]

/-- The hook that the way back leaves out is counted. -/
theorem size_on_any_memory_skipping :
    (∃ forth back,
        Reads skipping () forth back ∧
          ((skipping.lists ()).size = none →
            ∀ hook ∈ forth, Ends skipping.prev hook) ∧
          size 5 skipping () = .ok forth.length) ∨
      (¬ ∃ forth back,
          Reads skipping () forth back ∧
            ((skipping.lists ()).size = none →
              ∀ hook ∈ forth, Ends skipping.prev hook)) ∧
        size 5 skipping () = .error .assertion :=
  size_on_any_memory skipping () (by decide)

example : size 5 skipping () = .ok 3 := by
  decide

end Verdict

end Dfk.LinkedList
