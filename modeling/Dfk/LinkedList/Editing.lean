import Dfk.LinkedList.Linking

/-!
# Edited lists

An insertion splices its hook in, at whichever end or position, and an erasure
unlinks it, whichever of the four branches does so.
-/

namespace Dfk.LinkedList

variable {ι κ : Type} [DecidableEq ι] [DecidableEq κ]

section Links

variable {memory : Memory ι κ} {list : κ} {sequence : List ι}
variable {before after : List ι} {hook value : ι}

/-- What `dfk_list_append` writes. -/
theorem Holds.linkLast
    (holds : Holds memory list sequence)
    (isNew : hook ∉ sequence) :
    Spliced memory list sequence hook [] (linkLast memory list hook) := by
  have head := holds.head
  have tail := holds.tail
  have notLast : sequence.getLast? ≠ some hook := fun last =>
    isNew (List.mem_of_getLast? last)
  rw [LinkedList.linkLast]
  refine ⟨fun query => ?_, fun query => ?_, fun other differs => ?_, ?_⟩
  · by_cases isHook : query = hook
    · subst isHook
      simp [tail, notLast]
    · simp [tail, isHook]
  · simp [tail]
  · simp [differs]
  · cases sequence with
    | nil => simp [head]
    | cons first rest =>
        simp [head, List.getLast?_cons, List.getLast?_append]

/-- What `dfk_list_prepend` writes. -/
theorem Holds.linkFirst
    (holds : Holds memory list sequence)
    (isNew : hook ∉ sequence) :
    Spliced memory list [] hook sequence (linkFirst memory list hook) := by
  have head := holds.head
  have tail := holds.tail
  have notFirst : sequence.head? ≠ some hook := fun first =>
    isNew (List.mem_of_head? first)
  rw [LinkedList.linkFirst]
  refine ⟨fun query => ?_, fun query => ?_, fun other differs => ?_, ?_⟩
  · simp [head]
  · by_cases isHook : query = hook
    · subst isHook
      simp [head, notFirst]
    · simp [head, isHook]
  · simp [differs]
  · cases sequence with
    | nil => simp [tail]
    | cons first rest => simp [tail, List.getLast?_cons]

/-- What `dfk_list_insert` writes in front of a hook. -/
theorem Holds.linkBefore
    (holds : Holds memory list (before ++ value :: after)) :
    Spliced memory list before hook (value :: after)
      (linkBefore memory list hook { value := some value }) := by
  have head := holds.head
  have tail := holds.tail
  have isPrev := holds.links.1
  rw [LinkedList.linkBefore]
  refine ⟨fun query => ?_, fun query => ?_, fun other differs => ?_, ?_⟩
  · simp [isPrev]
  · simp [isPrev]
  · simp [differs]
  · cases before with
    | nil => simp [isPrev, tail, List.getLast?_cons]
    | cons first rest =>
        simp [isPrev, head, tail, List.getLast?_cons, List.getLast?_append]

/-- What `dfk_list_insert` writes at the end. -/
theorem Holds.linkBefore_end
    (holds : Holds memory list sequence) :
    Spliced memory list sequence hook []
      (LinkedList.linkBefore memory list hook { value := none }) := by
  have head := holds.head
  have tail := holds.tail
  rw [LinkedList.linkBefore]
  refine ⟨fun query => ?_, fun query => ?_, fun other differs => ?_, ?_⟩
  · simp [tail]
  · simp [tail]
  · simp [differs]
  · cases sequence with
    | nil => simp [tail]
    | cons first rest =>
        simp [head, tail, List.getLast?_cons, List.getLast?_append]

/-- What `dfk_list_rinsert` writes behind a hook. -/
theorem Holds.linkBehind
    (holds : Holds memory list (before ++ value :: after)) :
    Spliced memory list (before ++ [value]) hook after
      (linkBehind memory list hook { value := some value }) := by
  have head := holds.head
  have tail := holds.tail
  have isNext := holds.links.2
  rw [LinkedList.linkBehind]
  refine ⟨fun query => ?_, fun query => ?_, fun other differs => ?_, ?_⟩
  · simp [isNext]
  · simp [isNext]
  · simp [differs]
  · cases after with
    | nil =>
        cases before <;>
          simp [isNext, head, List.getLast?_cons, List.getLast?_append]
    | cons first rest =>
        cases before <;>
          simp [isNext, head, tail, List.getLast?_cons, List.getLast?_append]

/-- What `dfk_list_rinsert` writes at the reverse end. -/
theorem Holds.linkBehind_end
    (holds : Holds memory list sequence) :
    Spliced memory list [] hook sequence
      (LinkedList.linkBehind memory list hook { value := none }) := by
  have head := holds.head
  have tail := holds.tail
  rw [LinkedList.linkBehind]
  cases sequence with
  | nil =>
      refine ⟨fun query => ?_, fun query => ?_, fun other differs => ?_, ?_⟩
      · simp [tail]
      · simp [tail]
      · simp [differs]
      · simp [tail]
  | cons first rest =>
      refine ⟨fun query => ?_, fun query => ?_, fun other differs => ?_, ?_⟩
      · simp [tail, head, List.getLast?_cons]
      · simp [tail, head, List.getLast?_cons]
      · simp [differs]
      · simp [head, tail, List.getLast?_cons]

/-- The hook of a list with one element is unlinked. -/
theorem Holds.unlink_only
    (holds : Holds memory list [hook]) :
    ∃ written,
      unlink memory list (some hook) = .ok written ∧
        Unlinked memory list [] [] (written.resize list (· - 1)) := by
  have isHead : (memory.lists list).head = some hook := holds.head
  have isTail : (memory.lists list).tail = some hook := holds.tail
  rw [LinkedList.unlink, isHead, isTail, if_pos rfl, check_pos rfl, ok_bind]
  refine ⟨_, rfl, nofun, nofun, fun _ _ => rfl, fun _ _ => rfl,
    fun other differs => ?_, ?_⟩
  · simp [differs]
  · simp

/-- The first hook is unlinked. -/
theorem Holds.unlink_first
    {next : ι}
    (holds : Holds memory list (hook :: next :: after)) :
    ∃ written,
      LinkedList.unlink memory list (some hook) = .ok written ∧
        Unlinked memory list [] (next :: after)
          (written.resize list (· - 1)) := by
  obtain ⟨last, isLast⟩ : ∃ last, (next :: after).getLast? = some last := by
    rw [List.getLast?_cons]
    exact ⟨_, rfl⟩
  have isHead : (memory.lists list).head = some hook := holds.head
  have isTail : (memory.lists list).tail = some last := by
    rw [holds.tail, List.getLast?_cons_cons, isLast]
  have isNext : memory.next hook = some next :=
    (@Holds.links _ _ memory list [] (next :: after) hook holds).2
  have several : ¬ some hook = some last := by
    rintro ⟨⟩
    exact (List.nodup_cons.mp holds.noDuplicates).1
      (List.mem_of_getLast? isLast)
  have present : memory.next hook ≠ none := by
    rw [isNext]
    exact Option.some_ne_none next
  rw [LinkedList.unlink, isHead, isTail, if_neg several, if_pos rfl,
    deref_some, ok_bind, check_pos present, ok_bind, isNext, deref_some,
    ok_bind]
  refine ⟨_, rfl, nofun, fun query isFirst => ?_, fun query _ => ?_,
    fun query notFirst => ?_, fun other differs => ?_, ?_⟩
  · cases isFirst
    simp
  · simp
  · have differs : query ≠ next := fun same =>
      notFirst (congrArg some same.symm)
    simp [differs]
  · simp [differs]
  · simp [isTail, isLast]

omit [DecidableEq ι] [DecidableEq κ] in
/-- A hook behind others is not the head. -/
theorem Holds.head_before
    {front : List ι} {previous : ι}
    (holds : Holds memory list (front ++ previous :: hook :: after)) :
    ∃ first ∈ front ++ [previous],
      (memory.lists list).head = some first ∧ first ≠ hook := by
  have apart : hook ∉ front ++ [previous] := by
    have noDuplicates := holds.noDuplicates
    rw [← List.singleton_append, ← List.append_assoc, List.nodup_middle,
      List.nodup_cons] at noDuplicates
    exact fun member => noDuplicates.1 (List.mem_append_left _ member)
  have member (first : ι) (isFirst : (front ++ [previous]).head? = some first) :
      first ∈ front ++ [previous] ∧ first ≠ hook := by
    have inside := List.mem_of_head? isFirst
    refine ⟨inside, ?_⟩
    rintro rfl
    exact apart inside
  cases front with
  | nil =>
      obtain ⟨inside, differs⟩ := member previous rfl
      exact ⟨previous, inside, holds.head, differs⟩
  | cons first rest =>
      obtain ⟨inside, differs⟩ := member first rfl
      exact ⟨first, inside, holds.head, differs⟩

/-- The last hook is unlinked. -/
theorem Holds.unlink_last
    {front : List ι} {previous : ι}
    (holds : Holds memory list (front ++ [previous, hook])) :
    ∃ written,
      LinkedList.unlink memory list (some hook) = .ok written ∧
        Unlinked memory list (front ++ [previous]) []
          (written.resize list (· - 1)) := by
  obtain ⟨first, -, isHead, notHook⟩ := holds.head_before
  have isPrevious : (front ++ [previous]).getLast? = some previous :=
    List.getLast?_concat
  have isTail : (memory.lists list).tail = some hook := by
    rw [holds.tail]
    simp [List.getLast?_append]
  have isPrev : memory.prev hook = some previous := by
    have shape : front ++ [previous, hook] = front ++ [previous] ++ [hook] := by
      simp
    rw [shape] at holds
    rw [holds.links.1, isPrevious]
  have headBefore : (front ++ [previous]).head? = some first := by
    rw [← isHead, holds.head]
    cases front <;> rfl
  have several : ¬ some first = some hook := fun same =>
    notHook (Option.some.inj same)
  have present : memory.prev hook ≠ none := by
    rw [isPrev]
    exact Option.some_ne_none previous
  rw [LinkedList.unlink, isHead, isTail, if_neg several,
    if_neg (Ne.symm several), if_pos rfl, deref_some, ok_bind,
    check_pos present, ok_bind, isPrev, deref_some, ok_bind]
  refine ⟨_, rfl, fun query isLast => ?_, nofun, fun query notLast => ?_,
    fun query _ => ?_, fun other differs => ?_, ?_⟩
  · rw [isPrevious] at isLast
    cases isLast
    simp
  · have differs : query ≠ previous := fun same =>
      notLast (by rw [isPrevious, same])
    simp [differs]
  · simp
  · simp [differs]
  · simp only [Memory.resize_self, Memory.setTail_self, Memory.setNext_lists,
      isHead, List.append_nil, headBefore, isPrevious]

/-- A hook in the middle is unlinked. -/
theorem Holds.unlink_middle
    {front : List ι} {previous next : ι}
    (holds : Holds memory list (front ++ previous :: hook :: next :: after)) :
    ∃ written,
      LinkedList.unlink memory list (some hook) = .ok written ∧
        Unlinked memory list (front ++ [previous]) (next :: after)
          (written.resize list (· - 1)) := by
  obtain ⟨first, firstInside, isHead, notHead⟩ := holds.head_before
  obtain ⟨last, isLast⟩ : ∃ last, (next :: after).getLast? = some last := by
    rw [List.getLast?_cons]
    exact ⟨_, rfl⟩
  have lastInside : last ∈ next :: after := List.mem_of_getLast? isLast
  have shape :
      front ++ previous :: hook :: next :: after =
        front ++ [previous] ++ hook :: next :: after := by
    simp
  rw [shape] at holds
  have isPrevious : (front ++ [previous]).getLast? = some previous :=
    List.getLast?_concat
  have noDuplicates := List.nodup_middle.mp holds.noDuplicates
  have apart : List.Disjoint (front ++ [previous]) (next :: after) :=
    List.disjoint_of_nodup_append (List.nodup_cons.mp noDuplicates).2
  have isTail : (memory.lists list).tail = some last := by
    rw [holds.tail, List.getLast?_append, List.getLast?_cons_cons, isLast,
      Option.some_or]
  have headBefore : (front ++ [previous]).head? = some first := by
    rw [← isHead, holds.head]
    cases front <;> rfl
  have isPrev : memory.prev hook = some previous := by
    rw [holds.links.1, isPrevious]
  have isNext : memory.next hook = some next := holds.links.2
  have several : ¬ some first = some last := by
    rintro ⟨⟩
    exact apart firstInside lastInside
  have notFirst : ¬ some hook = some first := fun same =>
    notHead (Option.some.inj same).symm
  have notLast : ¬ some hook = some last := by
    rintro ⟨⟩
    exact (List.nodup_cons.mp noDuplicates).1
      (List.mem_append_right _ lastInside)
  have presentPrev : memory.prev hook ≠ none := by
    rw [isPrev]
    exact Option.some_ne_none previous
  have presentNext : memory.next hook ≠ none := by
    rw [isNext]
    exact Option.some_ne_none next
  rw [LinkedList.unlink, isHead, isTail, if_neg several, if_neg notFirst,
    if_neg notLast, deref_some, ok_bind, check_pos presentPrev, ok_bind,
    check_pos presentNext, ok_bind, isPrev, deref_some, ok_bind, isNext,
    deref_some, ok_bind]
  refine ⟨_, rfl, fun query isEnd => ?_, fun query isStart => ?_,
    fun query notEnd => ?_, fun query notStart => ?_,
    fun other differs => ?_, ?_⟩
  · rw [isPrevious] at isEnd
    cases isEnd
    simp
  · cases isStart
    simp
  · have differs : query ≠ previous := fun same =>
      notEnd (by rw [isPrevious, same])
    simp [differs]
  · have differs : query ≠ next := fun same =>
      notStart (congrArg some same.symm)
    simp [differs]
  · simp [differs]
  · simp only [Memory.resize_self, Memory.setPrev_lists, Memory.setNext_lists,
      isHead, isTail]
    rw [List.head?_append, headBefore, List.getLast?_append, isLast]
    rfl

/-- What `dfk_list_erase` writes. -/
theorem Holds.unlink
    (holds : Holds memory list (before ++ hook :: after)) :
    ∃ written,
      LinkedList.unlink memory list (some hook) = .ok written ∧
        Unlinked memory list before after (written.resize list (· - 1)) := by
  rcases List.eq_nil_or_concat before with rfl | ⟨front, previous, rfl⟩
  · cases after with
    | nil => exact holds.unlink_only
    | cons next rest => exact holds.unlink_first
  · rw [List.concat_eq_append] at *
    have shape :
        front ++ [previous] ++ hook :: after =
          front ++ previous :: hook :: after := by
      simp
    rw [shape] at holds
    cases after with
    | nil => exact holds.unlink_last
    | cons next rest => exact holds.unlink_middle

/-! ## Linking a hook again -/

omit [DecidableEq ι] [DecidableEq κ] in
/-- Two lists go through the same hooks as long as these lead to the same. -/
theorem Holds.agree
    {memory' : Memory ι κ} {sequence' : List ι} {count : Nat}
    (holds : Holds memory list sequence)
    (holds' : Holds memory' list sequence')
    (sameHead : (memory'.lists list).head = (memory.lists list).head)
    (sameNext : ∀ (place : Nat) (hook : ι),
      place < count → sequence[place]? = some hook →
        memory'.next hook = memory.next hook) :
    ∀ place, place ≤ count → sequence'[place]? = sequence[place]? := by
  intro place
  induction place with
  | zero =>
      intro _
      rw [← List.head?_eq_getElem?, ← List.head?_eq_getElem?, ← holds.head,
        ← holds'.head]
      exact sameHead
  | succ place inductionHypothesis =>
      intro within
      have before := inductionHypothesis (Nat.le_of_succ_le within)
      rw [← holds'.follows_next, ← holds.follows_next, before]
      cases isHook : sequence[place]? with
      | none => rfl
      | some hook => exact sameNext place hook within isHook

omit [DecidableEq ι] [DecidableEq κ] in
/-- A list holds one sequence. -/
theorem Holds.unique
    {sequence' : List ι}
    (holds : Holds memory list sequence)
    (holds' : Holds memory list sequence') :
    sequence' = sequence := by
  apply List.ext_getElem?
  intro place
  exact @Holds.agree _ _ _ _ _ _ _ place holds holds' rfl (fun _ _ _ _ => rfl) place
    (Nat.le_refl _)

/-- A hook that is appended twice makes a list lose what is behind it. -/
theorem Holds.not_linkLast_again
    {sequence' : List ι}
    (holds : Holds memory list sequence)
    (member : hook ∈ sequence)
    (holds' : Holds (LinkedList.linkLast memory list hook) list sequence') :
    ¬ ∀ query, query ∈ sequence' ↔ query ∈ sequence := by
  intro sameMembers
  have next (query : ι) :
      (LinkedList.linkLast memory list hook).next query =
        if sequence.getLast? = some query then some hook
        else if query = hook then none else memory.next query := by
    simp [LinkedList.linkLast, holds.tail]
  obtain ⟨place, isHook⟩ := List.getElem?_of_mem member
  by_cases isLast : sequence.getLast? = some hook
  · have isLast' : sequence'.getLast? = some hook := by
      rw [← holds'.tail]
      simp [LinkedList.linkLast]
    obtain ⟨front, shape⟩ := List.getLast?_eq_some_iff.mp isLast'
    rw [shape] at holds'
    have ends := holds'.links.2
    rw [next, if_pos isLast] at ends
    cases ends
  · have inside := (List.getElem?_eq_some_iff.mp isHook).1
    have differs : place ≠ sequence.length - 1 := by
      rintro rfl
      rw [List.getLast?_eq_getElem?] at isLast
      exact isLast isHook
    have sameLength : sequence'.length = sequence.length := by
      apply List.Perm.length_eq
      exact (List.perm_ext_iff_of_nodup holds'.noDuplicates
        holds.noDuplicates).mpr sameMembers
    have sameHead :
        ((LinkedList.linkLast memory list hook).lists list).head =
          (memory.lists list).head := by
      have isSome : (memory.lists list).head ≠ none := by
        rw [holds.head, ne_eq, List.head?_eq_none_iff]
        exact List.ne_nil_of_mem member
      simp [LinkedList.linkLast, isSome]
    have reached : sequence'[place]? = some hook := by
      rw [← isHook]
      apply holds.agree holds' sameHead _ place (Nat.le_refl _)
      intro earlier query before isQuery
      have notHook : query ≠ hook := by
        rintro rfl
        apply getElem?_ne_of_lt holds.noDuplicates _ before
          (isQuery.trans isHook.symm)
        exact before.trans inside
      have notLast : sequence.getLast? ≠ some query := by
        rw [List.getLast?_eq_getElem?, ← isQuery]
        apply Ne.symm
        apply getElem?_ne_of_lt holds.noDuplicates (before.trans inside)
        omega
      rw [next, if_neg notLast, if_neg notHook]
    have past := holds'.follows_next place
    rw [reached, Option.bind_some, next, if_neg isLast, if_pos rfl] at past
    have short := List.getElem?_eq_none_iff.mp past.symm
    omega

end Links

end Dfk.LinkedList
