import Dfk.LinkedList.Editing
import Dfk.LinkedList.MemoryOptimized.Representation

/-!
# Writing combined links

A memory with one pointer in a hook encodes one with two.  What the writes of
an insertion and of an erasure have in common is `Spliced` and `Unlinked`; each
of them does to the encoded memory what it does there.
-/

namespace Dfk.LinkedList.MemoryOptimized

open XorChain

variable {κ : Type} {width : Nat}

/-- The pointer of each hook in a list combines those of the other layout. -/
structure Encodes (memory : Memory width κ)
    (plain : LinkedList.Memory (Address width) κ)
    (sequences : Sequences (Address width) κ) : Prop where
  links :
    ∀ list, ∀ hook ∈ sequences list,
      memory.p hook = combine (plain.prev hook) (plain.next hook)
  lists : memory.lists = plain.lists

/-- Every list holds its sequence, and no hook is in two of them. -/
def Represents (memory : Memory width κ)
    (sequences : Sequences (Address width) κ) : Prop :=
  ∃ plain,
    LinkedList.Represents plain sequences ∧ Encodes memory plain sequences

variable {memory memory' : Memory width κ}
variable {sequences : Sequences (Address width) κ}
variable {list : κ} {before after : List (Address width)}
variable {hook : Address width}

theorem Represents.holds
    (represents : Represents memory sequences) (list : κ) :
    Holds memory list (sequences list) := by
  obtain ⟨plain, isPlain, encodes⟩ := represents
  have holds := isPlain.holds list
  refine ⟨?_, holds.noDuplicates, ?_, ?_, ?_⟩
  · exact threaded_of_linked holds.linked (encodes.links list)
  · rw [encodes.lists]
    exact holds.head
  · rw [encodes.lists]
    exact holds.tail
  · rw [encodes.lists]
    exact holds.size

/-! ## Insertion -/

/-- A hook has been put between two parts of the sequence of a list. -/
structure Spliced (memory : Memory width κ) (list : κ)
    (before : List (Address width)) (hook : Address width)
    (after : List (Address width)) (memory' : Memory width κ) : Prop where
  between : memory'.p hook = combine before.getLast? after.head?
  last :
    ∀ query,
      before.getLast? = some query →
        memory'.p query =
          ptrXor3 (memory.p query) (some hook) after.head?
  first :
    ∀ query,
      after.head? = some query →
        memory'.p query =
          ptrXor3 (memory.p query) before.getLast? (some hook)
  same :
    ∀ query,
      query ≠ hook → before.getLast? ≠ some query →
        after.head? ≠ some query → memory'.p query = memory.p query
  others : ∀ other, other ≠ list → memory'.lists other = memory.lists other
  list :
    memory'.lists list =
      { head := (before ++ hook :: after).head?
        tail := (before ++ hook :: after).getLast?
        size := (memory.lists list).size.map (· + 1) }

/-- A hook can be put at each place of a list with two pointers. -/
theorem exists_spliced [DecidableEq κ]
    {plain : LinkedList.Memory (Address width) κ}
    (holds : LinkedList.Holds plain list (before ++ after))
    (hook : Address width) :
    ∃ written, LinkedList.Spliced plain list before hook after written := by
  cases after with
  | nil =>
      rw [List.append_nil] at holds
      exact ⟨_, holds.linkBefore_end⟩
  | cons value rest =>
      exact ⟨_, holds.linkBefore⟩

/-- The neighbours of the place between two parts of a sequence. -/
theorem neighbours_of_holds
    {plain : LinkedList.Memory (Address width) κ}
    (holds : LinkedList.Holds plain list (before ++ after)) :
    (∀ last, before.getLast? = some last → plain.next last = after.head?) ∧
      ∀ first, after.head? = some first →
        plain.prev first = before.getLast? := by
  refine ⟨fun last isLast => ?_, fun first isFirst => ?_⟩
  · obtain ⟨front, rfl⟩ := List.getLast?_eq_some_iff.mp isLast
    rw [List.append_assoc] at holds
    exact holds.links.2
  · obtain ⟨rest, rfl⟩ := List.head?_eq_some_iff.mp isFirst
    exact holds.links.1

theorem Represents.splice [DecidableEq κ]
    (represents : Represents memory sequences)
    (shape : sequences list = before ++ after)
    (isNew : ∀ other, hook ∉ sequences other)
    (spliced : Spliced memory list before hook after memory') :
    Represents memory'
      (Function.update sequences list (before ++ hook :: after)) := by
  obtain ⟨plain, isPlain, encodes⟩ := represents
  have holds := isPlain.holds list
  rw [shape] at holds
  obtain ⟨written, splicedPlain⟩ := exists_spliced holds hook
  obtain ⟨nextOfLast, prevOfFirst⟩ := neighbours_of_holds holds
  refine ⟨written, isPlain.splice shape isNew splicedPlain, ?_, ?_⟩
  · intro other query member
    by_cases isHook : query = hook
    · subst isHook
      rw [spliced.between, splicedPlain.prev, splicedPlain.next, if_pos rfl,
        if_pos rfl]
    · have old : ∃ list, query ∈ sequences list := by
        by_cases same : other = list
        · subst same
          rw [Function.update_self, List.mem_append, List.mem_cons] at member
          refine ⟨other, ?_⟩
          rw [shape, List.mem_append]
          exact member.imp_right fun member => member.resolve_left isHook
        · rw [Function.update_of_ne same] at member
          exact ⟨other, member⟩
      obtain ⟨holder, oldMember⟩ := old
      have link := encodes.links holder query oldMember
      rw [splicedPlain.prev, splicedPlain.next, if_neg isHook, if_neg isHook]
      by_cases isLast : before.getLast? = some query
      · have notFirst : after.head? ≠ some query := fun isFirst =>
          List.disjoint_of_nodup_append holds.noDuplicates
            (List.mem_of_getLast? isLast) (List.mem_of_head? isFirst)
        rw [if_pos isLast, if_neg notFirst, spliced.last query isLast, link,
          nextOfLast query isLast]
        exact combine_replace_second ..
      · rw [if_neg isLast]
        by_cases isFirst : after.head? = some query
        · rw [if_pos isFirst, spliced.first query isFirst, link,
            prevOfFirst query isFirst]
          exact combine_replace_first ..
        · rw [if_neg isFirst, spliced.same query isHook isLast isFirst, link]
  · funext other
    by_cases same : other = list
    · subst same
      rw [spliced.list, splicedPlain.list, encodes.lists]
    · rw [spliced.others other same, splicedPlain.others other same,
        encodes.lists]

/-! ## Erasure -/

/-- A hook between two parts of the sequence of a list has been taken out. -/
structure Unlinked (memory : Memory width κ) (list : κ)
    (before : List (Address width)) (hook : Address width)
    (after : List (Address width)) (memory' : Memory width κ) : Prop where
  last :
    ∀ query,
      before.getLast? = some query →
        memory'.p query =
          ptrXor3 (memory.p query) (some hook) after.head?
  first :
    ∀ query,
      after.head? = some query →
        memory'.p query =
          ptrXor3 (memory.p query) (some hook) before.getLast?
  same :
    ∀ query,
      before.getLast? ≠ some query → after.head? ≠ some query →
        memory'.p query = memory.p query
  others : ∀ other, other ≠ list → memory'.lists other = memory.lists other
  list :
    memory'.lists list =
      { head := (before ++ after).head?
        tail := (before ++ after).getLast?
        size := (memory.lists list).size.map (· - 1) }

theorem Represents.unlink [DecidableEq κ]
    (represents : Represents memory sequences)
    (shape : sequences list = before ++ hook :: after)
    (unlinked : Unlinked memory list before hook after memory') :
    Represents memory' (Function.update sequences list (before ++ after)) := by
  obtain ⟨plain, isPlain, encodes⟩ := represents
  have holds := isPlain.holds list
  rw [shape] at holds
  obtain ⟨written, -, unlinkedPlain⟩ := holds.unlink
  have noDuplicates : (before ++ after).Nodup :=
    (List.nodup_cons.mp (List.nodup_middle.mp holds.noDuplicates)).2
  refine ⟨_, isPlain.unlink shape unlinkedPlain, ?_, ?_⟩
  · intro other query member
    have old : ∃ list, query ∈ sequences list := by
      by_cases same : other = list
      · subst same
        rw [Function.update_self, List.mem_append] at member
        refine ⟨other, ?_⟩
        rw [shape, List.mem_append, List.mem_cons]
        exact member.imp_right Or.inr
      · rw [Function.update_of_ne same] at member
        exact ⟨other, member⟩
    obtain ⟨holder, oldMember⟩ := old
    have link := encodes.links holder query oldMember
    by_cases isLast : before.getLast? = some query
    · have notFirst : after.head? ≠ some query := fun isFirst =>
        List.disjoint_of_nodup_append noDuplicates
          (List.mem_of_getLast? isLast) (List.mem_of_head? isFirst)
      have isNext : plain.next query = some hook :=
        (neighbours_of_holds holds).1 query isLast
      rw [unlinkedPlain.ends query isLast,
        unlinkedPlain.samePrev query notFirst, unlinked.last query isLast,
        link, isNext, ptrXor3, combine_assoc (plain.prev query),
        combine_self, combine_null]
    · rw [unlinkedPlain.sameNext query isLast]
      by_cases isFirst : after.head? = some query
      · have isPrev : plain.prev query = some hook := by
          rw [List.append_cons] at holds
          rw [(neighbours_of_holds holds).2 query isFirst, List.getLast?_concat]
        rw [unlinkedPlain.starts query isFirst, unlinked.first query isFirst,
          link, isPrev]
        exact combine_replace_first ..
      · rw [unlinkedPlain.samePrev query isFirst,
          unlinked.same query isLast isFirst, link]
  · funext other
    by_cases same : other = list
    · subst same
      rw [unlinked.list, unlinkedPlain.list, encodes.lists]
    · rw [unlinked.others other same, unlinkedPlain.others other same,
        encodes.lists]

/-! ## Headers -/

/-- Headers that are moved between lists take the sequences with them. -/
theorem Represents.rearrange
    (represents : Represents memory sequences)
    (source : κ → Option κ)
    (distinct :
      ∀ first second list,
        source first = some list → source second = some list →
          first = second)
    (sameHooks : memory'.hooks = memory.hooks)
    (moved :
      ∀ list source',
        source list = some source' →
          memory'.lists list = memory.lists source')
    (emptied :
      ∀ list,
        source list = none →
          (memory'.lists list).head = none ∧
            (memory'.lists list).tail = none ∧
            ∀ size ∈ (memory'.lists list).size, size = 0) :
    Represents memory' fun list => (source list).elim [] sequences := by
  obtain ⟨plain, isPlain, encodes⟩ := represents
  let plain' : LinkedList.Memory (Address width) κ :=
    { hooks := plain.hooks, lists := memory'.lists }
  have movedPlain (list source' : κ) (isSource : source list = some source') :
      plain'.lists list = plain.lists source' := by
    rw [← encodes.lists]
    exact moved list source' isSource
  refine ⟨plain', ?_, ?_, rfl⟩
  · exact isPlain.rearrange source distinct rfl movedPlain emptied
  · intro list hook member
    cases isSource : source list with
    | none =>
        rw [isSource] at member
        cases member
    | some other =>
        rw [isSource] at member
        rw [Memory.p, sameHooks]
        exact encodes.links other hook member

end Dfk.LinkedList.MemoryOptimized
