import Dfk.EventLoop.SelectPass
import Dfk.LinkedList.Equivalence

/-!
# Wakeups in both layouts

With two pointers in a hook the pass wakes exactly the ready fibers.  With one
it only does if no ready element is followed by another one: behind the element
that is erased, the iterator still takes it for the previous one.
-/

namespace Dfk.EventLoop

open LinkedList Scheduler XorChain

variable {ι κ φ μ χ : Type}

/-! ## Passes that succeed -/

section Inversion

variable [DecidableEq ι]
variable {layout : Layout ι κ} {fuel rounds : Nat} {ready : Ready} {fds : κ}
variable {stop it : layout.It} {pass after : Pass layout φ μ χ} {hook : ι}

/-- What a round at an element does, whether it is ready or not. -/
theorem passFrom_round
    (passes :
      passFrom layout fuel ready fds stop (rounds + 1) it pass = .ok after)
    (goesOn : layout.equal fuel pass.memory it stop = .ok false)
    (isValue : layout.value it = some hook) :
    ∃ it' pass',
      layout.next .forth fuel pass.memory it = .ok it' ∧
        pass'.visited = pass.visited ++ [hook] ∧
        passFrom layout fuel ready fds stop rounds it' pass' = .ok after := by
  by_cases isReady : pass.isReady ready hook = true
  · have stillReady : (pass.behindIdle hook).isReady ready hook = true :=
      isReady
    rw [passFrom, goesOn, ok_bind, if_neg Bool.false_ne_true, isValue,
      deref_some, ok_bind] at passes
    have passes := (if_pos stillReady).symm.trans passes
    obtain ⟨it', advances, passes⟩ := of_bind passes
    obtain ⟨written, erases, passes⟩ := of_bind passes
    exact ⟨it', _, advances, rfl, passes⟩
  · have stillIdle : ¬ (pass.behindIdle hook).isReady ready hook = true :=
      isReady
    rw [passFrom, goesOn, ok_bind, if_neg Bool.false_ne_true, isValue,
      deref_some, ok_bind] at passes
    have passes := (if_neg stillIdle).symm.trans passes
    obtain ⟨it', advances, passes⟩ := of_bind passes
    exact ⟨it', _, advances, rfl, passes⟩

end Inversion

section Optimized

variable {width : Nat} [DecidableEq κ]

variable {fuel rounds : Nat} {ready : Ready} {fds : κ}
variable {stop it : Cursor width}
variable {pass after : Pass (Layout.memoryOptimized width : Layout _ κ) φ μ χ}

/-- An iterator at an element is not at the end. -/
theorem goesOn_at
    {value : Address width} {memory : MemoryOptimized.Memory width κ}
    (isEnd : stop.value = none)
    (isValue : it.value = some value) :
    (Layout.memoryOptimized width : Layout _ κ).equal fuel memory it stop =
      .ok false := by
  change Except.ok (decide (it.value = stop.value)) = _
  rw [isValue, isEnd, decide_eq_false (Option.some_ne_none value)]

/-- The loop ends where the iterator is null, and is at its element else. -/
theorem visited_of_passFrom
    (isEnd : stop.value = none)
    (passes :
      passFrom (Layout.memoryOptimized width) fuel ready fds stop rounds it
          pass =
        .ok after) :
    ∃ others,
      after.visited = pass.visited ++ others ∧ others.head? = it.value := by
  induction rounds generalizing it pass with
  | zero => cases passes
  | succ rounds inductionHypothesis =>
      cases isValue : it.value with
      | none =>
          have ends :
              (Layout.memoryOptimized width : Layout _ κ).equal fuel
                  pass.memory it stop =
                .ok true := by
            change Except.ok (decide (it.value = stop.value)) = _
            rw [isValue, isEnd, decide_eq_true rfl]
          rw [passFrom_end ends] at passes
          cases passes
          exact ⟨[], (List.append_nil _).symm, rfl⟩
      | some hook =>
          obtain ⟨it', pass', -, visited, passes⟩ :=
            passFrom_round passes (goesOn_at isEnd isValue) isValue
          obtain ⟨others, visitedAfter, -⟩ := inductionHypothesis passes
          refine ⟨hook :: others, ?_, rfl⟩
          rw [visitedAfter, visited, List.append_assoc]
          rfl

variable {sequences : Sequences (Address width) κ}
variable {front rest : List (Address width)} {hook next : Address width}
variable {elements : Address width → FdElement φ}

/--
Behind a ready element the iterator comes from the element that is not in the
list any more, and goes astray one element later.
-/
theorem passFrom_astray
    (represents : MemoryOptimized.Represents pass.memory sequences)
    (room : Room fuel sequences)
    (isEnd : stop.value = none)
    (shape : sequences fds = front ++ hook :: next :: rest)
    (stands : Stands (front ++ hook :: next :: rest) front.length it)
    (isReady : pass.isReady ready hook = true)
    (passes :
      passFrom (Layout.memoryOptimized width) fuel ready fds stop rounds it
          pass =
        .ok after) :
    after.visited ≠ pass.visited ++ hook :: next :: rest := by
  have holds := represents.holds fds
  have noDuplicates := holds.noDuplicates
  have isHook : (front ++ hook :: next :: rest)[front.length]? = some hook := by
    simp
  have isValue := stands.value.trans isHook
  have standsHere : Stands (Direction.forth.order (sequences fds))
      front.length it := by
    rw [shape]
    exact stands
  have inside : front.length < (sequences fds).length := by
    rw [shape, List.length_append, List.length_cons]
    omega
  obtain ⟨it', advances, standsNext⟩ :=
    memoryOptimized_faithful.next represents room standsHere inside
  obtain ⟨written, erases, isErased⟩ :=
    memoryOptimized_faithful.erase represents room standsHere
      (by rw [shape]; exact isHook) (fun isBack => nomatch isBack)
  rw [erasure_between noDuplicates shape] at isErased
  rw [shape] at standsNext
  have isNext : it'.value = some next := by
    rw [standsNext.value]
    simp [Direction.order]
  have comesFrom : it'.prev = some hook := by
    rw [standsNext.prev (by simp [Direction.order])]
    simp [Direction.order, List.take_append]
  have isLink : written.p next = combine front.getLast? rest.head? := by
    have holdsAfter := isErased.holds fds
    rw [Function.update_self] at holdsAfter
    exact holdsAfter.threaded front next rest rfl
  cases rounds with
  | zero => cases passes
  | succ rounds =>
      rw [passFrom_ready (goesOn_at isEnd isValue) isValue isReady
        advances erases] at passes
      cases rounds with
      | zero => cases passes
      | succ rounds =>
          obtain ⟨it'', pass', advances', visited, passes⟩ :=
            passFrom_round passes (goesOn_at isEnd isNext) isNext
          have lands : it''.value = combine it'.prev (written.p next) := by
            cases (MemoryOptimized.itNext_of_value isNext).symm.trans advances'
            rfl
          obtain ⟨others, visitedAfter, goesTo⟩ :=
            visited_of_passFrom isEnd passes
          intro same
          have sameRest : others = rest := by
            rw [visitedAfter, visited, Pass.behindReady] at same
            simpa using same
          rw [sameRest, lands, comesFrom, isLink] at goesTo
          have isBefore : hook ∈ front :=
            List.mem_of_getLast? (combine_eq_second_iff.mp goesTo.symm).symm
          rw [shape] at noDuplicates
          exact List.disjoint_of_nodup_append noDuplicates isBefore
            (List.mem_cons_self ..)

/-- Elements that are not ready do not save the pass. -/
theorem passFrom_astray_behind
    {idle : List (Address width)}
    (isEnd : stop.value = none)
    (room : Room fuel sequences)
    (isReady : ready.any (elements hook).fd = true)
    (areIdle : ∀ other ∈ idle, ready.any (elements other).fd = false) :
    ∀ {rounds : Nat} {front : List (Address width)} {it : Cursor width}
      {pass after : Pass (Layout.memoryOptimized width : Layout _ κ) φ μ χ},
      MemoryOptimized.Represents pass.memory sequences →
        pass.elements = elements →
          sequences fds = front ++ (idle ++ hook :: next :: rest) →
            Stands (front ++ (idle ++ hook :: next :: rest)) front.length
                it →
              passFrom (Layout.memoryOptimized width) fuel ready fds stop
                    rounds it pass =
                  .ok after →
                after.visited ≠
                  pass.visited ++ (idle ++ hook :: next :: rest) := by
  induction idle with
  | nil =>
      intro rounds front it pass after represents sameElements shape stands
        passes
      rw [← sameElements] at isReady
      exact passFrom_astray represents room isEnd shape stands isReady passes
  | cons other idle inductionHypothesis =>
      intro rounds front it pass after represents sameElements shape stands
        passes
      have isOther :
          (front ++ (other :: idle ++ hook :: next :: rest))[front.length]? =
            some other := by
        simp
      have isValue := stands.value.trans isOther
      have isIdle : ¬ pass.isReady ready other = true := by
        rw [Pass.isReady, sameElements,
          areIdle other (List.mem_cons_self ..)]
        exact Bool.false_ne_true
      have standsHere : Stands (Direction.forth.order (sequences fds))
          front.length it := by
        rw [shape]
        exact stands
      have inside : front.length < (sequences fds).length := by
        rw [shape, List.length_append, List.cons_append, List.length_cons]
        omega
      obtain ⟨it', advances, standsNext⟩ :=
        memoryOptimized_faithful.next represents room standsHere inside
      have grown :
          front ++ (other :: idle ++ hook :: next :: rest) =
            (front ++ [other]) ++ (idle ++ hook :: next :: rest) :=
        List.append_cons ..
      have places : front.length + 1 = (front ++ [other]).length :=
        (@List.length_append _ front [other]).symm
      rw [shape, Direction.order, grown, places] at standsNext
      cases rounds with
      | zero => cases passes
      | succ rounds =>
          rw [passFrom_idle (goesOn_at isEnd isValue) isValue isIdle advances] at passes
          have astray :=
            @inductionHypothesis
              (fun another member =>
                areIdle another (List.mem_cons_of_mem _ member))
              rounds (front ++ [other]) it' (pass.behindIdle other) after
              represents sameElements (shape.trans grown) standsNext passes
          intro same
          apply astray
          rw [same, Pass.behindIdle, List.append_assoc]
          rfl

/-! ## When the pass wakes the ready elements -/

/-- No element that is ready is followed by another one. -/
def OnlyLastReady (ready : Ready) (elements : Address width → FdElement φ)
    (registered : List (Address width)) : Prop :=
  ∀ front hook next rest,
    registered = front ++ hook :: next :: rest →
      ready.any (elements hook).fd = false

/-- A first element that is ready, and has another one behind it. -/
theorem exists_first_ready
    {registered : List (Address width)}
    (someReady : ¬ OnlyLastReady ready elements registered) :
    ∃ idle hook next rest,
      registered = idle ++ hook :: next :: rest ∧
        ready.any (elements hook).fd = true ∧
        ∀ other ∈ idle, ready.any (elements other).fd = false := by
  rw [OnlyLastReady] at someReady
  push Not at someReady
  obtain ⟨front, last, next, rest, shape, isReady⟩ := someReady
  rw [ne_eq, Bool.not_eq_false] at isReady
  let isReadyHook (hook : Address width) : Bool :=
    ready.any (elements hook).fd
  have found : ((front ++ [last]).find? isReadyHook).isSome = true := by
    rw [List.find?_isSome]
    exact ⟨last, List.mem_append_right _ (List.mem_cons_self ..), isReady⟩
  obtain ⟨hook, isFirst⟩ := Option.isSome_iff_exists.mp found
  obtain ⟨hookReady, idle, behind, split, areIdle⟩ :=
    List.find?_eq_some_iff_append.mp isFirst
  obtain ⟨successor, others, isBehind⟩ :=
    List.exists_cons_of_ne_nil
      (List.append_ne_nil_of_right_ne_nil behind (List.cons_ne_nil next rest))
  refine ⟨idle, hook, successor, others, ?_, hookReady, fun other member => ?_⟩
  · rw [← isBehind, shape, List.append_cons, split, List.append_assoc]
    rfl
  · have isIdle := areIdle other member
    rw [Bool.not_eq_true'] at isIdle
    exact isIdle

/-- Every iterator of the default layout survives. -/
theorem survives_default (behind : List ι) :
    Survives (fun sequence place (it : It ι) => it.StandsAt sequence place)
      behind := by
  intro front hook it stands
  have isNext :
      (front ++ hook :: behind)[front.length + 1]? =
        (front ++ behind)[front.length]? := by
    rw [List.getElem?_append_right (Nat.le_succ _),
      List.getElem?_append_right (Nat.le_refl _), Nat.succ_sub (Nat.le_refl _),
      Nat.sub_self]
    rfl
  exact Eq.trans stands isNext

/-- With one pointer in a hook, the iterator past the end does. -/
theorem survives_at_end : Survives (@Stands width) [] := by
  intro front hook it stands
  refine ⟨?_, fun inside => ?_⟩
  · rw [stands.value]
    simp
  · simp at inside

/-- A pass with one pointer in a hook. -/
theorem wakesReady_optimized_iff
    {fuel : Nat} {ready : Ready} {fds : κ}
    {sequences : Sequences (Address width) κ}
    {pass : Pass (Layout.memoryOptimized width : Layout _ κ) φ μ χ}
    (represents : MemoryOptimized.Represents pass.memory sequences)
    (room : Room fuel sequences) :
    (∃ after,
      selectPass (Layout.memoryOptimized width) fuel ready fds pass =
          .ok after ∧
        WakesReady fuel ready fds (sequences fds) pass after) ↔
      OnlyLastReady ready pass.elements (sequences fds) := by
  have erasable (sequence : List (Address width)) (place : Nat) :
      ReversibleIn .forth sequence place := fun isBack => nomatch isBack
  constructor
  · rintro ⟨after, passes, wakes⟩
    apply Classical.byContradiction
    intro someReady
    obtain ⟨idle, hook, next, rest, shape, isReady, areIdle⟩ :=
      exists_first_ready someReady
    obtain ⟨it, begins, stands⟩ :=
      memoryOptimized_faithful.begin represents room .forth fds
    obtain ⟨stop, ends, standsAtEnd⟩ :=
      memoryOptimized_faithful.listEnd represents room .forth fds
    have isEnd : stop.value = none := by
      rw [standsAtEnd.value]
      exact List.getElem?_eq_none (Nat.le_of_eq length_order)
    rw [selectPass, begins, ok_bind, ends, ok_bind] at passes
    rw [shape] at stands
    have visited := wakes.passed.visited
    rw [shape] at visited
    exact @passFrom_astray_behind κ φ μ χ width _ fuel ready fds stop
      sequences rest hook next pass.elements idle isEnd room isReady areIdle
      fuel [] it { pass with anyReady := false } after represents rfl shape
      stands passes visited
  · intro onlyLast
    apply wakesReady_of_survives memoryOptimized_faithful erasable represents
      room
    intro front hook behind shape isReady
    cases behind with
    | nil => exact survives_at_end
    | cons next rest =>
        have isIdle := onlyLast front hook next rest shape
        rw [Pass.isReady, isIdle] at isReady
        cases isReady

/--
For every list of descriptors and every report of `select`, the pass wakes
exactly the ready elements in the default layout; with one pointer in a hook
if and only if no ready element is followed by another one.
-/
theorem select_wakes_ready_iff
    {fuel : Nat} {ready : Ready} {fds : κ}
    {sequences : Sequences (Address width) κ}
    {pass : Pass (Layout.default : Layout (Address width) κ) φ μ χ}
    {optimized : Pass (Layout.memoryOptimized width : Layout _ κ) φ μ χ}
    (represents : Represents pass.memory sequences)
    (representsOptimized :
      MemoryOptimized.Represents optimized.memory sequences)
    (room : Room fuel sequences) :
    (∃ after,
      selectPass Layout.default fuel ready fds pass = .ok after ∧
        WakesReady fuel ready fds (sequences fds) pass after) ∧
      ((∃ after,
        selectPass (Layout.memoryOptimized width) fuel ready fds optimized =
            .ok after ∧
          WakesReady fuel ready fds (sequences fds) optimized after) ↔
        OnlyLastReady ready optimized.elements (sequences fds)) := by
  constructor
  · apply wakesReady_of_survives default_faithful (fun _ _ => trivial)
      represents room
    intro front hook behind shape isReady
    exact survives_default behind
  · exact wakesReady_optimized_iff representsOptimized room

end Optimized

/-! ## Two waiters -/

section Runs

/-- The elements of two fibers that read from the descriptors 4 and 5. -/
def readerOf (hook : Address 64) : FdElement Nat where
  fd := if hook = firstHook then 4 else 5
  events := { isIn := true, isOut := false, isErr := false }
  yieldback := if hook = firstHook then 1 else 2

/-- A scheduler that two fibers have left for the event loop. -/
def twoReaders : Scheduler.State Nat Unit Unit :=
  { start 0 with control := .eventloop, pending := [], iowait := 2 }

/-- The pass over both elements, in the default layout. -/
def readersPass :
    Pass (Layout.default : Layout (Address 64) Unit) Nat Unit Unit where
  memory :=
    linkLast (linkLast emptyMemory () firstHook) () secondHook
  elements := readerOf
  scheduler := twoReaders
  anyReady := false
  visited := []

/-- The pass over both elements, with one pointer in a hook. -/
def optimizedPass :
    Pass (Layout.memoryOptimized 64 : Layout _ Unit) Nat Unit Unit where
  memory :=
    MemoryOptimized.linkLast
      (MemoryOptimized.linkLast emptyOptimized () firstHook) ()
      secondHook
  elements := readerOf
  scheduler := twoReaders
  anyReady := false
  visited := []

/-- `select` reports one descriptor to be readable. -/
def readable (fd : Int) : Ready where
  readable := fun query => query = fd
  writable := fun _ => false
  exceptional := fun _ => false

/-- The sequence of the two elements. -/
def bothReaders : Sequences (Address 64) Unit :=
  fun _ => [firstHook, secondHook]

theorem room_bothReaders : Room 8 bothReaders :=
  fun _ => (by decide : 3 < 8)

/-- Both elements have been appended to an empty list. -/
theorem represents_bothReaders
    {layout : Layout (Address 64) Unit}
    {Represents : layout.Memory → Sequences (Address 64) Unit → Prop}
    {Stands : List (Address 64) → Nat → layout.It → Prop}
    {Erasable : Direction → List (Address 64) → Nat → Prop}
    {memory first second : layout.Memory}
    (faithful : layout.Faithful Represents Stands Erasable)
    (isFresh : Represents memory fun _ => [])
    (appends :
      layout.modify 8 memory (.append () firstHook) = .ok first)
    (appendsAgain :
      layout.modify 8 first (.append () secondHook) = .ok second) :
    Represents second bothReaders := by
  obtain ⟨_, isFirst, represents⟩ :=
    @faithful.modify 8 _ _ isFresh (fun _ => (by decide : 1 < 8))
      (.append () firstHook) fun _ => List.not_mem_nil
  cases isFirst.symm.trans appends
  obtain ⟨_, isSecond, represents⟩ :=
    @faithful.modify 8 _ _ represents (fun _ => (by decide : 2 < 8))
      (.append () secondHook) fun list => by
        cases list
        decide
  cases isSecond.symm.trans appendsAgain
  exact represents

theorem represents_readersPass :
    Represents readersPass.memory bothReaders := by
  have appends :
      append 8 emptyMemory () firstHook =
        .ok (linkLast emptyMemory () firstHook) :=
    rfl
  have appendsAgain :
      append 8 (linkLast emptyMemory () firstHook) () secondHook =
        .ok readersPass.memory :=
    rfl
  exact represents_bothReaders default_faithful
    (represents_fresh fun _ => rfl) appends appendsAgain

theorem represents_optimizedPass :
    MemoryOptimized.Represents optimizedPass.memory bothReaders := by
  have appends :
      MemoryOptimized.append 8 emptyOptimized () firstHook =
        .ok (MemoryOptimized.linkLast emptyOptimized () firstHook) :=
    rfl
  have appendsAgain :
      MemoryOptimized.append 8
          (MemoryOptimized.linkLast emptyOptimized () firstHook) ()
          secondHook =
        .ok optimizedPass.memory :=
    rfl
  exact represents_bothReaders memoryOptimized_faithful
    (represents_fresh_optimized fun _ => rfl) appends appendsAgain

theorem select_wakes_ready_iff_last :
    ∃ after,
      selectPass (Layout.memoryOptimized 64) 8 (readable 5) () optimizedPass =
          .ok after ∧
        WakesReady 8 (readable 5) () (bothReaders ()) optimizedPass after := by
  have onlyLast :
      OnlyLastReady (readable 5) optimizedPass.elements (bothReaders ()) := by
    intro front hook next rest shape
    cases front with
    | nil =>
        cases shape
        rfl
    | cons first front =>
        have lengths := congrArg List.length shape
        simp only [bothReaders, List.length_append, List.length_cons,
          List.length_nil] at lengths
        omega
  exact (select_wakes_ready_iff represents_readersPass
    represents_optimizedPass room_bothReaders).2.mpr onlyLast

/--
The first of two readers is ready: behind it the iterator comes back to it, and
it is erased once more.
-/
theorem select_wakes_first_twice :
    Represents readersPass.memory bothReaders ∧
      MemoryOptimized.Represents optimizedPass.memory bothReaders ∧
      Room 8 bothReaders ∧
      ¬ ∃ after,
        selectPass (Layout.memoryOptimized 64) 8 (readable 4) ()
              optimizedPass =
            .ok after ∧
          WakesReady 8 (readable 4) () (bothReaders ()) optimizedPass
            after := by
  refine ⟨represents_readersPass, represents_optimizedPass,
    room_bothReaders, ?_⟩
  rintro ⟨after, passes, -⟩
  cases passes

end Runs

end Dfk.EventLoop
