import Dfk.EventLoop.Select
import Dfk.LinkedList.FaithfulLayouts

/-!
# Who is woken in one pass

The pass advances its iterator before it erases the element it was at.  What
the iterator is good for afterwards depends on the layout: a pointer to an
element is, but the element before it, which the layout with one pointer keeps
as well, is the one that has just been erased.
-/

namespace Dfk.EventLoop

open LinkedList Scheduler

variable {ι κ φ μ χ : Type}
variable {layout : Layout ι κ} {ready : Ready}

/-- The pass behind an element that is not ready. -/
def Pass.behindIdle (pass : Pass layout φ μ χ) (hook : ι) :
    Pass layout φ μ χ :=
  { pass with visited := pass.visited ++ [hook] }

/-- The pass behind a ready element. -/
def Pass.behindReady [DecidableEq ι] (pass : Pass layout φ μ χ) (ready : Ready)
    (hook : ι) (memory : layout.Memory) : Pass layout φ μ χ :=
  { pass.setEvents ready hook with
    memory := memory
    scheduler := ioresume pass.scheduler (pass.elements hook).yieldback
    anyReady := true
    visited := pass.visited ++ [hook] }

/-- All these elements have been passed, and the ready ones resumed. -/
structure Passed [DecidableEq ι] (ready : Ready) (hooks : List ι)
    (before after : Pass layout φ μ χ) : Prop where
  visited : after.visited = before.visited ++ hooks
  pending :
    after.scheduler.pending =
      before.scheduler.pending ++
        (hooks.filter (before.isReady ready)).map fun hook =>
          (before.elements hook).yieldback
  iowait :
    after.scheduler.iowait =
      before.scheduler.iowait - (hooks.filter (before.isReady ready)).length
  elements :
    ∀ hook,
      after.elements hook =
        if hook ∈ hooks ∧ before.isReady ready hook = true then
          { before.elements hook with
            events := ready.events (before.elements hook).fd }
        else before.elements hook
  anyReady :
    after.anyReady = (before.anyReady || hooks.any (before.isReady ready))

/--
The registered elements are visited once each and in order; those that are ready
are removed and resumed, and the others stay registered in order.
-/
structure WakesReady [DecidableEq ι] (fuel : Nat) (ready : Ready) (fds : κ)
    (registered : List ι) (before after : Pass layout φ μ χ) : Prop where
  passed : Passed ready registered { before with anyReady := false } after
  remain :
    Observes layout fuel after.memory fds
      (registered.filter fun hook => !before.isReady ready hook)

section Passes

variable [DecidableEq ι]
variable {before middle after pass : Pass layout φ μ χ}
variable {hook : ι} {hooks : List ι}

/-- Nothing is passed. -/
theorem passed_nil (pass : Pass layout φ μ χ) : Passed ready [] pass pass where
  visited := (List.append_nil _).symm
  pending := (List.append_nil _).symm
  iowait := (Int.sub_zero _).symm
  elements := fun _ => (if_neg fun both => List.not_mem_nil both.1).symm
  anyReady := (Bool.or_false _).symm

/-- What is passed keeps its descriptor and its fiber. -/
theorem Passed.same
    (passed : Passed ready hooks before after)
    (query : ι) :
    (after.elements query).fd = (before.elements query).fd ∧
      (after.elements query).yieldback =
        (before.elements query).yieldback := by
  rw [passed.elements]
  split
  · exact ⟨rfl, rfl⟩
  · exact ⟨rfl, rfl⟩

theorem Passed.sameReady
    (passed : Passed ready hooks before after) :
    after.isReady ready = before.isReady ready := by
  funext query
  rw [Pass.isReady, Pass.isReady, (passed.same query).1]

/-- One element is passed, and then others. -/
theorem Passed.cons
    (first : Passed ready [hook] before middle)
    (others : Passed ready hooks middle after)
    (isNew : hook ∉ hooks) :
    Passed ready (hook :: hooks) before after := by
  have sameReady := first.sameReady
  have sameFiber :
      (fun query => (middle.elements query).yieldback) =
        fun query => (before.elements query).yieldback := by
    funext query
    exact (first.same query).2
  have split :
      (hook :: hooks).filter (before.isReady ready) =
        [hook].filter (before.isReady ready) ++
          hooks.filter (before.isReady ready) := by
    rw [← List.filter_append]
    rfl
  refine ⟨?_, ?_, ?_, fun query => ?_, ?_⟩
  · rw [others.visited, first.visited, List.append_assoc]
    rfl
  · rw [others.pending, first.pending, sameReady, sameFiber, split,
      List.map_append, List.append_assoc]
  · rw [others.iowait, first.iowait, sameReady, split, List.length_append]
    omega
  · rw [others.elements, first.elements, sameReady]
    by_cases same : query = hook
    · subst same
      rw [if_neg fun both => isNew both.1]
      simp
    · simp [same]
  · rw [others.anyReady, first.anyReady, sameReady]
    simp [Bool.or_assoc]

/-- A ready element is passed. -/
theorem passed_ready
    {memory : layout.Memory}
    (isReady : pass.isReady ready hook = true) :
    Passed ready [hook] pass (pass.behindReady ready hook memory) := by
  refine ⟨rfl, ?_, ?_, fun query => ?_, ?_⟩
  · rw [List.filter_cons_of_pos isReady]
    rfl
  · rw [List.filter_cons_of_pos isReady]
    rfl
  · by_cases same : query = hook
    · subst same
      simp [Pass.behindReady, Pass.setEvents, isReady]
    · simp [Pass.behindReady, Pass.setEvents, same]
  · simp [Pass.behindReady, isReady]

/-- An element that is not ready is passed. -/
theorem passed_idle
    (isIdle : ¬ pass.isReady ready hook = true) :
    Passed ready [hook] pass (pass.behindIdle hook) := by
  refine ⟨rfl, ?_, ?_, fun query => ?_, ?_⟩
  · rw [List.filter_cons_of_neg isIdle]
    exact (List.append_nil _).symm
  · rw [List.filter_cons_of_neg isIdle]
    exact (Int.sub_zero _).symm
  · by_cases same : query = hook
    · subst same
      simp [Pass.behindIdle, isIdle]
    · simp [Pass.behindIdle, same]
  · simp [Pass.behindIdle, isIdle]

end Passes

/-! ## The rounds of the loop -/

section Rounds

variable [DecidableEq ι]
variable {fuel rounds : Nat} {fds : κ} {stop it it' : layout.It}
variable {pass : Pass layout φ μ χ} {hook : ι}

/-- A round that ends the loop. -/
theorem passFrom_end
    (isEnd : layout.equal fuel pass.memory it stop = .ok true) :
    passFrom layout fuel ready fds stop (rounds + 1) it pass = .ok pass := by
  rw [passFrom, isEnd]
  rfl

/-- A round at an element that is not ready. -/
theorem passFrom_idle
    (goesOn : layout.equal fuel pass.memory it stop = .ok false)
    (isValue : layout.value it = some hook)
    (isIdle : ¬ pass.isReady ready hook = true)
    (advances : layout.next .forth fuel pass.memory it = .ok it') :
    passFrom layout fuel ready fds stop (rounds + 1) it pass =
      passFrom layout fuel ready fds stop rounds it'
        (pass.behindIdle hook) := by
  have stillIdle : ¬ (pass.behindIdle hook).isReady ready hook = true := isIdle
  rw [passFrom, goesOn, ok_bind, if_neg Bool.false_ne_true, isValue,
    deref_some, ok_bind]
  refine (if_neg stillIdle).trans ?_
  rw [advances]
  rfl

/-- A round at a ready element. -/
theorem passFrom_ready
    {written : layout.Memory}
    (goesOn : layout.equal fuel pass.memory it stop = .ok false)
    (isValue : layout.value it = some hook)
    (isReady : pass.isReady ready hook = true)
    (advances : layout.next .forth fuel pass.memory it = .ok it')
    (erases : layout.erase .forth fuel pass.memory fds it = .ok written) :
    passFrom layout fuel ready fds stop (rounds + 1) it pass =
      passFrom layout fuel ready fds stop rounds it'
        (pass.behindReady ready hook written) := by
  have sameFiber :
      ((pass.setEvents ready hook).elements hook).yieldback =
        (pass.elements hook).yieldback := by
    simp only [Pass.setEvents, if_true]
  have stillReady : (pass.behindIdle hook).isReady ready hook = true := isReady
  rw [passFrom, goesOn, ok_bind, if_neg Bool.false_ne_true, isValue,
    deref_some, ok_bind]
  refine (if_pos stillReady).trans ?_
  change (layout.next .forth fuel pass.memory it >>= _) = _
  rw [advances, ok_bind]
  change (layout.erase .forth fuel pass.memory fds it >>= _) = _
  rw [erases, ok_bind, Pass.behindReady, ← sameFiber]
  rfl

end Rounds

/-! ## The loop in a faithful layout -/

section Loops

variable [DecidableEq ι] [DecidableEq κ]
variable {Represents : layout.Memory → Sequences ι κ → Prop}
variable {Stands : List ι → Nat → layout.It → Prop}
variable {Erasable : Direction → List ι → Nat → Prop}
variable {fuel : Nat} {fds : κ} {stop : layout.It}

/-- An iterator behind an element is good for something without it. -/
def Survives {It : Type} (Stands : List ι → Nat → It → Prop)
    (behind : List ι) : Prop :=
  ∀ front hook it,
    Stands (front ++ hook :: behind) (front.length + 1) it →
      Stands (front ++ behind) front.length it

omit [DecidableEq ι] in
/-- Erasing an element leaves room. -/
theorem room_erased
    {sequences : Sequences ι κ} {front behind : List ι} {hook : ι}
    (room : Room fuel sequences)
    (shape : sequences fds = front ++ hook :: behind) :
    Room fuel (Function.update sequences fds (front ++ behind)) := by
  intro list
  by_cases same : list = fds
  · subst same
    have roomHere := room list
    rw [shape] at roomHere
    rw [Function.update_self]
    rw [List.length_append, List.length_cons] at roomHere
    rw [List.length_append]
    omega
  · rw [Function.update_of_ne same]
    exact room list

/-- The loop goes through the elements from where its iterator stands. -/
theorem passFrom_of_stands
    (faithful : layout.Faithful Represents Stands Erasable)
    (erasable : ∀ sequence place, Erasable .forth sequence place)
    (isEnd : layout.value stop = none)
    {behind : List ι} :
    ∀ {rounds : Nat} {front : List ι} {it : layout.It}
      {pass : Pass layout φ μ χ} {sequences : Sequences ι κ},
      Represents pass.memory sequences →
        Room fuel sequences →
          sequences fds = front ++ behind →
            Stands (front ++ behind) front.length it →
              behind.length < rounds →
                (∀ before hook after,
                  behind = before ++ hook :: after →
                    pass.isReady ready hook = true →
                      Survives Stands after) →
                  ∃ after,
                    passFrom layout fuel ready fds stop rounds it pass =
                        .ok after ∧
                      Passed ready behind pass after ∧
                      ∃ sequences',
                        Represents after.memory sequences' ∧
                          Room fuel sequences' ∧
                          sequences' fds =
                            front ++ behind.filter fun hook =>
                              !pass.isReady ready hook := by
  induction behind with
  | nil =>
      intro rounds front it pass sequences represents room shape stands
        enough _
      obtain ⟨rounds, rfl⟩ := Nat.exists_eq_succ_of_ne_zero
        (Nat.ne_of_gt enough)
      have standsHere :
          Stands (Direction.forth.order (sequences fds)) front.length it := by
        rw [shape]
        exact stands
      have ends := faithful.equal represents room standsHere isEnd
      have atEnd :
          (Direction.forth.order (sequences fds))[front.length]? = none := by
        rw [shape, List.append_nil]
        exact List.getElem?_eq_none (Nat.le_refl _)
      rw [atEnd] at ends
      refine ⟨pass, ?_, passed_nil pass, sequences, represents, room, shape⟩
      rw [passFrom, ends]
      rfl
  | cons hook behind inductionHypothesis =>
      intro rounds front it pass sequences represents room shape stands
        enough survives
      obtain ⟨rounds, rfl⟩ := Nat.exists_eq_succ_of_ne_zero
        (Nat.ne_of_gt (Nat.zero_lt_of_lt enough))
      have left : behind.length < rounds := Nat.lt_of_succ_lt_succ enough
      have standsHere :
          Stands (Direction.forth.order (sequences fds)) front.length it := by
        rw [shape]
        exact stands
      have isHook :
          (Direction.forth.order (sequences fds))[front.length]? =
            some hook := by
        rw [shape]
        simp [Direction.order]
      have inside : front.length < (sequences fds).length := by
        rw [shape, List.length_append, List.length_cons]
        omega
      have goesOn := faithful.equal represents room standsHere isEnd
      rw [isHook] at goesOn
      have isValue := (faithful.value standsHere).trans isHook
      obtain ⟨it', advances, standsNext⟩ :=
        faithful.next represents room standsHere inside
      have noDuplicates := faithful.noDuplicates represents fds
      have isNew : hook ∉ behind := by
        rw [shape, List.nodup_append] at noDuplicates
        exact (List.nodup_cons.mp noDuplicates.2.1).1
      by_cases isReady : pass.isReady ready hook = true
      · obtain ⟨written, erases, isErased⟩ :=
          faithful.erase represents room standsHere isHook
            (erasable (sequences fds) front.length)
        rw [erasure_between noDuplicates shape] at isErased
        have passed : Passed ready [hook] pass
            (pass.behindReady ready hook written) :=
          passed_ready isReady
        have sameReady :
            (pass.behindReady ready hook written).isReady ready =
              pass.isReady ready :=
          passed.sameReady
        rw [shape] at standsNext
        have standsAfter : Stands (front ++ behind) front.length it' :=
          survives [] hook behind rfl isReady front hook it' standsNext
        obtain ⟨after, passes, others, sequences', representsAfter, roomAfter,
            remain⟩ :=
          @inductionHypothesis rounds front it'
            (pass.behindReady ready hook written) _ isErased
            (room_erased room shape) (Function.update_self ..) standsAfter left
            fun before later after split isReadyLater =>
              survives (hook :: before) later after (congrArg _ split)
                (sameReady ▸ isReadyLater)
        refine ⟨after, ?_, passed.cons others isNew, sequences',
          representsAfter, roomAfter, ?_⟩
        · rw [passFrom_ready goesOn isValue isReady advances erases]
          exact passes
        · rw [remain, sameReady,
            List.filter_cons_of_neg (by simp [isReady])]
      · have passed : Passed ready [hook] pass (pass.behindIdle hook) :=
          passed_idle isReady
        have grown : front ++ hook :: behind = (front ++ [hook]) ++ behind :=
          (List.append_cons ..)
        have places : front.length + 1 = (front ++ [hook]).length :=
          (@List.length_append _ front [hook]).symm
        rw [shape, Direction.order, grown, places] at standsNext
        obtain ⟨after, passes, others, sequences', representsAfter, roomAfter,
            remain⟩ :=
          @inductionHypothesis rounds (front ++ [hook]) it'
            (pass.behindIdle hook) sequences represents room
            (shape.trans grown) standsNext left
            fun before later after split isReadyLater =>
              survives (hook :: before) later after (congrArg _ split)
                isReadyLater
        refine ⟨after, ?_, passed.cons others isNew, sequences',
          representsAfter, roomAfter, ?_⟩
        · rw [passFrom_idle goesOn isValue isReady advances]
          exact passes
        · rw [remain, List.filter_cons_of_pos (by simp [isReady]),
            List.append_assoc]
          rfl

/-- The pass wakes the ready elements if its iterators survive the erasures. -/
theorem wakesReady_of_survives
    {pass : Pass layout φ μ χ} {sequences : Sequences ι κ}
    (faithful : layout.Faithful Represents Stands Erasable)
    (erasable : ∀ sequence place, Erasable .forth sequence place)
    (represents : Represents pass.memory sequences)
    (room : Room fuel sequences)
    (survives :
      ∀ front hook behind,
        sequences fds = front ++ hook :: behind →
          pass.isReady ready hook = true → Survives Stands behind) :
    ∃ after,
      selectPass layout fuel ready fds pass = .ok after ∧
        WakesReady fuel ready fds (sequences fds) pass after := by
  obtain ⟨it, begins, stands⟩ := faithful.begin represents room .forth fds
  obtain ⟨stop, ends, standsAtEnd⟩ :=
    faithful.listEnd represents room .forth fds
  have isEnd : layout.value stop = none := by
    rw [faithful.value standsAtEnd]
    exact List.getElem?_eq_none (Nat.le_of_eq length_order)
  have enough : (sequences fds).length < fuel :=
    Nat.lt_of_succ_lt (room fds)
  obtain ⟨after, passes, passed, sequences', representsAfter, roomAfter,
      remain⟩ :=
    @passFrom_of_stands ι κ φ μ χ layout ready _ _ _ _ _ fuel fds stop
      faithful erasable isEnd (sequences fds) fuel [] it
      { pass with anyReady := false } sequences represents room rfl stands
      enough survives
  refine ⟨after, ?_, passed, ?_⟩
  · rw [selectPass, begins, ok_bind, ends, ok_bind]
    exact passes
  · have observes := faithful.observes representsAfter roomAfter fds
    rw [remain] at observes
    exact observes

end Loops

/-! ## The pass over a list of elements -/

section Dispatch

variable [DecidableEq φ]

/-- What `dispatch` does to the scheduler and to the elements. -/
theorem dispatch_result
    {elements : List (FdElement φ)} :
    ∀ {passed : List (FdElement φ)} {state : Scheduler.State φ μ χ},
      state.fds = passed ++ elements →
        (dispatch ready passed elements state).fds =
            passed ++ elements.filter (fun element => !ready.any element.fd) ∧
          (dispatch ready passed elements state).pending =
            state.pending ++
              (elements.filter fun element => ready.any element.fd).map
                FdElement.yieldback ∧
          (dispatch ready passed elements state).iowait =
            state.iowait -
              (elements.filter fun element => ready.any element.fd).length := by
  induction elements with
  | nil =>
      intro passed state isFds
      refine ⟨isFds, (List.append_nil _).symm, (Int.sub_zero _).symm⟩
  | cons element elements inductionHypothesis =>
      intro passed state isFds
      rw [dispatch]
      by_cases isReady : ready.any element.fd = true
      · have isTaken :
            (element :: elements).filter (fun element => ready.any element.fd) =
              element :: elements.filter fun element => ready.any element.fd :=
          List.filter_cons_of_pos isReady
        rw [if_pos isReady, List.filter_cons_of_neg (by simp [isReady]),
          isTaken]
        obtain ⟨left, pending, iowait⟩ :=
          @inductionHypothesis passed
            (ioresume
              { state.setResumption element.yieldback
                  (.io (ready.events element.fd)) with
                fds := passed ++ elements }
              element.yieldback) rfl
        refine ⟨left, ?_, ?_⟩
        · rw [pending, List.map_cons, List.append_cons]
          rfl
        · rw [iowait, List.length_cons]
          change state.iowait - 1 - _ = _
          omega
      · have isLeft :
            (element :: elements).filter (fun element => ready.any element.fd) =
              elements.filter fun element => ready.any element.fd :=
          List.filter_cons_of_neg isReady
        rw [if_neg isReady, List.filter_cons_of_pos (by simp [isReady]),
          isLeft]
        rw [List.append_cons] at isFds
        obtain ⟨left, pending, iowait⟩ := inductionHypothesis isFds
        refine ⟨?_, pending, iowait⟩
        rw [left, List.append_assoc]
        rfl

/-- A pass that wakes the ready elements does what `dispatch` does. -/
theorem WakesReady.dispatch
    [DecidableEq ι]
    {fuel : Nat} {fds : κ} {registered : List ι}
    {before after : Pass layout φ μ χ}
    (wakes : WakesReady fuel ready fds registered before after)
    (same : before.scheduler.fds = registered.map before.elements) :
    let dispatched :=
      dispatch ready [] before.scheduler.fds before.scheduler
    after.scheduler.pending = dispatched.pending ∧
      after.scheduler.iowait = dispatched.iowait ∧
      dispatched.fds =
        (registered.filter fun hook => !before.isReady ready hook).map
          before.elements := by
  have unpassed :
      before.scheduler.fds = [] ++ registered.map before.elements :=
    same
  obtain ⟨left, pending, iowait⟩ := @dispatch_result φ μ χ ready _ _ _ _ unpassed
  rw [same]
  refine ⟨?_, ?_, ?_⟩
  · rw [wakes.passed.pending, pending, List.filter_map, List.map_map]
    rfl
  · rw [wakes.passed.iowait, iowait, List.filter_map, List.length_map]
    rfl
  · rw [left, List.filter_map]
    rfl

end Dispatch

end Dfk.EventLoop
