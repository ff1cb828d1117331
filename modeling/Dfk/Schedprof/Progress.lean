import Dfk.Schedprof.MutexWaiters
import Dfk.Schedprof.TimeAccounting

/-!
# Progress of a simulation

`DumbScheduler` gives the first idle CPUs to the first ready coroutines.  Each
instruction that is not a lock which fails again brings a program nearer to
its end, and a round in which all of them fail again brings the CPUs that are
busy nearer to being idle.
-/

namespace Dfk.Schedprof

open Loops

/-- What is left of a program. -/
structure Plan (σ : Type) where
  vars : σ
  coros : List CoroId
  head : CoroId → Option Op
  exhausted : CoroId → Bool
  acquiredBy : MutexId → Option CoroId

def Sim.plan {σ : Type} (s : Sim σ) : Plan σ where
  vars := s.vars
  coros := s.coros
  head := fun c => (s.coroutine c).head
  exhausted := fun c => (s.coroutine c).exhausted
  acquiredBy := fun m => (s.mutex m).acquiredBy

/-- A CPU after completed tasks have been finalized. -/
def Cpu.finalized (cpu : Cpu) (time : Int) : Cpu :=
  match cpu.coro with
  | some c =>
      if cpu.due ≤ time then { due := 0, coro := none, lastCoro := some c }
      else cpu
  | none => cpu

/-- Who is told to run on a CPU is held by it. -/
def Holding {σ : Type} (s : Sim σ) : Prop :=
  ∀ c k, (s.coroutine c).cpu = some k →
    k < s.ncpu ∧ (s.cpu k).coro = some c

section Mapping

variable {σ : Type} {s s' : Sim σ} {c : CoroId}

theorem plan_setCoroutine_same
    {coroutine : Coroutine}
    (head : coroutine.head = (s.coroutine c).head)
    (exhausted : coroutine.exhausted = (s.coroutine c).exhausted) :
    (s.setCoroutine c coroutine).plan = s.plan := by
  simp only [Sim.plan, Plan.mk.injEq]
  refine ⟨rfl, rfl, ?_, ?_, rfl⟩
  all_goals
    funext d
    rw [coroutine_setCoroutine]
    split
    next isCoroutine =>
      rw [isCoroutine]
      assumption
    next =>
      rfl

theorem plan_finalizeCpu (s : Sim σ) (k : CpuId) :
    (s.finalizeCpu k).plan = s.plan := by
  unfold Sim.finalizeCpu
  split
  · split
    · exact plan_setCoroutine_same (s := s) rfl rfl
    · rfl
  · rfl

/-- Neither finalizing nor resuming changes what is left of a program. -/
theorem plan_mapping (s : Sim σ) :
    s.mapping.plan = s.plan := by
  have finalized : s.finalize.plan = s.plan := by
    apply List.foldlRecOn (motive := fun t : Sim σ => t.plan = s.plan)
    · rfl
    · intro t same k _
      rw [plan_finalizeCpu, same]
  apply List.foldlRecOn (motive := fun t : Sim σ => t.plan = s.plan)
  · exact finalized
  · intro t same d _
    apply Eq.trans _ same
    exact plan_setCoroutine_same rfl rfl

theorem finalized_of_free
    {cpu : Cpu} {time : Int}
    (free : cpu.coro = none) :
    cpu.finalized time = cpu := by
  rw [Cpu.finalized, free]

theorem finalized_of_completed
    {cpu : Cpu} {time : Int}
    (held : cpu.coro = some c)
    (completed : cpu.due ≤ time) :
    cpu.finalized time = { due := 0, coro := none, lastCoro := some c } := by
  rw [Cpu.finalized, held]
  exact if_pos completed

theorem finalized_of_busy
    {cpu : Cpu} {time : Int}
    (busy : ¬ cpu.due ≤ time) :
    cpu.finalized time = cpu := by
  unfold Cpu.finalized
  split
  · exact if_neg busy
  · rfl

theorem cpu_finalizeCpu (s : Sim σ) (k : CpuId) :
    (s.finalizeCpu k).cpu =
      Function.update s.cpu k ((s.cpu k).finalized s.now) := by
  unfold Sim.finalizeCpu
  split
  next c held =>
    split
    next completed =>
      rw [finalized_of_completed held completed]
      rfl
    next busy =>
      rw [finalized_of_busy busy, Function.update_eq_self]
  next free =>
    rw [finalized_of_free free, Function.update_eq_self]

theorem now_finalizeCpu (s : Sim σ) (k : CpuId) :
    (s.finalizeCpu k).now = s.now :=
  congrArg MutexView.now (mutexView_finalizeCpu s k)

theorem finalized_finalized (cpu : Cpu) (time : Int) :
    (cpu.finalized time).finalized time = cpu.finalized time := by
  cases held : cpu.coro with
  | none =>
      rw [finalized_of_free held, finalized_of_free held]
  | some c =>
      by_cases completed : cpu.due ≤ time
      · rw [finalized_of_completed held completed, finalized_of_free rfl]
      · rw [finalized_of_busy completed, finalized_of_busy completed]

/-- Finalizing takes every CPU for itself. -/
theorem cpu_finalizeAll (finalizes : List CpuId) (s : Sim σ) (k : CpuId) :
    (finalizes.foldl Sim.finalizeCpu s).cpu k =
      if k ∈ finalizes then (s.cpu k).finalized s.now else s.cpu k := by
  induction finalizes generalizing s with
  | nil =>
      rfl
  | cons first finalizes inductionHypothesis =>
      rw [List.foldl_cons, inductionHypothesis, now_finalizeCpu,
        cpu_finalizeCpu]
      by_cases isFirst : k = first
      · subst isFirst
        rw [Function.update_self, finalized_finalized]
        simp
      · rw [Function.update_of_ne isFirst]
        simp [isFirst]

theorem cpu_mapping (s : Sim σ) (k : CpuId) :
    s.mapping.cpu k =
      if k ∈ s.cpus then (s.cpu k).finalized s.now else s.cpu k := by
  rw [Sim.mapping, Sim.resumeWaiting, show
    (s.finalize.toResume.foldl Sim.resume s.finalize).cpu =
      s.finalize.cpu from
    congrArg Clock.cpu (clock_resumeAll _ _)]
  exact cpu_finalizeAll s.cpus s k

/-- Of what the clock and the CPUs tell, only the latter change. -/
theorem clock_mapping (s : Sim σ) :
    s.mapping.clock = { s.clock with cpu := s.mapping.cpu } := by
  have finalized :
      s.finalize.clock = { s.clock with cpu := s.finalize.cpu } := by
    apply List.foldlRecOn (motive := fun t : Sim σ =>
      t.clock = { s.clock with cpu := t.cpu }) s.cpus
    · rfl
    · intro t same k _
      rcases clock_finalizeCpu t k with kept | ⟨_, _, cleared⟩
      · rw [kept, same]
        exact congrArg (fun cpu => { s.clock with cpu := cpu })
          (congrArg Clock.cpu kept).symm
      · rw [cleared, same]
        exact congrArg (fun cpu => { s.clock with cpu := cpu })
          (congrArg Clock.cpu cleared).symm
  have resumed : s.mapping.clock = s.finalize.clock :=
    clock_resumeAll _ _
  rw [resumed, finalized]
  exact congrArg (fun cpu => { s.clock with cpu := cpu })
    (congrArg Clock.cpu resumed).symm

/-- A CPU that holds a coroutine when it is mapped is busy. -/
theorem busy_of_mapping
    {k : CpuId}
    (own : k ∈ s.cpus)
    (holds : (s.mapping.cpu k).coro ≠ none) :
    s.now < (s.mapping.cpu k).due := by
  rw [cpu_mapping, if_pos own] at holds ⊢
  cases held : (s.cpu k).coro with
  | none =>
      rw [finalized_of_free held] at holds
      exact absurd held holds
  | some c =>
      by_cases completed : (s.cpu k).due ≤ s.now
      · rw [finalized_of_completed held completed] at holds
        exact absurd rfl holds
      · rw [finalized_of_busy completed]
        exact not_le.mp completed

theorem Holding.finalizeCpu
    (holding : Holding s)
    (k : CpuId) :
    Holding (s.finalizeCpu k) := by
  intro d k' runs
  unfold Sim.finalizeCpu at runs ⊢
  split
  next c held =>
    rw [held] at runs
    dsimp only at runs
    split
    next completed =>
      rw [if_pos completed] at runs
      have kept : d ≠ c ∧ (s.coroutine d).cpu = some k' := by
        have runs := (congrArg Coroutine.cpu
          (coroutine_setCoroutine _ d)).symm.trans runs
        split at runs
        · cases runs
        next other =>
          exact ⟨other, runs⟩
      obtain ⟨own, held'⟩ := holding d k' kept.2
      have other : k' ≠ k := by
        rintro rfl
        exact kept.1 (Option.some.inj (held'.symm.trans held))
      refine ⟨own, ?_⟩
      simp only [Sim.suspendCpu, Sim.setCpu, Function.update_of_ne other]
      exact held'
    next runsOn =>
      rw [if_neg runsOn] at runs
      exact holding d k' runs
  next free =>
    rw [free] at runs
    exact holding d k' runs

/-- What the scheduler maps is held by the CPUs. -/
theorem Holding.mapping
    (holding : Holding s) :
    Holding s.mapping := by
  have finalized : Holding s.finalize := by
    apply List.foldlRecOn (motive := Holding)
    · exact holding
    · intro t keeps k _
      exact keeps.finalizeCpu k
  apply List.foldlRecOn (motive := Holding)
  · exact finalized
  · intro t keeps c _ d k runs
    apply keeps d k
    rw [← runs]
    apply Eq.symm
    apply (congrArg Coroutine.cpu (coroutine_setCoroutine _ d)).trans
    split
    next isCoroutine =>
      rw [isCoroutine]
    next =>
      rfl

end Mapping

section DumbMap

variable {σ : Type} {program : Program σ} {s s' : Sim σ}
variable {pair : CpuId × CoroId}

/-- `DumbScheduler` maps ready coroutines to idle CPUs. -/
theorem of_mem_dumbMap
    (mapped : pair ∈ (dumbMap s).schedule) :
    (pair.1 ∈ s.cpus ∧ (s.cpu pair.1).idle s.now = true) ∧
      pair.2 ∈ s.coros ∧ (s.coroutine pair.2).ready = true :=
  ⟨List.mem_filter.mp (List.of_mem_zip mapped).1,
    List.mem_filter.mp (List.of_mem_zip mapped).2⟩

theorem fst_dumbMap_sublist :
    ((dumbMap s).schedule.map Prod.fst).Sublist s.cpus := by
  rw [dumbMap, List.zip_eq_zip_take_min, List.map_fst_zip]
  · exact (List.take_sublist _ _).trans List.filter_sublist
  · simp

/-- A CPU is mapped once. -/
theorem nodup_dumbMap :
    ((dumbMap s).schedule.map Prod.fst).Nodup :=
  fst_dumbMap_sublist.nodup List.nodup_range

theorem insertionSort_dumbMap :
    (dumbMap s).schedule.insertionSort (fun p q => p.1 ≤ q.1) =
      (dumbMap s).schedule := by
  apply List.Pairwise.insertionSort_eq
  have sorted : ((dumbMap s).schedule.map Prod.fst).Pairwise (· ≤ ·) :=
    List.Pairwise.sublist fst_dumbMap_sublist List.pairwise_le_range
  exact List.pairwise_map.mp sorted

/-- What `DumbScheduler` maps is executed, as its CPUs are not burning. -/
theorem executeMapped_dumbMap :
    s.executeMapped program (dumbMap s) =
      (dumbMap s).schedule.foldlM (Sim.dispatch program) s := by
  have noneBurning :
      ((dumbMap s).schedule.any fun pair =>
        (s.cpu pair.1).burning s.now) = false := by
    rw [List.any_eq_false]
    intro pair mapped
    rw [Cpu.burning, (of_mem_dumbMap mapped).1.2]
    exact Bool.false_ne_true
  have unpeeked :
      (dumbMap s).peeked.foldlM (Sim.peekInstruction program) s = .ok s :=
    rfl
  rw [Sim.executeMapped, Passes.bind_of_ok unpeeked]
  dsimp only
  rw [insertionSort_dumbMap, noneBurning, if_neg Bool.false_ne_true]

/-- A dispatch is to a CPU that holds no coroutine, and to no other. -/
theorem cpu_of_dispatch
    (dispatches : s.dispatch program pair = .ok s') :
    ∃ event : Event,
      event.cpu = pair.1 ∧ event.coro = pair.2 ∧ event.now = s.now ∧
      event.blocked = s.blocks event.task ∧
      (∃ u, s.popInstruction program pair.2 = .ok (event.task, u)) ∧
      (s.cpu pair.1).coro = none ∧ s'.now = s.now ∧ s'.ncpu = s.ncpu ∧
      s'.history = s.history ++ [event] ∧
      (∀ k, k ≠ pair.1 → s'.cpu k = s.cpu k) ∧
      (s'.cpu pair.1).due = event.ends ∧
      (s'.cpu pair.1).coro = some pair.2 := by
  obtain ⟨event, onCpu, ofCoro, atTime, blocked, pops, free, started⟩ :=
    clock_of_dispatch dispatches
  have sameCpu : s'.cpu = (s.clock.started event).cpu :=
    congrArg Clock.cpu started
  refine ⟨event, onCpu, ofCoro, atTime, blocked, pops, free,
    congrArg Clock.now started, congrArg Clock.ncpu started,
    congrArg Clock.history started, ?_, ?_, ?_⟩
  · intro k other
    rw [sameCpu]
    rw [← onCpu] at other
    exact Function.update_of_ne other _ _
  · rw [sameCpu, ← onCpu]
    simp only [Clock.started, Function.update_self]
  · rw [sameCpu, ← onCpu, ← ofCoro]
    simp only [Clock.started, Function.update_self]

/-- A CPU that holds a coroutine goes on while others are started. -/
theorem cpu_of_passes
    {pairs : List (CpuId × CoroId)} {k : CpuId}
    (passes : pairs.foldlM (Sim.dispatch program) s = .ok s')
    (holds : (s.cpu k).coro ≠ none) :
    s'.cpu k = s.cpu k ∧ s'.now = s.now ∧ s'.ncpu = s.ncpu := by
  have passed :=
    @Passes.invariant _ _ _ _ _ _ _
      (fun u : Sim σ =>
        u.cpu k = s.cpu k ∧ u.now = s.now ∧ u.ncpu = s.ncpu) passes
  apply passed ⟨rfl, rfl, rfl⟩
  rintro u pair next ⟨same, sameNow, sameNcpu⟩ dispatches
  obtain ⟨_, _, _, _, _, _, free, nextNow, nextNcpu, _, others, _⟩ :=
    cpu_of_dispatch dispatches
  have other : k ≠ pair.1 := by
    rintro rfl
    rw [same] at free
    exact holds free
  exact ⟨(others k other).trans same, nextNow.trans sameNow,
    nextNcpu.trans sameNcpu⟩

end DumbMap

/-- A coroutine is about to retry a lock on a mutex that is held. -/
def Retries {σ : Type} (s : Sim σ) (c : CoroId) : Prop :=
  ∃ m, (s.coroutine c).head = some (.lock m) ∧ (s.mutex m).acquiredBy ≠ none

/-- Only locks that have failed are put back. -/
def LocksPutBack {σ : Type} (s : Sim σ) : Prop :=
  ∀ c task, (s.coroutine c).head = some task → ∃ m, task = .lock m

/-- An instruction of a program is taken. -/
def Program.Fetches {σ : Type} (program : Program σ) (vars' vars : σ) :
    Prop :=
  ∃ c task, program.run c vars = some (task, vars')

/--
The work that is left: what the bodies yield, then how many coroutines are not
at their end, then how many instructions have been put back.
-/
def Plan.work {σ : Type} (plan : Plan σ) : σ × Nat × Nat :=
  (plan.vars, plan.coros.countP fun c => !plan.exhausted c,
    plan.coros.countP fun c => (plan.head c).isSome)

/-- Less work is left. -/
def Less {σ : Type} (program : Program σ) :
    σ × Nat × Nat → σ × Nat × Nat → Prop :=
  Prod.Lex program.Fetches (Prod.Lex (· < ·) (· < ·))

/-- The pairs that were started have all failed to lock a mutex again. -/
structure Stalled {σ : Type} (t : Sim σ) (pairs : List (CpuId × CoroId))
    (u : Sim σ) : Prop where
  plan : u.plan = t.plan
  now : u.now = t.now
  ncpu : u.ncpu = t.ncpu
  dues :
    ∀ k, (u.cpu k).due =
      if k ∈ pairs.map Prod.fst then t.now + 1 else (t.cpu k).due
  told :
    ∃ events, u.history = t.history ++ events ∧
      ∀ event ∈ events, ∃ m, event.task = .lock m

/-- How long the CPUs are still busy. -/
def Sim.busyTime {σ : Type} (s : Sim σ) : Nat :=
  (∑ k ∈ Finset.range s.ncpu, (s.cpu k).remaining s.now).toNat

section Work

variable {σ : Type} {program : Program σ} {s s' : Sim σ}
variable {pair : CpuId × CoroId} {task : Op}

/-- A count is smaller where one that was counted no longer is. -/
theorem countP_lt_of_mem
    {α : Type} {items : List α} {before after : α → Bool} {item : α}
    (fewer : ∀ other, after other = true → before other = true)
    (member : item ∈ items)
    (counted : before item = true)
    (gone : after item = false) :
    items.countP after < items.countP before := by
  induction items with
  | nil =>
      cases member
  | cons first items inductionHypothesis =>
      rw [List.countP_cons, List.countP_cons]
      rcases List.mem_cons.mp member with rfl | later
      · have rest : items.countP after ≤ items.countP before :=
          List.countP_mono_left fun other _ => fewer other
        rw [counted, gone]
        simp only [if_true, Bool.false_eq_true, if_false]
        omega
      · have rest := inductionHypothesis later
        by_cases isAfter : after first = true
        · rw [isAfter, fewer first isAfter]
          simp only [if_true]
          omega
        · rw [if_neg isAfter]
          omega

/-- A lock that fails again leaves what is left of a program as it is. -/
theorem Dispatched.plan_of_retries
    (dispatched : Dispatched program s pair task s')
    (retries : Retries s pair.2) :
    s'.plan = s.plan ∧ ∃ m, task = .lock m := by
  obtain ⟨m, head, held⟩ := retries
  have isHead : task = .lock m := by
    have upcoming := dispatched.upcoming
    rw [Sim.upcoming, head] at upcoming
    exact (Option.some.inj upcoming).symm
  subst isHead
  have blocks : s.blocks (.lock m) = true :=
    Option.isSome_iff_ne_none.mpr held
  refine ⟨?_, m, rfl⟩
  simp only [Sim.plan, Plan.mk.injEq]
  refine ⟨?_, dispatched.coros, ?_, ?_, ?_⟩
  · cases dispatched.fetched with
    | retried _ vars _ => exact vars
    | yielded none _ => cases head.symm.trans none
  · funext d
    rw [dispatched.heads d, blocks, if_pos rfl]
    split
    next isCoroutine =>
      rw [isCoroutine, head]
    next =>
      rfl
  · funext d
    cases dispatched.fetched with
    | retried _ _ exhausted => exact exhausted d
    | yielded none _ => cases head.symm.trans none
  · funext m'
    exact dispatched.holders blocks m'

/-- What a dispatch does to the work is never more, and less if it counts. -/
theorem Dispatched.less
    (dispatched : Dispatched program s pair task s')
    (putBack : LocksPutBack s)
    (goesOn : ¬ Retries s pair.2) :
    Less program s'.plan.work s.plan.work ∨
      pair.2 ∉ s.coros ∧ s'.plan.work = s.plan.work := by
  cases dispatched.fetched with
  | yielded head run =>
      exact .inl (.left _ _ ⟨pair.2, task, run⟩)
  | ended head run running vars exhausted =>
      have member : pair.2 ∈ s.coros := dispatched.allowed
      have coros : s'.coros = s.coros.erase pair.2 := dispatched.coros
      have fewer :
          (s.coros.erase pair.2).countP
              (fun c => !(s'.coroutine c).exhausted) <
            s.coros.countP fun c => !(s.coroutine c).exhausted := by
        apply lt_of_le_of_lt List.erase_sublist.countP_le
        apply countP_lt_of_mem _ member
        · rw [running]
          rfl
        · rw [exhausted pair.2, if_pos rfl]
          rfl
        · intro d isLeft
          rw [exhausted d] at isLeft
          split at isLeft
          · cases isLeft
          · exact isLeft
      left
      unfold Less Plan.work Sim.plan
      dsimp only
      rw [vars, coros]
      exact .right _ (.left _ _ fewer)
  | retried head vars exhausted =>
      obtain ⟨m, rfl⟩ := putBack pair.2 task head
      have passes : s.blocks (.lock m) = false := by
        rw [Sim.blocks, Option.isSome_eq_false_iff, Option.isNone_iff_eq_none]
        by_contra held
        exact goesOn ⟨m, head, held⟩
      have heads : ∀ d, (s'.coroutine d).head =
          if d = pair.2 then none else (s.coroutine d).head := by
        intro d
        rw [dispatched.heads d, passes]
        rfl
      have sameExhausted :
          (fun c => !(s'.coroutine c).exhausted) =
            fun c => !(s.coroutine c).exhausted := by
        funext d
        rw [exhausted d]
      have coros : s'.coros = s.coros := dispatched.coros
      unfold Less Plan.work Sim.plan
      dsimp only
      rw [vars, coros, sameExhausted]
      by_cases member : pair.2 ∈ s.coros
      · left
        apply Prod.Lex.right
        apply Prod.Lex.right
        apply countP_lt_of_mem _ member
        · rw [head]
          rfl
        · rw [heads pair.2, if_pos rfl]
          rfl
        · intro d isLeft
          rw [heads d] at isLeft
          split at isLeft
          · cases isLeft
          · exact isLeft
      · right
        refine ⟨member, ?_⟩
        congr 2
        apply List.countP_congr
        intro d isCoroutine
        rw [heads d, if_neg]
        rintro rfl
        exact member isCoroutine

/-- What a dispatch leaves put back is a lock. -/
theorem Dispatched.putBack
    (dispatched : Dispatched program s pair task s')
    (putBack : LocksPutBack s) :
    LocksPutBack s' := by
  intro d isPut head
  rw [dispatched.heads d] at head
  split at head
  · split at head
    next blocks =>
      cases head
      cases task with
      | lock m => exact ⟨m, rfl⟩
      | _ => cases blocks
    · cases head
  · exact putBack d isPut head

/-- Whether a lock fails again can be seen from what is left. -/
theorem retries_of_plan
    {c : CoroId}
    (same : s'.plan = s.plan) :
    Retries s' c ↔ Retries s c := by
  have heads : (s'.coroutine c).head = (s.coroutine c).head :=
    congrFun (congrArg Plan.head same) c
  have holders : ∀ m, (s'.mutex m).acquiredBy = (s.mutex m).acquiredBy :=
    congrFun (congrArg Plan.acquiredBy same)
  simp only [Retries, heads, holders]

theorem putBack_of_plan
    (same : s'.plan = s.plan)
    (putBack : LocksPutBack s) :
    LocksPutBack s' := by
  intro c task head
  exact putBack c task
    ((congrFun (congrArg Plan.head same) c).symm.trans head)

/-- What is stalled stays so as long as locks fail again. -/
theorem Stalled.dispatch
    {t : Sim σ} {before : List (CpuId × CoroId)}
    (stalled : Stalled t before s)
    (retries : Retries t pair.2)
    (dispatches : s.dispatch program pair = .ok s') :
    Stalled t (before ++ [pair]) s' := by
  obtain ⟨task, u, pops, dispatched⟩ := dispatched_of_dispatch dispatches
  obtain ⟨event, _, _, atTime, _, ⟨u', pops'⟩, _, sameNow, sameNcpu, told,
    others, due, _⟩ := cpu_of_dispatch dispatches
  obtain ⟨plan, m, isLock⟩ := dispatched.plan_of_retries
    ((retries_of_plan stalled.plan).mpr retries)
  have isTask : event.task = task :=
    (Prod.mk.inj (Except.ok.inj (pops'.symm.trans pops))).1
  obtain ⟨events, toldBefore, locks⟩ := stalled.told
  refine ⟨plan.trans stalled.plan, sameNow.trans stalled.now,
    sameNcpu.trans stalled.ncpu, ?_, events ++ [event], ?_, ?_⟩
  · intro k
    simp only [List.map_append, List.map_singleton, List.mem_append,
      List.mem_singleton]
    by_cases isCpu : k = pair.1
    · subst isCpu
      rw [due, Event.ends, atTime, isTask, isLock, stalled.now]
      exact (if_pos (.inr rfl)).symm
    · rw [others k isCpu, stalled.dues k]
      simp only [isCpu, or_false]
  · rw [told, toldBefore, List.append_assoc]
  · intro event' member
    rcases List.mem_append.mp member with earlier | last
    · exact locks event' earlier
    · rw [List.mem_singleton.mp last]
      exact ⟨m, isTask.trans isLock⟩

theorem stalled_nil (t : Sim σ) :
    Stalled t [] t :=
  ⟨rfl, rfl, rfl, fun _ => rfl, [], (List.append_nil _).symm, nofun⟩

/-- Locks that all fail again stall a program. -/
theorem stalled_of_retries
    {t : Sim σ} {pairs : List (CpuId × CoroId)}
    (passes : pairs.foldlM (Sim.dispatch program) t = .ok s)
    (retries : ∀ pair ∈ pairs, Retries t pair.2) :
    Stalled t pairs s := by
  apply Passes.passed passes (stalled_nil t)
  intro before pair after u next parts stalled dispatches
  apply stalled.dispatch _ dispatches
  apply retries
  rw [parts]
  exact List.mem_append_right _ List.mem_cons_self

/-- A round leaves less work, unless everything that is started stalls. -/
theorem less_or_stalled
    {t : Sim σ} {pairs : List (CpuId × CoroId)}
    (putBack : LocksPutBack t)
    (members : ∀ pair ∈ pairs, pair.2 ∈ t.coros)
    (passes : pairs.foldlM (Sim.dispatch program) t = .ok s) :
    LocksPutBack s ∧
      (Relation.TransGen (Less program) s.plan.work t.plan.work ∨
        Stalled t pairs s ∧ ∀ pair ∈ pairs, Retries t pair.2) := by
  have passed :=
    @Passes.passed _ _ _ _ _ _ _
      (fun before (u : Sim σ) => LocksPutBack u ∧
        (Relation.TransGen (Less program) u.plan.work t.plan.work ∨
          Stalled t before u ∧ ∀ pair ∈ before, Retries t pair.2)) passes
  apply passed ⟨putBack, .inr ⟨stalled_nil t, nofun⟩⟩
  rintro before pair after u next parts ⟨putBack, progress⟩ dispatches
  obtain ⟨task, _, _, dispatched⟩ := dispatched_of_dispatch dispatches
  refine ⟨dispatched.putBack putBack, ?_⟩
  by_cases retries : Retries u pair.2
  · have same := (dispatched.plan_of_retries retries).1
    rcases progress with less | ⟨stalled, retried⟩
    · left
      rw [same]
      exact less
    · right
      have retriesBefore := (retries_of_plan stalled.plan).mp retries
      refine ⟨stalled.dispatch retriesBefore dispatches, ?_⟩
      intro pair' member
      rcases List.mem_append.mp member with earlier | last
      · exact retried pair' earlier
      · rw [List.mem_singleton.mp last]
        exact retriesBefore
  · left
    rcases dispatched.less putBack retries with less | ⟨unlisted, same⟩
    · rcases progress with lessBefore | ⟨stalled, _⟩
      · exact .head less lessBefore
      · rw [stalled.plan] at less
        exact .single less
    · rcases progress with lessBefore | ⟨stalled, _⟩
      · rw [same]
        exact lessBefore
      · rw [show u.coros = t.coros from
          congrArg Plan.coros stalled.plan] at unlisted
        apply absurd _ unlisted
        apply members
        rw [parts]
        exact List.mem_append_right _ List.mem_cons_self

end Work

section BusyTime

variable {σ : Type} {s t u : Sim σ} {nextnow : Int}

theorem remaining_nonneg (cpu : Cpu) (time : Int) :
    0 ≤ cpu.remaining time :=
  le_max_left _ _

/-- Finalizing leaves the CPUs as busy as they are. -/
theorem busyTime_mapping
    (balanced : Balanced s.clock) :
    s.mapping.busyTime = s.busyTime := by
  have before := balanced.balance
  have after := balanced.mapping.balance
  rw [clock_mapping] at after
  have same :
      ∑ k ∈ Finset.range s.ncpu, (s.mapping.cpu k).remaining s.now =
        ∑ k ∈ Finset.range s.ncpu, (s.cpu k).remaining s.now :=
    add_left_cancel (after.symm.trans before)
  unfold Sim.busyTime
  rw [show s.mapping.now = s.now from congrArg Clock.now (clock_mapping s),
    show s.mapping.ncpu = s.ncpu from congrArg Clock.ncpu (clock_mapping s),
    same]

/-- A round that stalls brings busy CPUs nearer to being idle. -/
theorem Stalled.busyTime_lt
    (stalled : Stalled t (dumbMap t).schedule u)
    (nearest : u.nextNow = some nextnow)
    (busy : ∃ k ∈ t.cpus, t.now < (t.cpu k).due)
    (mappedIdle :
      ∀ pair ∈ (dumbMap t).schedule, (t.cpu pair.1).due ≤ t.now) :
    (u.advance nextnow).busyTime < t.busyTime := by
  have later := (mem_of_nextNow nearest).1
  rw [stalled.now] at later
  have sameCpus : u.cpus = t.cpus := by
    rw [Sim.cpus, Sim.cpus, stalled.ncpu]
  have each :
      ∀ k ∈ t.cpus,
        (u.cpu k).remaining nextnow ≤ (t.cpu k).remaining t.now := by
    intro k own
    by_cases mapped : k ∈ (dumbMap t).schedule.map Prod.fst
    · have due := stalled.dues k
      rw [if_pos mapped] at due
      apply le_of_eq_of_le _ (remaining_nonneg _ _)
      apply remaining_of_due
      rw [due]
      exact later
    · have due := stalled.dues k
      rw [if_neg mapped] at due
      rw [Cpu.remaining, Cpu.remaining, due]
      exact max_le_max_left 0 (sub_le_sub_left later.le _)
  obtain ⟨k, own, isBusy⟩ := busy
  have unmapped : k ∉ (dumbMap t).schedule.map Prod.fst := by
    intro mapped
    obtain ⟨pair, member, rfl⟩ := List.mem_map.mp mapped
    exact absurd isBusy (not_lt.mpr (mappedIdle pair member))
  have less : (u.cpu k).remaining nextnow < (t.cpu k).remaining t.now := by
    have due := stalled.dues k
    rw [if_neg unmapped] at due
    rw [Cpu.remaining, Cpu.remaining, due]
    omega
  have sums :
      ∑ k ∈ Finset.range t.ncpu, (u.cpu k).remaining nextnow <
        ∑ k ∈ Finset.range t.ncpu, (t.cpu k).remaining t.now := by
    apply Finset.sum_lt_sum
    · intro k member
      exact each k (List.mem_range.mpr (Finset.mem_range.mp member))
    · exact ⟨k, Finset.mem_range.mpr (List.mem_range.mp own), less⟩
  have nonneg : 0 ≤ ∑ k ∈ Finset.range t.ncpu,
      (u.cpu k).remaining nextnow :=
    Finset.sum_nonneg fun k _ => remaining_nonneg _ _
  unfold Sim.busyTime
  rw [show (u.advance nextnow).ncpu = t.ncpu from stalled.ncpu]
  exact (Int.toNat_lt_toNat (nonneg.trans_lt sums)).mpr sums

end BusyTime

end Dfk.Schedprof
