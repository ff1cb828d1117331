import Dfk.Schedprof.Simulator

/-!
# What a dispatch does

A dispatch takes the next instruction of a coroutine, which is one that was
put back, one that its body yields, or the `terminate` after the body, and
performs it.  It fails only on a coroutine that is suspended or at its end, on
a CPU that is taken, and on an unlock or a `terminate` that is misused.
-/

namespace Dfk.Schedprof

open Loops

section Instructions

variable {σ : Type}

namespace Sim

/-- What a coroutine executes next. -/
def upcoming (program : Program σ) (s : Sim σ) (c : CoroId) : Option Op :=
  match (s.coroutine c).head with
  | some head => some head
  | none =>
      if (s.coroutine c).exhausted then
        none
      else
        match program.run c s.vars with
        | some (task, _) => some task
        | none => some (.terminate c)

/--
An instruction is used as it is meant: a mutex is unlocked by its holder, and
a coroutine that is terminated is one of the program.
-/
def Allows (s : Sim σ) (c : CoroId) : Op → Prop
  | .unlock m => (s.mutex m).acquiredBy = some c
  | .terminate killed => killed ∈ s.coros
  | _ => True

/-- The coroutines of the program after an instruction. -/
def corosAfter (s : Sim σ) : Op → List CoroId
  | .spawn spawned => s.coros ++ [spawned]
  | .terminate killed => s.coros.erase killed
  | _ => s.coros

end Sim

/-- Where an instruction comes from, and what taking it changes. -/
inductive Fetched (program : Program σ) (s : Sim σ) (c : CoroId) :
    Op → Sim σ → Prop where
  | retried {task : Op} {u : Sim σ}
      (head : (s.coroutine c).head = some task)
      (vars : u.vars = s.vars)
      (exhausted :
        ∀ d, (u.coroutine d).exhausted = (s.coroutine d).exhausted) :
      Fetched program s c task u
  | yielded {task : Op} {u : Sim σ}
      (head : (s.coroutine c).head = none)
      (run : program.run c s.vars = some (task, u.vars)) :
      Fetched program s c task u
  | ended {u : Sim σ}
      (head : (s.coroutine c).head = none)
      (run : program.run c s.vars = none)
      (running : (s.coroutine c).exhausted = false)
      (vars : u.vars = s.vars)
      (exhausted :
        ∀ d, (u.coroutine d).exhausted =
          if d = c then true else (s.coroutine d).exhausted) :
      Fetched program s c (.terminate c) u

/-- What a dispatch of an instruction does to the program. -/
structure Dispatched (program : Program σ) (s : Sim σ)
    (pair : CpuId × CoroId) (task : Op) (s' : Sim σ) : Prop where
  awake : (s.coroutine pair.2).suspended = false
  upcoming : s.upcoming program pair.2 = some task
  allowed : s.Allows pair.2 task
  fetched : Fetched program s pair.2 task s'
  heads :
    ∀ d, (s'.coroutine d).head =
      if d = pair.2 then if s.blocks task then some task else none
      else (s.coroutine d).head
  cpus :
    ∀ d, (s'.coroutine d).cpu =
      if d = pair.2 then some pair.1 else (s.coroutine d).cpu
  coros : s'.coros = s.corosAfter task
  holders :
    s.blocks task = true →
      ∀ m, (s'.mutex m).acquiredBy = (s.mutex m).acquiredBy

variable {program : Program σ} {s s' u : Sim σ} {c : CoroId} {task : Op}

/-- A coroutine whose next instruction is taken. -/
structure Popped (program : Program σ) (s : Sim σ) (c : CoroId) (task : Op)
    (u : Sim σ) : Prop where
  awake : (s.coroutine c).suspended = false
  upcoming : s.upcoming program c = some task
  fetched : Fetched program s c task u
  heads :
    ∀ d, (u.coroutine d).head =
      if d = c then none else (s.coroutine d).head
  cpus : ∀ d, (u.coroutine d).cpu = (s.coroutine d).cpu
  coros : u.coros = s.coros
  mutexes : u.mutex = s.mutex
  cpu : u.cpu = s.cpu

theorem coroutine_setCoroutine (coroutine : Coroutine) (d : CoroId) :
    (s.setCoroutine c coroutine).coroutine d =
      if d = c then coroutine else s.coroutine d :=
  Function.update_apply _ _ _ _

theorem popped_of_nextTask
    (awake : (s.coroutine c).suspended = false)
    (head : (s.coroutine c).head = none)
    (pops : s.nextTask program c = .ok (task, u)) :
    Popped program s c task u := by
  have heads : ∀ d, (s.coroutine d).head =
      if d = c then none else (s.coroutine d).head := by
    intro d
    split
    next isCoroutine =>
      rw [isCoroutine, head]
    next =>
      rfl
  unfold Sim.nextTask at pops
  split at pops
  · cases pops
  next running =>
    have running := Bool.eq_false_iff.mpr running
    split at pops
    next task vars run =>
      cases pops
      refine ⟨awake, ?_, .yielded head run, heads, fun _ => rfl, rfl, rfl,
        rfl⟩
      rw [Sim.upcoming, head, run]
      simp [running]
    next run =>
      cases pops
      refine ⟨awake, ?_, .ended head run running rfl ?_, ?_, ?_, rfl, rfl,
        rfl⟩
      · rw [Sim.upcoming, head, run]
        simp [running]
      all_goals
        intro d
        rw [coroutine_setCoroutine]
        split
        next isCoroutine =>
          simp [isCoroutine, head]
        next =>
          rfl

theorem popped_of_popInstruction
    {popped : Op × Sim σ}
    (pops : s.popInstruction program c = .ok popped) :
    Popped program s c popped.1 popped.2 := by
  unfold Sim.popInstruction at pops
  split at pops
  · cases pops
  next awake =>
    have awake := Bool.eq_false_iff.mpr awake
    split at pops
    next task head =>
      cases pops
      refine ⟨awake, ?_, .retried head rfl ?_, ?_, ?_, rfl, rfl, rfl⟩
      · rw [Sim.upcoming, head]
      all_goals
        intro d
        rw [coroutine_setCoroutine]
        split
        next isCoroutine =>
          simp [isCoroutine]
        next =>
          rfl
    next head =>
      exact popped_of_nextTask awake head pops

/-- What an instruction does to its coroutine and the program. -/
structure Performed (s : Sim σ) (c : CoroId) (task : Op) (s' : Sim σ) :
    Prop where
  allowed : s.Allows c task
  vars : s'.vars = s.vars
  exhausted :
    ∀ d, (s'.coroutine d).exhausted = (s.coroutine d).exhausted
  heads :
    ∀ d, (s'.coroutine d).head =
      if d = c ∧ s.blocks task = true then some task
      else (s.coroutine d).head
  cpus : ∀ d, (s'.coroutine d).cpu = (s.coroutine d).cpu
  coros : s'.coros = s.corosAfter task
  holders :
    s.blocks task = true →
      ∀ m, (s'.mutex m).acquiredBy = (s.mutex m).acquiredBy
  cpu : s'.cpu = s.cpu

theorem performed_of_perform
    (performs : s.perform c task = .ok s') :
    Performed s c task s' := by
  cases task with
  | lock m =>
      simp only [Sim.perform] at performs
      split at performs
      next holder held =>
        have blocks : s.blocks (.lock m) = true :=
          Option.isSome_iff_exists.mpr ⟨holder, held⟩
        unfold Sim.suspendCoroutine at performs
        split at performs
        · cases performs
        · cases performs
          refine ⟨trivial, rfl, ?_, ?_, ?_, rfl, ?_, rfl⟩
          · intro d
            rw [coroutine_setCoroutine]
            split
            next isCoroutine =>
              rw [isCoroutine]
              rfl
            next =>
              rfl
          · intro d
            rw [coroutine_setCoroutine, blocks]
            simp only [and_true]
            split
            · rfl
            · rfl
          · intro d
            rw [coroutine_setCoroutine]
            split
            next isCoroutine =>
              rw [isCoroutine]
              rfl
            next =>
              rfl
          · intro _ m'
            by_cases isMutex : m' = m
            · subst isMutex
              simp only [Sim.setCoroutine, Sim.setMutex, Function.update_self]
            · simp only [Sim.setCoroutine, Sim.setMutex,
                Function.update_of_ne isMutex]
      next free =>
        cases performs
        have passes : s.blocks (.lock m) = false := by
          rw [Sim.blocks, free]
          rfl
        refine ⟨trivial, rfl, fun _ => rfl, ?_, fun _ => rfl, rfl, ?_, rfl⟩
        · intro d
          simp [passes, Sim.setMutex]
        · intro blocks
          cases passes.symm.trans blocks
  | unlock m =>
      simp only [Sim.perform] at performs
      split at performs
      · cases performs
      next held =>
        cases performs
        refine ⟨not_not.mp held, rfl, fun _ => rfl, ?_, fun _ => rfl, rfl,
          nofun, rfl⟩
        intro d
        simp [Sim.blocks, Sim.setMutex]
  | terminate killed =>
      simp only [Sim.perform] at performs
      split at performs
      next member =>
        cases performs
        refine ⟨member, rfl, fun _ => rfl, ?_, fun _ => rfl, rfl, nofun, rfl⟩
        intro d
        simp [Sim.blocks]
      · cases performs
  | _ =>
      cases performs
      refine ⟨trivial, rfl, fun _ => rfl, ?_, fun _ => rfl, rfl, nofun, rfl⟩
      intro d
      simp [Sim.blocks]

/-- Nothing else of a coroutine matters to where its instruction is from. -/
theorem Fetched.of_same
    (fetched : Fetched program s c task u)
    (vars : s'.vars = u.vars)
    (exhausted :
      ∀ d, (s'.coroutine d).exhausted = (u.coroutine d).exhausted) :
    Fetched program s c task s' := by
  cases fetched with
  | retried head sameVars same =>
      exact .retried head (vars.trans sameVars)
        fun d => (exhausted d).trans (same d)
  | yielded head run =>
      apply Fetched.yielded head
      rw [vars]
      exact run
  | ended head run running sameVars same =>
      exact .ended head run running (vars.trans sameVars)
        fun d => (exhausted d).trans (same d)

/-- What a CPU that takes a coroutine changes. -/
structure Woken (s : Sim σ) (k : CpuId) (c : CoroId) (s' : Sim σ) : Prop where
  free : (s.cpu k).coro = none
  vars : s'.vars = s.vars
  exhausted :
    ∀ d, (s'.coroutine d).exhausted = (s.coroutine d).exhausted
  heads : ∀ d, (s'.coroutine d).head = (s.coroutine d).head
  cpus :
    ∀ d, (s'.coroutine d).cpu =
      if d = c then some k else (s.coroutine d).cpu
  coros : s'.coros = s.coros
  mutexes : s'.mutex = s.mutex

theorem woken_of_wakeup
    {k : CpuId} {due : Int}
    (wakes : s.wakeup k c due = .ok s') :
    Woken s k c s' := by
  unfold Sim.wakeup at wakes
  split at wakes
  · cases wakes
  next free =>
    cases wakes
    refine ⟨Option.not_isSome_iff_eq_none.mp free, rfl, ?_, ?_, ?_, rfl, rfl⟩
    all_goals
      intro d
      apply (congrArg _ (coroutine_setCoroutine _ d)).trans
      split
      next isCoroutine =>
        simp [isCoroutine]
      next =>
        rfl

theorem dispatched_of_dispatch
    {pair : CpuId × CoroId}
    (dispatches : s.dispatch program pair = .ok s') :
    ∃ task u, s.popInstruction program pair.2 = .ok (task, u) ∧
      Dispatched program s pair task s' := by
  obtain ⟨⟨task, u⟩, pops, rest⟩ := Passes.of_bind dispatches
  obtain ⟨t, performs, wakes⟩ := Passes.of_bind rest
  have popped := popped_of_popInstruction pops
  have performed := performed_of_perform performs
  have blocks : (u.monitor pair.1 pair.2 task).blocks task =
      s.blocks task := by
    unfold Sim.blocks
    rw [show (u.monitor pair.1 pair.2 task).mutex = s.mutex from
      popped.mutexes]
  have allows : (u.monitor pair.1 pair.2 task).Allows pair.2 task ↔
      s.Allows pair.2 task := by
    unfold Sim.Allows
    rw [show (u.monitor pair.1 pair.2 task).mutex = s.mutex from
        popped.mutexes,
      show (u.monitor pair.1 pair.2 task).coros = s.coros from popped.coros]
  have coros : (u.monitor pair.1 pair.2 task).corosAfter task =
      s.corosAfter task := by
    unfold Sim.corosAfter
    rw [show (u.monitor pair.1 pair.2 task).coros = s.coros from popped.coros]
  have woken := woken_of_wakeup wakes
  refine ⟨task, u, pops, popped.awake, popped.upcoming,
    allows.mp performed.allowed, ?_, ?_, ?_,
    (woken.coros.trans performed.coros).trans coros, ?_⟩
  · apply popped.fetched.of_same (woken.vars.trans performed.vars)
    intro d
    exact (woken.exhausted d).trans (performed.exhausted d)
  · intro d
    rw [woken.heads d, performed.heads d, blocks]
    by_cases isCoroutine : d = pair.2
    · by_cases waits : s.blocks task = true
      · simp [isCoroutine, waits]
      · rw [if_neg fun both => waits both.2, if_pos isCoroutine,
          if_neg waits]
        exact (popped.heads d).trans (if_pos isCoroutine)
    · rw [if_neg fun both => isCoroutine both.1, if_neg isCoroutine]
      exact (popped.heads d).trans (if_neg isCoroutine)
  · intro d
    rw [woken.cpus d]
    split
    next =>
      rfl
    next =>
      exact (performed.cpus d).trans (popped.cpus d)
  · intro waits m
    rw [woken.mutexes, ← popped.mutexes]
    exact performed.holders (blocks.trans waits) m

/-- A coroutine that is not at its end yields an instruction. -/
theorem pop_succeeds
    (awake : (s.coroutine c).suspended = false)
    (upcoming : s.upcoming program c = some task) :
    ∃ u, s.popInstruction program c = .ok (task, u) := by
  cases isHead : (s.coroutine c).head with
  | some head =>
      rw [Sim.upcoming, isHead] at upcoming
      cases upcoming
      refine ⟨s.setCoroutine c { s.coroutine c with head := none }, ?_⟩
      rw [Sim.popInstruction, awake, if_neg Bool.false_ne_true, isHead]
  | none =>
      rw [Sim.upcoming, isHead] at upcoming
      by_cases ended : (s.coroutine c).exhausted = true
      · rw [ended] at upcoming
        cases upcoming
      · dsimp only at upcoming
        rw [if_neg ended] at upcoming
        have pops : s.popInstruction program c = s.nextTask program c := by
          rw [Sim.popInstruction, awake, if_neg Bool.false_ne_true, isHead]
        rw [pops, Sim.nextTask, if_neg ended]
        cases run : program.run c s.vars with
        | some yielded =>
            rw [run] at upcoming
            cases upcoming
            exact ⟨_, rfl⟩
        | none =>
            rw [run] at upcoming
            cases upcoming
            exact ⟨_, rfl⟩

/-- An instruction that is used as it is meant succeeds. -/
theorem perform_succeeds
    (allowed : s.Allows c task)
    (head : (s.coroutine c).head = none) :
    ∃ s', s.perform c task = .ok s' := by
  cases task with
  | lock m =>
      simp only [Sim.perform]
      split
      next =>
        unfold Sim.suspendCoroutine
        rw [if_neg]
        · exact ⟨_, rfl⟩
        · exact Option.not_isSome_iff_eq_none.mpr head
      next =>
        exact ⟨_, rfl⟩
  | unlock m =>
      have holds : (s.mutex m).acquiredBy = some c := allowed
      simp only [Sim.perform, holds, ne_eq, not_true_eq_false, if_false]
      exact ⟨_, rfl⟩
  | terminate killed =>
      have member : killed ∈ s.coros := allowed
      simp only [Sim.perform, member, if_true]
      exact ⟨_, rfl⟩
  | _ =>
      exact ⟨_, rfl⟩

/-- A dispatch that is permitted succeeds. -/
theorem dispatch_succeeds
    {pair : CpuId × CoroId}
    (awake : (s.coroutine pair.2).suspended = false)
    (upcoming : s.upcoming program pair.2 = some task)
    (allowed : s.Allows pair.2 task)
    (free : (s.cpu pair.1).coro = none) :
    ∃ s', s.dispatch program pair = .ok s' := by
  obtain ⟨u, pops⟩ := pop_succeeds awake upcoming
  have popped := popped_of_popInstruction pops
  have allows : (u.monitor pair.1 pair.2 task).Allows pair.2 task := by
    unfold Sim.Allows at allowed ⊢
    rw [show (u.monitor pair.1 pair.2 task).mutex = s.mutex from
        popped.mutexes,
      show (u.monitor pair.1 pair.2 task).coros = s.coros from popped.coros]
    exact allowed
  obtain ⟨t, performs⟩ :=
    perform_succeeds allows ((popped.heads pair.2).trans (if_pos rfl))
  have taken : (t.cpu pair.1).coro = none := by
    rw [(performed_of_perform performs).cpu]
    exact (congrArg (fun cpu => (cpu pair.1).coro) popped.cpu).trans free
  unfold Sim.dispatch
  rw [Passes.bind_of_ok pops, Passes.bind_of_ok performs, Sim.wakeup,
    taken]
  exact ⟨_, rfl⟩

end Instructions

end Dfk.Schedprof
