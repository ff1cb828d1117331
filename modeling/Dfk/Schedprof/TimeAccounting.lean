import Dfk.Schedprof.Dispatching

/-!
# Simulated time

What the clock and the CPUs of a simulation tell is balanced at every point:
the time of all CPUs, less the time they were idle and with what the running
instructions still take, is the time of all instructions that were started.
This holds for every scheduler that maps to the CPUs of the simulation.
-/

namespace Dfk.Schedprof

open Loops

/-- The time at which an instruction ends. -/
def Event.ends (event : Event) : Int :=
  event.now + event.task.duration

/-- How long a CPU is still busy. -/
def Cpu.remaining (cpu : Cpu) (time : Int) : Int :=
  max 0 (cpu.due - time)

/-- What a simulation tells of its time. -/
structure Clock where
  now : Int
  ncpu : Nat
  cpu : CpuId → Cpu
  idleCputime : Int
  history : List Event

def Sim.clock {σ : Type} (s : Sim σ) : Clock where
  now := s.now
  ncpu := s.ncpu
  cpu := s.cpu
  idleCputime := s.idleCputime
  history := s.history

/-- An instruction is started on a CPU that is free. -/
def Clock.started (v : Clock) (event : Event) : Clock :=
  { v with
    cpu := Function.update v.cpu event.cpu
      { v.cpu event.cpu with due := event.ends, coro := some event.coro }
    history := v.history ++ [event] }

/-- The CPU times add up. -/
structure Balanced (v : Clock) : Prop where
  nonneg : 0 ≤ v.now
  freeDue : ∀ k, (v.cpu k).coro = none → (v.cpu k).due = 0
  balance :
    (v.history.map fun event => event.task.duration).sum =
      v.ncpu * v.now - v.idleCputime +
        ∑ k ∈ Finset.range v.ncpu, (v.cpu k).remaining v.now
  endsOrRuns :
    ∀ event ∈ v.history,
      event.ends ≤ v.now ∨
        ∃ k < v.ncpu,
          (v.cpu k).due = event.ends ∧ (v.cpu k).coro ≠ none
  dueEnds :
    ∀ k, (v.cpu k).due = 0 ∨
      ∃ event ∈ v.history, event.ends = (v.cpu k).due

section Views

variable {σ : Type} {program : Program σ} {s s' : Sim σ} {c : CoroId}

theorem clock_nextTask
    {popped : Op × Sim σ}
    (pops : s.nextTask program c = .ok popped) :
    popped.2.clock = s.clock := by
  unfold Sim.nextTask at pops
  split at pops
  · cases pops
  · split at pops
    all_goals
      cases pops
      rfl

theorem clock_popInstruction
    {popped : Op × Sim σ}
    (pops : s.popInstruction program c = .ok popped) :
    popped.2.clock = s.clock := by
  unfold Sim.popInstruction at pops
  split at pops
  · cases pops
  · split at pops
    · cases pops
      rfl
    · exact clock_nextTask pops

theorem clock_perform
    {task : Op}
    (performs : s.perform c task = .ok s') :
    s'.clock = s.clock := by
  cases task with
  | lock m =>
      simp only [Sim.perform] at performs
      split at performs
      · unfold Sim.suspendCoroutine at performs
        split at performs
        · cases performs
        · cases performs
          rfl
      · cases performs
        rfl
  | unlock m =>
      simp only [Sim.perform] at performs
      split at performs
      · cases performs
      · cases performs
        rfl
  | terminate killed =>
      simp only [Sim.perform] at performs
      split at performs
      · cases performs
        rfl
      · cases performs
  | _ =>
      cases performs
      rfl

theorem clock_of_wakeup
    {k : CpuId} {due : Int}
    (wakes : s.wakeup k c due = .ok s') :
    (s.clock.cpu k).coro = none ∧
      s'.clock = { s.clock with
        cpu := Function.update s.clock.cpu k
          { s.clock.cpu k with due := due, coro := some c } } := by
  unfold Sim.wakeup at wakes
  split at wakes
  · cases wakes
  next free =>
    cases wakes
    exact ⟨Option.not_isSome_iff_eq_none.mp free, rfl⟩

/-- An instruction is started on a CPU that holds no coroutine. -/
theorem clock_of_dispatch
    {pair : CpuId × CoroId}
    (dispatches : s.dispatch program pair = .ok s') :
    ∃ event : Event,
      event.cpu = pair.1 ∧ event.coro = pair.2 ∧ event.now = s.now ∧
      event.blocked = s.blocks event.task ∧
      (∃ u, s.popInstruction program pair.2 = .ok (event.task, u)) ∧
      (s.cpu pair.1).coro = none ∧ s'.clock = s.clock.started event := by
  obtain ⟨popped, pops, rest⟩ := Passes.of_bind dispatches
  obtain ⟨performed, performs, wakes⟩ := Passes.of_bind rest
  obtain ⟨free, woken⟩ := clock_of_wakeup wakes
  have samePopped := clock_popInstruction pops
  have sameNow : popped.2.now = s.now := congrArg Clock.now samePopped
  have monitored :
      performed.clock = { popped.2.clock with
        history := popped.2.clock.history ++ [⟨popped.2.now, pair.1, pair.2,
          popped.1, popped.2.blocks popped.1⟩] } :=
    clock_perform performs
  have performedNow : performed.now = popped.2.now :=
    congrArg Clock.now monitored
  rw [monitored, samePopped] at free woken
  rw [performedNow, sameNow] at woken
  refine ⟨⟨s.now, pair.1, pair.2, popped.1, popped.2.blocks popped.1⟩,
    rfl, rfl, rfl, ?_, ⟨popped.2, pops⟩, free, woken⟩
  simp only [Sim.blocks, (popped_of_popInstruction pops).mutexes]

theorem clock_resumeAll (resumed : List CoroId) (s : Sim σ) :
    (resumed.foldl Sim.resume s).clock = s.clock := by
  apply List.foldlRecOn (motive := fun t : Sim σ => t.clock = s.clock)
  · rfl
  · intro t same c _
    exact same

/-- Finalizing a CPU clears it if its task is completed. -/
theorem clock_finalizeCpu (s : Sim σ) (k : CpuId) :
    (s.finalizeCpu k).clock = s.clock ∨
      (s.cpu k).due ≤ s.now ∧ ∃ lastCoro,
        (s.finalizeCpu k).clock = { s.clock with
          cpu := Function.update s.cpu k
            { due := 0, coro := none, lastCoro := lastCoro } } := by
  unfold Sim.finalizeCpu
  split
  next c _ =>
    split
    next completed =>
      exact .inr ⟨completed, some c, rfl⟩
    next =>
      exact .inl rfl
  next =>
    exact .inl rfl

end Views

section Balance

variable {v : Clock}

/-- A CPU that is due takes no more time. -/
theorem remaining_of_due
    {cpu : Cpu} {time : Int}
    (due : cpu.due ≤ time) :
    cpu.remaining time = 0 :=
  max_eq_left (sub_nonpos.mpr due)

/-- Where one summand is replaced. -/
theorem sum_remaining_update
    {k : CpuId} (cpu : Cpu)
    (own : k < v.ncpu) :
    ∑ k' ∈ Finset.range v.ncpu,
        (Function.update v.cpu k cpu k').remaining v.now =
      ∑ k' ∈ Finset.range v.ncpu, (v.cpu k').remaining v.now -
        (v.cpu k).remaining v.now + cpu.remaining v.now := by
  have member : k ∈ Finset.range v.ncpu := Finset.mem_range.mpr own
  rw [← Finset.add_sum_erase _ _ member, ← Finset.add_sum_erase
    (Finset.range v.ncpu) (fun k' => (v.cpu k').remaining v.now) member,
    Function.update_self]
  have others :
      ∑ k' ∈ (Finset.range v.ncpu).erase k,
          (Function.update v.cpu k cpu k').remaining v.now =
        ∑ k' ∈ (Finset.range v.ncpu).erase k,
          (v.cpu k').remaining v.now := by
    apply Finset.sum_congr rfl
    intro k' isOther
    rw [Function.update_of_ne (Finset.ne_of_mem_erase isOther)]
  rw [others]
  ring

/-- A CPU whose task is completed can be cleared. -/
theorem Balanced.cleared
    {k : CpuId} {lastCoro : Option CoroId}
    (balanced : Balanced v)
    (own : k < v.ncpu)
    (completed : (v.cpu k).due ≤ v.now) :
    Balanced { v with
      cpu := Function.update v.cpu k
        { due := 0, coro := none, lastCoro := lastCoro } } where
  nonneg := balanced.nonneg
  freeDue k' free := by
    by_cases isCpu : k' = k
    · subst isCpu
      simp only [Function.update_self]
    · simp only [Function.update_of_ne isCpu] at free ⊢
      exact balanced.freeDue k' free
  balance := by
    rw [sum_remaining_update _ own, remaining_of_due completed,
      remaining_of_due balanced.nonneg, sub_zero, add_zero]
    exact balanced.balance
  endsOrRuns event member := by
    rcases balanced.endsOrRuns event member with
      ended | ⟨k', own', due, runs⟩
    · exact .inl ended
    · by_cases isCpu : k' = k
      · subst isCpu
        rw [due] at completed
        exact .inl completed
      · refine .inr ⟨k', own', ?_, ?_⟩
        all_goals simp only [Function.update_of_ne isCpu]
        · exact due
        · exact runs
  dueEnds k' := by
    by_cases isCpu : k' = k
    · subst isCpu
      simp only [Function.update_self]
      exact .inl trivial
    · simp only [Function.update_of_ne isCpu]
      exact balanced.dueEnds k'

/-- An instruction that is started takes what it adds. -/
theorem Balanced.started
    {event : Event}
    (balanced : Balanced v)
    (own : event.cpu < v.ncpu)
    (starts : event.now = v.now)
    (lasts : 0 ≤ event.task.duration)
    (free : (v.cpu event.cpu).coro = none) :
    Balanced (v.started event) where
  nonneg := balanced.nonneg
  freeDue k free' := by
    simp only [Clock.started] at free' ⊢
    by_cases isCpu : k = event.cpu
    · subst isCpu
      simp only [Function.update_self] at free'
      cases free'
    · simp only [Function.update_of_ne isCpu] at free' ⊢
      exact balanced.freeDue k free'
  balance := by
    have freeDue := balanced.freeDue event.cpu free
    have before : (v.cpu event.cpu).remaining v.now = 0 :=
      remaining_of_due (freeDue.trans_le balanced.nonneg)
    have after :
        Cpu.remaining { v.cpu event.cpu with
          due := event.ends, coro := some event.coro } v.now =
        event.task.duration := by
      rw [Cpu.remaining, Event.ends, starts, add_sub_cancel_left]
      exact max_eq_right lasts
    have sums := sum_remaining_update { v.cpu event.cpu with
      due := event.ends, coro := some event.coro } own
    rw [before, after] at sums
    simp only [Clock.started, sums, List.map_append, List.sum_append,
      List.map_singleton, List.sum_singleton, balanced.balance]
    ring
  endsOrRuns event' member := by
    simp only [Clock.started] at member ⊢
    rcases List.mem_append.mp member with earlier | last
    · rcases balanced.endsOrRuns event' earlier with
        ended | ⟨k, own', due, runs⟩
      · exact .inl ended
      · have other : k ≠ event.cpu := by
          rintro rfl
          exact runs free
        refine .inr ⟨k, own', ?_, ?_⟩
        all_goals simp only [Function.update_of_ne other]
        · exact due
        · exact runs
    · rw [List.mem_singleton.mp last]
      refine .inr ⟨event.cpu, own, ?_, ?_⟩
      all_goals simp only [Function.update_self]
      exact Option.some_ne_none _
  dueEnds k := by
    simp only [Clock.started]
    by_cases isCpu : k = event.cpu
    · subst isCpu
      simp only [Function.update_self]
      exact .inr ⟨event, List.mem_append_right _ (List.mem_singleton_self _),
        rfl⟩
    · simp only [Function.update_of_ne isCpu]
      rcases balanced.dueEnds k with zero | ⟨event', member, ends⟩
      · exact .inl zero
      · exact .inr ⟨event', List.mem_append_left _ member, ends⟩

/-- What a CPU is still busy until the next scheduling point and after it. -/
theorem remaining_of_next
    {cpu : Cpu} {now nextnow : Int}
    (later : now < nextnow)
    (free : cpu.coro = none → cpu.due = 0)
    (nonneg : 0 ≤ now)
    (next : now < cpu.due → nextnow ≤ cpu.due) :
    cpu.remaining nextnow =
      cpu.remaining now -
        (1 - if cpu.idle now then 1 else 0) * (nextnow - now) := by
  by_cases busy : now < cpu.due
  · have holds : cpu.coro ≠ none := by
      intro isFree
      rw [free isFree] at busy
      exact absurd nonneg (not_le.mpr busy)
    have notIdle : cpu.idle now = false := by
      rw [Cpu.idle, Bool.or_eq_false_iff, Option.isNone_eq_false_iff,
        decide_eq_false_iff_not]
      exact ⟨Option.isSome_iff_ne_none.mpr holds, not_le.mpr busy⟩
    rw [notIdle, Cpu.remaining, Cpu.remaining,
      max_eq_right (sub_nonneg.mpr (next busy)),
      max_eq_right (sub_nonneg.mpr busy.le)]
    simp
  · have due := not_lt.mp busy
    have idle : cpu.idle now = true := by
      rw [Cpu.idle, Bool.or_eq_true, decide_eq_true_eq]
      exact .inr due
    rw [idle, remaining_of_due due, remaining_of_due (due.trans later.le)]
    simp

/-- The CPUs that are counted. -/
theorem countP_range (count : Nat) (counted : Nat → Bool) :
    ((List.range count).countP counted : Int) =
      ∑ k ∈ Finset.range count, if counted k then 1 else 0 := by
  induction count with
  | zero =>
      simp
  | succ count inductionHypothesis =>
      rw [List.range_succ, List.countP_append, Finset.sum_range_succ,
        Nat.cast_add, inductionHypothesis, List.countP_singleton]
      simp

/-- The jump to the next scheduling point counts the CPUs that are idle. -/
theorem Balanced.advance
    {σ : Type} {s : Sim σ} {nextnow : Int}
    (balanced : Balanced s.clock)
    (nearest : s.nextNow = some nextnow) :
    Balanced (s.advance nextnow).clock where
  nonneg := balanced.nonneg.trans (mem_of_nextNow nearest).1.le
  freeDue := balanced.freeDue
  balance := by
    have each :
        ∑ k ∈ Finset.range s.ncpu, (s.cpu k).remaining nextnow =
          ∑ k ∈ Finset.range s.ncpu,
            ((s.cpu k).remaining s.now -
              (1 - if (s.cpu k).idle s.now then 1 else 0) *
                (nextnow - s.now)) := by
      apply Finset.sum_congr rfl
      intro k member
      apply remaining_of_next (mem_of_nextNow nearest).1
        (balanced.freeDue k) balanced.nonneg
      intro busy
      exact nextNow_le nearest
        (List.mem_range.mpr (Finset.mem_range.mp member)) busy
    have idle : (s.nidlecpus : Int) = ∑ k ∈ Finset.range s.ncpu,
        if (s.cpu k).idle s.now then 1 else 0 :=
      countP_range s.ncpu _
    rw [Finset.sum_sub_distrib, ← Finset.sum_mul, Finset.sum_sub_distrib,
      Finset.sum_const, Finset.card_range, ← idle, nsmul_one] at each
    have before := balanced.balance
    simp only [Sim.clock, Sim.advance] at before ⊢
    rw [each, before]
    ring
  endsOrRuns event member := by
    rcases balanced.endsOrRuns event member with ended | running
    · exact .inl (ended.trans (mem_of_nextNow nearest).1.le)
    · exact .inr running
  dueEnds := balanced.dueEnds

/-- Finalizing keeps the balance. -/
theorem Balanced.finalize
    {σ : Type} {s : Sim σ}
    (balanced : Balanced s.clock) :
    Balanced s.finalize.clock ∧ s.finalize.now = s.now ∧
      s.finalize.ncpu = s.ncpu := by
  have own : ∀ k ∈ s.cpus, k < s.ncpu := fun k => List.mem_range.mp
  apply List.foldlRecOn (motive := fun t : Sim σ =>
    Balanced t.clock ∧ t.now = s.now ∧ t.ncpu = s.ncpu) s.cpus
  · exact ⟨balanced, rfl, rfl⟩
  · rintro t ⟨keeps, sameNow, sameNcpu⟩ k member
    rcases clock_finalizeCpu t k with same | ⟨completed, lastCoro, cleared⟩
    · rw [← same] at keeps
      exact ⟨keeps, (congrArg Clock.now same).trans sameNow,
        (congrArg Clock.ncpu same).trans sameNcpu⟩
    · refine ⟨?_, (congrArg Clock.now cleared).trans sameNow,
        (congrArg Clock.ncpu cleared).trans sameNcpu⟩
      rw [cleared]
      apply keeps.cleared _ completed
      exact (own k member).trans_eq sameNcpu.symm

/-- What the scheduler maps is balanced. -/
theorem Balanced.mapping
    {σ : Type} {s : Sim σ}
    (balanced : Balanced s.clock) :
    Balanced s.mapping.clock := by
  rw [Sim.mapping, Sim.resumeWaiting, clock_resumeAll]
  exact balanced.finalize.1

end Balance

end Dfk.Schedprof
