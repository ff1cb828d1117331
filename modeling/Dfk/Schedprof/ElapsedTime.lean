import Dfk.Schedprof.Progress

/-!
# The time a simulation takes

`run_program` with `DumbScheduler` ends and accounts for all of its time
exactly if no instruction is misused, every scheduling point with coroutines
left has a CPU that is busy or starts an instruction that takes time, and the
CPUs are never all given to coroutines that retry locks in vain.
-/

namespace Dfk.Schedprof

open Loops

/-- The instructions a program will ever yield take no negative time. -/
def Program.NonNegative {σ : Type} (program : Program σ) (vars : σ) : Prop :=
  ∀ later,
    Relation.ReflTransGen (fun now next => program.Fetches next now)
      vars later →
    ∀ c task vars',
      program.run c later = some (task, vars') → 0 ≤ task.duration

/-- No order of its coroutines lets a program yield instructions for ever. -/
def Program.Ends {σ : Type} (program : Program σ) (vars : σ) : Prop :=
  Acc program.Fetches vars

/-- A simulation comes to the state in which its program has ended. -/
def Finishes {σ : Type} (program : Program σ) (map : Sim σ → Mapped)
    (main : CoroId) (ncpu : Nat) (vars : σ) (final : Sim σ) : Prop :=
  ∃ last, Reached program map main ncpu vars last ∧
    last.mapping.executeMapped program (map last.mapping) = .ok final ∧
    final.ended = true

/--
A simulation ends without an exception, at the time at which the last of its
instructions does; the time of all CPUs is theirs for all of that time, and
the time they burn is the time of all instructions that were executed.
-/
def AccountsTime {σ : Type} (program : Program σ) (map : Sim σ → Mapped)
    (main : CoroId) (ncpu : Nat) (vars : σ) : Prop :=
  ∃ fuel stat final,
    runProgram program map main ncpu vars fuel = .ok stat ∧
    Finishes program map main ncpu vars final ∧
    (∀ event ∈ final.history, event.ends ≤ stat.elapsed) ∧
    (∃ event ∈ final.history, event.ends = stat.elapsed) ∧
    stat.totalCputime = ncpu * stat.elapsed ∧
    stat.burningCputime =
      (final.history.map fun event => event.task.duration).sum

/--
Every CPU is idle, and all that is mapped retries locks on mutexes that are
held.
-/
def Spinning {σ : Type} (t : Sim σ) : Prop :=
  (dumbMap t).schedule ≠ [] ∧ (∀ k ∈ t.cpus, (t.cpu k).idle t.now = true) ∧
    ∀ pair ∈ (dumbMap t).schedule, Retries t pair.2

/-- The state in which a pair that is mapped is dispatched. -/
def ComesUp {σ : Type} (program : Program σ) (t : Sim σ)
    (pair : CpuId × CoroId) (u : Sim σ) : Prop :=
  ∃ before after,
    (dumbMap t).schedule = before ++ pair :: after ∧
    before.foldlM (Sim.dispatch program) t = .ok u

/--
What keeps a simulation going at a scheduling point: the coroutines that are
mapped are neither suspended nor at their end and use their instructions as
they are meant; while coroutines are left, a CPU is busy or an instruction
that takes time is started; and the CPUs do not spin.
-/
structure Sustained {σ : Type} (program : Program σ) (t : Sim σ) : Prop where
  permitted :
    ∀ pair u, ComesUp program t pair u →
      (u.coroutine pair.2).suspended = false ∧
        ∃ task, u.upcoming program pair.2 = some task ∧ u.Allows pair.2 task
  timely :
    t.coros ≠ [] →
      (∃ k ∈ t.cpus, (t.cpu k).burning t.now = true) ∨
        ∃ pair u task, ComesUp program t pair u ∧
          u.upcoming program pair.2 = some task ∧ 0 < task.duration
  notSpinning : ¬ Spinning t

/-- What holds of the CPUs and the coroutines all the time. -/
structure Running {σ : Type} (program : Program σ) (s : Sim σ) : Prop where
  nonNegative : program.NonNegative s.vars
  balanced : Balanced s.clock
  holding : Holding s
  putBack : LocksPutBack s
  waited :
    ∀ c, (s.coroutine c).head ≠ none → ∃ m, Waited s.history c m

section Running

variable {σ : Type} {program : Program σ} {s s' t : Sim σ}
variable {pair : CpuId × CoroId}

/-- An instruction that is taken takes no negative time. -/
theorem duration_nonneg
    {task : Op}
    (nonNegative : program.NonNegative s.vars)
    (putBack : LocksPutBack s)
    (fetched : Fetched program s pair.2 task s') :
    0 ≤ task.duration := by
  cases fetched with
  | retried head _ _ =>
      obtain ⟨m, rfl⟩ := putBack pair.2 task head
      exact Int.one_nonneg
  | yielded _ run =>
      exact nonNegative _ .refl _ _ _ run
  | ended _ _ _ _ _ =>
      exact Int.one_nonneg

/-- Nor does any after it. -/
theorem nonNegative_of_fetched
    {task : Op}
    (nonNegative : program.NonNegative s.vars)
    (fetched : Fetched program s pair.2 task s') :
    program.NonNegative s'.vars := by
  cases fetched with
  | retried _ vars _ =>
      rw [vars]
      exact nonNegative
  | yielded _ run =>
      intro later follows
      exact nonNegative later (.head ⟨pair.2, task, run⟩ follows)
  | ended _ _ _ vars _ =>
      rw [vars]
      exact nonNegative

theorem Running.mapping
    (running : Running program s) :
    Running program s.mapping where
  nonNegative := by
    rw [show s.mapping.vars = s.vars from
      congrArg Plan.vars (plan_mapping s)]
    exact running.nonNegative
  balanced := running.balanced.mapping
  holding := running.holding.mapping
  putBack := putBack_of_plan (plan_mapping s) running.putBack
  waited c head := by
    rw [show (s.mapping.coroutine c).head = (s.coroutine c).head from
      congrFun (congrArg Plan.head (plan_mapping s)) c] at head
    rw [show s.mapping.history = s.history from
      congrArg Clock.history (clock_mapping s)]
    exact running.waited c head

/-- A dispatch to a CPU of the simulation. -/
theorem Running.dispatch
    (running : Running program s)
    (own : pair.1 < s.ncpu)
    (dispatches : s.dispatch program pair = .ok s') :
    Running program s' ∧ s'.ncpu = s.ncpu := by
  obtain ⟨task, u, pops, dispatched⟩ := dispatched_of_dispatch dispatches
  obtain ⟨event, onCpu, ofCoro, atTime, blocked, ⟨u', pops'⟩, free, started⟩ :=
    clock_of_dispatch dispatches
  have isTask : event.task = task :=
    (Prod.mk.inj (Except.ok.inj (pops'.symm.trans pops))).1
  have sameNcpu : s'.ncpu = s.ncpu := congrArg Clock.ncpu started
  have told : s'.history = s.history ++ [event] :=
    congrArg Clock.history started
  obtain ⟨_, _, _, _, _, _, _, _, _, _, others, _, taken⟩ :=
    cpu_of_dispatch dispatches
  refine ⟨⟨nonNegative_of_fetched running.nonNegative dispatched.fetched,
    ?_, ?_, dispatched.putBack running.putBack, ?_⟩, sameNcpu⟩
  · rw [started]
    apply running.balanced.started _ atTime
    · rw [isTask]
      exact duration_nonneg running.nonNegative running.putBack
        dispatched.fetched
    · rw [onCpu]
      exact free
    · rw [onCpu]
      exact own
  · intro d k runs
    rw [dispatched.cpus d] at runs
    rw [sameNcpu]
    split at runs
    next isCoroutine =>
      cases runs
      exact ⟨own, isCoroutine ▸ taken⟩
    next =>
      obtain ⟨ownCpu, held⟩ := running.holding d k runs
      have other : k ≠ pair.1 := by
        rintro rfl
        cases free.symm.trans held
      rw [others k other]
      exact ⟨ownCpu, held⟩
  · intro d head
    rw [dispatched.heads d] at head
    rw [told]
    split at head
    next isCoroutine =>
      split at head
      next blocks =>
        cases task with
        | lock m =>
            refine ⟨m, waited_append_singleton.mpr (.inr ⟨?_, isTask, ?_⟩)⟩
            · rw [ofCoro, isCoroutine]
            · rw [blocked, isTask, blocks]
        | _ => cases blocks
      next =>
        exact absurd rfl head
    next =>
      obtain ⟨m, waited⟩ := running.waited d head
      exact ⟨m, waited_append_singleton.mpr (.inl waited)⟩

/-- What is mapped is executed on the CPUs of the simulation. -/
theorem Running.passes
    {pairs : List (CpuId × CoroId)}
    (running : Running program t)
    (own : ∀ pair ∈ pairs, pair.1 < t.ncpu)
    (passes : pairs.foldlM (Sim.dispatch program) t = .ok s) :
    Running program s ∧ s.ncpu = t.ncpu := by
  have passed :=
    @Passes.passed _ _ _ _ _ _ _
      (fun _ (u : Sim σ) => Running program u ∧ u.ncpu = t.ncpu) passes
  apply passed ⟨running, rfl⟩
  rintro before pair after u next parts ⟨keeps, sameNcpu⟩ dispatches
  have ownCpu : pair.1 < u.ncpu := by
    rw [sameNcpu]
    apply own
    rw [parts]
    exact List.mem_append_right _ List.mem_cons_self
  obtain ⟨keepsOn, same⟩ := keeps.dispatch ownCpu dispatches
  exact ⟨keepsOn, same.trans sameNcpu⟩

end Running

/-- What holds at the beginning of every round. -/
structure Kept {σ : Type} (program : Program σ) (s : Sim σ) : Prop where
  settled : Settled s.mutexView
  running : Running program s
  begins : s.coros ≠ [] ∨ ∃ event ∈ s.history, event.ends = s.now

section Rounds

variable {σ : Type} {program : Program σ} {s s' executed : Sim σ}
variable {main : CoroId} {ncpu : Nat} {vars : σ}

/-- The CPUs that are mapped are those of the simulation. -/
theorem own_of_mem_dumbMap :
    ∀ pair ∈ (dumbMap s).schedule, pair.1 < s.ncpu := fun _ mapped =>
  List.mem_range.mp (of_mem_dumbMap mapped).1.1

/-- A round that goes on passes through what is mapped. -/
theorem passes_of_goes
    (goes : Goes (Sim.round program dumbMap) s s') :
    ∃ executed nextnow,
      (dumbMap s.mapping).schedule.foldlM (Sim.dispatch program) s.mapping =
        .ok executed ∧
      executed.ended = false ∧ executed.nextNow = some nextnow ∧
      s' = executed.advance nextnow := by
  obtain ⟨executed, nextnow, executes, rest⟩ := executed_of_goes goes
  rw [executeMapped_dumbMap] at executes
  exact ⟨executed, nextnow, executes, rest⟩

theorem Running.advance
    {nextnow : Int}
    (running : Running program s)
    (nearest : s.nextNow = some nextnow) :
    Running program (s.advance nextnow) where
  nonNegative := running.nonNegative
  balanced := running.balanced.advance nearest
  holding := running.holding
  putBack := running.putBack
  waited := running.waited

theorem Kept.goes
    (kept : Kept program s)
    (goes : Goes (Sim.round program dumbMap) s s') :
    Kept program s' ∧ s'.ncpu = s.ncpu := by
  have settled := (kept.settled.goes goes).1
  obtain ⟨executed, nextnow, passes, _, nearest, rfl⟩ := passes_of_goes goes
  obtain ⟨running, sameNcpu⟩ :=
    kept.running.mapping.passes own_of_mem_dumbMap passes
  refine ⟨⟨settled, running.advance nearest, .inr ?_⟩, ?_⟩
  · obtain ⟨later, k, _, due⟩ := mem_of_nextNow nearest
    rcases running.balanced.dueEnds k with zero | ⟨event, member, ends⟩
    · have nonneg := running.balanced.nonneg
      have positive := nonneg.trans_lt later
      rw [← due] at positive
      exact absurd zero positive.ne'
    · exact ⟨event, member, ends.trans due⟩
  · exact sameNcpu.trans (congrArg Clock.ncpu (clock_mapping s))

theorem Reached.kept
    (nonNegative : program.NonNegative vars)
    (reached : Reached program dumbMap main ncpu vars s) :
    Kept program s ∧ s.ncpu = ncpu := by
  apply @invariant _ _ _ _ _ _
    (fun s : Sim σ => Kept program s ∧ s.ncpu = ncpu) reached
  · refine ⟨⟨@Reached.settled _ program dumbMap _ _ _ _ .refl,
      ⟨nonNegative, ⟨le_rfl, fun _ _ => rfl, ?_, nofun, fun _ => .inl rfl⟩, nofun, nofun,
        ?_⟩, .inl (List.cons_ne_nil _ _)⟩, rfl⟩
    · simp [Sim.clock, Sim.start, Cpu.fresh, Cpu.remaining]
    · intro c head
      exact absurd rfl head
  · rintro state next ⟨kept, sameNcpu⟩ goes
    obtain ⟨keeps, same⟩ := kept.goes goes
    exact ⟨keeps, same.trans sameNcpu⟩

/-- Where no coroutine is left nothing is mapped. -/
theorem dumbMap_of_empty
    (empty : s.coros = []) :
    (dumbMap s).schedule = [] := by
  rw [dumbMap, empty, List.filter_nil, List.zip_nil_right]

/-- A CPU that is not idle is due later. -/
theorem busy_of_not_idle
    {cpu : Cpu} {time : Int}
    (burns : cpu.idle time = false) :
    cpu.coro ≠ none ∧ time < cpu.due := by
  rw [Cpu.idle, Bool.or_eq_false_iff, Option.isNone_eq_false_iff,
    decide_eq_false_iff_not] at burns
  exact ⟨Option.isSome_iff_ne_none.mp burns.1, not_le.mp burns.2⟩

theorem idle_of_due
    {cpu : Cpu} {time : Int}
    (due : cpu.due ≤ time) :
    cpu.idle time = true := by
  rw [Cpu.idle, Bool.or_eq_true, decide_eq_true_eq]
  exact .inr due

theorem not_idle_of_busy
    {cpu : Cpu} {time : Int} {c : CoroId}
    (holds : cpu.coro = some c)
    (busy : time < cpu.due) :
    cpu.idle time = false := by
  rw [Cpu.idle, holds, Bool.or_eq_false_iff, decide_eq_false_iff_not]
  exact ⟨rfl, not_le.mpr busy⟩

/-- An instruction that changes which coroutines are left takes time. -/
theorem corosAfter_eq_or_lasts (s : Sim σ) (task : Op) :
    s.corosAfter task = s.coros ∨ 0 < task.duration := by
  cases task with
  | spawn spawned => exact .inr Int.one_pos
  | terminate killed => exact .inr Int.one_pos
  | _ => exact .inl rfl

/-- A CPU that burns does so while others are started. -/
theorem burns_of_passes
    {pairs : List (CpuId × CoroId)} {k : CpuId}
    (passes : pairs.foldlM (Sim.dispatch program) s = .ok executed)
    (burns : (s.cpu k).idle s.now = false) :
    (executed.cpu k).idle executed.now = false := by
  obtain ⟨same, sameNow, _⟩ :=
    cpu_of_passes passes (busy_of_not_idle burns).1
  rw [same, sameNow]
  exact burns

/-- A CPU that starts an instruction that takes time burns. -/
theorem burns_of_dispatch
    {pair : CpuId × CoroId} {task : Op} {u : Sim σ}
    (dispatches : s.dispatch program pair = .ok s')
    (pops : s.popInstruction program pair.2 = .ok (task, u))
    (lasts : 0 < task.duration) :
    (s'.cpu pair.1).idle s'.now = false := by
  obtain ⟨event, _, _, atTime, _, ⟨u', pops'⟩, _, sameNow, _, _, _, due,
    taken⟩ := cpu_of_dispatch dispatches
  have isTask : event.task = task :=
    (Prod.mk.inj (Except.ok.inj (pops'.symm.trans pops))).1
  apply not_idle_of_busy taken
  rw [due, Event.ends, atTime, sameNow, isTask]
  exact lt_add_of_pos_right _ lasts

/-- The coroutines that are left change only if a CPU burns. -/
theorem coros_of_passes
    {t : Sim σ} {pairs : List (CpuId × CoroId)}
    (passes : pairs.foldlM (Sim.dispatch program) t = .ok executed)
    (own : ∀ pair ∈ pairs, pair.1 ∈ t.cpus) :
    executed.coros = t.coros ∨
      ∃ k ∈ t.cpus, (executed.cpu k).idle executed.now = false := by
  have passed :=
    @Passes.passed _ _ _ _ _ _ _
      (fun _ (u : Sim σ) => u.coros = t.coros ∨
        ∃ k ∈ t.cpus, (u.cpu k).idle u.now = false) passes
  apply passed (.inl rfl)
  intro before pair after u next parts progress dispatches
  obtain ⟨task, _, pops, dispatched⟩ := dispatched_of_dispatch dispatches
  rcases progress with same | ⟨k, ownCpu, burns⟩
  · rcases corosAfter_eq_or_lasts u task with sameAfter | lasts
    · exact .inl (dispatched.coros.trans (sameAfter.trans same))
    · refine .inr ⟨pair.1, ?_, burns_of_dispatch dispatches pops lasts⟩
      apply own
      rw [parts]
      exact List.mem_append_right _ List.mem_cons_self
  · right
    have single : [pair].foldlM (Sim.dispatch program) u = .ok next := by
      rw [List.foldlM_cons, Passes.bind_of_ok dispatches]
      rfl
    exact ⟨k, ownCpu, burns_of_passes single burns⟩

/-- The CPUs of a simulation stay the same. -/
theorem cpus_of_passes
    {t : Sim σ} {pairs : List (CpuId × CoroId)}
    (passes : pairs.foldlM (Sim.dispatch program) t = .ok executed) :
    executed.cpus = t.cpus ∧ executed.now = t.now := by
  have passed :=
    @Passes.invariant _ _ _ _ _ _ _
      (fun u : Sim σ => u.cpus = t.cpus ∧ u.now = t.now) passes
  apply passed ⟨rfl, rfl⟩
  rintro u pair next ⟨same, sameNow⟩ dispatches
  obtain ⟨_, _, _, _, _, _, _, nextNow, nextNcpu, _⟩ :=
    cpu_of_dispatch dispatches
  refine ⟨?_, nextNow.trans sameNow⟩
  rw [Sim.cpus, nextNcpu]
  exact same

/-- A program ends only where no coroutine was left at the beginning. -/
theorem empty_of_ended
    {t : Sim σ}
    (passes :
      (dumbMap t).schedule.foldlM (Sim.dispatch program) t = .ok executed)
    (ended : executed.ended = true) :
    t.coros = [] := by
  rw [Sim.ended, Bool.and_eq_true, List.all_eq_true,
    List.isEmpty_iff] at ended
  rcases coros_of_passes passes
    (fun _ mapped => (of_mem_dumbMap mapped).1.1) with same | ⟨k, own, burns⟩
  · exact same.symm.trans ended.2
  · rw [← (cpus_of_passes passes).1] at own
    cases burns.symm.trans (ended.1 k own)

/-- A CPU to which nothing is dispatched stays as it is. -/
theorem cpu_of_unmapped
    {t : Sim σ} {pairs : List (CpuId × CoroId)} {k : CpuId}
    (passes : pairs.foldlM (Sim.dispatch program) t = .ok executed)
    (unmapped : k ∉ pairs.map Prod.fst) :
    executed.cpu k = t.cpu k := by
  have passed :=
    @Passes.passed _ _ _ _ _ _ _
      (fun _ (u : Sim σ) => u.cpu k = t.cpu k) passes
  apply passed rfl
  intro before pair after u next parts same dispatches
  obtain ⟨_, _, _, _, _, _, _, _, _, _, others, _⟩ :=
    cpu_of_dispatch dispatches
  rw [others k, same]
  rintro rfl
  apply unmapped
  rw [parts, List.map_append, List.map_cons]
  exact List.mem_append_right _ List.mem_cons_self

/-- A CPU is idle when it is mapped exactly if it holds no coroutine. -/
theorem free_of_idle
    {k : CpuId}
    (own : k ∈ s.cpus)
    (idle : (s.mapping.cpu k).idle s.mapping.now = true) :
    (s.mapping.cpu k).coro = none := by
  by_contra holds
  have busy := busy_of_mapping own holds
  rw [← show s.mapping.now = s.now from
    congrArg Clock.now (clock_mapping s)] at busy
  obtain ⟨c, held⟩ := Option.ne_none_iff_exists'.mp holds
  cases (not_idle_of_busy held busy).symm.trans idle

/-- The CPUs of a simulation that are mapped. -/
theorem cpus_mapping (s : Sim σ) :
    s.mapping.cpus = s.cpus := by
  rw [Sim.cpus, Sim.cpus, show s.mapping.ncpu = s.ncpu from
    congrArg Clock.ncpu (clock_mapping s)]

/-- A round of a simulation succeeds if what is dispatched is permitted. -/
theorem passes_of_permitted
    (permitted :
      ∀ pair u, ComesUp program s.mapping pair u →
        (u.coroutine pair.2).suspended = false ∧
          ∃ task, u.upcoming program pair.2 = some task ∧
            u.Allows pair.2 task) :
    ∃ executed,
      (dumbMap s.mapping).schedule.foldlM (Sim.dispatch program) s.mapping =
        .ok executed := by
  apply Passes.succeeds
  intro before pair after u parts passes
  obtain ⟨awake, task, upcoming, allows⟩ :=
    permitted pair u ⟨before, after, parts, passes⟩
  apply dispatch_succeeds awake upcoming allows
  have mapped : pair ∈ (dumbMap s.mapping).schedule := by
    rw [parts]
    exact List.mem_append_right _ List.mem_cons_self
  obtain ⟨⟨own, idle⟩, _⟩ := of_mem_dumbMap mapped
  rw [cpus_mapping] at own
  have once := nodup_dumbMap (s := s.mapping)
  rw [parts, List.map_append, List.map_cons] at once
  rw [cpu_of_unmapped passes]
  · exact free_of_idle own idle
  · intro earlier
    exact List.disjoint_of_nodup_append once earlier List.mem_cons_self

/-- A round that is timely leaves a CPU burning, or ends the program. -/
theorem burns_of_timely
    {t : Sim σ}
    (timely :
      t.coros ≠ [] →
        (∃ k ∈ t.cpus, (t.cpu k).burning t.now = true) ∨
          ∃ pair u task, ComesUp program t pair u ∧
            u.upcoming program pair.2 = some task ∧ 0 < task.duration)
    (passes :
      (dumbMap t).schedule.foldlM (Sim.dispatch program) t = .ok executed)
    (goesOn : executed.ended = false) :
    ∃ k ∈ t.cpus, (executed.cpu k).idle executed.now = false := by
  by_cases empty : t.coros = []
  · rw [dumbMap_of_empty empty] at passes
    cases passes
    rw [Sim.ended, empty, List.isEmpty_nil, Bool.and_true,
      List.all_eq_false] at goesOn
    obtain ⟨k, own, burns⟩ := goesOn
    exact ⟨k, own, Bool.eq_false_iff.mpr burns⟩
  rcases timely empty with
    ⟨k, own, burns⟩ | ⟨pair, u, task, ⟨before, after, parts, comes⟩,
      upcoming, lasts⟩
  · rw [Cpu.burning, Bool.not_eq_true'] at burns
    exact ⟨k, own, burns_of_passes passes burns⟩
  · obtain ⟨u', next, comes', dispatches, rest⟩ :=
      Passes.step_of_succeeds passes parts
    cases comes.symm.trans comes'
    obtain ⟨task', _, pops, dispatched⟩ := dispatched_of_dispatch dispatches
    cases upcoming.symm.trans dispatched.upcoming
    refine ⟨pair.1, ?_, burns_of_passes rest
      (burns_of_dispatch dispatches pops lasts)⟩
    apply (of_mem_dumbMap _).1.1
    rw [parts]
    exact List.mem_append_right _ List.mem_cons_self

/-- What a round that is sustained leads to. -/
theorem Sustained.round
    (sustained : Sustained program s.mapping) :
    (∃ stat, Sim.round program dumbMap s = .ok (.stop stat)) ∨
      ∃ s', Goes (Sim.round program dumbMap) s s' := by
  obtain ⟨executed, passes⟩ := passes_of_permitted sustained.permitted
  have executes := executeMapped_dumbMap.trans passes
  have proceeds : Sim.round program dumbMap s = executed.proceed :=
    Passes.bind_of_ok executes
  by_cases ended : executed.ended = true
  · left
    refine ⟨executed.stat, ?_⟩
    rw [proceeds, Sim.proceed, if_pos ended]
  · right
    obtain ⟨k, own, burns⟩ := burns_of_timely sustained.timely passes
      (Bool.eq_false_iff.mpr ended)
    rw [← (cpus_of_passes passes).1] at own
    obtain ⟨nextnow, nearest⟩ :=
      exists_nextNow own (busy_of_not_idle burns).2
    refine ⟨executed.advance nextnow, ?_⟩
    rw [Goes, proceeds, Sim.proceed, if_neg ended, nearest]

/-- A round that stops has ended the program. -/
theorem ended_of_stop
    {stat : Stat}
    (stops : Sim.round program dumbMap s = .ok (.stop stat)) :
    s.mapping.executeMapped program (dumbMap s.mapping) = .ok s.mapping ∧
      s.mapping.coros = [] ∧ s.mapping.ended = true ∧
      stat = s.mapping.stat := by
  obtain ⟨executed, executes, proceeds⟩ := Passes.of_bind stops
  have passes := executeMapped_dumbMap.symm.trans executes
  unfold Sim.proceed at proceeds
  split at proceeds
  next ended =>
    have empty := empty_of_ended passes ended
    rw [dumbMap_of_empty empty] at passes
    cases passes
    cases proceeds
    exact ⟨executes, empty, ended, rfl⟩
  next =>
    split at proceeds
    · cases proceeds
    · cases proceeds

/-- A CPU that is busy after a round was so, or was started in it. -/
theorem busy_or_started
    {t : Sim σ} {k : CpuId}
    (balanced : Balanced t.clock)
    (passes :
      (dumbMap t).schedule.foldlM (Sim.dispatch program) t = .ok executed)
    (own : k ∈ t.cpus)
    (busy : t.now < (executed.cpu k).due) :
    (∃ k ∈ t.cpus, (t.cpu k).burning t.now = true) ∨
      ∃ pair u task, ComesUp program t pair u ∧
        u.upcoming program pair.2 = some task ∧ 0 < task.duration := by
  by_cases mapped : k ∈ (dumbMap t).schedule.map Prod.fst
  · right
    obtain ⟨pair, member, rfl⟩ := List.mem_map.mp mapped
    obtain ⟨before, after, parts⟩ := List.append_of_mem member
    obtain ⟨u, next, comes, dispatches, rest⟩ :=
      Passes.step_of_succeeds passes parts
    obtain ⟨task, _, pops, dispatched⟩ := dispatched_of_dispatch dispatches
    obtain ⟨event, _, _, atTime, _, ⟨_, pops'⟩, _, _, _, _, _, due, taken⟩ :=
      cpu_of_dispatch dispatches
    have isTask : event.task = task :=
      (Prod.mk.inj (Except.ok.inj (pops'.symm.trans pops))).1
    refine ⟨pair, u, task, ⟨before, after, parts, comes⟩,
      dispatched.upcoming, ?_⟩
    have holds : (next.cpu pair.1).coro ≠ none := by
      rw [taken]
      exact Option.some_ne_none _
    rw [(cpu_of_passes rest holds).1, due, Event.ends, atTime, isTask,
      (cpus_of_passes comes).2] at busy
    exact (lt_add_iff_pos_right _).mp busy
  · left
    rw [cpu_of_unmapped passes mapped] at busy
    refine ⟨k, own, ?_⟩
    rw [Cpu.burning, Bool.not_eq_true']
    cases holds : (t.cpu k).coro with
    | none =>
        have zero : (t.cpu k).due = 0 := balanced.freeDue k holds
        rw [zero] at busy
        exact absurd balanced.nonneg (not_le.mpr busy)
    | some c =>
        exact not_idle_of_busy holds busy

/-- A round that does not fail was permitted and timely. -/
theorem permitted_and_timely_of_round
    {outcome : Outcome (Sim σ) Stat}
    (running : Running program s)
    (succeeds : Sim.round program dumbMap s = .ok outcome) :
    (∀ pair u, ComesUp program s.mapping pair u →
      (u.coroutine pair.2).suspended = false ∧
        ∃ task, u.upcoming program pair.2 = some task ∧
          u.Allows pair.2 task) ∧
      (s.mapping.coros ≠ [] →
        (∃ k ∈ s.mapping.cpus,
          (s.mapping.cpu k).burning s.mapping.now = true) ∨
          ∃ pair u task, ComesUp program s.mapping pair u ∧
            u.upcoming program pair.2 = some task ∧ 0 < task.duration) := by
  obtain ⟨executed, executes, proceeds⟩ := Passes.of_bind succeeds
  have passes := executeMapped_dumbMap.symm.trans executes
  constructor
  · rintro pair u ⟨before, after, parts, comes⟩
    obtain ⟨u', next, comes', dispatches, _⟩ :=
      Passes.step_of_succeeds passes parts
    cases comes.symm.trans comes'
    obtain ⟨task, _, _, dispatched⟩ := dispatched_of_dispatch dispatches
    exact ⟨dispatched.awake, task, dispatched.upcoming, dispatched.allowed⟩
  · intro left
    have goesOn : executed.ended = false := by
      rw [Bool.eq_false_iff]
      intro ended
      exact left (empty_of_ended passes ended)
    unfold Sim.proceed at proceeds
    rw [goesOn, if_neg Bool.false_ne_true] at proceeds
    split at proceeds
    next nextnow nearest =>
      obtain ⟨later, k, own, due⟩ := mem_of_nextNow nearest
      rw [(cpus_of_passes passes).1] at own
      rw [← due, (cpus_of_passes passes).2] at later
      exact busy_or_started running.mapping.balanced passes own later
    next =>
      cases proceeds

/-- A CPU that is idle when it is mapped is not due later. -/
theorem due_of_idle
    {k : CpuId}
    (running : Running program s)
    (own : k ∈ s.cpus)
    (idle : (s.mapping.cpu k).idle s.mapping.now = true) :
    (s.mapping.cpu k).due ≤ s.mapping.now := by
  have balanced := running.mapping.balanced
  rw [show (s.mapping.cpu k).due = 0 from
    balanced.freeDue k (free_of_idle own idle)]
  exact balanced.nonneg

/-- Every round that is sustained leaves less to do. -/
theorem less_of_goes
    (kept : Kept program s)
    (sustained : Sustained program s.mapping)
    (goes : Goes (Sim.round program dumbMap) s s') :
    Prod.Lex (Relation.TransGen (Less program)) (· < ·)
      (s'.plan.work, s'.busyTime) (s.plan.work, s.busyTime) := by
  obtain ⟨executed, nextnow, passes, goesOn, nearest, rfl⟩ :=
    passes_of_goes goes
  obtain ⟨_, less | ⟨stalled, retries⟩⟩ :=
    less_or_stalled (putBack_of_plan (plan_mapping s) kept.running.putBack)
      (fun pair mapped => (of_mem_dumbMap mapped).2.1) passes
  · rw [plan_mapping] at less
    exact .left _ _ less
  · have busy :
        ∃ k ∈ s.mapping.cpus, s.mapping.now < (s.mapping.cpu k).due := by
      by_cases nothing : (dumbMap s.mapping).schedule = []
      · obtain ⟨k, own, burns⟩ :=
          burns_of_timely sustained.timely passes goesOn
        rw [nothing] at passes
        cases passes
        exact ⟨k, own, (busy_of_not_idle burns).2⟩
      · have burning : ¬ ∀ k ∈ s.mapping.cpus,
            (s.mapping.cpu k).idle s.mapping.now = true := by
          intro idle
          exact sustained.notSpinning ⟨nothing, idle, retries⟩
        push Not at burning
        obtain ⟨k, own, burns⟩ := burning
        exact ⟨k, own, (busy_of_not_idle (Bool.eq_false_iff.mpr burns)).2⟩
    have nearer := stalled.busyTime_lt nearest busy (by
      intro pair mapped
      obtain ⟨⟨own, idle⟩, _⟩ := of_mem_dumbMap mapped
      rw [cpus_mapping] at own
      exact due_of_idle kept.running own idle)
    rw [busyTime_mapping kept.running.balanced] at nearer
    have same : (executed.advance nextnow).plan.work = s.plan.work :=
      congrArg Plan.work (stalled.plan.trans (plan_mapping s))
    rw [same]
    exact .right _ nearer

/-- A coroutine is held by no CPU where all are idle. -/
theorem cpu_none_of_idle
    (running : Running program s)
    (idle : ∀ k ∈ s.mapping.cpus,
      (s.mapping.cpu k).idle s.mapping.now = true)
    (c : CoroId) :
    (s.mapping.coroutine c).cpu = none := by
  by_contra runs
  obtain ⟨k, runs⟩ := Option.ne_none_iff_exists'.mp runs
  obtain ⟨own, held⟩ := running.mapping.holding c k runs
  have member : k ∈ s.mapping.cpus := List.mem_range.mpr own
  have free := free_of_idle (cpus_mapping s ▸ member) (idle k member)
  cases held.symm.trans free

/-- CPUs that are due have been cleared when they are mapped. -/
theorem idle_mapping
    {k : CpuId}
    (running : Running program s)
    (due : (s.cpu k).due ≤ s.now) :
    (s.mapping.cpu k).idle s.mapping.now = true := by
  apply idle_of_due
  rw [show s.mapping.now = s.now from
    congrArg Clock.now (clock_mapping s), cpu_mapping]
  split
  next own =>
    cases held : (s.cpu k).coro with
    | none =>
        rw [finalized_of_free held]
        exact due
    | some c =>
        rw [finalized_of_completed held due]
        exact running.balanced.nonneg
  next =>
    exact due

end Rounds

section Spinning

variable {σ : Type} {program : Program σ} {s s' executed : Sim σ}
variable {nextnow : Int} {events : List Event}

/--
Locks that fail again, of coroutines that are not suspended, suspend nobody:
the coroutines have waited before, for a mutex that has been unlocked.
-/
theorem suspended_of_retries
    (kept : Kept program s)
    (settled : Settled s'.mutexView)
    (told : s'.history = s.history ++ events)
    (locks : ∀ event ∈ events, ∃ m, event.task = .lock m)
    (retries :
      ∀ event ∈ events,
        (s.coroutine event.coro).head ≠ none ∧
          (s.mapping.coroutine event.coro).suspended = false)
    (c : CoroId) :
    (s'.mapping.coroutine c).suspended = (s.mapping.coroutine c).suspended := by
  have sameUnlocked : ∀ m, Unlocked s'.history m ↔ Unlocked s.history m := by
    intro m
    rw [told, unlocked_append]
    apply or_iff_left
    rintro ⟨event, member, unlocks⟩
    obtain ⟨m', isLock⟩ := locks event member
    exact not_unlocks_of_lock isLock unlocks
  have grows : ∀ m, Waited s.history c m → Waited s'.history c m := by
    intro m waited
    rw [told, waited_append]
    exact .inl waited
  rw [Bool.eq_iff_iff, settled.suspended_iff, kept.settled.suspended_iff]
  by_cases retried : ∃ event ∈ events, event.coro = c
  · obtain ⟨event, member, rfl⟩ := retried
    obtain ⟨head, awake⟩ := retries event member
    obtain ⟨m, waited⟩ := kept.running.waited event.coro head
    have resumed : ¬ ∀ m, Waited s.history event.coro m →
        ¬ Unlocked s.history m := by
      intro noneUnlocked
      have suspended :=
        kept.settled.suspended_iff.mpr ⟨⟨m, waited⟩, noneUnlocked⟩
      cases awake.symm.trans suspended
    constructor
    · rintro ⟨_, noneUnlocked⟩
      apply absurd _ resumed
      intro m waited unlocked
      exact noneUnlocked m (grows m waited) ((sameUnlocked m).mpr unlocked)
    · rintro ⟨_, noneUnlocked⟩
      exact absurd noneUnlocked resumed
  · have sameWaited : ∀ m, Waited s'.history c m ↔ Waited s.history c m := by
      intro m
      rw [told, waited_append]
      apply or_iff_left
      rintro ⟨event, member, waits⟩
      exact retried ⟨event, member, waits.1⟩
    simp only [sameWaited, sameUnlocked]

/-- Coroutines that are mapped are ready; those that retry have waited. -/
theorem retried_of_scheduled
    (retries : ∀ pair ∈ (dumbMap s.mapping).schedule,
      Retries s.mapping pair.2)
    (coros : events.map Event.coro = scheduled (dumbMap s.mapping)) :
    ∀ event ∈ events,
      (s.coroutine event.coro).head ≠ none ∧
        (s.mapping.coroutine event.coro).suspended = false := by
  intro event member
  have isMapped : event.coro ∈ scheduled (dumbMap s.mapping) := by
    rw [← coros]
    exact List.mem_map_of_mem member
  rw [scheduled, insertionSort_dumbMap] at isMapped
  obtain ⟨pair, mapped, isCoroutine⟩ := List.mem_map.mp isMapped
  rw [← isCoroutine]
  constructor
  · obtain ⟨m, head, _⟩ := retries pair mapped
    rw [← show (s.mapping.coroutine pair.2).head = (s.coroutine pair.2).head
      from congrFun (congrArg Plan.head (plan_mapping s)) pair.2, head]
    exact Option.some_ne_none _
  · have ready := (of_mem_dumbMap mapped).2.2
    rw [Coroutine.ready, Bool.and_eq_true, Bool.not_eq_true'] at ready
    exact ready.1

/-- What is mapped depends on which CPUs are idle and coroutines ready. -/
theorem schedule_of_same
    {t u : Sim σ}
    (cpus : u.cpus = t.cpus)
    (idle : ∀ k ∈ t.cpus, (t.cpu k).idle t.now = true)
    (idle' : ∀ k ∈ t.cpus, (u.cpu k).idle u.now = true)
    (coros : u.coros = t.coros)
    (ready : ∀ c, (u.coroutine c).ready = (t.coroutine c).ready) :
    (dumbMap u).schedule = (dumbMap t).schedule := by
  unfold dumbMap
  dsimp only
  rw [cpus, coros, List.filter_eq_self.mpr idle, List.filter_eq_self.mpr idle']
  simp only [ready]

/-- CPUs that spin go on spinning, unless a round fails. -/
theorem Spinning.round
    {outcome : Outcome (Sim σ) Stat}
    (kept : Kept program s)
    (spinning : Spinning s.mapping)
    (succeeds : Sim.round program dumbMap s = .ok outcome) :
    ∃ s', outcome = .next s' ∧ Spinning s'.mapping := by
  obtain ⟨mapped, idle, retries⟩ := spinning
  cases outcome with
  | stop stat =>
      exact absurd (dumbMap_of_empty (ended_of_stop succeeds).2.1) mapped
  | next s' =>
      refine ⟨s', rfl, ?_⟩
      have kept' := (kept.goes succeeds).1
      obtain ⟨settled, events, told, coros⟩ := kept.settled.goes succeeds
      obtain ⟨executed, nextnow, passes, _, nearest, rfl⟩ :=
        passes_of_goes succeeds
      have stalled := stalled_of_retries passes retries
      have later := (mem_of_nextNow nearest).1
      rw [stalled.now] at later
      have sameCpus : executed.cpus = s.mapping.cpus :=
        (cpus_of_passes passes).1
      have due : ∀ k ∈ s.mapping.cpus, (executed.cpu k).due ≤ nextnow := by
        intro k own
        rw [stalled.dues k]
        split
        · exact later
        · rw [cpus_mapping] at own
          exact (due_of_idle kept.running own
            (idle k (cpus_mapping s ▸ own))).trans later.le
      have sameCpus' :
          (executed.advance nextnow).mapping.cpus = s.mapping.cpus :=
        (cpus_mapping _).trans sameCpus
      have idle' : ∀ k ∈ s.mapping.cpus,
          ((executed.advance nextnow).mapping.cpu k).idle
            (executed.advance nextnow).mapping.now = true :=
        fun k own => idle_mapping kept'.running (due k own)
      have samePlan :
          (executed.advance nextnow).mapping.plan = s.mapping.plan :=
        (plan_mapping _).trans stalled.plan
      obtain ⟨events', told', locks⟩ := stalled.told
      have sameEvents : events' = events := by
        apply @List.append_cancel_left _ s.history
        rw [← told]
        exact (told'.trans (congrArg (· ++ events')
          (congrArg Clock.history (clock_mapping s)))).symm
      have suspended := suspended_of_retries kept settled told
        (sameEvents ▸ locks) (retried_of_scheduled retries coros)
      have ready : ∀ c,
          ((executed.advance nextnow).mapping.coroutine c).ready =
            (s.mapping.coroutine c).ready := by
        intro c
        rw [Coroutine.ready, Coroutine.ready, suspended c,
          cpu_none_of_idle kept.running idle c,
          cpu_none_of_idle kept'.running
            (fun k own => idle' k (sameCpus' ▸ own)) c]
      have sameSchedule := schedule_of_same sameCpus' idle idle'
        (congrArg Plan.coros samePlan) ready
      refine ⟨?_, fun k own => idle' k (sameCpus' ▸ own), ?_⟩
      · rw [sameSchedule]
        exact mapped
      · intro pair isMapped
        rw [sameSchedule] at isMapped
        exact (retries_of_plan samePlan).mpr (retries pair isMapped)

end Spinning

section Accounting

variable {σ : Type} {program : Program σ} {s : Sim σ}
variable {main : CoroId} {ncpu : Nat} {vars : σ}

/-- Where a program has ended, no CPU is busy. -/
theorem due_of_ended
    {t : Sim σ} {k : CpuId}
    (balanced : Balanced t.clock)
    (ended : t.ended = true)
    (own : k < t.ncpu) :
    (t.cpu k).due ≤ t.now := by
  rw [Sim.ended, Bool.and_eq_true, List.all_eq_true] at ended
  have idle := ended.1 k (List.mem_range.mpr own)
  rw [Cpu.idle, Bool.or_eq_true, Option.isNone_iff_eq_none,
    decide_eq_true_eq] at idle
  rcases idle with free | due
  · exact (balanced.freeDue k free).trans_le balanced.nonneg
  · exact due

/-- Where a simulation ends, its time is accounted for. -/
theorem Reached.accountsTime
    {stat : Stat}
    (nonNegative : program.NonNegative vars)
    (reached : Reached program dumbMap main ncpu vars s)
    (stops : Sim.round program dumbMap s = .ok (.stop stat)) :
    AccountsTime program dumbMap main ncpu vars := by
  obtain ⟨kept, sameNcpu⟩ := Reached.kept nonNegative reached
  obtain ⟨executes, empty, ended, rfl⟩ := ended_of_stop stops
  obtain ⟨fuel, returns⟩ :
      ∃ fuel, runProgram program dumbMap main ncpu vars fuel =
        .ok s.mapping.stat :=
    iterate_of_comes reached stops
  have balanced := kept.running.mapping.balanced
  have due := fun k => due_of_ended (k := k) balanced ended
  have sameHistory : s.mapping.history = s.history :=
    congrArg Clock.history (clock_mapping s)
  have sameNow : s.mapping.now = s.now :=
    congrArg Clock.now (clock_mapping s)
  have mappedNcpu : s.mapping.ncpu = ncpu :=
    (congrArg Clock.ncpu (clock_mapping s)).trans sameNcpu
  refine ⟨fuel, s.mapping.stat, s.mapping, returns,
    ⟨s, reached, executes, ended⟩, ?_, ?_, ?_, ?_⟩
  · intro event member
    rcases balanced.endsOrRuns event member with past | ⟨k, own, isDue, _⟩
    · exact past
    · rw [← isDue]
      exact due k own
  · rcases kept.begins with left | ⟨event, member, ends⟩
    · exact absurd ((congrArg Plan.coros (plan_mapping s)).symm.trans empty)
        left
    · refine ⟨event, ?_, ?_⟩
      · rw [sameHistory]
        exact member
      · exact ends.trans sameNow.symm
  · rw [Sim.stat, mappedNcpu]
  · have balance := balanced.balance
    have none : ∑ k ∈ Finset.range s.mapping.ncpu,
        (s.mapping.cpu k).remaining s.mapping.now = 0 := by
      apply Finset.sum_eq_zero
      intro k member
      exact remaining_of_due (due k (Finset.mem_range.mp member))
    exact (balance.trans ((congrArg _ none).trans (add_zero _))).symm

/-- A simulation that is sustained comes to its end. -/
theorem stops_of_sustained
    (nonNegative : program.NonNegative vars)
    (ends : program.Ends vars)
    (sustained :
      ∀ s, Reached program dumbMap main ncpu vars s →
        Sustained program s.mapping) :
    ∃ last stat, Reached program dumbMap main ncpu vars last ∧
      Sim.round program dumbMap last = .ok (.stop stat) := by
  have accessible :
      ∀ work : σ × Nat × Nat, work.1 = vars → ∀ busy : Nat,
        Acc (Prod.Lex (Relation.TransGen (Less program)) (· < ·))
          (work, busy) := by
    rintro ⟨_, counts⟩ rfl busy
    apply Prod.lexAccessible _ fun _ => wellFounded_lt.apply _
    apply Acc.transGen
    apply Prod.lexAccessible ends
    intro counts
    exact (Prod.instWellFoundedRelation).wf.apply counts
  have comes :
      ∃ last, Reached program dumbMap main ncpu vars last ∧
        ∃ stat, Sim.round program dumbMap last = .ok (.stop stat) := by
    apply reaches_of_accessible
      (fun s : Sim σ => (s.plan.work, s.busyTime))
      (accessible (Sim.start main ncpu vars).plan.work rfl _)
    intro s reached
    have kept := (Reached.kept nonNegative reached).1
    rcases (sustained s reached).round with stops | ⟨s', goes⟩
    · exact .inl stops
    · exact .inr ⟨s', goes, less_of_goes kept (sustained s reached) goes⟩
  obtain ⟨last, reached, stat, stops⟩ := comes
  exact ⟨last, stat, reached, stops⟩

end Accounting

/--
For every program that ends and whose instructions take no negative time, and
for every number of CPUs: `run_program` with `DumbScheduler` ends without an
exception, at the time at which the last instruction does, and its CPU times
account for all instructions, exactly if at every scheduling point no mapped
coroutine misuses an instruction, a CPU is busy or an instruction that takes
time is started while coroutines are left, and the CPUs are not all given to
coroutines that retry locks on mutexes that are still held.
-/
theorem accountsTime_iff_sustained
    {σ : Type} (program : Program σ) (main : CoroId) (ncpu : Nat) (vars : σ)
    (nonNegative : program.NonNegative vars)
    (ends : program.Ends vars) :
    AccountsTime program dumbMap main ncpu vars ↔
      ∀ s, Reached program dumbMap main ncpu vars s →
        Sustained program s.mapping := by
  constructor
  · rintro ⟨fuel, stat, _, returns, _⟩ s reached
    obtain ⟨last, comesLast, stops⟩ := stop_of_iterate returns
    have comes := comes_last reached comesLast stops
    have kept := (Reached.kept nonNegative reached).1
    have succeeds :
        ∃ outcome, Sim.round program dumbMap s = .ok outcome := by
      rcases Relation.ReflTransGen.cases_head comes with
        rfl | ⟨next, goes, _⟩
      · exact ⟨_, stops⟩
      · exact ⟨_, goes⟩
    obtain ⟨outcome, succeeds⟩ := succeeds
    obtain ⟨permitted, timely⟩ :=
      permitted_and_timely_of_round kept.running succeeds
    refine ⟨permitted, timely, ?_⟩
    -- CPUs that spin would still do so in the round that stops.
    intro spinning
    have spinsOn : Kept program last ∧ Spinning last.mapping := by
      apply @invariant _ _ _ _ _ _
        (fun s : Sim σ => Kept program s ∧ Spinning s.mapping) comes
      · exact ⟨kept, spinning⟩
      · rintro state next ⟨kept, spinning⟩ goes
        obtain ⟨next', isNext, spins⟩ := spinning.round kept goes
        cases isNext
        exact ⟨(kept.goes goes).1, spins⟩
    obtain ⟨next, isNext, _⟩ := spinsOn.2.round spinsOn.1 stops
    cases isNext
  · intro sustained
    obtain ⟨last, stat, reached, stops⟩ :=
      stops_of_sustained nonNegative ends sustained
    exact Reached.accountsTime nonNegative reached stops

/-- Two coroutines that lock two mutexes, and one that holds the second. -/
def starved : CoroId → List Op
  | 0 => [.spawn 1, .spawn 2, .cpu 1, .lock 0, .cpu 3, .unlock 0, .cpu 1,
      .lock 1, .unlock 1]
  | 1 => [.lock 0, .cpu 3, .unlock 0, .lock 0, .unlock 0, .lock 1, .unlock 1]
  | 2 => [.lock 1, .cpu 1, .cpu 1, .cpu 1, .cpu 1, .unlock 1]
  | _ => []

-- Both CPUs spin, while the coroutine that holds the mutex stays ready.
example :
    (rounds (Sim.round listed dumbMap) 13 (.start 0 2 starved)).map (fun s =>
      ((dumbMap s.mapping).schedule, (s.mapping.coroutine 0).head,
        (s.mapping.coroutine 1).head, (s.mapping.mutex 1).acquiredBy,
        (s.mapping.coroutine 2).ready)) =
      some ([(0, 0), (1, 1)], some (.lock 1), some (.lock 1), some 2, true) :=
  by rfl

/-- Every coroutine that is left waits for a mutex, and no CPU is busy. -/
def Deadlocked {σ : Type} (t : Sim σ) : Prop :=
  t.coros ≠ [] ∧ (∀ k ∈ t.cpus, (t.cpu k).idle t.now = true) ∧
    ∀ c ∈ t.coros, (t.coroutine c).suspended = true

section Listed

variable {lists later : CoroId → List Op}

/-- What follows in the lists of a program was in them before. -/
theorem mem_of_follows
    (follows :
      Relation.ReflTransGen (fun now next => listed.Fetches next now)
        lists later)
    {c : CoroId} {task : Op}
    (member : task ∈ later c) :
    task ∈ lists c := by
  induction follows with
  | refl =>
      exact member
  | @tail now next _ fetches inductionHypothesis =>
      apply inductionHypothesis
      obtain ⟨d, taken, run⟩ := fetches
      unfold listed at run
      dsimp only at run
      split at run
      next =>
        cases run
      next first rest isCons =>
        cases run
        by_cases isCoroutine : c = d
        · subst isCoroutine
          rw [Function.update_self] at member
          rw [isCons]
          exact List.mem_cons_of_mem _ member
        · rw [Function.update_of_ne isCoroutine] at member
          exact member

theorem nonNegative_listed
    (lasts : ∀ c, ∀ task ∈ lists c, 0 ≤ task.duration) :
    listed.NonNegative lists := by
  intro later follows c task vars' run
  apply lasts c
  apply mem_of_follows follows
  unfold listed at run
  dsimp only at run
  split at run
  next =>
    cases run
  next first rest isCons =>
    cases run
    rw [isCons]
    exact List.mem_cons_self

/-- A program with finitely many lists that are not empty ends. -/
theorem ends_listed
    {bound : Nat}
    (finite : ∀ c, bound ≤ c → lists c = []) :
    listed.Ends lists := by
  induction size : ∑ c ∈ Finset.range bound, (lists c).length
      using Nat.strong_induction_on generalizing lists with
  | _ size inductionHypothesis =>
      constructor
      rintro next ⟨c, task, run⟩
      unfold listed at run
      dsimp only at run
      split at run
      next =>
        cases run
      next first rest isCons =>
        cases run
        have inBound : c < bound := by
          by_contra outside
          rw [finite c (not_lt.mp outside)] at isCons
          cases isCons
        have others : ∀ d, d ≠ c →
            Function.update lists c rest d = lists d :=
          fun d other => Function.update_of_ne other _ _
        apply inductionHypothesis _ _ _ rfl
        · rw [← size]
          apply Finset.sum_lt_sum
          · intro d _
            by_cases isCoroutine : d = c
            · subst isCoroutine
              rw [Function.update_self, isCons]
              exact Nat.le_succ _
            · rw [others d isCoroutine]
          · refine ⟨c, Finset.mem_range.mpr inBound, ?_⟩
            rw [Function.update_self, isCons]
            exact Nat.lt_succ_self _
        · intro d outside
          rw [others d (Nat.ne_of_gt (inBound.trans_le outside))]
          exact finite d outside

end Listed

/-- A program that yields one instruction, which takes no time. -/
def instant : CoroId → List Op
  | 0 => [.cpu 0]
  | _ => []

theorem lasts_instant (c : CoroId) :
    ∀ task ∈ instant c, 0 ≤ task.duration := by
  intro task member
  unfold instant at member
  split at member
  · rw [List.mem_singleton.mp member]
    exact le_rfl
  · cases member

theorem finite_instant (c : CoroId) (outside : 1 ≤ c) : instant c = [] := by
  unfold instant
  split
  · cases outside
  · rfl

/-- On one CPU the simulation of this program fails in its first round. -/
theorem instant_fails :
    ¬ ∀ (σ : Type) (program : Program σ) (main : CoroId) (ncpu : Nat)
        (vars : σ),
        program.NonNegative vars → program.Ends vars → 1 ≤ ncpu →
        (∀ s, Reached program dumbMap main ncpu vars s →
          ¬ Deadlocked s.mapping) →
        AccountsTime program dumbMap main ncpu vars := by
  intro allAccount
  have fails : Sim.round listed dumbMap (.start 0 1 instant) =
      .error .valueError := by
    rfl
  obtain ⟨fuel, stat, final, returns, _⟩ :=
    allAccount _ listed 0 1 instant (nonNegative_listed lasts_instant)
      (ends_listed finite_instant) le_rfl (by
        intro s reached deadlocked
        rcases Relation.ReflTransGen.cases_head reached with
          rfl | ⟨next, goes, _⟩
        · have suspended := deadlocked.2.2 0 List.mem_cons_self
          cases suspended
        · cases fails.symm.trans goes)
  obtain ⟨last, comes, stops⟩ := stop_of_iterate returns
  rcases Relation.ReflTransGen.cases_head comes with rfl | ⟨next, goes, _⟩
  · cases fails.symm.trans stops
  · cases fails.symm.trans goes

/-- The equivalence is about this program as well. -/
theorem accountsTime_iff_sustained_instant :
    AccountsTime listed dumbMap 0 1 instant ↔
      ∀ s, Reached listed dumbMap 0 1 instant s →
        Sustained listed s.mapping :=
  accountsTime_iff_sustained listed 0 1 instant
    (nonNegative_listed lasts_instant) (ends_listed finite_instant)

end Dfk.Schedprof
