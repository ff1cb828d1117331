import Dfk.Library.Passes
import Dfk.Schedprof.Simulator

/-!
# Coroutines that wait for mutexes

The wait queues and the pending unlocks of a simulation are never emptied, so
both can be read off what the CPU monitor has been told: who has failed to
lock a mutex stays in its queue, and a mutex that has once been unlocked
resumes its queue at every later scheduling point.  A coroutine is resumed in
time, and queued once, exactly if it waits for the first time, for a mutex
that has not been unlocked before.
-/

namespace Dfk.Schedprof

open Loops

/-- A coroutine fails to lock a mutex. -/
def Event.Waits (event : Event) (c : CoroId) (m : MutexId) : Prop :=
  event.coro = c ∧ event.task = .lock m ∧ event.blocked = true

/-- A coroutine locks a mutex. -/
def Event.Acquires (event : Event) (c : CoroId) (m : MutexId) : Prop :=
  event.coro = c ∧ event.task = .lock m ∧ event.blocked = false

def Event.Unlocks (event : Event) (m : MutexId) : Prop :=
  event.task = .unlock m

/-- A coroutine has failed to lock a mutex. -/
def Waited (history : List Event) (c : CoroId) (m : MutexId) : Prop :=
  ∃ event ∈ history, event.Waits c m

/-- A mutex has been unlocked. -/
def Unlocked (history : List Event) (m : MutexId) : Prop :=
  ∃ event ∈ history, event.Unlocks m

/-- A coroutine has locked a mutex and has not unlocked it since. -/
def Holds (history : List Event) (c : CoroId) (m : MutexId) : Prop :=
  ∃ before event after,
    history = before ++ event :: after ∧ event.Acquires c m ∧
    ∀ later ∈ after, ¬ (later.coro = c ∧ later.Unlocks m)

/-- The coroutines that have failed to lock a mutex, in this order. -/
def waiters (history : List Event) (m : MutexId) : List CoroId :=
  (history.filter fun event =>
    event.blocked && decide (event.task = .lock m)).map Event.coro

/--
What is asked of the mutexes at a scheduling point: a coroutine whose last
wait is over has seen its mutex unlocked since, no coroutine is queued twice
for a mutex, and no two coroutines hold one.
-/
structure MutexesSound {σ : Type} (s : Sim σ) : Prop where
  wokenByUnlock :
    ∀ before wait after c m,
      s.history = before ++ wait :: after → wait.Waits c m →
      (∀ m', ¬ Waited after c m') →
      (s.coroutine c).suspended = false →
      Unlocked after m
  queuedOnce : ∀ m, (s.mutex m).waitQueue.Nodup
  oneHolder :
    ∀ m c c', Holds s.history c m → Holds s.history c' m → c = c'

/--
What a round does to the mutexes is prompt: a coroutine that fails to lock a
mutex has not failed on it before, and either the mutex is unlocked in the
rest of the round, or the coroutine has never waited and the mutex has never
been unlocked.
-/
def Prompt (past events : List Event) : Prop :=
  ∀ before wait after c m,
    events = before ++ wait :: after → wait.Waits c m →
    ¬ Waited (past ++ before) c m ∧
    (Unlocked after m ∨
      (∀ m', ¬ Waited (past ++ before) c m') ∧ ¬ Unlocked (past ++ before) m)

/--
A scheduler respects the readiness of coroutines in a state: what it maps is
ready, and is mapped to one CPU.
-/
structure RespectsReadiness {σ : Type} (s : Sim σ) (mapped : Mapped) :
    Prop where
  ready : ∀ pair ∈ mapped.schedule, (s.coroutine pair.2).ready = true
  once : (mapped.schedule.map Prod.snd).Nodup

/-- What a simulation has made of its mutexes. -/
structure MutexView where
  now : Int
  mutex : MutexId → Mutex
  mutexesToUnlock : List (Int × MutexId)
  suspended : CoroId → Bool
  history : List Event

def Sim.mutexView {σ : Type} (s : Sim σ) : MutexView where
  now := s.now
  mutex := s.mutex
  mutexesToUnlock := s.mutexesToUnlock
  suspended := fun c => (s.coroutine c).suspended
  history := s.history

/-- What an instruction that is executed makes of the mutexes. -/
inductive MutexStep (v : MutexView) (event : Event) : MutexView → Prop where
  | waits (m : MutexId)
      (locks : event.task = .lock m)
      (blocked : event.blocked = true)
      (held : (v.mutex m).acquiredBy ≠ none) :
      MutexStep v event { v with
        mutex := Function.update v.mutex m { v.mutex m with
          waitQueue := (v.mutex m).waitQueue ++ [event.coro] }
        suspended := Function.update v.suspended event.coro true
        history := v.history ++ [event] }
  | acquires (m : MutexId)
      (locks : event.task = .lock m)
      (passes : event.blocked = false)
      (free : (v.mutex m).acquiredBy = none) :
      MutexStep v event { v with
        mutex := Function.update v.mutex m { v.mutex m with
          acquiredBy := some event.coro }
        history := v.history ++ [event] }
  | unlocks (m : MutexId)
      (unlocks : event.task = .unlock m)
      (passes : event.blocked = false)
      (held : (v.mutex m).acquiredBy = some event.coro) :
      MutexStep v event { v with
        mutex := Function.update v.mutex m { v.mutex m with
          acquiredBy := none }
        mutexesToUnlock := v.mutexesToUnlock ++ [(v.now + 1, m)]
        history := v.history ++ [event] }
  | leaves
      (noLock : ∀ m, event.task ≠ .lock m)
      (noUnlock : ∀ m, event.task ≠ .unlock m)
      (passes : event.blocked = false) :
      MutexStep v event { v with history := v.history ++ [event] }

section Views

variable {σ : Type} {program : Program σ} {s s' : Sim σ} {c : CoroId}

/-- A change of a coroutine suspends or resumes it. -/
theorem mutexView_setCoroutine (coroutine : Coroutine) :
    (s.setCoroutine c coroutine).mutexView =
      { s.mutexView with
        suspended :=
          Function.update s.mutexView.suspended c coroutine.suspended } := by
  simp only [Sim.mutexView, Sim.setCoroutine, MutexView.mk.injEq, true_and,
    and_true]
  funext d
  exact Function.apply_update (fun _ => Coroutine.suspended) _ _ _ _

/-- A change of a coroutine that leaves it suspended or not. -/
theorem mutexView_setCoroutine_same
    {coroutine : Coroutine}
    (same : coroutine.suspended = (s.coroutine c).suspended) :
    (s.setCoroutine c coroutine).mutexView = s.mutexView := by
  rw [mutexView_setCoroutine, same]
  exact congrArg
    (fun suspended => { s.mutexView with suspended := suspended })
    (Function.update_eq_self c _)

@[simp] theorem mutexView_setCpu (k : CpuId) (cpu : Cpu) :
    (s.setCpu k cpu).mutexView = s.mutexView :=
  rfl

theorem mutexView_nextTask
    {popped : Op × Sim σ}
    (pops : s.nextTask program c = .ok popped) :
    popped.2.mutexView = s.mutexView := by
  unfold Sim.nextTask at pops
  split at pops
  · cases pops
  · split at pops
    · cases pops
      rfl
    · cases pops
      exact mutexView_setCoroutine_same rfl

theorem mutexView_popInstruction
    {popped : Op × Sim σ}
    (pops : s.popInstruction program c = .ok popped) :
    popped.2.mutexView = s.mutexView := by
  unfold Sim.popInstruction at pops
  split at pops
  · cases pops
  · split at pops
    · cases pops
      exact mutexView_setCoroutine_same rfl
    · exact mutexView_nextTask pops

theorem mutexView_peekInstruction
    (peeks : s.peekInstruction program c = .ok s') :
    s'.mutexView = s.mutexView := by
  unfold Sim.peekInstruction at peeks
  split at peeks
  · cases peeks
    rfl
  · obtain ⟨popped, pops, rest⟩ := Passes.of_bind peeks
    cases rest
    apply Eq.trans _ (mutexView_nextTask pops)
    apply mutexView_setCoroutine_same
    rfl

theorem mutexView_finalizeCpu (s : Sim σ) (k : CpuId) :
    (s.finalizeCpu k).mutexView = s.mutexView := by
  unfold Sim.finalizeCpu
  split
  · split
    · rw [Sim.suspendCpu, mutexView_setCpu]
      exact mutexView_setCoroutine_same rfl
    · rfl
  · rfl

theorem mutexView_finalize (s : Sim σ) :
    s.finalize.mutexView = s.mutexView := by
  apply List.foldlRecOn (motive := fun t : Sim σ => t.mutexView = s.mutexView)
  · rfl
  · intro t same k _
    rw [mutexView_finalizeCpu, same]

theorem mutexView_wakeup
    {k : CpuId} {due : Int}
    (wakes : s.wakeup k c due = .ok s') :
    s'.mutexView = s.mutexView := by
  unfold Sim.wakeup at wakes
  split at wakes
  · cases wakes
  · cases wakes
    exact mutexView_setCoroutine_same (s := s) rfl

/-- What is executed does to the mutexes what the instruction does. -/
theorem mutexStep_of_perform
    {k : CpuId} {task : Op}
    (performs : (s.monitor k c task).perform c task = .ok s') :
    ∃ event : Event,
      event.coro = c ∧ event.cpu = k ∧ event.now = s.now ∧
      event.task = task ∧ MutexStep s.mutexView event s'.mutexView := by
  refine ⟨⟨s.now, k, c, task, s.blocks task⟩, rfl, rfl, rfl, rfl, ?_⟩
  cases task with
  | lock m =>
      simp only [Sim.perform] at performs
      split at performs
      next holder held =>
        have held : (s.mutex m).acquiredBy = some holder := held
        unfold Sim.suspendCoroutine at performs
        split at performs
        · cases performs
        · cases performs
          have blocked : (s.mutex m).acquiredBy.isSome = true :=
            Option.isSome_iff_exists.mpr ⟨holder, held⟩
          rw [mutexView_setCoroutine]
          exact .waits m rfl blocked (Option.isSome_iff_ne_none.mp blocked)
      next free =>
        cases performs
        exact .acquires m rfl (congrArg Option.isSome free) free
  | unlock m =>
      simp only [Sim.perform] at performs
      split at performs
      · cases performs
      next held =>
        cases performs
        exact .unlocks m rfl rfl (not_not.mp held)
  | spawn spawned =>
      cases performs
      exact .leaves nofun nofun rfl
  | terminate killed =>
      simp only [Sim.perform] at performs
      split at performs
      · cases performs
        exact .leaves nofun nofun rfl
      · cases performs
  | cpu ns =>
      cases performs
      exact .leaves nofun nofun rfl
  | io ns =>
      cases performs
      exact .leaves nofun nofun rfl

theorem mutexStep_of_dispatch
    {pair : CpuId × CoroId}
    (dispatches : s.dispatch program pair = .ok s') :
    ∃ event : Event,
      event.coro = pair.2 ∧ MutexStep s.mutexView event s'.mutexView := by
  obtain ⟨popped, pops, rest⟩ := Passes.of_bind dispatches
  obtain ⟨performed, performs, wakes⟩ := Passes.of_bind rest
  obtain ⟨event, isCoroutine, _, _, _, steps⟩ := mutexStep_of_perform performs
  rw [mutexView_popInstruction pops] at steps
  rw [← mutexView_wakeup wakes] at steps
  exact ⟨event, isCoroutine, steps⟩

end Views

/-- The state of the mutexes is what their history tells. -/
structure Accounted (v : MutexView) : Prop where
  queue : ∀ m, (v.mutex m).waitQueue = waiters v.history m
  recorded :
    ∀ m, (∃ due, (due, m) ∈ v.mutexesToUnlock) ↔ Unlocked v.history m
  near : ∀ unlocked ∈ v.mutexesToUnlock, unlocked.1 ≤ v.now + 1
  held : ∀ c m, Holds v.history c m → (v.mutex m).acquiredBy = some c
  asleep : ∀ c, v.suspended c = true → ∃ m, Waited v.history c m
  stays :
    ∀ c, (∃ m, Waited v.history c m) →
      (∀ m, Waited v.history c m → ¬ Unlocked v.history m) →
      v.suspended c = true

section Histories

variable {history : List Event} {event : Event} {c : CoroId} {m : MutexId}

theorem mem_waiters : c ∈ waiters history m ↔ Waited history c m := by
  simp only [waiters, List.mem_map, List.mem_filter, Bool.and_eq_true,
    decide_eq_true_eq, Waited, Event.Waits]
  constructor
  · rintro ⟨event, ⟨member, blocked, locks⟩, isCoroutine⟩
    exact ⟨event, member, isCoroutine, locks, blocked⟩
  · rintro ⟨event, member, isCoroutine, locks, blocked⟩
    exact ⟨event, ⟨member, blocked, locks⟩, isCoroutine⟩

theorem waited_append_singleton :
    Waited (history ++ [event]) c m ↔
      Waited history c m ∨ event.Waits c m := by
  simp only [Waited, List.mem_append, List.mem_singleton, or_and_right,
    exists_or, exists_eq_left]

theorem unlocked_append_singleton :
    Unlocked (history ++ [event]) m ↔
      Unlocked history m ∨ event.Unlocks m := by
  simp only [Unlocked, List.mem_append, List.mem_singleton, or_and_right,
    exists_or, exists_eq_left]

/-- Who waits for a mutex is queued last. -/
theorem waiters_append_of_waits (waits : event.Waits c m) :
    waiters (history ++ [event]) m = waiters history m ++ [c] := by
  obtain ⟨isCoroutine, locks, blocked⟩ := waits
  simp [waiters, isCoroutine, locks, blocked]

theorem waiters_append_of_not_waits (stays : ¬ event.Waits event.coro m) :
    waiters (history ++ [event]) m = waiters history m := by
  have passed :
      (event.blocked && decide (event.task = .lock m)) = false := by
    rw [Bool.eq_false_iff]
    intro waits
    rw [Bool.and_eq_true, decide_eq_true_eq] at waits
    exact stays ⟨rfl, waits.2, waits.1⟩
  rw [waiters, List.filter_append, List.filter_singleton, passed]
  exact congrArg (List.map Event.coro) (List.append_nil _)

/-- Who holds a mutex has just locked it, or has held it and keeps it. -/
theorem holds_append_singleton
    (holds : Holds (history ++ [event]) c m) :
    event.Acquires c m ∨
      Holds history c m ∧ ¬ (event.coro = c ∧ event.Unlocks m) := by
  obtain ⟨before, acquired, after, parts, acquires, keeps⟩ := holds
  rcases List.eq_nil_or_concat after with rfl | ⟨after, last, rfl⟩
  · obtain ⟨_, same⟩ := List.append_inj' parts rfl
    cases same
    exact .inl acquires
  · rw [List.concat_eq_append, ← List.cons_append, ← List.append_assoc]
      at parts
    obtain ⟨rfl, same⟩ := List.append_inj' parts rfl
    cases same
    rw [List.concat_eq_append] at keeps
    right
    constructor
    · refine ⟨before, acquired, after, rfl, acquires, ?_⟩
      intro later member
      exact keeps later (List.mem_append_left _ member)
    · exact keeps event (List.mem_append_right _ (List.mem_singleton_self _))

/-- An event that passes makes nobody wait. -/
theorem waited_append_of_passes (passes : event.blocked = false) :
    Waited (history ++ [event]) c m ↔ Waited history c m := by
  rw [waited_append_singleton]
  apply or_iff_left
  intro waits
  exact absurd waits.2.2 (by simp [passes])

theorem waiters_append_of_passes (passes : event.blocked = false) :
    waiters (history ++ [event]) m = waiters history m := by
  apply waiters_append_of_not_waits
  intro waits
  exact absurd waits.2.2 (by simp [passes])

/-- An instruction that is no unlock unlocks nothing. -/
theorem unlocked_append_of_not_unlocks (keeps : ¬ event.Unlocks m) :
    Unlocked (history ++ [event]) m ↔ Unlocked history m := by
  rw [unlocked_append_singleton]
  exact or_iff_left keeps

/-- A lock is no unlock. -/
theorem not_unlocks_of_lock
    {m' : MutexId}
    (locks : event.task = .lock m') :
    ¬ event.Unlocks m := by
  intro unlocks
  cases locks.symm.trans unlocks

end Histories

section Steps

variable {v v' : MutexView} {event : Event}

theorem MutexStep.history_eq (steps : MutexStep v event v') :
    v'.history = v.history ++ [event] := by
  cases steps <;> rfl

theorem MutexStep.now_eq (steps : MutexStep v event v') :
    v'.now = v.now := by
  cases steps <;> rfl

/-- Who holds a mutex does not change its queue. -/
theorem waitQueue_of_acquired
    (mutex : MutexId → Mutex) (m m' : MutexId) (acquiredBy : Option CoroId) :
    (Function.update mutex m' { mutex m' with acquiredBy := acquiredBy }
        m).waitQueue =
      (mutex m).waitQueue := by
  by_cases isMutex : m = m'
  · subst isMutex
    rw [Function.update_self]
  · rw [Function.update_of_ne isMutex]

/-- Who waits for a mutex does not change who holds it. -/
theorem acquiredBy_of_queued
    (mutex : MutexId → Mutex) (m m' : MutexId) (waitQueue : List CoroId) :
    (Function.update mutex m' { mutex m' with waitQueue := waitQueue }
        m).acquiredBy =
      (mutex m).acquiredBy := by
  by_cases isMutex : m = m'
  · subst isMutex
    rw [Function.update_self]
  · rw [Function.update_of_ne isMutex]

/-- A mutex keeps its queue unless somebody waits. -/
theorem Accounted.step_queue
    (accounted : Accounted v)
    (steps : MutexStep v event v')
    (m : MutexId) :
    (v'.mutex m).waitQueue = waiters v'.history m := by
  rw [steps.history_eq]
  cases steps with
  | waits m' locks blocked held =>
      by_cases isMutex : m = m'
      · subst isMutex
        rw [waiters_append_of_waits ⟨rfl, locks, blocked⟩,
          ← accounted.queue m]
        simp only [Function.update_self]
      · rw [waiters_append_of_not_waits, ← accounted.queue m]
        · exact congrArg Mutex.waitQueue (Function.update_of_ne isMutex ..)
        · intro waits
          cases locks.symm.trans waits.2.1
          exact isMutex rfl
  | acquires m' locks passes free =>
      rw [waiters_append_of_passes passes, ← accounted.queue m]
      exact waitQueue_of_acquired v.mutex m m' _
  | unlocks m' unlocks passes held =>
      rw [waiters_append_of_passes passes, ← accounted.queue m]
      exact waitQueue_of_acquired v.mutex m m' _
  | leaves noLock noUnlock passes =>
      rw [waiters_append_of_passes passes]
      exact accounted.queue m

/-- The unlocks that are recorded are those that have happened. -/
theorem Accounted.step_recorded
    (accounted : Accounted v)
    (steps : MutexStep v event v')
    (m : MutexId) :
    (∃ due, (due, m) ∈ v'.mutexesToUnlock) ↔ Unlocked v'.history m := by
  rw [steps.history_eq]
  cases steps with
  | waits m' locks blocked held =>
      rw [unlocked_append_of_not_unlocks (not_unlocks_of_lock locks)]
      exact accounted.recorded m
  | acquires m' locks passes free =>
      rw [unlocked_append_of_not_unlocks (not_unlocks_of_lock locks)]
      exact accounted.recorded m
  | unlocks m' unlocks passes held =>
      rw [unlocked_append_singleton, ← accounted.recorded m]
      simp only [List.mem_append, List.mem_singleton, Prod.mk.injEq,
        exists_or, exists_eq_left]
      apply or_congr_right
      rw [Event.Unlocks, unlocks, Op.unlock.injEq]
      exact eq_comm
  | leaves noLock noUnlock passes =>
      rw [unlocked_append_of_not_unlocks (noUnlock m)]
      exact accounted.recorded m

/-- An unlock is due within the time it takes. -/
theorem Accounted.step_near
    (accounted : Accounted v)
    (steps : MutexStep v event v') :
    ∀ unlocked ∈ v'.mutexesToUnlock, unlocked.1 ≤ v'.now + 1 := by
  rw [steps.now_eq]
  cases steps with
  | unlocks m' unlocks passes held =>
      intro unlocked member
      rcases List.mem_append.mp member with earlier | last
      · exact accounted.near unlocked earlier
      · rw [List.mem_singleton.mp last]
  | _ =>
      exact accounted.near

/-- Who holds a mutex is who has acquired it. -/
theorem Accounted.step_held
    (accounted : Accounted v)
    (steps : MutexStep v event v')
    (c : CoroId) (m : MutexId)
    (holds : Holds v'.history c m) :
    (v'.mutex m).acquiredBy = some c := by
  rw [steps.history_eq] at holds
  cases steps with
  | waits m' locks blocked held =>
      rcases holds_append_singleton holds with acquires | ⟨before, _⟩
      · exact absurd acquires.2.2 (by simp [blocked])
      · exact (acquiredBy_of_queued v.mutex m m' _).trans
          (accounted.held c m before)
  | acquires m' locks passes free =>
      rcases holds_append_singleton holds with acquires | ⟨before, _⟩
      · cases locks.symm.trans acquires.2.1
        rw [← acquires.1]
        simp only [Function.update_self]
      · have heldBefore := accounted.held c m before
        have other : m ≠ m' := by
          rintro rfl
          cases free.symm.trans heldBefore
        exact (congrArg Mutex.acquiredBy
          (Function.update_of_ne other ..)).trans heldBefore
  | unlocks m' unlocks passes held =>
      rcases holds_append_singleton holds with acquires | ⟨before, keeps⟩
      · cases unlocks.symm.trans acquires.2.1
      · have heldBefore := accounted.held c m before
        have other : m ≠ m' := by
          rintro rfl
          cases held.symm.trans heldBefore
          exact keeps ⟨rfl, unlocks⟩
        exact (congrArg Mutex.acquiredBy
          (Function.update_of_ne other ..)).trans heldBefore
  | leaves noLock noUnlock passes =>
      rcases holds_append_singleton holds with acquires | ⟨before, _⟩
      · exact absurd acquires.2.1 (noLock m)
      · exact accounted.held c m before

/-- A coroutine that is suspended has waited. -/
theorem Accounted.step_asleep
    (accounted : Accounted v)
    (steps : MutexStep v event v')
    (c : CoroId)
    (suspended : v'.suspended c = true) :
    ∃ m, Waited v'.history c m := by
  rw [steps.history_eq]
  have grows :
      (∃ m, Waited v.history c m) →
        ∃ m, Waited (v.history ++ [event]) c m := by
    rintro ⟨m, waited⟩
    exact ⟨m, waited_append_singleton.mpr (.inl waited)⟩
  cases steps with
  | waits m' locks blocked held =>
      by_cases isCoroutine : c = event.coro
      · subst isCoroutine
        exact ⟨m', waited_append_singleton.mpr (.inr ⟨rfl, locks, blocked⟩)⟩
      · exact grows (accounted.asleep c
          ((Function.update_of_ne isCoroutine ..).symm.trans suspended))
  | _ =>
      exact grows (accounted.asleep c suspended)

/-- A coroutine stays suspended until a mutex it has waited for is unlocked. -/
theorem Accounted.step_stays
    (accounted : Accounted v)
    (steps : MutexStep v event v')
    (c : CoroId)
    (waited : ∃ m, Waited v'.history c m)
    (noneUnlocked : ∀ m, Waited v'.history c m → ¬ Unlocked v'.history m) :
    v'.suspended c = true := by
  rw [steps.history_eq] at waited noneUnlocked
  have noneBefore :
      ∀ m, Waited v.history c m → ¬ Unlocked v.history m := by
    intro m waitedBefore unlocked
    exact noneUnlocked m (waited_append_singleton.mpr (.inl waitedBefore))
      (unlocked_append_singleton.mpr (.inl unlocked))
  have stays
      (passes : event.blocked = false) :
      v.suspended c = true := by
    simp only [waited_append_of_passes passes] at waited
    exact accounted.stays c waited noneBefore
  cases steps with
  | waits m' locks blocked held =>
      by_cases isCoroutine : c = event.coro
      · subst isCoroutine
        exact Function.update_self _ _ _
      · apply (Function.update_of_ne isCoroutine ..).trans
        apply accounted.stays c _ noneBefore
        obtain ⟨m, waited⟩ := waited
        rcases waited_append_singleton.mp waited with before | waits
        · exact ⟨m, before⟩
        · exact absurd waits.1.symm isCoroutine
  | acquires m' locks passes free =>
      exact stays passes
  | unlocks m' unlocks passes held =>
      exact stays passes
  | leaves noLock noUnlock passes =>
      exact stays passes

/-- What is executed keeps the account. -/
theorem Accounted.step
    (accounted : Accounted v)
    (steps : MutexStep v event v') :
    Accounted v' where
  queue := accounted.step_queue steps
  recorded := accounted.step_recorded steps
  near := accounted.step_near steps
  held := accounted.step_held steps
  asleep := accounted.step_asleep steps
  stays := accounted.step_stays steps

end Steps

/-- At the beginning of a round every unlock that is recorded is due. -/
structure Settled (v : MutexView) : Prop where
  accounted : Accounted v
  due : ∀ unlocked ∈ v.mutexesToUnlock, unlocked.1 ≤ v.now

section Rounds

variable {σ : Type} {program : Program σ} {map : Sim σ → Mapped}
variable {s s' : Sim σ} {c : CoroId} {m : MutexId}

theorem mutexView_resumeAll (resumed : List CoroId) (s : Sim σ) :
    (resumed.foldl Sim.resume s).mutexView =
      { s.mutexView with
        suspended :=
          fun c => decide (c ∉ resumed) && s.mutexView.suspended c } := by
  induction resumed generalizing s with
  | nil =>
      simp [Sim.mutexView]
  | cons first resumed inductionHypothesis =>
      rw [List.foldl_cons, inductionHypothesis, Sim.resume,
        mutexView_setCoroutine]
      simp only [MutexView.mk.injEq, true_and, and_true]
      funext c
      by_cases isFirst : c = first
      · subst isFirst
        rw [Function.update_self]
        simp
      · rw [Function.update_of_ne isFirst]
        simp [isFirst]

/-- What the scheduler maps: the coroutines in the queues are resumed. -/
theorem mutexView_mapping (s : Sim σ) :
    s.mapping.mutexView =
      { s.mutexView with
        suspended :=
          fun c => decide (c ∉ s.toResume) && s.mutexView.suspended c } := by
  have same := mutexView_finalize s
  have sameResumed : s.finalize.toResume = s.toResume := by
    unfold Sim.toResume
    rw [show s.finalize.mutexesToUnlock = s.mutexesToUnlock from
        congrArg MutexView.mutexesToUnlock same,
      show s.finalize.now = s.now from congrArg MutexView.now same,
      show s.finalize.mutex = s.mutex from congrArg MutexView.mutex same]
  rw [Sim.mapping, Sim.resumeWaiting, mutexView_resumeAll, sameResumed, same]

theorem mem_toResume :
    c ∈ s.toResume ↔
      ∃ m, (∃ due, (due, m) ∈ s.mutexesToUnlock ∧ due ≤ s.now) ∧
        c ∈ (s.mutex m).waitQueue := by
  simp only [Sim.toResume, List.mem_flatMap, List.mem_filter,
    decide_eq_true_eq, Prod.exists]
  constructor
  · rintro ⟨due, m, unlocked, queued⟩
    exact ⟨m, ⟨due, unlocked⟩, queued⟩
  · rintro ⟨m, ⟨due, unlocked⟩, queued⟩
    exact ⟨due, m, unlocked, queued⟩

/-- A coroutine is resumed if a mutex it has waited for was ever unlocked. -/
theorem Settled.mem_toResume
    (settled : Settled s.mutexView) :
    c ∈ s.toResume ↔
      ∃ m, Waited s.history c m ∧ Unlocked s.history m := by
  rw [Schedprof.mem_toResume]
  apply exists_congr
  intro m
  have recorded :
      (∃ due, (due, m) ∈ s.mutexesToUnlock ∧ due ≤ s.now) ↔
        Unlocked s.history m := by
    apply Iff.trans (exists_congr _) (settled.accounted.recorded m)
    intro due
    exact and_iff_left_of_imp (settled.due (due, m))
  have queued : c ∈ (s.mutex m).waitQueue ↔ Waited s.history c m :=
    (iff_of_eq (congrArg (c ∈ ·) (settled.accounted.queue m))).trans
      mem_waiters
  rw [recorded, queued, and_comm]

/--
At a scheduling point a coroutine is suspended exactly if it has waited, and
no mutex it has ever waited for was ever unlocked.
-/
theorem Settled.suspended_iff
    (settled : Settled s.mutexView) :
    (s.mapping.coroutine c).suspended = true ↔
      (∃ m, Waited s.history c m) ∧
        ∀ m, Waited s.history c m → ¬ Unlocked s.history m := by
  have suspended :
      (s.mapping.coroutine c).suspended =
        (decide (c ∉ s.toResume) && (s.coroutine c).suspended) :=
    congrFun (congrArg MutexView.suspended (mutexView_mapping s)) c
  rw [suspended, Bool.and_eq_true, decide_eq_true_eq, settled.mem_toResume]
  constructor
  · rintro ⟨notResumed, stillSuspended⟩
    refine ⟨settled.accounted.asleep c stillSuspended, ?_⟩
    intro m waited unlocked
    exact notResumed ⟨m, waited, unlocked⟩
  · rintro ⟨waited, noneUnlocked⟩
    refine ⟨?_, settled.accounted.stays c waited noneUnlocked⟩
    rintro ⟨m, waited, unlocked⟩
    exact noneUnlocked m waited unlocked

/-- The account at a scheduling point. -/
theorem Settled.mapping
    (settled : Settled s.mutexView) :
    Accounted s.mapping.mutexView where
  queue m := by
    rw [mutexView_mapping]
    exact settled.accounted.queue m
  recorded m := by
    rw [mutexView_mapping]
    exact settled.accounted.recorded m
  near := by
    rw [mutexView_mapping]
    exact settled.accounted.near
  held c m holds := by
    rw [mutexView_mapping] at holds ⊢
    exact settled.accounted.held c m holds
  asleep c suspended := by
    have waited := (settled.suspended_iff.mp suspended).1
    rw [mutexView_mapping]
    exact waited
  stays c waited noneUnlocked := by
    rw [mutexView_mapping] at waited noneUnlocked
    exact settled.suspended_iff.mpr ⟨waited, noneUnlocked⟩

/-- Peeking leaves the mutexes alone. -/
theorem mutexView_peeks
    {peeked : List CoroId}
    (peeks : peeked.foldlM (Sim.peekInstruction program) s = .ok s') :
    s'.mutexView = s.mutexView := by
  apply Passes.invariant peeks
  · rfl
  · intro t c next same peeks
    exact (mutexView_peekInstruction peeks).trans same

/-- The coroutines that a schedule maps, in the order of the CPUs. -/
def scheduled (mapped : Mapped) : List CoroId :=
  (mapped.schedule.insertionSort fun p q => p.1 ≤ q.1).map Prod.snd

/--
What is mapped is executed: one event for each coroutine that is mapped is
told to the monitor, and the account is kept.
-/
theorem accounted_of_executeMapped
    {mapped : Mapped}
    (accounted : Accounted s.mutexView)
    (executes : s.executeMapped program mapped = .ok s') :
    Accounted s'.mutexView ∧ s'.now = s.now ∧
      ∃ events, s'.history = s.history ++ events ∧
        events.map Event.coro = scheduled mapped := by
  obtain ⟨peeked, peeks, dispatches⟩ := passes_of_executeMapped executes
  have same := mutexView_peeks peeks
  have passed :=
    @Passes.passed _ _ _ _ _ _ _
      (fun before (t : Sim σ) =>
        Accounted t.mutexView ∧ t.now = s.now ∧
          ∃ events, t.history = s.history ++ events ∧
            events.map Event.coro = before.map Prod.snd)
      dispatches
  apply passed
  · rw [same]
    refine ⟨accounted, congrArg MutexView.now same, [], ?_, rfl⟩
    rw [List.append_nil]
    exact congrArg MutexView.history same
  · rintro before pair after t next _ ⟨keeps, sameNow, events, told, coros⟩
      dispatched
    obtain ⟨event, isCoroutine, steps⟩ := mutexStep_of_dispatch dispatched
    refine ⟨keeps.step steps, steps.now_eq.trans sameNow,
      events ++ [event], ?_, ?_⟩
    · rw [← List.append_assoc, ← told]
      exact steps.history_eq
    · rw [List.map_append, List.map_append, coros, List.map_singleton,
        List.map_singleton, isCoroutine]

/-- What a round does, as the next scheduling point sees it. -/
theorem Settled.goes
    (settled : Settled s.mutexView)
    (goes : Goes (Sim.round program map) s s') :
    Settled s'.mutexView ∧
      ∃ events, s'.history = s.history ++ events ∧
        events.map Event.coro = scheduled (map s.mapping) := by
  obtain ⟨executed, nextnow, executes, _, nearest, rfl⟩ :=
    executed_of_goes goes
  obtain ⟨accounted, sameNow, events, told, coros⟩ :=
    accounted_of_executeMapped settled.mapping executes
  have later := (mem_of_nextNow nearest).1
  refine ⟨⟨⟨accounted.queue, accounted.recorded, ?_, accounted.held,
    accounted.asleep, accounted.stays⟩, ?_⟩, events, ?_, coros⟩
  · intro unlocked member
    have near := accounted.near unlocked member
    exact near.trans (add_le_add_left (le_of_lt later) 1)
  · intro unlocked member
    exact (accounted.near unlocked member).trans later
  · exact told.trans (congrArg (· ++ events)
      (congrArg MutexView.history (mutexView_mapping s)))

end Rounds

section Promptness

variable {past events before after history : List Event} {wait : Event}
variable {c : CoroId} {m : MutexId}

theorem waited_append :
    Waited (past ++ events) c m ↔ Waited past c m ∨ Waited events c m := by
  simp only [Waited, List.mem_append, or_and_right, exists_or]

theorem waited_cons :
    Waited (wait :: events) c m ↔ wait.Waits c m ∨ Waited events c m := by
  simp only [Waited, List.mem_cons, or_and_right, exists_or, exists_eq_left]

theorem unlocked_append :
    Unlocked (past ++ events) m ↔ Unlocked past m ∨ Unlocked events m := by
  simp only [Unlocked, List.mem_append, or_and_right, exists_or]

theorem unlocked_cons :
    Unlocked (wait :: events) m ↔ wait.Unlocks m ∨ Unlocked events m := by
  simp only [Unlocked, List.mem_cons, or_and_right, exists_or,
    exists_eq_left]

theorem waiters_append :
    waiters (past ++ events) m = waiters past m ++ waiters events m := by
  rw [waiters, List.filter_append, List.map_append]
  rfl

/-- A wait is for one mutex. -/
theorem Event.Waits.mutex_eq
    {c' : CoroId} {m' : MutexId}
    (waits : wait.Waits c m)
    (waits' : wait.Waits c' m') :
    m = m' :=
  Op.lock.inj (waits.2.1.symm.trans waits'.2.1)

/-- Rounds that are prompt one after the other. -/
theorem Prompt.append
    (earlier : Prompt [] past)
    (later : Prompt past events) :
    Prompt [] (past ++ events) := by
  intro before wait after c m parts waits
  rcases List.append_eq_append_iff.mp parts with
    ⟨middle, isBefore, isEvents⟩ | ⟨middle, isPast, isAfter⟩
  · rw [isBefore]
    exact later middle wait after c m isEvents waits
  · cases middle with
    | nil =>
        rw [List.nil_append] at isAfter
        rw [List.append_nil] at isPast
        obtain ⟨first, rest⟩ :=
          later [] wait after c m isAfter.symm waits
        rw [List.append_nil, isPast] at first rest
        exact ⟨first, rest⟩
    | cons first middle =>
        rw [List.cons_append] at isAfter
        obtain ⟨rfl, rfl⟩ := List.cons.inj isAfter
        obtain ⟨once, unlockedOrFirst⟩ :=
          earlier before wait middle c m isPast waits
        refine ⟨once, unlockedOrFirst.imp_left ?_⟩
        intro unlocked
        exact unlocked_append.mpr (.inl unlocked)

/-- Who never waits for a mutex again is queued once. -/
theorem nodup_waiters
    (once :
      ∀ before wait after c,
        history = before ++ wait :: after → wait.Waits c m →
        ¬ Waited before c m) :
    (waiters history m).Nodup := by
  induction history using List.reverseRecOn with
  | nil =>
      exact List.nodup_nil
  | append_singleton history event inductionHypothesis =>
      have earlier : (waiters history m).Nodup := by
        apply inductionHypothesis
        intro before wait after c parts
        apply once before wait (after ++ [event]) c
        rw [parts, List.append_assoc, List.cons_append]
      by_cases waits : event.Waits event.coro m
      · rw [waiters_append_of_waits waits]
        apply List.Nodup.append earlier (List.nodup_singleton _)
        rw [List.disjoint_singleton]
        intro queued
        exact once history event [] _ rfl waits (mem_waiters.mp queued)
      · rw [waiters_append_of_not_waits waits]
        exact earlier

/-- Who is queued once has not waited before. -/
theorem not_waited_of_nodup
    (nodup : (waiters (before ++ wait :: after) m).Nodup)
    (waits : wait.Waits c m) :
    ¬ Waited before c m := by
  intro waited
  rw [waiters_append] at nodup
  apply List.disjoint_of_nodup_append nodup (mem_waiters.mpr waited)
  exact mem_waiters.mpr (waited_cons.mpr (.inl waits))

/-- In a round every coroutine executes one instruction. -/
theorem not_waited_of_nodup_coros
    (nodup : ((before ++ wait :: after).map Event.coro).Nodup)
    (waits : wait.Waits c m) :
    (∀ m', ¬ Waited before c m') ∧ ∀ m', ¬ Waited after c m' := by
  rw [List.map_append, List.map_cons, List.nodup_append, List.nodup_cons]
    at nodup
  obtain ⟨_, ⟨notAfter, _⟩, apart⟩ := nodup
  constructor
  · rintro m' ⟨event, member, isCoroutine, _⟩
    exact apart event.coro (List.mem_map_of_mem member) wait.coro
      (List.mem_cons_self) (isCoroutine.trans waits.1.symm)
  · rintro m' ⟨event, member, isCoroutine, _⟩
    apply notAfter
    rw [waits.1, ← isCoroutine]
    exact List.mem_map_of_mem member

end Promptness

section Soundness

variable {σ : Type} {program : Program σ} {map : Sim σ → Mapped}
variable {main : CoroId} {ncpu : Nat} {vars : σ} {s s' : Sim σ}

/-- The account at the beginning of every round. -/
theorem Reached.settled
    (reached : Reached program map main ncpu vars s) :
    Settled s.mutexView := by
  apply invariant reached
  · refine ⟨⟨fun _ => rfl, ?_, ?_, ?_, ?_, ?_⟩, ?_⟩
    all_goals
      simp [Sim.mutexView, Sim.start, Unlocked, Waited, Holds,
        Coroutine.fresh]
  · intro state next settled goes
    exact (settled.goes goes).1

/-- Waits that have been prompt leave the mutexes sound. -/
theorem Settled.mutexesSound
    (settled : Settled s.mutexView)
    (prompt : Prompt [] s.history) :
    MutexesSound s.mapping := by
  have sameHistory : s.mapping.history = s.history :=
    congrArg MutexView.history (mutexView_mapping s)
  have sameMutex : s.mapping.mutex = s.mutex :=
    congrArg MutexView.mutex (mutexView_mapping s)
  constructor
  · intro before wait after c m parts waits last awake
    rw [sameHistory] at parts
    obtain ⟨_, unlocked | ⟨first, neverUnlocked⟩⟩ :=
      prompt before wait after c m parts waits
    · exact unlocked
    -- The wait is the only one of the coroutine, so that its mutex is the one
    -- that has been unlocked, and not before.
    · have resumed : ¬ ∀ m', Waited s.history c m' →
          ¬ Unlocked s.history m' := by
        intro noneUnlocked
        have suspended := settled.suspended_iff.mpr
          ⟨⟨m, ⟨wait, by rw [parts]; simp, waits⟩⟩, noneUnlocked⟩
        cases awake.symm.trans suspended
      push Not at resumed
      obtain ⟨m', waited, unlocked⟩ := resumed
      rw [parts, waited_append, waited_cons] at waited
      rw [parts, unlocked_append, unlocked_cons] at unlocked
      have waits' : wait.Waits c m' := by
        rcases waited with earlier | now | later
        · exact absurd earlier (first m')
        · exact now
        · exact absurd later (last m')
      cases waits.mutex_eq waits'
      rcases unlocked with earlier | now | later
      · exact absurd earlier neverUnlocked
      · exact absurd now (not_unlocks_of_lock waits.2.1)
      · exact later
  · intro m
    rw [sameMutex]
    apply (iff_of_eq (congrArg List.Nodup
      (settled.accounted.queue m))).mpr
    apply nodup_waiters
    intro before wait after c parts waits
    exact (prompt before wait after c m parts waits).1
  · intro m c c' holds holds'
    rw [sameHistory] at holds holds'
    have heldBy := settled.accounted.held c m holds
    exact Option.some.inj
      (heldBy.symm.trans (settled.accounted.held c' m holds'))

/-- Mutexes that are sound before and after a round make it prompt. -/
theorem Settled.prompt_of_sound
    {events : List Event}
    (settled : Settled s.mutexView)
    (respects : RespectsReadiness s.mapping (map s.mapping))
    (goes : Goes (Sim.round program map) s s')
    (told : s'.history = s.history ++ events)
    (sound : MutexesSound s'.mapping) :
    Prompt s.history events := by
  obtain ⟨settled', events', told', coros⟩ := settled.goes goes
  cases List.append_cancel_left (told.symm.trans told')
  have mapped : (scheduled (map s.mapping)).Perm
      ((map s.mapping).schedule.map Prod.snd) :=
    (List.perm_insertionSort _ _).map Prod.snd
  have sameHistory : s'.mapping.history = s'.history :=
    congrArg MutexView.history (mutexView_mapping s')
  intro before wait after c m parts waits
  have whole : s'.history = (s.history ++ before) ++ wait :: after := by
    rw [told, parts, List.append_assoc]
  have nodup : ((before ++ wait :: after).map Event.coro).Nodup := by
    rw [← parts, coros]
    exact mapped.nodup_iff.mpr respects.once
  obtain ⟨notBefore, notAfter⟩ := not_waited_of_nodup_coros nodup waits
  constructor
  · have queued := sound.queuedOnce m
    rw [show s'.mapping.mutex = s'.mutex from
      congrArg MutexView.mutex (mutexView_mapping s')] at queued
    have nodupWaiters : (waiters s'.history m).Nodup :=
      (iff_of_eq (congrArg List.Nodup
        (settled'.accounted.queue m))).mp queued
    rw [whole] at nodupWaiters
    exact not_waited_of_nodup nodupWaiters waits
  · by_cases unlocked : Unlocked after m
    · exact .inl unlocked
    right
    -- The coroutine is not resumed in time, so it must still be suspended.
    have suspended : (s'.mapping.coroutine c).suspended = true := by
      rw [← Bool.not_eq_false]
      intro awake
      exact unlocked (sound.wokenByUnlock _ wait after c m
        (sameHistory.trans whole) waits notAfter awake)
    have noneUnlocked := (settled'.suspended_iff.mp suspended).2
    have waitedNow : Waited s'.history c m := by
      rw [whole, waited_append, waited_cons]
      exact .inr (.inl waits)
    constructor
    · intro m' waited
      rw [waited_append] at waited
      rcases waited with earlier | inRound
      · have member : c ∈ (map s.mapping).schedule.map Prod.snd := by
          rw [← mapped.mem_iff, ← coros, parts, List.map_append,
            List.map_cons, waits.1]
          exact List.mem_append_right _ List.mem_cons_self
        obtain ⟨pair, inSchedule, isCoroutine⟩ := List.mem_map.mp member
        have ready := respects.ready pair inSchedule
        rw [isCoroutine, Coroutine.ready, Bool.and_eq_true,
          Bool.not_eq_true'] at ready
        have noneBefore : ∀ m', Waited s.history c m' →
            ¬ Unlocked s.history m' := by
          intro m' waited' unlocked'
          apply noneUnlocked m'
          · rw [told, waited_append]
            exact .inl waited'
          · rw [told, unlocked_append]
            exact .inl unlocked'
        have stillSuspended :=
          settled.suspended_iff.mpr ⟨⟨m', earlier⟩, noneBefore⟩
        cases ready.1.symm.trans stillSuspended
      · exact notBefore m' inRound
    · intro unlockedBefore
      apply noneUnlocked m waitedNow
      rw [whole, unlocked_append]
      exact .inl unlockedBefore

/-- All that has been told is prompt if every round has been. -/
theorem Reached.prompt
    (reached : Reached program map main ncpu vars s)
    (prompt :
      ∀ t t' events, Reached program map main ncpu vars t →
        Goes (Sim.round program map) t t' →
        t'.history = t.history ++ events →
        Prompt t.history events) :
    Prompt [] s.history := by
  induction reached with
  | refl =>
      intro before wait after c m parts
      cases List.append_ne_nil_of_right_ne_nil before
        (List.cons_ne_nil wait after) parts.symm
  | tail earlier goes inductionHypothesis =>
      have settled := Reached.settled earlier
      obtain ⟨_, events, told, _⟩ := settled.goes goes
      rw [told]
      exact inductionHypothesis.append (prompt _ _ events earlier goes told)

end Soundness

/--
For every program, number of CPUs and scheduler that respects readiness: at
every scheduling point of a simulation coroutines are woken by an unlock of
the mutex they wait for, are queued once, and no mutex has two holders,
exactly if in every round that is followed by another a coroutine that fails
to lock a mutex has not failed on it before, and the mutex is unlocked in the
rest of the round unless the coroutine has never waited and the mutex has
never been unlocked.
-/
theorem mutexes_sound_iff_prompt
    {σ : Type} (program : Program σ) (map : Sim σ → Mapped)
    (main : CoroId) (ncpu : Nat) (vars : σ)
    (respects :
      ∀ s, Reached program map main ncpu vars s →
        RespectsReadiness s.mapping (map s.mapping)) :
    (∀ s, Reached program map main ncpu vars s → MutexesSound s.mapping) ↔
      ∀ s s' events, Reached program map main ncpu vars s →
        Goes (Sim.round program map) s s' →
        s'.history = s.history ++ events →
        Prompt s.history events := by
  constructor
  · intro sound s s' events reached goes told
    exact (Reached.settled reached).prompt_of_sound (respects s reached) goes
      told (sound s' (.tail reached goes))
  · intro prompt s reached
    exact (Reached.settled reached).mutexesSound (Reached.prompt reached prompt)

/-- `DumbScheduler` respects readiness if no coroutine is listed twice. -/
theorem respectsReadiness_dumbMap
    {σ : Type} {s : Sim σ}
    (nodup : s.coros.Nodup) :
    RespectsReadiness s (dumbMap s) where
  ready pair member :=
    (List.mem_filter.mp (List.of_mem_zip member).2).2
  once := by
    rw [dumbMap, List.zip_eq_zip_take_min, List.map_snd_zip]
    · exact (nodup.filter _).take
    · simp

/-- Two coroutines that lock a mutex, one of them twice. -/
def contended : CoroId → List Op
  | 0 => [.spawn 1, .lock 0, .unlock 0, .lock 0, .cpu 10, .unlock 0]
  | 1 => [.cpu 2, .lock 0, .unlock 0]
  | _ => []

/-- The simulation of the two on two CPUs ends within eighteen rounds. -/
theorem respects_contended
    (s : Sim (CoroId → List Op))
    (reached : Reached listed dumbMap 0 2 contended s) :
    RespectsReadiness s.mapping (dumbMap s.mapping) := by
  apply respectsReadiness_dumbMap
  obtain ⟨count, computed⟩ := rounds_of_comes reached
  have short : count < 18 := by
    apply Nat.lt_of_not_le
    intro long
    have ends : rounds (Sim.round listed dumbMap) 18
        (.start 0 2 contended) = none := by
      rfl
    rw [rounds_none_of_le long ends] at computed
    cases computed
  have nodup : ∀ count < 18,
      (rounds (Sim.round listed dumbMap) count (.start 0 2 contended)).all
        (fun s => decide s.mapping.coros.Nodup) = true := by
    decide
  have here := nodup count short
  rw [computed] at here
  exact of_decide_eq_true here

/-- Four rounds after the first the second coroutine is woken too early. -/
theorem contended_woken_early :
    ¬ ∀ (σ : Type) (program : Program σ) (map : Sim σ → Mapped)
        (main : CoroId) (ncpu : Nat) (vars : σ),
        (∀ s, Reached program map main ncpu vars s →
          RespectsReadiness s.mapping (map s.mapping)) →
        ∀ s, Reached program map main ncpu vars s →
          MutexesSound s.mapping := by
  intro allSound
  have sound := allSound _ listed dumbMap 0 2 contended respects_contended
  have woken :
      (rounds (Sim.round listed dumbMap) 4 (.start 0 2 contended)).map
        (fun s => (s.mapping.history, (s.mapping.coroutine 1).suspended)) =
      some ([
        ⟨0, 0, 0, .spawn 1, false⟩, ⟨1, 0, 0, .lock 0, false⟩,
        ⟨1, 1, 1, .cpu 2, false⟩, ⟨2, 0, 0, .unlock 0, false⟩,
        ⟨3, 0, 0, .lock 0, false⟩, ⟨3, 1, 1, .lock 0, true⟩], false) := by
    rfl
  obtain ⟨s, computed, told⟩ := Option.map_eq_some_iff.mp woken
  obtain ⟨told, awake⟩ := Prod.mk.inj told
  obtain ⟨event, member, _⟩ :=
    (sound s (comes_of_rounds computed)).wokenByUnlock
      [⟨0, 0, 0, .spawn 1, false⟩, ⟨1, 0, 0, .lock 0, false⟩,
        ⟨1, 1, 1, .cpu 2, false⟩, ⟨2, 0, 0, .unlock 0, false⟩,
        ⟨3, 0, 0, .lock 0, false⟩]
      ⟨3, 1, 1, .lock 0, true⟩ [] 1 0 told ⟨rfl, rfl, rfl⟩
      (by simp [Waited]) awake
  cases member

/-- The simulation of the two is one the equivalence is about. -/
theorem mutexes_sound_iff_prompt_contended :
    (∀ s, Reached listed dumbMap 0 2 contended s → MutexesSound s.mapping) ↔
      ∀ s s' events, Reached listed dumbMap 0 2 contended s →
        Goes (Sim.round listed dumbMap) s s' →
        s'.history = s.history ++ events →
        Prompt s.history events :=
  mutexes_sound_iff_prompt listed dumbMap 0 2 contended respects_contended

end Dfk.Schedprof
