import Dfk.Library.Loops
import Dfk.Library.Passes

/-!
# The scheduler simulator

`schedprof` runs a program of coroutines on a number of simulated CPUs.  A CPU
holds a coroutine until the time its instruction is due; at every scheduling
point the coroutines that are done leave their CPUs, those that waited for a
mutex are resumed, and the scheduler maps ready coroutines to idle CPUs.  The
objects are numbered, as `EnumeratedInstance` does it.  What only
`status_string` prints, the state of a CPU, is left out.
-/

namespace Dfk.Schedprof

open Loops

abbrev CpuId := Nat

abbrev CoroId := Nat

abbrev MutexId := Nat

/-- The instructions a coroutine yields. -/
inductive Op where
  | cpu (ns : Int)
  | io (ns : Int)
  | lock (mutex : MutexId)
  | unlock (mutex : MutexId)
  | spawn (coro : CoroId)
  | terminate (coro : CoroId)
  deriving Repr, DecidableEq

/-- How long an instruction takes: the second component of its tuple. -/
def Op.duration : Op → Int
  | .cpu ns => ns
  | .io ns => ns
  | .lock _ => 1
  | .unlock _ => 1
  | .spawn _ => 1
  | .terminate _ => 1

/--
The exceptions a simulation ends with.  The last one is not raised by the
source: it stands for a simulation that goes on.
-/
inductive Raised where
  | runtimeError (message : String)
  | valueError
  | stopIteration
  | assertionError
  | unfinished
  deriving Repr, DecidableEq

structure Cpu where
  due : Int
  coro : Option CoroId
  lastCoro : Option CoroId
  deriving Repr, DecidableEq

/-- A CPU that has not run anything. -/
def Cpu.fresh : Cpu where
  due := 0
  coro := none
  lastCoro := none

/-- The CPU runs no coroutine at a time. -/
def Cpu.idle (cpu : Cpu) (time : Int) : Bool :=
  cpu.coro.isNone || decide (cpu.due ≤ time)

/-- The CPU runs a coroutine at a time. -/
def Cpu.burning (cpu : Cpu) (time : Int) : Bool :=
  !cpu.idle time

/-- The task of the CPU is completed and has not been finalized. -/
def Cpu.completed (cpu : Cpu) (time : Int) : Bool :=
  cpu.coro.isSome && decide (cpu.due ≤ time)

/--
A coroutine.  Its task queue chains the body and one `terminate`; whether the
latter has been taken is what remains of the iterator.
-/
structure Coroutine where
  head : Option Op
  cpu : Option CpuId
  suspended : Bool
  exhausted : Bool
  deriving Repr, DecidableEq

/-- A coroutine that has not been run. -/
def Coroutine.fresh : Coroutine where
  head := none
  cpu := none
  suspended := false
  exhausted := false

def Coroutine.ready (coroutine : Coroutine) : Bool :=
  !coroutine.suspended && coroutine.cpu.isNone

structure Mutex where
  acquiredBy : Option CoroId
  waitQueue : List CoroId
  deriving Repr, DecidableEq

/-- A mutex nobody has locked. -/
def Mutex.fresh : Mutex where
  acquiredBy := none
  waitQueue := []

/--
What the CPU monitor is told of an instruction.  Beyond its arguments, an
event tells whether the instruction is a lock that makes its coroutine wait.
-/
structure Event where
  now : Int
  cpu : CpuId
  coro : CoroId
  task : Op
  blocked : Bool
  deriving Repr, DecidableEq

/--
The bodies of the coroutines: what a coroutine yields next and what that makes
of the variables of the program, or that its body returns.
-/
structure Program (σ : Type) where
  run : CoroId → σ → Option (Op × σ)

/-- The scheduler and the objects it works with. -/
structure Sim (σ : Type) where
  now : Int
  ncpu : Nat
  cpu : CpuId → Cpu
  coros : List CoroId
  coroutine : CoroId → Coroutine
  mutex : MutexId → Mutex
  mutexesToUnlock : List (Int × MutexId)
  idleCputime : Int
  contextSwitches : Nat
  cacheHits : Nat
  vars : σ
  history : List Event

/-- What `map_` does: the coroutines it peeks at, and the pairs it returns. -/
structure Mapped where
  peeked : List CoroId
  schedule : List (CpuId × CoroId)

/-- What a simulation returns. -/
structure Stat where
  elapsed : Int
  totalCputime : Int
  burningCputime : Int
  contextSwitches : Nat
  cacheHits : Nat
  deriving Repr, DecidableEq

section Steps

variable {σ : Type}

namespace Sim

/-- `self.cpus`. -/
def cpus (s : Sim σ) : List CpuId :=
  List.range s.ncpu

def setCpu (s : Sim σ) (k : CpuId) (cpu : Cpu) : Sim σ :=
  { s with cpu := Function.update s.cpu k cpu }

def setCoroutine (s : Sim σ) (c : CoroId) (coroutine : Coroutine) : Sim σ :=
  { s with coroutine := Function.update s.coroutine c coroutine }

def setMutex (s : Sim σ) (m : MutexId) (mutex : Mutex) : Sim σ :=
  { s with mutex := Function.update s.mutex m mutex }

/-- `next(self.task_queue)` of a coroutine. -/
def nextTask (program : Program σ) (s : Sim σ) (c : CoroId) :
    Except Raised (Op × Sim σ) :=
  if (s.coroutine c).exhausted then
    .error .stopIteration
  else
    match program.run c s.vars with
    | some (task, vars) => .ok (task, { s with vars := vars })
    | none =>
        .ok (.terminate c,
          s.setCoroutine c { s.coroutine c with exhausted := true })

/-- `Coroutine.pop_instruction`. -/
def popInstruction (program : Program σ) (s : Sim σ) (c : CoroId) :
    Except Raised (Op × Sim σ) :=
  if (s.coroutine c).suspended then
    .error (.runtimeError "Coroutine is suspended. Call resume first.")
  else
    match (s.coroutine c).head with
    | some head =>
        .ok (head, s.setCoroutine c { s.coroutine c with head := none })
    | none => s.nextTask program c

/-- `Coroutine.peek_instruction`. -/
def peekInstruction (program : Program σ) (s : Sim σ) (c : CoroId) :
    Except Raised (Sim σ) :=
  match (s.coroutine c).head with
  | some _ => .ok s
  | none => do
      let popped ← s.nextTask program c
      return popped.2.setCoroutine c
        { popped.2.coroutine c with head := some popped.1 }

/-- `Coroutine.suspend`. -/
def suspendCoroutine (s : Sim σ) (c : CoroId) (instruction : Op) :
    Except Raised (Sim σ) :=
  if (s.coroutine c).head.isSome then
    .error .assertionError
  else
    .ok (s.setCoroutine c
      { s.coroutine c with suspended := true, head := some instruction })

/-- `Coroutine.resume`. -/
def resume (s : Sim σ) (c : CoroId) : Sim σ :=
  s.setCoroutine c { s.coroutine c with suspended := false }

/-- `CPU.suspend`, for a CPU that holds a coroutine. -/
def suspendCpu (s : Sim σ) (k : CpuId) (c : CoroId) : Sim σ :=
  (s.setCoroutine c { s.coroutine c with cpu := none }).setCpu k
    { due := 0, coro := none, lastCoro := some c }

/-- `CPU.wakeup`, and what is counted beside it. -/
def wakeup (s : Sim σ) (k : CpuId) (c : CoroId) (due : Int) :
    Except Raised (Sim σ) :=
  if (s.cpu k).coro.isSome then
    .error .assertionError
  else
    let hit := if (s.cpu k).lastCoro = some c then 1 else 0
    .ok { (s.setCoroutine c { s.coroutine c with cpu := some k }).setCpu k
            { s.cpu k with due := due, coro := some c } with
          contextSwitches := s.contextSwitches + 1
          cacheHits := s.cacheHits + hit }

/-- Finalize a CPU whose task is completed. -/
def finalizeCpu (s : Sim σ) (k : CpuId) : Sim σ :=
  match (s.cpu k).coro with
  | some c => if (s.cpu k).due ≤ s.now then s.suspendCpu k c else s
  | none => s

/-- Finalize completed tasks. -/
def finalize (s : Sim σ) : Sim σ :=
  s.cpus.foldl finalizeCpu s

/-- The coroutines in the queues of the mutexes whose unlock is due. -/
def toResume (s : Sim σ) : List CoroId :=
  (s.mutexesToUnlock.filter fun unlocked => unlocked.1 ≤ s.now).flatMap
    fun unlocked => (s.mutex unlocked.2).waitQueue

/-- Perform pending mutex unlocks. -/
def resumeWaiting (s : Sim σ) : Sim σ :=
  s.toResume.foldl resume s

/-- What the scheduler maps at a scheduling point. -/
def mapping (s : Sim σ) : Sim σ :=
  s.finalize.resumeWaiting

/-- A lock makes its coroutine wait. -/
def blocks (s : Sim σ) : Op → Bool
  | .lock m => (s.mutex m).acquiredBy.isSome
  | _ => false

/-- Tell the CPU monitor. -/
def monitor (s : Sim σ) (k : CpuId) (c : CoroId) (task : Op) : Sim σ :=
  { s with
    history := s.history ++ [{
      now := s.now
      cpu := k
      coro := c
      task := task
      blocked := s.blocks task
    }] }

/-- What an instruction does besides taking its time. -/
def perform (s : Sim σ) (c : CoroId) : Op → Except Raised (Sim σ)
  | .lock m =>
      match (s.mutex m).acquiredBy with
      | some _ =>
          (s.setMutex m { s.mutex m with
              waitQueue := (s.mutex m).waitQueue ++ [c] }).suspendCoroutine
            c (.lock m)
      | none => .ok (s.setMutex m { s.mutex m with acquiredBy := some c })
  | .unlock m =>
      if (s.mutex m).acquiredBy ≠ some c then
        .error (.runtimeError "An attempt to unlock non-owned mutex")
      else
        .ok { s.setMutex m { s.mutex m with acquiredBy := none } with
              mutexesToUnlock :=
                s.mutexesToUnlock ++ [(s.now + (Op.unlock m).duration, m)] }
  | .spawn spawned => .ok { s with coros := s.coros ++ [spawned] }
  | .terminate killed =>
      if killed ∈ s.coros then
        .ok { s with coros := s.coros.erase killed }
      else
        .error .valueError
  | .cpu _ => .ok s
  | .io _ => .ok s

/-- Fetch the next instruction of a coroutine and let a CPU execute it. -/
def dispatch (program : Program σ) (s : Sim σ) (pair : CpuId × CoroId) :
    Except Raised (Sim σ) := do
  let popped ← s.popInstruction program pair.2
  let performed ←
    (popped.2.monitor pair.1 pair.2 popped.1).perform pair.2 popped.1
  performed.wakeup pair.1 pair.2 (performed.now + popped.1.duration)

/-- Execute what has been mapped, in the order of the CPUs. -/
def executeMapped (program : Program σ) (s : Sim σ) (mapped : Mapped) :
    Except Raised (Sim σ) := do
  let peeked ← mapped.peeked.foldlM (peekInstruction program) s
  let schedule := mapped.schedule.insertionSort (fun p q => p.1 ≤ q.1)
  if schedule.any fun pair => (peeked.cpu pair.1).burning peeked.now then
    .error (.runtimeError "Coroutine was mapped to burning CPU")
  else
    schedule.foldlM (dispatch program) peeked

/-- The nearest time at which a CPU that is busy is due. -/
def nextNow (s : Sim σ) : Option Int :=
  ((s.cpus.map fun k => (s.cpu k).due).filter fun due => s.now < due).min?

def nidlecpus (s : Sim σ) : Nat :=
  s.cpus.countP fun k => (s.cpu k).idle s.now

/-- Jump to the next scheduling point. -/
def advance (s : Sim σ) (nextnow : Int) : Sim σ :=
  { s with
    now := nextnow
    idleCputime := s.idleCputime + s.nidlecpus * (nextnow - s.now) }

def stat (s : Sim σ) : Stat where
  elapsed := s.now
  totalCputime := s.ncpu * s.now
  burningCputime := s.ncpu * s.now - s.idleCputime
  contextSwitches := s.contextSwitches
  cacheHits := s.cacheHits

/-- The program has reached its end. -/
def ended (s : Sim σ) : Bool :=
  (s.cpus.all fun k => (s.cpu k).idle s.now) && s.coros.isEmpty

/-- What follows when the mapped coroutines have been started. -/
def proceed (s : Sim σ) : Except Raised (Outcome (Sim σ) Stat) :=
  if s.ended then
    .ok (.stop s.stat)
  else
    match s.nextNow with
    | some nextnow => .ok (.next (s.advance nextnow))
    | none => .error .valueError

/-- One round of the loop of `run_program`. -/
def round (program : Program σ) (map : Sim σ → Mapped) (s : Sim σ) :
    Except Raised (Outcome (Sim σ) Stat) := do
  let executed ← s.mapping.executeMapped program (map s.mapping)
  executed.proceed

/-- The state before the first round. -/
def start (main : CoroId) (ncpu : Nat) (vars : σ) : Sim σ where
  now := 0
  ncpu := ncpu
  cpu := fun _ => .fresh
  coros := [main]
  coroutine := fun _ => .fresh
  mutex := fun _ => .fresh
  mutexesToUnlock := []
  idleCputime := 0
  contextSwitches := 0
  cacheHits := 0
  vars := vars
  history := []

end Sim

/-- `Scheduler.run_program`, for at most as many rounds as the fuel allows. -/
def runProgram (program : Program σ) (map : Sim σ → Mapped)
    (main : CoroId) (ncpu : Nat) (vars : σ) (fuel : Nat) :
    Except Raised Stat :=
  iterate (Sim.round program map) .unfinished fuel (.start main ncpu vars)

/-- `DumbScheduler.map_`. -/
def dumbMap (s : Sim σ) : Mapped where
  peeked := []
  schedule :=
    (s.cpus.filter fun k => (s.cpu k).idle s.now).zip
      (s.coros.filter fun c => (s.coroutine c).ready)

/-- A state a simulation comes to at the beginning of a round. -/
def Reached (program : Program σ) (map : Sim σ → Mapped)
    (main : CoroId) (ncpu : Nat) (vars : σ) : Sim σ → Prop :=
  Comes (Sim.round program map) (.start main ncpu vars)

section Rounds

variable {program : Program σ} {map : Sim σ → Mapped} {s s' : Sim σ}

/-- The next scheduling point is the time at which some busy CPU is due. -/
theorem mem_of_nextNow
    {nextnow : Int}
    (nearest : s.nextNow = some nextnow) :
    s.now < nextnow ∧ ∃ k ∈ s.cpus, (s.cpu k).due = nextnow := by
  have member := List.min?_mem nearest
  rw [List.mem_filter, List.mem_map, decide_eq_true_eq] at member
  exact ⟨member.2, member.1⟩

/-- No CPU that is busy is due before the next scheduling point. -/
theorem nextNow_le
    {nextnow : Int} {k : CpuId}
    (nearest : s.nextNow = some nextnow)
    (own : k ∈ s.cpus)
    (busy : s.now < (s.cpu k).due) :
    nextnow ≤ (s.cpu k).due := by
  apply (List.le_min?_iff nearest).mp le_rfl
  rw [List.mem_filter, List.mem_map, decide_eq_true_eq]
  exact ⟨⟨k, own, rfl⟩, busy⟩

/-- There is a next scheduling point if a CPU is busy. -/
theorem exists_nextNow
    {k : CpuId}
    (own : k ∈ s.cpus)
    (busy : s.now < (s.cpu k).due) :
    ∃ nextnow, s.nextNow = some nextnow := by
  rw [← Option.ne_none_iff_exists', Sim.nextNow, Ne, List.min?_eq_none_iff]
  apply List.ne_nil_of_mem
  rw [List.mem_filter, List.mem_map, decide_eq_true_eq]
  exact ⟨⟨k, own, rfl⟩, busy⟩

/-- A round that goes on has executed what was mapped. -/
theorem executed_of_goes
    (goes : Goes (Sim.round program map) s s') :
    ∃ executed nextnow,
      s.mapping.executeMapped program (map s.mapping) = .ok executed ∧
      executed.ended = false ∧ executed.nextNow = some nextnow ∧
      s' = executed.advance nextnow := by
  obtain ⟨executed, executes, proceeds⟩ := Passes.of_bind goes
  unfold Sim.proceed at proceeds
  split at proceeds
  · cases proceeds
  next goesOn =>
    split at proceeds
    next nextnow nearest =>
      cases proceeds
      exact ⟨executed, nextnow, executes, Bool.eq_false_iff.mpr goesOn,
        nearest, rfl⟩
    next =>
      cases proceeds

/-- What is mapped is executed in the order of the CPUs. -/
theorem passes_of_executeMapped
    {mapped : Mapped}
    (executes : s.executeMapped program mapped = .ok s') :
    ∃ peeked,
      mapped.peeked.foldlM (Sim.peekInstruction program) s = .ok peeked ∧
      (mapped.schedule.insertionSort fun p q => p.1 ≤ q.1).foldlM
        (Sim.dispatch program) peeked = .ok s' := by
  obtain ⟨peeked, peeks, rest⟩ := Passes.of_bind executes
  refine ⟨peeked, peeks, ?_⟩
  dsimp only at rest
  split at rest
  · cases rest
  · exact rest

end Rounds

end Steps

/-- The program whose coroutines yield the instructions of their lists. -/
def listed : Program (CoroId → List Op) where
  run c lists :=
    match lists c with
    | [] => none
    | task :: rest => some (task, Function.update lists c rest)

end Dfk.Schedprof
