import Dfk.Scheduler.Lifetimes

/-!
# What a work cycle reports

`dfk_work` returns `dfk_err_ok` after every switch to the scheduler, also if
there was no memory for the fiber of the event loop and the main fiber has been
freed without being started.
-/

namespace Dfk.Scheduler

open Ledger Runs

variable {ι μ κ : Type} [DecidableEq ι] [DecidableEq μ] [DecidableEq κ]

/-! ## The source -/

/-- The codes that `dfk_work` returns. -/
inductive WorkErr where
  | ok
  | nomem
  deriving Repr, DecidableEq

/-- `dfk_errno` behind a failed `dfk__spawn` -/
def spawnErrno : WorkErr := .nomem

/-- What `dfk_work` returns, whatever happens behind `coro_transfer`. -/
def dfkWorkErr (obtains : Obtains) : WorkErr :=
  if obtains.main then
    if obtains.scheduler then .ok else spawnErrno
  else spawnErrno

/-! ## What is promised -/

/-- The scheduler has run until there was no fiber left to schedule. -/
def RanOut (poller : Poller) (work : Work ι μ κ) (turns : List (Turn ι μ κ)) :
    Prop :=
  ∃ before state lifetimes,
    turns = before ++ [Turn.finish] ∧
      Run (Work.Steps poller) work before (.looping state lifetimes) ∧
      state.pending = [] ∧ state.batch = [] ∧ state.iowait = 0

/-- An object has been freed, and only when it was held. -/
structure FreedOnce (lifetimes : Lifetimes ι) (object : Object ι) : Prop where
  freed : .released object ∈ lifetimes
  once :
    ∀ before after,
      lifetimes = before ++ .released object :: after →
        held before object = true

/--
`dfk_work` returns `dfk_err_ok` exactly if the main fiber was started and the
scheduler ran until nothing was left, and has freed every object it obtained.
-/
structure Reports (poller : Poller) (main : ι) (obtains : Obtains)
    (turns : List (Turn ι μ κ)) (lifetimes : Lifetimes ι) : Prop where
  tells :
    dfkWorkErr obtains = .ok ↔
      .used (.fiber main) ∈ lifetimes ∧
        RanOut poller (dfkWork main obtains) turns
  frees :
    ∀ object ∈ [.fiber main, .scheduler, .eventloop],
      .obtained object ∈ lifetimes → FreedOnce lifetimes object

/-- The entry point of the main fiber returns. -/
def Returns (poller : Poller) (main : ι) (work : Work ι μ κ)
    (turns : List (Turn ι μ κ)) : Prop :=
  ∃ before after state lifetimes,
    turns = before ++ .goOn (.call .exit) :: after ∧
      Run (Work.Steps poller) work before (.looping state lifetimes) ∧
      state.control = .fiber (.fiber main)

/-! ## One turn -/

section Turns

variable {poller : Poller} {turn : Turn ι μ κ} {work next : Work ι μ κ}
variable {state : State (Object ι) μ κ} {lifetimes : Lifetimes ι} {main : ι}

/-- What comes next is determined by the turn. -/
theorem steps_functional
    (poller : Poller) (work : Work ι μ κ) (turn : Turn ι μ κ)
    (next other : Work ι μ κ)
    (steps : work.Steps poller turn next)
    (steps' : work.Steps poller turn other) :
    next = other := by
  cases work with
  | returned lifetimes =>
      exact steps.elim
  | looping state lifetimes =>
      exact Except.ok.inj (steps.2.symm.trans steps'.2)

/-- Nothing that has happened to fiber objects is forgotten. -/
theorem lifetimes_of_steps
    (steps : Work.Steps poller (.looping state lifetimes) turn next) :
    ∃ more, next.lifetimes = lifetimes ++ more := by
  obtain ⟨-, advances⟩ := steps
  cases turn with
  | goOn action =>
      obtain ⟨after, -, isNext⟩ := of_bind advances
      cases isNext
      exact ⟨_, rfl⟩
  | report outcome =>
      cases advances
      exact ⟨[], (List.append_nil _).symm⟩
  | fail =>
      cases advances
      exact ⟨[], (List.append_nil _).symm⟩
  | finish =>
      cases advances
      exact ⟨_, List.append_assoc _ _ _⟩

/-- The main fiber has been started, or is the next to be started. -/
def Begun (main : ι) : Work ι μ κ → Prop
  | .looping state lifetimes =>
      .used (.fiber main) ∈ lifetimes ∨
        state.control = .spinning ∧ state.pending = [.fiber main] ∨
        state.control = .draining ∧ state.batch = [.fiber main]
  | .returned lifetimes => .used (.fiber main) ∈ lifetimes

omit [DecidableEq ι] [DecidableEq μ] [DecidableEq κ] in
theorem Begun.of_used
    (used : .used (.fiber main) ∈ work.lifetimes) :
    Begun main work := by
  cases work with
  | looping state lifetimes =>
      exact Or.inl used
  | returned lifetimes =>
      exact used

/-- One turn. -/
theorem Begun.steps
    (begun : Begun main work)
    (steps : work.Steps poller turn next) :
    Begun main next := by
  cases work with
  | returned lifetimes =>
      exact steps.elim
  | looping state lifetimes =>
      have isBegun :
          .used (.fiber main) ∈ lifetimes ∨
            state.control = .spinning ∧ state.pending = [.fiber main] ∨
            state.control = .draining ∧ state.batch = [.fiber main] :=
        begun
      -- Only the scheduler takes turns until it has switched to a fiber.
      have schedules
          (control :
            state.control = .spinning ∨ state.control = .draining) :
          turn = .goOn .schedule := by
        obtain ⟨allowed, -⟩ := steps
        cases turn with
        | goOn action =>
            cases action with
            | schedule =>
                rfl
            | poll outcome =>
                have isEventloop : state.control = .eventloop := allowed.1
                rw [isEventloop] at control
                rcases control with never | never <;> cases never
            | proceed =>
                obtain ⟨this, isFiber, -⟩ := allowed.1
                rw [isFiber] at control
                rcases control with never | never <;> cases never
            | call call =>
                obtain ⟨this, isFiber, -⟩ := allowed.1
                rw [isFiber] at control
                rcases control with never | never <;> cases never
        | report outcome =>
            rw [allowed.2.1] at control
            rcases control with never | never <;> cases never
        | fail =>
            rw [allowed.1] at control
            rcases control with never | never <;> cases never
        | finish =>
            have isFinished : state.control = .finished := allowed
            rw [isFinished] at control
            rcases control with never | never <;> cases never
      rcases isBegun with used | ⟨control, isPending⟩ | ⟨control, isBatch⟩
      · obtain ⟨more, areLifetimes⟩ := lifetimes_of_steps steps
        apply Begun.of_used
        rw [areLifetimes]
        exact List.mem_append_left _ used
      · cases schedules (Or.inl control)
        obtain ⟨after, stepped, isNext⟩ := of_bind steps.2
        cases isNext
        simp only [step, control] at stepped
        cases stepped
        have isSpin :
            spin state =
              { state with
                live := fun query =>
                  state.live query && query ∉ state.terminated
                terminated := []
                batch := state.pending
                pending := []
                control := .draining } := by
          rw [spin, if_neg]
          rintro ⟨-, none, -⟩
          rw [none] at isPending
          cases isPending
        rw [isSpin]
        exact Or.inr (Or.inr ⟨rfl, isPending⟩)
      · cases schedules (Or.inr control)
        obtain ⟨after, stepped, isNext⟩ := of_bind steps.2
        cases isNext
        apply Begun.of_used
        rw [Work.lifetimes, happens, Scheduler.schedules, control]
        dsimp only
        rw [isBatch]
        exact List.mem_append_right _ (List.mem_singleton_self _)

/-- Only a fiber that returns is terminated, and only those are freed. -/
theorem terminated_of_step
    {action : Action (Object ι) μ κ} {after : State (Object ι) μ κ}
    (allowed : Allowed state action)
    (stepped : step state action = .ok after)
    (object : Object ι) :
    (.released object ∈ happens state action ∨ object ∈ after.terminated) ↔
      object ∈ state.terminated ∨
        action = .call .exit ∧ state.control = .fiber object := by
  have same
      (nothing : .released object ∉ happens state action)
      (noExit : action ≠ .call .exit)
      (terminated : after.terminated = state.terminated) :
      (.released object ∈ happens state action ∨
          object ∈ after.terminated) ↔
        object ∈ state.terminated ∨
          action = .call .exit ∧ state.control = .fiber object := by
    rw [terminated, or_iff_right nothing]
    exact (or_iff_left fun exits => noExit exits.1).symm
  cases action with
  | schedule =>
      by_cases spinning : state.control = .spinning
      · obtain ⟨releases, isNext⟩ :=
          schedule_of_spinning allowed spinning stepped
        have cleared : after.terminated = [] := by
          rw [isNext, spin]
          split
          · rename_i nothing
            exact nothing.1
          · rfl
        rw [releases, cleared]
        simp
      · have control := allowed.resolve_left spinning
        simp only [step, control] at stepped
        cases stepped
        apply same _ (by simp)
        · rw [drain]
          split
          · rfl
          · split <;> rfl
        · rw [happens, Scheduler.schedules, control]
          dsimp only
          split
          · simp
          · split <;> simp
  | poll outcome =>
      have control : state.control = .eventloop := allowed
      simp only [step, control] at stepped
      cases stepped
      exact same (by simp [happens]) (by simp) eventloopMain_same.2
  | proceed =>
      obtain ⟨this, control, -⟩ := allowed
      simp only [step, control] at stepped
      exact same (by simp [happens]) (by simp)
        (proceed_kept stepped).terminated
  | call call =>
      obtain ⟨this, control, -⟩ := allowed
      simp only [step, control] at stepped
      have nothing : .released object ∉ happens state (.call call) := by
        cases call with
        | spawn fiber =>
            cases fiber <;> simp [happens]
        | _ =>
            simp [happens]
      by_cases exits : call = .exit
      · rw [exits] at stepped ⊢
        cases stepped
        rw [control, or_iff_right (by simp [happens])]
        change object ∈ state.terminated ++ [this] ↔ _
        simp [eq_comm]
      · apply same nothing (by simp [exits])
        cases performed_of_perform stepped with
        | spawn fiber =>
            cases fiber <;> rfl
        | io socket events =>
            rfl
        | exit =>
            exact absurd rfl exits
        | other noSpawn noIo kept =>
            exact kept.terminated

end Turns

/-! ## Runs -/

section Runs

variable {poller : Poller} {turn : Turn ι μ κ} {turns : List (Turn ι μ κ)}
variable {work final : Work ι μ κ} {state : State (Object ι) μ κ}
variable {lifetimes : Lifetimes ι} {main : ι} {obtains : Obtains}

/-- A work cycle that has returned goes on no more. -/
theorem run_of_returned
    (run : Run (Work.Steps poller) (.returned lifetimes) turns final) :
    turns = [] ∧ final = .returned lifetimes := by
  generalize isStart : (Work.returned lifetimes : Work ι μ κ) = start at run
  induction run with
  | nil =>
      exact ⟨rfl, rfl⟩
  | snoc run last inductionHypothesis =>
      obtain ⟨-, isMiddle⟩ := inductionHypothesis
      rw [isMiddle, ← isStart] at last
      exact last.elim

/-- What has happened in the beginning stays in the record. -/
theorem lifetimes_of_run
    (run : Run (Work.Steps poller) work turns final) :
    ∃ more, final.lifetimes = work.lifetimes ++ more := by
  induction run with
  | nil =>
      exact ⟨[], (List.append_nil _).symm⟩
  | @snoc middle final turns turn run last inductionHypothesis =>
      obtain ⟨more, before⟩ := inductionHypothesis
      cases middle with
      | returned lifetimes =>
          exact last.elim
      | looping state lifetimes =>
          obtain ⟨others, after⟩ := lifetimes_of_steps last
          refine ⟨more ++ others, ?_⟩
          rw [after, ← List.append_assoc, ← before]
          rfl

/-- The main fiber returns in one of the turns. -/
theorem returns_concat
    (run : Run (Work.Steps poller) work turns (.looping state lifetimes)) :
    Returns poller main work (turns ++ [turn]) ↔
      Returns poller main work turns ∨
        turn = .goOn (.call .exit) ∧
          state.control = .fiber (.fiber main) := by
  constructor
  · rintro ⟨before, after, other, others, split, run', control⟩
    rcases List.eq_nil_or_concat after with rfl | ⟨front, last, rfl⟩
    · obtain ⟨rfl, same⟩ := List.append_inj' split rfl
      cases run.unique (steps_functional poller) run'
      exact Or.inr ⟨List.singleton_inj.mp same, control⟩
    · rw [List.concat_eq_append, ← List.cons_append, ← List.append_assoc]
        at split
      exact Or.inl ⟨before, front, other, others,
        (List.append_inj' split rfl).1, run', control⟩
  · rintro (⟨before, after, other, others, rfl, run', control⟩ |
      ⟨rfl, control⟩)
    · refine ⟨before, after ++ [turn], other, others, ?_, run', control⟩
      rw [List.append_assoc, List.cons_append]
    · exact ⟨turns, [], state, lifetimes, rfl, run, control⟩

/-- The main fiber is freed, or about to be, exactly if it has returned. -/
theorem released_iff_returns
    (run : Run (Work.Steps poller) (dfkWork main obtains) turns final)
    (isFinal : final = .looping state lifetimes) :
    (.released (.fiber main) ∈ lifetimes ∨
        .fiber main ∈ state.terminated) ↔
      Returns poller main (dfkWork main obtains) turns := by
  induction run generalizing state lifetimes with
  | nil =>
      refine iff_of_false ?_ ?_
      · rw [dfkWork, schedulerMain] at isFinal
        split at isFinal
        · split at isFinal
          · split at isFinal
            · cases isFinal
              simp [start]
            · cases isFinal
          · cases isFinal
        · cases isFinal
      · rintro ⟨before, after, other, others, split, -⟩
        cases before <;> cases split
  | @snoc middle final turns turn run last inductionHypothesis =>
      cases middle with
      | returned others =>
          exact last.elim
      | looping other others =>
          rw [returns_concat run, ← inductionHypothesis rfl]
          obtain ⟨allowed, advances⟩ := last
          cases turn with
          | goOn action =>
              obtain ⟨after, stepped, isNext⟩ := of_bind advances
              rw [isFinal] at isNext
              cases isNext
              have turned :
                  (Turn.goOn action : Turn ι μ κ) = .goOn (.call .exit) ↔
                    action = .call .exit :=
                ⟨fun same => by cases same; rfl, fun same => by rw [same]⟩
              rw [List.mem_append, or_assoc,
                terminated_of_step allowed.1 stepped, turned, or_assoc]
          | report outcome =>
              rw [isFinal] at advances
              cases advances
              rw [epollMain_same.2]
              simp
          | fail =>
              rw [isFinal] at advances
              cases advances
              simp [leaveEventloop]
          | finish =>
              rw [isFinal] at advances
              cases advances

/-- What a work cycle that has returned has gone through. -/
theorem finished_of_returned
    (run : Run (Work.Steps poller) (.looping state lifetimes) turns final)
    (returned : final.HasReturned) :
    ∃ (before : List (Turn ι μ κ)) (other : State (Object ι) μ κ)
        (others : Lifetimes ι),
      turns = before ++ [Turn.finish] ∧
        Run (Work.Steps poller) (.looping state lifetimes) before
          (.looping other others) ∧
        other.control = .finished ∧
        final.lifetimes =
          others ++ [.released .eventloop] ++ [.released .scheduler] := by
  cases run with
  | nil =>
      exact returned.elim
  | @snoc middle final turns turn run last =>
      cases middle with
      | returned others =>
          exact last.elim
      | looping other others =>
          obtain ⟨allowed, advances⟩ := last
          cases turn with
          | goOn action =>
              obtain ⟨after, -, isNext⟩ := of_bind advances
              cases isNext
              exact returned.elim
          | report outcome =>
              cases advances
              exact returned.elim
          | fail =>
              cases advances
              exact returned.elim
          | finish =>
              cases advances
              exact ⟨turns, other, others, rfl, run, allowed, rfl⟩

/-- Objects that are freed soundly are freed once. -/
theorem freedOnce_of_sound
    {object : Object ι}
    (sound : Sound lifetimes)
    (freed : .released object ∈ lifetimes) :
    FreedOnce lifetimes object where
  freed := freed
  once := fun before after split => sound before _ after split

/-- A work cycle that lacks memory for one of the first two fibers. -/
theorem reports_of_refused
    (refused : obtains.main = false ∨ obtains.scheduler = false)
    (run : Run (Work.Steps poller) (dfkWork main obtains) turns final) :
    Reports poller main obtains turns final.lifetimes := by
  have isCode : dfkWorkErr obtains ≠ .ok := by
    rw [dfkWorkErr, spawnErrno]
    rcases refused with none | none
    · rw [none]
      exact WorkErr.noConfusion
    · rw [none]
      split
      · exact WorkErr.noConfusion
      · exact WorkErr.noConfusion
  obtain ⟨lifetimes, isStart, isRecord⟩ :
      ∃ lifetimes,
        (dfkWork main obtains : Work ι μ κ) = .returned lifetimes ∧
          (lifetimes = [] ∨
            lifetimes =
              [.obtained (.fiber main), .released (.fiber main)]) := by
    rw [dfkWork]
    rcases refused with none | none
    · rw [none]
      exact ⟨[], rfl, Or.inl rfl⟩
    · rw [none]
      split
      · exact ⟨_, rfl, Or.inr rfl⟩
      · exact ⟨[], rfl, Or.inl rfl⟩
  have followed := run_followed run
  rw [isStart] at run
  obtain ⟨rfl, rfl⟩ := run_of_returned run
  have sound : Sound lifetimes :=
    (followed.1 (List.not_mem_nil)).sound
  refine ⟨iff_of_false isCode ?_, fun object _ obtained => ?_⟩
  · rintro ⟨used, -⟩
    rcases isRecord with rfl | rfl <;> simp [Work.lifetimes] at used
  · rcases isRecord with rfl | rfl
    · cases obtained
    · apply freedOnce_of_sound sound
      simp only [Work.lifetimes, List.mem_cons, Event.obtained.injEq,
        reduceCtorEq, List.not_mem_nil, or_false] at obtained
      rw [obtained]
      simp

/-- Without memory for the event loop the code is wrong. -/
theorem not_reports_of_hidden
    (isMain : obtains.main = true)
    (isScheduler : obtains.scheduler = true)
    (noEventloop : obtains.eventloop = false)
    (run : Run (Work.Steps poller) (dfkWork main obtains) turns final) :
    ¬ Reports poller main obtains turns final.lifetimes := by
  have isCode : dfkWorkErr obtains = .ok := by
    rw [dfkWorkErr, isMain, isScheduler]
    rfl
  have isStart :
      ∃ lifetimes,
        (dfkWork main obtains : Work ι μ κ) = .returned lifetimes := by
    rw [dfkWork, isMain, isScheduler, schedulerMain, noEventloop]
    exact ⟨_, rfl⟩
  obtain ⟨lifetimes, isStart⟩ := isStart
  intro reports
  obtain ⟨-, before, other, others, split, -⟩ := reports.tells.mp isCode
  rw [isStart] at run
  obtain ⟨rfl, -⟩ := run_of_returned run
  cases before <;> cases split

/-- With memory for all three the main fiber and the event loop decide. -/
theorem reports_iff_of_obtained
    (isMain : obtains.main = true)
    (isScheduler : obtains.scheduler = true)
    (isEventloop : obtains.eventloop = true)
    (run : Run (Work.Steps poller) (dfkWork main obtains) turns final)
    (returned : final.HasReturned) :
    Reports poller main obtains turns final.lifetimes ↔
      .fail ∉ turns ∧
        Returns poller main (dfkWork main obtains) turns := by
  have isCode : dfkWorkErr obtains = .ok := by
    rw [dfkWorkErr, isMain, isScheduler]
    rfl
  have isStart :
      (dfkWork main obtains : Work ι μ κ) =
        .looping (start (.fiber main))
          [.obtained (.fiber main), .obtained .scheduler, .used .scheduler,
            .obtained .eventloop] := by
    rw [dfkWork, isMain, isScheduler, schedulerMain, isEventloop]
    rfl
  have followed := run_followed run
  have runLoop := run
  rw [isStart] at runLoop
  obtain ⟨before, state, lifetimes, rfl, prefixRun, control, record⟩ :=
    finished_of_returned runLoop returned
  rw [← isStart] at prefixRun
  have goesOn := run_followed prefixRun
  have placed : Placed state := by
    by_cases failed : .fail ∈ before
    · have left : Left state lifetimes := goesOn.2 failed
      exact left.toPlaced
    · have tended : Tended state lifetimes := goesOn.1 failed
      exact tended.toPlaced
  obtain ⟨location, consistent⟩ := placed.consistent
  obtain ⟨terminated, pending, iowait⟩ := consistent.finished control
  have batch := consistent.batch (Or.inr (Or.inr control))
  have noFail : (.fail ∉ before ++ [Turn.finish]) ↔ .fail ∉ before := by
    simp
  have hasReturned :
      Returns poller main (dfkWork main obtains)
          (before ++ [Turn.finish]) ↔
        .released (.fiber main) ∈ lifetimes := by
    rw [returns_concat prefixRun, ← released_iff_returns prefixRun rfl,
      terminated]
    simp
  have used : .used (.fiber main) ∈ lifetimes := by
    have begun : Begun main (.looping state lifetimes) := by
      apply prefixRun.invariant
      · rw [isStart]
        exact Or.inr (Or.inl ⟨rfl, rfl⟩)
      · exact fun _ _ _ _ begun steps => begun.steps steps
    rcases begun with used | ⟨other, -⟩ | ⟨other, -⟩
    · exact used
    · rw [control] at other
      cases other
    · rw [control] at other
      cases other
  have tells :
      dfkWorkErr obtains = .ok ↔
        .used (.fiber main) ∈ final.lifetimes ∧
          RanOut poller (dfkWork main obtains)
            (before ++ [Turn.finish]) := by
    refine iff_of_true isCode ⟨?_, before, state, lifetimes, rfl, prefixRun,
      pending, batch, iowait⟩
    rw [record]
    exact List.mem_append_left _ (List.mem_append_left _ used)
  have obtainedAll :
      ∀ object ∈ [Object.fiber main, .scheduler, .eventloop],
        .obtained object ∈ final.lifetimes := by
    obtain ⟨more, extended⟩ := lifetimes_of_run run
    rw [isStart] at extended
    rw [extended]
    intro object member
    simp only [List.mem_cons, List.not_mem_nil, or_false] at member
    rcases member with rfl | rfl | rfl <;> simp [Work.lifetimes]
  rw [noFail, hasReturned]
  constructor
  · rintro ⟨-, frees⟩
    constructor
    · intro failed
      have left : Left state lifetimes := goesOn.2 failed
      have isReleased : held lifetimes .eventloop = false := by
        apply left.gone.resolve_left
        intro isLive
        have spinning := (left.eventloop isLive).1
        rw [control] at spinning
        cases spinning
      have isHeld :=
        (frees .eventloop (by simp) (obtainedAll _ (by simp))).once lifetimes
          [.released .scheduler] (by rw [record, List.append_assoc]; rfl)
      rw [isReleased] at isHeld
      cases isHeld
    · have freed :=
        (frees (.fiber main) (by simp) (obtainedAll _ (by simp))).freed
      rw [record] at freed
      simpa using freed
  · rintro ⟨noFailure, isFreed⟩
    have sound : Sound final.lifetimes :=
      (followed.1 (noFail.mpr noFailure)).sound
    refine ⟨tells, fun object member _ => freedOnce_of_sound sound ?_⟩
    rw [record]
    simp only [List.mem_cons, List.not_mem_nil, or_false] at member
    rcases member with rfl | rfl | rfl
    · exact List.mem_append_left _ (List.mem_append_left _ isFreed)
    · simp
    · simp

end Runs

/--
When `dfk_work` returns, its code is right and every object it obtained is
freed once exactly if memory for one of the first two fibers was refused, or
there was memory for the event loop, the entry point returned and no system
call of the event loop failed.
-/
theorem dfk_work_reports_iff
    {poller : Poller} {main : ι} {obtains : Obtains}
    {turns : List (Turn ι μ κ)} {final : Work ι μ κ}
    (run : Run (Work.Steps poller) (dfkWork main obtains) turns final)
    (returned : final.HasReturned) :
    Reports poller main obtains turns final.lifetimes ↔
      obtains.main = false ∨ obtains.scheduler = false ∨
        obtains.eventloop = true ∧ .fail ∉ turns ∧
          Returns poller main (dfkWork main obtains) turns := by
  cases isMain : obtains.main with
  | false =>
      exact iff_of_true (reports_of_refused (Or.inl isMain) run) (Or.inl rfl)
  | true =>
      cases isScheduler : obtains.scheduler with
      | false =>
          exact iff_of_true (reports_of_refused (Or.inr isScheduler) run)
            (Or.inr (Or.inl rfl))
      | true =>
          cases isEventloop : obtains.eventloop with
          | false =>
              refine iff_of_false
                (not_reports_of_hidden isMain isScheduler isEventloop run) ?_
              simp
          | true =>
              rw [reports_iff_of_obtained isMain isScheduler isEventloop run
                returned]
              simp

/-- The code is right for a main fiber that returns at once. -/
theorem dfk_work_reports_iff_uneventful :
    ∃ final : Work Nat Unit Unit,
      Run (Work.Steps .epoll) (dfkWork 1 allObtained) uneventful final ∧
        final.HasReturned ∧
        (Reports .epoll 1 allObtained uneventful final.lifetimes ↔
          allObtained.main = false ∨ allObtained.scheduler = false ∨
            allObtained.eventloop = true ∧ .fail ∉ uneventful ∧
              Returns .epoll 1 (dfkWork 1 allObtained) uneventful) := by
  have executed :
      Runs.execute (Work.attempt .epoll)
          (dfkWork 1 allObtained : Work Nat Unit Unit) uneventful =
        some (.returned
          [.obtained (.fiber 1), .obtained .scheduler, .used .scheduler,
            .obtained .eventloop, .used (.fiber 1), .released (.fiber 1),
            .released .eventloop, .released .scheduler]) := by
    rfl
  have run :=
    Runs.run_of_execute (fun _ _ _ => Work.steps_of_attempt) executed
  exact ⟨_, run, trivial, dfk_work_reports_iff run trivial⟩

/-- Memory for the event loop alone is refused. -/
def noEventloop : Obtains where
  main := true
  scheduler := true
  eventloop := false

/-- `dfk_work` returns `dfk_err_ok`, and the main fiber was never started. -/
theorem dfk_work_hides_failure :
    ∃ final : Work Nat Unit Unit,
      Run (Work.Steps .epoll) (dfkWork 1 noEventloop) [] final ∧
        final.HasReturned ∧ dfkWorkErr noEventloop = .ok ∧
        .used (.fiber 1) ∉ final.lifetimes ∧
        ¬ Reports .epoll 1 noEventloop ([] : List (Turn Nat Unit Unit))
          final.lifetimes := by
  have run :
      Run (Work.Steps .epoll) (dfkWork 1 noEventloop : Work Nat Unit Unit) []
        (dfkWork 1 noEventloop) :=
    Run.nil _
  exact ⟨_, run, trivial, rfl, by decide,
    not_reports_of_hidden rfl rfl rfl run⟩

end Dfk.Scheduler
