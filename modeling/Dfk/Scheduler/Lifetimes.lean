import Dfk.Library.Ledger
import Dfk.Scheduler.Frame
import Dfk.Scheduler.Placement
import Dfk.Scheduler.WorkCycle

/-!
# Lifetimes of fibers

Every fiber that is live is in one place, so that a fiber in the list of the
terminated ones is in no other and is freed once.  The fiber of the event loop
is freed by `dfk__scheduler_main`; after a failure of its system call it is in
that list besides.
-/

namespace Dfk.Scheduler

variable {ι μ κ : Type}

/-! ## Which fibers are live -/

section Live

variable [DecidableEq ι] [DecidableEq μ] [DecidableEq κ]
variable {state next : State ι μ κ} {this : ι} {mutex : μ} {cond : κ}

/-- The fiber that a call obtains from `dfk__spawn`. -/
def Call.spawned : Call ι μ κ → Option ι
  | .spawn fiber => fiber
  | _ => none

/-- A call frees no fiber, and `dfk_spawn` obtains one. -/
theorem perform_live
    {call : Call ι μ κ}
    (performs : perform state this call = .ok next)
    (query : ι) :
    next.live query =
      (decide (call.spawned = some query) || state.live query) := by
  cases performed_of_perform performs with
  | spawn fiber =>
      cases fiber with
      | none => rfl
      | some fiber =>
          simp [Call.spawned, spawn, resume, State.emit, eq_comm]
  | io socket events => rfl
  | exit => rfl
  | other noSpawn noIo kept =>
      have notSpawned : call.spawned = none := by
        cases call with
        | spawn fiber => exact absurd rfl (noSpawn fiber)
        | _ => rfl
      rw [kept.live, notSpawned]
      rfl

omit [DecidableEq ι] [DecidableEq μ] [DecidableEq κ] in
theorem drain_live : (drain state).live = state.live := by
  rw [drain]
  split
  · rfl
  · split
    · rfl
    · rfl

omit [DecidableEq μ] [DecidableEq κ] in
/-- The scheduler frees what is in the list of terminated fibers. -/
theorem spin_live (query : ι) :
    (spin state).live query =
      (state.live query && decide (query ∉ state.terminated)) := by
  rw [spin]
  split
  · rename_i nothing
    simp [nothing.1]
  · rfl

omit [DecidableEq μ] [DecidableEq κ] in
/-- The event loop frees nothing, and terminates nothing. -/
theorem eventloopMain_same
    {outcome : Outcome} :
    (eventloopMain state outcome).live = state.live ∧
      (eventloopMain state outcome).terminated = state.terminated := by
  have polled :
      (poll state outcome).live = state.live ∧
        (poll state outcome).terminated = state.terminated := by
    cases outcome with
    | interrupted => exact ⟨rfl, rfl⟩
    | none => exact ⟨rfl, rfl⟩
    | ready ready =>
        have dispatched :
            (dispatch ready [] state.fds state).live = state.live ∧
              (dispatch ready [] state.fds state).terminated =
                state.terminated := by
          apply @dispatch_preserves ι μ κ _ ready fun after =>
            after.live = state.live ∧ after.terminated = state.terminated
          · intro after passed element elements _ same
            exact same
          · rfl
          · exact ⟨rfl, rfl⟩
        rw [poll]
        split
        · exact dispatched
        · exact dispatched
  rw [eventloopMain]
  split
  · split
    · exact ⟨rfl, rfl⟩
    · exact polled
  · exact polled

omit [DecidableEq μ] [DecidableEq κ] in
theorem eventloopMain_live
    {outcome : Outcome} :
    (eventloopMain state outcome).live = state.live :=
  eventloopMain_same.1

omit [DecidableEq μ] [DecidableEq κ] in
/-- Neither does that of `epoll.c`. -/
theorem epollMain_same
    {outcome : EpollOutcome ι} :
    (epollMain state outcome).live = state.live ∧
      (epollMain state outcome).terminated = state.terminated := by
  cases outcome with
  | interrupted => exact ⟨rfl, rfl⟩
  | none => exact ⟨rfl, rfl⟩
  | ready reported =>
      change
        (reported.foldl epollTake state).live = state.live ∧
          (reported.foldl epollTake state).terminated = state.terminated
      induction reported generalizing state with
      | nil => exact ⟨rfl, rfl⟩
      | cons first reported inductionHypothesis =>
          rw [List.foldl_cons]
          exact inductionHypothesis

omit [DecidableEq μ] [DecidableEq κ] in
theorem epollMain_live
    {outcome : EpollOutcome ι} :
    (epollMain state outcome).live = state.live :=
  epollMain_same.1

end Live

/-! ## Where fibers are -/

section Places

variable [DecidableEq ι] [DecidableEq μ] [DecidableEq κ]
variable {state : State ι μ κ} {location : ι → Option (Place μ κ)}

/-- `epoll_wait` reports the same events for all descriptors. -/
def constantReady (events : IoEvents) : Ready where
  readable := fun _ => events.isIn
  writable := fun _ => events.isOut
  exceptional := fun _ => events.isErr

/-- Whoever is reported by `epoll_wait` becomes ready. -/
theorem Consistent.epollTake
    {fiber : ι} {events : IoEvents}
    (consistent : Consistent state location)
    (control : state.control = .eventloop)
    (isReported : fiber ∈ state.fds.map FdElement.yieldback) :
    Consistent (epollTake state (fiber, events))
      (Function.update location fiber (some .ready)) := by
  obtain ⟨element, member, isFiber⟩ := List.mem_map.mp isReported
  obtain ⟨passed, elements, isFds⟩ := List.append_of_mem member
  subst isFiber
  have isIo : location element.yieldback = some .io := by
    apply consistent.location_of_count
    exact List.count_pos_iff.mpr isReported
  have counted := consistent.count_at isIo .io
  rw [if_pos rfl, State.count, isFds, List.map_append, List.map_cons,
    List.count_append, List.count_cons_self] at counted
  have notPassed : element.yieldback ∉ passed.map FdElement.yieldback := by
    rw [← List.count_eq_zero]
    omega
  have notLater : element.yieldback ∉ elements.map FdElement.yieldback := by
    rw [← List.count_eq_zero]
    omega
  have keeps (others : List (FdElement ι))
      (isAbsent : element.yieldback ∉ others.map FdElement.yieldback) :
      (others.filter fun other =>
          decide (other.yieldback ≠ element.yieldback)) = others := by
    rw [List.filter_eq_self]
    intro other member
    apply decide_eq_true
    intro same
    exact isAbsent (List.mem_map.mpr ⟨other, member, same⟩)
  have left :
      (state.fds.filter fun other =>
          decide (other.yieldback ≠ element.yieldback)) =
        passed ++ elements := by
    rw [isFds, List.filter_append, List.filter_cons_of_neg (by simp),
      keeps passed notPassed, keeps elements notLater]
  have same :
      Scheduler.epollTake state (element.yieldback, events) =
        Scheduler.takeReady (constantReady events) passed elements element
          state := by
    rw [Scheduler.takeReady, ← left]
    rfl
  rw [same]
  exact consistent.takeReady control isFds

/-- The event loop of `epoll.c` goes on. -/
theorem Consistent.epollMain
    {outcome : EpollOutcome ι}
    (consistent : Consistent state location)
    (control : state.control = .eventloop)
    (isReported : outcome.Reported state) :
    ∃ location', Consistent (epollMain state outcome) location' := by
  cases outcome with
  | interrupted => exact ⟨location, consistent⟩
  | none => exact ⟨location, consistent.setEventloop control (Or.inl rfl)⟩
  | ready reported =>
      obtain ⟨-, different, areIn⟩ := isReported
      have taken :
          ∃ location',
            Consistent (reported.foldl Scheduler.epollTake state)
              location' ∧
            (reported.foldl Scheduler.epollTake state).control =
              .eventloop := by
        induction reported generalizing state location with
        | nil => exact ⟨location, consistent, control⟩
        | cons first reported inductionHypothesis =>
            rw [List.map_cons, List.nodup_cons] at different
            rw [List.foldl_cons]
            apply inductionHypothesis
              (consistent.epollTake control
                (areIn first.1 (List.mem_cons_self ..)))
            · exact control
            · exact different.2
            · intro fiber member
              have wasIn := areIn fiber (List.mem_cons_of_mem _ member)
              obtain ⟨element, wasElement, isFiber⟩ :=
                List.mem_map.mp wasIn
              apply List.mem_map.mpr
              refine ⟨element, List.mem_filter.mpr ⟨wasElement, ?_⟩, isFiber⟩
              apply decide_eq_true
              rintro same
              apply different.1
              rw [← same, isFiber]
              exact member
      obtain ⟨location', consistent', goesOn⟩ := taken
      exact ⟨location', consistent'.setEventloop goesOn (Or.inl rfl)⟩

/-- The fiber of the event loop is terminated. -/
theorem Consistent.leaveEventloop
    {state : State (Object ι) μ κ}
    {location : Object ι → Option (Place μ κ)}
    (consistent : Consistent state location)
    (control : state.control = .eventloop)
    (isNowhere : location .eventloop = none) :
    Consistent (leaveEventloop state)
      (Function.update location .eventloop (some .terminated)) := by
  have client := consistent.fits .eventloop
  rw [isNowhere] at client
  refine ⟨fun query => ?_, fun query place => ?_, fun query => ?_,
    consistent.free, consistent.iowait, fun _ => ?_, fun finished => ?_⟩
  · by_cases same : query = .eventloop
    · subst same
      simp [Scheduler.leaveEventloop]
    · rw [Function.update_of_ne same, consistent.live]
      simp [Scheduler.leaveEventloop, same]
  · have counted := consistent.count query place
    by_cases same : query = .eventloop
    · subst same
      rw [isNowhere, if_neg (Option.some_ne_none place).symm] at counted
      rw [Function.update_self]
      cases place with
      | running => exact State.count_running (by simp [Scheduler.leaveEventloop]) _
      | terminated =>
          rw [State.count] at counted
          rw [State.count, Scheduler.leaveEventloop, List.count_append,
            counted]
          rfl
      | _ => exact counted
    · rw [Function.update_of_ne same, ← counted]
      cases place with
      | running =>
          rw [State.count_running, State.count_running]
          · simp [control]
          · simp [Scheduler.leaveEventloop]
      | terminated =>
          rw [State.count, State.count, Scheduler.leaveEventloop,
            List.count_append, count_one, if_neg same]
          rfl
      | _ => rfl
  · by_cases same : query = .eventloop
    · subst same
      rw [Function.update_self]
      exact client
    · rw [Function.update_of_ne same]
      exact consistent.fits query
  · exact consistent.batch (Or.inr (Or.inl control))
  · cases finished

end Places

/-! ## Invariants of a work cycle -/

section Invariants

open Ledger

variable [DecidableEq ι] [DecidableEq μ] [DecidableEq κ]
variable {state next : State (Object ι) μ κ} {lifetimes : Lifetimes ι}
variable {action : Action (Object ι) μ κ} {poller : Poller}

/--
The fiber of the event loop is none of those that the scheduler runs, unless it
has just been terminated.
-/
structure Placed (state : State (Object ι) μ κ) : Prop where
  consistent : ∃ location, Consistent state location
  scheduler : state.live .scheduler = false
  eventloop :
    state.live .eventloop = true →
      state.control = .spinning ∧ .eventloop ∈ state.terminated

/-- What is live is held, besides the scheduler and the event loop. -/
structure Tended (state : State (Object ι) μ κ) (lifetimes : Lifetimes ι) :
    Prop extends Placed state where
  absent : state.live .eventloop = false
  holds :
    ∀ object, held lifetimes object = (state.live object || !object.isFiber)
  sound : Sound lifetimes

/-- The event loop has been left, and is or was in the list of the terminated. -/
structure Left (state : State (Object ι) μ κ) (lifetimes : Lifetimes ι) :
    Prop extends Placed state where
  gone : state.live .eventloop = true ∨ held lifetimes .eventloop = false

/-- The object that an action obtains from `dfk__spawn`. -/
def Action.spawned : Action (Object ι) μ κ → Option (Object ι)
  | .call made => made.spawned
  | .schedule | .poll _ | .proceed => none

omit [DecidableEq μ] [DecidableEq κ] in
/-- An object obtained in a work cycle is a fiber. -/
theorem isFiber_of_spawned
    {object : Object ι}
    (fits : FitsCycle poller lifetimes action)
    (isSpawned : action.spawned = some object) :
    object.isFiber = true := by
  cases action with
  | call call =>
      cases call with
      | spawn fiber =>
          cases isSpawned
          exact fits
      | _ => cases isSpawned
  | _ => cases isSpawned

/-- Outside `dfk__scheduler` nothing is freed. -/
theorem step_live
    (allowed : Allowed state action)
    (notSpinning : state.control ≠ .spinning)
    (steps : step state action = .ok next)
    (query : Object ι) :
    next.live query =
      (decide (action.spawned = some query) || state.live query) := by
  cases action with
  | schedule =>
      have control := allowed.resolve_left notSpinning
      simp only [step, control] at steps
      cases steps
      rw [drain_live]
      rfl
  | poll outcome =>
      have control : state.control = .eventloop := allowed
      simp only [step, control] at steps
      cases steps
      rw [eventloopMain_live]
      rfl
  | proceed =>
      obtain ⟨this, control, -⟩ := allowed
      simp only [step, control] at steps
      rw [(proceed_kept steps).live]
      rfl
  | call call =>
      obtain ⟨this, control, -⟩ := allowed
      simp only [step, control] at steps
      exact perform_live steps query

omit [DecidableEq μ] [DecidableEq κ] in
/-- Outside `dfk__scheduler` nothing is released. -/
theorem held_happens
    (notSpinning : state.control ≠ .spinning)
    (query : Object ι) :
    held (lifetimes ++ happens state action) query =
      (decide (action.spawned = some query) || held lifetimes query) := by
  have same (isNone : action.spawned = none)
      (nothing : happens state action = []) :
      held (lifetimes ++ happens state action) query =
        (decide (action.spawned = some query) || held lifetimes query) := by
    rw [isNone, nothing, List.append_nil]
    rfl
  cases action with
  | schedule =>
      rw [happens, schedules]
      cases control : state.control with
      | spinning => exact absurd control notSpinning
      | draining =>
          cases state.batch with
          | cons fiber batch => exact held_concat
          | nil =>
              dsimp only
              split
              · exact held_concat
              · rw [List.append_nil]
                rfl
      | _ =>
          rw [List.append_nil]
          rfl
  | poll outcome => exact same rfl rfl
  | proceed => exact same rfl rfl
  | call call =>
      cases call with
      | spawn fiber =>
          cases fiber with
          | none => exact same rfl rfl
          | some fiber =>
              rw [happens, held_concat, holdsAfter, Bool.or_comm]
              congr 1
              simp [Action.spawned, Call.spawned]
      | _ => exact same rfl rfl

/-- What a pass of the scheduler starts with. -/
theorem schedule_of_spinning
    (allowed : Allowed state action)
    (spinning : state.control = .spinning)
    (steps : step state action = .ok next) :
    happens state action = state.terminated.map .released ∧
      next = spin state := by
  cases action with
  | schedule =>
      simp only [step, spinning] at steps
      cases steps
      rw [happens, schedules, spinning]
      exact ⟨rfl, rfl⟩
  | poll outcome => cases spinning.symm.trans allowed
  | proceed =>
      obtain ⟨this, control, -⟩ := allowed
      cases spinning.symm.trans control
  | call call =>
      obtain ⟨this, control, -⟩ := allowed
      cases spinning.symm.trans control

/-- Fibers are where they are placed after every action. -/
theorem Placed.step
    (placed : Placed state)
    (allowed : Allowed state action)
    (fits : FitsCycle poller lifetimes action)
    (steps : step state action = .ok next) :
    Placed next := by
  obtain ⟨location, consistent⟩ := placed.consistent
  obtain ⟨after, location', steps', consistent'⟩ := consistent.step allowed
  cases steps'.symm.trans steps
  by_cases spinning : state.control = .spinning
  · obtain ⟨-, isNext⟩ := schedule_of_spinning allowed spinning steps
    refine ⟨⟨location', consistent'⟩, ?_, fun isLive => ?_⟩
    · rw [isNext, spin_live, placed.scheduler]
      rfl
    · rw [isNext, spin_live, Bool.and_eq_true, decide_eq_true_iff] at isLive
      exact absurd (placed.eventloop isLive.1).2 isLive.2
  · have live := step_live allowed spinning steps
    have same (object : Object ι) (noFiber : object.isFiber = false) :
        next.live object = state.live object := by
      have notSpawned : action.spawned ≠ some object := by
        intro isSpawned
        rw [isFiber_of_spawned fits isSpawned] at noFiber
        cases noFiber
      rw [live, decide_eq_false notSpawned, Bool.false_or]
    refine ⟨⟨location', consistent'⟩, ?_, fun isLive => ?_⟩
    · rw [same .scheduler rfl, placed.scheduler]
    · rw [same .eventloop rfl] at isLive
      exact absurd (placed.eventloop isLive).1 spinning

/-- Whoever is terminated is live. -/
theorem live_of_terminated
    {location : Object ι → Option (Place μ κ)} {object : Object ι}
    (consistent : Consistent state location)
    (member : object ∈ state.terminated) :
    state.live object = true := by
  have isAt : location object = some .terminated :=
    consistent.location_of_count (List.count_pos_iff.mpr member)
  rw [← consistent.live, isAt]
  rfl

/-- What an action uses and releases is held. -/
theorem Tended.sound_happens
    (tended : Tended state lifetimes) :
    Sound (lifetimes ++ happens state action) := by
  obtain ⟨location, consistent⟩ := tended.consistent
  have unchanged : Sound (lifetimes ++ []) := by
    rw [List.append_nil]
    exact tended.sound
  have held_of_live (object : Object ι) (isLive : state.live object = true) :
      held lifetimes object = true := by
    rw [tended.holds, isLive]
    rfl
  cases action with
  | schedule =>
      rw [happens, schedules]
      cases state.control with
      | spinning =>
          apply tended.sound.release_all
          · rw [List.nodup_iff_count_le_one]
            intro object
            have counted := consistent.count object .terminated
            rw [State.count] at counted
            rw [counted]
            split
            · exact Nat.le_refl 1
            · exact Nat.zero_le 1
          · intro object member
            exact held_of_live object (live_of_terminated consistent member)
      | draining =>
          cases isBatch : state.batch with
          | cons fiber batch =>
              apply tended.sound.used
              apply held_of_live
              have isReady : location fiber = some .ready := by
                apply consistent.location_of_count
                rw [State.count, isBatch]
                exact List.count_pos_iff.mpr (List.mem_cons_self ..)
              rw [← consistent.live, isReady]
              rfl
          | nil =>
              dsimp only
              split
              · apply tended.sound.used
                rw [tended.holds]
                exact Bool.or_true _
              · exact unchanged
      | _ => exact unchanged
  | poll outcome => exact unchanged
  | proceed => exact unchanged
  | call call =>
      cases call with
      | spawn fiber =>
          cases fiber with
          | none => exact unchanged
          | some fiber => exact tended.sound.obtained fiber
      | _ => exact unchanged

/-- An action that is taken in a work cycle without failures. -/
theorem Tended.step
    (tended : Tended state lifetimes)
    (allowed : Allowed state action)
    (fits : FitsCycle poller lifetimes action)
    (steps : step state action = .ok next) :
    Tended next (lifetimes ++ happens state action) := by
  have placed := tended.toPlaced.step allowed fits steps
  by_cases spinning : state.control = .spinning
  · obtain ⟨isHappening, isNext⟩ :=
      schedule_of_spinning allowed spinning steps
    subst isNext
    refine ⟨placed, ?_, fun object => ?_, tended.sound_happens⟩
    · rw [spin_live, tended.absent]
      rfl
    · rw [isHappening, held_released_all, tended.holds, spin_live]
      cases isLive : state.live object with
      | true =>
          cases object with
          | fiber this => simp [Object.isFiber]
          | scheduler =>
              rw [tended.scheduler] at isLive
              cases isLive
          | eventloop =>
              rw [tended.absent] at isLive
              cases isLive
      | false =>
          obtain ⟨location, consistent⟩ := tended.consistent
          have notTerminated : object ∉ state.terminated := by
            intro member
            rw [live_of_terminated consistent member] at isLive
            cases isLive
          simp [notTerminated]
  · refine ⟨placed, ?_, fun object => ?_, tended.sound_happens⟩
    · apply Bool.eq_false_iff.mpr
      intro isLive
      rw [step_live allowed spinning steps, tended.absent, Bool.or_false,
        decide_eq_true_iff] at isLive
      cases isFiber_of_spawned fits isLive
    · rw [held_happens spinning, tended.holds,
        step_live allowed spinning steps, Bool.or_assoc]

/-- An action that is taken after the event loop has been left. -/
theorem Left.step
    (left : Left state lifetimes)
    (allowed : Allowed state action)
    (fits : FitsCycle poller lifetimes action)
    (steps : step state action = .ok next) :
    Left next (lifetimes ++ happens state action) := by
  refine ⟨left.toPlaced.step allowed fits steps, Or.inr ?_⟩
  by_cases spinning : state.control = .spinning
  · obtain ⟨isHappening, -⟩ := schedule_of_spinning allowed spinning steps
    rw [isHappening, held_released_all]
    rcases left.gone with isLive | isReleased
    · rw [decide_eq_false (not_not.mpr (left.eventloop isLive).2),
        Bool.and_false]
    · rw [isReleased, Bool.false_and]
  · have notSpawned : action.spawned ≠ some .eventloop := by
      intro isSpawned
      cases isFiber_of_spawned fits isSpawned
    rw [held_happens spinning, decide_eq_false notSpawned, Bool.false_or]
    exact left.gone.resolve_left fun isLive =>
      spinning (left.eventloop isLive).1

end Invariants

/-! ## Runs of a work cycle -/

section Runs

open Ledger

variable [DecidableEq ι] [DecidableEq μ] [DecidableEq κ]
variable {state : State (Object ι) μ κ} {lifetimes : Lifetimes ι}
variable {poller : Poller} {turn : Turn ι μ κ} {turns : List (Turn ι μ κ)}
variable {work next final : Work ι μ κ}

/-- No system call of the event loop has failed. -/
def Work.IsTended : Work ι μ κ → Prop
  | .looping state lifetimes => Tended state lifetimes
  | .returned lifetimes => Sound lifetimes

/-- A system call of the event loop has failed. -/
def Work.IsLeft : Work ι μ κ → Prop
  | .looping state lifetimes => Left state lifetimes
  | .returned lifetimes => ¬ Sound lifetimes

theorem Work.IsTended.sound
    (tended : work.IsTended) :
    Sound work.lifetimes := by
  cases work with
  | looping state lifetimes => exact Tended.sound tended
  | returned lifetimes => exact tended

/-- The scheduler and the event loop are freed in the end. -/
theorem Tended.schedulerEnd
    (tended : Tended state lifetimes) :
    Sound (lifetimes ++ [.released .eventloop] ++ [.released .scheduler]) := by
  have holdsEventloop : held lifetimes .eventloop = true := by
    rw [tended.holds]
    exact Bool.or_true _
  have holdsScheduler : held lifetimes .scheduler = true := by
    rw [tended.holds]
    exact Bool.or_true _
  apply (tended.sound.released holdsEventloop).released
  rw [held_concat, holdsAfter, holdsScheduler]
  rfl

/-- A turn without a failure. -/
theorem Work.IsTended.steps
    (tended : work.IsTended)
    (noFailure : turn ≠ .fail)
    (steps : work.Steps poller turn next) :
    next.IsTended := by
  cases work with
  | returned lifetimes => exact steps.elim
  | looping state lifetimes =>
      obtain ⟨allowed, advances⟩ := steps
      have tendedHere : Tended state lifetimes := tended
      cases turn with
      | goOn action =>
          obtain ⟨after, steps, isNext⟩ := of_bind advances
          cases isNext
          exact tendedHere.step allowed.1 allowed.2 steps
      | report outcome =>
          obtain ⟨-, control, -, isReported⟩ := allowed
          obtain ⟨location, consistent⟩ := tendedHere.consistent
          have placed := consistent.epollMain control isReported
          cases advances
          refine ⟨⟨placed, ?_, fun isLive => ?_⟩, ?_, fun object => ?_,
            tendedHere.sound⟩
          · rw [epollMain_live, tendedHere.scheduler]
          · rw [epollMain_live, tendedHere.absent] at isLive
            cases isLive
          · rw [epollMain_live, tendedHere.absent]
          · rw [epollMain_live, tendedHere.holds]
      | fail => exact absurd rfl noFailure
      | finish =>
          cases advances
          exact tendedHere.schedulerEnd

/-- A failure. -/
theorem Work.IsTended.fails
    (tended : work.IsTended)
    (steps : work.Steps poller .fail next) :
    next.IsLeft := by
  cases work with
  | returned lifetimes => exact steps.elim
  | looping state lifetimes =>
      obtain ⟨⟨control, -, -⟩, advances⟩ := steps
      have tendedHere : Tended state lifetimes := tended
      obtain ⟨location, consistent⟩ := tendedHere.consistent
      have isNowhere : location .eventloop = none := by
        have isAbsent := consistent.live .eventloop
        rw [tendedHere.absent] at isAbsent
        rw [Option.isSome_eq_false_iff] at isAbsent
        exact Option.isNone_iff_eq_none.mp isAbsent
      cases advances
      refine ⟨⟨⟨_, consistent.leaveEventloop control isNowhere⟩, ?_,
        fun _ => ⟨rfl, ?_⟩⟩, Or.inl ?_⟩
      · exact tendedHere.scheduler
      · exact List.mem_append_right _ (List.mem_singleton_self _)
      · rfl

/-- A turn after a failure. -/
theorem Work.IsLeft.steps
    (left : work.IsLeft)
    (steps : work.Steps poller turn next) :
    next.IsLeft := by
  cases work with
  | returned lifetimes => exact steps.elim
  | looping state lifetimes =>
      obtain ⟨allowed, advances⟩ := steps
      have leftHere : Left state lifetimes := left
      -- The event loop does not go on, neither before nor after it is freed.
      have noEventloop (control : state.control = .eventloop)
          (isHeld : held lifetimes .eventloop = true) : False := by
        rcases leftHere.gone with isLive | isReleased
        · cases control.symm.trans (leftHere.eventloop isLive).1
        · rw [isReleased] at isHeld
          cases isHeld
      cases turn with
      | goOn action =>
          obtain ⟨after, steps, isNext⟩ := of_bind advances
          cases isNext
          exact leftHere.step allowed.1 allowed.2 steps
      | report outcome =>
          exact (noEventloop allowed.2.1 allowed.2.2.1).elim
      | fail => exact (noEventloop allowed.1 allowed.2.1).elim
      | finish =>
          have finished : state.control = .finished := allowed
          have isReleased : held lifetimes .eventloop = false :=
            leftHere.gone.resolve_left fun isLive => by
              cases finished.symm.trans (leftHere.eventloop isLive).1
          cases advances
          intro sound
          have isHeld : held lifetimes .eventloop = true :=
            (Sound.of_append sound).last
          rw [isReleased] at isHeld
          cases isHeld

/-- The beginning of a work cycle. -/
theorem isTended_dfkWork (main : ι) (obtains : Obtains) :
    (dfkWork main obtains : Work ι μ κ).IsTended := by
  have isMain : held [.obtained (.fiber main)] (Object.fiber main) = true := by
    simp [held, holdsAfter]
  have soundMain : Sound [.obtained (Object.fiber main)] :=
    sound_nil.obtained _
  have soundAll :
      Sound [.obtained (.fiber main), .obtained .scheduler,
        .used (Object.scheduler : Object ι)] :=
    (soundMain.obtained .scheduler).used rfl
  rw [dfkWork]
  split
  · split
    · rw [schedulerMain]
      split
      · have consistent :
            Consistent (start (.fiber main) : State (Object ι) μ κ) _ :=
          consistent_start (Object.fiber main)
        refine ⟨⟨⟨_, consistent⟩, rfl, fun isLive => (by cases isLive)⟩, rfl,
          fun object => ?_, soundAll.obtained .eventloop⟩
        cases object with
        | fiber this =>
            simp [held, holdsAfter, start, Object.isFiber, eq_comm]
        | scheduler => rfl
        | eventloop => rfl
      · apply (soundAll.released _).released
        · rfl
        · simp [held, holdsAfter]
    · exact soundMain.released isMain
  · exact sound_nil

/-- What is attempted with success is a step. -/
theorem Work.steps_of_attempt
    (attempted : work.attempt poller turn = some next) :
    work.Steps poller turn next := by
  cases work with
  | returned lifetimes => cases attempted
  | looping state lifetimes => exact of_attempt attempted

/-- A run is tended until a system call of the event loop fails. -/
theorem run_followed
    {main : ι} {obtains : Obtains}
    (run :
      Runs.Run (Work.Steps poller) (dfkWork main obtains) turns final) :
    (.fail ∉ turns → final.IsTended) ∧ (.fail ∈ turns → final.IsLeft) := by
  induction run with
  | nil =>
      exact ⟨fun _ => isTended_dfkWork main obtains,
        fun failed => (List.not_mem_nil failed).elim⟩
  | @snoc middle final turns turn run last inductionHypothesis =>
      obtain ⟨tended, left⟩ := inductionHypothesis
      rw [List.mem_append, List.mem_singleton]
      by_cases failed : .fail ∈ turns
      · exact ⟨fun none => (none (Or.inl failed)).elim,
          fun _ => (left failed).steps last⟩
      · refine ⟨fun none => ?_, fun fails => ?_⟩
        · exact (tended failed).steps
            (fun fails => none (Or.inr fails.symm)) last
        · cases fails.resolve_left failed
          exact (tended failed).fails last

/-- The fiber of the event loop decides whether all lifetimes are respected. -/
theorem lifetimes_respected_iff
    {main : ι} {obtains : Obtains}
    (run :
      Runs.Run (Work.Steps poller) (dfkWork main obtains) turns final) :
    (.fail ∉ turns → Sound final.lifetimes) ∧
      (final.HasReturned → (Sound final.lifetimes ↔ .fail ∉ turns)) := by
  have followed := run_followed run
  refine ⟨fun none => (followed.1 none).sound, fun returned => ?_⟩
  refine ⟨fun sound failed => ?_, fun none => (followed.1 none).sound⟩
  have left := followed.2 failed
  cases final with
  | looping state lifetimes => exact returned
  | returned lifetimes => exact left sound

end Runs

section Cycles

open Ledger

/-- All fibers are obtained. -/
def allObtained : Obtains where
  main := true
  scheduler := true
  eventloop := true

/-- The main fiber returns. -/
def uneventful : List (Turn Nat Unit Unit) :=
  [.goOn .schedule, .goOn .schedule, .goOn (.call .exit), .goOn .schedule,
    .goOn .schedule, .goOn .schedule, .goOn .schedule, .finish]

theorem lifetimes_respected_iff_uneventful :
    ∃ final : Work Nat Unit Unit,
      Runs.Run (Work.Steps .epoll) (dfkWork 1 allObtained) uneventful final ∧
        final.HasReturned ∧ Sound final.lifetimes := by
  have executed :
      Runs.execute (Work.attempt .epoll)
          (dfkWork 1 allObtained : Work Nat Unit Unit) uneventful =
        some (.returned
          [.obtained (.fiber 1), .obtained .scheduler, .used .scheduler,
            .obtained .eventloop, .used (.fiber 1), .released (.fiber 1),
            .released .eventloop, .released .scheduler]) := by
    rfl
  have run :=
    Runs.run_of_execute (fun _ _ _ => Work.steps_of_attempt) executed
  refine ⟨_, run, trivial, ?_⟩
  exact ((lifetimes_respected_iff run).2 trivial).mpr (by simp [uneventful])

/--
The main fiber waits for a descriptor, `epoll_wait` fails, and the scheduler
frees the fiber of the event loop and switches to it.
-/
def failing : List (Turn Nat Unit Unit) :=
  [.goOn .schedule, .goOn .schedule,
    .goOn (.call (.io 4 { isIn := true, isOut := false, isErr := false })),
    .goOn .schedule, .fail, .goOn .schedule, .goOn .schedule]

theorem failing_switches_to_freed :
    ∃ final : Work Nat Unit Unit,
      Runs.Run (Work.Steps .epoll) (dfkWork 1 allObtained) failing final ∧
        ¬ Sound final.lifetimes := by
  have executed :
      (Runs.execute (Work.attempt .epoll)
          (dfkWork 1 allObtained : Work Nat Unit Unit) failing).map
          Work.lifetimes =
        some
          ([.obtained (.fiber 1), .obtained .scheduler, .used .scheduler,
            .obtained .eventloop, .used (.fiber 1), .used .eventloop,
            .released .eventloop] ++ [.used .eventloop]) := by
    rfl
  obtain ⟨final, isFinal, areLifetimes⟩ := Option.map_eq_some_iff.mp executed
  refine ⟨final, Runs.run_of_execute (fun _ _ _ => Work.steps_of_attempt)
    isFinal, fun sound => ?_⟩
  rw [areLifetimes] at sound
  cases sound.last

end Cycles

end Dfk.Scheduler
