import Dfk.EventLoop.SelectLoop
import Dfk.Scheduler.Lifetimes

/-!
# The list of `select.c` is a wait set

Every run of the event loop with its list in memory is a run of the scheduler
whose wait set is the sequence of the fibers that the list holds.
-/

namespace Dfk.EventLoop

open LinkedList Scheduler Runs

variable {ι μ κ : Type}

/-! ## What the scheduler does not look at -/

/-- Where a fiber goes on, with the events in its frame. -/
def inFrame (elements : ι → FdElement ι) (fiber : ι) :
    Resumption μ κ → Resumption μ κ
  | .io _ => .io (elements fiber).events
  | .client => .client
  | .lock mutex => .lock mutex
  | .wait cond mutex => .wait cond mutex
  | .relock cond mutex => .relock cond mutex

/-- The scheduler with a wait set of its own. -/
def withWaitSet (elements : ι → FdElement ι) (waiting : List ι)
    (state : Scheduler.State ι μ κ) : Scheduler.State ι μ κ :=
  { state with
    fds := waiting.map elements
    resumption := fun fiber =>
      inFrame elements fiber (state.resumption fiber) }

section Outside

variable {elements : ι → FdElement ι} {waiting : List ι}
variable {state : Scheduler.State ι μ κ} {this : ι} {mutex : μ} {cond : κ}

/-- Whether a fiber goes on in client code does not depend on the frames. -/
theorem inFrame_eq_client_iff
    {fiber : ι} {resumption : Resumption μ κ} :
    inFrame elements fiber resumption = .client ↔ resumption = .client := by
  cases resumption with
  | client => exact Iff.rfl
  | lock _ | wait _ _ | relock _ _ | io _ =>
      apply iff_of_false
      · intro isClient
        cases isClient
      · intro isClient
        cases isClient

variable [DecidableEq ι]

/-- A fiber is made to go on outside of `dfk__io`. -/
theorem withWaitSet_setResumption
    {resumption : Resumption μ κ}
    (outside : inFrame elements this resumption = resumption) :
    withWaitSet elements waiting (state.setResumption this resumption) =
      (withWaitSet elements waiting state).setResumption this resumption := by
  have same :
      (fun fiber =>
          inFrame elements fiber
            (if fiber = this then resumption else state.resumption fiber)) =
        fun fiber =>
          if fiber = this then resumption
          else inFrame elements fiber (state.resumption fiber) := by
    funext fiber
    by_cases isThis : fiber = this
    · rw [if_pos isThis, if_pos isThis, isThis]
      exact outside
    · rw [if_neg isThis, if_neg isThis]
  simp only [withWaitSet, State.setResumption, same]

theorem withWaitSet_yieldBack
    {resumption : Resumption μ κ}
    (outside : inFrame elements this resumption = resumption)
    (state : Scheduler.State ι μ κ) :
    yieldBack (withWaitSet elements waiting state) this resumption =
      withWaitSet elements waiting (yieldBack state this resumption) := by
  have set :=
    @withWaitSet_setResumption ι μ κ elements waiting state this _
      resumption outside
  rw [yieldBack, ← set]
  rfl

theorem withWaitSet_spawn (fiber : Option ι) :
    spawn (withWaitSet elements waiting state) fiber =
      withWaitSet elements waiting (spawn state fiber) := by
  cases fiber with
  | none =>
      rfl
  | some fiber =>
      have set :=
        @withWaitSet_setResumption ι μ κ elements waiting state fiber _
          .client rfl
      rw [spawn, ← set]
      rfl

theorem withWaitSet_spin :
    spin (withWaitSet elements waiting state) =
      withWaitSet elements waiting (spin state) := by
  by_cases nobody :
      state.terminated = [] ∧ state.pending = [] ∧ state.iowait = 0
  · rw [spin, spin, if_pos nobody]
    exact if_pos nobody
  · rw [spin, spin, if_neg nobody]
    exact if_neg nobody

omit [DecidableEq ι] in
theorem withWaitSet_drain :
    drain (withWaitSet elements waiting state) =
      withWaitSet elements waiting (drain state) := by
  have same : (withWaitSet elements waiting state).batch = state.batch := rfl
  cases batch : state.batch with
  | nil =>
      rw [batch] at same
      rw [drain, same, drain, batch]
      dsimp only
      by_cases polls : state.pending = [] ∧ state.iowait ≠ 0
      · rw [if_pos polls]
        exact if_pos polls
      · rw [if_neg polls]
        exact if_neg polls
  | cons fiber batch =>
      rw [batch] at same
      rw [drain, same, drain, batch]
      rfl

variable {next : Scheduler.State ι μ κ → Scheduler.State ι μ κ}

omit [DecidableEq ι] in
/-- Memory is found as it is, so that an assertion fails where it does. -/
theorem withWaitSet_check
    {asserted : Prop} [Decidable asserted]
    {result : Scheduler.State ι μ κ}
    {result' : Scheduler.State ι μ κ}
    (same : result' = withWaitSet elements waiting result) :
    (do
        check asserted
        pure result' : Except Fault (Scheduler.State ι μ κ)) =
      (do
          check asserted
          pure result : Except Fault (Scheduler.State ι μ κ)).map
        (withWaitSet elements waiting) := by
  rw [same]
  by_cases holds : asserted
  · rw [check_pos holds]
    rfl
  · rw [check_neg holds]
    rfl

theorem withWaitSet_locked
    (same :
      ∀ state,
        next (withWaitSet elements waiting state) =
          withWaitSet elements waiting (next state))
    (state : Scheduler.State ι μ κ) :
    locked (withWaitSet elements waiting state) this mutex next =
      (locked state this mutex next).map (withWaitSet elements waiting) :=
  withWaitSet_check (same state)

theorem withWaitSet_mutexLock
    [DecidableEq μ] {blocked : Resumption μ κ}
    (outside : inFrame elements this blocked = blocked)
    (same :
      ∀ state,
        next (withWaitSet elements waiting state) =
          withWaitSet elements waiting (next state)) :
    mutexLock (withWaitSet elements waiting state) this mutex blocked next =
      (mutexLock state this mutex blocked next).map
        (withWaitSet elements waiting) := by
  have sameMutex :
      (withWaitSet elements waiting state).mutexes = state.mutexes :=
    rfl
  rw [mutexLock, sameMutex, mutexLock]
  dsimp only
  cases isOwner : (state.mutexes mutex).owner with
  | none =>
      exact withWaitSet_locked same
        ((state.setMutex mutex
            { owner := some this
              waitqueue := (state.mutexes mutex).waitqueue }).emit
          [.acquired mutex this])
  | some owner =>
      dsimp only
      by_cases isThis : owner = this
      · rw [if_pos isThis, if_pos isThis]
        exact withWaitSet_locked same state
      · rw [if_neg isThis, if_neg isThis]
        exact congrArg Except.ok
          (withWaitSet_yieldBack outside
            ((state.setMutex mutex
                { owner := some owner
                  waitqueue :=
                    (state.mutexes mutex).waitqueue ++ [this] }).emit
              [.queued mutex this]))

omit [DecidableEq ι] in
theorem withWaitSet_release [DecidableEq μ] :
    release (withWaitSet elements waiting state) this mutex =
      withWaitSet elements waiting (release state this mutex) := by
  have sameMutex :
      (withWaitSet elements waiting state).mutexes = state.mutexes :=
    rfl
  rw [release, sameMutex, release]
  cases (state.mutexes mutex).waitqueue with
  | nil =>
      rfl
  | cons next waitqueue =>
      rfl

theorem withWaitSet_condReturn :
    condReturn this cond (withWaitSet elements waiting state) =
      withWaitSet elements waiting (condReturn this cond state) := by
  have set :=
    @withWaitSet_setResumption ι μ κ elements waiting state this _ .client rfl
  rw [condReturn, ← set]
  rfl

omit [DecidableEq ι] in
theorem withWaitSet_condSignal [DecidableEq κ] :
    condSignal (withWaitSet elements waiting state) cond =
      withWaitSet elements waiting (condSignal state cond) := by
  have sameConds :
      (withWaitSet elements waiting state).conds = state.conds :=
    rfl
  rw [condSignal, sameConds, condSignal]
  cases state.conds cond with
  | nil =>
      rfl
  | cons fiber waitqueue =>
      rfl

omit [DecidableEq ι] in
theorem withWaitSet_wakeAll
    (waitqueue : List ι) :
    ∀ state : Scheduler.State ι μ κ,
      wakeAll cond waitqueue (withWaitSet elements waiting state) =
        withWaitSet elements waiting (wakeAll cond waitqueue state) := by
  induction waitqueue with
  | nil =>
      intro state
      rfl
  | cons fiber waitqueue inductionHypothesis =>
      intro state
      exact inductionHypothesis
        (resume (state.emit [.woken cond fiber]) fiber)

variable [DecidableEq μ] [DecidableEq κ]

omit [DecidableEq κ] in
/-- A fiber goes on in a function other than `dfk__io`. -/
theorem withWaitSet_proceed
    (outside : ∀ events, state.resumption this ≠ .io events) :
    proceed (withWaitSet elements waiting state) this =
      (proceed state this).map (withWaitSet elements waiting) := by
  have same :
      (withWaitSet elements waiting state).resumption this =
        inFrame elements this (state.resumption this) :=
    rfl
  rw [proceed, same, proceed]
  cases goesOn : state.resumption this with
  | client =>
      rfl
  | lock mutex =>
      exact withWaitSet_locked
        (fun state => (withWaitSet_setResumption rfl).symm) state
  | wait cond mutex =>
      exact withWaitSet_mutexLock rfl fun state => withWaitSet_condReturn
  | relock cond mutex =>
      exact withWaitSet_locked (fun state => withWaitSet_condReturn) state
  | io events =>
      exact absurd goesOn (outside events)

/-- A fiber makes a call other than `dfk__io`. -/
theorem withWaitSet_perform
    (call : Call ι μ κ) (outside : ∀ socket events, call ≠ .io socket events) :
    perform (withWaitSet elements waiting state) this call =
      (perform state this call).map (withWaitSet elements waiting) := by
  have sameMutex :
      (withWaitSet elements waiting state).mutexes = state.mutexes :=
    rfl
  cases call with
  | spawn fiber =>
      exact congrArg Except.ok (withWaitSet_spawn fiber)
  | postpone =>
      have yields :=
        @withWaitSet_yieldBack ι μ κ elements waiting this _ .client rfl
          ({ state with pending := state.pending ++ [this] }.emit
            [.ready this])
      exact congrArg Except.ok yields
  | lock mutex =>
      exact withWaitSet_mutexLock rfl fun state => rfl
  | trylock mutex =>
      apply congrArg Except.ok
      rw [mutexTrylock, sameMutex, mutexTrylock]
      cases (state.mutexes mutex).owner with
      | none =>
          rfl
      | some owner =>
          rfl
  | unlock mutex =>
      rw [perform, perform, mutexUnlock, mutexUnlock, sameMutex]
      by_cases isLocked : (state.mutexes mutex).owner ≠ none
      · rw [check_pos isLocked]
        exact withWaitSet_check withWaitSet_release
      · rw [check_neg isLocked]
        rfl
  | wait cond mutex =>
      rw [perform, perform, condWait, condWait, sameMutex]
      by_cases isLocked : (state.mutexes mutex).owner ≠ none
      · rw [check_pos isLocked, withWaitSet_release]
        apply withWaitSet_check
        exact withWaitSet_yieldBack rfl
          (((release state this mutex).setCond cond
              ((release state this mutex).conds cond ++ [this])).emit
            [.waited cond this])
      · rw [check_neg isLocked]
        rfl
  | signal cond =>
      exact congrArg Except.ok withWaitSet_condSignal
  | broadcast cond =>
      exact congrArg Except.ok
        (withWaitSet_wakeAll (state.conds cond) (state.setCond cond []))
  | io socket events =>
      exact absurd rfl (outside socket events)
  | exit =>
      have yields :=
        @withWaitSet_yieldBack ι μ κ elements waiting this _ .client rfl
          { state with terminated := state.terminated ++ [this] }
      exact congrArg Except.ok yields

/-- The scheduler or a fiber goes on, outside of `dfk__io`. -/
theorem withWaitSet_step
    {action : Action ι μ κ}
    (allowed : Scheduler.Allowed state action)
    (outside : isOutside state action = true) :
    step (withWaitSet elements waiting state) action =
      (step state action).map (withWaitSet elements waiting) := by
  have same : (withWaitSet elements waiting state).control = state.control :=
    rfl
  cases action with
  | schedule =>
      rcases allowed with control | control
      · simp only [step, same, control]
        exact congrArg Except.ok withWaitSet_spin
      · simp only [step, same, control]
        exact congrArg Except.ok withWaitSet_drain
  | poll outcome =>
      cases outside
  | proceed =>
      obtain ⟨this, control, -⟩ := allowed
      simp only [step, same, control]
      apply withWaitSet_proceed
      intro events goesOn
      simp only [isOutside, isInIo, runs, control, Option.any_some,
        goesOn] at outside
      cases outside
  | call call =>
      obtain ⟨this, control, -, -⟩ := allowed
      simp only [step, same, control]
      apply withWaitSet_perform
      intro socket events isIo
      rw [isIo] at outside
      cases outside

omit [DecidableEq ι] [DecidableEq μ] [DecidableEq κ] in
/-- What may happen next does not depend on the frames. -/
theorem allowed_withWaitSet
    {action : Action ι μ κ} (allowed : Scheduler.Allowed state action) :
    Scheduler.Allowed (withWaitSet elements waiting state) action := by
  cases action with
  | schedule | poll _ =>
      exact allowed
  | proceed =>
      obtain ⟨this, control, goesOn⟩ := allowed
      exact ⟨this, control, mt inFrame_eq_client_iff.mp goesOn⟩
  | call call =>
      obtain ⟨this, control, isClient, calls⟩ := allowed
      refine ⟨this, control, inFrame_eq_client_iff.mpr isClient, ?_⟩
      cases call with
      | spawn fiber =>
          cases fiber with
          | none | some _ => exact calls
      | _ => exact calls

end Outside

/-! ## Entering the list -/

section Entering

variable [DecidableEq ι]

/-- A fiber that is appended waits for what is in its frame. -/
theorem withWaitSet_io
    {elements : ι → FdElement ι} {waiting : List ι}
    {state : Scheduler.State ι μ κ} {this : ι} (socket : Int)
    (events : IoEvents) (isNew : this ∉ waiting) :
    withWaitSet
        (Function.update elements this
          { fd := socket, events := events, yieldback := this })
        (waiting ++ [this]) (iosuspend state this (.io events)) =
      Scheduler.io (withWaitSet elements waiting state) this socket
        events := by
  have fds :
      (waiting ++ [this]).map
          (Function.update elements this
            { fd := socket, events := events, yieldback := this }) =
        waiting.map elements ++
          [{ fd := socket, events := events, yieldback := this }] := by
    rw [List.map_append, List.map_singleton, Function.update_self]
    congr 1
    apply List.map_congr_left
    intro fiber member
    apply Function.update_of_ne
    intro isThis
    exact isNew (isThis ▸ member)
  have resumptions :
      (fun fiber =>
          inFrame
            (Function.update elements this
              { fd := socket, events := events, yieldback := this })
            fiber
            (if fiber = this then Resumption.io events
            else state.resumption fiber)) =
        fun fiber =>
          if fiber = this then .io events
          else inFrame elements fiber (state.resumption fiber) := by
    funext fiber
    by_cases isThis : fiber = this
    · rw [if_pos isThis, if_pos isThis, isThis, inFrame,
        Function.update_self]
    · rw [if_neg isThis, if_neg isThis]
      have same :
          Function.update elements this
              { fd := socket, events := events, yieldback := this } fiber =
            elements fiber :=
        Function.update_of_ne isThis ..
      cases state.resumption fiber with
      | io _ => rw [inFrame, same, inFrame]
      | client | lock _ | wait _ _ | relock _ _ => rfl
  simp only [withWaitSet, Scheduler.io, iosuspend, yieldBack,
    State.setResumption, fds, resumptions]

end Entering

/-! ## Leaving the list -/

/-- Fibers have been resumed by the event loop, one after the other. -/
def resumed (fibers : List ι) (state : Scheduler.State ι μ κ) :
    Scheduler.State ι μ κ :=
  { state with
    iowait := state.iowait - fibers.length
    pending := state.pending ++ fibers
    trace := state.trace ++ fibers.map .ready }

section Leaving

variable {state : Scheduler.State ι μ κ}

theorem resumed_nil : resumed [] state = state := by
  simp [resumed]

theorem resumed_cons (fiber : ι) (fibers : List ι) :
    resumed (fiber :: fibers) state =
      resumed fibers (ioresume state fiber) := by
  have iowait :
      state.iowait - ((fiber :: fibers).length : Int) =
        state.iowait - 1 - fibers.length := by
    rw [List.length_cons]
    omega
  simp only [resumed, ioresume, State.emit, iowait, List.map_cons,
    List.append_assoc, List.singleton_append]

variable [DecidableEq ι] {layout : Layout ι Unit} {ready : Ready}
variable {fuel : Nat} {stop : layout.It}

/-- The pass resumes the fibers of ready elements in the order of its visits. -/
theorem resumed_of_passFrom
    (rounds : Nat) :
    ∀ {it : layout.It} {pass after : Pass layout ι μ κ},
      passFrom layout fuel ready () stop rounds it pass = .ok after →
        ∃ hooks,
          after.visited = pass.visited ++ hooks ∧
            after.scheduler =
              resumed
                ((hooks.filter (pass.isReady ready)).map fun hook =>
                  (pass.elements hook).yieldback)
                pass.scheduler := by
  induction rounds with
  | zero =>
      intro it pass after passes
      cases passes
  | succ rounds inductionHypothesis =>
      intro it pass after passes
      obtain ⟨isEnd, equal, passes⟩ := of_bind passes
      cases isEnd with
      | true =>
          cases passes
          exact ⟨[], (List.append_nil _).symm, resumed_nil.symm⟩
      | false =>
          rw [if_neg Bool.false_ne_true] at passes
          obtain ⟨hook, isValue, passes⟩ := of_bind passes
          by_cases isReady : pass.isReady ready hook = true
          · have stillReady :
                (pass.behindIdle hook).isReady ready hook = true :=
              isReady
            have passes := (if_pos stillReady).symm.trans passes
            obtain ⟨it', advances, passes⟩ := of_bind passes
            obtain ⟨written, erases, passes⟩ := of_bind passes
            have sameFiber :
                ((pass.setEvents ready hook).elements hook).yieldback =
                  (pass.elements hook).yieldback := by
              simp only [Pass.setEvents, if_true]
            have passesOn :
                passFrom layout fuel ready () stop rounds it'
                    (pass.behindReady ready hook written) =
                  .ok after := by
              rw [Pass.behindReady, ← sameFiber]
              exact passes
            have passed : Passed ready [hook] pass
                (pass.behindReady ready hook written) :=
              passed_ready isReady
            obtain ⟨hooks, visited, scheduler⟩ :=
              inductionHypothesis passesOn
            refine ⟨hook :: hooks, ?_, ?_⟩
            · rw [visited, passed.visited, List.append_assoc]
              rfl
            · have sameFibers :
                  (fun query =>
                      ((pass.behindReady ready hook written).elements
                        query).yieldback) =
                    fun query => (pass.elements query).yieldback :=
                funext fun query => (passed.same query).2
              rw [scheduler, passed.sameReady, sameFibers,
                List.filter_cons_of_pos isReady, List.map_cons,
                resumed_cons]
              rfl
          · have stillIdle :
                ¬ (pass.behindIdle hook).isReady ready hook = true :=
              isReady
            have passes := (if_neg stillIdle).symm.trans passes
            obtain ⟨it', advances, passes⟩ := of_bind passes
            obtain ⟨hooks, visited, scheduler⟩ := inductionHypothesis passes
            refine ⟨hook :: hooks, ?_, ?_⟩
            · rw [visited, List.append_assoc]
              rfl
            · rw [scheduler, List.filter_cons_of_neg isReady]
              rfl

/-- The descriptor of an element is in one of the three sets. -/
def isReported (ready : Ready) (elements : ι → FdElement ι) (hook : ι) :
    Bool :=
  ready.any (elements hook).fd

/-- Where a fiber goes on to which something may have been reported. -/
def reportedTo (ready : Ready) (elements : ι → FdElement ι) (hooks : List ι)
    (fiber : ι) (resumption : Resumption μ κ) : Resumption μ κ :=
  if fiber ∈ hooks ∧ isReported ready elements fiber = true then
    .io (ready.events (elements fiber).fd)
  else resumption

/-- The scheduler once the ready ones of these elements have been resumed. -/
def dispatched (ready : Ready) (elements : ι → FdElement ι)
    (passed : List (FdElement ι)) (hooks : List ι)
    (state : Scheduler.State ι μ κ) : Scheduler.State ι μ κ :=
  { resumed (hooks.filter (isReported ready elements)) state with
    fds :=
      passed ++
        (hooks.filter fun hook => !isReported ready elements hook).map
          elements
    resumption := fun fiber =>
      reportedTo ready elements hooks fiber (state.resumption fiber) }

section Dispatched

variable {elements : ι → FdElement ι} {hook : ι} {hooks : List ι}
variable {passed : List (FdElement ι)}

theorem dispatched_nil (isFds : state.fds = passed) :
    dispatched ready elements passed [] state = state := by
  have same :
      (fun fiber =>
          reportedTo ready elements [] fiber (state.resumption fiber)) =
        state.resumption := by
    funext fiber
    exact if_neg fun both => List.not_mem_nil both.1
  simp only [dispatched, List.filter_nil, List.map_nil, same,
    resumed_nil, List.append_nil, ← isFds]

/-- A ready element is left out. -/
theorem dispatched_ready
    (isReady : isReported ready elements hook = true)
    (fds : List (FdElement ι)) :
    dispatched ready elements passed (hook :: hooks) state =
      dispatched ready elements passed hooks
        (ioresume
          { state.setResumption hook
              (.io (ready.events (elements hook).fd)) with
            fds := fds }
          hook) := by
  have same :
      (fun fiber =>
          reportedTo ready elements (hook :: hooks) fiber
            (state.resumption fiber)) =
        fun fiber =>
          reportedTo ready elements hooks fiber
            (if fiber = hook then .io (ready.events (elements hook).fd)
            else state.resumption fiber) := by
    funext fiber
    rw [reportedTo, reportedTo]
    by_cases isHook : fiber = hook
    · rw [isHook, if_pos ⟨List.mem_cons_self, isReady⟩, if_pos rfl, ite_self]
    · rw [if_neg isHook]
      apply if_congr _ rfl rfl
      rw [List.mem_cons, or_iff_right isHook]
  have filtered :
      (hook :: hooks).filter (isReported ready elements) =
        hook :: hooks.filter (isReported ready elements) :=
    List.filter_cons_of_pos isReady
  have left :
      (hook :: hooks).filter (fun query => !isReported ready elements query) =
        hooks.filter fun query => !isReported ready elements query :=
    List.filter_cons_of_neg (by simp [isReady])
  rw [dispatched, filtered, left, same, resumed_cons]
  rfl

/-- An element that is not ready stays where it is. -/
theorem dispatched_idle
    (isIdle : ¬ isReported ready elements hook = true) :
    dispatched ready elements passed (hook :: hooks) state =
      dispatched ready elements (passed ++ [elements hook]) hooks state := by
  have same :
      (fun fiber =>
          reportedTo ready elements (hook :: hooks) fiber
            (state.resumption fiber)) =
        fun fiber =>
          reportedTo ready elements hooks fiber (state.resumption fiber) := by
    funext fiber
    apply if_congr _ rfl rfl
    apply and_congr_left
    intro isReady
    apply List.mem_cons.trans (or_iff_right _)
    intro isHook
    exact isIdle (isHook ▸ isReady)
  have filtered :
      (hook :: hooks).filter (isReported ready elements) =
        hooks.filter (isReported ready elements) :=
    List.filter_cons_of_neg isIdle
  have left :
      (hook :: hooks).filter (fun query => !isReported ready elements query) =
        hook :: hooks.filter fun query =>
          !isReported ready elements query :=
    List.filter_cons_of_pos (by simp [isIdle])
  rw [dispatched, filtered, left, same, List.map_cons, List.append_cons]
  rfl

end Dispatched

/-- The loop over a wait set of its own resumes the fibers in its order. -/
theorem dispatch_eq
    {elements : ι → FdElement ι} (hooks : List ι) :
    ∀ {passed : List (FdElement ι)} {state : Scheduler.State ι μ κ},
      (∀ hook ∈ hooks, (elements hook).yieldback = hook) →
        state.fds = passed ++ hooks.map elements →
          Scheduler.dispatch ready passed (hooks.map elements) state =
            dispatched ready elements passed hooks state := by
  induction hooks with
  | nil =>
      intro passed state _ isFds
      rw [List.map_nil, List.append_nil] at isFds
      exact (dispatched_nil isFds).symm
  | cons hook hooks inductionHypothesis =>
      intro passed state own isFds
      have ownHook := own hook List.mem_cons_self
      have ownOthers : ∀ other ∈ hooks, (elements other).yieldback = other :=
        fun other member => own other (List.mem_cons_of_mem _ member)
      rw [List.map_cons, Scheduler.dispatch]
      by_cases isReady : isReported ready elements hook = true
      · rw [dispatched_ready isReady (passed ++ hooks.map elements)]
        refine (if_pos isReady).trans ?_
        rw [ownHook]
        exact inductionHypothesis ownOthers rfl
      · rw [List.map_cons, List.append_cons] at isFds
        rw [dispatched_idle isReady]
        exact (if_neg isReady).trans (inductionHypothesis ownOthers isFds)

/-- The elements once events have been written to the ready ones. -/
def written (ready : Ready) (elements : ι → FdElement ι) (hooks : List ι)
    (hook : ι) : FdElement ι :=
  if hook ∈ hooks ∧ isReported ready elements hook = true then
    { elements hook with events := ready.events (elements hook).fd }
  else elements hook

/-- What is in the frames then is what the fibers go on with. -/
theorem withWaitSet_written
    {elements : ι → FdElement ι} {waiting : List ι}
    (suspended :
      ∀ fiber ∈ waiting, ∃ events, state.resumption fiber = .io events) :
    withWaitSet (written ready elements waiting)
        (waiting.filter fun hook => !isReported ready elements hook)
        (resumed (waiting.filter (isReported ready elements)) state) =
      dispatched ready elements [] waiting
        (withWaitSet elements waiting state) := by
  have fds :
      (waiting.filter fun hook => !isReported ready elements hook).map
          (written ready elements waiting) =
        [] ++
          (waiting.filter fun hook => !isReported ready elements hook).map
            elements := by
    rw [List.nil_append]
    apply List.map_congr_left
    intro hook member
    have isIdle := (List.mem_filter.mp member).2
    apply if_neg
    intro both
    rw [both.2] at isIdle
    cases isIdle
  have resumptions :
      (fun fiber =>
          inFrame (written ready elements waiting) fiber
            (state.resumption fiber)) =
        fun fiber =>
          reportedTo ready elements waiting fiber
            (inFrame elements fiber (state.resumption fiber)) := by
    funext fiber
    by_cases isWoken :
        fiber ∈ waiting ∧ isReported ready elements fiber = true
    · obtain ⟨events, goesOn⟩ := suspended fiber isWoken.1
      rw [reportedTo, if_pos isWoken, goesOn, inFrame, written,
        if_pos isWoken]
    · have same : written ready elements waiting fiber = elements fiber :=
        if_neg isWoken
      rw [reportedTo, if_neg isWoken]
      cases state.resumption fiber with
      | io _ => rw [inFrame, same, inFrame]
      | client | lock _ | wait _ _ | relock _ _ => rfl
  rw [withWaitSet, dispatched, fds]
  dsimp only [resumed]
  rw [resumptions]
  rfl

end Leaving

/-! ## Runs -/

/-- The list in memory shows who waits. -/
structure ShowsWaiting [DecidableEq ι] [DecidableEq μ] [DecidableEq κ]
    (selecting : Selecting ι μ κ) (waiting : List ι) : Prop where
  represents : Represents selecting.memory fun _ => waiting
  own : ∀ fiber ∈ waiting, (selecting.elements fiber).yieldback = fiber
  consistent :
    ∃ location,
      Consistent
        (withWaitSet selecting.elements waiting selecting.scheduler) location

section ShowsWaiting

variable [DecidableEq ι] [DecidableEq μ] [DecidableEq κ]
variable {selecting : Selecting ι μ κ} {waiting : List ι}

/-- The elements of the list are the fibers that wait. -/
theorem ShowsWaiting.fibers (shows : ShowsWaiting selecting waiting) :
    (withWaitSet selecting.elements waiting selecting.scheduler).fds.map
        FdElement.yieldback =
      waiting := by
  rw [withWaitSet, List.map_map]
  exact (List.map_congr_left shows.own).trans (List.map_id waiting)

/-- Whoever waits is suspended in `dfk__io`. -/
theorem ShowsWaiting.suspended
    (shows : ShowsWaiting selecting waiting) :
    ∀ fiber ∈ waiting,
      ∃ events, selecting.scheduler.resumption fiber = .io events := by
  intro fiber member
  obtain ⟨location, consistent⟩ := shows.consistent
  have isIo : location fiber = some .io := by
    apply consistent.location_of_count
    apply List.count_pos_iff.mpr
    rw [shows.fibers]
    exact member
  have fits := consistent.fits fiber
  rw [isIo] at fits
  obtain ⟨events, goesOn⟩ := fits
  change inFrame selecting.elements fiber
    (selecting.scheduler.resumption fiber) = .io events at goesOn
  cases resumption : selecting.scheduler.resumption fiber with
  | io events => exact ⟨events, rfl⟩
  | client | lock _ | wait _ _ | relock _ _ =>
      rw [resumption] at goesOn
      cases goesOn

/-- A fiber that runs does not wait. -/
theorem ShowsWaiting.not_waiting
    {this : ι} (shows : ShowsWaiting selecting waiting)
    (control : selecting.scheduler.control = .fiber this) :
    this ∉ waiting := by
  obtain ⟨location, consistent⟩ := shows.consistent
  have isRunning := consistent.running control
  have counted := consistent.count_at isRunning .io
  rw [if_neg (by simp), State.count] at counted
  rw [shows.fibers] at counted
  exact List.count_eq_zero.mp counted

/-- Every loop over the list ends. -/
theorem ShowsWaiting.room (shows : ShowsWaiting selecting waiting) :
    Room selecting.bound fun _ : Unit => waiting := by
  intro _
  obtain ⟨location, consistent⟩ := shows.consistent
  have iowait := consistent.iowait
  change selecting.scheduler.iowait =
    (waiting.map selecting.elements).length at iowait
  rw [List.length_map] at iowait
  rw [Selecting.bound, iowait, Int.toNat_natCast]
  exact Nat.lt_succ_of_lt (Nat.lt_succ_self _)

/-- The scheduler or a fiber goes on, outside of `dfk__io`. -/
theorem ShowsWaiting.goOn
    {action : Action ι μ κ}
    (shows : ShowsWaiting selecting waiting)
    (allowed : Scheduler.Allowed selecting.scheduler action)
    (outside : isOutside selecting.scheduler action = true) :
    ∃ scheduler,
      step selecting.scheduler action = .ok scheduler ∧
        step
            (withWaitSet selecting.elements waiting selecting.scheduler)
            action =
          .ok (withWaitSet selecting.elements waiting scheduler) ∧
        ShowsWaiting { selecting with scheduler := scheduler } waiting := by
  obtain ⟨location, consistent⟩ := shows.consistent
  obtain ⟨after, location', steps, consistentAfter⟩ :=
    consistent.step (allowed_withWaitSet allowed)
  rw [withWaitSet_step allowed outside] at steps ⊢
  cases stepped : step selecting.scheduler action with
  | error fault =>
      rw [stepped] at steps
      cases steps
  | ok scheduler =>
      rw [stepped] at steps
      cases steps
      exact ⟨scheduler, rfl, rfl, shows.represents, shows.own,
        ⟨location', consistentAfter⟩⟩

/-- A fiber calls `dfk__io`. -/
theorem ShowsWaiting.io
    {this : ι} (socket : Int) (events : IoEvents)
    (shows : ShowsWaiting selecting waiting)
    (control : selecting.scheduler.control = .fiber this)
    (isClient : selecting.scheduler.resumption this = .client) :
    ∃ next,
      selecting.io this socket events = .ok next ∧
        step
            (withWaitSet selecting.elements waiting selecting.scheduler)
            (.call (.io socket events)) =
          .ok
            (withWaitSet next.elements (waiting ++ [this])
              next.scheduler) ∧
        ShowsWaiting next (waiting ++ [this]) := by
  have isNew := shows.not_waiting control
  have cleared :
      Represents
        (selecting.memory.modify this fun _ => { next := none, prev := none })
        fun _ => waiting :=
    shows.represents.modify fun _ => isNew
  obtain ⟨memory, appends, represents⟩ :
      ∃ memory,
        LinkedList.append selecting.bound
            (selecting.memory.modify this fun _ =>
              { next := none, prev := none })
            () this =
          .ok memory ∧
          Represents memory
            (Function.update (fun _ => waiting) () (waiting ++ [this])) :=
    cleared.append shows.room fun _ => isNew
  have sameSequences :
      Function.update (fun _ : Unit => waiting) () (waiting ++ [this]) =
        fun _ => waiting ++ [this] := by
    funext list
    cases list
    exact Function.update_self ..
  rw [sameSequences] at represents
  have entered :=
    @withWaitSet_io ι μ κ _ selecting.elements waiting selecting.scheduler
      this socket events isNew
  have steps :
      step (withWaitSet selecting.elements waiting selecting.scheduler)
          (.call (.io socket events)) =
        .ok
          (withWaitSet
            (Function.update selecting.elements this
              { fd := socket, events := events, yieldback := this })
            (waiting ++ [this])
            (iosuspend selecting.scheduler this (.io events))) := by
    have same :
        (withWaitSet selecting.elements waiting selecting.scheduler).control =
          .fiber this :=
      control
    rw [entered]
    simp only [step, same]
    rfl
  refine
    ⟨{ selecting with
        scheduler := iosuspend selecting.scheduler this (.io events)
        memory := memory
        elements :=
          Function.update selecting.elements this
            { fd := socket, events := events, yieldback := this } },
      ?_, steps, represents, ?_, ?_⟩
  · rw [Selecting.io, appends]
    rfl
  · intro fiber member
    by_cases isThis : fiber = this
    · have isFrame :
          Function.update selecting.elements this
              { fd := socket, events := events, yieldback := this } this =
            { fd := socket, events := events, yieldback := this } :=
        Function.update_self ..
      rw [isThis]
      exact congrArg FdElement.yieldback isFrame
    · have isOld : fiber ∈ waiting := by
        rcases List.mem_append.mp member with isOld | isThis'
        · exact isOld
        · exact absurd (List.mem_singleton.mp isThis') isThis
      have same :
          Function.update selecting.elements this
              { fd := socket, events := events, yieldback := this } fiber =
            selecting.elements fiber :=
        Function.update_of_ne isThis ..
      exact (congrArg FdElement.yieldback same).trans (shows.own fiber isOld)
  · obtain ⟨location, consistent⟩ := shows.consistent
    have allowed :
        Scheduler.Allowed
          (withWaitSet selecting.elements waiting selecting.scheduler)
          (.call (.io socket events)) :=
      ⟨this, control, inFrame_eq_client_iff.mpr isClient, trivial⟩
    obtain ⟨after, location', performed, consistentAfter⟩ :=
      consistent.step allowed
    cases performed.symm.trans steps
    exact ⟨location', consistentAfter⟩

/-- `dfk__io` returns. -/
theorem ShowsWaiting.ioReturn
    {this : ι} {events : IoEvents}
    (shows : ShowsWaiting selecting waiting)
    (control : selecting.scheduler.control = .fiber this)
    (goesOn : selecting.scheduler.resumption this = .io events) :
    step (withWaitSet selecting.elements waiting selecting.scheduler)
        .proceed =
      .ok
        (withWaitSet selecting.elements waiting
          (selecting.ioReturn this).scheduler) ∧
      ShowsWaiting (selecting.ioReturn this) waiting := by
  have same :
      (withWaitSet selecting.elements waiting selecting.scheduler).control =
        .fiber this :=
    control
  have isIo :
      (withWaitSet selecting.elements waiting selecting.scheduler).resumption
          this =
        .io (selecting.elements this).events := by
    change inFrame selecting.elements this _ = _
    rw [goesOn, inFrame]
  have steps :
      step (withWaitSet selecting.elements waiting selecting.scheduler)
          .proceed =
        .ok
          (withWaitSet selecting.elements waiting
            (selecting.ioReturn this).scheduler) := by
    have set :=
      @withWaitSet_setResumption ι μ κ selecting.elements waiting
        selecting.scheduler this _ .client rfl
    simp only [step, same, proceed, isIo]
    exact congrArg Except.ok set.symm
  obtain ⟨location, consistent⟩ := shows.consistent
  have allowed :
      Scheduler.Allowed
        (withWaitSet selecting.elements waiting selecting.scheduler)
        .proceed := by
    refine ⟨this, control, ?_⟩
    rw [isIo]
    intro isClient
    cases isClient
  obtain ⟨after, location', performed, consistentAfter⟩ :=
    consistent.step allowed
  cases performed.symm.trans steps
  exact ⟨steps, shows.represents, shows.own, ⟨location', consistentAfter⟩⟩

end ShowsWaiting

/-! ## What `select` is called with -/

/-- The sets hold the descriptors that are waited for, and no others. -/
structure AsksFor (asked : Asked) (waiting : List (FdElement ι)) : Prop where
  readable :
    ∀ fd,
      asked.sets.readable fd = true ↔
        ∃ element ∈ waiting, element.fd = fd ∧ element.events.isIn = true
  writable :
    ∀ fd,
      asked.sets.writable fd = true ↔
        ∃ element ∈ waiting, element.fd = fd ∧ element.events.isOut = true
  exceptional :
    ∀ fd,
      asked.sets.exceptional fd = true ↔
        ∃ element ∈ waiting, element.fd = fd
  covered : ∀ element ∈ waiting, element.fd ≤ asked.maxfd

section Asking

/-- What has been asked for the first elements of a list. -/
def askedFor (waiting : List (FdElement ι)) : Asked :=
  waiting.foldl Asked.add .zero

/-- A set to which a descriptor may have been added. -/
theorem mem_added
    {members : Int → Bool} {waiting : List (FdElement ι)}
    {element : FdElement ι} {asks : FdElement ι → Bool}
    (holds :
      ∀ fd,
        members fd = true ↔
          ∃ other ∈ waiting, other.fd = fd ∧ asks other = true)
    (fd : Int) :
    (if asks element = true then Function.update members element.fd true
        else members) fd =
        true ↔
      ∃ other ∈ waiting ++ [element], other.fd = fd ∧ asks other = true := by
  have splits :
      (∃ other ∈ waiting ++ [element], other.fd = fd ∧ asks other = true) ↔
        members fd = true ∨ element.fd = fd ∧ asks element = true := by
    rw [holds]
    constructor
    · rintro ⟨other, member, isFd, isAsked⟩
      rcases List.mem_append.mp member with isOld | isNew
      · exact Or.inl ⟨other, isOld, isFd, isAsked⟩
      · rw [List.mem_singleton.mp isNew] at isFd isAsked
        exact Or.inr ⟨isFd, isAsked⟩
    · rintro (⟨other, isOld, both⟩ | both)
      · exact ⟨other, List.mem_append_left _ isOld, both⟩
      · exact ⟨element, List.mem_append_right _ (List.mem_singleton_self _),
          both⟩
  rw [splits]
  by_cases isAsked : asks element = true
  · rw [if_pos isAsked]
    by_cases same : element.fd = fd
    · rw [← same, Function.update_self]
      exact iff_of_true rfl (Or.inr ⟨rfl, isAsked⟩)
    · rw [Function.update_of_ne (Ne.symm same)]
      exact (or_iff_left fun both => same both.1).symm
  · rw [if_neg isAsked]
    exact (or_iff_left fun both => isAsked both.2).symm

/-- Every element that is waited for is asked for, and nothing else. -/
theorem asksFor_askedFor (waiting : List (FdElement ι)) :
    AsksFor (askedFor waiting) waiting := by
  induction waiting using List.reverseRecOn with
  | nil =>
      exact
        { readable := by simp [askedFor, Asked.zero]
          writable := by simp [askedFor, Asked.zero]
          exceptional := by simp [askedFor, Asked.zero]
          covered := fun _ member => absurd member List.not_mem_nil }
  | append_singleton waiting element inductionHypothesis =>
      have grown :
          askedFor (waiting ++ [element]) =
            (askedFor waiting).add element :=
        List.foldl_append
      rw [grown]
      have exceptional :=
        @mem_added ι _ waiting element (fun _ => true)
          (by simpa using inductionHypothesis.exceptional)
      refine
        { readable :=
            @mem_added ι _ waiting element (fun other => other.events.isIn)
              inductionHypothesis.readable
          writable :=
            @mem_added ι _ waiting element (fun other => other.events.isOut)
              inductionHypothesis.writable
          exceptional := by simpa [Asked.add] using exceptional
          covered := ?_ }
      · intro other member
        rcases List.mem_append.mp member with isOld | isNew
        · exact
            Int.le_trans (inductionHypothesis.covered other isOld)
              (Int.le_max_left _ _)
        · rw [List.mem_singleton.mp isNew]
          exact Int.le_max_right _ _

variable [DecidableEq ι] [DecidableEq μ] [DecidableEq κ]
variable {selecting : Selecting ι μ κ} {waiting : List ι}

/-- The loop that fills the sets goes through what is left of the list. -/
theorem ShowsWaiting.askFrom
    (shows : ShowsWaiting selecting waiting) (rounds : Nat) :
    ∀ {index : Nat},
      index ≤ waiting.length →
        waiting.length < index + rounds →
          selecting.askFrom { value := none } rounds
              { value := waiting[index]? }
              (askedFor ((waiting.take index).map selecting.elements)) =
            .ok (askedFor (waiting.map selecting.elements)) := by
  have holds := shows.represents.holds ()
  have enough : waiting.length ≤ selecting.bound :=
    Nat.le_of_lt (Nat.lt_of_succ_lt (shows.room ()))
  induction rounds with
  | zero =>
      intro index within left
      exact absurd left (Nat.not_lt.mpr within)
  | succ rounds inductionHypothesis =>
      intro index within left
      rw [Selecting.askFrom]
      cases isHook : waiting[index]? with
      | none =>
          have past : waiting.length ≤ index :=
            List.getElem?_eq_none_iff.mp isHook
          rw [holds.itEqual_end enough (by simp), ok_bind,
            List.take_of_length_le past]
          rfl
      | some hook =>
          obtain ⟨goesOn, next⟩ :=
            holds.round enough holds.follows_next (fun _ member => member)
              isHook
          obtain ⟨inside, atIndex⟩ := List.getElem?_eq_some_iff.mp isHook
          have asked :
              askedFor ((waiting.take (index + 1)).map selecting.elements) =
                (askedFor ((waiting.take index).map selecting.elements)).add
                  (selecting.elements hook) := by
            rw [List.take_succ_eq_append_getElem inside, atIndex,
              List.map_append]
            exact List.foldl_append
          rw [isHook] at goesOn next
          rw [goesOn, ok_bind, if_neg Bool.false_ne_true, deref_some,
            ok_bind, itNext, next, ok_bind, ← asked]
          exact inductionHypothesis inside (by omega)

/-- `select` is called with what the list holds. -/
theorem ShowsWaiting.ask (shows : ShowsWaiting selecting waiting) :
    selecting.ask = .ok (askedFor (waiting.map selecting.elements)) := by
  have holds := shows.represents.holds ()
  have enough : waiting.length < selecting.bound :=
    Nat.lt_of_succ_lt (shows.room ())
  rw [Selecting.ask, holds.begin (Nat.le_of_lt enough), ok_bind,
    holds.listEnd (Nat.le_of_lt enough), ok_bind, List.head?_eq_getElem?]
  exact shows.askFrom selecting.bound (Nat.zero_le _)
    (enough.trans_eq (Nat.zero_add _).symm)

end Asking

/-! ## The pass -/

section Dispatching

variable [DecidableEq ι] [DecidableEq μ] [DecidableEq κ]
variable {selecting : Selecting ι μ κ} {waiting : List ι}

/-- The pass resumes the ready ones of those that wait, and they are erased. -/
theorem ShowsWaiting.selectPass
    (shows : ShowsWaiting selecting waiting) (ready : Ready) :
    ∃ after,
      EventLoop.selectPass Layout.default selecting.bound ready ()
            selecting.toPass =
          .ok after ∧
        Passed ready waiting selecting.toPass after ∧
        after.scheduler =
          resumed (waiting.filter (isReported ready selecting.elements))
            selecting.scheduler ∧
        Represents after.memory fun _ =>
          waiting.filter fun hook =>
            !isReported ready selecting.elements hook := by
  have enough : waiting.length < selecting.bound :=
    Nat.lt_of_succ_lt (shows.room ())
  obtain ⟨it, begins, stands⟩ :=
    default_faithful.begin shows.represents shows.room .forth ()
  obtain ⟨stop, ends, standsAtEnd⟩ :=
    default_faithful.listEnd shows.represents shows.room .forth ()
  have isEnd : stop.value = none :=
    standsAtEnd.trans (List.getElem?_eq_none (Nat.le_of_eq length_order))
  obtain ⟨after, passes, passed, sequences, represents, -, left⟩ :=
    @passFrom_of_stands ι Unit ι μ κ Layout.default ready _ _ _ _ _
      selecting.bound () stop default_faithful (fun _ _ => trivial) isEnd
      waiting selecting.bound [] it selecting.toPass _ shows.represents
      shows.room rfl stands enough
      fun _ _ after _ _ => survives_default after
  obtain ⟨hooks, visited, scheduler⟩ := resumed_of_passFrom _ passes
  have isWaiting : hooks = waiting :=
    List.append_cancel_left (visited.symm.trans passed.visited)
  have own :
      ((waiting.filter (isReported ready selecting.elements)).map fun hook =>
          (selecting.elements hook).yieldback) =
        waiting.filter (isReported ready selecting.elements) := by
    refine (List.map_congr_left ?_).trans (List.map_id _)
    intro hook member
    exact shows.own hook (List.mem_of_mem_filter member)
  refine ⟨after, ?_, passed, ?_, ?_⟩
  · have begins' :
        (Layout.default : Layout ι Unit).begin .forth selecting.bound
            selecting.toPass.memory () =
          .ok it :=
      begins
    have ends' :
        (Layout.default : Layout ι Unit).listEnd selecting.bound
            selecting.toPass.memory () =
          .ok stop :=
      ends
    rw [EventLoop.selectPass, begins', ok_bind, ends', ok_bind]
    exact passes
  · rw [scheduler, isWaiting]
    exact congrArg (resumed · selecting.scheduler) own
  · have same : sequences = fun _ =>
          waiting.filter fun hook =>
            !isReported ready selecting.elements hook := by
      funext list
      exact left
    rw [← same]
    exact represents

/-- The list in memory is the wait set of a scheduler. -/
structure Shows (selecting : Selecting ι μ κ) (waiting : List ι)
    (state : Scheduler.State ι μ κ) : Prop where
  represents : Represents selecting.memory fun _ => waiting
  own : ∀ fiber ∈ waiting, (selecting.elements fiber).yieldback = fiber
  same : withWaitSet selecting.elements waiting selecting.scheduler = state

/-- Some descriptors are ready. -/
theorem ShowsWaiting.dispatch
    (shows : ShowsWaiting selecting waiting) (ready : Ready) :
    ∃ next waiting',
      selecting.dispatch ready = .ok next ∧
        next.asked = selecting.asked ∧
        Shows next waiting'
          (poll
            (withWaitSet selecting.elements waiting selecting.scheduler)
            (.ready ready)) := by
  obtain ⟨after, passes, passed, scheduler, represents⟩ :=
    shows.selectPass ready
  have elements :
      after.elements = written ready selecting.elements waiting :=
    funext passed.elements
  have left :
      withWaitSet after.elements
          (waiting.filter fun hook =>
            !isReported ready selecting.elements hook)
          after.scheduler =
        Scheduler.dispatch ready [] (waiting.map selecting.elements)
          (withWaitSet selecting.elements waiting selecting.scheduler) := by
    rw [elements, scheduler, withWaitSet_written shows.suspended]
    exact (dispatch_eq waiting shows.own rfl).symm
  have anyReady :
      ((withWaitSet selecting.elements waiting selecting.scheduler).fds.any
          fun element => ready.any element.fd) =
        after.anyReady := by
    rw [passed.anyReady]
    exact List.any_map
  have dispatches :
      selecting.dispatch ready =
        .ok
          { selecting with
            memory := after.memory
            elements := after.elements
            scheduler :=
              if after.anyReady then suspendEventloop after.scheduler .head
              else { after.scheduler with eventloop := .head } } := by
    rw [Selecting.dispatch, passes]
    rfl
  refine ⟨_, _, dispatches, rfl, represents, ?_, ?_⟩
  · intro fiber member
    have same := (passed.same fiber).2
    exact same.trans (shows.own fiber (List.mem_of_mem_filter member))
  · rw [poll]
    dsimp only
    rw [anyReady]
    cases after.anyReady with
    | true =>
        exact congrArg (suspendEventloop · .head) left
    | false =>
        exact
          congrArg
            (fun state : Scheduler.State ι μ κ =>
              { state with eventloop := .head })
            left

/-- The event loop goes on from the loop that fills the sets. -/
theorem ShowsWaiting.select
    (shows : ShowsWaiting selecting waiting) (outcome : Outcome) :
    ∃ next waiting',
      selecting.select outcome = .ok next ∧
        next.asked = some (askedFor (waiting.map selecting.elements)) ∧
        Shows next waiting'
          (poll
            (withWaitSet selecting.elements waiting selecting.scheduler)
            outcome) := by
  rw [Selecting.select, shows.ask, ok_bind]
  cases outcome with
  | interrupted =>
      exact ⟨_, waiting, rfl, rfl, shows.represents, shows.own, rfl⟩
  | none =>
      exact ⟨_, waiting, rfl, rfl, shows.represents, shows.own, rfl⟩
  | ready ready =>
      have asked :
          ShowsWaiting
            { selecting with
              asked := some (askedFor (waiting.map selecting.elements)) }
            waiting :=
        ⟨shows.represents, shows.own, shows.consistent⟩
      exact asked.dispatch ready

/-- The event loop goes on to the next call of `select` and behind it. -/
theorem ShowsWaiting.main
    (shows : ShowsWaiting selecting waiting) (outcome : Outcome) :
    ∃ next waiting',
      selecting.main outcome = .ok next ∧
        (selecting.scheduler.eventloop = .select ∨ waiting ≠ [] →
          next.asked = some (askedFor (waiting.map selecting.elements))) ∧
        Shows next waiting'
          (eventloopMain
            (withWaitSet selecting.elements waiting selecting.scheduler)
            outcome) := by
  have same :
      (withWaitSet selecting.elements waiting
          selecting.scheduler).eventloop =
        selecting.scheduler.eventloop :=
    rfl
  have isEmpty :
      LinkedList.empty selecting.bound selecting.memory () =
        .ok waiting.isEmpty :=
    (shows.represents.agrees
      (fun list => Nat.lt_of_succ_lt (shows.room list)) ()).empty
  obtain ⟨next, waiting', selects, asked, showsNext⟩ := shows.select outcome
  rw [Selecting.main, eventloopMain, same]
  cases selecting.scheduler.eventloop with
  | select =>
      exact ⟨next, waiting', selects, fun _ => asked, showsNext⟩
  | head =>
      dsimp only
      rw [isEmpty, ok_bind]
      cases waiting with
      | nil =>
          refine ⟨_, [], rfl, ?_, shows.represents, shows.own, rfl⟩
          rintro (isSelect | isCons)
          · cases isSelect
          · exact absurd rfl isCons
      | cons fiber waiting =>
          exact ⟨next, waiting', selects, fun _ => asked, showsNext⟩

/-! ## Every run -/

/-- What is claimed of a step. -/
structure FollowsScheduler (selecting : Selecting ι μ κ) (waiting : List ι)
    (action : SelectAction ι μ κ) (next : Selecting ι μ κ)
    (waiting' : List ι) : Prop where
  /-- The hooks in memory link the fibers that wait, in their order. -/
  represents : Represents next.memory fun _ => waiting'
  /-- It is a step of the scheduler. -/
  steps :
    Scheduler.Steps
      (withWaitSet selecting.elements waiting selecting.scheduler)
      action.abstracted
      (withWaitSet next.elements waiting' next.scheduler)
  /-- `select` is called with what is waited for. -/
  asked :
    ∀ outcome,
      action = .select outcome →
        selecting.scheduler.eventloop = .select ∨ waiting ≠ [] →
          ∃ asked,
            next.asked = some asked ∧
              AsksFor asked (waiting.map selecting.elements)
  /-- A fiber that was suspended gets what has been reported to it. -/
  returned :
    ∀ this events,
      action = .ioReturn →
        selecting.scheduler.control = .fiber this →
          (withWaitSet selecting.elements waiting
              selecting.scheduler).resumption this =
              .io events →
            next.results = selecting.results ++ [(this, events)]

/-- Whatever may happen next does happen. -/
theorem ShowsWaiting.step
    {action : SelectAction ι μ κ}
    (shows : ShowsWaiting selecting waiting)
    (allowed : action.Allowed selecting) :
    ∃ next waiting',
      action.perform selecting = .ok next ∧ ShowsWaiting next waiting' ∧
        FollowsScheduler selecting waiting action next waiting' := by
  cases action with
  | goOn act =>
      obtain ⟨scheduler, steps, stepsView, showsNext⟩ :=
        shows.goOn allowed.1 allowed.2
      refine ⟨_, waiting, ?_, showsNext,
        { represents := showsNext.represents
          steps := ⟨allowed_withWaitSet allowed.1, stepsView⟩
          asked := ?_
          returned := ?_ }⟩
      · rw [SelectAction.perform, steps]
        rfl
      · intro outcome isSelect
        cases isSelect
      · intro this events isReturn
        cases isReturn
  | io socket events =>
      change (runs selecting.scheduler).any _ = true at allowed
      rw [Option.any_eq_true] at allowed
      obtain ⟨this, isRunning, isAt⟩ := allowed
      have control := control_of_runs isRunning
      have isClient : selecting.scheduler.resumption this = .client :=
        of_decide_eq_true isAt
      obtain ⟨next, goes, stepsView, showsNext⟩ :=
        shows.io socket events control isClient
      refine ⟨next, _, ?_, showsNext,
        { represents := showsNext.represents
          steps :=
            ⟨⟨this, control, inFrame_eq_client_iff.mpr isClient, trivial⟩,
              stepsView⟩
          asked := ?_
          returned := ?_ }⟩
      · rw [SelectAction.perform, isRunning]
        exact goes
      · intro outcome isSelect
        cases isSelect
      · intro this events isReturn
        cases isReturn
  | ioReturn =>
      change (runs selecting.scheduler).any _ = true at allowed
      rw [Option.any_eq_true] at allowed
      obtain ⟨this, isRunning, isAt⟩ := allowed
      have control := control_of_runs isRunning
      cases goesOn : selecting.scheduler.resumption this with
      | io events =>
          obtain ⟨stepsView, showsNext⟩ := shows.ioReturn control goesOn
          refine ⟨_, waiting, ?_, showsNext,
            { represents := showsNext.represents
              steps := ⟨⟨this, control, ?_⟩, stepsView⟩
              asked := ?_
              returned := ?_ }⟩
          · rw [SelectAction.perform, isRunning]
            rfl
          · apply mt inFrame_eq_client_iff.mp
            rw [goesOn]
            intro isClient
            cases isClient
          · intro outcome isSelect
            cases isSelect
          · intro other reported _ isControl isReported
            cases control.symm.trans isControl
            change inFrame selecting.elements this _ = _ at isReported
            rw [goesOn] at isReported
            cases isReported
            rfl
      | client | lock _ | wait _ _ | relock _ _ =>
          rw [goesOn] at isAt
          cases isAt
  | select outcome =>
      obtain ⟨next, waiting', goes, asked, showsNext⟩ := shows.main outcome
      have isEventloop :
          (withWaitSet selecting.elements waiting
              selecting.scheduler).control =
            .eventloop :=
        allowed
      have steps :
          Scheduler.step
              (withWaitSet selecting.elements waiting selecting.scheduler)
              (.poll outcome) =
            .ok (withWaitSet next.elements waiting' next.scheduler) := by
        rw [showsNext.same]
        simp only [Scheduler.step, isEventloop]
      obtain ⟨location, consistent⟩ := shows.consistent
      have allowedView :
          Scheduler.Allowed
            (withWaitSet selecting.elements waiting selecting.scheduler)
            (.poll outcome) :=
        isEventloop
      obtain ⟨after, location', performed, consistentAfter⟩ :=
        consistent.step allowedView
      cases performed.symm.trans steps
      refine ⟨next, waiting', goes,
        ⟨showsNext.represents, showsNext.own, ⟨location', consistentAfter⟩⟩,
        { represents := showsNext.represents
          steps := ⟨allowedView, steps⟩
          asked := ?_
          returned := ?_ }⟩
      · intro other isSelect calls
        exact ⟨_, asked calls, asksFor_askedFor _⟩
      · intro this events isReturn
        cases isReturn

/-- In the beginning nobody waits. -/
theorem showsWaiting_startSelect
    (main : ι) (constantTimeSize : Bool) (hooks : ι → Hook ι)
    (elements : ι → FdElement ι) :
    ShowsWaiting
      (startSelect main constantTimeSize hooks elements :
        Selecting ι μ κ)
      [] where
  represents := represents_fresh fun _ => rfl
  own := fun _ member => absurd member List.not_mem_nil
  consistent := ⟨_, consistent_start main⟩

/-- The list in memory shows the wait set of a scheduler. -/
def ShowsState (selecting : Selecting ι μ κ)
    (state : Scheduler.State ι μ κ) : Prop :=
  ∃ waiting,
    ShowsWaiting selecting waiting ∧
      state = withWaitSet selecting.elements waiting selecting.scheduler

/-- A step with the list in memory is one of the scheduler. -/
theorem ShowsState.steps
    {state : Scheduler.State ι μ κ} {action : SelectAction ι μ κ}
    {next : Selecting ι μ κ}
    (shows : ShowsState selecting state)
    (steps : SelectSteps selecting action next) :
    ∃ next',
      Scheduler.Steps state action.abstracted next' ∧
        ShowsState next next' := by
  obtain ⟨waiting, showsWaiting, isState⟩ := shows
  obtain ⟨after, waiting', performed, showsAfter, follows⟩ :=
    showsWaiting.step steps.1
  cases performed.symm.trans steps.2
  rw [isState]
  exact ⟨_, follows.steps, waiting', showsAfter, rfl⟩

end Dispatching

/-- A scheduler on memory that holds nothing of interest. -/
def startReading : Selecting Nat Unit Unit :=
  startSelect 1 true (fun _ => { next := none, prev := none })
    fun _ =>
      { fd := 0
        events := { isIn := false, isOut := false, isErr := false }
        yieldback := 0 }

/-- The main fiber reads from a descriptor. -/
def reads : List (SelectAction Nat Unit Unit) :=
  [.goOn .schedule, .goOn .schedule,
    .io 4 { isIn := true, isOut := false, isErr := false },
    .goOn .schedule]

end Dfk.EventLoop
