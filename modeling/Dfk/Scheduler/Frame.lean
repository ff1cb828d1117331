import Dfk.Scheduler.Loops

/-!
# What calls leave alone

Mutexes and condition variables only move fibers between their queues and the
pending list.
-/

namespace Dfk.Scheduler

variable {ι μ κ : Type}

/-- Only queues, the pending list, `iowait` and resumptions have changed. -/
structure Kept (state next : State ι μ κ) : Prop where
  batch : next.batch = state.batch
  terminated : next.terminated = state.terminated
  fds : next.fds = state.fds
  eventloop : next.eventloop = state.eventloop
  live : next.live = state.live

variable {state middle next : State ι μ κ} {this : ι} {mutex : μ} {cond : κ}

theorem Kept.refl (state : State ι μ κ) : Kept state state :=
  ⟨rfl, rfl, rfl, rfl, rfl⟩

theorem Kept.trans (first : Kept state middle) (second : Kept middle next) :
    Kept state next where
  batch := second.batch.trans first.batch
  terminated := second.terminated.trans first.terminated
  fds := second.fds.trans first.fds
  eventloop := second.eventloop.trans first.eventloop
  live := second.live.trans first.live

variable [DecidableEq ι]

theorem kept_setResumption {resumption : Resumption μ κ} :
    Kept state (state.setResumption this resumption) :=
  ⟨rfl, rfl, rfl, rfl, rfl⟩

theorem kept_condReturn : Kept state (condReturn this cond state) :=
  ⟨rfl, rfl, rfl, rfl, rfl⟩

theorem locked_kept
    {goOn : State ι μ κ → State ι μ κ}
    (kept : ∀ state, Kept state (goOn state))
    (locks : locked state this mutex goOn = .ok next) :
    Kept state next := by
  obtain ⟨_, -, isNext⟩ := of_bind locks
  cases isNext
  exact kept state

theorem mutexLock_kept
    [DecidableEq μ]
    {blocked : Resumption μ κ} {goOn : State ι μ κ → State ι μ κ}
    (kept : ∀ state, Kept state (goOn state))
    (locks : mutexLock state this mutex blocked goOn = .ok next) :
    Kept state next := by
  rw [mutexLock] at locks
  cases isOwner : (state.mutexes mutex).owner with
  | none =>
      rw [isOwner] at locks
      dsimp only at locks
      have keptBehind := locked_kept kept locks
      exact ⟨keptBehind.batch, keptBehind.terminated, keptBehind.fds,
        keptBehind.eventloop, keptBehind.live⟩
  | some owner =>
      rw [isOwner] at locks
      dsimp only at locks
      split at locks
      · exact locked_kept kept locks
      · cases locks
        exact ⟨rfl, rfl, rfl, rfl, rfl⟩

omit [DecidableEq ι] in
theorem release_kept [DecidableEq μ] :
    Kept state (release state this mutex) := by
  rw [release]
  split
  · exact ⟨rfl, rfl, rfl, rfl, rfl⟩
  · exact ⟨rfl, rfl, rfl, rfl, rfl⟩

theorem mutexTrylock_kept [DecidableEq μ] :
    Kept state (mutexTrylock state this mutex).2 := by
  rw [mutexTrylock]
  split
  · exact Kept.refl state
  · exact ⟨rfl, rfl, rfl, rfl, rfl⟩

theorem condWait_kept
    [DecidableEq μ] [DecidableEq κ]
    (waits : condWait state this cond mutex = .ok next) :
    Kept state next := by
  obtain ⟨_, -, waits⟩ := of_bind waits
  obtain ⟨_, -, waits⟩ := of_bind waits
  cases waits
  have released : Kept state (release state this mutex) := release_kept
  exact released.trans ⟨rfl, rfl, rfl, rfl, rfl⟩

omit [DecidableEq ι] in
theorem condSignal_kept [DecidableEq κ] :
    Kept state (condSignal state cond) := by
  rw [condSignal]
  split
  · exact ⟨rfl, rfl, rfl, rfl, rfl⟩
  · exact Kept.refl state

omit [DecidableEq ι] in
theorem condBroadcast_kept [DecidableEq κ] :
    Kept state (condBroadcast state cond) := by
  apply @condBroadcast_preserves ι μ κ cond _ (Kept state)
  · intro middle kept
    exact kept.trans condSignal_kept
  · exact Kept.refl state

variable [DecidableEq μ] [DecidableEq κ]

omit [DecidableEq κ] in
/-- A fiber goes on in the function in which it was suspended. -/
theorem proceed_kept
    (goesOn : proceed state this = .ok next) :
    Kept state next := by
  rw [proceed] at goesOn
  cases resumption : state.resumption this with
  | client =>
      rw [resumption] at goesOn
      cases goesOn
      exact Kept.refl _
  | lock mutex =>
      rw [resumption] at goesOn
      apply locked_kept _ goesOn
      exact fun _ => kept_setResumption
  | wait cond mutex =>
      rw [resumption] at goesOn
      apply mutexLock_kept _ goesOn
      exact fun _ => kept_condReturn
  | relock cond mutex =>
      rw [resumption] at goesOn
      apply locked_kept _ goesOn
      exact fun _ => kept_condReturn
  | io events =>
      rw [resumption] at goesOn
      cases goesOn
      exact kept_setResumption

/-- Calls that do not spawn, wait for a descriptor or return keep the rest. -/
inductive Performed (state : State ι μ κ) (this : ι) :
    Call ι μ κ → State ι μ κ → Prop where
  | spawn (fiber : Option ι) :
      Performed state this (.spawn fiber) (spawn state fiber)
  | io (socket : Int) (events : IoEvents) :
      Performed state this (.io socket events) (io state this socket events)
  | exit : Performed state this .exit (terminate state this)
  | other {call : Call ι μ κ} {next : State ι μ κ}
      (noSpawn : ∀ fiber, call ≠ .spawn fiber)
      (noIo : ∀ socket events, call ≠ .io socket events)
      (kept : Kept state next) :
      Performed state this call next

/-- What a call does. -/
theorem performed_of_perform
    {call : Call ι μ κ}
    (performs : perform state this call = .ok next) :
    Performed state this call next := by
  cases call with
  | spawn fiber =>
      cases performs
      exact .spawn fiber
  | postpone =>
      cases performs
      exact .other (by simp) (by simp) ⟨rfl, rfl, rfl, rfl, rfl⟩
  | lock mutex =>
      apply Performed.other (by simp) (by simp)
      apply mutexLock_kept _ performs
      exact Kept.refl
  | trylock mutex =>
      cases performs
      exact .other (by simp) (by simp) mutexTrylock_kept
  | unlock mutex =>
      obtain ⟨_, -, performs⟩ := of_bind performs
      obtain ⟨_, -, performs⟩ := of_bind performs
      cases performs
      exact .other (by simp) (by simp) release_kept
  | wait cond mutex =>
      exact .other (by simp) (by simp) (condWait_kept performs)
  | signal cond =>
      cases performs
      exact .other (by simp) (by simp) condSignal_kept
  | broadcast cond =>
      cases performs
      exact .other (by simp) (by simp) condBroadcast_kept
  | io socket events =>
      cases performs
      exact .io socket events
  | exit =>
      cases performs
      exact .exit

/-! ## Descriptors -/

omit [DecidableEq μ] [DecidableEq κ] in
/-- The event loop registers nothing. -/
theorem eventloopMain_fds
    {outcome : Outcome} {element : FdElement ι}
    (member : element ∈ (eventloopMain state outcome).fds) :
    element ∈ state.fds := by
  have polled (isIn : element ∈ (poll state outcome).fds) :
      element ∈ state.fds := by
    cases outcome with
    | interrupted => exact isIn
    | none => exact isIn
    | ready ready =>
        have dispatched :
            ∀ element ∈ (dispatch ready [] state.fds state).fds,
              element ∈ state.fds := by
          apply @dispatch_preserves ι μ κ _ ready fun after =>
            ∀ element ∈ after.fds, element ∈ state.fds
          · intro after passed first elements isFds registered element isLeft
            apply registered
            rw [isFds]
            rcases List.mem_append.mp isLeft with isPassed | isBehind
            · exact List.mem_append_left _ isPassed
            · exact List.mem_append_right _ (List.mem_cons_of_mem _ isBehind)
          · rfl
          · exact fun element isIn => isIn
        apply dispatched
        rw [poll] at isIn
        split at isIn
        · exact isIn
        · exact isIn
  rw [eventloopMain] at member
  split at member
  · split at member
    · exact member
    · exact polled member
  · exact polled member

/-- Only `dfk__io` registers a descriptor. -/
theorem step_fds
    {action : Action ι μ κ} {element : FdElement ι}
    (allowed : Allowed state action)
    (steps : step state action = .ok next)
    (member : element ∈ next.fds) :
    element ∈ state.fds ∨
      state.control = .fiber element.yieldback ∧
        action = .call (.io element.fd element.events) := by
  cases action with
  | schedule =>
      rcases allowed with control | control
      · simp only [step, control] at steps
        cases steps
        rw [spin] at member
        split at member
        · exact Or.inl member
        · exact Or.inl member
      · simp only [step, control] at steps
        cases steps
        rw [drain] at member
        split at member
        · exact Or.inl member
        · split at member
          · exact Or.inl member
          · exact Or.inl member
  | poll outcome =>
      have control : state.control = .eventloop := allowed
      simp only [step, control] at steps
      cases steps
      exact Or.inl (eventloopMain_fds member)
  | proceed =>
      obtain ⟨this, control, -⟩ := allowed
      simp only [step, control] at steps
      rw [(proceed_kept steps).fds] at member
      exact Or.inl member
  | call call =>
      obtain ⟨this, control, -⟩ := allowed
      simp only [step, control] at steps
      cases performed_of_perform steps with
      | spawn fiber =>
          cases fiber with
          | none => exact Or.inl member
          | some fiber => exact Or.inl member
      | io socket events =>
          rcases List.mem_append.mp member with isOld | isNew
          · exact Or.inl isOld
          · rw [List.mem_singleton] at isNew
            subst isNew
            exact Or.inr ⟨control, rfl⟩
      | exit => exact Or.inl member
      | other noSpawn noIo kept =>
          rw [kept.fds] at member
          exact Or.inl member

end Dfk.Scheduler
