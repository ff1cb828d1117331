import Dfk.EventLoop.Epoll
import Dfk.Scheduler.Lifetimes

/-!
# The wait set that `epoll.c` leaves to the kernel

In every run the event loop wakes fibers as if it had a wait set of its own.
The frames that the kernel points into have not been left when the event loop
follows a pointer.
-/

namespace Dfk.EventLoop

open Scheduler Runs

variable {ι μ κ : Type}

/-! ## Outside of `dfk__io` -/

/-- Nobody enters `dfk__io`, and the wait set stays as it is. -/
structure NoEntry (state next : Scheduler.State ι μ κ) : Prop where
  fds : next.fds = state.fds
  returning :
    ∀ fiber events,
      next.resumption fiber = .io events → state.resumption fiber = .io events

section Outside

variable {state middle next : Scheduler.State ι μ κ} {this : ι} {mutex : μ}
variable {cond : κ} {resumption : Resumption μ κ}

theorem NoEntry.refl (state : Scheduler.State ι μ κ) : NoEntry state state :=
  ⟨rfl, fun _ _ => id⟩

theorem NoEntry.trans
    (first : NoEntry state middle) (second : NoEntry middle next) :
    NoEntry state next where
  fds := second.fds.trans first.fds
  returning fiber events goesOn :=
    first.returning fiber events (second.returning fiber events goesOn)

/-- Everybody goes on where they would have. -/
theorem noEntry_of_same
    (fds : next.fds = state.fds)
    (same : next.resumption = state.resumption) :
    NoEntry state next := by
  refine ⟨fds, fun fiber events goesOn => ?_⟩
  rw [← same]
  exact goesOn

variable [DecidableEq ι]

/-- One fiber goes on elsewhere. -/
theorem noEntry_of_set
    (fds : next.fds = state.fds)
    (elsewhere : ∀ events, resumption ≠ .io events)
    (sets :
      next.resumption = (state.setResumption this resumption).resumption) :
    NoEntry state next := by
  refine ⟨fds, fun fiber events goesOn => ?_⟩
  rw [sets, State.setResumption] at goesOn
  dsimp only at goesOn
  split at goesOn
  · exact absurd goesOn (elsewhere events)
  · exact goesOn

/-- A fiber returns to client code. -/
theorem noEntry_client
    (fds : next.fds = state.fds)
    (sets : next.resumption = (state.setResumption this .client).resumption) :
    NoEntry state next :=
  noEntry_of_set fds (by simp) sets

theorem noEntry_condReturn : NoEntry state (condReturn this cond state) :=
  noEntry_client rfl rfl

theorem noEntry_locked
    {goOn : Scheduler.State ι μ κ → Scheduler.State ι μ κ}
    (noEntry : ∀ state, NoEntry state (goOn state))
    (locks : locked state this mutex goOn = .ok next) :
    NoEntry state next := by
  obtain ⟨_, -, isNext⟩ := of_bind locks
  cases isNext
  exact noEntry state

theorem noEntry_mutexLock
    [DecidableEq μ]
    {goOn : Scheduler.State ι μ κ → Scheduler.State ι μ κ}
    (elsewhere : ∀ events, resumption ≠ .io events)
    (noEntry : ∀ state, NoEntry state (goOn state))
    (locks : mutexLock state this mutex resumption goOn = .ok next) :
    NoEntry state next := by
  rw [mutexLock] at locks
  cases isOwner : (state.mutexes mutex).owner with
  | none =>
      rw [isOwner] at locks
      have behind := noEntry_locked noEntry locks
      exact ⟨behind.fds, behind.returning⟩
  | some owner =>
      rw [isOwner] at locks
      dsimp only at locks
      split at locks
      · exact noEntry_locked noEntry locks
      · cases locks
        exact noEntry_of_set rfl elsewhere rfl

omit [DecidableEq ι] in
theorem noEntry_release [DecidableEq μ] :
    NoEntry state (release state this mutex) := by
  rw [release]
  split
  · exact noEntry_of_same rfl rfl
  · exact noEntry_of_same rfl rfl

omit [DecidableEq ι] in
theorem noEntry_condSignal [DecidableEq κ] :
    NoEntry state (condSignal state cond) := by
  rw [condSignal]
  split
  · exact noEntry_of_same rfl rfl
  · exact NoEntry.refl _

variable [DecidableEq μ] [DecidableEq κ]

omit [DecidableEq κ] in
/-- A fiber goes on in the function in which it was suspended. -/
theorem noEntry_proceed
    (goesOn : proceed state this = .ok next) :
    NoEntry state next := by
  rw [proceed] at goesOn
  cases isAt : state.resumption this with
  | client =>
      rw [isAt] at goesOn
      cases goesOn
      exact NoEntry.refl _
  | lock mutex =>
      rw [isAt] at goesOn
      apply noEntry_locked _ goesOn
      exact fun _ => noEntry_client rfl rfl
  | wait cond mutex =>
      rw [isAt] at goesOn
      apply noEntry_mutexLock (by simp) _ goesOn
      exact fun _ => noEntry_condReturn
  | relock cond mutex =>
      rw [isAt] at goesOn
      apply noEntry_locked _ goesOn
      exact fun _ => noEntry_condReturn
  | io events =>
      rw [isAt] at goesOn
      cases goesOn
      exact noEntry_client rfl rfl

/-- Only `dfk__io` is entered by calling it. -/
theorem noEntry_perform
    {call : Call ι μ κ}
    (noIo : ∀ socket events, call ≠ .io socket events)
    (performs : perform state this call = .ok next) :
    NoEntry state next := by
  cases call with
  | spawn fiber =>
      cases performs
      cases fiber with
      | none =>
          exact NoEntry.refl _
      | some fiber =>
          exact noEntry_client rfl rfl
  | postpone =>
      cases performs
      exact noEntry_client rfl rfl
  | lock mutex =>
      exact noEntry_mutexLock (by simp) NoEntry.refl
        performs
  | trylock mutex =>
      cases performs
      rw [mutexTrylock]
      split
      · exact NoEntry.refl _
      · exact noEntry_of_same rfl rfl
  | unlock mutex =>
      obtain ⟨_, -, performs⟩ := of_bind performs
      obtain ⟨_, -, performs⟩ := of_bind performs
      cases performs
      exact noEntry_release
  | wait cond mutex =>
      obtain ⟨_, -, performs⟩ := of_bind performs
      obtain ⟨_, -, performs⟩ := of_bind performs
      cases performs
      have released : NoEntry state (release state this mutex) :=
        noEntry_release
      exact released.trans
        (noEntry_of_set rfl (by simp) rfl)
  | signal cond =>
      cases performs
      exact noEntry_condSignal
  | broadcast cond =>
      cases performs
      apply @condBroadcast_preserves ι μ κ cond _ (NoEntry state)
      · intro middle noEntry
        exact noEntry.trans noEntry_condSignal
      · exact NoEntry.refl _
  | io socket events =>
      exact absurd rfl (noIo socket events)
  | exit =>
      cases performs
      exact noEntry_client rfl rfl

end Outside

variable [DecidableEq ι] [DecidableEq μ] [DecidableEq κ]

/-- What the scheduler and fibers do outside of `dfk__io`. -/
theorem noEntry_of_isOutside
    {state next : Scheduler.State ι μ κ} {action : Action ι μ κ}
    (allowed : Scheduler.Allowed state action)
    (outside : isOutside state action = true)
    (steps : step state action = .ok next) :
    NoEntry state next := by
  cases action with
  | schedule =>
      rcases allowed with control | control
      · simp only [step, control] at steps
        cases steps
        rw [spin]
        split
        · exact noEntry_of_same rfl rfl
        · exact noEntry_of_same rfl rfl
      · simp only [step, control] at steps
        cases steps
        rw [drain]
        split
        · exact noEntry_of_same rfl rfl
        · split
          · exact noEntry_of_same rfl rfl
          · exact noEntry_of_same rfl rfl
  | poll outcome =>
      cases outside
  | proceed =>
      obtain ⟨this, control, -⟩ := allowed
      simp only [step, control] at steps
      exact noEntry_proceed steps
  | call call =>
      obtain ⟨this, control, -⟩ := allowed
      simp only [step, control] at steps
      apply noEntry_perform _ steps
      intro socket events isIo
      rw [isIo] at outside
      cases outside

/-! ## Who waits -/

/--
Whoever is suspended in `dfk__io` is registered once with the argument in its
frame, unless its descriptor has been closed meanwhile.
-/
structure InFrames (epoll : Epoll ι μ κ) : Prop where
  consistent : ∃ location, Consistent epoll.scheduler location
  waiting :
    (epoll.registered.map Registration.element ++ epoll.stranded).Perm
      epoll.scheduler.fds
  areOpen :
    ∀ registration ∈ epoll.registered,
      epoll.isOpen registration.fd = true
  once : (epoll.registered.map Registration.fd).Nodup
  own : ∀ fiber arg, epoll.args fiber = some arg → arg.yieldback = fiber
  inside :
    ∀ element ∈ epoll.scheduler.fds,
      ∃ arg, epoll.args element.yieldback = some arg ∧ arg.fd = element.fd
  returning :
    ∀ fiber events,
      epoll.scheduler.resumption fiber = .io events →
        ∃ arg,
          epoll.args fiber = some arg ∧
            (fiber ∈ epoll.scheduler.fds.map FdElement.yieldback ∨
              arg.events = events)

section InFrames

variable {epoll next : Epoll ι μ κ}

/-- What is registered is waited for. -/
theorem InFrames.waits
    {registration : Registration ι}
    (inFrames : InFrames epoll)
    (isRegistered : registration ∈ epoll.registered) :
    registration.element ∈ epoll.scheduler.fds := by
  apply inFrames.waiting.subset
  exact List.mem_append_left _ (List.mem_map_of_mem isRegistered)

/-- A fiber waits once. -/
theorem InFrames.nodup (inFrames : InFrames epoll) :
    (epoll.scheduler.fds.map FdElement.yieldback).Nodup := by
  obtain ⟨location, consistent⟩ := inFrames.consistent
  rw [List.nodup_iff_count_le_one]
  intro fiber
  have counted := consistent.count fiber .io
  rw [State.count] at counted
  split at counted
  · exact Nat.le_of_eq counted
  · exact Nat.le_of_lt (Nat.lt_of_le_of_lt (Nat.le_of_eq counted)
      Nat.zero_lt_one)

/-- A fiber that runs does not wait. -/
theorem InFrames.not_waiting
    {this : ι} (inFrames : InFrames epoll)
    (control : epoll.scheduler.control = .fiber this) :
    this ∉ epoll.scheduler.fds.map FdElement.yieldback := by
  obtain ⟨location, consistent⟩ := inFrames.consistent
  have isRunning := consistent.running control
  have counted := consistent.count_at isRunning .io
  rw [if_neg (by simp), State.count] at counted
  exact List.count_eq_zero.mp counted

/-- The scheduler or a fiber goes on, outside of `dfk__io`. -/
theorem InFrames.goOn
    {action : Action ι μ κ}
    (inFrames : InFrames epoll)
    (allowed : Scheduler.Allowed epoll.scheduler action)
    (outside : isOutside epoll.scheduler action = true) :
    ∃ scheduler,
      step epoll.scheduler action = .ok scheduler ∧
        InFrames { epoll with scheduler := scheduler } := by
  obtain ⟨location, consistent⟩ := inFrames.consistent
  obtain ⟨scheduler, location', steps, consistent'⟩ :=
    consistent.step allowed
  have noEntry := noEntry_of_isOutside allowed outside steps
  refine ⟨scheduler, steps, ⟨location', consistent'⟩, ?_,
    inFrames.areOpen, inFrames.once, inFrames.own, ?_, ?_⟩
  · rw [noEntry.fds]
    exact inFrames.waiting
  · rw [noEntry.fds]
    exact inFrames.inside
  · intro fiber events goesOn
    rw [noEntry.fds]
    exact inFrames.returning fiber events
      (noEntry.returning fiber events goesOn)

/-- A descriptor is added, and its fiber is suspended. -/
theorem InFrames.io
    {this : ι} {socket : Int} {events : IoEvents}
    (inFrames : InFrames epoll)
    (control : epoll.scheduler.control = .fiber this)
    (client : epoll.scheduler.resumption this = .client)
    (isOpen : epoll.isOpen socket = true)
    (isNew : ∀ registration ∈ epoll.registered, registration.fd ≠ socket) :
    InFrames (epoll.io this socket events true) := by
  have notWaiting := inFrames.not_waiting control
  have others (element : FdElement ι)
      (member : element ∈ epoll.scheduler.fds) :
      element.yieldback ≠ this := by
    intro same
    apply notWaiting
    rw [← same]
    exact List.mem_map_of_mem member
  obtain ⟨location, consistent⟩ := inFrames.consistent
  have allowed :
      Scheduler.Allowed epoll.scheduler (.call (.io socket events)) :=
    ⟨this, control, client, trivial⟩
  obtain ⟨scheduler, location', steps, consistent'⟩ :=
    consistent.step allowed
  simp only [step, control] at steps
  cases steps
  rw [Epoll.io, if_pos rfl]
  refine ⟨⟨location', consistent'⟩, ?_, ?_, ?_, ?_, ?_, ?_⟩
  · dsimp only
    rw [List.map_append, List.append_assoc]
    refine (List.Perm.append_left _ List.perm_append_comm).trans ?_
    rw [← List.append_assoc]
    exact inFrames.waiting.append_right _
  · intro registration member
    rcases List.mem_append.mp member with isOld | isLast
    · exact inFrames.areOpen registration isOld
    · rw [List.mem_singleton.mp isLast]
      exact isOpen
  · dsimp only
    rw [List.map_append, List.nodup_append']
    refine ⟨inFrames.once, List.nodup_singleton _, ?_⟩
    intro fd isOld isLast
    obtain ⟨registration, member, isFd⟩ := List.mem_map.mp isOld
    apply isNew registration member
    rw [isFd]
    exact List.mem_singleton.mp isLast
  · intro fiber arg isArg
    dsimp only at isArg
    by_cases same : fiber = this
    · rw [same, Function.update_self] at isArg
      cases isArg
      exact same.symm
    · rw [Function.update_of_ne same] at isArg
      exact inFrames.own fiber arg isArg
  · intro element member
    rcases List.mem_append.mp member with isOld | isLast
    · dsimp only
      rw [Function.update_of_ne (others element isOld)]
      exact inFrames.inside element isOld
    · rw [List.mem_singleton.mp isLast]
      exact ⟨_, Function.update_self .., rfl⟩
  · intro fiber goesOnWith goesOn
    dsimp only
    by_cases same : fiber = this
    · subst same
      refine ⟨_, Function.update_self .., Or.inl ?_⟩
      exact List.mem_map.mpr
        ⟨_, List.mem_append_right _ (List.mem_singleton_self _), rfl⟩
    · rw [Function.update_of_ne same]
      have before : epoll.scheduler.resumption fiber = .io goesOnWith := by
        change (if fiber = this then _ else _) = _ at goesOn
        rw [if_neg same] at goesOn
        exact goesOn
      obtain ⟨arg, isArg, waitsOrDone⟩ :=
        inFrames.returning fiber goesOnWith before
      refine ⟨arg, isArg, waitsOrDone.imp_left ?_⟩
      intro member
      change fiber ∈ List.map _ (_ ++ _)
      rw [List.map_append]
      exact List.mem_append_left _ member

/-- A fiber returns from `dfk__io`, and with what has been reported to it. -/
theorem InFrames.ioReturn
    {this : ι} {events : IoEvents}
    (inFrames : InFrames epoll)
    (control : epoll.scheduler.control = .fiber this)
    (goesOn : epoll.scheduler.resumption this = .io events) :
    ∃ next,
      epoll.ioReturn this = .ok next ∧ InFrames next ∧
        next.results = epoll.results ++ [(this, events)] := by
  have notWaiting := inFrames.not_waiting control
  obtain ⟨arg, isArg, waitsOrDone⟩ := inFrames.returning this events goesOn
  have isEvents := waitsOrDone.resolve_left notWaiting
  obtain ⟨location, consistent⟩ := inFrames.consistent
  have allowed : Scheduler.Allowed epoll.scheduler .proceed := by
    refine ⟨this, control, ?_⟩
    rw [goesOn]
    simp
  obtain ⟨scheduler, location', steps, consistent'⟩ :=
    consistent.step allowed
  simp only [step, control] at steps
  have noEntry := noEntry_proceed steps
  have isClient :
      scheduler = epoll.scheduler.setResumption this .client := by
    rw [Scheduler.proceed, goesOn] at steps
    exact (Except.ok.inj steps).symm
  have returns :
      epoll.ioReturn this =
        .ok
          { epoll with
            scheduler := scheduler
            args := Function.update epoll.args this none
            results := epoll.results ++ [(this, arg.events)] } := by
    rw [Epoll.ioReturn, isArg, deref_some, ok_bind, steps, ok_bind]
    rfl
  refine ⟨_, returns, ⟨⟨location', consistent'⟩, ?_, inFrames.areOpen,
    inFrames.once, ?_, ?_, ?_⟩, ?_⟩
  · dsimp only
    rw [noEntry.fds]
    exact inFrames.waiting
  · intro fiber other isOther
    dsimp only at isOther
    by_cases same : fiber = this
    · rw [same, Function.update_self] at isOther
      cases isOther
    · rw [Function.update_of_ne same] at isOther
      exact inFrames.own fiber other isOther
  · intro element member
    dsimp only at member ⊢
    rw [noEntry.fds] at member
    rw [Function.update_of_ne]
    · exact inFrames.inside element member
    · intro same
      apply notWaiting
      rw [← same]
      exact List.mem_map_of_mem member
  · intro fiber others goesOnThere
    dsimp only at goesOnThere ⊢
    have before := noEntry.returning fiber others goesOnThere
    have different : fiber ≠ this := by
      intro same
      rw [isClient, same] at goesOnThere
      change (if this = this then _ else _) = _ at goesOnThere
      rw [if_pos rfl] at goesOnThere
      cases goesOnThere
    rw [Function.update_of_ne different, noEntry.fds]
    exact inFrames.returning fiber others before
  · rw [isEvents]

/-- Without one fiber the wait set is what is registered without it. -/
theorem InFrames.waiting_without
    {registration : Registration ι}
    (inFrames : InFrames epoll)
    (isRegistered : registration ∈ epoll.registered) :
    ((epoll.registered.filter fun other =>
          other.fd ≠ registration.fd).map Registration.element ++
        epoll.stranded).Perm
      (epoll.scheduler.fds.filter fun element =>
        element.yieldback ≠ registration.data) := by
  have waits := inFrames.waits isRegistered
  have onlyOnce : (epoll.scheduler.fds).Nodup :=
    List.Nodup.of_map _ inFrames.nodup
  have apart :=
    List.disjoint_of_nodup_append (inFrames.waiting.nodup_iff.mpr onlyOnce)
  have isLeft :
      epoll.registered.filter
          ((fun element : FdElement ι =>
            decide (element.yieldback ≠ registration.data)) ∘
              Registration.element) =
        epoll.registered.filter fun other =>
          decide (other.fd ≠ registration.fd) := by
    apply List.filter_congr
    intro other member
    apply decide_eq_decide.mpr
    refine not_congr ⟨fun same => ?_, fun same => ?_⟩
    · exact congrArg FdElement.fd
        (List.inj_on_of_nodup_map inFrames.nodup (inFrames.waits member)
          waits same)
    · exact congrArg Registration.data
        (List.inj_on_of_nodup_map inFrames.once member isRegistered same)
  have isStranded :
      (epoll.stranded.filter fun element =>
          element.yieldback ≠ registration.data) =
        epoll.stranded := by
    rw [List.filter_eq_self]
    intro element member
    apply decide_eq_true
    intro same
    have isWaiting : element ∈ epoll.scheduler.fds :=
      inFrames.waiting.subset (List.mem_append_right _ member)
    have isElement :=
      List.inj_on_of_nodup_map inFrames.nodup isWaiting waits same
    rw [isElement] at member
    exact apart (List.mem_map_of_mem isRegistered) member
  have without :=
    inFrames.waiting.filter fun element =>
      element.yieldback ≠ registration.data
  rw [List.filter_append, isStranded, List.filter_map, isLeft] at without
  exact without

/-- The argument of a fiber is written to, and the fiber becomes ready. -/
theorem InFrames.taken
    {registration : Registration ι} {events : IoEvents} {arg : EpollArg ι}
    (inFrames : InFrames epoll)
    (control : epoll.scheduler.control = .eventloop)
    (isRegistered : registration ∈ epoll.registered)
    (isOwn : arg.yieldback = registration.data) :
    InFrames
      { epoll with
        scheduler := epollTake epoll.scheduler (registration.data, events)
        args :=
          Function.update epoll.args registration.data
            (some { arg with events := events })
        registered :=
          epoll.registered.filter fun other =>
            other.fd ≠ registration.fd } := by
  obtain ⟨location, consistent⟩ := inFrames.consistent
  have isWaiting :
      registration.data ∈ epoll.scheduler.fds.map FdElement.yieldback :=
    List.mem_map_of_mem (inFrames.waits isRegistered)
  refine ⟨⟨_, consistent.epollTake control isWaiting⟩,
    inFrames.waiting_without isRegistered, ?_, ?_, ?_, ?_, ?_⟩
  · intro other member
    exact inFrames.areOpen other (List.mem_of_mem_filter member)
  · exact inFrames.once.sublist (List.filter_sublist.map _)
  · intro fiber other isOther
    dsimp only at isOther
    by_cases same : fiber = registration.data
    · rw [same, Function.update_self] at isOther
      cases isOther
      rw [same]
      exact isOwn
    · rw [Function.update_of_ne same] at isOther
      exact inFrames.own fiber other isOther
  · intro element member
    obtain ⟨isElement, different⟩ := List.mem_filter.mp member
    dsimp only
    rw [Function.update_of_ne (of_decide_eq_true different)]
    exact inFrames.inside element isElement
  · intro fiber goesOnWith goesOn
    dsimp only
    change (if fiber = registration.data then _ else _) = _ at goesOn
    by_cases same : fiber = registration.data
    · rw [if_pos same] at goesOn
      cases goesOn
      rw [same]
      exact ⟨_, Function.update_self .., Or.inr rfl⟩
    · rw [if_neg same] at goesOn
      rw [Function.update_of_ne same]
      obtain ⟨other, isOther, waitsOrDone⟩ :=
        inFrames.returning fiber goesOnWith goesOn
      refine ⟨other, isOther, waitsOrDone.imp_left ?_⟩
      intro member
      obtain ⟨element, isElement, isFiber⟩ := List.mem_map.mp member
      apply List.mem_map.mpr
      refine ⟨element, List.mem_filter.mpr ⟨isElement, ?_⟩, isFiber⟩
      apply decide_eq_true
      rw [isFiber]
      exact same

/-- A round of the event loop: an argument is in its frame, and is removed. -/
theorem InFrames.round
    {registration : Registration ι} {events : IoEvents}
    (inFrames : InFrames epoll)
    (control : epoll.scheduler.control = .eventloop)
    (isRegistered : registration ∈ epoll.registered) :
    ∃ next,
      epoll.round (registration, events) = .ok (true, next) ∧
        InFrames next ∧
        next.scheduler =
          epollTake epoll.scheduler (registration.data, events) ∧
        next.results = epoll.results ∧
        ∀ other ∈ epoll.registered,
          other ≠ registration → other ∈ next.registered := by
  have waits := inFrames.waits isRegistered
  obtain ⟨arg, isArg, isFd⟩ := inFrames.inside _ waits
  have isOwn : arg.yieldback = registration.data := inFrames.own _ _ isArg
  change epoll.args registration.data = some arg at isArg
  change arg.fd = registration.fd at isFd
  have rounds :
      epoll.round (registration, events) =
        .ok
          (true,
            { epoll with
              scheduler :=
                epollTake epoll.scheduler (registration.data, events)
              args :=
                Function.update epoll.args registration.data
                  (some { arg with events := events })
              registered :=
                epoll.registered.filter fun other =>
                  other.fd ≠ registration.fd }) := by
    have found :
        (epoll.registered.any fun other => other.fd = arg.fd) = true := by
      rw [List.any_eq_true]
      exact ⟨registration, isRegistered, decide_eq_true isFd.symm⟩
    rw [Epoll.round]
    dsimp only
    rw [isArg, deref_some, ok_bind, Epoll.ctlDel]
    dsimp only
    rw [found, isFd, isOwn]
    rfl
  refine ⟨_, rounds, inFrames.taken control isRegistered isOwn, rfl, rfl, ?_⟩
  intro other member different
  apply List.mem_filter.mpr
  refine ⟨member, decide_eq_true ?_⟩
  intro same
  exact different
    (List.inj_on_of_nodup_map inFrames.once member isRegistered same)

/-- What is reported, as the fibers see it. -/
def seen (reported : List (Registration ι × IoEvents)) :
    List (ι × IoEvents) :=
  reported.map fun (registration, events) => (registration.data, events)

/-- What `epoll_wait` returns, as the fibers see it. -/
def EpollWait.seen : EpollWait ι → EpollOutcome ι
  | .interrupted => .interrupted
  | .none => .none
  | .ready reported => .ready (EventLoop.seen reported)

/-- The loop over what is reported never breaks. -/
theorem InFrames.rounds
    (reported : List (Registration ι × IoEvents)) :
    ∀ {epoll : Epoll ι μ κ},
      InFrames epoll →
        epoll.scheduler.control = .eventloop →
        (reported.map Prod.fst).Nodup →
        (∀ registration ∈ reported.map Prod.fst,
          registration ∈ epoll.registered) →
        ∃ next,
          Epoll.rounds reported epoll = .ok next ∧ InFrames next ∧
            next.scheduler =
              (seen reported).foldl epollTake epoll.scheduler ∧
            next.results = epoll.results := by
  induction reported with
  | nil =>
      intro epoll inFrames _ _ _
      exact ⟨epoll, rfl, inFrames, rfl, rfl⟩
  | cons first reported inductionHypothesis =>
      intro epoll inFrames control different areRegistered
      obtain ⟨registration, events⟩ := first
      rw [List.map_cons, List.nodup_cons] at different
      obtain ⟨next, goes, inFramesNext, isScheduler, sameResults, stay⟩ :=
        @InFrames.round ι μ κ _ _ _ epoll registration events inFrames control
          (areRegistered registration (List.mem_cons_self ..))
      obtain ⟨last, goOn, inFramesLast, isLast, sameLater⟩ :=
        inductionHypothesis inFramesNext (by rw [isScheduler]; exact control)
          different.2
          (fun other member =>
            stay other
              (areRegistered other (List.mem_cons_of_mem _ member))
              (fun same => different.1 (same ▸ member)))
      refine ⟨last, ?_, inFramesLast, ?_, sameLater.trans sameResults⟩
      · rw [Epoll.rounds, goes, ok_bind]
        exact goOn
      · rw [isLast, isScheduler]
        rfl

/-- The event loop suspends itself. -/
theorem InFrames.suspended
    (inFrames : InFrames epoll)
    (control : epoll.scheduler.control = .eventloop) :
    InFrames
      { epoll with
        scheduler := suspendEventloop epoll.scheduler .head } := by
  obtain ⟨location, consistent⟩ := inFrames.consistent
  exact
    { inFrames with
      consistent := ⟨location, consistent.setEventloop control (Or.inl rfl)⟩ }

/-- The event loop does what it would with a wait set of its own. -/
theorem InFrames.main
    {outcome : EpollWait ι}
    (inFrames : InFrames epoll)
    (control : epoll.scheduler.control = .eventloop)
    (delivers : outcome.Delivers epoll) :
    ∃ next,
      epoll.main outcome = .ok next ∧ InFrames next ∧
        outcome.seen.Reported epoll.scheduler ∧
        next.scheduler = epollMain epoll.scheduler outcome.seen := by
  cases outcome with
  | interrupted =>
      exact ⟨epoll, rfl, inFrames, trivial, rfl⟩
  | none =>
      exact ⟨_, rfl, inFrames.suspended control, trivial, rfl⟩
  | ready reported =>
      obtain ⟨count, different, areRegistered⟩ := delivers
      obtain ⟨next, goes, inFramesNext, isScheduler, -⟩ :=
        InFrames.rounds reported inFrames control different areRegistered
      have takes (taken : List (ι × IoEvents)) :
          ∀ state : Scheduler.State ι μ κ,
            (taken.foldl epollTake state).control = state.control := by
        induction taken with
        | nil =>
            intro state
            rfl
        | cons first taken inductionHypothesis =>
            intro state
            exact inductionHypothesis _
      have controlNext : next.scheduler.control = .eventloop := by
        rw [isScheduler, takes, control]
      have fibers :
          (EventLoop.seen reported).map Prod.fst =
            (reported.map Prod.fst).map Registration.data := by
        rw [EventLoop.seen, List.map_map, List.map_map]
        rfl
      refine ⟨_, by rw [Epoll.main, goes]; rfl,
        inFramesNext.suspended controlNext, ⟨?_, ?_, ?_⟩, ?_⟩
      · rw [EventLoop.seen, List.length_map]
        exact count
      · rw [fibers]
        apply List.Nodup.map_on _ different
        intro left isLeft right isRight same
        have waitsLeft := inFrames.waits (areRegistered left isLeft)
        have waitsRight := inFrames.waits (areRegistered right isRight)
        apply List.inj_on_of_nodup_map inFrames.once
          (areRegistered left isLeft) (areRegistered right isRight)
        exact congrArg FdElement.fd
          (List.inj_on_of_nodup_map inFrames.nodup waitsLeft waitsRight same)
      · rw [fibers]
        intro fiber member
        obtain ⟨registration, isReported, isFiber⟩ := List.mem_map.mp member
        rw [← isFiber]
        exact List.mem_map_of_mem
          (inFrames.waits (areRegistered registration isReported))
      · rw [isScheduler]
        rfl

/-- A descriptor is closed, and whoever waited for it is left behind. -/
theorem InFrames.close
    (inFrames : InFrames epoll) (fd : Int) :
    InFrames (epoll.close fd) := by
  refine ⟨inFrames.consistent, ?_, ?_,
    inFrames.once.sublist (List.filter_sublist.map _), inFrames.own,
    inFrames.inside, inFrames.returning⟩
  · refine List.Perm.trans ?_ inFrames.waiting
    have parts :=
      List.filter_append_perm
        (fun registration : Registration ι =>
          decide (registration.fd ≠ fd))
        epoll.registered
    have rest :
        (epoll.registered.filter fun registration =>
            !decide (registration.fd ≠ fd)) =
          epoll.registered.filter fun registration =>
            decide (registration.fd = fd) := by
      apply List.filter_congr
      intro registration _
      simp
    rw [rest] at parts
    have mapped := parts.map Registration.element
    rw [List.map_append] at mapped
    rw [Epoll.close]
    dsimp only
    refine List.Perm.trans ?_ (mapped.append_right epoll.stranded)
    rw [List.append_assoc]
    exact List.Perm.append_left _ List.perm_append_comm
  · intro registration member
    obtain ⟨isRegistered, different⟩ := List.mem_filter.mp member
    rw [Epoll.close]
    dsimp only
    rw [Function.update_of_ne (of_decide_eq_true different)]
    exact inFrames.areOpen registration isRegistered

/-- A descriptor is obtained. -/
theorem InFrames.opens
    (inFrames : InFrames epoll) (fd : Int) :
    InFrames
      { epoll with isOpen := Function.update epoll.isOpen fd true } := by
  refine { inFrames with areOpen := ?_ }
  intro registration member
  dsimp only
  by_cases same : registration.fd = fd
  · rw [same, Function.update_self]
  · rw [Function.update_of_ne same]
    exact inFrames.areOpen registration member

/-- What is claimed of a step. -/
structure FollowsWaitSet (epoll : Epoll ι μ κ) (action : EpollAction ι μ κ)
    (next : Epoll ι μ κ) : Prop where
  /-- Whoever waits is registered, or its descriptor has been closed. -/
  waiting :
    (next.registered.map Registration.element ++ next.stranded).Perm
      next.scheduler.fds
  /-- The kernel points to arguments in frames that have not been left. -/
  inFrames :
    ∀ registration ∈ next.registered,
      ∃ arg,
        next.args registration.data = some arg ∧
          arg.yieldback = registration.data ∧ arg.fd = registration.fd
  /-- The event loop does what it would with a wait set of its own. -/
  refines :
    ∀ outcome,
      action = .wait outcome →
        outcome.seen.Reported epoll.scheduler ∧
          next.scheduler = epollMain epoll.scheduler outcome.seen
  /-- A fiber that was suspended gets what has been reported to it. -/
  returned :
    ∀ this events,
      action = .ioReturn →
        epoll.scheduler.control = .fiber this →
          epoll.scheduler.resumption this = .io events →
            next.results = epoll.results ++ [(this, events)]

/-- What the kernel points to. -/
theorem InFrames.pointed
    {registration : Registration ι}
    (inFrames : InFrames epoll)
    (isRegistered : registration ∈ epoll.registered) :
    ∃ arg,
      epoll.args registration.data = some arg ∧
        arg.yieldback = registration.data ∧ arg.fd = registration.fd := by
  obtain ⟨arg, isArg, isFd⟩ :=
    inFrames.inside _ (inFrames.waits isRegistered)
  exact ⟨arg, isArg, inFrames.own _ _ isArg, isFd⟩

/-- Whatever may happen next does happen. -/
theorem InFrames.step
    {action : EpollAction ι μ κ}
    (inFrames : InFrames epoll) (allowed : action.Allowed epoll) :
    ∃ next,
      action.perform epoll = .ok next ∧ InFrames next ∧
        FollowsWaitSet epoll action next := by
  have follows
      {next : Epoll ι μ κ} (inFramesNext : InFrames next)
      (noWait : ∀ outcome, action ≠ .wait outcome)
      (noReturn : action ≠ .ioReturn) :
      FollowsWaitSet epoll action next :=
    { waiting := inFramesNext.waiting
      inFrames := fun _ isRegistered => inFramesNext.pointed isRegistered
      refines := fun outcome isWait => absurd isWait (noWait outcome)
      returned := fun _ _ isReturn => absurd isReturn noReturn }
  cases action with
  | goOn act =>
      obtain ⟨scheduler, steps, inFramesNext⟩ :=
        inFrames.goOn allowed.1 allowed.2
      refine ⟨_, ?_, inFramesNext, follows inFramesNext nofun nofun⟩
      rw [EpollAction.perform, steps]
      rfl
  | io socket events adds =>
      obtain ⟨isClient, mayAdd⟩ := allowed
      rw [isInClient, Option.any_eq_true] at isClient
      obtain ⟨this, isRunning, isAt⟩ := isClient
      have inFramesNext : InFrames (epoll.io this socket events adds) := by
        cases adds with
        | true =>
            exact inFrames.io (control_of_runs isRunning)
              (of_decide_eq_true isAt) (mayAdd rfl).1 (mayAdd rfl).2
        | false =>
            exact { inFrames with }
      refine ⟨_, ?_, inFramesNext, follows inFramesNext nofun nofun⟩
      rw [EpollAction.perform, isRunning]
      rfl
  | ioReturn =>
      change (runs epoll.scheduler).any _ = true at allowed
      rw [Option.any_eq_true] at allowed
      obtain ⟨this, isRunning, isAt⟩ := allowed
      have control := control_of_runs isRunning
      cases goesOn : epoll.scheduler.resumption this with
      | io events =>
          obtain ⟨next, returns, inFramesNext, results⟩ :=
            inFrames.ioReturn control goesOn
          refine ⟨next, ?_, inFramesNext, inFramesNext.waiting,
            fun _ isRegistered => inFramesNext.pointed isRegistered, nofun,
            ?_⟩
          · rw [EpollAction.perform, isRunning]
            exact returns
          · intro other others _ isControl isOther
            cases control.symm.trans isControl
            cases goesOn.symm.trans isOther
            exact results
      | client | lock _ | wait _ _ | relock _ _ =>
          rw [goesOn] at isAt
          cases isAt
  | wait outcome =>
      obtain ⟨next, goes, inFramesNext, reported, isScheduler⟩ :=
        inFrames.main allowed.1 allowed.2
      refine ⟨next, goes, inFramesNext, inFramesNext.waiting,
        fun _ isRegistered => inFramesNext.pointed isRegistered, ?_, nofun⟩
      intro other isWait
      cases isWait
      exact ⟨reported, isScheduler⟩
  | opens fd =>
      have inFramesNext := inFrames.opens fd
      exact ⟨_, rfl, inFramesNext, follows inFramesNext nofun nofun⟩
  | closes fd =>
      have inFramesNext := inFrames.close fd
      exact ⟨_, rfl, inFramesNext, follows inFramesNext nofun nofun⟩

theorem inFrames_startEpoll (main : ι) (isOpen : Int → Bool) :
    InFrames (startEpoll main isOpen : Epoll ι μ κ) where
  consistent := ⟨_, consistent_start main⟩
  waiting := List.Perm.refl _
  areOpen := nofun
  once := List.nodup_nil
  own := nofun
  inside := nofun
  returning := nofun

/--
In every run the event loop of `epoll.c` wakes fibers as if it had a wait set
of its own, and never follows a pointer into a frame that has been left.
-/
theorem epoll_follows_wait_set
    {main : ι} {isOpen : Int → Bool} {actions : List (EpollAction ι μ κ)}
    {action : EpollAction ι μ κ}
    (run : Run EpollSteps (startEpoll main isOpen) actions epoll)
    (allowed : action.Allowed epoll) :
    ∃ next,
      action.perform epoll = .ok next ∧
        FollowsWaitSet epoll action next := by
  have inFrames : InFrames epoll := by
    apply run.invariant (inFrames_startEpoll main isOpen)
    intro before label after _ inFrames ⟨allowed, performs⟩
    obtain ⟨next, performed, inFramesNext, -⟩ := inFrames.step allowed
    cases performed.symm.trans performs
    exact inFramesNext
  obtain ⟨next, performs, -, follows⟩ := inFrames.step allowed
  exact ⟨next, performs, follows⟩

end InFrames

/-- What is attempted with success is a step. -/
theorem epollSteps_of_attempt
    {epoll next : Epoll ι μ κ} {action : EpollAction ι μ κ}
    (attempted : action.attempt epoll = some next) :
    EpollSteps epoll action next :=
  of_attempt attempted

/-- The main fiber waits for a descriptor, and it becomes readable. -/
def becomesReadable : List (EpollAction Nat Unit Unit) :=
  [.goOn .schedule, .goOn .schedule, .opens 4,
    .io 4 { isIn := true, isOut := false, isErr := false } true,
    .goOn .schedule]

/-- What is registered then. -/
def onFour : Registration Nat where
  fd := 4
  events := { isIn := true, isOut := false, isErr := false }
  data := 1

/-- `epoll_wait` reports it. -/
theorem epoll_follows_wait_set_readable :
    ∃ epoll next : Epoll Nat Unit Unit,
      Run EpollSteps (startEpoll 1 fun _ => false) becomesReadable epoll ∧
        EpollAction.perform epoll
            (.wait (.ready [(onFour, onFour.events)])) =
          .ok next ∧
        FollowsWaitSet epoll (.wait (.ready [(onFour, onFour.events)]))
          next := by
  have executed :
      ((execute (fun epoll action => EpollAction.attempt epoll action)
          (startEpoll 1 fun _ => false) becomesReadable).any fun epoll =>
        EpollAction.Allowed epoll
          (.wait (.ready [(onFour, onFour.events)]))) =
        true := by
    rfl
  obtain ⟨epoll, isEpoll, isAllowed⟩ := (Option.any_eq_true _ _).mp executed
  have run :=
    run_of_execute (fun _ _ _ => epollSteps_of_attempt) isEpoll
  obtain ⟨next, performs, follows⟩ :=
    epoll_follows_wait_set run (of_decide_eq_true isAllowed)
  exact ⟨epoll, next, run, performs, follows⟩

end Dfk.EventLoop
