import Dfk.Library.Runs
import Dfk.Scheduler.Loops

/-!
# Every fiber is in one place

`Consistent` says where each fiber is, that it is there once and nowhere else,
and what that means for where it goes on.  Every step moves fibers from one
place to another, and most steps move only one.
-/

namespace Dfk.Scheduler

variable {ι μ κ : Type}

/-- Places a fiber can be in. -/
inductive Place (μ κ : Type) where
  | running
  /-- in the pending list or in the local list of the scheduler -/
  | ready
  | mutex (mutex : μ)
  | cond (cond : κ)
  | io
  | terminated
  deriving Repr, DecidableEq

/-- How often a fiber is in a place. -/
def State.count [DecidableEq ι] (state : State ι μ κ) (fiber : ι) :
    Place μ κ → Nat
  | .running => if state.control = .fiber fiber then 1 else 0
  | .ready => (state.batch ++ state.pending).count fiber
  | .mutex mutex => (state.mutexes mutex).waitqueue.count fiber
  | .cond cond => (state.conds cond).count fiber
  | .io => (state.fds.map FdElement.yieldback).count fiber
  | .terminated => state.terminated.count fiber

/-- Where a fiber may go on, being in a place. -/
def Fits (owner : μ → Option ι) (fiber : ι) :
    Option (Place μ κ) → Resumption μ κ → Prop
  | some (.mutex mutex), resumption =>
      (resumption = .lock mutex ∨
          ∃ cond, resumption = .relock cond mutex) ∧
        owner mutex ≠ some fiber
  | some (.cond cond), resumption =>
      ∃ mutex, resumption = .wait cond mutex ∧ owner mutex ≠ some fiber
  | some .io, resumption => ∃ events, resumption = .io events
  | some .running, resumption | some .ready, resumption =>
      match resumption with
      | .lock mutex | .relock _ mutex => owner mutex = some fiber
      | .wait _ mutex => owner mutex ≠ some fiber
      | .client | .io _ => True
  | some .terminated, resumption | none, resumption => resumption = .client

/-- The owner of each mutex. -/
def State.owner (state : State ι μ κ) (mutex : μ) : Option ι :=
  (state.mutexes mutex).owner

/-- Every live fiber is where `location` says, and all is as it is then. -/
structure Consistent [DecidableEq ι] [DecidableEq μ] [DecidableEq κ]
    (state : State ι μ κ) (location : ι → Option (Place μ κ)) : Prop where
  live : ∀ fiber, (location fiber).isSome = state.live fiber
  count :
    ∀ fiber place,
      state.count fiber place = if location fiber = some place then 1 else 0
  fits :
    ∀ fiber,
      Fits state.owner fiber (location fiber) (state.resumption fiber)
  free : ∀ mutex, state.owner mutex = none →
    (state.mutexes mutex).waitqueue = []
  iowait : state.iowait = state.fds.length
  batch :
    state.control = .spinning ∨ state.control = .eventloop ∨
        state.control = .finished →
      state.batch = []
  finished :
    state.control = .finished →
      state.terminated = [] ∧ state.pending = [] ∧ state.iowait = 0

/-- Occurrences in a list of one fiber. -/
theorem count_one [DecidableEq ι] (fiber query : ι) :
    [fiber].count query = if query = fiber then 1 else 0 := by
  rw [List.count_singleton]
  by_cases same : query = fiber
  · subst same
    simp
  · rw [if_neg same, if_neg]
    simpa using Ne.symm same

/-- A fiber fits as long as it does not gain or lose a mutex. -/
theorem Fits.of_owner
    {owner owner' : μ → Option ι} {fiber : ι} {place : Option (Place μ κ)}
    {resumption : Resumption μ κ}
    (fits : Fits owner fiber place resumption)
    (same : ∀ mutex, owner' mutex = some fiber ↔ owner mutex = some fiber) :
    Fits owner' fiber place resumption := by
  rcases place with _ | (_ | _ | mutex | cond | _ | _)
  · exact fits
  · cases resumption <;> simp only [Fits, ne_eq, same] at fits ⊢ <;> exact fits
  · cases resumption <;> simp only [Fits, ne_eq, same] at fits ⊢ <;> exact fits
  · simp only [Fits, ne_eq, same] at fits ⊢
    exact fits
  · simp only [Fits, ne_eq, same] at fits ⊢
    exact fits
  · exact fits
  · exact fits

variable [DecidableEq ι] [DecidableEq μ] [DecidableEq κ]
variable {state next : State ι μ κ} {location : ι → Option (Place μ κ)}
variable {this : ι} {mutex : μ} {cond : κ}

omit [DecidableEq μ] [DecidableEq κ] in
/-- While no fiber runs, none is counted as running. -/
theorem State.count_running
    (noFiber : ∀ fiber, state.control ≠ .fiber fiber)
    (fiber : ι) :
    state.count fiber .running = 0 := by
  rw [State.count]
  exact if_neg (noFiber fiber)

namespace Consistent

variable {fiber : ι}

/-- A fiber that is somewhere is nowhere else. -/
theorem count_at
    {place : Place μ κ}
    (consistent : Consistent state location)
    (isAt : location fiber = some place)
    (other : Place μ κ) :
    state.count fiber other = if place = other then 1 else 0 := by
  rw [consistent.count, isAt]
  simp only [Option.some.injEq]

/-- The running fiber. -/
theorem running
    (consistent : Consistent state location)
    (control : state.control = .fiber this) :
    location this = some .running := by
  have counted := consistent.count this .running
  rw [State.count, if_pos control] at counted
  by_contra elsewhere
  rw [if_neg elsewhere] at counted
  cases counted

/-- A fiber that is counted in a place is there. -/
theorem location_of_count
    {place : Place μ κ}
    (consistent : Consistent state location)
    (counted : 0 < state.count fiber place) :
    location fiber = some place := by
  by_contra elsewhere
  rw [consistent.count, if_neg elsewhere] at counted
  exact Nat.lt_irrefl 0 counted

/-- One fiber is moved, and goes on elsewhere. -/
theorem move
    {place : Place μ κ}
    (consistent : Consistent state location)
    (isLive : next.live fiber = true)
    (live : ∀ query, query ≠ fiber → next.live query = state.live query)
    (count :
      ∀ query place',
        next.count query place' =
          if query = fiber then if place = place' then 1 else 0
          else state.count query place')
    (fits : Fits next.owner fiber (some place) (next.resumption fiber))
    (others :
      ∀ query,
        query ≠ fiber →
          Fits next.owner query (location query) (next.resumption query))
    (free : ∀ mutex, next.owner mutex = none →
      (next.mutexes mutex).waitqueue = [])
    (iowait : next.iowait = next.fds.length)
    (batch :
      next.control = .spinning ∨ next.control = .eventloop ∨
          next.control = .finished →
        next.batch = [])
    (finished :
      next.control = .finished →
        next.terminated = [] ∧ next.pending = [] ∧ next.iowait = 0) :
    Consistent next (Function.update location fiber (some place)) := by
  refine ⟨fun query => ?_, fun query place' => ?_, fun query => ?_, free,
    iowait, batch, finished⟩
  · by_cases same : query = fiber
    · subst same
      rw [Function.update_self, isLive]
      rfl
    · rw [Function.update_of_ne same, consistent.live, live query same]
  · rw [count]
    by_cases same : query = fiber
    · subst same
      rw [if_pos rfl, Function.update_self]
      simp only [Option.some.injEq]
    · rw [if_neg same, Function.update_of_ne same, consistent.count]
  · by_cases same : query = fiber
    · subst same
      rw [Function.update_self]
      exact fits
    · rw [Function.update_of_ne same]
      exact others query same

/-- Everyone else fits if no mutex but those of the fiber change hands. -/
theorem others
    (consistent : Consistent state location)
    {query : ι}
    (owner :
      ∀ mutex, next.owner mutex = some query ↔ state.owner mutex = some query)
    (resumption : next.resumption query = state.resumption query) :
    Fits next.owner query (location query) (next.resumption query) := by
  rw [resumption]
  exact (consistent.fits query).of_owner owner

/-- The running fiber goes to another place, and the scheduler goes on. -/
theorem leave
    {gained : State ι μ κ} {place : Place μ κ} {resumption : Resumption μ κ}
    (consistent : Consistent state location)
    (control : state.control = .fiber this)
    (elsewhere : place ≠ .running)
    (live : gained.live = state.live)
    (owner : gained.owner = state.owner)
    (resumptions : gained.resumption = state.resumption)
    (gain :
      ∀ query place',
        place' ≠ .running →
          gained.count query place' =
            state.count query place' +
              if query = this ∧ place' = place then 1 else 0)
    (fits : Fits state.owner this (some place) resumption)
    (free : ∀ mutex, state.owner mutex = none →
      (gained.mutexes mutex).waitqueue = [])
    (iowait : gained.iowait = gained.fds.length) :
    Consistent (yieldBack gained this resumption)
      (Function.update location this (some place)) := by
  have owners : (yieldBack gained this resumption).owner = state.owner := owner
  refine consistent.move ?_ (fun query _ => ?_) (fun query place' => ?_) ?_
    (fun query differs => ?_) (fun mutex => ?_) iowait ?_ ?_
  · change gained.live this = true
    rw [live, ← consistent.live, consistent.running control]
    rfl
  · change gained.live query = state.live query
    rw [live]
  · by_cases isRunning : place' = .running
    · subst isRunning
      have notRunning : (yieldBack gained this resumption).count query
          .running = 0 := by
        rw [State.count, if_neg]
        intro isThis
        cases isThis
      rw [notRunning]
      by_cases same : query = this
      · rw [if_pos same, if_neg elsewhere]
      · rw [if_neg same, State.count, if_neg]
        rw [control]
        exact fun running => same (Control.fiber.inj running).symm
    · have counted :
          (yieldBack gained this resumption).count query place' =
            gained.count query place' := by
        cases place' with
        | running => exact absurd rfl isRunning
        | _ => rfl
      rw [counted, gain query place' isRunning]
      by_cases same : query = this
      · subst same
        rw [consistent.count_at (consistent.running control),
          if_neg (Ne.symm isRunning), if_pos rfl, Nat.zero_add]
        simp only [true_and, eq_comm]
      · rw [if_neg same, if_neg fun both => same both.1, Nat.add_zero]
  · rw [owners]
    have goesOn :
        (yieldBack gained this resumption).resumption this = resumption :=
      if_pos rfl
    rw [goesOn]
    exact fits
  · apply consistent.others
    · intro mutex
      rw [owners]
    · rw [← resumptions]
      exact if_neg differs
  · rw [owners]
    exact free mutex
  · rintro (other | other | other) <;> cases other
  · intro other
    cases other

/-- `dfk__postpone` -/
theorem postpone
    (consistent : Consistent state location)
    (control : state.control = .fiber this) :
    Consistent (postpone state this)
      (Function.update location this (some .ready)) := by
  refine consistent.leave control (by simp) rfl rfl rfl
    (fun query place elsewhere => ?_) trivial consistent.free consistent.iowait
  cases place with
  | running => exact absurd rfl elsewhere
  | _ =>
      simp [State.count, State.emit, Nat.add_assoc, count_one]

/-- `dfk__terminate` -/
theorem terminate
    (consistent : Consistent state location)
    (control : state.control = .fiber this) :
    Consistent (terminate state this)
      (Function.update location this (some .terminated)) := by
  refine consistent.leave control (by simp) rfl rfl rfl
    (fun query place elsewhere => ?_) rfl consistent.free consistent.iowait
  cases place with
  | running => exact absurd rfl elsewhere
  | _ => simp [State.count, count_one]

/-- `dfk__io` -/
theorem io
    {socket : Int} {events : IoEvents}
    (consistent : Consistent state location)
    (control : state.control = .fiber this) :
    Consistent (io state this socket events)
      (Function.update location this (some .io)) := by
  refine consistent.leave control (by simp) rfl rfl rfl
    (fun query place elsewhere => ?_) ⟨events, rfl⟩ consistent.free ?_
  · cases place with
    | running => exact absurd rfl elsewhere
    | _ => simp [State.count, count_one]
  · simp [consistent.iowait]

/-- The part of `dfk_mutex_lock` for a mutex with another owner. -/
theorem enqueue
    {blocked : Resumption μ κ} {owner : ι}
    (consistent : Consistent state location)
    (control : state.control = .fiber this)
    (isOwner : (state.mutexes mutex).owner = some owner)
    (another : owner ≠ this)
    (isBlocked : blocked = .lock mutex ∨ ∃ cond, blocked = .relock cond mutex) :
    Consistent
      (suspend
        ((state.setMutex mutex
            { owner := some owner
              waitqueue := (state.mutexes mutex).waitqueue ++ [this] }).emit
          [.queued mutex this])
        this blocked)
      (Function.update location this (some (.mutex mutex))) := by
  refine consistent.leave control (by simp) rfl ?_ rfl
    (fun query place elsewhere => ?_) ⟨isBlocked, ?_⟩ (fun query free => ?_)
    consistent.iowait
  · funext query
    by_cases same : query = mutex
    · subst same
      simp [State.owner, State.emit, State.setMutex, isOwner]
    · simp [State.owner, State.emit, State.setMutex, same]
  · cases place with
    | running => exact absurd rfl elsewhere
    | mutex other =>
        by_cases isMutex : other = mutex
        · subst isMutex
          simp [State.count, State.emit, State.setMutex, count_one]
        · simp [State.count, State.emit, State.setMutex, isMutex]
    | _ => simp [State.count, State.emit, State.setMutex]
  · rw [State.owner, isOwner]
    exact fun same => another (Option.some.inj same)
  · by_cases same : query = mutex
    · subst same
      rw [State.owner, isOwner] at free
      cases free
    · have before := consistent.free query free
      simp [State.emit, State.setMutex, same, before]

/-- The running fiber goes on in client code; it may gain or lose mutexes. -/
theorem goOn
    (consistent : Consistent state location)
    (control : state.control = .fiber this)
    (sameControl : next.control = state.control)
    (live : next.live = state.live)
    (count :
      ∀ query place, next.count query place = state.count query place)
    (client : next.resumption this = .client)
    (resumptions :
      ∀ query, query ≠ this → next.resumption query = state.resumption query)
    (owner :
      ∀ query,
        query ≠ this →
          ∀ mutex,
            next.owner mutex = some query ↔ state.owner mutex = some query)
    (free : ∀ mutex, next.owner mutex = none →
      (next.mutexes mutex).waitqueue = [])
    (iowait : next.iowait = next.fds.length) :
    Consistent next location := by
  refine ⟨fun query => ?_, fun query place => ?_, fun query => ?_, free,
    iowait, ?_, ?_⟩
  · rw [live]
    exact consistent.live query
  · rw [count]
    exact consistent.count query place
  · by_cases same : query = this
    · subst same
      rw [consistent.running control, client]
      trivial
    · exact consistent.others (owner query same) (resumptions query same)
  · rw [sameControl, control]
    rintro (other | other | other) <;> cases other
  · rw [sameControl, control]
    intro other
    cases other

/-- The running fiber returns from where it was suspended. -/
theorem setResumption_client
    (consistent : Consistent state location)
    (control : state.control = .fiber this) :
    Consistent (state.setResumption this .client) location := by
  refine consistent.goOn control rfl rfl (fun query place => ?_)
    (if_pos rfl) (fun query differs => if_neg differs)
    (fun query _ mutex => Iff.rfl) consistent.free consistent.iowait
  cases place <;> rfl

/-- A trace is of no consequence. -/
theorem retrace
    {trace : List (Event ι μ κ)}
    (consistent : Consistent state location) :
    Consistent { state with trace := trace } location where
  live := consistent.live
  count := fun fiber place => by
    rw [← consistent.count]
    cases place <;> rfl
  fits := consistent.fits
  free := consistent.free
  iowait := consistent.iowait
  batch := consistent.batch
  finished := consistent.finished

/-- A mutex without owner is taken by the running fiber. -/
theorem acquire
    (consistent : Consistent state location)
    (control : state.control = .fiber this)
    (isFree : (state.mutexes mutex).owner = none) :
    Consistent
      ((state.setMutex mutex
          { state.mutexes mutex with owner := some this }).setResumption this
        .client)
      location := by
  have waitqueue := consistent.free mutex isFree
  refine consistent.goOn control rfl rfl (fun query place => ?_)
    (if_pos rfl) (fun query differs => if_neg differs)
    (fun query differs other => ?_) (fun other free => ?_) consistent.iowait
  · cases place with
    | mutex other =>
        by_cases same : other = mutex
        · subst same
          simp [State.count, State.setResumption, State.setMutex]
        · simp [State.count, State.setResumption, State.setMutex, same]
    | _ => rfl
  · by_cases same : other = mutex
    · subst same
      simp [State.owner, State.setResumption, State.setMutex, isFree,
        Ne.symm differs]
    · simp [State.owner, State.setResumption, State.setMutex, same]
  · by_cases same : other = mutex
    · subst same
      simp [State.setResumption, State.setMutex, waitqueue]
    · have before := consistent.free other
      simp_all [State.owner, State.setResumption, State.setMutex]

/-- The owner leaves a mutex that nobody waits for. -/
theorem setFree
    (consistent : Consistent state location)
    (control : state.control = .fiber this)
    (client : state.resumption this = .client)
    (isOwner : (state.mutexes mutex).owner = some this)
    (nobody : (state.mutexes mutex).waitqueue = []) :
    Consistent (state.setMutex mutex { owner := none, waitqueue := [] })
      location := by
  refine consistent.goOn control rfl rfl (fun query place => ?_) client
    (fun _ _ => rfl) (fun query differs other => ?_) (fun other free => ?_)
    consistent.iowait
  · cases place with
    | mutex other =>
        by_cases same : other = mutex
        · subst same
          simp [State.count, State.setMutex, nobody]
        · simp [State.count, State.setMutex, same]
    | _ => rfl
  · by_cases same : other = mutex
    · subst same
      simp [State.owner, State.setMutex, isOwner, Ne.symm differs]
    · simp [State.owner, State.setMutex, same]
  · by_cases same : other = mutex
    · subst same
      simp [State.setMutex]
    · have before := consistent.free other
      simp_all [State.owner, State.setMutex]

/-- A fiber is taken from where it waits and becomes ready. -/
theorem wake
    {lost : State ι μ κ} {place : Place μ κ}
    (consistent : Consistent state location)
    (isAt : location fiber = some place)
    (waits : place ≠ .ready)
    (control : lost.control = state.control)
    (active : state.control ≠ .finished)
    (live : lost.live = state.live)
    (batch : lost.batch = state.batch)
    (loss :
      ∀ query place',
        state.count query place' =
          lost.count query place' +
            if query = fiber ∧ place' = place then 1 else 0)
    (fits : Fits lost.owner fiber (some .ready) (lost.resumption fiber))
    (others :
      ∀ query,
        query ≠ fiber →
          Fits lost.owner query (location query) (lost.resumption query))
    (free : ∀ mutex, lost.owner mutex = none →
      (lost.mutexes mutex).waitqueue = [])
    (iowait : lost.iowait = lost.fds.length) :
    Consistent (resume lost fiber)
      (Function.update location fiber (some .ready)) := by
  have gain (query : ι) (place' : Place μ κ) :
      (resume lost fiber).count query place' =
        lost.count query place' +
          if query = fiber ∧ place' = .ready then 1 else 0 := by
    cases place' with
    | ready =>
        simp [State.count, resume, State.emit, Nat.add_assoc, count_one]
    | _ =>
        rw [if_neg fun both => by cases both.2]
        rfl
  refine consistent.move ?_ (fun query _ => ?_) (fun query place' => ?_) fits
    others free iowait ?_ ?_
  · change lost.live fiber = true
    rw [live, ← consistent.live, isAt]
    rfl
  · change lost.live query = state.live query
    rw [live]
  · have lossHere := loss query place'
    rw [gain]
    by_cases same : query = fiber
    · subst same
      rw [consistent.count_at isAt] at lossHere
      rw [if_pos rfl]
      by_cases isPlace : place' = place
      · subst isPlace
        have once : 1 = lost.count query place' + 1 := by
          simpa using lossHere
        rw [← Nat.succ.inj once, if_neg fun both => waits both.2,
          if_neg (Ne.symm waits)]
      · have never : 0 = lost.count query place' := by
          simpa [isPlace, Ne.symm isPlace] using lossHere
        rw [← never, Nat.zero_add]
        simp only [true_and, eq_comm]
    · rw [if_neg fun both => same both.1] at lossHere ⊢
      rw [if_neg same, lossHere]
  · change lost.control = .spinning ∨ _ ∨ _ → lost.batch = []
    change _ ∨ lost.control = .eventloop ∨ lost.control = .finished → _
    rw [control, batch]
    exact consistent.batch
  · change lost.control = .finished → _
    rw [control]
    exact fun finished => absurd finished active

/-- The owner of a mutex hands it to the first of those that wait for it. -/
theorem handOff
    {heir : ι} {waitqueue : List ι}
    (consistent : Consistent state location)
    (control : state.control = .fiber this)
    (client : state.resumption this = .client)
    (isOwner : (state.mutexes mutex).owner = some this)
    (waiting : (state.mutexes mutex).waitqueue = heir :: waitqueue) :
    heir ≠ this ∧
      Consistent
        (resume
          (state.setMutex mutex { owner := some heir, waitqueue := waitqueue })
          heir)
        (Function.update location heir (some .ready)) := by
  have isHeir : location heir = some (.mutex mutex) := by
    apply consistent.location_of_count
    rw [State.count, waiting]
    exact List.count_pos_iff.mpr (List.mem_cons_self ..)
  have isThis := consistent.running control
  have differs : heir ≠ this := by
    rintro rfl
    rw [isThis] at isHeir
    cases isHeir
  have owners (query : μ) :
      (state.setMutex mutex
          { owner := some heir, waitqueue := waitqueue }).owner query =
        if query = mutex then some heir else state.owner query := by
    by_cases same : query = mutex
    · subst same
      simp [State.owner, State.setMutex]
    · simp [State.owner, State.setMutex, same]
  refine ⟨differs, consistent.wake isHeir (by simp) rfl ?_ rfl rfl
    (fun query place => ?_) ?_ (fun query notHeir => ?_)
    (fun other free => ?_) consistent.iowait⟩
  · rw [control]
    simp
  · cases place with
    | mutex other =>
        by_cases same : other = mutex
        · subst same
          rw [State.count, waiting, ← List.singleton_append,
            List.count_append, count_one]
          simp [State.count, State.setMutex, Nat.add_comm]
        · simp [State.count, State.setMutex, same]
    | _ =>
        rw [if_neg fun both => by cases both.2]
        rfl
  · have fits := consistent.fits heir
    rw [isHeir] at fits
    change Fits _ heir _ (state.resumption heir)
    rcases fits.1 with isLock | ⟨cond, isRelock⟩
    · rw [isLock]
      exact (owners mutex).trans (if_pos rfl)
    · rw [isRelock]
      exact (owners mutex).trans (if_pos rfl)
  · by_cases same : query = this
    · subst same
      rw [isThis]
      change Fits _ query _ (state.resumption query)
      rw [client]
      trivial
    · refine consistent.others (fun other => ?_) rfl
      rw [owners]
      by_cases isMutex : other = mutex
      · subst isMutex
        rw [if_pos rfl, State.owner, isOwner]
        simp [Ne.symm same, Ne.symm notHeir]
      · rw [if_neg isMutex]
  · rw [owners] at free
    by_cases isMutex : other = mutex
    · rw [if_pos isMutex] at free
      cases free
    · rw [if_neg isMutex] at free
      have before := consistent.free other free
      simp [State.setMutex, isMutex, before]

/-- The release of a mutex by its owner. -/
theorem release
    (consistent : Consistent state location)
    (control : state.control = .fiber this)
    (client : state.resumption this = .client)
    (isOwner : (state.mutexes mutex).owner = some this) :
    ∃ location',
      Consistent (release state this mutex) location' ∧
        (release state this mutex).owner mutex ≠ some this ∧
        (release state this mutex).control = .fiber this := by
  rw [Scheduler.release]
  cases waiting : (state.mutexes mutex).waitqueue with
  | nil =>
      refine ⟨location,
        (consistent.setFree control client isOwner waiting).retrace, ?_,
        control⟩
      simp [State.owner, State.emit, State.setMutex]
  | cons heir waitqueue =>
      obtain ⟨differs, handed⟩ :=
        consistent.handOff control client isOwner waiting
      refine ⟨_, handed.retrace, ?_, control⟩
      simpa [State.owner, resume, State.emit, State.setMutex] using differs

/-- `dfk_mutex_lock`, and what comes after it. -/
theorem mutexLock
    {blocked : Resumption μ κ} {goes : State ι μ κ → State ι μ κ}
    (consistent : Consistent state location)
    (control : state.control = .fiber this)
    (isBlocked : blocked = .lock mutex ∨ ∃ cond, blocked = .relock cond mutex)
    (goesOn :
      ∀ after : State ι μ κ,
        after.resumption = state.resumption →
          Consistent (after.setResumption this .client) location →
            Consistent (goes after) location) :
    ∃ after location',
      mutexLock state this mutex blocked goes = .ok after ∧
        Consistent after location' := by
  rw [Scheduler.mutexLock]
  cases isOwner : (state.mutexes mutex).owner with
  | none =>
      dsimp only
      rw [locked, check_pos, ok_bind, pure_eq_ok]
      · refine ⟨_, location, rfl, goesOn _ rfl ?_⟩
        exact (consistent.acquire control isOwner).retrace
      · simp [State.emit, State.setMutex]
  | some owner =>
      dsimp only
      by_cases same : owner = this
      · subst same
        rw [if_pos rfl, locked, check_pos isOwner, ok_bind, pure_eq_ok]
        exact ⟨_, location, rfl,
          goesOn _ rfl (consistent.setResumption_client control)⟩
      · have queued := consistent.enqueue control isOwner same isBlocked
        rw [if_neg same, pure_eq_ok]
        exact ⟨_, _, rfl, queued⟩

/-- `dfk_cond_wait` -/
theorem condWait
    (consistent : Consistent state location)
    (control : state.control = .fiber this)
    (client : state.resumption this = .client)
    (isOwner : (state.mutexes mutex).owner = some this) :
    ∃ after location',
      condWait state this cond mutex = .ok after ∧
        Consistent after location' := by
  obtain ⟨location', released, notOwner, goesOn⟩ :=
    consistent.release control client isOwner
  have present : (state.mutexes mutex).owner ≠ none := by
    rw [isOwner]
    exact Option.some_ne_none this
  rw [Scheduler.condWait, check_pos present, ok_bind, check_pos isOwner,
    ok_bind, pure_eq_ok]
  refine ⟨_, Function.update location' this (some (.cond cond)), rfl, ?_⟩
  refine released.leave goesOn (by simp) rfl rfl rfl
    (fun query place elsewhere => ?_) ⟨mutex, rfl, notOwner⟩ released.free
    released.iowait
  cases place with
  | running => exact absurd rfl elsewhere
  | cond other =>
      by_cases same : other = cond
      · subst same
        simp [State.count, State.emit, State.setCond, count_one]
      · simp [State.count, State.emit, State.setCond, same]
  | _ => simp [State.count, State.emit, State.setCond]

/-- `dfk_cond_signal` -/
theorem condSignal
    (consistent : Consistent state location)
    (control : state.control = .fiber this) :
    ∃ location', Consistent (condSignal state cond) location' := by
  rw [Scheduler.condSignal]
  cases waiting : state.conds cond with
  | nil =>
      exact ⟨location, consistent⟩
  | cons first waitqueue =>
      have isAt : location first = some (.cond cond) := by
        apply consistent.location_of_count
        rw [State.count, waiting]
        exact List.count_pos_iff.mpr (List.mem_cons_self ..)
      have woken :
          Consistent (resume (state.setCond cond waitqueue) first)
            (Function.update location first (some .ready)) := by
        refine consistent.wake isAt (by simp) rfl ?_ rfl rfl
          (fun query place => ?_) ?_ (fun query _ => consistent.fits query)
          consistent.free consistent.iowait
        · rw [control]
          simp
        · cases place with
          | cond other =>
              by_cases same : other = cond
              · subst same
                rw [State.count, waiting, ← List.singleton_append,
                  List.count_append, count_one]
                simp [State.count, State.setCond, Nat.add_comm]
              · simp [State.count, State.setCond, same]
          | _ =>
              rw [if_neg fun both => by cases both.2]
              rfl
        · have fits := consistent.fits first
          rw [isAt] at fits
          obtain ⟨mutex, isWait, notOwner⟩ := fits
          change Fits _ first _ (state.resumption first)
          rw [isWait]
          exact notOwner
      exact ⟨_, woken.retrace⟩

/-- `dfk_spawn` -/
theorem spawn
    {fiber : ι}
    (consistent : Consistent state location)
    (control : state.control = .fiber this)
    (isNew : state.live fiber = false) :
    Consistent (spawn state (some fiber))
      (Function.update location fiber (some .ready)) := by
  have nowhere : location fiber = none := by
    rw [← Option.isNone_iff_eq_none, ← Option.not_isSome,
      consistent.live fiber, isNew]
    rfl
  have counted (place : Place μ κ) : state.count fiber place = 0 := by
    rw [consistent.count, nowhere]
    exact if_neg (by simp)
  refine consistent.move ?_ (fun query differs => ?_) (fun query place => ?_)
    ?_ (fun query differs => ?_) consistent.free consistent.iowait ?_ ?_
  · simp [Scheduler.spawn, resume, State.emit]
  · simp [Scheduler.spawn, resume, State.emit, State.setResumption, differs]
  · by_cases same : query = fiber
    · subst same
      rw [if_pos rfl]
      have before := counted place
      cases place with
      | ready =>
          rw [State.count] at before
          simp [Scheduler.spawn, State.count, resume, State.emit,
            State.setResumption, ← List.append_assoc, List.count_append,
            before]
      | _ =>
          rw [if_neg (by simp)]
          exact before
    · rw [if_neg same]
      cases place with
      | ready =>
          simp [Scheduler.spawn, State.count, resume, State.emit,
            State.setResumption, List.count_append, count_one, same]
      | _ => rfl
  · simp [Scheduler.spawn, resume, State.emit, State.setResumption, Fits]
  · refine consistent.others (fun _ => Iff.rfl) ?_
    exact if_neg differs
  · change state.control = .spinning ∨ _ ∨ _ → _
    change _ ∨ state.control = .eventloop ∨ state.control = .finished → _
    rw [control]
    rintro (other | other | other) <;> cases other
  · change state.control = .finished → _
    rw [control]
    simp

/-- The scheduler goes on with its loop, or with what is behind it. -/
theorem drain
    (consistent : Consistent state location)
    (control : state.control = .draining) :
    ∃ location', Consistent (drain state) location' := by
  have notRunning (query : ι) : state.count query .running = 0 := by
    apply State.count_running
    rw [control]
    simp
  rw [Scheduler.drain]
  cases isBatch : state.batch with
  | cons first batch =>
      have isReady : location first = some .ready := by
        apply consistent.location_of_count
        rw [State.count, isBatch]
        exact List.count_pos_iff.mpr (List.mem_cons_self ..)
      have counted := consistent.count_at isReady
      have once := counted .ready
      rw [State.count, isBatch, List.cons_append, List.count_cons_self,
        if_pos rfl] at once
      have notBehind : (batch ++ state.pending).count first = 0 :=
        Nat.succ.inj once
      dsimp only
      refine ⟨Function.update location first (some .running), ?_⟩
      refine consistent.move ?_ (fun _ _ => rfl) (fun query place => ?_) ?_
        (fun query _ => consistent.fits query) consistent.free
        consistent.iowait ?_ ?_
      · change state.live first = true
        rw [← consistent.live, isReady]
        rfl
      · by_cases same : query = first
        · subst same
          have before := counted place
          rw [if_pos rfl]
          cases place with
          | running => exact if_pos rfl
          | ready => exact notBehind
          | _ =>
              rw [if_neg (by simp)] at before ⊢
              exact before
        · rw [if_neg same]
          cases place with
          | running =>
              rw [notRunning]
              refine if_neg fun isFirst => same ?_
              exact (Control.fiber.inj isFirst).symm
          | ready =>
              simp [State.count, State.emit, isBatch, Ne.symm same]
          | _ => rfl
      · have fits := consistent.fits first
        rw [isReady] at fits
        exact fits
      · rintro (other | other | other) <;> cases other
      · intro other
        cases other
  | nil =>
      refine ⟨location, ?_⟩
      have goes (goesTo : Control ι)
          (notFiber : ∀ query, goesTo ≠ .fiber query)
          (notFinished : goesTo ≠ .finished) :
          Consistent { state with control := goesTo, batch := [] }
            location := by
        refine ⟨consistent.live, fun query place => ?_, consistent.fits,
          consistent.free, consistent.iowait, fun _ => rfl,
          fun finished => absurd finished notFinished⟩
        rw [← consistent.count]
        cases place with
        | running =>
            rw [notRunning]
            exact State.count_running notFiber query
        | ready => rw [State.count, State.count, isBatch]
        | _ => rfl
      dsimp only
      by_cases polls : state.pending = [] ∧ state.iowait ≠ 0
      · rw [if_pos polls]
        exact goes .eventloop (by simp) (by simp)
      · rw [if_neg polls]
        exact goes .spinning (by simp) (by simp)

/-- The scheduler frees terminated fibers and takes the pending ones. -/
theorem spin
    (consistent : Consistent state location)
    (control : state.control = .spinning) :
    ∃ location', Consistent (spin state) location' := by
  have noBatch : state.batch = [] := consistent.batch (Or.inl control)
  have notRunning (query : ι) : state.count query .running = 0 := by
    apply State.count_running
    rw [control]
    simp
  rw [Scheduler.spin]
  by_cases nothing :
      state.terminated = [] ∧ state.pending = [] ∧ state.iowait = 0
  · rw [if_pos nothing]
    refine ⟨location, consistent.live, fun query place => ?_,
      consistent.fits, consistent.free, consistent.iowait, fun _ => noBatch,
      fun _ => nothing⟩
    rw [← consistent.count]
    cases place with
    | running =>
        rw [notRunning]
        exact State.count_running (by simp) query
    | _ => rfl
  · rw [if_neg nothing]
    refine ⟨fun query =>
      if query ∈ state.terminated then none else location query, ?_⟩
    have isTerminated (query : ι) (member : query ∈ state.terminated) :
        location query = some .terminated := by
      apply consistent.location_of_count
      exact List.count_pos_iff.mpr member
    refine ⟨fun query => ?_, fun query place => ?_, fun query => ?_,
      consistent.free, consistent.iowait, ?_, by simp⟩
    · have live := consistent.live query
      by_cases member : query ∈ state.terminated
      · simp [member]
      · simp [member, live]
    · have before := consistent.count query place
      by_cases member : query ∈ state.terminated
      · have elsewhere := consistent.count_at (isTerminated query member) place
        rw [if_pos member, if_neg (by simp)]
        cases place with
        | running => exact State.count_running (by simp) query
        | ready =>
            rw [if_neg (by simp), State.count, noBatch, List.nil_append] at elsewhere
            rw [State.count, List.append_nil]
            exact elsewhere
        | terminated => rfl
        | _ =>
            rw [if_neg (by simp)] at elsewhere
            exact elsewhere
      · rw [if_neg member, ← before]
        cases place with
        | running =>
            rw [notRunning]
            exact State.count_running (by simp) query
        | ready => simp [State.count, noBatch]
        | terminated =>
            exact (List.count_eq_zero_of_not_mem member).symm
        | _ => rfl
    · have fits := consistent.fits query
      by_cases member : query ∈ state.terminated
      · rw [isTerminated query member] at fits
        rw [if_pos member]
        exact fits
      · rw [if_neg member]
        exact fits
    · rintro (other | other | other) <;> cases other

/-- `dfk_cond_broadcast` -/
theorem condBroadcast
    (consistent : Consistent state location)
    (control : state.control = .fiber this) :
    ∃ location', Consistent (condBroadcast state cond) location' := by
  have preserved :
      (Scheduler.condBroadcast state cond).control = .fiber this ∧
        ∃ location', Consistent (Scheduler.condBroadcast state cond)
          location' := by
    apply @condBroadcast_preserves ι μ κ cond _ fun state =>
      state.control = .fiber this ∧ ∃ location, Consistent state location
    · rintro state ⟨control, location, consistent⟩
      refine ⟨?_, consistent.condSignal control⟩
      rw [Scheduler.condSignal]
      split
      · exact control
      · exact control
    · exact ⟨control, location, consistent⟩
  exact preserved.2

/-- The event loop resumes a fiber. -/
theorem takeReady
    {ready : Ready} {passed elements : List (FdElement ι)}
    {element : FdElement ι}
    (consistent : Consistent state location)
    (control : state.control = .eventloop)
    (isFds : state.fds = passed ++ element :: elements) :
    Consistent (takeReady ready passed elements element state)
      (Function.update location element.yieldback (some .ready)) := by
  have isIo : location element.yieldback = some .io := by
    apply consistent.location_of_count
    apply List.count_pos_iff.mpr
    rw [isFds]
    simp
  rw [Scheduler.takeReady, ioresume_eq]
  refine consistent.wake isIo (by simp) rfl ?_ rfl rfl (fun query place => ?_)
    ?_ (fun query differs => ?_) consistent.free ?_
  · rw [control]
    simp
  · cases place with
    | io =>
        by_cases same : query = element.yieldback
        · subst same
          simp [State.count, isFds, Nat.add_assoc]
        · simp [State.count, isFds, same, Ne.symm same]
    | _ =>
        rw [if_neg fun both => by cases both.2]
        rfl
  · simp [State.setResumption, Fits]
  · refine consistent.others (fun _ => Iff.rfl) ?_
    exact if_neg differs
  · have iowait := consistent.iowait
    simp only [isFds, List.length_append, List.length_cons] at iowait
    simp only [State.setResumption, List.length_append]
    omega

/-- The event loop is suspended, or goes on from its head. -/
theorem setEventloop
    {goesTo : Control ι} {eventloop : EventloopAt}
    (consistent : Consistent state location)
    (control : state.control = .eventloop)
    (isNext : goesTo = .spinning ∨ goesTo = .eventloop) :
    Consistent { state with control := goesTo, eventloop := eventloop }
      location := by
  refine ⟨consistent.live, fun query place => ?_, consistent.fits,
    consistent.free, consistent.iowait,
    fun _ => consistent.batch (Or.inr (Or.inl control)), fun finished => ?_⟩
  · rw [← consistent.count]
    cases place with
    | running =>
        rw [State.count_running, State.count_running]
        · rw [control]
          simp
        · rcases isNext with rfl | rfl
          · simp
          · simp
    | _ => rfl
  · rcases isNext with rfl | rfl
    · cases finished
    · cases finished

/-- The event loop goes on. -/
theorem eventloopMain
    {outcome : Outcome}
    (consistent : Consistent state location)
    (control : state.control = .eventloop) :
    ∃ location', Consistent (eventloopMain state outcome) location' := by
  have goesOn :
      ∃ location', Consistent (poll state outcome) location' := by
    cases outcome with
    | interrupted =>
        have same :
            poll state .interrupted =
              { state with control := .eventloop, eventloop := .head } := by
          rw [← control]
          rfl
        rw [same]
        exact ⟨location, consistent.setEventloop control (Or.inr rfl)⟩
    | none => exact ⟨location, consistent.setEventloop control (Or.inl rfl)⟩
    | ready ready =>
        have dispatched :
            (dispatch ready [] state.fds state).control = .eventloop ∧
              ∃ location', Consistent (dispatch ready [] state.fds state)
                location' := by
          apply @dispatch_preserves ι μ κ _ ready fun state =>
            state.control = .eventloop ∧ ∃ location, Consistent state location
          · rintro state passed element elements isFds
              ⟨control, location, consistent⟩
            exact ⟨control, _, consistent.takeReady control isFds⟩
          · rfl
          · exact ⟨control, location, consistent⟩
        obtain ⟨goesOn, location', consistent'⟩ := dispatched
        rw [poll]
        split
        · exact ⟨location', consistent'.setEventloop goesOn (Or.inl rfl)⟩
        · have same :
              { dispatch ready [] state.fds state with
                eventloop := .head } =
              { dispatch ready [] state.fds state with
                control := .eventloop
                eventloop := .head } := by
            rw [← goesOn]
          rw [same]
          exact ⟨location', consistent'.setEventloop goesOn (Or.inr rfl)⟩
  rw [Scheduler.eventloopMain]
  split
  · split
    · exact ⟨location, consistent.setEventloop control (Or.inl rfl)⟩
    · exact goesOn
  · exact goesOn

end Consistent

/-! ## Steps and runs -/

omit [DecidableEq μ] [DecidableEq κ] in
/-- A fiber that goes on in client code already does. -/
theorem setResumption_self
    {resumption : Resumption μ κ}
    (goesOn : state.resumption this = resumption) :
    state.setResumption this resumption = state := by
  rw [State.setResumption]
  congr 1
  funext query
  by_cases same : query = this
  · simp [same, goesOn]
  · simp [same]

/-- A fiber goes on in the function in which it was suspended. -/
theorem Consistent.proceed
    (consistent : Consistent state location)
    (control : state.control = .fiber this) :
    ∃ after location',
      proceed state this = .ok after ∧ Consistent after location' := by
  have fits := consistent.fits this
  rw [consistent.running control] at fits
  have client := consistent.setResumption_client control
  rw [Scheduler.proceed]
  cases goesOn : state.resumption this with
  | client => exact ⟨state, location, rfl, consistent⟩
  | lock mutex =>
      rw [goesOn] at fits
      have isOwner : (state.mutexes mutex).owner = some this := fits
      dsimp only
      rw [locked, check_pos isOwner, ok_bind, pure_eq_ok]
      exact ⟨_, location, rfl, client⟩
  | wait cond mutex =>
      exact consistent.mutexLock control (Or.inr ⟨cond, rfl⟩)
        fun after _ after' => after'.retrace
  | relock cond mutex =>
      rw [goesOn] at fits
      have isOwner : (state.mutexes mutex).owner = some this := fits
      dsimp only
      rw [locked, check_pos isOwner, ok_bind, pure_eq_ok]
      exact ⟨_, location, rfl, client.retrace⟩
  | io events => exact ⟨_, location, rfl, client⟩

/-- A call that is allowed returns, or suspends the fiber. -/
theorem Consistent.perform
    {call : Call ι μ κ}
    (consistent : Consistent state location)
    (control : state.control = .fiber this)
    (client : state.resumption this = .client)
    (allowed : call.Allowed state this) :
    ∃ after location',
      perform state this call = .ok after ∧ Consistent after location' := by
  cases call with
  | spawn fiber =>
      cases fiber with
      | none => exact ⟨state, location, rfl, consistent⟩
      | some fiber =>
          exact ⟨_, _, rfl, consistent.spawn control allowed⟩
  | postpone => exact ⟨_, _, rfl, consistent.postpone control⟩
  | lock mutex =>
      refine consistent.mutexLock control (Or.inl rfl)
        fun after same after' => ?_
      rw [setResumption_self (same ▸ client)] at after'
      exact after'
  | trylock mutex =>
      refine ⟨_, location, rfl, ?_⟩
      rw [mutexTrylock]
      cases isOwner : (state.mutexes mutex).owner with
      | some owner => exact consistent
      | none =>
          have acquired := consistent.acquire control isOwner
          rw [setResumption_self] at acquired
          · exact acquired.retrace
          · exact client
  | unlock mutex =>
      have isOwner : (state.mutexes mutex).owner = some this := allowed
      have present : (state.mutexes mutex).owner ≠ none := by
        rw [isOwner]
        exact Option.some_ne_none this
      obtain ⟨location', released, -⟩ :=
        consistent.release control client isOwner
      refine ⟨_, location', ?_, released⟩
      rw [Scheduler.perform, mutexUnlock, check_pos present, ok_bind,
        check_pos isOwner, ok_bind, pure_eq_ok]
  | wait cond mutex => exact consistent.condWait control client allowed
  | signal cond =>
      obtain ⟨location', signalled⟩ := consistent.condSignal control
      exact ⟨_, location', rfl, signalled⟩
  | broadcast cond =>
      obtain ⟨location', broadcast⟩ := consistent.condBroadcast control
      exact ⟨_, location', rfl, broadcast⟩
  | io socket events => exact ⟨_, _, rfl, consistent.io control⟩
  | exit => exact ⟨_, _, rfl, consistent.terminate control⟩

/-- What is allowed happens without a fault, and moves fibers. -/
theorem Consistent.step
    {action : Action ι μ κ}
    (consistent : Consistent state location)
    (allowed : Allowed state action) :
    ∃ after location',
      step state action = .ok after ∧ Consistent after location' := by
  cases action with
  | schedule =>
      rcases allowed with control | control
      · obtain ⟨location', spun⟩ := consistent.spin control
        refine ⟨_, location', ?_, spun⟩
        simp only [Scheduler.step, control]
      · obtain ⟨location', drained⟩ := consistent.drain control
        refine ⟨_, location', ?_, drained⟩
        simp only [Scheduler.step, control]
  | poll outcome =>
      have control : state.control = .eventloop := allowed
      obtain ⟨location', polled⟩ :=
        @eventloopMain ι μ κ _ _ _ state location outcome consistent control
      refine ⟨_, location', ?_, polled⟩
      simp only [Scheduler.step, control]
  | proceed =>
      obtain ⟨this, control, -⟩ := allowed
      simp only [Scheduler.step, control]
      exact consistent.proceed control
  | call call =>
      obtain ⟨this, control, client, allowed⟩ := allowed
      simp only [Scheduler.step, control]
      exact consistent.perform control client allowed

/-- In the beginning the main fiber is ready. -/
theorem consistent_start (main : ι) :
    Consistent (start main : State ι μ κ)
      (fun query => if query = main then some .ready else none) := by
  refine ⟨fun query => ?_, fun query place => ?_, fun query => ?_,
    fun _ _ => rfl, rfl, fun _ => rfl, fun finished => by cases finished⟩
  · by_cases same : query = main
    · simp [start, same]
    · simp [start, same]
  · by_cases same : query = main
    · subst same
      cases place <;> simp [State.count, start]
    · cases place <;> simp [State.count, start, same, count_one]
  · by_cases same : query = main
    · simp [start, same, Fits]
    · simp [start, same, Fits]

open Runs

/-- Fibers stay consistent in every run. -/
theorem consistent_run
    {main : ι} {actions : List (Action ι μ κ)}
    (run : Run Steps (start main) actions state) :
    ∃ location, Consistent state location := by
  apply run.invariant ⟨_, consistent_start main⟩
  rintro before action after _ ⟨location, consistent⟩ ⟨allowed, steps⟩
  obtain ⟨result, location', happens, consistent'⟩ :=
    consistent.step allowed
  rw [steps] at happens
  cases happens
  exact ⟨location', consistent'⟩

/-- What is attempted with success is a step. -/
theorem steps_of_attempt
    {action : Action ι μ κ}
    (attempted : attempt state action = some next) :
    Steps state action next :=
  of_attempt attempted

/--
The main fiber spawns another one and waits for a condition variable.  The
other one takes the mutex, signals, and unlocks the mutex later.
-/
def rendezvous : List (Action Nat Nat Nat) :=
  [.schedule, .schedule, .call (.spawn (some 2)), .call (.lock 0),
    .call (.wait 0 0), .schedule, .schedule, .schedule, .call (.lock 0),
    .call (.signal 0), .call .postpone, .schedule, .schedule, .schedule,
    .proceed, .schedule, .call (.unlock 0), .call .exit, .schedule, .schedule,
    .schedule, .proceed]

/-- The main fiber returns with the mutex. -/
theorem rendezvous_run :
    ∃ state : State Nat Nat Nat,
      Run Steps (start 1) rendezvous state ∧
        state.control = .fiber 1 ∧ state.live 1 = true ∧
          Event.returned 0 1 ∈ state.trace := by
  have executed :
      ((execute attempt (start 1) rendezvous).any fun state =>
        state.control = .fiber 1 ∧ state.live 1 = true ∧
          Event.returned 0 1 ∈ state.trace) = true := by
    decide +kernel
  obtain ⟨state, isState, isSo⟩ := (Option.any_eq_true _ _).mp executed
  exact ⟨state, run_of_execute (fun _ _ _ => steps_of_attempt) isState,
    of_decide_eq_true isSo⟩

/--
In every reachable state each live fiber is in exactly one place and once
there, `iowait` counts the fibers that wait for a descriptor, nothing that is
allowed leads to a fault, and the scheduler returns only when no fiber is
ready, terminated or waiting for a descriptor.
-/
theorem fibers_in_one_place
    {main : ι} {actions : List (Action ι μ κ)}
    (run : Run Steps (start main) actions state) :
    (∀ fiber,
        (state.live fiber = true →
          ∃ place,
            state.count fiber place = 1 ∧
              ∀ other, other ≠ place → state.count fiber other = 0) ∧
        (state.live fiber = false →
          ∀ place, state.count fiber place = 0)) ∧
      state.iowait = state.fds.length ∧
      (∀ action, Allowed state action → ∃ after, step state action = .ok after) ∧
      (state.control = .finished →
        ∀ fiber,
          state.count fiber .ready = 0 ∧ state.count fiber .terminated = 0 ∧
            state.count fiber .io = 0) := by
  obtain ⟨location, consistent⟩ := consistent_run run
  refine ⟨fun fiber => ?_, consistent.iowait, fun action allowed => ?_,
    fun finished fiber => ?_⟩
  · have live := consistent.live fiber
    cases isAt : location fiber with
    | none =>
        rw [isAt] at live
        refine ⟨fun isLive => ?_, fun _ place => ?_⟩
        · rw [← live] at isLive
          cases isLive
        · rw [consistent.count, isAt]
          exact if_neg (by simp)
    | some place =>
        rw [isAt] at live
        refine ⟨fun _ => ⟨place, ?_, fun other differs => ?_⟩,
          fun notLive => ?_⟩
        · rw [consistent.count_at isAt, if_pos rfl]
        · rw [consistent.count_at isAt, if_neg (Ne.symm differs)]
        · rw [← live] at notLive
          cases notLive
  · obtain ⟨after, -, happens, -⟩ := consistent.step allowed
    exact ⟨after, happens⟩
  · obtain ⟨noneTerminated, nonePending, noneWaiting⟩ :=
      consistent.finished finished
    have noBatch := consistent.batch (Or.inr (Or.inr finished))
    have noFds : state.fds = [] := by
      have iowait := consistent.iowait
      rw [noneWaiting] at iowait
      exact List.length_eq_zero_iff.mp (Int.natCast_eq_zero.mp iowait.symm)
    simp [State.count, noneTerminated, nonePending, noBatch, noFds]

/-- The main fiber, returned with the mutex, is in one place. -/
theorem fibers_in_one_place_rendezvous :
    ∃ state : State Nat Nat Nat,
      Run Steps (start 1) rendezvous state ∧
        ∃ place : Place Nat Nat,
          state.count 1 place = 1 ∧
            ∀ other, other ≠ place → state.count 1 other = 0 := by
  obtain ⟨state, run, -, isLive, -⟩ := rendezvous_run
  exact ⟨state, run, ((fibers_in_one_place run).1 1).1 isLive⟩

end Dfk.Scheduler
