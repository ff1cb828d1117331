import Dfk.Scheduler.MutualExclusion

/-!
# The way out of `dfk_cond_wait`

A fiber that waits for a condition variable is woken, comes to the mutex when
the scheduler switches to it, and returns with the mutex.  If all fibers wait
with one mutex, then `Ordered` says that they are on this way in the order in
which they began to wait.
-/

namespace Dfk.Scheduler

open Fifo (replay puts takes)
open Runs

variable {ι μ κ : Type}

/-- The fibers that have returned from `dfk_cond_wait`, in this order. -/
def returns [DecidableEq κ] (cond : κ) (trace : List (Event ι μ κ)) : List ι :=
  trace.filterMap fun
    | .returned at' fiber => if at' = cond then some fiber else none
    | _ => none

/-- The fibers that have called `dfk_cond_wait`, in this order. -/
def waits [DecidableEq κ] (cond : κ) (trace : List (Event ι μ κ)) : List ι :=
  puts (waitedAt cond trace)

/-- Those among fibers that go on in one place. -/
def those [DecidableEq μ] [DecidableEq κ]
    (resumption : ι → Resumption μ κ) (goesOn : Resumption μ κ)
    (fibers : List ι) : List ι :=
  fibers.filter fun fiber => resumption fiber = goesOn

/-- The owner of a mutex, and who waits for it. -/
def State.line (state : State ι μ κ) (mutex : μ) : List ι :=
  (state.owner mutex).toList ++ (state.mutexes mutex).waitqueue

/-- The fiber that runs. -/
def State.current (state : State ι μ κ) : List ι :=
  match state.control with
  | .fiber this => [this]
  | _ => []

/-- The fiber that runs, and who is ready. -/
def State.up (state : State ι μ κ) : List ι :=
  state.current ++ (state.batch ++ state.pending)

section Those

variable [DecidableEq μ] [DecidableEq κ]
variable {resumption : ι → Resumption μ κ} {goesOn : Resumption μ κ}

/-- Fibers in front of others. -/
theorem those_append (front behind : List ι) :
    those resumption goesOn (front ++ behind) =
      those resumption goesOn front ++ those resumption goesOn behind :=
  List.filter_append ..

/-- A fiber that goes on there. -/
theorem those_of_eq
    {this : ι}
    (same : resumption this = goesOn) :
    those resumption goesOn [this] = [this] := by
  simp [those, same]

/-- A fiber that goes on elsewhere. -/
theorem those_of_ne
    {this : ι}
    (differs : resumption this ≠ goesOn) :
    those resumption goesOn [this] = [] := by
  simp [those, differs]

/-- A fiber that is not among them, or goes on elsewhere all the time. -/
theorem those_set
    [DecidableEq ι] {this : ι} {goesOn' : Resumption μ κ} {fibers : List ι}
    (unconcerned :
      this ∈ fibers → resumption this ≠ goesOn ∧ goesOn' ≠ goesOn) :
    those
        (fun query => if query = this then goesOn' else resumption query)
        goesOn fibers =
      those resumption goesOn fibers := by
  apply List.filter_congr
  intro query member
  by_cases same : query = this
  · subst same
    obtain ⟨before, after⟩ := unconcerned member
    simp [before, after]
  · simp [same]

end Those

variable [DecidableEq ι] [DecidableEq μ] [DecidableEq κ]
variable {state next : State ι μ κ} {location : ι → Option (Place μ κ)}
variable {this : ι} {mutex mutex' : μ} {cond cond' : κ}

omit [DecidableEq ι] [DecidableEq μ] [DecidableEq κ] in
/-- A fiber that runs is before all that are ready. -/
theorem State.up_of_fiber
    (control : state.control = .fiber this) :
    state.up = [this] ++ (state.batch ++ state.pending) := by
  rw [State.up, State.current, control]

/-- In `dfk_cond_wait` for one condition variable. -/
def Resumption.AtCond (cond : κ) : Resumption μ κ → Prop
  | .wait at' _ | .relock at' _ => at' = cond
  | .client | .lock _ | .io _ => False

omit [DecidableEq μ] [DecidableEq κ] in
/-- What is not in `dfk_cond_wait` is at no point of it. -/
theorem Resumption.ne_of_notAt
    {goesOn : Resumption μ κ}
    (notAt : ¬ goesOn.AtCond cond) :
    goesOn ≠ .wait cond mutex ∧ goesOn ≠ .relock cond mutex := by
  constructor
  · rintro rfl
    exact notAt rfl
  · rintro rfl
    exact notAt rfl

/-- The fibers on the way out of `dfk_cond_wait`, the first one first. -/
def State.inside (state : State ι μ κ) (cond : κ) (mutex : μ) : List ι :=
  those state.resumption (.relock cond mutex) (state.line mutex) ++
    (those state.resumption (.wait cond mutex) state.up ++ state.conds cond)

/-- Where the running fiber goes on does not matter to those that are ready. -/
theorem Consistent.those_up
    {resumption : ι → Resumption μ κ}
    (consistent : Consistent state location)
    (control : state.control = .fiber this)
    (others : ∀ query, query ≠ this →
      resumption query = state.resumption query) :
    those resumption (.wait cond mutex) (state.batch ++ state.pending) =
      those state.resumption (.wait cond mutex)
        (state.batch ++ state.pending) := by
  have notReady : this ∉ state.batch ++ state.pending := by
    have counted := consistent.count_at (consistent.running control) .ready
    exact List.count_eq_zero.mp counted
  apply List.filter_congr
  intro query member
  rw [others query]
  rintro rfl
  exact notReady member

/-- Fibers return in order, and all wait with one mutex. -/
structure Ordered (state : State ι μ κ) (cond : κ) (mutex : μ) : Prop where
  inOrder :
    waits cond state.trace =
      returns cond state.trace ++ state.inside cond mutex
  oneMutex : ∀ fiber other,
    state.resumption fiber = .wait cond other ∨
        state.resumption fiber = .relock cond other →
      other = mutex

namespace Ordered

omit [DecidableEq ι] in
/-- Events have been added, and fibers are on the way accordingly. -/
theorem extend
    {events : List (Event ι μ κ)}
    (ordered : Ordered state cond mutex)
    (trace : next.trace = state.trace ++ events)
    (inside :
      state.inside cond mutex ++ waits cond events =
        returns cond events ++ next.inside cond mutex)
    (oneMutex : ∀ fiber other,
      next.resumption fiber = .wait cond other ∨
          next.resumption fiber = .relock cond other →
        other = mutex) :
    Ordered next cond mutex := by
  refine ⟨?_, oneMutex⟩
  have waited :
      waits cond (state.trace ++ events) =
        waits cond state.trace ++ waits cond events := by
    rw [waits, waitedAt, List.filterMap_append, Fifo.puts_append]
    rfl
  have returned :
      returns cond (state.trace ++ events) =
        returns cond state.trace ++ returns cond events :=
    List.filterMap_append ..
  rw [trace, waited, returned, ordered.inOrder, List.append_assoc, inside,
    List.append_assoc]

omit [DecidableEq ι] in
/-- Events have been added that are of no consequence. -/
theorem keep
    {events : List (Event ι μ κ)}
    (ordered : Ordered state cond mutex)
    (trace : next.trace = state.trace ++ events)
    (noWaits : waits cond events = [])
    (noReturns : returns cond events = [])
    (line :
      those next.resumption (.relock cond mutex) (next.line mutex) =
        those state.resumption (.relock cond mutex) (state.line mutex))
    (up :
      those next.resumption (.wait cond mutex) next.up =
        those state.resumption (.wait cond mutex) state.up)
    (conds : next.conds cond = state.conds cond)
    (oneMutex : ∀ fiber other,
      next.resumption fiber = .wait cond other ∨
          next.resumption fiber = .relock cond other →
        other = mutex) :
    Ordered next cond mutex := by
  apply ordered.extend trace ?_ oneMutex
  rw [noWaits, noReturns, State.inside, State.inside, line, up, conds,
    List.append_nil, List.nil_append]

/-- All wait with one mutex if the fiber does that goes on elsewhere. -/
theorem oneMutex_set
    {goesOn : Resumption μ κ}
    (ordered : Ordered state cond mutex)
    (fits : ∀ other,
      goesOn = .wait cond other ∨ goesOn = .relock cond other →
        other = mutex)
    (fiber : ι) (other : μ) :
    (state.setResumption this goesOn).resumption fiber = .wait cond other ∨
        (state.setResumption this goesOn).resumption fiber =
          .relock cond other →
      other = mutex := by
  rw [State.setResumption]
  by_cases same : fiber = this
  · simp only [same, if_true]
    exact fits other
  · simp only [same, if_false]
    exact ordered.oneMutex fiber other

/-- A fiber goes on elsewhere than in `dfk_cond_wait`. -/
theorem set
    {goesOn : Resumption μ κ}
    (ordered : Ordered state cond mutex)
    (before : ¬ (state.resumption this).AtCond cond)
    (after : ¬ goesOn.AtCond cond) :
    Ordered (state.setResumption this goesOn) cond mutex := by
  refine ordered.keep (List.append_nil _).symm rfl rfl ?_ ?_ rfl
    (ordered.oneMutex_set fun other => ?_)
  · exact those_set fun _ =>
      ⟨(Resumption.ne_of_notAt before).2, (Resumption.ne_of_notAt after).2⟩
  · exact those_set fun _ =>
      ⟨(Resumption.ne_of_notAt before).1, (Resumption.ne_of_notAt after).1⟩
  · rintro (isWait | isRelock)
    · exact absurd isWait (Resumption.ne_of_notAt after).1
    · exact absurd isRelock (Resumption.ne_of_notAt after).2

omit [DecidableEq ι] in
/-- A fiber becomes ready that does not go on in `dfk_cond_wait`. -/
theorem resume
    {fiber : ι}
    (ordered : Ordered state cond mutex)
    (elsewhere : state.resumption fiber ≠ .wait cond mutex) :
    Ordered (resume state fiber) cond mutex := by
  refine ordered.keep rfl rfl rfl rfl ?_ rfl ordered.oneMutex
  have up : (Scheduler.resume state fiber).up = state.up ++ [fiber] := by
    simp [Scheduler.resume, State.emit, State.up, State.current]
  rw [up, those_append]
  change _ ++ those state.resumption _ [fiber] = _
  rw [those_of_ne elsewhere, List.append_nil]
  rfl

/-- A fiber stops running that is not in `dfk_cond_wait`. -/
theorem leave
    {goesOn : Resumption μ κ}
    (ordered : Ordered state cond mutex)
    (control : state.control = .fiber this)
    (before : ¬ (state.resumption this).AtCond cond)
    (after : ¬ goesOn.AtCond cond) :
    Ordered (yieldBack state this goesOn) cond mutex := by
  have goes := ordered.set before after
  refine goes.keep (List.append_nil _).symm rfl rfl rfl ?_ rfl goes.oneMutex
  have up :
      (state.setResumption this goesOn).up =
        [this] ++ (yieldBack state this goesOn).up := by
    simp [yieldBack, State.setResumption, State.up, State.current, control]
  rw [up, those_append, those_of_ne]
  · rfl
  · rw [State.setResumption]
    dsimp only
    rw [if_pos rfl]
    exact (Resumption.ne_of_notAt after).1

omit [DecidableEq ι] in
/-- A mutex without owner is acquired. -/
theorem acquire
    (ordered : Ordered state cond mutex)
    (notAt : ¬ (state.resumption this).AtCond cond)
    (isFree : (state.mutexes mutex').owner = none) :
    Ordered
      ((state.setMutex mutex'
          { state.mutexes mutex' with owner := some this }).emit
        [.acquired mutex' this])
      cond mutex := by
  refine ordered.keep rfl rfl rfl ?_ rfl rfl ordered.oneMutex
  by_cases same : mutex = mutex'
  · subst same
    have line :
        ((state.setMutex mutex
            { state.mutexes mutex with owner := some this }).emit
          [.acquired mutex this]).line mutex =
        [this] ++ state.line mutex := by
      simp [State.emit, State.setMutex, State.line, State.owner, isFree]
    rw [line, those_append]
    change those state.resumption _ [this] ++ _ = _
    rw [those_of_ne (Resumption.ne_of_notAt notAt).2]
    rfl
  · simp [State.emit, State.setMutex, State.line, State.owner, same]

omit [DecidableEq ι] in
/-- A fiber begins to wait for a mutex. -/
theorem queue
    {owner : ι}
    (ordered : Ordered state cond mutex)
    (notAt : ¬ (state.resumption this).AtCond cond)
    (isOwner : (state.mutexes mutex').owner = some owner) :
    Ordered
      ((state.setMutex mutex'
          { owner := some owner
            waitqueue := (state.mutexes mutex').waitqueue ++ [this] }).emit
        [.queued mutex' this])
      cond mutex := by
  refine ordered.keep rfl rfl rfl ?_ rfl rfl ordered.oneMutex
  by_cases same : mutex = mutex'
  · subst same
    have line :
        ((state.setMutex mutex
            { owner := some owner
              waitqueue := (state.mutexes mutex).waitqueue ++ [this] }).emit
          [.queued mutex this]).line mutex =
        state.line mutex ++ [this] := by
      simp [State.emit, State.setMutex, State.line, State.owner, isOwner]
    rw [line, those_append]
    change _ ++ those state.resumption _ [this] = _
    rw [those_of_ne (Resumption.ne_of_notAt notAt).2, List.append_nil]
    rfl
  · simp [State.emit, State.setMutex, State.line, State.owner, same]

/-- The release of a mutex by its owner. -/
theorem release
    (ordered : Ordered state cond mutex)
    (consistent : Consistent state location)
    (notAt : ¬ (state.resumption this).AtCond cond)
    (isOwner : (state.mutexes mutex').owner = some this) :
    Ordered (release state this mutex') cond mutex := by
  have lost : those state.resumption (.relock cond mutex) [this] = [] :=
    those_of_ne (Resumption.ne_of_notAt notAt).2
  rw [Scheduler.release]
  rcases waiting : (state.mutexes mutex').waitqueue with _ | ⟨heir, waitqueue⟩
  · refine ordered.keep rfl rfl rfl ?_ rfl rfl ordered.oneMutex
    by_cases same : mutex = mutex'
    · subst same
      simp [State.emit, State.setMutex, State.line, State.owner, isOwner,
        waiting, lost]
      rfl
    · simp [State.emit, State.setMutex, State.line, State.owner, same]
  · apply Ordered.resume
    · refine ordered.keep rfl rfl rfl ?_ rfl rfl ordered.oneMutex
      by_cases same : mutex = mutex'
      · subst same
        have whole :
            state.line mutex = [this] ++ heir :: waitqueue := by
          rw [State.line, State.owner, isOwner, waiting]
          rfl
        rw [whole, those_append, lost]
        simp [State.emit, State.setMutex, State.line, State.owner]
      · simp [State.emit, State.setMutex, State.line, State.owner, same]
    · have isAt : location heir = some (.mutex mutex') := by
        apply consistent.location_of_count
        rw [State.count, waiting]
        exact List.count_pos_iff.mpr (List.mem_cons_self ..)
      have fits := consistent.fits heir
      rw [isAt] at fits
      change state.resumption heir ≠ _
      rcases fits.1 with isLock | ⟨other, isRelock⟩
      · rw [isLock]
        simp
      · rw [isRelock]
        simp

/-- `dfk_mutex_lock` for a fiber that is not in `dfk_cond_wait`. -/
theorem mutexLock
    {blocked : Resumption μ κ} {goes : State ι μ κ → State ι μ κ}
    (ordered : Ordered state cond mutex)
    (control : state.control = .fiber this)
    (notAt : ¬ (state.resumption this).AtCond cond)
    (blockedNotAt : ¬ blocked.AtCond cond)
    (goesOn :
      ∀ after : State ι μ κ,
        after.resumption = state.resumption →
          Ordered after cond mutex → Ordered (goes after) cond mutex)
    (happens : mutexLock state this mutex' blocked goes = .ok next) :
    Ordered next cond mutex := by
  rw [Scheduler.mutexLock] at happens
  rcases isOwner : (state.mutexes mutex').owner with _ | owner
  · simp only [isOwner, locked] at happens
    obtain ⟨done, -, happens⟩ := of_bind happens
    cases happens
    exact goesOn _ rfl (ordered.acquire notAt isOwner)
  · simp only [isOwner] at happens
    by_cases same : owner = this
    · rw [if_pos same, locked] at happens
      obtain ⟨done, -, happens⟩ := of_bind happens
      cases happens
      exact goesOn _ rfl ordered
    · rw [if_neg same] at happens
      cases happens
      exact (ordered.queue notAt isOwner).leave control notAt blockedNotAt

/-- A fiber returns from `dfk_cond_wait` for another condition variable. -/
theorem condReturn
    (ordered : Ordered state cond mutex)
    (notAt : ¬ (state.resumption this).AtCond cond)
    (another : cond' ≠ cond) :
    Ordered (condReturn this cond' state) cond mutex := by
  have goes := @set ι μ κ _ _ _ state this mutex cond .client ordered notAt id
  refine goes.keep rfl rfl ?_ rfl rfl rfl goes.oneMutex
  simp [returns, another]

/-- A fiber returns with the mutex that it was granted. -/
theorem return_granted
    (ordered : Ordered state cond mutex)
    (consistent : Consistent state location)
    (isRelock : state.resumption this = .relock cond mutex)
    (isOwner : state.owner mutex = some this) :
    Ordered (Scheduler.condReturn this cond state) cond mutex := by
  have notQueued : this ∉ (state.mutexes mutex).waitqueue := by
    intro member
    exact consistent.not_owner member isOwner
  have line : state.line mutex = [this] ++ (state.mutexes mutex).waitqueue := by
    rw [State.line, isOwner]
    rfl
  have front :
      those (Scheduler.condReturn this cond state).resumption
          (.relock cond mutex)
          ((Scheduler.condReturn this cond state).line mutex) =
        those state.resumption (.relock cond mutex)
          (state.mutexes mutex).waitqueue := by
    change those _ _ (state.line mutex) = _
    rw [line, those_append, those_of_ne, List.nil_append]
    · exact those_set fun member => absurd member notQueued
    · change (if this = this then Resumption.client else _) ≠ _
      rw [if_pos rfl]
      simp
  have behind :
      those (Scheduler.condReturn this cond state).resumption
          (.wait cond mutex)
          (Scheduler.condReturn this cond state).up =
        those state.resumption (.wait cond mutex) state.up := by
    refine those_set fun _ => ⟨?_, by simp⟩
    rw [isRelock]
    simp
  refine ordered.extend rfl ?_ (ordered.oneMutex_set fun other => ?_)
  · have returned :
        returns cond ([.returned cond this] : List (Event ι μ κ)) = [this] := by
      simp [returns]
    rw [returned, State.inside, State.inside, line, those_append,
      those_of_eq isRelock, front, behind]
    simp only [List.append_assoc]
    rw [show waits cond ([.returned cond this] : List (Event ι μ κ)) = []
      from rfl, List.append_nil]
    rfl
  · rintro (isWait | isRelock)
    · cases isWait
    · cases isRelock

/-- A woken fiber finds the mutex without owner, and returns with it. -/
theorem return_free
    (ordered : Ordered state cond mutex)
    (consistent : Consistent state location)
    (control : state.control = .fiber this)
    (isWait : state.resumption this = .wait cond mutex)
    (isFree : (state.mutexes mutex).owner = none) :
    Ordered
      (Scheduler.condReturn this cond
        ((state.setMutex mutex
            { state.mutexes mutex with owner := some this }).emit
          [.acquired mutex this]))
      cond mutex := by
  have waitqueue := consistent.free mutex isFree
  have line : state.line mutex = [] := by
    rw [State.line, State.owner, isFree, waitqueue]
    rfl
  have front :
      those (state.setResumption this .client).resumption
          (.relock cond mutex)
          ((Scheduler.condReturn this cond
            ((state.setMutex mutex
                { state.mutexes mutex with owner := some this }).emit
              [.acquired mutex this])).line mutex) = [] := by
    have isLine :
        (Scheduler.condReturn this cond
            ((state.setMutex mutex
                { state.mutexes mutex with owner := some this }).emit
              [.acquired mutex this])).line mutex = [this] := by
      simp [Scheduler.condReturn, State.line, State.owner, State.emit,
        State.setResumption, State.setMutex, waitqueue]
    rw [isLine, those_of_ne]
    change (if this = this then Resumption.client else _) ≠ _
    rw [if_pos rfl]
    simp
  have behind :
      those (state.setResumption this .client).resumption (.wait cond mutex)
          state.up =
        those state.resumption (.wait cond mutex)
          (state.batch ++ state.pending) := by
    rw [State.up_of_fiber control, those_append, those_of_ne,
      List.nil_append, consistent.those_up control]
    · exact fun query differs => if_neg differs
    · change (if this = this then Resumption.client else _) ≠ _
      rw [if_pos rfl]
      simp
  refine ordered.extend (List.append_assoc ..) ?_
    (ordered.oneMutex_set fun other => ?_)
  · have returned :
        returns cond ([.acquired mutex this] ++ [.returned cond this] :
          List (Event ι μ κ)) = [this] := by
      simp [returns]
    have noWaits :
        waits cond ([.acquired mutex this] ++ [.returned cond this] :
          List (Event ι μ κ)) = [] :=
      rfl
    have inside :
        state.inside cond mutex =
          [this] ++
            (those state.resumption (.wait cond mutex)
                (state.batch ++ state.pending) ++
              state.conds cond) := by
      rw [State.inside, line, State.up_of_fiber control, those_append,
        those_of_eq isWait, List.append_assoc]
      rfl
    rw [returned, noWaits, inside, State.inside]
    change _ = [this] ++
      (those (state.setResumption this .client).resumption _ _ ++
        (those (state.setResumption this .client).resumption _ state.up ++
          state.conds cond))
    rw [front, behind, List.append_nil, List.nil_append]
  · rintro (isWait | isRelock)
    · cases isWait
    · cases isRelock

/-- A woken fiber waits for the mutex behind all others that do. -/
theorem queue_again
    {owner : ι}
    (ordered : Ordered state cond mutex)
    (consistent : Consistent state location)
    (control : state.control = .fiber this)
    (isWait : state.resumption this = .wait cond mutex)
    (isOwner : (state.mutexes mutex).owner = some owner)
    (another : owner ≠ this) :
    Ordered
      (suspend
        ((state.setMutex mutex
            { owner := some owner
              waitqueue := (state.mutexes mutex).waitqueue ++ [this] }).emit
          [.queued mutex this])
        this (.relock cond mutex))
      cond mutex := by
  have notQueued : this ∉ state.line mutex := by
    have counted :=
      consistent.count_at (consistent.running control) (.mutex mutex)
    have notWaiting : this ∉ (state.mutexes mutex).waitqueue :=
      List.count_eq_zero.mp counted
    simp [State.line, State.owner, isOwner, notWaiting, Ne.symm another]
  have front :
      those (state.setResumption this (.relock cond mutex)).resumption
          (.relock cond mutex) (state.line mutex ++ [this]) =
        those state.resumption (.relock cond mutex) (state.line mutex) ++
          [this] := by
    rw [those_append, those_of_eq]
    · congr 1
      exact those_set fun member => absurd member notQueued
    · exact if_pos rfl
  have behind :
      those (state.setResumption this (.relock cond mutex)).resumption
          (.wait cond mutex) (state.batch ++ state.pending) =
        those state.resumption (.wait cond mutex)
          (state.batch ++ state.pending) :=
    consistent.those_up control fun query differs => if_neg differs
  refine ordered.extend rfl ?_ (ordered.oneMutex_set fun other => ?_)
  · have noReturns :
        returns cond ([.queued mutex this] : List (Event ι μ κ)) = [] :=
      rfl
    have noWaits :
        waits cond ([.queued mutex this] : List (Event ι μ κ)) = [] :=
      rfl
    have isLine :
        (suspend
          ((state.setMutex mutex
              { owner := some owner
                waitqueue :=
                  (state.mutexes mutex).waitqueue ++ [this] }).emit
            [.queued mutex this])
          this (.relock cond mutex)).line mutex =
          state.line mutex ++ [this] := by
      simp [suspend, yieldBack, State.line, State.owner, State.emit,
        State.setResumption, State.setMutex, isOwner]
    rw [noReturns, noWaits, State.inside, State.inside, isLine,
      State.up_of_fiber control, those_append, those_of_eq isWait]
    change _ = [] ++
      (those (state.setResumption this _).resumption _ _ ++
        (those (state.setResumption this _).resumption _
            (state.batch ++ state.pending) ++
          state.conds cond))
    rw [front, behind]
    simp only [List.append_assoc, List.append_nil, List.nil_append]
  · rintro (isWait | isRelock)
    · cases isWait
    · cases isRelock
      rfl

/-- A fiber that has released the mutex waits behind all others. -/
theorem wait_here
    (ordered : Ordered state cond mutex)
    (consistent : Consistent state location)
    (control : state.control = .fiber this)
    (notAt : ¬ (state.resumption this).AtCond cond) :
    Ordered
      (suspend
        ((state.setCond cond (state.conds cond ++ [this])).emit
          [.waited cond this])
        this (.wait cond mutex))
      cond mutex := by
  have front :
      those (state.setResumption this (.wait cond mutex)).resumption
          (.relock cond mutex) (state.line mutex) =
        those state.resumption (.relock cond mutex) (state.line mutex) :=
    those_set fun _ => ⟨(Resumption.ne_of_notAt notAt).2, by simp⟩
  have behind :
      those (state.setResumption this (.wait cond mutex)).resumption
          (.wait cond mutex) (state.batch ++ state.pending) =
        those state.resumption (.wait cond mutex)
          (state.batch ++ state.pending) :=
    consistent.those_up control fun query differs => if_neg differs
  refine ordered.extend rfl ?_ (ordered.oneMutex_set fun other => ?_)
  · have waited :
        waits cond ([.waited cond this] : List (Event ι μ κ)) = [this] := by
      simp [waits, waitedAt, Event.atCond?, puts]
    have noReturns :
        returns cond ([.waited cond this] : List (Event ι μ κ)) = [] :=
      rfl
    have isConds :
        (suspend
          ((state.setCond cond (state.conds cond ++ [this])).emit
            [.waited cond this])
          this (.wait cond mutex)).conds cond =
          state.conds cond ++ [this] := by
      simp [suspend, yieldBack, State.emit, State.setResumption, State.setCond]
    rw [waited, noReturns, State.inside, State.inside, isConds,
      State.up_of_fiber control, those_append,
      those_of_ne (Resumption.ne_of_notAt notAt).1]
    change _ = [] ++
      (those (state.setResumption this _).resumption _ (state.line mutex) ++
        (those (state.setResumption this _).resumption _
            (state.batch ++ state.pending) ++
          _))
    rw [front, behind]
    simp only [List.append_assoc, List.nil_append]
  · rintro (isWait | isRelock)
    · cases isWait
      rfl
    · cases isRelock

/-- `dfk_cond_wait`, with the one mutex if for this condition variable. -/
theorem condWait
    (ordered : Ordered state cond mutex)
    (consistent : Consistent state location)
    (control : state.control = .fiber this)
    (client : state.resumption this = .client)
    (isMutex : cond' = cond → mutex' = mutex)
    (happens : condWait state this cond' mutex' = .ok next) :
    Ordered next cond mutex := by
  rw [Scheduler.condWait] at happens
  obtain ⟨done, -, happens⟩ := of_bind happens
  obtain ⟨done, passed, happens⟩ := of_bind happens
  have isOwner := of_check passed
  have notAt : ¬ (state.resumption this).AtCond cond := by
    rw [client]
    exact id
  have resumptions :
      (Scheduler.release state this mutex').resumption = state.resumption := by
    rw [Scheduler.release]
    split
    · rfl
    · rfl
  have released := ordered.release consistent notAt isOwner
  obtain ⟨location', consistent', -, goesOn⟩ :=
    consistent.release control client isOwner
  rw [← resumptions] at notAt
  cases happens
  by_cases same : cond' = cond
  · obtain rfl := isMutex same
    subst same
    exact released.wait_here consistent' goesOn notAt
  · have waited :
        Ordered
          (((Scheduler.release state this mutex').setCond cond'
              ((Scheduler.release state this mutex').conds cond' ++
                [this])).emit
            [.waited cond' this])
          cond mutex := by
      refine released.keep rfl ?_ rfl rfl rfl ?_ released.oneMutex
      · simp [waits, waitedAt, Event.atCond?, same, puts]
      · exact if_neg (Ne.symm same)
    exact waited.leave goesOn notAt same

/-- `dfk_cond_signal` -/
theorem condSignal
    (ordered : Ordered state cond mutex)
    (consistent : Consistent state location) :
    Ordered (condSignal state cond') cond mutex := by
  rw [Scheduler.condSignal]
  rcases waiting : state.conds cond' with _ | ⟨first, waitqueue⟩
  · exact ordered
  · have isAt : location first = some (.cond cond') := by
      apply consistent.location_of_count
      rw [State.count, waiting]
      exact List.count_pos_iff.mpr (List.mem_cons_self ..)
    have fits := consistent.fits first
    rw [isAt] at fits
    obtain ⟨mutex', isWait, -⟩ := fits
    by_cases same : cond' = cond
    · subst same
      obtain rfl := ordered.oneMutex first mutex' (Or.inl isWait)
      refine ordered.extend (List.append_assoc ..) ?_ ordered.oneMutex
      have noWaits :
          waits cond' ([.woken cond' first] ++ [.ready first] :
            List (Event ι μ κ)) = [] := by
        simp [waits, waitedAt, Event.atCond?, puts, List.filterMap_cons]
      have up :
          (Scheduler.resume
            ((state.setCond cond' waitqueue).emit [.woken cond' first])
            first).up = state.up ++ [first] := by
        simp [Scheduler.resume, State.emit, State.setCond, State.up,
          State.current]
      have isConds :
          (Scheduler.resume
            ((state.setCond cond' waitqueue).emit [.woken cond' first])
            first).conds cond' = waitqueue := by
        simp [Scheduler.resume, State.emit, State.setCond]
      rw [noWaits, State.inside, State.inside, up, isConds, waiting,
        those_append]
      change _ = [] ++
        (those state.resumption _ (state.line mutex') ++
          ((_ ++ those state.resumption _ [first]) ++ waitqueue))
      rw [those_of_eq isWait]
      simp only [List.append_assoc, List.append_nil, List.nil_append,
        List.singleton_append]
      rfl
    · apply Ordered.resume
      · refine ordered.keep rfl ?_ rfl rfl rfl ?_ ordered.oneMutex
        · simp [waits, waitedAt, Event.atCond?, same, puts]
        · exact if_neg (Ne.symm same)
      · change state.resumption first ≠ _
        rw [isWait]
        rintro ⟨⟩
        exact same rfl

/-- `dfk_cond_broadcast` -/
theorem condBroadcast
    (ordered : Ordered state cond mutex)
    (consistent : Consistent state location)
    (control : state.control = .fiber this) :
    Ordered (condBroadcast state cond') cond mutex := by
  have preserved :
      Ordered (Scheduler.condBroadcast state cond') cond mutex ∧
        (Scheduler.condBroadcast state cond').control = .fiber this ∧
          ∃ location', Consistent (Scheduler.condBroadcast state cond')
            location' := by
    apply @condBroadcast_preserves ι μ κ cond' _ fun state =>
      Ordered state cond mutex ∧ state.control = .fiber this ∧
        ∃ location, Consistent state location
    · rintro state ⟨ordered, control, location, consistent⟩
      refine ⟨ordered.condSignal consistent, ?_,
        consistent.condSignal control⟩
      rw [Scheduler.condSignal]
      split
      · exact control
      · exact control
    · exact ⟨ordered, control, location, consistent⟩
  exact preserved.1

/-- `dfk_spawn` -/
theorem spawn
    {fiber : ι}
    (ordered : Ordered state cond mutex)
    (consistent : Consistent state location)
    (isNew : state.live fiber = false) :
    Ordered (spawn state (some fiber)) cond mutex := by
  have client : state.resumption fiber = .client := by
    have nowhere : location fiber = none := by
      rw [← Option.isNone_iff_eq_none, ← Option.not_isSome,
        consistent.live fiber, isNew]
      rfl
    have fits := consistent.fits fiber
    rw [nowhere] at fits
    exact fits
  have notAt : ¬ (state.resumption fiber).AtCond cond := by
    rw [client]
    exact id
  have goes := @set ι μ κ _ _ _ state fiber mutex cond .client ordered notAt id
  rw [Scheduler.spawn]
  apply Ordered.resume
  · exact goes.keep (List.append_nil _).symm rfl rfl rfl rfl rfl goes.oneMutex
  · change (if fiber = fiber then Resumption.client else _) ≠ _
    rw [if_pos rfl]
    simp

omit [DecidableEq ι] in
/-- Nothing has happened to queues, owners and the fibers that are up. -/
theorem of_same
    (ordered : Ordered state cond mutex)
    (trace : next.trace = state.trace)
    (mutexes : next.mutexes = state.mutexes)
    (up : next.up = state.up)
    (conds : next.conds = state.conds)
    (resumption : next.resumption = state.resumption) :
    Ordered next cond mutex := by
  refine ordered.keep (trace.trans (List.append_nil _).symm) rfl rfl ?_ ?_ ?_
    ?_
  · rw [resumption, State.line, State.line, State.owner, State.owner, mutexes]
  · rw [resumption, up]
  · rw [conds]
  · rw [resumption]
    exact ordered.oneMutex

/-- `dfk__scheduler` up to its loop over the local list. -/
theorem spin
    (ordered : Ordered state cond mutex)
    (control : state.control = .spinning)
    (noBatch : state.batch = []) :
    Ordered (spin state) cond mutex := by
  rw [Scheduler.spin]
  split
  · refine ordered.of_same rfl rfl ?_ rfl rfl
    simp [State.up, State.current, control]
  · refine ordered.of_same rfl rfl ?_ rfl rfl
    simp [State.up, State.current, control, noBatch]

omit [DecidableEq ι] in
/-- A round of the loop over the local list, or what is behind the loop. -/
theorem drain
    (ordered : Ordered state cond mutex)
    (control : state.control = .draining) :
    Ordered (drain state) cond mutex := by
  rw [Scheduler.drain]
  rcases isBatch : state.batch with _ | ⟨first, batch⟩
  · dsimp only
    split
    · refine ordered.of_same rfl rfl ?_ rfl rfl
      simp [State.up, State.current, control, isBatch]
    · refine ordered.of_same rfl rfl ?_ rfl rfl
      simp [State.up, State.current, control, isBatch]
  · refine ordered.keep rfl rfl rfl rfl ?_ rfl ordered.oneMutex
    simp [State.emit, State.up, State.current, control, isBatch]

/-- The event loop resumes a fiber. -/
theorem takeReady
    {ready : Ready} {passed elements : List (FdElement ι)}
    {element : FdElement ι}
    (ordered : Ordered state cond mutex)
    (consistent : Consistent state location)
    (isFds : state.fds = passed ++ element :: elements) :
    Ordered (takeReady ready passed elements element state) cond mutex := by
  have isIo : location element.yieldback = some .io := by
    apply consistent.location_of_count
    apply List.count_pos_iff.mpr
    rw [isFds]
    simp
  have fits := consistent.fits element.yieldback
  rw [isIo] at fits
  obtain ⟨events, goesOn⟩ := fits
  have notAt : ¬ (state.resumption element.yieldback).AtCond cond := by
    rw [goesOn]
    exact id
  have goes :=
    @set ι μ κ _ _ _ state element.yieldback mutex cond
      (.io (ready.events element.fd)) ordered notAt id
  rw [Scheduler.takeReady, ioresume_eq]
  apply Ordered.resume
  · exact goes.of_same rfl rfl rfl rfl rfl
  · change (if element.yieldback = element.yieldback then
      Resumption.io (ready.events element.fd) else _) ≠ _
    rw [if_pos rfl]
    simp

/-- The event loop goes on. -/
theorem eventloopMain
    {outcome : Outcome}
    (ordered : Ordered state cond mutex)
    (consistent : Consistent state location)
    (control : state.control = .eventloop) :
    Ordered (eventloopMain state outcome) cond mutex := by
  have suspended {state : State ι μ κ} {eventloop : EventloopAt}
      (ordered : Ordered state cond mutex)
      (control : state.control = .eventloop) :
      Ordered (suspendEventloop state eventloop) cond mutex := by
    refine ordered.of_same rfl rfl ?_ rfl rfl
    simp [suspendEventloop, State.up, State.current, control]
  have goesOn : Ordered (poll state outcome) cond mutex := by
    cases outcome with
    | interrupted => exact ordered.of_same rfl rfl rfl rfl rfl
    | none => exact suspended ordered control
    | ready ready =>
        have dispatched :
            Ordered (dispatch ready [] state.fds state) cond mutex ∧
              (dispatch ready [] state.fds state).control = .eventloop ∧
                ∃ location', Consistent (dispatch ready [] state.fds state)
                  location' := by
          apply @dispatch_preserves ι μ κ _ ready fun state =>
            Ordered state cond mutex ∧ state.control = .eventloop ∧
              ∃ location, Consistent state location
          · rintro state passed element elements isFds
              ⟨ordered, control, location, consistent⟩
            exact ⟨ordered.takeReady consistent isFds, control, _,
              consistent.takeReady control isFds⟩
          · rfl
          · exact ⟨ordered, control, location, consistent⟩
        obtain ⟨ordered', control', -⟩ := dispatched
        rw [poll]
        split
        · exact suspended ordered' control'
        · exact ordered'.of_same rfl rfl rfl rfl rfl
  rw [Scheduler.eventloopMain]
  split
  · split
    · exact suspended ordered control
    · exact goesOn
  · exact goesOn

/-- A fiber goes on in the function in which it was suspended. -/
theorem proceed
    (ordered : Ordered state cond mutex)
    (consistent : Consistent state location)
    (control : state.control = .fiber this)
    (happens : proceed state this = .ok next) :
    Ordered next cond mutex := by
  have fits := consistent.fits this
  rw [consistent.running control] at fits
  rw [Scheduler.proceed] at happens
  rcases goesOn : state.resumption this with
    _ | mutex' | ⟨cond', mutex'⟩ | ⟨cond', mutex'⟩ | events
  · simp only [goesOn] at happens
    cases happens
    exact ordered
  · simp only [goesOn, locked] at happens
    obtain ⟨done, -, happens⟩ := of_bind happens
    cases happens
    exact ordered.set (by rw [goesOn]; exact id) id
  · simp only [goesOn] at happens
    by_cases same : cond' = cond
    · subst same
      obtain rfl := ordered.oneMutex this mutex' (Or.inl goesOn)
      rw [goesOn] at fits
      rw [Scheduler.mutexLock] at happens
      rcases isOwner : (state.mutexes mutex').owner with _ | owner
      · simp only [isOwner, locked] at happens
        obtain ⟨done, -, happens⟩ := of_bind happens
        cases happens
        exact ordered.return_free consistent control goesOn isOwner
      · simp only [isOwner] at happens
        have another : owner ≠ this := by
          rintro rfl
          exact fits isOwner
        rw [if_neg another] at happens
        cases happens
        exact ordered.queue_again consistent control goesOn isOwner another
    · have notAt : ¬ (state.resumption this).AtCond cond := by
        rw [goesOn]
        exact same
      have blockedNotAt :
          ¬ (Resumption.relock cond' mutex').AtCond cond :=
        same
      refine ordered.mutexLock control notAt blockedNotAt
        (fun after resumptions ordered => ?_) happens
      rw [← resumptions] at notAt
      exact ordered.condReturn notAt same
  · simp only [goesOn, locked] at happens
    obtain ⟨done, passed, happens⟩ := of_bind happens
    have isOwner := of_check passed
    cases happens
    by_cases same : cond' = cond
    · subst same
      obtain rfl := ordered.oneMutex this mutex' (Or.inr goesOn)
      exact ordered.return_granted consistent goesOn isOwner
    · refine ordered.condReturn ?_ same
      rw [goesOn]
      exact same
  · simp only [goesOn] at happens
    cases happens
    exact ordered.set (by rw [goesOn]; exact id) id

/-- A fiber makes a call. -/
theorem perform
    {call : Call ι μ κ}
    (ordered : Ordered state cond mutex)
    (consistent : Consistent state location)
    (control : state.control = .fiber this)
    (client : state.resumption this = .client)
    (allowed : call.Allowed state this)
    (isMutex : ∀ other, call = .wait cond other → other = mutex)
    (happens : perform state this call = .ok next) :
    Ordered next cond mutex := by
  have notAt : ¬ (state.resumption this).AtCond cond := by
    rw [client]
    exact id
  cases call with
  | spawn fiber =>
      cases happens
      cases fiber with
      | none => exact ordered
      | some fiber => exact ordered.spawn consistent allowed
  | postpone =>
      cases happens
      have resumed : Ordered (Scheduler.resume state this) cond mutex :=
        ordered.resume (Resumption.ne_of_notAt notAt).1
      exact resumed.leave control notAt id
  | lock mutex' =>
      exact ordered.mutexLock control notAt id (fun _ _ after => after) happens
  | trylock mutex' =>
      cases happens
      rw [mutexTrylock]
      rcases isOwner : (state.mutexes mutex').owner with _ | owner
      · exact ordered.acquire notAt isOwner
      · exact ordered
  | unlock mutex' =>
      rw [Scheduler.perform, mutexUnlock] at happens
      obtain ⟨done, -, happens⟩ := of_bind happens
      obtain ⟨done, passed, happens⟩ := of_bind happens
      cases happens
      exact ordered.release consistent notAt (of_check passed)
  | wait cond' mutex' =>
      refine ordered.condWait consistent control client ?_ happens
      rintro rfl
      exact isMutex mutex' rfl
  | signal cond' =>
      cases happens
      exact ordered.condSignal consistent
  | broadcast cond' =>
      cases happens
      exact ordered.condBroadcast consistent control
  | io socket events =>
      cases happens
      have registered :
          Ordered
            { state with
              iowait := state.iowait + 1
              fds := state.fds ++
                [{ fd := socket, events := events, yieldback := this }] }
            cond mutex :=
        ordered.of_same rfl rfl rfl rfl rfl
      exact registered.leave control notAt id
  | exit =>
      cases happens
      have exited :
          Ordered { state with terminated := state.terminated ++ [this] }
            cond mutex :=
        ordered.of_same rfl rfl rfl rfl rfl
      exact exited.leave control notAt id

/-- Fibers stay in order if those that wait use one mutex. -/
theorem step
    {action : Action ι μ κ}
    (ordered : Ordered state cond mutex)
    (consistent : Consistent state location)
    (isMutex : ∀ other, action = .call (.wait cond other) → other = mutex)
    (steps : Steps state action next) :
    Ordered next cond mutex := by
  obtain ⟨allowed, happens⟩ := steps
  cases action with
  | schedule =>
      rcases allowed with control | control
      · simp only [Scheduler.step, control] at happens
        cases happens
        exact ordered.spin control (consistent.batch (Or.inl control))
      · simp only [Scheduler.step, control] at happens
        cases happens
        exact ordered.drain control
  | poll outcome =>
      have control : state.control = .eventloop := allowed
      simp only [Scheduler.step, control] at happens
      cases happens
      exact ordered.eventloopMain consistent control
  | proceed =>
      obtain ⟨this, control, -⟩ := allowed
      simp only [Scheduler.step, control] at happens
      exact ordered.proceed consistent control happens
  | call call =>
      obtain ⟨this, control, client, allowed⟩ := allowed
      simp only [Scheduler.step, control] at happens
      refine ordered.perform consistent control client allowed ?_ happens
      rintro other rfl
      exact isMutex other rfl

end Ordered

/-- In the beginning nobody waits. -/
theorem ordered_start (main : ι) (cond : κ) (mutex : μ) :
    Ordered (start main : State ι μ κ) cond mutex := by
  refine ⟨?_, fun fiber other => ?_⟩
  · rfl
  · rintro (isWait | isRelock)
    · cases isWait
    · cases isRelock

/-- Fibers are in order in every run in which those that wait use one mutex. -/
theorem ordered_run
    {main : ι} {actions : List (Action ι μ κ)}
    (run : Run Steps (start main) actions state)
    (isMutex :
      ∀ other, Action.call (.wait cond other) ∈ actions → other = mutex) :
    Ordered state cond mutex := by
  have both :
      Ordered state cond mutex ∧ ∃ location, Consistent state location := by
    apply run.invariant ⟨ordered_start main cond mutex, _,
      consistent_start main⟩
    rintro before action after member ⟨ordered, location, consistent⟩ steps
    obtain ⟨result, location', happens, consistent'⟩ :=
      consistent.step steps.1
    rw [steps.2] at happens
    cases happens
    refine ⟨ordered.step consistent ?_ steps, location', consistent'⟩
    rintro other rfl
    exact isMutex other member
  exact both.1

end Dfk.Scheduler
