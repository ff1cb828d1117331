import Dfk.Signal.WokenFibers

/-!
# Records of calls that wait

Calls begin and go on in any order, with any answers of the system.  The list
holds the records of the calls that wait, and no others, until a call returns
because of `sigaction`: its record stays in the list.
-/

namespace Dfk.Signal

open LinkedList Ledger Runs

variable {ι : Type} [DecidableEq ι] {list : StaticList ι}
variable {state next : State list.layout} {fuel : Nat} {havePipe2 : Bool}

/-! ## Steps -/

/-- A call begins and runs until it waits, or goes on and returns. -/
inductive Label (ι : Type) where
  | enter (record : ι) (request : Request) (beyond : Int) (answers : Answers)
  | leave (call : Call ι) (nread : Int) (closed : Nat → Err)

/--
A record is on a stack that no other call is on, a new pipe has two
descriptors that are not open, and only a call that waits goes on.
-/
def Label.Allowed {layout : Layout ι Unit} (state : State layout) :
    Label ι → Prop
  | .enter record _ _ answers =>
      record ∉ state.calls.map Call.record ∧
        ∀ fd ∈ answers.pipe,
          fd.1 ≠ fd.2 ∧ held state.events fd.1 = false ∧
            held state.events fd.2 = false
  | .leave call _ _ => call ∈ state.calls

/-- The part of a call, with its result if it returns. -/
def Label.perform (layout : Layout ι Unit) (havePipe2 : Bool) (fuel : Nat)
    (state : State layout) :
    Label ι → Except Fault (Option Err × State layout)
  | .enter record request beyond answers =>
      Signal.enter layout havePipe2 fuel state record request beyond answers
  | .leave call nread closed => do
      let (err, state) ← Signal.leave layout fuel state call nread closed
      pure (some err, state)

/-- A part of a call is done. -/
def Step (layout : Layout ι Unit) (havePipe2 : Bool) (fuel : Nat)
    (state : State layout) (label : Label ι) (next : State layout) : Prop :=
  label.Allowed state ∧
    ∃ result, label.perform layout havePipe2 fuel state = .ok (result, next)

/-- No `sigaction` of a call fails. -/
def Label.Registers (havePipe2 : Bool) : Label ι → Prop
  | .enter _ request _ answers =>
      (createPipe havePipe2 answers).1 ≠ none →
        ∀ i < request.signals.length, answers.sigaction i = true
  | .leave _ _ _ => True

/--
The list contains exactly the records of the calls that wait, the descriptors
that are open are those of their pipes, none of them has been closed that was
not open, and every part of a call can be done.
-/
structure NoTrace (list : StaticList ι) (havePipe2 : Bool) (fuel : Nat)
    (state : State list.layout) : Prop where
  listed :
    list.layout.traverse .forth fuel state.memory.lists () =
      .ok (state.calls.map Call.record)
  sound : Sound state.events
  isOpen :
    ∀ fd,
      held state.events fd = true ↔
        ∃ call ∈ state.calls, fd = call.pipefd.1 ∨ fd = call.pipefd.2
  goesOn :
    ∀ label : Label ι, label.Allowed state →
      ∃ result next,
        label.perform list.layout havePipe2 fuel state = .ok (result, next)

/-! ## Descriptors -/

section Descriptors

variable {events : List (Event Nat)} {fd : Nat × Nat} {query : Nat}

/-- The descriptors of pipes. -/
def descriptors (calls : List (Call ι)) : List Nat :=
  calls.flatMap fun call => [call.pipefd.1, call.pipefd.2]

omit [DecidableEq ι] in
theorem mem_descriptors {calls : List (Call ι)} :
    query ∈ descriptors calls ↔
      ∃ call ∈ calls, query = call.pipefd.1 ∨ query = call.pipefd.2 := by
  rw [descriptors, List.mem_flatMap]
  simp only [List.mem_pair]

theorem held_open :
    held (events ++ [.obtained fd.1, .obtained fd.2]) query =
      (held events query || decide (query ∈ [fd.1, fd.2])) := by
  rw [List.append_cons, held_concat, held_concat, holdsAfter, holdsAfter,
    Bool.or_assoc]
  congr 1
  rw [← Bool.decide_or, decide_eq_decide, List.mem_pair, eq_comm,
    eq_comm (a := query) (b := fd.2)]

theorem held_closePipe :
    held (events ++ closePipe fd) query =
      (held events query && decide (query ∉ [fd.1, fd.2])) :=
  @held_released_all Nat _ events query [fd.1, fd.2]

/-- Both ends of a pipe are closed while they are open. -/
theorem sound_closePipe
    (sound : Sound events) (different : fd.1 ≠ fd.2)
    (isOpen : held events fd.1 = true ∧ held events fd.2 = true) :
    Sound (events ++ closePipe fd) := by
  have released : Sound (events ++ [fd.1, fd.2].map .released) := by
    apply sound.release_all
    · exact List.nodup_cons.mpr
        ⟨fun member => different (List.mem_singleton.mp member),
          List.nodup_singleton _⟩
    · intro object member
      rcases List.mem_pair.mp member with rfl | rfl
      · exact isOpen.1
      · exact isOpen.2
  exact released

end Descriptors

/-- What happens to descriptors when a pipe is created. -/
theorem createPipe_cases (havePipe2 : Bool) (answers : Answers) :
    createPipe havePipe2 answers = (none, []) ∨
      ∃ fd, fd ∈ answers.pipe ∧
        (createPipe havePipe2 answers =
            (none, [.obtained fd.1, .obtained fd.2] ++ closePipe fd) ∨
          createPipe havePipe2 answers =
            (some fd, [.obtained fd.1, .obtained fd.2])) := by
  rw [createPipe]
  cases isPipe : answers.pipe with
  | none => exact Or.inl rfl
  | some fd =>
      right
      refine ⟨fd, rfl, ?_⟩
      dsimp only
      by_cases pipe2 : havePipe2 = true
      · rw [if_pos pipe2]
        exact Or.inr rfl
      · rw [if_neg pipe2]
        by_cases first : answers.nonblock 0 = true
        · rw [if_neg (not_not.mpr first)]
          by_cases second : answers.nonblock 1 = true
          · rw [if_neg (not_not.mpr second)]
            exact Or.inr rfl
          · rw [if_pos second]
            exact Or.inl rfl
        · rw [if_pos first]
          exact Or.inl rfl

/-! ## The invariant -/

/-- What holds as long as no `sigaction` fails. -/
structure Holds (list : StaticList ι) (state : State list.layout) : Prop where
  represents :
    list.Represents state.memory.lists fun _ => state.calls.map Call.record
  sound : Sound state.events
  apart : (descriptors state.calls).Nodup
  isOpen :
    ∀ fd, held state.events fd = decide (fd ∈ descriptors state.calls)

theorem holds_start (list : StaticList ι) : Holds list (.start list) where
  represents := list.isEmpty
  sound := sound_nil
  apart := List.nodup_nil
  isOpen := fun _ => rfl

/-- A pipe that is created and closed again leaves the descriptors. -/
theorem Holds.closed
    (holds : Holds list state) {fd : Nat × Nat}
    (isNew :
      fd.1 ≠ fd.2 ∧ held state.events fd.1 = false ∧
        held state.events fd.2 = false) :
    Sound (state.events ++ [.obtained fd.1, .obtained fd.2]) ∧
      Sound (state.events ++
        ([.obtained fd.1, .obtained fd.2] ++ closePipe fd)) ∧
      ∀ query,
        held (state.events ++
            ([.obtained fd.1, .obtained fd.2] ++ closePipe fd)) query =
          held state.events query := by
  obtain ⟨different, first, second⟩ := isNew
  have opened : Sound (state.events ++ [.obtained fd.1, .obtained fd.2]) := by
    rw [List.append_cons]
    exact (holds.sound.obtained _).obtained _
  refine ⟨opened, ?_, ?_⟩
  · rw [← List.append_assoc]
    apply sound_closePipe opened different
    rw [held_open, held_open]
    simp
  · intro query
    rw [← List.append_assoc, held_closePipe, held_open]
    by_cases isEnd : query ∈ [fd.1, fd.2]
    · have notHeld : held state.events query = false := by
        rcases List.mem_pair.mp isEnd with rfl | rfl
        · exact first
        · exact second
      rw [notHeld, decide_eq_false (not_not.mpr isEnd), Bool.and_false]
    · rw [decide_eq_true isEnd, decide_eq_false isEnd, Bool.and_true,
        Bool.or_false]

omit [DecidableEq ι] in
/-- One more call that waits. -/
theorem descriptors_snoc (calls : List (Call ι)) (call : Call ι) :
    descriptors (calls ++ [call]) =
      descriptors calls ++ [call.pipefd.1, call.pipefd.2] := by
  rw [descriptors, List.flatMap_append]
  rfl

/-- A call with a pipe of its own waits. -/
theorem Holds.waits
    (holds : Holds list state) {record : ι} {pipefd : Nat × Nat}
    {memory : Memory list.layout}
    (represents :
      list.Represents memory.lists fun _ =>
        state.calls.map Call.record ++ [record])
    (isNew :
      pipefd.1 ≠ pipefd.2 ∧ held state.events pipefd.1 = false ∧
        held state.events pipefd.2 = false) :
    Holds list
      { memory
        events :=
          state.events ++ [.obtained pipefd.1, .obtained pipefd.2]
        calls := state.calls ++ [{ record, pipefd }] } where
  represents := by
    rw [List.map_append]
    exact represents
  sound := (holds.closed isNew).1
  apart := by
    obtain ⟨different, first, second⟩ := isNew
    rw [holds.isOpen] at first second
    have firstNew := of_decide_eq_false first
    have secondNew := of_decide_eq_false second
    rw [descriptors_snoc]
    refine List.nodup_append.mpr ⟨holds.apart, ?_, ?_⟩
    · exact List.nodup_cons.mpr
        ⟨fun member => different (List.mem_singleton.mp member),
          List.nodup_singleton _⟩
    · rintro query member other isEnd rfl
      rcases List.mem_pair.mp isEnd with rfl | rfl
      · exact firstNew member
      · exact secondNew member
  isOpen := by
    intro query
    rw [held_open, holds.isOpen, descriptors_snoc, ← Bool.decide_or,
      decide_eq_decide, List.mem_append]

/--
A call begins without a fault.  If no `sigaction` fails the invariant holds
again, and otherwise the record stays in the list of the calls that wait.
-/
theorem Holds.enter
    (havePipe2 : Bool) (holds : Holds list state) (enough : state.calls.length + 1 < fuel)
    {record : ι} {request : Request} {beyond : Int} {answers : Answers}
    (allowed :
      (Label.enter record request beyond answers).Allowed state) :
    ∃ result next,
      Signal.enter list.layout havePipe2 fuel state record request beyond
          answers = .ok (result, next) ∧
        next.calls.length ≤ state.calls.length + 1 ∧
        ((Label.enter record request beyond answers).Registers havePipe2 →
          Holds list next) ∧
        (¬ (Label.enter record request beyond answers).Registers havePipe2 →
          next.calls = state.calls ∧
            list.Represents next.memory.lists fun _ =>
              state.calls.map Call.record ++ [record]) := by
  obtain ⟨isNew, fresh⟩ := allowed
  rw [Signal.enter]
  rcases createPipe_cases havePipe2 answers with
    failed | ⟨fd, isPipe, failed | created⟩
  · rw [failed]
    dsimp only
    refine ⟨_, _, rfl, Nat.le_succ _, fun _ => ?_, fun fails => ?_⟩
    · rw [List.append_nil]
      exact holds
    · exact absurd (fun some => absurd (by rw [failed]) some) fails
  · rw [failed]
    dsimp only
    obtain ⟨-, sound, same⟩ := holds.closed (fresh fd isPipe)
    refine ⟨_, _, rfl, Nat.le_succ _, fun _ => ?_, fun fails => ?_⟩
    · exact ⟨holds.represents, sound, holds.apart,
        fun query => (same query).trans (holds.isOpen query)⟩
    · exact absurd (fun some => absurd (by rw [failed]) some) fails
  · have short : (state.calls.map Call.record).length + 1 < fuel := by
      rw [List.length_map]
      exact enough
    obtain ⟨written, appends, isAppended⟩ :=
      list.append holds.represents short isNew
    rw [created]
    dsimp only
    rw [appends, ok_bind]
    by_cases succeed :
        (List.range request.signals.length).all answers.sigaction = true
    · rw [if_pos succeed]
      refine ⟨_, _, rfl, ?_, fun _ => ?_, fun fails => ?_⟩
      · rw [List.length_append]
        exact Nat.le_refl _
      · exact holds.waits isAppended (fresh fd isPipe)
      · refine absurd (fun _ i inside => ?_) fails
        exact List.all_eq_true.mp succeed i (List.mem_range.mpr inside)
    · rw [if_neg succeed]
      refine ⟨_, _, rfl, Nat.le_succ _, fun registers => ?_, fun _ => ?_⟩
      · apply absurd _ succeed
        apply List.all_eq_true.mpr
        intro i inside
        apply registers _ i (List.mem_range.mp inside)
        rw [created]
        exact Option.some_ne_none _
      · exact ⟨rfl, isAppended⟩

/-- A call that waits goes on without a fault, and leaves nothing. -/
theorem Holds.leave
    (holds : Holds list state) (enough : state.calls.length + 1 < fuel)
    {call : Call ι} (member : call ∈ state.calls)
    (nread : Int) (closed : Nat → Err) :
    ∃ err next,
      Signal.leave list.layout fuel state call nread closed =
          .ok (err, next) ∧
        next.calls.length ≤ state.calls.length ∧ Holds list next := by
  have short : (state.calls.map Call.record).length + 1 < fuel := by
    rw [List.length_map]
    exact enough
  obtain ⟨it, written, finds, erases, isErased⟩ :=
    list.erase holds.represents short (List.mem_map_of_mem member)
  refine ⟨_, _, by rw [Signal.leave, finds, ok_bind, erases]; rfl, ?_, ?_⟩
  · exact List.length_erase_le
  · have ends :
        (descriptors state.calls).Perm
          ([call.pipefd.1, call.pipefd.2] ++
            descriptors (state.calls.erase call)) :=
      (List.perm_cons_erase member).flatMap_right _
    have apart := List.nodup_append.mp (ends.nodup_iff.mp holds.apart)
    have different : call.pipefd.1 ≠ call.pipefd.2 := fun same =>
      (List.nodup_cons.mp apart.1).1 (List.mem_singleton.mpr same)
    have isEnd (query : Nat) (isEnd : query ∈ [call.pipefd.1, call.pipefd.2]) :
        held state.events query = true := by
      rw [holds.isOpen]
      exact decide_eq_true
        (ends.mem_iff.mpr (List.mem_append_left _ isEnd))
    refine ⟨?_, ?_, apart.2.1, ?_⟩
    · have different := list.faithful.noDuplicates holds.represents ()
      dsimp only
      rw [← map_erase_of_nodup different member]
      exact isErased
    · apply sound_closePipe holds.sound different
      exact ⟨isEnd _ (List.mem_cons_self ..),
        isEnd _ (List.mem_cons_of_mem _ (List.mem_singleton_self _))⟩
    · intro query
      rw [held_closePipe, holds.isOpen, ← Bool.decide_and, decide_eq_decide,
        ends.mem_iff, List.mem_append]
      constructor
      · exact fun both => both.1.resolve_left both.2
      · intro isLeft
        exact ⟨Or.inr isLeft, fun isEnd => apart.2.2 _ isEnd _ isLeft rfl⟩

/-! ## Fibers that a handler finds -/

section Registered

variable {beyond : ι → Int} {waiting : List (Waiting ι)}

/-- A call that waits is registered, with the word behind its argument. -/
theorem Registered.enter
    {record : ι} {request : Request} {word : Int} {answers : Answers}
    (registered : Registered list state.memory beyond waiting)
    (enough : waiting.length + 1 < fuel)
    (isNew : record ∉ waiting.map Waiting.hook)
    (enters :
      Signal.enter list.layout havePipe2 fuel state record request word
        answers = .ok (none, next)) :
    ∃ wfd,
      Registered list next.memory (Function.update beyond record word)
        (waiting ++ [{ hook := record, wfd, request }]) := by
  have short : (waiting.map Waiting.hook).length + 1 < fuel := by
    rw [List.length_map]
    exact enough
  obtain ⟨written, appends, isAppended⟩ :=
    list.append registered.represents short isNew
  rw [Signal.enter] at enters
  cases created : (createPipe havePipe2 answers).1 with
  | none =>
      rw [created] at enters
      cases enters
  | some pipefd =>
      rw [created] at enters
      dsimp only at enters
      rw [appends, ok_bind] at enters
      by_cases succeed :
          (List.range request.signals.length).all answers.sigaction = true
      · rw [if_pos succeed] at enters
        cases enters
        refine ⟨pipefd.2, ?_, ?_⟩
        · rw [List.map_append]
          exact isAppended
        · intro fiber member
          rcases List.mem_append.mp member with earlier | isLast
          · have distinct : fiber.hook ≠ record := fun same =>
              isNew (same ▸ List.mem_map_of_mem earlier)
            dsimp only
            rw [Function.update_of_ne distinct, Function.update_of_ne distinct]
            exact registered.records fiber earlier
          · rw [List.mem_singleton.mp isLast]
            dsimp only
            rw [Function.update_self, Function.update_self]
      · rw [if_neg succeed] at enters
        cases enters

/-- A call that returns is not registered any more. -/
theorem Registered.leave
    {fiber : Waiting ι} {call : Call ι} {nread : Int} {closed : Nat → Err}
    {err : Err}
    (registered : Registered list state.memory beyond waiting)
    (enough : waiting.length + 1 < fuel)
    (member : fiber ∈ waiting) (isRecord : call.record = fiber.hook)
    (leaves :
      Signal.leave list.layout fuel state call nread closed =
        .ok (err, next)) :
    Registered list next.memory beyond (waiting.erase fiber) := by
  have short : (waiting.map Waiting.hook).length + 1 < fuel := by
    rw [List.length_map]
    exact enough
  obtain ⟨it, written, finds, erases, isErased⟩ :=
    list.erase registered.represents short (List.mem_map_of_mem member)
  rw [Signal.leave, isRecord, finds, ok_bind, erases] at leaves
  cases leaves
  refine ⟨?_, fun other isOther => ?_⟩
  · have different := list.faithful.noDuplicates registered.represents ()
    dsimp only
    rw [← map_erase_of_nodup different member]
    exact isErased
  · exact registered.records other (List.mem_of_mem_erase isOther)

end Registered

/-! ## Runs -/

theorem Holds.noTrace
    (holds : Holds list state) (enough : state.calls.length + 1 < fuel) :
    NoTrace list havePipe2 fuel state where
  listed := by
    apply list.traverse holds.represents
    rw [List.length_map]
    exact enough
  sound := holds.sound
  isOpen := by
    intro fd
    rw [holds.isOpen, decide_eq_true_iff, mem_descriptors]
  goesOn := by
    intro label allowed
    cases label with
    | enter record request beyond answers =>
        obtain ⟨result, next, enters, -⟩ :=
          holds.enter havePipe2 enough allowed
        exact ⟨result, next, enters⟩
    | leave call nread closed =>
        obtain ⟨err, next, leaves, -⟩ :=
          holds.leave enough allowed nread closed
        refine ⟨some err, next, ?_⟩
        rw [Label.perform, leaves]
        rfl

/--
A step keeps the invariant if no `sigaction` fails, and leaves a record behind
if one does.
-/
theorem Holds.step
    {label : Label ι}
    (holds : Holds list state) (enough : state.calls.length + 2 < fuel)
    (step : Step list.layout havePipe2 fuel state label next) :
    next.calls.length ≤ state.calls.length + 1 ∧
      (label.Registers havePipe2 → Holds list next) ∧
      (NoTrace list havePipe2 fuel next → label.Registers havePipe2) := by
  obtain ⟨allowed, result, performs⟩ := step
  cases label with
  | enter record request beyond answers =>
      obtain ⟨result', next', enters, short, keeps, breaks⟩ :=
        holds.enter havePipe2 (Nat.lt_of_succ_lt enough) allowed
      rw [Label.perform, enters] at performs
      cases performs
      refine ⟨short, keeps, fun noTrace => by_contra fun fails => ?_⟩
      obtain ⟨same, represents⟩ := breaks fails
      have listed := noTrace.listed
      rw [same, list.traverse represents (by simpa using enough)] at listed
      have lengths := congrArg List.length (Except.ok.inj listed)
      rw [List.length_append] at lengths
      exact absurd lengths (Nat.succ_ne_self _)
  | leave call nread closed =>
      obtain ⟨err, next', leaves, short, keeps⟩ :=
        holds.leave (Nat.lt_of_succ_lt enough) allowed nread closed
      rw [Label.perform, leaves] at performs
      cases performs
      exact ⟨Nat.le_succ_of_le short, fun _ => keeps, fun _ => trivial⟩

/-- The invariant holds after a run in which no `sigaction` fails. -/
theorem holds_of_run
    {labels : List (Label ι)} {final : State list.layout}
    (run : Run (Step list.layout havePipe2 fuel) (.start list) labels final)
    (enough : labels.length + 1 < fuel)
    (registers : ∀ label ∈ labels, label.Registers havePipe2) :
    Holds list final ∧ final.calls.length ≤ labels.length := by
  induction run with
  | nil => exact ⟨holds_start list, Nat.le_refl _⟩
  | @snoc middle final labels label run last inductionHypothesis =>
      rw [List.length_append, List.length_singleton] at enough ⊢
      obtain ⟨holds, short⟩ :=
        inductionHypothesis (Nat.lt_of_succ_lt enough) fun other member =>
          registers other (List.mem_append_left _ member)
      obtain ⟨longer, keeps, -⟩ :=
        holds.step ((Nat.add_le_add_right short 2).trans_lt enough) last
      refine ⟨keeps ?_, longer.trans (Nat.succ_le_succ short)⟩
      exact registers label
        (List.mem_append_right _ (List.mem_singleton_self _))

/-- What holds in all states of a run. -/
def Throughout (list : StaticList ι) (havePipe2 : Bool) (fuel : Nat)
    (labels : List (Label ι)) (property : State list.layout → Prop) : Prop :=
  ∀ before after middle,
    labels = before ++ after →
      Run (Step list.layout havePipe2 fuel) (.start list) before middle →
        property middle

/-- Calls leave no trace in any state, if and only if no `sigaction` fails. -/
theorem noTrace_iff
    {labels : List (Label ι)} {final : State list.layout}
    (run : Run (Step list.layout havePipe2 fuel) (.start list) labels final)
    (enough : labels.length + 1 < fuel) :
    Throughout list havePipe2 fuel labels (NoTrace list havePipe2 fuel) ↔
      ∀ label ∈ labels, label.Registers havePipe2 := by
  constructor
  · intro throughout
    induction run with
    | nil =>
        intro label member
        cases member
    | @snoc middle final labels label run last inductionHypothesis =>
        rw [List.length_append, List.length_singleton] at enough
        have registers :=
          inductionHypothesis (Nat.lt_of_succ_lt enough)
            fun before after state split =>
              throughout before (after ++ [label]) state
                (by rw [split, List.append_assoc])
        obtain ⟨holds, short⟩ :=
          holds_of_run run (Nat.lt_of_succ_lt enough) registers
        have isLast :=
          (holds.step ((Nat.add_le_add_right short 2).trans_lt enough)
            last).2.2
            (throughout _ [] final (List.append_nil _).symm (run.snoc last))
        intro other member
        rcases List.mem_append.mp member with earlier | isLabel
        · exact registers other earlier
        · rw [List.mem_singleton.mp isLabel]
          exact isLast
  · intro registers before after middle split run'
    subst split
    rw [List.length_append] at enough
    obtain ⟨holds, short⟩ :=
      holds_of_run run'
        ((Nat.add_le_add_right (Nat.le_add_right _ _) 1).trans_lt enough)
        fun label member => registers label (List.mem_append_left _ member)
    apply holds.noTrace
    omega

/--
Calls of any fibers leave no trace in any state of a run, if and only if no
`sigaction` fails in it.
-/
theorem sigwait_leaves_no_trace_iff
    (build : Build) {width : Nat}
    (labels : List (Label (XorChain.Address width)))
    {final : State (build.waitingFibers width).layout}
    (run :
      Run (Step (build.waitingFibers width).layout build.havePipe2 fuel)
        (.start (build.waitingFibers width)) labels final)
    (enough : labels.length + 1 < fuel) :
    Throughout (build.waitingFibers width) build.havePipe2 fuel labels
        (NoTrace (build.waitingFibers width) build.havePipe2 fuel) ↔
      ∀ label ∈ labels, label.Registers build.havePipe2 :=
  noTrace_iff run enough

/-- Without `pipe2`, and with two pointers in a hook. -/
def plainBuild : Build where
  memoryOptimized := false
  constantTimeSize := true
  havePipe2 := false

/-- Two fibers wait, and the first one goes on. -/
def twoWaits : List (Label (XorChain.Address 64)) :=
  [.enter firstHook (.sigwait2 10 12) 0 (allSucceed (5, 6)),
    .enter secondHook (.sigwait 15) 15 (allSucceed (7, 8)),
    .leave ⟨firstHook, (5, 6)⟩ 1 fun _ => .ok]

theorem sigwait_leaves_no_trace_iff_two :
    ∃ final,
      Run (Step (plainBuild.waitingFibers 64).layout false 5)
          (.start (plainBuild.waitingFibers 64)) twoWaits final ∧
        Throughout (plainBuild.waitingFibers 64) false 5 twoWaits
          (NoTrace (plainBuild.waitingFibers 64) false 5) := by
  have run :
      ∃ final,
        Run (Step (plainBuild.waitingFibers 64).layout false 5)
          (.start (plainBuild.waitingFibers 64)) twoWaits final := by
    change ∃ final,
      Run (Step (plainBuild.waitingFibers 64).layout false 5)
        (.start (plainBuild.waitingFibers 64))
        ([] ++
          [Label.enter firstHook (.sigwait2 10 12) 0 (allSucceed (5, 6))] ++
          [Label.enter secondHook (.sigwait 15) 15 (allSucceed (7, 8))] ++
          [Label.leave ⟨firstHook, (5, 6)⟩ 1 fun _ => .ok]) final
    refine ⟨_, .snoc (.snoc (.snoc (.nil _)
      ⟨⟨by decide, ?_⟩, _, rfl⟩) ⟨⟨by decide, ?_⟩, _, rfl⟩)
      ⟨List.mem_cons_self .., _, rfl⟩⟩
    · intro fd isPipe
      cases isPipe
      decide
    · intro fd isPipe
      cases isPipe
      decide
  obtain ⟨final, run⟩ := run
  refine ⟨final, run, ?_⟩
  apply (sigwait_leaves_no_trace_iff plainBuild twoWaits run (by decide)).mpr
  intro label member
  simp only [twoWaits, List.mem_cons, List.not_mem_nil, or_false] at member
  rcases member with rfl | rfl | rfl
  · exact fun _ _ _ => rfl
  · exact fun _ _ _ => rfl
  · trivial

/-- A call for signal 9, for which `sigaction` fails. -/
def refusedWait : Label (XorChain.Address 64) :=
  .enter firstHook (.sigwait 9) 0
    { pipe := some (5, 6)
      nonblock := fun _ => true
      sigaction := fun _ => false }

/-- The record of a call that has returned is in the list. -/
theorem refused_wait_leaves_record :
    ∃ final,
      Run (Step (plainBuild.waitingFibers 64).layout false 3)
          (.start (plainBuild.waitingFibers 64)) [refusedWait] final ∧
        final.calls = [] ∧
        (plainBuild.waitingFibers 64).layout.traverse .forth 3
            final.memory.lists () = .ok [firstHook] ∧
        ¬ NoTrace (plainBuild.waitingFibers 64) false 3 final := by
  refine ⟨_, .snoc (.nil _) ⟨⟨by decide, ?_⟩, _, rfl⟩, rfl, rfl, ?_⟩
  · intro fd isPipe
    cases isPipe
    decide
  · intro noTrace
    cases noTrace.listed

end Dfk.Signal
