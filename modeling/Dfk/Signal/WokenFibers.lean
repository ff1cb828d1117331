import Dfk.Signal.Source

/-!
# Fibers that a signal wakes

A record has room for two signals.  Where a call names one, the word behind its
argument is taken for the second one, and decides whether other signals wake
the fiber.
-/

namespace Dfk.Signal

open LinkedList

variable {ι : Type} [DecidableEq ι] {list : StaticList ι}
variable {memory : Memory list.layout} {fuel : Nat} {signum : Int}

/-- Whether a record is for a signal. -/
def WaitingFiber.Awaits (wf : WaitingFiber) (signum : Int) : Prop :=
  wf.signum0 = signum ∨ wf.signum1 = signum

instance (wf : WaitingFiber) (signum : Int) : Decidable (wf.Awaits signum) :=
  inferInstanceAs (Decidable (_ ∨ _))

/-! ## The handler -/

/-- The loop writes to the pipes of the records from its iterator on. -/
theorem wake_from
    {hooks : List ι} {stop : list.layout.It}
    (represents : list.Represents memory.lists fun _ => hooks)
    (enough : hooks.length + 1 < fuel)
    (isEnd : list.layout.value stop = none) (rounds : Nat) :
    ∀ {place : Nat} {it : list.layout.It} {written : List Nat},
      list.Stands hooks place it →
        hooks.length < place + rounds → place ≤ hooks.length →
          wake list.layout fuel memory stop signum rounds it written =
            .ok (written ++
              (((hooks.drop place).map memory.records).filter
                (WaitingFiber.Awaits · signum)).map WaitingFiber.wfd) := by
  induction rounds with
  | zero =>
      intro place it written stands left inside
      exact absurd left (Nat.not_lt.mpr inside)
  | succ rounds inductionHypothesis =>
      intro place it written stands left inside
      have equal := list.equal_end represents enough stands isEnd
      rw [wake, equal, ok_bind]
      change (if decide (hooks[place]? = none) = true then _ else _) = _
      rcases inside.eq_or_lt with atEnd | before
      · have none : hooks[place]? = none :=
          List.getElem?_eq_none atEnd.ge
        rw [if_pos (decide_eq_true none), List.drop_eq_nil_of_le atEnd.ge,
          List.map_nil, List.filter_nil, List.map_nil, List.append_nil]
        rfl
      · have here : hooks[place]? = some hooks[place] :=
          List.getElem?_eq_getElem before
        have value := list.faithful.value stands
        obtain ⟨it', goes, stands'⟩ :=
          list.next represents enough stands before
        have notEnd : ¬ decide (hooks[place]? = none) = true := by
          rw [here]
          exact Bool.false_ne_true
        rw [if_neg notEnd, value, here, deref_some, ok_bind]
        dsimp only
        rw [goes, ok_bind, inductionHypothesis stands' (by omega) before,
          List.drop_eq_getElem_cons before, List.map_cons]
        rw [List.filter_cons]
        by_cases awaits : (memory.records hooks[place]).Awaits signum
        · have isSignal : _ ∨ _ := awaits
          rw [if_pos (decide_eq_true awaits), List.map_cons, if_pos isSignal,
            List.append_assoc]
          rfl
        · have noSignal : ¬ (_ ∨ _) := awaits
          have notKept := fun kept => awaits (of_decide_eq_true kept)
          rw [if_neg noSignal, if_neg notKept]

/-- The handler writes to the pipes of all records for the signal. -/
theorem sighandler_writes
    {hooks : List ι}
    (represents : list.Represents memory.lists fun _ => hooks)
    (enough : hooks.length + 1 < fuel) :
    sighandler list.layout fuel memory signum =
      .ok (((hooks.map memory.records).filter
        (WaitingFiber.Awaits · signum)).map WaitingFiber.wfd) := by
  have room : Room fuel fun _ : Unit => hooks := fun _ => enough
  obtain ⟨it, begins, stands⟩ :=
    list.faithful.begin represents room .forth ()
  obtain ⟨stop, ends, standsEnd⟩ :=
    list.faithful.listEnd represents room .forth ()
  have isEnd : list.layout.value stop = none := by
    rw [list.faithful.value standsEnd]
    exact List.getElem?_eq_none (Nat.le_refl _)
  rw [sighandler, begins, ok_bind, ends, ok_bind,
    wake_from represents enough isEnd fuel stands (by omega) (Nat.zero_le _)]
  rfl

/-! ## Fibers -/

/-- A fiber that waits: the hook of its record, its pipe, and its call. -/
structure Waiting (ι : Type) where
  hook : ι
  wfd : Nat
  request : Request
  deriving DecidableEq

/--
The fibers that wait are in the list, with the records their calls stored.
Behind the argument of each call the memory holds a word.
-/
structure Registered (list : StaticList ι) (memory : Memory list.layout)
    (beyond : ι → Int) (waiting : List (Waiting ι)) : Prop where
  represents :
    list.Represents memory.lists fun _ => waiting.map Waiting.hook
  records :
    ∀ fiber ∈ waiting,
      memory.records fiber.hook =
        fiber.request.record (beyond fiber.hook) fiber.wfd

/-- What the handler writes to, by the calls. -/
def woken (beyond : ι → Int) (waiting : List (Waiting ι)) (signum : Int) :
    List Nat :=
  (waiting.filter fun fiber =>
    (fiber.request.record (beyond fiber.hook) fiber.wfd).Awaits signum).map
      Waiting.wfd

/-- The pipes of the fibers that named the signal. -/
def named (waiting : List (Waiting ι)) (signum : Int) : List Nat :=
  (waiting.filter fun fiber => signum ∈ fiber.request.signals).map Waiting.wfd

/-- The handler writes to the pipes of exactly the fibers that are named. -/
def WakesNamed (list : StaticList ι) (fuel : Nat)
    (memory : Memory list.layout) (waiting : List (Waiting ι))
    (signum : Int) : Prop :=
  sighandler list.layout fuel memory signum = .ok (named waiting signum)

variable {beyond : ι → Int} {waiting : List (Waiting ι)}

theorem sighandler_woken
    (registered : Registered list memory beyond waiting)
    (enough : waiting.length + 1 < fuel) :
    sighandler list.layout fuel memory signum =
      .ok (woken beyond waiting signum) := by
  have short : (waiting.map Waiting.hook).length + 1 < fuel := by
    rw [List.length_map]
    exact enough
  have shown :
      (waiting.map Waiting.hook).map memory.records =
        waiting.map fun fiber =>
          fiber.request.record (beyond fiber.hook) fiber.wfd := by
    rw [List.map_map]
    exact List.map_congr_left registered.records
  rw [sighandler_writes registered.represents short, shown, List.filter_map,
    List.map_map]
  rfl

/-- What a record is for: the signals that are named, and the word beyond. -/
theorem awaits_record_iff
    (request : Request) (word : Int) (wfd : Nat) :
    (request.record word wfd).Awaits signum ↔
      signum ∈ request.signals ∨
        (∃ asked, request = .sigwait asked) ∧ word = signum := by
  cases request with
  | sigwait asked =>
      have single : signum ∈ (Request.sigwait asked).signals ↔ asked = signum :=
        List.mem_singleton.trans eq_comm
      rw [single]
      exact or_congr_right (and_iff_right ⟨asked, rfl⟩).symm
  | sigwait2 signum1 signum2 =>
      have pair :
          signum ∈ (Request.sigwait2 signum1 signum2).signals ↔
            signum1 = signum ∨ signum2 = signum := by
        rw [Request.signals, List.mem_pair, eq_comm, eq_comm (a := signum)]
      rw [pair]
      refine (or_iff_left ?_).symm
      rintro ⟨⟨asked, isSingle⟩, -⟩
      cases isSingle

/-- Where more elements are kept, nothing else is, if as many are kept. -/
theorem filter_of_same_length
    {α : Type} {elements : List α} {more fewer : α → Bool}
    (fewer_more : ∀ element ∈ elements, fewer element → more element)
    (same : (elements.filter more).length = (elements.filter fewer).length) :
    ∀ element ∈ elements, more element → fewer element := by
  have again :
      (elements.filter more).filter fewer = elements.filter fewer := by
    rw [List.filter_filter]
    apply List.filter_congr
    intro element member
    cases kept : fewer element with
    | false => rfl
    | true => rw [fewer_more element member kept]; rfl
  rw [← again] at same
  intro element member isMore
  exact List.length_filter_eq_length_iff.mp same.symm element
    (List.mem_filter.mpr ⟨member, isMore⟩)

/-- The word beyond is not taken for the signal, unless it was asked for. -/
def Spared (beyond : ι → Int) (waiting : List (Waiting ι)) (signum : Int) :
    Prop :=
  ∀ fiber ∈ waiting, ∀ asked,
    fiber.request = .sigwait asked → beyond fiber.hook = signum →
      asked = signum

omit [DecidableEq ι] in
theorem woken_eq_named_iff :
    woken beyond waiting signum = named waiting signum ↔
      Spared beyond waiting signum := by
  constructor
  · intro same fiber member asked isRequest isWord
    have lengths := congrArg List.length same
    rw [woken, named, List.length_map, List.length_map] at lengths
    have kept := filter_of_same_length (by
      intro other _ isNamed
      exact decide_eq_true
        ((awaits_record_iff _ _ _).mpr (Or.inl (of_decide_eq_true isNamed))))
      lengths fiber member
    have isAwaited :
        (fiber.request.record (beyond fiber.hook) fiber.wfd).Awaits signum :=
      (awaits_record_iff _ _ _).mpr (Or.inr ⟨⟨asked, isRequest⟩, isWord⟩)
    have isNamed := of_decide_eq_true (kept (decide_eq_true isAwaited))
    rw [isRequest] at isNamed
    exact (List.mem_singleton.mp isNamed).symm
  · intro spared
    rw [woken, named]
    congr 1
    apply List.filter_congr
    intro fiber member
    rw [decide_eq_decide, awaits_record_iff]
    apply or_iff_left_of_imp
    rintro ⟨⟨asked, isRequest⟩, isWord⟩
    rw [isRequest, spared fiber member asked isRequest isWord]
    exact List.mem_singleton_self _

/-- The lists of a program that appends one hook after the other. -/
theorem exists_represents
    (list : StaticList ι) {hooks : List ι} (different : hooks.Nodup) :
    ∃ lists, list.Represents lists fun _ => hooks := by
  induction hooks using List.reverseRecOn with
  | nil => exact ⟨list.zero, list.isEmpty⟩
  | append_singleton hooks hook inductionHypothesis =>
      obtain ⟨before, -, apart⟩ := List.nodup_append.mp different
      obtain ⟨lists, represents⟩ := inductionHypothesis before
      have isNew : hook ∉ hooks := fun member =>
        apart hook member hook (List.mem_singleton_self _) rfl
      obtain ⟨written, -, isAppended⟩ :=
        list.append represents (Nat.lt_succ_self _) isNew
      exact ⟨written, isAppended⟩

/-- Any fibers can wait, whatever the memory behind their arguments holds. -/
theorem exists_registered
    (list : StaticList ι) (beyond : ι → Int) {waiting : List (Waiting ι)}
    (different : (waiting.map Waiting.hook).Nodup) :
    ∃ memory, Registered list memory beyond waiting := by
  obtain ⟨lists, represents⟩ := exists_represents list different
  have stored :
      ∃ records : ι → WaitingFiber,
        ∀ fiber ∈ waiting,
          records fiber.hook =
            fiber.request.record (beyond fiber.hook) fiber.wfd := by
    clear represents
    induction waiting with
    | nil =>
        refine ⟨fun _ => ⟨0, 0, 0⟩, ?_⟩
        intro fiber member
        cases member
    | cons first waiting inductionHypothesis =>
        obtain ⟨isNew, different⟩ := List.nodup_cons.mp different
        obtain ⟨records, stored⟩ := inductionHypothesis different
        refine ⟨Function.update records first.hook
          (first.request.record (beyond first.hook) first.wfd), ?_⟩
        intro fiber member
        rcases List.mem_cons.mp member with rfl | later
        · exact Function.update_self ..
        · have distinct : fiber.hook ≠ first.hook := fun same =>
            isNew (same ▸ List.mem_map_of_mem later)
          rw [Function.update_of_ne distinct]
          exact stored fiber later
  obtain ⟨records, stored⟩ := stored
  exact ⟨⟨lists, records⟩, represents, stored⟩

/-- What the memory behind the arguments holds makes no difference. -/
def Independent (list : StaticList ι) (fuel : Nat)
    (waiting : List (Waiting ι)) (signum : Int) : Prop :=
  ∀ beyond beyond' memory memory',
    Registered list memory beyond waiting →
      Registered list memory' beyond' waiting →
        sighandler list.layout fuel memory signum =
          sighandler list.layout fuel memory' signum

theorem independent_iff
    (different : (waiting.map Waiting.hook).Nodup)
    (enough : waiting.length + 1 < fuel) :
    Independent list fuel waiting signum ↔
      ∀ fiber ∈ waiting, ∀ asked,
        fiber.request = .sigwait asked → asked = signum := by
  constructor
  · intro independent
    -- One memory holds the signal behind all arguments, the other one nowhere.
    obtain ⟨memory, registered⟩ :=
      exists_registered list (fun _ => signum) different
    obtain ⟨memory', registered'⟩ :=
      exists_registered list (fun _ => signum + 1) different
    have same := independent _ _ _ _ registered registered'
    rw [sighandler_woken registered enough,
      sighandler_woken registered' enough] at same
    have spared : Spared (fun _ => signum + 1) waiting signum := by
      intro fiber member asked isRequest isWord
      exact absurd isWord (Int.ne_of_gt (Int.lt_succ signum))
    have isNamed := (Except.ok.inj same).trans (woken_eq_named_iff.mpr spared)
    intro fiber member asked isRequest
    exact woken_eq_named_iff.mp isNamed fiber member asked isRequest rfl
  · intro asked beyond beyond' memory memory' registered registered'
    have spared (word : ι → Int) : Spared word waiting signum :=
      fun fiber member signal isRequest _ =>
        asked fiber member signal isRequest
    rw [sighandler_woken registered enough,
      sighandler_woken registered' enough,
      woken_eq_named_iff.mpr (spared beyond),
      woken_eq_named_iff.mpr (spared beyond')]

/--
The handler wakes the fibers that named a signal, if and only if no fiber that
waits for another one has this signal behind its argument.  What is behind the
arguments makes no difference, if and only if there is no such fiber.
-/
theorem sighandler_wakes_named_iff
    (build : Build) {width : Nat}
    (waiting : List (Waiting (XorChain.Address width))) (signum : Int)
    (different : (waiting.map Waiting.hook).Nodup)
    (enough : waiting.length + 1 < fuel) :
    (∀ beyond memory,
        Registered (build.waitingFibers width) memory beyond waiting →
          (WakesNamed (build.waitingFibers width) fuel memory waiting signum ↔
            ∀ fiber ∈ waiting, ∀ asked,
              fiber.request = .sigwait asked → beyond fiber.hook = signum →
                asked = signum)) ∧
      (Independent (build.waitingFibers width) fuel waiting signum ↔
        ∀ fiber ∈ waiting, ∀ asked,
          fiber.request = .sigwait asked → asked = signum) := by
  refine ⟨fun beyond memory registered => ?_, independent_iff different enough⟩
  rw [WakesNamed, sighandler_woken registered enough, Except.ok.injEq]
  exact woken_eq_named_iff

theorem sighandler_wakes_named_iff_two :
    ∃ memory,
      Registered ((⟨true, true, true⟩ : Build).waitingFibers 64) memory
          (fun _ => 15)
          [⟨firstHook, 5, .sigwait 10⟩, ⟨secondHook, 7, .sigwait2 12 10⟩] ∧
        WakesNamed ((⟨true, true, true⟩ : Build).waitingFibers 64) 4 memory
          [⟨firstHook, 5, .sigwait 10⟩, ⟨secondHook, 7, .sigwait2 12 10⟩]
          12 := by
  have different :
      ([⟨firstHook, 5, .sigwait 10⟩, ⟨secondHook, 7, .sigwait2 12 10⟩].map
        Waiting.hook).Nodup := by
    decide
  obtain ⟨memory, registered⟩ :=
    exists_registered ((⟨true, true, true⟩ : Build).waitingFibers 64)
      (fun _ => 15) different
  refine ⟨memory, registered, ?_⟩
  apply ((sighandler_wakes_named_iff ⟨true, true, true⟩ _ 12 different
    (by decide)).1 _ memory registered).mpr
  intro fiber member asked isRequest isWord
  exact absurd isWord (by decide)

/-- The answers to a call for which everything succeeds. -/
def allSucceed (pipefd : Nat × Nat) : Answers where
  pipe := some pipefd
  nonblock := fun _ => true
  sigaction := fun _ => true

/-- A fiber waits for signal 10, and is woken by the 12 behind its argument. -/
theorem word_beyond_wakes :
    (do
      let list := plainList (XorChain.Address 64) true
      let (_, state) ←
        enter list.layout true 4 (.start list) firstHook (.sigwait 10) 12
          (allSucceed (5, 6))
      sighandler list.layout 4 state.memory 12) = .ok [6] ∧
      named [⟨firstHook, 6, .sigwait 10⟩] 12 = [] ∧
      ∃ memory,
        Registered ((⟨false, true, true⟩ : Build).waitingFibers 64) memory
            (fun _ => 12) [⟨firstHook, 6, .sigwait 10⟩] ∧
          ¬ WakesNamed ((⟨false, true, true⟩ : Build).waitingFibers 64) 4
            memory [⟨firstHook, 6, .sigwait 10⟩] 12 := by
  refine ⟨rfl, rfl, ?_⟩
  obtain ⟨memory, registered⟩ :=
    exists_registered ((⟨false, true, true⟩ : Build).waitingFibers 64)
      (fun _ => 12)
      (show ([⟨firstHook, 6, .sigwait 10⟩].map Waiting.hook).Nodup by decide)
  refine ⟨memory, registered, fun wakes => ?_⟩
  rw [WakesNamed, sighandler_woken registered (by decide)] at wakes
  exact absurd (Except.ok.inj wakes) (by decide)

end Dfk.Signal
