import Dfk.Library.Ledger
import Dfk.Library.Runs
import Dfk.LinkedList.Equivalence

/-!
# Waiting for signals

`signal.c` after the source, over `list.c` in either layout.  The record of a
call lies on the stack of its fiber, at the address of its hook.  A call is in
two parts, before and behind the point where it waits for its pipe.
-/

namespace Dfk.Signal

open LinkedList XorChain Ledger

/-- A static list, in a layout that does what it does on sequences. -/
structure StaticList (ι : Type) [DecidableEq ι] where
  layout : Layout ι Unit
  Represents : layout.Memory → Sequences ι Unit → Prop
  Stands : List ι → Nat → layout.It → Prop
  Erasable : Direction → List ι → Nat → Prop
  faithful : layout.Faithful Represents Stands Erasable
  erasable : ∀ sequence place, Erasable .forth sequence place
  /-- What static memory holds in the beginning. -/
  zero : layout.Memory
  isEmpty : Represents zero fun _ => []

/-- How the library is built. -/
structure Build where
  memoryOptimized : Bool
  constantTimeSize : Bool
  havePipe2 : Bool
  deriving Repr, DecidableEq

/-- The list with two pointers in a hook. -/
def plainList (ι : Type) [DecidableEq ι] (constantTimeSize : Bool) :
    StaticList ι where
  layout := Layout.default
  Represents := LinkedList.Represents
  Stands := fun sequence place it => It.StandsAt it sequence place
  Erasable := fun _ _ _ => True
  faithful := default_faithful
  erasable := fun _ _ => trivial
  zero :=
    { hooks := fun _ => { next := none, prev := none }
      lists := fun _ => freshList constantTimeSize }
  isEmpty := represents_fresh fun _ => rfl

/-- The list with one pointer in a hook. -/
def optimizedList (width : Nat) (constantTimeSize : Bool) :
    StaticList (Address width) where
  layout := Layout.memoryOptimized width
  Represents := MemoryOptimized.Represents
  Stands := XorChain.Stands
  Erasable := ReversibleIn
  faithful := memoryOptimized_faithful
  erasable := fun _ _ isBack => Direction.noConfusion isBack
  zero :=
    { hooks := fun _ => { p := none }
      lists := fun _ => freshList constantTimeSize }
  isEmpty := represents_fresh_optimized fun _ => rfl

/-- `waiting_fibers` -/
def Build.waitingFibers (build : Build) (width : Nat) :
    StaticList (Address width) :=
  if build.memoryOptimized then optimizedList width build.constantTimeSize
  else plainList (Address width) build.constantTimeSize

/-- The error codes that are returned. -/
inductive Err where
  | ok
  | sys
  deriving Repr, DecidableEq

/-- `waiting_fiber_t`, apart from its hook. -/
structure WaitingFiber where
  wfd : Nat
  signum0 : Int
  signum1 : Int
  deriving Repr, DecidableEq

/-- The list, and the records of its hooks. -/
structure Memory {ι : Type} (layout : Layout ι Unit) where
  lists : layout.Memory
  records : ι → WaitingFiber

section Source

variable {ι : Type} [DecidableEq ι]

/-! ## The handler -/

/-- The loop of `dfk__sighandler`, with the pipes that are written to. -/
def wake (layout : Layout ι Unit) (fuel : Nat) (memory : Memory layout)
    (stop : layout.It) (signum : Int) :
    Nat → layout.It → List Nat → Except Fault (List Nat)
  | 0, _, _ => .error .outOfFuel
  | rounds + 1, it, written => do
      if ← layout.equal fuel memory.lists it stop then
        pure written
      else
        let hook ← deref (layout.value it)
        let wf := memory.records hook
        let written :=
          if wf.signum0 = signum ∨ wf.signum1 = signum then
            written ++ [wf.wfd]
          else written
        let it ← layout.next .forth fuel memory.lists it
        wake layout fuel memory stop signum rounds it written

/-- `dfk__sighandler` -/
def sighandler (layout : Layout ι Unit) (fuel : Nat) (memory : Memory layout)
    (signum : Int) : Except Fault (List Nat) := do
  let it ← layout.begin .forth fuel memory.lists ()
  let stop ← layout.listEnd fuel memory.lists ()
  wake layout fuel memory stop signum fuel it []

/-! ## Calls -/

/-- `dfk_sigwait` or `dfk_sigwait2`, with its signals. -/
inductive Request where
  | sigwait (signum : Int)
  | sigwait2 (signum1 signum2 : Int)
  deriving Repr, DecidableEq

/-- The `nsignals` entries that are passed on. -/
def Request.signals : Request → List Int
  | .sigwait signum => [signum]
  | .sigwait2 signum1 signum2 => [signum1, signum2]

/-- The words from the first signal on; what follows the signals is beyond. -/
def Request.signum (request : Request) (beyond : Int) (i : Nat) : Int :=
  request.signals.getD i beyond

/-- What `dfk__sigwait` stores for a handler. -/
def Request.record (request : Request) (beyond : Int) (wfd : Nat) :
    WaitingFiber :=
  let nsignals := request.signals.length
  { wfd
    signum0 := request.signum beyond 0
    signum1 := if nsignals ≠ 0 then request.signum beyond 1 else 0 }

/-- What the system answers before a call waits. -/
structure Answers where
  /-- The ends of a pipe, if one is created. -/
  pipe : Option (Nat × Nat)
  /-- `dfk__make_nonblock` for an end of the pipe. -/
  nonblock : Nat → Bool
  /-- `sigaction` for one of the signals. -/
  sigaction : Nat → Bool

/-- `dfk__close` for both ends of a pipe. -/
def closePipe (pipefd : Nat × Nat) : List (Event Nat) :=
  [.released pipefd.1, .released pipefd.2]

/-- `dfk__create_pipe`, with what happens to descriptors. -/
def createPipe (havePipe2 : Bool) (answers : Answers) :
    Option (Nat × Nat) × List (Event Nat) :=
  match answers.pipe with
  | none => (none, [])
  | some fd =>
      let opened := [.obtained fd.1, .obtained fd.2]
      if havePipe2 then (some fd, opened)
      else if ¬ answers.nonblock 0 then (none, opened ++ closePipe fd)
      else if ¬ answers.nonblock 1 then (none, opened ++ closePipe fd)
      else (some fd, opened)

/-- A call that waits: its record, and its pipe. -/
structure Call (ι : Type) where
  record : ι
  pipefd : Nat × Nat
  deriving DecidableEq

/-- The list, all that has happened to descriptors, and the calls that wait. -/
structure State (layout : Layout ι Unit) where
  memory : Memory layout
  events : List (Event Nat)
  calls : List (Call ι)

/-- No call has been made yet. -/
def State.start (list : StaticList ι) : State list.layout where
  memory := { lists := list.zero, records := fun _ => ⟨0, 0, 0⟩ }
  events := []
  calls := []

/-- `dfk__sigwait` up to where it waits, with its result if it returns. -/
def enter (layout : Layout ι Unit) (havePipe2 : Bool) (fuel : Nat)
    (state : State layout) (record : ι) (request : Request) (beyond : Int)
    (answers : Answers) : Except Fault (Option Err × State layout) :=
  let created := createPipe havePipe2 answers
  let events := state.events ++ created.2
  match created.1 with
  | none => .ok (some .sys, { state with events })
  | some pipefd => do
      let lists ←
        layout.modify fuel state.memory.lists (.append () record)
      let records :=
        Function.update state.memory.records record
          (request.record beyond pipefd.2)
      let memory := { lists, records : Memory layout }
      if (List.range request.signals.length).all answers.sigaction then
        let calls := state.calls ++ [{ record, pipefd }]
        pure (none, { memory, events, calls })
      else
        let events := events ++ closePipe pipefd
        pure (some .sys, { memory, events, calls := state.calls })

/-- `dfk__sigwait` behind its `dfk__read`. -/
def leave (layout : Layout ι Unit) (fuel : Nat) (state : State layout)
    (call : Call ι) (nread : Int) (closed : Nat → Err) :
    Except Fault (Err × State layout) := do
  let finalerr := if nread < 0 then .sys else .ok
  let it ←
    layout.fromValue .forth fuel state.memory.lists () call.record
  let lists ← layout.erase .forth fuel state.memory.lists () it
  let finalerr := if finalerr = .ok then closed 0 else finalerr
  let finalerr := if finalerr = .ok then closed 1 else finalerr
  pure (finalerr,
    { memory := { lists, records := state.memory.records }
      events := state.events ++ closePipe call.pipefd
      calls := state.calls.erase call })

end Source

/-! ## The list -/

section List

variable {ι : Type} [DecidableEq ι] {list : StaticList ι}
variable {lists : list.layout.Memory} {hooks : List ι} {hook : ι} {fuel : Nat}

omit [DecidableEq ι] in
/-- One sequence for the one list. -/
theorem update_unit (sequences : Sequences ι Unit) (hooks : List ι) :
    Function.update sequences () hooks = fun _ => hooks := by
  funext query
  exact Function.update_self () hooks sequences

/-- What is left of a list whose elements have different images. -/
theorem map_erase_of_nodup
    {α : Type} [DecidableEq α] {elements : List α} {image : α → ι}
    {element : α}
    (different : (elements.map image).Nodup) (member : element ∈ elements) :
    (elements.map image).erase (image element) =
      (elements.erase element).map image := by
  obtain ⟨before, after, rfl⟩ := List.append_of_mem member
  rw [List.map_append, List.map_cons] at different
  have notBefore : image element ∉ before.map image := fun isBefore =>
    (List.nodup_append.mp different).2.2 _ isBefore _
      (List.mem_cons_self ..) rfl
  have alsoNot : element ∉ before := fun isBefore =>
    notBefore (List.mem_map_of_mem isBefore)
  rw [List.map_append, List.map_cons, List.erase_append_right _ notBefore,
    List.erase_cons_head, List.erase_append_right _ alsoNot,
    List.erase_cons_head, List.map_append]

/-- What can be seen of the list. -/
theorem StaticList.traverse
    (represents : list.Represents lists fun _ => hooks)
    (enough : hooks.length + 1 < fuel) :
    list.layout.traverse .forth fuel lists () = .ok hooks :=
  (list.faithful.observes represents (fun _ => enough) ()).forwards

/-- Whether an iterator is at the end of the list. -/
theorem StaticList.equal_end
    {place : Nat} {it stop : list.layout.It}
    (represents : list.Represents lists fun _ => hooks)
    (enough : hooks.length + 1 < fuel) (stands : list.Stands hooks place it)
    (isEnd : list.layout.value stop = none) :
    list.layout.equal fuel lists it stop =
      .ok (decide (hooks[place]? = none)) :=
  @Layout.Faithful.equal _ _ _ _ _ _ _ _ list.faithful _ _ _ represents
    (fun _ => enough) .forth () _ _ _ stands isEnd

/-- The iterator at the next place of the list. -/
theorem StaticList.next
    {place : Nat} {it : list.layout.It}
    (represents : list.Represents lists fun _ => hooks)
    (enough : hooks.length + 1 < fuel) (stands : list.Stands hooks place it)
    (inside : place < hooks.length) :
    ∃ it',
      list.layout.next .forth fuel lists it = .ok it' ∧
        list.Stands hooks (place + 1) it' :=
  @Layout.Faithful.next _ _ _ _ _ _ _ _ list.faithful _ _ _ represents
    (fun _ => enough) .forth () _ _ stands inside

/-- A hook that is not in the list is appended. -/
theorem StaticList.append
    (represents : list.Represents lists fun _ => hooks)
    (enough : hooks.length + 1 < fuel) (isNew : hook ∉ hooks) :
    ∃ written,
      list.layout.modify fuel lists (.append () hook) = .ok written ∧
        list.Represents written fun _ => hooks ++ [hook] := by
  have valid :
      (Modification.append () hook).operation.Valid fun _ => hooks :=
    fun _ => isNew
  obtain ⟨written, modifies, isModified⟩ :=
    list.faithful.modify represents (fun _ => enough) valid
  refine ⟨written, modifies, ?_⟩
  rw [Modification.operation, Operation.apply, update_unit] at isModified
  exact isModified

/-- A hook in the list is found, and taken out of it. -/
theorem StaticList.erase
    (represents : list.Represents lists fun _ => hooks)
    (enough : hooks.length + 1 < fuel) (member : hook ∈ hooks) :
    ∃ it written,
      list.layout.fromValue .forth fuel lists () hook = .ok it ∧
        list.layout.erase .forth fuel lists () it = .ok written ∧
        list.Represents written fun _ => hooks.erase hook := by
  have isHook : hooks[hooks.idxOf hook]? = some hook :=
    List.getElem?_idxOf member
  obtain ⟨it, finds, stands⟩ :
      ∃ it,
        list.layout.fromValue .forth fuel lists () hook = .ok it ∧
          list.Stands hooks (hooks.idxOf hook) it :=
    list.faithful.fromValue represents (fun _ => enough) isHook
  obtain ⟨written, erases, isErased⟩ :
      ∃ written,
        list.layout.erase .forth fuel lists () it = .ok written ∧
          list.Represents written
            ((Direction.forth.erasure () hook).apply fun _ => hooks) :=
    list.faithful.erase represents (fun _ => enough) stands isHook
      (list.erasable _ _)
  refine ⟨it, written, finds, erases, ?_⟩
  rw [Direction.erasure, Operation.apply, update_unit] at isErased
  exact isErased

end List

end Dfk.Signal
