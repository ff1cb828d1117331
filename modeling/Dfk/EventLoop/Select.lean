import Dfk.LinkedList.Layouts
import Dfk.Scheduler.Source

/-!
# The pass of the event loop over its descriptors

`dfk__eventloop_main` of `select.c` behind the call of `select`.  The list of
descriptors is in memory, in either of its layouts.
-/

namespace Dfk.EventLoop

open LinkedList Scheduler

variable {ι κ φ μ χ : Type}

/-- What the pass works on. -/
structure Pass (layout : Layout ι κ) (φ μ χ : Type) where
  memory : layout.Memory
  /-- `TO_FDLIST_ELEMENT` of each hook -/
  elements : ι → FdElement φ
  scheduler : Scheduler.State φ μ χ
  anyReady : Bool
  /-- the elements that the loop has come to, which no function reads -/
  visited : List ι

variable {layout : Layout ι κ}

/-- Whether the descriptor of an element is in one of the three sets. -/
def Pass.isReady (pass : Pass layout φ μ χ) (ready : Ready) (hook : ι) :
    Bool :=
  ready.any (pass.elements hook).fd

/-- `e->events = 0`, and the events of the sets that hold the descriptor. -/
def Pass.setEvents [DecidableEq ι] (pass : Pass layout φ μ χ) (ready : Ready)
    (hook : ι) : Pass layout φ μ χ :=
  { pass with
    elements := fun query =>
      if query = hook then
        { pass.elements hook with
          events := ready.events (pass.elements hook).fd }
      else pass.elements query }

variable [DecidableEq ι]

/-- The loop over the descriptors, which takes at most `rounds` rounds. -/
def passFrom (layout : Layout ι κ) (fuel : Nat) (ready : Ready) (fds : κ)
    (stop : layout.It) :
    Nat → layout.It → Pass layout φ μ χ → Except Fault (Pass layout φ μ χ)
  | 0, _, _ => .error .outOfFuel
  | rounds + 1, it, pass => do
      if ← layout.equal fuel pass.memory it stop then
        pure pass
      else
        let hook ← deref (layout.value it)
        let pass := { pass with visited := pass.visited ++ [hook] }
        if pass.isReady ready hook then
          let pass := pass.setEvents ready hook
          let itcopy := it
          let it ← layout.next .forth fuel pass.memory it
          let memory ← layout.erase .forth fuel pass.memory fds itcopy
          passFrom layout fuel ready fds stop rounds it
            { pass with
              memory := memory
              scheduler :=
                ioresume pass.scheduler (pass.elements hook).yieldback
              anyReady := true }
        else
          let it ← layout.next .forth fuel pass.memory it
          passFrom layout fuel ready fds stop rounds it pass

/-- The pass from `dfk_list_begin` to `dfk_list_end`. -/
def selectPass (layout : Layout ι κ) (fuel : Nat) (ready : Ready) (fds : κ)
    (pass : Pass layout φ μ χ) : Except Fault (Pass layout φ μ χ) := do
  let it ← layout.begin .forth fuel pass.memory fds
  let stop ← layout.listEnd fuel pass.memory fds
  passFrom layout fuel ready fds stop fuel it { pass with anyReady := false }

end Dfk.EventLoop
