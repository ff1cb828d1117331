import Mathlib

/-!
# Ledgers of objects

Objects are obtained, used and released.  A ledger is sound if nothing is used
or released that is not held at that time, so that what has been released once
is neither released nor used again before it is obtained anew.
-/

namespace Ledger

variable {ω : Type}

/-- What happens to objects. -/
inductive Event (ω : Type) where
  | obtained (object : ω)
  | used (object : ω)
  | released (object : ω)
  deriving Repr, DecidableEq

variable [DecidableEq ω]

/-- Whether an object is held after an event, given whether it was before. -/
def holdsAfter (object : ω) (isHeld : Bool) : Event ω → Bool
  | .obtained other => isHeld || other = object
  | .used _ => isHeld
  | .released other => isHeld && other ≠ object

/-- Whether an object is held in the end. -/
def held (events : List (Event ω)) (object : ω) : Bool :=
  events.foldl (holdsAfter object) false

/-- Whether an event may come after others. -/
def Event.Valid (before : List (Event ω)) : Event ω → Prop
  | .obtained _ => True
  | .used object | .released object => held before object = true

/-- Nothing is used or released that is not held. -/
def Sound (events : List (Event ω)) : Prop :=
  ∀ before event after,
    events = before ++ event :: after → event.Valid before

section Events

variable {events later : List (Event ω)} {event : Event ω} {object : ω}
variable {objects : List ω}

/-- One event at the end. -/
@[simp] theorem held_concat :
    held (events ++ [event]) object =
      holdsAfter object (held events object) event := by
  rw [held, List.foldl_append]
  rfl

/-- Several releases at the end. -/
theorem held_released_all :
    held (events ++ objects.map .released) object =
      (held events object && decide (object ∉ objects)) := by
  induction objects generalizing events with
  | nil => simp
  | cons first objects inductionHypothesis =>
      rw [List.map_cons, List.append_cons, inductionHypothesis, held_concat,
        holdsAfter, Bool.and_assoc]
      congr 1
      rw [← Bool.decide_and]
      congr 1
      rw [List.mem_cons, not_or, ne_comm]

theorem sound_nil : Sound ([] : List (Event ω)) := by
  intro before event after split
  have lengths := congrArg List.length split
  simp at lengths

/-- One event more. -/
theorem Sound.concat
    (sound : Sound events)
    (valid : event.Valid events) :
    Sound (events ++ [event]) := by
  intro before other after split
  rcases List.eq_nil_or_concat after with rfl | ⟨front, last, rfl⟩
  · obtain ⟨rfl, same⟩ := List.append_inj' split rfl
    cases same
    exact valid
  · rw [List.concat_eq_append, ← List.cons_append, ← List.append_assoc]
      at split
    exact sound before other front (List.append_inj' split rfl).1

/-- An object is obtained. -/
theorem Sound.obtained (sound : Sound events) (object : ω) :
    Sound (events ++ [.obtained object]) :=
  sound.concat trivial

/-- An object that is held is used. -/
theorem Sound.used
    (sound : Sound events)
    (isHeld : held events object = true) :
    Sound (events ++ [.used object]) :=
  sound.concat isHeld

/-- An object that is held is released. -/
theorem Sound.released
    (sound : Sound events)
    (isHeld : held events object = true) :
    Sound (events ++ [.released object]) :=
  sound.concat isHeld

/-- What comes first is sound. -/
theorem Sound.of_append (sound : Sound (events ++ later)) : Sound events := by
  intro before event after split
  apply sound before event (after ++ later)
  rw [split, List.append_assoc, List.cons_append]

/-- The last event is valid. -/
theorem Sound.last (sound : Sound (events ++ [event])) :
    event.Valid events :=
  sound events event [] rfl

/-- Different objects that are held can be released. -/
theorem Sound.release_all
    (sound : Sound events)
    (different : objects.Nodup)
    (areHeld : ∀ object ∈ objects, held events object = true) :
    Sound (events ++ objects.map .released) := by
  induction objects generalizing events with
  | nil =>
      rw [List.map_nil, List.append_nil]
      exact sound
  | cons first objects inductionHypothesis =>
      obtain ⟨isNew, different⟩ := List.nodup_cons.mp different
      rw [List.map_cons, List.append_cons]
      apply inductionHypothesis _ different
      · intro object member
        have distinct : first ≠ object := by
          rintro rfl
          exact isNew member
        rw [held_concat, holdsAfter,
          areHeld object (List.mem_cons_of_mem _ member), Bool.true_and]
        exact decide_eq_true distinct
      · exact sound.released (areHeld first (List.mem_cons_self ..))

end Events

end Ledger
