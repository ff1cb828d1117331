import Mathlib

/-!
# First in, first out

A history says what was put into a queue and what was taken from it.  A queue
serves a history if everything that is taken is taken from its front.
-/

namespace Fifo

variable {α : Type}

/-- Something is put into a queue, or taken from it. -/
inductive Event (α : Type) where
  | put (item : α)
  | take (item : α)
  deriving Repr, DecidableEq

/-- What was put into a queue, in this order. -/
def puts : List (Event α) → List α
  | [] => []
  | .put item :: history => item :: puts history
  | .take _ :: history => puts history

/-- What was taken from a queue, in this order. -/
def takes : List (Event α) → List α
  | [] => []
  | .put _ :: history => takes history
  | .take item :: history => item :: takes history

/-- What was put in earlier or later. -/
theorem puts_append (earlier later : List (Event α)) :
    puts (earlier ++ later) = puts earlier ++ puts later := by
  induction earlier with
  | nil => rfl
  | cons event earlier inductionHypothesis =>
      cases event <;> simp [puts, inductionHypothesis]

/-- What was taken earlier or later. -/
theorem takes_append (earlier later : List (Event α)) :
    takes (earlier ++ later) = takes earlier ++ takes later := by
  induction earlier with
  | nil => rfl
  | cons event earlier inductionHypothesis =>
      cases event <;> simp [takes, inductionHypothesis]

/-- What is put in at once. -/
@[simp] theorem puts_map_put (items : List α) :
    puts (items.map .put) = items := by
  induction items with
  | nil => rfl
  | cons item items inductionHypothesis =>
      rw [List.map_cons, puts, inductionHypothesis]

@[simp] theorem takes_map_put (items : List α) :
    takes (items.map .put) = [] := by
  induction items with
  | nil => rfl
  | cons item items inductionHypothesis =>
      rw [List.map_cons, takes, inductionHypothesis]

/-- What is taken at once. -/
@[simp] theorem takes_map_take (items : List α) :
    takes (items.map .take) = items := by
  induction items with
  | nil => rfl
  | cons item items inductionHypothesis =>
      rw [List.map_cons, takes, inductionHypothesis]

@[simp] theorem puts_map_take (items : List α) :
    puts (items.map .take) = [] := by
  induction items with
  | nil => rfl
  | cons item items inductionHypothesis =>
      rw [List.map_cons, puts, inductionHypothesis]

variable [DecidableEq α]

/-- Append to a queue, or take from its front what is expected there. -/
def serve : List α → Event α → Option (List α)
  | queue, .put item => some (queue ++ [item])
  | first :: queue, .take item => if first = item then some queue else none
  | [], .take _ => none

/-- What is left of a queue that serves a history. -/
def replay (history : List (Event α)) : Option (List α) :=
  history.foldlM serve []

/-- Something is put into the queue. -/
theorem replay_put
    {history : List (Event α)} {queue : List α}
    (served : replay history = some queue)
    (item : α) :
    replay (history ++ [.put item]) = some (queue ++ [item]) := by
  rw [replay] at served ⊢
  rw [List.foldlM_append, served]
  rfl

/-- The front of the queue is taken. -/
theorem replay_take
    {history : List (Event α)} {queue : List α} {item : α}
    (served : replay history = some (item :: queue)) :
    replay (history ++ [.take item]) = some queue := by
  rw [replay] at served ⊢
  rw [List.foldlM_append, served]
  simp [serve]

/-- Several things are put into the queue. -/
theorem replay_puts
    {history : List (Event α)} {queue : List α}
    (served : replay history = some queue)
    (items : List α) :
    replay (history ++ items.map .put) = some (queue ++ items) := by
  induction items generalizing history queue with
  | nil =>
      rw [List.map_nil, List.append_nil, List.append_nil]
      exact served
  | cons item items inductionHypothesis =>
      have later := inductionHypothesis (replay_put served item)
      rw [List.append_assoc, List.append_assoc] at later
      exact later

/-- Several things are taken from the front of the queue. -/
theorem replay_takes
    {history : List (Event α)} {items queue : List α}
    (served : replay history = some (items ++ queue)) :
    replay (history ++ items.map .take) = some queue := by
  induction items generalizing history with
  | nil =>
      rw [List.map_nil, List.append_nil]
      exact served
  | cons item items inductionHypothesis =>
      have later := inductionHypothesis (replay_take served)
      rw [List.append_assoc] at later
      exact later

/--
Everything that was put into a queue was taken from it, in this order, or is
still there.
-/
theorem puts_of_replay
    {history : List (Event α)} {queue : List α}
    (served : replay history = some queue) :
    puts history = takes history ++ queue := by
  induction history using List.reverseRecOn generalizing queue with
  | nil =>
      cases served
      rfl
  | append_singleton history event inductionHypothesis =>
      rw [replay, List.foldlM_append, Option.bind_eq_bind,
        Option.bind_eq_some_iff] at served
      obtain ⟨before, earlier, last⟩ := served
      have earlier := inductionHypothesis earlier
      have last : serve before event = some queue := by
        simpa using last
      rw [puts_append, takes_append, earlier]
      cases event with
      | put item =>
          cases last
          simp [puts, takes]
      | take item =>
          cases before with
          | nil => cases last
          | cons first before =>
              rw [serve] at last
              by_cases same : first = item
              · rw [if_pos same] at last
                cases last
                simp [puts, takes, same]
              · rw [if_neg same] at last
                cases last

end Fifo
