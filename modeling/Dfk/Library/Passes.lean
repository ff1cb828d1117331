import Mathlib

/-!
# Passes through a list

A pass takes one step for each item of a list, and ends where a step fails.
What holds of the items that have been passed and the state they have led to,
and is preserved by every step, holds of all items in the end.
-/

namespace Passes

variable {σ α β ε : Type}

/-- A sequence that succeeds goes through a result of its first part. -/
theorem of_bind
    {first : Except ε α} {next : α → Except ε β} {result : β}
    (ran : first >>= next = .ok result) :
    ∃ value, first = .ok value ∧ next value = .ok result := by
  cases first with
  | error failure =>
      cases ran
  | ok value =>
      exact ⟨value, rfl, ran⟩

/-- A sequence whose first part succeeds goes on with its result. -/
theorem bind_of_ok
    {first : Except ε α} {next : α → Except ε β} {value : α}
    (succeeds : first = .ok value) :
    first >>= next = next value := by
  rw [succeeds]
  rfl

section Steps

variable {step : σ → α → Except ε σ} {items : List α} {start final : σ}

/-- What the steps preserve, of the items passed so far, holds in the end. -/
theorem passed
    {holds : List α → σ → Prop}
    (ran : items.foldlM step start = .ok final)
    (starts : holds [] start)
    (preserved :
      ∀ before item after state next,
        items = before ++ item :: after →
        holds before state →
        step state item = .ok next →
        holds (before ++ [item]) next) :
    holds items final := by
  have continues :
      ∀ after before state,
        items = before ++ after → holds before state →
        after.foldlM step state = .ok final → holds items final := by
    intro after
    induction after with
    | nil =>
        intro before state parts held ran
        cases ran
        rw [parts, List.append_nil]
        exact held
    | cons item after inductionHypothesis =>
        intro before state parts held ran
        rw [List.foldlM_cons] at ran
        obtain ⟨next, stepped, ran⟩ := of_bind ran
        apply inductionHypothesis (before ++ [item]) next _ _ ran
        · rw [parts, List.append_assoc, List.singleton_append]
        · exact preserved before item after state next parts held stepped
  exact continues items [] start rfl starts ran

/-- What every step preserves holds in the end. -/
theorem invariant
    {holds : σ → Prop}
    (ran : items.foldlM step start = .ok final)
    (starts : holds start)
    (preserved :
      ∀ state item next, holds state → step state item = .ok next →
        holds next) :
    holds final :=
  @passed σ α ε step items start final (fun _ => holds) ran starts
    fun _ item _ state next _ => preserved state item next

/-- A pass succeeds if each of its steps does where the pass comes to it. -/
theorem succeeds
    (steps :
      ∀ before item after state,
        items = before ++ item :: after →
        before.foldlM step start = .ok state →
        ∃ next, step state item = .ok next) :
    ∃ final, items.foldlM step start = .ok final := by
  induction items using List.reverseRecOn with
  | nil =>
      exact ⟨start, rfl⟩
  | append_singleton items item inductionHypothesis =>
      obtain ⟨state, ran⟩ := inductionHypothesis (by
        intro before earlier after state parts
        apply steps before earlier (after ++ [item]) state
        rw [parts, List.append_assoc, List.cons_append])
      obtain ⟨next, stepped⟩ := steps items item [] state rfl ran
      refine ⟨next, ?_⟩
      rw [List.foldlM_append, bind_of_ok ran, List.foldlM_cons,
        bind_of_ok stepped]
      rfl

/-- A pass that succeeds has taken the step for each of its items. -/
theorem step_of_succeeds
    {before after : List α} {item : α}
    (ran : items.foldlM step start = .ok final)
    (parts : items = before ++ item :: after) :
    ∃ state next,
      before.foldlM step start = .ok state ∧ step state item = .ok next ∧
      after.foldlM step next = .ok final := by
  rw [parts, List.foldlM_append] at ran
  obtain ⟨state, ranBefore, ran⟩ := of_bind ran
  rw [List.foldlM_cons] at ran
  obtain ⟨next, stepped, ranAfter⟩ := of_bind ran
  exact ⟨state, next, ranBefore, stepped, ranAfter⟩

end Steps

end Passes
