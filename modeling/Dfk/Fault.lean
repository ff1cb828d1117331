import Mathlib

/-!
# Faults of the C program

Source functions are embedded as functions into `Except Fault`.  A loop of the
source takes a bound on its number of iterations; running into the bound is
`outOfFuel` and stands for a loop that is still going.
-/

namespace Dfk

/-- Ways in which a source function fails to return. -/
inductive Fault where
  | assertion
  | nullPointer
  | outOfBounds
  | outOfFuel
  deriving Repr, DecidableEq

instance decidableEqExcept {ε α : Type} [DecidableEq ε] [DecidableEq α] :
    DecidableEq (Except ε α)
  | .error left, .error right =>
      decidable_of_iff (left = right)
        ⟨congrArg Except.error, Except.error.inj⟩
  | .ok left, .ok right =>
      decidable_of_iff (left = right) ⟨congrArg Except.ok, Except.ok.inj⟩
  | .error _, .ok _ => isFalse (by simp)
  | .ok _, .error _ => isFalse (by simp)

/-- The C `assert` macro. -/
def check (condition : Prop) [Decidable condition] : Except Fault Unit :=
  if condition then .ok () else .error .assertion

/-- Follow a pointer. -/
def deref {α : Type} : Option α → Except Fault α
  | some target => .ok target
  | none => .error .nullPointer

@[simp] theorem check_pos
    {condition : Prop} [Decidable condition]
    (holds : condition) :
    check condition = .ok () := by
  simp [check, holds]

@[simp] theorem check_neg
    {condition : Prop} [Decidable condition]
    (fails : ¬ condition) :
    check condition = .error .assertion := by
  simp [check, fails]

@[simp] theorem deref_some {α : Type} (target : α) :
    deref (some target) = .ok target :=
  rfl

@[simp] theorem deref_none {α : Type} :
    deref (none : Option α) = .error .nullPointer :=
  rfl

@[simp] theorem ok_bind
    {α β : Type} (value : α) (next : α → Except Fault β) :
    (Except.ok value >>= next) = next value :=
  rfl

@[simp] theorem error_bind
    {α β : Type} (fault : Fault) (next : α → Except Fault β) :
    (Except.error fault >>= next) = .error fault :=
  rfl

@[simp] theorem pure_eq_ok {α : Type} (value : α) :
    (pure value : Except Fault α) = .ok value :=
  rfl

@[simp] theorem map_ok
    {α β : Type} (value : α) (change : α → β) :
    (change <$> Except.ok value : Except Fault β) = .ok (change value) :=
  rfl

/-- A sequence that succeeds goes through a result of its first part. -/
theorem of_bind
    {α β : Type} {first : Except Fault α} {next : α → Except Fault β}
    {result : β}
    (ran : first >>= next = .ok result) :
    ∃ value, first = .ok value ∧ next value = .ok result := by
  cases first with
  | error fault =>
      cases ran
  | ok value =>
      exact ⟨value, rfl, ran⟩

/-- What is attempted with success, if it is allowed, happens. -/
theorem of_attempt
    {α : Type} {allowed : Prop} [Decidable allowed] {happens : Except Fault α}
    {result : α}
    (attempted :
      (if allowed then happens.toOption else none) = some result) :
    allowed ∧ happens = .ok result := by
  by_cases isAllowed : allowed
  · rw [if_pos isAllowed] at attempted
    refine ⟨isAllowed, ?_⟩
    cases happens with
    | error fault => cases attempted
    | ok value =>
        cases attempted
        rfl
  · rw [if_neg isAllowed] at attempted
    cases attempted

/-- An assertion that passes holds. -/
theorem of_check
    {condition : Prop} [Decidable condition] {done : Unit}
    (passed : check condition = .ok done) :
    condition := by
  apply Decidable.byContradiction
  intro fails
  rw [check_neg fails] at passed
  cases passed

end Dfk
