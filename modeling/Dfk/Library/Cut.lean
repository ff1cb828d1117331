import Mathlib

/-!
# Cutting at a separator

A list is cut at the first place a separator occurs.  Cutting undoes joining
as long as the separator occurs nowhere before.
-/

namespace Cut

variable {α : Type}

/-- What stands before and after the first occurrence of a separator. -/
def cut [DecidableEq α] (separator : List α) : List α → Option (List α × List α)
  | [] => none
  | first :: rest =>
      if separator <+: first :: rest then
        some ([], (first :: rest).drop separator.length)
      else
        (cut separator rest).map fun parts => (first :: parts.1, parts.2)

/-- A separator behind some labels occurs nowhere earlier. -/
def Free (separator before : List α) : Prop :=
  ∀ earlier later, before = earlier ++ later → later ≠ [] →
    ¬ separator <+: later ++ separator

/-- Joined parts come apart again. -/
theorem cut_join [DecidableEq α]
    {separator : List α}
    (someSeparator : separator ≠ [])
    (after : List α) :
    ∀ {before : List α},
      Free separator before →
        cut separator (before ++ (separator ++ after)) =
          some (before, after) := by
  intro before
  induction before with
  | nil =>
      intro free
      obtain ⟨first, rest, rfl⟩ := List.exists_cons_of_ne_nil someSeparator
      rw [List.nil_append, List.cons_append, cut, if_pos (by simp)]
      simp
  | cons first rest inductionHypothesis =>
      intro free
      have notHere :
          ¬ separator <+: first :: (rest ++ (separator ++ after)) := by
        intro here
        apply free [] (first :: rest) rfl (List.cons_ne_nil _ _)
        have longEnough :
            separator.length ≤ (first :: rest ++ separator).length := by
          simp only [List.length_append]
          omega
        have whole :
            first :: rest ++ separator <+:
              first :: (rest ++ (separator ++ after)) :=
          ⟨after, by simp⟩
        exact List.prefix_of_prefix_length_le here whole longEnough
      have freeRest : Free separator rest := by
        intro earlier later split
        exact free (first :: earlier) later (by rw [split]; rfl)
      rw [List.cons_append, cut, if_neg notHere,
        inductionHypothesis freeRest]
      rfl

/-- One label separates what does not contain it. -/
theorem free_singleton
    {label : α} {before : List α}
    (absent : label ∉ before) :
    Free [label] before := by
  intro earlier later split notEmpty here
  obtain ⟨first, rest, rfl⟩ := List.exists_cons_of_ne_nil notEmpty
  have same : label = first := by
    simpa using here
  apply absent
  rw [split, same]
  simp

/-- The two labels never stand side by side. -/
def Apart (first second : α) (labels : List α) : Prop :=
  labels.IsChain fun left right => ¬ (left = first ∧ right = second)

/-- Two different labels separate what does not contain them in a row. -/
theorem free_pair
    {first second : α} {before : List α}
    (different : first ≠ second)
    (apart : Apart first second before) :
    Free [first, second] before := by
  intro earlier later split notEmpty here
  obtain ⟨label, rest, rfl⟩ := List.exists_cons_of_ne_nil notEmpty
  rw [List.cons_append, List.cons_prefix_cons] at here
  obtain ⟨sameFirst, next⟩ := here
  cases rest with
  | nil =>
      apply different
      have sameSecond : second = first := by
        simpa using next
      exact sameSecond.symm
  | cons other rest =>
      rw [List.cons_append, List.cons_prefix_cons] at next
      rw [Apart, split] at apart
      have chain := (List.isChain_append.mp apart).2.1
      have pair := (List.isChain_cons_cons.mp chain).1
      exact pair ⟨sameFirst.symm, next.1.symm⟩

/-- Joining over a label that is neither of the two keeps them apart. -/
theorem apart_append
    {first second : α} {left right : List α}
    (leftApart : Apart first second left)
    (rightApart : Apart first second right)
    (border :
      ∀ last ∈ left.getLast?, ∀ head ∈ right.head?,
        ¬ (last = first ∧ head = second)) :
    Apart first second (left ++ right) :=
  List.isChain_append.mpr ⟨leftApart, rightApart, border⟩

instance [DecidableEq α] (first second : α) (labels : List α) :
    Decidable (Apart first second labels) :=
  inferInstanceAs (Decidable (List.IsChain _ labels))

/-- Without the first label the two are apart. -/
theorem apart_of_not_mem
    {first second : α} {labels : List α}
    (absent : first ∉ labels) :
    Apart first second labels := by
  induction labels with
  | nil =>
      exact List.IsChain.nil
  | cons label rest inductionHypothesis =>
      rw [List.mem_cons, not_or] at absent
      apply List.isChain_cons.mpr
      exact ⟨fun _ _ same => absent.1 same.1.symm,
        inductionHypothesis absent.2⟩

end Cut
