import Mathlib

/-!
# Byte strings

Length-delimited byte strings, and the part of `strncmp` the library relies
on: characters compare as unsigned, and the comparison ends at a zero byte.
-/

namespace Dfk

/-- Contents of a `dfk_buf_t` or a `dfk_cbuf_t`. -/
abbrev Bytes := List UInt8

/-- What holds for every number below 256 holds for every byte. -/
theorem forall_byte
    {holds : UInt8 → Prop}
    (all : ∀ n : Fin 256, holds (UInt8.ofNat n))
    (byte : UInt8) :
    holds byte := by
  have known := all ⟨byte.toNat, byte.toNat_lt⟩
  rw [UInt8.ofNat_toNat] at known
  exact known

/-- The bytes of an ASCII string literal. -/
def ascii (text : String) : Bytes :=
  text.toList.map fun character => character.toNat.toUInt8

/-- A buffer after bytes have been written to its start. -/
def filled (buf bytes : Bytes) : Bytes :=
  bytes ++ buf.drop bytes.length

/-- A buffer keeps its size. -/
theorem length_filled
    {buf bytes : Bytes} (fits : bytes.length ≤ buf.length) :
    (filled buf bytes).length = buf.length := by
  rw [filled, List.length_append, List.length_drop,
    Nat.add_sub_cancel' fits]

/-- `strncmp`, of two strings at least as long as its first argument. -/
def strncmp : Nat → Bytes → Bytes → Int
  | n + 1, a :: left, b :: right =>
      if a ≠ b then (a.toNat : Int) - b.toNat
      else if a = 0 then 0
      else strncmp n left right
  | _, _, _ => 0

/--
Two different strings `strncmp` takes for equal over the shorter length: one
is a prefix of the other, or they agree up to a zero byte.
-/
def Confusable (left right : Bytes) : Prop :=
  left ≠ right ∧
    (left <+: right ∨ right <+: left ∨
      ∃ common, common ++ [0] <+: left ∧ common ++ [0] <+: right)

/-- Confusion does not depend on the order of the two strings. -/
theorem Confusable.symm {left right : Bytes}
    (confusable : Confusable left right) :
    Confusable right left := by
  obtain ⟨different, reason⟩ := confusable
  refine ⟨different.symm, ?_⟩
  rcases reason with isPrefix | isPrefix | ⟨common, inLeft, inRight⟩
  · exact Or.inr (Or.inl isPrefix)
  · exact Or.inl isPrefix
  · exact Or.inr (Or.inr ⟨common, inRight, inLeft⟩)

/-- A string equals itself. -/
@[simp] theorem strncmp_self (n : Nat) (bytes : Bytes) :
    strncmp n bytes bytes = 0 := by
  induction bytes generalizing n with
  | nil =>
      cases n <;> rfl
  | cons a rest inductionHypothesis =>
      cases n with
      | zero =>
          rfl
      | succ n =>
          simp [strncmp, inductionHypothesis]

/-- When `strncmp` finds no difference over the shorter length. -/
theorem strncmp_eq_zero_iff (left right : Bytes) :
    strncmp (min left.length right.length) left right = 0 ↔
      left <+: right ∨ right <+: left ∨
        ∃ common, common ++ [0] <+: left ∧ common ++ [0] <+: right := by
  induction left generalizing right with
  | nil =>
      simp [strncmp]
  | cons a left inductionHypothesis =>
      cases right with
      | nil =>
          simp [strncmp]
      | cons b right =>
          have shorter :
              min (a :: left).length (b :: right).length =
                min left.length right.length + 1 := by
            simp only [List.length_cons]
            omega
          rw [shorter, strncmp]
          by_cases same : a = b
          · subst same
            by_cases zero : a = 0
            · simp only [ne_eq, not_true_eq_false, if_false, zero,
                if_true, true_iff]
              right
              right
              exact ⟨[], by simp, by simp⟩
            · simp only [ne_eq, not_true_eq_false, if_false, zero]
              rw [inductionHypothesis]
              simp only [List.cons_prefix_cons, true_and]
              constructor
              · rintro (left | right | ⟨common, inLeft, inRight⟩)
                · exact Or.inl left
                · exact Or.inr (Or.inl right)
                · exact Or.inr (Or.inr
                    ⟨a :: common, by simpa using inLeft,
                      by simpa using inRight⟩)
              · rintro (left | right | ⟨common, inLeft, inRight⟩)
                · exact Or.inl left
                · exact Or.inr (Or.inl right)
                · cases common with
                  | nil =>
                      simp only [List.nil_append, List.cons_prefix_cons]
                        at inLeft
                      exact absurd inLeft.1.symm zero
                  | cons c common =>
                      simp only [List.cons_append, List.cons_prefix_cons]
                        at inLeft inRight
                      exact Or.inr (Or.inr
                        ⟨common, inLeft.2, inRight.2⟩)
          · have different : (a.toNat : Int) - b.toNat ≠ 0 := by
              intro zero
              exact same (UInt8.toNat_inj.mp (by omega))
            simp only [ne_eq, same, not_false_eq_true, if_true, different,
              false_iff, List.cons_prefix_cons, false_and, false_or,
              Ne.symm same]
            rintro ⟨common, inLeft, inRight⟩
            cases common with
            | nil =>
                simp only [List.nil_append, List.cons_prefix_cons]
                  at inLeft inRight
                exact same (inLeft.1.symm.trans inRight.1)
            | cons c common =>
                simp only [List.cons_append, List.cons_prefix_cons]
                  at inLeft inRight
                exact same (inLeft.1.symm.trans inRight.1)

instance (left right : Bytes) : Decidable (Confusable left right) :=
  decidable_of_iff
    (left ≠ right ∧
      strncmp (min left.length right.length) left right = 0)
    (and_congr_right' (strncmp_eq_zero_iff left right))

/-- The characters of a string, compared lexicographically. -/
def characters (bytes : Bytes) : List Nat :=
  bytes.map UInt8.toNat

/-- A negative result is a lexicographic difference. -/
theorem characters_lt_of_strncmp_neg
    {n : Nat} {left right : Bytes}
    (negative : strncmp n left right < 0) :
    characters left < characters right := by
  induction n generalizing left right with
  | zero =>
      simp [strncmp] at negative
  | succ n inductionHypothesis =>
      cases left with
      | nil =>
          simp [strncmp] at negative
      | cons a left =>
          cases right with
          | nil =>
              simp [strncmp] at negative
          | cons b right =>
              simp only [strncmp] at negative
              simp only [characters, List.map_cons,
                List.cons_lt_cons_iff]
              split_ifs at negative with differ zero
              · left
                omega
              · omega
              · right
                exact ⟨by rw [not_not.mp differ],
                  inductionHypothesis negative⟩

/-- A positive result is a lexicographic difference the other way. -/
theorem characters_lt_of_strncmp_pos
    {n : Nat} {left right : Bytes}
    (positive : 0 < strncmp n left right) :
    characters right < characters left := by
  induction n generalizing left right with
  | zero =>
      simp [strncmp] at positive
  | succ n inductionHypothesis =>
      cases left with
      | nil =>
          simp [strncmp] at positive
      | cons a left =>
          cases right with
          | nil =>
              simp [strncmp] at positive
          | cons b right =>
              simp only [strncmp] at positive
              simp only [characters, List.map_cons,
                List.cons_lt_cons_iff]
              split_ifs at positive with differ zero
              · left
                omega
              · omega
              · right
                exact ⟨by rw [not_not.mp differ],
                  inductionHypothesis positive⟩

end Dfk
