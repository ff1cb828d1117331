import Dfk.UrlEncoding.Grammar

/-!
# Sizes of buffers

The hint for decoding takes every percent sign for an escape, while decoding
stops at the first one that is none.  Behind it each percent sign takes two
bytes off the hint.
-/

namespace Dfk.UrlEncoding

/-- Counting by two, in a `size_t`. -/
theorem foldl_two (chosen : UInt8 → Prop) [DecidablePred chosen] (buf : Bytes) :
    ∀ start,
      buf.foldl (fun s c => if chosen c then (s + 2) % 2 ^ 64 else s)
          (start % 2 ^ 64) =
        (start + 2 * buf.countP (fun c => chosen c)) % 2 ^ 64 := by
  induction buf with
  | nil =>
      intro start
      rw [List.foldl_nil, List.countP_nil, Nat.mul_zero, Nat.add_zero]
  | cons c buf inductionHypothesis =>
      intro start
      rw [List.foldl_cons, List.countP_cons]
      by_cases isChosen : chosen c
      · have next : (start % 2 ^ 64 + 2) % 2 ^ 64 = (start + 2) % 2 ^ 64 :=
          Nat.mod_add_mod start (2 ^ 64) 2
        rw [if_pos isChosen, next, inductionHypothesis, decide_eq_true isChosen,
          if_pos rfl, Nat.mul_add, Nat.add_right_comm, Nat.add_assoc start]
      · rw [if_neg isChosen, inductionHypothesis, decide_eq_false isChosen,
          if_neg Bool.false_ne_true, Nat.add_zero]

/-- Percent signs, counted twice. -/
theorem percentBytes_eq (buf : Bytes) :
    percentBytes buf = 2 * buf.count 37 % 2 ^ 64 := by
  have counted := foldl_two (fun c => c = 37) buf 0
  rw [Nat.zero_add, Nat.zero_mod] at counted
  have sameCount :
      buf.countP (fun c => decide (c = 37)) = buf.count 37 :=
    List.countP_congr fun c _ => by simp
  rw [percentBytes, counted, sameCount]

/-- The escapes among items are their percent signs. -/
theorem count_spell (tokens : List Item) :
    (items.spell tokens).count 37 = escapes tokens := by
  induction tokens with
  | nil =>
      rfl
  | cons token tokens inductionHypothesis =>
      rw [Lexicon.spell_cons, List.count_append, inductionHypothesis, escapes,
        escapes, List.countP_cons, Nat.add_comm]
      congr 1
      cases token with
      | plain byte noPercent =>
          simp [items, Item.text, Item.isEscape, noPercent]
      | escape hi lo =>
          have notPercent (digit : HexDigit) : digit.byte ≠ 37 := by
            intro isPercent
            have isHex := digit.isHex
            rw [isPercent] at isHex
            revert isHex
            decide
          simp [items, Item.text, Item.isEscape, notPercent]

/-- The hint is the size if no percent sign is counted. -/
theorem sizeSub_le_iff
    {size twice : Nat}
    (sized : size < 2 ^ 64) :
    sizeSub size (twice % 2 ^ 64) ≤ size ↔
      twice % 2 ^ 64 ≤ size := by
  have remainder : twice % 2 ^ 64 < 2 ^ 64 :=
    Nat.mod_lt _ (Nat.two_pow_pos 64)
  rw [sizeSub]
  omega

/-- Subtraction that does not go below zero. -/
theorem sizeSub_eq
    {size twice : Nat}
    (sized : size < 2 ^ 64) (atMost : twice ≤ size) :
    sizeSub size twice = size - twice := by
  rw [sizeSub]
  omega

/--
The hint for decoding is a safe size of a buffer exactly if no more than every
second byte is a percent sign behind the items the input begins with; counts
that wrap around are the exception.
-/
theorem urldecode_hint_safe_iff
    (heuristics : Bool) {buf : Bytes}
    (sized : buf.length < 2 ^ 64) :
    (∃ decoded,
        urldecode buf = .ok decoded ∧
          decoded.nwritten ≤ urldecodeHint heuristics buf ∧
          urldecodeHint heuristics buf ≤ buf.length) ↔
      heuristics = true ∨
        (∃ tokens rest,
          items.Scans buf tokens rest ∧ 2 * rest.count 37 ≤ rest.length) ∨
        2 ^ 64 ≤ 2 * buf.count 37 := by
  obtain ⟨tokens, rest, scans⟩ := Lexicon.Scans.exists_scans
    items buf
  have decodes := urldecode_scans scans
  have length : buf.length =
      tokens.length + 2 * escapes tokens + rest.length := by
    rw [scans.spelled, List.length_append, length_spell]
  have percents : buf.count 37 = escapes tokens + rest.count 37 := by
    rw [scans.spelled, List.count_append, count_spell]
  have few : rest.count 37 ≤ rest.length := List.count_le_length
  have onlyWay :
      (∃ tokens rest,
          items.Scans buf tokens rest ∧ 2 * rest.count 37 ≤ rest.length) ↔
        2 * rest.count 37 ≤ rest.length := by
    constructor
    · rintro ⟨others, after, again, atMost⟩
      rw [(scans.unique again).2] at atMost
      exact atMost
    · intro atMost
      exact ⟨tokens, rest, scans, atMost⟩
  rw [onlyWay]
  cases heuristics with
  | true =>
      have hint : urldecodeHint true buf = buf.length :=
        if_pos rfl
      rw [hint]
      have enough : tokens.length ≤ buf.length := by
        omega
      constructor
      · intro _
        exact Or.inl rfl
      · intro _
        exact ⟨_, decodes, enough, Nat.le_refl _⟩
  | false =>
      have hint :
          urldecodeHint false buf =
            sizeSub buf.length (2 * buf.count 37 % 2 ^ 64) := by
        rw [urldecodeHint, if_neg Bool.false_ne_true, percentBytes_eq]
      have same :
          (∃ decoded,
              urldecode buf = .ok decoded ∧
                decoded.nwritten ≤ urldecodeHint false buf ∧
                urldecodeHint false buf ≤ buf.length) ↔
            tokens.length ≤ urldecodeHint false buf ∧
              urldecodeHint false buf ≤ buf.length := by
        rw [decodes]
        constructor
        · rintro ⟨decoded, isDecoded, safe⟩
          cases isDecoded
          exact safe
        · intro safe
          exact ⟨_, rfl, safe⟩
      have remainder : 2 * buf.count 37 % 2 ^ 64 < 2 ^ 64 :=
        Nat.mod_lt _ (Nat.two_pow_pos 64)
      rw [same, hint, sizeSub_le_iff sized]
      by_cases wraps : 2 ^ 64 ≤ 2 * buf.count 37
      · -- what is counted is less than the size by as much as was lost
        have counted : 2 * buf.count 37 % 2 ^ 64 =
            2 * buf.count 37 - 2 ^ 64 := by
          omega
        have atMost : 2 * buf.count 37 - 2 ^ 64 ≤ buf.length := by
          omega
        rw [counted, sizeSub_eq sized atMost]
        constructor
        · intro _
          exact Or.inr (Or.inr wraps)
        · intro _
          omega
      · have counted : 2 * buf.count 37 % 2 ^ 64 = 2 * buf.count 37 :=
          Nat.mod_eq_of_lt (Nat.lt_of_not_le wraps)
        rw [counted]
        constructor
        · rintro ⟨enough, atMost⟩
          rw [sizeSub_eq sized atMost] at enough
          exact Or.inr (Or.inl (by omega))
        · rintro (isTrue | behind | long)
          · cases isTrue
          · have atMost : 2 * buf.count 37 ≤ buf.length := by
              omega
            rw [sizeSub_eq sized atMost]
            omega
          · exact absurd long wraps

/-- The hint for a string without escapes is its length. -/
theorem urldecode_hint_safe_iff_foo :
    (∃ decoded,
        urldecode (ascii "foo") = .ok decoded ∧
          decoded.nwritten ≤ urldecodeHint false (ascii "foo") ∧
          urldecodeHint false (ascii "foo") ≤ (ascii "foo").length) ↔
      false = true ∨
        (∃ tokens rest,
          items.Scans (ascii "foo") tokens rest ∧
            2 * rest.count 37 ≤ rest.length) ∨
        2 ^ 64 ≤ 2 * (ascii "foo").count 37 :=
  urldecode_hint_safe_iff false (by decide)

/-- One byte is decoded where the hint is for none. -/
theorem urldecode_hint_too_small :
    urldecode (ascii "a%") =
        .ok { consumed := 1, out := ascii "a", nwritten := 1 } ∧
      urldecodeHint false (ascii "a%") = 0 ∧
      urldecodeHint false (ascii "%") = 2 ^ 64 - 1 := by
  decide

end Dfk.UrlEncoding
