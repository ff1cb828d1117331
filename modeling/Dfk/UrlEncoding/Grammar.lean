import Dfk.Library.Tokens
import Dfk.UrlEncoding.Source

/-!
# The grammar of encoded strings

An encoded string is a row of items: bytes that are not a percent sign, and
percent signs with two hexadecimal digits.  Decoding goes through the longest
row of items that its input begins with.
-/

namespace Dfk.UrlEncoding

/-- A hexadecimal digit, of either case. -/
def IsHexDigit (c : UInt8) : Prop :=
  48 ≤ c ∧ c ≤ 57 ∨ 65 ≤ c ∧ c ≤ 70 ∨ 97 ≤ c ∧ c ≤ 102

instance (c : UInt8) : Decidable (IsHexDigit c) :=
  inferInstanceAs (Decidable (_ ∨ _))

/-- What a hexadecimal digit stands for. -/
def hexValue (c : UInt8) : Nat :=
  if c ≤ 57 then c.toNat - 48
  else if c ≤ 70 then c.toNat - 55
  else c.toNat - 87

/-- The hexadecimal digits. -/
structure HexDigit where
  byte : UInt8
  isHex : IsHexDigit byte
  deriving Repr, DecidableEq

/-- An item of an encoded string. -/
inductive Item where
  | plain (byte : UInt8) (noPercent : byte ≠ 37)
  | escape (hi lo : HexDigit)
  deriving Repr, DecidableEq

namespace Item

/-- How an item is written. -/
def text : Item → Bytes
  | .plain byte _ => [byte]
  | .escape hi lo => [37, hi.byte, lo.byte]

/-- The byte an item stands for. -/
def value : Item → UInt8
  | .plain byte _ => byte
  | .escape hi lo => UInt8.ofNat (16 * hexValue hi.byte + hexValue lo.byte)

/-- It is an escape. -/
def isEscape : Item → Bool
  | .plain _ _ => false
  | .escape _ _ => true

/-- The item a string begins with. -/
def first : Bytes → Option Item
  | 37 :: hi :: lo :: _ =>
      if isHi : IsHexDigit hi then
        if isLo : IsHexDigit lo then some (.escape ⟨hi, isHi⟩ ⟨lo, isLo⟩)
        else none
      else none
  | c :: _ => if noPercent : c ≠ 37 then some (.plain c noPercent) else none
  | [] => none

/-- No item is written with no bytes. -/
theorem text_ne_nil (item : Item) : item.text ≠ [] := by
  cases item with
  | plain byte noPercent =>
      exact List.cons_ne_nil _ _
  | escape hi lo =>
      exact List.cons_ne_nil _ _

/-- A string begins with any other byte as an item. -/
theorem first_plain
    {c : UInt8}
    (noPercent : c ≠ 37) (rest : Bytes) :
    first (c :: rest) = some (.plain c noPercent) := by
  rw [first]
  · exact dif_pos noPercent
  · intro hi lo behind isPercent
    exact absurd isPercent noPercent

/-- A string begins with a percent sign and what is behind it. -/
theorem first_percent (hi lo : UInt8) (rest : Bytes) :
    first (37 :: hi :: lo :: rest) =
      if isHi : IsHexDigit hi then
        if isLo : IsHexDigit lo then some (.escape ⟨hi, isHi⟩ ⟨lo, isLo⟩)
        else none
      else none :=
  rfl

/-- An item is the first one of what begins with it. -/
theorem first_text (item : Item) (rest : Bytes) :
    first (item.text ++ rest) = some item := by
  cases item with
  | plain byte noPercent =>
      exact first_plain noPercent rest
  | escape hi lo =>
      exact (first_percent hi.byte lo.byte rest).trans
        ((dif_pos hi.isHex).trans (dif_pos lo.isHex))

/-- What begins with an item begins with what is written for it. -/
theorem text_of_first
    {word : Bytes} {item : Item}
    (begins : first word = some item) :
    item.text <+: word := by
  match word with
  | [] =>
      cases begins
  | c :: rest =>
      by_cases noPercent : c ≠ 37
      · rw [first_plain noPercent] at begins
        cases begins
        exact ⟨rest, rfl⟩
      · rw [not_not] at noPercent
        subst noPercent
        match rest with
        | [] =>
            cases begins
        | [_] =>
            cases begins
        | hi :: lo :: rest =>
            rw [first_percent] at begins
            split at begins
            · split at begins
              · cases begins
                exact ⟨rest, rfl⟩
              · cases begins
            · cases begins

end Item

/-- The items, as they are written. -/
def items : Lexicon UInt8 Item where
  text := Item.text
  next := Item.first
  text_ne_nil := Item.text_ne_nil
  next_text := Item.first_text
  text_of_next := Item.text_of_first

/-- A row of items. -/
def Encoded (bytes : Bytes) : Prop :=
  ∃ tokens, items.spell tokens = bytes

/-- How many escapes there are among items. -/
def escapes (tokens : List Item) : Nat :=
  tokens.countP Item.isEscape

/-- Each item is one byte, and two more if it is an escape. -/
theorem length_spell (tokens : List Item) :
    (items.spell tokens).length = tokens.length + 2 * escapes tokens := by
  induction tokens with
  | nil =>
      rfl
  | cons token tokens inductionHypothesis =>
      rw [Lexicon.spell_cons, List.length_append, inductionHypothesis,
        escapes, escapes, List.countP_cons, List.length_cons]
      cases token with
      | plain byte noPercent =>
          simp only [items, Item.text, Item.isEscape, List.length_singleton,
            Bool.false_eq_true, if_false]
          omega
      | escape hi lo =>
          simp only [items, Item.text, Item.isEscape, List.length_cons,
            List.length_nil, if_true]
          omega

/-!
## Rounds of the loop
-/

/-- The entry behind the bytes before it. -/
theorem entry_append (before : Bytes) (c : UInt8) (after : Bytes) :
    entry (before ++ c :: after) before.length = .ok c := by
  rw [entry, List.getElem?_append_right (Nat.le_refl _), Nat.sub_self,
    List.getElem?_cons_zero]

/-- The entry for a byte, in a table that a function fills. -/
theorem entry_of_fills
    {table : List UInt8} {digit : Nat → UInt8}
    (fills : table.take 256 = (List.range 256).map digit)
    (c : UInt8) :
    entry table c.toNat = .ok (digit c.toNat) := by
  have inside : c.toNat < 256 := c.toNat_lt
  have known : table[c.toNat]? = some (digit c.toNat) := by
    rw [← List.getElem?_take_of_lt inside, fills, List.getElem?_map,
      List.getElem?_range inside, Option.map_some]
  rw [entry, known]

/-- What a number stands for as a digit. -/
def hexEntry (n : Nat) : UInt8 :=
  if IsHexDigit (UInt8.ofNat n) then
    UInt8.ofNat (hexValue (UInt8.ofNat n))
  else
    0xFF

/-- The values stand in `hex_to_byte` in order. -/
theorem hexEntry_fills :
    hexToByte.take 256 = (List.range 256).map hexEntry := by
  decide +kernel

/-- A digit stands for less than sixteen. -/
theorem hexValue_lt {c : UInt8} : IsHexDigit c → hexValue c < 16 := by
  revert c
  apply forall_byte
  decide +kernel

/-- Nothing below sixteen is taken for a byte that is no digit. -/
theorem lowNibble_clear :
    ∀ value : Fin 16, UInt8.ofNat value &&& 0xF0 = 0 := by
  decide

/-- The table knows the hexadecimal digits and what they stand for. -/
theorem entry_hexToByte (c : UInt8) :
    ∃ value,
      entry hexToByte c.toNat = .ok value ∧
        (value &&& 0xF0 = 0 ↔ IsHexDigit c) ∧
        (IsHexDigit c → value = UInt8.ofNat (hexValue c)) := by
  refine ⟨_, entry_of_fills hexEntry_fills c, ?_⟩
  rw [hexEntry, UInt8.ofNat_toNat]
  by_cases isDigit : IsHexDigit c
  · rw [if_pos isDigit]
    have clear := lowNibble_clear ⟨hexValue c, hexValue_lt isDigit⟩
    exact ⟨iff_of_true clear isDigit, fun _ => rfl⟩
  · rw [if_neg isDigit]
    exact ⟨iff_of_false (by decide) isDigit,
      fun digit => absurd digit isDigit⟩

/-- Two digits are put together as a number is. -/
theorem join_digits
    {hi lo : Nat}
    (hiSmall : hi < 16) (loSmall : lo < 16) :
    UInt8.ofNat hi <<< 4 ||| UInt8.ofNat lo = UInt8.ofNat (16 * hi + lo) := by
  have all : ∀ hi lo : Fin 16,
      UInt8.ofNat hi <<< 4 ||| UInt8.ofNat lo =
        UInt8.ofNat (16 * hi + lo) := by
    decide
  exact all ⟨hi, hiSmall⟩ ⟨lo, loSmall⟩

section Rounds

variable {input before : Bytes} {fuel : Nat} {out : Bytes}

/-- A percent sign with what is behind it. -/
theorem urldecodeFrom_percent
    {hi lo : UInt8} {after : Bytes}
    (split : input = before ++ 37 :: hi :: lo :: after) :
    urldecodeFrom input (fuel + 1) before.length out =
      if IsHexDigit hi ∧ IsHexDigit lo then
        urldecodeFrom input fuel (before.length + 3)
          (out ++ [UInt8.ofNat (16 * hexValue hi + hexValue lo)])
      else .ok (before.length, out) := by
  have length : input.length = before.length + 3 + after.length := by
    rw [split]
    simp only [List.length_append, List.length_cons]
    omega
  have here : entry input before.length = .ok 37 := by
    rw [split]
    exact entry_append before 37 _
  have second : entry input (before.length + 1) = .ok hi := by
    have behind := entry_append (before ++ [37]) hi (lo :: after)
    rw [List.length_append, List.append_assoc] at behind
    rw [split]
    exact behind
  have third : entry input (before.length + 2) = .ok lo := by
    have behind := entry_append (before ++ [37, hi]) lo after
    rw [List.length_append, List.append_assoc] at behind
    rw [split]
    exact behind
  obtain ⟨hiByte, hiEntry, hiDigit, hiValue⟩ := entry_hexToByte hi
  obtain ⟨loByte, loEntry, loDigit, loValue⟩ := entry_hexToByte lo
  rw [urldecodeFrom, if_neg (by omega), here, ok_bind, if_pos rfl,
    if_neg (by omega), second, ok_bind, third, ok_bind, hiEntry, ok_bind,
    loEntry, ok_bind]
  by_cases digits : IsHexDigit hi ∧ IsHexDigit lo
  · obtain ⟨isHi, isLo⟩ := digits
    have accepted : ¬ (hiByte &&& 0xF0 ≠ 0 ∨ loByte &&& 0xF0 ≠ 0) := by
      rw [not_or, not_not, not_not]
      exact ⟨hiDigit.mpr isHi, loDigit.mpr isLo⟩
    rw [if_neg accepted, if_pos ⟨isHi, isLo⟩, hiValue isHi, loValue isLo,
      join_digits (hexValue_lt isHi) (hexValue_lt isLo)]
  · have refused : hiByte &&& 0xF0 ≠ 0 ∨ loByte &&& 0xF0 ≠ 0 := by
      rw [ne_eq, hiDigit, ne_eq, loDigit]
      exact not_and_or.mp digits
    rw [if_pos refused, if_neg digits]
    rfl

/-- Any other byte. -/
theorem urldecodeFrom_plain
    {c : UInt8} {after : Bytes}
    (split : input = before ++ c :: after)
    (noPercent : c ≠ 37) :
    urldecodeFrom input (fuel + 1) before.length out =
      urldecodeFrom input fuel (before.length + 1) (out ++ [c]) := by
  have goesOn : before.length ≠ input.length := by
    rw [split, List.length_append, List.length_cons]
    omega
  have here : entry input before.length = .ok c := by
    rw [split]
    exact entry_append before c after
  rw [urldecodeFrom, if_neg goesOn, here, ok_bind, if_neg noPercent]

/-- An item is decoded to its value. -/
theorem urldecodeFrom_item
    {item : Item} {after : Bytes}
    (split : input = before ++ (item.text ++ after)) :
    urldecodeFrom input (fuel + 1) before.length out =
      urldecodeFrom input fuel (before.length + item.text.length)
        (out ++ [item.value]) := by
  cases item with
  | plain byte noPercent =>
      exact urldecodeFrom_plain split noPercent
  | escape hi lo =>
      exact (urldecodeFrom_percent split).trans
        (if_pos ⟨hi.isHex, lo.isHex⟩)

/-- Decoding stops where no item begins. -/
theorem urldecodeFrom_stop
    {rest : Bytes}
    (split : input = before ++ rest)
    (ends : Item.first rest = none) :
    urldecodeFrom input (fuel + 1) before.length out =
      .ok (before.length, out) := by
  match rest with
  | [] =>
      have atEnd : before.length = input.length := by
        rw [split, List.append_nil]
      rw [urldecodeFrom, if_pos atEnd]
  | c :: after =>
      have isPercent : c = 37 := by
        by_contra noPercent
        rw [Item.first_plain noPercent] at ends
        cases ends
      subst isPercent
      match after with
      | hi :: lo :: after =>
          rw [urldecodeFrom_percent split, if_neg]
          rintro ⟨isHi, isLo⟩
          rw [Item.first_percent, dif_pos isHi, dif_pos isLo] at ends
          cases ends
      | [] =>
          have length : input.length = before.length + 1 := by
            rw [split, List.length_append, List.length_singleton]
          have here : entry input before.length = .ok 37 := by
            rw [split]
            exact entry_append before 37 []
          rw [urldecodeFrom, if_neg (by omega), here, ok_bind, if_pos rfl,
            if_pos (by omega)]
          rfl
      | [hi] =>
          have length : input.length = before.length + 2 := by
            rw [split]
            simp
          have here : entry input before.length = .ok 37 := by
            rw [split]
            exact entry_append before 37 [hi]
          rw [urldecodeFrom, if_neg (by omega), here, ok_bind, if_pos rfl,
            if_pos (by omega)]
          rfl

/-- The loop goes through the items that are left. -/
theorem urldecodeFrom_scans
    {word rest : Bytes} {tokens : List Item} (out : Bytes)
    (scans : items.Scans word tokens rest)
    (split : input = before ++ word)
    (enough : tokens.length < fuel) :
    urldecodeFrom input fuel before.length out =
      .ok
        (before.length + (items.spell tokens).length,
          out ++ tokens.map Item.value) := by
  induction tokens generalizing word before fuel out with
  | nil =>
      obtain ⟨fuel, rfl⟩ := Nat.exists_eq_add_one_of_ne_zero
        (Nat.ne_of_gt enough)
      have sameWord : word = rest := scans.spelled
      rw [sameWord] at split
      rw [urldecodeFrom_stop split scans.ends]
      simp
  | cons token tokens inductionHypothesis =>
      obtain ⟨fuel, rfl⟩ := Nat.exists_eq_add_one_of_ne_zero
        (Nat.ne_of_gt (Nat.lt_of_le_of_lt (Nat.zero_le _) enough))
      have spelled := scans.spelled
      rw [Lexicon.spell_cons, List.append_assoc] at spelled
      rw [spelled] at split
      have regrouped :
          input =
            (before ++ token.text) ++ (items.spell tokens ++ rest) := by
        rw [split, List.append_assoc]
        rfl
      have later : items.Scans (items.spell tokens ++ rest) tokens rest :=
        ⟨rfl, scans.ends⟩
      have tail :=
        inductionHypothesis (out ++ [token.value]) later regrouped
          (Nat.lt_of_succ_lt_succ enough)
      rw [List.length_append] at tail
      rw [urldecodeFrom_item split, tail]
      simp [items, Nat.add_assoc]

end Rounds

/-- Decoding goes through the items an input begins with. -/
theorem urldecode_scans
    {input rest : Bytes} {tokens : List Item}
    (scans : items.Scans input tokens rest) :
    urldecode input =
      .ok
        { consumed := (items.spell tokens).length
          out := tokens.map Item.value
          nwritten := tokens.length } := by
  have enough : tokens.length < input.length + 1 := by
    have spelled := congrArg List.length scans.spelled
    rw [List.length_append, length_spell] at spelled
    omega
  have loop :=
    urldecodeFrom_scans [] scans (List.nil_append input).symm enough
  rw [List.length_nil, Nat.zero_add, List.nil_append] at loop
  rw [urldecode, loop, ok_bind]
  simp

/-- What is left of an input behind its items. -/
theorem consumed_eq_length_iff
    {input rest : Bytes} {tokens : List Item}
    (scans : items.Scans input tokens rest) :
    (items.spell tokens).length = input.length ↔ rest = [] := by
  have length := congrArg List.length scans.spelled
  rw [List.length_append] at length
  rw [← List.length_eq_zero_iff]
  omega

/--
Decoding accepts the longest row of items that its input begins with, and
writes their values.
-/
theorem urldecode_accepts_grammar (input : Bytes) :
    ∃ decoded tokens,
      urldecode input = .ok decoded ∧
        IsGreatest
          {count | count ≤ input.length ∧ Encoded (input.take count)}
          decoded.consumed ∧
        items.spell tokens = input.take decoded.consumed ∧
        decoded.out = tokens.map Item.value ∧
        decoded.nwritten = decoded.out.length ∧
        decoded.nwritten + 2 * escapes tokens = decoded.consumed ∧
        (decoded.consumed = input.length ↔ Encoded input) ∧
        (decoded.consumed = input.length →
          ∀ more, ∃ later,
            urldecode more = .ok later ∧
              urldecode (input ++ more) =
                .ok
                  { consumed := decoded.consumed + later.consumed
                    out := decoded.out ++ later.out
                    nwritten := decoded.nwritten + later.nwritten }) := by
  obtain ⟨tokens, rest, scans⟩ := Lexicon.Scans.exists_scans
    items input
  have taken : input.take (items.spell tokens).length =
      items.spell tokens := by
    rw [scans.spelled, List.take_left]
  have inside : (items.spell tokens).length ≤ input.length := by
    rw [scans.spelled, List.length_append]
    exact Nat.le_add_right _ _
  refine ⟨_, tokens, urldecode_scans scans, ⟨⟨inside, tokens, taken.symm⟩, ?_⟩,
    taken.symm, rfl, (List.length_map _).symm, (length_spell tokens).symm,
    ?_, ?_⟩
  · rintro count ⟨atMost, others, spelled⟩
    have isPrefix : others <+: tokens := by
      have isWord : input = items.spell others ++ input.drop count := by
        rw [spelled, List.take_append_drop]
      exact scans.longest isWord
    obtain ⟨more, rfl⟩ := isPrefix
    have length := congrArg List.length spelled
    rw [List.length_take, Nat.min_eq_left atMost] at length
    rw [Lexicon.spell_append, List.length_append, length]
    exact Nat.le_add_right _ _
  · exact (consumed_eq_length_iff scans).trans scans.whole_iff
  · intro whole more
    obtain ⟨later, after, laterScans⟩ := Lexicon.Scans.exists_scans
      items more
    have nothing := (consumed_eq_length_iff scans).mp whole
    subst nothing
    refine ⟨_, urldecode_scans laterScans, ?_⟩
    rw [urldecode_scans (scans.append laterScans)]
    simp

end Dfk.UrlEncoding
