import Dfk.UrlEncoding.Hints
import Dfk.Http.UrlEncoding

/-!
# Encoding and decoding

A byte is encoded as an item that stands for it, so that decoding an encoded
string gives the string back.  Requests decode their queries in this way.
-/

namespace Dfk.UrlEncoding

/-- The unreserved characters: letters, digits and four marks. -/
def IsUnreserved (c : UInt8) : Prop :=
  97 ≤ c ∧ c ≤ 122 ∨ 65 ≤ c ∧ c ≤ 90 ∨ 48 ≤ c ∧ c ≤ 57 ∨
    c ∈ ascii "-._~"

instance (c : UInt8) : Decidable (IsUnreserved c) :=
  inferInstanceAs (Decidable (_ ∨ _))

/-- A hexadecimal digit that is no lower case letter. -/
def IsUpperHexDigit (c : UInt8) : Prop :=
  48 ≤ c ∧ c ≤ 57 ∨ 65 ≤ c ∧ c ≤ 70

instance (c : UInt8) : Decidable (IsUpperHexDigit c) :=
  inferInstanceAs (Decidable (_ ∨ _))

/-- An item as encoding writes it. -/
def Canonical : Item → Prop
  | .plain byte _ => IsUnreserved byte
  | .escape hi lo => IsUpperHexDigit hi.byte ∧ IsUpperHexDigit lo.byte

/-- Signed or not, the unreserved characters are found. -/
theorem urlencodeUnreserved_iff (c : UInt8) :
    urlencodeUnreserved c = true ↔ IsUnreserved c := by
  revert c
  apply forall_byte
  decide +kernel

/-- No unreserved character is a percent sign. -/
theorem not_percent {c : UInt8} (unreserved : IsUnreserved c) : c ≠ 37 := by
  rintro rfl
  revert unreserved
  decide

/-- The upper case digit that stands for a number. -/
def upperDigit (n : Nat) : UInt8 :=
  if n < 10 then UInt8.ofNat (48 + n) else UInt8.ofNat (55 + n)

/-- It is one, and stands for the number. -/
theorem upperDigit_stands :
    ∀ n : Fin 16,
      IsUpperHexDigit (upperDigit n) ∧ hexValue (upperDigit n) = n := by
  decide

/-- The digits of the sixteens and of the ones stand in order. -/
theorem toHex_fills :
    (bytehiToHex.take 256 =
        (List.range 256).map fun n => upperDigit (n / 16)) ∧
      byteloToHex.take 256 =
        (List.range 256).map fun n => upperDigit (n % 16) := by
  decide +kernel

/-- The tables give two upper case digits that stand for the byte. -/
theorem entry_toHex (b : UInt8) :
    ∃ hi lo,
      entry bytehiToHex b.toNat = .ok hi ∧
        entry byteloToHex b.toNat = .ok lo ∧
        IsUpperHexDigit hi ∧ IsUpperHexDigit lo ∧
        UInt8.ofNat (16 * hexValue hi + hexValue lo) = b := by
  have inside : b.toNat / 16 < 16 := Nat.div_lt_of_lt_mul b.toNat_lt
  obtain ⟨hiUpper, hiStands⟩ := upperDigit_stands ⟨b.toNat / 16, inside⟩
  obtain ⟨loUpper, loStands⟩ :=
    upperDigit_stands ⟨b.toNat % 16, Nat.mod_lt _ (by decide)⟩
  obtain ⟨hiFills, loFills⟩ := toHex_fills
  refine ⟨_, _, entry_of_fills hiFills b, entry_of_fills loFills b,
    hiUpper, loUpper, ?_⟩
  rw [hiStands, loStands, Nat.div_add_mod, UInt8.ofNat_toNat]

/-- Upper case digits are digits. -/
theorem IsUpperHexDigit.isHex
    {c : UInt8} (isUpper : IsUpperHexDigit c) :
    IsHexDigit c := by
  rcases isUpper with isDecimal | isLetter
  · exact Or.inl isDecimal
  · exact Or.inr (Or.inl isLetter)

/-- A byte is encoded as an item that stands for it. -/
theorem encodeByte_item (b : UInt8) :
    ∃ item,
      encodeByte b = .ok item.text ∧ Canonical item ∧ item.value = b ∧
        (item.isEscape = true ↔ ¬ IsUnreserved b) := by
  by_cases unreserved : IsUnreserved b
  · refine ⟨.plain b (not_percent unreserved), ?_, unreserved, rfl, ?_⟩
    · exact if_pos ((urlencodeUnreserved_iff b).mpr unreserved)
    · simp [Item.isEscape, unreserved]
  · obtain ⟨hi, lo, hiEntry, loEntry, hiUpper, loUpper, stands⟩ :=
      entry_toHex b
    refine ⟨.escape ⟨hi, hiUpper.isHex⟩ ⟨lo, loUpper.isHex⟩, ?_,
      ⟨hiUpper, loUpper⟩, stands, ?_⟩
    · rw [encodeByte, if_neg (mt (urlencodeUnreserved_iff b).mp unreserved),
        hiEntry, ok_bind, loEntry]
      rfl
    · simp [Item.isEscape, unreserved]

/-- The reserved characters of a string. -/
def reserved (buf : Bytes) : Nat :=
  buf.countP fun c => ¬ IsUnreserved c

/-- A string is encoded as items that stand for its bytes. -/
theorem urlencodeFrom_items (buf : Bytes) :
    ∀ out, ∃ tokens,
      urlencodeFrom out buf = .ok (out ++ items.spell tokens) ∧
        (∀ token ∈ tokens, Canonical token) ∧
        tokens.map Item.value = buf ∧
        escapes tokens = reserved buf := by
  induction buf with
  | nil =>
      intro out
      refine ⟨[], ?_, ?_, rfl, rfl⟩
      · rw [urlencodeFrom, Lexicon.spell_nil, List.append_nil]
      · intro token member
        cases member
  | cons b buf inductionHypothesis =>
      intro out
      obtain ⟨item, encodes, canonical, stands, isEscape⟩ :=
        encodeByte_item b
      obtain ⟨tokens, rest, allCanonical, standFor, counted⟩ :=
        inductionHypothesis (out ++ item.text)
      refine ⟨item :: tokens, ?_, ?_, ?_, ?_⟩
      · rw [urlencodeFrom, encodes, ok_bind, rest, List.append_assoc]
        rfl
      · exact List.forall_mem_cons.mpr ⟨canonical, allCanonical⟩
      · rw [List.map_cons, stands, standFor]
      · rw [escapes, List.countP_cons, reserved, List.countP_cons]
        rw [escapes, reserved] at counted
        rw [counted]
        simp [isEscape]

/-- What is encoded, as items. -/
theorem urlencode_items (buf : Bytes) :
    ∃ tokens,
      urlencode buf =
          .ok ((items.spell tokens).length % 2 ^ 64, items.spell tokens) ∧
        (∀ token ∈ tokens, Canonical token) ∧
        tokens.map Item.value = buf ∧
        escapes tokens = reserved buf := by
  obtain ⟨tokens, encodes, facts⟩ := urlencodeFrom_items buf []
  rw [List.nil_append] at encodes
  refine ⟨tokens, ?_, facts⟩
  rw [urlencode, encodes]
  rfl

/-- What escapes add, in a `size_t`. -/
theorem escapeBytes_eq (buf : Bytes) :
    escapeBytes buf = 2 * reserved buf % 2 ^ 64 := by
  have counted := foldl_two (fun c => ¬ IsUnreserved c) buf 0
  rw [Nat.zero_add, Nat.zero_mod] at counted
  rw [reserved, ← counted, escapeBytes]
  congr 1
  funext s c
  by_cases unreserved : IsUnreserved c
  · rw [if_pos ((urlencodeUnreserved_iff c).mpr unreserved),
      if_neg (not_not_intro unreserved)]
  · rw [if_neg (mt (urlencodeUnreserved_iff c).mp unreserved),
      if_pos unreserved]

/--
Encoding writes unreserved characters and escapes with upper case digits, as
many bytes as the hint says; decoding gives back what was encoded.
-/
theorem url_coding_round_trip (x : Bytes) :
    ∃ out tokens,
      urlencode x = .ok (urlencodeHint false x, out) ∧
        urlencodeHint false x = out.length % 2 ^ 64 ∧
        items.spell tokens = out ∧ (∀ token ∈ tokens, Canonical token) ∧
        urldecode out =
          .ok { consumed := out.length, out := x, nwritten := x.length } ∧
        ∀ y count, urlencode y = .ok (count, out) → y = x := by
  obtain ⟨tokens, encodes, canonical, standFor, counted⟩ := urlencode_items x
  have hint :
      urlencodeHint false x = (items.spell tokens).length % 2 ^ 64 := by
    rw [urlencodeHint, if_neg Bool.false_ne_true, escapeBytes_eq,
      Nat.add_mod_mod, length_spell, counted, ← standFor, List.length_map]
  have decodes := urldecode_scans (Lexicon.Scans.spell items tokens)
  have length : tokens.length = x.length := by
    rw [← standFor, List.length_map]
  rw [standFor, length] at decodes
  rw [← hint] at encodes
  refine ⟨_, tokens, encodes, hint, rfl, canonical, decodes, ?_⟩
  intro y count again
  obtain ⟨others, encodesY, -, standForY, -⟩ := urlencode_items y
  rw [encodesY] at again
  have sameWord := (Prod.mk.inj (Except.ok.inj again)).2
  have same : others = tokens := Lexicon.spell_injective sameWord
  rw [← standForY, same, standFor]

/-!
## Queries of requests
-/

/-- A digit has its value, and other bytes none. -/
theorem hexToByte_eq (c : UInt8) :
    Http.hexToByte c =
      if IsHexDigit c then some (UInt8.ofNat (hexValue c)) else none := by
  revert c
  apply forall_byte
  decide +kernel

/-- Items in front are decoded to their values. -/
theorem urldecode_spell (tokens : List Item) (rest : Bytes) :
    Http.urldecode (items.spell tokens ++ rest) =
      (Http.urldecode rest).map (tokens.map Item.value ++ ·) := by
  induction tokens with
  | nil =>
      rw [Lexicon.spell_nil, List.nil_append]
      cases Http.urldecode rest with
      | none =>
          rfl
      | some decoded =>
          rfl
  | cons token tokens inductionHypothesis =>
      rw [Lexicon.spell_cons, List.append_assoc]
      cases token with
      | plain byte noPercent =>
          have step :
              Http.urldecode (byte :: (items.spell tokens ++ rest)) =
                (Http.urldecode (items.spell tokens ++ rest)).map
                  (byte :: ·) := by
            rw [Http.urldecode]
            · exact if_neg noPercent
            · intro hi lo behind isPercent
              exact absurd isPercent noPercent
          refine step.trans ?_
          rw [inductionHypothesis, Option.map_map]
          rfl
      | escape hi lo =>
          have step :
              Http.urldecode
                  (37 :: hi.byte :: lo.byte :: (items.spell tokens ++ rest)) =
                (Http.urldecode (items.spell tokens ++ rest)).map
                  ((Item.escape hi lo).value :: ·) := by
            rw [Http.urldecode, hexToByte_eq, hexToByte_eq, if_pos hi.isHex,
              if_pos lo.isHex]
            dsimp only
            rw [join_digits (hexValue_lt hi.isHex) (hexValue_lt lo.isHex)]
            rfl
          refine step.trans ?_
          rw [inductionHypothesis, Option.map_map]
          rfl

/-- Nothing is decoded where no item begins. -/
theorem urldecode_of_ends
    {rest : Bytes}
    (ends : Item.first rest = none) (notEmpty : rest ≠ []) :
    Http.urldecode rest = none := by
  match rest with
  | [] =>
      exact absurd rfl notEmpty
  | c :: after =>
      have isPercent : c = 37 := by
        by_contra noPercent
        rw [Item.first_plain noPercent] at ends
        cases ends
      subst isPercent
      match after with
      | [] =>
          rfl
      | [_] =>
          rfl
      | hi :: lo :: after =>
          rw [Http.urldecode, hexToByte_eq, hexToByte_eq]
          rw [Item.first_percent] at ends
          by_cases isHi : IsHexDigit hi
          · by_cases isLo : IsHexDigit lo
            · rw [dif_pos isHi, dif_pos isLo] at ends
              cases ends
            · rw [if_pos isHi, if_neg isLo]
          · rw [if_neg isHi]

/-- A request decodes a query if all of it is consumed. -/
theorem http_urldecode_eq (query : Bytes) :
    ∃ decoded,
      urldecode query = .ok decoded ∧
        Http.urldecode query =
          if decoded.consumed = query.length then some decoded.out
          else none := by
  obtain ⟨tokens, rest, scans⟩ := Lexicon.Scans.exists_scans
    items query
  refine ⟨_, urldecode_scans scans, ?_⟩
  have whole := consumed_eq_length_iff scans
  have decodes := urldecode_spell tokens rest
  rw [← scans.spelled] at decodes
  rw [decodes]
  by_cases nothing : rest = []
  · subst nothing
    rw [if_pos (whole.mpr rfl), Http.urldecode, Option.map_some,
      List.append_nil]
  · rw [if_neg (mt whole.mp nothing), urldecode_of_ends scans.ends nothing]
    rfl

end Dfk.UrlEncoding
