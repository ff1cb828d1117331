import Dfk.Fault
import Dfk.Bytes

/-!
# URL encoding

`urlencoding.c`, with its tables.  A `size_t` is a number below `2 ^ 64`, and
the buffer that is decoded is read by position, so that reading past its end
is a fault.
-/

namespace Dfk.UrlEncoding

/-- `hex_to_byte` -/
def hexToByte : List UInt8 :=
  [0xFF, 0xFF, 0xFF, 0xFF, 0xFF, 0xFF, 0xFF, 0xFF,
    0xFF, 0xFF, 0xFF, 0xFF, 0xFF, 0xFF, 0xFF, 0xFF,
    0xFF, 0xFF, 0xFF, 0xFF, 0xFF, 0xFF, 0xFF, 0xFF,
    0xFF, 0xFF, 0xFF, 0xFF, 0xFF, 0xFF, 0xFF, 0xFF,
    0xFF, 0xFF, 0xFF, 0xFF, 0xFF, 0xFF, 0xFF, 0xFF,
    0xFF, 0xFF, 0xFF, 0xFF, 0xFF, 0xFF, 0xFF, 0xFF,
    0x00, 0x01, 0x02, 0x03, 0x04, 0x05, 0x06, 0x07,
    0x08, 0x09, 0xFF, 0xFF, 0xFF, 0xFF, 0xFF, 0xFF,
    0xFF, 0x0A, 0x0B, 0x0C, 0x0D, 0x0E, 0x0F, 0xFF,
    0xFF, 0xFF, 0xFF, 0xFF, 0xFF, 0xFF, 0xFF, 0xFF,
    0xFF, 0xFF, 0xFF, 0xFF, 0xFF, 0xFF, 0xFF, 0xFF,
    0xFF, 0xFF, 0xFF, 0xFF, 0xFF, 0xFF, 0xFF, 0xFF,
    0xFF, 0x0A, 0x0B, 0x0C, 0x0D, 0x0E, 0x0F, 0xFF,
    0xFF, 0xFF, 0xFF, 0xFF, 0xFF, 0xFF, 0xFF, 0xFF,
    0xFF, 0xFF, 0xFF, 0xFF, 0xFF, 0xFF, 0xFF, 0xFF,
    0xFF, 0xFF, 0xFF, 0xFF, 0xFF, 0xFF, 0xFF, 0xFF,
    0xFF, 0xFF, 0xFF, 0xFF, 0xFF, 0xFF, 0xFF, 0xFF,
    0xFF, 0xFF, 0xFF, 0xFF, 0xFF, 0xFF, 0xFF, 0xFF,
    0xFF, 0xFF, 0xFF, 0xFF, 0xFF, 0xFF, 0xFF, 0xFF,
    0xFF, 0xFF, 0xFF, 0xFF, 0xFF, 0xFF, 0xFF, 0xFF,
    0xFF, 0xFF, 0xFF, 0xFF, 0xFF, 0xFF, 0xFF, 0xFF,
    0xFF, 0xFF, 0xFF, 0xFF, 0xFF, 0xFF, 0xFF, 0xFF,
    0xFF, 0xFF, 0xFF, 0xFF, 0xFF, 0xFF, 0xFF, 0xFF,
    0xFF, 0xFF, 0xFF, 0xFF, 0xFF, 0xFF, 0xFF, 0xFF,
    0xFF, 0xFF, 0xFF, 0xFF, 0xFF, 0xFF, 0xFF, 0xFF,
    0xFF, 0xFF, 0xFF, 0xFF, 0xFF, 0xFF, 0xFF, 0xFF,
    0xFF, 0xFF, 0xFF, 0xFF, 0xFF, 0xFF, 0xFF, 0xFF,
    0xFF, 0xFF, 0xFF, 0xFF, 0xFF, 0xFF, 0xFF, 0xFF,
    0xFF, 0xFF, 0xFF, 0xFF, 0xFF, 0xFF, 0xFF, 0xFF,
    0xFF, 0xFF, 0xFF, 0xFF, 0xFF, 0xFF, 0xFF, 0xFF,
    0xFF, 0xFF, 0xFF, 0xFF, 0xFF, 0xFF, 0xFF, 0xFF,
    0xFF, 0xFF, 0xFF, 0xFF, 0xFF, 0xFF, 0xFF, 0xFF,
    0xFF, 0xFF, 0xFF, 0xFF, 0xFF, 0xFF, 0xFF, 0xFF,
    0xFF, 0xFF, 0xFF, 0xFF, 0xFF, 0xFF, 0xFF, 0xFF]

/-- `bytelo_to_hex` -/
def byteloToHex : List UInt8 :=
  [48, 49, 50, 51, 52, 53, 54, 55,
    56, 57, 65, 66, 67, 68, 69, 70,
    48, 49, 50, 51, 52, 53, 54, 55,
    56, 57, 65, 66, 67, 68, 69, 70,
    48, 49, 50, 51, 52, 53, 54, 55,
    56, 57, 65, 66, 67, 68, 69, 70,
    48, 49, 50, 51, 52, 53, 54, 55,
    56, 57, 65, 66, 67, 68, 69, 70,
    48, 49, 50, 51, 52, 53, 54, 55,
    56, 57, 65, 66, 67, 68, 69, 70,
    48, 49, 50, 51, 52, 53, 54, 55,
    56, 57, 65, 66, 67, 68, 69, 70,
    48, 49, 50, 51, 52, 53, 54, 55,
    56, 57, 65, 66, 67, 68, 69, 70,
    48, 49, 50, 51, 52, 53, 54, 55,
    56, 57, 65, 66, 67, 68, 69, 70,
    48, 49, 50, 51, 52, 53, 54, 55,
    56, 57, 65, 66, 67, 68, 69, 70,
    48, 49, 50, 51, 52, 53, 54, 55,
    56, 57, 65, 66, 67, 68, 69, 70,
    48, 49, 50, 51, 52, 53, 54, 55,
    56, 57, 65, 66, 67, 68, 69, 70,
    48, 49, 50, 51, 52, 53, 54, 55,
    56, 57, 65, 66, 67, 68, 69, 70,
    48, 49, 50, 51, 52, 53, 54, 55,
    56, 57, 65, 66, 67, 68, 69, 70,
    48, 49, 50, 51, 52, 53, 54, 55,
    56, 57, 65, 66, 67, 68, 69, 70,
    48, 49, 50, 51, 52, 53, 54, 55,
    56, 57, 65, 66, 67, 68, 69, 70,
    48, 49, 50, 51, 52, 53, 54, 55,
    56, 57, 65, 66, 67, 68, 69, 70,
    48, 49, 50, 51, 52, 53, 54, 55,
    56, 57, 65, 66, 67, 68, 69, 70]

/-- `bytehi_to_hex` -/
def bytehiToHex : List UInt8 :=
  [48, 48, 48, 48, 48, 48, 48, 48,
    48, 48, 48, 48, 48, 48, 48, 48,
    49, 49, 49, 49, 49, 49, 49, 49,
    49, 49, 49, 49, 49, 49, 49, 49,
    50, 50, 50, 50, 50, 50, 50, 50,
    50, 50, 50, 50, 50, 50, 50, 50,
    51, 51, 51, 51, 51, 51, 51, 51,
    51, 51, 51, 51, 51, 51, 51, 51,
    52, 52, 52, 52, 52, 52, 52, 52,
    52, 52, 52, 52, 52, 52, 52, 52,
    53, 53, 53, 53, 53, 53, 53, 53,
    53, 53, 53, 53, 53, 53, 53, 53,
    54, 54, 54, 54, 54, 54, 54, 54,
    54, 54, 54, 54, 54, 54, 54, 54,
    55, 55, 55, 55, 55, 55, 55, 55,
    55, 55, 55, 55, 55, 55, 55, 55,
    56, 56, 56, 56, 56, 56, 56, 56,
    56, 56, 56, 56, 56, 56, 56, 56,
    57, 57, 57, 57, 57, 57, 57, 57,
    57, 57, 57, 57, 57, 57, 57, 57,
    65, 65, 65, 65, 65, 65, 65, 65,
    65, 65, 65, 65, 65, 65, 65, 65,
    66, 66, 66, 66, 66, 66, 66, 66,
    66, 66, 66, 66, 66, 66, 66, 66,
    67, 67, 67, 67, 67, 67, 67, 67,
    67, 67, 67, 67, 67, 67, 67, 67,
    68, 68, 68, 68, 68, 68, 68, 68,
    68, 68, 68, 68, 68, 68, 68, 68,
    69, 69, 69, 69, 69, 69, 69, 69,
    69, 69, 69, 69, 69, 69, 69, 69,
    70, 70, 70, 70, 70, 70, 70, 70,
    70, 70, 70, 70, 70, 70, 70, 70]

/-- An entry of a buffer or of a table. -/
def entry (buf : Bytes) (position : Nat) : Except Fault UInt8 :=
  match buf[position]? with
  | some byte => .ok byte
  | none => .error .outOfBounds

/-- Subtraction of `size_t`. -/
def sizeSub (left right : Nat) : Nat :=
  (left + 2 ^ 64 - right) % 2 ^ 64

/-!
## Decoding
-/

/-- The loop of `dfk_urldecode_hint` that counts percent signs twice. -/
def percentBytes (buf : Bytes) : Nat :=
  buf.foldl (fun s c => if c = 37 then (s + 2) % 2 ^ 64 else s) 0

/-- `dfk_urldecode_hint`, with `DFK_URLENCODING_HINT_HEURISTICS` or without. -/
def urldecodeHint (heuristics : Bool) (buf : Bytes) : Nat :=
  if heuristics then buf.length
  else sizeSub buf.length (percentBytes buf)

/-- The loop of `dfk_urldecode`: where it stands, and what it has written. -/
def urldecodeFrom (input : Bytes) :
    Nat → Nat → Bytes → Except Fault (Nat × Bytes)
  | 0, _, _ => .error .outOfFuel
  | fuel + 1, buf, out =>
      if buf = input.length then .ok (buf, out)
      else do
        let c ← entry input buf
        if c = 37 then
          if input.length ≤ buf + 2 then pure (buf, out)
          else do
            let first ← entry input (buf + 1)
            let second ← entry input (buf + 2)
            let hi ← entry hexToByte first.toNat
            let lo ← entry hexToByte second.toNat
            if hi &&& 0xF0 ≠ 0 ∨ lo &&& 0xF0 ≠ 0 then pure (buf, out)
            else
              urldecodeFrom input fuel (buf + 3) (out ++ [hi <<< 4 ||| lo])
        else urldecodeFrom input fuel (buf + 1) (out ++ [c])

/-- The result of `dfk_urldecode`, with what it writes. -/
structure Decoded where
  consumed : Nat
  out : Bytes
  nwritten : Nat
  deriving Repr, DecidableEq

/-- `dfk_urldecode`; each round takes a byte at least. -/
def urldecode (input : Bytes) : Except Fault Decoded := do
  let (buf, out) ← urldecodeFrom input (input.length + 1) 0 []
  pure { consumed := buf, out := out, nwritten := out.length }

/-!
## Encoding
-/

/-- `dfk__urlencode_unreserved`; characters are signed. -/
def urlencodeUnreserved (c : UInt8) : Bool :=
  let c := c.toInt8.toInt
  (97 ≤ c && c ≤ 122) || (65 ≤ c && c ≤ 90) || (48 ≤ c && c ≤ 57) ||
    c = 45 || c = 46 || c = 95 || c = 126

/-- The loop of `dfk_urlencode_hint` that counts what escapes add. -/
def escapeBytes (buf : Bytes) : Nat :=
  buf.foldl
    (fun s c => if urlencodeUnreserved c then s else (s + 2) % 2 ^ 64) 0

/-- `dfk_urlencode_hint`, with `DFK_URLENCODING_HINT_HEURISTICS` or without. -/
def urlencodeHint (heuristics : Bool) (buf : Bytes) : Nat :=
  if heuristics then 3 * buf.length % 2 ^ 64
  else (buf.length + escapeBytes buf) % 2 ^ 64

/-- What one round of `dfk_urlencode` writes. -/
def encodeByte (b : UInt8) : Except Fault Bytes :=
  if urlencodeUnreserved b then .ok [b]
  else do
    let hi ← entry bytehiToHex b.toNat
    let lo ← entry byteloToHex b.toNat
    pure [37, hi, lo]

/-- The loop of `dfk_urlencode`, with what it has written. -/
def urlencodeFrom (out : Bytes) : Bytes → Except Fault Bytes
  | [] => .ok out
  | b :: buf => do
      let written ← encodeByte b
      urlencodeFrom (out ++ written) buf

/-- `dfk_urlencode`: its result, and what it writes. -/
def urlencode (buf : Bytes) : Except Fault (Nat × Bytes) := do
  let out ← urlencodeFrom [] buf
  pure (out.length % 2 ^ 64, out)

end Dfk.UrlEncoding
