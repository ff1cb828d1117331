import Dfk.Fault
import Dfk.Bytes
import Dfk.Http.Headers

/-!
# Numbers and queries of a request

`strtoll.c` and `urlencoding.c`, and the automaton by which a request splits
its query into arguments.
-/

namespace Dfk.Http

/-- `isspace` -/
def isSpace (byte : UInt8) : Bool :=
  byte = 32 || (9 ≤ byte && byte ≤ 13)

/-- `isdigit` -/
def isDecimalDigit (byte : UInt8) : Bool :=
  48 ≤ byte && byte ≤ 57

/-- The value of a row of decimal digits. -/
def digitsValue (digits : Bytes) : Nat :=
  digits.foldl (fun value digit => 10 * value + (digit.toNat - 48)) 0

/-- How a conversion of a number ends. -/
inductive Converted where
  | ok (value : Int)
  | overflow
  | badarg
  deriving Repr, DecidableEq

/-- `strtoll` for base 10, on a string up to its zero byte. -/
def strtoll (text : Bytes) : Converted :=
  let text := (text.takeWhile (· ≠ 0)).dropWhile isSpace
  let (negative, text) :=
    match text with
    | 45 :: rest => (true, rest)
    | 43 :: rest => (false, rest)
    | _ => (false, text)
  let digits := text.takeWhile isDecimalDigit
  let value : Int :=
    if negative then - digitsValue digits else digitsValue digits
  if digits = [] then .badarg
  else if value < - 2 ^ 63 ∨ 2 ^ 63 ≤ value then .overflow
  else .ok value

/-- `dfk_strtoll` for base 10; the number is copied into 22 bytes. -/
def dfkStrtoll (nbuf : Bytes) : Converted :=
  if 22 ≤ nbuf.length then .overflow else strtoll nbuf

/-- `hex_to_byte`; `none` is the entry `0xFF`. -/
def hexToByte (digit : UInt8) : Option UInt8 :=
  if 48 ≤ digit ∧ digit ≤ 57 then some (digit - 48)
  else if 65 ≤ digit ∧ digit ≤ 70 then some (digit - 55)
  else if 97 ≤ digit ∧ digit ≤ 102 then some (digit - 87)
  else none

/-- `dfk_urldecode`; `none` if it does not decode all of the bytes. -/
def urldecode : Bytes → Option Bytes
  | [] => some []
  | 37 :: hi :: lo :: buf =>
      match hexToByte hi, hexToByte lo with
      | some hi, some lo => (urldecode buf).map ((hi <<< 4 ||| lo) :: ·)
      | _, _ => none
  | byte :: buf => if byte = 37 then none else (urldecode buf).map (byte :: ·)

/-- `dfk__urlencode_unreserved` -/
def urlencodeUnreserved (c : UInt8) : Bool :=
  (97 ≤ c && c ≤ 122) || (65 ≤ c && c ≤ 90) || (48 ≤ c && c ≤ 57) ||
    c = 45 || c = 46 || c = 95 || c = 126

/-- The entries of `bytehi_to_hex` and `bytelo_to_hex`. -/
def toHex (digit : UInt8) : UInt8 :=
  if digit < 10 then 48 + digit else 55 + digit

/-- `dfk_urlencode` -/
def urlencode : Bytes → Bytes
  | [] => []
  | b :: buf =>
      if urlencodeUnreserved b then b :: urlencode buf
      else 37 :: toHex (b >>> 4) :: toHex (b &&& 15) :: urlencode buf

/-- The states of the loop that parses a query, with what was read. -/
inductive QueryState where
  | initial
  | readingKey (key : Bytes)
  | observingSign (key : Bytes)
  | readingValue (key value : Bytes)
  deriving Repr, DecidableEq

/-- One character of a query, and the argument it ends. -/
def queryStep (state : QueryState) (character : UInt8) :
    QueryState × Option Header :=
  match state with
  | .initial => (.readingKey [character], none)
  | .readingKey key =>
      if character = 61 then (.observingSign key, none)
      else (.readingKey (key ++ [character]), none)
  | .observingSign key => (.readingValue key [character], none)
  | .readingValue key value =>
      if character = 38 then
        (.initial, some { name := key, value := value })
      else (.readingValue key (value ++ [character]), none)

end Dfk.Http
