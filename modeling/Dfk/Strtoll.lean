import Dfk.Http.UrlEncoding

/-!
# Numbers in strings without a terminator

`strtoll.c`, for every base, over the `strtoll` of the C library.  Places are
offsets into the string.
-/

namespace Dfk.Strtoll

open Http (isSpace)

/-! ## The C library -/

/-- The value of a digit; 36 of a byte that is no digit in any base. -/
def digitValue (byte : UInt8) : Nat :=
  if 48 ≤ byte ∧ byte ≤ 57 then byte.toNat - 48
  else if 97 ≤ byte ∧ byte ≤ 122 then byte.toNat - 87
  else if 65 ≤ byte ∧ byte ≤ 90 then byte.toNat - 55
  else 36

def isDigit (base : Nat) (byte : UInt8) : Bool :=
  digitValue byte < base

/-- Whether a string starts with `0x` and a digit. -/
def isHexadecimal (text : Bytes) : Bool :=
  text.head? = some 48 &&
    (text[1]? = some 120 || text[1]? = some 88) &&
    text[2]?.any (isDigit 16)

/-- The base of the digits, and the length of the prefix that tells it. -/
def radix (base : Nat) (text : Bytes) : Nat × Nat :=
  if (base = 0 ∨ base = 16) ∧ isHexadecimal text then (16, 2)
  else if base = 0 then
    if text.head? = some 48 then (8, 0) else (10, 0)
  else (base, 0)

/-- What is read of a string as a number. -/
structure Numeral where
  negative : Bool
  base : Nat
  /-- The number of bytes in front of the digits. -/
  before : Nat
  digits : Bytes

/-- White space, a sign, the prefix of a base, and the digits. -/
def numeral (base : Nat) (text : Bytes) : Numeral :=
  let blank := (text.takeWhile isSpace).length
  let text := text.dropWhile isSpace
  let signed :=
    if text.head? = some 45 ∨ text.head? = some 43 then 1 else 0
  let negative := decide (text.head? = some 45)
  let text := text.drop signed
  let (base, hex) := radix base text
  { negative
    base
    before := blank + signed + hex
    digits := (text.drop hex).takeWhile (isDigit base) }

def Numeral.value (numeral : Numeral) : Int :=
  let magnitude :=
    numeral.digits.foldl
      (fun value digit => numeral.base * value + digitValue digit) 0
  if numeral.negative then - (magnitude : Int) else magnitude

/-- The number a string denotes, and the place where it ends. -/
def numberOf (base : Nat) (text : Bytes) : Option (Int × Nat) :=
  let read := numeral base text
  if read.digits = [] then none
  else some (read.value, read.before + read.digits.length)

inductive Errno where
  | zero
  | erange
  | einval
  deriving Repr, DecidableEq

structure Conversion where
  value : Int
  endptr : Nat
  errno : Errno

/-- A `long long`. -/
def Representable (number : Int) : Prop :=
  - 2 ^ 63 ≤ number ∧ number < 2 ^ 63

instance (number : Int) : Decidable (Representable number) :=
  inferInstanceAs (Decidable (_ ∧ _))

def ValidBase (base : Int) : Prop :=
  base = 0 ∨ 2 ≤ base ∧ base ≤ 36

instance (base : Int) : Decidable (ValidBase base) :=
  inferInstanceAs (Decidable (_ ∨ _))

/-- `strtoll`, on a string up to its zero byte. -/
def strtoll (text : Bytes) (base : Int) (errno : Errno) : Conversion :=
  if ValidBase base then
    match numberOf base.toNat (text.takeWhile (· ≠ 0)) with
    | none => ⟨0, 0, errno⟩
    | some (number, endptr) =>
        if number < - 2 ^ 63 then ⟨- 2 ^ 63, endptr, .erange⟩
        else if 2 ^ 63 ≤ number then ⟨2 ^ 63 - 1, endptr, .erange⟩
        else ⟨number, endptr, errno⟩
  else ⟨0, 0, .einval⟩

/-! ## The source -/

/-- How a conversion ends; the place is there if it has been asked for. -/
inductive Verdict where
  | ok (value : Int) (endptr : Option Nat)
  | overflow
  | badarg
  deriving Repr, DecidableEq

/--
`dfk_strtoll`.  The copy lies in memory that holds something already, and
`endptr` tells whether there is a pointer for the end.
-/
def dfkStrtoll (memory nbuf : Bytes) (endptr : Bool) (base : Int) :
    Except Fault Verdict :=
  if 22 ≤ nbuf.length then .ok .overflow
  else
    let ntcopy := nbuf ++ 0 :: memory.drop (nbuf.length + 1)
    let res := strtoll ntcopy base .zero
    if res.errno = .erange then .ok .overflow
    else if res.errno = .einval ∨ res.endptr = 0 then .ok .badarg
    else if endptr then do
      check (0 < res.endptr)
      pure (.ok res.value (some res.endptr))
    else .ok (.ok res.value none)

/-! ## What is read -/

variable {base : Int} {text memory nbuf : Bytes} {errno : Errno}

/-- The string ends where the bytes that are not zero end. -/
theorem takeWhile_terminated (nbuf rest : Bytes) :
    (nbuf ++ 0 :: rest).takeWhile (· ≠ 0) = nbuf.takeWhile (· ≠ 0) := by
  induction nbuf with
  | nil => rfl
  | cons byte nbuf inductionHypothesis =>
      rw [List.cons_append, List.takeWhile_cons, List.takeWhile_cons,
        inductionHypothesis]

/-- Nothing behind the terminator is read. -/
theorem strtoll_terminated (rest : Bytes) :
    strtoll (nbuf ++ 0 :: rest) base errno = strtoll nbuf base errno := by
  rw [strtoll, strtoll, takeWhile_terminated]

theorem takeWhile_of_noZero (noZero : 0 ∉ nbuf) :
    nbuf.takeWhile (· ≠ 0) = nbuf := by
  rw [List.takeWhile_eq_self_iff]
  intro byte member
  exact decide_eq_true fun isZero => noZero (isZero ▸ member)

theorem strtoll_takeWhile :
    strtoll (text.takeWhile (· ≠ 0)) base errno = strtoll text base errno := by
  rw [strtoll, strtoll, List.takeWhile_takeWhile]
  simp only [and_self, decide_eq_true_eq]

/-- A number ends in its string, behind the start. -/
theorem numberOf_inside
    {base : Nat} {number : Int} {last : Nat}
    (denotes : numberOf base text = some (number, last)) :
    0 < last ∧ last ≤ text.length := by
  rw [numberOf] at denotes
  by_cases nothing : (numeral base text).digits = []
  · rw [if_pos nothing] at denotes
    cases denotes
  · rw [if_neg nothing] at denotes
    cases denotes
    have some := List.length_pos_iff.mpr nothing
    refine ⟨Nat.lt_of_lt_of_le some (Nat.le_add_left _ _), ?_⟩
    have blank := congrArg List.length
      (List.takeWhile_append_dropWhile (p := isSpace) (l := text))
    rw [List.length_append] at blank
    rw [numeral] at some ⊢
    dsimp only at some ⊢
    generalize text.dropWhile isSpace = rest at *
    generalize (if rest.head? = Option.some 45 ∨ rest.head? = Option.some 43
      then 1 else 0) = signed at *
    generalize radix base (rest.drop signed) = prefixed at *
    have bounded :=
      (List.takeWhile_sublist (isDigit prefixed.1)
        (l := (rest.drop signed).drop prefixed.2)).length_le
    rw [List.length_drop, List.length_drop] at bounded
    omega

/-! ## The verdict of the C library -/

section

variable {number : Int} {last : Nat} {endptr : Bool}
variable (valid : ValidBase base) (noZero : 0 ∉ nbuf)
include valid noZero

theorem strtoll_of_none
    (denotes : numberOf base.toNat nbuf = none) :
    strtoll nbuf base errno = ⟨0, 0, errno⟩ := by
  rw [strtoll, if_pos valid, takeWhile_of_noZero noZero, denotes]

theorem strtoll_of_representable
    (denotes : numberOf base.toNat nbuf = some (number, last))
    (representable : Representable number) :
    strtoll nbuf base errno = ⟨number, last, errno⟩ := by
  rw [strtoll, if_pos valid, takeWhile_of_noZero noZero, denotes]
  dsimp only
  rw [if_neg (Int.not_lt.mpr representable.1),
    if_neg (Int.not_le.mpr representable.2)]

theorem strtoll_of_not_representable
    (denotes : numberOf base.toNat nbuf = some (number, last))
    (outside : ¬ Representable number) :
    (strtoll nbuf base errno).errno = .erange := by
  rw [strtoll, if_pos valid, takeWhile_of_noZero noZero, denotes]
  dsimp only
  by_cases low : number < - 2 ^ 63
  · rw [if_pos low]
  · rw [if_neg low]
    have high : 2 ^ 63 ≤ number := by
      apply Int.not_lt.mp
      intro small
      exact outside ⟨Int.not_lt.mp low, small⟩
    rw [if_pos high]

end

/--
A verdict is that of `strtoll` on a copy of the whole string: the number it
denotes with its end, an overflow, or that there is none.
-/
structure SameVerdict (base : Int) (nbuf : Bytes) (endptr : Bool)
    (verdict : Verdict) : Prop where
  ok_iff :
    ∀ value place,
      verdict = .ok value place ↔
        ∃ last, 0 < last ∧ last ≤ nbuf.length ∧
          strtoll (nbuf ++ [0]) base .zero = ⟨value, last, .zero⟩ ∧
          place = if endptr then some last else none
  overflow_iff :
    verdict = .overflow ↔
      ∃ number last,
        numberOf base.toNat nbuf = some (number, last) ∧
          ¬ Representable number
  badarg_iff : verdict = .badarg ↔ numberOf base.toNat nbuf = none

/-- Whatever the memory of the copy holds, the verdict is the same. -/
def IsStrtoll (base : Int) (nbuf : Bytes) : Prop :=
  ∀ memory endptr,
    ∃ verdict,
      dfkStrtoll memory nbuf endptr base = .ok verdict ∧
        SameVerdict base nbuf endptr verdict

section

variable {number : Int} {last : Nat} {endptr : Bool}
variable (valid : ValidBase base) (noZero : 0 ∉ nbuf)
include valid noZero

theorem sameVerdict_badarg
    (denotes : numberOf base.toNat nbuf = none) :
    SameVerdict base nbuf endptr .badarg where
  ok_iff := by
    intro value place
    rw [strtoll_terminated, strtoll_of_none valid noZero denotes]
    apply iff_of_false Verdict.noConfusion
    rintro ⟨last, positive, -, same, -⟩
    exact absurd positive (Nat.not_lt.mpr (congrArg Conversion.endptr same).ge)
  overflow_iff := by
    apply iff_of_false Verdict.noConfusion
    rintro ⟨number, last, denotes', -⟩
    rw [denotes] at denotes'
    cases denotes'
  badarg_iff := iff_of_true rfl denotes

theorem sameVerdict_overflow
    (denotes : numberOf base.toNat nbuf = some (number, last))
    (outside : ¬ Representable number) :
    SameVerdict base nbuf endptr .overflow where
  ok_iff := by
    intro value place
    apply iff_of_false Verdict.noConfusion
    rintro ⟨last, -, -, same, -⟩
    have isRange : (strtoll nbuf base .zero).errno = .erange :=
      strtoll_of_not_representable valid noZero denotes outside
    rw [strtoll_terminated] at same
    rw [same] at isRange
    cases isRange
  overflow_iff := iff_of_true rfl ⟨number, last, denotes, outside⟩
  badarg_iff := by
    apply iff_of_false Verdict.noConfusion
    rw [denotes]
    exact Option.some_ne_none _

theorem sameVerdict_ok
    (denotes : numberOf base.toNat nbuf = some (number, last))
    (representable : Representable number) :
    SameVerdict base nbuf endptr
      (.ok number (if endptr then some last else none)) where
  ok_iff := by
    intro value place
    rw [strtoll_terminated,
      strtoll_of_representable valid noZero denotes representable]
    constructor
    · intro same
      cases same
      have inside := numberOf_inside denotes
      exact ⟨last, inside.1, inside.2, rfl, rfl⟩
    · rintro ⟨last, -, -, same, rfl⟩
      cases same
      rfl
  overflow_iff := by
    apply iff_of_false Verdict.noConfusion
    rintro ⟨other, last', denotes', outside⟩
    rw [denotes] at denotes'
    cases denotes'
    exact outside representable
  badarg_iff := by
    apply iff_of_false Verdict.noConfusion
    rw [denotes]
    exact Option.some_ne_none _

/-- Of a short string the verdict is that of the C library. -/
theorem isStrtoll_of_short (short : nbuf.length < 22) :
    IsStrtoll base nbuf := by
  intro memory endptr
  rw [dfkStrtoll, if_neg (Nat.not_le.mpr short)]
  dsimp only
  rw [strtoll_terminated]
  cases denotes : numberOf base.toNat nbuf with
  | none =>
      refine ⟨.badarg, ?_, sameVerdict_badarg valid noZero denotes⟩
      rw [strtoll_of_none valid noZero denotes]
      rfl
  | some found =>
      obtain ⟨number, last⟩ := found
      by_cases representable : Representable number
      · refine ⟨_, ?_, sameVerdict_ok valid noZero denotes representable⟩
        have behind := (numberOf_inside denotes).1
        rw [strtoll_of_representable valid noZero denotes representable,
          if_neg Errno.noConfusion, if_neg (by simpa using behind.ne')]
        cases endptr with
        | true => rw [if_pos rfl, check_pos behind]; rfl
        | false => rfl
      · refine ⟨.overflow, ?_,
          sameVerdict_overflow valid noZero denotes representable⟩
        rw [if_pos
          (strtoll_of_not_representable valid noZero denotes representable)]

end

/-! ## Base 10 -/

theorem isDigit_ten : isDigit 10 = Http.isDecimalDigit :=
  funext (forall_byte (by decide +kernel))

theorem digitValue_of_isDecimalDigit :
    ∀ digit,
      Http.isDecimalDigit digit → digitValue digit = digit.toNat - 48 :=
  forall_byte (by decide +kernel)

/-- A row of decimal digits has one value. -/
theorem foldl_ten :
    ∀ {digits : Bytes},
      (∀ digit ∈ digits, Http.isDecimalDigit digit) →
        ∀ start,
          digits.foldl (fun value digit => 10 * value + digitValue digit)
              start =
            digits.foldl (fun value digit => 10 * value + (digit.toNat - 48))
              start := by
  intro digits
  induction digits with
  | nil =>
      intro decimal start
      rfl
  | cons first digits inductionHypothesis =>
      intro decimal start
      rw [List.foldl_cons, List.foldl_cons,
        digitValue_of_isDecimalDigit first (decimal first List.mem_cons_self)]
      exact inductionHypothesis
        (fun digit member => decimal digit (List.mem_cons_of_mem _ member)) _

/-- The verdict without the place. -/
def Verdict.converted : Verdict → Http.Converted
  | .ok value _ => .ok value
  | .overflow => .overflow
  | .badarg => .badarg

/-- The value of decimal digits with a sign. -/
theorem value_ten (negative : Bool) (before : Nat) (rest : Bytes) :
    (Numeral.mk negative 10 before (rest.takeWhile (isDigit 10))).value =
      if negative then
        - (Http.digitsValue (rest.takeWhile Http.isDecimalDigit) : Int)
      else Http.digitsValue (rest.takeWhile Http.isDecimalDigit) := by
  rw [Numeral.value, Http.digitsValue, isDigit_ten]
  dsimp only
  rw [foldl_ten fun digit member => List.mem_takeWhile_imp member]

/-- The verdict on a row of digits, by either of the two models. -/
theorem verdict_eq (digits : Bytes) (value : Int) (last : Nat) :
    (match if digits = [] then none else some (value, last) with
      | none => .badarg
      | some (number, _) =>
          if Representable number then .ok number else .overflow) =
      if digits = [] then Http.Converted.badarg
      else if value < - 2 ^ 63 ∨ 2 ^ 63 ≤ value then .overflow
      else .ok value := by
  by_cases nothing : digits = []
  · rw [if_pos nothing, if_pos nothing]
  · rw [if_neg nothing, if_neg nothing]
    dsimp only
    by_cases representable : Representable value
    · rw [if_pos representable, if_neg]
      rintro (low | high)
      · exact absurd low (Int.not_lt.mpr representable.1)
      · exact absurd high (Int.not_le.mpr representable.2)
    · rw [if_neg representable, if_pos]
      exact (not_and_or.mp representable).imp Int.not_le.mp Int.not_lt.mp

/-- `strtoll` for base 10, as a request uses it. -/
theorem http_strtoll_eq (text : Bytes) :
    Http.strtoll text =
      match numberOf 10 (text.takeWhile (· ≠ 0)) with
      | none => .badarg
      | some (number, _) =>
          if Representable number then .ok number else .overflow := by
  have noPrefix (text : Bytes) : radix 10 text = (10, 0) := by
    rw [radix, if_neg (fun hex => absurd hex.1 (by decide)),
      if_neg (by decide)]
  rw [numberOf, verdict_eq, numeral]
  dsimp only
  rw [noPrefix, value_ten, Http.strtoll]
  simp only [isDigit_ten]
  generalize (text.takeWhile (· ≠ 0)).dropWhile isSpace = rest
  cases rest with
  | nil => rfl
  | cons first rest =>
      by_cases minus : first = 45
      · subst minus
        simp
      · by_cases plus : first = 43
        · subst plus
          simp
        · simp [minus, plus]

/-- Where the place is not asked for, the request's model says the same. -/
theorem dfkStrtoll_ten (memory nbuf : Bytes) :
    ∃ verdict,
      dfkStrtoll memory nbuf false 10 = .ok verdict ∧
        Http.dfkStrtoll nbuf = verdict.converted := by
  rw [dfkStrtoll, Http.dfkStrtoll]
  by_cases long : 22 ≤ nbuf.length
  · rw [if_pos long, if_pos long]
    exact ⟨.overflow, rfl, rfl⟩
  · rw [if_neg long, if_neg long]
    dsimp only
    have valid : ValidBase 10 := by decide
    have noZero : 0 ∉ nbuf.takeWhile (· ≠ 0) := by
      intro member
      exact absurd (List.mem_takeWhile_imp member) (by decide)
    rw [strtoll_terminated, http_strtoll_eq, ← strtoll_takeWhile]
    cases denotes : numberOf 10 (nbuf.takeWhile (· ≠ 0)) with
    | none =>
        rw [strtoll_of_none valid noZero denotes]
        exact ⟨.badarg, rfl, rfl⟩
    | some found =>
        obtain ⟨number, last⟩ := found
        have behind := (numberOf_inside denotes).1
        dsimp only
        by_cases representable : Representable number
        · rw [strtoll_of_representable valid noZero denotes representable,
            if_neg Errno.noConfusion, if_neg (by simpa using behind.ne'),
            if_pos representable]
          exact ⟨.ok number none, rfl, rfl⟩
        · rw [if_neg representable, if_pos
            (strtoll_of_not_representable valid noZero denotes representable)]
          exact ⟨.overflow, rfl, rfl⟩

/--
The verdict is that of `strtoll`, if and only if the string is short, or the
number is out of range anyway.
-/
theorem dfk_strtoll_is_strtoll_iff
    (base : Int) (nbuf : Bytes)
    (valid : ValidBase base) (noZero : 0 ∉ nbuf) :
    IsStrtoll base nbuf ↔
      nbuf.length < 22 ∨
        ∃ number last,
          numberOf base.toNat nbuf = some (number, last) ∧
            ¬ Representable number := by
  by_cases short : nbuf.length < 22
  · exact iff_of_true (isStrtoll_of_short valid noZero short) (Or.inl short)
  · have refused (memory : Bytes) (endptr : Bool) :
        dfkStrtoll memory nbuf endptr base = .ok .overflow :=
      if_pos (Nat.le_of_not_lt short)
    constructor
    · intro isStrtoll
      obtain ⟨verdict, returns, same⟩ := isStrtoll [] false
      rw [refused] at returns
      cases returns
      exact Or.inr (same.overflow_iff.mp rfl)
    · intro outside memory endptr
      obtain ⟨number, last, denotes, outside⟩ := outside.resolve_left short
      exact ⟨.overflow, refused memory endptr,
        sameVerdict_overflow valid noZero denotes outside⟩

theorem dfk_strtoll_is_strtoll_iff_partial : IsStrtoll 10 (ascii "1901-2016") :=
  (dfk_strtoll_is_strtoll_iff 10 (ascii "1901-2016") (by decide)
    (by decide)).mpr (Or.inl (by decide))

/-- The number one with 21 zeros in front of it overflows. -/
theorem leading_zeros_overflow :
    dfkStrtoll [] (ascii "0000000000000000000001") true 10 = .ok .overflow ∧
      numberOf 10 (ascii "0000000000000000000001") = some (1, 22) ∧
      ¬ IsStrtoll 10 (ascii "0000000000000000000001") := by
  have denotes :
      numberOf 10 (ascii "0000000000000000000001") = some (1, 22) := by
    decide +kernel
  refine ⟨rfl, denotes, fun isStrtoll => ?_⟩
  obtain ⟨verdict, returns, same⟩ := isStrtoll [] true
  cases returns
  obtain ⟨number, last, denotes', outside⟩ := same.overflow_iff.mp rfl
  rw [show (10 : Int).toNat = 10 from rfl, denotes] at denotes'
  cases denotes'
  exact outside (by decide)

end Dfk.Strtoll
