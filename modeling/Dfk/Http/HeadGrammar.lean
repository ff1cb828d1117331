import Dfk.Library.Cut
import Dfk.Http.Response

/-!
# The grammar of a response head

A status line, lines made of a name, a colon, a blank and a value, and an
empty line, each of them ended by CR LF.  The reader below cuts at the first
end of a line and at the first colon of a header.
-/

namespace Dfk.Http

open Cut

/-- What a response head says. -/
structure ResponseHead where
  majorVersion : Nat
  minorVersion : Nat
  status : Nat
  headers : List Header
  deriving Repr, DecidableEq

/-- A byte that is a decimal digit. -/
def IsDigit (byte : UInt8) : Prop := 48 ≤ byte.toNat ∧ byte.toNat ≤ 57

instance : DecidablePred IsDigit := fun byte =>
  inferInstanceAs (Decidable (48 ≤ byte.toNat ∧ byte.toNat ≤ 57))

/-- A number written with at least one digit. -/
def parseDecimal (digits : Bytes) : Option Nat :=
  if digits ≠ [] ∧ ∀ digit ∈ digits, IsDigit digit then
    some (digits.foldl
      (fun value digit => 10 * value + (digit.toNat - 48)) 0)
  else none

/-- A status line; what follows the status may be any reason. -/
def parseStatusLine (line : Bytes) : Option (Nat × Nat × Nat) :=
  if ascii "HTTP/" <+: line then do
    let (majorDigits, line) ← cut (ascii ".") (line.drop 5)
    let (minorDigits, line) ← cut (ascii " ") line
    let majorVersion ← parseDecimal majorDigits
    let minorVersion ← parseDecimal minorDigits
    let status ← parseDecimal (line.take 3)
    if ascii " " <+: line.drop 3 then
      some (majorVersion, minorVersion, status)
    else none
  else none

/-- A line that is a header. -/
def parseHeader (line : Bytes) : Option Header := do
  let (name, rest) ← cut (ascii ":") line
  if name ≠ [] ∧ ascii " " <+: rest then
    some { name := name, value := rest.drop 1 }
  else none

/-- Header lines up to an empty line, at most as many as the first argument. -/
def parseHeaders : Nat → Bytes → Option (List Header × Bytes)
  | 0, _ => none
  | count + 1, bytes => do
      let (line, rest) ← cut crlf bytes
      if line = [] then some ([], rest)
      else
        let header ← parseHeader line
        let (headers, rest) ← parseHeaders count rest
        some (header :: headers, rest)

/-- A response head, and the bytes after it. -/
def parseHead (bytes : Bytes) : Option (ResponseHead × Bytes) := do
  let (line, rest) ← cut crlf bytes
  let (majorVersion, minorVersion, status) ← parseStatusLine line
  let (headers, rest) ← parseHeaders bytes.length rest
  some
    ({ majorVersion := majorVersion
       minorVersion := minorVersion
       status := status
       headers := headers }, rest)

/-!
## Numbers
-/

/-- The characters of a number are digits. -/
theorem decimal_digits (n : Nat) : ∀ digit ∈ decimal n, IsDigit digit := by
  intro digit member
  obtain ⟨character, inDigits, rfl⟩ := List.mem_map.mp member
  have range :=
    Char.isDigit_iff_toNat.mp
      (Nat.isDigit_of_mem_toDigits (by decide) (by decide) inDigits)
  have small : '9'.toNat = 57 := rfl
  have large : '0'.toNat = 48 := rfl
  rw [IsDigit, UInt8.toNat_ofNat_of_lt' (show _ < 256 by omega)]
  omega

/-- No number is written with no digit. -/
theorem decimal_ne_nil (n : Nat) : decimal n ≠ [] := by
  intro empty
  exact Nat.toDigits_ne_nil (List.map_eq_nil_iff.mp empty)

/-- Numbers below 1000, and only those, have at most three digits. -/
theorem length_decimal_le_iff (n count : Nat) (some : 0 < count) :
    (decimal n).length ≤ count ↔ n < 10 ^ count := by
  rw [decimal, List.length_map]
  exact Nat.length_toDigits_le_iff (by decide) some

/-- Reading the digits of a number gives the number. -/
theorem parseDecimal_decimal (n : Nat) : parseDecimal (decimal n) = some n := by
  have value :
      ∀ (digits : List Char) (start : Nat),
        (∀ digit ∈ digits, digit.isDigit) →
          (digits.map fun digit => digit.toNat.toUInt8).foldl
              (fun value digit => 10 * value + (digit.toNat - 48)) start =
            Nat.ofDigitChars 10 digits start := by
    intro digits
    induction digits with
    | nil =>
        intro start _
        rfl
    | cons digit rest inductionHypothesis =>
        intro start areDigits
        have range :=
          Char.isDigit_iff_toNat.mp (areDigits digit (by simp))
        have small : '9'.toNat = 57 := rfl
        have same : digit.toNat.toUInt8.toNat = digit.toNat :=
          UInt8.toNat_ofNat_of_lt' (show _ < 256 by omega)
        rw [List.map_cons, List.foldl_cons, same,
          inductionHypothesis _
            (fun other member => areDigits other (by simp [member])),
          Nat.ofDigitChars_cons]
        rfl
  rw [parseDecimal, if_pos ⟨decimal_ne_nil n, decimal_digits n⟩, decimal,
    value _ 0 (fun digit member =>
      Nat.isDigit_of_mem_toDigits (by decide) (by decide) member),
    Nat.ofDigitChars_ten_toDigits]

/-!
## Reading what was written
-/

/-- A digit is not a given other byte. -/
theorem not_mem_decimal {n : Nat} {byte : UInt8} (other : ¬ IsDigit byte) :
    byte ∉ decimal n :=
  fun member => other (decimal_digits n byte member)

/-- A status of three digits is not padded. -/
theorem decimal3_of_three_digits
    {status : Nat}
    (threeDigits : 100 ≤ status ∧ status ≤ 999) :
    decimal3 status = decimal status ∧ (decimal status).length = 3 := by
  have atMost := (length_decimal_le_iff status 3 (by decide)).mpr (by omega)
  have more := mt (length_decimal_le_iff status 2 (by decide)).mp (by omega)
  have three : (decimal status).length = 3 := by omega
  refine ⟨?_, three⟩
  rw [decimal3, three]
  rfl

/-- A status line without its end. -/
def statusText (response : Response) : Bytes :=
  ascii "HTTP/" ++ (decimal response.majorVersion ++ (ascii "." ++
    (decimal response.minorVersion ++ (ascii " " ++
      (decimal response.status ++ (ascii " " ++
        ascii (reasonPhrase response.status)))))))

/-- The status line is its text and an end of line. -/
theorem statusLine_eq
    {response : Response}
    (threeDigits : 100 ≤ response.status ∧ response.status ≤ 999) :
    statusLine response = statusText response ++ crlf := by
  rw [statusLine, (decimal3_of_three_digits threeDigits).1, statusText]
  simp only [List.append_assoc]

/-- The text of a status line says the version and the status. -/
theorem parseStatusLine_statusText
    {response : Response}
    (threeDigits : 100 ≤ response.status ∧ response.status ≤ 999) :
    parseStatusLine (statusText response) =
      some (response.majorVersion, response.minorVersion,
        response.status) := by
  obtain ⟨-, three⟩ := decimal3_of_three_digits threeDigits
  have beforeDot : Free (ascii ".") (decimal response.majorVersion) :=
    free_singleton (not_mem_decimal (by decide))
  have beforeBlank : Free (ascii " ") (decimal response.minorVersion) :=
    free_singleton (not_mem_decimal (by decide))
  have version (rest : Bytes) :
      (ascii "HTTP/" ++ rest).drop 5 = rest :=
    rfl
  have statusThenReason (rest : Bytes) :
      (decimal response.status ++ rest).take 3 = decimal response.status ∧
        (decimal response.status ++ rest).drop 3 = rest := by
    rw [← three]
    simp
  rw [parseStatusLine, statusText, if_pos (List.prefix_append _ _), version,
    cut_join (by decide) _ beforeDot, Option.bind_eq_bind,
    Option.bind_some]
  dsimp only
  rw [cut_join (by decide) _ beforeBlank, Option.bind_eq_bind,
    Option.bind_some]
  dsimp only
  rw [(statusThenReason _).1, (statusThenReason _).2,
    parseDecimal_decimal, parseDecimal_decimal, parseDecimal_decimal]
  simp

/-- A header the grammar can tell apart from its surroundings. -/
def Clean (header : Header) : Prop :=
  header.name ≠ [] ∧ 58 ∉ header.name ∧
    Apart 13 10 header.name ∧ Apart 13 10 header.value

instance (header : Header) : Decidable (Clean header) :=
  inferInstanceAs (Decidable (_ ∧ _ ∧ _ ∧ _))

/-- The line of a header without its end. -/
def headerText (header : Header) : Bytes :=
  header.name ++ (colonSpace ++ header.value)

/-- A clean header is read from its line. -/
theorem parseHeader_headerText
    {header : Header}
    (clean : Clean header) :
    parseHeader (headerText header) = some header := by
  obtain ⟨named, noColon, -, -⟩ := clean
  have beforeColon : Free (ascii ":") header.name := free_singleton noColon
  have joined :
      headerText header =
        header.name ++ (ascii ":" ++ (ascii " " ++ header.value)) :=
    rfl
  rw [parseHeader, joined, cut_join (by decide) _ beforeColon,
    Option.bind_eq_bind, Option.bind_some]
  dsimp only
  rw [if_pos ⟨named, List.prefix_append _ _⟩]
  rfl

/-- The line of a clean header does not end early. -/
theorem free_headerText
    {header : Header}
    (clean : Clean header) :
    Free crlf (headerText header) := by
  obtain ⟨-, -, nameApart, valueApart⟩ := clean
  apply free_pair (by decide)
  apply apart_append nameApart
  · apply apart_append (by decide) valueApart
    intro last isLast head _ same
    have blank : last = 32 := by
      simpa [colonSpace] using isLast.symm
    rw [blank] at same
    exact absurd same.1 (by decide)
  · intro last _ head isHead same
    have colon : head = 58 := by
      simpa [colonSpace] using isHead.symm
    rw [colon] at same
    exact absurd same.2 (by decide)

/-- Clean headers and an empty line are read from what was written. -/
theorem parseHeaders_written
    (headers : List Header)
    (body : Bytes)
    (clean : ∀ header ∈ headers, Clean header) :
    ∀ count, headers.length < count →
      parseHeaders count
          ((headers.flatMap headerEntries).flatten ++ (crlf ++ body)) =
        some (headers, body) := by
  induction headers with
  | nil =>
      intro count enough
      have emptyLine :
          cut crlf (crlf ++ body) = some ([], body) :=
        cut_join (by decide) body (free_pair (by decide) List.IsChain.nil)
      cases count with
      | zero =>
          cases enough
      | succ count =>
          rw [parseHeaders, List.flatMap_nil, List.flatten_nil,
            List.nil_append, emptyLine, Option.bind_eq_bind,
            Option.bind_some]
          rfl
  | cons header headers inductionHypothesis =>
      intro count enough
      have headerClean := clean header (by simp)
      have line :
          (((header :: headers).flatMap headerEntries).flatten ++
              (crlf ++ body)) =
            headerText header ++
              (crlf ++ ((headers.flatMap headerEntries).flatten ++
                (crlf ++ body))) := by
        simp [headerEntries, headerText]
      have notEmpty : headerText header ≠ [] := by
        simp [headerText, colonSpace]
      cases count with
      | zero =>
          cases enough
      | succ count =>
          have rest :=
            inductionHypothesis
              (fun other member => clean other (by simp [member])) count
              (Nat.lt_of_succ_lt_succ enough)
          rw [parseHeaders, line,
            cut_join (by decide) _ (free_headerText headerClean),
            Option.bind_eq_bind, Option.bind_some]
          dsimp only
          rw [if_neg notEmpty, parseHeader_headerText headerClean, rest]
          rfl

/-- No reason has an end of line. -/
theorem not_mem_reasonPhrase (status : Nat) :
    (13 : UInt8) ∉ ascii (reasonPhrase status) := by
  unfold reasonPhrase
  split <;> decide +kernel

/-- The text of a status line has no end of line. -/
theorem free_statusText (response : Response) :
    Free crlf (statusText response) := by
  apply free_pair (by decide)
  apply apart_of_not_mem
  simp only [statusText, List.mem_append, not_or]
  exact ⟨by decide, not_mem_decimal (by decide), by decide,
    not_mem_decimal (by decide), by decide, not_mem_decimal (by decide),
    by decide, not_mem_reasonPhrase response.status⟩

/-- No header is written with no bytes. -/
theorem length_le_written (headers : List Header) :
    headers.length ≤ (headers.flatMap headerEntries).flatten.length := by
  induction headers with
  | nil =>
      exact Nat.le_refl _
  | cons header headers inductionHypothesis =>
      simp only [List.flatMap_cons, List.flatten_append,
        List.length_append, headerEntries, List.flatten_cons,
        List.length_cons, crlf]
      omega

/-- A head written with clean headers is read as what it was written for. -/
theorem parseHead_head
    {response : Response}
    (threeDigits : 100 ≤ response.status ∧ response.status ≤ 999)
    (clean : ∀ header ∈ response.headers.list, Clean header)
    (body : Bytes) :
    parseHead (head response ++ body) =
      some
        ({ majorVersion := response.majorVersion
           minorVersion := response.minorVersion
           status := response.status
           headers := response.headers.list }, body) := by
  have lines :
      head response ++ body =
        statusText response ++
          (crlf ++ ((response.headers.list.flatMap headerEntries).flatten ++
            (crlf ++ body))) := by
    simp [head, headBuffers, statusLine_eq threeDigits]
  have enough :
      response.headers.list.length < (head response ++ body).length := by
    have atMost := length_le_written response.headers.list
    rw [lines]
    simp only [List.length_append, crlf, List.length_cons]
    omega
  rw [parseHead]
  nth_rewrite 1 [lines]
  rw [cut_join (by decide) _ (free_statusText response),
    Option.bind_eq_bind, Option.bind_some]
  dsimp only
  rw [parseStatusLine_statusText threeDigits, Option.bind_eq_bind,
    Option.bind_some]
  dsimp only
  rw [parseHeaders_written _ body clean _ enough]
  rfl

end Dfk.Http
