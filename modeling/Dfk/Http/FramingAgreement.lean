import Dfk.Http.HeaderBlock
import Dfk.Http.BodyDelivery

/-!
# Framing of bodies

The parser and the library read the length of a body from the same header
block.  The parser finds the header however its name is spelled and takes any
number of digits.  The library looks up one spelling in its string map and
converts at most 21 characters.
-/

namespace Dfk.Http

variable {σ : Type}

/-- An upper case letter in lower case, other bytes as they are. -/
def lowerCase (byte : UInt8) : UInt8 :=
  if 65 ≤ byte ∧ byte ≤ 90 then byte + 32 else byte

/-- `Content-Length`, in any spelling. -/
def IsContentLength (name : Bytes) : Prop :=
  name.map lowerCase = contentLengthName.map lowerCase

instance (name : Bytes) : Decidable (IsContentLength name) :=
  inferInstanceAs (Decidable (_ = _))

/-- How a parser finds the length of a body that is not chunked. -/
structure HttpParser.ReadsContentLength (http : HttpParser σ) : Prop where
  /-- A header of that name has digits only, and they are the length. -/
  of_field :
    ∀ {bytes : Bytes} {stop : Stop σ} {field : Header},
      headEnd http bytes = some stop →
        http.chunked stop.resume = false →
        field ∈ headerFields http bytes →
        IsContentLength field.name →
          field.value ≠ [] ∧
            (∀ digit ∈ field.value, isDecimalDigit digit) ∧
            http.contentLength stop.resume =
              some (digitsValue field.value)

/-- What the search for `Content-Length` ends at when headers are stored. -/
def lookedUp (stored : List Header) : Option Header :=
  AvlShape.find (Headers.turn contentLengthName)
    (stored.foldl Headers.insert .leaf)

/-- The length that a value of a header is taken for. -/
def readAs (value : Bytes) : Int :=
  match dfkStrtoll value with
  | .ok number => if number = -1 then 0 else number
  | _ => 0

/--
The header that is looked up gives the right length: there is none and no
body, or it is `Content-Length` and short enough, or another one with the same
number.
-/
def LooksUp (length : Nat) : Option Header → Prop
  | none => length = 0
  | some header =>
      if header.name = contentLengthName then
        length = 0 ∨ header.value.length < 22 ∧ length < 2 ^ 63
      else readAs header.value = length

/-!
## Numbers
-/

/-- Digits are neither spaces nor signs nor zero bytes. -/
theorem strtoll_digits
    {digits : Bytes}
    (notEmpty : digits ≠ [])
    (decimal : ∀ digit ∈ digits, isDecimalDigit digit) :
    strtoll digits =
      if 2 ^ 63 ≤ digitsValue digits then .overflow
      else .ok (digitsValue digits) := by
  have noZero : digits.takeWhile (· ≠ 0) = digits := by
    rw [List.takeWhile_eq_self_iff]
    intro digit member
    have isDigit := decimal digit member
    simp only [isDecimalDigit] at isDigit
    grind
  have all : digits.takeWhile isDecimalDigit = digits := by
    rw [List.takeWhile_eq_self_iff]
    exact decimal
  cases digits with
  | nil =>
      exact absurd rfl notEmpty
  | cons first rest =>
      have isDigit := decimal first (List.mem_cons_self ..)
      have noSpace : isSpace first = false := by
        simp only [isDecimalDigit] at isDigit
        simp only [isSpace]
        grind
      have noMinus : first ≠ 45 := by
        rintro rfl
        revert isDigit
        decide
      have noPlus : first ≠ 43 := by
        rintro rfl
        revert isDigit
        decide
      rw [strtoll, noZero, List.dropWhile_cons_of_neg (by simp [noSpace])]
      dsimp only
      split
      · next text isMinus =>
          exact absurd (List.cons.inj isMinus).1 noMinus
      · next text isPlus =>
          exact absurd (List.cons.inj isPlus).1 noPlus
      · simp only [all, Bool.false_eq_true, if_false, if_neg notEmpty]
        by_cases long : 2 ^ 63 ≤ digitsValue (first :: rest)
        · rw [if_pos (Or.inr (by exact_mod_cast long)), if_pos long]
        · rw [if_neg (by omega), if_neg long]

/-- What a value of digits is taken for. -/
theorem readAs_digits
    {digits : Bytes}
    (notEmpty : digits ≠ [])
    (decimal : ∀ digit ∈ digits, isDecimalDigit digit) :
    readAs digits = digitsValue digits ↔
      digitsValue digits = 0 ∨
        digits.length < 22 ∧ digitsValue digits < 2 ^ 63 := by
  rw [readAs, dfkStrtoll, strtoll_digits notEmpty decimal]
  by_cases short : digits.length < 22
  · rw [if_neg (by omega)]
    by_cases long : 2 ^ 63 ≤ digitsValue digits
    · rw [if_pos long]
      dsimp only
      omega
    · rw [if_neg long]
      dsimp only
      rw [if_neg (by omega)]
      omega
  · rw [if_pos (by omega)]
    dsimp only
    omega

/-- The recorded length of a body that is not chunked. -/
theorem requestLength_eq (stored : List Header) :
    requestLength (stored.foldl Headers.insert .leaf) false =
      match lookedUp stored with
      | none => 0
      | some header => readAs header.value := by
  rw [requestLength, givenLength, Headers.get, lookedUp]
  rcases AvlShape.find (Headers.turn contentLengthName)
      (stored.foldl Headers.insert .leaf) with _ | ⟨name, value⟩
  · rfl
  · dsimp only [Option.map_some]
    cases value with
    | nil =>
        rfl
    | cons first rest =>
        rcases converted : dfkStrtoll (first :: rest) with
          number | _ | _
        · simp [readAs, converted]
        · simp [readAs, converted]
        · simp [readAs, converted]

/-- A header that is found is one of those stored. -/
theorem mem_of_lookedUp
    {stored : List Header} {header : Header}
    (found : lookedUp stored = some header) :
    header ∈ stored := by
  obtain ⟨member, -⟩ := AvlShape.find_sound found
  rcases Headers.mem_of_mem_foldl_insert stored member with inserted | none
  · exact inserted
  · cases none

/-- What is stored of a head was reported. -/
theorem mem_of_storedFields
    {fields : List Header} {allocations : List Bool} {header : Header}
    (member : header ∈ storedFields fields allocations) :
    header ∈ fields := by
  rw [storedFields] at member
  split at member
  · exact member
  · exact (List.dropLast_sublist fields).subset member

/--
The recorded framing is that of the parser exactly if the body is chunked or
the header that is looked up gives the right length.
-/
theorem framing_agrees_iff
    {http : HttpParser σ} {config : Config} {memory : Nat → Nat → UInt8}
    {fuel : Nat} {start world : World} {request : Request σ}
    (complete : http.Complete)
    (headsFirst : http.HeadsFirst)
    (readsLength : http.ReadsContentLength)
    (room : config.headerMaxSize ≤ config.headersBufferSize)
    (positive : 0 < config.headerMaxSize)
    (read :
      readHeaders http config memory fuel start =
        .ok (.ok, request, world)) :
    ((request.chunked = true ↔
          http.chunked request.parser.state = true) ∧
        (http.chunked request.parser.state = false →
          request.contentLength =
            ((http.contentLength request.parser.state).getD 0 : Nat))) ↔
      http.chunked request.parser.state = true ∨
        LooksUp ((http.contentLength request.parser.state).getD 0)
          (lookedUp
            (storedFields
              (headerFields http (firstGiven config memory start))
              (start.allocations.drop 2))) := by
  obtain ⟨accepted, -⟩ := readHeaders_accepted read
  obtain ⟨stop, isEnd, state, headers⟩ :=
    readHeaders_fields complete headsFirst room positive read
  cases chunked : http.chunked request.parser.state with
  | true =>
      simp [accepted.chunked, chunked]
  | false =>
      have recorded := accepted.contentLength
      rw [accepted.chunked, chunked, headers, requestLength_eq] at recorded
      simp only [accepted.chunked, chunked, Bool.false_eq_true, true_and,
        forall_const, false_or, recorded]
      rcases found :
          lookedUp
            (storedFields
              (headerFields http (firstGiven config memory start))
              (start.allocations.drop 2)) with _ | header
      · simp only [LooksUp]
        omega
      · simp only [LooksUp]
        split
        · next sameName =>
            have isLength : IsContentLength header.name := by
              rw [sameName]
              rfl
            rw [state] at chunked ⊢
            obtain ⟨notEmpty, decimal, length⟩ :=
              readsLength.of_field isEnd chunked
                (mem_of_storedFields (mem_of_lookedUp found)) isLength
            rw [length, Option.getD_some]
            exact readAs_digits notEmpty decimal
        · exact Iff.rfl

/-!
## A parser of one head
-/

/-- Its callbacks, on bytes that begin with the head. -/
theorem oneHead_stops
    {head : Bytes} {callbacks : List Callback} {length : Nat} {bytes : Bytes}
    (begins : head <+: bytes) :
    ((oneHead head callbacks length).execute .head bytes).stops =
      callbacks.map fun callback =>
        ⟨callback, head.length - 1, .body 1 length⟩ := by
  simp only [oneHead]
  rw [if_pos begins]

/-- It calls back on nothing else. -/
theorem oneHead_stops_other
    {head : Bytes} {callbacks : List Callback} {length : Nat} {bytes : Bytes}
    (begins : ¬ head <+: bytes) :
    ((oneHead head callbacks length).execute .head bytes).stops = [] := by
  simp only [oneHead]
  rw [if_neg begins]

/-- It completes no message before the head. -/
theorem oneHead_headsFirst
    {head : Bytes} {callbacks : List Callback} (length : Nat)
    (heads : .messageComplete ∉ callbacks) :
    (oneHead head callbacks length).HeadsFirst := by
  intro bytes member
  change Callback.messageComplete ∈ beforeHeadersComplete
    ((oneHead head callbacks length).execute .head bytes).stops at member
  by_cases begins : head <+: bytes
  · rw [oneHead_stops begins, beforeHeadersComplete, List.map_map] at member
    have inMap := (List.takeWhile_sublist _).subset member
    obtain ⟨callback, isCallback, same⟩ := List.mem_map.mp inMap
    exact heads (same ▸ isCallback)
  · rw [oneHead_stops_other begins] at member
    cases member

/-- The headers of its head, and where it stops behind them. -/
theorem oneHead_fields
    {head : Bytes} {callbacks : List Callback} {length : Nat}
    (fields : List Header)
    (reports :
      ∀ rest,
        reported (head ++ rest) none none
            (callbacks.takeWhile (· ≠ .headersComplete)) =
          fields)
    {bytes : Bytes} {stop : Stop HeadState}
    (isEnd : headEnd (oneHead head callbacks length) bytes = some stop) :
    headerFields (oneHead head callbacks length) bytes = fields ∧
      stop.resume = .body 1 length := by
  change ((oneHead head callbacks length).execute .head bytes).stops.find?
    _ = some stop at isEnd
  change reported bytes none none (beforeHeadersComplete
    ((oneHead head callbacks length).execute .head bytes).stops) = fields ∧ _
  by_cases begins : head <+: bytes
  · rw [oneHead_stops begins] at isEnd ⊢
    obtain ⟨rest, rfl⟩ := begins
    obtain ⟨callback, -, rfl⟩ :=
      List.mem_map.mp (List.mem_of_find?_eq_some isEnd)
    rw [beforeHeadersComplete, List.map_map]
    have sameCallbacks :
        callbacks.map
            (Stop.callback ∘ fun callback =>
              (⟨callback, head.length - 1, .body 1 length⟩ :
                Stop HeadState)) =
          callbacks := by
      simp [Function.comp_def]
    rw [sameCallbacks]
    exact ⟨reports rest, rfl⟩
  · rw [oneHead_stops_other begins] at isEnd
    cases isEnd

/-- It reads the length as it should if its head says so. -/
theorem oneHead_readsContentLength
    {head : Bytes} {callbacks : List Callback} {length : Nat}
    (fields : List Header)
    (reports :
      ∀ rest,
        reported (head ++ rest) none none
            (callbacks.takeWhile (· ≠ .headersComplete)) =
          fields)
    (lengths :
      ∀ field ∈ fields, IsContentLength field.name →
        field.value ≠ [] ∧ (∀ digit ∈ field.value, isDecimalDigit digit) ∧
          length = digitsValue field.value) :
    (oneHead head callbacks length).ReadsContentLength where
  of_field := by
    intro bytes stop field isEnd _ member isLength
    obtain ⟨isFields, resumes⟩ := oneHead_fields fields reports isEnd
    rw [isFields] at member
    obtain ⟨notEmpty, decimal, isValue⟩ := lengths field member isLength
    refine ⟨notEmpty, decimal, ?_⟩
    rw [← isValue, resumes]
    rfl

/-- The length of the example head is found. -/
theorem framing_agrees_iff_canonical :
    ((lengthRequest (ascii "\nabcGET")).chunked = true ↔
          lengthParser.chunked (.body 1 3) = true) ∧
        (lengthParser.chunked (.body 1 3) = false →
          (lengthRequest (ascii "\nabcGET")).contentLength =
            ((lengthParser.contentLength (.body 1 3)).getD 0 : Nat)) ↔
      lengthParser.chunked (.body 1 3) = true ∨
        LooksUp ((lengthParser.contentLength (.body 1 3)).getD 0)
          (lookedUp
            (storedFields
              (headerFields lengthParser
                (firstGiven largeBuffers (fun _ _ => 0)
                  (sending (lengthHead ++ ascii "abcGET") [])))
              [])) := by
  have read :
      readHeaders lengthParser largeBuffers (fun _ _ => 0) 1
          (sending (lengthHead ++ ascii "abcGET") []) =
        .ok (.ok, lengthRequest (ascii "\nabcGET"), sending [] []) := by
    decide
  have readsLength : lengthParser.ReadsContentLength :=
    oneHead_readsContentLength [⟨ascii "Content-Length", ascii "3"⟩]
      (fun _ => rfl) (by decide +kernel)
  exact
    framing_agrees_iff (oneHead_complete _ _ _)
      (oneHead_headsFirst 3 (by decide)) readsLength (by decide) (by decide)
      read

/-- The same head with the name in lower case. -/
def lowerHead : Bytes :=
  ascii "GET / HTTP/1.1\r\ncontent-length: 3\r\n\r\n"

/-- The parser expects three bytes, and the library none. -/
theorem lowerHead_disagrees :
    (oneHead lowerHead lengthCallbacks 3).ReadsContentLength ∧
      ∃ request world,
        readHeaders (oneHead lowerHead lengthCallbacks 3) largeBuffers
              (fun _ _ => 0) 1 (sending (lowerHead ++ ascii "abc") []) =
            .ok (.ok, request, world) ∧
          request.chunked = false ∧
          request.contentLength = 0 ∧
          (oneHead lowerHead lengthCallbacks 3).contentLength
              request.parser.state =
            some 3 := by
  refine
    ⟨oneHead_readsContentLength [⟨ascii "content-length", ascii "3"⟩]
      (fun _ => rfl) (by decide +kernel), ?_⟩
  exact ⟨_, _, rfl, by decide, by decide, by decide⟩

end Dfk.Http
