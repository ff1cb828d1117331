import Dfk.Http.BodyRounds

/-!
# The result of reading a body

`dfk_http_request_read` and `dfk_http_request_readv` return numbers of bytes
and error codes through one channel.  A call is honest if the two cannot be
mistaken for each other.
-/

namespace Dfk.Http

open Loops

variable {σ : Type}

/-- `dfk_err_badarg` -/
def errBadarg : Int := 5

/-- `dfk_iovec_t`: whether its pointer is set, and its size. -/
structure Iovec where
  data : Bool
  size : Nat
  deriving Repr, DecidableEq

/-- `dfk_http_request_read`, with its checks; `none` is `NULL`. -/
def httpRequestRead (http : HttpParser σ) (fuel : Nat)
    (req : Option (Request σ)) (world : World) (buf : Iovec) :
    Except Fault (Int × Option (BodyReading σ)) :=
  match req with
  | none => .ok (-1, none)
  | some request =>
      if buf.data = false ∧ buf.size ≠ 0 then .ok (-1, none)
      else do
        let (result, reading) ←
          requestRead http fuel request world buf.size
        pure (result, some reading)

/-- `dfk_http_request_readv` -/
def httpRequestReadv (http : HttpParser σ) (fuel : Nat)
    (req : Option (Request σ)) (world : World)
    (iov : Option (List Iovec)) (niov : Nat) :
    Except Fault (Int × Option (BodyReading σ)) :=
  if req.isNone ∨ iov.isNone ∧ niov ≠ 0 then .ok (errBadarg, none)
  else
    match iov with
    | none => .error .nullPointer
    | some [] => .error .outOfBounds
    | some (buf :: _) => httpRequestRead http fuel req world buf

/-- A call of one of the two functions. -/
inductive ReadCall (σ : Type) where
  | read (req : Option (Request σ)) (buf : Iovec)
  | readv (req : Option (Request σ)) (iov : Option (List Iovec)) (niov : Nat)
  deriving Repr, DecidableEq

namespace ReadCall

/-- What the call returns, and what reading leaves if it comes to that. -/
def perform (http : HttpParser σ) (fuel : Nat) (world : World) :
    ReadCall σ → Except Fault (Int × Option (BodyReading σ))
  | .read req buf => httpRequestRead http fuel req world buf
  | .readv req iov niov => httpRequestReadv http fuel req world iov niov

/-- The arguments `dfk_http_request_readv` answers with an error code. -/
def BadArguments : ReadCall σ → Prop
  | .read _ _ => False
  | .readv req iov niov => req.isNone ∨ iov.isNone ∧ niov ≠ 0

/-- The request that is read, and the size of the block it is read into. -/
def Enters : ReadCall σ → Request σ → Nat → Prop
  | .read req buf, request, size =>
      req = some request ∧ ¬ (buf.data = false ∧ buf.size ≠ 0) ∧
        size = buf.size
  | .readv req iov _, request, size =>
      req = some request ∧
        ∃ buf later, iov = some (buf :: later) ∧
          ¬ (buf.data = false ∧ buf.size ≠ 0) ∧ size = buf.size

/-- The call comes to a round of the loop. -/
def ComesTo (http : HttpParser σ) (world : World) (call : ReadCall σ)
    (reading : BodyReading σ) : Prop :=
  ∃ request size,
    call.Enters request size ∧ ReadComes http request world size reading

/-- The call returns, whatever time it takes. -/
def Returns (http : HttpParser σ) (world : World) (call : ReadCall σ)
    (result : Int) (after : Option (BodyReading σ)) : Prop :=
  ∃ fuel, call.perform http fuel world = .ok (result, after)

/-- How many bytes the call has stored. -/
def stored (after : Option (BodyReading σ)) : Nat :=
  (after.map fun reading => reading.out.length).getD 0

/-- No number of bytes is an error in disguise. -/
structure Honest (http : HttpParser σ) (world : World) (call : ReadCall σ) :
    Prop where
  counted :
    ∀ result after, call.Returns http world result after →
      0 < result → result = stored after
  /-- A failed read ends the call on the spot, `dfk_errno` as it left it. -/
  socketFails :
    ∀ reading later, call.ComesTo http world reading → reading.GoesOn →
      takeInbuf reading = .ok (.failed later) →
        ∃ result, result < 0 ∧
          call.Returns http world result
            (some { reading with world := later })
  parserFails :
    ∀ reading, call.ComesTo http world reading → ParserFails http reading →
      ∃ result after, result < 0 ∧ call.Returns http world result after

section Results

variable {http : HttpParser σ} {world : World} {call : ReadCall σ}
variable {result : Int} {after : Option (BodyReading σ)}

/-- `dfk_http_request_read` reads, or returns -1 at once. -/
theorem returns_read
    {req : Option (Request σ)} {buf : Iovec} {fuel : Nat}
    (returns : httpRequestRead http fuel req world buf = .ok (result, after)) :
    result = -1 ∧ after = none ∨
      ∃ request reading,
        req = some request ∧ ¬ (buf.data = false ∧ buf.size ≠ 0) ∧
          after = some reading ∧
          ReadsTo http request world buf.size result reading := by
  cases req with
  | none =>
      cases returns
      exact Or.inl ⟨rfl, rfl⟩
  | some request =>
      rw [httpRequestRead] at returns
      split at returns
      · cases returns
        exact Or.inl ⟨rfl, rfl⟩
      · next taken =>
          obtain ⟨⟨result', reading⟩, ran, returns⟩ := of_bind returns
          cases returns
          exact Or.inr ⟨request, reading, rfl, taken, rfl, fuel, ran⟩

/-- A call reads, or returns a code at once. -/
theorem Returns.cases
    (returns : call.Returns http world result after) :
    result = -1 ∧ after = none ∨
      call.BadArguments ∧ result = errBadarg ∧ after = none ∨
      ∃ request size reading,
        call.Enters request size ∧ after = some reading ∧
          ReadsTo http request world size result reading := by
  obtain ⟨fuel, ran⟩ := returns
  cases call with
  | read req buf =>
      rcases returns_read ran with refused | reads
      · exact Or.inl refused
      · obtain ⟨request, reading, isRequest, taken, isAfter, readsTo⟩ := reads
        exact Or.inr (Or.inr
          ⟨request, buf.size, reading, ⟨isRequest, taken, rfl⟩, isAfter,
            readsTo⟩)
  | readv req iov niov =>
      rw [perform, httpRequestReadv.eq_def] at ran
      split at ran
      · next bad =>
          cases ran
          exact Or.inr (Or.inl ⟨bad, rfl, rfl⟩)
      · rcases iov with _ | _ | ⟨buf, later⟩
        · cases ran
        · cases ran
        · rcases returns_read ran with refused | reads
          · exact Or.inl refused
          · obtain ⟨request, reading, isRequest, taken, isAfter, readsTo⟩ :=
              reads
            exact Or.inr (Or.inr
              ⟨request, buf.size, reading,
                ⟨isRequest, buf, later, rfl, taken, rfl⟩, isAfter, readsTo⟩)

/-- A call that enters the loop does nothing else. -/
theorem Enters.perform_eq
    {request : Request σ} {size fuel : Nat}
    (enters : call.Enters request size) :
    call.perform http fuel world =
      (requestRead http fuel request world size).map
        fun (result, reading) => (result, some reading) := by
  cases call with
  | read req buf =>
      obtain ⟨rfl, taken, rfl⟩ := enters
      rw [perform, httpRequestRead, if_neg taken]
      cases requestRead http fuel request world buf.size with
      | error fault => rfl
      | ok returned => rfl
  | readv req iov niov =>
      obtain ⟨rfl, buf, later, rfl, taken, rfl⟩ := enters
      rw [perform, httpRequestReadv, if_neg (by simp), httpRequestRead,
        if_neg taken]
      cases requestRead http fuel request world buf.size with
      | error fault => rfl
      | ok returned => rfl

/-- A call that comes to a round of the loop returns nothing negative. -/
theorem ComesTo.nonneg
    {reading : BodyReading σ}
    (comes : call.ComesTo http world reading)
    (returns : call.Returns http world result after) :
    0 ≤ result := by
  obtain ⟨request, size, enters, body, -⟩ := comes
  obtain ⟨fuel, ran⟩ := returns
  rw [enters.perform_eq] at ran
  cases read : requestRead http fuel request world size with
  | error fault =>
      rw [read] at ran
      cases ran
  | ok returned =>
      obtain ⟨result', reading'⟩ := returned
      rw [read] at ran
      cases ran
      exact ReadsTo.nonneg body ⟨fuel, read⟩

end Results

/--
A call is honest exactly if its arguments are not answered with an error code,
none of its reads of the socket fails, and the parser reports no error.
-/
theorem honest_iff
    (http : HttpParser σ) (world : World) (call : ReadCall σ) :
    call.Honest http world ↔
      ¬ call.BadArguments ∧
        ∀ reading, call.ComesTo http world reading →
          ¬ SocketFails reading ∧ ¬ ParserFails http reading := by
  constructor
  · intro honest
    constructor
    · intro bad
      cases call with
      | read req buf =>
          exact bad
      | readv req iov niov =>
          have returns :
              (readv req iov niov).Returns http world errBadarg none :=
            ⟨0, by rw [perform, httpRequestReadv.eq_def]; exact if_pos bad⟩
          have counted := honest.counted _ _ returns (by decide)
          cases counted
    · intro reading comes
      constructor
      · intro fails
        obtain ⟨goesOn, later, taken⟩ := fails
        obtain ⟨result, negative, returns⟩ :=
          honest.socketFails reading later comes goesOn taken
        exact absurd (comes.nonneg returns) (Int.not_le.mpr negative)
      · intro fails
        obtain ⟨result, after, negative, returns⟩ :=
          honest.parserFails reading comes fails
        exact absurd (comes.nonneg returns) (Int.not_le.mpr negative)
  · intro condition
    obtain ⟨good, quiet⟩ := condition
    constructor
    · intro result after returns positive
      rcases returns.cases with ⟨rfl, -⟩ | ⟨bad, -⟩ | reads
      · cases positive
      · exact absurd bad good
      · obtain ⟨request, size, reading, enters, rfl, readsTo⟩ := reads
        cases readsTo.returned with
        | refused _ result_eq =>
            rw [result_eq] at positive
            cases positive
        | delivered _ _ result_eq =>
            exact result_eq
        | ended _ _ _ result_eq =>
            rw [result_eq] at positive
            cases positive
        | erred last comes fails _ =>
            exact absurd fails (quiet last ⟨request, size, enters, comes⟩).2
    · intro reading later comes goesOn taken
      exact absurd ⟨goesOn, later, taken⟩ (quiet reading comes).1
    · intro reading comes fails
      exact absurd fails (quiet reading comes).2

/-- A request whose body is announced in chunks, but does not start with one. -/
def badChunk : Request Unit :=
  { Request.init refusingParser with
    chunked := true
    remainder := ascii "hello" }

/-- `dfk_err_protocol` is returned as 11 bytes, none of which is stored. -/
theorem protocol_error_counted :
    (ReadCall.read (some badChunk) ⟨true, 100⟩).Returns refusingParser
        silentWorld 11
        (some
          { request :=
              { badChunk with parser := { state := (), httpErrno := .protocol } }
            world := silentWorld
            out := []
            size := 100 }) ∧
      ¬ (ReadCall.read (some badChunk) ⟨true, 100⟩).Honest refusingParser
        silentWorld := by
  have returns :
      (ReadCall.read (some badChunk) ⟨true, 100⟩).Returns refusingParser
        silentWorld 11
        (some
          { request :=
              { badChunk with parser := { state := (), httpErrno := .protocol } }
            world := silentWorld
            out := []
            size := 100 }) :=
    ⟨1, by rfl⟩
  apply And.intro returns
  intro honest
  have counted := honest.counted _ _ returns (by decide)
  cases counted

end ReadCall

end Dfk.Http
