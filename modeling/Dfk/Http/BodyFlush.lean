import Dfk.Http.BodyRounds
import Dfk.Http.Protocol

/-!
# Skipping the rest of a body

The loop that skips what a handler has not read ends as long as each of its
calls of `dfk_http_request_read` counts some of the bytes that remain.  At the
end of the input a call counts none, and so does every call after it.
-/

namespace Dfk.Http

open Relation Loops

variable {σ : Type}

/-- The loop of `dfk__http_protocol` that skips a body, before a round. -/
structure Flushing (σ : Type) where
  bytesremain : Nat
  request : Request σ
  world : World
  deriving Repr, DecidableEq

namespace Flushing

/-- The loop before its first round. -/
def start (request : Request σ) (world : World) : Flushing σ where
  bytesremain := (request.contentLength - request.bodyNread).toNat
  request := request
  world := world

/-- How many bytes the call of a round asks for. -/
def asks (flushing : Flushing σ) : Nat := min flushing.bytesremain 1024

/-- The call of a round returns. -/
def Calls (http : HttpParser σ) (flushing : Flushing σ) (nread : Int)
    (reading : BodyReading σ) : Prop :=
  flushing.bytesremain ≠ 0 ∧
    ReadsTo http flushing.request flushing.world flushing.asks nread reading

/-- `bytesremain -= nread` -/
def count (flushing : Flushing σ) (nread : Int) (reading : BodyReading σ) :
    Flushing σ where
  bytesremain := ((flushing.bytesremain - nread) % 2 ^ 64).toNat
  request := reading.request
  world := reading.world

/-- One round that does not leave the loop. -/
def Goes (http : HttpParser σ) (flushing next : Flushing σ) : Prop :=
  ∃ nread reading,
    flushing.Calls http nread reading ∧ 0 ≤ nread ∧
      next = flushing.count nread reading

/-- The rounds of the loop lead from a state to another. -/
abbrev Comes (http : HttpParser σ) : Flushing σ → Flushing σ → Prop :=
  ReflTransGen (Goes http)

/-- Nothing remains, or a call fails. -/
def Done (http : HttpParser σ) (flushing : Flushing σ) : Prop :=
  flushing.bytesremain = 0 ∨
    ∃ nread reading, flushing.Calls http nread reading ∧ nread < 0

section Rounds

variable {http : HttpParser σ} {flushing next other : Flushing σ}
variable {nread otherNread : Int} {reading otherReading : BodyReading σ}

/-- Counting makes what remains smaller, unless it counts nothing. -/
theorem count_lt
    (positive : 0 < nread) (counted : nread ≤ flushing.bytesremain) :
    (flushing.count nread reading).bytesremain < flushing.bytesremain := by
  change ((flushing.bytesremain - nread) % 2 ^ 64).toNat < flushing.bytesremain
  omega

/-- A loop that is done takes no further round. -/
theorem Done.not_goes (done : flushing.Done http) :
    ¬ Goes http flushing next := by
  intro goes
  obtain ⟨nread, reading, ⟨remains, readsTo⟩, nonneg, -⟩ := goes
  rcases done with nothing | fails
  · exact remains nothing
  · obtain ⟨failed, after, ⟨-, readsToFailed⟩, negative⟩ := fails
    obtain ⟨same, -⟩ := readsTo.unique readsToFailed
    rw [same] at negative
    exact absurd nonneg (Int.not_le.mpr negative)

/-- A loop that is done stays where it is. -/
theorem Done.comes
    (done : flushing.Done http) (comes : Comes http flushing other) :
    other = flushing := by
  rcases ReflTransGen.cases_head comes with same | ⟨next, goes, -⟩
  · exact same.symm
  · exact absurd goes done.not_goes

end Rounds

end Flushing

/-- A call that has returned returns the same with more time. -/
theorem requestRead_mono
    {http : HttpParser σ} {request : Request σ} {world : World}
    {size fuel : Nat} {returned : Int × BodyReading σ}
    (ran : requestRead http fuel request world size = .ok returned)
    (more : Nat) :
    requestRead http (fuel + more) request world size = .ok returned := by
  rw [requestRead] at ran ⊢
  split at ran
  · next refused =>
      rw [if_pos refused]
      exact ran
  · next taken =>
      rw [if_neg taken]
      exact requestReadFrom_mono fuel ran more

/-- The loop has taken all its rounds when it returns. -/
theorem done_of_skipFrom
    {http : HttpParser σ} {fuel : Nat} {outcome : Bool × Request σ × World}
    (rounds : Nat) :
    ∀ flushing : Flushing σ,
      skipFrom http fuel rounds flushing.bytesremain flushing.request
          flushing.world = .ok outcome →
        ∃ last, Flushing.Comes http flushing last ∧ last.Done http := by
  induction rounds with
  | zero =>
      intro flushing ran
      cases ran
  | succ rounds inductionHypothesis =>
      intro flushing ran
      rw [skipFrom] at ran
      split at ran
      · next nothing =>
          exact ⟨flushing, .refl, Or.inl nothing⟩
      · next remains =>
          obtain ⟨⟨nread, reading⟩, read, ran⟩ := of_bind ran
          have calls : flushing.Calls http nread reading :=
            ⟨remains, fuel, read⟩
          dsimp only at ran
          split at ran
          · next negative =>
              exact ⟨flushing, .refl, Or.inr ⟨nread, reading, calls, negative⟩⟩
          · next nonneg =>
              obtain ⟨last, comes, done⟩ :=
                inductionHypothesis (flushing.count nread reading) ran
              exact ⟨last,
                .head ⟨nread, reading, calls, Int.not_lt.mp nonneg, rfl⟩ comes,
                done⟩

/-- A loop that has returned returns the same with more time. -/
theorem skipFrom_mono
    {http : HttpParser σ} {fuel : Nat} {outcome : Bool × Request σ × World}
    (more moreRounds : Nat) (rounds : Nat) :
    ∀ {bytesremain : Nat} {request : Request σ} {world : World},
      skipFrom http fuel rounds bytesremain request world = .ok outcome →
        skipFrom http (fuel + more) (rounds + moreRounds) bytesremain request
            world =
          .ok outcome := by
  induction rounds with
  | zero =>
      intro bytesremain request world ran
      cases ran
  | succ rounds inductionHypothesis =>
      intro bytesremain request world ran
      rw [Nat.add_right_comm, skipFrom]
      rw [skipFrom] at ran
      split at ran
      · next nothing =>
          rw [if_pos nothing]
          exact ran
      · next remains =>
          obtain ⟨⟨nread, reading⟩, read, ran⟩ := of_bind ran
          rw [if_neg remains, requestRead_mono read more, ok_bind]
          dsimp only at ran ⊢
          split at ran
          · next negative =>
              rw [if_pos negative]
              exact ran
          · next nonneg =>
              rw [if_neg nonneg]
              exact inductionHypothesis ran

/-- The loop returns once it has taken all its rounds. -/
theorem skipFrom_of_done
    {http : HttpParser σ} {flushing last : Flushing σ}
    (comes : Flushing.Comes http flushing last)
    (done : last.Done http) :
    ∃ fuel outcome,
      skipFrom http fuel fuel flushing.bytesremain flushing.request
        flushing.world = .ok outcome := by
  induction comes using ReflTransGen.head_induction_on with
  | refl =>
      rcases done with nothing | ⟨nread, reading, calls, negative⟩
      · refine ⟨1, (true, last.request, last.world), ?_⟩
        rw [skipFrom, if_pos nothing]
      · obtain ⟨remains, fuel, read⟩ := calls
        refine ⟨fuel + 1, (false, reading.request, reading.world), ?_⟩
        rw [skipFrom, if_neg remains]
        rw [Flushing.asks] at read
        rw [requestRead_mono read 1, ok_bind]
        dsimp only
        rw [if_pos negative]
        rfl
  | @head flushing next goes _ inductionHypothesis =>
      obtain ⟨fuel, outcome, ran⟩ := inductionHypothesis
      obtain ⟨nread, reading, ⟨remains, readFuel, read⟩, nonneg, isNext⟩ := goes
      refine ⟨fuel + (readFuel + 1), outcome, ?_⟩
      have readAgain := requestRead_mono read (fuel + 1)
      rw [Flushing.asks, ← Nat.add_assoc, Nat.add_comm readFuel,
        Nat.add_assoc] at readAgain
      rw [← Nat.add_assoc, skipFrom, if_neg remains, Nat.add_assoc, readAgain,
        ok_bind]
      dsimp only
      rw [if_neg (Int.not_lt.mpr nonneg)]
      rw [isNext] at ran
      exact skipFrom_mono (readFuel + 1) readFuel fuel ran

/-- Skipping a body returns. -/
def FlushEnds (http : HttpParser σ) (request : Request σ) (world : World) :
    Prop :=
  ∃ fuel outcome, skipBody http fuel request world = .ok outcome

/-- Skipping a body returns exactly if its rounds come to an end. -/
theorem flushEnds_iff_done
    {http : HttpParser σ} {request : Request σ} {world : World} :
    FlushEnds http request world ↔
      ∃ last, Flushing.Comes http (.start request world) last ∧
        last.Done http := by
  by_cases enters :
      0 < request.contentLength ∧ request.bodyNread < request.contentLength
  · constructor
    · intro ends
      obtain ⟨fuel, outcome, ran⟩ := ends
      rw [skipBody, if_pos enters] at ran
      exact done_of_skipFrom fuel (.start request world) ran
    · intro comesDone
      obtain ⟨last, comes, done⟩ := comesDone
      obtain ⟨fuel, outcome, ran⟩ := skipFrom_of_done comes done
      refine ⟨fuel, outcome, ?_⟩
      rw [skipBody, if_pos enters]
      exact ran
  · have nothing : (Flushing.start request world).bytesremain = 0 := by
      change (request.contentLength - request.bodyNread).toNat = 0
      omega
    constructor
    · intro _
      exact ⟨_, .refl, Or.inl nothing⟩
    · intro _
      refine ⟨0, (true, request, world), ?_⟩
      rw [skipBody, if_neg enters]

/-!
## Progress
-/

section Progress

variable {http : HttpParser σ} {request : Request σ} {world : World}
variable {flushing : Flushing σ} {reading : BodyReading σ} {nread : Int}

/-- The call of a round comes to a round of its own loop. -/
def Flushing.ReadComes (http : HttpParser σ) (flushing : Flushing σ)
    (reading : BodyReading σ) : Prop :=
  flushing.bytesremain ≠ 0 ∧
    Http.ReadComes http flushing.request flushing.world flushing.asks reading

/-- The call of a round meets the end of the input. -/
def Flushing.MeetsEnd (http : HttpParser σ) (flushing : Flushing σ) : Prop :=
  ∃ reading, flushing.ReadComes http reading ∧ FindsEnd reading

/-- The parser reports an error in the call of a round. -/
def Flushing.MeetsError (http : HttpParser σ) (flushing : Flushing σ) : Prop :=
  ∃ reading, flushing.ReadComes http reading ∧ ParserFails http reading

/-- A call that meets no end and no error delivers some of what remains. -/
theorem Flushing.Calls.progress
    (calls : flushing.Calls http nread reading) :
    nread < 0 ∨ flushing.MeetsError http ∧ nread = errProtocol ∨
      flushing.MeetsEnd http ∧ nread = 0 ∨
      0 < nread ∧ nread ≤ flushing.bytesremain := by
  obtain ⟨remains, readsTo⟩ := calls
  have asked : flushing.asks ≠ 0 := by
    rw [asks]
    omega
  cases readsTo.returned with
  | refused _ result_eq =>
      left
      rw [result_eq]
      decide
  | delivered comes ended result_eq =>
      right
      right
      right
      have positive := delivered_pos asked comes ended
      have fills := comes.fills
      rw [BodyReading.Fills] at fills
      rw [result_eq]
      constructor
      · exact_mod_cast positive
      · have atMost : flushing.asks ≤ flushing.bytesremain := Nat.min_le_left _ _
        omega
  | ended last comes finds result_eq =>
      right
      right
      left
      exact ⟨⟨last, ⟨remains, comes⟩, finds⟩, result_eq⟩
  | erred last comes fails result_eq =>
      right
      left
      exact ⟨⟨last, ⟨remains, comes⟩, fails⟩, result_eq⟩

/-- A call that meets an error is counted as `dfk_err_protocol` bytes. -/
theorem Flushing.MeetsError.calls
    (meets : flushing.MeetsError http) :
    ∃ reading, flushing.Calls http errProtocol reading := by
  obtain ⟨last, ⟨remains, comes⟩, fails⟩ := meets
  obtain ⟨after, stops⟩ := bodyRound_of_parserFails fails
  exact ⟨after, remains, (readsTo_iff_stop comes.1).mpr ⟨last, comes, stops⟩⟩

/-- A call that meets the end of the input is counted as no bytes. -/
theorem Flushing.MeetsEnd.calls
    (meets : flushing.MeetsEnd http) :
    ∃ reading, flushing.Calls http 0 reading := by
  obtain ⟨last, ⟨remains, comes⟩, goesOn, later, taken⟩ := meets
  exact ⟨_, remains,
    (readsTo_iff_stop comes.1).mpr ⟨last, comes, bodyRound_end goesOn taken⟩⟩

end Progress

/-!
## The loop as a whole
-/

/-- Every call the loop makes returns. -/
def CallsReturn (http : HttpParser σ) (request : Request σ) (world : World) :
    Prop :=
  ∀ flushing, Flushing.Comes http (.start request world) flushing →
    flushing.bytesremain ≠ 0 →
      ∃ nread reading, flushing.Calls http nread reading

/-- A loop that ends if its calls return, and counts no more than remains. -/
structure Flushes (http : HttpParser σ) (request : Request σ) (world : World) :
    Prop where
  ends : CallsReturn http request world → FlushEnds http request world
  counted :
    ∀ flushing, Flushing.Comes http (.start request world) flushing →
      ∀ nread reading, flushing.Calls http nread reading →
        nread ≤ flushing.bytesremain

/--
The loop ends unless, from some call on, every one meets the end of the input;
and it counts no more than remains as long as the parser reports no error when
fewer than `dfk_err_protocol` bytes remain.
-/
theorem flushes_iff
    (http : HttpParser σ) (request : Request σ) (world : World) :
    Flushes http request world ↔
      (CallsReturn http request world →
        ∃ flushing, Flushing.Comes http (.start request world) flushing ∧
          ∀ later, Flushing.Comes http flushing later →
            ¬ later.MeetsEnd http) ∧
      ∀ flushing, Flushing.Comes http (.start request world) flushing →
        flushing.MeetsError http → 11 ≤ flushing.bytesremain := by
  constructor
  · intro flushes
    constructor
    · intro returns
      obtain ⟨last, comes, done⟩ := flushEnds_iff_done.mp (flushes.ends returns)
      refine ⟨last, comes, ?_⟩
      intro later comesLater meets
      rw [done.comes comesLater] at meets
      obtain ⟨reading, calls⟩ := meets.calls
      exact done.not_goes ⟨0, reading, calls, Int.le_refl 0, rfl⟩
    · intro flushing comes meets
      obtain ⟨reading, calls⟩ := meets.calls
      have counted := flushes.counted flushing comes _ _ calls
      rw [errProtocol] at counted
      exact_mod_cast counted
  · intro condition
    obtain ⟨noEnd, roomy⟩ := condition
    constructor
    · intro returns
      obtain ⟨flushing, comes, noEndLater⟩ := noEnd returns
      have progresses :
          ∀ state, Flushing.Comes http flushing state →
            state.Done http ∨
              ∃ next, Flushing.Goes http state next ∧
                next.bytesremain < state.bytesremain := by
        intro state comesState
        by_cases nothing : state.bytesremain = 0
        · exact Or.inl (Or.inl nothing)
        · have comesFromStart := comes.trans comesState
          obtain ⟨nread, reading, calls⟩ :=
            returns state comesFromStart nothing
          rcases calls.progress with negative | errs | ends | progress
          · exact Or.inl (Or.inr ⟨nread, reading, calls, negative⟩)
          · obtain ⟨meets, rfl⟩ := errs
            have room := roomy state comesFromStart meets
            have counted : errProtocol ≤ state.bytesremain := by
              rw [errProtocol]
              exact_mod_cast room
            exact Or.inr
              ⟨_, ⟨_, reading, calls, by decide, rfl⟩,
                Flushing.count_lt (by decide) counted⟩
          · exact absurd ends.1 (noEndLater state comesState)
          · exact Or.inr
              ⟨_, ⟨nread, reading, calls, progress.1.le, rfl⟩,
                Flushing.count_lt progress.1 progress.2⟩
      obtain ⟨last, comesLast, done⟩ :=
        reaches_of_decreasing Flushing.bytesremain progresses
      exact flushEnds_iff_done.mpr ⟨last, comes.trans comesLast, done⟩
    · intro flushing comes nread reading calls
      rcases calls.progress with negative | errs | ends | progress
      · exact negative.le.trans (Int.natCast_nonneg _)
      · obtain ⟨meets, rfl⟩ := errs
        rw [errProtocol]
        exact_mod_cast roomy flushing comes meets
      · rw [ends.2]
        exact Int.natCast_nonneg _
      · exact progress.2

/-- A request that announces three bytes, of which none has come. -/
def threeBytes : Request Unit :=
  { Request.init refusingParser with contentLength := 3 }

/-- A call at the end of the input returns 0 and changes nothing. -/
theorem threeBytes_reads :
    ReadsTo refusingParser threeBytes silentWorld 3 0
      (.start threeBytes silentWorld 3) :=
  ⟨1, by rfl⟩

/-- The client closes the connection early, and the loop goes on for ever. -/
theorem flush_never_ends :
    CallsReturn refusingParser threeBytes silentWorld ∧
      ¬ FlushEnds refusingParser threeBytes silentWorld ∧
      ¬ Flushes refusingParser threeBytes silentWorld := by
  have calls :
      (Flushing.start threeBytes silentWorld).Calls refusingParser 0
        (.start threeBytes silentWorld 3) :=
    ⟨by decide, threeBytes_reads⟩
  have stays :
      ∀ flushing,
        Flushing.Comes refusingParser (.start threeBytes silentWorld)
            flushing →
          flushing = .start threeBytes silentWorld := by
    intro flushing comes
    induction comes with
    | refl =>
        rfl
    | tail _ goes inductionHypothesis =>
        obtain ⟨nread, reading, ⟨-, readsTo⟩, -, isNext⟩ := goes
        rw [inductionHypothesis] at readsTo isNext
        obtain ⟨rfl, rfl⟩ := calls.2.unique readsTo
        exact isNext
  have returns : CallsReturn refusingParser threeBytes silentWorld := by
    intro flushing comes _
    rw [stays flushing comes]
    exact ⟨0, _, calls⟩
  have forever : ¬ FlushEnds refusingParser threeBytes silentWorld := by
    intro ends
    obtain ⟨last, comes, done⟩ := flushEnds_iff_done.mp ends
    rw [stays last comes] at done
    exact done.not_goes ⟨0, _, calls, Int.le_refl 0, rfl⟩
  exact ⟨returns, forever, fun flushes => forever (flushes.ends returns)⟩

end Dfk.Http
