import Dfk.Http.Request
import Dfk.Library.Loops

/-!
# Slices of a query

The loop of `dfk__http_request_read_headers` over a decoded query, with the
pointers it carries from one character to the next.  Pointers are offsets into
the decoded query, or `NULL`; what an argument is inserted with is read out of
the slices.
-/

namespace Dfk.Http.QuerySlices

open Loops

/-! ## The source -/

/-- What `dfk_http_request_add_argument` is called with. -/
structure Call where
  keyBegin : Option Nat
  keyEnd : Option Nat
  valueBegin : Option Nat
  valueEnd : Option Nat
  deriving Repr, DecidableEq

/-- The variables of the loop, and what it has done. -/
structure Splitting where
  i : Nat
  state : Nat
  keyBegin : Option Nat
  keyEnd : Option Nat
  valueBegin : Option Nat
  arguments : Headers
  allocations : List Bool
  calls : List Call

/-- Where a pointer points to; nothing is at the address of `NULL`. -/
def address : Option Nat → Nat
  | none => 0
  | some offset => offset + 1

/-- The bytes of the decoded query in a slice. -/
def contents (decoded : Bytes) : Option Nat → Nat → Except Fault Bytes
  | none, size => if size = 0 then .ok [] else .error .nullPointer
  | some offset, size =>
      if offset + size ≤ decoded.length then
        .ok ((decoded.drop offset).take size)
      else .error .outOfBounds

/-- `*i` -/
def character (decoded : Bytes) (i : Nat) : Except Fault UInt8 :=
  match decoded[i]? with
  | some byte => .ok byte
  | none => .error .outOfBounds

/-- `dfk_strmap_item_init` -/
def strmapItemInit (decoded : Bytes)
    (key : Option Nat) (keylen : Nat) (value : Option Nat) (valuelen : Nat) :
    Except Fault Header := do
  check (key ≠ none)
  check (keylen ≠ 0)
  check (value ≠ none ∨ valuelen = 0)
  let name ← contents decoded key keylen
  let value ← contents decoded value valuelen
  pure { name, value }

/-- `dfk_http_request_add_argument` -/
def addArgument (decoded : Bytes) (req : Splitting) (call : Call) :
    Except Fault (Err × Splitting) := do
  let req := { req with calls := req.calls ++ [call] }
  check (address call.keyBegin ≤ address call.keyEnd)
  check (address call.valueBegin ≤ address call.valueEnd)
  match World.next req.allocations with
  | (false, allocations) => pure (.nomem, { req with allocations })
  | (true, allocations) =>
      let item ← strmapItemInit decoded
        call.keyBegin (address call.keyEnd - address call.keyBegin)
        call.valueBegin (address call.valueEnd - address call.valueBegin)
      let arguments := req.arguments.insert item
      pure (.ok, { req with arguments, allocations })

/-- Behind the last character. -/
def finish (decoded : Bytes) (req : Splitting) :
    Except Fault (Err × Splitting) :=
  if req.state ≠ 0 ∧ req.state ≠ 3 then .ok (.protocol, req)
  else if req.state = 3 then
    addArgument decoded req
      ⟨req.keyBegin, req.keyEnd, req.valueBegin, some decoded.length⟩
  else .ok (.ok, req)

/-- One round of the loop, and what follows the loop. -/
def round (decoded : Bytes) (req : Splitting) :
    Except Fault (Outcome Splitting (Err × Splitting)) :=
  if req.i = decoded.length then .stop <$> finish decoded req
  else
    match req.state with
    | 0 =>
        .ok (.next
          { req with keyBegin := some req.i, state := 1, i := req.i + 1 })
    | 1 => do
        let byte ← character decoded req.i
        if byte = 61 then
          pure (.next
            { req with keyEnd := some req.i, state := 2, i := req.i + 1 })
        else pure (.next { req with i := req.i + 1 })
    | 2 =>
        .ok (.next
          { req with valueBegin := some req.i, state := 3, i := req.i + 1 })
    | 3 => do
        let byte ← character decoded req.i
        if byte = 38 then
          let (err, req) ← addArgument decoded req
            ⟨req.keyBegin, req.keyEnd, req.valueBegin, some req.i⟩
          if err ≠ .ok then pure (.stop (err, req))
          else
            pure (.next
              { req with keyBegin := none, state := 0, i := req.i + 1 })
        else pure (.next { req with i := req.i + 1 })
    | _ => .error .assertion

/-- Parse a decoded query. -/
def splitQuery (fuel : Nat) (decoded : Bytes) (arguments : Headers)
    (allocations : List Bool) : Except Fault (Err × Splitting) :=
  iterate (round decoded) .outOfFuel fuel
    { i := 0, state := 0, keyBegin := none, keyEnd := none,
      valueBegin := none, arguments, allocations, calls := [] }

/-! ## Slices -/

/-- A key and a value of a query, one behind the other. -/
structure Slices (size : Nat) where
  keyBegin : Nat
  keyEnd : Nat
  valueBegin : Nat
  valueEnd : Nat
  keySome : keyBegin < keyEnd
  apart : keyEnd < valueBegin
  ordered : valueBegin ≤ valueEnd
  inside : valueEnd ≤ size

/-- The call for a key and a value. -/
def Slices.call {size : Nat} (slices : Slices size) : Call where
  keyBegin := some slices.keyBegin
  keyEnd := some slices.keyEnd
  valueBegin := some slices.valueBegin
  valueEnd := some slices.valueEnd

/-- A part of the decoded query. -/
def cut (decoded : Bytes) (first last : Nat) : Bytes :=
  (decoded.drop first).take (last - first)

/-- The argument in two slices. -/
def Slices.argument {size : Nat} (slices : Slices size) (decoded : Bytes) :
    Header where
  name := cut decoded slices.keyBegin slices.keyEnd
  value := cut decoded slices.valueBegin slices.valueEnd

/--
What has been read at a place of the loop.  The pointers that are used in a
state have been set since a place behind the last argument.
-/
inductive Reads (decoded : Bytes) (since : Nat) (req : Splitting) :
    QueryState → Prop
  | initial :
      req.state = 0 → since ≤ req.i → Reads decoded since req .initial
  | key {first : Nat} :
      req.state = 1 → req.keyBegin = some first →
      since ≤ first → first < req.i →
        Reads decoded since req (.readingKey (cut decoded first req.i))
  | sign {first last : Nat} :
      req.state = 2 → req.keyBegin = some first → req.keyEnd = some last →
      since ≤ first → first < last → last < req.i →
        Reads decoded since req (.observingSign (cut decoded first last))
  | value {first last second : Nat} :
      req.state = 3 → req.keyBegin = some first → req.keyEnd = some last →
      req.valueBegin = some second →
      since ≤ first → first < last → last < second → second < req.i →
        Reads decoded since req
          (.readingValue (cut decoded first last) (cut decoded second req.i))

variable {decoded : Bytes} {req last : Splitting} {since fuel : Nat}
variable {query : QueryState}

/-- A part that goes on by one character. -/
theorem cut_succ
    {first i : Nat} (within : first ≤ i) (inside : i < decoded.length) :
    cut decoded first (i + 1) = cut decoded first i ++ [decoded[i]] := by
  rw [cut, cut, Nat.sub_add_comm within, List.take_add_one,
    List.getElem?_drop, Nat.add_sub_cancel' within,
    List.getElem?_eq_getElem inside]
  rfl

theorem cut_self (first : Nat) : cut decoded first first = [] := by
  rw [cut, Nat.sub_self, List.take_zero]

theorem character_inside {i : Nat} (inside : i < decoded.length) :
    character decoded i = .ok decoded[i] := by
  rw [character, List.getElem?_eq_getElem inside]

theorem contents_inside
    {first last : Nat}
    (ordered : first ≤ last) (inside : last ≤ decoded.length) :
    contents decoded (some first) (address (some last) - address (some first)) =
      .ok (cut decoded first last) := by
  have size : address (some last) - address (some first) = last - first :=
    Nat.add_sub_add_right _ _ _
  rw [size, contents, Nat.add_sub_cancel' ordered, if_pos inside, cut]

/-- The items of sound slices pass the assertions on items. -/
theorem strmapItemInit_call (slices : Slices decoded.length) :
    strmapItemInit decoded
        slices.call.keyBegin
        (address slices.call.keyEnd - address slices.call.keyBegin)
        slices.call.valueBegin
        (address slices.call.valueEnd - address slices.call.valueBegin) =
      .ok (slices.argument decoded) := by
  have keySome :
      address slices.call.keyEnd - address slices.call.keyBegin ≠ 0 :=
    Nat.sub_ne_zero_of_lt (Nat.succ_lt_succ slices.keySome)
  have keyInside : slices.keyEnd ≤ decoded.length :=
    slices.apart.le.trans (slices.ordered.trans slices.inside)
  have key : slices.call.keyBegin ≠ none := Option.some_ne_none _
  have value : slices.call.valueBegin ≠ none := Option.some_ne_none _
  rw [strmapItemInit, check_pos key, ok_bind, check_pos keySome, ok_bind,
    check_pos (Or.inl value), ok_bind]
  dsimp only [Slices.call]
  rw [contents_inside slices.keySome.le keyInside, ok_bind,
    contents_inside slices.ordered slices.inside, ok_bind]
  rfl

/-- Sound slices pass all assertions, and their bytes are the argument. -/
theorem addArgument_call (slices : Slices decoded.length) :
    addArgument decoded req slices.call =
      match Http.addArgument req.arguments req.allocations
        (slices.argument decoded) with
      | (some arguments, allocations) =>
          .ok (.ok,
            { req with
              arguments, allocations, calls := req.calls ++ [slices.call] })
      | (none, allocations) =>
          .ok (.nomem,
            { req with allocations, calls := req.calls ++ [slices.call] }) := by
  have keyBefore :
      address slices.call.keyBegin ≤ address slices.call.keyEnd :=
    Nat.succ_le_succ slices.keySome.le
  have valueBefore :
      address slices.call.valueBegin ≤ address slices.call.valueEnd :=
    Nat.succ_le_succ slices.ordered
  rw [addArgument, check_pos keyBefore, ok_bind, check_pos valueBefore,
    ok_bind, Http.addArgument, strmapItemInit_call]
  rcases World.next req.allocations with ⟨_ | _, allocations⟩
  · rfl
  · rfl

/-! ## The loop -/

/-- The calls so far are those of sound slices, one behind the other. -/
def Sliced (decoded : Bytes) (since : Nat) (req : Splitting) : Prop :=
  ∃ slices : List (Slices decoded.length),
    req.calls = slices.map Slices.call ∧
      slices.Pairwise (fun first second =>
        first.valueEnd < second.keyBegin) ∧
      ∀ part ∈ slices, part.valueEnd < since

/-- What holds whenever the loop looks at its condition. -/
structure Holds (decoded : Bytes) (req : Splitting) (query : QueryState) :
    Prop where
  inside : req.i ≤ decoded.length
  read :
    ∃ since, Sliced decoded since req ∧ Reads decoded since req query

/-- One more argument behind the others. -/
theorem Sliced.snoc
    (sliced : Sliced decoded since req)
    (slices : Slices decoded.length) (behind : since ≤ slices.keyBegin)
    (calls : last.calls = req.calls ++ [slices.call]) :
    Sliced decoded (slices.valueEnd + 1) last := by
  obtain ⟨parts, shown, ordered, before⟩ := sliced
  refine ⟨parts ++ [slices], ?_, ?_, ?_⟩
  · rw [calls, shown, List.map_append]
    rfl
  · rw [List.pairwise_append]
    refine ⟨ordered, List.pairwise_singleton _ _, ?_⟩
    intro part member next isLast
    rw [List.mem_singleton.mp isLast]
    exact (before part member).trans_le behind
  · intro part member
    rcases List.mem_append.mp member with earlier | isLast
    · have long := slices.keySome.le.trans
        (slices.apart.le.trans slices.ordered)
      exact ((before part earlier).trans_le (behind.trans long)).trans
        (Nat.lt_succ_self _)
    · rw [List.mem_singleton.mp isLast]
      exact Nat.lt_succ_self _

/-- Where the loop ends, with the result of splitting the characters left. -/
def Ends (decoded : Bytes) (result : Err × Splitting)
    (split : Err × Headers × List Bool) : Prop :=
  (∃ since, Sliced decoded since result.2) ∧
    split = (result.1, result.2.arguments, result.2.allocations)

/-- A state in which a value is read ends with the slices of an argument. -/
theorem Reads.slices
    (reads : Reads decoded since req query) (reading : req.state = 3)
    (inside : req.i ≤ decoded.length) :
    ∃ slices : Slices decoded.length,
      slices.call =
          ⟨req.keyBegin, req.keyEnd, req.valueBegin, some req.i⟩ ∧
        since ≤ slices.keyBegin ∧ slices.valueEnd = req.i ∧
        query =
          .readingValue (slices.argument decoded).name
            (slices.argument decoded).value := by
  cases reads with
  | initial state _ =>
      rw [state] at reading
      cases reading
  | key state _ _ _ =>
      rw [state] at reading
      cases reading
  | sign state _ _ _ _ _ =>
      rw [state] at reading
      cases reading
  | value _ key sign value behind keySome apart within =>
      rw [key, sign, value]
      exact ⟨⟨_, _, _, req.i, keySome, apart, within.le, inside⟩, rfl, behind,
        rfl, rfl⟩

/-- A `&` behind a value ends the argument. -/
theorem parseQuery_end
    {arguments : Headers} {allocations : List Bool}
    (argument : Header) (rest : Bytes) :
    parseQuery (.readingValue argument.name argument.value) arguments
        allocations (38 :: rest) =
      match Http.addArgument arguments allocations argument with
      | (some arguments, allocations) =>
          parseQuery .initial arguments allocations rest
      | (none, allocations) => (.nomem, arguments, allocations) :=
  rfl

/-- A round goes on to the next character, or fails to store an argument. -/
def RoundsOn (decoded : Bytes) (req : Splitting) (query : QueryState) :
    Prop :=
  (∃ next query',
    round decoded req = .ok (.next next) ∧ next.i = req.i + 1 ∧
      Holds decoded next query' ∧
      parseQuery query req.arguments req.allocations
          (decoded.drop req.i) =
        parseQuery query' next.arguments next.allocations
          (decoded.drop next.i)) ∨
    ∃ result,
      round decoded req = .ok (.stop result) ∧
        Ends decoded result
          (parseQuery query req.arguments req.allocations
            (decoded.drop req.i))

/-- A round at the `&` behind a value. -/
theorem round_ampersand
    (sliced : Sliced decoded since req) (reads : Reads decoded since req query)
    (state : req.state = 3) (inside : req.i < decoded.length)
    (isEnd : decoded[req.i] = 38) :
    RoundsOn decoded req query := by
  obtain ⟨slices, call, after, ends, isQuery⟩ :=
    reads.slices state inside.le
  have stepped :
      round decoded req = (do
        let (err, req) ← addArgument decoded req slices.call
        if err ≠ .ok then pure (.stop (err, req))
        else
          pure (.next
            { req with keyBegin := none, state := 0, i := req.i + 1 })) := by
    rw [round, if_neg inside.ne, state]
    change (character decoded req.i >>= _) = _
    rw [character_inside inside, ok_bind, if_pos isEnd, call]
  rw [RoundsOn, List.drop_eq_getElem_cons inside, isQuery, isEnd,
    parseQuery_end, stepped, addArgument_call]
  rcases Http.addArgument req.arguments req.allocations
    (slices.argument decoded) with ⟨_ | arguments, allocations⟩
  · right
    exact ⟨_, rfl, ⟨_, sliced.snoc slices after rfl⟩, rfl⟩
  · left
    refine ⟨{ req with
        arguments, allocations, calls := req.calls ++ [slices.call]
        keyBegin := none, state := 0, i := req.i + 1 },
      .initial, rfl, rfl,
      ⟨inside, _, sliced.snoc slices after rfl, ?_⟩, rfl⟩
    rw [ends]
    exact .initial rfl (Nat.le_refl _)

/-- What every round inside the query leads to. -/
theorem round_inside
    (holds : Holds decoded req query) (inside : req.i < decoded.length) :
    RoundsOn decoded req query := by
  obtain ⟨-, since, sliced, reads⟩ := holds
  have here := character_inside inside
  have single := cut_succ (Nat.le_refl req.i) inside
  rw [cut_self, List.nil_append] at single
  rw [RoundsOn, List.drop_eq_getElem_cons inside]
  cases reads with
  | initial state behind =>
      left
      refine
        ⟨{ req with keyBegin := some req.i, state := 1, i := req.i + 1 },
          .readingKey [decoded[req.i]], ?_, rfl,
          ⟨inside, since, sliced, ?_⟩, ?_⟩
      · rw [round, if_neg inside.ne, state]
        rfl
      · rw [← single]
        exact .key rfl rfl behind (Nat.lt_succ_self _)
      · rw [parseQuery, queryStep]
  | @key first state key behind within =>
      left
      by_cases isSign : decoded[req.i] = 61
      · refine
          ⟨{ req with keyEnd := some req.i, state := 2, i := req.i + 1 },
            .observingSign (cut decoded first req.i), ?_, rfl,
            ⟨inside, since, sliced, ?_⟩, ?_⟩
        · rw [round, if_neg inside.ne, state, here, ok_bind,
            if_pos isSign]
          rfl
        · exact .sign rfl key rfl behind within (Nat.lt_succ_self _)
        · rw [parseQuery, queryStep, if_pos isSign]
      · refine
          ⟨{ req with i := req.i + 1 },
            .readingKey (cut decoded first (req.i + 1)), ?_, rfl,
            ⟨inside, since, sliced, ?_⟩, ?_⟩
        · rw [round, if_neg inside.ne, state, here, ok_bind,
            if_neg isSign]
          rfl
        · exact .key state key behind (within.trans (Nat.lt_succ_self _))
        · rw [parseQuery, queryStep, if_neg isSign, cut_succ within.le inside]
  | @sign first last state key sign behind keySome within =>
      left
      refine
        ⟨{ req with valueBegin := some req.i, state := 3, i := req.i + 1 },
          .readingValue (cut decoded first last) [decoded[req.i]], ?_, rfl,
          ⟨inside, since, sliced, ?_⟩, ?_⟩
      · rw [round, if_neg inside.ne, state]
        rfl
      · rw [← single]
        exact .value rfl key sign rfl behind keySome within
          (Nat.lt_succ_self _)
      · rw [parseQuery, queryStep]
  | @value first last second state key sign value behind keySome apart
      within =>
      by_cases isEnd : decoded[req.i] = 38
      · have ended :=
          round_ampersand sliced
            (.value state key sign value behind keySome apart within) state
            inside isEnd
        rwa [RoundsOn, List.drop_eq_getElem_cons inside] at ended
      · left
        refine
          ⟨{ req with i := req.i + 1 },
            .readingValue (cut decoded first last)
              (cut decoded second (req.i + 1)), ?_, rfl,
            ⟨inside, since, sliced, ?_⟩, ?_⟩
        · rw [round, if_neg inside.ne, state]
          change (character decoded req.i >>= _) = _
          rw [here, ok_bind, if_neg isEnd]
          rfl
        · exact .value state key sign value behind keySome apart
            (within.trans (Nat.lt_succ_self _))
        · rw [parseQuery, queryStep, if_neg isEnd, cut_succ within.le inside]

/-- Behind the last character the loop ends, with one more argument or not. -/
theorem round_end
    (holds : Holds decoded req query) (isEnd : req.i = decoded.length) :
    ∃ result,
      round decoded req = .ok (.stop result) ∧
        Ends decoded result
          (parseQuery query req.arguments req.allocations
            (decoded.drop req.i)) := by
  obtain ⟨-, since, sliced, reads⟩ := holds
  rw [round, if_pos isEnd, isEnd, List.drop_length, finish]
  cases reads with
  | initial state behind =>
      rw [if_neg fun other => other.1 state, state]
      exact ⟨(.ok, req), rfl, ⟨since, sliced⟩, rfl⟩
  | key state _ _ _ =>
      rw [state, if_pos (by decide)]
      exact ⟨(.protocol, req), rfl, ⟨since, sliced⟩, rfl⟩
  | sign state _ _ _ _ _ =>
      rw [state, if_pos (by decide)]
      exact ⟨(.protocol, req), rfl, ⟨since, sliced⟩, rfl⟩
  | value state key sign value behind keySome apart within =>
      obtain ⟨slices, call, after, ends, isQuery⟩ :=
        (Reads.value state key sign value behind keySome apart within).slices
          state isEnd.le
      rw [isEnd] at call
      rw [if_neg fun other => other.2 state, if_pos state, isQuery, ← call,
        addArgument_call, parseQuery]
      change ∃ result, _ ∧ Ends decoded result
        (match Http.addArgument req.arguments req.allocations
          (slices.argument decoded) with
        | (some arguments, allocations) => (.ok, arguments, allocations)
        | (none, allocations) => (.nomem, req.arguments, allocations))
      rcases Http.addArgument req.arguments req.allocations
        (slices.argument decoded) with ⟨_ | arguments, allocations⟩
      · exact ⟨_, rfl, ⟨_, sliced.snoc slices after rfl⟩, rfl⟩
      · exact ⟨_, rfl, ⟨_, sliced.snoc slices after rfl⟩, rfl⟩

/-- The loop ends, and splits the characters left. -/
theorem iterate_ends :
    ∀ {req : Splitting} {query : QueryState},
      Holds decoded req query →
        decoded.length < req.i + fuel →
          ∃ result,
            iterate (round decoded) .outOfFuel fuel req = .ok result ∧
              Ends decoded result
                (parseQuery query req.arguments req.allocations
                  (decoded.drop req.i)) := by
  induction fuel with
  | zero =>
      intro req query holds enough
      exact absurd enough (Nat.not_lt.mpr holds.inside)
  | succ fuel inductionHypothesis =>
      intro req query holds enough
      rcases holds.inside.eq_or_lt with isEnd | inside
      · obtain ⟨result, stops, ends⟩ := round_end holds isEnd
        exact ⟨result, iterate_of_stop stops, ends⟩
      · rcases round_inside holds inside with
          ⟨next, query', goes, place, holds', same⟩ | ⟨result, stops, ends⟩
        · rw [iterate_of_goes goes, same]
          apply inductionHypothesis holds'
          rw [place]
          exact enough.trans_eq (Nat.succ_add_eq_add_succ _ _).symm
        · exact ⟨result, iterate_of_stop stops, ends⟩

/--
A decoded query is split without a fault, by calls for sound slices one behind
the other, into the arguments of the automaton.
-/
theorem query_slices_sound
    (decoded : Bytes) (arguments : Headers) (allocations : List Bool)
    (enough : decoded.length < fuel) :
    ∃ err last,
      ∃ slices : List (Slices decoded.length),
        splitQuery fuel decoded arguments allocations = .ok (err, last) ∧
          last.calls = slices.map Slices.call ∧
          slices.Pairwise (fun first second =>
            first.valueEnd < second.keyBegin) ∧
          parseQuery .initial arguments allocations decoded =
            (err, last.arguments, last.allocations) := by
  have starts :
      Holds decoded
        { i := 0, state := 0, keyBegin := none, keyEnd := none,
          valueBegin := none, arguments, allocations, calls := [] }
        .initial := by
    refine ⟨Nat.zero_le _, 0, ⟨[], rfl, .nil, ?_⟩, .initial rfl (Nat.zero_le _)⟩
    intro part member
    cases member
  have enough' : decoded.length < 0 + fuel := by
    rw [Nat.zero_add]
    exact enough
  obtain ⟨⟨err, last⟩, ran, ⟨since, slices, calls, ordered, -⟩, split⟩ :=
    iterate_ends starts enough'
  exact ⟨err, last, slices, ran, calls, ordered, split⟩

theorem query_slices_sound_pairs :
    ∃ err last,
      ∃ slices : List (Slices (ascii "a=b&c==&").length),
        splitQuery 9 (ascii "a=b&c==&") .leaf [] = .ok (err, last) ∧
          last.calls = slices.map Slices.call ∧
          slices.Pairwise (fun first second =>
            first.valueEnd < second.keyBegin) ∧
          parseQuery .initial .leaf [] (ascii "a=b&c==&") =
            (err, last.arguments, last.allocations) :=
  query_slices_sound (ascii "a=b&c==&") .leaf [] (by decide)

end Dfk.Http.QuerySlices
