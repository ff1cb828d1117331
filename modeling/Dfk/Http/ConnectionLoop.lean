import Dfk.Library.Ledger
import Dfk.Library.Loops
import Dfk.Http.HeadersBuffers
import Dfk.Http.Persistence

/-!
# The loop of a connection

`dfk__http_protocol` with what it does to its resources: each request has an
arena and headers buffers, and the connection an arena and a socket.  The limit
on the requests of a connection bounds the rounds of the loop, and the part
behind `cleanup` is gone through in each of them.
-/

namespace Dfk.Http

variable {σ : Type}

/-- What a connection holds. -/
inductive Resource where
  | socket
  | connectionArena
  | requestArena (request : Nat)
  | headersBuffer (request buffer : Nat)
  deriving Repr, DecidableEq

/-- What happens on a connection. -/
inductive Happening where
  | resource (event : Ledger.Event Resource)
  /-- The handler is called. -/
  | handler
  deriving Repr, DecidableEq

/-- The resources among what happens. -/
def ledger (happenings : List Happening) : List (Ledger.Event Resource) :=
  happenings.filterMap fun happening =>
    match happening with
    | .resource event => some event
    | .handler => none

/-- What is done with a headers buffer of a request. -/
def BufferEvent.happening (request : Nat) :
    BufferEvent → Option Happening
  | .malloc buffer =>
      some (.resource (.obtained (.headersBuffer request buffer)))
  | .append _ => none
  | .free buffer =>
      some (.resource (.released (.headersBuffer request buffer)))

/-- What is done with the headers buffers of a request. -/
def bufferHappenings (request : Nat) (events : List BufferEvent) :
    List Happening :=
  events.filterMap (BufferEvent.happening request)

/--
One round of the loop: the arena of the request is initialised, its head is
read, it may be answered, and it is cleaned up.
-/
def iteration (request : Nat) (reading : List BufferEvent)
    (answering : List Happening) : List Happening :=
  [.resource (.obtained (.requestArena request))] ++
    bufferHappenings request reading ++ answering ++
    bufferHappenings request (requestFree (listed reading)) ++
    [.resource (.released (.requestArena request))]

/-- One round of the loop of `dfk__http_protocol`, with what happens in it. -/
def serveTraced (http : HttpParser σ) (config : Config)
    (memory : Nat → Nat → UInt8) (fuel : Nat)
    (handler : Request σ → Handler) (request : Nat) (connected : Connected) :
    Except Fault (Connected × List Happening) := do
  let reading := readEvents http config memory fuel connected.world
  let (err, head, world) ←
    readHeaders http config memory fuel connected.world
  if err ≠ .ok then
    pure
      ({ connected with keepalive := false, world := world },
        iteration request reading [])
  else do
    let (keepalive, exchange) ←
      respond http config fuel handler connected.nrequests head world
    let connected ←
      exchange.finish http fuel connected.nrequests keepalive
    pure (connected, iteration request reading [.handler])

/-- It is the round of the protocol. -/
theorem serveTraced_fst
    (http : HttpParser σ) (config : Config) (memory : Nat → Nat → UInt8)
    (fuel : Nat) (handler : Request σ → Handler) (request : Nat)
    (connected : Connected) :
    Prod.fst <$>
        serveTraced http config memory fuel handler request connected =
      serveRequest http config memory fuel handler connected := by
  rw [serveTraced, serveRequest]
  rcases readHeaders http config memory fuel connected.world with
    fault | ⟨err, head, world⟩
  · rfl
  · simp only [ok_bind]
    split
    · rfl
    · rcases respond http config fuel handler connected.nrequests head world
        with fault | ⟨keepalive, exchange⟩
      · rfl
      · simp only [ok_bind]
        rcases exchange.finish http fuel connected.nrequests keepalive with
          fault | next
        · rfl
        · rfl

/-- A connection with what has happened in its rounds so far. -/
structure Serving where
  connected : Connected
  past : List (List Happening)
  deriving Repr, DecidableEq

/-- Another round, as long as the connection is kept alive. -/
def serve (http : HttpParser σ) (config : Config)
    (memory : Nat → Nat → UInt8) (fuel : Nat)
    (handler : Request σ → Handler) (serving : Serving) :
    Except Fault (Loops.Outcome Serving (List (List Happening))) :=
  if serving.connected.keepalive then do
    let (connected, happened) ←
      serveTraced http config memory fuel handler serving.past.length
        serving.connected
    pure
      (.next
        { connected := connected
          past := serving.past ++ [happened] })
  else .ok (.stop serving.past)

/-- The connection before its first request. -/
def newConnection (world : World) : Connected where
  nrequests := 0
  keepalive := true
  world := world

/-- What happens before the first request. -/
def opening : List Happening :=
  [.resource (.obtained .connectionArena)]

/-- What happens behind the last request. -/
def closing : List Happening :=
  [.resource (.released .connectionArena), .resource (.released .socket)]

/-- `dfk__http_protocol`, with a bound on the rounds of its loop. -/
def protocol (http : HttpParser σ) (config : Config)
    (memory : Nat → Nat → UInt8) (fuel : Nat)
    (handler : Request σ → Handler) (bound : Nat) (world : World) :
    Except Fault (List Happening) := do
  let iterations ←
    Loops.iterate (serve http config memory fuel handler) .outOfFuel bound
      { connected := newConnection world
        past := [] }
  pure (opening ++ iterations.flatten ++ closing)

/-!
## One round
-/

/--
What a round does to the resources of its request: its arena and its buffers
are obtained and released once, and each of them only while it is held.
-/
structure CleansUp (request : Nat) (happened : List Happening) : Prop where
  sound : Ledger.Sound (ledger happened)
  arenaObtained :
    (ledger happened).count (.obtained (.requestArena request)) = 1
  arenaReleased :
    (ledger happened).count (.released (.requestArena request)) = 1
  bufferObtained :
    ∀ buffer,
      (ledger happened).count (.obtained (.headersBuffer request buffer)) ≤ 1
  bufferReleased :
    ∀ buffer,
      (ledger happened).count (.released (.headersBuffer request buffer)) =
        (ledger happened).count (.obtained (.headersBuffer request buffer))
  own :
    ∀ event ∈ ledger happened, ∀ object,
      event = .obtained object ∨ event = .released object →
        object = .requestArena request ∨
          ∃ buffer, object = .headersBuffer request buffer

/-- Buffers as resources of their request. -/
def bufferLedger (request : Nat) (events : List BufferEvent) :
    List (Ledger.Event Resource) :=
  ledger (bufferHappenings request events)

section Buffers

variable {request first : Nat} {events : List BufferEvent}

@[simp] theorem bufferLedger_nil : bufferLedger request [] = [] :=
  rfl

@[simp] theorem bufferLedger_malloc (buffer : Nat) :
    bufferLedger request (.malloc buffer :: events) =
      .obtained (.headersBuffer request buffer) ::
        bufferLedger request events :=
  rfl

@[simp] theorem bufferLedger_append (buffer : Nat) :
    bufferLedger request (.append buffer :: events) =
      bufferLedger request events :=
  rfl

@[simp] theorem bufferLedger_free (buffer : Nat) :
    bufferLedger request (.free buffer :: events) =
      .released (.headersBuffer request buffer) ::
        bufferLedger request events :=
  rfl

/-- Freeing a request releases its buffers. -/
theorem bufferLedger_requestFree (buffers : List Nat) :
    bufferLedger request (requestFree buffers) =
      (buffers.map (Resource.headersBuffer request)).map .released := by
  induction buffers with
  | nil =>
      rfl
  | cons buffer buffers inductionHypothesis =>
      rw [requestFree, List.map_cons, bufferLedger_free, ← requestFree,
        inductionHypothesis]
      rfl

/-- Only buffers of the request are concerned. -/
theorem own_bufferLedger (event : Ledger.Event Resource)
    (member : event ∈ bufferLedger request events) :
    ∃ buffer,
      event = .obtained (.headersBuffer request buffer) ∨
        event = .released (.headersBuffer request buffer) := by
  obtain ⟨happening, inHappenings, isEvent⟩ := List.mem_filterMap.mp member
  obtain ⟨bufferEvent, -, isHappening⟩ :=
    List.mem_filterMap.mp inHappenings
  cases bufferEvent with
  | malloc buffer =>
      cases isHappening
      cases isEvent
      exact ⟨buffer, Or.inl rfl⟩
  | append buffer =>
      cases isHappening
  | free buffer =>
      cases isHappening
      cases isEvent
      exact ⟨buffer, Or.inr rfl⟩

/-- Buffers that are listed are held. -/
theorem Grows.listed_held
    (request : Nat)
    (grows : Grows first events) :
    ∀ before : List (Ledger.Event Resource),
      Ledger.Sound before →
        Ledger.Sound (before ++ bufferLedger request events) ∧
          (∀ buffer ∈ listed events,
            Ledger.held (before ++ bufferLedger request events)
              (.headersBuffer request buffer) = true) ∧
          ∀ object,
            Ledger.held before object = true →
              (∀ buffer, first ≤ buffer →
                object ≠ .headersBuffer request buffer) →
                Ledger.held (before ++ bufferLedger request events) object =
                  true := by
  induction grows with
  | done first =>
      intro before sound
      rw [bufferLedger_nil, List.append_nil]
      exact ⟨sound, by simp [listed], fun object isHeld _ => isHeld⟩
  | refused first =>
      intro before sound
      have obtained := sound.obtained (.headersBuffer request first)
      have isHeld :
          Ledger.held
              (before ++ [.obtained (.headersBuffer request first)])
              (.headersBuffer request first) =
            true := by
        rw [Ledger.held_concat]
        simp [Ledger.holdsAfter]
      have released := obtained.released isHeld
      rw [bufferLedger_malloc, bufferLedger_free, bufferLedger_nil,
        List.append_cons]
      refine ⟨released, by simp [listed], ?_⟩
      intro object isHeld apart
      have other := apart first (Nat.le_refl _)
      rw [Ledger.held_concat, Ledger.held_concat]
      simp [Ledger.holdsAfter, isHeld, other.symm]
  | @more first events grows inductionHypothesis =>
      intro before sound
      obtain ⟨soundAfter, heldAfter, keeps⟩ :=
        inductionHypothesis
          (before ++ [.obtained (.headersBuffer request first)])
          (sound.obtained _)
      rw [bufferLedger_malloc, bufferLedger_append, List.append_cons]
      refine ⟨soundAfter, ?_, ?_⟩
      · intro buffer member
        have isListed :
            listed (.malloc first :: .append first :: events) =
              first :: listed events :=
          rfl
        rw [isListed] at member
        rcases List.mem_cons.mp member with rfl | later
        · apply keeps
          · rw [Ledger.held_concat]
            simp [Ledger.holdsAfter]
          · intro other atLeast same
            cases same
            exact absurd atLeast (Nat.not_succ_le_self _)
        · exact heldAfter buffer later
      · intro object isHeld apart
        apply keeps
        · rw [Ledger.held_concat, Ledger.holdsAfter, isHeld, Bool.true_or]
        · intro buffer atLeast
          exact apart buffer (Nat.le_of_succ_le atLeast)

/-- No buffer is listed twice. -/
theorem Grows.listed_nodup
    (grows : Grows first events) :
    (listed events).Nodup ∧ ∀ buffer ∈ listed events, first ≤ buffer := by
  induction grows with
  | done first =>
      exact ⟨List.nodup_nil, nofun⟩
  | refused first =>
      exact ⟨List.nodup_nil, nofun⟩
  | @more first events grows inductionHypothesis =>
      obtain ⟨different, atLeast⟩ := inductionHypothesis
      have isListed :
          listed (.malloc first :: .append first :: events) =
            first :: listed events :=
        rfl
      rw [isListed]
      constructor
      · refine List.nodup_cons.mpr ⟨?_, different⟩
        intro member
        exact absurd (atLeast first member) (Nat.not_succ_le_self _)
      · intro buffer member
        rcases List.mem_cons.mp member with rfl | later
        · exact Nat.le_refl _
        · exact Nat.le_of_succ_le (atLeast buffer later)

/-- A buffer is obtained once at most, and released as often in the end. -/
theorem Grows.counts
    (request : Nat)
    (grows : Grows first events) (buffer : Nat) :
    (buffer < first →
        (bufferLedger request events).count
            (.obtained (.headersBuffer request buffer)) = 0) ∧
      (bufferLedger request events).count
          (.obtained (.headersBuffer request buffer)) ≤ 1 ∧
      (bufferLedger request events).count
            (.released (.headersBuffer request buffer)) +
          (listed events).count buffer =
        (bufferLedger request events).count
          (.obtained (.headersBuffer request buffer)) := by
  induction grows with
  | done first =>
      exact ⟨fun _ => rfl, Nat.zero_le _, rfl⟩
  | refused first =>
      by_cases same : first = buffer
      · subst same
        simp [listed]
      · simp [listed, same]
  | @more first events grows inductionHypothesis =>
      obtain ⟨below, once, balanced⟩ := inductionHypothesis
      have isListed :
          listed (.malloc first :: .append first :: events) =
            first :: listed events :=
        rfl
      rw [isListed, bufferLedger_malloc, bufferLedger_append]
      by_cases same : first = buffer
      · subst same
        have none := below (Nat.lt_succ_self _)
        simp only [List.count_cons_self, none] at balanced ⊢
        rw [List.count_cons_of_ne (by simp)]
        omega
      · rw [List.count_cons_of_ne (by simpa using same),
          List.count_cons_of_ne (by simp), List.count_cons_of_ne same]
        refine ⟨fun less => below ?_, once, balanced⟩
        exact Nat.lt_succ_of_lt less

end Buffers

section Iteration

variable {request : Nat} {events : List BufferEvent}
variable {answering : List Happening}

/-- What a round does to resources. -/
theorem ledger_iteration
    (request : Nat) (events : List BufferEvent)
    (answers : ledger answering = []) :
    ledger (iteration request events answering) =
      (.obtained (.requestArena request) :: bufferLedger request events) ++
          ((listed events).map (Resource.headersBuffer request)).map
            .released ++
        [.released (.requestArena request)] := by
  rw [← bufferLedger_requestFree, bufferLedger, bufferLedger]
  rw [ledger] at answers
  simp only [iteration, ledger, List.filterMap_append, answers,
    List.append_nil]
  rfl

/-- A round cleans up behind its request. -/
theorem cleansUp_iteration
    (request : Nat) (answering : List Happening)
    (grows : Grows 0 events)
    (answers : ledger answering = []) :
    CleansUp request (iteration request events answering) := by
  have isLedger := ledger_iteration request events answers
  have started : Ledger.Sound
      ([.obtained (.requestArena request)] :
        List (Ledger.Event Resource)) :=
    Ledger.sound_nil.obtained _
  have arenaHeld :
      Ledger.held
          ([.obtained (.requestArena request)] :
            List (Ledger.Event Resource))
          (.requestArena request) =
        true := by
    simp [Ledger.held, Ledger.holdsAfter]
  obtain ⟨sound, listedHeld, keeps⟩ :=
    grows.listed_held request _ started
  obtain ⟨different, -⟩ := grows.listed_nodup
  have apart :
      ((listed events).map (Resource.headersBuffer request)).Nodup :=
    different.map (fun first second same => by cases same; rfl)
  have freed := sound.release_all apart
    (by
      intro object member
      obtain ⟨buffer, isListed, rfl⟩ := List.mem_map.mp member
      exact listedHeld buffer isListed)
  have stillHeld :
      Ledger.held
          (([.obtained (.requestArena request)] ++
              bufferLedger request events) ++
            ((listed events).map (Resource.headersBuffer request)).map
              .released)
          (.requestArena request) = true := by
    rw [Ledger.held_released_all,
      keeps _ arenaHeld (fun buffer _ same => by cases same),
      Bool.true_and]
    simp
  have noArena (event : Ledger.Event Resource)
      (isArena :
        event = .obtained (.requestArena request) ∨
          event = .released (.requestArena request)) :
      (bufferLedger request events).count event = 0 ∧
        (((listed events).map (Resource.headersBuffer request)).map
          Ledger.Event.released).count event = 0 := by
    constructor
    · apply List.count_eq_zero.mpr
      intro member
      obtain ⟨buffer, rfl | rfl⟩ := own_bufferLedger event member
      · rcases isArena with same | same <;> cases same
      · rcases isArena with same | same <;> cases same
    · apply List.count_eq_zero.mpr
      intro member
      obtain ⟨object, isObject, rfl⟩ := List.mem_map.mp member
      obtain ⟨buffer, -, rfl⟩ := List.mem_map.mp isObject
      rcases isArena with same | same <;> cases same
  have freedOnce (buffer : Nat) :
      (((listed events).map (Resource.headersBuffer request)).map
            Ledger.Event.released).count
          (.released (.headersBuffer request buffer)) =
        (listed events).count buffer := by
    rw [List.count_map_of_injective _ _ (fun first second same => by
        cases same; rfl),
      List.count_map_of_injective _ _ (fun first second same => by
        cases same; rfl)]
  have notObtained (buffer : Nat) :
      (((listed events).map (Resource.headersBuffer request)).map
          Ledger.Event.released).count
        (.obtained (.headersBuffer request buffer)) = 0 := by
    apply List.count_eq_zero.mpr
    intro member
    obtain ⟨object, -, same⟩ := List.mem_map.mp member
    cases same
  refine ⟨?_, ?_, ?_, ?_, ?_, ?_⟩
  · rw [isLedger]
    exact freed.released stillHeld
  · obtain ⟨before, behind⟩ := noArena _ (Or.inl rfl)
    rw [isLedger, List.count_append, List.count_append,
      List.count_cons_self, before, behind]
    rfl
  · obtain ⟨before, behind⟩ := noArena _ (Or.inr rfl)
    rw [isLedger, List.count_append, List.count_append,
      List.count_cons_of_ne (by simp), before, behind]
    simp
  · intro buffer
    rw [isLedger, List.count_append, List.count_append,
      List.count_cons_of_ne (by simp), notObtained]
    have once := (grows.counts request buffer).2.1
    simpa using once
  · intro buffer
    rw [isLedger, List.count_append, List.count_append, List.count_append,
      List.count_append, List.count_cons_of_ne (by simp),
      List.count_cons_of_ne (by simp), freedOnce, notObtained]
    have balanced := (grows.counts request buffer).2.2
    simpa using balanced
  · intro event member object isObject
    rw [isLedger] at member
    simp only [List.cons_append, List.mem_cons, List.mem_append,
      List.not_mem_nil, or_false] at member
    rcases member with rfl | (inBuffers | inFreed) | rfl
    · rcases isObject with same | same <;> cases same
      exact Or.inl rfl
    · obtain ⟨buffer, rfl | rfl⟩ := own_bufferLedger event inBuffers
      · rcases isObject with same | same <;> cases same
        exact Or.inr ⟨buffer, rfl⟩
      · rcases isObject with same | same <;> cases same
        exact Or.inr ⟨buffer, rfl⟩
    · obtain ⟨other, isOther, rfl⟩ := List.mem_map.mp inFreed
      obtain ⟨buffer, -, rfl⟩ := List.mem_map.mp isOther
      rcases isObject with same | same <;> cases same
      exact Or.inr ⟨buffer, rfl⟩
    · rcases isObject with same | same <;> cases same
      exact Or.inl rfl

end Iteration

/-!
## The limit
-/

section Limit

variable {http : HttpParser σ} {config : Config}
variable {memory : Nat → Nat → UInt8} {fuel : Nat}
variable {handler : Request σ → Handler}

/-- A connection that is kept alive is below the limit. -/
theorem of_keepsAlive
    {nrequests : Nat} {requested : Bool} {response : Response}
    (keeps : keepsAlive config nrequests requested response = true) :
    limitReached config nrequests = false := by
  rw [keepsAlive] at keeps
  split at keeps
  · cases keeps
  · next notBoth =>
      rw [keeps, Bool.true_and] at notBoth
      exact Bool.eq_false_iff.mpr notBoth

/-- A connection that goes on has one request more, and is below the limit. -/
theorem finish_goesOn
    {nrequests : Nat} {keepalive : Bool} {exchange : Exchange σ}
    {next : Connected}
    (finished :
      exchange.finish http fuel nrequests keepalive = .ok next)
    (goesOn : next.keepalive = true) :
    keepalive = true ∧ next.nrequests = nrequests + 1 := by
  obtain ⟨⟨skipped, request, world⟩, -, finished⟩ := of_bind finished
  cases skipped with
  | true =>
      cases finished
      exact ⟨goesOn, rfl⟩
  | false =>
      cases finished
      cases goesOn

/-- What one round does. -/
theorem serveTraced_step
    {request : Nat} {connected next : Connected}
    {happened : List Happening}
    (serves :
      serveTraced http config memory fuel handler request connected =
        .ok (next, happened)) :
    CleansUp request happened ∧ happened.count .handler ≤ 1 ∧
      (.released .socket ∉ ledger happened) ∧
      (next.keepalive = true →
        next.nrequests = connected.nrequests + 1 ∧
          limitReached config connected.nrequests = false) := by
  have grows := grows_readEvents http config memory fuel connected.world
  have noHandler (events : List BufferEvent) :
      (bufferHappenings request events).count .handler = 0 := by
    apply List.count_eq_zero.mpr
    intro member
    obtain ⟨event, -, same⟩ := List.mem_filterMap.mp member
    cases event <;> cases same
  have noSocket {answering : List Happening}
      (cleans : CleansUp request (iteration request
        (readEvents http config memory fuel connected.world) answering)) :
      .released .socket ∉ ledger (iteration request
        (readEvents http config memory fuel connected.world)
          answering) := by
    intro member
    rcases cleans.own _ member .socket (Or.inr rfl) with same | ⟨_, same⟩
    · cases same
    · cases same
  rw [serveTraced] at serves
  obtain ⟨⟨err, head, world⟩, -, serves⟩ := of_bind serves
  dsimp only at serves
  split at serves
  · cases serves
    have cleans := cleansUp_iteration request [] grows rfl
    refine ⟨cleans, ?_, noSocket cleans, nofun⟩
    simp [iteration, noHandler]
  · obtain ⟨⟨keepalive, exchange⟩, responds, serves⟩ := of_bind serves
    obtain ⟨finished, finishes, serves⟩ := of_bind serves
    cases serves
    have cleans := cleansUp_iteration request [.handler] grows rfl
    refine ⟨cleans, ?_, noSocket cleans, ?_⟩
    · simp [iteration, noHandler]
    · intro goesOn
      obtain ⟨isKept, isNext⟩ := finish_goesOn finishes goesOn
      obtain ⟨⟨hres, answered⟩, -, responds⟩ := of_bind responds
      obtain ⟨concluded, -, responds⟩ := of_bind responds
      cases responds
      exact ⟨isNext, of_keepsAlive isKept⟩

/-- How many requests the limit allows at most. -/
def mostRequests (config : Config) : Nat :=
  max 1 config.keepaliveRequests.toNat

/-- Connections that the rounds of the loop come to. -/
def ComesTo (http : HttpParser σ) (config : Config)
    (memory : Nat → Nat → UInt8) (fuel : Nat)
    (handler : Request σ → Handler) : Connected → Connected → Prop :=
  Relation.ReflTransGen fun connected next =>
    connected.keepalive = true ∧
      serveRequest http config memory fuel handler connected = .ok next

/-- What holds between the rounds. -/
structure Within (config : Config) (serving : Serving) : Prop where
  cleansUp :
    ∀ n (within : n < serving.past.length), CleansUp n serving.past[n]
  handlers : serving.past.flatten.count .handler ≤ serving.past.length
  noSocket : .released .socket ∉ ledger serving.past.flatten
  atMost : serving.past.length ≤ mostRequests config
  counted :
    serving.connected.keepalive = true →
      serving.past.length = serving.connected.nrequests ∧
        serving.connected.nrequests < mostRequests config

/-- Before the first request. -/
theorem within_new (config : Config) (world : World) :
    Within config { connected := newConnection world, past := [] } where
  cleansUp := nofun
  handlers := Nat.le_refl _
  noSocket := nofun
  atMost := Nat.zero_le _
  counted := fun _ => ⟨rfl, Nat.lt_of_lt_of_le Nat.zero_lt_one
    (Nat.le_max_left _ _)⟩

/-- Another round keeps what holds. -/
theorem Within.next
    {serving : Serving} {next : Connected} {happened : List Happening}
    (limited : 0 ≤ config.keepaliveRequests)
    (within : Within config serving)
    (isKept : serving.connected.keepalive = true)
    (serves :
      serveTraced http config memory fuel handler serving.past.length
          serving.connected =
        .ok (next, happened)) :
    Within config
      { connected := next, past := serving.past ++ [happened] } := by
  obtain ⟨cleans, once, noSocket, goesOn⟩ := serveTraced_step serves
  obtain ⟨counted, below⟩ := within.counted isKept
  refine ⟨?_, ?_, ?_, ?_, ?_⟩
  · intro n inside
    by_cases earlier : n < serving.past.length
    · rw [List.getElem_append_left earlier]
      exact within.cleansUp n earlier
    · have isLast : n = serving.past.length := by
        rw [List.length_append, List.length_singleton] at inside
        exact Nat.le_antisymm (Nat.le_of_lt_succ inside)
          (Nat.le_of_not_lt earlier)
      subst isLast
      rw [List.getElem_append_right (Nat.le_refl _)]
      simpa using cleans
  · rw [List.flatten_append, List.count_append, List.length_append]
    simpa using Nat.add_le_add within.handlers once
  · rw [List.flatten_append, ledger, List.filterMap_append, ← ledger,
      ← ledger, List.mem_append, not_or]
    simpa using ⟨within.noSocket, noSocket⟩
  · rw [List.length_append, List.length_singleton, counted]
    exact below
  · intro isKeptNext
    obtain ⟨isNext, notReached⟩ := goesOn isKeptNext
    refine ⟨?_, ?_⟩
    · rw [List.length_append, List.length_singleton, counted]
      exact isNext.symm
    · have less : ((serving.connected.nrequests : Int) + 1) <
          config.keepaliveRequests := by
        rw [limitReached] at notReached
        have notBoth := of_decide_eq_false notReached
        rw [not_and] at notBoth
        exact Int.lt_of_not_ge (notBoth limited)
      change next.nrequests < mostRequests config
      rw [isNext, mostRequests]
      omega

/-- A loop all of whose rounds return ends within the limit. -/
theorem iterate_serve
    (limited : 0 ≤ config.keepaliveRequests)
    {start : Connected}
    (iterates :
      ∀ connected,
        ComesTo http config memory fuel handler start connected →
          connected.keepalive = true →
            ∃ next,
              serveRequest http config memory fuel handler connected =
                .ok next)
    (bound : Nat) :
    ∀ serving : Serving,
      Within config serving →
        ComesTo http config memory fuel handler start serving.connected →
          mostRequests config < serving.past.length + bound →
            ∃ last,
              Within config last ∧
                Loops.iterate (serve http config memory fuel handler)
                    .outOfFuel bound serving =
                  .ok last.past := by
  induction bound with
  | zero =>
      intro serving within _ enough
      exact absurd within.atMost (Nat.not_le_of_lt enough)
  | succ bound inductionHypothesis =>
      intro serving within comes enough
      cases isKept : serving.connected.keepalive with
      | false =>
          have stops :
              serve http config memory fuel handler serving =
                .ok (.stop serving.past) := by
            rw [serve, isKept]
            rfl
          exact ⟨serving, within, Loops.iterate_of_stop stops⟩
      | true =>
          obtain ⟨next, serves⟩ := iterates _ comes isKept
          have traced :=
            serveTraced_fst http config memory fuel handler
              serving.past.length serving.connected
          rw [serves] at traced
          rcases result :
              serveTraced http config memory fuel handler
                serving.past.length serving.connected with
            fault | ⟨after, happened⟩
          · rw [result] at traced
            cases traced
          · rw [result] at traced
            have isNext : after = next := Except.ok.inj traced
            subst isNext
            have goes :
                Loops.Goes (serve http config memory fuel handler) serving
                  { connected := after
                    past := serving.past ++ [happened] } := by
              rw [Loops.Goes, serve, if_pos isKept, result]
              rfl
            have later := inductionHypothesis
              { connected := after, past := serving.past ++ [happened] }
              (within.next limited isKept result)
              (comes.tail ⟨isKept, serves⟩)
              (by
                rw [List.length_append, List.length_singleton]
                omega)
            obtain ⟨last, withinLast, iterated⟩ := later
            exact ⟨last, withinLast,
              (Loops.iterate_of_goes goes).trans iterated⟩

/--
With a limit on its requests a connection whose rounds all return is closed,
once, and its handler is not called more often than the limit allows; every
round cleans up behind its request.
-/
theorem keepalive_limit
    (limited : 0 ≤ config.keepaliveRequests)
    (world : World)
    (iterates :
      ∀ connected,
        ComesTo http config memory fuel handler (newConnection world)
            connected →
          connected.keepalive = true →
            ∃ next,
              serveRequest http config memory fuel handler connected =
                .ok next)
    {bound : Nat}
    (enough : max 1 config.keepaliveRequests.toNat < bound) :
    ∃ iterations : List (List Happening),
      protocol http config memory fuel handler bound world =
          .ok (opening ++ iterations.flatten ++ closing) ∧
        iterations.length ≤ max 1 config.keepaliveRequests.toNat ∧
        (opening ++ iterations.flatten ++ closing).count .handler ≤
          max 1 config.keepaliveRequests.toNat ∧
        (opening ++ iterations.flatten ++ closing).count
            (.resource (.released .socket)) =
          1 ∧
        ∀ n (within : n < iterations.length), CleansUp n iterations[n] := by
  obtain ⟨last, within, iterated⟩ :=
    iterate_serve limited iterates bound
      { connected := newConnection world, past := [] }
      (within_new config world) Relation.ReflTransGen.refl
      (by
        rw [List.length_nil, Nat.zero_add]
        exact enough)
  refine ⟨last.past, ?_, within.atMost, ?_, ?_, within.cleansUp⟩
  · rw [protocol, iterated]
    rfl
  · have atEnds :
        opening.count .handler = 0 ∧ closing.count .handler = 0 := by
      decide
    rw [List.count_append, List.count_append, atEnds.1, atEnds.2,
      Nat.zero_add, Nat.add_zero]
    exact within.handlers.trans within.atMost
  · have noClose :
        last.past.flatten.count (.resource (.released .socket)) = 0 := by
      apply List.count_eq_zero.mpr
      intro member
      apply within.noSocket
      exact List.mem_filterMap.mpr ⟨_, member, rfl⟩
    rw [List.count_append, List.count_append, noClose]
    decide

end Limit

/-- Two requests on a connection. -/
def twoRequests : Config :=
  { largeBuffers with keepaliveRequests := 2 }

/-- A client that sends one request and no more. -/
def askOnce : World :=
  sending (connectionHead closeValue) []

/-- One request is answered by a handler that writes nothing. -/
theorem keepalive_limit_close :
    ∃ iterations : List (List Happening),
      protocol (closingParser closeValue) twoRequests (fun _ _ => 0) 1
            (fun _ => .done 0) 3 askOnce =
          .ok (opening ++ iterations.flatten ++ closing) ∧
        iterations.length ≤ max 1 2 ∧
        (opening ++ iterations.flatten ++ closing).count .handler ≤
          max 1 2 ∧
        (opening ++ iterations.flatten ++ closing).count
            (.resource (.released .socket)) =
          1 ∧
        ∀ n (within : n < iterations.length), CleansUp n iterations[n] := by
  obtain ⟨closed, serves, isClosed⟩ :
      ∃ next,
        serveRequest (closingParser closeValue) twoRequests (fun _ _ => 0) 1
            (fun _ => .done 0) (newConnection askOnce) =
          .ok next ∧
        next.keepalive = false :=
    ⟨_, rfl, rfl⟩
  have limited : 0 ≤ twoRequests.keepaliveRequests := by
    decide
  apply keepalive_limit limited askOnce _ (by decide)
  intro connected comes isKept
  rcases comes.cases_head with rfl | ⟨next, ⟨-, isNext⟩, later⟩
  · exact ⟨closed, serves⟩
  · rw [serves] at isNext
    cases isNext
    rcases later.cases_head with rfl | ⟨_, ⟨keptNext, -⟩, -⟩
    · rw [isClosed] at isKept
      cases isKept
    · rw [isClosed] at keptNext
      cases keptNext

end Dfk.Http
