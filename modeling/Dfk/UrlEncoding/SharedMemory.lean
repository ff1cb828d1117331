import Dfk.UrlEncoding.Grammar

/-!
# Decoding in one memory

`dfk_urldecode` with its input and its output in one memory, that keeps a
record of what is read and written.  The output may lie in front of the input,
and at its very start too: as much has been read as is overwritten.
-/

namespace Dfk.UrlEncoding

/-! ## Memory -/

/-- What the loop does to a byte of the memory. -/
inductive Access where
  | read (address : Nat)
  | written (address : Nat)
  deriving Repr, DecidableEq

/-- Memory, and the accesses to it so far. -/
structure Memory where
  bytes : Bytes
  accesses : List Access
  deriving Repr, DecidableEq

/-- The memory after a byte has been read. -/
def Memory.afterRead (memory : Memory) (address : Nat) : Memory :=
  { memory with accesses := memory.accesses ++ [.read address] }

/-- The memory after a byte has been written. -/
def Memory.afterWrite (memory : Memory) (address : Nat) (byte : UInt8) :
    Memory :=
  { bytes := memory.bytes.set address byte
    accesses := memory.accesses ++ [.written address] }

/-- Read a byte. -/
def Memory.load (memory : Memory) (address : Nat) :
    Except Fault (UInt8 × Memory) := do
  let byte ← entry memory.bytes address
  pure (byte, memory.afterRead address)

/-- Write a byte. -/
def Memory.store (memory : Memory) (address : Nat) (byte : UInt8) :
    Except Fault Memory :=
  if address < memory.bytes.length then .ok (memory.afterWrite address byte)
  else .error .outOfBounds

/-! ## The loop -/

/-- Where the loop of `dfk_urldecode` stands in the memory. -/
structure Cursors where
  memory : Memory
  buf : Nat
  out : Nat
  deriving Repr, DecidableEq

/-- The loop of `dfk_urldecode`, up to `stop`. -/
def urldecodeWithin (stop : Nat) : Nat → Cursors → Except Fault Cursors
  | 0, _ => .error .outOfFuel
  | fuel + 1, at_ =>
      if at_.buf = stop then .ok at_
      else do
        let c ← at_.memory.load at_.buf
        if c.1 = 37 then
          if stop ≤ at_.buf + 2 then pure { at_ with memory := c.2 }
          else do
            let first ← c.2.load (at_.buf + 1)
            let hi ← entry hexToByte first.1.toNat
            let second ← first.2.load (at_.buf + 2)
            let lo ← entry hexToByte second.1.toNat
            if hi &&& 0xF0 ≠ 0 ∨ lo &&& 0xF0 ≠ 0 then
              pure { at_ with memory := second.2 }
            else do
              let memory ← second.2.store at_.out (hi <<< 4 ||| lo)
              urldecodeWithin stop fuel
                { memory := memory, buf := at_.buf + 3, out := at_.out + 1 }
        else do
          let again ← c.2.load at_.buf
          let memory ← again.2.store at_.out again.1
          urldecodeWithin stop fuel
            { memory := memory, buf := at_.buf + 1, out := at_.out + 1 }

/-- What `dfk_urldecode` returns, `*nwritten`, and the memory it leaves. -/
structure DecodedWithin where
  memory : Memory
  consumed : Nat
  nwritten : Nat
  deriving Repr, DecidableEq

/-- `dfk_urldecode(buf, size, out, nwritten)` -/
def urldecodeMemory (memory : Memory) (buf size out : Nat) :
    Except Fault DecodedWithin := do
  let final ←
    urldecodeWithin (buf + size) (size + 1)
      { memory := memory, buf := buf, out := out }
  pure
    { memory := final.memory
      consumed := final.buf + size - (buf + size)
      nwritten := final.out - out }

/-! ## What is read before it is overwritten -/

/--
A byte of the `size` bytes at `buf` is written after it has been read only,
and is not read again.
-/
def ReadFirst (buf size : Nat) (accesses : List Access) : Prop :=
  ∀ before address after,
    accesses = before ++ .written address :: after →
      buf ≤ address → address < buf + size →
        .read address ∈ before ∧ .read address ∉ after

section Accesses

variable {buf size address : Nat} {accesses : List Access}

/-- One more access: a write to what has been read, or a first read. -/
theorem ReadFirst.snoc
    {last : Access}
    (first : ReadFirst buf size accesses)
    (passed :
      ∀ address, last = .written address →
        buf ≤ address → address < buf + size → .read address ∈ accesses)
    (fresh :
      ∀ address, last = .read address → .written address ∉ accesses) :
    ReadFirst buf size (accesses ++ [last]) := by
  intro before address after split above below
  rcases List.eq_nil_or_concat after with isNil | ⟨earlier, final, isSnoc⟩
  · subst isNil
    obtain ⟨same, ends⟩ := List.append_inj' split rfl
    rw [← same]
    exact ⟨passed address (List.cons.inj ends).1 above below,
      List.not_mem_nil⟩
  · subst isSnoc
    have regrouped :
        accesses ++ [last] =
          (before ++ .written address :: earlier) ++ [final] := by
      rw [split, List.append_assoc, List.cons_append,
        List.concat_eq_append]
    obtain ⟨same, ends⟩ := List.append_inj' regrouped rfl
    have isFinal := (List.cons.inj ends).1
    obtain ⟨wasRead, unread⟩ :=
      first before address earlier same above below
    refine ⟨wasRead, ?_⟩
    intro isRead
    rw [List.concat_eq_append, List.mem_append, List.mem_singleton]
      at isRead
    rcases isRead with isEarlier | isLast
    · exact unread isEarlier
    · apply fresh address (isFinal.trans isLast.symm)
      rw [same]
      exact List.mem_append_right before List.mem_cons_self

end Accesses

/-! ## The invariant of the loop -/

/--
The loop has decoded `position` bytes of `input`, which lies at `base`, to
`decoded`, which lies at `start` in what was `initial`.
-/
structure Trails (input initial : Bytes) (base start position : Nat)
    (decoded : Bytes) (memory : Memory) : Prop where
  within : position ≤ input.length
  behind : decoded.length ≤ position
  same_length : memory.bytes.length = initial.length
  /-- The output is in front of the input, or behind it. -/
  clear : start ≤ base ∨ base + input.length ≤ start
  room : ∀ i, i < input.length → start + i < initial.length
  ahead :
    ∀ i, position ≤ i → i < input.length →
      memory.bytes[base + i]? = input[i]?
  holds :
    ∀ i, i < decoded.length → memory.bytes[start + i]? = decoded[i]?
  kept :
    ∀ address, address < start ∨ start + decoded.length ≤ address →
      memory.bytes[address]? = initial[address]?
  passed :
    ∀ i, i < position → .read (base + i) ∈ memory.accesses
  written :
    ∀ address, .written address ∈ memory.accesses →
      start ≤ address ∧ address < start + decoded.length
  first : ReadFirst base input.length memory.accesses

section Rounds

variable {input initial decoded : Bytes} {base start position i : Nat}
variable {memory : Memory} {c : UInt8}

/-- Where the loop begins. -/
theorem Trails.init
    (clear : start ≤ base ∨ base + input.length ≤ start)
    (room : ∀ i, i < input.length → start + i < initial.length)
    (lies : (initial.drop base).take input.length = input) :
    Trails input initial base start 0 [] ⟨initial, []⟩ where
  within := Nat.zero_le _
  behind := Nat.le_refl 0
  same_length := rfl
  clear := clear
  room := room
  ahead := by
    intro i _ inside
    calc initial[base + i]?
        = ((initial.drop base).take input.length)[i]? := by
          rw [List.getElem?_take_of_lt inside, List.getElem?_drop]
      _ = input[i]? := by
          rw [lies]
  holds := by
    intro i inside
    cases inside
  kept := by
    intro address _
    rfl
  passed := by
    intro i inside
    cases inside
  written := by
    intro address isWritten
    cases isWritten
  first := by
    intro before address after split
    cases before <;> cases split

/-- What is read lies in the input. -/
theorem inside_of_entry (isEntry : entry input i = .ok c) :
    i < input.length := by
  apply Decidable.byContradiction
  intro beyond
  rw [entry, List.getElem?_eq_none (not_lt.mp beyond)] at isEntry
  cases isEntry

/-- A byte that lies ahead is read as it was at first. -/
theorem Trails.load
    (trails : Trails input initial base start position decoded memory)
    (isAhead : position ≤ i)
    (isEntry : entry input i = .ok c) :
    memory.load (base + i) = .ok (c, memory.afterRead (base + i)) ∧
      Trails input initial base start position decoded
        (memory.afterRead (base + i)) := by
  have inside := inside_of_entry isEntry
  have lies := trails.ahead i isAhead inside
  constructor
  · rw [Memory.load, entry, lies, ← entry, isEntry, ok_bind]
    rfl
  · exact
      { trails with
        passed := by
          intro other below
          exact List.mem_append_left _ (trails.passed other below)
        written := by
          intro address isWritten
          rcases List.mem_append.mp isWritten with before | isLast
          · exact trails.written address before
          · cases List.mem_singleton.mp isLast
        first := by
          apply trails.first.snoc
          · intro address isWritten
            cases isWritten
          · intro address isRead isWritten
            cases isRead
            have bounds := trails.written _ isWritten
            have trailing := trails.behind
            rcases trails.clear with isFront | isBehind
            · omega
            · omega }

/-- A byte is written behind what has been decoded, and the loop goes on. -/
theorem Trails.store
    (next : Nat) (c : UInt8)
    (trails : Trails input initial base start position decoded memory)
    (goesOn : position < next)
    (inside : next ≤ input.length)
    (passed :
      ∀ i, position ≤ i → i < next → .read (base + i) ∈ memory.accesses) :
    memory.store (start + decoded.length) c =
        .ok (memory.afterWrite (start + decoded.length) c) ∧
      Trails input initial base start next (decoded ++ [c])
        (memory.afterWrite (start + decoded.length) c) := by
  have trailing := trails.behind
  have room := trails.room decoded.length (by omega)
  have fits : start + decoded.length < memory.bytes.length := by
    rw [trails.same_length]
    exact room
  have longer : (decoded ++ [c]).length = decoded.length + 1 :=
    List.length_append
  have allPassed :
      ∀ i, i < next → .read (base + i) ∈ memory.accesses := by
    intro i below
    rcases Nat.lt_or_ge i position with isBefore | isAfter
    · exact trails.passed i isBefore
    · exact passed i isAfter below
  constructor
  · exact if_pos fits
  · exact
      { within := inside
        behind := by omega
        same_length := List.length_set.trans trails.same_length
        clear := trails.clear
        room := trails.room
        ahead := by
          intro i isAhead below
          have apart : start + decoded.length ≠ base + i := by
            rcases trails.clear with isFront | isBehind
            · omega
            · omega
          exact (List.getElem?_set_ne apart).trans
            (trails.ahead i (by omega) below)
        holds := by
          intro i below
          rcases Nat.lt_or_ge i decoded.length with isOld | isNew
          · rw [List.getElem?_append_left isOld, ← trails.holds i isOld]
            exact List.getElem?_set_ne (by omega)
          · have isLast : i = decoded.length := by omega
            subst isLast
            rw [List.getElem?_concat_length]
            exact List.getElem?_set_self fits
        kept := by
          intro address isOutside
          rw [← trails.kept address (by omega)]
          exact List.getElem?_set_ne (by omega)
        passed := by
          intro i below
          exact List.mem_append_left _ (allPassed i below)
        written := by
          intro address isWritten
          rcases List.mem_append.mp isWritten with before | isLast
          · have bounds := trails.written address before
            omega
          · cases List.mem_singleton.mp isLast
            omega
        first := by
          apply trails.first.snoc
          · intro address isWritten above below
            cases isWritten
            have isPassed :=
              allPassed (start + decoded.length - base)
                (by rcases trails.clear with isFront | isBehind <;> omega)
            rw [Nat.add_sub_cancel' above] at isPassed
            exact isPassed
          · intro address isRead
            cases isRead }

/-- A round reads the byte it copies. -/
theorem readTwice (memory : Memory) :
    ∀ i, position ≤ i → i < position + 1 →
      .read (base + i) ∈
        ((memory.afterRead (base + position)).afterRead
          (base + position)).accesses := by
  intro i above below
  have same : i = position :=
    Nat.le_antisymm (Nat.lt_succ_iff.mp below) above
  rw [same]
  exact List.mem_append_right _ List.mem_cons_self

/-- A round reads the three bytes it decodes. -/
theorem readThree (memory : Memory) :
    ∀ i, position ≤ i → i < position + 3 →
      .read (base + i) ∈
        (((memory.afterRead (base + position)).afterRead
          (base + (position + 1))).afterRead
            (base + (position + 2))).accesses := by
  intro i above below
  have alternatives :
      i = position ∨ i = position + 1 ∨ i = position + 2 := by
    omega
  simp only [Memory.afterRead, List.mem_append, List.mem_singleton,
    Access.read.injEq]
  rcases alternatives with isFirst | isSecond | isThird
  · exact Or.inl (Or.inl (Or.inr (congrArg (base + ·) isFirst)))
  · exact Or.inl (Or.inr (congrArg (base + ·) isSecond))
  · exact Or.inr (congrArg (base + ·) isThird)

/-- The loop in memory goes through the rounds of the loop on the input. -/
theorem urldecodeWithin_follows
    {fuel last : Nat} {result : Bytes}
    (trails : Trails input initial base start position decoded memory)
    (decodes :
      urldecodeFrom input fuel position decoded = .ok (last, result)) :
    ∃ final,
      urldecodeWithin (base + input.length) fuel
          { memory := memory
            buf := base + position
            out := start + decoded.length } =
        .ok
          { memory := final
            buf := base + last
            out := start + result.length } ∧
        Trails input initial base start last result final := by
  induction fuel generalizing position decoded memory with
  | zero =>
      cases decodes
  | succ fuel inductionHypothesis =>
      rw [urldecodeFrom] at decodes
      rw [urldecodeWithin]
      dsimp only
      by_cases atEnd : position = input.length
      · rw [if_pos atEnd] at decodes
        rw [if_pos (congrArg (base + ·) atEnd)]
        cases decodes
        exact ⟨memory, rfl, trails⟩
      · rw [if_neg atEnd] at decodes
        rw [if_neg (fun same => atEnd (Nat.add_left_cancel same))]
        obtain ⟨c, isEntry, decodes⟩ := of_bind decodes
        have inside := inside_of_entry isEntry
        obtain ⟨loads, trails⟩ := trails.load (Nat.le_refl position) isEntry
        rw [loads, ok_bind]
        dsimp only
        by_cases isPercent : c = 37
        · rw [if_pos isPercent] at decodes
          rw [if_pos isPercent]
          by_cases tooShort : input.length ≤ position + 2
          · rw [if_pos tooShort] at decodes
            rw [if_pos (by omega : base + input.length ≤ base + position + 2)]
            cases decodes
            exact ⟨_, rfl, trails⟩
          · rw [if_neg tooShort] at decodes
            rw [if_neg (by omega : ¬ base + input.length ≤ base + position + 2)]
            obtain ⟨high, isHigh, decodes⟩ := of_bind decodes
            obtain ⟨low, isLow, decodes⟩ := of_bind decodes
            obtain ⟨hi, hiEntry, decodes⟩ := of_bind decodes
            obtain ⟨lo, loEntry, decodes⟩ := of_bind decodes
            obtain ⟨loadsHigh, trails⟩ :=
              trails.load (Nat.le_succ position) isHigh
            obtain ⟨loadsLow, trails⟩ :=
              trails.load (Nat.le_add_right position 2) isLow
            rw [Nat.add_assoc base, loadsHigh, ok_bind, hiEntry, ok_bind,
              Nat.add_assoc base, loadsLow, ok_bind, loEntry, ok_bind]
            by_cases notDigits : hi &&& 0xF0 ≠ 0 ∨ lo &&& 0xF0 ≠ 0
            · rw [if_pos notDigits] at decodes
              rw [if_pos notDigits]
              cases decodes
              exact ⟨_, rfl, trails⟩
            · rw [if_neg notDigits] at decodes
              rw [if_neg notDigits]
              obtain ⟨stores, trails⟩ :=
                trails.store (position + 3) (hi <<< 4 ||| lo)
                  (by omega) (by omega) (readThree memory)
              rw [stores, ok_bind]
              have goesOn := inductionHypothesis trails decodes
              rw [List.length_append] at goesOn
              exact goesOn
        · rw [if_neg isPercent] at decodes
          rw [if_neg isPercent]
          obtain ⟨loadsAgain, trails⟩ :=
            trails.load (Nat.le_refl position) isEntry
          rw [loadsAgain, ok_bind]
          obtain ⟨stores, trails⟩ :=
            trails.store (position + 1) c (Nat.lt_succ_self position)
              inside (readTwice memory)
          rw [stores, ok_bind]
          have goesOn := inductionHypothesis trails decodes
          rw [List.length_append] at goesOn
          exact goesOn

end Rounds

/-! ## The call -/

section Calls

variable {input initial : Bytes} {base start : Nat}

/-- The input lies at `base`, and what it decodes to has room at `start`. -/
structure Placed (input initial : Bytes) (base start : Nat) : Prop where
  lies : (initial.drop base).take input.length = input
  room : ∀ i, i < input.length → start + i < initial.length

/-- An input leaves room for what it decodes to. -/
theorem Placed.inPlace
    (lies : (initial.drop base).take input.length = input) :
    Placed input initial base base where
  lies := lies
  room := by
    intro i inside
    have length := congrArg List.length lies
    rw [List.length_take, List.length_drop] at length
    omega

/-- Every input is decoded. -/
theorem urldecode_total (input : Bytes) :
    ∃ decoded, urldecode input = .ok decoded := by
  obtain ⟨tokens, rest, scans⟩ :=
    Lexicon.Scans.exists_scans items input
  exact ⟨_, urldecode_scans scans⟩

/--
Decoding in memory, to a place that is not within the input, comes to what
decoding the input comes to.
-/
theorem urldecodeMemory_eq
    {decoded : Decoded}
    (placed : Placed input initial base start)
    (clear : start ≤ base ∨ base + input.length ≤ start)
    (decodes : urldecode input = .ok decoded) :
    ∃ final,
      urldecodeMemory ⟨initial, []⟩ base input.length start =
        .ok
          { memory := final
            consumed := decoded.consumed
            nwritten := decoded.nwritten } ∧
        (final.bytes.drop start).take decoded.nwritten = decoded.out ∧
        decoded.nwritten = decoded.out.length ∧
        ReadFirst base input.length final.accesses ∧
        ∀ address,
          address < start ∨ start + decoded.nwritten ≤ address →
            final.bytes[address]? = initial[address]? := by
  obtain ⟨loop, runs, returns⟩ := of_bind decodes
  cases returns
  obtain ⟨final, follows, trails⟩ :=
    urldecodeWithin_follows
      (Trails.init clear placed.room placed.lies) runs
  refine ⟨final, ?_, ?_, rfl, trails.first, trails.kept⟩
  · simp only [List.length_nil, Nat.add_zero] at follows
    rw [urldecodeMemory, follows, ok_bind, pure_eq_ok]
    have consumed :
        base + loop.1 + input.length - (base + input.length) = loop.1 := by
      omega
    simp only [consumed, Nat.add_sub_cancel_left]
  · apply List.ext_getElem?
    intro i
    rcases Nat.lt_or_ge i loop.2.length with inside | beyond
    · rw [List.getElem?_take_of_lt inside, List.getElem?_drop]
      exact trails.holds i inside
    · rw [List.getElem?_eq_none beyond]
      apply List.getElem?_eq_none
      rw [List.length_take]
      exact (Nat.min_le_left _ _).trans beyond

end Calls

/--
Decoding in place returns what decoding to another place returns, and leaves
the same bytes there; a byte of the input is overwritten after it has been
read, and not read again.
-/
theorem urldecode_in_place
    (input initial other : Bytes) (buf place out : Nat)
    (lies : (initial.drop buf).take input.length = input)
    (liesThere : (other.drop place).take input.length = input)
    (room : out + input.length ≤ other.length)
    (disjoint : out + input.length ≤ place ∨ place + input.length ≤ out) :
    ∃ here there,
      urldecodeMemory ⟨initial, []⟩ buf input.length buf = .ok here ∧
        urldecodeMemory ⟨other, []⟩ place input.length out = .ok there ∧
        here.consumed = there.consumed ∧
        here.nwritten = there.nwritten ∧
        (here.memory.bytes.drop buf).take here.nwritten =
          (there.memory.bytes.drop out).take there.nwritten ∧
        ReadFirst buf input.length here.memory.accesses := by
  obtain ⟨decoded, decodes⟩ := urldecode_total input
  have placedThere : Placed input other place out :=
    ⟨liesThere, fun i inside => by omega⟩
  obtain ⟨here, runsHere, writtenHere, -, first, -⟩ :=
    urldecodeMemory_eq (Placed.inPlace lies) (Or.inl (Nat.le_refl buf))
      decodes
  obtain ⟨there, runsThere, writtenThere, -, -, -⟩ :=
    urldecodeMemory_eq placedThere
      (disjoint.imp_left (fun front => by omega)) decodes
  exact
    ⟨_, _, runsHere, runsThere, rfl, rfl,
      writtenHere.trans writtenThere.symm, first⟩

/-- `"a%20b%2"`, in place and with an output buffer behind it. -/
theorem urldecode_in_place_escape :
    ∃ here there,
      urldecodeMemory ⟨ascii "a%20b%2", []⟩ 0 7 0 = .ok here ∧
        urldecodeMemory ⟨ascii "a%20b%2" ++ List.replicate 7 0, []⟩ 0 7 7 =
          .ok there ∧
        here.consumed = there.consumed ∧
        here.nwritten = there.nwritten ∧
        (here.memory.bytes.drop 0).take here.nwritten =
          (there.memory.bytes.drop 7).take there.nwritten ∧
        ReadFirst 0 7 here.memory.accesses :=
  urldecode_in_place (ascii "a%20b%2") (ascii "a%20b%2")
    (ascii "a%20b%2" ++ List.replicate 7 0) 0 0 7
    (by decide) (by decide) (by decide) (Or.inr (by decide))

end Dfk.UrlEncoding
