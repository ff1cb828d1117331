import Dfk.Fault
import Dfk.Bytes

/-!
# TCP sockets

The outside of a connection: what the client has written, what it receives,
and how the kernel, the event loop and the allocator answer.  Each of them
follows a schedule; where a schedule ends it serves every call in full.
-/

namespace Dfk

/-- Values of `errno` the socket functions tell apart. -/
inductive Errno where
  | again
  | other
  deriving Repr, DecidableEq

/-- What the kernel does at a `read` or a `write`. -/
inductive Kernel where
  /-- Move one byte and at most `more` further bytes. -/
  | move (more : Nat)
  | fail (errno : Errno)
  deriving Repr, DecidableEq

/-- The outside of a connection. -/
structure World where
  /-- Bytes of the client that no `read` has returned yet. -/
  input : Bytes
  /-- Bytes handed to the kernel for the client. -/
  output : Bytes
  reads : List Kernel
  writes : List Kernel
  /-- Answers of the event loop: the awaited event, or an error. -/
  waits : List Bool
  /-- Answers of the allocator. -/
  allocations : List Bool
  deriving Repr, DecidableEq

namespace World

/-- The next of a row of answers. -/
def next : List Bool → Bool × List Bool
  | [] => (true, [])
  | answer :: answers => (answer, answers)

/-- `DFK_IO` for one event: whether it occurs instead of an error. -/
def io (world : World) : Bool × World :=
  ((next world.waits).1, { world with waits := (next world.waits).2 })

/-- `dfk__malloc` or `dfk_arena_alloc`: whether it succeeds. -/
def alloc (world : World) : Bool × World :=
  ((next world.allocations).1,
    { world with allocations := (next world.allocations).2 })

/-- The next answer of the kernel when asked to move `size` bytes. -/
def answer (size : Nat) : List Kernel → Except Errno Nat × List Kernel
  | [] => (.ok size, [])
  | .move more :: schedule => (.ok (min (more + 1) size), schedule)
  | .fail errno :: schedule => (.error errno, schedule)

/-- The `write` system call. -/
def write (world : World) (buf : Bytes) : Except Errno Nat × World :=
  match answer buf.length world.writes with
  | (.ok count, writes) =>
      (.ok count,
        { world with
          writes := writes
          output := world.output ++ buf.take count })
  | (.error errno, writes) => (.error errno, { world with writes := writes })

/-- The `read` system call; the end of the input reads as no bytes. -/
def read (world : World) (nbytes : Nat) : Except Errno Bytes × World :=
  match answer nbytes world.reads with
  | (.ok count, reads) =>
      (.ok (world.input.take count),
        { world with reads := reads, input := world.input.drop count })
  | (.error errno, reads) => (.error errno, { world with reads := reads })

end World

/-- `dfk_tcp_socket_write` -/
def tcpSocketWrite (world : World) (buf : Bytes) :
    Except Fault (Int × World) := do
  check (buf ≠ [])
  match world.write buf with
  | (.ok nwritten, world) => pure (nwritten, world)
  | (.error .other, world) => pure (-1, world)
  | (.error .again, world) =>
      match world.io with
      | (false, world) => pure (-1, world)
      | (true, world) =>
          match world.write buf with
          | (.ok nwritten, world) => pure (nwritten, world)
          | (.error _, world) => pure (-1, world)

/-- The loop of `dfk_tcp_socket_writev`. -/
def tcpSocketWritevFrom :
    World → Int → List Bytes → Except Fault (Int × World)
  | world, totalwritten, [] => .ok (totalwritten, world)
  | world, totalwritten, buf :: iov => do
      let (nwritten, world) ← tcpSocketWrite world buf
      if nwritten < 0 then pure (nwritten, world)
      -- a short write is reported alone, without the buffers before it
      else if nwritten ≠ buf.length then pure (nwritten, world)
      else tcpSocketWritevFrom world (totalwritten + nwritten) iov

/-- `dfk_tcp_socket_writev` -/
def tcpSocketWritev (world : World) (iov : List Bytes) :
    Except Fault (Int × World) := do
  check (iov ≠ [])
  tcpSocketWritevFrom world 0 iov

/-- `dfk_tcp_socket_read`, by `dfk__read`; `none` is the result −1. -/
def tcpSocketRead (world : World) (nbytes : Nat) :
    Except Fault (Option Bytes × World) := do
  check (nbytes ≠ 0)
  match world.read nbytes with
  | (.ok bytes, world) => pure (some bytes, world)
  | (.error .other, world) => pure (none, world)
  | (.error .again, world) =>
      match world.io with
      | (false, world) => pure (none, world)
      | (true, world) =>
          match world.read nbytes with
          | (.ok bytes, world) => pure (some bytes, world)
          | (.error _, world) => pure (none, world)

namespace World

/-!
## What a socket takes
-/

/-- The world after the client has received more bytes. -/
def emit (world : World) (bytes : Bytes) : World :=
  { world with output := world.output ++ bytes }

/--
How many of `size` bytes are moved by a socket with these schedules, waiting
once if it is not ready; `none` if it fails.
-/
def moved (size : Nat) (schedule : List Kernel) (waits : List Bool) :
    Option Nat × List Kernel × List Bool :=
  match answer size schedule with
  | (.ok count, schedule) => (some count, schedule, waits)
  | (.error .other, schedule) => (none, schedule, waits)
  | (.error .again, schedule) =>
      match next waits with
      | (false, waits) => (none, schedule, waits)
      | (true, waits) =>
          match answer size schedule with
          | (.ok count, schedule) => (some count, schedule, waits)
          | (.error _, schedule) => (none, schedule, waits)

/-- How many of `size` bytes the socket takes. -/
def takes (world : World) (size : Nat) : Option Nat × World :=
  ((moved size world.writes world.waits).1,
    { world with
      writes := (moved size world.writes world.waits).2.1
      waits := (moved size world.writes world.waits).2.2 })

/-- The socket takes buffers of all these sizes whole, one after another. -/
def TakesWhole : World → List Nat → Prop
  | _, [] => True
  | world, size :: sizes =>
      (world.takes size).1 = some size ∧ TakesWhole (world.takes size).2 sizes

/-- The world after the socket was offered buffers of these sizes. -/
def offered : World → List Nat → World
  | world, [] => world
  | world, size :: sizes => offered (world.takes size).2 sizes

instance TakesWhole.decidable :
    ∀ (world : World) (sizes : List Nat), Decidable (world.TakesWhole sizes)
  | _, [] => .isTrue trivial
  | world, size :: sizes =>
      have := TakesWhole.decidable (world.takes size).2 sizes
      inferInstanceAs
        (Decidable (_ ∧ TakesWhole (world.takes size).2 sizes))

/-- The kernel moves no more than it is asked to. -/
theorem answer_le
    {size count : Nat} {schedule rest : List Kernel}
    (answered : answer size schedule = (.ok count, rest)) :
    count ≤ size := by
  cases schedule with
  | nil =>
      simp only [answer, Prod.mk.injEq, Except.ok.injEq] at answered
      omega
  | cons kernel schedule =>
      cases kernel with
      | move more =>
          simp only [answer, Prod.mk.injEq, Except.ok.injEq] at answered
          omega
      | fail errno =>
          simp [answer] at answered

/-- The kernel moves something when it is asked to. -/
theorem answer_pos
    {size count : Nat} {schedule rest : List Kernel}
    (asked : 0 < size)
    (answered : answer size schedule = (.ok count, rest)) :
    0 < count := by
  cases schedule with
  | nil =>
      simp only [answer, Prod.mk.injEq, Except.ok.injEq] at answered
      omega
  | cons kernel schedule =>
      cases kernel with
      | move more =>
          simp only [answer, Prod.mk.injEq, Except.ok.injEq] at answered
          omega
      | fail errno =>
          simp [answer] at answered

/-- What is moved is an answer of the kernel. -/
theorem moved_cases
    {size count : Nat} {schedule : List Kernel} {waits : List Bool}
    (moves : (moved size schedule waits).1 = some count) :
    ∃ before after, answer size before = (.ok count, after) := by
  rw [moved] at moves
  rcases first : answer size schedule with ⟨errno | some, later⟩
  · rw [first] at moves
    cases errno with
    | again =>
        rcases wait : next waits with ⟨_ | _, remaining⟩
        · simp [wait] at moves
        · simp only [wait] at moves
          rcases second : answer size later with ⟨failure | some, last⟩
          · simp [second] at moves
          · simp only [second, Option.some.injEq] at moves
            rw [← moves]
            exact ⟨later, last, second⟩
    | other =>
        simp at moves
  · simp only [first, Option.some.injEq] at moves
    rw [← moves]
    exact ⟨schedule, later, first⟩

/-- No more is moved than asked for. -/
theorem moved_le
    {size count : Nat} {schedule : List Kernel} {waits : List Bool}
    (moves : (moved size schedule waits).1 = some count) :
    count ≤ size := by
  obtain ⟨before, after, answered⟩ := moved_cases moves
  exact answer_le answered

/-- Something is moved if it is asked for. -/
theorem moved_pos
    {size count : Nat} {schedule : List Kernel} {waits : List Bool}
    (asked : 0 < size)
    (moves : (moved size schedule waits).1 = some count) :
    0 < count := by
  obtain ⟨before, after, answered⟩ := moved_cases moves
  exact answer_pos asked answered

/-- Whether anything was received before does not matter to the socket. -/
theorem takes_emit (world : World) (bytes : Bytes) (size : Nat) :
    (world.emit bytes).takes size =
      ((world.takes size).1, (world.takes size).2.emit bytes) :=
  rfl

end World

/-- `dfk_tcp_socket_write` reports how many bytes the socket took. -/
theorem tcpSocketWrite_eq
    {buf : Bytes}
    (notEmpty : buf ≠ [])
    (world : World) :
    tcpSocketWrite world buf =
      .ok
        (match (world.takes buf.length).1 with
          | some count => count
          | none => -1,
        (world.takes buf.length).2.emit
          (buf.take ((world.takes buf.length).1.getD 0))) := by
  rw [tcpSocketWrite, check_pos notEmpty, ok_bind, World.takes,
    World.moved, World.write]
  rcases World.answer buf.length world.writes with ⟨errno | count, writes⟩
  · cases errno with
    | again =>
        simp only [World.io]
        rcases World.next world.waits with ⟨ready, waits⟩
        cases ready with
        | false =>
            simp [World.emit]
        | true =>
            simp only [World.write]
            rcases World.answer buf.length writes with
              ⟨failure | count, later⟩
            · simp [World.emit]
            · simp [World.emit]
    | other =>
        simp [World.emit]
  · rfl

namespace World

/-- What is taken whole does not depend on what was received before. -/
theorem takesWhole_emit (bytes : Bytes) (sizes : List Nat) :
    ∀ world : World,
      (world.emit bytes).TakesWhole sizes ↔ world.TakesWhole sizes := by
  induction sizes with
  | nil =>
      intro world
      exact Iff.rfl
  | cons size sizes inductionHypothesis =>
      intro world
      rw [TakesWhole, TakesWhole, takes_emit, inductionHypothesis]

/-- Offering more does not look at what was received before. -/
theorem offered_emit (bytes : Bytes) (sizes : List Nat) :
    ∀ world : World,
      (world.emit bytes).offered sizes = (world.offered sizes).emit bytes := by
  induction sizes with
  | nil =>
      intro world
      rfl
  | cons size sizes inductionHypothesis =>
      intro world
      rw [offered, offered, takes_emit, inductionHypothesis]

/-- Receiving twice. -/
@[simp] theorem emit_emit (world : World) (first second : Bytes) :
    (world.emit first).emit second = world.emit (first ++ second) := by
  simp [emit, List.append_assoc]

/-- Receiving nothing. -/
@[simp] theorem emit_nil (world : World) : world.emit [] = world := by
  simp [emit]

@[simp] theorem emit_output (world : World) (bytes : Bytes) :
    (world.emit bytes).output = world.output ++ bytes :=
  rfl

@[simp] theorem takes_output (world : World) (size : Nat) :
    (world.takes size).2.output = world.output :=
  rfl

@[simp] theorem offered_output (sizes : List Nat) :
    ∀ world : World, (world.offered sizes).output = world.output := by
  induction sizes with
  | nil =>
      intro world
      rfl
  | cons size sizes inductionHypothesis =>
      intro world
      rw [offered, inductionHypothesis]
      rfl

end World

/-- Buffers the socket takes whole are written, and all are reported. -/
theorem tcpSocketWritevFrom_of_takesWhole
    (iov : List Bytes)
    (notEmpty : ∀ buf ∈ iov, buf ≠ []) :
    ∀ (world : World) (totalwritten : Int),
      world.TakesWhole (iov.map List.length) →
        tcpSocketWritevFrom world totalwritten iov =
          .ok
            (totalwritten + iov.flatten.length,
              (world.offered (iov.map List.length)).emit iov.flatten) := by
  induction iov with
  | nil =>
      intro world totalwritten whole
      simp [tcpSocketWritevFrom, World.offered]
  | cons buf iov inductionHypothesis =>
      intro world totalwritten whole
      obtain ⟨wholeBuffer, wholeRest⟩ := whole
      have written :=
        tcpSocketWrite_eq (notEmpty buf (List.mem_cons_self ..)) world
      simp only [wholeBuffer, Option.getD_some, List.take_length] at written
      have rest :=
        inductionHypothesis
          (fun other member => notEmpty other (List.mem_cons_of_mem _ member))
          ((world.takes buf.length).2.emit buf)
          (totalwritten + buf.length)
          ((World.takesWhole_emit _ _ _).mpr wholeRest)
      rw [tcpSocketWritevFrom, written, ok_bind]
      dsimp only
      rw [if_neg (by omega), if_neg (by simp), rest, World.offered_emit,
        World.emit_emit]
      simp [World.offered, Int.add_assoc]

/-- No bytes cannot be written. -/
@[simp] theorem tcpSocketWrite_nil (world : World) :
    tcpSocketWrite world [] = .error .assertion :=
  rfl

/-- A vectored write that returns had only non-empty buffers before it. -/
theorem notEmpty_of_writtenFrom
    (iov : List Bytes) :
    ∀ {world after : World} {totalwritten reported : Int},
      world.TakesWhole (iov.map List.length) →
        tcpSocketWritevFrom world totalwritten iov =
            .ok (reported, after) →
          ∀ buf ∈ iov, buf ≠ [] := by
  induction iov with
  | nil =>
      intro world after totalwritten reported whole written buf member
      cases member
  | cons head iov inductionHypothesis =>
      intro world after totalwritten reported whole written
      rw [tcpSocketWritevFrom] at written
      have headNotEmpty : head ≠ [] := by
        intro empty
        rw [empty, tcpSocketWrite_nil] at written
        cases written
      rw [tcpSocketWrite_eq headNotEmpty] at written
      obtain ⟨wholeBuffer, wholeRest⟩ := whole
      simp only [wholeBuffer, ok_bind, Option.getD_some,
        List.take_length] at written
      rw [if_neg (by omega), if_neg (by simp)] at written
      have rest :=
        inductionHypothesis ((World.takesWhole_emit _ _ _).mpr wholeRest)
          written
      intro buf member
      rcases List.mem_cons.mp member with isHead | inRest
      · rw [isHead]
        exact headNotEmpty
      · exact rest buf inRest

/--
The socket cuts no buffer short but the first: either it takes all buffers
whole, or the first one already not.
-/
def World.Steady (world : World) (iov : List Bytes) : Prop :=
  (∀ buf ∈ iov.head?, (world.takes buf.length).1 ≠ some buf.length) ∨
    world.TakesWhole (iov.map List.length)

instance (world : World) (iov : List Bytes) :
    Decidable (world.Steady iov) :=
  inferInstanceAs (Decidable (_ ∨ _))

/-- Steadiness does not depend on what was received before. -/
theorem World.steady_emit
    (world : World) (bytes : Bytes) (iov : List Bytes) :
    (world.emit bytes).Steady iov ↔ world.Steady iov := by
  rw [Steady, Steady, takesWhole_emit]
  simp only [takes_emit]

/--
A steady socket makes the report of `dfk_tcp_socket_writev` true: the client
receives as many bytes of the buffers as reported.
-/
theorem tcpSocketWritev_truthful
    {world after : World} {iov : List Bytes} {reported : Int}
    (steady : world.Steady iov)
    (written : tcpSocketWritev world iov = .ok (reported, after)) :
    after.output = world.output ++ iov.flatten.take reported.toNat ∧
      reported ≤ iov.flatten.length := by
  cases iov with
  | nil =>
      simp [tcpSocketWritev] at written
  | cons buf iov =>
      rw [tcpSocketWritev, check_pos (List.cons_ne_nil _ _), ok_bind] at written
      rcases steady with short | whole
      · have notWhole := short buf (by simp)
        rw [tcpSocketWritevFrom] at written
        have notEmpty : buf ≠ [] := by
          intro empty
          rw [empty, tcpSocketWrite_nil] at written
          cases written
        rw [tcpSocketWrite_eq notEmpty, ok_bind] at written
        cases taken : (world.takes buf.length).1 with
        | none =>
            simp only [taken, Int.reduceNeg, Int.reduceLT, if_true,
              pure_eq_ok, Except.ok.injEq, Prod.mk.injEq] at written
            obtain ⟨rfl, rfl⟩ := written
            exact ⟨by simp, by omega⟩
        | some count =>
            have short : count ≠ buf.length := by
              intro same
              exact notWhole (by rw [taken, same])
            have atMost : count ≤ buf.length := World.moved_le taken
            simp only [taken] at written
            rw [if_neg (by omega), if_pos (by exact_mod_cast short)] at written
            simp only [pure_eq_ok, Except.ok.injEq, Prod.mk.injEq] at written
            obtain ⟨rfl, rfl⟩ := written
            constructor
            · simp [List.take_append_of_le_length atMost]
            · rw [List.flatten_cons, List.length_append]
              omega
      · have notEmpty := notEmpty_of_writtenFrom _ whole written
        rw [tcpSocketWritevFrom_of_takesWhole _ notEmpty _ _ whole] at written
        simp only [Except.ok.injEq, Prod.mk.injEq] at written
        obtain ⟨rfl, rfl⟩ := written
        rw [Int.zero_add, Int.toNat_natCast, List.take_length,
          World.emit_output, World.offered_output]
        exact ⟨rfl, Int.le_refl _⟩

/-!
## Reading
-/

namespace World

/-- The world after a read of some of the input. -/
def advance
    (world : World) (reads : List Kernel) (waits : List Bool) (count : Nat) :
    World :=
  { world with
    reads := reads
    waits := waits
    input := world.input.drop count }

/-- No read of these sizes fails. -/
def Serves : List Nat → List Kernel → List Bool → Prop
  | [], _, _ => True
  | size :: sizes, reads, waits =>
      (moved size reads waits).1.isSome ∧
        Serves sizes (moved size reads waits).2.1
          (moved size reads waits).2.2

/-- The socket delivers what the client writes: no read ever fails. -/
def Delivering (world : World) : Prop :=
  ∀ sizes, Serves sizes world.reads world.waits

end World

/-- `dfk_tcp_socket_read` returns what the kernel moves. -/
theorem tcpSocketRead_eq
    {nbytes : Nat}
    (asked : nbytes ≠ 0)
    (world : World) :
    tcpSocketRead world nbytes =
      .ok
        ((World.moved nbytes world.reads world.waits).1.map
            world.input.take,
          world.advance (World.moved nbytes world.reads world.waits).2.1
            (World.moved nbytes world.reads world.waits).2.2
            ((World.moved nbytes world.reads world.waits).1.getD 0)) := by
  rw [tcpSocketRead, check_pos asked, ok_bind, World.moved, World.read]
  rcases World.answer nbytes world.reads with ⟨errno | count, reads⟩
  · cases errno with
    | again =>
        simp only [World.io]
        rcases World.next world.waits with ⟨ready, waits⟩
        cases ready with
        | false =>
            simp [World.advance]
        | true =>
            simp only [World.read]
            rcases World.answer nbytes reads with ⟨failure | count, later⟩
            · simp [World.advance]
            · simp [World.advance]
    | other =>
        simp [World.advance]
  · simp [World.advance]

/-- A delivering socket returns a part of the input that is not too long. -/
theorem tcpSocketRead_of_delivering
    {world : World} {nbytes : Nat}
    (asked : nbytes ≠ 0)
    (delivering : world.Delivering) :
    ∃ count reads waits,
      0 < count ∧ count ≤ nbytes ∧
        (World.moved nbytes world.reads world.waits).1 = some count ∧
        tcpSocketRead world nbytes =
          .ok (some (world.input.take count),
            world.advance reads waits count) ∧
        (world.advance reads waits count).Delivering := by
  obtain ⟨count, moves⟩ :=
    Option.isSome_iff_exists.mp (delivering [nbytes]).1
  have reads := tcpSocketRead_eq asked world
  rw [moves] at reads
  refine ⟨count, _, _, World.moved_pos (Nat.pos_of_ne_zero asked) moves,
    World.moved_le moves, moves, reads, ?_⟩
  intro sizes
  exact (delivering (nbytes :: sizes)).2

/-- A world in which nothing but reading has happened since another one. -/
structure World.ReadOn (world later : World) : Prop where
  delivering : world.Delivering → later.Delivering
  output : later.output = world.output
  writes : later.writes = world.writes
  input : ∃ taken, world.input = taken ++ later.input

namespace World.ReadOn

/-- Nothing read yet. -/
theorem refl (world : World) : world.ReadOn world where
  delivering := id
  output := rfl
  writes := rfl
  input := ⟨[], rfl⟩

/-- Reading goes on. -/
theorem trans
    {first second third : World}
    (earlier : first.ReadOn second) (later : second.ReadOn third) :
    first.ReadOn third where
  delivering := later.delivering ∘ earlier.delivering
  output := later.output.trans earlier.output
  writes := later.writes.trans earlier.writes
  input := by
    obtain ⟨taken, earlierInput⟩ := earlier.input
    obtain ⟨more, laterInput⟩ := later.input
    exact ⟨taken ++ more, by rw [earlierInput, laterInput, List.append_assoc]⟩

/-- Allocating is not seen outside. -/
theorem allocating
    {world later : World} (readOn : world.ReadOn later)
    (allocations : List Bool) :
    world.ReadOn { later with allocations := allocations } where
  delivering := readOn.delivering
  output := readOn.output
  writes := readOn.writes
  input := readOn.input

end World.ReadOn

/-- `dfk_tcp_socket_read` only reads, and returns what it takes. -/
theorem tcpSocketRead_readOn
    {world later : World} {nbytes : Nat} {result : Option Bytes}
    (read : tcpSocketRead world nbytes = .ok (result, later)) :
    world.ReadOn later ∧
      ∀ bytes ∈ result,
        world.input = bytes ++ later.input ∧ bytes.length ≤ nbytes := by
  have asked : nbytes ≠ 0 := by
    intro nothing
    rw [tcpSocketRead, check_neg (not_not_intro nothing)] at read
    cases read
  rw [tcpSocketRead_eq asked] at read
  cases read
  refine ⟨⟨fun delivering sizes => ?_, rfl, rfl,
    ⟨_, (List.take_append_drop _ _).symm⟩⟩, fun bytes member => ?_⟩
  · exact (delivering (nbytes :: sizes)).2
  · obtain ⟨count, moves, rfl⟩ := Option.map_eq_some_iff.mp member
    have atMost := World.moved_le moves
    refine ⟨?_, ?_⟩
    · simp only [World.advance, moves, Option.getD_some,
        List.take_append_drop]
    · rw [List.length_take]
      omega

end Dfk
