import Dfk.Socket

/-!
# Vectored reads and writes

`dfk_tcp_socket_readv` and `dfk_tcp_socket_writev` take their buffers one
after another, and stop at the first that is not moved whole.  What has been
moved by then is reported if the socket has not failed; a write reports its
last buffer only.
-/

namespace Dfk

/-! ## Reading into several buffers -/

/-- What `dfk_tcp_socket_readv` returns, with the buffers and the socket. -/
structure ReadvResult where
  reported : Int
  buffers : List Bytes
  world : World
  deriving Repr, DecidableEq

/-- The loop of `dfk_tcp_socket_readv`, with the buffers behind it. -/
def tcpSocketReadvFrom :
    World → Int → List Bytes → List Bytes → Except Fault ReadvResult
  | world, totalread, passed, [] =>
      .ok { reported := totalread, buffers := passed, world := world }
  | world, totalread, passed, buf :: iov => do
      let nread ← tcpSocketRead world buf.length
      match nread.1 with
      | none =>
          pure
            { reported := -1
              buffers := passed ++ buf :: iov
              world := nread.2 }
      | some bytes =>
          if bytes.length ≠ buf.length then
            pure
              { reported := totalread + bytes.length
                buffers := passed ++ filled buf bytes :: iov
                world := nread.2 }
          else
            tcpSocketReadvFrom nread.2 (totalread + bytes.length)
              (passed ++ [filled buf bytes]) iov

/-- `dfk_tcp_socket_readv` -/
def tcpSocketReadv (world : World) (iov : List Bytes) :
    Except Fault ReadvResult := do
  check (iov ≠ [])
  tcpSocketReadvFrom world 0 [] iov

/-! ## What a report says -/

/--
`dfk_tcp_socket_writev` hands over a part of the buffers from their start, and
reports how long it is if anything has been handed over.
-/
def WritevReports (world : World) (iov : List Bytes) : Prop :=
  ∃ reported after handed,
    tcpSocketWritev world iov = .ok (reported, after) ∧
      after.output = world.output ++ handed ∧
      handed <+: iov.flatten ∧
      (0 ≤ reported → reported = handed.length) ∧
      (handed ≠ [] → 0 ≤ reported)

/--
`dfk_tcp_socket_readv` fills the buffers from their start with what it takes
from the socket, and reports how much it is if anything has been taken.
-/
def ReadvReports (world : World) (iov : List Bytes) : Prop :=
  ∃ result taken,
    tcpSocketReadv world iov = .ok result ∧
      world.input = taken ++ result.world.input ∧
      result.buffers.map List.length = iov.map List.length ∧
      result.buffers.flatten = taken ++ iov.flatten.drop taken.length ∧
      (0 ≤ result.reported → result.reported = taken.length) ∧
      (taken ≠ [] → 0 ≤ result.reported)

/-! ## Writing -/

section Writing

variable {world : World} {iov : List Bytes} {buf : Bytes}

/-- A buffer that is not taken whole is reported alone. -/
theorem tcpSocketWritevFrom_short
    (notEmpty : buf ≠ [])
    (notWhole : (world.takes buf.length).1 ≠ some buf.length)
    (totalwritten : Int) (iov : List Bytes) :
    ∃ reported after part,
      tcpSocketWritevFrom world totalwritten (buf :: iov) =
          .ok (reported, after) ∧
        after.output = world.output ++ part ∧
        part <+: buf ∧
        (reported = part.length ∨ reported = -1 ∧ part = []) := by
  rw [tcpSocketWritevFrom, tcpSocketWrite_eq notEmpty, ok_bind]
  cases taken : (world.takes buf.length).1 with
  | none =>
      exact
        ⟨-1, _, [], rfl, rfl, List.nil_prefix, Or.inr ⟨rfl, rfl⟩⟩
  | some count =>
      have atMost : count ≤ buf.length := World.moved_le taken
      have short : count ≠ buf.length := by
        intro same
        apply notWhole
        rw [taken, same]
      refine
        ⟨count, (world.takes buf.length).2.emit (buf.take count),
          buf.take count, ?_, rfl, List.take_prefix _ _, ?_⟩
      · dsimp only
        rw [if_neg (by omega), if_pos (by exact_mod_cast short)]
        rfl
      · left
        rw [List.length_take, Nat.min_eq_left atMost]

/-- Buffers that are not all taken whole: the last one is reported alone. -/
theorem tcpSocketWritevFrom_of_not_takesWhole
    (notEmpty : ∀ buf ∈ iov, buf ≠ [])
    (notWhole : ¬ world.TakesWhole (iov.map List.length))
    (totalwritten : Int) :
    ∃ reported after before part,
      tcpSocketWritevFrom world totalwritten iov = .ok (reported, after) ∧
        after.output = world.output ++ (before ++ part) ∧
        before ++ part <+: iov.flatten ∧
        (reported = part.length ∨ reported = -1 ∧ part = []) := by
  induction iov generalizing world totalwritten with
  | nil =>
      exact absurd trivial notWhole
  | cons buf iov inductionHypothesis =>
      have headNotEmpty := notEmpty buf List.mem_cons_self
      by_cases wholeBuffer : (world.takes buf.length).1 = some buf.length
      · have rest :
            ¬ ((world.takes buf.length).2.emit buf).TakesWhole
                (iov.map List.length) := by
          rw [World.takesWhole_emit]
          intro wholeRest
          exact notWhole ⟨wholeBuffer, wholeRest⟩
        obtain ⟨reported, after, before, part, written, output, isPrefix,
            reports⟩ :=
          inductionHypothesis
            (fun other member =>
              notEmpty other (List.mem_cons_of_mem buf member))
            rest (totalwritten + buf.length)
        refine ⟨reported, after, buf ++ before, part, ?_, ?_, ?_, reports⟩
        · rw [tcpSocketWritevFrom, tcpSocketWrite_eq headNotEmpty, ok_bind]
          simp only [wholeBuffer, Option.getD_some, List.take_length]
          rw [if_neg (by omega), if_neg (by simp)]
          exact written
        · rw [output, World.emit_output, World.takes_output]
          simp only [List.append_assoc]
        · rw [List.flatten_cons, List.append_assoc]
          exact (List.prefix_append_right_inj buf).mpr isPrefix
      · obtain ⟨reported, after, part, written, output, isPrefix, reports⟩ :=
          tcpSocketWritevFrom_short headNotEmpty wholeBuffer totalwritten iov
        refine ⟨reported, after, [], part, written, output, ?_, reports⟩
        rw [List.flatten_cons]
        exact isPrefix.trans (List.prefix_append buf _)

/--
The report of a vectored write is true if and only if no buffer but the first
is cut short.
-/
theorem writevReports_iff
    (given : iov ≠ [])
    (notEmpty : ∀ buf ∈ iov, buf ≠ []) :
    WritevReports world iov ↔ world.Steady iov := by
  cases iov with
  | nil =>
      exact absurd rfl given
  | cons buf iov =>
      have headNotEmpty := notEmpty buf List.mem_cons_self
      have restNotEmpty : ∀ other ∈ iov, other ≠ [] := by
        intro other member
        exact notEmpty other (List.mem_cons_of_mem buf member)
      by_cases wholeBuffer : (world.takes buf.length).1 = some buf.length
      · by_cases wholeRest :
          (world.takes buf.length).2.TakesWhole (iov.map List.length)
        · have whole : world.TakesWhole ((buf :: iov).map List.length) :=
            ⟨wholeBuffer, wholeRest⟩
          have written :=
            tcpSocketWritevFrom_of_takesWhole _ notEmpty world 0 whole
          refine iff_of_true ?_ (Or.inr whole)
          refine ⟨_, _, (buf :: iov).flatten, written, ?_, List.prefix_rfl,
            ?_, ?_⟩
          · rw [World.emit_output, World.offered_output]
          · intro _
            exact Int.zero_add _
          · intro _
            omega
        · have rest :
              ¬ ((world.takes buf.length).2.emit buf).TakesWhole
                  (iov.map List.length) := by
            rw [World.takesWhole_emit]
            exact wholeRest
          obtain ⟨reported, after, before, part, written, output, -,
              reports⟩ :=
            tcpSocketWritevFrom_of_not_takesWhole restNotEmpty rest
              (0 + buf.length)
          have runs :
              tcpSocketWritev world (buf :: iov) = .ok (reported, after) := by
            rw [tcpSocketWritev, check_pos given, ok_bind,
              tcpSocketWritevFrom, tcpSocketWrite_eq headNotEmpty, ok_bind]
            simp only [wholeBuffer, Option.getD_some, List.take_length]
            rw [if_neg (by omega), if_neg (by simp)]
            exact written
          apply iff_of_false
          · intro claimed
            obtain ⟨value, final, handed, ran, output', -, exactly, told⟩ :=
              claimed
            rw [runs] at ran
            cases ran
            rw [output, World.emit_output, World.takes_output,
              List.append_assoc] at output'
            have handedIs := List.append_cancel_left output'
            have length := congrArg List.length handedIs
            rw [List.length_append, List.length_append] at length
            have positive := List.length_pos_iff.mpr headNotEmpty
            have something : handed ≠ [] := by
              intro nothing
              rw [nothing, List.length_nil] at length
              omega
            have nonnegative := told something
            have same := exactly nonnegative
            rcases reports with isPart | ⟨isError, -⟩
            · omega
            · omega
          · intro steady
            rcases steady with short | whole
            · exact short buf rfl wholeBuffer
            · exact wholeRest whole.2
      · obtain ⟨reported, after, part, written, output, isPrefix, reports⟩ :=
          tcpSocketWritevFrom_short headNotEmpty wholeBuffer 0 iov
        apply iff_of_true
        · refine ⟨reported, after, part, ?_, output,
            isPrefix.trans (List.prefix_append buf _), ?_, ?_⟩
          · rw [tcpSocketWritev, check_pos given, ok_bind]
            exact written
          · intro nonnegative
            rcases reports with isPart | ⟨isError, -⟩
            · exact isPart
            · omega
          · intro something
            rcases reports with isPart | ⟨-, nothing⟩
            · omega
            · exact absurd nothing something
        · left
          intro other isHead
          cases isHead
          exact wholeBuffer

end Writing

/-! ## Reading -/

namespace World

/-- What a read of so many bytes moves, and the world behind it. -/
def reading (world : World) (size : Nat) : Option Bytes × World :=
  ((moved size world.reads world.waits).1.map world.input.take,
    world.advance (moved size world.reads world.waits).2.1
      (moved size world.reads world.waits).2.2
      ((moved size world.reads world.waits).1.getD 0))

/-- No read of these sizes fails before one falls short. -/
def Unbroken : World → List Nat → Prop
  | _, [] => True
  | world, size :: sizes =>
      ∃ bytes, (world.reading size).1 = some bytes ∧
        (bytes.length = size → Unbroken (world.reading size).2 sizes)

/-- No read fails behind one that moved all its bytes. -/
def SteadyReads (world : World) (sizes : List Nat) : Prop :=
  (∀ size ∈ sizes.head?, (world.reading size).1 = none) ∨
    world.Unbroken sizes

end World

section Reading

variable {world : World} {iov : List Bytes} {buf : Bytes}

/-- What is read fits, and what is left is behind it. -/
theorem World.reading_input
    {size : Nat} {bytes : Bytes}
    (reads : (world.reading size).1 = some bytes) :
    world.input = bytes ++ (world.reading size).2.input ∧
      bytes.length ≤ size := by
  obtain ⟨count, moves, taken⟩ := Option.map_eq_some_iff.mp reads
  have atMost := World.moved_le moves
  subst taken
  constructor
  · simp only [World.reading, World.advance, moves, Option.getD_some,
      List.take_append_drop]
  · rw [List.length_take]
    exact (Nat.min_le_left _ _).trans atMost

/-- A read that fails takes nothing. -/
theorem World.reading_failed
    {size : Nat}
    (fails : (world.reading size).1 = none) :
    (world.reading size).2.input = world.input := by
  have nothing := Option.map_eq_none_iff.mp fails
  simp only [World.reading, World.advance, nothing, Option.getD_none,
    List.drop_zero]

/-- What one vectored read has done behind the buffers it has passed. -/
structure Fills (world : World) (totalread : Int) (passed iov : List Bytes)
    (taken : Bytes) (result : ReadvResult) : Prop where
  input : world.input = taken ++ result.world.input
  sizes :
    result.buffers.map List.length = (passed ++ iov).map List.length
  contents :
    result.buffers.flatten =
      passed.flatten ++ (taken ++ iov.flatten.drop taken.length)
  fits : taken.length ≤ iov.flatten.length
  begins :
    ∀ buf ∈ iov.head?,
      ((world.reading buf.length).1.getD []) <+: taken
  nothing :
    ∀ buf ∈ iov.head?,
      (world.reading buf.length).1 = none → taken = []
  unbroken :
    world.Unbroken (iov.map List.length) →
      result.reported = totalread + taken.length
  broken :
    ¬ world.Unbroken (iov.map List.length) → result.reported = -1

/-- A vectored read fills the buffers up to where it stops. -/
theorem tcpSocketReadvFrom_fills
    (notEmpty : ∀ buf ∈ iov, buf ≠ [])
    (world : World) (totalread : Int) (passed : List Bytes) :
    ∃ result taken,
      tcpSocketReadvFrom world totalread passed iov = .ok result ∧
        Fills world totalread passed iov taken result := by
  induction iov generalizing world totalread passed with
  | nil =>
      refine ⟨_, [], rfl, ?_⟩
      exact
        { input := rfl
          sizes := by rw [List.append_nil]
          contents := by simp
          fits := Nat.le_refl 0
          begins := by
            intro buf member
            cases member
          nothing := by
            intro buf member
            cases member
          unbroken := fun _ => (Int.add_zero totalread).symm
          broken := fun fails => absurd trivial fails }
  | cons buf iov inductionHypothesis =>
      have headNotEmpty := notEmpty buf List.mem_cons_self
      have asked : buf.length ≠ 0 :=
        fun nothing => headNotEmpty (List.length_eq_zero_iff.mp nothing)
      have reads :
          tcpSocketRead world buf.length = .ok (world.reading buf.length) :=
        tcpSocketRead_eq asked world
      rw [tcpSocketReadvFrom, reads, ok_bind]
      rcases outcome : (world.reading buf.length).1 with isNone | bytes
      · refine ⟨_, [], rfl, ?_⟩
        exact
          { input := (World.reading_failed outcome).symm
            sizes := rfl
            contents := by simp
            fits := Nat.zero_le _
            begins := by
              intro other isHead
              cases isHead
              rw [outcome]
              exact List.nil_prefix
            nothing := fun _ _ _ => rfl
            unbroken := by
              intro holds
              obtain ⟨bytes, isSome, -⟩ := holds
              rw [outcome] at isSome
              cases isSome
            broken := fun _ => rfl }
      · obtain ⟨input, atMost⟩ := World.reading_input outcome
        dsimp only
        by_cases short : bytes.length ≠ buf.length
        · rw [if_pos short]
          refine ⟨_, bytes, rfl, ?_⟩
          exact
            { input := input
              sizes := by
                simp only [List.map_append, List.map_cons,
                  length_filled atMost]
              contents := by
                rw [List.flatten_append, List.flatten_cons,
                  List.flatten_cons, List.drop_append_of_le_length atMost,
                  filled, List.append_assoc]
              fits := by
                rw [List.flatten_cons, List.length_append]
                omega
              begins := by
                intro other isHead
                cases isHead
                rw [outcome]
                exact List.prefix_rfl
              nothing := by
                intro other isHead fails
                cases isHead
                rw [outcome] at fails
                cases fails
              unbroken := fun _ => rfl
              broken := by
                intro fails
                apply absurd _ fails
                exact ⟨bytes, outcome, fun whole => absurd whole short⟩ }
        · have whole : bytes.length = buf.length := not_not.mp short
          rw [if_neg short]
          obtain ⟨result, taken, runs, fills⟩ :=
            inductionHypothesis
              (fun other member =>
                notEmpty other (List.mem_cons_of_mem buf member))
              (world.reading buf.length).2 (totalread + bytes.length)
              (passed ++ [filled buf bytes])
          refine ⟨result, bytes ++ taken, runs, ?_⟩
          have isFilled : filled buf bytes = bytes := by
            rw [filled, whole, List.drop_length, List.append_nil]
          exact
            { input := by
                rw [List.append_assoc, ← fills.input]
                exact input
              sizes := by
                rw [fills.sizes]
                simp only [List.map_append, List.map_cons,
                  length_filled atMost, List.append_assoc,
                  List.singleton_append]
              contents := by
                rw [fills.contents, isFilled, List.flatten_append,
                  List.flatten_cons, List.flatten_nil, List.append_nil,
                  List.flatten_cons, List.length_append, whole,
                  List.drop_length_add_append]
                simp only [List.append_assoc]
              fits := by
                rw [List.flatten_cons, List.length_append,
                  List.length_append, whole]
                exact Nat.add_le_add_left fills.fits _
              begins := by
                intro other isHead
                cases isHead
                rw [outcome]
                exact List.prefix_append bytes taken
              nothing := by
                intro other isHead fails
                cases isHead
                rw [outcome] at fails
                cases fails
              unbroken := by
                intro holds
                obtain ⟨others, isSome, goesOn⟩ := holds
                rw [outcome] at isSome
                cases isSome
                rw [fills.unbroken (goesOn whole), List.length_append]
                omega
              broken := by
                intro fails
                apply fills.broken
                intro holds
                exact fails ⟨bytes, outcome, fun _ => holds⟩ }

/--
The report of a vectored read is true if and only if no read fails behind a
buffer that was filled.
-/
theorem readvReports_iff
    (given : iov ≠ [])
    (notEmpty : ∀ buf ∈ iov, buf ≠ []) :
    ReadvReports world iov ↔ world.SteadyReads (iov.map List.length) := by
  obtain ⟨result, taken, runs, fills⟩ :=
    tcpSocketReadvFrom_fills notEmpty world 0 []
  have called : tcpSocketReadv world iov = .ok result := by
    rw [tcpSocketReadv, check_pos given, ok_bind]
    exact runs
  by_cases unbroken : world.Unbroken (iov.map List.length)
  · refine iff_of_true ?_ (Or.inr unbroken)
    have reported := fills.unbroken unbroken
    refine ⟨result, taken, called, fills.input, fills.sizes, fills.contents,
      ?_, ?_⟩
    · intro _
      exact reported.trans (Int.zero_add _)
    · intro _
      omega
  · have reported := fills.broken unbroken
    -- what is left to tell is whether anything was taken before the failure
    have onlyNothing : ReadvReports world iov ↔ taken = [] := by
      constructor
      · intro claimed
        obtain ⟨other, handed, ran, input, -, -, -, told⟩ := claimed
        rw [called] at ran
        cases ran
        apply Decidable.byContradiction
        intro something
        rw [fills.input] at input
        have nonnegative := told (List.append_cancel_right input ▸ something)
        omega
      · intro nothing
        refine ⟨result, taken, called, fills.input, fills.sizes,
          fills.contents, ?_, ?_⟩
        · intro nonnegative
          omega
        · intro something
          exact absurd nothing something
    rw [onlyNothing]
    cases iov with
    | nil =>
        exact absurd rfl given
    | cons buf iov =>
        constructor
        · intro nothing
          left
          intro size isHead
          cases isHead
          rcases outcome : (world.reading buf.length).1 with isNone | bytes
          · rfl
          · have begins := fills.begins buf rfl
            rw [outcome, nothing, Option.getD_some] at begins
            have isNil := List.prefix_nil.mp begins
            apply absurd _ unbroken
            refine ⟨bytes, outcome, ?_⟩
            intro whole
            rw [isNil] at whole
            exact absurd (List.length_eq_zero_iff.mp whole.symm)
              (notEmpty buf List.mem_cons_self)
        · intro steady
          rcases steady with fails | holds
          · exact fills.nothing buf rfl (fails buf.length rfl)
          · exact absurd holds unbroken

end Reading

/-! ## The reports -/

/-- The buffers of a call: there is one, and none is empty. -/
structure Offered (iov : List Bytes) : Prop where
  given : iov ≠ []
  notEmpty : ∀ buf ∈ iov, buf ≠ []

/--
What vectored I/O reports is what happened, as long as no buffer is cut short
and no operation fails behind a buffer that has been moved whole; a short read
is allowed.
-/
theorem vectored_io_reports_iff
    (world : World) (iov : List Bytes) (offered : Offered iov) :
    (WritevReports world iov ↔ world.Steady iov) ∧
      (ReadvReports world iov ↔
        world.SteadyReads (iov.map List.length)) :=
  ⟨writevReports_iff offered.given offered.notEmpty,
    readvReports_iff offered.given offered.notEmpty⟩

/-- A client that takes four bytes at once, and fails the second read. -/
def narrowWorld : World :=
  { input := ascii "abcdef"
    output := []
    reads := [.move 3, .fail .other]
    writes := [.move 3, .move 0]
    waits := []
    allocations := [] }

/-- A single buffer is reported as it is taken. -/
theorem vectored_io_reports_iff_single :
    Offered [ascii "data"] ∧
      (WritevReports narrowWorld [ascii "data"] ↔
        narrowWorld.Steady [ascii "data"]) ∧
      (ReadvReports narrowWorld [ascii "data"] ↔
        narrowWorld.SteadyReads [4]) :=
  have offered : Offered [ascii "data"] :=
    ⟨by decide, by decide⟩
  ⟨offered, vectored_io_reports_iff narrowWorld [ascii "data"] offered⟩

/--
The second of two buffers is cut short: five bytes are handed over, and one is
reported.  A read that fails behind a first buffer hides four bytes.
-/
theorem vectored_io_misreports :
    ¬ WritevReports narrowWorld [ascii "data", ascii "more"] ∧
      ¬ ReadvReports narrowWorld [ascii "data", ascii "more"] := by
  have given : [ascii "data", ascii "more"] ≠ [] := List.cons_ne_nil _ _
  have notEmpty : ∀ buf ∈ [ascii "data", ascii "more"], buf ≠ [] := by
    decide
  constructor
  · rw [writevReports_iff given notEmpty]
    decide
  · rw [readvReports_iff given notEmpty]
    intro steady
    rcases steady with fails | unbroken
    · have first : (narrowWorld.reading 4).1 = some (ascii "abcd") := by
        decide
      have failed := fails 4 rfl
      rw [first] at failed
      cases failed
    · obtain ⟨bytes, isSome, goesOn⟩ := unbroken
      have first : some (ascii "abcd") = some bytes := isSome
      cases first
      obtain ⟨others, later, -⟩ := goesOn (by decide)
      cases later

end Dfk
