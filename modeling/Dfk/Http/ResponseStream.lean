import Dfk.Http.Response

/-!
# Response streams

A handler writes its body in pieces and writes again what was reported as
unwritten.  The client receives the head and the body in order as long as the
socket takes the head whole and cuts no buffer of a vectored write short but
the first; elsewhere bytes are lost or repeated.
-/

namespace Dfk.Http

/-- A response while its handler writes the body. -/
structure Transfer where
  response : Response
  world : World
  /-- The part of the body not reported as written. -/
  unsent : Bytes
  deriving Repr, DecidableEq

/-- A call of the handler. -/
inductive BodyCall where
  | write (buf : Bytes)
  | writev (iov : List Bytes)
  deriving Repr, DecidableEq

namespace BodyCall

/-- The buffers of a call. -/
def iov : BodyCall → List Bytes
  | .write buf => [buf]
  | .writev iov => iov

/-- One call. -/
def perform (call : BodyCall) (response : Response) (world : World) :
    Except Fault (Int × Response × World) :=
  match call with
  | .write buf => responseWrite response world buf
  | .writev iov => responseWritev response world iov

/-- A call that returns is a vectored write of its buffers. -/
theorem perform_eq_writev
    {call : BodyCall} {response : Response} {world : World}
    {result : Int × Response × World}
    (performed : call.perform response world = .ok result) :
    responseWritev response world call.iov = .ok result := by
  cases call with
  | write buf =>
      by_cases empty : buf = []
      · simp [perform, responseWrite, empty] at performed
      · rw [perform, responseWrite, check_pos empty, ok_bind] at performed
        exact performed
  | writev iov =>
      exact performed

end BodyCall

/--
A call whose buffers are the next part of the unsent body; what it does not
report as written stays unsent.
-/
def Sends (call : BodyCall) (before after : Transfer) : Prop :=
  call.iov.flatten <+: before.unsent ∧
    ∃ nwritten,
      call.perform before.response before.world =
          .ok (nwritten, after.response, after.world) ∧
        after.unsent = before.unsent.drop nwritten.toNat

/-- The response once `Content-Length` has been set. -/
def completed (response : Response) : Response :=
  if response.contentLength ≠ noLength ∧
      response.headers.get contentLengthName = none then
    { response with
      headers :=
        response.headers.insert
          { name := contentLengthName
            value := decimal response.contentLength } }
  else response

/-- How many allocations a flush of the head makes. -/
def headAllocations (response : Response) : Nat :=
  if response.contentLength ≠ noLength ∧
      response.headers.get contentLengthName = none then 3
  else 1

/-- The lengths of the buffers of the head. -/
def headSizes (response : Response) : List Nat :=
  (headBuffers (completed response)).map List.length

/--
The outside serves the head whole: memory is there for its buffers, and the
socket takes each of them whole.
-/
def ServesHead (response : Response) (world : World) : Prop :=
  (allocEach (headAllocations response) world).1 = true ∧
    (allocEach (headAllocations response) world).2.TakesWhole
      (headSizes response)

/-- The world in which the body follows the head. -/
def headServed (response : Response) (world : World) : World :=
  (allocEach (headAllocations response) world).2.offered
    (headSizes response)

/-- What a call needs of the outside. -/
def Dependable (response : Response) (world : World) (iov : List Bytes) :
    Prop :=
  response.headersFlushed = true ∧ world.Steady iov ∨
    response.headersFlushed = false ∧ ServesHead response world ∧
      (headServed response world).Steady iov

instance (response : Response) (world : World) :
    Decidable (ServesHead response world) :=
  inferInstanceAs (Decidable (_ ∧ _))

instance (response : Response) (world : World) (iov : List Bytes) :
    Decidable (Dependable response world iov) :=
  inferInstanceAs (Decidable (_ ∧ _ ∨ _))

/-- One allocation. -/
theorem allocEach_one (world : World) : allocEach 1 world = world.alloc := by
  rw [allocEach]
  rcases world.alloc with ⟨_ | _, after⟩ <;> rfl

/-- Allocations that succeed, and one more. -/
theorem allocEach_succ (count : Nat) :
    ∀ {world : World},
      (allocEach (count + 1) world).1 = true →
        ∃ between,
          allocEach count world = (true, between) ∧
            between.alloc = (true, (allocEach (count + 1) world).2) := by
  induction count with
  | zero =>
      intro world allocated
      rw [allocEach_one] at allocated ⊢
      exact ⟨world, rfl, Prod.ext allocated rfl⟩
  | succ count inductionHypothesis =>
      intro world allocated
      rw [allocEach] at allocated ⊢
      rw [allocEach]
      rcases first : world.alloc with ⟨_ | _, after⟩
      · simp [first] at allocated
      · rw [first] at allocated
        exact inductionHypothesis allocated

/-- Allocating makes the client receive nothing. -/
theorem allocEach_output (count : Nat) :
    ∀ world : World, (allocEach count world).2.output = world.output := by
  induction count with
  | zero =>
      intro world
      rfl
  | succ count inductionHypothesis =>
      intro world
      have unsent : world.alloc.2.output = world.output := rfl
      rw [allocEach]
      rcases allocated : world.alloc with ⟨_ | _, after⟩
      · rw [allocated] at unsent
        exact unsent
      · rw [allocated] at unsent
        exact (inductionHypothesis after).trans unsent

/-- Setting `Content-Length` when memory is there. -/
theorem addContentLength_eq
    {response : Response} {world : World}
    (allocated :
      (allocEach (headAllocations response) world).1 = true) :
    ∃ between,
      addContentLength response world = .ok (completed response, between) ∧
        between.alloc =
          (true, (allocEach (headAllocations response) world).2) := by
  rw [addContentLength, completed]
  rw [headAllocations] at allocated ⊢
  by_cases sets :
      response.contentLength ≠ noLength ∧
        response.headers.get contentLengthName = none
  · simp only [if_pos sets] at allocated ⊢
    obtain ⟨between, item, array⟩ := allocEach_succ 2 allocated
    refine ⟨between, ?_, array⟩
    rw [storeItem, item]
  · simp only [if_neg sets] at allocated ⊢
    refine ⟨world, rfl, ?_⟩
    rw [allocEach_one] at allocated ⊢
    exact Prod.ext allocated rfl

/-- A flush puts the whole head on a socket that serves it. -/
theorem flushHeaders_of_serves
    {response after : Response} {world served : World}
    (fresh : response.headersFlushed = false)
    (serves : ServesHead response world)
    (flushed : flushHeaders response world = .ok (after, served)) :
    after = { completed response with headersFlushed := true } ∧
      served =
        (headServed response world).emit (head (completed response)) := by
  obtain ⟨allocated, whole⟩ := serves
  obtain ⟨between, set, array⟩ := addContentLength_eq allocated
  rw [flushHeaders, if_neg (by simp [fresh]), set, ok_bind] at flushed
  simp only [array] at flushed
  rw [headIov_eq, ok_bind, tcpSocketWritev,
    check_pos (by simp [headBuffers]), ok_bind] at flushed
  cases written :
      tcpSocketWritevFrom (allocEach (headAllocations response) world).2 0
        (headBuffers (completed response)) with
  | error fault =>
      rw [written] at flushed
      cases flushed
  | ok result =>
      have notEmpty := notEmpty_of_writtenFrom _ whole written
      rw [tcpSocketWritevFrom_of_takesWhole _ notEmpty _ _ whole] at flushed
      simp only [ok_bind, pure_eq_ok, Except.ok.injEq,
        Prod.mk.injEq] at flushed
      exact ⟨flushed.1.symm, flushed.2.symm⟩

/-- A flushed head is not flushed again. -/
theorem flushHeaders_of_flushed
    {response : Response} (flushed : response.headersFlushed)
    (world : World) :
    flushHeaders response world = .ok (response, world) := by
  rw [flushHeaders, if_pos flushed]

/--
How far a transfer is: nothing has happened yet, or the head and the sent part
of the body have been received.
-/
inductive Underway
    (response : Response) (world : World) (body : Bytes) :
    Transfer → Prop where
  | start : Underway response world body ⟨response, world, body⟩
  | flushed
      {transfer : Transfer} {sent : Bytes}
      (flushed : transfer.response.headersFlushed = true)
      (received :
        transfer.world.output =
          world.output ++ (head (completed response) ++ sent))
      (rest : sent ++ transfer.unsent = body) :
      Underway response world body transfer

/-- What the body buffers of a dependable call add to a transfer. -/
theorem underway_of_body
    {response : Response} {world : World} {body sent : Bytes}
    {iov : List Bytes} {nwritten : Int} {served : World}
    {unsent : Bytes} {after : Transfer}
    (flushed : after.response.headersFlushed = true)
    (received :
      served.output =
        world.output ++ (head (completed response) ++ sent))
    (rest : sent ++ unsent = body)
    (next : iov.flatten <+: unsent)
    (steady : served.Steady iov)
    (written : tcpSocketWritev served iov = .ok (nwritten, after.world))
    (remains : after.unsent = unsent.drop nwritten.toNat) :
    Underway response world body after := by
  obtain ⟨added, atMost⟩ := tcpSocketWritev_truthful steady written
  obtain ⟨later, unsentEq⟩ := next
  have dropped :
      iov.flatten.take nwritten.toNat ++ after.unsent = unsent := by
    rw [remains, ← unsentEq, List.drop_append_of_le_length (by omega),
      ← List.append_assoc, List.take_append_drop]
  have receivedAfter :
      after.world.output =
        world.output ++
          (head (completed response) ++
            (sent ++ iov.flatten.take nwritten.toNat)) := by
    rw [added, received]
    simp only [List.append_assoc]
  have restAfter :
      (sent ++ iov.flatten.take nwritten.toNat) ++ after.unsent = body := by
    rw [List.append_assoc, dropped, rest]
  exact Underway.flushed flushed receivedAfter restAfter

/-- A vectored write flushes the head, and then writes its buffers. -/
theorem responseWritev_inv
    {response after : Response} {world later : World}
    {iov : List Bytes} {nwritten : Int}
    (written :
      responseWritev response world iov = .ok (nwritten, after, later)) :
    ∃ served,
      flushHeaders response world = .ok (after, served) ∧
        tcpSocketWritev served iov = .ok (nwritten, later) := by
  by_cases empty : iov = []
  · simp [responseWritev, empty] at written
  · rw [responseWritev, check_pos empty, ok_bind] at written
    rcases flush : flushHeaders response world with fault | ⟨headed, served⟩
    · simp [flush] at written
    · rw [flush, ok_bind] at written
      rcases body : tcpSocketWritev served iov with fault | ⟨count, last⟩
      · simp [body] at written
      · simp only [body, ok_bind, pure_eq_ok, Except.ok.injEq,
          Prod.mk.injEq] at written
        obtain ⟨rfl, rfl, rfl⟩ := written
        exact ⟨served, rfl, body⟩

/-- A dependable call keeps a transfer underway. -/
theorem underway_step
    {response : Response} {world : World} {body : Bytes}
    {call : BodyCall} {before after : Transfer}
    (fresh : response.headersFlushed = false)
    (underway : Underway response world body before)
    (sends : Sends call before after)
    (dependable : Dependable before.response before.world call.iov) :
    Underway response world body after := by
  obtain ⟨next, nwritten, performed, remains⟩ := sends
  obtain ⟨served, flush, written⟩ :=
    responseWritev_inv (BodyCall.perform_eq_writev performed)
  cases underway with
  | start =>
      simp only [Dependable, fresh, Bool.false_eq_true, false_and,
        true_and, false_or] at dependable
      obtain ⟨serves, steady⟩ := dependable
      obtain ⟨headed, rfl⟩ := flushHeaders_of_serves fresh serves flush
      have received :
          ((headServed response world).emit
              (head (completed response))).output =
            world.output ++ (head (completed response) ++ []) := by
        rw [World.emit_output, headServed, World.offered_output,
          allocEach_output, List.append_nil]
      have steadyAfter :=
        (World.steady_emit _ (head (completed response)) _).mpr steady
      apply underway_of_body _ received rfl next steadyAfter written remains
      rw [headed]
  | flushed flushed received rest =>
      simp only [Dependable, flushed, Bool.true_eq_false, false_and,
        true_and, or_false] at dependable
      rw [flushHeaders_of_flushed flushed, Except.ok.injEq,
        Prod.mk.injEq] at flush
      obtain ⟨same, rfl⟩ := flush
      apply underway_of_body _ received rest next dependable written remains
      rw [← same]
      exact flushed

/-- One dependable call. -/
def DependableStep (before after : Transfer) : Prop :=
  ∃ call, Sends call before after ∧
    Dependable before.response before.world call.iov

/-- Dependable calls keep a transfer underway. -/
theorem underway_run
    {response : Response} {world : World} {body : Bytes}
    {transfer : Transfer}
    (fresh : response.headersFlushed = false)
    (run :
      Relation.ReflTransGen DependableStep ⟨response, world, body⟩
        transfer) :
    Underway response world body transfer := by
  induction run with
  | refl =>
      exact Underway.start
  | tail _ step inductionHypothesis =>
      obtain ⟨call, sends, dependable⟩ := step
      exact underway_step fresh inductionHypothesis sends dependable

/--
In every run of dependable calls, what the client has received is a prefix of
the head followed by the body.
-/
theorem received_is_prefix
    {response : Response} {world : World} {body : Bytes}
    {transfer : Transfer}
    (fresh : response.headersFlushed = false)
    (run :
      Relation.ReflTransGen DependableStep ⟨response, world, body⟩
        transfer) :
    ∃ received,
      transfer.world.output = world.output ++ received ∧
        received <+: head (completed response) ++ body := by
  cases underway_run fresh run with
  | start =>
      exact ⟨[], (List.append_nil _).symm, List.nil_prefix⟩
  | flushed flushed received rest =>
      refine ⟨_, received, ?_⟩
      rw [← rest, ← List.append_assoc]
      exact List.prefix_append _ _

/-- A response whose head has been written. -/
def flushedResponse : Response :=
  { Response.init 1 1 true with headersFlushed := true }

/-- The head of a response without headers. -/
def plainHead : Bytes := ascii "HTTP/1.1 200 OK\r\n\r\n"

/-- A connection on which the client has received some bytes. -/
def writing (output : Bytes) (writes : List Kernel) : World where
  input := []
  output := output
  reads := []
  writes := writes
  waits := []
  allocations := []

/-- A socket that takes both buffers of the head, and then one byte. -/
def oneByteLater : World :=
  writing [] [.move 98, .move 98, .move 0]

/-- The transfer after one byte of the body. -/
def oneByteSent : Transfer where
  response := flushedResponse
  world := writing (plainHead ++ ascii "a") []
  unsent := ascii "b"

/-- The first byte of two is written alone. -/
theorem received_is_prefix_one_byte :
    ∃ received,
      oneByteSent.world.output = oneByteLater.output ++ received ∧
        received <+:
          head (completed (Response.init 1 1 true)) ++ ascii "ab" := by
  have step :
      DependableStep
        ⟨Response.init 1 1 true, oneByteLater, ascii "ab"⟩ oneByteSent :=
    ⟨.write (ascii "ab"), ⟨by decide, 1, by decide, by decide⟩, by decide⟩
  exact received_is_prefix rfl (.single step)

/-!
## A short vectored write
-/

/-- A socket that takes the head and two bytes, and then one byte. -/
def oneByteOfSecond : World :=
  writing [] [.move 98, .move 98, .move 1, .move 0]

/-- One byte is reported although the client has received three. -/
def misreported : Transfer where
  response := flushedResponse
  world := writing (plainHead ++ ascii "abc") []
  unsent := ascii "bcd"

/-- The rest is written once more. -/
def repeated : Transfer where
  response := flushedResponse
  world := writing (plainHead ++ ascii "abcbcd") []
  unsent := []

/--
Of two buffers of two bytes the second is cut short.  The handler writes again
what was reported as unwritten, and the client receives two bytes twice.
-/
theorem received_twice :
    Relation.ReflTransGen (fun before after => ∃ call, Sends call before after)
        ⟨Response.init 1 1 true, oneByteOfSecond, ascii "abcd"⟩ repeated ∧
      ¬ repeated.world.output <+:
          oneByteOfSecond.output ++
            (head (completed (Response.init 1 1 true)) ++ ascii "abcd") := by
  have first :
      Sends (.writev [ascii "ab", ascii "cd"])
        ⟨Response.init 1 1 true, oneByteOfSecond, ascii "abcd"⟩
        misreported :=
    ⟨by decide, 1, by decide, by decide⟩
  have second : Sends (.write (ascii "bcd")) misreported repeated :=
    ⟨by decide, 3, by decide, by decide⟩
  constructor
  · exact .tail (.single ⟨_, first⟩) ⟨_, second⟩
  · decide

end Dfk.Http
