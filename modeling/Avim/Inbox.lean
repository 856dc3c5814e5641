import Avim.Keys

/-!
# Messages for the application

The kernel seen from its receive buffer: what was pushed, what the calls of
`async_recvfrom` were answered, and what is posted to them. Nothing cancels
the buffer, so every call that was answered got a message, and the calls and
the messages meet in order: `answered_in_order`.
-/

namespace Avim.Kernel

open Lib.Octets

variable {lib : Libs} {k k' : Kernel}

-- ---------------------------------------------------------------------------
-- The inbox
-- ---------------------------------------------------------------------------

/-- What a call of `async_recvfrom` is answered. -/
structure Answer where
  call : Nat
  ec : ErrorCode
  message : Bytes × Bytes
  deriving DecidableEq, Repr

def answerOf : Effect → Option Answer
  | .received call ec sender payload => some ⟨call, ec, sender, payload⟩
  | _ => none

def postedAnswer : Completion → Option Answer
  | .received call ec value => some ⟨call, ec, value⟩
  | .popped _ _ _ => none

def messageOf : Effect → Option (Bytes × Bytes)
  | .pushed sender payload => some (sender, payload)
  | _ => none

structure Inbox where
  buffer : CoroQueue (Bytes × Bytes) Nat Empty
  -- those that were told, then those that are posted
  answers : List Answer
  messages : List (Bytes × Bytes)
  calls : Nat

def inbox (k : Kernel) : Inbox where
  buffer := k.recvBuffer
  answers := k.trace.filterMap answerOf ++ k.posted.filterMap postedAnswer
  messages := k.trace.filterMap messageOf
  calls := k.recvs

namespace Inbox

def onBuffer (i : Inbox)
    (result : CoroQueue (Bytes × Bytes) Nat Empty × List (Posted (Bytes × Bytes) Nat Empty)) :
    Inbox :=
  { i with
    buffer := result.1
    answers := i.answers ++ (result.2.map receivedOf).filterMap postedAnswer }

inductive Step (i : Inbox) : Inbox → Prop
  | push (message : Bytes × Bytes) :
      Step i { i.onBuffer (i.buffer.push message) with messages := i.messages ++ [message] }
  | call : Step i { i.onBuffer (i.buffer.asyncPop i.calls) with calls := i.calls + 1 }

end Inbox

-- ---------------------------------------------------------------------------
-- Moves of the kernel
-- ---------------------------------------------------------------------------

theorem postedAnswer_poppedOf (c : Posted WriteValue Nat Empty) :
    postedAnswer (poppedOf c) = none := by
  cases c with
  | pop port ec value => rfl
  | wait handler ec => exact handler.elim

theorem inbox_onQueue (k : Kernel) (link : Nat)
    (result : CoroQueue WriteValue Nat Empty × List (Posted WriteValue Nat Empty)) :
    inbox (k.onQueue link result) = inbox k := by
  simp [inbox, Kernel.onQueue, postedAnswer_poppedOf]

theorem inbox_record {e : Effect} (hanswer : answerOf e = none) (hmessage : messageOf e = none) :
    inbox (k.record e) = inbox k := by
  simp [inbox, record, hanswer, hmessage]

theorem inbox_asyncInterfaceWritePacket (k : Kernel) (avif : Avif) (cause : Cause)
    (packet : AvPacket) : inbox (k.asyncInterfaceWritePacket avif cause packet) = inbox k := by
  rw [asyncInterfaceWritePacket, inbox_record rfl rfl, inbox_onQueue]

theorem inbox_sendOrAsk (h : sendOrAsk lib k op now = .ok k') (waiters : List Waiter) :
    inbox { k' with waiters := waiters } = inbox k := by
  obtain ⟨key, avif, second, -, -, rfl⟩ | ⟨avif, -, -, -, rfl⟩ | ⟨-, -, rfl⟩ := sendOrAsk_cases h
  · exact inbox_asyncInterfaceWritePacket { k with draws := k.draws + op.data.length } avif _ _
  · exact inbox_asyncInterfaceWritePacket k avif _ _
  · exact inbox_record (k := k) (e := .completed op.send .networkUnreachable) rfl rfl

theorem inbox_asyncSendto (h : asyncSendto lib k target data now = .ok k') :
    inbox k' = inbox k := by
  obtain ⟨-, rfl⟩ | ⟨interface, -, hsend⟩ := asyncSendto_cases h
  · exact inbox_record (k := { k with sends := k.sends + 1 }) rfl rfl
  · exact inbox_sendOrAsk hsend k'.waiters

theorem inbox_writerLoop (k : Kernel) (port : Nat) (p : Port) :
    inbox (k.writerLoop port p) = inbox k := by
  unfold writerLoop
  split
  · rfl
  · exact inbox_onQueue k p.avif.id _

theorem inbox_writerWrote (k : Kernel) (port : Nat) (p : Port) (bytes : Bytes)
    (handler : Option Nat) (written : Bool) :
    inbox (k.writerWrote port p bytes handler written) = inbox k := by
  cases handler with
  | none =>
    exact (inbox_writerLoop _ port p).trans (inbox_record rfl rfl)
  | some send =>
    refine (inbox_writerLoop _ port p).trans ?_
    rw [inbox_record rfl rfl, inbox_record rfl rfl]

theorem inbox_runnerLoop (k : Kernel) (port : Nat) (p : Port) :
    inbox (k.runnerLoop port p) = inbox k := by
  obtain ⟨-, heq⟩ | ⟨-, heq⟩ := runnerLoop_cases k port p
  · rw [heq]
    exact inbox_onQueue k p.avif.id _
  · rw [heq]
    rfl

theorem inbox_runPosted (h : runPosted lib k = .ok k') : inbox k' = inbox k := by
  obtain ⟨-, rfl⟩ | ⟨port, ec, value, rest, hposted, ⟨-, rfl⟩ | ⟨p, -, ⟨-, rfl⟩ |
    ⟨bytes, -, -, rfl⟩⟩⟩ | ⟨call, ec, value, rest, hposted, rfl⟩ := runPosted_cases h
  · rfl
  · simp [inbox, hposted, List.filterMap_cons, postedAnswer]
  · simp [inbox, hposted, List.filterMap_cons, postedAnswer, setPort]
  · simp [inbox, hposted, List.filterMap_cons, postedAnswer, setPort]
  · simp [inbox, hposted, postedAnswer, record, answerOf, messageOf]

theorem move_inbox (h : Move lib k k') : inbox k' = inbox k ∨ (inbox k).Step (inbox k') := by
  cases h with
  | asyncRecvfrom =>
    refine .inr ?_
    have heq : inbox k.asyncRecvfrom =
        { (inbox k).onBuffer ((inbox k).buffer.asyncPop (inbox k).calls) with
          calls := (inbox k).calls + 1 } := by
      simp [inbox, Kernel.asyncRecvfrom, Inbox.onBuffer]
    rw [heq]
    exact .call
  | push sender payload =>
    refine .inr ?_
    have heq : inbox (k.pushReceived sender payload) =
        { (inbox k).onBuffer ((inbox k).buffer.push (sender, payload)) with
          messages := (inbox k).messages ++ [(sender, payload)] } := by
      simp [inbox, pushReceived, record, Inbox.onBuffer, answerOf, messageOf]
    rw [heq]
    exact .push (sender, payload)
  | call h => exact .inl (inbox_asyncSendto h)
  | runner _ => exact .inl (inbox_runnerLoop _ _ _)
  | reply avif target => exact .inl (inbox_asyncInterfaceWritePacket _ _ _ _)
  | forward avif packet => exact .inl (inbox_asyncInterfaceWritePacket _ _ _ _)
  | resume _ hres => exact .inl (inbox_sendOrAsk hres _)
  | writer _ _ => exact .inl (inbox_writerLoop _ _ _)
  | wrote written _ _ => exact .inl (inbox_writerWrote _ _ _ _ _ _)
  | posted h => exact .inl (inbox_runPosted h)
  | _ => exact .inl rfl

-- ---------------------------------------------------------------------------
-- Calls and messages
-- ---------------------------------------------------------------------------

namespace Inbox

variable {i i' : Inbox}

structure Ledger (i : Inbox) : Prop where
  settled : i.buffer.Settled
  messages : i.answers.map Answer.message ++ i.buffer.list = i.messages
  calls : i.answers.map Answer.call ++ i.buffer.handlers.map Reader.handler = List.range i.calls
  success : ∀ a ∈ i.answers, a.ec = .success

theorem ledger_initial : Ledger (inbox initial) where
  settled := CoroQueue.settled_empty
  messages := rfl
  calls := rfl
  success a ha := by cases ha

theorem nobody_waits (waits : List Empty) : waits = [] :=
  List.eq_nil_iff_forall_not_mem.mpr fun w => w.elim

theorem Ledger.push (h : Ledger i) (message : Bytes × Bytes) :
    Ledger { i.onBuffer (i.buffer.push message) with messages := i.messages ++ [message] } := by
  have hmessages := h.messages
  have hcalls := h.calls
  have hsettled := h.settled.push message
  obtain ⟨hnone, heq⟩ | ⟨call, readers, hreaders, hlist, heq⟩ :=
    CoroQueue.push_cases h.settled message
  · refine ⟨hsettled, ?_, ?_, ?_⟩
    · simp [onBuffer, heq, nobody_waits, ← hmessages]
    · simpa [onBuffer, heq, nobody_waits, hnone] using hcalls
    · simpa [onBuffer, heq, nobody_waits] using h.success
  · refine ⟨hsettled, ?_, ?_, ?_⟩
    · simp [onBuffer, heq, nobody_waits, receivedOf, postedAnswer, ← hmessages, hlist]
    · simpa [onBuffer, heq, nobody_waits, receivedOf, postedAnswer, hreaders] using hcalls
    · intro a ha
      simp only [onBuffer, heq, nobody_waits, List.map_nil, List.nil_append, List.map_cons,
        receivedOf, postedAnswer, List.filterMap_cons, List.filterMap_nil, List.mem_append,
        List.mem_singleton] at ha
      rcases ha with ha | rfl
      · exact h.success a ha
      · rfl

theorem Ledger.call (h : Ledger i) :
    Ledger { i.onBuffer (i.buffer.asyncPop i.calls) with calls := i.calls + 1 } := by
  have hmessages := h.messages
  have hcalls := h.calls
  have hsettled := h.settled.asyncPop i.calls
  obtain ⟨hlist, heq⟩ | ⟨message, list, hlist, heq⟩ := i.buffer.asyncPop_cases i.calls
  · refine ⟨hsettled, ?_, ?_, ?_⟩
    · simpa [onBuffer, heq] using hmessages
    · simp [onBuffer, heq, List.range_succ, ← hcalls]
    · simpa [onBuffer, heq] using h.success
  · have hnobody := (h.settled.idle (by simp [hlist])).1
    refine ⟨hsettled, ?_, ?_, ?_⟩
    · simpa [onBuffer, heq, receivedOf, postedAnswer, hlist] using hmessages
    · rw [hnobody, List.map_nil, List.append_nil] at hcalls
      simp [onBuffer, heq, receivedOf, postedAnswer, hnobody, List.range_succ, hcalls]
    · intro a ha
      simp only [onBuffer, heq, List.map_cons, List.map_nil, receivedOf, postedAnswer,
        List.filterMap_cons, List.filterMap_nil, List.mem_append, List.mem_singleton] at ha
      rcases ha with ha | rfl
      · exact h.success a ha
      · rfl

theorem Ledger.step (h : Ledger i) (hstep : i.Step i') : Ledger i' := by
  cases hstep with
  | push message => exact h.push message
  | call => exact h.call

/-- Calls and messages are paired off from the front, until one of them runs
out. -/
theorem Ledger.answers_eq (h : Ledger i) :
    i.answers = ((List.range i.calls).zip i.messages).map fun pair =>
      ⟨pair.1, .success, pair.2⟩ := by
  have hzip : (List.range i.calls).zip i.messages =
      (i.answers.map Answer.call).zip (i.answers.map Answer.message) := by
    rw [← h.calls, ← h.messages, List.zip_append (by simp)]
    -- messages are kept only while nobody waits
    cases hlist : i.buffer.list with
    | nil => simp
    | cons message list =>
      rw [(h.settled.idle (by simp [hlist])).1]
      simp
  rw [hzip, List.zip_map', List.map_map]
  have hsame : ∀ a ∈ i.answers, id a = (⟨a.call, .success, a.message⟩ : Answer) := by
    intro a ha
    rw [← h.success a ha]
    rfl
  exact (List.map_id i.answers).symm.trans (List.map_congr_left hsame)

end Inbox

theorem Reached.inbox (h : Reached lib k) : (inbox k).Ledger := by
  refine Lib.Run.Reached.invariant (I := fun k => (Kernel.inbox k).Ledger)
    Inbox.ledger_initial ?_ h
  intro before event after hstep hbefore
  refine step_keeps (I := fun k => (Kernel.inbox k).Ledger) ?_ hstep hbefore
  intro before after hmove hledger
  obtain heq | hstep := move_inbox hmove
  · rw [heq]
    exact hledger
  · exact hledger.step hstep

/-- The answers told so far and the ones that are posted give call `n` the
`n`-th message that was pushed, for as many of both as there are. -/
def AnsweredInOrder (k : Kernel) : Prop :=
  k.trace.filterMap answerOf ++ k.posted.filterMap postedAnswer =
    ((List.range k.recvs).zip (k.trace.filterMap messageOf)).map fun pair =>
      ⟨pair.1, .success, pair.2⟩

/-- No message is lost, duplicated or overtaken on its way to the application,
and no call waits while there is a message for it. -/
theorem answered_in_order (lib : Libs) (events : List Event) :
    Lib.Run.Always (step lib) AnsweredInOrder initial events :=
  Lib.Run.always_of_invariant (I := Reached lib) .start (fun _ _ _ hstep hk => .step hk hstep)
    (fun _ hk => hk.inbox.answers_eq) events

end Avim.Kernel
