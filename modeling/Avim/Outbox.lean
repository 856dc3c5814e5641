import Avim.Moves

/-!
# Write queues, writers and what becomes of packets

The kernel seen from its write queues: what is in them, what their writers do,
which pops were posted, and what was enqueued, written and completed for
calls. Every move of the kernel is a sequence of the few things that can
happen there (`move_outbox`), and those keep the books balanced: a packet that
was enqueued for a call is written, is being written, is posted to a writer or
is still in its queue (`Ledger`).
-/

namespace Avim.Kernel

open Lib.Octets Relation

variable {lib : Libs} {k k' : Kernel}

-- ---------------------------------------------------------------------------
-- Outboxes
-- ---------------------------------------------------------------------------

inductive Entry
  | enqueued (link send : Nat)
  | wrote (link send : Nat)
  | completed (send : Nat) (ec : ErrorCode)
  deriving DecidableEq, Repr

def entryOf : Effect → Option Entry
  | .enqueued link (.data send) _ => some (.enqueued link send)
  | .wrote link (some send) _ _ => some (.wrote link send)
  | .completed send ec => some (.completed send ec)
  | _ => none

/-- The port a pop was posted to, and the handler that came with the value. -/
def popOf : Completion → Option (Nat × Option Nat)
  | .popped port ec value => some (port, if ec = .success then value.2 else none)
  | .received _ _ _ => none

structure Outbox where
  queue : Nat → CoroQueue WriteValue Nat Empty
  -- the link and the writer of each port
  writers : List (Nat × Writer)
  pops : List (Nat × Option Nat)
  book : List Entry

def outbox (k : Kernel) : Outbox where
  queue link := (k.links link).writeQueue
  writers := k.ports.map fun p => (p.avif.id, p.writer)
  pops := k.posted.filterMap popOf
  book := k.trace.filterMap entryOf

namespace Outbox

def onQueue (o : Outbox) (link : Nat)
    (result : CoroQueue WriteValue Nat Empty × List (Posted WriteValue Nat Empty)) : Outbox :=
  { o with
    queue := Function.update o.queue link result.1
    pops := o.pops ++ (result.2.map poppedOf).filterMap popOf }

def addWriter (o : Outbox) (link : Nat) : Outbox :=
  { o with writers := o.writers ++ [(link, .spawned)] }

def setWriter (o : Outbox) (port link : Nat) (writer : Writer) : Outbox :=
  { o with writers := o.writers.set port (link, writer) }

inductive Step (o : Outbox) : Outbox → Prop
  | enqueue (link : Nat) (packet : AvPacket) (handler : Option Nat) : Step o
      { o.onQueue link ((o.queue link).push (packet, handler)) with
        book := o.book ++ (handler.map (.enqueued link)).toList }
  | giveUp (send : Nat) : Step o { o with book := o.book ++ [.completed send .networkUnreachable] }
  | add (link : Nat) : Step o (o.addWriter link)
  | cancel (link : Nat) : Step o (o.onQueue link (o.queue link).cancele)
  | leave : o.writers[port]? = some (link, .spawned) → Step o (o.setWriter port link .exited)
  | pop : o.writers[port]? = some (link, .spawned) →
      Step o ((o.onQueue link ((o.queue link).asyncPop port)).setWriter port link .popping)
  -- The writer goes back to its loop head.
  | wrote : o.writers[port]? = some (link, .writing bytes handler) → Step o
      { o.setWriter port link .spawned with
        book := o.book ++ handler.toList.flatMap fun send =>
          [.wrote link send, .completed send .success] }
  | take (bytes : Bytes) : o.pops = (port, handler) :: rest →
      o.writers[port]? = some (link, writer) →
      Step o ({ o with pops := rest }.setWriter port link (.writing bytes handler))
  | refuse : o.pops = (port, none) :: rest → o.writers[port]? = some (link, writer) →
      Step o ({ o with pops := rest }.setWriter port link .exited)
  | drop : o.pops = pop :: rest → o.writers[pop.1]? = none → Step o { o with pops := rest }

end Outbox

-- ---------------------------------------------------------------------------
-- Moves of the kernel
-- ---------------------------------------------------------------------------

theorem outbox_onQueue (k : Kernel) (link : Nat)
    (result : CoroQueue WriteValue Nat Empty × List (Posted WriteValue Nat Empty)) :
    outbox (k.onQueue link result) = (outbox k).onQueue link result := by
  have hqueue : (fun other => ((k.onQueue link result).links other).writeQueue) =
      Function.update (fun other => (k.links other).writeQueue) link result.1 := by
    funext other
    by_cases ho : other = link
    · simp [Kernel.onQueue, ho]
    · simp [Kernel.onQueue, ho]
  simp only [outbox, Outbox.onQueue, Outbox.mk.injEq]
  exact ⟨hqueue, rfl, by simp [Kernel.onQueue], rfl⟩

theorem outbox_record (k : Kernel) (effect : Effect) :
    outbox (k.record effect) =
      { outbox k with book := (outbox k).book ++ (entryOf effect).toList } := by
  simp only [outbox, Outbox.mk.injEq, record_trace, List.filterMap_append]
  refine ⟨rfl, rfl, rfl, ?_⟩
  cases h : entryOf effect with
  | none => simp [h]
  | some entry => simp [h]

theorem outbox_asyncInterfaceWritePacket (k : Kernel) (avif : Avif) (cause : Cause)
    (packet : AvPacket) :
    (outbox k).Step (outbox (k.asyncInterfaceWritePacket avif cause packet)) := by
  have hentry : (entryOf (.enqueued avif.id cause packet)).toList =
      (cause.handler.map (Entry.enqueued avif.id)).toList := by
    cases cause <;> rfl
  rw [asyncInterfaceWritePacket, outbox_record, outbox_onQueue, hentry]
  exact .enqueue _ _ _

theorem outbox_sendOrAsk (h : sendOrAsk lib k op now = .ok k') (waiters : List Waiter) :
    (outbox k).Step (outbox { k' with waiters := waiters }) := by
  obtain ⟨key, avif, second, -, -, rfl⟩ | ⟨avif, -, -, -, rfl⟩ | ⟨-, -, rfl⟩ := sendOrAsk_cases h
  · exact outbox_asyncInterfaceWritePacket { k with draws := k.draws + op.data.length } avif _ _
  · exact outbox_asyncInterfaceWritePacket k avif _ _
  · have heq := outbox_record k (.completed op.send .networkUnreachable)
    have hstep : (outbox k).Step (outbox (k.record (.completed op.send .networkUnreachable))) := by
      rw [heq]
      exact .giveUp op.send
    exact hstep

theorem outbox_asyncSendto (h : asyncSendto lib k target data now = .ok k') :
    (outbox k).Step (outbox k') := by
  obtain ⟨-, rfl⟩ | ⟨interface, -, hsend⟩ := asyncSendto_cases h
  · have heq := outbox_record { k with sends := k.sends + 1 }
      (.completed k.sends .networkUnreachable)
    rw [heq]
    exact .giveUp k.sends
  · exact outbox_sendOrAsk hsend k'.waiters

theorem outbox_setPort (k : Kernel) (port : Nat) (q : Port) :
    outbox (k.setPort port q) = (outbox k).setWriter port q.avif.id q.writer := by
  simp [outbox, setPort, Outbox.setWriter, List.map_set]

theorem writers_at {port : Nat} {p : Port} (hp : k.ports[port]? = some p) :
    (outbox k).writers[port]? = some (p.avif.id, p.writer) := by
  simp [outbox, hp]

theorem outbox_writerLoop {port : Nat} {p : Port} (hp : k.ports[port]? = some p)
    (hspawned : p.writer = .spawned) : (outbox k).Step (outbox (k.writerLoop port p)) := by
  have hat := writers_at hp
  rw [hspawned] at hat
  unfold writerLoop
  split
  · rw [outbox_setPort]
    exact .leave hat
  · rw [outbox_setPort, outbox_onQueue]
    exact .pop hat

theorem writerLoop_spawned (k : Kernel) (port : Nat) (p : Port) :
    (k.setPort port { p with writer := .spawned }).writerLoop port { p with writer := .spawned } =
      k.writerLoop port p := by
  simp only [writerLoop, setPort, Kernel.onQueue, List.set_set]

theorem outbox_writerWrote {port : Nat} {p : Port} (hp : k.ports[port]? = some p)
    (hwriting : p.writer = .writing bytes handler) (written : Bool) :
    ReflTransGen Outbox.Step (outbox k)
      (outbox (k.writerWrote port p bytes handler written)) := by
  have hat := writers_at hp
  rw [hwriting] at hat
  -- first back to the loop head
  have hback : ∀ recorded : Kernel, recorded.ports = k.ports →
      outbox recorded = { outbox k with
        book := (outbox k).book ++ handler.toList.flatMap fun send =>
          [.wrote p.avif.id send, .completed send .success] } →
      ReflTransGen Outbox.Step (outbox k) (outbox (recorded.writerLoop port p)) := by
    intro recorded hports hbook
    have hlt : port < recorded.ports.length := by
      rw [hports]
      exact (List.getElem?_eq_some_iff.mp hp).1
    rw [← writerLoop_spawned]
    refine .tail (.single ?_) (outbox_writerLoop (by simp [setPort, hlt]) rfl)
    rw [outbox_setPort, hbook]
    exact .wrote hat
  cases handler with
  | none =>
    refine hback (k.record (.wrote p.avif.id none bytes written)) rfl ?_
    rw [outbox_record]
    rfl
  | some send =>
    refine hback ((k.record (.wrote p.avif.id (some send) bytes written)).record
      (.completed send .success)) rfl ?_
    rw [outbox_record, outbox_record]
    simp [entryOf]

theorem popOf_receivedOf (c : Posted (Bytes × Bytes) Nat Empty) : popOf (receivedOf c) = none := by
  cases c with
  | pop call ec value => rfl
  | wait handler ec => exact handler.elim

theorem outbox_runPosted (h : runPosted lib k = .ok k') :
    ReflTransGen Outbox.Step (outbox k) (outbox k') := by
  obtain ⟨-, rfl⟩ | ⟨port, ec, value, rest, hposted, ⟨hnone, rfl⟩ | ⟨p, hp, ⟨hec, rfl⟩ |
    ⟨bytes, hec, -, rfl⟩⟩⟩ | ⟨call, ec, value, rest, hposted, rfl⟩ := runPosted_cases h
  · exact .refl
  · have hpops : (outbox k).pops =
        (port, if ec = .success then value.2 else none) :: rest.filterMap popOf := by
      simp [outbox, hposted, popOf]
    exact .single (.drop hpops (by simp [outbox, hnone]))
  · have hpops : (outbox k).pops = (port, none) :: rest.filterMap popOf := by
      simp [outbox, hposted, popOf, hec]
    have hat := writers_at hp
    rw [outbox_setPort]
    exact .single (.refuse hpops hat)
  · have hpops : (outbox k).pops = (port, value.2) :: rest.filterMap popOf := by
      simp [outbox, hposted, popOf, hec]
    have hat := writers_at hp
    rw [outbox_setPort]
    exact .single (.take bytes hpops hat)
  · have heq := outbox_record { k with posted := rest } (.received call ec value.1 value.2)
    have hsame : outbox ({ k with posted := rest }.record (.received call ec value.1 value.2)) =
        outbox k := by
      rw [heq]
      simp only [outbox, hposted, entryOf, Option.toList_none, List.append_nil]
      rfl
    rw [hsame]

theorem outbox_setRunner {port : Nat} {p : Port} (hp : k.ports[port]? = some p) (runner : Runner) :
    outbox (k.setPort port { p with runner := runner }) = outbox k := by
  obtain ⟨hlt, hat⟩ := List.getElem?_eq_some_iff.mp (writers_at hp)
  rw [outbox_setPort, Outbox.setWriter]
  simp only [← hat, List.set_getElem_self]

theorem outbox_runnerLoop {port : Nat} {p : Port} (hp : k.ports[port]? = some p) :
    ReflTransGen Outbox.Step (outbox k) (outbox (k.runnerLoop port p)) := by
  obtain ⟨-, heq⟩ | ⟨-, heq⟩ := runnerLoop_cases k port p
  · have hset := outbox_setRunner
      (k := { k.onQueue p.avif.id (k.links p.avif.id).writeQueue.cancele with
        routing := k.routing.removeInterface (getIfname p.avif.ifname k.ifCounter).1
        ifCounter := (getIfname p.avif.ifname k.ifCounter).2 }) hp .exited
    have hstep : (outbox k).Step
        (outbox (k.onQueue p.avif.id (k.links p.avif.id).writeQueue.cancele)) := by
      rw [outbox_onQueue]
      exact .cancel p.avif.id
    rw [heq, hset]
    exact .single hstep
  · rw [heq, outbox_setRunner hp]

/-- Every move is a sequence of things that can happen to an outbox. -/
theorem move_outbox (h : Move lib k k') : ReflTransGen Outbox.Step (outbox k) (outbox k') := by
  cases h with
  | addInterface avif =>
    have heq : outbox (k.addInterface avif) = (outbox k).addWriter avif.id := by
      simp [outbox, Kernel.addInterface, Outbox.addWriter]
    rw [heq]
    exact .single (.add avif.id)
  | call h => exact .single (outbox_asyncSendto h)
  | asyncRecvfrom =>
    have heq : outbox k.asyncRecvfrom = outbox k := by
      simp [outbox, Kernel.asyncRecvfrom, popOf_receivedOf]
    rw [heq]
  | quit link =>
    have heq : outbox (k.quit link) = outbox k := by
      simp only [outbox, Outbox.mk.injEq]
      refine ⟨?_, rfl, rfl, rfl⟩
      funext other
      by_cases ho : other = link
      · simp [Kernel.quit, ho]
      · simp [Kernel.quit, ho]
    rw [heq]
  | runner hp => exact outbox_runnerLoop hp
  | reply avif target => exact .single (outbox_asyncInterfaceWritePacket _ _ _ _)
  | push sender payload =>
    have heq : outbox (k.pushReceived sender payload) = outbox k := by
      rw [Kernel.pushReceived, outbox_record]
      simp [outbox, entryOf, popOf_receivedOf]
    rw [heq]
  | forward avif packet => exact .single (outbox_asyncInterfaceWritePacket _ _ _ _)
  | resume hw hres => exact .single (outbox_sendOrAsk hres _)
  | writer hp hspawned => exact .single (outbox_writerLoop hp hspawned)
  | wrote written hp hwriting => exact outbox_writerWrote hp hwriting written
  | posted h => exact outbox_runPosted h
  | _ => exact .refl

-- ---------------------------------------------------------------------------
-- Balanced books
-- ---------------------------------------------------------------------------

namespace Outbox

variable {o o' : Outbox}

def handlerOf : Writer → Option Nat
  | .writing _ handler => handler
  | _ => none

def linkOf (o : Outbox) (port : Nat) : Option Nat := (o.writers[port]?).map Prod.fst

-- Where the packet that call `send` enqueued on `link` can be.

def writing (o : Outbox) (link send : Nat) : Nat :=
  o.writers.countP fun w => decide (w.1 = link ∧ handlerOf w.2 = some send)

def posted (o : Outbox) (link send : Nat) : Nat :=
  o.pops.countP fun pop => decide (o.linkOf pop.1 = some link ∧ pop.2 = some send)

def queued (o : Outbox) (link send : Nat) : Nat :=
  (o.queue link).list.countP fun value => decide (value.2 = some send)

/-- The pops a port has outstanding. -/
def pending (o : Outbox) (port link : Nat) : Nat :=
  (o.queue link).handlers.countP (fun r => decide (r.handler = port)) +
    o.pops.countP fun pop => decide (pop.1 = port)

def tells (send : Nat) : Entry → Bool
  | .completed other _ => other = send
  | _ => false

def writes (send : Nat) : Entry → Bool
  | .wrote _ other => other = send
  | _ => false

structure Ledger (o : Outbox) : Prop where
  settled : ∀ link, (o.queue link).Settled
  readers : ∀ link, ∀ r ∈ (o.queue link).handlers, o.linkOf r.handler = some link
  handed : ∀ pop ∈ o.pops, (o.linkOf pop.1).isSome = true
  -- a writer is in `async_pop` exactly while its pop is outstanding
  popping : ∀ (port : Nat) link writer, o.writers[port]? = some (link, writer) →
    o.pending port link = if writer = .popping then 1 else 0
  balance : ∀ link send, o.book.count (.enqueued link send) =
    o.book.count (.wrote link send) + o.writing link send + o.posted link send +
      o.queued link send
  told : ∀ send, o.book.countP (tells send) =
    o.book.countP (writes send) + o.book.count (.completed send .networkUnreachable)

theorem linkOf_of_writers {port : Nat} (h : o.writers[port]? = some (link, writer)) :
    o.linkOf port = some link := by
  simp [linkOf, h]

theorem ledger_initial : Ledger (outbox initial) := by
  refine ⟨?_, ?_, ?_, ?_, ?_, ?_⟩
  · intro link
    exact CoroQueue.settled_empty
  · intro link r hr
    cases hr
  · intro pop hpop
    cases hpop
  · intro port link writer h
    simp [outbox, initial] at h
  · intro link send
    rfl
  · intro send
    rfl

/-- The pops that a queue operation posts. -/
def popsOf (completions : List (Posted WriteValue Nat Empty)) : List (Nat × Option Nat) :=
  (completions.map poppedOf).filterMap popOf

theorem popsOf_waits (waits : List Empty) (ec : ErrorCode)
    (rest : List (Posted WriteValue Nat Empty)) :
    popsOf (waits.map (.wait · ec) ++ rest) = popsOf rest := by
  cases waits with
  | nil => rfl
  | cons w waits => exact w.elim

theorem countP_link {hs : List (Nat × Option Nat)}
    (h : ∀ pop ∈ hs, o.linkOf pop.1 = some link) (other send : Nat) :
    (hs.countP fun pop => decide (o.linkOf pop.1 = some other ∧ pop.2 = some send)) =
      if other = link then hs.countP (fun pop => decide (pop.2 = some send)) else 0 := by
  split
  · rename_i ho
    refine List.countP_congr fun pop hpop => ?_
    simp [h pop hpop, ho]
  · rename_i ho
    rw [List.countP_eq_zero]
    intro pop hpop
    simp [h pop hpop, Ne.symm ho]

/-- What an operation on one queue changes: `extra` pops are outstanding, and
`gain` packets are in the queue or posted, that were not before. -/
structure Hands (q : CoroQueue WriteValue Nat Empty)
    (result : CoroQueue WriteValue Nat Empty × List (Posted WriteValue Nat Empty))
    (extra gain : Nat → Nat) : Prop where
  settled : result.1.Settled
  pending : ∀ port, result.1.handlers.countP (fun r => decide (r.handler = port)) +
      (popsOf result.2).countP (fun pop => decide (pop.1 = port)) =
    q.handlers.countP (fun r => decide (r.handler = port)) + extra port
  balance : ∀ send, (popsOf result.2).countP (fun pop => decide (pop.2 = some send)) +
      result.1.list.countP (fun value => decide (value.2 = some send)) =
    q.list.countP (fun value => decide (value.2 = some send)) + gain send

theorem push_hands {q : CoroQueue WriteValue Nat Empty} (h : q.Settled) (value : WriteValue) :
    Hands q (q.push value) (fun _ => 0) fun send => if value.2 = some send then 1 else 0 := by
  refine ⟨h.push value, ?_, ?_⟩
  · intro port
    obtain ⟨hnone, heq⟩ | ⟨reader, readers, hreaders, -, heq⟩ := CoroQueue.push_cases h value
    · rw [heq, hnone, ← List.append_nil (List.map _ _), popsOf_waits]
      rfl
    · rw [heq, hreaders, popsOf_waits]
      simp [List.countP_cons, popsOf, poppedOf, popOf]
  · intro send
    obtain ⟨-, heq⟩ | ⟨reader, readers, -, hlist, heq⟩ := CoroQueue.push_cases h value
    · rw [heq, ← List.append_nil (List.map _ _), popsOf_waits]
      simp [List.countP_append, List.countP_singleton, popsOf]
    · rw [heq, hlist, popsOf_waits]
      simp [List.countP_cons, popsOf, poppedOf, popOf]

theorem asyncPop_hands {q : CoroQueue WriteValue Nat Empty} (h : q.Settled) (port : Nat) :
    Hands q (q.asyncPop port) (fun p => if p = port then 1 else 0) fun _ => 0 := by
  refine ⟨h.asyncPop port, ?_, ?_⟩
  · intro p
    obtain ⟨-, heq⟩ | ⟨value, list, -, heq⟩ := q.asyncPop_cases port
    · rw [heq]
      simp [List.countP_append, List.countP_singleton, popsOf, eq_comm]
    · rw [heq]
      simp [List.countP_singleton, popsOf, poppedOf, popOf, eq_comm]
  · intro send
    obtain ⟨-, heq⟩ | ⟨value, list, hlist, heq⟩ := q.asyncPop_cases port
    · rw [heq]
      simp [popsOf]
    · rw [heq, hlist]
      simp [List.countP_cons, popsOf, poppedOf, popOf, Nat.add_comm]

theorem cancele_hands {q : CoroQueue WriteValue Nat Empty} (h : q.Settled) :
    Hands q q.cancele (fun _ => 0) fun _ => 0 := by
  have hpops : ∀ readers : List (Reader Nat), popsOf (readers.map fun reader =>
      .pop reader.handler .operationCanceled default) =
        readers.map fun reader => (reader.handler, none) := by
    intro readers
    rw [popsOf, List.map_map, List.filterMap_map]
    exact congrFun (List.filterMap_eq_map (f := fun r : Reader Nat => (r.handler, none))) readers
  refine ⟨h.cancele, ?_, ?_⟩
  · intro port
    obtain ⟨-, heq⟩ | ⟨-, -, heq⟩ := CoroQueue.cancele_cases h
    · rw [heq]
      rfl
    · rw [heq, popsOf_waits, hpops]
      simp [List.countP_map, Function.comp_def]
  · intro send
    obtain ⟨-, heq⟩ | ⟨-, hlist, heq⟩ := CoroQueue.cancele_cases h
    · rw [heq]
      exact Nat.zero_add _
    · rw [heq, hlist, popsOf_waits, hpops]
      simp [List.countP_map, Function.comp_def]

@[simp] theorem queue_onQueue_self (o : Outbox) (link : Nat)
    (result : CoroQueue WriteValue Nat Empty × List (Posted WriteValue Nat Empty)) :
    (o.onQueue link result).queue link = result.1 := by
  simp [Outbox.onQueue]

theorem queue_onQueue_of_ne (hne : other ≠ link)
    (result : CoroQueue WriteValue Nat Empty × List (Posted WriteValue Nat Empty)) :
    (o.onQueue link result).queue other = o.queue other := by
  simp [Outbox.onQueue, hne]

theorem pops_onQueue (o : Outbox) (link : Nat)
    (result : CoroQueue WriteValue Nat Empty × List (Posted WriteValue Nat Empty)) :
    (o.onQueue link result).pops = o.pops ++ popsOf result.2 := rfl

section OnQueue

variable (h : Ledger o) (hands : Hands (o.queue link) result extra gain)
  (hextra : ∀ port, 0 < extra port → o.linkOf port = some link)

include h hands

theorem Ledger.onQueue_settled (other : Nat) : ((o.onQueue link result).queue other).Settled := by
  by_cases ho : other = link
  · rw [ho, queue_onQueue_self]
    exact hands.settled
  · rw [queue_onQueue_of_ne ho]
    exact h.settled other

include hextra

/-- Whoever a pop is outstanding for after the operation is a reader of the
queue, or has just become one. -/
theorem Ledger.onQueue_linkOf
    (hpos : 0 < result.1.handlers.countP (fun r => decide (r.handler = port)) +
      (popsOf result.2).countP (fun pop => decide (pop.1 = port))) :
    o.linkOf port = some link := by
  rw [hands.pending port] at hpos
  rcases Nat.eq_zero_or_pos (extra port) with hzero | hpos'
  · rw [hzero, Nat.add_zero] at hpos
    obtain ⟨r, hr, hport⟩ := List.countP_pos_iff.mp hpos
    rw [← of_decide_eq_true hport]
    exact h.readers link r hr
  · exact hextra port hpos'

theorem Ledger.onQueue_readers (other : Nat) :
    ∀ r ∈ ((o.onQueue link result).queue other).handlers, o.linkOf r.handler = some other := by
  intro r hr
  by_cases ho : other = link
  · rw [ho, queue_onQueue_self] at hr
    rw [ho]
    refine h.onQueue_linkOf hands hextra (Nat.add_pos_left ?_ _)
    exact List.countP_pos_iff.mpr ⟨r, hr, by simp⟩
  · rw [queue_onQueue_of_ne ho] at hr
    exact h.readers other r hr

theorem Ledger.onQueue_posted : ∀ pop ∈ popsOf result.2, o.linkOf pop.1 = some link := by
  intro pop hpop
  refine h.onQueue_linkOf hands hextra (Nat.add_pos_right _ ?_)
  exact List.countP_pos_iff.mpr ⟨pop, hpop, by simp⟩

theorem Ledger.onQueue_handed :
    ∀ pop ∈ (o.onQueue link result).pops, (o.linkOf pop.1).isSome = true := by
  rw [pops_onQueue]
  intro pop hpop
  rcases List.mem_append.mp hpop with hpop | hpop
  · exact h.handed pop hpop
  · rw [h.onQueue_posted hands hextra pop hpop]
    rfl

theorem Ledger.onQueue_pending (port other : Nat) (hlink : o.linkOf port = some other) :
    (o.onQueue link result).pending port other =
      o.pending port other + if other = link then extra port else 0 := by
  rw [pending, pending, pops_onQueue, List.countP_append]
  by_cases ho : other = link
  · have hp := hands.pending port
    rw [ho, queue_onQueue_self, if_pos rfl]
    omega
  · have hnone : (popsOf result.2).countP (fun pop => decide (pop.1 = port)) = 0 := by
      rw [List.countP_eq_zero]
      intro pop hpop hport
      have hlinked := h.onQueue_posted hands hextra pop hpop
      rw [of_decide_eq_true hport, hlink] at hlinked
      exact ho (Option.some.inj hlinked)
    rw [queue_onQueue_of_ne ho, hnone, if_neg ho]
    omega

theorem Ledger.onQueue_balance (other send : Nat) :
    (o.onQueue link result).posted other send + (o.onQueue link result).queued other send =
      o.posted other send + o.queued other send + if other = link then gain send else 0 := by
  have hposted : (o.onQueue link result).posted other send = o.posted other send +
      if other = link then (popsOf result.2).countP (fun pop => decide (pop.2 = some send))
      else 0 := by
    rw [posted, pops_onQueue, List.countP_append,
      ← countP_link (h.onQueue_posted hands hextra)]
    rfl
  by_cases ho : other = link
  · have hb := hands.balance send
    rw [hposted, if_pos ho, if_pos ho]
    rw [queued, queued, ho, queue_onQueue_self]
    omega
  · rw [hposted, if_neg ho, if_neg ho, queued, queue_onQueue_of_ne ho]
    rfl

end OnQueue

theorem linkOf_set {port : Nat} (h : o.writers[port]? = some (link, writer))
    (hset : o'.writers = o.writers.set port (link, other)) : o'.linkOf = o.linkOf := by
  funext p
  by_cases hp : port = p
  · have hlt : port < o.writers.length := (List.getElem?_eq_some_iff.mp h).1
    rw [← hp, linkOf, linkOf, hset, List.getElem?_set_self hlt, h]
    rfl
  · rw [linkOf, linkOf, hset, List.getElem?_set_ne hp]

theorem writing_set {port : Nat} (h : o.writers[port]? = some (link, writer))
    (hset : o'.writers = o.writers.set port (link, other)) (l send : Nat) :
    o'.writing l send + (if l = link ∧ handlerOf writer = some send then 1 else 0) =
      o.writing l send + if l = link ∧ handlerOf other = some send then 1 else 0 := by
  obtain ⟨hlt, hat⟩ := List.getElem?_eq_some_iff.mp h
  have hpos : (if l = link ∧ handlerOf writer = some send then 1 else 0) ≤ o.writing l send := by
    split
    · rename_i hboth
      refine List.countP_pos_iff.mpr ⟨(link, writer), List.mem_of_getElem? h, ?_⟩
      simp [hboth.1, hboth.2]
    · exact Nat.zero_le _
  have hcount : o'.writing l send = o.writing l send -
      (if l = link ∧ handlerOf writer = some send then 1 else 0) +
      if l = link ∧ handlerOf other = some send then 1 else 0 := by
    rw [writing, hset, List.countP_set hlt, hat]
    simp only [decide_eq_true_eq, writing, eq_comm (a := link)]
  omega

theorem getElem?_writers_set {port p : Nat} (h : o.writers[port]? = some (link, writer))
    (hp : (o.writers.set port (link, other))[p]? = some (l, w)) :
    (p = port ∧ l = link ∧ w = other) ∨ (p ≠ port ∧ o.writers[p]? = some (l, w)) := by
  by_cases heq : port = p
  · have hlt : port < o.writers.length := (List.getElem?_eq_some_iff.mp h).1
    rw [← heq, List.getElem?_set_self hlt] at hp
    cases hp
    exact .inl ⟨heq.symm, rfl, rfl⟩
  · rw [List.getElem?_set_ne heq] at hp
    exact .inr ⟨Ne.symm heq, hp⟩

-- ---------------------------------------------------------------------------
-- They stay balanced
-- ---------------------------------------------------------------------------

theorem count_enqueued (handler : Option Nat) (link l send : Nat) :
    ((handler.map (Entry.enqueued link)).toList).count (.enqueued l send) =
      if l = link then if handler = some send then 1 else 0 else 0 := by
  cases handler with
  | none => simp
  | some other =>
    by_cases hl : l = link
    · by_cases hs : other = send
      · simp [hl, hs]
      · simp [hl, hs]
    · simp [hl, Ne.symm hl]

theorem Ledger.enqueue (h : Ledger o) (link : Nat) (packet : AvPacket) (handler : Option Nat) :
    Ledger { o.onQueue link ((o.queue link).push (packet, handler)) with
      book := o.book ++ (handler.map (.enqueued link)).toList } := by
  have hands := push_hands (h.settled link) (packet, handler)
  refine ⟨h.onQueue_settled hands, h.onQueue_readers hands (by simp),
    h.onQueue_handed hands (by simp), ?_, ?_, ?_⟩
  · intro port l writer hat
    have hp := h.onQueue_pending hands (by simp) port l (linkOf_of_writers hat)
    rw [ite_self, Nat.add_zero] at hp
    exact hp.trans (h.popping port l writer hat)
  · intro l send
    have hold := h.balance l send
    have hnone : ((handler.map (Entry.enqueued link)).toList).count (.wrote l send) = 0 := by
      cases handler <;> simp
    calc (o.book ++ (handler.map (Entry.enqueued link)).toList).count (.enqueued l send)
        = o.book.count (.wrote l send) + o.writing l send +
            (o.posted l send + o.queued l send +
              if l = link then if handler = some send then 1 else 0 else 0) := by
          rw [List.count_append, count_enqueued, hold]
          omega
      _ = (o.book ++ (handler.map (Entry.enqueued link)).toList).count (.wrote l send) +
            o.writing l send +
            ((o.onQueue link ((o.queue link).push (packet, handler))).posted l send +
              (o.onQueue link ((o.queue link).push (packet, handler))).queued l send) := by
          rw [List.count_append, hnone, h.onQueue_balance hands (by simp) l send]
          rfl
      _ = _ := (Nat.add_assoc _ _ _).symm
  · intro send
    have hold := h.told send
    cases handler with
    | none => simpa using hold
    | some other => simpa [tells, writes, List.count_append] using hold

theorem Ledger.cancel (h : Ledger o) (link : Nat) :
    Ledger (o.onQueue link (o.queue link).cancele) := by
  have hands := cancele_hands (h.settled link)
  refine ⟨h.onQueue_settled hands, h.onQueue_readers hands (by simp),
    h.onQueue_handed hands (by simp), ?_, ?_, h.told⟩
  · intro port l writer hat
    have hp := h.onQueue_pending hands (by simp) port l (linkOf_of_writers hat)
    rw [ite_self, Nat.add_zero] at hp
    exact hp.trans (h.popping port l writer hat)
  · intro l send
    have hb := h.onQueue_balance hands (by simp) l send
    rw [ite_self, Nat.add_zero] at hb
    have hold := h.balance l send
    rw [Nat.add_assoc, ← hb, ← Nat.add_assoc] at hold
    exact hold

theorem Ledger.giveUp (h : Ledger o) (send : Nat) :
    Ledger { o with book := o.book ++ [.completed send .networkUnreachable] } := by
  have hcount : ∀ entry : Entry, entry ≠ .completed send .networkUnreachable →
      (o.book ++ [Entry.completed send .networkUnreachable]).count entry = o.book.count entry := by
    intro entry hne
    simp [List.count_append, Ne.symm hne]
  refine ⟨h.settled, h.readers, h.handed, h.popping, ?_, ?_⟩
  · intro l s
    rw [hcount (.enqueued l s) (by simp), hcount (.wrote l s) (by simp)]
    exact h.balance l s
  · intro s
    have hold := h.told s
    by_cases hs : send = s
    · simp [List.countP_append, List.count_append, tells, writes, hs, hold]
      omega
    · simp [List.countP_append, List.count_append, tells, writes, hs, hold]

theorem linkOf_addWriter {port : Nat} (h : o.linkOf port = some l) (link : Nat) :
    (o.addWriter link).linkOf port = some l := by
  obtain ⟨w, hw, -⟩ := Option.map_eq_some_iff.mp h
  have hlt := (List.getElem?_eq_some_iff.mp hw).1
  rw [linkOf, addWriter, List.getElem?_append_left hlt]
  exact h

theorem Ledger.pending_of_none {port : Nat} (h : Ledger o) (hnone : o.linkOf port = none)
    (link : Nat) : o.pending port link = 0 := by
  rw [pending, Nat.add_eq_zero_iff, List.countP_eq_zero, List.countP_eq_zero]
  constructor
  · intro r hr hport
    have hlink := h.readers link r hr
    rw [of_decide_eq_true hport, hnone] at hlink
    cases hlink
  · intro pop hpop hport
    have hlink := h.handed pop hpop
    rw [of_decide_eq_true hport, hnone] at hlink
    cases hlink

theorem Ledger.add (h : Ledger o) (link : Nat) : Ledger (o.addWriter link) := by
  have hhanded : ∀ pop ∈ o.pops, (o.addWriter link).linkOf pop.1 = o.linkOf pop.1 := by
    intro pop hpop
    obtain ⟨l, hl⟩ := Option.isSome_iff_exists.mp (h.handed pop hpop)
    rw [linkOf_addWriter hl, hl]
  refine ⟨h.settled, ?_, ?_, ?_, ?_, h.told⟩
  · intro l r hr
    exact linkOf_addWriter (h.readers l r hr) link
  · intro pop hpop
    rw [hhanded pop hpop]
    exact h.handed pop hpop
  · intro port l writer hat
    rcases getElem?_concat_cases hat with hat | ⟨rfl, hnew⟩
    · exact h.popping port l writer hat
    · cases hnew
      exact h.pending_of_none (by simp [linkOf]) link
  · intro l send
    have hposted : (o.addWriter link).posted l send = o.posted l send := by
      refine List.countP_congr fun pop hpop => ?_
      rw [hhanded pop hpop]
    have hwriting : (o.addWriter link).writing l send = o.writing l send := by
      simp [writing, addWriter, List.countP_append, handlerOf]
    rw [hposted, hwriting]
    exact h.balance l send

theorem Ledger.turn {port : Nat} (h : Ledger o) (hat : o.writers[port]? = some (link, writer))
    (hset : o'.writers = o.writers.set port (link, other))
    (hsettled : ∀ l, (o'.queue l).Settled)
    (hreaders : ∀ l, ∀ r ∈ (o'.queue l).handlers, o.linkOf r.handler = some l)
    (hhanded : ∀ pop ∈ o'.pops, (o.linkOf pop.1).isSome = true)
    (hothers : ∀ p l, p ≠ port → o.linkOf p = some l → o'.pending p l = o.pending p l)
    (hport : o'.pending port link = if other = .popping then 1 else 0)
    (hbalance : ∀ l send, o'.book.count (.enqueued l send) + o.book.count (.wrote l send) +
        (if l = link ∧ handlerOf writer = some send then 1 else 0) + o.posted l send +
        o.queued l send =
      o.book.count (.enqueued l send) + o'.book.count (.wrote l send) +
        (if l = link ∧ handlerOf other = some send then 1 else 0) + o'.posted l send +
        o'.queued l send)
    (htold : ∀ send, o'.book.countP (tells send) =
      o'.book.countP (writes send) + o'.book.count (.completed send .networkUnreachable)) :
    Ledger o' := by
  have hlinks := linkOf_set hat hset
  refine ⟨hsettled, ?_, ?_, ?_, ?_, htold⟩
  · rw [hlinks]
    exact hreaders
  · rw [hlinks]
    exact hhanded
  · intro p l w hw
    rw [hset] at hw
    obtain ⟨rfl, rfl, rfl⟩ | ⟨hne, hold⟩ := getElem?_writers_set hat hw
    · exact hport
    · rw [hothers p l hne (linkOf_of_writers hold)]
      exact h.popping p l w hold
  · intro l send
    have hwriting := writing_set hat hset l send
    have hold := h.balance l send
    have hnew := hbalance l send
    omega

theorem Ledger.idle {port : Nat} (h : Ledger o) (hat : o.writers[port]? = some (link, writer))
    (hne : writer ≠ .popping) : o.pending port link = 0 := by
  rw [h.popping port link writer hat, if_neg hne]

theorem posted_congr (hpops : o'.pops = o.pops) (hlinks : o'.linkOf = o.linkOf) :
    o'.posted = o.posted := by
  funext l send
  rw [posted, posted, hpops, hlinks]

theorem Ledger.leave {port : Nat} (h : Ledger o)
    (hat : o.writers[port]? = some (link, .spawned)) : Ledger (o.setWriter port link .exited) := by
  have hposted : (o.setWriter port link .exited).posted = o.posted :=
    posted_congr rfl (linkOf_set hat rfl)
  refine h.turn hat rfl h.settled h.readers h.handed (fun _ _ _ _ => rfl)
    (h.idle hat (by simp)) ?_ h.told
  intro l send
  rw [hposted]
  rfl

theorem Ledger.pop {port : Nat} (h : Ledger o)
    (hat : o.writers[port]? = some (link, .spawned)) :
    Ledger ((o.onQueue link ((o.queue link).asyncPop port)).setWriter port link .popping) := by
  have hlink := linkOf_of_writers hat
  have hextra : ∀ p, 0 < (if p = port then 1 else 0) → o.linkOf p = some link := by
    intro p hp
    split at hp
    · rename_i heq
      rw [heq]
      exact hlink
    · cases hp
  have hands := asyncPop_hands (h.settled link) port
  have hposted : ((o.onQueue link ((o.queue link).asyncPop port)).setWriter port link
      .popping).posted = (o.onQueue link ((o.queue link).asyncPop port)).posted :=
    posted_congr rfl (linkOf_set hat rfl)
  refine h.turn hat rfl (h.onQueue_settled hands) (h.onQueue_readers hands hextra)
    (h.onQueue_handed hands hextra) ?_ ?_ ?_ h.told
  · intro p l hne hl
    have hp := h.onQueue_pending hands hextra p l hl
    rw [if_neg hne, ite_self, Nat.add_zero] at hp
    exact hp
  · have hp := h.onQueue_pending hands hextra port link hlink
    rw [h.idle hat (by simp), if_pos rfl, if_pos rfl] at hp
    exact hp
  · intro l send
    have hb := h.onQueue_balance hands hextra l send
    rw [ite_self, Nat.add_zero] at hb
    rw [hposted, Nat.add_assoc, Nat.add_assoc _ ((o.onQueue _ _).posted l send), ← hb]
    rfl

theorem count_written (handler : Option Nat) (link l send : Nat) :
    (handler.toList.flatMap fun send => [Entry.wrote link send, .completed send .success]).count
      (.wrote l send) = if l = link ∧ handler = some send then 1 else 0 := by
  cases handler with
  | none => simp
  | some other =>
    by_cases hl : l = link
    · by_cases hs : other = send
      · simp [hl, hs]
      · simp [hl, hs]
    · simp [hl, Ne.symm hl]

theorem Ledger.wrote {port : Nat} (h : Ledger o)
    (hat : o.writers[port]? = some (link, .writing bytes handler)) :
    Ledger { o.setWriter port link .spawned with
      book := o.book ++ handler.toList.flatMap fun send =>
        [.wrote link send, .completed send .success] } := by
  have hposted : (o.setWriter port link .spawned).posted = o.posted :=
    posted_congr rfl (linkOf_set hat rfl)
  refine h.turn hat rfl h.settled h.readers h.handed (fun _ _ _ _ => rfl)
    (h.idle hat (by simp)) ?_ ?_
  · intro l send
    have henqueued : (o.book ++ handler.toList.flatMap fun send =>
        [Entry.wrote link send, .completed send .success]).count (.enqueued l send) =
          o.book.count (.enqueued l send) := by
      cases handler <;> simp [List.count_append]
    have hsame : ({ o.setWriter port link .spawned with
        book := o.book ++ handler.toList.flatMap fun send =>
          [.wrote link send, .completed send .success] } : Outbox).posted l send =
        o.posted l send := congrFun (congrFun hposted l) send
    have hspawned : ¬ (l = link ∧ handlerOf .spawned = some send) := by simp [handlerOf]
    rw [hsame, henqueued, List.count_append, count_written, if_neg hspawned, ← Nat.add_assoc]
    rfl
  · intro send
    have hold := h.told send
    cases handler with
    | none => simpa using hold
    | some other =>
      simp [tells, writes, List.countP_append, List.count_append, List.countP_cons, hold]
      omega

theorem Ledger.hand {port : Nat} (h : Ledger o) (hpops : o.pops = (port, handler) :: rest)
    (hat : o.writers[port]? = some (link, writer)) (hother : handlerOf other = handler)
    (hne : other ≠ .popping) :
    Ledger ({ o with pops := rest }.setWriter port link other) := by
  have hlink := linkOf_of_writers hat
  -- it is waiting for one value only
  have hpending : o.pending port link =
      ({ o with pops := rest } : Outbox).pending port link + 1 := by
    simp [pending, hpops, Nat.add_assoc]
  have hpopping : writer = .popping := by
    by_contra hw
    rw [h.idle hat hw] at hpending
    cases hpending
  rw [h.popping port link writer hat, if_pos hpopping] at hpending
  have hposted : ({ o with pops := rest }.setWriter port link other).posted =
      ({ o with pops := rest } : Outbox).posted := posted_congr rfl (linkOf_set hat rfl)
  refine h.turn hat rfl h.settled h.readers ?_ ?_ ?_ ?_ h.told
  · intro pop hpop
    exact h.handed pop (by simp [hpops, show pop ∈ rest from hpop])
  · intro p l hp hl
    simp [pending, hpops, setWriter, Ne.symm hp]
  · rw [if_neg hne]
    exact (Nat.succ.inj hpending).symm
  · intro l send
    have hcount : o.posted l send = ({ o with pops := rest } : Outbox).posted l send +
        if l = link ∧ handler = some send then 1 else 0 := by
      rw [posted, hpops, List.countP_cons]
      simp only [decide_eq_true_eq, hlink, Option.some.injEq, eq_comm (a := link)]
      rfl
    have hnone : ¬ (l = link ∧ handlerOf .popping = some send) := by simp [handlerOf]
    rw [hposted, hcount, hother, hpopping, if_neg hnone, Nat.add_zero,
      ← Nat.add_assoc _ _ (ite _ _ _), Nat.add_right_comm _ _ (ite _ _ _)]
    rfl

theorem Ledger.step (h : Ledger o) (hstep : o.Step o') : Ledger o' := by
  cases hstep with
  | enqueue link packet handler => exact h.enqueue link packet handler
  | giveUp send => exact h.giveUp send
  | add link => exact h.add link
  | cancel link => exact h.cancel link
  | leave hat => exact h.leave hat
  | pop hat => exact h.pop hat
  | wrote hat => exact h.wrote hat
  | take bytes hpops hat => exact h.hand hpops hat rfl (by simp)
  | refuse hpops hat => exact h.hand hpops hat rfl (by simp)
  | @drop pop rest hpops hnone =>
    -- a pop is always for a port that exists
    have hsome := h.handed pop (by simp [hpops])
    rw [linkOf, hnone] at hsome
    cases hsome

def Exited (o : Outbox) (link : Nat) : Prop := ∀ w ∈ o.writers, w.1 = link → w.2 = .exited

theorem Ledger.exited (h : Ledger o) (hexited : o.Exited link) (send : Nat) :
    o.book.count (.enqueued link send) =
      o.book.count (.wrote link send) + o.queued link send := by
  have hwriting : o.writing link send = 0 := by
    rw [writing, List.countP_eq_zero]
    rintro ⟨l, w⟩ hw hboth
    obtain ⟨hl, hhandler⟩ := of_decide_eq_true hboth
    rw [hexited _ hw hl] at hhandler
    cases hhandler
  have hposted : o.posted link send = 0 := by
    rw [posted, List.countP_eq_zero]
    intro pop hpop hboth
    obtain ⟨hlink, -⟩ := of_decide_eq_true hboth
    obtain ⟨⟨l, w⟩, hat, hl⟩ := Option.map_eq_some_iff.mp hlink
    have hexit : w = .exited := hexited _ (List.mem_of_getElem? hat) hl
    have hidle := h.idle hat (by simp [hexit])
    rw [pending, Nat.add_eq_zero_iff, List.countP_eq_zero, List.countP_eq_zero] at hidle
    exact hidle.2 pop hpop (by simp)
  have hbalance := h.balance link send
  omega

end Outbox

/-- What everything that happens to an outbox keeps, every step keeps. -/
theorem step_outbox_keeps {I : Outbox → Prop} (hkeep : ∀ o o', o.Step o' → I o → I o')
    (h : step lib k event = .ok k') (hk : I (outbox k)) : I (outbox k') := by
  refine step_keeps (I := fun k => I (outbox k)) ?_ h hk
  intro before after hmove hbefore
  have hsteps := move_outbox hmove
  generalize outbox after = o at hsteps ⊢
  induction hsteps with
  | refl => exact hbefore
  | tail _ hstep ih => exact hkeep _ _ hstep ih

theorem step_ledger (h : step lib k event = .ok k') (hk : (outbox k).Ledger) :
    (outbox k').Ledger :=
  step_outbox_keeps (fun _ _ hstep ho => ho.step hstep) h hk

end Avim.Kernel
