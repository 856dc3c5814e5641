import Avim.Outbox
import Avim.Writing

/-!
# Pipes

An interface is a pipe from its write queue to the socket: what is enqueued goes
through the queue, the completions that are posted and the hands of a writer,
of which there are as many as the interface was added for (`move_pipe`). On the
way nothing is lost, doubled or made up (`Pipe.Conserved`).
-/

namespace Avim.Kernel

open Lib.Octets Relation

variable {lib : Libs} {k k' : Kernel} {width : Nat}

-- ---------------------------------------------------------------------------
-- Pipes
-- ---------------------------------------------------------------------------

def enqueuedOn (link : Nat) : Effect → Option WriteValue
  | .enqueued other cause packet => if other = link then some (packet, cause.handler) else none
  | _ => none

def wroteOn (link : Nat) : Effect → Option (Bytes × Option Nat)
  | .wrote other handler bytes _ => if other = link then some (bytes, handler) else none
  | _ => none

def inHand : Writer → Option (Bytes × Option Nat)
  | .writing bytes handler => some (bytes, handler)
  | _ => none

/-- What a posted completion hands to a writer of the link. -/
def handedOn (ports : List Port) (link : Nat) : Completion → Option WriteValue
  | .popped port .success value =>
    if (ports[port]?).map (·.avif.id) = some link then some value else none
  | _ => none

def writersOn (k : Kernel) (link : Nat) : List Writer :=
  (k.ports.filter (·.avif.id = link)).map Port.writer

structure Pipe where
  queue : CoroQueue WriteValue Nat Empty
  handed : List WriteValue
  hand : List (Bytes × Option Nat)
  enqueued : List WriteValue
  wrote : List (Bytes × Option Nat)

def pipe (k : Kernel) (link : Nat) : Pipe where
  queue := (k.links link).writeQueue
  handed := k.posted.filterMap (handedOn k.ports link)
  hand := (k.writersOn link).filterMap inHand
  enqueued := k.trace.filterMap (enqueuedOn link)
  wrote := k.trace.filterMap (wroteOn link)

/-- What the writer makes of a packet. -/
def frameOf (lib : Libs) (value : WriteValue) : Except Fault (Bytes × Option Nat) :=
  (encode lib.pb (lib.pb.ofAvPacket value.1)).map (·, value.2)

namespace Pipe

def onQueue (p : Pipe)
    (result : CoroQueue WriteValue Nat Empty × List (Posted WriteValue Nat Empty)) : Pipe :=
  { p with queue := result.1, handed := p.handed ++ result.2.filterMap Posted.value? }

/-- With `width` writers, no more than that many frames are in their hands. -/
inductive Step (lib : Libs) (width : Nat) (p : Pipe) : Pipe → Prop
  | queue (op : QueueOp WriteValue Nat Empty) : Step lib width p
      { p.onQueue (p.queue.apply op) with enqueued := p.enqueued ++ op.value?.toList }
  | take : p.handed = value :: rest → frameOf lib value = .ok framed → p.hand = front ++ back →
      p.hand.length < width →
      Step lib width p { p with handed := rest, hand := front ++ framed :: back }
  | wrote : p.hand = front ++ framed :: back →
      Step lib width p { p with hand := front ++ back, wrote := p.wrote ++ [framed] }

/-- What was enqueued is what was written, is in the writers' hands and is on
its way to them, one for one. -/
structure Conserved (lib : Libs) (p : Pipe) : Prop where
  settled : p.queue.Settled
  balance : (p.enqueued.map (frameOf lib)).Perm
    ((p.wrote ++ p.hand).map .ok ++ (p.handed ++ p.queue.list).map (frameOf lib))

variable {p p' : Pipe}

theorem Step.length_hand (h : p.Step lib width p') (hle : p.hand.length ≤ width) :
    p'.hand.length ≤ width := by
  cases h with
  | queue op => exact hle
  | take _ _ hhand hlt =>
    rw [hhand, List.length_append] at hlt
    simp only [List.length_append, List.length_cons]
    omega
  | wrote hhand =>
    rw [hhand, List.length_append, List.length_cons] at hle
    simp only [List.length_append]
    omega

theorem Conserved.step (h : Conserved lib p) (hstep : p.Step lib width p') :
    Conserved lib p' := by
  have hbalance := h.balance
  cases hstep with
  | queue op =>
    have hvalues := CoroQueue.apply_values h.settled op
    have hway : (p.onQueue (p.queue.apply op)).handed ++ (p.queue.apply op).1.list =
        p.handed ++ p.queue.list ++ op.value?.toList := by
      rw [onQueue, List.append_assoc, hvalues, List.append_assoc]
    have hgrown := hbalance.append_right (op.value?.toList.map (frameOf lib))
    rw [List.append_assoc, ← List.map_append, ← List.map_append, ← hway] at hgrown
    exact ⟨h.settled.apply op, hgrown⟩
  | @take value rest framed before after hhanded hframe hhand =>
    refine ⟨h.settled, ?_⟩
    rw [hhanded, List.cons_append, List.map_cons, hframe] at hbalance
    have hinto : (framed :: (p.wrote ++ p.hand)).Perm (p.wrote ++ (before ++ framed :: after)) := by
      rw [hhand, ← List.append_assoc, ← List.append_assoc]
      exact List.perm_middle.symm
    exact hbalance.trans (List.perm_middle.trans ((hinto.map _).append_right _))
  | @wrote before framed after hhand =>
    refine ⟨h.settled, hbalance.trans ?_⟩
    rw [hhand, List.append_assoc p.wrote, List.singleton_append]
    exact ((List.perm_middle.append_left p.wrote).map _).append_right _

end Pipe

-- ---------------------------------------------------------------------------
-- The writers of an interface
-- ---------------------------------------------------------------------------

theorem filter_set_of_not {P : α → Bool} {xs : List α} {i : Nat} (h : xs[i]? = some x)
    (hx : P x = false) (hy : P y = false) : (xs.set i y).filter P = xs.filter P := by
  induction xs generalizing i with
  | nil => rfl
  | cons z zs ih =>
    cases i with
    | zero =>
      cases h
      simp [hx, hy]
    | succ i =>
      rw [List.set_cons_succ, List.filter_cons, List.filter_cons, ih (by simpa using h)]

theorem filter_set_middle {P : α → Bool} {xs : List α} {i : Nat} (h : xs[i]? = some x)
    (hx : P x = true) (hy : P y = true) :
    ∃ before after, xs.filter P = before ++ x :: after ∧
      (xs.set i y).filter P = before ++ y :: after := by
  induction xs generalizing i with
  | nil => cases h
  | cons z zs ih =>
    cases i with
    | zero =>
      cases h
      exact ⟨[], zs.filter P, List.filter_cons_of_pos hx, List.filter_cons_of_pos hy⟩
    | succ i =>
      obtain ⟨before, after, hold, hnew⟩ := ih (by simpa using h)
      by_cases hz : P z = true
      · refine ⟨z :: before, after, ?_, ?_⟩
        · rw [List.filter_cons_of_pos hz, hold, List.cons_append]
        · rw [List.set_cons_succ, List.filter_cons_of_pos hz, hnew, List.cons_append]
      · refine ⟨before, after, ?_, ?_⟩
        · rw [List.filter_cons_of_neg hz, hold]
        · rw [List.set_cons_succ, List.filter_cons_of_neg hz, hnew]

theorem popping_of_posted (hk : (outbox k).Ledger) (hp : k.ports[port]? = some p)
    (hposted : .popped port ec value ∈ k.posted) : p.writer = .popping := by
  have hpop : (port, if ec = .success then value.2 else none) ∈ (outbox k).pops :=
    List.mem_filterMap.mpr ⟨_, hposted, rfl⟩
  have hpending := hk.popping port p.avif.id p.writer (writers_at hp)
  have hpos : 0 < (outbox k).pops.countP fun pop => decide (pop.1 = port) :=
    List.countP_pos_iff.mpr ⟨_, hpop, by simp⟩
  rw [Outbox.pending] at hpending
  by_contra hnot
  rw [if_neg hnot] at hpending
  omega

section

variable {port : Nat} {p q : Port}

theorem writersOn_setPort_of_ne (hp : k.ports[port]? = some p) (havif : q.avif = p.avif)
    (hne : p.avif.id ≠ link) : (k.setPort port q).writersOn link = k.writersOn link := by
  rw [writersOn, setPort, filter_set_of_not hp (by simpa using hne) (by simpa [havif] using hne)]
  rfl

theorem writersOn_setPort (hp : k.ports[port]? = some p) (havif : q.avif = p.avif) :
    ∃ before after, k.writersOn p.avif.id = before ++ p.writer :: after ∧
      (k.setPort port q).writersOn p.avif.id = before ++ q.writer :: after := by
  obtain ⟨before, after, hold, hnew⟩ := filter_set_middle (P := fun other : Port =>
    decide (other.avif.id = p.avif.id)) (y := q) hp (by simp) (by simp [havif])
  refine ⟨before.map Port.writer, after.map Port.writer, ?_, ?_⟩
  · rw [writersOn, hold, List.map_append, List.map_cons]
  · rw [writersOn, setPort, hnew, List.map_append, List.map_cons]

theorem linkAt_setPort (hp : k.ports[port]? = some p) (havif : q.avif = p.avif) (other : Nat) :
    ((k.setPort port q).ports[other]?).map (·.avif.id) = (k.ports[other]?).map (·.avif.id) := by
  have hlt : port < k.ports.length := (List.getElem?_eq_some_iff.mp hp).1
  rw [setPort, List.getElem?_set]
  split
  · rename_i heq
    rw [← heq, hp, Option.map_some, Option.map_some, havif]
  · rfl

theorem handedOn_setPort (hp : k.ports[port]? = some p) (havif : q.avif = p.avif) (link : Nat) :
    handedOn (k.setPort port q).ports link = handedOn k.ports link := by
  funext completion
  cases completion with
  | popped other ec value =>
    cases ec with
    | success => simp only [handedOn, linkAt_setPort hp havif other]
    | _ => rfl
  | received call ec value => rfl

end

-- ---------------------------------------------------------------------------
-- Moves of the kernel
-- ---------------------------------------------------------------------------

theorem linkOf_eq (k : Kernel) (port : Nat) :
    (outbox k).linkOf port = (k.ports[port]?).map (·.avif.id) := by
  rw [Outbox.linkOf, outbox, List.getElem?_map, Option.map_map]
  rfl

theorem handedOn_poppedOf {completions : List (Posted WriteValue Nat Empty)}
    (h : ∀ pop ∈ Outbox.popsOf completions, (outbox k).linkOf pop.1 = some other) (link : Nat) :
    (completions.map poppedOf).filterMap (handedOn k.ports link) =
      if other = link then completions.filterMap Posted.value? else [] := by
  induction completions with
  | nil => simp
  | cons c completions ih =>
    cases c with
    | wait handler ec => exact handler.elim
    | pop port ec value =>
      have hhead : (outbox k).linkOf port = some other :=
        h (port, if ec = .success then value.2 else none) (by simp [Outbox.popsOf, poppedOf, popOf])
      have htail := ih fun pop hpop => h pop (by
        rw [Outbox.popsOf, List.map_cons, List.filterMap_cons]
        exact List.mem_cons_of_mem _ hpop)
      rw [linkOf_eq] at hhead
      rw [List.map_cons, List.filterMap_cons, htail]
      cases ec with
      | success =>
        by_cases hl : other = link
        · simp [handedOn, poppedOf, hhead, hl]
        · simp [handedOn, poppedOf, hhead, hl]
      | _ => simp [handedOn, poppedOf, List.filterMap_cons]

theorem hands_apply (hsettled : q.Settled) (op : QueueOp WriteValue Nat Empty) :
    ∃ extra gain, Outbox.Hands q (q.apply op) extra gain ∧
      ∀ port, 0 < extra port → op.reader? = some port := by
  cases op with
  | push value => exact ⟨_, _, Outbox.push_hands hsettled value, by simp⟩
  | asyncPop port =>
    refine ⟨_, _, Outbox.asyncPop_hands hsettled port, ?_⟩
    intro other hother
    split at hother
    · rename_i heq
      rw [heq]
      rfl
    · cases hother
  | asyncWait handler => exact handler.elim
  | cancele => exact ⟨_, _, Outbox.cancele_hands hsettled, by simp⟩

theorem pipe_onQueue (h : (outbox k).Ledger) (other : Nat) (op : QueueOp WriteValue Nat Empty)
    (hreader : ∀ port, op.reader? = some port → (outbox k).linkOf port = some other)
    (link : Nat) :
    pipe (k.onQueue other ((k.links other).writeQueue.apply op)) link =
      if other = link then (pipe k link).onQueue ((pipe k link).queue.apply op)
      else pipe k link := by
  obtain ⟨extra, gain, hands, hextra⟩ := hands_apply (h.settled other) op
  have hposted : ∀ pop ∈ Outbox.popsOf ((k.links other).writeQueue.apply op).2,
      (outbox k).linkOf pop.1 = some other :=
    h.onQueue_posted hands fun port hp => hreader port (hextra port hp)
  have hhanded : ((k.posted ++ ((k.links other).writeQueue.apply op).2.map poppedOf).filterMap
      (handedOn k.ports link)) = k.posted.filterMap (handedOn k.ports link) ++
        if other = link then ((k.links other).writeQueue.apply op).2.filterMap Posted.value?
        else [] := by
    rw [List.filterMap_append]
    exact congrArg _ (handedOn_poppedOf hposted link)
  by_cases hl : other = link
  · subst hl
    rw [if_pos rfl] at hhanded ⊢
    simp only [pipe, Kernel.onQueue, Pipe.onQueue, writersOn, Function.update_self, hhanded]
  · rw [if_neg hl, List.append_nil] at hhanded
    rw [if_neg hl]
    simp only [pipe, Kernel.onQueue, writersOn, Function.update_of_ne (Ne.symm hl), hhanded]

theorem pipe_record (k : Kernel) (effect : Effect) (link : Nat) :
    pipe (k.record effect) link = { pipe k link with
      enqueued := (pipe k link).enqueued ++ (enqueuedOn link effect).toList
      wrote := (pipe k link).wrote ++ (wroteOn link effect).toList } := by
  simp only [pipe, Pipe.mk.injEq, record_trace, List.filterMap_append]
  refine ⟨rfl, rfl, rfl, ?_, ?_⟩
  · cases h : enqueuedOn link effect <;> simp [h]
  · cases h : wroteOn link effect <;> simp [h]

theorem pipe_record_other {e : Effect} (henqueued : enqueuedOn link e = none)
    (hwrote : wroteOn link e = none) : pipe (k.record e) link = pipe k link := by
  simp only [pipe_record, henqueued, hwrote, Option.toList_none, List.append_nil]

theorem pipe_asyncInterfaceWritePacket (h : (outbox k).Ledger) (avif : Avif) (cause : Cause)
    (packet : AvPacket) (link : Nat) :
    ReflTransGen (Pipe.Step lib width) (pipe k link)
      (pipe (k.asyncInterfaceWritePacket avif cause packet) link) := by
  rw [asyncInterfaceWritePacket, pipe_record]
  have hpush := pipe_onQueue h avif.id (.push (packet, cause.handler)) (by simp) link
  rw [CoroQueue.apply] at hpush
  rw [hpush]
  by_cases hl : avif.id = link
  · rw [if_pos hl]
    have hstep : (pipe k link).Step lib width _ := .queue (.push (packet, cause.handler))
    simpa [enqueuedOn, wroteOn, hl, Pipe.onQueue] using ReflTransGen.single hstep
  · rw [if_neg hl]
    simpa [enqueuedOn, wroteOn, hl] using ReflTransGen.refl

theorem pipe_sendOrAsk (hledger : (outbox k).Ledger) (h : sendOrAsk lib k op now = .ok k')
    (waiters : List Waiter) (link : Nat) :
    ReflTransGen (Pipe.Step lib width) (pipe k link)
      (pipe { k' with waiters := waiters } link) := by
  obtain ⟨key, avif, second, -, -, rfl⟩ | ⟨avif, -, -, -, rfl⟩ | ⟨-, -, rfl⟩ := sendOrAsk_cases h
  · exact pipe_asyncInterfaceWritePacket (k := { k with draws := k.draws + op.data.length })
      hledger avif _ _ link
  · exact pipe_asyncInterfaceWritePacket hledger avif _ _ link
  · have hsame : pipe { k.record (.completed op.send .networkUnreachable) with
        waiters := waiters } link = pipe k link :=
      pipe_record_other (k := k) (e := .completed op.send .networkUnreachable) rfl rfl
    rw [hsame]

theorem pipe_asyncSendto (hledger : (outbox k).Ledger)
    (h : asyncSendto lib k target data now = .ok k') (link : Nat) :
    ReflTransGen (Pipe.Step lib width) (pipe k link) (pipe k' link) := by
  obtain ⟨-, rfl⟩ | ⟨interface, -, hsend⟩ := asyncSendto_cases h
  · have hsame : pipe ({ k with sends := k.sends + 1 }.record
        (.completed k.sends .networkUnreachable)) link = pipe k link :=
      pipe_record_other rfl rfl
    rw [hsame]
  · exact pipe_sendOrAsk (k := { k with sends := k.sends + 1 }) hledger hsend k'.waiters link

section

variable {port : Nat} {p q : Port}

theorem pipe_setPort_of_ne (hp : k.ports[port]? = some p) (havif : q.avif = p.avif)
    (hne : p.avif.id ≠ link) : pipe (k.setPort port q) link = pipe k link := by
  simp only [pipe, handedOn_setPort hp havif, writersOn_setPort_of_ne hp havif hne]
  rfl

theorem pipe_setPort (hp : k.ports[port]? = some p) (havif : q.avif = p.avif) :
    ∃ before after, (before ++ after).length < (k.writersOn p.avif.id).length ∧
      (pipe k p.avif.id).hand = before ++ (inHand p.writer).toList ++ after ∧
      pipe (k.setPort port q) p.avif.id =
        { pipe k p.avif.id with hand := before ++ (inHand q.writer).toList ++ after } := by
  obtain ⟨before, after, hold, hnew⟩ := writersOn_setPort (q := q) hp havif
  have hsplit : ∀ writer : Writer, (before ++ writer :: after).filterMap inHand =
      before.filterMap inHand ++ (inHand writer).toList ++ after.filterMap inHand := by
    intro writer
    cases h : inHand writer <;> simp [h]
  refine ⟨before.filterMap inHand, after.filterMap inHand, ?_, ?_, ?_⟩
  · have hbefore := List.length_filterMap_le inHand before
    have hafter := List.length_filterMap_le inHand after
    rw [hold, List.length_append, List.length_append, List.length_cons]
    omega
  · rw [pipe, hold, hsplit]
  · simp only [pipe, handedOn_setPort hp havif, hnew, hsplit]
    rfl

theorem pipe_setPort_same (link : Nat) (hp : k.ports[port]? = some p) (havif : q.avif = p.avif)
    (hhand : inHand q.writer = inHand p.writer) : pipe (k.setPort port q) link = pipe k link := by
  by_cases hl : p.avif.id = link
  · subst hl
    obtain ⟨before, after, -, hold, hnew⟩ := pipe_setPort (q := q) hp havif
    rw [hnew, hhand, ← hold]
  · exact pipe_setPort_of_ne hp havif hl

theorem pipe_writerLoop (h : (outbox k).Ledger)
    (hp : k.ports[port]? = some p) (hspawned : p.writer = .spawned) :
    ReflTransGen (Pipe.Step lib width) (pipe k link) (pipe (k.writerLoop port p) link) := by
  unfold writerLoop
  split
  · have hset := pipe_setPort_same (q := { p with writer := .exited }) link hp rfl
      (by rw [hspawned]; rfl)
    rw [hset]
  · have hpop := pipe_onQueue h p.avif.id (.asyncPop port) (by
      intro other hother
      cases hother
      rw [linkOf_eq, hp]
      rfl) link
    rw [CoroQueue.apply] at hpop
    have hset := pipe_setPort_same (q := { p with writer := .popping })
      (k := k.onQueue p.avif.id ((k.links p.avif.id).writeQueue.asyncPop port)) link hp rfl
      (by rw [hspawned]; rfl)
    rw [hset, hpop]
    split
    · have hstep : (pipe k link).Step lib width _ := .queue (.asyncPop port)
      simpa [Pipe.onQueue] using ReflTransGen.single hstep
    · exact .refl

theorem pipe_runnerLoop (h : (outbox k).Ledger)
    (hp : k.ports[port]? = some p) :
    ReflTransGen (Pipe.Step lib width) (pipe k link) (pipe (k.runnerLoop port p) link) := by
  obtain ⟨-, heq⟩ | ⟨-, heq⟩ := runnerLoop_cases k port p
  · have hcancel := pipe_onQueue h p.avif.id .cancele (by simp) link
    have hset := pipe_setPort_same (q := { p with runner := .exited })
      (k := { k.onQueue p.avif.id (k.links p.avif.id).writeQueue.cancele with
        routing := k.routing.removeInterface (getIfname p.avif.ifname k.ifCounter).1
        ifCounter := (getIfname p.avif.ifname k.ifCounter).2 }) link hp rfl rfl
    rw [heq, hset]
    rw [CoroQueue.apply] at hcancel
    refine Eq.subst (motive := fun v => ReflTransGen (Pipe.Step lib width) (pipe k link) v)
      hcancel.symm ?_
    split
    · have hstep : (pipe k link).Step lib width _ := .queue .cancele
      simpa [Pipe.onQueue] using ReflTransGen.single hstep
    · exact .refl
  · rw [heq, pipe_setPort_same (q := { p with runner := .reading }) link hp rfl rfl]

def wroteBack (k : Kernel) (port : Nat) (p : Port) (bytes : Bytes) (handler : Option Nat)
    (written : Bool) : Kernel :=
  { k with
    trace := k.trace ++ Effect.wrote p.avif.id handler bytes written ::
      (handler.map (Effect.completed · .success)).toList }.setPort port
    { p with writer := .spawned }

theorem writerWrote_eq (k : Kernel) (port : Nat) (p : Port) (bytes : Bytes)
    (handler : Option Nat) (written : Bool) : k.writerWrote port p bytes handler written =
      (k.wroteBack port p bytes handler written).writerLoop port { p with writer := .spawned } := by
  obtain ⟨trace, hloops⟩ := writerWrote_loops k port p bytes handler written
  have htrace := writerWrote_trace k port p bytes handler written
  rw [hloops, writerLoop_trace] at htrace
  rw [hloops, wroteBack, writerLoop_spawned, ← htrace]

theorem outbox_wroteBack (hp : k.ports[port]? = some p)
    (hwriting : p.writer = .writing bytes handler) (written : Bool) :
    (outbox k).Step (outbox (k.wroteBack port p bytes handler written)) := by
  have hat := writers_at hp
  rw [hwriting] at hat
  have hbook : (k.trace ++ Effect.wrote p.avif.id handler bytes written ::
        (handler.map (Effect.completed · .success)).toList).filterMap entryOf =
      (outbox k).book ++ handler.toList.flatMap fun send =>
        [.wrote p.avif.id send, .completed send .success] := by
    cases handler <;> simp [outbox, entryOf, List.filterMap_cons]
  have hstep := Outbox.Step.wrote hat
  rw [← hbook] at hstep
  rw [wroteBack, outbox_setPort]
  exact hstep

theorem pipe_wroteBack (hp : k.ports[port]? = some p)
    (hwriting : p.writer = .writing bytes handler) (written : Bool) :
    ReflTransGen (Pipe.Step lib width) (pipe k link)
      (pipe (k.wroteBack port p bytes handler written) link) := by
  have htrace : pipe { k with
      trace := k.trace ++ Effect.wrote p.avif.id handler bytes written ::
        (handler.map (Effect.completed · .success)).toList } link =
      { pipe k link with
        wrote := (pipe k link).wrote ++
          (wroteOn link (.wrote p.avif.id handler bytes written)).toList } := by
    simp only [pipe, Pipe.mk.injEq, List.filterMap_append]
    refine ⟨trivial, trivial, rfl, ?_, ?_⟩
    · cases handler <;> simp [List.filterMap_cons, enqueuedOn]
    · cases handler <;> by_cases hl : p.avif.id = link <;>
        simp [List.filterMap_cons, wroteOn, hl]
  by_cases hl : p.avif.id = link
  · subst hl
    obtain ⟨before, after, -, hold, hnew⟩ := pipe_setPort (q := { p with writer := .spawned })
      (k := { k with
        trace := k.trace ++ Effect.wrote p.avif.id handler bytes written ::
          (handler.map (Effect.completed · .success)).toList }) hp rfl
    rw [htrace] at hold hnew
    rw [wroteBack, hnew]
    have hhand : (pipe k p.avif.id).hand = before ++ (bytes, handler) :: after := by
      have hhand : (pipe k p.avif.id).hand = before ++ (inHand p.writer).toList ++ after := hold
      rw [hhand, hwriting]
      simp [inHand]
    have hstep : (pipe k p.avif.id).Step lib width _ := .wrote hhand
    simpa [wroteOn, inHand] using ReflTransGen.single hstep
  · have hset := pipe_setPort_of_ne (q := { p with writer := .spawned })
      (k := { k with
        trace := k.trace ++ Effect.wrote p.avif.id handler bytes written ::
          (handler.map (Effect.completed · .success)).toList }) hp rfl hl
    rw [wroteBack, hset, htrace]
    simpa [wroteOn, hl] using ReflTransGen.refl

theorem pipe_writerWrote (h : (outbox k).Ledger)
    (hp : k.ports[port]? = some p) (hwriting : p.writer = .writing bytes handler)
    (written : Bool) :
    ReflTransGen (Pipe.Step lib width) (pipe k link)
      (pipe (k.writerWrote port p bytes handler written) link) := by
  have hlt : port < k.ports.length := (List.getElem?_eq_some_iff.mp hp).1
  rw [writerWrote_eq]
  refine (pipe_wroteBack hp hwriting written).trans ?_
  exact pipe_writerLoop (h.step (outbox_wroteBack hp hwriting written))
    (by simp [wroteBack, setPort, hlt]) rfl

theorem pipe_posted (hposted : k.posted = completion :: rest) (link : Nat) :
    pipe { k with posted := rest } link = { pipe k link with
      handed := rest.filterMap (handedOn k.ports link) } ∧
    (pipe k link).handed = (handedOn k.ports link completion).toList ++
      rest.filterMap (handedOn k.ports link) := by
  refine ⟨rfl, ?_⟩
  rw [pipe, hposted, List.filterMap_cons]
  cases handedOn k.ports link completion <;> rfl

theorem pipe_runPosted (hledger : (outbox k).Ledger)
    (hwidth : (k.writersOn link).length ≤ width) (h : runPosted lib k = .ok k') :
    ReflTransGen (Pipe.Step lib width) (pipe k link) (pipe k' link) := by
  -- a completion that hands the writers of this link nothing
  have hother : ∀ completion rest, k.posted = completion :: rest →
      handedOn k.ports link completion = none → pipe { k with posted := rest } link =
        pipe k link := by
    intro completion rest hposted hnone
    obtain ⟨heq, hhanded⟩ := pipe_posted hposted link
    rw [hnone] at hhanded
    rw [heq, ← hhanded.trans (List.nil_append _)]
  obtain ⟨-, rfl⟩ | ⟨port, ec, value, rest, hposted, ⟨hnone, rfl⟩ | ⟨p, hp, ⟨hec, rfl⟩ |
    ⟨bytes, rfl, hbytes, rfl⟩⟩⟩ | ⟨call, ec, value, rest, hposted, rfl⟩ := runPosted_cases h
  · exact .refl
  · rw [hother _ _ hposted (by cases ec <;> simp [handedOn, hnone])]
  · have hpopping := popping_of_posted hledger hp (by rw [hposted]; exact List.mem_cons_self)
    have hset := pipe_setPort_same (k := { k with posted := rest })
      (q := { p with writer := .exited }) link hp rfl (by rw [hpopping]; rfl)
    have hfailed : handedOn k.ports link (.popped port ec value) = none := by
      cases ec with
      | success => exact absurd rfl hec
      | _ => rfl
    rw [hset, hother _ _ hposted hfailed]
  · have hpopping := popping_of_posted hledger hp (by rw [hposted]; exact List.mem_cons_self)
    by_cases hl : p.avif.id = link
    · subst hl
      obtain ⟨before, after, hlt, hold, hnew⟩ := pipe_setPort (k := { k with posted := rest })
        (q := { p with writer := .writing bytes value.2 }) hp rfl
      obtain ⟨hrest, hhanded⟩ := pipe_posted hposted p.avif.id
      have hvalue : handedOn k.ports p.avif.id (.popped port .success value) = some value := by
        simp [handedOn, hp]
      rw [hvalue] at hhanded
      have hframe : frameOf lib value = .ok (bytes, value.2) := by
        rw [frameOf, hbytes]
        rfl
      have hhand : (pipe k p.avif.id).hand = before ++ after := by
        have hhand : (pipe k p.avif.id).hand = before ++ (inHand p.writer).toList ++ after := hold
        rw [hhand, hpopping]
        simp [inHand]
      have hstep : (pipe k p.avif.id).Step lib width _ :=
        .take hhanded hframe hhand (by rw [hhand]; exact Nat.lt_of_lt_of_le hlt hwidth)
      rw [hnew, hrest]
      simpa [inHand] using ReflTransGen.single hstep
    · have hset := pipe_setPort_of_ne (k := { k with posted := rest })
        (q := { p with writer := .writing bytes value.2 }) hp rfl hl
      rw [hset, hother _ _ hposted (by simp [handedOn, hp, hl])]
  · have hnone : pipe ({ k with posted := rest }.record (.received call ec value.1 value.2)) link =
        pipe { k with posted := rest } link := pipe_record_other rfl rfl
    rw [hnone, hother _ _ hposted rfl]

end

theorem port_of_posted (h : (outbox k).Ledger) (hm : .popped port ec value ∈ k.posted) :
    port < k.ports.length := by
  have hpop : (port, if ec = .success then value.2 else none) ∈ (outbox k).pops :=
    List.mem_filterMap.mpr ⟨_, hm, rfl⟩
  have hsome := h.handed _ hpop
  rw [linkOf_eq] at hsome
  by_contra hlt
  rw [List.getElem?_eq_none (Nat.le_of_not_lt hlt)] at hsome
  cases hsome

theorem pipe_addInterface (h : (outbox k).Ledger) (avif : Avif) (link : Nat) :
    pipe (k.addInterface avif) link = pipe k link := by
  have hhanded : k.posted.filterMap (handedOn (k.addInterface avif).ports link) =
      k.posted.filterMap (handedOn k.ports link) := by
    refine List.filterMap_congr fun completion hm => ?_
    cases completion with
    | popped port ec value =>
      have hlt := port_of_posted h hm
      cases ec with
      | success => simp only [handedOn, Kernel.addInterface, List.getElem?_append_left hlt]
      | _ => rfl
    | received call ec value => rfl
  have hhand : ((k.addInterface avif).writersOn link).filterMap inHand =
      (k.writersOn link).filterMap inHand := by
    by_cases hl : avif.id = link
    · simp [writersOn, Kernel.addInterface, hl, inHand]
    · simp [writersOn, Kernel.addInterface, hl]
  rw [pipe, hhand]
  exact congrArg (Pipe.mk _ · _ _ _) hhanded

theorem pipe_quit (k : Kernel) (link other : Nat) : pipe (k.quit other) link = pipe k link := by
  by_cases hl : link = other
  · simp [pipe, Kernel.quit, hl, writersOn]
  · simp [pipe, Kernel.quit, hl, writersOn]

theorem handedOn_receivedOf (ports : List Port) (link : Nat)
    (c : Posted (Bytes × Bytes) Nat Empty) : handedOn ports link (receivedOf c) = none := by
  cases c with
  | pop call ec value => rfl
  | wait handler ec => exact handler.elim

theorem pipe_asyncRecvfrom (k : Kernel) (link : Nat) : pipe k.asyncRecvfrom link = pipe k link := by
  simp [pipe, Kernel.asyncRecvfrom, writersOn, handedOn_receivedOf]

theorem pipe_pushReceived (k : Kernel) (sender payload : Bytes) (link : Nat) :
    pipe (k.pushReceived sender payload) link = pipe k link := by
  rw [pushReceived, pipe_record_other rfl rfl]
  simp [pipe, writersOn, handedOn_receivedOf]

/-- Every move of the kernel is a sequence of things that can happen to the
pipe of an interface. -/
theorem move_pipe (hledger : (outbox k).Ledger) (hwidth : (k.writersOn link).length ≤ width)
    (h : Move lib k k') : ReflTransGen (Pipe.Step lib width) (pipe k link) (pipe k' link) := by
  cases h with
  | addInterface avif => rw [pipe_addInterface hledger]
  | call hcall => exact pipe_asyncSendto hledger hcall link
  | asyncRecvfrom => rw [pipe_asyncRecvfrom]
  | quit other => rw [pipe_quit]
  | runner hp => exact pipe_runnerLoop hledger hp
  | reply avif target => exact pipe_asyncInterfaceWritePacket hledger _ _ _ link
  | push sender payload => rw [pipe_pushReceived]
  | forward avif packet => exact pipe_asyncInterfaceWritePacket hledger _ _ _ link
  | resume hw hres => exact pipe_sendOrAsk hledger hres _ link
  | writer hp hspawned => exact pipe_writerLoop hledger hp hspawned
  | wrote written hp hwriting => exact pipe_writerWrote hledger hp hwriting written
  | posted hposted => exact pipe_runPosted hledger hwidth hposted
  | _ => exact .refl

-- ---------------------------------------------------------------------------
-- Whole runs
-- ---------------------------------------------------------------------------

structure Conserving (lib : Libs) (k : Kernel) : Prop where
  ledger : (outbox k).Ledger
  conserved : ∀ link, (pipe k link).Conserved lib

theorem conserving_initial : Conserving lib initial :=
  ⟨Outbox.ledger_initial, fun _ => ⟨CoroQueue.settled_empty, List.Perm.nil⟩⟩

theorem Conserving.move (h : Conserving lib k) (hmove : Move lib k k') : Conserving lib k' := by
  constructor
  · have hsteps := move_outbox hmove
    generalize outbox k' = o at hsteps ⊢
    induction hsteps with
    | refl => exact h.ledger
    | tail _ hstep ih => exact ih.step hstep
  · intro link
    have hsteps := move_pipe h.ledger (Nat.le_refl (k.writersOn link).length) hmove
    have hbefore := h.conserved link
    generalize pipe k' link = p at hsteps ⊢
    induction hsteps with
    | refl => exact hbefore
    | tail _ hstep ih => exact ih.step hstep

end Avim.Kernel
