import Avim.Keys
import Avim.Pipes

/-!
# What becomes of packets when an interface shuts down

A writer that finds its interface quitting, or whose pop was cancelled, leaves
without looking at the queue, and nobody else empties it: a packet that is still
in there is never written and its handler never invoked, be it the packet of a
call, a question or an answer, or one that is passed on. `flushed` says when
that does not happen.
-/

namespace Avim.Kernel

open Lib.Octets

variable {lib : Libs} {k k' : Kernel}

-- ---------------------------------------------------------------------------
-- Calls are somewhere
-- ---------------------------------------------------------------------------

/-- The call enqueued its packet, or gave up. -/
def settles (send : Nat) : Effect → Bool
  | .enqueued _ (.data other) _ => other = send
  | .completed other .networkUnreachable => other = send
  | _ => false

def tally (k : Kernel) (send : Nat) : Nat :=
  k.waiters.countP (fun w => decide (w.op.send = send)) + k.trace.countP (settles send)

/-- Every call that was made waits for a key, or enqueued its packet, or gave
up: one of these, and once. -/
def Tallied (k : Kernel) : Prop := ∀ send, tally k send = if send < k.sends then 1 else 0

theorem tallied_initial : Tallied initial := fun _ => rfl

theorem tally_of_quiet (hwaiters : k'.waiters = k.waiters) (htrace : k'.trace = k.trace ++ new)
    (hnew : ∀ effect ∈ new, settles send effect = false) : tally k' send = tally k send := by
  have hzero : new.countP (settles send) = 0 := by
    rw [List.countP_eq_zero]
    intro effect heffect
    simp [hnew effect heffect]
  rw [tally, tally, hwaiters, htrace, List.countP_append, hzero, Nat.add_zero]

theorem Tallied.quiet (h : Tallied k) (hwaiters : k'.waiters = k.waiters)
    (hsends : k'.sends = k.sends) (htrace : k'.trace = k.trace ++ new)
    (hnew : ∀ send, ∀ effect ∈ new, settles send effect = false) : Tallied k' := by
  intro send
  rw [tally_of_quiet hwaiters htrace (hnew send), hsends]
  exact h send

theorem tally_sendOrAsk (h : sendOrAsk lib k op now = .ok k') (send : Nat) :
    tally k' send = tally k send + if op.send = send then 1 else 0 := by
  obtain ⟨key, avif, second, -, -, rfl⟩ | ⟨avif, -, -, -, rfl⟩ | ⟨-, -, rfl⟩ := sendOrAsk_cases h
  · simp [tally, asyncInterfaceWritePacket, Kernel.onQueue, record, List.countP_append, settles,
      List.countP_singleton, Nat.add_assoc]
  · simp [tally, asyncSendAgmpPkask, asyncInterfaceWritePacket, Kernel.onQueue, record,
      List.countP_append, settles, List.countP_singleton, Nat.add_right_comm]
  · simp [tally, record, List.countP_append, settles, List.countP_singleton, Nat.add_assoc]

theorem Tallied.call (h : Tallied k) (hcall : asyncSendto lib k target data now = .ok k') :
    Tallied k' := by
  have htally : ∀ send, tally k' send = tally k send + if k.sends = send then 1 else 0 := by
    intro send
    obtain ⟨-, rfl⟩ | ⟨interface, -, hsend⟩ := asyncSendto_cases hcall
    · simp [tally, record, List.countP_append, settles, List.countP_singleton, Nat.add_assoc]
    · exact tally_sendOrAsk hsend send
  obtain ⟨-, -, -, hsends⟩ := asyncSendto_same hcall
  intro send
  rw [htally, h send, hsends]
  split <;> split <;> split <;> omega

theorem Tallied.resume (h : Tallied k) (hw : k.waiters[i]? = some w)
    (hres : sendOrAsk lib k w.op now = .ok resumed) :
    Tallied { resumed with waiters := resumed.waiters.eraseIdx i } := by
  obtain ⟨-, -, -, hsends⟩ := sendOrAsk_same hres
  -- the call may have asked again, which put it behind the others
  have hat : resumed.waiters[i]? = some w := by
    have hlt := (List.getElem?_eq_some_iff.mp hw).1
    obtain ⟨key, avif, second, -, -, rfl⟩ | ⟨avif, -, -, -, rfl⟩ | ⟨-, -, rfl⟩ :=
      sendOrAsk_cases hres
    · exact hw
    · exact (List.getElem?_append_left hlt).trans hw
    · exact hw
  obtain ⟨hlt, hget⟩ := List.getElem?_eq_some_iff.mp hat
  intro send
  have htally := tally_sendOrAsk hres send
  have hcount := (List.getElem_cons_eraseIdx_perm hlt).countP_eq
    (fun w => decide (w.op.send = send))
  rw [hget, List.countP_cons] at hcount
  simp only [decide_eq_true_eq] at hcount
  have hsplit : tally { resumed with waiters := resumed.waiters.eraseIdx i } send =
      (resumed.waiters.eraseIdx i).countP (fun w => decide (w.op.send = send)) +
        resumed.trace.countP (settles send) := rfl
  rw [tally] at htally
  rw [hsplit, hsends, ← h send]
  omega

theorem Tallied.move (h : Tallied k) (hmove : Move lib k k') : Tallied k' := by
  cases hmove with
  | call hcall => exact h.call hcall
  | resume hw hres => exact h.resume hw hres
  | posted hposted =>
    obtain ⟨-, -, hwaiters, hsends⟩ := runPosted_same hposted
    obtain ⟨-, rfl⟩ | ⟨port, ec, value, rest, -, ⟨-, rfl⟩ | ⟨p, -, ⟨-, rfl⟩ |
      ⟨bytes, -, -, rfl⟩⟩⟩ | ⟨call, ec, value, rest, -, rfl⟩ := runPosted_cases hposted
    · exact h
    · exact h
    · exact h
    · exact h
    · exact h.quiet rfl rfl rfl (by simp [settles])
  | @writer port p _ _ =>
    obtain ⟨-, -, hwaiters, hsends⟩ := writerLoop_same k port p
    have htrace : (k.writerLoop port p).trace = k.trace ++ [] := by simp
    exact h.quiet hwaiters hsends htrace (by simp)
  | @wrote port p bytes handler written _ _ =>
    obtain ⟨-, -, hwaiters, hsends⟩ := writerWrote_same k port p bytes handler written
    refine h.quiet hwaiters hsends (writerWrote_trace k port p bytes handler written) ?_
    intro send
    cases handler <;> simp [settles]
  | @runner port p _ =>
    obtain ⟨-, heq⟩ | ⟨-, heq⟩ := runnerLoop_cases k port p
    · rw [heq]
      exact h
    · rw [heq]
      exact h
  | reply avif target => exact h.quiet rfl rfl rfl (by simp [settles])
  | push sender payload => exact h.quiet rfl rfl rfl (by simp [settles])
  | forward avif packet => exact h.quiet rfl rfl rfl (by simp [settles])
  | _ => exact h

-- ---------------------------------------------------------------------------
-- Shutdowns
-- ---------------------------------------------------------------------------

def tellings (trace : List Effect) (send : Nat) : List ErrorCode :=
  trace.filterMap fun
    | .completed other ec => if other = send then some ec else none
    | _ => none

/-- The interface had writers, and they have all exited. -/
def WritersExited (k : Kernel) (link : Nat) : Prop :=
  (∃ p ∈ k.ports, p.avif.id = link) ∧ ∀ p ∈ k.ports, p.avif.id = link → p.writer = .exited

/-- A handler that was invoked: for which frame, whether that was written whole
and what the handler was told. -/
structure HandlerCall where
  framed : Bytes × Option Nat
  written : Bool
  ec : ErrorCode
  deriving DecidableEq, Repr

/-- Back from `async_write_packet` the writer invokes the handler that came with
the packet, with the error code it is left with. -/
def handlerCallOn (link : Nat) : Effect → Option HandlerCall
  | .wrote other handler bytes written =>
    if other = link then
      some ⟨(bytes, handler), written, (asyncWritePacketResult written .success).2⟩
    else none
  | _ => none

def handlerCalls (k : Kernel) (link : Nat) : List HandlerCall :=
  k.trace.filterMap (handlerCallOn link)

/-- The handlers of the pairs that were ever put into the write queue have been
invoked, each once, and of success only if the packet was written. A call has
been told what its handler was. -/
structure FlushedOn (lib : Libs) (k : Kernel) (link : Nat) : Prop where
  invoked : ((k.trace.filterMap (enqueuedOn link)).map (frameOf lib)).Perm
    ((k.handlerCalls link).map fun i => .ok i.framed)
  honest : ∀ i ∈ k.handlerCalls link, i.ec = .success → i.written = true
  told : ∀ send packet, .enqueued link (.data send) packet ∈ k.trace →
    ∃ ec, tellings k.trace send = [ec] ∧ (ec = .success → Written lib k send)

def Flushed (lib : Libs) (k : Kernel) : Prop :=
  ∀ link, WritersExited k link → FlushedOn lib k link

/-- The port whose writer leaves at the event, if there is one. -/
def leaving (k : Kernel) : Event → Option Nat
  | .startWriter port =>
    match k.ports[port]? with
    | some p => if p.writer = .spawned ∧ (k.links p.avif.id).quitting then some port else none
    | none => none
  | .writeDone port _ =>
    match k.ports[port]? with
    | some ⟨avif, _, .writing _ _⟩ => if (k.links avif.id).quitting then some port else none
    | _ => none
  | .runPosted =>
    match k.posted with
    | .popped port ec _ :: _ => if ec ≠ .success then some port else none
    | _ => none
  | _ => none

def enqueuedAt : Effect → Option Nat
  | .enqueued link _ _ => some link
  | _ => none

def writeFails (k : Kernel) : Event → Bool
  | .writeDone port false =>
    match k.ports[port]? with
    | some ⟨_, _, .writing _ _⟩ => true
    | _ => false
  | _ => false

/-- The step leaves no packet behind. -/
structure Clean (k : Kernel) (event : Event) (k' : Kernel) : Prop where
  unfailed : writeFails k event = false
  -- the last writer of an interface leaves an empty queue
  emptied : ∀ port ∈ leaving k event, ∀ p ∈ k.ports[port]?,
    (∀ q ∈ k.ports.eraseIdx port, q.avif.id = p.avif.id → q.writer = .exited) →
    (k.links p.avif.id).writeQueue.list = []
  -- what is enqueued is enqueued where there still is a writer
  staffed : ∀ effect ∈ k'.trace.drop k.trace.length, ∀ link ∈ enqueuedAt effect,
    ∃ p ∈ k.ports, p.avif.id = link ∧ p.writer ≠ .exited

-- ---------------------------------------------------------------------------
-- Writers that leave
-- ---------------------------------------------------------------------------

structure Stays (k k' : Kernel) : Prop where
  length : k'.ports.length = k.ports.length
  writers : ∀ (port : Nat) p q, k.ports[port]? = some p → k'.ports[port]? = some q →
    q.avif = p.avif ∧ (q.writer = .exited → p.writer = .exited)

theorem stays_of_same (h : k'.ports = k.ports) : Stays k k' := by
  refine ⟨by rw [h], ?_⟩
  intro port p q hp hq
  rw [h, hp] at hq
  cases hq
  exact ⟨rfl, fun hexited => hexited⟩

theorem stays_of_set (hp : k.ports[port]? = some p) (h : k'.ports = k.ports.set port q)
    (havif : q.avif = p.avif) (hwriter : q.writer = .exited → p.writer = .exited) :
    Stays k k' := by
  refine ⟨by rw [h, List.length_set], ?_⟩
  intro other x y hx hy
  rw [h] at hy
  by_cases ho : port = other
  · have hlt : port < k.ports.length := (List.getElem?_eq_some_iff.mp hp).1
    rw [← ho, List.getElem?_set_self hlt] at hy
    rw [← ho, hp] at hx
    cases hx
    cases hy
    exact ⟨havif, hwriter⟩
  · rw [List.getElem?_set_ne ho, hx] at hy
    cases hy
    exact ⟨rfl, fun hexited => hexited⟩

structure LeavesAt (k k' : Kernel) (port : Nat) (p : Port) : Prop where
  found : k.ports[port]? = some p
  links : k'.links = k.links
  ports : k'.ports = k.ports.set port { p with writer := .exited }

theorem writerLoop_stays (hp : k.ports[port]? = some p) :
    ((k.links p.avif.id).quitting = true ∧ LeavesAt k (k.writerLoop port p) port p) ∨
      Stays k (k.writerLoop port p) := by
  unfold writerLoop
  split
  · rename_i hq
    exact .inl ⟨hq, hp, rfl, rfl⟩
  · exact .inr (stays_of_set hp (q := { p with writer := .popping }) rfl rfl (by simp))

theorem runnerLoop_stays (hp : k.ports[port]? = some p) : Stays k (k.runnerLoop port p) := by
  obtain ⟨-, heq⟩ | ⟨-, heq⟩ := runnerLoop_cases k port p
  · rw [heq]
    exact stays_of_set hp (q := { p with runner := .exited }) rfl rfl (fun h => h)
  · rw [heq]
    exact stays_of_set hp (q := { p with runner := .reading }) rfl rfl (fun h => h)

theorem runnerRead_stays (hp : k.ports[port]? = some p) (packet : Option AvPacket) :
    Stays k (k.runnerRead port p packet) := by
  obtain ⟨spawned, links, hloops⟩ := runnerRead_loops k port p packet
  rw [hloops]
  obtain ⟨hlength, hwriters⟩ :=
    runnerLoop_stays (k := { k with spawned := spawned, links := links }) hp
  exact ⟨hlength, hwriters⟩

theorem writerWrote_stays (hp : k.ports[port]? = some p) (bytes : Bytes) (handler : Option Nat)
    (written : Bool) :
    ((k.links p.avif.id).quitting = true ∧
      LeavesAt k (k.writerWrote port p bytes handler written) port p) ∨
    Stays k (k.writerWrote port p bytes handler written) := by
  obtain ⟨trace, hloops⟩ := writerWrote_loops k port p bytes handler written
  rw [hloops]
  obtain ⟨hq, hleaves⟩ | hstays := writerLoop_stays (k := { k with trace := trace }) hp
  · exact .inl ⟨hq, hp, hleaves.links, hleaves.ports⟩
  · exact .inr ⟨hstays.length, hstays.writers⟩

theorem step_ports (h : step lib k event = .ok k') :
    (∃ port p, leaving k event = some port ∧ LeavesAt k k' port p) ∨
    (∃ avif, k'.ports = k.ports ++ [⟨avif, .spawned, .spawned⟩]) ∨ Stays k k' := by
  cases step_does h with
  | addInterface avif => exact .inr (.inl ⟨avif, rfl⟩)
  | asyncSendto hcall => exact .inr (.inr (stays_of_same (asyncSendto_same hcall).2.2.1))
  | startRunner hp _ => exact .inr (.inr (runnerLoop_stays hp))
  | read packet hp _ => exact .inr (.inr (runnerRead_stays hp packet))
  | process _ hprocess =>
    exact .inr (.inr (stays_of_same (processRecivedPacket_same hprocess).2))
  | @startWriter port p hp hspawned =>
    obtain ⟨hq, hleaves⟩ | hstays := writerLoop_stays hp
    · exact .inl ⟨port, p, by simp [leaving, hp, hspawned, hq], hleaves⟩
    · exact .inr (.inr hstays)
  | @writeDone port p bytes handler written hp hwriting =>
    obtain ⟨hq, hleaves⟩ | hstays := writerWrote_stays hp bytes handler written
    · obtain ⟨avif, runner, writer⟩ := p
      cases hwriting
      exact .inl ⟨port, _, by simp [leaving, hp, hq], hleaves⟩
    · exact .inr (.inr hstays)
  | runPosted hrun =>
    obtain ⟨-, rfl⟩ | ⟨port, ec, value, rest, hposted, ⟨hnone, rfl⟩ | ⟨p, hp, ⟨hec, rfl⟩ |
      ⟨bytes, hec, -, rfl⟩⟩⟩ | ⟨call, ec, value, rest, hposted, rfl⟩ := runPosted_cases hrun
    · exact .inr (.inr (stays_of_same rfl))
    · exact .inr (.inr (stays_of_same rfl))
    · exact .inl ⟨port, p, by simp [leaving, hposted, hec], hp, rfl, rfl⟩
    · exact .inr (.inr (stays_of_set hp (q := { p with writer := .writing bytes value.2 }) rfl rfl
        (by simp)))
    · exact .inr (.inr (stays_of_same rfl))
  | timer1 hsweep => exact .inr (.inr (stays_of_same (sweep_same hsweep).2.2.1))
  | _ => exact .inr (.inr (stays_of_same rfl))

-- ---------------------------------------------------------------------------
-- What is on record stays
-- ---------------------------------------------------------------------------

theorem sendOrAsk_trace (h : sendOrAsk lib k op now = .ok k') : k.trace <+: k'.trace := by
  obtain ⟨key, avif, second, -, -, rfl⟩ | ⟨avif, -, -, -, rfl⟩ | ⟨-, -, rfl⟩ := sendOrAsk_cases h
  · exact List.prefix_append _ _
  · exact List.prefix_append _ _
  · exact List.prefix_append _ _

theorem Move.trace (h : Move lib k k') : k.trace <+: k'.trace := by
  cases h with
  | call hcall =>
    obtain ⟨-, rfl⟩ | ⟨interface, -, hsend⟩ := asyncSendto_cases hcall
    · exact List.prefix_append _ _
    · exact sendOrAsk_trace (k := { k with sends := k.sends + 1 }) hsend
  | runner hp => rw [runnerLoop_trace]
  | reply avif target => exact List.prefix_append _ _
  | push sender payload => exact List.prefix_append _ _
  | forward avif packet => exact List.prefix_append _ _
  | @resume i w now resumed _ hres =>
    have htrace : k.trace <+: resumed.trace := sendOrAsk_trace hres
    exact htrace
  | writer hp hspawned => rw [writerLoop_trace]
  | wrote written hp hwriting =>
    rw [writerWrote_trace]
    exact List.prefix_append _ _
  | posted hposted =>
    obtain ⟨-, rfl⟩ | ⟨port, ec, value, rest, -, ⟨-, rfl⟩ | ⟨p, -, ⟨-, rfl⟩ | ⟨bytes, -, -, rfl⟩⟩⟩ |
      ⟨call, ec, value, rest, -, rfl⟩ := runPosted_cases hposted
    · exact List.prefix_refl _
    · exact List.prefix_refl _
    · exact List.prefix_refl _
    · exact List.prefix_refl _
    · exact List.prefix_append _ _
  | _ => exact List.prefix_refl _

theorem step_trace (h : step lib k event = .ok k') : k.trace <+: k'.trace :=
  step_keeps (I := fun k' => k.trace <+: k'.trace) (fun _ _ hmove hk => hk.trans hmove.trace) h
    (List.prefix_refl _)

-- ---------------------------------------------------------------------------
-- Nothing left behind
-- ---------------------------------------------------------------------------

def Drained (k : Kernel) : Prop :=
  ∀ link, WritersExited k link → (k.links link).writeQueue.list = []

theorem drained_initial : Drained initial := fun _ _ => rfl

theorem WritersExited.outbox (h : WritersExited k link) : (outbox k).Exited link := by
  intro w hw hlink
  obtain ⟨p, hp, rfl⟩ := List.mem_map.mp hw
  exact h.2 p hp hlink

theorem entryOf_enqueued (h : entryOf effect = some (.enqueued link send)) :
    ∃ packet, effect = .enqueued link (.data send) packet := by
  cases effect with
  | enqueued l cause packet =>
    cases cause with
    | data other =>
      cases h
      exact ⟨packet, rfl⟩
    | _ => cases h
  | wrote l handler bytes written => cases handler <;> cases h
  | _ => cases h

theorem entryOf_completed (h : entryOf effect = some (.completed send ec)) :
    effect = .completed send ec := by
  cases effect with
  | completed other told =>
    cases h
    rfl
  | enqueued l cause packet => cases cause <;> cases h
  | wrote l handler bytes written => cases handler <;> cases h
  | _ => cases h

theorem mem_book : .enqueued link send ∈ (outbox k).book ↔
    ∃ packet, .enqueued link (.data send) packet ∈ k.trace := by
  constructor
  · intro h
    obtain ⟨effect, heffect, hentry⟩ := List.mem_filterMap.mp h
    obtain ⟨packet, rfl⟩ := entryOf_enqueued hentry
    exact ⟨packet, heffect⟩
  · rintro ⟨packet, h⟩
    exact List.mem_filterMap.mpr ⟨_, h, rfl⟩

theorem Tallied.settles_le (h : Tallied k) (send : Nat) : k.trace.countP (settles send) ≤ 1 := by
  have htally := h send
  rw [tally] at htally
  split at htally
  · omega
  · omega

theorem Tallied.count_le (h : Tallied k) (send : Nat)
    (hentry : ∀ effect, entryOf effect = some entry → settles send effect = true) :
    (outbox k).book.count entry ≤ 1 := by
  refine le_trans ?_ (h.settles_le send)
  rw [List.count, outbox, List.countP_filterMap]
  refine List.countP_mono_left ?_
  intro effect _ heffect
  refine hentry effect ?_
  cases hof : entryOf effect with
  | none => simp [hof] at heffect
  | some other => simpa [hof] using heffect

theorem Tallied.enqueued_le (h : Tallied k) (link send : Nat) :
    (outbox k).book.count (.enqueued link send) ≤ 1 := by
  refine h.count_le send fun effect hentry => ?_
  obtain ⟨packet, rfl⟩ := entryOf_enqueued hentry
  simp [settles]

theorem Tallied.gave_le (h : Tallied k) (send : Nat) :
    (outbox k).book.count (.completed send .networkUnreachable) ≤ 1 := by
  refine h.count_le send fun effect hentry => ?_
  obtain rfl := entryOf_completed hentry
  simp [settles]

theorem WritersExited.idle (h : WritersExited k link) (hk : (Kernel.outbox k).Ledger) :
    (pipe k link).hand = [] ∧ (pipe k link).handed = [] := by
  constructor
  · refine List.filterMap_eq_nil_iff.mpr fun writer hw => ?_
    obtain ⟨p, hp, rfl⟩ := List.mem_map.mp hw
    obtain ⟨hmem, hlink⟩ := List.mem_filter.mp hp
    rw [h.2 p hmem (by simpa using hlink)]
    rfl
  · refine List.filterMap_eq_nil_iff.mpr fun completion hm => ?_
    cases completion with
    | received call ec value => rfl
    | popped port ec value =>
      cases ec with
      | success =>
        refine if_neg fun hlink => ?_
        obtain ⟨p, hp, hid⟩ := Option.map_eq_some_iff.mp hlink
        have hexited := h.2 p (List.mem_of_getElem? hp) hid
        rw [popping_of_posted hk hp hm] at hexited
        cases hexited
      | _ => rfl

theorem Conserving.length_enqueued (h : Conserving lib k) (hexited : WritersExited k link) :
    (pipe k link).enqueued.length =
      (pipe k link).wrote.length + (k.links link).writeQueue.list.length := by
  obtain ⟨hhand, hhanded⟩ := hexited.idle h.ledger
  have hlength := (h.conserved link).balance.length_eq
  rw [hhand, hhanded, List.append_nil, List.nil_append, List.length_append, List.length_map,
    List.length_map, List.length_map] at hlength
  exact hlength

theorem drained_of_unfed (h : Conserving lib k) (h' : Conserving lib k')
    (htrace : k.trace <+: k'.trace)
    (hnew : ∀ effect ∈ k'.trace.drop k.trace.length, enqueuedOn link effect = none)
    (hexited : WritersExited k link) (hexited' : WritersExited k' link)
    (hempty : (k.links link).writeQueue.list = []) : (k'.links link).writeQueue.list = [] := by
  obtain ⟨new, hgrown⟩ := htrace
  rw [← hgrown, List.drop_left' rfl] at hnew
  have hbefore := h.length_enqueued hexited
  have hafter := h'.length_enqueued hexited'
  have henqueued : (pipe k' link).enqueued = (pipe k link).enqueued := by
    simp [pipe, ← hgrown, List.filterMap_eq_nil_iff.mpr hnew]
  have hwrote : (pipe k' link).wrote = (pipe k link).wrote ++ new.filterMap (wroteOn link) := by
    simp [pipe, ← hgrown]
  rw [henqueued, hbefore, hwrote, hempty, List.length_append, List.length_nil] at hafter
  exact List.eq_nil_of_length_eq_zero (by omega)

theorem Stays.exited (h : Stays k k') (hexited : WritersExited k' link) :
    WritersExited k link := by
  have hback : ∀ q ∈ k'.ports, ∃ p ∈ k.ports, q.avif = p.avif := by
    intro q hq
    obtain ⟨port, hat⟩ := List.mem_iff_getElem?.mp hq
    have hlt : port < k.ports.length := h.length ▸ (List.getElem?_eq_some_iff.mp hat).1
    exact ⟨k.ports[port], List.getElem_mem hlt,
      (h.writers port _ q (List.getElem?_eq_getElem hlt) hat).1⟩
  constructor
  · obtain ⟨q, hq, rfl⟩ := hexited.1
    obtain ⟨p, hp, havif⟩ := hback q hq
    exact ⟨p, hp, by rw [havif]⟩
  · intro p hp hlink
    obtain ⟨port, hat⟩ := List.mem_iff_getElem?.mp hp
    have hlt : port < k'.ports.length := h.length ▸ (List.getElem?_eq_some_iff.mp hat).1
    obtain ⟨havif, hwriter⟩ := h.writers port p _ hat (List.getElem?_eq_getElem hlt)
    exact hwriter (hexited.2 _ (List.getElem_mem hlt) (by rw [havif, hlink]))

theorem exited_of_added (h : k'.ports = k.ports ++ [⟨avif, .spawned, .spawned⟩])
    (hexited : WritersExited k' link) : WritersExited k link := by
  rw [WritersExited, h] at hexited
  obtain ⟨⟨p, hp, hlink⟩, hall⟩ := hexited
  refine ⟨⟨p, ?_, hlink⟩, fun q hq => hall q (List.mem_append_left _ hq)⟩
  rcases List.mem_append.mp hp with hold | hnew
  · exact hold
  · have hwriter := hall p hp hlink
    rw [List.mem_singleton.mp hnew] at hwriter
    cases hwriter

theorem LeavesAt.exited (h : LeavesAt k k' port p) (hexited : WritersExited k' link) :
    (link = p.avif.id ∧
      ∀ q ∈ k.ports.eraseIdx port, q.avif.id = p.avif.id → q.writer = .exited) ∨
    WritersExited k link := by
  have hother : ∀ (other : Nat) q, other ≠ port → k.ports[other]? = some q →
      q.avif.id = link → q.writer = .exited := by
    intro other q ho hq hlink
    refine hexited.2 q (List.mem_of_getElem? (i := other) ?_) hlink
    rw [h.ports, List.getElem?_set_ne (Ne.symm ho), hq]
  by_cases hlink : link = p.avif.id
  · refine .inl ⟨hlink, ?_⟩
    intro q hq hid
    obtain ⟨other, ho, hat⟩ := List.mem_eraseIdx_iff_getElem?.mp hq
    exact hother other q ho hat (hid.trans hlink.symm)
  · refine .inr ⟨?_, ?_⟩
    · obtain ⟨q, hq, rfl⟩ := hexited.1
      rw [h.ports] at hq
      rcases List.mem_or_eq_of_mem_set hq with hq | rfl
      · exact ⟨q, hq, rfl⟩
      · exact absurd rfl hlink
    · intro q hq hid
      obtain ⟨other, hat⟩ := List.mem_iff_getElem?.mp hq
      refine hother other q ?_ hat hid
      rintro rfl
      rw [h.found] at hat
      cases hat
      exact hlink hid.symm

theorem Drained.step (h : Drained k) (hk : Conserving lib k) (hk' : Conserving lib k')
    (hclean : Clean k event k') (hstep : step lib k event = .ok k') : Drained k' := by
  intro link hexited
  -- nobody was left before: what is in the queue now was enqueued for nobody
  have hstale : WritersExited k link → (k'.links link).writeQueue.list = [] := by
    intro hbefore
    refine drained_of_unfed hk hk' (step_trace hstep) ?_ hbefore hexited (h link hbefore)
    intro effect heffect
    cases effect with
    | enqueued other cause packet =>
      refine if_neg fun hlink => ?_
      obtain ⟨p, hp, hid, hwriter⟩ := hclean.staffed _ heffect other rfl
      exact hwriter (hbefore.2 p hp (hid.trans hlink))
    | _ => rfl
  obtain ⟨port, p, hleaving, hleaves⟩ | ⟨avif, hadded⟩ | hstays := step_ports hstep
  · obtain ⟨rfl, hlast⟩ | hbefore := hleaves.exited hexited
    · have hempty := hclean.emptied port hleaving p hleaves.found hlast
      rw [hleaves.links]
      exact hempty
    · exact hstale hbefore
  · exact hstale (exited_of_added hadded hexited)
  · exact hstale (hstays.exited hexited)

-- ---------------------------------------------------------------------------
-- Runs
-- ---------------------------------------------------------------------------

def Unfailing (k : Kernel) : Prop := ∀ link handler bytes, .wrote link handler bytes false ∉ k.trace

theorem Unfailing.step (h : Unfailing k) (hk : Truthful lib k) (hstep : step lib k event = .ok k')
    (hok : writeFails k event = false) : Unfailing k' := by
  by_cases hw : ∃ port written, event = .writeDone port written
  · obtain ⟨port, written, rfl⟩ := hw
    cases step_does hstep with
    | nothing => exact h
    | @writeDone _ p bytes handler _ hp hwriting =>
      obtain ⟨avif, runner, writer⟩ := p
      cases hwriting
      cases written with
      | false => simp [writeFails, hp] at hok
      | true =>
        intro link other out hm
        rw [writerWrote_trace] at hm
        rcases List.mem_append.mp hm with hold | hnew
        · exact h link other out hold
        · cases handler <;> simp at hnew
  · obtain ⟨new, hnew, hquiet⟩ := (step_continues hk.accounted hstep fun port written he =>
      hw ⟨port, written, he⟩).quiet
    intro link handler bytes hm
    rw [hnew] at hm
    rcases List.mem_append.mp hm with hold | hadded
    · exact h link handler bytes hold
    · exact hquiet _ hadded

theorem not_sendFails (h : writeFails k event = false) : ¬ SendFails k event := by
  rintro ⟨port, ⟨avif, runner, writer⟩, bytes, send, rfl, hp, hwriting⟩
  cases hwriting
  simp [writeFails, hp] at h

structure Orderly (lib : Libs) (k : Kernel) : Prop where
  conserving : Conserving lib k
  tallied : Tallied k
  drained : Drained k
  truthful : Truthful lib k
  unfailing : Unfailing k

theorem orderly_initial : Orderly lib initial :=
  ⟨conserving_initial, tallied_initial, drained_initial, truthful_initial, fun _ _ _ => nofun⟩

theorem Orderly.step (h : Orderly lib k) (hstep : step lib k event = .ok k')
    (hclean : Clean k event k') : Orderly lib k' := by
  have hconserving : Conserving lib k' :=
    step_keeps (fun _ _ hmove hk => hk.move hmove) hstep h.conserving
  exact ⟨hconserving, step_keeps (fun _ _ hmove hk => hk.move hmove) hstep h.tallied,
    h.drained.step h.conserving hconserving hclean hstep,
    h.truthful.step hstep (not_sendFails hclean.unfailed),
    h.unfailing.step h.truthful hstep hclean.unfailed⟩

theorem length_tellings (k : Kernel) (send : Nat) :
    (tellings k.trace send).length = (outbox k).book.countP (Outbox.tells send) := by
  rw [tellings, List.length_filterMap_eq_countP, outbox, List.countP_filterMap]
  refine List.countP_congr fun effect _ => ?_
  cases effect with
  | completed other ec =>
    by_cases ho : other = send
    · simp [entryOf, Outbox.tells, ho]
    · simp [entryOf, Outbox.tells, ho]
  | enqueued l cause packet => cases cause <;> simp [entryOf, Outbox.tells]
  | wrote l handler bytes written => cases handler <;> simp [entryOf, Outbox.tells]
  | _ => simp [entryOf]

theorem mem_tellings {effects : List Effect} (h : ec ∈ tellings effects send) :
    .completed send ec ∈ effects := by
  obtain ⟨effect, heffect, htold⟩ := List.mem_filterMap.mp h
  split at htold
  · split at htold
    · rename_i ho
      cases htold
      rw [← ho]
      exact heffect
    · cases htold
  · cases htold

theorem Tallied.alone (h : Tallied k) (henq : .enqueued link (.data send) packet ∈ k.trace)
    (heffect : effect ∈ k.trace) (hsettles : settles send effect = true) :
    effect = .enqueued link (.data send) packet := by
  have hone := h.settles_le send
  rw [List.countP_eq_length_filter] at hone
  have hmem : effect ∈ k.trace.filter (settles send) := List.mem_filter.mpr ⟨heffect, hsettles⟩
  have hmem' : .enqueued link (.data send) packet ∈ k.trace.filter (settles send) :=
    List.mem_filter.mpr ⟨henq, by simp [settles]⟩
  match hfound : k.trace.filter (settles send) with
  | [] =>
    rw [hfound] at hmem
    cases hmem
  | [only] =>
    rw [hfound, List.mem_singleton] at hmem hmem'
    rw [hmem, hmem']
  | _ :: _ :: _ =>
    rw [hfound, List.length_cons, List.length_cons] at hone
    omega

theorem writes_of_enqueued (hk : (outbox k).Ledger) (h : Tallied k)
    (henq : .enqueued link (.data send) packet ∈ k.trace) :
    (outbox k).book.countP (Outbox.writes send) = (outbox k).book.count (.wrote link send) := by
  rw [List.count]
  refine List.countP_congr fun entry hentry => ?_
  cases entry with
  | wrote l other =>
    simp only [Outbox.writes, decide_eq_true_eq, beq_iff_eq, Entry.wrote.injEq]
    refine ⟨?_, And.right⟩
    rintro rfl
    have hbalance := hk.balance l other
    have hpos := List.count_pos_iff.mpr hentry
    have henqueued : .enqueued l other ∈ (outbox k).book := by
      rw [← List.count_pos_iff]
      omega
    obtain ⟨packet', henq'⟩ := mem_book.mp henqueued
    have hsame := h.alone henq henq' (by simp [settles])
    cases hsame
    exact ⟨rfl, rfl⟩
  | _ => simp [Outbox.writes]

theorem gave_of_enqueued (h : Tallied k) (henq : .enqueued link (.data send) packet ∈ k.trace) :
    (outbox k).book.count (.completed send .networkUnreachable) = 0 := by
  rw [List.count_eq_zero]
  intro hmem
  obtain ⟨effect, heffect, hentry⟩ := List.mem_filterMap.mp hmem
  obtain rfl := entryOf_completed hentry
  have hsame := h.alone henq heffect (by simp [settles])
  cases hsame

theorem queued_of_drained (h : (k.links link).writeQueue.list = []) (send : Nat) :
    (outbox k).queued link send = 0 := by
  have hlist : ((outbox k).queue link).list = [] := h
  rw [Outbox.queued, hlist]
  rfl

theorem Orderly.told (h : Orderly lib k) (hexited : WritersExited k link)
    (henq : .enqueued link (.data send) packet ∈ k.trace) :
    ∃ ec, tellings k.trace send = [ec] ∧ (ec = .success → Written lib k send) := by
  have hledger := h.conserving.ledger
  have hempty := queued_of_drained (h.drained link hexited) send
  have hwrote : (outbox k).book.count (.wrote link send) = 1 := by
    have hbalance := hledger.exited hexited.outbox send
    have hpos := List.count_pos_iff.mpr (mem_book.mpr ⟨packet, henq⟩)
    have hle := h.tallied.enqueued_le link send
    omega
  have hwrites : (outbox k).book.countP (Outbox.writes send) = 1 := by
    rw [writes_of_enqueued hledger h.tallied henq, hwrote]
  have hgave := gave_of_enqueued h.tallied henq
  have htold := hledger.told send
  rw [hwrites, hgave, ← length_tellings] at htold
  obtain ⟨ec, hec⟩ := List.length_eq_one_iff.mp htold
  refine ⟨ec, hec, ?_⟩
  rintro rfl
  exact h.truthful.written send (mem_tellings (by simp [hec]))

theorem map_framed (k : Kernel) (link : Nat) :
    (k.handlerCalls link).map HandlerCall.framed = (pipe k link).wrote := by
  have hsame : ∀ effect, (handlerCallOn link effect).map HandlerCall.framed =
      wroteOn link effect := by
    intro effect
    cases effect with
    | wrote other handler bytes written =>
      by_cases hl : other = link
      · simp [handlerCallOn, wroteOn, hl]
      · simp [handlerCallOn, wroteOn, hl]
    | _ => rfl
  rw [handlerCalls, List.map_filterMap, pipe]
  exact List.filterMap_congr fun effect _ => hsame effect

theorem Orderly.flushedOn (h : Orderly lib k) (hexited : WritersExited k link) :
    FlushedOn lib k link := by
  refine ⟨?_, ?_, fun send packet henq => h.told hexited henq⟩
  · obtain ⟨hhand, hhanded⟩ := hexited.idle h.conserving.ledger
    have hempty : (pipe k link).queue.list = [] := h.drained link hexited
    have hbalance := (h.conserving.conserved link).balance
    rw [hhand, hhanded, hempty, List.append_nil, List.append_nil, List.map_nil, List.append_nil,
      ← map_framed, List.map_map] at hbalance
    exact hbalance
  · intro i hi _
    obtain ⟨effect, heffect, hof⟩ := List.mem_filterMap.mp hi
    cases effect with
    | wrote other handler bytes written =>
      simp only [handlerCallOn] at hof
      split at hof
      · cases hof
        cases written with
        | true => rfl
        | false => exact absurd heffect (h.unfailing other handler bytes)
      · cases hof
    | _ => cases hof

/-- In every run whose steps leave no packet behind, every handler that was put
into the write queue of an interface whose writers have exited was invoked. -/
theorem flushed (lib : Libs) (events : List Event)
    (hclean : Lib.Run.Along (step lib) Clean initial events) :
    Lib.Run.Always (step lib) (Flushed lib) initial events := by
  refine Lib.Run.always_of_along (I := Orderly lib) ?_ (fun _ hk _ hexited => hk.flushedOn hexited)
    orderly_initial hclean
  intro k event k' hstep hk hstepClean
  exact hk.step hstep hstepClean

instance instDecidableClean (k : Kernel) (event : Event) (k' : Kernel) :
    Decidable (Clean k event k') :=
  decidable_of_iff (writeFails k event = false ∧
    (∀ port ∈ leaving k event, ∀ p ∈ k.ports[port]?,
      (∀ q ∈ k.ports.eraseIdx port, q.avif.id = p.avif.id → q.writer = .exited) →
      (k.links p.avif.id).writeQueue.list = []) ∧
    (∀ effect ∈ k'.trace.drop k.trace.length, ∀ link ∈ enqueuedAt effect,
      ∃ p ∈ k.ports, p.avif.id = link ∧ p.writer ≠ .exited))
    ⟨fun ⟨h, h', h''⟩ => ⟨h, h', h''⟩, fun ⟨h, h', h''⟩ => ⟨h, h', h''⟩⟩

/-- A call's packet is being written when `rest` happens. -/
def writingRun (rest : List Event) : List Event :=
  [.addInterface (samplePeer sampleKey), .addRoute (text ".+@.+") [] (text "eth0") 100,
    .startRunner 0, .startWriter 0,
    .read 0 (some { firstContact with publickey := some (minBE sampleKey.n) }), .process 0 0,
    .asyncSendto (text "a@x") (text "hi") 1, .runPosted] ++ rest

theorem flushed_in_time :
    Lib.Run.Always (step sampleLibs) (Flushed sampleLibs) initial
        (writingRun [.writeDone 0 true, .read 0 none, .runPosted]) ∧
      (after sampleLibs (writingRun [.writeDone 0 true, .read 0 none, .runPosted])).ports.map
        (·.writer) = [.exited] :=
  ⟨flushed sampleLibs _ (by decide +kernel), by decide +kernel⟩

/-- The connection is lost while the first packet is being written: the writer
leaves, and the second call never hears of it. -/
theorem backlog_forgotten : ¬ Lib.Run.Always (step sampleLibs) (Flushed sampleLibs) initial
    (writingRun [.asyncSendto (text "a@x") (text "ho") 2, .read 0 none, .writeDone 0 true]) := by
  intro ha
  have hrun : ((writingRun [.asyncSendto (text "a@x") (text "ho") 2, .read 0 none,
      .writeDone 0 true]).foldlM (step sampleLibs) initial).map (fun k : Kernel => decide
        (((∃ p ∈ k.ports, p.avif.id = 2) ∧ ∀ p ∈ k.ports, p.avif.id = 2 → p.writer = .exited) ∧
          .enqueued 2 1 ∈ (outbox k).book ∧ tellings k.trace 1 = [])) = .ok true := by
    decide +kernel
  obtain ⟨k, hk, hfacts⟩ := map_returns hrun
  obtain ⟨hexited, henqueued, htold⟩ := of_decide_eq_true hfacts
  obtain ⟨packet, henq⟩ := mem_book.mp henqueued
  obtain ⟨ec, hec, -⟩ := (ha.last hk 2 hexited).told 1 packet henq
  rw [htold] at hec
  cases hec

end Avim.Kernel
