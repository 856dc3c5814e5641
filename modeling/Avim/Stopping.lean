import Avim.Calls
import Avim.Pipes

/-!
# The writer stops with its interface

An interface whose runner has ended is closed: it is quitting, and nobody waits
in its queue any more. A writer that goes on finds out, at its loop head or from
the pop that was posted to it, and its rank says how far it still is from its
end: `writer_stops`.
-/

namespace Avim.Kernel

open Lib.Octets

variable {lib : Libs} {k k' : Kernel}

-- ---------------------------------------------------------------------------
-- What is to be shown
-- ---------------------------------------------------------------------------

def writerOf (k : Kernel) (port : Nat) : Option Writer := (k.ports[port]?).map (·.writer)

def Ended (k : Kernel) (port : Nat) : Prop := ∃ p, k.ports[port]? = some p ∧ p.runner = .exited

instance instDecidableEnded (k : Kernel) (port : Nat) : Decidable (Ended k port) :=
  decidable_of_iff ((k.ports[port]?).map (·.runner) = some .exited) <| by
    simp [Ended, Option.map_eq_some_iff]

/-- The writer of the port is in `async_pop` and nothing was posted for it. -/
def Parked (k : Kernel) (port : Nat) : Prop :=
  writerOf k port = some .popping ∧ ∀ ec value, .popped port ec value ∉ k.posted

/-- The port whose writer goes on at the event, if there is one. -/
def turn (k : Kernel) : Event → Option Nat
  | .startWriter port => if writerOf k port = some .spawned then some port else none
  | .writeDone port _ =>
    match writerOf k port with
    | some (.writing _ _) => some port
    | _ => none
  | .runPosted =>
    match k.posted with
    | .popped port _ _ :: _ => some port
    | _ => none
  | _ => none

def endsWrite (port : Nat) (k : Kernel) : Event → Bool
  | .writeDone other written => decide (turn k (.writeDone other written) = some port)
  | _ => false

def goesOn (port : Nat) (k : Kernel) (event : Event) : Bool := decide (turn k event = some port)

def underWay : Option Writer → Nat
  | some (.writing _ _) => 1
  | _ => 0

/-- How often a writer that is not parked goes on before it has left its loop. -/
def turnsLeft : Option Writer → Nat
  | some .popping => 2
  | some .spawned => 1
  | some (.writing _ _) => 1
  | _ => 0

/-- What has become of the writer of the port by `k'`. A write that is under way
is one of those it performs, and after two turns it has left its loop. -/
structure Stopping (lib : Libs) (port : Nat) (k : Kernel) (events : List Event) (k' : Kernel) :
    Prop where
  awake : ¬ Parked k' port
  writes : Lib.Run.countSteps (step lib) (endsWrite port) k events +
    underWay (writerOf k' port) ≤ 1
  turns : Lib.Run.countSteps (step lib) (goesOn port) k events + turnsLeft (writerOf k' port) ≤ 2

-- ---------------------------------------------------------------------------
-- Closed interfaces
-- ---------------------------------------------------------------------------

structure Closed (k : Kernel) (link : Nat) : Prop where
  quitting : (k.links link).quitting = true
  nobody : (k.links link).writeQueue.handlers = []

theorem Closed.of_links (h : Closed k link) (hlinks : k'.links = k.links) : Closed k' link := by
  constructor
  · rw [hlinks]
    exact h.quitting
  · rw [hlinks]
    exact h.nobody

theorem Closed.onQueue (h : Closed k link) (other : Nat)
    {result : CoroQueue WriteValue Nat Empty × List (Posted WriteValue Nat Empty)}
    (hresult : other = link → result.1.handlers = []) : Closed (k.onQueue other result) link := by
  by_cases ho : other = link
  · subst ho
    exact ⟨by simpa [Kernel.onQueue] using h.quitting, by simpa [Kernel.onQueue] using hresult rfl⟩
  · have hlink : (k.onQueue other result).links link = k.links link := by
      simp [Kernel.onQueue, Ne.symm ho]
    constructor
    · rw [hlink]
      exact h.quitting
    · rw [hlink]
      exact h.nobody

theorem Closed.enqueue (h : Closed k link) (avif : Avif) (cause : Cause) (packet : AvPacket) :
    Closed (k.asyncInterfaceWritePacket avif cause packet) link := by
  refine (h.onQueue avif.id ?_).of_links rfl
  rintro rfl
  refine List.eq_nil_iff_forall_not_mem.mpr fun r hr => ?_
  have hold := ((k.links avif.id).writeQueue.push_origin (packet, cause.handler)).1 r hr
  rw [h.nobody] at hold
  cases hold

theorem Closed.sendOrAsk (h : Closed k link) (hres : sendOrAsk lib k op now = .ok k') :
    Closed k' link := by
  obtain ⟨key, avif, second, -, -, rfl⟩ | ⟨avif, -, -, -, rfl⟩ | ⟨-, -, rfl⟩ := sendOrAsk_cases hres
  · have hdrawn : Closed { k with draws := k.draws + op.data.length } link := h.of_links rfl
    exact hdrawn.enqueue _ _ _
  · exact (h.enqueue avif _ _).of_links rfl
  · exact h.of_links rfl

theorem Closed.quit (h : Closed k link) (other : Nat) : Closed (k.quit other) link := by
  by_cases ho : other = link
  · subst ho
    exact ⟨by simp [Kernel.quit], by simpa [Kernel.quit] using h.nobody⟩
  · have hlink : (k.quit other).links link = k.links link := by simp [Kernel.quit, Ne.symm ho]
    constructor
    · rw [hlink]
      exact h.quitting
    · rw [hlink]
      exact h.nobody

theorem Closed.writerLoop (h : Closed k link) (port : Nat) (p : Port) :
    Closed (k.writerLoop port p) link := by
  unfold Kernel.writerLoop
  split
  · exact h.of_links rfl
  · rename_i hq
    refine (h.onQueue p.avif.id ?_).of_links rfl
    rintro rfl
    exact absurd h.quitting hq

theorem Closed.move (h : Closed k link) (hmove : Move lib k k') : Closed k' link := by
  cases hmove with
  | call hcall =>
    obtain ⟨-, rfl⟩ | ⟨interface, -, hsend⟩ := asyncSendto_cases hcall
    · exact h.of_links rfl
    · have hcounted : Closed { k with sends := k.sends + 1 } link := h.of_links rfl
      exact hcounted.sendOrAsk hsend
  | resume _ hres => exact (h.sendOrAsk hres).of_links rfl
  | quit other => exact h.quit other
  | @runner port p _ =>
    obtain ⟨-, heq⟩ | ⟨-, heq⟩ := runnerLoop_cases k port p
    · rw [heq]
      exact (h.onQueue p.avif.id fun _ => CoroQueue.cancele_nobody _).of_links rfl
    · rw [heq]
      exact h.of_links rfl
  | reply avif target => exact h.enqueue _ _ _
  | forward avif packet => exact h.enqueue _ _ _
  | writer _ _ => exact h.writerLoop _ _
  | @wrote port p bytes handler written _ _ =>
    obtain ⟨trace, hloops⟩ := writerWrote_loops k port p bytes handler written
    have hrecorded : Closed { k with trace := trace } link := h.of_links rfl
    rw [hloops]
    exact hrecorded.writerLoop port p
  | posted hposted =>
    obtain ⟨-, rfl⟩ | ⟨port, ec, value, rest, -, ⟨-, rfl⟩ | ⟨p, -, ⟨-, rfl⟩ |
      ⟨bytes, -, -, rfl⟩⟩⟩ | ⟨call, ec, value, rest, -, rfl⟩ := runPosted_cases hposted
    · exact h
    · exact h.of_links rfl
    · exact h.of_links rfl
    · exact h.of_links rfl
    · exact h.of_links rfl
  | _ => exact h.of_links rfl

theorem Closed.step (h : Closed k link) (hstep : step lib k event = .ok k') : Closed k' link :=
  step_keeps (I := fun k => Closed k link) (fun _ _ hmove hk => hk.move hmove) hstep h

/-- Where a runner has ended, the interface is closed. -/
def Shut (k : Kernel) : Prop := ∀ p ∈ k.ports, p.runner = .exited → Closed k p.avif.id

theorem shut_initial : Shut initial := fun _ hp => nomatch hp

theorem ended_of_writer (hp : k.ports[port]? = some p)
    (hq : q ∈ k.ports.set port { p with writer := writer }) (hended : q.runner = .exited) :
    ∃ p ∈ k.ports, p.avif = q.avif ∧ p.runner = .exited := by
  rcases List.mem_or_eq_of_mem_set hq with hq | rfl
  · exact ⟨q, hq, rfl, hended⟩
  · exact ⟨p, List.mem_of_getElem? hp, rfl, hended⟩

theorem runnerLoop_ended (k : Kernel) (port : Nat) (p : Port)
    (hq : q ∈ (k.runnerLoop port p).ports) (hended : q.runner = .exited) :
    q ∈ k.ports ∨ Closed (k.runnerLoop port p) q.avif.id := by
  obtain ⟨hquitting, heq⟩ | ⟨-, heq⟩ := runnerLoop_cases k port p
  · rw [heq] at hq ⊢
    rcases List.mem_or_eq_of_mem_set hq with hq | rfl
    · exact .inl hq
    · refine .inr ⟨?_, ?_⟩
      · simpa [setPort, Kernel.onQueue] using hquitting
      · simp [setPort, Kernel.onQueue, CoroQueue.cancele_nobody]
  · rw [heq] at hq
    rcases List.mem_or_eq_of_mem_set hq with hq | rfl
    · exact .inl hq
    · cases hended

theorem move_ended (hmove : Move lib k k') (hq : q ∈ k'.ports) (hended : q.runner = .exited) :
    (∃ p ∈ k.ports, p.avif = q.avif ∧ p.runner = .exited) ∨ Closed k' q.avif.id := by
  have hsame : k'.ports = k.ports → ∃ p ∈ k.ports, p.avif = q.avif ∧ p.runner = .exited :=
    fun hports => ⟨q, hports ▸ hq, rfl, hended⟩
  cases hmove with
  | addInterface avif =>
    rcases List.mem_append.mp hq with hq | hq
    · exact .inl ⟨q, hq, rfl, hended⟩
    · rw [List.mem_singleton.mp hq] at hended
      cases hended
  | call hcall => exact .inl (hsame (asyncSendto_same hcall).2.2.1)
  | resume _ hres => exact .inl (hsame (sendOrAsk_same hres).2.2.1)
  | @runner port p hp =>
    obtain hq | hclosed := runnerLoop_ended k port p hq hended
    · exact .inl ⟨q, hq, rfl, hended⟩
    · exact .inr hclosed
  | @writer port p hp _ =>
    obtain ⟨writer, hports⟩ := writerLoop_ports k port p
    exact .inl (ended_of_writer hp (hports ▸ hq) hended)
  | @wrote port p bytes handler written hp _ =>
    obtain ⟨trace, hloops⟩ := writerWrote_loops k port p bytes handler written
    obtain ⟨writer, hports⟩ := writerLoop_ports { k with trace := trace } port p
    exact .inl (ended_of_writer hp (hports ▸ hloops ▸ hq) hended)
  | posted hposted =>
    obtain ⟨-, rfl⟩ | ⟨port, ec, value, rest, -, ⟨-, rfl⟩ | ⟨p, hp, ⟨-, rfl⟩ |
      ⟨bytes, -, -, rfl⟩⟩⟩ | ⟨call, ec, value, rest, -, rfl⟩ := runPosted_cases hposted
    · exact .inl (hsame rfl)
    · exact .inl (hsame rfl)
    · exact .inl (ended_of_writer hp hq hended)
    · exact .inl (ended_of_writer hp hq hended)
    · exact .inl (hsame rfl)
  | _ => exact .inl (hsame rfl)

theorem Shut.step (h : Shut k) (hstep : step lib k event = .ok k') : Shut k' := by
  refine step_keeps (I := Shut) ?_ hstep h
  intro before after hmove hbefore q hq hended
  obtain ⟨p, hp, havif, hended⟩ | hclosed := move_ended hmove hq hended
  · exact havif ▸ (hbefore p hp hended).move hmove
  · exact hclosed

-- ---------------------------------------------------------------------------
-- The writer of a closed interface
-- ---------------------------------------------------------------------------

inductive Leaves : Writer → Writer → Prop
  | start : Leaves .spawned .exited
  | take (bytes : Bytes) (handler : Option Nat) : Leaves .popping (.writing bytes handler)
  | refuse : Leaves .popping .exited
  | wrote : Leaves (.writing bytes handler) .exited

theorem writerOf_eq (hp : k.ports[port]? = some p) : writerOf k port = some p.writer := by
  simp [writerOf, hp]

theorem port_of_set (hp : k.ports[port]? = some p) (hne : other ≠ port) (q : Port) :
    (k.ports.set other q)[port]? = some p := by
  rw [List.getElem?_set_ne hne, hp]

theorem turn_cases (h : turn k event = some port) :
    (event = .startWriter port ∧ writerOf k port = some .spawned) ∨
    (∃ written bytes handler, event = .writeDone port written ∧
      writerOf k port = some (.writing bytes handler)) ∨
    ∃ ec value rest, event = .runPosted ∧ k.posted = .popped port ec value :: rest := by
  cases event with
  | startWriter other =>
    simp only [turn] at h
    split at h
    · rename_i hspawned
      cases h
      exact .inl ⟨rfl, hspawned⟩
    · cases h
  | writeDone other written =>
    simp only [turn] at h
    split at h
    · rename_i bytes handler hwriting
      cases h
      exact .inr (.inl ⟨written, bytes, handler, rfl, hwriting⟩)
    · cases h
  | runPosted =>
    simp only [turn] at h
    split at h
    · rename_i other ec value rest hhead
      cases h
      exact .inr (.inr ⟨ec, value, rest, rfl, hhead⟩)
    · cases h
  | _ => cases h

theorem runnerLoop_spares {port other : Nat} {p q : Port} (hp : k.ports[port]? = some p)
    (hended : p.runner = .exited) (hq : k.ports[other]? = some q) (hrunning : q.runner ≠ .exited) :
    (k.runnerLoop other q).ports[port]? = some p := by
  have hne : other ≠ port := by
    rintro rfl
    rw [hp] at hq
    cases hq
    exact hrunning hended
  obtain ⟨runner, hports⟩ := runnerLoop_ports k other q
  rw [hports]
  exact port_of_set hp hne _

theorem writerLoop_spares (hp : k.ports[port]? = some p) (hne : other ≠ port) (q : Port) :
    (k.writerLoop other q).ports[port]? = some p := by
  obtain ⟨writer, hports⟩ := writerLoop_ports k other q
  rw [hports]
  exact port_of_set hp hne _

theorem step_port_same (h : step lib k event = .ok k') (hp : k.ports[port]? = some p)
    (hended : p.runner = .exited) (hturn : turn k event ≠ some port) :
    k'.ports[port]? = some p := by
  cases step_does h with
  | addInterface avif => exact List.getElem?_append_left (List.getElem?_eq_some_iff.mp hp).1 ▸ hp
  | asyncSendto hcall => rw [(asyncSendto_same hcall).2.2.1, hp]
  | startRunner hq hspawned => exact runnerLoop_spares hp hended hq (by simp [hspawned])
  | @read other q packet hq hreading =>
    obtain ⟨spawned, links, hloops⟩ := runnerRead_loops k other q packet
    rw [hloops]
    exact runnerLoop_spares (k := { k with spawned := spawned, links := links }) hp hended hq
      (by simp [hreading])
  | process _ hprocess =>
    rw [(processRecivedPacket_same hprocess).2]
    exact hp
  | @startWriter other q hq hspawned =>
    refine writerLoop_spares hp ?_ q
    rintro rfl
    exact hturn (by simp [turn, writerOf_eq hq, hspawned])
  | @writeDone other q bytes handler written hq hwriting =>
    obtain ⟨trace, hloops⟩ := writerWrote_loops k other q bytes handler written
    rw [hloops]
    refine writerLoop_spares (k := { k with trace := trace }) hp ?_ q
    rintro rfl
    exact hturn (by simp [turn, writerOf_eq hq, hwriting])
  | runPosted hposted =>
    obtain ⟨-, rfl⟩ | ⟨other, ec, value, rest, hhead, hrest⟩ | ⟨call, ec, value, rest, -, rfl⟩ :=
      runPosted_cases hposted
    · exact hp
    · have hne : other ≠ port := by
        rintro rfl
        exact hturn (by simp [turn, hhead])
      obtain ⟨-, rfl⟩ | ⟨q, -, ⟨-, rfl⟩ | ⟨bytes, -, -, rfl⟩⟩ := hrest
      · exact hp
      · exact port_of_set hp hne _
      · exact port_of_set hp hne _
    · exact hp
  | timer1 hsweep => rw [(sweep_same hsweep).2.2.1, hp]
  | _ => exact hp

theorem mem_of_pops (hpop : (port, handler) ∈ (outbox k).pops) :
    ∃ ec value, .popped port ec value ∈ k.posted := by
  obtain ⟨completion, hmem, heq⟩ := List.mem_filterMap.mp hpop
  cases completion with
  | popped other ec value =>
    have hport : other = port := (Prod.mk.inj (Option.some.inj heq)).1
    exact ⟨ec, value, hport ▸ hmem⟩
  | received call ec value => cases heq

theorem Closed.awake (h : Closed k p.avif.id) (hk : (outbox k).Ledger)
    (hp : k.ports[port]? = some p) : ¬ Parked k port := by
  rintro ⟨hpopping, hnone⟩
  rw [writerOf_eq hp] at hpopping
  have hpending := hk.popping port p.avif.id p.writer (writers_at hp)
  have hnobody : ((outbox k).queue p.avif.id).handlers = [] := h.nobody
  rw [Outbox.pending, hnobody, if_pos (Option.some.inj hpopping), List.countP_nil,
    Nat.zero_add] at hpending
  obtain ⟨pop, hpop, hport⟩ := List.countP_pos_iff.mp (Nat.lt_of_lt_of_eq Nat.one_pos hpending.symm)
  obtain ⟨other, handler⟩ := pop
  have hport : other = port := by simpa using hport
  obtain ⟨ec, value, hposted⟩ := mem_of_pops (hport ▸ hpop)
  exact hnone ec value hposted

theorem set_port_self (hp : k.ports[port]? = some p) (q : Port) :
    (k.ports.set port q)[port]? = some q :=
  List.getElem?_set_self (List.getElem?_eq_some_iff.mp hp).1

theorem Closed.writerLoop_exits (h : Closed k p.avif.id) (hp : k.ports[port]? = some p) :
    (k.writerLoop port p).ports[port]? = some { p with writer := .exited } := by
  rw [Kernel.writerLoop, if_pos h.quitting]
  exact set_port_self hp _

theorem step_port_turn (h : step lib k event = .ok k') (hp : k.ports[port]? = some p)
    (hclosed : Closed k p.avif.id) (hk : (outbox k).Ledger) (hturn : turn k event = some port) :
    ∃ writer, Leaves p.writer writer ∧ k'.ports[port]? = some { p with writer := writer } := by
  have hwriter := writerOf_eq hp
  obtain ⟨rfl, hspawned⟩ | ⟨written, bytes, handler, rfl, hwriting⟩ |
    ⟨ec, value, rest, rfl, hhead⟩ := turn_cases hturn
  · have hspawned : p.writer = .spawned := Option.some.inj (hwriter.symm.trans hspawned)
    have hnext : k' = k.writerLoop port p := by simpa [Kernel.step, hp, hspawned] using h.symm
    rw [hspawned, hnext]
    exact ⟨.exited, .start, hclosed.writerLoop_exits hp⟩
  · have hwriting : p.writer = .writing bytes handler :=
      Option.some.inj (hwriter.symm.trans hwriting)
    have hnext : k' = k.writerWrote port p bytes handler written := by
      simpa [Kernel.step, hp, hwriting] using h.symm
    obtain ⟨trace, hloops⟩ := writerWrote_loops k port p bytes handler written
    have hrecorded : Closed { k with trace := trace } p.avif.id := hclosed.of_links rfl
    rw [hwriting, hnext, hloops]
    exact ⟨.exited, .wrote, hrecorded.writerLoop_exits hp⟩
  · have hposted : .popped port ec value ∈ k.posted := by simp [hhead]
    rw [popping_of_posted hk hp hposted]
    obtain ⟨hnil, -⟩ | ⟨_, _, _, _, hhead', hrest⟩ | ⟨_, _, _, _, hhead', -⟩ := runPosted_cases h
    · rw [hnil] at hhead
      cases hhead
    · rw [hhead] at hhead'
      cases hhead'
      obtain ⟨hnone, -⟩ | ⟨q, hq, hends⟩ := hrest
      · rw [hp] at hnone
        cases hnone
      · rw [hp] at hq
        cases hq
        obtain ⟨-, rfl⟩ | ⟨bytes, -, -, rfl⟩ := hends
        · exact ⟨.exited, .refuse, set_port_self hp _⟩
        · exact ⟨_, .take bytes value.2, set_port_self hp _⟩
    · rw [hhead] at hhead'
      cases hhead'

def writesLeft : Option Writer → Nat
  | some .popping => 1
  | some (.writing _ _) => 1
  | _ => 0

theorem underWay_le (writer : Option Writer) : underWay writer ≤ writesLeft writer := by
  rcases writer with _ | (_ | _ | _ | _) <;> simp [underWay, writesLeft]

theorem writesLeft_le (writer : Option Writer) : writesLeft writer ≤ 1 := by
  rcases writer with _ | (_ | _ | _ | _) <;> simp [writesLeft]

theorem turnsLeft_le (writer : Option Writer) : turnsLeft writer ≤ 2 := by
  rcases writer with _ | (_ | _ | _ | _) <;> simp [turnsLeft]

theorem Leaves.turnsLeft (h : Leaves a b) : turnsLeft (some b) + 1 ≤ turnsLeft (some a) := by
  cases h <;> simp [Kernel.turnsLeft]

theorem Leaves.writesLeft (h : Leaves a b) : writesLeft (some b) ≤ writesLeft (some a) := by
  cases h <;> simp [Kernel.writesLeft]

theorem Leaves.writesLeft_writing (h : Leaves (.writing bytes handler) b) :
    Kernel.writesLeft (some b) = 0 := by
  cases h
  rfl

theorem writing_of_endsWrite (hends : endsWrite port k event = true) : turn k event = some port ∧
    ∃ bytes handler, writerOf k port = some (.writing bytes handler) := by
  cases event with
  | writeDone other written =>
    have hturn : turn k (.writeDone other written) = some port := by simpa [endsWrite] using hends
    obtain ⟨hevent, -⟩ | ⟨_, bytes, handler, -, hwriting⟩ | ⟨_, _, _, hevent, -⟩ := turn_cases hturn
    · cases hevent
    · exact ⟨hturn, bytes, handler, hwriting⟩
    · cases hevent
  | _ => cases hends

-- ---------------------------------------------------------------------------
-- After the runner's end
-- ---------------------------------------------------------------------------

structure Over (k : Kernel) (port : Nat) : Prop where
  ledger : (outbox k).Ledger
  closed : ∃ p, k.ports[port]? = some p ∧ p.runner = .exited ∧ Closed k p.avif.id

theorem Over.awake (h : Over k port) : ¬ Parked k port := by
  obtain ⟨p, hp, -, hclosed⟩ := h.closed
  exact hclosed.awake h.ledger hp

theorem over_step (h : Over k port) (hstep : step lib k event = .ok k') :
    Over k' port ∧
    ((turn k event = some port ∧ ∃ a b, writerOf k port = some a ∧ writerOf k' port = some b ∧
      Leaves a b) ∨
    (turn k event ≠ some port ∧ writerOf k' port = writerOf k port)) := by
  obtain ⟨p, hp, hended, hclosed⟩ := h.closed
  have hledger := step_ledger hstep h.ledger
  by_cases hturn : turn k event = some port
  · obtain ⟨writer, hleaves, hp'⟩ := step_port_turn hstep hp hclosed h.ledger hturn
    refine ⟨⟨hledger, _, hp', hended, hclosed.step hstep⟩, .inl ⟨hturn, p.writer, writer, ?_⟩⟩
    exact ⟨writerOf_eq hp, writerOf_eq hp', hleaves⟩
  · have hp' := step_port_same hstep hp hended hturn
    refine ⟨⟨hledger, p, hp', hended, hclosed.step hstep⟩, .inr ⟨hturn, ?_⟩⟩
    rw [writerOf_eq hp, writerOf_eq hp']

theorem Over.turns (h : Over k port) (hstep : step lib k event = .ok k') :
    (goesOn port k event).toNat + turnsLeft (writerOf k' port) ≤ turnsLeft (writerOf k port) := by
  obtain ⟨-, ⟨hturn, a, b, ha, hb, hleaves⟩ | ⟨hturn, hsame⟩⟩ := over_step h hstep
  · have hgoes : goesOn port k event = true := by simp [goesOn, hturn]
    rw [ha, hb, hgoes]
    exact Nat.add_comm _ _ ▸ hleaves.turnsLeft
  · have hstays : goesOn port k event = false := by simp [goesOn, hturn]
    rw [hsame, hstays]
    exact Nat.le_of_eq (Nat.zero_add _)

theorem Over.writes (h : Over k port) (hstep : step lib k event = .ok k') :
    (endsWrite port k event).toNat + writesLeft (writerOf k' port) ≤
      writesLeft (writerOf k port) := by
  cases hends : endsWrite port k event with
  | true =>
    obtain ⟨hturn, bytes, handler, hwriting⟩ := writing_of_endsWrite hends
    obtain ⟨-, ⟨-, a, b, ha, hb, hleaves⟩ | ⟨hnot, -⟩⟩ := over_step h hstep
    · rw [hwriting] at ha
      cases ha
      rw [hb, hleaves.writesLeft_writing, hwriting]
      exact Nat.le_refl 1
    · exact absurd hturn hnot
  | false =>
    rw [Bool.toNat_false, Nat.zero_add]
    obtain ⟨-, ⟨-, a, b, ha, hb, hleaves⟩ | ⟨-, hsame⟩⟩ := over_step h hstep
    · rw [ha, hb]
      exact hleaves.writesLeft
    · exact Nat.le_of_eq (congrArg writesLeft hsame)

theorem Reached.over (hk : Reached lib k) (hended : Ended k port) : Over k port := by
  have hshut : Shut k :=
    Lib.Run.Reached.invariant shut_initial (fun _ _ _ hstep hs => hs.step hstep) hk
  obtain ⟨p, hp, hexited⟩ := hended
  exact ⟨hk.ledger, p, hp, hexited, hshut p (List.mem_of_getElem? hp) hexited⟩

/-- After the runner's end the writer is never parked: it performs at most the one
write it has in hand, or finds in the pop that was posted to it, and leaves. -/
theorem writer_stops (lib : Libs) (hk : Reached lib k) (hended : Ended k port)
    (hrun : events.foldlM (step lib) k = .ok k') : Stopping lib port k events k' := by
  have hover : Over k port := hk.over hended
  have hlast : Over k' port := Lib.Run.Reached.invariant (I := fun k => Over k port) hover
    (fun _ _ _ hstep hs => (over_step hs hstep).1) (Lib.Run.reached_of_foldlM .start hrun)
  have hwrites : Lib.Run.countSteps (step lib) (endsWrite port) k events +
      writesLeft (writerOf k' port) ≤ writesLeft (writerOf k port) :=
    Lib.Run.countSteps_le (I := fun k => Over k port) (fun k => writesLeft (writerOf k port))
      (fun _ _ _ hstep hs => ⟨(over_step hs hstep).1, hs.writes hstep⟩) hover hrun
  have hturns : Lib.Run.countSteps (step lib) (goesOn port) k events +
      turnsLeft (writerOf k' port) ≤ turnsLeft (writerOf k port) :=
    Lib.Run.countSteps_le (I := fun k => Over k port) (fun k => turnsLeft (writerOf k port))
      (fun _ _ _ hstep hs => ⟨(over_step hs hstep).1, hs.turns hstep⟩) hover hrun
  refine ⟨hlast.awake, ?_, Nat.le_trans hturns (turnsLeft_le _)⟩
  calc _ ≤ _ := Nat.add_le_add_left (underWay_le _) _
    _ ≤ _ := hwrites
    _ ≤ 1 := writesLeft_le _

def handedOver : Kernel :=
  after sampleLibs [.addInterface (samplePeer sampleKey),
    .addRoute (text ".+@.+") [] (text "eth0") 100, .startRunner 0, .startWriter 0,
    .asyncSendto (text "a@x") (text "hi") 0, .read 0 none]

theorem writer_stops_handed_over :
    ∃ k', [.runPosted, .writeDone 0 true].foldlM (step sampleLibs) handedOver = .ok k' ∧
      writerOf k' 0 = some .exited ∧
      Lib.Run.countSteps (step sampleLibs) (endsWrite 0) handedOver
        [.runPosted, .writeDone 0 true] = 1 ∧
      Stopping sampleLibs 0 handedOver [.runPosted, .writeDone 0 true] k' := by
  have hrun : ([Event.runPosted, .writeDone 0 true].foldlM (step sampleLibs) handedOver).map
      (fun k : Kernel => writerOf k 0) = .ok (some .exited) := by
    decide +kernel
  obtain ⟨k', hk', hexited⟩ := map_returns hrun
  exact ⟨k', hk', hexited, by decide +kernel,
    writer_stops sampleLibs (reached_after _ _) (by decide +kernel) hk'⟩

end Avim.Kernel
