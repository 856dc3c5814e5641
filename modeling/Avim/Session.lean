import Avim.Links
import Avim.Shutdown

/-!
# Two kernels on one connection

`far` reads what `near` sends on one of its interfaces. Both do what they like
otherwise: `near` may have other interfaces and read anything from them, `far`
reads from this connection only. What `far` hears is what `near` enqueued, in
order (`heard_in_order`), and its application is told nothing that was not
enqueued for it, and nothing more often than it was enqueued
(`told_of_enqueued`).
-/

namespace Avim

open Lib.Octets

namespace Kernel

variable {lib : Libs} {k k' : Kernel}

-- ---------------------------------------------------------------------------
-- What is on record stays
-- ---------------------------------------------------------------------------

theorem step_before {P : Kernel → Prop} (hmove : ∀ k k', Move lib k k' → P k' → P k)
    (h : step lib k event = .ok k') (hk : P k') : P k :=
  step_keeps (I := fun after => P after → P k)
    (fun _ _ hm himp hafter => himp (hmove _ _ hm hafter)) h id hk

theorem step_port_avif {port : Nat} (h : step lib k event = .ok k')
    (hp : k.ports[port]? = some p) : ∃ q, k'.ports[port]? = some q ∧ q.avif = p.avif := by
  have hlt : port < k.ports.length := (List.getElem?_eq_some_iff.mp hp).1
  obtain ⟨other, q, -, hleaves⟩ | ⟨avif, hports⟩ | hstays := step_ports h
  · rw [hleaves.ports]
    by_cases ho : other = port
    · subst ho
      have hsame := Option.some.inj (hp.symm.trans hleaves.found)
      exact ⟨_, List.getElem?_set_self hlt, by rw [hsame]⟩
    · exact ⟨p, (List.getElem?_set_ne ho).trans hp, rfl⟩
  · exact ⟨p, by rw [hports, List.getElem?_append_left hlt, hp], rfl⟩
  · have hlt' : port < k'.ports.length := by rw [hstays.length]; exact hlt
    have hq := List.getElem?_eq_getElem hlt'
    exact ⟨_, hq, (hstays.writers port p _ hp hq).1⟩

-- ---------------------------------------------------------------------------
-- Messages come from packets
-- ---------------------------------------------------------------------------

/-- What processing a packet can give the application. -/
def opens (lib : Libs) (came : AvPacket × Avif) : Option (Bytes × Bytes) :=
  if came.1.upperlayerpotocol = text "avim" then
    (decryptPayload lib (carriedKey came.1) came.2.rsaKey came.1.payload).toOption.map
      (avAddressToString came.1.src, ·)
  else none

def messages (k : Kernel) : List (Bytes × Bytes) := k.trace.filterMap messageOf

theorem sendOrAsk_messages (h : sendOrAsk lib k op now = .ok k') :
    k'.messages = k.messages ∧ k'.spawned = k.spawned := by
  obtain ⟨key, avif, second, -, -, rfl⟩ | ⟨avif, -, -, -, rfl⟩ | ⟨-, -, rfl⟩ := sendOrAsk_cases h
  · exact ⟨by simp [messages, messageOf], rfl⟩
  · exact ⟨by simp [messages, messageOf], rfl⟩
  · exact ⟨by simp [messages, messageOf], rfl⟩

theorem sweep_messages (h : sweep lib due k now = .ok k') :
    k'.messages = k.messages ∧ k'.spawned = k.spawned :=
  sweep_keeps (I := fun k' => k'.messages = k.messages ∧ k'.spawned = k.spawned)
    (fun _ _ _ hres hk =>
      ⟨(sendOrAsk_messages hres).1.trans hk.1, (sendOrAsk_messages hres).2.trans hk.2⟩)
    (fun _ _ hk => hk) ⟨rfl, rfl⟩ h

theorem checkKey_messages (h : checkKey lib k packet now = .ok k') :
    k'.messages = k.messages ∧ k'.spawned = k.spawned := by
  obtain ⟨_, -, ⟨-, -, rfl⟩ | ⟨-, rfl⟩⟩ := checkKey_cases h
  · exact ⟨rfl, rfl⟩
  · exact ⟨rfl, rfl⟩

theorem toMe_messages (h : processRecivedPacketToMe lib k packet avif now = .ok k') :
    k'.spawned = k.spawned ∧ (k'.messages = k.messages ∨
      k'.messages = k.messages ++ (opens lib (packet, avif)).toList) := by
  obtain ⟨-, rfl⟩ | ⟨-, rsa, -, rfl⟩ | ⟨-, -, payload, hpayload, ⟨havim, rfl⟩ | ⟨-, rfl⟩⟩ :=
    toMe_cases h
  · exact ⟨rfl, .inl (by simp [messages, messageOf])⟩
  · exact ⟨rfl, .inl rfl⟩
  · have hopens : opens lib (packet, avif) = some (avAddressToString packet.src, payload) := by
      rw [opens, if_pos havim, hpayload]
      rfl
    exact ⟨rfl, .inr (by simp [messages, messageOf, hopens])⟩
  · exact ⟨rfl, .inl rfl⟩

theorem forward_messages (h : forward lib k packet = .ok k') :
    k'.messages = k.messages ∧ k'.spawned = k.spawned := by
  obtain rfl | ⟨-, interface, t, -, rfl⟩ := forward_cases h
  · exact ⟨rfl, rfl⟩
  · exact ⟨by simp [messages, messageOf], rfl⟩

theorem processRecivedPacket_messages (h : processRecivedPacket lib k packet avif now = .ok k') :
    k'.spawned = k.spawned ∧ (k'.messages = k.messages ∨
      k'.messages = k.messages ++ (opens lib (packet, avif)).toList) := by
  obtain ⟨checked, handled, hchecked, hhandled, hswept⟩ := processRecivedPacket_returns h
  obtain ⟨hmessages, hspawned⟩ := sweep_messages hswept
  obtain ⟨hold, hwaiting⟩ := checkKey_messages hchecked
  rw [hmessages, hspawned, ← hold, ← hwaiting]
  obtain ⟨-, hhandled⟩ | ⟨-, hhandled⟩ := hhandled
  · exact toMe_messages hhandled
  · obtain ⟨hsame, hforwarded⟩ := forward_messages hhandled
    exact ⟨hforwarded, .inl hsame⟩

/-- The packet that an event brings in, and the interface it comes in on. -/
def brought (k : Kernel) : Event → Option (AvPacket × Avif)
  | .read port (some packet) =>
    match k.ports[port]? with
    | some p => if p.runner = .reading then some (packet, p.avif) else none
    | none => none
  | _ => none

theorem runnerLoop_messages (k : Kernel) (port : Nat) (p : Port) :
    (k.runnerLoop port p).messages = k.messages ∧ (k.runnerLoop port p).spawned = k.spawned := by
  obtain ⟨-, heq⟩ | ⟨-, heq⟩ := runnerLoop_cases k port p
  · rw [heq]
    exact ⟨rfl, rfl⟩
  · rw [heq]
    exact ⟨rfl, rfl⟩

theorem writerLoop_messages (k : Kernel) (port : Nat) (p : Port) :
    (k.writerLoop port p).messages = k.messages ∧ (k.writerLoop port p).spawned = k.spawned := by
  unfold writerLoop
  split
  · exact ⟨rfl, rfl⟩
  · exact ⟨rfl, rfl⟩

theorem writerWrote_messages (k : Kernel) (port : Nat) (p : Port) (bytes : Bytes)
    (handler : Option Nat) (written : Bool) :
    (k.writerWrote port p bytes handler written).messages = k.messages ∧
      (k.writerWrote port p bytes handler written).spawned = k.spawned := by
  have htrace := writerWrote_trace k port p bytes handler written
  obtain ⟨trace, hloops⟩ := writerWrote_loops k port p bytes handler written
  refine ⟨?_, by rw [hloops, (writerLoop_messages _ port p).2]⟩
  rw [messages, htrace]
  cases handler <;> simp [messages, messageOf, List.filterMap_cons]

theorem runPosted_messages (h : runPosted lib k = .ok k') :
    k'.messages = k.messages ∧ k'.spawned = k.spawned := by
  obtain ⟨-, rfl⟩ | ⟨port, ec, value, rest, -, ⟨-, rfl⟩ | ⟨p, -, ⟨-, rfl⟩ | ⟨bytes, -, -, rfl⟩⟩⟩ |
    ⟨call, ec, value, rest, -, rfl⟩ := runPosted_cases h
  · exact ⟨rfl, rfl⟩
  · exact ⟨rfl, rfl⟩
  · exact ⟨rfl, rfl⟩
  · exact ⟨rfl, rfl⟩
  · exact ⟨by simp [messages, messageOf], rfl⟩

theorem asyncSendto_messages (h : asyncSendto lib k target data now = .ok k') :
    k'.messages = k.messages ∧ k'.spawned = k.spawned := by
  obtain ⟨-, rfl⟩ | ⟨interface, -, hsend⟩ := asyncSendto_cases h
  · exact ⟨by simp [messages, messageOf], rfl⟩
  · exact sendOrAsk_messages (k := { k with sends := k.sends + 1 }) hsend

/-- What was given to the application and what is still to be processed comes
from what was there before and what is brought in. -/
theorem step_messages (h : step lib k event = .ok k') :
    (k'.messages ++ k'.spawned.filterMap (opens lib)).Subperm
      (k.messages ++ k.spawned.filterMap (opens lib) ++
        (brought k event).toList.filterMap (opens lib)) := by
  have hsame : k'.messages = k.messages ∧ k'.spawned = k.spawned →
      (k'.messages ++ k'.spawned.filterMap (opens lib)).Subperm
        (k.messages ++ k.spawned.filterMap (opens lib) ++
          (brought k event).toList.filterMap (opens lib)) := by
    rintro ⟨hmessages, hspawned⟩
    rw [hmessages, hspawned]
    exact (List.sublist_append_left _ _).subperm
  cases step_does h with
  | asyncSendto hcall => exact hsame (asyncSendto_messages hcall)
  | startRunner hp _ => exact hsame (runnerLoop_messages _ _ _)
  | @read port p packet hp hreading =>
    cases packet with
    | none => exact hsame (runnerLoop_messages (k.quit p.avif.id) port p)
    | some packet =>
      obtain ⟨hmessages, hspawned⟩ :=
        runnerLoop_messages { k with spawned := k.spawned ++ [(packet, p.avif)] } port p
      rw [runnerRead, hmessages, hspawned, brought, hp]
      simp only [hreading, if_true, Option.toList_some, List.filterMap_append, List.append_assoc]
      exact List.Subperm.refl _
  | @process index packet avif now _ hat hprocess =>
    obtain ⟨hspawned, hmessages⟩ := processRecivedPacket_messages hprocess
    obtain ⟨hlt, hget⟩ := List.getElem?_eq_some_iff.mp hat
    have hperm : ((opens lib (packet, avif)).toList ++
        (k.spawned.eraseIdx index).filterMap (opens lib)).Perm
          (k.spawned.filterMap (opens lib)) := by
      have hall := (List.getElem_cons_eraseIdx_perm hlt).filterMap (opens lib)
      rw [hget] at hall
      cases hopens : opens lib (packet, avif) with
      | none => simpa [hopens] using hall
      | some message => simpa [hopens] using hall
    have hall := hperm.append_left k.messages
    rw [hspawned]
    refine List.Subperm.trans ?_ (List.sublist_append_left _ _).subperm
    obtain heq | heq := hmessages
    · rw [heq]
      exact ((List.sublist_append_right _ _).append_left k.messages).subperm.trans hall.subperm
    · rw [heq, List.append_assoc]
      exact hall.subperm
  | startWriter hp _ => exact hsame (writerLoop_messages _ _ _)
  | writeDone written hp hwriting => exact hsame (writerWrote_messages _ _ _ _ _ _)
  | runPosted hposted => exact hsame (runPosted_messages hposted)
  | timer1 hsweep => exact hsame (sweep_messages hsweep)
  | _ => exact hsame ⟨rfl, rfl⟩

end Kernel

-- ---------------------------------------------------------------------------
-- The connection
-- ---------------------------------------------------------------------------

structure Session where
  near : Kernel
  far : Kernel
  -- how many of the bytes that `near` sent were read
  taken : Nat
  -- what was read, and the interface it came in on
  heard : List (AvPacket × Avif)

inductive SessionEvent
  | near (event : Event)
  | far (event : Event)
  -- the runner of `far` is given a whole frame; its length variable holds `l`
  | deliver (l : Nat)

namespace Session

variable (lib : Libs) (link port : Nat)

def initial : Session := ⟨.initial, .initial, 0, []⟩

def inFlight (s : Session) : Bytes := (s.near.wire link).drop s.taken

def bringsPacket : Event → Bool
  | .read _ (some _) => true
  | _ => false

/-- A runner that is not in `async_read_packet`, or has no whole frame to read,
stays where it is. -/
def deliver (s : Session) (l : Nat) : Except Fault Session :=
  match s.far.ports[port]? with
  | none => .ok s
  | some p =>
    if p.runner = .reading ∧ (takeFrame (s.inFlight link)).isSome then do
      let read ← asyncReadPacket lib.pb (be32 l) (s.inFlight link)
      let far ← s.far.step lib (.read port read.packet)
      return { s with
        far := far
        taken := (s.near.wire link).length - read.rest.length
        heard := s.heard ++ read.packet.toList.map (·, p.avif) }
    else .ok s

/-- Packets come to `far` over the connection only, each in a whole frame that
`near` enqueued. It may be lost between two frames, but not inside one. -/
def step (s : Session) : SessionEvent → Except Fault Session
  | .near event => (s.near.step lib event).map fun near => { s with near := near }
  | .far event =>
    if bringsPacket event then .ok s
    else (s.far.step lib event).map fun far => { s with far := far }
  | .deliver l => s.deliver lib link port l

variable {lib link port} {s s' : Session} {k k' : Kernel}

/-- `near` keeps to what the wire promises: one writer, packets that can be
framed, and no write failed. -/
structure Faithful (lib : Libs) (link : Nat) (near : Kernel) : Prop where
  sole : near.Sole link
  sendable : ∀ value ∈ (near.pipe link).enqueued, Sendable lib.pb value.1
  unfailed : ∀ effect ∈ near.trace, Kernel.failedOn link effect = false

theorem Faithful.before (h : Faithful lib link k') (hstep : k.step lib event = .ok k') :
    Faithful lib link k := by
  have htrace := Kernel.step_trace hstep
  refine ⟨Kernel.step_before (fun _ _ hmove hk => Kernel.Sole.before hk hmove) hstep h.sole, ?_, ?_⟩
  · intro value hvalue
    obtain ⟨effect, heffect, hof⟩ := List.mem_filterMap.mp hvalue
    exact h.sendable value (List.mem_filterMap.mpr ⟨effect, htrace.subset heffect, hof⟩)
  · exact fun effect heffect => h.unfailed effect (htrace.subset heffect)

/-- What was heard is what was enqueued first, and ends where the reader is. -/
structure Follows (link : Nat) (s : Session) : Prop where
  heard : s.heard.map Prod.fst = ((s.near.pipe link).enqueued.map Prod.fst).take s.heard.length
  written : s.heard.length ≤ (s.near.pipe link).wrote.length
  taken : s.taken =
    (((s.near.pipe link).wrote.take s.heard.length).map Prod.fst).flatten.length

def onTheWay (s : Session) (link : Nat) : List AvPacket :=
  (((s.near.pipe link).enqueued.map Prod.fst).take (s.near.pipe link).wrote.length).drop
    s.heard.length

/-- The bytes in flight are the frames of what comes next. -/
structure InOrder (lib : Libs) (link : Nat) (s : Session) : Prop extends Follows link s where
  inFlight : ∃ frames,
    (s.onTheWay link).mapM (fun packet => encode lib.pb (lib.pb.ofAvPacket packet)) = .ok frames ∧
    s.inFlight link = frames.flatten

def CameIn (k : Kernel) (port : Nat) (came : AvPacket × Avif) : Prop :=
  ∃ p, k.ports[port]? = some p ∧ p.avif = came.2

theorem CameIn.step (h : CameIn k port came) (hstep : k.step lib event = .ok k') :
    CameIn k' port came := by
  obtain ⟨p, hp, havif⟩ := h
  obtain ⟨q, hq, hsame⟩ := Kernel.step_port_avif hstep hp
  exact ⟨q, hq, hsame.trans havif⟩

structure Joined (lib : Libs) (link port : Nat) (s : Session) : Prop where
  near : Kernel.Reached lib s.near
  far : Kernel.Reached lib s.far
  follows : Faithful lib link s.near → Follows link s
  messages : (s.far.messages ++ s.far.spawned.filterMap (Kernel.opens lib)).Subperm
    (s.heard.filterMap (Kernel.opens lib))
  -- everything came in on the interface of the port
  avif : ∀ came ∈ s.heard, CameIn s.far port came

theorem joined_initial : Joined lib link port initial :=
  ⟨.start, .start, fun _ => ⟨rfl, Nat.zero_le _, rfl⟩, List.Subperm.refl _, by simp [initial]⟩

theorem take_of_extends {xs ys : List α} (h : xs <+: ys) (hn : n ≤ xs.length) :
    ys.take n = xs.take n := by
  obtain ⟨rest, rfl⟩ := h
  exact List.take_append_of_le_length hn

theorem Joined.nearStep (h : Joined lib link port s) (hstep : s.near.step lib event = .ok k') :
    Joined lib link port { s with near := k' } := by
  refine ⟨.step h.near hstep, h.far, ?_, h.messages, h.avif⟩
  intro hfaithful
  obtain ⟨hheard, hwritten, htaken⟩ := h.follows (hfaithful.before hstep)
  have htrace := Kernel.step_trace hstep
  have henqueued : (s.near.pipe link).enqueued <+: (k'.pipe link).enqueued :=
    htrace.filterMap (Kernel.enqueuedOn link)
  have hwrote : (s.near.pipe link).wrote <+: (k'.pipe link).wrote :=
    htrace.filterMap (Kernel.wroteOn link)
  have hlength : s.heard.length ≤ ((s.near.pipe link).enqueued.map Prod.fst).length := by
    have hsame := congrArg List.length hheard
    rw [List.length_map, List.length_take] at hsame
    omega
  refine ⟨?_, hwritten.trans hwrote.length_le, ?_⟩
  · rw [take_of_extends (henqueued.map Prod.fst) hlength]
    exact hheard
  · rw [take_of_extends hwrote hwritten]
    exact htaken

theorem Joined.farStep (h : Joined lib link port s) (hstep : s.far.step lib event = .ok k')
    (hbrings : bringsPacket event = false) : Joined lib link port { s with far := k' } := by
  refine ⟨h.near, .step h.far hstep, fun hfaithful => ?_, ?_,
    fun came hcame => (h.avif came hcame).step hstep⟩
  · obtain ⟨hheard, hwritten, htaken⟩ := h.follows hfaithful
    exact ⟨hheard, hwritten, htaken⟩
  · have hnone : Kernel.brought s.far event = none := by
      cases event with
      | read port packet =>
        cases packet with
        | none => rfl
        | some packet => cases hbrings
      | _ => rfl
    have hmessages := Kernel.step_messages hstep
    rw [hnone, Option.toList_none, List.filterMap_nil, List.append_nil] at hmessages
    exact hmessages.trans h.messages

theorem drop_flatten (frames : List Bytes) (n : Nat) :
    frames.flatten.drop (frames.take n).flatten.length = (frames.drop n).flatten := by
  have hsplit : frames.flatten = (frames.take n).flatten ++ (frames.drop n).flatten := by
    rw [← List.flatten_append, List.take_append_drop]
  rw [hsplit, List.drop_left]

theorem Follows.inFlight (h : Follows link s) (hfaithful : Faithful lib link s.near) :
    s.inFlight link = (((s.near.pipe link).wrote.drop s.heard.length).map Prod.fst).flatten := by
  rw [Session.inFlight, Kernel.wire_eq hfaithful.unfailed, h.taken, List.map_take, drop_flatten,
    List.map_drop]

theorem mapM_drop {f : α → Except ε β} {xs : List α} {ys : List β} (h : xs.mapM f = .ok ys)
    (n : Nat) : (xs.drop n).mapM f = .ok (ys.drop n) := by
  induction n generalizing xs ys with
  | zero => exact h
  | succ n ih =>
    cases xs with
    | nil =>
      cases h
      rfl
    | cons x xs =>
      rw [List.mapM_cons] at h
      obtain ⟨y, -, h⟩ := bind_returns h
      obtain ⟨rest, hrest, h⟩ := bind_returns h
      cases h
      exact ih hrest

theorem Follows.inOrder (h : Follows link s) (hnear : Kernel.Reached lib s.near)
    (hfaithful : Faithful lib link s.near) : InOrder lib link s := by
  have hframes := (hnear.piped.inOrder link hfaithful.sole).frames
  refine ⟨h, _, mapM_drop hframes s.heard.length, ?_⟩
  rw [h.inFlight hfaithful, List.map_drop]

theorem Follows.next (h : Follows link s) (hnear : Kernel.Reached lib s.near)
    (hfaithful : Faithful lib link s.near) (hparse : lib.pb.ParseUndoesAppend)
    (hcast : lib.pb.CastsBack) (hframe : (takeFrame (s.inFlight link)).isSome = true) (l : Nat) :
    ∃ packet rest, asyncReadPacket lib.pb (be32 l) (s.inFlight link) =
        .ok ⟨some packet, false, rest⟩ ∧
      ((s.near.pipe link).enqueued.map Prod.fst)[s.heard.length]? = some packet ∧
      s.heard.length < (s.near.pipe link).wrote.length ∧
      (s.near.wire link).length - rest.length =
        (((s.near.pipe link).wrote.take (s.heard.length + 1)).map Prod.fst).flatten.length := by
  have hpipe := hnear.piped.inOrder link hfaithful.sole
  have hwire := Kernel.wire_eq hfaithful.unfailed
  have hflight := h.inFlight hfaithful
  have hlt : s.heard.length < (s.near.pipe link).wrote.length := by
    by_contra hge
    rw [hflight, List.drop_of_length_le (Nat.le_of_not_lt hge)] at hframe
    cases hframe
  obtain ⟨value, hvalue, hencode⟩ := hpipe.written_at (List.getElem?_eq_getElem hlt)
  obtain ⟨buf, hbuf, hread⟩ := asyncReadPacket_encode lib.pb hparse hcast
    (hfaithful.sendable value (List.mem_of_getElem? hvalue)) (length_be32 l)
  have hsame := Except.ok.inj (hencode.symm.trans hbuf)
  refine ⟨value.1, (((s.near.pipe link).wrote.drop (s.heard.length + 1)).map Prod.fst).flatten,
    ?_, by simp [hvalue], hlt, ?_⟩
  · rw [hflight, List.drop_eq_getElem_cons hlt, List.map_cons, List.flatten_cons, hsame, hread]
  · have hsplit : ((s.near.pipe link).wrote.map Prod.fst).flatten =
        (((s.near.pipe link).wrote.take (s.heard.length + 1)).map Prod.fst).flatten ++
          (((s.near.pipe link).wrote.drop (s.heard.length + 1)).map Prod.fst).flatten := by
      rw [← List.flatten_append, ← List.map_append, List.take_append_drop]
    rw [hwire, hsplit, List.length_append]
    omega

theorem Joined.deliverStep (h : Joined lib link port s) (hparse : lib.pb.ParseUndoesAppend)
    (hcast : lib.pb.CastsBack) (hstep : s.deliver lib link port l = .ok s') :
    Joined lib link port s' := by
  unfold deliver at hstep
  split at hstep
  · cases hstep
    exact h
  · rename_i p hp
    split at hstep
    · rename_i hready
      obtain ⟨hreading, hframe⟩ := hready
      obtain ⟨read, hread, hstep⟩ := bind_returns hstep
      obtain ⟨k', hfar, hstep⟩ := bind_returns hstep
      cases hstep
      refine ⟨h.near, .step h.far hfar, fun hfaithful => ?_, ?_, ?_⟩
      · have hfollows := h.follows hfaithful
        obtain ⟨packet, rest, hnext, hat, hlt, htaken⟩ :=
          hfollows.next h.near hfaithful hparse hcast hframe l
        rw [hread] at hnext
        cases hnext
        refine ⟨?_, ?_, ?_⟩
        · simp [List.take_add_one, hat, hfollows.heard]
        · simpa using hlt
        · simpa using htaken
      · have hmessages := Kernel.step_messages hfar
        have hbrought : (Kernel.brought s.far (.read port read.packet)).toList =
            read.packet.toList.map (·, p.avif) := by
          cases hpacket : read.packet with
          | none => rfl
          | some packet => simp [Kernel.brought, hp, hreading]
        rw [hbrought] at hmessages
        refine hmessages.trans ?_
        rw [List.filterMap_append]
        exact (List.subperm_append_right _).mpr h.messages
      · intro came hcame
        rcases List.mem_append.mp hcame with hcame | hcame
        · exact (h.avif came hcame).step hfar
        · obtain ⟨packet, -, rfl⟩ := List.mem_map.mp hcame
          exact Kernel.step_port_avif hfar hp
    · cases hstep
      exact h

theorem Joined.step (h : Joined lib link port s) (hparse : lib.pb.ParseUndoesAppend)
    (hcast : lib.pb.CastsBack) (hstep : s.step lib link port event = .ok s') :
    Joined lib link port s' := by
  cases event with
  | near event =>
    obtain ⟨k', hnear, rfl⟩ := map_returns hstep
    exact h.nearStep hnear
  | far event =>
    simp only [Session.step] at hstep
    split at hstep
    · cases hstep
      exact h
    · rename_i hbrings
      obtain ⟨k', hfar, rfl⟩ := map_returns hstep
      exact h.farStep hfar (by simpa using hbrings)
  | deliver l => exact h.deliverStep hparse hcast hstep

/-- As long as `near` is faithful, `far` hears what `near` enqueued, in order,
with nothing left out, and what is in flight are the frames that come next. -/
theorem heard_in_order (hparse : lib.pb.ParseUndoesAppend) (hcast : lib.pb.CastsBack)
    (events : List SessionEvent) :
    Lib.Run.Always (step lib link port) (fun s => Faithful lib link s.near → InOrder lib link s)
      initial events :=
  Lib.Run.always_of_invariant (I := Joined lib link port) joined_initial
    (fun _ _ _ hstep hs => hs.step hparse hcast hstep)
    (fun _ hs hfaithful => (hs.follows hfaithful).inOrder hs.near hfaithful) events

def samplePeer : Avif where
  id := 1
  ifname := .stable (text "eth1")
  ifAddress := ⟨text "a", text "x", none⟩
  rsaKey := sampleKey
  cert := certificate (text "a@x") sampleKey.toRSA

/-- Two messages from `near` to the application of `far`. -/
def sampleRun : List SessionEvent :=
  (Kernel.writingRun [.writeDone 0 true, .asyncSendto (text "a@x") (text "ho") 2, .runPosted,
      .writeDone 0 true]).map .near ++
    [.far (.addInterface samplePeer), .far (.startRunner 0), .deliver 9, .far (.process 0 1),
      .deliver 7, .far (.process 0 2), .far .asyncRecvfrom, .far .runPosted, .far .asyncRecvfrom,
      .far .runPosted]

def toldIn (s : Session) : List (Bytes × Bytes) :=
  (s.far.trace.filterMap Kernel.answerOf).map Kernel.Answer.message

theorem sampleRun_faithful :
    ∃ s, sampleRun.foldlM (step Kernel.sampleLibs 2 0) initial = .ok s ∧
      Faithful Kernel.sampleLibs 2 s.near ∧ s.heard.length = 2 ∧
      toldIn s = [(text "b@x", text "hi"), (text "b@x", text "ho")] := by
  have hrun : (sampleRun.foldlM (step Kernel.sampleLibs 2 0) initial).map (fun s : Session =>
      decide ((s.near.writersOn 2).length ≤ 1 ∧
        (∀ value ∈ (s.near.pipe 2).enqueued, ((pool .consecutive).appendToString
          ((pool .consecutive).ofAvPacket value.1)).any fun body => !body.isEmpty &&
            decide (frameSize ((pool .consecutive).getTypeName
              ((pool .consecutive).ofAvPacket value.1)) body < 2 ^ 31)) ∧
        (∀ effect ∈ s.near.trace, Kernel.failedOn 2 effect = false) ∧ s.heard.length = 2 ∧
        toldIn s = [(text "b@x", text "hi"), (text "b@x", text "ho")])) = .ok true := by
    decide +kernel
  obtain ⟨s, hs, hfacts⟩ := map_returns hrun
  obtain ⟨hsole, hfits, hunfailed, hheard, htold⟩ := of_decide_eq_true hfacts
  refine ⟨s, hs, ⟨hsole, fun value hvalue => ?_, hunfailed⟩, hheard, htold⟩
  exact ⟨pool_registered _ _, serializes_of_fits _ (hfits value hvalue)⟩

theorem heard_in_order_sample :
    Lib.Run.Always (step Kernel.sampleLibs 2 0)
      (fun s => Faithful Kernel.sampleLibs 2 s.near → InOrder Kernel.sampleLibs 2 s) initial
      sampleRun ∧
    ∃ s, sampleRun.foldlM (step Kernel.sampleLibs 2 0) initial = .ok s ∧
      Faithful Kernel.sampleLibs 2 s.near ∧ s.heard.length = 2 := by
  obtain ⟨s, hs, hfaithful, hheard, -⟩ := sampleRun_faithful
  exact ⟨heard_in_order (pool_parses _) (pool_casts _) sampleRun, s, hs, hfaithful, hheard⟩

/-- The application of `far` is told nothing but what the packets that `near`
enqueued open to, and nothing more often than it was enqueued. -/
theorem told_of_enqueued (hparse : lib.pb.ParseUndoesAppend) (hcast : lib.pb.CastsBack)
    (events : List SessionEvent) :
    Lib.Run.Always (step lib link port) (fun s => Faithful lib link s.near →
      ∀ p, s.far.ports[port]? = some p →
        ((s.far.trace.filterMap Kernel.answerOf).map Kernel.Answer.message).Subperm
          ((s.near.pipe link).enqueued.filterMap fun value => Kernel.opens lib (value.1, p.avif)))
      initial events := by
  refine Lib.Run.always_of_invariant (I := Joined lib link port) joined_initial
    (fun _ _ _ hstep hs => hs.step hparse hcast hstep) ?_ events
  intro s hs hfaithful p hp
  have hfollows := hs.follows hfaithful
  -- told, then pushed
  have htold : ((s.far.trace.filterMap Kernel.answerOf).map Kernel.Answer.message).Sublist
      s.far.messages := by
    have hmessages : (s.far.trace.filterMap Kernel.answerOf ++
        s.far.posted.filterMap Kernel.postedAnswer).map Kernel.Answer.message ++
          s.far.recvBuffer.list = s.far.messages := hs.far.inbox.messages
    rw [← hmessages, List.map_append, List.append_assoc]
    exact List.sublist_append_left _ _
  -- heard, then enqueued
  have hheard : (s.heard.filterMap (Kernel.opens lib)).Sublist
      ((s.near.pipe link).enqueued.filterMap fun value => Kernel.opens lib (value.1, p.avif)) := by
    have hcame : ∀ came ∈ s.heard, Kernel.opens lib came = Kernel.opens lib (came.1, p.avif) := by
      intro came hcame
      obtain ⟨q, hq, havif⟩ := hs.avif came hcame
      rw [Option.some.inj (hp.symm.trans hq), havif]
    have hall : s.heard.filterMap (Kernel.opens lib) =
        (((s.near.pipe link).enqueued.map Prod.fst).take s.heard.length).filterMap
          fun packet => Kernel.opens lib (packet, p.avif) := by
      rw [← hfollows.heard, List.filterMap_map]
      exact List.filterMap_congr hcame
    have hsome := (List.take_sublist s.heard.length
      ((s.near.pipe link).enqueued.map Prod.fst)).filterMap
        fun packet => Kernel.opens lib (packet, p.avif)
    rw [← hall, List.filterMap_map] at hsome
    exact hsome
  refine htold.subperm.trans (List.Subperm.trans ?_ hheard.subperm)
  exact (List.sublist_append_left _ _).subperm.trans hs.messages

theorem told_of_enqueued_sample :
    Lib.Run.Always (step Kernel.sampleLibs 2 0) (fun s => Faithful Kernel.sampleLibs 2 s.near →
      ∀ p, s.far.ports[0]? = some p →
        ((s.far.trace.filterMap Kernel.answerOf).map Kernel.Answer.message).Subperm
          ((s.near.pipe 2).enqueued.filterMap
            fun value => Kernel.opens Kernel.sampleLibs (value.1, p.avif))) initial sampleRun ∧
    ∃ s, sampleRun.foldlM (step Kernel.sampleLibs 2 0) initial = .ok s ∧
      Faithful Kernel.sampleLibs 2 s.near ∧
      toldIn s = [(text "b@x", text "hi"), (text "b@x", text "ho")] := by
  obtain ⟨s, hs, hfaithful, -, htold⟩ := sampleRun_faithful
  exact ⟨told_of_enqueued (pool_parses _) (pool_casts _) sampleRun, s, hs, hfaithful, htold⟩

end Session

end Avim
