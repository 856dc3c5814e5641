import Avim.KernelLaws

/-!
# Steps as sequences of moves

A step of the kernel is long where it processes a packet or sweeps the
waiters. `Move` lists what happens on the way, one state change at a time, and
`step_moves` takes every step apart. What each move keeps, every step keeps
(`step_keeps`), and so does every run.
-/

namespace Avim.Kernel

open Lib.Octets Relation

inductive Move (lib : Libs) (k : Kernel) : Kernel → Prop
  | addInterface (avif : Avif) : Move lib k (k.addInterface avif)
  | addRoute (targetAddress gateway ifname : Bytes) (metric : Int) : Move lib k
      { k with
        routing := (k.routing.addRoute lib.regex lib.std targetAddress gateway ifname metric).1 }
  | count (t : Nat) : Move lib k { k with ifCounter := t }
  | call : asyncSendto lib k target data now = .ok k' → Move lib k k'
  | asyncRecvfrom : Move lib k k.asyncRecvfrom
  | spawn (packet : AvPacket) (avif : Avif) :
      Move lib k { k with spawned := k.spawned ++ [(packet, avif)] }
  | quit (link : Nat) : Move lib k (k.quit link)
  | runner : k.ports[port]? = some p → Move lib k (k.runnerLoop port p)
  | start (index : Nat) : Move lib k { k with spawned := k.spawned.eraseIdx index }
  | store (address : Bytes) (rsa : RSA) (now : Int) : Move lib k (addKey lib k address rsa now)
  | reply (avif : Avif) (target : Bytes) : Move lib k (k.asyncSendAgmpPkreply avif target)
  | push (sender payload : Bytes) : Move lib k (k.pushReceived sender payload)
  | forward (avif : Avif) (packet : AvPacket) :
      Move lib k (k.asyncInterfaceWritePacket avif .forwarded packet)
  -- A waiter is resumed and then taken out of the list.
  | resume : k.waiters[i]? = some w → sendOrAsk lib k w.op now = .ok resumed →
      Move lib k { resumed with waiters := resumed.waiters.eraseIdx i }
  | writer : k.ports[port]? = some p → p.writer = .spawned → Move lib k (k.writerLoop port p)
  | wrote (written : Bool) : k.ports[port]? = some p → p.writer = .writing bytes handler →
      Move lib k (k.writerWrote port p bytes handler written)
  | posted : runPosted lib k = .ok k' → Move lib k k'
  | purge : k.trustedPubkey.purgeRSAPubkey now = .ok store →
      Move lib k { k with trustedPubkey := store }

variable {lib : Libs} {k k' : Kernel}

theorem sweep_moves (h : sweep lib due k now = .ok k') : ReflTransGen (Move lib) k k' :=
  sweep_resumes (I := ReflTransGen (Move lib) k)
    (fun _ _ _ _ hw hres hk => hk.tail (.resume hw hres)) .refl h

theorem checkKey_moves (h : checkKey lib k packet now = .ok k') :
    ReflTransGen (Move lib) k k' := by
  obtain ⟨_, -, ⟨-, -, rfl⟩ | ⟨-, rfl⟩⟩ := checkKey_cases h
  · exact .single (.store _ _ _)
  · exact .refl

theorem toMe_moves (h : processRecivedPacketToMe lib k packet avif now = .ok k') :
    ReflTransGen (Move lib) k k' := by
  obtain ⟨-, rfl⟩ | ⟨-, rsa, -, rfl⟩ | ⟨-, -, payload, -, ⟨-, rfl⟩ | ⟨-, rfl⟩⟩ := toMe_cases h
  · exact .single (.reply _ _)
  · exact .single (.store _ _ _)
  · exact .single (.push _ _)
  · exact .refl

theorem forward_moves (h : forward lib k packet = .ok k') : ReflTransGen (Move lib) k k' := by
  obtain rfl | ⟨-, interface, t, -, rfl⟩ := forward_cases h
  · exact .refl
  · exact .tail (.single (.count t)) (.forward _ _)

theorem processRecivedPacket_moves (h : processRecivedPacket lib k packet avif now = .ok k') :
    ReflTransGen (Move lib) k k' := by
  obtain ⟨checked, handled, hchecked, hhandled, hswept⟩ := processRecivedPacket_returns h
  refine (checkKey_moves hchecked).trans (.trans ?_ (sweep_moves hswept))
  rcases hhandled with ⟨-, hhandled⟩ | ⟨-, hhandled⟩
  · exact toMe_moves hhandled
  · exact forward_moves hhandled

theorem runnerRead_moves (hp : k.ports[port]? = some p) (packet : Option AvPacket) :
    ReflTransGen (Move lib) k (k.runnerRead port p packet) := by
  cases packet with
  | some packet => exact .tail (.single (.spawn packet p.avif)) (.runner hp)
  | none => exact .tail (.single (.quit p.avif.id)) (.runner hp)

theorem step_moves (h : step lib k event = .ok k') : ReflTransGen (Move lib) k k' := by
  cases step_does h with
  | nothing => exact .refl
  | addInterface avif => exact .single (.addInterface avif)
  | addRoute targetAddress gateway ifname metric => exact .single (.addRoute _ _ _ _)
  | getIfname avif => exact .single (.count _)
  | asyncSendto hcall => exact .single (.call hcall)
  | asyncRecvfrom => exact .single .asyncRecvfrom
  | startRunner hp _ => exact .single (.runner hp)
  | read packet hp _ => exact runnerRead_moves hp packet
  | process _ hprocess => exact .head (.start _) (processRecivedPacket_moves hprocess)
  | startWriter hp hspawned => exact .single (.writer hp hspawned)
  | writeDone written hp hwriting => exact .single (.wrote written hp hwriting)
  | runPosted hposted => exact .single (.posted hposted)
  | timer1 hsweep => exact sweep_moves hsweep
  | timer2 hpurge => exact .single (.purge hpurge)

/-- What every move keeps, every step keeps. -/
theorem step_keeps {I : Kernel → Prop} (hmove : ∀ k k', Move lib k k' → I k → I k')
    (h : step lib k event = .ok k') (hk : I k) : I k' := by
  have hmoves := step_moves h
  clear h
  induction hmoves with
  | refl => exact hk
  | tail _ hm ih => exact hmove _ _ hm ih

-- ---------------------------------------------------------------------------
-- What a call leaves alone
-- ---------------------------------------------------------------------------

theorem sendOrAsk_same (h : sendOrAsk lib k op now = .ok k') :
    k'.routing = k.routing ∧ k'.trustedPubkey = k.trustedPubkey ∧ k'.ports = k.ports ∧
      k'.sends = k.sends := by
  obtain ⟨key, avif, second, -, -, rfl⟩ | ⟨avif, -, -, -, rfl⟩ | ⟨-, -, rfl⟩ := sendOrAsk_cases h
  · exact ⟨rfl, rfl, rfl, rfl⟩
  · exact ⟨rfl, rfl, rfl, rfl⟩
  · exact ⟨rfl, rfl, rfl, rfl⟩

theorem sweep_same (h : sweep lib due k now = .ok k') :
    k'.routing = k.routing ∧ k'.trustedPubkey = k.trustedPubkey ∧ k'.ports = k.ports ∧
      k'.sends = k.sends := by
  refine sweep_keeps (I := fun k' => k'.routing = k.routing ∧
    k'.trustedPubkey = k.trustedPubkey ∧ k'.ports = k.ports ∧ k'.sends = k.sends)
    ?_ (fun _ _ hk => hk) ⟨rfl, rfl, rfl, rfl⟩ h
  intro before op after hres hk
  obtain ⟨hrouting, hkeys, hports, hsends⟩ := sendOrAsk_same hres
  rw [hrouting, hkeys, hports, hsends]
  exact hk

theorem asyncSendto_same (h : asyncSendto lib k target data now = .ok k') :
    k'.routing = k.routing ∧ k'.trustedPubkey = k.trustedPubkey ∧ k'.ports = k.ports ∧
      k'.sends = k.sends + 1 := by
  obtain ⟨-, rfl⟩ | ⟨interface, -, hsend⟩ := asyncSendto_cases h
  · exact ⟨rfl, rfl, rfl, rfl⟩
  · obtain ⟨hrouting, hkeys, hports, hsends⟩ := sendOrAsk_same hsend
    exact ⟨hrouting, hkeys, hports, hsends⟩

theorem runPosted_same (h : runPosted lib k = .ok k') :
    k'.routing = k.routing ∧ k'.trustedPubkey = k.trustedPubkey ∧ k'.waiters = k.waiters ∧
      k'.sends = k.sends := by
  obtain ⟨-, rfl⟩ | ⟨port, ec, value, rest, -, ⟨-, rfl⟩ | ⟨p, -, ⟨-, rfl⟩ | ⟨bytes, -, -, rfl⟩⟩⟩ |
    ⟨call, ec, value, rest, -, rfl⟩ := runPosted_cases h
  · exact ⟨rfl, rfl, rfl, rfl⟩
  · exact ⟨rfl, rfl, rfl, rfl⟩
  · exact ⟨rfl, rfl, rfl, rfl⟩
  · exact ⟨rfl, rfl, rfl, rfl⟩
  · exact ⟨rfl, rfl, rfl, rfl⟩

theorem writerLoop_same (k : Kernel) (port : Nat) (p : Port) :
    (k.writerLoop port p).routing = k.routing ∧
      (k.writerLoop port p).trustedPubkey = k.trustedPubkey ∧
      (k.writerLoop port p).waiters = k.waiters ∧ (k.writerLoop port p).sends = k.sends := by
  unfold writerLoop
  split
  · exact ⟨rfl, rfl, rfl, rfl⟩
  · exact ⟨rfl, rfl, rfl, rfl⟩

theorem writerWrote_same (k : Kernel) (port : Nat) (p : Port) (bytes : Bytes)
    (handler : Option Nat) (written : Bool) :
    (k.writerWrote port p bytes handler written).routing = k.routing ∧
      (k.writerWrote port p bytes handler written).trustedPubkey = k.trustedPubkey ∧
      (k.writerWrote port p bytes handler written).waiters = k.waiters ∧
      (k.writerWrote port p bytes handler written).sends = k.sends := by
  cases handler with
  | none => exact writerLoop_same _ _ _
  | some send => exact writerLoop_same _ _ _

-- ---------------------------------------------------------------------------
-- Standing invariants
-- ---------------------------------------------------------------------------

theorem Move.trustedPubkey (h : Move lib k k') :
    k'.trustedPubkey = k.trustedPubkey ∨
    (∃ address rsa until',
      k'.trustedPubkey = k.trustedPubkey.addRSAPubkey lib.std address rsa until') ∨
    (∃ now, k.trustedPubkey.purgeRSAPubkey now = .ok k'.trustedPubkey) := by
  cases h with
  | call h => exact .inl (asyncSendto_same h).2.1
  | resume _ h => exact .inl (sendOrAsk_same h).2.1
  | posted h => exact .inl (runPosted_same h).2.1
  | writer _ _ => exact .inl (writerLoop_same _ _ _).2.1
  | wrote _ _ _ => exact .inl (writerWrote_same _ _ _ _ _ _).2.1
  | @runner port p _ =>
    obtain ⟨-, heq⟩ | ⟨-, heq⟩ := runnerLoop_cases k port p
    · exact .inl (by rw [heq]; rfl)
    · exact .inl (by rw [heq]; rfl)
  | store address rsa now => exact .inr (.inl ⟨address, rsa, _, rfl⟩)
  | @purge now store h => exact .inr (.inr ⟨now, h⟩)
  | _ => exact .inl rfl

theorem Move.routing (h : Move lib k k') :
    k'.routing = k.routing ∨
    (∃ avif, k'.routing = (k.routing.addInterface k.ifCounter avif).1) ∨
    (∃ targetAddress gateway ifname metric, k'.routing =
      (k.routing.addRoute lib.regex lib.std targetAddress gateway ifname metric).1) ∨
    (∃ name, k'.routing = k.routing.removeInterface name) := by
  cases h with
  | addInterface avif => exact .inr (.inl ⟨avif, rfl⟩)
  | addRoute targetAddress gateway ifname metric => exact .inr (.inr (.inl ⟨_, _, _, _, rfl⟩))
  | call h => exact .inl (asyncSendto_same h).1
  | resume _ h => exact .inl (sendOrAsk_same h).1
  | posted h => exact .inl (runPosted_same h).1
  | writer _ _ => exact .inl (writerLoop_same _ _ _).1
  | wrote _ _ _ => exact .inl (writerWrote_same _ _ _ _ _ _).1
  | @runner port p _ =>
    obtain ⟨-, heq⟩ | ⟨-, heq⟩ := runnerLoop_cases k port p
    · exact .inr (.inr (.inr ⟨_, by rw [heq]; rfl⟩))
    · exact .inl (by rw [heq]; rfl)
  | _ => exact .inl rfl

/-- The tables a kernel works on: every key entry has a key, and the routes
name registered interfaces in order of their metrics. -/
structure Standing (k : Kernel) : Prop where
  filled : k.trustedPubkey.Filled
  wellFormed : k.routing.WellFormed

theorem standing_initial : Standing initial := ⟨KeyStore.filled_empty, Routing.wellFormed_empty⟩

theorem Standing.move (h : Standing k) (hmove : Move lib k k') : Standing k' := by
  constructor
  · obtain heq | ⟨address, rsa, until', heq⟩ | ⟨now, hpurge⟩ := hmove.trustedPubkey
    · rw [heq]
      exact h.filled
    · rw [heq]
      exact h.filled.add address rsa until'
    · exact h.filled.purge hpurge
  · obtain heq | ⟨avif, heq⟩ | ⟨targetAddress, gateway, ifname, metric, heq⟩ | ⟨name, heq⟩ :=
      hmove.routing
    · rw [heq]
      exact h.wellFormed
    · rw [heq]
      exact h.wellFormed.addInterface _ avif
    · rw [heq]
      exact h.wellFormed.addRoute targetAddress gateway ifname metric
    · rw [heq]
      exact h.wellFormed.removeInterface name

theorem Standing.checkKey (h : Standing k) (hchecked : checkKey lib k packet now = .ok k') :
    Standing k' := by
  obtain ⟨_, -, ⟨-, -, rfl⟩ | ⟨-, rfl⟩⟩ := checkKey_cases hchecked
  · have hmove : Move lib k (addKey lib k (avAddressToString packet.src) (carriedKey packet) now) :=
      .store _ _ _
    exact h.move hmove
  · exact h

theorem Standing.step (h : Standing k) (hstep : step lib k event = .ok k') : Standing k' :=
  step_keeps (fun _ _ hmove hk => hk.move hmove) hstep h

end Avim.Kernel
