import Avim.Kernel

/-!
# What the parts of a step can do

One inversion lemma for each part of the kernel that other results take apart,
one for the whole step (`step_does`), and the rule for sweeps: what every
resumed call keeps, the sweep keeps.
-/

namespace Avim.Kernel

open Lib.Octets

section

variable (k : Kernel)

@[simp] theorem record_trace (effect : Effect) :
    (k.record effect).trace = k.trace ++ [effect] := rfl

@[simp] theorem onQueue_trace (link : Nat) (result) : (k.onQueue link result).trace = k.trace := rfl

@[simp] theorem asyncInterfaceWritePacket_trace (avif : Avif) (cause : Cause) (packet : AvPacket) :
    (k.asyncInterfaceWritePacket avif cause packet).trace =
      k.trace ++ [.enqueued avif.id cause packet] := rfl

@[simp] theorem asyncSendAgmpPkask_trace (send : Nat) (avif : Avif) (target : Bytes) :
    (k.asyncSendAgmpPkask send avif target).trace =
      k.trace ++ [.enqueued avif.id (.pkask send) (pkask avif.ifAddress target)] := rfl

@[simp] theorem asyncSendAgmpPkreply_trace (avif : Avif) (target : Bytes) :
    (k.asyncSendAgmpPkreply avif target).trace =
      k.trace ++ [.enqueued avif.id .pkreply (pkreply avif target)] := rfl

@[simp] theorem pushReceived_trace (sender payload : Bytes) :
    (k.pushReceived sender payload).trace = k.trace ++ [.pushed sender payload] := rfl

@[simp] theorem addKey_trace (lib : Libs) (address : Bytes) (rsa : RSA) (now : Int) :
    (addKey lib k address rsa now).trace = k.trace := rfl

@[simp] theorem writerLoop_trace (port : Nat) (p : Port) :
    (k.writerLoop port p).trace = k.trace := by
  unfold writerLoop
  split <;> rfl

@[simp] theorem runnerLoop_trace (port : Nat) (p : Port) :
    (k.runnerLoop port p).trace = k.trace := by
  unfold runnerLoop
  split <;> rfl

@[simp] theorem runnerRead_trace (port : Nat) (p : Port) (packet : Option AvPacket) :
    (k.runnerRead port p packet).trace = k.trace := by
  cases packet with
  | some packet => exact runnerLoop_trace _ _ _
  | none => exact runnerLoop_trace _ _ _

end

variable {lib : Libs} {k k' : Kernel}

-- ---------------------------------------------------------------------------
-- Sending
-- ---------------------------------------------------------------------------

theorem sendData_returns (h : sendData lib k op key = .ok k') :
    ∃ firstPubencode avif secondSign,
      rsaPublicEncrypt lib.ossl k.draws key op.data = .ok firstPubencode ∧
      k.routing.deref op.interface = .ok avif ∧
      rsaPrivateEncrypt lib.ossl avif.rsaKey firstPubencode = .ok secondSign ∧
      k' = { k with draws := k.draws + op.data.length }.asyncInterfaceWritePacket avif
        (.data op.send) (dataPacket avif op.target secondSign) := by
  unfold sendData at h
  obtain ⟨firstPubencode, hfirst, h⟩ := bind_returns h
  obtain ⟨avif, hif, h⟩ := bind_returns h
  obtain ⟨secondSign, hsecond, h⟩ := bind_returns h
  exact ⟨firstPubencode, avif, secondSign, hfirst, hif, hsecond, (Except.ok.inj h).symm⟩

theorem askKey_returns (h : askKey k op now = .ok k') :
    ∃ avif, k.routing.deref op.interface = .ok avif ∧
      k' = { k.asyncSendAgmpPkask op.send avif op.target with
        waiters := k.waiters ++ [⟨now + 8 * 1000000, { op with asks := op.asks + 1 }⟩] } := by
  unfold askKey at h
  obtain ⟨avif, hif, h⟩ := bind_returns h
  exact ⟨avif, hif, (Except.ok.inj h).symm⟩

/-- Everything a call can do between two suspensions, once its interface is
chosen. -/
theorem sendOrAsk_cases (h : sendOrAsk lib k op now = .ok k') :
    (∃ key avif secondSign, k.trustedPubkey.findRSAPubkey op.target = .ok (some key) ∧
      k.routing.deref op.interface = .ok avif ∧
      k' = { k with draws := k.draws + op.data.length }.asyncInterfaceWritePacket avif
        (.data op.send) (dataPacket avif op.target secondSign)) ∨
    (∃ avif, k.trustedPubkey.findRSAPubkey op.target = .ok none ∧ op.asks < 3 ∧
      k.routing.deref op.interface = .ok avif ∧
      k' = { k.asyncSendAgmpPkask op.send avif op.target with
        waiters := k.waiters ++ [⟨now + 8 * 1000000, { op with asks := op.asks + 1 }⟩] }) ∨
    (k.trustedPubkey.findRSAPubkey op.target = .ok none ∧ 3 ≤ op.asks ∧
      k' = k.record (.completed op.send .networkUnreachable)) := by
  unfold sendOrAsk at h
  obtain ⟨found, hfound, h⟩ := bind_returns h
  cases found with
  | some key =>
    obtain ⟨_, avif, secondSign, -, hif, -, hk⟩ := sendData_returns h
    exact .inl ⟨key, avif, secondSign, hfound, hif, hk⟩
  | none =>
    by_cases hasks : op.asks < 3
    · rw [if_pos hasks] at h
      obtain ⟨avif, hif, hk⟩ := askKey_returns h
      exact .inr (.inl ⟨avif, hfound, hasks, hif, hk⟩)
    · rw [if_neg hasks] at h
      exact .inr (.inr ⟨hfound, by omega, (Except.ok.inj h).symm⟩)

theorem asyncSendto_cases (h : asyncSendto lib k target data now = .ok k') :
    (k.routing.selectRoute lib.regex target = .ok none ∧
      k' = { k with sends := k.sends + 1 }.record (.completed k.sends .networkUnreachable)) ∨
    (∃ interface, k.routing.selectRoute lib.regex target = .ok (some interface) ∧
      sendOrAsk lib { k with sends := k.sends + 1 } ⟨k.sends, target, data, interface, 0⟩ now =
        .ok k') := by
  unfold asyncSendto at h
  obtain ⟨found, hfound, h⟩ := bind_returns h
  cases found with
  | none => exact .inl ⟨hfound, (Except.ok.inj h).symm⟩
  | some interface => exact .inr ⟨interface, hfound, h⟩

-- ---------------------------------------------------------------------------
-- Sweeps
-- ---------------------------------------------------------------------------

/-- What holds again after a due waiter was resumed and taken out of the list,
holds after a sweep. -/
theorem sweepFrom_resumes {I : Kernel → Prop}
    (hresume : ∀ k i w resumed, k.waiters[i]? = some w →
      sendOrAsk lib k w.op now = .ok resumed → I k →
      I { resumed with waiters := resumed.waiters.eraseIdx i })
    (hk : I k) (h : sweepFrom lib due now fuel k i = .ok k') : I k' := by
  induction fuel generalizing k i with
  | zero => cases h
  | succ fuel ih =>
    unfold sweepFrom at h
    split at h
    · cases h
      exact hk
    · rename_i w hw
      obtain ⟨isDue, -, h⟩ := bind_returns h
      cases isDue with
      | true =>
        obtain ⟨resumed, hres, h⟩ := bind_returns h
        exact ih (hresume _ _ _ _ hw hres hk) h
      | false => exact ih hk h

theorem sweep_resumes {I : Kernel → Prop}
    (hresume : ∀ k i w resumed, k.waiters[i]? = some w →
      sendOrAsk lib k w.op now = .ok resumed → I k →
      I { resumed with waiters := resumed.waiters.eraseIdx i })
    (hk : I k) (h : sweep lib due k now = .ok k') : I k' :=
  sweepFrom_resumes hresume hk h

theorem sweep_keeps {I : Kernel → Prop}
    (hresume : ∀ k op k', sendOrAsk lib k op now = .ok k' → I k → I k')
    (hwaiters : ∀ k waiters, I k → I { k with waiters := waiters })
    (hk : I k) (h : sweep lib due k now = .ok k') : I k' :=
  sweep_resumes (fun _ _ _ _ _ hres hk => hwaiters _ _ (hresume _ _ _ hres hk)) hk h

-- ---------------------------------------------------------------------------
-- Receiving
-- ---------------------------------------------------------------------------

theorem checkKey_cases (h : checkKey lib k packet now = .ok k') :
    ∃ stored, k.trustedPubkey.findRSAPubkey (avAddressToString packet.src) = .ok stored ∧
      ((stored.isNone = true ∧ packet.publickey.isSome = true ∧
        k' = addKey lib k (avAddressToString packet.src) (carriedKey packet) now) ∨
      ((stored.isSome = true ∨ packet.publickey.isNone = true) ∧ k' = k)) := by
  unfold checkKey at h
  obtain ⟨stored, hstored, h⟩ := bind_returns h
  refine ⟨stored, hstored, ?_⟩
  split at h
  · rename_i hfirst
    simp only [Bool.and_eq_true] at hfirst
    exact .inl ⟨hfirst.1, hfirst.2, (Except.ok.inj h).symm⟩
  · rename_i hknown
    refine .inr ⟨?_, (Except.ok.inj h).symm⟩
    cases stored <;> simp_all

theorem checkKey_trace (h : checkKey lib k packet now = .ok k') : k'.trace = k.trace := by
  obtain ⟨_, -, ⟨-, -, rfl⟩ | ⟨-, rfl⟩⟩ := checkKey_cases h
  · rfl
  · rfl

theorem toMe_cases (h : processRecivedPacketToMe lib k packet avif now = .ok k') :
    (packet.upperlayerpotocol = text "pkask" ∧
      k' = k.asyncSendAgmpPkreply avif (avAddressToString packet.src)) ∨
    (packet.upperlayerpotocol = text "pkreply" ∧
      ∃ rsa, certificateKey lib (packet.payload.getD []) = .ok rsa ∧
        k' = addKey lib k (avAddressToString packet.src) rsa now) ∨
    (packet.upperlayerpotocol ≠ text "pkask" ∧ packet.upperlayerpotocol ≠ text "pkreply" ∧
      ∃ payload, decryptPayload lib (carriedKey packet) avif.rsaKey packet.payload = .ok payload ∧
        ((packet.upperlayerpotocol = text "avim" ∧
          k' = k.pushReceived (avAddressToString packet.src) payload) ∨
        (packet.upperlayerpotocol ≠ text "avim" ∧ k' = k))) := by
  unfold processRecivedPacketToMe at h
  dsimp only at h
  split at h
  · rename_i hask
    exact .inl ⟨hask, (Except.ok.inj h).symm⟩
  · rename_i hask
    split at h
    · rename_i hreply
      obtain ⟨rsa, hrsa, h⟩ := bind_returns h
      exact .inr (.inl ⟨hreply, rsa, hrsa, (Except.ok.inj h).symm⟩)
    · rename_i hreply
      obtain ⟨payload, hpayload, h⟩ := bind_returns h
      refine .inr (.inr ⟨hask, hreply, payload, hpayload, ?_⟩)
      split at h
      · rename_i havim
        exact .inl ⟨havim, (Except.ok.inj h).symm⟩
      · rename_i havim
        exact .inr ⟨havim, (Except.ok.inj h).symm⟩

theorem forward_cases (h : forward lib k packet = .ok k') :
    k' = k ∨
    (1 < packet.timeToLive ∧ ∃ interface t,
      k.routing.selectRoute lib.regex (avAddressToString packet.dest) = .ok (some interface) ∧
      k' = { k with ifCounter := t }.asyncInterfaceWritePacket interface.avif .forwarded
        { packet with timeToLive := packet.timeToLive - 1 }) := by
  unfold forward at h
  split at h
  · exact .inl (Except.ok.inj h).symm
  · rename_i httl
    obtain ⟨found, hfound, h⟩ := bind_returns h
    cases found with
    | none => exact .inl (Except.ok.inj h).symm
    | some interface => exact .inr ⟨by omega, interface, _, hfound, (Except.ok.inj h).symm⟩

theorem checkKey_isToMe (h : checkKey lib k packet now = .ok k') (addr : AvAddress) :
    k'.isToMe addr = k.isToMe addr := by
  obtain ⟨_, -, ⟨-, -, rfl⟩ | ⟨-, rfl⟩⟩ := checkKey_cases h
  · rfl
  · rfl

theorem deliverOrForward_pkask (hme : k.isToMe packet.dest = true)
    (hask : packet.upperlayerpotocol = text "pkask") (avif : Avif) (now : Int) :
    deliverOrForward lib k packet avif now =
      .ok (k.asyncSendAgmpPkreply avif (avAddressToString packet.src)) := by
  simp [deliverOrForward, hme, processRecivedPacketToMe, hask]

theorem deliverOrForward_pkreply (hme : k.isToMe packet.dest = true)
    (hreply : packet.upperlayerpotocol = text "pkreply")
    (hcert : certificateKey lib (packet.payload.getD []) = .ok rsa) (avif : Avif) (now : Int) :
    deliverOrForward lib k packet avif now =
      .ok (addKey lib k (avAddressToString packet.src) rsa now) := by
  have hask : text "pkreply" ≠ text "pkask" := by decide
  simp [deliverOrForward, hme, processRecivedPacketToMe, hreply, hask, hcert]

theorem deliverOrForward_cases (hchecked : checkKey lib k packet now = .ok checked)
    (h : deliverOrForward lib checked packet avif now = .ok handled) :
    (k.isToMe packet.dest = true ∧
      processRecivedPacketToMe lib checked packet avif now = .ok handled) ∨
    (k.isToMe packet.dest = false ∧ forward lib checked packet = .ok handled) := by
  rw [deliverOrForward, checkKey_isToMe hchecked] at h
  split at h
  · rename_i hto
    exact .inl ⟨hto, h⟩
  · rename_i hto
    exact .inr ⟨by simpa using hto, h⟩

theorem processRecivedPacket_returns (h : processRecivedPacket lib k packet avif now = .ok k') :
    ∃ checked handled, checkKey lib k packet now = .ok checked ∧
      ((k.isToMe packet.dest = true ∧
        processRecivedPacketToMe lib checked packet avif now = .ok handled) ∨
      (k.isToMe packet.dest = false ∧ forward lib checked packet = .ok handled)) ∧
      sweep lib (answered packet) handled now = .ok k' := by
  unfold processRecivedPacket at h
  obtain ⟨checked, hchecked, h⟩ := bind_returns h
  obtain ⟨handled, hhandled, h⟩ := bind_returns h
  exact ⟨checked, handled, hchecked, deliverOrForward_cases hchecked hhandled, h⟩

-- ---------------------------------------------------------------------------
-- Coroutines
-- ---------------------------------------------------------------------------

/-- A completion is run by the writer it is for, or told to the application. -/
theorem runPosted_cases (h : runPosted lib k = .ok k') :
    (k.posted = [] ∧ k' = k) ∨
    (∃ port ec value rest, k.posted = .popped port ec value :: rest ∧
      ((k.ports[port]? = none ∧ k' = { k with posted := rest }) ∨
      ∃ p, k.ports[port]? = some p ∧
        ((ec ≠ .success ∧
          k' = { k with posted := rest }.setPort port { p with writer := .exited }) ∨
        ∃ bytes, ec = .success ∧ encode lib.pb (lib.pb.ofAvPacket value.1) = .ok bytes ∧
          k' = { k with posted := rest }.setPort port
            { p with writer := .writing bytes value.2 }))) ∨
    (∃ call ec value rest, k.posted = .received call ec value :: rest ∧
      k' = { k with posted := rest }.record (.received call ec value.1 value.2)) := by
  unfold runPosted at h
  split at h
  · rename_i hnil
    cases h
    exact .inl ⟨hnil, rfl⟩
  · rename_i port ec value rest hposted
    refine .inr (.inl ⟨port, ec, value, rest, hposted, ?_⟩)
    split at h
    · rename_i p hp
      refine .inr ⟨p, hp, ?_⟩
      unfold writerPopped at h
      split at h
      · rename_i hec
        cases h
        exact .inl ⟨hec, rfl⟩
      · rename_i hec
        obtain ⟨bytes, hbytes, rfl⟩ := map_returns h
        exact .inr ⟨bytes, not_not.mp hec, hbytes, rfl⟩
    · rename_i hnone
      cases h
      exact .inl ⟨hnone, rfl⟩
  · rename_i call ec value rest hposted
    cases h
    exact .inr (.inr ⟨call, ec, value, rest, hposted, rfl⟩)

theorem runnerLoop_cases (k : Kernel) (port : Nat) (p : Port) :
    ((k.links p.avif.id).quitting = true ∧ k.runnerLoop port p =
      { k.onQueue p.avif.id (k.links p.avif.id).writeQueue.cancele with
        routing := k.routing.removeInterface (getIfname p.avif.ifname k.ifCounter).1
        ifCounter := (getIfname p.avif.ifname k.ifCounter).2 }.setPort port
          { p with runner := .exited }) ∨
    ((k.links p.avif.id).quitting = false ∧
      k.runnerLoop port p = k.setPort port { p with runner := .reading }) := by
  unfold runnerLoop
  split
  · rename_i hq
    exact .inl ⟨hq, rfl⟩
  · rename_i hq
    exact .inr ⟨by simpa using hq, rfl⟩

theorem runnerLoop_ports (k : Kernel) (port : Nat) (p : Port) : ∃ runner,
    (k.runnerLoop port p).ports = k.ports.set port { p with runner := runner } := by
  obtain ⟨-, heq⟩ | ⟨-, heq⟩ := runnerLoop_cases k port p
  · exact ⟨.exited, by rw [heq]; rfl⟩
  · exact ⟨.reading, by rw [heq]; rfl⟩

/-- Before it is back at its loop head, a runner has spawned a coroutine or quit. -/
theorem runnerRead_loops (k : Kernel) (port : Nat) (p : Port) (packet : Option AvPacket) :
    ∃ spawned links, k.runnerRead port p packet =
      { k with spawned := spawned, links := links }.runnerLoop port p := by
  cases packet with
  | some packet => exact ⟨_, k.links, rfl⟩
  | none => exact ⟨k.spawned, _, rfl⟩

theorem writerLoop_ports (k : Kernel) (port : Nat) (p : Port) : ∃ writer,
    (k.writerLoop port p).ports = k.ports.set port { p with writer := writer } := by
  unfold writerLoop
  split
  · exact ⟨.exited, rfl⟩
  · exact ⟨.popping, rfl⟩

theorem writerWrote_loops (k : Kernel) (port : Nat) (p : Port) (bytes : Bytes)
    (handler : Option Nat) (written : Bool) : ∃ trace,
    k.writerWrote port p bytes handler written = { k with trace := trace }.writerLoop port p := by
  cases handler with
  | none => exact ⟨_, rfl⟩
  | some send => exact ⟨_, rfl⟩

theorem getElem?_concat_cases {xs : List α} {i : Nat} (h : (xs ++ [x])[i]? = some y) :
    xs[i]? = some y ∨ (i = xs.length ∧ y = x) := by
  rw [List.getElem?_append] at h
  split at h
  · exact .inl h
  · rename_i hlt
    obtain ⟨hzero, rfl⟩ := List.getElem?_eq_some_iff.mp h
    rw [List.length_singleton] at hzero
    exact .inr ⟨by omega, by simp⟩

/-- An event for the coroutine of a port either fits its state or does nothing. -/
theorem portEvent_cases {port : Nat} {fits : Port → Prop} [DecidablePred fits]
    {resume : Port → Kernel}
    (h : (match k.ports[port]? with
      | some p => if fits p then Except.ok (resume p) else .ok k
      | none => .ok k) = (.ok k' : Except Fault Kernel)) :
    (∃ p, k.ports[port]? = some p ∧ fits p ∧ k' = resume p) ∨ k' = k := by
  split at h
  · rename_i p hp
    split at h
    · rename_i hfits
      cases h
      exact .inl ⟨p, hp, hfits, rfl⟩
    · cases h
      exact .inr rfl
  · cases h
    exact .inr rfl

/-- What a step does, with the results of what it calls. An event that does
not fit the state does nothing. -/
inductive Does (lib : Libs) (k : Kernel) : Event → Kernel → Prop
  | nothing (event : Event) : Does lib k event k
  | addInterface (avif : Avif) : Does lib k (.addInterface avif) (k.addInterface avif)
  | addRoute (targetAddress gateway ifname : Bytes) (metric : Int) :
      Does lib k (.addRoute targetAddress gateway ifname metric)
        { k with
          routing := (k.routing.addRoute lib.regex lib.std targetAddress gateway ifname metric).1 }
  | getIfname (avif : Avif) : Does lib k (.getIfname avif)
      { k with ifCounter := (getIfname avif.ifname k.ifCounter).2 }
  | asyncSendto : asyncSendto lib k target data now = .ok next →
      Does lib k (.asyncSendto target data now) next
  | asyncRecvfrom : Does lib k .asyncRecvfrom k.asyncRecvfrom
  | startRunner : k.ports[port]? = some p → p.runner = .spawned →
      Does lib k (.startRunner port) (k.runnerLoop port p)
  | read (packet : Option AvPacket) : k.ports[port]? = some p → p.runner = .reading →
      Does lib k (.read port packet) (k.runnerRead port p packet)
  | process : k.spawned[index]? = some (packet, avif) →
      processRecivedPacket lib { k with spawned := k.spawned.eraseIdx index } packet avif now =
        .ok next →
      Does lib k (.process index now) next
  | startWriter : k.ports[port]? = some p → p.writer = .spawned →
      Does lib k (.startWriter port) (k.writerLoop port p)
  | writeDone (written : Bool) : k.ports[port]? = some p → p.writer = .writing bytes handler →
      Does lib k (.writeDone port written) (k.writerWrote port p bytes handler written)
  | runPosted : runPosted lib k = .ok next → Does lib k .runPosted next
  | timer1 : sweep lib (expired now) k now = .ok next → Does lib k (.timer1 now) next
  | timer2 : k.trustedPubkey.purgeRSAPubkey now = .ok store →
      Does lib k (.timer2 now) { k with trustedPubkey := store }

theorem step_does (h : step lib k event = .ok k') : Does lib k event k' := by
  cases event with
  | addInterface avif =>
    cases h
    exact .addInterface avif
  | addRoute targetAddress gateway ifname metric =>
    cases h
    exact .addRoute _ _ _ _
  | getIfname avif =>
    cases h
    exact .getIfname avif
  | asyncSendto target data now => exact .asyncSendto h
  | asyncRecvfrom =>
    cases h
    exact .asyncRecvfrom
  | startRunner port =>
    obtain ⟨p, hp, hspawned, rfl⟩ | rfl := portEvent_cases h
    · exact .startRunner hp hspawned
    · exact .nothing _
  | read port packet =>
    obtain ⟨p, hp, hreading, rfl⟩ | rfl := portEvent_cases h
    · exact .read packet hp hreading
    · exact .nothing _
  | process index now =>
    simp only [step] at h
    split at h
    · rename_i packet avif hpacket
      exact .process hpacket h
    · cases h
      exact .nothing _
  | startWriter port =>
    obtain ⟨p, hp, hspawned, rfl⟩ | rfl := portEvent_cases h
    · exact .startWriter hp hspawned
    · exact .nothing _
  | writeDone port written =>
    simp only [step] at h
    split at h
    · rename_i p hp
      split at h
      · rename_i bytes handler hwriting
        cases h
        exact .writeDone written hp hwriting
      · cases h
        exact .nothing _
    · cases h
      exact .nothing _
  | runPosted => exact .runPosted h
  | timer1 now => exact .timer1 h
  | timer2 now =>
    obtain ⟨store, hstore, rfl⟩ := map_returns h
    exact .timer2 hstore

theorem portEvent_returns (k : Kernel) (port : Nat) (fits : Port → Prop) [DecidablePred fits]
    (resume : Port → Kernel) :
    ∃ k', (match k.ports[port]? with
      | some p => if fits p then Except.ok (resume p) else .ok k
      | none => .ok k) = (.ok k' : Except Fault Kernel) := by
  split
  · split
    · exact ⟨_, rfl⟩
    · exact ⟨_, rfl⟩
  · exact ⟨_, rfl⟩

end Avim.Kernel
