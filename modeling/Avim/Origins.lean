import Avim.KeyHistory
import Avim.Session
import Avim.Tables

/-!
# Where a kernel has things from

A kernel has its interfaces and its calls from the application, packets from
its interfaces, and keys from packets. What it enqueues and what it tells the
application is made from these and from nothing else: `Drawn`, which every step
keeps as long as what comes in is drawn from there too.
-/

namespace Avim.Kernel

open Lib.Octets KeyStore

/-- The interfaces of a kernel, the targets and the data of its calls, and the
keys it may have on record. -/
structure Sources where
  owned : Avif → Prop
  called : Bytes → Bytes → Prop
  learned : Bytes → RSA → Prop

section

variable (lib : Libs) (w : Sources) (heard : AvPacket → Prop)

/-- The keys in a packet: the one it carries, and that of the certificate in a
`pkreply`. -/
inductive Teaches (packet : AvPacket) : Bytes → RSA → Prop
  | carried : packet.publickey.isSome = true →
      Teaches packet (avAddressToString packet.src) (carriedKey packet)
  | certified : packet.upperlayerpotocol = text "pkreply" →
      certificateKey lib (packet.payload.getD []) = .ok rsa →
      Teaches packet (avAddressToString packet.src) rsa

/-- What can be learned from packets that were heard. -/
def Sources.Closed : Prop :=
  ∀ packet address key, heard packet → Teaches lib packet address key → w.learned address key

/-- What a call makes of its data. -/
def Seals (avif : Avif) (target secondSign : Bytes) : Prop :=
  ∃ data draw key firstPubencode, w.called target data ∧ w.learned target key ∧
    rsaPublicEncrypt lib.ossl draw key data = .ok firstPubencode ∧
    rsaPrivateEncrypt lib.ossl avif.rsaKey firstPubencode = .ok secondSign

/-- A packet of the kernel's own. -/
inductive Original : Cause → AvPacket → Prop
  | pkask (send : Nat) (target : Bytes) : w.owned avif →
      Original (.pkask send) (pkask avif.ifAddress target)
  | pkreply (target : Bytes) : w.owned avif → Original .pkreply (pkreply avif target)
  | data (send : Nat) : w.owned avif → Seals lib w avif target secondSign →
      Original (.data send) (dataPacket avif target secondSign)

inductive Sent : Cause → AvPacket → Prop
  | original : Original lib w cause packet → Sent cause packet
  | hop : heard packet → 1 < packet.timeToLive →
      Sent .forwarded { packet with timeToLive := packet.timeToLive - 1 }

/-- A packet for one of the interfaces opens to the message, on this or on
another one. -/
def Opened (message : Bytes × Bytes) : Prop :=
  ∃ packet avif me, heard packet ∧ w.owned avif ∧ w.owned me ∧
    packet.dest.username = me.ifAddress.username ∧ packet.dest.domain = me.ifAddress.domain ∧
    opens lib (packet, avif) = some message

def Sourced : Effect → Prop
  | .enqueued _ cause packet => Sent lib w heard cause packet
  | .pushed sender payload => Opened lib w heard (sender, payload)
  | _ => True

structure Drawn (k : Kernel) : Prop where
  avifs : ∀ (name : Bytes) avif, k.routing.avifs[name]? = some avif → w.owned avif
  keys : ∀ address, ∀ key ∈ keysOf k.trustedPubkey address, w.learned address key.rsa
  waiters : ∀ waiter ∈ k.waiters, w.called waiter.op.target waiter.op.data
  spawned : ∀ came ∈ k.spawned, heard came.1 ∧ w.owned came.2
  trace : ∀ effect ∈ k.trace, Sourced lib w heard effect

/-- What an event brings in. -/
def Admits (k : Kernel) (event : Event) : Prop :=
  (∀ avif, event = .addInterface avif → w.owned avif) ∧
  (∀ target data now, event = .asyncSendto target data now → w.called target data) ∧
  ∀ came, brought k event = some came → heard came.1 ∧ w.owned came.2

end

variable {lib : Libs} {w w' : Sources} {heard heard' : AvPacket → Prop} {k k' : Kernel}

theorem drawn_initial : Drawn lib w heard initial := by
  refine ⟨?_, ?_, nofun, nofun, nofun⟩
  · intro name avif hat
    simp [initial, Routing.empty] at hat
  · intro address key hkey
    simp [initial, keysOf] at hkey

-- ---------------------------------------------------------------------------
-- One state change
-- ---------------------------------------------------------------------------

theorem Drawn.sourced (h : Drawn lib w heard k) {new : List Effect}
    (hnew : ∀ effect ∈ new, Sourced lib w heard effect) :
    ∀ effect ∈ k.trace ++ new, Sourced lib w heard effect := by
  intro effect heffect
  rcases List.mem_append.mp heffect with hold | heffect
  · exact h.trace effect hold
  · exact hnew effect heffect

theorem Drawn.found (h : Drawn lib w heard k)
    (hfound : k.trustedPubkey.findRSAPubkey address = .ok (some key)) : w.learned address key := by
  unfold findRSAPubkey at hfound
  split at hfound
  · cases hfound
  · rename_i item hitem
    split at hfound
    · cases hfound
    · rename_i first rest hkeys
      cases hfound
      exact h.keys address first (by simp [keysOf, hitem, hkeys])

theorem Drawn.deref (h : Drawn lib w heard k) (hif : k.routing.deref interface = .ok avif) :
    w.owned avif := by
  unfold Routing.deref at hif
  split at hif
  · rename_i hat
    cases hif
    exact h.avifs _ _ hat.1
  · cases hif

theorem Drawn.sendOrAsk (h : Drawn lib w heard k) (hcall : w.called op.target op.data)
    (hres : sendOrAsk lib k op now = .ok k') : Drawn lib w heard k' := by
  unfold Kernel.sendOrAsk at hres
  obtain ⟨found, hfound, hres⟩ := bind_returns hres
  cases found with
  | some key =>
    obtain ⟨first, avif, second, hfirst, hif, hsecond, rfl⟩ := sendData_returns hres
    refine ⟨h.avifs, h.keys, h.waiters, h.spawned, h.sourced ?_⟩
    intro effect heffect
    rw [List.mem_singleton.mp heffect]
    exact .original (.data op.send (h.deref hif)
      ⟨op.data, _, key, first, hcall, h.found hfound, hfirst, hsecond⟩)
  | none =>
    dsimp only at hres
    split at hres
    · obtain ⟨avif, hif, rfl⟩ := askKey_returns hres
      refine ⟨h.avifs, h.keys, ?_, h.spawned, h.sourced ?_⟩
      · intro waiter hwaiter
        rcases List.mem_append.mp hwaiter with hold | hnew
        · exact h.waiters waiter hold
        · rw [List.mem_singleton.mp hnew]
          exact hcall
      · intro effect heffect
        rw [List.mem_singleton.mp heffect]
        exact .original (.pkask op.send op.target (h.deref hif))
    · obtain rfl := Except.ok.inj hres
      refine ⟨h.avifs, h.keys, h.waiters, h.spawned, h.sourced ?_⟩
      intro effect heffect
      rw [List.mem_singleton.mp heffect]
      trivial

theorem Drawn.asyncSendto (h : Drawn lib w heard k) (hcall : w.called target data)
    (hres : asyncSendto lib k target data now = .ok k') : Drawn lib w heard k' := by
  have hcounted : Drawn lib w heard { k with sends := k.sends + 1 } :=
    ⟨h.avifs, h.keys, h.waiters, h.spawned, h.trace⟩
  obtain ⟨-, rfl⟩ | ⟨interface, -, hsend⟩ := asyncSendto_cases hres
  · refine ⟨h.avifs, h.keys, h.waiters, h.spawned, h.sourced ?_⟩
    intro effect heffect
    rw [List.mem_singleton.mp heffect]
    trivial
  · exact hcounted.sendOrAsk hcall hsend

theorem Drawn.sweep (h : Drawn lib w heard k) (hswept : sweep lib due k now = .ok k') :
    Drawn lib w heard k' := by
  refine sweep_resumes (I := Drawn lib w heard) ?_ h hswept
  intro before i waiter resumed hat hres hbefore
  have hresumed := hbefore.sendOrAsk (hbefore.waiters waiter (List.mem_of_getElem? hat)) hres
  exact ⟨hresumed.avifs, hresumed.keys,
    fun other hother => hresumed.waiters other (List.mem_of_mem_eraseIdx hother),
    hresumed.spawned, hresumed.trace⟩

theorem Drawn.addKey (h : Drawn lib w heard k) (hlearned : w.learned address rsa) (now : Int) :
    Drawn lib w heard (addKey lib k address rsa now) := by
  refine ⟨h.avifs, ?_, h.waiters, h.spawned, h.trace⟩
  intro other key hkey
  have hkey :=
    (keysOf_add lib.std k.trustedPubkey address other rsa (now + validity)).mem_iff.mp hkey
  split at hkey
  · rename_i hother
    rcases List.mem_cons.mp hkey with rfl | hold
    · rw [hother]
      exact hlearned
    · rw [hother]
      exact h.keys address key hold
  · exact h.keys other key hkey

theorem Drawn.purge (h : Drawn lib w heard k)
    (hpurge : k.trustedPubkey.purgeRSAPubkey now = .ok store) :
    Drawn lib w heard { k with trustedPubkey := store } :=
  ⟨h.avifs, fun address key hkey => h.keys address key ((keysOf_purge hpurge address).subset hkey),
    h.waiters, h.spawned, h.trace⟩

-- ---------------------------------------------------------------------------
-- One packet
-- ---------------------------------------------------------------------------

theorem Drawn.checkKey (h : Drawn lib w heard k) (hclosed : w.Closed lib heard)
    (hheard : heard packet) (hchecked : checkKey lib k packet now = .ok k') :
    Drawn lib w heard k' := by
  obtain ⟨_, -, ⟨-, hcarried, rfl⟩ | ⟨-, rfl⟩⟩ := checkKey_cases hchecked
  · exact h.addKey (hclosed _ _ _ hheard (.carried hcarried)) now
  · exact h

theorem isToMe_owned (h : Drawn lib w heard k) (hme : k.isToMe addr = true) :
    ∃ me, w.owned me ∧ addr.username = me.ifAddress.username ∧
      addr.domain = me.ifAddress.domain := by
  obtain ⟨⟨name, me⟩, hmem, hmatch⟩ := List.any_eq_true.mp hme
  rw [Std.ExtTreeMap.mem_toList_iff_getElem?_eq_some] at hmem
  simp only [Bool.and_eq_true, beq_iff_eq] at hmatch
  exact ⟨me, h.avifs name me hmem, hmatch⟩

theorem Drawn.toMe (h : Drawn lib w heard k) (hclosed : w.Closed lib heard) (hheard : heard packet)
    (havif : w.owned avif) (hme : k.isToMe packet.dest = true)
    (hhandled : processRecivedPacketToMe lib k packet avif now = .ok k') :
    Drawn lib w heard k' := by
  obtain ⟨-, rfl⟩ | ⟨hreply, rsa, hrsa, rfl⟩ | ⟨-, -, payload, hpayload, ⟨havim, rfl⟩ | ⟨-, rfl⟩⟩ :=
    toMe_cases hhandled
  · refine ⟨h.avifs, h.keys, h.waiters, h.spawned, h.sourced ?_⟩
    intro effect heffect
    rw [List.mem_singleton.mp heffect]
    exact .original (.pkreply _ havif)
  · exact h.addKey (hclosed _ _ _ hheard (.certified hreply hrsa)) now
  · obtain ⟨me, howned, huser, hdomain⟩ := isToMe_owned h hme
    have hopens : opens lib (packet, avif) = some (avAddressToString packet.src, payload) := by
      rw [opens, if_pos havim, hpayload]
      rfl
    refine ⟨h.avifs, h.keys, h.waiters, h.spawned, h.sourced ?_⟩
    intro effect heffect
    rw [List.mem_singleton.mp heffect]
    exact ⟨packet, avif, me, hheard, havif, howned, huser, hdomain, hopens⟩
  · exact h

theorem Drawn.forward (h : Drawn lib w heard k) (hheard : heard packet)
    (hforwarded : forward lib k packet = .ok k') : Drawn lib w heard k' := by
  obtain rfl | ⟨httl, interface, t, -, rfl⟩ := forward_cases hforwarded
  · exact h
  · refine ⟨h.avifs, h.keys, h.waiters, h.spawned, h.sourced ?_⟩
    intro effect heffect
    rw [List.mem_singleton.mp heffect]
    exact .hop hheard httl

theorem Drawn.process (h : Drawn lib w heard k) (hclosed : w.Closed lib heard)
    (hheard : heard packet) (havif : w.owned avif)
    (hprocess : processRecivedPacket lib k packet avif now = .ok k') :
    Drawn lib w heard k' := by
  obtain ⟨checked, handled, hchecked, hhandled, hswept⟩ := processRecivedPacket_returns hprocess
  have hdrawn := h.checkKey hclosed hheard hchecked
  refine Drawn.sweep ?_ hswept
  obtain ⟨hme, hhandled⟩ | ⟨-, hhandled⟩ := hhandled
  · exact hdrawn.toMe hclosed hheard havif
      ((checkKey_isToMe hchecked packet.dest).trans hme) hhandled
  · exact hdrawn.forward hheard hhandled

-- ---------------------------------------------------------------------------
-- One step
-- ---------------------------------------------------------------------------

theorem Drawn.addInterface (h : Drawn lib w heard k) (havif : w.owned avif) :
    Drawn lib w heard (k.addInterface avif) := by
  refine ⟨?_, h.keys, h.waiters, h.spawned, h.trace⟩
  intro name other hat
  simp only [Kernel.addInterface, Routing.addInterface, Std.ExtTreeMap.getElem?_insertIfNew] at hat
  split at hat
  · cases hat
    exact havif
  · exact h.avifs name other hat

theorem Drawn.runnerLoop (h : Drawn lib w heard k) (port : Nat) (p : Port) :
    Drawn lib w heard (k.runnerLoop port p) := by
  obtain ⟨-, heq⟩ | ⟨-, heq⟩ := runnerLoop_cases k port p
  · rw [heq]
    refine ⟨?_, h.keys, h.waiters, h.spawned, h.trace⟩
    intro name avif hat
    have hat : (k.routing.avifs.erase _)[name]? = some avif := hat
    rw [Std.ExtTreeMap.getElem?_erase] at hat
    split at hat
    · cases hat
    · exact h.avifs name avif hat
  · rw [heq]
    exact ⟨h.avifs, h.keys, h.waiters, h.spawned, h.trace⟩

theorem Drawn.runnerRead (h : Drawn lib w heard k) (port : Nat) (p : Port)
    (packet : Option AvPacket)
    (hpacket : ∀ came, packet = some came → heard came ∧ w.owned p.avif) :
    Drawn lib w heard (k.runnerRead port p packet) := by
  cases packet with
  | none =>
    have hquit : Drawn lib w heard (k.quit p.avif.id) :=
      ⟨h.avifs, h.keys, h.waiters, h.spawned, h.trace⟩
    exact hquit.runnerLoop port p
  | some packet =>
    have hspawned : Drawn lib w heard { k with spawned := k.spawned ++ [(packet, p.avif)] } := by
      refine ⟨h.avifs, h.keys, h.waiters, ?_, h.trace⟩
      intro came hcame
      rcases List.mem_append.mp hcame with hold | hnew
      · exact h.spawned came hold
      · rw [List.mem_singleton.mp hnew]
        exact hpacket packet rfl
    exact hspawned.runnerLoop port p

theorem Drawn.writerLoop (h : Drawn lib w heard k) (port : Nat) (p : Port) :
    Drawn lib w heard (k.writerLoop port p) := by
  unfold Kernel.writerLoop
  split
  · exact ⟨h.avifs, h.keys, h.waiters, h.spawned, h.trace⟩
  · exact ⟨h.avifs, h.keys, h.waiters, h.spawned, h.trace⟩

theorem Drawn.writerWrote (h : Drawn lib w heard k) (port : Nat) (p : Port) (bytes : Bytes)
    (handler : Option Nat) (written : Bool) :
    Drawn lib w heard (k.writerWrote port p bytes handler written) := by
  have hwrote : Drawn lib w heard (k.record (.wrote p.avif.id handler bytes written)) := by
    refine ⟨h.avifs, h.keys, h.waiters, h.spawned, h.sourced ?_⟩
    intro effect heffect
    rw [List.mem_singleton.mp heffect]
    trivial
  cases handler with
  | none => exact hwrote.writerLoop port p
  | some send =>
    have hcompleted : Drawn lib w heard
        ((k.record (.wrote p.avif.id (some send) bytes written)).record
          (.completed send .success)) := by
      refine ⟨h.avifs, h.keys, h.waiters, h.spawned, hwrote.sourced ?_⟩
      intro effect heffect
      rw [List.mem_singleton.mp heffect]
      trivial
    exact hcompleted.writerLoop port p

theorem Drawn.runPosted (h : Drawn lib w heard k) (hposted : runPosted lib k = .ok k') :
    Drawn lib w heard k' := by
  obtain ⟨-, rfl⟩ | ⟨port, ec, value, rest, -, ⟨-, rfl⟩ | ⟨p, -, ⟨-, rfl⟩ | ⟨bytes, -, -, rfl⟩⟩⟩ |
    ⟨call, ec, value, rest, -, rfl⟩ := runPosted_cases hposted
  · exact h
  · exact ⟨h.avifs, h.keys, h.waiters, h.spawned, h.trace⟩
  · exact ⟨h.avifs, h.keys, h.waiters, h.spawned, h.trace⟩
  · exact ⟨h.avifs, h.keys, h.waiters, h.spawned, h.trace⟩
  · refine ⟨h.avifs, h.keys, h.waiters, h.spawned, h.sourced ?_⟩
    intro effect heffect
    rw [List.mem_singleton.mp heffect]
    trivial

theorem Drawn.step (h : Drawn lib w heard k) (hclosed : w.Closed lib heard)
    (hadmits : Admits w heard k event) (hstep : step lib k event = .ok k') :
    Drawn lib w heard k' := by
  obtain ⟨hadd, hcall, hbrought⟩ := hadmits
  cases step_does hstep with
  | nothing => exact h
  | addInterface avif => exact h.addInterface (hadd avif rfl)
  | addRoute targetAddress gateway ifname metric =>
    refine ⟨?_, h.keys, h.waiters, h.spawned, h.trace⟩
    intro name avif hat
    have hsame := (Routing.addRoute_avifs lib.regex lib.std k.routing targetAddress gateway ifname
      metric).1
    exact h.avifs name avif (hsame ▸ hat)
  | getIfname avif => exact ⟨h.avifs, h.keys, h.waiters, h.spawned, h.trace⟩
  | asyncSendto hsend => exact h.asyncSendto (hcall _ _ _ rfl) hsend
  | asyncRecvfrom => exact ⟨h.avifs, h.keys, h.waiters, h.spawned, h.trace⟩
  | @startRunner port p _ _ => exact h.runnerLoop port p
  | @read port p packet hp hreading =>
    refine h.runnerRead port p packet ?_
    rintro packet rfl
    exact hbrought (packet, p.avif) (by simp [brought, hp, hreading])
  | @process index packet avif now _ hat hprocess =>
    obtain ⟨hheard, havif⟩ := h.spawned _ (List.mem_of_getElem? hat)
    have hstarted : Drawn lib w heard { k with spawned := k.spawned.eraseIdx index } :=
      ⟨h.avifs, h.keys, h.waiters,
        fun came hcame => h.spawned came (List.mem_of_mem_eraseIdx hcame), h.trace⟩
    exact hstarted.process hclosed hheard havif hprocess
  | @startWriter port p _ _ => exact h.writerLoop port p
  | @writeDone port p bytes handler written _ _ => exact h.writerWrote port p bytes handler written
  | runPosted hposted => exact h.runPosted hposted
  | timer1 hsweep => exact h.sweep hsweep
  | timer2 hpurge => exact h.purge hpurge

-- ---------------------------------------------------------------------------
-- More to draw on
-- ---------------------------------------------------------------------------

structure Sources.Le (w w' : Sources) : Prop where
  owned : ∀ avif, w.owned avif → w'.owned avif
  called : ∀ target data, w.called target data → w'.called target data
  learned : ∀ address key, w.learned address key → w'.learned address key

theorem Original.mono (h : Original lib w cause packet) (hle : w.Le w') :
    Original lib w' cause packet := by
  cases h with
  | pkask send target howned => exact .pkask send target (hle.owned _ howned)
  | pkreply target howned => exact .pkreply target (hle.owned _ howned)
  | data send howned hseals =>
    obtain ⟨data, draw, key, first, hcalled, hlearned, hfirst, hsecond⟩ := hseals
    exact .data send (hle.owned _ howned)
      ⟨data, draw, key, first, hle.called _ _ hcalled, hle.learned _ _ hlearned, hfirst, hsecond⟩

theorem Sourced.mono (h : Sourced lib w heard effect) (hle : w.Le w')
    (hheard : ∀ packet, heard packet → heard' packet) : Sourced lib w' heard' effect := by
  cases effect with
  | enqueued link cause packet =>
    have h : Sent lib w heard cause packet := h
    cases h with
    | original horiginal => exact .original (horiginal.mono hle)
    | hop hpacket httl => exact .hop (hheard _ hpacket) httl
  | pushed sender payload =>
    obtain ⟨packet, avif, me, hpacket, havif, hme, huser, hdomain, hopens⟩ := h
    exact ⟨packet, avif, me, hheard _ hpacket, hle.owned _ havif, hle.owned _ hme, huser, hdomain,
      hopens⟩
  | _ => trivial

theorem Drawn.mono (h : Drawn lib w heard k) (hle : w.Le w')
    (hheard : ∀ packet, heard packet → heard' packet) : Drawn lib w' heard' k where
  avifs name avif hat := hle.owned avif (h.avifs name avif hat)
  keys address key hkey := hle.learned address key.rsa (h.keys address key hkey)
  waiters waiter hwaiter := hle.called _ _ (h.waiters waiter hwaiter)
  spawned came hcame := ⟨hheard _ (h.spawned came hcame).1, hle.owned _ (h.spawned came hcame).2⟩
  trace effect heffect := (h.trace effect heffect).mono hle hheard

end Avim.Kernel
