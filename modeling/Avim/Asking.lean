import Avim.Robustness

/-!
# Asking for a key

A `pkask` goes to the parsed form of the text a call was given, and its
`pkreply` comes back under the printed address of the interface that answers.
The receiver is recognised by user and domain, the answer by its whole text:
the exchange helps the call exactly when it was given the text that the peer
prints (`exchange_resolves_iff`).
-/

namespace Avim.Kernel

open Lib.Octets

variable {lib : Libs} {k k' peer : Kernel}

-- ---------------------------------------------------------------------------
-- At the peer
-- ---------------------------------------------------------------------------

theorem checkKey_no_key (hk : Standing k) (hnone : packet.publickey = none) (now : Int) :
    checkKey lib k packet now = .ok k := by
  obtain ⟨found, hfound, -⟩ := hk.filled.find (avAddressToString packet.src)
  simp [checkKey, hfound, hnone]

theorem sweep_attended (hk : Standing k) (h : Attended k) (packet : AvPacket) (now : Int) :
    sweep lib (answered packet) k now = .ok k := by
  obtain ⟨found, hfound, -⟩ := hk.filled.find (avAddressToString packet.src)
  refine sweep_nobody (fun w hw => ?_) now
  by_cases htarget : avAddressToString packet.src = w.op.target
  · simp [answered, htarget, h w hw, Except.map]
  · simp [answered, htarget]

theorem processRecivedPacket_pkask (hk : Standing k) (h : Attended k)
    (hask : packet.upperlayerpotocol = text "pkask") (hnone : packet.publickey = none)
    (hme : k.isToMe packet.dest = true) (avif : Avif) (now : Int) :
    processRecivedPacket lib k packet avif now =
      .ok (k.asyncSendAgmpPkreply avif (avAddressToString packet.src)) := by
  have hstanding : Standing (k.asyncSendAgmpPkreply avif (avAddressToString packet.src)) :=
    ⟨hk.filled, hk.wellFormed⟩
  have hattended : Attended (k.asyncSendAgmpPkreply avif (avAddressToString packet.src)) := h
  rw [processRecivedPacket, checkKey_no_key hk hnone, ok_bind, deliverOrForward_pkask hme hask,
    ok_bind]
  exact sweep_attended hstanding hattended packet now

-- ---------------------------------------------------------------------------
-- Back at the asker
-- ---------------------------------------------------------------------------

/-- The packet puts a key for `target` on record, its processing resumes every
call that waits for it with a success code, and all of them go on. -/
structure Resolves (lib : Libs) (k : Kernel) (packet : AvPacket) (avif : Avif) (now : Int)
    (target : Bytes) : Prop where
  stored : ∃ handled key, deliverOrForward lib k packet avif now = .ok handled ∧
    handled.trustedPubkey.findRSAPubkey target = .ok (some key) ∧
    ∀ w ∈ handled.waiters, w.op.target = target → answered packet handled w = .ok true
  resumed : ∃ k' key, processRecivedPacket lib k packet avif now = .ok k' ∧
    k'.trustedPubkey.findRSAPubkey target = .ok (some key) ∧
    (∀ w ∈ k'.waiters, w.op.target ≠ target) ∧
    ∀ w ∈ k.waiters, w.op.target = target →
      ∃ new effect, k'.trace = k.trace ++ new ∧ effect ∈ new ∧ WentOn w effect

theorem processRecivedPacket_pkreply (hk : Standing k)
    (hreply : packet.upperlayerpotocol = text "pkreply") (hnone : packet.publickey = none)
    (hcert : certificateKey lib (packet.payload.getD []) = .ok rsa)
    (hme : k.isToMe packet.dest = true) (avif : Avif) (now : Int) :
    processRecivedPacket lib k packet avif now =
      sweep lib (answered packet) (addKey lib k (avAddressToString packet.src) rsa now) now := by
  rw [processRecivedPacket, checkKey_no_key hk hnone, ok_bind,
    deliverOrForward_pkreply hme hreply hcert, ok_bind]

theorem pkreply_returns_iff (hk : Standing k)
    (hunknown : k.trustedPubkey.findRSAPubkey (avAddressToString packet.src) = .ok none)
    (hreply : packet.upperlayerpotocol = text "pkreply") (hnone : packet.publickey = none)
    (hcert : certificateKey lib (packet.payload.getD []) = .ok rsa)
    (hme : k.isToMe packet.dest = true) (avif : Avif) (now : Int) :
    (∃ k', processRecivedPacket lib k packet avif now = .ok k') ↔
      Resumable lib k.routing rsa k.draws
        (k.waiters.filter (·.op.target = avAddressToString packet.src)) := by
  have hfilled : (addKey lib k (avAddressToString packet.src) rsa now).trustedPubkey.Filled :=
    hk.filled.add _ _ _
  have hkey := hk.filled.find_add_unknown hunknown lib.std rsa (now + validity)
  rw [processRecivedPacket_pkreply hk hreply hnone hcert hme, sweep_returns_iff hfilled]
  constructor
  · intro h
    exact h rsa hkey
  · intro h key hother
    cases hkey.symm.trans hother
    exact h

theorem resolves_of_source (hk : Standing k) (h : Attended k)
    (hunknown : k.trustedPubkey.findRSAPubkey (avAddressToString packet.src) = .ok none)
    (hreply : packet.upperlayerpotocol = text "pkreply") (hnone : packet.publickey = none)
    (hcert : certificateKey lib (packet.payload.getD []) = .ok rsa)
    (hme : k.isToMe packet.dest = true)
    (hresumable : Resumable lib k.routing rsa k.draws
      (k.waiters.filter (·.op.target = avAddressToString packet.src))) (avif : Avif) (now : Int) :
    Resolves lib k packet avif now (avAddressToString packet.src) := by
  have hkey := hk.filled.find_add_unknown hunknown lib.std rsa (now + validity)
  refine ⟨⟨_, rsa, deliverOrForward_pkreply hme hreply hcert avif now, hkey, ?_⟩, ?_⟩
  · intro w _ htarget
    have hfound : (addKey lib k (avAddressToString packet.src) rsa now).trustedPubkey.findRSAPubkey
        (avAddressToString packet.src) = .ok (some rsa) := hkey
    simp [answered, htarget, hfound, Except.map]
  · obtain ⟨k', hprocess⟩ :=
      (pkreply_returns_iff hk hunknown hreply hnone hcert hme avif now).mpr hresumable
    obtain ⟨hattended, hwakes⟩ := attended_process (.process 0 now) hk h hprocess
    have hfound : k'.trustedPubkey.findRSAPubkey (avAddressToString packet.src) =
        .ok (some rsa) := by
      rw [processRecivedPacket_pkreply hk hreply hnone hcert hme] at hprocess
      rw [(sweep_same hprocess).2.1]
      exact hkey
    refine ⟨k', rsa, hprocess, hfound, ?_, ?_⟩
    · intro w hw htarget
      have hwaits := hattended w hw
      rw [htarget, hfound] at hwaits
      cases hwaits
    · intro w hw htarget
      exact hwakes w hw rsa (htarget ▸ hfound)

theorem source_of_resolves (hunknown : k.trustedPubkey.findRSAPubkey target = .ok none)
    (hreply : packet.upperlayerpotocol = text "pkreply")
    (h : Resolves lib k packet avif now target) :
    k.isToMe packet.dest = true ∧ avAddressToString packet.src = target := by
  obtain ⟨handled, key, hhandled, hkey, -⟩ := h.stored
  unfold deliverOrForward at hhandled
  split at hhandled
  · rename_i hme
    refine ⟨hme, ?_⟩
    obtain ⟨hask, -⟩ | ⟨-, rsa, -, rfl⟩ | ⟨-, hno, -⟩ := toMe_cases hhandled
    · rw [hreply] at hask
      exact absurd hask (by decide)
    · by_contra hne
      have hsame : (addKey lib k (avAddressToString packet.src) rsa now).trustedPubkey.findRSAPubkey
          target = k.trustedPubkey.findRSAPubkey target :=
        KeyStore.findRSAPubkey_add_of_ne (Ne.symm hne) _ _
      rw [hsame, hunknown] at hkey
      cases hkey
    · exact absurd hreply hno
  · obtain rfl | ⟨-, interface, t, -, rfl⟩ := forward_cases hhandled
    · rw [hunknown] at hkey
      cases hkey
    · have hsame : k.trustedPubkey.findRSAPubkey target = .ok (some key) := hkey
      rw [hunknown] at hsame
      cases hsame

/-- The peer answers, and the answer helps the call that asked exactly when it
comes back to an address of the asker, the peer prints its own address as the
text the call was given, and the calls given that text can go on with the
peer's key. -/
theorem exchange_resolves_iff (lib : Libs) (k peer : Kernel) (hk : Reached lib k)
    (hpeer : Reached lib peer) (w : Waiter) (hw : w ∈ k.waiters) (interface there : Avif)
    (hthere : peer.isToMe (avAddressFromString w.op.target) = true)
    (rsa : RSA) (hcert : certificateKey lib there.cert = .ok rsa) (ttl now : Int) :
    ∃ peer' reply,
      processRecivedPacket lib peer
        { pkask interface.ifAddress w.op.target with timeToLive := ttl } there now = .ok peer' ∧
      peer'.trace = peer.trace ++ [.enqueued there.id .pkreply reply] ∧
      ∀ (arrival : Avif) (hops later : Int),
        Resolves lib k { reply with timeToLive := hops } arrival later w.op.target ↔
          k.isToMe (avAddressFromString (avAddressToString interface.ifAddress)) = true ∧
            avAddressToString there.ifAddress = w.op.target ∧
            Resumable lib k.routing rsa k.draws
              (k.waiters.filter (·.op.target = w.op.target)) := by
  refine ⟨_, pkreply there (avAddressToString interface.ifAddress),
    processRecivedPacket_pkask hpeer.standing hpeer.attended rfl rfl hthere there now, rfl, ?_⟩
  intro arrival hops later
  have hunknown : k.trustedPubkey.findRSAPubkey w.op.target = .ok none := hk.attended w hw
  constructor
  · intro hresolves
    obtain ⟨hme, hsource⟩ := source_of_resolves hunknown rfl hresolves
    obtain ⟨k', -, hprocess, -⟩ := hresolves.resumed
    rw [← hsource] at hunknown ⊢
    exact ⟨hme, rfl, (pkreply_returns_iff hk.standing hunknown rfl rfl hcert hme arrival
      later).mp ⟨k', hprocess⟩⟩
  · rintro ⟨hme, hsource, hresumable⟩
    rw [← hsource] at hunknown hresumable ⊢
    exact resolves_of_source hk.standing hk.attended hunknown rfl rfl hcert hme hresumable
      arrival later

/-- The library where the certificates are those of `holders`. -/
def certLibs (holders : List (Bytes × RSA)) : Libs :=
  { sampleLibs with
    ossl :=
      { openSSL with
        X509 := RSA
        EvpPkey := RSA
        d2iX509 := fun payload =>
          (holders.find? fun holder => payload = certificate holder.1 holder.2).map (·.2)
        x509GetPubkey := some
        evpPkeyGet1RSA := some } }

def askingIf : Avif :=
  { samplePeer sampleKey with
    ifAddress := ⟨text "a", text "x", none⟩
    cert := certificate (text "a@x") sampleKey.toRSA }

def answeringIf (commonName : Bytes) : Avif :=
  { samplePeer peerKey with
    ifAddress := avAddressFromString commonName
    cert := certificate commonName peerKey.toRSA }

def askingRun (target : Bytes) : List Event :=
  [.addInterface askingIf, .addRoute target [] (text "eth0") 100,
    .asyncSendto target (text "hi") 0]

def asking (target : Bytes) : Waiter :=
  ⟨8 * 1000000, ⟨0, target, text "hi", ⟨text "eth0", 0, askingIf⟩, 1⟩⟩

theorem exchange_resolves_sample :
    let lib := certLibs [(text "b@x", peerKey.toRSA)]
    ∃ reply, Resolves lib (after lib (askingRun (text "b@x"))) reply askingIf 2 (text "b@x") := by
  intro lib
  obtain ⟨-, reply, -, -, hiff⟩ := exchange_resolves_iff lib (after lib (askingRun (text "b@x")))
    (after lib [.addInterface (answeringIf (text "b@x"))])
    (reached_after _ _) (reached_after _ _) (asking (text "b@x")) (by decide +kernel)
    askingIf (answeringIf (text "b@x")) (by decide +kernel) peerKey.toRSA (by decide +kernel) 64 1
  refine ⟨_, (hiff askingIf 64 2).mpr ⟨by decide +kernel, by decide +kernel, ?_⟩⟩
  have hwaiting : (after lib (askingRun (text "b@x"))).waiters.filter
      (·.op.target = (asking (text "b@x")).op.target) = [asking (text "b@x")] := by
    decide +kernel
  rw [hwaiting]
  exact ⟨sendable_of_isOk (by decide +kernel) (by decide +kernel), trivial⟩

/-- A call to `b`, which is `b@avplayer.org` to the peer and to its answer, is
not helped by the answer. -/
theorem exchange_unheard :
    let lib := certLibs [(text "b@avplayer.org", peerKey.toRSA)]
    let k := after lib (askingRun (text "b"))
    let there := answeringIf (text "b@avplayer.org")
    let peer := after lib [.addInterface there]
    let reply := pkreply there (text "a@x")
    asking (text "b") ∈ k.waiters ∧
      peer.routing.avifs.toList = [(text "eth0", there)] ∧
      peer.isToMe (avAddressFromString (text "b")) = true ∧
      ((processRecivedPacket lib peer (pkask askingIf.ifAddress (text "b")) there 1).map (·.trace) =
        .ok [.enqueued 2 .pkreply reply]) ∧
      ((processRecivedPacket lib k reply askingIf 2).map fun k' => decide
        (k'.trustedPubkey.findRSAPubkey (text "b") = .ok none ∧
          asking (text "b") ∈ k'.waiters)) = .ok true ∧
      ¬ Resolves lib k reply askingIf 2 (text "b") := by
  refine ⟨by decide +kernel, by decide +kernel, by decide +kernel, by decide +kernel,
    by decide +kernel, ?_⟩
  intro h
  exact absurd (source_of_resolves (by decide +kernel) rfl h).2 (by decide +kernel)

end Avim.Kernel
