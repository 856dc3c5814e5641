import Avim.KernelLaws

/-!
# From one application to another

What a sender puts into a data packet, and what the receiver makes of it. The
packet carries the sender's modulus but not its exponent; the receiver assumes
65537, and for senders who have it every message arrives as it was sent
(`sendOrAsk_delivers`).

A packet is for this kernel if any of its interfaces has the destination's
user and domain, and is handled with the key, the certificate and the address
of the interface it came in on: that is the one it is for only if it came in
there (`served_iff`).

The receiver decrypts with the key the packet itself carries. The key on
record for the sender is looked up and then not used, so a message is only as
genuine as its packet (`authentic_iff`).
-/

namespace Avim.Kernel

open Lib.Octets

variable {lib : Libs} {k k' : Kernel}

-- ---------------------------------------------------------------------------
-- Round trip
-- ---------------------------------------------------------------------------

theorem decryptPayload_sealed (hkey : lib.ossl.KeyPair key) (hpeer : lib.ossl.KeyPair peer)
    (hfit : sealedLength key.size (sealedLength peer.size data.length) < 2 ^ 31) (draw : Nat) :
    ∃ firstPubencode secondSign,
      rsaPublicEncrypt lib.ossl draw peer.toRSA data = .ok firstPubencode ∧
      rsaPrivateEncrypt lib.ossl key firstPubencode = .ok secondSign ∧
      decryptPayload lib key.toRSA peer (some secondSign) = .ok data := by
  have hinner : sealedLength peer.size data.length < 2 ^ 31 :=
    (le_sealedLength hkey.large _).trans_lt hfit
  obtain ⟨first, hfirst, hlen, hopen⟩ := rsaPrivateDecrypt_publicEncrypt lib.ossl hpeer hinner draw
  rw [← hlen] at hfit
  obtain ⟨second, hsecond, -, hstrip⟩ := rsaPublicDecrypt_privateEncrypt lib.ossl hkey hfit
  refine ⟨first, second, hfirst, hsecond, ?_⟩
  rw [decryptPayload, hstrip, ok_bind, hopen]

/-- The modulus travels as bytes, the exponent does not travel at all. -/
theorem carriedKey_dataPacket (he : avif.rsaKey.e = 65537) (target secondSign : Bytes) (ttl : Int) :
    carriedKey { dataPacket avif target secondSign with timeToLive := ttl } =
      avif.rsaKey.toRSA := by
  simp [carriedKey, dataPacket, ← he]

theorem isToMe_only (h : k.routing.avifs.toList = [(name, peer)])
    (huser : addr.username = peer.ifAddress.username)
    (hdomain : addr.domain = peer.ifAddress.domain) :
    k.isToMe addr = true := by
  simp [isToMe, h, huser, hdomain]

/-- A call that has the receiver's key builds a packet which, at whatever hop
count it arrives, is pushed once with the sender's address and the data. -/
theorem sendOrAsk_delivers (lib : Libs) (k : Kernel) (op : SendOp) (avif peer : Avif)
    (hkey : lib.ossl.KeyPair avif.rsaKey)
    (hpeer : lib.ossl.KeyPair peer.rsaKey) (he : avif.rsaKey.e = 65537)
    (hfit : sealedLength avif.rsaKey.size (sealedLength peer.rsaKey.size op.data.length) < 2 ^ 31)
    (hif : k.routing.deref op.interface = .ok avif)
    (hfound : k.trustedPubkey.findRSAPubkey op.target = .ok (some peer.rsaKey.toRSA)) (now : Int) :
    ∃ k' packet, sendOrAsk lib k op now = .ok k' ∧
      k'.trace = k.trace ++ [.enqueued avif.id (.data op.send) packet] ∧
      packet.dest = avAddressFromString op.target ∧
      ∀ (receiver : Kernel) (name : Bytes) (ttl later : Int),
        receiver.routing.avifs.toList = [(name, peer)] →
        packet.dest.username = peer.ifAddress.username →
        packet.dest.domain = peer.ifAddress.domain →
        ∃ handled, deliverOrForward lib receiver { packet with timeToLive := ttl } peer later =
            .ok handled ∧
          handled.trace = receiver.trace ++ [.pushed (avAddressToString avif.ifAddress) op.data] ∧
          handled.recvBuffer =
            (receiver.recvBuffer.push (avAddressToString avif.ifAddress, op.data)).1 := by
  obtain ⟨first, second, hfirst, hsecond, hdecrypt⟩ := decryptPayload_sealed hkey hpeer hfit k.draws
  refine ⟨{ k with draws := k.draws + op.data.length }.asyncInterfaceWritePacket avif
    (.data op.send) (dataPacket avif op.target second), dataPacket avif op.target second,
    ?_, rfl, rfl, ?_⟩
  · rw [sendOrAsk, hfound, ok_bind]
    simp only [sendData, hfirst, hif, hsecond, ok_bind, pure_eq_ok]
  · intro receiver name ttl later honly huser hdomain
    have hme : receiver.isToMe (dataPacket avif op.target second).dest = true :=
      isToMe_only honly huser hdomain
    have hask : text "avim" ≠ text "pkask" := by decide
    have hreply : text "avim" ≠ text "pkreply" := by decide
    refine ⟨receiver.pushReceived (avAddressToString avif.ifAddress) op.data, ?_, rfl, rfl⟩
    rw [deliverOrForward, if_pos hme, processRecivedPacketToMe, carriedKey_dataPacket he]
    simp only [dataPacket, hask, hreply, if_false, if_true, hdecrypt, ok_bind, pure_eq_ok]

def withInterface (avif : Avif) : Kernel :=
  { initial with
    routing := ⟨(∅ : Std.ExtTreeMap Bytes Avif).insert (text "eth0") avif, [], fun _ => 0⟩ }

def sampleSender (key peerKey : RSAKey) : Kernel :=
  let k := withInterface { sampleIf with rsaKey := key }
  { k with
    trustedPubkey :=
      k.trustedPubkey.addRSAPubkey Lib.Sort.insertion (text "b@x") peerKey.toRSA 9 }

def sampleOp (key : RSAKey) : SendOp :=
  ⟨0, text "b@x", text "hi", ⟨text "eth0", 0, { sampleIf with rsaKey := key }⟩, 0⟩

theorem sendOrAsk_delivers_sample :
    ∃ k' packet,
      sendOrAsk sampleLibs (sampleSender sampleKey oddKey) (sampleOp sampleKey) 0 = .ok k' ∧
      k'.trace = [.enqueued 1 (.data 0) packet] ∧
      ∃ handled, deliverOrForward sampleLibs (withInterface (samplePeer oddKey))
          { packet with timeToLive := 61 } (samplePeer oddKey) 0 = .ok handled ∧
        handled.trace = [.pushed (text "a@x") (text "hi")] := by
  obtain ⟨k', packet, hsend, htrace, hdest, hdeliver⟩ := sendOrAsk_delivers sampleLibs
    (sampleSender sampleKey oddKey) (sampleOp sampleKey) sampleIf (samplePeer oddKey)
    sampleKey_keyPair oddKey_keyPair rfl (by decide +kernel) (by decide +kernel)
    (by decide +kernel) 0
  have honly : (withInterface (samplePeer oddKey)).routing.avifs.toList =
      [(text "eth0", samplePeer oddKey)] := by decide +kernel
  obtain ⟨handled, hhandled, hpushed, -⟩ := hdeliver (withInterface (samplePeer oddKey))
    (text "eth0") 61 0 honly (by rw [hdest]; decide +kernel) (by rw [hdest]; decide +kernel)
  exact ⟨k', packet, hsend, htrace, handled, hhandled, hpushed⟩

def exchange (k : Kernel) (op : SendOp) (peer : Avif) :
    Except Fault (List (Except Fault (List Effect))) :=
  (sendOrAsk sampleLibs k op 0).map fun k' => k'.trace.map fun
    | .enqueued _ _ packet =>
      (deliverOrForward sampleLibs (withInterface peer) packet peer 0).map Kernel.trace
    | _ => .ok []

theorem rsaPublicEncrypt_wrapped (h : int32 data.length = 0) (ossl : OpenSSL) (draw : Nat)
    (rsa : RSA) :
    rsaPublicEncrypt ossl draw rsa data = .ok [] := by
  simp [rsaPublicEncrypt, chunkLoop, h]

theorem exchange_wrapped (h : int32 data.length = 0) :
    exchange (sampleSender sampleKey sampleKey) { sampleOp sampleKey with data := data }
      (samplePeer sampleKey) = .ok [.ok [.pushed (text "a@x") []]] := by
  have hfound : (sampleSender sampleKey sampleKey).trustedPubkey.findRSAPubkey
      (sampleOp sampleKey).target = .ok (some sampleKey.toRSA) := by decide +kernel
  have hif : (sampleSender sampleKey sampleKey).routing.deref (sampleOp sampleKey).interface =
      .ok { sampleIf with rsaKey := sampleKey } := by decide +kernel
  have hsecond : rsaPrivateEncrypt sampleLibs.ossl sampleKey [] = .ok [] := rfl
  have harrives : (deliverOrForward sampleLibs (withInterface (samplePeer sampleKey))
      (dataPacket { sampleIf with rsaKey := sampleKey } (sampleOp sampleKey).target [])
      (samplePeer sampleKey) 0).map Kernel.trace = .ok [.pushed (text "a@x") []] := by
    decide +kernel
  rw [exchange, sendOrAsk, hfound, ok_bind]
  simp only [sendData, rsaPublicEncrypt_wrapped h, hif, hsecond, ok_bind, pure_eq_ok]
  exact congrArg (fun arrived => Except.ok [arrived]) harrives

/-- With the public exponent 5 the receiver undoes the outer layer with the
wrong key, OpenSSL returns -1 and the append throws. Data of 4 GiB are not
encrypted at all. -/
theorem sendOrAsk_delivers_odd :
    openSSL.KeyPair oddKey ∧ openSSL.KeyPair sampleKey ∧
      exchange (sampleSender oddKey sampleKey) (sampleOp oddKey) (samplePeer sampleKey) =
        .ok [.error .lengthError] ∧
      exchange (sampleSender sampleKey sampleKey)
          { sampleOp sampleKey with data := List.replicate (2 ^ 32) 0 } (samplePeer sampleKey) =
        .ok [.ok [.pushed (text "a@x") []]] := by
  refine ⟨oddKey_keyPair, sampleKey_keyPair, by decide +kernel, exchange_wrapped ?_⟩
  rw [List.length_replicate]
  decide

-- ---------------------------------------------------------------------------
-- Several local addresses
-- ---------------------------------------------------------------------------

/-- The packet brings `data` to `peer`, from a sender with the exponent that
receivers assume, at a length the counters of the wrappers can count. -/
structure Sealed (lib : Libs) (peer : Avif) (packet : AvPacket) (data : Bytes) : Prop where
  dest : packet.dest = peer.ifAddress
  avim : packet.upperlayerpotocol = text "avim"
  body : ∃ (key : RSAKey) (draw : Nat) (firstPubencode secondSign : Bytes),
    lib.ossl.KeyPair key ∧ key.e = 65537 ∧
    sealedLength key.size (sealedLength peer.rsaKey.size data.length) < 2 ^ 31 ∧
    rsaPublicEncrypt lib.ossl draw peer.rsaKey.toRSA data = .ok firstPubencode ∧
    rsaPrivateEncrypt lib.ossl key firstPubencode = .ok secondSign ∧
    packet.publickey = some (minBE key.n) ∧ packet.payload = some secondSign

/-- Packets for the address of `j` that come in on `i` are served by `j`: data
under its key arrive as they were sent, and a `pkask` is answered with its
address and certificate. -/
structure Served (lib : Libs) (k : Kernel) (i j : Avif) : Prop where
  data : ∀ packet data now, Sealed lib j packet data →
    ∃ handled, deliverOrForward lib k packet i now = .ok handled ∧
      handled.trace = k.trace ++ [.pushed (avAddressToString packet.src) data]
  pkask : ∀ packet now, packet.dest = j.ifAddress → packet.upperlayerpotocol = text "pkask" →
    ∃ handled link reply, deliverOrForward lib k packet i now = .ok handled ∧
      handled.trace = k.trace ++ [.enqueued link .pkreply reply] ∧
      reply.src = j.ifAddress ∧ reply.payload = some j.cert

theorem isToMe_registered {name : Bytes} {j : Avif} (h : k.routing.avifs[name]? = some j) :
    k.isToMe j.ifAddress = true := by
  refine List.any_eq_true.mpr ⟨(name, j), ?_, by simp⟩
  exact Std.ExtTreeMap.mem_toList_iff_getElem?_eq_some.mpr h

theorem Sealed.decryptPayload (h : Sealed lib peer packet data)
    (hpeer : lib.ossl.KeyPair peer.rsaKey) :
    decryptPayload lib (carriedKey packet) peer.rsaKey packet.payload = .ok data := by
  obtain ⟨key, draw, first, second, hkey, he, hfit, hfirst, hsecond, hcarried, hpayload⟩ := h.body
  obtain ⟨first', second', hfirst', hsecond', hback⟩ := decryptPayload_sealed hkey hpeer hfit draw
  rw [hfirst] at hfirst'
  cases hfirst'
  rw [hsecond] at hsecond'
  cases hsecond'
  have hcarriedKey : carriedKey packet = key.toRSA := by
    simp [carriedKey, hcarried, ← he]
  rw [hcarriedKey, hpayload, hback]

theorem served_self {name : Bytes} {j : Avif} (hj : k.routing.avifs[name]? = some j)
    (hkey : lib.ossl.KeyPair j.rsaKey) : Served lib k j j := by
  constructor
  · intro packet data now hsealed
    have hask : text "avim" ≠ text "pkask" := by decide
    have hreply : text "avim" ≠ text "pkreply" := by decide
    have hme : k.isToMe packet.dest = true := by
      rw [hsealed.dest]
      exact isToMe_registered hj
    refine ⟨k.pushReceived (avAddressToString packet.src) data, ?_, rfl⟩
    rw [deliverOrForward, if_pos hme, processRecivedPacketToMe]
    simp only [hsealed.avim, hask, hreply, if_false, if_true, hsealed.decryptPayload hkey, ok_bind,
      pure_eq_ok]
  · intro packet now hdest hask
    have hme : k.isToMe packet.dest = true := by
      rw [hdest]
      exact isToMe_registered hj
    exact ⟨_, _, _, deliverOrForward_pkask hme hask j now, rfl, rfl, rfl⟩

/-- For interfaces with distinct addresses: packets are served by the
interface they are for exactly when they come in on it. -/
theorem served_iff (lib : Libs) (k : Kernel)
    (hkeys : ∀ (name : Bytes) a, k.routing.avifs[name]? = some a → lib.ossl.KeyPair a.rsaKey)
    (hdistinct : ∀ (name other : Bytes) a b, k.routing.avifs[name]? = some a →
      k.routing.avifs[other]? = some b → a.ifAddress = b.ifAddress → a = b)
    (arrival destination : Bytes) (i j : Avif) (hi : k.routing.avifs[arrival]? = some i)
    (hj : k.routing.avifs[destination]? = some j) :
    Served lib k i j ↔ i = j := by
  constructor
  · intro h
    have hme : k.isToMe j.ifAddress = true := isToMe_registered hj
    obtain ⟨handled, link, reply, hhandled, htrace, hsrc, -⟩ := h.pkask
      { pkask j.ifAddress [] with dest := j.ifAddress } 0 rfl rfl
    rw [deliverOrForward_pkask hme rfl] at hhandled
    cases hhandled
    rw [asyncSendAgmpPkreply_trace, List.append_cancel_left_eq] at htrace
    cases htrace
    exact hdistinct arrival destination i j hi hj hsrc
  · rintro rfl
    exact served_self hi (hkeys arrival i hi)

def otherLocal : Avif :=
  { samplePeer oddKey with
    id := 3
    ifAddress := ⟨text "c", text "x", none⟩
    cert := certificate (text "c@x") oddKey.toRSA }

def twoLocals : Kernel :=
  { initial with
    routing := ⟨((∅ : Std.ExtTreeMap Bytes Avif).insert (text "eth0")
      (samplePeer sampleKey)).insert (text "eth1") otherLocal, [], fun _ => 0⟩ }

theorem twoLocals_cases {name : Bytes} (h : twoLocals.routing.avifs[name]? = some a) :
    a = samplePeer sampleKey ∨ a = otherLocal := by
  simp only [twoLocals, Std.ExtTreeMap.getElem?_insert] at h
  split at h
  · cases h
    exact .inr rfl
  · split at h
    · cases h
      exact .inl rfl
    · simp at h

theorem served_iff_other : Served sampleLibs twoLocals otherLocal otherLocal := by
  refine (served_iff sampleLibs twoLocals ?_ ?_ (text "eth1") (text "eth1") otherLocal otherLocal
    (by decide +kernel) (by decide +kernel)).mpr rfl
  · intro name a ha
    rcases twoLocals_cases ha with rfl | rfl
    · exact sampleKey_keyPair
    · exact oddKey_keyPair
  · intro name other a b ha hb
    rcases twoLocals_cases ha with rfl | rfl
    · rcases twoLocals_cases hb with rfl | rfl
      · decide +kernel
      · decide +kernel
    · rcases twoLocals_cases hb with rfl | rfl
      · decide +kernel
      · decide +kernel

def forOther : AvPacket where
  src := ⟨text "a", text "x", none⟩
  dest := otherLocal.ifAddress
  upperlayerpotocol := text "avim"
  timeToLive := 64
  payload := ((rsaPublicEncrypt openSSL 0 oddKey.toRSA (text "hi")).bind
    (rsaPrivateEncrypt openSSL sampleKey)).toOption
  publickey := some (minBE sampleKey.n)

/-- On the interface of `b@x` neither works: the inner layer does not open and
the append throws, and the answer to a `pkask` is that of `b@x`. -/
theorem served_elsewhere :
    (deliverOrForward sampleLibs twoLocals forOther otherLocal 0).map Kernel.trace =
        .ok [.pushed (text "a@x") (text "hi")] ∧
      (deliverOrForward sampleLibs twoLocals forOther (samplePeer sampleKey) 0).map Kernel.trace =
        .error .lengthError ∧
      (deliverOrForward sampleLibs twoLocals
          { forOther with upperlayerpotocol := text "pkask" } (samplePeer sampleKey) 0).map
          Kernel.trace =
        .ok [.enqueued 2 .pkreply (pkreply (samplePeer sampleKey) (text "a@x"))] ∧
      ¬ Served sampleLibs twoLocals (samplePeer sampleKey) otherLocal := by
  have hask : (deliverOrForward sampleLibs twoLocals
      { forOther with upperlayerpotocol := text "pkask" } (samplePeer sampleKey) 0).map
      Kernel.trace = .ok [.enqueued 2 .pkreply (pkreply (samplePeer sampleKey) (text "a@x"))] := by
    decide +kernel
  refine ⟨by decide +kernel, by decide +kernel, hask, ?_⟩
  intro h
  obtain ⟨handled, link, reply, hhandled, htrace, hsrc, -⟩ :=
    h.pkask { forOther with upperlayerpotocol := text "pkask" } 0 rfl rfl
  rw [hhandled] at hask
  have heq := htrace.symm.trans (Except.ok.inj hask)
  cases heq
  exact absurd hsrc (by decide +kernel)

-- ---------------------------------------------------------------------------
-- What reaches the application
-- ---------------------------------------------------------------------------

def pushes (trace : List Effect) : List (Bytes × Bytes) :=
  trace.filterMap fun
    | .pushed sender payload => some (sender, payload)
    | _ => none

theorem sendOrAsk_pushes (h : sendOrAsk lib k op now = .ok k') :
    pushes k'.trace = pushes k.trace := by
  obtain ⟨key, avif, second, -, -, rfl⟩ | ⟨avif, -, -, -, rfl⟩ | ⟨-, -, rfl⟩ := sendOrAsk_cases h
  · simp [pushes]
  · simp [pushes]
  · simp [pushes]

theorem sweep_pushes (h : sweep lib due k now = .ok k') : pushes k'.trace = pushes k.trace :=
  sweep_keeps (I := fun k' => pushes k'.trace = pushes k.trace)
    (fun _ _ _ hres hk => (sendOrAsk_pushes hres).trans hk) (fun _ _ hk => hk) rfl h

theorem processRecivedPacket_pushes (h : processRecivedPacket lib k packet avif now = .ok k') :
    (k.isToMe packet.dest = true ∧ packet.upperlayerpotocol = text "avim" ∧
      ∃ payload, decryptPayload lib (carriedKey packet) avif.rsaKey packet.payload = .ok payload ∧
        pushes k'.trace = pushes k.trace ++ [(avAddressToString packet.src, payload)]) ∨
    (¬ (k.isToMe packet.dest = true ∧ packet.upperlayerpotocol = text "avim") ∧
      pushes k'.trace = pushes k.trace) := by
  obtain ⟨checked, handled, hchecked, hhandled, hswept⟩ := processRecivedPacket_returns h
  rw [sweep_pushes hswept, ← checkKey_trace hchecked]
  obtain ⟨hme, hhandled⟩ | ⟨hme, hhandled⟩ := hhandled
  · obtain ⟨hask, rfl⟩ | ⟨hreply, rsa, -, rfl⟩ | ⟨-, -, payload, hpayload, hcase⟩ :=
      toMe_cases hhandled
    · refine .inr ⟨fun havim => ?_, by simp [pushes]⟩
      rw [hask] at havim
      exact absurd havim.2 (by decide)
    · refine .inr ⟨fun havim => ?_, by simp [pushes]⟩
      rw [hreply] at havim
      exact absurd havim.2 (by decide)
    · obtain ⟨havim, rfl⟩ | ⟨havim, rfl⟩ := hcase
      · exact .inl ⟨hme, havim, payload, hpayload, by simp [pushes]⟩
      · exact .inr ⟨fun hboth => havim hboth.2, rfl⟩
  · refine .inr ⟨fun hboth => by simp [hme] at hboth, ?_⟩
    obtain rfl | ⟨-, interface, t, -, rfl⟩ := forward_cases hhandled
    · rfl
    · simp [pushes]

-- ---------------------------------------------------------------------------
-- Authenticity
-- ---------------------------------------------------------------------------

section

variable (lib)

def Stripped (key : RSA) (avif : Avif) (packet : AvPacket) (d : Bytes) : Prop :=
  ∃ body stage, packet.payload = some body ∧ rsaPublicDecrypt lib.ossl key body = .ok stage ∧
    rsaPrivateDecrypt lib.ossl avif.rsaKey stage = .ok d

/-- What a step that processes a packet may push while a key is on record for
the packet's sender: a payload stripped with that key, from a packet that does
not carry another one. -/
def Authentic (k : Kernel) (event : Event) (k' : Kernel) : Prop :=
  ∀ index now packet avif, event = .process index now → k.spawned[index]? = some (packet, avif) →
    ∀ key, k.trustedPubkey.findRSAPubkey (avAddressToString packet.src) = .ok (some key) →
      ∀ d, pushes k'.trace = pushes k.trace ++ [(avAddressToString packet.src, d)] →
        Stripped lib key avif packet d ∧
          (packet.publickey.isSome = true → carriedKey packet = key)

def Genuine (k : Kernel) (event : Event) : Prop :=
  ∀ index now packet avif, event = .process index now → k.spawned[index]? = some (packet, avif) →
    ∀ key, k.trustedPubkey.findRSAPubkey (avAddressToString packet.src) = .ok (some key) →
      k.isToMe packet.dest = true → packet.upperlayerpotocol = text "avim" →
        packet.payload.isSome = true ∧ (packet.publickey.isSome = true → carriedKey packet = key)

end

theorem rsaPublicDecrypt_nil (ossl : OpenSSL) (rsa : RSA) :
    rsaPublicDecrypt ossl rsa [] = .ok [] := rfl

/-- A packet without a key is decrypted with the empty modulus, which only an
empty payload survives. -/
theorem stripped_of_no_key {avif : Avif} (hnone : packet.publickey = none)
    (h : decryptPayload lib (carriedKey packet) avif.rsaKey (some body) = .ok d) (key : RSA) :
    ∃ stage, rsaPublicDecrypt lib.ossl key body = .ok stage ∧
      rsaPrivateDecrypt lib.ossl avif.rsaKey stage = .ok d := by
  obtain ⟨stage, hstage, hd⟩ := bind_returns h
  have hsize : (carriedKey packet).size = 0 := by
    rw [carriedKey, hnone]
    rfl
  have hbody : body = [] := by
    by_contra hne
    rw [rsaPublicDecrypt, hsize] at hstage
    exact chunkLoop_zero (List.length_pos_iff.mpr hne) hstage
  subst hbody
  rw [rsaPublicDecrypt_nil] at hstage
  exact ⟨stage, hstage, hd⟩

theorem authentic_step_iff (h : step lib k event = .ok k') :
    Authentic lib k event k' ↔ Genuine k event := by
  constructor
  · rintro ha index now packet avif rfl hpacket key hkey hme havim
    simp only [step, hpacket] at h
    obtain ⟨-, -, payload, -, hpush⟩ | ⟨hno, -⟩ := processRecivedPacket_pushes h
    · obtain ⟨⟨body, -, hbody, -⟩, hcarried⟩ :=
        ha index now packet avif rfl hpacket key hkey payload hpush
      exact ⟨by simp [hbody], hcarried⟩
    · exact absurd ⟨hme, havim⟩ hno
  · rintro hg index now packet avif rfl hpacket key hkey d hpush
    simp only [step, hpacket] at h
    obtain ⟨hme, havim, payload, hpayload, hpushed⟩ | ⟨-, hsame⟩ := processRecivedPacket_pushes h
    · obtain ⟨hsome, hcarried⟩ := hg index now packet avif rfl hpacket key hkey hme havim
      refine ⟨?_, hcarried⟩
      rw [hpush] at hpushed
      obtain rfl : d = payload := by simpa using hpushed
      obtain ⟨body, hbody⟩ := Option.isSome_iff_exists.mp hsome
      rw [hbody] at hpayload
      cases hkeyed : packet.publickey with
      | none =>
        obtain ⟨stage, hstage, hd⟩ := stripped_of_no_key hkeyed hpayload key
        exact ⟨body, stage, hbody, hstage, hd⟩
      | some pk =>
        obtain ⟨stage, hstage, hd⟩ := bind_returns hpayload
        rw [hcarried (by simp [hkeyed])] at hstage
        exact ⟨body, stage, hbody, hstage, hd⟩
    · rw [hpush] at hsame
      simp at hsame

/-- Over any run, from any state: the messages of addresses with a key on
record are genuine exactly when their packets are. -/
theorem authentic_iff (lib : Libs) (k : Kernel) (events : List Event) :
    Lib.Run.Along (step lib) (Authentic lib) k events ↔
      Lib.Run.Along (step lib) (fun k event _ => Genuine k event) k events := by
  constructor
  · exact Lib.Run.along_imp fun _ _ _ h ha => (authentic_step_iff h).mp ha
  · exact Lib.Run.along_imp fun _ _ _ h hg => (authentic_step_iff h).mpr hg

def firstContact : AvPacket where
  src := ⟨text "a", text "x", none⟩
  dest := ⟨text "c", text "x", none⟩
  upperlayerpotocol := text "avim"
  timeToLive := 1
  payload := none
  publickey := some (minBE (sampleKey.n + 2))

def forged : AvPacket where
  src := ⟨text "a", text "x", none⟩
  dest := ⟨text "b", text "x", none⟩
  upperlayerpotocol := text "avim"
  timeToLive := 64
  payload := ((rsaPublicEncrypt openSSL 0 sampleKey.toRSA (text "hi")).bind
    (rsaPrivateEncrypt openSSL sampleKey)).toOption
  publickey := some (minBE sampleKey.n)

def forgedRun : List Event :=
  [.addInterface (samplePeer sampleKey), .startRunner 0, .read 0 (some firstContact), .process 0 0,
    .read 0 (some forged)]

/-- The key on record for `a@x` is not the one the packet carries, and the
packet is delivered as a message from `a@x` all the same. -/
theorem authentic_forged :
    ¬ Lib.Run.Along (step sampleLibs) (Authentic sampleLibs) initial
      (forgedRun ++ [.process 0 1]) := by
  intro ha
  have hbefore : (forgedRun.foldlM (step sampleLibs) initial).map (fun k : Kernel => decide
      (k.spawned[0]? = some (forged, samplePeer sampleKey) ∧
        k.trustedPubkey.findRSAPubkey (text "a@x") = .ok (some ⟨sampleKey.n + 2, 65537⟩) ∧
        pushes k.trace = [])) = .ok true := by
    decide +kernel
  have hafter : ((forgedRun ++ [Event.process 0 1]).foldlM (step sampleLibs) initial).map
      (fun k : Kernel => pushes k.trace) = .ok [(text "a@x", text "hi")] := by
    decide +kernel
  obtain ⟨k, hk, hfacts⟩ := map_returns hbefore
  obtain ⟨k', hk', hpush⟩ := map_returns hafter
  obtain ⟨hspawned, hkey, hnone⟩ := of_decide_eq_true hfacts
  have hstep := ha.last hk hk' 0 1 forged (samplePeer sampleKey) rfl hspawned
    ⟨sampleKey.n + 2, 65537⟩ hkey (text "hi") (by rw [hpush, hnone]; rfl)
  exact absurd (hstep.2 (by decide)) (by decide +kernel)

end Avim.Kernel
