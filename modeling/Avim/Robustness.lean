import Avim.Interfaces

/-!
# Packets that bring the kernel down

No result of OpenSSL is checked while a packet is processed: a certificate
that does not parse is a null pointer, a block that does not open an append of
-1 bytes, and a modulus of no bytes a loop that never ends. The calls that the
packet wakes up run before it is done and can fail in the same ways.
Processing returns exactly for packets that avoid all of it
(`survives_iff`), and then leaves interfaces and routes alone.
-/

namespace Avim.Kernel

open Lib.Octets

variable {lib : Libs} {k k' : Kernel}

-- ---------------------------------------------------------------------------
-- What a packet must be like
-- ---------------------------------------------------------------------------

section

variable (lib)

/-- The payload is a certificate with an RSA key in it. -/
def Certifies (payload : Bytes) : Prop :=
  ∃ crt pkey rsa, lib.ossl.d2iX509 payload = some crt ∧ lib.ossl.x509GetPubkey crt = some pkey ∧
    lib.ossl.evpPkeyGet1RSA pkey = some rsa

/-- A payload, if there is one, opens with the key the packet carries and then
with the interface's. -/
def Opens (packet : AvPacket) (rsaKey : RSAKey) : Prop :=
  ∀ body, packet.payload = some body → PublicDecrypts lib.ossl (carriedKey packet) body ∧
    ∀ stage1decypted, rsaPublicDecrypt lib.ossl (carriedKey packet) body = .ok stage1decypted →
      PrivateDecrypts lib.ossl rsaKey stage1decypted

/-- A call can go on with `key`. -/
def Sendable (r : Routing) (key : RSA) (draws : Nat) (op : SendOp) : Prop :=
  PublicEncrypts lib.ossl draws key op.data ∧ Valid r op.interface ∧
    ∀ firstPubencode, rsaPublicEncrypt lib.ossl draws key op.data = .ok firstPubencode →
      PrivateEncrypts lib.ossl op.interface.avif.rsaKey firstPubencode

def Resumable (r : Routing) (key : RSA) : Nat → List Waiter → Prop
  | _, [] => True
  | draws, w :: waiters =>
    Sendable lib r key draws w.op ∧ Resumable r key (draws + w.op.data.length) waiters

/-- A call that is resumed can send if there is a key, and ask again if there is
none. -/
def Proceeds (r : Routing) (store : KeyStore) (draws : Nat) (op : SendOp) : Prop :=
  match store.findRSAPubkey op.target with
  | .ok (some key) => Sendable lib r key draws op
  | .ok none => op.asks < 3 → Valid r op.interface
  | .error _ => False

def drawn (store : KeyStore) (op : SendOp) : Nat :=
  match store.findRSAPubkey op.target with
  | .ok (some _) => op.data.length
  | _ => 0

/-- `Resumable` for calls to different targets. -/
def Continuable (r : Routing) (store : KeyStore) : Nat → List Waiter → Prop
  | _, [] => True
  | draws, w :: waiters =>
    Proceeds lib r store draws w.op ∧ Continuable r store (draws + drawn store w.op) waiters

/-- The keys on record once the packet was looked at. -/
def learned (k : Kernel) (packet : AvPacket) (now : Int) : KeyStore :=
  let add := avAddressToString packet.src
  let store :=
    if k.trustedPubkey.findRSAPubkey add = .ok none ∧ packet.publickey.isSome = true then
      k.trustedPubkey.addRSAPubkey lib.std add (carriedKey packet) (now + validity)
    else k.trustedPubkey
  if k.isToMe packet.dest = true ∧ packet.upperlayerpotocol = text "pkreply" then
    match certificateKey lib (packet.payload.getD []) with
    | .ok rsa => store.addRSAPubkey lib.std add rsa (now + validity)
    | .error _ => store
  else store

structure Harmless (k : Kernel) (packet : AvPacket) (avif : Avif) (now : Int) : Prop where
  certificate : k.isToMe packet.dest = true → packet.upperlayerpotocol = text "pkreply" →
    Certifies lib (packet.payload.getD [])
  payload : k.isToMe packet.dest = true → packet.upperlayerpotocol ≠ text "pkask" →
    packet.upperlayerpotocol ≠ text "pkreply" → Opens lib packet avif.rsaKey
  waiting : ∀ key, (learned lib k packet now).findRSAPubkey (avAddressToString packet.src) =
      .ok (some key) →
    Resumable lib k.routing key k.draws
      (k.waiters.filter (·.op.target = avAddressToString packet.src))

end

-- ---------------------------------------------------------------------------
-- The packet itself
-- ---------------------------------------------------------------------------

theorem orNull_returns_iff {p : Option α} : orNull p = .ok a ↔ p = some a := by
  cases p with
  | none => simp [orNull]
  | some b => simp [orNull]

theorem certificateKey_returns_iff (lib : Libs) (payload : Bytes) :
    (∃ rsa, certificateKey lib payload = .ok rsa) ↔ Certifies lib payload := by
  rw [certificateKey, bind_returns_iff]
  constructor
  · rintro ⟨crt, hcrt, hrest⟩
    obtain ⟨pkey, hpkey, rsa, hrsa⟩ := bind_returns_iff.mp hrest
    exact ⟨crt, pkey, rsa, orNull_returns_iff.mp hcrt, orNull_returns_iff.mp hpkey,
      orNull_returns_iff.mp hrsa⟩
  · rintro ⟨crt, pkey, rsa, hcrt, hpkey, hrsa⟩
    exact ⟨crt, orNull_returns_iff.mpr hcrt, bind_returns_iff.mpr
      ⟨pkey, orNull_returns_iff.mpr hpkey, rsa, orNull_returns_iff.mpr hrsa⟩⟩

theorem decryptPayload_returns_iff (lib : Libs) (packet : AvPacket) (rsaKey : RSAKey) :
    (∃ payload, decryptPayload lib (carriedKey packet) rsaKey packet.payload = .ok payload) ↔
      Opens lib packet rsaKey := by
  cases hbody : packet.payload with
  | none => simp [decryptPayload, Opens, hbody]
  | some body =>
    rw [decryptPayload, bind_returns_iff]
    constructor
    · rintro ⟨stage1, hstage1, hrest⟩ other hother
      cases hbody.symm.trans hother
      refine ⟨(rsaPublicDecrypt_returns_iff _ _ _).mp ⟨stage1, hstage1⟩, ?_⟩
      intro stage hstage
      cases hstage1.symm.trans hstage
      exact (rsaPrivateDecrypt_returns_iff _ _ _).mp hrest
    · intro h
      obtain ⟨hpublic, hprivate⟩ := h body hbody
      obtain ⟨stage1, hstage1⟩ := (rsaPublicDecrypt_returns_iff _ _ _).mpr hpublic
      exact ⟨stage1, hstage1, (rsaPrivateDecrypt_returns_iff _ _ _).mpr (hprivate stage1 hstage1)⟩

theorem forward_returns (lib : Libs) (hk : Standing k) (packet : AvPacket) :
    ∃ handled, forward lib k packet = .ok handled := by
  unfold forward
  split
  · exact ⟨k, rfl⟩
  · obtain ⟨found, hfound⟩ := hk.selectRoute_returns lib.regex (avAddressToString packet.dest)
    refine bind_returns_iff.mpr ⟨found, hfound, ?_⟩
    cases found with
    | none => exact ⟨k, rfl⟩
    | some interface => exact ⟨_, rfl⟩

theorem toMe_returns_iff (k : Kernel) (packet : AvPacket) (avif : Avif) (now : Int) :
    (∃ handled, processRecivedPacketToMe lib k packet avif now = .ok handled) ↔
      (packet.upperlayerpotocol = text "pkreply" → Certifies lib (packet.payload.getD [])) ∧
      (packet.upperlayerpotocol ≠ text "pkask" → packet.upperlayerpotocol ≠ text "pkreply" →
        Opens lib packet avif.rsaKey) := by
  by_cases hask : packet.upperlayerpotocol = text "pkask"
  · have hno : text "pkask" ≠ text "pkreply" := by decide
    simp [processRecivedPacketToMe, hask, hno]
  · by_cases hreply : packet.upperlayerpotocol = text "pkreply"
    · have hreads := certificateKey_returns_iff lib (packet.payload.getD [])
      have hprotocol : text "pkreply" ≠ text "pkask" := by decide
      simp only [processRecivedPacketToMe, hreply, hprotocol, if_false, if_true]
      constructor
      · intro h
        obtain ⟨rsa, hrsa, -⟩ := bind_returns_iff.mp h
        exact ⟨fun _ => hreads.mp ⟨rsa, hrsa⟩, fun _ hno => absurd rfl hno⟩
      · rintro ⟨hcertifies, -⟩
        obtain ⟨rsa, hrsa⟩ := hreads.mpr (hcertifies trivial)
        exact bind_returns_iff.mpr ⟨rsa, hrsa, _, rfl⟩
    · have hopens := decryptPayload_returns_iff lib packet avif.rsaKey
      simp only [processRecivedPacketToMe, hask, hreply, if_false]
      constructor
      · intro h
        obtain ⟨payload, hpayload, -⟩ := bind_returns_iff.mp h
        exact ⟨fun heq => heq.elim, fun _ _ => hopens.mp ⟨payload, hpayload⟩⟩
      · rintro ⟨-, hopen⟩
        obtain ⟨payload, hpayload⟩ := hopens.mpr (hopen hask hreply)
        refine bind_returns_iff.mpr ⟨payload, hpayload, ?_⟩
        split
        · exact ⟨_, rfl⟩
        · exact ⟨_, rfl⟩

-- ---------------------------------------------------------------------------
-- The calls it wakes up
-- ---------------------------------------------------------------------------

theorem sendData_returns_iff (k : Kernel) (op : SendOp) (key : RSA) :
    (∃ k', sendData lib k op key = .ok k') ↔ Sendable lib k.routing key k.draws op := by
  constructor
  · rintro ⟨k', h⟩
    obtain ⟨first, avif, second, hfirst, hif, hsecond, -⟩ := sendData_returns h
    unfold Routing.deref at hif
    split at hif
    · rename_i hvalid
      cases hif
      refine ⟨(rsaPublicEncrypt_returns_iff _ _ _ _).mp ⟨first, hfirst⟩, hvalid, ?_⟩
      intro other hother
      cases hfirst.symm.trans hother
      exact (rsaPrivateEncrypt_returns_iff _ _ _).mp ⟨second, hsecond⟩
    · cases hif
  · rintro ⟨hencrypts, hvalid, hsigns⟩
    obtain ⟨first, hfirst⟩ := (rsaPublicEncrypt_returns_iff _ _ _ _).mpr hencrypts
    obtain ⟨second, hsecond⟩ := (rsaPrivateEncrypt_returns_iff _ _ _).mpr (hsigns first hfirst)
    refine bind_returns_iff.mpr ⟨first, hfirst, ?_⟩
    rw [deref_of_valid hvalid, ok_bind]
    exact bind_returns_iff.mpr ⟨second, hsecond, _, rfl⟩

theorem sendOrAsk_returns_iff (k : Kernel) (op : SendOp) (now : Int) :
    (∃ k', sendOrAsk lib k op now = .ok k') ↔
      Proceeds lib k.routing k.trustedPubkey k.draws op := by
  unfold sendOrAsk Proceeds
  cases k.trustedPubkey.findRSAPubkey op.target with
  | error fault => simp
  | ok found =>
    rw [ok_bind]
    cases found with
    | some key => exact sendData_returns_iff k op key
    | none =>
      by_cases hasks : op.asks < 3
      · simp only [hasks, if_true, forall_true_left]
        constructor
        · rintro ⟨k', h⟩
          obtain ⟨avif, hif, -⟩ := askKey_returns h
          unfold Routing.deref at hif
          split at hif
          · rename_i hvalid
            exact hvalid
          · cases hif
        · intro hvalid
          rw [askKey, deref_of_valid hvalid]
          exact ⟨_, rfl⟩
      · simp only [hasks, if_false, false_implies, iff_true]
        exact ⟨_, rfl⟩

theorem sendOrAsk_draws (h : sendOrAsk lib k op now = .ok k') :
    k'.draws = k.draws + drawn k.trustedPubkey op := by
  obtain ⟨key, avif, second, hkey, -, rfl⟩ | ⟨avif, hnone, -, -, rfl⟩ | ⟨hnone, -, rfl⟩ :=
    sendOrAsk_cases h
  · rw [drawn, hkey]
    rfl
  · rw [drawn, hnone]
    rfl
  · rw [drawn, hnone]
    rfl

theorem sweepFrom_returns_iff {due : Kernel → Waiter → Except Fault Bool} {p : Waiter → Bool}
    {store : KeyStore} (lib : Libs) (hpicks : Picks due p store now) (done : List Waiter)
    (hstore : k.trustedPubkey = store) (hw : k.waiters = done ++ rest)
    (hfuel : (rest.map Waiter.rounds).sum < fuel) :
    (∃ k', sweepFrom lib due now fuel k done.length = .ok k') ↔
      Continuable lib k.routing store k.draws (rest.filter p) := by
  refine hpicks.rule lib (motive := fun fuel k done rest =>
    (rest.map Waiter.rounds).sum < fuel →
      ((∃ k', sweepFrom lib due now fuel k done.length = .ok k') ↔
        Continuable lib k.routing store k.draws (rest.filter p)))
    ?_ ?_ ?_ ?_ fuel hstore hw hfuel
  · intro k done rest hfuel
    cases hfuel
  · intro fuel k _
    exact ⟨fun _ => trivial, fun _ => ⟨k, sweepFrom_end fuel rfl⟩⟩
  · intro fuel k done w rest hw hdue hp ih hfuel
    have hless := rounds_again store now w rest
    rw [List.map_append, List.sum_append] at hless
    rw [sweepFrom_skip fuel hw hdue, List.filter_cons_of_neg (by simp [hp])]
    exact ih (by omega)
  · intro fuel k done w rest hstore hw hdue hp ih hfuel
    rw [sweepFrom_resume fuel hw hdue, bind_returns_iff, List.filter_cons_of_pos hp,
      Continuable, ← hstore, ← sendOrAsk_returns_iff k w.op now]
    -- what the first call leaves behind for the next
    have hnext : ∀ resumed, sendOrAsk lib k w.op now = .ok resumed →
        ((∃ k', sweepFrom lib due now fuel
            { resumed with waiters := resumed.waiters.eraseIdx done.length } done.length =
              .ok k') ↔
          Continuable lib k.routing k.trustedPubkey
            (k.draws + drawn k.trustedPubkey w.op) (rest.filter p)) := by
      intro resumed hres
      have hrounds := rounds_again store now w rest
      have hiff := ih resumed hres (by omega)
      rw [hpicks.filter_again] at hiff
      refine hiff.trans (Iff.of_eq ?_)
      rw [← sendOrAsk_draws hres, ← (sendOrAsk_same hres).1, hstore]
    constructor
    · rintro ⟨resumed, hresumed, hrest⟩
      exact ⟨⟨resumed, hresumed⟩, (hnext resumed hresumed).mp hrest⟩
    · rintro ⟨⟨resumed, hresumed⟩, hrest⟩
      exact ⟨resumed, hresumed, (hnext resumed hresumed).mpr hrest⟩

theorem continuable_iff_resumable {r : Routing} {store : KeyStore} {draws : Nat}
    {waiters : List Waiter}
    (hkey : ∀ w ∈ waiters, store.findRSAPubkey w.op.target = .ok (some key)) :
    Continuable lib r store draws waiters ↔ Resumable lib r key draws waiters := by
  induction waiters generalizing draws with
  | nil => exact Iff.rfl
  | cons w waiters ih =>
    have hfirst := hkey w List.mem_cons_self
    rw [Continuable, Resumable, Proceeds, drawn, hfirst,
      ih fun v hv => hkey v (List.mem_cons_of_mem _ hv)]

theorem sweep_returns_iff (hfilled : k.trustedPubkey.Filled) (packet : AvPacket) (now : Int) :
    (∃ k', sweep lib (answered packet) k now = .ok k') ↔
      ∀ key, k.trustedPubkey.findRSAPubkey (avAddressToString packet.src) = .ok (some key) →
        Resumable lib k.routing key k.draws
          (k.waiters.filter (·.op.target = avAddressToString packet.src)) := by
  obtain ⟨found, hfound, -⟩ := hfilled.find (avAddressToString packet.src)
  cases found with
  | none =>
    rw [sweep_unanswered rfl hfound, hfound]
    exact ⟨fun _ key hkey => (nomatch hkey), fun _ => ⟨k, rfl⟩⟩
  | some key =>
    have htarget : ∀ w ∈ k.waiters.filter (·.op.target = avAddressToString packet.src),
        k.trustedPubkey.findRSAPubkey w.op.target = .ok (some key) := by
      intro w hw
      have hsource := (List.mem_filter.mp hw).2
      rw [decide_eq_true_eq] at hsource
      rw [hsource, hfound]
    have hiff := sweepFrom_returns_iff lib (picks_answered rfl hfound now) [] rfl rfl
      (Nat.lt_succ_self _)
    rw [continuable_iff_resumable htarget] at hiff
    rw [hfound]
    constructor
    · intro h other hother
      cases hother
      exact hiff.mp h
    · intro h
      exact hiff.mpr (h key rfl)

-- ---------------------------------------------------------------------------
-- All of it
-- ---------------------------------------------------------------------------

theorem checkKey_returns (lib : Libs) (hk : Standing k) (packet : AvPacket) (now : Int) :
    ∃ checked, checkKey lib k packet now = .ok checked := by
  obtain ⟨found, hfound, -⟩ := hk.filled.find (avAddressToString packet.src)
  refine bind_returns_iff.mpr ⟨found, hfound, ?_⟩
  split
  · exact ⟨_, rfl⟩
  · exact ⟨_, rfl⟩

theorem checkKey_store (h : checkKey lib k packet now = .ok checked) :
    checked.trustedPubkey =
      if k.trustedPubkey.findRSAPubkey (avAddressToString packet.src) = .ok none ∧
          packet.publickey.isSome = true then
        k.trustedPubkey.addRSAPubkey lib.std (avAddressToString packet.src) (carriedKey packet)
          (now + validity)
      else k.trustedPubkey := by
  obtain ⟨stored, hstored, ⟨hnone, hsome, rfl⟩ | ⟨hknown, rfl⟩⟩ := checkKey_cases h
  · rw [Option.isNone_iff_eq_none.mp hnone] at hstored
    rw [if_pos ⟨hstored, hsome⟩]
    rfl
  · rw [if_neg ?_]
    rintro ⟨hnone, hsome⟩
    cases hstored.symm.trans hnone
    rcases hknown with hknown | hknown
    · cases hknown
    · simp [Option.isNone_iff_eq_none.mp hknown] at hsome

theorem learned_of_handled (hchecked : checkKey lib k packet now = .ok checked)
    (h : deliverOrForward lib checked packet avif now = .ok handled) :
    handled.trustedPubkey = learned lib k packet now := by
  have hreply : text "pkask" ≠ text "pkreply" := by decide
  simp only [learned, ← checkKey_store hchecked]
  obtain ⟨hme, h⟩ | ⟨hme, h⟩ := deliverOrForward_cases hchecked h
  · obtain ⟨hask, rfl⟩ | ⟨hreply, rsa, hrsa, rfl⟩ | ⟨-, hno, payload, -, ⟨-, rfl⟩ | ⟨-, rfl⟩⟩ :=
      toMe_cases h
    · rw [if_neg (by simp [hask, hreply])]
      rfl
    · rw [if_pos ⟨hme, hreply⟩, hrsa]
      rfl
    · rw [if_neg (by simp [hno])]
      rfl
    · rw [if_neg (by simp [hno])]
  · rw [if_neg (by simp [hme])]
    obtain rfl | ⟨-, interface, t, -, rfl⟩ := forward_cases h
    · rfl
    · rfl

theorem deliverOrForward_returns_iff (hk : Standing k)
    (hchecked : checkKey lib k packet now = .ok checked) (avif : Avif) :
    (∃ handled, deliverOrForward lib checked packet avif now = .ok handled) ↔
      (k.isToMe packet.dest = true → packet.upperlayerpotocol = text "pkreply" →
        Certifies lib (packet.payload.getD [])) ∧
      (k.isToMe packet.dest = true → packet.upperlayerpotocol ≠ text "pkask" →
        packet.upperlayerpotocol ≠ text "pkreply" → Opens lib packet avif.rsaKey) := by
  rw [deliverOrForward, checkKey_isToMe hchecked]
  cases hme : k.isToMe packet.dest with
  | true =>
    rw [if_pos rfl, toMe_returns_iff]
    exact ⟨fun h => ⟨fun _ => h.1, fun _ => h.2⟩, fun h => ⟨h.1 rfl, h.2 rfl⟩⟩
  | false =>
    have hreturns := forward_returns lib (hk.checkKey hchecked) packet
    simpa using hreturns

/-- In every reachable state: processing a packet returns, with interfaces and
routes as they were, exactly when the packet is harmless. -/
theorem survives_iff (lib : Libs) (k : Kernel) (hk : Reached lib k) (packet : AvPacket)
    (avif : Avif) (now : Int) :
    (∃ k', processRecivedPacket lib k packet avif now = .ok k' ∧ k'.routing = k.routing) ↔
      Harmless lib k packet avif now := by
  obtain ⟨checked, hchecked⟩ := checkKey_returns lib hk.standing packet now
  have hdelivers := deliverOrForward_returns_iff hk.standing hchecked avif
  -- the sweep finds what the packet left of the state before
  have hsweeps : ∀ handled, deliverOrForward lib checked packet avif now = .ok handled →
      ((∃ k', sweep lib (answered packet) handled now = .ok k') ↔
        ∀ key, (learned lib k packet now).findRSAPubkey (avAddressToString packet.src) =
            .ok (some key) →
          Resumable lib k.routing key k.draws
            (k.waiters.filter (·.op.target = avAddressToString packet.src))) := by
    intro handled hhandled
    have hparts := handled_of_delivered hchecked hhandled
    rw [sweep_returns_iff (hparts.filled hk.standing.filled), learned_of_handled hchecked hhandled,
      hparts.routing, hparts.draws, hparts.waiters]
  constructor
  · rintro ⟨k', h, -⟩
    rw [processRecivedPacket, hchecked, ok_bind] at h
    obtain ⟨handled, hhandled, hswept⟩ := bind_returns h
    obtain ⟨hcertificate, hpayload⟩ := hdelivers.mp ⟨handled, hhandled⟩
    exact ⟨hcertificate, hpayload, (hsweeps handled hhandled).mp ⟨k', hswept⟩⟩
  · rintro ⟨hcertificate, hpayload, hwaiting⟩
    obtain ⟨handled, hhandled⟩ := hdelivers.mpr ⟨hcertificate, hpayload⟩
    obtain ⟨k', hswept⟩ := (hsweeps handled hhandled).mpr hwaiting
    have hrouting := (handled_of_delivered hchecked hhandled).routing
    refine ⟨k', ?_, (sweep_same hswept).1.trans hrouting⟩
    rw [processRecivedPacket, hchecked, ok_bind, hhandled, ok_bind, hswept]

theorem returns_of_isOk {x : Except ε α} (h : x.isOk = true) : ∃ a, x = .ok a := by
  cases x with
  | error e => cases h
  | ok a => exact ⟨a, rfl⟩

theorem sendable_of_isOk {draws : Nat} (hvalid : Valid r op.interface)
    (h : (rsaPublicEncrypt lib.ossl draws key op.data >>=
      rsaPrivateEncrypt lib.ossl op.interface.avif.rsaKey).isOk = true) :
    Sendable lib r key draws op := by
  obtain ⟨second, hboth⟩ := returns_of_isOk h
  obtain ⟨first, hfirst, hsecond⟩ := bind_returns hboth
  refine ⟨(rsaPublicEncrypt_returns_iff _ _ _ _).mp ⟨first, hfirst⟩, hvalid, ?_⟩
  intro other hother
  cases hfirst.symm.trans hother
  exact (rsaPrivateEncrypt_returns_iff _ _ _).mp ⟨second, hsecond⟩

def waitingForA : Kernel :=
  after sampleLibs [.addInterface (samplePeer sampleKey),
    .addRoute (text ".+@.+") [] (text "eth0") 100, .asyncSendto (text "a@x") (text "hi") 0]

theorem survives_message :
    ∃ k', processRecivedPacket sampleLibs waitingForA forged (samplePeer sampleKey) 1 = .ok k' ∧
      k'.routing = waitingForA.routing := by
  refine (survives_iff sampleLibs waitingForA (reached_after _ _) forged (samplePeer sampleKey)
    1).mpr ⟨?_, ?_, ?_⟩
  · intro _ hreply
    exact absurd hreply (by decide)
  · intro _ _ _
    exact (decryptPayload_returns_iff _ _ _).mp (returns_of_isOk (by decide +kernel))
  · intro key hkey
    have hlearned : (learned sampleLibs waitingForA forged 1).findRSAPubkey
        (avAddressToString forged.src) = .ok (some sampleKey.toRSA) := by
      decide +kernel
    cases hlearned.symm.trans hkey
    have hwaiting : waitingForA.waiters.filter (·.op.target = avAddressToString forged.src) =
        [⟨8000000, 0, text "a@x", text "hi", ⟨text "eth0", 0, samplePeer sampleKey⟩, 1⟩] := by
      decide +kernel
    rw [hwaiting]
    exact ⟨sendable_of_isOk (by decide +kernel) (by decide +kernel), trivial⟩

def junk (upperlayerpotocol : Bytes) (publickey : Option Bytes) : AvPacket where
  src := ⟨text "a", text "x", none⟩
  dest := ⟨text "b", text "x", none⟩
  upperlayerpotocol := upperlayerpotocol
  timeToLive := 64
  payload := some [1]
  publickey := publickey

/-- A certificate that is none, a payload without a key, and a payload that
does not open. -/
theorem survives_junk :
    Reached sampleLibs waitingForA ∧
      (processRecivedPacket sampleLibs waitingForA (junk (text "pkreply") none)
        (samplePeer sampleKey) 1).map Kernel.trace = .error .nullPointer ∧
      (processRecivedPacket sampleLibs waitingForA (junk (text "avim") none)
        (samplePeer sampleKey) 1).map Kernel.trace = .error .lengthError ∧
      (processRecivedPacket sampleLibs waitingForA (junk (text "avim") (some (minBE sampleKey.n)))
        (samplePeer sampleKey) 1).map Kernel.trace = .error .lengthError ∧
      ¬ ∃ k', processRecivedPacket sampleLibs waitingForA (junk (text "pkreply") none)
          (samplePeer sampleKey) 1 = .ok k' ∧ k'.routing = waitingForA.routing := by
  have hnull : (processRecivedPacket sampleLibs waitingForA (junk (text "pkreply") none)
      (samplePeer sampleKey) 1).map Kernel.trace = .error .nullPointer := by
    decide +kernel
  refine ⟨reached_after _ _, hnull, by decide +kernel, by decide +kernel, ?_⟩
  rintro ⟨k', hk', -⟩
  rw [hk'] at hnull
  cases hnull

end Avim.Kernel
