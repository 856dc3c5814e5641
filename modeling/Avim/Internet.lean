import Avim.Asking
import Avim.Delivery
import Avim.Network
import Avim.Origins

/-!
# Internetworks

Any number of kernels whose interfaces read nothing but what kernels enqueued.
Which interface reads from which, how often, how late and in what order is left
open, and so are calls, interfaces and routes: what holds here holds of every
wiring. A packet is one that some kernel built, a few hops on (`travelled`), a
key on record is that of an interface with the address it is filed under
(`keys_genuine`), and if the interfaces are set up as they should be, every
message is what was given to a call, with the sender it came from
(`end_to_end`).
-/

namespace Avim

open Lib.Octets

structure Internet where
  kernels : Nat → Kernel
  -- the target and the data of each call
  calls : Nat → List (Bytes × Bytes)

inductive InternetEvent
  -- anything but the arrival of a packet
  | node (n : Nat) (event : Event)
  -- port `port` of `n` reads a packet that `m` enqueued, by its place in the record of `m`
  | carry (m index n port : Nat)

namespace Internet

open Kernel

def calledBy : Event → Option (Bytes × Bytes)
  | .asyncSendto target data _ => some (target, data)
  | _ => none

section

variable (lib : Libs)

/-- A kernel that goes down stays as it was. -/
def proceed (s : Internet) (n : Nat) (event : Event) : Internet where
  kernels := Function.update s.kernels n
    (Net.after (s.kernels n) ((s.kernels n).step lib event))
  calls := Function.update s.calls n (s.calls n ++ (calledBy event).toList)

/-- A connection delivers packets whole, as they were enqueued; it may be lost
between two of them, but not inside one. -/
def next (s : Internet) : InternetEvent → Internet
  | .node n event => if Session.bringsPacket event then s else proceed lib s n event
  | .carry m index n port =>
    match (s.kernels m).trace[index]? with
    | some (.enqueued _ _ packet) => proceed lib s n (.read port (some packet))
    | _ => s

def run (events : List InternetEvent) : Internet :=
  events.foldl (next lib) ⟨fun _ => .initial, fun _ => []⟩

end

-- ---------------------------------------------------------------------------
-- What is to be shown
-- ---------------------------------------------------------------------------

def Owns (k : Kernel) (avif : Avif) : Prop := ∃ p ∈ k.ports, p.avif = avif

section

variable (lib : Libs) (s : Internet)

/-- The key of an interface with this address, as its packets carry it or as
its certificate has it. -/
def Genuine (address : Bytes) (key : RSA) : Prop :=
  ∃ m avif, Owns (s.kernels m) avif ∧ address = avAddressToString avif.ifAddress ∧
    (key = ⟨avif.rsaKey.n, 65537⟩ ∨ certificateKey lib avif.cert = .ok key)

def sources (n : Nat) : Sources where
  owned := Owns (s.kernels n)
  called target data := (target, data) ∈ s.calls n
  learned := Genuine lib s

/-- `hops` kernels on from the one that built it. -/
structure TravelledFrom (m : Nat) (cause : Cause) (origin : AvPacket) (hops : Nat)
    (packet : AvPacket) : Prop where
  enqueued : ∃ link, .enqueued link cause origin ∈ (s.kernels m).trace
  original : Original lib (sources lib s m) cause origin
  packet : packet = { origin with timeToLive := origin.timeToLive - hops }
  hops : hops < 64

def Travelled (packet : AvPacket) : Prop :=
  ∃ m cause origin hops, TravelledFrom lib s m cause origin hops packet

/-- One identity for each kernel: its interfaces share a key, the certificate
is for it, and nobody else has the address. No call has more data than an `int`
can count when it is encrypted and signed. -/
structure Configured : Prop where
  parsed : ∀ n avif, Owns (s.kernels n) avif →
    64 ∉ avif.ifAddress.username ∧ 47 ∉ avif.ifAddress.domain
  keyPair : ∀ n avif, Owns (s.kernels n) avif → lib.ossl.KeyPair avif.rsaKey
  exponent : ∀ n avif, Owns (s.kernels n) avif → avif.rsaKey.e = 65537
  certified : ∀ n avif, Owns (s.kernels n) avif →
    certificateKey lib avif.cert = .ok avif.rsaKey.toRSA
  oneKey : ∀ n avif avif', Owns (s.kernels n) avif → Owns (s.kernels n) avif' →
    avif.rsaKey = avif'.rsaKey
  apart : ∀ m n avif avif', Owns (s.kernels m) avif → Owns (s.kernels n) avif' →
    avif.ifAddress.username = avif'.ifAddress.username →
    avif.ifAddress.domain = avif'.ifAddress.domain → avif.rsaKey = avif'.rsaKey
  fits : ∀ m n avif peer, Owns (s.kernels m) avif → Owns (s.kernels n) peer →
    ∀ call ∈ s.calls m,
      sealedLength avif.rsaKey.size (sealedLength peer.rsaKey.size call.2.length) < 2 ^ 31

def Delivered (n : Nat) (message : Bytes × Bytes) : Prop :=
  ∃ m avif target data me, Owns (s.kernels m) avif ∧ (target, data) ∈ s.calls m ∧
    message = (avAddressToString avif.ifAddress, data) ∧ Owns (s.kernels n) me ∧
    (avAddressFromString target).username = me.ifAddress.username ∧
    (avAddressFromString target).domain = me.ifAddress.domain

structure Connected : Prop where
  reached : ∀ n, Kernel.Reached lib (s.kernels n)
  drawn : ∀ n, Drawn lib (sources lib s n) (Travelled lib s) (s.kernels n)

end

variable {lib : Libs} {s s' : Internet}

-- ---------------------------------------------------------------------------
-- What was there stays
-- ---------------------------------------------------------------------------

structure Grows (s s' : Internet) : Prop where
  owned : ∀ n avif, Owns (s.kernels n) avif → Owns (s'.kernels n) avif
  calls : ∀ n, s.calls n ⊆ s'.calls n
  trace : ∀ n, (s.kernels n).trace ⊆ (s'.kernels n).trace

theorem Owns.step (h : Owns k avif) (hstep : Kernel.step lib k event = .ok k') :
    Owns k' avif := by
  obtain ⟨p, hmem, rfl⟩ := h
  obtain ⟨port, hp⟩ := List.getElem?_of_mem hmem
  obtain ⟨q, hq, hsame⟩ := step_port_avif hstep hp
  exact ⟨q, List.mem_of_getElem? hq, hsame⟩

theorem Grows.genuine (h : Grows s s') (hkey : Genuine lib s address key) :
    Genuine lib s' address key := by
  obtain ⟨m, avif, howned, haddress, hkey⟩ := hkey
  exact ⟨m, avif, h.owned m avif howned, haddress, hkey⟩

theorem Grows.sources (h : Grows s s') (n : Nat) :
    (sources lib s n).Le (Internet.sources lib s' n) where
  owned := h.owned n
  called _ _ hcall := h.calls n hcall
  learned _ _ hkey := h.genuine hkey

theorem Grows.onward (h : Grows s s') (htravelled : Travelled lib s packet) :
    Travelled lib s' packet := by
  obtain ⟨m, cause, origin, hops, ⟨link, henqueued⟩, horiginal, hpacket, hhops⟩ := htravelled
  exact ⟨m, cause, origin, hops, ⟨link, h.trace m henqueued⟩, horiginal.mono (h.sources m),
    hpacket, hhops⟩

theorem grows_proceed (lib : Libs) (s : Internet) (n : Nat) (event : Event) :
    Grows s (proceed lib s n event) := by
  cases hstep : (s.kernels n).step lib event with
  | error fault =>
    have hsame : (proceed lib s n event).kernels = s.kernels := by
      simp [proceed, hstep, Net.after]
    refine ⟨fun m avif howned => by rwa [hsame], ?_, fun m => by rw [hsame]; exact fun _ h => h⟩
    intro m
    by_cases hm : m = n
    · subst hm
      simp [proceed]
    · simp [proceed, hm]
  | ok k' =>
    refine ⟨?_, ?_, ?_⟩
    · intro m avif howned
      by_cases hm : m = n
      · subst hm
        simpa [proceed, hstep, Net.after] using howned.step hstep
      · simpa [proceed, hm] using howned
    · intro m
      by_cases hm : m = n
      · subst hm
        simp [proceed]
      · simp [proceed, hm]
    · intro m
      by_cases hm : m = n
      · subst hm
        simpa [proceed, hstep, Net.after] using (step_trace hstep).subset
      · simp [proceed, hm]

-- ---------------------------------------------------------------------------
-- Packets on their way
-- ---------------------------------------------------------------------------

theorem timeToLive_original (h : Original lib w cause origin) : origin.timeToLive = 64 := by
  cases h with
  | pkask send target _ => rfl
  | pkreply target _ => rfl
  | data send _ _ => rfl

theorem Travelled.hop (h : Travelled lib s packet) (httl : 1 < packet.timeToLive) :
    Travelled lib s { packet with timeToLive := packet.timeToLive - 1 } := by
  obtain ⟨m, cause, origin, hops, henqueued, horiginal, rfl, hhops⟩ := h
  have hfull := timeToLive_original horiginal
  have httl : 1 < origin.timeToLive - hops := httl
  refine ⟨m, cause, origin, hops + 1, henqueued, horiginal, ?_, by omega⟩
  have hcount : origin.timeToLive - hops - 1 = origin.timeToLive - ((hops + 1 : Nat) : Int) := by
    omega
  simp only [hcount]

theorem Connected.underWay (h : Connected lib s)
    (hmem : .enqueued link cause packet ∈ (s.kernels n).trace) : Travelled lib s packet := by
  have hsent : Sent lib (sources lib s n) (Travelled lib s) cause packet :=
    (h.drawn n).trace _ hmem
  cases hsent with
  | original horiginal =>
    exact ⟨n, cause, packet, 0, ⟨link, hmem⟩, horiginal, by simp, by omega⟩
  | hop hheard httl => exact hheard.hop httl

/-- The key that a packet carries is the key of its source, and so is that of
the certificate in an answer. -/
theorem closed_sources (lib : Libs) (s : Internet) (n : Nat) :
    (sources lib s n).Closed lib (Travelled lib s) := by
  intro packet address key hheard hteaches
  obtain ⟨m, cause, origin, hops, -, horiginal, rfl, -⟩ := hheard
  have hasks : text "pkask" ≠ text "pkreply" := by decide
  have hmessage : text "avim" ≠ text "pkreply" := by decide
  cases horiginal with
  | @pkask avif send target howned =>
    cases hteaches with
    | carried hcarried => cases hcarried
    | certified hreply _ => exact absurd hreply hasks
  | @pkreply avif target howned =>
    cases hteaches with
    | carried hcarried => cases hcarried
    | certified _ hrsa => exact ⟨m, avif, howned, rfl, .inr hrsa⟩
  | @data avif target second send howned _ =>
    cases hteaches with
    | carried _ =>
      refine ⟨m, avif, howned, rfl, .inl ?_⟩
      simp [carriedKey, dataPacket]
    | certified hreply _ => exact absurd hreply hmessage

-- ---------------------------------------------------------------------------
-- Runs
-- ---------------------------------------------------------------------------

theorem connected_initial : Connected lib ⟨fun _ => .initial, fun _ => []⟩ :=
  ⟨fun _ => .start, fun _ => drawn_initial⟩

theorem admits_proceed (hstep : (s.kernels n).step lib event = .ok k')
    (hpacket : ∀ port packet, event = .read port (some packet) → Travelled lib s packet) :
    Admits (sources lib (proceed lib s n event) n) (Travelled lib (proceed lib s n event))
      (s.kernels n) event := by
  have hgrows := grows_proceed lib s n event
  refine ⟨?_, ?_, ?_⟩
  · rintro avif rfl
    cases hstep
    refine ⟨⟨avif, .spawned, .spawned⟩, ?_, rfl⟩
    simp [proceed, Kernel.step, Net.after, addInterface]
  · rintro target data now rfl
    simp [sources, proceed, calledBy]
  · intro came hbrought
    cases event with
    | read port packet =>
      cases packet with
      | none => cases hbrought
      | some packet =>
        simp only [brought] at hbrought
        split at hbrought
        · rename_i p hp
          split at hbrought
          · obtain rfl := Option.some.inj hbrought
            exact ⟨hgrows.onward (hpacket port packet rfl),
              hgrows.owned n p.avif ⟨p, List.mem_of_getElem? hp, rfl⟩⟩
          · cases hbrought
        · cases hbrought
    | _ => cases hbrought

theorem Connected.proceed (h : Connected lib s) (n : Nat)
    (hpacket : ∀ port packet, event = .read port (some packet) → Travelled lib s packet) :
    Connected lib (proceed lib s n event) := by
  have hgrows := grows_proceed lib s n event
  have hmono : ∀ m, Drawn lib (sources lib (Internet.proceed lib s n event) m)
      (Travelled lib (Internet.proceed lib s n event)) (s.kernels m) := fun m =>
    (h.drawn m).mono (hgrows.sources m) fun _ => hgrows.onward
  cases hstep : (s.kernels n).step lib event with
  | error fault =>
    have hsame : (Internet.proceed lib s n event).kernels = s.kernels := by
      simp [Internet.proceed, hstep, Net.after]
    exact ⟨fun m => by rw [hsame]; exact h.reached m, fun m => by rw [hsame]; exact hmono m⟩
  | ok k' =>
    have hat : (Internet.proceed lib s n event).kernels n = k' := by
      simp [Internet.proceed, hstep, Net.after]
    have hother : ∀ m, m ≠ n → (Internet.proceed lib s n event).kernels m = s.kernels m := by
      intro m hm
      simp [Internet.proceed, hm]
    constructor
    · intro m
      by_cases hm : m = n
      · rw [hm, hat]
        exact .step (h.reached n) hstep
      · rw [hother m hm]
        exact h.reached m
    · intro m
      by_cases hm : m = n
      · rw [hm, hat]
        exact (hmono n).step (closed_sources lib _ n) (admits_proceed hstep hpacket) hstep
      · rw [hother m hm]
        exact hmono m

theorem Connected.next (h : Connected lib s) (event : InternetEvent) :
    Connected lib (next lib s event) := by
  cases event with
  | node n event =>
    simp only [Internet.next]
    split
    · exact h
    · rename_i hbrings
      refine h.proceed n ?_
      rintro port packet rfl
      exact absurd rfl hbrings
  | carry m index n port =>
    simp only [Internet.next]
    split
    · rename_i link cause packet hat
      refine h.proceed n ?_
      rintro port' packet' heq
      cases heq
      exact h.underWay (List.mem_of_getElem? hat)
    · exact h

def place : InternetEvent → Nat
  | .node n _ => n
  | .carry _ _ n _ => n

theorem next_elsewhere (lib : Libs) (s : Internet) (h : place event ≠ n) :
    (next lib s event).kernels n = s.kernels n ∧ (next lib s event).calls n = s.calls n := by
  cases event with
  | node m event =>
    have hne : n ≠ m := fun heq => h heq.symm
    simp only [next]
    split
    · exact ⟨rfl, rfl⟩
    · simp [proceed, hne]
  | carry m index m' port =>
    have hne : n ≠ m' := fun heq => h heq.symm
    simp only [next]
    split
    · simp [proceed, hne]
    · exact ⟨rfl, rfl⟩

theorem run_elsewhere (lib : Libs) {events : List InternetEvent}
    (h : ∀ event ∈ events, place event ≠ n) :
    (run lib events).kernels n = .initial ∧ (run lib events).calls n = [] := by
  suffices hsame : ∀ s, (events.foldl (next lib) s).kernels n = s.kernels n ∧
      (events.foldl (next lib) s).calls n = s.calls n from hsame _
  induction events with
  | nil => exact fun s => ⟨rfl, rfl⟩
  | cons event events ih =>
    intro s
    obtain ⟨hkernels, hcalls⟩ := next_elsewhere lib s (h event List.mem_cons_self)
    obtain ⟨hkernels', hcalls'⟩ := ih (fun e he => h e (List.mem_cons_of_mem event he))
      (next lib s event)
    exact ⟨hkernels'.trans hkernels, hcalls'.trans hcalls⟩

theorem connected_run (lib : Libs) (events : List InternetEvent) :
    Connected lib (run lib events) := by
  suffices h : ∀ s, Connected lib s → Connected lib (events.foldl (Internet.next lib) s) from
    h _ connected_initial
  induction events with
  | nil => exact fun s hs => hs
  | cons event events ih => exact fun s hs => ih _ (hs.next event)

/-- In any internetwork and any order of events, what is in a write queue is a
packet that some kernel built for a call, for an answer or to ask for a key,
and all that happened to it is that fewer than 64 kernels passed it on. -/
theorem travelled (lib : Libs) (events : List InternetEvent) (n link : Nat) (cause : Cause)
    (packet : AvPacket) (h : .enqueued link cause packet ∈ ((run lib events).kernels n).trace) :
    Travelled lib (run lib events) packet :=
  (connected_run lib events).underWay h

/-- A key on record belongs to an interface with the address it is filed under. -/
theorem keys_genuine (lib : Libs) (events : List InternetEvent) (n : Nat) (address : Bytes) :
    ∀ key ∈ KeyStore.keysOf ((run lib events).kernels n).trustedPubkey address,
      Genuine lib (run lib events) address key.rsa :=
  ((connected_run lib events).drawn n).keys address

-- ---------------------------------------------------------------------------
-- From application to application
-- ---------------------------------------------------------------------------

theorem Configured.genuine (h : Configured lib s) (hkey : Genuine lib s address key) :
    ∃ m peer, Owns (s.kernels m) peer ∧ avAddressFromString address = peer.ifAddress ∧
      key = peer.rsaKey.toRSA := by
  obtain ⟨m, peer, howned, rfl, hkey⟩ := hkey
  obtain ⟨huser, hdomain⟩ := h.parsed m peer howned
  refine ⟨m, peer, howned, avAddressFromString_toString huser hdomain, ?_⟩
  rcases hkey with rfl | hcertified
  · rw [← h.exponent m peer howned]
  · exact Except.ok.inj (hcertified.symm.trans (h.certified m peer howned))

theorem opens_other (h : packet.upperlayerpotocol ≠ text "avim") (came : Avif) :
    opens lib (packet, came) = none := if_neg h

theorem opens_dataPacket (he : avif.rsaKey.e = 65537) (target secondSign : Bytes) (ttl : Int)
    (came : Avif) :
    opens lib ({ dataPacket avif target secondSign with timeToLive := ttl }, came) =
      (decryptPayload lib avif.rsaKey.toRSA came.rsaKey (some secondSign)).toOption.map
        (avAddressToString avif.ifAddress, ·) := by
  rw [← carriedKey_dataPacket he target secondSign ttl]
  exact if_pos rfl

theorem Configured.decrypts (h : Configured lib s) (howned : Owns (s.kernels m) avif)
    (hseals : Seals lib (sources lib s m) avif target secondSign)
    (hcame : Owns (s.kernels n) came) (hme : Owns (s.kernels n) me)
    (huser : (avAddressFromString target).username = me.ifAddress.username)
    (hdomain : (avAddressFromString target).domain = me.ifAddress.domain) :
    ∃ data, (target, data) ∈ s.calls m ∧
      decryptPayload lib avif.rsaKey.toRSA came.rsaKey (some secondSign) = .ok data := by
  obtain ⟨data, draw, key, first, hcall, hlearned, hfirst, hsecond⟩ := hseals
  obtain ⟨m', peer, hpeer, hdest, rfl⟩ := h.genuine hlearned
  refine ⟨data, hcall, ?_⟩
  -- it came in under the key of the interface it is for
  have hfor : me.rsaKey = peer.rsaKey :=
    h.apart n m' me peer hme hpeer (huser.symm.trans (congrArg AvAddress.username hdest))
      (hdomain.symm.trans (congrArg AvAddress.domain hdest))
  have hkey : came.rsaKey = peer.rsaKey := (h.oneKey n came me hcame hme).trans hfor
  obtain ⟨first', second', hfirst', hsecond', hdecrypt⟩ :=
    decryptPayload_sealed (h.keyPair m avif howned) (h.keyPair m' peer hpeer)
      (h.fits m m' avif peer howned hpeer (target, data) hcall) draw
  cases hfirst.symm.trans hfirst'
  cases hsecond.symm.trans hsecond'
  rw [hkey, hdecrypt]

theorem Configured.opened (h : Configured lib s)
    (hopened : Opened lib (sources lib s n) (Travelled lib s) message) :
    Delivered s n message := by
  obtain ⟨packet, came, me, ⟨m, cause, origin, hops, -, horiginal, rfl, -⟩, hcame, hme, huser,
    hdomain, hopens⟩ := hopened
  cases horiginal with
  | pkask send target _ =>
    have hasks : text "pkask" ≠ text "avim" := by decide
    rw [opens_other hasks] at hopens
    cases hopens
  | pkreply target _ =>
    have hreplies : text "pkreply" ≠ text "avim" := by decide
    rw [opens_other hreplies] at hopens
    cases hopens
  | @data avif target second send howned hseals =>
    obtain ⟨data, hcall, hdecrypt⟩ := h.decrypts howned hseals hcame hme huser hdomain
    refine ⟨m, avif, target, data, me, howned, hcall, ?_, hme, huser, hdomain⟩
    rw [opens_dataPacket (h.exponent m avif howned), hdecrypt] at hopens
    exact (Option.some.inj hopens).symm

/-- Where every kernel is set up as it should be, an application is told
nothing but the data of calls that were made to it, under the address of an
interface of the kernel where the call was made. -/
theorem end_to_end (lib : Libs) (events : List InternetEvent)
    (hconfigured : Configured lib (run lib events)) (n : Nat) :
    ∀ answer ∈ ((run lib events).kernels n).trace.filterMap answerOf,
      Delivered (run lib events) n answer.message := by
  intro answer hanswer
  have hconnected := connected_run lib events
  have hledger := (hconnected.reached n).inbox.messages
  have hmessage : answer.message ∈ ((run lib events).kernels n).messages := by
    have hmem : answer.message ∈ (inbox ((run lib events).kernels n)).messages := by
      rw [← hledger]
      exact List.mem_append_left _ (List.mem_map_of_mem (List.mem_append_left _ hanswer))
    exact hmem
  obtain ⟨effect, heffect, hof⟩ := List.mem_filterMap.mp hmessage
  have hsourced := (hconnected.drawn n).trace effect heffect
  cases effect with
  | pushed sender payload =>
    have hof : (sender, payload) = answer.message := Option.some.inj hof
    rw [← hof]
    exact hconfigured.opened hsourced
  | _ => cases hof

def exchangeLibs : Libs :=
  certLibs [(text "a@x", sampleKey.toRSA), (text "b@x", peerKey.toRSA)]

/-- A call that asks for the key first. -/
def exchangeRun : List InternetEvent :=
  [.node 0 (.addInterface askingIf), .node 0 (.addRoute (text "b@x") [] (text "eth0") 100),
    .node 0 (.startRunner 0), .node 1 (.addInterface (answeringIf (text "b@x"))),
    .node 1 (.startRunner 0), .node 0 (.asyncSendto (text "b@x") (text "hi") 0),
    .carry 0 0 1 0, .node 1 (.process 0 1), .carry 1 0 0 0, .node 0 (.process 0 2),
    .carry 0 1 1 0, .node 1 (.process 0 3), .node 1 .asyncRecvfrom, .node 1 .runPosted]

/-- The question on its way through a kernel that it is not for. -/
def relayRun : List InternetEvent :=
  [.node 0 (.addInterface askingIf), .node 0 (.addRoute (text "b@x") [] (text "eth0") 100),
    .node 0 (.asyncSendto (text "b@x") (text "hi") 0),
    .node 1 (.addInterface (answeringIf (text "r@x"))),
    .node 1 (.addRoute (text ".+@.+") [] (text "eth0") 100), .node 1 (.startRunner 0),
    .carry 0 0 1 0, .node 1 (.process 0 1)]

theorem travelled_sample :
    Travelled exchangeLibs (run exchangeLibs relayRun)
      { pkask askingIf.ifAddress (text "b@x") with timeToLive := 63 } :=
  travelled exchangeLibs relayRun 1 2 .forwarded _ (by decide +kernel)

theorem keys_genuine_sample :
    Genuine exchangeLibs (run exchangeLibs exchangeRun) (text "b@x") peerKey.toRSA :=
  keys_genuine exchangeLibs exchangeRun 0 (text "b@x") ⟨peerKey.toRSA, 1800000000002⟩
    (by decide +kernel)

theorem owns_exchangeRun (h : Owns ((run exchangeLibs exchangeRun).kernels n) avif) :
    (n = 0 ∧ avif = askingIf) ∨ (n = 1 ∧ avif = answeringIf (text "b@x")) := by
  have hports : ∀ ports : List Port, (∃ p ∈ ports, p.avif = avif) →
      avif ∈ ports.map (·.avif) := by
    rintro ports ⟨p, hmem, rfl⟩
    exact List.mem_map_of_mem hmem
  have hmem := hports _ h
  obtain rfl | rfl | hn : n = 0 ∨ n = 1 ∨ 2 ≤ n := by omega
  · have hasking : ((run exchangeLibs exchangeRun).kernels 0).ports.map (·.avif) =
        [askingIf] := by
      decide +kernel
    rw [hasking] at hmem
    exact .inl ⟨rfl, List.mem_singleton.mp hmem⟩
  · have hanswering : ((run exchangeLibs exchangeRun).kernels 1).ports.map (·.avif) =
        [answeringIf (text "b@x")] := by
      decide +kernel
    rw [hanswering] at hmem
    exact .inr ⟨rfl, List.mem_singleton.mp hmem⟩
  · have hnobody : ∀ event ∈ exchangeRun, place event ≠ n := by
      simp [exchangeRun, place]
      omega
    rw [(run_elsewhere _ hnobody).1] at hmem
    cases hmem

theorem calls_exchangeRun (h : call ∈ (run exchangeLibs exchangeRun).calls n) :
    call = (text "b@x", text "hi") := by
  obtain rfl | rfl | hn : n = 0 ∨ n = 1 ∨ 2 ≤ n := by omega
  · have hone : (run exchangeLibs exchangeRun).calls 0 = [(text "b@x", text "hi")] := by
      decide +kernel
    rw [hone] at h
    exact List.mem_singleton.mp h
  · have hnone : (run exchangeLibs exchangeRun).calls 1 = [] := by
      decide +kernel
    rw [hnone] at h
    cases h
  · have hnobody : ∀ event ∈ exchangeRun, place event ≠ n := by
      simp [exchangeRun, place]
      omega
    rw [(run_elsewhere _ hnobody).2] at h
    cases h

theorem exchangeLibs_keyPair (h : openSSL.KeyPair key) : exchangeLibs.ossl.KeyPair key :=
  ⟨h.large, h.private_undoes_public, h.public_undoes_private⟩

theorem configured_exchangeRun : Configured exchangeLibs (run exchangeLibs exchangeRun) := by
  refine ⟨?_, ?_, ?_, ?_, ?_, ?_, ?_⟩
  · intro n avif h
    obtain ⟨-, rfl⟩ | ⟨-, rfl⟩ := owns_exchangeRun h
    · decide
    · decide
  · intro n avif h
    obtain ⟨-, rfl⟩ | ⟨-, rfl⟩ := owns_exchangeRun h
    · exact exchangeLibs_keyPair sampleKey_keyPair
    · exact exchangeLibs_keyPair peerKey_keyPair
  · intro n avif h
    obtain ⟨-, rfl⟩ | ⟨-, rfl⟩ := owns_exchangeRun h
    · rfl
    · rfl
  · intro n avif h
    obtain ⟨-, rfl⟩ | ⟨-, rfl⟩ := owns_exchangeRun h
    · decide +kernel
    · decide +kernel
  · intro n avif avif' h h'
    obtain ⟨hn, rfl⟩ | ⟨hn, rfl⟩ := owns_exchangeRun h
    · obtain ⟨-, rfl⟩ | ⟨hn', -⟩ := owns_exchangeRun h'
      · rfl
      · omega
    · obtain ⟨hn', -⟩ | ⟨-, rfl⟩ := owns_exchangeRun h'
      · omega
      · rfl
  · intro m n avif avif' h h' huser _
    obtain ⟨-, rfl⟩ | ⟨-, rfl⟩ := owns_exchangeRun h
    · obtain ⟨-, rfl⟩ | ⟨-, rfl⟩ := owns_exchangeRun h'
      · rfl
      · exact absurd huser (by decide)
    · obtain ⟨-, rfl⟩ | ⟨-, rfl⟩ := owns_exchangeRun h'
      · exact absurd huser (by decide)
      · rfl
  · intro m n avif peer h h' call hcall
    rw [calls_exchangeRun hcall]
    obtain ⟨-, rfl⟩ | ⟨-, rfl⟩ := owns_exchangeRun h
    · obtain ⟨-, rfl⟩ | ⟨-, rfl⟩ := owns_exchangeRun h'
      · decide +kernel
      · decide +kernel
    · obtain ⟨-, rfl⟩ | ⟨-, rfl⟩ := owns_exchangeRun h'
      · decide +kernel
      · decide +kernel

theorem end_to_end_sample :
    ((run exchangeLibs exchangeRun).kernels 1).trace.filterMap answerOf =
        [⟨0, .success, text "a@x", text "hi"⟩] ∧
      ∀ answer ∈ ((run exchangeLibs exchangeRun).kernels 1).trace.filterMap answerOf,
        Delivered (run exchangeLibs exchangeRun) 1 answer.message :=
  ⟨by decide +kernel,
    end_to_end exchangeLibs exchangeRun configured_exchangeRun 1⟩

end Internet

end Avim
