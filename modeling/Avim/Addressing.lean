import Avim.Calls

/-!
# The text an address goes by

Routes are chosen and keys are filed by text. A call is routed by the text it
was given, a packet on its way by its destination as it prints, and these are
the same text if there is an `@` in it: `routed_alike_iff`. A key is filed under
its source as it prints, which keeps apart the addresses that print differently
and no others: `records_independent_iff`.
-/

namespace Avim

open Lib.Octets

-- ---------------------------------------------------------------------------
-- The route that decides
-- ---------------------------------------------------------------------------

/-- The routes lead the text to an interface: the first pattern it matches decides. -/
inductive Leads (regex : Regex) (address : Bytes) : List RouteItem → Bytes → Prop
  | here (routes : List RouteItem) : regex.fullMatch route.pattern address = true →
    Leads regex address (route :: routes) route.ifname
  | later : regex.fullMatch route.pattern address = false →
    Leads regex address routes name → Leads regex address (route :: routes) name

theorem leads_iff : Leads regex address routes name ↔
    (routes.find? (regex.fullMatch ·.pattern address)).map (·.ifname) = some name := by
  induction routes with
  | nil => exact ⟨nofun, nofun⟩
  | cons route routes ih =>
    cases hmatch : regex.fullMatch route.pattern address with
    | true =>
      simp only [List.find?_cons, hmatch, Option.map_some, Option.some.injEq]
      constructor
      · rintro (_ | ⟨hnot, -⟩)
        · rfl
        · rw [hmatch] at hnot
          cases hnot
      · rintro rfl
        exact .here routes hmatch
    | false =>
      simp only [List.find?_cons, hmatch]
      rw [← ih]
      constructor
      · rintro (⟨_, hthis⟩ | ⟨-, hlater⟩)
        · rw [hmatch] at hthis
          cases hthis
        · exact hlater
      · exact .later hmatch

theorem Routing.WellFormed.leads {r : Routing} (h : r.WellFormed) (regex : Regex)
    (address : Bytes) : ∃ found, r.selectRoute regex address = .ok found ∧
      (∀ name, found.map (·.name) = some name ↔ Leads regex address r.routes name) ∧
      ∀ p, found = some p → r.avifs[p.name]? = some p.avif ∧
        r.generation p.name = p.generation := by
  simp only [leads_iff]
  cases hfind : r.routes.find? (regex.fullMatch ·.pattern address) with
  | none => exact ⟨none, by simp [Routing.selectRoute, hfind], fun _ => Iff.rfl, nofun⟩
  | some route =>
    obtain ⟨avif, hat⟩ : ∃ avif, r.avifs[route.ifname]? = some avif :=
      Option.isSome_iff_exists.mp (by
        simpa using h.registered route (List.mem_of_find?_eq_some hfind))
    refine ⟨some ⟨route.ifname, r.generation route.ifname, avif⟩,
      by simp [Routing.selectRoute, hfind, hat], fun _ => Iff.rfl, ?_⟩
    rintro _ ⟨rfl⟩
    exact ⟨hat, rfl⟩

theorem Routing.WellFormed.selectRoute_eq_iff {r : Routing} (h : r.WellFormed)
    (regex : Regex) (s t : Bytes) : r.selectRoute regex s = r.selectRoute regex t ↔
      ∀ name, Leads regex s r.routes name ↔ Leads regex t r.routes name := by
  obtain ⟨found, hs, hfound, hat⟩ := h.leads regex s
  obtain ⟨found', ht, hfound', hat'⟩ := h.leads regex t
  rw [hs, ht]
  constructor
  · rintro ⟨rfl⟩ name
    rw [← hfound, ← hfound']
  · intro hsame
    have hnames : found.map (·.name) = found'.map (·.name) :=
      Option.ext fun name => (hfound name).trans ((hsame name).trans (hfound' name).symm)
    congr 1
    cases found with
    | none => exact (Option.map_eq_none_iff.mp hnames.symm).symm
    | some p =>
      obtain ⟨q, rfl, hname⟩ := Option.map_eq_some_iff.mp hnames.symm
      have hname : q.name = p.name := hname
      obtain ⟨havif, hgeneration⟩ := hat p rfl
      obtain ⟨havif', hgeneration'⟩ := hat' q rfl
      rw [← hname, havif'] at havif
      rw [← hname, hgeneration'] at hgeneration
      obtain ⟨name, generation, avif⟩ := p
      cases hname
      cases havif
      cases hgeneration
      rfl

-- ---------------------------------------------------------------------------
-- Addresses that print alike
-- ---------------------------------------------------------------------------

/-- What `av_address_from_string` makes. -/
def Parsed (addr : AvAddress) : Prop := 64 ∉ addr.username ∧ 47 ∉ addr.domain

/-- No other address prints as this one does: `spelled_once_iff`. -/
def SpelledOnce (addr : AvAddress) : Prop :=
  64 ∉ addr.username ∧ 64 ∉ addr.domain ∧ 47 ∉ addr.domain ∧ addr.resource = none

theorem Parsed.injective (ha : Parsed a) (hb : Parsed b)
    (h : avAddressToString a = avAddressToString b) : a = b := by
  rw [← avAddressFromString_toString ha.1 ha.2, h, avAddressFromString_toString hb.1 hb.2]

theorem at_mem_avAddressToString (addr : AvAddress) : 64 ∈ avAddressToString addr := by
  obtain ⟨u, d, _ | r⟩ := addr
  · simp [avAddressToString_none]
  · simp [avAddressToString_some]

theorem cut_at_unique {u d u' rest : Bytes} (hu : 64 ∉ u) (hd : 64 ∉ d)
    (h : u' ++ 64 :: rest = u ++ 64 :: d) : u' = u ∧ rest = d := by
  have hcount := congrArg (List.count (64 : UInt8)) h
  simp only [List.count_append, List.count_cons_self, List.count_eq_zero.mpr hu,
    List.count_eq_zero.mpr hd] at hcount
  have hu' : 64 ∉ u' := List.count_eq_zero.mp (by omega)
  have husers := congrArg (List.takeWhile (· != 64)) h
  rw [takeWhile_until hu', takeWhile_until hu] at husers
  exact ⟨husers, by simpa [husers] using h⟩

theorem spelled_once_iff (a : AvAddress) :
    (∀ b, avAddressToString b = avAddressToString a → b = a) ↔ SpelledOnce a := by
  constructor
  · intro hall
    have hparsed : avAddressFromString (avAddressToString a) = a := by
      refine hall _ ?_
      rw [avAddressToString_fromString, if_pos (at_mem_avAddressToString a)]
    have huser : 64 ∉ a.username := hparsed ▸ username_avAddressFromString _
    have hdomain : 47 ∉ a.domain := hparsed ▸ domain_avAddressFromString _
    obtain ⟨u, d, resource⟩ := a
    cases resource with
    | some r =>
      -- the resource could be the rest of the domain
      have hmoved := hall ⟨u, d ++ 47 :: r, none⟩ (by
        rw [avAddressToString_none, avAddressToString_some])
      cases congrArg AvAddress.resource hmoved
    | none =>
      refine ⟨huser, fun hat => ?_, hdomain, rfl⟩
      -- the domain could begin behind its `@`
      obtain ⟨d, d', rfl, -⟩ := List.eq_append_cons_of_mem hat
      have hmoved := hall ⟨u ++ 64 :: d, d', none⟩ (by
        simp [avAddressToString_none])
      have hlength := congrArg (fun addr => addr.username.length) hmoved
      simp at hlength
  · rintro ⟨hu, hd, hslash, hresource⟩ b hb
    obtain ⟨u, d, resource⟩ := a
    obtain ⟨u', d', resource'⟩ := b
    cases hresource
    rw [avAddressToString_none] at hb
    cases resource' with
    | none =>
      rw [avAddressToString_none] at hb
      obtain ⟨rfl, rfl⟩ := cut_at_unique hu hd hb
      rfl
    | some r =>
      rw [avAddressToString_some] at hb
      obtain ⟨-, hrest⟩ := cut_at_unique hu hd hb
      rw [← hrest] at hslash
      simp at hslash

namespace Kernel

-- ---------------------------------------------------------------------------
-- Sending and forwarding
-- ---------------------------------------------------------------------------

/-- The interface `async_sendto_op` selects. -/
def sendRoute (lib : Libs) (k : Kernel) (target : Bytes) : Except Fault (Option AvifPtr) :=
  k.routing.selectRoute lib.regex target

/-- The interface `process_recived_packet` selects for a packet on its way. -/
def transitRoute (lib : Libs) (k : Kernel) (packet : AvPacket) : Except Fault (Option AvifPtr) :=
  k.routing.selectRoute lib.regex (avAddressToString packet.dest)

theorem asyncSendto_routed (lib : Libs) (k : Kernel) (target data : Bytes) (now : Int) :
    asyncSendto lib k target data now = sendRoute lib k target >>= fun found =>
      match found with
      | none => .ok ({ k with sends := k.sends + 1 }.record
          (.completed k.sends .networkUnreachable))
      | some interface =>
        sendOrAsk lib { k with sends := k.sends + 1 } ⟨k.sends, target, data, interface, 0⟩ now :=
  rfl

theorem forward_routed (lib : Libs) (k : Kernel) (packet : AvPacket)
    (httl : 1 < packet.timeToLive) :
    forward lib k packet = transitRoute lib k packet >>= fun found =>
      match found with
      | none => .ok k
      | some interface =>
        .ok ({ k with ifCounter := (getIfname interface.avif.ifname k.ifCounter).2
          }.asyncInterfaceWritePacket interface.avif .forwarded
          { packet with timeToLive := packet.timeToLive - 1 }) := by
  rw [forward, if_neg (by omega)]
  rfl

/-- A call for the target goes out where the packet it sends would be forwarded,
and one for the target's full spelling goes out if it does. -/
structure RoutedAlike (lib : Libs) (k : Kernel) (target : Bytes) : Prop where
  forwarded : ∀ avif secondSign,
    sendRoute lib k target = transitRoute lib k (dataPacket avif target secondSign)
  reachable : sendRoute lib k target = .ok none ↔
    sendRoute lib k (avAddressToString (avAddressFromString target)) = .ok none

theorem routedAlike_iff : RoutedAlike lib k target ↔
    k.routing.selectRoute lib.regex target =
      k.routing.selectRoute lib.regex (avAddressToString (avAddressFromString target)) := by
  constructor
  · intro h
    exact h.forwarded (samplePeer sampleKey) []
  · intro h
    exact ⟨fun _ _ => h, by rw [sendRoute, sendRoute, h]⟩

theorem routedAlike_of_at (lib : Libs) (k : Kernel) (hat : 64 ∈ target) :
    RoutedAlike lib k target := by
  rw [routedAlike_iff, avAddressToString_fromString, if_pos hat]

theorem plain_table (lib : Libs) (hvalid : lib.regex.valid (text "[^@]*") = true) :
    ∃ k, Reached lib k ∧ k.routing.routes = [⟨text "[^@]*", [], text "eth0", 100⟩] := by
  refine ⟨after lib [.addInterface (samplePeer sampleKey),
    .addRoute (text "[^@]*") [] (text "eth0") 100], reached_after _ _, ?_⟩
  have hsorted : lib.std.sort RouteItem.metric [⟨text "[^@]*", [], text "eth0", 100⟩] =
      [⟨text "[^@]*", [], text "eth0", 100⟩] :=
    List.perm_singleton.mp (lib.std.perm RouteItem.metric _)
  simp [after, step, Kernel.addInterface, Routing.addInterface, Routing.addRoute, initial,
    Routing.empty, samplePeer, getIfname, hvalid, hsorted, Except.toOption]

/-- The target has to contain an `@`. Without one, it is the table that decides:
its first route for the target and its first route for the target's full
spelling have to be for one interface. -/
theorem routed_alike_iff (lib : Libs) (hvalid : lib.regex.valid (text "[^@]*") = true)
    (hmatch : ∀ s, lib.regex.fullMatch (text "[^@]*") s = !s.contains 64) :
    (∀ target, (∀ k, Reached lib k → RoutedAlike lib k target) ↔ 64 ∈ target) ∧
    ∀ k, Reached lib k → ∀ target, RoutedAlike lib k target ↔ 64 ∈ target ∨
      ∀ name, Leads lib.regex target k.routing.routes name ↔
        Leads lib.regex (target ++ text "@avplayer.org") k.routing.routes name := by
  have htable : ∀ k, Reached lib k → ∀ target, RoutedAlike lib k target ↔ 64 ∈ target ∨
      ∀ name, Leads lib.regex target k.routing.routes name ↔
        Leads lib.regex (target ++ text "@avplayer.org") k.routing.routes name := by
    intro k hk target
    by_cases hat : 64 ∈ target
    · exact iff_of_true (routedAlike_of_at lib k hat) (.inl hat)
    · rw [routedAlike_iff, avAddressToString_fromString, if_neg hat,
        hk.standing.wellFormed.selectRoute_eq_iff]
      exact (or_iff_right hat).symm
  refine ⟨fun target => ⟨fun hall => ?_, fun hat k _ => routedAlike_of_at lib k hat⟩, htable⟩
  obtain ⟨k, hk, hroutes⟩ := plain_table lib hvalid
  by_contra hat
  -- the target goes by the one route there is, its spelling by none
  have hsame := ((htable k hk target).mp (hall k hk)).resolve_left hat (text "eth0")
  rw [hroutes] at hsame
  have hplain : lib.regex.fullMatch (text "[^@]*") target = true := by simp [hmatch, hat]
  have hspelled : lib.regex.fullMatch (text "[^@]*") (target ++ text "@avplayer.org") = false := by
    rw [hmatch]
    simp [text]
  cases hsame.mp (.here [] hplain) with
  | here _ hthis =>
    rw [hspelled] at hthis
    cases hthis
  | later _ hrest => cases hrest

def plainRegex : Regex where
  valid _ := true
  fullMatch pattern address :=
    if pattern = text "[^@]*" then !address.contains 64 else sampleRegex.fullMatch pattern address

theorem routed_alike_iff_plain :
    (∀ k, Reached { sampleLibs with regex := plainRegex } k →
      RoutedAlike { sampleLibs with regex := plainRegex } k (text "b@x")) ∧
    ¬ ∀ k, Reached { sampleLibs with regex := plainRegex } k →
      RoutedAlike { sampleLibs with regex := plainRegex } k (text "b") := by
  have hiff := (routed_alike_iff { sampleLibs with regex := plainRegex } rfl fun _ => rfl).1
  exact ⟨(hiff _).mpr (by decide), fun hall => absurd ((hiff _).mp hall) (by decide)⟩

/-- With the demo's route, a packet for `b` is forwarded and a call to `b` fails. -/
theorem routed_apart : Reached sampleLibs routedToAll ∧
    ¬ RoutedAlike sampleLibs routedToAll (text "b") := by
  refine ⟨reached_after _ _, fun h => ?_⟩
  have hsend : sendRoute sampleLibs routedToAll (text "b") = .ok none := by decide +kernel
  have hfull : sendRoute sampleLibs routedToAll
      (avAddressToString (avAddressFromString (text "b"))) ≠ .ok none := by decide +kernel
  exact hfull (h.reachable.mp hsend)

-- ---------------------------------------------------------------------------
-- Key records
-- ---------------------------------------------------------------------------

def Independent (lib : Libs) (a b : AvAddress) : Prop :=
  ∀ k, Reached lib k → ∀ index packet avif, k.spawned[index]? = some (packet, avif) →
    packet.src = b → ∀ now k', step lib k (.process index now) = .ok k' →
    k'.trustedPubkey.findRSAPubkey (avAddressToString a) =
      k.trustedPubkey.findRSAPubkey (avAddressToString a)

theorem independent_of_ne (lib : Libs) (hne : avAddressToString a ≠ avAddressToString b) :
    Independent lib a b := by
  rintro k - index packet avif hpacket rfl now k' hstep
  have hprocess : processRecivedPacket lib { k with spawned := k.spawned.eraseIdx index }
      packet avif now = .ok k' := by
    simpa [step, hpacket] using hstep
  obtain ⟨handled, hhandled, hswept⟩ := processRecivedPacket_handled hprocess
  rw [(sweep_same hswept).2.1, hhandled.find_of_ne hne]

def strangersPacket (src : AvAddress) : AvPacket where
  src := src
  dest := ⟨[], [], none⟩
  upperlayerpotocol := []
  timeToLive := 1
  payload := none
  publickey := some []

theorem strangers_packet_read (lib : Libs) (src : AvAddress) :
    ∃ k avif, Reached lib k ∧ k.spawned = [(strangersPacket src, avif)] ∧ k.trustedPubkey = ∅ ∧
      k.waiters = [] ∧ k.isToMe ⟨[], [], none⟩ = false := by
  have hother : (Routing.empty.addInterface 0 (samplePeer sampleKey)).1.avifs.toList.any
      (fun i => [] == i.2.ifAddress.username && [] == i.2.ifAddress.domain) = false := by
    decide +kernel
  exact ⟨after lib [.addInterface (samplePeer sampleKey), .startRunner 0,
    .read 0 (some (strangersPacket src))], samplePeer sampleKey, reached_after _ _, rfl, rfl, rfl,
    hother⟩

theorem processRecivedPacket_stranger (hstore : k.trustedPubkey = ∅) (hwaiters : k.waiters = [])
    (hother : k.isToMe ⟨[], [], none⟩ = false) (src : AvAddress) (avif : Avif) (now : Int) :
    processRecivedPacket lib k (strangersPacket src) avif now =
      .ok (addKey lib k (avAddressToString src) (carriedKey (strangersPacket src)) now) := by
  have hchecked : checkKey lib k (strangersPacket src) now =
      .ok (addKey lib k (avAddressToString src) (carriedKey (strangersPacket src)) now) := by
    simp [checkKey, hstore, KeyStore.findRSAPubkey, strangersPacket]
  have hdropped : deliverOrForward lib
      (addKey lib k (avAddressToString src) (carriedKey (strangersPacket src)) now)
      (strangersPacket src) avif now =
      .ok (addKey lib k (avAddressToString src) (carriedKey (strangersPacket src)) now) := by
    have hnot := (checkKey_isToMe hchecked (strangersPacket src).dest).trans hother
    rw [deliverOrForward, if_neg (Bool.eq_false_iff.mp hnot)]
    rfl
  rw [processRecivedPacket, hchecked]
  show (deliverOrForward lib _ _ avif now >>= _) = _
  rw [hdropped]
  exact sweep_nobody (by simp [addKey, hwaiters]) now

theorem not_independent (lib : Libs) (heq : avAddressToString a = avAddressToString b) :
    ¬ Independent lib a b := by
  intro h
  obtain ⟨k, avif, hk, hspawned, hstore, hwaiters, hother⟩ := strangers_packet_read lib b
  have hat : k.spawned[0]? = some (strangersPacket b, avif) := by simp [hspawned]
  have hkept := h k hk 0 _ avif hat rfl 0 _ (by
    rw [step, hat]
    exact processRecivedPacket_stranger (k := { k with spawned := k.spawned.eraseIdx 0 })
      hstore hwaiters hother b avif 0)
  obtain ⟨key, hkey⟩ := KeyStore.findRSAPubkey_add_self lib.std k.trustedPubkey
    (avAddressToString b) (carriedKey (strangersPacket b)) (0 + validity)
  have hnone : k.trustedPubkey.findRSAPubkey (avAddressToString a) = .ok none := by
    simp [hstore, KeyStore.findRSAPubkey]
  rw [hnone, heq] at hkept
  exact absurd (hkey.symm.trans hkept) (by simp)

/-- Which addresses have nothing to do with each other's record: those that
print differently, and so those that parsing makes. One that has nothing to do
with any other has no resource, and no second `@` or `/` to move. -/
theorem records_independent_iff (lib : Libs) :
    (∀ a b, Independent lib a b ↔ avAddressToString a ≠ avAddressToString b) ∧
    (∀ a b, Parsed a → Parsed b → (Independent lib a b ↔ a ≠ b)) ∧
    ∀ a, (∀ b, a ≠ b → Independent lib a b) ↔ SpelledOnce a := by
  have hiff : ∀ a b, Independent lib a b ↔ avAddressToString a ≠ avAddressToString b :=
    fun a b => ⟨fun h heq => not_independent lib heq h, independent_of_ne lib⟩
  refine ⟨hiff, fun a b ha hb => ?_, fun a => ?_⟩
  · rw [hiff, not_iff_not]
    exact ⟨ha.injective hb, congrArg avAddressToString⟩
  · simp only [hiff]
    rw [← spelled_once_iff]
    constructor
    · intro h b hb
      by_contra hne
      exact h b (Ne.symm hne) hb.symm
    · intro h b hne heq
      exact hne (h b heq.symm).symm

/-- A key for `a@b` of the domain `c` is a key for `a` of the domain `b@c`. -/
theorem records_shared : (⟨text "a", text "b@c", none⟩ : AvAddress) ≠ ⟨text "a@b", text "c", none⟩ ∧
    ¬ Independent sampleLibs ⟨text "a", text "b@c", none⟩ ⟨text "a@b", text "c", none⟩ :=
  ⟨by decide, not_independent sampleLibs (by decide)⟩

end Kernel

end Avim
