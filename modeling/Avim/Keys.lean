import Avim.Moves

/-!
# Keys on record, and the calls that wait for them

A key is put on record by the first packet that carries one and by a
`pkreply`, always under the address its packet came from. What is on record
stays until a `pkreply` brings another one or a purge finds it expired
(`keys_pinned`).

A call without a key asks for it and waits. The sweep at the end of processing
resumes every call that waits for the packet's source, so no call ever waits
for a key that is there (`never_overslept`).
-/

namespace Avim.Kernel

open Lib.Octets

variable {lib : Libs} {k k' : Kernel}

-- ---------------------------------------------------------------------------
-- Steps
-- ---------------------------------------------------------------------------

def dataSends (trace : List Effect) : List Nat :=
  trace.filterMap fun
    | .enqueued _ (.data send) _ => some send
    | _ => none

@[simp] theorem dataSends_append (a b : List Effect) :
    dataSends (a ++ b) = dataSends a ++ dataSends b := by
  simp [dataSends]

structure Idle (k k' : Kernel) : Prop where
  waiters : k'.waiters = k.waiters
  keys : k'.trustedPubkey = k.trustedPubkey
  sends : k'.sends = k.sends
  sent : dataSends k'.trace = dataSends k.trace

theorem runnerLoop_idle (k : Kernel) (port : Nat) (p : Port) : Idle k (k.runnerLoop port p) := by
  obtain ⟨-, heq⟩ | ⟨-, heq⟩ := runnerLoop_cases k port p
  · rw [heq]
    exact ⟨rfl, rfl, rfl, rfl⟩
  · rw [heq]
    exact ⟨rfl, rfl, rfl, rfl⟩

theorem runnerRead_idle (k : Kernel) (port : Nat) (p : Port) (packet : Option AvPacket) :
    Idle k (k.runnerRead port p packet) := by
  obtain ⟨spawned, links, hloops⟩ := runnerRead_loops k port p packet
  rw [hloops]
  obtain ⟨hwaiters, hkeys, hsends, hsent⟩ :=
    runnerLoop_idle { k with spawned := spawned, links := links } port p
  exact ⟨hwaiters, hkeys, hsends, hsent⟩

theorem writerLoop_idle (k : Kernel) (port : Nat) (p : Port) : Idle k (k.writerLoop port p) := by
  obtain ⟨-, hkeys, hwaiters, hsends⟩ := writerLoop_same k port p
  exact ⟨hwaiters, hkeys, hsends, by rw [writerLoop_trace]⟩

theorem writerWrote_idle (k : Kernel) (port : Nat) (p : Port) (bytes : Bytes)
    (handler : Option Nat) (written : Bool) :
    Idle k (k.writerWrote port p bytes handler written) := by
  obtain ⟨-, hkeys, hwaiters, hsends⟩ := writerWrote_same k port p bytes handler written
  refine ⟨hwaiters, hkeys, hsends, ?_⟩
  cases handler with
  | none => simp [writerWrote, dataSends]
  | some send => simp [writerWrote, dataSends]

theorem runPosted_idle (h : runPosted lib k = .ok k') : Idle k k' := by
  obtain ⟨-, hkeys, hwaiters, hsends⟩ := runPosted_same h
  refine ⟨hwaiters, hkeys, hsends, ?_⟩
  obtain ⟨-, rfl⟩ | ⟨port, ec, value, rest, -, ⟨-, rfl⟩ | ⟨p, -, ⟨-, rfl⟩ | ⟨bytes, -, -, rfl⟩⟩⟩ |
    ⟨call, ec, value, rest, -, rfl⟩ := runPosted_cases h
  · rfl
  · rfl
  · rfl
  · rfl
  · simp [dataSends]

theorem step_cases (h : step lib k event = .ok k') :
    Idle k k' ∨
    (∃ target data now, event = .asyncSendto target data now ∧
      asyncSendto lib k target data now = .ok k') ∨
    (∃ index now packet avif, event = .process index now ∧
      k.spawned[index]? = some (packet, avif) ∧
      processRecivedPacket lib { k with spawned := k.spawned.eraseIdx index } packet avif now =
        .ok k') ∨
    (∃ now, event = .timer1 now ∧ sweep lib (expired now) k now = .ok k') ∨
    (∃ now store, event = .timer2 now ∧ k.trustedPubkey.purgeRSAPubkey now = .ok store ∧
      k' = { k with trustedPubkey := store }) := by
  cases step_does h with
  | asyncSendto hcall => exact .inr (.inl ⟨_, _, _, rfl, hcall⟩)
  | process hpacket hprocess =>
    exact .inr (.inr (.inl ⟨_, _, _, _, rfl, hpacket, hprocess⟩))
  | timer1 hsweep => exact .inr (.inr (.inr (.inl ⟨_, rfl, hsweep⟩)))
  | timer2 hpurge => exact .inr (.inr (.inr (.inr ⟨_, _, rfl, hpurge, rfl⟩)))
  | startRunner _ _ => exact .inl (runnerLoop_idle _ _ _)
  | read packet _ _ => exact .inl (runnerRead_idle _ _ _ _)
  | startWriter _ _ => exact .inl (writerLoop_idle _ _ _)
  | writeDone written _ _ => exact .inl (writerWrote_idle _ _ _ _ _ _)
  | runPosted hposted => exact .inl (runPosted_idle hposted)
  | _ => exact .inl ⟨rfl, rfl, rfl, rfl⟩

-- ---------------------------------------------------------------------------
-- What a packet puts on record
-- ---------------------------------------------------------------------------

/-- Between its start and the sweep, a packet is handled without a call going
on: `handled` is what the sweep finds. -/
structure Handled (lib : Libs) (k : Kernel) (packet : AvPacket) (now : Int) (handled : Kernel) :
    Prop where
  waiters : handled.waiters = k.waiters
  sends : handled.sends = k.sends
  routing : handled.routing = k.routing
  ports : handled.ports = k.ports
  draws : handled.draws = k.draws
  sent : ∃ new, handled.trace = k.trace ++ new ∧ dataSends new = []
  keys : ∃ checked, checkKey lib k packet now = .ok checked ∧
    (handled.trustedPubkey = checked.trustedPubkey ∨
    (k.isToMe packet.dest = true ∧ packet.upperlayerpotocol = text "pkreply" ∧
      ∃ rsa, certificateKey lib (packet.payload.getD []) = .ok rsa ∧
        handled.trustedPubkey = checked.trustedPubkey.addRSAPubkey lib.std
          (avAddressToString packet.src) rsa (now + validity)))

theorem checkKey_same (h : checkKey lib k packet now = .ok k') :
    k'.waiters = k.waiters ∧ k'.sends = k.sends ∧ k'.routing = k.routing ∧
      k'.ports = k.ports ∧ k'.draws = k.draws ∧ k'.trace = k.trace := by
  obtain ⟨_, -, ⟨-, -, rfl⟩ | ⟨-, rfl⟩⟩ := checkKey_cases h
  · exact ⟨rfl, rfl, rfl, rfl, rfl, rfl⟩
  · exact ⟨rfl, rfl, rfl, rfl, rfl, rfl⟩

theorem handled_of_delivered (hchecked : checkKey lib k packet now = .ok checked)
    (h : deliverOrForward lib checked packet avif now = .ok handled) :
    Handled lib k packet now handled := by
  obtain ⟨hwaiters, hsends, hrouting, hports, hdraws, htrace⟩ := checkKey_same hchecked
  obtain ⟨hme, hhandled⟩ | ⟨-, hhandled⟩ := deliverOrForward_cases hchecked h
  · obtain ⟨-, rfl⟩ | ⟨hreply, rsa, hrsa, rfl⟩ | ⟨-, -, payload, -, ⟨-, rfl⟩ | ⟨-, rfl⟩⟩ :=
      toMe_cases hhandled
    · exact ⟨hwaiters, hsends, hrouting, hports, hdraws, ⟨_, by rw [← htrace]; rfl, rfl⟩,
        checked, hchecked, .inl rfl⟩
    · exact ⟨hwaiters, hsends, hrouting, hports, hdraws, ⟨[], by simp [htrace], rfl⟩,
        checked, hchecked, .inr ⟨hme, hreply, rsa, hrsa, rfl⟩⟩
    · exact ⟨hwaiters, hsends, hrouting, hports, hdraws, ⟨_, by rw [← htrace]; rfl, rfl⟩,
        checked, hchecked, .inl rfl⟩
    · exact ⟨hwaiters, hsends, hrouting, hports, hdraws, ⟨[], by simp [htrace], rfl⟩,
        handled, hchecked, .inl rfl⟩
  · obtain rfl | ⟨-, interface, t, -, rfl⟩ := forward_cases hhandled
    · exact ⟨hwaiters, hsends, hrouting, hports, hdraws, ⟨[], by simp [htrace], rfl⟩,
        handled, hchecked, .inl rfl⟩
    · exact ⟨hwaiters, hsends, hrouting, hports, hdraws, ⟨_, by rw [← htrace]; rfl, rfl⟩,
        checked, hchecked, .inl rfl⟩

theorem processRecivedPacket_handled (h : processRecivedPacket lib k packet avif now = .ok k') :
    ∃ handled, Handled lib k packet now handled ∧
      sweep lib (answered packet) handled now = .ok k' := by
  obtain ⟨checked, hchecked, h⟩ := bind_returns h
  obtain ⟨handled, hhandled, h⟩ := bind_returns h
  exact ⟨handled, handled_of_delivered hchecked hhandled, h⟩

theorem processRecivedPacket_same (h : processRecivedPacket lib k packet avif now = .ok k') :
    k'.routing = k.routing ∧ k'.ports = k.ports := by
  obtain ⟨handled, hhandled, hswept⟩ := processRecivedPacket_handled h
  obtain ⟨hrouting, -, hports, -⟩ := sweep_same hswept
  exact ⟨hrouting.trans hhandled.routing, hports.trans hhandled.ports⟩

theorem findRSAPubkey_checkKey (h : checkKey lib k packet now = .ok k')
    (hfound : k.trustedPubkey.findRSAPubkey address = .ok (some key)) :
    k'.trustedPubkey.findRSAPubkey address = .ok (some key) := by
  obtain ⟨stored, hstored, ⟨hnone, -, rfl⟩ | ⟨-, rfl⟩⟩ := checkKey_cases h
  · have hne : address ≠ avAddressToString packet.src := by
      rintro rfl
      rw [hfound] at hstored
      cases hstored
      cases hnone
    exact (KeyStore.findRSAPubkey_add_of_ne hne _ _).trans hfound
  · exact hfound

theorem Handled.find_of_ne (h : Handled lib k packet now handled)
    (hne : address ≠ avAddressToString packet.src) :
    handled.trustedPubkey.findRSAPubkey address = k.trustedPubkey.findRSAPubkey address := by
  obtain ⟨checked, hchecked, hkeys⟩ := h.keys
  have hsame : checked.trustedPubkey.findRSAPubkey address =
      k.trustedPubkey.findRSAPubkey address := by
    obtain ⟨_, -, ⟨-, -, rfl⟩ | ⟨-, rfl⟩⟩ := checkKey_cases hchecked
    · exact KeyStore.findRSAPubkey_add_of_ne hne _ _
    · rfl
  rcases hkeys with heq | ⟨-, -, rsa, -, heq⟩
  · rw [heq, hsame]
  · rw [heq, KeyStore.findRSAPubkey_add_of_ne hne, hsame]

theorem Handled.filled (h : Handled lib k packet now handled) (hk : k.trustedPubkey.Filled) :
    handled.trustedPubkey.Filled := by
  obtain ⟨checked, hchecked, hkeys⟩ := h.keys
  have hc : checked.trustedPubkey.Filled := by
    obtain ⟨_, -, ⟨-, -, rfl⟩ | ⟨-, rfl⟩⟩ := checkKey_cases hchecked
    · exact hk.add _ _ _
    · exact hk
  rcases hkeys with heq | ⟨-, -, rsa, -, heq⟩
  · rw [heq]
    exact hc
  · rw [heq]
    exact hc.add _ _ _

-- ---------------------------------------------------------------------------
-- Pinning
-- ---------------------------------------------------------------------------

/-- The step processes a `pkreply` for this kernel that comes from `address`. -/
def Replies (k : Kernel) (event : Event) (address : Bytes) : Prop :=
  ∃ index now packet avif, event = .process index now ∧ k.spawned[index]? = some (packet, avif) ∧
    k.isToMe packet.dest = true ∧ packet.upperlayerpotocol = text "pkreply" ∧
    avAddressToString packet.src = address

/-- The step is a purge that comes after the key found for `address` expired. -/
def Expires (k : Kernel) (event : Event) (address : Bytes) (key : RSA) : Prop :=
  ∃ now item validUntil keys, event = .timer2 now ∧ k.trustedPubkey[address]? = some item ∧
    item.keys = ⟨key, validUntil⟩ :: keys ∧ validUntil < now

/-- What may happen to a key on record in one step. -/
structure PinnedAt (k : Kernel) (event : Event) (k' : Kernel) (address : Bytes) (key : RSA) :
    Prop where
  defined : ∃ found, k'.trustedPubkey.findRSAPubkey address = .ok found
  replaced : ∀ other, k'.trustedPubkey.findRSAPubkey address = .ok (some other) → other ≠ key →
    Replies k event address
  dropped : k'.trustedPubkey.findRSAPubkey address = .ok none → Expires k event address key

theorem pinnedAt_of_kept (h : k'.trustedPubkey.findRSAPubkey address = .ok (some key)) :
    PinnedAt k event k' address key := by
  refine ⟨⟨_, h⟩, ?_, ?_⟩
  · intro other hother hne
    rw [h] at hother
    cases hother
    exact absurd rfl hne
  · intro hnone
    rw [h] at hnone
    cases hnone

theorem pinnedAt_of_reply (h : k'.trustedPubkey.findRSAPubkey address = .ok (some other))
    (hreply : Replies k event address) : PinnedAt k event k' address key := by
  refine ⟨⟨_, h⟩, fun _ _ _ => hreply, ?_⟩
  intro hnone
  rw [h] at hnone
  cases hnone

theorem pinnedAt_of_expiry (h : k'.trustedPubkey.findRSAPubkey address = .ok none)
    (hexpires : Expires k event address key) : PinnedAt k event k' address key := by
  refine ⟨⟨_, h⟩, ?_, fun _ => hexpires⟩
  intro other hother
  rw [h] at hother
  cases hother

theorem pinnedAt_process (hkey : k.trustedPubkey.findRSAPubkey address = .ok (some key))
    (hpacket : k.spawned[index]? = some (packet, avif))
    (h : processRecivedPacket lib { k with spawned := k.spawned.eraseIdx index } packet avif now =
      .ok k') : PinnedAt k (.process index now) k' address key := by
  obtain ⟨handled, hhandled, hswept⟩ := processRecivedPacket_handled h
  obtain ⟨-, hkeys, -, -⟩ := sweep_same hswept
  obtain ⟨checked, hchecked, hsame | ⟨hme, hreply, rsa, -, hadd⟩⟩ := hhandled.keys
  · refine pinnedAt_of_kept ?_
    rw [hkeys, hsame]
    exact findRSAPubkey_checkKey hchecked hkey
  · by_cases hsrc : address = avAddressToString packet.src
    · obtain ⟨new, hnew⟩ := KeyStore.findRSAPubkey_add_self lib.std checked.trustedPubkey
        (avAddressToString packet.src) rsa (now + validity)
      have hfound : k'.trustedPubkey.findRSAPubkey address = .ok (some new) := by
        rw [hkeys, hadd, hsrc, hnew]
      exact pinnedAt_of_reply hfound
        ⟨index, now, packet, avif, rfl, hpacket, hme, hreply, hsrc.symm⟩
    · refine pinnedAt_of_kept ?_
      rw [hkeys, hadd, KeyStore.findRSAPubkey_add_of_ne hsrc]
      exact findRSAPubkey_checkKey hchecked hkey

theorem pinnedAt_purge (hkey : k.trustedPubkey.findRSAPubkey address = .ok (some key))
    (h : k.trustedPubkey.purgeRSAPubkey now = .ok store) :
    PinnedAt k (.timer2 now) { k with trustedPubkey := store } address key := by
  obtain hsame | ⟨hnone, hexpired⟩ := KeyStore.findRSAPubkey_purge h address
  · exact pinnedAt_of_kept (hsame.trans hkey)
  · refine pinnedAt_of_expiry hnone ?_
    unfold KeyStore.findRSAPubkey at hkey
    split at hkey
    · cases hkey
    · rename_i item hitem
      split at hkey
      · cases hkey
      · rename_i first keys hkeys
        cases hkey
        exact ⟨now, item, first.validUntil, keys, rfl, hitem, hkeys,
          hexpired item first keys hitem hkeys⟩

def Pinned (k : Kernel) (event : Event) (k' : Kernel) : Prop :=
  ∀ address key, k.trustedPubkey.findRSAPubkey address = .ok (some key) →
    PinnedAt k event k' address key

theorem pinned_step (h : step lib k event = .ok k') : Pinned k event k' := by
  intro address key hkey
  obtain hidle | ⟨target, data, now, -, hcall⟩ |
    ⟨index, now, packet, avif, rfl, hpacket, hprocess⟩ | ⟨now, -, hsweep⟩ |
    ⟨now, store, rfl, hpurge, rfl⟩ := step_cases h
  · exact pinnedAt_of_kept (by rw [hidle.keys, hkey])
  · exact pinnedAt_of_kept (by rw [(asyncSendto_same hcall).2.1, hkey])
  · exact pinnedAt_process hkey hpacket hprocess
  · exact pinnedAt_of_kept (by rw [(sweep_same hsweep).2.1, hkey])
  · exact pinnedAt_purge hkey hpurge

/-- Over any run a key on record is replaced only by a `pkreply` for this
kernel from its address, and forgotten only after it has expired. -/
theorem keys_pinned (lib : Libs) (events : List Event) :
    Lib.Run.Along (step lib) Pinned initial events := by
  refine Lib.Run.along_of_invariant (I := fun _ => True) trivial (fun _ _ _ _ _ => trivial) ?_
    events
  intro k event k' h _
  exact pinned_step h

-- ---------------------------------------------------------------------------
-- Sweeps
-- ---------------------------------------------------------------------------

section

variable {due : Kernel → Waiter → Except Fault Bool} {now : Int}

theorem sweepFrom_end (fuel : Nat) (hw : k.waiters = done) :
    sweepFrom lib due now (fuel + 1) k done.length = .ok k := by
  have hnone : k.waiters[done.length]? = none := by simp [hw]
  rw [sweepFrom, hnone]

theorem sweepFrom_skip (fuel : Nat) (hw : k.waiters = done ++ w :: rest)
    (hdue : due k w = .ok false) :
    sweepFrom lib due now (fuel + 1) k done.length =
      sweepFrom lib due now fuel k (done ++ [w]).length := by
  have hat : k.waiters[done.length]? = some w := by simp [hw]
  rw [sweepFrom, hat]
  simp [hdue]

theorem sweepFrom_resume (fuel : Nat) (hw : k.waiters = done ++ w :: rest)
    (hdue : due k w = .ok true) :
    sweepFrom lib due now (fuel + 1) k done.length = (sendOrAsk lib k w.op now >>= fun resumed =>
      sweepFrom lib due now fuel { resumed with waiters := resumed.waiters.eraseIdx done.length }
        done.length) := by
  have hat : k.waiters[done.length]? = some w := by simp [hw]
  rw [sweepFrom, hat]
  simp [hdue]

end

theorem eraseIdx_middle (done rest : List α) (x : α) :
    (done ++ x :: rest).eraseIdx done.length = done ++ rest := by
  rw [List.eraseIdx_append_of_length_le (Nat.le_refl _)]
  simp

def renew (now : Int) (op : SendOp) : Waiter :=
  ⟨now + 8 * 1000000, { op with asks := op.asks + 1 }⟩

theorem sendOrAsk_outcome (h : sendOrAsk lib k op now = .ok k') :
    (∃ key link packet, k.trustedPubkey.findRSAPubkey op.target = .ok (some key) ∧
      k'.waiters = k.waiters ∧ k'.trace = k.trace ++ [.enqueued link (.data op.send) packet]) ∨
    (∃ link packet, k.trustedPubkey.findRSAPubkey op.target = .ok none ∧ op.asks < 3 ∧
      k'.waiters = k.waiters ++ [renew now op] ∧
      k'.trace = k.trace ++ [.enqueued link (.pkask op.send) packet]) ∨
    (k.trustedPubkey.findRSAPubkey op.target = .ok none ∧ 3 ≤ op.asks ∧
      k'.waiters = k.waiters ∧
      k'.trace = k.trace ++ [.completed op.send .networkUnreachable]) := by
  obtain ⟨key, avif, second, hkey, -, rfl⟩ | ⟨avif, hnone, hasks, -, rfl⟩ | ⟨hnone, hasks, rfl⟩ :=
    sendOrAsk_cases h
  · exact .inl ⟨key, _, _, hkey, rfl, rfl⟩
  · exact .inr (.inl ⟨_, _, hnone, hasks, rfl, rfl⟩)
  · exact .inr (.inr ⟨hnone, hasks, rfl, rfl⟩)

theorem forall₂_mem {R : α → β → Prop} (h : List.Forall₂ R xs ys) (hx : x ∈ xs) :
    ∃ y ∈ ys, R x y := by
  induction h with
  | nil => cases hx
  | cons hxy _ ih =>
    rcases List.mem_cons.mp hx with rfl | hx
    · exact ⟨_, List.mem_cons_self, hxy⟩
    · obtain ⟨y, hy, hR⟩ := ih hx
      exact ⟨y, List.mem_cons_of_mem _ hy, hR⟩

/-- The call of a waiter put its data packet into a write queue. -/
def WentOn (w : Waiter) (effect : Effect) : Prop :=
  ∃ link packet, effect = .enqueued link (.data w.op.send) packet

/-- What is left of a waiter in the list after its call was resumed: it waits
again, unless there is a key or it has asked three times. -/
def again (store : KeyStore) (now : Int) (w : Waiter) : Option Waiter :=
  if store.findRSAPubkey w.op.target = .ok none ∧ w.op.asks < 3 then some (renew now w.op)
  else none

def GoesOn (store : KeyStore) (w : Waiter) (effect : Effect) : Prop :=
  ((∃ key, store.findRSAPubkey w.op.target = .ok (some key)) ∧ WentOn w effect) ∨
  (store.findRSAPubkey w.op.target = .ok none ∧ w.op.asks < 3 ∧
    ∃ link packet, effect = .enqueued link (.pkask w.op.send) packet) ∨
  (store.findRSAPubkey w.op.target = .ok none ∧ 3 ≤ w.op.asks ∧
    effect = .completed w.op.send .networkUnreachable)

theorem waiters_sendOrAsk (h : sendOrAsk lib k w.op now = .ok k') :
    k'.waiters = k.waiters ++ (again k.trustedPubkey now w).toList := by
  obtain ⟨key, link, packet, hkey, hsame, -⟩ | ⟨link, packet, hnone, hasks, hsame, -⟩ |
    ⟨-, hasks, hsame, -⟩ := sendOrAsk_outcome h
  · simp [hsame, again, hkey]
  · simp [hsame, again, hnone, hasks]
  · simp [hsame, again, Nat.not_lt.mpr hasks]

theorem waiters_resumed (hw : k.waiters[i]? = some w)
    (hres : sendOrAsk lib k w.op now = .ok resumed) :
    resumed.waiters.eraseIdx i =
      k.waiters.eraseIdx i ++ (again k.trustedPubkey now w).toList := by
  rw [waiters_sendOrAsk hres,
    List.eraseIdx_append_of_lt_length (List.getElem?_eq_some_iff.mp hw).1]

structure Resumed (k : Kernel) (store : KeyStore) (now : Int) (done : List Waiter) (w : Waiter)
    (rest : List Waiter) (next : Kernel) : Prop where
  waiters : next.waiters = done ++ (rest ++ (again store now w).toList)
  keys : next.trustedPubkey = store
  sent : ∃ effect, GoesOn store w effect ∧ next.trace = k.trace ++ [effect]

theorem resumed_of_sendOrAsk (hstore : k.trustedPubkey = store)
    (hw : k.waiters = done ++ w :: rest) (hres : sendOrAsk lib k w.op now = .ok resumed) :
    Resumed k store now done w rest
      { resumed with waiters := resumed.waiters.eraseIdx done.length } := by
  subst hstore
  have hat : k.waiters[done.length]? = some w := by simp [hw]
  have hwaiters := waiters_resumed hat hres
  rw [hw, eraseIdx_middle, List.append_assoc] at hwaiters
  have hkeys := (sendOrAsk_same hres).2.1
  obtain ⟨key, link, packet, hkey, -, htrace⟩ | ⟨link, packet, hnone, hasks, -, htrace⟩ |
    ⟨hnone, hasks, -, htrace⟩ := sendOrAsk_outcome hres
  · exact ⟨hwaiters, hkeys, _, .inl ⟨⟨key, hkey⟩, link, packet, rfl⟩, htrace⟩
  · exact ⟨hwaiters, hkeys, _, .inr (.inl ⟨hnone, hasks, link, packet, rfl⟩), htrace⟩
  · exact ⟨hwaiters, hkeys, _, .inr (.inr ⟨hnone, hasks, rfl⟩), htrace⟩

theorem rounds_again (store : KeyStore) (now : Int) (w : Waiter) (rest : List Waiter) :
    ((rest ++ (again store now w).toList).map Waiter.rounds).sum <
      ((w :: rest).map Waiter.rounds).sum := by
  unfold again
  split
  · rename_i hasks
    simp only [Option.toList_some, List.map_append, List.map_cons, List.map_nil, List.sum_append,
      List.sum_cons, List.sum_nil, Waiter.rounds, renew]
    omega
  · simp only [Option.toList_none, List.append_nil, List.map_cons, List.sum_cons, Waiter.rounds]
    omega

section

variable {due : Kernel → Waiter → Except Fault Bool} {p : Waiter → Bool} {store : KeyStore}

/-- Over the keys in `store` the waiters in `p` are due, and none of those that
wait again. -/
structure Picks (due : Kernel → Waiter → Except Fault Bool) (p : Waiter → Bool)
    (store : KeyStore) (now : Int) : Prop where
  decides : ∀ k w, k.trustedPubkey = store → due k w = .ok (p w)
  spares : ∀ w v, again store now w = some v → p v = false

theorem Picks.filter_again (h : Picks due p store now) (w : Waiter) (rest : List Waiter) :
    (rest ++ (again store now w).toList).filter p = rest.filter p := by
  cases hagain : again store now w with
  | none => simp
  | some v => simp [h.spares w v hagain]

theorem Picks.filter_not_again (h : Picks due p store now) (w : Waiter) (rest : List Waiter) :
    (rest ++ (again store now w).toList).filter (!p ·) =
      rest.filter (!p ·) ++ (again store now w).toList := by
  cases hagain : again store now w with
  | none => simp
  | some v => simp [h.spares w v hagain]

/-- The rule for sweeps: `rest` is what is still to be looked at. What is shown
of it follows the sweep from one waiter to the next. -/
theorem Picks.rule {motive : Nat → Kernel → List Waiter → List Waiter → Prop} (lib : Libs)
    (hpicks : Picks due p store now)
    (hfuel : ∀ k done rest, motive 0 k done rest)
    (hend : ∀ fuel k, motive (fuel + 1) k k.waiters [])
    (hskip : ∀ fuel (k : Kernel) done w rest, k.waiters = done ++ w :: rest →
      due k w = .ok false → p w = false → motive fuel k (done ++ [w]) rest →
      motive (fuel + 1) k done (w :: rest))
    (hresume : ∀ fuel (k : Kernel) done w rest, k.trustedPubkey = store →
      k.waiters = done ++ w :: rest → due k w = .ok true → p w = true →
      (∀ resumed, sendOrAsk lib k w.op now = .ok resumed →
        motive fuel { resumed with waiters := resumed.waiters.eraseIdx done.length } done
          (rest ++ (again store now w).toList)) →
      motive (fuel + 1) k done (w :: rest))
    (fuel : Nat) (hstore : k.trustedPubkey = store) (hw : k.waiters = done ++ rest) :
    motive fuel k done rest := by
  induction fuel generalizing k done rest with
  | zero => exact hfuel k done rest
  | succ fuel ih =>
    cases rest with
    | nil =>
      rw [List.append_nil] at hw
      exact hw ▸ hend fuel k
    | cons w rest =>
      have hdue := hpicks.decides k w hstore
      cases hp : p w with
      | false => exact hskip fuel k done w rest hw (hp ▸ hdue) hp (ih hstore (by simp [hw]))
      | true =>
        refine hresume fuel k done w rest hstore hw (hp ▸ hdue) hp fun resumed hres => ?_
        have hnext := resumed_of_sendOrAsk hstore hw hres
        exact ih hnext.keys hnext.waiters

/-- A sweep that returns has resumed the due waiters one after the other. The
others stay in their order, and those that wait again come after them. -/
theorem sweepFrom_shape (hpicks : Picks due p store now) (hstore : k.trustedPubkey = store)
    (hw : k.waiters = done ++ rest) (h : sweepFrom lib due now fuel k done.length = .ok k') :
    k'.waiters = done ++ rest.filter (!p ·) ++ (rest.filter p).filterMap (again store now) ∧
      ∃ sent, k'.trace = k.trace ++ sent ∧ List.Forall₂ (GoesOn store) (rest.filter p) sent := by
  refine hpicks.rule lib (motive := fun fuel k done rest =>
    sweepFrom lib due now fuel k done.length = .ok k' →
      k'.waiters = done ++ rest.filter (!p ·) ++ (rest.filter p).filterMap (again store now) ∧
        ∃ sent, k'.trace = k.trace ++ sent ∧ List.Forall₂ (GoesOn store) (rest.filter p) sent)
    ?_ ?_ ?_ ?_ fuel hstore hw h
  · intro k done rest h
    cases h
  · intro fuel k h
    rw [sweepFrom_end fuel rfl] at h
    cases h
    exact ⟨by simp, [], by simp, .nil⟩
  · intro fuel k done w rest hw hdue hp ih h
    rw [sweepFrom_skip fuel hw hdue] at h
    obtain ⟨hwaiters, hsent⟩ := ih h
    rw [List.filter_cons_of_neg (p := p) (by simp [hp])]
    exact ⟨by simp [hwaiters, hp], hsent⟩
  · intro fuel k done w rest hstore hw hdue hp ih h
    rw [sweepFrom_resume fuel hw hdue] at h
    obtain ⟨resumed, hres, h⟩ := bind_returns h
    obtain ⟨hwaiters, sent, htrace, hall⟩ := ih resumed hres h
    obtain ⟨effect, hgoes, heffect⟩ := (resumed_of_sendOrAsk hstore hw hres).sent
    rw [hpicks.filter_again] at hwaiters hall
    rw [hpicks.filter_not_again] at hwaiters
    rw [List.filter_cons_of_pos hp, List.filter_cons_of_neg (by simp [hp])]
    refine ⟨?_, effect :: sent, ?_, .cons hgoes hall⟩
    · rw [hwaiters, List.filterMap_cons]
      cases again store now w with
      | none => simp
      | some v => simp
    · rw [htrace, heffect, List.append_assoc, List.singleton_append]

theorem sweep_shape (hpicks : Picks due p k.trustedPubkey now)
    (h : sweep lib due k now = .ok k') :
    k'.waiters = k.waiters.filter (!p ·) ++
        (k.waiters.filter p).filterMap (again k.trustedPubkey now) ∧
      ∃ sent, k'.trace = k.trace ++ sent ∧
        List.Forall₂ (GoesOn k.trustedPubkey) (k.waiters.filter p) sent := by
  have hw : k.waiters = [] ++ k.waiters := rfl
  exact sweepFrom_shape hpicks rfl hw h

end

theorem again_eq_none (hkey : store.findRSAPubkey w.op.target = .ok (some key)) (now : Int) :
    again store now w = none := by
  simp [again, hkey]

theorem picks_answered (hsrc : avAddressToString packet.src = address)
    (hkey : store.findRSAPubkey address = .ok (some key)) (now : Int) :
    Picks (answered packet) (·.op.target = address) store now := by
  constructor
  · rintro k w rfl
    by_cases htarget : w.op.target = address
    · simp [answered, hsrc, htarget, hkey, Except.map]
    · simp [answered, hsrc, htarget, Ne.symm htarget]
  · intro w v hagain
    unfold again at hagain
    split at hagain
    · rename_i hnone
      cases hagain
      refine decide_eq_false ?_
      rintro rfl
      cases hkey.symm.trans hnone.1
    · cases hagain

theorem sweep_answered (hsrc : avAddressToString packet.src = address)
    (hkey : k.trustedPubkey.findRSAPubkey address = .ok (some key))
    (h : sweep lib (answered packet) k now = .ok k') :
    k'.waiters = k.waiters.filter (·.op.target ≠ address) ∧
      ∃ sent, k'.trace = k.trace ++ sent ∧
        List.Forall₂ WentOn (k.waiters.filter (·.op.target = address)) sent := by
  obtain ⟨hwaiters, sent, htrace, hall⟩ := sweep_shape (picks_answered hsrc hkey now) h
  have htarget : ∀ w ∈ k.waiters.filter (·.op.target = address), w.op.target = address := by
    intro w hw
    simpa using (List.mem_filter.mp hw).2
  refine ⟨?_, sent, htrace, ?_⟩
  · rw [hwaiters, List.filterMap_eq_nil_iff.mpr, List.append_nil]
    · simp
    · intro w hw
      exact again_eq_none (by rw [htarget w hw, hkey]) now
  · refine ((List.forall₂_and_left _ _).mpr ⟨htarget, hall⟩).imp ?_
    rintro w effect ⟨hw, ⟨-, hwent⟩ | ⟨hnone, -⟩ | ⟨hnone, -⟩⟩
    · exact hwent
    · rw [hw, hkey] at hnone
      cases hnone
    · rw [hw, hkey] at hnone
      cases hnone

theorem sweepFrom_nobody (done : List Waiter) (hw : k.waiters = done ++ rest)
    (hdue : ∀ w ∈ rest, due k w = .ok false) (hfuel : rest.length < fuel) :
    sweepFrom lib due now fuel k done.length = .ok k := by
  induction rest generalizing done fuel with
  | nil =>
    cases fuel with
    | zero => cases hfuel
    | succ fuel => exact sweepFrom_end fuel (by simpa using hw)
  | cons w rest ih =>
    cases fuel with
    | zero => cases hfuel
    | succ fuel =>
      rw [sweepFrom_skip fuel hw (hdue w List.mem_cons_self)]
      exact ih _ (by simp [hw]) (fun v hv => hdue v (List.mem_cons_of_mem _ hv))
        (by simpa using hfuel)

theorem length_le_rounds (waiters : List Waiter) :
    waiters.length ≤ (waiters.map Waiter.rounds).sum := by
  induction waiters with
  | nil => simp
  | cons w waiters ih =>
    simp only [List.length_cons, List.map_cons, List.sum_cons, Waiter.rounds] at ih ⊢
    omega

theorem sweep_nobody (hdue : ∀ w ∈ k.waiters, due k w = .ok false) (now : Int) :
    sweep lib due k now = .ok k :=
  sweepFrom_nobody [] rfl hdue (Nat.lt_succ_of_le (length_le_rounds k.waiters))

theorem sweep_unanswered (hsrc : avAddressToString packet.src = address)
    (hkey : k.trustedPubkey.findRSAPubkey address = .ok none) (now : Int) :
    sweep lib (answered packet) k now = .ok k := by
  refine sweep_nobody (fun w _ => ?_) now
  by_cases htarget : w.op.target = address
  · simp [answered, hsrc, htarget, hkey, Except.map]
  · simp [answered, hsrc, Ne.symm htarget]

def overdue (now : Int) (w : Waiter) : Bool := w.deadline < now

theorem picks_expired (store : KeyStore) (now : Int) :
    Picks (expired now) (overdue now) store now := by
  refine ⟨fun _ _ _ => rfl, ?_⟩
  intro w v hagain
  unfold again at hagain
  split at hagain
  · cases hagain
    simp [overdue, renew]
  · cases hagain

theorem filterMap_again {waiters : List Waiter}
    (hnone : ∀ w ∈ waiters, store.findRSAPubkey w.op.target = .ok none) :
    waiters.filterMap (again store now) =
      (waiters.filter (·.op.asks < 3)).map (renew now ·.op) := by
  induction waiters with
  | nil => rfl
  | cons w waiters ih =>
    have hrest := ih fun v hv => hnone v (List.mem_cons_of_mem _ hv)
    by_cases hasks : w.op.asks < 3
    · simp [again, hnone w List.mem_cons_self, hasks, ← hrest]
    · simp [again, hasks, ← hrest]

/-- While no key has come for anybody, the timer sends the calls that are
overdue to the end of the list, as often as they may ask. -/
theorem sweep_expired (hkeys : ∀ w ∈ k.waiters,
      k.trustedPubkey.findRSAPubkey w.op.target = .ok none)
    (h : sweep lib (expired now) k now = .ok k') :
    k'.waiters = k.waiters.filter (!overdue now ·) ++
        (k.waiters.filter fun w => overdue now w && w.op.asks < 3).map (renew now ·.op) ∧
      dataSends k'.trace = dataSends k.trace := by
  obtain ⟨hwaiters, sent, htrace, hall⟩ := sweep_shape (picks_expired k.trustedPubkey now) h
  have hnone : ∀ w ∈ k.waiters.filter (overdue now),
      k.trustedPubkey.findRSAPubkey w.op.target = .ok none :=
    fun w hw => hkeys w (List.mem_filter.mp hw).1
  constructor
  · rw [hwaiters, filterMap_again hnone, List.filter_filter]
    simp only [Bool.and_comm]
  · rw [htrace, dataSends_append, List.append_right_eq_self]
    refine List.filterMap_eq_nil_iff.mpr ?_
    intro effect heffect
    obtain ⟨w, hw, ⟨⟨key, hkey⟩, -⟩ | ⟨-, -, link, packet, rfl⟩ | ⟨-, -, rfl⟩⟩ :=
      forall₂_mem hall.flip heffect
    · rw [hnone w hw] at hkey
      cases hkey
    · rfl
    · rfl

-- ---------------------------------------------------------------------------
-- Waking up
-- ---------------------------------------------------------------------------

/-- Nobody waits for a key that is on record. -/
def Attended (k : Kernel) : Prop :=
  ∀ w ∈ k.waiters, k.trustedPubkey.findRSAPubkey w.op.target = .ok none

/-- A step that puts a key on record lets all calls that wait for it go on. -/
def WakesAll (k : Kernel) (_ : Event) (k' : Kernel) : Prop :=
  ∀ w ∈ k.waiters, ∀ key, k'.trustedPubkey.findRSAPubkey w.op.target = .ok (some key) →
    ∃ new effect, k'.trace = k.trace ++ new ∧ effect ∈ new ∧ WentOn w effect

theorem attended_initial : Attended initial := by
  intro w hw
  cases hw

theorem attended_of_same (h : Attended k) (hwaiters : k'.waiters = k.waiters)
    (hkeys : k'.trustedPubkey = k.trustedPubkey) : Attended k' := by
  intro w hw
  rw [hwaiters] at hw
  rw [hkeys]
  exact h w hw

theorem wakesAll_of_same (h : Attended k) (hkeys : k'.trustedPubkey = k.trustedPubkey) :
    WakesAll k event k' := by
  intro w hw key hkey
  rw [hkeys, h w hw] at hkey
  cases hkey

theorem attended_sendOrAsk (h : Attended k) (hsend : sendOrAsk lib k op now = .ok k') :
    Attended k' := by
  have hkeys := (sendOrAsk_same hsend).2.1
  obtain ⟨_, _, _, -, hsame, -⟩ | ⟨_, _, hnone, -, hsame, -⟩ | ⟨-, -, hsame, -⟩ :=
    sendOrAsk_outcome hsend
  · exact attended_of_same h hsame hkeys
  · intro w hw
    rw [hkeys]
    rw [hsame] at hw
    rcases List.mem_append.mp hw with hw | hw
    · exact h w hw
    · rw [List.mem_singleton.mp hw]
      exact hnone
  · exact attended_of_same h hsame hkeys

theorem attended_asyncSendto (h : Attended k)
    (hcall : asyncSendto lib k target data now = .ok k') : Attended k' := by
  obtain ⟨-, rfl⟩ | ⟨interface, -, hsend⟩ := asyncSendto_cases hcall
  · exact attended_of_same h rfl rfl
  · exact attended_sendOrAsk (k := { k with sends := k.sends + 1 }) h hsend

theorem processRecivedPacket_swept (hk : Standing k)
    (h : processRecivedPacket lib k packet avif now = .ok k') :
    ∃ handled, Handled lib k packet now handled ∧
      k'.trustedPubkey = handled.trustedPubkey ∧ k'.sends = k.sends ∧
      ((handled.trustedPubkey.findRSAPubkey (avAddressToString packet.src) = .ok none ∧
        k' = handled) ∨
      ∃ key sent, handled.trustedPubkey.findRSAPubkey (avAddressToString packet.src) =
          .ok (some key) ∧
        k'.waiters = k.waiters.filter (·.op.target ≠ avAddressToString packet.src) ∧
        k'.trace = handled.trace ++ sent ∧
        List.Forall₂ WentOn
          (k.waiters.filter (·.op.target = avAddressToString packet.src)) sent) := by
  obtain ⟨handled, hhandled, hswept⟩ := processRecivedPacket_handled h
  refine ⟨handled, hhandled, (sweep_same hswept).2.1,
    (sweep_same hswept).2.2.2.trans hhandled.sends, ?_⟩
  obtain ⟨found, hfound, -⟩ := (hhandled.filled hk.filled).find (avAddressToString packet.src)
  cases found with
  | none =>
    rw [sweep_unanswered rfl hfound] at hswept
    cases hswept
    exact .inl ⟨hfound, rfl⟩
  | some key =>
    obtain ⟨hwaiters, sent, htrace, hsent⟩ := sweep_answered rfl hfound hswept
    rw [hhandled.waiters] at hwaiters hsent
    exact .inr ⟨key, sent, hfound, hwaiters, htrace, hsent⟩

theorem attended_process (event : Event) (hk : Standing k) (h : Attended k)
    (hprocess : processRecivedPacket lib k packet avif now = .ok k') :
    Attended k' ∧ WakesAll k event k' := by
  obtain ⟨handled, hhandled, hkeys, -, ⟨hnone, rfl⟩ |
    ⟨key, sent, hkey, hwaiters, htrace, hsent⟩⟩ := processRecivedPacket_swept hk hprocess
  · have hall : ∀ w ∈ k.waiters, k'.trustedPubkey.findRSAPubkey w.op.target = .ok none := by
      intro w hw
      by_cases htarget : w.op.target = avAddressToString packet.src
      · rw [htarget, hnone]
      · rw [hhandled.find_of_ne htarget, h w hw]
    refine ⟨?_, ?_⟩
    · intro w hw
      rw [hhandled.waiters] at hw
      exact hall w hw
    · intro w hw key hkey
      rw [hall w hw] at hkey
      cases hkey
  · refine ⟨?_, ?_⟩
    · intro w hw
      rw [hwaiters, List.mem_filter] at hw
      have hne : w.op.target ≠ avAddressToString packet.src := by simpa using hw.2
      rw [hkeys, hhandled.find_of_ne hne]
      exact h w hw.1
    · intro w hw key' hkey'
      obtain ⟨new, hnew, -⟩ := hhandled.sent
      by_cases htarget : w.op.target = avAddressToString packet.src
      · have hmem : w ∈ k.waiters.filter (·.op.target = avAddressToString packet.src) := by
          simp [hw, htarget]
        obtain ⟨effect, heffect, hwent⟩ := forall₂_mem hsent hmem
        exact ⟨new ++ sent, effect, by rw [htrace, hnew, List.append_assoc],
          List.mem_append_right _ heffect, hwent⟩
      · rw [hkeys, hhandled.find_of_ne htarget, h w hw] at hkey'
        cases hkey'

theorem attended_timer1 (h : Attended k) (hsweep : sweep lib (expired now) k now = .ok k') :
    Attended k' := by
  intro w hw
  rw [(sweep_same hsweep).2.1]
  rw [(sweep_expired h hsweep).1] at hw
  rcases List.mem_append.mp hw with hw | hw
  · exact h w (List.mem_filter.mp hw).1
  · obtain ⟨v, hv, rfl⟩ := List.mem_map.mp hw
    exact h v (List.mem_filter.mp hv).1

theorem attended_timer2 (h : Attended k) (hpurge : k.trustedPubkey.purgeRSAPubkey now = .ok store) :
    ∀ w ∈ k.waiters, store.findRSAPubkey w.op.target = .ok none := by
  intro w hw
  obtain hsame | ⟨hnone, -⟩ := KeyStore.findRSAPubkey_purge hpurge w.op.target
  · rw [hsame, h w hw]
  · exact hnone

theorem attended_step (hk : Standing k) (h : Attended k) (hstep : step lib k event = .ok k') :
    Attended k' ∧ WakesAll k event k' := by
  obtain hidle | ⟨target, data, now, -, hcall⟩ | ⟨index, now, packet, avif, -, -, hprocess⟩ |
    ⟨now, -, hsweep⟩ | ⟨now, store, -, hpurge, rfl⟩ := step_cases hstep
  · exact ⟨attended_of_same h hidle.waiters hidle.keys, wakesAll_of_same h hidle.keys⟩
  · exact ⟨attended_asyncSendto h hcall, wakesAll_of_same h (asyncSendto_same hcall).2.1⟩
  · exact attended_process (k := { k with spawned := k.spawned.eraseIdx index }) event
      ⟨hk.filled, hk.wellFormed⟩ h hprocess
  · exact ⟨attended_timer1 h hsweep, wakesAll_of_same h (sweep_same hsweep).2.1⟩
  · have hnone := attended_timer2 h hpurge
    refine ⟨hnone, ?_⟩
    intro w hw key hkey
    rw [hnone w hw] at hkey
    cases hkey

abbrev Reached (lib : Libs) (k : Kernel) : Prop := Lib.Run.Reached (step lib) initial k

def after (lib : Libs) (events : List Event) : Kernel :=
  (events.foldlM (step lib) initial).toOption.getD initial

theorem reached_after (lib : Libs) (events : List Event) : Reached lib (after lib events) := by
  cases h : events.foldlM (step lib) initial with
  | error fault => simpa [after, h, Except.toOption] using .start
  | ok k => simpa [after, h, Except.toOption] using Lib.Run.reached_of_foldlM .start h

theorem Reached.standing (h : Reached lib k) : Standing k :=
  Lib.Run.Reached.invariant standing_initial (fun _ _ _ hstep hk => hk.step hstep) h

theorem Reached.attended (h : Reached lib k) : Attended k := by
  have hboth : Standing k ∧ Attended k := by
    refine Lib.Run.Reached.invariant (I := fun k => Standing k ∧ Attended k)
      ⟨standing_initial, attended_initial⟩ ?_ h
    intro k event k' hstep hk
    exact ⟨hk.1.step hstep, (attended_step hk.1 hk.2 hstep).1⟩
  exact hboth.2

/-- In no state between two steps does a call wait for a key that is on
record, and the step that puts a key on record lets everybody who waits for it
go on. -/
theorem never_overslept (lib : Libs) (events : List Event) :
    Lib.Run.Always (step lib) Attended initial events ∧
      Lib.Run.Along (step lib) WakesAll initial events := by
  have hstep : ∀ k event k', step lib k event = .ok k' →
      Standing k ∧ Attended k → Standing k' ∧ Attended k' := by
    intro k event k' h hk
    exact ⟨hk.1.step h, (attended_step hk.1 hk.2 h).1⟩
  constructor
  · exact Lib.Run.always_of_invariant ⟨standing_initial, attended_initial⟩ hstep
      (fun _ hk => hk.2) events
  · refine Lib.Run.along_of_invariant ⟨standing_initial, attended_initial⟩ hstep ?_ events
    intro k event k' h hk
    exact (attended_step hk.1 hk.2 h).2

end Avim.Kernel
