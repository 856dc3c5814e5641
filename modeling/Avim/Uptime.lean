import Avim.Internet
import Avim.Robustness

/-!
# Kernels that stay up

What brings a kernel down is a key, a certificate or a payload that is not what
it should be, and in an internetwork that is set up as it should be there are
none. A kernel in it survives every packet, every call and every sweep, as long
as the interfaces that calls wait on are there (`stays_up`). The purge of old
keys is left out: it has nothing to do with what the other kernels do.
-/

namespace Avim

open Lib.Octets

namespace Kernel

variable {lib : Libs} {k : Kernel}

theorem sweep_returns {due : Kernel → Waiter → Except Fault Bool} {p : Waiter → Bool}
    (hpicks : Picks due p k.trustedPubkey now)
    (hproceeds : ∀ w ∈ k.waiters, ∀ draws,
      Proceeds lib k.routing k.trustedPubkey draws w.op) :
    ∃ k', sweep lib due k now = .ok k' := by
  have hcontinuable : ∀ (waiters : List Waiter) draws,
      (∀ w ∈ waiters, ∀ draws, Proceeds lib k.routing k.trustedPubkey draws w.op) →
      Continuable lib k.routing k.trustedPubkey draws waiters := by
    intro waiters
    induction waiters with
    | nil => exact fun _ _ => trivial
    | cons w waiters ih =>
      exact fun draws h => ⟨h w List.mem_cons_self draws,
        ih _ fun v hv => h v (List.mem_cons_of_mem _ hv)⟩
  exact (sweepFrom_returns_iff lib hpicks [] rfl rfl (Nat.lt_succ_self _)).mpr
    (hcontinuable _ _ fun w hw => hproceeds w (List.mem_filter.mp hw).1)

theorem sweep_answered_returns (hk : k.trustedPubkey.Filled) (packet : AvPacket) (now : Int)
    (hproceeds : ∀ w ∈ k.waiters, ∀ draws,
      Proceeds lib k.routing k.trustedPubkey draws w.op) :
    ∃ k', sweep lib (answered packet) k now = .ok k' := by
  obtain ⟨found, hfound, -⟩ := hk.find (avAddressToString packet.src)
  cases found with
  | none => exact ⟨k, sweep_unanswered rfl hfound now⟩
  | some key => exact sweep_returns (picks_answered rfl hfound now) hproceeds

/-- The runtime says that a type name is too long, and nothing else can fail. -/
theorem runPosted_returns
    (hnamed : ∀ packet, (lib.pb.getTypeName (lib.pb.ofAvPacket packet)).length < 2 ^ 31)
    (k : Kernel) : ∃ k', runPosted lib k = .ok k' := by
  unfold runPosted
  split
  · exact ⟨_, rfl⟩
  · rename_i port ec value posted _
    split
    · unfold writerPopped
      split
      · exact ⟨_, rfl⟩
      · have hname : ¬ int32 (lib.pb.getTypeName (lib.pb.ofAvPacket value.1)).length < 0 := by
          rw [int32_of_lt (hnamed value.1)]
          omega
        rw [encode]
        dsimp only
        rw [if_neg hname]
        split
        · exact ⟨_, rfl⟩
        · exact ⟨_, rfl⟩
    · exact ⟨_, rfl⟩
  · exact ⟨_, rfl⟩

end Kernel

namespace Internet

open Kernel

variable {lib : Libs} {s s' : Internet}

theorem Grows.refl (s : Internet) : Grows s s :=
  ⟨fun _ _ h => h, fun _ => List.Subset.refl _, fun _ => List.Subset.refl _⟩

theorem Grows.trans (h : Grows s s') (h' : Grows s' s'') : Grows s s'' :=
  ⟨fun n avif howned => h'.owned n avif (h.owned n avif howned),
    fun n => List.Subset.trans (h.calls n) (h'.calls n),
    fun n => List.Subset.trans (h.trace n) (h'.trace n)⟩

theorem Configured.before (h : Configured lib s') (hgrows : Grows s s') : Configured lib s where
  parsed n avif howned := h.parsed n avif (hgrows.owned n avif howned)
  keyPair n avif howned := h.keyPair n avif (hgrows.owned n avif howned)
  exponent n avif howned := h.exponent n avif (hgrows.owned n avif howned)
  certified n avif howned := h.certified n avif (hgrows.owned n avif howned)
  oneKey n avif avif' howned howned' :=
    h.oneKey n avif avif' (hgrows.owned n avif howned) (hgrows.owned n avif' howned')
  apart m n avif avif' howned howned' :=
    h.apart m n avif avif' (hgrows.owned m avif howned) (hgrows.owned n avif' howned')
  fits m n avif peer howned hpeer call hcall :=
    h.fits m n avif peer (hgrows.owned m avif howned) (hgrows.owned n peer hpeer) call
      (hgrows.calls m hcall)

-- ---------------------------------------------------------------------------
-- Calls
-- ---------------------------------------------------------------------------

theorem Configured.sendable (h : Configured lib s) (hlearned : Genuine lib s op.target key)
    (hvalid : Valid r op.interface) (howned : Owns (s.kernels n) op.interface.avif)
    (hcall : (op.target, op.data) ∈ s.calls n) (draws : Nat) :
    Kernel.Sendable lib r key draws op := by
  obtain ⟨m, peer, hpeer, -, rfl⟩ := h.genuine hlearned
  obtain ⟨first, second, hfirst, hsecond, -⟩ := decryptPayload_sealed (h.keyPair n _ howned)
    (h.keyPair m peer hpeer) (h.fits n m _ peer howned hpeer _ hcall) draws
  refine ⟨(rsaPublicEncrypt_returns_iff _ _ _ _).mp ⟨first, hfirst⟩, hvalid, ?_⟩
  intro other hother
  cases hfirst.symm.trans hother
  exact (rsaPrivateEncrypt_returns_iff _ _ _).mp ⟨second, hsecond⟩

theorem Configured.proceeds (h : Configured lib s) (hdrawn : Drawn lib (sources lib s n) heard k)
    (hk : k.trustedPubkey.Filled) (hvalid : Valid k.routing op.interface)
    (hcall : (op.target, op.data) ∈ s.calls n) (draws : Nat) :
    Proceeds lib k.routing k.trustedPubkey draws op := by
  obtain ⟨found, hfound, -⟩ := hk.find op.target
  rw [Proceeds, hfound]
  cases found with
  | some key =>
    exact h.sendable (hdrawn.found hfound) hvalid (hdrawn.avifs _ _ hvalid.1) hcall draws
  | none => exact fun _ => hvalid

theorem Configured.resumes (h : Configured lib s) (hdrawn : Drawn lib (sources lib s n) heard k)
    (hk : k.trustedPubkey.Filled) (hheld : Held k) :
    ∀ w ∈ k.waiters, ∀ draws, Proceeds lib k.routing k.trustedPubkey draws w.op :=
  fun w hw => h.proceeds hdrawn hk (hheld w hw) (hdrawn.waiters w hw)

theorem Configured.asyncSendto (h : Configured lib s)
    (hdrawn : Drawn lib (sources lib s n) heard k) (hk : Standing k)
    (hcall : (target, data) ∈ s.calls n) (now : Int) :
    ∃ k', asyncSendto lib k target data now = .ok k' := by
  obtain ⟨found, hfound⟩ := hk.selectRoute_returns lib.regex target
  cases found with
  | none =>
    rw [Kernel.asyncSendto, hfound]
    exact ⟨_, rfl⟩
  | some interface =>
    have hproceeds : Proceeds lib k.routing k.trustedPubkey k.draws
        ⟨k.sends, target, data, interface, 0⟩ :=
      h.proceeds hdrawn hk.filled (hk.valid_selectRoute hfound) hcall k.draws
    rw [Kernel.asyncSendto, hfound]
    exact (sendOrAsk_returns_iff { k with sends := k.sends + 1 } _ now).mpr hproceeds

-- ---------------------------------------------------------------------------
-- Packets
-- ---------------------------------------------------------------------------

theorem Configured.delivers (h : Configured lib s)
    (hdrawn : Drawn lib (sources lib s n) (Travelled lib s) k) (hk : Standing k)
    (hheard : Travelled lib s packet) (hcame : Owns (s.kernels n) came)
    (hchecked : checkKey lib k packet now = .ok checked) :
    ∃ handled, deliverOrForward lib checked packet came now = .ok handled := by
  obtain ⟨m, cause, origin, hops, -, horiginal, rfl, -⟩ := hheard
  rw [deliverOrForward_returns_iff hk hchecked]
  have hask : text "pkask" ≠ text "pkreply" := by decide
  have hmessage : text "avim" ≠ text "pkreply" := by decide
  cases horiginal with
  | pkask send target howned =>
    exact ⟨fun _ hreply => absurd hreply hask, fun _ hno => absurd rfl hno⟩
  | @pkreply avif target howned =>
    exact ⟨fun _ _ => (certificateKey_returns_iff lib avif.cert).mp
      ⟨_, h.certified m avif howned⟩, fun _ _ hno => absurd rfl hno⟩
  | @data avif target second send howned hseals =>
    refine ⟨fun _ hreply => absurd hreply hmessage, fun hme _ _ => ?_⟩
    obtain ⟨me, hmine, huser, hdomain⟩ := isToMe_owned hdrawn hme
    obtain ⟨data, -, hdecrypt⟩ := h.decrypts howned hseals hcame hmine huser hdomain
    refine (decryptPayload_returns_iff lib _ _).mp ⟨data, ?_⟩
    rw [carriedKey_dataPacket (h.exponent m avif howned)]
    exact hdecrypt

theorem Configured.process (h : Configured lib s)
    (hdrawn : Drawn lib (sources lib s n) (Travelled lib s) k) (hk : Standing k) (hheld : Held k)
    (hheard : Travelled lib s packet) (hcame : Owns (s.kernels n) came) (now : Int) :
    ∃ k', processRecivedPacket lib k packet came now = .ok k' := by
  obtain ⟨checked, hchecked⟩ := checkKey_returns lib hk packet now
  obtain ⟨handled, hhandled⟩ := h.delivers hdrawn hk hheard hcame hchecked
  have hparts := handled_of_delivered hchecked hhandled
  have hclosed := closed_sources lib s n
  have hdrawn' : Drawn lib (sources lib s n) (Travelled lib s) handled := by
    have hlooked := hdrawn.checkKey hclosed hheard hchecked
    obtain ⟨hme, hdelivered⟩ | ⟨-, hforwarded⟩ := deliverOrForward_cases hchecked hhandled
    · exact hlooked.toMe hclosed hheard hcame ((checkKey_isToMe hchecked packet.dest).trans hme)
        hdelivered
    · exact hlooked.forward hheard hforwarded
  have hfilled := hparts.filled hk.filled
  have hheld' : Held handled := hheld.of_same hparts.waiters hparts.routing
  obtain ⟨k', hswept⟩ := sweep_answered_returns hfilled packet now
    (h.resumes hdrawn' hfilled hheld')
  refine ⟨k', ?_⟩
  rw [processRecivedPacket, hchecked, ok_bind, hhandled, ok_bind, hswept]

-- ---------------------------------------------------------------------------
-- Runs
-- ---------------------------------------------------------------------------

theorem grows_next (lib : Libs) (s : Internet) (event : InternetEvent) :
    Grows s (next lib s event) := by
  cases event with
  | node n event =>
    simp only [next]
    split
    · exact .refl s
    · exact grows_proceed lib s n event
  | carry m index n port =>
    simp only [next]
    split
    · exact grows_proceed lib s n _
    · exact .refl s

theorem grows_run (lib : Libs) (events later : List InternetEvent) :
    Grows (run lib events) (run lib (events ++ later)) := by
  have hgrows : ∀ s, Grows s (later.foldl (next lib) s) := by
    induction later with
    | nil => exact .refl
    | cons event later ih => exact fun s => (grows_next lib s event).trans (ih _)
  rw [run, run, List.foldl_append]
  exact hgrows _

/-- In an internetwork that is set up as it should be, whatever happens next
to a kernel whose calls wait on interfaces that are there, other than a purge,
does not bring it down. -/
theorem stays_up (lib : Libs) (events : List InternetEvent) (n : Nat) (event : Event)
    (hnamed : ∀ packet, (lib.pb.getTypeName (lib.pb.ofAvPacket packet)).length < 2 ^ 31)
    (hconfigured : Configured lib (run lib (events ++ [.node n event])))
    (hheld : Held ((run lib events).kernels n)) (hpurge : ∀ now, event ≠ .timer2 now) :
    ∃ k', ((run lib events).kernels n).step lib event = .ok k' := by
  have hconnected := connected_run lib events
  have hdrawn := hconnected.drawn n
  have hk := (hconnected.reached n).standing
  have hnext : run lib (events ++ [.node n event]) = next lib (run lib events) (.node n event) :=
    List.foldl_concat ..
  have hgrows := grows_next lib (run lib events) (.node n event)
  rw [hnext] at hconfigured
  have hbefore := hconfigured.before hgrows
  cases event with
  | asyncSendto target data now =>
    refine hconfigured.asyncSendto (n := n) (hdrawn.mono (hgrows.sources n) fun _ => hgrows.onward)
      hk ?_ now
    simp [next, Session.bringsPacket, proceed, calledBy]
  | process index now =>
    simp only [step]
    split
    · rename_i packet came hat
      obtain ⟨hheard, hcame⟩ := hdrawn.spawned _ (List.mem_of_getElem? hat)
      have hstarted : Drawn lib (sources lib (run lib events) n) (Travelled lib (run lib events))
          { (run lib events).kernels n with
            spawned := ((run lib events).kernels n).spawned.eraseIdx index } :=
        ⟨hdrawn.avifs, hdrawn.keys, hdrawn.waiters,
          fun other hother => hdrawn.spawned other (List.mem_of_mem_eraseIdx hother), hdrawn.trace⟩
      exact hbefore.process hstarted ⟨hk.filled, hk.wellFormed⟩ hheld hheard hcame now
    · exact ⟨_, rfl⟩
  | timer1 now =>
    exact sweep_returns (picks_expired _ now) (hbefore.resumes hdrawn hk.filled hheld)
  | runPosted => exact runPosted_returns hnamed _
  | timer2 now => exact absurd rfl (hpurge now)
  | startRunner port => exact portEvent_returns _ _ _ _
  | read port packet => exact portEvent_returns _ _ _ _
  | startWriter port => exact portEvent_returns _ _ _ _
  | writeDone port written =>
    simp only [step]
    split
    · split
      · exact ⟨_, rfl⟩
      · exact ⟨_, rfl⟩
    · exact ⟨_, rfl⟩
  | _ => exact ⟨_, rfl⟩

theorem stays_up_sample :
    ∃ k', ((run exchangeLibs (exchangeRun.take 9)).kernels 0).step exchangeLibs
      (.process 0 2) = .ok k' := by
  have hheld : ∀ w ∈ ((run exchangeLibs (exchangeRun.take 9)).kernels 0).waiters,
      Valid ((run exchangeLibs (exchangeRun.take 9)).kernels 0).routing
        w.op.interface := by
    decide +kernel
  have hgrows := grows_run exchangeLibs (exchangeRun.take 10) (exchangeRun.drop 10)
  rw [List.take_append_drop] at hgrows
  exact stays_up exchangeLibs (exchangeRun.take 9) 0 (.process 0 2)
    (fun _ => show (text "proto.avPacket").length < 2 ^ 31 by decide)
    (configured_exchangeRun.before hgrows) hheld (fun _ => by simp)

end Internet

end Avim
