import Avim.Delivery
import Avim.Keys

/-!
# In which order packets leave

With a key on record a call enqueues its data packet at once. Without one it
waits, and the sweep that finds the key resumes the calls in the order of the
list. A call that asks again does so at the end of the list: when it is
overdue and a later call to the same target is not, the two change places.
Where that does not happen, packets to one target leave in the order of the
calls (`sent_in_order`).
-/

namespace Avim.Kernel

open Lib.Octets

variable {lib : Libs} {k k' : Kernel}

/-- The targets of the calls in a run: call `i` is for the `i`-th. -/
def targets (events : List Event) : List Bytes :=
  events.filterMap fun
    | .asyncSendto target _ _ => some target
    | _ => none

/-- Of two calls to one target whose data packets were enqueued, the earlier
call's packet was enqueued first. -/
def InOrder (events : List Event) (k : Kernel) : Prop :=
  (dataSends k.trace).Pairwise fun a b => (targets events)[a]? = (targets events)[b]? → a < b

/-- A timer does not let a call ask again that has, behind it in the list, a
call to the same target which is not overdue. -/
def KeepsPlace (k : Kernel) : Event → Prop
  | .timer1 now => k.waiters.Pairwise fun a b =>
    a.op.target = b.op.target → overdue now a → a.op.asks < 3 → overdue now b
  | _ => True

instance (k : Kernel) : DecidablePred (KeepsPlace k)
  | .timer1 now => inferInstanceAs (Decidable (k.waiters.Pairwise fun a b =>
    a.op.target = b.op.target → overdue now a → a.op.asks < 3 → overdue now b))
  | .addInterface .. | .addRoute .. | .getIfname .. | .asyncSendto .. | .asyncRecvfrom
  | .startRunner .. | .read .. | .process .. | .startWriter .. | .writeDone .. | .runPosted
  | .timer2 .. => .isTrue trivial

-- ---------------------------------------------------------------------------
-- Calls in order
-- ---------------------------------------------------------------------------

/-- Calls to one target are in order among those that wait, among those that
were sent, and nobody who waits is ahead of one that was sent. -/
structure Ordered (called : List Bytes) (k : Kernel) : Prop where
  sends : k.sends = called.length
  known : ∀ w ∈ k.waiters, called[w.op.send]? = some w.op.target
  counted : ∀ s ∈ dataSends k.trace, s < called.length
  waiting : k.waiters.Pairwise fun a b => a.op.target = b.op.target → a.op.send < b.op.send
  sent : (dataSends k.trace).Pairwise fun a b => called[a]? = called[b]? → a < b
  ahead : ∀ s ∈ dataSends k.trace, ∀ w ∈ k.waiters, called[s]? = some w.op.target → s < w.op.send

theorem ordered_initial : Ordered [] initial := by
  refine ⟨rfl, ?_, ?_, .nil, .nil, ?_⟩
  · intro w hw
    cases hw
  · intro s hs
    cases hs
  · intro s hs
    cases hs

theorem Ordered.of_same (h : Ordered called k) (hwaiters : k'.waiters = k.waiters)
    (hsent : dataSends k'.trace = dataSends k.trace) (hsends : k'.sends = k.sends) :
    Ordered called k' := by
  constructor
  · rw [hsends]
    exact h.sends
  · rw [hwaiters]
    exact h.known
  · rw [hsent]
    exact h.counted
  · rw [hwaiters]
    exact h.waiting
  · rw [hsent]
    exact h.sent
  · rw [hsent, hwaiters]
    exact h.ahead

theorem Ordered.lt_of_waiting (h : Ordered called k) (hw : w ∈ k.waiters) :
    w.op.send < called.length := by
  obtain ⟨hlt, -⟩ := List.getElem?_eq_some_iff.mp (h.known w hw)
  exact hlt

theorem Ordered.call (h : Ordered called k) (target : Bytes) :
    Ordered (called ++ [target]) { k with sends := k.sends + 1 } := by
  have hold : ∀ s, s < called.length → (called ++ [target])[s]? = called[s]? := by
    intro s hs
    exact List.getElem?_append_left hs
  refine ⟨by simp [h.sends], ?_, ?_, h.waiting, ?_, ?_⟩
  · intro w hw
    rw [hold _ (h.lt_of_waiting hw)]
    exact h.known w hw
  · intro s hs
    have hlt := h.counted s hs
    simp only [List.length_append, List.length_singleton]
    omega
  · refine h.sent.imp_of_mem ?_
    intro a b ha hb hab
    rw [hold a (h.counted a ha), hold b (h.counted b hb)]
    exact hab
  · intro s hs w hw
    rw [hold s (h.counted s hs)]
    exact h.ahead s hs w hw

theorem Ordered.send (h : Ordered called k) (hcalled : called[s]? = some target)
    (hnewest : ∀ a ∈ dataSends k.trace, a < s) (hnobody : ∀ w ∈ k.waiters, w.op.target ≠ target)
    (hwaiters : k'.waiters = k.waiters) (hsent : dataSends k'.trace = dataSends k.trace ++ [s])
    (hsends : k'.sends = k.sends) : Ordered called k' := by
  refine ⟨hsends.trans h.sends, hwaiters ▸ h.known, ?_, hwaiters ▸ h.waiting, ?_, ?_⟩
  · rw [hsent]
    intro a ha
    rcases List.mem_append.mp ha with ha | ha
    · exact h.counted a ha
    · rw [List.mem_singleton.mp ha]
      exact (List.getElem?_eq_some_iff.mp hcalled).1
  · rw [hsent]
    refine List.pairwise_append.mpr ⟨h.sent, List.pairwise_singleton _ _, ?_⟩
    intro a ha b hb _
    rw [List.mem_singleton.mp hb]
    exact hnewest a ha
  · rw [hsent, hwaiters]
    intro a ha w hw htarget
    rcases List.mem_append.mp ha with ha | ha
    · exact h.ahead a ha w hw htarget
    · rw [List.mem_singleton.mp ha, hcalled] at htarget
      exact absurd (Option.some.inj htarget).symm (hnobody w hw)

theorem Ordered.wait (h : Ordered called k) (hcalled : called[w.op.send]? = some w.op.target)
    (hnewest : ∀ a ∈ dataSends k.trace, a < w.op.send)
    (hbehind : ∀ v ∈ k.waiters, v.op.send < w.op.send) (hwaiters : k'.waiters = k.waiters ++ [w])
    (hsent : dataSends k'.trace = dataSends k.trace) (hsends : k'.sends = k.sends) :
    Ordered called k' := by
  refine ⟨hsends.trans h.sends, ?_, hsent ▸ h.counted, ?_, hsent ▸ h.sent, ?_⟩
  · rw [hwaiters]
    intro v hv
    rcases List.mem_append.mp hv with hv | hv
    · exact h.known v hv
    · rw [List.mem_singleton.mp hv]
      exact hcalled
  · rw [hwaiters]
    refine List.pairwise_append.mpr ⟨h.waiting, List.pairwise_singleton _ _, ?_⟩
    intro a ha b hb _
    rw [List.mem_singleton.mp hb]
    exact hbehind a ha
  · rw [hsent, hwaiters]
    intro a ha v hv htarget
    rcases List.mem_append.mp hv with hv | hv
    · exact h.ahead a ha v hv htarget
    · rw [List.mem_singleton.mp hv]
      exact hnewest a ha

theorem Ordered.asyncSendto (h : Ordered called k) (hattended : Attended k)
    (hcall : asyncSendto lib k target data now = .ok k') : Ordered (called ++ [target]) k' := by
  have hcalled := h.call target
  obtain ⟨-, rfl⟩ | ⟨interface, -, hsend⟩ := asyncSendto_cases hcall
  · exact hcalled.of_same rfl (by simp [dataSends]) rfl
  · have hsends := (sendOrAsk_same hsend).2.2.2
    have hnew : (called ++ [target])[k.sends]? = some target := by simp [h.sends]
    have hnewest : ∀ a ∈ dataSends k.trace, a < k.sends := by
      rw [h.sends]
      exact h.counted
    obtain ⟨key, link, packet, hkey, hsame, htrace⟩ | ⟨link, packet, -, -, hsame, htrace⟩ |
      ⟨-, -, hsame, htrace⟩ := sendOrAsk_outcome hsend
    · -- nobody waits for a key that the new call has found
      refine hcalled.send hnew hnewest ?_ hsame (by simp [htrace, dataSends]) hsends
      rintro w hw rfl
      have hnone := hattended w hw
      cases hkey.symm.trans hnone
    · refine hcalled.wait hnew hnewest ?_ hsame (by simp [htrace, dataSends]) hsends
      intro v hv
      rw [renew, h.sends]
      exact h.lt_of_waiting hv
    · exact hcalled.of_same hsame (by simp [htrace, dataSends]) hsends

theorem dataSends_wentOn (h : List.Forall₂ WentOn resumed sent) :
    dataSends sent = resumed.map (·.op.send) := by
  induction h with
  | nil => rfl
  | cons hwent _ ih =>
    obtain ⟨link, packet, rfl⟩ := hwent
    exact congrArg (_ :: ·) ih

theorem Ordered.process (h : Ordered called k) (hk : Standing k)
    (hprocess : processRecivedPacket lib k packet avif now = .ok k') : Ordered called k' := by
  obtain ⟨handled, hhandled, -, hsends, ⟨-, rfl⟩ | ⟨key, sent, -, hwaiters, htrace, hwent⟩⟩ :=
    processRecivedPacket_swept hk hprocess
  · obtain ⟨new, hnew, hnone⟩ := hhandled.sent
    exact h.of_same hhandled.waiters (by rw [hnew, dataSends_append, hnone, List.append_nil])
      hsends
  · have hsent : dataSends k'.trace = dataSends k.trace ++
        (k.waiters.filter (·.op.target = avAddressToString packet.src)).map (·.op.send) := by
      obtain ⟨new, hnew, hnone⟩ := hhandled.sent
      rw [htrace, hnew, dataSends_append, dataSends_append, hnone, List.append_nil,
        dataSends_wentOn hwent]
    have hresumed : ∀ s ∈ (k.waiters.filter (·.op.target = avAddressToString packet.src)).map
        (·.op.send),
        ∃ w ∈ k.waiters, w.op.target = avAddressToString packet.src ∧ w.op.send = s := by
      intro s hs
      obtain ⟨w, hw, rfl⟩ := List.mem_map.mp hs
      obtain ⟨hw, htarget⟩ := List.mem_filter.mp hw
      exact ⟨w, hw, by simpa using htarget, rfl⟩
    refine ⟨hsends.trans h.sends, ?_, ?_, ?_, ?_, ?_⟩
    · rw [hwaiters]
      intro w hw
      exact h.known w (List.mem_filter.mp hw).1
    · rw [hsent]
      intro s hs
      rcases List.mem_append.mp hs with hs | hs
      · exact h.counted s hs
      · obtain ⟨w, hw, -, rfl⟩ := hresumed s hs
        exact h.lt_of_waiting hw
    · rw [hwaiters]
      exact h.waiting.filter _
    · rw [hsent]
      refine List.pairwise_append.mpr ⟨h.sent, ?_, ?_⟩
      · refine List.pairwise_map.mpr ((h.waiting.filter _).imp_of_mem ?_)
        intro a b ha hb hab htarget
        rw [h.known a (List.mem_filter.mp ha).1, h.known b (List.mem_filter.mp hb).1] at htarget
        exact hab (Option.some.inj htarget)
      · intro a ha b hb htarget
        obtain ⟨w, hw, -, rfl⟩ := hresumed b hb
        exact h.ahead a ha w hw (htarget.trans (h.known w hw))
    · rw [hsent, hwaiters]
      intro s hs v hv htarget
      obtain ⟨hv, hother⟩ := List.mem_filter.mp hv
      rcases List.mem_append.mp hs with hs | hs
      · exact h.ahead s hs v hv htarget
      · obtain ⟨w, hw, hw', rfl⟩ := hresumed s hs
        rw [h.known w hw, hw'] at htarget
        exact absurd (Option.some.inj htarget).symm (by simpa using hother)

theorem Ordered.timer1 (h : Ordered called k) (hattended : Attended k)
    (hplace : KeepsPlace k (.timer1 now)) (hsweep : sweep lib (expired now) k now = .ok k') :
    Ordered called k' := by
  obtain ⟨hwaiters, hsent⟩ := sweep_expired hattended hsweep
  have hmem : ∀ w ∈ k'.waiters, ∃ v ∈ k.waiters, v.op.target = w.op.target ∧
      v.op.send = w.op.send := by
    intro w hw
    rw [hwaiters] at hw
    rcases List.mem_append.mp hw with hw | hw
    · exact ⟨w, (List.mem_filter.mp hw).1, rfl, rfl⟩
    · obtain ⟨v, hv, rfl⟩ := List.mem_map.mp hw
      exact ⟨v, (List.mem_filter.mp hv).1, rfl, rfl⟩
  refine ⟨(sweep_same hsweep).2.2.2.trans h.sends, ?_, ?_, ?_, ?_, ?_⟩
  · intro w hw
    obtain ⟨v, hv, htarget, hsend⟩ := hmem w hw
    rw [← htarget, ← hsend]
    exact h.known v hv
  · rw [hsent]
    exact h.counted
  · rw [hwaiters]
    refine List.pairwise_append.mpr ⟨h.waiting.filter _, ?_, ?_⟩
    · exact List.pairwise_map.mpr (h.waiting.filter _)
    · -- of two calls to one target, one that stays and one that asks again, the
      -- one that stays comes first already
      have hstays : ∀ a ∈ k.waiters, ∀ b ∈ k.waiters, overdue now a = false →
          overdue now b = true → b.op.asks < 3 → a.op.target = b.op.target →
          a.op.send < b.op.send := by
        refine List.Pairwise.forall_of_forall_of_flip ?_ (h.waiting.imp ?_) (hplace.imp ?_)
        · intro a _ hin hout
          exact absurd (hin.symm.trans hout) (by decide)
        · intro a b hab _ _ _ htarget
          exact hab htarget
        · intro b a hover hin hout hasks htarget
          exact absurd (hin.symm.trans (hover htarget.symm hout hasks)) (by decide)
      intro a ha b hb htarget
      obtain ⟨v, hv, rfl⟩ := List.mem_map.mp hb
      simp only [List.mem_filter, Bool.not_eq_true', Bool.and_eq_true, decide_eq_true_eq] at ha hv
      exact hstays a ha.1 v hv.1 ha.2 hv.2.1 hv.2.2 htarget
  · rw [hsent]
    exact h.sent
  · rw [hsent]
    intro s hs w hw htarget
    obtain ⟨v, hv, hsame, hsend⟩ := hmem w hw
    rw [← hsend]
    exact h.ahead s hs v hv (htarget.trans (by rw [hsame]))

-- ---------------------------------------------------------------------------
-- Runs
-- ---------------------------------------------------------------------------

theorem targets_append (events : List Event) (event : Event) :
    targets (events ++ [event]) = targets events ++ targets [event] := by
  simp [targets]

theorem Ordered.step (h : Ordered (targets events) k) (hk : Standing k) (hattended : Attended k)
    (hplace : KeepsPlace k event) (hstep : step lib k event = .ok k') :
    Ordered (targets (events ++ [event])) k' := by
  rw [targets_append]
  obtain hidle | ⟨target, data, now, rfl, hcall⟩ | ⟨index, now, packet, avif, rfl, -, hprocess⟩ |
    ⟨now, rfl, hsweep⟩ | ⟨now, store, rfl, -, rfl⟩ := step_cases hstep
  · have hnone : targets [event] = [] := by
      cases event with
      | asyncSendto target data now =>
        have hcounted := (asyncSendto_same hstep).2.2.2
        rw [hidle.sends] at hcounted
        omega
      | _ => rfl
    rw [hnone, List.append_nil]
    exact h.of_same hidle.waiters hidle.sent hidle.sends
  · exact h.asyncSendto hattended hcall
  · have hstarted : Ordered (targets events) { k with spawned := k.spawned.eraseIdx index } :=
      h.of_same rfl rfl rfl
    simpa [targets] using hstarted.process ⟨hk.filled, hk.wellFormed⟩ hprocess
  · simpa [targets] using h.timer1 hattended hplace hsweep
  · have hpurged : Ordered (targets events) { k with trustedPubkey := store } :=
      h.of_same rfl rfl rfl
    simpa [targets] using hpurged

/-- In every run whose timers keep the places of calls to one target, packets
to one target have left in the order of the calls, in every state reached. -/
theorem sent_in_order (lib : Libs) (events : List Event)
    (hplace : Lib.Run.Along (step lib) (fun k event _ => KeepsPlace k event) initial events) :
    Lib.Run.AlwaysSince (step lib) InOrder [] initial events := by
  have hstart : Ordered (targets []) initial := ordered_initial
  refine Lib.Run.alwaysSince_of_along
    (J := fun done k => Ordered (targets done) k ∧ Standing k ∧ Attended k)
    ?_ (fun _ _ h => h.1.sent) ⟨hstart, standing_initial, attended_initial⟩ hplace
  rintro done k event k' hstep ⟨hordered, hk, hattended⟩ hkeeps
  exact ⟨hordered.step hk hattended hkeeps hstep, hk.step hstep,
    (attended_step hk hattended hstep).1⟩

def twoCalls (sweepAt : Int) : List Event :=
  [.addInterface (samplePeer sampleKey), .addRoute (text ".+@.+") [] (text "eth0") 100,
    .startRunner 0, .asyncSendto (text "a@x") (text "1") 0,
    .asyncSendto (text "a@x") (text "2") 5000000, .timer1 sweepAt,
    .read 0 (some { firstContact with publickey := some (minBE sampleKey.n) }),
    .process 0 (sweepAt + 1)]

theorem sent_in_order_late :
    Lib.Run.AlwaysSince (step sampleLibs) InOrder [] initial (twoCalls 14000000) ∧
      dataSends (after sampleLibs (twoCalls 14000000)).trace = [0, 1] :=
  ⟨sent_in_order sampleLibs _ (by decide +kernel), by decide +kernel⟩

/-- Only the first call is overdue; it asks again and leaves second. -/
theorem sent_out_of_order :
    ¬ Lib.Run.AlwaysSince (step sampleLibs) InOrder [] initial (twoCalls 9000000) := by
  intro ha
  have hrun : ((twoCalls 9000000).foldlM (step sampleLibs) initial).map (fun k : Kernel => decide
      (dataSends k.trace = [1, 0])) = .ok true := by
    decide +kernel
  obtain ⟨k, hk, hfacts⟩ := map_returns hrun
  have hsent : InOrder (twoCalls 9000000) k := ha.last hk
  rw [InOrder, of_decide_eq_true hfacts] at hsent
  exact absurd hsent (by decide +kernel)

end Avim.Kernel
