import Avim.Waiters

/-!
# What becomes of a call

Between its start and its end a call runs as often as it looks for a key: once
when it is made, and once for each of its waits. `Course` says what it has done
by then, whatever else went on in the kernel, and `call_outcome` reads off what
it enqueued and what it told its caller.
-/

namespace Avim.Kernel

open Lib.Octets

-- ---------------------------------------------------------------------------
-- What is to be shown
-- ---------------------------------------------------------------------------

def resumptions (told : List Invocation) (send : Nat) : List Invocation :=
  told.filter (·.waiter.op.send = send)

def asksOf (send : Nat) : Effect → Bool
  | .enqueued _ (.pkask other) _ => other = send
  | _ => false

def sendsOf (send : Nat) : Effect → Bool
  | .enqueued _ (.data other) _ => other = send
  | _ => false

section

variable (lib : Libs)

/-- The packet carries `data` under the key that `m` finds for `target`. -/
def EncryptedIn (m : Kernel) (target data : Bytes) (packet : AvPacket) : Prop :=
  ∃ key avif firstPubencode secondSign,
    m.trustedPubkey.findRSAPubkey target = .ok (some key) ∧
    rsaPublicEncrypt lib.ossl m.draws key data = .ok firstPubencode ∧
    rsaPrivateEncrypt lib.ossl avif.rsaKey firstPubencode = .ok secondSign ∧
    packet = dataPacket avif target secondSign

/-- What became in `k` of the call that was made in `k₀`. -/
structure Outcome (k₀ : Kernel) (target data : Bytes) (told : List Invocation) (k : Kernel) :
    Prop where
  asked : k.trace.countP (asksOf k₀.sends) ≤ 3
  sent : k.trace.countP (sendsOf k₀.sends) ≤ 1
  completed : (tellings k.trace k₀.sends).length ≤ 1
  unreachable : .networkUnreachable ∈ tellings k.trace k₀.sends ↔
    k₀.routing.selectRoute lib.regex target = .ok none ∨
    ∃ i, (resumptions told k₀.sends)[2]? = some i ∧
      i.found.trustedPubkey.findRSAPubkey target = .ok none
  unsent : .networkUnreachable ∈ tellings k.trace k₀.sends →
    k.trace.countP (sendsOf k₀.sends) = 0
  -- it is enqueued right after one of the lookups, with the key found there
  encrypted : ∀ link packet, .enqueued link (.data k₀.sends) packet ∈ k.trace →
    ∃ m ∈ k₀ :: (resumptions told k₀.sends).map (·.found),
      m.trace ++ [.enqueued link (.data k₀.sends) packet] <+: k.trace ∧
      EncryptedIn lib m target data packet

end

-- ---------------------------------------------------------------------------
-- The course of a call
-- ---------------------------------------------------------------------------

def waitingOf (k : Kernel) (send : Nat) : List Waiter := k.waiters.filter (·.op.send = send)

def effectsOf (k : Kernel) (send : Nat) : List Effect := k.trace.filter (callOf · = some send)

/-- All it has done is to ask, `n` times. -/
def Asked (send n : Nat) (effects : List Effect) : Prop :=
  effects.length = n ∧ ∀ effect ∈ effects, asksOf send effect = true

/-- Where the call is that was made in `k₀`, after the waits in `own`. -/
inductive Course (lib : Libs) (k₀ : Kernel) (target data : Bytes) (own : List Invocation)
    (k : Kernel) : Prop
  | unrouted (hroute : k₀.routing.selectRoute lib.regex target = .ok none) (hown : own = [])
      (hwaiting : waitingOf k k₀.sends = [])
      (heffects : effectsOf k k₀.sends = [.completed k₀.sends .networkUnreachable])
  | waiting (w : Waiter) (hroute : k₀.routing.selectRoute lib.regex target ≠ .ok none)
      (hwaiting : waitingOf k k₀.sends = [w]) (htarget : w.op.target = target)
      (hdata : w.op.data = data) (hasks : w.op.asks = own.length + 1) (hown : own.length ≤ 2)
      (heffects : Asked k₀.sends (own.length + 1) (effectsOf k k₀.sends))
  | sent (m : Kernel) (link : Nat) (packet : AvPacket) (asked : List Effect)
      (hroute : k₀.routing.selectRoute lib.regex target ≠ .ok none)
      (hwaiting : waitingOf k k₀.sends = []) (hown : own.length ≤ 3)
      (hlast : (k₀ :: own.map (·.found)).getLast? = some m)
      (htrace : m.trace ++ [.enqueued link (.data k₀.sends) packet] <+: k.trace)
      (hencrypted : EncryptedIn lib m target data packet)
      (hasked : Asked k₀.sends own.length asked)
      (heffects : effectsOf k k₀.sends = asked ++ [.enqueued link (.data k₀.sends) packet])
  | gaveUp (i : Invocation) (asked : List Effect)
      (hroute : k₀.routing.selectRoute lib.regex target ≠ .ok none)
      (hwaiting : waitingOf k k₀.sends = []) (hown : own.length = 3) (hthird : own[2]? = some i)
      (hnone : i.found.trustedPubkey.findRSAPubkey target = .ok none)
      (hasked : Asked k₀.sends 3 asked)
      (heffects : effectsOf k k₀.sends = asked ++ [.completed k₀.sends .networkUnreachable])

variable {lib : Libs} {k k' k₀ : Kernel} {target data : Bytes} {own : List Invocation}

theorem Course.beside (h : Course lib k₀ target data own k)
    (hwaiting : waitingOf k' k₀.sends = waitingOf k k₀.sends)
    (heffects : effectsOf k' k₀.sends = effectsOf k k₀.sends) (htrace : k.trace <+: k'.trace) :
    Course lib k₀ target data own k' := by
  cases h with
  | unrouted hroute hown hw he =>
    exact .unrouted hroute hown (hwaiting.trans hw) (heffects.trans he)
  | waiting w hroute hw htarget hdata hasks hown he =>
    exact .waiting w hroute (hwaiting.trans hw) htarget hdata hasks hown (heffects ▸ he)
  | sent m link packet asked hroute hw hown hlast hm hencrypted hasked he =>
    exact .sent m link packet asked hroute (hwaiting.trans hw) hown hlast (hm.trans htrace)
      hencrypted hasked (heffects.trans he)
  | gaveUp i asked hroute hw hown hthird hnone hasked he =>
    exact .gaveUp i asked hroute (hwaiting.trans hw) hown hthird hnone hasked
      (heffects.trans he)

theorem Asked.concat (h : Asked send n effects) (link : Nat) (packet : AvPacket) :
    Asked send (n + 1) (effects ++ [.enqueued link (.pkask send) packet]) := by
  refine ⟨by simp [h.1], ?_⟩
  intro effect heffect
  rcases List.mem_append.mp heffect with hold | hnew
  · exact h.2 effect hold
  · rw [List.mem_singleton.mp hnew]
    simp [asksOf]

/-- From a lookup of the key to the next wait or to the end. `m` is the state
in which it looks: that of its start, or of the end of its last wait. -/
theorem Course.lookup (hroute : k₀.routing.selectRoute lib.regex target ≠ .ok none)
    (hlast : (k₀ :: own.map (·.found)).getLast? = some m)
    (hstore : k.trustedPubkey = m.trustedPubkey) (hdraws : k.draws = m.draws)
    (htrace : k.trace = m.trace) (w : Waiter) (hsend : w.op.send = k₀.sends)
    (htarget : w.op.target = target) (hdata : w.op.data = data) (hasks : w.op.asks = own.length)
    (hown : own.length ≤ 3) (hthird : own.length = 3 → ∃ i, own[2]? = some i ∧ i.found = m)
    (hasked : Asked k₀.sends own.length (effectsOf k k₀.sends))
    (hres : sendOrAsk lib k w.op now = .ok resumed)
    (hwaiting : waitingOf k' k₀.sends = (again k.trustedPubkey now w).toList)
    (hsame : k'.trace = resumed.trace) : Course lib k₀ target data own k' := by
  have heffects : ∀ effect, callOf effect = some k₀.sends → resumed.trace = k.trace ++ [effect] →
      effectsOf k' k₀.sends = effectsOf k k₀.sends ++ [effect] := by
    intro effect hof heq
    rw [effectsOf, effectsOf, hsame, heq, List.filter_append]
    simp [hof]
  obtain ⟨key, -, -, hkey, -⟩ | ⟨link, packet, hnone, hless, -, heq⟩ | ⟨hnone, hmore, -, heq⟩ :=
    sendOrAsk_outcome hres
  · rw [sendOrAsk, hkey, ok_bind] at hres
    obtain ⟨first, avif, second, hfirst, -, hsecond, rfl⟩ := sendData_returns hres
    rw [hsend] at hsame heffects
    refine .sent m avif.id (dataPacket avif w.op.target second) _ hroute ?_ hown hlast ?_ ?_
      hasked (heffects _ rfl rfl)
    · rw [hwaiting, again_eq_none hkey]
      rfl
    · rw [hsame, ← htrace]
      exact List.prefix_refl _
    · rw [hdata] at hfirst
      rw [hstore, htarget] at hkey
      exact ⟨key, avif, first, second, hkey, hdraws ▸ hfirst, hsecond, by rw [htarget]⟩
  · rw [hsend] at heq
    have hagain : again k.trustedPubkey now w = some (renew now w.op) := by
      simp [again, hnone, hless]
    rw [hagain] at hwaiting
    refine .waiting (renew now w.op) hroute hwaiting htarget hdata ?_ (by omega) ?_
    · rw [renew, hasks]
    · rw [heffects _ rfl heq]
      exact hasked.concat _ _
  · rw [hsend] at heq
    have hthree : own.length = 3 := by omega
    obtain ⟨i, hi, hfound⟩ := hthird hthree
    refine .gaveUp i _ hroute ?_ hthree hi ?_ (hthree ▸ hasked) (heffects _ rfl heq)
    · rw [hwaiting, again, if_neg (by simp [hmore])]
      rfl
    · rw [hfound, ← hstore, ← htarget, hnone]

-- ---------------------------------------------------------------------------
-- Whatever else goes on
-- ---------------------------------------------------------------------------

theorem eraseIdx_split {xs : List α} {i : Nat} (hx : xs[i]? = some x) :
    ∃ before after, xs = before ++ x :: after ∧ xs.eraseIdx i = before ++ after := by
  obtain ⟨hlt, hget⟩ := List.getElem?_eq_some_iff.mp hx
  refine ⟨xs.take i, xs.drop (i + 1), ?_, List.eraseIdx_eq_take_drop_succ _ _⟩
  rw [← hget, List.getElem_cons_drop, List.take_append_drop]

theorem Undisturbed.course (h : Undisturbed k k') (hk : Course lib k₀ target data own k) :
    Course lib k₀ target data own k' := by
  obtain ⟨new, htrace, hnew⟩ := h.sent
  refine hk.beside (by rw [waitingOf, waitingOf, h.waiters]) ?_ (htrace ▸ List.prefix_append _ _)
  have hnone : new.filter (callOf · = some k₀.sends) = [] := by
    rw [List.filter_eq_nil_iff]
    intro effect heffect
    simp [hnew effect heffect]
  rw [effectsOf, effectsOf, htrace, List.filter_append, hnone, List.append_nil]

theorem sendOrAsk_callOf (h : sendOrAsk lib k op now = .ok k') :
    ∃ effect, callOf effect = some op.send ∧ k'.trace = k.trace ++ [effect] := by
  obtain ⟨key, link, packet, -, -, heq⟩ | ⟨link, packet, -, -, -, heq⟩ | ⟨-, -, -, heq⟩ :=
    sendOrAsk_outcome h
  · exact ⟨_, rfl, heq⟩
  · exact ⟨_, rfl, heq⟩
  · exact ⟨_, rfl, heq⟩

theorem Course.beside_lookup (hk : Course lib k₀ target data own k)
    (hres : sendOrAsk lib before op now = .ok resumed) (hother : op.send ≠ k₀.sends)
    (hbefore : before.trace = k.trace) (hsame : k'.trace = resumed.trace)
    (hwaiting : waitingOf k' k₀.sends = waitingOf k k₀.sends) :
    Course lib k₀ target data own k' := by
  obtain ⟨effect, hof, heq⟩ := sendOrAsk_callOf hres
  rw [← hsame, hbefore] at heq
  refine hk.beside hwaiting ?_ (heq ▸ List.prefix_append _ _)
  have hnone : [effect].filter (callOf · = some k₀.sends) = [] := by
    simp [hof, hother]
  rw [effectsOf, effectsOf, heq, List.filter_append, hnone, List.append_nil]

theorem filter_again_of_ne (hother : w.op.send ≠ send) (store : KeyStore) (now : Int) :
    (again store now w).toList.filter (·.op.send = send) = [] := by
  rw [List.filter_eq_nil_iff]
  intro v hv
  obtain ⟨rfl, -⟩ := again_eq_some (Option.mem_toList.mp hv)
  simp [renew, hother]

theorem filter_again_of_eq (hsend : w.op.send = send) (store : KeyStore) (now : Int) :
    (again store now w).toList.filter (·.op.send = send) = (again store now w).toList := by
  rw [List.filter_eq_self]
  intro v hv
  obtain ⟨rfl, -⟩ := again_eq_some (Option.mem_toList.mp hv)
  simp [renew, hsend]

theorem Course.beside_call (hk : Course lib k₀ target data own k) (hlt : k₀.sends < k.sends)
    (hcall : asyncSendto lib k other packet now = .ok k') :
    Course lib k₀ target data own k' := by
  have hne : k.sends ≠ k₀.sends := Nat.ne_of_gt hlt
  obtain ⟨-, rfl⟩ | ⟨interface, -, hsend⟩ := asyncSendto_cases hcall
  · refine hk.beside rfl ?_ (List.prefix_append _ _)
    have hnone : [Effect.completed k.sends .networkUnreachable].filter
        (callOf · = some k₀.sends) = [] := by
      simp [callOf, hne]
    rw [effectsOf, record_trace, List.filter_append, hnone, List.append_nil]
    rfl
  · refine hk.beside_lookup hsend hne rfl rfl ?_
    have hwaiters := waiters_sendOrAsk (w := ⟨0, ⟨k.sends, other, packet, interface, 0⟩⟩) hsend
    rw [waitingOf, hwaiters, List.filter_append, filter_again_of_ne hne, List.append_nil]
    rfl

theorem Course.beside_resume (hk : Course lib k₀ target data own k)
    (hw : k.waiters[i]? = some w) (hother : w.op.send ≠ k₀.sends)
    (hres : sendOrAsk lib k w.op now = .ok resumed) :
    Course lib k₀ target data own
      { resumed with waiters := resumed.waiters.eraseIdx i } := by
  refine hk.beside_lookup hres hother rfl rfl ?_
  obtain ⟨before, after, hsplit, herase⟩ := eraseIdx_split hw
  have hwaiters := waiters_resumed hw hres
  rw [waitingOf, waitingOf, hwaiters, List.filter_append, filter_again_of_ne hother,
    List.append_nil, herase, hsplit, List.filter_append, List.filter_append,
    List.filter_cons_of_neg (by simp [hother])]

theorem Asked.not_data (h : Asked send n effects) :
    effects.countP (sendsOf send) = 0 := by
  rw [List.countP_eq_zero]
  intro effect heffect
  have hasks := h.2 effect heffect
  unfold asksOf at hasks
  split at hasks
  · simp [sendsOf]
  · cases hasks

theorem Course.resume (hk : Course lib k₀ target data own k) (hw : k.waiters[i]? = some w)
    (hsend : w.op.send = k₀.sends) (ec : ErrorCode)
    (hres : sendOrAsk lib k w.op now = .ok resumed) :
    Course lib k₀ target data (own ++ [⟨w, ec, k⟩])
      { resumed with waiters := resumed.waiters.eraseIdx i } := by
  have hmem : w ∈ waitingOf k k₀.sends :=
    List.mem_filter.mpr ⟨List.mem_of_getElem? hw, decide_eq_true hsend⟩
  obtain ⟨before, after, hsplit, herase⟩ := eraseIdx_split hw
  cases hk with
  | unrouted hroute hown hwaiting heffects =>
    rw [hwaiting] at hmem
    cases hmem
  | sent m link packet asked hroute hwaiting hown hlast htrace hencrypted hasked heffects =>
    rw [hwaiting] at hmem
    cases hmem
  | gaveUp i asked hroute hwaiting hown hthird hnone hasked heffects =>
    rw [hwaiting] at hmem
    cases hmem
  | waiting v hroute hwaiting htarget hdata hasks hown heffects =>
    rw [hwaiting, List.mem_singleton] at hmem
    subst hmem
    have hlast : (k₀ :: (own ++ [Invocation.mk w ec k]).map (·.found)).getLast? = some k := by
      rw [List.map_append, ← List.cons_append]
      exact List.getLast?_concat
    have hmore : (own ++ [Invocation.mk w ec k]).length = own.length + 1 := by simp
    refine Course.lookup hroute hlast rfl rfl rfl w hsend htarget hdata (by omega) (by omega) ?_
      (by simpa using heffects) hres ?_ rfl
    · intro hthree
      have hlength : own.length = 2 := by simpa using hthree
      refine ⟨⟨w, ec, k⟩, ?_, rfl⟩
      rw [← hlength, List.getElem?_concat_length]
    · -- nobody else waits for this call
      have hnobody : (before ++ after).filter (·.op.send = k₀.sends) = [] := by
        have hlength := congrArg List.length hwaiting
        rw [waitingOf, hsplit, List.filter_append, List.filter_cons_of_pos (by simp [hsend]),
          List.length_append, List.length_cons, List.length_singleton] at hlength
        rw [List.filter_append, List.append_eq_nil_iff, ← List.length_eq_zero_iff,
          ← List.length_eq_zero_iff]
        omega
      have hwaiters := waiters_resumed hw hres
      rw [waitingOf, hwaiters, List.filter_append, herase, hnobody,
        filter_again_of_eq hsend, List.nil_append]

-- ---------------------------------------------------------------------------
-- Runs
-- ---------------------------------------------------------------------------

theorem course_keeps (lib : Libs) (k₀ : Kernel) (target data : Bytes) :
    Keeps lib fun told k => k₀.sends < k.sends ∧
      Course lib k₀ target data (resumptions told k₀.sends) k := by
  constructor
  · rintro told k k' hquiet ⟨hlt, hcourse⟩
    exact ⟨hquiet.sends ▸ hlt, hquiet.course hcourse⟩
  · rintro told k k' other packet now hcall ⟨hlt, hcourse⟩
    obtain ⟨-, -, -, hsends⟩ := asyncSendto_same hcall
    exact ⟨hsends ▸ Nat.lt_succ_of_lt hlt, hcourse.beside_call hlt hcall⟩
  · rintro told k i w ec now resumed hw hres ⟨hlt, hcourse⟩
    obtain ⟨-, -, -, hsends⟩ := sendOrAsk_same hres
    refine ⟨hsends ▸ hlt, ?_⟩
    by_cases hsend : w.op.send = k₀.sends
    · have hown : resumptions (told ++ [⟨w, ec, k⟩]) k₀.sends =
          resumptions told k₀.sends ++ [⟨w, ec, k⟩] := by
        simp [resumptions, hsend]
      rw [hown]
      exact hcourse.resume hw hsend ec hres
    · have hown : resumptions (told ++ [⟨w, ec, k⟩]) k₀.sends = resumptions told k₀.sends := by
        simp [resumptions, hsend]
      rw [hown]
      exact hcourse.beside_resume hw hsend hres

def Unmade (k : Kernel) : Prop :=
  ∀ effect ∈ k.trace, ∀ send, callOf effect = some send → send < k.sends

theorem unmade_of_concat (h : Unmade k) (htrace : k'.trace = k.trace ++ [effect])
    (hof : callOf effect = some send) (hle : k.sends ≤ k'.sends) (hlt : send < k'.sends) :
    Unmade k' := by
  intro other hmem call hcall
  rw [htrace] at hmem
  rcases List.mem_append.mp hmem with hold | hnew
  · exact Nat.lt_of_lt_of_le (h other hold call hcall) hle
  · rw [List.mem_singleton.mp hnew, hof] at hcall
    cases hcall
    exact hlt

theorem asyncSendto_callOf (h : asyncSendto lib k target data now = .ok k') :
    ∃ effect, callOf effect = some k.sends ∧ k'.trace = k.trace ++ [effect] := by
  obtain ⟨-, rfl⟩ | ⟨interface, -, hsend⟩ := asyncSendto_cases h
  · exact ⟨_, rfl, rfl⟩
  · exact sendOrAsk_callOf hsend

theorem unmade_keeps (lib : Libs) : Keeps lib fun told k => Once told k ∧ Unmade k := by
  have hkeeps := once_keeps lib
  constructor
  · rintro told k k' hquiet ⟨honce, hunmade⟩
    refine ⟨hkeeps.undisturbed _ _ _ hquiet honce, ?_⟩
    obtain ⟨-, hsends, new, htrace, hnew⟩ := hquiet
    intro effect heffect send hof
    rw [htrace] at heffect
    rw [hsends]
    rcases List.mem_append.mp heffect with hold | heffect
    · exact hunmade effect hold send hof
    · rw [hnew effect heffect] at hof
      cases hof
  · rintro told k k' target data now hcall ⟨honce, hunmade⟩
    obtain ⟨-, -, -, hsends⟩ := asyncSendto_same hcall
    obtain ⟨effect, hof, htrace⟩ := asyncSendto_callOf hcall
    exact ⟨hkeeps.call _ _ _ _ _ _ hcall honce,
      unmade_of_concat hunmade htrace hof (by omega) (by omega)⟩
  · rintro told k i w ec now resumed hw hres ⟨honce, hunmade⟩
    obtain ⟨-, -, -, hsends⟩ := sendOrAsk_same hres
    obtain ⟨effect, hof, htrace⟩ := sendOrAsk_callOf hres
    have hlt := honce.tallied.lt_of_waiting (List.mem_of_getElem? hw)
    have hunmade' : Unmade resumed :=
      unmade_of_concat hunmade htrace hof (Nat.le_of_eq hsends.symm) (hsends ▸ hlt)
    exact ⟨hkeeps.resume _ _ _ _ ec _ _ hw hres honce, hunmade'⟩

theorem Reached.unmade (h : Reached lib k) : Tallied k ∧ Unmade k := by
  obtain ⟨events, hrun⟩ := h.run
  have hinitial : Unmade initial := by
    intro effect heffect
    cases heffect
  obtain ⟨honce, hunmade⟩ := (unmade_keeps lib).handlers ⟨once_initial, hinitial⟩ hrun
  exact ⟨honce.tallied, hunmade⟩

theorem course_of_call (h : Tallied k₀) (hunmade : Unmade k₀)
    (hcall : asyncSendto lib k₀ target data now = .ok k) : Course lib k₀ target data [] k := by
  have heffects : effectsOf k₀ k₀.sends = [] := by
    rw [effectsOf, List.filter_eq_nil_iff]
    intro effect heffect hof
    exact Nat.lt_irrefl _ (hunmade effect heffect k₀.sends (of_decide_eq_true hof))
  have hwaiting : waitingOf k₀ k₀.sends = [] := by
    rw [waitingOf, List.filter_eq_nil_iff]
    intro w hw hsend
    exact Nat.ne_of_lt (h.lt_of_waiting hw) (of_decide_eq_true hsend)
  obtain ⟨hroute, rfl⟩ | ⟨interface, hroute, hsend⟩ := asyncSendto_cases hcall
  · refine .unrouted hroute rfl hwaiting ?_
    have heffects' : k₀.trace.filter (callOf · = some k₀.sends) = [] := heffects
    rw [effectsOf, record_trace, List.filter_append, heffects']
    simp [callOf]
  · obtain ⟨w, hw⟩ : ∃ w : Waiter, w.op = ⟨k₀.sends, target, data, interface, 0⟩ :=
      ⟨⟨0, _⟩, rfl⟩
    rw [← hw] at hsend
    have hwaiters := waiters_sendOrAsk hsend
    have hnobody : k₀.waiters.filter (·.op.send = k₀.sends) = [] := hwaiting
    have hasked : Asked k₀.sends 0 (effectsOf k₀ k₀.sends) := by
      rw [heffects]
      exact ⟨rfl, by simp⟩
    have hlast : (k₀ :: ([] : List Invocation).map (·.found)).getLast? = some k₀ := rfl
    refine Course.lookup (k := { k₀ with sends := k₀.sends + 1 }) (by simp [hroute]) hlast rfl rfl
      rfl w (by rw [hw]) (by rw [hw]) (by rw [hw]) (by rw [hw]; rfl) (by simp) (by simp) hasked
      hsend ?_ rfl
    rw [waitingOf, hwaiters, List.filter_append, hnobody, filter_again_of_eq (by rw [hw]),
      List.nil_append]

-- ---------------------------------------------------------------------------
-- What it comes to
-- ---------------------------------------------------------------------------

theorem writes_of_unqueued (hk : (outbox k).Ledger)
    (henq : ¬ ∃ link packet, .enqueued link (.data send) packet ∈ k.trace) :
    (outbox k).book.countP (Outbox.writes send) = 0 := by
  rw [List.countP_eq_zero]
  intro entry hentry hwrites
  unfold Outbox.writes at hwrites
  split at hwrites
  · rename_i link other
    obtain rfl := of_decide_eq_true hwrites
    have hbalance := hk.balance link other
    have hpos := List.count_pos_iff.mpr hentry
    have hbooked : .enqueued link other ∈ (outbox k).book := by
      rw [← List.count_pos_iff]
      omega
    obtain ⟨packet, hpacket⟩ := mem_book.mp hbooked
    exact henq ⟨link, packet, hpacket⟩
  · cases hwrites

theorem tellings_of_unsettled (hk : (outbox k).Ledger)
    (hnone : k.trace.countP (settles send) = 0) : tellings k.trace send = [] := by
  have hquiet : ∀ effect ∈ k.trace, settles send effect ≠ true := List.countP_eq_zero.mp hnone
  have hwrites : (outbox k).book.countP (Outbox.writes send) = 0 := by
    refine writes_of_unqueued hk ?_
    rintro ⟨link, packet, henq⟩
    exact hquiet _ henq (by simp [settles])
  have hgave : (outbox k).book.count (.completed send .networkUnreachable) = 0 := by
    rw [List.count_eq_zero]
    intro hmem
    obtain ⟨effect, heffect, hentry⟩ := List.mem_filterMap.mp hmem
    obtain rfl := entryOf_completed hentry
    exact hquiet _ heffect (by simp [settles])
  rw [← List.length_eq_zero_iff, length_tellings, hk.told send, hwrites, hgave]

theorem Tallied.tellings_le (h : Tallied k) (hk : (outbox k).Ledger) (send : Nat) :
    (tellings k.trace send).length ≤ 1 := by
  rw [length_tellings, hk.told send]
  by_cases henq : ∃ link packet, .enqueued link (.data send) packet ∈ k.trace
  · obtain ⟨link, packet, henq⟩ := henq
    have hbalance := hk.balance link send
    have hone := h.enqueued_le link send
    rw [writes_of_enqueued hk h henq, gave_of_enqueued h henq]
    omega
  · have hwrites := writes_of_unqueued hk henq
    have hone := h.gave_le send
    omega

theorem Reached.ledger (h : Reached lib k) : (outbox k).Ledger :=
  Lib.Run.Reached.invariant (I := fun k => (outbox k).Ledger) Outbox.ledger_initial
    (fun _ _ _ hstep hk => step_ledger hstep hk) h

theorem countP_effectsOf {p : Effect → Bool} (hp : ∀ effect, p effect = true →
    callOf effect = some send) (k : Kernel) :
    k.trace.countP p = (effectsOf k send).countP p := by
  rw [effectsOf, List.countP_filter]
  refine List.countP_congr fun effect _ => ?_
  simp only [Bool.and_eq_true, decide_eq_true_eq]
  exact ⟨fun h => ⟨h, hp effect h⟩, And.left⟩

theorem callOf_of_asksOf (h : asksOf send effect = true) : callOf effect = some send := by
  unfold asksOf at h
  split at h
  · rw [← of_decide_eq_true h]
    rfl
  · cases h

theorem enqueued_of_sendsOf (h : sendsOf send effect = true) :
    ∃ link packet, effect = .enqueued link (.data send) packet := by
  unfold sendsOf at h
  split at h
  · rename_i link other packet
    rw [← of_decide_eq_true h]
    exact ⟨link, packet, rfl⟩
  · cases h

theorem callOf_of_sendsOf (h : sendsOf send effect = true) : callOf effect = some send := by
  obtain ⟨link, packet, rfl⟩ := enqueued_of_sendsOf h
  rfl

theorem mem_effectsOf (h : callOf effect = some send) (k : Kernel) :
    effect ∈ k.trace ↔ effect ∈ effectsOf k send := by
  simp [effectsOf, h]

theorem unreachable_iff (k : Kernel) (send : Nat) :
    .networkUnreachable ∈ tellings k.trace send ↔
      .completed send .networkUnreachable ∈ effectsOf k send := by
  rw [← mem_effectsOf (by rfl) k]
  constructor
  · exact mem_tellings
  · intro h
    exact List.mem_filterMap.mpr ⟨_, h, by simp⟩

theorem Asked.not_mem (h : Asked send n effects) (hother : asksOf send effect = false) :
    effect ∉ effects := by
  intro hmem
  rw [h.2 effect hmem] at hother
  cases hother

theorem Course.counts (h : Course lib k₀ target data own k) :
    (effectsOf k k₀.sends).countP (asksOf k₀.sends) ≤ 3 ∧
      (effectsOf k k₀.sends).countP (sendsOf k₀.sends) ≤ 1 := by
  cases h with
  | unrouted hroute hown hwaiting heffects =>
    rw [heffects]
    simp [asksOf, sendsOf]
  | waiting w hroute hwaiting htarget hdata hasks hown heffects =>
    have hle := List.countP_le_length (p := asksOf k₀.sends) (l := effectsOf k k₀.sends)
    rw [heffects.1] at hle
    rw [heffects.not_data]
    omega
  | sent m link packet asked hroute hwaiting hown hlast htrace hencrypted hasked heffects =>
    have hle := List.countP_le_length (p := asksOf k₀.sends) (l := asked)
    rw [hasked.1] at hle
    rw [heffects, List.countP_append, List.countP_append, hasked.not_data]
    simp only [List.countP_singleton, asksOf, sendsOf, decide_true, Bool.false_eq_true, if_true,
      if_false]
    omega
  | gaveUp i asked hroute hwaiting hown hthird hnone hasked heffects =>
    have hle := List.countP_le_length (p := asksOf k₀.sends) (l := asked)
    rw [hasked.1] at hle
    rw [heffects, List.countP_append, List.countP_append, hasked.not_data]
    simp only [List.countP_singleton, asksOf, sendsOf, Bool.false_eq_true, if_false]
    omega

theorem Course.gaveUp_iff (h : Course lib k₀ target data own k) :
    .completed k₀.sends .networkUnreachable ∈ effectsOf k k₀.sends ↔
      k₀.routing.selectRoute lib.regex target = .ok none ∨
      ∃ i, own[2]? = some i ∧ i.found.trustedPubkey.findRSAPubkey target = .ok none := by
  cases h with
  | unrouted hroute hown hwaiting heffects =>
    rw [heffects]
    exact ⟨fun _ => .inl hroute, fun _ => List.mem_singleton_self _⟩
  | waiting w hroute hwaiting htarget hdata hasks hown heffects =>
    constructor
    · intro hmem
      exact absurd hmem (heffects.not_mem rfl)
    · rintro (hnone | ⟨i, hi, -⟩)
      · exact absurd hnone hroute
      · have hlt := (List.getElem?_eq_some_iff.mp hi).1
        omega
  | sent m link packet asked hroute hwaiting hown hlast htrace hencrypted hasked heffects =>
    rw [heffects]
    constructor
    · intro hmem
      rcases List.mem_append.mp hmem with hmem | hmem
      · exact absurd hmem (hasked.not_mem rfl)
      · cases List.mem_singleton.mp hmem
    · rintro (hnone | ⟨i, hi, hnone⟩)
      · exact absurd hnone hroute
      · -- the third wait was the last one, and there was a key
        have hlt := (List.getElem?_eq_some_iff.mp hi).1
        have hthree : own.length = 3 := by omega
        have hsame : i.found = m := by
          rw [List.getLast?_eq_getElem?, List.length_cons, List.length_map, hthree] at hlast
          simpa [hi] using hlast
        obtain ⟨key, -, -, -, hkey, -⟩ := hencrypted
        rw [hsame, hkey] at hnone
        cases hnone
  | gaveUp i asked hroute hwaiting hown hthird hnone hasked heffects =>
    rw [heffects]
    exact ⟨fun _ => .inr ⟨i, hthird, hnone⟩,
      fun _ => List.mem_append_right _ (List.mem_singleton_self _)⟩

theorem Course.encrypted (h : Course lib k₀ target data own k)
    (henq : .enqueued link (.data k₀.sends) packet ∈ effectsOf k k₀.sends) :
    .completed k₀.sends .networkUnreachable ∉ effectsOf k k₀.sends ∧
      ∃ m ∈ k₀ :: own.map (·.found),
        m.trace ++ [.enqueued link (.data k₀.sends) packet] <+: k.trace ∧
        EncryptedIn lib m target data packet := by
  cases h with
  | unrouted hroute hown hwaiting heffects =>
    rw [heffects] at henq
    cases List.mem_singleton.mp henq
  | waiting w hroute hwaiting htarget hdata hasks hown heffects =>
    exact absurd henq (heffects.not_mem rfl)
  | sent m link' packet' asked hroute hwaiting hown hlast htrace hencrypted hasked heffects =>
    rw [heffects] at henq ⊢
    rcases List.mem_append.mp henq with henq | henq
    · exact absurd henq (hasked.not_mem rfl)
    · cases List.mem_singleton.mp henq
      refine ⟨?_, m, List.mem_of_getLast? hlast, htrace, hencrypted⟩
      intro hmem
      rcases List.mem_append.mp hmem with hmem | hmem
      · exact hasked.not_mem rfl hmem
      · cases List.mem_singleton.mp hmem
  | gaveUp i asked hroute hwaiting hown hthird hnone hasked heffects =>
    rw [heffects] at henq
    rcases List.mem_append.mp henq with henq | henq
    · exact absurd henq (hasked.not_mem rfl)
    · cases List.mem_singleton.mp henq

/-- In every run from the call on, whatever else happens: at most three `pkask`
and one data packet are enqueued for it and it is told once, that the network
is unreachable exactly if there was no route or no key after the third wait.
Its data is encrypted with the key on record right before. -/
theorem call_outcome (lib : Libs) (k₀ k₁ k : Kernel) (hk : Reached lib k₀) (target data : Bytes)
    (now : Int) (hcall : asyncSendto lib k₀ target data now = .ok k₁) (events : List Event)
    (hrun : events.foldlM (step lib) k₁ = .ok k) :
    Outcome lib k₀ target data (handlers lib k₁ events) k := by
  have hstep : step lib k₀ (.asyncSendto target data now) = .ok k₁ := hcall
  have hreached : Reached lib k := Lib.Run.reached_of_foldlM (.step hk hstep) hrun
  have hbegun : k₀.sends < k₁.sends := by
    rw [(asyncSendto_same hcall).2.2.2]
    exact Nat.lt_succ_self _
  obtain ⟨htallied, hunmade⟩ := hk.unmade
  have hstart : Course lib k₀ target data (resumptions [] k₀.sends) k₁ :=
    course_of_call htallied hunmade hcall
  obtain ⟨-, hcourse⟩ := (course_keeps lib k₀ target data).handlers ⟨hbegun, hstart⟩ hrun
  rw [List.nil_append] at hcourse
  obtain ⟨hasked, hsent⟩ := hcourse.counts
  rw [← countP_effectsOf fun _ => callOf_of_asksOf] at hasked
  rw [← countP_effectsOf fun _ => callOf_of_sendsOf] at hsent
  refine ⟨hasked, hsent, hreached.unmade.1.tellings_le hreached.ledger k₀.sends, ?_, ?_, ?_⟩
  · rw [unreachable_iff]
    exact hcourse.gaveUp_iff
  · rw [unreachable_iff, List.countP_eq_zero]
    intro hgave effect heffect hsends
    obtain ⟨link, packet, rfl⟩ := enqueued_of_sendsOf hsends
    exact (hcourse.encrypted ((mem_effectsOf rfl k).mp heffect)).1 hgave
  · intro link packet henq
    exact (hcourse.encrypted ((mem_effectsOf rfl k).mp henq)).2

def routedToAll : Kernel :=
  after sampleLibs [.addInterface (samplePeer sampleKey),
    .addRoute (text ".+@.+") [] (text "eth0") 100]

theorem call_outcome_gives_up :
    ∃ k₁ k, asyncSendto sampleLibs routedToAll (text "a@x") (text "hi") 0 = .ok k₁ ∧
      [.timer1 9000000, .timer1 18000000, .timer1 27000000].foldlM (step sampleLibs) k₁ = .ok k ∧
      tellings k.trace 0 = [.networkUnreachable] ∧
      Outcome sampleLibs routedToAll (text "a@x") (text "hi")
        (handlers sampleLibs k₁ [.timer1 9000000, .timer1 18000000, .timer1 27000000]) k := by
  have hrun : (asyncSendto sampleLibs routedToAll (text "a@x") (text "hi") 0 >>= fun k₁ =>
      [Event.timer1 9000000, .timer1 18000000, .timer1 27000000].foldlM (step sampleLibs) k₁).map
        (fun k : Kernel => tellings k.trace 0) = .ok [.networkUnreachable] := by
    decide +kernel
  obtain ⟨k, hk, htold⟩ := map_returns hrun
  obtain ⟨k₁, hcall, hafter⟩ := bind_returns hk
  exact ⟨k₁, k, hcall, hafter, htold, call_outcome sampleLibs routedToAll k₁ k
    (reached_after _ _) (text "a@x") (text "hi") 0 hcall _ hafter⟩

end Avim.Kernel
