import Avim.TimedQueue

/-!
# A timed pop is answered once

Nothing keeps a pop from being answered twice, by the queue and by its timer,
but for the order of things: `completes_once_iff` says which orders. An answer
is owed from the moment something is posted for it (`owes`), and what is owed is
what the handlers are told, whatever is run first. So no handler is invoked
twice if nothing is owed twice.
-/

namespace Avim

namespace TimedQueue

variable {V W : Type}

-- ---------------------------------------------------------------------------
-- What is owed
-- ---------------------------------------------------------------------------

/-- The calls whose handler will be invoked because of the operation. -/
def owes (s : TimedQueue V W) : TimedOp V W → List Nat
  | .push _ => (s.queue.handlers.find? (!·.timedOut)).toList.map (·.handler.call)
  | .asyncPop => if s.queue.list = [] then [] else [s.calls]
  | .asyncPopFor => if s.queue.list = [] then [] else [s.calls]
  | .cancele => (s.queue.handlers.filter (!·.timedOut)).map (·.handler.call)
  | .expire call => if call ∈ s.timers then [call] else []
  | .asyncWait _ => []
  | .run _ => []

/-- The queue takes no pop whose timer has told the `io_service` already, and no
timer runs out behind the back of a pop that was taken. -/
def Timely (s : TimedQueue V W) : TimedOp V W → Prop
  | .push _ => ∀ r, s.queue.handlers.find? (!·.timedOut) = some r →
    .expired r.handler.call ∉ s.posted
  | .cancele => ∀ r ∈ s.queue.handlers, r.timedOut = false → .expired r.handler.call ∉ s.posted
  | .expire call => call ∈ s.timers → ∃ r ∈ s.queue.handlers, r.handler.call = call
  | _ => True

/-- `owed` are the calls that something was posted for. One that still waits has
been owed an answer by its timer only, one whose timer still runs by the queue. -/
structure Ledger (s : TimedQueue V W) (owed : List Nat) : Prop where
  made : ∀ call ∈ owed, call < s.calls
  waiting : ∀ r ∈ s.queue.handlers, r.handler.call < s.calls
  ticking : ∀ call ∈ s.timers, call < s.calls
  distinct : (s.queue.handlers.map (·.handler.call)).Nodup
  expired : ∀ call, .expired call ∈ s.posted → call ∈ owed ∧ call ∉ s.timers
  live : ∀ r ∈ s.queue.handlers, r.timedOut = false →
    (r.handler.call ∈ owed ↔ .expired r.handler.call ∈ s.posted)
  running : ∀ call ∈ s.timers, ∀ r ∈ s.queue.handlers, r.handler.call = call →
    r.timedOut = false
  taken : ∀ call ∈ s.timers, (call ∈ owed ↔ ∀ r ∈ s.queue.handlers, r.handler.call ≠ call)

variable {s s' : TimedQueue V W} {owed : List Nat}

theorem ledger_empty : Ledger (empty : TimedQueue V W) [] := by
  constructor <;> simp [empty, CoroQueue.empty]

theorem Ledger.frame (h : Ledger s owed) (hhandlers : s'.queue.handlers = s.queue.handlers)
    (htimers : s'.timers ⊆ s.timers) (hcalls : s'.calls = s.calls)
    (hexpired : ∀ call, .expired call ∈ s'.posted ↔ .expired call ∈ s.posted) :
    Ledger s' owed := by
  refine ⟨?_, ?_, ?_, ?_, ?_, ?_, ?_, ?_⟩
  · rw [hcalls]
    exact h.made
  · rw [hhandlers, hcalls]
    exact h.waiting
  · rw [hcalls]
    exact fun call hcall => h.ticking call (htimers hcall)
  · rw [hhandlers]
    exact h.distinct
  · intro call hcall
    obtain ⟨howed, hstopped⟩ := h.expired call ((hexpired call).mp hcall)
    exact ⟨howed, fun hrunning => hstopped (htimers hrunning)⟩
  · rw [hhandlers]
    intro r hr hlive
    exact (h.live r hr hlive).trans (hexpired _).symm
  · rw [hhandlers]
    exact fun call hcall => h.running call (htimers hcall)
  · rw [hhandlers]
    exact fun call hcall => h.taken call (htimers hcall)

theorem Ledger.take (h : Ledger s owed) {new : List Nat}
    (hsub : s'.queue.handlers.Sublist s.queue.handlers)
    (hleft : ∀ r ∈ s.queue.handlers, r ∈ s'.queue.handlers ∨ r.timedOut = true ∨
      r.handler.call ∈ new)
    (hnew : ∀ call ∈ new, ∃ r ∈ s.queue.handlers, r.handler.call = call)
    (hgone : ∀ call ∈ new, ∀ r ∈ s'.queue.handlers, r.handler.call ≠ call)
    (htimers : s'.timers = s.timers) (hcalls : s'.calls = s.calls)
    (hexpired : ∀ call, .expired call ∈ s'.posted ↔ .expired call ∈ s.posted) :
    Ledger s' (owed ++ new) := by
  refine ⟨?_, ?_, ?_, ?_, ?_, ?_, ?_, ?_⟩
  · intro call hcall
    rw [hcalls]
    rcases List.mem_append.mp hcall with hcall | hcall
    · exact h.made call hcall
    · obtain ⟨r, hr, rfl⟩ := hnew call hcall
      exact h.waiting r hr
  · intro r hr
    rw [hcalls]
    exact h.waiting r (hsub.subset hr)
  · rw [htimers, hcalls]
    exact h.ticking
  · exact h.distinct.sublist (hsub.map _)
  · intro call hcall
    obtain ⟨howed, hstopped⟩ := h.expired call ((hexpired call).mp hcall)
    exact ⟨List.mem_append_left _ howed, htimers ▸ hstopped⟩
  · intro r hr hlive
    rw [hexpired, ← h.live r (hsub.subset hr) hlive, List.mem_append]
    have hkept : r.handler.call ∉ new := fun hcall => hgone _ hcall r hr rfl
    exact or_iff_left hkept
  · rw [htimers]
    exact fun call hcall r hr => h.running call hcall r (hsub.subset hr)
  · rw [htimers]
    intro call hcall
    rw [List.mem_append, h.taken call hcall]
    constructor
    · rintro (hnone | hcall)
      · exact fun r hr => hnone r (hsub.subset hr)
      · exact hgone call hcall
    · intro hnone
      by_cases hwaits : ∃ r ∈ s.queue.handlers, r.handler.call = call
      · obtain ⟨r, hr, rfl⟩ := hwaits
        have hlive := h.running _ hcall r hr rfl
        rcases hleft r hr with hkept | hout | hcall
        · exact absurd rfl (hnone r hkept)
        · rw [hlive] at hout
          cases hout
        · exact .inr hcall
      · exact .inl fun r hr hr' => hwaits ⟨r, hr, hr'⟩

theorem Ledger.wait (h : Ledger s owed) (wrapped : Bool)
    (hhandlers : s'.queue.handlers = s.queue.handlers ++ [⟨false, ⟨s.calls, wrapped⟩⟩])
    (htimers : s'.timers ⊆ insert s.calls s.timers) (hcalls : s'.calls = s.calls + 1)
    (hexpired : ∀ call, .expired call ∈ s'.posted ↔ .expired call ∈ s.posted) :
    Ledger s' owed := by
  have hfresh : s.calls ∉ owed := fun hcall => Nat.lt_irrefl _ (h.made _ hcall)
  have hreaders : ∀ r ∈ s'.queue.handlers, r ∈ s.queue.handlers ∨
      r = ⟨false, ⟨s.calls, wrapped⟩⟩ := by
    simp [hhandlers]
  have hticking : ∀ call ∈ s'.timers, call = s.calls ∨ call ∈ s.timers :=
    fun call hcall => Finset.mem_insert.mp (htimers hcall)
  refine ⟨?_, ?_, ?_, ?_, ?_, ?_, ?_, ?_⟩
  · intro call hcall
    have := h.made call hcall
    omega
  · intro r hr
    rcases hreaders r hr with hr | rfl
    · have := h.waiting r hr
      omega
    · exact hcalls ▸ Nat.lt_succ_self _
  · intro call hcall
    rcases hticking call hcall with rfl | hcall
    · exact hcalls ▸ Nat.lt_succ_self _
    · have := h.ticking call hcall
      omega
  · rw [hhandlers, List.map_append, List.nodup_append']
    refine ⟨h.distinct, by simp, ?_⟩
    intro call hcall hnew
    obtain ⟨r, hr, rfl⟩ := List.mem_map.mp hcall
    exact Nat.ne_of_lt (h.waiting r hr) (List.mem_singleton.mp hnew)
  · intro call hcall
    obtain ⟨howed, hstopped⟩ := h.expired call ((hexpired call).mp hcall)
    refine ⟨howed, fun hrunning => ?_⟩
    rcases hticking call hrunning with rfl | hrunning
    · exact hfresh howed
    · exact hstopped hrunning
  · intro r hr hlive
    rw [hexpired]
    rcases hreaders r hr with hr | rfl
    · exact h.live r hr hlive
    · exact iff_of_false hfresh fun hcall => hfresh (h.expired _ hcall).1
  · intro call hcall r hr hr'
    rcases hreaders r hr with hr | rfl
    · rcases hticking call hcall with rfl | hcall
      · exact absurd hr' (Nat.ne_of_lt (h.waiting r hr))
      · exact h.running call hcall r hr hr'
    · rfl
  · intro call hcall
    rcases hticking call hcall with rfl | hcall
    · refine iff_of_false hfresh fun hnone => ?_
      exact hnone ⟨false, ⟨s.calls, wrapped⟩⟩ (by simp [hhandlers]) rfl
    · rw [h.taken call hcall]
      constructor
      · intro hnone r hr
        rcases hreaders r hr with hr | rfl
        · exact hnone r hr
        · exact (Nat.ne_of_lt (h.ticking call hcall)).symm
      · intro hnone r hr
        exact hnone r (by simp [hhandlers, hr])

theorem Ledger.serve (h : Ledger s owed) (hhandlers : s'.queue.handlers = s.queue.handlers)
    (htimers : s'.timers = s.timers) (hcalls : s'.calls = s.calls + 1)
    (hexpired : ∀ call, .expired call ∈ s'.posted ↔ .expired call ∈ s.posted) :
    Ledger s' (owed ++ [s.calls]) := by
  have hold : ∀ call, call < s.calls → (call ∈ owed ++ [s.calls] ↔ call ∈ owed) := by
    intro call hlt
    simp [Nat.ne_of_lt hlt]
  refine ⟨?_, ?_, ?_, ?_, ?_, ?_, ?_, ?_⟩
  · intro call hcall
    rcases List.mem_append.mp hcall with hcall | hcall
    · have := h.made call hcall
      omega
    · rw [List.mem_singleton.mp hcall]
      exact hcalls ▸ Nat.lt_succ_self _
  · intro r hr
    have := h.waiting r (hhandlers ▸ hr)
    omega
  · intro call hcall
    have := h.ticking call (htimers ▸ hcall)
    omega
  · rw [hhandlers]
    exact h.distinct
  · intro call hcall
    obtain ⟨howed, hstopped⟩ := h.expired call ((hexpired call).mp hcall)
    exact ⟨List.mem_append_left _ howed, htimers ▸ hstopped⟩
  · rw [hhandlers]
    intro r hr hlive
    rw [hexpired, hold _ (h.waiting r hr)]
    exact h.live r hr hlive
  · rw [hhandlers, htimers]
    exact h.running
  · rw [hhandlers, htimers]
    intro call hcall
    rw [hold _ (h.ticking call hcall)]
    exact h.taken call hcall

theorem Ledger.expire (h : Ledger s owed) (hcall : call ∈ s.timers) :
    Ledger (s.expire call) (owed ++ [call]) := by
  have hexpire : s.expire call =
      { s with timers := s.timers.erase call, posted := s.posted ++ [.expired call] } :=
    if_pos hcall
  rw [hexpire]
  have hposted : ∀ c, .expired c ∈ s.posted ++ [Task.expired call] ↔
      .expired c ∈ s.posted ∨ c = call := by simp
  refine ⟨?_, h.waiting, ?_, h.distinct, ?_, ?_, ?_, ?_⟩
  · intro c hc
    rcases List.mem_append.mp hc with hc | hc
    · exact h.made c hc
    · rw [List.mem_singleton.mp hc]
      exact h.ticking call hcall
  · exact fun c hc => h.ticking c (Finset.mem_of_mem_erase hc)
  · intro c hc
    rcases (hposted c).mp hc with hc | rfl
    · obtain ⟨howed, hstopped⟩ := h.expired c hc
      exact ⟨List.mem_append_left _ howed, fun hrunning =>
        hstopped (Finset.mem_of_mem_erase hrunning)⟩
    · exact ⟨by simp, Finset.notMem_erase _ _⟩
  · intro r hr hlive
    rw [hposted, List.mem_append, List.mem_singleton, h.live r hr hlive]
  · exact fun c hc => h.running c (Finset.mem_of_mem_erase hc)
  · intro c hc
    obtain ⟨hne, hc⟩ := Finset.mem_erase.mp hc
    rw [List.mem_append, List.mem_singleton, or_iff_left hne]
    exact h.taken c hc

theorem mark_calls (s : TimedQueue V W) (call : Nat) :
    (s.mark call).queue.handlers.map (·.handler) = s.queue.handlers.map (·.handler) := by
  rw [mark, List.map_map]
  refine List.map_congr_left fun r _ => ?_
  by_cases hr : r.handler.call = call
  · simp [hr]
  · simp [hr]

theorem mem_mark (hr : r ∈ (s.mark call).queue.handlers) :
    (r ∈ s.queue.handlers ∧ r.handler.call ≠ call) ∨
      (r.timedOut = true ∧ r.handler.call = call) := by
  obtain ⟨r', hr', rfl⟩ := List.mem_map.mp hr
  by_cases hcall : r'.handler.call = call
  · exact .inr (by simp [hcall])
  · exact .inl (by simp [hcall, hr'])

theorem Ledger.mark (h : Ledger s owed) (hcall : .expired call ∈ s.posted)
    (hqueue : s'.queue = (s.mark call).queue) (htimers : s'.timers = s.timers)
    (hcalls : s'.calls = s.calls)
    (hold : ∀ other, .expired other ∈ s'.posted → .expired other ∈ s.posted)
    (hexpired : ∀ other, other ≠ call → .expired other ∈ s.posted → .expired other ∈ s'.posted) :
    Ledger s' owed := by
  have hstopped := (h.expired call hcall).2
  have hmap : s'.queue.handlers.map (·.handler.call) =
      s.queue.handlers.map (·.handler.call) := by
    have := congrArg (List.map PopHandler.call) (mark_calls s call)
    rwa [List.map_map, List.map_map, ← hqueue] at this
  have hnone : ∀ c, (∀ r ∈ s'.queue.handlers, r.handler.call ≠ c) ↔
      ∀ r ∈ s.queue.handlers, r.handler.call ≠ c := by
    intro c
    have hmem : c ∈ s'.queue.handlers.map (·.handler.call) ↔
        c ∈ s.queue.handlers.map (·.handler.call) := by rw [hmap]
    simpa [not_iff_not] using not_congr hmem
  refine ⟨?_, ?_, ?_, ?_, ?_, ?_, ?_, ?_⟩
  · exact hcalls ▸ h.made
  · intro r hr
    have hcall : r.handler.call ∈ s'.queue.handlers.map (·.handler.call) :=
      List.mem_map.mpr ⟨r, hr, rfl⟩
    rw [hmap] at hcall
    obtain ⟨r', hr', heq⟩ := List.mem_map.mp hcall
    rw [hcalls, ← heq]
    exact h.waiting r' hr'
  · exact htimers ▸ hcalls ▸ h.ticking
  · exact hmap ▸ h.distinct
  · exact fun c hc => htimers ▸ h.expired c (hold c hc)
  · intro r hr hlive
    rcases mem_mark (hqueue ▸ hr) with ⟨hr, hne⟩ | ⟨hout, -⟩
    · rw [h.live r hr hlive]
      exact ⟨hexpired _ hne, hold _⟩
    · rw [hlive] at hout
      cases hout
  · intro c hc r hr hr'
    rcases mem_mark (hqueue ▸ hr) with ⟨hr, -⟩ | ⟨-, heq⟩
    · exact h.running c (htimers ▸ hc) r hr hr'
    · rw [htimers, ← hr', heq] at hc
      exact absurd hc hstopped
  · intro c hc
    rw [hnone]
    exact h.taken c (htimers ▸ hc)

theorem perm_eraseIdx {tasks : List α} (h : tasks[i]? = some task) :
    (task :: tasks.eraseIdx i).Perm tasks := by
  obtain ⟨hlt, rfl⟩ := List.getElem?_eq_some_iff.mp h
  exact List.getElem_cons_eraseIdx_perm hlt

theorem filterMap_eraseIdx {tasks : List α} (h : tasks[i]? = some task) (f : α → Option β) :
    ((f task).toList ++ (tasks.eraseIdx i).filterMap f).Perm (tasks.filterMap f) := by
  have htasks := (perm_eraseIdx h).filterMap f
  rw [List.filterMap_cons] at htasks
  cases hf : f task with
  | none => simpa [hf] using htasks
  | some b => simpa [hf] using htasks

theorem asyncPopFor_cons (h : s.queue.list = value :: list) : s.asyncPopFor = s.asyncPop := by
  rw [asyncPopFor, h]

theorem cancelTimer_timers (s : TimedQueue V W) (call : Nat) :
    (s.cancelTimer call).timers ⊆ s.timers := by
  unfold cancelTimer
  split
  · exact Finset.erase_subset _ _
  · exact Finset.Subset.refl _

theorem cancelTimer_posted (s : TimedQueue V W) (call : Nat) :
    (s.cancelTimer call).posted = s.posted ++ if call ∈ s.timers then [.aborted call] else [] := by
  unfold cancelTimer
  split
  · rfl
  · exact (List.append_nil _).symm

theorem expired_onQueue (s : TimedQueue V W)
    (result : CoroQueue V PopHandler W × List (Posted V PopHandler W)) (call : Nat) :
    .expired call ∈ (s.onQueue result).posted ↔ .expired call ∈ s.posted := by
  simp [onQueue]

theorem first_live {out rest : List (Reader P)} (hout : ∀ o ∈ out, o.timedOut = true)
    (hlive : r.timedOut = false) : (out ++ r :: rest).find? (!·.timedOut) = some r := by
  have hnone : out.find? (!·.timedOut) = none := by simpa using hout
  rw [List.find?_append, hnone, List.find?_cons_of_pos (by simp [hlive])]
  rfl

theorem Ledger.push (h : Ledger s owed) (value : V) :
    Ledger (s.onQueue (s.queue.push value)) (owed ++ owes s (.push value)) := by
  obtain ⟨hall, heq⟩ | ⟨out, r, rest, hreaders, hout, hlive, heq⟩ := s.queue.push_shape value
  · have hnone : s.queue.handlers.find? (!·.timedOut) = none := by simpa using hall
    rw [owes, hnone]
    refine h.take ?_ (fun r hr => .inr (.inl (hall r hr))) (by simp) (by simp) rfl rfl
      (expired_onQueue s _)
    simp [onQueue, heq]
  · rw [owes, hreaders, first_live hout hlive]
    have hdistinct := h.distinct
    rw [hreaders, List.map_append, List.map_cons] at hdistinct
    have hrest := (List.nodup_cons.mp hdistinct.of_append_right).1
    have hafter : (s.onQueue (s.queue.push value)).queue.handlers = rest := by simp [onQueue, heq]
    refine h.take ?_ ?_ ?_ ?_ rfl rfl (expired_onQueue s _)
    · rw [hafter, hreaders]
      exact (List.sublist_cons_self r rest).trans (List.sublist_append_right out _)
    · rw [hafter, hreaders]
      intro x hx
      rcases List.mem_append.mp hx with hx | hx
      · exact .inr (.inl (hout x hx))
      · rcases List.mem_cons.mp hx with rfl | hx
        · exact .inr (.inr (by simp))
        · exact .inl hx
    · intro call hcall
      exact ⟨r, by simp [hreaders], (by simpa using hcall : call = r.handler.call).symm⟩
    · rw [hafter]
      intro call hcall x hx hxcall
      have hr : call = r.handler.call := by simpa using hcall
      exact hrest (List.mem_map.mpr ⟨x, hx, hxcall.trans hr⟩)

theorem Ledger.asyncPop (h : Ledger s owed) : Ledger s.asyncPop (owed ++ owes s .asyncPop) := by
  obtain ⟨hlist, heq⟩ | ⟨value, list, hlist, heq⟩ := s.queue.asyncPop_cases ⟨s.calls, false⟩
  · rw [owes, if_pos hlist, List.append_nil]
    refine h.wait false ?_ (Finset.subset_insert _ _) rfl (expired_onQueue s _)
    simp [TimedQueue.asyncPop, onQueue, heq]
  · rw [owes, if_neg (by simp [hlist])]
    refine h.serve ?_ rfl rfl (expired_onQueue s _)
    simp [TimedQueue.asyncPop, onQueue, heq]

theorem Ledger.asyncPopFor (h : Ledger s owed) :
    Ledger s.asyncPopFor (owed ++ owes s .asyncPopFor) := by
  cases hlist : s.queue.list with
  | nil =>
    have hfor : s.asyncPopFor = { s.onQueue (s.queue.asyncPop ⟨s.calls, true⟩) with
        timers := insert s.calls s.timers
        calls := s.calls + 1 } := by rw [TimedQueue.asyncPopFor, hlist]
    rw [owes, if_pos hlist, List.append_nil, hfor]
    refine h.wait true ?_ (Finset.Subset.refl _) rfl (expired_onQueue s _)
    simp [onQueue, CoroQueue.asyncPop, hlist]
  | cons value list =>
    rw [asyncPopFor_cons hlist]
    exact h.asyncPop

variable [Inhabited V]

theorem Ledger.cancele (h : Ledger s owed) :
    Ledger (s.onQueue s.queue.cancele) (owed ++ owes s .cancele) := by
  have hafter : (s.onQueue s.queue.cancele).queue.handlers = [] := s.queue.cancele_nobody
  rw [owes]
  refine h.take (by simp [hafter]) ?_ ?_ (by simp [hafter]) rfl rfl (expired_onQueue s _)
  · intro r hr
    cases hout : r.timedOut with
    | true => exact .inr (.inl rfl)
    | false =>
      refine .inr (.inr (List.mem_map.mpr ⟨r, List.mem_filter.mpr ⟨hr, ?_⟩, rfl⟩))
      simp [hout]
  · intro call hcall
    obtain ⟨r, hr, heq⟩ := List.mem_map.mp hcall
    exact ⟨r, (List.mem_filter.mp hr).1, heq⟩

theorem Ledger.perform (h : Ledger s owed) (hat : s.posted[i]? = some task) :
    Ledger (perform { s with posted := s.posted.eraseIdx i } task).1 owed := by
  have hperm := perm_eraseIdx hat
  have hold : ∀ call, .expired call ∈ s.posted.eraseIdx i → .expired call ∈ s.posted :=
    fun _ hcall => List.mem_of_mem_eraseIdx hcall
  have hkept : ∀ call, Task.expired call ≠ task → .expired call ∈ s.posted →
      .expired call ∈ s.posted.eraseIdx i := by
    intro call hne hcall
    rcases List.mem_cons.mp (hperm.mem_iff.mpr hcall) with heq | hcall
    · exact absurd heq hne
    · exact hcall
  cases task with
  | expired call =>
    have hposted : .expired call ∈ s.posted := List.mem_of_getElem? hat
    refine h.mark hposted rfl rfl rfl ?_ ?_
    · intro other hother
      exact hold other (by simpa [TimedQueue.perform] using hother)
    · intro other hne hother
      exact List.mem_append_left _ (hkept other (by simpa using hne) hother)
  | aborted call =>
    exact h.frame rfl (Finset.Subset.refl _) rfl fun other =>
      ⟨hold other, hkept other (by simp)⟩
  | report call =>
    exact h.frame rfl (Finset.Subset.refl _) rfl fun other =>
      ⟨hold other, hkept other (by simp)⟩
  | completion posted =>
    have hexpired : ∀ other, .expired other ∈ s.posted.eraseIdx i ↔ .expired other ∈ s.posted :=
      fun other => ⟨hold other, hkept other (by simp)⟩
    cases posted with
    | wait handler ec => exact h.frame rfl (Finset.Subset.refl _) rfl hexpired
    | pop handler ec value =>
      rw [TimedQueue.perform]
      split
      · obtain ⟨hqueue, hcalls⟩ :=
          cancelTimer_queue { s with posted := s.posted.eraseIdx i } handler.call
        refine h.frame (by rw [hqueue]) (cancelTimer_timers _ _) hcalls fun other => ?_
        rw [cancelTimer_posted, ← hexpired]
        split <;> simp
      · exact h.frame rfl (Finset.Subset.refl _) rfl hexpired

theorem Ledger.step (h : Ledger s owed) (op : TimedOp V W) :
    Ledger (apply s op).1 (owed ++ owes s op) := by
  cases op with
  | push value => exact h.push value
  | asyncPop => exact h.asyncPop
  | asyncPopFor => exact h.asyncPopFor
  | asyncWait handler =>
    rw [owes, List.append_nil]
    refine h.frame ?_ (Finset.Subset.refl _) rfl (expired_onQueue s _)
    obtain ⟨-, heq⟩ | ⟨-, heq⟩ := s.queue.asyncWait_cases handler
    · simp [apply, onQueue, heq]
    · simp [apply, onQueue, heq]
  | cancele => exact h.cancele
  | expire call =>
    by_cases hcall : call ∈ s.timers
    · rw [owes, if_pos hcall]
      exact h.expire hcall
    · rw [owes, if_neg hcall, List.append_nil, apply, TimedQueue.expire, if_neg hcall]
      exact h
  | run index =>
    rw [owes, List.append_nil, apply]
    split
    · rename_i task hat
      exact h.perform hat
    · exact h

omit [Inhabited V] in
/-- A step is timely if and only if it owes nothing that is owed already. -/
theorem Ledger.timely_iff (h : Ledger s owed) (op : TimedOp V W) :
    (owes s op).Nodup ∧ List.Disjoint owed (owes s op) ↔ Timely s op := by
  have hone : ∀ call, ([call].Nodup ∧ List.Disjoint owed [call]) ↔ call ∉ owed := by simp
  have hfresh : s.calls ∉ owed := fun hcall => Nat.lt_irrefl _ (h.made _ hcall)
  cases op with
  | push value =>
    rw [owes, Timely]
    cases hfirst : s.queue.handlers.find? (!·.timedOut) with
    | none => simp
    | some r =>
      have hlive : r.timedOut = false := by simpa using List.find?_some hfirst
      have hr := h.live r (List.mem_of_find?_eq_some hfirst) hlive
      exact (hone _).trans ((not_congr hr).trans (by simp))
  | asyncPop =>
    rw [owes]
    split
    · simp [Timely]
    · exact (hone _).trans (iff_of_true hfresh trivial)
  | asyncPopFor =>
    rw [owes]
    split
    · simp [Timely]
    · exact (hone _).trans (iff_of_true hfresh trivial)
  | cancele =>
    rw [owes, Timely]
    have hsub : ((s.queue.handlers.filter (!·.timedOut)).map (·.handler.call)).Nodup :=
      h.distinct.sublist (List.filter_sublist.map _)
    constructor
    · rintro ⟨-, hdisjoint⟩ r hr hlive hposted
      have howed := (h.live r hr hlive).mpr hposted
      refine hdisjoint howed (List.mem_map.mpr ⟨r, List.mem_filter.mpr ⟨hr, ?_⟩, rfl⟩)
      simp [hlive]
    · intro htimely
      refine ⟨hsub, fun call howed hcall => ?_⟩
      obtain ⟨r, hr, rfl⟩ := List.mem_map.mp hcall
      obtain ⟨hr, hlive⟩ := List.mem_filter.mp hr
      have hlive : r.timedOut = false := by simpa using hlive
      exact htimely r hr hlive ((h.live r hr hlive).mp howed)
  | expire call =>
    rw [owes, Timely]
    by_cases hcall : call ∈ s.timers
    · rw [if_pos hcall, hone, h.taken call hcall]
      simp [hcall]
    · simp [hcall]
  | asyncWait handler => simp [owes, Timely]
  | run index => simp [owes, Timely]

end TimedQueue

-- ---------------------------------------------------------------------------
-- What comes of it
-- ---------------------------------------------------------------------------

section

variable {V W : Type}

/-- The call whose handler the task leads to, if there is one. -/
@[simp] def Task.call? : Task V W → Option Nat
  | .completion posted => posted.reader?.map (·.call)
  | .expired call => some call
  | .aborted _ => none
  | .report call => some call

@[simp] def Task.value? : Task V W → Option V
  | .completion posted => posted.value?
  | _ => none

@[simp] def TimedOp.value? : TimedOp V W → Option V
  | .push value => some value
  | _ => none

/-- How many tasks can come of it. -/
def Task.weight : Task V W → Nat
  | .completion _ => 2
  | .expired _ => 2
  | .aborted _ => 1
  | .report _ => 1

def TimedOp.runs : TimedOp V W → Bool
  | .run _ => true
  | _ => false

/-- A value, a time-out or a cancellation; the last two with a default value. -/
def Answer [Inhabited V] : Posted V Nat W → Prop
  | .pop _ ec value => ec = .success ∨ (ec = .timedOut ∨ ec = .operationCanceled) ∧ value = default
  | .wait _ _ => True

end

namespace TimedQueue

variable {V W : Type} [Inhabited V] {s : TimedQueue V W}

/-- What was pushed and has not been received. -/
def unreceived (s : TimedQueue V W) : List V :=
  s.posted.filterMap Task.value? ++ s.queue.list

/-- In the run every handler is invoked at most once and no value gets lost: it
has been received, is posted to a handler or is stored, and not posted or given
to a pop that has reported a time-out. -/
structure CompletesOnce (ops : List (TimedOp V W)) : Prop where
  once : ((run ops).2.filterMap Posted.reader?).Nodup
  answers : ∀ told ∈ (run ops).2, Answer told
  received : ((run ops).2.filterMap Posted.value? ++ (run ops).1.unreceived).Perm
    (ops.filterMap TimedOp.value?)
  ungiven : ∀ call other, .pop call .timedOut other ∈ (run ops).2 → ∀ value,
    .pop call .success value ∉ (run ops).2 ∧
      ∀ wrapped, .completion (.pop ⟨call, wrapped⟩ .success value) ∉ (run ops).1.posted

theorem perform_calls (s : TimedQueue V W) (task : Task V W) :
    ((s.perform task).2.filterMap Posted.reader? ++
      (s.perform task).1.posted.filterMap Task.call?).Perm
        (task.call?.toList ++ s.posted.filterMap Task.call?) := by
  cases task with
  | expired call =>
    have hnext := List.perm_append_singleton call (s.posted.filterMap Task.call?)
    simp only [perform, List.filterMap_append]
    exact hnext
  | aborted call => exact List.Perm.refl _
  | report call => exact List.Perm.refl _
  | completion posted =>
    cases posted with
    | wait handler ec => exact List.Perm.refl _
    | pop handler ec value =>
      have hposted : (if handler.wrapped then s.cancelTimer handler.call else s).posted.filterMap
          Task.call? = s.posted.filterMap Task.call? := by
        split
        · rw [cancelTimer_posted, List.filterMap_append]
          split <;> simp
        · rfl
      rw [perform, hposted]
      exact List.Perm.refl _

omit [Inhabited V] in
theorem calls_onQueue {result : CoroQueue V PopHandler W × List (Posted V PopHandler W)}
    {new : List Nat} (h : (result.2.filterMap Posted.reader?).map (·.call) = new) :
    ((s.onQueue result).posted.filterMap Task.call?).Perm
      (s.posted.filterMap Task.call? ++ new) := by
  rw [← h]
  simp [onQueue, List.filterMap_map, Function.comp_def, List.map_filterMap]

omit [Inhabited V] in
theorem filterMap_waits {f : Posted V PopHandler W → Option β}
    (hf : ∀ handler ec, f (.wait handler ec) = none) (handlers : List W) (ec : ErrorCode) :
    (handlers.map (Posted.wait · ec)).filterMap f = [] := by
  simp [List.filterMap_map, hf]

omit [Inhabited V] in
theorem asyncPop_calls (s : TimedQueue V W) : (s.asyncPop.posted.filterMap Task.call?).Perm
    (s.posted.filterMap Task.call? ++ owes s .asyncPop) := by
  show ((s.onQueue (s.queue.asyncPop ⟨s.calls, false⟩)).posted.filterMap Task.call?).Perm _
  refine calls_onQueue ?_
  rw [owes]
  obtain ⟨hlist, heq⟩ | ⟨value, list, hlist, heq⟩ := s.queue.asyncPop_cases ⟨s.calls, false⟩
  · simp [heq, hlist]
  · simp [heq, hlist]

theorem balance_calls (s : TimedQueue V W) (op : TimedOp V W) :
    ((apply s op).2.filterMap Posted.reader? ++
      (apply s op).1.posted.filterMap Task.call?).Perm
        (s.posted.filterMap Task.call? ++ owes s op) := by
  cases op with
  | push value =>
    refine calls_onQueue ?_
    rw [owes]
    obtain ⟨hall, heq⟩ | ⟨out, r, rest, hreaders, hout, hlive, heq⟩ := s.queue.push_shape value
    · have hnone : s.queue.handlers.find? (!·.timedOut) = none := by simpa using hall
      rw [heq, hnone, filterMap_waits fun _ _ => rfl]
      rfl
    · rw [heq, hreaders, first_live hout hlive, List.filterMap_append,
        filterMap_waits fun _ _ => rfl]
      rfl
  | asyncPop => exact asyncPop_calls s
  | asyncPopFor =>
    cases hlist : s.queue.list with
    | nil => simp [apply, asyncPopFor, hlist, owes, onQueue, CoroQueue.asyncPop]
    | cons value list =>
      rw [apply, asyncPopFor_cons hlist]
      exact asyncPop_calls s
  | asyncWait handler =>
    refine calls_onQueue ?_
    obtain ⟨-, heq⟩ | ⟨-, heq⟩ := s.queue.asyncWait_cases handler
    · simp [heq, owes]
    · simp [heq, owes]
  | cancele =>
    refine calls_onQueue ?_
    rw [owes]
    obtain ⟨hr, heq⟩ | ⟨-, heq⟩ := s.queue.cancele_shape
    · simp [heq, hr]
    · simp [heq, List.filterMap_map, Function.comp_def]
  | expire call =>
    rw [apply, owes, expire]
    split
    · simp
    · simp
  | run index =>
    rw [apply, owes, List.append_nil]
    split
    · rename_i task hat
      exact (perform_calls _ task).trans (filterMap_eraseIdx hat Task.call?)
    · exact List.Perm.refl _

theorem perform_values (s : TimedQueue V W) (task : Task V W) :
    ((s.perform task).2.filterMap Posted.value? ++ (s.perform task).1.unreceived).Perm
      (task.value?.toList ++ s.unreceived) := by
  cases task with
  | expired call =>
    refine List.Perm.of_eq ?_
    simp [perform, unreceived, mark]
  | aborted call => exact List.Perm.refl _
  | report call => exact List.Perm.refl _
  | completion posted =>
    cases posted with
    | wait handler ec => exact List.Perm.refl _
    | pop handler ec value =>
      have hposted : (if handler.wrapped then s.cancelTimer handler.call else s).unreceived =
          s.unreceived := by
        split
        · rw [unreceived, cancelTimer_posted, List.filterMap_append,
            (cancelTimer_queue s handler.call).1]
          split <;> simp [unreceived]
        · rfl
      rw [perform, hposted]
      cases ec <;> exact List.Perm.refl _

omit [Inhabited V] in
theorem unreceived_onQueue
    {result : CoroQueue V PopHandler W × List (Posted V PopHandler W)} {taken : List V}
    (h : (result.2.filterMap Posted.value? ++ result.1.list).Perm (s.queue.list ++ taken)) :
    (s.onQueue result).unreceived.Perm (s.unreceived ++ taken) := by
  have hposted : (s.onQueue result).unreceived = s.posted.filterMap Task.value? ++
      (result.2.filterMap Posted.value? ++ result.1.list) := by
    simp only [unreceived, onQueue, List.filterMap_append, List.filterMap_map, List.append_assoc]
    rfl
  rw [hposted, unreceived, List.append_assoc]
  exact h.append_left _

omit [Inhabited V] in
theorem asyncPop_values (s : TimedQueue V W) : s.asyncPop.unreceived.Perm s.unreceived := by
  have hpop : s.asyncPop.unreceived =
      (s.onQueue (s.queue.asyncPop ⟨s.calls, false⟩)).unreceived := rfl
  rw [hpop, ← List.append_nil s.unreceived]
  refine unreceived_onQueue (List.Perm.of_eq ?_)
  obtain ⟨hlist, heq⟩ | ⟨value, list, hlist, heq⟩ := s.queue.asyncPop_cases ⟨s.calls, false⟩
  · simp [heq]
  · simp [heq, hlist]

theorem balance_values (s : TimedQueue V W) (op : TimedOp V W) :
    ((apply s op).2.filterMap Posted.value? ++ (apply s op).1.unreceived).Perm
      (s.unreceived ++ op.value?.toList) := by
  cases op with
  | push value =>
    refine unreceived_onQueue ?_
    obtain ⟨hall, heq⟩ | ⟨out, r, rest, hreaders, hout, hlive, heq⟩ := s.queue.push_shape value
    · rw [heq, filterMap_waits fun _ _ => rfl]
      exact List.Perm.refl _
    · rw [heq, List.filterMap_append, filterMap_waits fun _ _ => rfl]
      exact (List.perm_append_singleton value s.queue.list).symm
  | asyncPop =>
    have hpop := asyncPop_values s
    simpa [apply] using hpop
  | asyncPopFor =>
    have hpop := asyncPop_values s
    cases hlist : s.queue.list with
    | nil => simp [apply, asyncPopFor, hlist, unreceived, onQueue, CoroQueue.asyncPop]
    | cons value list =>
      rw [apply, asyncPopFor_cons hlist]
      simpa using hpop
  | asyncWait handler =>
    refine unreceived_onQueue (List.Perm.of_eq ?_)
    obtain ⟨-, heq⟩ | ⟨-, heq⟩ := s.queue.asyncWait_cases handler
    · simp [heq]
    · simp [heq]
  | cancele =>
    refine unreceived_onQueue (List.Perm.of_eq ?_)
    obtain ⟨-, heq⟩ | ⟨-, heq⟩ := s.queue.cancele_shape
    · simp [heq]
    · simp [heq, List.filterMap_map, Function.comp_def]
  | expire call =>
    have hnone : [Task.expired (V := V) (W := W) call].filterMap Task.value? = [] := rfl
    rw [apply, expire]
    split
    · simp [unreceived, hnone]
    · simp
  | run index =>
    rw [apply]
    split
    · rename_i task hat
      have hrest : (task.value?.toList ++ unreceived
          { s with posted := s.posted.eraseIdx index }).Perm s.unreceived := by
        rw [unreceived, ← List.append_assoc, unreceived]
        exact (filterMap_eraseIdx hat Task.value?).append_right _
      have hdone := (perform_values _ task).trans hrest
      simpa using hdone
    · simp

-- ---------------------------------------------------------------------------
-- Answers
-- ---------------------------------------------------------------------------

def Sound (s : TimedQueue V W) : Prop := ∀ posted, .completion posted ∈ s.posted → posted.Sound

theorem Sound.onQueue (h : s.Sound)
    {result : CoroQueue V PopHandler W × List (Posted V PopHandler W)}
    (hresult : ∀ posted ∈ result.2, posted.Sound) : (s.onQueue result).Sound := by
  intro posted hposted
  rcases List.mem_append.mp hposted with hposted | hposted
  · exact h posted hposted
  · obtain ⟨new, hnew, heq⟩ := List.mem_map.mp hposted
    cases heq
    exact hresult _ hnew

theorem perform_posted (s : TimedQueue V W) (task : Task V W) :
    ∃ new, (s.perform task).1.posted = s.posted ++ new ∧
      (new.map Task.weight).sum < task.weight ∧ ∀ posted, .completion posted ∉ new := by
  cases task with
  | expired call => exact ⟨[.report call], rfl, by simp [Task.weight], by simp⟩
  | aborted call => exact ⟨[], (List.append_nil _).symm, by simp [Task.weight], by simp⟩
  | report call => exact ⟨[], (List.append_nil _).symm, by simp [Task.weight], by simp⟩
  | completion posted =>
    cases posted with
    | wait handler ec => exact ⟨[], (List.append_nil _).symm, by simp [Task.weight], by simp⟩
    | pop handler ec value =>
      rw [perform]
      split
      · refine ⟨_, cancelTimer_posted s handler.call, ?_, ?_⟩
        · split <;> simp [Task.weight]
        · split <;> simp
      · exact ⟨[], (List.append_nil _).symm, by simp [Task.weight], by simp⟩

theorem Sound.perform (h : s.Sound) (task : Task V W) : (s.perform task).1.Sound := by
  obtain ⟨new, hnew, -, hnone⟩ := perform_posted s task
  intro posted hposted
  rw [hnew] at hposted
  rcases List.mem_append.mp hposted with hposted | hposted
  · exact h posted hposted
  · exact absurd hposted (hnone posted)

theorem Sound.step (h : s.Sound) (op : TimedOp V W) : (apply s op).1.Sound := by
  cases op with
  | push value => exact h.onQueue (s.queue.apply_sound (.push value))
  | asyncPop =>
    have hpop := h.onQueue (s.queue.apply_sound (.asyncPop ⟨s.calls, false⟩))
    exact hpop
  | asyncPopFor =>
    have hpop := fun wrapped => h.onQueue (s.queue.apply_sound (.asyncPop ⟨s.calls, wrapped⟩))
    rw [apply, asyncPopFor]
    split
    · exact hpop true
    · exact hpop false
  | asyncWait handler => exact h.onQueue (s.queue.apply_sound (.asyncWait handler))
  | cancele => exact h.onQueue (s.queue.apply_sound .cancele)
  | expire call =>
    rw [apply, expire]
    split
    · intro posted hposted
      exact h posted (by simpa using hposted)
    · exact h
  | run index =>
    rw [apply]
    split
    · refine Sound.perform (fun posted hposted => ?_) _
      exact h posted (List.mem_of_mem_eraseIdx hposted)
    · exact h

theorem Sound.answers (h : s.Sound) (op : TimedOp V W) : ∀ told ∈ (apply s op).2, Answer told := by
  cases op with
  | run index =>
    rw [apply]
    split
    · rename_i task hat
      cases task with
      | expired call => simp [TimedQueue.perform]
      | aborted call => simp [TimedQueue.perform]
      | report call => simp [TimedQueue.perform, Answer]
      | completion posted =>
        cases posted with
        | wait handler ec => simp [TimedQueue.perform, Answer]
        | pop handler ec value =>
          intro told htold
          rw [List.mem_singleton.mp htold]
          rcases h _ (List.mem_of_getElem? hat) with hec | ⟨hec, hvalue⟩
          · exact .inl hec
          · exact .inr ⟨.inr hec, hvalue⟩
    · simp
  | _ => simp [apply]

-- ---------------------------------------------------------------------------
-- Whole runs
-- ---------------------------------------------------------------------------

theorem exists_drained (s : TimedQueue V W) : ∃ more : List (TimedOp V W),
    (∀ op ∈ more, op.runs = true) ∧ (Lib.Run.trace apply s more).1.posted = [] := by
  induction hn : (s.posted.map Task.weight).sum using Nat.strong_induction_on generalizing s with
  | _ n ih =>
    cases hposted : s.posted with
    | nil => exact ⟨[], by simp, hposted⟩
    | cons task rest =>
      have hfirst : apply s (.run 0) = { s with posted := rest }.perform task := by
        simp [apply, hposted]
      obtain ⟨new, hnew, hless, -⟩ := perform_posted { s with posted := rest } task
      replace hnew : ({ s with posted := rest }.perform task).1.posted = rest ++ new := hnew
      have hsum : ((apply s (.run 0)).1.posted.map Task.weight).sum < n := by
        rw [hfirst, hnew, ← hn, hposted, List.map_append, List.sum_append, List.map_cons,
          List.sum_cons]
        omega
      obtain ⟨more, hruns, hdrained⟩ := ih _ hsum _ rfl
      refine ⟨.run 0 :: more, ?_, hdrained⟩
      intro op hop
      rcases List.mem_cons.mp hop with rfl | hop
      · rfl
      · exact hruns op hop

theorem run_calls (ops : List (TimedOp V W)) :
    ((run ops).2.filterMap Posted.reader? ++ (run ops).1.posted.filterMap Task.call?).Perm
      (Lib.Run.gather apply owes empty ops) :=
  Lib.Run.trace_balance (K := fun s : TimedQueue V W => s.posted.filterMap Task.call?)
    balance_calls empty ops

theorem owes_runs {ops more : List (TimedOp V W)} (hmore : ∀ op ∈ more, op.runs = true) :
    Lib.Run.gather apply owes empty (ops ++ more) = Lib.Run.gather apply owes empty ops := by
  have hnone : ∀ s : TimedQueue V W, ∀ op ∈ more, owes s op = [] := by
    intro s op hop
    have hruns := hmore op hop
    cases op with
    | run index => rfl
    | _ => cases hruns
  rw [Lib.Run.gather_append, Lib.Run.gather_eq_nil hnone, List.append_nil]

theorem owes_nodup_iff (ops : List (TimedOp V W)) :
    (Lib.Run.gather apply owes (empty : TimedQueue V W) ops).Nodup ↔
      Lib.Run.Throughout apply Timely empty ops :=
  Lib.Run.gather_nodup_iff (J := Ledger) (fun _ op _ h => h.step op)
    (fun _ op _ h => h.timely_iff op) ledger_empty List.nodup_nil ops

theorem nodup_filterMap_inj {f : α → Option β} {l : List α} (h : (l.filterMap f).Nodup)
    (ha : a ∈ l) (hb : b ∈ l) (hfa : f a = some c) (hfb : f b = some c) : a = b := by
  by_contra hne
  have hsymm : Std.Symm fun x y => ∀ c, f x = some c → ∀ d, f y = some d → c ≠ d :=
    ⟨fun _ _ hxy c hc d hd => (hxy d hd c hc).symm⟩
  exact (List.pairwise_filterMap.mp h).forall ha hb hne c hfa c hfb rfl

theorem completesOnce_of_nodup (ops : List (TimedOp V W))
    (h : (Lib.Run.gather apply owes (empty : TimedQueue V W) ops).Nodup) : CompletesOnce ops := by
  have hcalls := (run_calls ops).nodup_iff.mpr h
  obtain ⟨htold, -, hapart⟩ := List.nodup_append'.mp hcalls
  refine ⟨htold, ?_, ?_, ?_⟩
  · exact Lib.Run.trace_outputs (I := Sound) (fun _ op h => h.step op) (fun _ op h => h.answers op)
      (by simp [Sound, empty]) ops
  · have hvalues : ((run ops).2.filterMap Posted.value? ++ (run ops).1.unreceived).Perm
        (unreceived empty ++ Lib.Run.gather apply (fun _ op => op.value?.toList) empty ops) :=
      Lib.Run.trace_balance (K := unreceived) balance_values empty ops
    rw [Lib.Run.gather_inputs TimedOp.value?] at hvalues
    exact hvalues
  · intro call other hout value
    constructor
    · intro hgiven
      cases nodup_filterMap_inj htold hout hgiven rfl rfl
    · intro wrapped hgiven
      exact hapart (List.mem_filterMap.mpr ⟨_, hout, rfl⟩)
        (List.mem_filterMap.mpr ⟨_, hgiven, rfl⟩)

/-- Whatever is run of what was posted, the run completes every pop at most once,
if and only if each of its steps is timely. -/
theorem completes_once_iff (ops : List (TimedOp V W)) :
    (∀ more : List (TimedOp V W), (∀ op ∈ more, op.runs = true) → CompletesOnce (ops ++ more)) ↔
      Lib.Run.Throughout apply Timely empty ops := by
  rw [← owes_nodup_iff]
  constructor
  · intro h
    obtain ⟨more, hruns, hdrained⟩ := exists_drained (run ops).1
    have hempty : (run (ops ++ more)).1.posted = [] := by
      rw [run, Lib.Run.trace_append]
      exact hdrained
    have hcalls := run_calls (ops ++ more)
    rw [hempty, List.filterMap_nil, List.append_nil, owes_runs hruns] at hcalls
    exact hcalls.nodup_iff.mp (h more hruns).once
  · intro h more hruns
    refine completesOnce_of_nodup (ops ++ more) ?_
    rw [owes_runs hruns]
    exact h

/-- A push between the end of the time and the callback of the timer. -/
theorem completes_twice :
    ¬ CompletesOnce (V := Nat) (W := Nat)
      [.asyncPopFor, .expire 0, .push 7, .run 0, .run 0, .run 0] := by
  intro h
  have honce := h.once
  revert honce
  decide

end TimedQueue

end Avim
