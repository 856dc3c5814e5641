import Avim.Calls

/-!
# How long a call can take

A call waits at most eight seconds for a key, three times, and `timer1` is what
ends each wait. So how long it takes depends on how late the timer runs: if the
clock never goes back and never gets more than `late` past the last tick, a
call has enqueued its packet or given up within three times eight seconds and
`late` (`settled_in_time`). Nothing else that happens can prolong it.
-/

namespace Avim.Kernel

open Lib.Octets

variable {lib : Libs} {k k' : Kernel}

-- ---------------------------------------------------------------------------
-- The clock
-- ---------------------------------------------------------------------------

structure Clock where
  now : Int
  -- when `timer1` ticked last
  tick : Int
  deriving DecidableEq, Repr

def Clock.advance (c : Clock) : Event → Clock
  | .asyncSendto _ _ now => { c with now := now }
  | .process _ now => { c with now := now }
  | .timer1 now => ⟨now, now⟩
  | .timer2 now => { c with now := now }
  | _ => c

/-- The clock does not go back, and the timer is at most `late` behind. -/
def Clock.Allows (late : Int) (c : Clock) (event : Event) : Prop :=
  c.now ≤ (c.advance event).now ∧ (c.advance event).now ≤ c.tick + late

def Clock.after (c : Clock) (events : List Event) : Clock := events.foldl Clock.advance c

def Punctual (late : Int) (c : Clock) : List Event → Prop
  | [] => True
  | event :: events => c.Allows late event ∧ Punctual late (c.advance event) events

instance (late : Int) (c : Clock) (event : Event) : Decidable (c.Allows late event) :=
  inferInstanceAs (Decidable (_ ∧ _))

instance instDecidablePunctual (late : Int) :
    (c : Clock) → (events : List Event) → Decidable (Punctual late c events)
  | _, [] => isTrue trivial
  | c, event :: events =>
    have : Decidable (Punctual late (c.advance event) events) := instDecidablePunctual late _ _
    inferInstanceAs (Decidable (_ ∧ _))

theorem punctual_concat {late : Int} {c : Clock} {done : List Event} {event : Event} :
    Punctual late c (done ++ [event]) ↔
      Punctual late c done ∧ (c.after done).Allows late event := by
  induction done generalizing c with
  | nil => simp [Punctual, Clock.after]
  | cons first done ih =>
    rw [List.cons_append, Punctual, Punctual, ih, and_assoc]
    rfl

def startOf : Event → Option Int
  | .asyncSendto _ _ now => some now
  | _ => none

-- ---------------------------------------------------------------------------
-- Waiters on time
-- ---------------------------------------------------------------------------

def patience : Int := 8 * 1000000

/-- The last moment a call that started at `start` can be waiting for the
answer to its `pkask` number `asks`. -/
def latest (late start : Int) (asks : Nat) : Int := start + asks * (patience + late) - late

theorem latest_one (late start : Int) : latest late start 1 = start + patience := by
  unfold latest
  omega

theorem latest_succ (late start : Int) (asks : Nat) :
    latest late start (asks + 1) = latest late start asks + (patience + late) := by
  unfold latest
  rw [Nat.cast_succ, add_mul, one_mul]
  omega

theorem latest_mono (late start : Int) (hlate : 0 ≤ late) {m n : Nat} (h : m ≤ n) :
    latest late start m ≤ latest late start n := by
  induction h with
  | refl => exact le_rfl
  | step _ ih =>
    rw [latest_succ]
    unfold patience
    omega

/-- The timer has not found it overdue, and it is as late as its number of
asks can make it. -/
structure OnTime (late tick : Int) (starts : List Int) (w : Waiter) : Prop where
  pending : tick ≤ w.deadline
  asks : w.op.asks ≤ 3
  bounded : ∃ start, starts[w.op.send]? = some start ∧ w.deadline ≤ latest late start w.op.asks

theorem OnTime.later (h : OnTime late tick starts w) (start : Int) :
    OnTime late tick (starts ++ [start]) w := by
  obtain ⟨first, hfirst, hle⟩ := h.bounded
  have hlt := (List.getElem?_eq_some_iff.mp hfirst).1
  exact ⟨h.pending, h.asks, first, (List.getElem?_append_left hlt).trans hfirst, hle⟩

theorem OnTime.again (h : OnTime late tick starts w) (hfrom : tick ≤ now)
    (hto : now ≤ tick + late) (hasks : w.op.asks < 3) :
    OnTime late tick starts (renew now w.op) := by
  obtain ⟨start, hstart, hle⟩ := h.bounded
  have hpending := h.pending
  refine ⟨?_, hasks, start, hstart, ?_⟩
  · show tick ≤ now + 8 * 1000000
    omega
  · show now + 8 * 1000000 ≤ latest late start (w.op.asks + 1)
    rw [latest_succ]
    unfold patience
    omega

structure Timely (late : Int) (c : Clock) (starts : List Int) (k : Kernel) : Prop where
  ordered : c.tick ≤ c.now
  behind : c.now ≤ c.tick + late
  counted : k.sends = starts.length
  onTime : ∀ w ∈ k.waiters, OnTime late c.tick starts w

theorem timely_initial {late : Int} (hlate : 0 ≤ late) (start : Int) :
    Timely late ⟨start, start⟩ [] initial :=
  ⟨le_rfl, by simpa using hlate, rfl, by simp [initial]⟩

theorem onTime_resume (hfrom : tick ≤ now) (hto : now ≤ tick + late)
    (hw : k.waiters[i]? = some w) (hres : sendOrAsk lib k w.op now = .ok k')
    (h : ∀ v ∈ k.waiters, OnTime late tick starts v) :
    ∀ v ∈ k'.waiters.eraseIdx i, OnTime late tick starts v := by
  intro v hv
  have hmem := List.mem_of_mem_eraseIdx hv
  obtain ⟨_, _, _, -, hsame, -⟩ | ⟨_, _, -, hasks, hsame, -⟩ | ⟨-, -, hsame, -⟩ :=
    sendOrAsk_outcome hres
  · exact h v (hsame ▸ hmem)
  · rw [hsame] at hmem
    rcases List.mem_append.mp hmem with hmem | hmem
    · exact h v hmem
    · rw [List.mem_singleton.mp hmem]
      exact (h w (List.mem_of_getElem? hw)).again hfrom hto hasks
  · exact h v (hsame ▸ hmem)

theorem onTime_sweep (hfrom : tick ≤ now) (hto : now ≤ tick + late)
    (h : ∀ v ∈ k.waiters, OnTime late tick starts v) (hsweep : sweep lib due k now = .ok k') :
    ∀ v ∈ k'.waiters, OnTime late tick starts v :=
  sweep_resumes (I := fun k => ∀ v ∈ k.waiters, OnTime late tick starts v)
    (fun _ _ _ _ hw hres hk => onTime_resume hfrom hto hw hres hk) h hsweep

-- ---------------------------------------------------------------------------
-- Steps
-- ---------------------------------------------------------------------------

section

variable {late : Int} {c : Clock} {starts : List Int}

theorem Timely.same (h : Timely late c starts k) (hwaiters : k'.waiters = k.waiters)
    (hsends : k'.sends = k.sends) (hnow : c.now ≤ now) (hlate : now ≤ c.tick + late) :
    Timely late { c with now := now } starts k' := by
  refine ⟨h.ordered.trans hnow, hlate, hsends.trans h.counted, ?_⟩
  rw [hwaiters]
  exact h.onTime

theorem Timely.call (h : Timely late c starts k) (hnow : c.now ≤ now)
    (hlate : now ≤ c.tick + late)
    (hcall : asyncSendto lib k target data now = .ok k') :
    Timely late { c with now := now } (starts ++ [now]) k' := by
  obtain ⟨-, -, -, hsends⟩ := asyncSendto_same hcall
  refine ⟨h.ordered.trans hnow, hlate, by rw [hsends, h.counted, List.length_append]; rfl, ?_⟩
  have hold : ∀ w ∈ k.waiters, OnTime late c.tick (starts ++ [now]) w :=
    fun w hw => (h.onTime w hw).later now
  have hnew : ∀ interface, OnTime late c.tick (starts ++ [now])
      (renew now ⟨k.sends, target, data, interface, 0⟩) := by
    intro interface
    have hordered := h.ordered
    refine ⟨?_, by simp [renew], now, by simp [renew, h.counted], ?_⟩
    · show c.tick ≤ now + 8 * 1000000
      omega
    · show now + 8 * 1000000 ≤ latest late now 1
      rw [latest_one]
      exact le_rfl
  intro w hw
  obtain ⟨-, rfl⟩ | ⟨interface, -, hsend⟩ := asyncSendto_cases hcall
  · exact hold w hw
  · obtain ⟨_, _, _, -, hsame, -⟩ | ⟨_, _, -, -, hsame, -⟩ | ⟨-, -, hsame, -⟩ :=
      sendOrAsk_outcome hsend
    · exact hold w (hsame ▸ hw)
    · rw [hsame] at hw
      rcases List.mem_append.mp hw with hw | hw
      · exact hold w hw
      · rw [List.mem_singleton.mp hw]
        exact hnew interface
    · exact hold w (hsame ▸ hw)

theorem Timely.process (h : Timely late c starts k) (hnow : c.now ≤ now)
    (hlate : now ≤ c.tick + late)
    (hprocess : processRecivedPacket lib k packet avif now = .ok k') :
    Timely late { c with now := now } starts k' := by
  obtain ⟨checked, hchecked, hrest⟩ := bind_returns hprocess
  obtain ⟨handled, hhandled, hswept⟩ := bind_returns hrest
  obtain ⟨hwaiters, hsends, -⟩ := deliverOrForward_undisturbed hchecked hhandled
  refine ⟨h.ordered.trans hnow, hlate, ?_, onTime_sweep (h.ordered.trans hnow) hlate ?_ hswept⟩
  · rw [(sweep_same hswept).2.2.2, hsends, h.counted]
  · rw [hwaiters]
    exact h.onTime

theorem Timely.tick (h : Timely late c starts k) (hattended : Attended k) (hnow : c.now ≤ now)
    (hlate : now ≤ c.tick + late) (hsweep : sweep lib (expired now) k now = .ok k') :
    Timely late ⟨now, now⟩ starts k' := by
  have hordered := h.ordered
  refine ⟨le_rfl, by simp only; omega, (sweep_same hsweep).2.2.2.trans h.counted, ?_⟩
  intro w hw
  have hbefore := onTime_sweep (h.ordered.trans hnow) hlate h.onTime hsweep w hw
  refine ⟨?_, hbefore.asks, hbefore.bounded⟩
  rw [(sweep_expired hattended hsweep).1] at hw
  rcases List.mem_append.mp hw with hw | hw
  · simpa [overdue] using (List.mem_filter.mp hw).2
  · obtain ⟨old, -, rfl⟩ := List.mem_map.mp hw
    show now ≤ now + 8 * 1000000
    omega

theorem Timely.step (h : Timely late c starts k) (hattended : Attended k)
    (hallows : c.Allows late event) (hstep : step lib k event = .ok k') :
    Timely late (c.advance event) (starts ++ (startOf event).toList) k' := by
  obtain ⟨hnow, hlate⟩ := hallows
  cases event with
  | asyncSendto target data now => exact h.call hnow hlate hstep
  | process index now =>
    simp only [startOf, Option.toList_none, List.append_nil]
    obtain hidle | ⟨_, _, _, heq, -⟩ | ⟨_, _, packet, avif, heq, -, hprocess⟩ | ⟨_, heq, -⟩ |
      ⟨_, _, heq, -⟩ := step_cases hstep
    · exact h.same hidle.waiters hidle.sends hnow hlate
    · cases heq
    · cases heq
      have hstarted : Timely late c starts { k with spawned := k.spawned.eraseIdx index } :=
        ⟨h.ordered, h.behind, h.counted, h.onTime⟩
      exact hstarted.process hnow hlate hprocess
    · cases heq
    · cases heq
  | timer1 now =>
    simp only [startOf, Option.toList_none, List.append_nil]
    exact h.tick hattended hnow hlate hstep
  | timer2 now =>
    obtain ⟨store, -, rfl⟩ := map_returns hstep
    simp only [startOf, Option.toList_none, List.append_nil]
    exact h.same rfl rfl hnow hlate
  | _ =>
    simp only [startOf, Option.toList_none, List.append_nil]
    obtain hidle | ⟨_, _, _, heq, -⟩ | ⟨_, _, _, _, heq, -⟩ | ⟨_, heq, -⟩ | ⟨_, _, heq, -⟩ :=
      step_cases hstep
    · exact h.same hidle.waiters hidle.sends hnow hlate
    · cases heq
    · cases heq
    · cases heq
    · cases heq

end

-- ---------------------------------------------------------------------------
-- Runs
-- ---------------------------------------------------------------------------

theorem Timely.recent {late : Int} {c : Clock} (h : Timely late c starts k) (hw : w ∈ k.waiters)
    (hstart : starts[w.op.send]? = some start) : c.now ≤ start + 3 * (patience + late) := by
  obtain ⟨hpending, hasks, first, hfirst, hle⟩ := h.onTime w hw
  have hsame := Option.some.inj (hfirst.symm.trans hstart)
  have hordered := h.ordered
  have hclock := h.behind
  have hthree := latest_mono late start (by omega) hasks
  rw [hsame] at hle
  unfold latest at hle hthree
  omega

/-- Every call that is older than three rounds of waiting has enqueued its
packet or given up, once. -/
def SettledBy (late : Int) (c : Clock) (starts : List Int) (k : Kernel) : Prop :=
  ∀ send start, starts[send]? = some start → start + 3 * (patience + late) < c.now →
    k.trace.countP (settles send) = 1

theorem Timely.settled {late : Int} {c : Clock} (h : Timely late c starts k)
    (htallied : Tallied k) : SettledBy late c starts k := by
  intro send start hstart hlong
  have hlt : send < k.sends := by
    rw [h.counted]
    exact (List.getElem?_eq_some_iff.mp hstart).1
  have hnobody : k.waiters.countP (fun w => decide (w.op.send = send)) = 0 := by
    rw [List.countP_eq_zero]
    intro w hw hsend
    have hrecent := h.recent hw (of_decide_eq_true hsend ▸ hstart)
    omega
  have htally := htallied send
  rw [tally, hnobody, Nat.zero_add, if_pos hlt] at htally
  exact htally

/-- In every run on a punctual clock no call takes longer than three rounds of
waiting, whatever is received, purged or shut down in the meantime. -/
theorem settled_in_time (lib : Libs) (late : Nat) (begin : Int) (events : List Event) :
    Lib.Run.AlwaysSince (step lib) (fun done k => Punctual late ⟨begin, begin⟩ done →
      SettledBy late (Clock.after ⟨begin, begin⟩ done) (done.filterMap startOf) k) [] initial
        events := by
  refine Lib.Run.alwaysSince_of_along (R := fun _ _ _ => True)
    (J := fun done k => Reached lib k ∧ (Punctual late ⟨begin, begin⟩ done →
      Timely late (Clock.after ⟨begin, begin⟩ done) (done.filterMap startOf) k)) ?_ ?_ ?_
    (Lib.Run.along_of_invariant (I := fun _ => True) trivial (fun _ _ _ _ _ => trivial)
      (fun _ _ _ _ _ => trivial) events)
  · rintro done k event k' hstep ⟨hreached, htimely⟩ -
    refine ⟨.step hreached hstep, fun hpunctual => ?_⟩
    obtain ⟨hbefore, hallows⟩ := punctual_concat.mp hpunctual
    have hnext := (htimely hbefore).step hreached.attended hallows hstep
    have hstarts : (done ++ [event]).filterMap startOf =
        done.filterMap startOf ++ (startOf event).toList := by
      rw [List.filterMap_append]
      cases h : startOf event <;> simp [h]
    rw [Clock.after, List.foldl_concat, hstarts]
    exact hnext
  · rintro done k ⟨hreached, htimely⟩ hpunctual
    exact (htimely hpunctual).settled hreached.unmade.1
  · exact ⟨.start, fun _ => timely_initial (Int.natCast_nonneg late) begin⟩

def unanswered : List Event :=
  [.addInterface (samplePeer sampleKey), .addRoute (text ".+@.+") [] (text "eth0") 100,
    .asyncSendto (text "a@x") (text "hi") 0] ++
    (List.range 52).map fun n => .timer1 (500000 * (n + 1))

theorem settled_in_time_unanswered :
    Punctual (500000 : Nat) ⟨0, 0⟩ unanswered ∧
      ∃ k, unanswered.foldlM (step sampleLibs) initial = .ok k ∧
        k.trace.countP (settles 0) = 1 ∧ tellings k.trace 0 = [.networkUnreachable] := by
  have hpunctual : Punctual (500000 : Nat) ⟨0, 0⟩ unanswered := by decide +kernel
  have hrun : (unanswered.foldlM (step sampleLibs) initial).map
      (fun k : Kernel => tellings k.trace 0) = .ok [.networkUnreachable] := by
    decide +kernel
  obtain ⟨k, hk, htold⟩ := map_returns hrun
  have hsettled := (settled_in_time sampleLibs 500000 0 unanswered).last hk hpunctual
  exact ⟨hpunctual, k, hk, hsettled 0 0 (by decide +kernel) (by decide +kernel), htold⟩

end Avim.Kernel
