import Avim.Deadlines

/-!
# A kernel and its timers

An `avkernel` arms two timers when it is made, and every tick arms its timer
again before it does its work. The destructor sets `m_quitting` and leaves the
rest to the callbacks that are still armed: each of them comes once more and
arms nothing (`last_ticks`). The first timer is what keeps calls from waiting
forever. So as long as there is an `avkernel` every call is done in time
(`in_service`), and once its timer is gone a call that waits for a key waits
until a packet is processed, if one ever is (`stranded`).

`slack` is how late the `io_service` may be with a callback that is due. One
clock stands for the two that the source reads.
-/

namespace Avim

open Kernel Lib.Octets

structure Service where
  kernel : Kernel
  now : Int
  quitting : Bool
  -- when the callback that is armed is due
  timer1 : Option Int
  timer2 : Option Int
  -- when each call was made
  starts : List Int

inductive ServiceEvent
  -- microseconds go by
  | pass (time : Nat)
  | serve (event : Event)
  | tick1
  | tick2
  | destroy

/-- What an event is at the time it happens. -/
def Event.at (now : Int) : Event → Event
  | .asyncSendto target data _ => .asyncSendto target data now
  | .process index _ => .process index now
  | event => event

def Event.ticks : Event → Bool
  | .timer1 _ => true
  | .timer2 _ => true
  | _ => false

namespace Service

-- 500 milliseconds and 300 seconds
def period1 : Int := 500 * 1000
def period2 : Int := 300 * 1000000

def timer1Start (s : Service) : Service :=
  if s.quitting then s else { s with timer1 := some (s.now + period1) }

def timer2Start (s : Service) : Service :=
  if s.quitting then s else { s with timer2 := some (s.now + period2) }

def avkernel (begin : Int) : Service :=
  timer2Start (timer1Start ⟨.initial, begin, false, none, none, []⟩)

variable (lib : Libs) (slack : Nat)

def due (s : Service) (timer : Option Int) : Bool :=
  match timer with
  | some expiry => expiry ≤ s.now
  | none => false

def timer1Tick (s : Service) : Except Fault Service := do
  let s := timer1Start { s with timer1 := none }
  let kernel ← Kernel.timer1Tick lib s.kernel s.now
  return { s with kernel := kernel }

def timer2Tick (s : Service) : Except Fault Service := do
  let s := timer2Start { s with timer2 := none }
  let kernel ← s.kernel.timer2Tick s.now
  return { s with kernel := kernel }

def bearable (timer : Option Int) (now : Int) : Bool :=
  match timer with
  | some expiry => now ≤ expiry + slack
  | none => true

def step (s : Service) : ServiceEvent → Except Fault Service
  | .pass time =>
    if bearable slack s.timer1 (s.now + time) && bearable slack s.timer2 (s.now + time) then
      .ok { s with now := s.now + time }
    else .ok s
  | .serve event =>
    if event.ticks then .ok s
    else (s.kernel.step lib (event.at s.now)).map fun kernel =>
      { s with kernel := kernel, starts := s.starts ++ (startOf (event.at s.now)).toList }
  | .tick1 => if s.due s.timer1 then s.timer1Tick lib else .ok s
  | .tick2 => if s.due s.timer2 then s.timer2Tick else .ok s
  | .destroy => .ok { s with quitting := true }

-- ---------------------------------------------------------------------------
-- What is to be shown
-- ---------------------------------------------------------------------------

/-- A timer is armed, and neither forgotten nor set for later than its period. -/
def Armed (timer : Option Int) (period now : Int) : Prop :=
  ∃ expiry, timer = some expiry ∧ expiry ≤ now + period ∧ now ≤ expiry + slack

def ticks1 (s : Service) : ServiceEvent → Bool
  | .tick1 => s.due s.timer1
  | _ => false

def ticks2 (s : Service) : ServiceEvent → Bool
  | .tick2 => s.due s.timer2
  | _ => false

def Settled (s : Service) : Prop :=
  ∀ (send : Nat) start, s.starts[send]? = some start →
    start + 3 * (patience + (period1 + slack)) < s.now → s.kernel.trace.countP (settles send) = 1

/-- How late the first timer can be, counted from its last tick. -/
def lateness : Int := period1 + slack

structure Kept (s : Service) : Prop where
  reached : Kernel.Reached lib s.kernel
  timely : ∀ expiry, s.timer1 = some expiry →
    Timely (lateness slack) ⟨s.now, expiry - period1⟩ s.starts s.kernel
  armed1 : s.quitting = false → Armed slack s.timer1 period1 s.now
  armed2 : s.quitting = false → Armed slack s.timer2 period2 s.now

variable {lib slack} {s s' : Service}

@[simp] theorem timer2Start_kernel (s : Service) : (timer2Start s).kernel = s.kernel := by
  unfold timer2Start
  split <;> rfl

@[simp] theorem timer2Start_now (s : Service) : (timer2Start s).now = s.now := by
  unfold timer2Start
  split <;> rfl

theorem waiters_asyncSendto {now : Int} (h : asyncSendto lib k target data now = .ok k') :
    k.waiters ⊆ k'.waiters := by
  obtain ⟨-, rfl⟩ | ⟨interface, -, hsend⟩ := asyncSendto_cases h
  · exact List.Subset.refl _
  · obtain ⟨_, _, _, -, hsame, -⟩ | ⟨_, _, -, -, hsame, -⟩ | ⟨-, -, hsame, -⟩ :=
      sendOrAsk_outcome hsend
    · exact hsame ▸ List.Subset.refl _
    · exact hsame ▸ List.subset_append_left _ _
    · exact hsame ▸ List.Subset.refl _

-- ---------------------------------------------------------------------------
-- The clock of the calls
-- ---------------------------------------------------------------------------

theorem advance_at {event : Event} (now tick : Int) (hticks : event.ticks = false) :
    Clock.advance ⟨now, tick⟩ (event.at now) = ⟨now, tick⟩ := by
  cases event with
  | timer1 _ => cases hticks
  | timer2 _ => cases hticks
  | _ => rfl

theorem Kept.later (h : Kept lib slack s)
    (htimer1 : bearable slack s.timer1 (s.now + time) = true)
    (htimer2 : bearable slack s.timer2 (s.now + time) = true) (htime : 0 ≤ time) :
    Kept lib slack { s with now := s.now + time } := by
  have hwait : ∀ timer period, bearable slack timer (s.now + time) = true →
      Armed slack timer period s.now → Armed slack timer period (s.now + time) := by
    rintro timer period hbearable ⟨expiry, rfl, hle, -⟩
    exact ⟨expiry, rfl, by omega, of_decide_eq_true hbearable⟩
  refine ⟨h.reached, ?_, fun hquit => hwait _ _ htimer1 (h.armed1 hquit),
    fun hquit => hwait _ _ htimer2 (h.armed2 hquit)⟩
  intro expiry hexpiry
  have htimely := h.timely expiry hexpiry
  rw [hexpiry] at htimer1
  have hbearable : s.now + time ≤ expiry + slack := of_decide_eq_true htimer1
  refine htimely.same rfl rfl (show s.now ≤ s.now + time by omega) ?_
  show s.now + time ≤ expiry - period1 + lateness slack
  unfold lateness
  omega

theorem Kept.serve {event : Event} (h : Kept lib slack s) (hticks : event.ticks = false)
    (hstep : s.kernel.step lib (event.at s.now) = .ok k') :
    Kept lib slack { s with
      kernel := k', starts := s.starts ++ (startOf (event.at s.now)).toList } := by
  refine ⟨.step h.reached hstep, ?_, h.armed1, h.armed2⟩
  intro expiry hexpiry
  have htimely := h.timely expiry hexpiry
  have hallows : Clock.Allows (lateness slack) ⟨s.now, expiry - period1⟩ (event.at s.now) := by
    unfold Clock.Allows
    rw [advance_at s.now _ hticks]
    exact ⟨le_rfl, htimely.behind⟩
  have hnext := htimely.step h.reached.attended hallows hstep
  rwa [advance_at s.now _ hticks] at hnext

theorem armed_start (slack : Nat) (now period : Int) (hperiod : 0 ≤ period) :
    Armed slack (some (now + period)) period now :=
  ⟨now + period, rfl, le_rfl, by omega⟩

theorem Kept.tick1 (h : Kept lib slack s) (hdue : s.due s.timer1 = true)
    (htick : s.timer1Tick lib = .ok s') : Kept lib slack s' := by
  unfold Service.timer1Tick at htick
  obtain ⟨k', hsweep, htick⟩ := bind_returns htick
  obtain ⟨expiry, hexpiry⟩ : ∃ expiry, s.timer1 = some expiry := by
    cases htimer : s.timer1 with
    | none =>
      rw [htimer] at hdue
      cases hdue
    | some expiry => exact ⟨expiry, rfl⟩
  have htimely := h.timely expiry hexpiry
  cases hquit : s.quitting with
  | true =>
    simp only [timer1Start, hquit, if_true] at hsweep htick
    obtain rfl := Except.ok.inj htick
    exact ⟨.step h.reached (i := .timer1 s.now) hsweep, nofun, nofun, nofun⟩
  | false =>
    simp only [timer1Start, hquit, Bool.false_eq_true, if_false] at hsweep htick
    obtain rfl := Except.ok.inj htick
    refine ⟨.step h.reached (i := .timer1 s.now) hsweep, ?_,
      fun _ => armed_start slack s.now period1 (by decide), fun _ => h.armed2 hquit⟩
    rintro _ ⟨rfl⟩
    have hticked := htimely.tick h.reached.attended le_rfl htimely.behind hsweep
    have hback : s.now + period1 - period1 = s.now := by omega
    rw [hback]
    exact hticked

theorem Kept.tick2 (h : Kept lib slack s) (htick : s.timer2Tick = .ok s') :
    Kept lib slack s' := by
  unfold Service.timer2Tick at htick
  obtain ⟨k', hpurge, htick⟩ := bind_returns htick
  obtain rfl := Except.ok.inj htick
  rw [timer2Start_kernel, timer2Start_now] at hpurge
  have hreached : Kernel.Reached lib k' := .step h.reached (i := .timer2 s.now) hpurge
  obtain ⟨store, -, rfl⟩ := map_returns hpurge
  have htimely : ∀ expiry, s.timer1 = some expiry →
      Timely (lateness slack) ⟨s.now, expiry - period1⟩ s.starts
        { s.kernel with trustedPubkey := store } := fun expiry hexpiry =>
    (h.timely expiry hexpiry).same rfl rfl le_rfl (h.timely expiry hexpiry).behind
  cases hquit : s.quitting with
  | true =>
    simp only [timer2Start, if_true]
    exact ⟨hreached, htimely, nofun, nofun⟩
  | false =>
    simp only [timer2Start, Bool.false_eq_true, if_false]
    exact ⟨hreached, htimely, fun _ => h.armed1 hquit,
      fun _ => armed_start slack s.now period2 (by decide)⟩

theorem kept_avkernel (lib : Libs) (slack : Nat) (begin : Int) :
    Kept lib slack (avkernel begin) := by
  refine ⟨.start, ?_, fun _ => armed_start slack begin period1 (by decide),
    fun _ => armed_start slack begin period2 (by decide)⟩
  rintro _ ⟨rfl⟩
  have hlate : 0 ≤ lateness slack := by
    unfold lateness period1
    omega
  have hback : begin + period1 - period1 = begin := by omega
  show Timely (lateness slack) ⟨begin, begin + period1 - period1⟩ [] initial
  rw [hback]
  exact timely_initial hlate begin

theorem Kept.step (h : Kept lib slack s) (hstep : s.step lib slack event = .ok s') :
    Kept lib slack s' := by
  cases event with
  | pass time =>
    simp only [Service.step] at hstep
    split at hstep
    · rename_i hbearable
      obtain rfl := Except.ok.inj hstep
      obtain ⟨htimer1, htimer2⟩ := Bool.and_eq_true_iff.mp hbearable
      exact h.later htimer1 htimer2 (Int.natCast_nonneg time)
    · obtain rfl := Except.ok.inj hstep
      exact h
  | serve event =>
    simp only [Service.step] at hstep
    split at hstep
    · obtain rfl := Except.ok.inj hstep
      exact h
    · rename_i hticks
      obtain ⟨k', hkernel, rfl⟩ := map_returns hstep
      exact h.serve (by simpa using hticks) hkernel
  | tick1 =>
    simp only [Service.step] at hstep
    split at hstep
    · rename_i hdue
      exact h.tick1 hdue hstep
    · obtain rfl := Except.ok.inj hstep
      exact h
  | tick2 =>
    simp only [Service.step] at hstep
    split at hstep
    · exact h.tick2 hstep
    · obtain rfl := Except.ok.inj hstep
      exact h
  | destroy =>
    obtain rfl := Except.ok.inj hstep
    exact ⟨h.reached, h.timely, nofun, nofun⟩

-- ---------------------------------------------------------------------------
-- Runs
-- ---------------------------------------------------------------------------

/-- As long as there is an `avkernel`, both timers are armed for some time
within their period and no callback is forgotten. As long as the first one is
armed, which it is for a while after that, no call takes longer than three
rounds of waiting. -/
theorem in_service (lib : Libs) (slack : Nat) (begin : Int) (events : List ServiceEvent) :
    Lib.Run.Always (step lib slack) (fun s =>
      (s.quitting = false →
        Armed slack s.timer1 period1 s.now ∧ Armed slack s.timer2 period2 s.now) ∧
      (s.timer1.isSome = true → s.Settled slack)) (avkernel begin) events := by
  refine Lib.Run.always_of_invariant (I := Kept lib slack) (kept_avkernel lib slack begin)
    (fun _ _ _ hstep hs => hs.step hstep) ?_ events
  intro s hs
  refine ⟨fun hquit => ⟨hs.armed1 hquit, hs.armed2 hquit⟩, fun harmed => ?_⟩
  obtain ⟨expiry, hexpiry⟩ := Option.isSome_iff_exists.mp harmed
  exact (hs.timely expiry hexpiry).settled hs.reached.unmade.1

-- ---------------------------------------------------------------------------
-- After the end
-- ---------------------------------------------------------------------------

/-- What a step does to the timers of a kernel that is quitting. -/
structure Quits (s : Service) (event : ServiceEvent) (s' : Service) : Prop where
  quitting : s'.quitting = true
  timer1 : s'.timer1 = if ticks1 s event then none else s.timer1
  timer2 : s'.timer2 = if ticks2 s event then none else s.timer2

theorem quits_step (hquit : s.quitting = true) (hstep : s.step lib slack event = .ok s') :
    Quits s event s' := by
  cases event with
  | pass time =>
    simp only [Service.step] at hstep
    split at hstep
    · obtain rfl := Except.ok.inj hstep
      exact ⟨hquit, rfl, rfl⟩
    · obtain rfl := Except.ok.inj hstep
      exact ⟨hquit, rfl, rfl⟩
  | serve event =>
    simp only [Service.step] at hstep
    split at hstep
    · obtain rfl := Except.ok.inj hstep
      exact ⟨hquit, rfl, rfl⟩
    · obtain ⟨k', -, rfl⟩ := map_returns hstep
      exact ⟨hquit, rfl, rfl⟩
  | tick1 =>
    simp only [Service.step] at hstep
    split at hstep
    · rename_i hdue
      unfold Service.timer1Tick at hstep
      obtain ⟨k', -, hstep⟩ := bind_returns hstep
      obtain rfl := Except.ok.inj hstep
      simp only [timer1Start, hquit, if_true]
      exact ⟨rfl, by simp [ticks1, hdue], rfl⟩
    · rename_i hdue
      obtain rfl := Except.ok.inj hstep
      exact ⟨hquit, by simp [ticks1, hdue], rfl⟩
  | tick2 =>
    simp only [Service.step] at hstep
    split at hstep
    · rename_i hdue
      unfold Service.timer2Tick at hstep
      obtain ⟨k', -, hstep⟩ := bind_returns hstep
      obtain rfl := Except.ok.inj hstep
      simp only [timer2Start, hquit, if_true]
      exact ⟨rfl, rfl, by simp [ticks2, hdue]⟩
    · rename_i hdue
      obtain rfl := Except.ok.inj hstep
      exact ⟨hquit, rfl, by simp [ticks2, hdue]⟩
  | destroy =>
    obtain rfl := Except.ok.inj hstep
    exact ⟨rfl, rfl, rfl⟩

theorem isSome_of_due (h : s.due timer = true) : timer.isSome = true := by
  cases timer with
  | none => cases h
  | some expiry => rfl

theorem isSome_of_ticks1 (h : ticks1 s event = true) : s.timer1.isSome = true := by
  cases event with
  | tick1 => exact isSome_of_due h
  | _ => cases h

theorem isSome_of_ticks2 (h : ticks2 s event = true) : s.timer2.isSome = true := by
  cases event with
  | tick2 => exact isSome_of_due h
  | _ => cases h

theorem last_tick {timer : Service → Option Int} {ticks : Service → ServiceEvent → Bool}
    (htimer : ∀ s event s', Quits s event s' →
      timer s' = if ticks s event then none else timer s)
    (harmed : ∀ s event, ticks s event = true → (timer s).isSome = true)
    {events : List ServiceEvent} (hquit : s.quitting = true)
    (hafter : events.foldlM (step lib slack) s = .ok t) :
    Lib.Run.countSteps (step lib slack) ticks s events + (timer t).isSome.toNat ≤ 1 := by
  refine (Lib.Run.countSteps_le (I := fun s => s.quitting = true)
    (fun s => (timer s).isSome.toNat) ?_ hquit hafter).trans (Bool.toNat_le _)
  intro s event s' hstep hs
  have hquits := quits_step hs hstep
  refine ⟨hquits.quitting, ?_⟩
  rw [htimer s event s' hquits]
  cases hticks : ticks s event with
  | false => simp
  | true => simp [harmed s event hticks]

/-- After the end of the `avkernel` each timer ticks once more at most, and is
not armed again when it has. -/
theorem last_ticks (lib : Libs) (slack : Nat) (begin : Int) (before after : List ServiceEvent)
    (s t : Service)
    (hbefore : (before ++ [ServiceEvent.destroy]).foldlM (step lib slack) (avkernel begin) = .ok s)
    (hafter : after.foldlM (step lib slack) s = .ok t) :
    Lib.Run.countSteps (step lib slack) ticks1 s after + t.timer1.isSome.toNat ≤ 1 ∧
      Lib.Run.countSteps (step lib slack) ticks2 s after + t.timer2.isSome.toNat ≤ 1 := by
  have hquit : s.quitting = true := by
    rw [List.foldlM_append] at hbefore
    obtain ⟨last, -, hlast⟩ := bind_returns hbefore
    obtain rfl := Except.ok.inj hlast
    rfl
  exact ⟨last_tick (fun _ _ _ h => h.timer1) (fun _ _ h => isSome_of_ticks1 h) hquit hafter,
    last_tick (fun _ _ _ h => h.timer2) (fun _ _ h => isSome_of_ticks2 h) hquit hafter⟩

def sampleTicks : List ServiceEvent :=
  [.pass 500000, .tick1, .tick1, .pass 299500000, .tick2, .tick1]

theorem last_ticks_sample :
    ∃ s t, [ServiceEvent.destroy].foldlM (step sampleLibs 0) (avkernel 0) = .ok s ∧
      sampleTicks.foldlM (step sampleLibs 0) s = .ok t ∧
      Lib.Run.countSteps (step sampleLibs 0) ticks1 s sampleTicks = 1 ∧
      Lib.Run.countSteps (step sampleLibs 0) ticks1 s sampleTicks + t.timer1.isSome.toNat ≤ 1 ∧
      Lib.Run.countSteps (step sampleLibs 0) ticks2 s sampleTicks + t.timer2.isSome.toNat ≤ 1 := by
  have hrun : sampleTicks.foldlM (step sampleLibs 0) { avkernel 0 with quitting := true } =
      .ok ⟨.initial, 300000000, true, none, none, []⟩ := rfl
  exact ⟨_, _, rfl, hrun, rfl, last_ticks sampleLibs 0 0 [] sampleTicks _ _ rfl hrun⟩

theorem waits_step (hgone : s.timer1 = none)
    (hunheard : ∀ index now, event ≠ .serve (.process index now))
    (hstep : s.step lib slack event = .ok s') : s.kernel.waiters ⊆ s'.kernel.waiters := by
  cases event with
  | pass time =>
    simp only [Service.step] at hstep
    split at hstep
    · obtain rfl := Except.ok.inj hstep
      exact List.Subset.refl _
    · obtain rfl := Except.ok.inj hstep
      exact List.Subset.refl _
  | serve event =>
    simp only [Service.step] at hstep
    split at hstep
    · obtain rfl := Except.ok.inj hstep
      exact List.Subset.refl _
    · rename_i hticks
      obtain ⟨k', hkernel, rfl⟩ := map_returns hstep
      have hnone : sweepOf lib s.kernel (event.at s.now) = none := by
        cases event with
        | process index now => exact absurd rfl (hunheard index now)
        | timer1 now => exact absurd rfl hticks
        | _ => rfl
      rcases step_unswept hnone hkernel with hundisturbed | ⟨target, data, now, hcall⟩
      · show s.kernel.waiters ⊆ k'.waiters
        rw [hundisturbed.waiters]
        exact List.Subset.refl _
      · exact waiters_asyncSendto hcall
  | tick1 =>
    simp only [Service.step, hgone, due, Bool.false_eq_true, if_false] at hstep
    obtain rfl := Except.ok.inj hstep
    exact List.Subset.refl _
  | tick2 =>
    simp only [Service.step] at hstep
    split at hstep
    · unfold Service.timer2Tick at hstep
      obtain ⟨k', hpurge, hstep⟩ := bind_returns hstep
      obtain rfl := Except.ok.inj hstep
      rw [timer2Start_kernel] at hpurge
      obtain ⟨store, -, rfl⟩ := map_returns hpurge
      exact List.Subset.refl _
    · obtain rfl := Except.ok.inj hstep
      exact List.Subset.refl _
  | destroy =>
    obtain rfl := Except.ok.inj hstep
    exact List.Subset.refl _

/-- When the last tick is over, a call that waits for a key is not told that it
took too long, nor anything else, until a packet is processed. -/
theorem stranded (lib : Libs) (slack : Nat) (begin : Int) (before after : List ServiceEvent)
    (s t : Service) (hbefore : before.foldlM (step lib slack) (avkernel begin) = .ok s)
    (hquit : s.quitting = true) (hgone : s.timer1 = none)
    (hafter : after.foldlM (step lib slack) s = .ok t)
    (hunheard : ∀ index now, .serve (.process index now) ∉ after) :
    ∀ w ∈ s.kernel.waiters, w ∈ t.kernel.waiters ∧
      t.kernel.trace.countP (settles w.op.send) = 0 ∧ tellings t.kernel.trace w.op.send = [] := by
  have hreached : Lib.Run.Reached (step lib slack) (avkernel begin) t :=
    Lib.Run.reached_of_foldlM (Lib.Run.reached_of_foldlM .start hbefore) hafter
  have hkept : Kept lib slack t := hreached.invariant (kept_avkernel lib slack begin)
    fun _ _ _ hstep hs => hs.step hstep
  have hwaits : s.kernel.waiters ⊆ t.kernel.waiters := by
    clear hbefore hreached hkept
    induction after generalizing s with
    | nil =>
      obtain rfl := Except.ok.inj hafter
      exact List.Subset.refl _
    | cons event after ih =>
      rw [List.foldlM_cons] at hafter
      obtain ⟨s', hstep, hafter⟩ := bind_returns hafter
      have hquits := quits_step hquit hstep
      have hgone' : s'.timer1 = none := by
        rw [hquits.timer1, hgone, ite_self]
      have hnow : s.kernel.waiters ⊆ s'.kernel.waiters :=
        waits_step hgone (fun index now heq => hunheard index now (heq ▸ by simp)) hstep
      exact List.Subset.trans hnow (ih s' hquits.quitting hgone' hafter fun index now hmem =>
        hunheard index now (List.mem_cons_of_mem _ hmem))
  intro w hw
  -- a call waits or is settled, once
  have hunsettled : t.kernel.trace.countP (settles w.op.send) = 0 := by
    have htally := hkept.reached.unmade.1 w.op.send
    have hpos : 0 < t.kernel.waiters.countP (fun v => decide (v.op.send = w.op.send)) :=
      List.countP_pos_iff.mpr ⟨w, hwaits hw, decide_eq_true rfl⟩
    rw [tally] at htally
    split at htally
    · omega
    · omega
  exact ⟨hwaits hw, hunsettled, tellings_of_unsettled hkept.reached.ledger hunsettled⟩

def strandedCall : List ServiceEvent :=
  [.serve (.addInterface (samplePeer sampleKey)),
    .serve (.addRoute (text "a@x") [] (text "eth0") 0),
    .serve (.asyncSendto (text "a@x") (text "hi") 0), .destroy, .pass 500000, .tick1]

theorem stranded_sample :
    ∃ s t, strandedCall.foldlM (step sampleLibs 0) (avkernel 0) = .ok s ∧
      [ServiceEvent.pass 60000000, .tick1].foldlM (step sampleLibs 0) s = .ok t ∧
      ∃ w ∈ s.kernel.waiters, w.op.send = 0 ∧ w ∈ t.kernel.waiters ∧
        t.kernel.trace.countP (settles w.op.send) = 0 ∧
        tellings t.kernel.trace w.op.send = [] := by
  have hrun : (strandedCall.foldlM (step sampleLibs 0) (avkernel 0) >>= fun s =>
      ([ServiceEvent.pass 60000000, .tick1].foldlM (step sampleLibs 0) s).map fun _ =>
        (s.quitting, s.timer1, s.kernel.waiters.map (·.op.send))) = .ok (true, none, [0]) := by
    decide +kernel
  obtain ⟨s, hbefore, hrest⟩ := bind_returns hrun
  obtain ⟨t, hafter, heq⟩ := map_returns hrest
  obtain ⟨hquit, hgone, hwaiters⟩ : s.quitting = true ∧ s.timer1 = none ∧
      s.kernel.waiters.map (·.op.send) = [0] := by simpa using heq
  obtain ⟨w, hw, hsend⟩ : ∃ w ∈ s.kernel.waiters, w.op.send = 0 := by
    rw [← List.mem_map, hwaiters]
    exact List.mem_singleton_self 0
  exact ⟨s, t, hbefore, hafter, w, hw, hsend,
    stranded sampleLibs 0 0 strandedCall _ s t hbefore hquit hgone hafter (by simp) w hw⟩

end Service

end Avim
