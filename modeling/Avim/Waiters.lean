import Avim.Robustness
import Avim.Shutdown

/-!
# What becomes of waiters

The handlers of the waiters are invoked from two loops over their list, and a
handler resumes its call, which may put itself at the end of that list before
the loop goes on. `handlers` are the invocations of a whole run: each waiter
is told once, by the loop that found it due, and a loop that comes to its end
has left the others in their order. It does when every call it resumes can go
on (`waiters_completed_iff`).
-/

namespace Avim.Kernel

open Lib.Octets

-- ---------------------------------------------------------------------------
-- Sweeps and the handlers they invoke
-- ---------------------------------------------------------------------------

inductive Cue
  | packet (packet : AvPacket)
  | tick

structure Sweep where
  kernel : Kernel
  cue : Cue
  now : Int

/-- A handler that was invoked with `ec`. `found` is the state in which its
waiter was found due. -/
structure Invocation where
  waiter : Waiter
  ec : ErrorCode
  found : Kernel

namespace Sweep

def ec (s : Sweep) : ErrorCode :=
  match s.cue with
  | .packet _ => .success
  | .tick => .timedOut

def due (s : Sweep) : Kernel → Waiter → Except Fault Bool :=
  match s.cue with
  | .packet packet => answered packet
  | .tick => expired s.now

def picks (s : Sweep) (w : Waiter) : Bool := s.due s.kernel w = .ok true

end Sweep

def thrown : Fault → Bool
  | .lengthError | .outOfRange => true
  | _ => false

section

variable (lib : Libs)

def Sweep.run (s : Sweep) : Except Fault Kernel := sweep lib s.due s.kernel s.now

/-- The sweep that an event comes to. The one after a packet is done on the
way out, also when an exception is the way out. -/
def sweepOf (k : Kernel) : Event → Option Sweep
  | .process index now =>
    match k.spawned[index]? with
    | some (packet, avif) =>
      match checkKey lib { k with spawned := k.spawned.eraseIdx index } packet now with
      | .ok checked =>
        match deliverOrForward lib checked packet avif now with
        | .ok handled => some ⟨handled, .packet packet, now⟩
        | .error fault => if thrown fault then some ⟨checked, .packet packet, now⟩ else none
      | .error _ => none
    | none => none
  | .timer1 now => some ⟨k, .tick, now⟩
  | _ => none

/-- The handlers that `sweepFrom` invokes, also when it does not return. -/
def handlersFrom (ec : ErrorCode) (due : Kernel → Waiter → Except Fault Bool) (now : Int) :
    Nat → Kernel → Nat → List Invocation
  | 0, _, _ => []
  | fuel + 1, k, i =>
    match k.waiters[i]? with
    | none => []
    | some w =>
      match due k w with
      | .ok true =>
        ⟨w, ec, k⟩ ::
          match sendOrAsk lib k w.op now with
          | .ok resumed =>
            handlersFrom ec due now fuel { resumed with waiters := resumed.waiters.eraseIdx i } i
          | .error _ => []
      | .ok false => handlersFrom ec due now fuel k (i + 1)
      | .error _ => []

def Sweep.handlers (s : Sweep) : List Invocation :=
  handlersFrom lib s.ec s.due s.now ((s.kernel.waiters.map Waiter.rounds).sum + 1) s.kernel 0

def handlersOf (k : Kernel) (event : Event) : List Invocation :=
  match sweepOf lib k event with
  | some s => s.handlers lib
  | none => []

def handlers : Kernel → List Event → List Invocation
  | _, [] => []
  | k, event :: events =>
    handlersOf lib k event ++
      match step lib k event with
      | .ok k' => handlers k' events
      | .error _ => []

end

def waitOf (w : Waiter) : Nat × Nat := (w.op.send, w.op.asks)

def Invocation.wait (i : Invocation) : Nat × Nat := waitOf i.waiter

-- ---------------------------------------------------------------------------
-- What is to be shown
-- ---------------------------------------------------------------------------

namespace Sweep

/-- The handler was told what the sweep is for, and its waiter was due. -/
def Justifies (s : Sweep) (i : Invocation) : Prop :=
  match s.cue with
  | .packet packet => i.ec = .success ∧ avAddressToString packet.src = i.waiter.op.target ∧
      ∃ key, i.found.trustedPubkey.findRSAPubkey i.waiter.op.target = .ok (some key)
  | .tick => i.ec = .timedOut ∧ i.waiter.deadline < s.now

/-- The due waiters were told in their order. The others are left in theirs,
with those that registered again after them, and nobody who is left is due. -/
structure Leaves (lib : Libs) (s : Sweep) (k' : Kernel) : Prop where
  told : (s.handlers lib).map (·.waiter) = s.kernel.waiters.filter s.picks
  waiters : k'.waiters = s.kernel.waiters.filter (!s.picks ·) ++
    (s.kernel.waiters.filter s.picks).filterMap (again s.kernel.trustedPubkey s.now)
  nobody : ∀ w ∈ k'.waiters, s.due k' w = .ok false

/-- Every call the sweep resumes can go on. -/
def Continues (lib : Libs) (s : Sweep) : Prop :=
  Continuable lib s.kernel.routing s.kernel.trustedPubkey s.kernel.draws
    (s.kernel.waiters.filter s.picks)

end Sweep

/-- The waiters of the run complete as specified. -/
structure Completed (lib : Libs) (events : List Event) : Prop where
  once : ((handlers lib initial events).map Invocation.wait).Nodup
  -- a waiter that was told is not registered any more
  gone : ∀ k, events.foldlM (step lib) initial = .ok k →
    ((handlers lib initial events).map Invocation.wait ++ k.waiters.map waitOf).Nodup
  justified : Lib.Run.Tried (step lib) (fun k event => ∀ s, sweepOf lib k event = some s →
    ∀ i ∈ s.handlers lib, s.Justifies i) initial events
  swept : Lib.Run.Tried (step lib) (fun k event => ∀ s, sweepOf lib k event = some s →
    ∃ k', s.run lib = .ok k' ∧ s.Leaves lib k') initial events

variable {lib : Libs} {k k' : Kernel}

-- ---------------------------------------------------------------------------
-- One sweep
-- ---------------------------------------------------------------------------

theorem due_of_mem_handlersFrom {ec : ErrorCode} {due : Kernel → Waiter → Except Fault Bool}
    (h : invocation ∈ handlersFrom lib ec due now fuel k i) :
    invocation.ec = ec ∧ due invocation.found invocation.waiter = .ok true := by
  induction fuel generalizing k i with
  | zero => cases h
  | succ fuel ih =>
    unfold handlersFrom at h
    split at h
    · cases h
    · rename_i w hw
      split at h
      · rename_i hdue
        rcases List.mem_cons.mp h with rfl | h
        · exact ⟨rfl, hdue⟩
        · split at h
          · exact ih h
          · cases h
      · exact ih h
      · cases h

theorem answered_eq_true (h : answered packet k w = .ok true) :
    avAddressToString packet.src = w.op.target ∧
      ∃ key, k.trustedPubkey.findRSAPubkey w.op.target = .ok (some key) := by
  unfold answered at h
  split at h
  · rename_i hsrc
    obtain ⟨found, hfound, hsome⟩ := map_returns h
    obtain ⟨key, rfl⟩ := Option.isSome_iff_exists.mp hsome
    exact ⟨hsrc, key, hfound⟩
  · cases h

theorem Sweep.justifies (s : Sweep) (h : i ∈ s.handlers lib) : s.Justifies i := by
  obtain ⟨k, cue, now⟩ := s
  obtain ⟨hec, hdue⟩ := due_of_mem_handlersFrom h
  cases cue with
  | packet packet => exact ⟨hec, answered_eq_true hdue⟩
  | tick => exact ⟨hec, of_decide_eq_true (Except.ok.inj hdue)⟩

theorem handlersFrom_skip (ec : ErrorCode) {due : Kernel → Waiter → Except Fault Bool}
    (fuel : Nat) (hw : k.waiters = done ++ w :: rest) (hdue : due k w = .ok false) :
    handlersFrom lib ec due now (fuel + 1) k done.length =
      handlersFrom lib ec due now fuel k (done ++ [w]).length := by
  have hat : k.waiters[done.length]? = some w := by simp [hw]
  rw [handlersFrom, hat]
  simp [hdue]

theorem handlersFrom_resume (ec : ErrorCode) {due : Kernel → Waiter → Except Fault Bool}
    (fuel : Nat) (hw : k.waiters = done ++ w :: rest) (hdue : due k w = .ok true)
    (hres : sendOrAsk lib k w.op now = .ok resumed) :
    handlersFrom lib ec due now (fuel + 1) k done.length = ⟨w, ec, k⟩ ::
      handlersFrom lib ec due now fuel
        { resumed with waiters := resumed.waiters.eraseIdx done.length } done.length := by
  have hat : k.waiters[done.length]? = some w := by simp [hw]
  rw [handlersFrom, hat]
  simp [hdue, hres]

theorem handlersFrom_returns {due : Kernel → Waiter → Except Fault Bool} {p : Waiter → Bool}
    {store : KeyStore} (hpicks : Picks due p store now) (ec : ErrorCode) (done : List Waiter)
    (hstore : k.trustedPubkey = store) (hw : k.waiters = done ++ rest)
    (h : sweepFrom lib due now fuel k done.length = .ok k') :
    (handlersFrom lib ec due now fuel k done.length).map (·.waiter) = rest.filter p := by
  refine hpicks.rule lib (motive := fun fuel k done rest =>
    sweepFrom lib due now fuel k done.length = .ok k' →
      (handlersFrom lib ec due now fuel k done.length).map (·.waiter) = rest.filter p)
    ?_ ?_ ?_ ?_ fuel hstore hw h
  · intro k done rest h
    cases h
  · intro fuel k _
    have hnone : k.waiters[k.waiters.length]? = none := by simp
    rw [handlersFrom, hnone]
    rfl
  · intro fuel k done w rest hw hdue hp ih h
    rw [sweepFrom_skip fuel hw hdue] at h
    rw [handlersFrom_skip ec fuel hw hdue, ih h, List.filter_cons_of_neg (by simp [hp])]
  · intro fuel k done w rest _ hw hdue hp ih h
    rw [sweepFrom_resume fuel hw hdue] at h
    obtain ⟨resumed, hres, h⟩ := bind_returns h
    rw [handlersFrom_resume ec fuel hw hdue hres, List.map_cons, ih resumed hres h,
      hpicks.filter_again, List.filter_cons_of_pos hp]

namespace Sweep

theorem picks_tick (k : Kernel) (now : Int) :
    (⟨k, .tick, now⟩ : Sweep).picks = overdue now := by
  funext w
  simp [Sweep.picks, Sweep.due, expired, overdue]

theorem picks_decides (s : Sweep) (hfilled : s.kernel.trustedPubkey.Filled) :
    Picks s.due s.picks s.kernel.trustedPubkey s.now := by
  obtain ⟨kernel, cue, now⟩ := s
  cases cue with
  | tick =>
    rw [picks_tick]
    exact picks_expired _ _
  | packet packet =>
    constructor
    · intro k w hstore
      obtain ⟨found, hfound, -⟩ := hfilled.find w.op.target
      by_cases hsrc : avAddressToString packet.src = w.op.target
      · simp [Sweep.picks, Sweep.due, answered, hsrc, hstore, hfound, Except.map]
      · simp [Sweep.picks, Sweep.due, answered, hsrc]
    · intro w v hagain
      unfold again at hagain
      split at hagain
      · rename_i hnone
        cases hagain
        simp [Sweep.picks, Sweep.due, answered, renew, hnone.1, Except.map]
      · cases hagain

theorem leaves_of_returns (s : Sweep) (hfilled : s.kernel.trustedPubkey.Filled)
    (h : s.run lib = .ok k') : s.Leaves lib k' := by
  have hpicks := s.picks_decides hfilled
  have hwaiters := (sweep_shape hpicks h).1
  refine ⟨handlersFrom_returns hpicks s.ec [] rfl rfl h, hwaiters, ?_⟩
  intro w hw
  rw [hpicks.decides k' w (sweep_same h).2.1]
  rw [hwaiters] at hw
  rcases List.mem_append.mp hw with hw | hw
  · have hspared : s.picks w = false := by simpa using (List.mem_filter.mp hw).2
    rw [hspared]
  · obtain ⟨v, -, hagain⟩ := List.mem_filterMap.mp hw
    rw [hpicks.spares v w hagain]

theorem returns_iff (s : Sweep) (hfilled : s.kernel.trustedPubkey.Filled) :
    (∃ k', s.run lib = .ok k' ∧ s.Leaves lib k') ↔ s.Continues lib := by
  have hiff := sweepFrom_returns_iff lib (s.picks_decides hfilled) [] rfl rfl
    (Nat.lt_succ_self _)
  rw [Sweep.Continues, ← hiff]
  constructor
  · rintro ⟨k', h, -⟩
    exact ⟨k', h⟩
  · rintro ⟨k', h⟩
    exact ⟨k', h, s.leaves_of_returns hfilled h⟩

end Sweep

-- ---------------------------------------------------------------------------
-- Steps
-- ---------------------------------------------------------------------------

def callOf : Effect → Option Nat
  | .enqueued _ (.pkask send) _ => some send
  | .enqueued _ (.data send) _ => some send
  | .completed send .networkUnreachable => some send
  | _ => none

structure Undisturbed (k k' : Kernel) : Prop where
  waiters : k'.waiters = k.waiters
  sends : k'.sends = k.sends
  sent : ∃ new, k'.trace = k.trace ++ new ∧ ∀ effect ∈ new, callOf effect = none

theorem undisturbed_of_same (hwaiters : k'.waiters = k.waiters) (hsends : k'.sends = k.sends)
    (htrace : k'.trace = k.trace) : Undisturbed k k' :=
  ⟨hwaiters, hsends, [], by simp [htrace], by simp⟩

theorem runnerLoop_undisturbed (k : Kernel) (port : Nat) (p : Port) :
    Undisturbed k (k.runnerLoop port p) := by
  have hidle := runnerLoop_idle k port p
  exact undisturbed_of_same hidle.waiters hidle.sends (runnerLoop_trace k port p)

theorem runnerRead_undisturbed (k : Kernel) (port : Nat) (p : Port) (packet : Option AvPacket) :
    Undisturbed k (k.runnerRead port p packet) := by
  have hidle := runnerRead_idle k port p packet
  exact undisturbed_of_same hidle.waiters hidle.sends (runnerRead_trace k port p packet)

theorem writerWrote_undisturbed (k : Kernel) (port : Nat) (p : Port) (bytes : Bytes)
    (handler : Option Nat) (written : Bool) :
    Undisturbed k (k.writerWrote port p bytes handler written) := by
  have hidle := writerWrote_idle k port p bytes handler written
  refine ⟨hidle.waiters, hidle.sends, _, writerWrote_trace k port p bytes handler written, ?_⟩
  cases handler with
  | none => simp [callOf]
  | some send => simp [callOf]

theorem runPosted_undisturbed (h : runPosted lib k = .ok k') : Undisturbed k k' := by
  have hidle := runPosted_idle h
  refine ⟨hidle.waiters, hidle.sends, ?_⟩
  obtain ⟨-, rfl⟩ | ⟨port, ec, value, rest, -, ⟨-, rfl⟩ | ⟨p, -, ⟨-, rfl⟩ | ⟨bytes, -, -, rfl⟩⟩⟩ |
    ⟨call, ec, value, rest, -, rfl⟩ := runPosted_cases h
  · exact ⟨[], by simp, by simp⟩
  · exact ⟨[], by simp, by simp⟩
  · exact ⟨[], by simp [setPort], by simp⟩
  · exact ⟨[], by simp [setPort], by simp⟩
  · exact ⟨_, rfl, by simp [callOf]⟩

theorem checkKey_undisturbed (h : checkKey lib k packet now = .ok k') : Undisturbed k k' := by
  obtain ⟨hwaiters, hsends, -, -, -, htrace⟩ := checkKey_same h
  exact undisturbed_of_same hwaiters hsends htrace

theorem deliverOrForward_undisturbed (hchecked : checkKey lib k packet now = .ok checked)
    (h : deliverOrForward lib checked packet avif now = .ok handled) : Undisturbed k handled := by
  have hhandled := handled_of_delivered hchecked h
  refine ⟨hhandled.waiters, hhandled.sends, ?_⟩
  rw [← checkKey_trace hchecked]
  obtain ⟨-, h⟩ | ⟨-, h⟩ := deliverOrForward_cases hchecked h
  · obtain ⟨-, rfl⟩ | ⟨-, rsa, -, rfl⟩ | ⟨-, -, payload, -, ⟨-, rfl⟩ | ⟨-, rfl⟩⟩ := toMe_cases h
    · exact ⟨_, rfl, by simp [callOf]⟩
    · exact ⟨[], by simp, by simp⟩
    · exact ⟨_, rfl, by simp [callOf]⟩
    · exact ⟨[], by simp, by simp⟩
  · obtain rfl | ⟨-, interface, t, -, rfl⟩ := forward_cases h
    · exact ⟨[], by simp, by simp⟩
    · exact ⟨_, rfl, by simp [callOf]⟩

theorem sweepOf_cases (h : sweepOf lib k event = some s) :
    Undisturbed k s.kernel ∧ (Standing k → Standing s.kernel) ∧
      ∀ k', step lib k event = .ok k' → s.run lib = .ok k' := by
  unfold sweepOf at h
  split at h
  · rename_i index now
    split at h
    · rename_i packet avif hpacket
      split at h
      · rename_i checked hchecked
        split at h
        · rename_i handled hhandled
          cases h
          have hparts := handled_of_delivered hchecked hhandled
          obtain ⟨hwaiters, hsends, hsent⟩ := deliverOrForward_undisturbed hchecked hhandled
          refine ⟨⟨hwaiters, hsends, hsent⟩, ?_, ?_⟩
          · intro hk
            exact ⟨hparts.filled hk.filled, hparts.routing ▸ hk.wellFormed⟩
          · intro k' hstep
            simp only [step, hpacket, processRecivedPacket, hchecked, hhandled, ok_bind] at hstep
            exact hstep
        · rename_i fault hfault
          split at h
          · cases h
            obtain ⟨hwaiters, hsends, hsent⟩ := checkKey_undisturbed hchecked
            refine ⟨⟨hwaiters, hsends, hsent⟩, ?_, ?_⟩
            · intro hk
              have hstarted : Standing { k with spawned := k.spawned.eraseIdx index } :=
                ⟨hk.filled, hk.wellFormed⟩
              exact hstarted.checkKey hchecked
            · intro k' hstep
              simp only [step, hpacket, processRecivedPacket, hchecked, hfault, ok_bind,
                error_bind] at hstep
              cases hstep
          · cases h
      · cases h
    · cases h
  · cases h
    exact ⟨undisturbed_of_same rfl rfl rfl, fun hk => hk, fun _ hstep => hstep⟩
  · cases h

theorem step_unswept (hnone : sweepOf lib k event = none) (h : step lib k event = .ok k') :
    Undisturbed k k' ∨
      ∃ target data now, asyncSendto lib k target data now = .ok k' := by
  cases step_does h with
  | asyncSendto hcall => exact .inr ⟨_, _, _, hcall⟩
  | @process index packet avif now _ hpacket hprocess =>
    obtain ⟨checked, hchecked, hrest⟩ := bind_returns hprocess
    obtain ⟨handled, hhandled, -⟩ := bind_returns hrest
    simp [sweepOf, hpacket, hchecked, hhandled] at hnone
  | timer1 _ => cases hnone
  | startRunner _ _ => exact .inl (runnerLoop_undisturbed _ _ _)
  | read packet _ _ => exact .inl (runnerRead_undisturbed _ _ _ _)
  | @startWriter port p _ _ =>
    have hidle := writerLoop_idle k port p
    exact .inl (undisturbed_of_same hidle.waiters hidle.sends (writerLoop_trace k port p))
  | writeDone written _ _ => exact .inl (writerWrote_undisturbed _ _ _ _ _ _)
  | runPosted hposted => exact .inl (runPosted_undisturbed hposted)
  | _ => exact .inl (undisturbed_of_same rfl rfl rfl)

-- ---------------------------------------------------------------------------
-- Runs
-- ---------------------------------------------------------------------------

/-- `I` speaks of the handlers invoked so far and of the state. It outlives
whatever else happens, calls, and resumed calls. -/
structure Keeps (lib : Libs) (I : List Invocation → Kernel → Prop) : Prop where
  undisturbed : ∀ told k k', Undisturbed k k' → I told k → I told k'
  call : ∀ told k k' target data now, asyncSendto lib k target data now = .ok k' →
    I told k → I told k'
  resume : ∀ told (k : Kernel) (i : Nat) w ec now resumed, k.waiters[i]? = some w →
    sendOrAsk lib k w.op now = .ok resumed → I told k →
    I (told ++ [⟨w, ec, k⟩]) { resumed with waiters := resumed.waiters.eraseIdx i }

section

variable {I : List Invocation → Kernel → Prop}

theorem Keeps.handlersFrom (hI : Keeps lib I) {ec : ErrorCode}
    {due : Kernel → Waiter → Except Fault Bool} (h : I told k)
    (hswept : sweepFrom lib due now fuel k i = .ok k') :
    I (told ++ handlersFrom lib ec due now fuel k i) k' := by
  induction fuel generalizing k i told with
  | zero => cases hswept
  | succ fuel ih =>
    unfold sweepFrom at hswept
    unfold Kernel.handlersFrom
    split at hswept
    · rename_i hend
      cases hswept
      simpa [hend] using h
    · rename_i w hw
      obtain ⟨isDue, hdue, hswept⟩ := bind_returns hswept
      cases isDue with
      | true =>
        obtain ⟨resumed, hres, hswept⟩ := bind_returns hswept
        have hnext := ih (hI.resume _ _ _ _ ec _ _ hw hres h) hswept
        simpa [hw, hdue, hres] using hnext
      | false => simpa [hw, hdue] using ih h hswept

theorem Keeps.handlers (hI : Keeps lib I) (h : I told k)
    (hrun : events.foldlM (step lib) k = .ok k') : I (told ++ handlers lib k events) k' := by
  induction events generalizing k told with
  | nil =>
    cases hrun
    simpa [Kernel.handlers] using h
  | cons event events ih =>
    rw [List.foldlM_cons] at hrun
    obtain ⟨next, hstep, hrun⟩ := bind_returns hrun
    have hnext : I (told ++ handlersOf lib k event) next := by
      cases hs : sweepOf lib k event with
      | some s =>
        obtain ⟨hbefore, -, hswept⟩ := sweepOf_cases hs
        rw [handlersOf, hs]
        exact hI.handlersFrom (hI.undisturbed _ _ _ hbefore h) (hswept next hstep)
      | none =>
        have hsame : told ++ handlersOf lib k event = told := by simp [handlersOf, hs]
        rw [hsame]
        obtain hquiet | ⟨target, data, now, hcall⟩ := step_unswept hs hstep
        · exact hI.undisturbed _ _ _ hquiet h
        · exact hI.call _ _ _ _ _ _ hcall h
    have hrest := ih hnext hrun
    simpa [Kernel.handlers, hstep] using hrest

/-- What holds of the invocations while `I` does, and still holds with the last
one before a fault, holds of the invocations of every run. -/
theorem Keeps.handlersFrom_all (hI : Keeps lib I) {P : List Invocation → Prop}
    (hP : ∀ told k, I told k → P told)
    (hlast : ∀ told (k : Kernel) (i : Nat) w ec, I told k → k.waiters[i]? = some w →
      P (told ++ [⟨w, ec, k⟩]))
    {ec : ErrorCode} {due : Kernel → Waiter → Except Fault Bool} (h : I told k) :
    P (told ++ Kernel.handlersFrom lib ec due now fuel k i) := by
  induction fuel generalizing k i told with
  | zero => simpa [Kernel.handlersFrom] using hP _ _ h
  | succ fuel ih =>
    unfold Kernel.handlersFrom
    split
    · simpa using hP _ _ h
    · rename_i w hw
      split
      · split
        · rename_i resumed hres
          have hnext := ih (i := i) (hI.resume _ _ _ _ ec _ _ hw hres h)
          simpa using hnext
        · exact hlast _ _ _ _ _ h hw
      · exact ih h
      · simpa using hP _ _ h

theorem Keeps.handlers_all (hI : Keeps lib I) {P : List Invocation → Prop}
    (hP : ∀ told k, I told k → P told)
    (hlast : ∀ told (k : Kernel) (i : Nat) w ec, I told k → k.waiters[i]? = some w →
      P (told ++ [⟨w, ec, k⟩]))
    (h : I told k) (events : List Event) : P (told ++ Kernel.handlers lib k events) := by
  induction events generalizing k told with
  | nil => simpa [Kernel.handlers] using hP _ _ h
  | cons event events ih =>
    cases hstep : step lib k event with
    | ok next =>
      have hrun : [event].foldlM (step lib) k = .ok next := by
        rw [List.foldlM_cons, hstep]
        rfl
      have hnext := hI.handlers h hrun
      simp only [Kernel.handlers, hstep, List.append_nil] at hnext ⊢
      rw [← List.append_assoc]
      exact ih hnext
    | error fault =>
      rw [Kernel.handlers, hstep, List.append_nil, handlersOf]
      cases hs : sweepOf lib k event with
      | some s => exact hI.handlersFrom_all hP hlast (hI.undisturbed _ _ _ (sweepOf_cases hs).1 h)
      | none => simpa using hP _ _ h

end

-- ---------------------------------------------------------------------------
-- Told once
-- ---------------------------------------------------------------------------

theorem Tallied.lt_of_waiting (h : Tallied k) (hw : w ∈ k.waiters) : w.op.send < k.sends := by
  have htally := h w.op.send
  have hpos : 0 < k.waiters.countP (fun v => decide (v.op.send = w.op.send)) :=
    List.countP_pos_iff.mpr ⟨w, hw, decide_eq_true rfl⟩
  rw [tally] at htally
  split at htally
  · assumption
  · omega

theorem Tallied.apart (h : Tallied k) (hw : k.waiters[i]? = some w)
    (hv : v ∈ k.waiters.eraseIdx i) : v.op.send ≠ w.op.send := by
  intro hsend
  obtain ⟨hlt, hget⟩ := List.getElem?_eq_some_iff.mp hw
  have htally := h w.op.send
  have hcount := (List.getElem_cons_eraseIdx_perm hlt).countP_eq
    (fun v => decide (v.op.send = w.op.send))
  have hpos : 0 < (k.waiters.eraseIdx i).countP (fun v => decide (v.op.send = w.op.send)) :=
    List.countP_pos_iff.mpr ⟨v, hv, decide_eq_true hsend⟩
  rw [hget, List.countP_cons] at hcount
  simp only [decide_true, if_true] at hcount
  rw [tally] at htally
  split at htally
  · omega
  · omega

theorem Tallied.nodup (h : Tallied k) : (k.waiters.map waitOf).Nodup := by
  have hsends : (k.waiters.map (·.op.send)).Nodup := by
    rw [List.nodup_iff_count_le_one]
    intro send
    have hcount : (k.waiters.map (·.op.send)).count send =
        k.waiters.countP (fun w => decide (w.op.send = send)) := by
      rw [List.count, List.countP_map]
      exact List.countP_congr fun w _ => by simp
    have htally := h send
    rw [tally, ← hcount] at htally
    split at htally
    · omega
    · omega
  refine List.Nodup.of_map Prod.fst ?_
  rw [List.map_map]
  exact hsends

/-- The calls of the handlers that were invoked were made, and wait, if they
do, for a later time. -/
structure Once (told : List Invocation) (k : Kernel) : Prop where
  tallied : Tallied k
  nodup : (told.map Invocation.wait).Nodup
  known : ∀ i ∈ told, i.waiter.op.send < k.sends
  earlier : ∀ i ∈ told, ∀ w ∈ k.waiters, i.waiter.op.send = w.op.send →
    i.waiter.op.asks < w.op.asks

theorem once_initial : Once [] initial :=
  ⟨tallied_initial, List.nodup_nil, by simp, by simp⟩

theorem Once.fresh (h : Once told k) (hw : w ∈ k.waiters) :
    waitOf w ∉ told.map Invocation.wait := by
  intro hmem
  obtain ⟨i, hi, hwait⟩ := List.mem_map.mp hmem
  have hsend : i.waiter.op.send = w.op.send := congrArg Prod.fst hwait
  have hasks : i.waiter.op.asks = w.op.asks := congrArg Prod.snd hwait
  exact absurd hasks (Nat.ne_of_lt (h.earlier i hi w hw hsend))

theorem Once.tell (h : Once told k) (hw : w ∈ k.waiters) (ec : ErrorCode) :
    ((told ++ [Invocation.mk w ec k]).map Invocation.wait).Nodup := by
  rw [List.map_append, List.nodup_append']
  refine ⟨h.nodup, List.nodup_singleton _, ?_⟩
  intro wait hold hnew
  rw [List.map_singleton, List.mem_singleton] at hnew
  subst hnew
  exact h.fresh hw hold

theorem settles_of_quiet (h : callOf effect = none) (send : Nat) : settles send effect = false := by
  cases effect with
  | enqueued link cause packet =>
    cases cause with
    | data other => cases h
    | _ => rfl
  | completed other ec =>
    cases ec with
    | networkUnreachable => cases h
    | _ => rfl
  | _ => rfl

theorem mem_waiters_call (h : asyncSendto lib k target data now = .ok k') (hw : w ∈ k'.waiters) :
    w ∈ k.waiters ∨ w.op.send = k.sends := by
  obtain ⟨-, rfl⟩ | ⟨interface, -, hsend⟩ := asyncSendto_cases h
  · exact .inl hw
  · obtain ⟨_, _, _, -, hsame, -⟩ | ⟨_, _, -, -, hsame, -⟩ | ⟨-, -, hsame, -⟩ :=
      sendOrAsk_outcome hsend
    · exact .inl (hsame ▸ hw)
    · rw [hsame] at hw
      rcases List.mem_append.mp hw with hw | hw
      · exact .inl hw
      · rw [List.mem_singleton.mp hw]
        exact .inr rfl
    · exact .inl (hsame ▸ hw)

theorem again_eq_some (h : again store now w = some v) :
    v = renew now w.op ∧ store.findRSAPubkey w.op.target = .ok none ∧ w.op.asks < 3 := by
  unfold again at h
  split at h
  · rename_i hasks
    exact ⟨(Option.some.inj h).symm, hasks⟩
  · cases h

theorem once_keeps (lib : Libs) : Keeps lib Once := by
  constructor
  · intro told k k' hquiet h
    obtain ⟨hwaiters, hsends, new, htrace, hnew⟩ := hquiet
    refine ⟨h.tallied.quiet hwaiters hsends htrace ?_, h.nodup, ?_, ?_⟩
    · intro send effect heffect
      exact settles_of_quiet (hnew effect heffect) send
    · rw [hsends]
      exact h.known
    · rw [hwaiters]
      exact h.earlier
  · intro told k k' target data now hcall h
    obtain ⟨-, -, -, hsends⟩ := asyncSendto_same hcall
    refine ⟨h.tallied.call hcall, h.nodup, ?_, ?_⟩
    · intro i hi
      rw [hsends]
      exact Nat.lt_succ_of_lt (h.known i hi)
    · intro i hi w hw hsend
      rcases mem_waiters_call hcall hw with hw | hw
      · exact h.earlier i hi w hw hsend
      · have hlt := h.known i hi
        omega
  · intro told k at' w ec now resumed hw hres h
    have hmem : w ∈ k.waiters := List.mem_of_getElem? hw
    obtain ⟨-, -, -, hsends⟩ := sendOrAsk_same hres
    refine ⟨h.tallied.resume hw hres, h.tell hmem ec, ?_, ?_⟩
    · intro i hi
      rw [hsends]
      rcases List.mem_append.mp hi with hi | hi
      · exact h.known i hi
      · rw [List.mem_singleton.mp hi]
        exact h.tallied.lt_of_waiting hmem
    · intro i hi v hv hsend
      rw [waiters_resumed hw hres] at hv
      rcases List.mem_append.mp hi with hi | hi
      · rcases List.mem_append.mp hv with hv | hv
        · exact h.earlier i hi v (List.mem_of_mem_eraseIdx hv) hsend
        · obtain ⟨rfl, -⟩ := again_eq_some (Option.mem_toList.mp hv)
          exact Nat.lt_succ_of_lt (h.earlier i hi w hmem hsend)
      · rw [List.mem_singleton.mp hi] at hsend ⊢
        rcases List.mem_append.mp hv with hv | hv
        · exact absurd hsend.symm (h.tallied.apart hw hv)
        · obtain ⟨rfl, -⟩ := again_eq_some (Option.mem_toList.mp hv)
          exact Nat.lt_succ_self _

theorem Once.gone (h : Once told k) :
    (told.map Invocation.wait ++ k.waiters.map waitOf).Nodup := by
  rw [List.nodup_append']
  refine ⟨h.nodup, h.tallied.nodup, ?_⟩
  intro wait hold hnew
  obtain ⟨w, hw, rfl⟩ := List.mem_map.mp hnew
  exact h.fresh hw hold

-- ---------------------------------------------------------------------------
-- All of it
-- ---------------------------------------------------------------------------

/-- In every run: the waiters complete as specified exactly when every call that
a sweep resumes can go on. -/
theorem waiters_completed_iff (lib : Libs) (events : List Event) :
    Completed lib events ↔
      Lib.Run.Tried (step lib) (fun k event => ∀ s, sweepOf lib k event = some s → s.Continues lib)
        initial events := by
  have hswept : ∀ k event, Standing k →
      ((∀ s, sweepOf lib k event = some s → ∃ k', s.run lib = .ok k' ∧ s.Leaves lib k') ↔
        ∀ s, sweepOf lib k event = some s → s.Continues lib) := by
    intro k event hk
    refine forall₂_congr fun s hs => ?_
    exact s.returns_iff ((sweepOf_cases hs).2.1 hk).filled
  have hstanding : ∀ k event k', step lib k event = .ok k' → Standing k → Standing k' :=
    fun _ _ _ hstep hk => hk.step hstep
  have hiff := Lib.Run.tried_iff_of_invariant hstanding hswept standing_initial events
  constructor
  · intro h
    exact hiff.mp h.swept
  · intro h
    have hkeeps := once_keeps lib
    refine ⟨?_, ?_, ?_, hiff.mpr h⟩
    · exact hkeeps.handlers_all (fun _ _ honce => honce.nodup)
        (fun _ _ _ _ ec honce hw => honce.tell (List.mem_of_getElem? hw) ec) once_initial events
    · intro k hrun
      exact (hkeeps.handlers once_initial hrun).gone
    · refine Lib.Run.tried_of_invariant (I := fun _ => True) (fun _ _ _ _ _ => trivial) ?_
        trivial events
      intro k event _ s _ i hi
      exact s.justifies hi

/-- A call waits for the key of `a@x` when a packet from there arrives. The key
it carries has a modulus of eleven octets. -/
def stuckRun : List Event :=
  [.addInterface (samplePeer sampleKey), .addRoute (text ".+@.+") [] (text "eth0") 100,
    .startRunner 0, .asyncSendto (text "a@x") (text "hi") 0,
    .read 0 (some { firstContact with publickey := some [1, 0, 0, 0, 0, 0, 0, 0, 0, 0, 1] })]

/-- The sweep after the packet resumes the call, which encrypts forever. -/
theorem waiters_stuck : ¬ Completed sampleLibs (stuckRun ++ [.process 0 1]) := by
  intro h
  have hstuck : (stuckRun.foldlM (step sampleLibs) initial).map (fun k : Kernel =>
      (sweepOf sampleLibs k (.process 0 1)).map fun s => (s.run sampleLibs).map Kernel.sends) =
        .ok (some (.error .diverges)) := by
    decide +kernel
  obtain ⟨k, hk, hsweep⟩ := map_returns hstuck
  cases hs : sweepOf sampleLibs k (.process 0 1) with
  | none =>
    rw [hs] at hsweep
    cases hsweep
  | some s =>
    obtain ⟨k', hrun, -⟩ := h.swept.last hk s hs
    rw [hs, Option.map_some, hrun] at hsweep
    cases hsweep

end Avim.Kernel
