import Avim.Lib.Run
import Avim.Proto

/-!
# Calls that block

`sendto`, `recvfrom` and `handshake` start a coroutine and wait on a condition
variable of their own until it notifies them. The caller is one party, the
`io_service` thread the other, and their steps interleave in any order. The
mutex is local to the call and the coroutine does not take it, so it holds
nobody up: the notification may come before the wait, where it is lost. The
wait is not repeated, so a spurious wake-up ends the call. Without either, the
call returns after the completion and is not left waiting (`call_punctual`).
-/

namespace Avim.Blocking

inductive Caller (ρ : Type)
  | entered
  -- holds the mutex
  | locked
  -- has spawned the coroutine
  | started
  -- in `ready.wait(l)`
  | waiting
  -- the wait is over
  | woken
  | returned (value : ρ)
  deriving DecidableEq, Repr

inductive Operation
  | unspawned
  | spawned
  -- the operation is over, its completion begins
  | ended (ec : ErrorCode)
  -- `ec = _ec` is done
  | stored
  -- `notify_all` is done, and the completion with it
  | notified
  deriving DecidableEq, Repr

structure State (ρ : Type) where
  caller : Caller ρ
  operation : Operation
  -- the caller's `ec`
  ec : ErrorCode
  deriving DecidableEq, Repr

/-- What the calls differ in: whether the completion stores its error code,
and what is returned. -/
structure Call (ρ : Type) where
  stores : Bool
  value : ErrorCode → ρ

def recvfrom : Call ErrorCode := ⟨true, id⟩

def sendto : Call ErrorCode := ⟨true, id⟩

def handshake : Call Bool := ⟨false, fun _ => true⟩

inductive Event
  -- the caller's steps
  | lock
  | start
  | wait
  | returns
  -- the steps of the `io_service` thread
  | operate (ec : ErrorCode)
  | store
  | notifyAll
  -- the condition variable wakes a waiter up for no reason
  | spurious
  deriving DecidableEq, Repr

variable {ρ : Type}

def State.initial : State ρ := ⟨.entered, .unspawned, .success⟩

def Call.ready (call : Call ρ) : Operation → Bool
  | .ended _ => !call.stores
  | .stored => true
  | _ => false

def wake : Caller ρ → Caller ρ
  | .waiting => .woken
  | caller => caller

/-- An event that does not fit the state changes nothing. -/
def step (call : Call ρ) (s : State ρ) : Event → Except Empty (State ρ)
  | .lock => .ok <| match s.caller with
    | .entered => { s with caller := .locked }
    | _ => s
  | .start => .ok <| match s.caller with
    | .locked => { s with caller := .started, operation := .spawned }
    | _ => s
  | .wait => .ok <| match s.caller with
    | .started => { s with caller := .waiting }
    | _ => s
  | .returns => .ok <| match s.caller with
    | .woken => { s with caller := .returned (call.value s.ec) }
    | _ => s
  | .operate ec => .ok <| match s.operation with
    | .spawned => { s with operation := .ended ec }
    | _ => s
  | .store => .ok <| match s.operation with
    | .ended ec => if call.stores then { s with operation := .stored, ec := ec } else s
    | _ => s
  | .notifyAll => .ok <|
    if call.ready s.operation then { s with operation := .notified, caller := wake s.caller }
    else s
  | .spurious => .ok { s with caller := wake s.caller }

/-- The call is not left waiting when no notification will come, and has not
returned before the completion has run. -/
structure Punctual (s : State ρ) : Prop where
  awaited : ¬ (s.operation = .notified ∧ s.caller = .waiting)
  complete : ∀ value, s.caller = .returned value → s.operation = .notified

/-- The wait does not begin after the notification, and nothing else than it
ends the wait. -/
def InTime (s : State ρ) : Event → Prop
  | .wait => s.caller = .started → s.operation ≠ .notified
  | .spurious => s.caller ≠ .waiting
  | _ => True

instance (s : State ρ) [DecidableEq ρ] : DecidablePred (InTime s)
  | .wait => inferInstanceAs (Decidable (s.caller = .started → s.operation ≠ .notified))
  | .spurious => inferInstanceAs (Decidable (s.caller ≠ .waiting))
  | .lock | .start | .returns | .operate _ | .store | .notifyAll => .isTrue trivial

def Together (s : State ρ) : Prop :=
  match s.caller with
  | .entered | .locked => s.operation = .unspawned
  | .started => True
  | .waiting => s.operation ≠ .notified
  | .woken | .returned _ => s.operation = .notified

theorem Together.punctual {s : State ρ} (h : Together s) : Punctual s := by
  obtain ⟨caller, operation, ec⟩ := s
  constructor
  · rintro ⟨rfl, rfl⟩
    exact h rfl
  · rintro value rfl
    exact h

theorem Together.progress {caller : Caller ρ} (h : Together ⟨caller, before, ec⟩)
    (hspawned : before ≠ .unspawned) (hrunning : before ≠ .notified) (hafter : after ≠ .notified)
    (ec' : ErrorCode) : Together ⟨caller, after, ec'⟩ := by
  cases caller with
  | entered => exact absurd h hspawned
  | locked => exact absurd h hspawned
  | started => trivial
  | waiting => exact hafter
  | woken => exact absurd h hrunning
  | returned value => exact absurd h hrunning

theorem Call.ready_spawned {call : Call ρ} (h : call.ready operation = true) :
    operation ≠ .unspawned := by
  cases operation with
  | ended ec => simp
  | stored => simp
  | _ => cases h

theorem Together.notified {caller : Caller ρ} (h : Together ⟨caller, before, ec⟩)
    (hspawned : before ≠ .unspawned) : Together ⟨wake caller, .notified, ec⟩ := by
  cases caller with
  | entered => exact absurd h hspawned
  | locked => exact absurd h hspawned
  | started => trivial
  | waiting => rfl
  | woken => rfl
  | returned value => rfl

theorem Together.step {call : Call ρ} {s t : State ρ} (h : Together s) (htime : InTime s event)
    (hstep : step call s event = .ok t) : Together t := by
  obtain ⟨caller, operation, ec⟩ := s
  cases event with
  | lock =>
    cases hstep
    cases caller with
    | entered => exact h
    | _ => exact h
  | start =>
    cases hstep
    cases caller with
    | locked => trivial
    | _ => exact h
  | wait =>
    cases hstep
    cases caller with
    | started => exact htime rfl
    | _ => exact h
  | returns =>
    cases hstep
    cases caller with
    | woken => exact h
    | _ => exact h
  | operate outcome =>
    cases hstep
    cases operation with
    | spawned => exact h.progress (by simp) (by simp) (by simp) ec
    | _ => exact h
  | store =>
    cases hstep
    cases operation with
    | ended outcome =>
      dsimp only
      split
      · exact h.progress (by simp) (by simp) (by simp) outcome
      · exact h
    | _ => exact h
  | notifyAll =>
    cases hstep
    dsimp only
    split
    · rename_i hready
      exact h.notified (Call.ready_spawned hready)
    · exact h
  | spurious =>
    cases hstep
    cases caller with
    | waiting => exact absurd rfl htime
    | _ => exact h

/-- In every interleaving where the wait begins before the notification and is
not ended by a spurious wake-up, the call is punctual in every state. -/
theorem call_punctual (call : Call ρ) (events : List Event)
    (htime : Lib.Run.Along (step call) (fun s event _ => InTime s event) .initial events) :
    Lib.Run.Always (step call) Punctual .initial events := by
  have hstart : Together (State.initial : State ρ) := rfl
  refine Lib.Run.always_of_along (I := Together) ?_ (fun _ h => h.punctual) hstart htime
  intro s event t hstep h hevent
  exact h.step hevent hstep

theorem call_punctual_in_time :
    Lib.Run.Always (step recvfrom) Punctual .initial
        [.lock, .start, .wait, .operate .success, .store, .notifyAll, .returns] ∧
      Lib.Run.Always (step sendto) Punctual .initial
        [.lock, .start, .operate .networkUnreachable, .store, .wait, .notifyAll, .returns] ∧
      Lib.Run.Always (step handshake) Punctual .initial
        [.lock, .start, .operate .success, .wait, .notifyAll, .returns] :=
  ⟨call_punctual recvfrom _ (by decide), call_punctual sendto _ (by decide),
    call_punctual handshake _ (by decide)⟩

def lateWait : List Event := [.lock, .start, .operate .success, .store, .notifyAll, .wait]

def earlyReturn : List Event := [.lock, .start, .wait, .spurious, .returns]

/-- Each of the calls can miss its notification, and each can return while the
operation has not begun. -/
theorem call_unpunctual :
    (¬ Lib.Run.Always (step recvfrom) Punctual .initial lateWait ∧
      ¬ Lib.Run.Always (step recvfrom) Punctual .initial earlyReturn) ∧
    (¬ Lib.Run.Always (step sendto) Punctual .initial lateWait ∧
      ¬ Lib.Run.Always (step sendto) Punctual .initial earlyReturn) ∧
    (¬ Lib.Run.Always (step handshake) Punctual .initial lateWait ∧
      ¬ Lib.Run.Always (step handshake) Punctual .initial earlyReturn) := by
  refine ⟨⟨fun h => ?_, fun h => ?_⟩, ⟨fun h => ?_, fun h => ?_⟩, fun h => ?_, fun h => ?_⟩
  · exact (h.last rfl).awaited ⟨rfl, rfl⟩
  · cases (h.last rfl).complete .success rfl
  · exact (h.last rfl).awaited ⟨rfl, rfl⟩
  · cases (h.last rfl).complete .success rfl
  · exact (h.last rfl).awaited ⟨rfl, rfl⟩
  · cases (h.last rfl).complete true rfl

end Avim.Blocking
