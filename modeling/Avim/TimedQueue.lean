import Avim.CoroQueue

/-!
# Timed pops

The queue with both overloads of `async_pop`, on its `io_service`. A pop with a
timeout is waited for twice, by the queue and by a timer, and the two only know
of each other what a flag and the cancelling of the timer tell them.

What is posted is run in any order. The source does not compile in one place
and drops the wrong end of a list in another; `m_realhandler` is called through
its pointer here, and the front is what leaves the list.
-/

namespace Avim

/-- Who is to be told of a pop: the handler of the user, in a
`timed_out_handler_wrapper` if a timer runs for it. -/
structure PopHandler where
  call : Nat
  wrapped : Bool
  deriving DecidableEq, Repr

inductive Task (V W : Type)
  -- posted by the queue
  | completion (posted : Posted V PopHandler W)
  -- the callback of a timer: its time is up, or it was cancelled
  | expired (call : Nat)
  | aborted (call : Nat)
  -- `m_realhandler` bound to `timed_out`
  | report (call : Nat)
  deriving DecidableEq, Repr

structure TimedQueue (V W : Type) where
  queue : CoroQueue V PopHandler W
  -- the calls whose timer is running
  timers : Finset Nat
  calls : Nat
  posted : List (Task V W)
  deriving DecidableEq

inductive TimedOp (V W : Type)
  | push (value : V)
  | asyncPop
  -- with a timeout; when it is over is an operation of its own
  | asyncPopFor
  | asyncWait (handler : W)
  | cancele
  | expire (call : Nat)
  | run (index : Nat)
  deriving DecidableEq, Repr

namespace TimedQueue

variable {V W : Type}

def empty : TimedQueue V W := ⟨.empty, ∅, 0, []⟩

def onQueue (s : TimedQueue V W)
    (result : CoroQueue V PopHandler W × List (Posted V PopHandler W)) : TimedQueue V W :=
  { s with queue := result.1, posted := s.posted ++ result.2.map .completion }

def asyncPop (s : TimedQueue V W) : TimedQueue V W :=
  { s.onQueue (s.queue.asyncPop ⟨s.calls, false⟩) with calls := s.calls + 1 }

/-- The wrapper starts its timer when it is made, and it is only made when
there is something to wait for. -/
def asyncPopFor (s : TimedQueue V W) : TimedQueue V W :=
  match s.queue.list with
  | [] =>
    { s.onQueue (s.queue.asyncPop ⟨s.calls, true⟩) with
      timers := insert s.calls s.timers
      calls := s.calls + 1 }
  | _ :: _ => s.asyncPop

/-- The time of a timer is up. A timer that is not running has nothing to do. -/
def expire (s : TimedQueue V W) (call : Nat) : TimedQueue V W :=
  if call ∈ s.timers then
    { s with timers := s.timers.erase call, posted := s.posted ++ [.expired call] }
  else s

def cancelTimer (s : TimedQueue V W) (call : Nat) : TimedQueue V W :=
  if call ∈ s.timers then
    { s with timers := s.timers.erase call, posted := s.posted ++ [.aborted call] }
  else s

/-- `*m_timed_outed = true` -/
def mark (s : TimedQueue V W) (call : Nat) : TimedQueue V W :=
  { s with
    queue := { s.queue with
      handlers := s.queue.handlers.map fun r =>
        if r.handler.call = call then { r with timedOut := true } else r } }

/-- Run what was posted; what is answered are the handlers of the user that are
invoked on the way. -/
def perform [Inhabited V] (s : TimedQueue V W) :
    Task V W → TimedQueue V W × List (Posted V Nat W)
  | .completion (.wait handler ec) => (s, [.wait handler ec])
  | .completion (.pop handler ec value) =>
    (if handler.wrapped then s.cancelTimer handler.call else s, [.pop handler.call ec value])
  | .expired call =>
    ({ s.mark call with posted := s.posted ++ [.report call] }, [])
  | .aborted _ => (s, [])
  | .report call => (s, [.pop call .timedOut default])

def apply [Inhabited V] (s : TimedQueue V W) :
    TimedOp V W → TimedQueue V W × List (Posted V Nat W)
  | .push value => (s.onQueue (s.queue.push value), [])
  | .asyncPop => (s.asyncPop, [])
  | .asyncPopFor => (s.asyncPopFor, [])
  | .asyncWait handler => (s.onQueue (s.queue.asyncWait handler), [])
  | .cancele => (s.onQueue s.queue.cancele, [])
  | .expire call => (s.expire call, [])
  | .run index =>
    match s.posted[index]? with
    | some task => { s with posted := s.posted.eraseIdx index }.perform task
    | none => (s, [])

def run [Inhabited V] (ops : List (TimedOp V W)) : TimedQueue V W × List (Posted V Nat W) :=
  Lib.Run.trace apply empty ops

end TimedQueue

-- ---------------------------------------------------------------------------
-- The queue, whatever the timers did
-- ---------------------------------------------------------------------------

namespace CoroQueue

variable {V P W : Type}

/-- `push` as a debug build has it, where an assertion that fails gives `none`.
The call for a reader whose timer has run out comes back with no waiters. -/
def pushAsserted (value : V) :
    List (Reader P) → List W → List V → Option (CoroQueue V P W × List (Posted V P W))
  | readers, waitHandlers, list => do
    if !waitHandlers.isEmpty then guard list.isEmpty
    let told := waitHandlers.map (Posted.wait · .success)
    match readers with
    | [] => return (⟨list ++ [value], [], []⟩, told)
    | reader :: readers =>
      guard list.isEmpty
      if reader.timedOut then
        let (queue, posted) ← pushAsserted value readers [] list
        return (queue, told ++ posted)
      else return (⟨list, readers, []⟩, told ++ [.pop reader.handler .success value])

def Idle (q : CoroQueue V P W) : Prop := q.list ≠ [] → q.handlers = [] ∧ q.waitHandlers = []

/-- Nobody is left, everybody who was not timed out has been told once, and no
value is lost. -/
structure CancelsAll [Inhabited V] (q : CoroQueue V P W) : Prop where
  nobody : q.cancele.1.handlers = [] ∧ q.cancele.1.waitHandlers = []
  told : q.cancele.2.Perm (q.waitHandlers.map (.wait · .operationCanceled) ++
    (q.handlers.filter (!·.timedOut)).map (.pop ·.handler .operationCanceled default))
  kept : q.cancele.1.list = q.list

variable {q : CoroQueue V P W}

theorem Idle.push (h : q.Idle) (value : V) : (q.push value).1.Idle := by
  obtain ⟨-, heq⟩ | ⟨out, r, rest, hreaders, -, -, heq⟩ := q.push_shape value
  · rw [heq]
    exact fun _ => ⟨rfl, rfl⟩
  · rw [heq]
    intro hlist
    have hnone := (h hlist).1
    rw [hreaders] at hnone
    exact absurd hnone (by simp)

theorem Idle.asyncPop (h : q.Idle) (handler : P) : (q.asyncPop handler).1.Idle := by
  obtain ⟨hlist, heq⟩ | ⟨value, list, hlist, heq⟩ := q.asyncPop_cases handler
  · rw [heq]
    exact fun hne => absurd hlist hne
  · rw [heq]
    exact fun _ => h (by simp [hlist])

theorem Idle.asyncWait (h : q.Idle) (handler : W) : (q.asyncWait handler).1.Idle := by
  obtain ⟨hlist, heq⟩ | ⟨-, heq⟩ := q.asyncWait_cases handler
  · rw [heq]
    exact fun hne => absurd hlist hne
  · rw [heq]
    exact h

theorem Idle.cancele [Inhabited V] (h : q.Idle) : q.cancele.1.Idle := by
  obtain ⟨-, heq⟩ | ⟨-, heq⟩ := q.cancele_shape
  · rw [heq]
    exact h
  · rw [heq]
    exact fun _ => ⟨rfl, rfl⟩

theorem pushAsserted_nil (value : V) (readers : List (Reader P)) (waitHandlers : List W) :
    pushAsserted value readers waitHandlers [] =
      some ((⟨[], readers, waitHandlers⟩ : CoroQueue V P W).push value) := by
  induction readers generalizing waitHandlers with
  | nil => simp [pushAsserted, CoroQueue.push, handOver]
  | cons reader readers ih =>
    cases hout : reader.timedOut with
    | true => simp [pushAsserted, CoroQueue.push, handOver, hout, ih]
    | false => simp [pushAsserted, CoroQueue.push, handOver, hout]

theorem Idle.pushAsserted (h : q.Idle) (value : V) :
    pushAsserted value q.handlers q.waitHandlers q.list = some (q.push value) := by
  obtain ⟨list, handlers, waitHandlers⟩ := q
  cases list with
  | nil => exact pushAsserted_nil value handlers waitHandlers
  | cons first list =>
    obtain ⟨hreaders, hwaiters⟩ := h (List.cons_ne_nil first list)
    cases hreaders
    cases hwaiters
    simp [CoroQueue.pushAsserted, CoroQueue.push, handOver]

theorem cancelsAll_iff [Inhabited V] :
    q.CancelsAll ↔ q.handlers ≠ [] ∨ q.waitHandlers = [] := by
  obtain ⟨hr, heq⟩ | ⟨hr, heq⟩ := q.cancele_shape
  · constructor
    · intro h
      have hwaiters := h.nobody.2
      rw [heq] at hwaiters
      exact .inr hwaiters
    · intro h
      have hwaiters := h.resolve_left (fun hne => hne hr)
      exact ⟨by simp [heq, hr, hwaiters], by simp [heq, hr, hwaiters], by rw [heq]⟩
  · refine iff_of_true ⟨?_, ?_, ?_⟩ (.inl hr)
    · simp [heq]
    · rw [heq]
    · rw [heq]

end CoroQueue

namespace TimedQueue

variable {V W : Type} {s : TimedQueue V W}

theorem cancelTimer_queue (s : TimedQueue V W) (call : Nat) :
    (s.cancelTimer call).queue = s.queue ∧ (s.cancelTimer call).calls = s.calls := by
  unfold cancelTimer
  split
  · exact ⟨rfl, rfl⟩
  · exact ⟨rfl, rfl⟩

variable [Inhabited V]

theorem idle_step (h : s.queue.Idle) (op : TimedOp V W) : (apply s op).1.queue.Idle := by
  cases op with
  | push value => exact h.push value
  | asyncPop => exact h.asyncPop ⟨s.calls, false⟩
  | asyncPopFor =>
    rw [apply, asyncPopFor]
    split
    · exact h.asyncPop ⟨s.calls, true⟩
    · exact h.asyncPop ⟨s.calls, false⟩
  | asyncWait handler => exact h.asyncWait handler
  | cancele => exact h.cancele
  | expire call =>
    rw [apply, expire]
    split
    · exact h
    · exact h
  | run index =>
    rw [apply]
    split
    · rename_i task hat
      cases task with
      | expired call =>
        intro hlist
        obtain ⟨hreaders, hwaiters⟩ := h hlist
        exact ⟨by simp [perform, mark, hreaders], hwaiters⟩
      | aborted call => exact h
      | report call => exact h
      | completion posted =>
        cases posted with
        | wait handler ec => exact h
        | pop handler ec value =>
          rw [perform]
          split
          · rw [(cancelTimer_queue _ _).1]
            exact h
          · exact h
    · exact h

theorem idle_run (ops : List (TimedOp V W)) : (run ops).1.queue.Idle :=
  Lib.Run.trace_invariant (I := fun s : TimedQueue V W => s.queue.Idle)
    (fun _ op h => idle_step h op) (fun hlist => absurd rfl hlist) ops

/-- The assertions of `push` hold, and with them it is `push`. -/
theorem push_asserts (ops : List (TimedOp V W)) :
    ((run ops).1.queue.list ≠ [] →
      (run ops).1.queue.handlers = [] ∧ (run ops).1.queue.waitHandlers = []) ∧
    ∀ value, CoroQueue.pushAsserted value (run ops).1.queue.handlers
      (run ops).1.queue.waitHandlers (run ops).1.queue.list = some ((run ops).1.queue.push value) :=
  ⟨idle_run ops, (idle_run ops).pushAsserted⟩

/-- Waiters are only looked at when somebody waits for a value, if only in name. -/
theorem cancele_cancels_iff (ops : List (TimedOp V W)) :
    (run ops).1.queue.CancelsAll ↔
      (run ops).1.queue.handlers ≠ [] ∨ (run ops).1.queue.waitHandlers = [] :=
  CoroQueue.cancelsAll_iff

theorem cancele_forgets_waiter :
    ¬ (run (V := Nat) (W := Nat) [.asyncWait 0]).1.queue.CancelsAll := by
  intro h
  have hwaiters := h.nobody.2
  revert hwaiters
  decide

end TimedQueue

end Avim
