import Avim.Lib.Run
import Avim.Proto

/-!
# The asynchronous queue

`async_coro_queue`: values that nobody has asked for yet, readers that nothing
has come for yet, and waiters that only want to be told. An operation changes
the queue and posts completions to the `io_service`; it returns both.

`run_conserves`: over any sequence of the untimed operations no value and no
reader is lost, duplicated or overtaken.
-/

namespace Avim

/-- An entry of `m_handlers`. The flag is shared with the reader's timer; a
reader without a timer keeps it at `false`. -/
structure Reader (P : Type) where
  timedOut : Bool
  handler : P
  deriving DecidableEq, Repr

inductive Posted (V P W : Type)
  | pop (handler : P) (ec : ErrorCode) (value : V)
  | wait (handler : W) (ec : ErrorCode)
  deriving DecidableEq, Repr

structure CoroQueue (V P W : Type) where
  list : List V
  handlers : List (Reader P)
  waitHandlers : List W
  deriving DecidableEq, Repr

namespace CoroQueue

variable {V P W : Type}

def empty : CoroQueue V P W := ⟨[], [], []⟩

def asyncPop (q : CoroQueue V P W) (handler : P) : CoroQueue V P W × List (Posted V P W) :=
  match q.list with
  | [] => ({ q with handlers := q.handlers ++ [⟨false, handler⟩] }, [])
  | value :: list => ({ q with list := list }, [.pop handler .success value])

def asyncWait (q : CoroQueue V P W) (handler : W) : CoroQueue V P W × List (Posted V P W) :=
  match q.list with
  | [] => ({ q with waitHandlers := q.waitHandlers ++ [handler] }, [])
  | _ :: _ => (q, [.wait handler .success])

/-- The part of `push` behind the waiters: the value goes to the first reader
whose timer has not run out, readers before it are dropped, and with no reader
left it is stored. The recursive `push` of the source finds no waiters again,
so it comes back to this. -/
def handOver (value : V) : List (Reader P) → List V → CoroQueue V P W × List (Posted V P W)
  | [], list => (⟨list ++ [value], [], []⟩, [])
  | reader :: readers, list =>
    if reader.timedOut then handOver value readers list
    else (⟨list, readers, []⟩, [.pop reader.handler .success value])

def push (q : CoroQueue V P W) (value : V) : CoroQueue V P W × List (Posted V P W) :=
  let (queue, posted) := handOver value q.handlers q.list
  (queue, q.waitHandlers.map (.wait · .success) ++ posted)

/-- The waiters are only looked at when there is a reader. -/
def cancele [Inhabited V] (q : CoroQueue V P W) : CoroQueue V P W × List (Posted V P W) :=
  let canceled := (q.handlers.filter (!·.timedOut)).map
    fun reader => Posted.pop reader.handler .operationCanceled default
  if q.handlers.isEmpty then (q, [])
  else (⟨q.list, [], []⟩, q.waitHandlers.map (.wait · .operationCanceled) ++ canceled)

end CoroQueue

-- ---------------------------------------------------------------------------
-- Runs
-- ---------------------------------------------------------------------------

inductive QueueOp (V P W : Type)
  | push (value : V)
  | asyncPop (handler : P)
  | asyncWait (handler : W)
  | cancele
  deriving DecidableEq, Repr

section

variable {V P W : Type}

def CoroQueue.apply [Inhabited V] (q : CoroQueue V P W) :
    QueueOp V P W → CoroQueue V P W × List (Posted V P W)
  | .push value => q.push value
  | .asyncPop handler => q.asyncPop handler
  | .asyncWait handler => q.asyncWait handler
  | .cancele => q.cancele

def CoroQueue.run [Inhabited V] (ops : List (QueueOp V P W)) :
    CoroQueue V P W × List (Posted V P W) := Lib.Run.trace CoroQueue.apply .empty ops

@[simp] def Posted.value? : Posted V P W → Option V
  | .pop _ .success value => some value
  | _ => none

@[simp] def Posted.reader? : Posted V P W → Option P
  | .pop handler _ _ => some handler
  | .wait _ _ => none

@[simp] def Posted.waiter? : Posted V P W → Option W
  | .wait handler _ => some handler
  | .pop _ _ _ => none

@[simp] def QueueOp.value? : QueueOp V P W → Option V
  | .push value => some value
  | _ => none

@[simp] def QueueOp.reader? : QueueOp V P W → Option P
  | .asyncPop handler => some handler
  | _ => none

@[simp] def QueueOp.waiter? : QueueOp V P W → Option W
  | .asyncWait handler => some handler
  | _ => none

def Posted.Sound [Inhabited V] : Posted V P W → Prop
  | .pop _ ec value => ec = .success ∨ ec = .operationCanceled ∧ value = default
  | .wait _ _ => True

/-- No timer has run out, and a queue that stores values has nobody waiting. -/
structure CoroQueue.Settled (q : CoroQueue V P W) : Prop where
  live : ∀ reader ∈ q.handlers, reader.timedOut = false
  idle : q.list ≠ [] → q.handlers = [] ∧ q.waitHandlers = []

end

-- ---------------------------------------------------------------------------
-- One operation, in any state
-- ---------------------------------------------------------------------------

section

variable {V P W : Type} {q : CoroQueue V P W}

theorem CoroQueue.handOver_cases (value : V) (readers : List (Reader P)) (list : List V) :
    ((∀ r ∈ readers, r.timedOut = true) ∧
      handOver (W := W) value readers list = (⟨list ++ [value], [], []⟩, [])) ∨
    ∃ out r rest, readers = out ++ r :: rest ∧ (∀ o ∈ out, o.timedOut = true) ∧
      r.timedOut = false ∧ handOver (W := W) value readers list =
        (⟨list, rest, []⟩, [.pop r.handler .success value]) := by
  induction readers with
  | nil => exact .inl ⟨by simp, rfl⟩
  | cons reader readers ih =>
    cases hout : reader.timedOut with
    | false => exact .inr ⟨[], reader, readers, rfl, by simp, hout, by simp [handOver, hout]⟩
    | true =>
      have hnext : handOver (W := W) value (reader :: readers) list =
          handOver value readers list := by simp [handOver, hout]
      rw [hnext]
      obtain ⟨hall, heq⟩ | ⟨out, r, rest, rfl, hdropped, hlive, heq⟩ := ih
      · exact .inl ⟨by simpa [hout] using hall, heq⟩
      · exact .inr ⟨reader :: out, r, rest, rfl, by simpa [hout] using hdropped, hlive, heq⟩

/-- A push stores the value, or gives it to the first reader that waits. -/
theorem CoroQueue.push_shape (q : CoroQueue V P W) (value : V) :
    ((∀ r ∈ q.handlers, r.timedOut = true) ∧
      q.push value = (⟨q.list ++ [value], [], []⟩, q.waitHandlers.map (.wait · .success))) ∨
    ∃ out r rest, q.handlers = out ++ r :: rest ∧ (∀ o ∈ out, o.timedOut = true) ∧
      r.timedOut = false ∧ q.push value = (⟨q.list, rest, []⟩,
        q.waitHandlers.map (.wait · .success) ++ [.pop r.handler .success value]) := by
  obtain ⟨hall, heq⟩ | ⟨out, r, rest, hreaders, hout, hlive, heq⟩ :=
    handOver_cases (W := W) value q.handlers q.list
  · exact .inl ⟨hall, by simp [push, heq]⟩
  · exact .inr ⟨out, r, rest, hreaders, hout, hlive, by simp [push, heq]⟩

theorem CoroQueue.asyncPop_cases (q : CoroQueue V P W) (handler : P) :
    (q.list = [] ∧
      q.asyncPop handler = ({ q with handlers := q.handlers ++ [⟨false, handler⟩] }, [])) ∨
    (∃ value list, q.list = value :: list ∧
      q.asyncPop handler = ({ q with list := list }, [.pop handler .success value])) := by
  unfold asyncPop
  cases hlist : q.list with
  | nil => exact .inl ⟨rfl, rfl⟩
  | cons value list => exact .inr ⟨value, list, rfl, rfl⟩

theorem CoroQueue.asyncWait_cases (q : CoroQueue V P W) (handler : W) :
    (q.list = [] ∧
      q.asyncWait handler = ({ q with waitHandlers := q.waitHandlers ++ [handler] }, [])) ∨
    (q.list ≠ [] ∧ q.asyncWait handler = (q, [.wait handler .success])) := by
  unfold asyncWait
  cases hlist : q.list with
  | nil => exact .inl ⟨rfl, rfl⟩
  | cons value list => exact .inr ⟨by simp, rfl⟩

theorem CoroQueue.cancele_shape [Inhabited V] (q : CoroQueue V P W) :
    (q.handlers = [] ∧ q.cancele = (q, [])) ∨
    (q.handlers ≠ [] ∧ q.cancele = (⟨q.list, [], []⟩,
      q.waitHandlers.map (.wait · .operationCanceled) ++
        (q.handlers.filter (!·.timedOut)).map (.pop ·.handler .operationCanceled default))) := by
  cases hr : q.handlers with
  | nil => exact .inl ⟨rfl, by simp [cancele, hr]⟩
  | cons reader readers => exact .inr ⟨by simp, by simp [cancele, hr]⟩

theorem CoroQueue.push_origin (q : CoroQueue V P W) (value : V) :
    (∀ r ∈ (q.push value).1.handlers, r ∈ q.handlers) ∧
    (∀ v ∈ (q.push value).1.list, v ∈ q.list ∨ v = value) ∧
    (∀ handler ec v, .pop handler ec v ∈ (q.push value).2 →
      (∃ r ∈ q.handlers, r.handler = handler) ∧ v = value) := by
  obtain ⟨-, hp⟩ | ⟨out, r, rest, hreaders, -, -, hp⟩ := q.push_shape value
  · rw [hp]
    exact ⟨by simp, by simp, by simp⟩
  · rw [hp]
    refine ⟨fun o ho => by simp [hreaders, ho], fun v hv => .inl hv, fun handler ec v hm => ?_⟩
    simp only [List.mem_append, List.mem_map, reduceCtorEq, and_false, exists_false, false_or,
      List.mem_singleton, Posted.pop.injEq] at hm
    exact ⟨⟨r, by simp [hreaders], hm.1.symm⟩, hm.2.2⟩

theorem CoroQueue.asyncPop_origin (q : CoroQueue V P W) (handler : P) :
    (∀ r ∈ (q.asyncPop handler).1.handlers, r ∈ q.handlers ∨ r.handler = handler) ∧
    (∀ v ∈ (q.asyncPop handler).1.list, v ∈ q.list) ∧
    (∀ other ec v, .pop other ec v ∈ (q.asyncPop handler).2 → other = handler ∧ v ∈ q.list) := by
  obtain ⟨-, hp⟩ | ⟨value, list, hlist, hp⟩ := q.asyncPop_cases handler
  · rw [hp]
    refine ⟨fun r hr => ?_, fun v hv => hv, by simp⟩
    rcases List.mem_append.mp hr with hr | hr
    · exact .inl hr
    · exact .inr (by rw [List.mem_singleton.mp hr])
  · rw [hp, hlist]
    refine ⟨fun r hr => .inl hr, fun v hv => List.mem_cons_of_mem _ hv, fun other ec v hm => ?_⟩
    simp only [List.mem_singleton, Posted.pop.injEq] at hm
    exact ⟨hm.1, by simp [hm.2.2]⟩

theorem CoroQueue.cancele_origin [Inhabited V] (q : CoroQueue V P W) :
    (∀ r ∈ q.cancele.1.handlers, r ∈ q.handlers) ∧ q.cancele.1.list = q.list ∧
    (∀ handler ec v, .pop handler ec v ∈ q.cancele.2 → ec = .operationCanceled) := by
  obtain ⟨-, hp⟩ | ⟨-, hp⟩ := q.cancele_shape
  · rw [hp]
    exact ⟨fun r hr => hr, rfl, by simp⟩
  · rw [hp]
    refine ⟨by simp, rfl, fun handler ec v hm => ?_⟩
    simp only [List.mem_append, List.mem_map, reduceCtorEq, and_false, exists_false, false_or] at hm
    obtain ⟨r, -, hr⟩ := hm
    cases hr
    rfl

theorem CoroQueue.cancele_nobody [Inhabited V] (q : CoroQueue V P W) :
    q.cancele.1.handlers = [] := by
  obtain ⟨hr, hp⟩ | ⟨-, hp⟩ := q.cancele_shape
  · rw [hp]
    exact hr
  · rw [hp]

theorem waits_sound [Inhabited V] (ws : List W) (ec : ErrorCode) :
    ∀ c ∈ ws.map (Posted.wait (V := V) (P := P) · ec), c.Sound := by
  intro c hc
  obtain ⟨w, -, rfl⟩ := List.mem_map.mp hc
  trivial

theorem CoroQueue.apply_sound [Inhabited V] (q : CoroQueue V P W) (op : QueueOp V P W) :
    ∀ c ∈ (q.apply op).2, c.Sound := by
  cases op with
  | push value =>
    obtain ⟨-, hp⟩ | ⟨out, r, rest, -, -, -, hp⟩ := q.push_shape value
    · simpa only [apply, hp] using waits_sound _ _
    · intro c hc
      simp only [apply, hp, List.mem_append, List.mem_singleton] at hc
      rcases hc with hc | rfl
      · exact waits_sound _ _ c hc
      · exact .inl rfl
  | asyncPop handler =>
    obtain ⟨-, hp⟩ | ⟨value, list, -, hp⟩ := q.asyncPop_cases handler
    · simp [apply, hp]
    · simp [apply, hp, Posted.Sound]
  | asyncWait handler =>
    obtain ⟨-, hp⟩ | ⟨-, hp⟩ := q.asyncWait_cases handler
    · simp [apply, hp]
    · simp [apply, hp, Posted.Sound]
  | cancele =>
    obtain ⟨-, hp⟩ | ⟨-, hp⟩ := q.cancele_shape
    · simp [apply, hp]
    · intro c hc
      simp only [apply, hp, List.mem_append] at hc
      rcases hc with hc | hc
      · exact waits_sound _ _ c hc
      · obtain ⟨reader, -, rfl⟩ := List.mem_map.mp hc
        exact .inr ⟨rfl, rfl⟩

end

-- ---------------------------------------------------------------------------
-- One operation, with no timer run out
-- ---------------------------------------------------------------------------

section

variable {V P W : Type}

variable {q : CoroQueue V P W}

theorem CoroQueue.Settled.list_nil (h : q.Settled) (hr : q.handlers ≠ []) : q.list = [] := by
  by_contra hne
  exact hr (h.idle hne).1

theorem CoroQueue.push_cases (h : q.Settled) (value : V) :
    (q.handlers = [] ∧
      q.push value = (⟨q.list ++ [value], [], []⟩, q.waitHandlers.map (.wait · .success))) ∨
    (∃ handler readers, q.handlers = ⟨false, handler⟩ :: readers ∧ q.list = [] ∧
      q.push value = (⟨[], readers, []⟩,
        q.waitHandlers.map (.wait · .success) ++ [.pop handler .success value])) := by
  obtain ⟨hall, hp⟩ | ⟨out, r, rest, hr, hout, hlive, hp⟩ := q.push_shape value
  · refine .inl ⟨List.eq_nil_iff_forall_not_mem.mpr fun r hr => ?_, hp⟩
    have hlive := h.live r hr
    rw [hall r hr] at hlive
    cases hlive
  · cases out with
    | nil =>
      have hlist := h.list_nil (by simp [hr])
      exact .inr ⟨r.handler, rest, by rw [← hlive]; exact hr, hlist, by rw [hp, hlist]⟩
    | cons o out =>
      have hlive := h.live o (by simp [hr])
      rw [hout o List.mem_cons_self] at hlive
      cases hlive

theorem CoroQueue.Settled.push (h : q.Settled) (value : V) : (q.push value).1.Settled := by
  obtain ⟨-, hp⟩ | ⟨handler, readers, hr, -, hp⟩ := CoroQueue.push_cases h value
  · rw [hp]
    exact ⟨by simp, by simp⟩
  · rw [hp]
    exact ⟨fun reader hm => h.live reader (by simp [hr, hm]), by simp⟩

theorem CoroQueue.Settled.asyncPop (h : q.Settled) (handler : P) :
    (q.asyncPop handler).1.Settled := by
  obtain ⟨hlist, hp⟩ | ⟨value, list, hlist, hp⟩ := q.asyncPop_cases handler
  · rw [hp]
    refine ⟨?_, by simp [hlist]⟩
    intro reader hm
    rcases List.mem_append.mp hm with hm | hm
    · exact h.live reader hm
    · rw [List.mem_singleton.mp hm]
  · rw [hp]
    exact ⟨h.live, fun _ => h.idle (by simp [hlist])⟩

theorem CoroQueue.Settled.asyncWait (h : q.Settled) (handler : W) :
    (q.asyncWait handler).1.Settled := by
  obtain ⟨hlist, hp⟩ | ⟨-, hp⟩ := q.asyncWait_cases handler
  · rw [hp]
    exact ⟨h.live, by simp [hlist]⟩
  · rw [hp]
    exact h

variable [Inhabited V]

theorem CoroQueue.cancele_cases (h : q.Settled) :
    (q.handlers = [] ∧ q.cancele = (q, [])) ∨
    (q.handlers ≠ [] ∧ q.list = [] ∧ q.cancele = (⟨[], [], []⟩,
      q.waitHandlers.map (.wait · .operationCanceled) ++
        q.handlers.map fun reader => .pop reader.handler .operationCanceled default)) := by
  obtain ⟨hr, hp⟩ | ⟨hr, hp⟩ := q.cancele_shape
  · exact .inl ⟨hr, hp⟩
  · have hfilter : q.handlers.filter (!·.timedOut) = q.handlers :=
      List.filter_eq_self.mpr fun reader hm => by simp [h.live reader hm]
    have hlist := h.list_nil hr
    rw [hfilter, hlist] at hp
    exact .inr ⟨hr, hlist, hp⟩

theorem CoroQueue.Settled.cancele (h : q.Settled) : q.cancele.1.Settled := by
  obtain ⟨-, hp⟩ | ⟨-, -, hp⟩ := CoroQueue.cancele_cases h
  · rw [hp]
    exact h
  · rw [hp]
    exact ⟨by simp, by simp⟩

theorem CoroQueue.Settled.apply (h : q.Settled) (op : QueueOp V P W) : (q.apply op).1.Settled := by
  cases op with
  | push value => exact h.push value
  | asyncPop handler => exact h.asyncPop handler
  | asyncWait handler => exact h.asyncWait handler
  | cancele => exact h.cancele

theorem CoroQueue.apply_values (h : q.Settled) (op : QueueOp V P W) :
    (q.apply op).2.filterMap Posted.value? ++ (q.apply op).1.list = q.list ++ op.value?.toList := by
  cases op with
  | push value =>
    obtain ⟨-, hp⟩ | ⟨handler, readers, -, hlist, hp⟩ := CoroQueue.push_cases h value
    · simp [apply, hp]
    · simp [apply, hp, hlist]
  | asyncPop handler =>
    obtain ⟨-, hp⟩ | ⟨value, list, hlist, hp⟩ := q.asyncPop_cases handler
    · simp [apply, hp]
    · simp [apply, hp, hlist]
  | asyncWait handler =>
    obtain ⟨-, hp⟩ | ⟨-, hp⟩ := q.asyncWait_cases handler
    · simp [apply, hp]
    · simp [apply, hp]
  | cancele =>
    obtain ⟨-, hp⟩ | ⟨-, hlist, hp⟩ := CoroQueue.cancele_cases h
    · simp [apply, hp]
    · simp [apply, hp, hlist]

theorem CoroQueue.apply_readers (h : q.Settled) (op : QueueOp V P W) :
    (q.apply op).2.filterMap Posted.reader? ++ (q.apply op).1.handlers.map Reader.handler =
      q.handlers.map Reader.handler ++ op.reader?.toList := by
  cases op with
  | push value =>
    obtain ⟨hr, hp⟩ | ⟨handler, readers, hr, -, hp⟩ := CoroQueue.push_cases h value
    · simp [apply, hp, hr]
    · simp [apply, hp, hr]
  | asyncPop handler =>
    obtain ⟨-, hp⟩ | ⟨value, list, hlist, hp⟩ := q.asyncPop_cases handler
    · simp [apply, hp]
    · have hr := (h.idle (by simp [hlist])).1
      simp [apply, hp, hr]
  | asyncWait handler =>
    obtain ⟨-, hp⟩ | ⟨-, hp⟩ := q.asyncWait_cases handler
    · simp [apply, hp]
    · simp [apply, hp]
  | cancele =>
    obtain ⟨hr, hp⟩ | ⟨-, -, hp⟩ := CoroQueue.cancele_cases h
    · simp [apply, hp, hr]
    · simp [apply, hp, Function.comp_def]

theorem CoroQueue.apply_waiters (h : q.Settled) (op : QueueOp V P W) :
    (q.apply op).2.filterMap Posted.waiter? ++ (q.apply op).1.waitHandlers =
      q.waitHandlers ++ op.waiter?.toList := by
  cases op with
  | push value =>
    obtain ⟨-, hp⟩ | ⟨handler, readers, -, -, hp⟩ := CoroQueue.push_cases h value
    · simp [apply, hp, Function.comp_def]
    · simp [apply, hp, Function.comp_def]
  | asyncPop handler =>
    obtain ⟨-, hp⟩ | ⟨value, list, -, hp⟩ := q.asyncPop_cases handler
    · simp [apply, hp]
    · simp [apply, hp]
  | asyncWait handler =>
    obtain ⟨-, hp⟩ | ⟨hlist, hp⟩ := q.asyncWait_cases handler
    · simp [apply, hp]
    · have hw := (h.idle hlist).2
      simp [apply, hp, hw]
  | cancele =>
    obtain ⟨-, hp⟩ | ⟨-, -, hp⟩ := CoroQueue.cancele_cases h
    · simp [apply, hp]
    · simp [apply, hp, Function.comp_def]

-- ---------------------------------------------------------------------------
-- Whole runs
-- ---------------------------------------------------------------------------

omit [Inhabited V] in
theorem CoroQueue.settled_empty : (empty : CoroQueue V P W).Settled :=
  ⟨by simp [empty], by simp [empty]⟩

theorem CoroQueue.settled_run (ops : List (QueueOp V P W)) : (run ops).1.Settled :=
  Lib.Run.trace_invariant (fun _ op h => h.apply op) settled_empty ops

/-- First in, first out, for the values and for the readers: what was posted,
followed by what is still held, is what came in. A canceled reader is posted
with a default value, and `cancele` takes nothing out of the store. Waiters
are posted at most once, in the order in which they came. -/
theorem CoroQueue.run_conserves (ops : List (QueueOp V P W)) :
    (run ops).2.filterMap Posted.value? ++ (run ops).1.list = ops.filterMap QueueOp.value? ∧
    (run ops).2.filterMap Posted.reader? ++ (run ops).1.handlers.map Reader.handler =
      ops.filterMap QueueOp.reader? ∧
    (∀ c ∈ (run ops).2, c.Sound) ∧
    ((run (ops ++ [.cancele])).1.list = (run ops).1.list ∧
      (run (ops ++ [.cancele])).2.filterMap Posted.value? =
        (run ops).2.filterMap Posted.value?) ∧
    (run ops).2.filterMap Posted.waiter? ++ (run ops).1.waitHandlers =
      ops.filterMap QueueOp.waiter? := by
  refine ⟨?_, ?_, ?_, ⟨?_, ?_⟩, ?_⟩
  · exact Lib.Run.trace_fifo (K := CoroQueue.list) (fun _ op h => Settled.apply h op)
      (fun _ op h => apply_values h op) settled_empty ops
  · exact Lib.Run.trace_fifo (K := fun q : CoroQueue V P W => q.handlers.map Reader.handler)
      (fun _ op h => Settled.apply h op) (fun _ op h => apply_readers h op) settled_empty ops
  · exact Lib.Run.trace_outputs (I := fun _ => True) (fun _ _ _ => trivial)
      (fun q op _ => apply_sound q op) trivial ops
  · rw [run, Lib.Run.trace_append]
    obtain ⟨-, hp⟩ | ⟨-, hlist, hp⟩ := cancele_cases (settled_run ops)
    · simp only [Lib.Run.trace, apply]
      rw [← run, hp]
    · simp only [Lib.Run.trace, apply]
      rw [← run, hp, hlist]
  · rw [run, Lib.Run.trace_append]
    obtain ⟨-, hp⟩ | ⟨-, -, hp⟩ := cancele_cases (settled_run ops)
    · simp only [Lib.Run.trace, apply]
      rw [← run, hp]
      simp
    · simp only [Lib.Run.trace, apply]
      rw [← run, hp]
      simp
  · exact Lib.Run.trace_fifo (K := CoroQueue.waitHandlers) (fun _ op h => Settled.apply h op)
      (fun _ op h => apply_waiters h op) settled_empty ops

end

end Avim
