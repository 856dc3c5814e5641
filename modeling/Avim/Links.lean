import Avim.Inbox
import Avim.Pipes

/-!
# From a write queue to the wire

Where an interface has one writer, nothing overtakes in its pipe. So its writes
are, in order, the frames of what was enqueued on it (`written_in_order`), and
whoever reads them from the other end reads those packets (`read_in_order`).
-/

namespace Avim.Kernel

open Lib.Octets Relation

variable {lib : Libs} {k k' : Kernel}

-- ---------------------------------------------------------------------------
-- One writer
-- ---------------------------------------------------------------------------

/-- The interface was added once, if at all. -/
def Sole (k : Kernel) (link : Nat) : Prop := (k.writersOn link).length ≤ 1

namespace Pipe

/-- The frames of what was enqueued are those that were written, the one that
is being written, and those of what is on its way to the writer. -/
structure InOrder (lib : Libs) (p : Pipe) : Prop where
  settled : p.queue.Settled
  order : p.enqueued.map (frameOf lib) =
    (p.wrote ++ p.hand).map .ok ++ (p.handed ++ p.queue.list).map (frameOf lib)

variable {p p' : Pipe}

theorem InOrder.step (h : InOrder lib p) (hstep : p.Step lib 1 p') (hone : p.hand.length ≤ 1) :
    InOrder lib p' := by
  have horder := h.order
  cases hstep with
  | queue op =>
    refine ⟨h.settled.apply op, ?_⟩
    have hvalues := CoroQueue.apply_values h.settled op
    rw [List.map_append, horder, onQueue]
    rw [List.append_assoc, ← List.map_append, List.append_assoc, ← hvalues, ← List.append_assoc]
  | @take value rest framed before after hhanded hframe hhand hlt =>
    refine ⟨h.settled, ?_⟩
    have hempty : p.hand = [] := List.eq_nil_of_length_eq_zero (by omega)
    obtain ⟨rfl, rfl⟩ := List.append_eq_nil_iff.mp (hhand.symm.trans hempty)
    rw [horder, hhanded, hempty]
    simp [hframe]
  | @wrote before framed after hhand =>
    refine ⟨h.settled, ?_⟩
    rw [hhand, List.length_append, List.length_cons] at hone
    obtain rfl : before = [] := List.eq_nil_of_length_eq_zero (by omega)
    obtain rfl : after = [] := List.eq_nil_of_length_eq_zero (by omega)
    rw [horder, hhand]
    simp

end Pipe

theorem length_writersOn (k : Kernel) (link : Nat) :
    (k.writersOn link).length = ((outbox k).writers.map Prod.fst).count link := by
  rw [writersOn, List.length_map, outbox, List.map_map, List.count, List.countP_map,
    List.countP_eq_length_filter]
  rfl

theorem Outbox.Step.links {o o' : Outbox} (h : o.Step o') :
    o.writers.map Prod.fst <+: o'.writers.map Prod.fst := by
  have hset : ∀ {port link : Nat} {writer other : Writer},
      o.writers[port]? = some (link, writer) →
      o.writers.map Prod.fst <+: (o.writers.set port (link, other)).map Prod.fst := by
    intro port link writer other hat
    rw [List.map_set]
    have hat' : (o.writers.map Prod.fst)[port]? = some link := by simp [hat]
    obtain ⟨hlt, hget⟩ := List.getElem?_eq_some_iff.mp hat'
    rw [← hget, List.set_getElem_self]
  cases h with
  | add link =>
    rw [Outbox.addWriter, List.map_append]
    exact List.prefix_append _ _
  | leave hat => exact hset hat
  | pop hat => exact hset hat
  | wrote hat => exact hset hat
  | take bytes hpops hat => exact hset hat
  | refuse hpops hat => exact hset hat
  | _ => exact List.prefix_refl _

theorem Sole.before (h : Sole k' link) (hmove : Move lib k k') : Sole k link := by
  have hlinks : (outbox k).writers.map Prod.fst <+: (outbox k').writers.map Prod.fst := by
    have hsteps := move_outbox hmove
    generalize outbox k' = o at hsteps ⊢
    induction hsteps with
    | refl => exact List.prefix_refl _
    | tail _ hstep ih => exact ih.trans hstep.links
  rw [Sole, length_writersOn] at h ⊢
  exact (hlinks.sublist.count_le link).trans h

-- ---------------------------------------------------------------------------
-- Whole runs
-- ---------------------------------------------------------------------------

structure Piped (lib : Libs) (k : Kernel) : Prop where
  ledger : (outbox k).Ledger
  inOrder : ∀ link, Sole k link → (pipe k link).InOrder lib

theorem piped_initial : Piped lib initial :=
  ⟨Outbox.ledger_initial, fun _ _ => ⟨CoroQueue.settled_empty, rfl⟩⟩

theorem Piped.move (h : Piped lib k) (hmove : Move lib k k') : Piped lib k' := by
  constructor
  · have hsteps := move_outbox hmove
    generalize outbox k' = o at hsteps ⊢
    induction hsteps with
    | refl => exact h.ledger
    | tail _ hstep ih => exact ih.step hstep
  · intro link hsole
    have hbefore := hsole.before hmove
    have hsteps := move_pipe h.ledger hbefore hmove
    have hone : (pipe k link).hand.length ≤ 1 := (List.length_filterMap_le _ _).trans hbefore
    have horder := h.inOrder link hbefore
    suffices hboth : (pipe k' link).InOrder lib ∧ (pipe k' link).hand.length ≤ 1 from hboth.1
    generalize pipe k' link = p at hsteps ⊢
    induction hsteps with
    | refl => exact ⟨horder, hone⟩
    | tail _ hstep ih => exact ⟨ih.1.step hstep ih.2, hstep.length_hand ih.2⟩

theorem Reached.piped (h : Reached lib k) : Piped lib k :=
  Lib.Run.Reached.invariant piped_initial
    (fun _ _ _ hstep hk => step_keeps (fun _ _ hmove hb => hb.move hmove) hstep hk) h

/-- What is enqueued on an interface with one writer is written in that order,
each packet with the handler it came with; what was not written yet is still
on its way. -/
theorem written_in_order (lib : Libs) (events : List Event) :
    Lib.Run.Always (step lib) (fun k => ∀ link, Sole k link → (pipe k link).InOrder lib) initial
      events :=
  Lib.Run.always_of_invariant (I := Reached lib) .start (fun _ _ _ hstep hk => .step hk hstep)
    (fun _ hk => hk.piped.inOrder) events

-- ---------------------------------------------------------------------------
-- The other end
-- ---------------------------------------------------------------------------

def sentOn (link : Nat) : Effect → Bytes
  | .wrote other _ bytes true => if other = link then bytes else []
  | _ => []

def failedOn (link : Nat) : Effect → Bool
  | .wrote other _ _ false => other = link
  | _ => false

def wire (k : Kernel) (link : Nat) : Bytes := k.trace.flatMap (sentOn link)

theorem wire_eq (hok : ∀ effect ∈ k.trace, failedOn link effect = false) :
    wire k link = ((pipe k link).wrote.map Prod.fst).flatten := by
  have hall : ∀ done : List Effect, (∀ effect ∈ done, failedOn link effect = false) →
      done.flatMap (sentOn link) = ((done.filterMap (wroteOn link)).map Prod.fst).flatten := by
    intro done
    induction done with
    | nil => exact fun _ => rfl
    | cons effect done ih =>
      intro hdone
      have htail := ih fun e he => hdone e (List.mem_cons_of_mem _ he)
      rw [List.flatMap_cons, htail, List.filterMap_cons]
      cases effect with
      | wrote other handler bytes written =>
        by_cases hl : other = link
        · cases written with
          | true => simp [sentOn, wroteOn, hl]
          | false =>
            have hfailed := hdone _ List.mem_cons_self
            simp [failedOn, hl] at hfailed
        · cases written <;> simp [sentOn, wroteOn, hl]
      | _ => rfl
  exact hall k.trace hok

theorem mapM_of_map_ok {f : α → Except ε β} {xs : List α} {ys : List β}
    (h : xs.map f = ys.map .ok) : xs.mapM f = .ok ys := by
  induction xs generalizing ys with
  | nil =>
    cases ys with
    | nil => rfl
    | cons y ys => cases h
  | cons x xs ih =>
    cases ys with
    | nil => cases h
    | cons y ys =>
      rw [List.map_cons, List.map_cons, List.cons.injEq] at h
      rw [List.mapM_cons, h.1, ok_bind, ih h.2]
      rfl

namespace Pipe

theorem frameOf_bytes (lib : Libs) (value : WriteValue) :
    (frameOf lib value).map Prod.fst = encode lib.pb (lib.pb.ofAvPacket value.1) := by
  unfold frameOf
  generalize encode lib.pb (lib.pb.ofAvPacket value.1) = result
  cases result with
  | ok bytes => rfl
  | error fault => rfl

theorem InOrder.written {p : Pipe} (h : InOrder lib p) :
    (p.enqueued.take p.wrote.length).map (frameOf lib) = p.wrote.map .ok := by
  rw [List.map_take, h.order, List.map_append, List.append_assoc,
    List.take_left' (List.length_map _)]

theorem InOrder.written_at {p : Pipe} (h : InOrder lib p) {n : Nat}
    (hn : p.wrote[n]? = some framed) :
    ∃ value, p.enqueued[n]? = some value ∧
      encode lib.pb (lib.pb.ofAvPacket value.1) = .ok framed.1 := by
  have hlt : n < p.wrote.length := (List.getElem?_eq_some_iff.mp hn).1
  have hat := congrArg (·[n]?) h.written
  simp only [List.getElem?_map, hn, List.getElem?_take_of_lt hlt] at hat
  obtain ⟨value, hvalue, hframe⟩ := Option.map_eq_some_iff.mp hat
  refine ⟨value, hvalue, ?_⟩
  rw [← frameOf_bytes, hframe]
  rfl

theorem InOrder.length_le {p : Pipe} (h : InOrder lib p) : p.wrote.length ≤ p.enqueued.length := by
  have hlength := congrArg List.length h.order
  simp only [List.length_map, List.length_append] at hlength
  omega

theorem InOrder.frames {p : Pipe} (h : InOrder lib p) :
    ((p.enqueued.map Prod.fst).take p.wrote.length).mapM
      (fun packet => encode lib.pb (lib.pb.ofAvPacket packet)) = .ok (p.wrote.map Prod.fst) := by
  refine mapM_of_map_ok ?_
  calc ((p.enqueued.map Prod.fst).take p.wrote.length).map
          (fun packet => encode lib.pb (lib.pb.ofAvPacket packet))
      = (p.enqueued.take p.wrote.length).map fun value => (frameOf lib value).map Prod.fst := by
        simp only [frameOf_bytes, ← List.map_take, List.map_map, Function.comp_def]
    _ = ((p.enqueued.take p.wrote.length).map (frameOf lib)).map (Except.map Prod.fst) := by
        rw [List.map_map]
        rfl
    _ = (p.wrote.map Prod.fst).map .ok := by
        rw [h.written, List.map_map, List.map_map]
        rfl

end Pipe

/-- Whoever reads the connection from the other end reads, one by one and
whatever comes after them, the packets that were enqueued first. -/
theorem read_in_order (hparse : lib.pb.ParseUndoesAppend) (hcast : lib.pb.CastsBack)
    (h : Reached lib k) (hsole : Sole k link)
    (hsendable : ∀ value ∈ (pipe k link).enqueued, Avim.Sendable lib.pb value.1)
    (hok : ∀ effect ∈ k.trace, failedOn link effect = false) (l : Nat → Bytes)
    (hl : ∀ n, (l n).length = 4) (rest : Bytes) :
    interfaceRunner lib.pb (pipe k link).wrote.length l (wire k link ++ rest) =
      ⟨((pipe k link).enqueued.map Prod.fst).take (pipe k link).wrote.length, .reading⟩ := by
  have hinOrder := h.piped.inOrder link hsole
  have hcount : (((pipe k link).enqueued.map Prod.fst).take (pipe k link).wrote.length).length =
      (pipe k link).wrote.length := by
    rw [List.length_take, List.length_map, Nat.min_eq_left hinOrder.length_le]
  have hread := interfaceRunner_frames lib.pb hparse hcast
    (((pipe k link).enqueued.map Prod.fst).take (pipe k link).wrote.length) (fun packet hm => by
      obtain ⟨value, hvalue, rfl⟩ := List.mem_map.mp (List.mem_of_mem_take hm)
      exact hsendable value hvalue) hinOrder.frames l hl rest
  rw [hcount] at hread
  rw [wire_eq hok, hread]

def askedTwice : List Event :=
  [.addInterface (samplePeer sampleKey), .addRoute (text ".+@.+") [] (text "eth0") 100,
    .startRunner 0, .startWriter 0, .asyncSendto (text "a@x") (text "hi") 1,
    .asyncSendto (text "a@x") (text "ho") 2, .runPosted, .writeDone 0 true]

theorem pkask_sendable : Avim.Sendable sampleLibs.pb
    (pkask (samplePeer sampleKey).ifAddress (text "a@x")) :=
  ⟨pool_registered _ _, serializes_of_fits _ (by decide +kernel)⟩

theorem read_in_order_askedTwice :
    (pipe (after sampleLibs askedTwice) 2).wrote.length = 1 ∧
    interfaceRunner sampleLibs.pb (pipe (after sampleLibs askedTwice) 2).wrote.length
        (fun _ => [0, 0, 0, 9]) (wire (after sampleLibs askedTwice) 2 ++ [0, 0, 0]) =
      ⟨((pipe (after sampleLibs askedTwice) 2).enqueued.map Prod.fst).take
        (pipe (after sampleLibs askedTwice) 2).wrote.length, .reading⟩ := by
  have henqueued : (pipe (after sampleLibs askedTwice) 2).enqueued =
      [(pkask (samplePeer sampleKey).ifAddress (text "a@x"), none),
        (pkask (samplePeer sampleKey).ifAddress (text "a@x"), none)] := by decide +kernel
  have hsole : Sole (after sampleLibs askedTwice) 2 := by
    unfold Sole
    decide +kernel
  refine ⟨by decide +kernel, read_in_order (pool_parses _) (pool_casts _) (reached_after _ _) hsole
    ?_ (by decide +kernel) _ (fun _ => rfl) _⟩
  rw [henqueued]
  simpa using pkask_sendable

end Avim.Kernel
