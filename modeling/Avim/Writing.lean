import Avim.Delivery

/-!
# What the handler of a send is told

A data packet goes from its call through the write queue of an interface and
through the interface's writer to the socket, and the call's handler goes with
it. `Accounted` follows both on the way. The result of the write does not come
back the same way: `async_write_packet` keeps the error code to itself and the
writer drops its result, so the handler hears of success whatever happened
(`reported_iff`).
-/

namespace Avim.Kernel

open Lib.Octets

variable {lib : Libs} {k k' k₀ : Kernel}

-- ---------------------------------------------------------------------------
-- Packets on their way
-- ---------------------------------------------------------------------------

/-- Wherever a handler is on its way to the socket, its call has enqueued the
packet it travels with on the same interface. -/
structure Accounted (lib : Libs) (k : Kernel) : Prop where
  readers : ∀ link, ∀ r ∈ (k.links link).writeQueue.handlers,
    ∃ p, k.ports[r.handler]? = some p ∧ p.avif.id = link
  queued : ∀ link packet send, (packet, some send) ∈ (k.links link).writeQueue.list →
    .enqueued link (.data send) packet ∈ k.trace
  posted : ∀ (port : Nat) packet send, .popped port .success (packet, some send) ∈ k.posted →
    ∃ p, k.ports[port]? = some p ∧ .enqueued p.avif.id (.data send) packet ∈ k.trace
  writing : ∀ (port : Nat) (p : Port) bytes send, k.ports[port]? = some p →
    p.writer = .writing bytes (some send) →
    ∃ packet, .enqueued p.avif.id (.data send) packet ∈ k.trace ∧
      encode lib.pb (lib.pb.ofAvPacket packet) = .ok bytes

theorem accounted_initial : Accounted lib initial :=
  ⟨by simp [initial, CoroQueue.empty], by simp [initial, CoroQueue.empty], by simp [initial],
    by simp [initial]⟩

/-- Whatever leaves the queues and the ports alone, adds no completion of a
pop and forgets nothing. -/
theorem Accounted.frame (h : Accounted lib k)
    (hlinks : ∀ link, (k'.links link).writeQueue = (k.links link).writeQueue)
    (hports : k'.ports = k.ports)
    (hposted : ∀ port ec value,
      .popped port ec value ∈ k'.posted → .popped port ec value ∈ k.posted)
    (htrace : ∀ effect ∈ k.trace, effect ∈ k'.trace) : Accounted lib k' := by
  refine ⟨fun link r hr => ?_, fun link packet send hm => ?_, fun port packet send hm => ?_,
    fun port p bytes send hp hw => ?_⟩
  · rw [hports]
    exact h.readers link r (hlinks link ▸ hr)
  · exact htrace _ (h.queued link packet send (hlinks link ▸ hm))
  · obtain ⟨p, hp, he⟩ := h.posted port packet send (hposted _ _ _ hm)
    exact ⟨p, hports ▸ hp, htrace _ he⟩
  · obtain ⟨packet, he, hb⟩ := h.writing port p bytes send (hports ▸ hp) hw
    exact ⟨packet, htrace _ he, hb⟩

theorem Accounted.record (h : Accounted lib k) (effect : Effect) :
    Accounted lib (k.record effect) :=
  h.frame (fun _ => rfl) rfl (fun _ _ _ hm => hm) fun _ he => List.mem_append_left _ he

theorem Accounted.onQueue (h : Accounted lib k)
    (hreaders : ∀ r ∈ result.1.handlers, ∃ p, k.ports[r.handler]? = some p ∧ p.avif.id = link)
    (hqueued : ∀ packet send, (packet, some send) ∈ result.1.list →
      .enqueued link (.data send) packet ∈ k.trace)
    (hposted : ∀ port packet send, .pop port .success (packet, some send) ∈ result.2 →
      ∃ p, k.ports[port]? = some p ∧ .enqueued p.avif.id (.data send) packet ∈ k.trace) :
    Accounted lib (k.onQueue link result) := by
  have hother : ∀ other, other ≠ link →
      ((k.onQueue link result).links other).writeQueue = (k.links other).writeQueue := by
    intro other hne
    simp [Kernel.onQueue, Function.update_of_ne hne]
  have hsame : ((k.onQueue link result).links link).writeQueue = result.1 := by
    simp [Kernel.onQueue]
  refine ⟨fun other r hr => ?_, fun other packet send hm => ?_, fun port packet send hm => ?_,
    h.writing⟩
  · by_cases hne : other = link
    · rw [hne, hsame] at hr
      exact hne ▸ hreaders r hr
    · exact h.readers other r (hother other hne ▸ hr)
  · by_cases hne : other = link
    · rw [hne, hsame] at hm
      exact hne ▸ hqueued packet send hm
    · exact h.queued other packet send (hother other hne ▸ hm)
  · rcases List.mem_append.mp hm with hm | hm
    · exact h.posted port packet send hm
    · obtain ⟨c, hc, heq⟩ := List.mem_map.mp hm
      cases c with
      | pop handler ec value =>
        cases heq
        exact hposted port packet send hc
      | wait handler ec => exact handler.elim

theorem Accounted.asyncInterfaceWritePacket (h : Accounted lib k) (avif : Avif) (cause : Cause)
    (packet : AvPacket) : Accounted lib (k.asyncInterfaceWritePacket avif cause packet) := by
  -- the record first: the packet may be handed to a waiting writer at once
  have hrec := h.record (.enqueued avif.id cause packet)
  have hmem :
      .enqueued avif.id cause packet ∈ (k.record (.enqueued avif.id cause packet)).trace := by
    simp
  have hcause : ∀ send, cause.handler = some send → cause = .data send := by
    intro send hs
    cases cause with
    | data other =>
      cases hs
      rfl
    | forwarded => cases hs
    | pkreply => cases hs
    | pkask other => cases hs
  obtain ⟨hreaders, hlist, hposted⟩ :=
    ((k.links avif.id).writeQueue).push_origin (packet, cause.handler)
  refine hrec.onQueue (fun r hr => h.readers avif.id r (hreaders r hr)) (fun other send hm => ?_)
    (fun port other send hm => ?_)
  · rcases hlist _ hm with hm | heq
    · exact List.mem_append_left _ (h.queued avif.id other send hm)
    · obtain ⟨rfl, hs⟩ := Prod.mk.inj heq
      exact hcause send hs.symm ▸ hmem
  · obtain ⟨⟨r, hr, hport⟩, heq⟩ := hposted _ _ _ hm
    obtain ⟨rfl, hs⟩ := Prod.mk.inj heq
    obtain ⟨p, hp, hid⟩ := h.readers avif.id r hr
    refine ⟨p, hport ▸ hp, ?_⟩
    rw [hid]
    exact hcause send hs.symm ▸ hmem

theorem Accounted.setPort (h : Accounted lib k) (hp : k.ports[port]? = some p) (q : Port)
    (havif : q.avif = p.avif)
    (hwriting : ∀ bytes send, q.writer = .writing bytes (some send) →
      ∃ packet, .enqueued p.avif.id (.data send) packet ∈ k.trace ∧
        encode lib.pb (lib.pb.ofAvPacket packet) = .ok bytes) :
    Accounted lib (k.setPort port q) := by
  have hlt : port < k.ports.length := (List.getElem?_eq_some_iff.mp hp).1
  have hat : ∀ other : Nat, (k.setPort port q).ports[other]? =
      if other = port then some q else k.ports[other]? := by
    intro other
    by_cases ho : other = port
    · simp [Kernel.setPort, ho, hlt]
    · simp [Kernel.setPort, ho, List.getElem?_set_ne (Ne.symm ho)]
  have hkeeps : ∀ (other : Nat) (x : Port), k.ports[other]? = some x →
      ∃ y, (k.setPort port q).ports[other]? = some y ∧ y.avif = x.avif := by
    intro other x hx
    by_cases ho : other = port
    · refine ⟨q, by rw [hat, if_pos ho], ?_⟩
      rw [ho, hp] at hx
      rw [havif, Option.some.inj hx]
    · exact ⟨x, by rw [hat, if_neg ho, hx], rfl⟩
  refine ⟨fun link r hr => ?_, h.queued, fun other packet send hm => ?_,
    fun other x bytes send hx hw => ?_⟩
  · obtain ⟨x, hx, hid⟩ := h.readers link r hr
    obtain ⟨y, hy, hyx⟩ := hkeeps _ x hx
    exact ⟨y, hy, hyx ▸ hid⟩
  · obtain ⟨x, hx, he⟩ := h.posted other packet send hm
    obtain ⟨y, hy, hyx⟩ := hkeeps _ x hx
    exact ⟨y, hy, hyx ▸ he⟩
  · rw [hat] at hx
    by_cases ho : other = port
    · rw [if_pos ho] at hx
      obtain rfl := Option.some.inj hx
      rw [havif]
      exact hwriting bytes send hw
    · rw [if_neg ho] at hx
      exact h.writing other x bytes send hx hw

theorem Accounted.addInterface (h : Accounted lib k) (avif : Avif) :
    Accounted lib (k.addInterface avif) := by
  have hkeeps : ∀ (port : Nat) (p : Port), k.ports[port]? = some p →
      (k.addInterface avif).ports[port]? = some p := by
    intro port p hp
    have hlt : port < k.ports.length := (List.getElem?_eq_some_iff.mp hp).1
    simp [Kernel.addInterface, List.getElem?_append_left hlt, hp]
  refine ⟨fun link r hr => ?_, h.queued, fun port packet send hm => ?_,
    fun port p bytes send hp hw => ?_⟩
  · obtain ⟨p, hp, hid⟩ := h.readers link r hr
    exact ⟨p, hkeeps _ p hp, hid⟩
  · obtain ⟨p, hp, he⟩ := h.posted port packet send hm
    exact ⟨p, hkeeps _ p hp, he⟩
  · have hold : k.ports[port]? = some p := by
      rcases getElem?_concat_cases hp with hold | ⟨-, rfl⟩
      · exact hold
      · -- the new port has not started writing
        cases hw
    exact h.writing port p bytes send hold hw

theorem Accounted.writerLoop (h : Accounted lib k) (hp : k.ports[port]? = some p) :
    Accounted lib (k.writerLoop port p) := by
  unfold Kernel.writerLoop
  split
  · exact h.setPort hp _ rfl (by simp)
  · obtain ⟨hreaders, hlist, hposted⟩ := ((k.links p.avif.id).writeQueue).asyncPop_origin port
    have hq : Accounted lib
        (k.onQueue p.avif.id ((k.links p.avif.id).writeQueue.asyncPop port)) := by
      refine h.onQueue (fun r hr => ?_) (fun packet send hm => ?_) (fun other packet send hm => ?_)
      · rcases hreaders r hr with hr | hr
        · exact h.readers _ r hr
        · exact ⟨p, hr ▸ hp, rfl⟩
      · exact h.queued _ packet send (hlist _ hm)
      · obtain ⟨rfl, hv⟩ := hposted _ _ _ hm
        exact ⟨p, hp, h.queued _ packet send hv⟩
    exact hq.setPort hp _ rfl (by simp)

theorem Accounted.runnerLoop (h : Accounted lib k) (hp : k.ports[port]? = some p) :
    Accounted lib (k.runnerLoop port p) := by
  unfold Kernel.runnerLoop
  split
  · obtain ⟨hreaders, hlist, hposted⟩ := ((k.links p.avif.id).writeQueue).cancele_origin
    have hq : Accounted lib (k.onQueue p.avif.id (k.links p.avif.id).writeQueue.cancele) := by
      refine h.onQueue (fun r hr => h.readers _ r (hreaders r hr)) (fun packet send hm => ?_)
        (fun other packet send hm => ?_)
      · exact h.queued _ packet send (hlist ▸ hm)
      · exact absurd (hposted _ _ _ hm) (by simp)
    have hgone : ∀ routing t, Accounted lib
        { k.onQueue p.avif.id (k.links p.avif.id).writeQueue.cancele with
          routing := routing
          ifCounter := t } :=
      fun _ _ => hq.frame (fun _ => rfl) rfl (fun _ _ _ hm => hm) (fun _ he => he)
    exact (hgone _ _).setPort (p := p) hp { p with runner := .exited } rfl (h.writing port p · · hp)
  · exact h.setPort hp _ rfl (h.writing port p · · hp)

theorem Accounted.runnerRead (h : Accounted lib k) (hp : k.ports[port]? = some p)
    (packet : Option AvPacket) : Accounted lib (k.runnerRead port p packet) := by
  cases packet with
  | some packet =>
    have hspawned : Accounted lib { k with spawned := k.spawned ++ [(packet, p.avif)] } :=
      h.frame (fun _ => rfl) rfl (fun _ _ _ hm => hm) (fun _ he => he)
    exact hspawned.runnerLoop hp
  | none =>
    have hlinks : ∀ link,
        ((k.quit p.avif.id).links link).writeQueue = (k.links link).writeQueue := by
      intro link
      by_cases hl : link = p.avif.id
      · simp [Kernel.quit, hl]
      · simp [Kernel.quit, Function.update_of_ne hl]
    exact (h.frame hlinks rfl (fun _ _ _ hm => hm) (fun _ he => he)).runnerLoop hp

-- ---------------------------------------------------------------------------
-- Steps that report nothing
-- ---------------------------------------------------------------------------

def Quiet : Effect → Prop
  | .completed _ .success => False
  | .wrote _ _ _ _ => False
  | _ => True

/-- From `k₀` to `k` everything stayed accounted for and nothing was reported. -/
structure Continues (lib : Libs) (k₀ k : Kernel) : Prop where
  accounted : Accounted lib k
  quiet : ∃ new, k.trace = k₀.trace ++ new ∧ ∀ effect ∈ new, Quiet effect

theorem Accounted.continues (h : Accounted lib k') (htrace : k'.trace = k.trace) :
    Continues lib k k' := ⟨h, [], by simp [htrace], by simp⟩

theorem Continues.append (h : Continues lib k₀ k) (hk : Accounted lib k')
    (htrace : k'.trace = k.trace ++ [effect]) (hquiet : Quiet effect) : Continues lib k₀ k' := by
  obtain ⟨new, hnew, hall⟩ := h.quiet
  refine ⟨hk, new ++ [effect], by rw [htrace, hnew, List.append_assoc], fun e he => ?_⟩
  rcases List.mem_append.mp he with he | he
  · exact hall e he
  · rw [List.mem_singleton.mp he]
    exact hquiet

theorem Continues.frame (h : Continues lib k₀ k)
    (hlinks : ∀ link, (k'.links link).writeQueue = (k.links link).writeQueue)
    (hports : k'.ports = k.ports)
    (hposted : ∀ port ec value,
      .popped port ec value ∈ k'.posted → .popped port ec value ∈ k.posted)
    (htrace : k'.trace = k.trace) : Continues lib k₀ k' :=
  ⟨h.accounted.frame hlinks hports hposted (fun _ he => htrace ▸ he), htrace ▸ h.quiet⟩

theorem Continues.same (h : Continues lib k₀ k) (hlinks : k'.links = k.links)
    (hports : k'.ports = k.ports) (hposted : k'.posted = k.posted) (htrace : k'.trace = k.trace) :
    Continues lib k₀ k' :=
  h.frame (fun _ => hlinks ▸ rfl) hports (fun _ _ _ hm => hposted ▸ hm) htrace

theorem Continues.asyncInterfaceWritePacket (h : Continues lib k₀ k) (avif : Avif) (cause : Cause)
    (packet : AvPacket) : Continues lib k₀ (k.asyncInterfaceWritePacket avif cause packet) :=
  h.append (h.accounted.asyncInterfaceWritePacket avif cause packet) rfl trivial

theorem Continues.sendOrAsk (h : Continues lib k₀ k) (hsend : sendOrAsk lib k op now = .ok k') :
    Continues lib k₀ k' := by
  obtain ⟨key, avif, second, -, -, rfl⟩ | ⟨avif, -, -, -, rfl⟩ | ⟨-, -, rfl⟩ :=
    sendOrAsk_cases hsend
  · have hdrawn : Continues lib k₀ { k with draws := k.draws + op.data.length } :=
      h.same rfl rfl rfl rfl
    exact hdrawn.asyncInterfaceWritePacket avif _ _
  · exact (h.asyncInterfaceWritePacket avif _ _).same rfl rfl rfl rfl
  · exact h.append (h.accounted.record _) rfl trivial

theorem Continues.sweep (h : Continues lib k₀ k) (hsweep : sweep lib due k now = .ok k') :
    Continues lib k₀ k' :=
  sweep_keeps (fun _ _ _ hres hk => hk.sendOrAsk hres)
    (fun _ _ hk => hk.same rfl rfl rfl rfl) h hsweep

theorem not_popped_received {done : List (Posted (Bytes × Bytes) Nat Empty)}
    (hm : Completion.popped port ec value ∈ done.map receivedOf) : False := by
  obtain ⟨c, -, hc⟩ := List.mem_map.mp hm
  cases c with
  | pop call ec value => cases hc
  | wait handler ec => exact handler.elim

theorem Continues.processRecivedPacket (h : Continues lib k₀ k)
    (hproc : processRecivedPacket lib k packet avif now = .ok k') : Continues lib k₀ k' := by
  obtain ⟨checked, handled, hchecked, hhandled, hswept⟩ := processRecivedPacket_returns hproc
  have hadd : ∀ k address rsa,
      Continues lib k₀ k → Continues lib k₀ (addKey lib k address rsa now) :=
    fun k _ _ hk => hk.same rfl rfl rfl rfl
  have hc : Continues lib k₀ checked := by
    obtain ⟨_, -, ⟨-, -, rfl⟩ | ⟨-, rfl⟩⟩ := checkKey_cases hchecked
    · exact hadd _ _ _ h
    · exact h
  refine Continues.sweep ?_ hswept
  obtain ⟨-, hhandled⟩ | ⟨-, hhandled⟩ := hhandled
  · obtain ⟨-, rfl⟩ | ⟨-, rsa, -, rfl⟩ | ⟨-, -, payload, -, ⟨-, rfl⟩ | ⟨-, rfl⟩⟩ :=
      toMe_cases hhandled
    · exact hc.asyncInterfaceWritePacket avif _ _
    · exact hadd _ _ _ hc
    · have hpushed :
          Accounted lib (checked.pushReceived (avAddressToString packet.src) payload) := by
        refine hc.accounted.frame (fun _ => rfl) rfl (fun port ec value hm => ?_)
          (fun _ he => List.mem_append_left _ he)
        rcases List.mem_append.mp hm with hm | hm
        · exact hm
        · exact (not_popped_received hm).elim
      exact hc.append hpushed rfl trivial
    · exact hc
  · obtain rfl | ⟨-, interface, t, -, rfl⟩ := forward_cases hhandled
    · exact hc
    · have ht : Continues lib k₀ { checked with ifCounter := t } :=
        hc.same rfl rfl rfl rfl
      exact ht.asyncInterfaceWritePacket _ _ _

theorem Continues.asyncRecvfrom (h : Continues lib k₀ k) : Continues lib k₀ k.asyncRecvfrom := by
  refine h.frame (fun _ => rfl) rfl (fun port ec value hm => ?_) rfl
  rcases List.mem_append.mp hm with hm | hm
  · exact hm
  · exact (not_popped_received hm).elim

theorem Continues.asyncSendto (h : Continues lib k₀ k)
    (hsend : asyncSendto lib k target data now = .ok k') : Continues lib k₀ k' := by
  have hcounted : Continues lib k₀ { k with sends := k.sends + 1 } :=
    h.same rfl rfl rfl rfl
  obtain ⟨-, rfl⟩ | ⟨interface, -, hsend⟩ := asyncSendto_cases hsend
  · exact hcounted.append (hcounted.accounted.record _) rfl trivial
  · exact hcounted.sendOrAsk hsend

theorem runPosted_continues (h : Accounted lib k) (hrun : runPosted lib k = .ok k') :
    Continues lib k k' := by
  have hrest : ∀ completion rest, k.posted = completion :: rest →
      Accounted lib { k with posted := rest } := by
    intro completion rest hposted
    refine h.frame (fun _ => rfl) rfl ?_ (fun _ he => he)
    intro port ec value hm
    rw [hposted]
    exact List.mem_cons_of_mem _ hm
  obtain ⟨-, rfl⟩ | ⟨port, ec, value, rest, hposted, ⟨-, rfl⟩ | ⟨p, hp, ⟨-, rfl⟩ |
    ⟨bytes, hec, hbytes, rfl⟩⟩⟩ | ⟨call, ec, value, rest, hposted, rfl⟩ := runPosted_cases hrun
  · exact h.continues rfl
  · exact (hrest _ _ hposted).continues rfl
  · have hset := (hrest _ _ hposted).setPort hp { p with writer := .exited } rfl (by simp)
    exact hset.continues rfl
  · -- what the writer is handed was enqueued for it
    have hset := (hrest _ _ hposted).setPort hp { p with writer := .writing bytes value.2 } rfl
    refine (hset ?_).continues rfl
    intro b send hw
    obtain ⟨rfl, hs⟩ := Writer.writing.inj hw
    have hhead : .popped port .success (value.1, some send) ∈ k.posted := by
      rw [hposted, hec, ← hs]
      exact List.mem_cons_self
    obtain ⟨q, hq, he⟩ := h.posted port value.1 send hhead
    rw [hp] at hq
    exact ⟨value.1, Option.some.inj hq ▸ he, hbytes⟩
  · have hpopped : Continues lib k { k with posted := rest } := (hrest _ _ hposted).continues rfl
    exact hpopped.append (hpopped.accounted.record _) rfl trivial

theorem step_continues (h : Accounted lib k) (hstep : step lib k event = .ok k')
    (hevent : ∀ port written, event ≠ .writeDone port written) : Continues lib k k' := by
  have hk : Continues lib k k := h.continues rfl
  cases step_does hstep with
  | nothing => exact hk
  | addInterface avif => exact (h.addInterface avif).continues rfl
  | asyncSendto hcall => exact hk.asyncSendto hcall
  | asyncRecvfrom => exact hk.asyncRecvfrom
  | startRunner hp _ => exact (h.runnerLoop hp).continues (runnerLoop_trace k _ _)
  | read packet hp _ => exact (h.runnerRead hp packet).continues (runnerRead_trace k _ _ packet)
  | @process index packet avif now _ _ hprocess =>
    have htaken : Continues lib k { k with spawned := k.spawned.eraseIdx index } :=
      hk.same rfl rfl rfl rfl
    exact htaken.processRecivedPacket hprocess
  | startWriter hp _ => exact (h.writerLoop hp).continues (writerLoop_trace k _ _)
  | @writeDone port p bytes handler written _ _ => exact absurd rfl (hevent port written)
  | runPosted hposted => exact runPosted_continues h hposted
  | timer1 hsweep => exact hk.sweep hsweep
  | _ => exact hk.same rfl rfl rfl rfl

-- ---------------------------------------------------------------------------
-- Reports
-- ---------------------------------------------------------------------------

/-- The packet the call enqueued was written whole, on the interface it was
enqueued on. -/
def Written (lib : Libs) (k : Kernel) (send : Nat) : Prop :=
  ∃ link packet bytes, .enqueued link (.data send) packet ∈ k.trace ∧
    encode lib.pb (lib.pb.ofAvPacket packet) = .ok bytes ∧
    .wrote link (some send) bytes true ∈ k.trace

/-- Only calls whose packet was written hear of success, and those whose write
failed hear of a failure. -/
structure Reported (lib : Libs) (k : Kernel) : Prop where
  written : ∀ send, .completed send .success ∈ k.trace → Written lib k send
  failed : ∀ link send bytes, .wrote link (some send) bytes false ∈ k.trace →
    .completed send .success ∉ k.trace ∧ ∃ ec, ec ≠ .success ∧ .completed send ec ∈ k.trace

def SendFails (k : Kernel) (event : Event) : Prop :=
  ∃ port p bytes send, event = .writeDone port false ∧ k.ports[port]? = some p ∧
    p.writer = .writing bytes (some send)

structure Truthful (lib : Libs) (k : Kernel) : Prop where
  accounted : Accounted lib k
  written : ∀ send, .completed send .success ∈ k.trace → Written lib k send
  unfailed : ∀ link send bytes, .wrote link (some send) bytes false ∉ k.trace

theorem truthful_initial : Truthful lib initial :=
  ⟨accounted_initial, by simp [initial], by simp [initial]⟩

theorem Truthful.reported (h : Truthful lib k) : Reported lib k :=
  ⟨h.written, fun link send bytes hm => absurd hm (h.unfailed link send bytes)⟩

theorem Written.later (h : Written lib k send) (hkeep : ∀ effect ∈ k.trace, effect ∈ k'.trace) :
    Written lib k' send := by
  obtain ⟨link, packet, bytes, henq, henc, hwrote⟩ := h
  exact ⟨link, packet, bytes, hkeep _ henq, henc, hkeep _ hwrote⟩

theorem Truthful.continues (h : Truthful lib k) (hk : Continues lib k k') : Truthful lib k' := by
  obtain ⟨new, hnew, hquiet⟩ := hk.quiet
  have hkeep : ∀ effect ∈ k.trace, effect ∈ k'.trace := fun effect he => by simp [hnew, he]
  have hold : ∀ effect, ¬ Quiet effect → effect ∈ k'.trace → effect ∈ k.trace := by
    intro effect hloud he
    rw [hnew] at he
    rcases List.mem_append.mp he with he | he
    · exact he
    · exact absurd (hquiet effect he) hloud
  refine ⟨hk.accounted, fun send hm => ?_, fun link send bytes hm => ?_⟩
  · exact (h.written send (hold _ (by simp [Quiet]) hm)).later hkeep
  · exact h.unfailed link send bytes (hold _ (by simp [Quiet]) hm)

theorem writerWrote_trace (k : Kernel) (port : Nat) (p : Port) (bytes : Bytes)
    (handler : Option Nat) (written : Bool) :
    (k.writerWrote port p bytes handler written).trace =
      k.trace ++ .wrote p.avif.id handler bytes written ::
        (handler.map (Effect.completed · .success)).toList := by
  cases handler with
  | none => simp [writerWrote]
  | some send => simp [writerWrote, asyncWritePacketResult]

theorem Accounted.writerWrote (h : Accounted lib k) (hp : k.ports[port]? = some p) (bytes : Bytes)
    (handler : Option Nat) (written : Bool) :
    Accounted lib (k.writerWrote port p bytes handler written) := by
  have hrec := h.record (.wrote p.avif.id handler bytes written)
  cases handler with
  | none => exact hrec.writerLoop hp
  | some send => exact (hrec.record (.completed send .success)).writerLoop hp

theorem Truthful.writerWrote {written : Bool} (h : Truthful lib k) (hp : k.ports[port]? = some p)
    (hw : p.writer = .writing bytes handler) (hok : written = true ∨ handler = none) :
    Truthful lib (k.writerWrote port p bytes handler written) := by
  have htrace := writerWrote_trace k port p bytes handler written
  have hkeep : ∀ effect ∈ k.trace, effect ∈ (k.writerWrote port p bytes handler written).trace :=
    fun effect he => by rw [htrace]; exact List.mem_append_left _ he
  refine ⟨h.accounted.writerWrote hp bytes handler written, fun send hm => ?_,
    fun link send out hm => ?_⟩
  · by_cases hold : .completed send .success ∈ k.trace
    · exact (h.written send hold).later hkeep
    · -- the new report is for the packet that was being written
      rw [htrace] at hm
      simp only [List.mem_append, hold, List.mem_cons, reduceCtorEq, Option.mem_toList,
        Option.map_eq_some_iff, Effect.completed.injEq, and_true, exists_eq_right, false_or] at hm
      subst hm
      obtain ⟨packet, henq, henc⟩ := h.accounted.writing port p bytes send hp hw
      have htrue : written = true := hok.resolve_right (by simp)
      refine ⟨p.avif.id, packet, bytes, hkeep _ henq, henc, ?_⟩
      rw [htrace, htrue]
      simp
  · rw [htrace] at hm
    simp only [List.mem_append, h.unfailed link send out, List.mem_cons, Effect.wrote.injEq,
      Option.mem_toList, Option.map_eq_some_iff, reduceCtorEq, and_false, exists_false, or_false,
      false_or] at hm
    obtain ⟨-, hs, -, hf⟩ := hm
    rcases hok with hok | hok
    · rw [hok] at hf
      cases hf
    · rw [hok] at hs
      cases hs

theorem Truthful.step (h : Truthful lib k) (hstep : step lib k event = .ok k')
    (hevent : ¬ SendFails k event) : Truthful lib k' := by
  by_cases hw : ∃ port written, event = .writeDone port written
  · obtain ⟨port, written, rfl⟩ := hw
    cases step_does hstep with
    | nothing => exact h
    | @writeDone _ p bytes handler _ hp hwriting =>
      refine h.writerWrote hp hwriting ?_
      cases written with
      | true => exact .inl rfl
      | false =>
        cases handler with
        | none => exact .inr rfl
        | some send => exact absurd ⟨port, p, bytes, send, rfl, hp, hwriting⟩ hevent
  · exact h.continues
      (step_continues h.accounted hstep fun port written he => hw ⟨port, written, he⟩)

theorem not_reported_of_fails (hstep : step lib k event = .ok k') (hevent : SendFails k event) :
    ¬ Reported lib k' := by
  obtain ⟨port, p, bytes, send, rfl, hp, hw⟩ := hevent
  simp only [step, hp, hw] at hstep
  cases hstep
  intro h
  have hfailed := h.failed p.avif.id send bytes (by rw [writerWrote_trace]; simp)
  exact hfailed.1 (by rw [writerWrote_trace]; simp)

/-- In every run, what the handlers are told is true in every state reached
exactly when no socket write of a call's packet fails. -/
theorem reported_iff (lib : Libs) (events : List Event) :
    Lib.Run.Always (step lib) (Reported lib) initial events ↔
      Lib.Run.Along (step lib) (fun k event _ => ¬ SendFails k event) initial events := by
  constructor
  · exact Lib.Run.along_of_always fun _ _ _ hstep hr hf => not_reported_of_fails hstep hf hr
  · exact Lib.Run.always_of_along (I := Truthful lib) (fun _ _ _ hstep h hok => h.step hstep hok)
      (fun _ h => h.reported) truthful_initial

def failedRun : List Event :=
  [.addInterface (samplePeer sampleKey), .addRoute (text ".+@.+") [] (text "eth0") 100,
    .startRunner 0, .startWriter 0,
    .read 0 (some { firstContact with publickey := some (minBE sampleKey.n) }), .process 0 0,
    .asyncSendto (text "a@x") (text "hi") 1, .runPosted, .writeDone 0 false]

def failedSends (trace : List Effect) : List Nat :=
  trace.filterMap fun
    | .wrote _ (some send) _ false => some send
    | _ => none

/-- The only write fails, and the handler is told that it went well. -/
theorem reported_failed :
    ¬ Lib.Run.Always (step sampleLibs) (Reported sampleLibs) initial failedRun := by
  intro ha
  have hrun : (failedRun.foldlM (step sampleLibs) initial).map (fun k : Kernel => decide
      (failedSends k.trace = [0] ∧ .completed 0 .success ∈ k.trace)) = .ok true := by
    decide +kernel
  obtain ⟨k, hk, hfacts⟩ := map_returns hrun
  obtain ⟨hfailed, htold⟩ := of_decide_eq_true hfacts
  have hmem : 0 ∈ failedSends k.trace := by simp [hfailed]
  obtain ⟨effect, heffect, hsend⟩ := List.mem_filterMap.mp hmem
  split at hsend
  · cases hsend
    exact ((ha.last hk).failed _ _ _ heffect).1 htold
  · cases hsend

end Avim.Kernel
