import Avim.Delivery
import Avim.Keys

/-!
# Interfaces that come and go

An interface is registered under a name and removed by name when its runner
ends. A call that waits for a key holds a pointer to the interface it began
with; it uses it while the interface is registered as long as nobody's runner
ends under that name (`interface_in_use`). And a runner that ends takes only
its own interface along as long as no interface is added under a name that is
taken (`interfaces_apart`).
-/

namespace Avim.Kernel

open Lib.Octets

variable {lib : Libs} {k k' : Kernel}

-- ---------------------------------------------------------------------------
-- The end of a runner
-- ---------------------------------------------------------------------------

def ending (k : Kernel) : Event → Option (Nat × Port)
  | .startRunner port => (k.ports[port]?).bind fun p =>
    if p.runner = .spawned ∧ (k.links p.avif.id).quitting then some (port, p) else none
  | .read port packet => (k.ports[port]?).bind fun p =>
    if p.runner = .reading ∧ (packet.isNone ∨ (k.links p.avif.id).quitting) then some (port, p)
    else none
  | _ => none

/-- The name `remove_interface` is called with, if it is. -/
def removes (k : Kernel) (event : Event) : Option Bytes :=
  (ending k event).map fun e => (getIfname e.2.avif.ifname k.ifCounter).1

def tenant (p : Port) : Avif × Bool := (p.avif, p.runner == .exited)

theorem map_set_of_eq {f : α → β} {l : List α} (h : l[i]? = some x) (hf : f y = f x) :
    (l.set i y).map f = l.map f := by
  have hat : (l.map f)[i]? = some (f x) := by simp [h]
  obtain ⟨hi, hx⟩ := List.getElem?_eq_some_iff.mp hat
  rw [List.map_set, hf, ← hx, List.set_getElem_self]

/-- The step leaves interfaces, routes and runners as they are, but for routes
that are added and runners that go on. -/
structure Settled (k k' : Kernel) : Prop where
  avifs : k'.routing.avifs = k.routing.avifs
  generation : k'.routing.generation = k.routing.generation
  routes : ∀ route ∈ k.routing.routes, route ∈ k'.routing.routes
  ports : k'.ports.map tenant = k.ports.map tenant

theorem settled_of_same (hrouting : k'.routing = k.routing) (hports : k'.ports = k.ports) :
    Settled k k' :=
  ⟨by rw [hrouting], by rw [hrouting], by rw [hrouting]; exact fun _ h => h, by rw [hports]⟩

theorem settled_setPort (hp : k.ports[port]? = some p) (htenant : tenant q = tenant p)
    (hrouting : k'.routing = k.routing) (hports : k'.ports = k.ports.set port q) :
    Settled k k' :=
  ⟨by rw [hrouting], by rw [hrouting], by rw [hrouting]; exact fun _ h => h, by
    rw [hports, map_set_of_eq hp htenant]⟩

theorem writerLoop_settled (hp : k.ports[port]? = some p) : Settled k (k.writerLoop port p) := by
  unfold writerLoop
  split
  · exact settled_setPort hp (q := { p with writer := .exited }) rfl rfl rfl
  · exact settled_setPort hp (q := { p with writer := .popping }) rfl rfl rfl

theorem writerWrote_settled (hp : k.ports[port]? = some p) (bytes : Bytes) (handler : Option Nat)
    (written : Bool) : Settled k (k.writerWrote port p bytes handler written) := by
  obtain ⟨trace, hloops⟩ := writerWrote_loops k port p bytes handler written
  rw [hloops]
  obtain ⟨havifs, hgeneration, hroutes, hports⟩ :=
    writerLoop_settled (k := { k with trace := trace }) hp
  exact ⟨havifs, hgeneration, hroutes, hports⟩

theorem runPosted_settled (h : runPosted lib k = .ok k') : Settled k k' := by
  obtain ⟨-, rfl⟩ | ⟨port, ec, value, rest, -, ⟨-, rfl⟩ | ⟨p, hp, ⟨-, rfl⟩ | ⟨bytes, -, -, rfl⟩⟩⟩ |
    ⟨call, ec, value, rest, -, rfl⟩ := runPosted_cases h
  · exact settled_of_same rfl rfl
  · exact settled_of_same rfl rfl
  · exact settled_setPort hp (q := { p with writer := .exited }) rfl rfl rfl
  · exact settled_setPort hp (q := { p with writer := .writing bytes value.2 }) rfl rfl rfl
  · exact settled_of_same rfl rfl

theorem runnerLoop_settled (hp : k.ports[port]? = some p) (hrunner : p.runner ≠ .exited) :
    ((k.links p.avif.id).quitting = true ∧
      (k.runnerLoop port p).routing =
        k.routing.removeInterface (getIfname p.avif.ifname k.ifCounter).1 ∧
      (k.runnerLoop port p).ports = k.ports.set port { p with runner := .exited }) ∨
    ((k.links p.avif.id).quitting = false ∧ Settled k (k.runnerLoop port p)) := by
  obtain ⟨hquitting, heq⟩ | ⟨hquitting, heq⟩ := runnerLoop_cases k port p
  · rw [heq]
    exact .inl ⟨hquitting, rfl, rfl⟩
  · rw [heq]
    refine .inr ⟨hquitting, settled_setPort hp (q := { p with runner := .reading }) ?_ rfl rfl⟩
    simp [tenant, hrunner]

theorem step_tables (h : step lib k event = .ok k') :
    (∃ port p, ending k event = some (port, p) ∧ k.ports[port]? = some p ∧
      k'.routing = k.routing.removeInterface (getIfname p.avif.ifname k.ifCounter).1 ∧
      k'.ports = k.ports.set port { p with runner := .exited }) ∨
    (∃ avif, event = .addInterface avif ∧
      k'.routing = (k.routing.addInterface k.ifCounter avif).1 ∧
      k'.ports = k.ports ++ [⟨avif, .spawned, .spawned⟩]) ∨
    Settled k k' := by
  cases step_does h with
  | addInterface avif => exact .inr (.inl ⟨avif, rfl, rfl, rfl⟩)
  | addRoute targetAddress gateway ifname metric =>
    obtain ⟨havifs, hgeneration, hroutes⟩ := Routing.addRoute_avifs lib.regex lib.std k.routing
      targetAddress gateway ifname metric
    exact .inr (.inr ⟨havifs, hgeneration, hroutes, rfl⟩)
  | asyncSendto hcall =>
    obtain ⟨hrouting, -, hports, -⟩ := asyncSendto_same hcall
    exact .inr (.inr (settled_of_same hrouting hports))
  | @startRunner port p hp hspawned =>
    obtain ⟨hquitting, hrouting, hports⟩ | ⟨-, hsettled⟩ :=
      runnerLoop_settled hp (by rw [hspawned]; decide)
    · exact .inl ⟨port, p, by simp [ending, hp, hspawned, hquitting], hp, hrouting, hports⟩
    · exact .inr (.inr hsettled)
  | @read port p packet hp hreading =>
    have hrunner : p.runner ≠ .exited := by
      rw [hreading]
      decide
    cases packet with
    | none =>
      obtain ⟨-, hrouting, hports⟩ | ⟨hno, -⟩ :=
        runnerLoop_settled (k := k.quit p.avif.id) hp hrunner
      · exact .inl ⟨port, p, by simp [ending, hp, hreading], hp, hrouting, hports⟩
      · simp [quit] at hno
    | some packet =>
      obtain ⟨hquitting, hrouting, hports⟩ | ⟨-, hsettled⟩ := runnerLoop_settled
        (k := { k with spawned := k.spawned ++ [(packet, p.avif)] }) hp hrunner
      · refine .inl ⟨port, p, ?_, hp, hrouting, hports⟩
        have hquit : (k.links p.avif.id).quitting = true := hquitting
        simp [ending, hp, hreading, hquit]
      · exact .inr (.inr ⟨hsettled.avifs, hsettled.generation, hsettled.routes, hsettled.ports⟩)
  | process _ hprocess =>
    obtain ⟨hrouting, hports⟩ := processRecivedPacket_same hprocess
    exact .inr (.inr (settled_of_same hrouting hports))
  | startWriter hp _ => exact .inr (.inr (writerLoop_settled hp))
  | writeDone written hp _ => exact .inr (.inr (writerWrote_settled hp _ _ _))
  | runPosted hposted => exact .inr (.inr (runPosted_settled hposted))
  | timer1 hsweep =>
    obtain ⟨hrouting, -, hports, -⟩ := sweep_same hsweep
    exact .inr (.inr (settled_of_same hrouting hports))
  | _ => exact .inr (.inr (settled_of_same rfl rfl))

-- ---------------------------------------------------------------------------
-- Calls hold interfaces
-- ---------------------------------------------------------------------------

/-- No runner ends under the name of an interface that a waiting call holds. -/
def Spares (k : Kernel) (event : Event) : Prop :=
  ∀ w ∈ k.waiters, removes k event ≠ some w.op.interface.name

instance (k : Kernel) (event : Event) : Decidable (Spares k event) :=
  inferInstanceAs (Decidable (∀ w ∈ k.waiters, removes k event ≠ some w.op.interface.name))

def Valid (r : Routing) (p : AvifPtr) : Prop :=
  r.avifs[p.name]? = some p.avif ∧ r.generation p.name = p.generation

instance (r : Routing) (p : AvifPtr) : Decidable (Valid r p) :=
  inferInstanceAs (Decidable (_ ∧ _))

def Held (k : Kernel) : Prop := ∀ w ∈ k.waiters, Valid k.routing w.op.interface

theorem held_initial : Held initial := by
  intro w hw
  cases hw

theorem Held.of_same (h : Held k) (hwaiters : k'.waiters = k.waiters)
    (hrouting : k'.routing = k.routing) : Held k' := by
  intro w hw
  rw [hwaiters] at hw
  rw [hrouting]
  exact h w hw

theorem Held.sendOrAsk (h : Held k) (hvalid : Valid k.routing op.interface)
    (hsend : sendOrAsk lib k op now = .ok k') : Held k' := by
  have hrouting := (sendOrAsk_same hsend).1
  obtain ⟨_, _, _, -, hsame, -⟩ | ⟨_, _, -, -, hsame, -⟩ | ⟨-, -, hsame, -⟩ :=
    sendOrAsk_outcome hsend
  · exact h.of_same hsame hrouting
  · intro w hw
    rw [hrouting]
    rw [hsame] at hw
    rcases List.mem_append.mp hw with hw | hw
    · exact h w hw
    · rw [List.mem_singleton.mp hw]
      exact hvalid
  · exact h.of_same hsame hrouting

theorem Standing.valid_selectRoute (hk : Standing k)
    (h : k.routing.selectRoute regex address = .ok (some p)) : Valid k.routing p := by
  have hselect : ∃ found, k.routing.selectRoute regex address = .ok found ∧ _ :=
    hk.wellFormed.selectRoute address
  obtain ⟨found, hfound, -, hvalid⟩ := hselect
  have hgeneration := Routing.selectRoute_generation h
  rw [h] at hfound
  cases hfound
  exact ⟨(hvalid p rfl).1, hgeneration⟩

theorem Standing.selectRoute_returns (hk : Standing k) (regex : Regex) (address : Bytes) :
    ∃ found, k.routing.selectRoute regex address = .ok found := by
  have hselect : ∃ found, k.routing.selectRoute regex address = .ok found ∧ _ :=
    hk.wellFormed.selectRoute address
  obtain ⟨found, hfound, -⟩ := hselect
  exact ⟨found, hfound⟩

theorem Held.asyncSendto (h : Held k) (hk : Standing k)
    (hcall : asyncSendto lib k target data now = .ok k') : Held k' := by
  obtain ⟨-, rfl⟩ | ⟨interface, hselect, hsend⟩ := asyncSendto_cases hcall
  · exact h.of_same rfl rfl
  · have hcalled : Held { k with sends := k.sends + 1 } := h.of_same rfl rfl
    refine hcalled.sendOrAsk ?_ hsend
    exact hk.valid_selectRoute hselect

theorem Held.sweep (h : Held k) (hsweep : sweep lib due k now = .ok k') : Held k' := by
  refine sweep_resumes ?_ h hsweep
  intro k i w resumed hw hres hk
  have hheld := hk.sendOrAsk (hk w (List.mem_of_getElem? hw)) hres
  intro v hv
  exact hheld v (List.mem_of_mem_eraseIdx hv)

theorem Held.process (h : Held k)
    (hprocess : processRecivedPacket lib k packet avif now = .ok k') : Held k' := by
  obtain ⟨handled, hhandled, hswept⟩ := processRecivedPacket_handled hprocess
  exact (h.of_same hhandled.waiters hhandled.routing).sweep hswept

theorem Held.step (h : Held k) (hk : Standing k) (hspares : Spares k event)
    (hstep : step lib k event = .ok k') : Held k' := by
  obtain hidle | ⟨target, data, now, -, hcall⟩ | ⟨index, now, packet, avif, -, -, hprocess⟩ |
    ⟨now, -, hsweep⟩ | ⟨now, store, -, -, rfl⟩ := step_cases hstep
  · intro w hw
    rw [hidle.waiters] at hw
    have hvalid := h w hw
    obtain ⟨port, p, hending, -, hrouting, -⟩ | ⟨avif, -, hrouting, -⟩ | hsettled :=
      step_tables hstep
    · have hname : w.op.interface.name ≠ (getIfname p.avif.ifname k.ifCounter).1 := by
        intro hname
        exact hspares w hw (by simp [removes, hending, hname])
      rw [Valid, hrouting, Routing.getElem?_removeInterface_of_ne hname,
        Routing.generation_removeInterface_of_ne hname]
      exact hvalid
    · rw [Valid, hrouting]
      exact ⟨Routing.getElem?_addInterface hvalid.1 _ _, hvalid.2⟩
    · rw [Valid, hsettled.avifs, hsettled.generation]
      exact hvalid
  · exact h.asyncSendto hk hcall
  · have hstarted : Held { k with spawned := k.spawned.eraseIdx index } := h.of_same rfl rfl
    exact hstarted.process hprocess
  · exact h.sweep hsweep
  · exact h.of_same rfl rfl

-- ---------------------------------------------------------------------------
-- Where a dangling pointer could be used
-- ---------------------------------------------------------------------------

theorem chunkLoop_ne_dangling (op : Nat → Bytes → Option Bytes) (step : Int) (bound : Nat)
    (remaining : Nat → Int) (input : Bytes) (fuel i : Nat) :
    chunkLoop op step bound remaining input fuel i ≠ .error .dangling := by
  induction fuel generalizing i with
  | zero => simp [chunkLoop]
  | succ fuel ih =>
    intro h
    simp only [chunkLoop] at h
    split at h
    · split at h
      · cases h
      · split at h
        · cases h
        · split at h
          · cases h
          · exact ih _ (map_fails h)
    · cases h

theorem findRSAPubkey_ne_dangling (store : KeyStore) (address : Bytes) :
    store.findRSAPubkey address ≠ .error .dangling := by
  unfold KeyStore.findRSAPubkey
  split
  · simp
  · split <;> simp

theorem deref_of_valid (h : Valid r p) : r.deref p = .ok p.avif := if_pos h

theorem sendOrAsk_ne_dangling (hvalid : Valid k.routing op.interface) :
    sendOrAsk lib k op now ≠ .error .dangling := by
  intro h
  obtain h | ⟨found, -, h⟩ := bind_fails h
  · exact findRSAPubkey_ne_dangling _ _ h
  · cases found with
    | some key =>
      obtain h | ⟨first, -, h⟩ := bind_fails h
      · exact chunkLoop_ne_dangling _ _ _ _ _ _ _ h
      · rw [deref_of_valid hvalid, ok_bind] at h
        obtain h | ⟨second, -, h⟩ := bind_fails h
        · exact chunkLoop_ne_dangling _ _ _ _ _ _ _ h
        · cases h
    | none =>
      dsimp only at h
      split at h
      · rw [askKey, deref_of_valid hvalid] at h
        cases h
      · cases h

theorem asyncSendto_ne_dangling (hk : Standing k) :
    asyncSendto lib k target data now ≠ .error .dangling := by
  intro h
  obtain ⟨found, hfound⟩ := hk.selectRoute_returns lib.regex target
  rw [asyncSendto, hfound, ok_bind] at h
  cases found with
  | none => cases h
  | some interface =>
    refine sendOrAsk_ne_dangling ?_ h
    exact hk.valid_selectRoute hfound

theorem sweepFrom_ne_dangling (hdue : ∀ k w, due k w ≠ .error .dangling) (h : Held k) :
    sweepFrom lib due now fuel k i ≠ .error .dangling := by
  induction fuel generalizing k i with
  | zero => simp [sweepFrom]
  | succ fuel ih =>
    intro hfault
    unfold sweepFrom at hfault
    split at hfault
    · cases hfault
    · rename_i w hw
      have hvalid := h w (List.mem_of_getElem? hw)
      obtain hfault | ⟨isDue, -, hfault⟩ := bind_fails hfault
      · exact hdue _ _ hfault
      · cases isDue with
        | true =>
          obtain hfault | ⟨resumed, hres, hfault⟩ := bind_fails hfault
          · exact sendOrAsk_ne_dangling hvalid hfault
          · refine ih ?_ hfault
            intro v hv
            exact h.sendOrAsk hvalid hres v (List.mem_of_mem_eraseIdx hv)
        | false => exact ih h hfault

theorem answered_ne_dangling (packet : AvPacket) (k : Kernel) (w : Waiter) :
    answered packet k w ≠ .error .dangling := by
  unfold answered
  split
  · intro h
    exact findRSAPubkey_ne_dangling _ _ (map_fails h)
  · simp

theorem orNull_ne_dangling (p : Option α) : orNull p ≠ .error .dangling := by
  cases p <;> simp [orNull]

theorem deliverOrForward_ne_dangling (hk : Standing k) :
    deliverOrForward lib k packet avif now ≠ .error .dangling := by
  intro h
  unfold deliverOrForward at h
  split at h
  · unfold processRecivedPacketToMe at h
    dsimp only at h
    split at h
    · cases h
    · split at h
      · obtain h | ⟨rsa, -, h⟩ := bind_fails h
        · obtain h | ⟨crt, -, h⟩ := bind_fails h
          · exact orNull_ne_dangling _ h
          · obtain h | ⟨pkey, -, h⟩ := bind_fails h
            · exact orNull_ne_dangling _ h
            · exact orNull_ne_dangling _ h
        · cases h
      · obtain h | ⟨payload, -, h⟩ := bind_fails h
        · unfold decryptPayload at h
          split at h
          · obtain h | ⟨first, -, h⟩ := bind_fails h
            · exact chunkLoop_ne_dangling _ _ _ _ _ _ _ h
            · exact chunkLoop_ne_dangling _ _ _ _ _ _ _ h
          · cases h
        · split at h
          · cases h
          · cases h
  · unfold forward at h
    split at h
    · cases h
    · obtain h | ⟨found, -, h⟩ := bind_fails h
      · obtain ⟨found, hfound⟩ := hk.selectRoute_returns lib.regex (avAddressToString packet.dest)
        cases hfound.symm.trans h
      · cases found with
        | none => cases h
        | some interface => cases h

theorem processRecivedPacket_ne_dangling (hk : Standing k) (h : Held k) :
    processRecivedPacket lib k packet avif now ≠ .error .dangling := by
  intro hfault
  obtain hfault | ⟨checked, hchecked, hfault⟩ := bind_fails hfault
  · obtain hfault | ⟨stored, -, hfault⟩ := bind_fails hfault
    · exact findRSAPubkey_ne_dangling _ _ hfault
    · split at hfault
      · cases hfault
      · cases hfault
  · obtain hfault | ⟨handled, hhandled, hfault⟩ := bind_fails hfault
    · exact deliverOrForward_ne_dangling (hk.checkKey hchecked) hfault
    · have hparts := handled_of_delivered hchecked hhandled
      exact sweepFrom_ne_dangling (answered_ne_dangling packet)
        (h.of_same hparts.waiters hparts.routing) hfault

theorem purgeLoop_ne_dangling (now : Int) (entries : List (Bytes × AVdbitem)) :
    KeyStore.purgeLoop now entries ≠ .error .dangling := by
  intro h
  fun_induction KeyStore.purgeLoop now entries with
  | case1 => cases h
  | case2 => cases h
  | case3 address item keys hempty skipped rest ih => exact ih (map_fails h)
  | case4 address item rest keys hkeys ih => exact ih (map_fails h)

theorem encode_ne_dangling (pb : Protobuf) (message : pb.Message) :
    encode pb message ≠ .error .dangling := by
  intro h
  simp only [encode] at h
  split at h
  · cases h
  · split at h
    · cases h
    · cases h

theorem runPosted_ne_dangling : runPosted lib k ≠ .error .dangling := by
  intro h
  unfold runPosted at h
  split at h
  · cases h
  · split at h
    · unfold writerPopped at h
      split at h
      · cases h
      · exact encode_ne_dangling _ _ (map_fails h)
    · cases h
  · cases h

theorem step_ne_dangling (hk : Standing k) (h : Held k) (event : Event) :
    step lib k event ≠ .error .dangling := by
  intro hfault
  cases event with
  | asyncSendto target data now => exact asyncSendto_ne_dangling hk hfault
  | process index now =>
    simp only [step] at hfault
    split at hfault
    · have hstarted : Held { k with spawned := k.spawned.eraseIdx index } := h.of_same rfl rfl
      have hstanding : Standing { k with spawned := k.spawned.eraseIdx index } :=
        ⟨hk.filled, hk.wellFormed⟩
      exact processRecivedPacket_ne_dangling hstanding hstarted hfault
    · cases hfault
  | timer1 now =>
    refine sweepFrom_ne_dangling ?_ h hfault
    intro k w
    simp [expired]
  | timer2 now => exact purgeLoop_ne_dangling _ _ (map_fails (map_fails hfault))
  | runPosted => exact runPosted_ne_dangling hfault
  | startRunner port =>
    obtain ⟨k', hk'⟩ := portEvent_returns k port (·.runner = .spawned) (k.runnerLoop port)
    cases hk'.symm.trans hfault
  | read port packet =>
    obtain ⟨k', hk'⟩ :=
      portEvent_returns k port (·.runner = .reading) (k.runnerRead port · packet)
    cases hk'.symm.trans hfault
  | startWriter port =>
    obtain ⟨k', hk'⟩ := portEvent_returns k port (·.writer = .spawned) (k.writerLoop port)
    cases hk'.symm.trans hfault
  | writeDone port written =>
    simp only [step] at hfault
    split at hfault
    · split at hfault
      · cases hfault
      · cases hfault
    · cases hfault
  | addInterface avif => cases hfault
  | addRoute targetAddress gateway ifname metric => cases hfault
  | getIfname avif => cases hfault
  | asyncRecvfrom => cases hfault

/-- In every run where no runner ends under the name of an interface that a
waiting call holds, no call uses an interface that is not registered. -/
theorem interface_in_use (lib : Libs) (events : List Event)
    (hspares : Lib.Run.Along (step lib) (fun k event _ => Spares k event) initial events) :
    Lib.Run.Avoids (step lib) .dangling initial events := by
  refine Lib.Run.avoids_of_along (I := fun k => Standing k ∧ Held k) ?_ ?_
    ⟨standing_initial, held_initial⟩ hspares
  · intro k event k' hstep hk hspares
    exact ⟨hk.1.step hstep, hk.2.step hk.1 hspares hstep⟩
  · intro k event hk
    exact step_ne_dangling hk.1 hk.2 event

def waitingRun (between : List Event) : List Event :=
  [.addInterface (samplePeer sampleKey), .addRoute (text ".+@.+") [] (text "eth0") 100,
    .startRunner 0, .asyncSendto (text "a@x") (text "hi") 0] ++ between ++ [.timer1 9000000]

theorem interface_in_use_quiet :
    Lib.Run.Avoids (step sampleLibs) .dangling initial (waitingRun [.read 0 (some firstContact)]) :=
  interface_in_use sampleLibs _ (by decide +kernel)

/-- The connection is lost while the call waits, and the interface is gone
when the call asks again. -/
theorem interface_used_after_removal :
    ¬ Lib.Run.Avoids (step sampleLibs) .dangling initial (waitingRun [.read 0 none]) := by
  intro h
  have hrun : ((waitingRun [.read 0 none]).foldlM (step sampleLibs) initial).map
      (fun _ => ()) = .error .dangling := by
    decide +kernel
  exact h.run (map_fails hrun)

-- ---------------------------------------------------------------------------
-- Interfaces and each other
-- ---------------------------------------------------------------------------

/-- The interface that is added, if one is, answers with the same name each
time. -/
def Named : Event → Prop
  | .addInterface avif => ∃ name, avif.ifname = .stable name
  | _ => True

/-- The name of the interface that is added, if one is, is not taken. -/
def Free (k : Kernel) : Event → Prop
  | .addInterface ⟨_, .stable name, _, _, _⟩ => name ∉ k.routing.avifs
  | _ => True

instance (k : Kernel) : DecidablePred (Free k)
  | .addInterface ⟨_, .stable name, _, _, _⟩ => inferInstanceAs (Decidable (name ∉ k.routing.avifs))
  | .addInterface ⟨_, .avjack, _, _, _⟩ => .isTrue trivial
  | .addRoute .. | .getIfname .. | .asyncSendto .. | .asyncRecvfrom | .startRunner .. | .read ..
  | .process .. | .startWriter .. | .writeDone .. | .runPosted | .timer1 .. | .timer2 .. =>
    .isTrue trivial

/-- An interface that was reported as added is the one under its name, and one
whose runner is running stays registered with its routes. -/
structure Apart (k : Kernel) (event : Event) (k' : Kernel) : Prop where
  added : ∀ avif name, event = .addInterface avif → avif.ifname = .stable name →
    (k.routing.addInterface k.ifCounter avif).2.2 = true → k'.routing.avifs[name]? = some avif
  kept : ∀ (name : Bytes) (avif : Avif), k.routing.avifs[name]? = some avif →
    (∃ p ∈ k'.ports, p.avif = avif ∧ p.runner ≠ .exited) →
    k'.routing.avifs[name]? = some avif ∧
      ∀ route ∈ k.routing.routes, route.ifname = name → route ∈ k'.routing.routes

def tenants (k : Kernel) : List (Avif × Bool) := k.ports.map tenant

/-- Interfaces are under their own names, and those whose runners are running
are registered, one port each. -/
structure Tenancy (k : Kernel) : Prop where
  own : ∀ (name : Bytes) (avif : Avif), k.routing.avifs[name]? = some avif →
    avif.ifname = .stable name
  housed : ∀ (i : Nat) (avif : Avif), (tenants k)[i]? = some (avif, false) →
    ∃ name, avif.ifname = .stable name ∧ k.routing.avifs[name]? = some avif
  single : ∀ (i j : Nat) (a b : Avif), (tenants k)[i]? = some (a, false) →
    (tenants k)[j]? = some (b, false) → a.ifname = b.ifname → i = j

theorem tenancy_initial : Tenancy initial := by
  refine ⟨?_, ?_, ?_⟩
  · intro name avif h
    simp [initial, Routing.empty] at h
  · intro i avif h
    simp [tenants, initial] at h
  · intro i j a b h
    simp [tenants, initial] at h

theorem mem_tenants (h : ∃ p ∈ k.ports, p.avif = avif ∧ p.runner ≠ .exited) :
    ∃ i : Nat, (tenants k)[i]? = some (avif, false) := by
  obtain ⟨p, hp, rfl, hrunner⟩ := h
  refine List.mem_iff_getElem?.mp (List.mem_map.mpr ⟨p, hp, ?_⟩)
  simp [tenant, hrunner]

theorem Tenancy.settled (h : Tenancy k) (hsettled : Settled k k') : Tenancy k' := by
  have htenants : tenants k' = tenants k := hsettled.ports
  refine ⟨?_, ?_, ?_⟩
  · rw [hsettled.avifs]
    exact h.own
  · rw [hsettled.avifs, htenants]
    exact h.housed
  · rw [htenants]
    exact h.single

theorem apart_settled (hadd : ∀ avif, event ≠ .addInterface avif) (hsettled : Settled k k') :
    Apart k event k' := by
  refine ⟨?_, ?_⟩
  · intro avif _ hevent
    exact absurd hevent (hadd avif)
  · intro name avif hat _
    exact ⟨by rw [hsettled.avifs, hat], fun route hroute _ => hsettled.routes route hroute⟩

section

variable {avif : Avif}

theorem addInterface_stable (hname : avif.ifname = .stable name) (hfree : name ∉ k.routing.avifs)
    (other : Bytes) : (k.addInterface avif).routing.avifs[other]? =
      if other = name then some avif else k.routing.avifs[other]? := by
  simp only [addInterface, Routing.addInterface, hname, getIfname,
    Std.ExtTreeMap.getElem?_insertIfNew]
  by_cases ho : other = name
  · simp [ho, hfree]
  · simp [ho, Ne.symm ho]

theorem Tenancy.addInterface (h : Tenancy k) (hname : avif.ifname = .stable name)
    (hfree : name ∉ k.routing.avifs) : Tenancy (k.addInterface avif) := by
  have htenants : tenants (k.addInterface avif) = tenants k ++ [(avif, false)] := by
    simp [tenants, Kernel.addInterface, tenant]
  have hold : ∀ (other : Bytes) a, k.routing.avifs[other]? = some a → other ≠ name := by
    rintro other a hat rfl
    rw [Std.ExtTreeMap.mem_iff_isSome_getElem?, hat] at hfree
    exact hfree rfl
  -- the names of those who are there are taken, so the new one has another
  have hnew : ∀ (i : Nat) a, (tenants k)[i]? = some (a, false) → a.ifname ≠ avif.ifname := by
    intro i a hi heq
    obtain ⟨other, hother, hat⟩ := h.housed i a hi
    refine hold other a hat ?_
    rw [hother, hname] at heq
    exact IfName.stable.inj heq
  refine ⟨?_, ?_, ?_⟩
  · intro other a hat
    rw [addInterface_stable hname hfree] at hat
    split at hat
    · rename_i ho
      cases hat
      rw [ho]
      exact hname
    · exact h.own other a hat
  · intro i a hi
    rw [htenants] at hi
    rcases getElem?_concat_cases hi with hi | ⟨-, heq⟩
    · obtain ⟨other, hother, hat⟩ := h.housed i a hi
      refine ⟨other, hother, ?_⟩
      rw [addInterface_stable hname hfree, if_neg (hold other a hat)]
      exact hat
    · cases heq
      exact ⟨name, hname, by rw [addInterface_stable hname hfree, if_pos rfl]⟩
  · intro i j a b hi hj heq
    rw [htenants] at hi hj
    rcases getElem?_concat_cases hi with hi' | ⟨hi', ha⟩
    · rcases getElem?_concat_cases hj with hj' | ⟨-, hb⟩
      · exact h.single i j a b hi' hj' heq
      · cases hb
        exact absurd heq (hnew i a hi')
    · rcases getElem?_concat_cases hj with hj' | ⟨hj', -⟩
      · cases ha
        exact absurd heq.symm (hnew j b hj')
      · rw [hi', hj']

theorem apart_addInterface (hname : avif.ifname = .stable name)
    (hfree : name ∉ k.routing.avifs) : Apart k (.addInterface avif) (k.addInterface avif) := by
  refine ⟨?_, ?_⟩
  · intro a other hevent hother _
    cases hevent
    rw [hname] at hother
    cases hother
    rw [addInterface_stable hname hfree, if_pos rfl]
  · intro other a hat _
    exact ⟨Routing.getElem?_addInterface hat _ _, fun _ hroute _ => hroute⟩

end

theorem Tenancy.other_name {i port : Nat} (h : Tenancy k)
    (hp : (tenants k)[port]? = some (a, false)) (hname : a.ifname = .stable name)
    (hi : ((tenants k).set port (a, true))[i]? = some (b, false)) :
    (tenants k)[i]? = some (b, false) ∧ b.ifname ≠ .stable name := by
  by_cases hip : port = i
  · subst hip
    have hlt : port < (tenants k).length := (List.getElem?_eq_some_iff.mp hp).1
    rw [List.getElem?_set_self hlt] at hi
    cases hi
  · rw [List.getElem?_set_ne hip] at hi
    refine ⟨hi, ?_⟩
    intro heq
    exact hip (h.single port i a b hp hi (hname.trans heq.symm))

theorem Tenancy.end (h : Tenancy k) (hp : k.ports[port]? = some p) (hrunner : p.runner ≠ .exited)
    (hrouting : k'.routing = k.routing.removeInterface (getIfname p.avif.ifname k.ifCounter).1)
    (hports : k'.ports = k.ports.set port { p with runner := .exited }) :
    Tenancy k' ∧ ∀ event, (∀ avif, event ≠ .addInterface avif) → Apart k event k' := by
  have hold : (tenants k)[port]? = some (p.avif, false) := by
    simp [tenants, hp, tenant, hrunner]
  have htenants : tenants k' = (tenants k).set port (p.avif, true) := by
    simp [tenants, hports, List.map_set, tenant]
  obtain ⟨name, hname, -⟩ := h.housed port p.avif hold
  have hremoved : k'.routing = k.routing.removeInterface name := by
    rw [hrouting, hname]
    rfl
  have hkept : ∀ (other : Bytes), other ≠ name →
      k'.routing.avifs[other]? = k.routing.avifs[other]? := by
    intro other hne
    rw [hremoved, Routing.getElem?_removeInterface_of_ne hne]
  refine ⟨⟨?_, ?_, ?_⟩, ?_⟩
  · intro other a hat
    refine h.own other a ?_
    rw [hremoved] at hat
    simp only [Routing.removeInterface, Std.ExtTreeMap.getElem?_erase] at hat
    split at hat
    · cases hat
    · exact hat
  · intro i a hi
    rw [htenants] at hi
    obtain ⟨hi, hne⟩ := h.other_name hold hname hi
    obtain ⟨other, hother, hat⟩ := h.housed i a hi
    refine ⟨other, hother, ?_⟩
    rw [hkept other (fun heq => hne (heq ▸ hother)), hat]
  · intro i j a b hi hj heq
    rw [htenants] at hi hj
    exact h.single i j a b (h.other_name hold hname hi).1 (h.other_name hold hname hj).1 heq
  · intro event hadd
    refine ⟨fun avif _ hevent => absurd hevent (hadd avif), ?_⟩
    intro other a hat hrunning
    obtain ⟨i, hi⟩ := mem_tenants hrunning
    rw [htenants] at hi
    obtain ⟨-, hne⟩ := h.other_name hold hname hi
    have hother : other ≠ name := fun heq => hne (heq ▸ h.own other a hat)
    refine ⟨by rw [hkept other hother, hat], ?_⟩
    intro route hroute hifname
    rw [hremoved, Routing.removeInterface_routes, List.mem_filter]
    exact ⟨hroute, by simp [hifname, hother]⟩

theorem ending_running (h : ending k event = some (port, p)) :
    p.runner ≠ .exited ∧ ∀ avif, event ≠ .addInterface avif := by
  unfold ending at h
  split at h
  · obtain ⟨q, -, hq⟩ := Option.bind_eq_some_iff.mp h
    split at hq
    · rename_i hspawned
      cases hq
      exact ⟨by simp [hspawned.1], by simp⟩
    · cases hq
  · obtain ⟨q, -, hq⟩ := Option.bind_eq_some_iff.mp h
    split at hq
    · rename_i hreading
      cases hq
      exact ⟨by simp [hreading.1], by simp⟩
    · cases hq
  · cases h

theorem Tenancy.step (h : Tenancy k) (hnamed : Named event) (hfree : Free k event)
    (hstep : step lib k event = .ok k') : Tenancy k' ∧ Apart k event k' := by
  by_cases hadd : ∃ avif, event = .addInterface avif
  · obtain ⟨avif, rfl⟩ := hadd
    cases hstep
    obtain ⟨name, hname⟩ := hnamed
    have hfresh : name ∉ k.routing.avifs := by
      obtain ⟨id, ifname, ifAddress, rsaKey, cert⟩ := avif
      cases hname
      exact hfree
    exact ⟨h.addInterface hname hfresh, apart_addInterface hname hfresh⟩
  · have hno : ∀ avif, event ≠ .addInterface avif := fun avif hevent => hadd ⟨avif, hevent⟩
    obtain ⟨port, p, hending, hp, hrouting, hports⟩ | ⟨avif, hevent, -⟩ | hsettled :=
      step_tables hstep
    · obtain ⟨htenancy, hapart⟩ := h.end hp (ending_running hending).1 hrouting hports
      exact ⟨htenancy, hapart event hno⟩
    · exact absurd hevent (hno avif)
    · exact ⟨h.settled hsettled, apart_settled hno hsettled⟩

/-- In every run of interfaces with names of their own, where none is added
under a name that is taken, an interface that was reported as added is the one
under its name, and no runner's end takes another interface or its routes
along while that one's runner is running. -/
theorem interfaces_apart (lib : Libs) (events : List Event) (hnamed : ∀ event ∈ events, Named event)
    (hfree : Lib.Run.Along (step lib) (fun k event _ => Free k event) initial events) :
    Lib.Run.Along (step lib) Apart initial events := by
  refine Lib.Run.along_of_along (I := Tenancy) ?_ ?_ tenancy_initial
    (Lib.Run.along_of_all hnamed hfree)
  · intro k event k' hstep h hevent
    exact (h.step hevent.1 hevent.2 hstep).1
  · intro k event k' hstep h hevent
    exact (h.step hevent.1 hevent.2 hstep).2

def twoInterfaces (second : Bytes) : List Event :=
  [.addInterface (samplePeer sampleKey), .addRoute (text ".+@.+") [] (text "eth0") 100,
    .addInterface { samplePeer oddKey with id := 3, ifname := .stable second },
    .startRunner 0, .startRunner 1]

theorem interfaces_apart_two : Lib.Run.Along (step sampleLibs) Apart initial
    (twoInterfaces (text "eth1") ++ [.read 1 none]) := by
  refine interfaces_apart sampleLibs _ ?_ (by decide +kernel)
  simp [twoInterfaces, Named, samplePeer]

/-- The second interface has the name of the first. When its runner ends, the
first one goes, with its route and its runner running. -/
theorem interfaces_collide :
    ¬ Lib.Run.Along (step sampleLibs) Apart initial
      (twoInterfaces (text "eth0") ++ [.read 1 none]) := by
  intro h
  have hbefore : ((twoInterfaces (text "eth0")).foldlM (step sampleLibs) initial).map
      (fun k : Kernel => decide
        (k.routing.avifs[text "eth0"]? = some (samplePeer sampleKey))) = .ok true := by
    decide +kernel
  have hafter : ((twoInterfaces (text "eth0") ++ [Event.read 1 none]).foldlM (step sampleLibs)
      initial).map (fun k : Kernel => decide
        ((∃ p ∈ k.ports, p.avif = samplePeer sampleKey ∧ p.runner ≠ .exited) ∧
          k.routing.avifs[text "eth0"]? = none ∧ k.routing.routes = [])) = .ok true := by
    decide +kernel
  obtain ⟨k, hk, hbefore⟩ := map_returns hbefore
  obtain ⟨k', hk', hafter⟩ := map_returns hafter
  obtain ⟨hrunning, hgone, -⟩ := of_decide_eq_true hafter
  have hapart := h.last hk hk'
  have hkept := (hapart.kept _ _ (of_decide_eq_true hbefore) hrunning).1
  rw [hgone] at hkept
  cases hkept

end Avim.Kernel
