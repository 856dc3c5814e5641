import Avim.Calls
import Avim.Tables

/-!
# The front ends

`new_im`, `gavim` and the C interface set a kernel up in the same way: one
`avjackif`, then a default route over it under the name it answers next, which
is not a name the kernel knows it by. So there is never a route
(`never_routed`): every call fails at once, every packet in transit is dropped,
and `pkreply`s are all that is ever put into a write queue. A name can only
come back once all 2^32 of them have been given out.
-/

namespace Avim

open Lib.Octets Lib.Run

-- ---------------------------------------------------------------------------
-- What they do
-- ---------------------------------------------------------------------------

abbrev JackIf := { avif : Avif // avif.ifname = .avjack }

inductive Use
  | msgLoginAndSend (avif : JackIf) (shaken : Bool)
  | connectToAvrouter (avif : JackIf) (shaken : Bool)
  | recvThreadRun (avif : JackIf)
  -- anything else that happens in the kernel
  | serve (event : { event : Event // event.registers = false })

namespace FrontEnd

open Kernel

variable (lib : Libs)

/-- `add_route(".+@.+", me_addr, avinterface->get_ifname(), 100)` -/
def addDefaultRoute (k : Kernel) (avif : JackIf) (meAddr : Bytes) : Kernel :=
  let (name, t) := getIfname avif.1.ifname k.ifCounter
  let (routing, _) := k.routing.addRoute lib.regex lib.std (text ".+@.+") meAddr name 100
  { k with routing := routing, ifCounter := t }

/-- The handshake, `add_interface` and `add_route` joined by `&&`. -/
def login (k : Kernel) (avif : JackIf) (shaken : Bool) (meAddr : Bytes) : Kernel :=
  if shaken then
    let (_, _, registered) := k.routing.addInterface k.ifCounter avif.1
    let k := k.addInterface avif.1
    if registered then addDefaultRoute lib k avif meAddr else k
  else k

def msgLoginAndSend (k : Kernel) (avif : JackIf) (shaken : Bool) : Kernel :=
  login lib k avif shaken (avAddressToString avif.1.ifAddress)

def jackifLogin (k : Kernel) (avif : JackIf) (ifAddress : Option AvAddress) (shaken : Bool) :
    Except Fault Kernel :=
  (orNull ifAddress).map fun address => login lib k avif shaken (avAddressToString address)

/-- It reads the key and the certificate and does not hand them to `set_pki`,
so the interface has no address. -/
def connectToAvrouter (k : Kernel) (avif : JackIf) (shaken : Bool) : Except Fault Kernel :=
  jackifLogin lib k avif none shaken

/-- What `handshake` and `add_interface` return is not looked at. -/
def recvThreadRun (k : Kernel) (avif : JackIf) : Kernel :=
  addDefaultRoute lib (k.addInterface avif.1) avif (avAddressToString avif.1.ifAddress)

def next (k : Kernel) : Use → Except Fault Kernel
  | .msgLoginAndSend avif shaken => .ok (msgLoginAndSend lib k avif shaken)
  | .connectToAvrouter avif shaken => connectToAvrouter lib k avif shaken
  | .recvThreadRun avif => .ok (recvThreadRun lib k avif)
  | .serve event => step lib k event.1

def Silent (trace : List Effect) : Prop :=
  ∀ link cause packet, .enqueued link cause packet ∈ trace → cause = .pkreply

structure CutOff (k : Kernel) : Prop where
  routes : k.routing.routes = []
  calls : ∀ send < k.sends, tellings k.trace send = [.networkUnreachable]
  silent : Silent k.trace

variable {lib : Libs} {k k' : Kernel}

-- ---------------------------------------------------------------------------
-- Names are given out in order
-- ---------------------------------------------------------------------------

theorem avjackName_injective (hm : m < 2 ^ 32) (hn : n < 2 ^ 32)
    (h : avjackName m = avjackName n) : m = n := by
  simp only [avjackName, text_append, List.append_cancel_left_eq] at h
  have hmod := text_toString_injective h
  omega

-- ---------------------------------------------------------------------------
-- Without routes
-- ---------------------------------------------------------------------------

structure Unrouted (k : Kernel) : Prop where
  routes : k.routing.routes = []
  names : ∀ name ∈ k.routing.avifs, ∃ t < k.ifCounter, name = avjackName t
  waiters : k.waiters = []
  silent : Silent k.trace

theorem unrouted_initial : Unrouted initial := by
  refine ⟨rfl, ?_, rfl, nofun⟩
  intro name hname
  exact absurd hname Std.ExtTreeMap.not_mem_empty

theorem selectRoute_of_nil (h : k.routing.routes = []) (address : Bytes) :
    k.routing.selectRoute lib.regex address = .ok none := by
  simp [Routing.selectRoute, h]

theorem sweep_of_nil (h : k.waiters = []) (hswept : sweep lib due k now = .ok k') : k' = k := by
  simp only [sweep, sweepFrom, h, List.getElem?_nil] at hswept
  exact (Except.ok.inj hswept).symm

theorem Unrouted.unregistered (h : Unrouted k) (hge : k.ifCounter ≤ t) (ht : t < 2 ^ 32) :
    avjackName t ∉ k.routing.avifs := by
  intro hmem
  obtain ⟨s, hs, heq⟩ := h.names _ hmem
  have hst := avjackName_injective ht (by omega) heq
  omega

theorem Unrouted.serves (h : Unrouted k) (hserves : Serves k k') (hwaiters : k'.waiters = [])
    (hsilent : Silent k'.trace) : Unrouted k' := by
  refine ⟨?_, ?_, hwaiters, hsilent⟩
  · rcases hserves.routing with heq | ⟨name, heq⟩
    · rw [heq]
      exact h.routes
    · rw [heq, Routing.removeInterface_routes, h.routes, List.filter_nil]
  · intro name hname
    have hold : name ∈ k.routing.avifs := by
      rcases hserves.routing with heq | ⟨removed, heq⟩
      · rwa [heq] at hname
      · rw [heq, Routing.removeInterface] at hname
        exact Std.ExtTreeMap.mem_of_mem_erase hname
    obtain ⟨t, ht, rfl⟩ := h.names name hold
    exact ⟨t, Nat.lt_of_lt_of_le ht hserves.ifCounter, rfl⟩

theorem Silent.append {effects new : List Effect} (h : Silent effects) (hnew : Silent new) :
    Silent (effects ++ new) := by
  intro link cause packet hmem
  rcases List.mem_append.mp hmem with hold | hmem
  · exact h link cause packet hold
  · exact hnew link cause packet hmem

theorem Unrouted.process (h : Unrouted k)
    (hprocess : processRecivedPacket lib k packet avif now = .ok k') : Unrouted k' := by
  have hserves := process_serves hprocess
  obtain ⟨checked, handled, hchecked, hhandled, hswept⟩ := processRecivedPacket_returns hprocess
  obtain ⟨hrouting, -, hwaiters⟩ := checkKey_tables hchecked
  have htrace := checkKey_trace hchecked
  have hhandled : handled.waiters = [] ∧ Silent handled.trace := by
    rcases hhandled with ⟨-, hhandled⟩ | ⟨-, hhandled⟩
    · refine ⟨(toMe_tables hhandled).2.2.trans (hwaiters.trans h.waiters), ?_⟩
      obtain ⟨-, rfl⟩ | ⟨-, rsa, -, rfl⟩ | ⟨-, -, payload, -, ⟨-, rfl⟩ | ⟨-, rfl⟩⟩ :=
        toMe_cases hhandled
      · rw [asyncSendAgmpPkreply_trace, htrace]
        exact h.silent.append (by simp +contextual [Silent])
      · rw [addKey_trace, htrace]
        exact h.silent
      · rw [pushReceived_trace, htrace]
        exact h.silent.append (by simp [Silent])
      · rw [htrace]
        exact h.silent
    · obtain rfl | ⟨-, interface, t, hroute, -⟩ := forward_cases hhandled
      · rw [htrace]
        exact ⟨hwaiters.trans h.waiters, h.silent⟩
      · rw [hrouting, selectRoute_of_nil h.routes] at hroute
        cases hroute
  obtain rfl := sweep_of_nil hhandled.1 hswept
  exact h.serves hserves hhandled.1 hhandled.2

theorem Unrouted.does (h : Unrouted k) (hdoes : Does lib k event k')
    (hevent : event.registers = false) : Unrouted k' := by
  have hserves := does_serves hdoes hevent
  cases hdoes with
  | nothing => exact h
  | addInterface avif => cases hevent
  | addRoute targetAddress gateway ifname metric => cases hevent
  | getIfname avif => exact h.serves hserves h.waiters h.silent
  | asyncSendto hcall =>
    obtain ⟨-, rfl⟩ | ⟨interface, hroute, -⟩ := asyncSendto_cases hcall
    · exact h.serves hserves h.waiters (h.silent.append (by simp [Silent]))
    · rw [selectRoute_of_nil h.routes] at hroute
      cases hroute
  | asyncRecvfrom => exact h.serves hserves h.waiters h.silent
  | @startRunner port p hp _ =>
    refine h.serves hserves ?_ ?_
    · obtain ⟨-, heq⟩ | ⟨-, heq⟩ := runnerLoop_cases k port p
      · rw [heq]
        exact h.waiters
      · rw [heq]
        exact h.waiters
    · rw [runnerLoop_trace]
      exact h.silent
  | @read port p packet hp _ =>
    refine h.serves hserves ?_ ?_
    · obtain ⟨spawned, links, heq⟩ := runnerRead_loops k port p packet
      rw [heq]
      obtain ⟨-, heq⟩ | ⟨-, heq⟩ :=
        runnerLoop_cases { k with spawned := spawned, links := links } port p
      · rw [heq]
        exact h.waiters
      · rw [heq]
        exact h.waiters
    · rw [runnerRead_trace]
      exact h.silent
  | @process index packet avif now _ _ hprocess =>
    have hstarted : Unrouted { k with spawned := k.spawned.eraseIdx index } :=
      ⟨h.routes, h.names, h.waiters, h.silent⟩
    exact hstarted.process hprocess
  | @startWriter port p hp _ =>
    refine h.serves hserves ((writerLoop_same k port p).2.2.1.trans h.waiters) ?_
    rw [writerLoop_trace]
    exact h.silent
  | @writeDone port p bytes handler written _ _ =>
    refine h.serves hserves
      ((writerWrote_same k port p bytes handler written).2.2.1.trans h.waiters) ?_
    rw [writerWrote_trace]
    exact h.silent.append (by cases handler <;> simp [Silent])
  | runPosted hposted =>
    refine h.serves hserves ((runPosted_same hposted).2.2.1.trans h.waiters) ?_
    obtain ⟨-, rfl⟩ | ⟨port, ec, value, rest, -, ⟨-, rfl⟩ | ⟨p, -, ⟨-, rfl⟩ |
      ⟨bytes, -, -, rfl⟩⟩⟩ | ⟨call, ec, value, rest, -, rfl⟩ := runPosted_cases hposted
    · exact h.silent
    · exact h.silent
    · exact h.silent
    · exact h.silent
    · exact h.silent.append (by simp [Silent])
  | timer1 hsweep =>
    obtain rfl := sweep_of_nil h.waiters hsweep
    exact h
  | timer2 _ => exact h.serves hserves h.waiters h.silent

-- ---------------------------------------------------------------------------
-- Setting up
-- ---------------------------------------------------------------------------

theorem addInterface_ifCounter (k : Kernel) (avif : JackIf) :
    (k.addInterface avif.1).ifCounter = k.ifCounter + 3 := by
  simp [addInterface, Routing.addInterface, avif.2, getIfname]

theorem addDefaultRoute_ifCounter (k : Kernel) (avif : JackIf) (meAddr : Bytes) :
    (addDefaultRoute lib k avif meAddr).ifCounter = k.ifCounter + 1 := by
  simp [addDefaultRoute, avif.2, getIfname]

theorem Unrouted.addInterface (h : Unrouted k) (avif : JackIf) :
    Unrouted (k.addInterface avif.1) := by
  refine ⟨h.routes, ?_, h.waiters, h.silent⟩
  intro name hname
  rw [addInterface_ifCounter]
  simp only [Kernel.addInterface, Routing.addInterface, avif.2, getIfname,
    Std.ExtTreeMap.mem_insertIfNew] at hname
  rcases hname with hnew | hold
  · exact ⟨k.ifCounter + 1, by omega, (Std.LawfulEqCmp.eq_of_compare hnew).symm⟩
  · obtain ⟨t, ht, rfl⟩ := h.names name hold
    exact ⟨t, by omega, rfl⟩

/-- `add_interface` looks the interface up under one name more. -/
theorem Unrouted.unfound (h : Unrouted k) (avif : JackIf) (hcount : k.ifCounter + 3 ≤ 2 ^ 32) :
    (k.routing.addInterface k.ifCounter avif.1).2.2 = false := by
  have hnew : avjackName (k.ifCounter + 2) ∉ k.routing.avifs :=
    h.unregistered (by omega) (by omega)
  have hne : avjackName (k.ifCounter + 1) ≠ avjackName (k.ifCounter + 2) := avjackName_succ _
  simp [Routing.addInterface, avif.2, getIfname, hne, hnew]

theorem Unrouted.addDefaultRoute (h : Unrouted k) (avif : JackIf) (meAddr : Bytes)
    (hcount : k.ifCounter < 2 ^ 32) : Unrouted (addDefaultRoute lib k avif meAddr) := by
  have hrefused := h.unregistered (Nat.le_refl _) hcount
  have hrouting : (FrontEnd.addDefaultRoute lib k avif meAddr).routing = k.routing := by
    simp [FrontEnd.addDefaultRoute, avif.2, getIfname, Routing.addRoute, hrefused]
  refine h.serves ⟨.inl hrouting, ?_⟩ h.waiters h.silent
  rw [addDefaultRoute_ifCounter]
  exact Nat.le_succ _

theorem login_cases (lib : Libs) (k : Kernel) (avif : JackIf) (shaken : Bool) (meAddr : Bytes) :
    login lib k avif shaken meAddr = k ∨
    login lib k avif shaken meAddr = k.addInterface avif.1 ∨
    ((k.routing.addInterface k.ifCounter avif.1).2.2 = true ∧
      login lib k avif shaken meAddr =
        addDefaultRoute lib (k.addInterface avif.1) avif meAddr) := by
  cases shaken with
  | false => exact .inl rfl
  | true =>
    cases hfound : (k.routing.addInterface k.ifCounter avif.1).2.2 with
    | true => exact .inr (.inr ⟨rfl, by simp [login, hfound]⟩)
    | false => exact .inr (.inl (by simp [login, hfound]))

theorem Unrouted.login (h : Unrouted k) (avif : JackIf) (shaken : Bool) (meAddr : Bytes)
    (hcount : (login lib k avif shaken meAddr).ifCounter ≤ 2 ^ 32) :
    Unrouted (login lib k avif shaken meAddr) := by
  obtain heq | heq | ⟨hfound, heq⟩ := login_cases lib k avif shaken meAddr
  · rw [heq]
    exact h
  · rw [heq]
    exact h.addInterface avif
  · rw [heq, addDefaultRoute_ifCounter, addInterface_ifCounter] at hcount
    rw [h.unfound avif (by omega)] at hfound
    cases hfound

-- ---------------------------------------------------------------------------
-- Runs
-- ---------------------------------------------------------------------------

theorem login_le (lib : Libs) (k : Kernel) (avif : JackIf) (shaken : Bool) (meAddr : Bytes) :
    k.ifCounter ≤ (login lib k avif shaken meAddr).ifCounter := by
  obtain heq | heq | ⟨-, heq⟩ := login_cases lib k avif shaken meAddr
  · rw [heq]
  · rw [heq, addInterface_ifCounter]
    omega
  · rw [heq, addDefaultRoute_ifCounter, addInterface_ifCounter]
    omega

theorem next_ifCounter_le (h : next lib k use = .ok k') : k.ifCounter ≤ k'.ifCounter := by
  cases use with
  | msgLoginAndSend avif shaken =>
    obtain rfl := Except.ok.inj h
    exact login_le _ _ _ _ _
  | connectToAvrouter avif shaken => cases h
  | recvThreadRun avif =>
    obtain rfl := Except.ok.inj h
    rw [recvThreadRun, addDefaultRoute_ifCounter, addInterface_ifCounter]
    omega
  | serve event => exact (does_serves (step_does h) event.2).ifCounter

theorem Unrouted.next (h : Unrouted k) (hnext : next lib k use = .ok k')
    (hcount : k'.ifCounter ≤ 2 ^ 32) : Unrouted k' := by
  cases use with
  | msgLoginAndSend avif shaken =>
    obtain rfl := Except.ok.inj hnext
    exact h.login avif shaken _ hcount
  | connectToAvrouter avif shaken => cases hnext
  | recvThreadRun avif =>
    obtain rfl := Except.ok.inj hnext
    rw [recvThreadRun, addDefaultRoute_ifCounter] at hcount
    exact (h.addInterface avif).addDefaultRoute avif _ (by omega)
  | serve event => exact h.does (step_does hnext) event.2

theorem addDefaultRoute_reached (hk : Kernel.Reached lib k) (avif : JackIf) (meAddr : Bytes) :
    Kernel.Reached lib (addDefaultRoute lib k avif meAddr) := by
  have hroute : step lib k (.addRoute (text ".+@.+") meAddr
      (getIfname avif.1.ifname k.ifCounter).1 100) = .ok _ := rfl
  exact .step (.step hk hroute) (i := .getIfname avif.1) rfl

theorem addInterface_reached (hk : Kernel.Reached lib k) (avif : Avif) :
    Kernel.Reached lib (k.addInterface avif) :=
  .step hk (i := .addInterface avif) rfl

theorem next_reached (hk : Kernel.Reached lib k) (h : next lib k use = .ok k') :
    Kernel.Reached lib k' := by
  cases use with
  | msgLoginAndSend avif shaken =>
    obtain rfl := Except.ok.inj h
    rw [msgLoginAndSend]
    obtain heq | heq | ⟨-, heq⟩ :=
      login_cases lib k avif shaken (avAddressToString avif.1.ifAddress)
    · rw [heq]
      exact hk
    · rw [heq]
      exact addInterface_reached hk avif.1
    · rw [heq]
      exact addDefaultRoute_reached (addInterface_reached hk avif.1) avif _
  | connectToAvrouter avif shaken => cases h
  | recvThreadRun avif =>
    obtain rfl := Except.ok.inj h
    exact addDefaultRoute_reached (addInterface_reached hk avif.1) avif _
  | serve event => exact .step hk h

theorem Silent.unwritten (h : Silent k.trace) (hledger : (outbox k).Ledger) (send : Nat) :
    (outbox k).book.countP (Outbox.writes send) = 0 := by
  rw [List.countP_eq_zero]
  intro entry hentry hwrites
  cases entry with
  | wrote link other =>
    have hbalance := hledger.balance link other
    have hpos := List.count_pos_iff.mpr hentry
    have henqueued : .enqueued link other ∈ (outbox k).book := by
      rw [← List.count_pos_iff]
      omega
    obtain ⟨packet, hmem⟩ := mem_book.mp henqueued
    cases h link (.data other) packet hmem
  | enqueued link other => cases hwrites
  | completed other ec => cases hwrites

theorem Unrouted.cutOff (h : Unrouted k) (hk : Kernel.Reached lib k) : CutOff k := by
  refine ⟨h.routes, ?_, h.silent⟩
  intro send hsend
  have htallied := (Reached.unmade hk).1
  have hone := htallied send
  rw [tally, h.waiters, List.countP_nil, Nat.zero_add, if_pos hsend] at hone
  obtain ⟨effect, heffect, hsettles⟩ := List.countP_pos_iff.mp (hone ▸ Nat.one_pos)
  have htold : .completed send .networkUnreachable ∈ k.trace := by
    unfold settles at hsettles
    split at hsettles
    · rename_i link other packet
      cases h.silent link (.data other) packet heffect
    · obtain rfl := of_decide_eq_true hsettles
      exact heffect
    · cases hsettles
  have hmem : .networkUnreachable ∈ tellings k.trace send :=
    List.mem_filterMap.mpr ⟨_, htold, by simp⟩
  have hlength : (tellings k.trace send).length ≤ 1 := by
    have htold := (Reached.ledger hk).told send
    rw [h.silent.unwritten (Reached.ledger hk) send, Nat.zero_add] at htold
    rw [length_tellings, htold]
    exact htallied.gave_le send
  cases hfound : tellings k.trace send with
  | nil =>
    rw [hfound] at hmem
    cases hmem
  | cons ec rest =>
    rw [hfound] at hmem hlength
    rw [List.length_cons] at hlength
    obtain rfl : rest = [] := List.length_eq_zero_iff.mp (by omega)
    rw [List.mem_singleton.mp hmem]

/-- Up to the moment where the names start over. -/
theorem never_routed (lib : Libs) (uses : List Use) :
    Always (next lib) (fun k => k.ifCounter ≤ 2 ^ 32 → CutOff k) initial uses := by
  refine always_of_invariant (I := fun k => Kernel.Reached lib k ∧
    (k.ifCounter ≤ 2 ^ 32 → Unrouted k)) ⟨.start, fun _ => unrouted_initial⟩ ?_ ?_ uses
  · rintro k use k' hnext ⟨hk, hunrouted⟩
    refine ⟨next_reached hk hnext, fun hcount => ?_⟩
    exact (hunrouted ((next_ifCounter_le hnext).trans hcount)).next hnext hcount
  · rintro k ⟨hk, hunrouted⟩ hcount
    exact (hunrouted hcount).cutOff hk

end FrontEnd

end Avim
