import Avim.KernelLaws
import Avim.Lib.Budget

/-!
# Networks of kernels

Any number of kernels, doing anything at all between the packets that are
followed: a packet that was injected, its copies further on, and the answers
to it are in flight until some kernel processes them, in any order, at any
kernel and on any interface, or they are lost. That is more than wires and
routing tables allow, so what holds here holds of every network, with routes
that loop or change.

Each packet pays for what it causes out of its hop count, and a `pkask` for
one answer: `Net.run_bounded`.
-/

namespace Avim

open Lib.Octets Lib.Budget

namespace Kernel

variable {lib : Libs} {k k' : Kernel}

/-- What processing a packet enqueues because of it. The packets of calls that
were waiting for it are the applications' own. -/
def caused (trace : List Effect) : List (Cause × AvPacket) :=
  trace.filterMap fun
    | .enqueued _ .forwarded packet => some (.forwarded, packet)
    | .enqueued _ .pkreply packet => some (.pkreply, packet)
    | _ => none

@[simp] theorem caused_append (a b : List Effect) : caused (a ++ b) = caused a ++ caused b := by
  simp [caused]

def causedSince (k k' : Kernel) : List (Cause × AvPacket) := caused (k'.trace.drop k.trace.length)

theorem sendOrAsk_caused (h : sendOrAsk lib k op now = .ok k') :
    ∃ new, k'.trace = k.trace ++ new ∧ caused new = [] := by
  obtain ⟨key, avif, second, -, -, rfl⟩ | ⟨avif, -, -, -, rfl⟩ | ⟨-, -, rfl⟩ := sendOrAsk_cases h
  · exact ⟨_, rfl, rfl⟩
  · exact ⟨_, rfl, rfl⟩
  · exact ⟨_, rfl, rfl⟩

theorem sweep_caused (h : sweep lib due k now = .ok k') :
    ∃ new, k'.trace = k.trace ++ new ∧ caused new = [] := by
  refine sweep_keeps (I := fun k' => ∃ new, k'.trace = k.trace ++ new ∧ caused new = [])
    (fun _ _ _ hres hk => ?_) (fun _ _ hk => hk) ⟨[], by simp, rfl⟩ h
  obtain ⟨old, hold, hnone⟩ := hk
  obtain ⟨new, hnew, hnone'⟩ := sendOrAsk_caused hres
  exact ⟨old ++ new, by rw [hnew, hold, List.append_assoc], by simp [hnone, hnone']⟩

/-- At most one packet: itself one hop further, or the answer to a `pkask`. -/
theorem processRecivedPacket_caused (h : processRecivedPacket lib k packet avif now = .ok k') :
    causedSince k k' = [] ∨
    (k.isToMe packet.dest = false ∧ 1 < packet.timeToLive ∧
      causedSince k k' = [(.forwarded, { packet with timeToLive := packet.timeToLive - 1 })]) ∨
    (k.isToMe packet.dest = true ∧ packet.upperlayerpotocol = text "pkask" ∧
      causedSince k k' = [(.pkreply, pkreply avif (avAddressToString packet.src))]) := by
  obtain ⟨checked, handled, hchecked, hhandled, hswept⟩ := processRecivedPacket_returns h
  obtain ⟨swept, hnew, hnone⟩ := sweep_caused hswept
  have hsame := checkKey_trace hchecked
  have hsince : ∀ done, handled.trace = checked.trace ++ done → causedSince k k' = caused done := by
    intro done hdone
    rw [causedSince, hnew, hdone, hsame, List.append_assoc, List.drop_left, caused_append, hnone,
      List.append_nil]
  obtain ⟨hme, hhandled⟩ | ⟨hme, hhandled⟩ := hhandled
  · obtain ⟨hask, rfl⟩ | ⟨-, rsa, -, rfl⟩ | ⟨-, -, payload, -, ⟨-, rfl⟩ | ⟨-, rfl⟩⟩ :=
      toMe_cases hhandled
    · exact .inr (.inr ⟨hme, hask, hsince _ rfl⟩)
    · exact .inl (hsince [] (by simp))
    · exact .inl (hsince _ rfl)
    · exact .inl (hsince [] (by simp))
  · obtain rfl | ⟨httl, interface, t, -, rfl⟩ := forward_cases hhandled
    · exact .inl (hsince [] (by simp))
    · exact .inr (.inl ⟨hme, httl, hsince _ rfl⟩)

end Kernel

-- ---------------------------------------------------------------------------
-- The network
-- ---------------------------------------------------------------------------

/-- A packet in flight; `reply` marks an answer and its copies further on. -/
structure Flight where
  reply : Bool
  packet : AvPacket
  deriving DecidableEq, Repr

inductive Hop
  | forwarded (reply : Bool) (received sent : AvPacket)
  -- `reached`: the packet was addressed to the kernel that answered it.
  | replied (reply reached : Bool) (received sent : AvPacket)
  deriving DecidableEq, Repr

structure Net where
  kernels : Nat → Kernel
  tokens : Tokens Flight Hop

inductive NetEvent
  -- a kernel does something of its own
  | node (n : Nat) (event : Event)
  | inject (packet : AvPacket)
  -- kernel `n` processes a packet that came in on `avif`
  | process (index n : Nat) (avif : Avif) (now : Int)
  | lose (index : Nat)

namespace Net

variable (lib : Libs)

def outcome (k k' : Kernel) (f : Flight) : List Flight × List Hop :=
  ((k.causedSince k').map fun
      | (.pkreply, packet) => ⟨true, packet⟩
      | (_, packet) => ⟨f.reply, packet⟩,
    (k.causedSince k').map fun
      | (.pkreply, packet) => .replied f.reply (k.isToMe f.packet.dest) f.packet packet
      | (_, packet) => .forwarded f.reply f.packet packet)

def produce (k : Kernel) (avif : Avif) (now : Int) (f : Flight) : List Flight × List Hop :=
  match k.processRecivedPacket lib f.packet avif now with
  | .ok k' => outcome k k' f
  -- a kernel that goes down causes nothing any more
  | .error _ => ([], [])

def after (k : Kernel) (result : Except Fault Kernel) : Kernel :=
  match result with
  | .ok k' => k'
  | .error _ => k

def netStep (s : Net) : NetEvent → Net
  | .node n event =>
    { s with
      kernels := Function.update s.kernels n (after (s.kernels n) ((s.kernels n).step lib event)) }
  | .inject packet => { s with tokens := s.tokens.inject ⟨false, packet⟩ }
  | .process index n avif now =>
    match s.tokens.inFlight[index]? with
    | none => s
    | some (_, f) =>
      ⟨Function.update s.kernels n
          (after (s.kernels n) ((s.kernels n).processRecivedPacket lib f.packet avif now)),
        s.tokens.consume index (produce lib (s.kernels n) avif now)⟩
  | .lose index => { s with tokens := s.tokens.consume index fun _ => ([], []) }

def run (kernels : Nat → Kernel) (events : List NetEvent) : Net :=
  events.foldl (netStep lib) ⟨kernels, .empty⟩

-- ---------------------------------------------------------------------------
-- What each packet pays for
-- ---------------------------------------------------------------------------

def hopsLeft (packet : AvPacket) : Nat := (packet.timeToLive - 1).toNat

def asks (packet : AvPacket) : Bool := packet.upperlayerpotocol = text "pkask"

def forwardPotential (f : Flight) : Nat := if f.reply then 0 else hopsLeft f.packet

def forwardCost : Hop → Nat
  | .forwarded false _ _ => 1
  | _ => 0

def replyPotential (f : Flight) : Nat := if asks f.packet then 1 else 0

def replyCost : Hop → Nat
  | .replied _ _ _ _ => 1
  | .forwarded _ _ _ => 0

/-- For everything: an answer can go 64 hops. -/
def potential (f : Flight) : Nat := hopsLeft f.packet + if asks f.packet then 64 else 0

def SoundFlight (f : Flight) : Prop := f.reply = true → f.packet.upperlayerpotocol = text "pkreply"

/-- A copy differs in its hop count only, and an answer answers a `pkask` that
has arrived and is not itself an answer. -/
def SoundHop : Hop → Prop
  | .forwarded _ received sent =>
    1 < received.timeToLive ∧ sent = { received with timeToLive := received.timeToLive - 1 }
  | .replied reply reached received sent =>
    reply = false ∧ reached = true ∧ received.upperlayerpotocol = text "pkask" ∧
      sent.upperlayerpotocol = text "pkreply" ∧ sent.timeToLive = 64

variable {lib : Libs}

theorem produce_cases (lib : Libs) (k : Kernel) (avif : Avif) (now : Int) (f : Flight) :
    produce lib k avif now f = ([], []) ∨
    (1 < f.packet.timeToLive ∧ produce lib k avif now f =
      ([⟨f.reply, { f.packet with timeToLive := f.packet.timeToLive - 1 }⟩],
        [.forwarded f.reply f.packet { f.packet with timeToLive := f.packet.timeToLive - 1 }])) ∨
    (f.packet.upperlayerpotocol = text "pkask" ∧ produce lib k avif now f =
      ([⟨true, Kernel.pkreply avif (avAddressToString f.packet.src)⟩],
        [.replied f.reply true f.packet
          (Kernel.pkreply avif (avAddressToString f.packet.src))])) := by
  unfold produce
  split
  · rename_i k' hk
    obtain hnone | ⟨-, httl, hone⟩ | ⟨hme, hask, hone⟩ := Kernel.processRecivedPacket_caused hk
    · exact .inl (by simp [outcome, hnone])
    · exact .inr (.inl ⟨httl, by simp [outcome, hone]⟩)
    · exact .inr (.inr ⟨hask, by simp [outcome, hone, hme]⟩)
  · exact .inl rfl

theorem forward_pays (k : Kernel) (avif : Avif) (now : Int) (f : Flight) :
    ((produce lib k avif now f).2.map forwardCost).sum +
      ((produce lib k avif now f).1.map forwardPotential).sum ≤ forwardPotential f := by
  obtain h | ⟨httl, h⟩ | ⟨-, h⟩ := produce_cases lib k avif now f
  · simp [h]
  · rw [h]
    cases hr : f.reply with
    | true => simp [forwardCost, forwardPotential, hr]
    | false =>
      simp only [List.map_cons, List.map_nil, List.sum_cons, List.sum_nil, forwardCost,
        forwardPotential, hopsLeft, hr, Bool.false_eq_true, if_false]
      omega
  · rw [h]
    simp [forwardCost, forwardPotential]

theorem asks_pkreply (avif : Avif) (target : Bytes) :
    asks (Kernel.pkreply avif target) = false := by
  have hne : text "pkreply" ≠ text "pkask" := by decide
  simp [asks, Kernel.pkreply, hne]

theorem reply_pays (k : Kernel) (avif : Avif) (now : Int) (f : Flight) :
    ((produce lib k avif now f).2.map replyCost).sum +
      ((produce lib k avif now f).1.map replyPotential).sum ≤ replyPotential f := by
  obtain h | ⟨-, h⟩ | ⟨hask, h⟩ := produce_cases lib k avif now f
  · simp [h]
  · rw [h]
    simp [replyCost, replyPotential, asks]
  · have hasks : asks f.packet = true := by simp [asks, hask]
    rw [h]
    simp [replyCost, replyPotential, asks_pkreply, hasks]

theorem everything_pays (k : Kernel) (avif : Avif) (now : Int) (f : Flight) :
    ((produce lib k avif now f).2.map fun _ => 1).sum +
      ((produce lib k avif now f).1.map potential).sum ≤ potential f := by
  obtain h | ⟨httl, h⟩ | ⟨hask, h⟩ := produce_cases lib k avif now f
  · simp [h]
  · rw [h]
    have hsame : asks { f.packet with timeToLive := f.packet.timeToLive - 1 } = asks f.packet := rfl
    simp only [List.map_cons, List.map_nil, List.sum_cons, List.sum_nil, potential, hopsLeft, hsame]
    omega
  · have hasks : asks f.packet = true := by simp [asks, hask]
    have hhops : hopsLeft (Kernel.pkreply avif (avAddressToString f.packet.src)) = 63 := rfl
    rw [h]
    simp only [List.map_cons, List.map_nil, List.sum_cons, List.sum_nil, potential, asks_pkreply,
      hhops, hasks, Bool.false_eq_true, if_false, if_true]
    omega

theorem produce_flights (k : Kernel) (avif : Avif) (now : Int) (f : Flight) (hf : SoundFlight f) :
    ∀ g ∈ (produce lib k avif now f).1, SoundFlight g := by
  obtain h | ⟨-, h⟩ | ⟨-, h⟩ := produce_cases lib k avif now f
  · simp [h]
  · rw [h]
    simpa [SoundFlight] using hf
  · rw [h]
    simp [SoundFlight, Kernel.pkreply]

theorem produce_hops (k : Kernel) (avif : Avif) (now : Int) (f : Flight) (hf : SoundFlight f) :
    ∀ hop ∈ (produce lib k avif now f).2, SoundHop hop := by
  obtain h | ⟨httl, h⟩ | ⟨hask, h⟩ := produce_cases lib k avif now f
  · simp [h]
  · rw [h]
    simpa [SoundHop] using httl
  · have hline : f.reply = false := by
      -- an answer is a `pkreply`, and this one is a `pkask`
      cases hr : f.reply with
      | false => rfl
      | true =>
        have := hf hr
        rw [hask] at this
        exact absurd this (by decide)
    rw [h]
    simp [SoundHop, hline, hask, Kernel.pkreply]

-- ---------------------------------------------------------------------------
-- Whole runs
-- ---------------------------------------------------------------------------

/-- What every event keeps: three accounts and the soundness of what is in
flight and on record. -/
structure Bounded (s : Net) : Prop where
  forwards : Within forwardPotential forwardCost s.tokens
  replies : Within replyPotential replyCost s.tokens
  everything : Within potential (fun _ => 1) s.tokens
  sound : (∀ t ∈ s.tokens.inFlight, SoundFlight t.2) ∧ ∀ r ∈ s.tokens.log, SoundHop r.2

theorem Bounded.netStep (h : Bounded s) (event : NetEvent) : Bounded (netStep lib s event) := by
  cases event with
  | node n event => exact ⟨h.forwards, h.replies, h.everything, h.sound⟩
  | inject packet =>
    refine ⟨h.forwards.inject _, h.replies.inject _, h.everything.inject _, fun t ht => ?_,
      h.sound.2⟩
    rcases List.mem_append.mp ht with ht | ht
    · exact h.sound.1 t ht
    · rw [List.mem_singleton.mp ht]
      exact fun hr => absurd hr (by simp)
  | process index n avif now =>
    simp only [Net.netStep]
    split
    · exact h
    · exact ⟨h.forwards.consume index fun _ f _ => forward_pays _ avif now f,
        h.replies.consume index fun _ f _ => reply_pays _ avif now f,
        h.everything.consume index fun _ f _ => everything_pays _ avif now f,
        consume_all (produce_flights _ avif now) (produce_hops _ avif now) h.sound index⟩
  | lose index =>
    exact ⟨h.forwards.consume index (by simp), h.replies.consume index (by simp),
      h.everything.consume index (by simp), consume_all (by simp) (by simp) h.sound index⟩

theorem bounded_run (lib : Libs) (kernels : Nat → Kernel) (events : List NetEvent) :
    Bounded (run lib kernels events) := by
  suffices h : ∀ s, Bounded s → Bounded (events.foldl (Net.netStep lib) s) from
    h _ ⟨within_empty, within_empty, within_empty, by simp [Tokens.empty], by simp [Tokens.empty]⟩
  induction events with
  | nil => exact fun s hs => hs
  | cons event events ih => exact fun s hs => ih _ (hs.netStep event)

/-- In any network and any order of events, a packet injected with hop count
`t` is forwarded at most `t - 1` times and answered at most once, and only if
it is a `pkask`; it makes the kernels enqueue at most `t - 1 + 64` packets. -/
theorem run_bounded (lib : Libs) (kernels : Nat → Kernel) (events : List NetEvent) (root : Nat)
    (packet : AvPacket)
    (h : (run lib kernels events).tokens.injected[root]? = some ⟨false, packet⟩) :
    (total forwardCost root (run lib kernels events).tokens.log : Int) ≤
        max (packet.timeToLive - 1) 0 ∧
    total replyCost root (run lib kernels events).tokens.log ≤
        (if packet.upperlayerpotocol = text "pkask" then 1 else 0) ∧
    (total (fun _ => 1) root (run lib kernels events).tokens.log : Int) ≤
        max (packet.timeToLive - 1) 0 + 64 ∧
    ∀ hop ∈ (run lib kernels events).tokens.log, SoundHop hop.2 := by
  have hb := bounded_run lib kernels events
  have hforwards := hb.forwards.spent h
  have hreplies := hb.replies.spent h
  have hall := hb.everything.spent h
  simp only [forwardPotential, potential, hopsLeft, Bool.false_eq_true, if_false] at hforwards hall
  refine ⟨by omega, ?_, ?_, hb.sound.2⟩
  · simpa [replyPotential, asks] using hreplies
  · split at hall <;> omega

def loopRun : List NetEvent :=
  [.node 0 (.addInterface (Kernel.samplePeer sampleKey)),
    .node 0 (.addRoute (text ".+@.+") [] (text "eth0") 1),
    .inject { samplePacket with dest := ⟨text "c", text "x", none⟩, timeToLive := 3 },
    .process 0 0 (Kernel.samplePeer sampleKey) 0, .process 0 0 (Kernel.samplePeer sampleKey) 0,
    .process 0 0 (Kernel.samplePeer sampleKey) 0]

theorem run_bounded_loop :
    total forwardCost 0 (run Kernel.sampleLibs (fun _ => .initial) loopRun).tokens.log = 2 ∧
      (total forwardCost 0 (run Kernel.sampleLibs (fun _ => .initial) loopRun).tokens.log : Int) ≤
        max (3 - 1) 0 :=
  ⟨by decide +kernel, (run_bounded Kernel.sampleLibs (fun _ => .initial) loopRun 0
    { samplePacket with dest := ⟨text "c", text "x", none⟩, timeToLive := 3 }
    (by decide +kernel)).1⟩

end Net

end Avim
