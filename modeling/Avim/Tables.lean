import Avim.KernelLaws
import Avim.Moves

/-!
# What a step leaves of the tables

Interfaces and routes are added by two events and by nothing else. Every other
step leaves both tables as they are, or takes one interface out with the routes
over it, and the counter behind the names of `avjackif`s never goes back.
-/

namespace Avim

open Lib.Octets

/-- The application adds to the tables. -/
def Event.registers : Event → Bool
  | .addInterface _ => true
  | .addRoute _ _ _ _ => true
  | _ => false

namespace Kernel

variable {lib : Libs} {k k' : Kernel}

/-- What can happen to the tables while nothing is added. -/
structure Serves (k k' : Kernel) : Prop where
  routing : k'.routing = k.routing ∨ ∃ name, k'.routing = k.routing.removeInterface name
  ifCounter : k.ifCounter ≤ k'.ifCounter

theorem Serves.same (hrouting : k'.routing = k.routing) (hcounter : k'.ifCounter = k.ifCounter) :
    Serves k k' :=
  ⟨.inl hrouting, Nat.le_of_eq hcounter.symm⟩

theorem getIfname_le (ifname : IfName) (t : Nat) : t ≤ (getIfname ifname t).2 := by
  cases ifname with
  | stable name => exact Nat.le_refl t
  | avjack => exact Nat.le_succ t

theorem sendOrAsk_ifCounter (h : sendOrAsk lib k op now = .ok k') :
    k'.ifCounter = k.ifCounter := by
  obtain ⟨key, avif, second, -, -, rfl⟩ | ⟨avif, -, -, -, rfl⟩ | ⟨-, -, rfl⟩ := sendOrAsk_cases h
  · rfl
  · rfl
  · rfl

theorem sweep_ifCounter (h : sweep lib due k now = .ok k') : k'.ifCounter = k.ifCounter :=
  sweep_keeps (I := fun k' => k'.ifCounter = k.ifCounter)
    (fun _ _ _ hres hk => (sendOrAsk_ifCounter hres).trans hk) (fun _ _ hk => hk) rfl h

theorem asyncSendto_ifCounter (h : asyncSendto lib k target data now = .ok k') :
    k'.ifCounter = k.ifCounter := by
  obtain ⟨-, rfl⟩ | ⟨interface, -, hsend⟩ := asyncSendto_cases h
  · rfl
  · have hsame := sendOrAsk_ifCounter hsend
    exact hsame

theorem checkKey_tables (h : checkKey lib k packet now = .ok k') :
    k'.routing = k.routing ∧ k'.ifCounter = k.ifCounter ∧ k'.waiters = k.waiters := by
  obtain ⟨_, -, ⟨-, -, rfl⟩ | ⟨-, rfl⟩⟩ := checkKey_cases h
  · exact ⟨rfl, rfl, rfl⟩
  · exact ⟨rfl, rfl, rfl⟩

theorem toMe_tables (h : processRecivedPacketToMe lib k packet avif now = .ok k') :
    k'.routing = k.routing ∧ k'.ifCounter = k.ifCounter ∧ k'.waiters = k.waiters := by
  obtain ⟨-, rfl⟩ | ⟨-, rsa, -, rfl⟩ | ⟨-, -, payload, -, ⟨-, rfl⟩ | ⟨-, rfl⟩⟩ := toMe_cases h
  · exact ⟨rfl, rfl, rfl⟩
  · exact ⟨rfl, rfl, rfl⟩
  · exact ⟨rfl, rfl, rfl⟩
  · exact ⟨rfl, rfl, rfl⟩

theorem forward_ifCounter (h : forward lib k packet = .ok k') :
    k'.routing = k.routing ∧ k.ifCounter ≤ k'.ifCounter := by
  unfold forward at h
  split at h
  · obtain rfl := Except.ok.inj h
    exact ⟨rfl, Nat.le_refl _⟩
  · obtain ⟨found, -, h⟩ := bind_returns h
    cases found with
    | none =>
      obtain rfl := Except.ok.inj h
      exact ⟨rfl, Nat.le_refl _⟩
    | some interface =>
      obtain rfl := Except.ok.inj h
      exact ⟨rfl, getIfname_le _ _⟩

theorem process_serves (h : processRecivedPacket lib k packet avif now = .ok k') :
    Serves k k' := by
  obtain ⟨checked, handled, hchecked, hhandled, hswept⟩ := processRecivedPacket_returns h
  obtain ⟨hrouting, hcounter, -⟩ := checkKey_tables hchecked
  have hafter : handled.routing = checked.routing ∧ checked.ifCounter ≤ handled.ifCounter := by
    rcases hhandled with ⟨-, hhandled⟩ | ⟨-, hhandled⟩
    · obtain ⟨hsame, hcount, -⟩ := toMe_tables hhandled
      exact ⟨hsame, Nat.le_of_eq hcount.symm⟩
    · exact forward_ifCounter hhandled
  constructor
  · exact .inl ((sweep_same hswept).1.trans (hafter.1.trans hrouting))
  · rw [sweep_ifCounter hswept, ← hcounter]
    exact hafter.2

theorem runnerLoop_serves (k : Kernel) (port : Nat) (p : Port) :
    Serves k (k.runnerLoop port p) := by
  obtain ⟨-, heq⟩ | ⟨-, heq⟩ := runnerLoop_cases k port p
  · rw [heq]
    exact ⟨.inr ⟨_, rfl⟩, getIfname_le _ _⟩
  · rw [heq]
    exact .same rfl rfl

theorem writerLoop_serves (k : Kernel) (port : Nat) (p : Port) :
    Serves k (k.writerLoop port p) := by
  unfold writerLoop
  split
  · exact .same rfl rfl
  · exact .same rfl rfl

theorem runPosted_ifCounter (h : runPosted lib k = .ok k') : k'.ifCounter = k.ifCounter := by
  obtain ⟨-, rfl⟩ | ⟨port, ec, value, rest, -, ⟨-, rfl⟩ | ⟨p, -, ⟨-, rfl⟩ | ⟨bytes, -, -, rfl⟩⟩⟩ |
    ⟨call, ec, value, rest, -, rfl⟩ := runPosted_cases h
  · rfl
  · rfl
  · rfl
  · rfl
  · rfl

theorem does_serves (h : Does lib k event k') (hevent : event.registers = false) :
    Serves k k' := by
  cases h with
  | nothing => exact .same rfl rfl
  | addInterface avif => cases hevent
  | addRoute targetAddress gateway ifname metric => cases hevent
  | getIfname avif => exact ⟨.inl rfl, getIfname_le _ _⟩
  | asyncSendto hcall => exact .same (asyncSendto_same hcall).1 (asyncSendto_ifCounter hcall)
  | asyncRecvfrom => exact .same rfl rfl
  | @startRunner _ p hp _ => exact runnerLoop_serves k _ p
  | @read port p packet hp _ =>
    obtain ⟨spawned, links, heq⟩ := runnerRead_loops k port p packet
    rw [heq]
    have hloop := runnerLoop_serves { k with spawned := spawned, links := links } port p
    exact ⟨hloop.routing, hloop.ifCounter⟩
  | process _ hprocess =>
    have hserves := process_serves hprocess
    exact ⟨hserves.routing, hserves.ifCounter⟩
  | @startWriter _ p hp _ => exact writerLoop_serves k _ p
  | @writeDone port p bytes handler written _ _ =>
    obtain ⟨trace, heq⟩ := writerWrote_loops k port p bytes handler written
    rw [heq]
    have hloop := writerLoop_serves { k with trace := trace } port p
    exact ⟨hloop.routing, hloop.ifCounter⟩
  | runPosted hposted => exact .same (runPosted_same hposted).1 (runPosted_ifCounter hposted)
  | timer1 hsweep => exact .same (sweep_same hsweep).1 (sweep_ifCounter hsweep)
  | timer2 _ => exact .same rfl rfl

end Kernel

end Avim
