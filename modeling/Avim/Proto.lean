import Avim.Lib.Octets

/-!
# Messages, and the protobuf runtime they come from

`proto.avAddress` and `proto.avPacket` with the fields the kernel reads. The
message definitions are generated from a submodule and the runtime is a
library, so the generated pool is a parameter: `Protobuf` names the calls the
codec makes and assumes nothing of them. What a caller relies on is a
hypothesis over it, stated where it is used.
-/

namespace Avim

open Lib.Octets

/-- Ways a call ends other than by returning: an exception that nobody
catches, or a step outside what the language defines. Assertions are compiled
out, as in a release build. -/
inductive Fault
  -- a read or a write outside its buffer
  | outOfBounds
  -- `std::length_error`
  | lengthError
  -- `std::out_of_range` from `map::at`
  | outOfRange
  -- signed overflow, or a negative length handed to a library
  | overflow
  | nullPointer
  -- use of an `avif *` whose map element is gone
  | dangling
  -- an iterator moved past the end
  | pastEnd
  -- a loop that never ends
  | diverges
  deriving DecidableEq, Repr

inductive ErrorCode
  | success
  | operationCanceled
  | timedOut
  | networkUnreachable
  -- whatever the socket reported
  | socketFailed
  deriving DecidableEq, Repr

-- Sequencing, one rule a side. `(rfl)` keeps them rewrite rules: unfolded in
-- place, they make the kernel look inside the continuation.
@[simp] theorem ok_bind (a : α) (f : α → Except ε β) : (Except.ok a >>= f) = f a := (rfl)

@[simp] theorem error_bind (e : ε) (f : α → Except ε β) :
    ((Except.error e : Except ε α) >>= f) = .error e := (rfl)

@[simp] theorem pure_eq_ok (a : α) : (pure a : Except ε α) = .ok a := (rfl)

@[simp] theorem throw_eq_error (e : ε) : (throw e : Except ε α) = .error e := (rfl)

@[simp] theorem mapError_ok (a : α) (f : ε → ε') :
    (Except.ok a : Except ε α).mapError f = .ok a := (rfl)

@[simp] theorem mapError_error (e : ε) (f : ε → ε') :
    (Except.error e : Except ε α).mapError f = .error (f e) := (rfl)

theorem except_cases (x : Except ε α) : (∃ e, x = .error e) ∨ ∃ a, x = .ok a := by
  cases x with
  | error e => exact .inl ⟨e, rfl⟩
  | ok a => exact .inr ⟨a, rfl⟩

theorem bind_returns {x : Except ε α} {f : α → Except ε β} (h : x >>= f = .ok b) :
    ∃ a, x = .ok a ∧ f a = .ok b := by
  cases x with
  | error e => cases h
  | ok a => exact ⟨a, rfl, h⟩

theorem bind_returns_iff {x : Except ε α} {f : α → Except ε β} :
    (∃ b, x >>= f = .ok b) ↔ ∃ a, x = .ok a ∧ ∃ b, f a = .ok b := by
  constructor
  · rintro ⟨b, h⟩
    obtain ⟨a, ha, hb⟩ := bind_returns h
    exact ⟨a, ha, b, hb⟩
  · rintro ⟨a, rfl, b, hb⟩
    exact ⟨b, hb⟩

theorem map_returns {x : Except ε α} {f : α → β} (h : x.map f = .ok b) :
    ∃ a, x = .ok a ∧ f a = b := by
  cases x with
  | error e => cases h
  | ok a => exact ⟨a, rfl, Except.ok.inj h⟩

theorem bind_fails {x : Except ε α} {f : α → Except ε β} (h : x >>= f = .error e) :
    x = .error e ∨ ∃ a, x = .ok a ∧ f a = .error e := by
  cases x with
  | error e' => exact .inl (congrArg Except.error (Except.error.inj h))
  | ok a => exact .inr ⟨a, rfl, h⟩

theorem map_fails {x : Except ε α} {f : α → β} (h : x.map f = .error e) : x = .error e := by
  cases x with
  | error e' =>
    cases h
    rfl
  | ok a => cases h

/-- `proto.avAddress`. `resource` keeps its presence; it is the only field
whose presence is ever asked for. -/
structure AvAddress where
  username : Bytes
  domain : Bytes
  resource : Option Bytes
  deriving DecidableEq, Repr

structure AvPacket where
  src : AvAddress
  dest : AvAddress
  upperlayerpotocol : Bytes
  timeToLive : Int
  payload : Option Bytes
  publickey : Option Bytes
  deriving DecidableEq, Repr

/-- The generated pool and factory, seen through the calls made of them. -/
structure Protobuf where
  Message : Type
  Descriptor : Type
  Prototype : Type
  getTypeName : Message → Bytes
  -- `none`: required fields are missing and `AppendToString` returns false.
  appendToString : Message → Option Bytes
  findMessageTypeByName : Bytes → Option Descriptor
  getPrototype : Descriptor → Option Prototype
  -- `New` on the prototype, then `ParseFromArray` on the fresh message.
  parseFromArray : Prototype → Bytes → Option Message
  -- An `avPacket` as a `Message`, and `dynamic_cast` back.
  ofAvPacket : AvPacket → Message
  toAvPacket : Message → Option AvPacket

namespace Protobuf

variable (pb : Protobuf)

def createMessage (typeName : Bytes) : Option pb.Prototype :=
  match pb.findMessageTypeByName typeName with
  | some descriptor => pb.getPrototype descriptor
  | none => none

def Registered (m : pb.Message) : Prop := (pb.createMessage (pb.getTypeName m)).isSome

def ParseUndoesAppend : Prop :=
  ∀ m prototype body, pb.createMessage (pb.getTypeName m) = some prototype →
    pb.appendToString m = some body → pb.parseFromArray prototype body = some m

def CastsBack : Prop := ∀ p, pb.toAvPacket (pb.ofAvPacket p) = some p

end Protobuf

end Avim
