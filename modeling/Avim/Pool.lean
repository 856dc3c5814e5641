import Avim.Lib.Proto2
import Avim.Proto

/-!
# A pool to run the codec on

`Protobuf` is a parameter of every result about the codec. This is one value
for it that follows the proto2 wire format: `proto.avPacket`, with the field
numbers of the missing submodule left open, and
`google.protobuf.FileDescriptorSet`, which the runtime itself registers and
whose only field is repeated. Of a descriptor it knows the name and the package.
It keeps the assumptions made of `Protobuf` honest (`pool_parses`) and gives the
witnesses something to compute with.
-/

namespace Avim

open Lib.Octets
open Lib.Proto2

structure Schema where
  username : Nat
  domain : Nat
  resource : Nat
  src : Nat
  dest : Nat
  upperlayerpotocol : Nat
  timeToLive : Nat
  payload : Nat
  publickey : Nat
  address_nodup : [username, domain, resource].Nodup
  packet_nodup : [src, dest, upperlayerpotocol, timeToLive, payload, publickey].Nodup
  positive : ∀ n ∈ [username, domain, resource, src, dest, upperlayerpotocol, timeToLive, payload,
    publickey], 0 < n ∧ n < 2 ^ 29

def delimitedAll (number : Nat) (fields : List Field) : List Bytes :=
  fields.filterMap fun
    | ⟨k, .delimited bytes⟩ => if k = number then some bytes else none
    | _ => none

def varintAll (number : Nat) (fields : List Field) : List Nat :=
  fields.filterMap fun
    | ⟨k, .varint n⟩ => if k = number then some n else none
    | _ => none

def optionalField (number : Nat) (value : Option Bytes) : List Field :=
  value.toList.map fun bytes => ⟨number, .delimited bytes⟩

namespace Schema

variable (s : Schema)

def addressFields (a : AvAddress) : List Field :=
  [⟨s.username, .delimited a.username⟩, ⟨s.domain, .delimited a.domain⟩] ++
    optionalField s.resource a.resource

def packetFields (p : AvPacket) : List Field :=
  [⟨s.src, .delimited (writeFields (s.addressFields p.src))⟩,
    ⟨s.dest, .delimited (writeFields (s.addressFields p.dest))⟩,
    ⟨s.upperlayerpotocol, .delimited p.upperlayerpotocol⟩,
    ⟨s.timeToLive, .varint (p.timeToLive % 2 ^ 64).toNat⟩] ++
  optionalField s.payload p.payload ++ optionalField s.publickey p.publickey

/-- A later occurrence of a scalar field replaces an earlier one. -/
def readAddress (bytes : Bytes) : Option AvAddress := do
  let fields ← readFields bytes
  let username ← (delimitedAll s.username fields).getLast?
  let domain ← (delimitedAll s.domain fields).getLast?
  return ⟨username, domain, (delimitedAll s.resource fields).getLast?⟩

/-- Occurrences of an embedded message are merged, as if concatenated. -/
def readPacket (bytes : Bytes) : Option AvPacket := do
  let fields ← readFields bytes
  let src ← s.readAddress (delimitedAll s.src fields).flatten
  let dest ← s.readAddress (delimitedAll s.dest fields).flatten
  let upperlayerpotocol ← (delimitedAll s.upperlayerpotocol fields).getLast?
  let timeToLive ← (varintAll s.timeToLive fields).getLast?
  return ⟨src, dest, upperlayerpotocol, int32 timeToLive,
    (delimitedAll s.payload fields).getLast?, (delimitedAll s.publickey fields).getLast?⟩

/-- What an `avPacket` object can hold: a 32-bit `time_to_live`, and sizes that
a length field can carry. -/
def Holds (p : AvPacket) : Prop :=
  -2 ^ 31 ≤ p.timeToLive ∧ p.timeToLive < 2 ^ 31 ∧
    (∀ f ∈ s.addressFields p.src, f.value.Fits) ∧ (∀ f ∈ s.addressFields p.dest, f.value.Fits) ∧
    ∀ f ∈ s.packetFields p, f.value.Fits

instance (p : AvPacket) : Decidable (s.Holds p) := by unfold Holds; infer_instance

end Schema

@[simp] theorem delimitedAll_cons_delimited (number k : Nat) (bytes : Bytes) (fields : List Field) :
    delimitedAll number (⟨k, .delimited bytes⟩ :: fields) =
      (if k = number then [bytes] else []) ++ delimitedAll number fields := by
  by_cases h : k = number <;> simp [delimitedAll, h]

@[simp] theorem delimitedAll_cons_varint (number k n : Nat) (fields : List Field) :
    delimitedAll number (⟨k, .varint n⟩ :: fields) = delimitedAll number fields := by
  simp [delimitedAll]

@[simp] theorem delimitedAll_optional (number k : Nat) (value : Option Bytes) :
    delimitedAll number (optionalField k value) = if k = number then value.toList else [] := by
  cases value <;> by_cases h : k = number <;> simp [delimitedAll, optionalField, h]

@[simp] theorem delimitedAll_append (number : Nat) (xs ys : List Field) :
    delimitedAll number (xs ++ ys) = delimitedAll number xs ++ delimitedAll number ys :=
  List.filterMap_append

@[simp] theorem varintAll_cons_delimited (number k : Nat) (bytes : Bytes) (fields : List Field) :
    varintAll number (⟨k, .delimited bytes⟩ :: fields) = varintAll number fields := by
  simp [varintAll]

@[simp] theorem varintAll_cons_varint (number k n : Nat) (fields : List Field) :
    varintAll number (⟨k, .varint n⟩ :: fields) =
      (if k = number then [n] else []) ++ varintAll number fields := by
  by_cases h : k = number <;> simp [varintAll, h]

@[simp] theorem varintAll_optional (number k : Nat) (value : Option Bytes) :
    varintAll number (optionalField k value) = [] := by
  cases value <;> simp [varintAll, optionalField]

@[simp] theorem varintAll_append (number : Nat) (xs ys : List Field) :
    varintAll number (xs ++ ys) = varintAll number xs ++ varintAll number ys :=
  List.filterMap_append

namespace Schema

variable (s : Schema)

theorem fits {f : Field} (hn : f.number ∈ [s.username, s.domain, s.resource, s.src, s.dest,
    s.upperlayerpotocol, s.timeToLive, s.payload, s.publickey]) (hv : f.value.Fits) : f.Fits :=
  ⟨(s.positive _ hn).1, (s.positive _ hn).2, hv⟩

theorem mem_optionalField {f : Field} (h : f ∈ optionalField number value) : f.number = number := by
  cases value <;> simp [optionalField] at h
  rw [h]

theorem addressFields_fit (h : ∀ f ∈ s.addressFields a, f.value.Fits) :
    ∀ f ∈ s.addressFields a, f.Fits := by
  intro f hf
  refine s.fits ?_ (h f hf)
  simp only [addressFields, List.mem_append, List.mem_cons, List.not_mem_nil, or_false] at hf
  rcases hf with (rfl | rfl) | hf
  · simp
  · simp
  · simp [mem_optionalField hf]

theorem packetFields_fit (h : ∀ f ∈ s.packetFields p, f.value.Fits) :
    ∀ f ∈ s.packetFields p, f.Fits := by
  intro f hf
  refine s.fits ?_ (h f hf)
  simp only [packetFields, List.mem_append, List.mem_cons, List.not_mem_nil, or_false] at hf
  rcases hf with ((rfl | rfl | rfl | rfl) | hf) | hf
  · simp
  · simp
  · simp
  · simp
  · simp [mem_optionalField hf]
  · simp [mem_optionalField hf]

theorem readAddress_write (h : ∀ f ∈ s.addressFields a, f.value.Fits) :
    s.readAddress (writeFields (s.addressFields a)) = some a := by
  have hn := s.address_nodup
  simp only [List.nodup_cons, List.mem_cons, List.not_mem_nil, or_false, not_or] at hn
  obtain ⟨⟨hud, hur⟩, hdr, -⟩ := hn
  unfold readAddress
  rw [readFields_writeFields (s.addressFields_fit h)]
  cases a with
  | mk username domain resource =>
    cases resource <;>
      simp [addressFields, hud, hur, hdr, Ne.symm hud, Ne.symm hur, Ne.symm hdr]

theorem int32_emod (hl : -2 ^ 31 ≤ z) (hu : z < 2 ^ 31) : int32 ((z % 2 ^ 64).toNat : Nat) = z := by
  unfold int32
  split <;> omega

theorem readPacket_write (h : s.Holds p) :
    s.readPacket (writeFields (s.packetFields p)) = some p := by
  obtain ⟨hl, hu, hsrc, hdest, hfields⟩ := h
  have hn := s.packet_nodup
  simp only [List.nodup_cons, List.mem_cons, List.not_mem_nil, or_false, not_or] at hn
  obtain ⟨⟨h12, h13, h14, h15, h16⟩, ⟨h23, h24, h25, h26⟩, ⟨h34, h35, h36⟩, ⟨h45, h46⟩, h56, -⟩ :=
    hn
  have ha := s.readAddress_write hsrc
  have hb := s.readAddress_write hdest
  have ht := int32_emod hl hu
  unfold readPacket
  rw [readFields_writeFields (s.packetFields_fit hfields)]
  cases p with
  | mk src dest upper ttl payload publickey =>
    cases payload <;> cases publickey <;>
      simp_all [packetFields, Ne.symm h12, Ne.symm h13, Ne.symm h15, Ne.symm h16, Ne.symm h23,
        Ne.symm h25, Ne.symm h26, Ne.symm h35, Ne.symm h36, Ne.symm h56]

end Schema

structure FileDescriptor where
  name : Option Bytes
  package : Option Bytes
  deriving DecidableEq, Repr

inductive PoolMessage
  | avPacket (p : AvPacket)
  | fileDescriptorSet (files : List FileDescriptor)
  deriving DecidableEq, Repr

inductive PoolType
  | avPacket
  | fileDescriptorSet
  deriving DecidableEq, Repr

def PoolType.name : PoolType → Bytes
  | .avPacket => text "proto.avPacket"
  | .fileDescriptorSet => text "google.protobuf.FileDescriptorSet"

def PoolMessage.type : PoolMessage → PoolType
  | .avPacket _ => .avPacket
  | .fileDescriptorSet _ => .fileDescriptorSet

def FileDescriptor.fields (file : FileDescriptor) : List Field :=
  optionalField 1 file.name ++ optionalField 2 file.package

def setFields (files : List FileDescriptor) : List Field :=
  files.map fun file => ⟨1, .delimited (writeFields file.fields)⟩

def readFile (bytes : Bytes) : Option FileDescriptor := do
  let fields ← readFields bytes
  return ⟨(delimitedAll 1 fields).getLast?, (delimitedAll 2 fields).getLast?⟩

def readSet (bytes : Bytes) : Option (List FileDescriptor) := do
  let fields ← readFields bytes
  (delimitedAll 1 fields).mapM readFile

/-- Sizes that a length field can carry. -/
def SetHolds (files : List FileDescriptor) : Prop :=
  (∀ file ∈ files, ∀ f ∈ file.fields, f.value.Fits) ∧ ∀ f ∈ setFields files, f.value.Fits

instance (files : List FileDescriptor) : Decidable (SetHolds files) := by
  unfold SetHolds
  infer_instance

def pool (s : Schema) : Protobuf where
  Message := PoolMessage
  Descriptor := PoolType
  Prototype := PoolType
  getTypeName m := m.type.name
  appendToString
    | .avPacket p => if s.Holds p then some (writeFields (s.packetFields p)) else none
    | .fileDescriptorSet files =>
      if SetHolds files then some (writeFields (setFields files)) else none
  findMessageTypeByName name := [PoolType.avPacket, .fileDescriptorSet].find? (·.name = name)
  getPrototype := some
  parseFromArray
    | .avPacket, body => (s.readPacket body).map .avPacket
    | .fileDescriptorSet, body => (readSet body).map .fileDescriptorSet
  ofAvPacket := .avPacket
  toAvPacket
    | .avPacket p => some p
    | .fileDescriptorSet _ => none

instance (s : Schema) : DecidableEq (pool s).Message := inferInstanceAs (DecidableEq PoolMessage)

theorem pool_find (s : Schema) (t : PoolType) : (pool s).createMessage t.name = some t := by
  cases t <;> rfl

theorem pool_registered (s : Schema) (m : PoolMessage) : (pool s).Registered m := by
  have h := pool_find s m.type
  exact Option.isSome_iff_exists.mpr ⟨_, h⟩

theorem readFile_write {file : FileDescriptor} (h : ∀ f ∈ file.fields, f.value.Fits) :
    readFile (writeFields file.fields) = some file := by
  have hfit : ∀ f ∈ file.fields, f.Fits := by
    intro f hf
    have hnumber : f.number = 1 ∨ f.number = 2 := by
      rcases List.mem_append.mp hf with hf | hf
      · exact .inl (Schema.mem_optionalField hf)
      · exact .inr (Schema.mem_optionalField hf)
    exact ⟨by omega, by omega, h f hf⟩
  unfold readFile
  rw [readFields_writeFields hfit]
  obtain ⟨name, package⟩ := file
  cases name <;> cases package <;> simp [FileDescriptor.fields]

theorem delimitedAll_setFields (files : List FileDescriptor) :
    delimitedAll 1 (setFields files) = files.map fun file => writeFields file.fields := by
  induction files with
  | nil => rfl
  | cons file files ih =>
    rw [setFields, List.map_cons, delimitedAll_cons_delimited, if_pos rfl]
    exact congrArg (writeFields file.fields :: ·) ih

theorem mapM_readFile {files : List FileDescriptor}
    (h : ∀ file ∈ files, ∀ f ∈ file.fields, f.value.Fits) :
    (files.map fun file => writeFields file.fields).mapM readFile = some files := by
  induction files with
  | nil => rfl
  | cons file files ih =>
    have hfile := readFile_write (h file List.mem_cons_self)
    have hfiles := ih fun other hm => h other (List.mem_cons_of_mem _ hm)
    simp [hfile, hfiles]

theorem readSet_write (h : SetHolds files) :
    readSet (writeFields (setFields files)) = some files := by
  have hfit : ∀ f ∈ setFields files, f.Fits := by
    intro f hf
    obtain ⟨file, -, rfl⟩ := List.mem_map.mp hf
    exact ⟨Nat.one_pos, by simp, h.2 _ hf⟩
  unfold readSet
  rw [readFields_writeFields hfit, Option.bind_eq_bind, Option.bind_some, delimitedAll_setFields]
  exact mapM_readFile h.1

theorem pool_parses (s : Schema) : (pool s).ParseUndoesAppend := by
  intro m prototype body hfound hser
  have hp : prototype = m.type := by
    have h := (pool_find s m.type).symm.trans hfound
    exact (Option.some.inj h).symm
  subst hp
  cases m with
  | avPacket p =>
    simp only [pool, Option.ite_none_right_eq_some, Option.some.injEq] at hser
    obtain ⟨hholds, rfl⟩ := hser
    simp [pool, PoolMessage.type, s.readPacket_write hholds]
  | fileDescriptorSet files =>
    simp only [pool, Option.ite_none_right_eq_some, Option.some.injEq] at hser
    obtain ⟨hholds, rfl⟩ := hser
    simp [pool, PoolMessage.type, readSet_write hholds]

theorem pool_casts (s : Schema) : (pool s).CastsBack := fun _ => rfl

def Schema.consecutive : Schema where
  username := 1
  domain := 2
  resource := 3
  src := 1
  dest := 2
  upperlayerpotocol := 3
  timeToLive := 4
  payload := 5
  publickey := 6
  address_nodup := by decide
  packet_nodup := by decide
  positive := by decide

end Avim
