import Avim.Lib.Octets

/-!
# The proto2 wire format

Base-128 varints, tags and the four wire types in use. `readFields` takes a
message apart into its fields the way the C++ runtime does: a varint of more
than ten octets is refused, a tag is cut to 32 bits, and a tag of zero stops
the message short and so refuses it. Groups are not covered.

`readFields_writeFields`: what is written is read back.
-/

namespace Lib.Proto2

open Lib.Octets

def putVarint : Nat → Nat → Bytes
  | 0, _ => []
  | fuel + 1, n =>
    if n < 128 then [UInt8.ofNat n] else UInt8.ofNat (n % 128 + 128) :: putVarint fuel (n / 128)

def getVarint : Nat → Bytes → Option (Nat × Bytes)
  | 0, _ => none
  | _ + 1, [] => none
  | fuel + 1, b :: bs =>
    if b.toNat < 128 then some (b.toNat, bs)
    else (getVarint fuel bs).map fun (high, rest) => (b.toNat - 128 + 128 * high, rest)

def writeVarint (n : Nat) : Bytes := putVarint 10 n

/-- High-order bits beyond the 64th are dropped. -/
def readVarint (bs : Bytes) : Option (Nat × Bytes) :=
  (getVarint 10 bs).map fun (n, rest) => (n % 2 ^ 64, rest)

inductive Value
  | varint (n : Nat)
  | fixed64 (bytes : Bytes)
  | delimited (bytes : Bytes)
  | fixed32 (bytes : Bytes)
  deriving DecidableEq, Repr

structure Field where
  number : Nat
  value : Value
  deriving DecidableEq, Repr

def Value.wireType : Value → Nat
  | .varint _ => 0
  | .fixed64 _ => 1
  | .delimited _ => 2
  | .fixed32 _ => 5

def Value.write : Value → Bytes
  | .varint n => writeVarint n
  | .fixed64 bytes | .fixed32 bytes => bytes
  | .delimited bytes => writeVarint bytes.length ++ bytes

def splitExactly (n : Nat) (bs : Bytes) : Option (Bytes × Bytes) :=
  if n ≤ bs.length then some (bs.take n, bs.drop n) else none

def Value.read (wireType : Nat) (bs : Bytes) : Option (Value × Bytes) :=
  match wireType with
  | 0 => (readVarint bs).map fun (n, rest) => (.varint n, rest)
  | 1 => (splitExactly 8 bs).map fun (bytes, rest) => (.fixed64 bytes, rest)
  | 2 => (readVarint bs).bind fun (n, rest) =>
    (splitExactly (n % 2 ^ 32) rest).map fun (bytes, rest) => (.delimited bytes, rest)
  | 5 => (splitExactly 4 bs).map fun (bytes, rest) => (.fixed32 bytes, rest)
  | _ => none

def Field.write (f : Field) : Bytes :=
  writeVarint (f.number * 8 + f.value.wireType) ++ f.value.write

def readField (bs : Bytes) : Option (Field × Bytes) :=
  (readVarint bs).bind fun (n, rest) =>
    let tag := n % 2 ^ 32
    if tag = 0 then none
    else (Value.read (tag % 8) rest).map fun (value, rest) => (⟨tag / 8, value⟩, rest)

def writeFields (fields : List Field) : Bytes := fields.flatMap Field.write

/-- One field costs at least one octet, so `fuel` may be the length. -/
def readFieldsWith : Nat → Bytes → Option (List Field)
  | _, [] => some []
  | 0, _ :: _ => none
  | fuel + 1, b :: bs =>
    (readField (b :: bs)).bind fun (field, rest) => (readFieldsWith fuel rest).map (field :: ·)

def readFields (bs : Bytes) : Option (List Field) := readFieldsWith bs.length bs

-- ---------------------------------------------------------------------------
-- Reading what was written
-- ---------------------------------------------------------------------------

theorem getVarint_small (rest : Bytes) (h : n < 128) :
    getVarint (fuel + 1) (putVarint (fuel + 1) n ++ rest) = some (n, rest) := by
  have hb : (UInt8.ofNat n).toNat = n := by rw [UInt8.toNat_ofNat']; omega
  simp [putVarint, getVarint, h, hb]

theorem getVarint_putVarint (rest : Bytes) (h : n < 128 ^ (fuel + 1)) :
    getVarint (fuel + 1) (putVarint (fuel + 1) n ++ rest) = some (n, rest) := by
  induction fuel generalizing n with
  | zero => exact getVarint_small rest (by simpa using h)
  | succ fuel ih =>
    by_cases hn : n < 128
    · exact getVarint_small rest hn
    · have hb : (UInt8.ofNat (n % 128 + 128)).toNat = n % 128 + 128 := by
        rw [UInt8.toNat_ofNat']
        omega
      have hd : n / 128 < 128 ^ (fuel + 1) := by
        rw [Nat.div_lt_iff_lt_mul (by decide), ← Nat.pow_succ]
        exact h
      rw [putVarint, if_neg hn, List.cons_append, getVarint, hb, if_neg (by omega), ih hd]
      simp only [Option.map_some, Option.some.injEq, Prod.mk.injEq, and_true]
      omega

theorem readVarint_writeVarint (rest : Bytes) (h : n < 2 ^ 64) :
    readVarint (writeVarint n ++ rest) = some (n, rest) := by
  have hw : n < 128 ^ (9 + 1) := by omega
  simp only [readVarint, writeVarint, getVarint_putVarint rest hw, Option.map_some,
    Nat.mod_eq_of_lt h]

theorem writeVarint_ne_nil (n : Nat) : writeVarint n ≠ [] := by
  unfold writeVarint putVarint
  split <;> simp

def Value.Fits : Value → Prop
  | .varint n => n < 2 ^ 64
  | .fixed64 bytes => bytes.length = 8
  | .delimited bytes => bytes.length < 2 ^ 32
  | .fixed32 bytes => bytes.length = 4

instance (v : Value) : Decidable v.Fits := by cases v <;> unfold Value.Fits <;> infer_instance

structure Field.Fits (f : Field) : Prop where
  positive : 0 < f.number
  small : f.number < 2 ^ 29
  value : f.value.Fits

theorem splitExactly_append (bytes rest : Bytes) (h : bytes.length = n) :
    splitExactly n (bytes ++ rest) = some (bytes, rest) := by
  subst h
  simp [splitExactly]

theorem Value.read_write (v : Value) (rest : Bytes) (h : v.Fits) :
    Value.read v.wireType (v.write ++ rest) = some (v, rest) := by
  cases v with
  | varint n => simp [Value.read, Value.wireType, Value.write, readVarint_writeVarint rest h]
  | fixed64 bytes => simp [Value.read, Value.wireType, Value.write, splitExactly_append _ rest h]
  | delimited bytes =>
    have hlen : bytes.length < 2 ^ 32 := h
    have hread := readVarint_writeVarint (n := bytes.length) (bytes ++ rest) (by omega)
    simp only [Value.read, Value.wireType, Value.write, List.append_assoc, hread, Option.bind_some,
      Nat.mod_eq_of_lt hlen, splitExactly_append bytes rest rfl, Option.map_some]
  | fixed32 bytes => simp [Value.read, Value.wireType, Value.write, splitExactly_append _ rest h]

theorem readField_write (f : Field) (rest : Bytes) (h : f.Fits) :
    readField (f.write ++ rest) = some (f, rest) := by
  have hw : f.value.wireType < 8 := by cases f.value <;> simp [Value.wireType]
  have hs := h.small
  have hp := h.positive
  have htag : (f.number * 8 + f.value.wireType) % 2 ^ 32 = f.number * 8 + f.value.wireType :=
    Nat.mod_eq_of_lt (by omega)
  have hlow : (f.number * 8 + f.value.wireType) % 8 = f.value.wireType := by omega
  have hhigh : (f.number * 8 + f.value.wireType) / 8 = f.number := by omega
  rw [Field.write, List.append_assoc, readField,
    readVarint_writeVarint (f.value.write ++ rest) (by omega)]
  simp only [Option.bind_some, htag, hlow, hhigh, f.value.read_write rest h.value, Option.map_some]
  rw [if_neg (by omega)]

theorem Field.write_ne_nil (f : Field) : f.write ≠ [] := by
  simp [Field.write, writeVarint_ne_nil]

theorem readFieldsWith_writeFields (h : ∀ f ∈ fields, Field.Fits f)
    (hfuel : (writeFields fields).length ≤ fuel) :
    readFieldsWith fuel (writeFields fields) = some fields := by
  induction fields generalizing fuel with
  | nil => cases fuel <;> rfl
  | cons f fields ih =>
    have hread := readField_write f (writeFields fields) (h f (by simp))
    have hcons : writeFields (f :: fields) = f.write ++ writeFields fields := rfl
    obtain ⟨b, bs, hbs⟩ := List.exists_cons_of_ne_nil f.write_ne_nil
    rw [hcons, hbs, List.cons_append, List.length_cons, List.length_append] at hfuel
    obtain ⟨fuel, rfl⟩ : ∃ k, fuel = k + 1 := ⟨fuel - 1, by omega⟩
    rw [hbs, List.cons_append] at hread
    have hlen : (writeFields fields).length ≤ fuel := by omega
    have htail := ih (fun g hg => h g (List.mem_cons_of_mem _ hg)) hlen
    simp only [hcons, hbs, List.cons_append, readFieldsWith, hread, Option.bind_some, htail,
      Option.map_some]

theorem readFields_writeFields (h : ∀ f ∈ fields, Field.Fits f) :
    readFields (writeFields fields) = some fields :=
  readFieldsWith_writeFields h le_rfl

end Lib.Proto2
