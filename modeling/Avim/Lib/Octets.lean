import Mathlib

/-!
# Octet strings and machine words

A byte string is a list of octets. A number has a big-endian reading of a
given width and one of minimal width; a length has the 32-bit views that C
code takes of it. Nothing here knows what the bytes are for.
-/

namespace Lib.Octets

abbrev Bytes := List UInt8

def text (s : String) : Bytes := s.toList.map fun c => UInt8.ofNat c.toNat

-- ---------------------------------------------------------------------------
-- Big-endian numbers
-- ---------------------------------------------------------------------------

def ofBE (bs : Bytes) : Nat := bs.foldl (fun n b => n * 256 + b.toNat) 0

/-- Exactly `width` octets, most significant first, of `n` modulo `256 ^ width`. -/
def toBE : Nat → Nat → Bytes
  | 0, _ => []
  | width + 1, n => toBE width (n / 256) ++ [UInt8.ofNat n]

@[simp] theorem ofBE_nil : ofBE [] = 0 := rfl

theorem ofBE_snoc (bs : Bytes) (b : UInt8) : ofBE (bs ++ [b]) = ofBE bs * 256 + b.toNat := by
  simp [ofBE]

@[simp] theorem length_toBE (width n : Nat) : (toBE width n).length = width := by
  induction width generalizing n with
  | zero => rfl
  | succ width ih => simp [toBE, ih]

theorem ofBE_toBE (h : n < 256 ^ width) : ofBE (toBE width n) = n := by
  induction width generalizing n with
  | zero =>
    have hn : n = 0 := by simpa using h
    simp [toBE, hn]
  | succ width ih =>
    have hd : n / 256 < 256 ^ width := by
      rw [Nat.div_lt_iff_lt_mul (by decide), ← Nat.pow_succ]
      exact h
    rw [toBE, ofBE_snoc, ih hd, UInt8.toNat_ofNat']
    omega

theorem ofBE_lt (bs : Bytes) : ofBE bs < 256 ^ bs.length := by
  induction bs using List.reverseRecOn with
  | nil => simp
  | append_singleton bs b ih =>
    have hb := b.toNat_lt
    rw [ofBE_snoc, List.length_append, List.length_singleton, Nat.pow_succ]
    omega

theorem toBE_ofBE (bs : Bytes) : toBE bs.length (ofBE bs) = bs := by
  induction bs using List.reverseRecOn with
  | nil => rfl
  | append_singleton bs b ih =>
    have hb := b.toNat_lt
    have hdiv : (ofBE bs * 256 + b.toNat) / 256 = ofBE bs := by omega
    have hlast : UInt8.ofNat (ofBE bs * 256 + b.toNat) = b := by
      apply UInt8.toNat_inj.mp
      rw [UInt8.toNat_ofNat']
      omega
    rw [List.length_append, List.length_singleton, toBE, ofBE_snoc, hdiv, hlast, ih]

-- ---------------------------------------------------------------------------
-- Minimal width
-- ---------------------------------------------------------------------------

def numBytes (n : Nat) : Nat := if n = 0 then 0 else n.log2 / 8 + 1

theorem lt_pow_numBytes (n : Nat) : n < 256 ^ numBytes n := by
  unfold numBytes
  split
  · simp_all
  · calc n < 2 ^ (n.log2 + 1) := Nat.lt_log2_self
      _ ≤ 2 ^ (8 * (n.log2 / 8 + 1)) := Nat.pow_le_pow_right (by decide) (by omega)
      _ = 256 ^ (n.log2 / 8 + 1) := by rw [Nat.pow_mul]

theorem pow_numBytes_le (h : n ≠ 0) : 256 ^ (numBytes n - 1) ≤ n := by
  simp only [numBytes, h, if_false, Nat.add_sub_cancel]
  calc 256 ^ (n.log2 / 8) = 2 ^ (8 * (n.log2 / 8)) := by rw [Nat.pow_mul]
    _ ≤ 2 ^ n.log2 := Nat.pow_le_pow_right (by decide) (by omega)
    _ ≤ n := Nat.log2_self_le h

def minBE (n : Nat) : Bytes := toBE (numBytes n) n

@[simp] theorem ofBE_minBE (n : Nat) : ofBE (minBE n) = n := ofBE_toBE (lt_pow_numBytes n)

-- ---------------------------------------------------------------------------
-- 32-bit views
-- ---------------------------------------------------------------------------

def uint32 (z : Int) : Nat := (z % 2 ^ 32).toNat

def int32 (z : Int) : Int := if z % 2 ^ 32 < 2 ^ 31 then z % 2 ^ 32 else z % 2 ^ 32 - 2 ^ 32

theorem int32_of_lt (h : n < 2 ^ 31) : int32 (n : Nat) = n := by
  unfold int32
  split <;> omega

theorem int32_le (n : Nat) : int32 n ≤ n := by
  unfold int32
  split <;> omega

theorem uint32_of_lt (h : n < 2 ^ 32) : uint32 (n : Nat) = n := by
  unfold uint32
  omega

/-- Network byte order on a 32-bit value, as `htonl` leaves it in memory. -/
def be32 (z : Int) : Bytes := toBE 4 (uint32 z)

@[simp] theorem length_be32 (z : Int) : (be32 z).length = 4 := length_toBE _ _

theorem ofBE_be32 (h : n < 2 ^ 32) : ofBE (be32 (n : Nat)) = n := by
  rw [be32, uint32_of_lt h]
  exact ofBE_toBE h

theorem ofBE_four_lt (h : bs.length = 4) : ofBE bs < 2 ^ 32 := by
  have := ofBE_lt bs
  rw [h] at this
  exact this

theorem be32_ofBE (h : bs.length = 4) : be32 (ofBE bs : Nat) = bs := by
  have hback := toBE_ofBE bs
  rwa [h, ← uint32_of_lt (ofBE_four_lt h)] at hback

end Lib.Octets
