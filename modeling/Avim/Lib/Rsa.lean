import Mathlib
import Avim.Lib.Octets

/-!
# RSA on octet blocks

Modular exponentiation that computes, the two exponents of a product of two
primes undoing each other, and the block formats of PKCS#1 v1.5: a block of at
most eleven octets less than the modulus goes to a block of the size of the
modulus, and comes back.
-/

namespace Lib.Rsa

open Lib.Octets

-- ---------------------------------------------------------------------------
-- Powers modulo `n`
-- ---------------------------------------------------------------------------

def powModWith (n : Nat) : Nat → Nat → Nat → Nat
  | 0, _, _ => 1 % n
  | bits + 1, b, e =>
    if e % 2 = 1 then b * powModWith n bits (b * b % n) (e / 2) % n
    else powModWith n bits (b * b % n) (e / 2)

def powMod (n b e : Nat) : Nat := powModWith n (e.log2 + 1) b e

theorem powModWith_eq (h : e < 2 ^ bits) : powModWith n bits b e = b ^ e % n := by
  induction bits generalizing b e with
  | zero =>
    have he : e = 0 := by simpa using h
    simp [powModWith, he]
  | succ bits ih =>
    have hhalf : e / 2 < 2 ^ bits := by
      rw [Nat.pow_succ] at h
      omega
    have hsq : (b * b % n) ^ (e / 2) % n = b ^ (2 * (e / 2)) % n := by
      rw [← Nat.pow_mod, ← Nat.pow_two, ← Nat.pow_mul]
    rw [powModWith, ih hhalf, hsq]
    split
    · rename_i hodd
      have he : e = 2 * (e / 2) + 1 := by omega
      rw [Nat.mul_mod_mod]
      conv_rhs => rw [he, Nat.pow_succ']
    · rename_i heven
      have he : e = 2 * (e / 2) := by omega
      conv_rhs => rw [he]

theorem powMod_eq (n b e : Nat) : powMod n b e = b ^ e % n := powModWith_eq Nat.lt_log2_self

theorem powMod_lt (hn : 0 < n) : powMod n b e < n := by
  rw [powMod_eq]
  exact Nat.mod_lt _ hn

theorem pow_eq_iff_powMod (p b e c : Nat) : ((b : ZMod p) ^ e = c) ↔ powMod p b e = c % p := by
  rw [powMod_eq, ← Nat.cast_pow, ZMod.natCast_eq_natCast_iff']

/-- A base whose order is `p - 1`, for a `p - 1` with no prime factor but two
and three. -/
theorem prime_of_order (base : Nat) (hp : p - 1 = 3 * 2 ^ k) (hone : powMod p base (p - 1) = 1 % p)
    (htwo : powMod p base ((p - 1) / 2) ≠ 1 % p) (hthree : powMod p base ((p - 1) / 3) ≠ 1 % p) :
    p.Prime := by
  refine lucas_primality p base ?_ ?_
  · have h := (pow_eq_iff_powMod p base (p - 1) 1).mpr hone
    simpa using h
  · intro q hq hdvd hpow
    have hmod : powMod p base ((p - 1) / q) = 1 % p :=
      (pow_eq_iff_powMod p base _ 1).mp (by simpa using hpow)
    rw [hp] at hdvd
    rcases hq.dvd_mul.mp hdvd with h | h
    · rw [(Nat.prime_dvd_prime_iff_eq hq Nat.prime_three).mp h] at hmod
      exact hthree hmod
    · have := hq.dvd_of_dvd_pow h
      rw [(Nat.prime_dvd_prime_iff_eq hq Nat.prime_two).mp this] at hmod
      exact htwo hmod

-- ---------------------------------------------------------------------------
-- Exponents that undo each other
-- ---------------------------------------------------------------------------

def Undoes (n e d : Nat) : Prop := ∀ x < n, (x ^ e % n) ^ d % n = x

theorem pow_mod_prime (hp : p.Prime) (h : m % (p - 1) = 1) (x : Nat) : x ^ m ≡ x [MOD p] := by
  have hfact : Fact p.Prime := ⟨hp⟩
  rw [← ZMod.natCast_eq_natCast_iff, Nat.cast_pow]
  by_cases hx : (x : ZMod p) = 0
  · have hm : m ≠ 0 := by
      rintro rfl
      simp at h
    rw [hx, zero_pow hm]
  · have hm : m = (p - 1) * (m / (p - 1)) + 1 := by
      have := Nat.div_add_mod m (p - 1)
      omega
    rw [hm, pow_succ, pow_mul, ZMod.pow_card_sub_one_eq_one hx, one_pow, one_mul]

theorem undoes_of_primes (hp : p.Prime) (hq : q.Prime) (hne : p ≠ q)
    (hep : e * d % (p - 1) = 1) (heq : e * d % (q - 1) = 1) : Undoes (p * q) e d := by
  intro x hx
  have hcop : p.Coprime q := (Nat.coprime_primes hp hq).mpr hne
  have hmod : x ^ (e * d) ≡ x [MOD p * q] :=
    (Nat.modEq_and_modEq_iff_modEq_mul hcop).mp ⟨pow_mod_prime hp hep x, pow_mod_prime hq heq x⟩
  rw [← Nat.pow_mod, ← pow_mul]
  exact Eq.trans hmod (Nat.mod_eq_of_lt hx)

-- ---------------------------------------------------------------------------
-- Blocks
-- ---------------------------------------------------------------------------

def pad (kind : UInt8) (filler block : Bytes) : Bytes := 0 :: kind :: (filler ++ 0 :: block)

/-- At least eight octets of filler, then a zero, then the block. -/
def unpad (kind : UInt8) (isFiller : UInt8 → Bool) : Bytes → Option Bytes
  | 0 :: k :: rest =>
    match rest.dropWhile isFiller with
    | 0 :: block =>
      if k = kind ∧ 8 ≤ (rest.takeWhile isFiller).length then some block else none
    | _ => none
  | _ => none

theorem unpad_pad (hfill : ∀ b ∈ filler, isFiller b = true) (hzero : isFiller 0 = false)
    (hlen : 8 ≤ filler.length) : unpad kind isFiller (pad kind filler block) = some block := by
  have hdrop : (filler ++ 0 :: block).dropWhile isFiller = 0 :: block := by
    rw [List.dropWhile_append_of_pos hfill, List.dropWhile_cons_of_neg (by simp [hzero])]
  have htake : (filler ++ 0 :: block).takeWhile isFiller = filler := by
    rw [List.takeWhile_append_of_pos hfill, List.takeWhile_cons_of_neg (by simp [hzero]),
      List.append_nil]
  simp [unpad, pad, hdrop, htake, hlen]

def encryptBlock (kind : UInt8) (filler : Nat → Bytes) (n e : Nat) (block : Bytes) :
    Option Bytes :=
  if numBytes n < block.length + 11 then none
  else
    let x := ofBE (pad kind (filler (numBytes n - 3 - block.length)) block)
    if n ≤ x then none else some (toBE (numBytes n) (powMod n x e))

def decryptBlock (kind : UInt8) (isFiller : UInt8 → Bool) (n d : Nat) (block : Bytes) :
    Option Bytes :=
  if numBytes n < block.length then none
  else if n ≤ ofBE block then none
  else unpad kind isFiller (toBE (numBytes n) (powMod n (ofBE block) d))

theorem ofBE_zero_cons (bs : Bytes) : ofBE (0 :: bs) = ofBE bs := by simp [ofBE]

theorem decryptBlock_encryptBlock (filler : Nat → Bytes) (isFiller : UInt8 → Bool)
    (hkey : Undoes n e d)
    (hlength : ∀ k, (filler k).length = k) (hfill : ∀ k, ∀ b ∈ filler k, isFiller b = true)
    (hzero : isFiller 0 = false) (hblock : block.length + 11 ≤ numBytes n) :
    ∃ c, encryptBlock kind filler n e block = some c ∧ c.length = numBytes n ∧
      decryptBlock kind isFiller n d c = some block := by
  have hn : n ≠ 0 := by
    rintro rfl
    simp [numBytes] at hblock
  let padded := pad kind (filler (numBytes n - 3 - block.length)) block
  have hsize : padded.length = numBytes n := by
    simp only [padded, pad, List.length_cons, List.length_append, hlength]
    omega
  -- the leading zero keeps the number below the modulus
  have hlt : ofBE padded < n := by
    have hb := ofBE_lt padded.tail
    have ht : padded.tail.length = numBytes n - 1 := by simp [hsize]
    rw [ht] at hb
    rw [show padded = 0 :: padded.tail from rfl, ofBE_zero_cons]
    exact lt_of_lt_of_le hb (pow_numBytes_le hn)
  have hc : powMod n (ofBE padded) e < n := powMod_lt (Nat.pos_of_ne_zero hn)
  have hread : ofBE (toBE (numBytes n) (powMod n (ofBE padded) e)) = powMod n (ofBE padded) e :=
    ofBE_toBE (hc.trans (lt_pow_numBytes n))
  have hundo : powMod n (powMod n (ofBE padded) e) d = ofBE padded := by
    rw [powMod_eq, powMod_eq]
    exact hkey _ hlt
  refine ⟨toBE (numBytes n) (powMod n (ofBE padded) e), ?_, length_toBE _ _, ?_⟩
  · rw [encryptBlock, if_neg (by omega), if_neg (by simpa using hlt)]
  · rw [decryptBlock, if_neg (by simp), hread, if_neg (by omega), hundo, ← hsize, toBE_ofBE]
    exact unpad_pad (hfill _) hzero (by rw [hlength]; omega)

end Lib.Rsa
