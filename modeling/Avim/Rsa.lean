import Avim.Lib.Pieces
import Avim.Lib.Rsa
import Avim.Proto

/-!
# Encrypting and decrypting strings

The four wrappers of `avproto.hpp` cut a string into blocks and hand each to
OpenSSL. OpenSSL is a library, so its block operations are a parameter, and
`OpenSSL.KeyPair` is what they promise for one key pair. The wrappers keep the
counters of the source: `int`, with the casts of each loop.
-/

namespace Avim

open Lib.Octets Lib.Pieces

structure RSA where
  n : Nat
  e : Nat
  deriving DecidableEq, Repr

structure RSAKey extends RSA where
  d : Nat
  deriving DecidableEq, Repr

def RSA.size (rsa : RSA) : Nat := numBytes rsa.n

/-- The library, seen through the calls made of it. A block operation that
returns -1 is `none`, and so is a null pointer. -/
structure OpenSSL where
  -- `RSA_public_encrypt` pads at random; the number tells its calls apart.
  publicEncrypt : Nat → RSA → Bytes → Option Bytes
  privateDecrypt : RSAKey → Bytes → Option Bytes
  privateEncrypt : RSAKey → Bytes → Option Bytes
  publicDecrypt : RSA → Bytes → Option Bytes
  X509 : Type
  EvpPkey : Type
  d2iX509 : Bytes → Option X509
  x509GetPubkey : X509 → Option EvpPkey
  evpPkeyGet1RSA : EvpPkey → Option RSA

/-- What the block operations promise for one key pair: up to eleven octets
less than the modulus go to a block of its size, and come back. -/
structure OpenSSL.KeyPair (ossl : OpenSSL) (key : RSAKey) : Prop where
  large : 11 < key.size
  private_undoes_public : ∀ draw block, block.length ≤ key.size - 11 →
    ∃ c, ossl.publicEncrypt draw key.toRSA block = some c ∧ c.length = key.size ∧
      ossl.privateDecrypt key c = some block
  public_undoes_private : ∀ block, block.length ≤ key.size - 11 →
    ∃ c, ossl.privateEncrypt key block = some c ∧ c.length = key.size ∧
      ossl.publicDecrypt key.toRSA c = some block

/-- The loop the wrappers share: `i` runs to `bound` by `step`, and a block is
as long as `step` and `remaining` allow. A step that is not positive either
hands over a negative length or never ends; with a positive one the length of
the input is fuel enough. -/
def chunkLoop (op : Nat → Bytes → Option Bytes) (step : Int) (bound : Nat) (remaining : Nat → Int)
    (input : Bytes) : Nat → Nat → Except Fault Bytes
  | 0, _ => .error .diverges
  | fuel + 1, i =>
    if i < bound then
      let flen := min step (remaining i)
      if flen < 0 then .error .overflow
      else match op i ((input.drop i).take flen.toNat) with
        -- `append(block, -1)`
        | none => .error .lengthError
        | some block =>
          if i + step ≥ 2 ^ 31 then .error .overflow
          else (chunkLoop op step bound remaining input fuel (i + step.toNat)).map (block ++ ·)
    else .ok []

section

variable (ossl : OpenSSL)

def rsaPublicEncrypt (draw : Nat) (rsa : RSA) (input : Bytes) : Except Fault Bytes :=
  let inputlen := int32 input.length
  chunkLoop (fun i => ossl.publicEncrypt (draw + i) rsa) (rsa.size - 11) inputlen.toNat
    (inputlen - ·) input (input.length + 1) 0

def rsaPrivateDecrypt (rsa : RSAKey) (input : Bytes) : Except Fault Bytes :=
  chunkLoop (fun _ => ossl.privateDecrypt rsa) rsa.size input.length
    (fun i => int32 (input.length - i)) input (input.length + 1) 0

def rsaPrivateEncrypt (rsa : RSAKey) (input : Bytes) : Except Fault Bytes :=
  let inputlen := int32 input.length
  chunkLoop (fun _ => ossl.privateEncrypt rsa) (rsa.size - 11) input.length
    (inputlen - ·) input (input.length + 1) 0

def rsaPublicDecrypt (rsa : RSA) (input : Bytes) : Except Fault Bytes :=
  let inputlen := int32 input.length
  chunkLoop (fun _ => ossl.publicDecrypt rsa) rsa.size input.length
    (inputlen - ·) input (input.length + 1) 0

end

-- ---------------------------------------------------------------------------
-- The loop on inputs that its counters can count
-- ---------------------------------------------------------------------------

theorem chunkLoop_returns {R : Bytes → Bytes → Prop} (op : Nat → Bytes → Option Bytes)
    (fuel i : Nat) (hk : 0 < k)
    (hremaining : ∀ j : Nat, j < input.length → remaining j = (input.length : Int) - j)
    (hfuel : input.length < fuel + i) (hpos : 0 < fuel)
    (hcount : i + (pieces k (input.drop i)).length * k < 2 ^ 31)
    (hop : ∀ j, ∀ piece ∈ pieces k (input.drop i), ∃ c, op j piece = some c ∧ R piece c) :
    ∃ cs, chunkLoop op k input.length remaining input fuel i = .ok cs.flatten ∧
      List.Forall₂ R (pieces k (input.drop i)) cs := by
  induction fuel generalizing i with
  | zero => omega
  | succ fuel ih =>
    by_cases hi : i < input.length
    · have hcons := pieces_cons hk (show input.drop i ≠ [] by simp [hi])
      rw [List.drop_drop] at hcons
      rw [hcons, List.length_cons, Nat.add_mul] at hcount
      obtain ⟨c, hc, hR⟩ := hop i ((input.drop i).take k) (by simp [hcons])
      obtain ⟨cs, hcs, hall⟩ := ih (i := i + k) (by omega) (by omega) (by omega)
        (fun j piece hp => hop j piece (by simp [hcons, hp]))
      refine ⟨c :: cs, ?_, ?_⟩
      · have hflen : (input.drop i).take (min (k : Int) (input.length - i)).toNat =
            (input.drop i).take k := by
          rw [List.take_eq_take_iff, List.length_drop]
          omega
        simp only [chunkLoop, hi, if_true, hremaining i hi, hflen, hc]
        rw [if_neg (by omega), if_neg (by omega), Int.toNat_natCast, hcs]
        simp [Except.map]
      · rw [hcons]
        exact .cons hR hall
    · have hnil : input.drop i = [] := List.drop_eq_nil_of_le (by omega)
      refine ⟨[], ?_, ?_⟩
      · simp [chunkLoop, hi]
      · rw [hnil, pieces_nil]
        exact .nil

/-- The length after encryption: whole blocks of the key's size. -/
def sealedLength (size len : Nat) : Nat := (len + (size - 11 - 1)) / (size - 11) * size

theorem le_sealedLength (hsize : 11 < size) (len : Nat) : len ≤ sealedLength size len := by
  have hk : 0 < size - 11 := by omega
  have hmod := Nat.mod_lt (len + (size - 11 - 1)) hk
  have hdiv := Nat.div_add_mod (len + (size - 11 - 1)) (size - 11)
  calc len ≤ (size - 11) * ((len + (size - 11 - 1)) / (size - 11)) := by omega
    _ ≤ size * ((len + (size - 11 - 1)) / (size - 11)) := Nat.mul_le_mul_right _ (by omega)
    _ = sealedLength size len := Nat.mul_comm _ _

theorem forall₂_right {R : α → β → Prop} {P : β → Prop} (h : List.Forall₂ R xs ys)
    (hP : ∀ x y, R x y → P y) : ∀ y ∈ ys, P y := by
  induction h with
  | nil => simp
  | cons hxy _ ih =>
    intro y hy
    rcases List.mem_cons.mp hy with rfl | hy
    · exact hP _ _ hxy
    · exact ih y hy

theorem forall₂_unique {R : α → β → Prop} {f : β → Option α} (h : List.Forall₂ R xs ys)
    (hR : ∀ x y, R x y → f y = some x) (h' : List.Forall₂ (fun y x => f y = some x) ys zs) :
    zs = xs := by
  induction h generalizing zs with
  | nil =>
    cases h'
    rfl
  | cons hxy _ ih =>
    cases h' with
    | cons hz hzs =>
      rw [hR _ _ hxy] at hz
      rw [ih hzs, Option.some.inj hz]

/-- Two loops whose block operations undo each other, one cutting eleven
octets less than the other. -/
theorem chunkLoop_undo {enc : Nat → Bytes → Option Bytes} {dec : Bytes → Option Bytes}
    (remaining : Nat → Int) (hsize : 11 < size)
    (hundo : ∀ j block, block.length ≤ size - 11 →
      ∃ c, enc j block = some c ∧ c.length = size ∧ dec c = some block)
    (hfit : sealedLength size input.length < 2 ^ 31)
    (hremaining : ∀ j : Nat, j < input.length → remaining j = (input.length : Int) - j) :
    ∃ out, chunkLoop enc ((size : Int) - 11) input.length remaining input (input.length + 1) 0 =
        .ok out ∧
      out.length = sealedLength size input.length ∧
      ∀ left : Nat → Int, (∀ j : Nat, j < out.length → left j = (out.length : Int) - j) →
        chunkLoop (fun _ => dec) size out.length left out (out.length + 1) 0 = .ok input := by
  have hk : 0 < size - 11 := by omega
  have hcount : (pieces (size - 11) input).length * size = sealedLength size input.length := by
    rw [length_pieces hk, sealedLength]
  have hshort : (pieces (size - 11) input).length * (size - 11) ≤
      (pieces (size - 11) input).length * size := Nat.mul_le_mul_left _ (by omega)
  have hstep : ((size : Int) - 11) = ((size - 11 : Nat) : Int) := by omega
  obtain ⟨cs, hcs, hall⟩ := chunkLoop_returns enc (input.length + 1) 0
    (R := fun block c => c.length = size ∧ dec c = some block) hk hremaining (by omega) (by omega)
    (by rw [List.drop_zero]; omega) (fun j piece hp => hundo j piece (length_le_of_mem_pieces hp))
  rw [List.drop_zero] at hall
  have hlen : ∀ c ∈ cs, c.length = size := forall₂_right hall fun _ _ h => h.1
  have hout : cs.flatten.length = sealedLength size input.length := by
    rw [length_flatten_of_forall hlen, ← hall.length_eq, hcount]
  refine ⟨cs.flatten, hstep ▸ hcs, hout, fun left hleft => ?_⟩
  have hpieces : pieces size cs.flatten = cs := pieces_flatten (by omega) hlen
  have hopens : ∀ c ∈ cs, ∃ block, dec c = some block ∧ dec c = some block :=
    forall₂_right hall fun block c h => ⟨block, h.2, h.2⟩
  obtain ⟨blocks, hblocks, hback⟩ := chunkLoop_returns (fun _ => dec)
    (cs.flatten.length + 1) 0 (k := size) (R := fun c block => dec c = some block) (by omega) hleft
    (by omega) (by omega)
    (by
      rw [List.drop_zero, hpieces, Nat.zero_add, ← length_flatten_of_forall hlen, hout]
      exact hfit)
    (by rw [List.drop_zero, hpieces]; exact fun _ => hopens)
  rw [List.drop_zero, hpieces] at hback
  rw [hblocks, forall₂_unique hall (fun _ _ h => h.2) hback, flatten_pieces hk]

section

variable (ossl : OpenSSL)

theorem rsaPrivateDecrypt_publicEncrypt (hkey : ossl.KeyPair key)
    (hfit : sealedLength key.size data.length < 2 ^ 31) (draw : Nat) :
    ∃ c, rsaPublicEncrypt ossl draw key.toRSA data = .ok c ∧
      c.length = sealedLength key.size data.length ∧ rsaPrivateDecrypt ossl key c = .ok data := by
  have hdata : int32 data.length = data.length :=
    int32_of_lt ((le_sealedLength hkey.large _).trans_lt hfit)
  obtain ⟨c, hc, hlen, hback⟩ := chunkLoop_undo (fun i => int32 data.length - i)
    hkey.large (fun j => hkey.private_undoes_public (draw + j)) hfit
    (fun j _ => by rw [hdata])
  refine ⟨c, ?_, hlen, hback _ fun j hj => ?_⟩
  · simpa [rsaPublicEncrypt, hdata] using hc
  · have hleft : (c.length : Int) - j = ((c.length - j : Nat) : Int) := by omega
    have hlt : c.length - j < 2 ^ 31 := by omega
    rw [hleft, int32_of_lt hlt]

theorem rsaPublicDecrypt_privateEncrypt (hkey : ossl.KeyPair key)
    (hfit : sealedLength key.size data.length < 2 ^ 31) :
    ∃ c, rsaPrivateEncrypt ossl key data = .ok c ∧
      c.length = sealedLength key.size data.length ∧
      rsaPublicDecrypt ossl key.toRSA c = .ok data := by
  have hdata : int32 data.length = data.length :=
    int32_of_lt ((le_sealedLength hkey.large _).trans_lt hfit)
  obtain ⟨c, hc, hlen, hback⟩ := chunkLoop_undo (fun i => int32 data.length - i)
    hkey.large (fun _ => hkey.public_undoes_private) hfit (fun j _ => by rw [hdata])
  refine ⟨c, ?_, hlen, hback (fun i => int32 c.length - i) fun j hj => ?_⟩
  · simpa [rsaPrivateEncrypt, hdata] using hc
  · have hc' : c.length < 2 ^ 31 := by omega
    rw [int32_of_lt hc']

/-- Both layers, the outer one cutting the inner ciphertext wherever its own key
size says. The draw is that of the inner padding. -/
theorem rsa_layers_undo (hk1 : ossl.KeyPair k1) (hk2 : ossl.KeyPair k2)
    (hfit : sealedLength k2.size (sealedLength k1.size d.length) < 2 ^ 31) (draw : Nat) :
    (do
      let encrypted ← rsaPublicEncrypt ossl draw k1.toRSA d
      let singned ← rsaPrivateEncrypt ossl k2 encrypted
      let opened ← rsaPublicDecrypt ossl k2.toRSA singned
      rsaPrivateDecrypt ossl k1 opened) = .ok d := by
  have hinner : sealedLength k1.size d.length < 2 ^ 31 :=
    (le_sealedLength hk2.large _).trans_lt hfit
  obtain ⟨encrypted, hencrypt, hlen, hdecrypt⟩ :=
    rsaPrivateDecrypt_publicEncrypt ossl hk1 hinner draw
  rw [← hlen] at hfit
  obtain ⟨singned, hsign, -, hopen⟩ := rsaPublicDecrypt_privateEncrypt ossl hk2 hfit
  simp only [hencrypt, hsign, hopen, hdecrypt, ok_bind]

end

-- ---------------------------------------------------------------------------
-- What is handed to the library
-- ---------------------------------------------------------------------------

section

variable {op : Nat → Bytes → Option Bytes} {step : Int} {bound : Nat} {remaining : Nat → Int}
  {input : Bytes}

/-- `chunkLoop` with the offset and the length of every slice it hands over, the
length with its sign. -/
def chunkSlices (op : Nat → Bytes → Option Bytes) (step : Int) (bound : Nat)
    (remaining : Nat → Int) (input : Bytes) :
    Nat → Nat → List (Nat × Int) × Except Fault Bytes
  | 0, _ => ([], .error .diverges)
  | fuel + 1, i =>
    if i < bound then
      let flen := min step (remaining i)
      if flen < 0 then ([(i, flen)], .error .overflow)
      else match op i ((input.drop i).take flen.toNat) with
        | none => ([(i, flen)], .error .lengthError)
        | some block =>
          if i + step ≥ 2 ^ 31 then ([(i, flen)], .error .overflow)
          else
            let later := chunkSlices op step bound remaining input fuel (i + step.toNat)
            ((i, flen) :: later.1, later.2.map (block ++ ·))
    else ([], .ok [])

theorem chunkSlices_result (fuel i : Nat) :
    (chunkSlices op step bound remaining input fuel i).2 =
      chunkLoop op step bound remaining input fuel i := by
  induction fuel generalizing i with
  | zero => rfl
  | succ fuel ih =>
    simp only [chunkSlices, chunkLoop]
    split
    · split
      · rfl
      · split
        · rfl
        · split
          · rfl
          · simp only [ih]
    · rfl

def Consecutive : Nat → List (Nat × Int) → Nat → Prop
  | i, [], j => i = j
  | i, slice :: rest, j => slice.1 = i ∧ Consecutive (i + slice.2.toNat) rest j

/-- From offset `i` of `len` octets on, the loop ends, no slice is empty or
leaves the input, and together they are the rest of it from front to back, or
the beginning of that when the library refuses one. The counter may step past
the end, which the slices do not. -/
structure WellCut (len i : Nat) (run : List (Nat × Int) × Except Fault Bytes) : Prop where
  terminates : run.2 ≠ .error .diverges
  nonempty : ∀ slice ∈ run.1, 0 < slice.2
  inside : ∀ slice ∈ run.1, slice.1 + slice.2 ≤ len
  inOrder : ∃ j, Consecutive (min i len) run.1 j ∧ ∀ out, run.2 = .ok out → j = len

theorem chunkSlices_done (hi : bound ≤ i) :
    chunkSlices op step bound remaining input (fuel + 1) i = ([], .ok []) := by
  simp only [chunkSlices]
  rw [if_neg (by omega)]

theorem chunkSlices_round (hi : i < bound) (hflen : 0 ≤ min step (remaining i))
    (hcount : i + step < 2 ^ 31) :
    chunkSlices op step bound remaining input (fuel + 1) i =
      match op i ((input.drop i).take (min step (remaining i)).toNat) with
      | none => ([(i, min step (remaining i))], .error .lengthError)
      | some block =>
        let later := chunkSlices op step bound remaining input fuel (i + step.toNat)
        ((i, min step (remaining i)) :: later.1, later.2.map (block ++ ·)) := by
  simp only [chunkSlices]
  rw [if_pos hi, if_neg (by omega)]
  cases op i ((input.drop i).take (min step (remaining i)).toNat) with
  | none => rfl
  | some block =>
    simp only
    rw [if_neg (by omega)]

theorem wellCut_refused {len i k : Nat} (hi : i < len)
    (hflen : flen = min (k : Int) (len - i)) (hk : 0 < k) :
    WellCut len i ([(i, flen)], .error .lengthError) where
  terminates h := by cases h
  nonempty := by
    simp only [List.mem_singleton, forall_eq]
    omega
  inside := by
    simp only [List.mem_singleton, forall_eq]
    omega
  inOrder := ⟨i + flen.toNat, ⟨(Nat.min_eq_left hi.le).symm, by
    rw [Nat.min_eq_left hi.le]
    rfl⟩, fun _ h => by cases h⟩

theorem wellCut_cons {len i k : Nat} (hi : i < len)
    (hflen : flen = min (k : Int) (len - i)) (hk : 0 < k) (h : WellCut len (i + k) later) :
    WellCut len i ((i, flen) :: later.1, later.2.map (block ++ ·)) where
  terminates hdiverges := h.terminates (map_fails hdiverges)
  nonempty := by
    refine List.forall_mem_cons.mpr ⟨?_, h.nonempty⟩
    show 0 < flen
    omega
  inside := by
    refine List.forall_mem_cons.mpr ⟨?_, h.inside⟩
    show (i : Int) + flen ≤ len
    omega
  inOrder := by
    obtain ⟨j, hconsecutive, hall⟩ := h.inOrder
    have hnext : min (i + k) len = min i len + flen.toNat := by omega
    rw [hnext] at hconsecutive
    refine ⟨j, ⟨(Nat.min_eq_left hi.le).symm, hconsecutive⟩, fun out hout => ?_⟩
    obtain ⟨rest, hrest, -⟩ := map_returns hout
    exact hall rest hrest

theorem chunkSlices_wellCut {k : Nat} (hk : 0 < k) (hcount : input.length + k < 2 ^ 31)
    (hremaining : ∀ j : Nat, j < input.length → remaining j = (input.length : Int) - j)
    (fuel i : Nat) (hfuel : input.length < fuel + i) (hpos : 0 < fuel) :
    WellCut input.length i (chunkSlices op k input.length remaining input fuel i) := by
  induction fuel generalizing i with
  | zero => omega
  | succ fuel ih =>
    by_cases hi : i < input.length
    · have hleft := hremaining i hi
      have hflen : min (k : Int) (remaining i) = min (k : Int) (input.length - i) := by rw [hleft]
      rw [chunkSlices_round hi (by omega) (by omega)]
      cases op i ((input.drop i).take (min (k : Int) (remaining i)).toNat) with
      | none => exact wellCut_refused hi hflen hk
      | some block => exact wellCut_cons hi hflen hk (ih _ (by omega) (by omega))
    · rw [chunkSlices_done (by omega)]
      refine ⟨by simp, by simp, by simp, input.length, ?_, fun _ _ => rfl⟩
      exact Nat.min_eq_right (by omega)

theorem chunkSlices_stuck (hstep : step ≤ 0) (hbound : 0 < bound) :
    ∃ slice ∈ (chunkSlices op step bound remaining input (fuel + 1) 0).1, slice.2 ≤ 0 := by
  refine ⟨(0, min step (remaining 0)), ?_, (min_le_left _ _).trans hstep⟩
  simp only [chunkSlices]
  rw [if_pos hbound]
  split
  · simp
  · split
    · simp
    · split <;> simp

/-- A loop over an input that its counters can count is cut well unless it does
not step forward. -/
theorem wellCut_iff (hcount : input.length + step < 2 ^ 31) (hbound : bound = input.length)
    (hremaining : ∀ j : Nat, j < input.length → remaining j = (input.length : Int) - j) :
    WellCut input.length 0
        (chunkSlices op step bound remaining input (input.length + 1) 0) ↔
      input = [] ∨ 0 < step := by
  subst hbound
  constructor
  · intro h
    by_contra hnot
    rw [not_or] at hnot
    have hpos : 0 < input.length := List.length_pos_iff.mpr hnot.1
    have hstuck : ∃ slice ∈ (chunkSlices op step input.length remaining input
        (input.length + 1) 0).1, slice.2 ≤ 0 := chunkSlices_stuck (by omega) hpos
    obtain ⟨slice, hmem, hslice⟩ := hstuck
    have := h.nonempty slice hmem
    omega
  · rintro (rfl | hstep)
    · show WellCut 0 0 (chunkSlices op step 0 remaining [] 1 0)
      rw [chunkSlices_done (Nat.le_refl 0)]
      exact ⟨by simp, by simp, by simp, 0, rfl, fun _ _ => rfl⟩
    · obtain ⟨k, rfl⟩ := Int.eq_ofNat_of_zero_le hstep.le
      exact chunkSlices_wellCut (by omega) (by omega) hremaining _ _ (by omega) (by omega)

end

section

variable (ossl : OpenSSL)

def publicEncryptSlices (draw : Nat) (rsa : RSA) (input : Bytes) :
    List (Nat × Int) × Except Fault Bytes :=
  let inputlen := int32 input.length
  chunkSlices (fun i => ossl.publicEncrypt (draw + i) rsa) (rsa.size - 11) inputlen.toNat
    (inputlen - ·) input (input.length + 1) 0

def privateDecryptSlices (rsa : RSAKey) (input : Bytes) :
    List (Nat × Int) × Except Fault Bytes :=
  chunkSlices (fun _ => ossl.privateDecrypt rsa) rsa.size input.length
    (fun i => int32 (input.length - i)) input (input.length + 1) 0

def privateEncryptSlices (rsa : RSAKey) (input : Bytes) :
    List (Nat × Int) × Except Fault Bytes :=
  let inputlen := int32 input.length
  chunkSlices (fun _ => ossl.privateEncrypt rsa) (rsa.size - 11) input.length
    (inputlen - ·) input (input.length + 1) 0

def publicDecryptSlices (rsa : RSA) (input : Bytes) : List (Nat × Int) × Except Fault Bytes :=
  let inputlen := int32 input.length
  chunkSlices (fun _ => ossl.publicDecrypt rsa) rsa.size input.length
    (inputlen - ·) input (input.length + 1) 0

theorem slices_results (draw : Nat) (key : RSAKey) (input : Bytes) :
    (publicEncryptSlices ossl draw key.toRSA input).2 =
        rsaPublicEncrypt ossl draw key.toRSA input ∧
      (privateEncryptSlices ossl key input).2 = rsaPrivateEncrypt ossl key input ∧
      (privateDecryptSlices ossl key input).2 = rsaPrivateDecrypt ossl key input ∧
      (publicDecryptSlices ossl key.toRSA input).2 = rsaPublicDecrypt ossl key.toRSA input :=
  ⟨chunkSlices_result _ _, chunkSlices_result _ _, chunkSlices_result _ _, chunkSlices_result _ _⟩

/-- A key of eleven octets or fewer leaves nothing for a block to carry: the
encrypting loops then stand still or run backwards. -/
theorem slices_wellCut_iff (draw : Nat) (key : RSAKey) (input : Bytes)
    (hinput : input.length < 2 ^ 31 - key.size) :
    (WellCut input.length 0 (publicEncryptSlices ossl draw key.toRSA input) ↔
        input = [] ∨ 11 < key.size) ∧
      (WellCut input.length 0 (privateEncryptSlices ossl key input) ↔
        input = [] ∨ 11 < key.size) ∧
      (WellCut input.length 0 (privateDecryptSlices ossl key input) ↔
        input = [] ∨ 0 < key.size) ∧
      (WellCut input.length 0 (publicDecryptSlices ossl key.toRSA input) ↔
        input = [] ∨ 0 < key.size) := by
  have hlen : int32 input.length = input.length := int32_of_lt (by omega)
  have hencrypts : (0 : Int) < key.size - 11 ↔ 11 < key.size := by omega
  have hdecrypts : (0 : Int) < key.size ↔ 0 < key.size := by omega
  refine ⟨?_, ?_, ?_, ?_⟩
  · rw [← hencrypts, publicEncryptSlices]
    refine wellCut_iff ?_ ?_ fun j _ => ?_
    · omega
    · rw [hlen, Int.toNat_natCast]
    · rw [hlen]
  · rw [← hencrypts, privateEncryptSlices]
    refine wellCut_iff ?_ ?_ fun j _ => ?_
    · omega
    · rfl
    · rw [hlen]
  · rw [← hdecrypts, privateDecryptSlices]
    refine wellCut_iff ?_ ?_ fun j hj => ?_
    · omega
    · rfl
    · have hleft : (input.length : Int) - j = ((input.length - j : Nat) : Int) := by omega
      rw [hleft, int32_of_lt (by omega)]
  · rw [← hdecrypts, publicDecryptSlices]
    refine wellCut_iff ?_ ?_ fun j _ => ?_
    · omega
    · rfl
    · rw [hlen]

end

-- ---------------------------------------------------------------------------
-- When the loop returns at all
-- ---------------------------------------------------------------------------

section

variable {op : Nat → Bytes → Option Bytes} {step : Int} {bound : Nat} {remaining : Nat → Int}
  {input : Bytes}

/-- The round at `i` goes through: a block of a length that is not negative,
which the library accepts, and a counter that does not overflow. -/
def Round (op : Nat → Bytes → Option Bytes) (step : Int) (remaining : Nat → Int) (input : Bytes)
    (i : Nat) : Prop :=
  0 ≤ remaining i ∧ (op i ((input.drop i).take (min step (remaining i)).toNat)).isSome = true ∧
    i + step < 2 ^ 31

/-- From `i` on there is nothing to do, or steps forward that all go through. -/
def Rounds (op : Nat → Bytes → Option Bytes) (step : Int) (bound : Nat) (remaining : Nat → Int)
    (input : Bytes) (i : Nat) : Prop :=
  i < bound → 0 < step ∧
    ∀ n : Nat, i + n * step.toNat < bound → Round op step remaining input (i + n * step.toNat)

theorem chunkLoop_round (hi : i < bound)
    (h : chunkLoop op step bound remaining input (fuel + 1) i = .ok out) :
    0 ≤ step ∧ Round op step remaining input i ∧
      ∃ rest, chunkLoop op step bound remaining input fuel (i + step.toNat) = .ok rest := by
  simp only [chunkLoop, hi, if_true] at h
  split at h
  · cases h
  · rename_i hflen
    split at h
    · cases h
    · rename_i block hblock
      split at h
      · cases h
      · rename_i hcount
        obtain ⟨rest, hrest, -⟩ := map_returns h
        refine ⟨by omega, ⟨by omega, ?_, by omega⟩, rest, hrest⟩
        rw [hblock]
        rfl

theorem chunkLoop_of_round (hi : i < bound) (hstep : 0 ≤ step)
    (hround : Round op step remaining input i)
    (h : chunkLoop op step bound remaining input fuel (i + step.toNat) = .ok rest) :
    ∃ out, chunkLoop op step bound remaining input (fuel + 1) i = .ok out := by
  obtain ⟨hremaining, hsome, hcount⟩ := hround
  obtain ⟨block, hblock⟩ := Option.isSome_iff_exists.mp hsome
  refine ⟨block ++ rest, ?_⟩
  simp only [chunkLoop, hi, if_true]
  rw [if_neg (by omega), hblock]
  dsimp only
  rw [if_neg (by omega), h]
  rfl

theorem chunkLoop_zero (hi : i < bound)
    (h : chunkLoop op 0 bound remaining input fuel i = .ok out) : False := by
  induction fuel generalizing out with
  | zero => cases h
  | succ fuel ih =>
    obtain ⟨-, -, rest, hrest⟩ := chunkLoop_round hi h
    exact ih hrest

theorem rounds_next (hi : i < bound) (h : Rounds op step bound remaining input i) :
    Round op step remaining input i ∧ Rounds op step bound remaining input (i + step.toNat) := by
  obtain ⟨hstep, hall⟩ := h hi
  refine ⟨by simpa using hall 0 (by simpa using hi), fun _ => ⟨hstep, ?_⟩⟩
  intro n hn
  have hshift : i + step.toNat + n * step.toNat = i + (n + 1) * step.toNat := by ring
  rw [hshift] at hn ⊢
  exact hall (n + 1) hn

theorem rounds_of_next (hstep : 0 < step) (hround : Round op step remaining input i)
    (h : Rounds op step bound remaining input (i + step.toNat)) :
    Rounds op step bound remaining input i := by
  refine fun _ => ⟨hstep, ?_⟩
  intro n hn
  cases n with
  | zero => simpa using hround
  | succ n =>
    have hshift : i + (n + 1) * step.toNat = i + step.toNat + n * step.toNat := by ring
    rw [hshift] at hn ⊢
    exact (h (by omega)).2 n hn

theorem chunkLoop_returns_iff (fuel i : Nat) (hfuel : bound < fuel + i) (hpos : 0 < fuel) :
    (∃ out, chunkLoop op step bound remaining input fuel i = .ok out) ↔
      Rounds op step bound remaining input i := by
  induction fuel generalizing i with
  | zero => omega
  | succ fuel ih =>
    by_cases hi : i < bound
    · constructor
      · rintro ⟨out, hout⟩
        obtain ⟨hstep, hround, rest, hrest⟩ := chunkLoop_round hi hout
        rcases hstep.lt_or_eq with hstep | rfl
        · exact rounds_of_next hstep hround ((ih _ (by omega) (by omega)).mp ⟨rest, hrest⟩)
        · exact (chunkLoop_zero hi hrest).elim
      · intro h
        have hstep := (h hi).1
        obtain ⟨hround, hnext⟩ := rounds_next hi h
        obtain ⟨rest, hrest⟩ := (ih (i + step.toNat) (by omega) (by omega)).mpr hnext
        exact chunkLoop_of_round hi hstep.le hround hrest
    · refine ⟨fun _ hlt => absurd hlt hi, fun _ => ⟨[], ?_⟩⟩
      simp [chunkLoop, hi]

variable (ossl : OpenSSL)

/-- `input` opens block by block; so do the other three. -/
def PublicDecrypts (rsa : RSA) (input : Bytes) : Prop :=
  Rounds (fun _ => ossl.publicDecrypt rsa) rsa.size input.length
    (int32 input.length - ·) input 0

def PrivateDecrypts (rsa : RSAKey) (input : Bytes) : Prop :=
  Rounds (fun _ => ossl.privateDecrypt rsa) rsa.size input.length
    (fun i => int32 (input.length - i)) input 0

def PublicEncrypts (draw : Nat) (rsa : RSA) (input : Bytes) : Prop :=
  Rounds (fun i => ossl.publicEncrypt (draw + i) rsa) (rsa.size - 11) (int32 input.length).toNat
    (int32 input.length - ·) input 0

def PrivateEncrypts (rsa : RSAKey) (input : Bytes) : Prop :=
  Rounds (fun _ => ossl.privateEncrypt rsa) (rsa.size - 11) input.length
    (int32 input.length - ·) input 0

theorem rsaPublicDecrypt_returns_iff (rsa : RSA) (input : Bytes) :
    (∃ out, rsaPublicDecrypt ossl rsa input = .ok out) ↔ PublicDecrypts ossl rsa input :=
  chunkLoop_returns_iff _ _ (by omega) (by omega)

theorem rsaPrivateDecrypt_returns_iff (rsa : RSAKey) (input : Bytes) :
    (∃ out, rsaPrivateDecrypt ossl rsa input = .ok out) ↔ PrivateDecrypts ossl rsa input :=
  chunkLoop_returns_iff _ _ (by omega) (by omega)

theorem rsaPublicEncrypt_returns_iff (draw : Nat) (rsa : RSA) (input : Bytes) :
    (∃ out, rsaPublicEncrypt ossl draw rsa input = .ok out) ↔
      PublicEncrypts ossl draw rsa input := by
  refine chunkLoop_returns_iff _ _ ?_ (by omega)
  have hle := int32_le input.length
  omega

theorem rsaPrivateEncrypt_returns_iff (rsa : RSAKey) (input : Bytes) :
    (∃ out, rsaPrivateEncrypt ossl rsa input = .ok out) ↔ PrivateEncrypts ossl rsa input :=
  chunkLoop_returns_iff _ _ (by omega) (by omega)

end

-- ---------------------------------------------------------------------------
-- A library to compute with
-- ---------------------------------------------------------------------------

def randomFiller (draw len : Nat) : Bytes :=
  (List.range len).map fun j => UInt8.ofNat (1 + (draw + j) % 255)

/-- What the library asks of a key before it computes with it: an odd modulus,
for Montgomery's multiplication, and in a public key an exponent below it. -/
def RSA.Usable (rsa : RSA) : Prop := rsa.n % 2 = 1 ∧ rsa.e < rsa.n

instance (rsa : RSA) : Decidable rsa.Usable := inferInstanceAs (Decidable (_ ∧ _))

/-- PKCS#1 v1.5 over modular exponentiation, as the library computes it but
for the random octets. It reads no certificate. -/
def openSSL : OpenSSL where
  publicEncrypt draw rsa block :=
    if rsa.Usable then Lib.Rsa.encryptBlock 2 (randomFiller draw) rsa.n rsa.e block else none
  privateDecrypt key block :=
    if key.n % 2 = 1 then Lib.Rsa.decryptBlock 2 (· != 0) key.n key.d block else none
  privateEncrypt key block :=
    if key.n % 2 = 1 then Lib.Rsa.encryptBlock 1 (List.replicate · 255) key.n key.d block
    else none
  publicDecrypt rsa block :=
    if rsa.Usable then Lib.Rsa.decryptBlock 1 (· == 255) rsa.n rsa.e block else none
  X509 := Empty
  EvpPkey := Empty
  d2iX509 _ := none
  x509GetPubkey x := x.elim
  evpPkeyGet1RSA x := x.elim

theorem randomFiller_ne_zero (h : b ∈ randomFiller draw len) : (b != 0) = true := by
  obtain ⟨j, -, rfl⟩ := List.mem_map.mp h
  have hlt := Nat.mod_lt (draw + j) (show 255 > 0 by decide)
  have hnat : (UInt8.ofNat (1 + (draw + j) % 255)).toNat = 1 + (draw + j) % 255 := by
    rw [UInt8.toNat_ofNat']
    omega
  simp only [bne_iff_ne, ne_eq]
  intro h0
  rw [h0] at hnat
  simp at hnat
  omega

theorem openSSL_keyPair (hlarge : 11 < numBytes n) (husable : RSA.Usable ⟨n, e⟩)
    (hed : Lib.Rsa.Undoes n e d) (hde : Lib.Rsa.Undoes n d e) :
    openSSL.KeyPair ⟨⟨n, e⟩, d⟩ := by
  refine ⟨hlarge, fun draw block hblock => ?_, fun block hblock => ?_⟩
  · have hfit : block.length + 11 ≤ numBytes n := by
      simp only [RSA.size] at hblock
      omega
    simp only [openSSL, if_pos husable, if_pos husable.1]
    exact Lib.Rsa.decryptBlock_encryptBlock (randomFiller draw) (· != 0) hed
      (fun k => by simp [randomFiller]) (fun _ _ => randomFiller_ne_zero) rfl hfit
  · have hfit : block.length + 11 ≤ numBytes n := by
      simp only [RSA.size] at hblock
      omega
    simp only [openSSL, if_pos husable, if_pos husable.1]
    exact Lib.Rsa.decryptBlock_encryptBlock (List.replicate · 255) (· == 255) hde (by simp)
      (fun _ _ hb => by simp [List.eq_of_mem_replicate hb]) rfl hfit

def sampleP : Nat := 3 * 2 ^ 41 + 1
def sampleQ : Nat := 3 * 2 ^ 66 + 1

theorem sampleP_prime : sampleP.Prime :=
  Lib.Rsa.prime_of_order (k := 41) 10 (by decide) (by decide +kernel) (by decide +kernel)
    (by decide +kernel)

theorem sampleQ_prime : sampleQ.Prime :=
  Lib.Rsa.prime_of_order (k := 66) 10 (by decide) (by decide +kernel) (by decide +kernel)
    (by decide +kernel)

theorem openSSL_keyPair_of_primes (hp : p.Prime) (hq : q.Prime) (hne : p ≠ q)
    (hlarge : 11 < numBytes (p * q)) (husable : RSA.Usable ⟨p * q, e⟩)
    (hedp : e * d % (p - 1) = 1) (hedq : e * d % (q - 1) = 1) :
    openSSL.KeyPair ⟨⟨p * q, e⟩, d⟩ := by
  refine openSSL_keyPair hlarge husable ?_ ?_
  · exact Lib.Rsa.undoes_of_primes hp hq hne hedp hedq
  · refine Lib.Rsa.undoes_of_primes hp hq hne ?_ ?_
    · rwa [Nat.mul_comm]
    · rwa [Nat.mul_comm]

def sampleKey : RSAKey := ⟨⟨sampleP * sampleQ, 65537⟩, 92233438897865949185⟩

theorem sampleKey_keyPair : openSSL.KeyPair sampleKey :=
  openSSL_keyPair_of_primes sampleP_prime sampleQ_prime (by decide +kernel) (by decide +kernel)
    (by decide +kernel) (by decide +kernel) (by decide +kernel)

def oddKey : RSAKey := ⟨⟨sampleP * sampleQ, 5⟩, 88544371553805847757⟩

theorem oddKey_keyPair : openSSL.KeyPair oddKey :=
  openSSL_keyPair_of_primes sampleP_prime sampleQ_prime (by decide +kernel) (by decide +kernel)
    (by decide +kernel) (by decide +kernel) (by decide +kernel)

def peerP : Nat := 3 * 2 ^ 30 + 1
def peerQ : Nat := 3 * 2 ^ 189 + 1

theorem peerP_prime : peerP.Prime :=
  Lib.Rsa.prime_of_order (k := 30) 5 (by decide) (by decide +kernel) (by decide +kernel)
    (by decide +kernel)

theorem peerQ_prime : peerQ.Prime :=
  Lib.Rsa.prime_of_order (k := 189) 10 (by decide) (by decide +kernel) (by decide +kernel)
    (by decide +kernel)

def peerKey : RSAKey :=
  ⟨⟨peerP * peerQ, 65537⟩, 784541937413510314351807843495611586929465893160130379777⟩

theorem peerKey_keyPair : openSSL.KeyPair peerKey :=
  openSSL_keyPair_of_primes peerP_prime peerQ_prime (by decide +kernel) (by decide +kernel)
    (by decide +kernel) (by decide +kernel) (by decide +kernel)

/-- An element in DER, of a length that one octet can tell. -/
def der (tag : UInt8) (body : Bytes) : Bytes :=
  let length := UInt8.ofNat body.length
  if body.length < 128 then tag :: length :: body else tag :: 0x81 :: length :: body

/-- A version 1 certificate with a signature that nobody looks at. -/
def certificate (commonName : Bytes) (rsa : RSA) : Bytes :=
  let algorithm := der 0x30 (der 0x06 (minBE 0x2a864886f70d01010b) ++ der 0x05 [])
  let name := der 0x30 (der 0x31 (der 0x30 (der 0x06 [0x55, 0x04, 0x03] ++ der 0x0c commonName)))
  let validity := der 0x30 (der 0x17 (text "140101000000Z") ++ der 0x17 (text "340101000000Z"))
  let key := der 0x30 (der 0x02 (minBE rsa.n) ++ der 0x02 (minBE rsa.e))
  let info := der 0x30
    (der 0x30 (der 0x06 (minBE 0x2a864886f70d010101) ++ der 0x05 []) ++ der 0x03 (0 :: key))
  let tbs := der 0x30 (der 0x02 [1] ++ algorithm ++ name ++ validity ++ name ++ info)
  der 0x30 (tbs ++ algorithm ++ der 0x03 (0 :: List.replicate 14 1))

theorem rsa_layers_undo_sample :
    (do
      let encrypted ← rsaPublicEncrypt openSSL 7 sampleKey.toRSA (List.replicate 20 1)
      let singned ← rsaPrivateEncrypt openSSL oddKey encrypted
      let opened ← rsaPublicDecrypt openSSL oddKey.toRSA singned
      rsaPrivateDecrypt openSSL sampleKey opened) = .ok (List.replicate 20 1) :=
  rsa_layers_undo openSSL sampleKey_keyPair oddKey_keyPair (by decide +kernel) 7

theorem slices_wellCut_iff_sample :
    WellCut 20 0 (publicEncryptSlices openSSL 7 sampleKey.toRSA (List.replicate 20 1)) :=
  (slices_wellCut_iff openSSL 7 sampleKey (List.replicate 20 1) (by decide +kernel)).1.mpr
    (.inr (by decide +kernel))

/-- A modulus of eleven octets: every block is empty and the loop stands still. -/
theorem slices_short_key :
    ¬ ∀ (ossl : OpenSSL) (draw : Nat) (key : RSAKey) (input : Bytes),
      input.length < 2 ^ 31 - key.size →
      WellCut input.length 0 (publicEncryptSlices ossl draw key.toRSA input) ∧
        WellCut input.length 0 (privateEncryptSlices ossl key input) ∧
        WellCut input.length 0 (privateDecryptSlices ossl key input) ∧
        WellCut input.length 0 (publicDecryptSlices ossl key.toRSA input) := by
  intro h
  have hcut := (h openSSL 0 ⟨⟨2 ^ 80 + 1, 65537⟩, 65537⟩ [1] (by decide +kernel)).1
  exact hcut.terminates (by decide +kernel)

end Avim
