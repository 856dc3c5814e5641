import Avim.Pool

/-!
# The frame codec

`av_router::encode` and `av_router::decode`, with the two length fields and
the 32-bit arithmetic of the source. A frame is the length of what follows,
the length of the type name, the type name and the serialized message.

The decoder compares the name length with `>=`, so it refuses a frame whose
message serializes to no bytes at all: `decode_encode_iff`. It is safe on a
buffer that holds the fields it reads and a name length that is not negative,
and on no other: `decodeSafe_iff`.
-/

namespace Avim

open Lib.Octets

variable (pb : Protobuf)

def encode (message : pb.Message) : Except Fault Bytes :=
  let typeName := pb.getTypeName message
  let len := int32 typeName.length
  -- `append(c_str, len)` takes `len` as a `size_t`: a negative one is too long
  if len < 0 then .error .lengthError
  else
    let result := List.replicate 4 0 ++ be32 len ++ typeName.take len.toNat
    match pb.appendToString message with
    | some body =>
      let result := result ++ body
      .ok (be32 (int32 result.length - 4) ++ result.drop 4)
    | none => .ok []

/-- `ntohl(*(int32_t*)(ptr + offset))`. `data()` ends in a NUL, which may be
read; anything after it may not. -/
def loadBE32 (buf : Bytes) (offset : Nat) : Except Fault Nat :=
  if offset + 4 ≤ buf.length + 1 then .ok (ofBE (((buf ++ [0]).drop offset).take 4))
  else .error .outOfBounds

def decode (buf : Bytes) : Except Fault (Option pb.Message) := do
  let len := int32 buf.length
  let announced ← loadBE32 buf 0
  -- `int32_t` against `uint32_t`: compared as unsigned
  if uint32 len ≠ uint32 (announced + 4) then return none
  let nameLen := int32 (← loadBE32 buf 4)
  if len - 8 < -2 ^ 31 then throw .overflow
  if nameLen ≥ len - 8 then return none
  -- `std::string(name_begin, name_end)` of a reversed range
  if nameLen < 0 then throw .lengthError
  let typeName := (buf.drop 8).take nameLen.toNat
  match pb.createMessage typeName with
  | none => return none
  | some result =>
    let dataLen := len - (nameLen + 8)
    return pb.parseFromArray result ((buf.drop (8 + nameLen.toNat)).take dataLen.toNat)

-- ---------------------------------------------------------------------------
-- The layout both sides agree on
-- ---------------------------------------------------------------------------

def frame (name body : Bytes) : Bytes :=
  be32 (4 + name.length + body.length : Nat) ++ (be32 name.length ++ (name ++ body))

def frameSize (name body : Bytes) : Nat := 8 + name.length + body.length

@[simp] theorem length_frame (name body : Bytes) :
    (frame name body).length = frameSize name body := by
  simp [frame, frameSize]
  omega

theorem loadBE32_append (pre word post : Bytes) (h : word.length = 4) :
    loadBE32 (pre ++ (word ++ post)) pre.length = .ok (ofBE word) := by
  have hr : pre.length + 4 ≤ (pre ++ (word ++ post)).length + 1 := by
    simp [h]
    omega
  have ht : (word ++ (post ++ [0])).take 4 = word := by
    rw [← h]
    exact List.take_left
  simp only [loadBE32, hr, if_true, List.append_assoc, List.drop_left, ht]

theorem encode_eq (hser : pb.appendToString m = some body)
    (hsize : frameSize (pb.getTypeName m) body < 2 ^ 31) :
    encode pb m = .ok (frame (pb.getTypeName m) body) := by
  unfold frameSize at hsize
  have hlen : int32 ((pb.getTypeName m).length : Nat) = ((pb.getTypeName m).length : Nat) :=
    int32_of_lt (by omega)
  have htotal : int32 ((8 + (pb.getTypeName m).length + body.length : Nat) : Int) =
      (8 + (pb.getTypeName m).length + body.length : Nat) := int32_of_lt (by omega)
  have hfill : (8 + (pb.getTypeName m).length + body.length : Nat) - (4 : Int) =
      (4 + (pb.getTypeName m).length + body.length : Nat) := by omega
  have hcount : (List.replicate 4 (0 : UInt8) ++ be32 ((pb.getTypeName m).length : Nat) ++
      pb.getTypeName m ++ body).length = 8 + (pb.getTypeName m).length + body.length := by
    simp
    omega
  simp only [encode, hlen, Int.toNat_natCast, List.take_length, hser, hcount, htotal, hfill]
  rw [if_neg (by omega)]
  simp [frame]

theorem decode_frame (hsize : frameSize name body < 2 ^ 31) :
    decode pb (frame name body) =
      .ok (if body = [] then none
        else (pb.createMessage name).bind (pb.parseFromArray · body)) := by
  have hlen : int32 ((frame name body).length : Nat) = (frameSize name body : Nat) := by
    rw [length_frame]
    exact int32_of_lt hsize
  unfold frameSize at hsize
  have hannounced : loadBE32 (frame name body) 0 = .ok (4 + name.length + body.length) := by
    have := loadBE32_append [] (be32 (4 + name.length + body.length : Nat))
      (be32 name.length ++ (name ++ body)) (length_be32 _)
    rw [ofBE_be32 (by omega)] at this
    simpa [frame] using this
  have hname : loadBE32 (frame name body) 4 = .ok name.length := by
    have := loadBE32_append (be32 (4 + name.length + body.length : Nat)) (be32 name.length)
      (name ++ body) (length_be32 _)
    rw [ofBE_be32 (by omega), length_be32] at this
    simpa [frame] using this
  have hdrop : (frame name body).drop 8 = name ++ body := by
    have h4 : (be32 (4 + name.length + body.length : Nat) ++ be32 name.length).length = 8 := by simp
    rw [frame, ← List.append_assoc, ← h4]
    exact List.drop_left
  have hbody : (frame name body).drop (8 + name.length) = body := by
    rw [← List.drop_drop, hdrop]
    exact List.drop_left
  have hsigned : int32 (name.length : Nat) = name.length := int32_of_lt (by omega)
  have hword : ((4 + name.length + body.length : Nat) : Int) + 4 = (frameSize name body : Nat) := by
    unfold frameSize
    omega
  simp only [decode, hlen, hannounced, hname, hsigned, ok_bind, pure_eq_ok, throw_eq_error,
    hword, ne_eq, not_true, if_false]
  rw [if_neg (by unfold frameSize; omega)]
  by_cases hb : body = []
  · rw [if_pos (by simp [frameSize, hb]), if_pos hb]
  · have hpos : 0 < body.length := List.length_pos_iff.mpr hb
    rw [if_neg (by unfold frameSize; omega), if_neg (by omega), if_neg hb]
    have hdata : ((frameSize name body : Nat) - ((name.length : Int) + 8)).toNat = body.length := by
      unfold frameSize
      omega
    simp only [Int.toNat_natCast, hdrop, hbody, List.take_left, hdata, List.take_length]
    cases pb.createMessage name <;> rfl

/-- The round trip holds exactly for the messages that serialize to something:
`name_len >= len - 2 * header_len` also refuses a name that fills the frame. -/
theorem decode_encode_iff (hparse : pb.ParseUndoesAppend) (hreg : pb.Registered m)
    (hser : pb.appendToString m = some body)
    (hsize : frameSize (pb.getTypeName m) body < 2 ^ 31) :
    (encode pb m >>= decode pb) = .ok (some m) ↔ body ≠ [] := by
  obtain ⟨prototype, hp⟩ := Option.isSome_iff_exists.mp hreg
  have hrun : (encode pb m >>= decode pb) = .ok (if body = [] then none else some m) := by
    rw [encode_eq pb hser hsize, ok_bind, decode_frame pb hsize, hp, Option.bind_some,
      hparse m prototype body hp hser]
  rw [hrun]
  by_cases hb : body = [] <;> simp [hb]

theorem decode_encode_iff_descriptorSet :
    (encode (pool .consecutive) (.fileDescriptorSet [⟨none, none⟩]) >>=
        decode (pool .consecutive)) = .ok (some (.fileDescriptorSet [⟨none, none⟩])) :=
  have hser : (pool .consecutive).appendToString (.fileDescriptorSet [⟨none, none⟩]) =
      some [10, 0] := rfl
  (decode_encode_iff (pool .consecutive) (pool_parses _) (pool_registered _ _) hser (by decide)).mpr
    (by decide)

/-- An empty `FileDescriptorSet` is registered, serializes to nothing and is
refused by the decoder. -/
theorem decode_encode_empty :
    ¬ ∀ (pb : Protobuf) (m : pb.Message) (body : Bytes), pb.ParseUndoesAppend → pb.Registered m →
      pb.appendToString m = some body → frameSize (pb.getTypeName m) body < 2 ^ 31 →
      (encode pb m >>= decode pb) = .ok (some m) := by
  intro h
  have hser : (pool .consecutive).appendToString (.fileDescriptorSet []) = some [] := rfl
  have hrun := h (pool .consecutive) (.fileDescriptorSet []) [] (pool_parses _)
    (pool_registered _ _) hser (by decide)
  rw [encode_eq _ hser (by decide), ok_bind, decode_frame _ (by decide), if_pos rfl] at hrun
  cases hrun

-- ---------------------------------------------------------------------------
-- What the decoder touches
-- ---------------------------------------------------------------------------

inductive Access
  -- the four octets of a length field
  | word (offset : Nat)
  -- `[name_begin, name_end)`
  | name (start : Nat) (length : Int)
  -- `data` and `data_len`
  | data (start : Nat) (length : Int)
  deriving DecidableEq, Repr

/-- The NUL behind the text may be read, but it is not part of the text. -/
def Access.Inside (buf : Bytes) : Access → Prop
  | .word offset => offset + 4 ≤ buf.length
  | .name start length => 0 ≤ length ∧ start + length ≤ buf.length
  | .data start length => 0 ≤ length ∧ start + length = buf.length

/-- `decode` with what it touches of `buf`, in order and up to where it stops. -/
def decodeAccesses (buf : Bytes) : List Access × Except Fault (Option pb.Message) :=
  let len := int32 buf.length
  match loadBE32 buf 0 with
  | .error f => ([.word 0], .error f)
  | .ok announced =>
    if uint32 len ≠ uint32 (announced + 4) then ([.word 0], .ok none)
    else
      match loadBE32 buf 4 with
      | .error f => ([.word 0, .word 4], .error f)
      | .ok word =>
        let nameLen := int32 word
        if len - 8 < -2 ^ 31 then ([.word 0, .word 4], .error .overflow)
        else if nameLen ≥ len - 8 then ([.word 0, .word 4], .ok none)
        else if nameLen < 0 then ([.word 0, .word 4, .name 8 nameLen], .error .lengthError)
        else
          match pb.createMessage ((buf.drop 8).take nameLen.toNat) with
          | none => ([.word 0, .word 4, .name 8 nameLen], .ok none)
          | some result =>
            let dataLen := len - (nameLen + 8)
            ([.word 0, .word 4, .name 8 nameLen, .data (8 + nameLen.toNat) dataLen],
              .ok (pb.parseFromArray result ((buf.drop (8 + nameLen.toNat)).take dataLen.toNat)))

theorem decodeAccesses_result (buf : Bytes) : (decodeAccesses pb buf).2 = decode pb buf := by
  cases h0 : loadBE32 buf 0 with
  | error f => simp only [decodeAccesses, decode, h0, error_bind]
  | ok announced =>
    simp only [decodeAccesses, decode, h0, ok_bind]
    split
    · simp only [pure_eq_ok]
    · cases h4 : loadBE32 buf 4 with
      | error f => simp only [error_bind]
      | ok word =>
        simp only [ok_bind]
        split
        · simp only [throw_eq_error, error_bind]
        · split
          · simp only [pure_eq_ok]
          · split
            · simp only [throw_eq_error, error_bind]
            · cases pb.createMessage ((buf.drop 8).take (int32 word).toNat) <;>
                simp only [pure_eq_ok]

/-- What the layout promises: a name the pool knows and a body that it parses. -/
def WellFormed (buf : Bytes) : Prop :=
  ∃ name body prototype m, buf = frame name body ∧ pb.createMessage name = some prototype ∧
    pb.parseFromArray prototype body = some m

/-- Nothing outside `buf` is touched, the name and the data are ranges of it,
and what is no frame yields null. -/
def DecodeSafe (buf : Bytes) : Prop :=
  (∀ access ∈ (decodeAccesses pb buf).1, access.Inside buf) ∧
    (¬ WellFormed pb buf → (decodeAccesses pb buf).2 = .ok none)

section Layout

variable {buf : Bytes}

theorem loadBE32_zero (h : 4 ≤ buf.length) : loadBE32 buf 0 = .ok (ofBE (buf.take 4)) := by
  rw [loadBE32, if_pos (by omega), List.drop_zero, List.take_append_of_le_length h]

theorem loadBE32_four (h : 8 ≤ buf.length) : loadBE32 buf 4 = .ok (ofBE ((buf.drop 4).take 4)) := by
  have hle : 4 ≤ (buf.drop 4).length := by
    rw [List.length_drop]
    omega
  rw [loadBE32, if_pos (by omega), List.drop_append_of_le_length (by omega),
    List.take_append_of_le_length hle]

theorem announced_eq_iff (h4 : 4 ≤ buf.length) (hlen : buf.length < 2 ^ 31) :
    uint32 (int32 buf.length) = uint32 ((ofBE (buf.take 4) : Nat) + 4) ↔
      ofBE (buf.take 4) + 4 = buf.length := by
  have hlt : ofBE (buf.take 4) < 2 ^ 32 := ofBE_four_lt (List.length_take_of_le h4)
  rw [int32_of_lt hlen, uint32_of_lt (by omega)]
  unfold uint32
  omega

theorem frame_of_fields (h8 : 8 ≤ buf.length) (hannounced : ofBE (buf.take 4) + 4 = buf.length)
    (hname : 8 + ofBE ((buf.drop 4).take 4) ≤ buf.length) :
    buf = frame ((buf.drop 8).take (ofBE ((buf.drop 4).take 4)))
      (buf.drop (8 + ofBE ((buf.drop 4).take 4))) := by
  have hnameLen : ((buf.drop 8).take (ofBE ((buf.drop 4).take 4))).length =
      ofBE ((buf.drop 4).take 4) := by
    rw [List.length_take_of_le]
    rw [List.length_drop]
    omega
  have htotal : 4 + ((buf.drop 8).take (ofBE ((buf.drop 4).take 4))).length +
      (buf.drop (8 + ofBE ((buf.drop 4).take 4))).length = ofBE (buf.take 4) := by
    rw [hnameLen, List.length_drop]
    omega
  have hword : ((buf.drop 4).take 4).length = 4 := by
    rw [List.length_take_of_le]
    rw [List.length_drop]
    omega
  rw [frame, htotal, hnameLen, be32_ofBE (List.length_take_of_le (by omega)), be32_ofBE hword,
    ← List.drop_drop, List.take_append_drop, ← List.drop_drop (i := 4) (j := 4),
    List.take_append_drop, List.take_append_drop]

theorem first_access (buf : Bytes) : Access.word 0 ∈ (decodeAccesses pb buf).1 := by
  simp only [decodeAccesses]
  repeat' split
  all_goals simp

theorem decodeAccesses_mismatch (h4 : 4 ≤ buf.length) (hlen : buf.length < 2 ^ 31)
    (h : ofBE (buf.take 4) + 4 ≠ buf.length) :
    decodeAccesses pb buf = ([.word 0], .ok none) := by
  have hne := mt (announced_eq_iff h4 hlen).mp h
  simp only [decodeAccesses, loadBE32_zero h4]
  rw [if_pos hne]

theorem second_access (h4 : 4 ≤ buf.length) (hlen : buf.length < 2 ^ 31)
    (h : ofBE (buf.take 4) + 4 = buf.length) : Access.word 4 ∈ (decodeAccesses pb buf).1 := by
  have heq := (announced_eq_iff h4 hlen).mpr h
  simp only [decodeAccesses, loadBE32_zero h4]
  rw [if_neg (not_not.mpr heq)]
  repeat' split
  all_goals simp

theorem decodeAccesses_fields (h8 : 8 ≤ buf.length) (hlen : buf.length < 2 ^ 31)
    (h : ofBE (buf.take 4) + 4 = buf.length) :
    let nameLen := int32 (ofBE ((buf.drop 4).take 4))
    decodeAccesses pb buf =
      if nameLen ≥ buf.length - 8 then ([.word 0, .word 4], .ok none)
      else if nameLen < 0 then ([.word 0, .word 4, .name 8 nameLen], .error .lengthError)
      else
        match pb.createMessage ((buf.drop 8).take nameLen.toNat) with
        | none => ([.word 0, .word 4, .name 8 nameLen], .ok none)
        | some result =>
          ([.word 0, .word 4, .name 8 nameLen,
            .data (8 + nameLen.toNat) (buf.length - (nameLen + 8))],
            .ok (pb.parseFromArray result ((buf.drop (8 + nameLen.toNat)).take
              (buf.length - (nameLen + 8)).toNat))) := by
  have heq := (announced_eq_iff (by omega) hlen).mpr h
  have hlow : ¬ (buf.length : Int) - 8 < -2 ^ 31 := by omega
  simp only [decodeAccesses, loadBE32_zero (by omega : 4 ≤ buf.length), loadBE32_four h8]
  rw [if_neg (not_not.mpr heq), int32_of_lt hlen, if_neg hlow]

theorem decodeSafe_of_fields (h8 : 8 ≤ buf.length) (hlen : buf.length < 2 ^ 31)
    (h : ofBE (buf.take 4) + 4 = buf.length) (hname : ofBE ((buf.drop 4).take 4) < 2 ^ 31) :
    DecodeSafe pb buf := by
  have hrun := decodeAccesses_fields pb h8 hlen h
  simp only [int32_of_lt hname] at hrun
  by_cases hbig : (ofBE ((buf.drop 4).take 4) : Int) ≥ buf.length - 8
  · rw [if_pos hbig] at hrun
    refine ⟨?_, fun _ => by rw [hrun]⟩
    simp only [hrun, List.forall_mem_cons, Access.Inside]
    exact ⟨by omega, by omega, by simp⟩
  · rw [if_neg hbig, if_neg (by omega)] at hrun
    simp only [Int.toNat_natCast] at hrun
    have hrange : 8 + ofBE ((buf.drop 4).take 4) ≤ buf.length := by omega
    have hframe := frame_of_fields h8 h hrange
    cases hcreate : pb.createMessage ((buf.drop 8).take (ofBE ((buf.drop 4).take 4))) with
    | none =>
      simp only [hcreate] at hrun
      refine ⟨?_, fun _ => by rw [hrun]⟩
      simp only [hrun, List.forall_mem_cons, Access.Inside]
      exact ⟨by omega, by omega, by omega, by simp⟩
    | some result =>
      simp only [hcreate] at hrun
      have hdata : ((buf.length : Int) - (ofBE ((buf.drop 4).take 4) + 8)).toNat =
          (buf.drop (8 + ofBE ((buf.drop 4).take 4))).length := by
        rw [List.length_drop]
        omega
      rw [hdata, List.take_length] at hrun
      refine ⟨?_, fun hill => ?_⟩
      · simp only [hrun, List.forall_mem_cons, Access.Inside]
        refine ⟨by omega, by omega, by omega, ⟨by omega, by push_cast; omega⟩, by simp⟩
      · cases hparse : pb.parseFromArray result (buf.drop (8 + ofBE ((buf.drop 4).take 4))) with
        | none => rw [hrun, hparse]
        | some m => exact absurd ⟨_, _, result, m, hframe, hcreate, hparse⟩ hill

end Layout

/-- Both fields are read before their presence is known, and the sign of the
name length is never looked at. -/
theorem decodeSafe_iff (hlen : buf.length < 2 ^ 31) :
    DecodeSafe pb buf ↔ 4 ≤ buf.length ∧ (ofBE (buf.take 4) + 4 = buf.length →
      8 ≤ buf.length ∧ ofBE ((buf.drop 4).take 4) < 2 ^ 31) := by
  constructor
  · intro h
    have h4 : 4 ≤ buf.length := by simpa [Access.Inside] using h.1 _ (first_access pb buf)
    refine ⟨h4, fun heq => ?_⟩
    have h8 : 8 ≤ buf.length := by
      simpa [Access.Inside] using h.1 _ (second_access pb h4 hlen heq)
    refine ⟨h8, ?_⟩
    by_contra hbig
    have hword : ofBE ((buf.drop 4).take 4) < 2 ^ 32 := ofBE_four_lt (by simp; omega)
    have hneg : int32 (ofBE ((buf.drop 4).take 4)) < 0 := by
      unfold int32
      split <;> omega
    have hrun := decodeAccesses_fields pb h8 hlen heq
    simp only at hrun
    rw [if_neg (by omega), if_pos hneg] at hrun
    have hname := h.1 (.name 8 (int32 (ofBE ((buf.drop 4).take 4)))) (by simp [hrun])
    exact absurd hname.1 (by omega)
  · rintro ⟨h4, hfields⟩
    by_cases heq : ofBE (buf.take 4) + 4 = buf.length
    · exact decodeSafe_of_fields pb (hfields heq).1 hlen heq (hfields heq).2
    · have hrun := decodeAccesses_mismatch pb h4 hlen heq
      refine ⟨?_, fun _ => by rw [hrun]⟩
      simpa [hrun, Access.Inside] using h4

theorem decodeSafe_iff_two_fields : DecodeSafe (pool .consecutive) [0, 0, 0, 4, 0, 0, 0, 0] :=
  (decodeSafe_iff _ (by decide)).mpr ⟨by decide, fun _ => ⟨by decide, by decide +kernel⟩⟩

/-- A name length of -1 passes the test and asks for a text that ends before
it begins. -/
theorem decode_negative_name_length :
    ¬ ∀ (pb : Protobuf) (buf : Bytes), buf.length < 2 ^ 31 → DecodeSafe pb buf := by
  intro h
  have hsafe := h (pool .consecutive) [0, 0, 0, 5, 255, 255, 255, 255, 0] (by decide)
  have htouched : (decodeAccesses (pool .consecutive) [0, 0, 0, 5, 255, 255, 255, 255, 0]).1 =
      [.word 0, .word 4, .name 8 (-1)] := by decide +kernel
  have hname := hsafe.1 (.name 8 (-1)) (by simp [htouched])
  exact absurd hname.1 (by decide)

end Avim
