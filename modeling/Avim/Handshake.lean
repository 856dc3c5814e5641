import Avim.AvJackIf
import Avim.Avif

/-!
# Logging in

`avjackif::async_handshake` and `handshake`. Two frames are read and each is
taken for the message it should be: what `decode` returns is cast and used
without a look. The callers hand in a plain `yield_context`, so an error on the
socket is thrown.

The messages of the handshake are generated from the missing submodule and are
a parameter, as `Protobuf` is.
-/

namespace Avim

open Lib.Octets

-- ---------------------------------------------------------------------------
-- One frame
-- ---------------------------------------------------------------------------

/-- A read with `transfer_exactly(k)`: no more than `k` octets of the buffer. -/
def asyncReadExactly (k : Nat) (buffer stream : Bytes) : ReadResult :=
  let front := asyncRead (buffer.take k) stream
  ⟨front.buffer ++ buffer.drop k, front.failed, front.rest⟩

/-- What a site takes from the socket and where it puts it: `copies` are the
offsets and lengths written to `buf`, which is `size` octets long. `buf` is
what it holds when the frame arrived whole. -/
structure FrameRead where
  prefixTaken : Nat
  bodyTaken : Nat
  size : Nat
  copies : List (Nat × Nat)
  buf : Bytes
  failed : Bool
  rest : Bytes
  deriving DecidableEq, Repr

/-- The body of a frame, once its prefix is in `header`. -/
def readBody (prefixTaken : Nat) (header : ReadResult) : FrameRead :=
  let hostl := ofBE header.buffer
  let body := asyncReadExactly hostl (List.replicate hostl 0) header.rest
  let bodyTaken := header.rest.length - body.rest.length
  ⟨prefixTaken, bodyTaken, uint32 (hostl + 4), [(0, 4), (4, bodyTaken)],
    header.buffer ++ body.buffer, body.failed, body.rest⟩

/-- A site of the handshake, where a read that fails throws. `l` is what the
length variable held before. -/
def readFrame (exactly : Nat) (l stream : Bytes) : FrameRead :=
  let header := asyncReadExactly exactly l stream
  let prefixTaken := stream.length - header.rest.length
  if header.failed then ⟨prefixTaken, 0, 0, [], [], true, header.rest⟩
  else readBody prefixTaken header

def serverHelloFrame (l stream : Bytes) : FrameRead := readFrame 4 l stream

/-- `transfer_exactly(hostl)`, with the count that the body of the
`server_hello` left in `hostl`. -/
def loginResultFrame (hostl : Nat) (l stream : Bytes) : FrameRead := readFrame hostl l stream

/-- No completion condition: the whole of `l`. With `yield_context[ec]` a prefix
that does not arrive whole stops nothing: what `l` held makes it up, and the
body is read all the same. -/
def packetFrame (l stream : Bytes) : FrameRead :=
  let header := asyncRead l stream
  readBody (stream.length - header.rest.length) header

def FrameRead.overruns (r : FrameRead) : Bool := r.copies.any fun c => r.size < c.1 + c.2

theorem asyncReadExactly_eq (h : buffer.length ≤ k) (stream : Bytes) :
    asyncReadExactly k buffer stream = asyncRead buffer stream := by
  simp [asyncReadExactly, List.take_of_length_le h, List.drop_of_length_le h]

theorem asyncRead_short (h : stream.length < buffer.length) :
    (asyncRead buffer stream).failed = true ∧ (asyncRead buffer stream).rest = [] := by
  rw [asyncRead, if_neg (by omega)]
  exact ⟨rfl, rfl⟩

theorem asyncRead_enough (h : buffer.length ≤ stream.length) :
    asyncRead buffer stream = ⟨stream.take buffer.length, false, stream.drop buffer.length⟩ :=
  if_pos h

section Sites

variable {exactly n : Nat} {l body stream : Bytes}

theorem readFrame_short (hl : l.length = 4) (he : 4 ≤ exactly) (h : stream.length < 4) :
    readFrame exactly l stream = ⟨stream.length, 0, 0, [], [], true, []⟩ := by
  have hshort : stream.length < l.length := by omega
  obtain ⟨hfailed, hrest⟩ := asyncRead_short hshort
  simp only [readFrame, asyncReadExactly_eq (show l.length ≤ exactly by omega), hfailed, hrest]
  simp

theorem readFrame_headed (hl : l.length = 4) (he : 4 ≤ exactly) (h : 4 ≤ stream.length) :
    readFrame exactly l stream =
      let n := ofBE (stream.take 4)
      let taken := min n (stream.length - 4)
      ⟨4, taken, uint32 (n + 4), [(0, 4), (4, taken)],
        stream.take 4 ++ (asyncRead (List.replicate n 0) (stream.drop 4)).buffer,
        decide (stream.length < 4 + n), stream.drop (4 + n)⟩ := by
  have hheader : asyncRead l stream = ⟨stream.take 4, false, stream.drop 4⟩ := by
    rw [asyncRead_enough (by omega), hl]
  have hfailed : (asyncRead (List.replicate (ofBE (stream.take 4)) 0) (stream.drop 4)).failed =
      decide (stream.length < 4 + ofBE (stream.take 4)) := by
    unfold asyncRead
    split <;> simp at * <;> omega
  have hbody : asyncReadExactly (ofBE (stream.take 4)) (List.replicate (ofBE (stream.take 4)) 0)
      (stream.drop 4) = asyncRead (List.replicate (ofBE (stream.take 4)) 0) (stream.drop 4) :=
    asyncReadExactly_eq (by simp) _
  simp only [readFrame, readBody, asyncReadExactly_eq (show l.length ≤ exactly by omega), hheader,
    hbody, hfailed, asyncRead_rest, List.length_replicate, List.drop_drop, List.length_drop,
    Bool.false_eq_true, if_false]
  have hfour : stream.length - (stream.length - 4) = 4 := by omega
  have htaken : stream.length - 4 - (stream.length - (4 + ofBE (stream.take 4))) =
      min (ofBE (stream.take 4)) (stream.length - 4) := by omega
  rw [hfour, htaken]

theorem readFrame_agree (hl : l.length = 4) (he : 4 ≤ exactly) (hl' : l'.length = 4)
    (he' : 4 ≤ exactly') : readFrame exactly l stream = readFrame exactly' l' stream := by
  by_cases h : stream.length < 4
  · rw [readFrame_short hl he h, readFrame_short hl' he' h]
  · rw [readFrame_headed hl he (by omega), readFrame_headed hl' he' (by omega)]

theorem readFrame_whole (hl : l.length = 4) (he : 4 ≤ exactly) (hn : n < 2 ^ 32)
    (hbody : body.length = n) (rest : Bytes) :
    readFrame exactly l (be32 n ++ body ++ rest) =
      ⟨4, n, uint32 (n + 4), [(0, 4), (4, n)], be32 n ++ body, false, rest⟩ := by
  have htake : (be32 n ++ body ++ rest).take 4 = be32 n := by
    rw [List.append_assoc, List.take_left' (length_be32 _)]
  have hdrop : (be32 n ++ body ++ rest).drop 4 = body ++ rest := by
    rw [List.append_assoc, List.drop_left' (length_be32 _)]
  have hrest : (be32 n ++ body ++ rest).drop (4 + n) = rest := by
    rw [← List.drop_drop, hdrop, List.drop_left' hbody]
  have hread : asyncRead (List.replicate n 0) (body ++ rest) = ⟨body, false, rest⟩ :=
    asyncRead_append (by simp [hbody])
  have hlen : (be32 n ++ body ++ rest).length = 4 + n + rest.length := by
    simp [hbody, Nat.add_assoc]
  have hmin : min n (4 + n + rest.length - 4) = n := by omega
  rw [readFrame_headed hl he (by omega)]
  simp only [htake, ofBE_be32 hn, hdrop, hrest, hread, hlen, hmin]
  simp

theorem packetFrame_headed (hl : l.length = 4) (h : 4 ≤ stream.length) :
    packetFrame l stream = readFrame 4 l stream := by
  have hheader : asyncRead l stream = ⟨stream.take 4, false, stream.drop 4⟩ := by
    rw [asyncRead_enough (by omega), hl]
  simp [packetFrame, readFrame, asyncReadExactly_eq (show l.length ≤ 4 by omega), hheader]

theorem packetFrame_short (h : stream.length < l.length) :
    packetFrame l stream =
      let n := ofBE (stream ++ l.drop stream.length)
      ⟨stream.length, 0, uint32 (n + 4), [(0, 4), (4, 0)],
        stream ++ l.drop stream.length ++ List.replicate n 0, decide (0 < n), []⟩ := by
  have hheader : asyncRead l stream = ⟨stream ++ l.drop stream.length, true, []⟩ :=
    if_neg (by omega)
  have hbody : ∀ n, asyncReadExactly n (List.replicate n 0) [] =
      ⟨List.replicate n 0, decide (0 < n), []⟩ := by
    intro n
    rw [asyncReadExactly_eq (by simp)]
    cases n <;> simp [asyncRead]
  simp [packetFrame, readBody, hheader, hbody]

end Sites

theorem overruns_iff {n : Nat} (r : FrameRead) (hn : n < 2 ^ 32) (hsize : r.size = uint32 (n + 4))
    (hcopies : r.copies = [(0, 4), (4, taken)]) (htaken : taken ≤ n) :
    r.overruns = true ↔ uint32 (n + 4) < 4 + n := by
  simp only [FrameRead.overruns, hcopies, hsize, List.any_cons, List.any_nil, Bool.or_false,
    Bool.or_eq_true, decide_eq_true_eq]
  unfold uint32
  omega

theorem length_asyncRead (buffer stream : Bytes) :
    (asyncRead buffer stream).buffer.length = buffer.length := by
  rw [asyncRead_buffer, List.length_append, List.length_take, List.length_drop]
  omega

/-- On every stream `async_read_packet` is its site and `decode`. -/
theorem asyncReadPacket_packetFrame (pb : Protobuf) (hl : l.length = 4) (stream : Bytes) :
    asyncReadPacket pb l stream =
      if (packetFrame l stream).overruns then .error .outOfBounds
      else (decode pb (packetFrame l stream).buf).map fun m =>
        ⟨m.bind pb.toAvPacket, (packetFrame l stream).failed, (packetFrame l stream).rest⟩ := by
  have hlt : ofBE (asyncRead l stream).buffer < 2 ^ 32 :=
    ofBE_four_lt (by rw [length_asyncRead, hl])
  have hlength : (List.replicate (ofBE (asyncRead l stream).buffer) (0 : UInt8)).length =
      ofBE (asyncRead l stream).buffer := List.length_replicate
  have hbody := asyncReadExactly_eq hlength.le (asyncRead l stream).rest
  have hframe : packetFrame l stream =
      readBody (stream.length - (asyncRead l stream).rest.length) (asyncRead l stream) := rfl
  have hover := overruns_iff (packetFrame l stream) hlt rfl rfl (by
    rw [hbody, asyncRead_rest (List.replicate _ 0), List.length_drop, List.length_replicate]
    omega)
  simp only [asyncReadPacket]
  by_cases hwrap : uint32 ((ofBE (asyncRead l stream).buffer : Nat) + 4) <
      4 + ofBE (asyncRead l stream).buffer
  · rw [if_pos hwrap, if_pos (hover.mpr hwrap)]
    simp only [throw_eq_error, error_bind]
  · rw [if_neg hwrap, if_neg (mt hover.mp hwrap), hframe]
    simp only [readBody, hbody]
    cases decode pb ((asyncRead l stream).buffer ++ (asyncRead
      (List.replicate (ofBE (asyncRead l stream).buffer) 0) (asyncRead l stream).rest).buffer) <;>
      rfl

/-- Four octets for the prefix, `n` for the body, and a buffer of exactly
`n + 4` that holds what is copied into it. -/
structure FrameRead.Sized (r : FrameRead) (n : Nat) : Prop where
  prefixTaken : r.prefixTaken = 4
  bodyTaken : r.bodyTaken = n
  size : r.size = n + 4
  copies : r.copies = [(0, 4), (4, n)]
  inside : ∀ c ∈ r.copies, c.1 + c.2 ≤ r.size

theorem sized_iff {n : Nat} (r : FrameRead) (hfirst : r.prefixTaken = 4) (hbody : r.bodyTaken = n)
    (hsize : r.size = uint32 ((n : Nat) + 4)) (hcopies : r.copies = [(0, 4), (4, n)])
    (hn : n < 2 ^ 32) : r.Sized n ↔ n + 4 < 2 ^ 32 := by
  constructor
  · intro h
    have heq := hsize.symm.trans h.size
    unfold uint32 at heq
    omega
  · intro hfit
    have heq : r.size = n + 4 := by
      rw [hsize]
      exact_mod_cast uint32_of_lt hfit
    refine ⟨hfirst, hbody, heq, hcopies, ?_⟩
    rw [hcopies, heq]
    simp
    omega

theorem decode_some_size (h : decode pb buf = .ok (some m)) : 9 ≤ buf.length := by
  have hpos := decode_some_length pb h
  have hle := int32_le buf.length
  omega

/-- The three sites are sized right for the prefix `n`, and agree on every
stream that announces a length, those of the handshake on any stream. Each has
its own old length; `hostl` is the count the second one uses. -/
def FramesSized (l l' l'' : Bytes) (hostl n : Nat) : Prop :=
  (∀ body rest : Bytes, body.length = n →
    (serverHelloFrame l (be32 n ++ body ++ rest)).Sized n ∧
    (loginResultFrame hostl l' (be32 n ++ body ++ rest)).Sized n ∧
    (packetFrame l'' (be32 n ++ body ++ rest)).Sized n) ∧
  ∀ stream, serverHelloFrame l stream = loginResultFrame hostl l' stream ∧
    (4 ≤ stream.length → loginResultFrame hostl l' stream = packetFrame l'' stream)

/-- `htonl(l) + 4` is computed in 32 bits: the four largest prefixes give a
buffer that does not even hold the prefix. -/
theorem framesSized_iff (pb : Protobuf) (hl : l.length = 4) (hl' : l'.length = 4)
    (hl'' : l''.length = 4) {m : pb.Message} (hhello : decode pb hello = .ok (some m))
    (hhostl : hello.length = 4 + hostl) (hn : n < 2 ^ 32) :
    FramesSized l l' l'' hostl n ↔ n + 4 < 2 ^ 32 := by
  have hexactly : 4 ≤ hostl := by
    have := decode_some_size hhello
    omega
  have hagree : ∀ stream, serverHelloFrame l stream = loginResultFrame hostl l' stream ∧
      (4 ≤ stream.length → loginResultFrame hostl l' stream = packetFrame l'' stream) := by
    intro stream
    refine ⟨readFrame_agree hl le_rfl hl' hexactly, fun hheaded => ?_⟩
    rw [packetFrame_headed hl'' hheaded]
    exact readFrame_agree hl' hexactly hl'' le_rfl
  have hsized : ∀ body rest : Bytes, body.length = n →
      ((serverHelloFrame l (be32 n ++ body ++ rest)).Sized n ↔ n + 4 < 2 ^ 32) := by
    intro body rest hbody
    have hread := readFrame_whole hl (le_refl 4) hn hbody rest
    rw [serverHelloFrame, hread]
    exact sized_iff _ rfl rfl rfl rfl hn
  constructor
  · rintro ⟨h, -⟩
    exact (hsized (List.replicate n 0) [] (by simp)).mp (h _ _ (by simp)).1
  · intro hfit
    refine ⟨fun body rest hbody => ?_, hagree⟩
    have hserver := (hsized body rest hbody).mpr hfit
    have hlogin := hserver
    rw [(hagree _).1] at hlogin
    have hheaded : 4 ≤ (be32 n ++ body ++ rest).length := by
      simp only [List.length_append, length_be32]
      omega
    have hpacket := hlogin
    rw [(hagree _).2 hheaded] at hpacket
    exact ⟨hserver, hlogin, hpacket⟩

theorem decode_sampleFrame :
    decode (pool .consecutive) sampleFrame = .ok (some (.avPacket samplePacket)) := by
  decide +kernel

theorem framesSized_iff_five :
    FramesSized [0, 0, 0, 0] [0, 0, 0, 49] [255, 255, 255, 255] 49 5 :=
  (framesSized_iff (pool .consecutive) rfl rfl rfl decode_sampleFrame (by decide)
    (by decide)).mpr (by decide)

theorem framesSized_wraps :
    ¬ ∀ (pb : Protobuf) (l l' l'' hello : Bytes) (m : pb.Message) (hostl n : Nat),
      l.length = 4 → l'.length = 4 → l''.length = 4 → decode pb hello = .ok (some m) →
      hello.length = 4 + hostl → n < 2 ^ 32 → FramesSized l l' l'' hostl n := by
  intro h
  have hall := h (pool .consecutive) [0, 0, 0, 0] [0, 0, 0, 49] [0, 0, 0, 0] sampleFrame _ 49
    (2 ^ 32 - 1) rfl rfl rfl decode_sampleFrame (by decide) (by decide)
  have hsized := (hall.1 (List.replicate (2 ^ 32 - 1) 0) [] List.length_replicate).1
  have hread := readFrame_whole (l := [0, 0, 0, 0]) (n := 2 ^ 32 - 1) rfl (le_refl 4) (by decide)
    (List.length_replicate (a := 0)) []
  rw [serverHelloFrame, hread] at hsized
  have hsize : uint32 (((2 ^ 32 - 1 : Nat) : Int) + 4) = 2 ^ 32 - 1 + 4 := hsized.size
  exact absurd hsize (by decide)

-- ---------------------------------------------------------------------------
-- The handshake
-- ---------------------------------------------------------------------------

structure ClientHello where
  client : Bytes
  version : Int
  randomG : Bytes
  randomP : Bytes
  randomPubKey : Bytes
  deriving DecidableEq, Repr

structure ServerHello where
  serverAvAddress : Bytes
  randomPubKey : Bytes
  deriving DecidableEq, Repr

structure Login where
  userCert : Bytes
  encrypedRadomKey : Bytes
  deriving DecidableEq, Repr

inductive LoginResultCode
  | loginSucceed
  -- any other value of the enumeration
  | other (code : Nat)
  deriving DecidableEq, Repr

/-- The messages of `user.pb.h`. A cast is `none` where the message has another
type; the source casts all the same. -/
structure UserProto (pb : Protobuf) where
  ofClientHello : ClientHello → pb.Message
  ofLogin : Login → pb.Message
  toServerHello : pb.Message → Option ServerHello
  toLoginResult : pb.Message → Option LoginResultCode

/-- The parameters `DH_generate_parameters_ex` and `DH_generate_key` came up with. -/
structure DH where
  g : Bytes
  p : Bytes
  pubKey : Bytes

/-- The peer, as far as the handshake can tell: what it sends, and whether the
two writes to it go through. -/
structure Router where
  stream : Bytes
  helloSent : Bool
  loginSent : Bool

/-- How the handshake ends when it does not return. -/
inductive Exit
  -- an exception, which its caller gets
  | threw
  | faulted (f : Fault)
  -- a message used as a type that it does not have
  | misread
  deriving DecidableEq, Repr

def Exit.ofFault : Fault → Exit
  | .lengthError => .threw
  | .outOfRange => .threw
  | f => .faulted f

structure LoggedIn where
  verdict : Bool
  remoteAddr : AvAddress
  written : List Bytes
  rest : Bytes
  deriving DecidableEq, Repr

section Handshake

variable (pb : Protobuf) (user : UserProto pb) (ossl : OpenSSL)

def asyncWriteMessage (message : pb.Message) (sent : Bool) : Except Exit Bytes := do
  let tobesend ← (encode pb message).mapError Exit.ofFault
  if sent then return tobesend else throw .threw

/-- The copies into `buf` come before the error of the second read is thrown. -/
def decodeFrame (r : FrameRead) : Except Exit (Option pb.Message) :=
  if r.overruns then .error (.faulted .outOfBounds)
  else if r.failed then .error .threw
  else (decode pb r.buf).mapError Exit.ofFault

/-- `((T*)decode(buf))->...`: neither the pointer nor the type is looked at. -/
def readAs (cast : pb.Message → Option α) (r : FrameRead) : Except Exit α := do
  match ← decodeFrame pb r with
  | none => .error (.faulted .nullPointer)
  | some m =>
    match cast m with
    | none => .error .misread
    | some a => .ok a

def asyncHandshake (dh : DH) (key : RSAKey) (cert : Bytes) (router : Router) (l : Bytes) :
    Except Exit LoggedIn := do
  let clientHello := user.ofClientHello ⟨text "avim", 1, dh.g, dh.p, dh.pubKey⟩
  let tobesend ← asyncWriteMessage pb clientHello router.helloSent
  let first := serverHelloFrame l router.stream
  let serverHello ← readAs pb user.toServerHello first
  let singned ← (rsaPrivateEncrypt ossl key serverHello.randomPubKey).mapError Exit.ofFault
  let login ← asyncWriteMessage pb (user.ofLogin ⟨cert, singned⟩) router.loginSent
  let second := loginResultFrame first.bodyTaken (first.buf.take 4) first.rest
  let loginResult ← readAs pb user.toLoginResult second
  return ⟨loginResult = .loginSucceed, avAddressFromString serverHello.serverAvAddress,
    [tobesend, login], second.rest⟩

def verdict : Except Exit LoggedIn → Option Bool
  | .ok loggedIn => some loggedIn.verdict
  | .error _ => none

/-- The waiting thread goes on when the coroutine notifies it, whatever the
coroutine's result was. An exception leaves the coroutine before that. -/
def notified : Except Exit LoggedIn → Option Bool
  | .ok _ => some true
  | .error _ => none

def handshake (dh : DH) (key : RSAKey) (cert : Bytes) (router : Router) (l : Bytes) :
    Option Bool :=
  notified (asyncHandshake pb user ossl dh key cert router l)

-- ---------------------------------------------------------------------------
-- What the stream says
-- ---------------------------------------------------------------------------

/-- The next frame is whole and decodes to a message of the type asked for. -/
def Delivers (cast : pb.Message → Option α) (stream : Bytes) (a : α) (rest : Bytes) : Prop :=
  ∃ buf m, takeFrame stream = some (buf, rest) ∧ decode pb buf = .ok (some m) ∧ cast m = some a

/-- The connection ends before the next frame does, or the decoder throws. -/
def Breaks (stream : Bytes) : Prop :=
  (takeFrame stream = none ∧ (stream.length < 4 ∨ ofBE (stream.take 4) + 4 < 2 ^ 32)) ∨
    ∃ buf rest f, takeFrame stream = some (buf, rest) ∧ buf.length < 2 ^ 32 ∧
      decode pb buf = .error f ∧ Exit.ofFault f = .threw

theorem readFrame_takeFrame (hl : l.length = 4) (he : 4 ≤ exactly)
    (h : takeFrame stream = some (buf, rest)) :
    readFrame exactly l stream = ⟨4, buf.length - 4, uint32 (buf.length : Nat),
      [(0, 4), (4, buf.length - 4)], buf, false, rest⟩ := by
  obtain ⟨rfl, ⟨body, rfl, hn⟩, -⟩ := takeFrame_framed h
  have hlen : (be32 (body.length : Nat) ++ body).length - 4 = body.length := by simp
  have htotal : ((be32 (body.length : Nat) ++ body).length : Int) = body.length + 4 := by
    simp [Int.add_comm]
  rw [readFrame_whole hl he hn rfl rest, hlen, htotal]

theorem length_takeFrame (h : takeFrame stream = some (buf, rest)) :
    4 ≤ buf.length ∧ buf.length < 2 ^ 32 + 4 := by
  obtain ⟨-, ⟨body, rfl, hn⟩, hlen⟩ := takeFrame_framed h
  exact ⟨by simp, hlen⟩

theorem decodeFrame_some (hl : l.length = 4) (he : 4 ≤ exactly)
    (h : takeFrame stream = some (buf, rest)) :
    decodeFrame pb (readFrame exactly l stream) =
      if buf.length < 2 ^ 32 then (decode pb buf).mapError Exit.ofFault
      else .error (.faulted .outOfBounds) := by
  obtain ⟨h4, hlen⟩ := length_takeFrame h
  have hsum : ((buf.length - 4 : Nat) : Int) + 4 = (buf.length : Nat) := by omega
  have hover := overruns_iff (readFrame exactly l stream) (by omega)
    (by rw [readFrame_takeFrame hl he h, hsum]) (by rw [readFrame_takeFrame hl he h])
    (Nat.le_refl (buf.length - 4))
  rw [hsum] at hover
  by_cases hfit : buf.length < 2 ^ 32
  · have hsize : uint32 (buf.length : Nat) = buf.length := uint32_of_lt hfit
    rw [decodeFrame, if_neg (by rw [hover, hsize]; omega), if_pos hfit,
      readFrame_takeFrame hl he h]
    rfl
  · have hwrap : uint32 (buf.length : Nat) < 4 + (buf.length - 4) := by
      unfold uint32
      omega
    rw [decodeFrame, if_pos (hover.mpr hwrap), if_neg hfit]

theorem decodeFrame_none (hl : l.length = 4) (he : 4 ≤ exactly) (h : takeFrame stream = none) :
    decodeFrame pb (readFrame exactly l stream) =
      if stream.length < 4 ∨ ofBE (stream.take 4) + 4 < 2 ^ 32 then .error .threw
      else .error (.faulted .outOfBounds) := by
  by_cases hshort : stream.length < 4
  · rw [readFrame_short hl he hshort, if_pos (.inl hshort)]
    rfl
  · have h4 : 4 ≤ stream.length := by omega
    have hcut : stream.length < 4 + ofBE (stream.take 4) := by
      by_contra hwhole
      rw [takeFrame, if_pos ⟨h4, by omega⟩] at h
      cases h
    have hword : ofBE (stream.take 4) < 2 ^ 32 := ofBE_four_lt (List.length_take_of_le h4)
    rw [readFrame_headed hl he h4]
    by_cases hfit : ofBE (stream.take 4) + 4 < 2 ^ 32
    · have hsize : uint32 ((ofBE (stream.take 4) : Int) + 4) = ofBE (stream.take 4) + 4 := by
        exact_mod_cast uint32_of_lt hfit
      rw [if_pos (.inr hfit)]
      simp [decodeFrame, FrameRead.overruns, hsize, hcut]
      omega
    · have hsize : uint32 ((ofBE (stream.take 4) : Int) + 4) < 4 := by
        unfold uint32
        omega
      rw [if_neg (by omega)]
      simp [decodeFrame, FrameRead.overruns, hsize]

theorem decode_some_fits (h : takeFrame stream = some (buf, rest))
    (hdecode : decode pb buf = .ok (some m)) : buf.length < 2 ^ 32 := by
  have hlen := (length_takeFrame h).2
  have hpos := decode_some_length pb hdecode
  unfold int32 at hpos
  split at hpos <;> omega

variable {cast : pb.Message → Option α}

theorem readAs_delivers (hl : l.length = 4) (he : 4 ≤ exactly)
    (h : Delivers pb cast stream a rest) :
    readAs pb cast (readFrame exactly l stream) = .ok a ∧
      (readFrame exactly l stream).rest = rest ∧ 4 ≤ (readFrame exactly l stream).bodyTaken ∧
      ((readFrame exactly l stream).buf.take 4).length = 4 := by
  obtain ⟨buf, m, htake, hdecode, hcast⟩ := h
  have hframe := decodeFrame_some pb hl he htake
  rw [if_pos (decode_some_fits pb htake hdecode), hdecode] at hframe
  have hsize := decode_some_size hdecode
  refine ⟨?_, ?_, ?_, ?_⟩
  · simp only [readAs, hframe, mapError_ok, ok_bind, hcast]
  · rw [readFrame_takeFrame hl he htake]
  · rw [readFrame_takeFrame hl he htake]
    show 4 ≤ buf.length - 4
    omega
  · rw [readFrame_takeFrame hl he htake]
    show (buf.take 4).length = 4
    exact List.length_take_of_le (by omega)

theorem readAs_breaks (cast : pb.Message → Option α) (hl : l.length = 4) (he : 4 ≤ exactly)
    (h : Breaks pb stream) :
    readAs pb cast (readFrame exactly l stream) = .error .threw := by
  obtain ⟨htake, hclean⟩ | ⟨buf, rest, f, htake, hfit, hdecode, hthrown⟩ := h
  · have hframe := decodeFrame_none pb hl he htake
    rw [if_pos hclean] at hframe
    simp only [readAs, hframe, error_bind]
  · have hframe := decodeFrame_some pb hl he htake
    rw [if_pos hfit, hdecode] at hframe
    simp only [mapError_error, hthrown] at hframe
    simp only [readAs, hframe, error_bind]

theorem readAs_cases (cast : pb.Message → Option α) (hl : l.length = 4) (he : 4 ≤ exactly)
    (stream : Bytes) :
    (∃ a rest, Delivers pb cast stream a rest) ∨ Breaks pb stream ∨
      ((∀ a rest, ¬ Delivers pb cast stream a rest) ∧ ¬ Breaks pb stream ∧
        ∃ e, readAs pb cast (readFrame exactly l stream) = .error e ∧ e ≠ .threw) := by
  by_cases hd : ∃ a rest, Delivers pb cast stream a rest
  · exact .inl hd
  by_cases hb : Breaks pb stream
  · exact .inr (.inl hb)
  refine .inr (.inr ⟨fun a rest h => hd ⟨a, rest, h⟩, hb, ?_⟩)
  cases htake : takeFrame stream with
  | none =>
    have hframe := decodeFrame_none pb hl he htake
    rw [if_neg fun hclean => hb (.inl ⟨htake, hclean⟩)] at hframe
    exact ⟨.faulted .outOfBounds, by simp only [readAs, hframe, error_bind], by simp⟩
  | some taken =>
    obtain ⟨buf, rest⟩ := taken
    have hframe := decodeFrame_some pb hl he htake
    by_cases hfit : buf.length < 2 ^ 32
    · rw [if_pos hfit] at hframe
      cases hdecode : decode pb buf with
      | error f =>
        rw [hdecode] at hframe
        refine ⟨Exit.ofFault f, ?_, fun hthrown => hb (.inr ⟨buf, rest, f, htake, hfit, hdecode,
          hthrown⟩)⟩
        simp only [readAs, hframe, mapError_error, error_bind]
      | ok message =>
        rw [hdecode] at hframe
        cases message with
        | none =>
          exact ⟨.faulted .nullPointer, by simp only [readAs, hframe, mapError_ok, ok_bind],
            by simp⟩
        | some m =>
          cases hcast : cast m with
          | none =>
            exact ⟨.misread, by simp only [readAs, hframe, mapError_ok, ok_bind, hcast],
              by simp⟩
          | some a => exact absurd ⟨a, rest, buf, m, htake, hdecode, hcast⟩ hd
    · rw [if_neg hfit] at hframe
      exact ⟨.faulted .outOfBounds, by simp only [readAs, hframe, error_bind], by simp⟩

theorem delivers_unique (h : Delivers pb cast stream a rest)
    (h' : Delivers pb cast stream a' rest') : a = a' ∧ rest = rest' := by
  obtain ⟨buf, m, htake, hdecode, hcast⟩ := h
  obtain ⟨buf', m', htake', hdecode', hcast'⟩ := h'
  rw [htake] at htake'
  cases htake'
  rw [hdecode] at hdecode'
  cases hdecode'
  rw [hcast] at hcast'
  cases hcast'
  exact ⟨rfl, rfl⟩

-- ---------------------------------------------------------------------------
-- The verdict
-- ---------------------------------------------------------------------------

def Succeeds (stream : Bytes) : Prop :=
  ∃ rest, Delivers pb user.toLoginResult stream .loginSucceed rest

def RealSuccess (stream : Bytes) : Prop :=
  ∃ hello rest, Delivers pb user.toServerHello stream hello rest ∧ Succeeds pb user rest

/-- What a login may come to: `true` on a real success only, `false` or an
exception on any other stream, and the same answer from the blocking call. -/
structure SoundLogin (real : Prop) (outcome : Except Exit LoggedIn) (blocking : Option Bool) :
    Prop where
  accepted : ∀ r, outcome = .ok r → r.verdict = true → real
  refused : ¬ real → (∃ r, outcome = .ok r ∧ r.verdict = false) ∨ outcome = .error .threw
  same : blocking = verdict outcome

theorem soundLogin_threw (real : Prop) :
    SoundLogin real (.error .threw) (notified (.error .threw)) where
  accepted _ h := by cases h
  refused _ := .inr rfl
  same := rfl

theorem soundLogin_error (h : e ≠ .threw) :
    SoundLogin real (.error e) (notified (.error e)) ↔ real := by
  constructor
  · intro hs
    by_contra hreal
    obtain ⟨r, hr, -⟩ | hthrew := hs.refused hreal
    · cases hr
    · exact h (Except.error.inj hthrew)
  · intro hreal
    exact ⟨fun _ _ _ => hreal, fun hnot => absurd hreal hnot, rfl⟩

theorem soundLogin_ok (r : LoggedIn) :
    SoundLogin real (.ok r) (notified (.ok r)) ↔ r.verdict = true ∧ real := by
  constructor
  · intro hs
    have htrue : r.verdict = true := (Option.some.inj hs.same).symm
    exact ⟨htrue, hs.accepted r rfl htrue⟩
  · rintro ⟨htrue, hreal⟩
    exact ⟨fun _ _ _ => hreal, fun hnot => absurd hreal hnot, congrArg some htrue.symm⟩

def Writes (message : pb.Message) (sent : Bool) : Prop :=
  (∃ buf, encode pb message = .ok buf) ∧ sent = true

theorem encode_error (h : encode pb m = .error f) : f = .lengthError := by
  unfold encode at h
  by_cases hneg : int32 (pb.getTypeName m).length < 0
  · simp only [hneg, if_true] at h
    exact (Except.error.inj h).symm
  · cases hser : pb.appendToString m with
    | none => simp only [hneg, if_false, hser, reduceCtorEq] at h
    | some body => simp only [hneg, if_false, hser, reduceCtorEq] at h

theorem asyncWriteMessage_writes (h : Writes pb m sent) :
    ∃ buf, asyncWriteMessage pb m sent = .ok buf := by
  obtain ⟨⟨buf, hbuf⟩, rfl⟩ := h
  refine ⟨buf, ?_⟩
  simp only [asyncWriteMessage, hbuf, mapError_ok, ok_bind, if_true, pure_eq_ok]

theorem asyncWriteMessage_throws (h : ¬ Writes pb m sent) :
    asyncWriteMessage pb m sent = .error .threw := by
  obtain ⟨f, hbuf⟩ | ⟨buf, hbuf⟩ := except_cases (encode pb m)
  · simp only [asyncWriteMessage, hbuf, encode_error pb hbuf, mapError_error, Exit.ofFault,
      error_bind]
  · have hsent : sent = false := by
      cases sent with
      | false => rfl
      | true => exact absurd ⟨⟨buf, hbuf⟩, rfl⟩ h
    simp only [asyncWriteMessage, hbuf, hsent, mapError_ok, ok_bind, Bool.false_eq_true,
      if_false, throw_eq_error]

variable (dh : DH) (key : RSAKey) (cert : Bytes) (router : Router)

/-- Every reply breaks off cleanly or is the one that is wanted: a
`server_hello` whose random key can be signed, then a success. -/
def CleanReplies : Prop :=
  ¬ Writes pb (user.ofClientHello ⟨text "avim", 1, dh.g, dh.p, dh.pubKey⟩) router.helloSent ∨
  Breaks pb router.stream ∨
  ∃ hello rest, Delivers pb user.toServerHello router.stream hello rest ∧
    ((∃ f, rsaPrivateEncrypt ossl key hello.randomPubKey = .error f ∧
        (Exit.ofFault f = .threw ∨ Succeeds pb user rest)) ∨
      ∃ singned, rsaPrivateEncrypt ossl key hello.randomPubKey = .ok singned ∧
        (¬ Writes pb (user.ofLogin ⟨cert, singned⟩) router.loginSent ∨ Breaks pb rest ∨
          Succeeds pb user rest))

def SoundHandshake (l : Bytes) : Prop :=
  SoundLogin (RealSuccess pb user router.stream)
    (asyncHandshake pb user ossl dh key cert router l)
    (handshake pb user ossl dh key cert router l)

section Replies

variable {dh key cert router} {l : Bytes}

theorem soundLogin_second (hello : ServerHello) (written : List Bytes) (rest : Bytes)
    (hl : l.length = 4) (he : 4 ≤ exactly) :
    let second := loginResultFrame exactly l rest
    let outcome : Except Exit LoggedIn := do
      let loginResult ← readAs pb user.toLoginResult second
      return ⟨loginResult = .loginSucceed, avAddressFromString hello.serverAvAddress, written,
        second.rest⟩
    SoundLogin (Succeeds pb user rest) outcome (notified outcome) ↔
      Breaks pb rest ∨ Succeeds pb user rest := by
  intro second outcome
  have hsecond : second = readFrame exactly l rest := rfl
  obtain ⟨code, rest', hdelivers⟩ | hbreaks | ⟨hnot, hsound, e, hread, hne⟩ :=
    readAs_cases pb user.toLoginResult hl he rest
  · have hread := (readAs_delivers pb hl he hdelivers).1
    have houtcome : outcome = .ok ⟨code = .loginSucceed,
        avAddressFromString hello.serverAvAddress, written, second.rest⟩ := by
      simp only [outcome, hsecond, hread, ok_bind, pure_eq_ok]
    have hcode : code = .loginSucceed ↔ Succeeds pb user rest := by
      constructor
      · rintro rfl
        exact ⟨rest', hdelivers⟩
      · rintro ⟨rest'', hsucceeds⟩
        exact (delivers_unique pb hdelivers hsucceeds).1
    have hwhole : ¬ Breaks pb rest := by
      intro hbreaks
      have hthrew := readAs_breaks pb user.toLoginResult hl he hbreaks
      rw [hread] at hthrew
      cases hthrew
    rw [houtcome, soundLogin_ok, ← hcode]
    simp [hwhole]
  · have houtcome : outcome = .error .threw := by
      simp only [outcome, hsecond, readAs_breaks pb user.toLoginResult hl he hbreaks, error_bind]
    rw [houtcome]
    exact ⟨fun _ => .inl hbreaks, fun _ => soundLogin_threw _⟩
  · have houtcome : outcome = .error e := by
      simp only [outcome, hsecond, hread, error_bind]
    rw [houtcome, soundLogin_error hne]
    simp [hsound]

theorem soundHandshake_hello (hl : l.length = 4)
    (hsent : Writes pb (user.ofClientHello ⟨text "avim", 1, dh.g, dh.p, dh.pubKey⟩)
      router.helloSent)
    (hdelivers : Delivers pb user.toServerHello router.stream hello rest) :
    SoundHandshake pb user ossl dh key cert router l ↔
      ((∃ f, rsaPrivateEncrypt ossl key hello.randomPubKey = .error f ∧
          (Exit.ofFault f = .threw ∨ Succeeds pb user rest)) ∨
        ∃ singned, rsaPrivateEncrypt ossl key hello.randomPubKey = .ok singned ∧
          (¬ Writes pb (user.ofLogin ⟨cert, singned⟩) router.loginSent ∨ Breaks pb rest ∨
            Succeeds pb user rest)) := by
  obtain ⟨tobesend, hwrite⟩ := asyncWriteMessage_writes pb hsent
  obtain ⟨hread, hrest, htaken, hword⟩ := readAs_delivers pb hl (le_refl 4) hdelivers
  rw [← serverHelloFrame] at hread hrest htaken hword
  have hreal : RealSuccess pb user router.stream ↔ Succeeds pb user rest := by
    constructor
    · rintro ⟨hello', rest', hdelivers', hsucceeds⟩
      obtain ⟨-, rfl⟩ := delivers_unique pb hdelivers hdelivers'
      exact hsucceeds
    · exact fun h => ⟨hello, rest, hdelivers, h⟩
  unfold SoundHandshake handshake
  rw [hreal]
  obtain ⟨f, hsign⟩ | ⟨singned, hsign⟩ :=
    except_cases (rsaPrivateEncrypt ossl key hello.randomPubKey)
  · have hrun : asyncHandshake pb user ossl dh key cert router l = .error (Exit.ofFault f) := by
      simp only [asyncHandshake, hwrite, hread, hsign, mapError_error, ok_bind, error_bind]
    rw [hrun]
    by_cases hthrown : Exit.ofFault f = .threw
    · rw [hthrown]
      exact ⟨fun _ => .inl ⟨f, hsign, .inl hthrown⟩, fun _ => soundLogin_threw _⟩
    · rw [soundLogin_error hthrown]
      simp [hsign, hthrown]
  · by_cases hlogin : Writes pb (user.ofLogin ⟨cert, singned⟩) router.loginSent
    · obtain ⟨login, hwrite'⟩ := asyncWriteMessage_writes pb hlogin
      have hsecond := soundLogin_second pb user hello [tobesend, login] rest hword htaken
      simp only [asyncHandshake, hwrite, hread, hsign, hwrite', hrest, mapError_ok, ok_bind]
      refine hsecond.trans ?_
      simp [hlogin]
    · have hrun : asyncHandshake pb user ossl dh key cert router l = .error .threw := by
        simp only [asyncHandshake, hwrite, hread, hsign, asyncWriteMessage_throws pb hlogin,
          mapError_ok, ok_bind, error_bind]
      rw [hrun]
      exact ⟨fun _ => .inr ⟨singned, hsign, .inl hlogin⟩, fun _ => soundLogin_threw _⟩

end Replies

/-- The handshake does what it should exactly when nothing that arrives is used
for what it is not: no null pointer, no message of another type, no buffer that
is too small. And `handshake` says `true` for every answer, so a login that the
router turns down is none of these either. -/
theorem soundHandshake_iff (hl : l.length = 4) :
    SoundHandshake pb user ossl dh key cert router l ↔
      CleanReplies pb user ossl dh key cert router := by
  by_cases hsent : Writes pb (user.ofClientHello ⟨text "avim", 1, dh.g, dh.p, dh.pubKey⟩)
      router.helloSent
  · obtain ⟨tobesend, hwrite⟩ := asyncWriteMessage_writes pb hsent
    obtain ⟨hello, rest, hdelivers⟩ | hbreaks | ⟨hnot, hsound, e, hread, hne⟩ :=
      readAs_cases pb user.toServerHello hl (le_refl 4) router.stream
    · rw [soundHandshake_hello pb user ossl hl hsent hdelivers]
      constructor
      · exact fun h => .inr (.inr ⟨hello, rest, hdelivers, h⟩)
      · rintro (hnot | hbreaks | ⟨hello', rest', hdelivers', h⟩)
        · exact absurd hsent hnot
        · have hthrew := readAs_breaks pb user.toServerHello hl (le_refl 4) hbreaks
          rw [(readAs_delivers pb hl (le_refl 4) hdelivers).1] at hthrew
          cases hthrew
        · obtain ⟨rfl, rfl⟩ := delivers_unique pb hdelivers hdelivers'
          exact h
    · have hrun : asyncHandshake pb user ossl dh key cert router l = .error .threw := by
        simp only [asyncHandshake, hwrite, serverHelloFrame,
          readAs_breaks pb user.toServerHello hl (le_refl 4) hbreaks, ok_bind, error_bind]
      unfold SoundHandshake handshake
      rw [hrun]
      exact ⟨fun _ => .inr (.inl hbreaks), fun _ => soundLogin_threw _⟩
    · have hrun : asyncHandshake pb user ossl dh key cert router l = .error e := by
        simp only [asyncHandshake, hwrite, serverHelloFrame, hread, ok_bind, error_bind]
      unfold SoundHandshake handshake
      rw [hrun, soundLogin_error hne]
      constructor
      · rintro ⟨hello, rest, hdelivers, -⟩
        exact absurd hdelivers (hnot hello rest)
      · rintro (h | h | ⟨hello, rest, hdelivers, -⟩)
        · exact absurd hsent h
        · exact absurd h hsound
        · exact absurd hdelivers (hnot hello rest)
  · have hrun : asyncHandshake pb user ossl dh key cert router l = .error .threw := by
      simp only [asyncHandshake, asyncWriteMessage_throws pb hsent, error_bind]
    unfold SoundHandshake handshake
    rw [hrun]
    exact ⟨fun _ => .inl hsent, fun _ => soundLogin_threw _⟩

end Handshake

-- ---------------------------------------------------------------------------
-- A router to compute with
-- ---------------------------------------------------------------------------

inductive UserMessage
  | clientHello (m : ClientHello)
  | serverHello (m : ServerHello)
  | login (m : Login)
  | loginResult (result : LoginResultCode)
  deriving DecidableEq, Repr

inductive UserType
  | clientHello
  | serverHello
  | login
  | loginResult
  deriving DecidableEq, Repr

def UserType.name : UserType → Bytes
  | .clientHello => text "proto.client_hello"
  | .serverHello => text "proto.server_hello"
  | .login => text "proto.login"
  | .loginResult => text "proto.login_result"

def UserMessage.type : UserMessage → UserType
  | .clientHello _ => .clientHello
  | .serverHello _ => .serverHello
  | .login _ => .login
  | .loginResult _ => .loginResult

open Lib.Proto2 in
def UserMessage.fields : UserMessage → List Field
  | .clientHello m =>
    [⟨1, .delimited m.client⟩, ⟨2, .varint m.version.toNat⟩, ⟨3, .delimited m.randomG⟩,
      ⟨4, .delimited m.randomP⟩, ⟨5, .delimited m.randomPubKey⟩]
  | .serverHello m => [⟨1, .delimited m.serverAvAddress⟩, ⟨2, .delimited m.randomPubKey⟩]
  | .login m => [⟨1, .delimited m.userCert⟩, ⟨2, .delimited m.encrypedRadomKey⟩]
  | .loginResult .loginSucceed => [⟨1, .varint 0⟩]
  | .loginResult (.other code) => [⟨1, .varint (code + 1)⟩]

open Lib.Proto2 in
def UserType.parse (type : UserType) (fields : List Field) : Option UserMessage :=
  let bytes number := (delimitedAll number fields).getLast?
  let int number := (varintAll number fields).getLast?
  match type with
  | .clientHello => do
    return .clientHello ⟨← bytes 1, ← int 2, ← bytes 3, ← bytes 4, ← bytes 5⟩
  | .serverHello => do return .serverHello ⟨← bytes 1, ← bytes 2⟩
  | .login => do return .login ⟨← bytes 1, ← bytes 2⟩
  | .loginResult => do
    match ← int 1 with
    | 0 => return .loginResult .loginSucceed
    | code + 1 => return .loginResult (.other code)

/-- The handshake messages in the proto2 wire format, under field numbers of
its own: those of the submodule are not known. -/
def userPool : Protobuf where
  Message := UserMessage
  Descriptor := UserType
  Prototype := UserType
  getTypeName m := m.type.name
  appendToString m := some (Lib.Proto2.writeFields m.fields)
  findMessageTypeByName name :=
    [UserType.clientHello, .serverHello, .login, .loginResult].find? (·.name = name)
  getPrototype := some
  parseFromArray type body := (Lib.Proto2.readFields body).bind type.parse
  ofAvPacket _ := .login ⟨[], []⟩
  toAvPacket _ := none

instance : DecidableEq userPool.Message := inferInstanceAs (DecidableEq UserMessage)

def userProto : UserProto userPool where
  ofClientHello := .clientHello
  ofLogin := .login
  toServerHello
    | .serverHello m => some m
    | _ => none
  toLoginResult
    | .loginResult result => some result
    | _ => none

def userFrame (m : UserMessage) : Bytes := frame m.type.name (Lib.Proto2.writeFields m.fields)

def answering (result : LoginResultCode) : Router where
  stream := userFrame (.serverHello ⟨text "r@x", [1, 2, 3]⟩) ++ userFrame (.loginResult result)
  helloSent := true
  loginSent := true

theorem soundHandshake_iff_succeeds :
    SoundHandshake userPool userProto openSSL ⟨[5], [23], [8]⟩ sampleKey []
      (answering .loginSucceed) [0, 0, 0, 0] := by
  have hfit : sealedLength sampleKey.size ([1, 2, 3] : Bytes).length < 2 ^ 31 := by decide +kernel
  obtain ⟨singned, hsign, -⟩ := rsaPublicDecrypt_privateEncrypt openSSL sampleKey_keyPair hfit
  have hsucceeds : Succeeds userPool userProto (userFrame (.loginResult .loginSucceed)) :=
    ⟨[], userFrame (.loginResult .loginSucceed), .loginResult .loginSucceed, by decide +kernel,
      by decide +kernel, rfl⟩
  refine (soundHandshake_iff userPool userProto openSSL _ sampleKey [] _ rfl).mpr
    (.inr (.inr ⟨⟨text "r@x", [1, 2, 3]⟩, userFrame (.loginResult .loginSucceed), ?_,
      .inr ⟨singned, hsign, .inr (.inr hsucceeds)⟩⟩))
  exact ⟨userFrame (.serverHello ⟨text "r@x", [1, 2, 3]⟩), .serverHello ⟨text "r@x", [1, 2, 3]⟩,
    by decide +kernel, by decide +kernel, rfl⟩

/-- The router turns the login down, `async_handshake` says so, and `handshake`
returns `true`. -/
theorem handshake_refused_login :
    ¬ ∀ (pb : Protobuf) (user : UserProto pb) (ossl : OpenSSL) (dh : DH) (key : RSAKey)
      (cert : Bytes) (router : Router) (l : Bytes), l.length = 4 →
      SoundHandshake pb user ossl dh key cert router l := by
  intro h
  have hsound := h userPool userProto openSSL ⟨[5], [23], [8]⟩ sampleKey []
    (answering (.other 0)) [0, 0, 0, 0] rfl
  have hasync : verdict (asyncHandshake userPool userProto openSSL ⟨[5], [23], [8]⟩ sampleKey []
      (answering (.other 0)) [0, 0, 0, 0]) = some false := by
    decide +kernel
  have hblocking : handshake userPool userProto openSSL ⟨[5], [23], [8]⟩ sampleKey []
      (answering (.other 0)) [0, 0, 0, 0] = some true := by
    decide +kernel
  have hsame := hsound.same
  rw [hasync, hblocking] at hsame
  cases hsame

end Avim
