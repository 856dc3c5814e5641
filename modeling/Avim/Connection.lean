import Avim.Handshake

/-!
# One connection, from the first byte on

`async_handshake` and `interface_runner` read the same socket one after the
other, and neither knows how much the other took. With a router that sends
what it should, the handshake takes its two frames and not a byte more, what it
writes proves the key to the router, and the loop gets the packets
(`hands_over`). `asyncHandshake_returns_iff` says when it returns at all.
-/

namespace Avim

open Lib.Octets Lib.Proto2

section Connection

variable (pb : Protobuf) (user : UserProto pb) (ossl : OpenSSL)

/-- A message of any type that comes out of a frame as it went in. -/
structure Encodable (m : pb.Message) : Prop where
  registered : pb.Registered m
  serializes : ∃ body, pb.appendToString m = some body ∧ body ≠ [] ∧
    frameSize (pb.getTypeName m) body < 2 ^ 31

theorem takeFrame_append (hf : Framed buf) (rest : Bytes) :
    takeFrame (buf ++ rest) = some (buf, rest) := by
  obtain ⟨tail, rfl, htail⟩ := hf
  have htake : (be32 (tail.length : Nat) ++ tail ++ rest).take 4 = be32 (tail.length : Nat) := by
    rw [List.append_assoc, List.take_left' (length_be32 _)]
  have hlen : (be32 (tail.length : Nat) ++ tail).length = 4 + tail.length := by simp
  have hsize : 4 + tail.length ≤ (be32 (tail.length : Nat) ++ tail ++ rest).length := by
    rw [List.length_append, hlen]
    omega
  simp only [takeFrame, htake, ofBE_be32 htail]
  rw [if_pos ⟨by omega, hsize⟩, List.take_left' hlen, List.drop_left' hlen]

theorem delivers_encode {cast : pb.Message → Option α} (hparse : pb.ParseUndoesAppend)
    (hm : Encodable pb m) (hcast : cast m = some a) (hbuf : encode pb m = .ok buf)
    (rest : Bytes) : Delivers pb cast (buf ++ rest) a rest := by
  obtain ⟨prototype, hfound⟩ := Option.isSome_iff_exists.mp hm.registered
  obtain ⟨body, hser, hne, hsize⟩ := hm.serializes
  obtain rfl := Except.ok.inj ((encode_eq pb hser hsize).symm.trans hbuf)
  refine ⟨_, m, takeFrame_append (framed_frame hsize) rest, ?_, hcast⟩
  rw [decode_frame pb hsize, if_neg hne, hfound, Option.bind_some, hparse _ _ _ hfound hser]

theorem Encodable.writes (hm : Encodable pb m) : ∃ buf, encode pb m = .ok buf := by
  obtain ⟨body, hser, -, hsize⟩ := hm.serializes
  exact ⟨_, encode_eq pb hser hsize⟩

variable (dh : DH) (key : RSAKey) (cert : Bytes) (router : Router)

/-- How a handshake goes that returns: the two messages that are read, what is
signed in between, and what is written. -/
structure Exchange (hello : ServerHello) (singned : Bytes) (code : LoginResultCode)
    (r : LoggedIn) : Prop where
  helloSent : router.helloSent = true
  loginSent : router.loginSent = true
  received : ∃ rest, Delivers pb user.toServerHello router.stream hello rest ∧
    Delivers pb user.toLoginResult rest code r.rest
  signed : rsaPrivateEncrypt ossl key hello.randomPubKey = .ok singned
  written : [user.ofClientHello ⟨text "avim", 1, dh.g, dh.p, dh.pubKey⟩,
    user.ofLogin ⟨cert, singned⟩].mapM (encode pb) = .ok r.written
  verdict : r.verdict = decide (code = .loginSucceed)
  remoteAddr : r.remoteAddr = avAddressFromString hello.serverAvAddress

/-- What a router sends: its greeting, its answer and then packets, all of
which fit into a frame, as does what is sent to it. -/
structure Speaks (serverHello loginResult : pb.Message) (hello : ServerHello)
    (code : LoginResultCode) (packets : List AvPacket) (stream : Bytes) : Prop where
  greets : user.toServerHello serverHello = some hello
  answers : user.toLoginResult loginResult = some code
  encodable : ∀ m ∈ [serverHello, loginResult,
    user.ofClientHello ⟨text "avim", 1, dh.g, dh.p, dh.pubKey⟩], Encodable pb m
  login : ∀ singned, rsaPrivateEncrypt ossl key hello.randomPubKey = .ok singned →
    Encodable pb (user.ofLogin ⟨cert, singned⟩)
  sendable : ∀ packet ∈ packets, Sendable pb packet
  stream : ∃ frames, ([serverHello, loginResult] ++ packets.map pb.ofAvPacket).mapM (encode pb) =
    .ok frames ∧ stream = frames.flatten

theorem asyncWriteMessage_returns_iff :
    asyncWriteMessage pb m sent = .ok buf ↔ encode pb m = .ok buf ∧ sent = true := by
  constructor
  · intro h
    by_cases hwrites : Writes pb m sent
    · obtain ⟨⟨buf', hbuf'⟩, rfl⟩ := hwrites
      simp only [asyncWriteMessage, hbuf', mapError_ok, ok_bind, if_true, pure_eq_ok] at h
      exact ⟨by rw [hbuf', Except.ok.inj h], rfl⟩
    · rw [asyncWriteMessage_throws pb hwrites] at h
      cases h
  · rintro ⟨hbuf, rfl⟩
    simp only [asyncWriteMessage, hbuf, mapError_ok, ok_bind, if_true, pure_eq_ok]

theorem readAs_returns {cast : pb.Message → Option α} (hl : l.length = 4) (he : 4 ≤ exactly)
    (h : readAs pb cast (readFrame exactly l stream) = .ok a) :
    ∃ rest, Delivers pb cast stream a rest := by
  obtain ⟨a', rest, hdelivers⟩ | hbreaks | ⟨-, -, e, herror, -⟩ :=
    readAs_cases pb cast hl he stream
  · have hread := (readAs_delivers pb hl he hdelivers).1
    obtain rfl := Except.ok.inj (hread.symm.trans h)
    exact ⟨rest, hdelivers⟩
  · rw [readAs_breaks pb cast hl he hbreaks] at h
    cases h
  · rw [herror] at h
    cases h

theorem mapError_returns {x : Except ε α} {f : ε → ε'} (h : x.mapError f = .ok a) :
    x = .ok a := by
  cases x with
  | error e => cases h
  | ok a' => exact congrArg Except.ok (Except.ok.inj h)

variable {dh key cert router}

theorem mapM_pair {f : α → Except ε β} {x y : α} {a b : β} (ha : f x = .ok a) (hb : f y = .ok b) :
    [x, y].mapM f = .ok [a, b] := by
  simp only [List.mapM_cons, List.mapM_nil, ha, hb, ok_bind, pure_eq_ok]

theorem mapM_pair_returns {f : α → Except ε β} {x y : α} (h : [x, y].mapM f = .ok bs) :
    ∃ a b, f x = .ok a ∧ f y = .ok b ∧ bs = [a, b] := by
  simp only [List.mapM_cons, List.mapM_nil] at h
  obtain ⟨a, ha, h⟩ := bind_returns h
  obtain ⟨_, htail, h⟩ := bind_returns h
  obtain ⟨b, hb, htail⟩ := bind_returns htail
  obtain rfl := Except.ok.inj htail
  exact ⟨a, b, ha, hb, (Except.ok.inj h).symm⟩

theorem asyncHandshake_returns_iff (hl : l.length = 4) :
    asyncHandshake pb user ossl dh key cert router l = .ok r ↔
      ∃ hello singned code, Exchange pb user ossl dh key cert router hello singned code r := by
  constructor
  · intro h
    unfold asyncHandshake at h
    obtain ⟨tobesend, hfirst, h⟩ := bind_returns h
    obtain ⟨hello, hgreeting, h⟩ := bind_returns h
    obtain ⟨singned, hsigned, h⟩ := bind_returns h
    obtain ⟨login, hsecond, h⟩ := bind_returns h
    obtain ⟨code, hanswer, h⟩ := bind_returns h
    obtain rfl := Except.ok.inj h
    obtain ⟨hfirst, hhelloSent⟩ := (asyncWriteMessage_returns_iff pb).mp hfirst
    obtain ⟨hsecond, hloginSent⟩ := (asyncWriteMessage_returns_iff pb).mp hsecond
    obtain ⟨rest, hdelivers⟩ := readAs_returns pb hl le_rfl hgreeting
    obtain ⟨-, hrest, htaken, hword⟩ := readAs_delivers pb hl (le_refl 4) hdelivers
    rw [← serverHelloFrame] at hrest htaken hword
    rw [hrest] at hanswer
    obtain ⟨later, hlater⟩ := readAs_returns pb hword htaken hanswer
    have hleft := (readAs_delivers pb hword htaken hlater).2.1
    refine ⟨hello, singned, code, hhelloSent, hloginSent, ⟨rest, hdelivers, ?_⟩,
      mapError_returns hsigned, mapM_pair hfirst hsecond, rfl, rfl⟩
    rw [← hrest] at hleft hlater
    simp only [loginResultFrame]
    rw [hleft]
    rw [← hrest]
    exact hlater
  · rintro ⟨hello, singned, code, h⟩
    obtain ⟨rest, hgreeting, hanswer⟩ := h.received
    obtain ⟨tobesend, login, hfirst, hsecond, hwritten⟩ := mapM_pair_returns h.written
    have hwrite := (asyncWriteMessage_returns_iff pb).mpr ⟨hfirst, h.helloSent⟩
    have hwrite' := (asyncWriteMessage_returns_iff pb).mpr ⟨hsecond, h.loginSent⟩
    obtain ⟨hread, hrest, htaken, hword⟩ := readAs_delivers pb hl (le_refl 4) hgreeting
    rw [← serverHelloFrame] at hread hrest htaken hword
    obtain ⟨hread', hrest', -, -⟩ := readAs_delivers pb hword htaken hanswer
    rw [← loginResultFrame] at hread' hrest'
    simp only [asyncHandshake, hwrite, hread, h.signed, hwrite', hrest, hread', hrest',
      mapError_ok, ok_bind, pure_eq_ok]
    rw [← hwritten, ← h.verdict, ← h.remoteAddr]

/-- The first two frames are the handshake's, the packets' frames and everything
after them are the loop's, and the router can check the signature. -/
theorem hands_over (hparse : pb.ParseUndoesAppend) (hcast : pb.CastsBack)
    (hkey : ossl.KeyPair key) (hl : l.length = 4)
    (hspeaks : Speaks pb user ossl dh key cert serverHello loginResult hello code packets stream)
    (hfit : sealedLength key.size hello.randomPubKey.length < 2 ^ 31) (rest : Bytes) :
    ∃ singned r, asyncHandshake pb user ossl dh key cert ⟨stream ++ rest, true, true⟩ l = .ok r ∧
      r.verdict = decide (code = .loginSucceed) ∧
      r.remoteAddr = avAddressFromString hello.serverAvAddress ∧
      (∃ later, Delivers pb some r.written.flatten
          (user.ofClientHello ⟨text "avim", 1, dh.g, dh.p, dh.pubKey⟩) later ∧
        Delivers pb some later (user.ofLogin ⟨cert, singned⟩) []) ∧
      rsaPublicDecrypt ossl key.toRSA singned = .ok hello.randomPubKey ∧
      (∃ frames, packets.mapM (fun packet => encode pb (pb.ofAvPacket packet)) = .ok frames ∧
        r.rest = frames.flatten ++ rest) ∧
      ∀ ls : Nat → Bytes, (∀ k, (ls k).length = 4) →
        interfaceRunner pb packets.length ls r.rest = ⟨packets, .reading⟩ := by
  obtain ⟨singned, hsigned, -, hopened⟩ := rsaPublicDecrypt_privateEncrypt ossl hkey hfit
  have hclient := hspeaks.encodable (user.ofClientHello ⟨text "avim", 1, dh.g, dh.p, dh.pubKey⟩)
    (by simp)
  have hlogin := hspeaks.login singned hsigned
  obtain ⟨tobesend, hfirst⟩ := hclient.writes
  obtain ⟨login, hsecond⟩ := hlogin.writes
  obtain ⟨frames, hframes, rfl⟩ := hspeaks.stream
  simp only [List.cons_append, List.nil_append, List.mapM_cons] at hframes
  obtain ⟨greeting, hgreeting, hframes⟩ := bind_returns hframes
  obtain ⟨tail, htail, hframes⟩ := bind_returns hframes
  obtain ⟨answer, hanswer, htail⟩ := bind_returns htail
  obtain ⟨bufs, hbufs, htail⟩ := bind_returns htail
  obtain rfl := Except.ok.inj hframes
  obtain rfl := Except.ok.inj htail
  have hstream : (greeting :: answer :: bufs).flatten ++ rest =
      greeting ++ (answer ++ (bufs.flatten ++ rest)) := by simp
  have hexchange : Exchange pb user ossl dh key cert
      ⟨(greeting :: answer :: bufs).flatten ++ rest, true, true⟩ hello singned code
      ⟨decide (code = .loginSucceed), avAddressFromString hello.serverAvAddress,
        [tobesend, login], bufs.flatten ++ rest⟩ := by
    refine ⟨rfl, rfl, ⟨answer ++ (bufs.flatten ++ rest), ?_, ?_⟩, hsigned,
      mapM_pair hfirst hsecond, rfl, rfl⟩
    · rw [hstream]
      exact delivers_encode pb hparse (hspeaks.encodable serverHello (by simp)) hspeaks.greets
        hgreeting _
    · exact delivers_encode pb hparse (hspeaks.encodable loginResult (by simp)) hspeaks.answers
        hanswer _
  have hpackets : packets.mapM (fun packet => encode pb (pb.ofAvPacket packet)) = .ok bufs := by
    rw [← hbufs, List.mapM_map, Function.comp_def]
  refine ⟨singned, _, (asyncHandshake_returns_iff pb user ossl hl).mpr
    ⟨hello, singned, code, hexchange⟩, rfl, rfl, ⟨login, ?_, ?_⟩, hopened,
    ⟨bufs, hpackets, rfl⟩, ?_⟩
  · have hwritten : [tobesend, login].flatten = tobesend ++ login := by simp
    rw [hwritten]
    exact delivers_encode pb hparse hclient rfl hfirst login
  · have hlast := delivers_encode pb hparse hlogin rfl hsecond []
    rwa [List.append_nil] at hlast
  · intro ls hls
    exact interfaceRunner_frames pb hparse hcast packets hspeaks.sendable hpackets ls hls rest

end Connection

-- ---------------------------------------------------------------------------
-- Packets and logins in one pool
-- ---------------------------------------------------------------------------

/-- The messages of `userPool` and the packets of `pool`. A message that would
not be read back as it is counts as one with required fields missing. -/
def loginPool (s : Schema) : Protobuf where
  Message := PoolMessage ⊕ UserMessage
  Descriptor := PoolType ⊕ UserType
  Prototype := PoolType ⊕ UserType
  getTypeName
    | .inl m => m.type.name
    | .inr m => m.type.name
  appendToString
    | .inl m => (pool s).appendToString m
    | .inr m => (userPool.appendToString m).filter fun body =>
      decide ((readFields body).bind m.type.parse = some m)
  findMessageTypeByName name :=
    match (pool s).createMessage name with
    | some type => some (.inl type)
    | none => (userPool.createMessage name).map .inr
  getPrototype := some
  parseFromArray
    | .inl type, body => ((pool s).parseFromArray type body).map .inl
    | .inr type, body => (userPool.parseFromArray type body).map .inr
  ofAvPacket p := .inl (.avPacket p)
  toAvPacket
    | .inl m => (pool s).toAvPacket m
    | .inr _ => none

instance (s : Schema) : DecidableEq (loginPool s).Message :=
  inferInstanceAs (DecidableEq (PoolMessage ⊕ UserMessage))

def loginProto (s : Schema) : UserProto (loginPool s) where
  ofClientHello m := .inr (.clientHello m)
  ofLogin m := .inr (.login m)
  toServerHello
    | .inr (.serverHello m) => some m
    | _ => none
  toLoginResult
    | .inr (.loginResult result) => some result
    | _ => none

theorem loginPool_find (s : Schema) (type : PoolType ⊕ UserType) :
    (loginPool s).createMessage (type.elim PoolType.name UserType.name) = some type := by
  cases type with
  | inl type => cases type <;> rfl
  | inr type => cases type <;> rfl

theorem loginPool_registered (s : Schema) (m : PoolMessage ⊕ UserMessage) :
    (loginPool s).Registered m := by
  cases m with
  | inl m => exact Option.isSome_iff_exists.mpr ⟨_, loginPool_find s (.inl m.type)⟩
  | inr m => exact Option.isSome_iff_exists.mpr ⟨_, loginPool_find s (.inr m.type)⟩

theorem loginPool_parses (s : Schema) : (loginPool s).ParseUndoesAppend := by
  intro m prototype body hfound hser
  cases m with
  | inl m =>
    obtain rfl := Option.some.inj ((loginPool_find s (.inl m.type)).symm.trans hfound)
    exact congrArg (Option.map Sum.inl) (pool_parses s m m.type body (pool_find s m.type) hser)
  | inr m =>
    obtain rfl := Option.some.inj ((loginPool_find s (.inr m.type)).symm.trans hfound)
    have hser : ((userPool.appendToString m).filter fun body =>
        decide ((readFields body).bind m.type.parse = some m)) = some body := hser
    obtain ⟨-, hread⟩ := Option.filter_eq_some_iff.mp hser
    exact congrArg (Option.map Sum.inr) (of_decide_eq_true hread)

theorem loginPool_casts (s : Schema) : (loginPool s).CastsBack := fun _ => rfl

def sampleHello : ServerHello := ⟨text "r@x", [1, 2, 3]⟩

def sampleSession : Bytes :=
  userFrame (.serverHello sampleHello) ++ userFrame (.loginResult .loginSucceed) ++ sampleFrame

theorem loginPool_encodable {m : PoolMessage ⊕ UserMessage}
    (h : ((loginPool .consecutive).appendToString m).any fun body =>
      !body.isEmpty && decide (frameSize ((loginPool .consecutive).getTypeName m) body < 2 ^ 31)) :
    Encodable (loginPool .consecutive) m :=
  ⟨loginPool_registered _ m, serializes_of_fits _ h⟩

theorem speaks_sampleSession :
    Speaks (loginPool .consecutive) (loginProto .consecutive) openSSL ⟨[5], [23], [8]⟩ sampleKey []
      (.inr (.serverHello sampleHello)) (.inr (.loginResult .loginSucceed)) sampleHello
      .loginSucceed [samplePacket] sampleSession := by
  refine ⟨rfl, rfl, ?_, ?_, ?_, ?_⟩
  · refine List.forall_mem_cons.mpr ⟨?_, List.forall_mem_cons.mpr
      ⟨?_, List.forall_mem_singleton.mpr ?_⟩⟩
    · exact loginPool_encodable (by decide +kernel)
    · exact loginPool_encodable (by decide +kernel)
    · exact loginPool_encodable (by decide +kernel)
  · intro singned hsigned
    have hall : ∀ singned ∈ (rsaPrivateEncrypt openSSL sampleKey [1, 2, 3]).toOption,
        (((loginPool .consecutive).appendToString (.inr (.login ⟨[], singned⟩))).any fun body =>
          !body.isEmpty && decide (frameSize (text "proto.login") body < 2 ^ 31)) = true := by
      decide +kernel
    exact loginPool_encodable (hall singned (by
      show (rsaPrivateEncrypt openSSL sampleKey sampleHello.randomPubKey).toOption = some singned
      rw [hsigned]
      rfl))
  · intro packet hpacket
    obtain rfl := List.mem_singleton.mp hpacket
    exact ⟨loginPool_registered _ _, _, rfl, by decide +kernel, by decide +kernel⟩
  · exact ⟨[userFrame (.serverHello sampleHello), userFrame (.loginResult .loginSucceed),
      sampleFrame], by decide +kernel, by decide +kernel⟩

theorem hands_over_sample :
    ∃ r, asyncHandshake (loginPool .consecutive) (loginProto .consecutive) openSSL
        ⟨[5], [23], [8]⟩ sampleKey [] ⟨sampleSession ++ [0, 0], true, true⟩ [0, 0, 0, 0] = .ok r ∧
      r.verdict = true ∧
      interfaceRunner (loginPool .consecutive) 1 (fun _ => [0, 0, 0, 9]) r.rest =
        ⟨[samplePacket], .reading⟩ := by
  have hfit : sealedLength sampleKey.size sampleHello.randomPubKey.length < 2 ^ 31 := by
    decide +kernel
  obtain ⟨-, r, hr, hverdict, -, -, -, -, hpackets⟩ := hands_over (loginPool .consecutive)
    (loginProto .consecutive) openSSL (l := [0, 0, 0, 0]) (loginPool_parses _)
    (loginPool_casts _) sampleKey_keyPair rfl speaks_sampleSession hfit [0, 0]
  exact ⟨r, hr, hverdict, hpackets (fun _ => [0, 0, 0, 9]) fun _ => rfl⟩

end Avim
