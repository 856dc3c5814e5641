import Avim.Serialization

/-!
# Packets on a socket

`avjackif::async_read_packet` and `async_write_packet`, and the reading loop
of `interface_runner` on top of them. A stream is the bytes that arrive before
the connection ends or fails. The reader looks at no error code: it sizes its
buffer from the announced length, takes what arrives and decodes the buffer.

On whole frames that is lossless (`readPackets_frames`). A frame that is cut
off is decoded with zeros in the place of what is missing, and dispatched when
that happens to be a packet (`interfaceRunner_iff`).
-/

namespace Avim

open Lib.Octets

structure ReadResult where
  buffer : Bytes
  failed : Bool
  rest : Bytes

/-- Fill `buffer` from `stream`. Octets that are not reached stay as they were. -/
def asyncRead (buffer stream : Bytes) : ReadResult :=
  if buffer.length ≤ stream.length then
    ⟨stream.take buffer.length, false, stream.drop buffer.length⟩
  else ⟨stream ++ buffer.drop stream.length, true, []⟩

theorem asyncRead_append (h : buffer.length = bytes.length) :
    asyncRead buffer (bytes ++ rest) = ⟨bytes, false, rest⟩ := by
  have hle : buffer.length ≤ (bytes ++ rest).length := by simp [h]
  rw [asyncRead, if_pos hle, h, List.take_left, List.drop_left]

structure PacketRead where
  packet : Option AvPacket
  ec : Bool
  rest : Bytes
  deriving DecidableEq, Repr

variable (pb : Protobuf)

/-- `l` is what the uninitialised length variable holds when the call starts. -/
def asyncReadPacket (l stream : Bytes) : Except Fault PacketRead := do
  let header := asyncRead l stream
  let hostl := ofBE header.buffer
  -- `htonl(l) + 4` is computed in 32 bits; the copies assume it was not
  if uint32 (hostl + 4) < 4 + hostl then throw .outOfBounds
  let body := asyncRead (List.replicate hostl 0) header.rest
  let message ← decode pb (header.buffer ++ body.buffer)
  return ⟨message.bind pb.toAvPacket, body.failed, body.rest⟩

/-- Successive calls, one for each old value of `l`. -/
def readPackets : List Bytes → Bytes → Except Fault (List PacketRead)
  | [], _ => .ok []
  | l :: ls, stream => do
    let read ← asyncReadPacket pb l stream
    let reads ← readPackets ls read.rest
    return read :: reads

-- ---------------------------------------------------------------------------
-- Whole frames
-- ---------------------------------------------------------------------------

def Framed (buf : Bytes) : Prop :=
  ∃ rest, buf = be32 (rest.length : Nat) ++ rest ∧ rest.length < 2 ^ 32

theorem framed_frame (h : frameSize name body < 2 ^ 31) : Framed (frame name body) := by
  unfold frameSize at h
  refine ⟨be32 name.length ++ (name ++ body), ?_, by simp; omega⟩
  have hlen : (be32 name.length ++ (name ++ body)).length = 4 + name.length + body.length := by
    simp
    omega
  rw [frame, hlen]

theorem asyncReadPacket_framed (hl : l.length = 4) (hf : Framed buf) (hsize : buf.length < 2 ^ 32)
    (rest : Bytes) :
    asyncReadPacket pb l (buf ++ rest) =
      (decode pb buf).map fun m => ⟨m.bind pb.toAvPacket, false, rest⟩ := by
  obtain ⟨tail, rfl, htail⟩ := hf
  have hheader : asyncRead l (be32 (tail.length : Nat) ++ tail ++ rest) =
      ⟨be32 (tail.length : Nat), false, tail ++ rest⟩ := by
    rw [List.append_assoc]
    exact asyncRead_append (by simp [hl])
  have hbody : asyncRead (List.replicate tail.length 0) (tail ++ rest) = ⟨tail, false, rest⟩ :=
    asyncRead_append (by simp)
  have hsum : uint32 ((tail.length : Int) + 4) = tail.length + 4 := by
    have : tail.length + 4 < 2 ^ 32 := by simpa [Nat.add_comm] using hsize
    exact_mod_cast uint32_of_lt this
  simp only [asyncReadPacket, hheader, ofBE_be32 htail, hbody, hsum]
  rw [if_neg (by omega)]
  cases decode pb (be32 (tail.length : Nat) ++ tail) <;> rfl

/-- A packet that the kernel can put on the wire: registered, serializable,
not to nothing, and below the 2 GiB limit. -/
structure Sendable (p : AvPacket) : Prop where
  registered : pb.Registered (pb.ofAvPacket p)
  serializes : ∃ body, pb.appendToString (pb.ofAvPacket p) = some body ∧ body ≠ [] ∧
    frameSize (pb.getTypeName (pb.ofAvPacket p)) body < 2 ^ 31

theorem serializes_of_fits {m : pb.Message}
    (h : (pb.appendToString m).any fun body =>
      !body.isEmpty && decide (frameSize (pb.getTypeName m) body < 2 ^ 31)) :
    ∃ body, pb.appendToString m = some body ∧ body ≠ [] ∧
      frameSize (pb.getTypeName m) body < 2 ^ 31 := by
  cases hser : pb.appendToString m with
  | none =>
    rw [hser] at h
    cases h
  | some body =>
    rw [hser, Option.any_some, Bool.and_eq_true, Bool.not_eq_true', List.isEmpty_eq_false_iff,
      decide_eq_true_eq] at h
    exact ⟨body, rfl, h.1, h.2⟩

theorem asyncReadPacket_encode (hparse : pb.ParseUndoesAppend) (hcast : pb.CastsBack)
    (hp : Sendable pb p) (hl : l.length = 4) :
    ∃ buf, encode pb (pb.ofAvPacket p) = .ok buf ∧
      ∀ rest, asyncReadPacket pb l (buf ++ rest) = .ok ⟨some p, false, rest⟩ := by
  obtain ⟨prototype, hfound⟩ := Option.isSome_iff_exists.mp hp.registered
  obtain ⟨body, hser, hne, hsize⟩ := hp.serializes
  refine ⟨_, encode_eq pb hser hsize, fun rest => ?_⟩
  rw [asyncReadPacket_framed pb hl (framed_frame hsize) (by rw [length_frame]; omega) rest,
    decode_frame pb hsize, if_neg hne, hfound, Option.bind_some, hparse _ _ _ hfound hser]
  simp [Except.map, hcast p]

def readsOf : List AvPacket → List Bytes → List PacketRead
  | p :: ps, _ :: frames => ⟨some p, false, frames.flatten⟩ :: readsOf ps frames
  | _, _ => []

theorem readPackets_frames (hparse : pb.ParseUndoesAppend) (hcast : pb.CastsBack)
    (ps : List AvPacket) (hps : ∀ p ∈ ps, Sendable pb p) (ls : List Bytes)
    (hcount : ls.length = ps.length) (hls : ∀ l ∈ ls, l.length = 4) :
    ∃ frames, ps.mapM (fun p => encode pb (pb.ofAvPacket p)) = .ok frames ∧
      readPackets pb ls frames.flatten = .ok (readsOf ps frames) := by
  induction ps generalizing ls with
  | nil =>
    cases ls with
    | nil => exact ⟨[], rfl, rfl⟩
    | cons _ _ => simp at hcount
  | cons p ps ih =>
    cases ls with
    | nil => simp at hcount
    | cons l ls =>
      obtain ⟨buf, hbuf, hread⟩ := asyncReadPacket_encode pb hparse hcast (hps p (by simp))
        (hls l (by simp))
      obtain ⟨frames, hframes, hreads⟩ := ih (fun q hq => hps q (List.mem_cons_of_mem _ hq)) ls
        (by simpa using hcount) (fun k hk => hls k (List.mem_cons_of_mem _ hk))
      refine ⟨buf :: frames, ?_, ?_⟩
      · simp [List.mapM_cons, hbuf, hframes]
      · simp [readPackets, hread, hreads, readsOf]

def samplePacket : AvPacket where
  src := ⟨text "a", text "x", none⟩
  dest := ⟨text "b", text "x", none⟩
  upperlayerpotocol := text "avim"
  timeToLive := 64
  payload := some [1, 2, 3, 4, 5]
  publickey := none

theorem samplePacket_sendable : Sendable (pool .consecutive) samplePacket :=
  ⟨pool_registered _ _, Lib.Proto2.writeFields (Schema.consecutive.packetFields samplePacket), rfl,
    by decide,
    by decide⟩

theorem readPackets_frames_sample :
    ∃ frames, [samplePacket, samplePacket].mapM
        (fun p => encode (pool .consecutive) ((pool .consecutive).ofAvPacket p)) = .ok frames ∧
      readPackets (pool .consecutive) [[0, 0, 0, 0], [255, 255, 255, 255]] frames.flatten =
        .ok (readsOf [samplePacket, samplePacket] frames) :=
  readPackets_frames _ (pool_parses _) (pool_casts _) _ (by simp [samplePacket_sendable]) _ rfl
    (by decide)

-- ---------------------------------------------------------------------------
-- The reading loop of `interface_runner`
-- ---------------------------------------------------------------------------

inductive RunnerState
  -- `quitting` is set and the loop is left
  | quit
  | faulted (f : Fault)
  -- still in the loop
  | reading
  deriving DecidableEq, Repr

@[ext] structure RunnerResult where
  dispatched : List AvPacket
  state : RunnerState
  deriving DecidableEq, Repr

/-- `fuel` rounds of the loop; `l k` is what the length variable holds when
round `k` starts. A packet is dispatched, anything else sets `quitting`. -/
def interfaceRunner : Nat → (Nat → Bytes) → Bytes → RunnerResult
  | 0, _, _ => ⟨[], .reading⟩
  | fuel + 1, l, stream =>
    match asyncReadPacket pb (l 0) stream with
    | .error f => ⟨[], .faulted f⟩
    | .ok ⟨none, _, _⟩ => ⟨[], .quit⟩
    | .ok ⟨some p, _, rest⟩ =>
      let later := interfaceRunner fuel (fun k => l (k + 1)) rest
      ⟨p :: later.dispatched, later.state⟩

theorem interfaceRunner_frames (hparse : pb.ParseUndoesAppend) (hcast : pb.CastsBack)
    (ps : List AvPacket) (hps : ∀ p ∈ ps, Sendable pb p)
    (hframes : ps.mapM (fun p => encode pb (pb.ofAvPacket p)) = .ok frames) (l : Nat → Bytes)
    (hl : ∀ k, (l k).length = 4) (rest : Bytes) :
    interfaceRunner pb ps.length l (frames.flatten ++ rest) = ⟨ps, .reading⟩ := by
  induction ps generalizing frames l with
  | nil => rfl
  | cons p ps ih =>
    obtain ⟨buf, hbuf, hread⟩ := asyncReadPacket_encode pb hparse hcast (hps p (by simp)) (hl 0)
    rw [List.mapM_cons, hbuf, ok_bind] at hframes
    obtain ⟨later, hlater, hcons⟩ := bind_returns hframes
    obtain rfl := Except.ok.inj hcons
    have hrest := ih (fun q hq => hps q (List.mem_cons_of_mem _ hq)) hlater (fun k => l (k + 1))
      (fun k => hl (k + 1))
    rw [List.length_cons, interfaceRunner, List.flatten_cons, List.append_assoc, hread]
    simp only [hrest]

def QuitsAfter (l : Nat → Bytes) (stream : Bytes) (ps : List AvPacket) : Prop :=
  ∃ fuel, interfaceRunner pb fuel l stream = ⟨ps, .quit⟩

def takeFrame (stream : Bytes) : Option (Bytes × Bytes) :=
  let size := 4 + ofBE (stream.take 4)
  if 4 ≤ stream.length ∧ size ≤ stream.length then some (stream.take size, stream.drop size)
  else none

def packetOf (buf : Bytes) : Option AvPacket :=
  match decode pb buf with
  | .ok m => m.bind pb.toAvPacket
  | .error _ => none

/-- The packets whose whole frames arrived, up to the first frame that is no
packet, and what is left of the stream there. Every frame has a prefix, so
the length of the stream is fuel enough. -/
def completePacketsWith : Nat → Bytes → List AvPacket × Bytes
  | 0, stream => ([], stream)
  | fuel + 1, stream =>
    match takeFrame stream with
    | none => ([], stream)
    | some (buf, rest) =>
      match packetOf pb buf with
      | none => ([], stream)
      | some p => (p :: (completePacketsWith fuel rest).1, (completePacketsWith fuel rest).2)

def completePackets (stream : Bytes) : List AvPacket × Bytes :=
  completePacketsWith pb stream.length stream

/-- The prefix as it ends up in `l`: what arrived, then what `l` held. -/
def cutHeader (l tail : Bytes) : Bytes := tail.take 4 ++ l.drop tail.length

/-- A cut-off frame as it ends up in `buf`: zeros for what did not arrive. -/
def cutBuffer (l tail : Bytes) : Bytes :=
  let size := ofBE (cutHeader l tail)
  cutHeader l tail ++ ((tail.drop 4).take size ++ List.replicate (size - (tail.length - 4)) 0)

/-- The bytes that are left, completed with the old prefix and with zeros, are
no packet, and neither sizing nor decoding the buffer goes wrong. -/
def Refused (l tail : Bytes) : Prop :=
  ofBE (cutHeader l tail) + 4 < 2 ^ 32 ∧
    ∃ m, decode pb (cutBuffer l tail) = .ok m ∧ m.bind pb.toAvPacket = none

theorem asyncRead_buffer (buffer stream : Bytes) :
    (asyncRead buffer stream).buffer = stream.take buffer.length ++ buffer.drop stream.length := by
  unfold asyncRead
  split
  · rename_i h
    simp [List.drop_of_length_le h]
  · rename_i h
    rw [List.take_of_length_le (by omega)]

theorem asyncRead_rest (buffer stream : Bytes) :
    (asyncRead buffer stream).rest = stream.drop buffer.length := by
  unfold asyncRead
  split
  · rfl
  · rename_i h
    exact (List.drop_of_length_le (by omega)).symm

theorem length_cutHeader (hl : l.length = 4) : (cutHeader l tail).length = 4 := by
  simp [cutHeader, hl]
  omega

theorem asyncReadPacket_cut (hl : l.length = 4) (tail : Bytes) :
    ∃ ec rest, asyncReadPacket pb l tail =
      if ofBE (cutHeader l tail) + 4 < 2 ^ 32 then
        (decode pb (cutBuffer l tail)).map fun m => ⟨m.bind pb.toAvPacket, ec, rest⟩
      else .error .outOfBounds := by
  have hheader : (asyncRead l tail).buffer = cutHeader l tail := by
    rw [asyncRead_buffer, hl, cutHeader]
  have hbody : (asyncRead (List.replicate (ofBE (cutHeader l tail)) 0) (tail.drop 4)).buffer =
      (tail.drop 4).take (ofBE (cutHeader l tail)) ++
        List.replicate (ofBE (cutHeader l tail) - (tail.length - 4)) 0 := by
    rw [asyncRead_buffer]
    simp
  have hlt : ofBE (cutHeader l tail) < 2 ^ 32 := ofBE_four_lt (length_cutHeader hl)
  refine ⟨(asyncRead (List.replicate (ofBE (cutHeader l tail)) 0) (tail.drop 4)).failed,
    (asyncRead (List.replicate (ofBE (cutHeader l tail)) 0) (tail.drop 4)).rest, ?_⟩
  simp only [asyncReadPacket, hheader, asyncRead_rest, hl, hbody]
  by_cases hfit : ofBE (cutHeader l tail) + 4 < 2 ^ 32
  · have hsum : uint32 ((ofBE (cutHeader l tail) : Int) + 4) = ofBE (cutHeader l tail) + 4 := by
      exact_mod_cast uint32_of_lt hfit
    rw [hsum, if_neg (by omega), if_pos hfit, cutBuffer]
    cases decode pb (cutHeader l tail ++ ((tail.drop 4).take (ofBE (cutHeader l tail)) ++
      List.replicate (ofBE (cutHeader l tail) - (tail.length - 4)) 0)) <;> rfl
  · have hwrap : uint32 ((ofBE (cutHeader l tail) : Int) + 4) < 4 + ofBE (cutHeader l tail) := by
      unfold uint32
      omega
    rw [if_pos hwrap, if_neg hfit]
    rfl

theorem takeFrame_framed (h : takeFrame stream = some (buf, rest)) :
    stream = buf ++ rest ∧ Framed buf ∧ buf.length < 2 ^ 32 + 4 := by
  simp only [takeFrame, Option.ite_none_right_eq_some, Option.some.injEq, Prod.mk.injEq] at h
  obtain ⟨⟨h4, hsize⟩, rfl, rfl⟩ := h
  have hlt : ofBE (stream.take 4) < 2 ^ 32 := ofBE_four_lt (by simp [h4])
  refine ⟨(List.take_append_drop _ _).symm, ?_, by simp; omega⟩
  refine ⟨(stream.drop 4).take (ofBE (stream.take 4)), ?_, by simp; omega⟩
  have hlen : ((stream.drop 4).take (ofBE (stream.take 4))).length = ofBE (stream.take 4) := by
    simp
    omega
  have hword : be32 (ofBE (stream.take 4) : Nat) = stream.take 4 :=
    be32_ofBE (List.length_take_of_le h4)
  rw [hlen, hword, List.take_add]

theorem decode_some_length (h : decode pb buf = .ok (some m)) : 8 < int32 buf.length := by
  simp only [decode, throw_eq_error, error_bind, pure_eq_ok] at h
  obtain ⟨announced, -, h⟩ := bind_returns h
  split at h
  · cases h
  · obtain ⟨word, -, h⟩ := bind_returns h
    split at h
    · cases h
    · split at h
      · cases h
      · split at h
        · cases h
        · omega

theorem packetOf_some (h : packetOf pb buf = some p) (hlen : buf.length < 2 ^ 32 + 4) :
    ∃ m, decode pb buf = .ok (some m) ∧ pb.toAvPacket m = some p ∧ buf.length < 2 ^ 32 := by
  unfold packetOf at h
  split at h
  · rename_i m hm
    obtain ⟨message, rfl, hp⟩ := Option.bind_eq_some_iff.mp h
    have hpos := decode_some_length pb hm
    refine ⟨message, hm, hp, ?_⟩
    unfold int32 at hpos
    split at hpos <;> omega
  · cases h

theorem quitsAfter_nil (hl : (l 0).length = 4) :
    QuitsAfter pb l stream [] ↔ Refused pb (l 0) stream := by
  obtain ⟨ec, rest, hread⟩ := asyncReadPacket_cut pb hl stream
  constructor
  · rintro ⟨fuel, hrun⟩
    cases fuel with
    | zero => simp [interfaceRunner] at hrun
    | succ fuel =>
      simp only [interfaceRunner, hread] at hrun
      split at hrun
      · simp at hrun
      · rename_i hok
        split at hok
        · rename_i hfit
          refine ⟨hfit, ?_⟩
          cases hd : decode pb (cutBuffer (l 0) stream) with
          | error f => simp [hd, Except.map] at hok
          | ok m =>
            simp only [hd, Except.map, Except.ok.injEq, PacketRead.mk.injEq] at hok
            exact ⟨m, rfl, hok.1⟩
        · cases hok
      · simp at hrun
  · rintro ⟨hfit, m, hd, hm⟩
    refine ⟨1, ?_⟩
    rw [if_pos hfit, hd] at hread
    simp [interfaceRunner, hread, Except.map, hm]

theorem quitsAfter_cons (hread : asyncReadPacket pb (l 0) stream = .ok ⟨some p, ec, rest⟩) :
    QuitsAfter pb l stream (p :: ps) ↔ QuitsAfter pb (fun k => l (k + 1)) rest ps := by
  constructor
  · rintro ⟨fuel, hrun⟩
    cases fuel with
    | zero => simp [interfaceRunner] at hrun
    | succ fuel =>
      simp only [interfaceRunner, hread, RunnerResult.mk.injEq, List.cons.injEq, true_and] at hrun
      exact ⟨fuel, RunnerResult.ext hrun.1 hrun.2⟩
  · rintro ⟨fuel, hrun⟩
    exact ⟨fuel + 1, by simp [interfaceRunner, hread, hrun]⟩

/-- The runner dispatches the completely received packets and quits, exactly
when the rest of the stream, padded as the buffer is, is refused. -/
theorem interfaceRunner_iff (l : Nat → Bytes) (hl : ∀ k, (l k).length = 4) (stream : Bytes) :
    QuitsAfter pb l stream (completePackets pb stream).1 ↔
      Refused pb (l (completePackets pb stream).1.length) (completePackets pb stream).2 := by
  suffices h : ∀ fuel l, (∀ k, (l k).length = 4) → ∀ stream,
      (QuitsAfter pb l stream (completePacketsWith pb fuel stream).1 ↔
        Refused pb (l (completePacketsWith pb fuel stream).1.length)
          (completePacketsWith pb fuel stream).2) from h stream.length l hl stream
  intro fuel
  induction fuel with
  | zero => exact fun l hl stream => quitsAfter_nil pb (hl 0)
  | succ fuel ih =>
    intro l hl stream
    unfold completePacketsWith
    split
    · exact quitsAfter_nil pb (hl 0)
    · rename_i buf rest htake
      obtain ⟨rfl, hframed, hlen⟩ := takeFrame_framed htake
      split
      · exact quitsAfter_nil pb (hl 0)
      · rename_i p hp
        obtain ⟨m, hm, hcast, hsize⟩ := packetOf_some pb hp hlen
        have hread := asyncReadPacket_framed pb (hl 0) hframed hsize rest
        rw [hm] at hread
        simp only [Except.map, Option.bind_some, hcast] at hread
        rw [quitsAfter_cons pb hread, ih _ (fun k => hl (k + 1)) rest, List.length_cons]

def sampleFrame : Bytes :=
  frame (text "proto.avPacket")
    (Lib.Proto2.writeFields (Schema.consecutive.packetFields samplePacket))

theorem interfaceRunner_iff_sample :
    QuitsAfter (pool .consecutive) (fun _ => [0, 0, 0, 9]) sampleFrame [samplePacket] := by
  have hall : completePackets (pool .consecutive) sampleFrame = ([samplePacket], []) := by
    decide +kernel
  have h := interfaceRunner_iff (pool .consecutive) (fun _ => [0, 0, 0, 9]) (fun _ => rfl)
    sampleFrame
  have hend : decode (pool .consecutive) (cutBuffer [0, 0, 0, 9] []) = .ok none := by
    decide +kernel
  rw [hall] at h
  exact h.mpr ⟨by decide, none, hend, rfl⟩

theorem not_refused (h : packetOf pb (cutBuffer l tail) = some p) : ¬ Refused pb l tail := by
  rintro ⟨-, m, hd, hm⟩
  rw [packetOf, hd] at h
  simp [hm] at h

/-- The connection ends inside the payload: no frame is complete, yet a packet
is dispatched, with zeros at the end of its payload. -/
theorem interfaceRunner_cut :
    completePackets (pool .consecutive) (sampleFrame.take 50) = ([], sampleFrame.take 50) ∧
      interfaceRunner (pool .consecutive) 2 (fun _ => [0, 0, 0, 9]) (sampleFrame.take 50) =
        ⟨[{ samplePacket with payload := some [1, 2, 0, 0, 0] }], .quit⟩ ∧
      ¬ QuitsAfter (pool .consecutive) (fun _ => [0, 0, 0, 9]) (sampleFrame.take 50) [] := by
  refine ⟨by decide +kernel, by decide +kernel, ?_⟩
  rw [quitsAfter_nil _ rfl]
  exact not_refused _ (p := { samplePacket with payload := some [1, 2, 0, 0, 0] })
    (by decide +kernel)

end Avim
