import Avim.AvJackIf
import Avim.CoroQueue
import Avim.KeyStore
import Avim.Routing

/-!
# The kernel

`avkernel_impl`: tables, keys, the receive buffer, and the coroutines that are
suspended in it. Everything runs on one `io_service`, so a coroutine runs from
one suspension to the next without interference; what may come next is an
`Event`, and `step` runs it. A step that ends in a `Fault` brings the process
down.

The clock is read once an event. Application handlers are told and do not call
back; what an application does next is an event of its own. Nothing is ever
put into the preprocess list, so it is left out, and so is the log.

`trace` is not part of the program: it records what was enqueued, written,
completed and delivered, in order.
-/

namespace Avim

open Lib.Octets Lib.Sort

structure Libs where
  pb : Protobuf
  ossl : OpenSSL
  regex : Regex
  std : StdSort

-- ---------------------------------------------------------------------------
-- State
-- ---------------------------------------------------------------------------

/-- Why a packet was put into a write queue. `send` counts the calls of
`async_sendto`. -/
inductive Cause
  | forwarded
  | pkreply
  | pkask (send : Nat)
  | data (send : Nat)
  deriving DecidableEq, Repr

def Cause.handler : Cause → Option Nat
  | .data send => some send
  | _ => none

inductive Effect
  | enqueued (link : Nat) (cause : Cause) (packet : AvPacket)
  -- A socket write ended, for the call whose handler was queued with it.
  | wrote (link : Nat) (handler : Option Nat) (bytes : Bytes) (written : Bool)
  -- The handler of an `async_sendto` was invoked.
  | completed (send : Nat) (ec : ErrorCode)
  -- A message went into `m_recv_buffer`.
  | pushed (sender payload : Bytes)
  -- The handler of an `async_recvfrom` was invoked.
  | received (call : Nat) (ec : ErrorCode) (sender payload : Bytes)
  deriving DecidableEq, Repr

/-- A suspended `async_sendto_op`: `asks` counts the `pkask` it has sent. -/
structure SendOp where
  send : Nat
  target : Bytes
  data : Bytes
  interface : AvifPtr
  asks : Nat
  deriving DecidableEq, Repr

/-- An `async_wait_packet_pred_handler`. The predicate is the one
`async_sendto_op` registers for its target, the handler resumes it. -/
structure Waiter where
  deadline : Int
  op : SendOp
  deriving DecidableEq, Repr

/-- How many more times its call can come back. -/
def Waiter.rounds (w : Waiter) : Nat := 3 - w.op.asks + 1

deriving instance Inhabited for AvAddress, AvPacket

abbrev WriteValue := AvPacket × Option Nat

/-- What the copies of an `avif` share. Readers of the queue are ports. -/
structure Link where
  quitting : Bool
  writeQueue : CoroQueue WriteValue Nat Empty
  deriving DecidableEq, Repr

inductive Runner
  | spawned
  | reading
  | exited
  deriving DecidableEq, Repr

inductive Writer
  | spawned
  -- in `async_pop`
  | popping
  -- in `async_write`
  | writing (bytes : Bytes) (handler : Option Nat)
  | exited
  deriving DecidableEq, Repr

structure Port where
  avif : Avif
  runner : Runner
  writer : Writer
  deriving DecidableEq, Repr

inductive Completion
  | popped (port : Nat) (ec : ErrorCode) (value : WriteValue)
  | received (call : Nat) (ec : ErrorCode) (value : Bytes × Bytes)
  deriving DecidableEq, Repr

structure Kernel where
  routing : Routing
  -- the counter of `avjackif::get_ifname`
  ifCounter : Nat
  trustedPubkey : KeyStore
  recvBuffer : CoroQueue (Bytes × Bytes) Nat Empty
  waiters : List Waiter
  links : Nat → Link
  ports : List Port
  -- `process_recived_packet` coroutines that have not started
  spawned : List (AvPacket × Avif)
  posted : List Completion
  -- blocks encrypted so far, to tell random paddings apart
  draws : Nat
  sends : Nat
  recvs : Nat
  trace : List Effect

def Kernel.initial : Kernel where
  routing := .empty
  ifCounter := 0
  trustedPubkey := ∅
  recvBuffer := .empty
  waiters := []
  links _ := ⟨false, .empty⟩
  ports := []
  spawned := []
  posted := []
  draws := 0
  sends := 0
  recvs := 0
  trace := []

-- ---------------------------------------------------------------------------
-- Sending
-- ---------------------------------------------------------------------------

namespace Kernel

def poppedOf : Posted WriteValue Nat Empty → Completion
  | .pop port ec value => .popped port ec value
  | .wait handler _ => handler.elim

def receivedOf : Posted (Bytes × Bytes) Nat Empty → Completion
  | .pop call ec value => .received call ec value
  | .wait handler _ => handler.elim

def onQueue (k : Kernel) (link : Nat)
    (result : CoroQueue WriteValue Nat Empty × List (Posted WriteValue Nat Empty)) : Kernel :=
  { k with
    links := Function.update k.links link { k.links link with writeQueue := result.1 }
    posted := k.posted ++ result.2.map poppedOf }

def record (k : Kernel) (effect : Effect) : Kernel := { k with trace := k.trace ++ [effect] }

/-- `async_interface_write_packet`, both overloads: up to the suspension, if
there is one. -/
def asyncInterfaceWritePacket (k : Kernel) (avif : Avif) (cause : Cause) (packet : AvPacket) :
    Kernel :=
  (k.onQueue avif.id ((k.links avif.id).writeQueue.push (packet, cause.handler))).record
    (.enqueued avif.id cause packet)

def pkask (ifAddress : AvAddress) (target : Bytes) : AvPacket where
  src := ifAddress
  dest := avAddressFromString target
  upperlayerpotocol := text "pkask"
  timeToLive := 64
  payload := none
  publickey := none

def asyncSendAgmpPkask (k : Kernel) (send : Nat) (avif : Avif) (target : Bytes) : Kernel :=
  k.asyncInterfaceWritePacket avif (.pkask send) (pkask avif.ifAddress target)

def pkreply (avif : Avif) (target : Bytes) : AvPacket where
  src := avif.ifAddress
  dest := avAddressFromString target
  upperlayerpotocol := text "pkreply"
  timeToLive := 64
  payload := some avif.cert
  publickey := none

def asyncSendAgmpPkreply (k : Kernel) (avif : Avif) (target : Bytes) : Kernel :=
  k.asyncInterfaceWritePacket avif .pkreply (pkreply avif target)

def dataPacket (avif : Avif) (target secondSign : Bytes) : AvPacket where
  src := avif.ifAddress
  dest := avAddressFromString target
  upperlayerpotocol := text "avim"
  timeToLive := 64
  payload := some secondSign
  publickey := some (minBE avif.rsaKey.n)

variable (lib : Libs)

/-- `async_sendto_op` once it has a key: encrypt, sign, build the packet and
suspend until it is written. -/
def sendData (k : Kernel) (op : SendOp) (targetPubkey : RSA) : Except Fault Kernel := do
  let firstPubencode ← rsaPublicEncrypt lib.ossl k.draws targetPubkey op.data
  let avif ← k.routing.deref op.interface
  let secondSign ← rsaPrivateEncrypt lib.ossl avif.rsaKey firstPubencode
  return { k with draws := k.draws + op.data.length }.asyncInterfaceWritePacket avif
    (.data op.send) (dataPacket avif op.target secondSign)

def askKey (k : Kernel) (op : SendOp) (now : Int) : Except Fault Kernel := do
  let avif ← k.routing.deref op.interface
  let k := k.asyncSendAgmpPkask op.send avif op.target
  let waiter : Waiter := ⟨now + 8 * 1000000, { op with asks := op.asks + 1 }⟩
  return { k with waiters := k.waiters ++ [waiter] }

/-- `async_sendto_op` from a lookup of the key on: go on with it, ask (again),
or give up after three times. -/
def sendOrAsk (k : Kernel) (op : SendOp) (now : Int) : Except Fault Kernel := do
  match ← k.trustedPubkey.findRSAPubkey op.target with
  | some targetPubkey => sendData lib k op targetPubkey
  | none =>
    if op.asks < 3 then askKey k op now
    else return k.record (.completed op.send .networkUnreachable)

def asyncSendto (k : Kernel) (target data : Bytes) (now : Int) : Except Fault Kernel := do
  let send := k.sends
  let k := { k with sends := k.sends + 1 }
  match ← k.routing.selectRoute lib.regex target with
  | none => return k.record (.completed send .networkUnreachable)
  | some interface => sendOrAsk lib k ⟨send, target, data, interface, 0⟩ now

-- ---------------------------------------------------------------------------
-- Sweeping the waiters
-- ---------------------------------------------------------------------------

/-- `while (it != end)`: a waiter that is due is resumed in place, which may
append another one, and then erased. `i` is the position of the iterator. -/
def sweepFrom (due : Kernel → Waiter → Except Fault Bool) (now : Int) :
    Nat → Kernel → Nat → Except Fault Kernel
  | 0, _, _ => .error .diverges
  | fuel + 1, k, i =>
    match k.waiters[i]? with
    | none => .ok k
    | some w => do
      if ← due k w then
        let k ← sendOrAsk lib k w.op now
        sweepFrom due now fuel { k with waiters := k.waiters.eraseIdx i } i
      else sweepFrom due now fuel k (i + 1)

def sweep (due : Kernel → Waiter → Except Fault Bool) (k : Kernel) (now : Int) :
    Except Fault Kernel :=
  sweepFrom lib due now ((k.waiters.map Waiter.rounds).sum + 1) k 0

def answered (packet : AvPacket) (k : Kernel) (w : Waiter) : Except Fault Bool :=
  if avAddressToString packet.src = w.op.target then
    (k.trustedPubkey.findRSAPubkey w.op.target).map Option.isSome
  else .ok false

def expired (now : Int) (_ : Kernel) (w : Waiter) : Except Fault Bool := .ok (w.deadline < now)

/-- The waiters are told `timed_out`, which `async_sendto_op` does not look at. -/
def timer1Tick (k : Kernel) (now : Int) : Except Fault Kernel := sweep lib (expired now) k now

def timer2Tick (k : Kernel) (now : Int) : Except Fault Kernel :=
  (k.trustedPubkey.purgeRSAPubkey now).map fun store => { k with trustedPubkey := store }

-- ---------------------------------------------------------------------------
-- Receiving
-- ---------------------------------------------------------------------------

def isToMe (k : Kernel) (addr : AvAddress) : Bool :=
  k.routing.avifs.toList.any fun i =>
    addr.username == i.2.ifAddress.username && addr.domain == i.2.ifAddress.domain

def carriedKey (packet : AvPacket) : RSA := ⟨ofBE (packet.publickey.getD []), 65537⟩

-- 500 hours in microseconds
def validity : Int := 500 * 3600 * 1000000

def addKey (k : Kernel) (address : Bytes) (rsa : RSA) (now : Int) : Kernel :=
  { k with trustedPubkey := k.trustedPubkey.addRSAPubkey lib.std address rsa (now + validity) }

def orNull (p : Option α) : Except Fault α :=
  match p with
  | some a => .ok a
  | none => .error .nullPointer

/-- The public key in a certificate; no result is checked on the way. -/
def certificateKey (payload : Bytes) : Except Fault RSA := do
  let crt ← orNull (lib.ossl.d2iX509 payload)
  let pkey ← orNull (lib.ossl.x509GetPubkey crt)
  orNull (lib.ossl.evpPkeyGet1RSA pkey)

def decryptPayload (rsa : RSA) (rsaKey : RSAKey) : Option Bytes → Except Fault Bytes
  | some payload => do
    let stage1decypted ← rsaPublicDecrypt lib.ossl rsa payload
    rsaPrivateDecrypt lib.ossl rsaKey stage1decypted
  | none => .ok []

def pushReceived (k : Kernel) (sender payload : Bytes) : Kernel :=
  let (queue, posted) := k.recvBuffer.push (sender, payload)
  { k with
    recvBuffer := queue
    posted := k.posted ++ posted.map receivedOf }.record (.pushed sender payload)

def processRecivedPacketToMe (k : Kernel) (packet : AvPacket) (avif : Avif) (now : Int) :
    Except Fault Kernel := do
  let add := avAddressToString packet.src
  if packet.upperlayerpotocol = text "pkask" then
    return k.asyncSendAgmpPkreply avif add
  if packet.upperlayerpotocol = text "pkreply" then
    let rsa ← certificateKey lib (packet.payload.getD [])
    return addKey lib k add rsa now
  let payload ← decryptPayload lib (carriedKey packet) avif.rsaKey packet.payload
  if packet.upperlayerpotocol = text "avim" then return k.pushReceived add payload
  return k

/-- The rest of `process_recived_packet` for a packet that is not for this
kernel. The log line asks the interface for its name. -/
def forward (k : Kernel) (packet : AvPacket) : Except Fault Kernel := do
  if packet.timeToLive ≤ 1 then return k
  let packet := { packet with timeToLive := packet.timeToLive - 1 }
  match ← k.routing.selectRoute lib.regex (avAddressToString packet.dest) with
  | none => return k
  | some interface =>
    let (_, t) := getIfname interface.avif.ifname k.ifCounter
    return { k with ifCounter := t }.asyncInterfaceWritePacket interface.avif .forwarded packet

/-- First contact: a carried key is stored if there is none for the sender. A
key on record is not compared with the one the packet carries. -/
def checkKey (k : Kernel) (packet : AvPacket) (now : Int) : Except Fault Kernel := do
  let add := avAddressToString packet.src
  let storedKey ← k.trustedPubkey.findRSAPubkey add
  if storedKey.isNone && packet.publickey.isSome then
    return addKey lib k add (carriedKey packet) now
  return k

def deliverOrForward (k : Kernel) (packet : AvPacket) (avif : Avif) (now : Int) :
    Except Fault Kernel :=
  if k.isToMe packet.dest then processRecivedPacketToMe lib k packet avif now
  else forward lib k packet

/-- Nothing in it suspends, and the waiters are swept on the way out. -/
def processRecivedPacket (k : Kernel) (packet : AvPacket) (avif : Avif) (now : Int) :
    Except Fault Kernel := do
  let k ← checkKey lib k packet now
  let k ← deliverOrForward lib k packet avif now
  sweep lib (answered packet) k now

def asyncRecvfrom (k : Kernel) : Kernel :=
  let (queue, posted) := k.recvBuffer.asyncPop k.recvs
  { k with
    recvBuffer := queue
    posted := k.posted ++ posted.map receivedOf
    recvs := k.recvs + 1 }

-- ---------------------------------------------------------------------------
-- The coroutines of an interface
-- ---------------------------------------------------------------------------

def setPort (k : Kernel) (port : Nat) (p : Port) : Kernel := { k with ports := k.ports.set port p }

/-- `interface_runner` from its loop head to the next read, or to its end:
cancel the queue and remove the interface under the name it has now. -/
def runnerLoop (k : Kernel) (port : Nat) (p : Port) : Kernel :=
  if (k.links p.avif.id).quitting then
    let k := k.onQueue p.avif.id (k.links p.avif.id).writeQueue.cancele
    let (name, t) := getIfname p.avif.ifname k.ifCounter
    { k with routing := k.routing.removeInterface name, ifCounter := t }.setPort port
      { p with runner := .exited }
  else k.setPort port { p with runner := .reading }

def quit (k : Kernel) (link : Nat) : Kernel :=
  { k with links := Function.update k.links link { k.links link with quitting := true } }

/-- `async_read_packet` returned: a packet is processed by a coroutine of its
own, a null pointer makes the interface quit. -/
def runnerRead (k : Kernel) (port : Nat) (p : Port) (packet : Option AvPacket) : Kernel :=
  match packet with
  | some packet => { k with spawned := k.spawned ++ [(packet, p.avif)] }.runnerLoop port p
  | none => (k.quit p.avif.id).runnerLoop port p

def writerLoop (k : Kernel) (port : Nat) (p : Port) : Kernel :=
  if (k.links p.avif.id).quitting then k.setPort port { p with writer := .exited }
  else (k.onQueue p.avif.id ((k.links p.avif.id).writeQueue.asyncPop port)).setPort port
    { p with writer := .popping }

def writerPopped (k : Kernel) (port : Nat) (p : Port) (ec : ErrorCode) (value : WriteValue) :
    Except Fault Kernel :=
  if ec ≠ .success then .ok (k.setPort port { p with writer := .exited })
  else (encode lib.pb (lib.pb.ofAvPacket value.1)).map fun bytes =>
    k.setPort port { p with writer := .writing bytes value.2 }

/-- What `avjackif::async_write_packet` leaves its caller with: whether the
write went well, and the caller's error code, which it does not touch. -/
def asyncWritePacketResult (written : Bool) (ec : ErrorCode) : Bool × ErrorCode := (written, ec)

/-- `async_write_packet` returned: its result is dropped and the handler is
invoked with the error code of the pop. -/
def writerWrote (k : Kernel) (port : Nat) (p : Port) (bytes : Bytes) (handler : Option Nat)
    (written : Bool) : Kernel :=
  let k := k.record (.wrote p.avif.id handler bytes written)
  let (_, ec) := asyncWritePacketResult written .success
  let k := match handler with
    | some send => k.record (.completed send ec)
    | none => k
  k.writerLoop port p

end Kernel

-- ---------------------------------------------------------------------------
-- Events
-- ---------------------------------------------------------------------------

inductive Event
  | addInterface (avif : Avif)
  | addRoute (targetAddress gateway ifname : Bytes) (metric : Int)
  -- the application asks an interface for its name
  | getIfname (avif : Avif)
  | asyncSendto (target data : Bytes) (now : Int)
  | asyncRecvfrom
  | startRunner (port : Nat)
  -- what `async_read_packet` returns to a runner
  | read (port : Nat) (packet : Option AvPacket)
  -- start a spawned `process_recived_packet`, in any order
  | process (index : Nat) (now : Int)
  | startWriter (port : Nat)
  -- how a socket write ends
  | writeDone (port : Nat) (written : Bool)
  -- run the oldest posted completion
  | runPosted
  | timer1 (now : Int)
  | timer2 (now : Int)

namespace Kernel

variable (lib : Libs)

def addInterface (k : Kernel) (avif : Avif) : Kernel :=
  let (routing, t, _) := k.routing.addInterface k.ifCounter avif
  { k with
    routing := routing
    ifCounter := t
    ports := k.ports ++ [⟨avif, .spawned, .spawned⟩] }

def runPosted (k : Kernel) : Except Fault Kernel :=
  match k.posted with
  | [] => .ok k
  | .popped port ec value :: posted =>
    match k.ports[port]? with
    | some p => writerPopped lib { k with posted := posted } port p ec value
    | none => .ok { k with posted := posted }
  | .received call ec value :: posted =>
    .ok ({ k with posted := posted }.record (.received call ec value.1 value.2))

/-- An event that does not fit the state of its port changes nothing. -/
def step (k : Kernel) : Event → Except Fault Kernel
  | .addInterface avif => .ok (k.addInterface avif)
  | .addRoute targetAddress gateway ifname metric =>
    let (routing, _) := k.routing.addRoute lib.regex lib.std targetAddress gateway ifname metric
    .ok { k with routing := routing }
  | .getIfname avif => .ok { k with ifCounter := (getIfname avif.ifname k.ifCounter).2 }
  | .asyncSendto target data now => asyncSendto lib k target data now
  | .asyncRecvfrom => .ok k.asyncRecvfrom
  | .startRunner port =>
    match k.ports[port]? with
    | some p => if p.runner = .spawned then .ok (k.runnerLoop port p) else .ok k
    | none => .ok k
  | .read port packet =>
    match k.ports[port]? with
    | some p => if p.runner = .reading then .ok (k.runnerRead port p packet) else .ok k
    | none => .ok k
  | .process index now =>
    match k.spawned[index]? with
    | some (packet, avif) =>
      processRecivedPacket lib { k with spawned := k.spawned.eraseIdx index } packet avif now
    | none => .ok k
  | .startWriter port =>
    match k.ports[port]? with
    | some p => if p.writer = .spawned then .ok (k.writerLoop port p) else .ok k
    | none => .ok k
  | .writeDone port written =>
    match k.ports[port]? with
    | some p =>
      match p.writer with
      | .writing bytes handler => .ok (k.writerWrote port p bytes handler written)
      | _ => .ok k
    | none => .ok k
  | .runPosted => runPosted lib k
  | .timer1 now => timer1Tick lib k now
  | .timer2 now => timer2Tick k now

-- ---------------------------------------------------------------------------
-- To compute with
-- ---------------------------------------------------------------------------

def sampleLibs : Libs := ⟨pool .consecutive, openSSL, sampleRegex, Lib.Sort.insertion⟩

def samplePeer (key : RSAKey) : Avif where
  id := 2
  ifname := .stable (text "eth0")
  ifAddress := ⟨text "b", text "x", none⟩
  rsaKey := key
  cert := certificate (text "b@x") key.toRSA

end Kernel

end Avim
