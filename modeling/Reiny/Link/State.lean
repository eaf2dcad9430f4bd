import Reiny.Link.Ports

/-! The sans-I/O link: its buffers, clocks and counters around the contract tables, and every
operation a caller can perform on it. -/

namespace Reiny.Link.State

open Lib Words Utf8 Results Wire HelloFormat Ports

structure LinkConfig where
  pingIntervalMs : UInt32
  timeoutMs : UInt32

def LinkConfig.default : LinkConfig := ⟨1000, 3000⟩

structure Frame where
  kind : Kind
  hash : UInt32
  seq : UInt8
  len : ℕ
  generation : UInt16
deriving DecidableEq

inductive Event
  | connected (frame : Frame)
  | disconnected
  | data (frame : Frame)
  | request (frame : Frame)
  | reply (frame : Frame)
  | error (frame : Frame)
deriving DecidableEq

structure Stats where
  badFrames : UInt32
  droppedSchema : UInt32
  droppedUnwanted : UInt32
  rxOverflow : UInt32
  remoteOverflow : UInt32
  txFull : UInt32

end Reiny.Link.State

namespace Reiny

open Lib Words Utf8 Results Link.Wire Link.HelloFormat Link.Ports Link.State

structure Link (N FRAME : ℕ) extends Tables N FRAME where
  tx : Bytes
  txCap : ℕ
  rx : Bytes
  rxCap : ℕ
  rxConsumed : ℕ
  rxSkip : Bool
  rxGeneration : UInt16
  config : LinkConfig
  dataSeq : UInt8
  reqSeq : UInt8
  nowMs : UInt32
  lastRxMs : UInt32
  lastTxMs : UInt32
  stats : Stats

namespace Link

def text (s : String) : Bytes := s.toUTF8.toList

variable {N FRAME : ℕ}

def initial (id : Str) (ports : List StaticPort) (txCap rxCap : ℕ) : Link N FRAME where
  id := id
  peer := none
  locals := []
  ports := ports
  declared := []
  remote := []
  peerHello := []
  pending := Vector.replicate N none
  tx := []
  txCap := txCap
  rx := []
  rxCap := rxCap
  rxConsumed := 0
  rxSkip := false
  rxGeneration := 0
  config := .default
  started := false
  connected := false
  bridge := false
  peerBridge := false
  dataSeq := 0
  reqSeq := 0
  nowMs := 0
  lastRxMs := 0
  lastTxMs := 0
  stats := ⟨0, 0, 0, 0, 0, 0⟩

def new (id : Str) (ports : List StaticPort) (txCap rxCap : ℕ) : Except Error (Link N FRAME) := do
  ensure (OVERHEAD ≤ FRAME) .tooLarge
  ensure (portsOk ports = true) .invalidPorts
  ensure (validNamespace id.bytes = true) .invalidPorts
  let id ← idBuf id
  return initial id ports txCap rxCap

def withConfig (l : Link N FRAME) (config : LinkConfig) : Link N FRAME := { l with config }

def intoBridge (l : Link N FRAME) : Link N FRAME := { l with bridge := true }

def withTables (l : Link N FRAME) (t : Tables N FRAME) : Link N FRAME := { l with toTables := t }

def declare (l : Link N FRAME) (name : Str) (direction : PortDirection) (flag : UInt8) (ty : PortType)
    (response : Option PortType) : Except Error Unit × Link N FRAME :=
  match l.toTables.declare name direction flag ty response with
  | .error e => (.error e, l)
  | .ok t => (.ok (), l.withTables t)

def publishes (l : Link N FRAME) (ty : PortType) (name : Str) : Except Error Unit × Link N FRAME :=
  l.declare name .output PUB ty none

def publishesLatched (l : Link N FRAME) (ty : PortType) (name : Str) : Except Error Unit × Link N FRAME :=
  l.declare name .output (PUB ||| LATCHED) ty none

def subscribes (l : Link N FRAME) (ty : PortType) (name : Str) : Except Error Unit × Link N FRAME :=
  l.declare name .input SUB ty none

def rpcServer (l : Link N FRAME) (S : Service) (name : Str) : Except Error Unit × Link N FRAME :=
  l.declare name .rpcServer SERVE S.request (some S.response)

def rpcClient (l : Link N FRAME) (S : Service) (name : Str) : Except Error Unit × Link N FRAME :=
  l.declare name .rpcClient CALLS S.request (some S.response)

section Emission

variable (C : Codec)

def countTxFull (l : Link N FRAME) : Link N FRAME :=
  { l with stats := { l.stats with txFull := l.stats.txFull + 1 } }

def emit (l : Link N FRAME) (kind : Kind) (hash : UInt32) (seq : UInt8) (payload : Bytes) :
    Except Error Unit × Link N FRAME :=
  match sealFrame C FRAME ⟨kind, hash, seq⟩ payload with
  | .error _ => (.error .tooLarge, l)
  | .ok raw =>
    if l.txCap - l.tx.length < encodedMax C raw.length then
      (.error .full, l.countTxFull)
    else
      match encode C raw (l.txCap - l.tx.length) with
      | .error _ => (.error .full, l)
      | .ok bytes => (.ok (), { l with tx := l.tx ++ bytes, lastTxMs := l.nowMs })

def queueHello (l : Link N FRAME) (ack : Bool) : Except Error Unit × Link N FRAME :=
  match l.helloPayload ack with
  | .error e => (.error e, l)
  | .ok payload => l.emit C .hello 0 0 payload

def ensureStarted (l : Link N FRAME) : Link N FRAME :=
  if l.started then l else (queueHello C { l with started := true } false).2

def emitData (l : Link N FRAME) (hash : UInt32) (payload : Bytes) : Except Error Bool × Link N FRAME :=
  match emit C { l with dataSeq := l.dataSeq + 1 } .data hash l.dataSeq payload with
  | (.error e, l') => (.error e, l')
  | (.ok (), l') => (.ok true, l')

def freeSeq (l : Link N FRAME) (hash : UInt32) : Option UInt8 :=
  ((List.range 256).map fun offset => l.reqSeq + UInt8.ofNat offset).find? fun seq =>
    !l.pending.contains (some (hash, seq))

def emitRequest (l : Link N FRAME) (hash : UInt32) (payload : Bytes) : Except Error UInt8 × Link N FRAME :=
  match l.pending.findFinIdx? (·.isNone), l.freeSeq hash with
  | some free, some seq =>
    match l.emit C .request hash seq payload with
    | (.error e, l') => (.error e, l')
    | (.ok (), l') =>
      (.ok seq, { l' with reqSeq := seq + 1, pending := l'.pending.set free (some (hash, seq)) free.isLt })
  | _, _ => (.error .tableFull, l)

def emitReply (l : Link N FRAME) (hash : UInt32) (seq : UInt8) (schema : UInt64) (payload : Bytes) :
    Except Error Unit × Link N FRAME :=
  if payload.length + 8 > FRAME - OVERHEAD then (.error .tooLarge, l)
  else l.emit C .reply hash seq (le64 schema ++ payload)

def emitError (l : Link N FRAME) (hash : UInt32) (seq : UInt8) (message : Bytes) :
    Except Error Unit × Link N FRAME :=
  l.emit C .error hash seq (message.take (min message.length (FRAME - OVERHEAD)))

end Emission

section Sending

variable (C : Codec)

def checkPayload (FRAME : ℕ) (payload : Bytes) : Except Error Unit :=
  ensure (payload.length ≤ FRAME - OVERHEAD) .tooLarge

def guarded {α : Type} (l : Link N FRAME) (check : Except Error Unit)
    (act : Except Error α × Link N FRAME) : Except Error α × Link N FRAME :=
  match check with
  | .error e => (.error e, l)
  | .ok () => act

-- A message is represented by its prost encoding throughout.
def send (l : Link N FRAME) (ty : PortType) (name : Str) (msg : Bytes) : Except Error Bool × Link N FRAME :=
  let hash := endpointHash l.id name
  l.guarded (l.checkPort name .output ty none) <|
  l.guarded (l.checkPublishes hash) <|
  l.guarded (ensure ((l.localType hash).all (fun t => t.schema == ty.schema) = true) .schemaMismatch) <|
  if l.peerSubscribesHash hash then l.guarded (checkPayload FRAME msg) (l.emitData C hash msg)
  else (.ok false, l)

def sendRaw (l : Link N FRAME) (hash : UInt32) (payload : Bytes) : Except Error Bool × Link N FRAME :=
  l.guarded (l.checkPublishes hash) <|
  if l.peerSubscribesHash hash then l.guarded (checkPayload FRAME payload) (l.emitData C hash payload)
  else (.ok false, l)

def request (l : Link N FRAME) (S : Service) (name : Str) (req : Bytes) : Except Error UInt8 × Link N FRAME :=
  match l.requestHash S name with
  | .error e => (.error e, l)
  | .ok hash =>
    l.guarded (ensure (l.peerServesHash hash = true) .noPeerService) <|
    l.guarded (ensure ((l.remoteType hash).all (fun r => r.schema == S.request.schema) = true) .schemaMismatch) <|
    l.guarded (checkPayload FRAME req) (l.emitRequest C hash req)

def requestRaw (l : Link N FRAME) (hash : UInt32) (payload : Bytes) : Except Error UInt8 × Link N FRAME :=
  l.guarded (ensure (l.bridge = true ∨ (l.localSource hash CALLS).isSome = true) .notDeclared) <|
  l.guarded (ensure (l.peerServesHash hash = true) .noPeerService) <|
  l.guarded (checkPayload FRAME payload) (l.emitRequest C hash payload)

def reply (l : Link N FRAME) (S : Service) (name : Str) (seq : UInt8) (resp : Bytes) :
    Except Error Unit × Link N FRAME :=
  l.guarded (l.checkPort name .rpcServer S.request (some S.response)) <|
  l.guarded (checkPayload FRAME resp) <|
  l.emitReply C (endpointHash l.id name) seq S.response.schema resp

def replyRaw (l : Link N FRAME) (seq : UInt8) (hash : UInt32) (schema : UInt64) (payload : Bytes) :
    Except Error Unit × Link N FRAME :=
  l.guarded (checkPayload FRAME payload) (l.emitReply C hash seq schema payload)

def replyErr (l : Link N FRAME) (S : Service) (name : Str) (seq : UInt8) (message : Bytes) :
    Except Error Unit × Link N FRAME :=
  l.guarded (l.checkPort name .rpcServer S.request (some S.response)) <|
  l.emitError C (endpointHash l.id name) seq message

def replyErrRaw (l : Link N FRAME) (seq : UInt8) (hash : UInt32) (message : Bytes) :
    Except Error Unit × Link N FRAME := l.emitError C hash seq message

def cancelRequest (l : Link N FRAME) (hash : UInt32) (seq : UInt8) : Link N FRAME :=
  l.withTables (l.toTables.cancelRequest hash seq)

end Sending

section Buffers

variable (C : Codec)

def rxDiscard (l : Link N FRAME) (n : ℕ) : Link N FRAME :=
  { l with rx := l.rx.drop n, rxGeneration := l.rxGeneration + 1 }

def rxCompact (l : Link N FRAME) : Link N FRAME :=
  if l.rxConsumed > 0 then rxDiscard { l with rxConsumed := 0 } l.rxConsumed else l

def countRxOverflow (l : Link N FRAME) : Link N FRAME :=
  { l with stats := { l.stats with rxOverflow := l.stats.rxOverflow + 1 } }

def feedLoop : ℕ → Link N FRAME → Bytes → Link N FRAME × Bytes
  | 0, l, rest => (l, rest)
  | fuel + 1, l, rest =>
    if rest = [] then (l, [])
    else if l.rxSkip then
      match rest.dropWhile (· != DELIMITER) with
      | [] => (l, [])
      | _ :: rest' => feedLoop fuel { l with rxSkip := false } rest'
    else if l.rxCap - l.rx.length = 0 then
      if DELIMITER ∈ l.rx then (l, rest)
      else feedLoop fuel { l.countRxOverflow with rx := [], rxSkip := true } rest
    else
      let n := min (l.rxCap - l.rx.length) rest.length
      feedLoop fuel { l with rx := l.rx ++ rest.take n } (rest.drop n)

-- An overflow is the only round that takes no byte, and the round after it discards at least one.
def feed (l : Link N FRAME) (bytes : Bytes) : ℕ × Link N FRAME :=
  let (l', rest) := feedLoop (2 * bytes.length + 1) (l.ensureStarted C).rxCompact bytes
  (bytes.length - rest.length, l')

def txConsume (l : Link N FRAME) (n : ℕ) : Link N FRAME := { l with tx := l.tx.drop n }

def drain (l : Link N FRAME) (room : ℕ) : Bytes × Link N FRAME :=
  let l := l.ensureStarted C
  (l.tx.take (min l.tx.length room), l.txConsume (min l.tx.length room))

def drainFrame (l : Link N FRAME) (room : ℕ) : Option Bytes × Link N FRAME :=
  let l := l.ensureStarted C
  match l.tx.findIdx? (· == DELIMITER) with
  | none => (none, l)
  | some position =>
    if position + 1 > room then
      (none, l.countTxFull.txConsume (position + 1))
    else (some (l.tx.take (position + 1)), l.txConsume (position + 1))

def tick (l : Link N FRAME) (nowMs : UInt32) : Option Event × Link N FRAME :=
  let l := { l with nowMs }
  if l.started = false then (none, ensureStarted C { l with lastRxMs := nowMs })
  else if l.connected then
    if nowMs - l.lastRxMs > l.config.timeoutMs then (some .disconnected, l.withTables l.forgetPeer)
    else if nowMs - l.lastTxMs ≥ l.config.pingIntervalMs then (none, (l.emit C .ping 0 0 []).2)
    else (none, l)
  else if nowMs - l.lastTxMs ≥ l.config.pingIntervalMs then (none, (l.queueHello C false).2)
  else (none, l)

end Buffers

section Receiving

variable (C : Codec)

def decodeFrame (l : Link N FRAME) (frameEnd : ℕ) : Option (Frame × Bytes) :=
  match decodeInPlace C (l.rx.take frameEnd) with
  | .error _ => none
  | .ok raw =>
    if raw.length > FRAME then none
    else
      match parse C raw with
      | .error _ => none
      | .ok (header, payload) =>
        if payload.length ≤ 65535 then
          some (⟨header.kind, header.hash, header.seq, payload.length, 0⟩, raw ++ l.rx.drop raw.length)
        else none

def rxPayload (l : Link N FRAME) (len : ℕ) : Bytes := (l.rx.drop HEADER).take len

def badFrame (l : Link N FRAME) : Link N FRAME :=
  { l with stats := { l.stats with badFrames := l.stats.badFrames + 1 } }

def countOverflow (l : Link N FRAME) (e : Error) : Link N FRAME :=
  if e = .tableFull then { l with stats := { l.stats with remoteOverflow := l.stats.remoteOverflow + 1 } } else l

def refuseHello (l : Link N FRAME) (e : Error) : Option Event × Link N FRAME :=
  (if l.connected then some .disconnected else none, (l.badFrame.countOverflow e).withTables l.forgetPeer)

def acceptHello (l : Link N FRAME) (frame : Frame) (payload : Bytes) (contract : PeerContract) :
    Option Event × Link N FRAME :=
  let adopted := l.withTables (l.adopt payload contract)
  (if !contract.ack || !l.connected then some (.connected frame) else none,
    if contract.ack then adopted else (adopted.queueHello C true).2)

def onHello (l : Link N FRAME) (frame : Frame) : Option Event × Link N FRAME :=
  match l.validateHello (l.rxPayload frame.len) with
  | .error e => l.refuseHello e
  | .ok contract => l.acceptHello C frame (l.rxPayload frame.len) contract

def dropUnwanted (l : Link N FRAME) : Link N FRAME :=
  { l with stats := { l.stats with droppedUnwanted := l.stats.droppedUnwanted + 1 } }

def dropSchema (l : Link N FRAME) : Link N FRAME :=
  { l with stats := { l.stats with droppedSchema := l.stats.droppedSchema + 1 } }

def wantsData (l : Link N FRAME) (hash : UInt32) : Bool :=
  if l.bridge then (l.remoteType hash).any fun r => r.flags &&& PUB != 0
  else (l.localSource hash SUB).isSome

def peerPublishes (l : Link N FRAME) (hash : UInt32) : Bool :=
  l.peerBridge || (l.remoteType hash).any fun r => !r.mismatch && r.flags &&& PUB != 0

def onData (l : Link N FRAME) (frame : Frame) : Option Event × Link N FRAME :=
  if !l.wantsData frame.hash then (none, l.dropUnwanted)
  else if !l.connected || !l.peerPublishes frame.hash then (none, l.dropSchema)
  else (some (.data frame), l)

def onRequest (l : Link N FRAME) (frame : Frame) : Option Event × Link N FRAME :=
  let served := (l.localType frame.hash).any fun t => t.flags &&& SERVE != 0
  let caller := (l.remoteSource frame.hash CALLS).isSome
  if !l.connected || (!l.peerBridge && !caller) then
    (none, (l.dropUnwanted.emitError C frame.hash frame.seq (text "undeclared source")).2)
  else if served || (l.bridge && caller) then (some (.request frame), l)
  else (none, (l.dropUnwanted.emitError C frame.hash frame.seq (text "no such service")).2)

def onReply (l : Link N FRAME) (frame : Frame) (event : Event) : Option Event × Link N FRAME :=
  if !l.connected || !l.pending.contains (some (frame.hash, frame.seq)) then (none, l.dropUnwanted)
  else (some event, l.cancelRequest frame.hash frame.seq)

def dispatch (l : Link N FRAME) (frame : Frame) : Option Event × Link N FRAME :=
  match frame.kind with
  | .hello => l.onHello C frame
  | .ping => (none, l)
  | .data => l.onData frame
  | .request => l.onRequest C frame
  | .reply => l.onReply frame (.reply frame)
  | .error => l.onReply frame (.error frame)

def received (l : Link N FRAME) (frame : Frame) (rx : Bytes) (consumed : ℕ) : Frame × Link N FRAME :=
  ({ frame with generation := l.rxGeneration + 1 },
    { l with rx, rxConsumed := consumed, rxGeneration := l.rxGeneration + 1, lastRxMs := l.nowMs })

def settle (x : Option Event × Link N FRAME) : Option Event × Link N FRAME :=
  match x with
  | (some event, l) => (some event, l)
  | (none, l) => (none, l.rxCompact)

def nextRound (l : Link N FRAME) : Option (Option Event × Link N FRAME) :=
  match l.rx.findIdx? (· == DELIMITER) with
  | none => none
  | some 0 => some (none, l.rxDiscard 1)
  | some frameEnd =>
    match l.decodeFrame C frameEnd with
    | none => some (none, l.badFrame.rxDiscard (frameEnd + 1))
    | some (frame, rx) =>
      let (frame, l) := l.received frame rx (frameEnd + 1)
      some (settle (l.dispatch C frame))

def nextLoop : ℕ → Link N FRAME → Option Event × Link N FRAME
  | 0, l => (none, l)
  | fuel + 1, l =>
    match l.nextRound C with
    | none => (none, l)
    | some (some event, l) => (some event, l)
    | some (none, l) => nextLoop fuel l

-- Every round but the last discards at least the delimiter it found.
def next (l : Link N FRAME) : Option Event × Link N FRAME :=
  let l := (l.ensureStarted C).rxCompact
  nextLoop C (l.rx.length + 1) l

end Receiving

def isFresh (l : Link N FRAME) (frame : Frame) : Bool := frame.generation == l.rxGeneration

def payload (l : Link N FRAME) (frame : Frame) : Bytes :=
  if l.isFresh frame then l.rxPayload frame.len else []

def frameLocal (l : Link N FRAME) (frame : Frame) : Option LocalType :=
  match frame.kind with
  | .data => if l.peerBridge then l.localSource frame.hash SUB else none
  | .request => l.localType frame.hash
  | .reply => l.localSource frame.hash CALLS
  | .hello | .error | .ping => none

def frameContract (l : Link N FRAME) (frame : Frame) : Option PortType :=
  if l.isFresh frame then
    match l.frameLocal frame with
    | some t => some ⟨t.name, t.schema⟩
    | none => do
      let hello ← l.hello
      let entry ← if frame.kind = .request then l.remoteSource frame.hash CALLS
        else hello.entries.find? fun e => e.hash == frame.hash && e.flags &&& (PUB ||| SERVE) != 0
      return ⟨entry.name, entry.schema⟩
  else none

def decode {M : Type} (l : Link N FRAME) (T : MessageType M) (frame : Frame) : Option M :=
  if (frame.kind = .data ∨ frame.kind = .request) ∧ l.frameContract frame = some T.contract then
    T.decode (l.payload frame)
  else none

def errorMessage (l : Link N FRAME) (frame : Frame) : Bytes :=
  match fromUtf8 (l.payload frame) with
  | some s => s.bytes
  | none => []

inductive Op
  | publishes (ty : PortType) (name : Str)
  | publishesLatched (ty : PortType) (name : Str)
  | subscribes (ty : PortType) (name : Str)
  | rpcServer (S : Service) (name : Str)
  | rpcClient (S : Service) (name : Str)
  | feed (bytes : Bytes)
  | drain (room : ℕ)
  | drainFrame (room : ℕ)
  | tick (nowMs : UInt32)
  | next
  | send (ty : PortType) (name : Str) (msg : Bytes)
  | sendRaw (hash : UInt32) (payload : Bytes)
  | request (S : Service) (name : Str) (req : Bytes)
  | requestRaw (hash : UInt32) (payload : Bytes)
  | reply (S : Service) (name : Str) (seq : UInt8) (resp : Bytes)
  | replyRaw (seq : UInt8) (hash : UInt32) (schema : UInt64) (payload : Bytes)
  | replyErr (S : Service) (name : Str) (seq : UInt8) (message : Bytes)
  | replyErrRaw (seq : UInt8) (hash : UInt32) (message : Bytes)
  | cancelRequest (hash : UInt32) (seq : UInt8)
  | withConfig (config : LinkConfig)

def Op.apply {N FRAME : ℕ} (C : Codec) (l : Link N FRAME) : Op → Link N FRAME
  | .publishes ty name => (l.publishes ty name).2
  | .publishesLatched ty name => (l.publishesLatched ty name).2
  | .subscribes ty name => (l.subscribes ty name).2
  | .rpcServer S name => (l.rpcServer S name).2
  | .rpcClient S name => (l.rpcClient S name).2
  | .feed bytes => (l.feed C bytes).2
  | .drain room => (l.drain C room).2
  | .drainFrame room => (l.drainFrame C room).2
  | .tick nowMs => (l.tick C nowMs).2
  | .next => (l.next C).2
  | .send ty name msg => (l.send C ty name msg).2
  | .sendRaw hash payload => (l.sendRaw C hash payload).2
  | .request S name req => (l.request C S name req).2
  | .requestRaw hash payload => (l.requestRaw C hash payload).2
  | .reply S name seq resp => (l.reply C S name seq resp).2
  | .replyRaw seq hash schema payload => (l.replyRaw C seq hash schema payload).2
  | .replyErr S name seq message => (l.replyErr C S name seq message).2
  | .replyErrRaw seq hash message => (l.replyErrRaw C seq hash message).2
  | .cancelRequest hash seq => l.cancelRequest hash seq
  | .withConfig config => l.withConfig config

end Link

end Reiny
