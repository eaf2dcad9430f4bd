import Reiny.Link.HelloFormat

namespace Reiny.Link.Ports

open Lib Words Utf8 Results Wire HelloFormat

inductive PortDirection
  | input
  | output
  | rpcServer
  | rpcClient
deriving DecidableEq

structure PortType where
  ty : Str
  schema : UInt64
deriving DecidableEq

structure Service where
  request : PortType
  response : PortType

structure MessageType (M : Type) where
  contract : PortType
  encode : M → Bytes
  decode : Bytes → Option M

structure StaticPort where
  name : Str
  direction : PortDirection
  ty : Str
  schema : UInt64
  response : Option PortType
  sources : List Endpoint
deriving DecidableEq

inductive Error
  | idTooLong
  | tableFull
  | hashCollision (existing new : Str)
  | schemaMismatch
  | started
  | notDeclared
  | unknownPort
  | wrongDirection
  | wrongType
  | invalidPorts
  | noPeerService
  | tooLarge
  | full
deriving DecidableEq

def ID_MAX : ℕ := 32

def idBuf (s : Str) : Except Error Str :=
  if s.len ≤ ID_MAX then .ok s else .error .idTooLong

def PortDirection.service (d : PortDirection) : Bool := d == .rpcServer || d == .rpcClient

def PortDirection.outgoing (d : PortDirection) : Bool := d == .output || d == .rpcServer

def portOk (others : List StaticPort) (port : StaticPort) : Bool :=
  validPort port.name.bytes &&
  !port.ty.bytes.isEmpty &&
  !(!port.direction.outgoing && port.sources.isEmpty) &&
  !(port.direction.outgoing && !port.sources.isEmpty) &&
  !(port.direction == .rpcClient && port.sources.length != 1) &&
  port.sources.zipIdx.all (fun (source, i) =>
    validNamespace source.ns.bytes && validPort source.port.bytes && !(port.sources.take i).contains source) &&
  port.direction.service == port.response.isSome &&
  !others.any fun other => other.name == port.name && other.direction.outgoing == port.direction.outgoing

def portsOk (ports : List StaticPort) : Bool :=
  ports.zipIdx.all fun (port, index) => portOk (ports.take index) port

structure LocalType where
  hash : UInt32
  name : Str
  schema : UInt64
  flags : UInt8
  port : StaticPort

structure RemoteType where
  hash : UInt32
  flags : UInt8
  schema : UInt64
  mismatch : Bool
deriving DecidableEq

structure PeerContract where
  peer : Str
  remote : List RemoteType
  ack : Bool
  bridge : Bool
deriving DecidableEq

structure Tables (N FRAME : ℕ) where
  id : Str
  peer : Option Str
  locals : List LocalType
  ports : List StaticPort
  declared : List StaticPort
  remote : List RemoteType
  peerHello : Bytes
  pending : Vector (Option (UInt32 × UInt8)) N
  started : Bool
  connected : Bool
  bridge : Bool
  peerBridge : Bool

def PortType.hello (t : PortType) : HelloType := ⟨t.ty, t.schema⟩

def LocalType.entry (t : LocalType) : HelloEntry where
  hash := t.hash
  flags := t.flags
  schema := t.schema
  name := t.name
  port := t.port.name
  response := t.port.response.map PortType.hello
  sources := .static t.port.sources

namespace Tables

variable {N FRAME : ℕ} (t : Tables N FRAME)

def localEntries : List HelloEntry := t.locals.map LocalType.entry

def helloPayload (ack : Bool) : Except Error Bytes :=
  match helloWrite (FRAME - TRAILER - HEADER) ack t.bridge t.id t.localEntries with
  | .error _ => .error .tooLarge
  | .ok payload =>
    match helloParse payload with
    | .error _ => .error .invalidPorts
    | .ok _ => .ok payload

def port (name : Str) (direction : PortDirection) (ty : PortType) (response : Option PortType) :
    Except Error StaticPort :=
  match t.ports.find? (fun port => port.name == name && port.direction == direction) with
  | none => .error (if t.ports.any (fun port => port.name == name) then .wrongDirection else .unknownPort)
  | some port =>
    if port.ty ≠ ty.ty ∨ port.response.map (·.ty) ≠ response.map (·.ty) then .error .wrongType
    else if port.schema ≠ ty.schema ∨ port.response.map (·.schema) ≠ response.map (·.schema) then
      .error .schemaMismatch
    else .ok port

def checkPort (name : Str) (direction : PortDirection) (ty : PortType) (response : Option PortType) :
    Except Error Unit := do
  let port ← t.port name direction ty response
  ensure (port ∈ t.declared) .notDeclared

-- Two entries of an accepted port table are never equal, so comparing the ports themselves decides
-- the reference comparison of the source.
def declareSlot (hash : UInt32) (port : StaticPort) (flag : UInt8) :
    List LocalType → Except Error (Option (List LocalType))
  | [] => .ok none
  | slot :: rest =>
    if slot.hash = hash ∧ slot.port.name ≠ port.name then .error (.hashCollision slot.port.name port.name)
    else if slot.port = port then .ok (some ({ slot with flags := slot.flags ||| flag } :: rest))
    else do
      let rest' ← declareSlot hash port flag rest
      return rest'.map (slot :: ·)

def declareType (port : StaticPort) (flag : UInt8) : Except Error (Tables N FRAME) := do
  let hash := endpointHash t.id port.name
  match ← declareSlot hash port flag t.locals with
  | some locals => .ok { t with locals }
  | none =>
    ensure (t.locals.length < N) .tableFull
    return { t with locals := t.locals ++ [⟨hash, port.ty, port.schema, flag, port⟩] }

def declare (name : Str) (direction : PortDirection) (flag : UInt8) (ty : PortType) (response : Option PortType) :
    Except Error (Tables N FRAME) := do
  ensure (t.started = false) .started
  let port ← t.port name direction ty response
  ensure (port ∈ t.declared ∨ t.declared.length < N) .tableFull
  let t' ← t.declareType port flag
  let _ ← t'.helloPayload false
  return if port ∈ t.declared then t' else { t' with declared := t.declared ++ [port] }

def localType (hash : UInt32) : Option LocalType :=
  t.locals.find? fun l => l.hash == hash && l.flags &&& (PUB ||| SERVE) != 0

def localSource (hash : UInt32) (flag : UInt8) : Option LocalType :=
  t.locals.find? fun l => l.flags &&& flag != 0 && l.port.sources.any fun s => s.hash == hash

def remoteType (hash : UInt32) : Option RemoteType :=
  t.remote.find? fun r => r.hash == hash && r.flags &&& (PUB ||| SERVE) != 0

def hello : Option Hello := (helloParse t.peerHello).toOption

def remoteSource (hash : UInt32) (flag : UInt8) : Option HelloEntry := do
  let hello ← t.hello
  hello.entries.find? fun e => e.flags &&& flag != 0 && e.sources.iter.any fun s => s.hash == hash

def requestHash (S : Service) (name : Str) : Except Error UInt32 := do
  t.checkPort name .rpcClient S.request (some S.response)
  let port ← t.port name .rpcClient S.request (some S.response)
  match port.sources.head? with
  | none => .error .invalidPorts
  | some source => .ok source.hash

def cancelRequest (hash : UInt32) (seq : UInt8) : Tables N FRAME :=
  match t.pending.findFinIdx? (· == some (hash, seq)) with
  | none => t
  | some slot => { t with pending := t.pending.set slot none slot.isLt }

def peerSubscribesHash (hash : UInt32) : Bool :=
  t.connected && (t.peerBridge || (t.remoteSource hash SUB).isSome)

def peerServesHash (hash : UInt32) : Bool :=
  t.connected && (t.peerBridge || (t.remoteType hash).any fun r => r.flags &&& SERVE != 0)

def checkPublishes (hash : UInt32) : Except Error Unit :=
  ensure (t.bridge = true ∨ (t.localType hash).any (fun l => l.flags &&& PUB != 0) = true) .notDeclared

def fromPeer (hello : Hello) (entry : HelloEntry) (l : LocalType) : Bool :=
  l.port.sources.any (fun s => s.ns == hello.id && s.port == entry.port) &&
    entry.flags &&& (PUB ||| SERVE) != 0

def toPeer (id : Str) (entry : HelloEntry) (l : LocalType) : Bool :=
  entry.sources.iter.any (fun s => s.ns == id && s.port == l.port.name) &&
    l.flags &&& (PUB ||| SERVE) != 0

def sameContract (entry : HelloEntry) (l : LocalType) : Bool :=
  l.name == entry.name && l.schema == entry.schema && l.port.response.map PortType.hello == entry.response &&
    (l.flags &&& (CALLS ||| SERVE) != 0) == (entry.flags &&& (CALLS ||| SERVE) != 0)

def localAddresses (id : Str) (l : LocalType) : List Endpoint := ⟨id, l.port.name⟩ :: l.port.sources

def checkLocal (hello : Hello) (entry : HelloEntry) (l : LocalType) : Except Error Unit := do
  ensure ((fromPeer hello entry l || toPeer t.id entry l) = true → sameContract entry l = true) .schemaMismatch
  ensure (∀ s ∈ l.port.sources, s.hash = entry.hash → s.ns = hello.id ∧ s.port = entry.port) .invalidPorts

def checkAddress (address : Endpoint) (l : LocalType) : Except Error Unit :=
  ensure (∀ other ∈ localAddresses t.id l, collides other address = false) .invalidPorts

def checkEntry (hello : Hello) (index : ℕ) (entry : HelloEntry) : Except Error RemoteType := do
  ensure (index < N) .tableFull
  t.locals.forM (t.checkLocal hello entry)
  (⟨hello.id, entry.port⟩ :: entry.sources.iter).forM fun address => t.locals.forM (t.checkAddress address)
  return ⟨entry.hash, entry.flags, entry.schema, false⟩

def checkEntries (hello : Hello) : ℕ → List HelloEntry → Except Error (List RemoteType)
  | _, [] => .ok []
  | index, entry :: entries => do
    let r ← t.checkEntry hello index entry
    let rs ← checkEntries hello (index + 1) entries
    return r :: rs

def repeats (payload : Bytes) : Prop :=
  t.peerHello.length = payload.length ∧
    t.peerHello.headD 0 &&& ~~~HELLO_ACK = payload.headD 0 &&& ~~~HELLO_ACK ∧ t.peerHello.tail = payload.tail

instance (payload : Bytes) : Decidable (t.repeats payload) := inferInstanceAs (Decidable (_ ∧ _))

def validateHello (payload : Bytes) : Except Error PeerContract :=
  match helloParse payload with
  | .error _ => .error .invalidPorts
  | .ok hello => do
    let peer ← idBuf hello.id
    ensure (payload.length ≤ FRAME) .tooLarge
    ensure (t.connected = true → t.repeats payload) .invalidPorts
    let remote ← t.checkEntries hello 0 hello.entries
    return ⟨peer, remote, hello.ack, hello.bridge⟩

def forgetPeer : Tables N FRAME :=
  { t with connected := false, peer := none, peerBridge := false, remote := [], peerHello := []
           pending := Vector.replicate N none }

def adopt (payload : Bytes) (contract : PeerContract) : Tables N FRAME :=
  { t with peerHello := payload, peer := some contract.peer, peerBridge := contract.bridge
           remote := contract.remote, connected := true }

end Tables

end Reiny.Link.Ports
