import Reiny.Lib.Maps
import Reiny.Link.State

/-! The host side of a link: the callers that wait for an answer of the peer, and the loop that feeds
the link and hands out what arrives. -/

namespace Reiny.Link

open Std Lib Words Utf8 Results Maps Wire HelloFormat Ports State

variable {N FRAME : ℕ}

structure PeerType where
  hash : UInt32
  name : Str
  port : Str
  response : Option HelloType
  sources : List Endpoint
  flags : UInt8
  schema : UInt64

def PeerType.ofEntry (e : HelloEntry) : PeerType :=
  ⟨e.hash, e.name, e.port, e.response, e.sources.iter, e.flags, e.schema⟩

structure Delivery where
  hash : UInt32
  name : Str
  ns : Str
  port : Str
  schema : UInt64
  seq : UInt8
  payload : Bytes

inductive HostEvent
  | connected (id : Str) (types : List PeerType)
  | disconnected
  | data (delivery : Delivery)
  | request (delivery : Delivery)

inductive CallError
  | noPeerService
  | timeout
  | remote (message : Bytes)
  | link (e : Error)
  | closed

structure CallReservation where
  hash : UInt32
  seq : UInt8
  token : ℕ
deriving DecidableEq

structure Host (N FRAME : ℕ) where
  link : Link N FRAME
  pending : ExtTreeMap (UInt32 × UInt8) ℕ
  peer : Option (Str × List PeerType)
  reservations : List CallReservation
  nextToken : ℕ

inductive Notice
  | event (event : HostEvent)
  | refused (e : CallError)
  | started (token : ℕ) (key : UInt32 × UInt8) (previous : Option ℕ)
  | completed (token : ℕ) (frame : Frame) (result : Except Bytes Bytes)
  | released (token : ℕ)
  | cleared

def ownAddress (l : Link N FRAME) (frame : Frame) : Option Endpoint :=
  (l.localType frame.hash).map fun t => ⟨l.id, t.port.name⟩

def dataAddress (l : Link N FRAME) (frame : Frame) : Option Endpoint :=
  if l.peerBridge then do
    let t ← l.localSource frame.hash SUB
    t.port.sources.find? fun s => s.hash == frame.hash
  else do
    let hello ← l.hello
    let entry ← hello.entries.find? fun e => e.hash == frame.hash && e.flags &&& PUB != 0
    return ⟨hello.id, entry.port⟩

def frameAddress (l : Link N FRAME) (frame : Frame) : Option Endpoint :=
  if frame.kind = .data then l.dataAddress frame
  else
    match l.ownAddress frame with
    | some address => some address
    | none => do
      let entry ← l.remoteSource frame.hash CALLS
      entry.sources.iter.find? fun s => s.hash == frame.hash

def delivery (l : Link N FRAME) (frame : Frame) : Option Delivery := do
  let contract ← l.frameContract frame
  let address ← l.frameAddress frame
  return ⟨frame.hash, contract.ty, address.ns, address.port, contract.schema, frame.seq, l.payload frame⟩

namespace Host

def spawn (link : Link N FRAME) : Host N FRAME := ⟨link, ∅, none, [], 0⟩

def withLink (h : Host N FRAME) (link : Link N FRAME) : Host N FRAME := { h with link }

def answer (h : Host N FRAME) (frame : Frame) (result : Except Bytes Bytes) : List Notice × Host N FRAME :=
  match h.pending[(frame.hash, frame.seq)]? with
  | none => ([], h)
  | some token => ([.completed token frame result], { h with pending := h.pending.erase (frame.hash, frame.seq) })

def deliver (h : Host N FRAME) (frame : Frame) (event : Delivery → HostEvent) : List Notice × Host N FRAME :=
  match h.link.delivery frame with
  | none => ([], h)
  | some d => ([.event (event d)], h)

def convert (h : Host N FRAME) : Event → List Notice × Host N FRAME
  | .connected f =>
    match helloParse (h.link.payload f) with
    | .error _ => ([], h)
    | .ok hello =>
      let types := hello.entries.map .ofEntry
      ([.event (.connected hello.id types)], { h with peer := some (hello.id, types) })
  | .disconnected => ([.cleared, .event .disconnected], { h with peer := none, pending := ∅ })
  | .data f => h.deliver f .data
  | .request f => h.deliver f .request
  | .reply f => h.answer f (.ok (h.link.payload f))
  | .error f => h.answer f (.error (h.link.errorMessage f))

variable (C : Codec)

def collectLoop : ℕ → Host N FRAME → List Notice × Host N FRAME
  | 0, h => ([], h)
  | fuel + 1, h =>
    match h.link.next C with
    | (none, l) => ([], h.withLink l)
    | (some event, l) =>
      let (notices, h) := (h.withLink l).convert event
      let (rest, h) := collectLoop fuel h
      (notices ++ rest, h)

-- Every round but the last takes a frame out of the receive buffer.
def collect (h : Host N FRAME) : List Notice × Host N FRAME := collectLoop C (h.link.rx.length + 1) h

def poll (h : Host N FRAME) (nowMs : UInt32) : List Notice × Host N FRAME :=
  match h.link.tick C nowMs with
  | (none, l) => (h.withLink l).collect C
  | (some event, l) =>
    let (notices, h) := (h.withLink l).convert event
    let (rest, h) := h.collect C
    (notices ++ rest, h)

def receiveLoop : ℕ → Host N FRAME → Bytes → List Notice × Host N FRAME
  | 0, h, _ => ([], h)
  | fuel + 1, h, rest =>
    if rest = [] then ([], h)
    else
      let (accepted, l) := h.link.feed C rest
      let (notices, h) := (h.withLink l).collect C
      if accepted = 0 then (notices, h)
      else
        let (later, h) := receiveLoop fuel h (rest.drop accepted)
        (notices ++ later, h)

-- A round that accepts nothing is the last one.
def receive (h : Host N FRAME) (bytes : Bytes) : List Notice × Host N FRAME :=
  receiveLoop C (bytes.length + 1) h bytes

def callError : Error → CallError
  | .noPeerService => .noPeerService
  | e => .link e

def call (h : Host N FRAME) (hash : UInt32) (payload : Bytes) : List Notice × Host N FRAME :=
  match h.link.requestRaw C hash payload with
  | (.error e, l) => ([.refused (callError e)], h.withLink l)
  | (.ok seq, l) =>
    ([.started h.nextToken (hash, seq) h.pending[(hash, seq)]?],
      { h with link := l, pending := h.pending.insert (hash, seq) h.nextToken
               reservations := h.reservations ++ [⟨hash, seq, h.nextToken⟩], nextToken := h.nextToken + 1 })

def dropReservation (h : Host N FRAME) (r : CallReservation) : List Notice × Host N FRAME :=
  let h := { h with reservations := h.reservations.erase r }
  if h.pending[(r.hash, r.seq)]? = some r.token then
    ([.released r.token],
      { h with link := h.link.cancelRequest r.hash r.seq, pending := h.pending.erase (r.hash, r.seq) })
  else ([], h)

end Host

inductive HostOp
  | call (hash : UInt32) (payload : Bytes)
  | drop (reservation : CallReservation)
  | poll (nowMs : UInt32)
  | receive (bytes : Bytes)
  | drain (room : ℕ)
  | drainFrame (room : ℕ)
  | send (ty : PortType) (name : Str) (msg : Bytes)
  | sendRaw (hash : UInt32) (payload : Bytes)
  | reply (S : Service) (name : Str) (seq : UInt8) (resp : Bytes)
  | replyRaw (seq : UInt8) (hash : UInt32) (schema : UInt64) (payload : Bytes)
  | replyErr (S : Service) (name : Str) (seq : UInt8) (message : Bytes)
  | replyErrRaw (seq : UInt8) (hash : UInt32) (message : Bytes)

def Host.step (C : Codec) (h : Host N FRAME) : HostOp → Option (List Notice × Host N FRAME)
  | .call hash payload => some (h.call C hash payload)
  | .drop r => if r ∈ h.reservations then some (h.dropReservation r) else none
  | .poll nowMs => some (h.poll C nowMs)
  | .receive bytes => some (h.receive C bytes)
  | .drain room => some ([], h.withLink (h.link.drain C room).2)
  | .drainFrame room => some ([], h.withLink (h.link.drainFrame C room).2)
  | .send ty name msg => some ([], h.withLink (h.link.send C ty name msg).2)
  | .sendRaw hash payload => some ([], h.withLink (h.link.sendRaw C hash payload).2)
  | .reply S name seq resp => some ([], h.withLink (h.link.reply C S name seq resp).2)
  | .replyRaw seq hash schema payload => some ([], h.withLink (h.link.replyRaw C seq hash schema payload).2)
  | .replyErr S name seq message => some ([], h.withLink (h.link.replyErr C S name seq message).2)
  | .replyErrRaw seq hash message => some ([], h.withLink (h.link.replyErrRaw C seq hash message).2)

end Reiny.Link
