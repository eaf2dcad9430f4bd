import Reiny.Engine.Key
import Reiny.Link.Host

namespace Reiny.Link

open Std Lib Words Utf8 Results Wire HelloFormat Ports State
open Engine (Key LAUNCH_CHUNK)

variable {N FRAME : ℕ}

structure LinkQuery where
  seq : UInt8
  hash : UInt32
  key : Key
  payload : Option Bytes
  attachment : Bytes
  response : Option HelloType
  answered : Bool

inductive ReplyError
  | check (message : String)
  | link (e : Error)

inductive Answer
  | reply (key : Key) (payload : Bytes) (attachment : Option Bytes)
  | replyErr (message : Bytes)
  | drop
deriving DecidableEq

namespace LinkQuery

variable (C : Codec)

def schemaOf : Option Bytes → Option UInt64
  | none => none
  | some a => if a.length = 8 then some (UInt64.ofNat (ofLe a)) else none

def checkReply (q : LinkQuery) (key : Key) (attachment : Option Bytes) : Except String UInt64 := do
  let schema ← ofOption (schemaOf attachment) "link reply requires a schema fingerprint"
  ensure (key = q.key) "link reply must preserve its destination server endpoint"
  ensure (q.response.any (fun r => r.schema == schema) = true) "link response fingerprint mismatch"
  return schema

def dropped (q : LinkQuery) (l : Link N FRAME) : Link N FRAME :=
  if q.answered then l else (l.replyErrRaw C q.seq q.hash (text "no reply")).2

def report : Except Error Unit → Except ReplyError Unit
  | .error e => .error (.link e)
  | .ok u => .ok u

def reply (q : LinkQuery) (l : Link N FRAME) (key : Key) (payload : Bytes) (attachment : Option Bytes) :
    Except ReplyError Unit × Link N FRAME :=
  match q.checkReply key attachment with
  | .error message => (.error (.check message), q.dropped C l)
  | .ok schema =>
    let q := { q with answered := true }
    let (result, l) := l.replyRaw C q.seq q.hash schema payload
    (report result, q.dropped C l)

def replyErr (q : LinkQuery) (l : Link N FRAME) (message : Bytes) : Except ReplyError Unit × Link N FRAME :=
  let q := { q with answered := true }
  let (result, l) := l.replyErrRaw C q.seq q.hash (fromUtf8Lossy message)
  (report result, q.dropped C l)

def finish (q : LinkQuery) (l : Link N FRAME) : Answer → Except ReplyError Unit × Link N FRAME
  | .reply key payload attachment => q.reply C l key payload attachment
  | .replyErr message => q.replyErr C l message
  | .drop => (.ok (), q.dropped C l)

end LinkQuery

structure PeerInfo where
  id : Str
  types : List PeerType

structure LinkEngine (N FRAME : ℕ) where
  host : Host N FRAME
  domain : String
  peer : Option PeerInfo
  responders : List (ℕ × Key)
  nextId : ℕ
  inbox : List HostEvent
  running : Bool
  queries : ExtTreeMap ℕ LinkQuery
  nextQuery : ℕ

inductive EngineNotice (N FRAME : ℕ)
  | handed (token : ℕ) (query : LinkQuery)
  | finished (token : ℕ) (answer : Answer) (result : Except ReplyError Unit) (before after : Link N FRAME)

namespace LinkEngine

def spawn (host : Host N FRAME) (domain : String) : LinkEngine N FRAME :=
  ⟨host, domain, none, [], 1, [], true, ∅, 0⟩

variable (C : Codec)

def withLink (e : LinkEngine N FRAME) (link : Link N FRAME) : LinkEngine N FRAME :=
  { e with host := e.host.withLink link }

def respond (e : LinkEngine N FRAME) (key : Key) : LinkEngine N FRAME :=
  match key.validate with
  | .error _ => e
  | .ok () => { e with responders := e.responders ++ [(e.nextId, key)], nextId := e.nextId + 1 }

def dropGuard (e : LinkEngine N FRAME) (id : ℕ) : LinkEngine N FRAME :=
  { e with responders := e.responders.filter fun r => r.1 != id }

def topic (e : LinkEngine N FRAME) (ns port ty : Str) : Key := .output e.domain ns.toText port.toText ty.toText

def acceptable (e : LinkEngine N FRAME) (id : Str) (types : List PeerType) : Bool :=
  (Key.module e.domain (some id.toText) LAUNCH_CHUNK).validate.isOk &&
    types.all fun t => (e.topic id t.port t.name).validate.isOk && endpointHash id t.port == t.hash

def requestType (peer : PeerInfo) (hash : UInt32) : Option PeerType :=
  peer.types.find? fun t => t.flags &&& CALLS != 0 && t.sources.any fun s => s.hash == hash

def replyErrRaw (e : LinkEngine N FRAME) (seq : UInt8) (hash : UInt32) (message : String) : LinkEngine N FRAME :=
  e.withLink (e.host.link.replyErrRaw C seq hash (text message)).2

def hand (e : LinkEngine N FRAME) (query : LinkQuery) : List (EngineNotice N FRAME) × LinkEngine N FRAME :=
  ([.handed e.nextQuery query],
    { e with queries := e.queries.insert e.nextQuery query, nextQuery := e.nextQuery + 1 })

def onRequest (e : LinkEngine N FRAME) (d : Delivery) : List (EngineNotice N FRAME) × LinkEngine N FRAME :=
  match e.peer with
  | none => ([], e)
  | some peer =>
    match requestType peer d.hash with
    | none => ([], e.replyErrRaw C d.seq d.hash "undeclared source")
    | some t =>
      match t.sources.head? with
      | none => ([], e)
      | some source =>
        let pattern := e.topic source.ns source.port t.name
        if e.responders.any (fun r => r.2 == pattern) then
          e.hand ⟨d.seq, d.hash, pattern, some d.payload, le64 t.schema, t.response, false⟩
        else ([], e.replyErrRaw C d.seq d.hash "no such service")

/-- One round of `run`. What it tells subscribers and watchers is left out. -/
def onEvent (e : LinkEngine N FRAME) : HostEvent → List (EngineNotice N FRAME) × LinkEngine N FRAME
  | .connected id types => ([], { e with peer := if e.acceptable id types then some ⟨id, types⟩ else none })
  | .disconnected => ([], { e with peer := none })
  | .data _ => ([], e)
  | .request d => e.onRequest C d

end LinkEngine

def eventsOf (notices : List Notice) : List HostEvent :=
  notices.filterMap fun n =>
    match n with
    | .event event => some event
    | _ => none

inductive EngineOp
  | host (op : HostOp)
  | respond (key : Key)
  | dropGuard (id : ℕ)
  | take
  | stop
  | answer (token : ℕ) (answer : Answer)

def LinkEngine.step (C : Codec) (e : LinkEngine N FRAME) :
    EngineOp → Option (List (EngineNotice N FRAME) × LinkEngine N FRAME)
  | .host op => do
    let (notices, host) ← e.host.step C op
    return ([], { e with host, inbox := e.inbox ++ eventsOf notices })
  | .respond key => some ([], e.respond key)
  | .dropGuard id => some ([], e.dropGuard id)
  | .take =>
    match e.running, e.inbox with
    | true, event :: inbox => some (({ e with inbox } : LinkEngine N FRAME).onEvent C event)
    | _, _ => none
  -- The channel is closed and empty: the loop ends and the peer is forgotten.
  | .stop => if e.inbox = [] then some ([], { e with running := false, peer := none }) else none
  | .answer token answer => do
    let q ← e.queries[token]?
    let (result, l) := q.finish C e.host.link answer
    return ([.finished token answer result e.host.link l],
      { e.withLink l with queries := e.queries.erase token })

end Reiny.Link
