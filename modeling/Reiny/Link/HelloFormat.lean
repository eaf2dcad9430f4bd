import Reiny.Lib.PrefixCode
import Reiny.Lib.Results
import Reiny.Link.Wire

namespace Reiny.Link.HelloFormat

open Lib Words Utf8 PrefixCode Results Wire

def SCHEMA_FINGERPRINT_VERSION : UInt16 := 2

def HELLO_ACK : UInt8 := 0x01
def HELLO_BRIDGE : UInt8 := 0x02

def PUB : UInt8 := 1
def SUB : UInt8 := 2
def SERVE : UInt8 := 4
def LATCHED : UInt8 := 8
def SCHEMA_FINGERPRINT : UInt8 := 16
def CALLS : UInt8 := 32

structure Endpoint where
  ns : Str
  port : Str
deriving DecidableEq

def Endpoint.hash (e : Endpoint) : UInt32 := endpointHash e.ns e.port

def str : Reader Str := do
  let len ← byte
  let bs ← take len.toNat
  StateT.lift (fromUtf8 bs)

def endpoint : Reader Endpoint := do
  let ns ← str
  let port ← str
  return ⟨ns, port⟩

inductive Sources
  | static (sources : List Endpoint)
  | wire (bytes : Bytes)

def wireSources : ℕ → Bytes → List Endpoint
  | 0, _ => []
  | fuel + 1, bytes =>
    match endpoint.run bytes with
    | none => []
    | some (source, rest) => source :: wireSources fuel rest

def Sources.iter : Sources → List Endpoint
  | .static sources => sources
  | .wire bytes => wireSources bytes.length bytes

structure HelloType where
  name : Str
  schema : UInt64
deriving DecidableEq

structure HelloEntry where
  hash : UInt32
  flags : UInt8
  schema : UInt64
  name : Str
  port : Str
  response : Option HelloType
  sources : Sources

@[ext] structure Writer where
  cap : ℕ
  out : Bytes
  bounded : out.length ≤ cap

namespace Writer

def bytes (w : Writer) (b : Bytes) : Except WireError Writer :=
  if h : w.out.length + b.length ≤ w.cap then .ok ⟨w.cap, w.out ++ b, by simpa using h⟩
  else .error .tooLarge

def u8 (w : Writer) (v : UInt8) : Except WireError Writer := w.bytes [v]

def u32 (w : Writer) (v : UInt32) : Except WireError Writer := w.bytes (le32 v)

def u64 (w : Writer) (v : UInt64) : Except WireError Writer := w.bytes (le64 v)

def str (w : Writer) (s : Str) : Except WireError Writer :=
  if s.len > 255 then .error .tooLarge
  else do
    let w ← w.u8 (UInt8.ofNat s.len)
    w.bytes s.bytes

def endpoints (w : Writer) : List Endpoint → Except WireError Writer
  | [] => .ok w
  | source :: sources => do
    let w ← w.str source.ns
    let w ← w.str source.port
    w.endpoints sources

def response (w : Writer) : Option HelloType → Except WireError Writer
  | none => w.u8 0
  | some response => do
    let w ← w.u8 1
    let w ← w.str response.name
    w.u64 response.schema

def entry (w : Writer) (e : HelloEntry) : Except WireError Writer := do
  let w ← w.u32 e.hash
  let w ← w.u8 (e.flags ||| SCHEMA_FINGERPRINT)
  let w ← w.str e.port
  let w ← w.str e.name
  let w ← w.u64 e.schema
  let w ← w.response e.response
  if e.sources.iter.length > 255 then .error .tooLarge
  else
    let w ← w.u8 (UInt8.ofNat e.sources.iter.length)
    w.endpoints e.sources.iter

def entries (w : Writer) (count : UInt8) : List HelloEntry → Except WireError (Writer × UInt8)
  | [] => .ok (w, count)
  | e :: es => do
    let w ← w.entry e
    if count = 255 then .error .tooLarge else w.entries (count + 1) es

end Writer

def helloFlags (ack bridge : Bool) : UInt8 :=
  (if ack then HELLO_ACK else 0) ||| (if bridge then HELLO_BRIDGE else 0)

def helloWrite (cap : ℕ) (ack bridge : Bool) (id : Str) (entries : List HelloEntry) :
    Except WireError Bytes := do
  let w ← (Writer.mk cap [] (Nat.zero_le cap)).u8 (helloFlags ack bridge)
  let w ← w.bytes (le16 SCHEMA_FINGERPRINT_VERSION)
  let w ← w.str id
  let countAt := w.out.length
  let w ← w.u8 0
  let (w, count) ← w.entries 0 entries
  return w.out.set countAt count

def response : Reader (Option HelloType) := do
  let tag ← byte
  if tag = 0 then return none
  else if tag = 1 then
    let name ← str
    let schema ← word64
    return some ⟨name, schema⟩
  else failure

def entry : Reader HelloEntry := do
  let hash ← word32
  let encodedFlags ← byte
  if encodedFlags &&& SCHEMA_FINGERPRINT = 0 then failure
  else
    let port ← str
    let name ← str
    let schema ← word64
    let response ← response
    let count ← byte
    let start ← get
    let _ ← times endpoint count.toNat
    let rest ← get
    return {
      hash, flags := encodedFlags &&& ~~~SCHEMA_FINGERPRINT, schema, name, port, response
      sources := .wire (start.take (start.length - rest.length)) }

structure Hello where
  ack : Bool
  bridge : Bool
  id : Str
  count : ℕ
  bytes : Bytes
deriving DecidableEq

def helloEntries : ℕ → Bytes → List HelloEntry
  | 0, _ => []
  | remaining + 1, bytes =>
    match entry.run bytes with
    | none => []
    | some (e, rest) => e :: helloEntries remaining rest

def Hello.entries (hello : Hello) : List HelloEntry := helloEntries hello.count hello.bytes

def alphanumeric (b : UInt8) : Bool :=
  (48 ≤ b && b ≤ 57) || (65 ≤ b && b ≤ 90) || (97 ≤ b && b ≤ 122)

def validPort (port : Bytes) : Bool :=
  !port.isEmpty && port.all (fun b => alphanumeric b || [95, 46, 45].contains b) &&
    port != [46] && port != [46, 46]

def validNamespace (ns : Bytes) : Bool :=
  !ns.isEmpty && (ns.splitOn 47).all validPort

def validType (name : Bytes) : Bool :=
  !name.isEmpty && (name.splitOn 46).all fun part =>
    !part.isEmpty && part.all (fun b => alphanumeric b || b == 95) &&
      !(48 ≤ part.headD 0 && part.headD 0 ≤ 57)

def HelloEntry.direction (e : HelloEntry) : UInt8 := e.flags &&& ~~~LATCHED

def HelloEntry.outgoing (e : HelloEntry) : Bool := e.flags &&& (PUB ||| SERVE) != 0

def entryOk (id : Str) (e : HelloEntry) : Bool :=
  [PUB, SUB, SERVE, CALLS].contains e.direction &&
  !(e.flags &&& LATCHED != 0 && e.direction != PUB) &&
  validPort e.port.bytes &&
  validType e.name.bytes &&
  e.hash == endpointHash id e.port &&
  [SERVE, CALLS].contains e.direction == e.response.isSome &&
  e.response.all (fun response => validType response.name.bytes) &&
  !([PUB, SERVE].contains e.direction && e.sources.iter.length != 0) &&
  !(e.direction == SUB && e.sources.iter.length == 0) &&
  !(e.direction == CALLS && e.sources.iter.length != 1) &&
  e.sources.iter.zipIdx.all fun (source, i) =>
    validNamespace source.ns.bytes && validPort source.port.bytes &&
      !(e.sources.iter.take i).contains source

def entriesCompatible (previous e : HelloEntry) : Bool :=
  !(previous.sources.iter.any (fun source => e.sources.iter.contains source) &&
    (previous.name != e.name || previous.schema != e.schema || previous.response != e.response ||
      (previous.flags &&& CALLS != 0) != (e.flags &&& CALLS != 0))) &&
  !(previous.port == e.port && previous.outgoing == e.outgoing) &&
  !(previous.hash == e.hash && previous.port != e.port)

def checkEntries (hello : Hello) : ℕ → ℕ → Bytes → Except WireError Bytes
  | _, 0, r => .ok r
  | index, remaining + 1, r =>
    match entry.run r with
    | none => .error .malformed
    | some (e, r) =>
      if entryOk hello.id e && (hello.entries.take index).all (entriesCompatible · e) then
        checkEntries hello (index + 1) remaining r
      else .error .malformed

def addresses (id : Str) (entries : List HelloEntry) : List Endpoint :=
  entries.flatMap fun e => ⟨id, e.port⟩ :: e.sources.iter

def collides (a b : Endpoint) : Bool := a != b && a.hash == b.hash

def validateAddressHashes (hello : Hello) : Except WireError Unit :=
  let all := addresses hello.id hello.entries
  ensure (all.zipIdx.all (fun (address, i) => !(all.take i).any (collides · address)) = true) .malformed

def orMalformed {α : Type} : Option α → Except WireError α
  | none => .error .malformed
  | some a => .ok a

def helloParse (payload : Bytes) : Except WireError Hello := do
  let (flags, r) ← orMalformed (byte.run payload)
  ensure (flags &&& ~~~(HELLO_ACK ||| HELLO_BRIDGE) = 0) .malformed
  let (version, r) ← orMalformed ((take 2).run r)
  ensure (version = le16 SCHEMA_FINGERPRINT_VERSION) .malformed
  let (id, r) ← orMalformed (str.run r)
  ensure (validNamespace id.bytes = true) .malformed
  let (count, r) ← orMalformed (byte.run r)
  let hello : Hello := ⟨flags &&& HELLO_ACK != 0, flags &&& HELLO_BRIDGE != 0, id, count.toNat, r⟩
  ensure (hello.bridge = true → count = 0) .malformed
  let r ← checkEntries hello 0 count.toNat r
  ensure (r = []) .malformed
  validateAddressHashes hello
  return hello

end Reiny.Link.HelloFormat
