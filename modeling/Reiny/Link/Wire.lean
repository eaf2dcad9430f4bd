import Reiny.Lib.Utf8

namespace Reiny.Link.Wire

open Lib Words Utf8 List

def HEADER : ℕ := 9
def EPOCH : UInt8 := 2
def TRAILER : ℕ := 2
def OVERHEAD : ℕ := HEADER + TRAILER
def DELIMITER : UInt8 := 0

inductive Kind
  | hello
  | data
  | request
  | reply
  | error
  | ping
deriving DecidableEq

def Kind.toU8 : Kind → UInt8
  | .hello => 0
  | .data => 1
  | .request => 2
  | .reply => 3
  | .error => 4
  | .ping => 5

def Kind.fromU8 (b : UInt8) : Option Kind :=
  if b = 0 then some .hello
  else if b = 1 then some .data
  else if b = 2 then some .request
  else if b = 3 then some .reply
  else if b = 4 then some .error
  else if b = 5 then some .ping
  else none

lemma Kind.fromU8_toU8 (k : Kind) : Kind.fromU8 k.toU8 = some k := by
  cases k <;> rfl

structure Header where
  kind : Kind
  hash : UInt32
  seq : UInt8

inductive WireError
  | tooLarge
  | short
  | crc
  | cobs
  | kind (k : UInt8)
  | epoch
  | malformed
deriving DecidableEq

/-- The two crates the frame format is built on: the CRC-16 table and the COBS coder. -/
structure Codec where
  crc : Bytes → UInt16
  cobsEncode : Bytes → Bytes
  cobsDecode : Bytes → Option Bytes
  maxEncodingLength : ℕ → ℕ

/-- What the COBS coder documents about itself. -/
structure Codec.Lawful (C : Codec) : Prop where
  decode_encode : ∀ raw, raw ≠ [] → C.cobsDecode (C.cobsEncode raw) = some raw
  encode_nonzero : ∀ raw, DELIMITER ∉ C.cobsEncode raw
  encode_ne_nil : ∀ raw, raw ≠ [] → C.cobsEncode raw ≠ []
  encode_length : ∀ raw, raw ≠ [] → (C.cobsEncode raw).length ≤ C.maxEncodingLength raw.length
  decode_length : ∀ bs raw, C.cobsDecode bs = some raw → raw.length ≤ bs.length
  max_mono : Monotone C.maxEncodingLength

def fnvStep (hash : UInt32) (b : UInt8) : UInt32 := (hash ^^^ b.toUInt32) * 0x01000193

def fnvBasis : UInt32 := 0x811c9dc5

def lengthPrefixed (component : Str) : Bytes :=
  toLe 4 (min component.len (2 ^ 32 - 1)) ++ component.bytes

def endpointHash (ns port : Str) : UInt32 :=
  (lengthPrefixed ns ++ lengthPrefixed port).foldl fnvStep fnvBasis

def encodedMax (C : Codec) (rawLen : ℕ) : ℕ := C.maxEncodingLength rawLen + 1

def body (header : Header) (payload : Bytes) : Bytes :=
  [82, 89, EPOCH] ++ [header.kind.toU8] ++ le32 header.hash ++ [header.seq] ++ payload

def sealFrame (C : Codec) (bufLen : ℕ) (header : Header) (payload : Bytes) : Except WireError Bytes :=
  if OVERHEAD + payload.length > bufLen then .error .tooLarge
  else .ok (body header payload ++ le16 (C.crc (body header payload)))

def parse (C : Codec) (frame : Bytes) : Except WireError (Header × Bytes) :=
  if frame.length < OVERHEAD then .error .short
  else
    let bodyLen := frame.length - TRAILER
    let expected := UInt16.ofNat (ofLe (frame.drop bodyLen))
    if C.crc (frame.take bodyLen) ≠ expected then .error .crc
    else if frame.take 3 ≠ [82, 89, EPOCH] then .error .epoch
    else
      match Kind.fromU8 (frame.getD 3 0) with
      | none => .error (.kind (frame.getD 3 0))
      | some kind =>
        .ok (⟨kind, UInt32.ofNat (ofLe ((frame.drop 4).take 4)), frame.getD 8 0⟩,
          (frame.take bodyLen).drop HEADER)

def encode (C : Codec) (raw : Bytes) (room : ℕ) : Except WireError Bytes :=
  if room < C.maxEncodingLength raw.length + 1 then .error .tooLarge
  else .ok (C.cobsEncode raw ++ [DELIMITER])

def decodeInPlace (C : Codec) (buf : Bytes) : Except WireError Bytes :=
  match C.cobsDecode buf with
  | none => .error .cobs
  | some raw => .ok raw

@[simp] lemma body_length (header : Header) (payload : Bytes) :
    (body header payload).length = HEADER + payload.length := by
  simp [body, HEADER]
  omega

variable {C : Codec} {bufLen : ℕ} {header : Header} {raw payload : Bytes}

lemma seal_ok :
    sealFrame C bufLen header payload = .ok raw ↔
      OVERHEAD + payload.length ≤ bufLen ∧
        raw = body header payload ++ le16 (C.crc (body header payload)) := by
  unfold sealFrame
  split_ifs with h
  · simp only [false_iff, not_and]
    omega
  · simp only [Except.ok.injEq]
    exact ⟨fun he => ⟨by omega, he.symm⟩, fun he => he.2.symm⟩

lemma seal_length (h : sealFrame C bufLen header payload = .ok raw) :
    raw.length = OVERHEAD + payload.length := by
  obtain ⟨-, rfl⟩ := seal_ok.mp h
  simp only [length_append, body_length, le16_length, OVERHEAD, TRAILER]
  omega

lemma parse_seal (h : sealFrame C bufLen header payload = .ok raw) : parse C raw = .ok (header, payload) := by
  have hl := seal_length h
  obtain ⟨-, rfl⟩ := seal_ok.mp h
  have hb : (body header payload ++ le16 (C.crc (body header payload))).length - TRAILER =
      (body header payload).length := by
    simp [TRAILER]
  have h4 : ((body header payload ++ le16 (C.crc (body header payload))).drop 4).take 4 =
      le32 header.hash := by
    simp [body, append_assoc]
  have h8 : (body header payload ++ le16 (C.crc (body header payload))).getD 8 0 = header.seq := by
    have he : body header payload ++ le16 (C.crc (body header payload)) =
        ([82, 89, EPOCH, header.kind.toU8] ++ le32 header.hash) ++
          (header.seq :: (payload ++ le16 (C.crc (body header payload)))) := by
      simp [body, append_assoc]
    rw [he, getD_eq_getElem?_getD, getElem?_append_right (by simp)]
    simp
  have h3 : (body header payload ++ le16 (C.crc (body header payload))).getD 3 0 = header.kind.toU8 := by
    simp [body]
  unfold parse
  rw [if_neg (by omega)]
  simp only [hb, drop_left', take_append_of_le_length le_rfl, of_le16, take_length,
    ne_eq, not_true_eq_false, if_false, h3, Kind.fromU8_toU8, h4, of_le32, h8]
  rw [if_neg (by simp [body])]
  have hp : (body header payload).drop HEADER = payload := by
    rw [body, drop_left' (by simp [HEADER])]
  rw [hp]

end Reiny.Link.Wire
