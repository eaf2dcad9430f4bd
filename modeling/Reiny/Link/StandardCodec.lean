import Reiny.Lib.Cobs
import Reiny.Link.Wire

namespace Reiny.Link.Wire

open Lib Words

def kermitBit (crc : UInt16) : UInt16 := if crc &&& 1 = 1 then (crc >>> 1) ^^^ 0x8408 else crc >>> 1

def kermitByte (crc : UInt16) (b : UInt8) : UInt16 := kermitBit^[8] (crc ^^^ b.toUInt16)

def kermit (bs : Bytes) : UInt16 := bs.foldl kermitByte 0

example : kermit [0x31, 0x32, 0x33, 0x34, 0x35, 0x36, 0x37, 0x38, 0x39] = 0x2189 := by decide +kernel

def standard : Codec where
  crc := kermit
  cobsEncode := Cobs.encode
  cobsDecode := Cobs.decode
  maxEncodingLength := Cobs.maxLength

lemma standard_lawful : standard.Lawful where
  decode_encode := fun raw _ => Cobs.decode_encode raw
  encode_nonzero := fun _ => Cobs.encodeFrom_nonzero (Nat.zero_le 253) List.not_mem_nil
  encode_ne_nil := fun raw _ => Cobs.encodeFrom_ne_nil [] raw
  encode_length := fun raw hr => by
    have h := @Cobs.encodeFrom_length raw [] (Nat.zero_le 253)
    rw [List.length_nil, Nat.zero_add] at h
    exact h (List.length_pos_iff.mpr hr)
  decode_length := fun _ _ h => Cobs.decodeFuel_length h
  max_mono := Cobs.maxLength_mono

end Reiny.Link.Wire
