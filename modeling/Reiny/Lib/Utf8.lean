import Reiny.Lib.Words

/-! Byte strings that are known to be well-formed UTF-8. -/

namespace Reiny.Lib.Utf8

open Words

def continuation (b : UInt8) : Bool := 0x80 ≤ b && b ≤ 0xBF

def secondOfThree (a b : UInt8) : Bool :=
  if a = 0xE0 then 0xA0 ≤ b && b ≤ 0xBF
  else if a = 0xED then 0x80 ≤ b && b ≤ 0x9F
  else continuation b

def secondOfFour (a b : UInt8) : Bool :=
  if a = 0xF0 then 0x90 ≤ b && b ≤ 0xBF
  else if a = 0xF4 then 0x80 ≤ b && b ≤ 0x8F
  else continuation b

def wellFormed : Bytes → Bool
  | [] => true
  | a :: t =>
    if a < 0x80 then wellFormed t
    else if 0xC2 ≤ a ∧ a ≤ 0xDF then
      match t with
      | b :: t => continuation b && wellFormed t
      | [] => false
    else if 0xE0 ≤ a ∧ a ≤ 0xEF then
      match t with
      | b :: c :: t => secondOfThree a b && continuation c && wellFormed t
      | _ => false
    else if 0xF0 ≤ a ∧ a ≤ 0xF4 then
      match t with
      | b :: c :: d :: t => secondOfFour a b && continuation c && continuation d && wellFormed t
      | _ => false
    else false

structure Str where
  bytes : Bytes
  valid : wellFormed bytes = true
deriving DecidableEq

def Str.len (s : Str) : ℕ := s.bytes.length

def fromUtf8 (bs : Bytes) : Option Str :=
  if h : wellFormed bs = true then some ⟨bs, h⟩ else none

def Str.toText (s : Str) : String := (String.fromUTF8? ⟨s.bytes.toArray⟩).getD ""

def replacement : Bytes := [0xEF, 0xBF, 0xBD]

/-- The length of the sequence a byte starts, and whether it is a whole character. -/
def sequenceAt (a : UInt8) (rest : Bytes) : ℕ × Bool :=
  let second := rest.headD 0
  let third := rest.tail.headD 0
  let fourth := rest.tail.tail.headD 0
  if a < 0x80 then (1, true)
  else if 0xC2 ≤ a ∧ a ≤ 0xDF then
    if continuation second then (2, true) else (1, false)
  else if 0xE0 ≤ a ∧ a ≤ 0xEF then
    if !secondOfThree a second then (1, false)
    else if continuation third then (3, true)
    else (2, false)
  else if 0xF0 ≤ a ∧ a ≤ 0xF4 then
    if !secondOfFour a second then (1, false)
    else if !continuation third then (2, false)
    else if continuation fourth then (4, true)
    else (3, false)
  else (1, false)

def lossyLoop : ℕ → Bytes → Bytes
  | 0, _ => []
  | _ + 1, [] => []
  | fuel + 1, a :: rest =>
    let (n, whole) := sequenceAt a rest
    (if whole then (a :: rest).take n else replacement) ++ lossyLoop fuel ((a :: rest).drop n)

def fromUtf8Lossy (bs : Bytes) : Bytes := lossyLoop bs.length bs

example : fromUtf8Lossy [0x61, 0xE2, 0x82, 0x62] = [0x61, 0xEF, 0xBF, 0xBD, 0x62] := by decide

lemma fromUtf8_some {bs : Bytes} {s : Str} : fromUtf8 bs = some s ↔ s.bytes = bs := by
  unfold fromUtf8
  split_ifs with h
  · rw [Option.some.injEq]
    exact ⟨fun he => he ▸ rfl, fun he => by cases s; cases he; rfl⟩
  · simp only [false_iff]
    intro he
    exact h (he ▸ s.valid)

end Reiny.Lib.Utf8
