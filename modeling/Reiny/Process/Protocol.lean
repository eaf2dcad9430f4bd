import Reiny.Lib.Results
import Reiny.Step.Status

namespace Reiny.Process

open Std Lib Results Checked Step

structure WireDuration where
  secs : UInt64
  nanos : UInt32
deriving DecidableEq

namespace WireDuration

def duration (d : WireDuration) : Except String Duration :=
  if h : d.nanos.toNat < NANOS_PER_SEC then
    .ok ⟨d.secs.toNat * NANOS_PER_SEC + d.nanos.toNat, by
      have hs := d.secs.toNat_lt
      unfold DURATION_LIMIT U64
      unfold NANOS_PER_SEC at h ⊢
      omega⟩
  else .error "non-normalized duration"

def ofDuration (d : Duration) : WireDuration := ⟨.ofNat d.secs, .ofNat d.subsecNanos⟩

lemma duration_ofDuration (d : Duration) : (ofDuration d).duration = .ok d := by
  have hd := d.lt
  have hs : d.secs < 2 ^ 64 := by
    unfold DURATION_LIMIT U64 at hd
    exact Nat.div_lt_of_lt_mul (by rwa [mul_comm] at hd)
  have hn : d.subsecNanos < NANOS_PER_SEC := Nat.mod_lt _ (by decide)
  have hn' : d.subsecNanos < 2 ^ 32 := hn.trans (by decide)
  have hse : (UInt64.ofNat d.secs).toNat = d.secs := UInt64.toNat_ofNat_of_lt' hs
  have hna : (UInt32.ofNat d.subsecNanos).toNat = d.subsecNanos := UInt32.toNat_ofNat_of_lt' hn'
  unfold duration ofDuration
  simp only [hse, hna, dif_pos hn]
  congr 1
  ext
  exact Nat.div_add_mod' d.nanos NANOS_PER_SEC

end WireDuration

structure StepSessionKey where
  incarnation : Bytes
  ownerGeneration : ℕ
  graphGeneration : ℕ
  graphDigest : String
  planDigest : String
deriving DecidableEq

structure StepCallKey where
  session : StepSessionKey
  epoch : ℕ
  runSequence : ℕ
  tickIndex : ℕ
  nodeOrdinal : ℕ
  inst : String
deriving DecidableEq

structure WireTick where
  epoch : ℕ
  index : ℕ
  start : WireDuration
  dt : WireDuration
  end_ : WireDuration
deriving DecidableEq

def WireTick.validate (tick : WireTick) : Except String Unit := do
  let dt ← tick.dt.duration
  ensure (dt.isZero = false) "invalid tick interval"
  let start ← tick.start.duration
  let end_ ← tick.end_.duration
  ensure (start.checkedAdd dt = some end_) "invalid tick interval"
  let _ ← ofOption (checkedAdd U64 tick.index 1) "tick index exhausted"

structure WireStepType where
  typeName : String
  fingerprintVersion : ℕ
  fingerprint : UInt64
  assertions : Map String String
deriving DecidableEq

structure WireValue where
  ty : WireStepType
  bytes : Bytes
deriving DecidableEq

structure InvokeStep where
  call : StepCallKey
  tick : WireTick
  inputs : Map String WireValue
  remainingBudget : WireDuration
deriving DecidableEq

structure BoundSteps where
  session : StepSessionKey
  epoch : ℕ
  initialTime : WireDuration
  order : List String

inductive FailureCode
  | assignment
deriving DecidableEq

structure ProcessError where
  code : FailureCode
deriving DecidableEq

def invalid : ProcessError := ⟨.assignment⟩

end Reiny.Process
