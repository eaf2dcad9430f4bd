import Mathlib.Tactic

namespace Reiny.Cli

open List

structure BagMessage where
  logTime : UInt64
  channel : UInt16
  data : List UInt8
deriving DecidableEq

structure Published where
  message : BagMessage
  distance : UInt64
  delay : UInt64

-- `saturating_sub`
def BagMessage.offset (m : BagMessage) (base : UInt64) : UInt64 := if base ≤ m.logTime then m.logTime - base else 0

def nanos (seconds : Float) : UInt64 := (seconds * 1e9).toUInt64

variable (start duration : Option Float)

def before (offset : UInt64) : Bool := start.any fun s => offset < nanos s

def beyond (offset : UInt64) : Bool := duration.any fun d => nanos (start.getD 0.0 + d) < offset

variable (mapped : UInt16 → Bool) (rate : Float)

def delay (distance : UInt64) : UInt64 := (distance.toFloat / rate).toUInt64

/-- `log_time - first` has no result below zero. -/
def publish (first : UInt64) (m : BagMessage) : Option Published :=
  if first ≤ m.logTime then some ⟨m, m.logTime - first, delay rate (m.logTime - first)⟩ else none

section Intended

def within (origin : UInt64) (m : BagMessage) : Bool :=
  !before start (m.offset origin) && !beyond start duration (m.offset origin)

def ends (origin : UInt64) (m : BagMessage) : Bool :=
  !before start (m.offset origin) && beyond start duration (m.offset origin)

end Intended

section Selecting

variable {start duration : Option Float} {msgs : List BagMessage}

end Selecting

section Playing

variable {mapped : UInt16 → Bool} {rate : Float} {msgs : List BagMessage}

end Playing

section Sorted

variable {start duration : Option Float} {msgs : List BagMessage} {base : UInt64}

variable (h : msgs.Pairwise fun a b => a.logTime ≤ b.logTime)

include h

end Sorted

end Reiny.Cli
