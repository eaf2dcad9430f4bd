import Mathlib.Tactic

/-! Unsigned arithmetic that fails instead of wrapping, and durations as bounded nanosecond counts. -/

namespace Reiny.Lib.Checked

def checkedAdd (limit a b : ℕ) : Option ℕ := if a + b < limit then some (a + b) else none

def U32 : ℕ := 2 ^ 32

def U64 : ℕ := 2 ^ 64

lemma checkedAdd_some {limit a b c : ℕ} : checkedAdd limit a b = some c ↔ a + b = c ∧ c < limit := by
  unfold checkedAdd
  split_ifs with h
  · rw [Option.some.injEq]
    exact ⟨fun he => ⟨he, he ▸ h⟩, fun he => he.1⟩
  · simp only [false_iff, not_and, not_lt]
    rintro rfl
    exact not_lt.mp h

def NANOS_PER_SEC : ℕ := 1000000000

def DURATION_LIMIT : ℕ := U64 * NANOS_PER_SEC

@[ext]
structure Duration where
  nanos : ℕ
  lt : nanos < DURATION_LIMIT
deriving DecidableEq

namespace Duration

def zero : Duration := ⟨0, by decide⟩

def ofNanos (n : ℕ) : Duration := ⟨n % DURATION_LIMIT, Nat.mod_lt n (by decide)⟩

def isZero (d : Duration) : Bool := d.nanos == 0

def checkedAdd (a b : Duration) : Option Duration :=
  if h : a.nanos + b.nanos < DURATION_LIMIT then some ⟨a.nanos + b.nanos, h⟩ else none

lemma checkedAdd_some {a b c : Duration} : a.checkedAdd b = some c ↔ a.nanos + b.nanos = c.nanos := by
  unfold checkedAdd
  split_ifs with h
  · rw [Option.some.injEq, Duration.ext_iff]
  · simp only [false_iff]
    intro he
    exact h (he ▸ c.lt)

def secs (d : Duration) : ℕ := d.nanos / NANOS_PER_SEC

def subsecNanos (d : Duration) : ℕ := d.nanos % NANOS_PER_SEC

end Duration

end Reiny.Lib.Checked
