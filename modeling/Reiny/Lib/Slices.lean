import Mathlib.Tactic

/-! Ranges of a buffer of fixed size. An access that would leave the buffer has no result. -/

namespace Reiny.Lib.Slices

open List

variable {α : Type*} {buf src : List α} {lo hi dest : ℕ}

/-- `a - b` on unsigned numbers. -/
def less (a b : ℕ) : Option ℕ := if b ≤ a then some (a - b) else none

/-- `buf[lo..hi]` -/
def slice (buf : List α) (lo hi : ℕ) : Option (List α) :=
  if lo ≤ hi ∧ hi ≤ buf.length then some ((buf.take hi).drop lo) else none

/-- `buf[lo..hi].copy_from_slice(src)` -/
def overwrite (buf : List α) (lo hi : ℕ) (src : List α) : Option (List α) :=
  if lo ≤ hi ∧ hi ≤ buf.length ∧ src.length = hi - lo then some (buf.take lo ++ src ++ buf.drop hi) else none

/-- `buf.copy_within(lo..hi, dest)` -/
def copyWithin (buf : List α) (lo hi dest : ℕ) : Option (List α) := do
  let src ← slice buf lo hi
  overwrite buf dest (dest + src.length) src

lemma less_of_le {a b : ℕ} (h : b ≤ a) : less a b = some (a - b) := if_pos h

lemma slice_of_le (h : lo ≤ hi) (hhi : hi ≤ buf.length) : slice buf lo hi = some ((buf.take hi).drop lo) :=
  if_pos ⟨h, hhi⟩

lemma slice_front (h : hi ≤ buf.length) : slice buf 0 hi = some (buf.take hi) := slice_of_le (Nat.zero_le _) h

lemma slice_back (h : lo ≤ buf.length) : slice buf lo buf.length = some (buf.drop lo) := by
  rw [slice_of_le h le_rfl, take_length]

lemma overwrite_of_le (h : dest + src.length ≤ buf.length) :
    overwrite buf dest (dest + src.length) src = some (buf.take dest ++ src ++ buf.drop (dest + src.length)) :=
  if_pos ⟨Nat.le_add_right _ _, h, by omega⟩

lemma overwrite_behind (h : dest + src.length ≤ buf.length) :
    ∃ buf', overwrite buf dest (dest + src.length) src = some buf' ∧
    buf'.length = buf.length ∧ buf'.take (dest + src.length) = buf.take dest ++ src := by
  refine ⟨_, overwrite_of_le h, ?_, ?_⟩
  · simp only [length_append, length_take, length_drop]
    omega
  · apply take_left'
    rw [length_append, length_take]
    omega

lemma copyWithin_front (h : lo ≤ hi) (hhi : hi ≤ buf.length) : ∃ buf', copyWithin buf lo hi 0 = some buf' ∧
    buf'.length = buf.length ∧ buf'.take (hi - lo) = (buf.take hi).drop lo := by
  have hl : ((buf.take hi).drop lo).length = hi - lo := by
    rw [length_drop, length_take]
    omega
  obtain ⟨buf', hw, hsz, ht⟩ := @overwrite_behind α buf ((buf.take hi).drop lo) 0 (by omega)
  refine ⟨buf', ?_, hsz, ?_⟩
  · simp only [copyWithin, slice_of_le h hhi, Option.bind_eq_bind, Option.bind_some]
    exact hw
  · rw [Nat.zero_add, hl, take_zero, nil_append] at ht
    exact ht

end Reiny.Lib.Slices
