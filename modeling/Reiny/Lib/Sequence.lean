import Mathlib.Tactic

/-! Operations that are handled in order, each with an output and with its place in the sequence. -/

namespace Reiny.Lib.Sequence

open List

variable {S Op O : Type*} (handle : S → ℕ → Op → O × S)

def run (s : S) (place : ℕ) : List Op → List O × S
  | [] => ([], s)
  | op :: ops =>
    let (output, s) := handle s place op
    let (outputs, s) := run s (place + 1) ops
    (output :: outputs, s)

def outputs (s : S) (ops : List Op) : List O := (run handle s 0 ops).1

def after (s : S) (ops : List Op) : S := (run handle s 0 ops).2

variable {handle} {s : S} {place k : ℕ} {ops more : List Op} {op : Op}

lemma run_append : run handle s place (ops ++ more) =
    ((run handle s place ops).1 ++ (run handle (run handle s place ops).2 (place + ops.length) more).1,
      (run handle (run handle s place ops).2 (place + ops.length) more).2) := by
  induction ops generalizing s place with
  | nil => rfl
  | cons op ops ih =>
    have hp : place + 1 + ops.length = place + (op :: ops).length := by
      rw [length_cons]
      omega
    simp only [cons_append, run, ih, hp]

lemma after_append : after handle s (ops ++ [op]) = (handle (after handle s ops) ops.length op).2 := by
  rw [after, run_append, Nat.zero_add]
  rfl

lemma outputs_append : outputs handle s (ops ++ [op]) =
    outputs handle s ops ++ [(handle (after handle s ops) ops.length op).1] := by
  rw [outputs, run_append, Nat.zero_add]
  rfl

lemma outputs_length : (outputs handle s ops).length = ops.length := by
  induction ops using List.reverseRecOn with
  | nil => rfl
  | append_singleton ops op ih => simp [outputs_append, ih]

lemma outputs_getElem (h : ops[k]? = some op) :
    (outputs handle s ops)[k]? = some (handle (after handle s (ops.take k)) k op).1 := by
  induction ops using List.reverseRecOn with
  | nil => cases h
  | append_singleton ops last ih =>
    rw [outputs_append]
    rcases Nat.lt_or_ge k ops.length with hlt | hge
    · rw [getElem?_append_left hlt] at h
      rw [getElem?_append_left (by rw [outputs_length]; exact hlt), take_append_of_le_length hlt.le]
      exact ih h
    · have hl := (List.getElem?_eq_some_iff.mp h).1
      rw [length_append, length_singleton] at hl
      obtain rfl : k = ops.length := by omega
      rw [getElem?_concat_length] at h
      cases h
      rw [getElem?_append_right (by rw [outputs_length]), outputs_length, take_left]
      simp

lemma output_op {output : O} (h : (outputs handle s ops)[k]? = some output) :
    ∃ op, ops[k]? = some op ∧ output = (handle (after handle s (ops.take k)) k op).1 := by
  have hlt := (List.getElem?_eq_some_iff.mp h).1
  rw [outputs_length] at hlt
  refine ⟨ops[k], getElem?_eq_getElem hlt, ?_⟩
  rw [outputs_getElem (getElem?_eq_getElem hlt)] at h
  exact (Option.some.inj h).symm

lemma outputs_take (n : ℕ) : outputs handle s (ops.take n) = (outputs handle s ops).take n := by
  rcases Nat.le_total ops.length n with hle | hle
  · rw [take_of_length_le hle, take_of_length_le (by rw [outputs_length]; exact hle)]
  · have hsp : outputs handle s ops = outputs handle s (ops.take n) ++
        (run handle (after handle s (ops.take n)) (0 + (ops.take n).length) (ops.drop n)).1 := by
      conv_lhs => rw [← take_append_drop n ops, outputs, run_append]
      rfl
    have hl : (outputs handle s (ops.take n)).length = n := by
      rw [outputs_length, length_take, Nat.min_eq_left hle]
    rw [hsp, take_append_of_le_length hl.ge, take_of_length_le hl.le]

end Reiny.Lib.Sequence
