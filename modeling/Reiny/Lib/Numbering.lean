import Mathlib.Tactic

/-! A wrapping counter that numbers attempts, of which only those that succeed show their number. -/

namespace Reiny.Lib.Numbering

def numbers : UInt8 → List Bool → List UInt8
  | _, [] => []
  | c, true :: rest => c :: numbers (c + 1) rest
  | c, false :: rest => numbers (c + 1) rest

def failedBefore : ℕ → List Bool → List ℕ
  | _, [] => []
  | n, true :: rest => n :: failedBefore 0 rest
  | n, false :: rest => failedBefore (n + 1) rest

def Consecutive (ns : List UInt8) : Prop := ns.IsChain fun a b => b = a + 1

instance (ns : List UInt8) : Decidable (Consecutive ns) := inferInstanceAs (Decidable (ns.IsChain _))

lemma numbers_append (c : UInt8) (xs ys : List Bool) :
    numbers c (xs ++ ys) = numbers c xs ++ numbers (c + UInt8.ofNat xs.length) ys := by
  induction xs generalizing c with
  | nil => simp [numbers]
  | cons x xs ih =>
    have hn : c + UInt8.ofNat (x :: xs).length = c + 1 + UInt8.ofNat xs.length := by
      rw [List.length_cons, Nat.add_comm, UInt8.ofNat_add, ← UInt8.add_assoc]
      rfl
    rw [hn]
    cases x with
    | true => exact congrArg (c :: ·) (ih (c + 1))
    | false => exact ih (c + 1)

lemma skipped_eq {c : UInt8} {k : ℕ} : c + 1 + UInt8.ofNat k = c + 1 ↔ 256 ∣ k := by
  rw [← UInt8.toNat_inj, UInt8.toNat_add, UInt8.toNat_ofNat']
  have hlt := (c + 1).toNat_lt
  omega

lemma consecutive_after (p : UInt8) (k : ℕ) (xs : List Bool) :
    Consecutive (p :: numbers (p + 1 + UInt8.ofNat k) xs) ↔ ∀ n ∈ failedBefore k xs, 256 ∣ n := by
  induction xs generalizing p k with
  | nil => simp [Consecutive, numbers, failedBefore]
  | cons x xs ih =>
    cases x with
    | true =>
      have hr := ih (p + 1 + UInt8.ofNat k) 0
      rw [show UInt8.ofNat 0 = 0 from rfl, UInt8.add_zero] at hr
      rw [Consecutive, numbers, List.isChain_cons_cons, skipped_eq, failedBefore, List.forall_mem_cons]
      exact and_congr Iff.rfl hr
    | false =>
      have hn : p + 1 + UInt8.ofNat k + 1 = p + 1 + UInt8.ofNat (k + 1) := by
        rw [UInt8.ofNat_add, UInt8.add_assoc (p + 1)]
        rfl
      rw [numbers, failedBefore, hn]
      exact ih p (k + 1)

theorem consecutive_numbers (c : UInt8) (k : ℕ) (xs : List Bool) :
    Consecutive (numbers c xs) ↔ ∀ n ∈ (failedBefore k xs).tail, 256 ∣ n := by
  induction xs generalizing c k with
  | nil => simp [Consecutive, numbers, failedBefore]
  | cons x xs ih =>
    cases x with
    | true =>
      have hr := consecutive_after c 0 xs
      rw [show UInt8.ofNat 0 = 0 from rfl, UInt8.add_zero] at hr
      exact hr
    | false => exact ih (c + 1) (k + 1)

end Reiny.Lib.Numbering
