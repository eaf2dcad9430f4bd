import Reiny.Lib.Words

/-! Readers that consume a prefix of a byte string, and the property that a reader accepts
exactly the image of a writer. -/

namespace Reiny.Lib.PrefixCode

open Words

abbrev Reader (α : Type) := StateT Bytes Option α

def take (n : ℕ) : Reader Bytes := fun bs =>
  if n ≤ bs.length then some (bs.take n, bs.drop n) else none

def byte : Reader UInt8
  | [] => none
  | b :: bs => some (b, bs)

def word32 : Reader UInt32 := do return UInt32.ofNat (ofLe (← take 4))

def word64 : Reader UInt64 := do return UInt64.ofNat (ofLe (← take 8))

def times {α : Type} (r : Reader α) : ℕ → Reader (List α)
  | 0 => return []
  | n + 1 => do
    let a ← r
    let as ← times r n
    return a :: as

def Canonical {α : Type} (r : Reader α) (valid : α → Prop) (write : α → Bytes) : Prop :=
  ∀ bs a rest, r.run bs = some (a, rest) ↔ valid a ∧ bs = write a ++ rest

variable {α β : Type} {r : Reader α} {valid : α → Prop} {write : α → Bytes} {bs rest : Bytes} {a : α}
  {k : α → Reader β}
  {b : β}

lemma run_bind_some :
    (r >>= k).run bs = some (b, rest) ↔
      ∃ a mid, r.run bs = some (a, mid) ∧ (k a).run mid = some (b, rest) := by
  simp only [StateT.run_bind, Option.bind_eq_bind, Option.bind_eq_some_iff, Prod.exists]

lemma run_pure_some {b : α} : (pure a : Reader α).run bs = some (b, rest) ↔ a = b ∧ bs = rest := by
  simp only [StateT.run_pure, Option.pure_def, Option.some.injEq, Prod.mk.injEq]

lemma Canonical.run_write (h : Canonical r valid write) (ha : valid a) (rest : Bytes) :
    r.run (write a ++ rest) = some (a, rest) := (h _ _ _).mpr ⟨ha, rfl⟩

lemma Canonical.bind_some (h : Canonical r valid write) :
    (r >>= k).run bs = some (b, rest) ↔
      ∃ a mid, valid a ∧ bs = write a ++ mid ∧ (k a).run mid = some (b, rest) := by
  rw [run_bind_some]
  simp only [h _ _ _, and_assoc]

lemma Canonical.append_inj (h : Canonical r valid write) {b : α} (ha : valid a) (hb : valid b) {s t : Bytes}
    (he : write a ++ s = write b ++ t) : a = b ∧ s = t := by
  have hr := h.run_write ha s
  rw [he, h.run_write hb t] at hr
  simp only [Option.some.injEq, Prod.mk.injEq] at hr
  exact ⟨hr.1.symm, hr.2.symm⟩

lemma take_canonical (n : ℕ) : Canonical (take n) (fun b => b.length = n) id := by
  intro bs a rest
  change (if n ≤ bs.length then some (bs.take n, bs.drop n) else none) = _ ↔ _
  constructor
  · intro h
    split_ifs at h with hn
    simp only [Option.some.injEq, Prod.mk.injEq] at h
    obtain ⟨rfl, rfl⟩ := h
    exact ⟨by simpa using hn, by simp⟩
  · rintro ⟨rfl, rfl⟩
    simp

lemma byte_canonical : Canonical byte (fun _ => True) (fun b => [b]) := by
  intro bs a rest
  cases bs with
  | nil | cons => simp [StateT.run, byte]

lemma word32_canonical : Canonical word32 (fun _ => True) le32 := by
  intro bs a rest
  simp only [word32, (take_canonical 4).bind_some, run_pure_some, id_eq]
  constructor
  · rintro ⟨b, mid, hb, rfl, rfl, rfl⟩
    exact ⟨trivial, by rw [le32_of hb]⟩
  · rintro ⟨-, rfl⟩
    exact ⟨le32 a, rest, le32_length a, rfl, of_le32 a, rfl⟩

lemma word64_canonical : Canonical word64 (fun _ => True) le64 := by
  intro bs a rest
  simp only [word64, (take_canonical 8).bind_some, run_pure_some, id_eq]
  constructor
  · rintro ⟨b, mid, hb, rfl, rfl, rfl⟩
    exact ⟨trivial, by rw [le64_of hb]⟩
  · rintro ⟨-, rfl⟩
    exact ⟨le64 a, rest, le64_length a, rfl, of_le64 a, rfl⟩

lemma Canonical.times {α : Type} {r : Reader α} {valid : α → Prop} {write : α → Bytes}
    (h : Canonical r valid write) (n : ℕ) :
    Canonical (times r n) (fun l => l.length = n ∧ ∀ a ∈ l, valid a) (fun l => l.flatMap write) := by
  induction n with
  | zero =>
    intro bs l rest
    simp only [PrefixCode.times, run_pure_some]
    constructor
    · rintro ⟨rfl, rfl⟩
      simp
    · rintro ⟨⟨hl, -⟩, rfl⟩
      rw [List.length_eq_zero_iff] at hl
      subst hl
      simp
  | succ n ih =>
    intro bs l rest
    simp only [PrefixCode.times, h.bind_some, ih.bind_some, run_pure_some]
    constructor
    · rintro ⟨a, mid, ha, rfl, as, mid', ⟨hl, has⟩, rfl, rfl, rfl⟩
      exact ⟨⟨by simp [hl], by simpa using ⟨ha, has⟩⟩, by simp⟩
    · rintro ⟨⟨hl, hv⟩, rfl⟩
      obtain ⟨a, as, rfl⟩ := List.exists_cons_of_length_eq_add_one hl
      simp only [List.mem_cons, forall_eq_or_imp] at hv
      exact ⟨a, as.flatMap write ++ rest, hv.1, by simp, as, rest, ⟨by simpa using hl, hv.2⟩, rfl, rfl, rfl⟩

end Reiny.Lib.PrefixCode
