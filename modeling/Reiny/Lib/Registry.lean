import Mathlib.Tactic

/-! What is registered after a sequence of operations. -/

namespace Reiny.Lib.Registry

open List

variable {Op R : Type*} (registers : ℕ → Op → Option R) (removes : Op → R → Bool)

def advance (entries : List (ℕ × R)) (place : ℕ) (op : Op) : List (ℕ × R) :=
  (entries.filter fun entry => !removes op entry.2) ++ ((registers place op).map fun r => (place, r)).toList

def live (ops : List Op) : List (ℕ × R) :=
  ops.zipIdx.foldl (fun entries item => advance registers removes entries item.2 item.1) []

variable {registers removes} {ops : List Op} {op : Op} {i : ℕ} {r : R}

lemma live_append : live registers removes (ops ++ [op]) =
    advance registers removes (live registers removes ops) ops.length op := by
  rw [live, zipIdx_append, foldl_append]
  simp [live]

def Kept (registers : ℕ → Op → Option R) (removes : Op → R → Bool) (ops : List Op) (i : ℕ) (r : R) : Prop :=
  (∃ op, ops[i]? = some op ∧ registers i op = some r) ∧
    ∀ j op, i < j → ops[j]? = some op → removes op r = false

lemma kept_append : Kept registers removes (ops ++ [op]) i r ↔
    (i < ops.length ∧ Kept registers removes ops i r ∧ removes op r = false) ∨
      i = ops.length ∧ registers i op = some r := by
  constructor
  · rintro ⟨⟨found, hf, hr⟩, hk⟩
    rcases Nat.lt_trichotomy i ops.length with hlt | heq | hgt
    · rw [getElem?_append_left hlt] at hf
      refine .inl ⟨hlt, ⟨⟨found, hf, hr⟩, ?_⟩, ?_⟩
      · intro j other hj ho
        refine hk j other hj ?_
        rw [getElem?_append_left (List.getElem?_eq_some_iff.mp ho).1]
        exact ho
      · exact hk ops.length op hlt (by simp)
    · subst heq
      rw [getElem?_concat_length] at hf
      cases hf
      exact .inr ⟨rfl, hr⟩
    · have hl := (List.getElem?_eq_some_iff.mp hf).1
      rw [length_append, length_singleton] at hl
      omega
  · rintro (⟨hlt, ⟨⟨found, hf, hr⟩, hk⟩, hop⟩ | ⟨rfl, hr⟩)
    · refine ⟨⟨found, by rw [getElem?_append_left hlt]; exact hf, hr⟩, ?_⟩
      intro j other hj ho
      rcases Nat.lt_or_ge j ops.length with hj' | hj'
      · rw [getElem?_append_left hj'] at ho
        exact hk j other hj ho
      · have hl := (List.getElem?_eq_some_iff.mp ho).1
        rw [length_append, length_singleton] at hl
        have heq : j = ops.length := by omega
        subst heq
        rw [getElem?_concat_length] at ho
        cases ho
        exact hop
    · refine ⟨⟨op, getElem?_concat_length, hr⟩, ?_⟩
      intro j other hj ho
      have hl := (List.getElem?_eq_some_iff.mp ho).1
      rw [length_append, length_singleton] at hl
      omega

lemma Kept.lt (h : Kept registers removes ops i r) : i < ops.length := by
  obtain ⟨⟨op, hop, -⟩, -⟩ := h
  exact (List.getElem?_eq_some_iff.mp hop).1

theorem mem_live : (i, r) ∈ live registers removes ops ↔ Kept registers removes ops i r := by
  induction ops using List.reverseRecOn with
  | nil =>
    constructor
    · intro h
      cases h
    · intro h
      exact absurd h.lt (Nat.not_lt_zero i)
  | append_singleton ops op ih =>
    rw [live_append, advance, mem_append, mem_filter, ih, kept_append]
    simp only [Bool.not_eq_true', Option.mem_toList, Option.map_eq_some_iff, Prod.mk.injEq]
    constructor
    · rintro (⟨hk, hop⟩ | ⟨found, hr, rfl, rfl⟩)
      · exact .inl ⟨hk.lt, hk, hop⟩
      · exact .inr ⟨rfl, hr⟩
    · rintro (⟨-, hk, hop⟩ | ⟨rfl, hr⟩)
      · exact .inl ⟨hk, hop⟩
      · exact .inr ⟨r, hr, rfl, rfl⟩

theorem mem_live_take {k : ℕ} {removal : Op} (hre : ∀ op, removes op r = true ↔ op = removal) :
    (i, r) ∈ live registers removes (ops.take k) ↔
      (∃ op, ops[i]? = some op ∧ registers i op = some r) ∧
        i < k ∧ ∀ j, i < j → j < k → ops[j]? ≠ some removal := by
  have ht : ∀ j op, (ops.take k)[j]? = some op ↔ j < k ∧ ops[j]? = some op := by
    intro j op
    rw [getElem?_take]
    split_ifs with hj <;> simp [hj]
  simp only [mem_live, Kept, ht]
  constructor
  · rintro ⟨⟨op, ⟨hlt, hop⟩, hr⟩, hk⟩
    refine ⟨⟨op, hop, hr⟩, hlt, ?_⟩
    intro j hij hjk hj
    have hno := hk j removal hij ⟨hjk, hj⟩
    rw [(hre removal).mpr rfl] at hno
    cases hno
  · rintro ⟨⟨op, hop, hr⟩, hlt, hk⟩
    refine ⟨⟨op, ⟨hlt, hop⟩, hr⟩, ?_⟩
    rintro j other hij ⟨hjk, hj⟩
    rw [Bool.eq_false_iff, ne_eq, hre]
    rintro rfl
    exact hk j hij hjk hj

theorem live_sorted : (live registers removes ops).Pairwise fun a b => a.1 < b.1 := by
  induction ops using List.reverseRecOn with
  | nil => exact List.Pairwise.nil
  | append_singleton ops op ih =>
    rw [live_append, advance, pairwise_append]
    refine ⟨ih.filter _, ?_, ?_⟩
    · cases registers ops.length op <;> simp
    · intro a ha b hb
      have hlt : a.1 < ops.length := (mem_live.mp (mem_of_mem_filter ha)).lt
      obtain ⟨found, -, hb⟩ := Option.map_eq_some_iff.mp (Option.mem_toList.mp hb)
      cases hb
      exact hlt

variable {entries : List (ℕ × R)} {p : ℕ × R → Bool}

lemma filter_place (hs : entries.Pairwise fun a b => a.1 < b.1) (h : (i, r) ∈ entries) :
    (entries.filter p).filter (fun entry => entry.1 = i) = if p (i, r) then [(i, r)] else [] := by
  induction entries with
  | nil => cases h
  | cons entry entries ih =>
    obtain ⟨hf, hs⟩ := pairwise_cons.mp hs
    rcases mem_cons.mp h with rfl | h
    · have hr : (entries.filter p).filter (fun entry => entry.1 = i) = [] := by
        rw [filter_eq_nil_iff]
        intro other ho
        have := hf other (mem_of_mem_filter ho)
        simp only [decide_eq_true_eq]
        omega
      by_cases hp : p (i, r) = true <;> simp [hp, hr]
    · have hne : entry.1 ≠ i := (hf _ h).ne
      by_cases hp : p entry = true <;> simp [hp, hne, ih hs h]

lemma place_unique {r' : R} (hs : entries.Pairwise fun a b => a.1 < b.1) (h : (i, r) ∈ entries)
    (h' : (i, r') ∈ entries) : r' = r := by
  have ho := filter_place hs h (p := fun _ => true)
  have hm : (i, r') ∈ (entries.filter fun _ => true).filter (fun entry => entry.1 = i) := by simp [h']
  rw [ho, if_pos rfl, mem_singleton] at hm
  exact (Prod.mk.inj hm).2

end Reiny.Lib.Registry
