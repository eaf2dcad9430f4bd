import Mathlib.Tactic

/-! Streams of chunks that each end with a delimiter, and what the chunks of a stream weigh together. -/

namespace Reiny.Lib.Delimited

open List

variable {α : Type*} [DecidableEq α] {d : α} {weight : List α → ℕ}

def cost (d : α) (weight : List α → ℕ) : List α → List α → ℕ
  | before, [] => if before = [] then 0 else 1
  | before, a :: rest => if a = d then weight before + cost d weight [] rest else cost d weight (before ++ [a]) rest

def pass (d : α) (skip : Bool) (s : List α) : List α := if skip then (s.dropWhile (· != d)).tail else s

def Aligned (d : α) (s : List α) : Prop := s = [] ∨ s.getLast? = some d

def chunks (d : α) (s : List α) : ℕ := cost d (fun chunk => if chunk = [] then 0 else 1) [] s

section Search

variable {β : Type*} [BEq β] [LawfulBEq β] {e : β} {chunk rest s : List β} {i : ℕ}

lemma find_none (h : e ∉ s) : s.findIdx? (· == e) = none := by
  rw [findIdx?_eq_none_iff]
  intro b hb
  rw [beq_eq_false_iff_ne]
  rintro rfl
  exact h hb

lemma find_chunk (h : e ∉ chunk) : (chunk ++ e :: rest).findIdx? (· == e) = some chunk.length := by
  rw [findIdx?_append, find_none h]
  simp [findIdx?_cons]

lemma find_some (h : s.findIdx? (· == e) = some i) :
    ∃ chunk rest, e ∉ chunk ∧ chunk.length = i ∧ s = chunk ++ e :: rest := by
  have hm : e ∈ s := by
    by_contra hnone
    rw [find_none hnone] at h
    cases h
  obtain ⟨chunk, rest, rfl, hch⟩ := eq_append_cons_of_mem hm
  rw [find_chunk hch] at h
  exact ⟨chunk, rest, hch, Option.some.inj h, rfl⟩

omit [BEq β] [LawfulBEq β] in
lemma drop_chunk (chunk rest : List β) (e : β) : (chunk ++ e :: rest).drop (chunk.length + 1) = rest := by
  rw [append_cons, drop_left' (by simp)]

end Search

variable {chunk : List α} {rest before : List α}

lemma cost_chunk (h : d ∉ chunk) :
    cost d weight before (chunk ++ rest) = cost d weight (before ++ chunk) rest := by
  induction chunk generalizing before with
  | nil => rw [nil_append, append_nil]
  | cons a chunk ih =>
    simp only [mem_cons, not_or] at h
    obtain ⟨hne, hch⟩ := h
    rw [cons_append, cost, if_neg (Ne.symm hne), ih hch, append_assoc, singleton_append]

lemma cost_frame (h : d ∉ chunk) :
    cost d weight before (chunk ++ d :: rest) = weight (before ++ chunk) + cost d weight [] rest := by
  rw [cost_chunk h, cost, if_pos rfl]

lemma cost_mono {weight' : List α → ℕ} (h : ∀ chunk, weight chunk ≤ weight' chunk) (before s : List α) :
    cost d weight before s ≤ cost d weight' before s := by
  induction s generalizing before with
  | nil => rfl
  | cons a s ih =>
    rw [cost, cost]
    split_ifs
    · exact Nat.add_le_add (h before) (ih [])
    · exact ih _

lemma cost_append_frame (hw : ∀ chunk, weight chunk ≤ 1) (h : d ∉ chunk) (before s : List α) :
    cost d weight before (s ++ (chunk ++ [d])) ≤ cost d weight before s + weight chunk := by
  induction s generalizing before with
  | nil =>
    rw [nil_append, cost_frame h, cost, cost]
    by_cases hb : before = []
    · simp [hb]
    · have hle := hw (before ++ chunk)
      simp only [hb, if_false, if_true]
      omega
  | cons a s ih =>
    rw [cons_append, cost, cost]
    split_ifs
    · have := ih []
      omega
    · exact ih _

lemma cost_aligned {u : List α} (h : Aligned d u) (s : List α) :
    cost d weight [] (u ++ s) = cost d weight [] u + cost d weight [] s := by
  have hg : ∀ before, (u = [] → before = []) → cost d weight before (u ++ s) =
    cost d weight before u + cost d weight [] s := by
    induction u with
    | nil =>
      intro before hb
      rw [hb rfl]
      simp [cost]
    | cons a u ih =>
      intro before _
      have hu : Aligned d u ∧ (u = [] → a = d) := by
        rcases h with hn | hl
        · cases hn
        · cases u with
          | nil => exact ⟨Or.inl rfl, fun _ => by simpa using hl⟩
          | cons b u => exact ⟨Or.inr (by simpa using hl), nofun⟩
      rw [cons_append, cost, cost]
      split_ifs with ha
      · rw [ih hu.1 [] (fun _ => rfl), Nat.add_assoc]
      · exact ih hu.1 _ (fun hn => absurd (hu.2 hn) ha)
  exact hg [] fun _ => rfl

variable {s : List α}

lemma dropWhile_chunk (h : d ∉ chunk) (rest : List α) :
    (chunk ++ rest).dropWhile (· != d) = rest.dropWhile (· != d) := by
  apply dropWhile_append_of_pos
  intro a ha
  rw [bne_iff_ne]
  rintro rfl
  exact h ha

lemma pass_skipped (h : d ∉ chunk) (rest : List α) : pass d true (chunk ++ rest) = pass d true rest := by
  rw [pass, pass, if_pos rfl, if_pos rfl, dropWhile_chunk h]

lemma pass_found (h : d ∉ chunk) : pass d true (chunk ++ d :: rest) = rest := by
  rw [pass_skipped h, pass, if_pos rfl, dropWhile_cons, if_neg (by simp), tail_cons]

lemma pass_missing (h : d ∉ s) : pass d true s = [] := by
  rw [← append_nil s, pass_skipped h]
  rfl

lemma dropWhile_cases (d : α) (s : List α) : d ∉ s ∧ s.dropWhile (· != d) = [] ∨
    ∃ chunk rest, d ∉ chunk ∧ s = chunk ++ d :: rest ∧ s.dropWhile (· != d) = d :: rest := by
  by_cases h : d ∈ s
  · obtain ⟨chunk, rest, rfl, hch⟩ := eq_append_cons_of_mem h
    refine .inr ⟨chunk, rest, hch, rfl, ?_⟩
    rw [dropWhile_chunk hch, dropWhile_cons, if_neg (by simp)]
  · refine .inl ⟨h, ?_⟩
    rw [← append_nil s, dropWhile_chunk h]
    rfl

lemma pass_append (h : d ∈ s) (skip : Bool) (t : List α) : pass d skip (s ++ t) = pass d skip s ++ t := by
  cases skip with
  | false => rfl
  | true =>
    obtain ⟨chunk, rest, rfl, hch⟩ := eq_append_cons_of_mem h
    rw [append_assoc, cons_append, pass_found hch, pass_found hch]

lemma cost_pass_le (before s : List α) : cost d weight [] (pass d true s) ≤ cost d weight before s := by
  by_cases h : d ∈ s
  · obtain ⟨chunk, rest, rfl, hch⟩ := eq_append_cons_of_mem h
    rw [pass_found hch, cost_frame hch]
    exact Nat.le_add_left _ _
  · rw [pass_missing h]
    exact Nat.zero_le _

lemma cost_pass_append (hw : ∀ chunk, weight chunk ≤ 1) (h : d ∉ chunk) (skip : Bool) (u s : List α) :
    cost d weight [] (u ++ pass d skip (s ++ (chunk ++ [d]))) ≤ cost d weight []
      (u ++ pass d skip s) + weight chunk := by
  by_cases hs : d ∈ s
  · rw [pass_append hs, ← append_assoc]
    exact cost_append_frame hw h [] _
  · cases skip with
    | false =>
      change cost d weight [] (u ++ (s ++ (chunk ++ [d]))) ≤ cost d weight [] (u ++ s) + _
      rw [← append_assoc]
      exact cost_append_frame hw h [] _
    | true =>
      rw [pass_skipped hs, pass_found h, pass_missing hs]
      exact Nat.le_add_right _ _

lemma cost_pass_drop {u line : List α} {skip : Bool} (ha : Aligned d (u ++ pass d skip line))
    (h : d ∉ chunk) : cost d weight [] (u ++ pass d skip (line ++ rest)) ≤
      cost d weight [] (u ++ pass d skip (line ++ (chunk ++ d :: rest))) := by
  have hk : cost d weight [] (u ++ pass d skip line ++ rest) ≤
      cost d weight [] (u ++ pass d skip line ++ (chunk ++ d :: rest)) := by
    rw [cost_aligned ha, cost_aligned ha, cost_frame h]
    omega
  by_cases hl : d ∈ line
  · rwa [pass_append hl, pass_append hl, ← append_assoc, ← append_assoc]
  · cases skip with
    | false =>
      change cost d weight [] (u ++ (line ++ rest)) ≤ cost d weight [] (u ++ (line ++ (chunk ++ d :: rest)))
      rwa [← append_assoc, ← append_assoc]
    | true =>
      rw [pass_missing hl, append_nil] at ha
      rw [pass_skipped hl, pass_skipped hl, pass_found h, cost_aligned ha, cost_aligned ha]
      exact Nat.add_le_add_left (cost_pass_le [] rest) _

end Reiny.Lib.Delimited
