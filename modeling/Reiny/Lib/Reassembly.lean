import Mathlib.Tactic

/-! A receiver that cuts a stream at its delimiters in a buffer of limited size. -/

namespace Reiny.Lib.Reassembly

open List

variable {α : Type*}

section Segments

variable [DecidableEq α]

def completed (d : α) (stream : List α) : List (List α) := (stream.splitOn d).dropLast

def fitting (d : α) (cap : ℕ) (stream : List α) : List (List α) :=
  (completed d stream).filter fun segment => segment.length + 1 ≤ cap

def oversized (d : α) (cap : ℕ) (stream : List α) : ℕ :=
  (completed d stream).countP (fun segment => cap < segment.length + 1) +
    if cap < ((stream.splitOn d).getLastD []).length then 1 else 0

end Segments

def ended (d : α) (segments : List (List α)) : List α := segments.flatMap (· ++ [d])

def Passed (d : α) (cap : ℕ) (stream ahead unread : List α) (skip : Bool) (handled : List (List α)) (dropped : ℕ) :
    Prop :=
  ∃ segments current, (∀ segment ∈ segments, d ∉ segment) ∧ stream = ended d segments ++ current ∧
    handled = segments.filter (fun segment => segment.length + 1 ≤ cap) ∧
    dropped = segments.countP (fun segment => cap < segment.length + 1) + skip.toNat ∧
    (skip = false → current = unread ∧ unread.length ≤ cap) ∧
    (skip = true → unread = [] ∧ d ∉ current ∧ cap ≤ current.length ∧ cap < (current ++ ahead).length)

variable {d : α} {cap : ℕ} {stream ahead unread : List α} {skip : Bool} {handled : List (List α)} {dropped : ℕ}
  {bytes chunk : List α}

lemma passed_start : Passed d cap [] ahead [] false [] 0 :=
  ⟨[], [], nofun, rfl, rfl, rfl, fun _ => ⟨rfl, Nat.zero_le _⟩, nofun⟩

lemma ended_concat (segments : List (List α)) (segment : List α) :
    ended d (segments ++ [segment]) = ended d segments ++ (segment ++ [d]) := by
  simp [ended]

lemma Passed.announce {ahead' : List α} (h : Passed d cap stream [] unread skip handled dropped) :
    Passed d cap stream ahead' unread skip handled dropped := by
  obtain ⟨segments, current, hf, hst, hh, hd, ho, hsk⟩ := h
  refine ⟨segments, current, hf, hst, hh, hd, ho, fun hs => ?_⟩
  obtain ⟨hu, hc, hfu, hov⟩ := hsk hs
  rw [append_nil] at hov
  exact ⟨hu, hc, hfu, hov.trans_le (by simp)⟩

lemma Passed.append (h : Passed d cap stream (bytes ++ ahead) unread false handled dropped)
    (hr : unread.length + bytes.length ≤ cap) :
    Passed d cap (stream ++ bytes) ahead (unread ++ bytes) false handled dropped := by
  obtain ⟨segments, current, hf, rfl, hh, hd, ho, -⟩ := h
  obtain ⟨rfl, -⟩ := ho rfl
  refine ⟨segments, current ++ bytes, hf, append_assoc _ _ _, hh, hd, fun _ => ⟨rfl, ?_⟩, nofun⟩
  rwa [length_append]

lemma Passed.overflow (h : Passed d cap stream ahead unread false handled dropped) (hfu : cap ≤ unread.length)
    (hn : d ∉ unread) (ha : ahead ≠ []) : Passed d cap stream ahead [] true handled (dropped + 1) := by
  obtain ⟨segments, current, hf, hs, hh, rfl, ho, -⟩ := h
  obtain ⟨rfl, -⟩ := ho rfl
  refine ⟨segments, current, hf, hs, hh, rfl, nofun, fun _ => ⟨rfl, hn, hfu, ?_⟩⟩
  have hp := length_pos_iff.mpr ha
  rw [length_append]
  omega

lemma Passed.skipped (h : Passed d cap stream bytes unread true handled dropped) (hn : d ∉ bytes) :
    Passed d cap (stream ++ bytes) [] unread true handled dropped := by
  obtain ⟨segments, current, hf, rfl, hh, hd, -, hs⟩ := h
  obtain ⟨hu, hc, hfu, ho⟩ := hs rfl
  refine ⟨segments, current ++ bytes, hf, append_assoc _ _ _, hh, hd, nofun, fun _ => ⟨hu, ?_, ?_, ?_⟩⟩
  · simp [hc, hn]
  · exact ho.le
  · rwa [append_nil]

lemma Passed.found (h : Passed d cap stream (chunk ++ d :: ahead) unread true handled dropped)
    (hn : d ∉ chunk) : Passed d cap (stream ++ (chunk ++ [d])) ahead unread false handled dropped := by
  obtain ⟨segments, current, hf, rfl, rfl, rfl, -, hs⟩ := h
  obtain ⟨rfl, hc, hfu, -⟩ := hs rfl
  have hl : cap < (current ++ chunk).length + 1 := by
    rw [length_append]
    omega
  refine ⟨segments ++ [current ++ chunk], [], ?_, ?_, ?_, ?_, fun _ => ⟨rfl, Nat.zero_le _⟩, nofun⟩
  · intro segment hm
    rcases mem_append.mp hm with ho | hnew
    · exact hf segment ho
    · rw [mem_singleton.mp hnew]
      simp [hc, hn]
  · rw [ended_concat]
    simp
  · rw [filter_append, filter_singleton, decide_eq_false (Nat.not_le.mpr hl)]
    simp
  · rw [countP_append, countP_singleton, decide_eq_true hl]
    rfl

lemma Passed.handle {rest : List α} (h : Passed d cap stream ahead (chunk ++ d :: rest) skip handled dropped)
    (hn : d ∉ chunk) : Passed d cap stream ahead rest skip (handled ++ [chunk]) dropped := by
  obtain ⟨segments, current, hf, rfl, rfl, rfl, ho, hsk⟩ := h
  cases skip with
  | true =>
    obtain ⟨hnil, -⟩ := hsk rfl
    simp at hnil
  | false =>
    obtain ⟨rfl, hfi⟩ := ho rfl
    have hs : chunk.length + 1 ≤ cap := by
      simp only [length_append, length_cons] at hfi
      omega
    refine ⟨segments ++ [chunk], rest, ?_, ?_, ?_, ?_, fun _ => ⟨rfl, ?_⟩, nofun⟩
    · intro segment hm
      rcases mem_append.mp hm with hold | hnew
      · exact hf segment hold
      · rwa [mem_singleton.mp hnew]
    · rw [ended_concat]
      simp
    · rw [filter_append, filter_singleton, decide_eq_true hs]
      simp
    · rw [countP_append, countP_singleton, decide_eq_false (Nat.not_lt.mpr hs)]
      simp
    · simp only [length_append, length_cons] at hfi
      omega

variable [DecidableEq α]

lemma beq_false_of_not_mem {segment : List α} (h : d ∉ segment) : ∀ a ∈ segment, (a == d) = false := by
  intro a ha
  rw [beq_eq_false_iff_ne]
  rintro rfl
  exact h ha

lemma splitOn_ended {segments : List (List α)} {current : List α} (hf : ∀ segment ∈ segments, d ∉ segment)
    (hc : d ∉ current) : (ended d segments ++ current).splitOn d = segments ++ [current] := by
  induction segments with
  | nil =>
    rw [splitOn_eq_splitOnP]
    exact splitOnP_eq_singleton (beq_false_of_not_mem hc)
  | cons segment segments ih =>
    have hfst : ended d (segment :: segments) ++ current = segment ++ d :: (ended d segments ++ current) := by
      simp [ended]
    rw [hfst, splitOn_eq_splitOnP,
      splitOnP_append_cons_of_forall_mem (beq_false_of_not_mem (hf _ mem_cons_self)) d (beq_self_eq_true d),
      ← splitOn_eq_splitOnP, ih fun s hs => hf s (mem_cons_of_mem _ hs), cons_append]

lemma Passed.drained (h : Passed d cap stream [] unread skip handled dropped) (hn : d ∉ unread) :
    handled = fitting d cap stream ∧ dropped = oversized d cap stream := by
  obtain ⟨segments, current, hf, rfl, rfl, rfl, ho, hs⟩ := h
  have hc : d ∉ current ∧ skip.toNat = if cap < current.length then 1 else 0 := by
    cases skip with
    | false =>
      obtain ⟨rfl, hfi⟩ := ho rfl
      exact ⟨hn, (if_neg (Nat.not_lt.mpr hfi)).symm⟩
    | true =>
      obtain ⟨-, hf', -, hov⟩ := hs rfl
      rw [append_nil] at hov
      exact ⟨hf', (if_pos hov).symm⟩
  have hsp := splitOn_ended hf hc.1
  have hd : completed d (ended d segments ++ current) = segments := by
    rw [completed, hsp, dropLast_concat]
  constructor
  · rw [fitting, hd]
  · rw [oversized, hd, hsp, getLastD_concat, hc.2]

end Reiny.Lib.Reassembly
