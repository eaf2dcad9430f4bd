import Reiny.Lib.Maps

/-! Collecting a record of everything that is reached from a root. -/

namespace Reiny.Lib.Worklist

open Std Results Maps List ExtTreeMap

variable {K V ε : Type} [Ord K] [TransOrd K]

def close (expand : K → Except ε (V × List K)) :
    ℕ → List K → ExtTreeMap K V → Except ε (Option (ExtTreeMap K V))
  | _, [], records => .ok (some records)
  | 0, _ :: _, _ => .ok none
  | fuel + 1, k :: pending, records =>
    if k ∈ records then close expand fuel pending records
    else do
      let (v, refs) ← expand k
      close expand fuel (refs.reverse ++ pending) (records.insert k v)

inductive Reach (expand : K → Except ε (V × List K)) (root : K) : K → Prop
  | root : Reach expand root root
  | step {k j : K} {v : V} {refs : List K} (hk : Reach expand root k) (h : expand k = .ok (v, refs))
    (hj : j ∈ refs) :
      Reach expand root j

variable {expand expand' : K → Except ε (V × List K)} {root : K} {fuel : ℕ} {pending : List K}
  {records result : ExtTreeMap K V} {k : K} {v : V}

structure Open (expand : K → Except ε (V × List K)) (root : K) (pending : List K) (records : ExtTreeMap K V) :
    Prop where
  stacked : ∀ k ∈ pending, Reach expand root k
  recorded : ∀ k v, records[k]? = some v → Reach expand root k ∧ ∃ refs, expand k = .ok (v, refs) ∧
    ∀ j ∈ refs, j ∈ records ∨ j ∈ pending
  started : root ∈ records ∨ root ∈ pending

lemma Open.skip (h : Open expand root (k :: pending) records) (hk : k ∈ records) :
    Open expand root pending records where
  stacked j hj := h.stacked j (List.mem_cons_of_mem k hj)
  recorded j v hj := by
    obtain ⟨hr, refs, he, hre⟩ := h.recorded j v hj
    refine ⟨hr, refs, he, ?_⟩
    intro i hi
    rcases hre i hi with hm | hm
    · exact .inl hm
    · rcases mem_cons.mp hm with rfl | hm
      · exact .inl hk
      · exact .inr hm
  started := by
    rcases h.started with hm | hm
    · exact .inl hm
    · rcases mem_cons.mp hm with rfl | hm
      · exact .inl hk
      · exact .inr hm

lemma Open.closed (h : Open expand root [] records) : ∀ k, Reach expand root k → k ∈ records := by
  intro k hk
  induction hk with
  | root => exact h.started.resolve_right (not_mem_nil)
  | step _ he hj ih =>
    obtain ⟨v, hv⟩ := Maps.some_of_mem ih
    obtain ⟨-, refs, he', hr⟩ := h.recorded _ v hv
    rw [he] at he'
    cases he'
    exact (hr _ hj).resolve_right (not_mem_nil)

lemma open_start : Open expand root [root] (∅ : ExtTreeMap K V) := by
  refine ⟨?_, ?_, .inr mem_cons_self⟩
  · intro j hj
    rw [mem_singleton.mp hj]
    exact .root
  · intro j w hj
    rw [getElem?_empty] at hj
    cases hj

variable [LawfulEqOrd K]

lemma Open.grow {refs : List K} (h : Open expand root (k :: pending) records) (he : expand k = .ok (v, refs)) :
    Open expand root (refs.reverse ++ pending) (records.insert k v) := by
  have hk : Reach expand root k := h.stacked k mem_cons_self
  have hmo : ∀ j, j ∈ records ∨ j ∈ k :: pending → j ∈ records.insert k v ∨ j ∈ refs.reverse ++ pending := by
    rintro j (hm | hm)
    · exact .inl (mem_insert.mpr (Or.inr hm))
    · rcases mem_cons.mp hm with rfl | hm
      · exact .inl mem_insert_self
      · exact .inr (mem_append_right _ hm)
  refine ⟨?_, ?_, hmo root h.started⟩
  · intro j hj
    rcases mem_append.mp hj with hj | hj
    · exact hk.step he (mem_reverse.mp hj)
    · exact h.stacked j (mem_cons_of_mem k hj)
  · intro j w hj
    rcases of_insert hj with ⟨rfl, rfl⟩ | ⟨-, hj⟩
    · refine ⟨hk, refs, he, ?_⟩
      intro i hi
      exact .inr (mem_append_left _ (mem_reverse.mpr hi))
    · obtain ⟨hr, refs', he', hre⟩ := h.recorded j w hj
      exact ⟨hr, refs', he', fun i hi => hmo i (hre i hi)⟩

lemma close_open (h : Open expand root pending records)
    (hc : close expand fuel pending records = .ok (some result)) :
    Open expand root [] result := by
  induction fuel generalizing pending records with
  | zero =>
    cases pending with
    | nil =>
      cases hc
      exact h
    | cons => cases hc
  | succ fuel ih =>
    cases pending with
    | nil =>
      cases hc
      exact h
    | cons k pending =>
      rw [close] at hc
      split_ifs at hc with hk
      · exact ih (h.skip hk) hc
      · obtain ⟨⟨v, refs⟩, he, hc⟩ := bind_ok.mp hc
        exact ih (h.grow he) hc

theorem close_expands (hc : close expand fuel [root] ∅ = .ok (some result)) (hk : Reach expand root k) :
    ∃ v refs, expand k = .ok (v, refs) ∧ result[k]? = some v := by
  have ho := close_open open_start hc
  obtain ⟨v, hv⟩ := Maps.some_of_mem (ho.closed k hk)
  obtain ⟨-, refs, he, -⟩ := ho.recorded k v hv
  exact ⟨v, refs, he, hv⟩

theorem close_ok (hc : close expand fuel [root] ∅ = .ok (some result)) :
    result[k]? = some v ↔ Reach expand root k ∧ ∃ refs, expand k = .ok (v, refs) := by
  constructor
  · intro hk
    obtain ⟨hr, refs, he, -⟩ := (close_open open_start hc).recorded k v hk
    exact ⟨hr, refs, he⟩
  · rintro ⟨hr, refs, he⟩
    obtain ⟨w, refs', he', hw⟩ := close_expands hc hr
    rw [he] at he'
    cases he'
    exact hw

variable {weight : K → ℕ} {names : List K} {P : K → Prop}

def outstanding (weight : K → ℕ) (names : List K) (records : ExtTreeMap K V) : ℕ :=
  ((names.filter fun k => decide (k ∉ records)).map weight).sum

lemma outstanding_insert (hnd : names.Nodup) (hm : k ∈ names) (hk : k ∉ records) :
    outstanding weight names (records.insert k v) + weight k = outstanding weight names records := by
  induction names with
  | nil => cases hm
  | cons j names ih =>
    obtain ⟨hj, hnd⟩ := nodup_cons.mp hnd
    rcases mem_cons.mp hm with rfl | hin
    · have hs : names.filter (fun i => decide (i ∉ records.insert k v)) =
          names.filter fun i => decide (i ∉ records) := by
        apply filter_congr
        intro i hi
        have hne : ¬ k = i := by
          rintro rfl
          exact hj hi
        simp [mem_insert, hne]
      rw [outstanding, outstanding, filter_cons_of_neg (by simp), hs, filter_cons_of_pos (by simp [hk]),
        map_cons, sum_cons]
      omega
    · have hne : ¬ k = j := by
        rintro rfl
        exact hj hin
      have ih := ih hnd hin
      rw [outstanding, outstanding] at ih
      by_cases hd : j ∈ records
      · rw [outstanding, outstanding, filter_cons_of_neg (by simp [mem_insert, hd]),
          filter_cons_of_neg (by simp [hd])]
        exact ih
      · rw [outstanding, outstanding,
          filter_cons_of_pos (by simp [mem_insert, hne, hd]),
          filter_cons_of_pos (by simp [hd]), map_cons, map_cons, sum_cons, sum_cons]
        omega

lemma close_bounded (hnd : names.Nodup) (hp : ∀ k ∈ pending, P k)
    (he : ∀ k, P k → ∀ v refs, expand k = .ok (v, refs) → k ∈ names ∧ refs.length ≤ weight k ∧ ∀ j ∈ refs, P j)
    (hf : pending.length + outstanding weight names records ≤ fuel) :
    close expand fuel pending records ≠ .ok none := by
  induction fuel generalizing pending records with
  | zero =>
    cases pending with
    | nil => exact nofun
    | cons => simp at hf
  | succ fuel ih =>
    cases pending with
    | nil => exact nofun
    | cons k pending =>
      rw [length_cons] at hf
      rw [forall_mem_cons] at hp
      rw [close]
      split_ifs with hk
      · exact ih hp.2 (by omega)
      · intro hc
        obtain ⟨⟨v, refs⟩, hok, hc⟩ := bind_ok.mp hc
        obtain ⟨hm, hl, hr⟩ := he k hp.1 v refs hok
        have ho : outstanding weight names (records.insert k v) + weight k = outstanding weight names records :=
          outstanding_insert hnd hm hk
        refine ih ?_ (by rw [length_append, length_reverse]; omega) hc
        intro j hj
        rcases mem_append.mp hj with hj | hj
        · exact hr j (mem_reverse.mp hj)
        · exact hp.2 j hj

omit [LawfulEqOrd K] in
lemma close_error {e : ε} (hp : ∀ k ∈ pending, P k)
    (he : ∀ k, P k → ∀ v refs, expand k = .ok (v, refs) → ∀ j ∈ refs, P j)
    (h : close expand fuel pending records = .error e) : ∃ k, P k ∧ expand k = .error e := by
  induction fuel generalizing pending records with
  | zero => cases pending <;> cases h
  | succ fuel ih =>
    cases pending with
    | nil => cases h
    | cons k pending =>
      rw [forall_mem_cons] at hp
      rw [close] at h
      split_ifs at h
      · exact ih hp.2 h
      · cases hok : expand k with
        | error e' =>
          rw [hok] at h
          cases h
          exact ⟨k, hp.1, hok⟩
        | ok found =>
          rw [hok] at h
          refine ih (fun j hj => ?_) h
          rcases mem_append.mp hj with hj | hj
          · exact he k hp.1 _ _ hok j (mem_reverse.mp hj)
          · exact hp.2 j hj

lemma close_each (h : close expand fuel pending records = .ok (some result)) :
    ∀ k ∈ pending, k ∈ records ∨ ∃ x, expand k = .ok x := by
  induction fuel generalizing pending records with
  | zero =>
    cases pending with
    | nil => exact nofun
    | cons => cases h
  | succ fuel ih =>
    cases pending with
    | nil => exact nofun
    | cons k pending =>
      rw [close] at h
      split_ifs at h with hk
      · exact forall_mem_cons.mpr ⟨Or.inl hk, ih h⟩
      · obtain ⟨⟨v, refs⟩, hok, h⟩ := bind_ok.mp h
        refine forall_mem_cons.mpr ⟨Or.inr ⟨_, hok⟩, fun j hj => ?_⟩
        rcases ih h j (mem_append_right _ hj) with hm | hj
        · rcases mem_insert.mp hm with heq | hm
          · rw [← LawfulEqOrd.compare_eq_iff_eq.mp heq]
            exact .inr ⟨_, hok⟩
          · exact .inl hm
        · exact .inr hj

def trace (expand : K → Except ε (V × List K)) :
    ℕ → List K → ExtTreeMap K V → List K × Except ε (Option (ExtTreeMap K V))
  | _, [], records => ([], .ok (some records))
  | 0, _ :: _, _ => ([], .ok none)
  | fuel + 1, k :: pending, records =>
    if k ∈ records then trace expand fuel pending records
    else match expand k with
      | .error e => ([k], .error e)
      | .ok (v, refs) =>
        let (later, result) := trace expand fuel (refs.reverse ++ pending) (records.insert k v)
        (k :: later, result)

omit [LawfulEqOrd K] in
lemma trace_close : (trace expand fuel pending records).2 = close expand fuel pending records := by
  fun_induction trace expand fuel pending records with
  | case1 => rw [close]
  | case2 => rw [close]
  | case3 fuel k pending records hk ih => rw [close, if_pos hk, ih]
  | case4 fuel k pending records hk e he =>
    rw [close, if_neg hk, he]
    rfl
  | case5 fuel k pending records hk v refs he later result hr ih =>
    rw [hr] at ih
    rw [close, if_neg hk, he, ih]
    rfl

lemma trace_nodup : (∀ j ∈ (trace expand fuel pending records).1, j ∉ records) ∧
    (trace expand fuel pending records).1.Nodup := by
  fun_induction trace expand fuel pending records with
  | case1 | case2 => exact ⟨nofun, nodup_nil⟩
  | case3 fuel k pending records hk ih => exact ih
  | case4 fuel k pending records hk e he =>
    refine ⟨?_, nodup_singleton k⟩
    intro j hj
    rwa [mem_singleton.mp hj]
  | case5 fuel k pending records hk v refs he later result hr ih =>
    rw [hr] at ih
    have hl : ∀ j ∈ later, j ≠ k ∧ j ∉ records := by
      intro j hj
      have hn := ih.1 j hj
      rw [mem_insert, not_or] at hn
      refine ⟨?_, hn.2⟩
      rintro rfl
      exact hn.1 ReflCmp.compare_self
    refine ⟨?_, nodup_cons.mpr ⟨fun hin => (hl k hin).1 rfl, ih.2⟩⟩
    intro j hj
    rcases mem_cons.mp hj with rfl | hj
    · exact hk
    · exact (hl j hj).2

lemma trace_reach (h : Open expand root pending records) :
    ∀ j ∈ (trace expand fuel pending records).1, Reach expand root j := by
  fun_induction trace expand fuel pending records with
  | case1 => exact nofun
  | case2 => exact nofun
  | case3 fuel k pending records hk ih => exact ih (h.skip hk)
  | case4 fuel k pending records hk e he =>
    intro j hj
    rw [mem_singleton.mp hj]
    exact h.stacked k mem_cons_self
  | case5 fuel k pending records hk v refs he later result hr ih =>
    rw [hr] at ih
    intro j hj
    rcases mem_cons.mp hj with rfl | hj
    · exact h.stacked j mem_cons_self
    · exact ih (h.grow he) j hj

lemma trace_records (h : (trace expand fuel pending records).2 = .ok (some result)) (j : K) :
    j ∈ result ↔ j ∈ records ∨ j ∈ (trace expand fuel pending records).1 := by
  fun_induction trace expand fuel pending records with
  | case1 =>
    cases h
    simp
  | case2 => cases h
  | case3 fuel k pending records hk ih => exact ih h
  | case4 fuel k pending records hk e he => cases h
  | case5 fuel k pending records hk v refs he later last hr ih =>
    rw [hr] at ih
    rw [ih h, mem_insert, LawfulEqOrd.compare_eq_iff_eq, mem_cons]
    simp only [eq_comm, or_assoc, or_left_comm]

omit [LawfulEqOrd K] in
lemma trace_settled (extra : ℕ) (h : (trace expand fuel pending records).2 ≠ .ok none) :
    trace expand (fuel + extra) pending records = trace expand fuel pending records := by
  induction fuel generalizing pending records with
  | zero =>
    cases pending with
    | nil => simp only [trace]
    | cons => exact absurd rfl h
  | succ fuel ih =>
    cases pending with
    | nil => simp only [trace]
    | cons k pending =>
      rw [trace] at h
      rw [Nat.succ_add, trace, trace]
      split_ifs at h ⊢ with hk
      · exact ih h
      · cases he : expand k with
        | error e => rfl
        | ok found =>
          rw [he] at h
          dsimp only
          rw [ih h]

variable (h : ∀ k, Reach expand root k → expand' k = expand k)

include h

lemma trace_agrees (ho : Open expand root pending records) :
    trace expand' fuel pending records = trace expand fuel pending records := by
  induction fuel generalizing pending records with
  | zero => cases pending <;> simp only [trace]
  | succ fuel ih =>
    cases pending with
    | nil => simp only [trace]
    | cons k pending =>
      rw [trace, trace]
      split_ifs with hk
      · exact ih (ho.skip hk)
      · rw [h k (ho.stacked k mem_cons_self)]
        cases he : expand k with
        | error e => rfl
        | ok found =>
          dsimp only
          rw [ih (ho.grow he)]

theorem trace_congr {fuel' : ℕ} (hf : close expand fuel [root] ∅ ≠ .ok none)
    (hf' : close expand' fuel' [root] ∅ ≠ .ok none) :
    trace expand' fuel' [root] ∅ = trace expand fuel [root] ∅ := by
  rw [← trace_close] at hf hf'
  calc trace expand' fuel' [root] ∅ = trace expand' (fuel' + fuel) [root] ∅ := (trace_settled fuel hf').symm
    _ = trace expand (fuel' + fuel) [root] ∅ := trace_agrees h open_start
    _ = trace expand (fuel + fuel') [root] ∅ := by rw [Nat.add_comm]
    _ = trace expand fuel [root] ∅ := trace_settled fuel' hf

theorem close_congr {fuel' : ℕ} (hf : close expand fuel [root] ∅ ≠ .ok none)
    (hf' : close expand' fuel' [root] ∅ ≠ .ok none) :
    close expand' fuel' [root] ∅ = close expand fuel [root] ∅ := by
  rw [← trace_close, ← trace_close, trace_congr h hf hf']

end Reiny.Lib.Worklist
