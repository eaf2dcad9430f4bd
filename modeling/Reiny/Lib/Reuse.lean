import Mathlib.Tactic

/-! Numbers handed out by a wrapping counter that skips those still in use. -/

namespace Reiny.Lib.Reuse

open List

variable {K : Type} [DecidableEq K]

structure State (K : Type) where
  live : Finset (K × ℕ)
  next : ℕ

inductive Step (M : ℕ) : State K → Option (K × ℕ) → State K → Prop
  | release {live live' : Finset (K × ℕ)} {n : ℕ} (h : live' ⊆ live) : Step M ⟨live, n⟩ none ⟨live', n⟩
  | issue {live : Finset (K × ℕ)} {n p : ℕ} {k : K} (hle : n ≤ p) (hskip : ∀ q, n ≤ q → q < p → (k, q % M) ∈ live) :
      Step M ⟨live, n⟩ (some (k, p % M)) ⟨insert (k, p % M) live, p + 1⟩

inductive Run (M N : ℕ) : State K → List (K × ℕ) → State K → Prop
  | refl (s : State K) : Run M N s [] s
  | tail {s mid last : State K} {issued : List (K × ℕ)} {more : Option (K × ℕ)} (h : Run M N s issued mid)
      (hstep : Step M mid more last) (hbound : last.live.card ≤ N) : Run M N s (issued ++ more.toList) last

variable {M N p : ℕ} {issued : List (K × ℕ)} {last : State K} {x : K × ℕ} {k : K} {s : State K} {n : ℕ}

lemma Run.head {mid : State K} {first : Option (K × ℕ)} (hs : Step M s first mid)
    (hb : mid.live.card ≤ N) (h : Run M N mid issued last) : Run M N s (first.toList ++ issued) last := by
  induction h with
  | refl =>
    rw [append_nil]
    exact .tail (.refl s) hs hb
  | tail _ hn hl ih =>
    rw [← append_assoc]
    exact .tail ih hn hl

lemma Run.split {before after : List (K × ℕ)} (h : Run M N s issued last)
    (hsp : issued = before ++ x :: after) :
    ∃ s₁ s₂, Run M N s before s₁ ∧ Step M s₁ (some x) s₂ ∧ s₂.live.card ≤ N ∧ Run M N s₂ after last := by
  induction h generalizing after with
  | refl => simp at hsp
  | @tail mid last issued more hr hs hbo ih =>
    cases more with
    | none =>
      rw [Option.toList_none, append_nil] at hsp
      obtain ⟨s₁, s₂, hb, hissue, hc, ha⟩ := ih hsp
      have hl := Run.tail ha hs hbo
      rw [Option.toList_none, append_nil] at hl
      exact ⟨s₁, s₂, hb, hissue, hc, hl⟩
    | some y =>
      rcases eq_nil_or_concat after with rfl | ⟨init, z, rfl⟩
      · obtain ⟨rfl, hy⟩ := append_inj' hsp rfl
        cases hy
        exact ⟨mid, last, hr, hs, hbo, .refl last⟩
      · rw [concat_eq_append, ← cons_append, ← append_assoc] at hsp
        obtain ⟨his, hy⟩ := append_inj' hsp rfl
        cases hy
        obtain ⟨s₁, s₂, hb, hissue, hc, ha⟩ := ih his
        rw [concat_eq_append]
        exact ⟨s₁, s₂, hb, hissue, hc, .tail ha hs hbo⟩

lemma mod_ne_of_lt {q : ℕ} (hlt : p < q) (hs : q < p + M) : p % M ≠ q % M := by
  intro heq
  obtain ⟨d, hd⟩ := (Nat.modEq_iff_dvd' hlt.le).mp heq
  have hd0 : d ≠ 0 := by
    rintro rfl
    omega
  have hM : M ≤ M * d := Nat.le_mul_of_pos_right M (Nat.pos_of_ne_zero hd0)
  omega

structure Lap (M : ℕ) (start s : State K) (count : ℕ) (used : Finset (K × ℕ)) : Prop where
  after : start.next ≤ s.next
  origin : ∀ x ∈ s.live, x ∈ start.live ∨ ∃ p, start.next ≤ p ∧ p < s.next ∧ x.2 = p % M
  initial : used ⊆ start.live
  passed : ∀ x ∈ used, ∃ p, start.next ≤ p ∧ p < min s.next (start.next + M - 1) ∧ x.2 = p % M
  accounts : min s.next (start.next + M - 1) ≤ start.next + used.card + count

variable {count : ℕ} {start s' : State K} {used : Finset (K × ℕ)}

omit [DecidableEq K] in
lemma Lap.begin (start : State K) : Lap M start start 0 ∅ where
  after := le_rfl
  origin := fun _ hx => Or.inl hx
  initial := Finset.empty_subset _
  passed := fun _ hx => absurd hx (Finset.notMem_empty _)
  accounts := by simp

def skipped (M : ℕ) (k : K) (n p : ℕ) : Finset (K × ℕ) := (Finset.Ico n p).image fun q => (k, q % M)

lemma mem_skipped : x ∈ skipped M k n p ↔ ∃ q, n ≤ q ∧ q < p ∧ x = (k, q % M) := by
  rw [skipped, Finset.mem_image]
  constructor
  · rintro ⟨q, hq, rfl⟩
    rw [Finset.mem_Ico] at hq
    exact ⟨q, hq.1, hq.2, rfl⟩
  · rintro ⟨q, hle, hlt, rfl⟩
    exact ⟨q, Finset.mem_Ico.mpr ⟨hle, hlt⟩, rfl⟩

lemma card_skipped (h : p ≤ n + M) : (skipped M k n p).card = p - n := by
  rw [skipped, Finset.card_image_of_injOn, Nat.card_Ico]
  intro q hq r hr heq
  rw [Finset.coe_Ico, Set.mem_Ico] at hq hr
  have hm : q % M = r % M := congrArg Prod.snd heq
  rcases lt_trichotomy q r with hlt | heq | hlt
  · exact absurd hm (mod_ne_of_lt hlt (by omega))
  · exact heq
  · exact absurd hm.symm (mod_ne_of_lt hlt (by omega))

lemma Lap.skip (h : Lap M start s count used) (hle : s.next ≤ p)
    (hs : ∀ q, s.next ≤ q → q < p → (k, q % M) ∈ s.live) :
    ∃ used', used ⊆ used' ∧ used' ⊆ start.live ∧
      (∀ x ∈ used', ∃ q, start.next ≤ q ∧ q < min p (start.next + M - 1) ∧ x.2 = q % M) ∧
      min p (start.next + M - 1) ≤ start.next + used'.card + count := by
  have ha := h.after
  let fresh := skipped M k s.next (min p (start.next + M - 1))
  have hfr : ∀ x ∈ fresh, x ∈ start.live := by
    intro x hx
    obtain ⟨q, hq, hlt, rfl⟩ := mem_skipped.mp hx
    rcases h.origin _ (hs q hq (by omega)) with hin | ⟨r, hr, hrlt, heq⟩
    · exact hin
    · exact absurd heq.symm (mod_ne_of_lt (by omega) (by omega))
  have hd : Disjoint used fresh := by
    rw [Finset.disjoint_left]
    intro x hu hx
    obtain ⟨q, hq, hlt, rfl⟩ := mem_skipped.mp hx
    obtain ⟨r, hr, hrlt, heq⟩ := h.passed _ hu
    exact absurd heq.symm (mod_ne_of_lt (by omega) (by omega))
  refine ⟨used ∪ fresh, Finset.subset_union_left, Finset.union_subset h.initial hfr, ?_, ?_⟩
  · intro x hx
    rcases Finset.mem_union.mp hx with hu | hx
    · obtain ⟨q, hq, hlt, heq⟩ := h.passed x hu
      exact ⟨q, hq, by omega, heq⟩
    · obtain ⟨q, hq, hlt, rfl⟩ := mem_skipped.mp hx
      exact ⟨q, by omega, hlt, rfl⟩
  · have hac := h.accounts
    have hc : fresh.card = min p (start.next + M - 1) - s.next := card_skipped (by omega)
    rw [Finset.card_union_of_disjoint hd, hc]
    omega

lemma Lap.step {more : Option (K × ℕ)} (h : Lap M start s count used) (hs : Step M s more s') :
    ∃ used', Lap M start s' (count + more.toList.length) used' := by
  cases hs with
  | @release live live' n hsub =>
    exact ⟨used, h.after, fun x hx => h.origin x (hsub hx), h.initial, h.passed, h.accounts⟩
  | @issue live n p k hle hsk =>
    obtain ⟨used', -, hinitial, hp, hac⟩ := h.skip hle hsk
    have ha : start.next ≤ n := h.after
    refine ⟨used', ?_, ?_, hinitial, ?_, ?_⟩
    · change start.next ≤ p + 1
      omega
    · intro x hx
      rcases Finset.mem_insert.mp hx with rfl | hx
      · exact .inr ⟨p, by omega, Nat.lt_succ_self p, rfl⟩
      · rcases h.origin x hx with hin | ⟨q, hq, hlt, heq⟩
        · exact .inl hin
        · exact .inr ⟨q, hq, hlt.trans_le (hle.trans (Nat.le_succ p)), heq⟩
    · intro x hx
      obtain ⟨q, hq, hlt, heq⟩ := hp x hx
      exact ⟨q, hq, by change q < min (p + 1) _; omega, heq⟩
    · change min (p + 1) _ ≤ _ + _ + (count + 1)
      omega

lemma Lap.run (h : Run M N start issued s) : ∃ used, Lap M start s issued.length used := by
  induction h with
  | refl => exact ⟨∅, Lap.begin start⟩
  | tail _ hs _ ih =>
    obtain ⟨used, hl⟩ := ih
    rw [length_append]
    exact hl.step hs

lemma reuse_steps {s₀ s₁ s₂ s₃ : State K} (hf : Step M s₀ (some x) s₁) (hl : s₁.live.card ≤ N)
    (hr : Run M N s₁ issued s₂) (hag : Step M s₂ (some x) s₃) : M ≤ issued.length + N := by
  obtain ⟨used, hlap⟩ := Lap.run hr
  cases hf with
  | @issue live₀ n₀ p₀ k hle₀ hs₀ =>
    generalize hx : (k, p₀ % M) = x at hag
    cases hag with
    | @issue live n p k' hle hs =>
      obtain ⟨rfl, hm⟩ := Prod.mk.inj hx
      obtain ⟨used', -, hinitial, hp, hac⟩ := hlap.skip hle hs
      have ha : p₀ + 1 ≤ n := hlap.after
      -- the same number comes up again only after a whole lap
      have hrd : p₀ + M ≤ p := by
        by_contra hearly
        exact mod_ne_of_lt (by omega) (by omega) hm
      have hn : (k, p₀ % M) ∉ used' := by
        intro hin
        obtain ⟨q, hq, hlt, heq⟩ := hp _ hin
        change p₀ + 1 ≤ q at hq
        change q < min p (p₀ + 1 + M - 1) at hlt
        exact mod_ne_of_lt (by omega) (by omega) heq
      have hc : used'.card + 1 ≤ N := by
        rw [← Finset.card_insert_of_notMem hn]
        refine le_trans (Finset.card_le_card ?_) hl
        exact Finset.insert_subset (Finset.mem_insert_self _ _) hinitial
      change min p (p₀ + 1 + M - 1) ≤ p₀ + 1 + used'.card + issued.length at hac
      omega

theorem reuse_distance {i j : ℕ} (hrun : Run M N s issued last) (hi : issued[i]? = some x)
    (hj : issued[j]? = some x) (hlt : i < j) : M + i < j + N := by
  have hsp : ∀ {l : List (K × ℕ)} {n : ℕ}, l[n]? = some x → l = l.take n ++ x :: l.drop (n + 1) := by
    intro l n hn
    obtain ⟨hl, rfl⟩ := List.getElem?_eq_some_iff.mp hn
    rw [← drop_eq_getElem_cons hl, take_append_drop]
  obtain ⟨s₁, s₂, -, hf, hc, ha⟩ := hrun.split (hsp hi)
  have hr : (issued.drop (i + 1))[j - (i + 1)]? = some x := by
    rw [getElem?_drop, ← hj]
    congr 1
    omega
  obtain ⟨s₃, s₄, hb, hag, -, -⟩ := ha.split (hsp hr)
  have hd := reuse_steps hf hc hb hag
  obtain ⟨hl, -⟩ := List.getElem?_eq_some_iff.mp hr
  rw [length_take] at hd
  omega

end Reiny.Lib.Reuse
