import Mathlib.Tactic

/-! Pairwise conditions as they are checked by a loop. -/

namespace Reiny.Lib.Lists

open List

variable {α : Type} {l : List α}

lemma zipIdx_all_iff {f : α × ℕ → Bool} : l.zipIdx.all f = true ↔ ∀ i a, l[i]? = some a → f (a, i) = true := by
  simp only [all_eq_true, Prod.forall, mem_zipIdx_iff_getElem?]
  exact ⟨fun h i a => h a i, fun h a i => h i a⟩

lemma pairwise_iff_take {R : α → α → Prop} : l.Pairwise R ↔ ∀ i b, l[i]? = some b → ∀ a ∈ l.take i, R a b := by
  induction l with
  | nil => simp
  | cons x l ih =>
    rw [pairwise_cons, ih]
    constructor
    · rintro ⟨hx, hl⟩ i b hb a ha
      cases i with
      | zero => simp at ha
      | succ i =>
        simp only [getElem?_cons_succ] at hb
        simp only [take_succ_cons, mem_cons] at ha
        rcases ha with rfl | ha
        · exact hx b (mem_of_getElem? hb)
        · exact hl i b hb a ha
    · intro h
      refine ⟨?_, ?_⟩
      · intro b hb
        obtain ⟨i, hi⟩ := mem_iff_getElem?.mp hb
        exact h (i + 1) b (by simpa using hi) x (by simp)
      · intro i b hb a ha
        exact h (i + 1) b (by simpa using hb) a (by simp [ha])

lemma getElem?_concat {a b : α} {j : ℕ} (h : (l ++ [a])[j]? = some b) :
    l[j]? = some b ∨ j = l.length ∧ b = a := by
  rcases Nat.lt_trichotomy j l.length with hj | rfl | hj
  · exact .inl (by rwa [getElem?_append_left hj] at h)
  · rw [getElem?_concat_length] at h
    exact .inr ⟨rfl, (Option.some.inj h).symm⟩
  · rw [getElem?_eq_none (by simpa using hj)] at h
    cases h

variable {β γ : Type} {f : α → List β} {p : β → Bool} {q : α → Bool}

lemma filter_unique {a : α} {c : Prop} [Decidable c] (hnd : l.Nodup)
    (hp : ∀ b ∈ l, q b = true ↔ b = a ∧ c) (ha : c → a ∈ l) : l.filter q = if c then [a] else [] := by
  split_ifs with hc
  · apply perm_singleton.mp
    rw [perm_ext_iff_of_nodup (hnd.filter q) (nodup_singleton a)]
    intro b
    rw [mem_filter, mem_singleton]
    constructor
    · rintro ⟨hb, hq⟩
      exact ((hp b hb).mp hq).1
    · rintro rfl
      exact ⟨ha hc, (hp b (ha hc)).mpr ⟨rfl, hc⟩⟩
  · rw [filter_eq_nil_iff]
    intro b hb hq
    exact hc ((hp b hb).mp hq).2

lemma filter_flatMap_blocks (h : ∀ a, ∀ b ∈ f a, p b = q a) : (l.flatMap f).filter p = (l.filter q).flatMap f := by
  induction l with
  | nil => rfl
  | cons a l ih =>
    rw [flatMap_cons, filter_append, ih]
    cases hq : q a with
    | true =>
      have ha : (f a).filter p = f a := filter_eq_self.mpr fun b hb => by rw [h a b hb, hq]
      rw [ha, filter_cons_of_pos hq, flatMap_cons]
    | false =>
      have hn : (f a).filter p = [] := filter_eq_nil_iff.mpr fun b hb => by rw [h a b hb, hq]; exact nofun
      rw [hn, filter_cons_of_neg (by rw [hq]; exact nofun), nil_append]

lemma filter_flatMap_singles {g : β → γ} {g' : α → γ}
    (h : ∀ a ∈ l, ((f a).filter p).map g = if q a then [g' a] else []) :
    ((l.flatMap f).filter p).map g = (l.filter q).map g' := by
  induction l with
  | nil => rfl
  | cons a l ih =>
    rw [flatMap_cons, filter_append, map_append, h a mem_cons_self,
      ih fun b hb => h b (mem_cons_of_mem a hb)]
    cases hq : q a with
    | true => rw [filter_cons_of_pos hq]; rfl
    | false => rw [filter_cons_of_neg (by rw [hq]; exact nofun)]; rfl

end Reiny.Lib.Lists
