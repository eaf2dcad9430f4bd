import Reiny.Lib.Utf8

/-! The places between the characters of a text. -/

namespace Reiny.Lib.Utf8

open Words

/-- `is_char_boundary`: the start, the end, and every place before a byte that does not continue a character. -/
def Str.isCharBoundary (s : Str) (k : ℕ) : Bool :=
  k = 0 || k = s.len || (s.bytes[k]?).any fun b => !continuation b

def Str.LastBoundary (s : Str) (n k : ℕ) : Prop :=
  (s.isCharBoundary k = true ∧ k ≤ n) ∧ ∀ j, s.isCharBoundary j = true → j ≤ n → j ≤ k

def free (bs : Bytes) (k : ℕ) : Bool := (bs[k]?).all fun b => !continuation b

variable {a : UInt8} {bs : Bytes} {s : Str} {k : ℕ}

lemma continuation_of_second {b : UInt8} (h : secondOfThree a b = true ∨ secondOfFour a b = true) :
    continuation b = true := by
  simp only [secondOfThree, secondOfFour, continuation] at h ⊢
  rcases h with h | h
  · split_ifs at h <;> simp [UInt8.le_iff_toNat_le] at h ⊢ <;> omega
  · split_ifs at h <;> simp [UInt8.le_iff_toNat_le] at h ⊢ <;> omega

lemma free_zero (h : wellFormed bs = true) : free bs 0 = true := by
  cases bs with
  | nil => rfl
  | cons a t =>
    change (!continuation a) = true
    unfold wellFormed at h
    split_ifs at h with ho htwo ht hf <;>
      simp [continuation, UInt8.le_iff_toNat_le, UInt8.lt_iff_toNat_lt] at * <;> omega

lemma wellFormed_ascii (h : a < 0x80) (t : Bytes) : wellFormed (a :: t) = wellFormed t := by
  conv_lhs => unfold wellFormed
  exact if_pos h

lemma wellFormed_take (h : wellFormed bs = true) (k : ℕ) : wellFormed (bs.take k) = free bs k := by
  -- a place behind the first character is a place of the rest, one inside it is before a continuation byte
  have hst := free_zero h
  fun_induction wellFormed bs generalizing k with
  | case1 => simp [free, wellFormed]
  | case2 a t ho ih =>
    rcases k with _ | k
    · exact hst.symm
    · rw [List.take_succ_cons, wellFormed_ascii ho, ih h k (free_zero h)]
      rfl
  | case3 a ho htwo b t ih =>
    rw [Bool.and_eq_true] at h
    rcases k with _ | _ | k
    · exact hst.symm
    · simp [wellFormed, ho, htwo, free, h.1]
    · simpa [wellFormed, ho, htwo, free, h.1] using ih h.2 k (free_zero h.2)
  | case5 a ho htwo hth b c t ih =>
    simp only [Bool.and_eq_true] at h
    obtain ⟨⟨hb, hc⟩, ht⟩ := h
    rcases k with _ | _ | _ | k
    · exact hst.symm
    · simp [wellFormed, ho, htwo, hth, free, continuation_of_second (Or.inl hb)]
    · simp [wellFormed, ho, htwo, hth, free, hc]
    · simpa [wellFormed, ho, htwo, hth, free, hb, hc] using ih ht k (free_zero ht)
  | case7 a ho htwo hth hf b c d t ih =>
    simp only [Bool.and_eq_true] at h
    obtain ⟨⟨⟨hb, hc⟩, hd⟩, ht⟩ := h
    rcases k with _ | _ | _ | _ | k
    · exact hst.symm
    · simp [wellFormed, ho, htwo, hth, hf, free, continuation_of_second (Or.inr hb)]
    · simp [wellFormed, ho, htwo, hth, hf, free, hc]
    · simp [wellFormed, ho, htwo, hth, hf, free, hd]
    · simpa [wellFormed, ho, htwo, hth, hf, free, hb, hc, hd] using ih ht k (free_zero ht)
  | _ => cases h

lemma Str.isCharBoundary_iff (hk : k ≤ s.len) :
    s.isCharBoundary k = true ↔ wellFormed (s.bytes.take k) = true := by
  rw [wellFormed_take s.valid k]
  rcases Nat.eq_zero_or_pos k with rfl | hp
  · exact iff_of_true rfl (free_zero s.valid)
  rcases hk.eq_or_lt with rfl | hlt
  · have he : s.bytes[s.len]? = none := List.getElem?_eq_none_iff.mpr le_rfl
    exact iff_of_true (by simp [Str.isCharBoundary]) (by rw [free, he]; rfl)
  · have hb := List.getElem?_eq_getElem (l := s.bytes) hlt
    simp [Str.isCharBoundary, free, hb, hp.ne', hlt.ne]

lemma Str.isCharBoundary_le (h : s.isCharBoundary k = true) : k ≤ s.len := by
  by_contra hlt
  have hn : s.bytes[k]? = none := List.getElem?_eq_none_iff.mpr (not_le.mp hlt).le
  have hp : k ≠ 0 := by omega
  have hne : k ≠ s.len := by omega
  simp [Str.isCharBoundary, hn, hp, hne] at h

end Reiny.Lib.Utf8
