import Reiny.Lib.Words

/-! Consistent overhead byte stuffing: blocks of non-zero bytes, each led by its length. -/

namespace Reiny.Lib.Cobs

open Words List

def encodeFrom (block : Bytes) : Bytes → Bytes
  | [] => UInt8.ofNat (block.length + 1) :: block
  | b :: t =>
    if b = 0 then UInt8.ofNat (block.length + 1) :: (block ++ encodeFrom [] t)
    else if block.length < 253 then encodeFrom (block ++ [b]) t
    else 255 :: (block ++ [b] ++ if t = [] then [] else encodeFrom [] t)

def encode (raw : Bytes) : Bytes := encodeFrom [] raw

def decodeFuel : ℕ → Bytes → Option Bytes
  | _, [] => some []
  | 0, _ :: _ => none
  | fuel + 1, code :: t =>
    if code = 0 ∨ t.length < code.toNat - 1 then none
    else
      let block := t.take (code.toNat - 1)
      let rest := t.drop (code.toNat - 1)
      if 0 ∈ block then none
      else if code = 255 ∨ rest = [] then (decodeFuel fuel rest).map (block ++ ·)
      else (decodeFuel fuel rest).map (block ++ 0 :: ·)

def decode (bs : Bytes) : Option Bytes := decodeFuel bs.length bs

def maxLength (n : ℕ) : ℕ := n + n / 254 + if n % 254 > 0 then 1 else 0

lemma encodeFrom_ne_nil (block raw : Bytes) : encodeFrom block raw ≠ [] := by
  induction raw generalizing block with
  | nil => simp [encodeFrom]
  | cons b t ih =>
    unfold encodeFrom
    split_ifs
    · simp
    · exact ih _
    · simp
    · simp

variable {n : ℕ} {raw block : Bytes} {rest : Bytes} {fuel : ℕ}

lemma code_toNat (h : n ≤ 253) : (UInt8.ofNat (n + 1)).toNat = n + 1 := by
  rw [UInt8.toNat_ofNat']
  omega

lemma code_ne_zero (h : n ≤ 253) : UInt8.ofNat (n + 1) ≠ 0 := by
  intro he
  have := code_toNat h
  rw [he] at this
  simp at this

lemma code_ne_full (h : n ≤ 253) : UInt8.ofNat (n + 1) ≠ 255 := by
  intro he
  have := code_toNat h
  rw [he] at this
  change 255 = n + 1 at this
  omega

lemma decode_block (hb : block.length ≤ 253) (h0 : 0 ∉ block) (hr : rest ≠ []) (fuel : ℕ) :
    decodeFuel (fuel + 1) (UInt8.ofNat (block.length + 1) :: (block ++ rest)) =
      (decodeFuel fuel rest).map (block ++ 0 :: ·) := by
  have hc := code_toNat hb
  simp only [decodeFuel, hc, Nat.add_sub_cancel, take_left', drop_left', h0, code_ne_zero hb,
    code_ne_full hb, hr, length_append, false_or, if_false]
  rw [if_neg (by omega)]

lemma decode_last (hb : block.length ≤ 253) (h0 : 0 ∉ block) (fuel : ℕ) :
    decodeFuel (fuel + 1) (UInt8.ofNat (block.length + 1) :: block) = some block := by
  have hc := code_toNat hb
  simp only [decodeFuel, hc, Nat.add_sub_cancel, take_length, drop_length, h0, code_ne_zero hb,
    or_true, if_false, if_true, false_or, lt_self_iff_false]
  cases fuel <;> simp

lemma decode_full (hb : block.length = 254) (h0 : 0 ∉ block) (fuel : ℕ) :
    decodeFuel (fuel + 1) (255 :: (block ++ rest)) = (decodeFuel fuel rest).map (block ++ ·) := by
  have hc : (255 : UInt8).toNat - 1 = block.length := by
    rw [hb]
    rfl
  simp only [decodeFuel, hc, take_left', drop_left', h0, length_append, true_or, if_true, if_false]
  rw [if_neg (by simp)]

lemma decodeFuel_encodeFrom (hb : block.length ≤ 253) (h0 : 0 ∉ block)
    (hf : (encodeFrom block raw).length ≤ fuel) :
    decodeFuel fuel (encodeFrom block raw) = some (block ++ raw) := by
  induction raw generalizing block fuel with
  | nil =>
    simp only [encodeFrom, length_cons] at hf ⊢
    obtain ⟨n, rfl⟩ : ∃ n, fuel = n + 1 := ⟨fuel - 1, by omega⟩
    rw [decode_last hb h0, append_nil]
  | cons b t ih =>
    unfold encodeFrom at hf ⊢
    split_ifs at hf ⊢ with hz hlt ht
    · simp only [length_cons, length_append] at hf
      obtain ⟨n, rfl⟩ : ∃ n, fuel = n + 1 := ⟨fuel - 1, by omega⟩
      rw [decode_block hb h0 (encodeFrom_ne_nil _ _), ih (by simp) (by simp) (by omega), hz]
      simp
    · have h0' : 0 ∉ block ++ [b] := by simpa [h0] using Ne.symm hz
      rw [ih (by simpa using hlt) h0' hf]
      simp
    all_goals
      have hl : (block ++ [b]).length = 254 := by simp only [length_append, length_singleton]; omega
      have h0' : 0 ∉ block ++ [b] := by simpa [h0] using Ne.symm hz
      simp only [length_cons, length_append] at hf
      obtain ⟨n, rfl⟩ : ∃ n, fuel = n + 1 := ⟨fuel - 1, by omega⟩
      rw [decode_full hl h0']
    · cases n <;> simp [decodeFuel, ht]
    · rw [ih (by simp) (by simp) (by omega)]
      simp

lemma decode_encode (raw : Bytes) : decode (encode raw) = some raw :=
  decodeFuel_encodeFrom (by simp) (by simp) le_rfl

lemma encodeFrom_nonzero (hb : block.length ≤ 253) (h0 : 0 ∉ block) : 0 ∉ encodeFrom block raw := by
  induction raw generalizing block with
  | nil => simpa [encodeFrom, h0] using (code_ne_zero hb).symm
  | cons b t ih =>
    have hn : 0 ∉ encodeFrom [] t := ih (Nat.zero_le 253) not_mem_nil
    unfold encodeFrom
    split_ifs with hz hlt ht
    · simpa [h0, hn] using (code_ne_zero hb).symm
    · exact ih (by simpa using hlt) (by simpa [h0] using Ne.symm hz)
    · simpa [h0] using Ne.symm hz
    · simpa [h0, hn] using Ne.symm hz

lemma maxLength_eq (n : ℕ) : maxLength n = n + (n + 253) / 254 := by
  unfold maxLength
  split_ifs <;> omega

lemma encodeFrom_length (hb : block.length ≤ 253) (hpos : 0 < block.length + raw.length) :
    (encodeFrom block raw).length ≤ maxLength (block.length + raw.length) := by
  rw [maxLength_eq]
  induction raw generalizing block with
  | nil =>
    simp only [encodeFrom, length_cons, length_nil] at hpos ⊢
    omega
  | cons b t ih =>
    -- one byte leads an empty rest
    have hn : (encodeFrom [] t).length ≤ t.length + max 1 ((t.length + 253) / 254) := by
      cases t with
      | nil => exact le_rfl
      | cons c t =>
        have h := @ih [] (Nat.zero_le 253) (by simp)
        rw [length_nil, Nat.zero_add] at h
        omega
    unfold encodeFrom
    split_ifs with hz hlt ht
    · simp only [length_cons, length_append]
      omega
    · have hs := @ih (block ++ [b]) (by simpa using hlt) (by simp)
      simp only [length_append, length_cons, length_nil] at hs ⊢
      rwa [show block.length + (t.length + 1) = block.length + (0 + 1) + t.length by omega]
    · simp only [length_cons, length_append, length_nil]
      omega
    · have hpt := length_pos_iff.mpr ht
      simp only [length_cons, length_append, length_nil]
      omega

lemma decodeFuel_length {bs : Bytes} (h : decodeFuel fuel bs = some raw) : raw.length ≤ bs.length := by
  induction fuel generalizing bs raw with
  | zero =>
    cases bs with
    | nil =>
      cases h
      exact le_rfl
    | cons b t => cases h
  | succ fuel ih =>
    cases bs with
    | nil =>
      cases h
      exact le_rfl
    | cons code t =>
      simp only [decodeFuel] at h
      split_ifs at h with h₁ h₂ h₃
      all_goals
        obtain ⟨out, ho, rfl⟩ := Option.map_eq_some_iff.mp h
        have hr := ih ho
        simp only [length_append, length_cons, length_take, length_drop] at hr ⊢
        omega

lemma maxLength_mono : Monotone maxLength := by
  intro m n h
  rw [maxLength_eq, maxLength_eq]
  omega

end Reiny.Lib.Cobs
