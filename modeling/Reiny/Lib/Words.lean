import Mathlib.Tactic

/-! Fixed-width little-endian words as lists of bytes. -/

namespace Reiny.Lib.Words

abbrev Bytes := List UInt8

def toLe : ℕ → ℕ → Bytes
  | 0, _ => []
  | w + 1, n => UInt8.ofNat n :: toLe w (n / 256)

def ofLe : Bytes → ℕ
  | [] => 0
  | b :: bs => b.toNat + 256 * ofLe bs

@[simp] lemma toLe_length (w n : ℕ) : (toLe w n).length = w := by
  induction w generalizing n with
  | zero => rfl
  | succ w ih => simp [toLe, ih]

lemma ofLe_toLe {w n : ℕ} (h : n < 256 ^ w) : ofLe (toLe w n) = n := by
  induction w generalizing n with
  | zero => simp only [pow_zero] at h; simp [toLe, ofLe]; omega
  | succ w ih =>
    have hd : n / 256 < 256 ^ w := by rw [pow_succ] at h; omega
    simp only [toLe, ofLe, ih hd, UInt8.toNat_ofNat']
    omega

lemma ofLe_lt (bs : Bytes) : ofLe bs < 256 ^ bs.length := by
  induction bs with
  | nil => simp [ofLe]
  | cons b bs ih =>
    have hb := b.toNat_lt
    simp only [ofLe, List.length_cons, pow_succ]
    omega

lemma toLe_ofLe (bs : Bytes) : toLe bs.length (ofLe bs) = bs := by
  induction bs with
  | nil => rfl
  | cons b bs ih =>
    have hb := b.toNat_lt
    have hd : (b.toNat + 256 * ofLe bs) / 256 = ofLe bs := by omega
    have hm : UInt8.ofNat (b.toNat + 256 * ofLe bs) = b := by
      apply UInt8.toNat_inj.mp
      rw [UInt8.toNat_ofNat']
      omega
    simp only [List.length_cons, toLe, ofLe, hd, hm, ih]

def le32 (v : UInt32) : Bytes := toLe 4 v.toNat
def le64 (v : UInt64) : Bytes := toLe 8 v.toNat
def le16 (v : UInt16) : Bytes := toLe 2 v.toNat

@[simp] lemma le16_length (v : UInt16) : (le16 v).length = 2 := toLe_length _ _
@[simp] lemma le32_length (v : UInt32) : (le32 v).length = 4 := toLe_length _ _
@[simp] lemma le64_length (v : UInt64) : (le64 v).length = 8 := toLe_length _ _

lemma of_le16 (v : UInt16) : UInt16.ofNat (ofLe (le16 v)) = v := by
  rw [le16, ofLe_toLe (by simpa using v.toNat_lt), UInt16.ofNat_toNat]

lemma of_le32 (v : UInt32) : UInt32.ofNat (ofLe (le32 v)) = v := by
  rw [le32, ofLe_toLe (by simpa using v.toNat_lt), UInt32.ofNat_toNat]

lemma of_le64 (v : UInt64) : UInt64.ofNat (ofLe (le64 v)) = v := by
  rw [le64, ofLe_toLe (by simpa using v.toNat_lt), UInt64.ofNat_toNat]

variable {bs : Bytes}

lemma le32_of (h : bs.length = 4) : le32 (UInt32.ofNat (ofLe bs)) = bs := by
  have hlt := ofLe_lt bs
  rw [h] at hlt
  rw [le32, UInt32.toNat_ofNat_of_lt' (by simpa using hlt), ← h, toLe_ofLe]

lemma le64_of (h : bs.length = 8) : le64 (UInt64.ofNat (ofLe bs)) = bs := by
  have hlt := ofLe_lt bs
  rw [h] at hlt
  rw [le64, UInt64.toNat_ofNat_of_lt' (by simpa using hlt), ← h, toLe_ofLe]

lemma uint8_forall {p : UInt8 → Prop} (h : ∀ g : Fin 256, p (UInt8.ofFin g)) (f : UInt8) : p f := h f.toFin

end Reiny.Lib.Words
