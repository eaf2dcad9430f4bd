import Reiny.Lib.Words

/-! Writers whose output can be told apart from whatever follows it. -/

namespace Reiny.Lib.Framing

open Words List

variable {α β : Type}

def Framed (write : α → Bytes) : Prop :=
  ∀ a b s t, (write a).length < 2 ^ 64 → (write b).length < 2 ^ 64 → write a ++ s = write b ++ t → a = b ∧ s = t

variable {write : α → Bytes} {n : ℕ} {f : α → β} {as bs : List α}

lemma framed_fixed (hl : ∀ a, (write a).length = n) (hinj : Function.Injective write) : Framed write := by
  intro a b s t _ _ h
  obtain ⟨hw, hr⟩ := List.append_inj h ((hl a).trans (hl b).symm)
  exact ⟨hinj hw, hr⟩

lemma framed_append {f : α → Bytes} {g : β → Bytes} (hf : Framed f) (hg : Framed g) :
    Framed fun pair : α × β => f pair.1 ++ g pair.2 := by
  rintro ⟨a, a'⟩ ⟨b, b'⟩ s t ha hb h
  dsimp only at ha hb h
  rw [length_append] at ha hb
  rw [append_assoc, append_assoc] at h
  obtain ⟨rfl, hr⟩ := hf a b _ _ (by omega) (by omega) h
  obtain ⟨rfl, he⟩ := hg a' b' s t (by omega) (by omega) hr
  exact ⟨rfl, he⟩

lemma framed_comp {write : β → Bytes} (h : Framed write) (hf : Function.Injective f) :
    Framed fun a => write (f a) := by
  intro a b s t ha hb heq
  obtain ⟨hfab, hr⟩ := h (f a) (f b) s t ha hb heq
  exact ⟨hf hfab, hr⟩

lemma framed_fields {tuple : β → Bytes} (h : Framed tuple) (hf : Function.Injective f)
    (heq : ∀ a, write a = tuple (f a)) : Framed write := by
  rw [funext heq]
  exact framed_comp h hf

lemma framed_comp_bytes {bytes : Bytes → Bytes} (hbs : Framed bytes)
    (hl : ∀ b, b.length ≤ (bytes b).length) (h : Framed write) : Framed fun a => bytes (write a) := by
  intro a b s t ha hb heq
  dsimp only at ha hb heq
  obtain ⟨hw, hr⟩ := hbs _ _ s t ha hb heq
  have hla := hl (write a)
  have hlb := hl (write b)
  refine ⟨(h a b [] [] (by omega) (by omega) ?_).1, hr⟩
  rw [hw]

def count (n : ℕ) : Bytes := toLe 8 (n % 2 ^ 64)

@[simp] lemma count_length (n : ℕ) : (count n).length = 8 := toLe_length 8 _

lemma count_inj {m : ℕ} (hm : m < 2 ^ 64) (hn : n < 2 ^ 64) (h : count m = count n) : m = n := by
  rw [count, count, Nat.mod_eq_of_lt hm, Nat.mod_eq_of_lt hn] at h
  have hb : (2 : ℕ) ^ 64 = 256 ^ 8 := by norm_num
  rw [hb] at hm hn
  have := congrArg ofLe h
  rwa [ofLe_toLe hm, ofLe_toLe hn] at this

def listing (write : α → Bytes) (items : List α) : Bytes := count items.length ++ (items.map write).flatten

lemma items_le (hp : ∀ a, 0 < (write a).length) (items : List α) :
    items.length ≤ (items.map write).flatten.length := by
  induction items with
  | nil => exact Nat.zero_le 0
  | cons a items ih =>
    have := hp a
    rw [map_cons, flatten_cons, length_append, length_cons]
    omega

lemma items_framed (h : Framed write) {s t : Bytes} (hl : as.length = bs.length)
    (ha : (as.map write).flatten.length < 2 ^ 64) (hb : (bs.map write).flatten.length < 2 ^ 64)
    (heq : (as.map write).flatten ++ s = (bs.map write).flatten ++ t) : as = bs ∧ s = t := by
  induction as generalizing bs with
  | nil =>
    cases bs with
    | nil => exact ⟨rfl, heq⟩
    | cons => cases hl
  | cons a as ih =>
    cases bs with
    | nil => cases hl
    | cons b bs =>
      rw [map_cons, flatten_cons, length_append] at ha hb
      rw [map_cons, flatten_cons, map_cons, flatten_cons, append_assoc,
        append_assoc] at heq
      obtain ⟨rfl, hr⟩ := h a b _ _ (by omega) (by omega) heq
      obtain ⟨rfl, he⟩ := ih (Nat.succ.inj hl) (by omega) (by omega) hr
      exact ⟨rfl, he⟩

lemma items_inj (h : Framed write) (hp : ∀ a, 0 < (write a).length)
    (ha : (as.map write).flatten.length < 2 ^ 64) (hb : (bs.map write).flatten.length < 2 ^ 64)
    (heq : (as.map write).flatten = (bs.map write).flatten) : as = bs := by
  induction as generalizing bs with
  | nil =>
    have hle := items_le hp bs
    rw [← heq] at hle
    exact (length_eq_zero_iff.mp (Nat.le_zero.mp hle)).symm
  | cons a as ih =>
    cases bs with
    | nil =>
      have hle := items_le hp (a :: as)
      rw [heq] at hle
      cases hle
    | cons b bs =>
      rw [map_cons, flatten_cons, length_append] at ha hb
      rw [map_cons, flatten_cons, map_cons, flatten_cons] at heq
      obtain ⟨rfl, hr⟩ := h a b _ _ (by omega) (by omega) heq
      rw [ih (by omega) (by omega) hr]

lemma framed_listing (h : Framed write) (hp : ∀ a, 0 < (write a).length) : Framed (listing write) := by
  intro as bs s t ha hb heq
  rw [listing, length_append, count_length] at ha hb
  rw [listing, listing, append_assoc, append_assoc] at heq
  obtain ⟨hc, heq⟩ := List.append_inj heq (by simp)
  have has := items_le hp as
  have hbs := items_le hp bs
  exact items_framed h (count_inj (by omega) (by omega) hc) (by omega) (by omega) heq

def framedBytes (bytes : Bytes) : Bytes := count bytes.length ++ bytes

lemma framed_bytes : Framed framedBytes := by
  intro a b s t ha hb heq
  rw [framedBytes, length_append, count_length] at ha hb
  rw [framedBytes, framedBytes, append_assoc, append_assoc] at heq
  obtain ⟨hc, heq⟩ := List.append_inj heq (by simp)
  exact List.append_inj heq (count_inj (by omega) (by omega) hc)

def optional (write : α → Bytes) : Option α → Bytes
  | none => [0]
  | some a => 1 :: write a

lemma framed_optional (h : Framed write) : Framed (optional write) := by
  intro a b s t ha hb heq
  cases a with
  | none =>
    cases b with
    | none => exact ⟨rfl, (List.cons.inj heq).2⟩
    | some b => exact absurd (List.cons.inj heq).1 (by decide)
  | some a =>
    cases b with
    | none => exact absurd (List.cons.inj heq).1 (by decide)
    | some b =>
      rw [optional, length_cons] at ha hb
      obtain ⟨rfl, hr⟩ := h a b s t (by omega) (by omega) (List.cons.inj heq).2
      exact ⟨rfl, hr⟩

end Reiny.Lib.Framing
