import Mathlib.Algebra.Order.BigOperators.Group.Finset
import Mathlib.Tactic

namespace Reiny.Cli

def i64 (x : ℤ) : Option ℤ := if -2 ^ 63 ≤ x ∧ x < 2 ^ 63 then some x else none

def u32 (x : ℤ) : Option ℕ := if 0 ≤ x ∧ x < 2 ^ 32 then some x.toNat else none

structure Civil where
  year : ℤ
  month : ℕ
  day : ℕ
  hour : ℕ
  minute : ℕ
  second : ℕ
deriving DecidableEq

/-- There is no result where an operation overflows or a cast changes the value. -/
def civil (secs : UInt64) : Option Civil := do
  let days ← i64 (secs.toNat / 86400 : ℕ)
  let rem ← u32 (secs.toNat % 86400 : ℕ)
  let z ← i64 (days + 719468)
  let era := z / 146097
  let doe := z % 146097
  let a ← i64 (doe - doe.tdiv 1460)
  let a ← i64 (a + doe.tdiv 36524)
  let yoe := (← i64 (a - doe.tdiv 146096)).tdiv 365
  let y ← i64 (yoe + (← i64 (era * 400)))
  let b ← i64 ((← i64 (365 * yoe)) + yoe.tdiv 4)
  let doy ← i64 (doe - (← i64 (b - yoe.tdiv 100)))
  let mp := (← i64 ((← i64 (5 * doy)) + 2)).tdiv 153
  let c ← i64 (doy - (← i64 ((← i64 (153 * mp)) + 2)).tdiv 5)
  let d ← u32 (← i64 (c + 1))
  let mo ← u32 (← if mp < 10 then i64 (mp + 3) else i64 (mp - 9))
  let y ← if mo ≤ 2 then i64 (y + 1) else pure y
  return ⟨y, mo, d, rem / 3600, rem % 3600 / 60, rem % 60⟩

def Leap (y : ℤ) : Prop := y % 4 = 0 ∧ (y % 100 ≠ 0 ∨ y % 400 = 0)

instance (y : ℤ) : Decidable (Leap y) := inferInstanceAs (Decidable (_ ∧ _))

def monthDays (y : ℤ) : ℕ → ℕ
  | 2 => if Leap y then 29 else 28
  | 4 | 6 | 9 | 11 => 30
  | _ => 31

def yearDays (y : ℤ) : ℕ := ∑ k ∈ Finset.range 12, monthDays y (k + 1)

structure Civil.Valid (c : Civil) : Prop where
  year : 1970 ≤ c.year
  month : 1 ≤ c.month ∧ c.month ≤ 12
  day : 1 ≤ c.day ∧ c.day ≤ monthDays c.year c.month
  hour : c.hour < 24
  minute : c.minute < 60
  second : c.second < 60

def Civil.days (c : Civil) : ℕ :=
  ∑ k ∈ Finset.range (c.year - 1970).toNat, yearDays (1970 + k) +
    ∑ k ∈ Finset.range (c.month - 1), monthDays c.year (k + 1) + (c.day - 1)

def Civil.seconds (c : Civil) : ℕ := ((c.days * 24 + c.hour) * 60 + c.minute) * 60 + c.second

def Civil.fields (c : Civil) : List ℤ := [c.year, c.month, c.day, c.hour, c.minute, c.second]

lemma yearDays_eq (y : ℤ) : yearDays y = if Leap y then 366 else 365 := by
  simp only [yearDays, Finset.sum_range_succ, Finset.sum_range_zero, monthDays]
  split_ifs <;> rfl

lemma years_eq (n : ℕ) : ((∑ k ∈ Finset.range n, yearDays (1970 + k) : ℕ) : ℤ) =
    365 * n + ((1969 + n) / 4 - (1969 + n) / 100 + (1969 + n) / 400) - 477 := by
  induction n with
  | zero => rfl
  | succ n ih =>
    rw [Finset.sum_range_succ, Nat.cast_add, ih, yearDays_eq]
    by_cases hl : Leap (1970 + n)
    · rw [if_pos hl]
      unfold Leap at hl
      omega
    · rw [if_neg hl]
      unfold Leap at hl
      omega

variable {a b : Civil}

lemma sum_step (f : ℕ → ℕ) {m n : ℕ} (h : m < n) : ∑ k ∈ Finset.range m, f k + f m ≤ ∑ k ∈ Finset.range n, f k := by
  rw [← Finset.sum_range_succ]
  exact Finset.sum_le_sum_of_subset (Finset.range_mono h)

lemma days_bounds (h : a.Valid) : ∑ k ∈ Finset.range (a.year - 1970).toNat, yearDays (1970 + k) ≤ a.days ∧
    a.days < ∑ k ∈ Finset.range (a.year - 1970).toNat, yearDays (1970 + k) + yearDays a.year := by
  have hm := sum_step (fun k => monthDays a.year (k + 1)) (show a.month - 1 < 12 by have := h.month; omega)
  rw [Nat.sub_add_cancel h.month.1] at hm
  have hd := h.day
  rw [Civil.days]
  constructor
  · omega
  · rw [yearDays]
    omega

lemma days_lt_year (ha : a.Valid) (hb : b.Valid) (h : a.year < b.year) : a.days < b.days := by
  have hs := sum_step (fun k => yearDays (1970 + k)) (show (a.year - 1970).toNat < (b.year - 1970).toNat by
    have := ha.year
    omega)
  rw [show (1970 + ((a.year - 1970).toNat : ℤ)) = a.year by have := ha.year; omega] at hs
  exact (days_bounds ha).2.trans_le (hs.trans (days_bounds hb).1)

lemma days_lt_month (ha : a.Valid) (hy : a.year = b.year) (h : a.month < b.month) : a.days < b.days := by
  have hs := sum_step (fun k => monthDays a.year (k + 1))
    (show a.month - 1 < b.month - 1 by have := ha.month; omega)
  rw [Nat.sub_add_cancel ha.month.1] at hs
  have hd := ha.day
  rw [Civil.days, Civil.days, ← hy]
  omega

lemma fields_lt (ha : a.Valid) (hb : b.Valid) (h : a.seconds < b.seconds) : a.fields < b.fields := by
  have hda : a.days ≤ b.days := by
    have := ha.hour; have := ha.minute; have := hb.hour; have := hb.minute; have := hb.second
    rw [Civil.seconds, Civil.seconds] at h
    omega
  simp only [Civil.fields, List.cons_lt_cons_iff]
  rcases lt_trichotomy a.year b.year with hy | hy | hy
  · exact .inl hy
  · refine .inr ⟨hy, ?_⟩
    rcases lt_trichotomy a.month b.month with hm | hm | hm
    · exact .inl (mod_cast hm)
    · -- in one month the days differ as their numbers do
      have hd : a.days + b.day = b.days + a.day := by
        have := ha.day; have := hb.day
        rw [Civil.days, Civil.days, hy, hm]
        omega
      have := ha.hour; have := ha.minute; have := ha.second
      have := hb.hour; have := hb.minute; have := hb.second
      rw [Civil.seconds, Civil.seconds] at h
      refine .inr ⟨mod_cast hm, ?_⟩
      simp only [Nat.cast_lt, Nat.cast_inj, List.not_lt_nil, and_false, or_false]
      omega
    · exact absurd hda (days_lt_month hb hy.symm hm).not_ge
  · exact absurd hda (days_lt_year hb ha hy).not_ge

variable {x doe yoe : ℤ}

lemma i64_bind {α : Type} {k : ℤ → Option α} (h : -2 ^ 63 ≤ x ∧ x < 2 ^ 63) : (i64 x >>= k) = k x := by
  rw [i64, if_pos h]
  rfl

lemma u32_bind {α : Type} {k : ℕ → Option α} (h : 0 ≤ x ∧ x < 2 ^ 32) : (u32 x >>= k) = k x.toNat := by
  rw [u32, if_pos h]
  rfl

lemma split_era (h0 : 0 ≤ doe) (h : doe < 146097) : ∃ c f j k : ℤ, doe = 36524 * c + 1461 * f + 365 * j + k ∧
    (0 ≤ c ∧ c ≤ 3) ∧ (0 ≤ f ∧ f ≤ 24) ∧ (0 ≤ j ∧ j ≤ 3) ∧ 0 ≤ k ∧
    (k ≤ 364 ∨ k = 365 ∧ j = 3 ∧ (f ≤ 23 ∨ c = 3)) := by
  obtain ⟨c, hc⟩ : ∃ c, c = min (doe / 36524) 3 := ⟨_, rfl⟩
  obtain ⟨r, hr⟩ : ∃ r, r = doe - 36524 * c := ⟨_, rfl⟩
  obtain ⟨j, hj⟩ : ∃ j, j = min (r % 1461 / 365) 3 := ⟨_, rfl⟩
  have hb : 0 ≤ c ∧ c ≤ 3 ∧ 0 ≤ r ∧ (r ≤ 36523 ∨ r = 36524 ∧ c = 3) := by omega
  exact ⟨c, r / 1461, j, r % 1461 - 365 * j, by omega, by omega, by omega, by omega, by omega, by omega⟩

lemma year_of_era (h0 : 0 ≤ doe) (h : doe < 146097) :
    ∃ yoe, (doe - doe / 1460 + doe / 36524 - doe / 146096) / 365 = yoe ∧
    0 ≤ yoe ∧ yoe < 400 ∧ 365 * yoe + yoe / 4 - yoe / 100 ≤ doe ∧
    doe < 365 * (yoe + 1) + (yoe + 1) / 4 - (yoe + 1) / 100 + (yoe + 1) / 400 := by
  obtain ⟨c, f, j, k, hd, hc, hf, hj, hk0, hk⟩ := split_era h0 h
  have he : doe / 36524 - doe / 146096 = c := by
    have hla : doe < 146096 → doe / 36524 = c := by omega
    omega
  refine ⟨100 * c + 4 * f + j, ?_, by omega, by omega, ?_, ?_⟩
  · rcases le_or_gt 1460 (24 * c + f + 365 * j + k) with hl | hl
    · have hq : doe / 1460 = 25 * c + f + 1 := by omega
      omega
    · have hq : doe / 1460 = 25 * c + f := by omega
      omega
  · have h4 : (100 * c + 4 * f + j) / 4 = 25 * c + f := by omega
    have h100 : (100 * c + 4 * f + j) / 100 = c := by omega
    omega
  · -- a day more where the next year is a leap year
    rcases lt_or_ge j 3 with hj3 | hj3
    · have h4 : (100 * c + 4 * f + j + 1) / 4 = 25 * c + f := by omega
      have h100 : (100 * c + 4 * f + j + 1) / 100 = c := by omega
      omega
    · have h4 : (100 * c + 4 * f + j + 1) / 4 = 25 * c + f + 1 := by omega
      rcases lt_or_ge f 24 with hf4 | hf4
      · have h100 : (100 * c + 4 * f + j + 1) / 100 = c := by omega
        omega
      · have h100 : (100 * c + 4 * f + j + 1) / 100 = c + 1 := by omega
        omega

lemma months_eq {m : ℕ} (y : ℤ) (h1 : 1 ≤ m) (h : m ≤ 12) : ∑ k ∈ Finset.range (m - 1), monthDays y (k + 1) =
    if m ≤ 2 then 31 * (m - 1) else 59 + (153 * (m - 3) + 2) / 5 + if Leap y then 1 else 0 := by
  by_cases hl : Leap y
  · interval_cases m <;> simp [Finset.sum_range_succ, monthDays, hl]
  · interval_cases m <;> simp [Finset.sum_range_succ, monthDays, hl]

lemma month_of_year {doy mp : ℤ} (h0 : 0 ≤ doy) (h : doy < 366) (hmp : mp = (5 * doy + 2) / 153) :
    0 ≤ mp ∧ mp < 12 ∧ 0 ≤ doy - (153 * mp + 2) / 5 ∧ doy - (153 * mp + 2) / 5 < 31 := by
  have hm : 0 ≤ mp ∧ mp < 12 := by omega
  obtain ⟨hm0, hm⟩ := hm
  interval_cases mp <;> omega

lemma monthDays_eq {m : ℕ} (y : ℤ) (h3 : 3 ≤ m) (h : m ≤ 12) :
    (monthDays y m : ℤ) = (153 * (m - 2) + 2) / 5 - (153 * (m - 3) + 2) / 5 := by
  interval_cases m <;> rfl

def marchDays (Y : ℤ) : ℤ := 365 * Y + Y / 4 - Y / 100 + Y / 400

variable {Y doy mp : ℤ} {c : Civil}

lemma marchDays_era (y era : ℤ) : marchDays (y + era * 400) = marchDays y + 146097 * era := by
  have h4 : (y + era * 400) / 4 = y / 4 + 100 * era := by omega
  have h100 : (y + era * 400) / 100 = y / 100 + 4 * era := by omega
  have h400 : (y + era * 400) / 400 = y / 400 + era := by omega
  rw [marchDays, marchDays, h4, h100, h400]
  ring

lemma days_eq (hc : 1970 ≤ c.year) (h1 : 1 ≤ c.month) (h : c.month ≤ 12) (hd : 1 ≤ c.day) : (c.days : ℤ) + 719468 =
    if c.month ≤ 2 then marchDays (c.year - 1) + 306 + 31 * (c.month - 1) + (c.day - 1)
    else marchDays c.year + (153 * (c.month - 3) + 2) / 5 + (c.day - 1) := by
  have hy := years_eq (c.year - 1970).toNat
  rw [Civil.days, months_eq c.year h1 h, Nat.cast_add, Nat.cast_add, hy, marchDays, marchDays]
  by_cases hl : Leap c.year
  · rw [if_pos hl]
    unfold Leap at hl
    split_ifs <;> omega
  · rw [if_neg hl]
    unfold Leap at hl
    split_ifs <;> omega

/-- A date by the day `doy` of the year `Y` that starts on the first of March. -/
structure Marches (c : Civil) (Y doy mp : ℤ) : Prop where
  start : 0 ≤ doy
  stop : doy < marchDays (Y + 1) - marchDays Y
  month : mp = (5 * doy + 2) / 153
  day : (c.day : ℤ) = doy - (153 * mp + 2) / 5 + 1
  civil : mp < 10 ∧ (c.month : ℤ) = mp + 3 ∧ c.year = Y ∨ 10 ≤ mp ∧ (c.month : ℤ) = mp - 9 ∧ c.year = Y + 1

lemma Marches.day_le (h : Marches c Y doy mp) : c.day ≤ monthDays c.year c.month := by
  obtain ⟨h0, hlt, hmp, hd, ⟨hm, hmo, hy⟩ | ⟨hm, hmo, hy⟩⟩ := h
  · have hlen := monthDays_eq c.year (show 3 ≤ c.month by omega) (by omega)
    rw [hmo, add_sub_cancel_right, show mp + 3 - 2 = mp + 1 by ring] at hlen
    omega
  · rw [marchDays, marchDays] at hlt
    obtain rfl | rfl : mp = 10 ∨ mp = 11 := by omega
    · rw [show c.month = 1 by omega]
      exact (show c.day ≤ 31 by omega)
    · rw [show c.month = 2 by omega, hy, monthDays]
      by_cases hl : Leap (Y + 1)
      · rw [if_pos hl]
        omega
      · rw [if_neg hl]
        unfold Leap at hl
        omega

lemma Marches.year_le (h : Marches c Y doy mp) (hz : 719468 ≤ marchDays Y + doy) : 1970 ≤ c.year := by
  obtain ⟨h0, hlt, hmp, -, hc⟩ := h
  have hY : 1969 ≤ Y := by
    rw [marchDays] at hlt
    omega
  rcases hY.eq_or_lt with rfl | hY
  · rw [show marchDays 1969 = 719162 from rfl] at hz
    omega
  · omega

lemma Marches.valid {n : ℕ} (h : Marches c Y doy mp) (hz : marchDays Y + doy = (n / 86400 : ℕ) + 719468)
    (ht : c.hour = n % 86400 / 3600 ∧ c.minute = n % 86400 % 3600 / 60 ∧ c.second = n % 86400 % 60) :
    c.Valid ∧ c.seconds = n := by
  have hle := h.day_le
  have hye := h.year_le (by omega)
  obtain ⟨h0, hlt, hmp, hd, hc⟩ := h
  have hdoy : doy < 366 := by
    rw [marchDays, marchDays] at hlt
    omega
  have hmonth : 1 ≤ c.month ∧ c.month ≤ 12 := by omega
  have hday : 1 ≤ c.day := by omega
  have hda := days_eq hye hmonth.1 hmonth.2 hday
  have hn : c.days = n / 86400 := by
    rcases hc with ⟨hm, hmo, hy⟩ | ⟨hm, hmo, hy⟩
    · rw [if_neg (by omega), hmo, hy, add_sub_cancel_right] at hda
      omega
    · rw [if_pos (by omega), hy, add_sub_cancel_right] at hda
      omega
  refine ⟨⟨hye, hmonth, ⟨hday, hle⟩, by omega, by omega, by omega⟩, ?_⟩
  rw [Civil.seconds, hn]
  omega

lemma civil_spec (secs : UInt64) : ∃ c, civil secs = some c ∧ c.Valid ∧ c.seconds = secs.toNat := by
  have hn := secs.toNat_lt
  obtain ⟨n, hs⟩ : ∃ n, n = secs.toNat := ⟨_, rfl⟩
  rw [civil, ← hs]
  rw [← hs] at hn
  obtain ⟨z, hz⟩ : ∃ z : ℤ, z = (n / 86400 : ℕ) + 719468 := ⟨_, rfl⟩
  obtain ⟨era, he⟩ : ∃ era, era = z / 146097 := ⟨_, rfl⟩
  obtain ⟨doe, hdoe⟩ : ∃ doe, doe = z % 146097 := ⟨_, rfl⟩
  obtain ⟨yoe, hyoe, hy0, hy, hlo, hhi⟩ := @year_of_era doe (by omega) (by omega)
  obtain ⟨doy, hdoy⟩ : ∃ doy, doy = doe - (365 * yoe + yoe / 4 - yoe / 100) := ⟨_, rfl⟩
  have hdoy0 : 0 ≤ doy ∧ doy < 366 := by omega
  obtain ⟨mp, hmp⟩ : ∃ mp, mp = (5 * doy + 2) / 153 := ⟨_, rfl⟩
  obtain ⟨hm0, hm, hd0, hd⟩ := month_of_year hdoy0.1 hdoy0.2 hmp
  rw [i64_bind (by omega)]
  rw [u32_bind (by omega), ← hz, i64_bind (by omega)]
  dsimp only
  rw [← he, ← hdoe]
  simp (disch := omega) only [Int.tdiv_eq_ediv_of_nonneg]
  rw [i64_bind (by omega), i64_bind (by omega), i64_bind (by omega)]
  simp (disch := omega) only [Int.tdiv_eq_ediv_of_nonneg, hyoe]
  rw [i64_bind (by omega), i64_bind (by omega), i64_bind (by omega), i64_bind (by omega),
    i64_bind (by omega), ← hdoy,
    i64_bind (by omega), i64_bind (by omega), i64_bind (by omega)]
  simp (disch := omega) only [Int.tdiv_eq_ediv_of_nonneg, ← hmp]
  rw [i64_bind (by omega), i64_bind (by omega)]
  simp (disch := omega) only [Int.tdiv_eq_ediv_of_nonneg]
  rw [i64_bind (by omega), i64_bind (by omega), u32_bind (by omega)]
  have hY : z = marchDays (yoe + era * 400) + doy := by
    rw [marchDays_era, marchDays]
    omega
  have hl : doy < marchDays (yoe + era * 400 + 1) - marchDays (yoe + era * 400) := by
    rw [add_right_comm, marchDays_era, marchDays_era, marchDays, marchDays]
    omega
  rcases lt_or_ge mp 10 with h10 | h10
  · rw [if_pos h10, i64_bind (by omega), u32_bind (by omega), if_neg (by omega)]
    exact ⟨_, rfl, Marches.valid ⟨hdoy0.1, hl, hmp, by dsimp only; omega, .inl ⟨h10, by dsimp only; omega, rfl⟩⟩
      (by omega) ⟨rfl, rfl, rfl⟩⟩
  · rw [if_neg (by omega), i64_bind (by omega), u32_bind (by omega), if_pos (by omega), i64_bind (by omega)]
    exact ⟨_, rfl, Marches.valid ⟨hdoy0.1, hl, hmp, by dsimp only; omega, .inr ⟨h10, by dsimp only; omega, rfl⟩⟩
      (by omega) ⟨rfl, rfl, rfl⟩⟩

theorem civil_correct : ∃ date : UInt64 → Civil,
    (∀ secs, civil secs = some (date secs) ∧ (date secs).Valid ∧ (date secs).seconds = secs.toNat) ∧
    ∀ s t, s < t → (date s).fields < (date t).fields := by
  choose date hd using civil_spec
  refine ⟨date, hd, fun s t hlt => fields_lt (hd s).2.1 (hd t).2.1 ?_⟩
  rw [(hd s).2.2, (hd t).2.2]
  exact hlt

theorem civil_correct_epoch : ∃ a b : Civil, civil 951827696 = some a ∧ a.Valid ∧ a.fields < b.fields := by
  obtain ⟨date, hd, hlt⟩ := civil_correct
  exact ⟨_, _, (hd _).1, (hd _).2.1, hlt 951827696 951827697 (by decide)⟩

example : civil 951827696 = some ⟨2000, 2, 29, 12, 34, 56⟩ := by decide +kernel

end Reiny.Cli
