import Reiny.Lib.Results

/-! Looking up what was collected from a list into a map. -/

namespace Reiny.Lib.Maps

open Std List ExtTreeMap

section Pairs

variable {A B : Type} [Ord A] [Ord B]

instance pairOrd : Ord (A × B) := lexOrd

instance pairTrans [TransOrd A] [TransOrd B] : TransOrd (A × B) :=
  inferInstanceAs (TransCmp (compareLex (compareOn Prod.fst) (compareOn Prod.snd)))

instance pairLawful [LawfulEqOrd A] [LawfulEqOrd B] : LawfulEqOrd (A × B) where
  compare_self := by
    rintro ⟨a, b⟩
    simp
  eq_of_compare := by
    rintro ⟨a, b⟩ ⟨a', b'⟩ h
    simp only [compare, compareLex, compareOn, Ordering.then_eq_eq] at h
    exact Prod.ext (LawfulEqOrd.eq_of_compare h.1) (LawfulEqOrd.eq_of_compare h.2)

end Pairs

variable {K V : Type} [Ord K] [TransOrd K] {m : ExtTreeMap K V} {l : List (K × V)} {k : K} {v : V}

lemma mem_of_some (h : m[k]? = some v) : k ∈ m := mem_iff_isSome_getElem?.mpr (by rw [h]; rfl)

lemma some_of_mem (h : k ∈ m) : ∃ v, m[k]? = some v :=
  Option.isSome_iff_exists.mp (mem_iff_isSome_getElem?.mp h)

def Functional (l : List (K × V)) : Prop := ∀ k v v', (k, v) ∈ l → (k, v') ∈ l → v = v'

variable [LawfulEqOrd K]

lemma insert_of_ne {j : K} (h : k ≠ j) : (m.insert k v)[j]? = m[j]? := by
  rw [ExtTreeMap.getElem?_insert, if_neg (by rwa [LawfulEqOrd.compare_eq_iff_eq])]

lemma of_insert {j : K} {w : V} (h : (m.insert k v)[j]? = some w) : k = j ∧ v = w ∨ k ≠ j ∧ m[j]? = some w := by
  rw [ExtTreeMap.getElem?_insert] at h
  split_ifs at h with heq
  · exact .inl ⟨LawfulEqOrd.compare_eq_iff_eq.mp heq, Option.some.inj h⟩
  · exact .inr ⟨by rwa [LawfulEqOrd.compare_eq_iff_eq] at heq, h⟩

lemma toList_functional : Functional m.toList := by
  intro k v v' h h'
  rw [mem_toList_iff_getElem?_eq_some] at h h'
  rw [h] at h'
  exact Option.some.inj h'

variable [DecidableEq K]

lemma insertMany_of_not_mem (h : ∀ v, (k, v) ∉ l) : (m.insertMany l)[k]? = m[k]? := by
  apply getElem?_insertMany_list_of_contains_eq_false
  rw [contains_eq_mem, decide_eq_false_iff_not, mem_map]
  rintro ⟨⟨k', v⟩, hm, rfl⟩
  exact h v hm

lemma insertMany_of_mem (hl : Functional l) (h : (k, v) ∈ l) : (m.insertMany l)[k]? = some v := by
  induction l generalizing m with
  | nil => cases h
  | cons e l ih =>
    have ht : Functional l := fun k v v' hv hv' =>
      hl k v v' (mem_cons_of_mem _ hv) (mem_cons_of_mem _ hv')
    rw [← Prod.eta e, insertMany_cons]
    by_cases hk : ∃ v', (k, v') ∈ l
    · obtain ⟨v', hv'⟩ := hk
      have hv : v = v' := hl k v v' h (mem_cons_of_mem _ hv')
      exact ih ht (hv ▸ hv')
    · rw [insertMany_of_not_mem fun v' hv' => hk ⟨v', hv'⟩]
      rcases mem_cons.mp h with rfl | h
      · exact getElem?_insert_self
      · exact absurd ⟨v, h⟩ hk

lemma ofList_of_mem (hl : Functional l) (h : (k, v) ∈ l) : (ofList l)[k]? = some v := by
  rw [ofList_eq_insertMany_empty]
  exact insertMany_of_mem hl h

lemma ofList_of_not_mem (h : ∀ v, (k, v) ∉ l) : (ofList l)[k]? = none := by
  rw [ofList_eq_insertMany_empty, insertMany_of_not_mem h, getElem?_empty]

lemma ofList_toList : ofList m.toList = m := by
  apply ExtTreeMap.ext_getElem?
  intro k
  cases hk : m[k]? with
  | none =>
    refine ofList_of_not_mem fun v hv => ?_
    rw [mem_toList_iff_getElem?_eq_some, hk] at hv
    cases hv
  | some v => exact ofList_of_mem toList_functional (mem_toList_iff_getElem?_eq_some.mpr hk)

lemma ofList_map_toList {W : Type} (g : K × V → W) (k : K) :
    (ofList (m.toList.map fun entry => (entry.1, g entry)))[k]? = m[k]?.map fun v => g (k, v) := by
  have hm : ∀ k w, (k, w) ∈ (m.toList.map fun entry => (entry.1, g entry)) ↔ ∃ v, m[k]? = some v ∧
    g (k, v) = w := by
    intro k w
    rw [mem_map]
    constructor
    · rintro ⟨⟨k', v⟩, hv, heq⟩
      cases heq
      exact ⟨v, mem_toList_iff_getElem?_eq_some.mp hv, rfl⟩
    · rintro ⟨v, hv, rfl⟩
      exact ⟨(k, v), mem_toList_iff_getElem?_eq_some.mpr hv, rfl⟩
  cases hk : m[k]? with
  | none =>
    refine ofList_of_not_mem fun w hw => ?_
    obtain ⟨v, hv, -⟩ := (hm k w).mp hw
    rw [hk] at hv
    cases hv
  | some v =>
    refine ofList_of_mem ?_ ((hm k _).mpr ⟨v, hk, rfl⟩)
    intro k w w' hw hw'
    obtain ⟨v, hv, rfl⟩ := (hm k w).mp hw
    obtain ⟨v', hv', rfl⟩ := (hm k w').mp hw'
    rw [hv] at hv'
    cases hv'
    rfl

section Collecting

open Results

variable {ε W : Type} {f : K → V → Except ε W}

def convert (f : K → V → Except ε W) (entry : K × V) : Except ε (K × W) := do
  let w ← f entry.1 entry.2
  return (entry.1, w)

def traverse (f : K → V → Except ε W) (m : ExtTreeMap K V) : Except ε (ExtTreeMap K W) := do
  let entries ← m.toList.mapM (convert f)
  return ofList entries

omit [Ord K] [TransOrd K] [LawfulEqOrd K] [DecidableEq K] in
lemma convert_ok {entry : K × V} {w : W} :
    convert f entry = .ok (k, w) ↔ k = entry.1 ∧ f entry.1 entry.2 = .ok w := by
  unfold convert
  rw [bind_ok]
  constructor
  · rintro ⟨w', hw', h⟩
    cases pure_ok.mp h
    exact ⟨rfl, hw'⟩
  · rintro ⟨rfl, hw⟩
    exact ⟨w, hw, rfl⟩

lemma traverse_get {m' : ExtTreeMap K W} (h : traverse f m = .ok m') (k : K) (w : W) :
    m'[k]? = some w ↔ ∃ v, m[k]? = some v ∧ f k v = .ok w := by
  obtain ⟨entries, hes, h⟩ := bind_ok.mp h
  cases pure_ok.mp h
  have hm : ∀ k w, (k, w) ∈ entries ↔ ∃ v, m[k]? = some v ∧ f k v = .ok w := by
    intro k w
    rw [mapM_mem hes]
    constructor
    · rintro ⟨⟨k', v⟩, hv, hw⟩
      obtain ⟨rfl, hw⟩ := convert_ok.mp hw
      exact ⟨v, mem_toList_iff_getElem?_eq_some.mp hv, hw⟩
    · rintro ⟨v, hv, hw⟩
      exact ⟨(k, v), mem_toList_iff_getElem?_eq_some.mpr hv, convert_ok.mpr ⟨rfl, hw⟩⟩
  have hf : Functional entries := by
    intro k w w' hw hw'
    obtain ⟨v, hv, hw⟩ := (hm k w).mp hw
    obtain ⟨v', hv', hw'⟩ := (hm k w').mp hw'
    rw [hv] at hv'
    cases hv'
    rw [hw] at hw'
    exact Except.ok.inj hw'
  rw [← hm]
  constructor
  · intro hg
    by_contra hnone
    by_cases ha : ∃ w', (k, w') ∈ entries
    · obtain ⟨w', hw'⟩ := ha
      rw [ofList_of_mem hf hw'] at hg
      cases hg
      exact hnone hw'
    · rw [ofList_of_not_mem fun w' hw' => ha ⟨w', hw'⟩] at hg
      cases hg
  · exact ofList_of_mem hf

omit [DecidableEq K] in
lemma traverse_total (h : ∀ k v, m[k]? = some v → ∃ w, f k v = .ok w) : ∃ m', traverse f m = .ok m' := by
  obtain ⟨entries, hes⟩ : ∃ entries, m.toList.mapM (convert f) = .ok entries := by
    refine mapM_total fun entry he => ?_
    obtain ⟨w, hw⟩ := h entry.1 entry.2 (mem_toList_iff_getElem?_eq_some.mp he)
    exact ⟨(entry.1, w), convert_ok.mpr ⟨rfl, hw⟩⟩
  refine ⟨ofList entries, ?_⟩
  rw [traverse, hes]
  rfl

lemma traverse_map {g : W → V} {m : ExtTreeMap K W} (h : ∀ k w, m[k]? = some w → f k (g w) = .ok w) :
    traverse f (m.map fun _ w => g w) = .ok m := by
  have hm : ∀ (k : K) v, (m.map fun _ w => g w)[k]? = some v ↔ ∃ w, m[k]? = some w ∧ g w = v := by
    intro k v
    rw [ExtTreeMap.getElem?_map, Option.map_eq_some_iff]
  obtain ⟨m', hm'⟩ : ∃ m', traverse f (m.map fun _ w => g w) = .ok m' := by
    refine traverse_total fun k v hv => ?_
    obtain ⟨w, hw, rfl⟩ := (hm k v).mp hv
    exact ⟨w, h k w hw⟩
  rw [hm', Except.ok.injEq]
  apply ExtTreeMap.ext_getElem?
  intro k
  apply Option.ext
  intro w
  rw [traverse_get hm' k w]
  constructor
  · rintro ⟨v, hv, hw⟩
    obtain ⟨w', hw', rfl⟩ := (hm k v).mp hv
    rw [h k w' hw'] at hw
    exact hw' ▸ congrArg some (Except.ok.inj hw)
  · intro hw
    exact ⟨g w, (hm k (g w)).mpr ⟨w, hw, rfl⟩, h k w hw⟩

lemma traverse_singleton {w : W} (h : f k v = .ok w) :
    ∃ m', traverse f (ofList [(k, v)]) = .ok m' ∧ m'[k]? = some w := by
  have hg : ∀ (k' : K) v', (ofList [(k, v)])[k']? = some v' ↔ k = k' ∧ v = v' := by
    intro k' v'
    rw [ExtTreeMap.ofList_singleton, ExtTreeMap.getElem?_insert]
    split_ifs with hk
    · simp [LawfulEqOrd.compare_eq_iff_eq.mp hk]
    · rw [LawfulEqOrd.compare_eq_iff_eq] at hk
      simp [hk]
  obtain ⟨m', hm'⟩ : ∃ m', traverse f (ofList [(k, v)]) = .ok m' := by
    refine traverse_total fun k' v' hv' => ?_
    obtain ⟨rfl, rfl⟩ := (hg k' v').mp hv'
    exact ⟨w, h⟩
  exact ⟨m', hm', (traverse_get hm' k w).mpr ⟨v, (hg k v).mpr ⟨rfl, rfl⟩, h⟩⟩

omit [DecidableEq K] in
lemma length_le_size {l : List K} (hnd : l.Nodup) (h : ∀ k ∈ l, k ∈ m) : l.length ≤ m.size := by
  rw [← length_keys]
  exact (hnd.subperm fun k hk => ExtTreeMap.mem_keys.mpr (h k hk)).length_le

def insertNew {α : Type} (conv : α → Except ε (K × V)) (e : ε) (m : ExtTreeMap K V) (a : α) :
    Except ε (ExtTreeMap K V) := do
  let entry ← conv a
  ensure (entry.1 ∉ m) e
  return m.insert entry.1 entry.2

omit [DecidableEq K] in
lemma foldlM_insertNew {α : Type} {conv : α → Except ε (K × V)} {e : ε} {l : List α} {entries : List (K × V)}
    (hc : List.Forall₂ (fun a entry => conv a = .ok entry) l entries) (hnd : (entries.map Prod.fst).Nodup)
    (hfr : ∀ entry ∈ entries, entry.1 ∉ m) : l.foldlM (insertNew conv e) m = .ok (m.insertMany entries) := by
  induction hc generalizing m with
  | nil => simp [insertMany_nil]; rfl
  | @cons a entry l entries ha _ ih =>
    rw [map_cons, nodup_cons] at hnd
    rw [forall_mem_cons] at hfr
    have hs : insertNew conv e m a = .ok (m.insert entry.1 entry.2) := by
      rw [insertNew, ha]
      exact ensure_bind_ok.mpr ⟨hfr.1, rfl⟩
    have hr : ∀ other ∈ entries, other.1 ∉ m.insert entry.1 entry.2 := by
      intro other ho hm
      rw [mem_insert, LawfulEqOrd.compare_eq_iff_eq] at hm
      rcases hm with heq | hm
      · exact hnd.1 (heq ▸ mem_map_of_mem ho)
      · exact hfr.2 other ho hm
    rw [foldlM_cons, hs, ← Prod.eta entry, insertMany_cons]
    exact ih hnd.2 hr

end Collecting

end Reiny.Lib.Maps
