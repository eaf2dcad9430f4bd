import Mathlib.Logic.Relation
import Mathlib.Tactic

/-! A list that grows while a cursor walks over it. -/

namespace Reiny.Lib.Frontier

open List

variable {α : Type*} [DecidableEq α]

def extend (list more : List α) : List α := more.foldl (fun list a => if a ∈ list then list else list ++ [a]) list

def grow (next : α → List α) : ℕ → ℕ → List α → Option (List α)
  | 0, cursor, list => if cursor < list.length then none else some list
  | fuel + 1, cursor, list =>
    match list[cursor]? with
    | none => some list
    | some a => grow next fuel (cursor + 1) (extend list (next a))

variable {next : α → List α} {list more result : List α} {cursor fuel : ℕ} {a b : α}

lemma mem_extend : a ∈ extend list more ↔ a ∈ list ∨ a ∈ more := by
  induction more generalizing list with
  | nil => simp [extend]
  | cons b more ih =>
    rw [extend, foldl_cons, ← extend, ih, mem_cons]
    split_ifs with hb
    · constructor
      · rintro (h | h)
        · exact .inl h
        · exact .inr (.inr h)
      · rintro (h | rfl | h)
        · exact .inl h
        · exact .inl hb
        · exact .inr h
    · rw [mem_append, mem_singleton, or_assoc]

lemma nodup_extend (h : list.Nodup) : (extend list more).Nodup := by
  induction more generalizing list with
  | nil => exact h
  | cons b more ih =>
    rw [extend, foldl_cons, ← extend]
    split_ifs with hb
    · exact ih h
    · rw [← concat_eq_append]
      exact ih (h.concat hb)

lemma extend_keeps : list <+: extend list more := by
  induction more generalizing list with
  | nil => exact prefix_refl list
  | cons b more ih =>
    rw [extend, foldl_cons, ← extend]
    split_ifs
    · exact ih
    · exact (prefix_append list [b]).trans ih

def Passed (next : α → List α) (cursor : ℕ) (list : List α) : Prop := ∀ a ∈ list.take cursor, ∀ b ∈ next a, b ∈ list

lemma Passed.extend (h : Passed next cursor list) (ha : list[cursor]? = some a) :
    Passed next (cursor + 1) (extend list (next a)) := by
  obtain ⟨hlt, hg⟩ := List.getElem?_eq_some_iff.mp ha
  have ht : (Frontier.extend list (next a)).take (cursor + 1) = list.take cursor ++ [a] := by
    obtain ⟨tail, hta⟩ := @extend_keeps _ _ list (next a)
    rw [← hta, take_append_of_le_length hlt, take_add_one, ha]
    rfl
  intro c hc b hb
  rw [ht, mem_append, mem_singleton] at hc
  rw [mem_extend]
  rcases hc with hc | rfl
  · exact .inl (h c hc b hb)
  · exact .inr hb

lemma grow_closed (h : Passed next cursor list) (hg : grow next fuel cursor list = some result) :
    list <+: result ∧ ∀ a ∈ result, ∀ b ∈ next a, b ∈ result := by
  induction fuel generalizing cursor list with
  | zero =>
    rw [grow] at hg
    split_ifs at hg with hlt
    cases hg
    refine ⟨prefix_refl _, fun a ha => h a ?_⟩
    rwa [take_of_length_le (Nat.not_lt.mp hlt)]
  | succ fuel ih =>
    rw [grow] at hg
    cases hget : list[cursor]? with
    | none =>
      rw [hget] at hg
      cases hg
      refine ⟨prefix_refl _, fun a ha => h a ?_⟩
      rwa [take_of_length_le (List.getElem?_eq_none_iff.mp hget)]
    | some a =>
      rw [hget] at hg
      obtain ⟨hk, hcl⟩ := ih (h.extend hget) hg
      exact ⟨extend_keeps.trans hk, hcl⟩

theorem grow_reaches (hg : grow next fuel 0 [a] = some result) : a ∈ result ∧
    ∀ b ∈ result, ∀ c, Relation.ReflTransGen (fun a b => b ∈ next a) b c → c ∈ result := by
  have hst : Passed next 0 [a] := by
    intro c hc
    rw [take_zero] at hc
    cases hc
  obtain ⟨hk, hcl⟩ := grow_closed hst hg
  refine ⟨hk.subset mem_cons_self, ?_⟩
  intro b hb c hc
  induction hc with
  | refl => exact hb
  | tail _ hs ih => exact hcl _ ih _ hs

theorem grow_sound {root : α} (h : ∀ b ∈ list, Relation.ReflTransGen (fun a b => b ∈ next a) root b)
    (hg : grow next fuel cursor list = some result) :
    ∀ b ∈ result, Relation.ReflTransGen (fun a b => b ∈ next a) root b := by
  induction fuel generalizing cursor list with
  | zero =>
    rw [grow] at hg
    split_ifs at hg
    cases hg
    exact h
  | succ fuel ih =>
    rw [grow] at hg
    cases hget : list[cursor]? with
    | none =>
      rw [hget] at hg
      cases hg
      exact h
    | some a =>
      rw [hget] at hg
      refine ih ?_ hg
      intro b hb
      rcases mem_extend.mp hb with hb | hb
      · exact h b hb
      · exact (h a (mem_of_getElem? hget)).tail hb

theorem grow_fueled {all : List α} (hnd : list.Nodup) (ha : ∀ a ∈ list, a ∈ all)
    (hn : ∀ a, ∀ b ∈ next a, b ∈ all) (hf : all.length ≤ fuel + cursor) :
    ∃ result, grow next fuel cursor list = some result := by
  induction fuel generalizing cursor list with
  | zero =>
    have hl := (hnd.subperm ha).length_le
    rw [grow, if_neg (by omega)]
    exact ⟨list, rfl⟩
  | succ fuel ih =>
    rw [grow]
    cases hg : list[cursor]? with
    | none => exact ⟨list, rfl⟩
    | some a =>
      apply ih (nodup_extend hnd)
      · intro b hb
        rcases mem_extend.mp hb with hb | hb
        · exact ha b hb
        · exact hn a b hb
      · omega

end Reiny.Lib.Frontier
