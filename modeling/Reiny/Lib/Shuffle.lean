import Mathlib.Tactic

/-! Lists whose elements correspond to each other in some order, and sorting as what forgets the order. -/

namespace Reiny.Lib.Shuffle

open List

variable {α β γ : Type} {R : α → β → Prop} {l k : List α} {l' k' : List β}

def Shuffled (R : α → β → Prop) (l : List α) (l' : List β) : Prop := ∃ mid, List.Forall₂ R l mid ∧ mid.Perm l'

lemma shuffled_of_perm {R : α → α → Prop} {l' : List α} (hr : ∀ a, R a a) (h : l.Perm l') : Shuffled R l l' :=
  ⟨l, List.forall₂_same.mpr fun a _ => hr a, h⟩

lemma shuffled_of_forall₂ (h : List.Forall₂ R l l') : Shuffled R l l' := ⟨l', h, List.Perm.refl l'⟩

lemma Shuffled.append (h : Shuffled R l l') (hk : Shuffled R k k') : Shuffled R (l ++ k) (l' ++ k') := by
  obtain ⟨mid, hm, hp⟩ := h
  obtain ⟨mid', hm', hp'⟩ := hk
  exact ⟨mid ++ mid', rel_append hm hm', hp.append hp'⟩

lemma Shuffled.perm_left (hp : k.Perm l) (h : Shuffled R l l') : Shuffled R k l' := by
  obtain ⟨mid, hm, hp'⟩ := h
  obtain ⟨mid', hm', hp''⟩ := perm_comp_forall₂ hp hm
  exact ⟨mid', hm', hp''.trans hp'⟩

lemma Shuffled.perm_right (h : Shuffled R l l') (hp : l'.Perm k') : Shuffled R l k' := by
  obtain ⟨mid, hm, hp'⟩ := h
  exact ⟨mid, hm, hp'.trans hp⟩

lemma Shuffled.perm_map {f : α → γ} {g : β → γ} (h : Shuffled R l l') (hfg : ∀ a b, R a b → f a = g b) :
    (l.map f).Perm (l'.map g) := by
  obtain ⟨mid, hmid, hp⟩ := h
  have hm : l.map f = mid.map g := by
    clear hp
    induction hmid with
    | nil => rfl
    | cons hab _ ih => rw [map_cons, map_cons, hfg _ _ hab, ih]
  rw [hm]
  exact hp.map g

lemma Shuffled.mem {a : α} (h : Shuffled R l l') (ha : a ∈ l) : ∃ b ∈ l', R a b := by
  obtain ⟨mid, hm, hp⟩ := h
  have hf : ∃ b ∈ mid, R a b := by
    clear hp
    induction hm with
    | nil => cases ha
    | cons hab _ ih =>
      rcases mem_cons.mp ha with rfl | ha
      · exact ⟨_, mem_cons_self, hab⟩
      · obtain ⟨b, hb, hr⟩ := ih ha
        exact ⟨b, mem_cons_of_mem _ hb, hr⟩
  obtain ⟨b, hb, hr⟩ := hf
  exact ⟨b, hp.subset hb, hr⟩

lemma Shuffled.imp {S : α → β → Prop} (h : Shuffled R l l') (himp : ∀ a ∈ l, ∀ b, R a b → S a b) :
    Shuffled S l l' := by
  obtain ⟨mid, hm, hp⟩ := h
  refine ⟨mid, ?_, hp⟩
  clear hp
  induction hm with
  | nil => exact .nil
  | cons hab _ ih =>
    exact .cons (himp _ mem_cons_self _ hab) (ih fun a ha => himp a (mem_cons_of_mem _ ha))

lemma forall₂_mem_right (h : List.Forall₂ R l l') {b : β} (hb : b ∈ l') : ∃ a ∈ l, R a b := by
  induction h with
  | nil => cases hb
  | cons hab _ ih =>
    rcases mem_cons.mp hb with rfl | hb
    · exact ⟨_, mem_cons_self, hab⟩
    · obtain ⟨a, ha, hr⟩ := ih hb
      exact ⟨a, mem_cons_of_mem _ ha, hr⟩

lemma forall₂_replace {S : α → γ → Prop} {T : β → γ → Prop} {k : List γ} (h : List.Forall₂ R l l')
    (hk : List.Forall₂ S l k) (himp : ∀ a ∈ l, ∀ b c, R a b → S a c → T b c) : List.Forall₂ T l' k := by
  induction h generalizing k with
  | nil =>
    cases hk
    exact .nil
  | cons hab _ ih =>
    cases hk with
    | cons hac hk =>
      exact .cons (himp _ mem_cons_self _ _ hab hac) (ih hk fun a ha => himp a (mem_cons_of_mem _ ha))

lemma perm_eq_of_keys {κ : Type} [LinearOrder κ] {key : α → κ} {l' : List α} (hp : l.Perm l')
    (hnd : (l.map key).Nodup) (h : (l.map key).Pairwise (· ≤ ·)) (h' : (l'.map key).Pairwise (· ≤ ·)) : l = l' := by
  rw [pairwise_map] at h h'
  refine List.Perm.eq_of_pairwise ?_ h h' hp
  intro a b ha hb hab hba
  exact inj_on_of_nodup_map hnd ha (hp.symm.subset hb) (le_antisymm hab hba)

lemma insertionSort_perm_eq {κ : Type} [LinearOrder κ] {r : α → α → Prop} [DecidableRel r]
    {l' : List α} (key : α → κ)
    (hk : Function.Injective key) (hr : ∀ a b, r a b ↔ key a ≤ key b) (h : l.Perm l') :
    l.insertionSort r = l'.insertionSort r := by
  have : Std.Total r := ⟨fun a b => by simpa only [hr] using le_total (key a) (key b)⟩
  have : IsTrans α r := ⟨fun a b c => by simpa only [hr] using le_trans⟩
  have : Std.Antisymm r := ⟨fun a b hab hba => hk (le_antisymm ((hr a b).mp hab) ((hr b a).mp hba))⟩
  exact List.Perm.eq_of_pairwise' (pairwise_insertionSort r l) (pairwise_insertionSort r l')
    ((perm_insertionSort r l).trans (h.trans (perm_insertionSort r l').symm))

end Reiny.Lib.Shuffle
