import Reiny.Lib.Worklist
import Mathlib.Logic.Relation

namespace Reiny.Schema

open Lib Results Worklist List

structure SchemaPart where
  name : String
  dependsOn : List String

def byName (parts : List SchemaPart) (name : String) : Option SchemaPart :=
  parts.reverse.find? fun p => p.name = name

def visit (parts : List SchemaPart) (p : SchemaPart) (cur : String) : Except String (Unit × List String) := do
  ensure (cur ≠ p.name) ("[schema_crates] の depends_on に循環があります(`" ++ p.name ++ "` に戻ってきました)")
  match byName parts cur with
  | none => return ((), [])
  | some part =>
    part.dependsOn.forM fun next => ensure (next ∈ p.dependsOn)
      ("[schema_crates." ++ p.name ++ "] の depends_on は推移的に閉じている必要があります: `" ++ cur ++ "` が `" ++ next ++
        "` に依存しているので、[schema_crates." ++ p.name ++ "] の depends_on にも `" ++ next ++
        "` を、Cargo の依存にもそのクレートを足してください")
    return ((), part.dependsOn)

def weight (parts : List SchemaPart) (name : String) : ℕ := (byName parts name).elim 0 (·.dependsOn.length)

def walkFuel (parts : List SchemaPart) (p : SchemaPart) : ℕ :=
  p.dependsOn.length + outstanding (weight parts) p.dependsOn.dedup (∅ : Std.ExtTreeMap String Unit)

/-- The name of the part is never recorded, so it does not matter which of the two is looked at first. -/
def walk (parts : List SchemaPart) (p : SchemaPart) : Except String (Option (Std.ExtTreeMap String Unit)) :=
  close (visit parts p) (walkFuel parts p) p.dependsOn.reverse ∅

def validatePart (parts : List SchemaPart) (p : SchemaPart) : Except String Unit := do
  p.dependsOn.forM fun dep => do
    ensure (dep ≠ p.name) ("[schema_crates." ++ p.name ++ "] の depends_on が自分自身を指しています")
    ensure ((byName parts dep).isSome)
      ("[schema_crates." ++ p.name ++ "] の depends_on にある `" ++ dep ++ "` という区画がありません")
  let _ ← walk parts p

def validateDepends (parts : List SchemaPart) : Except String Unit := parts.forM (validatePart parts)

def Depends (parts : List SchemaPart) (a b : String) : Prop := ∃ p ∈ parts, p.name = a ∧ b ∈ p.dependsOn

variable {parts : List SchemaPart} {p q : SchemaPart} {cur : String} {refs : List String}

lemma byName_some (hnd : (parts.map (·.name)).Nodup) : byName parts cur = some q ↔ q ∈ parts ∧ q.name = cur := by
  rw [byName]
  constructor
  · intro h
    exact ⟨mem_reverse.mp (mem_of_find?_eq_some h), by simpa using find?_some h⟩
  · rintro ⟨hq, rfl⟩
    cases h : parts.reverse.find? fun p => decide (p.name = q.name) with
    | none => simpa using find?_eq_none.mp h q (mem_reverse.mpr hq)
    | some r =>
      have hr := mem_reverse.mp (mem_of_find?_eq_some h)
      rw [inj_on_of_nodup_map hnd hr hq (by simpa using find?_some h)]

lemma visit_ok : visit parts p cur = .ok ((), refs) ↔ cur ≠ p.name ∧ (∀ j ∈ refs, j ∈ p.dependsOn) ∧
    refs = (byName parts cur).elim [] (·.dependsOn) := by
  rw [visit, ensure_bind_ok]
  refine and_congr_right fun _ => ?_
  cases byName parts cur with
  | none =>
    constructor
    · intro h
      cases pure_ok.mp h
      exact ⟨nofun, rfl⟩
    · rintro ⟨-, rfl⟩
      rfl
  | some part =>
    rw [bind_ok]
    constructor
    · rintro ⟨u, ha, h⟩
      cases pure_ok.mp h
      exact ⟨fun j hj => ensure_ok.mp (forM_ok.mp ha j hj), rfl⟩
    · rintro ⟨ha, rfl⟩
      exact ⟨(), forM_ok.mpr fun j hj => ensure_ok.mpr (ha j hj), rfl⟩

lemma walk_terminates : walk parts p ≠ .ok none := by
  refine close_bounded (P := (· ∈ p.dependsOn)) (List.nodup_dedup _) (fun k hk => mem_reverse.mp hk) ?_
    (by rw [length_reverse]; rfl)
  rintro k hk ⟨⟩ refs h
  obtain ⟨-, hr, rfl⟩ := visit_ok.mp h
  refine ⟨List.mem_dedup.mpr hk, ?_, hr⟩
  rw [weight]
  cases byName parts k <;> rfl

lemma walk_ok : (∃ r, walk parts p = .ok r) ↔ ∀ cur ∈ p.dependsOn, ∃ refs, visit parts p cur = .ok ((), refs) := by
  constructor
  · rintro ⟨_ | seen, h⟩ cur hc
    · exact absurd h walk_terminates
    · obtain hm | ⟨⟨⟨⟩, refs⟩, hok⟩ := close_each h cur (mem_reverse.mpr hc)
      · exact absurd hm Std.ExtTreeMap.not_mem_empty
      · exact ⟨refs, hok⟩
  · intro h
    cases hw : walk parts p with
    | ok r => exact ⟨r, rfl⟩
    | error e =>
      obtain ⟨k, hk, he⟩ := close_error (P := (· ∈ p.dependsOn)) (fun k hk => mem_reverse.mp hk)
        (fun k _ v refs hok => (visit_ok.mp hok).2.1) hw
      obtain ⟨refs, hok⟩ := h k hk
      rw [hok] at he
      cases he

lemma validatePart_ok (hnd : (parts.map (·.name)).Nodup) : validatePart parts p = .ok () ↔ ∀ dep ∈ p.dependsOn,
    dep ≠ p.name ∧ ∃ q ∈ parts, q.name = dep ∧ ∀ j ∈ q.dependsOn, j ∈ p.dependsOn := by
  rw [validatePart, bind_ok]
  constructor
  · rintro ⟨u, hd, h⟩ dep hdep
    obtain ⟨r, hr, -⟩ := bind_ok.mp h
    obtain ⟨hne, h⟩ := ensure_bind_ok.mp (forM_ok.mp hd dep hdep)
    obtain ⟨q, hq⟩ := Option.isSome_iff_exists.mp (ensure_ok.mp h)
    obtain ⟨refs, hok⟩ := walk_ok.mp ⟨r, hr⟩ dep hdep
    obtain ⟨-, hre, rfl⟩ := visit_ok.mp hok
    rw [hq] at hre
    obtain ⟨hm, hn⟩ := (byName_some hnd).mp hq
    exact ⟨hne, q, hm, hn, hre⟩
  · intro h
    have hf : ∀ dep ∈ p.dependsOn, ∃ q, byName parts dep = some q ∧ ∀ j ∈ q.dependsOn, j ∈ p.dependsOn := by
      intro dep hdep
      obtain ⟨-, q, hq, hn, hre⟩ := h dep hdep
      exact ⟨q, (byName_some hnd).mpr ⟨hq, hn⟩, hre⟩
    have hw : ∃ r, walk parts p = .ok r := by
      refine walk_ok.mpr fun dep hdep => ?_
      obtain ⟨q, hq, hre⟩ := hf dep hdep
      refine ⟨q.dependsOn, visit_ok.mpr ⟨(h dep hdep).1, hre, ?_⟩⟩
      rw [hq]
      rfl
    obtain ⟨r, hr⟩ := hw
    refine ⟨(), forM_ok.mpr fun dep hdep => ?_, bind_ok.mpr ⟨r, hr, rfl⟩⟩
    obtain ⟨q, hq, -⟩ := hf dep hdep
    exact ensure_bind_ok.mpr ⟨(h dep hdep).1, ensure_ok.mpr (by rw [hq]; rfl)⟩

lemma depends_iff (hnd : (parts.map (·.name)).Nodup) (hp : p ∈ parts) {b : String} :
    Depends parts p.name b ↔ b ∈ p.dependsOn := by
  constructor
  · rintro ⟨q, hq, hn, hb⟩
    rwa [← inj_on_of_nodup_map hnd hq hp hn]
  · exact fun hb => ⟨p, hp, rfl, hb⟩

lemma validateDepends_ok (hnd : (parts.map (·.name)).Nodup) : validateDepends parts = .ok () ↔
    (∀ a b, Depends parts a b → ∃ q ∈ parts, q.name = b) ∧ (∀ a, ¬ Depends parts a a) ∧
      ∀ a b c, Depends parts a b → Depends parts b c → Depends parts a c := by
  rw [validateDepends, forM_ok]
  constructor
  · intro h
    have hpa : ∀ a b, Depends parts a b → b ≠ a ∧ ∃ q ∈ parts, q.name = b ∧
      ∀ c ∈ q.dependsOn, Depends parts a c := by
      rintro _ b ⟨p, hp, rfl, hb⟩
      obtain ⟨hne, q, hq, hn, hr⟩ := (validatePart_ok hnd).mp (h p hp) b hb
      exact ⟨hne, q, hq, hn, fun c hc => ⟨p, hp, rfl, hr c hc⟩⟩
    refine ⟨fun a b hb => ?_, fun a ha => (hpa a a ha).1 rfl, fun a b c hb hc => ?_⟩
    · obtain ⟨-, q, hq, hn, -⟩ := hpa a b hb
      exact ⟨q, hq, hn⟩
    · obtain ⟨-, q, hq, rfl, hr⟩ := hpa a b hb
      exact hr c ((depends_iff hnd hq).mp hc)
  · rintro ⟨hl, hs, ht⟩ p hp
    refine (validatePart_ok hnd).mpr fun dep hdep => ?_
    have hd := (depends_iff hnd hp).mpr hdep
    obtain ⟨q, hq, rfl⟩ := hl _ dep hd
    refine ⟨fun heq => hs p.name (heq ▸ hd), q, hq, rfl, fun j hj => ?_⟩
    exact (depends_iff hnd hp).mp (ht _ _ _ hd ((depends_iff hnd hq).mpr hj))

theorem validate_depends_closed (hnd : (parts.map (·.name)).Nodup) : (∀ p, walk parts p ≠ .ok none) ∧
    (validateDepends parts = .ok () ↔ (∀ a b, Depends parts a b → ∃ q ∈ parts, q.name = b) ∧
      (∀ a, ¬ Depends parts a a) ∧ ∀ a b c, Depends parts a b → Depends parts b c → Depends parts a c) ∧
    (validateDepends parts = .ok () → (∀ a, ¬ Relation.TransGen (Depends parts) a a) ∧
      ∀ p ∈ parts, ∀ b, b ∈ p.dependsOn ↔ Relation.TransGen (Depends parts) p.name b) := by
  refine ⟨fun p => walk_terminates, validateDepends_ok hnd, fun h => ?_⟩
  obtain ⟨-, hs, ht⟩ := (validateDepends_ok hnd).mp h
  have hg : ∀ a b, Relation.TransGen (Depends parts) a b ↔ Depends parts a b := by
    intro a b
    refine ⟨fun hab => ?_, .single⟩
    induction hab with
    | single hab => exact hab
    | tail _ hbc ih => exact ht _ _ _ ih hbc
  refine ⟨fun a => (hg a a).not.mpr (hs a), fun p hp b => ?_⟩
  rw [hg, depends_iff hnd hp]

theorem validate_depends_closed_pair : validateDepends [⟨"base", []⟩, ⟨"arm", ["base"]⟩] = .ok () := by
  refine (@validate_depends_closed [⟨"base", []⟩, ⟨"arm", ["base"]⟩] (by decide)).2.1.mpr ?_
  simp only [Depends, mem_cons, not_mem_nil, or_false, exists_eq_or_imp, exists_eq_left, and_false, false_or]
  refine ⟨fun a b h => Or.inl h.2.symm, fun a h => absurd (h.1.trans h.2) (by decide), ?_⟩
  rintro a b c ⟨-, rfl⟩ ⟨h, -⟩
  exact absurd h (by decide)

end Reiny.Schema
