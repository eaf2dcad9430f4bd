import Mathlib.Tactic

/-! Runs of a machine that answers each event it takes. -/

namespace Reiny.Lib.Machine

open List

variable {S E R : Type} (step : S → E → Option (R × S))

def run : S → List E → Option (List R × S)
  | s, [] => some ([], s)
  | s, e :: rest => do
    let (r, next) ← step s e
    let (rs, last) ← run next rest
    return (r :: rs, last)

/-- At each state of a run, with the event taken next. -/
def Along (P : S → Option E → Prop) (s : S) (events : List E) : Prop :=
  ∀ before after rs mid, events = before ++ after → run step s before = some (rs, mid) → P mid after.head?

variable {step}

variable {s last : S} {rs : List R} {events : List E} {e : E} {before : List E}

lemma run_cons :
    run step s (e :: events) = some (rs, last) ↔ ∃ r next rest,
      step s e = some (r, next) ∧ run step next events = some (rest, last) ∧ rs = r :: rest := by
  simp only [run, Option.bind_eq_bind, Option.bind_eq_some_iff, Prod.exists, pure, Option.some.injEq, Prod.mk.injEq]
  constructor
  · rintro ⟨r, next, hs, rest, _, hr, rfl, rfl⟩
    exact ⟨r, next, rest, hs, hr, rfl⟩
  · rintro ⟨r, next, rest, hs, hr, rfl⟩
    exact ⟨r, next, hs, rest, last, hr, rfl, rfl⟩

lemma along_nil {P : S → Option E → Prop} : Along step P s [] ↔ P s none := by
  refine ⟨fun h => h [] [] [] s rfl rfl, fun h before after rs mid heq hr => ?_⟩
  obtain ⟨rfl, rfl⟩ := append_eq_nil_iff.mp heq.symm
  cases hr
  exact h

lemma along_cons {P : S → Option E → Prop} {r : R} {next : S} (h : step s e = some (r, next)) :
    Along step P s (e :: events) ↔ P s (some e) ∧ Along step P next events := by
  constructor
  · refine fun ha => ⟨ha [] (e :: events) [] s rfl rfl, ?_⟩
    rintro before after rs mid rfl hr
    exact ha (e :: before) after (r :: rs) mid rfl (run_cons.mpr ⟨r, next, rs, h, hr, rfl⟩)
  · rintro ⟨hf, hr⟩ (_ | ⟨first, before⟩) after rs mid heq hrun
    · cases heq
      cases hrun
      exact hf
    · obtain ⟨rfl, rfl⟩ := List.cons.inj heq
      obtain ⟨r', next', rs', hs, hrun, rfl⟩ := run_cons.mp hrun
      cases h.symm.trans hs
      exact hr before after rs' mid rfl hrun

theorem run_trace {P : List E → List R → S → Prop}
    (hs : ∀ es rs s e r s', P es rs s → step s e = some (r, s') → P (es ++ [e]) (rs ++ [r]) s')
    (earlier : List E) (before : List R) (h : P earlier before s) (hrun : run step s events = some (rs, last)) :
    P (earlier ++ events) (before ++ rs) last := by
  induction events generalizing earlier before rs s with
  | nil =>
    cases hrun
    rwa [append_nil, append_nil]
  | cons e events ih =>
    obtain ⟨r, next, rest, he, hr, rfl⟩ := run_cons.mp hrun
    have hl := ih _ _ (hs earlier before s e r next h he) hr
    rwa [append_assoc, singleton_append, append_assoc, singleton_append] at hl

theorem run_history {P : List R → S → Prop}
    (hs : ∀ rs s e r s', P rs s → step s e = some (r, s') → P (rs ++ [r]) s') {before : List R}
    (h : P before s) (hr : run step s events = some (rs, last)) : P (before ++ rs) last :=
  run_trace (P := fun _ => P) (fun _ => hs) [] before h hr

theorem run_events {P : List E → S → Prop}
    (hs : ∀ es s e r s', P es s → step s e = some (r, s') → P (es ++ [e]) s') (h : P before s)
    (hr : run step s events = some (rs, last)) : P (before ++ events) last :=
  run_trace (P := fun es _ => P es) (fun es _ => hs es) before [] h hr

theorem run_invariant {P : S → Prop} (hs : ∀ s e r s', P s → step s e = some (r, s') → P s') (h : P s)
    (hr : run step s events = some (rs, last)) : P last :=
  @run_history S E R step s last rs events (fun _ => P) (fun _ => hs) [] h hr

lemma run_append {first second : List E} :
    run step s (first ++ second) = some (rs, last) ↔ ∃ r₁ r₂ middle,
      run step s first = some (r₁, middle) ∧ run step middle second = some (r₂, last) ∧ rs = r₁ ++ r₂ := by
  induction first generalizing s rs with
  | nil =>
    constructor
    · intro h
      exact ⟨[], rs, s, rfl, h, rfl⟩
    · rintro ⟨r₁, r₂, middle, h₁, h₂, rfl⟩
      cases h₁
      exact h₂
  | cons e first ih =>
    simp only [cons_append, run_cons, ih]
    constructor
    · rintro ⟨r, next, _, he, ⟨r₁, r₂, middle, h₁, h₂, rfl⟩, rfl⟩
      exact ⟨r :: r₁, r₂, middle, ⟨r, next, r₁, he, h₁, rfl⟩, h₂, rfl⟩
    · rintro ⟨_, r₂, middle, ⟨r, next, r₁, he, h₁, rfl⟩, h₂, rfl⟩
      exact ⟨r, next, r₁ ++ r₂, he, ⟨r₁, r₂, middle, h₁, h₂, rfl⟩, rfl⟩

lemma run_length (h : run step s events = some (rs, last)) : rs.length = events.length := by
  induction events generalizing s rs with
  | nil =>
    cases h
    rfl
  | cons e events ih =>
    obtain ⟨r, next, rest, -, hr, rfl⟩ := run_cons.mp h
    rw [length_cons, length_cons, ih hr]

lemma run_at {after : List E} (h : run step s (before ++ e :: after) = some (rs, last)) :
    ∃ r₁ r r₂ middle next,
      run step s before = some (r₁, middle) ∧ step middle e = some (r, next) ∧ rs = r₁ ++ r :: r₂ := by
  obtain ⟨r₁, _, middle, h₁, h₂, rfl⟩ := run_append.mp h
  obtain ⟨r, next, r₂, he, -, rfl⟩ := run_cons.mp h₂
  exact ⟨r₁, r, r₂, middle, next, h₁, he, rfl⟩

lemma run_answer {r₁ r₂ : List R} {r : R} (h : run step s events = some (r₁ ++ r :: r₂, last)) :
    ∃ before e after middle next,
      events = before ++ e :: after ∧ run step s before = some (r₁, middle) ∧ step middle e = some (r, next) := by
  have hl := run_length h
  rw [length_append, length_cons] at hl
  obtain ⟨e, after, hd⟩ : ∃ e after, events.drop r₁.length = e :: after :=
    exists_cons_of_length_pos (by rw [length_drop]; omega)
  have hevs : events = events.take r₁.length ++ e :: after := by rw [← hd, take_append_drop]
  rw [hevs] at h
  obtain ⟨r₁', r', r₂', middle, next, hb, he, heq⟩ := run_at h
  have hs : r₁.length = r₁'.length := by
    rw [run_length hb, length_take]
    omega
  obtain ⟨hf, hba⟩ := List.append_inj heq hs
  subst hf
  cases hba
  exact ⟨_, e, after, middle, next, hevs, hb, he⟩

end Reiny.Lib.Machine
