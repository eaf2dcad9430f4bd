import Reiny.Lib.Machine

/-! Groups that are prepared by several workers, first those that build and then those that freeze. -/

namespace Reiny.Launch.Preparing

open Lib List

variable {E O : Type}

inductive Failure (E : Type)
  | cancelled
  | failed (error : E)

inductive Point (E O : Type)
  | claiming
  | checking (index : ℕ)
  | locking (index : ℕ)
  | executing (index : ℕ)
  | storing (index : ℕ) (output : O)
  | failing (error : Failure E)
  | cancelling
  | done

inductive Entry (E O : Type)
  | running (index : ℕ)
  | skipped (index : ℕ)
  | ended (index : ℕ) (result : Except (Failure E) O) (cancelled : Bool)

structure State (E O : Type) where
  next : ℕ
  limit : ℕ
  outputs : ℕ → Option O
  failure : Option (Failure E)
  cancelled : Bool
  called : Bool
  workers : List (Point E O)
  log : List (Entry E O)
  outcome : Option (Except (Failure E) (List O))

inductive Event (E O : Type)
  | turn (worker : ℕ)
  | returns (worker : ℕ) (result : Except (Failure E) O)
  | join
  | cancel

namespace State

variable (s : State E O)

def turn : Point E O → Option (Point E O × State E O)
  | .claiming => some (if s.next < s.limit then .checking s.next else .done, { s with next := s.next + 1 })
  | .checking i =>
    if s.cancelled then some (.claiming, { s with log := s.log ++ [.skipped i] }) else some (.locking i, s)
  | .locking i =>
    if s.failure.isSome then some (.claiming, { s with log := s.log ++ [.skipped i] })
    else some (.executing i, { s with log := s.log ++ [.running i] })
  | .storing i output => some (.claiming, { s with outputs := Function.update s.outputs i (some output) })
  | .failing e => some (.cancelling, { s with failure := s.failure.or (some e) })
  | .cancelling => some (.claiming, { s with cancelled := true })
  | .executing _ | .done => none

/-- A group answers that it was cancelled only when the token is. -/
def returns (result : Except (Failure E) O) : Point E O → Option (Point E O × State E O)
  | .executing i =>
    let told := { s with log := s.log ++ [.ended i result s.cancelled] }
    match result with
    | .ok output => some (.storing i output, told)
    | .error .cancelled => if s.cancelled then some (.failing .cancelled, told) else none
    | .error (.failed e) => some (.failing (.failed e), told)
  | _ => none

def result : Except (Failure E) (List O) :=
  match s.failure with
  | some e => .error e
  | none => if s.cancelled then .error .cancelled else .ok ((List.range s.limit).filterMap s.outputs)

def join (groups jobs : ℕ) : State E O :=
  match s.result with
  | .error e =>
    { s with log := s.log ++ (List.range' s.limit (groups - s.limit)).map .skipped, outcome := some (.error e) }
  | .ok outputs =>
    if s.limit < groups then
      { s with next := s.limit, limit := groups, workers := List.replicate (min jobs (groups - s.limit)) .claiming }
    else { s with outcome := some (.ok outputs) }

def move (w : ℕ) (act : Point E O → Option (Point E O × State E O)) : Option (State E O) := do
  let p ← s.workers[w]?
  let (p, next) ← act p
  return { next with workers := s.workers.set w p }

def step (groups jobs : ℕ) (event : Event E O) : Option (Unit × State E O) :=
  if s.outcome.isSome then none
  else match event with
    | .turn w => (s.move w s.turn).map ((), ·)
    | .returns w result => (s.move w (s.returns result)).map ((), ·)
    | .join => if s.workers.all (· matches .done) then some ((), s.join groups jobs) else none
    | .cancel => some ((), { s with cancelled := true, called := true })

def start (builds jobs : ℕ) (called : Bool) : State E O :=
  ⟨0, builds, fun _ => none, none, called, called, List.replicate (min jobs builds) .claiming, [], none⟩

end State

variable {α : Type} {f : α → ℕ} {l m : List α} {a b : α} {w i n : ℕ}

def total (f : α → ℕ) (l : List α) : ℕ := (l.map f).sum

def one (i j : ℕ) : ℕ := if i = j then 1 else 0

def Point.waits (i : ℕ) : Point E O → ℕ
  | .checking j | .locking j => one i j
  | _ => 0

def Point.holds (i : ℕ) : Point E O → ℕ
  | .checking j | .locking j | .executing j => one i j
  | _ => 0

def Point.carries (i : ℕ) : Point E O → ℕ
  | .checking j | .locking j | .executing j | .storing j _ => one i j
  | .failing _ => 1
  | _ => 0

def Point.fails : Point E O → ℕ
  | .failing _ => 1
  | _ => 0

def Entry.starts (i : ℕ) : Entry E O → ℕ
  | .running j => one i j
  | _ => 0

def Entry.ends (i : ℕ) : Entry E O → ℕ
  | .skipped j | .ended j _ _ => one i j
  | _ => 0

lemma total_append : total f (l ++ m) = total f l + total f m := by
  simp [total]

lemma total_concat : total f (l ++ [a]) = total f l + f a := by
  simp [total]

lemma total_idle (h : ∀ c ∈ l, c = a) (ha : f a = 0) : total f l = 0 := by
  rw [total, List.sum_eq_zero]
  intro n hn
  obtain ⟨c, hc, rfl⟩ := mem_map.mp hn
  rw [h c hc, ha]

lemma total_set (h : l[w]? = some a) : total f (l.set w b) + f a = total f l + f b := by
  induction l generalizing w with
  | nil => cases h
  | cons c l ih =>
    cases w with
    | zero =>
      cases h
      simp only [total, List.set_cons_zero, map_cons, sum_cons]
      omega
    | succ w =>
      have ih := ih h
      simp only [total, List.set_cons_succ, map_cons, sum_cons] at ih ⊢
      omega

lemma total_skipped {k : ℕ} :
    total (Entry.ends i) ((List.range' k n).map (Entry.skipped : ℕ → Entry E O)) =
      if k ≤ i ∧ i < k + n then 1 else 0 := by
  induction n generalizing k with
  | zero => simp [total]
  | succ n ih =>
    have ih := @ih (k + 1)
    simp only [total, List.range'_succ, map_cons, sum_cons, Entry.ends, one] at ih ⊢
    grind

lemma forall₂_filterMap {β : Type} {f : α → Option β} {R : α → β → Prop} (h : ∀ a ∈ l, ∃ b, f a = some b ∧ R a b) :
    List.Forall₂ R l (l.filterMap f) := by
  induction l with
  | nil => exact .nil
  | cons a l ih =>
    rw [forall_mem_cons] at h
    obtain ⟨b, hb, hr⟩ := h.1
    rw [filterMap_cons_some hb]
    exact .cons hr (ih h.2)

/-- Before a call returns. The last clauses say who is to blame for a failure as long as the caller has not cancelled. -/
structure Going (groups : ℕ) (s : State E O) : Prop where
  bound : s.limit ≤ groups
  all : (∀ p ∈ s.workers, p = .done) → s.limit ≤ s.next
  ends : ∀ i, total (Entry.ends i) s.log + total (Point.holds i) s.workers = if i < min s.next s.limit then 1 else 0
  starts : ∀ i, total (Entry.starts i) s.log + total
    (Point.waits i) s.workers ≤ if i < min s.next s.limit then 1 else 0
  kept : s.failure = none → s.cancelled = false → ∀ i, i < s.next → i < s.limit → s.outputs i = none →
    0 < total (Point.carries i) s.workers
  outputs : ∀ i o, s.outputs i = some o → ∃ c, .ended i (.ok o) c ∈ s.log
  storing : ∀ i o, .storing i o ∈ s.workers → ∃ c, .ended i (.ok o) c ∈ s.log
  cancelled : s.called = false → s.cancelled = true → s.failure ≠ none
  cancelling : .cancelling ∈ s.workers → s.failure ≠ none
  failure : s.called = false → ∀ e, s.failure = some e → ∃ i, .ended i (.error e) false ∈ s.log
  failing : s.called = false → s.failure = none → ∀ e, .failing e ∈ s.workers →
    ∃ i, .ended i (.error e) false ∈ s.log
  lost : ∀ i e c, .ended i (.error e) c ∈ s.log → s.failure = none → 0 < total Point.fails s.workers
  honest : ∀ i, .ended i (.error .cancelled) false ∉ s.log

structure Returned (groups : ℕ) (s : State E O) (r : Except (Failure E) (List O)) : Prop where
  starts : ∀ i, total (Entry.starts i) s.log ≤ 1
  ends : ∀ i < groups, total (Entry.ends i) s.log = 1
  outputs : ∀ outs, r = .ok outs →
    List.Forall₂ (fun i o => ∃ c, .ended i (.ok o) c ∈ s.log) (List.range groups) outs
  error : s.called = false → ∀ i e c, .ended i (.error e) c ∈ s.log →
    ∃ j e', r = .error (.failed e') ∧ .ended j (.error (.failed e')) false ∈ s.log

structure Sound (groups : ℕ) (s : State E O) : Prop where
  going : s.outcome = none → Going groups s
  returned : ∀ r, s.outcome = some r → Returned groups s r

inductive Moved (s : State E O) : Point E O → Point E O → State E O → Prop
  | claim (h : s.next < s.limit) : Moved s .claiming (.checking s.next) { s with next := s.next + 1 }
  | retire (h : s.limit ≤ s.next) : Moved s .claiming .done { s with next := s.next + 1 }
  | skip {p : Point E O} {i : ℕ} (h : p = .checking i ∧ s.cancelled = true ∨ p = .locking i ∧ s.failure ≠ none) :
      Moved s p .claiming { s with log := s.log ++ [.skipped i] }
  | pass {i : ℕ} : Moved s (.checking i) (.locking i) s
  | run {i : ℕ} : Moved s (.locking i) (.executing i) { s with log := s.log ++ [.running i] }
  | store {i : ℕ} {o : O} :
      Moved s (.storing i o) .claiming { s with outputs := Function.update s.outputs i (some o) }
  | fail {e : Failure E} : Moved s (.failing e) .cancelling { s with failure := s.failure.or (some e) }
  | cancel : Moved s .cancelling .claiming { s with cancelled := true }
  | succeed {i : ℕ} {o : O} :
      Moved s (.executing i) (.storing i o) { s with log := s.log ++ [.ended i (.ok o) s.cancelled] }
  | give {i : ℕ} {e : Failure E} (h : e = .cancelled → s.cancelled = true) :
      Moved s (.executing i) (.failing e) { s with log := s.log ++ [.ended i (.error e) s.cancelled] }

variable {s next : State E O} {groups jobs : ℕ} {p p' : Point E O} {result : Except (Failure E) O} {e : Failure E}

lemma turn_moved (h : s.turn p = some (p', next)) : Moved s p p' next := by
  cases p with
  | claiming =>
    cases h
    split_ifs with hlt
    · exact .claim hlt
    · exact .retire (not_lt.mp hlt)
  | checking i =>
    simp only [State.turn] at h
    split_ifs at h with hc <;> cases h
    · exact .skip (Or.inl ⟨rfl, hc⟩)
    · exact .pass
  | locking i =>
    simp only [State.turn] at h
    split_ifs at h with hf <;> cases h
    · exact .skip (Or.inr ⟨rfl, Option.isSome_iff_ne_none.mp hf⟩)
    · exact .run
  | storing | failing | cancelling =>
    cases h
    constructor
  | executing | done => cases h

lemma returns_moved (h : s.returns result p = some (p', next)) : Moved s p p' next := by
  cases p with
  | executing i =>
    rcases result with (_ | e) | o
    · simp only [State.returns] at h
      split_ifs at h with hc
      cases h
      exact .give fun _ => hc
    · cases h
      exact .give nofun
    · cases h
      exact .succeed
  | claiming | checking | locking | storing | failing | cancelling | done => cases h

lemma Moved.going (h : Moved s p p' next) (hw : s.workers[w]? = some p) (hs : Going groups s) :
    Going groups { next with workers := s.workers.set w p' } := by
  have hp := mem_of_getElem? hw
  refine ⟨?_, fun ha => ?_, fun i => ?_, fun i => ?_, fun hf hc i hn hl ho => ?_, fun i o ho =>
    ?_, fun i o ho => ?_,
    ?_, fun hc => ?_, ?_, fun hc hf e he => ?_, fun i e c he hf => ?_, fun i he => ?_⟩
  · cases h <;> exact hs.bound
  · obtain rfl := ha p' (List.mem_set (List.getElem?_eq_some_iff.mp hw).1 p')
    cases h with
    | retire h => exact Nat.le_succ_of_le h
  · have hi := hs.ends i
    have hset := total_set (f := Point.holds i) (b := p') hw
    cases h <;> simp only [total_concat, Entry.ends, Point.holds, one] at hset ⊢ <;> grind [Point.holds, one]
  · have hi := hs.starts i
    have hset := total_set (f := Point.waits i) (b := p') hw
    cases h <;> simp only [total_concat, Entry.starts, Point.waits, one] at hset ⊢ <;> grind [Point.waits, one]
  · have hset := total_set (f := Point.carries i) (b := p') hw
    have hi := hs.kept
    cases h <;> simp only [Point.carries, one] at hset hf hc ho hn ⊢ <;> grind [Point.carries, one]
  · have hi := hs.outputs i
    cases h <;> simp only at ho ⊢ <;> grind [hs.storing]
  · have hi := hs.storing i
    have hm := mem_or_eq_of_mem_set ho
    cases h <;> simp only at hm ⊢ <;> grind
  · have hi := hs.cancelled
    have hj := hs.cancelling
    cases h <;> simp only <;> grind
  · have hi := hs.cancelling
    have hm := mem_or_eq_of_mem_set hc
    cases h <;> simp only <;> grind
  · have hi := hs.failure
    have hj := hs.failing
    cases h <;> simp only [Option.or_eq_some_iff] <;> grind
  · have hi := hs.failing
    have hj := hs.cancelled
    have hm := mem_or_eq_of_mem_set he
    cases h <;> simp only at hc hf hm ⊢ <;> grind
  · have hi := hs.lost
    have hset := total_set (f := Point.fails) (b := p') hw
    cases h <;> simp only [Point.fails] at hset he hf ⊢ <;> grind [Point.fails]
  · have hi := hs.honest
    cases h <;> simp only at he <;> grind

lemma result_cases : (∃ e, s.result = .error e ∧ (s.failure = some e ∨ s.failure = none ∧ s.cancelled = true)) ∨
    s.result = .ok ((List.range s.limit).filterMap s.outputs) ∧ s.failure = none ∧ s.cancelled = false := by
  unfold State.result
  cases s.failure with
  | some e => exact .inl ⟨e, rfl, .inl rfl⟩
  | none => cases s.cancelled <;> simp

structure Joined (s : State E O) (n : ℕ) : Prop where
  ends : ∀ i, total (Entry.ends i) s.log = if i < n then 1 else 0
  starts : ∀ i, total (Entry.starts i) s.log ≤ if i < n then 1 else 0
  full : s.failure = none → s.cancelled = false → ∀ i < n, ∃ o, s.outputs i = some o ∧
    ∃ c, .ended i (.ok o) c ∈ s.log
  failed : ∀ i e c, .ended i (.error e) c ∈ s.log → s.failure ≠ none

lemma Going.joined (h : Going groups s) (hd : ∀ p ∈ s.workers, p = .done) : Joined s s.limit := by
  have hl := h.all hd
  refine ⟨fun i => ?_, fun i => ?_, fun hf hc i hi => ?_, fun i e c he hf => ?_⟩
  · have hi := h.ends i
    rwa [total_idle hd rfl, min_eq_right hl] at hi
  · have hi := h.starts i
    rwa [total_idle hd rfl, min_eq_right hl] at hi
  · cases ho : s.outputs i with
    | none =>
      have hp := h.kept hf hc i (hi.trans_le hl) hi ho
      rw [total_idle hd rfl] at hp
      exact absurd hp (lt_irrefl 0)
    | some o => exact ⟨o, rfl, h.outputs i o ho⟩
  · have hp := h.lost i e c he hf
    rw [total_idle hd rfl] at hp
    exact absurd hp (lt_irrefl 0)

lemma Joined.going (h : Joined s s.next) (hj : 0 < jobs) (hle : s.next ≤ s.limit) (hb : s.limit ≤ groups)
    (hw : s.workers = List.replicate (min jobs (s.limit - s.next)) .claiming)
    (ho : ∀ i o, s.outputs i = some o → ∃ c, .ended i (.ok o) c ∈ s.log)
    (hc : s.called = false → s.cancelled = true → s.failure ≠ none)
    (hf : s.called = false → ∀ e, s.failure = some e → ∃ i, .ended i (.error e) false ∈ s.log)
    (hh : ∀ i, .ended i (.error .cancelled) false ∉ s.log) : Going groups s := by
  have hnew : ∀ p ∈ s.workers, p = .claiming := by
    rw [hw]
    exact fun p hp => eq_of_mem_replicate hp
  refine ⟨hb, fun ha => ?_, fun i => ?_, fun i => ?_, fun hf hc i hi _ hn => ?_, ho, fun i o hm => ?_,
    hc, fun hm => ?_, hf, fun _ _ e hm => ?_, fun i e c he hf => absurd hf (h.failed i e c he), hh⟩
  · by_contra hlt
    have hm : .claiming ∈ s.workers := by
      rw [hw]
      exact mem_replicate.mpr ⟨by omega, rfl⟩
    cases ha _ hm
  · rw [total_idle hnew rfl, min_eq_left hle]
    exact h.ends i
  · rw [total_idle hnew rfl, min_eq_left hle]
    exact h.starts i
  · obtain ⟨o, ho, -⟩ := h.full hf hc i hi
    rw [ho] at hn
    cases hn
  all_goals cases hnew _ hm

lemma join_sound (hj : 0 < jobs) (ho : s.outcome = none) (h : Going groups s) (hd : ∀ p ∈ s.workers, p = .done) :
    Sound groups (s.join groups jobs) := by
  obtain ⟨hen, hs, hfu, hfa⟩ := h.joined hd
  unfold State.join
  rcases @result_cases E O s with ⟨e, hr, hf⟩ | ⟨hr, hf, hc⟩
  · rw [hr]
    refine ⟨nofun, ?_⟩
    rintro _ ⟨rfl⟩
    refine ⟨fun i => ?_, fun i hi => ?_, nofun, fun hc i e' c he => ?_⟩
    · have hi := hs i
      have ht : total (Entry.starts i) ((List.range' s.limit (groups - s.limit)).map (.skipped : ℕ → Entry E O)) =
        0 := by
        simp [total, Entry.starts, Function.comp_def]
      rw [total_append, ht]
      split_ifs at hi <;> omega
    · rw [total_append, hen, total_skipped]
      grind
    · have hf : s.failure = some e := hf.resolve_right fun ⟨hf, hcan⟩ => h.cancelled hc hcan hf
      obtain ⟨j, hj⟩ := h.failure hc e hf
      cases e with
      | cancelled => exact absurd hj (h.honest j)
      | failed e => exact ⟨j, e, rfl, mem_append_left _ hj⟩
  · rw [hr]
    dsimp only
    split_ifs with hlt
    · refine ⟨fun _ => Joined.going ⟨hen, hs, hfu, hfa⟩ hj hlt.le le_rfl rfl h.outputs h.cancelled
        h.failure h.honest, fun r hr => ?_⟩
      rw [ho] at hr
      cases hr
    · obtain rfl : s.limit = groups := le_antisymm h.bound (not_lt.mp hlt)
      refine ⟨nofun, ?_⟩
      rintro _ ⟨rfl⟩
      refine ⟨fun i => (hs i).trans (by split_ifs <;> omega), fun i hi => ?_, ?_,
        fun _ i e c he => absurd hf (hfa i e c he)⟩
      · rw [hen, if_pos hi]
      · rintro _ ⟨rfl⟩
        exact forall₂_filterMap fun i hi => hfu hf hc i (mem_range.mp hi)

lemma move_sound {act : Point E O → Option (Point E O × State E O)} (ho : s.outcome = none) (h : Going groups s)
    (ha : ∀ p p' next, act p = some (p', next) → Moved s p p' next) (hs : s.move w act = some next) :
    Sound groups next := by
  obtain ⟨p, hw, hs⟩ := Option.bind_eq_some_iff.mp hs
  obtain ⟨⟨p', mid⟩, hp, hs⟩ := Option.bind_eq_some_iff.mp hs
  cases hs
  have hm := ha p p' mid hp
  refine ⟨fun _ => hm.going hw h, fun r hr => ?_⟩
  cases hm <;> exact absurd (ho.symm.trans hr) nofun

lemma step_sound {event : Event E O} {r : Unit} (hj : 0 < jobs) (h : Sound groups s)
    (hs : s.step groups jobs event = some (r, next)) : Sound groups next := by
  unfold State.step at hs
  split at hs
  · cases hs
  · rename_i ho
    have ho := Option.not_isSome_iff_eq_none.mp ho
    have hg := h.going ho
    cases event with
    | turn w =>
      obtain ⟨_, hs, heq⟩ := Option.map_eq_some_iff.mp hs
      cases heq
      exact move_sound ho hg (fun _ _ _ => turn_moved) hs
    | returns w result =>
      obtain ⟨_, hs, heq⟩ := Option.map_eq_some_iff.mp hs
      cases heq
      exact move_sound ho hg (fun _ _ _ => returns_moved) hs
    | join =>
      dsimp only at hs
      split_ifs at hs with hd
      cases hs
      refine join_sound hj ho hg fun p hp => ?_
      have hp := all_eq_true.mp hd p hp
      cases p <;> first | rfl | cases hp
    | cancel =>
      cases hs
      exact ⟨fun _ =>
        ⟨hg.bound, hg.all, hg.ends, hg.starts, nofun, hg.outputs, hg.storing, nofun, hg.cancelling, nofun,
        nofun, hg.lost, hg.honest⟩, fun r hr => absurd (ho.symm.trans hr) nofun⟩

lemma start_sound {builds : ℕ} {called : Bool} (hj : 0 < jobs) (hb : builds ≤ groups) :
    Sound groups (State.start builds jobs called : State E O) := by
  refine ⟨fun _ =>
    Joined.going ⟨fun i => rfl, fun i => le_rfl, fun _ _ i hi => absurd hi (Nat.not_lt_zero i), nofun⟩ hj
    (Nat.zero_le _) hb rfl nofun (fun hc hcan => absurd (hc.symm.trans hcan) nofun) nofun nofun, nofun⟩

theorem preparation_returns {groups builds jobs : ℕ} {called : Bool} {events : List (Event E O)}
    {answers : List Unit}
    {last : State E O} {r : Except (Failure E) (List O)} (hj : 0 < jobs) (hb : builds ≤ groups)
    (hr : Machine.run (State.step · groups jobs) (.start builds jobs called) events = some (answers, last))
    (ho : last.outcome = some r) : Returned groups last r :=
  (Machine.run_invariant (fun _ _ _ _ h hs => step_sound hj h hs) (start_sound hj hb) hr).returned r ho

theorem preparation_returns_build :
    ∃ last : State String ℕ, Returned 3 last (.error (.failed "broken")) ∧ last.log =
    [.running 0, .running 1, .ended 0 (.error (.failed "broken")) false,
      .ended 1 (.error .cancelled) true, .skipped 2] :=
  ⟨_, @preparation_returns String ℕ 3 2 2 false
    [.turn 0, .turn 1, .turn 0, .turn 1, .turn 0, .turn 1, .returns 0 (.error (.failed "broken")), .turn 0, .turn 0,
      .returns 1 (.error .cancelled), .turn 1, .turn 1, .turn 0, .turn 1, .join] _ _ _ Nat.two_pos
        (by decide) rfl rfl, rfl⟩

end Reiny.Launch.Preparing
