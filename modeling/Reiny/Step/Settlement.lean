import Reiny.Step.Flight

namespace Reiny.Step

open Std Lib Results Checked Lists Machine Maps List Session

structure Shut (s : Session) : Prop where
  queue : s.queue = []
  accepted : s.accepted = [] ∨ s.closed = true
  refuses : s.gate.stopped = true ∨ (∃ failure, s.gate.clock.phase = .faulted failure) ∨
    s.driver = .abandoned ∧ s.calls = ∅ ∧ s.accepted = []

variable {initial : Duration} {s s' : Session} {event : Event} {reply : Reply} {j : ℕ} {gate : Gate} {call : ℕ}

lemma Shut.calls (h : Shut s) (hc : s.driver = .abandoned → s.calls ≠ ∅) (calls : Map ℕ Pending) :
    Shut { s with calls := calls } := by
  refine ⟨h.queue, h.accepted, ?_⟩
  rcases h.refuses with hs | hf | ⟨ha, hn, -⟩
  · exact .inl hs
  · exact .inr (.inl hf)
  · exact absurd hn (hc ha)

lemma Shut.signalled (h : Shut s) (hst : s.gate.stopped = true → gate.stopped = true)
    (hc : gate.clock = s.gate.clock) (runs : List Run) : Shut { s with gate := gate, runs := runs } := by
  refine ⟨h.queue, h.accepted, ?_⟩
  rcases h.refuses with hs | ⟨failure, hp⟩ | ha
  · exact .inl (hst hs)
  · exact .inr (.inl ⟨failure, hc ▸ hp⟩)
  · exact .inr (.inr ha)

lemma Shut.accept (h : Shut s) (hinv : Inv initial s) (hf : Flight s) {start : Start} {run : Run}
    (hc : s.calls[call]? = some (.read start)) :
    s.gate.accept s.horizon s.now start ≠ .ok (some (gate, run)) := by
  intro ha
  obtain ⟨-, hst, -, -, hv, -⟩ := accept_ok ha
  rcases h.refuses with hs | ⟨failure, hp⟩ | ⟨-, hcs, -⟩
  · rw [hs] at hst
    cases hst
  · have hcl := (hinv.reads call start hc).2 hv.symm
    exact hf.reads call start hc failure (hcl ▸ hp)
  · rw [hcs, ExtTreeMap.getElem?_empty] at hc
    cases hc

lemma readGate_calls (s : Session) (call : ℕ) (request : StepRequest) (timeout : Option Duration) :
    ∃ calls, (s.readGate call request timeout).2 = { s with calls := calls } := by
  unfold readGate
  split <;> exact ⟨_, rfl⟩

lemma calling {calls : Map ℕ Pending} {pending : Pending} (h : calls[call]? = some pending) : calls ≠ ∅ := by
  rintro rfl
  rw [ExtTreeMap.getElem?_empty] at h
  cases h

lemma caller_shut (h : Shut s) (hinv : Inv initial s) (hf : Flight s) (hev : ¬ event.Driving)
    (hl' : s'.gate.lost = false) (hst : s.step event = some (reply, s')) : Shut s' := by
  cases event with
  | start call request timeout =>
    change s.start call request timeout = _ at hst
    unfold start at hst
    split_ifs at hst with hb
    · cases hst
      exact h
    · split at hst
      · cases hst
        exact h
      · obtain ⟨calls, hcs⟩ := readGate_calls s call request timeout
        rw [Option.some.inj hst] at hcs
        change s' = _ at hcs
        rw [hcs]
        exact h.calls (fun ha => absurd (Or.inr (.inr ha)) hb) calls
  | retry call =>
    change s.retry call = _ at hst
    unfold retry at hst
    split at hst
    · rename_i request timeout hc
      obtain ⟨calls, hcs⟩ := readGate_calls s call request timeout
      rw [Option.some.inj hst] at hcs
      change s' = _ at hcs
      rw [hcs]
      exact h.calls (fun _ => calling hc) calls
    · cases hst
  | accept call =>
    change s.accept call = _ at hst
    unfold accept at hst
    split at hst
    · rename_i start hc
      split at hst
      · cases hst
        exact h.calls (fun _ => calling hc) _
      · cases hst
        exact h.calls (fun _ => calling hc) _
      · rename_i hacc
        exact absurd hacc (h.accept hinv hf hc)
    · cases hst
  | handOver call =>
    change s.handOver call = _ at hst
    unfold handOver at hst
    split at hst
    · cases hst
    · rename_i pending hp
      dsimp only at hst
      split_ifs at hst with hcl
      · cases hst
        cases hl'
      · rcases h.accepted with hn | hcl'
        · rw [hn] at hp
          cases hp
        · exact absurd hcl' hcl
  | cancel j =>
    change s.cancel j = _ at hst
    unfold cancel at hst
    split at hst
    · cases hst
    · cases hst
      exact h.signalled (fun hs => hs) rfl _
  | stop =>
    cases hst
    exact h.signalled (fun hs => by unfold Gate.markStop; split_ifs <;> trivial) (Signalled.markStop s.gate).clock _
  | activate =>
    cases hst
    exact h.signalled (fun hs => (activate_signals s.gate).2 ▸ hs) (Signalled.activate s.gate).clock _
  | clock =>
    cases hst
    exact h
  | elapse nanos =>
    cases hst
    exact ⟨h.queue, h.accepted, h.refuses⟩
  | receive | drain | abandon | leave | begin | dispatch | answer | commit | interrupt | finish | halt | exit
  | abort => exact absurd trivial hev

lemma driving_shut (h : s.driver.Over → Shut s) (hinv : Inv initial s) (hl : s.gate.lost = false)
    (hev : event.Driving) (hl' : s'.gate.lost = false) (ho : s'.driver.Over)
    (hst : s.step event = some (reply, s')) : Shut s' := by
  cases event with
  | drain =>
    simp only [step, drain] at hst
    split at hst
    · split_ifs at hst
      split at hst
      · rename_i hq
        cases hst
        refine ⟨hq, .inr rfl, .inl ?_⟩
        simp only [Gate.markStop, hl, Bool.false_eq_true, if_false]
      · cases hst
        cases ho
    · cases hst
  | abandon =>
    simp only [step, abandon] at hst
    split at hst
    · rename_i hq hacc
      split_ifs at hst with hcs
      cases hst
      exact ⟨hq, .inl hacc, .inr (.inr ⟨rfl, hcs, hacc⟩)⟩
    · cases hst
  | leave =>
    simp only [step, leave] at hst
    split at hst
    · rename_i hdr
      split_ifs at hst with hstop
      cases hst
      have hsh := h (by rw [hdr]; trivial)
      rw [hl, Bool.or_false] at hstop
      exact ⟨hsh.queue, hsh.accepted, .inl hstop⟩
    · cases hst
  | finish =>
    simp only [step, finish] at hst
    split at hst
    · rename_i j failure hdr
      obtain ⟨run, hr, hst⟩ := Option.bind_eq_some_iff.mp hst
      cases hst
      have hfl := hinv.flight hl
      rw [tokens, hdr] at hfl
      obtain ⟨hacc, hq, -⟩ := tokens_held hfl
      refine ⟨hq, .inl hacc, .inr (.inl ⟨failure, ?_⟩)⟩
      simp only [Gate.finish, hl, Bool.false_eq_true, if_false]
      rfl
    · obtain ⟨run, hr, hst⟩ := Option.bind_eq_some_iff.mp hst
      cases hst
      cases ho
    · cases hst
  | halt =>
    simp only [step, halt] at hst
    split at hst
    · rename_i hdr
      cases hst
      have hsh := h (by rw [hdr]; trivial)
      refine ⟨hsh.queue, hsh.accepted, .inl ?_⟩
      simp only [Gate.markStop, hl, Bool.false_eq_true, if_false]
    · cases hst
  | exit =>
    simp only [step, exit] at hst
    split at hst
    · rename_i hdr
      cases hst
      have hsh := h (by rw [hdr]; trivial)
      refine ⟨hsh.queue, .inr rfl, ?_⟩
      rcases hsh.refuses with hs | hf | ⟨ha, -⟩
      · exact .inl hs
      · exact .inr (.inl hf)
      · rw [hdr] at ha
        cases ha
    · cases hst
  | interrupt =>
    rcases interrupt_driver hst with ⟨_, _, hd⟩ | ⟨_, _, hd, -⟩ <;> rw [hd] at ho <;> cases ho
  | receive | begin | dispatch | answer | commit | abort =>
    simp only [step, receive, begin, dispatch, answer, commit,
      abort] at hst
    repeat' split at hst
    all_goals cases hst
    all_goals first
      | cases hl'
      | cases ho
  | start | retry | accept | handOver | cancel | stop | activate | clock | elapse => exact absurd hev id

lemma step_shut (h : s.gate.lost = false → s.driver.Over → Shut s) (hs : Sound initial s)
    (hst : s.step event = some (reply, s')) (hl' : s'.gate.lost = false) (ho : s'.driver.Over) : Shut s' := by
  have hl : s.gate.lost = false := by
    by_contra hnot
    rw [(step_move hst).kept.lost (by simpa using hnot)] at hl'
    cases hl'
  by_cases hev : event.Driving
  · exact driving_shut (h hl) hs.inv hl hev hl' ho hst
  · rw [(step_caller hev hst).1] at ho
    exact caller_shut (h hl ho) hs.inv hs.flight hev hl' hst

variable {run : Run}

lemma Move.frozen (h : Move s reply s') (hl : s.gate.lost = true) (hrun : s.runs[j]? = some run) :
    ∃ run', s'.runs[j]? = some run' ∧ run'.result = run.result ∧ run'.tick = run.tick := by
  cases h with
  | accept _ _ _ _ _ ha =>
    rw [(accept_ok ha).1] at hl
    cases hl
  | commit _ _ _ _ _ _ _ _ hc =>
    rw [(commit_ok hc).1] at hl
    cases hl
  | cancel k found hf =>
    obtain ⟨-, ht, hr⟩ := cancel_run s.gate found
    rw [getElem?_set]
    split_ifs with hjk hlt
    · subst hjk
      rw [hrun] at hf
      cases hf
      exact ⟨_, rfl, hr, ht⟩
    · subst hjk
      exact absurd (List.getElem?_eq_some_iff.mp hrun).1 hlt
    · exact ⟨run, hrun, rfl, rfl⟩
  | finish k found error phase driver _ _ hf =>
    rw [getElem?_set]
    simp only [Gate.finish, hl, if_true]
    split_ifs with hjk hlt
    · subst hjk
      rw [hrun] at hf
      cases hf
      exact ⟨run, rfl, rfl, rfl⟩
    · subst hjk
      exact absurd (List.getElem?_eq_some_iff.mp hrun).1 hlt
    · exact ⟨run, hrun, rfl, rfl⟩
  | _ => exact ⟨run, hrun, rfl, rfl⟩

lemma step_retained {result : RunResult} (h : s.retained j = some result) (hs : s.step event = some (reply, s')) :
    s'.retained j = some result := by
  have hm := step_move hs
  obtain ⟨run, hrun, hr⟩ := Option.bind_eq_some_iff.mp h
  cases hset : run.result with
  | some found =>
    rw [hset] at hr
    cases hr
    exact hm.kept.retained hrun hset
  | none =>
    rw [hset, Option.none_or] at hr
    split_ifs at hr with hl
    obtain ⟨run', hr', hsa, ht⟩ := hm.frozen hl hrun
    rw [retained, hr', Option.bind_some, hsa, hset, Option.none_or, if_pos (hm.kept.lost hl), ht]
    exact hr

lemma retained_none (hr : s.runs[j]? = some run) :
    s.retained j = none ↔ run.result = none ∧ s.gate.lost = false := by
  rw [retained, hr, Option.bind_some, Option.or_eq_none_iff]
  cases s.gate.lost <;> simp

lemma Flight.one_pending (h : Flight s) {i : ℕ} (hi : i < s.runs.length) (hj : j < s.runs.length)
    (hni : s.retained i = none) (hnj : s.retained j = none) : i = j := by
  have ha : ∀ k, k < s.runs.length → s.retained k = none → s.gate.active.map (·.sequence) = some k := by
    intro k hk hn
    have hrun := getElem?_eq_getElem hk
    obtain ⟨hr, hl⟩ := (retained_none hrun).mp hn
    refine (h.pending k _ hrun hr).resolve_left ?_
    rw [hl]
    exact nofun
  exact Option.some.inj ((ha i hi hni).symm.trans (ha j hj hnj))

lemma Shut.stranded (h : Shut s) (hs : Sound initial s) (ho : s.driver.Over) (hj : j < s.runs.length)
    (hn : s.retained j = none) : s.closed = true ∧ ∃ pending ∈ s.accepted, pending.run = j := by
  have hrun := getElem?_eq_getElem hj
  obtain ⟨hr, hl⟩ := (retained_none hrun).mp hn
  have ha := (hs.flight.pending j _ hrun hr).resolve_left (by rw [hl]; exact nofun)
  have ht := hs.inv.flight hl
  rw [tokens, tokensOf, h.queue, ho.run, ha] at ht
  have hm : j ∈ s.accepted.map (·.run) := by
    simp only [map_nil, append_nil, Option.toList_none, Option.toList_some] at ht
    rw [ht]
    exact mem_singleton_self j
  obtain ⟨pending, hp, hj⟩ := mem_map.mp hm
  refine ⟨h.accepted.resolve_left ?_, pending, hp, hj⟩
  intro he
  rw [he] at hp
  cases hp

lemma handOver_closed (hcl : s.closed = true) {pending : Handover} (hp : pending ∈ s.accepted) :
    ∃ s', s.step (.handOver pending.call) = some (.started (.error .supervisorGone), s') ∧ s'.gate.lost = true := by
  obtain ⟨found, hf⟩ : ∃ found, s.accepted.find? (·.call == pending.call) = some found := by
    rw [← Option.isSome_iff_exists, find?_isSome]
    exact ⟨pending, hp, by simp⟩
  simp only [step, handOver, hf, hcl, if_true]
  exact ⟨_, rfl, rfl⟩

lemma new_sound {graph : StepGraph} {epochs next : ℕ} {scheduler : StepScheduler}
    (h : StepScheduler.new graph initial epochs = .ok (scheduler, next)) (isLocal : Bool) (horizon : ℕ) :
    Sound initial (new scheduler isLocal horizon) := by
  obtain ⟨plan, -, h⟩ := bind_ok.mp h
  obtain ⟨_, -, h⟩ := bind_ok.mp h
  cases pure_ok.mp h
  exact ⟨new_inv isLocal horizon rfl rfl, new_flight isLocal horizon rfl⟩

def Given (replies : List Reply) (s : Session) : Prop := ∀ j, .started (.ok j) ∈ replies →
  j < s.runs.length ∧ (s.gate.lost = false → ∀ pending ∈ s.accepted, pending.run ≠ j)

lemma step_started (h : s.step event = some (.started (.ok j), s')) : ∃ call pending,
    s.accepted.find? (·.call == call) = some pending ∧ pending.run = j ∧
      s' = { s with
        accepted := s.accepted.filter (·.call != call)
        queue := s.queue ++ [(pending.run, pending.request)] } := by
  cases event with
  | handOver call =>
    change s.handOver call = _ at h
    unfold handOver at h
    split at h
    · cases h
    · rename_i pending hp
      dsimp only at h
      split_ifs at h
      · cases h
      · cases h
        exact ⟨call, pending, hp, rfl, rfl⟩
  | interrupt =>
    simp only [step, interrupt] at h
    split at h
    · obtain ⟨_, -, h⟩ := Option.bind_eq_some_iff.mp h
      obtain ⟨_, -, h⟩ := Option.bind_eq_some_iff.mp h
      cases h
    · obtain ⟨_, -, h⟩ := Option.bind_eq_some_iff.mp h
      obtain ⟨_, -, h⟩ := Option.bind_eq_some_iff.mp h
      cases h
    · cases h
  | finish =>
    simp only [step, finish] at h
    split at h
    · obtain ⟨_, -, h⟩ := Option.bind_eq_some_iff.mp h
      cases h
    · obtain ⟨_, -, h⟩ := Option.bind_eq_some_iff.mp h
      cases h
    · cases h
  | start | retry | accept | cancel | stop | activate | clock | elapse | receive | drain | abandon | leave | begin
  | dispatch | answer | commit | halt | exit | abort =>
    simp only [step, start, retry, readGate, accept, cancel,
      receive, drain, abandon, leave, begin, dispatch, answer,
      commit, halt, exit, abort] at h
    repeat' split at h
    all_goals cases h

lemma step_given {replies : List Reply} (h : Given replies s) (hs : Sound initial s)
    (hst : s.step event = some (reply, s')) : Given (replies ++ [reply]) s' := by
  have hmo := step_move hst
  have hl : s'.gate.lost = false → s.gate.lost = false := by
    intro hl'
    by_contra hnot
    rw [hmo.kept.lost (by simpa using hnot)] at hl'
    cases hl'
  intro j hj
  by_cases hrep : reply = .started (.ok j)
  · subst hrep
    obtain ⟨call, pending, hp, rfl, rfl⟩ := step_started hst
    have hm := mem_of_find?_eq_some hp
    have ht : pending.run ∈ s.tokens := by
      simp only [tokens, tokensOf, mem_append, mem_map]
      exact .inl (.inl ⟨pending, hm, rfl⟩)
    have hla := (hs.inv.held pending.run ht).1
    refine ⟨show pending.run < s.runs.length by omega, ?_⟩
    intro hl'
    obtain ⟨hacc, -⟩ := tokens_accepted (hs.inv.flight (hl hl')) hm
    have hc : pending.call = call := by simpa using find?_some hp
    simp [hacc, hc]
  · have hold : .started (.ok j) ∈ replies := by
      refine (mem_append.mp hj).resolve_right ?_
      rw [mem_singleton]
      exact fun heq => hrep heq.symm
    obtain ⟨hlt, ho⟩ := h j hold
    refine ⟨?_, ?_⟩
    · obtain ⟨run, hr, -⟩ := hmo.kept.runs j _ (getElem?_eq_getElem hlt)
      exact (List.getElem?_eq_some_iff.mp hr).1
    · intro hl'
      have ho := ho (hl hl')
      cases hmo with
      | handOver call pending hp => exact fun other hm => ho other (mem_of_mem_filter hm)
      | accept call start gate run hc ha =>
        obtain ⟨-, -, -, hseq, -, deadline, hr, -⟩ := accept_ok ha
        intro pending hp
        rcases mem_append.mp hp with hb | hn
        · exact ho pending hb
        · cases mem_singleton.mp hn
          have hcnt := hs.inv.count
          rw [hr]
          change start.sequence ≠ j
          omega
      | strand => cases hl'
      | _ => exact ho

theorem runs_settled {graph : StepGraph} {epochs next : ℕ} {scheduler : StepScheduler}
    (hnew : StepScheduler.new graph initial epochs = .ok (scheduler, next)) (isLocal : Bool) (horizon : ℕ)
    {events : List Event} {replies : List Reply}
    (hrun : (new scheduler isLocal horizon).run events = some (replies, s)) :
    (∀ i j, i < s.runs.length → j < s.runs.length → s.retained i = none → s.retained j = none → i = j) ∧
    (∀ j result, s.retained j = some result → ∀ events replies later, s.run events = some (replies, later) →
      later.retained j = some result) ∧
    (s.driver = .returned ∨ s.driver = .gone →
      (∀ j, .started (.ok j) ∈ replies → (s.retained j).isSome = true) ∧
      ∀ j, j < s.runs.length → s.retained j = none → ∃ pending ∈ s.accepted, pending.run = j ∧
        ∃ last, s.step (.handOver pending.call) = some (.started (.error .supervisorGone), last) ∧
          last.gate.lost = true) := by
  have hk := run_history
    (P := fun replies s => Sound initial s ∧ (s.gate.lost = false → s.driver.Over → Shut s) ∧ Given replies s)
    (fun _ _ _ _ _ h hstep => ⟨step_sound h.1 hstep, step_shut h.2.1 h.1 hstep, step_given h.2.2 h.1 hstep⟩)
    ⟨new_sound hnew isLocal horizon, fun _ hov => hov.elim, fun _ hm => absurd hm not_mem_nil⟩ hrun
  rw [nil_append] at hk
  obtain ⟨hs, hsh, hg⟩ := hk
  refine ⟨fun i j => hs.flight.one_pending, ?_, ?_⟩
  · intro j result hr later replies' s' hla
    exact run_invariant (P := fun s => s.retained j = some result) (fun _ _ _ _ h hstep => step_retained h hstep)
      hr hla
  · intro he
    have hov : s.driver.Over := by
      rcases he with h | h <;> rw [h] <;> trivial
    have hstranded : ∀ j, j < s.runs.length → s.retained j = none →
        s.gate.lost = false ∧ s.closed = true ∧ ∃ pending ∈ s.accepted, pending.run = j := by
      intro j hj hn
      have hl := ((retained_none (getElem?_eq_getElem hj)).mp hn).2
      exact ⟨hl, (hsh hl hov).stranded hs hov hj hn⟩
    refine ⟨?_, ?_⟩
    · intro j hst
      rw [Option.isSome_iff_ne_none]
      intro hn
      obtain ⟨hj, ho⟩ := hg j hst
      obtain ⟨hl, -, pending, hp, hrun⟩ := hstranded j hj hn
      exact ho hl pending hp hrun
    · intro j hj hn
      obtain ⟨-, hcl, pending, hp, hrun⟩ := hstranded j hj hn
      exact ⟨pending, hp, hrun, handOver_closed hcl hp⟩

def loopStranded : List Event :=
  [.activate, .start 0 (loopRequest 1) (some (.ofNanos 100)), .accept 0, .stop, .drain, .exit]

theorem runs_settled_loop : ∃ replies s, loopSession.run loopStranded = some (replies, s) ∧ s.driver = .gone ∧
    s.retained 0 = none ∧ ∃ pending ∈ s.accepted, pending.run = 0 ∧
      ∃ last, s.step (.handOver pending.call) = some (.started (.error .supervisorGone), last) ∧
        last.gate.lost = true := by
  have hnew : StepScheduler.new loopGraph .zero 3 = .ok (loopStart, 4) := by decide +kernel
  have hs : (loopSession.run loopStranded).map (fun result =>
      (result.2.driver, result.2.runs.length, result.2.retained 0)) = some (.gone, 1, none) := by decide +kernel
  obtain ⟨⟨replies, s⟩, hr, hs⟩ := Option.map_eq_some_iff.mp hs
  simp only [Prod.mk.injEq] at hs
  obtain ⟨hd, hl, hn⟩ := hs
  have he := (runs_settled hnew false 1000 hr).2.2 (Or.inr hd)
  exact ⟨replies, s, hr, hd, hn, he.2 0 (by omega) hn⟩

end Reiny.Step
