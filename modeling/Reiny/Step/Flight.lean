import Reiny.Step.CommitHistory

/-! The one run in flight: who holds it, and that none is admitted once the epoch is faulted or the supervisor
is gone. -/

namespace Reiny.Step

open Std Lib Results Checked Lists Machine Maps List Option Session

def Driver.Over : Driver → Prop
  | .abandoned | .stopping | .returned | .gone => True
  | .waiting | .taken _ _ | .running _ _ _ _ | .failing _ _ | .ending _ _ => False

def Event.Driving : Event → Prop
  | .receive | .drain | .abandon | .leave | .begin | .dispatch | .answer _ _ | .commit | .interrupt | .finish
  | .halt | .exit | .abort => True
  | .start _ _ _ | .retry _ | .accept _ | .handOver _ | .cancel _ | .stop | .activate | .clock | .elapse _ => False

variable {s s' : Session} {event : Event} {reply : Reply} {j : ℕ} {adv : Advance}
  {rest : List String} {inst : String}

lemma Driver.Over.run {driver : Driver} (h : driver.Over) : driver.run = none := by
  cases driver with
  | taken | running | failing | ending => cases h
  | waiting | abandoned | stopping | returned | gone => rfl

lemma readGate_driver (s : Session) (call : ℕ) (request : StepRequest) (timeout : Option Duration) :
    (s.readGate call request timeout).2.driver = s.driver ∧
      (s.readGate call request timeout).2.scheduler = s.scheduler := by
  unfold readGate
  split <;> exact ⟨rfl, rfl⟩

lemma step_caller (hev : ¬ event.Driving) (h : s.step event = some (reply, s')) :
    s'.driver = s.driver ∧ s'.scheduler = s.scheduler := by
  cases event with
  | start call request timeout =>
    change s.start call request timeout = _ at h
    unfold start at h
    split_ifs at h
    · cases h
      exact ⟨rfl, rfl⟩
    · split at h
      · cases h
        exact ⟨rfl, rfl⟩
      · have hr := readGate_driver s call request timeout
        rwa [Option.some.inj h] at hr
  | retry call =>
    change s.retry call = _ at h
    unfold retry at h
    split at h
    · rename_i request timeout _
      have hr := readGate_driver s call request timeout
      rwa [Option.some.inj h] at hr
    · cases h
  | accept call =>
    change s.accept call = _ at h
    unfold accept at h
    split at h
    · split at h <;> cases h <;> exact ⟨rfl, rfl⟩
    · cases h
  | handOver call =>
    change s.handOver call = _ at h
    unfold handOver at h
    split at h
    · cases h
    · dsimp only at h
      split_ifs at h <;> cases h <;> exact ⟨rfl, rfl⟩
  | cancel j =>
    change s.cancel j = _ at h
    unfold cancel at h
    split at h
    · cases h
    · cases h
      exact ⟨rfl, rfl⟩
  | stop | activate | clock | elapse =>
    cases h
    exact ⟨rfl, rfl⟩
  | receive | drain | abandon | leave | begin | dispatch | answer | commit | interrupt | finish | halt | exit
  | abort => exact absurd trivial hev

lemma interruptRun_driver (s : Session) (j : ℕ) (run : Run) (kind : StepFailureKind) :
    (∃ failure, (s.interruptRun j run kind).driver = .failing j failure) ∨
      (s.interruptRun j run kind).driver = .ending j (beforeDispatch run kind) ∧
        (s.interruptRun j run kind).scheduler.fault = none := by
  unfold interruptRun StepScheduler.interrupted
  cases hf : s.scheduler.fault with
  | some failure => exact .inl ⟨_, rfl⟩
  | none => exact .inr ⟨rfl, hf⟩

lemma interruptRun_gate (s : Session) (j : ℕ) (run : Run) (kind : StepFailureKind) :
    (s.interruptRun j run kind).gate = s.gate := by
  unfold interruptRun
  split <;> rfl

lemma interrupt_run (h : s.interrupt = some (reply, s')) :
    ∃ scheduler j run kind, s' = interruptRun { s with scheduler } j run kind := by
  unfold interrupt at h
  split at h
  · obtain ⟨run, -, h⟩ := bind_eq_some_iff.mp h
    obtain ⟨kind, -, h⟩ := bind_eq_some_iff.mp h
    cases h
    exact ⟨s.scheduler, _, run, kind, rfl⟩
  · obtain ⟨run, -, h⟩ := bind_eq_some_iff.mp h
    obtain ⟨kind, -, h⟩ := bind_eq_some_iff.mp h
    cases h
    exact ⟨_, _, run, kind, rfl⟩
  · cases h

lemma interrupt_gate (h : s.interrupt = some (reply, s')) : s'.gate = s.gate := by
  obtain ⟨_, j, run, kind, rfl⟩ := interrupt_run h
  exact interruptRun_gate _ j run kind

lemma interrupt_driver (h : s.interrupt = some (reply, s')) :
    (∃ j failure, s'.driver = .failing j failure) ∨
      ∃ j error, s'.driver = .ending j error ∧ s'.scheduler.fault = none := by
  obtain ⟨_, j, run, kind, rfl⟩ := interrupt_run h
  rcases interruptRun_driver _ j run kind with ⟨failure, hd⟩ | ⟨hd, hf⟩
  · exact .inl ⟨j, failure, hd⟩
  · exact .inr ⟨j, _, hd, hf⟩

lemma step_unheld (hn : s.driver.run = none) (h : s.step event = some (reply, s')) :
    s'.driver = s.driver ∨ s'.driver.Over ∨ s.driver = .waiting ∧ s.queue ≠ [] := by
  by_cases hev : event.Driving
  · cases event with
    | receive =>
      simp only [step, receive] at h
      split at h
      · rename_i hd hq
        exact .inr (.inr ⟨hd, by rw [hq]; exact cons_ne_nil _ _⟩)
      · cases h
    | drain =>
      simp only [step, drain] at h
      split at h
      · rename_i hd
        split_ifs at h
        split at h
        · cases h
          exact .inr (.inl trivial)
        · rename_i hq
          exact .inr (.inr ⟨hd, by rw [hq]; exact cons_ne_nil _ _⟩)
      · cases h
    | abandon =>
      simp only [step, abandon] at h
      split at h
      · split_ifs at h
        cases h
        exact .inr (.inl trivial)
      · cases h
    | leave =>
      simp only [step, leave] at h
      split at h
      · split_ifs at h
        cases h
        exact .inr (.inl trivial)
      · cases h
    | halt | exit | abort =>
      simp only [step, halt, exit, abort] at h
      split at h
      all_goals first
        | cases h
          exact .inr (.inl trivial)
        | cases h
    | begin | dispatch | answer | commit | interrupt | finish =>
      simp only [step, begin, dispatch, answer, commit, interrupt,
        finish] at h
      split at h
      all_goals first
        | rename_i hd
          rw [hd] at hn
          cases hn
        | cases h
    | start | retry | accept | handOver | cancel | stop | activate | clock | elapse => exact absurd hev id
  · exact .inl (step_caller hev h).1

lemma step_over (ho : s.driver.Over) (h : s.step event = some (reply, s')) : s'.driver.Over := by
  rcases step_unheld ho.run h with hs | ho' | hw
  · rw [hs]
    exact ho
  · exact ho'
  · rw [hw.1] at ho
    cases ho

lemma step_awaiting (hdriver : s.driver = .running j adv rest (some inst))
    (hev : ∀ outcome override, event ≠ .answer outcome override) (h : s.step event = some (reply, s')) :
    s'.driver = s.driver ∧ s'.scheduler = s.scheduler ∨
      ∀ k adv' rest' awaiting, s'.driver ≠ .running k adv' rest' awaiting := by
  by_cases hdr : event.Driving
  · right
    intro k adv' rest' awaiting
    cases event with
    | interrupt =>
      rcases interrupt_driver h with ⟨_, _, hd⟩ | ⟨_, _, hd, -⟩ <;> rw [hd] <;> simp
    | abort =>
      simp only [step, abort, hdriver] at h
      cases h
      exact nofun
    | answer outcome override => exact absurd rfl (hev outcome override)
    | receive | drain | abandon | leave | begin | dispatch | commit | finish | halt | exit =>
      simp only [step, receive, drain, abandon, leave, begin,
        dispatch, commit, finish, halt, exit, hdriver, reduceCtorEq] at h
    | start | retry | accept | handOver | cancel | stop | activate | clock | elapse => exact absurd hdr id
  · exact .inl (step_caller hdr h)

lemma step_ending {error : StepRunError} (hdriver : s'.driver = .ending j error)
    (h : s.step event = some (reply, s')) :
    s'.scheduler.fault = none ∨ s'.driver = s.driver ∧ s'.scheduler = s.scheduler := by
  by_cases hdr : event.Driving
  · cases event with
    | interrupt =>
      rcases interrupt_driver h with ⟨_, _, hd⟩ | ⟨_, _, hd, hf⟩
      · rw [hd] at hdriver
        cases hdriver
      · exact .inl hf
    | drain =>
      simp only [step, drain] at h
      split at h
      · split_ifs at h
        split at h <;> cases h <;> cases hdriver
      · cases h
    | finish =>
      simp only [step, finish] at h
      split at h
      · obtain ⟨run, -, h⟩ := bind_eq_some_iff.mp h
        cases h
        cases hdriver
      · obtain ⟨run, -, h⟩ := bind_eq_some_iff.mp h
        cases h
        cases hdriver
      · cases h
    | receive | abandon | leave | begin | dispatch | answer | commit | halt | exit | abort =>
      simp only [step, receive, abandon, leave, begin,
        dispatch, answer, commit, halt, exit, abort] at h
      repeat' split at h
      all_goals cases h
      all_goals cases hdriver
    | start | retry | accept | handOver | cancel | stop | activate | clock | elapse => exact absurd hdr id
  · exact .inr (step_caller hdr h)

lemma finish_failing {failure : StepFailure} (hd : s.driver = .failing j failure)
    (h : s.step event = some (reply, s')) :
    s'.driver = s.driver ∨ s'.gate.lost = true ∨
      s'.driver.Over ∧ ∃ fault, s'.gate.clock.phase = .faulted fault := by
  by_cases hdr : event.Driving
  · right
    cases event with
    | finish =>
      simp only [step, finish, hd] at h
      obtain ⟨run, -, h⟩ := bind_eq_some_iff.mp h
      cases h
      cases hl : s.gate.lost with
      | true =>
        refine .inl ?_
        simp only [Gate.finish, hl, if_true]
      | false =>
        refine .inr ⟨trivial, failure, ?_⟩
        simp only [Gate.finish, hl, Bool.false_eq_true, if_false]
        rfl
    | abort =>
      simp only [step, abort, hd] at h
      cases h
      exact .inl rfl
    | receive | drain | abandon | leave | begin | dispatch | answer | commit | interrupt | halt | exit =>
      simp only [step, receive, drain, abandon, leave, begin,
        dispatch, answer, commit, interrupt, halt, exit, hd,
        reduceCtorEq] at h
    | start | retry | accept | handOver | cancel | stop | activate | clock | elapse => exact absurd hdr id
  · exact .inl (step_caller hdr h).1

structure Flight (s : Session) : Prop where
  calm : s.gate.lost = true → s.driver.Over ∨ s.driver = .waiting ∧ s.accepted = [] ∧ s.queue = []
  pending : ∀ (j : ℕ) run, s.runs[j]? = some run → run.result = none →
    s.gate.lost = true ∨ s.gate.active.map (·.sequence) = some j
  faulted : s.scheduler.fault.isSome = true → s.gate.lost = true ∨ (∃ j failure, s.driver = .failing j failure) ∨
    s.driver.Over ∧ ∃ failure, s.gate.clock.phase = .faulted failure
  ending : ∀ j error, s.driver = .ending j error → s.scheduler.fault = none
  reads : ∀ (c : ℕ) start, s.calls[c]? = some (.read start) → ∀ failure, start.clock.phase ≠ .faulted failure

variable {initial : Duration} {start : Start} {gate : Gate}

lemma Flight.accepts (h : Flight s) (hinv : Inv initial s) {call : ℕ} {run : Run}
    (hc : s.calls[call]? = some (.read start))
    (hacc : s.gate.accept s.horizon s.now start = .ok (some (gate, run))) : s.scheduler.fault = none := by
  obtain ⟨hlo, -, ha, -, hv, -⟩ := accept_ok hacc
  by_contra hf
  rcases h.faulted (isSome_iff_ne_none.mpr hf) with hl | ⟨j, failure, hd⟩ | ⟨-, failure, hp⟩
  · rw [hlo] at hl
    cases hl
  · have hh := (hinv.idle hlo ha).2.2
    rw [hd] at hh
    cases hh
  · have hcl := (hinv.reads call start hc).2 hv.symm
    exact h.reads call start hc failure (hcl ▸ hp)

lemma read_phase {plan : Plan} {request : StepRequest} {timeout : Option Duration}
    (h : gate.read plan request timeout = .ok start) (failure : StepFailure) :
    start.clock.phase ≠ .faulted failure := by
  obtain ⟨rfl, -⟩ := read_ok h
  obtain ⟨-, h⟩ := ensure_bind_ok.mp h
  obtain ⟨_, hp, -⟩ := bind_ok.mp h
  intro hf
  change gate.clock.phase = _ at hf
  rw [hf] at hp
  cases hp

lemma step_reads (h : Flight s) (hs : s.step event = some (reply, s')) (c : ℕ) (start : Start)
    (hc : s'.calls[c]? = some (.read start)) (failure : StepFailure) : start.clock.phase ≠ .faulted failure := by
  cases step_move hs with
  | idle _ _ _ _ hcs => exact h.reads c start (hcs c start hc) failure
  | read call request timeout other hr =>
    rcases of_insert hc with ⟨-, ⟨⟩⟩ | ⟨-, hc⟩
    · exact read_phase hr failure
    · exact h.reads c start hc failure
  | accept => exact h.reads c start (erase_read hc) failure
  | _ => exact h.reads c start hc failure

lemma step_loses (hl : s.gate.lost = false) (hl' : s'.gate.lost = true) (h : s.step event = some (reply, s')) :
    s'.driver.Over ∨ ∃ call, event = .handOver call := by
  have hk : s'.gate.lost = s.gate.lost → s'.driver.Over ∨ ∃ call, event = .handOver call := by
    intro hs
    rw [hs, hl] at hl'
    cases hl'
  cases event with
  | handOver call => exact .inr ⟨call, rfl⟩
  | accept call =>
    simp only [step, accept] at h
    split at h
    · split at h
      · cases h
        exact hk rfl
      · cases h
        exact hk rfl
      · rename_i ha
        cases h
        obtain ⟨-, -, -, -, -, _, -, rfl⟩ := accept_ok ha
        exact hk rfl
    · cases h
  | drain =>
    simp only [step, drain] at h
    split at h
    · split_ifs at h
      split at h <;> cases h <;> exact hk markStop_lost
    · cases h
  | stop =>
    cases h
    exact hk markStop_lost
  | activate =>
    cases h
    exact hk (activate_signals s.gate).1
  | commit =>
    simp only [step, commit] at h
    repeat' split at h
    all_goals cases h
    · exact .inl trivial
    · exact hk rfl
    · rename_i hc
      obtain ⟨-, -, -, rfl, -⟩ := commit_ok hc
      exact hk rfl
  | interrupt => exact hk (congrArg Gate.lost (interrupt_gate h))
  | finish =>
    simp only [step, finish] at h
    split at h
    · obtain ⟨run, -, h⟩ := bind_eq_some_iff.mp h
      cases h
      exact hk (finish_gate _ _ _ _).1
    · obtain ⟨run, -, h⟩ := bind_eq_some_iff.mp h
      cases h
      exact hk (finish_gate _ _ _ _).1
    · cases h
  | halt =>
    simp only [step, halt] at h
    split at h
    · cases h
      exact .inl trivial
    · cases h
  | start | retry | cancel | clock | elapse | receive | abandon | leave | begin | dispatch | answer
  | exit | abort =>
    simp only [step, start, retry, readGate, cancel, receive,
      abandon, leave, begin, dispatch, answer, exit,
      abort] at h
    repeat' split at h
    all_goals cases h
    all_goals first
      | exact hk rfl
      | exact .inl trivial

section

variable (h : Flight s) (hinv : Inv initial s) (hs : s.step event = some (reply, s'))

include h hinv hs

lemma step_calm (hl' : s'.gate.lost = true) :
    s'.driver.Over ∨ s'.driver = .waiting ∧ s'.accepted = [] ∧ s'.queue = [] := by
  have hm := step_move hs
  cases hl : s.gate.lost with
  | true =>
    rcases h.calm hl with ho | ⟨hw, hacc, hq⟩
    · exact .inl (step_over ho hs)
    · have hn : s.driver.run = none := by rw [hw]; rfl
      rcases step_unheld hn hs with hsa | ho | ⟨-, hne⟩
      · refine .inr ⟨hsa.trans hw, ?_⟩
        cases hm with
        | accept _ _ _ _ _ ha =>
          rw [(accept_ok ha).1] at hl
          cases hl
        | handOver _ _ hp =>
          rw [hacc] at hp
          cases hp
        | strand =>
          rw [hacc]
          exact ⟨rfl, hq⟩
        | take _ _ _ _ _ _ he =>
          rw [hq] at he
          cases he
        | _ => exact ⟨hacc, hq⟩
      · exact .inl ho
      · exact absurd hq hne
  | false =>
    rcases step_loses hl hl' hs with ho | ⟨call, rfl⟩
    · exact .inl ho
    · simp only [step, handOver] at hs
      split at hs
      · cases hs
      · rename_i pending hp
        have hc : pending.call = call := by simpa using find?_some hp
        obtain ⟨hacc, hq, hh, -⟩ := tokens_accepted (hinv.flight hl) (mem_of_find?_eq_some hp)
        split_ifs at hs
        · cases hs
          cases hd : s.driver with
          | taken | running | failing | ending =>
            rw [hd] at hh
            cases hh
          | waiting => exact .inr ⟨rfl, by simp [hacc, hc], hq⟩
          | abandoned | stopping | returned | gone => exact .inl trivial
        · cases hs
          rw [hl] at hl'
          cases hl'

lemma step_pending (i : ℕ) (run' : Run) (hr' : s'.runs[i]? = some run') (hn : run'.result = none) :
    s'.gate.lost = true ∨ s'.gate.active.map (·.sequence) = some i := by
  have hh : ∀ j, s.gate.lost = false → s.driver.run = some j → s.gate.active.map (·.sequence) = some j := by
    intro j hlo hdr
    have hf := hinv.flight hlo
    rw [tokens, hdr] at hf
    exact (tokens_held hf).2.2
  -- once the run of the driver has its result, no other is without one
  have hdo : ∀ j run (done : Run), s.gate.lost = false → s.driver.run = some j → s.runs[j]? = some run →
      done.result ≠ none → (s.runs.set j done)[i]? = some run' → False := by
    intro j run done hlo hdr hr hdo hget
    rw [getElem?_set] at hget
    split_ifs at hget with hij hlt
    · cases hget
      exact hdo hn
    · rcases h.pending i run' hget hn with hl | hact
      · rw [hlo] at hl
        cases hl
      · rw [hh j hlo hdr] at hact
        exact hij (Option.some.inj hact)
  cases step_move hs with
  | accept call start gate run hc ha =>
    obtain ⟨hlo, -, hact, hseq, -, deadline, hr, rfl⟩ := accept_ok ha
    right
    rcases getElem?_concat hr' with ho | ⟨rfl, rfl⟩
    · rcases h.pending i run' ho hn with hl | hi
      · rw [hlo] at hl
        cases hl
      · rw [hact] at hi
        cases hi
    · rw [hr, ← hinv.count, hseq]
      rfl
  | strand | reject | collapse => exact .inl rfl
  | cancel j run hr =>
    rw [getElem?_set] at hr'
    split_ifs at hr' with hij hlt
    · subst hij
      cases hr'
      rw [(cancel_run s.gate run).2.2] at hn
      exact h.pending j run hr hn
    · exact h.pending i run' hr' hn
  | stop =>
    rw [markStop_lost, (Signalled.markStop s.gate).active]
    exact h.pending i run' hr' hn
  | activate =>
    rw [(activate_signals s.gate).1, (Signalled.activate s.gate).active]
    exact h.pending i run' hr' hn
  | take gate _ _ _ _ _ _ hg | park gate _ _ _ _ hg =>
    have hsa : gate.lost = s.gate.lost := by
      rcases hg with rfl | rfl
      · rfl
      · exact markStop_lost
    change gate.lost = true ∨ gate.active.map (·.sequence) = some i
    rw [hsa, (Signalled.of_stop hg).active]
    exact h.pending i run' hr' hn
  | commit j adv run done gate previous hdr hr hcom =>
    obtain ⟨hlo, -, -, -, rfl⟩ := commit_ok hcom
    refine (hdo j run _ hlo (by rw [hdr]; rfl) hr ?_ hr').elim
    rw [set_result]
    cases run.result <;> intro h <;> cases h
  | finish j run error phase driver hb _ hr =>
    have hdr : s.driver.run = some j := by
      rcases hb with ⟨failure, hd⟩ | hd <;> rw [hd] <;> rfl
    cases hlo : s.gate.lost with
    | true =>
      left
      exact (finish_gate _ _ _ _).1.trans hlo
    | false =>
      refine (hdo j run _ hlo hdr hr ?_ hr').elim
      simp only [Gate.finish, hlo, Bool.false_eq_true, if_false, set_result]
      cases run.result <;> intro h <;> cases h
  | _ => exact h.pending i run' hr' hn

lemma step_faulted (hf' : s'.scheduler.fault.isSome = true) :
    s'.gate.lost = true ∨ (∃ j failure, s'.driver = .failing j failure) ∨
      s'.driver.Over ∧ ∃ failure, s'.gate.clock.phase = .faulted failure := by
  have hm := step_move hs
  have hlost' : s.gate.lost = true → s'.gate.lost = true := hm.kept.lost
  -- a fault that was there before
  have hk : s.scheduler.fault.isSome = true → s'.gate.clock = s.gate.clock ∨ s.driver.run ≠ none →
      s'.gate.lost = true ∨ (∃ j failure, s'.driver = .failing j failure) ∨
        s'.driver.Over ∧ ∃ failure, s'.gate.clock.phase = .faulted failure := by
    intro hflt hcl
    rcases h.faulted hflt with hlo | ⟨j, failure, hd⟩ | ⟨ho, failure, hp⟩
    · exact .inl (hlost' hlo)
    · rcases finish_failing hd hs with hsa | hf
      · exact .inr (.inl ⟨j, failure, hsa.trans hd⟩)
      · rcases hf with hl | ho
        · exact .inl hl
        · exact .inr (.inr ho)
    · rcases hcl with hcl | hh
      · exact .inr (.inr ⟨step_over ho hs, failure, hcl ▸ hp⟩)
      · exact absurd ho.run hh
  cases hm with
  | accept call start gate run hc ha =>
    have hflt : s.scheduler.fault.isSome = true := hf'
    rw [h.accepts hinv hc ha] at hflt
    cases hflt
  | strand | reject | collapse => exact .inl rfl
  | stop => exact hk hf' (Or.inl (Signalled.markStop s.gate).clock)
  | activate => exact hk hf' (Or.inl (Signalled.activate s.gate).clock)
  | take gate _ _ _ _ _ _ hg | park gate _ _ _ _ hg => exact hk hf' (Or.inl (Signalled.of_stop hg).clock)
  | fail _ j failure => exact .inr (.inl ⟨j, failure, rfl⟩)
  | commit j adv run done gate previous hd =>
    refine hk hf' (Or.inr ?_)
    rw [hd]
    exact nofun
  | finish j run error phase driver hb =>
    refine hk hf' (Or.inr ?_)
    rcases hb with ⟨failure, hd⟩ | hd <;> rw [hd] <;> exact nofun
  | _ => exact hk hf' (Or.inl rfl)

end

lemma step_flight (h : Flight s) (hinv : Inv initial s) (hst : s.step event = some (reply, s')) : Flight s' := by
  refine ⟨step_calm h hinv hst, step_pending h hinv hst, step_faulted h hinv hst, ?_, step_reads h hst⟩
  intro j error hd
  rcases step_ending hd hst with hf | ⟨hsa, hs⟩
  · exact hf
  · rw [hs]
    exact h.ending j error (hsa ▸ hd)

lemma new_flight {scheduler : StepScheduler} (isLocal : Bool) (horizon : ℕ) (hf : scheduler.fault = none) :
    Flight (new scheduler isLocal horizon) := by
  refine ⟨by rintro ⟨⟩, by simp [new], ?_, by rintro _ _ ⟨⟩, ?_⟩
  · intro h
    change scheduler.fault.isSome = true at h
    rw [hf] at h
    cases h
  · intro c start hc
    rw [new, ExtTreeMap.getElem?_empty] at hc
    cases hc

structure Sound (initial : Duration) (s : Session) : Prop where
  inv : Inv initial s
  flight : Flight s

lemma step_sound (h : Sound initial s) (hs : s.step event = some (reply, s')) : Sound initial s' :=
  ⟨(step_move hs).inv h.inv, step_flight h.flight h.inv hs⟩

end Reiny.Step
