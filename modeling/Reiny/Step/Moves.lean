import Reiny.Lib.Maps
import Reiny.Step.Session

/-! What one event can do to a session, said once. -/

namespace Reiny.Step

open Std Lib Results Checked Maps Option Session

def Reply.Quiet (reply : Reply) : Prop := ∀ run adv inst inputs sequence started,
  reply ≠ .dispatched run adv inst inputs ∧ reply ≠ .accepted sequence ∧ reply ≠ .begun started

inductive Move (s : Session) : Reply → Session → Prop
  | idle (reply : Reply) (calls : Map ℕ Pending) (now : ℕ) (hreply : reply.Quiet)
      (hcalls : ∀ (c : ℕ) start, calls[c]? = some (.read start) → s.calls[c]? = some (.read start)) :
      Move s reply { s with calls := calls, now := now }
  | read (call : ℕ) (request : StepRequest) (timeout : Option Duration) (start : Start)
      (h : s.gate.read s.scheduler.plan request timeout = .ok start) :
      Move s .done { s with calls := s.calls.insert call (.read start) }
  | accept (call : ℕ) (start : Start) (gate : Gate) (run : Run) (hcall : s.calls[call]? = some (.read start))
      (h : s.gate.accept s.horizon s.now start = .ok (some (gate, run))) :
      Move s (.accepted run.id.sequence)
        { s with
          gate := gate
          runs := s.runs ++ [run]
          calls := s.calls.erase call
          accepted := s.accepted ++ [⟨call, run.id.sequence, start.request⟩] }
  | handOver (call : ℕ) (pending : Handover) (hpending : s.accepted.find? (·.call == call) = some pending) :
      Move s (.started (.ok pending.run))
        { s with
          accepted := s.accepted.filter (·.call != call)
          queue := s.queue ++ [(pending.run, pending.request)] }
  | strand (call : ℕ) : Move s (.started (.error .supervisorGone))
      { s with gate := s.gate.disappear, accepted := s.accepted.filter (·.call != call) }
  | cancel (j : ℕ) (run : Run) (hrun : s.runs[j]? = some run) :
      Move s (.cancelled (s.gate.cancel run).1) { s with runs := s.runs.set j (s.gate.cancel run).2 }
  | stop : Move s .done { s with gate := s.gate.markStop }
  | activate : Move s .done { s with gate := s.gate.activate }
  | take (gate : Gate) (closed : Bool) (j : ℕ) (request : StepRequest) (rest : List (ℕ × StepRequest))
      (hdriver : s.driver = .waiting) (hqueue : s.queue = (j, request) :: rest)
      (hgate : gate = s.gate ∨ gate = s.gate.markStop) :
      Move s .done { s with gate := gate, closed := closed, queue := rest, driver := .taken j request }
  | park (gate : Gate) (closed : Bool) (driver : Driver) (hbefore : s.driver.run = none)
    (hafter : driver.run = none)
      (hgate : gate = s.gate ∨ gate = s.gate.markStop) :
      Move s .done { s with gate := gate, closed := closed, driver := driver }
  | begin (j : ℕ) (request : StepRequest) (run : Run) (adv : Advance) (hdriver : s.driver = .taken j request)
      (hrun : s.runs[j]? = some run) (h : s.scheduler.begin request = .ok adv) :
      Move s (.begun run) { s with driver := .running j adv s.scheduler.plan.order none }
  | reject (j : ℕ) (request : StepRequest) (run : Run) (hdriver : s.driver = .taken j request) :
      Move s (.begun run) { s with gate := s.gate.disappear, driver := .stopping }
  | dispatch (j : ℕ) (adv : Advance) (inst : String) (rest : List String) (inputs : StepInputs)
      (hdriver : s.driver = .running j adv (inst :: rest) none) :
      Move s (.dispatched j adv.request.tick inst inputs)
        { s with driver := .running j (adv.dispatch inst) rest (some inst) }
  | answer (j : ℕ) (adv adv' : Advance) (inst : String) (rest : List String) (outcome : NodeOutcome)
      (hdriver : s.driver = .running j adv rest (some inst))
      (h : adv.complete s.scheduler.plan.graph.nodes inst outcome = .ok adv') :
      Move s .done { s with driver := .running j adv' rest none }
  | fail (reply : Reply) (j : ℕ) (failure : StepFailure) (hreply : reply = .done ∨ ∃ run, reply = .begun run)
      (hdriver : s.driver.run = some j) :
      Move s reply
        { s with scheduler := { s.scheduler with fault := some failure }, driver := .failing j failure }
  | ending (j : ℕ) (error : StepRunError) (hdriver : s.driver.run = some j)
      (harmed : ∀ k adv rest awaiting, s.driver = .running k adv rest awaiting → adv.armed = false) :
      Move s .done { s with driver := .ending j error }
  | commit (j : ℕ) (adv : Advance) (run run' : Run) (gate : Gate) (previous : Map StepOutput StepValue)
      (hdriver : s.driver = .running j adv [] none) (hrun : s.runs[j]? = some run)
      (h : s.gate.commit run s.now (StepScheduler.receipt adv) (s.scheduler.committedClock adv) =
        .ok (gate, run')) :
      Move s .done
        { s with
          gate := gate
          runs := s.runs.set j run'
          scheduler := s.scheduler.applyCommit adv previous
          driver := .waiting }
  | finish (j : ℕ) (run : Run) (error : StepRunError) (phase : ClockPhase) (driver : Driver)
      (hbefore : (∃ failure, s.driver = .failing j failure) ∨ s.driver = .ending j error)
      (hafter : driver.run = none) (hrun : s.runs[j]? = some run) :
      Move s .done
        { s with
          gate := (s.gate.finish run (.error error) { s.scheduler.clock with phase := phase }).1
          runs := s.runs.set j (s.gate.finish run (.error error) { s.scheduler.clock with phase := phase }).2
          driver := driver }
  | collapse (reply : Reply) (fault : Option StepFailure) (hreply : reply = .done ∨ ∃ run, reply = .begun run) :
      Move s reply (s.collapse fault)

variable {s s' : Session} {reply : Reply} {j call : ℕ} {scheduler : StepScheduler} {request : StepRequest}
  {fault failure : StepFailure} {override : Option StepFailureKind}

lemma quiet_done : Reply.Quiet .done := by
  intro run adv inst inputs sequence started
  simp

lemma quiet_started (result : Except StepStartError ℕ) : Reply.Quiet (.started result) := by
  intro run adv inst inputs sequence started
  simp

lemma erase_read {calls : Map ℕ Pending} {c : ℕ} {pending : Pending}
    (h : (calls.erase call)[c]? = some pending) : calls[c]? = some pending := by
  rw [ExtTreeMap.getElem?_erase] at h
  split_ifs at h
  exact h

lemma readGate_move (s : Session) (call : ℕ) (request : StepRequest) (timeout : Option Duration) :
    Move s (s.readGate call request timeout).1 (s.readGate call request timeout).2 := by
  unfold readGate
  rcases h : s.gate.read s.scheduler.plan request timeout with ⟨_ | error⟩ | start
  · exact .idle .panicked _ _ (fun _ _ _ _ _ _ => by simp) fun _ _ => erase_read
  · exact .idle _ _ _ (quiet_started _) fun _ _ => erase_read
  · exact .read call request timeout start h

lemma start_move {timeout : Option Duration} (h : s.start call request timeout = some (reply, s')) :
    Move s reply s' := by
  unfold start at h
  split_ifs at h
  · cases h
    exact .idle _ _ _ (quiet_started _) fun _ _ h => h
  · cases hd : checkedAfter s.horizon s.now timeout with
    | none =>
      rw [hd] at h
      cases h
      exact .idle _ _ _ (quiet_started _) fun _ _ h => h
    | some deadline =>
      rw [hd] at h
      have hm := readGate_move s call request timeout
      rw [Option.some.inj h] at hm
      exact hm

lemma retry_move (h : s.retry call = some (reply, s')) : Move s reply s' := by
  unfold retry at h
  split at h
  · rename_i request timeout _
    have hm := readGate_move s call request timeout
    rw [Option.some.inj h] at hm
    exact hm
  · cases h

lemma accept_move (h : s.accept call = some (reply, s')) : Move s reply s' := by
  unfold accept at h
  split at h
  · rename_i start hc
    rcases ha : s.gate.accept s.horizon s.now start with error | _ | ⟨gate, run⟩
    · rw [ha] at h
      cases h
      exact .idle _ _ _ (quiet_started _) fun _ _ => erase_read
    · rw [ha] at h
      cases h
      refine .idle _ _ _ quiet_done ?_
      intro c other ho
      rcases of_insert ho with ⟨-, ⟨⟩⟩ | ⟨-, ho⟩
      exact ho
    · rw [ha] at h
      cases h
      exact .accept call start gate run hc ha
  · cases h

lemma handOver_move (h : s.handOver call = some (reply, s')) : Move s reply s' := by
  unfold handOver at h
  split at h
  · cases h
  · rename_i pending hp
    dsimp only at h
    split_ifs at h
    · cases h
      exact .strand call
    · cases h
      exact .handOver call pending hp

lemma cancel_move (h : s.cancel j = some (reply, s')) : Move s reply s' := by
  unfold cancel at h
  split at h
  · cases h
  · rename_i run hr
    cases h
    exact .cancel j run hr

lemma receive_move (h : s.receive = some (reply, s')) : Move s reply s' := by
  unfold receive at h
  split at h
  · rename_i j request rest hd hq
    cases h
    exact .take s.gate s.closed j request rest hd hq (Or.inl rfl)
  · cases h

lemma drain_move (h : s.drain = some (reply, s')) : Move s reply s' := by
  unfold drain at h
  split at h
  · rename_i hd
    split_ifs at h
    have hn : s.driver.run = none := by rw [hd]; rfl
    cases hq : s.queue with
    | nil =>
      simp only [hq, Option.some.injEq, Prod.mk.injEq] at h
      obtain ⟨rfl, rfl⟩ := h
      have hm := Move.park (s := s) s.gate.markStop true .returned hn rfl (Or.inr rfl)
      rwa [hq] at hm
    | cons entry rest =>
      simp only [hq, Option.some.injEq, Prod.mk.injEq] at h
      obtain ⟨rfl, rfl⟩ := h
      exact .take s.gate.markStop true entry.1 entry.2 rest hd hq (Or.inr rfl)
  · cases h

lemma abandon_move (h : s.abandon = some (reply, s')) : Move s reply s' := by
  unfold abandon at h
  split at h
  · rename_i hd _ _
    split_ifs at h
    cases h
    exact .park s.gate s.closed .abandoned (by rw [hd]; rfl) rfl (Or.inl rfl)
  · cases h

lemma leave_move (h : s.leave = some (reply, s')) : Move s reply s' := by
  unfold leave at h
  split at h
  · rename_i hd
    split_ifs at h
    cases h
    exact .park s.gate s.closed .returned (by rw [hd]; rfl) rfl (Or.inl rfl)
  · cases h

lemma halt_move (h : s.halt = some (reply, s')) : Move s reply s' := by
  unfold halt at h
  split at h
  · rename_i hd
    cases h
    exact .park s.gate.markStop s.closed .returned (by rw [hd]; rfl) rfl (Or.inr rfl)
  · cases h

lemma exit_move (h : s.exit = some (reply, s')) : Move s reply s' := by
  unfold exit at h
  split at h
  · rename_i hd
    cases h
    exact .park s.gate true .gone (by rw [hd]; rfl) rfl (Or.inl rfl)
  · cases h

lemma abort_move (h : s.abort = some (reply, s')) : Move s reply s' := by
  unfold abort at h
  split at h
  · cases h
  · cases h
    exact .collapse _ _ (Or.inl rfl)
  · cases h
    exact .collapse _ _ (Or.inl rfl)

lemma interrupted_fault (h : scheduler.fault = some fault) (kind : StepFailureKind) :
    ∃ failure,
      scheduler.interrupted kind = (some failure, { scheduler with fault := some failure }) := by
  unfold StepScheduler.interrupted
  rw [h]
  exact ⟨_, rfl⟩

lemma begin_faulted
    (h : scheduler.begin request = .error (.failed (.faulted failure)) ∨
      scheduler.begin request = .error (.failed (.failed failure))) :
    scheduler.fault = some failure := by
  unfold StepScheduler.begin at h
  cases hf : scheduler.fault with
  | some fault =>
    rw [hf] at h
    rcases h with h | h
    · cases h
      rfl
    · cases h
  | none =>
    rw [hf] at h
    rcases hv : request.validate scheduler.plan scheduler.clock with ⟨_ | _⟩ | _
    all_goals
      rw [hv] at h
      rcases h with h | h <;> cases h

lemma failRun_move (hr : reply = .done ∨ ∃ run, reply = .begun run) (hd : s.driver.run = some j)
    (hf : scheduler.fault = some fault)
    (hs : ∀ f, { scheduler with fault := f } = { s.scheduler with fault := f }) :
    Move s reply ({ s with scheduler := scheduler }.failRun j failure override) := by
  obtain ⟨reported, hrep⟩ := interrupted_fault hf (override.getD failure.kind)
  have heq : ({ s with scheduler := scheduler } : Session).failRun j failure override =
      { s with scheduler := { s.scheduler with fault := some reported }, driver := .failing j reported } := by
    unfold failRun
    rw [hrep, hs]
    rfl
  rw [heq]
  exact .fail reply j reported hr hd

lemma begin_move (h : s.begin = some (reply, s')) : Move s reply s' := by
  unfold begin at h
  split at h
  · rename_i j request hd
    have hh : s.driver.run = some j := by rw [hd]; rfl
    split at h
    · cases h
    · rename_i run hr
      split at h
      · rename_i adv ha
        cases h
        exact .begin j request run adv hd hr ha
      · cases h
        exact .collapse _ _ (Or.inr ⟨run, rfl⟩)
      · cases h
        exact .reject j request run hd
      · rename_i failure hfa
        cases h
        exact failRun_move (Or.inr ⟨run, rfl⟩) hh (begin_faulted (Or.inr hfa)) fun _ => rfl
      · rename_i failure hf
        cases h
        exact failRun_move (Or.inr ⟨run, rfl⟩) hh (begin_faulted (Or.inl hf)) fun _ => rfl
  · cases h

lemma dispatch_move (h : s.dispatch = some (reply, s')) : Move s reply s' := by
  unfold dispatch at h
  split at h
  · rename_i j adv inst rest hd
    split at h
    · cases h
      exact .collapse _ _ (Or.inl rfl)
    · rename_i inputs _
      cases h
      exact .dispatch j adv inst rest inputs hd
  · cases h

lemma answer_move {outcome : NodeOutcome} (h : s.answer outcome override = some (reply, s')) :
    Move s reply s' := by
  unfold answer at h
  split at h
  · rename_i j adv rest inst hd
    split at h
    · rename_i adv' ha
      cases h
      exact .answer j adv adv' inst rest outcome hd ha
    · cases h
      exact .collapse _ _ (Or.inl rfl)
    · rename_i failure _
      cases h
      exact failRun_move (Or.inl rfl) (by rw [hd]; rfl)
        (show (s.scheduler.fail failure).fault = some failure from rfl) fun _ => rfl
  · cases h

lemma commit_move (h : s.commit = some (reply, s')) : Move s reply s' := by
  unfold commit at h
  split at h
  · rename_i j adv hd
    split at h
    · cases h
    · cases h
      exact .collapse _ _ (Or.inl rfl)
    · rename_i run previous hr _
      split at h
      · rename_i kind _
        cases h
        exact failRun_move (Or.inl rfl) (by rw [hd]; rfl)
          (show (s.scheduler.fail (adv.refused kind)).fault = some (adv.refused kind) from rfl) fun _ => rfl
      · rename_i gate run' hc
        cases h
        exact .commit j adv run run' gate previous hd hr hc
  · cases h

lemma interruptRun_move {run : Run} {kind : StepFailureKind} (hd : s.driver.run = some j)
    (hs : ∀ f, { scheduler with fault := f } = { s.scheduler with fault := f })
    (hu : scheduler.fault = none → scheduler = s.scheduler ∧
      ∀ k adv rest awaiting, s.driver = .running k adv rest awaiting → adv.armed = false) :
    Move s .done ({ s with scheduler := scheduler }.interruptRun j run kind) := by
  cases hf : scheduler.fault with
  | some fault =>
    obtain ⟨reported, hr⟩ := interrupted_fault hf kind
    have heq : ({ s with scheduler := scheduler } : Session).interruptRun j run kind =
        { s with scheduler := { s.scheduler with fault := some reported }, driver := .failing j reported } := by
      unfold interruptRun
      rw [hr, hs]
    rw [heq]
    exact .fail _ j reported (Or.inl rfl) hd
  | none =>
    obtain ⟨rfl, ha⟩ := hu hf
    have heq : s.interruptRun j run kind = { s with driver := .ending j (beforeDispatch run kind) } := by
      unfold interruptRun StepScheduler.interrupted
      rw [hf]
    exact heq ▸ .ending j _ hd ha

lemma interrupt_move (h : s.interrupt = some (reply, s')) : Move s reply s' := by
  unfold interrupt at h
  split at h
  · rename_i j request hd
    obtain ⟨run, -, h⟩ := bind_eq_some_iff.mp h
    obtain ⟨kind, -, h⟩ := bind_eq_some_iff.mp h
    cases h
    refine interruptRun_move (by rw [hd]; rfl) (fun _ => rfl) fun _ => ⟨rfl, ?_⟩
    intro k adv rest awaiting hr
    rw [hd] at hr
    cases hr
  · rename_i j adv rest awaiting hd
    obtain ⟨run, -, h⟩ := bind_eq_some_iff.mp h
    obtain ⟨kind, -, h⟩ := bind_eq_some_iff.mp h
    cases h
    refine interruptRun_move (by rw [hd]; rfl) (fun _ => rfl) ?_
    intro hn
    -- an armed guard leaves its failure behind, so no fault means it was not armed
    have har : adv.armed = false := by
      by_contra ha
      simp only [Advance.dropped, Bool.not_eq_false] at hn ha
      rw [ha] at hn
      cases hn
    refine ⟨by simp [Advance.dropped, har], ?_⟩
    intro k adv' rest' awaiting' hr
    rw [hd] at hr
    cases hr
    exact har
  · cases h

lemma finish_move (h : s.finish = some (reply, s')) : Move s reply s' := by
  unfold finish at h
  split at h
  · rename_i j failure hd
    obtain ⟨run, hr, h⟩ := bind_eq_some_iff.mp h
    cases h
    exact .finish j run (.failed failure) (.faulted failure) .stopping (Or.inl ⟨failure, hd⟩) rfl hr
  · rename_i j error hd
    obtain ⟨run, hr, h⟩ := bind_eq_some_iff.mp h
    cases h
    exact .finish j run error s.scheduler.clock.phase .waiting (Or.inr hd) rfl hr
  · cases h

theorem step_move {event : Event} (h : s.step event = some (reply, s')) : Move s reply s' := by
  cases event with
  | start call request timeout => exact start_move h
  | retry call => exact retry_move h
  | accept call => exact accept_move h
  | handOver call => exact handOver_move h
  | cancel j => exact cancel_move h
  | stop => cases h; exact .stop
  | activate => cases h; exact .activate
  | clock => cases h; exact .idle _ _ _ (fun _ _ _ _ _ _ => by simp) fun _ _ h => h
  | elapse nanos => cases h; exact .idle _ _ _ quiet_done fun _ _ h => h
  | receive => exact receive_move h
  | drain => exact drain_move h
  | abandon => exact abandon_move h
  | leave => exact leave_move h
  | begin => exact begin_move h
  | dispatch => exact dispatch_move h
  | answer outcome override => exact answer_move h
  | commit => exact commit_move h
  | interrupt => exact interrupt_move h
  | finish => exact finish_move h
  | halt => exact halt_move h
  | exit => exact exit_move h
  | abort => exact abort_move h

lemma Move.dispatched {tick : StepTick} {inst : String} {inputs : StepInputs}
    (h : Move s (.dispatched j tick inst inputs) s') :
    ∃ adv rest, s.driver = .running j adv (inst :: rest) none ∧
      tick = adv.request.tick ∧ s' = { s with driver := .running j (adv.dispatch inst) rest (some inst) } := by
  cases h with
  | idle _ _ _ hr => exact absurd rfl (hr j tick inst inputs 0 ⟨⟨0, 0⟩, ⟨0, 0⟩, none, false, none⟩).1
  | dispatch _ adv _ rest _ hd => exact ⟨adv, rest, hd, rfl, rfl⟩
  | fail _ _ _ hr | collapse _ _ hr => rcases hr with hr | ⟨run, hr⟩ <;> cases hr

end Reiny.Step
