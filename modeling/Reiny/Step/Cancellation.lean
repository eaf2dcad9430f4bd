import Reiny.Step.Dataflow
import Reiny.Step.Moves

namespace Reiny.Step

open Std Lib Results Checked Machine Option

def Barred (s : Session) (run : Run) : Prop := s.gate.lost = true ∨ s.gate.stopped = true ∨ run.cancelled = true

structure RunKept (s : Session) (run run' : Run) : Prop where
  tick : run'.tick = run.tick
  cancelled : run.cancelled = true → run'.cancelled = true
  result : ∀ r, run.result = some r → run'.result = some r
  barred : Barred s run → ∀ receipt, run'.result = some (.ok receipt) → run.result = some (.ok receipt)

structure Kept (s s' : Session) : Prop where
  lost : s.gate.lost = true → s'.gate.lost = true
  stopped : s.gate.stopped = true → s'.gate.stopped = true
  runs : ∀ (j : ℕ) run, s.runs[j]? = some run → ∃ run', s'.runs[j]? = some run' ∧ RunKept s run run'
  closed : s.gate.lost = true ∨ s.gate.stopped = true → s'.runs.length = s.runs.length

variable {s s' s'' : Session} {run run' : Run} {reply : Reply} {j : ℕ} {gate : Gate}

lemma RunKept.refl (s : Session) (run : Run) : RunKept s run run :=
  ⟨rfl, fun h => h, fun _ h => h, fun _ _ h => h⟩

section

variable (hl : s.gate.lost = true → s'.gate.lost = true) (hs : s.gate.stopped = true → s'.gate.stopped = true)

include hl hs

lemma Kept.of_runs (hr : s'.runs = s.runs) : Kept s s' := by
  refine ⟨hl, hs, ?_, fun _ => by rw [hr]⟩
  intro j run hrun
  exact ⟨run, by rwa [hr], .refl s run⟩

lemma Kept.of_set (hrun : s.runs[j]? = some run) (hr : s'.runs = s.runs.set j run') (h : RunKept s run run') :
    Kept s s' := by
  refine ⟨hl, hs, ?_, fun _ => by rw [hr, List.length_set]⟩
  intro i other ho
  rw [hr, List.getElem?_set]
  obtain ⟨hj, -⟩ := List.getElem?_eq_some_iff.mp hrun
  by_cases hi : j = i
  · subst hi
    rw [hrun] at ho
    cases ho
    exact ⟨run', by rw [if_pos rfl, if_pos hj], h⟩
  · exact ⟨other, by rw [if_neg hi]; exact ho, .refl s other⟩

end

lemma Kept.refl (s : Session) : Kept s s := .of_runs (fun h => h) (fun h => h) rfl

lemma Kept.trans (h : Kept s s') (h' : Kept s' s'') : Kept s s'' := by
  refine ⟨fun hl => h'.lost (h.lost hl), fun hs => h'.stopped (h.stopped hs), ?_, ?_⟩
  · intro j run hrun
    obtain ⟨run', hr', hk⟩ := h.runs j run hrun
    obtain ⟨run'', hr'', hk'⟩ := h'.runs j run' hr'
    refine ⟨run'', hr'', hk'.tick.trans hk.tick, fun hc => hk'.cancelled (hk.cancelled hc),
      fun r hr => hk'.result r (hk.result r hr), ?_⟩
    intro hb receipt hr
    have hbarred' : Barred s' run' := hb.imp h.lost (Or.imp h.stopped hk.cancelled)
    exact hk.barred hb receipt (hk'.barred hbarred' receipt hr)
  · intro hc
    rw [h'.closed (hc.imp h.lost h.stopped), h.closed hc]

lemma cancel_kept (gate : Gate) (s : Session) (run : Run) : RunKept s run (gate.cancel run).2 := by
  unfold Gate.cancel
  split_ifs
  · exact .refl s run
  · exact .refl s run
  · exact .refl s run
  · exact ⟨rfl, fun _ => rfl, fun _ h => h, fun _ _ h => h⟩
  · exact ⟨rfl, fun _ => rfl, fun _ h => h, fun _ _ h => h⟩

lemma finish_result {error : StepRunError} {clock : ClockSnapshot} {receipt : StepReceipt}
    (h : (gate.finish run (.error error) clock).2.result = some (.ok receipt)) :
    run.result = some (.ok receipt) := by
  unfold Gate.finish at h
  split_ifs at h
  · exact h
  · rw [set_result] at h
    cases hr : run.result with
    | none =>
      rw [hr] at h
      cases h
    | some r =>
      rw [hr] at h
      exact h

lemma finish_kept (s : Session) (gate : Gate) (run : Run) (error : StepRunError) (clock : ClockSnapshot) :
    RunKept s run (gate.finish run (.error error) clock).2 := by
  refine ⟨?_, ?_, ?_, fun _ receipt hr => finish_result hr⟩
  · unfold Gate.finish
    split_ifs <;> rfl
  · unfold Gate.finish
    split_ifs <;> exact fun h => h
  · intro r hr
    unfold Gate.finish
    split_ifs
    · exact hr
    · rw [set_result, hr]
      rfl

lemma finish_gate (gate : Gate) (run : Run) (result : RunResult) (clock : ClockSnapshot) :
    (gate.finish run result clock).1.lost = gate.lost ∧ (gate.finish run result clock).1.stopped =
      gate.stopped := by
  unfold Gate.finish
  split_ifs <;> exact ⟨rfl, rfl⟩

lemma markStop_stopped (h : gate.stopped = true) : gate.markStop.stopped = true := by
  unfold Gate.markStop
  split_ifs
  · exact h
  · rfl

lemma activate_signals (gate : Gate) : gate.activate.lost = gate.lost ∧ gate.activate.stopped = gate.stopped := by
  unfold Gate.activate
  split_ifs <;> exact ⟨rfl, rfl⟩

lemma Move.kept (h : Move s reply s') : Kept s s' := by
  have hst : ∀ gate, gate = s.gate ∨ gate = s.gate.markStop →
      (s.gate.lost = true → gate.lost = true) ∧ (s.gate.stopped = true → gate.stopped = true) := by
    rintro gate (rfl | rfl)
    · exact ⟨fun h => h, fun h => h⟩
    · exact ⟨fun h => markStop_lost.trans h, markStop_stopped⟩
  cases h with
  | idle | read => exact .of_runs (fun h => h) (fun h => h) rfl
  | accept call start gate run _ h =>
    obtain ⟨hl, hs, -⟩ := accept_ok h
    refine ⟨fun h => ?_, fun h => ?_, ?_, ?_⟩
    · rw [hl] at h
      cases h
    · rw [hs] at h
      cases h
    · intro j other ho
      refine ⟨other, ?_, .refl s other⟩
      rw [List.getElem?_append_left (List.getElem?_eq_some_iff.mp ho).1]
      exact ho
    · rintro (h | h)
      · rw [hl] at h
        cases h
      · rw [hs] at h
        cases h
  | handOver => exact .of_runs (fun h => h) (fun h => h) rfl
  | strand => exact .of_runs (fun _ => rfl) (fun h => h) rfl
  | cancel j run hrun => exact .of_set (fun h => h) (fun h => h) hrun rfl (cancel_kept s.gate s run)
  | stop => exact .of_runs (hst _ (Or.inr rfl)).1 (hst _ (Or.inr rfl)).2 rfl
  | activate =>
    obtain ⟨hl, hs⟩ := activate_signals s.gate
    exact .of_runs (fun h => hl.trans h) (fun h => hs.trans h) rfl
  | take gate _ _ _ _ _ _ hg
  | park gate _ _ _ _ hg => exact .of_runs (hst gate hg).1 (hst gate hg).2 rfl
  | begin => exact .of_runs (fun h => h) (fun h => h) rfl
  | reject => exact .of_runs (fun _ => rfl) (fun h => h) rfl
  | dispatch | answer | fail | ending => exact .of_runs (fun h => h) (fun h => h) rfl
  | commit j adv run run' gate previous _ hrun h =>
    obtain ⟨hl, hs, hc, rfl, rfl⟩ := commit_ok h
    refine .of_set (fun h => h) (fun h => h) hrun rfl ⟨rfl, fun h => h, ?_, ?_⟩
    · intro r hr
      rw [set_result, hr]
      rfl
    · rintro (h | h | h)
      · rw [hl] at h
        cases h
      · rw [hs] at h
        cases h
      · rw [hc] at h
        cases h
  | finish j run error phase driver _ _ hrun =>
    obtain ⟨hl, hs⟩ := finish_gate s.gate run (.error error) { s.scheduler.clock with phase := phase }
    exact .of_set (fun h => hl.trans h) (fun h => hs.trans h) hrun rfl (finish_kept s s.gate run error _)
  | collapse => exact .of_runs (fun _ => rfl) (fun h => h) rfl

lemma run_kept {events : List Event} {replies : List Reply} (h : s.run events = some (replies, s')) : Kept s s' :=
  run_invariant (P := Kept s) (fun _ _ _ _ hk hs => hk.trans (step_move hs).kept) (.refl s) h

variable {receipt : StepReceipt} {result : RunResult}

lemma retained_ok (h : s.retained j = some (.ok receipt)) :
    ∃ run, s.runs[j]? = some run ∧ run.result = some (.ok receipt) := by
  obtain ⟨run, hr, h⟩ := bind_eq_some_iff.mp h
  refine ⟨run, hr, ?_⟩
  cases hres : run.result with
  | some r =>
    rw [hres] at h
    exact h
  | none =>
    rw [hres] at h
    split_ifs at h <;> cases h

lemma retained_result (hr : s.runs[j]? = some run) (h : run.result = some result) :
    s.retained j = some result := by
  rw [Session.retained, hr, Option.bind_some, h]
  rfl

lemma Kept.retained (h : Kept s s') (hr : s.runs[j]? = some run) (hres : run.result = some result) :
    s'.retained j = some result := by
  obtain ⟨run', hr', hk⟩ := h.runs j run hr
  exact retained_result hr' (hk.result result hres)

lemma Kept.barred (h : Kept s s') (hrun : s.runs[j]? = some run) (hb : Barred s run)
    (hr : s'.retained j = some (.ok receipt)) : run.result = some (.ok receipt) := by
  obtain ⟨run', hr', hres⟩ := retained_ok hr
  obtain ⟨run'', hr'', hk⟩ := h.runs j run hrun
  rw [hr'] at hr''
  cases hr''
  exact hk.barred hb receipt hres

lemma cancel_step {status : CancelStatus} (h : s.step (.cancel j) = some (.cancelled status, s')) :
    ∃ run, s.runs[j]? = some run ∧ status = (s.gate.cancel run).1 ∧
      s' = { s with runs := s.runs.set j (s.gate.cancel run).2 } := by
  change s.cancel j = _ at h
  unfold Session.cancel at h
  split at h
  · cases h
  · rename_i run hr
    cases h
    exact ⟨run, hr, rfl, rfl⟩

lemma cancel_requested (gate : Gate) (run : Run)
    (h : (gate.cancel run).1 = .requested ∨ (gate.cancel run).1 = .alreadyRequested) :
    (gate.cancel run).2.cancelled = true ∧ (gate.cancel run).2.result = none := by
  unfold Gate.cancel at h ⊢
  split_ifs at h ⊢ with hl hr hr'
  · simp at h
  · simp at h
  · simp at h
  · exact ⟨rfl, by simpa using hr'⟩
  · exact ⟨rfl, by simpa using hr'⟩

lemma cancel_finished (gate : Gate) (run : Run) (h : (gate.cancel run).1 = .finished) :
    ∃ result, run.result = some result := by
  unfold Gate.cancel at h
  split_ifs at h with hl hr hr' hc
  · exact isSome_iff_exists.mp hr
  · exact isSome_iff_exists.mp hr'

lemma accept_step {call : ℕ} (h : s.step (.accept call) = some (.accepted j, s')) :
    s.gate.lost = false ∧ s.gate.stopped = false := by
  change s.accept call = _ at h
  unfold Session.accept at h
  split at h
  · rename_i start _
    rcases ha : s.gate.accept s.horizon s.now start with error | _ | ⟨gate, run⟩
    · rw [ha] at h
      cases h
    · rw [ha] at h
      cases h
    · obtain ⟨hl, hs, -⟩ := accept_ok ha
      exact ⟨hl, hs⟩
  · cases h

lemma markStop_barred (gate : Gate) : gate.markStop.lost = true ∨ gate.markStop.stopped = true := by
  unfold Gate.markStop
  split_ifs with hl
  · exact .inl hl
  · exact .inr rfl

theorem cancel_stop_linearised (s : Session) :
    (∀ j status s', s.step (.cancel j) = some (.cancelled status, s') →
      (status = .requested ∨ status = .alreadyRequested →
        ∀ events replies later, s'.run events = some (replies, later) →
          ∀ receipt, later.retained j ≠ some (.ok receipt)) ∧
      (status = .finished → ∃ result, s.retained j = some result ∧
        ∀ events replies later, s'.run events = some (replies, later) → later.retained j = some result)) ∧
    (∀ reply s', s.step .stop = some (reply, s') →
      ∀ events replies later, s'.run events = some (replies, later) →
        (∀ j receipt, later.retained j = some (.ok receipt) → s.retained j = some (.ok receipt)) ∧
        ∀ call j last, later.step (.accept call) ≠ some (.accepted j, last)) ∧
    ∀ j receipt, s.retained j = some (.ok receipt) →
      ∀ events replies later, s.run events = some (replies, later) → later.retained j = some (.ok receipt) := by
  refine ⟨?_, ?_, ?_⟩
  · intro j status s' hst
    obtain ⟨run, hrun, rfl, rfl⟩ := cancel_step hst
    have hj := (List.getElem?_eq_some_iff.mp hrun).1
    refine ⟨?_, ?_⟩
    · intro hs events replies later hla receipt hr
      obtain ⟨hc, hn⟩ := cancel_requested s.gate run hs
      have hnow : (s.runs.set j (s.gate.cancel run).2)[j]? = some (s.gate.cancel run).2 := by
        rw [List.getElem?_set_self hj]
      have hok := (run_kept hla).barred hnow (Or.inr (.inr hc)) hr
      rw [hn] at hok
      cases hok
    · intro hs
      obtain ⟨result, hres⟩ := cancel_finished s.gate run hs
      refine ⟨result, retained_result hrun hres, ?_⟩
      intro events replies later hla
      exact ((step_move hst).kept.trans (run_kept hla)).retained hrun hres
  · intro reply s' hst events replies later hla
    have hk := run_kept hla
    cases hst
    refine ⟨?_, ?_⟩
    · intro j receipt hr
      obtain ⟨run, hrun, -⟩ := retained_ok hr
      have hj : j < s.runs.length := by
        rw [← hk.closed (markStop_barred s.gate)]
        exact (List.getElem?_eq_some_iff.mp hrun).1
      have hb : s.runs[j]? = some s.runs[j] := List.getElem?_eq_getElem hj
      exact retained_result hb (hk.barred hb ((markStop_barred s.gate).imp_right Or.inl) hr)
    · intro call j last ha
      obtain ⟨hl, hstop⟩ := accept_step ha
      rcases markStop_barred s.gate with h | h
      · rw [hk.lost h] at hl
        cases hl
      · rw [hk.stopped h] at hstop
        cases hstop
  · intro j receipt hr events replies later hla
    obtain ⟨run, hrun, hres⟩ := retained_ok hr
    exact (run_kept hla).retained hrun hres

def loopSession : Session := .new loopStart false 1000

def loopAdmit (call : ℕ) (goal : UInt8) : List Event :=
  [.start call (loopRequest goal) (some (.ofNanos 100)), .accept call, .handOver call, .receive, .begin]

def loopAnswer (port : String) (bytes : Bytes) : Event := .answer (.ok (Map.of [(port, ⟨loopType, bytes⟩)])) none

theorem cancel_stop_linearised_loop : ∃ replies s s',
    loopSession.run (.activate :: loopAdmit 0 1 ++
      [.dispatch, loopAnswer "force" [1, 0], .dispatch, loopAnswer "state" [1, 0]]) = some (replies, s) ∧
    s.step (.cancel 0) = some (.cancelled .requested, s') ∧
    ∀ events replies' later, s'.run events = some (replies', later) →
      ∀ receipt, later.retained 0 ≠ some (.ok receipt) := by
  have hc : (loopSession.run (.activate :: loopAdmit 0 1 ++
      [.dispatch, loopAnswer "force" [1, 0], .dispatch, loopAnswer "state" [1, 0]])).bind
        (fun result => (result.2.step (.cancel 0)).map (·.1)) = some (.cancelled .requested) := by decide +kernel
  obtain ⟨⟨replies, s⟩, hr, hc⟩ := bind_eq_some_iff.mp hc
  obtain ⟨⟨reply, s'⟩, hs, rfl⟩ := map_eq_some_iff.mp hc
  exact ⟨replies, s, s', hr, hs, ((cancel_stop_linearised s).1 0 .requested s' hs).1 (Or.inl rfl)⟩

end Reiny.Step
