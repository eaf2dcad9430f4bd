import Reiny.Process.Owner

/-! What one event can do to an owner, and where it stands between two nodes of a run. -/

namespace Reiny.Process

open Std Lib Results Checked Machine Maps Step List

inductive OwnerMove (o : Owner) : OwnerReply → Owner → Prop
  | drive (event : Event) (reply : Reply) (session : Session)
      (hevent : ∀ outcome override, event ≠ .answer outcome override)
      (h : o.session.step event = some (reply, session)) : OwnerMove o (.session reply) (o.observe reply session)
  | send (tick : StepTick) (inst : String) (inputs : StepInputs) (context : StepDispatchContext) (adapter : Adapter)
      (host : ℕ) (invocation : InvokeStep) (hcall : o.call = .waiting tick inst inputs)
      (hcontext : o.adapter.context tick = .ok (context, adapter))
      (h : o.executor.invocation context inst inputs o.session.now = .ok (host, invocation)) :
      OwnerMove o (.sent host invocation) { o with adapter, call := .sent context inst invocation.call }
  | fail (adapter : Adapter) (executor : Executor) (message : String)
    (kind : Option StepFailureKind) (reply : Reply)
      (session : Session) (h : o.session.step (.answer (.error message) kind) = some (reply, session)) :
      OwnerMove o (.session reply) ⟨session, adapter, executor, o.retention, .idle⟩
  | answer (context : StepDispatchContext) (inst : String) (key : StepCallKey) (outputs : StepOutputs)
      (executor : Executor) (retention : Retention) (reply : Reply) (session : Session)
      (hcall : o.call = .sent context inst key)
      (hretain : o.executor.retainOutputs o.retention context inst outputs = (.ok (), executor, retention))
      (h : o.session.step (.answer (.ok outputs) o.adapter.failure) = some (reply, session)) :
      OwnerMove o (.session reply) { o with session, executor, retention, call := .idle }
  | reserve (available : ℕ) : OwnerMove o (.session .done) (o.reserve available)

variable {o o' : Owner} {reply : OwnerReply} {executor : Executor} {failure : DispatchFailure}

lemma fail_move {adapter : Adapter} (h : Owner.fail { o with adapter, executor } failure = some (reply, o')) :
    OwnerMove o reply o' := by
  obtain ⟨⟨answered, session⟩, hs, heq⟩ := Option.map_eq_some_iff.mp h
  cases heq
  exact .fail _ executor _ _ answered session hs

lemma retainOutputs_failed {executor' : Executor} {retention retention' : Retention}
    {context : StepDispatchContext} {inst : String} {outputs : StepOutputs}
    (h : executor.retainOutputs retention context inst outputs = (.error failure, executor', retention')) :
    retention' = retention := by
  unfold Executor.retainOutputs at h
  split at h
  · cases h
    rfl
  · split at h
    · cases h
      rfl
    · split_ifs at h <;> cases h
      rfl

lemma drive_move {event : Event} (h : o.drive event = some (reply, o')) : OwnerMove o reply o' := by
  unfold Owner.drive at h
  split at h
  · cases h
  · rename_i hev
    obtain ⟨⟨answered, session⟩, hs, heq⟩ := Option.map_eq_some_iff.mp h
    cases heq
    exact .drive event answered session hev hs

lemma invoke_move (h : o.invoke = some (reply, o')) : OwnerMove o reply o' := by
  unfold Owner.invoke at h
  split at h
  · rename_i tick inst inputs hc
    split at h
    · exact fail_move h
    · rename_i context adapter hctx
      split at h
      · exact fail_move h
      · rename_i host invocation hinv
        cases h
        exact .send tick inst inputs context adapter host invocation hc hctx hinv
  · cases h

lemma receive_move {received : Received} (h : o.receive received = some (reply, o')) : OwnerMove o reply o' := by
  unfold Owner.receive at h
  split at h
  · rename_i context inst key hc
    split at h
    · exact fail_move h
    · rename_i outputs _
      split at h
      · rename_i failure executor retention hr
        cases retainOutputs_failed hr
        exact fail_move h
      · rename_i executor retention hr
        obtain ⟨⟨answered, session⟩, hs, heq⟩ := Option.map_eq_some_iff.mp h
        cases heq
        exact .answer context inst key outputs executor retention answered session hc hr hs
  · cases h

theorem owner_move {event : OwnerEvent} (h : o.step event = some (reply, o')) : OwnerMove o reply o' := by
  cases event with
  | session event => exact drive_move h
  | invoke => exact invoke_move h
  | receive received => exact receive_move h
  | reserve available =>
    cases h
    exact .reserve available

def bytesOf {K : Type} (keep : K → Bool) (values : List (K × StepValue)) : ℕ :=
  ((values.filter fun entry => keep entry.1).map fun entry => entry.2.bytes.length).sum

def every {K : Type} (_ : K) : Bool := true

def isDelayed (delayed : ExtTreeSet StepOutput) (output : StepOutput) : Bool := delayed.contains output

variable {executor' : Executor} {retention retention' : Retention} {context : StepDispatchContext} {inst : String}
  {outputs : StepOutputs}

lemma bytesOf_cons {K : Type} (keep : K → Bool) (entry : K × StepValue) (values : List (K × StepValue)) :
    bytesOf keep (entry :: values) = (if keep entry.1 then entry.2.bytes.length else 0) + bytesOf keep values := by
  unfold bytesOf
  rw [filter_cons]
  split_ifs
  · rw [map_cons, sum_cons]
  · rw [Nat.zero_add]

lemma addOutputs_ok {values : List (String × StepValue)}
    (h : executor.addOutputs inst values = (.ok (), executor')) :
    executor' =
      { executor with
        retained := executor.retained + bytesOf every values
        nextPrevious :=
          executor.nextPrevious + bytesOf (fun port => isDelayed executor.delayed ⟨inst, port⟩) values } := by
  induction values generalizing executor with
  | nil =>
    cases h
    rfl
  | cons value values ih =>
    simp only [Executor.addOutputs] at h
    rw [bytesOf_cons, bytesOf_cons]
    split at h
    · cases h
    · rename_i retained hr
      rw [checkedAdd_some] at hr
      split_ifs at h with hd
      · split at h
        · cases h
        · rename_i nextPrevious hn
          rw [checkedAdd_some] at hn
          rw [ih h, if_pos (show isDelayed executor.delayed ⟨inst, value.1⟩ = true by simpa [isDelayed] using hd),
            ← hr.1, ← hn.1]
          simp only [every, if_true, Nat.add_assoc]
      · rw [ih h, if_neg (show ¬ isDelayed executor.delayed ⟨inst, value.1⟩ = true by simpa [isDelayed] using hd),
          ← hr.1]
        simp only [every, if_true, Nat.add_assoc, Nat.zero_add]

structure Counted (executor : Executor) (retention : Retention) (context : StepDispatchContext) (inst : String)
    (outputs : StepOutputs) (executor' : Executor) (retention' : Retention) : Prop where
  made : executor'.placement = executor.placement ∧ executor'.key = executor.key ∧
    executor'.delayed = executor.delayed ∧ executor'.finalOrdinal = executor.finalOrdinal
  sequence : executor'.runSequence = some context.run.sequence
  retained : executor'.retained =
    (executor.countFor context.run.sequence).retained + bytesOf every outputs.toList
  nextPrevious : executor'.nextPrevious = (executor.countFor context.run.sequence).nextPrevious +
    bytesOf (fun port => isDelayed executor.delayed ⟨inst, port⟩) outputs.toList
  fits : executor'.retained + executor'.nextPrevious ≤ retention.available
  stored : retention' =
    if context.ordinal = executor.finalOrdinal then { retention with previous := executor'.nextPrevious } else
      retention

lemma countFor_made (executor : Executor) (sequence : ℕ) :
    ((executor.countFor sequence).placement = executor.placement ∧ (executor.countFor sequence).key = executor.key ∧
      (executor.countFor sequence).delayed = executor.delayed ∧
      (executor.countFor sequence).finalOrdinal = executor.finalOrdinal) ∧
      (executor.countFor sequence).runSequence = some sequence := by
  unfold Executor.countFor
  split_ifs with h
  · exact ⟨⟨rfl, rfl, rfl, rfl⟩, h⟩
  · exact ⟨⟨rfl, rfl, rfl, rfl⟩, rfl⟩

lemma retainOutputs_ok (h : executor.retainOutputs retention context inst outputs =
    (.ok (), executor', retention')) :
    Counted executor retention context inst outputs executor' retention' := by
  obtain ⟨hm, hseq⟩ := countFor_made executor context.run.sequence
  unfold Executor.retainOutputs at h
  split at h
  · cases h
  · rename_i counted ha
    have hc := addOutputs_ok ha
    rw [hm.2.2.1] at hc
    split at h
    · cases h
    · rename_i used hu
      rw [checkedAdd_some] at hu
      have hl : counted.finalOrdinal = executor.finalOrdinal := by rw [hc]; exact hm.2.2.2
      have hs : counted = executor' := by
        split_ifs at h <;> cases h <;> rfl
      subst hs
      refine ⟨?_, by rw [hc]; exact hseq, by rw [hc], by rw [hc], ?_, ?_⟩
      · rw [hc]
        exact ⟨hm.1, hm.2.1, rfl, hm.2.2.2⟩
      · rw [hu.1]
        split_ifs at h with ho
        · cases h
        · exact Nat.not_lt.mp ho
        · exact Nat.not_lt.mp ho
      · rw [hl] at h
        by_cases ho : retention.available < used
        · rw [if_pos ho] at h
          cases h
        · rw [if_neg ho] at h
          split_ifs at h ⊢ <;> exact (Prod.mk.inj (Prod.mk.inj h).2).2.symm

section Answers

variable {s s' : Session} {reply : Reply}

lemma answer_failed {message : String} {kind : Option StepFailureKind}
    (h : s.step (.answer (.error message) kind) = some (reply, s')) :
    ∃ j failure, s.driver.run = some j ∧ s'.driver = .failing j failure ∧ s'.scheduler.fault = some failure ∧
      failure.kind = kind.getD .nodeError ∧ reply = .done ∧ s'.runs = s.runs := by
  simp only [Session.step, Session.answer] at h
  split at h
  · rename_i j adv rest inst hd
    cases h
    exact ⟨j, _, by rw [hd]; rfl, rfl, rfl, rfl, rfl, rfl⟩
  · cases h

lemma move_constant (h : Move s reply s') :
    s'.scheduler.plan = s.scheduler.plan ∧ s'.scheduler.epoch = s.scheduler.epoch := by
  cases h <;> exact ⟨rfl, rfl⟩

end Answers

def Engaged (epoch j : ℕ) (adv : Advance) (adapter : Adapter) (call : Call) : Option String → Prop
  | none => call = .idle ∧ adapter.ordinal = adv.failure.attempted.length
  | some inst =>
    (∃ inputs, call = .waiting adv.request.tick inst inputs ∧ adapter.ordinal + 1 = adv.failure.attempted.length) ∨
    ∃ context key, call = .sent context inst key ∧ context.run = ⟨epoch, j⟩ ∧
      context.ordinal + 1 = adv.failure.attempted.length ∧ adapter.ordinal = adv.failure.attempted.length

structure Course (scheduler : StepScheduler) (adapter : Adapter) (call : Call) (j : ℕ) (adv : Advance)
    (rest : List String) (awaiting : Option String) : Prop where
  order : adv.failure.attempted ++ rest = scheduler.plan.order
  last : ∀ inst, awaiting = some inst → ∃ before, adv.failure.attempted = before ++ [inst]
  armed : adv.armed = false → adv.failure.attempted = []
  bound : adv.request.nextIndex < U64
  run : ∀ run deadline, adapter.run = some (run, deadline) → run = ⟨scheduler.epoch, j⟩
  engaged : Engaged scheduler.epoch j adv adapter call awaiting

structure Steady (initial : Duration) (o : Owner) : Prop where
  sound : Sound initial o.session
  idle : awaits o.session.driver = false → o.call = .idle
  course : ∀ j adv rest awaiting, o.session.driver = .running j adv rest awaiting →
    Course o.session.scheduler o.adapter o.call j adv rest awaiting
  sequence : o.session.runs.length < U64
  reads : ∀ (c : ℕ) start, o.session.calls[c]? = some (.read start) → start.sequence + 1 < U64

section Steadiness

variable {initial : Duration} {s s' : Session} {reply : Reply}

lemma move_sequence (h : Move s reply s') (hseq : s.runs.length < U64)
    (hr : ∀ (c : ℕ) start, s.calls[c]? = some (.read start) → start.sequence + 1 < U64) (hinv : Inv initial s) :
    s'.runs.length < U64 ∧ ∀ (c : ℕ) start, s'.calls[c]? = some (.read start) → start.sequence + 1 < U64 := by
  cases h with
  | idle _ _ _ _ hcs => exact ⟨hseq, fun c start hc => hr c start (hcs c start hc)⟩
  | read call request timeout start hre =>
    obtain ⟨rfl, hlt⟩ := read_ok hre
    refine ⟨hseq, ?_⟩
    intro c other hc
    rcases of_insert hc with ⟨-, ⟨⟩⟩ | ⟨-, hc⟩
    · exact hlt
    · exact hr c other hc
  | accept call start gate run hca ha =>
    refine ⟨?_, fun c other hc => hr c other (erase_read hc)⟩
    obtain ⟨-, -, -, hs, -⟩ := accept_ok ha
    rw [length_append, ← hinv.count, hs]
    exact hr call start hca
  | cancel | commit | finish => exact ⟨by rwa [length_set], hr⟩
  | _ => exact ⟨hseq, hr⟩

def Plain : Reply → Prop
  | .begun _ | .dispatched _ _ _ _ => False
  | .done | .started _ | .accepted _ | .panicked | .cancelled _ | .clock _ => True

lemma quiet_plain (h : reply.Quiet) : Plain reply := by
  cases reply with
  | begun run => exact absurd rfl (h 0 ⟨⟨0, 0⟩, .zero, .zero, .zero⟩ "" ∅ 0 run).2.2
  | dispatched j tick inst inputs => exact absurd rfl (h j tick inst inputs 0 ⟨⟨0, 0⟩, ⟨0, 0⟩, none, false, none⟩).1
  | _ => trivial

lemma observe_plain (h : Plain reply) :
    o.observe reply s' = { o with session := s', call := if awaits s'.driver then o.call else .idle } := by
  cases reply with
  | begun | dispatched => cases h
  | _ => rfl

lemma observe_session (o : Owner) (reply : Reply) (s' : Session) : (o.observe reply s').session = s' ∧
    (o.observe reply s').executor = o.executor ∧ (o.observe reply s').retention = o.retention := by
  cases reply <;> exact ⟨rfl, rfl, rfl⟩

lemma Steady.observe_same (h : Steady initial o) (hr : Plain reply) (hd : s'.driver = o.session.driver) :
    o.observe reply s' = { o with session := s' } := by
  rw [observe_plain hr, hd]
  cases ha : awaits o.session.driver with
  | true => rfl
  | false =>
    rw [h.idle ha]
    rfl

lemma observe_idle (hr : ∀ j tick inst inputs, reply ≠ .dispatched j tick inst inputs)
    (hdr : ∀ j adv rest awaiting, s'.driver ≠ .running j adv rest awaiting) :
    (o.observe reply s').call = .idle := by
  have ha : awaits s'.driver = false := by
    cases hd : s'.driver with
    | running j adv rest awaiting => exact absurd hd (hdr j adv rest awaiting)
    | _ => rfl
  cases reply with
  | dispatched j tick inst inputs => exact absurd rfl (hr j tick inst inputs)
  | begun => rfl
  | _ => simp [Owner.observe, ha]

lemma Steady.drive (h : Steady initial o) {event : Event}
    (hev : ∀ outcome override, event ≠ .answer outcome override)
    (hst : o.session.step event = some (reply, s')) : Steady initial (o.observe reply s') := by
  have hm := step_move hst
  have hs := step_sound h.sound hst
  obtain ⟨hseq, hr⟩ := move_sequence hm h.sequence h.reads h.sound.inv
  have hstay : Plain reply → s'.driver = o.session.driver → s'.scheduler = o.session.scheduler →
      Steady initial (o.observe reply s') := by
    intro hrep hdr hsc
    rw [h.observe_same hrep hdr]
    refine ⟨hs, ?_, ?_, hseq, hr⟩
    · intro haw
      exact h.idle (hdr ▸ haw)
    · intro j adv rest awaiting hd
      change Course s'.scheduler o.adapter o.call j adv rest awaiting
      rw [hsc]
      exact h.course j adv rest awaiting (hdr ▸ hd)
  -- the driver is not inside the plan any more
  have hoff : (∀ j tick inst inputs, reply ≠ .dispatched j tick inst inputs) →
      (∀ j adv rest awaiting, s'.driver ≠ .running j adv rest awaiting) → Steady initial (o.observe reply s') := by
    intro hrep hdr
    have hse := (observe_session o reply s').1
    refine ⟨by rwa [hse], fun _ => observe_idle hrep hdr, ?_, by rwa [hse], by rwa [hse]⟩
    intro j adv rest awaiting hd
    rw [hse] at hd
    exact absurd hd (hdr j adv rest awaiting)
  cases hm with
  | idle _ _ _ hrep => exact hstay (quiet_plain hrep) rfl rfl
  | read | accept | handOver | strand | cancel | stop | activate => exact hstay trivial rfl rfl
  | take | ending | commit | reject => exact hoff (by simp) (by simp)
  | park _ _ _ _ ha | finish j _ _ _ _ _ ha =>
    refine hoff (by simp) ?_
    rintro j adv rest awaiting rfl
    cases ha
  | fail _ _ _ hrep | collapse _ _ hrep =>
    refine hoff ?_ (by rintro _ _ _ _ ⟨⟩)
    rcases hrep with rfl | ⟨run, rfl⟩ <;> simp
  | begin j request run adv hdr hrun hb =>
    refine ⟨hs, fun _ => rfl, ?_, hseq, hr⟩
    intro k adv' rest awaiting hd
    cases hd
    obtain ⟨-, valid, hv, rfl⟩ := begin_ok.mp hb
    refine ⟨rfl, by simp, fun _ => rfl, (validate_ok hv).bound, ?_, rfl, rfl⟩
    intro id deadline hid
    obtain ⟨_, -, heq⟩ := Option.map_eq_some_iff.mp hid
    cases heq
    exact h.sound.inv.ids j run hrun
  | dispatch j adv inst rest inputs hdr =>
    have hc := h.course j adv (inst :: rest) none hdr
    refine ⟨hs, by rintro ⟨⟩, ?_, hseq, hr⟩
    intro k adv' rest' awaiting hd
    cases hd
    refine ⟨?_, ?_, by rintro ⟨⟩, hc.bound, hc.run, .inl ⟨inputs, rfl, ?_⟩⟩
    · exact (append_cons _ _ _).symm.trans hc.order
    · intro other ho
      cases ho
      exact ⟨_, rfl⟩
    · have hor := hc.engaged.2
      simp [Advance.dispatch, Owner.observe, hor]
  | answer j adv adv' inst rest outcome hdr =>
    rcases step_awaiting hdr hev hst with ⟨hsa, -⟩ | hn
    · rw [hdr] at hsa
      cases hsa
    · exact absurd rfl (hn j adv' rest none)

variable {adapter : Adapter} {tick : StepTick} {inputs : StepInputs}

lemma context_ok {adapter' : Adapter} (h : adapter.context tick = .ok (context, adapter')) :
    ∃ run deadline, adapter.run = some (run, deadline) ∧
      context = ⟨run, tick, adapter.ordinal, deadline⟩ ∧
        adapter' = { adapter with ordinal := adapter.ordinal + 1 } := by
  obtain ⟨⟨run, deadline⟩, hr, h⟩ := bind_ok.mp h
  obtain ⟨next, hn, h⟩ := bind_ok.mp h
  cases pure_ok.mp h
  rw [ofOption_ok] at hr
  rw [ofOption_ok, checkedAdd_some] at hn
  exact ⟨run, deadline, hr, rfl, by rw [hn.1]⟩

section

variable (h : Steady initial o)

include h

lemma Steady.awaited
    (hca : (∃ tick inputs, o.call = .waiting tick inst inputs) ∨ ∃ context key, o.call = .sent context inst key) :
    ∃ j adv rest, o.session.driver = .running j adv rest (some inst) := by
  have ha : awaits o.session.driver = true := by
    by_contra hnot
    have hid := h.idle (Bool.eq_false_iff.mpr hnot)
    rcases hca with ⟨_, _, hca⟩ | ⟨_, _, hca⟩ <;> rw [hid] at hca <;> cases hca
  cases hd : o.session.driver with
  | running j adv rest awaiting =>
    cases awaiting with
    | none =>
      rw [hd] at ha
      cases ha
    | some other =>
      have ho : inst = other := by
        rcases (h.course j adv rest (some other) hd).engaged with ⟨_, hc, -⟩ | ⟨_, _, hc, -⟩ <;>
          rcases hca with ⟨_, _, hca⟩ | ⟨_, _, hca⟩ <;> rw [hc] at hca <;> cases hca
        · rfl
        · rfl
      exact ⟨j, adv, rest, ho ▸ rfl⟩
  | _ =>
    rw [hd] at ha
    cases ha

lemma Steady.sending (hca : o.call = .waiting tick inst inputs) :
    ∃ j adv rest, o.session.driver = .running j adv rest (some inst) ∧
      tick = adv.request.tick ∧ o.adapter.ordinal + 1 = adv.failure.attempted.length := by
  obtain ⟨j, adv, rest, hd⟩ := h.awaited (Or.inl ⟨tick, inputs, hca⟩)
  rcases (h.course j adv rest (some inst) hd).engaged with ⟨_, hc, ho⟩ | ⟨_, _, hc, -⟩
  · rw [hc] at hca
    cases hca
    exact ⟨j, adv, rest, hd, rfl, ho⟩
  · rw [hc] at hca
    cases hca

lemma Steady.answering {key : StepCallKey} (hca : o.call = .sent context inst key) :
    ∃ j adv rest, o.session.driver = .running j adv rest (some inst) ∧
      context.run = ⟨o.session.scheduler.epoch, j⟩ ∧ context.ordinal + 1 = adv.failure.attempted.length ∧
      o.adapter.ordinal = adv.failure.attempted.length := by
  obtain ⟨j, adv, rest, hd⟩ := h.awaited (Or.inr ⟨context, key, hca⟩)
  rcases (h.course j adv rest (some inst) hd).engaged with ⟨_, hc, -⟩ | ⟨_, _, hc, hr, ho⟩
  · rw [hc] at hca
    cases hca
  · rw [hc] at hca
    cases hca
    exact ⟨j, adv, rest, hd, hr, ho⟩

lemma Steady.send (hc : o.call = .waiting tick inst inputs) (hctx : o.adapter.context tick = .ok (context, adapter))
    (key : StepCallKey) :
    Steady initial { o with adapter, call := .sent context inst key } := by
  obtain ⟨run, deadline, hr, rfl, rfl⟩ := context_ok hctx
  obtain ⟨j, adv, rest, hdr, rfl, ho⟩ := h.sending hc
  refine ⟨h.sound, ?_, ?_, h.sequence, h.reads⟩
  · intro ha
    change awaits o.session.driver = false at ha
    rw [hdr] at ha
    cases ha
  · intro k adv' rest' awaiting hd
    change o.session.driver = _ at hd
    rw [hdr] at hd
    cases hd
    have hco := h.course j adv rest (some inst) hdr
    refine ⟨hco.order, hco.last, hco.armed, hco.bound, hco.run, .inr ⟨_, key, rfl, ?_⟩⟩
    exact ⟨hco.run run deadline hr, ho, ho⟩

lemma Steady.answered {outcome : NodeOutcome} {kind : Option StepFailureKind} {executor : Executor}
    {retention : Retention} (hs : o.session.step (.answer outcome kind) = some (reply, s'))
    (ha : adapter = o.adapter ∧ (∃ context inst key, o.call = .sent context inst key) ∨
      ∀ j adv rest awaiting, s'.driver ≠ .running j adv rest awaiting) :
    Steady initial ⟨s', adapter, executor, retention, .idle⟩ := by
  have hm := step_move hs
  obtain ⟨hseq, hr⟩ := move_sequence hm h.sequence h.reads h.sound.inv
  refine ⟨step_sound h.sound hs, fun _ => rfl, ?_, hseq, hr⟩
  intro j adv' rest awaiting hd
  obtain ⟨rfl, context, inst, key, hc⟩ := ha.resolve_right fun hn => hn j adv' rest awaiting hd
  obtain ⟨k, adv, rest', hdr, -, -, ho⟩ := h.answering hc
  have hco := h.course k adv rest' (some inst) hdr
  simp only [Session.step, Session.answer, hdr] at hs
  split at hs
  · rename_i next hcomp
    cases hs
    cases hd
    obtain ⟨outputs, schema, -, -, -, rfl⟩ := complete_ok.mp hcomp
    exact ⟨hco.order, (by intro _ h; cases h), hco.armed, hco.bound, hco.run, rfl, ho⟩
  · cases hs
    cases hd
  · cases hs
    cases hd

end

theorem OwnerMove.steady {reply : OwnerReply} (hm : OwnerMove o reply o') (h : Steady initial o) :
    Steady initial o' := by
  cases hm with
  | drive event reply session hev hs => exact h.drive hev hs
  | send tick inst inputs context adapter host invocation hc hctx => exact h.send hc hctx _
  | fail adapter executor message kind reply session hs =>
    obtain ⟨_, failure, -, hd, -⟩ := answer_failed hs
    refine h.answered hs (Or.inr ?_)
    rw [hd]
    simp
  | answer context inst key outputs executor retention reply session hc _ hs =>
    exact h.answered hs (Or.inl ⟨rfl, context, inst, key, hc⟩)
  | reserve available => exact ⟨h.sound, h.idle, h.course, h.sequence, h.reads⟩

end Steadiness

variable {α : Type} {planDigest : PlanDigest} {parts : List (Map String α)} {graph : StepGraph}
  {key : StepSessionKey}
  {initial : Duration} {horizon epochs next : ℕ} {bound : BoundGraph}

structure Prepared (parts : List (Map String α)) (graph : StepGraph) (initial : Duration)
    (horizon epochs : ℕ) (o : Owner)
    (bound : BoundGraph) : Prop where
  order : ∃ order, Plan.compile graph = .ok ⟨graph, order⟩ ∧ bound.order = order ∧
    o = ⟨.new ⟨⟨graph, order⟩, epochs, 0, initial, ∅, none⟩ false horizon, ⟨none, 0, none⟩,
      ⟨placementOf parts, bound.session, delayedSources graph, order.length - 1, none, 0, 0⟩,
      ⟨o.retention.bootstrap, 0, 0⟩, .idle⟩
  seeds : bootstrap graph = some o.retention.bootstrap
  epoch : bound.epoch = epochs
  time : bound.initialTime = .ofDuration initial

lemma compile_graph {plan : Plan} (h : Plan.compile graph = .ok plan) : plan.graph = graph := by
  obtain ⟨order, -, h⟩ := bind_ok.mp h
  cases pure_ok.mp h
  rfl

lemma prepare_ok (h : Owner.prepare planDigest parts graph key initial horizon epochs = .ok (o, bound, next)) :
    Prepared parts graph initial horizon epochs o bound := by
  obtain ⟨plan, hp, h⟩ := bind_ok.mp h
  obtain ⟨sealed, hse, h⟩ := bind_ok.mp h
  obtain ⟨seeds, hs, h⟩ := bind_ok.mp h
  obtain ⟨-, h⟩ := ensure_bind_ok.mp h
  obtain ⟨⟨scheduler, last⟩, hn, h⟩ := bind_ok.mp h
  cases pure_ok.mp h
  rw [mapError_ok] at hp hse hn
  rw [ofOption_ok] at hs
  obtain ⟨wire, -, hse⟩ := bind_ok.mp hse
  obtain ⟨digest, -, hse⟩ := bind_ok.mp hse
  cases pure_ok.mp hse
  obtain ⟨plan', hp', hn⟩ := bind_ok.mp hn
  obtain ⟨_, -, hn⟩ := bind_ok.mp hn
  cases pure_ok.mp hn
  rw [hp] at hp'
  cases hp'
  obtain ⟨graph', order⟩ := plan
  cases compile_graph hp
  exact ⟨⟨order, hp, rfl, rfl⟩, hs, rfl, rfl⟩

lemma Prepared.steady (h : Prepared parts graph initial horizon epochs o bound) : Steady initial o := by
  obtain ⟨order, -, -, ho⟩ := h.order
  rw [ho]
  refine ⟨⟨new_inv _ _ rfl rfl, new_flight _ _ rfl⟩, fun _ => rfl, by rintro _ _ _ _ ⟨⟩, (by decide : 0 < U64), ?_⟩
  intro c start hc
  change (∅ : Map ℕ Pending)[c]? = _ at hc
  rw [ExtTreeMap.getElem?_empty] at hc
  cases hc

end Reiny.Process
