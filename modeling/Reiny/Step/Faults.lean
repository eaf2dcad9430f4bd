import Reiny.Step.Dataflow

namespace Reiny.Step

open Std Lib Results Checked Topological Maps List

structure NodeCall where
  inst : String
  tick : StepTick
  inputs : StepInputs

/-- What comes of an await: the node ends, or the caller drops the advancement, which may be because its
thread unwinds. -/
inductive Awaited
  | ended (outcome : NodeOutcome)
  | dropped
  | unwound

abbrev Executor := List NodeCall → Awaited

inductive Halt
  | missed
  | failed (failure : StepFailure)
  | dropped
  | unwound

structure Awaiting where
  result : Except Halt Unit
  calls : List NodeCall
  adv : Advance

/-- `result` is `none` for a dropped advancement, which returns nothing. -/
structure Attempt where
  result : Option (Except (Abort SchedulerError) StepReceipt)
  calls : List NodeCall
  scheduler : StepScheduler

namespace StepScheduler

def awaitNodes (s : StepScheduler) (executor : Executor) : List String → List NodeCall → Advance → Awaiting
  | [], calls, adv => ⟨.ok (), calls, adv⟩
  | inst :: rest, calls, adv =>
    match (s.gather adv.request (fun output => adv.outputs[output]?) inst :
      Except (Abort StepFailure) StepInputs) with
    | .error _ => ⟨.error .missed, calls, adv⟩
    | .ok inputs =>
      let calls := calls ++ [⟨inst, adv.request.tick, inputs⟩]
      let sent := adv.dispatch inst
      match executor calls with
      | .dropped => ⟨.error .dropped, calls, sent⟩
      | .unwound => ⟨.error .unwound, calls, sent⟩
      | .ended outcome =>
        match sent.complete s.plan.graph.nodes inst outcome with
        | .error .missed => ⟨.error .missed, calls, sent⟩
        | .error (.failed failure) => ⟨.error (.failed failure), calls, sent⟩
        | .ok adv => awaitNodes s executor rest calls adv

def attempt (s : StepScheduler) (executor : Executor) (request : StepRequest)
    (control : StepReceipt → ClockSnapshot → Option StepFailureKind) : Attempt :=
  match s.begin request with
  | .error e => ⟨some (.error e), [], s⟩
  | .ok adv =>
    match s.awaitNodes executor s.plan.order [] adv with
    | ⟨.error (.failed failure), calls, _⟩ =>
      ⟨some (.error (.failed (.failed failure))), calls, s.fail failure⟩
    | ⟨.error .missed, calls, adv⟩ =>
      ⟨some (.error .missed), calls, { s with fault := adv.unwound s.fault }⟩
    | ⟨.error .dropped, calls, adv⟩ => ⟨none, calls, { s with fault := adv.dropped s.fault }⟩
    | ⟨.error .unwound, calls, adv⟩ => ⟨none, calls, { s with fault := adv.unwound s.fault }⟩
    | ⟨.ok (), calls, adv⟩ =>
      let (result, s) := s.conclude adv control
      ⟨some result, calls, s⟩

inductive Use
  | attempt (executor : Executor) (request : StepRequest)
      (control : StepReceipt → ClockSnapshot → Option StepFailureKind)
  | interrupted (kind : StepFailureKind)

def use (s : StepScheduler) : Use → StepScheduler
  | .attempt executor request control => (s.attempt executor request control).scheduler
  | .interrupted kind => (s.interrupted kind).2

def used (s : StepScheduler) (uses : List Use) : StepScheduler := uses.foldl use s

end StepScheduler

structure StepFailure.Recorded (failure : StepFailure) (order : List String) : Prop where
  attempted : failure.attempted <+: order
  completed : failure.completed <+: failure.attempted
  behind : failure.attempted.length ≤ failure.completed.length + 1

lemma StepFailure.Recorded.congr {failure failure' : StepFailure} {order : List String} (h : failure.Recorded order)
    (ha : failure'.attempted = failure.attempted) (hc : failure'.completed = failure.completed) :
    failure'.Recorded order := by
  obtain ⟨h₁, h₂, h₃⟩ := h
  rw [← ha] at h₁ h₂ h₃
  rw [← hc] at h₂ h₃
  exact ⟨h₁, h₂, h₃⟩

variable {s : StepScheduler} {executor : Executor} {request : StepRequest} {calls : List NodeCall} {adv : Advance}
  {inst : String} {done rest : List String} {node : StepScheduler.Nodes}
  {control : StepReceipt → ClockSnapshot → Option StepFailureKind}

structure Between (s : StepScheduler) (done : List String) (adv : Advance) : Prop where
  attempted : adv.failure.attempted = done
  completed : adv.failure.completed = done
  produced : Produced s.plan.graph.nodes done adv.outputs
  external : ∀ input : StepInput, s.plan.graph.inputs[input]? = some .external → input ∈ adv.request.inputs

variable {order : List String}

lemma Between.recorded (h : Between s done adv) (ho : done <+: order) : adv.failure.Recorded order := by
  refine ⟨?_, ?_, ?_⟩
  · rwa [h.attempted]
  · rw [h.attempted, h.completed]
  · rw [h.attempted, h.completed]
    omega

lemma Between.dispatched (h : Between s done adv) (ho : order = done ++ inst :: rest) :
    (adv.dispatch inst).failure.Recorded order := by
  refine ⟨⟨rest, ?_⟩, ⟨[inst], ?_⟩, ?_⟩
  · rw [Advance.dispatch, h.attempted, ho, append_assoc, singleton_append]
  · rw [Advance.dispatch, h.attempted, h.completed]
  · simp [Advance.dispatch, h.attempted, h.completed]

variable {failure : StepFailure}

lemma complete_failure {nodes : Map String StepSchema} {outcome : NodeOutcome}
    (h : adv.complete nodes inst outcome = .error (.failed failure)) :
    failure.attempted = adv.failure.attempted ∧ failure.completed = adv.failure.completed := by
  cases outcome with
  | error | panicked =>
    cases h
    exact ⟨rfl, rfl⟩
  | ok outputs =>
    cases hs : nodes[inst]? with
    | none =>
      simp only [Advance.complete, catchNode, index, ofOption, hs] at h
      cases h
    | some schema =>
      simp only [Advance.complete, catchNode, index, ofOption, hs, bind, Except.bind] at h
      split at h
      · cases h
        exact ⟨rfl, rfl⟩
      · cases h

def Awaiting.Sound (s : StepScheduler) (ending : Awaiting) : Prop :=
  match ending.result with
  | .ok () => Between s s.plan.order ending.adv
  | .error .missed => False
  | .error (.failed failure) => failure.Recorded s.plan.order
  | .error .dropped => ending.adv.armed = true ∧ ending.adv.failure.Recorded s.plan.order
  | .error .unwound => ending.adv.armed = true ∧ ending.adv.failure.Recorded s.plan.order

lemma Between.absorbed (h : Between s done adv) {outputs : StepOutputs} {schema : StepSchema}
    (hs : s.plan.graph.nodes[inst]? = some schema) (hv : invalidOutput schema.outputs outputs = none) :
    Between s (done ++ [inst]) ((adv.dispatch inst).absorb inst outputs) where
  attempted := congrArg (· ++ [inst]) h.attempted
  completed := congrArg (· ++ [inst]) h.completed
  produced := h.produced.absorb hs hv
  external := h.external

lemma awaitNodes_sound (hs : Stocked s) (h : Between s done adv) (ho : s.plan.order = done ++ rest)
    (hrd : Ready (sameTickDeps s.plan.graph) done rest) :
    (s.awaitNodes executor rest calls adv).Sound s := by
  induction rest generalizing done adv calls with
  | nil =>
    rw [append_nil] at ho
    rw [Awaiting.Sound, StepScheduler.awaitNodes, ho]
    exact h
  | cons inst rest ih =>
    obtain ⟨-, hd, hr⟩ := hrd
    have hn : inst ∈ s.plan.graph.nodes := (hs.compiled.nodes inst).mp (by rw [ho]; simp)
    obtain ⟨inputs, hg⟩ := gather_stocked (ε := StepFailure) hs h.external h.produced hd
    have hse := h.dispatched ho
    simp only [StepScheduler.awaitNodes, hg]
    cases he : executor (calls ++ [⟨inst, adv.request.tick, inputs⟩]) with
    | dropped | unwound => exact And.intro rfl hse
    | ended outcome =>
      have hco : Hits ((adv.dispatch inst).complete s.plan.graph.nodes inst outcome) := complete_hits hn
      rcases hc : (adv.dispatch inst).complete s.plan.graph.nodes inst outcome with (_ | failure) | next
      · exact absurd hc hco
      · obtain ⟨ha, hcomp⟩ := complete_failure hc
        simp only [hc]
        exact hse.congr ha hcomp
      · obtain ⟨outputs, schema, -, hsch, hv, rfl⟩ := complete_ok.mp hc
        simp only [hc]
        refine ih (h.absorbed hsch hv) ?_ hr
        rw [ho, append_assoc, singleton_append]

def Halt.abort : Halt → Abort StepFailure
  | .failed failure => .failed failure
  | .missed | .dropped | .unwound => .missed

lemma awaitNodes_runNodes {node : StepScheduler.Nodes}
    (he : ∀ calls call, executor (calls ++ [call]) = .ended (node call.inst call.tick call.inputs))
    (hh : (s.awaitNodes executor rest calls adv).result ≠ .error .missed) : s.runNodes node rest adv =
      ((s.awaitNodes executor rest calls adv).result.mapError Halt.abort,
        (s.awaitNodes executor rest calls adv).adv) := by
  induction rest generalizing calls adv with
  | nil => rfl
  | cons inst rest ih =>
    simp only [StepScheduler.awaitNodes, StepScheduler.runNodes, StepScheduler.runNode] at hh ⊢
    cases hg : (s.gather adv.request (fun output => adv.outputs[output]?) inst :
      Except (Abort StepFailure) StepInputs) with
    | error e =>
      rw [hg] at hh
      exact absurd rfl hh
    | ok inputs =>
      simp only [hg, he] at hh ⊢
      rcases hc : (adv.dispatch inst).complete s.plan.graph.nodes inst (node inst adv.request.tick inputs) with
        (_ | failure) | next
      · rfl
      · rfl
      · simp only [hc] at hh ⊢
        exact ih hh

structure Remembering (s : StepScheduler) : Prop where
  stocked : Stocked s
  recorded : ∀ failure, s.fault = some failure → failure.Recorded s.plan.order

inductive Uncommitted (s : StepScheduler) : Attempt → Prop
  | rejected (e : StepRequestError) : s.fault = none → Uncommitted s ⟨some (.error (.failed (.request e))), [], s⟩
  | faulted (failure : StepFailure) : s.fault = some failure →
      Uncommitted s ⟨some (.error (.failed (.faulted failure))), [], s⟩
  | failed (result : Option (Except (Abort SchedulerError) StepReceipt)) (calls : List NodeCall)
      (failure : StepFailure) : s.fault = none → failure.Recorded s.plan.order →
      (∀ e, result ≠ some (.error (.failed (.request e)))) → Uncommitted s ⟨result, calls, s.fail failure⟩

lemma begin_error {e : Abort SchedulerError} (hs : Stocked s) (h : s.begin request = .error e) :
    (∃ failure, s.fault = some failure ∧ e = .failed (.faulted failure)) ∨
      s.fault = none ∧ ∃ error, e = .failed (.request error) := by
  have hv : Hits (request.validate s.plan s.clock) := validate_hits hs.compiled s.clock
  unfold StepScheduler.begin at h
  cases hf : s.fault with
  | some failure =>
    rw [hf] at h
    cases h
    exact .inl ⟨failure, rfl, rfl⟩
  | none =>
    rw [hf] at h
    rcases hr : request.validate s.plan s.clock with (_ | error) | valid
    · exact absurd hr hv
    · rw [hr] at h
      cases h
      exact .inr ⟨rfl, error, rfl⟩
    · rw [hr] at h
      cases h

lemma between_new {valid : ValidatedRequest} (h : request.validate s.plan s.clock = .ok valid) :
    Between s [] (.new valid) where
  attempted := rfl
  completed := rfl
  produced := fun _ hn => by cases hn
  external := by
    have hv := validate_ok h
    intro input hin
    rw [show (Advance.new valid).request.inputs = request.inputs from hv.inputs]
    exact hv.external input hin

lemma attempt_cases (hs : Stocked s) {ending : Attempt} (he : ending = s.attempt executor request control) :
    Uncommitted s ending ∨ (∃ receipt, ending.result = some (.ok receipt)) ∧ s.fault = none ∧
      ending.scheduler.fault = none ∧ ending.scheduler.plan = s.plan ∧ Stocked ending.scheduler := by
  subst he
  cases hb : s.begin request with
  | error e =>
    left
    simp only [StepScheduler.attempt, hb]
    rcases begin_error hs hb with ⟨failure, hf, rfl⟩ | ⟨hf, error, rfl⟩
    · exact .faulted failure hf
    · exact .rejected error hf
  | ok start =>
    obtain ⟨hf, valid, hv, rfl⟩ := begin_ok.mp hb
    have hso : (s.awaitNodes executor s.plan.order [] (.new valid)).Sound s :=
      awaitNodes_sound hs (between_new hv) rfl hs.compiled.ready
    simp only [StepScheduler.attempt, hb]
    rcases ha : s.awaitNodes executor s.plan.order [] (.new valid) with ⟨(_ | failure | _ | _) | _, calls, adv⟩
    · rw [ha] at hso
      exact hso.elim
    · rw [ha] at hso
      exact .inl (.failed _ calls failure hf hso (by simp))
    · rw [ha] at hso
      obtain ⟨har, hrec⟩ := hso
      simp only [Advance.dropped, show adv.armed = true from har, if_true]
      exact .inl (.failed none calls adv.failure hf hrec (by simp))
    · rw [ha] at hso
      obtain ⟨har, hrec⟩ := hso
      simp only [Advance.unwound, show adv.armed = true from har, if_true]
      exact .inl (.failed none calls _ hf (hrec.congr rfl rfl) (by simp))
    · rw [ha] at hso
      have hbe : Between s s.plan.order adv := hso
      have hst : Stocked (s.conclude adv control).2 := (conclude_hits hs hbe.produced).2
      obtain ⟨previous, hr⟩ := retain_total (ε := SchedulerError) hs.compiled hbe.produced
      simp only [StepScheduler.conclude, hr] at hst ⊢
      cases hc : control (StepScheduler.receipt adv) (s.committedClock adv) with
      | some kind =>
        exact .inl (.failed _ calls _ hf ((hbe.recorded (prefix_refl _)).congr rfl rfl) (by simp))
      | none =>
        rw [hc] at hst
        exact .inr ⟨⟨_, rfl⟩, hf, hf, rfl, hst⟩

lemma Remembering.use (h : Remembering s) (event : StepScheduler.Use) :
    Remembering (s.use event) ∧ (s.use event).plan = s.plan := by
  cases event with
  | interrupted kind =>
    cases hf : s.fault with
    | none =>
      simp only [StepScheduler.use, StepScheduler.interrupted, hf]
      exact ⟨h, trivial⟩
    | some failure =>
      have hr := h.recorded failure hf
      simp only [StepScheduler.use, StepScheduler.interrupted, hf]
      refine ⟨⟨⟨h.stocked.compiled, h.stocked.kept⟩, ?_⟩, trivial⟩
      rintro _ ⟨⟩
      exact hr.congr rfl rfl
  | attempt executor request control =>
    generalize he : s.attempt executor request control = ending
    rw [StepScheduler.use, he]
    rcases attempt_cases h.stocked he.symm with hen | ⟨-, -, hf, hp, hs⟩
    · cases hen with
      | rejected e hf => exact ⟨h, rfl⟩
      | faulted failure hf => exact ⟨h, rfl⟩
      | failed result calls failure hf hr hres =>
        refine ⟨⟨⟨h.stocked.compiled, h.stocked.kept⟩, ?_⟩, rfl⟩
        rintro _ ⟨⟩
        exact hr
    · refine ⟨⟨hs, ?_⟩, hp⟩
      intro failure hso
      rw [hf] at hso
      cases hso

lemma Remembering.used (h : Remembering s) (uses : List StepScheduler.Use) :
    Remembering (s.used uses) ∧ (s.used uses).plan = s.plan := by
  induction uses generalizing s with
  | nil => exact ⟨h, rfl⟩
  | cons event uses ih =>
    obtain ⟨hn, hpl⟩ := h.use event
    obtain ⟨hl, hp⟩ := ih hn
    exact ⟨hl, hp.trans hpl⟩

structure StepFailure.SameRecord (failure failure' : StepFailure) : Prop where
  tick : failure'.tick = failure.tick
  inst : failure'.inst = failure.inst
  port : failure'.port = failure.port
  attempted : failure'.attempted = failure.attempted
  completed : failure'.completed = failure.completed

lemma use_faulted (hf : s.fault = some failure) (event : StepScheduler.Use) :
    ∃ failure', (s.use event).fault = some failure' ∧ failure.SameRecord failure' := by
  cases event with
  | interrupted kind =>
    simp only [StepScheduler.use, StepScheduler.interrupted, hf]
    exact ⟨_, rfl, rfl, rfl, rfl, rfl, rfl⟩
  | attempt executor request control =>
    simp only [StepScheduler.use, StepScheduler.attempt, StepScheduler.begin, hf]
    exact ⟨failure, rfl, rfl, rfl, rfl, rfl, rfl⟩

lemma used_faulted (hf : s.fault = some failure) (uses : List StepScheduler.Use) :
    ∃ failure', (s.used uses).fault = some failure' ∧ failure.SameRecord failure' := by
  induction uses generalizing s failure with
  | nil => exact ⟨failure, hf, rfl, rfl, rfl, rfl, rfl⟩
  | cons event uses ih =>
    obtain ⟨next, hn, hs⟩ := use_faulted hf event
    obtain ⟨last, hl, hs'⟩ := ih hn
    exact ⟨last, hl, hs'.tick.trans hs.tick, hs'.inst.trans hs.inst, hs'.port.trans hs.port,
      hs'.attempted.trans hs.attempted, hs'.completed.trans hs.completed⟩

lemma remembering_new {graph : StepGraph} {initialTime : Duration} {epochs next : ℕ} {s₀ : StepScheduler}
    (hn : StepScheduler.new graph initialTime epochs = .ok (s₀, next)) : Remembering s₀ := by
  obtain ⟨plan, -, hc, rfl⟩ := new_ok hn
  refine ⟨⟨hc, fun hz => absurd rfl hz⟩, ?_⟩
  rintro _ ⟨⟩

/-- An advancement that returns no receipt leaves the clock and the delayed store as they were. -/
theorem failed_tick_leaves_no_trace {graph : StepGraph} {initialTime : Duration} {epochs next : ℕ}
    {s₀ s : StepScheduler} {uses : List StepScheduler.Use} {executor : Executor} {request : StepRequest}
    {control : StepReceipt → ClockSnapshot → Option StepFailureKind} {ending : Attempt}
    (hnew : StepScheduler.new graph initialTime epochs = .ok (s₀, next)) (hs : s = s₀.used uses)
    (hending : ending = s.attempt executor request control)
    (hresult : ∀ receipt, ending.result ≠ some (.ok receipt)) :
    ending.scheduler.time = s.time ∧ ending.scheduler.nextIndex = s.nextIndex ∧
    ending.scheduler.previous = s.previous ∧
    ((∃ e, ending.result = some (.error (.failed (.request e)))) →
      ending.calls = [] ∧ ending.scheduler = s ∧ s.clock.phase = .ready) ∧
    ((¬ ∃ e, ending.result = some (.error (.failed (.request e)))) → ∃ failure,
      ending.scheduler.fault = some failure ∧ failure.attempted <+: s.plan.order ∧
      failure.completed <+: failure.attempted ∧ failure.attempted.length ≤ failure.completed.length + 1 ∧
      ∀ later, ∃ failure', (ending.scheduler.used later).fault = some failure' ∧ failure.SameRecord failure' ∧
        ∀ executor request control, (ending.scheduler.used later).attempt executor request control =
          ⟨some (.error (.failed (.faulted failure'))), [], ending.scheduler.used later⟩) := by
  subst hs
  have hk := ((remembering_new hnew).used uses).1
  have hst : ∀ {t : StepScheduler} {failure : StepFailure}, t.fault = some failure → ∀ later, ∃ failure',
      (t.used later).fault = some failure' ∧ failure.SameRecord failure' ∧
        ∀ executor request control, (t.used later).attempt executor request control =
          ⟨some (.error (.failed (.faulted failure'))), [], t.used later⟩ := by
    intro t failure hf later
    obtain ⟨failure', hf', hsa⟩ := used_faulted hf later
    refine ⟨failure', hf', hsa, fun executor request control => ?_⟩
    simp only [StepScheduler.attempt, StepScheduler.begin, hf']
  rcases attempt_cases hk.stocked hending with hen | ⟨⟨receipt, hr⟩, -⟩
  · cases hen with
    | rejected e hf =>
      refine ⟨rfl, rfl, rfl, fun _ => ⟨rfl, rfl, ?_⟩, fun hn => absurd ⟨e, rfl⟩ hn⟩
      simp only [StepScheduler.clock, hf]
    | faulted failure hf =>
      refine ⟨rfl, rfl, rfl, ?_, fun _ => ?_⟩
      · rintro ⟨e, he⟩
        cases he
      · have hrec := hk.recorded failure hf
        exact ⟨failure, hf, hrec.attempted, hrec.completed, hrec.behind, hst hf⟩
    | failed result calls failure hf hrec hn =>
      refine ⟨rfl, rfl, rfl, ?_, fun _ => ?_⟩
      · rintro ⟨e, he⟩
        exact absurd he (hn e)
      · exact ⟨failure, rfl, hrec.attempted, hrec.completed, hrec.behind, hst rfl⟩
  · exact absurd hr (hresult receipt)

def loopDropped : Executor := fun calls =>
  match calls with
  | [call] => .ended (loopNode call.inst call.tick call.inputs)
  | _ => .dropped

theorem failed_tick_leaves_no_trace_loop :
    StepScheduler.new loopGraph .zero 3 = .ok (loopStart, 4) ∧
    (loopStart.attempt loopDropped (loopRequest 1) fun _ _ => none).result.isNone = true ∧
    (loopStart.attempt loopDropped (loopRequest 1) fun _ _ => none).scheduler.previous = ∅ := by
  have hnew : StepScheduler.new loopGraph .zero 3 = .ok (loopStart, 4) := by decide +kernel
  have hn : (loopStart.attempt loopDropped (loopRequest 1) fun _ _ => none).result.isNone = true := by
    decide +kernel
  have hst : loopStart = loopStart.used [] := rfl
  refine ⟨hnew, hn, (failed_tick_leaves_no_trace hnew hst rfl ?_).2.2.1⟩
  intro receipt hr
  rw [hr] at hn
  cases hn

end Reiny.Step
