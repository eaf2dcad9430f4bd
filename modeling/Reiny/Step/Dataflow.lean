import Reiny.Step.Lookups

namespace Reiny.Step

open Std Lib Results Checked Topological Maps List StepScheduler

def lookup (env : String → Option StepOutputs) (output : StepOutput) : Option StepValue :=
  (env output.inst).bind fun outputs => outputs[output.port]?

section Evaluation

def StepScheduler.equation (s : StepScheduler) (request : ValidatedRequest) (node : StepScheduler.Nodes)
    (env : String → Option StepOutputs) (inst : String) : Option StepOutputs :=
  match (s.gather request (lookup env) inst : Except (Abort StepFailure) StepInputs) with
  | .error _ => none
  | .ok inputs =>
    match node inst request.tick inputs, s.plan.graph.nodes[inst]? with
    | .ok outputs, some schema => if invalidOutput schema.outputs outputs = none then some outputs else none
    | _, _ => none

variable {s : StepScheduler} {request : ValidatedRequest} {node : StepScheduler.Nodes}
  {env env' : String → Option StepOutputs} {inst : String} {outputs : StepOutputs} {adv adv' : Advance}

lemma equation_some : s.equation request node env inst = some outputs ↔ ∃ inputs schema,
    (s.gather request (lookup env) inst : Except (Abort StepFailure) StepInputs) = .ok inputs ∧
      node inst request.tick inputs = .ok outputs ∧ s.plan.graph.nodes[inst]? = some schema ∧
        invalidOutput schema.outputs outputs = none := by
  unfold equation
  cases hg : (s.gather request (lookup env) inst : Except (Abort StepFailure) StepInputs) with
  | error e => simp
  | ok inputs =>
    cases hn : node inst request.tick inputs with
    | error message => simp [hn]
    | panicked detail => simp [hn]
    | ok produced =>
      cases hs : s.plan.graph.nodes[inst]? with
      | none => simp
      | some schema =>
        simp only [hn, Option.ite_none_right_eq_some, Except.ok.injEq, Option.some.injEq]
        constructor
        · rintro ⟨hi, rfl⟩
          exact ⟨inputs, schema, rfl, hn, rfl, hi⟩
        · rintro ⟨_, _, rfl, hn', rfl, hi⟩
          rw [hn] at hn'
          cases hn'
          exact ⟨hi, rfl⟩

lemma equation_causal : Causal (sameTickDeps s.plan.graph) (s.equation request node) := by
  intro inst env env' h
  have hg : (s.gather request (lookup env) inst : Except (Abort StepFailure) StepInputs) =
      s.gather request (lookup env') inst := by
    apply gather_congr
    rintro ⟨_, port⟩ output hs rfl
    unfold lookup
    rw [h output.inst ⟨port, output, hs, rfl⟩]
  unfold equation
  rw [hg]

def Holds (outputs : Map StepOutput StepValue) (env : String → Option StepOutputs) : Prop :=
  ∀ output : StepOutput, outputs[output]? = lookup env output

lemma Holds.absorb (h : Holds adv.outputs env) (hn : env inst = none) :
    Holds ((adv.dispatch inst).absorb inst outputs).outputs (Function.update env inst (some outputs)) := by
  intro output
  rw [absorb_outputs]
  by_cases hi : output.inst = inst
  · have hb : (adv.dispatch inst).outputs[output]? = none := by
      rw [show (adv.dispatch inst).outputs = adv.outputs from rfl, h output, lookup, hi, hn]
      rfl
    rw [if_pos hi, hb, Option.or_none, lookup, hi, Function.update_self]
    rfl
  · rw [if_neg hi, lookup, Function.update_of_ne hi]
    exact h output

lemma runNode_equation (h : Holds adv.outputs env) : s.runNode node inst adv = (.ok (), adv') ↔
    ∃ outputs, s.equation adv.request node env inst = some outputs ∧
      adv' = (adv.dispatch inst).absorb inst outputs := by
  have hl : (fun output => adv.outputs[output]?) = lookup env := funext h
  rw [runNode_ok, hl]
  simp only [equation_some]
  constructor
  · rintro ⟨inputs, outputs, schema, hg, hn, hs, hi, rfl⟩
    exact ⟨outputs, ⟨inputs, schema, hg, hn, hs, hi⟩, rfl⟩
  · rintro ⟨outputs, ⟨inputs, schema, hg, hn, hs, hi⟩, rfl⟩
    exact ⟨inputs, outputs, schema, hg, hn, hs, hi, rfl⟩

lemma Holds.fresh {rest : List String} (hnd : (inst :: rest).Nodup) (hnew : ∀ n ∈ inst :: rest, env n = none) :
    ∀ n ∈ rest, Function.update env inst (some outputs) n = none := by
  intro n hn
  have hne : n ≠ inst := by
    rintro rfl
    exact (nodup_cons.mp hnd).1 hn
  rw [Function.update_of_ne hne]
  exact hnew n (mem_cons_of_mem _ hn)

variable {order : List String}

variable (h : Holds adv.outputs env) (hnd : order.Nodup) (hn : ∀ n ∈ order, env n = none)

include h hnd hn

lemma runNodes_evalFrom (hr : s.runNodes node order adv = (.ok (), adv')) :
    adv'.request = adv.request ∧
      ∃ env', evalFrom (s.equation adv.request node) env order = some env' ∧ Holds adv'.outputs env' := by
  induction order generalizing adv env with
  | nil =>
    cases hr
    exact ⟨rfl, env, rfl, h⟩
  | cons inst rest ih =>
    obtain ⟨mid, hm, hr⟩ := runNodes_cons.mp hr
    obtain ⟨outputs, heq, rfl⟩ := (runNode_equation h).mp hm
    obtain ⟨hreq, env', he, hh⟩ := ih (h.absorb (hn inst mem_cons_self))
      (nodup_cons.mp hnd).2 (Holds.fresh hnd hn) hr
    refine ⟨hreq, env', ?_, hh⟩
    rw [evalFrom, heq]
    exact he

lemma evalFrom_runNodes (he : evalFrom (s.equation adv.request node) env order = some env') :
    ∃ adv', s.runNodes node order adv = (.ok (), adv') ∧ adv'.request = adv.request ∧ Holds adv'.outputs env' := by
  induction order generalizing adv env with
  | nil =>
    cases he
    exact ⟨adv, rfl, rfl, h⟩
  | cons inst rest ih =>
    obtain ⟨outputs, heq, he⟩ := Option.bind_eq_some_iff.mp he
    have hm := (runNode_equation h).mpr ⟨outputs, heq, rfl⟩
    obtain ⟨adv', hr, hreq, hh⟩ := ih
      (h.absorb (hn inst mem_cons_self)) (nodup_cons.mp hnd).2 (Holds.fresh hnd hn) he
    exact ⟨adv', runNodes_cons.mpr ⟨_, hm, hr⟩, hreq, hh⟩

end Evaluation

section Ticks

/-- The value of an input, from the request, the receipt of the tick before and that of the tick itself. -/
def flowValue (request : StepRequest) (last : Option StepReceipt) (receipt : StepReceipt) (input : StepInput) :
    StepSource → Option StepValue
  | .external => request.inputs[input]?
  | .sameTick source => receipt.outputs[source]?
  | .previousTick source initial =>
    match last with
    | none => some initial
    | some last => last.outputs[source]?

structure TickFlow (graph : StepGraph) (node : StepScheduler.Nodes) (request : StepRequest)
    (last : Option StepReceipt) (receipt : StepReceipt) : Prop where
  each : ∀ inst ∈ graph.nodes, ∃ inputs outputs,
    (∀ port, inputs[port]? =
      graph.inputs[(⟨inst, port⟩ : StepInput)]?.bind (flowValue request last receipt ⟨inst, port⟩)) ∧
    (∀ port, (⟨inst, port⟩ : StepInput) ∈ graph.inputs → port ∈ inputs) ∧
    node inst receipt.tick inputs = .ok outputs ∧
    ∀ port, receipt.outputs[(⟨inst, port⟩ : StepOutput)]? = outputs[port]?
  only : ∀ output ∈ receipt.outputs, output.inst ∈ graph.nodes

structure Delayed (s : StepScheduler) (last : Option StepReceipt) : Prop where
  first : s.nextIndex = 0 ↔ last = none
  kept : ∀ receipt, last = some receipt → ∀ (input : StepInput) source initial,
    s.plan.graph.inputs[input]? = some (.previousTick source initial) →
      s.previous[source]? = receipt.outputs[source]? ∧ source ∈ s.previous

variable {s s' : StepScheduler} {request : StepRequest} {valid : ValidatedRequest} {node : StepScheduler.Nodes}
  {receipt : StepReceipt} {last : Option StepReceipt} {adv : Advance} {previous : Map StepOutput StepValue}
  {env : String → Option StepOutputs}

structure Committed (s : StepScheduler) (node : StepScheduler.Nodes) (request : StepRequest)
    (valid : ValidatedRequest)
    (adv : Advance) (previous : Map StepOutput StepValue) : Prop where
  sound : s.fault = none
  checked : request.validate s.plan s.clock = .ok valid
  ran : s.runNodes node s.plan.order (.new valid) = (.ok (), adv)
  retained : (s.retain adv.outputs : Except (Abort SchedulerError) (Map StepOutput StepValue)) = .ok previous

lemma advance_ok : s.advance node request = (.ok receipt, s') ↔ ∃ valid adv previous,
    Committed s node request valid adv previous ∧ receipt = StepScheduler.receipt adv ∧
      s' = s.applyCommit adv previous := by
  unfold StepScheduler.advance StepScheduler.advanceControlled
  constructor
  · intro h
    cases hb : s.begin request with
    | error e =>
      rw [hb] at h
      cases h
    | ok adv₀ =>
      obtain ⟨hf, valid, hv, rfl⟩ := begin_ok.mp hb
      rcases hr : s.runNodes node s.plan.order (.new valid) with ⟨⟨_ | _⟩ | _, adv⟩
      · simp [hb, hr] at h
      · simp [hb, hr] at h
      · simp only [hb, hr, StepScheduler.conclude] at h
        cases hp : (s.retain adv.outputs : Except (Abort SchedulerError) (Map StepOutput StepValue)) with
        | error e => simp [hp] at h
        | ok previous =>
          rw [hp] at h
          cases h
          exact ⟨valid, adv, previous, ⟨hf, hv, hr, hp⟩, rfl, rfl⟩
  · rintro ⟨valid, adv, previous, h, rfl, rfl⟩
    simp only [begin_ok.mpr ⟨h.sound, valid, h.checked, rfl⟩, h.ran, StepScheduler.conclude, h.retained]

lemma sourceValue_flow (hl : Delayed s last) (hv : valid.inputs = request.inputs)
    (ho : ∀ output : StepOutput, receipt.outputs[output]? = lookup env output) {input : StepInput}
    {source : StepSource} {value : StepValue} {ε : Type} (hs : s.plan.graph.inputs[input]? = some source)
    (h : (s.sourceValue valid (lookup env) input source : Except (Abort ε) StepValue) = .ok value) :
    flowValue request last receipt input source = some value := by
  cases source with
  | external =>
    rw [sourceValue, index, ofOption_ok, hv] at h
    exact h
  | sameTick output =>
    rw [sourceValue, ofOption_ok, ← ho] at h
    exact h
  | previousTick output initial =>
    rw [sourceValue] at h
    cases last with
    | none =>
      rw [if_pos (hl.first.mpr rfl)] at h
      exact congrArg some (Except.ok.inj h)
    | some before =>
      have hz : s.nextIndex ≠ 0 := fun hz => by cases hl.first.mp hz
      rw [if_neg hz, index, ofOption_ok, (hl.kept before rfl input output initial hs).1] at h
      exact h

lemma Committed.solution (hc : Compiled s.plan) (h : Committed s node request valid adv previous) :
    adv.request = valid ∧ ∃ env, (∀ output : StepOutput, adv.outputs[output]? = lookup env output) ∧
      (∀ inst, inst ∉ s.plan.order → env inst = none) ∧
      ∀ inst ∈ s.plan.order, ∃ outputs, env inst = some outputs ∧ s.equation valid node env inst =
        some outputs := by
  have hemp : Holds (Advance.new valid).outputs fun _ => none := by
    intro output
    exact ExtTreeMap.getElem?_empty
  obtain ⟨hr, env, he, hh⟩ := runNodes_evalFrom hemp hc.ready.nodup (fun _ _ => rfl) h.ran
  obtain ⟨hout, hin⟩ := evalFrom_solves equation_causal hc.ready he
  refine ⟨hr, env, hh, hout, ?_⟩
  intro inst hinst
  obtain ⟨hv, hs⟩ := hin inst hinst
  obtain ⟨outputs, ho⟩ := Option.isSome_iff_exists.mp hs
  exact ⟨outputs, ho, hv.symm.trans ho⟩

lemma Committed.flow (hc : Compiled s.plan) (hl : Delayed s last)
    (h : Committed s node request valid adv previous) :
    TickFlow s.plan.graph node request last (StepScheduler.receipt adv) := by
  obtain ⟨hreq, env, hout, hno, hso⟩ := h.solution hc
  have hin := (validate_ok h.checked).inputs
  refine ⟨?_, ?_⟩
  · intro inst hinst
    obtain ⟨outputs, he, heq⟩ := hso inst ((hc.nodes inst).mpr hinst)
    obtain ⟨inputs, schema, hg, hnode, -, -⟩ := equation_some.mp heq
    have hr := fun port => gather_ok hg port
    refine ⟨inputs, outputs, ?_, ?_, ?_, ?_⟩
    · intro port
      have hp := hr port
      cases hs : s.plan.graph.inputs[(⟨inst, port⟩ : StepInput)]? with
      | none =>
        rw [hs] at hp
        exact hp
      | some source =>
        rw [hs] at hp
        obtain ⟨value, hv, hsrc⟩ := hp
        rw [hv, Option.bind_some, sourceValue_flow hl hin hout hs hsrc]
    · intro port hp
      obtain ⟨source, hs⟩ := some_of_mem hp
      have hv := hr port
      rw [hs] at hv
      obtain ⟨value, hv, -⟩ := hv
      exact mem_of_some hv
    · rw [StepScheduler.receipt, hreq]
      exact hnode
    · intro port
      rw [StepScheduler.receipt, hout, lookup, he]
      rfl
  · intro output ho
    by_contra hn
    have hn' : output.inst ∉ s.plan.order := fun h => hn ((hc.nodes _).mp h)
    obtain ⟨value, hv⟩ := some_of_mem ho
    rw [StepScheduler.receipt, hout, lookup, hno _ hn'] at hv
    cases hv

lemma Committed.delayed (h : Committed s node request valid adv previous) (hr : adv.request = valid) :
    Delayed (s.applyCommit adv previous) (some (StepScheduler.receipt adv)) := by
  refine ⟨?_, ?_⟩
  · have hn := (validate_ok h.checked).next
    simp [applyCommit, hr, hn]
  · rintro _ ⟨⟩ input source initial hs
    exact retain_ok h.retained hs

def StepScheduler.reorder (s : StepScheduler) (order : List String) : StepScheduler :=
  { s with plan := ⟨s.plan.graph, order⟩ }

lemma Committed.reorder (hc : Compiled s.plan) (h : Committed s node request valid adv previous)
    {order : List String} (hrd : Ready (sameTickDeps s.plan.graph) [] order)
    (hs : ∀ n, n ∈ order ↔ n ∈ s.plan.graph.nodes) :
    ∃ adv', Committed (s.reorder order) node request valid adv' previous ∧ adv'.request = adv.request ∧
      adv'.outputs = adv.outputs := by
  have hemp : Holds (Advance.new valid).outputs fun _ => none := by
    intro output
    exact ExtTreeMap.getElem?_empty
  obtain ⟨hreq, env, he, hh⟩ := runNodes_evalFrom hemp hc.ready.nodup (fun _ _ => rfl) h.ran
  have he' : evalFrom ((s.reorder order).equation valid node) (fun _ => none) order = some env :=
    evalFrom_order (@equation_causal s valid node) hc.ready hrd
      (fun n => (hc.nodes n).trans (hs n).symm) he
  obtain ⟨adv', hr, hr', hh'⟩ := evalFrom_runNodes hemp hrd.nodup (fun _ _ => rfl) he'
  have ho : adv'.outputs = adv.outputs := by
    apply ExtTreeMap.ext_getElem?
    intro output
    rw [hh' output, hh output]
  refine ⟨adv', ⟨h.sound, h.checked, hr, ?_⟩, hr'.trans hreq.symm, ho⟩
  rw [ho]
  exact h.retained

end Ticks

section Runs

def StepScheduler.advances (node : StepScheduler.Nodes) :
    StepScheduler → List StepRequest → Except (Abort SchedulerError) (List StepReceipt × StepScheduler)
  | s, [] => .ok ([], s)
  | s, request :: rest => do
    let receipt ← (s.advance node request).1
    let (receipts, last) ← advances node (s.advance node request).2 rest
    return (receipt :: receipts, last)

inductive Reached (s₀ : StepScheduler) : StepScheduler → Prop
  | start : Reached s₀ s₀
  | advance {s} (h : Reached s₀ s) (node : StepScheduler.Nodes) (request : StepRequest)
      (control : StepReceipt → ClockSnapshot → Option StepFailureKind) :
      Reached s₀ (s.advanceControlled node request control).2
  | dropped {s} (h : Reached s₀ s) (fault : Option StepFailure) : Reached s₀ { s with fault := fault }

variable {s s₀ s' : StepScheduler} {node : StepScheduler.Nodes} {request : StepRequest}
  {requests : List StepRequest}
  {receipts : List StepReceipt} {last : Option StepReceipt}

lemma Reached.stocked (h₀ : Stocked s₀) (h : Reached s₀ s) : Stocked s := by
  induction h with
  | start => exact h₀
  | advance _ node request control ih => exact (advanceControlled_hits ih).2
  | dropped _ fault ih => exact ⟨ih.compiled, ih.kept⟩

lemma advances_cons : s.advances node (request :: requests) = .ok (receipts, s') ↔ ∃ valid adv previous rest,
    Committed s node request valid adv previous ∧
      (s.applyCommit adv previous).advances node requests = .ok (rest, s') ∧
        receipts = receipt adv :: rest := by
  rw [advances]
  constructor
  · intro h
    obtain ⟨receipt, hre, h⟩ := bind_ok.mp h
    obtain ⟨⟨rest, last⟩, hr, h⟩ := bind_ok.mp h
    obtain ⟨valid, adv, previous, hc, rfl, hs⟩ := advance_ok.mp (Prod.ext hre rfl)
    cases pure_ok.mp h
    rw [show (s.advance node request).2 = _ from hs] at hr
    exact ⟨valid, adv, previous, rest, hc, hr, rfl⟩
  · rintro ⟨valid, adv, previous, rest, hc, hr, rfl⟩
    have ha := advance_ok.mpr ⟨valid, adv, previous, hc, rfl, rfl⟩
    rw [ha]
    exact bind_ok.mpr ⟨_, rfl, bind_ok.mpr ⟨_, hr, rfl⟩⟩

lemma advances_length (h : s.advances node requests = .ok (receipts, s')) : receipts.length = requests.length := by
  induction requests generalizing s receipts with
  | nil =>
    cases h
    rfl
  | cons request requests ih =>
    obtain ⟨_, adv, _, rest, -, hr, rfl⟩ := advances_cons.mp h
    rw [length_cons, length_cons, ih hr]

lemma advances_flow (hc : Compiled s.plan) (hl : Delayed s last)
    (h : s.advances node requests = .ok (receipts, s')) {k : ℕ} {receipt : StepReceipt}
    (hk : receipts[k]? = some receipt) : receipt.tick.id.index = s.nextIndex + k ∧ ∃ request,
      requests[k]? = some request ∧
        TickFlow s.plan.graph node request (if k = 0 then last else receipts[k - 1]?) receipt := by
  induction requests generalizing s receipts last k with
  | nil =>
    cases h
    cases hk
  | cons request requests ih =>
    obtain ⟨valid, adv, previous, rest, hcom, hre, rfl⟩ := advances_cons.mp h
    obtain ⟨hreq, -⟩ := hcom.solution hc
    have hv := validate_ok hcom.checked
    cases k with
    | zero =>
      cases hk
      refine ⟨?_, request, rfl, hcom.flow hc hl⟩
      rw [receipt, hreq, hv.id]
      rfl
    | succ k =>
      obtain ⟨hidx, request', hr, hf⟩ := ih (s := s.applyCommit adv previous) hc (hcom.delayed hreq) hre hk
      refine ⟨?_, request', hr, ?_⟩
      · rw [hidx, applyCommit, hreq, hv.next]
        change s.nextIndex + 1 + k = s.nextIndex + (k + 1)
        omega
      · cases k with
        | zero => exact hf
        | succ k => exact hf

lemma advances_reorder (hc : Compiled s.plan) (h : s.advances node requests = .ok (receipts, s'))
    {order : List String} (hrd : Ready (sameTickDeps s.plan.graph) [] order)
    (hs : ∀ n, n ∈ order ↔ n ∈ s.plan.graph.nodes) :
    (s.reorder order).advances node requests = .ok (receipts, s'.reorder order) := by
  induction requests generalizing s receipts with
  | nil =>
    cases h
    rfl
  | cons request requests ih =>
    obtain ⟨valid, adv, previous, rest, hcom, hr, rfl⟩ := advances_cons.mp h
    obtain ⟨adv', hc', hreq, ho⟩ := hcom.reorder hc hrd hs
    refine advances_cons.mpr ⟨valid, adv', previous, rest, hc', ?_, ?_⟩
    · have ha : (s.reorder order).applyCommit adv' previous = (s.applyCommit adv previous).reorder order := by
        rw [applyCommit, hreq]
        rfl
      rw [ha]
      exact ih (s := s.applyCommit adv previous) hc hr hrd hs
    · rw [receipt, receipt, hreq, ho]

theorem scheduler_dataflow {graph : StepGraph} {initialTime : Duration} {epochs next : ℕ}
    (hnew : new graph initialTime epochs = .ok (s₀, next))
    (h : s₀.advances node requests = .ok (receipts, s)) :
    receipts.length = requests.length ∧
    (∀ k receipt, receipts[k]? = some receipt → receipt.tick.id.index = k ∧ ∃ request, requests[k]? = some request ∧
      TickFlow graph node request (if k = 0 then none else receipts[k - 1]?) receipt) ∧
    (∀ s', Reached s₀ s' → ∀ node request control, Hits (s'.advanceControlled node request control).1) ∧
    ∀ order, (∀ inst, inst ∈ order ↔ inst ∈ graph.nodes) → Ready (sameTickDeps graph) [] order →
      ∃ s', (s₀.reorder order).advances node requests = .ok (receipts, s') := by
  obtain ⟨plan, rfl, hc, rfl⟩ := new_ok hnew
  have hs : Stocked ⟨plan, epochs, 0, initialTime, ∅, none⟩ := ⟨hc, fun hz => absurd rfl hz⟩
  have hd : Delayed ⟨plan, epochs, 0, initialTime, ∅, none⟩ none :=
    ⟨⟨fun _ => rfl, fun _ => rfl⟩, fun _ h => by cases h⟩
  refine ⟨advances_length h, ?_, ?_, ?_⟩
  · intro k receipt hk
    obtain ⟨hidx, hf⟩ := advances_flow hc hd h hk
    exact ⟨by rw [hidx, zero_add], hf⟩
  · intro s' hr node request control
    exact (advanceControlled_hits (hr.stocked hs)).1
  · intro order hsa hrd
    exact ⟨s.reorder order, advances_reorder hc h hrd hsa⟩

def loopType : StepType := ⟨"demo.Signal", 7, ∅⟩

def loopGraph : StepGraph where
  nodes := Map.of [("control", ⟨Map.of [("goal", loopType), ("seen", loopType)], Map.of [("force", loopType)]⟩),
    ("plant", ⟨Map.of [("force", loopType)], Map.of [("state", loopType)]⟩)]
  inputs := Map.of [(⟨"control", "goal"⟩, .external),
    (⟨"control", "seen"⟩, .previousTick ⟨"plant", "state"⟩ ⟨loopType, [0]⟩),
    (⟨"plant", "force"⟩, .sameTick ⟨"control", "force"⟩)]

def loopNode : StepScheduler.Nodes := fun inst _ inputs =>
  let bytes := inputs.toList.flatMap fun entry => entry.2.bytes
  .ok (Map.of [(if inst = "control" then "force" else "state", ⟨loopType, bytes⟩)])

def loopRequest (goal : UInt8) : StepRequest := ⟨.ofNanos 5, Map.of [(⟨"control", "goal"⟩, ⟨loopType, [goal]⟩)]⟩

def loopStart : StepScheduler := ⟨⟨loopGraph, ["control", "plant"]⟩, 3, 0, .zero, ∅, none⟩

def loopReceipt (index start : ℕ) (bytes : Bytes) : StepReceipt :=
  ⟨⟨⟨3, index⟩, .ofNanos start, .ofNanos 5, .ofNanos (start + 5)⟩,
    Map.of [(⟨"control", "force"⟩, ⟨loopType, bytes⟩), (⟨"plant", "state"⟩, ⟨loopType, bytes⟩)]⟩

def loopEnd : StepScheduler :=
  { loopStart with
    nextIndex := 2
    time := .ofNanos 10
    previous := Map.of [(⟨"plant", "state"⟩, ⟨loopType, [2, 1, 0]⟩)] }

theorem scheduler_dataflow_loop : new loopGraph .zero 3 = .ok (loopStart, 4) ∧
    loopStart.advances loopNode [loopRequest 1, loopRequest 2] =
      .ok ([loopReceipt 0 0 [1, 0], loopReceipt 1 5 [2, 1, 0]], loopEnd) ∧
    TickFlow loopGraph loopNode (loopRequest 2) (some (loopReceipt 0 0 [1, 0])) (loopReceipt 1 5 [2, 1, 0]) := by
  have hn : new loopGraph .zero 3 = .ok (loopStart, 4) := by decide +kernel
  have hr : loopStart.advances loopNode [loopRequest 1, loopRequest 2] =
      .ok ([loopReceipt 0 0 [1, 0], loopReceipt 1 5 [2, 1, 0]], loopEnd) := by decide +kernel
  obtain ⟨-, hf, -⟩ := scheduler_dataflow hn hr
  obtain ⟨-, _, ⟨⟩, hf⟩ := hf 1 _ rfl
  exact ⟨hn, hr, hf⟩

end Runs

end Reiny.Step
