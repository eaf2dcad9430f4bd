import Reiny.Lib.Maps
import Reiny.Step.Scheduler

namespace Reiny.Step

open Std Lib Results Checked Maps List ExtTreeMap

variable {s : StepScheduler} {request : ValidatedRequest} {outputs : StepOutput → Option StepValue} {inst : String}
  {inputs : StepInputs} {ε : Type}

lemma gather_mem {values : List (String × StepValue)}
    (h : ((s.plan.graph.inputs.toList.filter fun entry => entry.1.inst = inst).mapM fun entry => do
      let value ← s.sourceValue request outputs entry.1 entry.2
      return (entry.1.port, value) : Except (Abort ε) (List (String × StepValue))) = .ok values)
    (port : String) (value : StepValue) : (port, value) ∈ values ↔
      ∃ source, s.plan.graph.inputs[(⟨inst, port⟩ : StepInput)]? = some source ∧
        (s.sourceValue request outputs ⟨inst, port⟩ source : Except (Abort ε) StepValue) = .ok value := by
  rw [mapM_mem h]
  constructor
  · rintro ⟨⟨input, source⟩, he, hv⟩
    obtain ⟨hm, hin⟩ := mem_filter.mp he
    obtain ⟨v, hv, hp⟩ := bind_ok.mp hv
    cases pure_ok.mp hp
    cases of_decide_eq_true hin
    exact ⟨source, mem_toList_iff_getElem?_eq_some.mp hm, hv⟩
  · rintro ⟨source, hs, hv⟩
    refine ⟨(⟨inst, port⟩, source), mem_filter.mpr ⟨?_, decide_eq_true rfl⟩, ?_⟩
    · exact mem_toList_iff_getElem?_eq_some.mpr hs
    · exact bind_ok.mpr ⟨value, hv, rfl⟩

lemma gather_ok (h : (s.gather request outputs inst : Except (Abort ε) StepInputs) = .ok inputs) (port : String) :
    match s.plan.graph.inputs[(⟨inst, port⟩ : StepInput)]? with
    | none => inputs[port]? = none
    | some source => ∃ value, inputs[port]? = some value ∧
        (s.sourceValue request outputs ⟨inst, port⟩ source : Except (Abort ε) StepValue) = .ok value := by
  obtain ⟨values, hva, h⟩ := bind_ok.mp h
  cases pure_ok.mp h
  have hm := gather_mem hva
  have hf : Functional values := by
    intro port v v' hv hv'
    rw [hm] at hv hv'
    obtain ⟨source, hs, hv⟩ := hv
    obtain ⟨source', hs', hv'⟩ := hv'
    rw [hs] at hs'
    cases hs'
    rw [hv] at hv'
    exact Except.ok.inj hv'
  cases hs : s.plan.graph.inputs[(⟨inst, port⟩ : StepInput)]? with
  | none =>
    apply ofList_of_not_mem
    intro v hv
    obtain ⟨source, hs', -⟩ := (hm port v).mp hv
    rw [hs] at hs'
    cases hs'
  | some source =>
    have hin : ((⟨inst, port⟩, source) : StepInput × StepSource) ∈
        s.plan.graph.inputs.toList.filter fun entry => entry.1.inst = inst :=
      mem_filter.mpr ⟨mem_toList_iff_getElem?_eq_some.mpr hs, decide_eq_true rfl⟩
    obtain ⟨_, hv⟩ := mapM_each hva hin
    obtain ⟨value, hv, -⟩ := bind_ok.mp hv
    exact ⟨value, ofList_of_mem hf ((hm port value).mpr ⟨source, hs, hv⟩), hv⟩

lemma gather_total (h : ∀ (input : StepInput) source, s.plan.graph.inputs[input]? = some source →
    input.inst = inst →
      ∃ value, (s.sourceValue request outputs input source : Except (Abort ε) StepValue) = .ok value) :
    ∃ inputs, (s.gather request outputs inst : Except (Abort ε) StepInputs) = .ok inputs := by
  obtain ⟨values, hva⟩ : ∃ values, ((s.plan.graph.inputs.toList.filter fun entry => entry.1.inst = inst).mapM
      fun entry => do
        let value ← s.sourceValue request outputs entry.1 entry.2
        return (entry.1.port, value) : Except (Abort ε) (List (String × StepValue))) = .ok values := by
    refine mapM_total fun entry he => ?_
    obtain ⟨hm, hin⟩ := mem_filter.mp he
    have hs := mem_toList_iff_getElem?_eq_some.mp hm
    obtain ⟨value, hv⟩ := h entry.1 entry.2 hs (of_decide_eq_true hin)
    exact ⟨(entry.1.port, value), bind_ok.mpr ⟨value, hv, rfl⟩⟩
  exact ⟨.ofList values, bind_ok.mpr ⟨values, hva, rfl⟩⟩

lemma gather_congr {outputs' : StepOutput → Option StepValue}
    (h : ∀ (input : StepInput) output, s.plan.graph.inputs[input]? = some (.sameTick output) → input.inst = inst →
      outputs output = outputs' output) :
    (s.gather request outputs inst : Except (Abort ε) StepInputs) = s.gather request outputs' inst := by
  have hv : ∀ entry ∈ s.plan.graph.inputs.toList.filter (fun entry => entry.1.inst = inst),
      (s.sourceValue request outputs entry.1 entry.2 : Except (Abort ε) StepValue) =
        s.sourceValue request outputs' entry.1 entry.2 := by
    rintro ⟨input, source⟩ he
    obtain ⟨hm, hin⟩ := mem_filter.mp he
    cases source with
    | external => rfl
    | previousTick _ _ => rfl
    | sameTick output =>
      have hs := mem_toList_iff_getElem?_eq_some.mp hm
      simp only [StepScheduler.sourceValue, h input output hs (of_decide_eq_true hin)]
  unfold StepScheduler.gather
  rw [mapM_congr fun entry he => by rw [hv entry he]]

variable {schema : Map String StepType} {produced : StepOutputs}

lemma invalidOutput_none (h : invalidOutput schema produced = none) {port : String} (hp : port ∈ schema) :
    port ∈ produced := by
  obtain ⟨expected, he⟩ := some_of_mem hp
  have hc := findSome?_eq_none_iff.mp (Option.or_eq_none_iff.mp h).1 (port, expected)
    (mem_toList_iff_getElem?_eq_some.mpr he)
  cases hv : produced[port]? with
  | none => simp [hv] at hc
  | some value => exact mem_of_some hv

variable {adv adv' : Advance} {nodes : Map String StepSchema} {outcome : NodeOutcome}

lemma complete_ok : adv.complete nodes inst outcome = .ok adv' ↔ ∃ outputs schema, outcome = .ok outputs ∧
    nodes[inst]? = some schema ∧ invalidOutput schema.outputs outputs = none ∧ adv' = adv.absorb inst outputs := by
  cases outcome with
  | error | panicked => simp [Advance.complete, catchNode]
  | ok outputs =>
    simp only [Advance.complete, catchNode, bind_ok, index, ofOption_ok]
    constructor
    · rintro ⟨schema, hs, h⟩
      cases hi : invalidOutput schema.outputs outputs with
      | some e =>
        rw [hi] at h
        cases h
      | none =>
        rw [hi] at h
        cases h
        exact ⟨outputs, schema, rfl, hs, hi, rfl⟩
    · rintro ⟨_, schema, ⟨⟩, hs, hi, rfl⟩
      exact ⟨schema, hs, by rw [hi]⟩

lemma complete_hits (h : inst ∈ nodes) : Hits (adv.complete nodes inst outcome) := by
  cases outcome with
  | error | panicked => exact hits_failed _
  | ok outputs =>
    refine (hits_found (mem_iff_isSome_getElem?.mp h)).bind fun schema _ => ?_
    cases hi : invalidOutput schema.outputs outputs with
    | some e => exact hits_failed _
    | none => exact hits_ok _

lemma absorb_outputs (output : StepOutput) : (adv.absorb inst produced).outputs[output]? =
    if output.inst = inst then produced[output.port]?.or adv.outputs[output]? else adv.outputs[output]? := by
  have hmem : ∀ value, (output, value) ∈ produced.toList.map
    (fun entry => ((⟨inst, entry.1⟩ : StepOutput), entry.2)) ↔
      output.inst = inst ∧ produced[output.port]? = some value := by
    intro value
    rw [mem_map]
    constructor
    · rintro ⟨entry, hen, he⟩
      cases he
      exact ⟨rfl, mem_toList_iff_getElem?_eq_some.mp hen⟩
    · rintro ⟨rfl, hv⟩
      exact ⟨(output.port, value), mem_toList_iff_getElem?_eq_some.mpr hv, rfl⟩
  have hf : Functional (produced.toList.map fun entry => ((⟨inst, entry.1⟩ : StepOutput), entry.2)) := by
    intro output v v' hv hv'
    obtain ⟨⟨port, value⟩, hmem, he⟩ := mem_map.mp hv
    obtain ⟨⟨port', value'⟩, hm', he'⟩ := mem_map.mp hv'
    cases he
    cases he'
    exact toList_functional _ _ _ hmem hm'
  split_ifs with hi
  · cases hv : produced[output.port]? with
    | none =>
      rw [Option.none_or]
      apply insertMany_of_not_mem
      intro value hm
      rw [((hmem value).mp hm).2] at hv
      cases hv
    | some value =>
      rw [Option.some_or]
      exact insertMany_of_mem hf ((hmem value).mpr ⟨hi, hv⟩)
  · apply insertMany_of_not_mem
    intro value hm
    exact hi ((hmem value).mp hm).1

section Ticks

variable {request : StepRequest} {node : StepScheduler.Nodes} {rest : List String}
  {previous : Map StepOutput StepValue}

lemma begin_ok : s.begin request = .ok adv ↔
    s.fault = none ∧ ∃ valid, request.validate s.plan s.clock = .ok valid ∧ adv = .new valid := by
  unfold StepScheduler.begin
  cases s.fault with
  | some failure => simp
  | none =>
    rcases request.validate s.plan s.clock with ⟨_ | _⟩ | valid
    · simp
    · simp
    · simp [eq_comm]

lemma runNode_ok : s.runNode node inst adv = (.ok (), adv') ↔ ∃ inputs outputs schema,
    (s.gather adv.request (fun output => adv.outputs[output]?) inst : Except (Abort StepFailure) StepInputs) =
      .ok inputs ∧ node inst adv.request.tick inputs = .ok outputs ∧ s.plan.graph.nodes[inst]? = some schema ∧
      invalidOutput schema.outputs outputs = none ∧ adv' = (adv.dispatch inst).absorb inst outputs := by
  unfold StepScheduler.runNode
  cases (s.gather adv.request (fun output => adv.outputs[output]?) inst :
    Except (Abort StepFailure) StepInputs) with
  | error e => simp
  | ok inputs =>
    cases hc : (adv.dispatch inst).complete s.plan.graph.nodes inst (node inst adv.request.tick inputs) with
    | error e =>
      simp only [hc, Prod.mk.injEq, reduceCtorEq, false_and, false_iff]
      rintro ⟨_, outputs, schema, ⟨⟩, hn, hs, hi, -⟩
      have hd : (adv.dispatch inst).complete s.plan.graph.nodes inst (node inst adv.request.tick inputs) =
          .ok ((adv.dispatch inst).absorb inst outputs) := complete_ok.mpr ⟨outputs, schema, hn, hs, hi, rfl⟩
      rw [hc] at hd
      cases hd
    | ok done =>
      obtain ⟨outputs, schema, hn, hs, hi, rfl⟩ := complete_ok.mp hc
      simp only [hc, Prod.mk.injEq, true_and]
      constructor
      · rintro rfl
        exact ⟨inputs, outputs, schema, rfl, hn, hs, hi, rfl⟩
      · rintro ⟨_, outputs', _, ⟨⟩, hn', -, -, rfl⟩
        rw [hn] at hn'
        cases hn'
        rfl

lemma runNodes_cons : s.runNodes node (inst :: rest) adv = (.ok (), adv') ↔
    ∃ mid, s.runNode node inst adv = (.ok (), mid) ∧ s.runNodes node rest mid = (.ok (), adv') := by
  rw [StepScheduler.runNodes]
  rcases s.runNode node inst adv with ⟨_ | _, mid⟩
  · simp
  · simp

lemma retain_ok {outputs : Map StepOutput StepValue} {ε : Type}
    (h : (s.retain outputs : Except (Abort ε) (Map StepOutput StepValue)) = .ok previous) {input : StepInput}
    {source : StepOutput} {initial : StepValue}
    (hs : s.plan.graph.inputs[input]? = some (.previousTick source initial)) :
    previous[source]? = outputs[source]? ∧ source ∈ previous := by
  obtain ⟨values, hva, h⟩ := bind_ok.mp h
  cases pure_ok.mp h
  have hm := mapM_mem hva
  have hf : Functional values := by
    intro output v v' hv hv'
    obtain ⟨_, -, hv⟩ := (hm _).mp hv
    obtain ⟨_, -, hv'⟩ := (hm _).mp hv'
    obtain ⟨w, hw, hv⟩ := bind_ok.mp hv
    obtain ⟨w', hw', hv'⟩ := bind_ok.mp hv'
    cases pure_ok.mp hv
    cases pure_ok.mp hv'
    rw [hw] at hw'
    exact Except.ok.inj hw'
  have hl {g} (hg : g (input, .previousTick source initial) = some source) :
      source ∈ s.plan.graph.inputs.toList.filterMap g :=
    mem_filterMap.mpr ⟨_, mem_toList_iff_getElem?_eq_some.mpr hs, hg⟩
  obtain ⟨_, hvalue⟩ := mapM_each hva (hl rfl)
  obtain ⟨value, hv, -⟩ := bind_ok.mp hvalue
  have hin : (source, value) ∈ values := (hm _).mpr ⟨source, hl rfl, bind_ok.mpr ⟨value, hv, rfl⟩⟩
  rw [index, ofOption_ok] at hv
  rw [hv]
  exact ⟨ofList_of_mem hf hin, mem_of_some (ofList_of_mem hf hin)⟩

end Ticks

end Reiny.Step
