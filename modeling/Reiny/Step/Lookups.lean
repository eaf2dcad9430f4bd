import Reiny.Step.Nodes

namespace Reiny.Step

open Std Lib Results Checked Topological Maps List ExtTreeMap Option StepScheduler

variable {input : StepInput}

lemma declared_index {nodes : Map String StepSchema} (h : (declaredInput nodes input).isSome = true) :
    ∃ schema, nodes[input.inst]? = some schema ∧ input.port ∈ schema.inputs := by
  obtain ⟨t, ht⟩ := isSome_iff_exists.mp h
  obtain ⟨schema, hs, hp⟩ := bind_eq_some_iff.mp ht
  exact ⟨schema, hs, mem_of_some hp⟩

lemma index_hits {K V ε : Type} [Ord K] [TransOrd K] {m : Map K V} {k : K} (h : k ∈ m) :
    Hits (index m k : Except (Abort ε) V) :=
  hits_found (ExtTreeMap.mem_iff_isSome_getElem?.mp h)

variable {plan : Plan} {s : StepScheduler} {request : StepRequest} {valid : ValidatedRequest}
  {node : StepScheduler.Nodes} {adv adv' : Advance} {order done : List String} {ε : Type}

lemma checkExternal_hits (hc : Compiled plan) {inputs : Map StepInput StepValue} {entry : StepInput × StepSource}
    (h : plan.graph.inputs[entry.1]? = some entry.2) : Hits (checkExternal plan.graph.nodes inputs entry) := by
  obtain ⟨input, source⟩ := entry
  obtain ⟨schema, hs, hp⟩ := declared_index (hc.routes input source h).declared
  cases source with
  | sameTick | previousTick => exact hits_ok ()
  | external =>
    refine hits_ofOption.bind fun value _ => (index_hits (mem_of_some hs)).bind fun schema' hs' => ?_
    rw [index, ofOption_ok, hs] at hs'
    cases hs'
    exact (index_hits hp).bind fun expected _ => hits_ensure

lemma validate_hits (hc : Compiled plan) (clock : ClockSnapshot) : Hits (request.validate plan clock) := by
  refine hits_ensure.bind fun _ _ => hits_ofOption.bind fun end_ _ => hits_ofOption.bind fun next _ => ?_
  refine (hits_forM fun _ _ => hits_ensure).bind fun _ _ => ?_
  refine (hits_forM fun entry he => ?_).bind fun _ _ => hits_ok _
  exact checkExternal_hits hc (mem_toList_iff_getElem?_eq_some.mp he)

structure Stocked (s : StepScheduler) : Prop where
  compiled : Compiled s.plan
  kept : s.nextIndex ≠ 0 → ∀ (input : StepInput) source initial,
    s.plan.graph.inputs[input]? = some (.previousTick source initial) → source ∈ s.previous

def Produced (nodes : Map String StepSchema) (done : List String) (outputs : Map StepOutput StepValue) : Prop :=
  ∀ output : StepOutput, output.inst ∈ done → (declaredOutput nodes output).isSome = true → output ∈ outputs

variable {outputs : Map StepOutput StepValue} {inst : String}

lemma sourceValue_total (hs : Stocked s)
    (he : ∀ input : StepInput, s.plan.graph.inputs[input]? = some .external → input ∈ valid.inputs)
    (hp : Produced s.plan.graph.nodes done outputs) {source : StepSource}
    (hr : s.plan.graph.inputs[input]? = some source)
    (hd : ∀ d ∈ sameTickDeps s.plan.graph input.inst, d ∈ done) :
    ∃ value, (s.sourceValue valid (fun output => outputs[output]?) input source : Except (Abort ε) StepValue) =
      .ok value := by
  have hok := hs.compiled.routes input source hr
  cases source with
  | external =>
    obtain ⟨value, hv⟩ := some_of_mem (he input hr)
    exact ⟨value, ofOption_ok.mpr hv⟩
  | sameTick output =>
    have hde : (declaredOutput s.plan.graph.nodes output).isSome = true := by
      rw [hok.source output rfl]
      exact hok.declared
    obtain ⟨value, hv⟩ := some_of_mem (hp output (hd output.inst ⟨input.port, output, hr, rfl⟩) hde)
    exact ⟨value, ofOption_ok.mpr hv⟩
  | previousTick output initial =>
    rw [sourceValue]
    split_ifs with hz
    · exact ⟨initial, rfl⟩
    · obtain ⟨value, hv⟩ := some_of_mem (hs.kept hz input output initial hr)
      exact ⟨value, ofOption_ok.mpr hv⟩

lemma Produced.absorb {schema : StepSchema} {outputs : StepOutputs}
    (hp : Produced s.plan.graph.nodes done adv.outputs) (hs : s.plan.graph.nodes[inst]? = some schema)
    (hi : invalidOutput schema.outputs outputs = none) :
    Produced s.plan.graph.nodes (done ++ [inst]) ((adv.dispatch inst).absorb inst outputs).outputs := by
  intro output hd hde
  rw [mem_iff_isSome_getElem?, absorb_outputs]
  split_ifs with hin
  · obtain ⟨t, ht⟩ := isSome_iff_exists.mp hde
    obtain ⟨schema', hs', hpo⟩ := bind_eq_some_iff.mp ht
    rw [hin, hs] at hs'
    cases hs'
    obtain ⟨value, hv⟩ := some_of_mem (invalidOutput_none hi (mem_of_some hpo))
    rw [hv]
    rfl
  · have hb : output.inst ∈ done := by simpa [hin] using hd
    exact mem_iff_isSome_getElem?.mp (hp output hb hde)

section

variable (hs : Stocked s)
  (he : ∀ input : StepInput, s.plan.graph.inputs[input]? = some .external → input ∈ adv.request.inputs)
  (hp : Produced s.plan.graph.nodes done adv.outputs)

include hs he hp

lemma gather_stocked (hd : ∀ d ∈ sameTickDeps s.plan.graph inst, d ∈ done) : ∃ inputs,
    (s.gather adv.request (fun output => adv.outputs[output]?) inst : Except (Abort ε) StepInputs) =
      .ok inputs := by
  apply gather_total
  rintro input source hr rfl
  exact sourceValue_total hs he hp hr hd

lemma runNode_hits (hin : inst ∈ s.plan.graph.nodes) (hd : ∀ d ∈ sameTickDeps s.plan.graph inst, d ∈ done) :
    Hits (s.runNode node inst adv).1 := by
  obtain ⟨inputs, hg⟩ := gather_stocked (ε := StepFailure) hs he hp hd
  have hco : Hits ((adv.dispatch inst).complete s.plan.graph.nodes inst (node inst adv.request.tick inputs)) :=
    complete_hits hin
  simp only [runNode, hg]
  rcases hc : (adv.dispatch inst).complete s.plan.graph.nodes inst (node inst adv.request.tick inputs) with e | next
  · intro h
    obtain rfl : e = .missed := Except.error.inj h
    exact hco hc
  · exact hits_ok ()

lemma runNodes_hits (hrd : Ready (sameTickDeps s.plan.graph) done order)
    (hno : ∀ n ∈ order, n ∈ s.plan.graph.nodes) :
    Hits (s.runNodes node order adv).1 ∧
      ∀ adv', s.runNodes node order adv = (.ok (), adv') →
        Produced s.plan.graph.nodes (done ++ order) adv'.outputs := by
  induction order generalizing adv done with
  | nil =>
    refine ⟨hits_ok (), ?_⟩
    rintro _ ⟨⟩
    rwa [append_nil]
  | cons inst rest ih =>
    obtain ⟨-, hd, hre⟩ := hrd
    have hnode : Hits (s.runNode node inst adv).1 :=
      runNode_hits hs he hp (hno inst mem_cons_self) hd
    rw [runNodes]
    rcases hr : s.runNode node inst adv with ⟨e | _, mid⟩
    · rw [hr] at hnode
      exact ⟨fun h => hnode h, fun _ h => by cases h⟩
    · obtain ⟨inputs, outputs, schema, -, -, hsch, hi, rfl⟩ := runNode_ok.mp hr
      have ht := @ih ((adv.dispatch inst).absorb inst outputs) (done ++ [inst]) he
        (hp.absorb hsch hi) hre fun n hn => hno n (mem_cons_of_mem _ hn)
      rwa [append_assoc, singleton_append] at ht

end

lemma retain_total (hc : Compiled s.plan) (hp : Produced s.plan.graph.nodes s.plan.order outputs) :
    ∃ previous, (s.retain outputs : Except (Abort ε) (Map StepOutput StepValue)) = .ok previous := by
  simp only [retain, bind_ok]
  rw [exists_comm]
  refine .imp (fun values hva => ⟨.ofList values, hva, rfl⟩) (mapM_total fun source hsrc => ?_)
  obtain ⟨⟨input, route⟩, he, hr⟩ := mem_filterMap.mp hsrc
  have hro := mem_toList_iff_getElem?_eq_some.mp he
  cases route with
  | external => cases hr
  | sameTick _ => cases hr
  | previousTick output initial =>
    cases hr
    have hok := hc.routes input _ hro
    have hd : (declaredOutput s.plan.graph.nodes source).isSome = true := by
      rw [hok.source source rfl]
      exact hok.declared
    obtain ⟨t, ht⟩ := isSome_iff_exists.mp hd
    obtain ⟨schema, hs, -⟩ := bind_eq_some_iff.mp ht
    obtain ⟨value, hv⟩ := some_of_mem (hp source ((hc.nodes _).mpr (mem_of_some hs)) hd)
    exact ⟨(source, value), bind_ok.mpr ⟨value, ofOption_ok.mpr hv, rfl⟩⟩

lemma retain_hits (hc : Compiled s.plan) (hp : Produced s.plan.graph.nodes s.plan.order outputs) :
    Hits (s.retain outputs : Except (Abort ε) (Map StepOutput StepValue)) := by
  obtain ⟨previous, hpr⟩ := retain_total (ε := ε) hc hp
  rw [hpr]
  exact hits_ok previous

lemma begin_hits (hs : Stocked s) : Hits (s.begin request) := by
  have hv : Hits (request.validate s.plan s.clock) := validate_hits hs.compiled s.clock
  unfold begin
  cases s.fault with
  | some failure => exact hits_failed _
  | none =>
    rcases hr : request.validate s.plan s.clock with ⟨_ | _⟩ | valid
    · exact absurd hr hv
    · exact hits_failed _
    · exact hits_ok _

variable {control : StepReceipt → ClockSnapshot → Option StepFailureKind}

lemma conclude_hits (hs : Stocked s) (hp : Produced s.plan.graph.nodes s.plan.order adv.outputs) :
    Hits (s.conclude adv control).1 ∧ Stocked (s.conclude adv control).2 := by
  have hre : Hits (s.retain adv.outputs : Except (Abort SchedulerError) (Map StepOutput StepValue)) :=
    retain_hits hs.compiled hp
  unfold conclude
  cases hr : (s.retain adv.outputs : Except (Abort SchedulerError) (Map StepOutput StepValue)) with
  | error e => exact ⟨fun h => hre (hr.trans (congrArg _ (Except.error.inj h))), hs.compiled, hs.kept⟩
  | ok previous =>
    cases hk : control (receipt adv) (s.committedClock adv) with
    | some kind =>
      exact ⟨hits_failed _, hs.compiled, hs.kept⟩
    | none =>
      refine ⟨hits_ok _, hs.compiled, ?_⟩
      intro _ input source initial hro
      exact (retain_ok hr hro).2

theorem advanceControlled_hits (hs : Stocked s) : Hits (s.advanceControlled node request control).1 ∧
    Stocked (s.advanceControlled node request control).2 := by
  have hbe : Hits (s.begin request) := begin_hits hs
  unfold advanceControlled
  cases hb : s.begin request with
  | error e => exact ⟨fun h => hbe (hb.trans (congrArg _ (Except.error.inj h))), hs⟩
  | ok start =>
    obtain ⟨-, valid, hva, rfl⟩ := begin_ok.mp hb
    have hv := validate_ok hva
    have he : ∀ input : StepInput, s.plan.graph.inputs[input]? = some .external →
        input ∈ (Advance.new valid).request.inputs := by
      intro input hin
      rw [show (Advance.new valid).request.inputs = request.inputs from hv.inputs]
      exact hv.external input hin
    have hnone : Produced s.plan.graph.nodes [] (Advance.new valid).outputs := fun _ h => by cases h
    have hno : ∀ n ∈ s.plan.order, n ∈ s.plan.graph.nodes := fun n hn => (hs.compiled.nodes n).mp hn
    obtain ⟨hrun, hp⟩ := @runNodes_hits s node _ _ _ hs he hnone hs.compiled.ready hno
    rcases hr : s.runNodes node s.plan.order (.new valid) with ⟨⟨_ | failure⟩ | _, adv⟩
    · rw [hr] at hrun
      exact absurd rfl hrun
    · simp only [hr]
      exact ⟨hits_failed _, hs.compiled, hs.kept⟩
    · simp only [hr]
      exact conclude_hits hs (hp adv hr)

lemma new_ok {graph : StepGraph} {initialTime : Duration} {epochs next : ℕ}
    (h : new graph initialTime epochs = .ok (s, next)) :
    ∃ plan, plan.graph = graph ∧ Compiled plan ∧ s = ⟨plan, epochs, 0, initialTime, ∅, none⟩ := by
  obtain ⟨plan, hp, h⟩ := bind_ok.mp h
  obtain ⟨_, -, h⟩ := bind_ok.mp h
  cases pure_ok.mp h
  obtain ⟨hg, hc⟩ := compile_ok hp
  exact ⟨plan, hg, hc, rfl⟩

end Reiny.Step
