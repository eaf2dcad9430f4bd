import Reiny.Process.StepWire

/-! A compiled graph within the bounds of the protocol comes back from the wire as it was, so that a host makes the
owner's plan of it. -/

namespace Reiny.Process

open Std Lib Results Maps Checked Step Bindings List ExtTreeMap

/-- A type as its constructors make it: the name is a complete protobuf name, which for a compiled message is what
its implementation declares, and the assertions have passed their check. -/
structure WellFormed (ty : StepType) : Prop where
  name : isProtobufName ty.typeName = true
  semantics : validateSemantics ty.semantics = .ok ()

structure Bounded (graph : StepGraph) : Prop where
  nodes : graph.nodes.size ≤ MAX_ENTRIES
  ports : ∀ (inst : String) schema, graph.nodes[inst]? = some schema →
    schema.inputs.size ≤ MAX_ENTRIES ∧ schema.outputs.size ≤ MAX_ENTRIES
  types : ∀ (inst : String) schema (port : String) ty, graph.nodes[inst]? = some schema →
    schema.inputs[port]? = some ty ∨ schema.outputs[port]? = some ty → WellFormed ty
  seeds : ∀ (input : StepInput) source initial, graph.inputs[input]? = some (.previousTick source initial) →
    initial.bytes.length ≤ MAX_VALUE_BYTES

variable {ty : StepType}

lemma import_export_type (h : WellFormed ty) : importType (exportType ty) = .ok ty := by
  have hn : EncodedType.new ty.typeName SCHEMA_FINGERPRINT_VERSION ty.fingerprint =
      .ok ⟨ty.typeName, SCHEMA_FINGERPRINT_VERSION, ty.fingerprint⟩ := by
    refine ensure_bind_ok.mpr ⟨h.name, ensure_bind_ok.mpr ⟨rfl, rfl⟩⟩
  refine bind_ok.mpr ⟨_, mapError_ok.mpr hn, mapError_ok.mpr ?_⟩
  exact bind_ok.mpr ⟨(), h.semantics, rfl⟩

lemma import_export_ports {ports : Map String StepType} (hsz : ports.size ≤ MAX_ENTRIES)
    (hp : ∀ (port : String) ty, ports[port]? = some ty → validatePortName port = true ∧ WellFormed ty) :
    importPorts (ports.map fun _ ty => exportType ty) = .ok ports := by
  refine ensure_bind_ok.mpr ⟨by rwa [size_map], traverse_map fun port ty hty => ?_⟩
  obtain ⟨hn, hty⟩ := hp port ty hty
  exact ensure_bind_ok.mpr ⟨hn, import_export_type hty⟩

lemma import_export_schema {graph : StepGraph} {plan : Plan} (hp : Plan.compile graph = .ok plan)
    (h : Bounded graph) {inst : String} {schema : StepSchema} (hs : graph.nodes[inst]? = some schema) :
    importSchema (exportSchema schema) = .ok schema := by
  obtain ⟨hin, ho⟩ := h.ports inst schema hs
  refine bind_ok.mpr ⟨schema.inputs, import_export_ports hin fun port ty hty => ?_, ?_⟩
  · exact ⟨compile_ports hp hs (Or.inl (mem_of_some hty)), h.types inst schema port ty hs (Or.inl hty)⟩
  · refine bind_ok.mpr ⟨schema.outputs, import_export_ports ho fun port ty hty => ?_, rfl⟩
    exact ⟨compile_ports hp hs (Or.inr (mem_of_some hty)), h.types inst schema port ty hs (Or.inr hty)⟩

lemma convert_one {V W : Type} {f : String → V → Except ProcessError W} {name : String} {v : V} {w : W}
    (h : f name v = .ok w) :
    (do
      ensure ((Map.of [(name, v)]).size ≤ MAX_ENTRIES) invalid
      traverse f (Map.of [(name, v)])) >>= (fun values => ofOption values[name]? invalid) = .ok w := by
  obtain ⟨values, hv, hg⟩ := traverse_singleton h
  have hsz : (Map.of [(name, v)]).size ≤ MAX_ENTRIES :=
    (size_ofList_le (l := [(name, v)])).trans (by simp [MAX_ENTRIES])
  exact bind_ok.mpr ⟨values, ensure_bind_ok.mpr ⟨hsz, hv⟩, ofOption_ok.mpr hg⟩

lemma import_export_source {source : StepSource}
    (h : ∀ output initial, source = .previousTick output initial →
      initial.bytes.length ≤ MAX_VALUE_BYTES ∧ WellFormed initial.stepType) :
    ∃ wire, exportSource source = .ok wire ∧ importSource wire = .ok source := by
  cases source with
  | external => exact ⟨.external, rfl, rfl⟩
  | sameTick output => exact ⟨.sameTick (exportOutput output), rfl, rfl⟩
  | previousTick output initial =>
    obtain ⟨hl, ht⟩ := h output initial rfl
    have he : exportValue "initial" initial = .ok ⟨exportType initial.stepType, initial.bytes⟩ :=
      ensure_bind_ok.mpr ⟨hl, rfl⟩
    have himp : importValue "initial" ⟨exportType initial.stepType, initial.bytes⟩ = .ok initial :=
      ensure_bind_ok.mpr ⟨hl, bind_ok.mpr ⟨_, import_export_type ht, rfl⟩⟩
    obtain ⟨values, hv, hin⟩ := bind_ok.mp (convert_one he)
    obtain ⟨values', hv', hi'⟩ := bind_ok.mp (convert_one himp)
    refine ⟨.previousTick (exportOutput output) ⟨exportType initial.stepType, initial.bytes⟩, ?_, ?_⟩
    · exact bind_ok.mpr ⟨values, hv, bind_ok.mpr ⟨_, hin, rfl⟩⟩
    · exact bind_ok.mpr ⟨values', hv', bind_ok.mpr ⟨_, hi', rfl⟩⟩

lemma import_export_route {entry : StepInput × StepSource}
    (h : ∀ output initial, entry.2 = .previousTick output initial →
      initial.bytes.length ≤ MAX_VALUE_BYTES ∧ WellFormed initial.stepType) :
    ∃ route, exportRoute entry = .ok route ∧ importRoute route = .ok entry := by
  obtain ⟨wire, he, himp⟩ := import_export_source h
  refine ⟨⟨entry.1.inst, entry.1.port, wire⟩, bind_ok.mpr ⟨wire, he, rfl⟩, ?_⟩
  exact bind_ok.mpr ⟨entry.2, himp, rfl⟩

variable {graph : StepGraph} {plan : Plan}

lemma seed_typed (hpl : Plan.compile graph = .ok plan) (h : Bounded graph) {input : StepInput} {output : StepOutput}
    {initial : StepValue} (hr : graph.inputs[input]? = some (.previousTick output initial)) :
    initial.bytes.length ≤ MAX_VALUE_BYTES ∧ WellFormed initial.stepType := by
  refine ⟨h.seeds input output initial hr, ?_⟩
  obtain ⟨rfl, hc⟩ := compile_ok hpl
  have hd := (hc.routes input _ hr).initial initial.stepType rfl
  obtain ⟨schema, hs, hp⟩ := Option.bind_eq_some_iff.mp hd
  exact h.types input.inst schema input.port _ hs (Or.inl hp)

lemma routes_bounded (hpl : Plan.compile graph = .ok plan) (h : Bounded graph) :
    graph.inputs.size ≤ MAX_ENTRIES * MAX_ENTRIES := by
  obtain ⟨rfl, hc⟩ := compile_ok hpl
  let declared : List StepInput := plan.graph.nodes.toList.flatMap fun node =>
    node.2.inputs.keys.map fun port => ⟨node.1, port⟩
  have hsub : plan.graph.inputs.keys ⊆ declared := by
    intro input hin
    obtain ⟨source, hs⟩ := some_of_mem (ExtTreeMap.mem_keys.mp hin)
    obtain ⟨ty, hty⟩ := Option.isSome_iff_exists.mp (hc.routes input source hs).declared
    obtain ⟨schema, hsch, hp⟩ := Option.bind_eq_some_iff.mp hty
    refine mem_flatMap.mpr ⟨(input.inst, schema), mem_toList_iff_getElem?_eq_some.mpr hsch, ?_⟩
    exact mem_map.mpr ⟨input.port, ExtTreeMap.mem_keys.mpr (mem_of_some hp), rfl⟩
  have hl : declared.length ≤ plan.graph.nodes.toList.length * MAX_ENTRIES := by
    rw [length_flatMap]
    refine (sum_le_card_nsmul _ MAX_ENTRIES ?_).trans_eq (by rw [length_map, smul_eq_mul])
    intro n hn
    obtain ⟨node, hno, rfl⟩ := mem_map.mp hn
    rw [length_map, length_keys]
    exact (h.ports node.1 node.2 (mem_toList_iff_getElem?_eq_some.mp hno)).1
  calc plan.graph.inputs.size = plan.graph.inputs.keys.length := length_keys.symm
    _ ≤ declared.length := (nodup_keys.subperm hsub).length_le
    _ ≤ plan.graph.nodes.toList.length * MAX_ENTRIES := hl
    _ ≤ MAX_ENTRIES * MAX_ENTRIES := by
      rw [length_toList]
      exact Nat.mul_le_mul_right _ h.nodes

lemma import_export_graph (hp : Plan.compile graph = .ok plan) (h : Bounded graph) :
    ∃ wire, exportGraph graph = .ok wire ∧ importGraph wire = .ok graph := by
  have hr : ∀ entry ∈ graph.inputs.toList, ∃ route, exportRoute entry = .ok route ∧
    importRoute route = .ok entry := by
    intro entry he
    refine import_export_route fun output initial hs => ?_
    have hg := mem_toList_iff_getElem?_eq_some.mp he
    rw [hs] at hg
    exact seed_typed hp h hg
  obtain ⟨routes, hrts⟩ := mapM_total fun entry he => (hr entry he).imp fun _ => And.left
  have hb : List.Forall₂ (fun route entry => importRoute route = .ok entry) routes graph.inputs.toList := by
    refine mapM_inverse hrts fun entry he route hex => ?_
    obtain ⟨other, ho, himp⟩ := hr entry he
    rw [hex] at ho
    exact Except.ok.inj ho ▸ himp
  refine ⟨⟨graph.nodes.map fun _ schema => exportSchema schema, routes⟩, bind_ok.mpr ⟨routes, hrts, rfl⟩, ?_⟩
  have hl : routes.length = graph.inputs.size := by
    rw [hb.length_eq, length_toList]
  have hin : routes.foldlM (insertNew importRoute invalid) (Map.of []) = .ok graph.inputs := by
    have hnd : (graph.inputs.toList.map Prod.fst).Nodup := by
      rw [map_fst_toList_eq_keys]
      exact nodup_keys
    have hf := foldlM_insertNew (m := Map.of []) (e := invalid) hb hnd fun _ _ => not_mem_empty
    exact hf.trans (congrArg Except.ok (ofList_eq_insertMany_empty.symm.trans ofList_toList))
  refine ensure_bind_ok.mpr ⟨⟨?_, ?_⟩, ?_⟩
  · rw [size_map]
    exact h.nodes
  · rw [hl]
    exact routes_bounded hp h
  · refine bind_ok.mpr ⟨graph.nodes, traverse_map fun inst schema hsch => ?_, ?_⟩
    · exact import_export_schema hp h hsch
    · exact bind_ok.mpr ⟨graph.inputs, hin, rfl⟩

lemma order_bounded (hc : Compiled plan) (h : Bounded plan.graph) : plan.order.length ≤ MAX_ENTRIES := by
  have hsz : plan.order.length ≤ plan.graph.nodes.size :=
    length_le_size hc.ready.nodup fun inst hin => (hc.nodes inst).mp hin
  exact hsz.trans h.nodes

lemma bind_sealed {planDigest : PlanDigest} {key : StepSessionKey} {epoch : ℕ} {initialTime : Duration}
    {bound : BoundGraph} (hp : Plan.compile plan.graph = .ok plan) (h : Bounded plan.graph)
    (hse : sealPlan planDigest plan key epoch initialTime = .ok bound) :
    recompile bound = .ok plan ∧ bound.order = plan.order ∧
      planDigest bound.graph bound.initialTime = .ok bound.session.planDigest ∧
      ∀ identity schemas, key.ownerGeneration = identity.ownerGeneration →
        key.graphGeneration = identity.graphGeneration → key.graphDigest = identity.graphDigest →
        (∀ (id : String) schema, schemas[id]? = some schema → plan.graph.nodes[id]? = some schema) →
        bind planDigest identity schemas bound = .ok bound := by
  obtain ⟨-, hc⟩ := compile_ok hp
  obtain ⟨wire, hex, himp⟩ := import_export_graph hp h
  obtain ⟨graph, hg, hse⟩ := bind_ok.mp hse
  obtain ⟨digest, hdi, hse⟩ := bind_ok.mp hse
  cases pure_ok.mp hse
  rw [hex] at hg
  cases hg
  have hr : recompile ⟨⟨{ key with planDigest := digest }, epoch, .ofDuration initialTime, plan.order⟩, wire⟩ =
      .ok plan := bind_ok.mpr ⟨plan.graph, himp, mapError_ok.mpr hp⟩
  refine ⟨hr, rfl, hdi, ?_⟩
  intro identity schemas ho hgen hd hs
  refine bind_ok.mpr ⟨plan, hr, ensure_bind_ok.mpr ⟨?_, ?_⟩⟩
  · refine ⟨ho, hgen, hd, order_bounded hc h, hc.ready.nodup, ?_, ?_, rfl⟩
    · intro id hid
      obtain ⟨schema, hsch⟩ := some_of_mem (ExtTreeMap.mem_keys.mp hid)
      exact (hc.nodes id).mpr (mem_of_some (hs id schema hsch))
    · intro entry he
      exact hs entry.1 entry.2 (mem_toList_iff_getElem?_eq_some.mp he)
  · refine bind_ok.mpr ⟨digest, hdi, ensure_bind_ok.mpr ⟨rfl, ?_⟩⟩
    exact bind_ok.mpr ⟨initialTime, mapError_ok.mpr (WireDuration.duration_ofDuration initialTime), rfl⟩

theorem wire_graph_faithful (graph : StepGraph) (plan : Plan) (hplan : Plan.compile graph = .ok plan)
    (h : Bounded graph) :
    (∃ wire, exportGraph graph = .ok wire ∧ importGraph wire = .ok graph) ∧
      ∀ planDigest key epoch initialTime bound, sealPlan planDigest plan key epoch initialTime = .ok bound →
        recompile bound = .ok plan ∧ bound.order = plan.order ∧
        planDigest bound.graph bound.initialTime = .ok bound.session.planDigest ∧
        ∀ identity schemas, key.ownerGeneration = identity.ownerGeneration →
          key.graphGeneration = identity.graphGeneration → key.graphDigest = identity.graphDigest →
          (∀ (id : String) schema, schemas[id]? = some schema → graph.nodes[id]? = some schema) →
          bind planDigest identity schemas bound = .ok bound := by
  obtain ⟨rfl, -⟩ := compile_ok hplan
  exact ⟨import_export_graph hplan h, fun _ _ _ _ _ hs => bind_sealed hplan h hs⟩

def armType : StepType := ⟨"demo.Pose", 7, Map.of [("units", "rad")]⟩

def armGraph : StepGraph where
  nodes := Map.of [("arm", ⟨Map.of [("goal", armType), ("seen", armType)], Map.of [("state", armType)]⟩)]
  inputs := Map.of [(⟨"arm", "goal"⟩, .external), (⟨"arm", "seen"⟩, .previousTick ⟨"arm", "state"⟩ ⟨armType, [0]⟩)]

lemma arm_bounded : Bounded armGraph := by
  refine ⟨by decide +kernel, ?_, ?_, ?_⟩
  · have h : ∀ node ∈ armGraph.nodes.toList,
        node.2.inputs.size ≤ MAX_ENTRIES ∧ node.2.outputs.size ≤ MAX_ENTRIES := by decide +kernel
    intro inst schema hsch
    exact h (inst, schema) (mem_toList_iff_getElem?_eq_some.mpr hsch)
  · have h : ∀ node ∈ armGraph.nodes.toList, ∀ port ∈ node.2.inputs.toList ++ node.2.outputs.toList,
        isProtobufName port.2.typeName = true ∧ validateSemantics port.2.semantics = .ok () := by decide +kernel
    intro inst schema port ty hsch hty
    obtain ⟨hn, hsem⟩ := h (inst, schema) (mem_toList_iff_getElem?_eq_some.mpr hsch) (port, ty)
      (mem_append.mpr (hty.imp mem_toList_iff_getElem?_eq_some.mpr
        mem_toList_iff_getElem?_eq_some.mpr))
    exact ⟨hn, hsem⟩
  · have h : ∀ route ∈ armGraph.inputs.toList, route.2 = .external ∨
        route.2 = .previousTick ⟨"arm", "state"⟩ ⟨armType, [0]⟩ := by decide +kernel
    intro input source initial hr
    rcases h (input, _) (mem_toList_iff_getElem?_eq_some.mpr hr) with hs | hs
    · cases hs
    · cases hs
      decide

theorem wire_graph_faithful_arm : ∃ wire, exportGraph armGraph = .ok wire ∧ importGraph wire = .ok armGraph :=
  (wire_graph_faithful armGraph ⟨armGraph, ["arm"]⟩ (by decide +kernel) arm_bounded).1

end Reiny.Process
