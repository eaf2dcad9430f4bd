import Mathlib.Data.String.Basic
import Reiny.Lib.Maps
import Reiny.Step.Plan

namespace Reiny.Step

open Std Lib Results Topological Relation Plan ExtTreeMap

structure WellRouted (nodes : Map String StepSchema) (inputs : Map StepInput PlanRoute) : Prop where
  instances : ∀ inst ∈ nodes, validateNamespace inst = true
  ports : ∀ (inst : String) schema, nodes[inst]? = some schema → ∀ port, port ∈ schema.inputs ∨
    port ∈ schema.outputs →
    validatePortName port = true
  routed : ∀ (inst : String) schema, nodes[inst]? = some schema →
    ∀ port ∈ schema.inputs, (⟨inst, port⟩ : StepInput) ∈ inputs
  routes : ∀ (input : StepInput) route, inputs[input]? = some route → RouteOk nodes input route

def SameTickEdge (inputs : Map StepInput PlanRoute) (source inst : String) : Prop :=
  ∃ port route output, inputs[(⟨inst, port⟩ : StepInput)]? = some route ∧ route.sameTick = true ∧
    route.output = some output ∧ output.inst = source

structure TopologicalOrder (nodes : Map String StepSchema) (inputs : Map StepInput PlanRoute)
    (order : List String) :
    Prop where
  perm : order.Perm nodes.keys
  after : ∀ before inst rest, order = before ++ inst :: rest →
    ∀ source, SameTickEdge inputs source inst → source ∈ before

variable {nodes : Map String StepSchema} {inputs : Map StepInput PlanRoute} {inst : String}

lemma WellRouted.checkNode (h : WellRouted nodes inputs) {schema : StepSchema}
    (hs : nodes[inst]? = some schema) : Plan.checkNode inputs inst schema = .ok () := by
  rw [Plan.checkNode, ensure_bind_ok]
  refine ⟨h.instances inst (Maps.mem_of_some hs), ?_⟩
  refine bind_ok.mpr ⟨(), ?_, ?_⟩
  · refine forM_ok.mpr fun port hp => ensure_ok.mpr (h.ports inst schema hs port ?_)
    rwa [List.mem_append, mem_keys, mem_keys] at hp
  · refine forM_ok.mpr fun port hp => ensure_ok.mpr ?_
    exact h.routed inst schema hs port (mem_keys.mp hp)

lemma RouteOk.checkRoute {deps : Dependencies} {entry : StepInput × PlanRoute} (h : RouteOk nodes entry.1 entry.2) :
    ∃ deps', Plan.checkRoute nodes deps entry = .ok deps' := by
  obtain ⟨expected, he⟩ := Option.isSome_iff_exists.mp h.declared
  have hin : checkInitial entry.1 expected entry.2.initial = .ok () := by
    refine checkInitial_ok.mpr fun t ht => ?_
    have hd := h.initial t ht
    rw [he] at hd
    exact (Option.some.inj hd).symm
  simp only [Plan.checkRoute, bind_ok, ofOption_ok]
  cases ho : entry.2.output with
  | none => exact ⟨deps, expected, he, (), hin, rfl⟩
  | some output =>
    have ha := h.source output ho
    rw [he] at ha
    let deps' := deps.insert entry.1.inst ((deps.getD entry.1.inst ∅).insert output.inst)
    refine ⟨if entry.2.sameTick then deps' else deps, expected, he, (), hin, ?_⟩
    exact bind_ok.mpr ⟨expected, ofOption_ok.mpr ha, ensure_bind_ok.mpr ⟨rfl, rfl⟩⟩

lemma mem_routeDeps {n d : String} : (∃ e ∈ inputs.toList, (n, d) ∈ routeDeps e) ↔ SameTickEdge inputs d n := by
  constructor
  · rintro ⟨⟨⟨inst, port⟩, route⟩, hm, hs, rfl, output, ho, rfl⟩
    exact ⟨port, route, output, mem_toList_iff_getElem?_eq_some.mp hm, hs, ho, rfl⟩
  · rintro ⟨port, route, output, hr, hs, ho, rfl⟩
    exact ⟨(⟨n, port⟩, route), mem_toList_iff_getElem?_eq_some.mpr hr, hs, rfl, output, ho, rfl⟩

lemma WellRouted.orderNodes (h : WellRouted nodes inputs) (hne : nodes.isEmpty = false) :
    ∃ deps, validateRoutes nodes inputs = Plan.orderNodes deps ∧ (∀ n, n ∈ deps ↔ n ∈ nodes) ∧
      ∀ n d, d ∈ depsOf deps n ↔ SameTickEdge inputs d n := by
  have hr : ∀ e ∈ inputs.toList, RouteOk nodes e.1 e.2 := by
    intro e he
    exact h.routes e.1 e.2 (mem_toList_iff_getElem?_eq_some.mp he)
  obtain ⟨deps, hd, -⟩ : ∃ deps, inputs.toList.foldlM (Plan.checkRoute nodes) (nodes.map fun _ _ => ∅) = .ok deps ∧
      True := by
    refine foldlM_total (P := fun _ => True) (fun e he b _ => ?_) trivial
    obtain ⟨b', hb'⟩ : ∃ b', Plan.checkRoute nodes b e = .ok b' := (hr e he).checkRoute
    exact ⟨b', hb', trivial⟩
  have hn : (nodes.toList.forM fun entry => Plan.checkNode inputs entry.1 entry.2) = .ok () := by
    refine forM_ok.mpr fun entry hen => ?_
    exact h.checkNode (mem_toList_iff_getElem?_eq_some.mp hen)
  obtain ⟨-, hk, hs⟩ := checkRoutes_ok (fun n => by rw [mem_map]) hd
  refine ⟨deps, ?_, hk, fun n d => ?_⟩
  · rw [validateRoutes, hn, hd, hne]
    rfl
  · rw [hs n d, depsOf_empty, false_or, mem_routeDeps]

lemma wellRouted_of_checked {order : List String} (h : validateRoutes nodes inputs = .ok order) :
    WellRouted nodes inputs := by
  obtain ⟨-, h⟩ := ensure_bind_ok.mp h
  obtain ⟨_, hno, h⟩ := bind_ok.mp h
  obtain ⟨deps, hd, -⟩ := bind_ok.mp h
  have hnode : ∀ (inst : String) schema, nodes[inst]? = some schema →
    Plan.checkNode inputs inst schema = .ok () := by
    intro inst schema hs
    exact forM_ok.mp hno (inst, schema) (mem_toList_iff_getElem?_eq_some.mpr hs)
  obtain ⟨hrts, -, -⟩ := checkRoutes_ok (fun n => by rw [mem_map]) hd
  refine ⟨?_, ?_, ?_, ?_⟩
  · intro inst hin
    obtain ⟨schema, hs⟩ := Maps.some_of_mem hin
    exact (ensure_bind_ok.mp (hnode inst schema hs)).1
  · intro inst schema hs port hp
    obtain ⟨-, h⟩ := ensure_bind_ok.mp (hnode inst schema hs)
    obtain ⟨_, hn, -⟩ := bind_ok.mp h
    refine ensure_ok.mp (forM_ok.mp hn port ?_)
    rwa [List.mem_append, mem_keys, mem_keys]
  · intro inst schema hs
    exact checkNode_ok (hnode inst schema hs)
  · intro input route hr
    exact hrts (input, route) (mem_toList_iff_getElem?_eq_some.mpr hr)

lemma WellRouted.source_known (h : WellRouted nodes inputs) {source : String}
    (he : SameTickEdge inputs source inst) : source ∈ nodes := by
  obtain ⟨port, route, output, hr, -, ho, rfl⟩ := he
  have hok := h.routes _ route hr
  obtain ⟨t, ht⟩ := Option.isSome_iff_exists.mp hok.declared
  have ha := hok.source output ho
  rw [ht] at ha
  obtain ⟨schema, hs, -⟩ := Option.bind_eq_some_iff.mp ha
  exact Maps.mem_of_some hs

variable {deps : Dependencies} {order : List String}

lemma orderNodes_ok : orderNodes deps = .ok order ↔ sort deps.size deps [] = .ok order := by
  unfold orderNodes
  cases sort deps.size deps [] with
  | error stuck => simp
  | ok found => simp

lemma orderNodes_error {e : StepPlanError} :
    orderNodes deps = .error e ↔ ∃ stuck, sort deps.size deps [] = .error stuck ∧ e = .sameTickCycle stuck := by
  unfold orderNodes
  cases sort deps.size deps [] with
  | error stuck => simp [eq_comm]
  | ok found => simp

lemma topologicalOrder_iff (hk : ∀ n, n ∈ deps ↔ n ∈ nodes)
    (he : ∀ n d, d ∈ depsOf deps n ↔ SameTickEdge inputs d n) :
    TopologicalOrder nodes inputs order ↔ Ready (depsOf deps) [] order ∧ ∀ n, n ∈ order ↔ n ∈ deps := by
  constructor
  · rintro ⟨hp, ha⟩
    refine ⟨Respects.ready (hp.nodup_iff.mpr nodup_keys) ?_, fun n => ?_⟩
    · intro before inst rest hsp source hs
      exact ha before inst rest hsp source ((he inst source).mp hs)
    · rw [hp.mem_iff, mem_keys, hk]
  · rintro ⟨hrd, hm⟩
    refine ⟨?_, ?_⟩
    · rw [List.perm_ext_iff_of_nodup hrd.nodup nodup_keys]
      intro n
      rw [hm, hk, mem_keys]
    · intro before inst rest hsp source hs
      exact hrd.respects before inst rest hsp source ((he inst source).mpr hs)

/-- The least order that puts every source first, or the nodes that lie on a cycle or depend on one. -/
theorem validateRoutes_order (hne : nodes.isEmpty = false) (h : WellRouted nodes inputs) :
    ((∃ order, validateRoutes nodes inputs = .ok order) ↔ ∀ inst, ¬ TransGen (SameTickEdge inputs) inst inst) ∧
    (∀ order, validateRoutes nodes inputs = .ok order → TopologicalOrder nodes inputs order ∧
      ∀ other, TopologicalOrder nodes inputs other → order = other ∨ List.Lex (· < ·) order other) ∧
    ∀ error, validateRoutes nodes inputs = .error error → ∃ instances, error = .sameTickCycle instances ∧
      instances.Nodup ∧ ∀ inst, inst ∈ instances ↔ inst ∈ nodes ∧ BehindCycle (SameTickEdge inputs) inst := by
  obtain ⟨deps, hv, hk, he⟩ := h.orderNodes hne
  have hr : (fun d n => d ∈ depsOf deps n) = SameTickEdge inputs := by
    funext d n
    exact propext (he n d)
  have hcl : ∀ n, ∀ d ∈ depsOf deps n, d ∈ deps := by
    intro n d hd
    rw [hk]
    exact h.source_known ((he n d).mp hd)
  rw [hv]
  refine ⟨⟨?_, ?_⟩, ?_, ?_⟩
  · rintro ⟨order, hord⟩ inst hc
    rw [← hr] at hc
    exact sort_acyclic (orderNodes_ok.mp hord) inst hc
  · intro ha
    cases hord : Plan.orderNodes deps with
    | ok order => exact ⟨order, rfl⟩
    | error error =>
      obtain ⟨stuck, hs, -⟩ := orderNodes_error.mp hord
      obtain ⟨hne, -, hm⟩ := sort_error hcl hs
      obtain ⟨inst, hin⟩ := List.exists_mem_of_ne_nil stuck hne
      obtain ⟨-, m, hc, -⟩ := (hm inst).mp hin
      rw [hr] at hc
      exact absurd hc (ha m)
  · intro order hord
    have hso := orderNodes_ok.mp hord
    refine ⟨(topologicalOrder_iff hk he).mpr (sort_ok hso), fun other ho => ?_⟩
    obtain ⟨hrd, hm⟩ := (topologicalOrder_iff hk he).mp ho
    have hl := sort_least (.start deps) le_rfl hso hrd hm
    simpa only [List.nil_append, compare_lt_iff_lt] using hl
  · intro error hord
    obtain ⟨stuck, hs, rfl⟩ := orderNodes_error.mp hord
    obtain ⟨-, hnd, hm⟩ := sort_error hcl hs
    refine ⟨stuck, rfl, hnd, fun inst => ?_⟩
    rw [hm, hk, hr]

def relayNodes : Map String StepSchema :=
  let signal : StepType := ⟨"demo.Signal", 7, ∅⟩
  Map.of [("arm", ⟨Map.of [("goal", signal)], ∅⟩), ("planner", ⟨∅, Map.of [("goal", signal)]⟩)]

def relayInputs : Map StepInput PlanRoute := Map.of [(⟨"arm", "goal"⟩, ⟨some ⟨"planner", "goal"⟩, none, true⟩)]

theorem validateRoutes_order_relay :
    validateRoutes relayNodes relayInputs = .ok ["planner", "arm"] ∧
      TopologicalOrder relayNodes relayInputs ["planner", "arm"] := by
  have hc : validateRoutes relayNodes relayInputs = .ok ["planner", "arm"] := by decide +kernel
  obtain ⟨-, ho, -⟩ := validateRoutes_order (by decide +kernel) (wellRouted_of_checked hc)
  exact ⟨hc, (ho ["planner", "arm"] hc).1⟩

theorem validateRoutes_empty : WellRouted ∅ ∅ ∧ (∀ inst, ¬ TransGen (SameTickEdge ∅) inst inst) ∧
    validateRoutes ∅ ∅ = .error .emptyGraph := by
  have he : ∀ source inst, ¬ SameTickEdge ∅ source inst := by
    rintro source inst ⟨port, route, output, hr, -⟩
    rw [getElem?_empty] at hr
    cases hr
  refine ⟨⟨?_, ?_, ?_, ?_⟩, ?_, rfl⟩
  · exact fun inst hin => absurd hin not_mem_empty
  · intro inst schema hsch
    rw [getElem?_empty] at hsch
    cases hsch
  · intro inst schema hsch
    rw [getElem?_empty] at hsch
    cases hsch
  · intro input route hr
    rw [getElem?_empty] at hr
    cases hr
  · intro inst hc
    obtain ⟨source, hs, -⟩ := TransGen.head'_iff.mp hc
    exact he inst source hs

end Reiny.Step
