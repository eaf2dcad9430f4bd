import Reiny.Lib.Results
import Reiny.Lib.Topological
import Reiny.Step.Graph

/-! Compiling a step graph: every input has one well-typed source, and the nodes are put in an order in
which same-tick sources come first. -/

namespace Reiny.Step

open Std Lib Results Topological ExtTreeMap

structure PlanRoute where
  output : Option StepOutput
  initial : Option StepType
  sameTick : Bool

structure Plan where
  graph : StepGraph
  order : List String
deriving DecidableEq

def StepSource.route : StepSource → PlanRoute
  | .external => ⟨none, none, false⟩
  | .sameTick output => ⟨some output, none, true⟩
  | .previousTick source initial => ⟨some source, some initial.stepType, false⟩

def declaredInput (nodes : Map String StepSchema) (input : StepInput) : Option StepType :=
  nodes[input.inst]?.bind fun schema => schema.inputs[input.port]?

def declaredOutput (nodes : Map String StepSchema) (output : StepOutput) : Option StepType :=
  nodes[output.inst]?.bind fun schema => schema.outputs[output.port]?

namespace Plan

abbrev Dependencies := Map String (ExtTreeSet String)

def checkNode (inputs : Map StepInput PlanRoute) (inst : String) (schema : StepSchema) :
    Except StepPlanError Unit := do
  ensure (validateNamespace inst = true) (.invalidInstance inst)
  (schema.inputs.keys ++ schema.outputs.keys).forM fun port =>
    ensure (validatePortName port = true) (.invalidPort inst port)
  schema.inputs.keys.forM fun port => ensure (⟨inst, port⟩ ∈ inputs) (.missingInput ⟨inst, port⟩)

def checkInitial (input : StepInput) (expected : StepType) : Option StepType → Except StepPlanError Unit
  | none => .ok ()
  | some initial => ensure (initial = expected) (.initialTypeMismatch input expected initial)

def checkRoute (nodes : Map String StepSchema) (deps : Dependencies) (entry : StepInput × PlanRoute) :
    Except StepPlanError Dependencies := do
  let expected ← ofOption (declaredInput nodes entry.1) (.unknownInput entry.1)
  checkInitial entry.1 expected entry.2.initial
  match entry.2.output with
  | none => return deps
  | some output =>
    let actual ← ofOption (declaredOutput nodes output) (.unknownSource output)
    ensure (actual = expected) (.typeMismatch entry.1 expected actual)
    return if entry.2.sameTick then
      deps.insert entry.1.inst ((deps.getD entry.1.inst ∅).insert output.inst)
    else deps

def orderNodes (deps : Dependencies) : Except StepPlanError (List String) :=
  match sort deps.size deps [] with
  | .error instances => .error (.sameTickCycle instances)
  | .ok order => .ok order

def validateRoutes (nodes : Map String StepSchema) (inputs : Map StepInput PlanRoute) :
    Except StepPlanError (List String) := do
  ensure (nodes.isEmpty = false) .emptyGraph
  nodes.toList.forM fun entry => checkNode inputs entry.1 entry.2
  let deps ← inputs.toList.foldlM (checkRoute nodes) (nodes.map fun _ _ => ∅)
  orderNodes deps

def compile (graph : StepGraph) : Except StepPlanError Plan := do
  let order ← validateRoutes graph.nodes (graph.inputs.map fun _ source => source.route)
  return ⟨graph, order⟩

end Plan

def sameTickDeps (graph : StepGraph) (inst : String) : Set String :=
  { d | ∃ port output, graph.inputs[(⟨inst, port⟩ : StepInput)]? = some (.sameTick output) ∧ output.inst = d }

structure RouteOk (nodes : Map String StepSchema) (input : StepInput) (route : PlanRoute) : Prop where
  declared : (declaredInput nodes input).isSome = true
  initial : ∀ t, route.initial = some t → declaredInput nodes input = some t
  source : ∀ output, route.output = some output → declaredOutput nodes output = declaredInput nodes input

structure Compiled (plan : Plan) : Prop where
  nonempty : plan.graph.nodes ≠ ∅
  nodes : ∀ inst, inst ∈ plan.order ↔ inst ∈ plan.graph.nodes
  ready : Ready (sameTickDeps plan.graph) [] plan.order
  routed : ∀ (input : StepInput), (declaredInput plan.graph.nodes input).isSome = true → input ∈ plan.graph.inputs
  routes : ∀ (input : StepInput) source, plan.graph.inputs[input]? = some source →
    RouteOk plan.graph.nodes input source.route

section Compiling

open Plan

variable {nodes : Map String StepSchema} {deps deps' : Dependencies} {input : StepInput} {u : Unit}
  {inst : String} {schema : StepSchema} {plan : Plan}

lemma declared_node {t : StepType} (h : declaredInput nodes input = some t) : input.inst ∈ nodes := by
  obtain ⟨schema, hs, -⟩ := Option.bind_eq_some_iff.mp h
  exact mem_iff_isSome_getElem?.mpr (by rw [hs]; rfl)

lemma checkInitial_ok {expected : StepType} {initial : Option StepType} :
    checkInitial input expected initial = .ok u ↔ ∀ t, initial = some t → t = expected := by
  cases initial with
  | none => simp [checkInitial]
  | some t =>
    rw [checkInitial, ensure_ok]
    simp

def routeDeps (entry : StepInput × PlanRoute) : Set (String × String) :=
  { p | entry.2.sameTick = true ∧ entry.1.inst = p.1 ∧ ∃ output, entry.2.output = some output ∧ output.inst = p.2 }

lemma insert_source (inst source : String) (n d : String) :
    d ∈ depsOf (deps.insert inst ((deps.getD inst ∅).insert source)) n ↔
      d ∈ depsOf deps n ∨ inst = n ∧ source = d := by
  have hg : ∀ s : ExtTreeSet String, (deps.insert inst ((deps.getD inst ∅).insert source))[n]? = some s ↔
      if inst = n then (deps.getD inst ∅).insert source = s else deps[n]? = some s := by
    intro s
    rw [getElem?_insert]
    by_cases hn : inst = n
    · simp [hn]
    · simp [hn]
  simp only [depsOf, Set.mem_ofPred_eq, hg]
  by_cases hn : inst = n
  · subst hn
    simp only [if_true, exists_eq_left', ExtTreeSet.mem_insert, LawfulEqOrd.compare_eq_iff_eq, true_and]
    rw [or_comm, getD_eq_getD_getElem?]
    cases deps[inst]? with
    | none => simp
    | some s => simp
  · simp [hn]

lemma checkRoute_ok {entry : StepInput × PlanRoute} (hk : ∀ n, n ∈ deps ↔ n ∈ nodes)
    (h : checkRoute nodes deps entry = .ok deps') :
    RouteOk nodes entry.1 entry.2 ∧ (∀ n, n ∈ deps' ↔ n ∈ nodes) ∧
      ∀ n d, d ∈ depsOf deps' n ↔ d ∈ depsOf deps n ∨ (n, d) ∈ routeDeps entry := by
  obtain ⟨expected, hexp, h⟩ := bind_ok.mp h
  obtain ⟨⟨⟩, hinit, h⟩ := bind_ok.mp h
  rw [ofOption_ok] at hexp
  rw [checkInitial_ok] at hinit
  have hin : ∀ t, entry.2.initial = some t → declaredInput nodes entry.1 = some t := by
    intro t ht
    rw [hexp, hinit t ht]
  have hd : (declaredInput nodes entry.1).isSome = true := by rw [hexp]; rfl
  cases ho : entry.2.output with
  | none =>
    rw [ho] at h
    cases pure_ok.mp h
    refine ⟨⟨hd, hin, by simp [ho]⟩, hk, ?_⟩
    intro n d
    simp [routeDeps, ho]
  | some output =>
    rw [ho] at h
    obtain ⟨actual, ha, h⟩ := bind_ok.mp h
    obtain ⟨he, h⟩ := ensure_bind_ok.mp h
    rw [ofOption_ok] at ha
    refine ⟨⟨hd, hin, ?_⟩, ?_⟩
    · intro o hout
      rw [ho] at hout
      cases hout
      rw [ha, hexp, he]
    · rw [← pure_ok.mp h]
      cases hs : entry.2.sameTick with
      | false =>
        refine ⟨hk, ?_⟩
        intro n d
        simp [routeDeps, hs]
      | true =>
        refine ⟨?_, ?_⟩
        · intro n
          simp only [if_true, mem_insert, LawfulEqOrd.compare_eq_iff_eq, hk]
          refine ⟨?_, Or.inr⟩
          rintro (rfl | hn)
          · exact declared_node hexp
          · exact hn
        · intro n d
          rw [if_pos rfl, insert_source]
          simp [routeDeps, hs, ho]

lemma checkRoutes_ok {entries : List (StepInput × PlanRoute)} (hk : ∀ n, n ∈ deps ↔ n ∈ nodes)
    (h : entries.foldlM (checkRoute nodes) deps = .ok deps') :
    (∀ e ∈ entries, RouteOk nodes e.1 e.2) ∧ (∀ n, n ∈ deps' ↔ n ∈ nodes) ∧
      ∀ n d, d ∈ depsOf deps' n ↔ d ∈ depsOf deps n ∨ ∃ e ∈ entries, (n, d) ∈ routeDeps e := by
  induction entries generalizing deps with
  | nil =>
    cases pure_ok.mp h
    exact ⟨by simp, hk, by simp⟩
  | cons e entries ih =>
    rw [List.foldlM_cons] at h
    obtain ⟨mid, hm, h⟩ := bind_ok.mp h
    obtain ⟨hro, hk', hd⟩ := checkRoute_ok hk hm
    obtain ⟨hrts, hke, hr⟩ := ih hk' h
    refine ⟨List.forall_mem_cons.mpr ⟨hro, hrts⟩, hke, ?_⟩
    intro n d
    rw [hr n d, hd n d, or_assoc]
    simp

lemma checkNode_ok {inputs : Map StepInput PlanRoute} (h : checkNode inputs inst schema = .ok u) :
    ∀ port ∈ schema.inputs, (⟨inst, port⟩ : StepInput) ∈ inputs := by
  obtain ⟨-, h⟩ := ensure_bind_ok.mp h
  obtain ⟨-, -, h⟩ := bind_ok.mp h
  intro port hp
  exact ensure_ok.mp (forM_ok.mp h port (mem_keys.mpr hp))

lemma depsOf_empty (nodes : Map String StepSchema) (n d : String) :
    d ∈ depsOf (nodes.map fun _ _ => (∅ : ExtTreeSet String)) n ↔ False := by
  simp only [depsOf, Set.mem_ofPred_eq, getElem?_map, Option.map_eq_some_iff, iff_false]
  rintro ⟨s, ⟨schema, -, rfl⟩, hd⟩
  exact ExtTreeSet.not_mem_empty hd

variable {graph : StepGraph}

lemma mem_sameTickDeps {n d : String} : d ∈ sameTickDeps graph n ↔
    ∃ e : StepInput × PlanRoute, (∃ source, graph.inputs[e.1]? = some source ∧ source.route = e.2) ∧
      (n, d) ∈ routeDeps e := by
  constructor
  · rintro ⟨port, output, hs, rfl⟩
    exact ⟨(⟨n, port⟩, (StepSource.sameTick output).route), ⟨_, hs, rfl⟩, rfl, rfl, output, rfl, rfl⟩
  · rintro ⟨⟨input, route⟩, ⟨source, hs, rfl⟩, hsa, rfl, output, ho, rfl⟩
    cases source with
    | external => cases ho
    | previousTick _ _ => cases hsa
    | sameTick o =>
      cases ho
      exact ⟨input.port, output, hs, rfl⟩

theorem compile_ok (h : Plan.compile graph = .ok plan) : plan.graph = graph ∧ Compiled plan := by
  obtain ⟨order, ho, h⟩ := bind_ok.mp h
  cases pure_ok.mp h
  obtain ⟨hne, ho⟩ := ensure_bind_ok.mp ho
  obtain ⟨_, hn, ho⟩ := bind_ok.mp ho
  obtain ⟨deps, hde, ho⟩ := bind_ok.mp ho
  have hst : ∀ n, n ∈ (graph.nodes.map fun _ _ => (∅ : ExtTreeSet String)) ↔ n ∈ graph.nodes := by
    intro n
    rw [mem_map]
  obtain ⟨hr, hk, hsr⟩ := checkRoutes_ok hst hde
  have hso : sort deps.size deps [] = .ok order := by
    unfold orderNodes at ho
    split at ho
    · cases ho
    · rename_i hs
      cases ho
      exact hs
  obtain ⟨hrd, hm⟩ := sort_ok hso
  have hl : ∀ e : StepInput × PlanRoute, e ∈ (graph.inputs.map fun _ source => source.route).toList ↔
      ∃ source, graph.inputs[e.1]? = some source ∧ source.route = e.2 := by
    intro e
    rw [← Prod.eta e, mem_toList_iff_getElem?_eq_some, getElem?_map, Option.map_eq_some_iff]
  have hsa : depsOf deps = sameTickDeps graph := by
    funext n
    ext d
    rw [hsr n d, mem_sameTickDeps]
    simp only [hl, depsOf_empty, false_or]
  refine ⟨rfl, ?_, ?_, ?_, ?_, ?_⟩
  · intro he
    rw [show graph.nodes = ∅ from he] at hne
    cases hne
  · intro inst
    rw [hm, hk]
  · rwa [hsa] at hrd
  · intro input hd
    obtain ⟨t, ht⟩ := Option.isSome_iff_exists.mp hd
    obtain ⟨schema, hsch, hp⟩ := Option.bind_eq_some_iff.mp ht
    have hno := forM_ok.mp hn (input.inst, schema) (mem_toList_iff_getElem?_eq_some.mpr hsch)
    have hin := checkNode_ok hno input.port (mem_iff_isSome_getElem?.mpr (by rw [hp]; rfl))
    exact mem_map.mp hin
  · intro input source hs
    exact hr (input, source.route) ((hl _).mpr ⟨source, hs, rfl⟩)

lemma compile_ports (h : Plan.compile graph = .ok plan) (hs : graph.nodes[inst]? = some schema)
    {port : String} (hp : port ∈ schema.inputs ∨ port ∈ schema.outputs) :
    validatePortName port = true := by
  obtain ⟨order, ho, -⟩ := bind_ok.mp h
  obtain ⟨-, ho⟩ := ensure_bind_ok.mp ho
  obtain ⟨_, hno, -⟩ := bind_ok.mp ho
  have hnode := forM_ok.mp hno (inst, schema) (mem_toList_iff_getElem?_eq_some.mpr hs)
  obtain ⟨-, hnode⟩ := ensure_bind_ok.mp hnode
  obtain ⟨_, hn, -⟩ := bind_ok.mp hnode
  refine ensure_ok.mp (forM_ok.mp hn port ?_)
  rwa [List.mem_append, mem_keys, mem_keys]

end Compiling

end Reiny.Step
