import Reiny.Process.Preparation
import Reiny.Process.RoundTrip

/-! After the checks of the draft and of the reports, resolution can fail on its budget only, and a resolved graph
compiles to the order of the draft. -/

namespace Reiny.Process

open Std Lib Results Maps Checked Step Bindings ProcessStepPlan List

def spend (budget bytes : ℕ) : Except ProcessError ℕ :=
  if budget + bytes ≤ MAX_RETAINED_BYTES then .ok (budget + bytes) else .error invalid

lemma charge_spend (budget bytes : ℕ) : charge budget bytes = spend budget bytes := by
  unfold charge spend checkedAdd
  split_ifs with hl hf hf
  · rw [Option.filter_some, if_pos (by simpa using hf)]
    rfl
  · rw [Option.filter_some, if_neg (by simpa using hf)]
    rfl
  · unfold MAX_RETAINED_BYTES at hf
    unfold U64 at hl
    omega
  · rfl

variable {budget : ℕ}

lemma spend_zero (h : budget ≤ MAX_RETAINED_BYTES) : spend budget 0 = .ok budget := by
  rw [spend, Nat.add_zero, if_pos h]

lemma spend_bind (budget a b : ℕ) : (spend budget a >>= fun budget => spend budget b) = spend budget (a + b) := by
  unfold spend
  by_cases ha : budget + a ≤ MAX_RETAINED_BYTES
  · rw [if_pos ha]
    change (if budget + a + b ≤ _ then _ else _) = _
    rw [Nat.add_assoc]
  · rw [if_neg ha, if_neg (by omega)]
    rfl

lemma foldlM_spend {α : Type} {f : ℕ → α → Except ProcessError ℕ} {size : α → ℕ} (l : List α)
    (hf : ∀ budget a, budget ≤ MAX_RETAINED_BYTES → f budget a = spend budget (size a))
    (hb : budget ≤ MAX_RETAINED_BYTES) : l.foldlM f budget = spend budget (l.map size).sum := by
  induction l generalizing budget with
  | nil => exact (spend_zero hb).symm
  | cons a l ih =>
    rw [foldlM_cons, hf budget a hb, map_cons, sum_cons, ← spend_bind]
    unfold spend
    split_ifs with ha
    · exact ih ha
    · rfl

def reportBytes (report : StepPreparedReport) : ℕ :=
  (report.outputs.toList.map fun output => output.2.bytes.length).sum

def seedBytes (reports : Reports) : ProcessStepSource → ℕ
  | .external => 0
  | .sameTick _ => 0
  | .previousTick _ (.literal value) => value.bytes.length
  | .previousTick _ (.preparedOutput output) => (preparedValue reports output).elim 0 fun value =>
    value.bytes.length

def resolvedBytes (plan : ProcessStepPlan) (reports : Reports) : ℕ :=
  (reports.toList.map fun entry => reportBytes entry.2).sum +
    (plan.inputs.toList.map fun entry => seedBytes reports entry.2).sum

lemma chargeReports_spend (reports : Reports) :
    reports.toList.foldlM chargeReport 0 = spend 0 (reports.toList.map fun entry => reportBytes entry.2).sum := by
  refine foldlM_spend _ (fun budget entry hb => ?_) (Nat.zero_le _)
  exact foldlM_spend _ (fun budget output _ => charge_spend budget _) hb

def PreparedSeed (nodes : Map String StepSchema) (reports : Reports) (output : StepOutput) : Prop :=
  ∃ value ty, preparedValue reports output = some value ∧ importType value.ty = .ok ty ∧
    value.bytes.length ≤ MAX_VALUE_BYTES ∧ declaredOutput nodes output = some ty

variable {plan : ProcessStepPlan} {reports : Reports}

structure Resolves (nodes : Map String StepSchema) (reports : Reports) (input : StepInput)
    (source : ProcessStepSource)
    (resolved : StepSource) : Prop where
  route : draftRoute nodes input source = .ok resolved.route
  spends : ∀ budget ≤ MAX_RETAINED_BYTES, resolveSource reports budget source =
    (spend budget (seedBytes reports source)).mapError .process >>= fun budget => pure (resolved, budget)

variable {nodes : Map String StepSchema} {order : List String}

lemma source_resolves {input : StepInput} {source : ProcessStepSource} {route : PlanRoute}
    (hr : draftRoute nodes input source = .ok route)
    (hse : ∀ from_ output, source = .previousTick from_ (.preparedOutput output) →
      PreparedSeed nodes reports output) :
    ∃ resolved, Resolves nodes reports input source resolved := by
  cases source with
  | external =>
    refine ⟨.external, rfl, fun budget hb => ?_⟩
    rw [seedBytes, spend_zero hb]
    rfl
  | sameTick output =>
    refine ⟨.sameTick output, rfl, fun budget hb => ?_⟩
    rw [seedBytes, spend_zero hb]
    rfl
  | previousTick from_ initial =>
    cases initial with
    | literal value =>
      obtain ⟨ty, hty, -⟩ := bind_ok.mp hr
      obtain ⟨hl, hty⟩ := ensure_bind_ok.mp hty
      refine ⟨.previousTick from_ value, ?_, fun budget _ => ?_⟩
      · exact bind_ok.mpr ⟨value.stepType, ensure_bind_ok.mpr ⟨hl, rfl⟩, rfl⟩
      · rw [resolveSource, resolveSeed, charge_spend, seedBytes]
        cases spend budget value.bytes.length <;> rfl
    | preparedOutput output =>
      obtain ⟨wire, ty, hw, ht, hl, hd⟩ := hse from_ output rfl
      have himp : importValue output.port wire = .ok ⟨ty, wire.bytes⟩ :=
        ensure_bind_ok.mpr ⟨hl, bind_ok.mpr ⟨ty, ht, rfl⟩⟩
      obtain ⟨values, hva, hv⟩ := bind_ok.mp (convert_one himp)
      refine ⟨.previousTick from_ ⟨ty, wire.bytes⟩, ?_, fun budget _ => ?_⟩
      · exact bind_ok.mpr ⟨ty, ofOption_ok.mpr hd, rfl⟩
      · have hg : values[output.port]? = some ⟨ty, wire.bytes⟩ := ofOption_ok.mp hv
        have hv' : importValues (Map.of [(output.port, wire)]) = .ok values := hva
        rw [resolveSource, seedBytes, hw, Option.elim_some]
        cases hs : spend budget wire.bytes.length with
        | error e =>
          rw [resolveSeed, hw]
          change (((charge budget wire.bytes.length).mapError PrepareError.process >>= _) >>= _) = _
          rw [charge_spend, hs]
          rfl
        | ok left =>
          refine bind_ok.mpr ⟨(⟨ty, wire.bytes⟩, left), ?_, rfl⟩
          refine bind_ok.mpr ⟨wire, ofOption_ok.mpr hw, bind_ok.mpr ⟨left, ?_, ?_⟩⟩
          · rw [charge_spend, hs]
            rfl
          · exact bind_ok.mpr ⟨values, mapError_ok.mpr hv',
              bind_ok.mpr ⟨_, ofOption_ok.mpr hg, rfl⟩⟩

lemma resolveInputs_spend {resolved : StepInput × ProcessStepSource → StepSource}
    (l : List (StepInput × ProcessStepSource))
    (h : ∀ entry ∈ l, Resolves nodes reports entry.1 entry.2 (resolved entry)) {budget : ℕ}
    (hb : budget ≤ MAX_RETAINED_BYTES) : resolveInputs reports budget l =
      (spend budget (l.map fun entry => seedBytes reports entry.2).sum).mapError .process >>= fun _ =>
        pure (l.map fun entry => (entry.1, resolved entry)) := by
  induction l generalizing budget with
  | nil =>
    rw [map_nil, sum_nil, spend_zero hb]
    rfl
  | cons entry l ih =>
    obtain ⟨input, source⟩ := entry
    rw [forall_mem_cons] at h
    rw [resolveInputs, h.1.spends budget hb, map_cons, sum_cons, ← spend_bind]
    by_cases hf : budget + seedBytes reports source ≤ MAX_RETAINED_BYTES
    · have hs : spend budget (seedBytes reports source) = .ok (budget + seedBytes reports source) := if_pos hf
      rw [hs]
      change (resolveInputs reports (budget + seedBytes reports source) l >>= _) = _
      rw [ih h.2 hf]
      change _ = (spend (budget + seedBytes reports source) _).mapError PrepareError.process >>= _
      cases spend (budget + seedBytes reports source) (l.map fun entry => seedBytes reports entry.2).sum <;> rfl
    · have hs : spend budget (seedBytes reports source) = .error invalid := if_neg hf
      rw [hs]
      rfl

lemma draft_routes (h : plan.draftOrder = .ok order) :
    ∃ routes, traverse (draftRoute plan.nodes) plan.inputs = .ok routes ∧
      Plan.validateRoutes plan.nodes routes = .ok order := by
  obtain ⟨-, h⟩ := ensure_bind_ok.mp h
  obtain ⟨_, -, h⟩ := bind_ok.mp h
  obtain ⟨routes, hr, h⟩ := bind_ok.mp h
  exact ⟨routes, hr, mapError_ok.mp h⟩

lemma resolve_spend (hdr : plan.draftOrder = .ok order)
    (hs : ∀ (input : StepInput) source output,
      plan.inputs[input]? = some (.previousTick source (.preparedOutput output)) →
      PreparedSeed plan.nodes reports output) :
    ∃ graph, Plan.compile graph = .ok ⟨graph, order⟩ ∧ plan.resolve reports =
      (spend 0 (resolvedBytes plan reports)).mapError .process >>= fun _ => pure graph := by
  obtain ⟨routes, hrts, hord⟩ := draft_routes hdr
  have he : ∀ entry : StepInput × ProcessStepSource, entry ∈ plan.inputs.toList →
      ∃ resolved, Resolves plan.nodes reports entry.1 entry.2 resolved := by
    intro entry hm
    have hg := ExtTreeMap.mem_toList_iff_getElem?_eq_some.mp hm
    have hd : ∃ route, draftRoute plan.nodes entry.1 entry.2 = .ok route := by
      obtain ⟨entries, hes, -⟩ := bind_ok.mp hrts
      obtain ⟨⟨input, route⟩, ho⟩ := mapM_each hes hm
      exact ⟨route, (convert_ok.mp ho).2⟩
    obtain ⟨route, hro⟩ := hd
    refine source_resolves hro fun source output hsrc => ?_
    exact hs entry.1 source output (hsrc ▸ hg)
  have : Nonempty StepSource := ⟨.external⟩
  choose! resolved hresolved using he
  let graph : StepGraph := ⟨plan.nodes, Map.of (plan.inputs.toList.map fun entry => (entry.1, resolved entry))⟩
  have hsa : (graph.inputs.map fun _ source => source.route) = routes := by
    apply ExtTreeMap.ext_getElem?
    intro input
    have hg : graph.inputs[input]? = plan.inputs[input]?.map fun source => resolved (input, source) :=
      ofList_map_toList resolved input
    apply Option.ext
    intro route
    rw [ExtTreeMap.getElem?_map, hg, traverse_get hrts, Option.map_map, Option.map_eq_some_iff]
    refine exists_congr fun source => and_congr_right fun hsrc => ?_
    have hro := (hresolved (input, source) (ExtTreeMap.mem_toList_iff_getElem?_eq_some.mpr hsrc)).route
    rw [hro, Except.ok.injEq]
    rfl
  refine ⟨graph, ?_, ?_⟩
  · exact bind_ok.mpr ⟨order, hsa ▸ hord, rfl⟩
  · rw [resolve, chargeReports_spend, resolvedBytes, ← spend_bind]
    unfold spend
    split_ifs with hr
    · have hin := resolveInputs_spend plan.inputs.toList hresolved hr
      change (resolveInputs reports _ plan.inputs.toList >>= _) = _
      rw [hin]
      unfold spend
      change _ = (if _ then _ else _ : Except ProcessError ℕ).mapError PrepareError.process >>= _
      split_ifs <;> rfl
    · rfl

def Backed (plan : ProcessStepPlan) (peers : List ProcessStepPeer) (steps : Map String StepAssignment) : Prop :=
  ∀ (id : String) assignment, steps[id]? = some assignment →
    (∃ schema, plan.nodes[id]? = some schema ∧ exportSchema schema = assignment.schema) ∧
      ∃ peer ∈ peers, peer.steps[id]? = some assignment

variable {peers : List ProcessStepPeer}

lemma addStep_backed {peer : ProcessStepPeer} (hp : peer ∈ peers)
    {steps steps' : Map String StepAssignment} {entry : String × StepAssignment}
    (he : entry ∈ peer.steps.toList) (hb : Backed plan peers steps)
    (h : addStep plan peer steps entry = .ok steps') : Backed plan peers steps' := by
  obtain ⟨-, h⟩ := ensure_bind_ok.mp h
  obtain ⟨hs, h⟩ := ensure_bind_ok.mp h
  obtain ⟨_, -, h⟩ := bind_ok.mp h
  cases pure_ok.mp h
  intro id assignment hg
  rcases of_insert hg with ⟨rfl, rfl⟩ | ⟨-, hg⟩
  · obtain ⟨schema, hn, hex⟩ := (Option.any_eq_true ..).mp hs
    exact ⟨⟨schema, hn, of_decide_eq_true hex⟩, peer, hp,
      ExtTreeMap.mem_toList_iff_getElem?_eq_some.mp he⟩
  · exact hb id assignment hg

lemma peers_backed {key : StepSessionKey} {assigned : Assigned}
    (h : peers.foldlM (addPeer plan key) ⟨∅, ∅, ∅⟩ = .ok assigned) : Backed plan peers assigned.steps := by
  refine foldlM_invariant (P := fun assigned : Assigned => Backed plan peers assigned.steps) ?_ ?_ h
  · intro peer hp before after hb ha
    obtain ⟨-, ha⟩ := ensure_bind_ok.mp ha
    obtain ⟨-, ha⟩ := ensure_bind_ok.mp ha
    obtain ⟨_, -, ha⟩ := bind_ok.mp ha
    obtain ⟨steps, hss, ha⟩ := bind_ok.mp ha
    cases pure_ok.mp ha
    exact foldlM_invariant (P := Backed plan peers) (fun entry he _ _ => addStep_backed hp he) hb hss
  · intro id assignment hg
    rw [ExtTreeMap.getElem?_empty] at hg
    cases hg

structure Reported (assignment : StepAssignment) (report : StepPreparedReport) : Prop where
  schema : report.schema = assignment.schema
  ports : ∀ port, port ∈ assignment.seedOutputs → port ∈ report.outputs
  values : ∃ schema, importSchema report.schema = .ok schema ∧
    ∀ (port : String) value, report.outputs[port]? = some value →
    ∃ ty, importType value.ty = .ok ty ∧ value.bytes.length ≤ MAX_VALUE_BYTES ∧ schema.outputs[port]? = some ty

def Covers (reports : CollectedReports) (peer : ProcessStepPeer) (id : String) : Prop :=
  ∃ assignment report, peer.steps[id]? = some assignment ∧ reports.steps[id]? = some report ∧
    Reported assignment report

def Keeps (before after : CollectedReports) : Prop :=
  ∀ (id : String) report, before.steps[id]? = some report → after.steps[id]? = some report

variable {peer : ProcessStepPeer} {before after : CollectedReports} {c : Collecting} {c' : Collecting}

lemma Covers.keeps {id : String} (h : Covers before peer id) (hk : Keeps before after) : Covers after peer id := by
  obtain ⟨assignment, report, hs, hr, hrep⟩ := h
  exact ⟨assignment, report, hs, hk id report hr, hrep⟩

lemma addOrdinary_ok {report : ModuleReport} (h : addOrdinary peer c report = .ok c') :
    Keeps c.reports c'.reports ∧ c'.actual = c.actual := by
  obtain ⟨_, -, h⟩ := bind_ok.mp h
  obtain ⟨_, -, h⟩ := bind_ok.mp h
  obtain ⟨-, h⟩ := ensure_bind_ok.mp h
  cases pure_ok.mp h
  exact ⟨fun _ _ ho => ho, rfl⟩

lemma addSteps_ok {report : StepPreparedReport} (h : addSteps peer c report = .ok c') :
    Keeps c.reports c'.reports ∧ Covers c'.reports peer report.inst ∧ c'.actual = c.actual.insert report.inst := by
  obtain ⟨expected, he, h⟩ := bind_ok.mp h
  obtain ⟨⟨hs, -, hpo⟩, h⟩ := ensure_bind_ok.mp h
  obtain ⟨schema, himp, h⟩ := bind_ok.mp h
  obtain ⟨budget, hb, h⟩ := bind_ok.mp h
  obtain ⟨hfr, h⟩ := ensure_bind_ok.mp h
  cases pure_ok.mp h
  refine ⟨?_, ⟨expected, report, ofOption_ok.mp he, ExtTreeMap.getElem?_insert_self, hs, ?_, schema,
    mapError_ok.mp himp, ?_⟩, rfl⟩
  · intro id other ho
    rw [ExtTreeMap.getElem?_insert, if_neg, ho]
    rw [LawfulEqOrd.compare_eq_iff_eq]
    rintro rfl
    exact hfr (mem_of_some ho)
  · intro port hp
    rw [← hpo, ExtTreeSet.mem_ofList, contains_iff_mem] at hp
    exact ExtTreeMap.mem_keys.mp hp
  · intro port value hv
    obtain ⟨_, _, hc⟩ := foldlM_each hb (ExtTreeMap.mem_toList_iff_getElem?_eq_some.mpr hv)
    obtain ⟨ty, hty, hc⟩ := bind_ok.mp hc
    obtain ⟨⟨hl, hd⟩, -⟩ := ensure_bind_ok.mp hc
    exact ⟨ty, mapError_ok.mp hty, hl, hd⟩

lemma collectReports_ok {messages : List HostMessage} (hc : ∀ id ∈ c.actual, Covers c.reports peer id)
    (h : collectReports peer c messages = .ok after) :
    Keeps c.reports after ∧ ∀ id ∈ peer.steps, Covers after peer id := by
  induction messages generalizing c with
  | nil => cases h
  | cons message messages ih =>
    cases message with
    | preparedComplete =>
      obtain ⟨ha, h⟩ := ensure_bind_ok.mp h
      obtain ⟨-, h⟩ := ensure_bind_ok.mp h
      cases pure_ok.mp h
      refine ⟨fun _ _ hr => hr, fun id hid => hc id ?_⟩
      rw [ha, ExtTreeSet.mem_ofList, contains_iff_mem]
      exact ExtTreeMap.mem_keys.mpr hid
    | report report =>
      obtain ⟨c', hadd, h⟩ := bind_ok.mp h
      obtain ⟨hke, ha⟩ := addOrdinary_ok hadd
      obtain ⟨hk, hall⟩ := ih (fun id hid => (hc id (ha ▸ hid)).keeps hke) h
      exact ⟨fun id other ho => hk id other (hke id other ho), hall⟩
    | steps report =>
      obtain ⟨c', hadd, h⟩ := bind_ok.mp h
      obtain ⟨hke, hn, ha⟩ := addSteps_ok hadd
      have hc' : ∀ id ∈ c'.actual, Covers c'.reports peer id := by
        intro id hid
        rw [ha, ExtTreeSet.mem_insert, LawfulEqOrd.compare_eq_iff_eq] at hid
        rcases hid with rfl | hid
        · exact hn
        · exact (hc id hid).keeps hke
      obtain ⟨hk, hall⟩ := ih hc' h
      exact ⟨fun id other ho => hk id other (hke id other ho), hall⟩
    | stepEvent | other => cases h

lemma collectAll_ok {hosts : List (ProcessStepPeer × List HostMessage)} (h : collectAll before hosts = .ok after) :
    Keeps before after ∧ ∀ peer ∈ hosts.map Prod.fst, ∀ id ∈ peer.steps, Covers after peer id := by
  induction hosts generalizing before with
  | nil =>
    cases pure_ok.mp h
    exact ⟨fun _ _ hrep => hrep, by simp⟩
  | cons host hosts ih =>
    obtain ⟨peer, messages⟩ := host
    obtain ⟨mid, hm, h⟩ := bind_ok.mp h
    obtain ⟨hke, hp⟩ := collectReports_ok (fun _ hid => absurd hid ExtTreeSet.not_mem_empty) hm
    obtain ⟨hk, hr⟩ := ih h
    refine ⟨fun id report hrep => hk id report (hke id report hrep), ?_⟩
    rw [map_cons, forall_mem_cons]
    exact ⟨fun id hid => (hp id hid).keeps hk, hr⟩

variable {hosts : List (ProcessStepPeer × List HostMessage)} {key : StepSessionKey}

lemma import_exported {schema schema' : StepSchema} (h : importSchema (exportSchema schema) = .ok schema')
    {port : String} {ty : StepType} (hp : schema'.outputs[port]? = some ty) : schema.outputs[port]? = some ty := by
  obtain ⟨inputs, -, h⟩ := bind_ok.mp h
  obtain ⟨outputs, hou, h⟩ := bind_ok.mp h
  cases pure_ok.mp h
  obtain ⟨-, hou⟩ := ensure_bind_ok.mp hou
  obtain ⟨wire, hw, himp⟩ := (traverse_get hou port ty).mp hp
  rw [exportSchema, ExtTreeMap.getElem?_map, Option.map_eq_some_iff] at hw
  obtain ⟨original, ho, rfl⟩ := hw
  obtain ⟨-, himp⟩ := ensure_bind_ok.mp himp
  obtain ⟨encoded, he, himp⟩ := bind_ok.mp himp
  obtain ⟨-, he⟩ := ensure_bind_ok.mp (mapError_ok.mp he)
  obtain ⟨-, he⟩ := ensure_bind_ok.mp he
  cases pure_ok.mp he
  obtain ⟨_, -, himp⟩ := bind_ok.mp (mapError_ok.mp himp)
  cases pure_ok.mp himp
  exact ho

lemma seeds_prepared (hassign : validateAssignments (hosts.map Prod.fst) plan key = .ok ())
    (hpr : prepareHosts hosts budget = .ok reports) (input : StepInput) (source output : StepOutput)
    (hro : plan.inputs[input]? = some (.previousTick source (.preparedOutput output))) :
    PreparedSeed plan.nodes reports output := by
  obtain ⟨_, -, hassign⟩ := bind_ok.mp hassign
  obtain ⟨assigned, has, hassign⟩ := bind_ok.mp hassign
  obtain ⟨-, hassign⟩ := ensure_bind_ok.mp hassign
  have hse := forM_ok.mp hassign _ (ExtTreeMap.mem_toList_iff_getElem?_eq_some.mpr hro)
  obtain ⟨assignment, ha, hau⟩ := (Option.any_eq_true ..).mp (ensure_ok.mp hse)
  obtain ⟨⟨schema, hn, he⟩, peer, hp, hs⟩ := peers_backed has output.inst assignment ha
  obtain ⟨collected, hc, hpr⟩ := bind_ok.mp hpr
  obtain ⟨_, -, hpr⟩ := bind_ok.mp hpr
  cases pure_ok.mp hpr
  obtain ⟨other, report, ho, hr, hrep⟩ :=
    (collectAll_ok hc).2 peer hp output.inst (mem_of_some hs)
  rw [hs] at ho
  cases ho
  obtain ⟨value, hv⟩ := some_of_mem (hrep.ports output.port (ExtTreeSet.contains_iff_mem.mp hau))
  obtain ⟨schema', himp, hva⟩ := hrep.values
  obtain ⟨ty, hty, hl, hd⟩ := hva output.port value hv
  rw [hrep.schema, ← he] at himp
  refine ⟨value, ty, ?_, hty, hl, ?_⟩
  · rw [preparedValue, hr, Option.bind_some, hv]
  · rw [declaredOutput, hn, Option.bind_some, import_exported himp hd]

lemma assignments_draft (ha : validateAssignments (hosts.map Prod.fst) plan key = .ok ()) :
    ∃ order, plan.draftOrder = .ok order := by
  obtain ⟨_, hv, -⟩ := bind_ok.mp ha
  obtain ⟨order, hd, -⟩ := bind_ok.mp hv
  exact ⟨order, hd⟩

lemma resolve_cases (ha : validateAssignments (hosts.map Prod.fst) plan key = .ok ())
    (hp : prepareHosts hosts budget = .ok reports) :
    ∃ order graph, plan.draftOrder = .ok order ∧ Plan.compile graph = .ok ⟨graph, order⟩ ∧ plan.resolve reports =
      if resolvedBytes plan reports ≤ MAX_RETAINED_BYTES then .ok graph else .error (.process invalid) := by
  obtain ⟨order, hd⟩ := assignments_draft ha
  obtain ⟨graph, hc, hr⟩ := resolve_spend hd (seeds_prepared ha hp)
  refine ⟨order, graph, hd, hc, ?_⟩
  rw [hr, spend, Nat.zero_add]
  split_ifs <;> rfl

lemma prepare_draft {accept : Reports → StepGraph → Prepares Unit} {compiled : Plan}
    (h : prepare accept hosts plan key = .ok compiled) : plan.draftOrder = .ok compiled.order := by
  obtain ⟨-, h⟩ := ensure_bind_ok.mp h
  obtain ⟨_, ha, h⟩ := bind_ok.mp h
  obtain ⟨budget, -, h⟩ := bind_ok.mp h
  obtain ⟨reports, hp, h⟩ := bind_ok.mp h
  obtain ⟨graph, hr, h⟩ := bind_ok.mp h
  obtain ⟨_, -, h⟩ := bind_ok.mp h
  obtain ⟨order, other, hd, hc, hres⟩ := resolve_cases ha hp
  rw [hres] at hr
  split_ifs at hr
  cases hr
  rw [hc] at h
  cases h
  exact hd

theorem draft_final_agree (hosts : List (ProcessStepPeer × List HostMessage)) (plan : ProcessStepPlan)
    (key : StepSessionKey) (budget : ℕ) (reports : Reports)
    (hassign : validateAssignments (hosts.map Prod.fst) plan key = .ok ())
    (hprepare : prepareHosts hosts budget = .ok reports) :
    ∃ order, plan.draftOrder = .ok order ∧
      (∀ graph, plan.resolve reports = .ok graph → Plan.compile graph = .ok ⟨graph, order⟩) ∧
      ((∃ graph, plan.resolve reports = .ok graph) ↔ resolvedBytes plan reports ≤ MAX_RETAINED_BYTES) ∧
      (MAX_RETAINED_BYTES < resolvedBytes plan reports → plan.resolve reports = .error (.process invalid)) := by
  obtain ⟨order, graph, hd, hc, hr⟩ := resolve_cases hassign hprepare
  refine ⟨order, hd, ?_, ?_, ?_⟩
  · intro other ho
    rw [hr] at ho
    split_ifs at ho
    rwa [← Except.ok.inj ho]
  · rw [hr]
    split_ifs with hf <;> simp [hf]
  · intro hov
    rw [hr, if_neg (Nat.not_le.mpr hov)]

def fanNames (n : ℕ) : List String := (List.range n).map fun i => String.ofList [Char.ofNat (65 + i)]

def fanType : StepType := ⟨"demo.Pose", 7, Map.of []⟩

def fanSchema (n : ℕ) : StepSchema := ⟨Map.of ((fanNames n).map (·, fanType)), Map.of [("state", fanType)]⟩

def fanPlan (n : ℕ) : ProcessStepPlan where
  nodes := Map.of [("arm", fanSchema n)]
  inputs := Map.of ((fanNames n).map fun name =>
    (⟨"arm", name⟩, .previousTick ⟨"arm", "state"⟩ (.preparedOutput ⟨"arm", "state"⟩)))

def fanKey : StepSessionKey := ⟨[], 1, 2, "graph", ""⟩

def fanBindings : ModuleBindings := ⟨3, "arm", "arm", Map.of [], Map.of [], Map.of [], []⟩

def fanPeer (n : ℕ) : ProcessStepPeer where
  identity := ⟨1, 2, "graph"⟩
  hostId := "left"
  assignments := [fanBindings]
  steps := Map.of [("arm", ⟨exportSchema (fanSchema n), [], ExtTreeSet.ofList ["state"]⟩)]

def fanReport (n : ℕ) (bytes : Bytes) : StepPreparedReport :=
  ⟨"arm", exportSchema (fanSchema n), [], Map.of [("state", ⟨exportType fanType, bytes⟩)]⟩

def fanMessages (n : ℕ) (bytes : Bytes) : List HostMessage :=
  [.report ⟨3, 2, "arm", "arm", Map.of [], Map.of []⟩, .steps (fanReport n bytes), .preparedComplete]

def fanSource : ProcessStepSource := .previousTick ⟨"arm", "state"⟩ (.preparedOutput ⟨"arm", "state"⟩)

-- One evaluation for the four facts, which read the same maps.
lemma fan_facts : validateAssignments [fanPeer 64] (fanPlan 64) fanKey = .ok () ∧
    (fanPlan 64).literalBudget = .ok 0 ∧ (fanPlan 64).inputs.toList.map Prod.snd = replicate 64 fanSource ∧
    (importSchema (exportSchema (fanSchema 64)) >>= fun schema => pure schema.outputs["state"]?) =
      .ok (some fanType) := by decide +kernel

variable {bytes : Bytes}

lemma fan_entries (n : ℕ) : (fanReport n bytes).outputs.toList = [("state", ⟨exportType fanType, bytes⟩)] := by
  rfl

lemma fan_steps {c : Collecting} (hbs : bytes.length ≤ MAX_VALUE_BYTES) (hfr : "arm" ∉ c.reports.steps)
    (hb : c.reports.budget = 0) : addSteps (fanPeer 64) c (fanReport 64 bytes) = .ok { c with
      reports := { c.reports with
        steps := c.reports.steps.insert "arm" (fanReport 64 bytes)
        budget := bytes.length }
      actual := c.actual.insert "arm" } := by
  have hs : (fanPeer 64).steps["arm"]? = some ⟨exportSchema (fanSchema 64), [], ExtTreeSet.ofList ["state"]⟩ :=
    congrArg (·["arm"]?) ExtTreeMap.ofList_singleton |>.trans ExtTreeMap.getElem?_insert_self
  have ht : importType (exportType fanType) = .ok fanType := by decide +kernel
  obtain ⟨schema, himp, hd⟩ := bind_ok.mp fan_facts.2.2.2
  replace hd := pure_ok.mp hd
  have hc : charge 0 bytes.length = .ok bytes.length := by
    rw [charge_spend, spend, Nat.zero_add, if_pos (hbs.trans (by decide))]
  refine bind_ok.mpr ⟨_, ofOption_ok.mpr hs, ensure_bind_ok.mpr ⟨⟨rfl, rfl, rfl⟩, ?_⟩⟩
  refine bind_ok.mpr ⟨_, mapError_ok.mpr himp, bind_ok.mpr ⟨bytes.length, ?_, ?_⟩⟩
  · rw [fan_entries, hb]
    refine bind_ok.mpr ⟨bytes.length, ?_, rfl⟩
    exact bind_ok.mpr ⟨fanType, mapError_ok.mpr ht, ensure_bind_ok.mpr ⟨⟨hbs, hd⟩, mapError_ok.mpr hc⟩⟩
  · exact ensure_bind_ok.mpr ⟨hfr, rfl⟩

def fanReports (bytes : Bytes) : Reports := Map.of [("arm", fanReport 64 bytes)]

lemma fan_prepared (hbs : bytes.length ≤ MAX_VALUE_BYTES) :
    prepareHosts [(fanPeer 64, fanMessages 64 bytes)] 0 = .ok (fanReports bytes) := by
  have hb : (bindingsOf (fanPeer 64))["arm"]? = some fanBindings := by decide +kernel
  have hr : validateReport ⟨fanBindings, ⟨3, 2, "arm", "arm", Map.of [], Map.of []⟩⟩ = .ok () := by decide +kernel
  have hg : validateGraph (entriesOf [fanPeer 64] (Map.of [("arm", ⟨3, 2, "arm", "arm", Map.of [], Map.of []⟩)])) =
      .ok () := by decide +kernel
  have ha : ((∅ : ExtTreeSet String).insert "arm") = ExtTreeSet.ofList (fanPeer 64).steps.keys := by decide +kernel
  have ho : ((∅ : ExtTreeSet String).insert "arm") = ExtTreeSet.ofList (bindingsOf (fanPeer 64)).keys := by
    decide +kernel
  refine bind_ok.mpr
    ⟨⟨fanReports bytes, Map.of [("arm", ⟨3, 2, "arm", "arm", Map.of [], Map.of []⟩)], bytes.length⟩,
    bind_ok.mpr ⟨_, ?_, rfl⟩, bind_ok.mpr ⟨(), mapError_ok.mpr hg, rfl⟩⟩
  refine bind_ok.mpr ⟨_, bind_ok.mpr ⟨_, ofOption_ok.mpr hb,
    bind_ok.mpr ⟨(), mapError_ok.mpr hr, ensure_bind_ok.mpr ⟨ExtTreeMap.not_mem_empty, rfl⟩⟩⟩, ?_⟩
  refine bind_ok.mpr ⟨_, fan_steps hbs ExtTreeMap.not_mem_empty rfl, ?_⟩
  refine ensure_bind_ok.mpr ⟨ha, ensure_bind_ok.mpr ⟨ho, ?_⟩⟩
  simp [fanReports, Map.of, fanReport, pure, Except.pure]

lemma fan_bytes : resolvedBytes (fanPlan 64) (fanReports bytes) = 65 * bytes.length := by
  have hv : preparedValue (fanReports bytes) ⟨"arm", "state"⟩ = some ⟨exportType fanType, bytes⟩ := by
    rfl
  have hr : ((fanReports bytes).toList.map fun entry => reportBytes entry.2).sum = bytes.length := by
    change reportBytes (fanReport 64 bytes) + 0 = bytes.length
    rw [reportBytes, fan_entries]
    simp
  have hs : ((fanPlan 64).inputs.toList.map fun entry => seedBytes (fanReports bytes) entry.2) =
      replicate 64 bytes.length := by
    change (fanPlan 64).inputs.toList.map (seedBytes (fanReports bytes) ∘ Prod.snd) = _
    rw [← map_map, fan_facts.2.2.1, map_replicate, fanSource, seedBytes, hv]
    rfl
  rw [resolvedBytes, hr, hs, sum_replicate, smul_eq_mul]
  omega

theorem draft_final_agree_fan : ∃ order graph, (fanPlan 64).draftOrder = .ok order ∧
    (fanPlan 64).resolve (fanReports [1, 2]) = .ok graph ∧ Plan.compile graph = .ok ⟨graph, order⟩ := by
  obtain ⟨order, hd, hc, hr, -⟩ :=
    draft_final_agree [(fanPeer 64, fanMessages 64 [1, 2])] (fanPlan 64) fanKey 0 _ fan_facts.1
      (fan_prepared (by decide))
  obtain ⟨graph, hg⟩ := hr.mpr (by rw [fan_bytes]; decide)
  exact ⟨order, graph, hd, hg, hc graph hg⟩

theorem draft_final_overspent : ∃ hosts plan key budget reports,
    validateAssignments (hosts.map Prod.fst) plan key = .ok () ∧ plan.literalBudget = .ok budget ∧
      prepareHosts hosts budget = .ok reports ∧ plan.resolve reports = .error (.process invalid) := by
  let bytes : Bytes := List.replicate MAX_VALUE_BYTES 0
  have hbs : bytes.length = MAX_VALUE_BYTES := length_replicate
  have ha : validateAssignments ([(fanPeer 64, fanMessages 64 bytes)].map Prod.fst) (fanPlan 64) fanKey = .ok () :=
    fan_facts.1
  have hp := fan_prepared hbs.le
  obtain ⟨order, graph, -, -, hr⟩ := resolve_cases ha hp
  refine ⟨_, fanPlan 64, fanKey, 0, _, ha, fan_facts.2.1, hp, ?_⟩
  rw [hr, fan_bytes, hbs, if_neg (by decide)]

end Reiny.Process
