import Reiny.Bindings.Report

namespace Reiny.Bindings

open Std Lib Results Maps Step List ExtTreeMap

def ResponseAgrees (contract : EndpointContract) (response : Option ResponseReport) : Prop :=
  contract.kind = .stream ∧ contract.response = none ∧ response = none ∨
  contract.kind = .rpc ∧ ∃ compiled, response = some compiled ∧ contract.response = some compiled.typeName

structure PortAgrees (exact : PortEndpoint) (declared : EndpointContract) (port : PortReport) : Prop where
  endpoint : port.endpoint = exact
  contract : port.contract = declared
  typeName : port.typeName = declared.typeName
  response : ResponseAgrees declared port.response

structure Faithful (entry : ReportEntry) : Prop where
  valid : entry.bindings.validate = .ok ()
  version : entry.report.version = MODULE_REPORT_VERSION
  fingerprint : entry.report.fingerprintVersion = SCHEMA_FINGERPRINT_VERSION
  namespace_ : entry.report.namespace_ = entry.bindings.namespace_
  endpointNamespace : entry.report.endpointNamespace = entry.bindings.endpointNamespace
  inputs : ∀ name, name ∈ entry.report.inputs ↔ name ∈ entry.bindings.inputs
  outputs : ∀ name, name ∈ entry.report.outputs ↔ name ∈ entry.bindings.outputs
  input : ∀ (name : String) binding port, entry.bindings.inputs[name]? = some binding →
    entry.report.inputs[name]? = some port → PortAgrees (.input binding.sources) binding.contract port
  output : ∀ (name : String) binding port, entry.bindings.outputs[name]? = some binding →
    entry.report.outputs[name]? = some port →
      PortAgrees (.output ⟨entry.bindings.endpointNamespace, name⟩) binding.contract port

structure Compatible (input output : PortReport) : Prop where
  typeName : input.typeName = output.typeName
  schema : input.schema = output.schema
  kind : input.contract.kind = output.contract.kind
  semantics : input.contract.semantics = output.contract.semantics
  response : input.response = output.response
  replay : input.contract.replay = .last → output.contract.retention = .last

structure Closed (entries : List ReportEntry) : Prop where
  nonempty : entries ≠ []
  faithful : ∀ entry ∈ entries, Faithful entry
  top : ∀ entry ∈ entries, entry.bindings.namespace_ = entry.bindings.endpointNamespace
  distinct : (entries.map fun entry => entry.bindings.namespace_).Nodup
  sources : ∀ entry ∈ entries, ∀ (name : String) binding port, entry.bindings.inputs[name]? = some binding →
    entry.report.inputs[name]? = some port → ∀ address ∈ binding.sources,
      ∃ source ∈ entries, source.bindings.namespace_ = address.namespace_ ∧
        ∃ output, source.report.outputs[address.port]? = some output ∧ Compatible port output

variable {entry : ReportEntry} {side : ReportPortSide} {declared : Declared} {port : PortReport}

def ReportEntry.expected (entry : ReportEntry) (declared : Declared) : PortEndpoint :=
  match declared.sources with
  | some sources => .input sources
  | none => .output ⟨entry.bindings.endpointNamespace, declared.name⟩

lemma endpointMatches_iff {endpoint : PortEndpoint} :
    entry.endpointMatches declared endpoint = true ↔ endpoint = entry.expected declared := by
  unfold ReportEntry.endpointMatches ReportEntry.expected
  cases endpoint with
  | input actual => cases declared.sources <;> simp [eq_comm]
  | output address =>
    obtain ⟨namespace_, port⟩ := address
    cases declared.sources <;> simp

lemma responseMatches_iff {contract : EndpointContract} {response : Option ResponseReport} :
    responseMatches contract response = true ↔ ResponseAgrees contract response := by
  unfold responseMatches ResponseAgrees
  cases contract.kind <;> cases contract.response <;> cases response <;> simp

variable {u : Unit} {name : String}

lemma checkPort_ok : checkPort entry side declared = .ok u ↔ ∃ port,
    (entry.actual side)[declared.name]? = some port ∧
      PortAgrees (entry.expected declared) declared.contract port := by
  unfold checkPort
  simp only [bind_ok, ensure_ok, index, ofOption_ok, endpointMatches_iff, responseMatches_iff, exists_const]
  constructor
  · rintro ⟨port, hp, hep, hc, ht, hr⟩
    exact ⟨port, hp, hep, hc, ht, hr⟩
  · rintro ⟨port, hp, h⟩
    exact ⟨port, hp, h.endpoint, h.contract, h.typeName, h.response⟩

lemma mem_names {V : Type} {m : Map String V} {f : String × V → Declared} (hf : ∀ e, (f e).name = e.1) :
    name ∈ m ↔ ∃ d ∈ m.toList.map f, d.name = name := by
  constructor
  · intro h
    obtain ⟨v, hv⟩ := some_of_mem h
    have hm : (name, v) ∈ m.toList := mem_toList_iff_getElem?_eq_some.mpr hv
    exact ⟨f (name, v), mem_map_of_mem hm, hf (name, v)⟩
  · rintro ⟨d, hd, rfl⟩
    obtain ⟨e, he, rfl⟩ := mem_map.mp hd
    rw [hf e]
    exact mem_of_some (mem_toList_iff_getElem?_eq_some.mp he)

lemma mem_declared : entry.declares name side = true ↔ ∃ d ∈ entry.declared side, d.name = name := by
  cases side with
  | input | output => exact contains_iff_mem.trans (mem_names fun _ => rfl)

lemma portDifference_none : entry.portDifference side = none ↔
    ∀ name, name ∈ entry.actual side ↔ entry.declares name side = true := by
  simp only [ReportEntry.portDifference, min?_eq_none_iff, append_eq_nil_iff, Option.toList_eq_nil_iff,
    Option.map_eq_none_iff, find?_eq_none, ExtTreeMap.mem_keys, Bool.not_eq_true', Bool.not_eq_false,
    ExtTreeMap.contains_iff_mem]
  constructor
  · rintro ⟨hde, ha⟩ name
    refine ⟨ha name, ?_⟩
    intro h
    obtain ⟨d, hd, rfl⟩ := mem_declared.mp h
    exact hde d hd
  · intro h
    exact ⟨fun d hd => (h d.name).mpr (mem_declared.mpr ⟨d, hd, rfl⟩), fun name hn => (h name).mp hn⟩

lemma validatePorts_ok : validatePorts entry side = .ok u ↔
    (∀ name, name ∈ entry.actual side ↔ entry.declares name side = true) ∧
    ∀ d ∈ entry.declared side, ∃ port, (entry.actual side)[d.name]? = some port ∧
      PortAgrees (entry.expected d) d.contract port := by
  unfold validatePorts
  rw [bind_ok, ← portDifference_none]
  simp only [forM_ok, checkPort_ok]
  cases entry.portDifference side with
  | none | some => simp [checkPortSet]

lemma validatePorts_hits : Hits (validatePorts entry side) := by
  refine Hits.bind ?_ ?_
  · cases entry.portDifference side with
    | none => exact hits_ok ()
    | some name => exact hits_failed _
  · intro _ hs
    refine hits_forM fun d hd => ?_
    have hn : entry.portDifference side = none := by
      cases hdi : entry.portDifference side with
      | none => rfl
      | some name =>
        rw [hdi] at hs
        cases hs
    -- the port sets agree, so the declared name is there to be looked up
    have hm := (portDifference_none.mp hn d.name).mpr (mem_declared.mpr ⟨d, hd, rfl⟩)
    obtain ⟨port, hp⟩ := some_of_mem hm
    refine Hits.bind (hits_found (by rw [hp]; rfl)) fun _ _ => ?_
    exact hits_ensure.bind fun _ _ => hits_ensure.bind fun _ _ => hits_ensure.bind fun _ _ => hits_ensure

lemma checkBindings_ok : checkBindings entry = .ok u ↔ entry.bindings.validate = .ok () := by
  unfold checkBindings
  rcases entry.bindings.validate with failure | ⟨⟩ <;> simp

lemma validateReport_ok : validateReport entry = .ok u ↔ Faithful entry := by
  unfold validateReport
  simp only [bind_ok, ensure_ok, exists_const, checkBindings_ok, validatePorts_ok]
  constructor
  · rintro ⟨hv, hve, hfp, hns, hep, ⟨hinputs, hin⟩, ho, hout⟩
    refine ⟨hv, hve, hfp, hns, hep, ?_, ?_, ?_, ?_⟩
    · exact fun name => (hinputs name).trans contains_iff_mem
    · exact fun name => (ho name).trans contains_iff_mem
    · intro name binding port hb hp
      have hm : (name, binding) ∈ entry.bindings.inputs.toList :=
        mem_toList_iff_getElem?_eq_some.mpr hb
      obtain ⟨port', hp', ha⟩ := hin _ (mem_map_of_mem hm)
      rw [show (entry.actual .input)[name]? = some port from hp] at hp'
      cases hp'
      exact ha
    · intro name binding port hb hp
      have hm : (name, binding) ∈ entry.bindings.outputs.toList :=
        mem_toList_iff_getElem?_eq_some.mpr hb
      obtain ⟨port', hp', ha⟩ := hout _ (mem_map_of_mem hm)
      rw [show (entry.actual .output)[name]? = some port from hp] at hp'
      cases hp'
      exact ha
  · intro h
    refine ⟨h.valid, h.version, h.fingerprint, h.namespace_, h.endpointNamespace, ⟨?_, ?_⟩, ?_, ?_⟩
    · exact fun name => (h.inputs name).trans contains_iff_mem.symm
    · intro d hd
      obtain ⟨⟨name, binding⟩, he, rfl⟩ := mem_map.mp hd
      have hb := mem_toList_iff_getElem?_eq_some.mp he
      obtain ⟨port, hp⟩ := some_of_mem ((h.inputs name).mpr (mem_of_some hb))
      exact ⟨port, hp, h.input name binding port hb hp⟩
    · exact fun name => (h.outputs name).trans contains_iff_mem.symm
    · intro d hd
      obtain ⟨⟨name, binding⟩, he, rfl⟩ := mem_map.mp hd
      have hb := mem_toList_iff_getElem?_eq_some.mp he
      obtain ⟨port, hp⟩ := some_of_mem ((h.outputs name).mpr (mem_of_some hb))
      exact ⟨port, hp, h.output name binding port hb hp⟩

lemma validateReport_hits : Hits (validateReport entry) := by
  refine Hits.bind ?_ fun _ _ => hits_ensure.bind fun _ _ => hits_ensure.bind fun _ _ => hits_ensure.bind fun _ _ =>
    hits_ensure.bind fun _ _ => validatePorts_hits.bind fun _ _ => validatePorts_hits
  unfold checkBindings
  rcases entry.bindings.validate with failure | ⟨⟩
  · exact hits_failed _
  · exact hits_ok ()

variable {entries : List ReportEntry} {modules modules' : Modules}

structure Registered (entries : List ReportEntry) (modules modules' : Modules) : Prop where
  top : ∀ entry ∈ entries, entry.bindings.namespace_ = entry.bindings.endpointNamespace
  distinct : (entries.map fun entry => entry.bindings.namespace_).Nodup
  fresh : ∀ entry ∈ entries, entry.bindings.namespace_ ∉ modules
  found : ∀ (name : String) report, modules'[name]? = some report ↔
    modules[name]? = some report ∨ ∃ entry ∈ entries, entry.bindings.namespace_ = name ∧ entry.report = report

lemma register_ok : register modules entry = .ok modules' ↔
    entry.bindings.namespace_ = entry.bindings.endpointNamespace ∧ entry.bindings.namespace_ ∉ modules ∧
      modules.insert entry.bindings.namespace_ entry.report = modules' := by
  unfold register
  simp only [bind_ok, ensure_ok, pure_ok, exists_const]

lemma foldlM_register (h : entries.foldlM register modules = .ok modules') :
    Registered entries modules modules' := by
  induction entries generalizing modules with
  | nil =>
    cases pure_ok.mp h
    refine ⟨?_, nodup_nil, ?_, ?_⟩
    · intro entry he
      cases he
    · intro entry he
      cases he
    · intro name report
      simp
  | cons entry entries ih =>
    rw [foldlM_cons] at h
    obtain ⟨next, hne, h⟩ := bind_ok.mp h
    obtain ⟨ht, hfr, rfl⟩ := register_ok.mp hne
    have hr := ih h
    refine ⟨forall_mem_cons.mpr ⟨ht, hr.top⟩, ?_, forall_mem_cons.mpr ⟨hfr, ?_⟩, ?_⟩
    · refine nodup_cons.mpr ⟨?_, hr.distinct⟩
      rintro hm
      obtain ⟨other, ho, hs⟩ := mem_map.mp hm
      apply hr.fresh other ho
      rw [hs]
      exact mem_insert_self
    · intro other ho hm
      exact hr.fresh other ho (mem_insert.mpr (Or.inr hm))
    · intro name report
      rw [hr.found name report, ExtTreeMap.getElem?_insert]
      simp only [LawfulEqOrd.compare_eq_iff_eq, exists_mem_cons_iff]
      by_cases hn : entry.bindings.namespace_ = name
      · subst hn
        have hno : modules[entry.bindings.namespace_]? = none := getElem?_eq_none hfr
        simp [hno]
      · simp [hn]

lemma foldlM_register_exists (ht : ∀ entry ∈ entries, entry.bindings.namespace_ = entry.bindings.endpointNamespace)
    (hne : (entries.map fun entry => entry.bindings.namespace_).Nodup)
    (hfr : ∀ entry ∈ entries, entry.bindings.namespace_ ∉ modules) :
    ∃ modules', entries.foldlM register modules = .ok modules' := by
  induction entries generalizing modules with
  | nil => exact ⟨modules, rfl⟩
  | cons entry entries ih =>
    rw [forall_mem_cons] at ht hfr
    rw [map_cons, nodup_cons] at hne
    have hf := register_ok.mpr ⟨ht.1, hfr.1, rfl⟩
    have hr : ∀ other ∈ entries, other.bindings.namespace_ ∉
        modules.insert entry.bindings.namespace_ entry.report := by
      intro other ho hm
      rw [mem_insert, LawfulEqOrd.compare_eq_iff_eq] at hm
      rcases hm with hs | hm
      · exact hne.1 (hs ▸ mem_map_of_mem ho)
      · exact hfr.2 other ho hm
    obtain ⟨modules', h⟩ := ih ht.2 hne.2 hr
    refine ⟨modules', ?_⟩
    rw [foldlM_cons]
    exact bind_ok.mpr ⟨_, hf, h⟩

variable {input : PortReport} {address : EndpointAddress}

lemma checkResponses_ok {error : ReportErrorCode → String → Abort ReportError}
    {expected actual : Option ResponseReport} :
    checkResponses error expected actual = .ok u ↔ expected = actual := by
  rcases expected with _ | ⟨typeName, schema⟩ <;> rcases actual with _ | ⟨typeName', schema'⟩
  · simp [checkResponses]
  · simp [checkResponses]
  · simp [checkResponses]
  · simp [checkResponses, bind_ok, ensure_ok]

lemma replay_iff {replay : Replay} {retention : Retention} :
    ¬ (replay = .last ∧ retention = .volatile) ↔ (replay = .last → retention = .last) := by
  cases replay <;> cases retention <;> simp

lemma checkEdge_ok : checkEdge modules entry name input address = .ok u ↔
    ∃ source, modules[address.namespace_]? = some source ∧
      ∃ output, source.outputs[address.port]? = some output ∧ Compatible input output := by
  unfold checkEdge
  simp only [bind_ok, ensure_ok, ofOption_ok, checkResponses_ok, replay_iff, exists_const]
  constructor
  · rintro ⟨source, hs, output, ho, ht, hsch, hk, hsem, hre, hr⟩
    exact ⟨source, hs, output, ho, ht, hsch, hk, hsem, hre, hr⟩
  · rintro ⟨source, hs, output, ho, h⟩
    exact ⟨source, hs, output, ho, h.typeName, h.schema, h.kind, h.semantics, h.response, h.replay⟩

lemma checkEdge_hits : Hits (checkEdge modules entry name input address) := by
  refine hits_ofOption.bind fun _ _ => hits_ofOption.bind fun output _ => hits_ensure.bind fun _ _ =>
    hits_ensure.bind fun _ _ => hits_ensure.bind fun _ _ => hits_ensure.bind fun _ _ => ?_
  refine Hits.bind ?_ fun _ _ => hits_ensure
  cases input.response <;> cases output.response
  · exact hits_ok ()
  · exact hits_failed _
  · exact hits_failed _
  · exact hits_ensure.bind fun _ _ => hits_ensure

lemma checkEntryEdges_ok : checkEntryEdges modules entry = .ok u ↔
    ∀ (name : String) binding, entry.bindings.inputs[name]? = some binding →
      ∃ port, entry.report.inputs[name]? = some port ∧ ∀ address ∈ binding.sources,
        ∃ source, modules[address.namespace_]? = some source ∧
          ∃ output, source.outputs[address.port]? = some output ∧ Compatible port output := by
  unfold checkEntryEdges checkInputEdges
  simp only [forM_ok, bind_ok, index, ofOption_ok, checkEdge_ok, Prod.forall,
    mem_toList_iff_getElem?_eq_some]

lemma checkEntryEdges_hits (h : Faithful entry) : Hits (checkEntryEdges modules entry) := by
  refine hits_forM fun binding hb => ?_
  have hd := mem_of_some (mem_toList_iff_getElem?_eq_some.mp hb)
  obtain ⟨port, hp⟩ := some_of_mem ((h.inputs binding.1).mpr hd)
  exact (hits_found (by rw [hp]; rfl)).bind fun _ _ => hits_forM fun _ _ => checkEdge_hits

lemma edges_closed (hfa : ∀ entry ∈ entries, Faithful entry)
    (hf : ∀ (name : String) report, modules[name]? = some report ↔
      ∃ entry ∈ entries, entry.bindings.namespace_ = name ∧ entry.report = report) :
    (∀ entry ∈ entries, checkEntryEdges modules entry = .ok ()) ↔
      ∀ entry ∈ entries, ∀ (name : String) binding port, entry.bindings.inputs[name]? = some binding →
        entry.report.inputs[name]? = some port → ∀ address ∈ binding.sources,
          ∃ source ∈ entries, source.bindings.namespace_ = address.namespace_ ∧
            ∃ output, source.report.outputs[address.port]? = some output ∧ Compatible port output := by
  constructor
  · intro h entry he name binding port hb hp address ha
    obtain ⟨port', hp', hed⟩ := checkEntryEdges_ok.mp (h entry he) name binding hb
    rw [hp] at hp'
    cases hp'
    obtain ⟨report, hr, output, ho, hc⟩ := hed address ha
    obtain ⟨source, hs, hn, rfl⟩ := (hf _ report).mp hr
    exact ⟨source, hs, hn, output, ho, hc⟩
  · intro h entry he
    rw [checkEntryEdges_ok]
    intro name binding hb
    obtain ⟨port, hp⟩ := some_of_mem (((hfa entry he).inputs name).mpr (mem_of_some hb))
    refine ⟨port, hp, ?_⟩
    intro address ha
    obtain ⟨source, hs, hn, output, ho, hc⟩ :=
      h entry he name binding port hb hp address ha
    exact ⟨source.report, (hf _ _).mpr ⟨source, hs, hn, rfl⟩, output, ho, hc⟩

lemma found_registered (h : Registered entries ∅ modules) (name : String) (report : ModuleReport) :
    modules[name]? = some report ↔ ∃ entry ∈ entries, entry.bindings.namespace_ = name ∧ entry.report = report := by
  rw [h.found name report, getElem?_empty]
  simp

lemma validateGraph_ok : validateGraph entries = .ok u ↔ Closed entries := by
  unfold validateGraph
  simp only [bind_ok, ensure_ok, forM_ok, validateReport_ok, exists_const]
  constructor
  · rintro ⟨hn, hfa, modules, hm, he⟩
    have hr := foldlM_register hm
    have hs := (edges_closed hfa (found_registered hr)).mp he
    exact ⟨hn, hfa, hr.top, hr.distinct, hs⟩
  · intro h
    have hfr : ∀ entry ∈ entries, entry.bindings.namespace_ ∉ (∅ : Modules) := fun _ _ => not_mem_empty
    obtain ⟨modules, hm⟩ := foldlM_register_exists h.top h.distinct hfr
    have hf := found_registered (foldlM_register hm)
    exact ⟨h.nonempty, h.faithful, modules, hm, (edges_closed h.faithful hf).mpr h.sources⟩

lemma validateGraph_hits : Hits (validateGraph entries) := by
  refine hits_ensure.bind fun _ _ => (hits_forM fun _ _ => validateReport_hits).bind fun _ hr => ?_
  refine (hits_foldlM (fun _ _ _ => ?_) ∅).bind fun modules _ => hits_forM fun entry he => ?_
  · exact hits_ensure.bind fun _ _ => hits_ensure.bind fun _ _ => hits_ok _
  exact checkEntryEdges_hits (validateReport_ok.mp (forM_ok.mp hr entry he))

lemma Closed.perm {entries' : List ReportEntry} (hpe : entries.Perm entries') (h : Closed entries) :
    Closed entries' := by
  refine ⟨?_, ?_, ?_, (hpe.map _).nodup_iff.mp h.distinct, ?_⟩
  · rintro rfl
    exact h.nonempty hpe.eq_nil
  · exact fun entry he => h.faithful entry (hpe.mem_iff.mpr he)
  · exact fun entry he => h.top entry (hpe.mem_iff.mpr he)
  · intro entry he name binding port hb hp address ha
    obtain ⟨source, hs, hr⟩ :=
      h.sources entry (hpe.mem_iff.mpr he) name binding port hb hp address ha
    exact ⟨source, hpe.mem_iff.mp hs, hr⟩

theorem validate_graph_exact (entries : List ReportEntry) :
    (validateGraph entries = .ok () ↔ Closed entries) ∧ validateGraph entries ≠ .error .missed ∧
      ∀ entries', entries.Perm entries' → (validateGraph entries' = .ok () ↔ validateGraph entries = .ok ()) := by
  refine ⟨validateGraph_ok, validateGraph_hits, ?_⟩
  intro entries' hp
  rw [validateGraph_ok, validateGraph_ok]
  exact ⟨Closed.perm hp.symm, Closed.perm hp⟩

end Reiny.Bindings
