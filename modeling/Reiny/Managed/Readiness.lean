import Reiny.Managed.Context

namespace Reiny.Managed

open Std Lib Results Machine Maps Step Bindings ExtTreeMap

variable {m : Module} {c c' : Context}

variable {bindings child : ModuleBindings} {name : String} {ports : Ports} {handles : List ℕ} {input : Bool}
  {report : ModuleReport}

def reported (report : ModuleReport) : Bool → Map String PortReport
  | true => report.inputs
  | false => report.outputs

variable {V : Type} {names : List String}

lemma mem_ofList {entries : List (String × V)} (h : name ∈ ExtTreeMap.ofList entries) :
    ∃ v, (name, v) ∈ entries := by
  by_contra hn
  obtain ⟨v, hv⟩ := some_of_mem h
  rw [ofList_of_not_mem fun v hv => hn ⟨v, hv⟩] at hv
  cases hv

lemma lookedUp_mem {source : Map String V} {entries : List (String × V)} {e : Failure}
    (h : (names.mapM fun port => do return (port, ← ofOption source[port]? e)) = .ok entries) :
    ∀ port ∈ (ExtTreeMap.ofList entries).keys, port ∈ names := by
  intro port hp
  obtain ⟨v, hv⟩ := mem_ofList (mem_keys.mp hp)
  obtain ⟨name, hn, heq⟩ := (mapM_mem h _).mp hv
  obtain ⟨found, -, heq⟩ := bind_ok.mp heq
  cases pure_ok.mp heq
  exact hn

lemma delegatedBindings_ok (h : delegatedBindings bindings name = .ok child) :
    ∃ delegation, bindings.children[name]? = some delegation ∧
      ∀ input, ∀ port ∈ declared child input, port ∈ delegated delegation input := by
  simp only [delegatedBindings, bind_ok, ofOption_ok, pure_ok] at h
  obtain ⟨delegation, hd, inputs, hin, outputs, ho, -, -, rfl⟩ := h
  refine ⟨delegation, hd, ?_⟩
  intro input port hp
  cases input with
  | true => exact lookedUp_mem hin port hp
  | false => exact lookedUp_mem ho port hp

lemma validateReport_declared (h : validateReport ⟨child, report⟩ = .ok ()) :
    ∀ port ∈ reported report input, port ∈ declared child input := by
  intro port hp
  have hf := validateReport_ok.mp h
  cases input with
  | true => exact mem_keys.mpr ((hf.inputs port).mp hp)
  | false => exact mem_keys.mpr ((hf.outputs port).mp hp)

lemma reportPorts_ok {registered : Map String Registration} {reports : Map String PortReport}
    (h : registered.toList.foldlM (reportPort handles input) ∅ = .ok reports) :
    (∀ (name : String) registration, registered[name]? = some registration → registration.live ∈ handles) ∧
      ∀ name ∈ reports, name ∈ registered := by
  constructor
  · intro name registration hg
    have hm : (name, registration) ∈ registered.toList := mem_toList_iff_getElem?_eq_some.mpr hg
    obtain ⟨before, after, hp⟩ := foldlM_each h hm
    simp only [reportPort, bind_ok, ensure_ok, exists_const] at hp
    exact hp.1
  · refine foldlM_invariant (P := fun reports => ∀ name ∈ reports, name ∈ registered) ?_ ?_ h
    · rintro ⟨name, registration⟩ hp before after hb hok other ho
      simp only [reportPort, bind_ok, ensure_ok, exists_const, pure_ok] at hok
      obtain ⟨-, rfl⟩ := hok
      rw [mem_insert, LawfulEqOrd.compare_eq_iff_eq] at ho
      rcases ho with rfl | ho
      · exact mem_of_some (mem_toList_iff_getElem?_eq_some.mp hp)
      · exact hb other ho
    · intro name hn
      exact absurd hn not_mem_empty

lemma childReport_ok (h : childReport ports name = .ok report) : ∃ state, ports.children[name]? = some state ∧
    state.ready = true ∧ state.exited = false ∧ state.report = some report := by
  simp only [childReport, bind_ok, ofOption_ok, ensure_ok, exists_const] at h
  obtain ⟨state, hst, ⟨hrd, hex⟩, hr⟩ := h
  exact ⟨state, hst, hrd, hex, hr⟩

lemma mem_insertMany {base added : Map String PortReport} (h : name ∈ base.insertMany added.toList) :
    name ∈ base ∨ name ∈ added := by
  by_cases ha : name ∈ added
  · exact .inr ha
  · left
    obtain ⟨v, hv⟩ := some_of_mem h
    rw [insertMany_of_not_mem] at hv
    · exact mem_of_some hv
    · intro v hv
      exact ha (mem_of_some (mem_toList_iff_getElem?_eq_some.mp hv))

lemma extendReports_ok {base result : ModuleReport} (h : names.foldlM (extendReport ports) base = .ok result) :
    (∀ name ∈ names, ∃ report, childReport ports name = .ok report) ∧
      ∀ input, ∀ port ∈ reported result input, port ∈ reported base input ∨
        ∃ name ∈ names, ∃ report, childReport ports name = .ok report ∧ port ∈ reported report input := by
  constructor
  · intro name hn
    obtain ⟨before, after, he⟩ := foldlM_each h hn
    obtain ⟨report, hr, -⟩ := bind_ok.mp he
    exact ⟨report, hr⟩
  · refine foldlM_invariant
      (P := fun result => ∀ input, ∀ port ∈ reported result input, port ∈ reported base input ∨
      ∃ name ∈ names, ∃ report, childReport ports name = .ok report ∧ port ∈ reported report input) ?_ ?_ h
    · intro name hn before after hb he input port hp
      obtain ⟨report, hr, he⟩ := bind_ok.mp he
      cases pure_ok.mp he
      have hs : port ∈ reported before input ∨ port ∈ reported report input := by
        cases input with
        | true | false => exact mem_insertMany hp
      rcases hs with hs | hs
      · exact hb input port hs
      · exact .inr ⟨name, hn, report, hr, hs⟩
    · intro input port hp
      exact .inl hp

structure Live (m : Module) (c : Context) : Prop where
  registered : ∀ input (name : String) registration, (c.ports.registered input)[name]? = some registration →
    registration.live ∈ c.handles
  children : ∀ bindings, m.bindings = some bindings → ∀ child ∈ bindings.children, ∃ state report,
    c.ports.children[child]? = some state ∧ state.ready = true ∧ state.exited = false ∧ state.report = some report
  declared : ∀ bindings, m.bindings = some bindings → ∀ input, ∀ name ∈ declared bindings input,
    name ∈ c.ports.registered input ∨
      ∃ (child : String) (delegation : _), bindings.children[child]? = some delegation ∧
        name ∈ delegated delegation input

structure ChildSound (m : Module) (name : String) (state : ChildState) : Prop where
  declared : ∃ bindings own, m.bindings = some bindings ∧ delegatedBindings bindings name = .ok own ∧
    ∀ report, state.report = some report → validateReport ⟨own, report⟩ = .ok ()
  gone : state.exited = true → state.ready = false

structure Sound (m : Module) (c : Context) : Prop where
  child : ∀ (name : String) state, c.ports.children[name]? = some state → ChildSound m name state
  supervised : ∀ (name : String) supervisor, c.supervisors[name]? = some supervisor → name ∈ c.ports.children
  live : c.ports.ready = true → Live m c

lemma sound_new (ho : Bool) : Sound m (.new ho) where
  child name state h := by
    rw [Context.new, getElem?_empty] at h
    cases h
  supervised name supervisor h := by
    rw [Context.new, getElem?_empty] at h
    cases h
  live h := nomatch h

lemma buildReport_live {report : ModuleReport} (hs : Sound m c)
    (h : buildReport m c.handles c.ports = .ok report) : Live m c := by
  obtain ⟨inputs, hinputs, h⟩ := bind_ok.mp h
  obtain ⟨outputs, houts, h⟩ := bind_ok.mp h
  obtain ⟨hinputsLive, hinputsMem⟩ := reportPorts_ok hinputs
  obtain ⟨ho, hou⟩ := reportPorts_ok houts
  have hreg : ∀ input (name : String) registration, (c.ports.registered input)[name]? = some registration →
      registration.live ∈ c.handles := by
    intro input name registration hg
    cases input with
    | true => exact hinputsLive name registration hg
    | false => exact ho name registration hg
  cases hb : m.bindings with
  | none =>
    refine ⟨hreg, fun bindings hso => ?_, fun bindings hso => ?_⟩
    · cases hb.symm.trans hso
    · cases hb.symm.trans hso
  | some bindings =>
    simp only [hb, bind_ok, pure_ok] at h
    obtain ⟨extended, he, ⟨⟩, hd, -⟩ := h
    obtain ⟨hki, hsr⟩ := extendReports_ok he
    refine ⟨hreg, ?_, ?_⟩
    · intro known hkn child hc
      cases hb.symm.trans hkn
      obtain ⟨report, hr⟩ := hki child (mem_keys.mpr hc)
      obtain ⟨state, hst⟩ := childReport_ok hr
      exact ⟨state, report, hst⟩
    · intro known hkn input name hn
      cases hb.symm.trans hkn
      have hrep : name ∈ reported extended input := by
        obtain ⟨⟨⟩, hin, hout⟩ := bind_ok.mp hd
        cases input with
        | true => exact ensure_ok.mp (forM_ok.mp hin name hn)
        | false => exact ensure_ok.mp (forM_ok.mp hout name hn)
      rcases hsr input name hrep with hba | ⟨child, -, report, hr, hp⟩
      · left
        cases input with
        | true => exact hinputsMem name hba
        | false => exact hou name hba
      · right
        obtain ⟨state, hst, -, -, hk⟩ := childReport_ok hr
        obtain ⟨known, own, hkn, hown, hv⟩ := (hs.child child state hst).declared
        cases hb.symm.trans hkn
        obtain ⟨delegation, hdel, hpo⟩ := delegatedBindings_ok hown
        exact ⟨child, delegation, hdel, hpo input name (validateReport_declared (hv report hk) name hp)⟩

lemma Live.keep (h : Live m c) (hreg : c'.ports.registered = c.ports.registered) (hh : c'.handles = c.handles)
    (hk : ∀ (child : String) state report, c.ports.children[child]? = some state → state.ready = true →
      state.exited = false → state.report = some report →
        ∃ state' report', c'.ports.children[child]? = some state' ∧
        state'.ready = true ∧ state'.exited = false ∧ state'.report = some report') : Live m c' where
  registered input name registration hget := by
    rw [hreg] at hget
    rw [hh]
    exact h.registered input name registration hget
  children bindings hb child hc := by
    obtain ⟨state, report, hst, hrd, hex, hr⟩ := h.children bindings hb child hc
    exact hk child state report hst hrd hex hr
  declared bindings hb input name hname := by
    rw [hreg]
    exact h.declared bindings hb input name hname

lemma Sound.quiet (h : Sound m c) (hk : c'.ports.children = c.ports.children)
    (hs : ∀ (name : String) supervisor, c'.supervisors[name]? = some supervisor →
      ∃ before, c.supervisors[name]? = some before)
    (hrd : c'.ports.ready = true →
      c.ports.ready = true ∧ c'.ports.registered = c.ports.registered ∧ c'.handles = c.handles) : Sound m c' where
  child := by
    rw [hk]
    exact h.child
  supervised name supervisor hg := by
    obtain ⟨before, hb⟩ := hs name supervisor hg
    rw [hk]
    exact h.supervised name before hb
  live hon := by
    obtain ⟨hb, hreg, hh⟩ := hrd hon
    refine (h.live hb).keep hreg hh ?_
    intro child state report hst hc hex hr
    exact ⟨state, report, by rw [hk, hst], hc, hex, hr⟩

variable {event : Event} {outcome : Outcome} {ticket : Ticket} {started announced : Bool}

lemma openPort_ok {opening : Opening} {built : Bool} (h : openPort m c opening name built = .ok c') :
    (c.shutdown.triggered = false ∧ c.ports.ready = false ∧ c.ports.admission = none) ∧ c'.ports.ready = false ∧
      c'.ports.children = c.ports.children ∧ c'.shutdown = c.shutdown ∧ c'.supervisors = c.supervisors := by
  simp only [openPort, lockPorts, bind_ok, ensure_ok, exists_const, pure_ok] at h
  obtain ⟨-, -, ⟨ht, hrd, ha, -⟩, -, -, -, -, -, -, -, rfl⟩ := h
  refine ⟨⟨ht, hrd, ha⟩, ?_⟩
  cases opening.isInput with
  | true | false => exact ⟨hrd, rfl, rfl, rfl⟩

lemma prepareAdmission_ok (h : prepareAdmission m c = .ok (ticket, c')) :
    c.ports.ready = false ∧ c'.ports = { c.ports with admission := some ticket.generation } ∧
      c'.shutdown = c.shutdown ∧ c'.supervisors = c.supervisors := by
  simp only [prepareAdmission, bind_ok, ensure_ok, exists_const, pure_ok, Prod.mk.injEq] at h
  obtain ⟨-, -, -, -, hrd, -, -, -, -, rfl, rfl⟩ := h
  exact ⟨hrd, rfl, rfl, rfl⟩

lemma commitAdmission_ok (h : commitAdmission m c ticket announced = .ok c') :
    ticket.context = m.pointer ∧ c.ports.admission = some ticket.generation ∧ c.shutdown.triggered = false ∧
      buildReport m c.handles c.ports = .ok ticket.report ∧
        c' = { c with ports := { c.ports with ready := true } } := by
  simp only [commitAdmission, bind_ok, ensure_ok, exists_const, mapError_ok, pure_ok] at h
  obtain ⟨hc, ha, ht, report, hr, rfl, -, rfl⟩ := h
  exact ⟨hc, ha, ht, hr, rfl⟩

lemma ready_ok {written : Bool} (h : ready m c written announced = .ok c') : c.shutdown.triggered = false ∧
    (c' = c ∨ ∃ report, buildReport m c.handles c.ports = .ok report ∧
      c' = { c with ports := { c.ports with ready := true } }) := by
  unfold ready at h
  obtain ⟨ht, h⟩ := ensure_bind_ok.mp h
  refine ⟨ht, ?_⟩
  split_ifs at h with hrd
  · cases pure_ok.mp h
    exact .inl rfl
  · simp only [bind_ok, ensure_ok, exists_const, pure_ok] at h
    obtain ⟨-, -, report, hr, -, -, rfl⟩ := h
    exact .inr ⟨report, hr, rfl⟩

lemma spawnOwnedChild_ok (h : spawnOwnedChild m c name started = .ok c') :
    ∃ bindings own, m.bindings = some bindings ∧ delegatedBindings bindings name = .ok own ∧
      c.ports.ready = false ∧ name ∉ c.ports.children ∧
      c' = { c with
        ports := { c.ports with children := c.ports.children.insert name ⟨false, false, none⟩ }
        supervisors := c.supervisors.insert name .running } := by
  simp only [spawnOwnedChild, bind_ok, ofOption_ok, ensure_ok, exists_const, pure_ok] at h
  obtain ⟨bindings, hb, own, ho, ⟨-, hrd⟩, hn, -, rfl⟩ := h
  exact ⟨bindings, own, hb, ho, hrd, hn, rfl⟩

lemma adopt_ok (h : adopt m c name report = .ok c') :
    ∃ bindings own state, m.bindings = some bindings ∧ delegatedBindings bindings name = .ok own ∧
      validateReport ⟨own, report⟩ = .ok () ∧ c.ports.children[name]? = some state ∧ state.ready = true ∧
      state.exited = false ∧ c' = { c with ports := { c.ports with
        children := c.ports.children.insert name { state with report := some report } } } := by
  simp only [adopt, bind_ok, ofOption_ok, ensure_ok, exists_const, mapError_ok, pure_ok] at h
  obtain ⟨bindings, hb, own, ho, ⟨⟩, hv, state, hst, ⟨hrd, hex⟩, rfl⟩ := h
  exact ⟨bindings, own, state, hb, ho, hv, hst, hrd, hex, rfl⟩

lemma Sound.update {state state' : ChildState} (h : Sound m c) (hst : c.ports.children[name]? = some state)
    (hc : ChildSound m name state') (hki : c'.ports.children = c.ports.children.insert name state')
    (hs : ∀ (other : String) supervisor, c'.supervisors[other]? = some supervisor →
      other ∈ c.ports.children)
    (hrd : c'.ports.ready = true → c.ports.ready = true ∧ c'.ports.registered = c.ports.registered ∧
      c'.handles = c.handles ∧ (state.ready = true → state.exited = false → ∀ report, state.report = some report →
        state'.ready = true ∧ state'.exited = false ∧ ∃ report', state'.report = some report')) :
    Sound m c' where
  child other found hf := by
    rw [hki] at hf
    rcases of_insert hf with ⟨rfl, rfl⟩ | ⟨-, hf⟩
    · exact hc
    · exact h.child other found hf
  supervised other supervisor hget := by
    rw [hki, mem_insert]
    exact .inr (hs other supervisor hget)
  live hon := by
    obtain ⟨hb, hreg, hh, hk⟩ := hrd hon
    refine (h.live hb).keep hreg hh ?_
    intro other found report hf hfo hex hr
    rw [hki, getElem?_insert]
    split
    · rename_i heq
      obtain rfl := LawfulEqOrd.compare_eq_iff_eq.mp heq
      cases hst.symm.trans hf
      obtain ⟨hrd', hex', report', hr'⟩ := hk hfo hex report hr
      exact ⟨state', report', rfl, hrd', hex', hr'⟩
    · exact ⟨found, report, hf, hfo, hex, hr⟩

lemma sound_observe (h : Sound m c) (name : String) (joined : Bool) : Sound m (observe c name joined) := by
  unfold observe
  cases hst : c.ports.children[name]? with
  | none => exact h
  | some state =>
    have hc := h.child name state hst
    refine h.update hst ?_ rfl (fun other supervisor hg => h.supervised other supervisor hg) ?_
    · obtain ⟨bindings, own, hbi, ho, hv⟩ := hc.declared
      refine ⟨⟨bindings, own, hbi, ho, ?_⟩, ?_⟩
      · intro report hr
        dsimp only at hr
        split_ifs at hr
        exact hv report hr
      · intro hex
        dsimp only at hex ⊢
        rw [hex]
        simp
    · intro hon
      dsimp only at hon
      obtain ⟨hb, hk⟩ := Bool.and_eq_true_iff.mp hon
      refine ⟨hb, rfl, rfl, ?_⟩
      intro hrd hex report hr
      rw [hrd, Bool.true_and, Bool.not_not] at hk
      dsimp only
      rw [hk, hrd, hex]
      exact ⟨rfl, rfl, report, hr⟩

lemma sound_adopt (h : Sound m c) (hok : adopt m c name report = .ok c') : Sound m c' := by
  obtain ⟨bindings, own, state, hb, ho, hv, hst, hrd, hex, rfl⟩ := adopt_ok hok
  refine h.update hst ?_ rfl (fun other supervisor hget => h.supervised other supervisor hget) ?_
  · refine ⟨⟨bindings, own, hb, ho, ?_⟩, fun hg => ?_⟩
    · intro found hf
      cases hf
      exact hv
    · exact absurd (hg.symm.trans hex) (by decide)
  · intro hon
    exact ⟨hon, rfl, rfl, fun _ _ _ _ => ⟨hrd, hex, report, rfl⟩⟩

lemma sound_exited (h : Sound m c) (hr : c.supervisors[name]? = some .running) :
    Sound m (childExited c name) := by
  have hm := h.supervised name _ hr
  obtain ⟨state, hst⟩ := some_of_mem hm
  obtain ⟨bindings, own, hb, ho, -⟩ := (h.child name state hst).declared
  have hg : ChildSound m name ⟨false, true, none⟩ := ⟨⟨bindings, own, hb, ho, nofun⟩, fun _ => rfl⟩
  refine h.update hst hg ?_ ?_ nofun
  · rw [childExited]
    simp only [if_pos hm]
  · intro other supervisor hget
    rcases of_insert hget with ⟨rfl, -⟩ | ⟨-, hget⟩
    · exact hm
    · exact h.supervised other supervisor hget

lemma sound_spawn (h : Sound m c) (hok : spawnOwnedChild m c name started = .ok c') : Sound m c' := by
  obtain ⟨bindings, own, hb, ho, hrd, hn, rfl⟩ := spawnOwnedChild_ok hok
  refine ⟨?_, ?_, fun hon => absurd (hrd.symm.trans hon) (by decide)⟩
  · intro other found hf
    rcases of_insert hf with ⟨rfl, rfl⟩ | ⟨-, hf⟩
    · exact ⟨⟨bindings, own, hb, ho, nofun⟩, nofun⟩
    · exact h.child other found hf
  · intro other supervisor hg
    rw [mem_insert]
    rcases of_insert hg with ⟨rfl, -⟩ | ⟨-, hg⟩
    · exact .inl compare_self
    · exact .inr (h.supervised other supervisor hg)

lemma answer_cases {result : Except Failure Context} (h : some (answer c result) = some (outcome, c')) :
    (outcome = .done ∧ result = .ok c') ∨ c' = c ∧ outcome ≠ .done := by
  cases result with
  | ok next =>
    cases h
    exact .inl ⟨rfl, rfl⟩
  | error failure =>
    cases h
    exact .inr ⟨rfl, nofun⟩

lemma sound_ready {ports : Ports} (h : Sound m c) (hp : ports = { c.ports with ready := true })
    (hr : buildReport m c.handles c.ports = .ok report) {tickets : List Ticket} :
    Sound m { c with ports := ports, tickets := tickets } := by
  subst hp
  refine ⟨h.child, h.supervised, fun _ => ?_⟩
  exact (buildReport_live h hr).keep rfl rfl fun child state report hst hrd hex hk =>
    ⟨state, report, hst, hrd, hex, hk⟩

inductive Change (m : Module) (c : Context) : Context → Prop
  | stay : Change m c c
  | unready {c' : Context} (hready : c'.ports.ready = false) (hchildren : c'.ports.children = c.ports.children)
      (hshutdown : c'.shutdown = c.shutdown) (hsupervisors : c'.supervisors = c.supervisors) : Change m c c'
  | dropPort (handle : ℕ) : Change m c (dropPort c handle)
  | ready {report : ModuleReport} (tickets : List Ticket) (htriggered : c.shutdown.triggered = false)
      (hreport : buildReport m c.handles c.ports = .ok report) :
      Change m c { c with ports := { c.ports with ready := true }, tickets := tickets }
  | tickets (tickets : List Ticket) : Change m c { c with tickets := tickets }
  | spawn {name : String} {started : Bool} {c' : Context} (h : spawnOwnedChild m c name started = .ok c') :
    Change m c c'
  | observe (name : String) (joined : Bool) : Change m c (observe c name joined)
  | adopt {name : String} {report : ModuleReport} {c' : Context} (h : adopt m c name report = .ok c') :
    Change m c c'
  | exit {name : String} (hrunning : c.supervisors[name]? = some .running) : Change m c (childExited c name)
  | trigger {name : String} (hleaving : c.supervisors[name]? = some .leaving) :
      Change m c { c with shutdown := c.shutdown.trigger, supervisors := c.supervisors.insert name .done }
  | stop : Change m c { c with shutdown := c.shutdown.trigger }

lemma step_change (hst : step m c event = some (outcome, c')) : Change m c c' := by
  cases event with
  | openPort opening name built =>
    rcases answer_cases hst with ⟨-, hok⟩ | ⟨rfl, -⟩
    · obtain ⟨-, hrd, hk, hs, hsup⟩ := openPort_ok hok
      exact .unready hrd hk hs hsup
    · exact .stay
  | dropPort handle =>
    rw [step] at hst
    split_ifs at hst
    cases hst
    exact .dropPort handle
  | prepare =>
    rcases answer_cases hst with ⟨-, hok⟩ | ⟨rfl, -⟩
    · rw [mapError_ok] at hok
      cases hpr : prepareAdmission m c with
      | error e =>
        rw [hpr] at hok
        cases hok
      | ok result =>
        rw [hpr] at hok
        cases hok
        obtain ⟨hrd, hp, hs, hsup⟩ := prepareAdmission_ok hpr
        exact .unready (by rw [hp]; exact hrd) (by rw [hp]) hs hsup
    · exact .stay
  | commit ticket announced =>
    rw [step] at hst
    split_ifs at hst with hf hh
    · rcases answer_cases hst with ⟨-, hok⟩ | ⟨rfl, -⟩
      · exact absurd (commitAdmission_ok (mapError_ok.mp hok)).1 hf
      · exact .stay
    · split at hst
      · rename_i next hok
        cases hst
        obtain ⟨-, -, ht, hr, rfl⟩ := commitAdmission_ok hok
        exact .ready _ ht hr
      · cases hst
        exact .tickets _
  | dropTicket ticket =>
    rw [step] at hst
    split_ifs at hst
    cases hst
    rw [dropTicket]
    split_ifs
    · exact .unready rfl rfl rfl rfl
    · exact .tickets _
  | ready written announced =>
    rcases answer_cases hst with ⟨-, hok⟩ | ⟨rfl, -⟩
    · obtain ⟨ht, rfl | ⟨report, hr, rfl⟩⟩ := ready_ok hok
      · exact .stay
      · exact .ready _ ht hr
    · exact .stay
  | spawn name started =>
    rcases answer_cases hst with ⟨-, hok⟩ | ⟨rfl, -⟩
    · exact .spawn hok
    · exact .stay
  | presence name joined =>
    cases hst
    exact .observe name joined
  | adopt name report =>
    rcases answer_cases hst with ⟨-, hok⟩ | ⟨rfl, -⟩
    · exact .adopt hok
    · exact .stay
  | exit name =>
    rw [step] at hst
    split_ifs at hst with hrun
    cases hst
    exact .exit hrun
  | superviseTrigger name =>
    rw [step] at hst
    split_ifs at hst with hl
    cases hst
    exact .trigger hl
  | stop =>
    cases hst
    exact .stop

lemma step_sound (h : Sound m c) (hs : step m c event = some (outcome, c')) : Sound m c' := by
  cases step_change hs with
  | stay => exact h
  | unready hrd hk _ hsup =>
    refine h.quiet hk (fun name supervisor hg => ⟨supervisor, hsup ▸ hg⟩) ?_
    intro hon
    exact absurd (hrd.symm.trans hon) (by decide)
  | dropPort handle => exact h.quiet rfl (fun _ supervisor hg => ⟨supervisor, hg⟩) nofun
  | ready tickets _ hr => exact sound_ready h rfl hr
  | tickets tickets => exact h.quiet rfl (fun _ supervisor hg => ⟨supervisor, hg⟩) fun hon => ⟨hon, rfl, rfl⟩
  | spawn hok => exact sound_spawn h hok
  | observe name joined => exact sound_observe h name joined
  | adopt hok => exact sound_adopt h hok
  | exit hrun => exact sound_exited h hrun
  | trigger hl =>
    refine h.quiet rfl ?_ fun hon => ⟨hon, rfl, rfl⟩
    intro other supervisor hg
    rcases of_insert hg with ⟨rfl, -⟩ | ⟨-, hg⟩
    · exact ⟨_, hl⟩
    · exact ⟨supervisor, hg⟩
  | stop => exact h.quiet rfl (fun _ supervisor hg => ⟨supervisor, hg⟩) fun hon => ⟨hon, rfl, rfl⟩

structure Moved (m : Module) (c c' : Context) : Prop where
  triggered : c.shutdown.triggered = true → c'.shutdown.triggered = true
  exited : ∀ (name : String) state, c.ports.children[name]? = some state → state.exited = true →
    ∃ state', c'.ports.children[name]? = some state' ∧ state'.exited = true
  leaving : ∀ name : String, c.supervisors[name]? = some .leaving →
    c'.supervisors[name]? = some .leaving ∨ c'.shutdown.triggered = true
  ready : c'.ports.ready = true → c.ports.ready = true ∨
    c.shutdown.triggered = false ∧ ∃ report, buildReport m c.handles c.ports = .ok report

lemma moved_quiet (ht : c.shutdown.triggered = true → c'.shutdown.triggered = true)
    (hk : c'.ports.children = c.ports.children) (hs : c'.supervisors = c.supervisors)
    (hrd : c'.ports.ready = true → c.ports.ready = true ∨
      c.shutdown.triggered = false ∧ ∃ report, buildReport m c.handles c.ports = .ok report) : Moved m c c' where
  triggered := ht
  exited name state hst hex := ⟨state, by rw [hk, hst], hex⟩
  leaving name hn := Or.inl (by rw [hs, hn])
  ready := hrd

lemma moved_refl : Moved m c c := moved_quiet id rfl rfl Or.inl

lemma exited_insert {children : Map String ChildState} {next : ChildState}
    (hn : ∀ state, children[name]? = some state → state.exited = true → next.exited = true) :
    ∀ (other : String) state, children[other]? = some state → state.exited = true →
      ∃ state', (children.insert name next)[other]? = some state' ∧ state'.exited = true := by
  intro other state hst hex
  rw [getElem?_insert]
  split
  · rename_i heq
    obtain rfl := LawfulEqOrd.compare_eq_iff_eq.mp heq
    exact ⟨next, rfl, hn state hst hex⟩
  · exact ⟨state, hst, hex⟩

lemma leaving_insert {supervisors : Map String Supervisor} {other : String} {next : Supervisor}
    (hn : supervisors[name]? ≠ some .leaving) (h : supervisors[other]? = some .leaving) :
    (supervisors.insert name next)[other]? = some .leaving := by
  rw [insert_of_ne, h]
  rintro rfl
  exact hn h

lemma trigger_triggered (shutdown : Shutdown) : shutdown.trigger.triggered = true := rfl

lemma moved_dropPort (handle : ℕ) : Moved m c (dropPort c handle) := by
  refine moved_quiet ?_ rfl rfl nofun
  intro h
  rw [dropPort]
  dsimp only
  split_ifs
  · exact trigger_triggered _
  · exact trigger_triggered _
  · exact h
  · exact h

lemma moved_observe (name : String) (joined : Bool) : Moved m c (observe c name joined) := by
  unfold observe
  cases hst : c.ports.children[name]? with
  | none => exact moved_refl
  | some state =>
    refine ⟨?_, exited_insert ?_, fun other ho => Or.inl ho, ?_⟩
    · intro h
      dsimp only
      split_ifs
      · exact trigger_triggered _
      · exact h
    · intro found hf hex
      cases hst.symm.trans hf
      exact hex
    · intro hon
      exact .inl (Bool.and_eq_true_iff.mp hon).1

lemma moved_exited (hr : c.supervisors[name]? = some .running) : Moved m c (childExited c name) := by
  refine ⟨id, ?_, ?_, nofun⟩
  · intro other state hst hex
    rw [childExited]
    dsimp only
    split_ifs
    · exact exited_insert (fun _ _ _ => rfl) other state hst hex
    · exact ⟨state, hst, hex⟩
  · intro other ho
    exact .inl (leaving_insert (by rw [hr]; decide) ho)

lemma step_moved (hs : Sound m c) (hstep : step m c event = some (outcome, c')) : Moved m c c' := by
  cases step_change hstep with
  | stay => exact moved_refl
  | unready hrd hk hsh hsup =>
    refine moved_quiet (by rw [hsh]; exact id) hk hsup ?_
    intro hon
    exact absurd (hrd.symm.trans hon) (by decide)
  | dropPort handle => exact moved_dropPort handle
  | ready tickets ht hr => exact moved_quiet id rfl rfl fun _ => Or.inr ⟨ht, _, hr⟩
  | tickets tickets => exact moved_quiet id rfl rfl Or.inl
  | spawn hok =>
    obtain ⟨-, -, -, -, hrd, hnew, rfl⟩ := spawnOwnedChild_ok hok
    refine ⟨id, exited_insert ?_, ?_, Or.inl⟩
    · intro state hst
      exact absurd (mem_of_some hst) hnew
    · intro other ho
      refine .inl (leaving_insert ?_ ho)
      intro hn
      exact hnew (hs.supervised _ _ hn)
  | observe name joined => exact moved_observe name joined
  | adopt hok =>
    obtain ⟨-, -, state, -, -, -, hst, -, -, rfl⟩ := adopt_ok hok
    refine ⟨id, exited_insert ?_, fun other ho => Or.inl ho, Or.inl⟩
    intro found hf hex
    cases hst.symm.trans hf
    exact hex
  | exit hrun => exact moved_exited hrun
  | trigger =>
    refine ⟨fun _ => trigger_triggered _, ?_, fun _ _ => Or.inr (trigger_triggered _), Or.inl⟩
    intro other state hst hex
    exact ⟨state, hst, hex⟩
  | stop => exact moved_quiet (fun _ => trigger_triggered _) rfl rfl Or.inl

def Doomed (c : Context) : Prop :=
  c.shutdown.triggered = true ∨ ∃ (name : String) (state : ChildState), c.ports.children[name]? = some state ∧
    state.exited = true

lemma step_doomed (hs : Sound m c) (hd : Doomed c) (hrd : c.ports.ready = false)
    (hstep : step m c event = some (outcome, c')) : Doomed c' ∧ c'.ports.ready = false := by
  have hm := step_moved hs hstep
  refine ⟨?_, ?_⟩
  · rcases hd with ht | ⟨name, state, hst, hex⟩
    · exact .inl (hm.triggered ht)
    · obtain ⟨state', hst', hex'⟩ := hm.exited name state hst hex
      exact .inr ⟨name, state', hst', hex'⟩
  · by_contra hon
    rw [Bool.not_eq_false] at hon
    rcases hm.ready hon with hb | ⟨hu, report, hr⟩
    · exact absurd (hrd.symm.trans hb) (by decide)
    · rcases hd with ht | ⟨name, state, hst, hex⟩
      · exact absurd (hu.symm.trans ht) (by decide)
      · obtain ⟨bindings, own, hbi, ho, -⟩ := (hs.child name state hst).declared
        obtain ⟨delegation, hdel, -⟩ := delegatedBindings_ok ho
        obtain ⟨found, -, hf, -, hl, -⟩ :=
          (buildReport_live hs hr).children bindings hbi name (mem_of_some hdel)
        cases hst.symm.trans hf
        exact absurd (hl.symm.trans hex) (by decide)

def Stopping (m : Module) (event : Event) (c : Context) : Prop :=
  c.shutdown.triggered = true ∨ ∃ name, event = .exit name ∧
    ∃ next, step m c (.superviseTrigger name) = some (.done, next) ∧ next.shutdown.triggered = true

lemma stopping_leaving (h : c.supervisors[name]? = some .leaving) : Stopping m (.exit name) c := by
  refine .inr ⟨name, rfl, { c with shutdown := c.shutdown.trigger, supervisors := c.supervisors.insert name .done },
    ?_, trigger_triggered _⟩
  rw [step, if_pos h]

def Loses (c : Context) : Event → Prop
  | .dropPort _ => True
  | .presence name false => ∃ state, c.ports.children[name]? = some state ∧ state.ready = true
  | .exit _ => True
  | _ => False

lemma step_loses (hs : Sound m c) (hrd : c.ports.ready = true) (hl : Loses c event)
    (hstep : step m c event = some (outcome, c')) : c'.ports.ready = false ∧ Doomed c' ∧
      (c'.shutdown.triggered = true ∨ ∃ name, event = .exit name ∧ c'.supervisors[name]? = some .leaving) := by
  cases event with
  | dropPort handle =>
    rw [step] at hstep
    split_ifs at hstep
    cases hstep
    have ht : (dropPort c handle).shutdown.triggered = true := by
      rw [dropPort]
      simp only [hrd, Bool.or_true, if_true]
      exact trigger_triggered _
    exact ⟨rfl, .inl ht, .inl ht⟩
  | presence name joined =>
    cases joined with
    | true => exact hl.elim
    | false =>
      obtain ⟨state, hst, hc⟩ := hl
      cases hstep
      have ht : (observe c name false).shutdown.triggered = true := by
        rw [observe, hst]
        simp only [hc, Bool.not_false, Bool.and_self, if_true]
        exact trigger_triggered _
      refine ⟨?_, .inl ht, .inl ht⟩
      rw [observe, hst]
      simp only [hc, Bool.not_false, Bool.and_self, Bool.not_true, Bool.and_false]
  | exit name =>
    rw [step] at hstep
    split_ifs at hstep with hr
    cases hstep
    have hm := hs.supervised name _ hr
    refine ⟨rfl, .inr ⟨name, ⟨false, true, none⟩, ?_, rfl⟩, .inr ⟨name, rfl, getElem?_insert_self⟩⟩
    rw [childExited]
    simp only [if_pos hm]
    exact getElem?_insert_self
  | _ => exact hl.elim

lemma run_doomed {later : List Event} {answers : List Outcome} (hs : Sound m c) (hd : Doomed c)
    (hrd : c.ports.ready = false)
    (hst : c.shutdown.triggered = true ∨ ∃ name, event = .exit name ∧ c.supervisors[name]? = some .leaving)
    (hr : run (step m) c later = some (answers, c')) : c'.ports.ready = false ∧ Stopping m event c' := by
  have hl := run_invariant (P := fun c => Sound m c ∧ Doomed c ∧ c.ports.ready = false ∧
    (c.shutdown.triggered = true ∨ ∃ name, event = .exit name ∧ c.supervisors[name]? = some .leaving))
    (fun c e r c' ⟨hs, hd, hrd, hst⟩ hstep => by
      obtain ⟨hd', hrd'⟩ := step_doomed hs hd hrd hstep
      have hm := step_moved hs hstep
      refine ⟨step_sound hs hstep, hd', hrd', ?_⟩
      rcases hst with ht | ⟨name, rfl, hle⟩
      · exact .inl (hm.triggered ht)
      · rcases hm.leaving name hle with hle | ht
        · exact .inr ⟨name, rfl, hle⟩
        · exact .inl ht)
    ⟨hs, hd, hrd, hst⟩ hr
  obtain ⟨-, -, hrd', hs'⟩ := hl
  refine ⟨hrd', ?_⟩
  rcases hs' with ht | ⟨name, rfl, hle⟩
  · exact .inl ht
  · exact stopping_leaving hle

def Covered (c : Context) (bindings : ModuleBindings) (input : Bool) (name : String) : Prop :=
  (∃ registration, (c.ports.registered input)[name]? = some registration ∧ registration.live ∈ c.handles) ∨
  ∃ (child : String) (delegation : PortDelegation) (state : ChildState) (report : ModuleReport)
    (own : ModuleBindings),
    bindings.children[child]? = some delegation ∧ name ∈ delegated delegation input ∧
    c.ports.children[child]? = some state ∧ state.ready = true ∧ state.exited = false ∧ state.report = some report ∧
    delegatedBindings bindings child = .ok own ∧ validateReport ⟨own, report⟩ = .ok ()

lemma live_covered (hs : Sound m c) (hl : Live m c) {bindings : ModuleBindings}
    (hb : m.bindings = some bindings) {input : Bool} (hn : name ∈ declared bindings input) :
    Covered c bindings input name := by
  rcases hl.declared bindings hb input name hn with hreg | ⟨child, delegation, hd, hp⟩
  · obtain ⟨registration, hg⟩ := some_of_mem hreg
    exact .inl ⟨registration, hg, hl.registered input name registration hg⟩
  · obtain ⟨state, report, hst, hrd, hex, hr⟩ :=
      hl.children bindings hb child (mem_of_some hd)
    obtain ⟨known, own, hk, ho, hv⟩ := (hs.child child state hst).declared
    cases hb.symm.trans hk
    exact .inr ⟨child, delegation, state, report, own, hd, hp, hst, hrd, hex, hr, ho,
      hv report hr⟩

lemma run_sound {ho : Bool} {events : List Event} {outcomes : List Outcome}
    (hr : run (step m) (.new ho) events = some (outcomes, c)) : Sound m c :=
  run_invariant (fun _ _ _ _ hs hst => step_sound hs hst) (sound_new ho) hr

/-- While a context holds the token every declared port is covered, and a loss takes the token away for good. -/
theorem readiness_means_live {hosted : Bool} {events : List Event} {outcomes : List Outcome}
    (hrun : run (step m) (.new hosted) events = some (outcomes, c)) :
    (c.ports.ready = true → ∀ bindings, m.bindings = some bindings → ∀ input, ∀ name ∈ declared bindings input,
      Covered c bindings input name) ∧
    (∀ opening name built c', step m c (.openPort opening name built) = some (.done, c') →
      c.ports.ready = false ∧ c.ports.admission = none) ∧
    (∀ event outcome c', c.ports.ready = true → Loses c event → step m c event = some (outcome, c') →
      ∀ later answers c'', run (step m) c' later = some (answers, c'') →
        c''.ports.ready = false ∧ Stopping m event c'') ∧
    ∀ ticket announced c', step m c (.commit ticket announced) = some (.done, c') →
      ticket.context = m.pointer ∧ ticket ∈ c.tickets ∧ c.ports.admission = some ticket.generation ∧
        buildReport m c.handles c.ports = .ok ticket.report := by
  have hs := run_sound hrun
  refine ⟨?_, ?_, ?_, ?_⟩
  · intro hrd bindings hb input name hn
    exact live_covered hs (hs.live hrd) hb hn
  · intro opening name built c' hst
    rcases answer_cases hst with ⟨-, hok⟩ | ⟨-, hr⟩
    · exact (openPort_ok hok).1.2
    · exact absurd rfl hr
  · intro event outcome c' hrd hlo hst later answers c'' hl
    obtain ⟨hrd', hd', hs'⟩ := step_loses hs hrd hlo hst
    exact run_doomed (step_sound hs hst) hd' hrd' hs' hl
  · intro ticket announced c' hst
    rw [step] at hst
    split_ifs at hst with hf hh
    · rcases answer_cases hst with ⟨-, hok⟩ | ⟨-, hr⟩
      · exact absurd (commitAdmission_ok (mapError_ok.mp hok)).1 hf
      · exact absurd rfl hr
    · split at hst
      · rename_i next hok
        obtain ⟨hc, ha, -, hrep, -⟩ := commitAdmission_ok hok
        exact ⟨hc, hh.1, ha, hrep⟩
      · cases hst

def poseContract : EndpointContract := ⟨∅, "robot.Pose", .stream, none, .default, .volatile, .live, .fifo⟩

def armBindings : ModuleBindings where
  version := MODULE_BINDINGS_VERSION
  namespace_ := "robot/arm"
  endpointNamespace := "robot/arm"
  inputs := ∅
  outputs := Map.of [("grip", ⟨poseContract⟩), ("pose", ⟨poseContract⟩)]
  children := Map.of [("hand", ⟨[], ["grip"]⟩)]
  executables := []

def armModule : Module := ⟨0, "robot/arm", some armBindings, true, false⟩

def handReport : ModuleReport :=
  ⟨MODULE_REPORT_VERSION, SCHEMA_FINGERPRINT_VERSION, "robot/arm/owned/hand", "robot/arm", ∅,
    Map.of [("grip", ⟨.output ⟨"robot/arm", "grip"⟩, "robot.Pose", 7, poseContract, none⟩)]⟩

def armEvents : List Event :=
  [.openPort (.output ⟨"robot.Pose", 7⟩) "pose" true, .spawn "hand" true, .presence "hand" true,
    .adopt "hand" handReport, .ready true true]

theorem readiness_means_live_arm :
    ∃ c, run (step armModule) (.new false) armEvents = some (List.replicate 5 .done, c) ∧
    c.ports.ready = true ∧ (∀ name ∈ ["grip", "pose"], Covered c armBindings false name) ∧
    (observe c "hand" false).ports.ready = false ∧
    Stopping armModule (.presence "hand" false) (observe c "hand" false) := by
  have hv : (run (step armModule) (.new false) armEvents).map (fun result =>
      (result.1, result.2.ports.ready, result.2.ports.children["hand"]?.map ChildState.ready)) =
        some (List.replicate 5 .done, true, some true) := by
    decide +kernel
  obtain ⟨⟨outcomes, c⟩, hr, heq⟩ := Option.map_eq_some_iff.mp hv
  obtain ⟨rfl, hrd, hch⟩ : outcomes = List.replicate 5 .done ∧ c.ports.ready = true ∧
      c.ports.children["hand"]?.map ChildState.ready = some true := by
    simpa only [Prod.mk.injEq] using heq
  have hli := readiness_means_live hr
  have hp : ∀ name ∈ ["grip", "pose"], name ∈ declared armBindings false := by decide +kernel
  obtain ⟨hl, hs⟩ := hli.2.2.1 (.presence "hand" false) .done _ hrd (Option.map_eq_some_iff.mp hch) rfl [] [] _ rfl
  exact ⟨c, hr, hrd, fun name hn => hli.1 hrd armBindings rfl false name (hp name hn), hl, hs⟩

end Reiny.Managed
