import Reiny.Process.Dispatch
import Reiny.Process.ReplayGuard

namespace Reiny.Process

open Std Lib Results Checked Lists Machine Maps Topological Step List ExtTreeMap ReplayGuard

section Placement

variable {α : Type}

structure Partition (nodes : Map String StepSchema) (parts : List (Map String StepSchema)) : Prop where
  occupied : ∀ part ∈ parts, part ≠ ∅
  schemas : ∀ part ∈ parts, ∀ (inst : String) schema, part[inst]? = some schema → nodes[inst]? = some schema
  covers : ∀ inst ∈ nodes, ∃ part ∈ parts, inst ∈ part
  disjoint : ∀ (h h' : ℕ) part part' inst, parts[h]? = some part → parts[h']? = some part' → inst ∈ part →
    inst ∈ part' → h = h'

variable {parts : List (Map String α)} {host : ℕ} {inst : String}

lemma placementFrom_some {base : ℕ} {placement : Map String ℕ}
    (h : (placementFrom base placement parts)[inst]? = some host) :
    placement[inst]? = some host ∨ ∃ i part, parts[i]? = some part ∧ inst ∈ part ∧ host = base + i := by
  induction parts generalizing base placement with
  | nil => exact .inl h
  | cons part rest ih =>
    rcases ih h with hin | ⟨i, other, hi, hm, rfl⟩
    · by_cases hp : inst ∈ part
      · have hf : Functional (part.keys.map fun id => (id, base)) := by
          intro k v v' hv hv'
          obtain ⟨_, -, heq⟩ := mem_map.mp hv
          obtain ⟨_, -, heq'⟩ := mem_map.mp hv'
          cases heq
          cases heq'
          rfl
        rw [insertMany_of_mem hf (mem_map_of_mem (ExtTreeMap.mem_keys.mpr hp))] at hin
        cases hin
        exact .inr ⟨0, part, rfl, hp, rfl⟩
      · rw [insertMany_of_not_mem] at hin
        · exact .inl hin
        · intro v hv
          obtain ⟨_, hid, heq⟩ := mem_map.mp hv
          cases heq
          exact hp (ExtTreeMap.mem_keys.mp hid)
    · exact .inr ⟨i + 1, other, hi, hm, by omega⟩

lemma placementOf_some (h : (placementOf parts)[inst]? = some host) :
    ∃ part, parts[host]? = some part ∧ inst ∈ part := by
  rcases placementFrom_some h with he | ⟨i, part, hi, hm, rfl⟩
  · rw [getElem?_empty] at he
    cases he
  · rw [Nat.zero_add]
    exact ⟨part, hi, hm⟩

end Placement

def Halted (s : Session) : Prop := s.scheduler.fault.isSome = true ∨ s.driver.Over

section Halting

variable {initial : Duration} {s s' : Session} {event : Event} {reply : Reply}

lemma Halted.step (h : Halted s) (hs : s.step event = some (reply, s')) : Halted s' := by
  rcases h with hf | ho
  · cases step_move hs with
    | fail => exact .inl rfl
    | collapse => exact .inr trivial
    | _ => exact .inl hf
  · exact .inr (step_over ho hs)

lemma Halted.not_running (h : Halted s) (hinv : Inv initial s) (j : ℕ) (adv : Advance) (rest : List String)
    (awaiting : Option String) : s.driver ≠ .running j adv rest awaiting := by
  intro hd
  rcases h with hf | ho
  · rw [(hinv.running j adv rest awaiting hd).1] at hf
    cases hf
  · rw [hd] at ho
    cases ho

end Halting

def invokedBy : Driver → Call → List String
  | .running _ adv _ _, .waiting _ _ _ => adv.failure.attempted.dropLast
  | .running _ adv _ _, _ => adv.failure.attempted
  | _, _ => []

def currentOf : Driver → Option (ℕ × Duration)
  | .running j adv _ _ => some (j, adv.request.tick.end_)
  | _ => none

structure Meets (bound : BoundSteps) (part : Map String StepSchema) (scheduler : StepScheduler) (runs : List Run)
    (done : List String) (current : Option (ℕ × Duration)) (guard : ReplayGuard) : Prop where
  session : guard.session = bound.session
  epoch : guard.epoch = bound.epoch
  order : guard.order = bound.order
  assigned : guard.assigned = assignedNodes bound.order part
  cursor : guard.cursor = (done.filter part.contains).length % guard.assigned.length
  ready : ∀ a ∈ part, a ∉ done → ∃ sequence,
    guard.progress[a]? = some ⟨scheduler.nextIndex, scheduler.time, sequence⟩ ∧
      ∀ previous ∈ sequence, ∃ receipt, OkAt runs previous receipt
  called : ∀ a ∈ part, a ∈ done → ∃ j end_, current = some (j, end_) ∧
    guard.progress[a]? = some ⟨scheduler.nextIndex + 1, end_, some j⟩ ∧ guard.activeRun = some j

section Meeting

variable {bound : BoundSteps} {part : Map String StepSchema} {scheduler scheduler' : StepScheduler}
  {runs runs' : List Run} {done : List String} {current current' : Option (ℕ × Duration)} {guard : ReplayGuard}
  {inst : String} {j : ℕ} {rest : List String}

lemma Meets.keep (h : Meets bound part scheduler runs done current guard)
    (hidx : scheduler'.nextIndex = scheduler.nextIndex) (ht : scheduler'.time = scheduler.time)
    (hr : ∀ i receipt, OkAt runs i receipt → OkAt runs' i receipt) (hc : current' = current ∨ done = []) :
    Meets bound part scheduler' runs' done current' guard := by
  refine ⟨h.session, h.epoch, h.order, h.assigned, h.cursor, ?_, ?_⟩
  · intro a ha hd
    obtain ⟨sequence, he, hpr⟩ := h.ready a ha hd
    rw [hidx, ht]
    refine ⟨sequence, he, ?_⟩
    intro previous hp
    obtain ⟨receipt, hok⟩ := hpr previous hp
    exact ⟨receipt, hr previous receipt hok⟩
  · intro a ha hd
    rcases hc with rfl | rfl
    · rw [hidx]
      exact h.called a ha hd
    · cases hd

lemma Meets.elsewhere (h : Meets bound part scheduler runs done current guard) (hin : inst ∉ part) :
    Meets bound part scheduler runs (done ++ [inst]) current guard := by
  have hm : ∀ a ∈ part, a ∈ done ++ [inst] ↔ a ∈ done := by
    intro a ha
    rw [mem_append, mem_singleton, or_iff_left]
    rintro rfl
    exact hin ha
  refine ⟨h.session, h.epoch, h.order, h.assigned, ?_, ?_, ?_⟩
  · rw [filter_append, filter_cons_of_neg (by simpa using hin), filter_nil, append_nil]
    exact h.cursor
  · intro a ha hd
    exact h.ready a ha (mt (hm a ha).mpr hd)
  · intro a ha hd
    exact h.called a ha ((hm a ha).mp hd)

section

variable (h : Meets bound part scheduler runs done current guard) (ho : done ++ inst :: rest = bound.order)
  (hin : inst ∈ part)

include h ho hin

lemma Meets.position :
    guard.cursor = (done.filter part.contains).length ∧ guard.assigned[guard.cursor]? = some inst := by
  have ha : guard.assigned = done.filter part.contains ++ inst :: rest.filter part.contains := by
    rw [h.assigned, assignedNodes, ← ho, filter_append, filter_cons_of_pos (by simpa using hin)]
  have hc : guard.cursor = (done.filter part.contains).length := by
    rw [h.cursor]
    apply Nat.mod_eq_of_lt
    rw [ha, length_append, length_cons]
    omega
  refine ⟨hc, ?_⟩
  rw [hc, ha, getElem?_append_right le_rfl, Nat.sub_self]
  rfl

lemma Meets.took {invocation : InvokeStep} {entry : Progress} {tick : StepTick} (hn : invocation.call.inst = inst)
    (hidx : entry.index = scheduler.nextIndex) (hcur : current = some (invocation.call.runSequence, tick.end_)) :
    Meets bound part scheduler runs (done ++ [inst]) current (guard.took invocation entry tick) := by
  have hc := (h.position ho hin).1
  refine ⟨h.session, h.epoch, h.order, h.assigned, ?_, ?_, ?_⟩
  · change (guard.cursor + 1) % guard.assigned.length = _ % guard.assigned.length
    rw [hc, filter_append, filter_cons_of_pos (by simpa using hin), length_append]
    rfl
  · intro a ha hd
    rw [mem_append, mem_singleton, not_or] at hd
    rw [took_progress, hn, if_neg (Ne.symm hd.2)]
    exact h.ready a ha hd.1
  · intro a ha hd
    refine ⟨_, _, hcur, ?_, rfl⟩
    rw [took_progress, hn]
    split_ifs with hs
    · rw [hidx]
    · rw [mem_append, mem_singleton] at hd
      obtain ⟨j, end_, hj, he, -⟩ := h.called a ha (hd.resolve_right (Ne.symm hs))
      rw [hcur] at hj
      cases hj
      exact he

end

lemma Meets.commit {end_ : Duration} (h : Meets bound part scheduler runs bound.order (some (j, end_)) guard)
    (hpa : ∀ a ∈ part, a ∈ bound.order) (hidx : scheduler'.nextIndex = scheduler.nextIndex + 1)
    (ht : scheduler'.time = end_) {receipt : StepReceipt} (hok : OkAt runs' j receipt) :
    Meets bound part scheduler' runs' [] none guard := by
  refine ⟨h.session, h.epoch, h.order, h.assigned, ?_, ?_, nofun⟩
  · rw [h.cursor, h.assigned, assignedNodes, Nat.mod_self]
    simp
  · intro a ha _
    obtain ⟨_, _, hc, he, -⟩ := h.called a ha (hpa a ha)
    cases hc
    rw [hidx, ht]
    refine ⟨some j, he, ?_⟩
    intro previous hp
    cases hp
    exact ⟨receipt, hok⟩

end Meeting

section Accepting

variable {tick : StepTick}

lemma wireTick_valid (h : tick.Proper) (hidx : tick.id.index + 1 < U64) :
    (wireTick tick).validate = .ok () := by
  refine bind_ok.mpr ⟨tick.dt, WireDuration.duration_ofDuration _, ensure_bind_ok.mpr ⟨?_, ?_⟩⟩
  · rw [Duration.isZero, beq_eq_false_iff_ne]
    exact h.positive.ne'
  refine bind_ok.mpr ⟨tick.start, WireDuration.duration_ofDuration _, ?_⟩
  refine bind_ok.mpr ⟨tick.end_, WireDuration.duration_ofDuration _, ?_⟩
  refine ensure_bind_ok.mpr ⟨Duration.checkedAdd_some.mpr h.sum, ?_⟩
  exact bind_ok.mpr ⟨tick.id.index + 1, ofOption_ok.mpr (checkedAdd_some.mpr ⟨rfl, hidx⟩), rfl⟩

lemma serve_append (guard : ReplayGuard) (calls more : List InvokeStep) : guard.serve (calls ++ more) =
    ((guard.serve calls).1 ++ ((guard.serve calls).2.serve more).1, ((guard.serve calls).2.serve more).2) := by
  induction calls generalizing guard with
  | nil => rfl
  | cons invocation calls ih =>
    rcases hr : guard.reserve invocation with ⟨e | tick, next⟩
    · simp only [cons_append, serve, hr]
      exact ih next
    · simp only [cons_append, serve, hr, ih next]

lemma serve_accepted {guard : ReplayGuard} {invocation : InvokeStep} {entry : Progress}
    (h : Accepted guard invocation entry tick) :
    guard.serve [invocation] = ([invocation], guard.took invocation entry tick) := by
  have hidx : entry.index + 1 < U64 := by
    obtain ⟨_, _, _, -, -, -, -, hidx⟩ := validate_interval h.valid
    rwa [h.index] at hidx
  have hr : guard.reserve invocation = (.ok tick, guard.took invocation entry tick) := by
    unfold reserve
    rw [check_accepted h]
    simp only [checkedAdd_some.mpr ⟨rfl, hidx⟩]
    rfl
  simp only [serve, hr]

end Accepting

def Met (bound : BoundSteps) (part : Map String StepSchema) (o : Owner) (guard : ReplayGuard) : Prop :=
  Meets bound part o.session.scheduler o.session.runs (invokedBy o.session.driver o.call)
    (currentOf o.session.driver)
    guard

section Steps

variable {initial : Duration} {bound : BoundSteps} {part : Map String StepSchema} {o : Owner} {s' : Session}
  {reply : Reply} {guard : ReplayGuard} {context : StepDispatchContext} {inst : String} {j : ℕ}
  {adv : Advance} {rest : List String} {executor : Executor} {inputs : StepInputs} {invocation : InvokeStep}

lemma off_plan {driver : Driver} (h : ∀ j adv rest awaiting, driver ≠ .running j adv rest awaiting) (call : Call) :
    invokedBy driver call = [] ∧ currentOf driver = none := by
  cases driver with
  | running j adv rest awaiting => exact absurd rfl (h j adv rest awaiting)
  | _ => exact ⟨rfl, rfl⟩

lemma kept_okAt {s : Session} (h : Kept s s') (i : ℕ) (receipt : StepReceipt) (hok : OkAt s.runs i receipt) :
    OkAt s'.runs i receipt := by
  obtain ⟨run, hrun, hr⟩ := hok
  obtain ⟨run', hr', hk⟩ := h.runs i run hrun
  exact ⟨run', hr', hk.result _ hr⟩

lemma Steady.between (h : Steady initial o) (hd : o.session.driver = .running j adv rest none) :
    o.call = .idle ∧
      invokedBy o.session.driver o.call = adv.failure.attempted := by
  have hid := (h.course j adv rest none hd).engaged.1
  rw [hd, hid]
  exact ⟨rfl, rfl⟩

lemma Met.drive (hmet : Met bound part o guard) (h : Steady initial o) (hp : ∀ a ∈ part, a ∈ bound.order)
    (hord : o.session.scheduler.plan.order = bound.order) {event : Event}
    (hev : ∀ outcome override, event ≠ .answer outcome override)
    (hst : o.session.step event = some (reply, s')) : Halted s' ∨ Met bound part (o.observe reply s') guard := by
  have hm := step_move hst
  have hr := kept_okAt hm.kept
  have hstay : Plain reply → s'.driver = o.session.driver → s'.scheduler = o.session.scheduler →
      Met bound part (o.observe reply s') guard := by
    intro hrep hdr hs
    rw [h.observe_same hrep hdr, Met]
    rw [hdr]
    exact hmet.keep (by rw [hs]) (by rw [hs]) hr (Or.inl rfl)
  -- nothing of the run was sent, and the driver is outside the plan
  have hoff : invokedBy o.session.driver o.call = [] →
    (∀ j adv rest awaiting, s'.driver ≠ .running j adv rest awaiting) →
      s'.scheduler = o.session.scheduler → Met bound part (o.observe reply s') guard := by
    intro hno hdr hs
    have ha := off_plan hdr (o.observe reply s').call
    have ho := hmet
    rw [Met, hno] at ho
    rw [Met, (observe_session o reply s').1, ha.1]
    exact ho.keep (by rw [hs]) (by rw [hs]) hr (Or.inr rfl)
  cases hm with
  | idle _ _ _ hrep => exact .inr (hstay (quiet_plain hrep) rfl rfl)
  | read | accept | handOver | strand | cancel | stop | activate => exact .inr (hstay trivial rfl rfl)
  | take gate closed j request rest hdr =>
    refine .inr (hoff ?_ (by simp) rfl)
    rw [hdr]
    rfl
  | park gate closed driver hb ha =>
    refine .inr (hoff (off_plan ?_ _).1 ?_ rfl)
    · intro j adv rest awaiting hd
      rw [hd] at hb
      cases hb
    · rintro j adv rest awaiting rfl
      cases ha
  | finish j run error phase driver hb ha =>
    refine .inr (hoff (off_plan ?_ _).1 ?_ rfl)
    · intro k adv rest awaiting hd
      rw [hd] at hb
      rcases hb with ⟨failure, hb⟩ | hb <;> cases hb
    · rintro j adv rest awaiting rfl
      cases ha
  | ending j error hh har =>
    refine .inr (hoff ?_ (by simp) rfl)
    cases hd : o.session.driver with
    | running k adv rest awaiting =>
      have hn := (h.course k adv rest awaiting hd).armed (har k adv rest awaiting hd)
      cases hc : o.call <;> simp [invokedBy, hn]
    | _ => rfl
  | reject => exact .inl (.inr trivial)
  | fail => exact .inl (.inl rfl)
  | collapse => exact .inl (.inr trivial)
  | begin j request run adv hdr hrun hbe =>
    obtain ⟨-, valid, -, rfl⟩ := begin_ok.mp hbe
    refine .inr ?_
    have ho := hmet
    rw [Met, hdr] at ho
    exact ho.keep rfl rfl hr (Or.inr rfl)
  | dispatch j adv inst rest inputs hdr =>
    refine .inr ?_
    have ho := hmet
    rw [Met, (h.between hdr).2, hdr] at ho
    change Meets bound part _ _ (adv.failure.attempted ++ [inst]).dropLast _ guard
    rw [dropLast_concat]
    exact ho
  | commit j adv run run' gate previous hdr hrun hcom =>
    refine .inr ?_
    have hco := (h.course j adv [] none hdr).order
    rw [append_nil, hord] at hco
    have ho := hmet
    rw [Met, (h.between hdr).2, hdr, hco] at ho
    have hf := (h.sound.inv.running j adv [] none hdr).2
    exact ho.commit hp hf.next rfl (h.sound.inv.commit_okAt hdr hrun hcom)
  | answer j adv adv' inst rest outcome hdr =>
    rcases step_awaiting hdr hev hst with ⟨hsa, -⟩ | hn
    · rw [hdr] at hsa
      cases hsa
    · exact absurd rfl (hn j adv' rest none)

lemma Met.answer (hm : Met bound part o guard) (h : Steady initial o) {outcome : NodeOutcome}
    {kind : Option StepFailureKind} {key : StepCallKey} {retention : Retention}
    (hc : o.call = .sent context inst key)
    (hs : o.session.step (.answer outcome kind) = some (reply, s')) :
    Halted s' ∨ Met bound part ⟨s', o.adapter, executor, retention, .idle⟩ guard := by
  obtain ⟨j, adv, rest, hd, -⟩ := h.answering hc
  have hr := kept_okAt (step_move hs).kept
  have ho := hm
  rw [Met, hd, hc] at ho
  simp only [Session.step, Session.answer, hd] at hs
  split at hs
  · rename_i next hco
    cases hs
    obtain ⟨outputs, schema, -, -, -, rfl⟩ := complete_ok.mp hco
    exact .inr (ho.keep rfl rfl hr (Or.inl rfl))
  · cases hs
    exact .inl (.inr trivial)
  · cases hs
    exact .inl (.inl rfl)

lemma invocation_ok {now host : ℕ} (h : executor.invocation context inst inputs now = .ok (host, invocation)) :
    executor.placement[inst]? = some host ∧ invocation.tick = wireTick context.tick ∧ invocation.call =
      ⟨executor.key, context.tick.id.epoch, context.run.sequence, context.tick.id.index,
        context.ordinal, inst⟩ := by
  obtain ⟨found, hf, h⟩ := bind_ok.mp h
  obtain ⟨wire, -, h⟩ := bind_ok.mp h
  cases pure_ok.mp h
  exact ⟨ofOption_ok.mp hf, rfl, rfl⟩

structure Sending (o : Owner) (context : StepDispatchContext) (inst : String) (j : ℕ) (adv : Advance)
    (before rest : List String) : Prop where
  driver : o.session.driver = .running j adv rest (some inst)
  run : context.run = ⟨o.session.scheduler.epoch, j⟩
  tick : context.tick = adv.request.tick
  ordinal : context.ordinal = before.length
  attempted : adv.failure.attempted = before ++ [inst]
  order : before ++ inst :: rest = o.session.scheduler.plan.order

lemma Steady.sends (h : Steady initial o) {tick : StepTick} {adapter : Adapter}
    (hc : o.call = .waiting tick inst inputs) (hctx : o.adapter.context tick = .ok (context, adapter)) :
    ∃ j adv before rest, Sending o context inst j adv before rest := by
  obtain ⟨run, deadline, hr, rfl, rfl⟩ := context_ok hctx
  obtain ⟨j, adv, rest, hd, rfl, ho⟩ := h.sending hc
  have hco := h.course j adv rest (some inst) hd
  obtain ⟨before, ha⟩ := hco.last inst rfl
  refine ⟨j, adv, before, rest, hd, hco.run run deadline hr, rfl, ?_, ha, ?_⟩
  · rw [ha, length_append, length_singleton] at ho
    exact Nat.succ.inj ho
  · have hord := hco.order
    rw [ha] at hord
    exact (append_cons _ _ _).trans hord

lemma Met.accepts {before : List String}
    (hmet : Meets bound part o.session.scheduler o.session.runs before
      (some (j, adv.request.tick.end_)) guard) (h : Steady initial o)
    (hs : Sending o context inst j adv before rest) (ho : o.session.scheduler.plan.order = bound.order)
    (hep : o.session.scheduler.epoch = bound.epoch) (hnd : bound.order.Nodup) (hin : inst ∈ part)
    (ht : invocation.tick = wireTick context.tick)
    (hc : invocation.call =
      ⟨bound.session, context.tick.id.epoch, context.run.sequence, context.tick.id.index, context.ordinal, inst⟩) :
    ∃ entry, Accepted guard invocation entry adv.request.tick ∧
      Meets bound part o.session.scheduler o.session.runs (before ++ [inst]) (some (j, adv.request.tick.end_))
        (guard.took invocation entry adv.request.tick) := by
  have hf := (h.sound.inv.running j adv rest (some inst) hs.driver).2
  have hn := (h.course j adv rest (some inst) hs.driver).bound
  have hpl : before ++ inst :: rest = bound.order := hs.order.trans ho
  have hh : o.session.driver.run = some j := by rw [hs.driver]; rfl
  have hfr : inst ∉ before := by
    rw [← hpl] at hnd
    exact fun hm => disjoint_of_nodup_append hnd hm mem_cons_self
  obtain ⟨sequence, he, hpr⟩ := hmet.ready inst hin hfr
  have hseq : invocation.call.runSequence = j := by rw [hc, hs.run]
  have hidx : invocation.call.tickIndex = o.session.scheduler.nextIndex := by rw [hc, hs.tick, hf.id]
  rw [hs.tick] at ht
  obtain ⟨hcu, hpos⟩ := hmet.position hpl hin
  refine ⟨_, ⟨?_, by rw [hc]; exact he, by rw [hc, hmet.session], ?_, ?_, ?_, hidx, ?_, ?_, ?_, ?_,
    by rw [hc]; exact hpos, ?_, ?_, ?_, ?_, hf.start⟩, ?_⟩
  · rw [ht]
    refine wireTick_valid hf.proper ?_
    rw [hf.id]
    exact hf.next ▸ hn
  · rw [hseq]
    obtain ⟨hl, -⟩ := h.sound.inv.held j (held_token hh)
    have hlen := h.sequence
    omega
  · rw [hc, hmet.epoch, hs.tick, hf.id]
    exact hep
  · rw [ht, hmet.epoch, wireTick, hf.id]
    exact hep
  · rw [ht, wireTick, hf.id]
  · rw [ht, wireTick, WireDuration.duration_ofDuration, hf.start]
  · intro previous hp
    obtain ⟨receipt, hok⟩ := hpr previous hp
    rw [hseq]
    exact h.sound.inv.before hh hok
  · rw [hc, hmet.order, hs.ordinal, ← hpl, getElem?_append_right le_rfl, Nat.sub_self]
    rfl
  · rw [hseq, hcu]
    by_cases hno : before.filter part.contains = []
    · exact .inl (by rw [hno]; rfl)
    · obtain ⟨a, ha⟩ := exists_mem_of_ne_nil _ hno
      rw [mem_filter] at ha
      obtain ⟨_, _, hcur, -, hact⟩ := hmet.called a (by simpa using ha.2) ha.1
      cases hcur
      exact .inr hact
  · rw [ht, wireTick, WireDuration.duration_ofDuration]
  · rw [ht, wireTick, WireDuration.duration_ofDuration]
  · rw [hidx, hf.id, hmet.epoch, hep]
  · refine hmet.took hpl hin (by rw [hc]) rfl ?_
    rw [hseq]

end Steps

section Histories

def sentTo (host : ℕ) (replies : List OwnerReply) : List InvokeStep :=
  replies.filterMap fun
    | .sent other invocation => if other = host then some invocation else none
    | .session _ => none

structure Bears (bound : BoundSteps) (parts : List (Map String StepSchema)) (o : Owner) : Prop where
  placement : o.executor.placement = placementOf parts
  key : o.executor.key = bound.session
  order : o.session.scheduler.plan.order = bound.order
  epoch : o.session.scheduler.epoch = bound.epoch

structure Agreed (initial : Duration) (bound : BoundSteps) (parts : List (Map String StepSchema))
    (replies : List OwnerReply) (o : Owner) : Prop where
  steady : Steady initial o
  hosts : ∀ host invocation, .sent host invocation ∈ replies → host < parts.length
  accepted : ∀ (h : ℕ) part guard, parts[h]? = some part → new bound part = .ok guard →
    (guard.serve (sentTo h replies)).1 = sentTo h replies
  live : Halted o.session ∨ Bears bound parts o ∧ ∀ (h : ℕ) part guard, parts[h]? = some part →
    new bound part = .ok guard → Met bound part o (guard.serve (sentTo h replies)).2

variable {initial : Duration} {bound : BoundSteps} {parts : List (Map String StepSchema)}
  {replies : List OwnerReply}
  {o o' : Owner} {s' : Session} {reply : Reply} {adapter : Adapter} {part : Map String StepSchema}

lemma sentTo_session (host : ℕ) (reply : Reply) :
    sentTo host (replies ++ [.session reply]) = sentTo host replies := by
  simp [sentTo]

lemma sentTo_sent (host other : ℕ) (invocation : InvokeStep) :
    sentTo host (replies ++ [.sent other invocation]) =
      if other = host then sentTo host replies ++ [invocation] else sentTo host replies := by
  by_cases h : other = host <;> simp [sentTo, h]

lemma bears_same {executor : Executor} {retention : Retention} {call : Call} (h : Bears bound parts o)
    (hm : Move o.session reply s') (hp : executor.placement = o.executor.placement)
    (hk : executor.key = o.executor.key) : Bears bound parts ⟨s', adapter, executor, retention, call⟩ := by
  obtain ⟨hpl, he⟩ := move_constant hm
  exact ⟨hp.trans h.placement, hk.trans h.key, (congrArg Plan.order hpl).trans h.order,
    he.trans h.epoch⟩

lemma bears_observe (h : Bears bound parts o) (hm : Move o.session reply s') :
    Bears bound parts (o.observe reply s') := by
  obtain ⟨hp, hep⟩ := move_constant hm
  obtain ⟨hs, he, -⟩ := observe_session o reply s'
  refine ⟨by rw [he, h.placement], by rw [he, h.key], ?_, ?_⟩
  · rw [hs, hp, h.order]
  · rw [hs, hep, h.epoch]

section

variable (h : Agreed initial bound parts replies o)

include h

lemma Agreed.quiet (reply : Reply) (hs : Steady initial o')
    (hl : Halted o'.session ∨ Bears bound parts o' ∧ ∀ (i : ℕ) part guard, parts[i]? = some part →
      new bound part = .ok guard → Met bound part o' (guard.serve (sentTo i replies)).2) :
    Agreed initial bound parts (replies ++ [.session reply]) o' := by
  refine ⟨hs, ?_, ?_, ?_⟩
  · intro host invocation hm
    rcases mem_append.mp hm with ho | hn
    · exact h.hosts host invocation ho
    · cases mem_singleton.mp hn
  · intro i part guard hp hn
    rw [sentTo_session]
    exact h.accepted i part guard hp hn
  · simp only [sentTo_session]
    exact hl

lemma Agreed.drive (hpa : ∀ part ∈ parts, ∀ a ∈ part, a ∈ bound.order) {event : Event}
    (hev : ∀ outcome override, event ≠ .answer outcome override) (hs : o.session.step event = some (reply, s')) :
    Agreed initial bound parts (replies ++ [.session reply]) (o.observe reply s') := by
  refine h.quiet reply (h.steady.drive hev hs) ?_
  have hse := (observe_session o reply s').1
  rcases h.live with hh | ⟨hb, hm⟩
  · refine .inl ?_
    rw [hse]
    exact hh.step hs
  · by_cases hh : Halted s'
    · exact .inl (by rwa [hse])
    · refine .inr ⟨bears_observe hb (step_move hs), ?_⟩
      intro i part guard hp hn
      exact ((hm i part guard hp hn).drive h.steady (hpa part (mem_of_getElem? hp)) hb.order hev
        hs).resolve_left hh

lemma Agreed.send (hnd : bound.order.Nodup)
    (hd : ∀ (i i' : ℕ) part part' inst, parts[i]? = some part → parts[i']? = some part' → inst ∈ part →
      inst ∈ part' → i = i')
    {tick : StepTick} {inst : String} {inputs : StepInputs} {context : StepDispatchContext} {host : ℕ}
    {invocation : InvokeStep} (hc : o.call = .waiting tick inst inputs)
    (hctx : o.adapter.context tick = .ok (context, adapter))
    (hinv : o.executor.invocation context inst inputs o.session.now = .ok (host, invocation)) :
    Agreed initial bound parts (replies ++ [.sent host invocation])
      { o with adapter, call := .sent context inst invocation.call } := by
  obtain ⟨j, adv, before, rest, hs⟩ := h.steady.sends hc hctx
  obtain ⟨hbe, hmet⟩ := h.live.resolve_left fun hh =>
    hh.not_running h.steady.sound.inv _ _ _ _ hs.driver
  obtain ⟨hpl, hti, hk⟩ := invocation_ok hinv
  rw [hbe.placement] at hpl
  rw [hbe.key] at hk
  obtain ⟨target, htgt, hin⟩ := placementOf_some hpl
  have hb : ∀ guard part, Met bound part o guard → Meets bound part o.session.scheduler o.session.runs before
      (some (j, adv.request.tick.end_)) guard := by
    intro guard part hm
    rw [Met, hs.driver, hc] at hm
    change Meets bound part _ _ adv.failure.attempted.dropLast _ guard at hm
    rwa [hs.attempted, dropLast_concat] at hm
  have ha : ∀ guard part, Meets bound part o.session.scheduler o.session.runs (before ++ [inst])
      (some (j, adv.request.tick.end_)) guard →
      Met bound part { o with adapter, call := .sent context inst invocation.call } guard := by
    intro guard part hm
    rw [Met]
    change Meets bound part _ _ (invokedBy o.session.driver (.sent context inst invocation.call))
      (currentOf o.session.driver) guard
    rw [hs.driver]
    change Meets bound part _ _ adv.failure.attempted _ guard
    rwa [hs.attempted]
  -- the guard of the host takes the invocation, and the others are not concerned
  have he : ∀ (i : ℕ) part guard, parts[i]? = some part → new bound part = .ok guard →
      (guard.serve (sentTo i (replies ++ [.sent host invocation]))).1 =
        sentTo i (replies ++ [.sent host invocation]) ∧
        Met bound part { o with adapter, call := .sent context inst invocation.call }
          (guard.serve (sentTo i (replies ++ [.sent host invocation]))).2 := by
    intro i part guard hp hnew
    have ht := h.accepted i part guard hp hnew
    have hm := hb _ part (hmet i part guard hp hnew)
    rw [sentTo_sent]
    split_ifs with hho
    · subst hho
      rw [htgt] at hp
      cases hp
      obtain ⟨entry, hacc, hn⟩ :=
        Met.accepts hm h.steady hs hbe.order hbe.epoch hnd hin hti hk
      rw [serve_append, serve_accepted hacc, ht]
      exact ⟨rfl, ha _ _ hn⟩
    · have hel : inst ∉ part := fun hmem => hho (hd host i target part inst htgt hp hin hmem)
      exact ⟨ht, ha _ _ (hm.elsewhere hel)⟩
  refine ⟨h.steady.send hc hctx _, ?_, fun i part guard hp hnew => (he i part guard hp hnew).1,
    Or.inr ⟨⟨hbe.placement, hbe.key, hbe.order, hbe.epoch⟩, fun i part guard hp hnew =>
      (he i part guard hp hnew).2⟩⟩
  intro other sent hmem
  rcases mem_append.mp hmem with ho | hnew
  · exact h.hosts other sent ho
  · cases mem_singleton.mp hnew
    exact (List.getElem?_eq_some_iff.mp htgt).1

end

theorem step_agreed (hnd : bound.order.Nodup) (hpa : ∀ part ∈ parts, ∀ a ∈ part, a ∈ bound.order)
    (hd : ∀ (i i' : ℕ) part part' inst, parts[i]? = some part → parts[i']? = some part' → inst ∈ part →
      inst ∈ part' → i = i') (h : Agreed initial bound parts replies o) {event : OwnerEvent} {reply : OwnerReply}
    (hst : o.step event = some (reply, o')) : Agreed initial bound parts (replies ++ [reply]) o' := by
  have hmo := owner_move hst
  have hs := hmo.steady h.steady
  cases hmo with
  | drive event reply session hev hdr => exact h.drive hpa hev hdr
  | send tick inst inputs context adapter host invocation hc hctx hinv =>
    exact h.send hnd hd hc hctx hinv
  | fail adapter executor message kind reply session ha =>
    obtain ⟨_, failure, -, -, hf, -⟩ := answer_failed ha
    exact h.quiet reply hs (Or.inl (.inl (by rw [hf]; rfl)))
  | answer context inst key outputs executor retention reply session hc hr ha =>
    refine h.quiet reply hs ?_
    rcases h.live with hh | ⟨hb, hmet⟩
    · exact .inl (hh.step ha)
    · by_cases hh : Halted session
      · exact .inl hh
      · have hm := (retainOutputs_ok hr).made
        refine .inr ⟨bears_same hb (step_move ha) hm.1 hm.2.1, ?_⟩
        intro i part guard hp hn
        exact ((hmet i part guard hp hn).answer h.steady hc ha).resolve_left hh
  | reserve available =>
    refine h.quiet .done hs ?_
    rcases h.live with hh | ⟨hb, hmet⟩
    · exact .inl hh
    · exact .inr ⟨⟨hb.placement, hb.key, hb.order, hb.epoch⟩, hmet⟩

lemma new_guard (ht : bound.initialTime = .ofDuration initial) (hne : part ≠ ∅)
    (hp : ∀ a ∈ part, a ∈ bound.order) : ∃ guard, new bound part = .ok guard := by
  obtain ⟨a, ha⟩ : ∃ a, a ∈ part := by
    by_contra hnone
    push Not at hnone
    exact hne (eq_empty_iff_forall_not_mem.mpr hnone)
  refine ⟨_, bind_ok.mpr ⟨initial, orInvalid_ok.mpr ?_, ensure_bind_ok.mpr ⟨?_, rfl⟩⟩⟩
  · rw [ht, WireDuration.duration_ofDuration]
  · exact ne_nil_of_mem (mem_filter.mpr ⟨hp a ha, by simpa using ha⟩)

lemma new_meets {guard : ReplayGuard} {scheduler : StepScheduler} {runs : List Run}
    (hn : new bound part = .ok guard) (ht : bound.initialTime = .ofDuration initial)
    (hidx : scheduler.nextIndex = 0) (hst : scheduler.time = initial) :
    Meets bound part scheduler runs [] none guard := by
  obtain ⟨first, hf, hn⟩ := bind_ok.mp hn
  obtain ⟨-, hn⟩ := ensure_bind_ok.mp hn
  cases pure_ok.mp hn
  rw [orInvalid_ok, ht, WireDuration.duration_ofDuration] at hf
  cases hf
  refine ⟨rfl, rfl, rfl, rfl, (Nat.zero_mod _).symm, ?_, nofun⟩
  intro a ha _
  obtain ⟨schema, hs⟩ := some_of_mem ha
  refine ⟨none, ?_, nofun⟩
  rw [hidx, hst, ExtTreeMap.getElem?_map, hs]
  rfl

lemma Prepared.agreed {graph : StepGraph} {horizon epochs : ℕ} {sealed : BoundGraph}
    (h : Prepared parts graph initial horizon epochs o sealed) : Agreed initial sealed.toBoundSteps parts [] o := by
  have hs := h.steady
  obtain ⟨order, -, hord, ho⟩ := h.order
  refine ⟨hs, nofun, fun _ _ _ _ _ => rfl, .inr ⟨?_, ?_⟩⟩
  · rw [ho]
    exact ⟨rfl, rfl, hord.symm, h.epoch.symm⟩
  · intro i part guard _ hn
    rw [ho]
    exact new_meets hn h.time rfl rfl

theorem owner_hosts_agree {planDigest : PlanDigest} {graph : StepGraph} {key : StepSessionKey}
    {horizon epochs next : ℕ}
    {sealed : BoundGraph}
    (hprepare : Owner.prepare planDigest parts graph key initial horizon epochs = .ok (o, sealed, next))
    (hpartition : Partition graph.nodes parts) {events : List OwnerEvent}
    (hrun : o.run events = some (replies, o')) :
    (∀ host invocation, .sent host invocation ∈ replies → host < parts.length) ∧
    ∀ (host : ℕ) part, parts[host]? = some part → ∃ guard, new sealed.toBoundSteps part = .ok guard ∧
      (guard.serve (sentTo host replies)).1 = sentTo host replies := by
  have hpr := prepare_ok hprepare
  obtain ⟨order, hc, ho, -⟩ := hpr.order
  obtain ⟨-, hco⟩ := compile_ok hc
  have hn : ∀ part ∈ parts, ∀ a ∈ part, a ∈ sealed.order := by
    intro part hp a ha
    obtain ⟨schema, hsch⟩ := some_of_mem ha
    rw [ho]
    exact (hco.nodes a).mpr (mem_of_some (hpartition.schemas part hp a schema hsch))
  have hnd : sealed.order.Nodup := ho ▸ hco.ready.nodup
  have hag := run_history (P := Agreed initial sealed.toBoundSteps parts)
    (fun _ _ _ _ _ hag hs => step_agreed hnd hn hpartition.disjoint hag hs) hpr.agreed hrun
  rw [nil_append] at hag
  refine ⟨hag.hosts, ?_⟩
  intro host part hp
  have hm := mem_of_getElem? hp
  obtain ⟨guard, hg⟩ := new_guard hpr.time (hpartition.occupied part hm) (hn part hm)
  exact ⟨guard, hg, hag.accepted host part guard hp hg⟩

end Histories

section Sample

def controlSchema : StepSchema := ⟨Map.of [("goal", loopType), ("seen", loopType)], Map.of [("force", loopType)]⟩

def plantSchema : StepSchema := ⟨Map.of [("force", loopType)], Map.of [("state", loopType)]⟩

def loopParts : List (Map String StepSchema) :=
  [Map.of [("control", controlSchema)], Map.of [("plant", plantSchema)]]

variable {a k : String} {schema : StepSchema}

lemma get_single {schema' : StepSchema} :
    (Map.of [(k, schema)])[a]? = some schema' ↔ k = a ∧ schema = schema' := by
  rw [Map.of, ExtTreeMap.ofList_singleton, ExtTreeMap.getElem?_insert]
  simp only [LawfulEqOrd.compare_eq_iff_eq, ExtTreeMap.getElem?_empty]
  split_ifs with h
  · simp [h]
  · simp [h]

lemma mem_single : a ∈ (Map.of [(k, schema)]) ↔ k = a := by
  rw [Map.of, ofList_singleton, mem_insert, LawfulEqOrd.compare_eq_iff_eq]
  simp

lemma loop_partition : Partition loopGraph.nodes loopParts := by
  refine ⟨by decide +kernel, ?_, ?_, ?_⟩
  · intro part hp inst schema hs
    simp only [loopParts, mem_cons, not_mem_nil, or_false] at hp
    rcases hp with rfl | rfl <;> obtain ⟨rfl, rfl⟩ := get_single.mp hs <;> decide +kernel
  · intro inst hin
    have hk : loopGraph.nodes.keys = ["control", "plant"] := by decide +kernel
    rw [← ExtTreeMap.mem_keys, hk] at hin
    simp only [mem_cons, not_mem_nil, or_false] at hin
    rcases hin with rfl | rfl
    · exact ⟨_, mem_cons_self, mem_single.mpr rfl⟩
    · exact ⟨_, mem_cons_of_mem _ mem_cons_self, mem_single.mpr rfl⟩
  · intro h h' part part' inst hp hp' hin hi'
    have hlt := (List.getElem?_eq_some_iff.mp hp).1
    have hlt' := (List.getElem?_eq_some_iff.mp hp').1
    change h < 2 at hlt
    change h' < 2 at hlt'
    interval_cases h <;> interval_cases h' <;> cases hp <;> cases hp'
    · rfl
    · exact absurd ((mem_single.mp hin).trans (mem_single.mp hi').symm) (by decide)
    · exact absurd ((mem_single.mp hin).trans (mem_single.mp hi').symm) (by decide)
    · rfl

def loopDigest : PlanDigest := fun _ _ => .ok "plan"

def loopResult (run tick ordinal : ℕ) (inst port : String) (bytes : Bytes) : OwnerEvent :=
  .receive (.result ⟨sampleSession, 3, run, tick, ordinal, inst⟩
    (.ok (Map.of [(port, ⟨exportType loopType, bytes⟩)])))

def loopTick (run tick : ℕ) (bytes : Bytes) : List OwnerEvent :=
  (loopAdmit run tick.toUInt8).map .session ++
    [.session .dispatch, .invoke, loopResult run tick 0 "control" "force" bytes,
      .session .dispatch, .invoke, loopResult run tick 1 "plant" "state" bytes, .session .commit]

def loopSteps : List OwnerEvent :=
  .session .activate :: .reserve 1024 ::
    ([.start 0 (loopRequest 1) (some (.ofNanos 100)), .accept 0, .handOver 0, .cancel 0, .receive,
    .interrupt, .finish] : List Event).map .session ++ loopTick 1 0 [1, 0] ++ loopTick 2 1 [2, 1, 0]

theorem owner_hosts_agree_loop : ∃ o sealed next replies o' guard,
    Owner.prepare loopDigest loopParts loopGraph sampleSession .zero 1000 3 = .ok (o, sealed, next) ∧
    Partition loopGraph.nodes loopParts ∧ o.run loopSteps = some (replies, o') ∧
    (sentTo 1 replies).map (fun invocation => (invocation.call.runSequence, invocation.call.tickIndex)) =
      [(1, 0), (2, 1)] ∧
    new sealed.toBoundSteps (Map.of [("plant", plantSchema)]) = .ok guard ∧
    (guard.serve (sentTo 1 replies)).1 = sentTo 1 replies := by
  have hse : (Owner.prepare loopDigest loopParts loopGraph sampleSession .zero 1000 3).toOption.bind
    (fun prepared =>
      (prepared.1.run loopSteps).map fun result =>
        (sentTo 1 result.1).map fun invocation => (invocation.call.runSequence, invocation.call.tickIndex)) =
      some [(1, 0), (2, 1)] := by decide +kernel
  obtain ⟨⟨o, sealed, next⟩, hp, hse⟩ := Option.bind_eq_some_iff.mp hse
  obtain ⟨⟨replies, o'⟩, hr, hse⟩ := Option.map_eq_some_iff.mp hse
  rw [toOption_some] at hp
  obtain ⟨guard, hg, hs⟩ := (owner_hosts_agree hp loop_partition hr).2 1 _ rfl
  exact ⟨o, sealed, next, replies, o', guard, hp, loop_partition, hr, hse, hg, hs⟩

end Sample

end Reiny.Process
