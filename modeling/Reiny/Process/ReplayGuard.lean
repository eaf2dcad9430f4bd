import Reiny.Lib.Lists
import Reiny.Lib.Maps
import Reiny.Process.Protocol

namespace Reiny.Process

open Std Lib Results Checked Lists Maps Step List

structure Progress where
  index : ℕ
  time : Duration
  sequence : Option ℕ
deriving DecidableEq

structure ReplayGuard where
  session : StepSessionKey
  epoch : ℕ
  order : List String
  assigned : List String
  cursor : ℕ
  activeRun : Option ℕ
  progress : Map String Progress
deriving DecidableEq

def orInvalid {ε α : Type} : Except ε α → Except ProcessError α
  | .ok a => .ok a
  | .error _ => .error invalid

lemma orInvalid_ok {ε α : Type} {x : Except ε α} {a : α} : orInvalid x = .ok a ↔ x = .ok a := by
  cases x with
  | ok | error => simp [orInvalid]

def assignedNodes (order : List String) (schemas : Map String StepSchema) : List String :=
  order.filter schemas.contains

namespace ReplayGuard

def new (bound : BoundSteps) (schemas : Map String StepSchema) : Except ProcessError ReplayGuard := do
  let initial ← orInvalid bound.initialTime.duration
  let assigned := assignedNodes bound.order schemas
  ensure (assigned ≠ []) invalid
  return { session := bound.session
           epoch := bound.epoch
           order := bound.order
           assigned := assigned
           cursor := 0
           activeRun := none
           progress := schemas.map fun _ _ => ⟨0, initial, none⟩ }

def check (guard : ReplayGuard) (invocation : InvokeStep) : Except ProcessError (Progress × StepTick) := do
  orInvalid invocation.tick.validate
  let call := invocation.call
  let entry ← ofOption guard.progress[call.inst]? invalid
  ensure (call.session = guard.session) invalid
  ensure (call.runSequence ≠ U64 - 1) invalid
  ensure (call.epoch = guard.epoch) invalid
  ensure (invocation.tick.epoch = guard.epoch) invalid
  ensure (call.tickIndex = entry.index) invalid
  ensure (invocation.tick.index = entry.index) invalid
  let start ← orInvalid invocation.tick.start.duration
  ensure (start = entry.time) invalid
  ensure (∀ previous ∈ entry.sequence, previous < call.runSequence) invalid
  ensure (guard.order[call.nodeOrdinal]? = some call.inst) invalid
  ensure (guard.assigned[guard.cursor]? = some call.inst) invalid
  ensure (guard.cursor = 0 ∨ guard.activeRun = some call.runSequence) invalid
  let dt ← orInvalid invocation.tick.dt.duration
  let end_ ← orInvalid invocation.tick.end_.duration
  return (entry, ⟨⟨guard.epoch, call.tickIndex⟩, entry.time, dt, end_⟩)

def reserve (guard : ReplayGuard) (invocation : InvokeStep) : Except ProcessError StepTick × ReplayGuard :=
  match guard.check invocation with
  | .error e => (.error e, guard)
  | .ok (entry, tick) =>
    match checkedAdd U64 entry.index 1 with
    | none => (.error invalid, guard)
    | some next =>
      let sequence := some invocation.call.runSequence
      (.ok tick,
        { guard with
          progress := guard.progress.insert invocation.call.inst ⟨next, tick.end_, sequence⟩
          activeRun := sequence
          cursor := (guard.cursor + 1) % guard.assigned.length })

def serve : ReplayGuard → List InvokeStep → List InvokeStep × ReplayGuard
  | guard, [] => ([], guard)
  | guard, invocation :: rest =>
    match guard.reserve invocation with
    | (.error _, guard) => serve guard rest
    | (.ok _, guard) =>
      let (taken, last) := serve guard rest
      (invocation :: taken, last)

end ReplayGuard

structure Accepted (guard : ReplayGuard) (invocation : InvokeStep) (entry : Progress) (tick : StepTick) : Prop where
  valid : invocation.tick.validate = .ok ()
  found : guard.progress[invocation.call.inst]? = some entry
  session : invocation.call.session = guard.session
  bounded : invocation.call.runSequence ≠ U64 - 1
  epoch : invocation.call.epoch = guard.epoch
  tickEpoch : invocation.tick.epoch = guard.epoch
  call : invocation.call.tickIndex = entry.index
  index : invocation.tick.index = entry.index
  start : invocation.tick.start.duration = .ok entry.time
  later : ∀ previous ∈ entry.sequence, previous < invocation.call.runSequence
  ordinal : guard.order[invocation.call.nodeOrdinal]? = some invocation.call.inst
  position : guard.assigned[guard.cursor]? = some invocation.call.inst
  same : guard.cursor = 0 ∨ guard.activeRun = some invocation.call.runSequence
  dt : invocation.tick.dt.duration = .ok tick.dt
  ended : invocation.tick.end_.duration = .ok tick.end_
  id : tick.id = ⟨guard.epoch, invocation.call.tickIndex⟩
  time : tick.start = entry.time

def ReplayGuard.took (guard : ReplayGuard) (invocation : InvokeStep) (entry : Progress) (tick : StepTick) :
    ReplayGuard :=
  { guard with
    progress := guard.progress.insert invocation.call.inst
      ⟨entry.index + 1, tick.end_, some invocation.call.runSequence⟩
    activeRun := some invocation.call.runSequence
    cursor := (guard.cursor + 1) % guard.assigned.length }

variable {guard : ReplayGuard} {invocation : InvokeStep} {entry : Progress} {tick : StepTick}

lemma check_ok (h : guard.check invocation = .ok (entry, tick)) : Accepted guard invocation entry tick := by
  obtain ⟨_, hv, h⟩ := bind_ok.mp h
  obtain ⟨entry', he, h⟩ := bind_ok.mp h
  obtain ⟨hs, h⟩ := ensure_bind_ok.mp h
  obtain ⟨hb, h⟩ := ensure_bind_ok.mp h
  obtain ⟨hep, h⟩ := ensure_bind_ok.mp h
  obtain ⟨ht, h⟩ := ensure_bind_ok.mp h
  obtain ⟨hc, h⟩ := ensure_bind_ok.mp h
  obtain ⟨hidx, h⟩ := ensure_bind_ok.mp h
  obtain ⟨start, hst, h⟩ := bind_ok.mp h
  obtain ⟨hti, h⟩ := ensure_bind_ok.mp h
  obtain ⟨hl, h⟩ := ensure_bind_ok.mp h
  obtain ⟨ho, h⟩ := ensure_bind_ok.mp h
  obtain ⟨hp, h⟩ := ensure_bind_ok.mp h
  obtain ⟨hsa, h⟩ := ensure_bind_ok.mp h
  obtain ⟨dt, hdt, h⟩ := bind_ok.mp h
  obtain ⟨end_, hend, h⟩ := bind_ok.mp h
  cases pure_ok.mp h
  rw [ofOption_ok] at he
  rw [orInvalid_ok] at hv hst hdt hend
  rw [hti] at hst
  exact ⟨hv, he, hs, hb, hep, ht, hc, hidx, hst, hl, ho, hp,
    hsa, hdt, hend, rfl, rfl⟩

lemma check_accepted (h : Accepted guard invocation entry tick) : guard.check invocation = .ok (entry, tick) := by
  refine bind_ok.mpr ⟨(), orInvalid_ok.mpr h.valid, bind_ok.mpr ⟨entry, ofOption_ok.mpr h.found, ?_⟩⟩
  refine ensure_bind_ok.mpr ⟨h.session, ensure_bind_ok.mpr ⟨h.bounded, ensure_bind_ok.mpr ⟨h.epoch, ?_⟩⟩⟩
  refine ensure_bind_ok.mpr ⟨h.tickEpoch, ensure_bind_ok.mpr ⟨h.call, ensure_bind_ok.mpr ⟨h.index, ?_⟩⟩⟩
  refine bind_ok.mpr ⟨entry.time, orInvalid_ok.mpr h.start, ensure_bind_ok.mpr ⟨rfl, ?_⟩⟩
  refine ensure_bind_ok.mpr ⟨h.later, ensure_bind_ok.mpr ⟨h.ordinal, ensure_bind_ok.mpr ⟨h.position, ?_⟩⟩⟩
  refine ensure_bind_ok.mpr ⟨h.same, bind_ok.mpr ⟨tick.dt, orInvalid_ok.mpr h.dt, ?_⟩⟩
  refine bind_ok.mpr ⟨tick.end_, orInvalid_ok.mpr h.ended, ?_⟩
  rw [pure_ok, ← h.id, ← h.time]

lemma reserve_cases (guard : ReplayGuard) (invocation : InvokeStep) :
    (∃ e, guard.reserve invocation = (.error e, guard)) ∨
      ∃ entry tick, guard.reserve invocation = (.ok tick, guard.took invocation entry tick) ∧
        Accepted guard invocation entry tick := by
  unfold ReplayGuard.reserve
  cases hc : guard.check invocation with
  | error e => exact .inl ⟨e, rfl⟩
  | ok checked =>
    obtain ⟨entry, tick⟩ := checked
    cases hn : checkedAdd U64 entry.index 1 with
    | none => exact .inl ⟨invalid, by simp only [hn]⟩
    | some next =>
      obtain ⟨rfl, -⟩ := checkedAdd_some.mp hn
      exact .inr ⟨entry, tick, by simp only [hn]; rfl, check_ok hc⟩

structure Follows (assigned : List String) (taken : List InvokeStep) (runs : List ℕ) (tick position : ℕ)
    (guard : ReplayGuard) : Prop where
  nodes : guard.assigned = assigned
  count : taken.length = tick * assigned.length + position
  inside : position < assigned.length
  cursor : guard.cursor = position
  begun : runs.length = if position = 0 then tick else tick + 1
  active : guard.activeRun = runs.getLast?
  increasing : runs.IsChain (· < ·)
  index : ∀ a ∈ assigned, ∀ entry, guard.progress[a]? = some entry →
    entry.index = if a ∈ assigned.take position then tick + 1 else tick
  sequence : ∀ a ∈ assigned, ∀ entry, guard.progress[a]? = some entry →
    entry.sequence = if entry.index = 0 then none else runs[entry.index - 1]?

structure Placed (assigned : List String) (runs : List ℕ) (j : ℕ) (invocation : InvokeStep) : Prop where
  call : invocation.call.tickIndex = j / assigned.length
  index : invocation.tick.index = j / assigned.length
  node : assigned[j % assigned.length]? = some invocation.call.inst
  first : invocation.call.inst ∉ assigned.take (j % assigned.length)
  run : runs[j / assigned.length]? = some invocation.call.runSequence

section Following

variable {result : StepTick} {assigned : List String} {taken : List InvokeStep} {runs : List ℕ} {tick position : ℕ}
  {a : String} {entry' : Progress}

section

variable (h : Follows assigned taken runs tick position guard)

include h

variable (ha : Accepted guard invocation entry result)

include ha

lemma Follows.first : invocation.call.inst ∉ assigned.take position := by
  intro hin
  have hm : invocation.call.inst ∈ assigned := mem_of_mem_take hin
  have hidx := h.index _ hm entry ha.found
  rw [if_pos hin] at hidx
  have hz : position ≠ 0 := by
    rintro rfl
    cases hin
  have hseq := h.sequence _ hm entry ha.found
  rw [hidx, if_neg (Nat.succ_ne_zero tick), Nat.add_sub_cancel] at hseq
  have hl : runs.getLast? = runs[tick]? := by
    rw [getLast?_eq_getElem?, h.begun, if_neg hz, Nat.add_sub_cancel]
  have hs := ha.same.resolve_left (by rw [h.cursor]; exact hz)
  rw [h.active, hl, ← hseq] at hs
  exact lt_irrefl _ (ha.later _ hs)

lemma Follows.entry_index : entry.index = tick := by
  have hm : invocation.call.inst ∈ assigned := by
    rw [← h.nodes]
    exact mem_of_getElem? ha.position
  rw [h.index _ hm entry ha.found, if_neg (h.first ha)]

lemma Follows.continued :
    ∃ runs', runs <+: runs' ∧ runs'.length = tick + 1 ∧
      runs'.IsChain (· < ·) ∧ runs'[tick]? = some invocation.call.runSequence := by
  have hm : invocation.call.inst ∈ assigned := by
    rw [← h.nodes]
    exact mem_of_getElem? ha.position
  by_cases hz : position = 0
  · have hl : runs.length = tick := by rw [h.begun, if_pos hz]
    refine ⟨runs ++ [invocation.call.runSequence], prefix_append _ _, ?_, ?_, ?_⟩
    · rw [length_append, hl, length_singleton]
    · refine isChain_append.mpr ⟨h.increasing, isChain_singleton _, ?_⟩
      rintro previous hp _ ⟨⟩
      have hseq := h.sequence _ hm entry ha.found
      have ht : tick ≠ 0 := by
        rintro rfl
        rw [length_eq_zero_iff.mp hl] at hp
        cases hp
      rw [h.entry_index ha, if_neg ht] at hseq
      apply ha.later
      rw [hseq, ← hl, ← getLast?_eq_getElem?]
      exact hp
    · rw [← hl, getElem?_concat_length]
  · have hl : runs.length = tick + 1 := by rw [h.begun, if_neg hz]
    refine ⟨runs, prefix_refl _, hl, h.increasing, ?_⟩
    have hs := ha.same.resolve_left (by rw [h.cursor]; exact hz)
    rw [h.active, getLast?_eq_getElem?, hl, Nat.add_sub_cancel] at hs
    exact hs

end

lemma took_progress (a : String) : (guard.took invocation entry result).progress[a]? =
    if invocation.call.inst = a then some ⟨entry.index + 1, result.end_, some invocation.call.runSequence⟩
    else guard.progress[a]? := by
  unfold ReplayGuard.took
  rw [ExtTreeMap.getElem?_insert]
  simp only [LawfulEqOrd.compare_eq_iff_eq]

variable (h : Follows assigned taken runs tick position guard)

include h

variable (ha : Accepted guard invocation entry result)

include ha

lemma Follows.took_index (hm : a ∈ assigned)
    (he : (guard.took invocation entry result).progress[a]? = some entry') :
    entry'.index = if a ∈ assigned.take (position + 1) then tick + 1 else tick := by
  have hn : assigned[position]? = some invocation.call.inst := by
    rw [← h.nodes, ← h.cursor]
    exact ha.position
  have ht : a ∈ assigned.take (position + 1) ↔ a ∈ assigned.take position ∨ invocation.call.inst = a := by
    rw [take_add_one, hn, mem_append]
    simp [eq_comm]
  rw [took_progress] at he
  split_ifs at he with hin
  · cases he
    rw [if_pos (ht.mpr (Or.inr hin))]
    exact congrArg (· + 1) (h.entry_index ha)
  · rw [h.index a hm entry' he]
    simp only [ht, hin, or_false]

lemma Follows.took_sequence {runs' : List ℕ} (hr : runs <+: runs')
    (hrun : runs'[tick]? = some invocation.call.runSequence) (hm : a ∈ assigned)
    (he : (guard.took invocation entry result).progress[a]? = some entry') :
    entry'.sequence = if entry'.index = 0 then none else runs'[entry'.index - 1]? := by
  rw [took_progress] at he
  split_ifs at he with hin
  · cases he
    rw [if_neg (Nat.succ_ne_zero _), Nat.add_sub_cancel, h.entry_index ha, hrun]
  · rw [h.sequence a hm entry' he]
    split_ifs with hz
    · rfl
    · have hidx := h.index a hm entry' he
      have hb := h.begun
      have hlt : entry'.index - 1 < runs.length := by
        by_cases hp : position = 0
        · subst hp
          simp only [take_zero, not_mem_nil, if_false] at hidx
          rw [if_pos rfl] at hb
          omega
        · rw [if_neg hp] at hb
          split_ifs at hidx <;> omega
      obtain ⟨more, rfl⟩ := hr
      rw [getElem?_append_left hlt]

lemma Follows.took : ∃ runs' tick' position', runs <+: runs' ∧
      Follows assigned (taken ++ [invocation]) runs' tick' position' (guard.took invocation entry result) ∧
      Placed assigned runs' taken.length invocation := by
  obtain ⟨runs', hp, hl, hch, hr⟩ := h.continued ha
  have hin := h.inside
  have hcnt := h.count
  have hd : taken.length / assigned.length = tick := by
    rw [hcnt, mul_comm, Nat.mul_add_div (by omega), Nat.div_eq_of_lt hin, add_zero]
  have hmod : taken.length % assigned.length = position := by
    rw [hcnt, mul_comm, Nat.mul_add_mod, Nat.mod_eq_of_lt hin]
  have hpl : Placed assigned runs' taken.length invocation := by
    have hidx := h.entry_index ha
    refine ⟨?_, ?_, ?_, ?_, ?_⟩
    · rw [hd, ha.call, hidx]
    · rw [hd, ha.index, hidx]
    · rw [hmod, ← h.nodes, ← h.cursor]
      exact ha.position
    · rw [hmod]
      exact h.first ha
    · rw [hd]
      exact hr
  have hact : (guard.took invocation entry result).activeRun = runs'.getLast? := by
    rw [getLast?_eq_getElem?, hl, Nat.add_sub_cancel, hr]
    rfl
  have hc : (guard.took invocation entry result).cursor = (position + 1) % assigned.length := by
    rw [← h.nodes, ← h.cursor]
    rfl
  have hs := fun a hm entry' => @Follows.took_sequence _ _ _ _ _ _ _ _ _ a entry' h ha _ hp hr hm
  by_cases hn : position + 1 < assigned.length
  · refine ⟨runs', tick, position + 1, hp, ⟨h.nodes, ?_, hn, ?_, ?_, hact, hch, ?_, hs⟩, hpl⟩
    · rw [length_append, length_singleton, hcnt, add_assoc]
    · rw [hc, Nat.mod_eq_of_lt hn]
    · rw [hl, if_neg (Nat.succ_ne_zero position)]
    · exact fun a hm entry' => h.took_index ha hm
  · have hf : position + 1 = assigned.length := by omega
    refine ⟨runs', tick + 1, 0, hp, ⟨h.nodes, ?_, by omega, ?_, ?_, hact, hch, ?_, hs⟩, hpl⟩
    · rw [length_append, length_singleton, hcnt, add_assoc, hf, Nat.succ_mul, add_zero]
    · rw [hc, hf, Nat.mod_self]
    · rw [hl, if_pos rfl]
    · intro a hm entry' he
      have hidx := h.took_index ha hm he
      rw [hf, take_length, if_pos hm] at hidx
      rw [hidx, take_zero, if_neg not_mem_nil]

end Following

structure Timed (initial : Duration) (taken : List InvokeStep) (guard : ReplayGuard) : Prop where
  fresh : ∀ (a : String) entry, guard.progress[a]? = some entry → entry.index = 0 → entry.time = initial
  last : ∀ (a : String) entry i, guard.progress[a]? = some entry → entry.index = i + 1 →
    ∃ before ∈ taken, before.call.inst = a ∧ before.call.tickIndex = i ∧ before.tick.end_.duration = .ok entry.time

structure Chained (initial : Duration) (before : List InvokeStep) (invocation : InvokeStep) : Prop where
  fresh : invocation.call.tickIndex = 0 → invocation.tick.start.duration = .ok initial
  next : ∀ i, invocation.call.tickIndex = i + 1 → ∃ earlier ∈ before, earlier.call.inst = invocation.call.inst ∧
    earlier.call.tickIndex = i ∧ invocation.tick.start.duration = earlier.tick.end_.duration

variable {result : StepTick} {taken : List InvokeStep} {initial : Duration}

lemma Timed.chained (h : Timed initial taken guard) (ha : Accepted guard invocation entry result) :
    Chained initial taken invocation := by
  refine ⟨?_, ?_⟩
  · intro hz
    rw [ha.start, h.fresh _ entry ha.found (by rw [← ha.call, hz])]
  · intro i hi
    obtain ⟨before, hm, hin, ht, he⟩ := h.last _ entry i ha.found (by rw [← ha.call, hi])
    exact ⟨before, hm, hin, ht, by rw [ha.start, he]⟩

lemma Timed.took (h : Timed initial taken guard) (ha : Accepted guard invocation entry result) :
    Timed initial (taken ++ [invocation]) (guard.took invocation entry result) := by
  refine ⟨?_, ?_⟩
  · intro a entry' he hz
    rw [took_progress] at he
    split_ifs at he with hin
    · cases he
      cases hz
    · exact h.fresh a entry' he hz
  · intro a entry' i he hi
    rw [took_progress] at he
    split_ifs at he with hin
    · cases he
      refine ⟨invocation, mem_append_right _ (mem_singleton_self _), hin, ?_, ha.ended⟩
      rw [ha.call]
      exact Nat.succ.inj hi
    · obtain ⟨before, hm, hb⟩ := h.last a entry' i he hi
      exact ⟨before, mem_append_left _ hm, hb⟩

structure History (initial : Duration) (assigned : List String) (taken : List InvokeStep) (runs : List ℕ)
    (guard : ReplayGuard) : Prop where
  follows : ∃ tick position, Follows assigned taken runs tick position guard
  timed : Timed initial taken guard
  placed : ∀ j invocation, taken[j]? = some invocation → Placed assigned runs j invocation
  chained : ∀ j invocation, taken[j]? = some invocation → Chained initial (taken.take j) invocation

variable {assigned : List String} {runs : List ℕ} {j : ℕ}

lemma Placed.extend {runs' : List ℕ} (hr : runs <+: runs') (h : Placed assigned runs j invocation) :
    Placed assigned runs' j invocation := by
  refine ⟨h.call, h.index, h.node, h.first, ?_⟩
  obtain ⟨more, rfl⟩ := hr
  rw [getElem?_append_left (List.getElem?_eq_some_iff.mp h.run).1]
  exact h.run

lemma History.took (h : History initial assigned taken runs guard) (ha : Accepted guard invocation entry result) :
    ∃ runs', History initial assigned (taken ++ [invocation]) runs' (guard.took invocation entry result) := by
  obtain ⟨tick, position, hf⟩ := h.follows
  obtain ⟨runs', tick', position', hr, hn, hpl⟩ := hf.took ha
  refine ⟨runs', ⟨tick', position', hn⟩, h.timed.took ha, ?_, ?_⟩
  · intro j other hj
    rcases getElem?_concat hj with ho | ⟨rfl, rfl⟩
    · exact (h.placed j other ho).extend hr
    · exact hpl
  · intro j other hj
    rcases getElem?_concat hj with ho | ⟨rfl, rfl⟩
    · have hlt : j < taken.length := (List.getElem?_eq_some_iff.mp ho).1
      rw [take_append_of_le_length hlt.le]
      exact h.chained j other ho
    · rw [take_append_length]
      exact h.timed.chained ha

lemma History.serve (h : History initial assigned taken runs guard) (calls : List InvokeStep) :
    ∃ runs', History initial assigned (taken ++ (guard.serve calls).1) runs' (guard.serve calls).2 := by
  induction calls generalizing taken runs guard with
  | nil =>
    refine ⟨runs, ?_⟩
    rw [ReplayGuard.serve, append_nil]
    exact h
  | cons invocation calls ih =>
    rcases reserve_cases guard invocation with ⟨e, hr⟩ | ⟨entry, tick, hr, ha⟩
    · rw [ReplayGuard.serve, hr]
      exact ih h
    · obtain ⟨runs', hn⟩ := h.took ha
      obtain ⟨runs'', hl⟩ := ih hn
      refine ⟨runs'', ?_⟩
      rw [ReplayGuard.serve, hr]
      rwa [append_assoc, singleton_append] at hl

lemma new_history {bound : BoundSteps} {schemas : Map String StepSchema}
    (h : ReplayGuard.new bound schemas = .ok guard) : ∃ initial, bound.initialTime.duration = .ok initial ∧
      History initial (assignedNodes bound.order schemas) [] [] guard := by
  obtain ⟨initial, hin, h⟩ := bind_ok.mp h
  obtain ⟨hne, h⟩ := ensure_bind_ok.mp h
  cases pure_ok.mp h
  rw [orInvalid_ok] at hin
  have hen : ∀ (a : String) entry,
      (schemas.map fun _ _ => (⟨0, initial, none⟩ : Progress))[a]? = some entry → entry = ⟨0, initial, none⟩ := by
    intro a entry he
    rw [ExtTreeMap.getElem?_map, Option.map_eq_some_iff] at he
    obtain ⟨_, -, rfl⟩ := he
    rfl
  refine ⟨initial, hin, ⟨0, 0, rfl, by simp, length_pos_iff.mpr hne, rfl, rfl, rfl, isChain_nil, ?_, ?_⟩,
    ⟨?_, ?_⟩, ?_, ?_⟩
  · intro a _ entry he
    rw [hen a entry he, take_zero, if_neg not_mem_nil]
  · intro a _ entry he
    rw [hen a entry he, if_pos rfl]
  · intro a entry he _
    rw [hen a entry he]
  · intro a entry i he hi
    rw [hen a entry he] at hi
    cases hi
  · intro j invocation hj
    cases hj
  · intro j invocation hj
    cases hj

lemma Placed.once {i : ℕ} {other : InvokeStep} (hi : Placed assigned runs i invocation)
    (hj : Placed assigned runs j other) (ht : invocation.call.tickIndex = other.call.tickIndex)
    (hin : invocation.call.inst = other.call.inst) : i = j := by
  -- a smaller position in the same tick would put the node among those already called
  have hle : ∀ i j invocation other, Placed assigned runs i invocation → Placed assigned runs j other →
      invocation.call.inst = other.call.inst → ¬ i % assigned.length < j % assigned.length := by
    intro i j invocation other hi hj hin hlt
    apply hj.first
    rw [← hin]
    obtain ⟨hi', he⟩ := List.getElem?_eq_some_iff.mp hi.node
    rw [← he]
    exact mem_take_iff_getElem.mpr ⟨_, by omega, rfl⟩
  have hm : i % assigned.length = j % assigned.length := by
    have h₁ := hle i j _ _ hi hj hin
    have h₂ := hle j i _ _ hj hi hin.symm
    omega
  rw [hi.call, hj.call] at ht
  rw [← Nat.div_add_mod i assigned.length, ← Nat.div_add_mod j assigned.length, ht, hm]

theorem replay_guard_schedule {bound : BoundSteps} {schemas : Map String StepSchema}
    (hnew : ReplayGuard.new bound schemas = .ok guard) (calls : List InvokeStep) :
    (∀ j invocation, (guard.serve calls).1[j]? = some invocation →
      (assignedNodes bound.order schemas)[j % (assignedNodes bound.order schemas).length]? =
        some invocation.call.inst ∧
      invocation.call.tickIndex = j / (assignedNodes bound.order schemas).length ∧
      invocation.tick.index = j / (assignedNodes bound.order schemas).length ∧
      (invocation.call.tickIndex = 0 → invocation.tick.start.duration = bound.initialTime.duration)) ∧
    (∀ (i j : ℕ) (invocation other : InvokeStep), (guard.serve calls).1[i]? = some invocation →
      (guard.serve calls).1[j]? = some other →
      (invocation.call.tickIndex = other.call.tickIndex ∧ invocation.call.inst = other.call.inst → i = j) ∧
      (other.call.tickIndex = invocation.call.tickIndex + 1 ∧ invocation.call.inst = other.call.inst →
        other.tick.start.duration = invocation.tick.end_.duration) ∧
      (invocation.call.tickIndex = other.call.tickIndex → invocation.call.runSequence = other.call.runSequence) ∧
      (invocation.call.tickIndex < other.call.tickIndex → invocation.call.runSequence < other.call.runSequence)) ∧
    ∀ (guard : ReplayGuard) invocation e, (guard.reserve invocation).1 = .error e →
      (guard.reserve invocation).2 = guard := by
  obtain ⟨initial, hin, hst⟩ := new_history hnew
  obtain ⟨runs, h⟩ := hst.serve calls
  rw [nil_append] at h
  obtain ⟨_, _, hf⟩ := h.follows
  refine ⟨?_, ?_, ?_⟩
  · intro j invocation hj
    have hpl := h.placed j invocation hj
    refine ⟨hpl.node, hpl.call, hpl.index, ?_⟩
    intro hz
    rw [hin, (h.chained j invocation hj).fresh hz]
  · intro i j invocation other hi hj
    have hpi := h.placed i invocation hi
    have hpj := h.placed j other hj
    refine ⟨fun hpa => hpi.once hpj hpa.1 hpa.2, ?_, ?_, ?_⟩
    · rintro ⟨ht, hinst⟩
      obtain ⟨earlier, hm, hs, hb, heq⟩ := (h.chained j other hj).next _ ht
      obtain ⟨i', hi'⟩ := mem_iff_getElem?.mp (mem_of_mem_take hm)
      have hpe := h.placed i' earlier hi'
      cases hpe.once hpi hb (hs.trans hinst.symm)
      rw [hi] at hi'
      cases hi'
      exact heq
    · intro ht
      have hrun := hpi.run
      rw [← hpi.call, ht, hpj.call, hpj.run] at hrun
      exact (Option.some.inj hrun).symm
    · intro ht
      have hp := isChain_iff_pairwise.mp hf.increasing
      have hri := hpi.run
      have hrj := hpj.run
      rw [← hpi.call] at hri
      rw [← hpj.call] at hrj
      obtain ⟨hli, hei⟩ := List.getElem?_eq_some_iff.mp hri
      obtain ⟨hlj, hej⟩ := List.getElem?_eq_some_iff.mp hrj
      rw [← hei, ← hej]
      exact pairwise_iff_getElem.mp hp _ _ hli hlj ht
  · intro guard invocation e he
    rcases reserve_cases guard invocation with ⟨_, hr⟩ | ⟨_, _, hr, -⟩
    · rw [hr]
    · rw [hr] at he
      cases he

def sampleSession : StepSessionKey := ⟨[1], 1, 2, "graph", "plan"⟩

def sampleBound : BoundSteps := ⟨sampleSession, 9, ⟨0, 0⟩, ["a", "b", "c"]⟩

def sampleSchemas : Map String StepSchema := Map.of [("a", ⟨∅, ∅⟩), ("c", ⟨∅, ∅⟩)]

def sampleGuard : ReplayGuard :=
  ⟨sampleSession, 9, ["a", "b", "c"], ["a", "c"], 0, none,
    Map.of [("a", ⟨0, .zero, none⟩), ("c", ⟨0, .zero, none⟩)]⟩

def sampleCall (run tick ordinal : ℕ) (inst : String) (start : UInt64) : InvokeStep :=
  ⟨⟨sampleSession, 9, run, tick, ordinal, inst⟩, ⟨9, tick, ⟨start, 0⟩, ⟨1, 0⟩, ⟨start + 1, 0⟩⟩, ∅, ⟨5, 0⟩⟩

def sampleTick : List InvokeStep := [sampleCall 0 0 0 "a" 0, sampleCall 0 0 2 "c" 0]

def sampleCalls : List InvokeStep :=
  [sampleCall 0 0 0 "a" 0, sampleCall 0 0 0 "a" 0, sampleCall 1 0 2 "c" 0, sampleCall 0 0 2 "c" 0,
    sampleCall 4 1 2 "c" 1, sampleCall 4 1 0 "a" 1]

theorem replay_guard_schedule_sample : ReplayGuard.new sampleBound sampleSchemas = .ok sampleGuard ∧
    (sampleGuard.serve sampleCalls).1 = sampleTick ++ [sampleCall 4 1 0 "a" 1] ∧
    (sampleCall 0 0 2 "c" 0).call.runSequence < (sampleCall 4 1 0 "a" 1).call.runSequence := by
  have hn : ReplayGuard.new sampleBound sampleSchemas = .ok sampleGuard := by decide +kernel
  have ht : (sampleGuard.serve sampleCalls).1 = sampleTick ++ [sampleCall 4 1 0 "a" 1] := by decide +kernel
  refine ⟨hn, ht, ?_⟩
  obtain ⟨-, hp, -⟩ := replay_guard_schedule hn sampleCalls
  rw [ht] at hp
  exact (hp 1 2 _ _ rfl rfl).2.2.2 (by decide)

lemma validate_interval {tick : WireTick} (h : tick.validate = .ok ()) :
    ∃ start dt end_, tick.start.duration = .ok start ∧
    tick.dt.duration = .ok dt ∧ tick.end_.duration = .ok end_ ∧ start.checkedAdd dt = some end_ ∧
      tick.index + 1 < U64 := by
  obtain ⟨dt, hdt, h⟩ := bind_ok.mp h
  obtain ⟨-, h⟩ := ensure_bind_ok.mp h
  obtain ⟨start, hst, h⟩ := bind_ok.mp h
  obtain ⟨end_, he, h⟩ := bind_ok.mp h
  obtain ⟨hs, h⟩ := ensure_bind_ok.mp h
  obtain ⟨next, hn, -⟩ := bind_ok.mp h
  rw [ofOption_ok, checkedAdd_some] at hn
  exact ⟨start, dt, end_, hst, hdt, he, hs, hn.1 ▸ hn.2⟩

def InvokeStep.SameInterval (x y : InvokeStep) : Prop :=
  x.tick.start.duration = y.tick.start.duration ∧ x.tick.dt.duration = y.tick.dt.duration ∧
    x.tick.end_.duration = y.tick.end_.duration

def PerTick (R : InvokeStep → InvokeStep → Prop) (taken : List InvokeStep) : Prop :=
  ∀ x ∈ taken, ∀ y ∈ taken, x.call.tickIndex = y.call.tickIndex → R x y

-- The end that the guard has recorded for this tick from the nodes already called in it.
def ReplayGuard.Agrees (guard : ReplayGuard) (invocation : InvokeStep) : Prop :=
  (guard.check invocation).isOk = true → ∀ (a : String) entry, guard.progress[a]? = some entry →
    entry.index = invocation.call.tickIndex + 1 → invocation.tick.end_.duration = .ok entry.time

def ReplayGuard.AllAgree : ReplayGuard → List InvokeStep → Prop
  | _, [] => True
  | guard, invocation :: rest => guard.Agrees invocation ∧ AllAgree (guard.reserve invocation).2 rest

def Recorded (taken : List InvokeStep) (guard : ReplayGuard) : Prop :=
  ∀ x ∈ taken, x.tick.validate = .ok () ∧ ∃ entry, guard.progress[x.call.inst]? = some entry ∧
    x.call.tickIndex < entry.index ∧ (entry.index = x.call.tickIndex + 1 → x.tick.end_.duration = .ok entry.time)

variable {x y : InvokeStep}

lemma Recorded.took (h : Recorded taken guard) (ha : Accepted guard invocation entry result) :
    Recorded (taken ++ [invocation]) (guard.took invocation entry result) := by
  intro x hx
  rw [took_progress]
  rcases mem_append.mp hx with hx | hx
  · obtain ⟨hv, e, he, hlt, hend⟩ := h x hx
    refine ⟨hv, ?_⟩
    split_ifs with hin
    · rw [← hin, ha.found] at he
      cases he
      exact ⟨_, rfl, Nat.lt_succ_of_lt hlt, fun heq => absurd (Nat.succ.inj heq) hlt.ne'⟩
    · exact ⟨e, he, hlt, hend⟩
  · cases mem_singleton.mp hx
    rw [if_pos rfl]
    exact ⟨ha.valid, _, rfl, by rw [ha.call]; exact Nat.lt_succ_self _, fun _ => ha.ended⟩

lemma sameInterval_of_ends (hx : x.tick.validate = .ok ()) (hy : y.tick.validate = .ok ())
    (hst : x.tick.start.duration = y.tick.start.duration) (hend : x.tick.end_.duration = y.tick.end_.duration) :
    x.SameInterval y := by
  refine ⟨hst, ?_, hend⟩
  obtain ⟨start, dt, end_, hs, hd, he, hsum, -⟩ := validate_interval hx
  obtain ⟨start', dt', end', hs', hd', he', hsum', -⟩ := validate_interval hy
  rw [hs, hs'] at hst
  rw [he, he'] at hend
  cases hst
  cases hend
  rw [Duration.checkedAdd_some] at hsum hsum'
  rw [hd, hd', Duration.ext (Nat.add_left_cancel (hsum.trans hsum'.symm))]

lemma PerTick.same_start (hp : PerTick InvokeStep.SameInterval taken) {before before' : List InvokeStep}
    (hb : before ⊆ taken) (hb' : before' ⊆ taken) (hx : Chained initial before x) (hy : Chained initial before' y)
    (ht : x.call.tickIndex = y.call.tickIndex) : x.tick.start.duration = y.tick.start.duration := by
  cases hk : y.call.tickIndex with
  | zero => rw [hx.fresh (ht.trans hk), hy.fresh hk]
  | succ k =>
    obtain ⟨x', hx', -, hxk, hxs⟩ := hx.next k (ht.trans hk)
    obtain ⟨y', hy', -, hyk, hys⟩ := hy.next k hk
    rw [hxs, hys]
    exact (hp x' (hb hx') y' (hb' hy') (hxk.trans hyk.symm)).2.2

-- The nodes of a tick start together, so only its end can differ from the one recorded.
lemma History.agrees_iff (h : History initial assigned taken runs guard) (hr : Recorded taken guard)
    (hp : PerTick InvokeStep.SameInterval taken) (ha : Accepted guard invocation entry result) :
    PerTick InvokeStep.SameInterval (taken ++ [invocation]) ↔ guard.Agrees invocation := by
  constructor
  · rintro hpt - a e he hidx
    obtain ⟨before, hm, -, htick, hend⟩ := h.timed.last a e _ he hidx
    rw [← hend]
    exact ((hpt before (mem_append_left _ hm) invocation (by simp) htick).2.2).symm
  · intro hag
    replace hag := hag (by rw [check_accepted ha]; rfl)
    obtain ⟨tick, position, hf⟩ := h.follows
    have hcall (x : InvokeStep) (hx : x ∈ taken) (ht : x.call.tickIndex = invocation.call.tickIndex) :
        x.SameInterval invocation := by
      obtain ⟨hv, e, he, hlt, hend⟩ := hr x hx
      obtain ⟨j, hj⟩ := mem_iff_getElem?.mp hx
      have hi : e.index = invocation.call.tickIndex + 1 := by
        have hidx := hf.index _ (mem_of_getElem? (h.placed j x hj).node) e he
        rw [ht, ha.call, hf.entry_index ha] at hlt
        rw [ha.call, hf.entry_index ha]
        split_ifs at hidx <;> omega
      refine sameInterval_of_ends hv ha.valid ?_ ?_
      · exact hp.same_start (take_subset j taken) (Subset.refl taken) (h.chained j x hj) (h.timed.chained ha) ht
      · rw [hend (hi.trans (congrArg (· + 1) ht.symm)), hag _ e he hi]
    intro x hx y hy ht
    rcases mem_append.mp hx with hx | hx <;> rcases mem_append.mp hy with hy | hy
    · exact hp x hx y hy ht
    · cases mem_singleton.mp hy
      exact hcall x hx ht
    · cases mem_singleton.mp hx
      obtain ⟨hs, hd, he⟩ := hcall y hy ht.symm
      exact ⟨hs.symm, hd.symm, he.symm⟩
    · cases mem_singleton.mp hx
      cases mem_singleton.mp hy
      exact ⟨rfl, rfl, rfl⟩

lemma reserve_accepted (ha : Accepted guard invocation entry result) :
    guard.reserve invocation = (.ok result, guard.took invocation entry result) := by
  obtain ⟨_, _, _, -, -, -, -, hlt⟩ := validate_interval ha.valid
  rw [ha.index] at hlt
  simp only [ReplayGuard.reserve, check_accepted ha, checkedAdd_some.mpr ⟨rfl, hlt⟩]
  rfl

lemma History.serve_agrees (h : History initial assigned taken runs guard) (hr : Recorded taken guard)
    (hp : PerTick InvokeStep.SameInterval taken) (calls : List InvokeStep) :
    PerTick InvokeStep.SameInterval (taken ++ (guard.serve calls).1) ↔ guard.AllAgree calls := by
  induction calls generalizing taken runs guard with
  | nil =>
    rw [ReplayGuard.serve, append_nil]
    exact iff_of_true hp trivial
  | cons invocation calls ih =>
    rw [ReplayGuard.AllAgree]
    cases hc : guard.check invocation with
    | error e =>
      have hres : guard.reserve invocation = (.error e, guard) := by rw [ReplayGuard.reserve, hc]
      have hag : guard.Agrees invocation := by
        rw [ReplayGuard.Agrees, hc]
        exact nofun
      rw [ReplayGuard.serve, hres]
      exact (ih h hr hp).trans (and_iff_right hag).symm
    | ok checked =>
      have ha := check_ok hc
      obtain ⟨runs', hn⟩ := h.took ha
      rw [ReplayGuard.serve, reserve_accepted ha, ← h.agrees_iff hr hp ha, append_cons]
      constructor
      · intro hall
        have hpt : PerTick InvokeStep.SameInterval (taken ++ [invocation]) :=
          fun x hx y hy => hall x (mem_append_left _ hx) y (mem_append_left _ hy)
        exact ⟨hpt, (ih hn (hr.took ha) hpt).mp hall⟩
      · rintro ⟨hpt, hrest⟩
        exact (ih hn (hr.took ha) hpt).mpr hrest

theorem one_interval_per_tick {bound : BoundSteps} {schemas : Map String StepSchema}
    (hnew : ReplayGuard.new bound schemas = .ok guard) (calls : List InvokeStep) :
    PerTick InvokeStep.SameInterval (guard.serve calls).1 ↔ guard.AllAgree calls := by
  obtain ⟨initial, -, h⟩ := new_history hnew
  exact h.serve_agrees (fun x hx => absurd hx not_mem_nil) (fun x hx => absurd hx not_mem_nil) calls

theorem one_interval_per_tick_sample : (sampleGuard.serve sampleTick).1 = sampleTick ∧
    sampleGuard.AllAgree sampleTick := by
  have hn : ReplayGuard.new sampleBound sampleSchemas = .ok sampleGuard := by decide +kernel
  have ht : (sampleGuard.serve sampleTick).1 = sampleTick := by decide +kernel
  refine ⟨ht, (one_interval_per_tick hn _).mp ?_⟩
  have hi : ∀ x ∈ sampleTick, x.tick = ⟨9, 0, ⟨0, 0⟩, ⟨1, 0⟩, ⟨1, 0⟩⟩ := by decide
  rw [ht]
  intro x hx y hy _
  rw [InvokeStep.SameInterval, hi x hx, hi y hy]
  exact ⟨rfl, rfl, rfl⟩

def longCall : InvokeStep := { sampleCall 0 0 2 "c" 0 with tick := ⟨9, 0, ⟨0, 0⟩, ⟨2, 0⟩, ⟨2, 0⟩⟩ }

theorem two_intervals_in_a_tick : (sampleGuard.serve [sampleCall 0 0 0 "a" 0, longCall]).1 =
      [sampleCall 0 0 0 "a" 0, longCall] ∧
    ¬ PerTick InvokeStep.SameInterval [sampleCall 0 0 0 "a" 0, longCall] := by
  refine ⟨by decide +kernel, fun h => ?_⟩
  obtain ⟨-, hdt, -⟩ := h _ mem_cons_self _ (mem_cons_of_mem _ mem_cons_self) rfl
  exact absurd hdt (by decide)

end Reiny.Process
