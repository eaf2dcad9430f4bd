import Reiny.Engine.Routed
import Reiny.Lib.Machine

namespace Reiny.Engine.Bridge

open Std Lib List Machine

inductive Fabric
  | left | right
deriving DecidableEq

def Fabric.other : Fabric → Fabric
  | .left => .right
  | .right => .left

inductive Origin
  | participant | bridge
deriving DecidableEq

structure Event where
  presence : Presence
  origin : Origin
deriving DecidableEq

inductive Stage
  | idle
  | injecting (key : Key) (origin : Origin)
  | declaring (key : Key) (origin : Origin)
  | withdrawing (key : Key)
deriving DecidableEq

/-- The flow from one engine to the other, with the tokens of participants and the events still to be handed to it. -/
structure Flow where
  present : List Key := []
  events : List Event := []
  tokens : List Key := []
  stops : List Key := []
  injected : ExtTreeMap String ℕ := ∅
  stage : Stage := .idle

inductive Verdict
  | pass
  | inject (key : Key)
  | withdraw (key : Key)

def watched (domain : String) (key : Key) : Bool :=
  (Key.launch domain none).matches key || (Key.module domain none READY_CHUNK).matches key

def judge (id : String) (echoes : ExtTreeMap String ℕ) (tokens : List Key) (presence : Presence) : Verdict :=
  match presence.key.source with
  | none => .pass
  | some source =>
    if source = id ∨ source ∈ echoes then .pass
    else
      match presence with
      | .joined key => if key ∈ tokens then .pass else .inject key
      | .left key => if key ∈ tokens then .withdraw key else .pass

def addInjected (injected : ExtTreeMap String ℕ) (source : String) : ExtTreeMap String ℕ :=
  injected.insert source (injected[source]?.getD 0 + 1)

def removeInjected (injected : ExtTreeMap String ℕ) (source : String) : ExtTreeMap String ℕ :=
  match injected[source]? with
  | none => injected
  | some count => if count - 1 = 0 then injected.erase source else injected.insert source (count - 1)

inductive Move
  | join (side : Fabric) (key : Key)
  | leave (side : Fabric) (key : Key)
  | take (side : Fabric)
  | count (side : Fabric)
  | declare (side : Fabric) (accepted routed : Bool)
  | finish (side : Fabric)

inductive Report
  | quiet
  | injects (side : Fabric) (key : Key) (origin : Origin)
  | declares (side : Fabric) (key : Key) (origin : Origin)
deriving DecidableEq

abbrev Flows := Fabric → Flow

def Flows.put (flows : Flows) (side : Fabric) (flow : Flow) : Flows := Function.update flows side flow

def Flows.notify (flows : Flows) (side : Fabric) (presence : Presence) : Flows :=
  flows.put side { flows side with events := (flows side).events ++ [⟨presence, .bridge⟩] }

def step (id domain : String) (flows : Flows) : Move → Option (Report × Flows)
  | .join side key =>
    let flow := flows side
    if watched domain key then
      some (.quiet, flows.put side { flow with
        present := key :: flow.present, events := flow.events ++ [⟨.joined key, .participant⟩] })
    else none
  | .leave side key =>
    let flow := flows side
    if key ∈ flow.present then
      some (.quiet, flows.put side { flow with
        present := flow.present.erase key, events := flow.events ++ [⟨.left key, .participant⟩] })
    else none
  | .take side =>
    let flow := flows side
    match flow.stage, flow.events with
    | .idle, event :: rest =>
      match judge id (flows side.other).injected flow.tokens event.presence with
      | .pass => some (.quiet, flows.put side { flow with events := rest })
      | .inject key =>
        some (.injects side key event.origin,
          flows.put side { flow with events := rest, stage := .injecting key event.origin })
      | .withdraw key =>
        -- the guard is dropped before the counter goes down
        some (.quiet, (flows.put side { flow with
          events := rest, tokens := flow.tokens.erase key, stage := .withdrawing key }).notify
            side.other (.left key))
    | _, _ => none
  | .count side =>
    let flow := flows side
    match flow.stage with
    | .injecting key origin =>
      some (.quiet, flows.put side { flow with
        injected := addInjected flow.injected (key.source.getD ""), stage := .declaring key origin })
    | _ => none
  | .declare side accepted routed =>
    let flow := flows side
    match flow.stage with
    | .declaring key origin =>
      if accepted then
        some (.declares side key origin, (flows.put side { flow with
          tokens := key :: flow.tokens,
          stops := if key.ty = some LAUNCH_CHUNK ∧ routed = true then key :: flow.stops else flow.stops,
          stage := .idle }).notify side.other (.joined key))
      else
        some (.quiet, flows.put side { flow with
          injected := removeInjected flow.injected (key.source.getD ""), stage := .idle })
    | _ => none
  | .finish side =>
    let flow := flows side
    match flow.stage with
    | .withdrawing key =>
      some (.quiet, flows.put side { flow with
        injected := key.source.elim flow.injected (removeInjected flow.injected),
        stops := flow.stops.erase key, stage := .idle })
    | _ => none

def start : Flows := fun _ => {}

variable {injected : ExtTreeMap String ℕ} {source other : String}

def Positive (injected : ExtTreeMap String ℕ) : Prop := ∀ source : String, injected[source]? ≠ some 0

lemma addInjected_get : (addInjected injected source)[other]?.getD 0 =
    injected[other]?.getD 0 + if source = other then 1 else 0 := by
  rw [addInjected, ExtTreeMap.getElem?_insert]
  by_cases h : source = other
  · subst h
    simp
  · simp [h]

lemma addInjected_positive (h : Positive injected) : Positive (addInjected injected source) := by
  intro other
  rw [addInjected, ExtTreeMap.getElem?_insert]
  split
  · exact nofun
  · exact h other

lemma removeInjected_get : (removeInjected injected source)[other]?.getD 0 =
    injected[other]?.getD 0 - if source = other then 1 else 0 := by
  unfold removeInjected
  cases hg : injected[source]? with
  | none =>
    by_cases h : source = other
    · subst h
      simp [hg]
    · simp [h]
  | some count =>
    dsimp only
    by_cases h : source = other
    · subst h
      rw [hg, if_pos rfl, Option.getD_some]
      by_cases hz : count - 1 = 0
      · rw [if_pos hz, ExtTreeMap.getElem?_erase_self, hz, Option.getD_none]
      · rw [if_neg hz, ExtTreeMap.getElem?_insert_self, Option.getD_some]
    · have hne : ¬ compare source other = .eq := fun heq => h (LawfulEqOrd.compare_eq_iff_eq.mp heq)
      rw [if_neg h, Nat.sub_zero]
      by_cases hz : count - 1 = 0
      · rw [if_pos hz, ExtTreeMap.getElem?_erase, if_neg hne]
      · rw [if_neg hz, ExtTreeMap.getElem?_insert, if_neg hne]

lemma removeInjected_positive (h : Positive injected) : Positive (removeInjected injected source) := by
  intro other
  unfold removeInjected
  split
  · exact h other
  · split_ifs with hz
    · rw [ExtTreeMap.getElem?_erase]
      split
      · exact nofun
      · exact h other
    · rw [ExtTreeMap.getElem?_insert]
      split
      · intro heq
        exact hz (Option.some.inj heq)
      · exact h other

lemma mem_injected (h : Positive injected) : source ∈ injected ↔ 0 < injected[source]?.getD 0 := by
  rw [ExtTreeMap.mem_iff_isSome_getElem?]
  cases hg : injected[source]? with
  | none => simp
  | some count =>
    have hne : count ≠ 0 := by
      rintro rfl
      exact h source hg
    simp
    omega

@[simp] def Stage.counted : Stage → Option Key
  | .declaring key _ | .withdrawing key => some key
  | .idle | .injecting _ _ => none

@[simp] def Stage.coming : Stage → Option (Key × Origin)
  | .injecting key origin | .declaring key origin => some (key, origin)
  | .idle | .withdrawing _ => none

def Covers (flow : Flow) (source : String) : Prop :=
  (∃ key ∈ flow.tokens, key.source = some source) ∨ ∃ key, flow.stage.counted = some key ∧ key.source = some source

def load (flow : Flow) (source : String) : ℕ :=
  flow.tokens.countP (·.source = some source) + (flow.stage.counted.toList).countP (·.source = some source)

lemma covers_iff {flow : Flow} {source : String} : Covers flow source ↔ 0 < load flow source := by
  rw [Covers, load, Nat.add_pos_iff_pos_or_pos, countP_pos_iff, countP_pos_iff]
  simp only [decide_eq_true_eq, Option.mem_toList]

def Foreign (id : String) (key : Key) : Prop := ∃ source, key.source = some source ∧ source ≠ id

structure Flow.Sound (id : String) (flow : Flow) : Prop where
  tally : ∀ source, flow.injected[source]?.getD 0 = load flow source
  positive : Positive flow.injected
  tokens : ∀ key ∈ flow.tokens, Foreign id key
  counted : ∀ key, flow.stage.counted = some key → Foreign id key
  coming : ∀ key origin, flow.stage.coming = some (key, origin) → Foreign id key ∧ key ∉ flow.tokens
  ours : ∀ event ∈ flow.events, event.origin = .bridge → Foreign id event.presence.key
  nodup : flow.tokens.Nodup

variable {id domain : String} {flow : Flow} {flows next : Flows} {report : Report} {move : Move} {side : Fabric}
  {key : Key} {presence : Presence} {event : Event} {rest : List Event} {origin : Origin}
  {echoes : ExtTreeMap String ℕ}
  {tokens : List Key}

lemma Flow.Sound.covers (h : flow.Sound id) : source ∈ flow.injected ↔ Covers flow source := by
  rw [mem_injected h.positive, h.tally, covers_iff]

lemma judge_pass (hk : presence.key.source = some source) (hid : source ≠ id)
    (h : judge id echoes tokens presence = .pass) :
    source ∈ echoes ∨ presence = .joined presence.key ∧ presence.key ∈ tokens ∨
      presence = .left presence.key ∧ presence.key ∉ tokens := by
  unfold judge at h
  rw [hk] at h
  dsimp only at h
  split_ifs at h with hs
  · exact .inl (hs.resolve_left hid)
  · cases presence with
    | joined key =>
      dsimp only at h
      split_ifs at h with hm
      exact .inr (.inl ⟨rfl, hm⟩)
    | left key =>
      dsimp only at h
      split_ifs at h with hm
      exact .inr (.inr ⟨rfl, hm⟩)

lemma judge_inject (h : judge id echoes tokens presence = .inject key) :
    presence = .joined key ∧ key ∉ tokens ∧ ∃ source, key.source = some source ∧ source ≠ id ∧ source ∉ echoes := by
  unfold judge at h
  split at h
  · cases h
  · rename_i source hsrc
    split_ifs at h with hs
    obtain ⟨hid, he⟩ := not_or.mp hs
    cases presence with
    | joined other =>
      dsimp only at h
      split_ifs at h with hm
      cases h
      exact ⟨rfl, hm, source, hsrc, hid, he⟩
    | left other =>
      dsimp only at h
      split_ifs at h

lemma judge_withdraw (h : judge id echoes tokens presence = .withdraw key) :
    presence = .left key ∧ key ∈ tokens := by
  unfold judge at h
  split at h
  · cases h
  · split_ifs at h
    cases presence with
    | joined other =>
      dsimp only at h
      split_ifs at h
    | left other =>
      dsimp only at h
      split_ifs at h with hm
      cases h
      exact ⟨rfl, hm⟩

inductive Moved (id : String) (flows : Flows) : Move → Report → Flows → Prop
  | join {side : Fabric} {key : Key} : Moved id flows (.join side key) .quiet (flows.put side { flows side with
      present := key :: (flows side).present, events := (flows side).events ++ [⟨.joined key, .participant⟩] })
  | leave {side : Fabric} {key : Key} : Moved id flows (.leave side key) .quiet (flows.put side { flows side with
      present := (flows side).present.erase key, events := (flows side).events ++ [⟨.left key, .participant⟩] })
  | pass {side : Fabric} {event : Event} {rest : List Event} (hidle : (flows side).stage = .idle)
      (hevents : (flows side).events = event :: rest)
      (hjudge : judge id (flows side.other).injected (flows side).tokens event.presence = .pass) :
      Moved id flows (.take side) .quiet (flows.put side { flows side with events := rest })
  | inject {side : Fabric} {event : Event} {rest : List Event} {key : Key} (hidle : (flows side).stage = .idle)
      (hevents : (flows side).events = event :: rest)
      (hjudge : judge id (flows side.other).injected (flows side).tokens event.presence = .inject key) :
      Moved id flows (.take side) (.injects side key event.origin)
        (flows.put side { flows side with events := rest, stage := .injecting key event.origin })
  | withdraw {side : Fabric} {event : Event} {rest : List Event} {key : Key} (hidle : (flows side).stage = .idle)
      (hevents : (flows side).events = event :: rest)
      (hjudge : judge id (flows side.other).injected (flows side).tokens event.presence = .withdraw key) :
      Moved id flows (.take side) .quiet ((flows.put side { flows side with
        events := rest, tokens := (flows side).tokens.erase key, stage := .withdrawing key }).notify side.other
          (.left key))
  | count {side : Fabric} {key : Key} {origin : Origin} (hstage : (flows side).stage = .injecting key origin) :
      Moved id flows (.count side) .quiet (flows.put side { flows side with
        injected := addInjected (flows side).injected (key.source.getD ""), stage := .declaring key origin })
  | declare {side : Fabric} {routed : Bool} {key : Key} {origin : Origin} (stops : List Key)
      (hstage : (flows side).stage = .declaring key origin) :
      Moved id flows (.declare side true routed) (.declares side key origin) ((flows.put side { flows side with
        tokens := key :: (flows side).tokens, stops := stops, stage := .idle }).notify side.other (.joined key))
  | refuse {side : Fabric} {routed : Bool} {key : Key} {origin : Origin}
      (hstage : (flows side).stage = .declaring key origin) :
      Moved id flows (.declare side false routed) .quiet (flows.put side { flows side with
        injected := removeInjected (flows side).injected (key.source.getD ""), stage := .idle })
  | finish {side : Fabric} {key : Key} (hstage : (flows side).stage = .withdrawing key) :
      Moved id flows (.finish side) .quiet (flows.put side { flows side with
        injected := key.source.elim (flows side).injected (removeInjected (flows side).injected),
        stops := (flows side).stops.erase key, stage := .idle })

lemma step_moved (h : step id domain flows move = some (report, next)) : Moved id flows move report next := by
  cases move with
  | join side key =>
    simp only [step] at h
    split_ifs at h
    cases h
    exact .join
  | leave side key =>
    simp only [step] at h
    split_ifs at h
    cases h
    exact .leave
  | take side =>
    simp only [step] at h
    split at h
    · rename_i event rest hid he
      split at h
      · rename_i hj
        cases h
        exact .pass hid he hj
      · rename_i key hj
        cases h
        exact .inject hid he hj
      · rename_i key hj
        cases h
        exact .withdraw hid he hj
    · cases h
  | count side =>
    simp only [step] at h
    split at h
    · rename_i key origin hst
      cases h
      exact .count hst
    · cases h
  | declare side accepted routed =>
    simp only [step] at h
    split at h
    · rename_i key origin hst
      cases accepted with
      | true =>
        rw [if_pos rfl] at h
        cases h
        exact .declare _ hst
      | false =>
        rw [if_neg (by decide)] at h
        cases h
        exact .refuse hst
    · cases h
  | finish side =>
    simp only [step] at h
    split at h
    · rename_i key hst
      cases h
      exact .finish hst
    · cases h

lemma put_each {P : Flow → Prop} (h : ∀ s, P (flows s)) (hf : P flow) : ∀ s, P (flows.put side flow s) := by
  intro s
  by_cases hs : s = side
  · subst hs
    rw [Flows.put, Function.update_self]
    exact hf
  · rw [Flows.put, Function.update_of_ne hs]
    exact h s

lemma Flow.Sound.append (h : flow.Sound id) (hev : event.origin = .bridge → Foreign id event.presence.key)
    (present : List Key) :
    ({ flow with present := present, events := flow.events ++ [event] } : Flow).Sound id where
  tally := h.tally
  positive := h.positive
  tokens := h.tokens
  counted := h.counted
  coming := h.coming
  ours := by
    intro other ho
    rcases mem_append.mp ho with ho | ho
    · exact h.ours other ho
    · rw [mem_singleton.mp ho]
      exact hev
  nodup := h.nodup

lemma notify_sound (h : ∀ s, (flows s).Sound id) (hk : Foreign id presence.key) :
    ∀ s, (flows.notify side presence s).Sound id :=
  put_each h ((h side).append (fun _ => hk) (flows side).present)

lemma Moved.sound (h : Moved id flows move report next) (hs : ∀ s, (flows s).Sound id) :
    ∀ s, (next s).Sound id := by
  cases h with
  | @join side key | @leave side key =>
    refine put_each hs ((hs side).append ?_ _)
    simp
  | @pass side event rest hidle he hj =>
    have hfl := hs side
    refine put_each hs ⟨hfl.tally, hfl.positive, hfl.tokens, hfl.counted, hfl.coming, ?_, hfl.nodup⟩
    intro other ho
    exact hfl.ours other (by rw [he]; exact mem_cons_of_mem _ ho)
  | @inject side event rest key hidle he hj =>
    have hfl := hs side
    obtain ⟨-, hfr, source, hsrc, hid, -⟩ := judge_inject hj
    refine put_each hs ⟨?_, hfl.positive, hfl.tokens, by simp, ?_, ?_, hfl.nodup⟩
    · intro other
      have ht := hfl.tally other
      rw [load, hidle] at ht
      exact ht
    · rintro _ _ ⟨rfl, rfl⟩
      exact ⟨⟨source, hsrc, hid⟩, hfr⟩
    · intro other ho
      exact hfl.ours other (by rw [he]; exact mem_cons_of_mem _ ho)
  | @withdraw side event rest key hidle he hj =>
    have hfl := hs side
    obtain ⟨-, hm⟩ := judge_withdraw hj
    have hf := hfl.tokens key hm
    refine notify_sound (put_each hs ⟨?_, hfl.positive, ?_, ?_, by simp, ?_, hfl.nodup.erase key⟩) hf
    · intro other
      have ht := hfl.tally other
      rw [load, hidle] at ht
      rw [ht, load, List.Perm.countP_eq _ (perm_cons_erase hm), countP_cons]
      simp [countP_cons]
    · intro other ho
      exact hfl.tokens other (mem_of_mem_erase ho)
    · rintro _ ⟨rfl⟩
      exact hf
    · intro other ho
      exact hfl.ours other (by rw [he]; exact mem_cons_of_mem _ ho)
  | @count side key origin hst =>
    have hfl := hs side
    obtain ⟨hf, hfr⟩ := hfl.coming key origin (by rw [hst]; rfl)
    obtain ⟨source, hsrc, hid⟩ := hf
    refine put_each hs ⟨?_, addInjected_positive hfl.positive, hfl.tokens, ?_, ?_, hfl.ours, hfl.nodup⟩
    · intro other
      have ht := hfl.tally other
      rw [load, hst] at ht
      rw [hsrc, Option.getD_some, addInjected_get, ht, load]
      simp [countP_cons, hsrc]
    · rintro _ ⟨rfl⟩
      exact ⟨source, hsrc, hid⟩
    · rintro _ _ ⟨rfl, rfl⟩
      exact ⟨⟨source, hsrc, hid⟩, hfr⟩
  | @declare side routed key origin stops hst =>
    have hfl := hs side
    obtain ⟨hf, hfr⟩ := hfl.coming key origin (by rw [hst]; rfl)
    refine notify_sound (put_each hs ⟨?_, hfl.positive, ?_, by simp, by simp, hfl.ours,
      nodup_cons.mpr ⟨hfr, hfl.nodup⟩⟩) hf
    · intro other
      have ht := hfl.tally other
      rw [load, hst] at ht
      rw [ht, load]
      simp [countP_cons]
    · intro other ho
      rcases mem_cons.mp ho with rfl | ho
      · exact hf
      · exact hfl.tokens other ho
  | @refuse side routed key origin hst =>
    have hfl := hs side
    obtain ⟨source, hsrc, hid⟩ := hfl.counted key (by rw [hst]; rfl)
    refine put_each hs ⟨?_, removeInjected_positive hfl.positive, hfl.tokens, by simp, by simp, hfl.ours,
      hfl.nodup⟩
    intro other
    have ht := hfl.tally other
    rw [load, hst] at ht
    rw [hsrc, Option.getD_some, removeInjected_get, ht, load]
    simp [countP_cons, hsrc]
  | @finish side key hst =>
    have hfl := hs side
    obtain ⟨source, hsrc, hid⟩ := hfl.counted key (by rw [hst]; rfl)
    refine put_each hs ⟨?_, ?_, hfl.tokens, by simp, by simp, hfl.ours, hfl.nodup⟩
    · intro other
      have ht := hfl.tally other
      rw [load, hst] at ht
      rw [hsrc, Option.elim_some, removeInjected_get, ht, load]
      simp [countP_cons, hsrc]
    · rw [hsrc, Option.elim_some]
      exact removeInjected_positive hfl.positive

lemma start_sound : ∀ s, (start s).Sound id := by
  intro s
  refine ⟨?_, ?_, by simp [start], by simp [start], by simp [start], by simp [start], nodup_nil⟩
  · intro source
    rfl
  · intro source
    exact nofun

variable {last : Flows} {reports : List Report} {moves : List Move}

/-- If the next event of a flow is that a token of the bridge joined, the flow that declared it still has a token of
that source, or the flow itself has one of that key. -/
def CoveredAt (flows : Flows) (side : Fabric) : Prop :=
  ∀ key rest, (flows side).events = ⟨.joined key, .bridge⟩ :: rest →
    (∃ source, key.source = some source ∧ Covers (flows side.other) source) ∨ key ∈ (flows side).tokens

/-- If the next event of a flow is that a key left of which the flow has a token, the key is there again, or a later
Left of it is queued, or the other flow has no token of its source. -/
def LeftAt (flows : Flows) (side : Fabric) : Prop :=
  ∀ key origin rest, (flows side).events = ⟨.left key, origin⟩ :: rest → key ∈ (flows side).tokens →
    key ∈ (flows side).present ∨ (∃ origin, ⟨.left key, origin⟩ ∈ rest) ∨
      ∀ source, key.source = some source → ¬ Covers (flows side.other) source

def AtTakes (id domain : String) (P : Flows → Fabric → Prop) : Flows → List Move → Prop :=
  Along (step id domain) fun flows move => ∀ side, move = some (.take side) → P flows side

def Report.fair : Report → Prop
  | .quiet => True
  | .injects _ _ origin | .declares _ _ origin => origin = .participant

def NoEcho (reports : List Report) : Prop := ∀ report ∈ reports, report.fair

def Flow.Honest (flow : Flow) : Prop := ∀ key origin, flow.stage.coming = some (key, origin) → origin = .participant

lemma Moved.honest (h : Moved id flows move report next) (hh : ∀ s, (flows s).Honest) (hf : report.fair) :
    ∀ s, (next s).Honest := by
  have hn : ∀ {flows : Flows} {side : Fabric} {presence : Presence}, (∀ s, (flows s).Honest) →
      ∀ s, (flows.notify side presence s).Honest := fun h => put_each h (h _)
  cases h with
  | join | leave | pass => exact put_each hh (hh _)
  | refuse | finish => exact put_each hh (by simp [Flow.Honest])
  | withdraw | declare => exact hn (put_each hh (by simp [Flow.Honest]))
  | inject =>
    refine put_each hh ?_
    rintro _ _ ⟨rfl, rfl⟩
    exact hf
  | @count side key origin hst =>
    refine put_each hh ?_
    rintro _ _ ⟨rfl, rfl⟩
    exact hh side key origin (by rw [hst]; rfl)

lemma Moved.fair_iff (h : Moved id flows move report next) (hs : ∀ s, (flows s).Sound id)
    (hh : ∀ s, (flows s).Honest) : report.fair ↔ ∀ side, some move = some (.take side) → CoveredAt flows side := by
  cases h with
  | join | leave | count | refuse | finish => exact ⟨fun _ => nofun, fun _ => trivial⟩
  | @declare side routed key origin stops hst =>
    refine ⟨fun _ => nofun, fun _ => ?_⟩
    exact hh side key origin (by rw [hst]; rfl)
  | @pass side event rest hidle hevs hj =>
    refine ⟨fun _ => ?_, fun _ => trivial⟩
    rintro _ ⟨rfl⟩ key rest' he'
    rw [hevs] at he'
    cases he'
    obtain ⟨source, hsrc, hid⟩ := (hs side).ours _ (by rw [hevs]; exact mem_cons_self) rfl
    rcases judge_pass hsrc hid hj with he | ⟨-, hm⟩ | ⟨heq, -⟩
    · exact .inl ⟨source, hsrc, (hs side.other).covers.mp he⟩
    · exact .inr hm
    · cases heq
  | @inject side event rest key hidle hevs hj =>
    obtain ⟨hp, hfr, source, hsrc, hid, he⟩ := judge_inject hj
    obtain ⟨presence, origin⟩ := event
    cases hp
    constructor
    · rintro hf _ ⟨rfl⟩ other rest' he'
      rw [hevs] at he'
      cases he'
      cases hf
    · intro hc
      cases origin with
      | participant => rfl
      | bridge =>
        rcases hc side rfl key rest hevs with ⟨source', hs', hco⟩ | hm
        · rw [hsrc] at hs'
          cases hs'
          exact absurd ((hs side.other).covers.mpr hco) he
        · exact absurd hm hfr
  | @withdraw side event rest key hidle hevs hj =>
    refine ⟨fun _ => ?_, fun _ => trivial⟩
    rintro _ ⟨rfl⟩ other rest' he'
    obtain ⟨hp, -⟩ := judge_withdraw hj
    rw [hevs] at he'
    cases he'
    cases hp

lemma noEcho_iff (hs : ∀ s, (flows s).Sound id) (hh : ∀ s, (flows s).Honest)
    (hrun : run (step id domain) flows moves = some (reports, last)) :
    NoEcho reports ↔ AtTakes id domain CoveredAt flows moves := by
  induction moves generalizing flows reports with
  | nil =>
    cases hrun
    exact ⟨fun _ => along_nil.mpr (by simp), by simp [NoEcho]⟩
  | cons move moves ih =>
    obtain ⟨report, next, rest, hst, hr, rfl⟩ := run_cons.mp hrun
    have hm := step_moved hst
    rw [AtTakes, along_cons hst, NoEcho, forall_mem_cons, hm.fair_iff hs hh]
    refine and_congr_right fun hc => ?_
    have hf := (hm.fair_iff hs hh).mpr hc
    exact ih (hm.sound hs) (hm.honest hh hf) hr

structure Flow.Backed (flow : Flow) : Prop where
  kept : ∀ key, (key ∈ flow.tokens ∨ ∃ origin, flow.stage.coming = some (key, origin)) →
    key ∈ flow.present ∨ ∃ origin, ⟨.left key, origin⟩ ∈ flow.events
  queued : ∀ before key after, flow.events = before ++ ⟨.joined key, .participant⟩ :: after →
    key ∈ flow.present ∨ ∃ origin, ⟨.left key, origin⟩ ∈ after

lemma Flow.Backed.append (h : flow.Backed) {present : List Key}
    (hp : ∀ key ∈ flow.present, key ∈ present ∨ event.presence = .left key)
    (hev : ∀ key, event = ⟨.joined key, .participant⟩ → key ∈ present) :
    ({ flow with present := present, events := flow.events ++ [event] } : Flow).Backed := by
  refine ⟨?_, ?_⟩
  · intro key hk
    rcases h.kept key hk with hm | ⟨origin, hm⟩
    · refine (hp key hm).imp_right fun heq => ⟨event.origin, ?_⟩
      rw [← heq]
      exact mem_append_right _ mem_cons_self
    · exact .inr ⟨origin, mem_append_left _ hm⟩
  · intro before key after heq
    rcases eq_nil_or_concat after with rfl | ⟨after, last, rfl⟩
    · obtain ⟨-, hl⟩ := append_inj' heq rfl
      exact .inl (hev key (List.cons.inj hl).1)
    · rw [concat_eq_append, ← cons_append, ← append_assoc] at heq
      obtain ⟨he, hl⟩ := append_inj' heq rfl
      cases hl
      rcases h.queued before key after he with hm | ⟨origin, hm⟩
      · refine (hp key hm).imp_right fun heq => ⟨event.origin, ?_⟩
        rw [← heq, concat_eq_append]
        exact mem_append_right _ mem_cons_self
      · rw [concat_eq_append]
        exact .inr ⟨origin, mem_append_left _ hm⟩

variable {stage : Stage}

lemma Flow.Backed.pop (h : flow.Backed) (he : flow.events = event :: rest) {tokens : List Key}
    (ht : ∀ key ∈ tokens, key ∈ flow.tokens ∧
      (event.presence = .left key → key ∈ flow.present ∨ ∃ origin, ⟨.left key, origin⟩ ∈ rest))
    (hc : ∀ key origin, stage.coming = some (key, origin) →
      key ∈ flow.present ∨ ∃ origin, ⟨.left key, origin⟩ ∈ rest) :
    ({ flow with events := rest, tokens := tokens, stage := stage } : Flow).Backed := by
  refine ⟨?_, ?_⟩
  · rintro key (hk | ⟨origin, hk⟩)
    · obtain ⟨hm, hleft⟩ := ht key hk
      rcases h.kept key (Or.inl hm) with hp | ⟨origin, hl⟩
      · exact .inl hp
      · rw [he] at hl
        rcases mem_cons.mp hl with rfl | hl
        · exact hleft rfl
        · exact .inr ⟨origin, hl⟩
    · exact hc key origin hk
  · intro before key after heq
    refine h.queued (event :: before) key after ?_
    dsimp only at heq
    rw [he, heq, cons_append]

lemma Moved.backed (h : Moved id flows move report next) (hs : ∀ s, (flows s).Sound id)
    (hl : ∀ side, some move = some (.take side) → LeftAt flows side) (hb : ∀ s, (flows s).Backed)
    (hf : report.fair) :
    ∀ s, (next s).Backed := by
  have hn : ∀ {flows : Flows} {side : Fabric} {presence : Presence}, (∀ s, (flows s).Backed) →
      ∀ s, (flows.notify side presence s).Backed := by
    intro flows side presence h
    refine put_each h ((h side).append (fun key hk => Or.inl hk) ?_)
    simp
  have hidle_coming : ∀ {key : Key} {origin : Origin}, ¬ Stage.idle.coming = some (key, origin) := by simp
  cases h with
  | @join side key =>
    refine put_each hb ((hb side).append (fun other ho => Or.inl (mem_cons_of_mem _ ho)) ?_)
    rintro _ ⟨rfl⟩
    exact mem_cons_self
  | @leave side key =>
    refine put_each hb ((hb side).append (fun other ho => ?_) (by simp))
    by_cases ho' : other = key
    · exact .inr (by rw [ho'])
    · exact .inl ((mem_erase_of_ne ho').mpr ho)
  | @pass side event rest hidle hevs hj =>
    refine put_each hb ((hb side).pop hevs (fun key hk => ⟨hk, fun hleft => ?_⟩) ?_)
    · -- a Left of a token that is held is passed over only for a source that the other flow covers
      obtain ⟨presence, origin⟩ := event
      cases hleft
      obtain ⟨source, hsrc, hid⟩ := (hs side).tokens key hk
      have hco : Covers (flows side.other) source := by
        rcases judge_pass (show (Presence.left key).key.source = some source from hsrc) hid hj with
          he | ⟨heq, -⟩ | ⟨-, hfr⟩
        · exact (hs side.other).covers.mp he
        · cases heq
        · exact absurd hk hfr
      exact (hl side rfl key origin rest hevs hk).imp_right fun h => h.resolve_right fun hn => hn source hsrc hco
    · intro key origin hcoming
      rw [hidle] at hcoming
      exact absurd hcoming hidle_coming
  | @inject side event rest key hidle hevs hj =>
    obtain ⟨hp, -, -⟩ := judge_inject hj
    obtain ⟨presence, origin⟩ := event
    cases hp
    cases hf
    refine put_each hb ((hb side).pop hevs (fun other ho => ⟨ho, nofun⟩) ?_)
    rintro _ _ ⟨rfl, rfl⟩
    exact (hb side).queued [] key rest hevs
  | @withdraw side event rest key hidle hevs hj =>
    obtain ⟨hp, hm⟩ := judge_withdraw hj
    refine hn (put_each hb ((hb side).pop hevs (fun other ho => ?_) (by simp)))
    refine ⟨mem_of_mem_erase ho, ?_⟩
    rw [hp]
    rintro ⟨rfl⟩
    exact absurd ho (hs side).nodup.not_mem_erase
  | @count side key origin hst =>
    refine put_each hb ⟨fun other ho => (hb side).kept other ?_, (hb side).queued⟩
    rw [hst]
    exact ho
  | @declare side routed key origin stops hst =>
    refine hn (put_each hb ⟨fun other ho => (hb side).kept other ?_, (hb side).queued⟩)
    rw [hst]
    rcases ho with ho | ⟨_, hcoming⟩
    · rcases mem_cons.mp ho with rfl | ho
      · exact .inr ⟨origin, rfl⟩
      · exact .inl ho
    · exact absurd hcoming hidle_coming
  | @refuse side routed key origin hst | @finish side key hst =>
    refine put_each hb ⟨fun other ho => (hb side).kept other ?_, (hb side).queued⟩
    rcases ho with ho | ⟨_, hcoming⟩
    · exact .inl ho
    · exact absurd hcoming hidle_coming

def Lasting (flows : Flows) : Prop :=
  ∀ side, ∀ key ∈ (flows side).tokens, key ∈ (flows side).present ∨
    ∃ origin, ⟨.left key, origin⟩ ∈ (flows side).events

def AtStates (id domain : String) (P : Flows → Prop) : Flows → List Move → Prop :=
  Along (step id domain) fun flows _ => P flows

lemma lasting_of_backed (h : ∀ s, (flows s).Backed) : Lasting flows :=
  fun side key hk => (h side).kept key (Or.inl hk)

lemma Moved.leftAt (h : Moved id flows move report next) (hs : ∀ s, (flows s).Sound id) (hl : Lasting next) :
    ∀ side, some move = some (.take side) → LeftAt flows side := by
  rintro side ⟨⟩ key origin rest' he' hk
  by_contra! hn
  obtain ⟨hnp, hnl, source, hsrc, hco⟩ := hn
  have hin := (hs side.other).covers.mpr hco
  -- the event is passed over, and the token is left with nothing behind it
  cases h with
  | @pass _ event rest hidle hevs hj =>
    rw [hevs] at he'
    cases he'
    have hls := hl side
    rw [Flows.put, Function.update_self] at hls
    rcases hls key hk with hp | ⟨origin, hm⟩
    · exact hnp hp
    · exact hnl origin hm
  | @inject _ event rest other hidle hevs hj =>
    rw [hevs] at he'
    cases he'
    cases (judge_inject hj).1
  | @withdraw _ event rest other hidle hevs hj =>
    rw [hevs] at he'
    cases he'
    have hp : judge id (flows side.other).injected (flows side).tokens (.left key) = .pass := by
      simp [judge, Presence.key, hsrc, hin]
    rw [hp] at hj
    cases hj

lemma lasting_iff (hs : ∀ s, (flows s).Sound id) (hh : ∀ s, (flows s).Honest) (hb : ∀ s, (flows s).Backed)
    (hrun : run (step id domain) flows moves = some (reports, last)) :
    NoEcho reports ∧ AtStates id domain Lasting flows moves ↔
      AtTakes id domain (fun flows side => CoveredAt flows side ∧ LeftAt flows side) flows moves := by
  induction moves generalizing flows reports with
  | nil =>
    cases hrun
    exact ⟨fun _ => along_nil.mpr (by simp), fun _ => ⟨by simp [NoEcho], along_nil.mpr (lasting_of_backed hb)⟩⟩
  | cons move moves ih =>
    obtain ⟨report, next, rest, hst, hr, rfl⟩ := run_cons.mp hrun
    have hm := step_moved hst
    rw [AtTakes, AtStates, along_cons hst, along_cons hst, NoEcho, forall_mem_cons]
    constructor
    · rintro ⟨⟨hf, hn⟩, -, hl⟩
      have hc := (hm.fair_iff hs hh).mp hf
      have hla := hm.leftAt hs (hl [] moves [] next rfl rfl)
      exact ⟨fun side hmv => ⟨hc side hmv, hla side hmv⟩,
        (ih (hm.sound hs) (hm.honest hh hf) (hm.backed hs hla hb hf) hr).mp ⟨hn, hl⟩⟩
    · rintro ⟨hfst, hrest⟩
      have hf := (hm.fair_iff hs hh).mpr fun side hmv => (hfst side hmv).1
      have hla := fun side hmv => (hfst side hmv).2
      obtain ⟨hn, hl⟩ := (ih (hm.sound hs) (hm.honest hh hf) (hm.backed hs hla hb hf) hr).mpr hrest
      exact ⟨⟨hf, hn⟩, lasting_of_backed hb, hl⟩

def Settled (flows : Flows) : Prop :=
  ∀ side, (flows side).events = [] ∧ (flows side).present = [] ∧ (flows side).stage = .idle

lemma Lasting.settled (h : Lasting flows) (hs : Settled flows) (side : Fabric) : (flows side).tokens = [] := by
  obtain ⟨he, hp, -⟩ := hs side
  rw [eq_nil_iff_forall_not_mem]
  intro key hk
  rcases h side key hk with hm | ⟨origin, hm⟩
  · rw [hp] at hm
    cases hm
  · rw [he] at hm
    cases hm

lemma start_backed : ∀ s, (start s).Backed := by
  intro s
  refine ⟨?_, ?_⟩
  · rintro key (hk | ⟨origin, hk⟩)
    · cases hk
    · cases hk
  · intro before key after heq
    cases before with
    | nil => cases heq
    | cons => cases heq

/-- The bridge declares a token only for one of a participant exactly when each joining of a token of the bridge is
taken while the flow that declared it still has one of its source. Its tokens also go with the participants exactly
when no last Left of a token is taken while the other flow has one of that source. -/
theorem echo_iff_uncovered {id domain : String} {moves : List Move} {reports : List Report} {last : Flows}
    (hrun : run (step id domain) start moves = some (reports, last)) :
    (NoEcho reports ↔ AtTakes id domain CoveredAt start moves) ∧
    (NoEcho reports ∧ AtStates id domain Lasting start moves ↔
      AtTakes id domain (fun flows side => CoveredAt flows side ∧ LeftAt flows side) start moves) ∧
    (AtTakes id domain (fun flows side => CoveredAt flows side ∧ LeftAt flows side) start moves →
      Settled last → ∀ side, (last side).tokens = []) := by
  have hiff := lasting_iff start_sound (fun _ => nofun) start_backed hrun
  refine ⟨noEcho_iff start_sound (fun _ => nofun) hrun, hiff, fun hc hset => ?_⟩
  have hl := (hiff.mpr hc).2 moves [] reports last (append_nil moves).symm hrun
  exact hl.settled hset

structure View where
  present : List Key
  events : List Event
  tokens : List Key
  injected : List (String × ℕ)
  stage : Stage
deriving DecidableEq

def Flow.view (flow : Flow) : View := ⟨flow.present, flow.events, flow.tokens, flow.injected.toList, flow.stage⟩

def viewed (moves : List Move) : Option (List Report × View × View) :=
  (run (step "bridge" "d") start moves).map fun out => (out.1, (out.2 .left).view, (out.2 .right).view)

def lidar : Key := Key.launch "d" (some "lidar")

def handling (side : Fabric) : List Move := [.take side, .count side, .declare side true true]

def withdrawing (side : Fabric) : List Move := [.take side, .finish side]

def quickLeave : List Move :=
  .join .left lidar :: handling .left ++ .leave .left lidar :: withdrawing .left

def bothLeave : List Move := [.join .left lidar, .join .right lidar, .take .left, .take .right, .count .left,
  .count .right, .declare .left true true, .declare .right true true, .take .left, .take .right, .leave .left lidar,
  .leave .right lidar, .take .left, .take .right]

theorem echo_of_quick_leave :
    (∃ reports left right, viewed (quickLeave ++ handling .right) = some (reports, left, right) ∧
      .declares .right lidar .bridge ∈ reports ∧ right.tokens = [lidar] ∧ left.present = [] ∧ right.present = []) ∧
    (viewed quickLeave).map Prod.snd =
      (viewed (quickLeave ++ handling .right ++ withdrawing .right ++ handling .left ++ withdrawing .left)).map
        Prod.snd ∧
    (viewed bothLeave).map Prod.snd =
      some (⟨[], [], [lidar], [("lidar", 1)], .idle⟩, ⟨[], [], [lidar], [("lidar", 1)], .idle⟩) := by
  refine ⟨?_, by decide +kernel, by decide +kernel⟩
  refine ⟨[.quiet, .injects .left lidar .participant, .quiet, .declares .left lidar .participant, .quiet, .quiet,
      .quiet, .injects .right lidar .bridge, .quiet, .declares .right lidar .bridge],
    ⟨[], [⟨.joined lidar, .bridge⟩], [], [], .idle⟩, ⟨[], [⟨.left lidar, .bridge⟩], [lidar], [("lidar", 1)], .idle⟩,
    by decide +kernel, by decide +kernel, rfl, rfl, rfl⟩

def slowLeave : List Move :=
  .join .left lidar :: handling .left ++ [.take .right, .leave .left lidar] ++ withdrawing .left ++ [.take .right]

def View.lasting (view : View) : Bool :=
  view.tokens.all fun key => key ∈ view.present || view.events.any (·.presence = .left key)

lemma lasting_of_view (hl : (flows .left).view.lasting = true) (hr : (flows .right).view.lasting = true) :
    Lasting flows := by
  have hv : ∀ side, (flows side).view.lasting = true := by
    rintro (_ | _)
    · exact hl
    · exact hr
  intro side key hk
  have hb := all_eq_true.mp (hv side) key hk
  simp only [Bool.or_eq_true, decide_eq_true_eq, any_eq_true] at hb
  refine hb.imp_right fun ⟨event, hm, heq⟩ => ⟨event.origin, ?_⟩
  rw [← heq]
  exact hm

lemma slowLeave_lasting : AtStates "bridge" "d" Lasting start slowLeave := by
  have hv : ∀ n ≤ slowLeave.length, ((viewed (slowLeave.take n)).all
      fun out => out.2.1.lasting && out.2.2.lasting) = true := by
    decide +kernel
  intro before after reports mid heq hrun
  have hb := hv before.length (by rw [heq, length_append]; omega)
  rw [heq, take_left' rfl, viewed, hrun] at hb
  obtain ⟨hl, hr⟩ := Bool.and_eq_true_iff.mp hb
  exact lasting_of_view hl hr

theorem echo_iff_uncovered_slow : ∃ reports last,
    run (step "bridge" "d") start slowLeave = some (reports, last) ∧
      NoEcho reports ∧ AtStates "bridge" "d" Lasting start slowLeave ∧
      AtTakes "bridge" "d" (fun flows side => CoveredAt flows side ∧ LeftAt flows side) start slowLeave ∧
      Settled last ∧ ∀ side, (last side).tokens = [] := by
  have hrun : viewed slowLeave = some ([.quiet, .injects .left lidar .participant, .quiet,
      .declares .left lidar .participant, .quiet, .quiet, .quiet, .quiet, .quiet],
      ⟨[], [], [], [], .idle⟩, ⟨[], [], [], [], .idle⟩) := by
    decide +kernel
  obtain ⟨⟨reports, last⟩, hl, ho⟩ := Option.map_eq_some_iff.mp hrun
  simp only [Prod.mk.injEq, Flow.view, View.mk.injEq] at ho
  obtain ⟨rfl, ⟨hpl, hel, -, -, hsl⟩, hpr, her, -, -, hsr⟩ := ho
  have hf : NoEcho [.quiet, .injects .left lidar .participant, .quiet, .declares .left lidar .participant, .quiet,
      .quiet, .quiet, .quiet, .quiet] := by
    intro report hr
    fin_cases hr <;> trivial
  have hset : Settled last := by
    rintro (_ | _)
    · exact ⟨hel, hpl, hsl⟩
    · exact ⟨her, hpr, hsr⟩
  obtain ⟨-, hiff, hend⟩ := echo_iff_uncovered hl
  have hc := hiff.mp ⟨hf, slowLeave_lasting⟩
  exact ⟨_, last, hl, hf, slowLeave_lasting, hc, hset, hend hc hset⟩

end Reiny.Engine.Bridge
