import Reiny.Lib.Machine

/-! Foreign components: the lane thread of each adapter, the callbacks it makes, and the last owner of the factory. -/

namespace Reiny.Component

open Lib Machine List

inductive Hook
  | create
  | prepare
  | run
  | step
  | stop (reason : ℕ)
  | destroy
deriving DecidableEq

/-- A foreign callback is entered, or returns its code and, in `create`, what it wrote to the slot. -/
inductive Mark
  | enter (hook : Hook)
  | leave (hook : Hook) (code : ℤ) (slot : Option ℕ)

inductive Command
  | run
  | step
  | stop (reason : ℕ)
deriving DecidableEq

inductive Place
  | starting
  | receiving
  | inside (hook : Hook)
  | served
  | dropped
deriving DecidableEq

/-- Of the answers only that of the Prepare is kept, as `ready`: a success that was still `awaited`. `log` is what the
foreign side sees. -/
structure Lane where
  queue : List Command
  closed : Bool
  awaited : Bool
  ready : Bool
  instance_ : Option ℕ
  created : Bool
  place : Place
  log : List Mark

-- All threads take their handles from one counter.
def insert (next : ℕ) : Option ℕ := if next + 1 < 2 ^ 64 then some (next + 1) else none

namespace Lane

def new : Lane := ⟨[], false, true, false, none, false, .starting, []⟩

def enter (l : Lane) (hook : Hook) : Lane := { l with place := .inside hook, log := l.log ++ [.enter hook] }

/-- `invoke` up to the callback: without a handle for the error sink it is not made. -/
def invoke (l : Lane) (next : ℕ) (hook : Hook) (failed : Lane) : Lane × ℕ :=
  match insert next with
  | some next => (l.enter hook, next)
  | none => (failed, next)

def prepare (l : Lane) (next : ℕ) : Lane × ℕ :=
  let l := { l with place := .receiving }
  l.invoke next .create { l with created := l.instance_.isSome }

def stop (l : Lane) (next reason : ℕ) : Lane × ℕ :=
  if l.created then l.invoke next (.stop reason) (l.enter .destroy) else ({ l with place := .served }, next)

def run (l : Lane) (next : ℕ) (given : Bool) : Lane × ℕ :=
  if l.closed || !given then (l, next) else l.invoke next .run l

def step (l : Lane) (next : ℕ) (given : Bool) : Lane × ℕ :=
  if l.closed || !given then (l, next)
  else
    match insert next with
    | none => (l, next)
    | some next =>
      match insert next with
      | none => (l, next)
      | some next => l.invoke next .step l

def serve (steps : Bool) (l : Lane) (next : ℕ) : Lane × ℕ :=
  match l.queue with
  | [] => { l with closed := true }.stop next 1
  | .run :: queue => { l with queue }.run next (!steps)
  | .step :: queue => { l with queue }.step next steps
  | .stop reason :: queue => { l with queue }.stop next reason

def returns (l : Lane) (next : ℕ) (hook : Hook) (code : ℤ) (slot : Option ℕ) : Lane × ℕ :=
  let l := { l with place := .receiving, log := l.log ++ [.leave hook code slot] }
  match hook with
  | .create =>
    if code = 0 ∧ slot ≠ none then
      { l with instance_ := slot }.invoke next .prepare { l with instance_ := slot, created := slot.isSome }
    else ({ l with created := l.instance_.isSome }, next)
  | .prepare => ({ l with created := l.instance_.isSome, ready := l.awaited && code == 0 }, next)
  | .run | .step => (l, next)
  | .stop _ => (l.enter .destroy, next)
  | .destroy => ({ l with instance_ := none, place := .served }, next)

end Lane

inductive StopCall
  | none
  | called (reason : ℕ)
  | sent
deriving DecidableEq

structure Adapter where
  alive : Bool
  stop : StopCall
  lane : Option Lane

inductive Op
  | prepare (spawned : Bool)
  | send (command : Command)
  | stop (reason : ℕ)
  | sendStop
  | cancel
  | drop
  | receive
  | returns (code : ℤ) (slot : Option ℕ)
  | exit

namespace Adapter

def onLane (a : Adapter) (f : Lane → Lane) : Adapter := { a with lane := a.lane.map f }

def send (a : Adapter) (command : Command) : Adapter := a.onLane fun l => { l with queue := l.queue ++ [command] }

def close (a : Adapter) : Adapter := a.onLane fun l => { l with closed := true }

def start (a : Adapter) (next : ℕ) (spawned : Bool) : Adapter × ℕ :=
  match insert next with
  | none => (a, next)
  | some next => (if spawned then { a with lane := some .new } else a, next)

def laneStep (steps alive : Bool) (l : Lane) (next : ℕ) : Op → Option (Lane × ℕ)
  | .receive =>
    if l.place = .starting then some (l.prepare next)
    else if l.place = .receiving ∧ (l.queue ≠ [] ∨ alive = false) then some (l.serve steps next)
    else none
  | .returns code slot =>
    match l.place with
    | .inside hook => some (l.returns next hook code slot)
    | _ => none
  | .exit => if l.place = .served then some ({ l with place := .dropped }, next) else none
  | _ => none

/-- The one Prepare comes first, a command for the instance after its success, and the one Stop at any time. -/
def call (a : Adapter) (next : ℕ) : Op → Option (Adapter × ℕ)
  | .prepare spawned => if a.lane = none then some (a.start next spawned) else none
  | .send command =>
    if a.lane.any (·.ready) ∧ (command = .run ∨ command = .step) then some (a.send command, next) else none
  | .stop reason => if a.stop = .none then some ({ a.close with stop := .called reason }, next) else none
  | .sendStop =>
    match a.stop with
    | .called reason => some ({ a.send (.stop reason) with stop := .sent }, next)
    | _ => none
  | .cancel => some (a.onLane fun l => { l with awaited := false }, next)
  | .drop => some ({ a.close.onLane (fun l => { l with awaited := false }) with alive := false }, next)
  | _ => none

def holds (a : Adapter) : Bool := a.alive || a.lane.any (·.place != .dropped)

end Adapter

inductive Event
  | insert
  | register
  | forget
  | create
  | call (i : ℕ) (op : Op)
  | lane (i : ℕ) (op : Op)

structure World where
  next : ℕ
  holders : ℕ
  adapters : List Adapter
  released : ℕ

namespace World

def new : World := ⟨1, 1, [], 0⟩

def owned (w : World) : Bool := w.holders != 0 || w.adapters.any Adapter.holds

def release (w : World) : World := if w.owned then w else { w with released := w.released + 1 }

def step (steps : Bool) (w : World) : Event → Option (Unit × World)
  | .insert => some ((), { w with next := (insert w.next).getD w.next })
  | .register => if w.holders = 0 then none else some ((), { w with holders := w.holders + 1 })
  | .forget => if w.holders = 0 then none else some ((), { w with holders := w.holders - 1 }.release)
  | .create => if w.holders = 0 then none else some ((), { w with adapters := w.adapters ++ [⟨true, .none, none⟩] })
  | .call i op => do
    let a ← w.adapters[i]?.filter (·.alive)
    let (a, next) ← a.call w.next op
    return ((), { w with next, adapters := w.adapters.set i a }.release)
  | .lane i op => do
    let a ← w.adapters[i]?
    let l ← a.lane
    let (l, next) ← Adapter.laneStep steps a.alive l w.next op
    return ((), { w with next, adapters := w.adapters.set i { a with lane := some l } }.release)

end World

inductive Stage
  | absent
  | creating
  | idle
  | busy (hook : Hook)
  | stopping
  | stopped
  | destroying
  | gone

def Stage.next : Stage → Mark → Option Stage
  | .absent, .enter .create => some .creating
  | .creating, .leave .create code slot => some (if code = 0 ∧ slot ≠ none then .idle else .absent)
  | .idle, .enter (.stop _) => some .stopping
  | .idle, .enter hook => if hook = .prepare ∨ hook = .run ∨ hook = .step then some (.busy hook) else none
  | .busy hook, .leave left _ _ => if left = hook then some .idle else none
  | .stopping, .leave (.stop _) _ _ => some .stopped
  | .stopped, .enter .destroy => some .destroying
  | .destroying, .leave .destroy _ _ => some .gone
  | _, _ => none

def Lane.seen (l : Lane) : Option Stage := l.log.foldlM Stage.next .absent

def Lane.stage (l : Lane) : Stage :=
  match l.place with
  | .starting => .absent
  | .receiving => if l.created then .idle else .absent
  | .inside .create => .creating
  | .inside (.stop _) => .stopping
  | .inside .destroy => .destroying
  | .inside hook => .busy hook
  | .served | .dropped => if l.created then .gone else .absent

def Lane.Placed (l : Lane) : Prop :=
  match l.place with
  | .starting | .inside .create => l.created = false ∧ l.instance_ = none
  | .inside .prepare => l.instance_.isSome = true
  | .inside _ => l.created = true
  | .receiving | .served | .dropped => True

structure Lane.Sound (l : Lane) : Prop where
  seen : l.seen = some l.stage
  placed : l.Placed
  works : .run ∈ l.queue ∨ .step ∈ l.queue ∨ l.ready = true → l.created = true

variable {l k : Lane} {hook : Hook} {steps : Bool} {next after : ℕ}

lemma insert_few (h : next + 1 < 2 ^ 64) : insert next = some (next + 1) := if_pos h

lemma invoke_few {failed : Lane} (h : next + 1 < 2 ^ 64) :
    l.invoke next hook failed = (l.enter hook, next + 1) := by
  rw [Lane.invoke, insert_few h]

/-- A lane in order that took at most three handles. -/
def Served (next : ℕ) (out : Lane × ℕ) : Prop := out.1.Sound ∧ out.2 ≤ next + 3

lemma seen_concat {m : Mark} (h : k.log = l.log ++ [m]) : k.seen = l.seen.bind (Stage.next · m) := by
  rw [Lane.seen, h, foldlM_append]
  cases hs : l.log.foldlM Stage.next .absent with
  | none => simp [Lane.seen, hs]
  | some stage => simp [Lane.seen, hs]

section

variable (h : l.Sound)

include h

lemma Lane.Sound.mark {m : Mark} {stage : Stage} (hl : k.log = l.log ++ [m]) (hst : l.stage = stage)
    (hm : stage.next m = some k.stage) (hp : k.Placed)
    (hw : .run ∈ k.queue ∨ .step ∈ k.queue ∨ k.ready = true → k.created = true) : k.Sound := by
  refine ⟨?_, hp, hw⟩
  rw [seen_concat hl, h.seen, hst]
  exact hm

lemma prepare_sound (hp : l.place = .starting) (hn : next + 3 < 2 ^ 64) : Served next (l.prepare next) := by
  have hpl := h.placed
  simp only [Lane.Placed, hp] at hpl
  have hst : l.stage = .absent := by simp [Lane.stage, hp]
  rw [Lane.prepare, invoke_few (by omega)]
  exact ⟨h.mark rfl hst rfl hpl h.works, by omega⟩

lemma stop_sound (hp : l.place = .receiving) (hn : next + 3 < 2 ^ 64) (reason : ℕ) :
    Served next (l.stop next reason) := by
  unfold Lane.stop
  split_ifs with hc
  · have hst : l.stage = .idle := by simp [Lane.stage, hp, hc]
    rw [invoke_few (by omega)]
    exact ⟨h.mark rfl hst rfl hc h.works, by omega⟩
  · refine ⟨⟨h.seen.trans ?_, trivial, h.works⟩, by omega⟩
    simp [Lane.stage, hp, hc]

lemma run_sound (hp : l.place = .receiving) (hc : l.created = true) (hn : next + 3 < 2 ^ 64) (given : Bool) :
    Served next (l.run next given) := by
  have hst : l.stage = .idle := by simp [Lane.stage, hp, hc]
  unfold Lane.run
  split_ifs
  · exact ⟨h, by omega⟩
  · rw [invoke_few (by omega)]
    exact ⟨h.mark rfl hst rfl hc h.works, by omega⟩

lemma step_sound (hp : l.place = .receiving) (hc : l.created = true) (hn : next + 3 < 2 ^ 64) (given : Bool) :
    Served next (l.step next given) := by
  have hst : l.stage = .idle := by simp [Lane.stage, hp, hc]
  unfold Lane.step
  split_ifs
  · exact ⟨h, by omega⟩
  · simp only [insert_few (show next + 1 < 2 ^ 64 by omega), insert_few (show next + 1 + 1 < 2 ^ 64 by omega)]
    rw [invoke_few (by omega)]
    exact ⟨h.mark rfl hst rfl hc h.works, by omega⟩

lemma serve_sound (hp : l.place = .receiving) (hn : next + 3 < 2 ^ 64) : Served next (l.serve steps next) := by
  have ht {c : Command} {queue : List Command} (hq : l.queue = c :: queue) : { l with queue }.Sound := by
    refine ⟨h.seen, h.placed, fun hm => h.works ?_⟩
    rw [hq]
    exact hm.imp (mem_cons_of_mem _) (Or.imp_left (mem_cons_of_mem _))
  unfold Lane.serve
  split <;> rename_i hq
  · exact stop_sound (l := { l with closed := true }) ⟨h.seen, h.placed, h.works⟩ hp hn 1
  · exact run_sound (ht hq) hp (h.works (by simp [hq])) hn _
  · exact step_sound (ht hq) hp (h.works (by simp [hq])) hn _
  · exact stop_sound (ht hq) hp hn _

lemma returns_sound (hp : l.place = .inside hook) (hn : next + 3 < 2 ^ 64) (code : ℤ) (slot : Option ℕ) :
    Served next (l.returns next hook code slot) := by
  have hpl := h.placed
  simp only [Lane.Placed, hp] at hpl
  cases hook with
  | create =>
    obtain ⟨hc, hi⟩ := hpl
    have hst : l.stage = .creating := by simp [Lane.stage, hp]
    by_cases hs : code = 0 ∧ slot ≠ none
    · have hso : slot.isSome = true := Option.isSome_iff_ne_none.mpr hs.2
      have hid : Stage.next .creating (.leave .create code slot) = some .idle := by rw [Stage.next, if_pos hs]
      simp only [Lane.returns, if_pos hs]
      rw [invoke_few (by omega)]
      refine ⟨⟨?_, hso, h.works⟩, by omega⟩
      rw [seen_concat (l := { l with log := l.log ++ [.leave .create code slot] }) rfl, seen_concat (l := l) rfl,
        h.seen, hst, Option.bind_some, hid]
      rfl
    · have hsa : l.instance_.isSome = l.created := by rw [hi, hc]; rfl
      simp only [Lane.returns, if_neg hs, hsa]
      refine ⟨h.mark rfl hst ?_ trivial h.works, by omega⟩
      rw [Stage.next, if_neg hs]
      simp only [Lane.stage, hc]
      rfl
  | prepare =>
    refine ⟨h.mark rfl rfl ?_ trivial fun _ => hpl, by simp [Lane.returns]⟩
    simp [Stage.next, Lane.stage, Lane.returns, hp, hpl]
  | run | step =>
    refine ⟨h.mark rfl rfl ?_ trivial h.works, by simp [Lane.returns]⟩
    simp [Stage.next, Lane.stage, Lane.returns, hp, hpl]
  | stop r =>
    have hst : l.stage = .stopping := by simp [Lane.stage, hp]
    refine ⟨⟨?_, hpl, h.works⟩, by simp [Lane.returns]⟩
    simp only [Lane.returns]
    rw [seen_concat (l := { l with log := l.log ++ [.leave (.stop r) code slot] }) rfl, seen_concat (l := l) rfl,
      h.seen, hst]
    rfl
  | destroy =>
    refine ⟨h.mark rfl rfl ?_ trivial h.works, by simp [Lane.returns]⟩
    simp [Stage.next, Lane.stage, Lane.returns, hp, hpl]

end

def Adapter.Sound (a : Adapter) : Prop := ∀ l, a.lane = some l → l.Sound

structure World.Sound (w : World) : Prop where
  adapters : ∀ a ∈ w.adapters, a.Sound
  released : w.released = if w.owned then 0 else 1

variable {a a' : Adapter} {w w' : World} {op : Op} {event : Event} {u : Unit}

lemma Adapter.Sound.onLane {f : Lane → Lane} (h : a.Sound) (hf : ∀ l, a.lane = some l → l.Sound → (f l).Sound) :
    (a.onLane f).Sound := by
  intro k hl'
  obtain ⟨l, hl, rfl⟩ := Option.map_eq_some_iff.mp hl'
  exact hf l hl (h l hl)

lemma Adapter.Sound.send {c : Command} (h : a.Sound) (hw : c = .run ∨ c = .step → a.lane.any (·.ready) = true) :
    (a.send c).Sound := by
  refine h.onLane fun l hl hs => ⟨hs.seen, hs.placed, fun hm => hs.works ?_⟩
  by_cases hc : c = .run ∨ c = .step
  · have hrd := hw hc
    rw [hl] at hrd
    exact .inr (.inr hrd)
  · simp only [mem_append, mem_singleton] at hm
    tauto

lemma Adapter.Sound.close (h : a.Sound) : a.close.Sound := h.onLane fun _ _ hs => ⟨hs.seen, hs.placed, hs.works⟩

lemma call_sound (h : a.Sound) (hn : next + 3 < 2 ^ 64) (hc : a.call next op = some (a', after)) :
    a'.Sound ∧ after ≤ next + 3 := by
  cases op with
  | prepare spawned =>
    simp only [Adapter.call, Adapter.start, insert_few (show next + 1 < 2 ^ 64 by omega)] at hc
    split_ifs at hc <;> cases hc
    · refine ⟨?_, by omega⟩
      rintro _ ⟨⟩
      exact ⟨rfl, ⟨rfl, rfl⟩, by simp [Lane.new]⟩
    · exact ⟨h, by omega⟩
  | send command =>
    simp only [Adapter.call] at hc
    split_ifs at hc with hrd
    cases hc
    exact ⟨h.send fun _ => hrd.1, by omega⟩
  | stop reason =>
    simp only [Adapter.call] at hc
    split_ifs at hc
    cases hc
    exact ⟨h.close, by omega⟩
  | sendStop =>
    simp only [Adapter.call] at hc
    split at hc
    · cases hc
      exact ⟨h.send (by simp), by omega⟩
    · cases hc
  | cancel =>
    cases hc
    exact ⟨h.onLane fun _ _ hs => ⟨hs.seen, hs.placed, hs.works⟩, by omega⟩
  | drop =>
    cases hc
    exact ⟨h.close.onLane fun _ _ hs => ⟨hs.seen, hs.placed, hs.works⟩, by omega⟩
  | receive | returns | exit => cases hc

lemma laneStep_sound {alive : Bool} (h : l.Sound) (hn : next + 3 < 2 ^ 64) {out : Lane × ℕ}
    (hs : Adapter.laneStep steps alive l next op = some out) : l.place ≠ .dropped ∧ Served next out := by
  cases op with
  | receive =>
    simp only [Adapter.laneStep] at hs
    split_ifs at hs with hp hq <;> cases hs
    · exact ⟨by rw [hp]; exact nofun, prepare_sound h hp hn⟩
    · exact ⟨by rw [hq.1]; exact nofun, serve_sound h hq.1 hn⟩
  | returns code slot =>
    simp only [Adapter.laneStep] at hs
    split at hs
    · rename_i hook hp
      cases hs
      exact ⟨by rw [hp]; exact nofun, returns_sound h hp hn code slot⟩
    · cases hs
  | exit =>
    simp only [Adapter.laneStep] at hs
    split_ifs at hs with hp
    cases hs
    have hst : l.stage = { l with place := .dropped }.stage := by simp [Lane.stage, hp]
    exact ⟨by rw [hp]; exact nofun, ⟨h.seen.trans (congrArg some hst), trivial, h.works⟩, by simp⟩
  | prepare | send | stop | sendStop | cancel | drop => cases hs

lemma World.Sound.held (h : w.Sound) (ho : w.owned = true) : w.released = 0 := by rw [h.released, if_pos ho]

lemma owned_of_holds (ha : a ∈ w.adapters) (h : a.holds = true) : w.owned = true := by
  simp only [World.owned, Bool.or_eq_true, any_eq_true]
  exact .inr ⟨a, ha, h⟩

lemma release_sound (ha : ∀ a ∈ w.adapters, a.Sound) (hr : w.released = 0) : w.release.Sound := by
  unfold World.release
  split_ifs with ho
  · exact ⟨ha, by rw [hr, if_pos ho]⟩
  · refine ⟨ha, ?_⟩
    rw [if_neg (show ¬ World.owned { w with released := w.released + 1 } = true from ho), hr]

lemma World.Sound.set (h : w.Sound) {i : ℕ} (ha : a ∈ w.adapters) (hh : a.holds = true) (ha' : a'.Sound) :
    ({ w with next, adapters := w.adapters.set i a' }.release).Sound := by
  refine release_sound (fun b hb => ?_) (h.held (owned_of_holds ha hh))
  rcases mem_or_eq_of_mem_set hb with hb | rfl
  · exact h.adapters b hb
  · exact ha'

lemma release_next : w.release.next = w.next := by
  unfold World.release
  split_ifs <;> rfl

lemma World.Sound.step (h : w.Sound) (hn : w.next + 3 < 2 ^ 64) (hst : w.step steps event = some (u, w')) :
    w'.Sound ∧ w'.next ≤ w.next + 3 := by
  have hh (hw : ¬ w.holders = 0) : w.released = 0 := h.held (by simp [World.owned, hw])
  cases event with
  | insert =>
    cases hst
    refine ⟨⟨h.adapters, h.released⟩, ?_⟩
    simp [insert_few (show w.next + 1 < 2 ^ 64 by omega)]
  | register =>
    simp only [World.step] at hst
    split_ifs at hst with hw
    cases hst
    exact ⟨⟨h.adapters, by rw [hh hw]; simp [World.owned]⟩, by simp⟩
  | forget =>
    simp only [World.step] at hst
    split_ifs at hst with hw
    cases hst
    exact ⟨release_sound h.adapters (hh hw), by simp [release_next]⟩
  | create =>
    simp only [World.step] at hst
    split_ifs at hst with hw
    cases hst
    refine ⟨⟨fun a ha => ?_, by rw [hh hw]; simp [World.owned, hw]⟩, by simp⟩
    rcases mem_append.mp ha with ha | ha
    · exact h.adapters a ha
    · rw [mem_singleton.mp ha]
      simp [Adapter.Sound]
  | call i op =>
    obtain ⟨a, ha, hst⟩ := Option.bind_eq_some_iff.mp hst
    obtain ⟨⟨a', next⟩, hc, hst⟩ := Option.bind_eq_some_iff.mp hst
    obtain ⟨ha, hal⟩ := Option.filter_eq_some_iff.mp ha
    cases hst
    have hm := mem_of_getElem? ha
    obtain ⟨hs, hl⟩ := call_sound (h.adapters a hm) hn hc
    exact ⟨h.set hm (by simp [Adapter.holds, hal]) hs, by rwa [release_next]⟩
  | lane i op =>
    obtain ⟨a, ha, hst⟩ := Option.bind_eq_some_iff.mp hst
    obtain ⟨l, hl, hst⟩ := Option.bind_eq_some_iff.mp hst
    obtain ⟨⟨k, next⟩, hl', hst⟩ := Option.bind_eq_some_iff.mp hst
    cases hst
    have hm := mem_of_getElem? ha
    obtain ⟨hp, hs, hle⟩ := laneStep_sound (h.adapters a hm l hl) hn hl'
    refine ⟨h.set hm (by simp [Adapter.holds, hl, hp]) ?_, by rwa [release_next]⟩
    rintro _ ⟨⟩
    exact hs

def Lane.Safe (l : Lane) : Prop :=
  ∃ stage, l.seen = some stage ∧ (l.place = .served ∨ l.place = .dropped → stage = .absent ∨ stage = .gone)

lemma Lane.Sound.safe {l : Lane} (h : l.Sound) : l.Safe := by
  refine ⟨l.stage, h.seen, fun hp => ?_⟩
  unfold Lane.stage
  rcases hp with hp | hp <;> rw [hp] <;> dsimp only <;> split_ifs <;> simp

lemma laneStep_exists (steps alive : Bool) (l : Lane) (next : ℕ) : l.place = .dropped ∨
    l.place = .receiving ∧ l.queue = [] ∧ alive = true ∨
      ∃ op k, Adapter.laneStep steps alive l next op = some k := by
  cases hp : l.place with
  | dropped => exact .inl rfl
  | starting => exact .inr (.inr ⟨.receive, _, if_pos hp⟩)
  | inside hook =>
    refine .inr (.inr ⟨.returns 0 none, ?_⟩)
    simp only [Adapter.laneStep, hp]
    exact ⟨_, rfl⟩
  | served => exact .inr (.inr ⟨.exit, _, if_pos hp⟩)
  | receiving =>
    by_cases hq : l.queue ≠ [] ∨ alive = false
    · refine .inr (.inr ⟨.receive, ?_⟩)
      rw [Adapter.laneStep, if_neg (by rw [hp]; exact nofun), if_pos ⟨hp, hq⟩]
      exact ⟨_, rfl⟩
    · rw [not_or, not_not, Bool.not_eq_false] at hq
      exact .inr (.inl ⟨rfl, hq⟩)

-- Handles are numbered from 1, and an event takes at most three.
lemma run_sound_few {events : List Event} {us : List Unit}
    (hrun : run (World.step steps) .new events = some (us, w))
    (hfew : 3 * events.length + 1 < 2 ^ 64) : w.Sound ∧ w.next ≤ 3 * events.length + 1 := by
  have hn : 3 * ([] : List Event).length + 1 < 2 ^ 64 →
      World.new.Sound ∧ World.new.next ≤ 3 * ([] : List Event).length + 1 :=
    fun _ => ⟨⟨fun _ ha => absurd ha not_mem_nil, rfl⟩, le_rfl⟩
  refine run_events (P := fun es w => 3 * es.length + 1 < 2 ^ 64 → w.Sound ∧ w.next ≤ 3 * es.length + 1) ?_
    hn hrun hfew
  intro es w e r w' ih hst hlen
  rw [length_append, length_singleton] at hlen ⊢
  obtain ⟨hs, hle⟩ := ih (by omega)
  obtain ⟨hs', hle'⟩ := hs.step (by omega) hst
  exact ⟨hs', by omega⟩

theorem foreign_instances_safe (steps : Bool) {events : List Event} {us : List Unit} {w : World}
    (hrun : run (World.step steps) .new events = some (us, w)) (hfew : 3 * events.length + 1 < 2 ^ 64) :
    (∀ a ∈ w.adapters, ∀ l, a.lane = some l → l.Safe ∧
      (l.place = .dropped ∨ l.place = .receiving ∧ l.queue = [] ∧ a.alive = true ∨
        ∃ op k, Adapter.laneStep steps a.alive l w.next op = some k)) ∧
    w.released = (if w.owned then 0 else 1) ∧
    (w.released ≠ 0 → ∀ a ∈ w.adapters, ∀ l, a.lane = some l → l.place = .dropped) := by
  obtain ⟨h, -⟩ := run_sound_few hrun hfew
  refine ⟨fun a ha l hl => ?_, h.released, fun hr a ha l hl => ?_⟩
  · exact ⟨(h.adapters a ha l hl).safe, laneStep_exists steps a.alive l w.next⟩
  · by_contra hp
    exact hr (h.held (owned_of_holds ha (by simp [Adapter.holds, hl, hp])))

def lifetime : List Event :=
  [.create, .insert, .call 0 (.prepare true), .lane 0 .receive, .lane 0 (.returns 0 (some 7)),
    .lane 0 (.returns 0 none), .call 0 (.send .run), .call 0 (.stop 1), .call 0 .sendStop, .lane 0 .receive,
    .lane 0 .receive, .lane 0 (.returns 0 none), .call 0 .drop, .lane 0 (.returns 0 none), .lane 0 .exit, .forget]

theorem foreign_instances_safe_stop : ∃ r, run (World.step false) .new lifetime = some r ∧
    r.2.released = 1 ∧ ∀ a ∈ r.2.adapters, ∀ l, a.lane = some l → l.Safe ∧ l.place = .dropped := by
  have hm : (run (World.step false) .new lifetime).map (·.2.released) = some 1 := by decide +kernel
  obtain ⟨r, hr, ho⟩ := Option.map_eq_some_iff.mp hm
  obtain ⟨hs, -, hd⟩ := foreign_instances_safe false hr (by decide)
  exact ⟨r, hr, ho, fun a ha l hl => ⟨(hs a ha l hl).1, hd (by rw [ho]; decide) a ha l hl⟩⟩

end Reiny.Component
