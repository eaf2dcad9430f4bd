import Reiny.Engine.LocalBus
import Reiny.Lib.Machine
import Reiny.Link.Attribution
import Reiny.Link.Framing
import Reiny.Link.LinkEngine

namespace Reiny.Link

open Std Lib Words Utf8 Results Wire HelloFormat HelloCodec Ports State List
open Engine (Key Presence joins lefts LAUNCH_CHUNK SUB_CHUNK SERVICE_CHUNK joins_append lefts_append
  ordinarySegment)

variable {N FRAME : ℕ}

def inputKey (domain ns port ty : String) : Key :=
  { Key.output domain ns port ty with endpoint := some (.input port) }

def withChunk (key : Key) (chunk : String) : Key := { key with chunk := some chunk }

def typeKeys (domain : String) (id : Str) (t : PeerType) : List Key :=
  let topic := Key.output domain id.toText t.port.toText t.name.toText
  (if t.flags &&& PUB != 0 then [topic] else []) ++
    (if t.flags &&& SUB != 0 then
      [withChunk (inputKey domain id.toText t.port.toText t.name.toText) SUB_CHUNK] else []) ++
    if t.flags &&& SERVE != 0 then [withChunk topic SERVICE_CHUNK] else []

def peerKeys (domain : String) (peer : PeerInfo) : List Key :=
  Key.module domain (some peer.id.toText) LAUNCH_CHUNK :: peer.types.flatMap (typeKeys domain peer.id)

structure Watcher where
  id : ℕ
  pattern : Key
  heard : List Presence

def Watcher.hear (w : Watcher) (event : Presence) : Watcher :=
  if w.pattern.matches event.key then { w with heard := w.heard ++ [event] } else w

structure Presences (N FRAME : ℕ) where
  engine : LinkEngine N FRAME
  tokens : List (ℕ × Key)
  watchers : List Watcher

inductive PresenceOp
  | engine (op : EngineOp)
  | declareAlive (key : Key)
  | watchAlive (key : Key)
  | dropToken (id : ℕ)
  | dropWatcher (id : ℕ)

namespace LinkEngine

def shownKeys (e : LinkEngine N FRAME) : List Key := (e.peer.map (peerKeys e.domain)).getD []

def retracted (e : LinkEngine N FRAME) : List Presence := e.shownKeys.map .left

def emitted (e : LinkEngine N FRAME) : HostEvent → List Presence
  | .connected id types =>
    if e.acceptable id types then
      let old := e.shownKeys
      let new := peerKeys e.domain ⟨id, types⟩
      (old.filter fun key => !new.contains key).map .left ++ (new.filter fun key => !old.contains key).map .joined
    else e.retracted
  | .disconnected => e.retracted
  | .data _ => []
  | .request _ => []

def announces (e : LinkEngine N FRAME) : EngineOp → List Presence
  | .take =>
    match e.running, e.inbox with
    | true, event :: _ => e.emitted event
    | _, _ => []
  | .stop => e.retracted
  | _ => []

def register (e : LinkEngine N FRAME) : LinkEngine N FRAME := { e with nextId := e.nextId + 1 }

end LinkEngine

namespace Presences

def spawn (host : Host N FRAME) (domain : String) : Presences N FRAME := ⟨.spawn host domain, [], []⟩

def emit (s : Presences N FRAME) (event : Presence) : Presences N FRAME :=
  { s with watchers := s.watchers.map (·.hear event) }

def aliveKeys (s : Presences N FRAME) : List Key := s.tokens.map Prod.snd ++ s.engine.shownKeys

def declareAlive (s : Presences N FRAME) (key : Key) : Presences N FRAME :=
  match key.validate with
  | .error _ => s
  | .ok () =>
    ({ s with
      engine := s.engine.register
      tokens := s.tokens ++ [(s.engine.nextId, key)] } : Presences N FRAME).emit (.joined key)

def watchAlive (s : Presences N FRAME) (key : Key) : Presences N FRAME :=
  match key.validate with
  | .error _ => s
  | .ok () =>
    -- what is already declared is replayed first
    let replay := (s.aliveKeys.filter fun alive => key.matches alive).map .joined
    { s with
      engine := s.engine.register
      watchers := s.watchers ++ [⟨s.engine.nextId, key, replay⟩] }

def dropToken (s : Presences N FRAME) (id : ℕ) : Presences N FRAME :=
  match s.tokens.find? (·.1 == id) with
  | none => s
  | some token => ({ s with tokens := s.tokens.eraseP (·.1 == id) } : Presences N FRAME).emit (.left token.2)

def dropWatcher (s : Presences N FRAME) (id : ℕ) : Presences N FRAME :=
  { s with watchers := s.watchers.filter (·.id != id) }

def step (C : Codec) (s : Presences N FRAME) :
    PresenceOp → Option (List (EngineNotice N FRAME) × Presences N FRAME)
  | .engine op => do
    let (notices, engine) ← s.engine.step C op
    return (notices, (s.engine.announces op).foldl emit { s with engine })
  | .declareAlive key => some ([], s.declareAlive key)
  | .watchAlive key => some ([], s.watchAlive key)
  | .dropToken id => some ([], s.dropToken id)
  | .dropWatcher id => some ([], s.dropWatcher id)

end Presences

section Balance

variable {events more : List Presence} {alive alive' old new : List Key} {pattern : Key}

def Settled (pattern : Key) (heard : List Presence) (alive : List Key) : Prop :=
  (joins heard : Multiset Key) = lefts heard + (alive.filter fun key => pattern.matches key : List Key)

def Moves (events : List Presence) (alive alive' : List Key) : Prop :=
  (alive' : Multiset Key) + lefts events = alive + joins events

lemma joins_map_joined (keys : List Key) : joins (keys.map .joined) = keys := by
  simp [joins, filterMap_map]

lemma joins_map_left (keys : List Key) : joins (keys.map .left) = [] := by
  simp [joins, filterMap_map]

lemma lefts_map_joined (keys : List Key) : lefts (keys.map .joined) = [] := by
  simp [lefts, filterMap_map]

lemma lefts_map_left (keys : List Key) : lefts (keys.map .left) = keys := by
  simp [lefts, filterMap_map]

lemma joins_filter (p : Key → Bool) : joins (events.filter fun event => p event.key) = (joins events).filter p := by
  induction events with
  | nil => rfl
  | cons event events ih =>
    cases event with
    | joined key | left key => by_cases h : p key = true <;> simp_all [joins, Presence.key]

lemma lefts_filter (p : Key → Bool) : lefts (events.filter fun event => p event.key) = (lefts events).filter p := by
  induction events with
  | nil => rfl
  | cons event events ih =>
    cases event with
    | joined key | left key => by_cases h : p key = true <;> simp_all [lefts, Presence.key]

lemma Settled.move (h : Settled pattern more alive) (hm : Moves events alive alive') :
    Settled pattern (more ++ events.filter fun event => pattern.matches event.key) alive' := by
  have hf := congrArg (Multiset.filter fun key => pattern.matches key = true) hm
  simp only [Multiset.filter_add, Multiset.filter_coe, Bool.decide_eq_true] at hf
  unfold Settled at h ⊢
  rw [joins_append, lefts_append, joins_filter, lefts_filter, ← Multiset.coe_add, ← Multiset.coe_add, h, add_assoc,
    ← hf, add_assoc, add_comm ((alive'.filter _ : List Key) : Multiset Key)]

lemma moves_retracted (tokens : List Key) : Moves (old.map .left) (tokens ++ old) tokens := by
  rw [Moves, lefts_map_left, joins_map_left, Multiset.coe_add, Multiset.coe_nil, add_zero]

lemma moves_exchanged (tokens : List Key) (ho : old.Nodup) (hn : new.Nodup) :
    Moves ((old.filter fun key => !new.contains key).map .left ++
      (new.filter fun key => !old.contains key).map .joined) (tokens ++ old) (tokens ++ new) := by
  have hs : (new ++ old.filter fun key => !new.contains key).Perm
    (old ++ new.filter fun key => !old.contains key) := by
    rw [perm_ext_iff_of_nodup]
    · intro key
      by_cases h₁ : key ∈ old <;> by_cases h₂ : key ∈ new <;> simp [h₁, h₂]
    · refine nodup_append.mpr ⟨hn, ho.filter _, ?_⟩
      rintro a ha b hb rfl
      simp [ha] at hb
    · refine nodup_append.mpr ⟨ho, hn.filter _, ?_⟩
      rintro a ha b hb rfl
      simp [ha] at hb
  rw [Moves, joins_append, lefts_append, lefts_map_left, lefts_map_joined, joins_map_left, joins_map_joined,
    append_nil, nil_append, Multiset.coe_add, Multiset.coe_add, append_assoc, append_assoc,
    Multiset.coe_eq_coe]
  exact hs.append_left tokens

end Balance

section Emitting

variable {s : Presences N FRAME} {w : Watcher} {events : List Presence}

lemma hear_all : events.foldl Watcher.hear w =
    { w with heard := w.heard ++ events.filter fun event => w.pattern.matches event.key } := by
  induction events generalizing w with
  | nil => simp
  | cons event events ih =>
    rw [foldl_cons, ih, Watcher.hear]
    by_cases h : w.pattern.matches event.key = true <;> simp [h]

lemma emit_all : events.foldl Presences.emit s =
    { s with watchers := s.watchers.map fun w => events.foldl Watcher.hear w } := by
  induction events generalizing s with
  | nil => simp
  | cons event events ih =>
    rw [foldl_cons, ih]
    simp [Presences.emit, Function.comp_def]

lemma emit_settled {alive alive' : List Key} (h : ∀ w ∈ s.watchers, Settled w.pattern w.heard alive)
    (hm : Moves events alive alive') :
    ∀ w ∈ (events.foldl Presences.emit s).watchers, Settled w.pattern w.heard alive' := by
  rw [emit_all]
  intro w hw
  obtain ⟨before, hb, rfl⟩ := mem_map.mp hw
  rw [hear_all]
  exact (h before hb).move hm

end Emitting

section Distinct

def Described (id : Str) (types : List PeerType) : Prop :=
  ∃ payload hello, helloParse payload = .ok hello ∧ id = hello.id ∧ types = hello.entries.map .ofEntry

lemma toText_injective {a b : Str} (h : a.toText = b.toText) (hne : a.toText ≠ "") : a = b := by
  have hr (s : Str) (hs : s.toText ≠ "") : s.toText.toUTF8 = ⟨s.bytes.toArray⟩ := by
    unfold Str.toText String.fromUTF8? at hs ⊢
    split
    · rfl
    · rename_i hb
      rw [dif_neg hb] at hs
      exact absurd rfl hs
  have hbs := hr a hne
  rw [h, hr b (h ▸ hne)] at hbs
  have ha := congrArg (fun bytes => bytes.data.toList) hbs
  cases a
  cases b
  simpa using ha.symm

lemma direction_flags : ∀ f : UInt8, [PUB, SUB, SERVE, CALLS].contains (f &&& ~~~LATCHED) = true →
    (f &&& PUB != 0, f &&& SUB != 0, f &&& SERVE != 0, f &&& (PUB ||| SERVE) != 0) ∈
      [(true, false, false, true), (false, true, false, false), (false, false, true, true),
        (false, false, false, false)] :=
  uint8_forall (by decide +kernel)

variable {id : Str} {e : LinkEngine N FRAME} {types : List PeerType}

lemma typeKeys_slot {domain : String} {e : HelloEntry} (hok : entryOk id e = true) :
    (typeKeys domain id (.ofEntry e)).Nodup ∧ ∀ key ∈ typeKeys domain id (.ofEntry e),
      key.endpoint = some (if e.outgoing then .output e.port.toText else .input e.port.toText) := by
  have hd : [PUB, SUB, SERVE, CALLS].contains (e.flags &&& ~~~LATCHED) = true := by
    simp only [entryOk, Bool.and_eq_true] at hok
    exact hok.1.1.1.1.1.1.1.1.1.1
  have hf := direction_flags e.flags hd
  simp only [mem_cons, Prod.mk.injEq, not_mem_nil, or_false] at hf
  unfold typeKeys HelloEntry.outgoing PeerType.ofEntry
  rcases hf with ⟨h₁, h₂, h₃, h₄⟩ | ⟨h₁, h₂, h₃, h₄⟩ | ⟨h₁, h₂, h₃, h₄⟩ | ⟨h₁, h₂, h₃, h₄⟩
  · simp [h₁, h₂, h₃, h₄, Key.output]
  · simp [h₁, h₂, h₃, h₄, withChunk, inputKey]
  · simp [h₁, h₂, h₃, h₄, withChunk, Key.output]
  · simp [h₁, h₂, h₃]

lemma acceptable_port {t : PeerType} (h : e.acceptable id types = true) (ht : t ∈ types) :
    t.port.toText ≠ "" := by
  simp only [LinkEngine.acceptable, Bool.and_eq_true, all_eq_true] at h
  have hv := (h.2 t ht).1
  cases hk : (e.topic id t.port t.name).validate with
  | error message =>
    rw [hk] at hv
    cases hv
  | ok =>
    obtain ⟨hp, -⟩ := (Reiny.Engine.validate_ok.mp hk).port t.port.toText rfl
    intro he
    rw [he] at hp
    revert hp
    decide

lemma peerKeys_nodup (h : Described id types) (ha : e.acceptable id types = true) :
    (peerKeys e.domain ⟨id, types⟩).Nodup := by
  obtain ⟨payload, hello, hpa, rfl, rfl⟩ := h
  have ht := parsed_table hpa
  have hpo : ∀ entry ∈ hello.entries, entry.port.toText ≠ "" := fun entry he =>
    acceptable_port ha (mem_map_of_mem he)
  rw [peerKeys, nodup_cons, flatMap_map, nodup_flatMap]
  refine ⟨?_, ?_, ?_⟩
  · intro hm
    obtain ⟨entry, he, hk⟩ := mem_flatMap.mp hm
    cases (typeKeys_slot (ht.each entry he)).2 _ hk
  · intro entry he
    exact (typeKeys_slot (ht.each entry he)).1
  · refine ht.pairwise.imp_of_mem ?_
    intro previous entry hpr he hc key hk hk'
    have hsl := (typeKeys_slot (ht.each previous hpr)).2 key hk
    rw [(typeKeys_slot (ht.each entry he)).2 key hk', Option.some.injEq] at hsl
    have hd : ¬ (previous.port = entry.port ∧ previous.outgoing = entry.outgoing) := by
      simp only [entriesCompatible, Bool.and_eq_true, Bool.not_eq_true', Bool.and_eq_false_iff,
        beq_eq_false_iff_ne] at hc
      exact not_and_or.mpr hc.1.2
    have hp (hs : entry.port.toText = previous.port.toText) : previous.port = entry.port :=
      (toText_injective hs (hpo entry he)).symm
    cases ho : entry.outgoing <;> cases ho' : previous.outgoing <;>
      simp only [ho, ho', Bool.false_eq_true, if_true, if_false, reduceCtorEq, Engine.EndpointSlot.input.injEq,
        Engine.EndpointSlot.output.injEq] at hsl
    · exact hd ⟨hp hsl, ho'.trans ho.symm⟩
    · exact hd ⟨hp hsl, ho'.trans ho.symm⟩

end Distinct

section Events

variable {C : Codec}

def Genuine (event : HostEvent) : Prop := ∀ id types, event = .connected id types → Described id types

def AllGenuine (notices : List Notice) : Prop := ∀ event, Notice.event event ∈ notices → Genuine event

lemma allGenuine_nil : AllGenuine [] := fun _ h => absurd h List.not_mem_nil

lemma AllGenuine.append {before after : List Notice} (h : AllGenuine before) (h' : AllGenuine after) :
    AllGenuine (before ++ after) := fun event hev => (List.mem_append.mp hev).elim (h event) (h' event)

lemma convert_genuine (h : Host N FRAME) (event : Event) : AllGenuine (h.convert event).1 := by
  have hd (f : Frame) (make : Delivery → HostEvent) (hm : ∀ d, Genuine (make d)) :
      AllGenuine (h.deliver f make).1 := by
    unfold Host.deliver
    split
    · exact allGenuine_nil
    · intro event hev
      cases mem_singleton.mp hev
      exact hm _
  have ha (f : Frame) (result : Except Bytes Bytes) : AllGenuine (h.answer f result).1 := by
    unfold Host.answer
    split
    · exact allGenuine_nil
    · intro event hev
      cases mem_singleton.mp hev
  cases event with
  | connected f =>
    rw [Host.convert]
    split
    · exact allGenuine_nil
    · rename_i hello hp
      intro event hev id types heq
      cases mem_singleton.mp hev
      cases heq
      exact ⟨_, hello, hp, rfl, rfl⟩
  | disconnected =>
    intro event hev id types heq
    subst heq
    simp [Host.convert] at hev
  | data f => exact hd f .data fun d id types => nofun
  | request f => exact hd f .request fun d id types => nofun
  | reply f | error f => exact ha f _

lemma collectLoop_genuine (fuel : ℕ) (h : Host N FRAME) : AllGenuine (h.collectLoop C fuel).1 := by
  induction fuel generalizing h with
  | zero => exact allGenuine_nil
  | succ fuel ih =>
    rw [Host.collectLoop]
    split
    · exact allGenuine_nil
    · exact (convert_genuine _ _).append (ih _)

lemma receiveLoop_genuine (fuel : ℕ) (h : Host N FRAME) (bytes : Bytes) :
    AllGenuine (h.receiveLoop C fuel bytes).1 := by
  induction fuel generalizing h bytes with
  | zero => exact allGenuine_nil
  | succ fuel ih =>
    rw [Host.receiveLoop]
    split_ifs with he
    · exact allGenuine_nil
    · dsimp only
      split_ifs
      · exact collectLoop_genuine _ _
      · exact (collectLoop_genuine _ _).append (ih _ _)

lemma host_genuine {h h' : Host N FRAME} {op : HostOp} {notices : List Notice}
    (hs : h.step C op = some (notices, h')) : AllGenuine notices := by
  have ht {result : List Notice × Host N FRAME} (hres : AllGenuine result.1)
      (hso : some result = some (notices, h')) : AllGenuine notices := by
    cases hso
    exact hres
  cases op with
  | call hash payload =>
    refine ht ?_ hs
    unfold Host.call
    split <;> exact fun event hev => by cases mem_singleton.mp hev
  | drop r =>
    simp only [Host.step] at hs
    split_ifs at hs with hr
    refine ht ?_ hs
    unfold Host.dropReservation
    dsimp only
    split_ifs
    · exact fun event hev => by cases mem_singleton.mp hev
    · exact allGenuine_nil
  | poll nowMs =>
    refine ht ?_ hs
    unfold Host.poll
    split
    · exact collectLoop_genuine _ _
    · exact (convert_genuine _ _).append (collectLoop_genuine _ _)
  | receive bytes => exact ht (receiveLoop_genuine _ _ _) hs
  | _ => exact ht allGenuine_nil hs

end Events

section Running

variable {C : Codec} {e e' : LinkEngine N FRAME} {s s' : Presences N FRAME} {op : EngineOp}
  {notices : List (EngineNotice N FRAME)}

structure Founded (e : LinkEngine N FRAME) : Prop where
  peer : e.shownKeys.Nodup
  inbox : ∀ event ∈ e.inbox, Genuine event

structure Told (events : List Presence) (e e' : LinkEngine N FRAME) : Prop where
  founded : Founded e'
  moves : ∀ tokens, Moves events (tokens ++ e.shownKeys) (tokens ++ e'.shownKeys)

lemma Founded.silent (h : Founded e) (hd : e'.domain = e.domain) (hp : e'.peer = e.peer)
    (hin : ∀ event ∈ e'.inbox, event ∈ e.inbox ∨ Genuine event) : Told [] e e' := by
  have hs : e'.shownKeys = e.shownKeys := by rw [LinkEngine.shownKeys, LinkEngine.shownKeys, hd, hp]
  refine ⟨⟨?_, fun event hev => (hin event hev).elim (h.inbox event) id⟩, ?_⟩
  · rw [hs]
    exact h.peer
  · intro tokens
    rw [hs]
    rfl

lemma Founded.retract (h : Founded e) (hp : e'.peer = none) (hin : ∀ event ∈ e'.inbox, event ∈ e.inbox) :
    Told e.retracted e e' := by
  have hs : e'.shownKeys = [] := by rw [LinkEngine.shownKeys, hp]; rfl
  refine ⟨⟨?_, fun event hev => h.inbox event (hin event hev)⟩, ?_⟩
  · rw [hs]
    exact nodup_nil
  · intro tokens
    rw [hs, append_nil]
    exact moves_retracted tokens

lemma onRequest_same (d : Delivery) : (e.onRequest C d).2.domain = e.domain ∧ (e.onRequest C d).2.peer = e.peer ∧
    (e.onRequest C d).2.inbox = e.inbox := by
  unfold LinkEngine.onRequest
  split
  · exact ⟨rfl, rfl, rfl⟩
  · split
    · exact ⟨rfl, rfl, rfl⟩
    · split
      · exact ⟨rfl, rfl, rfl⟩
      · dsimp only
        split_ifs <;> exact ⟨rfl, rfl, rfl⟩

lemma onEvent_told (h : Founded e) {event : HostEvent} (hev : Genuine event) :
    Told (e.emitted event) e (e.onEvent C event).2 := by
  cases event with
  | connected id types =>
    rw [LinkEngine.emitted, LinkEngine.onEvent]
    split_ifs with ha
    · have hn : (peerKeys e.domain ⟨id, types⟩).Nodup := peerKeys_nodup (hev id types rfl) ha
      exact ⟨⟨hn, h.inbox⟩, fun tokens => moves_exchanged tokens h.peer hn⟩
    · exact h.retract rfl fun _ hm => hm
  | disconnected => exact h.retract rfl fun _ hm => hm
  | data => exact h.silent rfl rfl fun _ => Or.inl
  | request d =>
    obtain ⟨hd, hp, hin⟩ := @onRequest_same N FRAME C e d
    refine h.silent hd hp ?_
    intro event hm
    exact .inl (hin ▸ hm)

lemma engine_told (h : Founded e) (hs : e.step C op = some (notices, e')) : Told (e.announces op) e e' := by
  cases op with
  | host op =>
    obtain ⟨⟨told, host⟩, hh, hs⟩ := Option.bind_eq_some_iff.mp hs
    cases hs
    refine h.silent rfl rfl ?_
    intro event hm
    rcases mem_append.mp hm with hm | hm
    · exact .inl hm
    · refine .inr (host_genuine hh event ?_)
      obtain ⟨notice, hn, heq⟩ := mem_filterMap.mp hm
      split at heq
      · cases heq
        exact hn
      · cases heq
  | respond key =>
    cases hs
    unfold LinkEngine.respond
    split
    · exact h.silent rfl rfl fun _ => Or.inl
    · exact h.silent rfl rfl fun _ => Or.inl
  | dropGuard id =>
    cases hs
    exact h.silent rfl rfl fun _ => Or.inl
  | take =>
    rw [LinkEngine.step] at hs
    split at hs
    · rename_i event inbox hr hin
      have hta : Founded { e with inbox } :=
        ⟨h.peer, fun event hm => h.inbox event (hin ▸ mem_cons_of_mem _ hm)⟩
      have hev : Genuine event := h.inbox event (hin ▸ mem_cons_self)
      have ht := @onEvent_told N FRAME C _ hta event hev
      rw [Option.some.inj hs] at ht
      rw [LinkEngine.announces, hr, hin]
      exact ⟨ht.founded, ht.moves⟩
    · cases hs
  | stop =>
    rw [LinkEngine.step] at hs
    split_ifs at hs with he
    cases hs
    exact h.retract rfl fun _ hm => hm
  | answer token answer =>
    obtain ⟨q, -, hs⟩ := Option.bind_eq_some_iff.mp hs
    cases hs
    exact h.silent rfl rfl fun _ => Or.inl

structure Watched (s : Presences N FRAME) : Prop where
  engine : Founded s.engine
  watchers : ∀ w ∈ s.watchers, Settled w.pattern w.heard s.aliveKeys

lemma Founded.register (h : Founded e) : Founded e.register := ⟨h.peer, h.inbox⟩

lemma Watched.tell {events : List Presence} (h : Watched s) {t : Presences N FRAME}
    (he : Founded t.engine) (hw : t.watchers = s.watchers) (hm : Moves events s.aliveKeys t.aliveKeys) :
    Watched (events.foldl Presences.emit t) := by
  refine ⟨?_, ?_⟩
  · rw [emit_all]
    exact he
  · have hs := @emit_settled N FRAME t events _ _ (by rw [hw]; exact h.watchers) hm
    rwa [emit_all] at hs ⊢

lemma declareAlive_consistent (h : Watched s) (key : Key) : Watched (s.declareAlive key) := by
  unfold Presences.declareAlive
  split
  · exact h
  · refine @Watched.tell N FRAME s [.joined key] h _ h.engine.register rfl ?_
    rw [Moves, Presences.aliveKeys, Presences.aliveKeys, map_append, Multiset.coe_add, Multiset.coe_add,
      Multiset.coe_eq_coe]
    change ((s.tokens.map Prod.snd ++ [key] ++ s.engine.shownKeys) ++ []).Perm
      ((s.tokens.map Prod.snd ++ s.engine.shownKeys) ++ [key])
    rw [append_nil, append_assoc, append_assoc]
    exact perm_append_comm.append_left _

lemma dropToken_consistent (h : Watched s) (id : ℕ) : Watched (s.dropToken id) := by
  unfold Presences.dropToken
  split
  · exact h
  · rename_i token hf
    refine @Watched.tell N FRAME s [.left token.2] h _ h.engine rfl ?_
    have he : (token :: s.tokens.eraseP (·.1 == id)).Perm s.tokens := by
      obtain ⟨hid, before, after, heq, hb⟩ := find?_eq_some_iff_append.mp hf
      have hno : ∀ other ∈ before, ¬ ((other.1 == id) = true) := fun other ho => by
        simpa using hb other ho
      have ha : (token :: after).eraseP (·.1 == id) = after := eraseP_cons_of_pos hid
      rw [heq, eraseP_append_right _ hno, ha]
      exact perm_middle.symm
    rw [Moves, Presences.aliveKeys, Presences.aliveKeys, Multiset.coe_add, Multiset.coe_add, Multiset.coe_eq_coe]
    change (((s.tokens.eraseP (·.1 == id)).map Prod.snd ++ s.engine.shownKeys) ++ [token.2]).Perm
      ((s.tokens.map Prod.snd ++ s.engine.shownKeys) ++ [])
    rw [append_nil]
    exact perm_append_comm.trans ((he.map Prod.snd).append_right _)

lemma watchAlive_consistent (h : Watched s) (key : Key) : Watched (s.watchAlive key) := by
  unfold Presences.watchAlive
  split
  · exact h
  · refine ⟨h.engine.register, ?_⟩
    intro w hw
    rcases mem_append.mp hw with hw | hw
    · exact h.watchers w hw
    · rw [mem_singleton.mp hw, Settled, joins_map_joined, lefts_map_joined, Multiset.coe_nil, zero_add]
      rfl

lemma presence_step {op : PresenceOp} (h : Watched s) (hs : s.step C op = some (notices, s')) : Watched s' := by
  cases op with
  | engine op =>
    obtain ⟨⟨told, engine⟩, he, hs⟩ := Option.bind_eq_some_iff.mp hs
    cases hs
    have ht := engine_told h.engine he
    exact @Watched.tell N FRAME s (s.engine.announces op) h { s with engine } ht.founded rfl
      (ht.moves (s.tokens.map Prod.snd))
  | declareAlive key =>
    cases hs
    exact declareAlive_consistent h key
  | watchAlive key =>
    cases hs
    exact watchAlive_consistent h key
  | dropToken id =>
    cases hs
    exact dropToken_consistent h id
  | dropWatcher id =>
    cases hs
    exact ⟨h.engine, fun w hw => h.watchers w (mem_of_mem_filter hw)⟩

end Running

def Disconnects (e : LinkEngine N FRAME) (op : EngineOp) : Prop :=
  op = .stop ∨ op = .take ∧ e.inbox.head? = some .disconnected

lemma disconnects_peer {C : Codec} {e e' : LinkEngine N FRAME} {op : EngineOp}
    {notices : List (EngineNotice N FRAME)} (h : Disconnects e op) (hs : e.step C op = some (notices, e')) :
    e'.peer = none := by
  rcases h with rfl | ⟨rfl, hh⟩
  · rw [LinkEngine.step] at hs
    split_ifs at hs
    cases hs
    rfl
  · rw [LinkEngine.step] at hs
    split at hs
    · rename_i event inbox hr hin
      rw [hin] at hh
      cases hh
      cases hs
      rfl
    · cases hs

theorem presence_consistent (C : Codec) (host : Host N FRAME) (domain : String) {ops : List PresenceOp}
    {told : List (List (EngineNotice N FRAME))} {s : Presences N FRAME}
    (hrun : Machine.run (Presences.step C) (Presences.spawn host domain) ops = some (told, s)) :
    (∀ w ∈ s.watchers, Settled w.pattern w.heard s.aliveKeys) ∧
      ∀ op notices s', Disconnects s.engine op → s.step C (.engine op) = some (notices, s') →
        s'.engine.peer = none ∧ ∀ w ∈ s'.watchers, Settled w.pattern w.heard (s'.tokens.map Prod.snd) ∧
          ∀ key ∉ s'.tokens.map Prod.snd, (joins w.heard).count key = (lefts w.heard).count key := by
  have hst : Watched (Presences.spawn host domain) :=
    ⟨⟨List.nodup_nil, fun _ h => by cases h⟩, fun _ h => by cases h⟩
  have hc : Watched s := Machine.run_invariant (fun _ _ _ _ h hs => presence_step h hs) hst hrun
  refine ⟨hc.watchers, ?_⟩
  intro op notices s' hg hs
  have ha := presence_step hc hs
  have hp : s'.engine.peer = none := by
    obtain ⟨⟨_, engine⟩, he, hs⟩ := Option.bind_eq_some_iff.mp hs
    cases hs
    rw [emit_all]
    exact disconnects_peer hg he
  refine ⟨hp, ?_⟩
  intro w hw
  have hset := ha.watchers w hw
  rw [Presences.aliveKeys, LinkEngine.shownKeys, hp, Option.map_none, Option.getD_none, append_nil] at hset
  refine ⟨hset, ?_⟩
  intro key hk
  have hcnt := congrArg (Multiset.count key) hset
  rw [Multiset.count_add, Multiset.coe_count, Multiset.coe_count, Multiset.coe_count] at hcnt
  rw [hcnt, count_eq_zero.mpr fun hm => hk (mem_of_mem_filter hm), Nat.add_zero]

def boardHello : Bytes := wireBytes standard (⟨.hello, 0, 0⟩, helloBytes true false boardId board.localEntries)

def labBridge : Host 2 64 := .spawn (intoBridge (initial hostId [] 200 200))

def labKeys : Key := ⟨"lab", none, none, none, none⟩

def labOps : List PresenceOp :=
  [.watchAlive labKeys, .engine (.host (.receive boardHello)), .engine .take, .watchAlive labKeys]

theorem presence_consistent_lab : ∃ told s,
    Machine.run (Presences.step standard) (Presences.spawn labBridge "lab") labOps = some (told, s) ∧
      s.watchers.map (·.heard.length) = [1, 1] ∧ ∀ w ∈ s.watchers, Settled w.pattern w.heard s.aliveKeys := by
  have hh : (Machine.run (Presences.step standard) (Presences.spawn labBridge "lab") labOps).map (fun r =>
      r.2.watchers.map (·.heard.length)) = some [1, 1] := by decide +kernel
  obtain ⟨⟨told, s⟩, hr, hl⟩ := Option.map_eq_some_iff.mp hh
  exact ⟨told, s, hr, hl, (presence_consistent standard labBridge "lab" hr).1⟩

end Reiny.Link
