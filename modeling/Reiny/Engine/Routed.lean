import Reiny.Engine.LocalBus
import Reiny.Lib.Maps
import Reiny.Lib.Lists

/-! One engine per host, over its own local bus and the network they share. -/

namespace Reiny.Engine

open Std Lib Results Segments Registry Sequence Step List

abbrev Placement := ExtTreeMap String String

inductive CongestionControl
  | backendDefault | drop | block
deriving DecidableEq

inductive Side
  | localBus | remote
deriving DecidableEq

structure Routed where
  host : String
  placement : Placement

def isBlank (text : String) : Bool := text.toList.all isWhitespace

def Key.launch (domain : String) (ns : Option String) : Key := Key.module domain ns LAUNCH_CHUNK

namespace Routed

def new (host : String) (placement : Placement) : Except String Routed := do
  ensure (isBlank host = false) "routed: empty host"
  placement.toList.forM fun entry => do
    (Key.launch "placement" (some entry.1)).validate
    ensure (isBlank entry.2 = false) "routed: empty placement host"
  ensure (placement.toList.any (fun entry => entry.2 == host) = true) "routed: host has no assigned namespaces"
  return ⟨host, placement⟩

def namespaces (engine : Routed) : Option String → Except String (List (String × String))
  | some source => do
    let host ← ofOption engine.placement[source]? ("routed: unplaced namespace '" ++ source ++ "'")
    return [(source, host)]
  | none => return engine.placement.toList

def route (engine : Routed) (key : Key) (entry : String × String) : Side × Key :=
  (if entry.2 = engine.host then .localBus else .remote, { key with source := some entry.1 })

def routes (engine : Routed) (key : Key) (query : Bool) : Except String (List (Side × Key)) := do
  key.validate
  ensure (query = true ∨ key.endpoint.isSome = true ∨ key.chunk.all (fun chunk => (schemaName chunk).isNone) = true)
    "routed: wildcard-direction schema streams are unsupported; use query"
  let namespaces ← engine.namespaces key.source
  return namespaces.map (engine.route key)

def owned (engine : Routed) (key : Key) : Except String Unit := do
  key.validate
  ensure (key.source.any (fun source => engine.placement[source]? == some engine.host) = true)
    "routed: declaration requires a namespace assigned to this host"
  ensure ('*' ∉ key.display.toList) "routed: declarations require a concrete named address"

end Routed

inductive Request
  | subscribe (host : String) (key : Key)
  | respond (host : String) (key : Key)
  | publish (host : String) (key : Key) (congestion : CongestionControl) (payload : Payload)
      (attachment : Option Payload) (timestamps : Option UInt64 × Option UInt64)
  | query (host : String) (key : Key) (payload attachment : Option Payload)

def Request.host : Request → String
  | .subscribe host _ | .respond host _ | .publish host _ _ _ _ _ | .query host _ _ _ => host

def Request.key : Request → Key
  | .subscribe _ key | .respond _ key | .publish _ key _ _ _ _ | .query _ key _ _ => key

inductive Call
  | ask (request : Request)
  | drop (slot : Slot) (call : ℕ)

structure Network where
  locals : String → Bus := fun _ => {}
  remote : Bus := {}

namespace Network

def perform (network : Network) (host : String) (place : ℕ) : Side → Op → List Notice × Network
  | .localBus, op =>
    let (notices, bus) := (network.locals host).handle place op
    (notices, { network with locals := Function.update network.locals host bus })
  | .remote, op =>
    let (notices, bus) := network.remote.handle place op
    (notices, { network with remote := bus })

def performAll (network : Network) (host : String) (place : ℕ) : List (Side × Op) → List Notice × Network
  | [] => ([], network)
  | (side, op) :: rest =>
    let (notices, network) := network.perform host place side op
    let (others, network) := network.performAll host place rest
    (notices ++ others, network)

end Network

def Routed.perform (engine : Routed) (place : ℕ) : Request → Except String (List (Side × Op))
  | .subscribe _ key => do
    let routes ← engine.routes key false
    routes.forM (·.2.validate)
    return routes.map fun route => (route.1, .subscribe place route.2)
  | .respond _ key => do
    engine.owned key
    key.validate
    return [(.localBus, .respond place key), (.remote, .respond place key)]
  | .publish _ key congestion payload attachment timestamps => do
    engine.owned key
    key.validate
    ensure (congestion = .backendDefault)
      "local engine: explicit congestion control is unsupported; its send queue is unbounded"
    return [(.localBus, .publish ⟨key, payload, attachment, timestamps.1⟩),
      (.remote, .publish ⟨key, payload, attachment, timestamps.2⟩)]
  | .query _ key payload attachment => do
    let routes ← engine.routes key true
    routes.forM (·.2.validate)
    return routes.map fun route => (route.1, .query route.2 payload attachment)

def checkRequest (placement : Placement) (place : ℕ) (request : Request) : Except String (List (Side × Op)) := do
  let engine ← Routed.new request.host placement
  engine.perform place request

def Network.call (placement : Placement) (network : Network) (place : ℕ) :
    Call → Except String (List Notice) × Network
  | .ask request =>
    match checkRequest placement place request with
    | .error e => (.error e, network)
    | .ok ops =>
      let (notices, network) := network.performAll request.host place ops
      (.ok notices, network)
  | .drop slot target =>
    (.ok [], ⟨fun host => ((network.locals host).handle place (.remove slot target)).2,
      (network.remote.handle place (.remove slot target)).2⟩)

def answers (placement : Placement) (calls : List Call) : List (Except String (List Notice)) :=
  outputs (Network.call placement) {} calls

def networkAfter (placement : Placement) (calls : List Call) : Network :=
  after (Network.call placement) {} calls

section Routes

variable {host : String} {placement : Placement} {engine : Routed} {key pattern sample : Key} {query : Bool}
  {routes : List (Side × Key)} {entries : List (String × String)} {entry : String × String} {source : Option String}

structure Routed.Sound (engine : Routed) : Prop where
  canonical : ∀ ns owner, engine.placement[ns]? = some owner → ∀ part ∈ segments ns, ordinarySegment part = true

lemma new_ok (h : Routed.new host placement = .ok engine) : engine = ⟨host, placement⟩ ∧ engine.Sound := by
  unfold Routed.new at h
  simp only [bind_ok, ensure_ok, exists_const, forM_ok, pure_ok] at h
  obtain ⟨-, hes, -, rfl⟩ := h
  refine ⟨rfl, ⟨?_⟩⟩
  intro ns owner hns
  obtain ⟨_, hv, -⟩ := hes (ns, owner) (ExtTreeMap.mem_toList_iff_getElem?_eq_some.mpr hns)
  exact (validate_ok.mp hv).source ns rfl

lemma namespaces_ok (h : engine.namespaces source = .ok entries) :
    entries.Nodup ∧ ∀ entry, entry ∈ entries ↔
      engine.placement[entry.1]? = some entry.2 ∧ source.all (fun name => name == entry.1) = true := by
  cases source with
  | none =>
    cases h
    refine ⟨?_, ?_⟩
    · apply ExtTreeMap.distinct_keys_toList.imp
      rintro a b hne rfl
      exact hne ReflOrd.compare_self
    · intro entry
      rw [ExtTreeMap.mem_toList_iff_getElem?_eq_some]
      simp
  | some name =>
    simp only [Routed.namespaces, bind_ok, ofOption_ok, pure_ok] at h
    obtain ⟨host, hh, rfl⟩ := h
    refine ⟨nodup_singleton _, ?_⟩
    rintro ⟨ns, owner⟩
    rw [mem_singleton, Prod.mk.injEq, Option.all_some, beq_iff_eq]
    constructor
    · rintro ⟨rfl, rfl⟩
      exact ⟨hh, rfl⟩
    · rintro ⟨ho, rfl⟩
      rw [hh] at ho
      exact ⟨rfl, (Option.some.inj ho).symm⟩

lemma routes_ok : engine.routes key query = .ok routes ↔ key.Valid ∧
    (query = true ∨ key.endpoint.isSome = true ∨
      key.chunk.all (fun chunk => (schemaName chunk).isNone) = true) ∧
    ∃ entries, engine.namespaces key.source = .ok entries ∧ entries.map (engine.route key) = routes := by
  unfold Routed.routes
  simp only [bind_ok, validate_ok, ensure_ok, exists_const, pure_ok]

lemma Key.Valid.route (hv : key.Valid) (hs : engine.Sound) (h : engine.placement[entry.1]? = some entry.2) :
    (engine.route key entry).2.Valid where
  domain := hv.domain
  source := by
    rintro _ ⟨rfl⟩
    exact hs.canonical _ _ h
  ty := hv.ty
  port := hv.port
  control := hv.control
  input := hv.input
  chunk := hv.chunk
  output := hv.output
  service := hv.service

lemma routes_valid (hs : engine.Sound) (h : engine.routes key query = .ok routes) :
    routes.forM (fun route => route.2.validate) = .ok () := by
  obtain ⟨hv, -, entries, hes, rfl⟩ := routes_ok.mp h
  rw [forM_ok]
  intro route hr
  obtain ⟨entry, he, rfl⟩ := mem_map.mp hr
  exact validate_ok.mpr (hv.route hs ((namespaces_ok hes).2 entry |>.mp he).1)

variable {ns : String}

lemma matches_source (hsrc : pattern.source.all (fun name => name == ns) = true) :
    ({ pattern with source := some ns } : Key).matches sample = true ↔
      pattern.matches sample = true ∧ sample.source = some ns := by
  simp only [Key.matches, Option.all_some, Bool.and_eq_true, beq_iff_eq]
  constructor
  · rintro ⟨⟨⟨⟨hd, hns⟩, hty⟩, hep⟩, hch⟩
    refine ⟨⟨⟨⟨⟨hd, ?_⟩, hty⟩, hep⟩, hch⟩, hns⟩
    rw [hns]
    cases hs : pattern.source with
    | none => rfl
    | some name =>
      rw [hs, Option.all_some, beq_iff_eq] at hsrc
      rw [Option.all_some, beq_iff_eq, hsrc]
  · rintro ⟨⟨⟨⟨⟨hd, -⟩, hty⟩, hep⟩, hch⟩, hns⟩
    exact ⟨⟨⟨⟨hd, hns⟩, hty⟩, hep⟩, hch⟩

lemma matches_covers (h : pattern.matches sample = true) (hns : sample.source = some ns) :
    pattern.source.all (fun name => name == ns) = true := by
  simp only [Key.matches, Bool.and_eq_true] at h
  obtain ⟨⟨⟨⟨-, hsrc⟩, -⟩, -⟩, -⟩ := h
  rw [hns] at hsrc
  cases hs : pattern.source with
  | none => rfl
  | some name =>
    rw [hs, Option.all_some, beq_iff_eq] at hsrc
    rw [Option.all_some, beq_iff_eq, Option.some.inj hsrc]

lemma owned_ok {u : Unit} (h : engine.owned key = .ok u) :
    key.Valid ∧ ∃ source, key.source = some source ∧ engine.placement[source]? = some engine.host := by
  unfold Routed.owned at h
  simp only [bind_ok, validate_ok, ensure_ok, exists_const, Option.any_eq_true, beq_iff_eq] at h
  obtain ⟨hv, ⟨source, hs, hpl⟩, -⟩ := h
  exact ⟨hv, source, hs, hpl⟩

lemma route_unique {owner : String} (side : Side) (h : engine.routes pattern query = .ok routes)
    (hns : sample.source = some ns) (ho : engine.placement[ns]? = some owner) :
    routes.filter (fun route => decide (route.1 = side) && route.2.matches sample) =
      if pattern.matches sample = true ∧ (engine.route pattern (ns, owner)).1 = side
        then [engine.route pattern (ns, owner)] else [] := by
  obtain ⟨-, -, entries, hes, rfl⟩ := routes_ok.mp h
  obtain ⟨hnd, hm⟩ := namespaces_ok hes
  rw [filter_map]
  have hone : entries.filter ((fun route : Side × Key => decide (route.1 = side) && route.2.matches sample) ∘
      engine.route pattern) =
      if pattern.matches sample = true ∧ (engine.route pattern (ns, owner)).1 = side
        then [(ns, owner)] else [] := by
    apply Lists.filter_unique hnd
    · rintro ⟨name, host⟩ he
      obtain ⟨hpl, hc⟩ := (hm _).mp he
      rw [Function.comp_apply, Bool.and_eq_true, decide_eq_true_eq, Routed.route, matches_source hc]
      constructor
      · rintro ⟨hs, hmat, hn⟩
        rw [hns] at hn
        cases hn
        rw [ho] at hpl
        cases hpl
        exact ⟨rfl, hmat, hs⟩
      · rintro ⟨heq, hmat, hs⟩
        cases heq
        exact ⟨hs, hmat, hns⟩
    · rintro ⟨hmat, -⟩
      exact (hm _).mpr ⟨ho, matches_covers hmat hns⟩
  rw [hone]
  split <;> rfl

end Routes

section Registrations

structure Asked where
  id : ℕ
  host : String
  key : Key

def Accepted (placement : Placement) (place : ℕ) (request : Request) : Bool :=
  (checkRequest placement place request).isOk

def Request.slot : Request → Option Slot
  | .subscribe _ _ => some .subscriber
  | .respond _ _ => some .responder
  | .publish _ _ _ _ _ _ | .query _ _ _ _ => none

def asks (placement : Placement) (slot : Slot) (place : ℕ) : Call → Option Asked
  | .ask request =>
    if request.slot = some slot ∧ Accepted placement place request = true then some ⟨place,
      request.host, request.key⟩
    else none
  | .drop _ _ => none

def drops (slot : Slot) : Call → Asked → Bool
  | .drop other target, asked => decide (other = slot) && asked.id == target
  | .ask _, _ => false

def accepted (placement : Placement) (slot : Slot) (calls : List Call) : List (ℕ × Asked) :=
  live (asks placement slot) (drops slot) calls

def routesOf (placement : Placement) (asked : Asked) : List (Side × Key) :=
  match (⟨asked.host, placement⟩ : Routed).routes asked.key false with
  | .ok routes => routes
  | .error _ => []

def parts (placement : Placement) (side : Side) (entry : ℕ × Asked) : List (ℕ × Registration) :=
  ((routesOf placement entry.2).filter (·.1 = side)).map fun route => (entry.1, ⟨entry.2.id, route.2⟩)

def whole (entry : ℕ × Asked) : ℕ × Registration := (entry.1, ⟨entry.2.id, entry.2.key⟩)

structure Tracks (placement : Placement) (calls : List Call) (network : Network) : Prop where
  localSubscribers : ∀ host, (network.locals host).subscribers =
    ((accepted placement .subscriber calls).filter (·.2.host = host)).flatMap (parts placement .localBus)
  remoteSubscribers : network.remote.subscribers = (accepted placement .subscriber calls).flatMap
    (parts placement .remote)
  localResponders : ∀ host, (network.locals host).responders =
    ((accepted placement .responder calls).filter (·.2.host = host)).map whole
  remoteResponders : network.remote.responders = (accepted placement .responder calls).map whole

variable {placement : Placement} {calls : List Call} {network : Network} {host : String} {place : ℕ}
  {request : Request} {ops : List (Side × Op)} {op : Op} {side : Side} {key : Key} {routes : List (Side × Key)}

def Network.bus (network : Network) (host : String) : Side → Bus
  | .localBus => network.locals host
  | .remote => network.remote

lemma performAll_still (h : ∀ item ∈ ops, ∀ bus : Bus, (bus.handle place item.2).2 = bus) :
    network.performAll host place ops =
      (ops.flatMap fun item => ((network.bus host item.1).handle place item.2).1, network) := by
  induction ops with
  | nil => rfl
  | cons item ops ih =>
    obtain ⟨side, op⟩ := item
    have hop := h (side, op) mem_cons_self
    have hf : network.perform host place side op = (((network.bus host side).handle place op).1, network) := by
      cases side with
      | localBus =>
        simp only [Network.perform, Network.bus, hop, Function.update_eq_self]
      | remote => simp only [Network.perform, Network.bus, hop]
    rw [Network.performAll, hf]
    simp only [ih fun item hit => h item (mem_cons_of_mem _ hit), flatMap_cons]

lemma performAll_subscribe : let network' := (network.performAll host place
      (routes.map fun route => (route.1, .subscribe place route.2))).2
    (∀ other, (network'.locals other).subscribers = (network.locals other).subscribers ++
      if host = other then (routes.filter (·.1 = .localBus)).map fun route => (place, ⟨place, route.2⟩) else []) ∧
    network'.remote.subscribers = network.remote.subscribers ++
      (routes.filter (·.1 = .remote)).map (fun route => (place, ⟨place, route.2⟩)) ∧
    (∀ other, (network'.locals other).responders = (network.locals other).responders) ∧
    network'.remote.responders = network.remote.responders := by
  induction routes generalizing network with
  | nil => simp [Network.performAll]
  | cons route routes ih =>
    obtain ⟨side, key⟩ := route
    cases side with
    | localBus =>
      obtain ⟨hl, hre, hresp, hr⟩ := @ih
        (network.perform host place .localBus (.subscribe place key)).2
      refine ⟨?_, ?_, ?_, ?_⟩
      · intro other
        refine (hl other).trans ?_
        by_cases ho : host = other
        · subst ho
          simp [Network.perform, Bus.handle]
        · have hne : other ≠ host := fun heq => ho heq.symm
          simp [Network.perform, Function.update_of_ne hne, ho]
      · refine hre.trans ?_
        simp [Network.perform]
      · intro other
        refine (hresp other).trans ?_
        by_cases ho : other = host
        · subst ho
          simp [Network.perform, Bus.handle]
        · simp [Network.perform, Function.update_of_ne ho]
      · exact hr
    | remote =>
      obtain ⟨hl, hre, hresp, hr⟩ := @ih
        (network.perform host place .remote (.subscribe place key)).2
      refine ⟨?_, ?_, hresp, hr⟩
      · intro other
        refine (hl other).trans ?_
        simp [Network.perform]
      · refine hre.trans ?_
        simp [Network.perform, Bus.handle]

variable {attachment : Option Payload} {slot : Slot} {target : ℕ} {payload : Option Payload}

lemma checkRequest_ok : checkRequest placement place request = .ok ops ↔
    ∃ engine, Routed.new request.host placement = .ok engine ∧ engine.perform place request = .ok ops := by
  rw [checkRequest, bind_ok]

lemma checkRequest_performs (h : checkRequest placement place request = .ok ops) :
    (⟨request.host, placement⟩ : Routed).perform place request = .ok ops := by
  obtain ⟨engine, hn, hp⟩ := checkRequest_ok.mp h
  obtain ⟨rfl, -⟩ := new_ok hn
  exact hp

lemma checkRequest_subscribe (h : checkRequest placement place (.subscribe host key) = .ok ops) :
    ∃ routes, (⟨host, placement⟩ : Routed).routes key false = .ok routes ∧
      ops = routes.map fun route => (route.1, .subscribe place route.2) := by
  obtain ⟨routes, hr, h⟩ := bind_ok.mp (checkRequest_performs h)
  obtain ⟨_, -, h⟩ := bind_ok.mp h
  exact ⟨routes, hr, (pure_ok.mp h).symm⟩

lemma checkRequest_respond (h : checkRequest placement place (.respond host key) = .ok ops) :
    ops = [(.localBus, .respond place key), (.remote, .respond place key)] := by
  obtain ⟨_, -, h⟩ := bind_ok.mp (checkRequest_performs h)
  obtain ⟨_, -, h⟩ := bind_ok.mp h
  exact (pure_ok.mp h).symm

lemma checkRequest_publish {congestion : CongestionControl} {payload : Payload}
    {timestamps : Option UInt64 × Option UInt64}
    (h : checkRequest placement place (.publish host key congestion payload attachment timestamps) =
      .ok ops) :
    (∃ source, key.source = some source ∧ placement[source]? = some host) ∧
      ops = [(.localBus, .publish ⟨key, payload, attachment, timestamps.1⟩),
        (.remote, .publish ⟨key, payload, attachment, timestamps.2⟩)] := by
  obtain ⟨_, ho, h⟩ := bind_ok.mp (checkRequest_performs h)
  obtain ⟨_, -, h⟩ := bind_ok.mp h
  obtain ⟨-, h⟩ := ensure_bind_ok.mp h
  exact ⟨(owned_ok ho).2, (pure_ok.mp h).symm⟩

lemma checkRequest_query (h : checkRequest placement place (.query host key payload attachment) = .ok ops) :
    ∃ routes, (⟨host, placement⟩ : Routed).routes key true = .ok routes ∧
      ops = routes.map fun route => (route.1, .query route.2 payload attachment) := by
  obtain ⟨routes, hr, h⟩ := bind_ok.mp (checkRequest_performs h)
  obtain ⟨_, -, h⟩ := bind_ok.mp h
  exact ⟨routes, hr, (pure_ok.mp h).symm⟩

lemma accepted_ask : accepted placement slot (calls ++ [.ask request]) = accepted placement slot calls ++
    if request.slot = some slot ∧ Accepted placement calls.length request = true
      then [(calls.length, ⟨calls.length, request.host, request.key⟩)] else [] := by
  rw [accepted, live_append, advance, asks]
  split_ifs <;> simp [drops, accepted]

lemma accepted_drop {other : Slot} : accepted placement slot (calls ++ [.drop other target]) =
    if other = slot then (accepted placement slot calls).filter (·.2.id != target)
    else accepted placement slot calls := by
  rw [accepted, live_append, advance, asks]
  split_ifs with hs
  · simp only [Option.map_none, Option.toList_none, append_nil, drops, hs, decide_true, Bool.true_and]
    rfl
  · simp [drops, hs, accepted]

lemma Tracks.still (h : Tracks placement calls network)
    (hn : request.slot = none ∨ Accepted placement calls.length request = false) :
    Tracks placement (calls ++ [.ask request]) network := by
  have hr : ∀ slot, accepted placement slot (calls ++ [.ask request]) = accepted placement slot calls := by
    intro slot
    rw [accepted_ask, if_neg, append_nil]
    rintro ⟨hs, ha⟩
    rcases hn with hn | hn
    · cases hs.symm.trans hn
    · cases ha.symm.trans hn
  refine ⟨?_, ?_, ?_, ?_⟩ <;> rw [hr]
  · exact h.localSubscribers
  · exact h.remoteSubscribers
  · exact h.localResponders
  · exact h.remoteResponders

lemma accepted_ok (ha : checkRequest placement place request = .ok ops) :
    Accepted placement place request = true := by
  rw [Accepted, ha]
  rfl

lemma Tracks.subscribe (h : Tracks placement calls network)
    (ha : checkRequest placement calls.length (.subscribe host key) = .ok ops) :
    Tracks placement (calls ++ [.ask (.subscribe host key)]) (network.performAll host calls.length ops).2 := by
  have hac := accepted_ok ha
  obtain ⟨routes, hrts, rfl⟩ := checkRequest_subscribe ha
  obtain ⟨hl, hre, hresp, hr⟩ := @performAll_subscribe network host calls.length routes
  have hs : accepted placement .subscriber (calls ++ [.ask (.subscribe host key)]) = _ :=
    accepted_ask.trans (congrArg _ (if_pos ⟨rfl, hac⟩))
  have hresps : accepted placement .responder (calls ++ [.ask (.subscribe host key)]) = _ :=
    (accepted_ask.trans (congrArg _ (if_neg (by simp [Request.slot])))).trans (append_nil _)
  have hp : ∀ side, parts placement side (calls.length, ⟨calls.length, host, key⟩) =
      (routes.filter (·.1 = side)).map fun route => (calls.length, ⟨calls.length, route.2⟩) := by
    intro side
    simp only [parts, routesOf, hrts]
  refine ⟨?_, ?_, ?_, ?_⟩
  · intro other
    rw [hl, h.localSubscribers, hs, filter_append, flatMap_append]
    congr 1
    split_ifs with ho
    · subst ho
      simp [hp, Request.host, Request.key]
    · simp [ho, Request.host]
  · rw [hre, h.remoteSubscribers, hs, flatMap_append, flatMap_singleton]
    exact congrArg _ (hp .remote).symm
  · intro other
    rw [hresp, h.localResponders, hresps]
  · rw [hr, h.remoteResponders, hresps]

lemma Tracks.respond (h : Tracks placement calls network)
    (ha : checkRequest placement calls.length (.respond host key) = .ok ops) :
    Tracks placement (calls ++ [.ask (.respond host key)]) (network.performAll host calls.length ops).2 := by
  have hac := accepted_ok ha
  obtain rfl := checkRequest_respond ha
  have hs : accepted placement .subscriber (calls ++ [.ask (.respond host key)]) = _ :=
    (accepted_ask.trans (congrArg _ (if_neg (by simp [Request.slot])))).trans (append_nil _)
  have hr : accepted placement .responder (calls ++ [.ask (.respond host key)]) = _ :=
    accepted_ask.trans (congrArg _ (if_pos ⟨rfl, hac⟩))
  refine ⟨?_, ?_, ?_, ?_⟩
  · intro other
    rw [hs, ← h.localSubscribers]
    by_cases ho : other = host
    · subst ho
      simp [Network.performAll, Network.perform, Bus.handle]
    · simp [Network.performAll, Network.perform, Function.update_of_ne ho]
  · rw [hs, ← h.remoteSubscribers]
    rfl
  · intro other
    rw [hr, filter_append, map_append, ← h.localResponders]
    by_cases ho : other = host
    · subst ho
      simp [Network.performAll, Network.perform, Bus.handle, whole, Request.host, Request.key]
    · have hne : ¬ host = other := fun heq => ho heq.symm
      simp [Network.performAll, Network.perform, Function.update_of_ne ho, hne, Request.host]
  · rw [hr, map_append, ← h.remoteResponders]
    rfl

lemma parts_id {entry : ℕ × Asked} {part : ℕ × Registration} (h : part ∈ parts placement side entry) :
    part.2.id = entry.2.id := by
  obtain ⟨route, -, rfl⟩ := mem_map.mp h
  rfl

lemma handle_remove {bus : Bus} :
    ((bus.handle place (.remove slot target)).2.subscribers =
      if slot = .subscriber then bus.subscribers.filter (·.2.id != target) else bus.subscribers) ∧
    (bus.handle place (.remove slot target)).2.responders =
      if slot = .responder then bus.responders.filter (·.2.id != target) else bus.responders := by
  cases slot with
  | token =>
    rw [Bus.handle]
    split <;> exact ⟨rfl, rfl⟩
  | _ => exact ⟨rfl, rfl⟩

lemma filter_swap {α : Type} {l : List α} {p q : α → Bool} : (l.filter p).filter q = (l.filter q).filter p := by
  rw [filter_filter, filter_filter]
  simp only [Bool.and_comm]

lemma Tracks.drop (h : Tracks placement calls network) :
    Tracks placement (calls ++ [.drop slot target])
      (network.call placement calls.length (.drop slot target)).2 := by
  refine ⟨?_, ?_, ?_, ?_⟩
  · intro other
    rw [Network.call, handle_remove.1, accepted_drop, h.localSubscribers]
    split_ifs
    · rw [Lists.filter_flatMap_blocks (q := fun entry => entry.2.id != target), filter_swap]
      intro entry part hp
      rw [parts_id hp]
    · rfl
  · rw [Network.call, handle_remove.1, accepted_drop, h.remoteSubscribers]
    split_ifs
    · apply Lists.filter_flatMap_blocks
      intro entry part hp
      rw [parts_id hp]
    · rfl
  · intro other
    rw [Network.call, handle_remove.2, accepted_drop, h.localResponders]
    split_ifs
    · rw [filter_map, filter_swap]
      rfl
    · rfl
  · rw [Network.call, handle_remove.2, accepted_drop, h.remoteResponders]
    split_ifs
    · rw [filter_map]
      rfl
    · rfl

lemma queries_still :
    ∀ item ∈ routes.map (fun route => (route.1, Op.query route.2 payload attachment)),
      ∀ bus : Bus, (bus.handle place item.2).2 = bus := by
  intro item hit bus
  obtain ⟨route, -, rfl⟩ := mem_map.mp hit
  rfl

lemma Tracks.call {call : Call} (h : Tracks placement calls network) :
    Tracks placement (calls ++ [call]) (network.call placement calls.length call).2 := by
  cases call with
  | drop slot target => exact h.drop
  | ask request =>
    rw [Network.call]
    cases ha : checkRequest placement calls.length request with
    | error e =>
      exact h.still (.inr (by rw [Accepted, ha]; rfl))
    | ok ops =>
      cases request with
      | subscribe host key => exact h.subscribe ha
      | respond host key => exact h.respond ha
      | publish host key congestion payload attachment timestamps =>
        obtain ⟨-, rfl⟩ := checkRequest_publish ha
        dsimp only
        rw [performAll_still (by simp [Bus.handle])]
        exact h.still (.inl rfl)
      | query host key payload attachment =>
        obtain ⟨routes, -, rfl⟩ := checkRequest_query ha
        dsimp only
        rw [performAll_still queries_still]
        exact h.still (.inl rfl)

lemma network_tracks : Tracks placement calls (networkAfter placement calls) := by
  induction calls using List.reverseRecOn with
  | nil => exact ⟨fun _ => rfl, rfl, fun _ => rfl, rfl⟩
  | append_singleton calls call ih =>
    rw [networkAfter, after_append]
    exact ih.call

end Registrations

section Deliveries

variable {placement : Placement} {calls : List Call} {network : Network} {host : String} {i k : ℕ}
  {request : Request} {notices : List Notice} {key : Key} {asked : Asked} {slot : Slot}

def Notice.callback : Notice → ℕ
  | .sample callback _ | .presence callback _ | .query callback _ | .alive callback _ => callback

def Held (calls : List Call) (slot : Slot) (i k : ℕ) : Prop :=
  i < k ∧ ∀ j, i < j → j < k → calls[j]? ≠ some (.drop slot i)

def Placed (placement : Placement) (key : Key) : Prop :=
  ∀ ns, key.source = some ns → ∃ owner, placement[ns]? = some owner

def OwnedBy (placement : Placement) (host : String) (key : Key) : Prop :=
  (∃ ns, key.source = some ns ∧ placement[ns]? = some host) ∧ '*' ∉ key.display.toList

def Admissible (placement : Placement) (request : Request) : Prop :=
  (∃ engine, Routed.new request.host placement = .ok engine) ∧ request.key.Valid ∧
    match request with
    | .subscribe _ key => Placed placement key ∧ (key.endpoint.isSome = true ∨
        key.chunk.all (fun chunk => (schemaName chunk).isNone) = true)
    | .query _ key _ _ => Placed placement key
    | .respond host key => OwnedBy placement host key
    | .publish host key congestion _ _ _ => OwnedBy placement host key ∧ congestion = .backendDefault

variable {engine : Routed} {attachment : Option Payload} {place : ℕ} {ns : String}
  {congestion : CongestionControl} {payload : Payload} {timestamps : Option UInt64 × Option UInt64}

lemma namespaces_placed :
    (∃ entries, engine.namespaces key.source = .ok entries) ↔ Placed engine.placement key := by
  rw [Placed]
  cases key.source with
  | none => exact ⟨fun _ _ => nofun, fun _ => ⟨_, rfl⟩⟩
  | some ns =>
    simp only [Routed.namespaces, bind_ok, ofOption_ok, pure_ok]
    constructor
    · rintro ⟨entries, owner, ho, -⟩ _ ⟨rfl⟩
      exact ⟨owner, ho⟩
    · intro h
      obtain ⟨owner, ho⟩ := h ns rfl
      exact ⟨[(ns, owner)], owner, ho, rfl⟩

lemma routes_exist {query : Bool} : (∃ routes, engine.routes key query = .ok routes) ↔
    key.Valid ∧ (query = true ∨ key.endpoint.isSome = true ∨
      key.chunk.all (fun chunk => (schemaName chunk).isNone) = true) ∧ Placed engine.placement key := by
  rw [← namespaces_placed]
  constructor
  · rintro ⟨routes, h⟩
    obtain ⟨hv, hd, entries, hes, -⟩ := routes_ok.mp h
    exact ⟨hv, hd, entries, hes⟩
  · rintro ⟨hv, hd, entries, hes⟩
    exact ⟨_, routes_ok.mpr ⟨hv, hd, entries, hes, rfl⟩⟩

lemma owned_iff : engine.owned key = .ok () ↔ key.Valid ∧ OwnedBy engine.placement engine.host key := by
  unfold Routed.owned OwnedBy
  simp only [bind_ok, validate_ok, ensure_ok, exists_const, Option.any_eq_true, beq_iff_eq]

lemma accepted_performs : Accepted placement place request = true ↔
    ∃ engine, Routed.new request.host placement = .ok engine ∧ ∃ ops, engine.perform place request = .ok ops := by
  rw [Accepted]
  constructor
  · intro h
    cases ha : checkRequest placement place request with
    | error e =>
      rw [ha] at h
      cases h
    | ok ops =>
      obtain ⟨engine, hn, hp⟩ := checkRequest_ok.mp ha
      exact ⟨engine, hn, ops, hp⟩
  · rintro ⟨engine, hn, ops, hp⟩
    rw [checkRequest_ok.mpr ⟨engine, hn, hp⟩]
    rfl

lemma accepted_iff : Accepted placement place request = true ↔ Admissible placement request := by
  rw [accepted_performs]
  unfold Admissible
  constructor
  · rintro ⟨engine, hn, ops, hp⟩
    obtain ⟨rfl, -⟩ := new_ok hn
    refine ⟨⟨_, hn⟩, ?_⟩
    cases request with
    | subscribe host key =>
      simp only [Routed.perform, bind_ok, pure_ok] at hp
      obtain ⟨routes, hr, -⟩ := hp
      obtain ⟨hv, hd, hpl⟩ := routes_exist.mp ⟨routes, hr⟩
      exact ⟨hv, hpl, hd.resolve_left nofun⟩
    | query host key payload attachment =>
      simp only [Routed.perform, bind_ok, pure_ok] at hp
      obtain ⟨routes, hr, -⟩ := hp
      obtain ⟨hv, -, hpl⟩ := routes_exist.mp ⟨routes, hr⟩
      exact ⟨hv, hpl⟩
    | respond host key =>
      simp only [Routed.perform, bind_ok, pure_ok] at hp
      obtain ⟨_, ho, -⟩ := hp
      exact owned_iff.mp ho
    | publish host key congestion payload attachment timestamps =>
      simp only [Routed.perform, bind_ok, pure_ok, ensure_ok] at hp
      obtain ⟨_, ho, _, -, _, hc, -⟩ := hp
      obtain ⟨hv, ho⟩ := owned_iff.mp ho
      exact ⟨hv, ho, hc⟩
  · rintro ⟨⟨engine, hn⟩, hv, h⟩
    obtain ⟨rfl, hs⟩ := new_ok hn
    refine ⟨_, hn, ?_⟩
    cases request with
    | subscribe host key =>
      obtain ⟨routes, hr⟩ := (@routes_exist key ⟨host, placement⟩ false).mpr ⟨hv, .inr h.2, h.1⟩
      simp only [Routed.perform, bind_ok, pure_ok]
      exact ⟨_, routes, hr, (), routes_valid hs hr, rfl⟩
    | query host key payload attachment =>
      obtain ⟨routes, hr⟩ := (@routes_exist key ⟨host, placement⟩ true).mpr ⟨hv, .inl rfl, h⟩
      simp only [Routed.perform, bind_ok, pure_ok]
      exact ⟨_, routes, hr, (), routes_valid hs hr, rfl⟩
    | respond host key =>
      simp only [Routed.perform, bind_ok, pure_ok]
      exact ⟨_, (), owned_iff.mpr ⟨hv, h⟩, (), validate_ok.mpr hv, rfl⟩
    | publish host key congestion payload attachment timestamps =>
      simp only [Routed.perform, bind_ok, pure_ok, ensure_ok]
      exact ⟨_, (), owned_iff.mpr ⟨hv, h.1⟩, (), validate_ok.mpr hv, (), h.2, rfl⟩

lemma answers_ask (h : calls[k]? = some (.ask request)) :
    (∃ notices, (answers placement calls)[k]? = some (.ok notices)) ↔ Admissible placement request := by
  rw [← @accepted_iff placement request k, answers, outputs_getElem h, Network.call, Accepted]
  cases checkRequest placement k request with
  | error e => exact ⟨nofun, nofun⟩
  | ok ops => exact ⟨fun _ => rfl, fun _ => ⟨_, rfl⟩⟩

lemma drops_iff {call : Call} : drops slot call asked = true ↔ call = .drop slot asked.id := by
  cases call with
  | ask request => exact ⟨nofun, nofun⟩
  | drop dropped target =>
    rw [drops, Bool.and_eq_true, decide_eq_true_eq, beq_iff_eq, Call.drop.injEq, eq_comm (a := target)]

lemma mem_accepted : (i, asked) ∈ accepted placement slot (calls.take k) ↔ ∃ request,
    asked = ⟨i, request.host, request.key⟩ ∧ calls[i]? = some (.ask request) ∧ request.slot = some slot ∧
      Admissible placement request ∧ Held calls slot i k := by
  rw [accepted, mem_live_take fun _ => drops_iff]
  constructor
  · rintro ⟨⟨call, hc, ha⟩, hh⟩
    cases call with
    | drop => cases ha
    | ask request =>
      rw [asks] at ha
      split_ifs at ha with hs
      cases ha
      exact ⟨request, rfl, hc, hs.1, accepted_iff.mp hs.2, hh⟩
  · rintro ⟨request, rfl, hc, hs, ha, hh⟩
    exact ⟨⟨_, hc, if_pos ⟨hs, accepted_iff.mpr ha⟩⟩, hh⟩

lemma mem_subscriptions : (i, asked) ∈ accepted placement .subscriber (calls.take k) ↔
    asked.id = i ∧ calls[i]? = some (.ask (.subscribe asked.host asked.key)) ∧
      Admissible placement (.subscribe asked.host asked.key) ∧ Held calls .subscriber i k := by
  rw [mem_accepted]
  constructor
  · rintro ⟨request, rfl, hc, hs, ha⟩
    cases request <;> cases hs
    exact ⟨rfl, hc, ha⟩
  · rintro ⟨rfl, hc, ha⟩
    exact ⟨_, rfl, hc, rfl, ha⟩

lemma mem_responders : (i, asked) ∈ accepted placement .responder (calls.take k) ↔
    asked.id = i ∧ calls[i]? = some (.ask (.respond asked.host asked.key)) ∧
      Admissible placement (.respond asked.host asked.key) ∧ Held calls .responder i k := by
  rw [mem_accepted]
  constructor
  · rintro ⟨request, rfl, hc, hs, ha⟩
    cases request <;> cases hs
    exact ⟨rfl, hc, ha⟩
  · rintro ⟨rfl, hc, ha⟩
    exact ⟨_, rfl, hc, rfl, ha⟩

lemma parts_matching {owner : String} {side : Side}
    (ha : Admissible placement (.subscribe asked.host asked.key)) (hns : key.source = some ns)
    (ho : placement[ns]? = some owner) :
    ((parts placement side (i, asked)).filter fun part => part.2.key.matches key).map (·.1) =
      if asked.key.matches key = true ∧ ((⟨asked.host, placement⟩ : Routed).route asked.key (ns, owner)).1 = side
        then [i] else [] := by
  obtain ⟨-, hv, hpl, hd⟩ := ha
  obtain ⟨routes, hr⟩ := (@routes_exist asked.key ⟨asked.host, placement⟩ false).mpr
    ⟨hv, .inr hd, hpl⟩
  have hp : parts placement side (i, asked) =
      (routes.filter (·.1 = side)).map fun route => (i, ⟨asked.id, route.2⟩) := by
    simp only [parts, routesOf, hr]
  rw [hp, filter_map, map_map, filter_filter]
  have hu := route_unique side hr hns ho
  simp only [Function.comp_def, Bool.and_comm] at hu ⊢
  rw [hu]
  split <;> rfl

lemma answers_ok (h : calls[k]? = some (.ask request))
    (hans : (answers placement calls)[k]? = some (.ok notices)) :
    ∃ ops, checkRequest placement k request = .ok ops ∧
      notices = ((networkAfter placement (calls.take k)).performAll request.host k ops).1 := by
  rw [answers, outputs_getElem h, Network.call] at hans
  cases ha : checkRequest placement k request with
  | error e =>
    rw [ha] at hans
    cases hans
  | ok ops =>
    rw [ha] at hans
    cases hans
    exact ⟨ops, rfl, rfl⟩

lemma publish_callbacks
    (h : calls[k]? = some (.ask (.publish host key congestion payload attachment timestamps)))
    (hans : (answers placement calls)[k]? = some (.ok notices)) :
    (notices.map Notice.callback).Perm
        (((accepted placement .subscriber (calls.take k)).filter fun entry => entry.2.key.matches key).map (·.1)) ∧
      ∀ notice ∈ notices, ∃ callback time, notice = .sample callback ⟨key, payload, attachment, time⟩ := by
  obtain ⟨ops, ha, rfl⟩ := answers_ok h hans
  obtain ⟨⟨ns, hns, ho⟩, rfl⟩ := checkRequest_publish ha
  have ht := @network_tracks placement (calls.take k)
  rw [performAll_still (by simp [Bus.handle])]
  refine ⟨?_, ?_⟩
  · have hs : ∀ side (entries : List (ℕ × Asked)),
      (∀ entry ∈ entries, entry ∈ accepted placement .subscriber (calls.take k)) →
        ((entries.flatMap (parts placement side)).filter fun part => part.2.key.matches key).map (·.1) =
          (entries.filter fun entry => decide (entry.2.key.matches key = true ∧
            ((⟨entry.2.host, placement⟩ : Routed).route entry.2.key (ns, host)).1 = side)).map (·.1) := by
      intro side entries hes
      apply Lists.filter_flatMap_singles
      rintro ⟨i, asked⟩ he
      simp only [decide_eq_true_eq]
      exact parts_matching (mem_subscriptions.mp (hes _ he)).2.2.1 hns ho
    have hl := hs .localBus ((accepted placement .subscriber (calls.take k)).filter (·.2.host = host))
      fun entry he => mem_of_mem_filter he
    have hr := hs .remote (accepted placement .subscriber (calls.take k)) fun entry he => he
    simp only [flatMap_cons, flatMap_nil, append_nil, Network.bus, Bus.handle, map_append,
      map_map]
    have hc : ∀ (sample : Delivery) (list : List (ℕ × Registration)),
        list.map (Notice.callback ∘ fun entry => Notice.sample entry.1 sample) = list.map (·.1) := fun _ _ => rfl
    rw [hc, hc, Request.host, ht.localSubscribers, ht.remoteSubscribers, hl, hr,
      ← map_append]
    apply List.Perm.map
    have hsp := filter_append_perm (fun entry : ℕ × Asked => decide (entry.2.host = host))
      ((accepted placement .subscriber (calls.take k)).filter fun entry => entry.2.key.matches key)
    refine List.Perm.trans (List.Perm.of_eq ?_) hsp
    rw [filter_filter, filter_filter, filter_filter]
    congr 1
    · apply filter_congr
      intro entry _
      by_cases hh : entry.2.host = host <;> simp [Routed.route, hh]
    · apply filter_congr
      intro entry _
      by_cases hh : entry.2.host = host
      · simp [Routed.route, hh]
      · have hne : ¬ host = entry.2.host := fun heq => hh heq.symm
        simp [Routed.route, hh, hne]
  · intro notice hn
    simp only [flatMap_cons, flatMap_nil, append_nil, mem_append, Bus.handle, mem_map] at hn
    rcases hn with ⟨entry, -, rfl⟩ | ⟨entry, -, rfl⟩
    · exact ⟨_, _, rfl⟩
    · exact ⟨_, _, rfl⟩

lemma Tracks.responders_on (h : Tracks placement calls network) (host : String) (side : Side) :
    (network.bus host side).responders =
      ((accepted placement .responder calls).filter fun entry =>
        decide (side = .localBus → entry.2.host = host)).map whole := by
  cases side with
  | localBus =>
    rw [Network.bus, h.localResponders]
    simp
  | remote =>
    rw [Network.bus, h.remoteResponders]
    simp

lemma route_responders {entry : String × String} (h : Tracks placement (calls.take k) network)
    (hpl : placement[entry.1]? = some entry.2) (hco : key.source.all (fun name => name == entry.1) = true) :
    let route := (⟨host, placement⟩ : Routed).route key entry
    let callbacks := ((network.bus host route.1).responders.filter fun item => route.2.matches item.2.key).map (·.1)
    callbacks.Nodup ∧ ∀ i, i ∈ callbacks ↔ ∃ asked, (i, asked) ∈ accepted placement .responder (calls.take k) ∧
      key.matches asked.key = true ∧ asked.key.source = some entry.1 := by
  intro route callbacks
  have hs : (accepted placement .responder (calls.take k)).Pairwise fun a b => a.1 < b.1 := live_sorted
  have hc : callbacks = (((accepted placement .responder (calls.take k)).filter fun item =>
      decide (route.1 = .localBus → item.2.host = host)).filter fun item => route.2.matches item.2.key).map
        (·.1) := by
    simp only [callbacks, h.responders_on, filter_map, map_map]
    rfl
  rw [hc]
  refine ⟨?_, ?_⟩
  · exact List.Pairwise.imp Nat.ne_of_lt (pairwise_map.mpr ((hs.filter _).filter _))
  · intro i
    simp only [mem_map, mem_filter, decide_eq_true_eq, Prod.exists]
    constructor
    · rintro ⟨_, asked, ⟨⟨hm, -⟩, hmat⟩, rfl⟩
      obtain ⟨hmat, hsrc⟩ := (matches_source hco).mp hmat
      exact ⟨asked, hm, hmat, hsrc⟩
    · rintro ⟨asked, hm, hmat, hsrc⟩
      refine ⟨i, asked, ⟨⟨hm, ?_⟩, (matches_source hco).mpr ⟨hmat, hsrc⟩⟩, rfl⟩
      -- the responder is on the host that its namespace is placed on
      intro hl
      obtain ⟨-, -, ha, -⟩ := mem_responders.mp hm
      obtain ⟨-, -, ⟨ns, hns, ho⟩, -⟩ := ha
      rw [hsrc] at hns
      cases hns
      have heq : entry.2 = asked.host := Option.some.inj (hpl.symm.trans ho)
      by_contra hne
      simp [route, Routed.route, heq, hne] at hl

lemma query_callbacks {payload : Option Payload}
    (h : calls[k]? = some (.ask (.query host key payload attachment)))
    (hans : (answers placement calls)[k]? = some (.ok notices)) :
    (notices.map Notice.callback).Nodup ∧
      (∀ i, i ∈ notices.map Notice.callback ↔
        ∃ asked, (i, asked) ∈ accepted placement .responder (calls.take k) ∧ key.matches asked.key = true) ∧
      ∀ notice ∈ notices, ∃ callback ns,
        notice = .query callback ⟨{ key with source := some ns }, payload, attachment, k⟩ := by
  obtain ⟨ops, hacc, rfl⟩ := answers_ok h hans
  obtain ⟨routes, hrts, rfl⟩ := checkRequest_query hacc
  obtain ⟨-, -, entries, hes, rfl⟩ := routes_ok.mp hrts
  obtain ⟨hnd, hm⟩ := namespaces_ok hes
  have ht := @network_tracks placement (calls.take k)
  have hso : (accepted placement .responder (calls.take k)).Pairwise fun a b => a.1 < b.1 := live_sorted
  rw [performAll_still queries_still]
  have hc : (((entries.map ((⟨host, placement⟩ : Routed).route key)).map fun route =>
      (route.1, Op.query route.2 payload attachment)).flatMap fun item =>
        (((networkAfter placement (calls.take k)).bus host item.1).handle k item.2).1).map Notice.callback =
      entries.flatMap fun entry => ((((networkAfter placement (calls.take k)).bus host
        ((⟨host, placement⟩ : Routed).route key entry).1).responders.filter fun item =>
          ((⟨host, placement⟩ : Routed).route key entry).2.matches item.2.key).map (·.1)) := by
    rw [map_map, flatMap_map, map_flatMap]
    congr 1
    funext entry
    rw [Function.comp_apply, Bus.handle, map_map]
    rfl
  have hr := fun entry he => @route_responders placement calls _ host k key entry ht
    ((hm entry).mp he).1 ((hm entry).mp he).2
  refine ⟨?_, ?_, ?_⟩
  · rw [Request.host, hc, nodup_flatMap]
    refine ⟨fun entry he => (hr entry he).1, ?_⟩
    apply List.Pairwise.imp_of_mem _ hnd
    intro a b ha hb hne i hia hib
    obtain ⟨asked, has, -, hsrc⟩ := ((hr a ha).2 i).mp hia
    obtain ⟨other, ho, -, hs'⟩ := ((hr b hb).2 i).mp hib
    cases place_unique hso has ho
    have hs : a.1 = b.1 := Option.some.inj (hsrc.symm.trans hs')
    have hpl := ((hm a).mp ha).1
    rw [hs, ((hm b).mp hb).1] at hpl
    exact hne (Prod.ext hs (Option.some.inj hpl).symm)
  · intro i
    rw [Request.host, hc, mem_flatMap]
    constructor
    · rintro ⟨entry, he, hi⟩
      obtain ⟨asked, has, hmat, -⟩ := ((hr entry he).2 i).mp hi
      exact ⟨asked, has, hmat⟩
    · rintro ⟨asked, has, hmat⟩
      obtain ⟨-, -, hadm, -⟩ := mem_responders.mp has
      obtain ⟨-, -, ⟨ns, hns, how⟩, -⟩ := hadm
      have he : (ns, asked.host) ∈ entries := (hm _).mpr ⟨how, matches_covers hmat hns⟩
      exact ⟨_, he, ((hr _ he).2 i).mpr ⟨asked, has, hmat, hns⟩⟩
  · intro notice hn
    rw [map_map, flatMap_map, mem_flatMap] at hn
    obtain ⟨entry, -, hn⟩ := hn
    rw [Function.comp_apply, Bus.handle, mem_map] at hn
    obtain ⟨item, -, rfl⟩ := hn
    exact ⟨item.1, entry.1, rfl⟩

lemma publish_reaches
    (h : calls[k]? = some (.ask (.publish host key congestion payload attachment timestamps)))
    (hans : (answers placement calls)[k]? = some (.ok notices)) :
    (∀ notice ∈ notices, ∃ callback time, notice = .sample callback ⟨key, payload, attachment, time⟩) ∧
      (notices.map Notice.callback).Nodup ∧
      ∀ i, i ∈ notices.map Notice.callback ↔ ∃ subscriber pattern,
        calls[i]? = some (.ask (.subscribe subscriber pattern)) ∧
          Admissible placement (.subscribe subscriber pattern) ∧ Held calls .subscriber i k ∧
          pattern.matches key = true := by
  obtain ⟨hp, hs⟩ := publish_callbacks h hans
  have hso : (accepted placement .subscriber (calls.take k)).Pairwise fun a b => a.1 < b.1 := live_sorted
  refine ⟨hs, ?_, ?_⟩
  · rw [hp.nodup_iff]
    exact List.Pairwise.imp Nat.ne_of_lt (pairwise_map.mpr (hso.filter _))
  · intro i
    rw [hp.mem_iff, mem_map]
    constructor
    · rintro ⟨⟨_, asked⟩, hm, rfl⟩
      rw [mem_filter, mem_subscriptions] at hm
      obtain ⟨⟨-, hc, ha, hh⟩, hmat⟩ := hm
      exact ⟨_, _, hc, ha, hh, hmat⟩
    · rintro ⟨subscriber, pattern, hc, ha, hh, hmat⟩
      refine ⟨(i, ⟨i, subscriber, pattern⟩), mem_filter.mpr ⟨?_, hmat⟩, rfl⟩
      exact mem_subscriptions.mpr ⟨rfl, hc, ha, hh⟩

lemma query_reaches {payload : Option Payload}
    (h : calls[k]? = some (.ask (.query host key payload attachment)))
    (hans : (answers placement calls)[k]? = some (.ok notices)) :
    (∀ notice ∈ notices, ∃ callback ns,
        notice = .query callback ⟨{ key with source := some ns }, payload, attachment, k⟩) ∧
      (notices.map Notice.callback).Nodup ∧
      ∀ i, i ∈ notices.map Notice.callback ↔ ∃ responder address,
        calls[i]? = some (.ask (.respond responder address)) ∧
          Admissible placement (.respond responder address) ∧ Held calls .responder i k ∧
          key.matches address = true := by
  obtain ⟨hnd, hm, hq⟩ := query_callbacks h hans
  refine ⟨hq, hnd, ?_⟩
  intro i
  rw [hm]
  constructor
  · rintro ⟨asked, ha, hmat⟩
    obtain ⟨-, hc, hadm, hh⟩ := mem_responders.mp ha
    exact ⟨_, _, hc, hadm, hh, hmat⟩
  · rintro ⟨responder, address, hc, hadm, hh, hmat⟩
    exact ⟨⟨i, responder, address⟩, mem_responders.mpr ⟨rfl, hc, hadm, hh⟩, hmat⟩

lemma Admissible.placed (h : Admissible placement request) (hns : request.key.source = some ns) :
    ∃ owner, placement[ns]? = some owner := by
  obtain ⟨-, -, hpl⟩ := h
  cases request with
  | subscribe host key => exact hpl.1 ns hns
  | query host key payload attachment => exact hpl ns hns
  | respond host key =>
    obtain ⟨⟨name, hn, ho⟩, -⟩ := hpl
    cases hns.symm.trans hn
    exact ⟨_, ho⟩
  | publish host key congestion payload attachment timestamps =>
    obtain ⟨⟨⟨name, hn, ho⟩, -⟩, -⟩ := hpl
    cases hns.symm.trans hn
    exact ⟨_, ho⟩

lemma answers_refused (h : calls[k]? = some (.ask request)) (hn : ¬ Admissible placement request) :
    ∃ e, (answers placement calls)[k]? = some (.error e) := by
  rw [← answers_ask h] at hn
  rw [answers, outputs_getElem h] at hn ⊢
  cases ha : (Network.call placement (after (Network.call placement) {} (calls.take k)) k (.ask request)).1 with
  | error e => exact ⟨e, rfl⟩
  | ok notices =>
    rw [ha] at hn
    exact absurd ⟨notices, rfl⟩ hn

/-- A sample reaches each subscription that matches it once, and a query each responder, on whichever host they are. -/
theorem routed_exactly_once (placement : Placement) (calls : List Call) :
    (∀ (k : ℕ) request, calls[k]? = some (.ask request) →
      ((∃ notices, (answers placement calls)[k]? = some (.ok notices)) ↔ Admissible placement request)) ∧
    (∀ (k : ℕ) host key congestion payload attachment timestamps notices,
      calls[k]? = some (.ask (.publish host key congestion payload attachment timestamps)) →
      (answers placement calls)[k]? = some (.ok notices) →
      (∀ notice ∈ notices, ∃ callback time, notice = .sample callback ⟨key, payload, attachment, time⟩) ∧
      (notices.map Notice.callback).Nodup ∧
      ∀ i, i ∈ notices.map Notice.callback ↔ ∃ subscriber pattern,
        calls[i]? = some (.ask (.subscribe subscriber pattern)) ∧
          Admissible placement (.subscribe subscriber pattern) ∧ Held calls .subscriber i k ∧
          pattern.matches key = true) ∧
    (∀ (k : ℕ) host key payload attachment notices,
      calls[k]? = some (.ask (.query host key payload attachment)) →
      (answers placement calls)[k]? = some (.ok notices) →
      (∀ notice ∈ notices, ∃ callback ns,
        notice = .query callback ⟨{ key with source := some ns }, payload, attachment, k⟩) ∧
      (notices.map Notice.callback).Nodup ∧
      ∀ i, i ∈ notices.map Notice.callback ↔ ∃ responder address,
        calls[i]? = some (.ask (.respond responder address)) ∧
          Admissible placement (.respond responder address) ∧ Held calls .responder i k ∧
          key.matches address = true) ∧
    ∀ (k : ℕ) (request : Request) ns, calls[k]? = some (.ask request) → request.key.source = some ns →
      placement[ns]? = none →
      ∃ e, (answers placement calls)[k]? = some (.error e) := by
  refine ⟨fun k request => answers_ask, ?_, ?_, ?_⟩
  · intro k host key congestion payload attachment timestamps notices h hans
    exact publish_reaches h hans
  · intro k host key payload attachment notices h hans
    exact query_reaches h hans
  · intro k request ns h hns hu
    refine answers_refused h ?_
    intro ha
    obtain ⟨owner, ho⟩ := ha.placed hns
    rw [hu] at ho
    cases ho

end Deliveries

end Reiny.Engine
