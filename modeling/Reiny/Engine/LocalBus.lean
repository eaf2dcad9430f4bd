import Reiny.Engine.Selectors
import Reiny.Lib.Registry
import Reiny.Lib.Sequence

/-! The bus of one process: every operation on it is handled in order by one thread. -/

namespace Reiny.Engine

open Lib Registry Sequence List

abbrev Payload := List UInt8

structure Delivery where
  key : Key
  payload : Payload
  attachment : Option Payload
  timestamp : Option UInt64
deriving DecidableEq

inductive Presence
  | joined (key : Key)
  | left (key : Key)
deriving DecidableEq

def Presence.key : Presence → Key
  | .joined key | .left key => key

inductive Slot
  | subscriber | token | watcher | responder
deriving DecidableEq

/-- The callbacks and reply channels that the operations carry are named by the place of the operation: none of
them is carried by two. -/
inductive Op
  | subscribe (id : ℕ) (key : Key)
  | publish (sample : Delivery)
  | token (id : ℕ) (key : Key)
  | watch (id : ℕ) (key : Key)
  | respond (id : ℕ) (key : Key)
  | query (key : Key) (payload attachment : Option Payload)
  | alive (key : Key)
  | remove (slot : Slot) (id : ℕ)

structure LocalQuery where
  key : Key
  payload : Option Payload
  attachment : Option Payload
  reply : ℕ

inductive Notice
  | sample (callback : ℕ) (sample : Delivery)
  | presence (callback : ℕ) (event : Presence)
  | query (callback : ℕ) (query : LocalQuery)
  | alive (reply : ℕ) (keys : List Key)

structure Registration where
  id : ℕ
  key : Key

structure Bus where
  subscribers : List (ℕ × Registration) := []
  tokens : List (ℕ × Registration) := []
  watchers : List (ℕ × Registration) := []
  responders : List (ℕ × Registration) := []

namespace Bus

def presence (bus : Bus) (event : Presence) : List Notice :=
  (bus.watchers.filter fun watcher => watcher.2.key.matches event.key).map fun watcher =>
    .presence watcher.1 event

def handle (bus : Bus) (place : ℕ) : Op → List Notice × Bus
  | .subscribe id key => ([], { bus with subscribers := bus.subscribers ++ [(place, ⟨id, key⟩)] })
  | .publish sample =>
    ((bus.subscribers.filter fun entry => entry.2.key.matches sample.key).map fun entry =>
      .sample entry.1 sample, bus)
  | .token id key =>
    let bus := { bus with tokens := bus.tokens ++ [(place, ⟨id, key⟩)] }
    (bus.presence (.joined key), bus)
  | .watch id key =>
    -- what is declared already is replayed to the new watcher first
    ((bus.tokens.filter fun token => key.matches token.2.key).map fun token =>
      .presence place (.joined token.2.key), { bus with watchers := bus.watchers ++ [(place, ⟨id, key⟩)] })
  | .respond id key => ([], { bus with responders := bus.responders ++ [(place, ⟨id, key⟩)] })
  | .query key payload attachment =>
    ((bus.responders.filter fun entry => key.matches entry.2.key).map fun entry =>
      .query entry.1 ⟨key, payload, attachment, place⟩, bus)
  | .alive key =>
    ([.alive place ((bus.tokens.filter fun token => key.matches token.2.key).map (·.2.key))], bus)
  | .remove .subscriber id => ([], { bus with subscribers := bus.subscribers.filter (·.2.id != id) })
  | .remove .watcher id => ([], { bus with watchers := bus.watchers.filter (·.2.id != id) })
  | .remove .responder id => ([], { bus with responders := bus.responders.filter (·.2.id != id) })
  | .remove .token id =>
    match bus.tokens.find? (·.2.id == id) with
    | none => ([], bus)
    | some token =>
      let bus := { bus with tokens := bus.tokens.eraseP (·.2.id == id) }
      (bus.presence (.left token.2.key), bus)

end Bus

def log (ops : List Op) : List (List Notice) := outputs Bus.handle {} ops

def busAfter (ops : List Op) : Bus := after Bus.handle {} ops

variable {ops : List Op} {op : Op}

lemma busAfter_append : busAfter (ops ++ [op]) = ((busAfter ops).handle ops.length op).2 := after_append

lemma log_append : log (ops ++ [op]) = log ops ++ [((busAfter ops).handle ops.length op).1] := outputs_append

lemma log_getElem {k : ℕ} (h : ops[k]? = some op) :
    (log ops)[k]? = some ((busAfter (ops.take k)).handle k op).1 := outputs_getElem h

def Op.registers : Slot → Op → Option Registration
  | .subscriber, .subscribe id key | .token, .token id key | .watcher, .watch id key
  | .responder, .respond id key => some ⟨id, key⟩
  | _, _ => none

def Op.removes (slot : Slot) : Op → Registration → Bool
  | .remove other id, entry => decide (other = slot) && entry.id == id
  | _, _ => false

def registered (slot : Slot) (ops : List Op) : List (ℕ × Registration) :=
  live (fun _ => Op.registers slot) (Op.removes slot) ops

def Standing (ops : List Op) (slot : Slot) (id i k : ℕ) : Prop :=
  i < k ∧ ∀ j, i < j → j < k → ops[j]? ≠ some (.remove slot id)

variable {slot : Slot} {i k : ℕ} {entry : Registration} {entries : List (ℕ × Registration)} {place : ℕ} {id : ℕ}

lemma registered_append : registered slot (ops ++ [op]) =
    advance (fun _ => Op.registers slot) (Op.removes slot) (registered slot ops) ops.length op := live_append

lemma advance_remove :
    advance (fun _ => Op.registers slot) (Op.removes slot) entries place (.remove slot id) =
      entries.filter (·.2.id != id) := by
  have hr : Op.registers slot (.remove slot id) = none := by cases slot <;> rfl
  simp only [advance, hr, Op.removes, Option.map_none, Option.toList_none, append_nil,
    decide_true, Bool.true_and]
  rfl

lemma advance_other (hr : Op.registers slot op = none) (hm : Op.removes slot op = fun _ => false) :
    advance (fun _ => Op.registers slot) (Op.removes slot) entries place op = entries := by
  simp [advance, hr, hm]

lemma advance_register (hr : Op.registers slot op = some entry) (hm : Op.removes slot op = fun _ => false) :
    advance (fun _ => Op.registers slot) (Op.removes slot) entries place op = entries ++ [(place, entry)] := by
  simp [advance, hr, hm]

lemma advance_foreign {other : Slot} (h : other ≠ slot) :
    advance (fun _ => Op.registers slot) (Op.removes slot) entries place (.remove other id) = entries := by
  apply advance_other
  · cases slot <;> rfl
  · funext entry
    simp [Op.removes, h]

lemma handle_registers (bus : Bus) (place : ℕ) (op : Op) : let after := (bus.handle place op).2
    after.subscribers = advance (fun _ => Op.registers .subscriber)
      (Op.removes .subscriber) bus.subscribers place op ∧
    after.watchers = advance (fun _ => Op.registers .watcher) (Op.removes .watcher) bus.watchers place op ∧
    after.responders = advance (fun _ => Op.registers .responder)
      (Op.removes .responder) bus.responders place op := by
  cases op with
  | remove removed id =>
    cases removed with
    | token =>
      rw [advance_foreign (by decide), advance_foreign (by decide), advance_foreign (by decide), Bus.handle]
      split <;> exact ⟨rfl, rfl, rfl⟩
    | subscriber =>
      exact ⟨advance_remove.symm, (advance_foreign (by decide)).symm, (advance_foreign (by decide)).symm⟩
    | watcher =>
      exact ⟨(advance_foreign (by decide)).symm, advance_remove.symm, (advance_foreign (by decide)).symm⟩
    | responder =>
      exact ⟨(advance_foreign (by decide)).symm, (advance_foreign (by decide)).symm, advance_remove.symm⟩
  | subscribe id key =>
    exact ⟨(advance_register rfl rfl).symm, (advance_other rfl rfl).symm, (advance_other rfl rfl).symm⟩
  | watch id key =>
    exact ⟨(advance_other rfl rfl).symm, (advance_register rfl rfl).symm, (advance_other rfl rfl).symm⟩
  | respond id key =>
    exact ⟨(advance_other rfl rfl).symm, (advance_other rfl rfl).symm, (advance_register rfl rfl).symm⟩
  | publish _ | token _ _ | query _ _ _ | alive _ =>
    exact ⟨(advance_other rfl rfl).symm, (advance_other rfl rfl).symm, (advance_other rfl rfl).symm⟩

lemma busAfter_registered : (busAfter ops).subscribers = registered .subscriber ops ∧
    (busAfter ops).watchers = registered .watcher ops ∧
    (busAfter ops).responders = registered .responder ops := by
  induction ops using List.reverseRecOn with
  | nil => exact ⟨rfl, rfl, rfl⟩
  | append_singleton ops op ih =>
    obtain ⟨hs, hw, hr⟩ := ih
    obtain ⟨hs', hw', hr'⟩ := handle_registers (busAfter ops) ops.length op
    refine ⟨?_, ?_, ?_⟩
    · rw [busAfter_append, hs', hs, registered_append]
    · rw [busAfter_append, hw', hw, registered_append]
    · rw [busAfter_append, hr', hr, registered_append]

lemma removes_iff : Op.removes slot op entry = true ↔ op = .remove slot entry.id := by
  cases op with
  | remove other id =>
    rw [Op.removes, Bool.and_eq_true, decide_eq_true_eq, beq_iff_eq, Op.remove.injEq, eq_comm (a := id)]
  | _ => exact ⟨nofun, nofun⟩

lemma mem_registered : (i, entry) ∈ registered slot (ops.take k) ↔
    (∃ op, ops[i]? = some op ∧ op.registers slot = some entry) ∧ Standing ops slot entry.id i k :=
  mem_live_take fun _ => removes_iff

def heard (callback : ℕ) (notices : List Notice) : List Presence :=
  notices.filterMap fun
    | .presence target event => if target = callback then some event else none
    | _ => none

def joins (events : List Presence) : List Key :=
  events.filterMap fun
    | .joined key => some key
    | .left _ => none

def lefts (events : List Presence) : List Key :=
  events.filterMap fun
    | .joined _ => none
    | .left key => some key

def matching (pattern : Key) (tokens : List (ℕ × Registration)) : List Key :=
  (tokens.filter fun token => pattern.matches token.2.key).map (·.2.key)

def Balanced (pattern : Key) (events : List Presence) (tokens : List (ℕ × Registration)) : Prop :=
  (joins events : Multiset Key) = (lefts events : Multiset Key) + (matching pattern tokens : Multiset Key)

variable {bus : Bus} {key pattern : Key} {event : Presence} {events more : List Presence}
  {notices others : List Notice}
  {tokens : List (ℕ × Registration)} {token : ℕ × Registration}

lemma heard_append : heard i (notices ++ others) = heard i notices ++ heard i others := List.filterMap_append

lemma joins_append : joins (events ++ more) = joins events ++ joins more := List.filterMap_append

lemma lefts_append : lefts (events ++ more) = lefts events ++ lefts more := List.filterMap_append

@[simp] lemma joins_nil : joins [] = [] := rfl

@[simp] lemma lefts_nil : lefts [] = [] := rfl

@[simp] lemma joins_joined : joins [.joined key] = [key] := rfl

@[simp] lemma lefts_joined : lefts [.joined key] = [] := rfl

@[simp] lemma joins_left : joins [.left key] = [] := rfl

@[simp] lemma lefts_left : lefts [.left key] = [key] := rfl

lemma heard_nil (h : ∀ event, Notice.presence i event ∉ notices) : heard i notices = [] := by
  rw [heard, filterMap_eq_nil_iff]
  intro notice hn
  cases notice with
  | presence target event =>
    have hne : target ≠ i := by
      rintro rfl
      exact h event hn
    simp [hne]
  | _ => rfl

lemma heard_map {α : Type} {list : List α} {f : α → Notice} (h : ∀ a event, f a ≠ .presence i event) :
    heard i (list.map f) = [] := by
  apply heard_nil
  intro event hm
  obtain ⟨a, -, ha⟩ := mem_map.mp hm
  exact h a event ha

lemma heard_presence (hs : bus.watchers.Pairwise fun a b => a.1 < b.1) (h : (i, entry) ∈ bus.watchers) :
    heard i (bus.presence event) = if entry.key.matches event.key then [event] else [] := by
  have ho := filter_place hs h (p := fun watcher => watcher.2.key.matches event.key)
  have hcs : ∀ watchers : List (ℕ × Registration),
      heard i (watchers.map fun watcher => .presence watcher.1 event) =
        (watchers.filter fun watcher => watcher.1 = i).map fun _ => event := by
    intro watchers
    induction watchers with
    | nil => rfl
    | cons watcher watchers ih =>
      rw [heard] at ih ⊢
      by_cases hi : watcher.1 = i <;> simp [hi, ih]
  rw [Bus.presence, hcs, ho]
  split <;> rfl

lemma matching_append : matching pattern (tokens ++ [(place, ⟨id, key⟩)]) =
    matching pattern tokens ++ if pattern.matches key then [key] else [] := by
  rw [matching, filter_append, map_append, ← matching]
  by_cases h : pattern.matches key <;> simp [h]

lemma matching_erase (h : tokens.find? (·.2.id == id) = some token) :
    (matching pattern tokens : Multiset Key) = (if pattern.matches token.2.key then [token.2.key] else []) +
      (matching pattern (tokens.eraseP (·.2.id == id)) : Multiset Key) := by
  obtain ⟨hid, before, after, rfl, hb⟩ := find?_eq_some_iff_append.mp h
  have hno : ∀ other ∈ before, ¬((other.2.id == id) = true) := by
    intro other ho
    have := hb other ho
    simpa using this
  have he : (token :: after).eraseP (·.2.id == id) = after := eraseP_cons_of_pos hid
  rw [eraseP_append_right _ hno, he, Multiset.coe_add, Multiset.coe_eq_coe, matching, matching]
  by_cases hm : pattern.matches token.2.key
  · simp [hm]
  · simp [hm]

lemma Balanced.quiet (h : Balanced pattern events tokens) (hm : more = []) :
    Balanced pattern (events ++ more) tokens := by
  rw [hm, append_nil]
  exact h

lemma Balanced.join (h : Balanced pattern events tokens)
    (hm : more = if pattern.matches key then [.joined key] else []) :
    Balanced pattern (events ++ more) (tokens ++ [(place, ⟨id, key⟩)]) := by
  rw [Balanced] at h ⊢
  rw [matching_append, joins_append, lefts_append, ← Multiset.coe_add, h, hm, ← Multiset.coe_add,
    ← Multiset.coe_add]
  split
  · rw [joins_joined, lefts_joined, Multiset.coe_nil, add_zero, add_assoc]
  · rw [joins_nil, lefts_nil, Multiset.coe_nil, add_zero, add_zero, add_zero]

lemma Balanced.leave (h : Balanced pattern events tokens) (hf : tokens.find? (·.2.id == id) = some token)
    (hm : more = if pattern.matches token.2.key then [.left token.2.key] else []) :
    Balanced pattern (events ++ more) (tokens.eraseP (·.2.id == id)) := by
  rw [Balanced] at h ⊢
  rw [joins_append, lefts_append, ← Multiset.coe_add, ← Multiset.coe_add, h, matching_erase hf, hm]
  split
  · rw [joins_left, lefts_left, Multiset.coe_nil, add_zero, add_assoc]
  · rw [joins_nil, lefts_nil, Multiset.coe_nil, add_zero, add_zero, zero_add]

lemma handle_balanced (hs : bus.watchers.Pairwise fun a b => a.1 < b.1) (h : (i, entry) ∈ bus.watchers)
    (hp : i < place) (hb : Balanced entry.key events bus.tokens) :
    Balanced entry.key (events ++ heard i (bus.handle place op).1) (bus.handle place op).2.tokens := by
  cases op with
  | subscribe | respond => exact hb.quiet rfl
  | publish | query => exact hb.quiet (heard_map (by intros; exact nofun))
  | alive => exact hb.quiet rfl
  | token id key => exact hb.join (heard_presence hs h)
  | watch id key =>
    apply hb.quiet
    apply heard_map
    intro token event heq
    injection heq with hi
    omega
  | remove slot id =>
    cases slot with
    | subscriber | watcher | responder => exact hb.quiet rfl
    | token =>
      rw [Bus.handle]
      split
      case h_1 => exact hb.quiet rfl
      case h_2 token hfind => exact hb.leave hfind (heard_presence hs h)

lemma watch_balanced : Balanced pattern (heard place (bus.handle place (.watch id pattern)).1) bus.tokens := by
  have hh : heard place (bus.handle place (.watch id pattern)).1 =
      (matching pattern bus.tokens).map .joined := by
    rw [Bus.handle, heard, matching, filterMap_map, map_map, ← filterMap_eq_map]
    apply filterMap_congr
    intro token _
    simp
  have hj : ∀ keys : List Key, joins (keys.map .joined) = keys ∧ lefts (keys.map .joined) = [] := by
    intro keys
    rw [joins, lefts, filterMap_map, filterMap_map]
    exact ⟨filterMap_some, filterMap_eq_nil_iff.mpr fun _ _ => rfl⟩
  rw [Balanced, hh, (hj _).1, (hj _).2, Multiset.coe_nil, zero_add]

lemma heard_fresh (h : ops.length ≤ i) : heard i (log ops).flatten = [] := by
  induction ops using List.reverseRecOn with
  | nil => rfl
  | append_singleton ops op ih =>
    rw [length_append, length_singleton] at h
    rw [log_append, flatten_append, heard_append, ih (by omega), nil_append, flatten_singleton]
    have hb : ∀ watcher ∈ (busAfter ops).watchers, watcher.1 ≠ i := by
      intro watcher hw
      rw [busAfter_registered.2.1] at hw
      have := (mem_live.mp hw).lt
      omega
    have hp : ∀ event (bus : Bus), bus.watchers = (busAfter ops).watchers →
        heard i (bus.presence event) = [] := by
      intro event bus hbus
      apply heard_nil
      intro other hm
      obtain ⟨watcher, hw, heq⟩ := mem_map.mp hm
      injection heq with hi
      rw [hbus] at hw
      exact hb watcher (mem_of_mem_filter hw) hi
    cases op with
    | subscribe | respond | alive => rfl
    | publish | query => exact heard_map (by intros; exact nofun)
    | token id key => exact hp _ _ rfl
    | watch id key =>
      apply heard_map
      intro token event heq
      injection heq with hi
      omega
    | remove slot id =>
      cases slot with
      | subscriber | watcher | responder => rfl
      | token =>
        rw [Bus.handle]
        split
        case h_1 => rfl
        case h_2 token hfind => exact hp _ _ rfl

lemma watcher_balanced (h : (i, entry) ∈ registered .watcher ops) :
    Balanced entry.key (heard i (log ops).flatten) (busAfter ops).tokens := by
  induction ops using List.reverseRecOn with
  | nil => cases h
  | append_singleton ops op ih =>
    rw [log_append, flatten_append, heard_append, busAfter_append, flatten_singleton]
    rw [registered_append, advance, mem_append, Option.mem_toList, Option.map_eq_some_iff] at h
    rcases h with h | ⟨found, hr, heq⟩
    · have hm := mem_of_mem_filter h
      have hlt := (mem_live.mp hm).lt
      have hw : (busAfter ops).watchers = registered .watcher ops := busAfter_registered.2.1
      apply handle_balanced
      · rw [hw]
        exact live_sorted
      · rw [hw]
        exact hm
      · exact hlt
      · exact ih hm
    · cases heq
      rw [heard_fresh le_rfl, nil_append]
      cases op with
      | watch id key =>
        cases hr
        exact watch_balanced
      | _ => cases hr

variable {n : ℕ}

def FreshTokens (ops : List Op) : Prop :=
  ∀ (i j id : ℕ) (key other : Key), ops[i]? = some (.token id key) → ops[j]? = some (.token id other) → i = j

lemma registers_token (h : op.registers .token = some entry) : op = .token entry.id entry.key := by
  cases op with
  | token id key =>
    cases h
    rfl
  | _ => cases h

lemma eraseP_eq_filter {entries : List (ℕ × Registration)} (h : entries.Pairwise fun a b => a.2.id ≠ b.2.id) :
    entries.eraseP (·.2.id == id) = entries.filter (·.2.id != id) := by
  induction entries with
  | nil => rfl
  | cons entry entries ih =>
    obtain ⟨hf, hr⟩ := pairwise_cons.mp h
    by_cases hid : entry.2.id = id
    · have ha : entries.filter (·.2.id != id) = entries := by
        rw [filter_eq_self]
        intro other ho
        rw [bne_iff_ne, ← hid]
        exact (hf other ho).symm
      simp [hid, ha]
    · simp [hid, ih hr]

lemma tokens_registered (hfr : FreshTokens ops) : (busAfter ops).tokens = registered .token ops := by
  induction ops using List.reverseRecOn with
  | nil => rfl
  | append_singleton ops op ih =>
    have hbe : FreshTokens ops := by
      intro i j id key other hi hj
      apply hfr i j id key other
      · rw [getElem?_append_left (List.getElem?_eq_some_iff.mp hi).1]
        exact hi
      · rw [getElem?_append_left (List.getElem?_eq_some_iff.mp hj).1]
        exact hj
    have hids : (registered .token ops).Pairwise fun a b => a.2.id ≠ b.2.id := by
      apply List.Pairwise.imp_of_mem _ live_sorted
      intro a b ha hb hlt heq
      obtain ⟨⟨opa, hopa, hra⟩, -⟩ := mem_live.mp ha
      obtain ⟨⟨opb, ho, hrb⟩, -⟩ := mem_live.mp hb
      rw [registers_token hra] at hopa
      rw [registers_token hrb, ← heq] at ho
      exact hlt.ne (hbe _ _ _ _ _ hopa ho)
    rw [busAfter_append, registered_append, ← ih hbe]
    cases op with
    | token id key => exact (advance_register rfl rfl).symm
    | remove removed id =>
      cases removed with
      | subscriber | watcher | responder => exact (advance_foreign (by decide)).symm
      | token =>
        rw [advance_remove, Bus.handle]
        split
        case h_1 hfind =>
          rw [find?_eq_none] at hfind
          refine (filter_eq_self.mpr ?_).symm
          intro token ht
          simpa using hfind token ht
        case h_2 token hfind =>
          rw [← ih hbe] at hids
          exact eraseP_eq_filter hids
    | _ => exact (advance_other rfl rfl).symm

lemma places_sorted {p : ℕ × Registration → Bool} :
    (((registered slot (ops.take k)).filter p).map (·.1)).Pairwise (· < ·) :=
  List.pairwise_map.mpr (live_sorted.filter p)

lemma mem_places {p : Key → Bool} {build : ℕ → Key → Op}
    (hb : ∀ op entry, op.registers slot = some entry ↔ op = build entry.id entry.key) :
    i ∈ ((registered slot (ops.take k)).filter fun entry => p entry.2.key).map (·.1) ↔
      ∃ id key, ops[i]? = some (build id key) ∧ Standing ops slot id i k ∧ p key = true := by
  rw [mem_map]
  constructor
  · rintro ⟨⟨place, entry⟩, hm, rfl⟩
    rw [mem_filter, mem_registered] at hm
    obtain ⟨⟨⟨op, hop, hr⟩, hs⟩, hp⟩ := hm
    rw [hb] at hr
    exact ⟨entry.id, entry.key, hr ▸ hop, hs, hp⟩
  · rintro ⟨id, key, hop, hs, hp⟩
    refine ⟨(i, ⟨id, key⟩), mem_filter.mpr ⟨mem_registered.mpr ⟨⟨_, hop, ?_⟩, hs⟩, hp⟩, rfl⟩
    exact (hb _ _).mpr rfl

lemma publish_log {sample : Delivery} (h : ops[k]? = some (.publish sample)) :
    ∃ places : List ℕ, (log ops)[k]? = some (places.map (.sample · sample)) ∧ places.Pairwise (· < ·) ∧
      ∀ i, i ∈ places ↔ ∃ id pattern, ops[i]? = some (.subscribe id pattern) ∧
        Standing ops .subscriber id i k ∧ pattern.matches sample.key = true := by
  refine ⟨((registered .subscriber (ops.take k)).filter fun entry => entry.2.key.matches sample.key).map (·.1),
    ?_, places_sorted, ?_⟩
  · rw [log_getElem h, Bus.handle, busAfter_registered.1, map_map]
    rfl
  · intro i
    refine mem_places (p := fun pattern => pattern.matches sample.key) ?_
    rintro op ⟨id, key⟩
    cases op <;> simp [Op.registers]

lemma query_log {key : Key} {payload attachment : Option Payload}
    (h : ops[k]? = some (.query key payload attachment)) :
    ∃ places : List ℕ, (log ops)[k]? = some (places.map (.query · ⟨key, payload, attachment, k⟩)) ∧
      places.Pairwise (· < ·) ∧
      ∀ i, i ∈ places ↔ ∃ id responder, ops[i]? = some (.respond id responder) ∧
        Standing ops .responder id i k ∧ key.matches responder = true := by
  refine ⟨((registered .responder (ops.take k)).filter fun entry => key.matches entry.2.key).map (·.1),
    ?_, places_sorted, ?_⟩
  · rw [log_getElem h, Bus.handle, busAfter_registered.2.2, map_map]
    rfl
  · intro i
    refine mem_places (p := fun responder => key.matches responder) ?_
    rintro op ⟨id, key⟩
    cases op <;> simp [Op.registers]

lemma handle_calls {bus : Bus} {place callback : ℕ} :
    (∀ sample, Notice.sample callback sample ∈ (bus.handle place op).1 → op = .publish sample) ∧
    ∀ query, Notice.query callback query ∈ (bus.handle place op).1 →
      op = .query query.key query.payload query.attachment ∧ query.reply = place := by
  cases op with
  | subscribe | respond | alive | token | watch => simp [Bus.handle, Bus.presence]
  | publish sample =>
    refine ⟨?_, ?_⟩
    · intro other hm
      obtain ⟨entry, -, heq⟩ := mem_map.mp hm
      injection heq with _ heq
      rw [heq]
    · intro query hm
      obtain ⟨entry, -, heq⟩ := mem_map.mp hm
      cases heq
  | query key payload attachment =>
    refine ⟨?_, ?_⟩
    · intro sample hm
      obtain ⟨entry, -, heq⟩ := mem_map.mp hm
      cases heq
    · intro query hm
      obtain ⟨entry, -, heq⟩ := mem_map.mp hm
      injection heq with _ heq
      subst heq
      exact ⟨rfl, rfl⟩
  | remove removed id =>
    cases removed with
    | subscriber | watcher | responder => simp [Bus.handle]
    | token =>
      rw [Bus.handle]
      split <;> simp [Bus.presence]

/-- Samples and queries go once, and in order, to what is registered and matches; a watcher hears each change once. -/
theorem local_bus_semantics (ops : List Op) :
    (log ops).length = ops.length ∧
    (∀ k sample, ops[k]? = some (.publish sample) →
      ∃ places : List ℕ, (log ops)[k]? = some (places.map (.sample · sample)) ∧ places.Pairwise (· < ·) ∧
        ∀ i, i ∈ places ↔ ∃ id pattern, ops[i]? = some (.subscribe id pattern) ∧
          Standing ops .subscriber id i k ∧ pattern.matches sample.key = true) ∧
    (∀ (k : ℕ) notices callback sample, (log ops)[k]? = some notices → .sample callback sample ∈ notices →
      ops[k]? = some (.publish sample)) ∧
    (∀ k key payload attachment, ops[k]? = some (.query key payload attachment) →
      ∃ places : List ℕ, (log ops)[k]? = some (places.map (.query · ⟨key, payload, attachment, k⟩)) ∧
        places.Pairwise (· < ·) ∧
        ∀ i, i ∈ places ↔ ∃ id responder, ops[i]? = some (.respond id responder) ∧
          Standing ops .responder id i k ∧ key.matches responder = true) ∧
    (∀ (k : ℕ) notices callback query, (log ops)[k]? = some notices → .query callback query ∈ notices →
      ops[k]? = some (.query query.key query.payload query.attachment) ∧ query.reply = k) ∧
    (∀ i id pattern n, ops[i]? = some (.watch id pattern) → Standing ops .watcher id i n →
      let events := heard i ((log ops).take n).flatten
      (joins events : Multiset Key) =
        lefts events + (matching pattern (busAfter (ops.take n)).tokens : Multiset Key)) ∧
    (FreshTokens ops → ∀ n, (busAfter (ops.take n)).tokens.Pairwise (fun a b => a.1 < b.1) ∧
      ∀ i entry, (i, entry) ∈ (busAfter (ops.take n)).tokens ↔
        ops[i]? = some (.token entry.id entry.key) ∧ Standing ops .token entry.id i n) := by
  refine ⟨outputs_length, fun _ _ => publish_log, ?_, fun _ _ _ _ => query_log, ?_, ?_, ?_⟩
  · intro k notices callback sample hl hm
    obtain ⟨op, hop, rfl⟩ := output_op hl
    rw [hop, handle_calls.1 sample hm]
  · intro k notices callback query hl hm
    obtain ⟨op, hop, rfl⟩ := output_op hl
    obtain ⟨rfl, hrep⟩ := handle_calls.2 query hm
    exact ⟨hop, hrep⟩
  · intro i id pattern n hop hs
    have hm : (i, (⟨id, pattern⟩ : Registration)) ∈ registered .watcher (ops.take n) :=
      mem_registered.mpr ⟨⟨_, hop, rfl⟩, hs⟩
    have hbal := watcher_balanced hm
    rw [Balanced, log, outputs_take] at hbal
    exact hbal
  · intro hfr n
    have ht : FreshTokens (ops.take n) := by
      intro i j id key other hi hj
      have hb : ∀ {a : ℕ} {op : Op}, (ops.take n)[a]? = some op → ops[a]? = some op := by
        intro a op ha
        have hlen := (List.getElem?_eq_some_iff.mp ha).1
        rw [length_take] at hlen
        rw [getElem?_take_of_lt (by omega)] at ha
        exact ha
      exact hfr i j id key other (hb hi) (hb hj)
    rw [tokens_registered ht]
    refine ⟨live_sorted, ?_⟩
    intro i entry
    rw [mem_registered]
    constructor
    · rintro ⟨⟨op, hop, hr⟩, hs⟩
      rw [registers_token hr] at hop
      exact ⟨hop, hs⟩
    · rintro ⟨hop, hs⟩
      exact ⟨⟨_, hop, rfl⟩, hs⟩

end Reiny.Engine
