import Reiny.Link.Handshake

/-! The declarations of a link over its `N` slots, changed in place and put back when the Hello that
would announce them cannot be built. -/

namespace Reiny.Link

open Lib Words Utf8 Results Wire HelloFormat HelloCodec Ports State List

variable {α : Type} {N : ℕ}

def slots (N : ℕ) (xs : List α) : List (Option α) := xs.map some ++ List.replicate (N - xs.length) none

def fill (a : α) : List (Option α) → Bool × List (Option α)
  | [] => (false, [])
  | none :: rest => (true, some a :: rest)
  | some b :: rest =>
    let (found, rest') := fill a rest
    (found, some b :: rest')

lemma slots_taken (xs : List α) : (slots N xs).reduceOption = xs := by
  change (slots N xs).filterMap id = xs
  simp [slots, filterMap_append, filterMap_replicate_of_none]

lemma fill_taken (a : α) (xs : List α) (rest : List (Option α)) :
    fill a (xs.map some ++ rest) = ((fill a rest).1, xs.map some ++ (fill a rest).2) := by
  induction xs with
  | nil => rfl
  | cons x xs ih => rw [map_cons, cons_append, fill, ih, cons_append]

variable {xs : List α}

lemma fill_full (a : α) (h : ¬ xs.length < N) : fill a (slots N xs) = (false, slots N xs) := by
  have hk : N - xs.length = 0 := by omega
  rw [slots, fill_taken, hk]
  rfl

lemma fill_free (a : α) (h : xs.length < N) : fill a (slots N xs) = (true, slots N (xs ++ [a])) := by
  have hk : N - xs.length = N - (xs ++ [a]).length + 1 := by simp only [length_append, length_singleton]; omega
  rw [slots, fill_taken, hk, replicate_succ, slots, map_append, append_assoc]
  rfl

lemma all_taken (h : xs.length ≤ N) : (slots N xs).all Option.isSome = true ↔ ¬ xs.length < N := by
  have hr : (List.replicate (N - xs.length) (none : Option α)).all Option.isSome = true ↔ N - xs.length = 0 := by
    cases N - xs.length with
    | zero => simp
    | succ k => simp [replicate_succ]
  rw [slots, all_append, Bool.and_eq_true, hr]
  simp only [all_map, all_eq_true, Function.comp_apply, Option.isSome_some, implies_true, true_and]
  omega

lemma mem_slots {a : α} : some a ∈ slots N xs ↔ a ∈ xs := by
  simp [slots, mem_replicate]

structure Slots where
  locals : List (Option LocalType)
  declared : List (Option StaticPort)

variable {FRAME : ℕ}

namespace Slots

def fresh (N : ℕ) : Slots := ⟨List.replicate N none, List.replicate N none⟩

def tables (base : Tables N FRAME) (s : Slots) : Tables N FRAME :=
  { base with
    locals := s.locals.reduceOption
    declared := s.declared.reduceOption }

def declareSlot (hash : UInt32) (port : StaticPort) (flag : UInt8) :
    List (Option LocalType) → Except Error Bool × List (Option LocalType)
  | [] => (.ok false, [])
  | none :: rest =>
    let (found, rest') := declareSlot hash port flag rest
    (found, none :: rest')
  | some slot :: rest =>
    if slot.hash = hash ∧ slot.port.name ≠ port.name then
      (.error (.hashCollision slot.port.name port.name), some slot :: rest)
    else if slot.port = port then (.ok true, some { slot with flags := slot.flags ||| flag } :: rest)
    else
      let (found, rest') := declareSlot hash port flag rest
      (found, some slot :: rest')

def declareType (id : Str) (port : StaticPort) (flag : UInt8) (s : Slots) : Except Error Unit × Slots :=
  let hash := endpointHash id port.name
  match declareSlot hash port flag s.locals with
  | (.error e, locals) => (.error e, { s with locals })
  | (.ok true, locals) => (.ok (), { s with locals })
  | (.ok false, locals) =>
    match fill ⟨hash, port.ty, port.schema, flag, port⟩ locals with
    | (false, locals) => (.error .tableFull, { s with locals })
    | (true, locals) => (.ok (), { s with locals })

def declare (base : Tables N FRAME) (name : Str) (direction : PortDirection) (flag : UInt8) (ty : PortType)
    (response : Option PortType) (s : Slots) : Except Error Unit × Slots :=
  if base.started = true then (.error .started, s)
  else match base.port name direction ty response with
    | .error e => (.error e, s)
    | .ok port =>
      let alreadyDeclared := s.declared.contains (some port)
      if !alreadyDeclared && s.declared.all Option.isSome then (.error .tableFull, s)
      else
        let previous := s.locals
        match s.declareType base.id port flag with
        | (.error e, s) => (.error e, s)
        | (.ok (), s) =>
          match (s.tables base).helloPayload false with
          | .error e => (.error e, { s with locals := previous })
          | .ok _ =>
            if alreadyDeclared then (.ok (), s)
            else match fill port s.declared with
              | (false, declared) => (.error .tableFull, { s with declared })
              | (true, declared) => (.ok (), { s with declared })

end Slots

structure Asked where
  name : Str
  direction : PortDirection
  flag : UInt8
  ty : PortType
  response : Option PortType

inductive Declaration
  | publishes (ty : PortType) (name : Str)
  | publishesLatched (ty : PortType) (name : Str)
  | subscribes (ty : PortType) (name : Str)
  | rpcServer (S : Service) (name : Str)
  | rpcClient (S : Service) (name : Str)

namespace Declaration

def asks : Declaration → Asked
  | .publishes ty name => ⟨name, .output, PUB, ty, none⟩
  | .publishesLatched ty name => ⟨name, .output, PUB ||| LATCHED, ty, none⟩
  | .subscribes ty name => ⟨name, .input, SUB, ty, none⟩
  | .rpcServer S name => ⟨name, .rpcServer, SERVE, S.request, some S.response⟩
  | .rpcClient S name => ⟨name, .rpcClient, CALLS, S.request, some S.response⟩

def latched : Declaration → Bool
  | .publishesLatched _ _ => true
  | _ => false

variable (base : Tables N FRAME)

def apply (call : Declaration) (s : Slots) : Except Error Unit × Slots :=
  s.declare base call.asks.name call.asks.direction call.asks.flag call.asks.ty call.asks.response

def run : List Declaration → Slots → List Declaration × Slots
  | [], s => ([], s)
  | call :: rest, s =>
    match call.apply base s with
    | (.ok (), s') => (call :: (run rest s').1, (run rest s').2)
    | (.error _, s') => run rest s'

def Names (call : Declaration) (port : StaticPort) : Prop :=
  base.port call.asks.name call.asks.direction call.asks.ty call.asks.response = .ok port

end Declaration

structure Shows (base : Tables N FRAME) (done : List Declaration) (p : StaticPort) (e : HelloEntry) : Prop where
  hash : e.hash = endpointHash base.id p.name
  port : e.port = p.name
  direction : FlagsOk e.flags p.direction
  latched : e.flags &&& LATCHED ≠ 0 ↔ ∃ call ∈ done, call.latched = true ∧ call.Names base p
  name : e.name = p.ty
  schema : e.schema = p.schema
  response : e.response = p.response.map PortType.hello
  sources : e.sources.iter = p.sources

def Announces (base : Tables N FRAME) (done : List Declaration) (ack : Bool) (t : Tables N FRAME) : Prop :=
  ∃ payload hello, t.helloPayload ack = .ok payload ∧ OVERHEAD + payload.length ≤ FRAME ∧
    helloParse payload = .ok hello ∧ hello.ack = ack ∧ hello.id = base.id ∧
    ∃ ports : List StaticPort, ports.Nodup ∧ (∀ port, port ∈ ports ↔ ∃ call ∈ done, call.Names base port) ∧
      List.Forall₂ (Shows base done) ports hello.entries

lemma declareSlot_free (hash : UInt32) (port : StaticPort) (flag : UInt8) (k : ℕ) :
    Slots.declareSlot hash port flag (List.replicate k none) = (.ok false, List.replicate k none) := by
  induction k with
  | zero => rfl
  | succ k ih => simp only [replicate_succ, Slots.declareSlot, ih]

lemma declareSlot_taken (hash : UInt32) (port : StaticPort) (flag : UInt8) (xs : List LocalType) (k : ℕ) :
    Slots.declareSlot hash port flag (xs.map some ++ List.replicate k none) =
      match Tables.declareSlot hash port flag xs with
      | .error e => (.error e, xs.map some ++ List.replicate k none)
      | .ok none => (.ok false, xs.map some ++ List.replicate k none)
      | .ok (some ys) => (.ok true, ys.map some ++ List.replicate k none) := by
  induction xs with
  | nil => exact declareSlot_free hash port flag k
  | cons slot xs ih =>
    simp only [map_cons, cons_append, Slots.declareSlot, Tables.declareSlot]
    split_ifs with hc hp
    · rfl
    · rfl
    · rw [ih]
      cases Tables.declareSlot hash port flag xs with
      | error e => rfl
      | ok found =>
        cases found with
        | none => rfl
        | some ys => rfl

lemma declareSlot_length {hash : UInt32} {port : StaticPort} {flag : UInt8} {xs ys : List LocalType}
    (h : Tables.declareSlot hash port flag xs = .ok (some ys)) : ys.length = xs.length := by
  obtain ⟨before, slot, after, rfl, -, rfl⟩ := declareSlot_some h
  simp only [length_append, length_cons]

def stored (t : Tables N FRAME) : Slots := ⟨slots N t.locals, slots N t.declared⟩

lemma declareType_stored (t : Tables N FRAME) (port : StaticPort) (flag : UInt8) :
    (stored t).declareType t.id port flag =
      match t.declareType port flag with
      | .error e => (.error e, stored t)
      | .ok t' => (.ok (), stored t') := by
  have hl := declareSlot_taken (endpointHash t.id port.name) port flag t.locals (N - t.locals.length)
  rw [← slots] at hl
  simp only [Slots.declareType, Tables.declareType, stored, hl]
  cases hd : Tables.declareSlot (endpointHash t.id port.name) port flag t.locals with
  | error e => rfl
  | ok found =>
    cases found with
    | some ys =>
      simp only [bind, Except.bind, slots, declareSlot_length hd]
    | none =>
      simp only [bind, Except.bind]
      by_cases hr : t.locals.length < N
      · rw [ensure, if_pos hr, fill_free _ hr]
        rfl
      · rw [ensure, if_neg hr, fill_full _ hr]

theorem declare_stored (t : Tables N FRAME) (name : Str) (d : PortDirection) (flag : UInt8) (ty : PortType)
    (response : Option PortType) (hd : t.declared.length ≤ N) :
    (stored t).declare t name d flag ty response =
      match t.declare name d flag ty response with
      | .error e => (.error e, stored t)
      | .ok t' => (.ok (), stored t') := by
  unfold Slots.declare Tables.declare
  cases hs : t.started with
  | true => rfl
  | false =>
    cases hp : t.port name d ty response with
    | error e => rfl
    | ok port =>
      have hc : (stored t).declared.contains (some port) = decide (port ∈ t.declared) := by
        rw [contains_eq_mem, stored, decide_eq_decide]
        exact mem_slots
      have ha : (stored t).declared.all Option.isSome = !decide (t.declared.length < N) := by
        rw [Bool.eq_iff_iff, stored, all_taken hd, Bool.not_eq_true', decide_eq_false_iff_not]
      have hty := declareType_stored t port flag
      simp only [Bool.false_eq_true, if_false, bind, Except.bind, ensure, if_true, hc, ha, hty]
      by_cases hr : port ∈ t.declared ∨ t.declared.length < N
      · have ho : ¬ ((!decide (port ∈ t.declared) && !decide (t.declared.length < N)) = true) := by
          simpa [or_iff_not_imp_left] using hr
        rw [if_neg ho, if_pos hr]
        cases ht : t.declareType port flag with
        | error e => rfl
        | ok t' =>
          obtain ⟨locals, -, ht'⟩ := declareType_ok ht
          have hta : Slots.tables t (stored t') = t' := by
            rw [ht']
            simp only [Slots.tables, stored, slots_taken]
          have hd' : t'.declared = t.declared := by rw [ht']
          simp only [hta]
          cases t'.helloPayload false with
          | error e =>
            simp only [stored, hd']
          | ok payload =>
            by_cases hm : port ∈ t.declared
            · simp only [hm, decide_true, if_true, pure, Except.pure]
            · have hf : fill port (stored t').declared = (true, slots N (t.declared ++ [port])) := by
                rw [stored, hd']
                exact fill_free port (hr.resolve_left hm)
              simp only [hm, decide_false, Bool.false_eq_true, if_false, hf, pure, Except.pure]
              rfl
      · have hcl : (!decide (port ∈ t.declared) && !decide (t.declared.length < N)) = true := by
          simpa using hr
        rw [if_pos hcl, if_neg hr]

def joined (port : StaticPort) (flag : UInt8) (l : LocalType) : LocalType :=
  if l.port = port then { l with flags := l.flags ||| flag } else l

lemma joined_port (port : StaticPort) (flag : UInt8) (l : LocalType) : (joined port flag l).port = l.port := by
  unfold joined
  split_ifs <;> rfl

variable {flag : UInt8} {port : StaticPort} {ls : List LocalType} {t t' : Tables N FRAME}

lemma joined_others (h : port ∉ ls.map LocalType.port) : ls.map (joined port flag) = ls := by
  refine (map_congr_left ?_).trans (map_id ls)
  intro l hl
  exact if_neg fun he => h (mem_map.mpr ⟨l, hl, he⟩)

lemma declareSlot_joined {hash : UInt32} {found : Option (List LocalType)}
    (hn : (ls.map LocalType.port).Nodup) (h : Tables.declareSlot hash port flag ls = .ok found) :
    found = if port ∈ ls.map LocalType.port then some (ls.map (joined port flag)) else none := by
  induction ls generalizing found with
  | nil =>
    cases h
    rfl
  | cons slot rest ih =>
    rw [map_cons, nodup_cons] at hn
    unfold Tables.declareSlot at h
    split_ifs at h with hc hp
    · cases h
      subst hp
      rw [map_cons, map_cons, if_pos mem_cons_self, joined_others hn.1, joined, if_pos rfl]
    · obtain ⟨found', hre, hr⟩ := bind_ok.mp h
      cases hr
      have hs : joined port flag slot = slot := if_neg hp
      rw [ih hn.2 hre]
      simp only [map_cons, hs, mem_cons, Ne.symm hp, false_or]
      split_ifs <;> rfl

def grown (id : Str) (port : StaticPort) (flag : UInt8) (ls : List LocalType) : List LocalType :=
  if port ∈ ls.map LocalType.port then ls.map (joined port flag)
  else ls ++ [⟨endpointHash id port.name, port.ty, port.schema, flag, port⟩]

lemma declareType_grown (hn : (t.locals.map LocalType.port).Nodup) (h : t.declareType port flag = .ok t') :
    t' = { t with locals := grown t.id port flag t.locals } := by
  obtain ⟨found, hf, h⟩ := bind_ok.mp h
  have hj := declareSlot_joined hn hf
  unfold grown
  split_ifs at hj ⊢ with hm
  · rw [hj] at h
    exact (Except.ok.inj h).symm
  · rw [hj] at h
    obtain ⟨-, hr⟩ := ensure_bind_ok.mp h
    exact (pure_ok.mp hr).symm

lemma declare_grown {name : Str} {d : PortDirection} {ty : PortType} {response : Option PortType}
    (hn : (t.locals.map LocalType.port).Nodup) (h : t.declare name d flag ty response = .ok t') :
    ∃ port, t.port name d ty response = .ok port ∧ (port ∈ t.declared ∨ t.declared.length < N) ∧
      Announced FRAME t.bridge t.id t'.locals ∧
      t' = { t with
        locals := grown t.id port flag t.locals
        declared := if port ∈ t.declared then t.declared else t.declared ++ [port] } := by
  obtain ⟨-, h⟩ := ensure_bind_ok.mp h
  obtain ⟨port, hpo, h⟩ := bind_ok.mp h
  obtain ⟨hr, h⟩ := ensure_bind_ok.mp h
  obtain ⟨t₁, ht₁, h⟩ := bind_ok.mp h
  obtain ⟨p, hp, h⟩ := bind_ok.mp h
  obtain ⟨ha, -⟩ := helloPayload_announced.mp hp
  have ht := declareType_grown hn ht₁
  have ht' := pure_ok.mp h
  have hl : t'.locals = t₁.locals := by
    rw [← ht']
    split_ifs <;> rfl
  refine ⟨port, hpo, hr, ?_, ?_⟩
  · rw [hl]
    rw [ht] at ha ⊢
    exact ha
  · rw [← ht', ht]
    split_ifs <;> rfl

lemma or_and_ne_zero (a b m : UInt8) : (a ||| b) &&& m ≠ 0 ↔ a &&& m ≠ 0 ∨ b &&& m ≠ 0 := by
  have hd : (a ||| b) &&& m = (a &&& m) ||| (b &&& m) := UInt8.toBitVec_inj.mp BitVec.and_or_distrib_right
  rw [hd, Ne, UInt8.or_eq_zero_iff, not_and_or]

lemma asks_flag (call : Declaration) : FlagsOk call.asks.flag call.asks.direction ∧
    (call.asks.flag &&& LATCHED ≠ 0 ↔ call.latched = true) := by
  cases call with
  | publishes => exact ⟨Or.inl rfl, by simp only [Declaration.asks, Declaration.latched]; decide⟩
  | publishesLatched => exact ⟨Or.inr rfl, by simp only [Declaration.asks, Declaration.latched]; decide⟩
  | subscribes | rpcServer | rpcClient => exact ⟨rfl, by simp only [Declaration.asks, Declaration.latched]; decide⟩

variable {base : Tables N FRAME} {done : List Declaration} {call : Declaration} {p q : StaticPort} {l : LocalType}
  {ds : List StaticPort}

lemma named_snoc {P : Declaration → Prop} (hc : call.Names base p) :
    (∃ c ∈ done ++ [call], P c ∧ c.Names base q) ↔ (∃ c ∈ done, P c ∧ c.Names base q) ∨ (P call ∧ p = q) := by
  have hl : call.Names base q ↔ p = q := by
    rw [Declaration.Names, show base.port _ _ _ _ = _ from hc, Except.ok.injEq]
  simp only [mem_append, mem_singleton, or_and_right, exists_or, exists_eq_left, hl]

structure Kept (base : Tables N FRAME) (done : List Declaration) (l : LocalType) : Prop where
  hash : l.hash = endpointHash base.id l.port.name
  name : l.name = l.port.ty
  schema : l.schema = l.port.schema
  direction : FlagsOk l.flags l.port.direction
  latched : l.flags &&& LATCHED ≠ 0 ↔ ∃ call ∈ done, call.latched = true ∧ call.Names base l.port

lemma Kept.join (h : Kept base done l) (hc : call.Names base p) (hd : p.direction = call.asks.direction) :
    Kept base (done ++ [call]) (joined p call.asks.flag l) := by
  obtain ⟨hf, hl⟩ := asks_flag call
  unfold joined
  split_ifs with hp
  · refine ⟨h.hash, h.name, h.schema, h.direction.or ?_, ?_⟩
    · rw [hp, hd]
      exact hf
    · rw [or_and_ne_zero, h.latched, hl, named_snoc hc]
      simp only [hp, and_true]
  · refine ⟨h.hash, h.name, h.schema, h.direction, ?_⟩
    rw [h.latched, named_snoc hc]
    simp only [Ne.symm hp, and_false, or_false]

lemma kept_fresh (hca : call.Names base p) (hd : p.direction = call.asks.direction)
    (hnew : ¬ ∃ c ∈ done, c.Names base p) :
    Kept base (done ++ [call]) ⟨endpointHash base.id p.name, p.ty, p.schema, call.asks.flag, p⟩ := by
  obtain ⟨hf, hl⟩ := asks_flag call
  refine ⟨by dsimp only, rfl, rfl, ?_, ?_⟩
  · rw [hd]
    exact hf
  · have hno : ¬ ∃ c ∈ done, c.latched = true ∧ c.Names base p := by
      rintro ⟨c, hc, -, hn⟩
      exact hnew ⟨c, hc, hn⟩
    rw [named_snoc hca, hl]
    simp only [hno, and_true, false_or]

structure Recorded (base : Tables N FRAME) (done : List Declaration) (ls : List LocalType) (ds : List StaticPort) :
    Prop where
  ports : (ls.map LocalType.port).Nodup
  listed : ∀ q, q ∈ ls.map LocalType.port ↔ ∃ call ∈ done, call.Names base q
  kept : ∀ l ∈ ls, Kept base done l
  declared : ds.length ≤ N
  announced : done ≠ [] → Announced FRAME base.bridge base.id ls

lemma grown_ports (id : Str) (flag : UInt8) : (grown id p flag ls).map LocalType.port =
    if p ∈ ls.map LocalType.port then ls.map LocalType.port else ls.map LocalType.port ++ [p] := by
  unfold grown
  split_ifs with hp
  · rw [map_map]
    exact map_congr_left fun l _ => joined_port p flag l
  · rw [map_append, map_singleton]

lemma Recorded.grow (h : Recorded base done ls ds) (hc : call.Names base p)
    (hr : p ∈ ds ∨ ds.length < N) (ha : Announced FRAME base.bridge base.id (grown base.id p call.asks.flag ls)) :
    Recorded base (done ++ [call]) (grown base.id p call.asks.flag ls) (if p ∈ ds then ds else ds ++ [p]) := by
  obtain ⟨-, -, hd, -⟩ := port_ok hc
  have hs (q : StaticPort) : (∃ c ∈ done ++ [call], c.Names base q) ↔ (∃ c ∈ done, c.Names base q) ∨ p = q := by
    have h := @named_snoc N FRAME base done call p q (fun _ => True) hc
    simpa only [true_and] using h
  refine ⟨?_, ?_, ?_, ?_, fun _ => ha⟩
  · rw [grown_ports]
    split_ifs with hp
    · exact h.ports
    · exact nodup_append.mpr ⟨h.ports, nodup_singleton p, fun a ha b hb he =>
        hp (mem_singleton.mp hb ▸ he ▸ ha)⟩
  · intro q
    rw [grown_ports, hs, ← h.listed]
    split_ifs with hp
    · exact ⟨Or.inl, fun hq => hq.elim id fun he => he ▸ hp⟩
    · rw [mem_append, mem_singleton, eq_comm]
  · intro l hl
    unfold grown at hl
    split_ifs at hl with hp
    · obtain ⟨slot, hsl, rfl⟩ := mem_map.mp hl
      exact (h.kept slot hsl).join hc hd
    · rcases mem_append.mp hl with hl | hl
      · have ho : l.port ≠ p := fun he => hp (mem_map.mpr ⟨l, hl, he⟩)
        have hj := (h.kept l hl).join hc hd
        rwa [joined, if_neg ho] at hj
      · rw [mem_singleton.mp hl]
        exact kept_fresh hc hd fun hn => hp ((h.listed p).mpr hn)
  · split_ifs with hp
    · exact h.declared
    · simpa using hr.resolve_left hp

lemma apply_recorded (h : Recorded base done ls ds) (call : Declaration) :
    (∃ e, call.apply base ⟨slots N ls, slots N ds⟩ = (.error e, ⟨slots N ls, slots N ds⟩)) ∨
      ∃ ls' ds', call.apply base ⟨slots N ls, slots N ds⟩ = (.ok (), ⟨slots N ls', slots N ds'⟩) ∧
        Recorded base (done ++ [call]) ls' ds' := by
  let t : Tables N FRAME := { base with
    locals := ls
    declared := ds }
  have hap : call.apply base ⟨slots N ls, slots N ds⟩ = _ := declare_stored t call.asks.name call.asks.direction
    call.asks.flag call.asks.ty call.asks.response h.declared
  rw [hap]
  cases hd : t.declare call.asks.name call.asks.direction call.asks.flag call.asks.ty call.asks.response with
  | error e => exact .inl ⟨e, rfl⟩
  | ok t' =>
    obtain ⟨p, hp, hr, ha, rfl⟩ := declare_grown h.ports hd
    exact .inr ⟨_, _, rfl, h.grow hp hr ha⟩

lemma run_recorded (h : Recorded base done ls ds) (calls : List Declaration) :
    ∃ ls' ds', (Declaration.run base calls ⟨slots N ls, slots N ds⟩).2 = ⟨slots N ls', slots N ds'⟩ ∧
      Recorded base (done ++ (Declaration.run base calls ⟨slots N ls, slots N ds⟩).1) ls' ds' := by
  induction calls generalizing done ls ds with
  | nil =>
    refine ⟨ls, ds, rfl, ?_⟩
    rwa [Declaration.run, append_nil]
  | cons call calls ih =>
    rcases apply_recorded h call with ⟨e, ha⟩ | ⟨ls', ds', ha, h'⟩
    · rw [Declaration.run, ha]
      exact ih h
    · rw [Declaration.run, ha]
      obtain ⟨ls₂, ds₂, hsl, hr⟩ := ih h'
      refine ⟨ls₂, ds₂, hsl, ?_⟩
      rwa [append_assoc] at hr

lemma recorded_fresh : Recorded base [] [] [] where
  ports := List.nodup_nil
  listed := by simp
  kept := by simp
  declared := Nat.zero_le N
  announced := fun h => absurd rfl h

lemma Kept.shows (h : Kept base done l) (hf : Fits l.entry) : Shows base done l.port (toWire l.entry) := by
  have hfl : (toWire l.entry).flags = l.flags := presence_absent l.flags h.direction.no_presence
  refine ⟨h.hash, rfl, ?_, ?_, h.name, h.schema, rfl, toWire_iter hf⟩
  · rw [hfl]
    exact h.direction
  · rw [hfl]
    exact h.latched

lemma Recorded.announces (h : Recorded base done ls ds) (hfr : OVERHEAD ≤ FRAME) (hd : done ≠ []) (ack : Bool) :
    Announces base done ack ((⟨slots N ls, slots N ds⟩ : Slots).tables base) := by
  have ha := h.announced hd
  have ht : (⟨slots N ls, slots N ds⟩ : Slots).tables base = { base with
      locals := ls
      declared := ds } := by simp only [Slots.tables, slots_taken]
  rw [ht]
  obtain ⟨payload, hpay⟩ : ∃ payload, Tables.helloPayload { base with
      locals := ls
      declared := ds } ack = .ok payload := ⟨_, helloPayload_announced.mpr ⟨ha, rfl⟩⟩
  obtain ⟨hello, hp, hack, -, hid, hes, hlen⟩ := helloPayload_parsed hpay
  refine ⟨payload, hello, hpay, ?_, hp, hack, hid, ls.map LocalType.port, h.ports, h.listed, ?_⟩
  · simp only [OVERHEAD] at hfr ⊢
    omega
  · rw [hes]
    simp only [forall₂_map_left_iff, forall₂_map_right_iff]
    exact forall₂_same.mpr fun l hl => (h.kept l hl).shows (ha.fits l hl)

theorem declarations_announced {id : Str} {ports : List StaticPort} {txCap rxCap : ℕ} {l : Link N FRAME}
    (hnew : Link.new id ports txCap rxCap = .ok l) (bridge : Bool) (calls : List Declaration) :
    let base := if bridge then l.intoBridge.toTables else l.toTables
    let outcome := Declaration.run base calls (Slots.fresh N)
    (∀ call e s', Declaration.apply base call outcome.2 = (.error e, s') → s' = outcome.2) ∧
      (outcome.1 ≠ [] → ∀ ack, Announces base outcome.1 ack (outcome.2.tables base)) := by
  intro base outcome
  obtain ⟨hfr, -⟩ := new_ok.mp hnew
  obtain ⟨ls, ds, hsl, hr⟩ := run_recorded (@recorded_fresh N FRAME base) calls
  change outcome.2 = _ at hsl
  rw [nil_append] at hr
  constructor
  · intro call e s' hc
    rw [hsl] at hc ⊢
    rcases apply_recorded hr call with ⟨e', ha⟩ | ⟨_, _, ha, -⟩
    · rw [ha] at hc
      exact (Prod.mk.inj hc).2.symm
    · rw [ha] at hc
      cases hc
  · intro hd ack
    rw [hsl]
    exact hr.announces hfr hd ack

def boardCalls : List Declaration :=
  [.publishes poseType posePort, .subscribes poseType posePort, .publishesLatched poseType posePort]

def newBoard : Link 2 64 := initial boardId boardPorts 200 200

theorem declarations_announced_board :
    Announces newBoard.toTables (Declaration.run newBoard.toTables boardCalls (Slots.fresh 2)).1 true
      ((Declaration.run newBoard.toTables boardCalls (Slots.fresh 2)).2.tables newBoard.toTables) := by
  have hnew : Link.new boardId boardPorts 200 200 = .ok newBoard :=
    new_ok.mpr ⟨by decide, by decide, by decide, by decide, rfl⟩
  have hd : (Declaration.run newBoard.toTables boardCalls (Slots.fresh 2)).1.length = 2 := by decide +kernel
  refine (declarations_announced hnew false boardCalls).2 ?_ true
  intro hn
  rw [show (Declaration.run newBoard.toTables boardCalls (Slots.fresh 2)).1 = [] from hn] at hd
  cases hd

end Reiny.Link
