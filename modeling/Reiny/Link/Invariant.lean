import Reiny.Link.Steps
import Reiny.Link.Validation

namespace Reiny.Link

open Lib Words Utf8 Results Wire HelloFormat HelloCodec Ports State

variable {N FRAME : ℕ}

structure LocalOk (id : Str) (ports : List StaticPort) (l : LocalType) : Prop where
  port : l.port ∈ ports
  hash : l.hash = endpointHash id l.port.name
  name : l.name = l.port.ty
  schema : l.schema = l.port.schema
  flags : FlagsOk l.flags l.port.direction

structure Peered (t : Tables N FRAME) (hello : Hello) : Prop where
  parsed : helloParse t.peerHello = .ok hello
  size : t.peerHello.length ≤ FRAME
  compatible : Compatible N t.id t.locals hello
  remote : t.remote = hello.entries.map remoteOf
  peer : t.peer = some hello.id
  bridge : t.peerBridge = hello.bridge

structure OwnOk (N FRAME : ℕ) (bridge : Bool) (id : Str) (ports : List StaticPort) (locals : List LocalType)
    (declared : List StaticPort) : Prop where
  not_bridge : bridge = false
  frame : OVERHEAD ≤ FRAME
  id_valid : validNamespace id.bytes = true
  id_len : id.len ≤ ID_MAX
  ports_ok : portsOk ports = true
  locals_ok : ∀ l ∈ locals, LocalOk id ports l
  count : locals.length ≤ N
  declared_ok : ∀ port, port ∈ declared ↔ ∃ l ∈ locals, l.port = port
  announced : locals ≠ [] → Announced FRAME bridge id locals

structure Inv (t : Tables N FRAME) : Prop where
  own : OwnOk N FRAME t.bridge t.id t.ports t.locals t.declared
  idle : t.started = false → t.connected = false
  peered : t.connected = true → ∃ hello, Peered t hello
  alone : t.connected = false → t.remote = [] ∧ t.peerHello = [] ∧ t.peer = none ∧ t.peerBridge = false
  pending : ∀ hash seq, some (hash, seq) ∈ t.pending →
    t.peerServesHash hash = true ∧ (t.localSource hash CALLS).isSome = true

variable {t t' : Tables N FRAME} {hash : UInt32} {p : Bytes} {c : PeerContract} {l : Link N FRAME}
  {d : PortDirection}
  {id : Str} {rxCap txCap : ℕ}

lemma serves_connected (h : t.peerServesHash hash = true) : t.connected = true := by
  simp only [Tables.peerServesHash, Bool.and_eq_true] at h
  exact h.1

lemma Inv.no_pending (h : Inv t) (hc : t.connected = false) (hash : UInt32) (seq : UInt8) :
    some (hash, seq) ∉ t.pending := by
  intro hp
  have := serves_connected (h.pending hash seq hp).1
  rw [hc] at this
  cases this

lemma FlagsOk.or {f g : UInt8} (hf : FlagsOk f d) (hg : FlagsOk g d) : FlagsOk (f ||| g) d := by
  cases d with
  | output =>
    rcases hf with rfl | rfl <;> rcases hg with rfl | rfl
    · exact .inl (by decide)
    · exact .inr (by decide)
    · exact .inr (by decide)
    · exact .inr (by decide)
  | input | rpcServer | rpcClient =>
    cases hf
    cases hg
    rfl

inductive Declares (N : ℕ) (id : Str) (port : StaticPort) (flag : UInt8) : List LocalType → List LocalType → Prop
  | again {before after : List LocalType} {slot : LocalType} (h : slot.port = port) :
    Declares N id port flag (before ++ slot :: after)
      (before ++ { slot with flags := slot.flags ||| flag } :: after)
  | fresh {locals : List LocalType} (h : locals.length < N) :
    Declares N id port flag locals (locals ++ [⟨endpointHash id port.name, port.ty, port.schema, flag, port⟩])

variable {flag : UInt8} {port : StaticPort} {ls ls' : List LocalType}

lemma declareSlot_some (h : Tables.declareSlot hash port flag ls = .ok (some ls')) :
    ∃ before slot after,
      ls = before ++ slot :: after ∧ slot.port = port ∧
        ls' = before ++ { slot with flags := slot.flags ||| flag } :: after := by
  induction ls generalizing ls' with
  | nil => cases h
  | cons slot rest ih =>
    unfold Tables.declareSlot at h
    split_ifs at h with hc hp
    · cases h
      exact ⟨[], slot, rest, rfl, hp, rfl⟩
    · obtain ⟨rest', hre, hr⟩ := bind_ok.mp h
      cases rest' with
      | none => cases hr
      | some rest' =>
        cases hr
        obtain ⟨before, s, after, rfl, hs, rfl⟩ := ih hre
        exact ⟨slot :: before, s, after, rfl, hs, rfl⟩

lemma declareType_ok (h : t.declareType port flag = .ok t') :
    ∃ locals, Declares N t.id port flag t.locals locals ∧ t' = { t with locals } := by
  obtain ⟨slots, hsl, h⟩ := bind_ok.mp h
  cases slots with
  | none =>
    obtain ⟨hl, hr⟩ := ensure_bind_ok.mp h
    exact ⟨_, .fresh hl, (pure_ok.mp hr).symm⟩
  | some slots =>
    obtain ⟨before, slot, after, he, hs, rfl⟩ := declareSlot_some hsl
    refine ⟨_, ?_, (Except.ok.inj h).symm⟩
    rw [he]
    exact .again hs

lemma declare_ok {name : Str} {d : PortDirection} {ty : PortType} {response : Option PortType}
    (h : t.declare name d flag ty response = .ok t') :
    t.started = false ∧ ∃ port locals, t.port name d ty response = .ok port ∧
      Declares N t.id port flag t.locals locals ∧ Announced FRAME t.bridge t.id locals ∧
      t' = { t with locals, declared := if port ∈ t.declared then t.declared else t.declared ++ [port] } := by
  obtain ⟨hs, h⟩ := ensure_bind_ok.mp h
  obtain ⟨port, hpo, h⟩ := bind_ok.mp h
  obtain ⟨-, h⟩ := ensure_bind_ok.mp h
  obtain ⟨t₁, ht₁, h⟩ := bind_ok.mp h
  obtain ⟨p, hp, h⟩ := bind_ok.mp h
  obtain ⟨locals, hd, rfl⟩ := declareType_ok ht₁
  obtain ⟨ha, -⟩ := helloPayload_announced.mp hp
  refine ⟨hs, port, locals, hpo, hd, ha, ?_⟩
  rw [← pure_ok.mp h]
  split_ifs <;> rfl

lemma Declares.localOk {ports : List StaticPort} (h : Declares N id port flag ls ls') (hp : port ∈ ports)
    (hf : FlagsOk flag port.direction) (hls : ∀ l ∈ ls, LocalOk id ports l) :
    ∀ l ∈ ls', LocalOk id ports l := by
  intro l hl
  cases h with
  | again hs =>
    rename_i before after slot
    simp only [List.mem_append, List.mem_cons] at hl hls
    rcases hl with hl | rfl | hl
    · exact hls l (Or.inl hl)
    · obtain ⟨h₁, h₂, h₃, h₄, h₅⟩ := hls slot (Or.inr (.inl rfl))
      refine ⟨h₁, h₂, h₃, h₄, h₅.or ?_⟩
      rwa [hs]
    · exact hls l (Or.inr (.inr hl))
  | fresh hlen =>
    rcases List.mem_append.mp hl with hl | hl
    · exact hls l hl
    · rw [List.mem_singleton.mp hl]
      refine ⟨hp, ?_, rfl, rfl, hf⟩
      dsimp only

lemma Declares.count (h : Declares N id port flag ls ls') (hls : ls.length ≤ N) : ls'.length ≤ N := by
  cases h with
  | again _ => simpa using hls
  | fresh hl => simpa using hl

lemma Declares.ports (h : Declares N id port flag ls ls') (p : StaticPort) :
    (∃ l ∈ ls', l.port = p) ↔ (∃ l ∈ ls, l.port = p) ∨ port = p := by
  cases h with
  | again hs =>
    subst hs
    simp only [List.mem_append, List.mem_cons, or_and_right, exists_or, exists_eq_left]
    refine ⟨Or.inl, ?_⟩
    rintro (h | h)
    · exact h
    · exact .inr (.inl h)
  | fresh _ =>
    simp only [List.mem_append, List.mem_singleton, or_and_right, exists_or, exists_eq_left]

lemma Inv.declare {name : Str} {flag : UInt8} {ty : PortType} {response : Option PortType} (hi : Inv t)
    (hf : FlagsOk flag d) (h : t.declare name d flag ty response = .ok t') : Inv t' := by
  obtain ⟨hs, port, locals, hpo, hd, ha, rfl⟩ := declare_ok h
  obtain ⟨hm, -, hdir, -⟩ := port_ok hpo
  have hc := hi.idle hs
  have hde : ∀ p, p ∈ (if port ∈ t.declared then t.declared else t.declared ++ [port]) ↔
      ∃ l ∈ locals, l.port = p := by
    intro p
    rw [hd.ports p, ← hi.own.declared_ok p]
    split_ifs with hp
    · exact ⟨Or.inl, fun h => h.elim id fun he => he ▸ hp⟩
    · rw [List.mem_append, List.mem_singleton, eq_comm]
  exact {
    own := ⟨hi.own.not_bridge, hi.own.frame, hi.own.id_valid, hi.own.id_len, hi.own.ports_ok,
      hd.localOk hm (hdir ▸ hf) hi.own.locals_ok, hd.count hi.own.count, hde, fun _ => ha⟩
    idle := fun _ => hc
    peered := fun hc' => absurd (hc.symm.trans hc') (by decide)
    alone := hi.alone
    pending := fun hash seq hp => absurd hp (hi.no_pending hc hash seq) }

lemma Inv.start (hi : Inv t) : Inv ({ t with started := true } : Tables N FRAME) where
  own := hi.own
  idle := fun h => by cases h
  peered := fun hc => by
    obtain ⟨hello, h₁, h₂, h₃, h₄, h₅, h₆⟩ := hi.peered hc
    exact ⟨hello, h₁, h₂, h₃, h₄, h₅, h₆⟩
  alone := hi.alone
  pending := hi.pending

lemma Inv.forget (hi : Inv t) : Inv t.forgetPeer where
  own := hi.own
  idle := fun _ => rfl
  peered := fun h => by cases h
  alone := fun _ => ⟨rfl, rfl, rfl, rfl⟩
  pending := fun hash seq hp => by
    have := Vector.mem_replicate.mp hp
    exact absurd this.2 (by simp)

lemma Inv.setPending (hi : Inv t) {pending : Vector (Option (UInt32 × UInt8)) N}
    (h : ∀ hash seq, some (hash, seq) ∈ pending →
      t.peerServesHash hash = true ∧ (t.localSource hash CALLS).isSome = true) :
    Inv ({ t with pending } : Tables N FRAME) where
  own := hi.own
  idle := hi.idle
  peered := fun hc => by
    obtain ⟨hello, h₁, h₂, h₃, h₄, h₅, h₆⟩ := hi.peered hc
    exact ⟨hello, h₁, h₂, h₃, h₄, h₅, h₆⟩
  alone := hi.alone
  pending := h

lemma mem_set_cases {α : Type} {v : Vector α N} {i : Fin N} {a b : α} (h : b ∈ v.set i a i.isLt) :
    b = a ∨ b ∈ v := by
  obtain ⟨j, hj, rfl⟩ := Vector.getElem_of_mem h
  by_cases hij : i.val = j
  · left
    rw [Vector.getElem_set, if_pos hij]
  · right
    rw [Vector.getElem_set, if_neg hij]
    exact Vector.getElem_mem hj

lemma Inv.cancel (hi : Inv t) (hash : UInt32) (seq : UInt8) : Inv (t.cancelRequest hash seq) := by
  unfold Tables.cancelRequest
  split
  · exact hi
  · apply hi.setPending
    intro h s hm
    rcases mem_set_cases hm with hm | hm
    · cases hm
    · exact hi.pending h s hm

lemma Inv.callsTo (hi : Inv t) (h : CallsTo t hash) : (t.localSource hash CALLS).isSome = true := by
  rcases h with h | h | ⟨port, hp, hd, s, hs, rfl⟩
  · rw [hi.own.not_bridge] at h
    cases h
  · exact h
  · obtain ⟨l, hl, rfl⟩ := (hi.own.declared_ok port).mp hp
    have hf := (hi.own.locals_ok l hl).flags
    rw [hd] at hf
    apply List.find?_isSome.mpr
    refine ⟨l, hl, ?_⟩
    rw [Bool.and_eq_true, List.any_eq_true]
    refine ⟨?_, s, hs, beq_self_eq_true _⟩
    rw [show l.flags = CALLS from hf]
    decide

lemma Inv.request (hi : Inv t) {seq : UInt8} {free : Fin N} (hs : t.peerServesHash hash = true)
    (hcs : CallsTo t hash) :
    Inv ({ t with pending := t.pending.set free (some (hash, seq)) free.isLt } : Tables N FRAME) := by
  apply hi.setPending
  intro h s hm
  rcases mem_set_cases hm with hm | hm
  · cases hm
    exact ⟨hs, hi.callsTo hcs⟩
  · exact hi.pending h s hm

lemma adopt_peered (h : t.validateHello p = .ok c) : ∃ hello, Peered (t.adopt p c) hello := by
  obtain ⟨hello, hp, hl, -, hc, rfl⟩ := validateHello_ok.mp h
  exact ⟨hello, hp, hl, hc, rfl, rfl, rfl⟩

lemma adopt_same (hi : Inv t) (hc : t.connected = true) (h : t.validateHello p = .ok c) :
    c.remote = t.remote ∧ c.bridge = t.peerBridge := by
  obtain ⟨hello, hp, -, hr, -, rfl⟩ := validateHello_ok.mp h
  obtain ⟨old, ho⟩ := hi.peered hc
  obtain ⟨hl, hh, ht⟩ := hr hc
  obtain ⟨hb, -, he⟩ := helloParse_repeats ho.parsed hp hh ht
  rw [ho.remote, ho.bridge, he, hb]
  exact ⟨rfl, rfl⟩

lemma Inv.adopt (hi : Inv t) (hs : t.started = true) (h : t.validateHello p = .ok c) : Inv (t.adopt p c) where
  own := hi.own
  idle := fun hn => absurd (hs.symm.trans hn) (by decide)
  peered := fun _ => adopt_peered h
  alone := fun hn => by cases hn
  pending := fun hash seq hp => by
    cases hc : t.connected with
    | false => exact absurd hp (hi.no_pending hc hash seq)
    | true =>
      obtain ⟨hr, hb⟩ := adopt_same hi hc h
      obtain ⟨hse, hcs⟩ := hi.pending hash seq hp
      refine ⟨?_, hcs⟩
      simp only [Tables.peerServesHash, Tables.remoteType, hc, Bool.true_and] at hse
      simp only [Tables.peerServesHash, Tables.remoteType, Tables.adopt, hr, hb, Bool.true_and]
      exact hse

lemma PeerStep.inv (h : PeerStep t t') (hi : Inv t) : Inv t' := by
  cases h with
  | start => exact hi.start
  | forget => exact hi.forget
  | adopt hs h => exact hi.adopt hs h
  | cancel hash seq => exact hi.cancel hash seq
  | request hse hcs _ _ => exact hi.request hse hcs

lemma steps_inv (h : TableSteps t t') (hi : Inv t) : Inv t' := by
  induction h with
  | refl => exact hi
  | tail _ h ih =>
    cases h with
    | peer h => exact h.inv ih
    | declare hf h => exact ih.declare hf h

lemma new_ok {ports : List StaticPort} :
    Link.new id ports txCap rxCap = .ok l ↔ OVERHEAD ≤ FRAME ∧ portsOk ports = true ∧
      validNamespace id.bytes = true ∧ id.len ≤ ID_MAX ∧ initial id ports txCap rxCap = l := by
  simp only [Link.new, ensure_bind_ok]
  simp only [bind_ok, idBuf_ok, pure_ok, and_assoc, exists_and_left, exists_eq_left']

lemma new_inv {ports : List StaticPort} (h : Link.new id ports txCap rxCap = .ok l) : Inv l.toTables := by
  obtain ⟨hfr, hpo, hid, hlen, rfl⟩ := new_ok.mp h
  exact {
    own := ⟨rfl, hfr, hid, hlen, hpo, fun _ hl => absurd hl List.not_mem_nil, Nat.zero_le N,
      fun _ => by simp [initial], fun hn => absurd rfl hn⟩
    idle := fun _ => rfl
    peered := fun hc => by cases hc
    alone := fun _ => ⟨rfl, rfl, rfl, rfl⟩
    pending := fun hash seq hp => absurd (Vector.mem_replicate.mp hp).2 (by simp) }

inductive Reachable (C : Codec) : Link N FRAME → Prop
  | new {id : Str} {ports : List StaticPort} {txCap rxCap : ℕ} {l : Link N FRAME}
      (h : Link.new id ports txCap rxCap = .ok l) : Reachable C l
  | step {l : Link N FRAME} (h : Reachable C l) (op : Op) : Reachable C (op.apply C l)

theorem Reachable.inv {C : Codec} (h : Reachable C l) : Inv l.toTables := by
  induction h with
  | new h => exact new_inv h
  | step _ op ih => exact steps_inv (apply_steps _ C op) ih

end Reiny.Link
