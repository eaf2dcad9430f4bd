import Reiny.Link.Invariant
import Reiny.Link.StandardCodec

namespace Reiny.Link

open Lib Words Utf8 Results Wire HelloFormat HelloCodec Ports State List

variable {N FRAME : ℕ} {ack : Bool} {p : Bytes} {A B : Tables N FRAME}

lemma FlagsOk.no_presence {f : UInt8} {d : PortDirection} (h : FlagsOk f d) : f &&& SCHEMA_FINGERPRINT = 0 := by
  cases d with
  | output => rcases h with rfl | rfl <;> decide
  | input =>
    cases h
    decide
  | rpcServer =>
    cases h
    decide
  | rpcClient =>
    cases h
    decide

lemma toWire_flags {id : Str} {ports : List StaticPort} {l : LocalType} (h : LocalOk id ports l) :
    (toWire l.entry).flags = l.flags := presence_absent l.flags h.flags.no_presence

lemma collides_comm (a b : Endpoint) : collides a b = collides b a := by
  unfold collides
  rw [bne_comm, Bool.beq_comm]

lemma helloPayload_parsed {t : Tables N FRAME} (h : t.helloPayload ack = .ok p) :
    ∃ hello, helloParse p = .ok hello ∧ hello.ack = ack ∧ hello.bridge = t.bridge ∧ hello.id = t.id ∧
      hello.entries = t.locals.map (fun l => toWire l.entry) ∧ p.length ≤ FRAME - TRAILER - HEADER := by
  obtain ⟨hw, hello, hp⟩ := helloPayload_ok.mp h
  obtain ⟨ha, hbr, hid, hes, -⟩ := helloParse_written hw hp
  obtain ⟨-, -, -, hl, -⟩ := helloWrite_ok.mp hw
  refine ⟨hello, hp, ha, hbr, hid, ?_, hl⟩
  rw [hes, Tables.localEntries, map_map]
  rfl

def outgoing (l : LocalType) : Prop := l.flags &&& (PUB ||| SERVE) ≠ 0

def SameType (a b : LocalType) : Prop :=
  a.name = b.name ∧ a.schema = b.schema ∧ a.port.response.map PortType.hello = b.port.response.map PortType.hello ∧
    (a.flags &&& (CALLS ||| SERVE) != 0) = (b.flags &&& (CALLS ||| SERVE) != 0)

structure Matched (idA idB : Str) (a b : LocalType) : Prop where
  contract : (⟨idB, b.port.name⟩ ∈ a.port.sources ∧ outgoing b) ∨
    (⟨idA, a.port.name⟩ ∈ b.port.sources ∧ outgoing a) →
    SameType a b
  addresses : ∀ x ∈ Tables.localAddresses idA a, ∀ y ∈ Tables.localAddresses idB b, collides x y = false

variable {a b : LocalType}

lemma SameType.symm (h : SameType a b) : SameType b a := ⟨h.1.symm, h.2.1.symm, h.2.2.1.symm, h.2.2.2.symm⟩

lemma Matched.symm {idA idB : Str} (h : Matched idA idB a b) : Matched idB idA b a where
  contract := fun hc => (h.contract hc.symm).symm
  addresses := fun x hx y hy => by
    rw [collides_comm]
    exact h.addresses y hy x hx

lemma any_endpoint {sources : List Endpoint} {ns port : Str} :
    sources.any (fun s => s.ns == ns && s.port == port) = true ↔ ⟨ns, port⟩ ∈ sources := by
  rw [any_eq_true]
  constructor
  · rintro ⟨s, hs, he⟩
    simp only [Bool.and_eq_true, beq_iff_eq] at he
    obtain ⟨rfl, rfl⟩ := he
    exact hs
  · intro h
    exact ⟨_, h, by simp⟩

lemma collision_free {a b : Endpoint} (h : collides a b = false) (he : a.hash = b.hash) : a = b := by
  by_contra hne
  simp [collides, hne, he] at h

variable {idA idB : Str} {ports : List StaticPort} {hello : Hello}

lemma agrees_iff (hid : hello.id = idB) (hb : LocalOk idB ports b) (hfi : Fits b.entry) :
    Agrees idA hello (toWire b.entry) a ↔ Matched idA idB a b := by
  subst hid
  have hfl := toWire_flags hb
  have hsr : (toWire b.entry).sources.iter = b.port.sources := toWire_iter hfi
  have hfr : Tables.fromPeer hello (toWire b.entry) a = true ↔
      ⟨hello.id, b.port.name⟩ ∈ a.port.sources ∧ outgoing b := by
    rw [Tables.fromPeer, Bool.and_eq_true, any_endpoint, hfl, bne_iff_ne]
    rfl
  have hto : Tables.toPeer idA (toWire b.entry) a = true ↔
      ⟨idA, a.port.name⟩ ∈ b.port.sources ∧ outgoing a := by
    rw [Tables.toPeer, Bool.and_eq_true, hsr, any_endpoint, bne_iff_ne]
    rfl
  have hsa : Tables.sameContract (toWire b.entry) a = true ↔ SameType a b := by
    simp only [Tables.sameContract, Bool.and_eq_true, beq_iff_eq, hfl, and_assoc]
    rfl
  constructor
  · rintro ⟨hc, -, ha⟩
    rw [Bool.or_eq_true, hfr, hto, hsa] at hc
    refine ⟨hc, ?_⟩
    intro x hx y hy
    rw [hsr] at ha
    exact ha y hy x hx
  · rintro ⟨hc, ha⟩
    refine ⟨?_, ?_, ?_⟩
    · rwa [Bool.or_eq_true, hfr, hto, hsa]
    · intro s hs hh
      have ho : s.hash = (⟨hello.id, b.port.name⟩ : Endpoint).hash := hh.trans hb.hash
      have hf := ha s (mem_cons_of_mem _ hs) ⟨hello.id, b.port.name⟩ mem_cons_self
      rw [collision_free hf ho]
      exact ⟨rfl, rfl⟩
    · rw [hsr]
      exact fun y hy x hx => ha x hx y hy

def AllMatched (A B : Tables N FRAME) : Prop :=
  ∀ a ∈ A.locals, ∀ b ∈ B.locals, Matched A.id B.id a b

lemma AllMatched.symm (h : AllMatched A B) : AllMatched B A := fun b hb a ha => (h a ha b hb).symm

lemma compatible_own (hB : Inv B) (hp : B.helloPayload ack = .ok p) {hello : Hello} (hid : hello.id = B.id)
    (hes : hello.entries = B.locals.map (fun l => toWire l.entry)) :
    Compatible N A.id A.locals hello ↔ AllMatched A B := by
  obtain ⟨ha, -⟩ := helloPayload_announced.mp hp
  have hag : ∀ a, ∀ b ∈ B.locals, Agrees A.id hello (toWire b.entry) a ↔ Matched A.id B.id a b :=
    fun a b hb => agrees_iff hid (hB.own.locals_ok b hb) (ha.fits b hb)
  constructor
  · intro hc a ha b hb
    apply (hag a b hb).mp
    apply hc.agrees _ _ a ha
    rw [hes]
    exact mem_map.mpr ⟨b, hb, rfl⟩
  · intro hm
    refine ⟨?_, ?_, ?_⟩
    · rw [hid]
      exact hB.own.id_len
    · rw [hes, length_map]
      exact hB.own.count
    · intro e he a ha
      rw [hes] at he
      obtain ⟨b, hb, rfl⟩ := mem_map.mp he
      exact (hag a b hb).mpr (hm a ha b hb)

lemma accepts_iff (hB : Inv B) (hc : A.connected = false) (hp : B.helloPayload ack = .ok p) :
    (∃ c, A.validateHello p = .ok c) ↔ AllMatched A B := by
  obtain ⟨hello, hpa, -, -, hid, hes, hl⟩ := helloPayload_parsed hp
  rw [← compatible_own hB hp hid hes]
  simp only [validateHello_ok, hpa, Except.ok.injEq, exists_eq_left', hc]
  constructor
  · rintro ⟨c, -, -, h, -⟩
    exact h
  · intro h
    exact ⟨_, by omega, by simp, h, rfl⟩

theorem handshake_agreement {C : Codec} {A B : Link N FRAME} (hA : Reachable C A) (hB : Reachable C B)
    (hcA : A.connected = false) (hcB : B.connected = false) {ackA ackB : Bool} {pA pB : Bytes}
    (hpA : A.helloPayload ackA = .ok pA) (hpB : B.helloPayload ackB = .ok pB) :
    (∃ c, A.validateHello pB = .ok c) ↔ ∃ c, B.validateHello pA = .ok c := by
  rw [accepts_iff hB.inv hcA hpB, accepts_iff hA.inv hcB hpA]
  exact ⟨AllMatched.symm, AllMatched.symm⟩

def boardId : Str := HelloCodec.sampleId

def hostId : Str := ⟨[104], by decide⟩

def poseType : PortType := ⟨HelloCodec.sampleType, 7⟩

def posePort : Str := ⟨[112], by decide⟩

def boardPorts : List StaticPort := [⟨posePort, .output, poseType.ty, poseType.schema, none, []⟩]

def hostPorts : List StaticPort := [⟨posePort, .input, poseType.ty, poseType.schema, none, [⟨boardId, posePort⟩]⟩]

def board : Link 2 64 := ((initial boardId boardPorts 200 200).publishes poseType posePort).2

def host : Link 2 64 := ((initial hostId hostPorts 200 200).subscribes poseType posePort).2

lemma board_reachable (C : Codec) : Reachable C board :=
  .step (.new (new_ok.mpr ⟨by decide, by decide, by decide, by decide, rfl⟩)) (.publishes poseType posePort)

lemma host_reachable (C : Codec) : Reachable C host :=
  .step (.new (new_ok.mpr ⟨by decide, by decide, by decide, by decide, rfl⟩)) (.subscribes poseType posePort)

lemma board_accepts : ∃ p, host.helloPayload true = .ok p ∧ ∃ c, board.validateHello p = .ok c :=
  ⟨helloBytes true false hostId host.localEntries, by decide +kernel,
    ⟨hostId, host.localEntries.map fun e => remoteOf e, true, false⟩, by decide +kernel⟩

theorem handshake_agreement_sample : ∃ pA pB, board.helloPayload false = .ok pA ∧
    host.helloPayload true = .ok pB ∧ (∃ c, board.validateHello pB = .ok c) ∧
      ∃ c, host.validateHello pA = .ok c := by
  obtain ⟨pB, hpB, ha⟩ := board_accepts
  have hpA : board.helloPayload false = .ok (helloBytes false false boardId board.localEntries) := by
    decide +kernel
  refine ⟨_, pB, hpA, hpB, ha, ?_⟩
  exact (handshake_agreement (board_reachable standard) (host_reachable standard) (by decide +kernel)
    (by decide +kernel) hpA hpB).mp ha

end Reiny.Link
