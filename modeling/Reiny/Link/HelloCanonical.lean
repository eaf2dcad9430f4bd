import Reiny.Link.HelloWriter

namespace Reiny.Link.HelloCodec

open Lib Words Utf8 PrefixCode Wire HelloFormat List

structure Same (a b : HelloEntry) : Prop where
  hash : a.hash = b.hash
  flags : a.flags = b.flags
  schema : a.schema = b.schema
  name : a.name = b.name
  port : a.port = b.port
  response : a.response = b.response
  sources : a.sources.iter = b.sources.iter

def withoutPresence (e : HelloEntry) : HelloEntry := { e with flags := e.flags &&& ~~~SCHEMA_FINGERPRINT }

def toWire (e : HelloEntry) : HelloEntry :=
  { withoutPresence e with sources := .wire (e.sources.iter.flatMap endpointBytes) }

lemma presence_twice :
    ∀ f : UInt8, (f &&& ~~~SCHEMA_FINGERPRINT) ||| SCHEMA_FINGERPRINT = f ||| SCHEMA_FINGERPRINT :=
  uint8_forall (by decide +kernel)

lemma presence_absent : ∀ f : UInt8, f &&& SCHEMA_FINGERPRINT = 0 → f &&& ~~~SCHEMA_FINGERPRINT = f :=
  uint8_forall (by decide +kernel)

variable {e : HelloEntry} {ack ack' bridge bridge' : Bool} {es : List HelloEntry} {id : Str} {h h' : Hello}
  {p : Bytes} {es' : List HelloEntry} {q extra : Bytes} {cap : ℕ}

lemma toWire_iter (h : Fits e) : (toWire e).sources.iter = e.sources.iter := wire_iter h.sources

lemma toWire_same (h : Fits e) : Same (toWire e) (withoutPresence e) :=
  ⟨rfl, rfl, rfl, rfl, rfl, rfl, toWire_iter h⟩

lemma toWire_wireForm (h : Fits e) : WireForm (toWire e) := by
  have hi := toWire_iter h
  refine ⟨⟨h.port, h.name, h.response, ?_, ?_⟩, clear_presence e.flags, ?_⟩
  · rw [hi]
    exact h.count
  · rw [hi]
    exact h.sources
  · rw [hi]
    rfl

lemma entryBytes_toWire (h : Fits e) : entryBytes (toWire e) = entryBytes e := by
  simp only [entryBytes, toWire_iter h]
  simp only [toWire, withoutPresence, presence_twice]

lemma helloBytes_toWire (h : ∀ e ∈ es, Fits e) :
    helloBytes ack bridge id (es.map toWire) = helloBytes ack bridge id es := by
  have hb : (es.map toWire).flatMap entryBytes = es.flatMap entryBytes := by
    rw [flatMap_map]
    exact flatMap_congr fun e he => entryBytes_toWire (h e he)
  rw [helloBytes, hb, length_map]
  rfl

lemma helloFlags_inj (h : helloFlags ack bridge = helloFlags ack' bridge') : ack = ack' ∧ bridge = bridge' := by
  obtain ⟨-, ha, hb⟩ := helloFlags_bits ack bridge
  obtain ⟨-, ha', hb'⟩ := helloFlags_bits ack' bridge'
  rw [h] at ha hb
  exact ⟨ha.symm.trans ha', hb.symm.trans hb'⟩

lemma helloBytes_inj {id' : Str} (hid : Short id) (hid' : Short id') (hn : es.length ≤ 255)
    (hn' : es'.length ≤ 255) (hes : ∀ e ∈ es, WireForm e) (hes' : ∀ e ∈ es', WireForm e)
    (h : helloBytes ack bridge id es ++ extra = helloBytes ack' bridge' id' es') :
    ack = ack' ∧ bridge = bridge' ∧ id = id' ∧ es = es' ∧ extra = [] := by
  rw [← append_nil (helloBytes ack' _ _ _)] at h
  simp only [helloBytes, append_assoc] at h
  obtain ⟨hf, h⟩ := byte_canonical.append_inj trivial trivial h
  obtain ⟨ha, hbr⟩ := helloFlags_inj hf
  obtain ⟨hids, h⟩ := str_canonical.append_inj hid hid' (append_cancel_left h)
  obtain ⟨hc, h⟩ := byte_canonical.append_inj trivial trivial h
  have hl : es.length = es'.length := by
    rw [← ofNat_toNat_short hn, ← ofNat_toNat_short hn', hc]
  obtain ⟨hee, hx⟩ := (entry_canonical.times es'.length).append_inj ⟨hl, hes⟩ ⟨rfl, hes'⟩ h
  exact ⟨ha, hbr, hids, hee, hx⟩

lemma helloParse_helloBytes (hid : Short id) (hes : ∀ e ∈ es, Fits e) (hn : es.length ≤ 255) :
    helloParse (helloBytes ack bridge id es) = .ok h ↔
      Accepted ack bridge id (es.map toWire) ∧ h = helloOf ack bridge id (es.map toWire) := by
  rw [helloParse_ok, ← helloBytes_toWire hes]
  constructor
  · rintro ⟨ack', bridge', id', es', ha, hb, rfl⟩
    have hw : ∀ e ∈ es.map toWire, WireForm e := by
      intro e he
      obtain ⟨d, hd, rfl⟩ := mem_map.mp he
      exact toWire_wireForm (hes d hd)
    rw [← append_nil (helloBytes ack bridge _ _)] at hb
    obtain ⟨rfl, rfl, rfl, rfl, -⟩ :=
      helloBytes_inj hid ha.id_short (by simpa using hn) ha.count hw ha.wire hb
    exact ⟨ha, rfl⟩
  · rintro ⟨ha, rfl⟩
    exact ⟨ack, bridge, id, _, ha, rfl, rfl⟩

lemma helloWrite_parsed (hp : helloParse p = .ok h) (hc : p.length ≤ cap) :
    helloWrite cap h.ack h.bridge h.id h.entries = .ok p := by
  obtain ⟨ack, bridge, id, es, ha, rfl, rfl⟩ := helloParse_ok.mp hp
  rw [helloOf_entries _ _ _ ha.wire]
  exact helloWrite_ok.mpr ⟨ha.id_short, fun e he => (ha.wire e he).fits, ha.count, hc, rfl⟩

lemma helloParse_written (hw : helloWrite cap ack bridge id es = .ok p) (hp : helloParse p = .ok h) :
    h.ack = ack ∧ h.bridge = bridge ∧ h.id = id ∧ h.entries = es.map toWire ∧ ∀ e ∈ es, Fits e := by
  obtain ⟨hid, hes, hn, -, rfl⟩ := helloWrite_ok.mp hw
  obtain ⟨ha, rfl⟩ := (helloParse_helloBytes hid hes hn).mp hp
  exact ⟨rfl, rfl, rfl, helloOf_entries _ _ _ ha.wire, hes⟩

lemma forall₂_toWire (hes : ∀ e ∈ es, Fits e) :
    List.Forall₂ (fun parsed e => Same parsed (withoutPresence e)) (es.map toWire) es := by
  rw [forall₂_map_left_iff, forall₂_same]
  exact fun e he => toWire_same (hes e he)

lemma withoutPresence_eq (h : e.flags &&& SCHEMA_FINGERPRINT = 0) : withoutPresence e = e := by
  rw [withoutPresence, presence_absent e.flags h]

lemma same_wireForm {a b : HelloEntry} (ha : WireForm a) (hb : WireForm b) (h : Same a b) : a = b := by
  have hs : a.sources = b.sources := by
    rw [ha.sources, hb.sources, h.sources]
  obtain ⟨h₁, h₂, h₃, h₄, h₅, h₆, -⟩ := h
  cases a
  cases b
  simp only at h₁ h₂ h₃ h₄ h₅ h₆ hs
  rw [h₁, h₂, h₃, h₄, h₅, h₆, hs]

lemma forall₂_same_eq (hes : ∀ e ∈ es, WireForm e) (hes' : ∀ e ∈ es', WireForm e)
    (h : List.Forall₂ Same es es') : es = es' := by
  induction h with
  | nil => rfl
  | cons hs _ ih =>
    simp only [mem_cons, forall_eq_or_imp] at hes hes'
    rw [same_wireForm hes.1 hes'.1 hs, ih hes.2 hes'.2]

lemma helloParse_entries_wireForm (hp : helloParse p = .ok h) : ∀ e ∈ h.entries, WireForm e := by
  obtain ⟨ack, bridge, id, es, ha, -, rfl⟩ := helloParse_ok.mp hp
  rw [helloOf_entries _ _ _ ha.wire]
  exact ha.wire

lemma helloParse_determines (hp : helloParse p = .ok h) (hq : helloParse q = .ok h') (ha : h.ack = h'.ack)
    (hbr : h.bridge = h'.bridge) (hid : h.id = h'.id) (hes : List.Forall₂ Same h.entries h'.entries) :
    p = q := by
  have he := forall₂_same_eq (helloParse_entries_wireForm hp) (helloParse_entries_wireForm hq) hes
  have hwp := helloWrite_parsed hp (le_max_left p.length q.length)
  rw [ha, hbr, hid, he, helloWrite_parsed hq (le_max_right p.length q.length)] at hwp
  exact (Except.ok.inj hwp).symm

lemma helloParse_prefix_free (hp : helloParse p = .ok h) (hq : helloParse (p ++ extra) = .ok h') :
    extra = [] := by
  obtain ⟨_, _, _, _, ha, rfl, -⟩ := helloParse_ok.mp hp
  obtain ⟨_, _, _, _, ha', hb, -⟩ := helloParse_ok.mp hq
  exact (helloBytes_inj ha.id_short ha'.id_short ha.count ha'.count ha.wire ha'.wire hb).2.2.2.2

lemma helloFlags_bridge
    (h : helloFlags ack bridge &&& ~~~HELLO_ACK = helloFlags ack' bridge' &&& ~~~HELLO_ACK) :
    bridge = bridge' := by
  revert ack bridge ack' bridge'
  decide

lemma helloParse_repeats (hp : helloParse p = .ok h) (hq : helloParse q = .ok h')
    (hh : p.headD 0 &&& ~~~HELLO_ACK = q.headD 0 &&& ~~~HELLO_ACK) (ht : p.tail = q.tail) :
    h.bridge = h'.bridge ∧ h.id = h'.id ∧ h.entries = h'.entries := by
  obtain ⟨ack, bridge, id, es, ha, rfl, rfl⟩ := helloParse_ok.mp hp
  obtain ⟨ack', bridge', id', es', ha', rfl, rfl⟩ := helloParse_ok.mp hq
  have hb : helloBytes ack bridge id es ++ [] = helloBytes ack bridge id' es' := by
    rw [append_nil]
    exact congrArg (helloFlags ack bridge :: ·) ht
  obtain ⟨-, -, rfl, rfl, -⟩ := helloBytes_inj ha.id_short ha'.id_short ha.count ha'.count ha.wire ha'.wire hb
  refine ⟨helloFlags_bridge hh, rfl, ?_⟩
  rw [helloOf_entries _ _ _ ha.wire, helloOf_entries _ _ _ ha.wire]

theorem hello_format_bijective :
    (∀ cap ack bridge id es p h, helloWrite cap ack bridge id es = .ok p → helloParse p = .ok h →
      h.ack = ack ∧ h.bridge = bridge ∧ h.id = id ∧
      List.Forall₂ (fun parsed e => Same parsed (withoutPresence e)) h.entries es ∧
      ((∀ e ∈ es, e.flags &&& SCHEMA_FINGERPRINT = 0) → List.Forall₂ Same h.entries es)) ∧
    (∀ p h, helloParse p = .ok h → ∀ cap, p.length ≤ cap →
      helloWrite cap h.ack h.bridge h.id h.entries = .ok p) ∧
    (∀ p q h h', helloParse p = .ok h → helloParse q = .ok h' → h.ack = h'.ack → h.bridge = h'.bridge →
      h.id = h'.id → List.Forall₂ Same h.entries h'.entries → p = q) ∧
    (∀ p extra h h', helloParse p = .ok h → helloParse (p ++ extra) = .ok h' → extra = []) := by
  refine ⟨?_, ?_, ?_, ?_⟩
  · intro cap ack bridge id es p h hw hp
    obtain ⟨ha, hbr, hid, hen, hf⟩ := helloParse_written hw hp
    have hsa := forall₂_toWire hf
    rw [← hen] at hsa
    refine ⟨ha, hbr, hid, hsa, ?_⟩
    intro hfl
    rw [hen, forall₂_map_left_iff, forall₂_same]
    intro e he
    have hs := toWire_same (hf e he)
    rwa [withoutPresence_eq (hfl e he)] at hs
  · intro p h hp cap hc
    exact helloWrite_parsed hp hc
  · intro p q h h' hp hq ha hbr hid hes
    exact helloParse_determines hp hq ha hbr hid hes
  · intro p extra h h' hp hq
    exact helloParse_prefix_free hp hq

def sampleId : Str := ⟨[98], by decide⟩

def sampleType : Str := ⟨[84], by decide⟩

def sampleEntries : List HelloEntry :=
  [{ hash := endpointHash sampleId sampleId, flags := PUB ||| LATCHED, schema := 7, name := sampleType
     port := sampleId, response := none, sources := .static [] },
   { hash := endpointHash sampleId sampleType, flags := SUB, schema := 7, name := sampleType
     port := sampleType, response := none, sources := .static [⟨sampleType, sampleId⟩] }]

theorem hello_format_bijective_sample : ∃ p h, helloWrite 100 true false sampleId sampleEntries = .ok p ∧
    helloParse p = .ok h ∧ h.ack = true ∧ h.id = sampleId ∧ List.Forall₂ Same h.entries sampleEntries ∧
      helloWrite p.length true false sampleId h.entries = .ok p := by
  have hw : ∃ p h, helloWrite 100 true false sampleId sampleEntries = .ok p ∧ helloParse p = .ok h := by
    refine ⟨helloBytes true false sampleId sampleEntries,
      helloOf true false sampleId (sampleEntries.map toWire), ?_, ?_⟩ <;> decide +kernel
  obtain ⟨p, h, hw, hp⟩ := hw
  obtain ⟨hrd, hre, -, -⟩ := hello_format_bijective
  obtain ⟨ha, hbr, hid, -, hes⟩ := hrd _ _ _ _ _ _ _ hw hp
  have hr := hre p h hp p.length le_rfl
  rw [ha, hbr, hid] at hr
  exact ⟨p, h, hw, hp, ha, hid, hes (by decide), hr⟩

end Reiny.Link.HelloCodec
