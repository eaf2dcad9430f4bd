import Reiny.Lib.Lists
import Reiny.Link.HelloFormat

namespace Reiny.Link.HelloCodec

open Lib Words Utf8 PrefixCode Lists Results Wire HelloFormat List

def strBytes (s : Str) : Bytes := UInt8.ofNat s.len :: s.bytes

def endpointBytes (e : Endpoint) : Bytes := strBytes e.ns ++ strBytes e.port

def responseBytes : Option HelloType → Bytes
  | none => [0]
  | some response => 1 :: (strBytes response.name ++ le64 response.schema)

def entryBytes (e : HelloEntry) : Bytes :=
  le32 e.hash ++ ([e.flags ||| SCHEMA_FINGERPRINT] ++ (strBytes e.port ++ (strBytes e.name ++ (le64 e.schema ++
    (responseBytes e.response ++ ([UInt8.ofNat e.sources.iter.length] ++ e.sources.iter.flatMap endpointBytes))))))

def helloBytes (ack bridge : Bool) (id : Str) (es : List HelloEntry) : Bytes :=
  [helloFlags ack bridge] ++ (le16 SCHEMA_FINGERPRINT_VERSION ++ (strBytes id ++
    ([UInt8.ofNat es.length] ++ es.flatMap entryBytes)))

def Short (s : Str) : Prop := s.len ≤ 255

def EndpointShort (e : Endpoint) : Prop := Short e.ns ∧ Short e.port

def ResponseShort (response : Option HelloType) : Prop := ∀ r ∈ response, Short r.name

structure Fits (e : HelloEntry) : Prop where
  port : Short e.port
  name : Short e.name
  response : ResponseShort e.response
  count : e.sources.iter.length ≤ 255
  sources : ∀ s ∈ e.sources.iter, EndpointShort s

variable {n : ℕ} {ps : List Endpoint} {hello : Hello}

lemma ofNat_toNat_short (h : n ≤ 255) : (UInt8.ofNat n).toNat = n := by
  rw [UInt8.toNat_ofNat']
  omega

lemma str_canonical : Canonical str Short strBytes := by
  intro bs s rest
  simp only [str, byte_canonical.bind_some, (take_canonical _).bind_some, true_and, id_eq]
  constructor
  · rintro ⟨len, mid, rfl, b, mid', hb, rfl, h⟩
    simp only [StateT.run_lift, Option.bind_eq_bind, Option.bind_eq_some_iff, Option.pure_def,
      Option.some.injEq, Prod.mk.injEq] at h
    obtain ⟨t, ht, rfl, rfl⟩ := h
    have hs := fromUtf8_some.mp ht
    have hl : t.len = len.toNat := by rw [Str.len, hs, hb]
    refine ⟨?_, ?_⟩
    · rw [Short, hl]
      exact Nat.le_of_lt_succ len.toNat_lt
    · rw [strBytes, hl, UInt8.ofNat_toNat, hs]
      rfl
  · rintro ⟨hs, rfl⟩
    refine ⟨UInt8.ofNat s.len, s.bytes ++ rest, rfl, s.bytes, rest, ?_, rfl, ?_⟩
    · exact (ofNat_toNat_short hs).symm
    · simp [StateT.run_lift, fromUtf8_some.mpr rfl]

lemma endpoint_canonical : Canonical endpoint EndpointShort endpointBytes := by
  intro bs e rest
  simp only [endpoint, str_canonical.bind_some, run_pure_some]
  constructor
  · rintro ⟨ns, mid, hns, rfl, port, mid', hp, rfl, rfl, rfl⟩
    exact ⟨⟨hns, hp⟩, by simp [endpointBytes]⟩
  · rintro ⟨⟨hns, hp⟩, rfl⟩
    exact ⟨e.ns, _, hns, by rw [endpointBytes, append_assoc], e.port, _, hp, rfl, rfl, rfl⟩

variable {α : Type} {es : List HelloEntry}

lemma run_failure {bs : Bytes} {x : α × Bytes} : (failure : Reader α).run bs ≠ some x := by
  intro h
  cases h

lemma response_canonical : Canonical response ResponseShort responseBytes := by
  intro bs r rest
  simp only [response, byte_canonical.bind_some, true_and]
  constructor
  · rintro ⟨tag, mid, rfl, h⟩
    split_ifs at h with h0 h1
    · obtain ⟨rfl, rfl⟩ := run_pure_some.mp h
      exact ⟨by simp [ResponseShort], by simp [responseBytes, h0]⟩
    · simp only [str_canonical.bind_some, word64_canonical.bind_some, run_pure_some, true_and] at h
      obtain ⟨name, mid', hn, rfl, schema, mid'', rfl, rfl, rfl⟩ := h
      exact ⟨by simpa [ResponseShort] using hn, by simp [responseBytes, h1]⟩
    · exact (run_failure h).elim
  · rintro ⟨hr, rfl⟩
    cases r with
    | none =>
      refine ⟨0, rest, rfl, ?_⟩
      rw [if_pos rfl]
      exact run_pure_some.mpr ⟨rfl, rfl⟩
    | some r =>
      refine ⟨1, strBytes r.name ++ (le64 r.schema ++ rest), by simp [responseBytes], ?_⟩
      rw [if_neg (by decide), if_pos rfl]
      simp only [str_canonical.bind_some, word64_canonical.bind_some, run_pure_some, true_and]
      exact ⟨r.name, _, hr r rfl, rfl, r.schema, rest, rfl, rfl, rfl⟩

lemma wireSources_flatMap (hs : ∀ s ∈ ps, EndpointShort s) {fuel : ℕ} (hf : ps.length ≤ fuel) :
    wireSources fuel (ps.flatMap endpointBytes) = ps := by
  induction ps generalizing fuel with
  | nil =>
    cases fuel with
    | zero => rfl
    | succ fuel =>
      have hn : endpoint.run [] = none := rfl
      simp only [flatMap_nil, wireSources, hn]
  | cons p ps ih =>
    obtain ⟨fuel, rfl⟩ : ∃ n, fuel = n + 1 := ⟨fuel - 1, by simp at hf; omega⟩
    simp only [mem_cons, forall_eq_or_imp] at hs
    rw [flatMap_cons, wireSources, endpoint_canonical.run_write hs.1]
    simp only [ih hs.2 (by simpa using hf)]

lemma flatMap_length_le {f : α → Bytes} (hf : ∀ a, f a ≠ []) (l : List α) :
    l.length ≤ (l.flatMap f).length := by
  induction l with
  | nil => simp
  | cons a l ih =>
    have ha := length_pos_iff.mpr (hf a)
    simp only [flatMap_cons, length_append, length_cons]
    omega

lemma wire_iter (hs : ∀ s ∈ ps, EndpointShort s) : (Sources.wire (ps.flatMap endpointBytes)).iter = ps :=
  wireSources_flatMap hs (flatMap_length_le (by simp [endpointBytes, strBytes]) ps)

structure WireForm (e : HelloEntry) : Prop where
  fits : Fits e
  flags : e.flags &&& SCHEMA_FINGERPRINT = 0
  sources : e.sources = .wire (e.sources.iter.flatMap endpointBytes)

lemma clear_presence : ∀ f : UInt8, (f &&& ~~~SCHEMA_FINGERPRINT) &&& SCHEMA_FINGERPRINT = 0 :=
  uint8_forall (by decide +kernel)

lemma restore_presence : ∀ f : UInt8, f &&& SCHEMA_FINGERPRINT ≠ 0 →
    (f &&& ~~~SCHEMA_FINGERPRINT) ||| SCHEMA_FINGERPRINT = f :=
  uint8_forall (by decide +kernel)

lemma presence_set : ∀ f : UInt8, (f ||| SCHEMA_FINGERPRINT) &&& SCHEMA_FINGERPRINT ≠ 0 :=
  uint8_forall (by decide +kernel)

lemma presence_cleared : ∀ f : UInt8, f &&& SCHEMA_FINGERPRINT = 0 →
    (f ||| SCHEMA_FINGERPRINT) &&& ~~~SCHEMA_FINGERPRINT = f :=
  uint8_forall (by decide +kernel)

lemma entry_canonical : Canonical entry WireForm entryBytes := by
  intro bs e rest
  simp only [entry, word32_canonical.bind_some, byte_canonical.bind_some, true_and]
  constructor
  · rintro ⟨hash, m₁, rfl, flags, m₂, rfl, h⟩
    split_ifs at h with hf
    · exact (run_failure h).elim
    · simp only [str_canonical.bind_some, word64_canonical.bind_some, response_canonical.bind_some,
        byte_canonical.bind_some, (endpoint_canonical.times _).bind_some, run_bind_some, StateT.run_get,
        Option.pure_def, Option.some.injEq, Prod.mk.injEq, run_pure_some, true_and] at h
      obtain ⟨port, m₃, hp, rfl, name, m₄, hn, rfl, schema, m₅, rfl, response, m₆, hr, rfl,
        count, m₇, rfl, start, m₈, ⟨rfl, rfl⟩, ps, m₉, ⟨hc, hps⟩, rfl, last, m₁₀, ⟨rfl, rfl⟩, rfl, rfl⟩ := h
      have ht : (ps.flatMap endpointBytes ++ m₉).take
          ((ps.flatMap endpointBytes ++ m₉).length - m₉.length) = ps.flatMap endpointBytes := by
        rw [length_append, Nat.add_sub_cancel, take_left' rfl]
      have hle : ps.length ≤ 255 := by
        rw [hc]
        exact Nat.le_of_lt_succ count.toNat_lt
      rw [ht]
      refine ⟨⟨⟨hp, hn, hr, ?_, ?_⟩, clear_presence flags, ?_⟩, ?_⟩
      · rwa [wire_iter hps]
      · rwa [wire_iter hps]
      · rw [wire_iter hps]
      · simp only [entryBytes, wire_iter hps, restore_presence flags hf, hc, UInt8.ofNat_toNat,
          append_assoc]
  · rintro ⟨⟨hfi, hfl, hs⟩, rfl⟩
    refine ⟨e.hash, _, by rw [entryBytes, append_assoc], e.flags ||| SCHEMA_FINGERPRINT, _,
      by rw [append_assoc], ?_⟩
    rw [if_neg (presence_set e.flags)]
    simp only [str_canonical.bind_some, word64_canonical.bind_some, response_canonical.bind_some,
      byte_canonical.bind_some, (endpoint_canonical.times _).bind_some, run_bind_some, StateT.run_get,
      Option.pure_def, Option.some.injEq, Prod.mk.injEq, run_pure_some, true_and]
    refine ⟨e.port, _, hfi.port, by rw [append_assoc], e.name, _, hfi.name, by rw [append_assoc],
      e.schema, _, by rw [append_assoc], e.response, _, hfi.response, by rw [append_assoc],
      UInt8.ofNat e.sources.iter.length, _, by rw [append_assoc], _, _, ⟨rfl, rfl⟩, e.sources.iter, rest,
      ⟨(ofNat_toNat_short hfi.count).symm, hfi.sources⟩, rfl, rest, rest, ⟨rfl, rfl⟩, ?_, rfl⟩
    have ht : (e.sources.iter.flatMap endpointBytes ++ rest).take
        ((e.sources.iter.flatMap endpointBytes ++ rest).length - rest.length) =
          e.sources.iter.flatMap endpointBytes := by
      rw [length_append, Nat.add_sub_cancel, take_left' rfl]
    rw [ht, presence_cleared _ hfl, ← hs]

lemma helloEntries_flatMap (he : ∀ e ∈ es, WireForm e) (rest : Bytes) :
    helloEntries es.length (es.flatMap entryBytes ++ rest) = es := by
  induction es with
  | nil => rfl
  | cons e es ih =>
    simp only [mem_cons, forall_eq_or_imp] at he
    rw [flatMap_cons, append_assoc, length_cons, helloEntries, entry_canonical.run_write he.1]
    simp only [ih he.2]

structure TableOk (id : Str) (es : List HelloEntry) : Prop where
  each : ∀ e ∈ es, entryOk id e = true
  pairwise : es.Pairwise fun previous e => entriesCompatible previous e = true
  addresses : (addresses id es).Pairwise fun a b => collides a b = false

lemma checkEntries_ok {index : ℕ} {r r' : Bytes} :
    checkEntries hello index n r = .ok r' ↔ ∃ es : List HelloEntry, es.length = n ∧ (∀ e ∈ es, WireForm e) ∧
      r = es.flatMap entryBytes ++ r' ∧ ∀ i e, es[i]? = some e →
        entryOk hello.id e = true ∧ ∀ previous ∈ hello.entries.take (index + i),
          entriesCompatible previous e = true := by
  induction n generalizing index r with
  | zero =>
    simp only [checkEntries, Except.ok.injEq, length_eq_zero_iff]
    constructor
    · rintro rfl
      exact ⟨[], rfl, by simp⟩
    · rintro ⟨es, rfl, -, h, -⟩
      simpa using h
  | succ n ih =>
    simp only [checkEntries]
    constructor
    · intro h
      cases hr : entry.run r with
      | none => simp [hr] at h
      | some x =>
        obtain ⟨e, mid⟩ := x
        simp only [hr] at h
        split_ifs at h with hc
        obtain ⟨hw, rfl⟩ := (entry_canonical _ _ _).mp hr
        obtain ⟨es, rfl, hes, rfl, hch⟩ := ih.mp h
        simp only [Bool.and_eq_true, all_eq_true] at hc
        refine ⟨e :: es, rfl, by simpa using ⟨hw, hes⟩, by simp, ?_⟩
        intro i d hd
        cases i with
        | zero =>
          simp only [getElem?_cons_zero, Option.some.injEq] at hd
          exact hd ▸ hc
        | succ i =>
          have hh := hch i d (by simpa using hd)
          rwa [show index + 1 + i = index + (i + 1) by omega] at hh
    · rintro ⟨es, hl, hes, rfl, hch⟩
      obtain ⟨e, es, rfl⟩ := exists_cons_of_length_eq_add_one hl
      simp only [mem_cons, forall_eq_or_imp] at hes
      rw [flatMap_cons, append_assoc, entry_canonical.run_write hes.1]
      have h0 := hch 0 e rfl
      rw [Nat.add_zero] at h0
      simp only
      rw [if_pos (by simpa only [Bool.and_eq_true, all_eq_true] using h0)]
      refine ih.mpr ⟨es, by simpa using hl, hes.2, rfl, ?_⟩
      intro i d hd
      have hh := hch (i + 1) d (by simpa using hd)
      rwa [show index + (i + 1) = index + 1 + i by omega] at hh

lemma orMalformed_ok {o : Option α} {a : α} : orMalformed o = .ok a ↔ o = some a := by
  cases o <;> simp [orMalformed]

lemma orMalformed_bind_ok {β : Type} {o : Option (α × Bytes)} {f : α × Bytes → Except WireError β} {b : β} :
    orMalformed o >>= f = .ok b ↔ ∃ a rest, o = some (a, rest) ∧ f (a, rest) = .ok b := by
  simp only [bind_ok, orMalformed_ok, Prod.exists]

lemma validateAddressHashes_ok {u : Unit} :
    validateAddressHashes hello = .ok u ↔
      (addresses hello.id hello.entries).Pairwise fun a b => collides a b = false := by
  rw [pairwise_iff_take, validateAddressHashes, ensure_ok]
  simp only [zipIdx_all_iff, Bool.not_eq_true', any_eq_false, Bool.not_eq_true]

lemma helloFlags_bits (ack bridge : Bool) :
    helloFlags ack bridge &&& ~~~(HELLO_ACK ||| HELLO_BRIDGE) = 0 ∧
      (helloFlags ack bridge &&& HELLO_ACK != 0) = ack ∧
      (helloFlags ack bridge &&& HELLO_BRIDGE != 0) = bridge := by
  cases ack <;> cases bridge <;> decide

lemma helloFlags_complete : ∀ f : UInt8, f &&& ~~~(HELLO_ACK ||| HELLO_BRIDGE) = 0 →
    helloFlags (f &&& HELLO_ACK != 0) (f &&& HELLO_BRIDGE != 0) = f :=
  uint8_forall (by decide +kernel)

structure Accepted (ack bridge : Bool) (id : Str) (es : List HelloEntry) : Prop where
  id_valid : validNamespace id.bytes = true
  id_short : Short id
  bridge_empty : bridge = true → es = []
  count : es.length ≤ 255
  wire : ∀ e ∈ es, WireForm e
  table : TableOk id es

lemma tableOk_iff {id : Str} :
    TableOk id es ↔ (∀ i e, es[i]? = some e → entryOk id e = true ∧
      ∀ previous ∈ es.take (0 + i), entriesCompatible previous e = true) ∧
      (addresses id es).Pairwise fun a b => collides a b = false := by
  simp only [Nat.zero_add]
  constructor
  · intro h
    exact ⟨fun i e he => ⟨h.each e (mem_of_getElem? he), pairwise_iff_take.mp h.pairwise i e he⟩, h.addresses⟩
  · intro h
    refine ⟨?_, pairwise_iff_take.mpr fun i e he => (h.1 i e he).2, h.2⟩
    intro e he
    obtain ⟨i, hi⟩ := mem_iff_getElem?.mp he
    exact (h.1 i e hi).1

def helloOf (ack bridge : Bool) (id : Str) (es : List HelloEntry) : Hello :=
  ⟨ack, bridge, id, es.length, es.flatMap entryBytes⟩

lemma helloOf_entries (ack bridge : Bool) (id : Str) (h : ∀ e ∈ es, WireForm e) :
    (helloOf ack bridge id es).entries = es := by
  have hh := helloEntries_flatMap h []
  rwa [append_nil] at hh

lemma helloParse_ok {p : Bytes} {h : Hello} :
    helloParse p = .ok h ↔ ∃ ack bridge id es, Accepted ack bridge id es ∧
      p = helloBytes ack bridge id es ∧ h = helloOf ack bridge id es := by
  simp only [helloParse, orMalformed_bind_ok, ensure_bind_ok]
  simp only [bind_ok, ensure_ok, checkEntries_ok, validateAddressHashes_ok]
  constructor
  · rintro ⟨flags, r₁, hr₁, hf, version, r₂, hr₂, rfl, id, r₃, hr₃, hns, count, r₄, hr₄, hbridge, rest,
      ⟨es, hc, hw, rfl, ht⟩, ⟨⟩, rfl, ⟨⟩, ha, hp⟩
    obtain ⟨-, rfl⟩ := (byte_canonical _ _ _).mp hr₁
    obtain ⟨-, rfl⟩ := (take_canonical _ _ _ _).mp hr₂
    obtain ⟨hid, rfl⟩ := (str_canonical _ _ _).mp hr₃
    obtain ⟨-, rfl⟩ := (byte_canonical _ _ _).mp hr₄
    simp only [append_nil] at hbridge ht ha hp
    rw [← hc] at ht ha hp
    have hle : es.length ≤ 255 := by
      rw [hc]
      exact Nat.le_of_lt_succ count.toNat_lt
    have hes := helloOf_entries (flags &&& HELLO_ACK != 0) (flags &&& HELLO_BRIDGE != 0) id hw
    simp only [helloOf] at hes
    rw [hes] at ht ha
    refine ⟨flags &&& HELLO_ACK != 0, flags &&& HELLO_BRIDGE != 0, id, es,
      ⟨hns, hid, ?_, hle, hw, tableOk_iff.mpr ⟨ht, ha⟩⟩, ?_, (Except.ok.inj hp).symm⟩
    · intro hb
      have hz := hbridge hb
      rw [hz] at hc
      exact length_eq_zero_iff.mp hc
    · rw [helloBytes, helloFlags_complete flags hf, hc, UInt8.ofNat_toNat, append_nil]
      rfl
  · rintro ⟨ack, bridge, id, es, ⟨hns, hid, hbridge, hle, hw, ht⟩, rfl, rfl⟩
    obtain ⟨hm, hack, hbr⟩ := helloFlags_bits ack bridge
    have hes := helloOf_entries ack bridge id hw
    obtain ⟨he, ha⟩ := tableOk_iff.mp ht
    refine ⟨helloFlags ack bridge, _, (byte_canonical _ _ _).mpr ⟨trivial, rfl⟩, hm,
      le16 SCHEMA_FINGERPRINT_VERSION, _, (take_canonical _ _ _ _).mpr ⟨rfl, rfl⟩, rfl,
      id, _, (str_canonical _ _ _).mpr ⟨hid, rfl⟩, hns,
      UInt8.ofNat es.length, _, (byte_canonical _ _ _).mpr ⟨trivial, rfl⟩, ?_, [],
      ⟨es, (ofNat_toNat_short hle).symm, hw, by simp, ?_⟩, (), rfl, (), ?_, ?_⟩
    · rw [hbr]
      intro hb
      rw [hbridge hb]
      rfl
    · rw [hack, hbr, ofNat_toNat_short hle]
      change ∀ i e, _ → _ ∧ ∀ previous ∈ (helloOf ack bridge id es).entries.take _, _
      rwa [hes]
    · rw [hack, hbr, ofNat_toNat_short hle]
      change (addresses id (helloOf ack bridge id es).entries).Pairwise _
      rwa [hes]
    · rw [hack, hbr, ofNat_toNat_short hle]
      rfl

end Reiny.Link.HelloCodec
