import Reiny.Link.HelloCanonical
import Reiny.Link.Ports

namespace Reiny.Link.Ports

open Lib Words Utf8 Results Wire HelloFormat HelloCodec List

variable {N FRAME : ℕ}

def remoteOf (e : HelloEntry) : RemoteType := ⟨e.hash, e.flags, e.schema, false⟩

structure Agrees (id : Str) (hello : Hello) (e : HelloEntry) (l : LocalType) : Prop where
  contract : (Tables.fromPeer hello e l || Tables.toPeer id e l) = true → Tables.sameContract e l = true
  hashes : ∀ s ∈ l.port.sources, s.hash = e.hash → s.ns = hello.id ∧ s.port = e.port
  addresses : ∀ a ∈ (⟨hello.id, e.port⟩ : Endpoint) :: e.sources.iter, ∀ other ∈ Tables.localAddresses id l,
    collides other a = false

structure Compatible (N : ℕ) (id : Str) (locals : List LocalType) (hello : Hello) : Prop where
  id_len : hello.id.len ≤ ID_MAX
  count : hello.entries.length ≤ N
  agrees : ∀ e ∈ hello.entries, ∀ l ∈ locals, Agrees id hello e l

lemma idBuf_ok {s r : Str} : idBuf s = .ok r ↔ s.len ≤ ID_MAX ∧ s = r := by
  unfold idBuf
  split_ifs with h <;> simp [h]

variable {t : Tables N FRAME} {p : Bytes} {ack : Bool} {hello : Hello} {index : ℕ} {es : List HelloEntry}

lemma checkEntry_ok {e : HelloEntry} {r : RemoteType} :
    t.checkEntry hello index e = .ok r ↔ index < N ∧ (∀ l ∈ t.locals, Agrees t.id hello e l) ∧ r = remoteOf e := by
  simp only [Tables.checkEntry, ensure_bind_ok]
  simp only [bind_ok, forM_ok, pure_ok, Tables.checkLocal, Tables.checkAddress, ensure_ok, exists_const]
  constructor
  · rintro ⟨hi, hlo, had, rfl⟩
    refine ⟨hi, ?_, rfl⟩
    intro l hl
    exact ⟨(hlo l hl).1, (hlo l hl).2, fun a ha => had a ha l hl⟩
  · rintro ⟨hi, hag, rfl⟩
    exact ⟨hi, fun l hl => ⟨(hag l hl).contract, (hag l hl).hashes⟩,
      fun a ha l hl => (hag l hl).addresses a ha, rfl⟩

lemma checkEntries_ok {rs : List RemoteType} :
    t.checkEntries hello index es = .ok rs ↔ (es = [] ∨ index + es.length ≤ N) ∧
      (∀ e ∈ es, ∀ l ∈ t.locals, Agrees t.id hello e l) ∧ rs = es.map remoteOf := by
  induction es generalizing index rs with
  | nil =>
    simp only [Tables.checkEntries, Except.ok.injEq, true_or, not_mem_nil, false_imp_iff, implies_true,
      map_nil, true_and]
    exact eq_comm
  | cons e es ih =>
    simp only [Tables.checkEntries, bind_ok, checkEntry_ok, ih, pure_ok, forall_mem_cons, map_cons,
      length_cons, reduceCtorEq, false_or]
    constructor
    · rintro ⟨r, ⟨hi, he, rfl⟩, rs', ⟨hl, hes, rfl⟩, rfl⟩
      refine ⟨?_, ⟨he, hes⟩, rfl⟩
      rcases hl with rfl | hl
      · simp only [length_nil]
        omega
      · omega
    · rintro ⟨hl, ⟨he, hes⟩, rfl⟩
      exact ⟨remoteOf e, ⟨by omega, he, rfl⟩, es.map remoteOf, ⟨Or.inr (by omega), hes, rfl⟩, rfl⟩

lemma validateHello_ok {c : PeerContract} :
    t.validateHello p = .ok c ↔ ∃ hello, helloParse p = .ok hello ∧ p.length ≤ FRAME ∧
      (t.connected = true → t.repeats p) ∧ Compatible N t.id t.locals hello ∧
      c = ⟨hello.id, hello.entries.map remoteOf, hello.ack, hello.bridge⟩ := by
  unfold Tables.validateHello
  cases hp : helloParse p with
  | error e => simp
  | ok hello =>
    simp only [Except.ok.injEq, exists_eq_left']
    rw [bind_ok]
    simp only [idBuf_ok, ensure_bind_ok]
    simp only [bind_ok, checkEntries_ok, pure_ok]
    constructor
    · rintro ⟨peer, ⟨hid, rfl⟩, hl, hr, remote, ⟨hc, hag, rfl⟩, rfl⟩
      refine ⟨hl, hr, ⟨hid, ?_, hag⟩, rfl⟩
      rcases hc with hn | hc
      · rw [hn]
        exact Nat.zero_le N
      · omega
    · rintro ⟨hl, hr, ⟨hid, hc, hag⟩, rfl⟩
      exact ⟨hello.id, ⟨hid, rfl⟩, hl, hr, _, ⟨Or.inr (by omega), hag, rfl⟩, rfl⟩

lemma helloPayload_ok :
    t.helloPayload ack = .ok p ↔ helloWrite (FRAME - TRAILER - HEADER) ack t.bridge t.id t.localEntries = .ok p ∧
      ∃ hello, helloParse p = .ok hello := by
  unfold Tables.helloPayload
  cases hw : helloWrite (FRAME - TRAILER - HEADER) ack t.bridge t.id t.localEntries with
  | error e => simp
  | ok q =>
    simp only [Except.ok.injEq]
    cases hp : helloParse q with
    | error e =>
      simp only [reduceCtorEq, false_iff, not_and, not_exists]
      rintro rfl h hh
      rw [hp] at hh
      cases hh
    | ok hello =>
      simp only [Except.ok.injEq]
      exact ⟨fun h => ⟨h, hello, h ▸ hp⟩, fun h => h.1⟩

structure Announced (FRAME : ℕ) (bridge : Bool) (id : Str) (locals : List LocalType) : Prop where
  id_valid : validNamespace id.bytes = true
  id_short : Short id
  bridge_empty : bridge = true → locals = []
  count : locals.length ≤ 255
  fits : ∀ l ∈ locals, Fits l.entry
  table : TableOk id ((locals.map LocalType.entry).map toWire)
  size : (helloBytes false bridge id (locals.map LocalType.entry)).length ≤ FRAME - TRAILER - HEADER

lemma helloBytes_ack_length {ack' bridge : Bool} {id : Str} :
    (helloBytes ack bridge id es).length = (helloBytes ack' bridge id es).length := by
  simp [helloBytes]

lemma helloPayload_announced :
    t.helloPayload ack = .ok p ↔ Announced FRAME t.bridge t.id t.locals ∧
      p = helloBytes ack t.bridge t.id t.localEntries := by
  rw [helloPayload_ok, helloWrite_ok]
  constructor
  · rintro ⟨⟨hid, hf, hc, hlen, rfl⟩, hello, hp⟩
    obtain ⟨ha, -⟩ := (helloParse_helloBytes hid hf hc).mp hp
    refine ⟨⟨ha.id_valid, hid, ?_, ?_, ?_, ha.table, ?_⟩, rfl⟩
    · intro hb
      have hn := ha.bridge_empty hb
      simpa [Tables.localEntries] using hn
    · simpa [Tables.localEntries] using hc
    · intro l hl
      exact hf l.entry (mem_map_of_mem hl)
    · rw [helloBytes_ack_length]
      exact hlen
  · rintro ⟨ha, rfl⟩
    have hf : ∀ e ∈ t.localEntries, Fits e := by
      intro e he
      obtain ⟨l, hl, rfl⟩ := mem_map.mp he
      exact ha.fits l hl
    have hc : t.localEntries.length ≤ 255 := by simpa [Tables.localEntries] using ha.count
    have hlen := ha.size
    rw [helloBytes_ack_length] at hlen
    refine ⟨⟨ha.id_short, hf, hc, hlen, rfl⟩, _, (helloParse_helloBytes ha.id_short hf hc).mpr ⟨?_, rfl⟩⟩
    refine ⟨ha.id_valid, ha.id_short, ?_, by simpa using hc, ?_, ha.table⟩
    · intro hb
      simp [Tables.localEntries, ha.bridge_empty hb]
    · intro e he
      obtain ⟨d, hd, rfl⟩ := mem_map.mp he
      exact toWire_wireForm (hf d hd)

end Reiny.Link.Ports
