import Reiny.Link.Handshake

namespace Reiny.Link

open Lib Words Utf8 Results Wire HelloFormat HelloCodec Ports State List

variable {N FRAME : ℕ}

def named (t : Tables N FRAME) (hello : Hello) : List Endpoint :=
  t.locals.flatMap (Tables.localAddresses t.id) ++ addresses hello.id hello.entries

lemma pairwise_hash_injective {as : List Endpoint} (h : as.Pairwise fun a b => collides a b = false) :
    ∀ a ∈ as, ∀ b ∈ as, a.hash = b.hash → a = b := by
  have hp : as.Pairwise fun a b => a.hash = b.hash → a = b := h.imp collision_free
  have hs : Std.Symm fun a b : Endpoint => a.hash = b.hash → a = b := ⟨fun _ _ h he => (h he.symm).symm⟩
  intro a ha b hb
  exact hp.forall_of_forall (fun _ _ _ => rfl) ha hb

lemma own_addresses {id : Str} {locals : List LocalType} (h : ∀ l ∈ locals, Fits l.entry) :
    addresses id ((locals.map LocalType.entry).map toWire) = locals.flatMap (Tables.localAddresses id) := by
  rw [addresses, flatMap_map, flatMap_map]
  apply flatMap_congr
  intro l hl
  rw [toWire_iter (h l hl)]
  rfl

variable {hello : Hello} {l : Link N FRAME} {frame : Frame}

lemma parsed_table {p : Bytes} (h : helloParse p = .ok hello) : TableOk hello.id hello.entries := by
  obtain ⟨ack, bridge, id, es, ha, -, rfl⟩ := helloParse_ok.mp h
  rw [helloOf_entries _ _ _ ha.wire]
  exact ha.table

lemma named_hash_injective {t : Tables N FRAME} (hi : Inv t) (hp : Peered t hello) :
    ∀ a ∈ named t hello, ∀ b ∈ named t hello, a.hash = b.hash → a = b := by
  have ho : ∀ a ∈ t.locals.flatMap (Tables.localAddresses t.id),
      ∀ b ∈ t.locals.flatMap (Tables.localAddresses t.id), a.hash = b.hash → a = b := by
    intro a ha
    obtain ⟨l, hl, -⟩ := mem_flatMap.mp ha
    have hann := hi.own.announced (ne_nil_of_mem hl)
    have ht := hann.table.addresses
    rw [own_addresses hann.fits] at ht
    exact pairwise_hash_injective ht a ha
  have hc : ∀ a ∈ t.locals.flatMap (Tables.localAddresses t.id),
      ∀ b ∈ addresses hello.id hello.entries, a.hash = b.hash → a = b := by
    intro a ha b hb
    obtain ⟨l, hl, hal⟩ := mem_flatMap.mp ha
    obtain ⟨e, he, hbe⟩ := mem_flatMap.mp hb
    exact collision_free ((hp.compatible.agrees e he l hl).addresses b hbe a hal)
  have hpe := pairwise_hash_injective (parsed_table hp.parsed).addresses
  intro a ha b hb hh
  rcases mem_append.mp ha with ha | ha <;> rcases mem_append.mp hb with hb | hb
  · exact ho a ha b hb hh
  · exact hc a ha b hb hh
  · exact (hc b hb a ha hh.symm).symm
  · exact hpe a ha b hb hh

structure Attributed (l : Link N FRAME) (hello : Hello) (frame : Frame) (a : Endpoint) (t : LocalType)
    (e : HelloEntry) : Prop where
  hash : frame.hash = a.hash
  mem : a ∈ named l.toTables hello
  unique : ∀ b ∈ named l.toTables hello, b.hash = frame.hash → b = a
  declared : t ∈ l.locals ∧ t.port ∈ l.declared
  announced : e ∈ hello.entries
  name : t.name = e.name
  schema : t.schema = e.schema
  response : t.port.response.map PortType.hello = e.response
  contract : l.frameContract frame = some ⟨t.name, t.schema⟩

section Lookups

variable {t : Tables N FRAME} {hash : UInt32} {flag : UInt8} {l : LocalType} {e : HelloEntry} {a s : Endpoint}

lemma localSource_some (h : t.localSource hash flag = some l) :
    l ∈ t.locals ∧ l.flags &&& flag ≠ 0 ∧ ∃ s ∈ l.port.sources, s.hash = hash := by
  have hp := find?_some h
  simp only [Bool.and_eq_true, bne_iff_ne, any_eq_true, beq_iff_eq] at hp
  exact ⟨mem_of_find?_eq_some h, hp⟩

lemma localType_some (h : t.localType hash = some l) :
    l ∈ t.locals ∧ l.hash = hash ∧ l.flags &&& (PUB ||| SERVE) ≠ 0 := by
  have hp := find?_some h
  simp only [Bool.and_eq_true, bne_iff_ne, beq_iff_eq] at hp
  exact ⟨mem_of_find?_eq_some h, hp⟩

lemma hello_eq (hp : Peered t hello) : t.hello = some hello := by
  rw [Tables.hello, hp.parsed]
  rfl

lemma remoteSource_some (hp : Peered t hello) (h : t.remoteSource hash flag = some e) :
    e ∈ hello.entries ∧ e.flags &&& flag ≠ 0 ∧ ∃ s ∈ e.sources.iter, s.hash = hash := by
  rw [Tables.remoteSource, hello_eq hp] at h
  have hf := find?_some h
  simp only [Bool.and_eq_true, bne_iff_ne, any_eq_true, beq_iff_eq] at hf
  exact ⟨mem_of_find?_eq_some h, hf⟩

lemma remoteType_some (hp : Peered t hello) {r : RemoteType} (h : t.remoteType hash = some r) :
    ∃ e, hello.entries.find? (fun e => e.hash == hash && e.flags &&& (PUB ||| SERVE) != 0) = some e ∧
      r = remoteOf e ∧ e ∈ hello.entries ∧ e.hash = hash ∧ e.flags &&& (PUB ||| SERVE) ≠ 0 := by
  rw [Tables.remoteType, hp.remote, find?_map, Option.map_eq_some_iff] at h
  obtain ⟨e, he, rfl⟩ := h
  have hf := find?_some he
  simp only [Function.comp, remoteOf, Bool.and_eq_true, bne_iff_ne, beq_iff_eq] at hf
  exact ⟨e, he, rfl, mem_of_find?_eq_some he, hf⟩

lemma parsed_hash (hp : Peered t hello) (he : e ∈ hello.entries) :
    e.hash = (⟨hello.id, e.port⟩ : Endpoint).hash := by
  have hok := (parsed_table hp.parsed).each e he
  simp only [entryOk, Bool.and_eq_true, beq_iff_eq] at hok
  obtain ⟨⟨⟨⟨⟨⟨⟨-, h⟩, -⟩, -⟩, -⟩, -⟩, -⟩, -⟩ := hok
  exact h

lemma local_mem (hl : l ∈ t.locals) (ha : a ∈ Tables.localAddresses t.id l) :
    a ∈ named t hello := List.mem_append_left _ (List.mem_flatMap.mpr ⟨l, hl, ha⟩)

lemma remote_mem (he : e ∈ hello.entries) (ha : a ∈ (⟨hello.id, e.port⟩ : Endpoint) :: e.sources.iter) :
    a ∈ named t hello :=
  List.mem_append_right _ (List.mem_flatMap.mpr ⟨e, he, ha⟩)

lemma local_declared (hi : Inv t) (hl : l ∈ t.locals) : l ∈ t.locals ∧ l.port ∈ t.declared :=
  ⟨hl, (hi.own.declared_ok l.port).mpr ⟨l, hl, rfl⟩⟩

lemma same_contract {id : Str} (hag : Agrees id hello e l)
    (h : (Tables.fromPeer hello e l || Tables.toPeer id e l) = true) :
    l.name = e.name ∧ l.schema = e.schema ∧ l.port.response.map PortType.hello = e.response := by
  have hs := hag.contract h
  simp only [Tables.sameContract, Bool.and_eq_true, beq_iff_eq] at hs
  exact ⟨hs.1.1.1, hs.1.1.2, hs.1.2⟩

lemma calls_direction : ∀ f : UInt8, [PUB, SUB, SERVE, CALLS].contains (f &&& ~~~LATCHED) = true →
    f &&& CALLS ≠ 0 → f &&& ~~~LATCHED = CALLS :=
  uint8_forall (by decide +kernel)

lemma caller_single (hp : Peered t hello) (he : e ∈ hello.entries) (hc : e.flags &&& CALLS ≠ 0)
    (hs : s ∈ e.sources.iter) : e.sources.iter = [s] := by
  have hok := (parsed_table hp.parsed).each e he
  simp only [entryOk, Bool.and_eq_true, HelloEntry.direction] at hok
  obtain ⟨⟨⟨⟨⟨⟨⟨⟨⟨⟨hd, -⟩, -⟩, -⟩, -⟩, -⟩, -⟩, -⟩, -⟩, ho⟩, -⟩ := hok
  rw [calls_direction e.flags hd hc] at ho
  simp only [beq_self_eq_true, Bool.true_and, Bool.not_eq_true', bne_eq_false_iff_eq] at ho
  obtain ⟨x, hx⟩ := length_eq_one_iff.mp ho
  rw [hx] at hs ⊢
  rw [mem_singleton.mp hs]

lemma client_direction {f : UInt8} {d : PortDirection} (h : FlagsOk f d) (hc : f &&& CALLS ≠ 0) :
    d = .rpcClient := by
  cases d with
  | output => rcases h with rfl | rfl <;> exact absurd (by decide) hc
  | input | rpcServer => cases h; exact absurd (by decide) hc
  | rpcClient => rfl

lemma client_single (hi : Inv t) (hl : l ∈ t.locals) (hc : l.flags &&& CALLS ≠ 0) (hs : s ∈ l.port.sources) :
    l.port.sources = [s] := by
  have hok := hi.own.locals_ok l hl
  have hd := client_direction hok.flags hc
  obtain ⟨i, hidx⟩ := mem_iff_getElem?.mp hok.port
  have hp := Lists.zipIdx_all_iff.mp hi.own.ports_ok i l.port hidx
  simp only [portOk, Bool.and_eq_true, hd, beq_self_eq_true, Bool.true_and, Bool.not_eq_true',
    bne_eq_false_iff_eq] at hp
  obtain ⟨⟨⟨⟨-, ho⟩, -⟩, -⟩, -⟩ := hp
  obtain ⟨x, hx⟩ := length_eq_one_iff.mp ho
  rw [hx] at hs ⊢
  rw [mem_singleton.mp hs]

end Lookups

def DataAttributed (l : Link N FRAME) (hello : Hello) (frame : Frame) : Prop :=
  ∃ a t e, Attributed l hello frame a t e ∧ t.flags &&& SUB ≠ 0 ∧ a ∈ t.port.sources ∧
    e.flags &&& PUB ≠ 0 ∧ a = ⟨hello.id, e.port⟩

def RequestAttributed (l : Link N FRAME) (hello : Hello) (frame : Frame) : Prop :=
  ∃ a t e, Attributed l hello frame a t e ∧ t.flags &&& SERVE ≠ 0 ∧ a = ⟨l.id, t.port.name⟩ ∧
    e.flags &&& CALLS ≠ 0 ∧ e.sources.iter = [a]

def ReplyAttributed (l : Link N FRAME) (hello : Hello) (frame : Frame) : Prop :=
  ∃ a t e, Attributed l hello frame a t e ∧ t.flags &&& CALLS ≠ 0 ∧ t.port.sources = [a] ∧
    e.flags &&& SERVE ≠ 0 ∧ a = ⟨hello.id, e.port⟩

def EventAttributed (l : Link N FRAME) : Event → Prop
  | .data frame => ∃ hello, helloParse l.peerHello = .ok hello ∧ DataAttributed l hello frame
  | .request frame => ∃ hello, helloParse l.peerHello = .ok hello ∧ RequestAttributed l hello frame
  | .reply frame => ∃ hello, helloParse l.peerHello = .ok hello ∧ ReplyAttributed l hello frame
  | .connected _ | .disconnected | .error _ => True

variable {event : Event} {l' : Link N FRAME}

lemma source_attributed (hi : Inv l.toTables) (hp : Peered l.toTables hello) {t : LocalType} {s : Endpoint}
    {e : HelloEntry} (ht : t ∈ l.locals) (hs : s ∈ t.port.sources) (hsh : s.hash = frame.hash)
    (he : e ∈ hello.entries) (heh : e.hash = frame.hash) (ho : e.flags &&& (PUB ||| SERVE) ≠ 0)
    (hc : l.frameContract frame = some ⟨t.name, t.schema⟩ ∨
      l.frameContract frame = some ⟨e.name, e.schema⟩) :
    Attributed l hello frame s t e ∧ s = ⟨hello.id, e.port⟩ := by
  have hsm : s ∈ named l.toTables hello := local_mem ht (mem_cons_of_mem _ hs)
  have hpe : s = ⟨hello.id, e.port⟩ := by
    apply named_hash_injective hi hp s hsm _ (remote_mem he mem_cons_self)
    rw [hsh, ← heh]
    exact parsed_hash hp he
  have hf : Tables.fromPeer hello e t = true := by
    rw [Tables.fromPeer, Bool.and_eq_true, any_endpoint, bne_iff_ne]
    exact ⟨hpe ▸ hs, ho⟩
  obtain ⟨hn, hsch, hr⟩ := same_contract (hp.compatible.agrees e he t ht) (by rw [hf]; rfl)
  refine ⟨⟨hsh.symm, hsm, ?_, local_declared hi ht, he, hn, hsch, hr, ?_⟩, hpe⟩
  · intro b hb hbh
    exact named_hash_injective hi hp b hb s hsm (hbh.trans hsh.symm)
  · rcases hc with h | h
    · exact h
    · rw [h, hn, hsch]

lemma onData_some (h : l.onData frame = (some event, l')) :
    event = .data frame ∧ l' = l ∧ l.wantsData frame.hash = true ∧ l.connected = true ∧
      l.peerPublishes frame.hash = true := by
  cases hw : l.wantsData frame.hash with
  | false => simp [onData, hw] at h
  | true =>
    cases hc : l.connected with
    | false => simp [onData, hw, hc] at h
    | true =>
      cases hp : l.peerPublishes frame.hash with
      | false => simp [onData, hw, hc, hp] at h
      | true =>
        simp only [onData, hw, hc, hp, Bool.not_true, Bool.false_eq_true, if_false, Bool.or_self, Prod.mk.injEq,
          Option.some.injEq] at h
        exact ⟨h.1.symm, h.2.symm, rfl, rfl, rfl⟩

lemma onRequest_some {C : Codec} (h : l.onRequest C frame = (some event, l')) (hb : l.bridge = false) :
    event = .request frame ∧ l' = l ∧ l.connected = true ∧
      (l.peerBridge = true ∨ (l.remoteSource frame.hash CALLS).isSome = true) ∧
      (l.localType frame.hash).any (fun t => t.flags &&& SERVE != 0) = true := by
  unfold onRequest at h
  dsimp only at h
  split_ifs at h with hr hs
  · cases h
  · cases h
    simp only [Bool.or_eq_true, Bool.and_eq_true, Bool.not_eq_true', not_or, not_and, Bool.not_eq_false] at hr
    simp only [hb, Bool.false_and, Bool.or_false] at hs
    refine ⟨rfl, rfl, hr.1, ?_, hs⟩
    cases hbr : l.peerBridge with
    | true => exact .inl rfl
    | false => exact .inr (hr.2 hbr)
  · cases h

lemma onReply_some {reported : Event} (h : l.onReply frame reported = (some event, l')) :
    event = reported ∧ l' = l.cancelRequest frame.hash frame.seq ∧ some (frame.hash, frame.seq) ∈ l.pending := by
  unfold onReply at h
  split_ifs at h with hr
  · cases h
  · cases h
    simp only [Bool.or_eq_true, Bool.not_eq_true', not_or, Bool.not_eq_false, Vector.contains_iff_mem] at hr
    exact ⟨rfl, rfl, hr.2⟩

lemma any_some {α : Type} {o : Option α} {p : α → Bool} (h : o.any p = true) : ∃ a, o = some a ∧ p a = true := by
  cases o with
  | none => cases h
  | some a => exact ⟨a, rfl, h⟩

section

variable (hi : Inv l.toTables) (hg : frame.generation = l.rxGeneration)

include hi hg

lemma data_attributed (hk : frame.kind = .data) (hw : l.wantsData frame.hash = true) (hc : l.connected = true)
    (hpub : l.peerPublishes frame.hash = true) (hb : l.peerBridge = false) :
    ∃ hello, helloParse l.peerHello = .ok hello ∧ DataAttributed l hello frame := by
  obtain ⟨hello, hp⟩ := hi.peered hc
  rw [wantsData, hi.own.not_bridge] at hw
  obtain ⟨t, ht⟩ := Option.isSome_iff_exists.mp hw
  obtain ⟨htm, htf, s, hs, hsh⟩ := localSource_some ht
  rw [peerPublishes, hb, Bool.false_or] at hpub
  obtain ⟨r, hr, hrp⟩ := any_some hpub
  obtain ⟨e, hf, rfl, he, heh, ho⟩ := remoteType_some hp hr
  have hcon : l.frameContract frame = some ⟨e.name, e.schema⟩ := by
    simp only [frameContract, isFresh, hg, beq_self_eq_true, if_true, frameLocal, hk, hb, Bool.false_eq_true,
      if_false, hello_eq hp, reduceCtorEq, Option.bind_eq_bind, Option.bind_some, hf]
    rfl
  obtain ⟨ha, hpe⟩ := source_attributed hi hp htm hs hsh he heh ho (Or.inr hcon)
  simp only [remoteOf, Bool.not_false, Bool.true_and, bne_iff_ne] at hrp
  exact ⟨hello, hp.parsed, s, t, e, ha, htf, hs, hrp, hpe⟩

lemma request_attributed (hk : frame.kind = .request) (hc : l.connected = true)
    (hca : (l.remoteSource frame.hash CALLS).isSome = true)
    (hse : (l.localType frame.hash).any (fun t => t.flags &&& SERVE != 0) = true) :
    ∃ hello, helloParse l.peerHello = .ok hello ∧ RequestAttributed l hello frame := by
  obtain ⟨hello, hp⟩ := hi.peered hc
  obtain ⟨t, ht, hts⟩ := any_some hse
  obtain ⟨htm, hth, ho⟩ := localType_some ht
  obtain ⟨e, he⟩ := Option.isSome_iff_exists.mp hca
  obtain ⟨hem, hec, s, hs, hsh⟩ := remoteSource_some hp he
  have hown : frame.hash = (⟨l.id, t.port.name⟩ : Endpoint).hash := hth.symm.trans (hi.own.locals_ok t htm).hash
  have hsm : s ∈ named l.toTables hello := remote_mem hem (mem_cons_of_mem _ hs)
  have ha : ⟨l.id, t.port.name⟩ ∈ named l.toTables hello := local_mem htm mem_cons_self
  have hsa : s = ⟨l.id, t.port.name⟩ := named_hash_injective hi hp s hsm _ ha (hsh.trans hown)
  have hto : Tables.toPeer l.id e t = true := by
    rw [Tables.toPeer, Bool.and_eq_true, any_endpoint, bne_iff_ne]
    exact ⟨hsa ▸ hs, ho⟩
  obtain ⟨hn, hsch, hr⟩ := same_contract (hp.compatible.agrees e hem t htm)
    (by rw [hto, Bool.or_true])
  have hcon : l.frameContract frame = some ⟨t.name, t.schema⟩ := by
    simp only [frameContract, isFresh, hg, beq_self_eq_true, if_true, frameLocal, hk, ht]
  refine ⟨hello, hp.parsed, _, t, e, ⟨hown, ha, ?_, local_declared hi htm, hem, hn, hsch, hr, hcon⟩,
    bne_iff_ne.mp hts, rfl, hec, ?_⟩
  · intro b hb hbh
    exact named_hash_injective hi hp b hb _ ha (hbh.trans hown)
  · rw [← hsa]
    exact caller_single hp hem hec hs

lemma reply_attributed (hk : frame.kind = .reply) (hpe : some (frame.hash, frame.seq) ∈ l.pending)
    (hb : l.peerBridge = false) :
    ∃ hello, helloParse l.peerHello = .ok hello ∧ ReplyAttributed l hello frame := by
  obtain ⟨hse, hcs⟩ := hi.pending _ _ hpe
  obtain ⟨hello, hp⟩ := hi.peered (serves_connected hse)
  obtain ⟨t, ht⟩ := Option.isSome_iff_exists.mp hcs
  obtain ⟨htm, htf, s, hs, hsh⟩ := localSource_some ht
  rw [Tables.peerServesHash, hb, Bool.false_or, Bool.and_eq_true] at hse
  obtain ⟨r, hr, hrs⟩ := any_some hse.2
  obtain ⟨e, -, rfl, he, heh, ho⟩ := remoteType_some hp hr
  have hc : l.frameContract frame = some ⟨t.name, t.schema⟩ := by
    simp only [frameContract, isFresh, hg, beq_self_eq_true, if_true, frameLocal, hk, ht]
  obtain ⟨ha, hpeer⟩ := source_attributed hi hp htm hs hsh he heh ho (Or.inl hc)
  exact ⟨hello, hp.parsed, s, t, e, ha, htf, client_single hi htm htf hs, bne_iff_ne.mp hrs, hpeer⟩

end

lemma cancelRequest_eq (t : Tables N FRAME) (hash : UInt32) (seq : UInt8) :
    ∃ pending, t.cancelRequest hash seq = { t with pending } := by
  unfold Tables.cancelRequest
  split
  · exact ⟨t.pending, rfl⟩
  · exact ⟨_, rfl⟩

lemma cancel_attributed {hash : UInt32} {seq : UInt8}
    (h : ∃ hello, helloParse l.peerHello = .ok hello ∧ ReplyAttributed l hello frame) :
    EventAttributed (l.cancelRequest hash seq) (.reply frame) := by
  obtain ⟨pending, he⟩ := cancelRequest_eq l.toTables hash seq
  rw [Link.cancelRequest, he]
  obtain ⟨hello, hp, a, t, e, ⟨h₁, h₂, h₃, h₄, h₅, h₆, h₇, h₈, h₉⟩, hr⟩ := h
  exact ⟨hello, hp, a, t, e, ⟨h₁, h₂, h₃, h₄, h₅, h₆, h₇, h₈, h₉⟩, hr⟩

lemma cancel_peerBridge (l : Link N FRAME) (hash : UInt32) (seq : UInt8) :
    (l.cancelRequest hash seq).peerBridge = l.peerBridge := by
  obtain ⟨pending, he⟩ := cancelRequest_eq l.toTables hash seq
  rw [Link.cancelRequest, he]
  rfl

lemma onHello_event {C : Codec} {l' : Link N FRAME} {event : Event} (h : l.onHello C frame = (some event, l')) :
    event = .connected frame ∨ event = .disconnected := by
  unfold onHello at h
  split at h
  · simp only [refuseHello, Prod.mk.injEq, Option.ite_none_right_eq_some, Option.some.injEq] at h
    exact .inr h.1.2.symm
  · simp only [acceptHello, Prod.mk.injEq, Option.ite_none_right_eq_some, Option.some.injEq] at h
    exact .inl h.1.2.symm

theorem next_attribution {C : Codec} {l l' : Link N FRAME} {event : Event} (h : Reachable C l)
    (hn : l.next C = (some event, l')) (hb : l'.peerBridge = false) : EventAttributed l' event := by
  obtain ⟨m, frame, hss, -, hg, hd⟩ := next_event l hn
  have hi := steps_inv (PeerSteps.tables hss) h.inv
  unfold dispatch at hd
  split at hd
  · rcases onHello_event hd with rfl | rfl <;> trivial
  · cases hd
  · rename_i hk
    obtain ⟨rfl, rfl, hw, hc, hpub⟩ := onData_some hd
    exact data_attributed hi hg hk hw hc hpub hb
  · rename_i hk
    obtain ⟨rfl, rfl, hc, hca, hs⟩ := onRequest_some hd hi.own.not_bridge
    rw [hb] at hca
    exact request_attributed hi hg hk hc (hca.resolve_left Bool.false_ne_true) hs
  · rename_i hk
    obtain ⟨rfl, rfl, hp⟩ := onReply_some hd
    rw [cancel_peerBridge] at hb
    exact cancel_attributed (reply_attributed hi hg hk hp hb)
  · obtain ⟨rfl, -, -⟩ := onReply_some hd
    trivial

def hostUp : Link 2 64 := ((host.feed standard (board.drain standard 200).1).2.next standard).2

def boardSent : Link 2 64 :=
  ((((board.drain standard 200).2.feed standard (hostUp.drain standard 200).1).2.next standard).2.send standard
    poseType posePort [1, 2, 3]).2

def hostFed : Link 2 64 := (hostUp.feed standard (boardSent.drain standard 200).1).2

lemma hostFed_reachable : Reachable standard hostFed :=
  .step (.step (.step (host_reachable standard) (.feed _)) .next) (.feed _)

def poseFrame : Frame := ⟨.data, endpointHash boardId posePort, 0, 3, 5⟩

theorem next_attribution_sample : ∃ l', hostFed.next standard = (some (.data poseFrame), l') ∧
    EventAttributed l' (.data poseFrame) := by
  have he : (hostFed.next standard).1 = some (.data poseFrame) := by decide +kernel
  have hn : hostFed.next standard = (some (.data poseFrame), (hostFed.next standard).2) := by rw [← he]
  exact ⟨_, hn, next_attribution hostFed_reachable hn (by decide +kernel)⟩

end Reiny.Link
