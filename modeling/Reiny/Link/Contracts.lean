import Reiny.Link.Network

namespace Reiny.Link

open Lib Words Utf8 Results Wire HelloFormat HelloCodec Ports State List

variable {N FRAME : ℕ} {C : Codec} {X Y : Link N FRAME}

variable {c : Core N FRAME} {ack : Bool} {d : Core N FRAME}

lemma Side.traffic (h : Side C X c) (tx unread : Bytes) : Side C X { c with tx, unread } :=
  ⟨h.inv, h.id, h.locals, h.announced, h.own, h.txRoom, h.rxRoom, h.synced, h.kept⟩

lemma Side.retabled (h : Side C X c) {t : Tables N FRAME} (hi : Inv t) (hid : t.id = c.tables.id)
    (hl : t.locals = c.tables.locals) : Side C X { c with tables := t } :=
  ⟨hi, hid.trans h.id, hl.trans h.locals, h.announced, h.own, h.txRoom, h.rxRoom, h.synced, h.kept⟩

lemma Side.helloPayload (h : Side C X c) (ack : Bool) :
    c.tables.helloPayload ack = .ok (helloBytes ack false X.id X.localEntries) := by
  have hes : c.tables.localEntries = X.localEntries := by rw [Tables.localEntries, h.locals, Tables.localEntries]
  apply helloPayload_announced.mpr
  rw [h.inv.own.not_bridge, h.id, h.locals, hes]
  exact ⟨h.announced, rfl⟩

lemma Side.ownPayload (h : Side C X c) (ack : Bool) :
    X.helloPayload ack = .ok (helloBytes ack false X.id X.localEntries) := by
  apply helloPayload_announced.mpr
  rw [h.own.own.not_bridge]
  exact ⟨h.announced, rfl⟩

lemma Side.hello_fitting (h : Side C X c) (ack : Bool) : Fitting FRAME ((Item.hello ack).frame X) := by
  have hsz := h.announced.size
  have hfr := h.own.own.frame
  have hl : (helloBytes false false X.id X.localEntries).length =
    (helloBytes ack false X.id X.localEntries).length :=
    helloBytes_ack_length
  rw [Tables.localEntries] at hl
  simp only [OVERHEAD] at hfr
  simp only [Fitting, Item.frame, OVERHEAD, Tables.localEntries]
  omega

lemma matched_iff (h : Side C X c) : AllMatched c.tables Y.toTables ↔ AllMatched X.toTables Y.toTables := by
  simp only [AllMatched, h.id, h.locals]

lemma helloBytes_repeats {t : Tables N FRAME} {ack' : Bool} {id : Str} {es : List HelloEntry}
    (h : t.peerHello = helloBytes ack false id es) : t.repeats (helloBytes ack' false id es) := by
  rw [Tables.repeats, h]
  refine ⟨helloBytes_ack_length, ?_, rfl⟩
  change helloFlags ack false &&& ~~~HELLO_ACK = helloFlags ack' false &&& ~~~HELLO_ACK
  cases ack <;> cases ack' <;> rfl

lemma Side.accepts (h : Side C X c) (hY : Side C Y d)
    (hk : c.tables.connected = true → ∃ ack, c.tables.peerHello = helloBytes ack false Y.id Y.localEntries) :
    (∃ r, c.tables.validateHello (helloBytes ack false Y.id Y.localEntries) = .ok r) ↔
      AllMatched X.toTables Y.toTables := by
  have hp := hY.ownPayload ack
  obtain ⟨hello, hpa, -, -, hid, hes, hl⟩ := helloPayload_parsed hp
  rw [← matched_iff h, ← compatible_own hY.own hp hid hes]
  simp only [validateHello_ok, hpa, Except.ok.injEq, exists_eq_left']
  constructor
  · rintro ⟨r, -, -, hco, -⟩
    exact hco
  · intro hco
    refine ⟨_, by omega, ?_, hco, rfl⟩
    intro hc
    obtain ⟨ack', hpe⟩ := hk hc
    exact helloBytes_repeats hpe

lemma Side.peered (h : Side C X c) (hY : Side C Y d) (hc : c.tables.connected = true)
    (hp : c.tables.peerHello = helloBytes ack false Y.id Y.localEntries) :
    ∃ hello, Peered c.tables hello ∧ hello.bridge = false ∧
      hello.entries = Y.locals.map (fun l => toWire l.entry) := by
  obtain ⟨hello, hpe⟩ := h.inv.peered hc
  obtain ⟨he', hpa, -, hb, -, hes, -⟩ := helloPayload_parsed (hY.ownPayload ack)
  have hs := hpe.parsed
  rw [hp, hpa] at hs
  cases hs
  rw [hY.own.own.not_bridge] at hb
  exact ⟨hello, hpe, hb, hes⟩

lemma announced_find {Y : Tables N FRAME} (hY : Inv Y) (hash : UInt32) :
    (Y.locals.map (fun l => toWire l.entry)).find? (fun e => e.hash == hash && e.flags &&& (PUB ||| SERVE) != 0) =
      (Y.localType hash).map (fun l => toWire l.entry) := by
  rw [find?_map, Tables.localType]
  congr 1
  apply find?_congr
  intro l hl
  simp only [Function.comp, toWire_flags (hY.own.locals_ok l hl)]
  rfl

lemma announced_source {Y : Tables N FRAME} (hY : Inv Y) {e : HelloEntry} {hash : UInt32}
    (he : e ∈ Y.locals.map (fun l => toWire l.entry)) (hf : e.flags &&& SUB ≠ 0)
    (hs : ∃ s ∈ e.sources.iter, s.hash = hash) : (Y.localSource hash SUB).isSome = true := by
  obtain ⟨l, hl, rfl⟩ := mem_map.mp he
  obtain ⟨s, hs, hh⟩ := hs
  rw [toWire_flags (hY.own.locals_ok l hl)] at hf
  rw [toWire_iter ((hY.own.announced (ne_nil_of_mem hl)).fits l hl)] at hs
  apply find?_isSome.mpr
  refine ⟨l, hl, ?_⟩
  rw [Bool.and_eq_true, bne_iff_ne, any_eq_true]
  exact ⟨hf, s, hs, beq_iff_eq.mpr hh⟩

variable {l : Link N FRAME} {t : Tables N FRAME}

lemma ports_unique {ports : List StaticPort} (h : portsOk ports = true) {a b : StaticPort} (ha : a ∈ ports)
    (hb : b ∈ ports) (hn : a.name = b.name) (hd : a.direction.outgoing = b.direction.outgoing) : a = b := by
  obtain ⟨i, hi⟩ := mem_iff_getElem?.mp ha
  obtain ⟨j, hj⟩ := mem_iff_getElem?.mp hb
  have he : ∀ {x y : StaticPort} {m n : ℕ}, ports[m]? = some x → ports[n]? = some y → m < n →
      x.name = y.name → x.direction.outgoing = y.direction.outgoing → False := by
    intro x y m n hx hy hmn hna hdir
    have hok := Lists.zipIdx_all_iff.mp h n y hy
    simp only [portOk, Bool.and_eq_true, Bool.not_eq_true', any_eq_false, not_and, beq_iff_eq] at hok
    have hm : x ∈ ports.take n := by
      apply mem_of_getElem? (i := m)
      rw [getElem?_take_of_lt hmn]
      exact hx
    exact hok.2 x hm hna hdir
  rcases Nat.lt_trichotomy i j with hij | rfl | hij
  · exact (he hi hj hij hn hd).elim
  · exact Option.some.inj (hi.symm.trans hj)
  · exact (he hj hi hij hn.symm hd.symm).elim

lemma publisher_direction {f : UInt8} {d : PortDirection} (h : FlagsOk f d) (hp : f &&& PUB ≠ 0) : d = .output := by
  cases d with
  | output => rfl
  | input | rpcServer | rpcClient => cases h; exact absurd (by decide) hp

lemma own_names (hi : Inv t) {a b : LocalType} (ha : a ∈ t.locals) (hb : b ∈ t.locals)
    (hh : endpointHash t.id a.port.name = endpointHash t.id b.port.name) : a.port.name = b.port.name := by
  have hann := hi.own.announced (ne_nil_of_mem ha)
  have ht := hann.table.addresses
  rw [own_addresses hann.fits] at ht
  have he := pairwise_hash_injective ht ⟨t.id, a.port.name⟩
    (mem_flatMap.mpr ⟨a, ha, mem_cons_self⟩) ⟨t.id, b.port.name⟩
    (mem_flatMap.mpr ⟨b, hb, mem_cons_self⟩) hh
  exact congrArg Endpoint.port he

lemma send_published (hi : Inv t) {ty : PortType} {name : Str}
    (hpo : t.checkPort name .output ty none = .ok ())
    (hpub : (t.localType (endpointHash t.id name)).any (fun l => l.flags &&& PUB != 0) = true) :
    ∃ l, t.localType (endpointHash t.id name) = some l ∧ l.flags &&& PUB ≠ 0 ∧ l.name = ty.ty ∧
      l.schema = ty.schema := by
  obtain ⟨l, hl, hp⟩ := any_some hpub
  obtain ⟨hm, hh, -⟩ := localType_some hl
  obtain ⟨port, hp', hd⟩ := checkPort_ok hpo
  obtain ⟨hm', rfl, hdir, hty, hsch⟩ := port_ok hp'
  obtain ⟨b, hb, rfl⟩ := (hi.own.declared_ok port).mp hd
  have hok := hi.own.locals_ok l hm
  have hf := bne_iff_ne.mp hp
  have hn : l.port.name = b.port.name := own_names hi hm hb (hok.hash.symm.trans hh)
  have hs : l.port = b.port := by
    apply ports_unique hi.own.ports_ok hok.port hm' hn
    rw [publisher_direction hok.flags hf, hdir]
  refine ⟨l, hl, hf, ?_, ?_⟩
  · rw [hok.name, hs, hty]
  · rw [hok.schema, hs, hsch]

lemma emitData_core (hash : UInt32) (msg : Bytes) :
    ((l.emitData C hash msg).1 ≠ .ok true ∧ (l.emitData C hash msg).2.core = l.core) ∨
    ((l.emitData C hash msg).1 = .ok true ∧ Fitting FRAME (⟨.data, hash, l.dataSeq⟩, msg) ∧
      (l.emitData C hash msg).2.core =
      { l.core with tx := l.tx ++ wireBytes C (⟨.data, hash, l.dataSeq⟩, msg) }) := by
  have he := @emit_core N FRAME C { l with dataSeq := l.dataSeq + 1 } (⟨.data, hash, l.dataSeq⟩, msg)
  unfold emitData
  rcases he with ⟨e, h₁, h₂⟩ | ⟨hf, h₁, h₂⟩
  · split <;> rename_i h <;> rw [h] at h₁ h₂
    · exact .inl ⟨by simp, h₂⟩
    · cases h₁
  · split <;> rename_i h <;> rw [h] at h₁ h₂
    · cases h₁
    · exact .inr ⟨rfl, hf, h₂⟩

lemma send_cases (C : Codec) (l : Link N FRAME) (ty : PortType) (name : Str) (msg : Bytes) :
    ((l.send C ty name msg).1 ≠ .ok true ∧ (l.send C ty name msg).2.core = l.core) ∨
    ((l.send C ty name msg).1 = .ok true ∧ l.checkPort name .output ty none = .ok () ∧
      l.checkPublishes (endpointHash l.id name) = .ok () ∧ l.peerSubscribesHash (endpointHash l.id name) = true ∧
      Fitting FRAME (⟨.data, endpointHash l.id name, l.dataSeq⟩, msg) ∧ (l.send C ty name msg).2.core =
        { l.core with tx := l.tx ++ wireBytes C (⟨.data, endpointHash l.id name, l.dataSeq⟩, msg) }) := by
  unfold send
  generalize endpointHash l.id name = hash
  dsimp only
  cases hp : l.checkPort name .output ty none with
  | error e => exact .inl ⟨by simp [guarded], rfl⟩
  | ok u =>
    cases hpub : l.checkPublishes hash with
    | error e => exact .inl ⟨by simp [guarded], rfl⟩
    | ok u =>
      simp only [guarded]
      split
      · exact .inl ⟨by simp, rfl⟩
      split_ifs with hs
      · split
        · exact .inl ⟨by simp, rfl⟩
        rcases @emitData_core N FRAME C l hash msg with h | ⟨h₁, hf, h₂⟩
        · exact .inl h
        · exact .inr ⟨h₁, trivial, trivial, hs, hf, h₂⟩
      · exact .inl ⟨by simp, rfl⟩

variable {s : Sent} {frame : Frame}

lemma send_wanted (h : Side C X l.core) (hY : Side C Y d)
    (hk : l.connected = true → AllMatched Y.toTables X.toTables ∧
      ∃ ack, l.peerHello = helloBytes ack false Y.id Y.localEntries)
    (hpo : l.checkPort s.name .output s.ty none = .ok ())
    (hpub : l.checkPublishes (endpointHash l.id s.name) = .ok ())
    (hsub : l.peerSubscribesHash (endpointHash l.id s.name) = true) : Wanted X Y s := by
  simp only [Tables.peerSubscribesHash, Bool.and_eq_true] at hsub
  obtain ⟨hc, hsub⟩ := hsub
  obtain ⟨hm, ack, hp⟩ := hk hc
  obtain ⟨hello, hpe, hb, hes⟩ := h.peered hY hc hp
  have hbr : l.peerBridge = false := hpe.bridge.trans hb
  rw [hbr, Bool.false_or, Option.isSome_iff_exists] at hsub
  obtain ⟨e, he⟩ := hsub
  obtain ⟨hmem, hf, hs⟩ := remoteSource_some hpe he
  rw [hes] at hmem
  have ho := ensure_ok.mp hpub
  rw [show l.bridge = false from h.inv.own.not_bridge] at ho
  have hpu := send_published h.inv hpo (ho.resolve_left Bool.false_ne_true)
  rw [Tables.localType, show l.core.tables.id = X.id from h.id,
    show l.core.tables.locals = X.locals from h.locals] at hpu
  rw [show l.id = X.id from h.id] at hs
  exact ⟨hm.symm, announced_source hY.own hmem hf hs, hpu⟩

lemma wanted_received (h : Side C Y l.core) (hX : Side C X d) (hc : l.connected = true)
    (hp : l.peerHello = helloBytes ack false X.id X.localEntries) (hw : Wanted X Y s)
    (hha : frame.hash = endpointHash X.id s.name) (hk : frame.kind = .data)
    (hg : frame.generation = l.rxGeneration) :
    l.onData frame = (some (.data frame), l) ∧ l.frameContract frame = some s.ty := by
  obtain ⟨hello, hpe, hb, hes⟩ := h.peered hX hc hp
  obtain ⟨t, ht, hfl, hn, hs⟩ := hw.published
  rw [← hha] at ht
  have hf := announced_find hX.own frame.hash
  rw [ht, ← hes] at hf
  have hwa : l.wantsData frame.hash = true := by
    have hsrc := hw.wanted
    rw [Tables.localSource, ← h.locals, ← hha] at hsrc
    rw [wantsData, show l.bridge = false from h.inv.own.not_bridge]
    exact hsrc
  have hbr : l.peerBridge = false := hpe.bridge.trans hb
  have hpu : l.peerPublishes frame.hash = true := by
    have hr : l.remoteType frame.hash = some (remoteOf (toWire t.entry)) := by
      rw [Tables.remoteType, show l.remote = _ from hpe.remote, find?_map]
      exact congrArg (Option.map remoteOf) hf
    have hm := (localType_some ht).1
    rw [peerPublishes, hr, hbr, Bool.false_or]
    change (!false && (toWire t.entry).flags &&& PUB != 0) = true
    rw [toWire_flags (hX.own.own.locals_ok t hm), Bool.not_false, Bool.true_and, bne_iff_ne]
    exact hfl
  constructor
  · simp [onData, hwa, hc, hpu]
  · have hh : l.hello = some hello := hello_eq hpe
    simp only [frameContract, isFresh, hg, beq_self_eq_true, if_true, frameLocal, hk, hbr, Bool.false_eq_true,
      if_false, hh, reduceCtorEq, Option.bind_eq_bind, Option.bind_some, hf, Option.map_some]
    change some (⟨t.name, t.schema⟩ : PortType) = some s.ty
    rw [hn, hs]

end Reiny.Link
