import Reiny.Link.State

/-! Every operation on a link changes its contract tables by a sequence of six kinds of step. -/

namespace Reiny.Link

open Lib Words Utf8 Results Wire HelloFormat Ports State

variable {N FRAME : ℕ}

def FlagsOk (flags : UInt8) : PortDirection → Prop
  | .output => flags = PUB ∨ flags = PUB ||| LATCHED
  | .input => flags = SUB
  | .rpcServer => flags = SERVE
  | .rpcClient => flags = CALLS

def CallsTo (t : Tables N FRAME) (hash : UInt32) : Prop :=
  t.bridge = true ∨ (t.localSource hash CALLS).isSome = true ∨
    ∃ port ∈ t.declared, port.direction = .rpcClient ∧ ∃ s ∈ port.sources, s.hash = hash

inductive PeerStep : Tables N FRAME → Tables N FRAME → Prop
  | start (t : Tables N FRAME) : PeerStep t { t with started := true }
  | forget (t : Tables N FRAME) : PeerStep t t.forgetPeer
  | adopt {t : Tables N FRAME} {p : Bytes} {c : PeerContract} (hs : t.started = true)
      (h : t.validateHello p = .ok c) : PeerStep t (t.adopt p c)
  | cancel (t : Tables N FRAME) (hash : UInt32) (seq : UInt8) : PeerStep t (t.cancelRequest hash seq)
  | request {t : Tables N FRAME} {hash : UInt32} {seq : UInt8} {free : Fin N}
      (hserve : t.peerServesHash hash = true) (hcalls : CallsTo t hash)
      (hfree : getElem t.pending free free.isLt = none)
      (hfresh : some (hash, seq) ∉ t.pending) :
      PeerStep t { t with pending := t.pending.set free (some (hash, seq)) free.isLt }

abbrev PeerSteps : Tables N FRAME → Tables N FRAME → Prop := Relation.ReflTransGen PeerStep

inductive TableStep (t t' : Tables N FRAME) : Prop
  | peer (h : PeerStep t t')
  | declare {name : Str} {direction : PortDirection} {flag : UInt8} {ty : PortType}
      {response : Option PortType} (hflag : FlagsOk flag direction)
      (h : t.declare name direction flag ty response = .ok t')

abbrev TableSteps : Tables N FRAME → Tables N FRAME → Prop := Relation.ReflTransGen TableStep

variable {t t' : Tables N FRAME}

lemma PeerSteps.tables (h : PeerSteps t t') : TableSteps t t' :=
  Relation.ReflTransGen.mono (fun _ _ hp => TableStep.peer hp) t t' h

lemma PeerStep.steps (h : PeerStep t t') : PeerSteps t t' := .single h

lemma PeerStep.started (h : PeerStep t t') (hs : t.started = true) : t'.started = true := by
  cases h with
  | start => rfl
  | forget => exact hs
  | adopt _ _ => exact hs
  | cancel hash seq =>
    unfold Tables.cancelRequest
    split <;> exact hs
  | request => exact hs

lemma steps_started (h : PeerSteps t t') (hs : t.started = true) : t'.started = true := by
  induction h with
  | refl => exact hs
  | tail _ h ih => exact h.started ih

section Sending

variable {C : Codec} (l : Link N FRAME) {l' : Link N FRAME}

inductive Unsent (C : Codec) (l : Link N FRAME) (payload : Bytes) : Error → Prop
  | frame (h : FRAME < OVERHEAD + payload.length) : Unsent C l payload .tooLarge
  | buffer (h : l.txCap - l.tx.length < encodedMax C (OVERHEAD + payload.length)) : Unsent C l payload .full

lemma emit_cases (C : Codec) (kind : Kind) (hash : UInt32) (seq : UInt8) (payload : Bytes) :
    (∃ e n, Unsent C l payload e ∧
      l.emit C kind hash seq payload = (.error e, { l with stats := { l.stats with txFull := n } })) ∨
    (∃ raw, sealFrame C FRAME ⟨kind, hash, seq⟩ payload = .ok raw ∧
      encodedMax C raw.length ≤ l.txCap - l.tx.length ∧ l.emit C kind hash seq payload =
        (.ok (), { l with tx := l.tx ++ (C.cobsEncode raw ++ [DELIMITER]), lastTxMs := l.nowMs })) := by
  unfold emit
  cases hs : sealFrame C FRAME ⟨kind, hash, seq⟩ payload with
  | error e =>
    refine .inl ⟨.tooLarge, l.stats.txFull, .frame ?_, rfl⟩
    by_contra hf
    cases hs.symm.trans (seal_ok.mpr ⟨Nat.le_of_not_lt hf, rfl⟩)
  | ok raw =>
    by_cases hr : l.txCap - l.tx.length < encodedMax C raw.length
    · simp only [hr, if_true]
      exact .inl ⟨.full, _, .buffer (by rwa [seal_length hs] at hr), rfl⟩
    · have hr' : ¬ l.txCap - l.tx.length < C.maxEncodingLength raw.length + 1 := hr
      simp only [hr, if_false, encode, hr']
      exact .inr ⟨raw, rfl, by omega, rfl⟩

inductive Sends (C : Codec) (l : Link N FRAME) : Link N FRAME → Prop
  | unsent (stats : Stats) (dataSeq : UInt8) : Sends C l { l with stats, dataSeq }
  | queued {header : Header} {payload raw : Bytes} (hraw : sealFrame C FRAME header payload = .ok raw)
      (hroom : encodedMax C raw.length ≤ l.txCap - l.tx.length) (stats : Stats) (dataSeq : UInt8) :
      Sends C l { l with tx := l.tx ++ (C.cobsEncode raw ++ [DELIMITER]), lastTxMs := l.nowMs, stats, dataSeq }

variable {l} in
lemma Sends.counted {stats : Stats} {dataSeq : UInt8} (h : Sends C { l with stats, dataSeq } l') :
    Sends C l l' := by
  cases h with
  | unsent stats dataSeq => exact .unsent stats dataSeq
  | queued hraw hr stats dataSeq => exact @Sends.queued N FRAME C l _ _ _ hraw hr stats dataSeq

lemma Sends.refl : Sends C l l := .unsent l.stats l.dataSeq

variable {β : Type} {f : Link N FRAME → β}

variable {l} in
lemma Sends.keeps (h : Sends C l l')
    (hf : ∀ (l : Link N FRAME) tx lastTxMs stats dataSeq, f { l with tx, lastTxMs, stats, dataSeq } = f l) :
    f l' = f l := by
  cases h with
  | unsent stats dataSeq => exact hf l l.tx l.lastTxMs stats dataSeq
  | queued _ _ stats dataSeq => exact hf l _ _ stats dataSeq

variable {l} in
lemma Sends.tables (h : Sends C l l') : l'.toTables = l.toTables := h.keeps fun _ _ _ _ _ => rfl

lemma emit_sends (kind : Kind) (hash : UInt32) (seq : UInt8) (payload : Bytes) :
    Sends C l (l.emit C kind hash seq payload).2 := by
  rcases emit_cases l C kind hash seq payload with ⟨e, n, -, h⟩ | ⟨raw, hraw, hr, h⟩ <;> rw [h]
  · exact .unsent _ l.dataSeq
  · exact .queued hraw hr l.stats l.dataSeq

section

variable (hf : ∀ (l : Link N FRAME) tx lastTxMs txFull,
  f { l with tx, lastTxMs, stats := { l.stats with txFull } } = f l)

include hf

lemma emit_keeps (kind : Kind) (hash : UInt32) (seq : UInt8) (payload : Bytes) :
    f (l.emit C kind hash seq payload).2 = f l := by
  rcases emit_cases l C kind hash seq payload with ⟨e, n, -, h⟩ | ⟨raw, -, -, h⟩ <;> rw [h]
  · exact hf l l.tx l.lastTxMs n
  · exact hf l _ _ l.stats.txFull

lemma queueHello_keeps (ack : Bool) : f (l.queueHello C ack).2 = f l := by
  unfold queueHello
  cases l.helloPayload ack with
  | error e => rfl
  | ok payload => exact emit_keeps l hf _ _ _ _

lemma ensureStarted_keeps (hs : ∀ l : Link N FRAME, f { l with started := true } = f l) :
    f (l.ensureStarted C) = f l := by
  unfold ensureStarted
  split_ifs
  · rfl
  · exact (queueHello_keeps _ hf false).trans (hs l)

end

lemma queueHello_sends (ack : Bool) : Sends C l (l.queueHello C ack).2 := by
  unfold queueHello
  cases l.helloPayload ack with
  | error e => exact .refl l
  | ok payload => exact emit_sends l _ _ _ _

lemma emitData_sends (hash : UInt32) (payload : Bytes) : Sends C l (l.emitData C hash payload).2 := by
  have h := (@emit_sends N FRAME C { l with dataSeq := l.dataSeq + 1 } .data hash l.dataSeq payload).counted
  unfold emitData
  split <;> rename_i he <;> rw [he] at h <;> exact h

lemma emitReply_sends (hash : UInt32) (seq : UInt8) (schema : UInt64) (payload : Bytes) :
    Sends C l (l.emitReply C hash seq schema payload).2 := by
  unfold emitReply
  split_ifs
  · exact .refl l
  · exact emit_sends l _ _ _ _

variable {l} in
lemma guarded_sends {α : Type} {check : Except Error Unit} {act : Except Error α × Link N FRAME}
    (h : Sends C l act.2) : Sends C l (l.guarded check act).2 := by
  cases check with
  | error e => exact .refl l
  | ok u => exact h

def Op.sends : Op → Bool
  | .send _ _ _ | .sendRaw _ _ | .reply _ _ _ _ | .replyRaw _ _ _ _ | .replyErr _ _ _ _ | .replyErrRaw _ _ _ => true
  | _ => false

lemma apply_sends (op : Op) (hop : op.sends = true) : Sends C l (op.apply C l) := by
  cases op with
  | send ty name msg =>
    refine guarded_sends (guarded_sends (guarded_sends ?_))
    split_ifs
    · exact guarded_sends (emitData_sends l _ _)
    · exact .refl l
  | sendRaw hash payload =>
    refine guarded_sends ?_
    split_ifs
    · exact guarded_sends (emitData_sends l _ _)
    · exact .refl l
  | reply S name seq resp => exact guarded_sends (guarded_sends (emitReply_sends l _ _ _ _))
  | replyRaw seq hash schema payload => exact guarded_sends (emitReply_sends l _ _ _ _)
  | replyErr S name seq message => exact guarded_sends (emit_sends l _ _ _ _)
  | replyErrRaw seq hash message => exact emit_sends l _ _ _ _
  | _ => cases hop

@[simp] lemma emit_tables (kind : Kind) (hash : UInt32) (seq : UInt8) (payload : Bytes) :
    (l.emit C kind hash seq payload).2.toTables = l.toTables := (emit_sends l kind hash seq payload).tables

@[simp] lemma queueHello_tables (ack : Bool) : (l.queueHello C ack).2.toTables = l.toTables :=
  (queueHello_sends l ack).tables

lemma ensureStarted_tables : (l.ensureStarted C).toTables = { l.toTables with started := true } := by
  unfold ensureStarted
  cases hs : l.started with
  | true =>
    simp only [if_true]
    rw [← hs]
  | false =>
    simp only [Bool.false_eq_true, if_false]
    exact queueHello_tables _ false

lemma ensureStarted_steps : PeerSteps l.toTables (l.ensureStarted C).toTables := by
  rw [ensureStarted_tables]
  exact (PeerStep.start _).steps

end Sending

section

variable {C : Codec} (l : Link N FRAME) {α : Type} {hash : UInt32} {name : Str} {t : Tables N FRAME}
  {d : PortDirection} {ty : PortType} {response : Option PortType} {l' : Link N FRAME}
  {P : Link N FRAME → Prop} {op : Op} {event : Option Event}

lemma slot_found {v : Vector α N} {p : α → Bool} {i : Fin N} (h : v.findFinIdx? p = some i) :
    p (getElem v i i.isLt) = true := by
  have hf : v.find? p = some v[i] := by
    rw [Vector.find?_eq_map_findFinIdx?_getElem, h]
    rfl
  exact Vector.find?_some hf

lemma freeSeq_fresh {seq : UInt8} (h : l.freeSeq hash = some seq) : some (hash, seq) ∉ l.pending := by
  have hp := List.find?_some h
  simpa using hp

lemma emitRequest_cases (hash : UInt32) (payload : Bytes) :
    Sends C l (l.emitRequest C hash payload).2 ∨ ∃ (m : Link N FRAME) (free : Fin N) (seq : UInt8), Sends C l m ∧
      getElem l.pending free free.isLt = none ∧ l.freeSeq hash = some seq ∧ (l.emitRequest C hash payload).2 =
        { m with reqSeq := seq + 1, pending := m.pending.set free (some (hash, seq)) free.isLt } := by
  unfold emitRequest
  split
  · rename_i free seq hf hseq
    have hs := emit_sends (C := C) l .request hash seq payload
    split <;> rename_i he <;> rw [he] at hs
    · exact .inl hs
    · exact .inr ⟨_, free, seq, hs, by simpa using slot_found hf, hseq, rfl⟩
  · exact .inl (.refl l)

lemma emitRequest_steps {payload : Bytes} (hs : l.peerServesHash hash = true)
    (hcs : CallsTo l.toTables hash) : PeerSteps l.toTables (l.emitRequest C hash payload).2.toTables := by
  rcases emitRequest_cases (C := C) l hash payload with h | ⟨m, free, seq, h, hf, hseq, heq⟩
  · rw [h.tables]
  · rw [heq]
    change PeerSteps l.toTables { m.toTables with pending := m.toTables.pending.set free (some (hash, seq)) }
    rw [h.tables]
    exact (PeerStep.request hs hcs hf (freeSeq_fresh l hseq)).steps

lemma port_ok {port : StaticPort} (h : t.port name d ty response = .ok port) :
    port ∈ t.ports ∧ port.name = name ∧ port.direction = d ∧ port.ty = ty.ty ∧ port.schema = ty.schema := by
  unfold Tables.port at h
  split at h
  · cases h
  · rename_i p hf
    have hp := List.find?_some hf
    simp only [Bool.and_eq_true, beq_iff_eq] at hp
    split_ifs at h with hty hs
    cases h
    rw [not_or, not_not, not_not] at hty hs
    exact ⟨List.mem_of_find?_eq_some hf, hp.1, hp.2, hty.1, hs.1⟩

lemma checkPort_ok (h : t.checkPort name d ty response = .ok ()) :
    ∃ port, t.port name d ty response = .ok port ∧ port ∈ t.declared := by
  obtain ⟨port, hp, hd⟩ := bind_ok.mp h
  exact ⟨port, hp, ensure_ok.mp hd⟩

lemma requestHash_ok {S : Service} (h : t.requestHash S name = .ok hash) : CallsTo t hash := by
  obtain ⟨⟨⟩, hc, h⟩ := bind_ok.mp h
  obtain ⟨port, hp, hd⟩ := checkPort_ok hc
  rw [hp] at h
  dsimp only [bind, Except.bind] at h
  cases hs : port.sources.head? with
  | none =>
    rw [hs] at h
    cases h
  | some s =>
    rw [hs] at h
    exact .inr (.inr ⟨port, hd, (port_ok hp).2.2.1, s, List.mem_of_mem_head? hs, Except.ok.inj h⟩)

variable {l} in
lemma guarded_ensure {c : Prop} [Decidable c] {e : Error} {act : Except Error α × Link N FRAME} (hl : P l)
    (h : c → P act.2) : P (l.guarded (ensure c e) act).2 := by
  by_cases hc : c
  · rw [ensure, if_pos hc]
    exact h hc
  · rw [ensure, if_neg hc]
    exact hl

inductive Plain (C : Codec) (l : Link N FRAME) : Link N FRAME → Prop
  | sent {l' : Link N FRAME} (h : Sends C l l') : Plain C l l'
  | declared {name : Str} {d : PortDirection} {flag : UInt8} {ty : PortType} {response : Option PortType}
      (hflag : FlagsOk flag d) : Plain C l (l.declare name d flag ty response).2
  | drained (n : ℕ) (stats : Stats) :
      Plain C l { l.ensureStarted C with tx := (l.ensureStarted C).tx.drop n, stats }
  | configured (config : LinkConfig) : Plain C l (l.withConfig config)

inductive Performed (C : Codec) (l : Link N FRAME) : Link N FRAME → Prop
  | plain {l' : Link N FRAME} (h : Plain C l l') : Performed C l l'
  | asked {hash : UInt32} (payload : Bytes) (hserve : l.peerServesHash hash = true)
    (hcalls : CallsTo l.toTables hash) :
      Performed C l (l.emitRequest C hash payload).2
  | cancelled (hash : UInt32) (seq : UInt8) : Performed C l (l.cancelRequest hash seq)

variable {l} in
lemma Performed.keeps {f : Link N FRAME → α} (h : Performed C l l')
    (hf : ∀ (l : Link N FRAME) toTables tx config dataSeq reqSeq lastTxMs stats,
      f { l with toTables, tx, config, dataSeq, reqSeq, lastTxMs, stats } = f l) : f l' = f l := by
  have hs : ∀ {l' : Link N FRAME}, Sends C l l' → f l' = f l := fun h =>
    h.keeps fun l tx lastTxMs stats dataSeq => hf l l.toTables tx l.config dataSeq l.reqSeq lastTxMs stats
  cases h with
  | asked payload _ _ =>
    rcases emitRequest_cases (C := C) l _ payload with h | ⟨m, free, seq, h, -, -, heq⟩
    · exact hs h
    · rw [heq]
      exact (hf m _ m.tx m.config m.dataSeq _ m.lastTxMs m.stats).trans (hs h)
  | cancelled hash seq => exact hf l _ l.tx l.config l.dataSeq l.reqSeq l.lastTxMs l.stats
  | plain h =>
    cases h with
    | sent h => exact hs h
    | declared _ =>
      unfold declare
      split
      · rfl
      · exact hf l _ l.tx l.config l.dataSeq l.reqSeq l.lastTxMs l.stats
    | drained n stats =>
      refine (hf (l.ensureStarted C) (l.ensureStarted C).toTables _ _ _ _ _ stats).trans
        (ensureStarted_keeps l ?_ ?_)
      · exact fun l tx lastTxMs _ => hf l l.toTables tx l.config l.dataSeq l.reqSeq lastTxMs _
      · exact fun l => hf l _ l.tx l.config l.dataSeq l.reqSeq l.lastTxMs l.stats
    | configured config => exact hf l l.toTables l.tx config l.dataSeq l.reqSeq l.lastTxMs l.stats

def Op.receives : Op → Bool
  | .feed _ | .next => true
  | _ => false

def Op.ticks : Op → Bool
  | .tick _ => true
  | _ => false

def Op.asks : Op → Bool
  | .request _ _ _ | .requestRaw _ _ | .cancelRequest _ _ => true
  | _ => false

lemma drainFrame_plain (room : ℕ) : Plain C l (l.drainFrame C room).2 := by
  unfold drainFrame
  dsimp only
  split
  · exact .drained 0 _
  · split_ifs <;> exact .drained _ _

lemma apply_plain (hr : op.receives = false) (ht : op.ticks = false) (ha : op.asks = false) :
    Plain C l (op.apply C l) := by
  cases op with
  | publishes ty name => exact .declared (Or.inl rfl)
  | publishesLatched ty name => exact .declared (Or.inr rfl)
  | subscribes ty name => exact .declared (d := .input) rfl
  | rpcServer S name => exact .declared (d := .rpcServer) rfl
  | rpcClient S name => exact .declared (d := .rpcClient) rfl
  | drain room => exact .drained _ _
  | drainFrame room => exact drainFrame_plain l room
  | withConfig config => exact .configured config
  | feed _ | next => cases hr
  | tick _ => cases ht
  | request _ _ _ | requestRaw _ _ | cancelRequest _ _ => cases ha
  | _ => exact .sent (apply_sends l _ rfl)

lemma request_performed (S : Service) (name : Str) (req : Bytes) : Performed C l (l.request C S name req).2 := by
  have hl : Performed C l l := .plain (.sent (.refl l))
  unfold request
  cases hh : l.requestHash S name with
  | error e => exact hl
  | ok hash =>
    refine guarded_ensure hl fun hs => ?_
    refine guarded_ensure hl fun _ => ?_
    exact guarded_ensure hl fun _ => .asked req hs (requestHash_ok hh)

lemma requestRaw_performed (hash : UInt32) (payload : Bytes) : Performed C l (l.requestRaw C hash payload).2 := by
  have hl : Performed C l l := .plain (.sent (.refl l))
  refine guarded_ensure hl fun hcs => ?_
  refine guarded_ensure hl fun hs => ?_
  exact guarded_ensure hl fun _ => .asked payload hs (hcs.imp id Or.inl)

lemma apply_performed (hr : op.receives = false) (ht : op.ticks = false) : Performed C l (op.apply C l) := by
  cases ha : op.asks with
  | false => exact .plain (apply_plain l hr ht ha)
  | true =>
    cases op with
    | request S name req => exact request_performed l S name req
    | requestRaw hash payload => exact requestRaw_performed l hash payload
    | cancelRequest hash seq => exact .cancelled hash seq
    | _ => cases ha

@[simp] lemma rxCompact_tables : l.rxCompact.toTables = l.toTables := by
  unfold rxCompact
  split_ifs <;> rfl

lemma feedLoop_keeps {f : Link N FRAME → α}
    (hf : ∀ (l : Link N FRAME) rx rxSkip stats, f { l with rx, rxSkip, stats } = f l) (fuel : ℕ)
    (rest : Bytes) : f (feedLoop fuel l rest).1 = f l := by
  induction fuel generalizing l rest with
  | zero => rfl
  | succ fuel ih =>
    unfold feedLoop
    split_ifs
    · rfl
    · split
      · rfl
      · exact (ih _ _).trans (hf l _ _ _)
    · rfl
    · exact (ih _ _).trans (hf l _ _ _)
    · exact (ih _ _).trans (hf l _ _ _)

lemma feedLoop_tables (fuel : ℕ) (rest : Bytes) : (feedLoop fuel l rest).1.toTables = l.toTables :=
  feedLoop_keeps l (fun _ _ _ _ => rfl) fuel rest

lemma feed_steps (bytes : Bytes) : PeerSteps l.toTables (l.feed C bytes).2.toTables := by
  unfold feed
  rw [feedLoop_tables, rxCompact_tables]
  exact ensureStarted_steps l

lemma tick_steps (nowMs : UInt32) : PeerSteps l.toTables (l.tick C nowMs).2.toTables := by
  unfold tick
  dsimp only
  split_ifs
  · exact ensureStarted_steps { l with nowMs, lastRxMs := nowMs }
  · exact (PeerStep.forget _).steps
  · rw [emit_tables]
  · exact .refl
  · rw [queueHello_tables]
  · exact .refl

lemma acceptHello_tables (frame : Frame) (payload : Bytes) (c : PeerContract) :
    (l.acceptHello C frame payload c).2.toTables = l.adopt payload c := by
  unfold acceptHello
  dsimp only
  split_ifs
  · rfl
  · exact queueHello_tables _ true

lemma onHello_sends (frame : Frame) : ∃ t : Tables N FRAME, (l.started = true → PeerSteps l.toTables t) ∧
    Sends C (l.withTables t) (l.onHello C frame).2 := by
  unfold onHello
  split
  · refine ⟨l.forgetPeer, fun _ => (PeerStep.forget _).steps, ?_⟩
    unfold refuseHello countOverflow
    split_ifs <;> exact .unsent _ _
  · rename_i c hc
    refine ⟨l.adopt _ c, fun hs => (PeerStep.adopt hs hc).steps, ?_⟩
    unfold acceptHello
    dsimp only
    split_ifs
    · exact .refl _
    · exact queueHello_sends _ true

lemma onData_tables (frame : Frame) : (l.onData frame).2.toTables = l.toTables := by
  unfold onData
  split_ifs <;> rfl

lemma onRequest_tables (frame : Frame) : (l.onRequest C frame).2.toTables = l.toTables := by
  unfold onRequest
  dsimp only
  split_ifs
  · exact emit_tables l.dropUnwanted _ _ _ _
  · rfl
  · exact emit_tables l.dropUnwanted _ _ _ _

lemma dispatch_sends (frame : Frame) : ∃ t : Tables N FRAME, (l.started = true → PeerSteps l.toTables t) ∧
    Sends C (l.withTables t) (l.dispatch C frame).2 := by
  have hq : ∀ {l' : Link N FRAME}, Sends C l l' → ∃ t : Tables N FRAME,
      (l.started = true → PeerSteps l.toTables t) ∧ Sends C (l.withTables t) l' := fun h => ⟨_, fun _ => .refl, h⟩
  have hr : ∀ event, ∃ t : Tables N FRAME, (l.started = true → PeerSteps l.toTables t) ∧
      Sends C (l.withTables t) (l.onReply frame event).2 := by
    intro event
    unfold onReply
    split_ifs
    · exact hq (.unsent _ _)
    · exact ⟨_, fun _ => (PeerStep.cancel _ _ _).steps, .refl _⟩
  unfold dispatch
  split
  · exact onHello_sends l frame
  · exact hq (.refl l)
  · unfold onData
    split_ifs <;> exact hq (.unsent _ _)
  · unfold onRequest
    dsimp only
    split_ifs
    · exact hq (emit_sends l.dropUnwanted _ _ _ _).counted
    · exact hq (.refl l)
    · exact hq (emit_sends l.dropUnwanted _ _ _ _).counted
  · exact hr _
  · exact hr _

lemma dispatch_steps (frame : Frame) (hs : l.started = true) :
    PeerSteps l.toTables (l.dispatch C frame).2.toTables := by
  obtain ⟨t, hss, hse⟩ := dispatch_sends (C := C) l frame
  rw [hse.tables]
  exact hss hs

lemma nextRound_cases (h : l.nextRound C = some (event, l')) :
    ∃ n, l.rx.findIdx? (· == DELIMITER) = some n ∧
      ((n = 0 ∨ l.decodeFrame C n = none) ∧ event = none ∧ (∃ stats, l' = rxDiscard { l with stats } (n + 1)) ∨
      ∃ frame rx after, n ≠ 0 ∧ l.decodeFrame C n = some (frame, rx) ∧
        (l.received frame rx (n + 1)).2.dispatch C (l.received frame rx (n + 1)).1 = (event, after) ∧
        (event ≠ none ∧ l' = after ∨ event = none ∧ l' = after.rxCompact)) := by
  unfold nextRound at h
  split at h
  · cases h
  · rename_i hn
    cases h
    exact ⟨0, hn, .inl ⟨Or.inl rfl, rfl, l.stats, rfl⟩⟩
  · rename_i n hne hn
    refine ⟨n, hn, ?_⟩
    split at h
    · rename_i hdec
      cases h
      exact .inl ⟨Or.inr hdec, rfl, _, rfl⟩
    · rename_i frame rx hdec
      simp only [settle, Option.some.injEq] at h
      split at h <;> rename_i hd <;> cases h
      · exact .inr ⟨frame, rx, _, hne, hdec, hd, .inl ⟨nofun, rfl⟩⟩
      · exact .inr ⟨frame, rx, _, hne, hdec, hd, .inr ⟨rfl, rfl⟩⟩

lemma nextRound_steps (hs : l.started = true) (h : l.nextRound C = some (event, l')) :
    PeerSteps l.toTables l'.toTables ∧ ∀ e, event = some e → ∃ (m : Link N FRAME) (frame : Frame),
      m.toTables = l.toTables ∧ frame.generation = m.rxGeneration ∧ m.dispatch C frame = (event, l') := by
  obtain ⟨n, -, ⟨-, rfl, stats, rfl⟩ | ⟨frame, rx, after, -, -, hd, hl'⟩⟩ := nextRound_cases l h
  · exact ⟨.refl, nofun⟩
  · have hss := dispatch_steps (C := C) (l.received frame rx (n + 1)).2 (l.received frame rx (n + 1)).1 hs
    rw [hd] at hss
    rcases hl' with ⟨-, rfl⟩ | ⟨rfl, rfl⟩
    · exact ⟨hss, fun _ _ => ⟨(l.received frame rx (n + 1)).2, (l.received frame rx (n + 1)).1, rfl, rfl, hd⟩⟩
    · rw [rxCompact_tables]
      exact ⟨hss, nofun⟩

omit l in
lemma nextLoop_rule {Q : Link N FRAME → Option Event → Link N FRAME → Prop} (hr : ∀ l, P l → Q l none l)
    (hrd : ∀ l event l', P l → l.nextRound C = some (event, l') → Q l event l' ∧ (event = none → P l'))
    (ht : ∀ a b c event, Q a none b → Q b event c → Q a event c) (fuel : ℕ) {l : Link N FRAME} (h : P l) :
    Q l (nextLoop C fuel l).1 (nextLoop C fuel l).2 := by
  induction fuel generalizing l with
  | zero => exact hr l h
  | succ fuel ih =>
    unfold nextLoop
    split
    · exact hr l h
    · rename_i event l' hl'
      exact (hrd l _ l' h hl').1
    · rename_i l' hl'
      obtain ⟨hf, hn⟩ := hrd l none l' h hl'
      exact ht _ _ _ _ hf (ih (hn rfl))

lemma nextLoop_steps (fuel : ℕ) (hs : l.started = true) :
    PeerSteps l.toTables (nextLoop C fuel l).2.toTables ∧
      ∀ e, (nextLoop C fuel l).1 = some e → ∃ (m : Link N FRAME) (frame : Frame),
        PeerSteps l.toTables m.toTables ∧ m.started = true ∧ frame.generation = m.rxGeneration ∧
          m.dispatch C frame = nextLoop C fuel l := by
  induction fuel generalizing l with
  | zero => exact ⟨.refl, by simp [nextLoop]⟩
  | succ fuel ih =>
    unfold nextLoop
    split
    · exact ⟨.refl, by simp⟩
    · rename_i event l' h
      obtain ⟨hss, hev⟩ := nextRound_steps l hs h
      refine ⟨hss, ?_⟩
      intro e _
      obtain ⟨m, frame, hm, hg, hd⟩ := hev event rfl
      exact ⟨m, frame, hm ▸ .refl, hm ▸ hs, hg, hd⟩
    · rename_i l' h
      obtain ⟨hss, -⟩ := nextRound_steps l hs h
      obtain ⟨hr, hev⟩ := ih l' (steps_started hss hs)
      refine ⟨hss.trans hr, ?_⟩
      intro e he
      obtain ⟨m, frame, hm, hr⟩ := hev e he
      exact ⟨m, frame, hss.trans hm, hr⟩

lemma next_start : PeerSteps l.toTables (l.ensureStarted C).rxCompact.toTables ∧
    (l.ensureStarted C).rxCompact.started = true := by
  rw [rxCompact_tables]
  exact ⟨ensureStarted_steps l, by rw [ensureStarted_tables]⟩

lemma next_steps : PeerSteps l.toTables (l.next C).2.toTables := by
  obtain ⟨hss, hs⟩ := next_start (C := C) l
  exact hss.trans (nextLoop_steps _ _ hs).1

lemma next_event {event : Event} (h : l.next C = (some event, l')) :
    ∃ (m : Link N FRAME) (frame : Frame), PeerSteps l.toTables m.toTables ∧ m.started = true ∧
      frame.generation = m.rxGeneration ∧ m.dispatch C frame = (some event, l') := by
  obtain ⟨hss, hs⟩ := next_start (C := C) l
  have he : (l.next C).1 = some event := by rw [h]
  obtain ⟨m, frame, hm, hs', hg, hd⟩ := (nextLoop_steps _ _ hs).2 event he
  refine ⟨m, frame, hss.trans hm, hs', hg, ?_⟩
  rw [hd]
  exact h

lemma declare_steps {flag : UInt8} (hf : FlagsOk flag d) :
    TableSteps l.toTables (l.declare name d flag ty response).2.toTables := by
  unfold declare
  cases hd : l.toTables.declare name d flag ty response with
  | error e => exact .refl
  | ok t => exact .single (.declare hf hd)

lemma Performed.steps (h : Performed C l l') : TableSteps l.toTables l'.toTables := by
  cases h with
  | asked payload hs hcs => exact PeerSteps.tables (emitRequest_steps l hs hcs)
  | cancelled hash seq => exact PeerSteps.tables (PeerStep.cancel _ _ _).steps
  | plain h =>
    cases h with
    | sent h => exact h.tables ▸ .refl
    | declared hf => exact declare_steps l hf
    | drained n stats => exact PeerSteps.tables (ensureStarted_steps l)
    | configured config => exact .refl

theorem apply_steps (C : Codec) (op : Op) : TableSteps l.toTables (op.apply C l).toTables := by
  cases op with
  | feed bytes => exact PeerSteps.tables (feed_steps l bytes)
  | tick nowMs => exact PeerSteps.tables (tick_steps l nowMs)
  | next => exact PeerSteps.tables (next_steps l)
  | _ => exact (apply_performed l rfl rfl).steps

end

end Reiny.Link
