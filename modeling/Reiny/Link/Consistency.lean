import Reiny.Lib.Machine
import Reiny.Link.Framing
import Reiny.Link.Handshake

namespace Reiny.Link

open Lib Words Utf8 Results Machine Wire HelloFormat HelloCodec Ports State

variable {N FRAME : ℕ}

/-- The links the crate opens: made by `new`, and turned into a bridge before any use or not at all. -/
inductive Opened : Link N FRAME → Prop
  | new {id : Str} {ports : List StaticPort} {txCap rxCap : ℕ} {l : Link N FRAME}
      (h : Link.new id ports txCap rxCap = .ok l) : Opened l
  | bridge {id : Str} {ports : List StaticPort} {txCap rxCap : ℕ} {l : Link N FRAME}
      (h : Link.new id ports txCap rxCap = .ok l) : Opened l.intoBridge

def Op.perform (C : Codec) (l : Link N FRAME) : Op → Option Event × Link N FRAME
  | .tick nowMs => l.tick C nowMs
  | .next => l.next C
  | op => (none, op.apply C l)

lemma perform_apply (C : Codec) (l : Link N FRAME) (op : Op) : (op.perform C l).2 = op.apply C l := by
  cases op <;> rfl

def act (C : Codec) (l : Link N FRAME) (op : Op) : Option (Option Event × Link N FRAME) := some (op.perform C l)

section Contract

structure Heard (peerHello : Bytes) (peer : Option Str) (remote : List RemoteType) (peerBridge : Bool)
    (hello : Hello) : Prop where
  parsed : helloParse peerHello = .ok hello
  peer : peer = some hello.id
  remote : remote = hello.entries.map remoteOf
  bridge : peerBridge = hello.bridge

structure Consistent (t : Tables N FRAME) : Prop where
  peered : t.connected = true → ∃ hello, Heard t.peerHello t.peer t.remote t.peerBridge hello
  alone : t.connected = false → t.peerHello = [] ∧ t.peer = none ∧ t.remote = [] ∧ t.peerBridge = false
  unasked : t.connected = false → ∀ p, some p ∉ t.pending
  distinct : ∀ (i j : Fin N) (p : UInt32 × UInt8), getElem t.pending i i.isLt = some p →
    getElem t.pending j j.isLt = some p → i = j

variable {t t' : Tables N FRAME} {l : Link N FRAME}

lemma Consistent.forget (t : Tables N FRAME) : Consistent t.forgetPeer where
  peered := fun h => by cases h
  alone := fun _ => ⟨rfl, rfl, rfl, rfl⟩
  unasked := fun _ p hp => absurd (Vector.mem_replicate.mp hp).2 (by simp)
  distinct := fun i j p hi _ => by simp [Tables.forgetPeer] at hi

lemma Consistent.adopt {p : Bytes} {c : PeerContract} (hi : Consistent t) (h : t.validateHello p = .ok c) :
    Consistent (t.adopt p c) where
  peered := fun _ => by
    obtain ⟨hello, hp, -, -, -, rfl⟩ := validateHello_ok.mp h
    exact ⟨hello, hp, rfl, rfl, rfl⟩
  alone := fun hn => by cases hn
  unasked := fun hn => by cases hn
  distinct := hi.distinct

lemma slot_set {α : Type} (v : Vector α N) (i j : Fin N) (a : α) :
    getElem (v.set i a i.isLt) j j.isLt = if i = j then a else getElem v j j.isLt := by
  simp only [Fin.getElem_fin, Vector.getElem_set, Fin.ext_iff]

lemma Consistent.cancel (hi : Consistent t) (hash : UInt32) (seq : UInt8) :
    Consistent (t.cancelRequest hash seq) := by
  unfold Tables.cancelRequest
  split
  · exact hi
  · rename_i slot _
    refine ⟨hi.peered, hi.alone, ?_, ?_⟩
    · intro hc p hp
      rcases mem_set_cases hp with hp | hp
      · cases hp
      · exact hi.unasked hc p hp
    · intro i j p hp hq
      rw [slot_set] at hp hq
      split_ifs at hp hq
      exact hi.distinct i j p hp hq

lemma Consistent.request (hi : Consistent t) {hash : UInt32} {seq : UInt8} {free : Fin N}
    (hs : t.peerServesHash hash = true) (hfr : some (hash, seq) ∉ t.pending) :
    Consistent ({ t with pending := t.pending.set free (some (hash, seq)) free.isLt } : Tables N FRAME) where
  peered := hi.peered
  alone := hi.alone
  unasked := fun hn => absurd ((serves_connected hs).symm.trans hn) (by decide)
  distinct := fun i j p hp hq => by
    have ha : ∀ k : Fin N, t.pending[k] ≠ some (hash, seq) :=
      fun k hk => hfr (hk ▸ Vector.getElem_mem k.isLt)
    rw [slot_set] at hp hq
    split_ifs at hp hq with hi' hj'
    · exact hi'.symm.trans hj'
    · cases hp
      exact absurd hq (ha j)
    · cases hq
      exact absurd hp (ha i)
    · exact hi.distinct i j p hp hq

lemma PeerStep.consistent (h : PeerStep t t') (hi : Consistent t) : Consistent t' := by
  cases h with
  | start => exact ⟨hi.peered, hi.alone, hi.unasked, hi.distinct⟩
  | forget => exact .forget t
  | adopt _ h => exact hi.adopt h
  | cancel hash seq => exact hi.cancel hash seq
  | request hs _ _ hfr => exact hi.request hs hfr

lemma TableStep.consistent (h : TableStep t t') (hi : Consistent t) : Consistent t' := by
  cases h with
  | peer h => exact h.consistent hi
  | declare _ h =>
    obtain ⟨-, port, locals, -, -, -, rfl⟩ := declare_ok h
    exact ⟨hi.peered, hi.alone, hi.unasked, hi.distinct⟩

lemma PeerSteps.consistent (h : PeerSteps t t') (hi : Consistent t) : Consistent t' := by
  induction h with
  | refl => exact hi
  | tail _ h ih => exact h.consistent ih

lemma TableSteps.consistent (h : TableSteps t t') (hi : Consistent t) : Consistent t' := by
  induction h with
  | refl => exact hi
  | tail _ h ih => exact h.consistent ih

lemma initial_consistent (id : Str) (ports : List StaticPort) (txCap rxCap : ℕ) :
    Consistent (initial id ports txCap rxCap : Link N FRAME).toTables where
  peered := fun h => by cases h
  alone := fun _ => ⟨rfl, rfl, rfl, rfl⟩
  unasked := fun _ p hp => absurd (Vector.mem_replicate.mp hp).2 (by simp)
  distinct := fun i j p hi _ => by simp [initial] at hi

lemma Consistent.intoBridge (hi : Consistent l.toTables) : Consistent l.intoBridge.toTables :=
  ⟨hi.peered, hi.alone, hi.unasked, hi.distinct⟩

lemma Opened.consistent (h : Opened l) : Consistent l.toTables := by
  cases h with
  | new h =>
    obtain ⟨-, -, -, -, rfl⟩ := new_ok.mp h
    exact initial_consistent _ _ _ _
  | bridge h =>
    obtain ⟨-, -, -, -, rfl⟩ := new_ok.mp h
    exact (initial_consistent _ _ _ _).intoBridge

end Contract

section Steadiness

variable {C : Codec}

def Steady (t t' : Tables N FRAME) : Prop :=
  t.connected = true → t'.connected = true ∧ t'.peer = t.peer ∧ t'.remote = t.remote

lemma Steady.refl (t : Tables N FRAME) : Steady t t := fun h => ⟨h, rfl, rfl⟩

lemma Steady.trans {t₁ t₂ t₃ : Tables N FRAME} (h : Steady t₁ t₂) (h' : Steady t₂ t₃) : Steady t₁ t₃ := by
  intro hc
  obtain ⟨hc₂, hp, hr⟩ := h hc
  obtain ⟨hc₃, hp', hr'⟩ := h' hc₂
  exact ⟨hc₃, hp'.trans hp, hr'.trans hr⟩

variable {t : Tables N FRAME} {l' : Link N FRAME}

lemma Steady.of_eq {t' : Tables N FRAME} (h : t' = t) : Steady t t' := h ▸ .refl t

lemma Steady.cancel (t : Tables N FRAME) (hash : UInt32) (seq : UInt8) : Steady t (t.cancelRequest hash seq) := by
  unfold Tables.cancelRequest
  split <;> exact fun h => ⟨h, rfl, rfl⟩

lemma Steady.start (l : Link N FRAME) : Steady l.toTables (l.ensureStarted C).toTables := by
  rw [ensureStarted_tables]
  exact fun h => ⟨h, rfl, rfl⟩

lemma Steady.adopt {p : Bytes} {c : PeerContract} (hi : Consistent t) (h : t.validateHello p = .ok c) :
    Steady t (t.adopt p c) := by
  intro hc
  obtain ⟨hello, hp, -, hr, -, rfl⟩ := validateHello_ok.mp h
  obtain ⟨old, ho⟩ := hi.peered hc
  obtain ⟨-, hh, ht⟩ := hr hc
  obtain ⟨-, hid, he⟩ := helloParse_repeats ho.parsed hp hh ht
  refine ⟨rfl, ?_, ?_⟩
  · rw [ho.peer, hid]
    rfl
  · rw [ho.remote, he]
    rfl

variable {l : Link N FRAME}

lemma onHello_steady (hi : Consistent l.toTables) (frame : Frame)
    (hev : (l.onHello C frame).1 ≠ some .disconnected) :
    Steady l.toTables (l.onHello C frame).2.toTables := by
  unfold onHello at hev ⊢
  split at hev
  · intro hc
    simp [refuseHello, hc] at hev
  · rename_i c hc
    rw [acceptHello_tables]
    exact .adopt hi hc

lemma onReply_steady (l : Link N FRAME) (frame : Frame) (event : Event) :
    Steady l.toTables (l.onReply frame event).2.toTables := by
  unfold onReply
  split_ifs
  · exact .refl _
  · exact .cancel _ _ _

lemma dispatch_steady (hi : Consistent l.toTables) (frame : Frame)
    (hev : (l.dispatch C frame).1 ≠ some .disconnected) :
    Steady l.toTables (l.dispatch C frame).2.toTables := by
  unfold dispatch at hev ⊢
  split
  · rename_i hk
    rw [hk] at hev
    exact onHello_steady hi frame hev
  · exact .refl _
  · exact .of_eq (onData_tables l frame)
  · exact .of_eq (onRequest_tables l frame)
  · exact onReply_steady l frame _
  · exact onReply_steady l frame _

lemma next_rule {Q : Tables N FRAME → Option Event → Tables N FRAME → Prop} (hr : ∀ t, Q t none t)
    (hd : ∀ (l : Link N FRAME) (frame : Frame), Consistent l.toTables →
      Q l.toTables (l.dispatch C frame).1 (l.dispatch C frame).2.toTables)
    (ht : ∀ a b c event, Q a none b → Q b event c → Q a event c) (hi : Consistent l.toTables) :
    Q (l.ensureStarted C).toTables (l.next C).1 (l.next C).2.toTables := by
  obtain ⟨hss, hs⟩ := next_start (C := C) l
  rw [← rxCompact_tables (l.ensureStarted C)]
  refine nextLoop_rule (P := fun l => l.started = true ∧ Consistent l.toTables)
    (Q := fun l event l' => Q l.toTables event l'.toTables) (fun _ _ => hr _) ?_ (fun _ _ _ => ht _ _ _) _
    ⟨hs, hss.consistent hi⟩
  rintro l event l' ⟨hs, hi⟩ h
  obtain ⟨hss, -⟩ := nextRound_steps l hs h
  refine ⟨?_, fun _ => ⟨steps_started hss hs, hss.consistent hi⟩⟩
  obtain ⟨n, -, ⟨-, rfl, stats, rfl⟩ | ⟨frame, rx, after, -, -, hf, hl'⟩⟩ := nextRound_cases l h
  · exact hr _
  · have hq := hd (l.received frame rx (n + 1)).2 (l.received frame rx (n + 1)).1 hi
    rw [hf] at hq
    rcases hl' with ⟨-, rfl⟩ | ⟨rfl, rfl⟩
    · exact hq
    · rw [rxCompact_tables]
      exact hq

lemma next_steady (hi : Consistent l.toTables) (hev : (l.next C).1 ≠ some .disconnected) :
    Steady l.toTables (l.next C).2.toTables :=
  (Steady.start l).trans (next_rule (Q := fun t event t' => event ≠ some .disconnected → Steady t t')
    (fun t _ => .refl t) (fun _ frame hi => dispatch_steady hi frame)
    (fun _ _ _ _ h h' hev => (h nofun).trans (h' hev)) hi hev)

lemma tick_steady (l : Link N FRAME) (nowMs : UInt32) (hev : (l.tick C nowMs).1 ≠ some .disconnected) :
    Steady l.toTables (l.tick C nowMs).2.toTables := by
  unfold tick at hev ⊢
  dsimp only at hev ⊢
  split_ifs at hev ⊢
  · exact Steady.start ({ l with nowMs, lastRxMs := nowMs } : Link N FRAME)
  · exact absurd rfl hev
  · exact .of_eq (emit_tables _ _ _ _ _)
  · exact .refl _
  · exact .of_eq (queueHello_tables _ _)
  · exact .refl _

lemma declare_steady (l : Link N FRAME) (name : Str) (d : PortDirection) (flag : UInt8) (ty : PortType)
    (response : Option PortType) : Steady l.toTables (l.declare name d flag ty response).2.toTables := by
  unfold declare
  cases hd : l.toTables.declare name d flag ty response with
  | error e => exact .refl _
  | ok t =>
    obtain ⟨-, port, locals, -, -, -, rfl⟩ := declare_ok hd
    exact fun h => ⟨h, rfl, rfl⟩

lemma emitRequest_steady (l : Link N FRAME) (hash : UInt32) (payload : Bytes) :
    Steady l.toTables (l.emitRequest C hash payload).2.toTables := by
  rcases emitRequest_cases (C := C) l hash payload with h | ⟨m, free, seq, h, -, -, heq⟩
  · exact .of_eq h.tables
  · intro hc
    rw [heq]
    rw [← h.tables] at hc ⊢
    exact ⟨hc, rfl, rfl⟩

lemma Performed.steady (h : Performed C l l') : Steady l.toTables l'.toTables := by
  cases h with
  | asked payload _ _ => exact emitRequest_steady l _ payload
  | cancelled hash seq => exact .cancel _ _ _
  | plain h =>
    cases h with
    | sent h => exact .of_eq h.tables
    | declared _ => exact declare_steady l _ _ _ _ _
    | drained n stats => exact Steady.start l
    | configured config => exact .refl _

lemma perform_steady (hi : Consistent l.toTables) (op : Op) (hev : (op.perform C l).1 ≠ some .disconnected) :
    Steady l.toTables (op.perform C l).2.toTables := by
  cases op with
  | feed bytes =>
    change Steady l.toTables (l.feed C bytes).2.toTables
    unfold feed
    rw [feedLoop_tables, rxCompact_tables]
    exact .start l
  | tick nowMs => exact tick_steady l nowMs hev
  | next => exact next_steady hi hev
  | _ =>
    rw [perform_apply]
    exact (apply_performed l rfl rfl).steady

end Steadiness

section Buffers

variable {C : Codec}

def Buffered (l : Link N FRAME) : Prop :=
  l.rxConsumed ≤ l.rx.length ∧ l.rx.length ≤ l.rxCap ∧ l.tx.length ≤ l.txCap

variable {l : Link N FRAME} {l' : Link N FRAME}

lemma Sends.buffered (h : Sends C l l') (hC : C.Lawful) (hb : Buffered l) : Buffered l' := by
  cases h with
  | unsent => exact hb
  | @queued header payload _ hraw hro =>
    obtain ⟨-, rfl⟩ := seal_ok.mp hraw
    have hl := hC.encode_length _ (rawOf_ne_nil (C := C) (f := (header, payload)))
    obtain ⟨hc, hr, hq⟩ := hb
    refine ⟨hc, hr, ?_⟩
    simp only [List.length_append, List.length_singleton]
    simp only [encodedMax, rawOf] at hl hro
    omega

lemma ensureStarted_buffered (hC : C.Lawful) (hb : Buffered l) : Buffered (l.ensureStarted C) := by
  unfold ensureStarted
  split_ifs
  · exact hb
  · exact (queueHello_sends _ false).buffered hC hb

lemma emitRequest_buffered (hC : C.Lawful) (hb : Buffered l) (hash : UInt32) (payload : Bytes) :
    Buffered (l.emitRequest C hash payload).2 := by
  rcases emitRequest_cases (C := C) l hash payload with h | ⟨m, free, seq, h, -, -, heq⟩
  · exact h.buffered hC hb
  · rw [heq]
    exact h.buffered hC hb

lemma rxCompact_buffered (hb : Buffered l) : Buffered l.rxCompact ∧ l.rxCompact.rxConsumed = 0 := by
  unfold rxCompact
  split_ifs with hc
  · exact ⟨⟨Nat.zero_le _, (List.drop_sublist _ _).length_le.trans hb.2.1, hb.2.2⟩, rfl⟩
  · exact ⟨hb, by omega⟩

lemma feedLoop_buffered (fuel : ℕ) (hb : Buffered l) (hc : l.rxConsumed = 0) (rest : Bytes) :
    Buffered (feedLoop fuel l rest).1 := by
  induction fuel generalizing l rest with
  | zero => exact hb
  | succ fuel ih =>
    unfold feedLoop
    split_ifs with _ _ hf _
    · exact hb
    · split
      · exact hb
      · apply ih
        · exact hb
        · exact hc
    · exact hb
    · apply ih
      · exact ⟨hc.le, Nat.zero_le _, hb.2.2⟩
      · exact hc
    · apply ih
      · refine ⟨hc.trans_le (Nat.zero_le _), ?_, hb.2.2⟩
        have hr := hb.2.1
        simp only [List.length_append, List.length_take]
        omega
      · exact hc

lemma tick_buffered (hC : C.Lawful) (hb : Buffered l) (nowMs : UInt32) : Buffered (l.tick C nowMs).2 := by
  unfold tick
  dsimp only
  split_ifs
  · apply ensureStarted_buffered hC
    exact hb
  · exact hb
  · exact (emit_sends _ _ _ _ _).buffered hC hb
  · exact hb
  · exact (queueHello_sends _ false).buffered hC hb
  · exact hb

lemma dispatch_buffered (hC : C.Lawful) (hb : Buffered l) (frame : Frame) : Buffered (l.dispatch C frame).2 := by
  obtain ⟨t, -, hs⟩ := dispatch_sends (C := C) l frame
  exact hs.buffered hC hb

lemma decodeFrame_length (hC : C.Lawful) {frameEnd : ℕ} {frame : Frame} {rx : Bytes}
    (h : l.decodeFrame C frameEnd = some (frame, rx)) : rx.length = l.rx.length := by
  unfold decodeFrame decodeInPlace at h
  cases hd : C.cobsDecode (l.rx.take frameEnd) with
  | none =>
    rw [hd] at h
    cases h
  | some raw =>
    have hl := hC.decode_length _ _ hd
    rw [hd] at h
    dsimp only at h
    repeat' split at h
    all_goals cases h
    simp only [List.length_append, List.length_drop, List.length_take] at hl ⊢
    omega

lemma nextRound_buffered (hC : C.Lawful) (hb : Buffered l) (hc : l.rxConsumed = 0) {event : Option Event}
    (h : l.nextRound C = some (event, l')) : Buffered l' ∧ (event = none → l'.rxConsumed = 0) := by
  obtain ⟨n, hn, ⟨-, rfl, stats, rfl⟩ | ⟨frame, rx, after, -, hfr, hd, hl'⟩⟩ := nextRound_cases l h
  · exact ⟨⟨hc.trans_le (Nat.zero_le _), (List.drop_sublist _ _).length_le.trans hb.2.1, hb.2.2⟩, fun _ => hc⟩
  · have hp := (List.findIdx?_eq_some_iff_getElem.mp hn).choose
    have hl := decodeFrame_length hC hfr
    have hr : Buffered (l.received frame rx (n + 1)).2 := ⟨hl.symm ▸ hp, hl.symm ▸ hb.2.1, hb.2.2⟩
    have ha := dispatch_buffered hC hr (l.received frame rx (n + 1)).1
    rw [hd] at ha
    obtain ⟨hb', hc'⟩ := rxCompact_buffered ha
    rcases hl' with ⟨hs, rfl⟩ | ⟨rfl, rfl⟩
    · exact ⟨ha, fun hno => absurd hno hs⟩
    · exact ⟨hb', fun _ => hc'⟩

lemma nextLoop_buffered (hC : C.Lawful) (fuel : ℕ) (hb : Buffered l) (hc : l.rxConsumed = 0) :
    Buffered (nextLoop C fuel l).2 := by
  refine nextLoop_rule (P := fun l => Buffered l ∧ l.rxConsumed = 0) (Q := fun _ _ l' => Buffered l')
    (fun _ h => h.1) ?_ (fun _ _ _ _ _ h => h) fuel ⟨hb, hc⟩
  rintro l event l' ⟨hb, hc⟩ h
  obtain ⟨hb', hc'⟩ := nextRound_buffered hC hb hc h
  exact ⟨hb', fun hn => ⟨hb', hc' hn⟩⟩

lemma declare_buffered (hb : Buffered l) (name : Str) (d : PortDirection) (flag : UInt8) (ty : PortType)
    (response : Option PortType) : Buffered (l.declare name d flag ty response).2 := by
  unfold declare
  split
  · exact hb
  · exact hb

lemma Performed.buffered (h : Performed C l l') (hC : C.Lawful) (hb : Buffered l) : Buffered l' := by
  cases h with
  | asked payload _ _ => exact emitRequest_buffered hC hb _ payload
  | cancelled hash seq => exact hb
  | plain h =>
    cases h with
    | sent h => exact h.buffered hC hb
    | declared _ => exact declare_buffered hb _ _ _ _ _
    | drained n stats =>
      obtain ⟨hr, hc, ht⟩ := ensureStarted_buffered hC hb
      exact ⟨hr, hc, (List.drop_sublist _ _).length_le.trans ht⟩
    | configured config => exact hb

lemma perform_buffered (hC : C.Lawful) (hb : Buffered l) (op : Op) : Buffered (op.perform C l).2 := by
  obtain ⟨hco, hc⟩ := rxCompact_buffered (ensureStarted_buffered hC hb)
  cases op with
  | feed bytes =>
    change Buffered (l.feed C bytes).2
    unfold feed
    exact feedLoop_buffered _ hco hc bytes
  | tick nowMs => exact tick_buffered hC hb nowMs
  | next => exact nextLoop_buffered hC _ hco hc
  | _ =>
    rw [perform_apply]
    exact (apply_performed l rfl rfl).buffered hC hb

lemma Opened.buffered (h : Opened l) : Buffered l := by
  cases h with
  | new h | bridge h =>
    obtain ⟨-, -, -, -, rfl⟩ := new_ok.mp h
    exact ⟨Nat.zero_le _, Nat.zero_le _, Nat.zero_le _⟩

end Buffers

section Runs

variable {C : Codec} {start l last : Link N FRAME} {ops : List Op} {events : List (Option Event)} {f : Frame}
  {l' : Link N FRAME}

lemma act_consistent (l : Link N FRAME) (op : Op) (event : Option Event) (l' : Link N FRAME)
    (hi : Consistent l.toTables) (h : act C l op = some (event, l')) : Consistent l'.toTables := by
  have hss := apply_steps l C op
  rw [← perform_apply, Option.some.inj h] at hss
  exact TableSteps.consistent hss hi

lemma act_buffered (hC : C.Lawful) (l : Link N FRAME) (op : Op) (event : Option Event) (l' : Link N FRAME)
    (hb : Buffered l) (h : act C l op = some (event, l')) : Buffered l' := by
  have hb' := perform_buffered hC hb op
  rwa [Option.some.inj h] at hb'

lemma run_steady (hi : Consistent l.toTables) (hrun : run (act C) l ops = some (events, last))
    (hevs : some .disconnected ∉ events) : Steady l.toTables last.toTables := by
  induction ops generalizing l events with
  | nil =>
    cases hrun
    exact .refl _
  | cons op ops ih =>
    obtain ⟨event, l', rest, ha, hr, rfl⟩ := run_cons.mp hrun
    rw [List.mem_cons, not_or] at hevs
    have hs := perform_steady (C := C) hi op
    rw [Option.some.inj ha] at hs
    exact (hs fun he => hevs.1 he.symm).trans (ih (act_consistent l op event l' hi ha) hr hevs.2)

lemma dispatch_connected {frame : Frame} (h : l.dispatch C frame = (some (.connected f), l')) :
    l'.connected = true := by
  unfold dispatch at h
  split at h
  · unfold onHello at h
    split at h
    · simp only [refuseHello, Prod.mk.injEq] at h
      split_ifs at h <;> cases h.1
    · rename_i c _
      have ht := @acceptHello_tables N FRAME C l frame (l.rxPayload frame.len) c
      rw [h] at ht
      exact congrArg Tables.connected ht
  · cases h
  · unfold onData at h
    split_ifs at h <;> cases h
  · unfold onRequest at h
    dsimp only at h
    split_ifs at h <;> cases h
  · unfold onReply at h
    split_ifs at h <;> cases h
  · unfold onReply at h
    split_ifs at h <;> cases h

lemma perform_connected {op : Op} (h : op.perform C l = (some (.connected f), l')) : l'.connected = true := by
  cases op with
  | tick nowMs =>
    simp only [Op.perform, tick] at h
    split_ifs at h <;> cases h
  | next =>
    obtain ⟨m, frame, -, -, -, hd⟩ := next_event l h
    exact dispatch_connected hd
  | _ => cases h

structure Sound (l : Link N FRAME) : Prop where
  peer : l.connected = true ↔ ∃ id, l.peer = some id
  hello : l.connected = true ↔ l.peerHello ≠ [] ∧ ∃ hello, helloParse l.peerHello = .ok hello
  contract : l.connected = true → ∀ hello, helloParse l.peerHello = .ok hello →
    l.peer = some hello.id ∧ l.remote = hello.entries.map remoteOf ∧ l.peerBridge = hello.bridge
  alone : l.connected = false → l.remote = [] ∧ l.pending = Vector.replicate N none ∧ l.peerBridge = false
  distinct : ∀ (i j : Fin N) (p : UInt32 × UInt8), getElem l.pending i i.isLt = some p →
    getElem l.pending j j.isLt = some p → i = j
  consumed : l.rxConsumed ≤ l.rx.length
  received : l.rx.length ≤ l.rxCap
  queued : l.tx.length ≤ l.txCap

lemma Consistent.pending_empty {t : Tables N FRAME} (hi : Consistent t) (hc : t.connected = false) :
    t.pending = Vector.replicate N none := by
  ext i hi' p
  rw [Vector.getElem_replicate]
  constructor
  · intro hp
    exact absurd (hp ▸ Vector.getElem_mem hi') (hi.unasked hc p)
  · rintro ⟨⟩

lemma Consistent.sound (hi : Consistent l.toTables) (hb : Buffered l) : Sound l := by
  obtain ⟨hu, hre, hq⟩ := hb
  cases hc : l.connected with
  | false =>
    obtain ⟨hh, hpe, hr, hbr⟩ := hi.alone hc
    refine ⟨?_, ?_, ?_, fun _ => ⟨hr, hi.pending_empty hc, hbr⟩, hi.distinct, hu, hre, hq⟩
    · simp [hc, hpe]
    · simp [hc, hh]
    · simp [hc]
  | true =>
    obtain ⟨hello, hhe⟩ := hi.peered hc
    have hne : l.peerHello ≠ [] := by
      intro hn
      have hp := hhe.parsed
      rw [hn] at hp
      cases hp
    refine ⟨?_, ?_, ?_, ?_, hi.distinct, hu, hre, hq⟩
    · simp [hc, hhe.peer]
    · simp [hc, hne, hhe.parsed]
    · intro _ he' hp
      cases hhe.parsed.symm.trans hp
      exact ⟨hhe.peer, hhe.remote, hhe.bridge⟩
    · simp [hc]

theorem link_state_invariant (hC : C.Lawful) (hstart : Opened start)
    (hrun : run (act C) start ops = some (events, l)) :
    Sound l ∧ ∀ (op : Op) (f : Frame) (l₁ : Link N FRAME), op.perform C l = (some (.connected f), l₁) →
      ∀ ops' events' l₂, run (act C) l₁ ops' = some (events', l₂) → some .disconnected ∉ events' →
        l₂.peer = l₁.peer ∧ l₂.remote = l₁.remote := by
  have hi : Consistent l.toTables :=
    run_invariant (P := fun l => Consistent l.toTables) act_consistent hstart.consistent hrun
  have hb : Buffered l := run_invariant (act_buffered hC) hstart.buffered hrun
  refine ⟨hi.sound hb, ?_⟩
  intro op f l₁ hop ops' events' l₂ hr' he
  have hi₁ := act_consistent l op _ l₁ hi (congrArg some hop)
  exact (run_steady hi₁ hr' he (perform_connected hop)).2

def greeting : Bytes :=
  wireBytes standard (⟨.hello, 0, 0⟩, helloBytes false false boardId board.localEntries)

def greeted : Link 2 64 := Op.apply standard host (.feed greeting)

theorem link_state_invariant_greeted : ∃ f l₁, Op.next.perform standard greeted = (some (.connected f), l₁) ∧
    l₁.peer = some boardId ∧ Sound greeted ∧
      ∀ ops events l₂, run (act standard) l₁ ops = some (events, l₂) → some .disconnected ∉ events →
        l₂.peer = some boardId ∧ l₂.remote = l₁.remote := by
  have hnew : Opened (initial hostId hostPorts 200 200 : Link 2 64) :=
    .new (new_ok.mpr ⟨by decide, by decide, by decide, by decide, rfl⟩)
  have hr : run (act standard) (initial hostId hostPorts 200 200 : Link 2 64)
      [.subscribes poseType posePort, .feed greeting] = some ([none, none], greeted) :=
    run_cons.mpr ⟨none, host, [none], rfl, run_cons.mpr ⟨none, greeted, [], rfl, rfl, rfl⟩, rfl⟩
  obtain ⟨hs, hst⟩ := link_state_invariant standard_lawful hnew hr
  have hn : (Op.next.perform standard greeted).1 = some (.connected ⟨.hello, 0, 0, 25, 1⟩) := by
    decide +kernel
  have hpe : (Op.next.perform standard greeted).2.peer = some boardId := by
    decide +kernel
  cases hp : Op.next.perform standard greeted with
  | mk event l₁ =>
    rw [hp] at hn hpe
    subst hn
    refine ⟨_, l₁, rfl, hpe, hs, ?_⟩
    intro ops events l₂ hr' he
    rw [← hpe]
    exact hst .next _ l₁ hp ops events l₂ hr' he

end Runs

end Reiny.Link
