import Reiny.Lib.Reassembly
import Reiny.Link.Quiescence

namespace Reiny.Link

open Lib Words Results Delimited Reassembly Wire HelloFormat Ports State List

variable {N FRAME : ℕ}

def segmentFrame (C : Codec) (FRAME : ℕ) (segment : Bytes) : Option WireFrame := do
  let raw ← C.cobsDecode segment
  if raw.length ≤ FRAME then (parse C raw).toOption else none

-- The length of a payload is kept in sixteen bits.
def short (f : WireFrame) : Bool := f.2.length ≤ 65535

def decodedFrame (C : Codec) (FRAME : ℕ) (segment : Bytes) : Option WireFrame :=
  (segmentFrame C FRAME segment).filter short

section Counting

variable (read : Bytes → Option WireFrame)

def framesOf (segments : List Bytes) : List WireFrame := (segments.filter (· ≠ [])).filterMap read

def failures (segments : List Bytes) : ℕ := (segments.filter (· ≠ [])).countP fun segment => (read segment).isNone

lemma framesOf_append (segments segments' : List Bytes) :
    framesOf read (segments ++ segments') = framesOf read segments ++ framesOf read segments' := by
  rw [framesOf, filter_append, filterMap_append, framesOf, framesOf]

lemma failures_append (segments segments' : List Bytes) :
    failures read (segments ++ segments') = failures read segments + failures read segments' := by
  rw [failures, filter_append, countP_append, failures, failures]

end Counting

abbrev Call (N FRAME : ℕ) := Frame × Link N FRAME

def Call.frame (call : Call N FRAME) : WireFrame :=
  (⟨call.1.kind, call.1.hash, call.1.seq⟩, call.2.rxPayload call.1.len)

section Hellos

def refuses (t : Tables N FRAME) (f : WireFrame) : Bool := f.1.kind = .hello && !(t.validateHello f.2).isOk

-- What a frame makes of the tables that the next Hello is checked against.
def greet (t : Tables N FRAME) (f : WireFrame) : Tables N FRAME :=
  if f.1.kind = .hello then
    match t.validateHello f.2 with
    | .error _ => t.forgetPeer
    | .ok contract => t.adopt f.2 contract
  else t

def refusals : Tables N FRAME → List WireFrame → ℕ
  | _, [] => 0
  | t, f :: frames => (refuses t f).toNat + refusals (greet t f) frames

def settled (t : Tables N FRAME) : Tables N FRAME := { t with pending := Vector.replicate N none, started := false }

variable (t : Tables N FRAME)

lemma checkEntries_settled (hello : Hello) (index : ℕ) (entries : List HelloEntry) :
    (settled t).checkEntries hello index entries = t.checkEntries hello index entries := by
  induction entries generalizing index with
  | nil => rfl
  | cons entry entries ih =>
    rw [Tables.checkEntries, Tables.checkEntries]
    simp only [ih]
    rfl

lemma validateHello_settled (payload : Bytes) : (settled t).validateHello payload = t.validateHello payload := by
  unfold Tables.validateHello
  simp only [checkEntries_settled]
  rfl

lemma greet_settled (f : WireFrame) : greet (settled t) f = settled (greet t f) := by
  unfold greet
  rw [validateHello_settled]
  split_ifs
  · cases t.validateHello f.2 <;> rfl
  · rfl

lemma foldl_settled (frames : List WireFrame) : frames.foldl greet (settled t) = settled (frames.foldl greet t) :=
  foldl_hom settled greet_settled

lemma refusals_settled (frames : List WireFrame) : refusals (settled t) frames = refusals t frames := by
  induction frames generalizing t with
  | nil => rfl
  | cons f frames ih => rw [refusals, refusals, greet_settled, ih, refuses, refuses, validateHello_settled]

lemma refusals_append (frames more : List WireFrame) :
    refusals t (frames ++ more) = refusals t frames + refusals (frames.foldl greet t) more := by
  induction frames generalizing t with
  | nil => rw [nil_append, refusals, Nat.zero_add, foldl_nil]
  | cons f frames ih => rw [cons_append, refusals, refusals, ih, foldl_cons, Nat.add_assoc]

end Hellos

def roundCall (C : Codec) (l : Link N FRAME) : Option (Call N FRAME) :=
  match l.rx.findIdx? (· == DELIMITER) with
  | none => none
  | some 0 => none
  | some frameEnd => (l.decodeFrame C frameEnd).map fun (frame, rx) => l.received frame rx (frameEnd + 1)

lemma nextRound_call {C : Codec} {l l' : Link N FRAME} {event : Option Event}
    (h : l.nextRound C = some (event, l')) :
    l.roundCall C = none ∧ event = none ∧ (∃ n stats, l' = rxDiscard { l with stats } n) ∨
    ∃ frame rx n after, l.roundCall C = some (l.received frame rx (n + 1)) ∧
      (l.received frame rx (n + 1)).2.dispatch C (l.received frame rx (n + 1)).1 = (event, after) ∧
      (event ≠ none ∧ l' = after ∨ event = none ∧ l' = after.rxCompact) := by
  obtain ⟨n, hn, ⟨hno, rfl, stats, rfl⟩ | ⟨frame, rx, after, hne, hdec, hd, hl'⟩⟩ := nextRound_cases l h
  · refine .inl ⟨?_, rfl, n + 1, stats, rfl⟩
    rw [roundCall, hn]
    rcases n with _ | n
    · rfl
    · exact Option.map_eq_none_iff.mpr (hno.resolve_left nofun)
  · refine .inr ⟨frame, rx, n, after, ?_, hd, hl'⟩
    rw [roundCall, hn]
    rcases n with _ | n
    · exact absurd rfl hne
    · exact Option.map_eq_some_iff.mpr ⟨_, hdec, rfl⟩

def loopCalls (C : Codec) : ℕ → Link N FRAME → List (Call N FRAME)
  | 0, _ => []
  | fuel + 1, l =>
    match l.nextRound C with
    | none => []
    | some (some _, _) => (l.roundCall C).toList
    | some (none, l') => (l.roundCall C).toList ++ loopCalls C fuel l'

def nextCalls (C : Codec) (l : Link N FRAME) : List (Call N FRAME) :=
  let l := (l.ensureStarted C).rxCompact
  loopCalls C (l.rx.length + 1) l

structure RxPart where
  rx : Bytes
  cap : ℕ
  consumed : ℕ
  skip : Bool
  overflow : UInt32
  bad : UInt32

def rxPart (l : Link N FRAME) : RxPart :=
  ⟨l.rx, l.rxCap, l.rxConsumed, l.rxSkip, l.stats.rxOverflow, l.stats.badFrames⟩

variable {C : Codec} {l : Link N FRAME}

@[simp] lemma emit_rxPart (kind : Kind) (hash : UInt32) (seq : UInt8) (payload : Bytes) :
    (l.emit C kind hash seq payload).2.rxPart = l.rxPart := emit_keeps l (fun _ _ _ _ => rfl) kind hash seq payload

@[simp] lemma queueHello_rxPart (ack : Bool) : (l.queueHello C ack).2.rxPart = l.rxPart :=
  queueHello_keeps l (fun _ _ _ _ => rfl) ack

@[simp] lemma ensureStarted_rxPart : (l.ensureStarted C).rxPart = l.rxPart :=
  ensureStarted_keeps l (fun _ _ _ _ => rfl) fun _ => rfl

def RxPart.countBad (p : RxPart) (refused : Bool) : RxPart := if refused then { p with bad := p.bad + 1 } else p

lemma RxPart.countBad_same (p : RxPart) (refused : Bool) :
    (p.countBad refused).cap = p.cap ∧ (p.countBad refused).overflow = p.overflow ∧
    (p.countBad refused).rx = p.rx := by
  cases refused <;> exact ⟨rfl, rfl, rfl⟩

lemma refuseHello_rxPart (e : Error) : (l.refuseHello e).2.rxPart = l.rxPart.countBad true := by
  change (l.badFrame.countOverflow e).rxPart = _
  unfold countOverflow
  split_ifs <;> rfl

lemma onHello_rxPart (frame : Frame) : (l.onHello C frame).2.rxPart =
    l.rxPart.countBad (!(l.validateHello (l.rxPayload frame.len)).isOk) := by
  unfold onHello
  cases hv : l.validateHello (l.rxPayload frame.len) with
  | error e => exact refuseHello_rxPart e
  | ok contract =>
    simp only [acceptHello]
    split_ifs
    · rfl
    · exact queueHello_rxPart true

lemma onRequest_rxPart (frame : Frame) : (l.onRequest C frame).2.rxPart = l.rxPart := by
  unfold onRequest
  dsimp only
  split_ifs
  · exact emit_rxPart _ _ _ _
  · rfl
  · exact emit_rxPart _ _ _ _

lemma onReply_rxPart (frame : Frame) (event : Event) : (l.onReply frame event).2.rxPart = l.rxPart := by
  unfold onReply
  split_ifs <;> rfl

lemma onData_rxPart (frame : Frame) : (l.onData frame).2.rxPart = l.rxPart := by
  unfold onData
  split_ifs <;> rfl

lemma dispatch_rxPart (call : Call N FRAME) :
    (call.2.dispatch C call.1).2.rxPart = call.2.rxPart.countBad (refuses call.2.toTables call.frame) := by
  unfold dispatch refuses Call.frame
  dsimp only
  cases call.1.kind with
  | hello => exact onHello_rxPart call.1
  | ping => rfl
  | data => exact onData_rxPart call.1
  | request => exact onRequest_rxPart call.1
  | reply | error => exact onReply_rxPart call.1 _

lemma onReply_settled (frame : Frame) (event : Event) :
    settled (l.onReply frame event).2.toTables = settled l.toTables := by
  unfold onReply
  split_ifs
  · rfl
  · change settled (l.toTables.cancelRequest frame.hash frame.seq) = _
    unfold Tables.cancelRequest
    split <;> rfl

lemma dispatch_settled (call : Call N FRAME) :
    settled (call.2.dispatch C call.1).2.toTables = settled (greet call.2.toTables call.frame) := by
  unfold dispatch greet Call.frame
  dsimp only
  cases call.1.kind with
  | hello =>
    dsimp only [onHello]
    cases call.2.validateHello (call.2.rxPayload call.1.len) with
    | error e => rfl
    | ok contract => exact congrArg settled (acceptHello_tables _ _ _ _)
  | ping => rfl
  | data => exact congrArg settled (onData_tables _ _)
  | request => exact congrArg settled (onRequest_tables _ _)
  | reply | error => exact onReply_settled call.1 _

variable {l' : Link N FRAME} {chunk rest : Bytes} {rx : Bytes}

section

variable (hrx : l.rx = chunk ++ DELIMITER :: rest)

include hrx

lemma decodeFrame_eq : l.decodeFrame C chunk.length = do
    let raw ← C.cobsDecode chunk
    let f ← (if raw.length ≤ FRAME then (parse C raw).toOption else none).filter short
    return (⟨f.1.kind, f.1.hash, f.1.seq, f.2.length, 0⟩, raw ++ l.rx.drop raw.length) := by
  have ht : l.rx.take chunk.length = chunk := by rw [hrx, take_left' rfl]
  simp only [decodeFrame, ht, decodeInPlace]
  cases C.cobsDecode chunk with
  | none => rfl
  | some raw =>
    by_cases hl : raw.length ≤ FRAME
    · simp only [not_lt.mpr hl, if_false, hl, if_true, Option.bind_eq_bind, Option.bind_some]
      cases parse C raw with
      | error e => rfl
      | ok f =>
        by_cases hs : f.2.length ≤ 65535
        · simp [Except.toOption, Option.filter, short, hs]
        · simp [Except.toOption, Option.filter, short, hs]
    · simp [Nat.lt_of_not_le hl, hl]

lemma decodeFrame_none (h : l.decodeFrame C chunk.length = none) : decodedFrame C FRAME chunk = none := by
  rw [decodeFrame_eq hrx] at h
  cases hd : C.cobsDecode chunk with
  | none => simp [decodedFrame, segmentFrame, hd]
  | some raw =>
    rw [hd] at h
    simpa [decodedFrame, segmentFrame, hd] using h

lemma decodeFrame_some {frame : Frame} (h : l.decodeFrame C chunk.length = some (frame, rx)) :
    ∃ f raw, decodedFrame C FRAME chunk = some f ∧
      C.cobsDecode chunk = some raw ∧ rx = raw ++ l.rx.drop raw.length ∧
      frame = ⟨f.1.kind, f.1.hash, f.1.seq, f.2.length, 0⟩ ∧ (rx.drop HEADER).take frame.len = f.2 := by
  obtain ⟨g, raw, hg, hr, hrx', -, hl, hpay⟩ := decodeFrame_frameOf hrx h
  rw [decodeFrame_eq hrx, hr] at h
  simp only [Option.bind_eq_bind, Option.bind_some, Option.bind_eq_some_iff, Option.pure_def, Option.some.injEq,
    Prod.mk.injEq] at h
  obtain ⟨f, hf, hfr, -⟩ := h
  have hs : g = f := by
    have hp : (parse C raw).toOption = some f := by
      have := (Option.filter_eq_some_iff.mp hf).1
      split_ifs at this
      exact this
    have : frameOf C chunk = some f := by rw [frameOf, hr]; exact hp
    exact Option.some.inj (hg.symm.trans this)
  subst hs
  refine ⟨g, raw, ?_, hr, hrx', hfr.symm, hpay⟩
  rw [decodedFrame, segmentFrame, hr]
  exact hf

end

structure TakesSegment (C : Codec) (l : Link N FRAME) (chunk rest : Bytes) (l' : Link N FRAME) : Prop where
  whole : DELIMITER ∉ chunk
  taken : l.rx = chunk ++ DELIMITER :: rest
  left : l'.rx.drop l'.rxConsumed = rest
  cap : l'.rxCap = l.rxCap
  skip : l'.rxSkip = l.rxSkip
  frames : (l.roundCall C).toList.map Call.frame = framesOf (decodedFrame C FRAME) [chunk]
  overflow : l'.stats.rxOverflow = l.stats.rxOverflow
  bad : l'.stats.badFrames = l.stats.badFrames +
    UInt32.ofNat
      (failures (decodedFrame C FRAME) [chunk] + refusals l.toTables (framesOf (decodedFrame C FRAME) [chunk]))
  tables : settled l'.toTables = settled ((framesOf (decodedFrame C FRAME) [chunk]).foldl greet l.toTables)

lemma received_frame {frame : Frame} {f : WireFrame} {consumed : ℕ}
    (hfr : frame = ⟨f.1.kind, f.1.hash, f.1.seq, f.2.length, 0⟩)
    (hp : (rx.drop HEADER).take frame.len = f.2) : Call.frame (l.received frame rx consumed) = f := by
  subst hfr
  exact Prod.ext rfl hp

lemma nextRound_found (hw : DELIMITER ∉ chunk) (hrx : l.rx = chunk ++ DELIMITER :: rest) :
    chunk = [] ∧ l.roundCall C = none ∧ l.nextRound C = some (none, l.rxDiscard 1) ∨
    chunk ≠ [] ∧ l.decodeFrame C chunk.length = none ∧ l.roundCall C = none ∧
      l.nextRound C = some (none, l.badFrame.rxDiscard (chunk.length + 1)) ∨
    chunk ≠ [] ∧ ∃ frame rx, l.decodeFrame C chunk.length = some (frame, rx) ∧
      l.roundCall C = some (l.received frame rx (chunk.length + 1)) ∧
      l.nextRound C = some (settle ((l.received frame rx (chunk.length + 1)).2.dispatch C
        (l.received frame rx (chunk.length + 1)).1)) := by
  have hf : l.rx.findIdx? (· == DELIMITER) = some chunk.length := by
    rw [hrx, find_chunk hw]
  cases chunk with
  | nil =>
    refine .inl ⟨rfl, ?_, ?_⟩
    · rw [roundCall, hf]
      rfl
    · rw [nextRound, hf]
      rfl
  | cons b chunk =>
    have hc : l.roundCall C = (l.decodeFrame C (b :: chunk).length).map
        fun (frame, rx) => l.received frame rx ((b :: chunk).length + 1) := by
      rw [roundCall, hf]
      rfl
    rw [nextRound, hf]
    cases hd : l.decodeFrame C (b :: chunk).length with
    | none =>
      rw [hd] at hc
      refine .inr (.inl ⟨cons_ne_nil _ _, rfl, hc, ?_⟩)
      rw [length_cons] at hd ⊢
      simp only [hd]
    | some decoded =>
      rw [hd] at hc
      refine .inr (.inr ⟨cons_ne_nil _ _, decoded.1, decoded.2, rfl, hc, ?_⟩)
      rw [length_cons] at hd ⊢
      simp only [hd]

lemma rxCompact_counters (l : Link N FRAME) :
    l.rxCompact.rxCap = l.rxCap ∧ l.rxCompact.stats = l.stats ∧ l.rxCompact.toTables = l.toTables := by
  unfold rxCompact
  split_ifs <;> exact ⟨rfl, rfl, rfl⟩

lemma settle_counters (event : Option Event) (l : Link N FRAME) : (settle (event, l)).2.rxCap = l.rxCap ∧
    (settle (event, l)).2.stats = l.stats ∧ (settle (event, l)).2.toTables = l.toTables := by
  cases event with
  | some event => exact ⟨rfl, rfl, rfl⟩
  | none => exact rxCompact_counters l

lemma nextRound_takes (hC : C.Lawful) (hu : l.rxConsumed = 0) {event : Option Event}
    (h : l.nextRound C = some (event, l')) :
    (∃ chunk rest, TakesSegment C l chunk rest l') ∧ (event = none → l'.rxConsumed = 0) := by
  obtain ⟨⟨chunk, rest, hrd⟩, hno⟩ := nextRound_round hC hu h
  refine ⟨⟨chunk, rest, ?_⟩, hno⟩
  rcases @nextRound_found N FRAME C l chunk rest hrd.whole hrd.taken with ⟨rfl, hc, hn⟩ |
    ⟨hne, hd, hc, hn⟩ | ⟨hne, frame, rx, hd, hc, hn⟩
  · rw [h] at hn
    cases hn
    refine ⟨hrd.whole, hrd.taken, hrd.left, rfl, rfl, ?_, rfl, (UInt32.add_zero _).symm, rfl⟩
    rw [hc]
    rfl
  · rw [h] at hn
    cases hn
    have hfa := decodeFrame_none hrd.taken hd
    have hno : framesOf (decodedFrame C FRAME) [chunk] = [] := by simp [framesOf, hne, hfa]
    refine ⟨hrd.whole, hrd.taken, hrd.left, rfl, rfl, ?_, rfl, ?_, ?_⟩
    · rw [hc, hno]
      rfl
    · simp [hno, refusals, failures, hne, hfa, badFrame, rxDiscard]
    · rw [hno]
      rfl
  · obtain ⟨f, raw, hf, hraw, -, hfr, hpay⟩ := decodeFrame_some hrd.taken hd
    have hw := @received_frame N FRAME l rx frame f (chunk.length + 1) hfr hpay
    have hp := @dispatch_rxPart N FRAME C (l.received frame rx (chunk.length + 1))
    have hta := @dispatch_settled N FRAME C (l.received frame rx (chunk.length + 1))
    have hsa : (l.received frame rx (chunk.length + 1)).2.rxPart =
      { l.rxPart with rx, consumed := chunk.length + 1 } := rfl
    have hsame : (l.received frame rx (chunk.length + 1)).2.toTables = l.toTables := rfl
    rw [h] at hn
    generalize l.received frame rx (chunk.length + 1) = call at *
    have hl' : l' = (settle (call.2.dispatch C call.1)).2 := congrArg Prod.snd (Option.some.inj hn)
    obtain ⟨hcap, hs, ht⟩ := settle_counters (call.2.dispatch C call.1).1 (call.2.dispatch C call.1).2
    rw [Prod.mk.eta, ← hl'] at hcap hs ht
    rw [hsa, hsame, hw] at hp
    rw [hsame, hw] at hta
    have hone : framesOf (decodedFrame C FRAME) [chunk] = [f] := by simp [framesOf, hne, hf]
    refine ⟨hrd.whole, hrd.taken, hrd.left, ?_, hrd.skip, ?_, ?_, ?_, ?_⟩
    · exact hcap.trans ((congrArg RxPart.cap hp).trans (RxPart.countBad_same _ _).1)
    · simp [hc, hone, hw]
    · rw [hs]
      exact (congrArg RxPart.overflow hp).trans (RxPart.countBad_same _ _).2.1
    · have hr : failures (decodedFrame C FRAME) [chunk] = 0 := by simp [failures, hne, hf]
      rw [hs, hone, hr, Nat.zero_add]
      refine (congrArg RxPart.bad hp).trans ?_
      cases href : refuses l.toTables f with
      | false | true => simp [RxPart.countBad, rxPart, refusals, href]
    · rw [ht, hone, hta]
      rfl

variable {base : Link N FRAME} {stream ahead : Bytes} {calls : List (Call N FRAME)}

def Reassembled (C : Codec) (base l : Link N FRAME) (stream ahead : Bytes) (calls : List (Call N FRAME)) : Prop :=
  ∃ handled dropped, Passed DELIMITER base.rxCap stream ahead (l.rx.drop l.rxConsumed) l.rxSkip handled dropped ∧
    l.rxCap = base.rxCap ∧ calls.map Call.frame = framesOf (decodedFrame C FRAME) handled ∧
    l.stats.rxOverflow = base.stats.rxOverflow + UInt32.ofNat dropped ∧
    l.stats.badFrames = base.stats.badFrames +
      UInt32.ofNat (failures (decodedFrame C FRAME) handled +
        refusals base.toTables (framesOf (decodedFrame C FRAME) handled)) ∧
    settled l.toTables = settled ((framesOf (decodedFrame C FRAME) handled).foldl greet base.toTables)

lemma reassembled_start (hrx : base.rx = []) (hs : base.rxSkip = false) : Reassembled C base base [] [] [] := by
  refine ⟨[], 0, ?_, rfl, rfl, (UInt32.add_zero _).symm, (UInt32.add_zero _).symm, rfl⟩
  rw [hrx, hs, drop_nil]
  exact passed_start

lemma Reassembled.announce (h : Reassembled C base l stream [] calls) :
    Reassembled C base l stream ahead calls := by
  obtain ⟨ha, dropped, hp, hr⟩ := h
  exact ⟨ha, dropped, hp.announce, hr⟩

lemma Reassembled.congr (h : Reassembled C base l stream ahead calls)
    (hu : l'.rx.drop l'.rxConsumed = l.rx.drop l.rxConsumed)
    (hs : l'.rxSkip = l.rxSkip) (hcap : l'.rxCap = l.rxCap) (hov : l'.stats.rxOverflow = l.stats.rxOverflow)
    (hbad : l'.stats.badFrames = l.stats.badFrames) (ht : settled l'.toTables = settled l.toTables) :
    Reassembled C base l' stream ahead calls := by
  obtain ⟨ha, dropped, hp, hc, hf, ho, hb, ht'⟩ := h
  exact ⟨ha, dropped, by rwa [hu, hs], hcap.trans hc, hf, hov.trans ho, hbad.trans hb, ht.trans ht'⟩

lemma Reassembled.start (h : Reassembled C base l stream ahead calls) :
    Reassembled C base (l.ensureStarted C).rxCompact stream ahead calls := by
  have hp := @ensureStarted_rxPart N FRAME C l
  obtain ⟨hcap, hs, ht⟩ := rxCompact_counters (l.ensureStarted C)
  have hc := @rxCompact_core N FRAME (l.ensureStarted C)
  apply h.congr
  · refine (congrArg Core.unread hc).trans ?_
    exact congrArg (fun p => p.rx.drop p.consumed) hp
  · exact (congrArg Core.rxSkip hc).trans (congrArg RxPart.skip hp)
  · exact hcap.trans (congrArg RxPart.cap hp)
  · rw [hs]
    exact congrArg RxPart.overflow hp
  · rw [hs]
    exact congrArg RxPart.bad hp
  · rw [ht, ensureStarted_tables]
    rfl

variable {bytes : Bytes}

lemma feedLoop_reassembled (fuel : ℕ) (hu : l.rxConsumed = 0)
    (h : Reassembled C base l stream bytes calls) : ∃ taken, bytes = taken ++ (feedLoop fuel l bytes).2 ∧
      Reassembled C base (feedLoop fuel l bytes).1 (stream ++ taken) (feedLoop fuel l bytes).2 calls := by
  induction fuel generalizing l stream bytes with
  | zero => exact ⟨[], rfl, by rwa [append_nil]⟩
  | succ fuel ih =>
    obtain ⟨ha, dropped, hp, hc, hfrs, ho, hb⟩ := h
    rw [hu, drop_zero] at hp
    unfold feedLoop
    by_cases hbs : bytes = []
    · subst hbs
      refine ⟨[], rfl, ha, dropped, ?_, hc, hfrs, ho, hb⟩
      rwa [if_pos rfl, append_nil, hu]
    rw [if_neg hbs]
    by_cases hs : l.rxSkip = true
    · rw [if_pos hs]
      rw [hs] at hp
      rcases dropWhile_cases DELIMITER bytes with ⟨hno, hd⟩ | ⟨chunk, after, hch, rfl, hd⟩
      · rw [hd]
        refine ⟨bytes, (append_nil _).symm, ha, dropped, ?_, hc, hfrs, ho, hb⟩
        rw [hu, hs]
        exact hp.skipped hno
      · rw [hd]
        obtain ⟨taken, ht, hr⟩ := @ih { l with rxSkip := false } (stream ++ (chunk ++ [DELIMITER])) after hu
          ⟨ha, dropped, by rw [hu]; exact hp.found hch, hc, hfrs, ho, hb⟩
        refine ⟨chunk ++ [DELIMITER] ++ taken, ?_, ?_⟩
        · dsimp only
          rw [append_assoc, append_assoc, ← ht]
          rfl
        · rw [append_assoc] at hr
          exact hr
    rw [if_neg hs]
    have hop : l.rxSkip = false := by simpa using hs
    rw [hop] at hp
    by_cases hf : l.rxCap - l.rx.length = 0
    · rw [if_pos hf]
      by_cases hh : DELIMITER ∈ l.rx
      · rw [if_pos hh]
        refine ⟨[], rfl, ha, dropped, ?_, hc, hfrs, ho, hb⟩
        rwa [append_nil, hu, hop]
      · rw [if_neg hh]
        -- the buffer is given up, and the next round skips at least one byte
        have hg := hp.overflow (by omega) hh hbs
        apply @ih { l.countRxOverflow with rx := [], rxSkip := true } stream bytes hu
        refine ⟨ha, dropped + 1, ?_, hc, hfrs, ?_, hb⟩
        · change Passed DELIMITER base.rxCap stream bytes (([] : Bytes).drop l.rxConsumed) true ha (dropped + 1)
          rwa [drop_nil]
        · change l.stats.rxOverflow + 1 = _
          rw [ho, UInt32.ofNat_add, UInt32.add_assoc]
          rfl
    · rw [if_neg hf]
      set n := min (l.rxCap - l.rx.length) bytes.length with hn
      have hsp := take_append_drop n bytes
      have hap := @Passed.append _ DELIMITER base.rxCap stream (bytes.drop n) l.rx ha dropped (bytes.take n)
        (by rwa [hsp]) (by rw [length_take]; omega)
      obtain ⟨taken, ht, hr⟩ := @ih { l with rx := l.rx ++ bytes.take n } (stream ++ bytes.take n) (bytes.drop n)
        hu ⟨ha, dropped, by rw [hu, hop]; exact hap, hc, hfrs, ho, hb⟩
      refine ⟨bytes.take n ++ taken, ?_, ?_⟩
      · dsimp only
        rw [append_assoc, ← ht, hsp]
      · rw [append_assoc] at hr
        exact hr

lemma feedLoop_skips (fuel : ℕ) (hbs : bytes ≠ []) (hs : l.rxSkip = true) :
    (feedLoop (fuel + 1) l bytes).2.length < bytes.length := by
  rw [feedLoop, if_neg hbs, if_pos hs]
  rcases dropWhile_cases DELIMITER bytes with ⟨-, hd⟩ | ⟨chunk, after, -, rfl, hd⟩
  · rw [hd]
    exact length_pos_iff.mpr hbs
  · rw [hd]
    have hle := (@feedLoop_suffix N FRAME { l with rxSkip := false } fuel after).length_le
    simp only [length_append, length_cons]
    omega

lemma feedLoop_progress (fuel : ℕ) (hbs : bytes ≠ []) (hh : DELIMITER ∉ l.rx) :
    (feedLoop (fuel + 2) l bytes).2.length < bytes.length := by
  by_cases hs : l.rxSkip = true
  · exact feedLoop_skips (fuel + 1) hbs hs
  rw [feedLoop, if_neg hbs, if_neg hs]
  by_cases hf : l.rxCap - l.rx.length = 0
  · rw [if_pos hf, if_neg hh]
    exact feedLoop_skips fuel hbs rfl
  · rw [if_neg hf]
    have hp := length_pos_iff.mpr hbs
    have hle := (@feedLoop_suffix N FRAME
      { l with rx := l.rx ++ bytes.take (min (l.rxCap - l.rx.length) bytes.length) }
      (fuel + 1) (bytes.drop (min (l.rxCap - l.rx.length) bytes.length))).length_le
    rw [length_drop] at hle
    exact hle.trans_lt (by omega)

lemma start_unread : (l.ensureStarted C).rxCompact.rx = l.rx.drop l.rxConsumed := by
  have hc : (l.ensureStarted C).rxCompact.core.unread = (l.ensureStarted C).core.unread :=
    congrArg Core.unread rxCompact_core
  rw [core, rxCompact_consumed, drop_zero] at hc
  refine Eq.trans hc ?_
  exact congrArg (fun p => p.rx.drop p.consumed) (ensureStarted_rxPart (C := C) (l := l))

lemma feed_progress (hbs : bytes ≠ []) (hh : DELIMITER ∉ l.rx.drop l.rxConsumed) : 0 < (l.feed C bytes).1 := by
  rw [← start_unread (C := C)] at hh
  have hpos := length_pos_iff.mpr hbs
  have hp := feedLoop_progress (2 * bytes.length - 1) hbs hh
  rw [show 2 * bytes.length - 1 + 2 = 2 * bytes.length + 1 by omega] at hp
  simp only [feed]
  omega

lemma feed_reassembled (h : Reassembled C base l stream bytes calls) :
    Reassembled C base (l.feed C bytes).2 (stream ++ bytes.take (l.feed C bytes).1)
      (bytes.drop (l.feed C bytes).1) calls := by
  set m := (l.ensureStarted C).rxCompact with hm
  obtain ⟨taken, ht, hr⟩ := feedLoop_reassembled (2 * bytes.length + 1) rxCompact_consumed h.start
  have ha : (l.feed C bytes).1 = taken.length := by
    have hl := congrArg List.length ht
    rw [length_append] at hl
    simp only [feed]
    omega
  have hta : bytes.take taken.length = taken := by
    rw [ht, take_left' rfl]
  have hd : bytes.drop taken.length = (feedLoop (2 * bytes.length + 1) m bytes).2 := by
    rw [ht, drop_left' rfl, ← ht]
  rw [ha, hta, hd]
  exact hr

lemma nextRound_reassembled (hC : C.Lawful) (hu : l.rxConsumed = 0) {event : Option Event}
    (hrd : l.nextRound C = some (event, l')) (h : Reassembled C base l stream ahead calls) :
    Reassembled C base l' stream ahead (calls ++ (l.roundCall C).toList) ∧ (event = none → l'.rxConsumed = 0) := by
  obtain ⟨⟨chunk, rest, ht⟩, hn⟩ := nextRound_takes hC hu hrd
  obtain ⟨ha, dropped, hp, hc, hf, ho, hb, hta⟩ := h
  rw [hu, drop_zero, ht.taken] at hp
  refine ⟨⟨ha ++ [chunk], dropped, ?_, ht.cap.trans hc, ?_, ht.overflow.trans ho, ?_, ?_⟩, hn⟩
  · rw [ht.left, ht.skip]
    exact hp.handle ht.whole
  · rw [map_append, hf, ht.frames, framesOf_append]
  · rw [ht.bad, hb, failures_append, framesOf_append, refusals_append, UInt32.add_assoc, ← UInt32.ofNat_add,
      ← refusals_settled (foldl _ _ _), ← hta, refusals_settled]
    congr 2
    omega
  · rw [ht.tables, framesOf_append, foldl_append, ← foldl_settled, hta, foldl_settled]

lemma nextLoop_reassembled (hC : C.Lawful) (fuel : ℕ) (hu : l.rxConsumed = 0)
    (h : Reassembled C base l stream ahead calls) :
    Reassembled C base (nextLoop C fuel l).2 stream ahead (calls ++ loopCalls C fuel l) := by
  induction fuel generalizing l calls with
  | zero => rwa [loopCalls, append_nil]
  | succ fuel ih =>
    unfold nextLoop loopCalls
    cases hrd : l.nextRound C with
    | none => rwa [append_nil]
    | some result =>
      obtain ⟨event, after⟩ := result
      obtain ⟨hr, hn⟩ := nextRound_reassembled hC hu hrd h
      cases event with
      | some event => exact hr
      | none =>
        have hr' := ih (hn rfl) hr
        rwa [append_assoc] at hr'

lemma nextRound_delimiter (h : l.nextRound C = none) : DELIMITER ∉ l.rx := by
  intro hm
  obtain ⟨chunk, rest, hrx, hw⟩ := eq_append_cons_of_mem hm
  rcases @nextRound_found N FRAME C l chunk rest hw hrx with ⟨-, -, hn⟩ | ⟨-, -, -, hn⟩ | ⟨-, _, _, -, -, hn⟩
  all_goals
    rw [hn] at h
    cases h

-- Each round takes a chunk with its delimiter, so the rounds end by themselves.
lemma nextLoop_drains (hC : C.Lawful) (fuel : ℕ) (hf : l.rx.length < fuel) (hu : l.rxConsumed = 0) :
    ((nextLoop C fuel l).1 = none → DELIMITER ∉ (nextLoop C fuel l).2.rx.drop (nextLoop C fuel l).2.rxConsumed) ∧
      ((nextLoop C fuel l).1 ≠ none →
        ((nextLoop C fuel l).2.rx.drop (nextLoop C fuel l).2.rxConsumed).length < l.rx.length) := by
  induction fuel generalizing l with
  | zero => omega
  | succ fuel ih =>
    unfold nextLoop
    cases hrd : l.nextRound C with
    | none =>
      refine ⟨fun _ => ?_, fun hs => absurd rfl hs⟩
      dsimp only
      rw [hu]
      exact nextRound_delimiter hrd
    | some result =>
      obtain ⟨event, after⟩ := result
      obtain ⟨⟨chunk, rest, ht⟩, hn⟩ := nextRound_takes hC hu hrd
      have hl : (after.rx.drop after.rxConsumed).length < l.rx.length := by
        rw [ht.left, ht.taken, length_append, length_cons]
        omega
      cases event with
      | some event => exact ⟨(by intro h; cases h), fun _ => hl⟩
      | none =>
        have hz := hn rfl
        rw [hz, drop_zero] at hl
        obtain ⟨hd, hl'⟩ := ih (by omega) hz
        exact ⟨hd, fun hs => (hl' hs).trans hl⟩

lemma next_drains (hC : C.Lawful) (l : Link N FRAME) :
    ((l.next C).1 = none → DELIMITER ∉ (l.next C).2.rx.drop (l.next C).2.rxConsumed) ∧
      ((l.next C).1 ≠ none →
        ((l.next C).2.rx.drop (l.next C).2.rxConsumed).length < (l.rx.drop l.rxConsumed).length) := by
  have hn := nextLoop_drains hC _ (Nat.lt_succ_self (l.ensureStarted C).rxCompact.rx.length) rxCompact_consumed
  rw [start_unread] at hn
  simp only [next, start_unread]
  exact hn

end Reiny.Link
