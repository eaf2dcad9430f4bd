import Reiny.Link.Framing
import Reiny.Link.Handshake

namespace Reiny.Link

open Lib Words Results Delimited Wire HelloFormat HelloCodec Ports State List

variable {N FRAME : ℕ}

def frameOf (C : Codec) (chunk : Bytes) : Option WireFrame :=
  match C.cobsDecode chunk with
  | none => none
  | some raw => (parse C raw).toOption

def Settling (f : WireFrame) : Prop :=
  f.1.kind = .error ∨ f.1.kind = .hello ∧ ∃ hello, helloParse f.2 = .ok hello ∧ hello.ack = true

def demands (f : WireFrame) : Bool :=
  match f.1.kind with
  | .hello =>
    match helloParse f.2 with
    | .ok hello => !hello.ack
    | .error _ => false
  | .request => true
  | .data | .reply | .error | .ping => false

def weight (C : Codec) (chunk : Bytes) : ℕ := if (frameOf C chunk).any demands then 1 else 0

structure Reaction (C : Codec) (l l' : Link N FRAME) : Prop where
  queued : l'.tx = l.tx ∨ ∃ g, Settling g ∧ l'.tx = l.tx ++ wireBytes C g
  rx : l'.rx = l.rx
  consumed : l'.rxConsumed = l.rxConsumed
  skip : l'.rxSkip = l.rxSkip
  started : l'.started = l.started

section Reacting

variable {C : Codec} {l l' : Link N FRAME} {frame : Frame} {f : WireFrame}

lemma emit_reaction {kind : Kind} {hash : UInt32} {seq : UInt8} {payload : Bytes}
    (h : Settling (⟨kind, hash, seq⟩, payload)) : Reaction C l (l.emit C kind hash seq payload).2 := by
  rcases emit_cases l C kind hash seq payload with ⟨e, n, -, he⟩ | ⟨raw, hr, -, he⟩
  · rw [he]
    exact ⟨Or.inl rfl, rfl, rfl, rfl, rfl⟩
  · obtain ⟨-, rfl⟩ := seal_ok.mp hr
    rw [he]
    exact ⟨Or.inr ⟨_, h, rfl⟩, rfl, rfl, rfl, rfl⟩

lemma queueHello_reaction : Reaction C l (l.queueHello C true).2 := by
  unfold queueHello
  cases hp : l.helloPayload true with
  | error e => exact ⟨Or.inl rfl, rfl, rfl, rfl, rfl⟩
  | ok payload =>
    obtain ⟨hello, hpa, ha, -⟩ := helloPayload_parsed hp
    exact emit_reaction (Or.inr ⟨rfl, hello, hpa, ha⟩)

lemma refuseHello_same (e : Error) : (l.refuseHello e).2.tx = l.tx ∧ Reaction C l (l.refuseHello e).2 := by
  have hc : (l.badFrame.countOverflow e).tx = l.tx ∧ (l.badFrame.countOverflow e).rx = l.rx ∧
      (l.badFrame.countOverflow e).rxConsumed = l.rxConsumed ∧ (l.badFrame.countOverflow e).rxSkip = l.rxSkip := by
    unfold countOverflow
    split_ifs <;> exact ⟨rfl, rfl, rfl, rfl⟩
  exact ⟨hc.1, .inl hc.1, hc.2.1, hc.2.2.1, hc.2.2.2, rfl⟩

lemma onHello_reaction (frame : Frame) : Reaction C l (l.onHello C frame).2 := by
  unfold onHello
  cases hv : l.validateHello (l.rxPayload frame.len) with
  | error e => exact (refuseHello_same e).2
  | ok contract =>
    simp only [acceptHello]
    split_ifs
    · exact ⟨Or.inl rfl, rfl, rfl, rfl, rfl⟩
    · have h := @queueHello_reaction N FRAME C (l.withTables (l.adopt (l.rxPayload frame.len) contract))
      exact ⟨h.queued, h.rx, h.consumed, h.skip, h.started⟩

lemma onHello_quiet (h : ∀ hello, helloParse (l.rxPayload frame.len) = .ok hello → hello.ack = true) :
    (l.onHello C frame).2.tx = l.tx := by
  unfold onHello
  cases hv : l.validateHello (l.rxPayload frame.len) with
  | error e => exact (refuseHello_same (C := C) e).1
  | ok contract =>
    obtain ⟨hello, hp, -, -, -, rfl⟩ := validateHello_ok.mp hv
    simp only [acceptHello, h hello hp, if_true]
    rfl

lemma onRequest_reaction (frame : Frame) : Reaction C l (l.onRequest C frame).2 := by
  have he : ∀ message, Reaction C l (l.dropUnwanted.emitError C frame.hash frame.seq message).2 := by
    intro message
    have h := @emit_reaction N FRAME C l.dropUnwanted .error frame.hash frame.seq
      (message.take (min message.length (FRAME - OVERHEAD))) (Or.inl rfl)
    exact ⟨h.queued, h.rx, h.consumed, h.skip, h.started⟩
  unfold onRequest
  dsimp only
  split_ifs
  · exact he _
  · exact ⟨Or.inl rfl, rfl, rfl, rfl, rfl⟩
  · exact he _

lemma onReply_same (frame : Frame) (event : Event) :
    (l.onReply frame event).2.tx = l.tx ∧ Reaction C l (l.onReply frame event).2 := by
  have hc : (l.toTables.cancelRequest frame.hash frame.seq).started = l.started := by
    unfold Tables.cancelRequest
    split <;> rfl
  unfold onReply
  split_ifs
  · exact ⟨rfl, .inl rfl, rfl, rfl, rfl, rfl⟩
  · exact ⟨rfl, .inl rfl, rfl, rfl, rfl, hc⟩

lemma onData_same (frame : Frame) : (l.onData frame).2.tx = l.tx ∧ Reaction C l (l.onData frame).2 := by
  unfold onData
  split_ifs <;> exact ⟨rfl, .inl rfl, rfl, rfl, rfl, rfl⟩

lemma dispatch_reaction (frame : Frame) : Reaction C l (l.dispatch C frame).2 := by
  unfold dispatch
  cases frame.kind with
  | hello => exact onHello_reaction frame
  | ping => exact ⟨Or.inl rfl, rfl, rfl, rfl, rfl⟩
  | data => exact (onData_same frame).2
  | request => exact onRequest_reaction frame
  | reply | error => exact (onReply_same frame _).2

lemma dispatch_quiet (hki : frame.kind = f.1.kind) (hpay : l.rxPayload frame.len = f.2)
    (h : demands f = false) : (l.dispatch C frame).2.tx = l.tx := by
  unfold dispatch
  unfold demands at h
  rw [hki]
  cases hk : f.1.kind with
  | hello =>
    apply onHello_quiet
    intro hello hp
    rw [hpay] at hp
    rw [hk, hp] at h
    simpa using h
  | request =>
    rw [hk] at h
    cases h
  | ping => rfl
  | data => exact (onData_same (C := C) frame).1
  | reply | error => exact (onReply_same (C := C) frame _).1

lemma parse_payload {raw : Bytes} (h : parse C raw = .ok f) :
    OVERHEAD ≤ raw.length ∧ f.2 = (raw.drop HEADER).take (raw.length - OVERHEAD) := by
  simp only [parse] at h
  split_ifs at h with hs
  split at h
  · cases h
  · cases h
    refine ⟨Nat.not_lt.mp hs, ?_⟩
    rw [drop_take]
    congr 1

lemma decodeFrame_frameOf {chunk rest : Bytes} (hrx : l.rx = chunk ++ DELIMITER :: rest) {rx : Bytes}
    (h : l.decodeFrame C chunk.length = some (frame, rx)) : ∃ f raw, frameOf C chunk = some f ∧
      C.cobsDecode chunk = some raw ∧ rx = raw ++ l.rx.drop raw.length ∧ frame.kind = f.1.kind ∧
      frame.len = f.2.length ∧ (rx.drop HEADER).take frame.len = f.2 := by
  have ht : l.rx.take chunk.length = chunk := by rw [hrx, take_left' rfl]
  unfold decodeFrame at h
  rw [ht] at h
  cases hd : C.cobsDecode chunk with
  | none => simp [decodeInPlace, hd] at h
  | some raw =>
    simp only [decodeInPlace, hd] at h
    split_ifs at h
    cases hp : parse C raw with
    | error e =>
      rw [hp] at h
      cases h
    | ok f =>
      rw [hp] at h
      dsimp only at h
      split_ifs at h
      cases h
      refine ⟨f, raw, by simp only [frameOf, hd, hp]; rfl, rfl, rfl, rfl, rfl, ?_⟩
      obtain ⟨hl, hpay⟩ := parse_payload hp
      have hlen : f.2.length = raw.length - OVERHEAD := by
        rw [hpay, length_take, length_drop]
        simp only [OVERHEAD]
        omega
      have hh : HEADER ≤ raw.length := (show HEADER ≤ OVERHEAD by decide).trans hl
      rw [drop_append_of_le_length hh, hlen, take_append_of_le_length, ← hpay]
      rw [length_drop]
      simp only [OVERHEAD]
      omega

structure Round (C : Codec) (l : Link N FRAME) (chunk rest : Bytes) (l' : Link N FRAME) : Prop where
  whole : DELIMITER ∉ chunk
  taken : l.rx = chunk ++ DELIMITER :: rest
  left : l'.rx.drop l'.rxConsumed = rest
  queued : l'.tx = l.tx ∨ weight C chunk = 1 ∧ ∃ g, Settling g ∧ l'.tx = l.tx ++ wireBytes C g
  skip : l'.rxSkip = l.rxSkip
  started : l'.started = l.started

lemma nextRound_round (hC : C.Lawful) (hus : l.rxConsumed = 0) {event : Option Event}
    (h : l.nextRound C = some (event, l')) :
    (∃ chunk rest, Round C l chunk rest l') ∧ (event = none → l'.rxConsumed = 0) := by
  obtain ⟨n, hn, hrd⟩ := nextRound_cases l h
  obtain ⟨chunk, rest, hw, rfl, hrx⟩ := find_some hn
  rcases hrd with ⟨-, rfl, stats, rfl⟩ | ⟨frame, rx, after, -, hdec, hd, hl'⟩
  · refine ⟨⟨chunk, rest, hw, hrx, ?_, .inl rfl, rfl, rfl⟩, fun _ => hus⟩
    change (l.rx.drop (chunk.length + 1)).drop l.rxConsumed = rest
    rw [hus, hrx, drop_zero, append_cons, drop_left' (by simp)]
  · obtain ⟨f, raw, hf, hraw, rfl, hk, hl, hp⟩ := decodeFrame_frameOf hrx hdec
    set arrived := (l.received frame (raw ++ l.rx.drop raw.length) (chunk.length + 1)).2
    set numbered := (l.received frame (raw ++ l.rx.drop raw.length) (chunk.length + 1)).1
    have hr := @dispatch_reaction N FRAME C arrived numbered
    have hqu := @dispatch_quiet N FRAME C arrived numbered f hk hp
    rw [hd] at hr hqu
    obtain ⟨hc, hno⟩ : l'.core = after.core ∧ (event = none → l'.rxConsumed = 0) := by
      rcases hl' with ⟨hs, rfl⟩ | ⟨-, rfl⟩
      · exact ⟨rfl, fun hno => absurd hno hs⟩
      · exact ⟨rxCompact_core, fun _ => rxCompact_consumed⟩
    have hu : l'.rx.drop l'.rxConsumed = rest := by
      have hle : raw.length ≤ chunk.length + 1 := (hC.decode_length chunk raw hraw).trans (Nat.le_succ _)
      refine (congrArg Core.unread hc).trans ?_
      change after.rx.drop after.rxConsumed = rest
      rw [hr.rx, hr.consumed]
      change (raw ++ l.rx.drop raw.length).drop (chunk.length + 1) = rest
      rw [drop_append, drop_eq_nil_of_le hle, nil_append, drop_drop, Nat.add_sub_cancel' hle, hrx,
        append_cons, drop_left' (by simp)]
    have htx : l'.tx = after.tx := congrArg Core.tx hc
    refine ⟨⟨chunk, rest, hw, hrx, hu, ?_, ?_, ?_⟩, hno⟩
    · rw [htx]
      cases hde : demands f with
      | false => exact .inl (hqu hde)
      | true => exact hr.queued.imp_right fun hq => ⟨by simp [weight, hf, hde], hq⟩
    · exact (congrArg Core.rxSkip hc).trans hr.skip
    · exact (congrArg (fun c => c.tables.started) hc).trans hr.started

end Reacting


section Costs

variable {C : Codec} {l l' : Link N FRAME}

def load (C : Codec) (l : Link N FRAME) (line : Bytes) : ℕ :=
  cost DELIMITER (weight C) [] (l.rx.drop l.rxConsumed ++ Delimited.pass DELIMITER l.rxSkip line)

lemma weight_le (C : Codec) (chunk : Bytes) : weight C chunk ≤ 1 := by
  unfold weight
  split_ifs <;> omega

lemma load_core (line : Bytes) (h : l'.core = l.core) : load C l' line = load C l line := by
  have hu : l'.rx.drop l'.rxConsumed = l.rx.drop l.rxConsumed := congrArg Core.unread h
  have hs : l'.rxSkip = l.rxSkip := congrArg Core.rxSkip h
  rw [load, load, hu, hs]

lemma Round.load {chunk rest : Bytes} (h : Round C l chunk rest l') (hu : l.rxConsumed = 0) (line : Bytes) :
    weight C chunk + load C l' line = load C l line := by
  rw [Link.load, Link.load, h.left, h.skip, hu, drop_zero, h.taken, append_assoc, cons_append,
    cost_frame h.whole, nil_append]

lemma nextLoop_load (hC : C.Lawful) (fuel : ℕ) (hu : l.rxConsumed = 0) (line : Bytes) : ∃ frames : List WireFrame,
    (∀ g ∈ frames, Settling g) ∧ (nextLoop C fuel l).2.tx = l.tx ++ frames.flatMap (wireBytes C) ∧
      frames.length + load C (nextLoop C fuel l).2 line ≤ load C l line ∧
      (nextLoop C fuel l).2.started = l.started := by
  induction fuel generalizing l with
  | zero => exact ⟨[], nofun, (append_nil _).symm, by simp [nextLoop], rfl⟩
  | succ fuel ih =>
    unfold nextLoop
    cases hrd : l.nextRound C with
    | none => exact ⟨[], nofun, (append_nil _).symm, by simp, rfl⟩
    | some result =>
      obtain ⟨event, next⟩ := result
      obtain ⟨⟨chunk, rest, hr⟩, hn⟩ := nextRound_round hC hu hrd
      have hl := hr.load hu line
      -- the frame this round has queued, if any
      obtain ⟨first, hf, htx, hc⟩ : ∃ first : List WireFrame, (∀ g ∈ first, Settling g) ∧
          next.tx = l.tx ++ first.flatMap (wireBytes C) ∧ first.length ≤ weight C chunk := by
        rcases hr.queued with hs | ⟨ho, g, hg, htx⟩
        · exact ⟨[], nofun, by simpa using hs, Nat.zero_le _⟩
        · exact ⟨[g], by simpa using hg, by simpa using htx, ho.ge⟩
      cases event with
      | some event => exact ⟨first, hf, htx, by dsimp only; omega, hr.started⟩
      | none =>
        obtain ⟨more, hm, htx', hc', hst⟩ := ih (hn rfl)
        refine ⟨first ++ more, ?_, ?_, ?_, hst.trans hr.started⟩
        · intro g hg
          rcases mem_append.mp hg with hg | hg
          · exact hf g hg
          · exact hm g hg
        · dsimp only
          rw [htx', htx, flatMap_append, append_assoc]
        · rw [length_append]
          dsimp only at hc' ⊢
          omega

lemma feedLoop_load (fuel : ℕ) (hu : l.rxConsumed = 0) (rest tail : Bytes) :
    load C (feedLoop fuel l rest).1 ((feedLoop fuel l rest).2 ++ tail) ≤ load C l (rest ++ tail) ∧
      (feedLoop fuel l rest).1.tx = l.tx ∧ (feedLoop fuel l rest).1.started = l.started := by
  induction fuel generalizing l rest with
  | zero => exact ⟨le_rfl, rfl, rfl⟩
  | succ fuel ih =>
    unfold feedLoop
    by_cases hr : rest = []
    · subst hr
      exact ⟨le_rfl, rfl, rfl⟩
    rw [if_neg hr]
    by_cases hs : l.rxSkip = true
    · rw [if_pos hs]
      rcases dropWhile_cases DELIMITER rest with ⟨hn, hd⟩ | ⟨chunk, after, hch, rfl, hd⟩
      · rw [hd]
        refine ⟨le_of_eq ?_, rfl, rfl⟩
        rw [load, load, hs, pass_skipped hn, nil_append]
      · rw [hd]
        obtain ⟨hl, htx, hst⟩ := @ih { l with rxSkip := false } hu after
        refine ⟨hl.trans (le_of_eq ?_), htx, hst⟩
        rw [load, load, hs, append_assoc, cons_append, pass_found hch]
        rfl
    · rw [if_neg hs]
      have ho : l.rxSkip = false := by simpa using hs
      by_cases hf : l.rxCap - l.rx.length = 0
      · rw [if_pos hf]
        by_cases hh : DELIMITER ∈ l.rx
        · rw [if_pos hh]
          exact ⟨le_rfl, rfl, rfl⟩
        · rw [if_neg hh]
          obtain ⟨hl, htx, hst⟩ := @ih { l.countRxOverflow with rx := [], rxSkip := true } hu rest
          refine ⟨hl.trans ?_, htx, hst⟩
          -- what was in the buffer is given up with the rest of its chunk
          simp only [load, ho, hu, drop_zero, drop_nil, nil_append]
          rw [cost_chunk hh]
          exact cost_pass_le _ _
      · rw [if_neg hf]
        obtain ⟨hl, htx, hst⟩ := @ih { l with rx := l.rx ++ rest.take (min (l.rxCap - l.rx.length) rest.length) }
          hu (rest.drop (min (l.rxCap - l.rx.length) rest.length))
        refine ⟨hl.trans (le_of_eq ?_), htx, hst⟩
        simp only [load, ho, hu, drop_zero, Delimited.pass, Bool.false_eq_true, if_false]
        rw [append_assoc, ← append_assoc (rest.take _), take_append_drop]

lemma feedLoop_suffix (fuel : ℕ) (rest : Bytes) : (feedLoop fuel l rest).2 <:+ rest := by
  induction fuel generalizing l rest with
  | zero => exact suffix_refl rest
  | succ fuel ih =>
    unfold feedLoop
    split_ifs with hr hsk hf hh
    · exact nil_suffix
    · split
      · exact nil_suffix
      · rename_i after ha
        have hd : after <:+ rest := by
          have hs := dropWhile_suffix (l := rest) (· != DELIMITER)
          rw [ha] at hs
          exact (suffix_cons _ _).trans hs
        exact (ih after).trans hd
    · exact suffix_refl rest
    · exact ih rest
    · exact (ih _).trans (drop_suffix _ _)

end Costs

section Frames

variable {C : Codec} (hC : C.Lawful) {l : Link N FRAME}

lemma settling_quiet {f : WireFrame} (h : Settling f) : demands f = false := by
  unfold demands
  rcases h with he | ⟨hh, hello, hp, ha⟩
  · rw [he]
  · rw [hh, hp]
    simp [ha]

include hC

lemma frameOf_wire (f : WireFrame) : frameOf C (C.cobsEncode (rawOf C f)) = some f := by
  have hp : parse C (rawOf C f) = .ok f := parse_seal (seal_fitting (le_refl (OVERHEAD + f.2.length)))
  simp only [frameOf, hC.decode_encode _ rawOf_ne_nil, hp]
  rfl

lemma count_frames (frames : List WireFrame) : (frames.flatMap (wireBytes C)).count DELIMITER = frames.length := by
  induction frames with
  | nil => rfl
  | cons f frames ih =>
    have hn := count_eq_zero.mpr (hC.encode_nonzero (rawOf C f))
    rw [flatMap_cons, count_append, ih, wireBytes, count_append, hn, count_singleton_self,
      length_cons]
    omega

lemma load_frame (line : Bytes) (f : WireFrame) :
    load C l (line ++ wireBytes C f) ≤ load C l line + weight C (C.cobsEncode (rawOf C f)) :=
  cost_pass_append (weight_le C) (hC.encode_nonzero (rawOf C f)) l.rxSkip (l.rx.drop l.rxConsumed) line

lemma load_append (line : Bytes) (frames : List WireFrame) :
    load C l (line ++ frames.flatMap (wireBytes C)) ≤ load C l line + frames.length := by
  induction frames using List.reverseRecOn with
  | nil => simp
  | append_singleton frames f ih =>
    have hl := @load_frame N FRAME C hC l (line ++ frames.flatMap (wireBytes C)) f
    have hle := weight_le C (C.cobsEncode (rawOf C f))
    rw [flatMap_append, flatMap_singleton, ← append_assoc, length_append, length_singleton]
    omega

lemma load_settling (line : Bytes) {frames : List WireFrame} (h : ∀ g ∈ frames, Settling g) :
    load C l (line ++ frames.flatMap (wireBytes C)) ≤ load C l line := by
  induction frames using List.reverseRecOn with
  | nil => simp
  | append_singleton frames f ih =>
    have hl := @load_frame N FRAME C hC l (line ++ frames.flatMap (wireBytes C)) f
    have hf := settling_quiet (h f (by simp))
    have hz : weight C (C.cobsEncode (rawOf C f)) = 0 := by simp [weight, frameOf_wire hC, hf]
    have hfst := ih fun g hg => h g (mem_append_left _ hg)
    rw [flatMap_append, flatMap_singleton, ← append_assoc]
    omega

end Frames

structure End (N FRAME : ℕ) where
  link : Link N FRAME
  inbox : Bytes

inductive Transfer
  | drain (room : ℕ)
  | drainFrame (room : ℕ)
  | feed (n : ℕ)
  | next

def End.transfer (C : Codec) (e : End N FRAME) : Transfer → End N FRAME × Bytes
  | .drain room => (⟨(e.link.drain C room).2, e.inbox⟩, (e.link.drain C room).1)
  | .drainFrame room => (⟨(e.link.drainFrame C room).2, e.inbox⟩, (e.link.drainFrame C room).1.getD [])
  | .feed n => (⟨(e.link.feed C (e.inbox.take n)).2, e.inbox.drop (e.link.feed C (e.inbox.take n)).1⟩, [])
  | .next => (⟨(e.link.next C).2, e.inbox⟩, [])

def End.queued (C : Codec) (e : End N FRAME) : Transfer → ℕ
  | .drain _ | .drainFrame _ | .feed _ => (e.link.ensureStarted C).tx.count DELIMITER - e.link.tx.count DELIMITER
  | .next => (e.link.next C).2.tx.count DELIMITER - e.link.tx.count DELIMITER

def End.takes (e : End N FRAME) (bytes : Bytes) : End N FRAME := { e with inbox := e.inbox ++ bytes }

def End.ahead (e : End N FRAME) (line : Bytes) : Bytes :=
  e.link.rx.drop e.link.rxConsumed ++ Delimited.pass DELIMITER e.link.rxSkip line

def Transfer.Whole {M G : ℕ} (C : Codec) (e : End N FRAME) (other : End M G) : Transfer → Prop
  | .drainFrame room => (∀ i, (e.link.ensureStarted C).tx.findIdx? (· == DELIMITER) = some i → i + 1 ≤ room) ∨
      Aligned DELIMITER (other.ahead other.inbox)
  | .drain _ | .feed _ | .next => True

inductive Exchange {N F M G : ℕ} (C : Codec) : End N F × End M G → ℕ → End N F × End M G → Prop
  | refl (ends : End N F × End M G) : Exchange C ends 0 ends
  | left {ends : End N F × End M G} {n : ℕ} {a : End N F} {b : End M G}
    (h : Exchange C ends n (a, b)) (t : Transfer)
      (ht : t.Whole C a b) : Exchange C ends (n + a.queued C t) ((a.transfer C t).1, b.takes (a.transfer C t).2)
  | right {ends : End N F × End M G} {n : ℕ} {a : End N F} {b : End M G}
    (h : Exchange C ends n (a, b)) (t : Transfer)
      (ht : t.Whole C b a) : Exchange C ends (n + b.queued C t) (a.takes (b.transfer C t).2, (b.transfer C t).1)

def inFlight {N F M G : ℕ} (a : End N F) (b : End M G) : ℕ :=
  chunks DELIMITER (a.ahead (a.inbox ++ b.link.tx)) + chunks DELIMITER (b.ahead (b.inbox ++ a.link.tx))

def owed (l : Link N FRAME) : ℕ := if l.started then 0 else 2

section Exchanges

variable {F M G : ℕ} {C : Codec} (hC : C.Lawful) {a : End N F} {b : End M G}

def potential (C : Codec) (a : End N F) (b : End M G) : ℕ :=
  load C a.link (a.inbox ++ b.link.tx) + load C b.link (b.inbox ++ a.link.tx) + owed a.link + owed b.link

variable {l : Link N F}

lemma Sends.frames {l' : Link N F} (h : Sends C l l') : ∃ frames : List WireFrame, frames.length ≤ 1 ∧
    l'.tx = l.tx ++ frames.flatMap (wireBytes C) ∧ l'.rx = l.rx ∧ l'.rxConsumed = l.rxConsumed ∧
    l'.rxSkip = l.rxSkip := by
  cases h with
  | unsent => exact ⟨[], Nat.zero_le _, by simp, rfl, rfl, rfl⟩
  | @queued header payload raw hr =>
    obtain ⟨-, rfl⟩ := seal_ok.mp hr
    refine ⟨[(header, payload)], le_rfl, ?_, rfl, rfl, rfl⟩
    rw [flatMap_singleton]
    rfl

lemma ensureStarted_frames (l : Link N F) : ∃ frames : List WireFrame, frames.length + frames.length ≤ owed l ∧
    (l.ensureStarted C).tx = l.tx ++ frames.flatMap (wireBytes C) ∧
    (l.ensureStarted C).rx = l.rx ∧ (l.ensureStarted C).rxConsumed = l.rxConsumed ∧
    (l.ensureStarted C).rxSkip = l.rxSkip ∧ (l.ensureStarted C).started = true := by
  have hst : (l.ensureStarted C).started = true := by rw [ensureStarted_tables]
  unfold ensureStarted owed at *
  cases hs : l.started with
  | true => exact ⟨[], Nat.zero_le _, by simp, rfl, rfl, rfl, hs⟩
  | false =>
    rw [hs] at hst
    obtain ⟨frames, ho, htx, hrx, hu, hsk⟩ := (@queueHello_sends N F C { l with started := true } false).frames
    exact ⟨frames, by simp only [Bool.false_eq_true, if_false]; omega, htx, hrx, hu, hsk, hst⟩

include hC

lemma potential_le (a : End N F) (b : End M G) : potential C a b ≤ inFlight a b + owed a.link + owed b.link := by
  have hw : ∀ chunk, weight C chunk ≤ if chunk = [] then 0 else 1 := by
    intro chunk
    split_ifs with hnil
    · subst hnil
      have hn : frameOf C [] = none := by
        unfold frameOf
        cases hd : C.cobsDecode [] with
        | none => rfl
        | some raw =>
          have hraw := hC.decode_length [] raw hd
          rw [length_nil, Nat.le_zero, length_eq_zero_iff] at hraw
          subst hraw
          rfl
      simp [weight, hn]
    · exact weight_le C chunk
  have hl := cost_mono (d := DELIMITER) hw [] (a.ahead (a.inbox ++ b.link.tx))
  have hr := cost_mono (d := DELIMITER) hw [] (b.ahead (b.inbox ++ a.link.tx))
  simp only [potential, load, inFlight, chunks]
  simp only [End.ahead] at hl hr ⊢
  omega

lemma start_potential (a : End N F) (b : End M G) :
    (a.link.ensureStarted C).tx.count DELIMITER - a.link.tx.count DELIMITER +
      potential C ⟨a.link.ensureStarted C, a.inbox⟩ b ≤ potential C a b := by
  obtain ⟨frames, how, htx, hrx, hu, hs, hst⟩ := @ensureStarted_frames N F C a.link
  have hl : load C (a.link.ensureStarted C) (a.inbox ++ b.link.tx) = load C a.link (a.inbox ++ b.link.tx) := by
    rw [load, load, hrx, hu, hs]
  have ho := @load_append M G C hC b.link (b.inbox ++ a.link.tx) frames
  have hc := count_frames hC frames
  have hz : owed (a.link.ensureStarted C) = 0 := by simp [owed, hst]
  simp only [potential, hl, hz, htx, count_append, hc, ← append_assoc] at ho ⊢
  omega

lemma started_potential {inbox out : Bytes} (hl : l.started = true)
    (hown : load C l (inbox ++ b.link.tx) ≤ load C (a.link.ensureStarted C) (a.inbox ++ b.link.tx))
    (ho : load C b.link (b.inbox ++ (out ++ l.tx)) ≤ load C b.link (b.inbox ++ (a.link.ensureStarted C).tx)) :
    (a.link.ensureStarted C).tx.count DELIMITER - a.link.tx.count DELIMITER + potential C ⟨l, inbox⟩ (b.takes out) ≤
      potential C a b := by
  have hst : (a.link.ensureStarted C).started = true := by rw [ensureStarted_tables]
  have hz : owed l = owed (a.link.ensureStarted C) := by rw [owed, owed, hl, hst]
  refine le_trans (Nat.add_le_add_left ?_ _) (start_potential hC a b)
  simp only [potential, End.takes, append_assoc, hz]
  omega

lemma drainFrame_potential {room : ℕ} (ht : (Transfer.drainFrame room).Whole C a b) :
    a.queued C (.drainFrame room) + potential C (a.transfer C (.drainFrame room)).1
      (b.takes (a.transfer C (.drainFrame room)).2) ≤ potential C a b := by
  have hst : (a.link.ensureStarted C).started = true := by rw [ensureStarted_tables]
  simp only [End.queued, End.transfer, Link.drainFrame]
  split
  · exact started_potential hC hst le_rfl le_rfl
  · rename_i position hf
    split_ifs with hr
    · obtain ⟨chunk, rest, hch, hl, htx⟩ := find_some hf
      refine started_potential hC hst le_rfl ?_
      have ha := ht.resolve_left fun hfi => absurd (hfi position hf) (by omega)
      change load C b.link (b.inbox ++ ([] ++ (a.link.ensureStarted C).tx.drop (position + 1))) ≤ _
      rw [htx, ← hl, append_cons, drop_left' (by simp), nil_append, ← append_cons]
      exact cost_pass_drop ha hch
    · refine started_potential hC hst le_rfl (le_of_eq ?_)
      change load C b.link
        (b.inbox ++ ((a.link.ensureStarted C).tx.take _ ++ (a.link.ensureStarted C).tx.drop _)) = _
      rw [take_append_drop]

lemma feed_potential (n : ℕ) : a.queued C (.feed n) + potential C (a.transfer C (.feed n)).1
    (b.takes (a.transfer C (.feed n)).2) ≤ potential C a b := by
  set s := a.link.ensureStarted C with hs
  have hst : s.started = true := by rw [hs, ensureStarted_tables]
  have hc : s.rxCompact.core = s.core := rxCompact_core
  set loop := feedLoop (2 * (a.inbox.take n).length + 1) s.rxCompact (a.inbox.take n) with hl
  obtain ⟨hlo, htx, hli⟩ := feedLoop_load (C := C) (2 * (a.inbox.take n).length + 1) rxCompact_consumed
    (a.inbox.take n) (a.inbox.drop n ++ b.link.tx)
  obtain ⟨taken, ht⟩ := feedLoop_suffix (l := s.rxCompact) (2 * (a.inbox.take n).length + 1) (a.inbox.take n)
  rw [← hl] at hlo htx hli ht
  have hf : a.link.feed C (a.inbox.take n) = ((a.inbox.take n).length - loop.2.length, loop.1) := rfl
  have hin : a.inbox.drop (a.link.feed C (a.inbox.take n)).1 = loop.2 ++ a.inbox.drop n := by
    have hlen : (a.link.feed C (a.inbox.take n)).1 = taken.length := by
      have hsum := congrArg List.length ht
      rw [length_append] at hsum
      rw [hf]
      dsimp only
      omega
    have hsp := congrArg (· ++ a.inbox.drop n) ht
    rw [take_append_drop, append_assoc] at hsp
    rw [hlen]
    nth_rewrite 1 [← hsp]
    rw [drop_left' rfl]
  rw [load_core _ hc, ← append_assoc, ← append_assoc, take_append_drop, ← hin] at hlo
  have hsa : a.transfer C (.feed n) = (⟨loop.1, a.inbox.drop (a.link.feed C (a.inbox.take n)).1⟩, []) := rfl
  rw [hsa]
  refine started_potential hC ?_ hlo (le_of_eq ?_)
  · exact hli.trans ((congrArg (fun c => c.tables.started) hc).trans hst)
  · rw [htx, nil_append, show s.rxCompact.tx = s.tx from congrArg Core.tx hc]

lemma next_potential : a.queued C .next + potential C (a.transfer C .next).1 (b.takes (a.transfer C .next).2) ≤
    potential C a b := by
  set s := a.link.ensureStarted C with hs
  have hst : s.started = true := by rw [hs, ensureStarted_tables]
  have hc : s.rxCompact.core = s.core := rxCompact_core
  have hl : s.rxCompact.started = true := (congrArg (fun c => c.tables.started) hc).trans hst
  obtain ⟨frames, hse, htx, hlo, hl'⟩ := nextLoop_load hC (s.rxCompact.rx.length + 1) rxCompact_consumed
    (a.inbox ++ b.link.tx)
  rw [load_core _ hc] at hlo
  rw [show s.rxCompact.tx = s.tx from congrArg Core.tx hc] at htx
  have ho := @load_settling M G C hC b.link (b.inbox ++ s.tx) frames hse
  have hcnt := count_frames hC frames
  have hz : owed (a.link.next C).2 = owed s := by
    rw [owed, owed, hst, show (a.link.next C).2.started = true from hl'.trans hl]
  change (a.link.next C).2.tx = _ at htx
  change frames.length + load C (a.link.next C).2 _ ≤ _ at hlo
  refine le_trans ?_ (start_potential hC a b)
  simp only [potential, End.queued, End.transfer, End.takes, ← hs, htx, hz, append_nil, ← append_assoc,
    count_append, hcnt]
  omega

lemma transfer_potential {t : Transfer} (ht : t.Whole C a b) :
    a.queued C t + potential C (a.transfer C t).1 (b.takes (a.transfer C t).2) ≤ potential C a b := by
  cases t with
  | drain room =>
    have hst : (a.link.ensureStarted C).started = true := by rw [ensureStarted_tables]
    refine started_potential hC hst le_rfl (le_of_eq ?_)
    change load C b.link (b.inbox ++ ((a.link.ensureStarted C).tx.take _ ++ (a.link.ensureStarted C).tx.drop _)) = _
    rw [take_append_drop]
  | drainFrame room => exact drainFrame_potential hC ht
  | feed n => exact feed_potential hC n
  | next => exact next_potential hC

lemma exchange_potential {ends ends' : End N F × End M G} {n : ℕ} (h : Exchange C ends n ends') :
    n + potential C ends'.1 ends'.2 ≤ potential C ends.1 ends.2 := by
  have hsw : ∀ {N F M G : ℕ} (a : End N F) (b : End M G), potential C a b = potential C b a := by
    intro N F M G a b
    simp only [potential]
    omega
  induction h with
  | refl => omega
  | left h t ht ih =>
    have hs := transfer_potential hC ht
    dsimp only at ih ⊢
    omega
  | @right n a b h t ht ih =>
    have hs := transfer_potential hC ht
    have hb := hsw a b
    have ha := hsw (a.takes (b.transfer C t).2) (b.transfer C t).1
    dsimp only at ih ⊢
    omega

omit hC in
theorem frames_die_out (hC : C.Lawful) :
    (∀ (l l' : Link N F) event, l.rxConsumed = 0 → l.nextRound C = some (event, l') →
      ∃ chunk rest, DELIMITER ∉ chunk ∧ l.rx = chunk ++ DELIMITER :: rest ∧
        (l'.tx = l.tx ∨ ∃ g, Settling g ∧ l'.tx = l.tx ++ wireBytes C g) ∧
        ∀ f, frameOf C chunk = some f → Settling f → l'.tx = l.tx) ∧
    ∀ (a a' : End N F) (b b' : End M G) n, Exchange C (a, b) n (a', b') →
      n ≤ inFlight a b + owed a.link + owed b.link := by
  refine ⟨?_, ?_⟩
  · intro l l' event hu hrd
    obtain ⟨⟨chunk, rest, hr⟩, -⟩ := nextRound_round hC hu hrd
    refine ⟨chunk, rest, hr.whole, hr.taken, hr.queued.imp_right fun h => h.2, ?_⟩
    intro f hf hs
    rcases hr.queued with hsa | ⟨ho, -⟩
    · exact hsa
    · simp [weight, hf, settling_quiet hs] at ho
  · intro a a' b b' n h
    have hb := exchange_potential hC h
    have hfl := potential_le hC a b
    dsimp only at hb
    omega

end Exchanges

lemma first_exchange :
    ∃ n a b, Exchange standard ((⟨board, []⟩ : End 2 64), (⟨host, []⟩ : End 2 64)) n (a, b) ∧ n = 4 :=
  ⟨_, _, _, ((((((((Exchange.refl _).left (.drain 200) trivial).right (.feed 200) trivial).right
    .next trivial).right
    (.drain 200) trivial).left (.feed 200) trivial).left .next trivial).left .next trivial).left
      (.drain 200) trivial,
    by decide +kernel⟩

theorem frames_die_out_sample : ∃ a b, Exchange standard (⟨board, []⟩, ⟨host, []⟩) 4 (a, b) ∧
    4 ≤ inFlight (⟨board, []⟩ : End 2 64) (⟨host, []⟩ : End 2 64) + owed board + owed host := by
  obtain ⟨n, a, b, h, rfl⟩ := first_exchange
  exact ⟨a, b, h, (frames_die_out standard_lawful).2 _ _ _ _ _ h⟩

theorem frames_exceed_flight : ∃ a b, Exchange standard (⟨board, []⟩, ⟨host, []⟩) 4 (a, b) ∧
    inFlight (⟨board, []⟩ : End 2 64) (⟨host, []⟩ : End 2 64) = 0 := by
  obtain ⟨n, a, b, h, rfl⟩ := first_exchange
  exact ⟨a, b, h, by decide⟩

end Reiny.Link
