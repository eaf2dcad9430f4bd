import Reiny.Lib.Boundaries
import Reiny.Link.Handles
import Reiny.Link.Emissions
import Reiny.Link.Outstanding

namespace Reiny.Link

open Lib Words Utf8 Results Wire HelloFormat HelloCodec Ports State List

variable {N FRAME : ℕ}

structure Awaiting (r : Link N FRAME) (hash : UInt32) (seq : UInt8) (bytes : Bytes) : Prop where
  connected : r.connected = true
  pending : r.pending.contains (some (hash, seq)) = true
  rx : r.rx = bytes
  consumed : r.rxConsumed = 0

/-- `next` returns the error, and its text is the longest beginning of the message that ends with a whole character
and fits a frame. -/
def TextSurvives (C : Codec) (r : Link N FRAME) (message : Str) : Prop :=
  ∃ frame k, (r.next C).1 = some (.error frame) ∧ message.LastBoundary (FRAME - OVERHEAD) k ∧
    (r.next C).2.errorMessage frame = message.bytes.take k

def cutAt (FRAME : ℕ) (message : Str) : ℕ := min message.len (FRAME - OVERHEAD)

def errorFrame (FRAME : ℕ) (hash : UInt32) (seq : UInt8) (message : Str) : WireFrame :=
  (⟨.error, hash, seq⟩, message.bytes.take (cutAt FRAME message))

variable {C : Codec} {r : Link N FRAME} {hash : UInt32} {seq : UInt8} {bytes : Bytes} {f : WireFrame}

lemma Awaiting.start (h : Awaiting r hash seq bytes) : Awaiting (r.ensureStarted C).rxCompact hash seq bytes := by
  have hp := @ensureStarted_rxPart N FRAME C r
  have hu : (r.ensureStarted C).rxConsumed = 0 := (congrArg RxPart.consumed hp).trans h.consumed
  have hc : (r.ensureStarted C).rxCompact = r.ensureStarted C := by
    rw [rxCompact, hu]
    rfl
  rw [hc]
  refine ⟨?_, ?_, (congrArg RxPart.rx hp).trans h.rx, hu⟩
  · rw [ensureStarted_tables]
    exact h.connected
  · rw [ensureStarted_tables]
    exact h.pending

section

variable (hC : C.Lawful) (hf : Fitting FRAME f) (hrx : r.rx = wireBytes C f)

include hC hf hrx

lemma decodeFrame_own :
    r.decodeFrame C (C.cobsEncode (rawOf C f)).length = if f.2.length ≤ 65535 then
      some (⟨f.1.kind, f.1.hash, f.1.seq, f.2.length, 0⟩, rawOf C f ++ r.rx.drop (rawOf C f).length) else none := by
  have hsp : r.rx = C.cobsEncode (rawOf C f) ++ DELIMITER :: [] := hrx
  have hl : (rawOf C f).length ≤ FRAME := by
    rw [rawOf_length]
    exact hf
  have hp : parse C (rawOf C f) = .ok f := parse_seal (seal_fitting hf)
  rw [decodeFrame_eq hsp, hC.decode_encode _ rawOf_ne_nil]
  simp only [Option.bind_eq_bind, Option.bind_some, if_pos hl, hp]
  by_cases hs : f.2.length ≤ 65535
  · simp [Except.toOption, Option.filter, short, hs]
  · simp [Except.toOption, Option.filter, short, hs]

lemma nextLoop_alone (hl : ¬ f.2.length ≤ 65535) (fuel : ℕ) : (nextLoop C fuel r).1 = none := by
  have hd := decodeFrame_own hC hf hrx
  rw [if_neg hl] at hd
  cases fuel with
  | zero => rfl
  | succ fuel =>
    rcases @nextRound_found N FRAME C r (C.cobsEncode (rawOf C f)) [] (hC.encode_nonzero _) hrx with
      ⟨hn, -⟩ | ⟨-, -, -, hrd⟩ | ⟨-, frame, rx, hs, -⟩
    · exact absurd hn (hC.encode_ne_nil _ rawOf_ne_nil)
    · rw [nextLoop, hrd]
      have he : (r.badFrame.rxDiscard ((C.cobsEncode (rawOf C f)).length + 1)).rx = [] := by
        change r.rx.drop _ = []
        rw [hrx, ← wireBytes_length_eq, drop_length]
      have hq : (r.badFrame.rxDiscard ((C.cobsEncode (rawOf C f)).length + 1)).nextRound C = none :=
        nextRound_none (by rw [he]; exact not_mem_nil)
      cases fuel with
      | zero => rfl
      | succ fuel =>
        change (nextLoop C (fuel + 1) _).1 = none
        rw [nextLoop, hq]
    · rw [hd] at hs
      cases hs

lemma nextRound_own (hs : f.2.length ≤ 65535) :
    r.nextRound C = some (settle ((arrive C r f).2.dispatch C (arrive C r f).1)) := by
  have hd := decodeFrame_own hC hf hrx
  rw [if_pos hs] at hd
  rcases @nextRound_found N FRAME C r (C.cobsEncode (rawOf C f)) [] (hC.encode_nonzero _) hrx with
    ⟨hnil, -⟩ | ⟨-, hn, -⟩ | ⟨-, frame, rx, hso, -, hrd⟩
  · exact absurd hnil (hC.encode_ne_nil _ rawOf_ne_nil)
  · rw [hd] at hn
    cases hn
  · rw [hd] at hso
    obtain ⟨rfl, rfl⟩ := Prod.mk.inj (Option.some.inj hso)
    rw [hrd, arrive, wireBytes_length_eq]

end

lemma nextLoop_error (hC : C.Lawful) {text : Bytes} (hf : Fitting FRAME (⟨.error, hash, seq⟩, text))
    (h : Awaiting r hash seq (wireBytes C (⟨.error, hash, seq⟩, text))) (hs : text.length ≤ 65535) (fuel : ℕ) :
    ∃ frame, (nextLoop C (fuel + 1) r).1 = some (.error frame) ∧
      (nextLoop C (fuel + 1) r).2.payload frame = text := by
  have hrd := nextRound_own hC hf h.rx hs
  have hp := @arrive_payload N FRAME C (⟨.error, hash, seq⟩, text) r
  have hw : (!r.connected || !r.pending.contains (some (hash, seq))) = false := by
    rw [h.connected, h.pending]
    rfl
  set call := arrive C r (⟨.error, hash, seq⟩, text) with hc
  have hd : call.2.dispatch C call.1 = (some (.error call.1), call.2.cancelRequest hash seq) := by
    change call.2.onReply call.1 (.error call.1) = _
    unfold onReply
    change (if !r.connected || !r.pending.contains (some (hash, seq)) then _ else _) = _
    rw [hw]
    rfl
  rw [hd] at hrd
  have hl : nextLoop C (fuel + 1) r = (some (.error call.1), call.2.cancelRequest hash seq) := by
    rw [nextLoop, hrd]
    rfl
  rw [hl]
  refine ⟨call.1, rfl, ?_⟩
  have hfr : (call.2.cancelRequest hash seq).isFresh call.1 = true := beq_self_eq_true _
  rw [payload, hfr, if_pos rfl]
  exact hp

variable {s : Link N FRAME} {message : Str}

lemma errorFrame_payload : (errorFrame FRAME hash seq message).2.length = cutAt FRAME message := by
  rw [errorFrame, length_take]
  exact min_eq_left (Nat.min_le_left _ _)

lemma emitError_bytes (hok : (s.emitError C hash seq message.bytes).1 = .ok ()) :
    Fitting FRAME (errorFrame FRAME hash seq message) ∧
      (s.emitError C hash seq message.bytes).2.tx.drop s.tx.length =
        wireBytes C (errorFrame FRAME hash seq message) := by
  have h := @emit_outcome N FRAME C s (errorFrame FRAME hash seq message)
  change Outcome C s _ (s.emitError C hash seq message.bytes) at h
  cases h with
  | failed hr htx =>
    rw [hok] at hr
    cases hr
  | queued hfr hf hr htx =>
    cases hfr
    rw [htx]
    exact ⟨hf, drop_left⟩

lemma errorMessage_eq {l : Link N FRAME} {frame : Frame} {text : Bytes} (h : l.payload frame = text) :
    l.errorMessage frame = if wellFormed text then text else [] := by
  rw [errorMessage, h, fromUtf8]
  split_ifs <;> rfl

lemma lastBoundary_cut (h : message.isCharBoundary (cutAt FRAME message) = true) :
    message.LastBoundary (FRAME - OVERHEAD) (cutAt FRAME message) := by
  refine ⟨⟨h, Nat.min_le_right _ _⟩, fun j hj hf => ?_⟩
  exact le_min (Str.isCharBoundary_le hj) hf

lemma lastBoundary_ne_nil {k : ℕ} (h : message.LastBoundary (FRAME - OVERHEAD) k)
    (hr : message.bytes = [] ∨ ∃ k, 0 < k ∧ k ≤ FRAME - OVERHEAD ∧ message.isCharBoundary k = true)
    (hc : ¬ message.isCharBoundary (cutAt FRAME message) = true) : message.bytes.take k ≠ [] := by
  rcases hr with hn | ⟨j, hp, hf, hj⟩
  · have hz : cutAt FRAME message = 0 := by simp [cutAt, Str.len, hn]
    rw [hz] at hc
    exact absurd rfl hc
  · have hle := h.2 j hj hf
    have hk : k ≤ message.bytes.length := Str.isCharBoundary_le h.1.1
    intro he
    have hl := congrArg List.length he
    rw [length_take, length_nil] at hl
    omega

theorem error_text_survives {C : Codec} (hC : C.Lawful) {s r : Link N FRAME} {hash : UInt32}
    {seq : UInt8} {message : Str}
    (hroom : message.bytes = [] ∨ ∃ k, 0 < k ∧ k ≤ FRAME - OVERHEAD ∧ message.isCharBoundary k = true)
    (hok : (s.emitError C hash seq message.bytes).1 = .ok ())
    (hr : Awaiting r hash seq ((s.emitError C hash seq message.bytes).2.tx.drop s.tx.length)) :
    TextSurvives C r message ↔
      message.isCharBoundary (cutAt FRAME message) = true ∧ cutAt FRAME message ≤ 65535 := by
  obtain ⟨hf, hbs⟩ := emitError_bytes hok
  rw [hbs] at hr
  have hst := hr.start (C := C)
  have hc : cutAt FRAME message ≤ message.len := Nat.min_le_left _ _
  have hlen := @errorFrame_payload FRAME hash seq message
  by_cases hs : cutAt FRAME message ≤ 65535
  · obtain ⟨frame, hev, hp⟩ := nextLoop_error hC hf hst (hlen.trans_le hs)
      (r.ensureStarted C).rxCompact.rx.length
    have hm := errorMessage_eq hp
    change (r.next C).1 = some (.error frame) at hev
    change (r.next C).2.errorMessage frame = _ at hm
    by_cases hb : message.isCharBoundary (cutAt FRAME message) = true
    · refine iff_of_true ⟨frame, cutAt FRAME message, hev, lastBoundary_cut hb, ?_⟩ ⟨hb, hs⟩
      rw [hm, if_pos ((Str.isCharBoundary_iff hc).mp hb)]
    · refine iff_of_false ?_ fun h => hb h.1
      rintro ⟨frame', k, hev', hl, ht⟩
      obtain rfl : frame = frame' := Event.error.inj (Option.some.inj (hev.symm.trans hev'))
      have he : (r.next C).2.errorMessage frame = [] := by
        rw [hm, if_neg fun h => hb ((Str.isCharBoundary_iff hc).mpr h)]
      rw [he] at ht
      exact lastBoundary_ne_nil hl hroom hb ht.symm
  · have hn : (r.next C).1 = none := nextLoop_alone hC hf hst.rx (by rwa [hlen]) _
    refine iff_of_false ?_ fun h => hs h.2
    rintro ⟨frame, k, hev, -⟩
    rw [hn] at hev
    cases hev

def terseServer : Link 2 46 := ((initial boardId serverPorts 400 400).rpcServer sumService sumPort).2

def errorBytes (message : Str) : Bytes := (terseServer.emitError standard sumHash 0 message.bytes).2.tx

def answeredBoard (message : Str) : Link 2 46 :=
  applyAll standard (intoBridge (initial hostId [] 400 400))
    [.feed serverHello, .next, .requestRaw sumHash [1, 2], .feed (errorBytes message)]

def cutMessage : Str := ⟨List.replicate 34 97 ++ [195, 169], by decide +kernel⟩

def errorHandle : Frame := ⟨.error, sumHash, 0, 35, 3⟩

theorem error_text_cut : ¬ TextSurvives standard (answeredBoard cutMessage) cutMessage ∧
    ((answeredBoard cutMessage).next standard).1 = some (.error errorHandle) ∧
    ((answeredBoard cutMessage).next standard).2.errorMessage errorHandle = [] := by
  have hev : ((answeredBoard cutMessage).next standard).1 = some (.error errorHandle) := by decide +kernel
  have ht : ((answeredBoard cutMessage).next standard).2.errorMessage errorHandle = [] := by decide +kernel
  refine ⟨?_, hev, ht⟩
  rintro ⟨frame, k, hev', hk, ht'⟩
  obtain rfl := Event.error.inj (Option.some.inj (hev.symm.trans hev'))
  rw [ht] at ht'
  exact lastBoundary_ne_nil hk (Or.inr ⟨1, by decide, by decide, by decide⟩) (by decide) ht'.symm

def wholeMessage : Str := ⟨List.replicate 33 97 ++ [195, 169, 97], by decide +kernel⟩

theorem error_text_survives_whole : TextSurvives standard (answeredBoard wholeMessage) wholeMessage := by
  have hok : (terseServer.emitError standard sumHash 0 wholeMessage.bytes).1 = .ok () := by decide +kernel
  have hw : Awaiting (answeredBoard wholeMessage) sumHash 0 (errorBytes wholeMessage) := by
    refine ⟨?_, ?_, ?_, ?_⟩ <;> decide +kernel
  exact (error_text_survives standard_lawful (Or.inr ⟨1, by decide, by decide, by decide⟩) hok hw).mpr
    ⟨by decide, by decide⟩

end Reiny.Link
