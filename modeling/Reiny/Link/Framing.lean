import Reiny.Lib.Delimited
import Reiny.Link.Steps

namespace Reiny.Link

open Lib Words Results Wire HelloFormat Ports State List

variable {N FRAME : ℕ}

abbrev WireFrame := Header × Bytes

def rawOf (C : Codec) (f : WireFrame) : Bytes := body f.1 f.2 ++ le16 (C.crc (body f.1 f.2))

def wireBytes (C : Codec) (f : WireFrame) : Bytes := C.cobsEncode (rawOf C f) ++ [DELIMITER]

def Fitting (FRAME : ℕ) (f : WireFrame) : Prop := OVERHEAD + f.2.length ≤ FRAME

structure Core (N FRAME : ℕ) where
  tables : Tables N FRAME
  tx : Bytes
  txCap : ℕ
  unread : Bytes
  rxCap : ℕ
  rxSkip : Bool
  dropped : UInt32 × UInt32

def core (l : Link N FRAME) : Core N FRAME where
  tables := l.toTables
  tx := l.tx
  txCap := l.txCap
  unread := l.rx.drop l.rxConsumed
  rxCap := l.rxCap
  rxSkip := l.rxSkip
  dropped := (l.stats.droppedSchema, l.stats.droppedUnwanted)

section Bytes

variable {C : Codec} (hC : C.Lawful) {f : WireFrame} {p rest : Bytes} {fs : List WireFrame}

lemma rawOf_length : (rawOf C f).length = OVERHEAD + f.2.length := by
  simp only [rawOf, length_append, body_length, le16_length, OVERHEAD, TRAILER]
  omega

lemma rawOf_ne_nil : rawOf C f ≠ [] := by
  intro h
  have hl := rawOf_length (C := C) (f := f)
  rw [h] at hl
  simp only [length_nil, OVERHEAD, HEADER] at hl
  omega

lemma seal_fitting (hf : Fitting FRAME f) : sealFrame C FRAME f.1 f.2 = .ok (rawOf C f) := seal_ok.mpr ⟨hf, rfl⟩

include hC

lemma wireBytes_length (hf : Fitting FRAME f) : (wireBytes C f).length ≤ encodedMax C FRAME := by
  have h := hC.encode_length (rawOf C f) rawOf_ne_nil
  have hm := hC.max_mono (show (rawOf C f).length ≤ FRAME by rw [rawOf_length]; exact hf)
  simp only [wireBytes, encodedMax, length_append, length_singleton]
  omega

lemma delimiter_position (rest : Bytes) :
    (wireBytes C f ++ rest).findIdx? (· == DELIMITER) = some (C.cobsEncode (rawOf C f)).length := by
  rw [wireBytes, append_assoc, singleton_append]
  exact Delimited.find_chunk (hC.encode_nonzero (rawOf C f))

lemma first_frame {rx tail : Bytes} (h : rx ++ rest = wireBytes C f ++ tail) (hd : DELIMITER ∈ rx) :
    ∃ rx', rx = wireBytes C f ++ rx' ∧ rx' ++ rest = tail := by
  rw [wireBytes, append_assoc] at h
  rcases append_eq_append_iff.mp h with ⟨as, hc, -⟩ | ⟨cs, hrx, hr⟩
  · have hz := hC.encode_nonzero (rawOf C f)
    rw [hc] at hz
    exact absurd (mem_append_left _ hd) hz
  · cases cs with
    | nil =>
      rw [append_nil] at hrx
      exact absurd (hrx ▸ hd) (hC.encode_nonzero (rawOf C f))
    | cons c cs =>
      simp only [cons_append, List.cons.injEq] at hr
      obtain ⟨rfl, rfl⟩ := hr
      exact ⟨cs, by simp [hrx, wireBytes], rfl⟩

lemma full_has_delimiter {cap : ℕ} (hc : encodedMax C FRAME ≤ cap) (hf : ∀ f ∈ fs, Fitting FRAME f)
    (h : p ++ rest = fs.flatMap (wireBytes C)) (hp : cap ≤ p.length) : DELIMITER ∈ p := by
  cases fs with
  | nil =>
    simp only [flatMap_nil, append_eq_nil_iff] at h
    rw [h.1] at hp
    simp only [length_nil, encodedMax] at hp hc
    omega
  | cons f fs =>
    rw [flatMap_cons] at h
    have hl := (wireBytes_length hC (hf f mem_cons_self)).trans (hc.trans hp)
    rcases append_eq_append_iff.mp h with ⟨as, hw, -⟩ | ⟨cs, rfl, -⟩
    · have has : as = [] := by
        apply length_eq_zero_iff.mp
        rw [hw, length_append] at hl
        omega
      rw [has, append_nil] at hw
      rw [← hw, wireBytes]
      simp
    · apply mem_append_left
      rw [wireBytes]
      simp

lemma next_delimiter {s : Bytes} (hfit : ∀ f ∈ fs, Fitting FRAME f) (h : p ++ s = fs.flatMap (wireBytes C))
    {i : ℕ} (hi : s.findIdx? (· == DELIMITER) = some i) : i + 1 ≤ encodedMax C FRAME := by
  induction fs generalizing p with
  | nil =>
    simp only [flatMap_nil, append_eq_nil_iff] at h
    rw [h.2] at hi
    cases hi
  | cons f fs ih =>
    rw [flatMap_cons] at h
    have hf := wireBytes_length hC (hfit f mem_cons_self)
    rcases append_eq_append_iff.mp h with ⟨as, hw, hs⟩ | ⟨cs, -, hr⟩
    · rw [hw, length_append] at hf
      cases as using List.reverseRecOn with
      | nil =>
        rw [nil_append] at hs
        exact ih (fun g hg => hfit g (mem_cons_of_mem _ hg)) (by rw [nil_append]; exact hs)
      | append_singleton as a _ =>
        have ha : a = DELIMITER := by
          rw [wireBytes, ← append_assoc] at hw
          exact (append_inj_right' hw rfl |> singleton_inj.mp).symm
        have hle : i ≤ as.length := by
          subst hs ha
          obtain ⟨_, _, hb⟩ := findIdx?_eq_some_iff_getElem.mp hi
          by_contra hlt
          have := hb as.length (by omega)
          simp at this
        simp only [length_append, length_singleton] at hf
        omega
    · exact ih (fun g hg => hfit g (mem_cons_of_mem _ hg)) hr.symm

end Bytes

section Receiving

variable {C : Codec} (hC : C.Lawful) {f : WireFrame} {l : Link N FRAME}

def arrive (C : Codec) (l : Link N FRAME) (f : WireFrame) : Frame × Link N FRAME :=
  l.received ⟨f.1.kind, f.1.hash, f.1.seq, f.2.length, 0⟩ (rawOf C f ++ l.rx.drop (rawOf C f).length)
    (wireBytes C f).length

lemma wireBytes_length_eq : (wireBytes C f).length = (C.cobsEncode (rawOf C f)).length + 1 := by
  rw [wireBytes, length_append, length_singleton]

lemma arrive_payload : (arrive C l f).2.rxPayload f.2.length = f.2 := by
  have hb : rawOf C f = body f.1 [] ++ (f.2 ++ le16 (C.crc (body f.1 f.2))) := by
    simp [rawOf, body, append_assoc]
  have hd : (rawOf C f ++ l.rx.drop (rawOf C f).length).drop HEADER =
      f.2 ++ (le16 (C.crc (body f.1 f.2)) ++ l.rx.drop (rawOf C f).length) := by
    rw [hb, append_assoc, drop_left' (by rw [body_length]; rfl), append_assoc]
  change ((rawOf C f ++ l.rx.drop (rawOf C f).length).drop HEADER).take f.2.length = f.2
  rw [hd, take_left' rfl]

lemma nextRound_none (h : DELIMITER ∉ l.rx) : l.nextRound C = none := by
  unfold nextRound
  rw [Delimited.find_none h]

include hC

variable {rest : Bytes}

variable (hrx : l.rx = wireBytes C f ++ rest)

include hrx

lemma decodeFrame_wire (hf : Fitting FRAME f) (hm : FRAME - OVERHEAD ≤ 65535) :
    l.decodeFrame C (C.cobsEncode (rawOf C f)).length =
      some (⟨f.1.kind, f.1.hash, f.1.seq, f.2.length, 0⟩, rawOf C f ++ l.rx.drop (rawOf C f).length) := by
  have ht : l.rx.take (C.cobsEncode (rawOf C f)).length = C.cobsEncode (rawOf C f) := by
    rw [hrx, wireBytes, append_assoc, take_left' rfl]
  have hp : parse C (rawOf C f) = .ok (f.1, f.2) := parse_seal (seal_fitting hf)
  have hl : ¬ (rawOf C f).length > FRAME := by
    rw [rawOf_length]
    exact not_lt.mpr hf
  have hpay : f.2.length ≤ 65535 := by
    have := hf
    unfold Fitting at this
    omega
  simp only [decodeFrame, ht, decodeInPlace, hC.decode_encode _ rawOf_ne_nil, hl, if_false, hp, hpay, if_true]

lemma nextRound_wire (hf : Fitting FRAME f) (hm : FRAME - OVERHEAD ≤ 65535) :
    l.nextRound C = some (settle ((arrive C l f).2.dispatch C (arrive C l f).1)) := by
  have hp : l.rx.findIdx? (· == DELIMITER) = some (C.cobsEncode (rawOf C f)).length := by
    rw [hrx]
    exact delimiter_position hC rest
  have hne : (C.cobsEncode (rawOf C f)).length ≠ 0 := by
    rw [Ne, length_eq_zero_iff]
    exact hC.encode_ne_nil _ rawOf_ne_nil
  unfold nextRound
  rw [hp]
  split
  · rename_i h
    cases h
  · rename_i h
    exact absurd (Option.some.inj h) hne
  · rename_i frameEnd _ h
    obtain rfl := Option.some.inj h
    rw [decodeFrame_wire hC hrx hf hm]
    simp only [arrive, wireBytes_length_eq]

lemma arrive_core : (arrive C l f).2.core = { l.core with unread := rest } := by
  have hle : (rawOf C f).length ≤ (wireBytes C f).length := by
    rw [wireBytes_length_eq]
    exact (hC.decode_length _ _ (hC.decode_encode _ rawOf_ne_nil)).trans (Nat.le_succ _)
  have hd : (rawOf C f ++ l.rx.drop (rawOf C f).length).drop (wireBytes C f).length = rest := by
    rw [drop_append, drop_eq_nil_of_le hle, nil_append, drop_drop, Nat.add_sub_cancel' hle, hrx,
      drop_left' rfl]
  exact congrArg (fun u => { l.core with unread := u }) hd

end Receiving

variable {C : Codec} {l : Link N FRAME} {fs : List WireFrame} {tail : Bytes}

@[simp] lemma rxCompact_core : l.rxCompact.core = l.core := by
  unfold rxCompact
  split_ifs
  · simp [core, rxDiscard]
  · rfl

lemma rxCompact_consumed : l.rxCompact.rxConsumed = 0 := by
  unfold rxCompact
  split_ifs with h
  · rfl
  · omega

lemma emit_core (f : WireFrame) :
    (∃ e, (l.emit C f.1.kind f.1.hash f.1.seq f.2).1 = .error e ∧
      (l.emit C f.1.kind f.1.hash f.1.seq f.2).2.core = l.core) ∨
    (Fitting FRAME f ∧ (l.emit C f.1.kind f.1.hash f.1.seq f.2).1 = .ok () ∧
      (l.emit C f.1.kind f.1.hash f.1.seq f.2).2.core = { l.core with tx := l.tx ++ wireBytes C f }) := by
  rcases emit_cases l C f.1.kind f.1.hash f.1.seq f.2 with ⟨e, n, -, h⟩ | ⟨raw, hr, -, h⟩
  · rw [h]
    exact .inl ⟨e, rfl, rfl⟩
  · obtain ⟨hf, rfl⟩ := seal_ok.mp hr
    rw [h]
    exact .inr ⟨hf, rfl, rfl⟩

lemma emit_empty (hC : C.Lawful) {f : WireFrame} (hf : Fitting FRAME f) (htx : l.tx = [])
    (hc : encodedMax C FRAME ≤ l.txCap) : (l.emit C f.1.kind f.1.hash f.1.seq f.2).1 = .ok () := by
  rcases emit_cases l C f.1.kind f.1.hash f.1.seq f.2 with ⟨e, n, hu, h⟩ | ⟨raw, -, -, h⟩
  · cases hu with
    | frame hl => exact absurd hf (Nat.not_le.mpr hl)
    | buffer hr =>
      have := hC.max_mono hf
      simp only [htx, length_nil, encodedMax] at hc hr
      omega
  · rw [h]

lemma feedLoop_stream (hC : C.Lawful) (hfit : ∀ f ∈ fs, Fitting FRAME f) (fuel : ℕ) {rest : Bytes}
    (hsk : l.rxSkip = false) (hc : encodedMax C FRAME ≤ l.rxCap)
    (hs : l.rx ++ (rest ++ tail) = fs.flatMap (wireBytes C)) :
    ∃ k ≤ rest.length, feedLoop fuel l rest = ({ l with rx := l.rx ++ rest.take k }, rest.drop k) ∧
      (0 < fuel → rest ≠ [] → DELIMITER ∉ l.rx → 0 < k) := by
  induction fuel generalizing l rest with
  | zero => exact ⟨0, Nat.zero_le _, by simp [feedLoop], by simp⟩
  | succ fuel ih =>
    have ho : ¬ l.rxSkip = true := by
      rw [hsk]
      exact Bool.false_ne_true
    unfold feedLoop
    by_cases hr : rest = []
    · exact ⟨0, Nat.zero_le _, by simp [hr], fun _ h => absurd hr h⟩
    rw [if_neg hr, if_neg ho]
    by_cases hf : l.rxCap - l.rx.length = 0
    · have hd : DELIMITER ∈ l.rx := full_has_delimiter hC hc hfit hs (by omega)
      exact ⟨0, Nat.zero_le _, by simp [hf, hd], fun _ _ h => absurd hd h⟩
    · set n := min (l.rxCap - l.rx.length) rest.length with hn
      have hp : 0 < n := by
        have := length_pos_iff.mpr hr
        omega
      obtain ⟨k, hk, he, -⟩ := @ih { l with rx := l.rx ++ rest.take n } (rest.drop n) hsk hc
        (by rw [append_assoc, ← append_assoc (rest.take n), take_append_drop]; exact hs)
      rw [length_drop] at hk
      refine ⟨n + k, by omega, ?_, by omega⟩
      simp only [hf, if_false, he, take_add, append_assoc, drop_drop]

lemma feed_core (hC : C.Lawful) (hf : ∀ f ∈ fs, Fitting FRAME f) {bytes : Bytes}
    (hsk : (l.ensureStarted C).rxSkip = false) (hcap : encodedMax C FRAME ≤ (l.ensureStarted C).rxCap)
    (hs : (l.ensureStarted C).core.unread ++ (bytes ++ tail) = fs.flatMap (wireBytes C)) :
    ∃ k ≤ bytes.length, (l.feed C bytes).1 = k ∧
      (l.feed C bytes).2.core = { (l.ensureStarted C).core with
        unread := (l.ensureStarted C).core.unread ++ bytes.take k } ∧
      (bytes ≠ [] → DELIMITER ∉ (l.ensureStarted C).core.unread → 0 < k) := by
  set m := (l.ensureStarted C).rxCompact with hm
  have hc : m.core = (l.ensureStarted C).core := rxCompact_core
  have hrx : m.rx = (l.ensureStarted C).core.unread := by
    rw [← hc, core, rxCompact_consumed, drop_zero]
  have hs' : m.rxSkip = false := (congrArg Core.rxSkip hc).trans hsk
  have hc' : encodedMax C FRAME ≤ m.rxCap := hcap.trans_eq (congrArg Core.rxCap hc).symm
  rw [← hrx] at hs
  obtain ⟨k, hk, he, hp⟩ := feedLoop_stream hC hf (2 * bytes.length + 1) hs' hc' hs
  refine ⟨k, hk, ?_, ?_, ?_⟩
  · simp only [feed, ← hm, he, length_drop]
    omega
  · simp only [feed, ← hm, he, ← hc]
    simp only [core, hm, rxCompact_consumed, drop_zero]
  · rw [← hrx]
    exact hp (by omega)

end Reiny.Link
