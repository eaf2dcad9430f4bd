import Reiny.Lib.Numbering
import Reiny.Link.Memory
import Reiny.Link.SendQueue

namespace Reiny.Link

open Lib Words Utf8 Results Outbox Numbering Reassembly Wire HelloFormat HelloCodec Ports State List Outgoing

variable {N FRAME : ℕ}

def dataNumbers (fs : List WireFrame) : List UInt8 := (fs.filter fun f => f.1.kind = .data).map fun f => f.1.seq

def Attempt.fits (C : Codec) (a : Attempt N FRAME) : Option Bool :=
  match a.emission with
  | .data _ payload => some (OVERHEAD + payload.length ≤ FRAME ∧
      encodedMax C (OVERHEAD + payload.length) ≤ a.on.txCap - a.on.tx.length)
  | _ => none

def dataFits (C : Codec) (attempts : List (Attempt N FRAME)) : List Bool := attempts.filterMap (Attempt.fits C)

def arrived (C : Codec) (s : Outgoing N FRAME) : List WireFrame :=
  framesOf (segmentFrame C FRAME) (completed DELIMITER s.drained)

/-- Both the Data frames that were queued and those at the other end have consecutive numbers. -/
def Gapless (C : Codec) (s : Outgoing N FRAME) : Prop :=
  Consecutive (dataNumbers (s.queued C)) ∧ (s.dropped = [] → Consecutive (dataNumbers (arrived C s)))

def EvenFailures (C : Codec) (s : Outgoing N FRAME) : Prop :=
  ∀ n ∈ (failedBefore 0 (dataFits C s.attempts)).tail, 256 ∣ n

variable {C : Codec} {l l' : Link N FRAME} {s : Outgoing N FRAME} {as bs : List (Attempt N FRAME)} {e : Emission}
  {f : WireFrame}

lemma dataNumbers_append (fs gs : List WireFrame) : dataNumbers (fs ++ gs) = dataNumbers fs ++ dataNumbers gs := by
  rw [dataNumbers, filter_append, map_append, dataNumbers, dataNumbers]

lemma emit_isOk {kind : Kind} {hash : UInt32} {seq : UInt8} {payload : Bytes} :
    (l.emit C kind hash seq payload).1.isOk = decide (OVERHEAD + payload.length ≤ FRAME ∧
      encodedMax C (OVERHEAD + payload.length) ≤ l.txCap - l.tx.length) := by
  rcases emit_cases l C kind hash seq payload with ⟨e, n, hu, h⟩ | ⟨raw, hraw, hr, h⟩
  · rw [h]
    refine (decide_eq_false ?_).symm
    rintro ⟨hl, hr⟩
    cases hu with
    | frame hf => exact Nat.not_le.mpr hf hl
    | buffer hf => exact Nat.not_le.mpr hf hr
  · rw [h]
    rw [seal_length hraw] at hr
    exact (decide_eq_true ⟨(seal_ok.mp hraw).1, hr⟩).symm

lemma fits_eq (a : Attempt N FRAME) : a.fits C = if a.emission.counts then some (a.run C).1.isOk else none := by
  obtain ⟨l, e⟩ := a
  cases e with
  | data hash payload =>
    refine congrArg some (Eq.trans ?_ (Eq.trans (@emit_isOk N FRAME C { l with dataSeq := l.dataSeq + 1 } .data hash
      l.dataSeq payload).symm ?_))
    · rfl
    · simp only [Attempt.run, Emission.run, emitData]
      rcases emit C { l with dataSeq := l.dataSeq + 1 } .data hash l.dataSeq payload with ⟨_ | _, _⟩ <;> rfl
  | _ => rfl

lemma dataFits_append : dataFits C (as ++ bs) = dataFits C as ++ dataFits C bs := filterMap_append

lemma frame_kind (h : e.frame l = some f) : f.1.kind = .data ↔ e.counts = true := by
  cases e with
  | hello ack =>
    obtain ⟨payload, -, rfl⟩ := Option.map_eq_some_iff.mp h
    exact ⟨nofun, nofun⟩
  | request hash payload =>
    obtain ⟨seq, -, rfl⟩ := Option.map_eq_some_iff.mp h
    exact ⟨nofun, nofun⟩
  | data hash payload =>
    cases h
    exact ⟨fun _ => rfl, fun _ => rfl⟩
  | _ =>
    cases h
    exact ⟨nofun, nofun⟩

lemma frame_seq (h : e.frame l = some f) (hc : e.counts = true) : f.1.seq = l.dataSeq := by
  cases e with
  | data hash payload =>
    cases h
    rfl
  | _ => cases hc

lemma attempt_numbers (a : Attempt N FRAME) :
    dataNumbers (a.queued C).toList = numbers a.on.dataSeq (dataFits C [a]) ∧
      (a.run C).2.dataSeq = a.on.dataSeq + UInt8.ofNat (dataFits C [a]).length := by
  have hs := @run_dataSeq N FRAME C a.on a.emission
  change (a.run C).2.dataSeq = _ at hs
  rw [hs]
  cases hc : a.emission.counts with
  | false =>
    have hn : dataFits C [a] = [] := by simp [dataFits, fits_eq, hc]
    rw [hn]
    refine ⟨?_, (UInt8.add_zero _).symm⟩
    cases hq : a.queued C with
    | none => rfl
    | some f =>
      have hfr : a.emission.frame a.on = some f := by
        unfold Attempt.queued at hq
        split_ifs at hq
        exact hq
      have hk : ¬ f.1.kind = .data := by
        rw [frame_kind hfr, hc]
        exact Bool.false_ne_true
      simp [dataNumbers, hk, numbers]
  | true =>
    have ho : dataFits C [a] = [(a.run C).1.isOk] := by simp [dataFits, fits_eq, hc]
    rw [ho]
    refine ⟨?_, rfl⟩
    cases @run_outcome N FRAME C a.on a.emission with
    | failed hr htx =>
      change (a.run C).1 = _ at hr
      rw [queued_of_error hr, hr]
      rfl
    | queued hfr hf hr htx =>
      change (a.run C).1 = _ at hr
      rw [queued_of_ok hfr hr, hr]
      have hk := (frame_kind hfr).mpr hc
      simp [dataNumbers, hk, frame_seq hfr hc, numbers, Except.isOk, Except.toBool]

lemma Emits.numbers (h : Emits C l as l') :
    dataNumbers (as.filterMap (Attempt.queued C)) = Numbering.numbers l.dataSeq (dataFits C as) ∧
      l'.dataSeq = l.dataSeq + UInt8.ofNat (dataFits C as).length := by
  induction as generalizing l with
  | nil =>
    refine ⟨rfl, ?_⟩
    rw [h.2]
    exact (UInt8.add_zero _).symm
  | cons a as ih =>
    obtain ⟨hon, hr⟩ := h
    obtain ⟨hf, hn⟩ := @attempt_numbers N FRAME C a
    obtain ⟨hnu, hl⟩ := ih hr
    have hqu : (a :: as).filterMap (Attempt.queued C) =
        (a.queued C).toList ++ as.filterMap (Attempt.queued C) := by
      cases hq : a.queued C with
      | none => rw [filterMap_cons_none hq]; rfl
      | some f => rw [filterMap_cons_some hq]; rfl
    have ho : dataFits C (a :: as) = dataFits C [a] ++ dataFits C as :=
      @dataFits_append N FRAME C [a] as
    rw [hqu, ho, dataNumbers_append, hf, hnu, numbers_append, hn, hon.2]
    refine ⟨rfl, ?_⟩
    rw [hl, hn, hon.2, length_append, UInt8.ofNat_add, UInt8.add_assoc]

lemma drainFrame_dataSeq (room : ℕ) : (l.drainFrame C room).2.dataSeq = (l.ensureStarted C).dataSeq := by
  unfold drainFrame
  dsimp only
  split
  · rfl
  · split_ifs <;> rfl

lemma step_apply (op : Op) : (s.step C op).link = (s.apply C op).link ∧
    (s.step C op).attempts = s.attempts ++ op.attempts C s.link := by
  cases op with
  | drainFrame room =>
    simp only [step]
    split
    · exact ⟨rfl, rfl⟩
    · split_ifs <;> exact ⟨rfl, rfl⟩
  | _ => exact ⟨rfl, rfl⟩

lemma op_numbers (op : Op) :
    dataNumbers ((op.attempts C l).filterMap (Attempt.queued C)) =
      numbers l.dataSeq (dataFits C (op.attempts C l)) ∧
      (op.apply C l).dataSeq = l.dataSeq + UInt8.ofNat (dataFits C (op.attempts C l)).length := by
  cases hop : op.drains with
  | false => exact (apply_emits l hop).numbers
  | true =>
    have hst := (startAttempts_emits (C := C) l).numbers
    cases op with
    | drain room => exact hst
    | drainFrame room =>
      refine ⟨hst.1, ?_⟩
      exact (drainFrame_dataSeq room).trans hst.2
    | _ => cases hop

structure Numbered (C : Codec) (c : UInt8) (s : Outgoing N FRAME) : Prop where
  queued : dataNumbers (s.queued C) = numbers c (dataFits C s.attempts)
  counter : s.link.dataSeq = c + UInt8.ofNat (dataFits C s.attempts).length

lemma Numbered.step {c : UInt8} (h : Numbered C c s) (op : Op) : Numbered C c (s.step C op) := by
  obtain ⟨hl, ha⟩ := @step_apply N FRAME C s op
  obtain ⟨hn, hc⟩ := @op_numbers N FRAME C s.link op
  constructor
  · rw [Outgoing.queued, ha, filterMap_append, dataNumbers_append, hn, dataFits_append,
      numbers_append, ← h.counter]
    exact congrArg (· ++ _) h.queued
  · rw [hl, ha, dataFits_append, length_append, UInt8.ofNat_add, ← UInt8.add_assoc, ← h.counter]
    exact hc

lemma run_numbered (l : Link N FRAME) (ops : List Op) : Numbered C l.dataSeq (run C l ops) := by
  unfold run
  have hst : Numbered C l.dataSeq (of l) := ⟨rfl, (UInt8.add_zero _).symm⟩
  generalize of l = s at hst
  induction ops generalizing s with
  | nil => exact hst
  | cons op ops ih => exact ih _ (hst.step op)

variable {a : Account UInt8}

lemma queued_fitting {f : WireFrame} (h : f ∈ s.queued C) : Fitting FRAME f := by
  obtain ⟨b, -, hb⟩ := mem_filterMap.mp h
  cases @run_outcome N FRAME C b.on b.emission with
  | failed hr htx =>
    rw [queued_of_error hr] at hb
    cases hb
  | queued hfr hf hr htx =>
    rw [queued_of_ok hfr hr] at hb
    cases hb
    exact hf

lemma framesOf_cut (hC : C.Lawful) {fs : List WireFrame} (hfit : ∀ f ∈ fs, Fitting FRAME f) {p q : Bytes}
    (h : p ++ q = fs.flatMap (wireBytes C)) :
    framesOf (segmentFrame C FRAME) (completed DELIMITER p) <+: fs := by
  induction fs generalizing p with
  | nil =>
    rw [flatMap_nil, append_eq_nil_iff] at h
    rw [h.1]
    exact nil_prefix
  | cons f fs ih =>
    have hw := hC.encode_nonzero (rawOf C f)
    have hn : ∀ {r : Bytes}, DELIMITER ∉ r →
      framesOf (segmentFrame C FRAME) (completed DELIMITER r) <+: f :: fs := by
      intro r hr
      have hsp : r.splitOn DELIMITER = [] ++ [r] := @splitOn_ended UInt8 DELIMITER _ [] r nofun hr
      rw [completed, hsp, dropLast_concat]
      exact nil_prefix
    by_cases hd : DELIMITER ∈ p
    · rw [flatMap_cons] at h
      obtain ⟨p', rfl, hp'⟩ := first_frame hC h hd
      have hre := ih (fun g hg => hfit g (mem_cons_of_mem _ hg)) hp'
      have hsp : (wireBytes C f ++ p').splitOn DELIMITER = C.cobsEncode (rawOf C f) :: p'.splitOn DELIMITER := by
        rw [wireBytes, append_assoc, splitOn_eq_splitOnP, singleton_append,
          splitOnP_append_cons_of_forall_mem (beq_false_of_not_mem hw) DELIMITER (beq_self_eq_true _),
          ← splitOn_eq_splitOnP]
      have hne : p'.splitOn DELIMITER ≠ [] := by
        rw [splitOn_eq_splitOnP]
        exact splitOnP_ne_nil _ _
      have hf : framesOf (segmentFrame C FRAME) (completed DELIMITER (wireBytes C f ++ p')) =
          f :: framesOf (segmentFrame C FRAME) (completed DELIMITER p') := by
        rw [completed, hsp, dropLast_cons_of_ne_nil hne]
        simp [framesOf, completed, hC.encode_ne_nil _ rawOf_ne_nil,
          segmentFrame_wire hC (hfit f mem_cons_self)]
      rw [hf]
      exact cons_prefix_cons.mpr ⟨rfl, hre⟩
    · exact hn hd

lemma balanced_kept (h : Balanced DELIMITER a (s.ledger C)) (hd : s.dropped = []) :
    s.drained ++ s.link.tx = (s.queued C).flatMap (wireBytes C) := by
  obtain ⟨parts, hq, hk, hl, -⟩ := balanced_parts h
  rw [hd] at hl
  have hw : ∀ p ∈ parts, whole p = p.1 := by
    intro p hp
    have hn : p.2 = [] := by
      by_contra hne
      have hm : p.2 ∈ (parts.map Prod.snd).filter (!·.isEmpty) :=
        mem_filter.mpr ⟨mem_map_of_mem hp, by simpa using hne⟩
      rw [← hl] at hm
      exact absurd hm not_mem_nil
    rw [whole, hn, append_nil]
  rw [hk, flatMap_def, flatMap_def, hq]
  exact congrArg List.flatten (map_congr_left fun p hp => (hw p hp).symm)

theorem data_numbers_gapless {C : Codec} (hC : C.Lawful) {l : Link N FRAME} (hl : l.tx = []) (ops : List Op) :
    Gapless C (run C l ops) ↔ EvenFailures C (run C l ops) := by
  have hq := (run_numbered (C := C) l ops).queued
  have hiff := consecutive_numbers l.dataSeq 0 (dataFits C (run C l ops).attempts)
  rw [← hq] at hiff
  refine Iff.trans ⟨fun h => h.1, fun h => ⟨h, fun hd => ?_⟩⟩ hiff
  obtain ⟨a, ha⟩ := run_balanced hC hl ops
  have hfrs := framesOf_cut hC (fun f hf => queued_fitting hf) (balanced_kept ha hd)
  obtain ⟨rest, hr⟩ := hfrs
  rw [← hr, dataNumbers_append, Consecutive] at h
  exact (isChain_append.mp h).1

def smallBoard : Link 2 64 := ((initial boardId boardPorts 60 200).publishes poseType posePort).2

def hostGreeting : Bytes := wireBytes standard (⟨.hello, 0, 0⟩, helloBytes false false hostId host.localEntries)

def crowded : List Op :=
  [.feed hostGreeting, .next, .drain 200, .send poseType posePort (List.replicate 30 1),
    .send poseType posePort (List.replicate 30 2), .drain 200, .send poseType posePort
      (List.replicate 30 3), .drain 200]

theorem data_numbers_crowded : ¬ Gapless standard (run standard smallBoard crowded) ∧
    dataNumbers (arrived standard (run standard smallBoard crowded)) = [0, 2] := by
  have hq : dataNumbers ((run standard smallBoard crowded).queued standard) = [0, 2] := by decide +kernel
  refine ⟨fun h => ?_, by decide +kernel⟩
  have hg := h.1
  rw [hq] at hg
  exact absurd hg (by decide)

theorem data_numbers_roomy : dataNumbers ((run standard board crowded).queued standard) = [0, 1, 2] ∧
    Gapless standard (run standard board crowded) := by
  refine ⟨by decide +kernel, (data_numbers_gapless standard_lawful rfl crowded).mpr ?_⟩
  have ho : dataFits standard (run standard board crowded).attempts = [true, true, true] := by
    decide +kernel
  rw [EvenFailures, ho]
  decide

end Reiny.Link
