import Reiny.Lib.Outbox
import Reiny.Link.Emissions

namespace Reiny.Link

open Lib Words Utf8 Results Outbox Wire HelloFormat Ports State List

variable {N FRAME : ℕ}

/-- A link with the history of its send buffer. `cut` says that `drain` has returned a part of the frame that is now
first, `torn` that `drain_frame` has dropped the rest of such a frame. -/
structure Outgoing (N FRAME : ℕ) where
  link : Link N FRAME
  attempts : List (Attempt N FRAME)
  drained : Bytes
  dropped : List Bytes
  cut : Bool
  torn : Bool

namespace Outgoing

variable (C : Codec)

def of (link : Link N FRAME) : Outgoing N FRAME := ⟨link, [], [], [], false, false⟩

def queued (s : Outgoing N FRAME) : List WireFrame := s.attempts.filterMap (Attempt.queued C)

def apply (s : Outgoing N FRAME) (op : Op) : Outgoing N FRAME :=
  { s with link := op.apply C s.link, attempts := s.attempts ++ op.attempts C s.link }

def returned (s : Outgoing N FRAME) (bytes : Bytes) (cut : Bool) : Outgoing N FRAME :=
  { s with drained := s.drained ++ bytes, cut }

def lost (s : Outgoing N FRAME) (bytes : Bytes) : Outgoing N FRAME :=
  { s with dropped := s.dropped ++ [bytes], torn := s.torn || s.cut, cut := false }

def step (s : Outgoing N FRAME) (op : Op) : Outgoing N FRAME :=
  match op with
  | .drain room =>
    let bytes := (s.link.drain C room).1
    (s.apply C op).returned bytes (if bytes = [] then s.cut else bytes.getLast? ≠ some DELIMITER)
  | .drainFrame room =>
    let held := (s.link.ensureStarted C).tx
    let left := (s.link.drainFrame C room).2.tx
    match (s.link.drainFrame C room).1 with
    | some bytes => (s.apply C op).returned bytes false
    | none => if left = held then s.apply C op else (s.apply C op).lost (held.take (held.length - left.length))
  | _ => s.apply C op

def run (l : Link N FRAME) (ops : List Op) : Outgoing N FRAME := ops.foldl (step C) (of l)

def ledger (s : Outgoing N FRAME) : Outbox.Ledger UInt8 :=
  ⟨(s.queued C).map (wireBytes C), s.drained, s.dropped, s.link.tx, s.cut, s.torn⟩

end Outgoing

open Outgoing

variable {C : Codec} {s : Outgoing N FRAME} {a : Account UInt8}

def enter (C : Codec) (s : Outbox.Ledger UInt8) (attempts : List (Attempt N FRAME)) : Outbox.Ledger UInt8 :=
  (attempts.filterMap (Attempt.queued C)).foldl (fun s f => s.put (wireBytes C f)) s

lemma enter_balanced (hC : C.Lawful) {s : Outbox.Ledger UInt8} (h : Balanced DELIMITER a s)
    (attempts : List (Attempt N FRAME)) : ∃ a', Balanced DELIMITER a' (enter C s attempts) := by
  unfold Link.enter
  induction attempts.filterMap (Attempt.queued C) generalizing a s with
  | nil => exact ⟨a, h⟩
  | cons f fs ih => exact ih (h.put ⟨C.cobsEncode (rawOf C f), hC.encode_nonzero _, rfl⟩)

lemma foldl_put (s : Outbox.Ledger UInt8) (fs : List WireFrame) : fs.foldl (fun s f => s.put (wireBytes C f)) s =
    { s with words := s.words ++ fs.map (wireBytes C), queue := s.queue ++ fs.flatMap (wireBytes C) } := by
  induction fs generalizing s with
  | nil => simp
  | cons f fs ih =>
    rw [foldl_cons, ih]
    simp [Outbox.Ledger.put]

variable {b : Attempt N FRAME} {l l' : Link N FRAME}

lemma queued_of_ok {f : WireFrame} (hfr : b.emission.frame b.on = some f) (hr : (b.run C).1 = .ok ()) :
    b.queued C = some f := by
  rw [Attempt.queued, hr]
  exact hfr

lemma queued_of_error {e : Error} (hr : (b.run C).1 = .error e) : b.queued C = none := by
  rw [Attempt.queued, hr]
  rfl

lemma Emits.tx {attempts : List (Attempt N FRAME)} (h : Emits C l attempts l') :
    l'.tx = l.tx ++ (attempts.filterMap (Attempt.queued C)).flatMap (wireBytes C) := by
  induction attempts generalizing l with
  | nil =>
    rw [h.1]
    simp
  | cons b attempts ih =>
    obtain ⟨hon, hr⟩ := h
    rw [ih hr]
    cases @run_outcome N FRAME C b.on b.emission with
    | failed hres htx =>
      rw [filterMap_cons_none (queued_of_error hres), ← hon.1, ← htx]
      rfl
    | queued hfr hf hres htx =>
      rw [filterMap_cons_some (queued_of_ok hfr hres), flatMap_cons, ← append_assoc, ← hon.1, ← htx]
      rfl

lemma ledger_enter (op : Op) (h : Emits C s.link (op.attempts C s.link) l') :
    enter C (s.ledger C) (op.attempts C s.link) =
      { s.ledger C with
        words := ((s.apply C op).queued C).map (wireBytes C)
        queue := l'.tx } := by
  unfold Link.enter
  rw [foldl_put, h.tx]
  simp [ledger, Outgoing.queued, Outgoing.apply]

lemma drainFrame_cases (l : Link N FRAME) (room : ℕ) :
    ((l.ensureStarted C).tx.findIdx? (· == DELIMITER) = none ∧ l.drainFrame C room = (none, l.ensureStarted C)) ∨
    ∃ i, (l.ensureStarted C).tx.findIdx? (· == DELIMITER) = some i ∧
      (l.drainFrame C room).1 = (if i + 1 ≤ room then some ((l.ensureStarted C).tx.take (i + 1)) else none) ∧
      (l.drainFrame C room).2.tx = (l.ensureStarted C).tx.drop (i + 1) := by
  unfold drainFrame
  dsimp only
  cases hf : (l.ensureStarted C).tx.findIdx? (· == DELIMITER) with
  | none => exact .inl ⟨rfl, rfl⟩
  | some i =>
    refine .inr ⟨i, rfl, ?_⟩
    by_cases hr : i + 1 ≤ room
    · simp only [not_lt.mpr hr, hr, if_true, if_false]
      exact ⟨trivial, rfl⟩
    · simp only [not_le.mp hr, hr, if_true, if_false]
      exact ⟨trivial, rfl⟩

lemma drain_balanced (hC : C.Lawful) (h : Balanced DELIMITER a (s.ledger C)) (room : ℕ) :
    ∃ a', Balanced DELIMITER a' ((s.step C (.drain room)).ledger C) := by
  obtain ⟨b, hb⟩ := enter_balanced hC h (Op.attempts C s.link (.drain room))
  obtain ⟨a', ha'⟩ := hb.take (min (s.link.ensureStarted C).tx.length room)
  refine ⟨a', ?_⟩
  rw [ledger_enter (.drain room) (startAttempts_emits s.link)] at ha'
  exact ha'

lemma drainFrame_dropped {held : Bytes} {i : ℕ} (hf : held.findIdx? (· == DELIMITER) = some i) :
    held.drop (i + 1) ≠ held ∧ held.take (held.length - (held.drop (i + 1)).length) = held.take (i + 1) := by
  obtain ⟨hi, -, -⟩ := findIdx?_eq_some_iff_getElem.mp hf
  constructor
  · intro heq
    have hl := congrArg List.length heq
    rw [length_drop] at hl
    omega
  · rw [length_drop]
    congr 1
    omega

lemma drainFrame_balanced (hC : C.Lawful) (h : Balanced DELIMITER a (s.ledger C)) (room : ℕ) :
    ∃ a', Balanced DELIMITER a' ((s.step C (.drainFrame room)).ledger C) := by
  obtain ⟨b, hb⟩ := enter_balanced hC h (Op.attempts C s.link (.drainFrame room))
  have hl := ledger_enter (s := s) (.drainFrame room) (startAttempts_emits (C := C) s.link)
  rw [hl] at hb
  rcases @drainFrame_cases N FRAME C s.link room with ⟨-, hdr⟩ | ⟨i, hf, hres, htx⟩
  · refine ⟨b, ?_⟩
    simp only [Outgoing.step, hdr, if_true]
    convert hb using 1
    simp only [Outgoing.apply, Op.apply, hdr]
    rfl
  · obtain ⟨w, ahead, ha, hlen⟩ := hb.delimiter hf
    by_cases hr : i + 1 ≤ room
    · rw [if_pos hr] at hres
      refine ⟨⟨b.gone ++ [(b.before ++ w, [])], [], ahead⟩, ?_⟩
      have hs := hb.shift ha
      rw [hlen] at hs
      simp only [Outgoing.step, hres]
      convert hs using 1
      simp only [ledger, returned, Outgoing.queued, Outgoing.apply, Op.apply, Outbox.Ledger.shift, htx]
    · rw [if_neg hr] at hres
      obtain ⟨hne, ht⟩ := drainFrame_dropped hf
      refine ⟨⟨b.gone ++ [(b.before, w)], [], ahead⟩, ?_⟩
      have hd := hb.discard ha
      rw [hlen] at hd
      simp only [Outgoing.step, hres, htx, if_neg hne, ht]
      convert hd using 1
      simp only [ledger, lost, Outgoing.queued, Outgoing.apply, Op.apply, Outbox.Ledger.discard, htx]

lemma step_balanced (hC : C.Lawful) (h : Balanced DELIMITER a (s.ledger C)) (op : Op) :
    ∃ a', Balanced DELIMITER a' ((s.step C op).ledger C) := by
  cases hop : op.drains with
  | false =>
    have hs : s.step C op = s.apply C op := by
      cases op <;> first | rfl | cases hop
    obtain ⟨a', ha'⟩ := enter_balanced hC h (op.attempts C s.link)
    rw [ledger_enter op (apply_emits s.link hop)] at ha'
    rw [hs]
    exact ⟨a', ha'⟩
  | true =>
    cases op with
    | drain room => exact drain_balanced hC h room
    | drainFrame room => exact drainFrame_balanced hC h room
    | _ => cases hop

lemma run_balanced (hC : C.Lawful) (hl : l.tx = []) (ops : List Op) :
    ∃ a, Balanced DELIMITER a ((Outgoing.run C l ops).ledger C) := by
  unfold Outgoing.run
  have hst : ∃ a, Balanced DELIMITER a ((Outgoing.of l).ledger C) := by
    have he : (Outgoing.of l).ledger C = Outbox.Ledger.empty := by
      simp [ledger, Outgoing.of, Outgoing.queued, hl, Outbox.Ledger.empty]
    rw [he]
    exact ⟨_, balanced_empty⟩
  generalize Outgoing.of l = s at hst
  induction ops generalizing s with
  | nil => exact hst
  | cons op ops ih =>
    obtain ⟨a, ha⟩ := hst
    exact ih _ (step_balanced hC ha op)

def Faithful (C : Codec) (s : Outgoing N FRAME) : Prop :=
  ∃ fates : List (WireFrame × Bool), s.queued C = fates.map Prod.fst ∧
    s.drained ++ s.link.tx = (fates.filter Prod.snd).flatMap (fun fate => wireBytes C fate.1) ∧
    s.dropped = (fates.filter (!·.2)).map fun fate => wireBytes C fate.1

def Accounted (C : Codec) (s : Outgoing N FRAME) : Prop :=
  ∃ parts : List (Bytes × Bytes), (s.queued C).map (wireBytes C) = parts.map whole ∧
    s.drained ++ s.link.tx = parts.flatMap Prod.fst ∧ s.dropped = (parts.map Prod.snd).filter (!·.isEmpty)

def DrainsWhole (C : Codec) (s : Outgoing N FRAME) (room : ℕ) : Prop :=
  ((s.link.ensureStarted C).tx = [] ∧ (s.link.drainFrame C room).1 = none ∧ (s.link.drainFrame C room).2.tx = []) ∨
  ∃ gone f waiting, (s.step C (.drainFrame room)).queued C = gone ++ f :: waiting ∧
    (s.link.ensureStarted C).tx = wireBytes C f ++ waiting.flatMap (wireBytes C) ∧
    (s.link.drainFrame C room).1 = (if (wireBytes C f).length ≤ room then some (wireBytes C f) else none) ∧
    (s.link.drainFrame C room).2.tx = waiting.flatMap (wireBytes C)

lemma flatMap_kept (ahead : List Bytes) : (ahead.map fun w => ((w, []) : Bytes × Bytes)).flatMap Prod.fst =
    ahead.flatten := by
  induction ahead with
  | nil => rfl
  | cons w ahead ih => rw [map_cons, flatMap_cons, ih, flatten_cons]

lemma modifyHead_flatten {ahead : List Bytes} {before : Bytes} (h : ahead = [] → before = []) :
    (ahead.modifyHead (before ++ ·)).flatten = before ++ ahead.flatten := by
  cases ahead with
  | nil => simp [h rfl]
  | cons w ahead => simp

lemma balanced_parts (h : Balanced DELIMITER a (s.ledger C)) : ∃ parts : List (Bytes × Bytes),
    (s.queued C).map (wireBytes C) = parts.map whole ∧ s.drained ++ s.link.tx = parts.flatMap Prod.fst ∧
    s.dropped = (parts.map Prod.snd).filter (!·.isEmpty) ∧
    (s.torn = false → ∀ p ∈ parts, p.1 = [] ∨ p.2 = []) := by
  refine ⟨a.gone ++ (a.ahead.modifyHead (a.before ++ ·)).map fun w => (w, []), ?_, ?_, ?_, ?_⟩
  · have hw : (s.queued C).map (wireBytes C) = _ := h.words
    rw [hw, map_append, map_map]
    simp [Function.comp_def, whole]
  · have ht : s.drained = _ := h.taken
    have hq : s.link.tx = _ := h.queue
    rw [ht, hq, flatMap_append, flatMap_kept, modifyHead_flatten h.idle, append_assoc]
  · have hd : s.dropped = _ := h.dropped
    rw [hd, map_append, filter_append, map_map]
    simp [Function.comp_def]
  · intro hto p hp
    rcases mem_append.mp hp with hp | hp
    · exact h.torn hto p hp
    · obtain ⟨w, -, rfl⟩ := mem_map.mp hp
      exact .inr rfl

lemma fates_of_parts {fs : List WireFrame} {parts : List (Bytes × Bytes)}
    (h : fs.map (wireBytes C) = parts.map whole) (hp : ∀ p ∈ parts, p.1 = [] ∨ p.2 = []) :
    ∃ fates : List (WireFrame × Bool), fs = fates.map Prod.fst ∧
      parts.flatMap Prod.fst = (fates.filter Prod.snd).flatMap (fun fate => wireBytes C fate.1) ∧
      (parts.map Prod.snd).filter (!·.isEmpty) = (fates.filter (!·.2)).map fun fate => wireBytes C fate.1 := by
  induction parts generalizing fs with
  | nil =>
    rw [map_nil, map_eq_nil_iff] at h
    exact ⟨[], h, rfl, rfl⟩
  | cons p parts ih =>
    cases fs with
    | nil => cases h
    | cons f fs =>
      obtain ⟨hf, hr⟩ := List.cons.inj h
      obtain ⟨fates, hfs, hk, hl⟩ := ih hr fun q hq => hp q (mem_cons_of_mem _ hq)
      have hne : wireBytes C f ≠ [] := by simp [wireBytes]
      obtain ⟨kept, lost⟩ := p
      rcases hp _ mem_cons_self with rfl | rfl
      · refine ⟨(f, false) :: fates, by rw [hfs]; rfl, by simpa using hk, ?_⟩
        have hlost' : lost = wireBytes C f := hf.symm
        subst hlost'
        simpa [hne] using hl
      · have hkept' : kept = wireBytes C f := (hf.trans (append_nil _)).symm
        subst hkept'
        exact ⟨(f, true) :: fates, by rw [hfs]; rfl, by simpa using hk, by simpa using hl⟩

lemma drainsWhole (hC : C.Lawful) (h : Balanced DELIMITER a (s.ledger C)) (hc : s.cut = false) (room : ℕ) :
    DrainsWhole C s room := by
  obtain ⟨b, hb⟩ := enter_balanced hC h (Op.attempts C s.link (.drainFrame room))
  rw [ledger_enter (.drainFrame room) (startAttempts_emits s.link)] at hb
  have hbe : b.before = [] := by
    have hn := hb.cut.symm.trans hc
    simpa using hn
  have hq : (s.link.ensureStarted C).tx = b.ahead.flatten := hb.queue
  rcases @drainFrame_cases N FRAME C s.link room with ⟨hf, hd⟩ | ⟨i, hf, hres, htx⟩
  · have ha : b.ahead = [] := hb.silent hf
    rw [ha] at hq
    rw [DrainsWhole, hd]
    exact .inl ⟨hq, rfl, hq⟩
  · obtain ⟨w, ahead, ha, hl⟩ := hb.delimiter hf
    have hw : ((s.step C (.drainFrame room)).queued C).map (wireBytes C) = b.gone.map whole ++ w :: ahead := by
      have hqu : (s.step C (.drainFrame room)).queued C = (s.apply C (.drainFrame room)).queued C := by
        simp only [Outgoing.step]
        split
        · rfl
        · split <;> rfl
      rw [hqu]
      simpa [ha, hbe] using hb.words
    obtain ⟨gone, rest, hsp, -, hr⟩ := map_eq_append_iff.mp hw
    obtain ⟨f, waiting, rfl, rfl, rfl⟩ := map_eq_cons_iff.mp hr
    have hh : (s.link.ensureStarted C).tx = wireBytes C f ++ waiting.flatMap (wireBytes C) := by
      rw [hq, ha, flatten_cons, flatMap_def]
    refine .inr ⟨gone, f, waiting, hsp, hh, ?_, ?_⟩
    · rw [hres, hl, hh, ← hl, take_left]
    · rw [htx, hh, ← hl, drop_left]

theorem send_queue_fifo {C : Codec} (hC : C.Lawful) {l : Link N FRAME} (hl : l.tx = []) (ops : List Op) :
    Accounted C (Outgoing.run C l ops) ∧
    ((Outgoing.run C l ops).torn = false → Faithful C (Outgoing.run C l ops)) ∧
    (∀ (m : Link N FRAME) (emission : Emission) (e : Error),
      (emission.run C m).1 = .error e → (emission.run C m).2.tx = m.tx) ∧
    ((Outgoing.run C l ops).cut = false → ∀ room, DrainsWhole C (Outgoing.run C l ops) room) := by
  obtain ⟨a, ha⟩ := run_balanced hC hl ops
  obtain ⟨parts, hq, hk, hd, hp⟩ := balanced_parts ha
  refine ⟨⟨parts, hq, hk, hd⟩, ?_, ?_, fun hc room => drainsWhole hC ha hc room⟩
  · intro ht
    obtain ⟨fates, hf, hk', hlo⟩ := fates_of_parts hq (hp ht)
    exact ⟨fates, hf, hk.trans hk', hd.trans hlo⟩
  · intro m emission e he
    cases @run_outcome N FRAME C m emission with
    | failed hr htx => exact htx
    | queued hfr hfit hr htx =>
      rw [he] at hr
      cases hr

def tornHello : List Op := [.drain 1, .drainFrame 0]

theorem send_queue_torn : ¬ Faithful standard (Outgoing.run standard host tornHello) := by
  rintro ⟨fates, hq, hk, -⟩
  have hlen : ((Outgoing.run standard host tornHello).drained ++
      (Outgoing.run standard host tornHello).link.tx).length = 1 := by decide +kernel
  have hfrs : ∀ f ∈ (Outgoing.run standard host tornHello).queued standard, 1 < (wireBytes standard f).length := by
    decide +kernel
  rw [hk] at hlen
  cases hf : fates.filter Prod.snd with
  | nil =>
    rw [hf] at hlen
    cases hlen
  | cons fate rest =>
    have hm : fate ∈ fates := (mem_filter.mp (hf ▸ mem_cons_self)).1
    have hl := hfrs fate.1 (hq ▸ mem_map_of_mem hm)
    rw [hf, flatMap_cons, length_append] at hlen
    omega

theorem send_queue_fifo_host : Faithful standard (Outgoing.run standard host [.drainFrame 0, .drainFrame 200]) ∧
    DrainsWhole standard (Outgoing.run standard host [.drainFrame 0, .tick 1000, .tick 2000]) 200 := by
  have hd : (Outgoing.run standard host [.drainFrame 0, .drainFrame 200]).torn = false := by decide +kernel
  have hw : (Outgoing.run standard host [.drainFrame 0, .tick 1000, .tick 2000]).cut = false := by decide +kernel
  exact ⟨(send_queue_fifo standard_lawful rfl _).2.1 hd, (send_queue_fifo standard_lawful rfl _).2.2.2 hw 200⟩

end Reiny.Link
