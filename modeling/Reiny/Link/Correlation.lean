import Reiny.Lib.Reuse
import Reiny.Link.Outstanding

namespace Reiny.Link

open Lib Words Utf8 Results Wire HelloFormat Ports State

variable {N FRAME : ℕ}

abbrev Pair := UInt32 × UInt8

def calls (l : Link N FRAME) : Vector (Option Pair) N × UInt8 := (l.pending, l.reqSeq)

lemma calls_eq {l l' : Link N FRAME} : l'.calls = l.calls ↔ l'.pending = l.pending ∧ l'.reqSeq = l.reqSeq :=
  Prod.mk_inj

def Op.issued (C : Codec) (l : Link N FRAME) : Op → Option Pair
  | .request S name req =>
    match l.requestHash S name, (l.request C S name req).1 with
    | .ok hash, .ok seq => some (hash, seq)
    | _, _ => none
  | .requestRaw hash payload =>
    match (l.requestRaw C hash payload).1 with
    | .ok seq => some (hash, seq)
    | .error _ => none
  | _ => none

def issues (C : Codec) : Link N FRAME → List Op → List Pair
  | _, [] => []
  | l, op :: ops => (op.issued C l).toList ++ issues C (op.apply C l) ops

section Untouched

variable {C : Codec} (l : Link N FRAME) {l' : Link N FRAME}

variable {l} in
lemma Sends.calls (h : Sends C l l') : l'.calls = l.calls := h.keeps fun _ _ _ _ _ => rfl

@[simp] lemma ensureStarted_calls : (l.ensureStarted C).calls = l.calls :=
  ensureStarted_keeps l (fun _ _ _ _ => rfl) fun _ => rfl

@[simp] lemma rxCompact_calls : l.rxCompact.calls = l.calls := by
  unfold rxCompact
  split_ifs <;> rfl

variable {l} in
lemma Plain.calls (h : Plain C l l') : l'.calls = l.calls := by
  cases h with
  | sent h => exact h.calls
  | drained n stats => exact ensureStarted_calls l
  | configured config => rfl
  | declared _ =>
    unfold declare
    split
    · rfl
    · rename_i t ht
      obtain ⟨-, port, locals, -, -, -, rfl⟩ := declare_ok ht
      rfl

lemma feed_calls (bytes : Bytes) : (l.feed C bytes).2.calls = l.calls := by
  unfold feed
  exact (feedLoop_keeps _ (fun _ _ _ _ => rfl) _ bytes).trans (by rw [rxCompact_calls, ensureStarted_calls])

end Untouched

section Requests

variable {C : Codec} {l l' : Link N FRAME} {hash : UInt32} {payload : Bytes}

inductive Refused (C : Codec) (l : Link N FRAME) (payload : Bytes) : Error → Prop
  | live (h : ∀ slot : Fin N, getElem l.pending slot slot.isLt ≠ none) : Refused C l payload .tableFull
  | frame (h : FRAME < OVERHEAD + payload.length) : Refused C l payload .tooLarge
  | buffer (h : l.txCap - l.tx.length < encodedMax C (OVERHEAD + payload.length)) : Refused C l payload .full

variable {e : Error} {seq : UInt8} {α : Type} {check : Except Error Unit}

lemma emit_error {kind : Kind} (h : l.emit C kind hash seq payload = (.error e, l')) :
    Refused C l payload e ∧ l'.calls = l.calls ∧ l'.tx = l.tx := by
  rcases emit_cases l C kind hash seq payload with ⟨e', n, hu, he⟩ | ⟨raw, -, -, he⟩ <;> cases he.symm.trans h
  cases hu with
  | frame hf => exact ⟨.frame hf, rfl, rfl⟩
  | buffer hr => exact ⟨.buffer hr, rfl, rfl⟩

lemma freeSeq_some (hN : N < 256) (hash : UInt32) : ∃ seq, l.freeSeq hash = some seq := by
  by_contra hn
  have hn : l.freeSeq hash = none := by
    cases h : l.freeSeq hash with
    | none => rfl
    | some seq => exact absurd ⟨seq, h⟩ hn
  have hall : ∀ offset < 256, some (hash, l.reqSeq + UInt8.ofNat offset) ∈ l.pending := by
    intro offset ho
    have hin := List.find?_eq_none.mp hn (l.reqSeq + UInt8.ofNat offset)
      (List.mem_map_of_mem (List.mem_range.mpr ho))
    simpa using hin
  let taken : Finset (Option Pair) := (Finset.range 256).image fun offset =>
    some (hash, l.reqSeq + UInt8.ofNat offset)
  have hc : taken.card = 256 := by
    rw [Finset.card_image_of_injOn, Finset.card_range]
    intro a ha b hb heq
    rw [Finset.coe_range, Set.mem_Iio] at ha hb
    simp only [Option.some.injEq, Prod.mk.injEq, true_and] at heq
    have hnat := congrArg UInt8.toNat heq
    simp only [UInt8.toNat_add, UInt8.toNat_ofNat'] at hnat
    omega
  have hs : taken ⊆ l.pending.toList.toFinset := by
    intro x hx
    obtain ⟨offset, ho, rfl⟩ := Finset.mem_image.mp hx
    rw [List.mem_toFinset, Vector.mem_toList_iff]
    exact hall offset (Finset.mem_range.mp ho)
  have hle := (Finset.card_le_card hs).trans (List.toFinset_card_le _)
  rw [hc, Vector.length_toList] at hle
  omega

structure Issued (l l' : Link N FRAME) (hash : UInt32) (seq : UInt8) (free : Fin N) : Prop where
  slot : getElem l.pending free free.isLt = none
  unused : l.freeSeq hash = some seq
  pending : l'.pending = l.pending.set free (some (hash, seq)) free.isLt
  next : l'.reqSeq = seq + 1

lemma emitRequest_error (h : l.emitRequest C hash payload = (.error e, l')) :
    (N < 256 → Refused C l payload e) ∧ l'.calls = l.calls ∧ l'.tx = l.tx := by
  unfold emitRequest at h
  cases hf : l.pending.findFinIdx? (·.isNone) with
  | none =>
    rw [hf] at h
    cases h
    refine ⟨fun _ => .live fun slot hs => ?_, rfl, rfl⟩
    have hn := Vector.findFinIdx?_eq_none_iff.mp hf l.pending[slot] (Vector.getElem_mem slot.isLt)
    rw [hs] at hn
    exact hn rfl
  | some free =>
    cases hseq : l.freeSeq hash with
    | none =>
      rw [hf, hseq] at h
      cases h
      refine ⟨fun hN => ?_, rfl, rfl⟩
      obtain ⟨seq, hso⟩ := freeSeq_some (l := l) hN hash
      rw [hseq] at hso
      cases hso
    | some seq =>
      rw [hf, hseq] at h
      rcases he : l.emit C .request hash seq payload with ⟨e' | u, next⟩
      · simp only [he] at h
        cases h
        obtain ⟨hr, hcs, htx⟩ := emit_error he
        exact ⟨fun _ => hr, hcs, htx⟩
      · simp only [he] at h
        cases h

lemma emitRequest_ok (h : l.emitRequest C hash payload = (.ok seq, l')) :
    ∃ free, Issued l l' hash seq free := by
  unfold emitRequest at h
  cases hf : l.pending.findFinIdx? (·.isNone) with
  | none =>
    rw [hf] at h
    cases h
  | some free =>
    cases hs : l.freeSeq hash with
    | none =>
      rw [hf, hs] at h
      cases h
    | some seq' =>
      have hcs := (emit_sends (C := C) l .request hash seq' payload).calls
      rw [hf, hs] at h
      rcases he : l.emit C .request hash seq' payload with ⟨e | u, next⟩
      · simp only [he] at h
        cases h
      · simp only [he] at h
        rw [he] at hcs
        obtain ⟨hp, -⟩ := calls_eq.mp hcs
        cases h
        refine ⟨free, by simpa using slot_found hf, hs, ?_, rfl⟩
        change next.pending.set free (some (hash, seq)) = _
        rw [hp]

lemma guarded_error {act : Except Error α × Link N FRAME}
    (ha : ∀ e' m, act = (.error e', m) → m.calls = l.calls ∧ m.tx = l.tx)
    (h : l.guarded check act = (.error e, l')) : l'.calls = l.calls ∧ l'.tx = l.tx := by
  cases check with
  | error e' =>
    cases h
    exact ⟨rfl, rfl⟩
  | ok u => exact ha e l' h

lemma guarded_ok {act : Except Error α × Link N FRAME} {a : α} (h : l.guarded check act = (.ok a, l')) :
    act = (.ok a, l') := by
  cases check with
  | error e' => cases h
  | ok u => exact h

lemma request_error {S : Service} {name : Str} (h : l.request C S name payload = (.error e, l')) :
    l'.calls = l.calls ∧ l'.tx = l.tx := by
  unfold request at h
  cases hh : l.requestHash S name with
  | error e' =>
    rw [hh] at h
    cases h
    exact ⟨rfl, rfl⟩
  | ok hash =>
    rw [hh] at h
    refine guarded_error (fun e' m hm => ?_) h
    refine guarded_error (fun e' m hm => ?_) hm
    exact guarded_error (fun e' m hm => (emitRequest_error hm).2) hm

lemma requestRaw_error (h : l.requestRaw C hash payload = (.error e, l')) :
    l'.calls = l.calls ∧ l'.tx = l.tx := by
  refine guarded_error (fun e' m hm => ?_) h
  refine guarded_error (fun e' m hm => ?_) hm
  exact guarded_error (fun e' m hm => (emitRequest_error hm).2) hm

end Requests

section Receiving

variable {C : Codec} {l m l' : Link N FRAME}

def answered : Option Event → Option Pair
  | some (.reply frame) => some (frame.hash, frame.seq)
  | some (.error frame) => some (frame.hash, frame.seq)
  | _ => none

inductive Received (l l' : Link N FRAME) : Option Pair → Prop
  | kept (h : l'.calls = l.calls) : Received l l' none
  | dropped (h : l'.calls = (.replicate N none, l.reqSeq)) : Received l l' none
  | answered {slot : Fin N} {pair : Pair} (hlive : getElem l.pending slot slot.isLt = some pair)
      (h : l'.calls = (l.pending.set slot none slot.isLt, l.reqSeq)) : Received l l' (some pair)

variable {answer : Option Pair}

lemma Received.congr {k : Link N FRAME} (h : Received l m answer) (hk : l.calls = k.calls)
    (hl : l'.calls = m.calls) : Received k l' answer := by
  obtain ⟨hp, hs⟩ := calls_eq.mp hk
  cases h with
  | kept h => exact .kept (hl.trans (h.trans hk))
  | dropped h => exact .dropped (hl.trans (h.trans (by rw [hs])))
  | answered hli h =>
    refine .answered (by rw [← hli, hp]) (hl.trans (h.trans ?_))
    rw [hp, hs]

lemma Received.trans (h : Received l m none) (h' : Received m l' answer) : Received l l' answer := by
  cases h with
  | kept h => exact h'.congr h rfl
  | dropped h =>
    obtain ⟨hp, hs⟩ := Prod.mk.inj h
    cases h' with
    | kept h' => exact .dropped (h'.trans h)
    | dropped h' => exact .dropped (h'.trans (by rw [hs]))
    | answered hl h' =>
      rw [hp] at hl
      simp at hl

lemma cancelRequest_answered {hash : UInt32} {seq : UInt8} (h : l.pending.contains (some (hash, seq)) = true) :
    Received l (l.cancelRequest hash seq) (some (hash, seq)) := by
  cases hf : l.pending.findFinIdx? (· == some (hash, seq)) with
  | none =>
    have hn := Vector.findFinIdx?_eq_none_iff.mp hf (some (hash, seq)) (by simpa using h)
    simp at hn
  | some slot =>
    have hs : l.pending[slot] = some (hash, seq) := by simpa using slot_found hf
    refine .answered hs ?_
    simp only [cancelRequest, Tables.cancelRequest, hf]
    rfl

lemma onReply_received (frame : Frame) (event : Event)
    (hev : answered (some event) = some (frame.hash, frame.seq)) :
    Received l (l.onReply frame event).2 (answered (l.onReply frame event).1) := by
  unfold onReply
  split_ifs with h
  · exact .kept rfl
  · simp only [Bool.or_eq_true, Bool.not_eq_true', not_or, Bool.not_eq_false] at h
    rw [hev]
    exact cancelRequest_answered h.2

lemma onHello_received (frame : Frame) : Received l (l.onHello C frame).2 (answered (l.onHello C frame).1) := by
  unfold onHello
  split
  · rename_i e _
    rw [refuseHello, show answered (if l.connected then some .disconnected else none) = none by split_ifs <;> rfl]
    refine .dropped ?_
    unfold countOverflow
    split_ifs <;> rfl
  · rename_i contract _
    rw [acceptHello,
      show answered (if (!contract.ack || !l.connected) = true then some (.connected frame) else none) =
      none by split_ifs <;> rfl]
    refine .kept ?_
    dsimp only
    split_ifs
    · rfl
    · exact (queueHello_sends _ true).calls

lemma dispatch_received (frame : Frame) : Received l (l.dispatch C frame).2 (answered (l.dispatch C frame).1) := by
  unfold dispatch
  split
  · exact onHello_received frame
  · exact .kept rfl
  · unfold onData
    split_ifs <;> exact .kept rfl
  · unfold onRequest
    dsimp only
    split_ifs
    · exact .kept (emit_sends l.dropUnwanted _ _ _ _).calls
    · exact .kept rfl
    · exact .kept (emit_sends l.dropUnwanted _ _ _ _).calls
  · exact onReply_received frame (.reply frame) rfl
  · exact onReply_received frame (.error frame) rfl

lemma nextRound_received {event : Option Event} (h : l.nextRound C = some (event, l')) :
    Received l l' (answered event) := by
  obtain ⟨n, -, ⟨-, rfl, stats, rfl⟩ | ⟨frame, rx, after, -, -, hd, hl'⟩⟩ := nextRound_cases l h
  · exact .kept rfl
  · have hr := dispatch_received (C := C) (l := (l.received frame rx (n + 1)).2) (l.received frame rx (n + 1)).1
    rw [hd] at hr
    rcases hl' with ⟨-, rfl⟩ | ⟨rfl, rfl⟩
    · exact hr.congr rfl rfl
    · exact hr.congr rfl (rxCompact_calls _)

lemma nextLoop_received (fuel : ℕ) : Received l (nextLoop C fuel l).2 (answered (nextLoop C fuel l).1) :=
  nextLoop_rule (P := fun _ => True) (Q := fun l event l' => Received l l' (answered event)) (fun _ _ => .kept rfl)
    (fun _ _ _ _ h => ⟨nextRound_received h, fun _ => trivial⟩) (fun _ _ _ _ h h' => h.trans h') fuel trivial

lemma next_received : Received l (l.next C).2 (answered (l.next C).1) :=
  (nextLoop_received _).congr (by rw [rxCompact_calls, ensureStarted_calls]) rfl

end Receiving

section Histories

variable {C : Codec} {l l' : Link N FRAME}

inductive Correlates (l l' : Link N FRAME) : Option Pair → Prop
  | received {answer : Option Pair} (h : Received l l' answer) : Correlates l l' none
  | issued {hash : UInt32} {seq : UInt8} {free : Fin N} (h : Issued l l' hash seq free) :
      Correlates l l' (some (hash, seq))

lemma Correlates.untouched (h : l'.calls = l.calls) : Correlates l l' none := .received (.kept h)

lemma request_correlates (S : Service) (name : Str) (req : Bytes) :
    Correlates l (l.request C S name req).2 (Op.issued C l (.request S name req)) := by
  rcases hr : l.request C S name req with ⟨e | seq, next⟩
  · have his : Op.issued C l (.request S name req) = none := by
      simp only [Op.issued, hr]
      cases l.requestHash S name <;> rfl
    rw [his]
    exact .untouched (request_error hr).1
  · cases hh : l.requestHash S name with
    | error e =>
      simp only [request, hh] at hr
      cases hr
    | ok hash =>
      have his : Op.issued C l (.request S name req) = some (hash, seq) := by
        simp only [Op.issued, hr, hh]
      rw [his]
      simp only [request, hh] at hr
      obtain ⟨free, hf⟩ := emitRequest_ok (guarded_ok (guarded_ok (guarded_ok hr)))
      exact .issued hf

lemma requestRaw_correlates (hash : UInt32) (payload : Bytes) :
    Correlates l (l.requestRaw C hash payload).2 (Op.issued C l (.requestRaw hash payload)) := by
  rcases hr : l.requestRaw C hash payload with ⟨e | seq, next⟩
  · have his : Op.issued C l (.requestRaw hash payload) = none := by
      simp only [Op.issued, hr]
    rw [his]
    exact .untouched (requestRaw_error hr).1
  · have his : Op.issued C l (.requestRaw hash payload) = some (hash, seq) := by
      simp only [Op.issued, hr]
    rw [his]
    obtain ⟨free, hf⟩ := emitRequest_ok (guarded_ok (guarded_ok (guarded_ok hr)))
    exact .issued hf

lemma tick_correlates (nowMs : UInt32) : Correlates l (l.tick C nowMs).2 none := by
  unfold tick
  dsimp only
  split_ifs
  · exact .untouched (ensureStarted_calls { l with nowMs, lastRxMs := nowMs })
  · exact .received (.dropped rfl)
  · exact .untouched (emit_sends { l with nowMs } _ _ _ _).calls
  · exact .untouched rfl
  · exact .untouched (queueHello_sends { l with nowMs } false).calls
  · exact .untouched rfl

lemma cancelRequest_correlates (hash : UInt32) (seq : UInt8) : Correlates l (l.cancelRequest hash seq) none := by
  cases hl : l.pending.contains (some (hash, seq)) with
  | true => exact .received (cancelRequest_answered hl)
  | false =>
    have hf : l.pending.findFinIdx? (· == some (hash, seq)) = none := by
      rw [Vector.findFinIdx?_eq_none_iff]
      intro x hx heq
      rw [beq_iff_eq] at heq
      rw [Vector.contains_eq_mem, decide_eq_false_iff_not] at hl
      exact hl (heq ▸ hx)
    refine .untouched ?_
    simp only [cancelRequest, Tables.cancelRequest, hf]
    rfl

theorem apply_correlates (op : Op) : Correlates l (op.apply C l) (op.issued C l) := by
  cases op with
  | feed bytes => exact .untouched (feed_calls l bytes)
  | tick nowMs => exact tick_correlates nowMs
  | next => exact .received next_received
  | request S name req => exact request_correlates S name req
  | requestRaw hash payload => exact requestRaw_correlates hash payload
  | cancelRequest hash seq => exact cancelRequest_correlates hash seq
  | _ => exact .untouched (apply_plain l rfl rfl rfl).calls

def Distinct (pending : Vector (Option Pair) N) : Prop :=
  ∀ (i j : Fin N) (pair : Pair), getElem pending i i.isLt = some pair → getElem pending j j.isLt = some pair → i = j

variable {pending : Vector (Option Pair) N} {hash : UInt32} {seq : UInt8} {s : Reuse.State UInt32}

lemma Distinct.clear (h : Distinct pending) (slot : Fin N) : Distinct (pending.set slot none slot.isLt) := by
  intro i j pair hi hj
  simp only [Fin.getElem_fin, Vector.getElem_set] at hi hj
  split_ifs at hi hj
  exact h i j pair hi hj

lemma Distinct.fill (h : Distinct pending) (free : Fin N) {pair : Pair} (hn : some pair ∉ pending) :
    Distinct (pending.set free (some pair) free.isLt) := by
  have ho : ∀ i : Fin N, pending[i] ≠ some pair := by
    intro i hi
    exact hn (hi ▸ Vector.getElem_mem i.isLt)
  intro i j other hi hj
  simp only [Fin.getElem_fin, Vector.getElem_set] at hi hj
  split_ifs at hi hj with hfi hfj hfj
  · exact Fin.ext (hfi.symm.trans hfj)
  · cases hi
    exact absurd hj (ho j)
  · cases hj
    exact absurd hi (ho i)
  · exact h i j other hi hj

lemma Correlates.distinct {issued : Option Pair} (h : Correlates l l' issued) (hd : Distinct l.pending) :
    Distinct l'.pending := by
  cases h with
  | received h =>
    cases h with
    | kept h => rwa [(calls_eq.mp h).1]
    | dropped h =>
      rw [(Prod.mk.inj h).1]
      intro i j pair hi
      simp at hi
    | answered hl h =>
      rw [(Prod.mk.inj h).1]
      exact hd.clear _
  | issued h =>
    rw [h.pending]
    exact hd.fill _ (freeSeq_fresh l h.unused)

def livePairs (l : Link N FRAME) : Finset (UInt32 × ℕ) :=
  (l.pending.toList.filterMap id).toFinset.image fun pair => (pair.1, pair.2.toNat)

lemma mem_livePairs {x : UInt32 × ℕ} :
    x ∈ l.livePairs ↔ ∃ pair : Pair, some pair ∈ l.pending ∧ (pair.1, pair.2.toNat) = x := by
  simp only [livePairs, Finset.mem_image, List.mem_toFinset, List.mem_filterMap, Vector.mem_toList_iff, id_eq,
    exists_eq_right]

lemma livePairs_card : l.livePairs.card ≤ N := by
  refine Finset.card_image_le.trans ((List.toFinset_card_le _).trans ((List.length_filterMap_le _ _).trans ?_))
  rw [Vector.length_toList]

structure Counts (l : Link N FRAME) (s : Reuse.State UInt32) : Prop where
  live : s.live = l.livePairs
  next : s.next % 256 = l.reqSeq.toNat

lemma Received.subset {answer : Option Pair} (h : Received l l' answer) : l'.livePairs ⊆ l.livePairs := by
  intro x hx
  obtain ⟨pair, hp, rfl⟩ := mem_livePairs.mp hx
  refine mem_livePairs.mpr ⟨pair, ?_, rfl⟩
  cases h with
  | kept h => rwa [(calls_eq.mp h).1] at hp
  | dropped h =>
    rw [(Prod.mk.inj h).1, Vector.mem_replicate] at hp
    cases hp.2
  | answered hl h =>
    rw [(Prod.mk.inj h).1] at hp
    rcases Vector.mem_or_eq_of_mem_set hp with hin | heq
    · exact hin
    · cases heq

lemma Issued.livePairs_eq {free : Fin N} (h : Issued l l' hash seq free) :
    l'.livePairs = insert (hash, seq.toNat) l.livePairs := by
  ext x
  rw [Finset.mem_insert, mem_livePairs, mem_livePairs, h.pending]
  constructor
  · rintro ⟨pair, hp, rfl⟩
    rcases Vector.mem_or_eq_of_mem_set hp with hin | heq
    · exact .inr ⟨pair, hin, rfl⟩
    · cases heq
      exact .inl rfl
  · rintro (rfl | ⟨pair, hp, rfl⟩)
    · exact ⟨(hash, seq), Vector.mem_set free.isLt, rfl⟩
    · obtain ⟨i, hi, hg⟩ := Vector.mem_iff_getElem.mp hp
      refine ⟨pair, Vector.mem_iff_getElem.mpr ⟨i, hi, ?_⟩, rfl⟩
      have hne : (free : ℕ) ≠ i := by
        rintro rfl
        have hs := h.slot
        rw [Fin.getElem_fin, hg] at hs
        cases hs
      rw [Vector.getElem_set_ne _ _ hne, hg]

lemma freeSeq_offset (h : l.freeSeq hash = some seq) : ∃ offset,
    seq = l.reqSeq + UInt8.ofNat offset ∧ ∀ d < offset, some (hash, l.reqSeq + UInt8.ofNat d) ∈ l.pending := by
  obtain ⟨-, i, hi, hg, hb⟩ := List.find?_eq_some_iff_getElem.mp h
  simp only [List.getElem_map, List.getElem_range] at hg hb
  refine ⟨i, hg.symm, fun d hd => ?_⟩
  have hu := hb d hd
  simpa using hu

lemma Correlates.counts {issued : Option Pair} (h : Correlates l l' issued) (hs : Counts l s) :
    ∃ s', Reuse.Step 256 s (issued.map fun pair => (pair.1, pair.2.toNat)) s' ∧ Counts l' s' := by
  obtain ⟨live, n⟩ := s
  obtain ⟨rfl, hn⟩ := hs
  cases h with
  | received h =>
    refine ⟨⟨l'.livePairs, n⟩, .release h.subset, rfl, ?_⟩
    have hseq : l'.reqSeq = l.reqSeq := by
      cases h with
      | kept h => exact (calls_eq.mp h).2
      | dropped h | answered _ h => exact (Prod.mk.inj h).2
    rw [hseq]
    exact hn
  | @issued hash seq free h =>
    obtain ⟨offset, ho, hu⟩ := freeSeq_offset h.unused
    have hp : ∀ d, (n + d) % 256 = (l.reqSeq + UInt8.ofNat d).toNat := by
      intro d
      change n % 256 = _ at hn
      rw [UInt8.toNat_add, UInt8.toNat_ofNat', ← hn]
      omega
    have hsk : ∀ q, n ≤ q → q < n + offset → (hash, q % 256) ∈ l.livePairs := by
      intro q hq hlt
      obtain ⟨d, rfl⟩ := Nat.exists_eq_add_of_le hq
      rw [hp d]
      exact mem_livePairs.mpr ⟨_, hu d (by omega), rfl⟩
    have hst := Reuse.Step.issue (Nat.le_add_right n offset) hsk
    rw [hp offset, ← ho] at hst
    refine ⟨_, hst, ?_, ?_⟩
    · exact h.livePairs_eq.symm
    · change (n + offset + 1) % 256 = _
      have hl := hp offset
      rw [← ho] at hl
      rw [h.next, UInt8.toNat_add, ← hl]
      simp

lemma issues_run (hs : Counts l s) (ops : List Op) : ∃ last,
    Reuse.Run 256 N s ((issues C l ops).map fun pair => (pair.1, pair.2.toNat)) last := by
  induction ops generalizing l s with
  | nil => exact ⟨s, .refl s⟩
  | cons op ops ih =>
    obtain ⟨mid, hst, hm⟩ := (apply_correlates (C := C) (l := l) op).counts hs
    obtain ⟨last, hr⟩ := ih hm
    refine ⟨last, ?_⟩
    rw [issues, List.map_append, ← Option.toList_map]
    exact .head hst (hm.live ▸ livePairs_card) hr

lemma run_distinct (hd : Distinct l.pending) (ops : List Op) : Distinct (ops.foldl (Op.apply C) l).pending := by
  induction ops generalizing l with
  | nil => exact hd
  | cons op ops ih => exact ih ((apply_correlates op).distinct hd)

end Histories

theorem request_correlation {C : Codec} {l₀ l : Link N FRAME} {ops : List Op} (hN : N < 256) (hopened : Opened l₀)
    (hl : l = ops.foldl (Op.apply C) l₀) :
    (∀ (i j : Fin N) (pair : Pair), getElem l.pending i i.isLt = some pair → getElem l.pending j j.isLt =
      some pair → i = j) ∧
    (∀ hash payload e l', l.emitRequest C hash payload = (.error e, l') →
      Refused C l payload e ∧ l'.pending = l.pending ∧ l'.reqSeq = l.reqSeq ∧ l'.tx = l.tx) ∧
    (∀ S name payload e l', l.request C S name payload = (.error e, l') →
      l'.pending = l.pending ∧ l'.reqSeq = l.reqSeq ∧ l'.tx = l.tx) ∧
    (∀ hash payload e l', l.requestRaw C hash payload = (.error e, l') →
      l'.pending = l.pending ∧ l'.reqSeq = l.reqSeq ∧ l'.tx = l.tx) ∧
    (∀ event l' frame, l.next C = (some event, l') → event = .reply frame ∨ event = .error frame →
      ∃ slot : Fin N, getElem l.pending slot slot.isLt = some (frame.hash, frame.seq) ∧
        l'.pending = l.pending.set slot none slot.isLt) ∧
    ∀ i j pair, (issues C l₀ ops)[i]? = some pair → (issues C l₀ ops)[j]? = some pair → i < j →
      256 - N ≤ j - i - 1 := by
  have hcs : l₀.calls = (.replicate N none, 0) := by
    cases hopened with
    | new hn | bridge hn =>
      obtain ⟨-, -, -, -, rfl⟩ := new_ok.mp hn
      rfl
  obtain ⟨hp, hseq⟩ := Prod.mk.inj hcs
  have hne : Distinct l₀.pending := by
    rw [hp]
    intro i j pair hi
    simp at hi
  refine ⟨?_, ?_, ?_, ?_, ?_, ?_⟩
  · rw [hl]
    exact run_distinct hne ops
  · intro hash payload e l' h
    obtain ⟨href, hs, htx⟩ := emitRequest_error h
    exact ⟨href hN, (calls_eq.mp hs).1, (calls_eq.mp hs).2, htx⟩
  · intro S name payload e l' h
    obtain ⟨hs, htx⟩ := request_error h
    exact ⟨(calls_eq.mp hs).1, (calls_eq.mp hs).2, htx⟩
  · intro hash payload e l' h
    obtain ⟨hs, htx⟩ := requestRaw_error h
    exact ⟨(calls_eq.mp hs).1, (calls_eq.mp hs).2, htx⟩
  · intro event l' frame h hev
    have hr := next_received (C := C) (l := l)
    have ha : answered (some event) = some (frame.hash, frame.seq) := by
      rcases hev with rfl | rfl <;> rfl
    rw [h, ha] at hr
    cases hr with
    | @answered slot _ hli hset => exact ⟨slot, hli, (Prod.mk.inj hset).1⟩
  · intro i j pair hi hj hlt
    have hst : Counts l₀ ⟨l₀.livePairs, 0⟩ := ⟨rfl, by rw [hseq]; rfl⟩
    obtain ⟨last, hrun⟩ := issues_run (C := C) hst ops
    have hi' := congrArg (Option.map fun pair : Pair => (pair.1, pair.2.toNat)) hi
    have hj' := congrArg (Option.map fun pair : Pair => (pair.1, pair.2.toNat)) hj
    rw [← List.getElem?_map] at hi' hj'
    have hd := Reuse.reuse_distance hrun hi' hj' hlt
    omega

def sumHistory : List Op := [.feed serverHello, .next, .requestRaw sumHash [1, 2], .feed sumReply]

theorem request_correlation_sum : issues standard bridgeEnd sumHistory = [(sumHash, 0)] ∧
    ∃ slot : Fin 2, (sumHistory.foldl (Op.apply standard) bridgeEnd).pending[slot] = some (sumHash, 0) := by
  have ho : Opened bridgeEnd := .bridge (new_ok.mpr ⟨by decide, by decide, by decide, by decide, rfl⟩)
  have his : issues standard bridgeEnd sumHistory = [(sumHash, 0)] := by decide +kernel
  have hs : (Link.next standard (sumHistory.foldl (Op.apply standard) bridgeEnd)).1 =
      some (.reply ⟨.reply, sumHash, 0, 9, 3⟩) := by decide +kernel
  generalize hl : sumHistory.foldl (Op.apply standard) bridgeEnd = l at hs ⊢
  obtain ⟨-, -, -, -, ha, -⟩ := request_correlation (by decide) ho hl.symm
  obtain ⟨slot, hsl, -⟩ := ha _ _ _ (Prod.ext hs rfl) (Or.inl rfl)
  exact ⟨his, slot, hsl⟩

end Reiny.Link
