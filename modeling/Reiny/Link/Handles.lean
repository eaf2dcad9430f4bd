import Reiny.Link.Memory

namespace Reiny.Link

open Lib Words Utf8 Results Slices Wire HelloFormat HelloCodec Ports State List

variable {N FRAME : ℕ}

structure Receiving where
  generation : UInt16
  cap : ℕ
  consumed : ℕ
  nowMs : UInt32
  lastRxMs : UInt32

def receiving (l : Link N FRAME) : Receiving := ⟨l.rxGeneration, l.rxCap, l.rxConsumed, l.nowMs, l.lastRxMs⟩

section Quiet

variable {C : Codec} (l : Link N FRAME) {l' : Link N FRAME}

@[simp] lemma ensureStarted_receiving : (l.ensureStarted C).receiving = l.receiving :=
  ensureStarted_keeps l (fun _ _ _ _ => rfl) fun _ => rfl

lemma dispatch_receiving (frame : Frame) : (l.dispatch C frame).2.receiving = l.receiving := by
  obtain ⟨t, -, hs⟩ := dispatch_sends (C := C) l frame
  exact hs.keeps (f := Link.receiving) fun _ _ _ _ _ => rfl

end Quiet

variable {C : Codec}

lemma apply_receiving (l : Link N FRAME) {op : Op} (hr : op.receives = false) (ht : op.ticks = false) :
    (op.apply C l).receiving = l.receiving := (apply_performed l hr ht).keeps fun _ _ _ _ _ _ _ _ => rfl

section Advancing

variable (C : Codec)

def compactBumps (l : Link N FRAME) : ℕ := if l.rxConsumed > 0 then 1 else 0

def roundBumps (l : Link N FRAME) : ℕ :=
  match l.roundCall C with
  | none => 1
  | some call => if (call.2.dispatch C call.1).1.isSome then 1 else 2

def loopBumps : ℕ → Link N FRAME → ℕ
  | 0, _ => 0
  | fuel + 1, l =>
    match l.nextRound C with
    | none => 0
    | some (some _, _) => l.roundBumps C
    | some (none, l') => l.roundBumps C + loopBumps fuel l'

def Op.bumps (l : Link N FRAME) : Op → ℕ
  | .feed _ => l.compactBumps
  | .next => l.compactBumps + loopBumps C ((l.ensureStarted C).rxCompact.rx.length + 1)
    (l.ensureStarted C).rxCompact
  | _ => 0

def applyAll (l : Link N FRAME) (ops : List Op) : Link N FRAME := ops.foldl (Op.apply C) l

def bumps : Link N FRAME → List Op → ℕ
  | _, [] => 0
  | l, op :: ops => op.bumps C l + bumps (op.apply C l) ops

end Advancing

section Rounds

variable {C : Codec} {l l' : Link N FRAME} {event : Option Event}

structure Rounded (C : Codec) (l : Link N FRAME) (event : Option Event) (l' : Link N FRAME) : Prop where
  generation : l'.rxGeneration = l.rxGeneration + UInt16.ofNat (l.roundBumps C)
  cap : l'.rxCap = l.rxCap
  now : l'.nowMs = l.nowMs
  stamp : l'.lastRxMs = if (l.roundCall C).isSome then l.nowMs else l.lastRxMs
  kept : event.isSome → ∃ call, l.roundCall C = some call ∧ call.2.dispatch C call.1 = (event, l') ∧
    0 < l'.rxConsumed
  released : event = none → l'.rxConsumed = 0

lemma dispatched_rounded {frame : Frame} {rx : Bytes} {n : ℕ} {after : Link N FRAME}
    (hrd : l.roundCall C = some (l.received frame rx (n + 1)))
    (hd : (l.received frame rx (n + 1)).2.dispatch C (l.received frame rx (n + 1)).1 = (event, after))
    (hl' : event ≠ none ∧ l' = after ∨ event = none ∧ l' = after.rxCompact) : Rounded C l event l' := by
  have hrx := @dispatch_receiving N FRAME C (l.received frame rx (n + 1)).2 (l.received frame rx (n + 1)).1
  rw [hd] at hrx
  have hg : after.rxGeneration = l.rxGeneration + 1 := congrArg Receiving.generation hrx
  have hu : after.rxConsumed = n + 1 := congrArg Receiving.consumed hrx
  have hs : after.lastRxMs = if (l.roundCall C).isSome then l.nowMs else l.lastRxMs := by
    rw [hrd]
    exact congrArg Receiving.lastRxMs hrx
  rcases hl' with ⟨hso, rfl⟩ | ⟨rfl, rfl⟩
  · refine ⟨?_, congrArg Receiving.cap hrx, congrArg Receiving.nowMs hrx, hs, ?_, fun hn => absurd hn hso⟩
    · rw [roundBumps, hrd]
      simpa [hd, Option.isSome_iff_ne_none.mpr hso] using hg
    · exact fun _ => ⟨_, hrd, hd, by omega⟩
  · have hc : after.rxCompact = rxDiscard { after with rxConsumed := 0 } after.rxConsumed :=
      if_pos (by omega)
    rw [hc]
    refine ⟨?_, congrArg Receiving.cap hrx, congrArg Receiving.nowMs hrx, hs, nofun, fun _ => rfl⟩
    rw [roundBumps, hrd]
    change after.rxGeneration + 1 = _
    rw [hg, UInt16.add_assoc]
    simp [hd]

lemma discarded_rounded (hrd : l.roundCall C = none) (hc : l.rxConsumed = 0) (stats : Stats) (n : ℕ) :
    Rounded C l none (rxDiscard { l with stats } n) where
  generation := by
    rw [roundBumps, hrd]
    rfl
  cap := rfl
  now := rfl
  stamp := by
    rw [hrd]
    rfl
  kept := nofun
  released := fun _ => hc

lemma nextRound_rounded (hc : l.rxConsumed = 0) (h : l.nextRound C = some (event, l')) : Rounded C l event l' := by
  rcases nextRound_call h with ⟨hca, rfl, n, stats, rfl⟩ | ⟨frame, rx, n, after, hca, hd, hl'⟩
  · exact discarded_rounded hca hc stats n
  · exact dispatched_rounded hca hd hl'

structure Advanced (C : Codec) (l : Link N FRAME) (count : ℕ) (calls : List (Call N FRAME))
    (r : Option Event × Link N FRAME) : Prop where
  generation : r.2.rxGeneration = l.rxGeneration + UInt16.ofNat count
  cap : r.2.rxCap = l.rxCap
  now : r.2.nowMs = l.nowMs
  stamp : r.2.lastRxMs = if calls = [] then l.lastRxMs else l.nowMs
  kept : r.1.isSome → ∃ (before : Link N FRAME) (call : Call N FRAME), before.roundCall C = some call ∧
    call.2.dispatch C call.1 = r ∧ 0 < r.2.rxConsumed

lemma nextLoop_advanced (fuel : ℕ) (hc : l.rxConsumed = 0) :
    Advanced C l (loopBumps C fuel l) (loopCalls C fuel l) (nextLoop C fuel l) := by
  induction fuel generalizing l with
  | zero => exact ⟨(UInt16.add_zero _).symm, rfl, rfl, rfl, fun h => by cases h⟩
  | succ fuel ih =>
    unfold loopBumps loopCalls nextLoop
    cases hrd : l.nextRound C with
    | none => exact ⟨(UInt16.add_zero _).symm, rfl, rfl, rfl, fun h => by cases h⟩
    | some result =>
      obtain ⟨event, l'⟩ := result
      have h := nextRound_rounded hc hrd
      cases event with
      | some event =>
        obtain ⟨call, hca, hd, hp⟩ := h.kept rfl
        refine ⟨h.generation, h.cap, h.now, ?_, fun _ => ⟨l, call, hca, hd, hp⟩⟩
        rw [hca]
        exact h.stamp.trans (by rw [hca]; rfl)
      | none =>
        have hr := ih (h.released rfl)
        refine ⟨?_, hr.cap.trans h.cap, hr.now.trans h.now, ?_, hr.kept⟩
        · rw [UInt16.ofNat_add, ← UInt16.add_assoc, ← h.generation]
          exact hr.generation
        · rw [hr.stamp, h.now, h.stamp]
          cases l.roundCall C with
          | none => rfl
          | some call => simp

@[simp] lemma rxCompact_receiving (l : Link N FRAME) : l.rxCompact.receiving =
    ⟨l.rxGeneration + UInt16.ofNat l.compactBumps, l.rxCap, 0, l.nowMs, l.lastRxMs⟩ := by
  unfold rxCompact compactBumps
  by_cases h : l.rxConsumed > 0
  · rw [if_pos h, if_pos h]
    rfl
  · rw [if_neg h, if_neg h]
    have hz : l.rxConsumed = 0 := by omega
    simp [receiving, hz]

lemma started_receiving (l : Link N FRAME) : (l.ensureStarted C).rxCompact.receiving =
    ⟨l.rxGeneration + UInt16.ofNat l.compactBumps, l.rxCap, 0, l.nowMs, l.lastRxMs⟩ := by
  have h := @ensureStarted_receiving N FRAME C l
  have hg : (l.ensureStarted C).rxGeneration = l.rxGeneration := congrArg Receiving.generation h
  have hcap : (l.ensureStarted C).rxCap = l.rxCap := congrArg Receiving.cap h
  have hc : (l.ensureStarted C).rxConsumed = l.rxConsumed := congrArg Receiving.consumed h
  have hn : (l.ensureStarted C).nowMs = l.nowMs := congrArg Receiving.nowMs h
  have hl : (l.ensureStarted C).lastRxMs = l.lastRxMs := congrArg Receiving.lastRxMs h
  rw [rxCompact_receiving, compactBumps, hg, hcap, hc, hn, hl, compactBumps]

lemma next_advanced (l : Link N FRAME) : Advanced C l (Op.bumps C l .next) (nextCalls C l) (l.next C) := by
  have h := @started_receiving N FRAME C l
  have hlo := nextLoop_advanced (C := C) ((l.ensureStarted C).rxCompact.rx.length + 1)
    (congrArg Receiving.consumed h)
  have hg : (l.ensureStarted C).rxCompact.rxGeneration = _ := congrArg Receiving.generation h
  have hc : (l.ensureStarted C).rxCompact.rxCap = l.rxCap := congrArg Receiving.cap h
  have hn : (l.ensureStarted C).rxCompact.nowMs = l.nowMs := congrArg Receiving.nowMs h
  have hl : (l.ensureStarted C).rxCompact.lastRxMs = l.lastRxMs := congrArg Receiving.lastRxMs h
  refine ⟨?_, hlo.cap.trans hc, hlo.now.trans hn, ?_, hlo.kept⟩
  · refine hlo.generation.trans ?_
    rw [hg, UInt16.add_assoc, ← UInt16.ofNat_add]
    rfl
  · refine hlo.stamp.trans ?_
    rw [hn, hl]
    rfl

lemma feed_receiving (l : Link N FRAME) (bytes : Bytes) : (l.feed C bytes).2.receiving =
    ⟨l.rxGeneration + UInt16.ofNat l.compactBumps, l.rxCap, 0, l.nowMs, l.lastRxMs⟩ :=
  (feedLoop_keeps _ (fun _ _ _ _ => rfl) (2 * bytes.length + 1) bytes).trans (started_receiving l)

lemma tick_receiving (l : Link N FRAME) (nowMs : UInt32) : (l.tick C nowMs).2.receiving =
    { l.receiving with nowMs, lastRxMs := if l.started then l.lastRxMs else nowMs } := by
  unfold tick
  dsimp only
  cases hs : l.started with
  | false => exact ensureStarted_receiving _
  | true =>
    simp only [Bool.true_eq_false, if_false, if_true]
    split_ifs
    · rfl
    · exact emit_keeps _ (fun _ _ _ _ => rfl) _ _ _ _
    · rfl
    · exact queueHello_keeps _ (fun _ _ _ _ => rfl) false
    · rfl

lemma apply_bumps (l : Link N FRAME) (op : Op) :
    (op.apply C l).rxGeneration = l.rxGeneration + UInt16.ofNat (op.bumps C l) ∧
    (op.apply C l).rxCap = l.rxCap := by
  have hq : ∀ l' : Link N FRAME, l'.receiving.generation = l.rxGeneration → l'.receiving.cap = l.rxCap →
      l'.rxGeneration = l.rxGeneration + UInt16.ofNat 0 ∧ l'.rxCap = l.rxCap :=
    fun l' hg hc => ⟨hg.trans (UInt16.add_zero _).symm, hc⟩
  cases hr : op.receives with
  | true =>
    cases op with
    | feed bytes =>
      have h := @feed_receiving N FRAME C l bytes
      exact ⟨congrArg Receiving.generation h, congrArg Receiving.cap h⟩
    | next => exact ⟨(next_advanced l).generation, (next_advanced l).cap⟩
    | _ => cases hr
  | false =>
    cases ht : op.ticks with
    | true =>
      cases op with
      | tick nowMs =>
        have h := @tick_receiving N FRAME C l nowMs
        exact hq _ (congrArg Receiving.generation h) (congrArg Receiving.cap h)
      | _ => cases ht
    | false =>
      have h := @apply_receiving N FRAME C l op hr ht
      have hn : op.bumps C l = 0 := by
        cases op <;> first | rfl | cases hr
      rw [hn]
      exact hq _ (congrArg Receiving.generation h) (congrArg Receiving.cap h)

lemma applyAll_bumps (l : Link N FRAME) (ops : List Op) :
    (applyAll C l ops).rxGeneration = l.rxGeneration + UInt16.ofNat (bumps C l ops) ∧
      (applyAll C l ops).rxCap = l.rxCap := by
  induction ops generalizing l with
  | nil => exact ⟨(UInt16.add_zero _).symm, rfl⟩
  | cons op ops ih =>
    obtain ⟨hg, hc⟩ := @apply_bumps N FRAME C l op
    obtain ⟨hg', hc'⟩ := ih (op.apply C l)
    refine ⟨hg'.trans ?_, hc'.trans hc⟩
    rw [hg, bumps, UInt16.ofNat_add, UInt16.add_assoc]

end Rounds

def State.Event.frame? : Event → Option Frame
  | .disconnected => none
  | .connected frame | .data frame | .request frame | .reply frame | .error frame => some frame

def regained (l : Link N FRAME) (frame : Frame) : Link N FRAME := { l with rxGeneration := frame.generation }

namespace Memory

def payload (m : Memory N FRAME) (frame : Frame) : Bytes :=
  if m.link.isFresh frame then (m.rx.drop HEADER).take frame.len else []

def decode {M : Type} (m : Memory N FRAME) (T : MessageType M) (frame : Frame) : Option M :=
  if (frame.kind = .data ∨ frame.kind = .request) ∧ m.view.frameContract frame = some T.contract then
    T.decode (m.payload frame)
  else none

def decodeReply {M : Type} (m : Memory N FRAME) (request : PortType) (R : MessageType M) (frame : Frame) :
    Option M :=
  if frame.kind = .reply ∧ m.view.frameContract frame = some request then
    let payload := m.payload frame
    if 8 ≤ payload.length ∧ UInt64.ofNat (ofLe (payload.take 8)) = R.contract.schema then
      R.decode (payload.drop 8)
    else none
  else none

structure Unreadable (m : Memory N FRAME) (frame : Frame) : Prop where
  payload : m.payload frame = []
  contract : m.view.frameContract frame = none
  decode : ∀ (M : Type) (T : MessageType M), m.decode T frame = none
  decodeReply : ∀ (M : Type) (request : PortType) (R : MessageType M), m.decodeReply request R frame = none

def Blank (m : Memory N FRAME) (frame : Frame) : Prop :=
  frame.len = 0 ∧ (m.view.regained frame).frameContract frame = none

end Memory

section Handles

variable {C : Codec} {l l' : Link N FRAME} {m : Memory N FRAME} {frame : Frame} {event : Event}

lemma unreadable_iff : m.Unreadable frame ↔ m.payload frame = [] ∧ m.view.frameContract frame = none := by
  constructor
  · intro h
    exact ⟨h.payload, h.contract⟩
  · rintro ⟨hp, hc⟩
    refine ⟨hp, hc, fun M T => ?_, fun M request R => ?_⟩
    · rw [Memory.decode, hc, if_neg (by simp)]
    · rw [Memory.decodeReply, hc, if_neg (by simp)]

lemma payload_stale (h : m.link.isFresh frame = false) : m.payload frame = [] := by
  rw [Memory.payload, h]
  rfl

lemma unreadable_cases (hl : HEADER + frame.len ≤ m.rx.length) :
    m.Unreadable frame ↔ m.link.isFresh frame = false ∨ m.Blank frame := by
  rw [unreadable_iff]
  cases hfr : m.link.isFresh frame with
  | false =>
    refine iff_of_true ⟨payload_stale hfr, ?_⟩ (Or.inl rfl)
    have hv : m.view.isFresh frame = false := hfr
    rw [frameContract, hv]
    rfl
  | true =>
    have hg : frame.generation = m.view.rxGeneration := beq_iff_eq.mp hfr
    have hs : m.view.regained frame = m.view := by rw [regained, hg]
    have hp : m.payload frame = [] ↔ frame.len = 0 := by
      rw [Memory.payload, hfr, if_pos rfl, ← length_eq_zero_iff, length_take, length_drop]
      omega
    rw [hp, Memory.Blank, hs]
    simp

lemma dispatch_frame (h : (l.dispatch C frame).1 = some event) :
    event = .disconnected ∨ event.frame? = some frame := by
  unfold dispatch at h
  cases hk : frame.kind with
  | hello =>
    simp only [hk, onHello] at h
    split at h
    · simp only [refuseHello] at h
      split_ifs at h
      exact .inl (Option.some.inj h).symm
    · simp only [acceptHello] at h
      split_ifs at h
      obtain rfl := Option.some.inj h
      exact .inr rfl
  | ping =>
    rw [hk] at h
    cases h
  | data =>
    simp only [hk, onData] at h
    split at h
    · cases h
    · split at h
      · cases h
      · obtain rfl := Option.some.inj h
        exact .inr rfl
  | request =>
    simp only [hk, onRequest] at h
    split at h
    · cases h
    · split at h
      · obtain rfl := Option.some.inj h
        exact .inr rfl
      · cases h
  | reply | error =>
    simp only [hk, onReply] at h
    split at h
    · cases h
    · obtain rfl := Option.some.inj h
      exact .inr rfl

lemma roundCall_length {call : Call N FRAME} (h : l.roundCall C = some call) :
    call.1.generation = call.2.rxGeneration ∧ HEADER + call.1.len ≤ call.2.rx.length := by
  unfold roundCall at h
  have hd : ∃ frameEnd frame rx, l.decodeFrame C frameEnd = some (frame, rx) ∧
      l.received frame rx (frameEnd + 1) = call := by
    split at h
    · cases h
    · cases h
    · obtain ⟨⟨frame, rx⟩, hdec, hc⟩ := Option.map_eq_some_iff.mp h
      exact ⟨_, frame, rx, hdec, hc⟩
  obtain ⟨frameEnd, frame, rx, hdec, rfl⟩ := hd
  refine ⟨rfl, ?_⟩
  change HEADER + frame.len ≤ rx.length
  unfold decodeFrame at hdec
  split at hdec
  · cases hdec
  · split_ifs at hdec
    split at hdec
    · cases hdec
    · rename_i raw _ _ header payload hp
      split_ifs at hdec
      cases hdec
      obtain ⟨ho, hpay⟩ := parse_payload hp
      have hl := congrArg List.length hpay
      simp only [length_take, length_drop, OVERHEAD, TRAILER] at hl ho
      rw [length_append]
      dsimp only
      omega

lemma next_handle (hC : C.Lawful) (hb : Buffered l) (hn : (l.next C).1 = some event)
    (hfr : event.frame? = some frame) :
    frame.generation = (l.next C).2.rxGeneration ∧ HEADER + frame.len ≤ (l.next C).2.rxCap := by
  obtain ⟨before, call, hc, hd, -⟩ := (next_advanced (C := C) l).kept (hn ▸ rfl)
  obtain ⟨hg, hl⟩ := roundCall_length hc
  have hpa : call.2.dispatch C call.1 = (some event, (l.next C).2) := by
    rw [hd, ← hn]
  have hs : call.1 = frame := by
    rcases dispatch_frame (congrArg Prod.fst hpa) with rfl | hev
    · cases hfr
    · exact Option.some.inj (hev.symm.trans hfr)
  subst hs
  have hr := @dispatch_receiving N FRAME C call.2 call.1
  have hp := @dispatch_rxPart N FRAME C call
  rw [hpa] at hr hp
  have hrx : (l.next C).2.rx = call.2.rx := (congrArg RxPart.rx hp).trans (RxPart.countBad_same _ _).2.2
  have hbu := perform_buffered hC hb .next
  have hf : (l.next C).2.rx.length ≤ (l.next C).2.rxCap := hbu.2.1
  rw [hrx] at hf
  exact ⟨hg.trans (congrArg Receiving.generation hr).symm, hl.trans hf⟩

end Handles

def Released (ops : List Op) : Prop := ∃ op ∈ ops, op.receives = true

lemma generation_eq {g : UInt16} {n : ℕ} : (g == g + UInt16.ofNat n) = true ↔ 65536 ∣ n := by
  rw [beq_iff_eq, ← UInt16.toNat_inj, UInt16.toNat_add, UInt16.toNat_ofNat']
  have hlt := g.toNat_lt
  omega

lemma applyAll_buffered (hC : C.Lawful) {l : Link N FRAME} (hb : Buffered l) (ops : List Op) :
    Buffered (applyAll C l ops) := by
  induction ops generalizing l with
  | nil => exact hb
  | cons op ops ih =>
    have hs := perform_buffered hC hb op
    rw [perform_apply] at hs
    exact ih hs

theorem stale_handles {C : Codec} (hC : C.Lawful) {start : Link N FRAME} (hstart : Opened start) (before : List Op)
    {event : Event} {frame : Frame} (hnext : ((applyAll C start before).next C).1 = some event)
    (hframe : event.frame? = some frame) (ops : List Op) {m : Memory N FRAME}
    (hm : Represents m (applyAll C ((applyAll C start before).next C).2 ops)) :
    (Released ops → m.Unreadable frame) ↔
      (Released ops → ¬ 65536 ∣ bumps C ((applyAll C start before).next C).2 ops ∨ m.Blank frame) := by
  have hb := applyAll_buffered hC hstart.buffered before
  obtain ⟨hg, hlen⟩ := next_handle hC hb hnext hframe
  obtain ⟨hl, hc⟩ := @applyAll_bumps N FRAME C ((applyAll C start before).next C).2 ops
  have hfr : m.link.isFresh frame = true ↔ 65536 ∣ bumps C ((applyAll C start before).next C).2 ops := by
    have hn : m.view.rxGeneration = _ := congrArg (fun l : Link N FRAME => l.rxGeneration) hm.view
    change (frame.generation == m.view.rxGeneration) = true ↔ _
    rw [hn, hl, hg]
    exact generation_eq
  have hsz : HEADER + frame.len ≤ m.rx.length := by
    rw [hm.cap, hc]
    exact hlen
  rw [unreadable_cases hsz, ← hfr, Bool.not_eq_true]

section Sample

def pose (b : UInt8) : Bytes := wireBytes standard (⟨.data, endpointHash boardId posePort, 0⟩, [b])

def toFirstPose : List Op := [.subscribes poseType posePort, .feed greeting, .next, .feed (pose 1)]

def poseLink : Link 2 64 := ((applyAll standard (initial hostId hostPorts 200 200) toFirstPose).next standard).2

def poseHandle : Frame := ⟨.data, endpointHash boardId posePort, 0, 1, 3⟩

lemma poseHandle_returned :
    ((applyAll standard (initial hostId hostPorts 200 200 : Link 2 64) toFirstPose).next standard).1 =
    some (.data poseHandle) := by
  decide +kernel

def emptySegment : List Op := [.feed [DELIMITER], .next]

def Quiet (l : Link N FRAME) : Prop :=
  l.started = true ∧ l.rx = [] ∧ l.rxConsumed = 0 ∧ l.rxSkip = false ∧ 0 < l.rxCap

variable {C : Codec} {l : Link N FRAME}

lemma emptySegment_apply (h : Quiet l) :
    applyAll C l emptySegment = { l with rxGeneration := l.rxGeneration + 1 } := by
  obtain ⟨hs, hrx, hc, hsk, hcap⟩ := h
  have hf : (l.feed C [DELIMITER]).2 = { l with rx := [DELIMITER] } := by
    have hm : min l.rxCap 1 = 1 := by omega
    simp [feed, ensureStarted, hs, rxCompact, hc, feedLoop, hsk, Nat.pos_iff_ne_zero.mp hcap, hm, hrx]
  have hn : ({ l with rx := [DELIMITER] } : Link N FRAME).next C =
      (none, { l with rxGeneration := l.rxGeneration + 1 }) := by
    simp [next, ensureStarted, hs, rxCompact, hc, nextLoop, nextRound, findIdx?_cons, rxDiscard, hrx]
  change ((l.feed C [DELIMITER]).2.next C).2 = _
  rw [hf, hn]

lemma emptySegments_apply (h : Quiet l) (k : ℕ) :
    applyAll C l (List.replicate k emptySegment).flatten =
      { l with rxGeneration := l.rxGeneration + UInt16.ofNat k } := by
  induction k generalizing l with
  | zero =>
    change l = { l with rxGeneration := l.rxGeneration + 0 }
    rw [UInt16.add_zero]
  | succ k ih =>
    have hq : Quiet ({ l with rxGeneration := l.rxGeneration + 1 } : Link N FRAME) := h
    rw [replicate_succ, flatten_cons, applyAll, foldl_append, ← applyAll, ← applyAll,
      emptySegment_apply h, ih hq, Nat.add_comm k 1, UInt16.ofNat_add, ← UInt16.add_assoc]
    rfl

def onwards (k : ℕ) : List Op := .next :: ((List.replicate k emptySegment).flatten ++ [.feed (pose 2), .next])

lemma onwards_apply (k : ℕ) : applyAll standard poseLink (onwards k) =
    applyAll standard { Op.apply standard poseLink .next with rxGeneration := 4 + UInt16.ofNat k }
      [.feed (pose 2), .next] := by
  have hq : Quiet (Op.apply standard poseLink .next) := by
    refine ⟨?_, ?_, ?_, ?_, ?_⟩ <;> decide +kernel
  have hg : (Op.apply standard poseLink .next).rxGeneration = 4 := by decide +kernel
  have hs := emptySegments_apply (C := standard) hq k
  rw [hg] at hs
  rw [applyAll, onwards, foldl_cons, foldl_append, ← applyAll, ← applyAll, hs]

def secondPose : Link 2 64 :=
  applyAll standard { Op.apply standard poseLink .next with rxGeneration := 2 } [.feed (pose 2), .next]

def secondMemory : Memory 2 64 := ⟨secondPose.rx ++ List.replicate 186 0, 14, secondPose⟩

lemma secondMemory_represents : Represents secondMemory (applyAll standard poseLink (onwards 65534)) := by
  rw [onwards_apply 65534, show (4 : UInt16) + UInt16.ofNat 65534 = 2 by decide, ← secondPose]
  have hl : secondPose.rx.length = 14 := by decide +kernel
  have hc : secondPose.rxCap = 200 := by decide +kernel
  have ht : (secondPose.rx ++ List.replicate 186 0).take 14 = secondPose.rx := take_left' hl
  have hsz : (secondPose.rx ++ List.replicate 186 0).length = secondPose.rxCap := by
    rw [hc, length_append, hl, length_replicate]
  unfold secondMemory
  generalize secondPose = l at ht hsz hl hc
  refine ⟨?_, ?_⟩
  · simp only [Memory.view, ht, hsz]
  · change 14 ≤ (l.rx ++ List.replicate 186 0).length
    omega

theorem stale_handles_wrapped : secondMemory.payload poseHandle = [2] ∧
    Represents secondMemory (applyAll standard poseLink (onwards 65534)) ∧
    ¬ (Released (onwards 65534) → secondMemory.Unreadable poseHandle) := by
  have hp : secondMemory.payload poseHandle = [2] := by decide +kernel
  refine ⟨hp, secondMemory_represents, fun h => ?_⟩
  have hn := (h ⟨.next, mem_cons_self, rfl⟩).payload
  rw [hp] at hn
  cases hn

theorem stale_handles_released :
    (⟨List.replicate 200 7, 0, Op.apply standard poseLink .next⟩ : Memory 2 64).Unreadable poseHandle := by
  have hrx : (Op.apply standard poseLink .next).rx = [] := by decide +kernel
  have hc : (Op.apply standard poseLink .next).rxCap = 200 := by decide +kernel
  have hm : Represents (⟨List.replicate 200 7, 0, Op.apply standard poseLink .next⟩ : Memory 2 64)
      (applyAll standard poseLink [.next]) := by
    refine ⟨?_, Nat.zero_le _⟩
    change { Op.apply standard poseLink .next with rx := [], rxCap := (List.replicate 200 (7 : UInt8)).length } =
      Op.apply standard poseLink .next
    rw [length_replicate, ← hrx, ← hc]
  have hn : Opened (initial hostId hostPorts 200 200 : Link 2 64) :=
    .new (new_ok.mpr ⟨by decide, by decide, by decide, by decide, rfl⟩)
  have hb : bumps standard poseLink [.next] = 1 := by decide +kernel
  refine (stale_handles standard_lawful hn toFirstPose poseHandle_returned rfl [.next] hm).mpr (fun _ => Or.inl ?_)
    ⟨.next, mem_cons_self, rfl⟩
  change ¬ 65536 ∣ bumps standard poseLink [.next]
  rw [hb]
  decide

end Sample

section Refinement

-- Only `feed` and `next` touch the receive buffer.
def Memory.act (C : Codec) (I : InPlace C) (m : Memory N FRAME) : Op → Option (Option Event × Memory N FRAME)
  | .feed bytes => (m.feed C bytes).map fun r => (none, r.2)
  | .next => (m.next C I).map (·.2)
  | op => some ((op.perform C m.view).1, { m with link := (op.perform C m.view).2 })

variable {C : Codec} {m : Memory N FRAME} {l l' : Link N FRAME}

lemma tick_rx (nowMs : UInt32) : (l.tick C nowMs).2.rx = l.rx := by
  unfold tick
  dsimp only
  split_ifs
  · exact congrArg RxPart.rx ensureStarted_rxPart
  · rfl
  · exact congrArg RxPart.rx (emit_rxPart _ _ _ _)
  · rfl
  · exact congrArg RxPart.rx (queueHello_rxPart false)
  · rfl

lemma Represents.quiet (h : Represents m l) (hrx : l'.rx = l.rx) (hc : l'.rxCap = l.rxCap) :
    Represents { m with link := l' } l' := by
  obtain ⟨m', hm, h'⟩ := h.within allWithin_nil hrx hc
  cases hm
  exact h'

lemma Represents.act (hC : C.Lawful) (I : InPlace C) (hfr : OVERHEAD ≤ FRAME) (h : Represents m l) (hb : Buffered l)
    (op : Op) : ∃ m', m.act C I op = some ((op.perform C l).1, m') ∧ Represents m' (op.perform C l).2 := by
  have hc := (apply_bumps (C := C) l op).2
  rw [← perform_apply] at hc
  obtain rfl := h.view
  cases op with
  | feed bytes =>
    obtain ⟨m', hf, h'⟩ := h.feed hC hfr hb bytes
    exact ⟨m', by rw [Memory.act, hf]; rfl, h'⟩
  | next =>
    obtain ⟨m', hn, h'⟩ := h.next hC I hfr hb
    exact ⟨m', by rw [Memory.act, hn]; rfl, h'⟩
  | tick nowMs => exact ⟨_, rfl, h.quiet (tick_rx nowMs) hc⟩
  | _ => exact ⟨_, rfl, h.quiet ((apply_performed _ rfl rfl).keeps (f := Link.rx) fun _ _ _ _ _ _ _ _ => rfl) hc⟩

theorem memory_refines_link (hC : C.Lawful) (I : InPlace C) (hfr : OVERHEAD ≤ FRAME) (hm : Represents m l)
    (hb : Buffered l) (ops : List Op) : ∃ events m' l', Machine.run (Memory.act C I) m ops = some (events, m') ∧
      Machine.run (Link.act C) l ops = some (events, l') ∧ Represents m' l' := by
  induction ops generalizing m l with
  | nil => exact ⟨[], m, l, rfl, rfl, hm⟩
  | cons op ops ih =>
    obtain ⟨m₁, ha, h₁⟩ := hm.act hC I hfr hb op
    obtain ⟨events, m', l', hr, hr', h'⟩ := ih h₁ (perform_buffered hC hb op)
    exact ⟨_, m', l', Machine.run_cons.mpr ⟨_, m₁, events, ha, hr, rfl⟩,
      Machine.run_cons.mpr ⟨_, _, events, rfl, hr', rfl⟩, h'⟩

theorem memory_refines_link_pose : ∃ events m' l', Machine.run (Memory.act standard standardInPlace)
      (⟨List.replicate 200 0, 0, initial hostId hostPorts 200 200⟩ : Memory 2 64) toFirstPose = some (events, m') ∧
    Machine.run (Link.act standard) (initial hostId hostPorts 200 200) toFirstPose = some (events, l') ∧
    Represents m' l' :=
  memory_refines_link standard_lawful standardInPlace (by decide) ⟨rfl, Nat.zero_le _⟩
    ⟨Nat.zero_le _, Nat.zero_le _, Nat.zero_le _⟩ toFirstPose

end Refinement

end Reiny.Link
