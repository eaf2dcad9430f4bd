import Reiny.Link.Reassembly

namespace Reiny.Link

open Lib Words Utf8 Results Wire HelloFormat Ports State

variable {N FRAME : ℕ}

inductive Emission
  | hello (ack : Bool)
  | ping
  | data (hash : UInt32) (payload : Bytes)
  | request (hash : UInt32) (payload : Bytes)
  | reply (hash : UInt32) (seq : UInt8) (schema : UInt64) (payload : Bytes)
  | error (hash : UInt32) (seq : UInt8) (message : Bytes)

namespace Emission

-- The numbers that `emit_data` and `emit_request` return are left out.
def run (C : Codec) (l : Link N FRAME) : Emission → Except Error Unit × Link N FRAME
  | .hello ack => l.queueHello C ack
  | .ping => l.emit C .ping 0 0 []
  | .data hash payload => ((l.emitData C hash payload).1.map fun _ => (), (l.emitData C hash payload).2)
  | .request hash payload => ((l.emitRequest C hash payload).1.map fun _ => (), (l.emitRequest C hash payload).2)
  | .reply hash seq schema payload => l.emitReply C hash seq schema payload
  | .error hash seq message => l.emitError C hash seq message

def frame (l : Link N FRAME) : Emission → Option WireFrame
  | .hello ack => (l.helloPayload ack).toOption.map fun payload => (⟨.hello, 0, 0⟩, payload)
  | .ping => some (⟨.ping, 0, 0⟩, [])
  | .data hash payload => some (⟨.data, hash, l.dataSeq⟩, payload)
  | .request hash payload => (l.freeSeq hash).map fun seq => (⟨.request, hash, seq⟩, payload)
  | .reply hash seq schema payload => some (⟨.reply, hash, seq⟩, le64 schema ++ payload)
  | .error hash seq message => some (⟨.error, hash, seq⟩, message.take (min message.length (FRAME - OVERHEAD)))

-- The part of `emit_data` that a failure does not undo.
def counts : Emission → Bool
  | .data _ _ => true
  | _ => false

end Emission

structure Attempt (N FRAME : ℕ) where
  on : Link N FRAME
  emission : Emission

namespace Attempt

variable (C : Codec)

def run (a : Attempt N FRAME) : Except Error Unit × Link N FRAME := a.emission.run C a.on

def queued (a : Attempt N FRAME) : Option WireFrame := if (a.run C).1.isOk then a.emission.frame a.on else none

end Attempt

section Attempts

variable (C : Codec)

def startAttempts (l : Link N FRAME) : List (Attempt N FRAME) :=
  if l.started then [] else [⟨{ l with started := true }, .hello false⟩]

def tickAttempts (l : Link N FRAME) (nowMs : UInt32) : List (Attempt N FRAME) :=
  let l := { l with nowMs }
  if l.started = false then startAttempts { l with lastRxMs := nowMs }
  else if l.connected then
    if nowMs - l.lastRxMs > l.config.timeoutMs then []
    else if nowMs - l.lastTxMs ≥ l.config.pingIntervalMs then [⟨l, .ping⟩]
    else []
  else if nowMs - l.lastTxMs ≥ l.config.pingIntervalMs then [⟨l, .hello false⟩]
  else []

def helloAttempts (l : Link N FRAME) (frame : Frame) : List (Attempt N FRAME) :=
  match l.validateHello (l.rxPayload frame.len) with
  | .error _ => []
  | .ok contract =>
    if contract.ack then [] else [⟨l.withTables (l.adopt (l.rxPayload frame.len) contract), .hello true⟩]

def requestAttempts (l : Link N FRAME) (frame : Frame) : List (Attempt N FRAME) :=
  let served := (l.localType frame.hash).any fun t => t.flags &&& SERVE != 0
  let caller := (l.remoteSource frame.hash CALLS).isSome
  if !l.connected || (!l.peerBridge && !caller) then
    [⟨l.dropUnwanted, .error frame.hash frame.seq (text "undeclared source")⟩]
  else if served || (l.bridge && caller) then []
  else [⟨l.dropUnwanted, .error frame.hash frame.seq (text "no such service")⟩]

def dispatchAttempts (call : Call N FRAME) : List (Attempt N FRAME) :=
  match call.1.kind with
  | .hello => helloAttempts call.2 call.1
  | .request => requestAttempts call.2 call.1
  | .ping | .data | .reply | .error => []

def whenOk (check : Except Error Unit) (attempts : List (Attempt N FRAME)) : List (Attempt N FRAME) :=
  match check with
  | .error _ => []
  | .ok () => attempts

def sendAttempts (l : Link N FRAME) (ty : PortType) (name : Str) (msg : Bytes) : List (Attempt N FRAME) :=
  let hash := endpointHash l.id name
  whenOk (l.checkPort name .output ty none) <|
  whenOk (l.checkPublishes hash) <|
  whenOk (ensure ((l.localType hash).all (fun t => t.schema == ty.schema) = true) .schemaMismatch) <|
  if l.peerSubscribesHash hash then whenOk (checkPayload FRAME msg) [⟨l, .data hash msg⟩] else []

def sendRawAttempts (l : Link N FRAME) (hash : UInt32) (payload : Bytes) : List (Attempt N FRAME) :=
  whenOk (l.checkPublishes hash) <|
  if l.peerSubscribesHash hash then whenOk (checkPayload FRAME payload) [⟨l, .data hash payload⟩] else []

def callAttempts (l : Link N FRAME) (S : Service) (name : Str) (req : Bytes) : List (Attempt N FRAME) :=
  match l.requestHash S name with
  | .error _ => []
  | .ok hash =>
    whenOk (ensure (l.peerServesHash hash = true) .noPeerService) <|
    whenOk (ensure ((l.remoteType hash).all (fun r => r.schema == S.request.schema) = true) .schemaMismatch) <|
    whenOk (checkPayload FRAME req) [⟨l, .request hash req⟩]

def callRawAttempts (l : Link N FRAME) (hash : UInt32) (payload : Bytes) : List (Attempt N FRAME) :=
  whenOk (ensure (l.bridge = true ∨ (l.localSource hash CALLS).isSome = true) .notDeclared) <|
  whenOk (ensure (l.peerServesHash hash = true) .noPeerService) <|
  whenOk (checkPayload FRAME payload) [⟨l, .request hash payload⟩]

def Op.attempts (l : Link N FRAME) : Op → List (Attempt N FRAME)
  | .publishes _ _ | .publishesLatched _ _ | .subscribes _ _ | .rpcServer _ _ | .rpcClient _ _ => []
  | .feed _ | .drain _ | .drainFrame _ => startAttempts l
  | .tick nowMs => tickAttempts l nowMs
  | .next => startAttempts l ++ (nextCalls C l).flatMap dispatchAttempts
  | .send ty name msg => sendAttempts l ty name msg
  | .sendRaw hash payload => sendRawAttempts l hash payload
  | .request S name req => callAttempts l S name req
  | .requestRaw hash payload => callRawAttempts l hash payload
  | .reply S name seq resp =>
    whenOk (l.checkPort name .rpcServer S.request (some S.response)) <|
    whenOk (checkPayload FRAME resp) [⟨l, .reply (endpointHash l.id name) seq S.response.schema resp⟩]
  | .replyRaw seq hash schema payload => whenOk (checkPayload FRAME payload) [⟨l, .reply hash seq schema payload⟩]
  | .replyErr S name seq message =>
    whenOk (l.checkPort name .rpcServer S.request (some S.response))
      [⟨l, .error (endpointHash l.id name) seq message⟩]
  | .replyErrRaw seq hash message => [⟨l, .error hash seq message⟩]
  | .cancelRequest _ _ | .withConfig _ => []

end Attempts

inductive Outcome (C : Codec) (l : Link N FRAME) (f : Option WireFrame)
    (r : Except Error Unit × Link N FRAME) : Prop
  | failed {e : Error} (hresult : r.1 = .error e) (htx : r.2.tx = l.tx)
  | queued {frame : WireFrame} (hframe : f = some frame) (hfit : Fitting FRAME frame) (hresult : r.1 = .ok ())
      (htx : r.2.tx = l.tx ++ wireBytes C frame)

section Running

variable {C : Codec} (l : Link N FRAME)

lemma emit_outcome (f : WireFrame) : Outcome C l (some f) (l.emit C f.1.kind f.1.hash f.1.seq f.2) := by
  rcases @emit_core N FRAME C l f with ⟨e, he, hl⟩ | ⟨hf, hok, hl⟩
  · exact .failed he (congrArg Core.tx hl)
  · exact .queued rfl hf hok (congrArg Core.tx hl)

lemma emitRequest_outcome (hash : UInt32) (payload : Bytes) : Outcome C l (Emission.frame l (.request hash payload))
    (Emission.run C l (.request hash payload)) := by
  simp only [Emission.run, Emission.frame]
  unfold emitRequest
  split
  · rename_i free seq hf hs
    have h := @emit_outcome N FRAME C l (⟨.request, hash, seq⟩, payload)
    split
    · rename_i e l' he
      rw [he] at h
      cases h with
      | failed hr htx => exact .failed rfl htx
      | queued hfr hfit hr htx => cases hr
    · rename_i l' he
      rw [he] at h
      cases h with
      | failed hr htx => cases hr
      | queued hfr hfit hr htx =>
        cases hfr
        exact .queued (by rw [hs]; rfl) hfit rfl htx
  · exact .failed rfl rfl

lemma run_outcome (e : Emission) : Outcome C l (e.frame l) (e.run C l) := by
  cases e with
  | hello ack =>
    simp only [Emission.run, Emission.frame, queueHello]
    cases l.helloPayload ack with
    | error e => exact .failed rfl rfl
    | ok payload => exact emit_outcome l (⟨.hello, 0, 0⟩, payload)
  | ping => exact emit_outcome l (⟨.ping, 0, 0⟩, [])
  | data hash payload =>
    have h := @emit_outcome N FRAME C { l with dataSeq := l.dataSeq + 1 } (⟨.data, hash, l.dataSeq⟩, payload)
    simp only [Emission.run, Emission.frame, emitData]
    split <;> rename_i he <;> rw [he] at h
    · cases h with
      | failed hr htx => exact .failed rfl htx
      | queued hfr hf hr htx => cases hr
    · cases h with
      | failed hr htx => cases hr
      | queued hfr hf hr htx => exact .queued hfr hf rfl htx
  | request hash payload => exact emitRequest_outcome l hash payload
  | reply hash seq schema payload =>
    simp only [Emission.run, Emission.frame, emitReply]
    split_ifs
    · exact .failed rfl rfl
    · exact emit_outcome l (⟨.reply, hash, seq⟩, le64 schema ++ payload)
  | error hash seq message => exact emit_outcome l (⟨.error, hash, seq⟩, _)

lemma emit_dataSeq (kind : Kind) (hash : UInt32) (seq : UInt8) (payload : Bytes) :
    (l.emit C kind hash seq payload).2.dataSeq = l.dataSeq := by
  rcases emit_cases l C kind hash seq payload with ⟨e, n, -, h⟩ | ⟨raw, -, -, h⟩ <;> rw [h]

lemma run_dataSeq (e : Emission) : (e.run C l).2.dataSeq = if e.counts then l.dataSeq + 1 else l.dataSeq := by
  cases e with
  | hello ack =>
    simp only [Emission.run, queueHello]
    cases l.helloPayload ack with
    | error e => rfl
    | ok payload => exact emit_dataSeq l _ _ _ _
  | ping => exact emit_dataSeq l _ _ _ _
  | data hash payload =>
    have h := @emit_dataSeq N FRAME C { l with dataSeq := l.dataSeq + 1 } .data hash l.dataSeq payload
    simp only [Emission.run, emitData]
    split <;> rename_i he <;> rw [he] at h <;> exact h
  | request hash payload =>
    simp only [Emission.run]
    unfold emitRequest
    split
    · rename_i free seq hf hs
      have h := @emit_dataSeq N FRAME C l .request hash seq payload
      split <;> rename_i he <;> rw [he] at h <;> exact h
    · rfl
  | reply hash seq schema payload =>
    change (l.emitReply C hash seq schema payload).2.dataSeq = l.dataSeq
    unfold emitReply
    split_ifs
    · rfl
    · exact emit_dataSeq l _ _ _ _
  | error hash seq message => exact emit_dataSeq l _ _ _ _

end Running

def SameSending (l l' : Link N FRAME) : Prop := l'.tx = l.tx ∧ l'.dataSeq = l.dataSeq

def Emits (C : Codec) : Link N FRAME → List (Attempt N FRAME) → Link N FRAME → Prop
  | l, [], l' => SameSending l l'
  | l, a :: rest, l' => SameSending l a.on ∧ Emits C (a.run C).2 rest l'

variable {C : Codec} {l l' l'' : Link N FRAME} {as bs : List (Attempt N FRAME)}

lemma SameSending.refl (l : Link N FRAME) : SameSending l l := ⟨rfl, rfl⟩

lemma SameSending.trans (h : SameSending l l') (h' : SameSending l' l'') : SameSending l l'' :=
  ⟨h'.1.trans h.1, h'.2.trans h.2⟩

lemma Emits.same_left (h : SameSending l l') (hr : Emits C l' as l'') : Emits C l as l'' := by
  cases as with
  | nil => exact h.trans hr
  | cons a as => exact ⟨h.trans hr.1, hr.2⟩

lemma Emits.append (h : Emits C l as l') (h' : Emits C l' bs l'') : Emits C l (as ++ bs) l'' := by
  induction as generalizing l with
  | nil => exact h'.same_left h
  | cons a as ih => exact ⟨h.1, ih h.2⟩

lemma Emits.same_right (h : Emits C l as l') (hs : SameSending l' l'') : Emits C l as l'' := by
  have ha : Emits C l (as ++ []) l'' := h.append hs
  rwa [List.append_nil] at ha

lemma Emits.single (a : Attempt N FRAME) : Emits C a.on [a] (a.run C).2 := ⟨.refl _, .refl _⟩

lemma whenOk_emits {α : Type} {check : Except Error Unit} {act : Except Error α × Link N FRAME}
    (h : Emits C l as act.2) : Emits C l (whenOk check as) (l.guarded check act).2 := by
  cases check with
  | error e => exact SameSending.refl l
  | ok u => exact h

lemma startAttempts_emits (l : Link N FRAME) : Emits C l (startAttempts l) (l.ensureStarted C) := by
  unfold startAttempts ensureStarted
  split_ifs
  · exact SameSending.refl l
  · exact (Emits.single _).same_left ⟨rfl, rfl⟩

lemma rxCompact_same (l : Link N FRAME) : SameSending l l.rxCompact := by
  unfold rxCompact
  split_ifs <;> exact ⟨rfl, rfl⟩

lemma feedLoop_same (fuel : ℕ) (l : Link N FRAME) (rest : Bytes) : SameSending l (feedLoop fuel l rest).1 := by
  have hs := feedLoop_keeps l (f := fun l => (l.tx, l.dataSeq)) (fun _ _ _ _ => rfl) fuel rest
  exact ⟨congrArg Prod.fst hs, congrArg Prod.snd hs⟩

lemma feed_emits (l : Link N FRAME) (bytes : Bytes) : Emits C l (startAttempts l) (l.feed C bytes).2 := by
  have hc := rxCompact_same (l.ensureStarted C)
  exact (startAttempts_emits l).same_right (hc.trans (feedLoop_same (2 * bytes.length + 1) _ bytes))

lemma tickAttempts_emits (l : Link N FRAME) (nowMs : UInt32) :
    Emits C l (tickAttempts l nowMs) (l.tick C nowMs).2 := by
  unfold tickAttempts tick
  dsimp only
  split_ifs
  · have hst := @startAttempts_emits N FRAME C { l with nowMs, lastRxMs := nowMs }
    refine Emits.same_left ?_ hst
    exact ⟨rfl, rfl⟩
  · exact ⟨rfl, rfl⟩
  · exact (Emits.single _).same_left ⟨rfl, rfl⟩
  · exact ⟨rfl, rfl⟩
  · exact (Emits.single _).same_left ⟨rfl, rfl⟩
  · exact ⟨rfl, rfl⟩

lemma helloAttempts_emits (l : Link N FRAME) (frame : Frame) :
    Emits C l (helloAttempts l frame) (l.onHello C frame).2 := by
  unfold helloAttempts onHello
  cases l.validateHello (l.rxPayload frame.len) with
  | error e =>
    change SameSending l ((l.badFrame.countOverflow e).withTables l.forgetPeer)
    unfold countOverflow
    split_ifs <;> exact ⟨rfl, rfl⟩
  | ok contract =>
    simp only [acceptHello]
    split_ifs
    · exact ⟨rfl, rfl⟩
    · exact (Emits.single _).same_left ⟨rfl, rfl⟩

lemma requestAttempts_emits (l : Link N FRAME) (frame : Frame) :
    Emits C l (requestAttempts l frame) (l.onRequest C frame).2 := by
  unfold requestAttempts onRequest
  dsimp only
  split_ifs
  · exact (Emits.single _).same_left ⟨rfl, rfl⟩
  · exact SameSending.refl l
  · exact (Emits.single _).same_left ⟨rfl, rfl⟩

lemma onReply_unsent (l : Link N FRAME) (frame : Frame) (event : Event) :
    SameSending l (l.onReply frame event).2 := by
  unfold onReply
  split_ifs <;> exact ⟨rfl, rfl⟩

lemma dispatchAttempts_emits (call : Call N FRAME) :
    Emits C call.2 (dispatchAttempts call) (call.2.dispatch C call.1).2 := by
  unfold dispatchAttempts dispatch
  cases call.1.kind with
  | hello => exact helloAttempts_emits _ _
  | ping => exact SameSending.refl _
  | data =>
    change SameSending call.2 (call.2.onData call.1).2
    unfold onData
    split_ifs <;> exact ⟨rfl, rfl⟩
  | request => exact requestAttempts_emits _ _
  | reply | error => exact onReply_unsent _ _ _

lemma nextRound_emits {event : Option Event} (h : l.nextRound C = some (event, l')) :
    Emits C l ((l.roundCall C).toList.flatMap dispatchAttempts) l' := by
  rcases nextRound_call h with ⟨hc, rfl, n, stats, rfl⟩ | ⟨frame, rx, n, after, hc, hd, hl'⟩
  · rw [hc]
    exact ⟨rfl, rfl⟩
  · have hdi := dispatchAttempts_emits (C := C) (l.received frame rx (n + 1))
    rw [hd] at hdi
    rw [hc, Option.toList_some, List.flatMap_singleton]
    refine Emits.same_left ?_ (hdi.same_right ?_)
    · exact ⟨rfl, rfl⟩
    · rcases hl' with ⟨-, rfl⟩ | ⟨-, rfl⟩
      · exact .refl _
      · exact rxCompact_same _

lemma loopCalls_emits (fuel : ℕ) (l : Link N FRAME) :
    Emits C l ((loopCalls C fuel l).flatMap dispatchAttempts) (nextLoop C fuel l).2 := by
  induction fuel generalizing l with
  | zero => exact SameSending.refl l
  | succ fuel ih =>
    unfold loopCalls nextLoop
    cases hrd : l.nextRound C with
    | none => exact SameSending.refl l
    | some result =>
      obtain ⟨event, l'⟩ := result
      have he := nextRound_emits hrd
      cases event with
      | some event => exact he
      | none =>
        change Emits C l (((l.roundCall C).toList ++ loopCalls C fuel l').flatMap dispatchAttempts) _
        rw [List.flatMap_append]
        exact he.append (ih l')

def Op.drains : Op → Bool
  | .drain _ | .drainFrame _ => true
  | _ => false

lemma declare_unsent (l : Link N FRAME) (name : Str) (direction : PortDirection) (flag : UInt8) (ty : PortType)
    (response : Option PortType) : SameSending l (l.declare name direction flag ty response).2 := by
  unfold declare
  split <;> exact ⟨rfl, rfl⟩

lemma apply_emits (l : Link N FRAME) {op : Op} (hop : op.drains = false) :
    Emits C l (op.attempts C l) (op.apply C l) := by
  cases op with
  | publishes | publishesLatched | subscribes | rpcServer | rpcClient => exact declare_unsent l _ _ _ _ _
  | feed bytes => exact feed_emits l bytes
  | drain room => cases hop
  | drainFrame room => cases hop
  | tick nowMs => exact tickAttempts_emits l nowMs
  | next => exact ((startAttempts_emits l).same_right (rxCompact_same _)).append (loopCalls_emits _ _)
  | send ty name msg =>
    refine whenOk_emits (whenOk_emits (whenOk_emits ?_))
    split_ifs
    · exact whenOk_emits (Emits.single _)
    · exact SameSending.refl l
  | sendRaw hash payload =>
    refine whenOk_emits ?_
    split_ifs
    · exact whenOk_emits (Emits.single _)
    · exact SameSending.refl l
  | request S name req =>
    change Emits C l (callAttempts l S name req) (l.request C S name req).2
    unfold callAttempts request
    cases l.requestHash S name with
    | error e => exact SameSending.refl l
    | ok hash => exact whenOk_emits (whenOk_emits (whenOk_emits (Emits.single _)))
  | requestRaw hash payload => exact whenOk_emits (whenOk_emits (whenOk_emits (Emits.single _)))
  | reply S name seq resp => exact whenOk_emits (whenOk_emits (Emits.single _))
  | replyRaw | replyErr => exact whenOk_emits (Emits.single _)
  | replyErrRaw seq hash message => exact Emits.single _
  | cancelRequest | withConfig => exact ⟨rfl, rfl⟩

end Reiny.Link
