import Reiny.Lib.Prefixed
import Reiny.Lib.Results

/-! The control stream of a process host, read at both of its ends. -/

namespace Reiny.Process.Connection

open Lib Words Results Prefixed List Machine

def MAX_FRAME_BYTES : ℕ := 8 * 1024 * 1024

inductive FrameError
  | length (declared : ℕ)

def payloadLength (header : Bytes) : Except FrameError ℕ :=
  let length := ofLe header.reverse
  if length = 0 ∨ length > MAX_FRAME_BYTES then .error (.length length) else .ok length

structure Envelope (I M : Type) where
  session : I
  sequence : UInt64
  body : M
deriving DecidableEq

inductive EnvelopeError
  | identity | sequence

variable {I M D : Type} [DecidableEq I]

def ordered (sequence : UInt64) : Option UInt64 → Bool
  | none => sequence == 0
  | some previous => previous < sequence

def Envelope.check (envelope : Envelope I M) (expected : I) (previous : Option UInt64) :
    Except EnvelopeError Unit := do
  ensure (envelope.session = expected) .identity
  ensure (ordered envelope.sequence previous = true) .sequence

inductive Refusal (D : Type)
  | frame (e : FrameError)
  | codec (e : D)
  | envelope (e : EnvelopeError)

variable (identity : I) (decode : Bytes → Except D (Envelope I M))

def accept (previous : Option UInt64) (payload : Bytes) :
    Except (Refusal D) (Envelope I M × Option UInt64) := do
  let envelope ← (decode payload).mapError .codec
  (envelope.check identity previous).mapError .envelope
  return (envelope, some envelope.sequence)

lemma payloadLength_pos {header : Bytes} {n : ℕ} (h : payloadLength header = .ok n) : 0 < n := by
  simp only [payloadLength] at h
  split_ifs at h with hl
  cases h
  omega

def format : Format (Option UInt64) (Envelope I M) (Refusal D) where
  width := 4
  size header := (payloadLength header).mapError .frame
  accept := accept identity decode
  positive := by decide
  sized h := payloadLength_pos (mapError_ok.mp h)

inductive Poll
  | data (bytes : Bytes)
  | blocked
  | failed

inductive Returned (I M D : Type)
  | message (envelope : Envelope I M)
  | refused (e : Refusal D)
  | disconnected
  | failed
  | nothing

abbrev Reader := Prefixed.Reader (Option UInt64)

def ending (rest : List Poll) (returned : Returned I M D) (r : Reader) : Option (Returned I M D × Reader) :=
  if rest.isEmpty then some (returned, r) else none

/-- The host's `next`, with what its reads come to. It is dropped where they end before it returns; all of its
progress is in the reader. -/
def Reader.next (r : Reader) : List Poll → Option (Returned I M D × Reader)
  | [] => some (.nothing, r)
  | .blocked :: _ => none
  | .failed :: rest => ending rest .failed r
  | .data bytes :: rest =>
    if bytes.length > room (format identity decode) r then none
    else if bytes.isEmpty then ending rest .disconnected r
    else match absorb (format identity decode) r bytes with
      | (.more, r) => Reader.next r rest
      | (.accepted envelope, r) => ending rest (.message envelope) r
      | (.refused e, r) => ending rest (.refused e) r

def Channel.budget : ℕ := 64 * 1024

def Channel.loop (r : Reader) : ℕ → List Poll → Option (Returned I M D × Reader)
  | 0, polls => ending polls .nothing r
  | _ + 1, [] => none
  | _ + 1, .blocked :: rest => ending rest .nothing r
  | _ + 1, .failed :: rest => ending rest .failed r
  | budget + 1, .data bytes :: rest =>
    let space := room (format identity decode) r
    if bytes.length > if r.header.length < 4 then space else min space (budget + 1) then none
    else if bytes.isEmpty then ending rest .disconnected r
    else match absorb (format identity decode) r bytes with
      | (.more, r) => Channel.loop r (budget + 1 - bytes.length) rest
      | (.accepted envelope, r) => ending rest (.message envelope) r
      | (.refused e, r) => ending rest (.refused e) r

def Channel.next (r : Reader) (polls : List Poll) : Option (Returned I M D × Reader) :=
  Channel.loop identity decode r Channel.budget polls

def pieces (polls : List Poll) : List Bytes :=
  polls.filterMap fun poll =>
    match poll with
    | .data bytes => if bytes.isEmpty then none else some bytes
    | _ => none

def received (calls : List (List Poll)) : Bytes := (calls.flatMap pieces).flatten

def messages (returned : List (Returned I M D)) : List (Envelope I M) :=
  returned.filterMap fun r =>
    match r with
    | .message envelope => some envelope
    | _ => none

def ReadsFrames (next : Reader → List Poll → Option (Returned I M D × Reader)) : Prop :=
  ∀ calls returned r, run next (.fresh none) calls = some (returned, r) →
    messages returned = cut (format identity decode) none (received calls) ∧
      (∀ envelope, (messages returned).head? = some envelope → envelope.sequence = 0) ∧
      (messages returned).Pairwise (fun a b => a.sequence < b.sequence) ∧
      ∀ before e after, returned = before ++ .refused e :: after → messages after = []

section Numbers

variable {identity decode} {previous : Option UInt64}

lemma accept_ok {payload : Bytes} {envelope : Envelope I M} {next : Option UInt64}
    (h : accept identity decode previous payload = .ok (envelope, next)) :
    ordered envelope.sequence previous = true ∧ next = some envelope.sequence := by
  obtain ⟨decoded, -, h⟩ := bind_ok.mp h
  obtain ⟨_, hc, h⟩ := bind_ok.mp h
  cases pure_ok.mp h
  obtain ⟨-, ho⟩ := ensure_bind_ok.mp (mapError_ok.mp hc)
  exact ⟨ensure_ok.mp ho, rfl⟩

lemma cut_ordered (stream : Bytes) :
    (∀ p, previous = some p → ∀ envelope ∈ cut (format identity decode) previous stream, p < envelope.sequence) ∧
      (previous = none → ∀ envelope, (cut (format identity decode) previous stream).head? = some envelope →
        envelope.sequence = 0) ∧
      (cut (format identity decode) previous stream).Pairwise fun a b => a.sequence < b.sequence := by
  have hn : (∀ p, previous = some p → ∀ envelope ∈ ([] : List (Envelope I M)), p < envelope.sequence) ∧
      (previous = none → ∀ envelope, ([] : List (Envelope I M)).head? = some envelope → envelope.sequence = 0) ∧
      ([] : List (Envelope I M)).Pairwise fun a b => a.sequence < b.sequence := by simp
  fun_induction cut (format identity decode) previous stream with
  | case1 => exact hn
  | case2 => exact hn
  | case3 => exact hn
  | case4 => exact hn
  | case5 previous stream hw n hsz rest hlen envelope next ha ih =>
    obtain ⟨hord, rfl⟩ := accept_ok ha
    obtain ⟨hl, -, hp⟩ := ih (by simp)
    refine ⟨?_, ?_, pairwise_cons.mpr ⟨hl _ rfl, hp⟩⟩
    · rintro p rfl other ho
      have hf : p < envelope.sequence := of_decide_eq_true hord
      rcases mem_cons.mp ho with rfl | ho
      · exact hf
      · exact UInt64.lt_trans hf (hl _ rfl other ho)
    · rintro rfl other hh
      cases hh
      exact eq_of_beq hord

end Numbers

section Calls

variable {identity decode} {r r' r₁ : Reader} {polls rest : List Poll} {bytes : Bytes} {returned : Returned I M D}

def Pulls (identity : I) (decode : Bytes → Except D (Envelope I M)) (r : Reader) (polls : List Poll)
    (returned : Returned I M D) (r' : Reader) : Prop :=
  ∃ verdicts, run (step (format identity decode)) r (pieces polls) = some (verdicts, r') ∧
    accepted verdicts = messages [returned] ∧ ∀ e, returned = .refused e →
      ∃ before, verdicts = before ++ [.refused e]

omit [DecidableEq I] in
lemma ending_some {ret : Returned I M D} :
    ending rest ret r = some (returned, r') ↔ rest = [] ∧ ret = returned ∧ r = r' := by
  unfold ending
  split_ifs with hr
  · simp [List.isEmpty_iff.mp hr]
  · refine ⟨nofun, ?_⟩
    rintro ⟨rfl, -⟩
    exact absurd rfl hr

lemma pulls_silent (hp : pieces polls = []) (hm : messages [returned] = [])
    (hr : ∀ e, returned ≠ .refused e) : Pulls identity decode r polls returned r :=
  ⟨[], by rw [hp]; rfl, hm.symm, fun e h => absurd h (hr e)⟩

lemma pieces_data (hne : bytes.isEmpty = false) : pieces (.data bytes :: rest) = bytes :: pieces rest := by
  rw [pieces, filterMap_cons]
  simp only [hne]
  rfl

lemma pieces_end (he : bytes.isEmpty = true) : pieces [.data bytes] = [] := by
  rw [List.isEmpty_iff.mp he]
  rfl

variable {verdict : Verdict (Envelope I M) (Refusal D)}

section

variable (hr : ¬ bytes.length > room (format identity decode) r)

include hr

lemma step_piece (hne : bytes.isEmpty = false) (h : absorb (format identity decode) r bytes = (verdict, r₁)) :
    step (format identity decode) r bytes = some (verdict, r₁) := by
  have hp : 0 < bytes.length := length_pos_iff.mpr (by simpa using hne)
  rw [step, if_pos ⟨hp, by omega⟩, h]

lemma pulls_more (hne : bytes.isEmpty = false) (h : absorb (format identity decode) r bytes = (.more, r₁))
    (hre : Pulls identity decode r₁ rest returned r') :
    Pulls identity decode r (.data bytes :: rest) returned r' := by
  obtain ⟨verdicts, hrun, ha, href⟩ := hre
  refine ⟨.more :: verdicts, ?_, ha, ?_⟩
  · rw [pieces_data hne]
    exact run_cons.mpr ⟨_, _, _, step_piece hr hne h, hrun, rfl⟩
  · intro e he
    obtain ⟨before, rfl⟩ := href e he
    exact ⟨.more :: before, rfl⟩

lemma pulls_last (hne : bytes.isEmpty = false) (h : absorb (format identity decode) r bytes = (verdict, r₁))
    (ha : accepted [verdict] = messages [returned]) (href : ∀ e, returned = .refused e → verdict = .refused e) :
    Pulls identity decode r [.data bytes] returned r₁ := by
  refine ⟨[verdict], ?_, ha, fun e he => ⟨[], by rw [href e he]; rfl⟩⟩
  rw [pieces_data hne]
  exact run_cons.mpr ⟨_, _, _, step_piece hr hne h, rfl, rfl⟩

end

lemma next_pulls (h : Reader.next identity decode r polls = some (returned, r')) :
    Pulls identity decode r polls returned r' := by
  fun_induction Reader.next identity decode r polls with
  | case1 =>
    cases h
    exact pulls_silent rfl rfl nofun
  | case2 => cases h
  | case3 r rest =>
    obtain ⟨rfl, rfl, rfl⟩ := ending_some.mp h
    exact pulls_silent rfl rfl nofun
  | case4 => cases h
  | case5 r bytes rest hr hemp =>
    obtain ⟨rfl, rfl, rfl⟩ := ending_some.mp h
    exact pulls_silent (pieces_end hemp) rfl nofun
  | case6 r bytes rest hr hemp r₁ ha ih =>
    exact pulls_more hr (by simpa using hemp) ha (ih h)
  | case7 r bytes rest hr hemp envelope r₁ ha =>
    obtain ⟨rfl, rfl, rfl⟩ := ending_some.mp h
    exact pulls_last hr (by simpa using hemp) ha rfl nofun
  | case8 r bytes rest hr hemp e r₁ ha =>
    obtain ⟨rfl, rfl, rfl⟩ := ending_some.mp h
    refine pulls_last hr (by simpa using hemp) ha rfl ?_
    intro e' he
    cases he
    rfl

lemma channel_room {budget : ℕ} (h : ¬ bytes.length >
    if r.header.length < 4 then room (format identity decode) r else min (room (format identity decode) r) budget) :
    ¬ bytes.length > room (format identity decode) r := by
  split_ifs at h with hh
  · exact h
  · have := min_le_left (room (format identity decode) r) budget
    omega

lemma loop_pulls {budget : ℕ} (h : Channel.loop identity decode r budget polls = some (returned, r')) :
    Pulls identity decode r polls returned r' := by
  fun_induction Channel.loop identity decode r budget polls with
  | case1 r polls =>
    obtain ⟨rfl, rfl, rfl⟩ := ending_some.mp h
    exact pulls_silent rfl rfl nofun
  | case2 => cases h
  | case3 | case4 =>
    obtain ⟨rfl, rfl, rfl⟩ := ending_some.mp h
    exact pulls_silent rfl rfl nofun
  | case5 => cases h
  | case6 r budget bytes rest space hr hemp =>
    obtain ⟨rfl, rfl, rfl⟩ := ending_some.mp h
    exact pulls_silent (pieces_end hemp) rfl nofun
  | case7 r budget bytes rest space hr hemp r₁ ha ih =>
    exact pulls_more (channel_room hr) (by simpa using hemp) ha (ih h)
  | case8 r budget bytes rest space hr hemp envelope r₁ ha =>
    obtain ⟨rfl, rfl, rfl⟩ := ending_some.mp h
    exact pulls_last (channel_room hr) (by simpa using hemp) ha rfl nofun
  | case9 r budget bytes rest space hr hemp e r₁ ha =>
    obtain ⟨rfl, rfl, rfl⟩ := ending_some.mp h
    refine pulls_last (channel_room hr) (by simpa using hemp) ha rfl ?_
    intro e' he
    cases he
    rfl

lemma calls_pull {next : Reader → List Poll → Option (Returned I M D × Reader)}
    (hn : ∀ r polls returned r', next r polls = some (returned, r') → Pulls identity decode r polls returned r')
    {calls : List (List Poll)} {all : List (Returned I M D)} (h : run next r calls = some (all, r')) :
    ∃ verdicts, run (step (format identity decode)) r (calls.flatMap pieces) = some (verdicts, r') ∧
      accepted verdicts = messages all ∧ ∀ before e after, all = before ++ .refused e :: after →
        ∃ v₁ v₂, verdicts = v₁ ++ .refused e :: v₂ ∧ accepted v₂ = messages after := by
  induction calls generalizing r all with
  | nil =>
    cases h
    exact ⟨[], rfl, rfl, fun before e after heq => absurd heq (by simp)⟩
  | cons call calls ih =>
    obtain ⟨returned, middle, others, hc, hcs, rfl⟩ := run_cons.mp h
    obtain ⟨first, hf, hacc, hr⟩ := hn r call returned middle hc
    obtain ⟨verdicts, hrun, ho, hl⟩ := ih hcs
    refine ⟨first ++ verdicts, run_append.mpr ⟨first, verdicts, middle, hf, hrun, rfl⟩, ?_, ?_⟩
    · rw [accepted, filterMap_append, ← accepted, ← accepted, hacc, ho, messages, messages, messages,
        ← filterMap_append, singleton_append]
    · intro before e after heq
      cases before with
      | nil =>
        obtain ⟨rfl, rfl⟩ := List.cons.inj heq
        obtain ⟨v₁, rfl⟩ := hr e rfl
        exact ⟨v₁, verdicts, by simp, ho⟩
      | cons earlier before =>
        obtain ⟨v₁, v₂, rfl, ha⟩ := hl before e after (List.cons.inj heq).2
        exact ⟨first ++ v₁, v₂, by simp, ha⟩

lemma readsFrames_of_pulls {next : Reader → List Poll → Option (Returned I M D × Reader)}
    (hn : ∀ r polls returned r', next r polls = some (returned, r') → Pulls identity decode r polls returned r') :
    ReadsFrames identity decode next := by
  intro calls returned r h
  obtain ⟨verdicts, hrun, hm, hr⟩ := calls_pull hn h
  obtain ⟨hc, hl⟩ := run_cut live_fresh hrun
  have hall : messages returned = cut (format identity decode) none (received calls) := by
    rw [← hm, hc]
    rfl
  obtain ⟨-, hz, hp⟩ := @cut_ordered I M D _ identity decode none (received calls)
  refine ⟨hall, ?_, ?_, ?_⟩
  · rw [hall]
    exact hz rfl
  · rw [hall]
    exact hp
  · intro before e after heq
    obtain ⟨v₁, v₂, rfl, ha⟩ := hr before e after heq
    rw [← ha, hl v₁ e v₂ rfl]
    rfl

end Calls

theorem control_framing (identity : I) (decode : Bytes → Except D (Envelope I M)) :
    ReadsFrames identity decode (Reader.next identity decode) ∧
      ReadsFrames identity decode (Channel.next identity decode) :=
  ⟨readsFrames_of_pulls fun _ _ _ _ => next_pulls, readsFrames_of_pulls fun _ _ _ _ => loop_pulls⟩

def decodeSample : Bytes → Except Unit (Envelope UInt8 UInt8)
  | [session, sequence, body] => .ok ⟨session, sequence.toUInt64, body⟩
  | _ => .error ()

-- The first header comes in two calls, with a call in between that finds nothing.
def channelReads : List (List Poll) :=
  [[.data [0, 0], .blocked], [.blocked], [.data [0, 3], .data [7, 0, 5]], [.data [0, 0, 0, 3], .data [7, 1, 6]]]

theorem control_framing_channel : ∃ returned r,
    run (Channel.next 7 decodeSample) (.fresh none) channelReads = some (returned, r) ∧
      messages returned = [⟨7, 0, 5⟩, ⟨7, 1, 6⟩] ∧
      cut (format 7 decodeSample) none (received channelReads) = [⟨7, 0, 5⟩, ⟨7, 1, 6⟩] := by
  obtain ⟨returned, r, hr, hm⟩ : ∃ returned r,
      run (Channel.next 7 decodeSample) (.fresh none) channelReads = some (returned, r) ∧
        messages returned = [⟨7, 0, 5⟩, ⟨7, 1, 6⟩] := ⟨_, _, rfl, rfl⟩
  exact ⟨returned, r, hr, hm, by rw [← hm, ((control_framing 7 decodeSample).2 channelReads returned r hr).1]⟩

section Sending

def frameHeader (payload : Bytes) : Except FrameError Bytes := do
  ensure (payload.length < 2 ^ 32) (.length (2 ^ 32 - 1))
  let header := (toLe 4 payload.length).reverse
  let _ ← payloadLength header
  return header

structure Json (I M D : Type) where
  encode : Envelope I M → Option Bytes
  decode : Bytes → Except D (Envelope I M)
  decoded : ∀ {envelope payload}, encode envelope = some payload → decode payload = .ok envelope

inductive Write
  | took (count : ℕ)
  | blocked
  | failed

structure Sender where
  next : UInt64
  outgoing : List Bytes

structure Sending (M : Type) where
  body : Option M
  writes : List Write

structure Sent (I M : Type) where
  queued : List (Envelope I M)
  written : Bytes

def flushLoop : ℕ → List Bytes → List Write → Option (Bytes × List Bytes)
  | 0, outgoing, [] => some ([], outgoing)
  | _ + 1, [], [] => some ([], [])
  | _ + 1, outgoing, [.blocked] | _ + 1, outgoing, [.failed] => some ([], outgoing)
  | budget + 1, unsent :: rest, .took count :: writes =>
    if count = 0 ∨ min unsent.length (budget + 1) < count then none
    else do
      let (sent, outgoing) ← flushLoop (budget + 1 - count)
        (if count = unsent.length then rest else unsent.drop count :: rest) writes
      return (unsent.take count ++ sent, outgoing)
  | _, _, _ => none

def Sender.flush (s : Sender) (queued : List (Envelope I M)) (writes : List Write) :
    Option (Sent I M × Sender) := do
  let (written, outgoing) ← flushLoop Channel.budget s.outgoing writes
  return (⟨queued, written⟩, { s with outgoing })

variable (J : Json I M D) (identity : I)

def frame (envelope : Envelope I M) : Option Bytes := do
  let payload ← J.encode envelope
  let header ← (frameHeader payload).toOption
  return header ++ payload

def Sender.push (s : Sender) (body : M) : Option (Envelope I M × Sender) := do
  let envelope : Envelope I M := ⟨identity, s.next, body⟩
  let bytes ← frame J envelope
  if s.outgoing.length < 2 ∧ s.next.toNat + 1 < 2 ^ 64 then return (envelope, ⟨s.next + 1, s.outgoing ++ [bytes]⟩)
  else none

def Sender.send (s : Sender) (call : Sending M) : Option (Sent I M × Sender) :=
  match call.body with
  | none => s.flush [] call.writes
  | some body =>
    match s.push J identity body with
    | none => if call.writes.isEmpty then some (⟨[], []⟩, s) else none
    | some (envelope, s) => s.flush [envelope] call.writes

-- Written and unwritten bytes are the queued frames.
def Queued (queued : List (Envelope I M)) (written : Bytes) (s : Sender) : Prop :=
  ∃ previous, Written (format identity J.decode) none queued (written ++ s.outgoing.flatten) previous ∧
    ordered s.next previous = true

variable {J identity} {queued now : List (Envelope I M)} {written : Bytes} {s s' : Sender} {sent : Sent I M}

lemma flushLoop_keeps {budget : ℕ} {outgoing left : List Bytes} {writes : List Write} {sent : Bytes}
    (h : flushLoop budget outgoing writes = some (sent, left)) : outgoing.flatten = sent ++ left.flatten := by
  fun_induction flushLoop budget outgoing writes generalizing sent left with
  | case1 | case2 | case3 | case4 =>
    cases h
    rfl
  | case5 | case7 => cases h
  | case6 budget unsent rest count writes hc ih =>
    obtain ⟨⟨more, left'⟩, hf, h⟩ := Option.bind_eq_some_iff.mp h
    cases h
    rw [append_assoc, ← ih hf, flatten_cons]
    split_ifs with hl
    · rw [hl, take_length]
    · rw [flatten_cons, ← append_assoc, take_append_drop]

lemma Queued.flush {writes : List Write} (h : Queued J identity (queued ++ now) written s)
    (hf : s.flush now writes = some (sent, s')) :
    Queued J identity (queued ++ sent.queued) (written ++ sent.written) s' := by
  obtain ⟨previous, hw, ho⟩ := h
  obtain ⟨⟨more, outgoing⟩, hk, hf⟩ := Option.bind_eq_some_iff.mp hf
  cases hf
  rw [flushLoop_keeps hk, ← append_assoc] at hw
  exact ⟨previous, hw, ho⟩

lemma frameHeader_ok {payload header : Bytes} (h : frameHeader payload = .ok header) :
    header.length = 4 ∧ payloadLength header = .ok payload.length := by
  obtain ⟨hlt, h⟩ := ensure_bind_ok.mp h
  obtain ⟨n, hn, h⟩ := bind_ok.mp h
  cases pure_ok.mp h
  refine ⟨by simp, ?_⟩
  rw [hn]
  simp only [payloadLength, reverse_reverse, ofLe_toLe (show payload.length < 256 ^ 4 from hlt)] at hn
  split_ifs at hn
  exact hn.symm

lemma Queued.push {body : M} {envelope : Envelope I M} (h : Queued J identity queued written s)
    (hp : s.push J identity body = some (envelope, s')) : Queued J identity (queued ++ [envelope]) written s' := by
  obtain ⟨previous, hw, ho⟩ := h
  obtain ⟨bytes, hf, hp⟩ := Option.bind_eq_some_iff.mp hp
  split_ifs at hp with hr
  cases hp
  obtain ⟨payload, he, hf⟩ := Option.bind_eq_some_iff.mp hf
  obtain ⟨header, hh, hf⟩ := Option.bind_eq_some_iff.mp hf
  cases hf
  obtain ⟨hl, hsz⟩ := frameHeader_ok (toOption_some.mp hh)
  have hc : Envelope.check ⟨identity, s.next, body⟩ identity previous = .ok () :=
    ensure_bind_ok.mpr ⟨rfl, ensure_ok.mpr ho⟩
  have ha : accept identity J.decode previous payload = .ok (⟨identity, s.next, body⟩, some s.next) :=
    bind_ok.mpr ⟨_, mapError_ok.mpr (J.decoded he), bind_ok.mpr ⟨(), mapError_ok.mpr hc, rfl⟩⟩
  refine ⟨some s.next, by simpa using hw.snoc hl (mapError_ok.mpr hsz) ha, ?_⟩
  have hn : (s.next + 1).toNat = s.next.toNat + 1 := by
    rw [UInt64.toNat_add]
    exact Nat.mod_eq_of_lt hr.2
  exact decide_eq_true (UInt64.lt_iff_toNat_lt.mpr (by dsimp only; omega))

lemma Queued.send {call : Sending M} (h : Queued J identity queued written s)
    (hs : s.send J identity call = some (sent, s')) :
    Queued J identity (queued ++ sent.queued) (written ++ sent.written) s' := by
  unfold Sender.send at hs
  split at hs
  · exact flush (by rwa [append_nil]) hs
  · split at hs
    · split_ifs at hs
      cases hs
      rwa [append_nil, append_nil]
    · exact (h.push ‹_›).flush hs

theorem control_delivered {calls : List (Sending M)} {all : List (Sent I M)}
    (hsend : run (Sender.send J identity) ⟨0, []⟩ calls = some (all, s)) {reads : List (List Poll)}
    {returned : List (Returned I M D)} {r : Reader}
    (hread : run (Reader.next identity J.decode) (.fresh none) reads = some (returned, r))
    (hwire : received reads <+: all.flatMap (·.written)) : messages returned <+: all.flatMap (·.queued) ∧
      (s.outgoing = [] → received reads = all.flatMap (·.written) →
        messages returned = all.flatMap (·.queued)) := by
  have hq := @Machine.run_history _ _ _ _ _ _ _ _
    (fun all s => Queued J identity (all.flatMap (·.queued)) (all.flatMap (·.written)) s)
    (fun all s call sent s' h hs => by simpa using h.send hs) [] ⟨none, .nil, rfl⟩ hsend
  obtain ⟨previous, hw, -⟩ := hq
  rw [nil_append] at hw
  rw [(readsFrames_of_pulls (fun _ _ _ _ => next_pulls) reads returned r hread).1]
  constructor
  · obtain ⟨rest, hre⟩ := hwire
    rw [← hw.cut, ← hre, append_assoc]
    exact cut_mono _
  · intro ho he
    rw [ho, flatten_nil, append_nil] at hw
    rw [he, hw.cut]

def sampleJson : Json UInt8 UInt8 Unit where
  encode e := if decodeSample [e.session, e.sequence.toUInt8, e.body] = .ok e then
    some [e.session, e.sequence.toUInt8, e.body] else none
  decode := decodeSample
  decoded h := by
    split_ifs at h with hd
    cases h
    exact hd

def sampleReads : List (List Poll) :=
  [[.data [0, 0]], [.data [0, 3], .data [7, 0, 5]], [.data [0, 0, 0, 3], .data [7, 1, 6]]]

def sampleCalls : List (Sending UInt8) := [⟨some 5, [.took 7]⟩, ⟨some 6, [.took 2, .blocked]⟩, ⟨none, [.took 5]⟩]

theorem control_delivered_sample : ∃ all s returned r,
    run (Sender.send sampleJson 7) ⟨0, []⟩ sampleCalls = some (all, s) ∧
    run (Reader.next 7 decodeSample) (.fresh none) sampleReads = some (returned, r) ∧
    messages returned = all.flatMap (·.queued) := by
  obtain ⟨all, s, hs, ho, hw⟩ : ∃ all s, run (Sender.send sampleJson 7) ⟨0, []⟩ sampleCalls = some (all, s) ∧
      s.outgoing = [] ∧ received sampleReads = all.flatMap (·.written) := ⟨_, _, rfl, rfl, rfl⟩
  obtain ⟨returned, r, hr⟩ : ∃ returned r,
      run (Reader.next 7 decodeSample) (.fresh none) sampleReads = some (returned, r) := ⟨_, _, rfl⟩
  exact ⟨all, s, returned, r, hs, hr, (control_delivered hs hr (hw ▸ prefix_rfl)).2 ho hw⟩

end Sending

end Reiny.Process.Connection
