import Reiny.Link.LinkEngine
import Reiny.Link.Outstanding

namespace Reiny.Link

open Std Lib Words Utf8 Results Machine Maps Wire HelloFormat HelloCodec Ports State List Option LinkEngine
open Engine (Key)

variable {N FRAME : ℕ} {C : Codec}

def HasRoom (C : Codec) (l : Link N FRAME) (len : ℕ) : Prop := encodedMax C (OVERHEAD + len) ≤ l.txCap - l.tx.length

def AnsweredOnce (C : Codec) (q : LinkQuery) (before after : Link N FRAME) : Prop :=
  ∃ f : WireFrame, (f.1.kind = .reply ∨ f.1.kind = .error) ∧ f.1.hash = q.hash ∧ f.1.seq = q.seq ∧
    after.tx = before.tx ++ wireBytes C f

variable {q : LinkQuery}

lemma not_answered {before after : Link N FRAME} (h : after.tx = before.tx) :
    ¬ AnsweredOnce C q before after := by
  rintro ⟨f, -, -, -, hf⟩
  have hl := congrArg List.length hf
  simp [h, wireBytes] at hl

variable {l : Link N FRAME} {kind : Kind} {hash : UInt32} {seq : UInt8} {payload : Bytes}

lemma emit_queues (hl : OVERHEAD + payload.length ≤ FRAME) (hr : HasRoom C l payload.length) :
    (l.emit C kind hash seq payload).2.tx = l.tx ++ wireBytes C (⟨kind, hash, seq⟩, payload) := by
  rcases emit_cases l C kind hash seq payload with ⟨e, n, hu, h⟩ | ⟨raw, hraw, -, h⟩
  · cases hu with
    | frame hf => exact absurd hl (Nat.not_le.mpr hf)
    | buffer hf => exact absurd hr (Nat.not_le.mpr hf)
  · obtain ⟨-, rfl⟩ := seal_ok.mp hraw
    rw [h]
    rfl

lemma emit_full (hr : ¬ HasRoom C l payload.length) : (l.emit C kind hash seq payload).2.tx = l.tx := by
  rcases emit_cases l C kind hash seq payload with ⟨e, n, -, h⟩ | ⟨raw, hraw, hf, h⟩
  · rw [h]
  · rw [seal_length hraw] at hf
    exact absurd hf hr

lemma emitError_answers (hfr : OVERHEAD ≤ FRAME) {message : Bytes}
    (hr : HasRoom C l (min message.length (FRAME - OVERHEAD))) :
    AnsweredOnce C q l (l.emitError C q.hash q.seq message).2 := by
  have hl : (message.take (min message.length (FRAME - OVERHEAD))).length =
      min message.length (FRAME - OVERHEAD) := by
    rw [length_take]
    omega
  refine ⟨(⟨.error, q.hash, q.seq⟩, message.take (min message.length (FRAME - OVERHEAD))), .inr rfl, rfl, rfl, ?_⟩
  refine emit_queues ?_ (by rwa [hl])
  rw [hl]
  omega

lemma replyRaw_answers {schema : UInt64} :
    AnsweredOnce C q l (l.replyRaw C q.seq q.hash schema payload).2 ↔
      payload.length + 8 ≤ FRAME - OVERHEAD ∧ HasRoom C l (payload.length + 8) := by
  have hl : (le64 schema ++ payload).length = payload.length + 8 := by
    rw [length_append, le64_length, Nat.add_comm]
  by_cases hf : payload.length + 8 ≤ FRAME - OVERHEAD
  · have hc : checkPayload FRAME payload = .ok () := ensure_ok.mpr (by omega)
    have hrep : l.replyRaw C q.seq q.hash schema payload =
      l.emit C .reply q.hash q.seq (le64 schema ++ payload) := by
      rw [replyRaw, hc, guarded, emitReply, if_neg (by omega)]
    rw [hrep, ← hl]
    constructor
    · intro h
      refine ⟨by omega, ?_⟩
      by_contra hr
      exact not_answered (emit_full hr) h
    · rintro ⟨-, hr⟩
      exact ⟨(⟨.reply, q.hash, q.seq⟩, le64 schema ++ payload), .inl rfl, rfl, rfl, emit_queues (by omega) hr⟩
  · have hs : (l.replyRaw C q.seq q.hash schema payload).2 = l := by
      unfold replyRaw guarded emitReply
      split
      · rfl
      · rw [if_pos (by omega)]
    rw [hs]
    exact ⟨fun h => absurd h (not_answered rfl), fun h => absurd h.1 hf⟩

def errorText : Answer → Bytes
  | .replyErr message => fromUtf8Lossy message
  | .reply _ _ _ => text "no reply"
  | .drop => text "no reply"

def RoomForError (C : Codec) (l : Link N FRAME) (answer : Answer) : Prop :=
  HasRoom C l (min (errorText answer).length (FRAME - OVERHEAD))

def ReplyFits (C : Codec) (l : Link N FRAME) (q : LinkQuery) : Answer → Prop
  | .reply key payload attachment => (q.checkReply key attachment).isOk = true →
      payload.length + 8 ≤ FRAME - OVERHEAD ∧ HasRoom C l (payload.length + 8)
  | .replyErr _ => True
  | .drop => True

lemma dropped_answers (hfr : OVERHEAD ≤ FRAME) (ho : q.answered = false)
    (hr : HasRoom C l (min (text "no reply").length (FRAME - OVERHEAD))) :
    AnsweredOnce C q l (q.dropped C l) := by
  unfold LinkQuery.dropped
  rw [ho]
  exact emitError_answers hfr hr

lemma finish_answers (hfr : OVERHEAD ≤ FRAME) (ho : q.answered = false) (answer : Answer)
    (hr : RoomForError C l answer) : AnsweredOnce C q l (q.finish C l answer).2 ↔ ReplyFits C l q answer := by
  cases answer with
  | reply key payload attachment =>
    simp only [LinkQuery.finish, LinkQuery.reply, ReplyFits]
    cases hc : q.checkReply key attachment with
    | error message =>
      exact ⟨(by intro _ h; cases h), fun _ => dropped_answers hfr ho hr⟩
    | ok schema =>
      -- The query counts as answered before the link has taken the reply.
      have hd : ∀ l' : Link N FRAME, ({ q with answered := true } : LinkQuery).dropped C l' = l' := fun _ => rfl
      simp only [hd]
      exact replyRaw_answers.trans ⟨fun h _ => h, fun h => h rfl⟩
  | replyErr message => exact ⟨fun _ => trivial, fun _ => emitError_answers hfr hr⟩
  | drop => exact ⟨fun _ => trivial, fun _ => dropped_answers hfr ho hr⟩

def EngineNotice.finishes (token : ℕ) : EngineNotice N FRAME → Bool
  | .handed _ _ => false
  | .finished k _ _ _ _ => k == token

def finishes (token : ℕ) (trace : List (EngineNotice N FRAME)) : ℕ := trace.countP (·.finishes token)

structure Tracked (C : Codec) (trace : List (EngineNotice N FRAME)) (e : LinkEngine N FRAME) : Prop where
  fresh : ∀ token q, .handed token q ∈ trace → token < e.nextQuery
  waiting : ∀ token q, e.queries[token]? = some q →
    .handed token q ∈ trace ∧ q.answered = false ∧ finishes token trace = 0
  handed : ∀ token q, .handed token q ∈ trace →
    e.queries[token]? = some q ∨ e.queries[token]? = none ∧ finishes token trace = 1
  finished : ∀ token answer result l l', .finished token answer result l l' ∈ trace → token < e.nextQuery ∧
    ∃ q : LinkQuery, (∀ q', .handed token q' ∈ trace → q' = q) ∧ q.answered = false ∧
      (result, l') = q.finish C l answer

variable {trace : List (EngineNotice N FRAME)} {e e' : LinkEngine N FRAME}

section

variable (h : Tracked C trace e)

include h

lemma Tracked.same (hq : e'.queries = e.queries) (hn : e'.nextQuery = e.nextQuery) :
    Tracked C (trace ++ []) e' := by
  rw [append_nil]
  exact ⟨hn ▸ h.fresh, hq ▸ h.waiting, hq ▸ h.handed, hn ▸ h.finished⟩

lemma Tracked.unused : e.queries[e.nextQuery]? = none ∧ finishes e.nextQuery trace = 0 := by
  constructor
  · cases hq : e.queries[e.nextQuery]? with
    | none => rfl
    | some q => exact absurd (h.fresh _ q (h.waiting _ q hq).1) (Nat.lt_irrefl _)
  · rw [finishes, countP_eq_zero]
    intro n hm
    cases n with
    | handed token q => exact nofun
    | finished token answer result l l' =>
      intro ht
      have hlt := (h.finished _ _ _ _ _ hm).1
      rw [eq_of_beq ht] at hlt
      exact absurd hlt (Nat.lt_irrefl _)

lemma Tracked.hand (hq : q.answered = false) : Tracked C (trace ++ (e.hand q).1) (e.hand q).2 := by
  obtain ⟨hn, hz⟩ := h.unused
  have hc : ∀ token, finishes token (trace ++ (e.hand q).1) = finishes token trace := by
    intro token
    simp [finishes, LinkEngine.hand, EngineNotice.finishes]
  have hm : ∀ token q', .handed token q' ∈ trace ++ (e.hand q).1 ↔
      .handed token q' ∈ trace ∨ token = e.nextQuery ∧ q' = q := by
    intro token q'
    simp [LinkEngine.hand]
  have hg : ∀ token, (e.hand q).2.queries[token]? = if e.nextQuery = token then some q else e.queries[token]? := by
    intro token
    simp only [LinkEngine.hand, ExtTreeMap.getElem?_insert, LawfulEqOrd.compare_eq_iff_eq]
  refine ⟨?_, ?_, ?_, ?_⟩
  · intro token q' hh
    rcases (hm token q').mp hh with hh | ⟨rfl, -⟩
    · exact Nat.lt_succ_of_lt (h.fresh token q' hh)
    · exact Nat.lt_succ_self _
  · intro token q' hh
    rw [hg] at hh
    rw [hc, hm]
    split_ifs at hh with ht
    · cases hh
      exact ⟨Or.inr ⟨ht.symm, rfl⟩, hq, ht ▸ hz⟩
    · obtain ⟨h₁, h₂, h₃⟩ := h.waiting token q' hh
      exact ⟨Or.inl h₁, h₂, h₃⟩
  · intro token q' hh
    rw [hg, hc]
    rcases (hm token q').mp hh with hh | ⟨ht, rfl⟩
    · rw [if_neg (h.fresh token q' hh).ne']
      exact h.handed token q' hh
    · rw [if_pos ht.symm]
      exact .inl rfl
  · intro token answer result l l' hh
    obtain ⟨hlt, q₀, hu, ho, hf⟩ := h.finished token answer result l l' (by simpa [LinkEngine.hand] using hh)
    refine ⟨Nat.lt_succ_of_lt hlt, q₀, ?_, ho, hf⟩
    intro q' hh'
    rcases (hm token q').mp hh' with hh' | ⟨ht, -⟩
    · exact hu q' hh'
    · exact absurd ht hlt.ne

lemma Tracked.finish {token : ℕ} (hq : e.queries[token]? = some q) (answer : Answer) :
    Tracked C
      (trace ++ [.finished token answer (q.finish C e.host.link answer).1 e.host.link
        (q.finish C e.host.link answer).2])
      { e.withLink (q.finish C e.host.link answer).2 with queries := e.queries.erase token } := by
  obtain ⟨hha, ho, hz⟩ := h.waiting token q hq
  have hm : ∀ k q', .handed k q' ∈ trace ++ [.finished token answer (q.finish C e.host.link answer).1 e.host.link
      (q.finish C e.host.link answer).2] ↔ .handed k q' ∈ trace := by
    intro k q'
    simp
  have hc : ∀ k, finishes k (trace ++ [.finished token answer (q.finish C e.host.link answer).1 e.host.link
      (q.finish C e.host.link answer).2]) = finishes k trace + if token = k then 1 else 0 := by
    intro k
    simp [finishes, EngineNotice.finishes, countP_singleton]
  have hg : ∀ k, (e.queries.erase token)[k]? = if token = k then none else e.queries[k]? := by
    intro k
    simp only [ExtTreeMap.getElem?_erase, LawfulEqOrd.compare_eq_iff_eq]
  have hu : ∀ q', .handed token q' ∈ trace → q' = q := by
    intro q' hh
    rcases h.handed token q' hh with hh | ⟨hh, -⟩ <;> rw [hq] at hh <;> cases hh
    rfl
  refine ⟨fun k q' hh => h.fresh k q' ((hm k q').mp hh), ?_, ?_, ?_⟩
  · intro k q' hh
    rw [hg] at hh
    rw [hm, hc]
    split_ifs at hh ⊢
    exact h.waiting k q' hh
  · intro k q' hh
    rw [hg, hc]
    split_ifs with hk
    · exact .inr ⟨rfl, by rw [← hk, hz]⟩
    · exact h.handed k q' ((hm k q').mp hh)
  · intro k answer' result l l' hh
    rcases mem_append.mp hh with hh | hh
    · obtain ⟨hlt, q₀, hu₀, hr⟩ := h.finished k answer' result l l' hh
      exact ⟨hlt, q₀, fun q' hh' => hu₀ q' ((hm k q').mp hh'), hr⟩
    · cases mem_singleton.mp hh
      exact ⟨h.fresh token q hha, q, fun q' hh' => hu q' ((hm token q').mp hh'), ho, rfl⟩

lemma Tracked.onRequest (d : Delivery) : Tracked C (trace ++ (e.onRequest C d).1) (e.onRequest C d).2 := by
  unfold LinkEngine.onRequest
  repeat' split
  · exact h.same rfl rfl
  · exact h.same rfl rfl
  · exact h.same rfl rfl
  · dsimp only
    split_ifs
    · exact h.hand rfl
    · exact h.same rfl rfl

lemma Tracked.step {op : EngineOp} {notices : List (EngineNotice N FRAME)} (hs : e.step C op = some (notices, e')) :
    Tracked C (trace ++ notices) e' := by
  cases op with
  | host op =>
    simp only [LinkEngine.step, bind_eq_bind, bind_eq_some_iff, pure, Option.some.injEq] at hs
    obtain ⟨x, -, hx⟩ := hs
    cases hx
    exact h.same rfl rfl
  | respond key =>
    cases hs
    unfold LinkEngine.respond
    split <;> exact h.same rfl rfl
  | dropGuard id =>
    cases hs
    exact h.same rfl rfl
  | take =>
    simp only [LinkEngine.step] at hs
    split at hs
    · rename_i event inbox _ _
      have h' : Tracked C trace ({ e with inbox } : LinkEngine N FRAME) :=
        ⟨h.fresh, h.waiting, h.handed, h.finished⟩
      cases event with
      | request d =>
        have hn := h'.onRequest d
        rw [show LinkEngine.onRequest C { e with inbox } d = (notices, e') from Option.some.inj hs] at hn
        exact hn
      | connected | disconnected | data =>
        cases hs
        exact h.same rfl rfl
    · cases hs
  | stop =>
    simp only [LinkEngine.step] at hs
    split_ifs at hs
    cases hs
    exact h.same rfl rfl
  | answer token answer =>
    simp only [LinkEngine.step, bind_eq_bind, bind_eq_some_iff, pure, Option.some.injEq] at hs
    obtain ⟨q, hq, hx⟩ := hs
    cases hx
    exact h.finish hq answer

end

lemma spawn_tracked (host : Host N FRAME) (domain : String) : Tracked C [] (spawn host domain) where
  fresh := fun _ _ h => absurd h List.not_mem_nil
  waiting := fun token q h => by simp [spawn] at h
  handed := fun _ _ h => absurd h List.not_mem_nil
  finished := fun _ _ _ _ _ h => absurd h List.not_mem_nil

lemma run_tracked {host : Host N FRAME} {domain : String} {ops : List EngineOp}
    {notices : List (List (EngineNotice N FRAME))}
    (hr : run (step C) (spawn host domain) ops = some (notices, e)) :
    Tracked C notices.flatten e := by
  have hst : ∀ (rs : List (List (EngineNotice N FRAME))) (s : LinkEngine N FRAME) (op : EngineOp)
      (ns : List (EngineNotice N FRAME)) (s' : LinkEngine N FRAME),
      Tracked C rs.flatten s → s.step C op = some (ns, s') → Tracked C (rs ++ [ns]).flatten s' := by
    intro rs s op ns s' hrs hs
    rw [flatten_append, flatten_singleton]
    exact hrs.step hs
  exact @run_history _ _ _ (step C) _ e notices ops (fun rs s => Tracked C rs.flatten s) hst []
    (spawn_tracked host domain) hr

theorem request_answered_once (hframe : OVERHEAD ≤ FRAME) {host : Host N FRAME} {domain : String}
    {ops : List EngineOp} {notices : List (List (EngineNotice N FRAME))}
    (hrun : run (step C) (spawn host domain) ops = some (notices, e)) :
    (∀ token q, .handed token q ∈ notices.flatten →
      e.queries[token]? = some q ∨ e.queries[token]? = none ∧ finishes token notices.flatten = 1) ∧
    ∀ token q answer result before after, .handed token q ∈ notices.flatten →
      .finished token answer result before after ∈ notices.flatten → RoomForError C before answer →
        (AnsweredOnce C q before after ↔ ReplyFits C before q answer) := by
  have htr := run_tracked hrun
  refine ⟨htr.handed, ?_⟩
  intro token q answer result before after hh hfin hr
  obtain ⟨-, q₀, hu, ho, hf⟩ := htr.finished token answer result before after hfin
  obtain rfl := hu q hh
  obtain ⟨-, rfl⟩ := Prod.ext_iff.mp hf
  exact finish_answers hframe ho answer hr

def farId : Str := ⟨[120], by decide⟩

def callerPorts : List StaticPort :=
  [⟨sumPort, .rpcClient, sumService.request.ty, sumService.request.schema, some sumService.response,
    [⟨farId, sumPort⟩]⟩]

def caller : Link 2 128 := ((initial boardId callerPorts 400 400).rpcClient sumService sumPort).2

def farHash : UInt32 := endpointHash farId sumPort

def farKey : Key := .output "d" "x" "s" "S"

def callerHello : Bytes := wireBytes standard (⟨.hello, 0, 0⟩, helloBytes true false boardId caller.localEntries)

def sumRequest : Bytes := wireBytes standard (⟨.request, farHash, 7⟩, [1, 2])

def answerOps (answer : Answer) : List EngineOp :=
  [.respond farKey, .host (.receive callerHello), .take, .host (.receive sumRequest), .take, .answer 0 answer]

def sumAnswer (payload : Bytes) : Answer := .reply farKey payload (some (le64 6))

def Host.bridged : Host 2 128 := .spawn bridgeEnd

structure Seen where
  token : ℕ
  answer : Answer
  cap : ℕ
  before : Bytes
  after : Bytes
deriving DecidableEq

def observed (notices : List (EngineNotice 2 128)) : List (ℕ × UInt32 × UInt8) × List Seen :=
  (notices.filterMap fun n =>
      match n with
      | .handed token q => some (token, q.hash, q.seq)
      | .finished _ _ _ _ _ => none,
    notices.filterMap fun n =>
      match n with
      | .handed _ _ => none
      | .finished token answer _ before after => some ⟨token, answer, before.txCap, before.tx, after.tx⟩)

variable {notices : List (EngineNotice 2 128)} {token : ℕ}

lemma observed_handed {hash : UInt32} {seq : UInt8} (h : (token, hash, seq) ∈ (observed notices).1) :
    ∃ q : LinkQuery, .handed token q ∈ notices ∧ q.hash = hash ∧ q.seq = seq := by
  obtain ⟨n, hn, he⟩ := mem_filterMap.mp h
  cases n with
  | handed k q =>
    cases he
    exact ⟨q, hn, rfl, rfl⟩
  | finished => cases he

lemma observed_finished {cap : ℕ} {answer : Answer} {tx tx' : Bytes}
    (h : ⟨token, answer, cap, tx, tx'⟩ ∈ (observed notices).2) : ∃ result before after,
      .finished token answer result before after ∈ notices ∧ before.txCap = cap ∧ before.tx = tx ∧
        after.tx = tx' := by
  obtain ⟨n, hn, he⟩ := mem_filterMap.mp h
  cases n with
  | handed => cases he
  | finished k a result before after =>
    cases he
    exact ⟨result, before, after, hn, rfl, rfl, rfl⟩

def bridgeHello : Bytes := [4, 82, 89, 2, 1, 1, 1, 1, 1, 3, 2, 2, 3, 1, 104, 3, 254, 73, 0]

theorem request_answered_once_sum : ∃ notices e q result before after,
    run (step standard) (spawn Host.bridged "d") (answerOps (sumAnswer [9])) = some (notices, e) ∧
    .handed 0 q ∈ notices.flatten ∧ .finished 0 (sumAnswer [9]) result before after ∈ notices.flatten ∧
    AnsweredOnce standard q before after := by
  have hs : (run (step standard) (spawn Host.bridged "d") (answerOps (sumAnswer [9]))).map
      (fun x => observed x.1.flatten) = some ([(0, farHash, 7)], [⟨0, sumAnswer [9], 400, bridgeHello,
        bridgeHello ++ wireBytes standard (⟨.reply, farHash, 7⟩, le64 6 ++ [9])⟩]) := by
    decide +kernel
  obtain ⟨⟨notices, e⟩, hrun, ho⟩ := map_eq_some_iff.mp hs
  obtain ⟨q, hh, -, -⟩ := observed_handed (by rw [ho]; exact mem_singleton_self _)
  obtain ⟨result, before, after, hf, hc, htx, -⟩ :=
    observed_finished (by rw [ho]; exact mem_singleton_self _)
  have hr : ∀ len, len ≤ 17 → HasRoom standard before len := by
    intro len hl
    rw [HasRoom, hc, htx]
    exact (Nat.add_le_add_right (Lib.Cobs.maxLength_mono (Nat.add_le_add_left hl _)) 1).trans (by decide)
  have hiff := (request_answered_once (by decide) hrun).2 0 q (sumAnswer [9]) result before after hh hf
    (hr _ (by decide +kernel))
  exact ⟨notices, e, q, result, before, after, hrun, hh, hf,
    hiff.mpr fun _ => ⟨by decide, hr _ (by decide)⟩⟩

theorem request_left_unanswered : ∃ notices e q result before after,
    run (step standard) (spawn Host.bridged "d")
      (answerOps (sumAnswer (List.replicate 110 0))) = some (notices, e) ∧
    .handed 0 q ∈ notices.flatten ∧
    .finished 0 (sumAnswer (List.replicate 110 0)) result before after ∈ notices.flatten ∧
    RoomForError standard before (sumAnswer (List.replicate 110 0)) ∧ ¬ AnsweredOnce standard q before after := by
  have hs : (run (step standard) (spawn Host.bridged "d")
      (answerOps (sumAnswer (List.replicate 110 0)))).map (fun x => observed x.1.flatten) =
        some ([(0, farHash, 7)], [⟨0, sumAnswer (List.replicate 110 0), 400, bridgeHello, bridgeHello⟩]) := by
    decide +kernel
  obtain ⟨⟨notices, e⟩, hr, ho⟩ := map_eq_some_iff.mp hs
  obtain ⟨q, hh, -, -⟩ := observed_handed (by rw [ho]; exact mem_singleton_self _)
  obtain ⟨result, before, after, hf, hc, htx, htx'⟩ :=
    observed_finished (by rw [ho]; exact mem_singleton_self _)
  refine ⟨notices, e, q, result, before, after, hr, hh, hf, ?_, not_answered (htx'.trans htx.symm)⟩
  rw [RoomForError, HasRoom, hc, htx]
  decide +kernel

end Reiny.Link
