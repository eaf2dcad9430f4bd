import Reiny.Link.Memory
import Reiny.Link.Outstanding

namespace Reiny.Link

open Lib Words Utf8 Results Machine Wire HelloFormat Ports State

variable {N FRAME : ℕ} {C : Codec} {l l' : Link N FRAME} {h h' : Host N FRAME}

lemma Performed.drained (hp : Performed C l l') (hd : Drained l) : Drained l' := by
  have hsa : l'.rx.drop l'.rxConsumed = l.rx.drop l.rxConsumed :=
    hp.keeps (f := fun l => l.rx.drop l.rxConsumed) fun _ _ _ _ _ _ _ _ => rfl
  rwa [Drained, hsa]

lemma convert_link (h : Host N FRAME) (event : Event) : (h.convert event).2.link = h.link := by
  unfold Host.convert Host.deliver Host.answer
  repeat' split
  all_goals rfl

lemma collectLoop_drained (hC : C.Lawful) (fuel : ℕ) (hf : (h.link.rx.drop h.link.rxConsumed).length < fuel) :
    Drained (h.collectLoop C fuel).2.link := by
  induction fuel generalizing h with
  | zero => omega
  | succ fuel ih =>
    obtain ⟨hd, hl⟩ := next_drains hC h.link
    unfold Host.collectLoop
    split <;> rename_i hn <;> rw [hn] at hd hl
    · exact hd rfl
    · apply ih
      rw [convert_link]
      exact (hl nofun).trans_le (Nat.lt_succ_iff.mp hf)

lemma collect_drained (hC : C.Lawful) (h : Host N FRAME) : Drained (h.collect C).2.link := by
  apply collectLoop_drained hC
  rw [List.length_drop]
  omega

lemma poll_drained (hC : C.Lawful) (h : Host N FRAME) (nowMs : UInt32) : Drained (h.poll C nowMs).2.link := by
  unfold Host.poll
  split
  · exact collect_drained hC _
  · exact collect_drained hC _

/-- The rounds of the receive loop on a chunk, each with the piece it accepts. -/
inductive TakenIn (C : Codec) : Host N FRAME → Bytes → List Bytes → Host N FRAME → Prop
  | done (h : Host N FRAME) : TakenIn C h [] [] h
  | round {h h' : Host N FRAME} {rest : Bytes} {pieces : List Bytes} (hrest : rest ≠ [])
      (haccepted : 0 < (h.link.feed C rest).1)
      (hlater : TakenIn C ((h.withLink (h.link.feed C rest).2).collect C).2
        (rest.drop (h.link.feed C rest).1) pieces h') :
      TakenIn C h rest (rest.take (h.link.feed C rest).1 :: pieces) h'

lemma receiveLoop_takenIn (hC : C.Lawful) (fuel : ℕ) {rest : Bytes} (hd : Drained h.link)
    (hf : rest.length < fuel) :
    ∃ pieces, pieces.flatten = rest ∧ TakenIn C h rest pieces (h.receiveLoop C fuel rest).2 ∧
      Drained (h.receiveLoop C fuel rest).2.link := by
  induction fuel generalizing h rest with
  | zero => omega
  | succ fuel ih =>
    unfold Host.receiveLoop
    by_cases hr : rest = []
    · rw [if_pos hr, hr]
      exact ⟨[], rfl, .done h, hd⟩
    · have ha : 0 < (h.link.feed C rest).1 := feed_progress hr hd
      have hp := List.length_pos_iff.mpr hr
      obtain ⟨pieces, hfl, hl, hd'⟩ := @ih ((h.withLink (h.link.feed C rest).2).collect C).2
        (rest.drop (h.link.feed C rest).1) (collect_drained hC _) (by rw [List.length_drop]; omega)
      rw [if_neg hr]
      dsimp only
      rw [if_neg ha.ne']
      refine ⟨rest.take (h.link.feed C rest).1 :: pieces, ?_, .round hr ha hl, hd'⟩
      rw [List.flatten_cons, hfl, List.take_append_drop]

lemma step_drained (hC : C.Lawful) (hd : Drained h.link) {op : HostOp} {notices : List Notice}
    (hs : h.step C op = some (notices, h')) : Drained h'.link := by
  have hse (op : Op) (hr : op.receives = false) (ht : op.ticks = false) : Drained (op.apply C h.link) :=
    (apply_performed h.link hr ht).drained hd
  cases op with
  | call hash payload =>
    have hc := hse (.requestRaw hash payload) rfl rfl
    simp only [Host.step, Host.call] at hs
    split at hs <;> rename_i hr <;> cases hs <;> rw [Op.apply, hr] at hc <;> exact hc
  | drop r =>
    simp only [Host.step, Host.dropReservation] at hs
    split_ifs at hs <;> cases hs
    · exact hse (.cancelRequest r.hash r.seq) rfl rfl
    · exact hd
  | poll nowMs =>
    have ha : (h.poll C nowMs).2 = h' := congrArg Prod.snd (Option.some.inj hs)
    exact ha ▸ poll_drained hC h nowMs
  | receive bytes =>
    obtain ⟨-, -, -, hd'⟩ := receiveLoop_takenIn hC _ hd (Nat.lt_succ_self bytes.length)
    have ha : (h.receive C bytes).2 = h' := congrArg Prod.snd (Option.some.inj hs)
    exact ha ▸ hd'
  | drain room =>
    cases hs
    exact hse (.drain room) rfl rfl
  | drainFrame room =>
    cases hs
    exact hse (.drainFrame room) rfl rfl
  | send ty name msg =>
    cases hs
    exact hse (.send ty name msg) rfl rfl
  | sendRaw hash payload =>
    cases hs
    exact hse (.sendRaw hash payload) rfl rfl
  | reply S name seq resp =>
    cases hs
    exact hse (.reply S name seq resp) rfl rfl
  | replyRaw seq hash schema payload =>
    cases hs
    exact hse (.replyRaw seq hash schema payload) rfl rfl
  | replyErr S name seq message =>
    cases hs
    exact hse (.replyErr S name seq message) rfl rfl
  | replyErrRaw seq hash message =>
    cases hs
    exact hse (.replyErrRaw seq hash message) rfl rfl

theorem receive_takes_all (hC : C.Lawful) (h : Host N FRAME) (nowMs : UInt32) {ops : List HostOp}
    {notices : List (List Notice)} (hrun : run (Host.step C) (h.poll C nowMs).2 ops = some (notices, h'))
    (bytes : Bytes) :
    ∃ pieces, pieces.flatten = bytes ∧ TakenIn C h' bytes pieces (h'.receive C bytes).2 := by
  have hd : Drained h'.link :=
    run_invariant (P := fun h : Host N FRAME => Drained h.link) (fun _ _ _ _ hd => step_drained hC hd)
      (poll_drained hC h nowMs) hrun
  obtain ⟨pieces, hf, hr, -⟩ := receiveLoop_takenIn hC _ hd (Nat.lt_succ_self bytes.length)
  exact ⟨pieces, hf, hr⟩

theorem receive_takes_all_hello : ∃ pieces, pieces.flatten = serverHello ∧
    TakenIn standard ((Host.spawn bridgeEnd).poll standard 0).2 serverHello pieces
      (((Host.spawn bridgeEnd).poll standard 0).2.receive standard serverHello).2 :=
  @receive_takes_all 2 128 standard _ standard_lawful (Host.spawn bridgeEnd) 0 [] [] rfl serverHello

end Reiny.Link
