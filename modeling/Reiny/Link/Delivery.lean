import Reiny.Link.Contracts

/-! Every action of either party keeps both directions of the wire in order, so what one link sends is
exactly what the other one is given. -/

namespace Reiny.Link

open Lib Words Utf8 Results Wire HelloFormat HelloCodec Ports State List

variable {N FRAME : ℕ} {C : Codec} {X Y : Link N FRAME} {p q : Party N FRAME}

structure Good (C : Codec) (X Y : Link N FRAME) (p q : Party N FRAME) : Prop where
  here : Side C X p.link.core
  there : Side C Y q.link.core
  out : ∃ items, Channel C X Y p.link.core p.sent q.inbox q.link.core q.received items
  back : ∃ items, Channel C Y X q.link.core q.sent p.inbox p.link.core p.received items

lemma Good.symm (h : Good C X Y p q) : Good C Y X q p := ⟨h.there, h.here, h.back, h.out⟩

lemma Good.congr {l : Link N FRAME} (h : Good C X Y p q) (hl : l.core = p.link.core) :
    Good C X Y { p with link := l } q := by
  obtain ⟨here, there, out, back⟩ := h
  rw [← hl] at here out back
  exact ⟨here, there, out, back⟩

variable {i : Item}

section

variable (h : Good C X Y p q) (hs : p.link.started = true)

include h hs

lemma Good.append {l : Link N FRAME} (hf : Fitting FRAME (i.frame X)) (hw : ∀ s ∈ i.sent, Wanted X Y s)
    (hl : l.core = { p.link.core with tx := p.link.tx ++ wireBytes C (i.frame X) }) :
    Good C X Y { p with link := l, sent := p.sent ++ i.sent } q := by
  obtain ⟨items, out⟩ := h.out
  obtain ⟨items', back⟩ := h.back
  refine ⟨?_, h.there, ⟨items ++ [i], ?_⟩, ⟨items', ?_⟩⟩
  · change Side C X l.core
    rw [hl]
    exact h.here.traffic _ _
  · change Channel C X Y l.core _ _ _ _ _
    rw [hl]
    exact out.queue hs hf hw
  · change Channel C Y X _ _ _ l.core _ _
    rw [hl]
    exact back.receiver rfl rfl rfl

lemma Good.control (hi : i.sent = []) :
    Good C X Y { p with link := (p.link.emit C (i.frame X).1.kind (i.frame X).1.hash (i.frame X).1.seq
      (i.frame X).2).2 } q := by
  rcases @emit_core N FRAME C p.link (i.frame X) with ⟨e, -, hl⟩ | ⟨hf, -, hl⟩
  · exact h.congr hl
  · have hg := h.append hs hf (by rw [hi]; simp) hl
    rw [hi, append_nil] at hg
    exact hg

lemma Good.hello (ack : Bool) : Good C X Y { p with link := (p.link.queueHello C ack).2 } q := by
  unfold queueHello
  rw [show p.link.helloPayload ack = _ from h.here.helloPayload ack]
  exact h.control (i := .hello ack) hs rfl

end

lemma queueHello_unread (l : Link N FRAME) (ack : Bool) : (l.queueHello C ack).2.core.unread = l.core.unread := by
  unfold queueHello
  cases l.helloPayload ack with
  | error e => rfl
  | ok payload =>
    rcases @emit_core N FRAME C l (⟨.hello, 0, 0⟩, payload) with ⟨e, -, hl⟩ | ⟨-, -, hl⟩
    · exact congrArg Core.unread hl
    · exact (congrArg Core.unread hl).trans rfl

lemma ensureStarted_unread (l : Link N FRAME) : (l.ensureStarted C).core.unread = l.core.unread := by
  unfold ensureStarted
  split_ifs
  · rfl
  · rw [queueHello_unread]
    rfl

lemma Good.idle (h : Good C X Y p q) (hs : p.link.started = false) : p.link.tx = [] := by
  obtain ⟨items, out⟩ := h.out
  have hst := out.stream
  rw [out.quiet hs, flatMap_nil, append_eq_nil_iff] at hst
  exact hst.2

lemma Good.start (hC : C.Lawful) (h : Good C X Y p q) : Good C X Y { p with link := p.link.ensureStarted C } q := by
  unfold ensureStarted
  cases hs : p.link.started with
  | true => exact h
  | false =>
    simp only [Bool.false_eq_true, if_false]
    set l : Link N FRAME := { p.link with started := true }
    have hp : l.helloPayload false = _ := h.here.helloPayload false
    have hf := h.here.hello_fitting false
    have hl : (l.queueHello C false).2.core = { l.core with
        tx := l.tx ++ wireBytes C ((Item.hello false).frame X) } := by
      unfold queueHello
      rw [hp]
      rcases @emit_core N FRAME C l ((Item.hello false).frame X) with ⟨e, he, -⟩ | ⟨-, -, hl⟩
      · rw [emit_empty (l := l) hC hf (h.idle hs) h.here.txRoom] at he
        cases he
      · exact hl
    obtain ⟨items, out⟩ := h.out
    obtain ⟨items', back⟩ := h.back
    refine ⟨?_, h.there, ⟨[.hello false], ?_⟩, ⟨items', ?_⟩⟩
    · change Side C X (l.queueHello C false).2.core
      rw [hl]
      exact (h.here.retabled h.here.inv.start rfl rfl).traffic _ _
    · change Channel C X Y (l.queueHello C false).2.core _ _ _ _ _
      rw [hl]
      exact out.start hs hf
    · change Channel C Y X _ _ _ (l.queueHello C false).2.core _ _
      rw [hl]
      exact back.receiver rfl rfl rfl

section Handling

variable {l : Link N FRAME} {items : List Item} {frame : Frame} {rest : Bytes}

structure Handled (C : Codec) (X Y : Link N FRAME) (p q : Party N FRAME) (rest : Bytes)
    (x : Option Event × Link N FRAME) : Prop where
  good : Good C X Y { p with link := x.2, received := p.received ++ dataOf x.1 x.2 } q
  unread : x.2.core.unread = rest
  started : x.2.started = true

lemma Good.popped {new : List (Frame × Link N FRAME)} (h : Good C X Y p q)
    (hback : Channel C Y X q.link.core q.sent p.inbox p.link.core p.received (i :: items)) (hsi : Side C X l.core)
    (htx : l.tx = p.link.tx) (hs : l.started = p.link.started)
    (hu : p.link.core.unread = wireBytes C (i.frame Y) ++ l.core.unread)
    (hk : l.connected = true → AllMatched Y.toTables X.toTables ∧
      ∃ ack, l.peerHello = helloBytes ack false Y.id Y.localEntries)
    (hf : l.connected = true ∨ ¬ AllMatched Y.toTables X.toTables)
    (hn : List.Forall₂ (Delivered Y.id) i.sent new) :
    Good C X Y { p with link := l, received := p.received ++ new } q := by
  obtain ⟨items', out⟩ := h.out
  exact ⟨hsi, h.there, ⟨items', out.sender htx hs⟩, ⟨items, hback.pop hu hk hf hn⟩⟩

lemma Channel.settled {x y : Core N FRAME} {sent : List Sent} {line : Bytes}
    {received : List (Frame × Link N FRAME)} (h : Channel C X Y x sent line y received (i :: items))
    (hi : ∀ ack, i ≠ .hello ack) : y.tables.connected = true ∨ ¬ AllMatched X.toTables Y.toTables := by
  rcases h.first with hc | hq | hm | ⟨ack, rest, hit⟩
  · exact .inl hc
  · exact absurd (h.quiet hq) (cons_ne_nil _ _)
  · exact .inr hm
  · exact absurd (List.cons.inj hit).1 (hi ack)

variable (h : Good C X Y p q) (hs : p.link.started = true) (hl : l.core = { p.link.core with unread := rest })

include h hl in
lemma Good.moved : Side C X l.core := by
  rw [hl]
  exact h.here.traffic _ rest

include h hs hl

lemma handle_ping (hback : Channel C Y X q.link.core q.sent p.inbox p.link.core p.received (.ping :: items))
    (hu : p.link.core.unread = wireBytes C (Item.ping.frame Y) ++ rest) : Handled C X Y p q rest (none, l) := by
  have ht : l.toTables = p.link.toTables := congrArg Core.tables hl
  have hr : l.core.unread = rest := congrArg Core.unread hl
  refine ⟨?_, hr, ht ▸ hs⟩
  apply h.popped hback (h.moved hl) (congrArg Core.tx hl) (by rw [ht]) (by rw [hr]; exact hu)
  · rw [ht]
    exact hback.known
  · rw [ht]
    exact hback.settled (by simp)
  · exact .nil

lemma handle_data {seq : UInt8} {s : Sent}
    (hback : Channel C Y X q.link.core q.sent p.inbox p.link.core p.received (.data seq s :: items))
    (hu : p.link.core.unread = wireBytes C ((Item.data seq s).frame Y) ++ rest)
    (hh : frame.hash = endpointHash Y.id s.name) (hk : frame.kind = .data)
    (hg : frame.generation = l.rxGeneration) (hpay : l.rxPayload frame.len = s.msg) :
    Handled C X Y p q rest (l.onData frame) := by
  have ht : l.toTables = p.link.toTables := congrArg Core.tables hl
  have hr : l.core.unread = rest := congrArg Core.unread hl
  have hw := hback.wanted _ mem_cons_self s (by simp [Item.sent])
  have hc := (hback.settled (by simp)).resolve_right (not_not_intro hw.matched)
  obtain ⟨-, ack, hp⟩ := hback.known hc
  have hpe : l.peerHello = helloBytes ack false Y.id Y.localEntries := by
    rw [ht]
    exact hp
  obtain ⟨hd, hcon⟩ := wanted_received (h.moved hl) h.there (ht ▸ hc) hpe hw hh hk hg
  rw [hd]
  refine ⟨?_, hr, ht ▸ hs⟩
  apply h.popped hback (h.moved hl) (congrArg Core.tx hl) (by rw [ht]) (by rw [hr]; exact hu)
  · rw [ht]
    exact hback.known
  · rw [ht]
    exact .inl hc
  · refine .cons ⟨hh, ?_⟩ .nil
    intro M T m hT hm hdec
    have hfr : l.payload frame = s.msg := by simp [payload, isFresh, hg, hpay]
    simp only [decode, hk, true_or, hcon, hT, and_self, if_true, hfr, ← hm, hdec]

section Hello

variable {ack : Bool}
  (hback : Channel C Y X q.link.core q.sent p.inbox p.link.core p.received (.hello ack :: items))
  (hu : p.link.core.unread = wireBytes C ((Item.hello ack).frame Y) ++ rest)

include hback hu

lemma handle_refused (e : Error) (hm : ¬ AllMatched Y.toTables X.toTables) :
    Handled C X Y p q rest (l.refuseHello e) := by
  have ht : l.toTables = p.link.toTables := congrArg Core.tables hl
  have hc : l.connected = false := by
    cases hc : l.connected with
    | false => rfl
    | true =>
      rw [ht] at hc
      exact absurd (hback.known hc).1 hm
  have hco : (l.refuseHello e).2.core = { l.core with tables := l.forgetPeer } := by
    unfold refuseHello countOverflow
    split_ifs <;> rfl
  have hsi : Side C X (l.refuseHello e).2.core := by
    rw [hco]
    exact (h.moved hl).retabled (h.moved hl).inv.forget rfl rfl
  have hun : (l.refuseHello e).2.core.unread = rest := by
    rw [hco]
    exact congrArg Core.unread hl
  have htx : (l.refuseHello e).2.tx = p.link.tx := (congrArg Core.tx hco).trans (congrArg Core.tx hl)
  have hst : (l.refuseHello e).2.started = p.link.started := by
    rw [← ht]
    rfl
  have hev : (l.refuseHello e).1 = none := by simp [refuseHello, hc]
  refine ⟨?_, hun, hst.trans hs⟩
  rw [hev]
  exact h.popped hback hsi htx hst (by rw [hun]; exact hu) (fun hn => by cases hn) (Or.inr hm) .nil

lemma handle_accepted {r : PeerContract} (hv : l.validateHello (helloBytes ack false Y.id Y.localEntries) = .ok r)
    (hm : AllMatched Y.toTables X.toTables) :
    Handled C X Y p q rest (l.acceptHello C frame (helloBytes ack false Y.id Y.localEntries) r) := by
  set payload := helloBytes ack false Y.id Y.localEntries
  set adopted := l.withTables (l.adopt payload r) with ha
  have hst : adopted.started = true := by
    rw [← hs]
    exact congrArg (fun c : Core N FRAME => c.tables.started) hl
  have hr : adopted.core.unread = rest := congrArg Core.unread hl
  have hsi : Side C X adopted.core := (h.moved hl).retabled ((h.moved hl).inv.adopt hst hv) rfl rfl
  have hg : Good C X Y { p with link := adopted, received := p.received ++ [] } q :=
    h.popped hback hsi (congrArg Core.tx hl) (hst.trans hs.symm) (by rw [hr]; exact hu)
      (fun _ => ⟨hm, ack, rfl⟩) (Or.inl rfl) .nil
  have hev : dataOf (l.acceptHello C frame payload r).1 (l.acceptHello C frame payload r).2 = [] := by
    unfold acceptHello dataOf
    dsimp only
    split_ifs <;> rfl
  refine ⟨?_, ?_, ?_⟩
  · rw [hev]
    unfold acceptHello
    dsimp only
    split_ifs
    · exact hg
    · exact hg.hello hst true
  · unfold acceptHello
    dsimp only
    split_ifs
    · exact hr
    · rw [queueHello_unread]
      exact hr
  · rw [acceptHello_tables]
    exact hst

lemma handle_hello (hp : l.rxPayload frame.len = helloBytes ack false Y.id Y.localEntries) :
    Handled C X Y p q rest (l.onHello C frame) := by
  have hk : l.connected = true → ∃ ack, l.peerHello = helloBytes ack false Y.id Y.localEntries := by
    rw [show l.toTables = p.link.toTables from congrArg Core.tables hl]
    exact fun hc => (hback.known hc).2
  have ha := @Side.accepts N FRAME C X Y l.core ack _ (h.moved hl) h.there hk
  unfold onHello
  rw [hp]
  cases hv : l.validateHello (helloBytes ack false Y.id Y.localEntries) with
  | error e =>
    apply handle_refused h hs hl hback hu
    intro hm
    obtain ⟨r, hr⟩ := ha.mpr hm.symm
    rw [show l.core.tables.validateHello _ = _ from hv] at hr
    cases hr
  | ok r => exact handle_accepted h hs hl hback hu hv (ha.mp ⟨r, hv⟩).symm

end Hello

lemma handle_item {f : WireFrame} (hf : f = i.frame Y)
    (hback : Channel C Y X q.link.core q.sent p.inbox p.link.core p.received (i :: items))
    (hu : p.link.core.unread = wireBytes C f ++ rest) (hk : frame.kind = f.1.kind) (hh : frame.hash = f.1.hash)
    (hg : frame.generation = l.rxGeneration) (hp : l.rxPayload frame.len = f.2) :
    Handled C X Y p q rest (l.dispatch C frame) := by
  subst hf
  unfold dispatch
  rw [hk]
  cases i with
  | hello ack => exact handle_hello h hs hl hback hu hp
  | ping => exact handle_ping h hs hl hback hu
  | data seq s =>
    dsimp only [Item.frame] at hh
    exact handle_data h hs hl hback hu hh hk hg hp

end Handling

section Rounds

variable (hC : C.Lawful) (hmax : FRAME - OVERHEAD ≤ 65535)

lemma settle_core (x : Option Event × Link N FRAME) :
    (settle x).1 = x.1 ∧ (settle x).2.core = x.2.core ∧ (∀ e, x.1 = some e → (settle x).2 = x.2) ∧
      (x.1 = none → (settle x).2.rxConsumed = 0) := by
  obtain ⟨event, l⟩ := x
  cases event with
  | some e => exact ⟨rfl, rfl, fun _ _ => rfl, fun h => by cases h⟩
  | none => exact ⟨rfl, rxCompact_core, fun _ h => (by cases h), fun _ => rxCompact_consumed⟩

lemma Handled.settled {rest : Bytes} {x : Option Event × Link N FRAME} (h : Handled C X Y p q rest x) :
    Handled C X Y p q rest (settle x) := by
  obtain ⟨hev, hc, hso, -⟩ := settle_core x
  have ht : (settle x).2.toTables = x.2.toTables := congrArg Core.tables hc
  refine ⟨?_, by rw [hc]; exact h.unread, by rw [ht]; exact h.started⟩
  rw [hev]
  cases he : x.1 with
  | some e =>
    rw [hso e he, ← he]
    exact h.good
  | none =>
    have hg := h.good
    rw [he] at hg
    exact hg.congr hc

include hC hmax

lemma Good.round (h : Good C X Y p q) (hs : p.link.started = true) (hz : p.link.rxConsumed = 0)
    (hd : DELIMITER ∈ p.link.rx) : ∃ rest x, p.link.nextRound C = some x ∧ Handled C X Y p q rest x ∧
      rest.length < p.link.rx.length ∧ (x.1 = none → x.2.rxConsumed = 0) := by
  obtain ⟨items, hback⟩ := h.back
  have hun : p.link.core.unread = p.link.rx := by simp [core, hz]
  have hst := hback.stream
  rw [hun, append_assoc] at hst
  cases items with
  | nil =>
    rw [flatMap_nil, append_eq_nil_iff] at hst
    rw [hst.1] at hd
    exact absurd hd not_mem_nil
  | cons i items =>
    rw [flatMap_cons] at hst
    obtain ⟨rest, hrx, -⟩ := first_frame hC hst hd
    have hl := arrive_core hC hrx
    have hit : Handled C X Y p q rest
      ((arrive C p.link (i.frame Y)).2.dispatch C (arrive C p.link (i.frame Y)).1) :=
      handle_item h hs hl rfl hback (by rw [hun]; exact hrx) rfl rfl rfl arrive_payload
    refine ⟨rest, _, nextRound_wire hC hrx (hback.fit i mem_cons_self) hmax, hit.settled, ?_,
      fun he => (settle_core _).2.2.2 ((settle_core _).1.symm.trans he)⟩
    rw [hrx, length_append, wireBytes_length_eq]
    omega

lemma Good.loop (fuel : ℕ) (h : Good C X Y p q) (hs : p.link.started = true) (hz : p.link.rxConsumed = 0)
    (hf : p.link.rx.length < fuel) :
    Good C X Y { p with link := (nextLoop C fuel p.link).2
                        received := p.received ++ dataOf (nextLoop C fuel p.link).1 (nextLoop C fuel p.link).2 } q ∧
      ((nextLoop C fuel p.link).1 = none → DELIMITER ∉ (nextLoop C fuel p.link).2.core.unread) ∧
      (nextLoop C fuel p.link).2.core.unread.length ≤ p.link.rx.length ∧
      ((nextLoop C fuel p.link).1 ≠ none → (nextLoop C fuel p.link).2.core.unread.length < p.link.rx.length) := by
  induction fuel generalizing p with
  | zero => omega
  | succ fuel ih =>
    unfold nextLoop
    by_cases hd : DELIMITER ∈ p.link.rx
    · obtain ⟨rest, ⟨event, l⟩, hrd, hh, hlen, hn⟩ := h.round hC hmax hs hz hd
      rw [hrd]
      cases event with
      | some e =>
        rw [← hh.unread] at hlen
        exact ⟨hh.good, fun he => (by cases he), hlen.le, fun _ => hlen⟩
      | none =>
        have hg := hh.good
        simp only [dataOf, append_nil] at hg
        have hrx : l.rx = rest := by
          have hu := hh.unread
          rw [core, hn rfl, drop_zero] at hu
          exact hu
        rw [← hrx] at hlen
        obtain ⟨h₁, h₂, h₃, h₄⟩ := ih hg hh.started (hn rfl) (hlen.trans_le (Nat.le_of_lt_succ hf))
        exact ⟨h₁, h₂, h₃.trans hlen.le, fun he => (h₄ he).trans hlen⟩
    · rw [nextRound_none hd]
      have hun : p.link.core.unread = p.link.rx := by rw [core, hz, drop_zero]
      refine ⟨?_, fun _ => ?_, ?_, fun he => absurd rfl he⟩
      · simp only [dataOf, append_nil]
        exact h
      · rw [hun]
        exact hd
      · rw [hun]

omit hmax in
lemma Good.startCompact (h : Good C X Y p q) :
    Good C X Y { p with link := (p.link.ensureStarted C).rxCompact } q :=
  (h.start hC).congr rxCompact_core

lemma Good.next (h : Good C X Y p q) :
    Good C X Y { p with
      link := (p.link.next C).2
      received := p.received ++ dataOf (p.link.next C).1 (p.link.next C).2 } q ∧
      ((p.link.next C).1 = none → DELIMITER ∉ (p.link.next C).2.core.unread) ∧
      (p.link.next C).2.core.unread.length ≤ p.link.core.unread.length ∧
      ((p.link.next C).1 ≠ none → (p.link.next C).2.core.unread.length < p.link.core.unread.length) := by
  have hun : (p.link.ensureStarted C).rxCompact.rx = p.link.core.unread := by
    rw [← ensureStarted_unread, ← rxCompact_core (l := p.link.ensureStarted C), core, rxCompact_consumed, drop_zero]
  rw [← hun]
  exact (h.startCompact hC).loop hC hmax _ (next_start p.link).2 rxCompact_consumed (Nat.lt_succ_self _)

end Rounds

lemma Good.drain (h : Good C X Y p q) (n : ℕ) :
    Good C X Y { p with link := p.link.txConsume n } (q.takes (p.link.tx.take n)) := by
  obtain ⟨items, out⟩ := h.out
  obtain ⟨items', back⟩ := h.back
  exact ⟨h.here.traffic _ _, h.there, ⟨items, out.drain n⟩, ⟨items', back.receiver rfl rfl rfl⟩⟩

lemma takes_nil (q : Party N FRAME) : q.takes [] = q := by rw [Party.takes, List.append_nil]

lemma Good.drainFrame (hC : C.Lawful) (h : Good C X Y p q) {room : ℕ} (hr : encodedMax C FRAME ≤ room) :
    Good C X Y { p with link := (p.link.drainFrame C room).2 }
      (q.takes ((p.link.drainFrame C room).1.getD [])) := by
  have hst := h.start hC
  obtain ⟨items, out⟩ := hst.out
  unfold Link.drainFrame
  dsimp only
  split
  · rw [Option.getD_none, takes_nil]
    exact hst
  · rename_i position hp
    obtain ⟨fs, hf, hstream⟩ := out.frames
    have hn := next_delimiter hC hf hstream hp
    rw [if_neg (by omega), Option.getD_some]
    exact hst.drain (position + 1)

lemma Good.feed (hC : C.Lawful) (h : Good C X Y p q) (n : ℕ) :
    Good C X Y { p with link := (p.link.feed C (p.inbox.take n)).2
                        inbox := p.inbox.drop (p.link.feed C (p.inbox.take n)).1 } q ∧
      (p.inbox.take n ≠ [] → DELIMITER ∉ p.link.core.unread → 0 < (p.link.feed C (p.inbox.take n)).1) ∧
      (p.link.feed C (p.inbox.take n)).1 ≤ p.inbox.length ∧ (p.link.feed C (p.inbox.take n)).2.core.unread.length =
        p.link.core.unread.length + (p.link.feed C (p.inbox.take n)).1 := by
  have hst := h.start hC
  obtain ⟨items, out⟩ := hst.out
  obtain ⟨items', back⟩ := hst.back
  obtain ⟨fs, hf, hstream⟩ := back.frames
  have hsp : (p.link.ensureStarted C).core.unread ++ (p.inbox.take n ++ (p.inbox.drop n ++ q.link.core.tx)) =
      fs.flatMap (wireBytes C) := by
    rw [← hstream, ← append_assoc (p.inbox.take n), take_append_drop, append_assoc]
  obtain ⟨k, hk, hcnt, hc, hp⟩ := feed_core hC hf hst.here.synced hst.here.rxRoom hsp
  rw [ensureStarted_unread] at hp
  rw [length_take] at hk
  rw [take_take, min_eq_left (by omega)] at hc
  refine ⟨?_, by rw [hcnt]; exact hp, by omega, ?_⟩
  swap
  · rw [hcnt, hc, length_append, ensureStarted_unread, length_take]
    omega
  have hsi : Side C X (p.link.feed C (p.inbox.take n)).2.core := by
    rw [hc]
    exact hst.here.traffic _ _
  have htx : (p.link.feed C (p.inbox.take n)).2.tx = (p.link.ensureStarted C).tx := (congrArg Core.tx hc).trans rfl
  have hs : (p.link.feed C (p.inbox.take n)).2.started = (p.link.ensureStarted C).started :=
    (congrArg (fun c : Core N FRAME => c.tables.started) hc).trans rfl
  refine ⟨hsi, h.there, ⟨items, out.sender htx hs⟩, ⟨items', ?_⟩⟩
  · change Channel C Y X _ _ (p.inbox.drop (p.link.feed C (p.inbox.take n)).1)
      (p.link.feed C (p.inbox.take n)).2.core _ _
    rw [hcnt, hc]
    exact back.feed k

lemma Good.send (h : Good C X Y p q) (ty : PortType) (name : Str) (msg : Bytes) :
    Good C X Y { p with link := (p.link.send C ty name msg).2
                        sent := if (p.link.send C ty name msg).1 = .ok true then p.sent ++ [⟨ty, name, msg⟩]
                          else p.sent } q := by
  rcases send_cases C p.link ty name msg with ⟨hr, hl⟩ | ⟨hr, hp, hpub, hsub, hf, hl⟩
  · rw [if_neg hr]
    exact h.congr hl
  · rw [if_pos hr]
    obtain ⟨items', back⟩ := h.back
    have hw : Wanted X Y ⟨ty, name, msg⟩ := send_wanted h.here h.there back.known hp hpub hsub
    have hc : p.link.connected = true := by
      simp only [Tables.peerSubscribesHash, Bool.and_eq_true] at hsub
      exact hsub.1
    have hs : p.link.started = true := by
      cases hs : p.link.started with
      | true => rfl
      | false => exact absurd (hc.symm.trans (h.here.inv.idle hs)) (by decide)
    have hid : p.link.id = X.id := h.here.id
    rw [hid] at hf hl
    apply h.append (i := .data p.link.dataSeq ⟨ty, name, msg⟩) hs hf _ hl
    intro s hs
    rw [mem_singleton.mp hs]
    exact hw

lemma Good.tick (hC : C.Lawful) (h : Good C X Y p q) {nowMs : UInt32}
    (ht : (p.link.tick C nowMs).1 ≠ some .disconnected) :
    Good C X Y { p with link := (p.link.tick C nowMs).2 } q := by
  unfold Link.tick at ht ⊢
  dsimp only at ht ⊢
  have hn : Good C X Y { p with link := { p.link with nowMs } } q := h.congr rfl
  split_ifs at ht ⊢ with hs hc
  · have hrx : Good C X Y { p with link := { p.link with nowMs, lastRxMs := nowMs } } q := h.congr rfl
    exact hrx.start hC
  · exact absurd rfl ht
  · exact hn.control (i := .ping) (Bool.of_not_eq_false hs) rfl
  · exact hn
  · exact hn.hello (Bool.of_not_eq_false hs) false
  · exact hn

lemma Good.act (hC : C.Lawful) (hmax : FRAME - OVERHEAD ≤ 65535) (h : Good C X Y p q) (a : Act)
    (ha : a.Allowed C p) : Good C X Y (p.act C a).1 (q.takes (p.act C a).2) := by
  cases a with
  | send ty name msg =>
    rw [Party.act, takes_nil]
    exact h.send ty name msg
  | drain room => exact (h.start hC).drain _
  | drainFrame room => exact h.drainFrame hC ha
  | feed n =>
    rw [Party.act, takes_nil]
    exact (h.feed hC n).1
  | next =>
    rw [Party.act, takes_nil]
    exact (h.next hC hmax).1
  | tick nowMs =>
    rw [Party.act, takes_nil]
    exact h.tick hC ha

lemma Steps.good (hC : C.Lawful) (hmax : FRAME - OVERHEAD ≤ 65535) {n n' : Party N FRAME × Party N FRAME}
    (hs : Steps C n n') (h : Good C X Y n.1 n.2) : Good C X Y n'.1 n'.2 := by
  induction hs with
  | refl => exact h
  | left _ a ha ih => exact ih.act hC hmax a ha
  | right _ a ha ih => exact (ih.symm.act hC hmax a ha).symm

structure Ready (C : Codec) (X : Link N FRAME) : Prop where
  fresh : Fresh X
  txRoom : encodedMax C FRAME ≤ X.txCap
  rxRoom : encodedMax C FRAME ≤ X.rxCap
  hello : (X.queueHello C false).1 = .ok ()

lemma Fresh.unused {l : Link N FRAME} (h : Fresh l) : Inv l.toTables ∧ l.started = false ∧ l.tx = [] ∧ l.rx = [] ∧
    l.rxSkip = false ∧ l.stats.droppedSchema = 0 ∧ l.stats.droppedUnwanted = 0 := by
  induction h with
  | new h =>
    refine ⟨new_inv h, ?_⟩
    obtain ⟨-, -, -, -, rfl⟩ := new_ok.mp h
    exact ⟨rfl, rfl, rfl, rfl, rfl, rfl⟩
  | configure _ _ ih => exact ih
  | declare _ hf ih =>
    refine ⟨steps_inv (declare_steps _ hf) ih.1, ?_⟩
    unfold Link.declare
    split
    · exact ih.2
    · rename_i ht
      obtain ⟨hs, port, locals, -, -, -, rfl⟩ := declare_ok ht
      exact ih.2

lemma Ready.side (h : Ready C X) : Side C X X.core := by
  obtain ⟨hi, -, -, hrx, hsk, hsch, hun⟩ := h.fresh.unused
  have hann : Announced FRAME false X.id X.locals := by
    have hh := h.hello
    unfold queueHello at hh
    cases hp : X.helloPayload false with
    | error e =>
      rw [hp] at hh
      cases hh
    | ok payload =>
      have ha := (helloPayload_announced.mp hp).1
      rw [hi.own.not_bridge] at ha
      exact ha
  exact ⟨hi, rfl, rfl, hann, hi, h.txRoom, h.rxRoom, hsk, Prod.ext hsch hun⟩

lemma Ready.channel (hX : Ready C X) (hY : Ready C Y) : Channel C X Y X.core [] [] Y.core [] [] := by
  obtain ⟨-, hs, htx, -⟩ := hX.fresh.unused
  obtain ⟨hi, hs', -, hrx, -⟩ := hY.fresh.unused
  have hc : Y.connected = false := hi.idle hs'
  refine ⟨?_, by simp, by simp, ⟨[], rfl, .nil⟩, fun hn => ?_, fun _ => rfl, .inr (.inl hs)⟩
  · simp [core, hrx, htx]
  · rw [show Y.core.tables.connected = false from hc] at hn
    cases hn

lemma Ready.good (hX : Ready C X) (hY : Ready C Y) : Good C X Y (.start X) (.start Y) :=
  ⟨hX.side, hY.side, ⟨[], hX.channel hY⟩, ⟨[], hY.channel hX⟩⟩

lemma Good.finished (h : Good C X Y p q) (htx : p.link.tx = []) (hin : q.inbox = [])
    (hd : DELIMITER ∉ q.link.core.unread) : List.Forall₂ (Delivered X.id) p.sent q.received := by
  obtain ⟨items, out⟩ := h.out
  obtain ⟨done, hse, hdo⟩ := out.log
  cases items with
  | nil =>
    rw [hse, flatMap_nil, append_nil]
    exact hdo
  | cons i items =>
    have hst := out.stream
    rw [hin, show p.link.core.tx = [] from htx, append_nil, append_nil, flatMap_cons] at hst
    rw [hst, wireBytes] at hd
    simp at hd

lemma Steps.trans {n n' n'' : Party N FRAME × Party N FRAME} (h : Steps C n n') (h' : Steps C n' n'') :
    Steps C n n'' := by
  induction h' with
  | refl => exact h
  | left _ a ha ih => exact ih.left a ha
  | right _ a ha ih => exact ih.right a ha

lemma Good.flush (hC : C.Lawful) (hmax : FRAME - OVERHEAD ≤ 65535) (fuel : ℕ) (h : Good C X Y p q)
    (hf : 2 * q.inbox.length + q.link.core.unread.length < fuel) :
    ∃ q', Steps C (p, q) (p, q') ∧ q'.inbox = [] ∧ DELIMITER ∉ q'.link.core.unread := by
  induction fuel generalizing q with
  | zero => omega
  | succ fuel ih =>
    have hr : Steps C (p, q) (p, (q.act C .next).1) := by
      have hst := (Steps.refl (C := C) (p, q)).right .next trivial
      rw [show (q.act C .next).2 = [] from rfl, takes_nil] at hst
      exact hst
    obtain ⟨hg, hn, hle, hlt⟩ := h.symm.next hC hmax
    by_cases he : (q.link.next C).1 = none
    · have hd := hn he
      by_cases hin : q.inbox = []
      · exact ⟨_, hr, hin, hd⟩
      have hfe := hr.right (.feed q.inbox.length) trivial
      rw [show ((q.act C .next).1.act C (.feed q.inbox.length)).2 = [] from rfl, takes_nil] at hfe
      obtain ⟨hg', hp, hc, hlen⟩ := hg.feed hC q.inbox.length
      have hpos' := hp (by rw [take_length]; exact hin) hd
      obtain ⟨q', hss, hq'⟩ := ih hg'.symm (by
        dsimp only at hpos' hc hlen ⊢
        rw [hlen, length_drop]
        omega)
      exact ⟨q', hfe.trans hss, hq'⟩
    · have hlt' := hlt he
      obtain ⟨q', hss, hq'⟩ := ih hg.symm (by
        dsimp only
        omega)
      exact ⟨q', hr.trans hss, hq'⟩

/-- Those received are the first of those sent, and draining, feeding and reading can always deliver the rest. -/
structure Conveyed (C : Codec) (id : Str) (p q : Party N FRAME) : Prop where
  in_order : ∃ done todo, p.sent = done ++ todo ∧ List.Forall₂ (Delivered id) done q.received
  complete : p.link.tx = [] → q.inbox = [] → (q.link.next C).1 = none →
    List.Forall₂ (Delivered id) p.sent q.received
  kept : q.link.stats.droppedSchema = 0 ∧ q.link.stats.droppedUnwanted = 0
  delivers : ∃ p' q', Steps C (p, q) (p', q') ∧ p'.sent = p.sent ∧ List.Forall₂ (Delivered id) p.sent q'.received

lemma Good.conveyed (hC : C.Lawful) (hmax : FRAME - OVERHEAD ≤ 65535) (h : Good C X Y p q) :
    Conveyed C X.id p q where
  in_order := by
    obtain ⟨items, out⟩ := h.out
    obtain ⟨done, hse, hdo⟩ := out.log
    exact ⟨done, _, hse, hdo⟩
  complete := fun htx hin hn => by
    obtain ⟨hg, hd, -, -⟩ := h.symm.next hC hmax
    have ha := hg.symm.finished htx hin (hd hn)
    rw [hn] at ha
    simpa only [dataOf, append_nil] using ha
  kept := Prod.ext_iff.mp h.there.kept
  delivers := by
    set room := (p.link.ensureStarted C).tx.length
    have hdr := (Steps.refl (C := C) (p, q)).left (.drain room) trivial
    have hg := h.act hC hmax (.drain room) trivial
    obtain ⟨q', hss, hin, hd⟩ := hg.flush hC hmax _ (Nat.lt_succ_self _)
    have htx : (p.act C (.drain room)).1.link.tx = [] := by
      change (p.link.ensureStarted C).tx.drop (min room room) = []
      rw [min_self, drop_length]
    have hg' := hss.good hC hmax hg
    exact ⟨_, q', hdr.trans hss, rfl, hg'.finished htx hin hd⟩

theorem end_to_end_delivery (hC : C.Lawful) (hmax : FRAME - OVERHEAD ≤ 65535) (hX : Ready C X) (hY : Ready C Y)
    (h : Steps C (.start X, .start Y) (p, q)) : Conveyed C X.id p q ∧ Conveyed C Y.id q p := by
  have hg := h.good hC hmax (hX.good hY)
  exact ⟨hg.conveyed hC hmax, hg.symm.conveyed hC hmax⟩

lemma board_ready : Ready standard board :=
  ⟨.declare (.new (new_ok.mpr ⟨by decide, by decide, by decide, by decide, rfl⟩))
    (Or.inl rfl), by decide, by decide,
    by decide +kernel⟩

lemma host_ready : Ready standard host :=
  ⟨.declare (.new (new_ok.mpr ⟨by decide, by decide, by decide, by decide, rfl⟩)) rfl, by decide, by decide,
    by decide +kernel⟩

theorem end_to_end_delivery_sample : ∃ p q : Party 2 64, Steps standard (.start board, .start host) (p, q) ∧
    p.sent = [⟨poseType, posePort, [1, 2, 3]⟩] ∧ q.received.map Prod.fst = [poseFrame] ∧
    Conveyed standard boardId p q ∧ Conveyed standard hostId q p := by
  have hss := (((((((((((Steps.refl (C := standard) (.start board, .start host)).left (.drain 200) trivial).right
    (.feed 200) trivial).right .next trivial).right (.drain 200) trivial).left (.feed 200) trivial).left .next
    trivial).left (.send poseType posePort [1, 2, 3]) trivial).left (.drain 200) trivial).right (.feed 30)
    trivial).right (.feed 200) trivial).right .next trivial
  refine ⟨_, _, hss, ?_, ?_, end_to_end_delivery standard_lawful (by decide) board_ready host_ready hss⟩
  · decide +kernel
  · decide +kernel

end Reiny.Link
