import Reiny.Link.Handles

namespace Reiny.Link

open Lib Words Utf8 Results Wire HelloFormat HelloCodec Ports State List

variable {N FRAME : ℕ}

inductive Observation
  | ticked (nowMs : UInt32)
  | received
deriving DecidableEq

def Op.observes (C : Codec) (l : Link N FRAME) : Op → List Observation
  | .tick nowMs => [.ticked nowMs]
  | .next => (nextCalls C l).map fun _ => .received
  | _ => []

def observations (C : Codec) : Link N FRAME → List Op → List Observation
  | _, [] => []
  | l, op :: ops => op.observes C l ++ observations C (op.apply C l) ops

def Observed (timeoutMs nowMs : UInt32) (history : List Observation) : Prop :=
  ∃ before t after, history = before ++ .ticked t :: after ∧ nowMs - t > timeoutMs ∧
    .received ∉ after.dropWhile (· = .received)

def Stamped (history : List Observation) : Prop :=
  ∃ before after t, history = before ++ .received :: after ∧ .received ∉ after ∧ .ticked t ∈ before

def TimesOut (C : Codec) (l : Link N FRAME) (history : List Observation) (nowMs : UInt32) : Prop :=
  (l.tick C nowMs).1 = some .disconnected → Observed l.config.timeoutMs nowMs history

/-- A tick came before the last valid frame, or the stamp of zero does no harm: the link is not connected, `nowMs` is
within the timeout of zero, or some tick is longer ago than the timeout anyway. -/
def Timely (l : Link N FRAME) (history : List Observation) (nowMs : UInt32) : Prop :=
  Stamped history ∨ l.connected = false ∨ nowMs ≤ l.config.timeoutMs ∨
    ∃ t, .ticked t ∈ history ∧ nowMs - t > l.config.timeoutMs

def Observation.time? : Observation → Option UInt32
  | .ticked nowMs => some nowMs
  | .received => none

def lastTick (history : List Observation) : UInt32 := (history.filterMap Observation.time?).getLastD 0

variable {C : Codec} {l : Link N FRAME}

lemma apply_started (op : Op) (h : l.started = true) : (op.apply C l).started = true := by
  have hss := apply_steps l C op
  generalize (op.apply C l).toTables = t at hss
  induction hss with
  | refl => exact h
  | tail _ hs ih =>
    cases hs with
    | peer hs => exact hs.started ih
    | declare hf hd =>
      rw [(declare_ok hd).1] at ih
      cases ih

lemma next_started : (l.next C).2.started = true := by
  obtain ⟨-, hs⟩ := next_start (C := C) l
  exact steps_started (nextLoop_steps _ _ hs).1 hs

lemma tick_started (nowMs : UInt32) : (l.tick C nowMs).2.started = true := by
  cases hs : l.started with
  | true => exact apply_started (.tick nowMs) hs
  | false =>
    unfold tick
    dsimp only
    rw [if_pos hs, ensureStarted_tables]

lemma ensureStarted_connected : (l.ensureStarted C).connected = l.connected := by
  rw [ensureStarted_tables]

lemma tick_connected {nowMs : UInt32} (h : (l.tick C nowMs).2.connected = true) : l.connected = true := by
  unfold tick at h
  dsimp only at h
  split_ifs at h with hs hc
  · rw [ensureStarted_connected] at h
    exact h
  · exact hc
  · exact hc
  · exact hc
  · rw [queueHello_tables] at h
    exact h
  · exact h

lemma Performed.connected {l' : Link N FRAME} (h : Performed C l l') : l'.connected = l.connected := by
  cases h with
  | asked payload _ _ =>
    rcases emitRequest_cases (C := C) l _ payload with h | ⟨m, free, seq, h, -, -, heq⟩
    · rw [h.tables]
    · rw [heq]
      change m.connected = l.connected
      rw [h.tables]
  | cancelled hash seq =>
    change (l.toTables.cancelRequest hash seq).connected = l.connected
    unfold Tables.cancelRequest
    split <;> rfl
  | plain h =>
    cases h with
    | sent h => rw [h.tables]
    | drained n stats => exact ensureStarted_connected
    | configured config => rfl
    | declared _ =>
      unfold declare
      split
      · rfl
      · rename_i t ht
        obtain ⟨-, port, locals, -, -, -, rfl⟩ := declare_ok ht
        rfl

lemma apply_connected {op : Op} (hop : op ≠ .next) (h : (op.apply C l).connected = true) : l.connected = true := by
  cases op with
  | feed bytes =>
    change (l.feed C bytes).2.connected = true at h
    unfold feed at h
    rwa [feedLoop_tables, rxCompact_tables, ensureStarted_connected] at h
  | tick nowMs => exact tick_connected h
  | next => exact absurd rfl hop
  | _ => rwa [(apply_performed l rfl rfl).connected] at h

lemma loopCalls_connected (fuel : ℕ) (h : loopCalls C fuel l = []) :
    (nextLoop C fuel l).2.connected = l.connected := by
  induction fuel generalizing l with
  | zero => rfl
  | succ fuel ih =>
    unfold loopCalls at h
    unfold nextLoop
    cases hrd : l.nextRound C with
    | none => rfl
    | some result =>
      obtain ⟨event, l'⟩ := result
      rw [hrd] at h
      have hs : l.roundCall C = none → event = none ∧ l'.connected = l.connected := by
        intro hc
        rcases nextRound_call hrd with ⟨-, rfl, n, stats, rfl⟩ | ⟨frame, rx, n, after, hso, -⟩
        · exact ⟨rfl, rfl⟩
        · rw [hc] at hso
          cases hso
      cases event with
      | some event =>
        have hc : l.roundCall C = none := by simpa using h
        exact absurd (hs hc).1 (by simp)
      | none =>
        change (l.roundCall C).toList ++ loopCalls C fuel l' = [] at h
        obtain ⟨hc, hr⟩ := append_eq_nil_iff.mp h
        have hco := (hs (by simpa using hc)).2
        exact (ih hr).trans hco

lemma next_connected (h : nextCalls C l = []) : (l.next C).2.connected = l.connected := by
  have hl := loopCalls_connected _ h
  refine hl.trans ?_
  rw [rxCompact_tables, ensureStarted_connected]

variable {l' : Link N FRAME} {history : List Observation} {nowMs : UInt32}

lemma lastTick_snoc (history : List Observation) (t : UInt32) : lastTick (history ++ [.ticked t]) = t := by
  simp [lastTick, Observation.time?]

lemma lastTick_received (history : List Observation) (k : ℕ) :
    lastTick (history ++ List.replicate k .received) = lastTick history := by
  have hn : (List.replicate k Observation.received).filterMap Observation.time? = [] := by
    rw [filterMap_eq_nil_iff]
    intro o ho
    rw [eq_of_mem_replicate ho]
    rfl
  rw [lastTick, filterMap_append, hn, append_nil, lastTick]

structure Clocked (history : List Observation) (l : Link N FRAME) : Prop where
  now : l.nowMs = lastTick history
  stamp : .received ∈ history → ∃ before after, history = before ++ .received :: after ∧ .received ∉ after ∧
    l.lastRxMs = lastTick before
  connected : l.connected = true → .received ∈ history
  started : .received ∈ history → l.started = true

lemma Clocked.quiet (h : Clocked history l) (hn : l'.nowMs = l.nowMs) (hl : l'.lastRxMs = l.lastRxMs)
    (hco : l'.connected = true → l.connected = true) (hst : l.started = true → l'.started = true) :
    Clocked history l' where
  now := hn.trans h.now
  stamp := by
    intro hr
    obtain ⟨before, after, hsp, ha, hs⟩ := h.stamp hr
    exact ⟨before, after, hsp, ha, hl.trans hs⟩
  connected := fun hc => h.connected (hco hc)
  started := fun hr => hst (h.started hr)

lemma Clocked.tick (h : Clocked history l) (nowMs : UInt32) :
    Clocked (history ++ [.ticked nowMs]) (l.tick C nowMs).2 := by
  have hre := @tick_receiving N FRAME C l nowMs
  have hm : Observation.received ∈ history ++ [Observation.ticked nowMs] → .received ∈ history := by simp
  refine ⟨?_, ?_, ?_, fun _ => tick_started nowMs⟩
  · rw [lastTick_snoc]
    exact congrArg Receiving.nowMs hre
  · intro hr
    obtain ⟨before, after, rfl, ha, hs⟩ := h.stamp (hm hr)
    refine ⟨before, after ++ [.ticked nowMs], by simp, by simpa using ha, ?_⟩
    have hl : (l.tick C nowMs).2.lastRxMs = if l.started then l.lastRxMs else nowMs :=
      congrArg Receiving.lastRxMs hre
    rw [hl, h.started (hm hr), if_pos rfl, hs]
  · intro hc
    exact mem_append_left _ (h.connected (tick_connected hc))

lemma Clocked.next (h : Clocked history l) :
    Clocked (history ++ (nextCalls C l).map fun _ => .received) (l.next C).2 := by
  have ha := @next_advanced N FRAME C l
  cases hcs : nextCalls C l with
  | nil =>
    rw [map_nil, append_nil]
    have hs := ha.stamp
    rw [hcs, if_pos rfl] at hs
    exact h.quiet ha.now hs (fun hc => next_connected hcs ▸ hc) fun _ => next_started
  | cons call calls =>
    have hs := ha.stamp
    rw [hcs, if_neg (cons_ne_nil _ _)] at hs
    have hsp : (call :: calls).map (fun _ => Observation.received) =
        List.replicate calls.length .received ++ [.received] := by
      rw [map_const', length_cons, replicate_succ']
    refine ⟨?_, fun _ => ?_, fun _ => by simp, fun _ => next_started⟩
    · rw [map_const', lastTick_received]
      exact ha.now.trans h.now
    · refine ⟨history ++ List.replicate calls.length .received, [], ?_, not_mem_nil, ?_⟩
      · rw [hsp, append_assoc]
      · rw [lastTick_received, hs]
        exact h.now

lemma Clocked.step (h : Clocked history l) (op : Op) : Clocked (history ++ op.observes C l) (op.apply C l) := by
  by_cases hne : op = .next
  · subst hne
    exact h.next
  by_cases ht : op.ticks = true
  · cases op with
    | tick nowMs => exact h.tick nowMs
    | _ => cases ht
  have hn : op.observes C l = [] := by
    cases op <;> first | rfl | exact absurd rfl hne | exact absurd rfl ht
  rw [hn, append_nil]
  have hre : (op.apply C l).nowMs = l.nowMs ∧ (op.apply C l).lastRxMs = l.lastRxMs := by
    cases hr : op.receives with
    | true =>
      cases op with
      | feed bytes =>
        have hf := @feed_receiving N FRAME C l bytes
        exact ⟨congrArg Receiving.nowMs hf, congrArg Receiving.lastRxMs hf⟩
      | next => exact absurd rfl hne
      | _ => cases hr
    | false =>
      have hq := @apply_receiving N FRAME C l op hr (by simpa using ht)
      exact ⟨congrArg Receiving.nowMs hq, congrArg Receiving.lastRxMs hq⟩
  exact h.quiet hre.1 hre.2 (apply_connected hne) (apply_started op)

lemma Opened.clocked (h : Opened l) : Clocked [] l := by
  cases h with
  | new h | bridge h =>
    obtain ⟨-, -, -, -, rfl⟩ := new_ok.mp h
    exact ⟨rfl, nofun, nofun, nofun⟩

lemma Clocked.run (h : Clocked history l) (ops : List Op) :
    Clocked (history ++ observations C l ops) (applyAll C l ops) := by
  induction ops generalizing history l with
  | nil =>
    rw [observations, append_nil]
    exact h
  | cons op ops ih =>
    rw [observations, ← append_assoc]
    exact ih (h.step op)

lemma tick_disconnected : (l.tick C nowMs).1 = some .disconnected ↔
    l.started = true ∧ l.connected = true ∧ nowMs - l.lastRxMs > l.config.timeoutMs := by
  unfold tick
  dsimp only
  cases l.started with
  | false => simp
  | true =>
    cases l.connected with
    | false =>
      simp only [Bool.true_eq_false, Bool.false_eq_true, if_false, false_and, and_false, iff_false]
      split_ifs <;> simp
    | true =>
      simp only [Bool.true_eq_false, if_false, if_true, true_and]
      split_ifs with h
      · exact iff_of_true rfl h
      · exact iff_of_false (by simp) h
      · exact iff_of_false (by simp) h

lemma lastTick_split {t : UInt32} (h : .ticked t ∈ history) : ∃ before after,
    history = before ++ .ticked (lastTick history) :: after ∧ ∀ o ∈ after, o = .received := by
  induction history using List.reverseRecOn with
  | nil => exact absurd h not_mem_nil
  | append_singleton history o ih =>
    cases o with
    | ticked s => exact ⟨history, [], by rw [lastTick_snoc], nofun⟩
    | received =>
      have hm : .ticked t ∈ history := by simpa using h
      obtain ⟨before, after, hsp, ha⟩ := ih hm
      have hl : lastTick (history ++ [.received]) = lastTick history := lastTick_received history 1
      refine ⟨before, after ++ [.received], ?_, ?_⟩
      · rw [hl]
        nth_rewrite 1 [hsp]
        simp
      · intro o ho
        rcases mem_append.mp ho with ho | ho
        · exact ha o ho
        · exact mem_singleton.mp ho

lemma lastTick_zero (h : ∀ t, .ticked t ∉ history) : lastTick history = 0 := by
  have hn : history.filterMap Observation.time? = [] := by
    rw [filterMap_eq_nil_iff]
    intro o ho
    cases o with
    | ticked t => exact absurd ho (h t)
    | received => rfl
  rw [lastTick, hn]
  rfl

lemma dropWhile_received {middle after : List Observation} (hm : ∀ o ∈ middle, o = .received)
    (ha : .received ∉ after) : .received ∉ (middle ++ after).dropWhile (· = .received) := by
  rw [dropWhile_append_of_pos (by simpa using hm)]
  exact fun h => ha ((dropWhile_sublist _).subset h)

lemma lastReceived_unique {before after before' after' : List Observation} (ha : .received ∉ after)
    (ha' : .received ∉ after') (h : before ++ .received :: after = before' ++ .received :: after') :
    before = before' ∧ after = after' := by
  have hin : ∀ {x y z : List Observation}, .received :: x = y ++ .received :: z → .received ∉ x → y = [] := by
    intro x y z heq hx
    cases y with
    | nil => rfl
    | cons o y =>
      rw [(List.cons.inj heq).2] at hx
      exact absurd (by simp) hx
  rcases append_eq_append_iff.mp h with ⟨gap, rfl, hr⟩ | ⟨gap, rfl, hr⟩
  · obtain rfl := hin hr ha
    exact ⟨(append_nil _).symm, (List.cons.inj hr).2⟩
  · obtain rfl := hin hr ha'
    exact ⟨append_nil _, (List.cons.inj hr).2.symm⟩

lemma Clocked.timesOut (h : Clocked history l) (hs : Stamped history)
    (hl : nowMs - l.lastRxMs > l.config.timeoutMs) :
    Observed l.config.timeoutMs nowMs history := by
  obtain ⟨before, after, t, rfl, ha, ht⟩ := hs
  obtain ⟨before', after', hsp, ha', hst⟩ := h.stamp (by simp)
  obtain ⟨rfl, rfl⟩ : before = before' ∧ after = after' := lastReceived_unique ha ha' hsp
  obtain ⟨first, rest, hti, hr⟩ := lastTick_split ht
  rw [hst] at hl
  refine ⟨first, lastTick before, rest ++ .received :: after, ?_, hl, ?_⟩
  · nth_rewrite 1 [hti]
    simp
  · have hm : ∀ o ∈ rest ++ [.received], o = Observation.received := by
      intro o ho
      rcases mem_append.mp ho with ho | ho
      · exact hr o ho
      · exact mem_singleton.mp ho
    have hd := dropWhile_received hm ha
    rwa [append_assoc, singleton_append] at hd

lemma Clocked.unstamped (h : Clocked history l) (hr : .received ∈ history) (hs : ¬ Stamped history) :
    l.lastRxMs = 0 ∧ ∃ before after, history = before ++ .received :: after ∧ .received ∉ after ∧
      ∀ t, .ticked t ∉ before := by
  obtain ⟨before, after, rfl, ha, hst⟩ := h.stamp hr
  have hn : ∀ t, .ticked t ∉ before := fun t ht => hs ⟨before, after, t, rfl, ha, ht⟩
  exact ⟨hst.trans (lastTick_zero hn), before, after, rfl, ha, hn⟩

lemma Clocked.iff (h : Clocked history l) (nowMs : UInt32) :
    TimesOut C l history nowMs ↔ Timely l history nowMs := by
  unfold TimesOut
  rw [tick_disconnected]
  constructor
  · intro ho
    by_cases hs : Stamped history
    · exact .inl hs
    by_cases hc : l.connected = true
    · have hr := h.connected hc
      obtain ⟨hz, -⟩ := h.unstamped hr hs
      by_cases he : nowMs ≤ l.config.timeoutMs
      · exact .inr (.inr (.inl he))
      · have hl : nowMs - l.lastRxMs > l.config.timeoutMs := by
          rw [hz, UInt32.sub_zero]
          exact UInt32.not_le.mp he
        obtain ⟨before, t, after, rfl, ht, -⟩ := ho ⟨h.started hr, hc, hl⟩
        exact .inr (.inr (.inr ⟨t, by simp, ht⟩))
    · exact .inr (.inl (by simpa using hc))
  · rintro hti ⟨-, hc, hl⟩
    by_cases hs : Stamped history
    · exact h.timesOut hs hl
    obtain ⟨hz, before, after, rfl, ha, hn⟩ := h.unstamped (h.connected hc) hs
    rw [hz, UInt32.sub_zero] at hl
    rcases hti with hs' | hc' | he | ⟨t, ht, hold⟩
    · exact absurd hs' hs
    · rw [hc] at hc'
      cases hc'
    · exact absurd he (UInt32.not_le.mpr hl)
    · -- every tick came after the last valid frame
      have hin : .ticked t ∈ after := by
        rcases mem_append.mp ht with ht | ht
        · exact absurd ht (hn t)
        · simpa using ht
      obtain ⟨first, rest, rfl⟩ := append_of_mem hin
      refine ⟨before ++ .received :: first, t, rest, by simp, hold, fun hm => ha ?_⟩
      have hre := (dropWhile_sublist _).subset hm
      simp [hre]

theorem timeouts_observed {C : Codec} {start : Link N FRAME} (hstart : Opened start) (ops : List Op)
    (nowMs : UInt32) :
    TimesOut C (applyAll C start ops) (observations C start ops) nowMs ↔
      Timely (applyAll C start ops) (observations C start ops) nowMs :=
  (hstart.clocked.run ops).iff nowMs

def newHost : Link 2 64 := initial hostId hostPorts 200 200

def earlyGreeting : List Op := [.subscribes poseType posePort, .feed greeting, .next]

theorem timeouts_first_tick : observations standard newHost earlyGreeting = [.received] ∧
    ((applyAll standard newHost earlyGreeting).tick standard 5000).1 = some .disconnected ∧
    ¬ TimesOut standard (applyAll standard newHost earlyGreeting)
      (observations standard newHost earlyGreeting) 5000 := by
  have ho : observations standard newHost earlyGreeting = [.received] := by decide +kernel
  have hout : ((applyAll standard newHost earlyGreeting).tick standard 5000).1 = some .disconnected := by
    decide +kernel
  refine ⟨ho, hout, fun h => ?_⟩
  obtain ⟨before, t, after, hsp, -⟩ := h hout
  rw [ho] at hsp
  have hm : Observation.ticked t ∈ [Observation.received] := hsp ▸ by simp
  simp at hm

theorem timeouts_observed_greeting : TimesOut standard
    (applyAll standard newHost (.tick 4000 :: earlyGreeting.tail))
    (observations standard newHost (.tick 4000 :: earlyGreeting.tail)) 8000 := by
  have hn : Opened newHost :=
    .new (new_ok.mpr ⟨by decide, by decide, by decide, by decide, rfl⟩)
  have ho : observations standard newHost (.tick 4000 :: earlyGreeting.tail) = [.ticked 4000, .received] := by
    decide +kernel
  refine (timeouts_observed hn _ 8000).mpr (Or.inl ?_)
  rw [ho]
  exact ⟨[.ticked 4000], [], 4000, rfl, not_mem_nil, mem_singleton_self _⟩

end Reiny.Link
