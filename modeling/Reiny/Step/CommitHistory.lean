import Reiny.Lib.Lists
import Reiny.Step.Cancellation

namespace Reiny.Step

open Std Lib Results Checked Lists Machine Maps List Session

def Run.receipt (run : Run) : Option StepReceipt :=
  match run.result with
  | some (.ok receipt) => some receipt
  | _ => none

def receipts (runs : List Run) : List StepReceipt := runs.filterMap Run.receipt

def endOf (initial : Duration) (ticks : List StepReceipt) : Duration :=
  (ticks.getLast?.map fun receipt => receipt.tick.end_).getD initial

structure Logged (initial : Duration) (runs : List Run) (scheduler : StepScheduler) : Prop where
  count : (receipts runs).length = scheduler.nextIndex
  time : scheduler.time = endOf initial (receipts runs)
  index : ∀ (k : ℕ) receipt, (receipts runs)[k]? = some receipt → receipt.tick.id = ⟨scheduler.epoch, k⟩
  proper : ∀ receipt ∈ receipts runs, receipt.tick.Proper
  start : ∀ (k : ℕ) receipt, (receipts runs)[k]? = some receipt →
    receipt.tick.start = endOf initial ((receipts runs).take k)
  ticks : ∀ run ∈ runs, ∀ receipt, run.receipt = some receipt → receipt.tick.id = run.tick

variable {runs : List Run} {run run' : Run} {j : ℕ} {receipt : StepReceipt} {initial : Duration}

lemma split_at (h : runs[j]? = some run) : runs = runs.take j ++ run :: runs.drop (j + 1) ∧
    ∀ run', runs.set j run' = runs.take j ++ run' :: runs.drop (j + 1) := by
  obtain ⟨hj, rfl⟩ := List.getElem?_eq_some_iff.mp h
  refine ⟨?_, fun run' => set_eq_take_append_cons_drop.trans (if_pos hj)⟩
  rw [← drop_eq_getElem_cons hj, take_append_drop]

lemma receipts_set (h : runs[j]? = some run) (hs : run'.receipt = run.receipt) :
    receipts (runs.set j run') = receipts runs := by
  obtain ⟨hr, hset⟩ := split_at h
  rw [hset]
  conv_rhs => rw [hr]
  simp only [receipts, filterMap_append, filterMap_cons, hs]

lemma receipts_commit (h : runs[j]? = some run) (hl : j + 1 = runs.length) (hn : run.receipt = none)
    (hnew : run'.receipt = some receipt) : receipts (runs.set j run') = receipts runs ++ [receipt] := by
  obtain ⟨hr, hs⟩ := split_at h
  have hd : runs.drop (j + 1) = [] := drop_eq_nil_of_le hl.ge
  rw [hs]
  conv_rhs => rw [hr]
  simp [receipts, hd, hn, hnew]

lemma receipts_accept (hn : run.receipt = none) : receipts (runs ++ [run]) = receipts runs := by
  simp [receipts, hn]

lemma endOf_concat (ticks : List StepReceipt) : endOf initial (ticks ++ [receipt]) = receipt.tick.end_ := by
  rw [endOf, getLast?_concat]
  rfl

structure Fits (scheduler : StepScheduler) (request : ValidatedRequest) : Prop where
  id : request.tick.id = ⟨scheduler.epoch, scheduler.nextIndex⟩
  start : request.tick.start = scheduler.time
  proper : request.tick.Proper
  next : request.nextIndex = scheduler.nextIndex + 1

variable {scheduler : StepScheduler} {adv : Advance}

lemma Logged.of_receipts {runs' : List Run} (h : Logged initial runs scheduler) (fault : Option StepFailure)
    (hr : receipts runs' = receipts runs)
    (ht : ∀ run ∈ runs', ∀ receipt, run.receipt = some receipt → receipt.tick.id = run.tick) :
    Logged initial runs' { scheduler with fault := fault } := by
  refine ⟨?_, ?_, ?_, ?_, ?_, ht⟩
  · rw [hr]
    exact h.count
  · rw [hr]
    exact h.time
  · rw [hr]
    exact h.index
  · rw [hr]
    exact h.proper
  · rw [hr]
    exact h.start

lemma ticks_set (h : ∀ run ∈ runs, ∀ receipt, run.receipt = some receipt → receipt.tick.id = run.tick)
    (hn : ∀ receipt, run'.receipt = some receipt → receipt.tick.id = run'.tick) :
    ∀ run ∈ runs.set j run', ∀ receipt, run.receipt = some receipt → receipt.tick.id = run.tick := by
  intro other ho
  rcases mem_or_eq_of_mem_set ho with ho | rfl
  · exact h other ho
  · exact hn

lemma Logged.commit (h : Logged initial runs scheduler) (hf : Fits scheduler adv.request)
    (hrun : runs[j]? = some run) (hl : j + 1 = runs.length) (hn : run.result = none)
    (ht : run.tick = ⟨scheduler.epoch, scheduler.nextIndex⟩) (previous : Map StepOutput StepValue) :
    Logged initial (runs.set j (run.set (.ok (StepScheduler.receipt adv))))
      (scheduler.applyCommit adv previous) := by
  have hres : (run.set (.ok (StepScheduler.receipt adv))).receipt = some (StepScheduler.receipt adv) := by
    rw [Run.receipt, set_result, hn]
    rfl
  have hb : run.receipt = none := by rw [Run.receipt, hn]
  have hre := receipts_commit hrun hl hb hres
  have hidx : (StepScheduler.receipt adv).tick.id = ⟨scheduler.epoch, scheduler.nextIndex⟩ := hf.id
  refine ⟨?_, ?_, ?_, ?_, ?_, ticks_set h.ticks ?_⟩
  · rw [hre, length_append, h.count]
    exact hf.next.symm
  · rw [hre, endOf_concat]
    rfl
  · intro k receipt hk
    rw [hre] at hk
    rcases getElem?_concat hk with ho | ⟨rfl, rfl⟩
    · exact h.index k receipt ho
    · rw [hidx, h.count]
      rfl
  · intro receipt hm
    rw [hre] at hm
    rcases mem_append.mp hm with ho | hnew
    · exact h.proper receipt ho
    · rw [mem_singleton.mp hnew]
      exact hf.proper
  · intro k receipt hk
    rw [hre] at hk ⊢
    rcases getElem?_concat hk with ho | ⟨rfl, rfl⟩
    · rw [take_append_of_le_length (List.getElem?_eq_some_iff.mp ho).1.le]
      exact h.start k receipt ho
    · rw [take_append_length, ← h.time]
      exact hf.start
  · intro receipt hr
    rw [hres] at hr
    cases hr
    rw [hidx, ← ht]
    rfl

def tokensOf (accepted : List Handover) (queue : List (ℕ × StepRequest)) (held : Option ℕ) : List ℕ :=
  accepted.map (·.run) ++ queue.map (·.1) ++ held.toList

def Session.tokens (s : Session) : List ℕ := tokensOf s.accepted s.queue s.driver.run

structure Inv (initial : Duration) (s : Session) : Prop where
  epoch : s.gate.clock.epoch = s.scheduler.epoch
  nextIndex : s.gate.clock.nextIndex = s.scheduler.nextIndex
  time : s.gate.clock.time = s.scheduler.time
  count : s.gate.sequence = s.runs.length
  ids : ∀ (j : ℕ) run, s.runs[j]? = some run → run.id = ⟨s.scheduler.epoch, j⟩
  flight : s.gate.lost = false → s.tokens = (s.gate.active.map (·.sequence)).toList
  held : ∀ j ∈ s.tokens, j + 1 = s.runs.length ∧ ∃ run, s.runs[j]? = some run ∧ run.result = none ∧
    run.tick = ⟨s.scheduler.epoch, s.scheduler.nextIndex⟩
  log : Logged initial s.runs s.scheduler
  running : ∀ j adv rest awaiting, s.driver = .running j adv rest awaiting →
    s.scheduler.fault = none ∧ Fits s.scheduler adv.request
  reads : ∀ (c : ℕ) start, s.calls[c]? = some (.read start) → start.version ≤ s.gate.version ∧
    (start.version = s.gate.version → start.clock = s.gate.clock)

structure Signalled (gate gate' : Gate) : Prop where
  clock : gate'.clock = gate.clock
  version : gate'.version = gate.version
  sequence : gate'.sequence = gate.sequence
  active : gate'.active = gate.active
  lost : gate'.lost = false → gate.lost = false

variable {s s' : Session} {reply : Reply} {gate : Gate} {call : ℕ} {accepted : List Handover} {active : Option ℕ}
  {start : Start} {queue : List (ℕ × StepRequest)} {pending : Handover} {request : StepRequest}

lemma Signalled.refl (gate : Gate) : Signalled gate gate := ⟨rfl, rfl, rfl, rfl, fun h => h⟩

lemma Signalled.disappear (gate : Gate) : Signalled gate gate.disappear := ⟨rfl, rfl, rfl, rfl, fun h => by cases h⟩

lemma Signalled.markStop (gate : Gate) : Signalled gate gate.markStop := by
  unfold Gate.markStop
  split_ifs
  · exact .refl gate
  · exact ⟨rfl, rfl, rfl, rfl, fun h => h⟩

lemma Signalled.activate (gate : Gate) : Signalled gate gate.activate := by
  unfold Gate.activate
  split_ifs
  · exact .refl gate
  · exact ⟨rfl, rfl, rfl, rfl, fun h => h⟩

lemma Inv.of_same (h : Inv initial s) (hg : Signalled s.gate s'.gate) (hr : s'.runs = s.runs)
    (hs : ∃ fault, s'.scheduler = { s.scheduler with fault := fault })
    (hcs : ∀ (c : ℕ) start, s'.calls[c]? = some (.read start) → s.calls[c]? = some (.read start))
    (ht : s'.gate.lost = false → s'.tokens = s.tokens) (hh : s'.tokens ⊆ s.tokens)
    (hrun : ∀ j adv rest awaiting, s'.driver = .running j adv rest awaiting →
      s'.scheduler.fault = none ∧ Fits s'.scheduler adv.request) : Inv initial s' := by
  obtain ⟨fault, hs⟩ := hs
  refine ⟨?_, ?_, ?_, ?_, ?_, ?_, ?_, ?_, hrun, ?_⟩
  · rw [hg.clock, hs]
    exact h.epoch
  · rw [hg.clock, hs]
    exact h.nextIndex
  · rw [hg.clock, hs]
    exact h.time
  · rw [hg.sequence, hr]
    exact h.count
  · rw [hr, hs]
    exact h.ids
  · intro hl
    rw [ht hl, hg.active]
    exact h.flight (hg.lost hl)
  · intro j hj
    rw [hr, hs]
    exact h.held j (hh hj)
  · rw [hr, hs]
    exact h.log.of_receipts fault rfl h.log.ticks
  · intro c start hc
    rw [hg.version, hg.clock]
    exact h.reads c start (hcs c start hc)

lemma Inv.read (h : Inv initial s) (hcl : start.clock = s.gate.clock)
    (hv : start.version = s.gate.version) :
    Inv initial { s with calls := s.calls.insert call (.read start) } := by
  refine ⟨h.epoch, h.nextIndex, h.time, h.count, h.ids, h.flight, h.held, h.log, h.running, ?_⟩
  intro c other hc
  rcases of_insert hc with ⟨-, ⟨⟩⟩ | ⟨-, hc⟩
  · exact ⟨hv.le, fun _ => hcl⟩
  · exact h.reads c other hc

lemma Inv.idle (h : Inv initial s) (hl : s.gate.lost = false) (ha : s.gate.active = none) :
    s.accepted = [] ∧ s.queue = [] ∧ s.driver.run = none := by
  have ht := h.flight hl
  rw [ha] at ht
  simp only [tokens, tokensOf, Option.map_none, Option.toList_none, append_eq_nil_iff, map_eq_nil_iff,
    Option.toList_eq_nil_iff] at ht
  exact ⟨ht.1.1, ht.1.2, ht.2⟩

lemma Inv.accept (h : Inv initial s) (hca : s.calls[call]? = some (.read start))
    (ha : s.gate.accept s.horizon s.now start = .ok (some (gate, run))) :
    Inv initial
      { s with
        gate := gate
        runs := s.runs ++ [run]
        calls := s.calls.erase call
        accepted := s.accepted ++ [⟨call, run.id.sequence, start.request⟩] } := by
  obtain ⟨hl, -, hact, hs, hv, deadline, hrun, hg⟩ := accept_ok ha
  have hcl : start.clock = s.gate.clock := (h.reads call start hca).2 hv.symm
  have hcnt : start.sequence = s.runs.length := hs.symm.trans h.count
  obtain ⟨hacc, hq, hd⟩ := h.idle hl hact
  have hid : run.id = ⟨s.scheduler.epoch, s.runs.length⟩ := by
    rw [hrun, ← hcnt, ← h.epoch, hcl]
  have ht : run.tick = ⟨s.scheduler.epoch, s.scheduler.nextIndex⟩ := by
    rw [hrun, ← h.epoch, ← h.nextIndex, hcl]
  have hres : run.result = none := by rw [hrun]
  have hre : run.receipt = none := by rw [Run.receipt, hres]
  have hto : tokensOf (s.accepted ++ [⟨call, run.id.sequence, start.request⟩]) s.queue s.driver.run =
      [s.runs.length] := by
    rw [hacc, hq, hd, hid]
    rfl
  rw [hcl] at hg
  refine ⟨?_, ?_, ?_, ?_, ?_, ?_, ?_, ?_, h.running, ?_⟩
  · rw [hg]
    exact h.epoch
  · rw [hg]
    exact h.nextIndex
  · rw [hg]
    exact h.time
  · rw [hg, hcnt, length_append]
    rfl
  · intro j other ho
    rcases getElem?_concat ho with hold | ⟨rfl, rfl⟩
    · exact h.ids j other hold
    · exact hid
  · intro _
    refine hto.trans ?_
    rw [hg, hid]
    rfl
  · intro j hj
    have hj : j ∈ [s.runs.length] := hto ▸ hj
    cases mem_singleton.mp hj
    exact ⟨(length_append : (s.runs ++ [run]).length = _).symm, run, getElem?_concat_length, hres, ht⟩
  · refine h.log.of_receipts s.scheduler.fault (receipts_accept hre) ?_
    intro other ho receipt hr
    rcases mem_append.mp ho with hold | hnew
    · exact h.log.ticks other hold receipt hr
    · rw [mem_singleton.mp hnew, hre] at hr
      cases hr
  · intro c other hc
    have hle := (h.reads c other (erase_read hc)).1
    have hn : gate.version = s.gate.version + 1 := by rw [hg]; rfl
    change other.version ≤ gate.version ∧ (other.version = gate.version → other.clock = gate.clock)
    rw [hn]
    exact ⟨by omega, fun heq => by omega⟩

lemma tokens_accepted {held : Option ℕ} (h : tokensOf accepted queue held = active.toList)
    (hp : pending ∈ accepted) :
    accepted = [pending] ∧ queue = [] ∧ held = none ∧ active = some pending.run := by
  cases accepted with
  | nil => cases hp
  | cons first rest =>
    cases active with
    | none => cases h
    | some j =>
      simp only [tokensOf, map_cons, cons_append, Option.toList_some, List.cons.injEq,
        append_eq_nil_iff, map_eq_nil_iff, Option.toList_eq_nil_iff] at h
      obtain ⟨rfl, ⟨rfl, rfl⟩, rfl⟩ := h
      cases mem_singleton.mp hp
      exact ⟨rfl, rfl, rfl, rfl⟩

lemma tokens_held (h : tokensOf accepted queue (some j) = active.toList) :
    accepted = [] ∧ queue = [] ∧ active = some j := by
  have hl := congrArg List.length h
  simp only [tokensOf, length_append, length_map, Option.toList_some, length_singleton] at hl
  have hact : active.toList.length ≤ 1 := by cases active <;> simp
  have ha : accepted = [] := length_eq_zero_iff.mp (by omega)
  have hq : queue = [] := length_eq_zero_iff.mp (by omega)
  subst ha hq
  cases active with
  | none => cases h
  | some k =>
    cases h
    exact ⟨rfl, rfl, rfl⟩

lemma tokens_queued {rest : List (ℕ × StepRequest)}
    (h : tokensOf accepted ((j, request) :: rest) none = active.toList) : accepted = [] ∧ rest = [] := by
  have hl := congrArg List.length h
  simp only [tokensOf, length_append, length_map, length_cons] at hl
  have ha : active.toList.length ≤ 1 := by cases active <;> simp
  exact ⟨length_eq_zero_iff.mp (by omega), length_eq_zero_iff.mp (by omega)⟩

lemma Inv.handOver (h : Inv initial s) (hp : s.accepted.find? (·.call == call) = some pending) :
    Inv initial
      { s with
        accepted := s.accepted.filter (·.call != call)
        queue := s.queue ++ [(pending.run, pending.request)] } := by
  have hm := mem_of_find?_eq_some hp
  have hc := find?_some hp
  refine h.of_same (.refl s.gate) rfl ⟨_, rfl⟩ (fun _ _ h => h) ?_ ?_ h.running
  · intro hl
    obtain ⟨ha, hq, hh, -⟩ := tokens_accepted (h.flight hl) hm
    have hf : [pending].filter (·.call != call) = [] := by simpa using hc
    change tokensOf (s.accepted.filter (·.call != call))
      (s.queue ++ [(pending.run, pending.request)]) s.driver.run =
      tokensOf s.accepted s.queue s.driver.run
    rw [ha, hq, hh, hf]
    rfl
  · intro j hj
    simp only [tokens, tokensOf, mem_append, mem_map, mem_filter] at hj ⊢
    rcases hj with (⟨other, ⟨ho, -⟩, rfl⟩ | ⟨entry, he | he, rfl⟩) | hj
    · exact .inl (.inl ⟨other, ho, rfl⟩)
    · exact .inl (.inr ⟨entry, he, rfl⟩)
    · rw [mem_singleton.mp he]
      exact .inl (.inl ⟨pending, hm, rfl⟩)
    · exact .inr hj

lemma cancel_run (gate : Gate) (run : Run) : (gate.cancel run).2.id = run.id ∧ (gate.cancel run).2.tick = run.tick ∧
    (gate.cancel run).2.result = run.result := by
  unfold Gate.cancel
  split_ifs <;> exact ⟨rfl, rfl, rfl⟩

lemma ids_set {runs : List Run} {epoch : ℕ}
    (h : ∀ (i : ℕ) other, runs[i]? = some other → other.id = ⟨epoch, i⟩) (hr : runs[j]? = some run)
    (hid : run'.id = run.id) :
    ∀ (i : ℕ) other, (runs.set j run')[i]? = some other → other.id = ⟨epoch, i⟩ := by
  intro i other ho
  rw [getElem?_set] at ho
  split_ifs at ho with hi hj
  · subst hi
    cases ho
    rw [hid]
    exact h j run hr
  · exact h i other ho

lemma Inv.cancel (h : Inv initial s) (hrun : s.runs[j]? = some run) :
    Inv initial { s with runs := s.runs.set j (s.gate.cancel run).2 } := by
  obtain ⟨hid, ht, hres⟩ := cancel_run s.gate run
  have hre : (s.gate.cancel run).2.receipt = run.receipt := by rw [Run.receipt, hres, Run.receipt]
  refine ⟨h.epoch, h.nextIndex, h.time, ?_, ids_set h.ids hrun hid, h.flight, ?_, ?_, h.running, h.reads⟩
  · rw [length_set]
    exact h.count
  · intro i hi
    obtain ⟨hl, other, ho, hn, hot⟩ := h.held i hi
    rw [length_set]
    refine ⟨hl, ?_⟩
    by_cases hij : j = i
    · subst hij
      rw [hrun] at ho
      cases ho
      exact ⟨_, getElem?_set_self (List.getElem?_eq_some_iff.mp hrun).1, hres.trans hn,
        ht.trans hot⟩
    · exact ⟨other, by rw [getElem?_set_ne hij]; exact ho, hn, hot⟩
  · refine h.log.of_receipts s.scheduler.fault (receipts_set hrun hre) (ticks_set h.log.ticks ?_)
    intro receipt hr
    rw [hre] at hr
    rw [ht]
    exact h.log.ticks run (mem_of_getElem? hrun) receipt hr

lemma held_token (hh : s.driver.run = some j) : j ∈ s.tokens := by
  rw [tokens, tokensOf, hh]
  simp

lemma Inv.driven (h : Inv initial s) (hlo : s.gate.lost = false) (hh : s.driver.run = some j)
    (hr : s.runs[j]? = some run) :
    tokensOf s.accepted s.queue none = [] ∧ j + 1 = s.runs.length ∧ run.result = none ∧
      run.tick = ⟨s.scheduler.epoch, s.scheduler.nextIndex⟩ := by
  have hf := h.flight hlo
  rw [tokens, hh] at hf
  obtain ⟨ha, hq, -⟩ := tokens_held hf
  obtain ⟨hl, other, ho, hn, ht⟩ := h.held j (held_token hh)
  rw [hr] at ho
  cases ho
  exact ⟨by rw [ha, hq]; rfl, hl, hn, ht⟩

lemma Inv.commit (h : Inv initial s) (previous : Map StepOutput StepValue)
    (hd : s.driver = .running j adv [] none) (hrun : s.runs[j]? = some run)
    (hcom : s.gate.commit run s.now (StepScheduler.receipt adv) (s.scheduler.committedClock adv) =
      .ok (gate, run')) :
    Inv initial
      { s with
        gate := gate
        runs := s.runs.set j run'
        scheduler := s.scheduler.applyCommit adv previous
        driver := .waiting } := by
  obtain ⟨hl, -, -, rfl, rfl⟩ := commit_ok hcom
  obtain ⟨hto, hla, hn, ht⟩ := h.driven hl (by rw [hd]; rfl) hrun
  have hf := (h.running j adv [] none hd).2
  refine ⟨rfl, rfl, rfl, ?_, ids_set h.ids hrun rfl, fun _ => hto, ?_, ?_, ?_, ?_⟩
  · rw [length_set]
    exact h.count
  · intro i hi
    have hi : i ∈ ([] : List ℕ) := hto ▸ hi
    cases hi
  · exact h.log.commit hf hrun hla hn ht previous
  · intro k adv' rest awaiting hr
    cases hr
  · intro c start hc
    have hle := (h.reads c start hc).1
    exact ⟨Nat.le_succ_of_le hle, fun heq => absurd heq (Nat.lt_succ_of_le hle).ne⟩

lemma error_receipt (hn : run.result = none) (error : StepRunError) :
    (run.set (.error error)).receipt = none ∧ run.receipt = none := by
  rw [Run.receipt, Run.receipt, set_result, hn]
  exact ⟨rfl, rfl⟩

lemma Inv.finish (h : Inv initial s) {driver : Driver} (error : StepRunError) (phase : ClockPhase)
    (hh : s.driver.run = some j) (ha : driver.run = none) (hrun : s.runs[j]? = some run) :
    Inv initial
      { s with
        gate := (s.gate.finish run (.error error) { s.scheduler.clock with phase := phase }).1
        runs := s.runs.set j (s.gate.finish run (.error error) { s.scheduler.clock with phase := phase }).2
        driver := driver } := by
  have hid : ∀ k adv rest awaiting, driver = .running k adv rest awaiting →
      s.scheduler.fault = none ∧ Fits s.scheduler adv.request := by
    rintro k adv rest awaiting rfl
    cases ha
  have hless : tokensOf s.accepted s.queue driver.run ⊆ s.tokens := by
    rw [ha, tokens]
    exact append_subset.mpr ⟨subset_append_left _ _, nil_subset _⟩
  cases hlo : s.gate.lost with
  | true =>
    have hf : s.gate.finish run (.error error) { s.scheduler.clock with phase := phase } = (s.gate, run) := by
      rw [Gate.finish, if_pos hlo]
    rw [hf]
    refine h.of_same (.refl s.gate) ?_ ⟨_, rfl⟩ (fun _ _ h => h) ?_ hless hid
    · obtain ⟨hj, rfl⟩ := List.getElem?_eq_some_iff.mp hrun
      exact set_getElem_self hj
    · intro hl
      rw [hlo] at hl
      cases hl
  | false =>
    have hf : s.gate.finish run (.error error) { s.scheduler.clock with phase := phase } =
        ({ s.gate.replaceClock { s.scheduler.clock with phase := phase } with active := none },
          run.set (.error error)) := by
      rw [Gate.finish, if_neg (by rw [hlo]; exact Bool.false_ne_true)]
    rw [hf]
    obtain ⟨ht, -, hn, -⟩ := h.driven hlo hh hrun
    rw [← ha] at ht
    obtain ⟨hnew, ho⟩ := error_receipt hn error
    refine ⟨rfl, rfl, rfl, ?_, ids_set h.ids hrun rfl, fun _ => ht, ?_, ?_, hid, ?_⟩
    · rw [length_set]
      exact h.count
    · intro i hi
      have hi : i ∈ ([] : List ℕ) := ht ▸ hi
      cases hi
    · refine h.log.of_receipts s.scheduler.fault (receipts_set hrun (hnew.trans ho.symm)) (ticks_set h.log.ticks ?_)
      intro receipt hr
      rw [hnew] at hr
      cases hr
    · intro c start hc
      have hle := (h.reads c start hc).1
      exact ⟨Nat.le_succ_of_le hle, fun heq => absurd heq (Nat.lt_succ_of_le hle).ne⟩

lemma Inv.driver (h : Inv initial s) (hg : Signalled s.gate s'.gate) (hr : s'.runs = s.runs)
    (hs : ∃ fault, s'.scheduler = { s.scheduler with fault := fault }) (hcs : s'.calls = s.calls)
    (ha : s'.accepted = s.accepted) (hq : s'.queue = s.queue)
    (hd : s'.driver.run = s.driver.run ∨ s'.driver.run = none ∧ s'.gate.lost = true)
    (hrun : ∀ j adv rest awaiting, s'.driver = .running j adv rest awaiting →
      s'.scheduler.fault = none ∧ Fits s'.scheduler adv.request) : Inv initial s' := by
  refine h.of_same hg hr hs (fun _ _ => by rw [hcs]; exact fun h => h) ?_ ?_ hrun
  · intro hlo
    rcases hd with hd | ⟨-, hl⟩
    · rw [tokens, tokens, ha, hq, hd]
    · rw [hlo] at hl
      cases hl
  · rw [tokens, tokens, ha, hq]
    rcases hd with hd | ⟨hd, -⟩
    · rw [hd]
      exact List.Subset.refl _
    · rw [hd]
      exact append_subset.mpr ⟨subset_append_left _ _, nil_subset _⟩

lemma Signalled.of_stop (h : gate = s.gate ∨ gate = s.gate.markStop) : Signalled s.gate gate := by
  rcases h with rfl | rfl
  · exact .refl s.gate
  · exact .markStop s.gate

lemma begin_fits (h : scheduler.begin request = .ok adv) :
    scheduler.fault = none ∧ Fits scheduler adv.request := by
  obtain ⟨hf, valid, hva, rfl⟩ := begin_ok.mp h
  have hv := validate_ok hva
  exact ⟨hf, hv.id, hv.start, hv.proper, hv.next⟩

lemma Move.inv (hm : Move s reply s') (h : Inv initial s) : Inv initial s' := by
  have hn : ∀ {driver : Driver} {scheduler : StepScheduler}, driver.run = none →
      ∀ j adv rest awaiting, driver = .running j adv rest awaiting →
        scheduler.fault = none ∧ Fits scheduler adv.request := by
    rintro driver scheduler hrun j adv rest awaiting rfl
    cases hrun
  cases hm with
  | idle _ _ _ _ hcs =>
    exact h.of_same (.refl s.gate) rfl ⟨_, rfl⟩ hcs (fun _ => rfl) (List.Subset.refl _) h.running
  | read call request timeout start hre =>
    obtain ⟨rfl, -⟩ := read_ok hre
    exact h.read rfl rfl
  | accept call start gate run hc hac => exact h.accept hc hac
  | handOver call pending hp => exact h.handOver hp
  | strand call =>
    refine h.of_same (.disappear s.gate) rfl ⟨_, rfl⟩ (fun _ _ h => h) (fun hl => by cases hl) ?_ h.running
    intro i hi
    simp only [tokens, tokensOf, mem_append, mem_map, mem_filter] at hi ⊢
    rcases hi with (⟨pending, ⟨hp, -⟩, rfl⟩ | hi) | hi
    · exact .inl (.inl ⟨pending, hp, rfl⟩)
    · exact .inl (.inr hi)
    · exact .inr hi
  | cancel j run hrun => exact h.cancel hrun
  | stop => exact h.driver (.markStop s.gate) rfl ⟨_, rfl⟩ rfl rfl rfl (Or.inl rfl) h.running
  | activate => exact h.driver (.activate s.gate) rfl ⟨_, rfl⟩ rfl rfl rfl (Or.inl rfl) h.running
  | take gate closed j request rest hd hq hg =>
    have ht : s.tokens = tokensOf s.accepted ((j, request) :: rest) none := by
      rw [tokens, hq, hd]
      rfl
    refine h.of_same (.of_stop hg) rfl ⟨_, rfl⟩ (fun _ _ h => h) ?_ ?_ ?_
    · intro hlo
      have hf := h.flight ((Signalled.of_stop hg).lost hlo)
      rw [ht] at hf ⊢
      obtain ⟨hacc, rfl⟩ := tokens_queued hf
      change tokensOf s.accepted [] (some j) = _
      rw [hacc]
      rfl
    · rw [ht]
      intro i hi
      change i ∈ tokensOf s.accepted rest (some j) at hi
      simp only [tokensOf, mem_append, map_cons, mem_cons, Option.toList_some, not_mem_nil,
        or_false, Option.toList_none] at hi ⊢
      tauto
    · intro k adv rest' awaiting hr
      cases hr
  | park gate closed driver hb ha hg =>
    exact h.driver (.of_stop hg) rfl ⟨_, rfl⟩ rfl rfl rfl (Or.inl (ha.trans hb.symm)) (hn ha)
  | begin j request run adv hd _ hbe =>
    refine h.driver (.refl s.gate) rfl ⟨_, rfl⟩ rfl rfl rfl (Or.inl (by rw [hd]; rfl)) ?_
    intro k adv' rest awaiting hr
    cases hr
    exact begin_fits hbe
  | reject j request run hd =>
    exact h.driver (.disappear s.gate) rfl ⟨_, rfl⟩ rfl rfl rfl (Or.inr ⟨rfl, rfl⟩) (hn rfl)
  | dispatch j adv inst rest inputs hd =>
    refine h.driver (.refl s.gate) rfl ⟨_, rfl⟩ rfl rfl rfl (Or.inl (by rw [hd]; rfl)) ?_
    intro k adv' rest' awaiting hr
    cases hr
    exact h.running j adv (inst :: rest) none hd
  | answer j adv adv' inst rest outcome hd hco =>
    refine h.driver (.refl s.gate) rfl ⟨_, rfl⟩ rfl rfl rfl (Or.inl (by rw [hd]; rfl)) ?_
    intro k adv'' rest' awaiting hr
    cases hr
    obtain ⟨outputs, schema, -, -, -, rfl⟩ := complete_ok.mp hco
    exact h.running j adv rest (some inst) hd
  | fail _ _ _ _ hd | ending _ _ hd _ =>
    refine h.driver (.refl s.gate) rfl ⟨_, rfl⟩ rfl rfl rfl (Or.inl (by rw [hd]; rfl)) ?_
    intro k adv rest awaiting hr
    cases hr
  | commit j adv run run' gate previous hd hrun hcom => exact h.commit previous hd hrun hcom
  | finish j run error phase driver hb ha hrun =>
    refine h.finish error phase ?_ ha hrun
    rcases hb with ⟨failure, hd⟩ | hd
    · rw [hd]
      rfl
    · rw [hd]
      rfl
  | collapse reply fault _ =>
    exact h.driver (.disappear s.gate) rfl ⟨fault, rfl⟩ rfl rfl rfl (Or.inr ⟨rfl, rfl⟩) (hn rfl)

lemma new_inv (isLocal : Bool) (horizon : ℕ) (hidx : scheduler.nextIndex = 0)
    (ht : scheduler.time = initial) : Inv initial (new scheduler isLocal horizon) := by
  refine ⟨rfl, rfl, rfl, rfl, ?_, fun _ => rfl, ?_, ?_, ?_, ?_⟩
  · intro j run hrun
    cases hrun
  · intro j hj
    cases hj
  · refine ⟨hidx.symm, ht, ?_, ?_, ?_, ?_⟩
    · intro k receipt hk
      cases hk
    · intro receipt hr
      cases hr
    · intro k receipt hk
      cases hk
    · intro run hrun
      cases hrun
  · intro j adv rest awaiting hd
    cases hd
  · intro c start hc
    rw [new, ExtTreeMap.getElem?_empty] at hc
    cases hc

variable {i : ℕ}

def OkAt (runs : List Run) (i : ℕ) (receipt : StepReceipt) : Prop :=
  ∃ run, runs[i]? = some run ∧ run.result = some (.ok receipt)

def Doomed (s : Session) : Prop := s.gate.lost = true ∨ s.scheduler.fault.isSome = true

def Spent (s : Session) (j : ℕ) : Prop :=
  (∃ receipt, OkAt s.runs j receipt) ∨
  (∃ adv rest awaiting, s.driver = .running j adv rest awaiting ∧ adv.armed = true) ∨
  Doomed s ∧ ∀ i receipt, OkAt s.runs i receipt → i < j

lemma okAt_set (hrun : runs[j]? = some run)
    (hs : run'.result = some (.ok receipt) → run.result = some (.ok receipt))
    (h : OkAt (runs.set j run') i receipt) : OkAt runs i receipt := by
  obtain ⟨other, ho, hr⟩ := h
  rw [getElem?_set] at ho
  split_ifs at ho with hi hj
  · subst hi
    cases ho
    exact ⟨run, hrun, hs hr⟩
  · exact ⟨other, ho, hr⟩

lemma okAt_accept (hn : run.result = none) (h : OkAt (runs ++ [run]) i receipt) : OkAt runs i receipt := by
  obtain ⟨other, ho, hr⟩ := h
  rcases getElem?_concat ho with hold | ⟨rfl, rfl⟩
  · exact ⟨other, hold, hr⟩
  · rw [hn] at hr
    cases hr

lemma Move.doomed (hm : Move s reply s') (h : Inv initial s) (hdo : Doomed s) :
    Doomed s' ∧ ∀ i receipt, OkAt s'.runs i receipt → OkAt s.runs i receipt := by
  refine ⟨?_, ?_⟩
  · rcases hdo with hlo | hf
    · exact .inl (hm.kept.lost hlo)
    · cases hm with
      | fail => exact .inr rfl
      | collapse => exact .inl rfl
      | _ => exact .inr hf
  · intro i receipt hok
    cases hm with
    | accept call start gate run _ ha =>
      obtain ⟨-, -, -, -, -, deadline, hrun, -⟩ := accept_ok ha
      exact okAt_accept (by rw [hrun]) hok
    | cancel j run hrun =>
      exact okAt_set hrun (fun hr => (cancel_run s.gate run).2.2 ▸ hr) hok
    | finish j run error phase driver _ _ hrun => exact okAt_set hrun finish_result hok
    | commit j adv run run' gate previous hd _ hc =>
      obtain ⟨hlo, -⟩ := commit_ok hc
      rcases hdo with hl | hf
      · rw [hlo] at hl
        cases hl
      · rw [(h.running j adv [] none hd).1] at hf
        cases hf
    | _ => exact hok

lemma Inv.before (h : Inv initial s) (hh : s.driver.run = some j) (hok : OkAt s.runs i receipt) : i < j := by
  obtain ⟨hl, run, hrun, hn, -⟩ := h.held j (held_token hh)
  obtain ⟨other, ho, hr⟩ := hok
  have hi := (List.getElem?_eq_some_iff.mp ho).1
  have hne : i ≠ j := by
    rintro rfl
    rw [hrun] at ho
    cases ho
    rw [hn] at hr
    cases hr
  omega

lemma Inv.commit_okAt (h : Inv initial s) {adv : Advance} {rest : List String} {gate : Gate}
    {clock : ClockSnapshot} (hd : s.driver = .running j adv rest none) (hr : s.runs[j]? = some run)
    (hc : s.gate.commit run s.now receipt clock = .ok (gate, run')) : OkAt (s.runs.set j run') j receipt := by
  obtain ⟨hl, -, -, -, rfl⟩ := commit_ok hc
  obtain ⟨-, -, hn, -⟩ := h.driven hl (by rw [hd]; rfl) hr
  refine ⟨_, getElem?_set_self (List.getElem?_eq_some_iff.mp hr).1, ?_⟩
  rw [set_result, hn]
  rfl

lemma Move.spent (hm : Move s reply s') (h : Inv initial s) (hs : Spent s j) : Spent s' j := by
  rcases hs with ⟨receipt, run, hrun, hres⟩ | ⟨adv, rest, awaiting, hd, ha⟩ | ⟨hdo, hl⟩
  · obtain ⟨run', hr', hk⟩ := hm.kept.runs j run hrun
    exact .inl ⟨receipt, run', hr', hk.result _ hres⟩
  · have hh : s.driver.run = some j := by rw [hd]; rfl
    cases hm with
    | take _ _ _ _ _ hw =>
      rw [hd] at hw
      cases hw
    | park _ _ _ hb =>
      rw [hh] at hb
      cases hb
    | begin _ _ _ _ ht | reject _ _ _ ht =>
      rw [hd] at ht
      cases ht
    | dispatch k adv' inst rest' inputs hr =>
      rw [hd] at hr
      cases hr
      exact .inr (.inl ⟨_, _, _, rfl, rfl⟩)
    | answer k adv' adv'' inst rest' outcome hr hc =>
      rw [hd] at hr
      cases hr
      obtain ⟨outputs, schema, -, -, -, rfl⟩ := complete_ok.mp hc
      exact .inr (.inl ⟨_, _, _, rfl, ha⟩)
    | fail => exact .inr (.inr ⟨Or.inr rfl, fun i receipt hok => h.before hh hok⟩)
    | ending _ _ _ hu =>
      rw [hu j adv rest awaiting hd] at ha
      cases ha
    | commit k adv' run run' gate previous hr hrun hcom =>
      rw [hd] at hr
      cases hr
      exact .inl ⟨StepScheduler.receipt adv, h.commit_okAt hd hrun hcom⟩
    | finish _ _ _ _ _ he =>
      rw [hd] at he
      rcases he with ⟨failure, he⟩ | he <;> cases he
    | collapse => exact .inr (.inr ⟨Or.inl rfl, fun i receipt hok => h.before hh hok⟩)
    | _ => exact .inr (.inl ⟨adv, rest, awaiting, hd, ha⟩)
  · obtain ⟨hd', ho⟩ := hm.doomed h hdo
    exact .inr (.inr ⟨hd', fun i receipt hok => hl i receipt (ho i receipt hok)⟩)

structure Traced (initial : Duration) (replies : List Reply) (s : Session) : Prop where
  inv : Inv initial s
  spent : ∀ j tick inst inputs, .dispatched j tick inst inputs ∈ replies → Spent s j

lemma step_traced {replies : List Reply} {event : Event} (h : Traced initial replies s)
    (hs : s.step event = some (reply, s')) : Traced initial (replies ++ [reply]) s' := by
  have hmo := step_move hs
  refine ⟨hmo.inv h.inv, ?_⟩
  intro j tick inst inputs hm
  rcases mem_append.mp hm with ho | hn
  · exact hmo.spent h.inv (h.spent j tick inst inputs ho)
  · cases mem_singleton.mp hn
    obtain ⟨adv, rest, -, -, rfl⟩ := hmo.dispatched
    exact .inr (.inl ⟨_, _, _, rfl, rfl⟩)

def Session.committed (s : Session) : List StepReceipt :=
  (List.range s.runs.length).filterMap fun j => (s.retained j).bind Except.toOption

lemma retained_receipt {run : Run} (h : s.runs[j]? = some run) :
    (s.retained j).bind Except.toOption = run.receipt := by
  rw [retained, h, Option.bind_some, Run.receipt]
  rcases run.result with _ | error | receipt
  · cases s.gate.lost <;> rfl
  · rfl
  · rfl

lemma committed_receipts (s : Session) : s.committed = receipts s.runs := by
  have ht : ∀ n ≤ s.runs.length,
      (List.range n).filterMap (fun j => (s.retained j).bind Except.toOption) = receipts (s.runs.take n) := by
    intro n
    induction n with
    | zero => exact fun _ => rfl
    | succ n ih =>
      intro hn
      have hr : s.runs[n]? = some s.runs[n] := getElem?_eq_getElem hn
      rw [range_succ, filterMap_append, ih (Nat.le_of_succ_le hn), take_add_one, hr, receipts, receipts,
        filterMap_append, filterMap_cons, retained_receipt hr]
      rfl
  rw [committed, ht _ le_rfl, take_length]

lemma Kept.okAt_retained (h : Kept s s') {error : StepRunError} (he : s.retained j = some (.error error)) :
    ¬ OkAt s'.runs j receipt := by
  rintro ⟨run', hrun', hr'⟩
  obtain ⟨run, hrun, hres⟩ := Option.bind_eq_some_iff.mp he
  obtain ⟨run'', hr'', hk⟩ := h.runs j run hrun
  rw [hrun'] at hr''
  cases hr''
  cases hr : run.result with
  | some r =>
    rw [hk.result r hr] at hr'
    cases hr'
    rw [hr] at hres
    cases hres
  | none =>
    rw [hr] at hres
    -- without a result of its own the run reports the loss of the supervisor
    cases hl : s.gate.lost with
    | false =>
      rw [hl] at hres
      cases hres
    | true =>
      rw [hk.barred (Or.inl hl) receipt hr'] at hr
      cases hr

lemma Spent.last (hs : Spent s j) (h : Inv initial s) (hn : ∀ receipt, ¬ OkAt s.runs j receipt)
    (hok : OkAt s.runs i receipt) : i < j := by
  rcases hs with ⟨other, ho⟩ | ⟨adv, rest, awaiting, hd, -⟩ | ⟨-, hl⟩
  · exact absurd ho (hn other)
  · exact h.before (by rw [hd]; rfl) hok
  · exact hl i receipt hok

lemma new_traced {graph : StepGraph} {epochs next : ℕ} {scheduler : StepScheduler}
    (h : StepScheduler.new graph initial epochs = .ok (scheduler, next)) (isLocal : Bool) (horizon : ℕ) :
    Traced initial [] (new scheduler isLocal horizon) := by
  obtain ⟨plan, -, h⟩ := bind_ok.mp h
  obtain ⟨_, -, h⟩ := bind_ok.mp h
  cases pure_ok.mp h
  exact ⟨new_inv isLocal horizon rfl rfl, fun _ _ _ _ hm => by cases hm⟩

theorem commit_history {graph : StepGraph} {initial : Duration} {epochs next : ℕ} {scheduler : StepScheduler}
    (hnew : StepScheduler.new graph initial epochs = .ok (scheduler, next)) (isLocal : Bool) (horizon : ℕ)
    {events : List Event} {replies : List Reply} {s : Session}
    (hrun : (new scheduler isLocal horizon).run events = some (replies, s)) :
    (∀ (k : ℕ) receipt, s.committed[k]? = some receipt → receipt.tick.id = ⟨s.scheduler.epoch, k⟩ ∧
      receipt.tick.start = endOf initial (s.committed.take k) ∧ receipt.tick.Proper) ∧
    (∀ j receipt, s.retained j = some (.ok receipt) → ∃ run, s.runs[j]? = some run ∧ run.tick = receipt.tick.id) ∧
    s.gate.snapshot.nextIndex = s.scheduler.nextIndex ∧ s.scheduler.nextIndex = s.committed.length ∧
    s.gate.snapshot.time = s.scheduler.time ∧ s.scheduler.time = endOf initial s.committed ∧
    ∀ j tick inst inputs error, .dispatched j tick inst inputs ∈ replies → s.retained j = some (.error error) →
      ∀ events replies later, s.run events = some (replies, later) →
        ∀ i receipt, later.retained i = some (.ok receipt) → i < j := by
  have ht := run_history (fun _ _ _ _ _ h hst => step_traced h hst) (new_traced hnew isLocal horizon) hrun
  have hlog := ht.inv.log
  obtain ⟨-, hidx, hti⟩ := snapshot_clock s.gate
  rw [committed_receipts]
  refine ⟨?_, ?_, hidx.trans ht.inv.nextIndex, hlog.count.symm, hti.trans ht.inv.time, hlog.time, ?_⟩
  · intro k receipt hk
    exact ⟨hlog.index k receipt hk, hlog.start k receipt hk, hlog.proper receipt (mem_of_getElem? hk)⟩
  · intro j receipt hr
    obtain ⟨run, hrun, hres⟩ := retained_ok hr
    refine ⟨run, hrun, (hlog.ticks run (mem_of_getElem? hrun) receipt ?_).symm⟩
    rw [Run.receipt, hres]
  · intro j tick inst inputs error hd he events replies' later hl i receipt hr
    have hn := run_history (fun _ _ _ _ _ h hst => step_traced h hst) ht hl
    have hs := hn.spent j tick inst inputs (mem_append_left _ hd)
    exact hs.last hn.inv (fun _ => (run_kept hl).okAt_retained he) (retained_ok hr)

def loopEvents : List Event :=
  .activate :: loopAdmit 0 1 ++
    [.dispatch, loopAnswer "force" [1, 0], .dispatch, loopAnswer "state" [1, 0], .commit] ++
    loopAdmit 1 2 ++ [.dispatch, .answer (.error "no force") none, .finish]

def loopFailure : StepFailure where
  tick := ⟨3, 1⟩
  kind := .nodeError
  inst := some "control"
  port := none
  attempted := ["control"]
  completed := []
  detail := "no force"

theorem commit_history_loop : ∃ replies s, loopSession.run loopEvents = some (replies, s) ∧
    s.committed = [loopReceipt 0 0 [1, 0]] ∧ s.gate.snapshot.nextIndex = 1 ∧ s.gate.snapshot.time = .ofNanos 5 ∧
    s.retained 1 = some (.error (.failed loopFailure)) ∧
    ∀ events replies' later, s.run events = some (replies', later) →
      ∀ i receipt, later.retained i = some (.ok receipt) → i < 1 := by
  have hn : StepScheduler.new loopGraph .zero 3 = .ok (loopStart, 4) := by decide +kernel
  have hs : (loopSession.run loopEvents).isSome = true := by decide +kernel
  have hc : (loopSession.run loopEvents).map (fun result => result.2.committed) =
      some [loopReceipt 0 0 [1, 0]] := by decide +kernel
  have hf : (loopSession.run loopEvents).map (fun result => result.2.retained 1) =
      some (some (.error (.failed loopFailure))) := by decide +kernel
  have hd : (loopSession.run loopEvents).map (fun result => result.1[16]?) =
      some (some (.dispatched 1 ⟨⟨3, 1⟩, .ofNanos 5, .ofNanos 5, .ofNanos 10⟩ "control"
        (Map.of [("goal", ⟨loopType, [2]⟩), ("seen", ⟨loopType, [1, 0]⟩)]))) := by decide +kernel
  obtain ⟨⟨replies, s⟩, hr⟩ := Option.isSome_iff_exists.mp hs
  rw [hr] at hc hf hd
  have hc := Option.some.inj hc
  have hf := Option.some.inj hf
  have hm := mem_of_getElem? (Option.some.inj hd)
  obtain ⟨-, -, hidx, hcnt, ht, he, hl⟩ := commit_history hn false 1000 hr
  refine ⟨replies, s, hr, hc, ?_, ?_, hf, hl 1 _ _ _ _ hm hf⟩
  · rw [hidx, hcnt]
    exact congrArg List.length hc
  · rw [ht, he]
    exact congrArg (endOf .zero) hc

end Reiny.Step
