import Reiny.Step.Scheduler

namespace Reiny.Step

open Std Lib Results Checked

structure StepRunId where
  epoch : ℕ
  sequence : ℕ
deriving DecidableEq

inductive StepRunError
  | cancelledBeforeDispatch (tick : StepId)
  | timedOutBeforeDispatch (tick : StepId)
  | failed (failure : StepFailure)
  | supervisorGone (tick : StepId)
deriving DecidableEq

inductive StepStartError
  | notRunning
  | busy (inFlight : StepRunId)
  | invalidRequest (error : StepRequestError)
  | invalidTimeout
  | runIdExhausted
  | faulted (failure : StepFailure)
  | stopped
  | supervisorGone
deriving DecidableEq

inductive CancelStatus
  | requested
  | alreadyRequested
  | finished
  | supervisorGone
deriving DecidableEq

abbrev RunResult := Except StepRunError StepReceipt

/-- Instants are counted in nanoseconds; no deadline is `none`. -/
structure Run where
  id : StepRunId
  tick : StepId
  deadline : Option ℕ
  cancelled : Bool
  result : Option RunResult
deriving DecidableEq

def Run.set (run : Run) (result : RunResult) : Run := { run with result := run.result.or (some result) }

def expired (deadline : Option ℕ) (now : ℕ) : Bool := deadline.any (· ≤ now)

/-- `horizon` is the first instant the platform cannot represent. -/
def checkedAfter (horizon now : ℕ) : Option Duration → Option (Option ℕ)
  | none => some none
  | some timeout => if timeout.isZero then none else (checkedAdd horizon now timeout.nanos).map some

/-- `version` tells one shared clock from the next, as comparing the pointers does. -/
structure Gate where
  ready : Bool
  stopped : Bool
  sequence : ℕ
  clock : ClockSnapshot
  version : ℕ
  active : Option StepRunId
  lost : Bool

structure Start where
  request : StepRequest
  timeout : Option Duration
  clock : ClockSnapshot
  version : ℕ
  sequence : ℕ
deriving DecidableEq

namespace Gate

def new (clock : ClockSnapshot) : Gate :=
  ⟨false, false, 0, { clock with phase := .starting }, 0, none, false⟩

def disappear (gate : Gate) : Gate := { gate with lost := true }

def markStop (gate : Gate) : Gate := if gate.lost then gate else { gate with stopped := true }

def activate (gate : Gate) : Gate := if gate.lost || gate.stopped then gate else { gate with ready := true }

def snapshot (gate : Gate) : ClockSnapshot :=
  match gate.clock.phase with
  | .faulted _ => gate.clock
  | phase =>
    if gate.stopped || gate.lost then { gate.clock with phase := .stopped }
    else if gate.ready && phase = .starting then { gate.clock with phase := .ready }
    else gate.clock

def replaceClock (gate : Gate) (clock : ClockSnapshot) : Gate :=
  { gate with clock := clock, version := gate.version + 1 }

def cancel (gate : Gate) (run : Run) : CancelStatus × Run :=
  if gate.lost then (if run.result.isSome then .finished else .supervisorGone, run)
  else if run.result.isSome then (.finished, run)
  else if run.cancelled then (.alreadyRequested, { run with cancelled := true })
  else (.requested, { run with cancelled := true })

def reason (gate : Gate) (run : Run) (now : ℕ) : Option StepFailureKind :=
  if gate.stopped then some .hostStopped
  else if run.cancelled then some .cancelled
  else if expired run.deadline now then some .timedOut
  else none

def interruption (gate : Gate) (run : Run) (now : ℕ) : Option StepFailureKind :=
  if gate.lost then some .workerLost else gate.reason run now

def finish (gate : Gate) (run : Run) (result : RunResult) (clock : ClockSnapshot) : Gate × Run :=
  if gate.lost then (gate, run)
  else ({ gate.replaceClock clock with active := none }, run.set result)

def commit (gate : Gate) (run : Run) (now : ℕ) (receipt : StepReceipt) (clock : ClockSnapshot) :
    Except StepFailureKind (Gate × Run) :=
  if gate.lost then .error .workerLost
  else
    match gate.reason run now with
    | some kind => .error kind
    | none => .ok ({ gate.replaceClock clock with active := none }, run.set (.ok receipt))

def checkPhase : ClockPhase → Except (Abort StepStartError) Unit
  | .faulted failure => .error (.failed (.faulted failure))
  | .starting | .ready | .running _ | .stopped => .ok ()

def checkIdle : Option StepRunId → Except (Abort StepStartError) Unit
  | some inFlight => .error (.failed (.busy inFlight))
  | none => .ok ()

def checkRequest (plan : Plan) (request : StepRequest) (clock : ClockSnapshot) :
    Except (Abort StepStartError) Unit :=
  match request.validate plan clock with
  | .error .missed => .error .missed
  | .error (.failed error) => .error (.failed (.invalidRequest error))
  | .ok _ => .ok ()

def read (gate : Gate) (plan : Plan) (request : StepRequest) (timeout : Option Duration) :
    Except (Abort StepStartError) Start := do
  ensure (gate.lost = false) (.failed .supervisorGone)
  checkPhase gate.clock.phase
  ensure (gate.stopped = false) (.failed .stopped)
  ensure (gate.ready = true) (.failed .notRunning)
  checkIdle gate.active
  checkRequest plan request gate.clock
  let _ ← ofOption (checkedAdd U64 gate.sequence 1) (.failed .runIdExhausted)
  return ⟨request, timeout, gate.clock, gate.version, gate.sequence⟩

def accept (gate : Gate) (horizon now : ℕ) (start : Start) : Except StepStartError (Option (Gate × Run)) :=
  if gate.lost then .error .supervisorGone
  else if gate.stopped then .error .stopped
  else
    match gate.active with
    | some inFlight => .error (.busy inFlight)
    | none =>
      if gate.sequence ≠ start.sequence ∨ gate.version ≠ start.version then .ok none
      else
        match checkedAfter horizon now start.timeout with
        | none => .error .invalidTimeout
        | some deadline =>
          let tick : StepId := ⟨start.clock.epoch, start.clock.nextIndex⟩
          let run : Run := ⟨⟨tick.epoch, start.sequence⟩, tick, deadline, false, none⟩
          .ok (some ({ gate.replaceClock { start.clock with phase := .running tick } with
            sequence := start.sequence + 1
            active := some run.id }, run))

end Gate

variable {gate gate' : Gate} {run run' : Run} {start : Start} {horizon now : ℕ} {receipt : StepReceipt}
  {clock : ClockSnapshot}

lemma snapshot_clock (gate : Gate) : gate.snapshot.epoch = gate.clock.epoch ∧
    gate.snapshot.nextIndex = gate.clock.nextIndex ∧ gate.snapshot.time = gate.clock.time := by
  unfold Gate.snapshot
  split
  · exact ⟨rfl, rfl, rfl⟩
  · split_ifs <;> exact ⟨rfl, rfl, rfl⟩

lemma markStop_lost : gate.markStop.lost = gate.lost := by
  unfold Gate.markStop
  split_ifs <;> rfl

lemma reason_none (h : gate.reason run now = none) : gate.stopped = false ∧ run.cancelled = false := by
  unfold Gate.reason at h
  split_ifs at h with hs hc
  exact ⟨by simpa using hs, by simpa using hc⟩

lemma commit_ok (h : gate.commit run now receipt clock = .ok (gate', run')) :
    gate.lost = false ∧ gate.stopped = false ∧ run.cancelled = false ∧
      gate' = { gate.replaceClock clock with active := none } ∧ run' = run.set (.ok receipt) := by
  unfold Gate.commit at h
  split_ifs at h with hl
  cases hr : gate.reason run now with
  | some kind =>
    rw [hr] at h
    cases h
  | none =>
    rw [hr] at h
    cases h
    obtain ⟨hs, hc⟩ := reason_none hr
    exact ⟨by simpa using hl, hs, hc, rfl, rfl⟩

lemma accept_ok (h : gate.accept horizon now start = .ok (some (gate', run))) :
    gate.lost = false ∧ gate.stopped = false ∧ gate.active = none ∧ gate.sequence = start.sequence ∧
      gate.version = start.version ∧ ∃ deadline,
        run = ⟨⟨start.clock.epoch, start.sequence⟩, ⟨start.clock.epoch, start.clock.nextIndex⟩,
          deadline, false, none⟩ ∧
        gate' = { gate.replaceClock { start.clock with phase := .running run.tick } with
          sequence := start.sequence + 1
          active := some run.id } := by
  unfold Gate.accept at h
  cases ha : gate.active with
  | some inFlight =>
    rw [ha] at h
    split_ifs at h
  | none =>
    rw [ha] at h
    dsimp only at h
    split_ifs at h with hl hs hsa
    · cases h
    · rw [not_or, not_not, not_not] at hsa
      cases hdl : checkedAfter horizon now start.timeout with
      | none =>
        rw [hdl] at h
        cases h
      | some deadline =>
        rw [hdl] at h
        cases h
        exact ⟨by simpa using hl, by simpa using hs, rfl, hsa.1, hsa.2, deadline, rfl, rfl⟩

lemma read_ok {plan : Plan} {request : StepRequest} {timeout : Option Duration}
    (h : gate.read plan request timeout = .ok start) :
    start = ⟨request, timeout, gate.clock, gate.version, gate.sequence⟩ ∧ gate.sequence + 1 < U64 := by
  obtain ⟨-, h⟩ := ensure_bind_ok.mp h
  obtain ⟨_, -, h⟩ := bind_ok.mp h
  obtain ⟨-, h⟩ := ensure_bind_ok.mp h
  obtain ⟨-, h⟩ := ensure_bind_ok.mp h
  obtain ⟨_, -, h⟩ := bind_ok.mp h
  obtain ⟨_, -, h⟩ := bind_ok.mp h
  obtain ⟨next, hn, h⟩ := bind_ok.mp h
  cases pure_ok.mp h
  rw [ofOption_ok, checkedAdd_some] at hn
  exact ⟨rfl, hn.1 ▸ hn.2⟩

lemma set_result (run : Run) (result : RunResult) : (run.set result).result = run.result.or (some result) := rfl

end Reiny.Step
