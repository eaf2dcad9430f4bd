import Reiny.Lib.Machine
import Reiny.Step.Gate

namespace Reiny.Step

open Std Lib Results Checked

inductive Pending
  | retry (request : StepRequest) (timeout : Option Duration)
  | read (start : Start)
deriving DecidableEq

structure Handover where
  call : ℕ
  run : ℕ
  request : StepRequest

inductive Driver
  | waiting
  | abandoned
  | taken (run : ℕ) (request : StepRequest)
  | running (run : ℕ) (adv : Advance) (remaining : List String) (awaiting : Option String)
  | failing (run : ℕ) (failure : StepFailure)
  | ending (run : ℕ) (error : StepRunError)
  | stopping
  | returned
  | gone
deriving DecidableEq

def Driver.run : Driver → Option ℕ
  | .taken j _ => some j
  | .running j _ _ _ => some j
  | .failing j _ => some j
  | .ending j _ => some j
  | .waiting | .abandoned | .stopping | .returned | .gone => none

structure Session where
  isLocal : Bool
  horizon : ℕ
  now : ℕ
  gate : Gate
  runs : List Run
  calls : Map ℕ Pending
  accepted : List Handover
  queue : List (ℕ × StepRequest)
  closed : Bool
  driver : Driver
  scheduler : StepScheduler

/-- Deadlines expire by `elapse`. The executor's own failure kind comes with the answer of a node. -/
inductive Event
  | start (call : ℕ) (request : StepRequest) (timeout : Option Duration)
  | retry (call : ℕ)
  | accept (call : ℕ)
  | handOver (call : ℕ)
  | cancel (run : ℕ)
  | stop
  | activate
  | clock
  | elapse (nanos : ℕ)
  | receive
  | drain
  | abandon
  | leave
  | begin
  | dispatch
  | answer (outcome : NodeOutcome) (override : Option StepFailureKind)
  | commit
  | interrupt
  | finish
  | halt
  | exit
  | abort

inductive Reply
  | done
  | started (result : Except StepStartError ℕ)
  | accepted (run : ℕ)
  | panicked
  | cancelled (status : CancelStatus)
  | clock (snapshot : ClockSnapshot)
  | begun (run : Run)
  | dispatched (run : ℕ) (tick : StepTick) (inst : String) (inputs : StepInputs)
deriving DecidableEq

def unknown (run : Run) : StepFailure where
  tick := run.tick
  kind := .workerLost
  inst := none
  port := none
  attempted := []
  completed := []
  detail := "step supervisor unavailable; effects unknown"

def beforeDispatch (run : Run) : StepFailureKind → StepRunError
  | .cancelled => .cancelledBeforeDispatch run.tick
  | .timedOut => .timedOutBeforeDispatch run.tick
  | kind => .failed { unknown run with kind := kind }

namespace Session

def new (scheduler : StepScheduler) (isLocal : Bool) (horizon : ℕ) : Session where
  isLocal := isLocal
  horizon := horizon
  now := 0
  gate := .new scheduler.clock
  runs := []
  calls := ∅
  accepted := []
  queue := []
  closed := false
  driver := .waiting
  scheduler := scheduler

def retained (s : Session) (j : ℕ) : Option RunResult :=
  s.runs[j]?.bind fun run =>
    run.result.or (if s.gate.lost then some (.error (.supervisorGone run.tick)) else none)

def readGate (s : Session) (call : ℕ) (request : StepRequest) (timeout : Option Duration) : Reply × Session :=
  match s.gate.read s.scheduler.plan request timeout with
  | .error .missed => (.panicked, { s with calls := s.calls.erase call })
  | .error (.failed error) => (.started (.error error), { s with calls := s.calls.erase call })
  | .ok start => (.done, { s with calls := s.calls.insert call (.read start) })

def start (s : Session) (call : ℕ) (request : StepRequest) (timeout : Option Duration) : Option (Reply × Session) :=
  if call ∈ s.calls ∨ s.accepted.any (·.call == call) ∨ s.driver = .abandoned then none
  else if timeout = none ∧ s.isLocal = false then some (.started (.error .invalidTimeout), s)
  else
    match checkedAfter s.horizon s.now timeout with
    | none => some (.started (.error .invalidTimeout), s)
    | some _ => some (s.readGate call request timeout)

def retry (s : Session) (call : ℕ) : Option (Reply × Session) :=
  match s.calls[call]? with
  | some (.retry request timeout) => some (s.readGate call request timeout)
  | _ => none

def accept (s : Session) (call : ℕ) : Option (Reply × Session) :=
  match s.calls[call]? with
  | some (.read start) =>
    match s.gate.accept s.horizon s.now start with
    | .error error => some (.started (.error error), { s with calls := s.calls.erase call })
    | .ok none => some (.done, { s with calls := s.calls.insert call (.retry start.request start.timeout) })
    | .ok (some (gate, run)) => some (.accepted run.id.sequence,
        { s with
          gate := gate
          runs := s.runs ++ [run]
          calls := s.calls.erase call
          accepted := s.accepted ++ [⟨call, run.id.sequence, start.request⟩] })
  | _ => none

def handOver (s : Session) (call : ℕ) : Option (Reply × Session) :=
  match s.accepted.find? (·.call == call) with
  | none => none
  | some pending =>
    let rest := s.accepted.filter (·.call != call)
    if s.closed then
      some (.started (.error .supervisorGone), { s with gate := s.gate.disappear, accepted := rest })
    else
      some (.started (.ok pending.run),
        { s with accepted := rest, queue := s.queue ++ [(pending.run, pending.request)] })

def cancel (s : Session) (j : ℕ) : Option (Reply × Session) :=
  match s.runs[j]? with
  | none => none
  | some run =>
    let (status, run) := s.gate.cancel run
    some (.cancelled status, { s with runs := s.runs.set j run })

def collapse (s : Session) (fault : Option StepFailure) : Session :=
  { s with
    scheduler := { s.scheduler with fault := fault }
    gate := s.gate.disappear
    closed := true
    driver := .gone }

def failRun (s : Session) (j : ℕ) (failure : StepFailure) (override : Option StepFailureKind) : Session :=
  let (reported, scheduler) := s.scheduler.interrupted (override.getD failure.kind)
  { s with scheduler := scheduler, driver := .failing j (reported.getD failure) }

def interruptRun (s : Session) (j : ℕ) (run : Run) (kind : StepFailureKind) : Session :=
  match s.scheduler.interrupted kind with
  | (some failure, scheduler) => { s with scheduler := scheduler, driver := .failing j failure }
  | (none, scheduler) => { s with scheduler := scheduler, driver := .ending j (beforeDispatch run kind) }

def receive (s : Session) : Option (Reply × Session) :=
  match s.driver, s.queue with
  | .waiting, (j, request) :: rest => some (.done, { s with queue := rest, driver := .taken j request })
  | _, _ => none

def drain (s : Session) : Option (Reply × Session) :=
  match s.driver with
  | .waiting =>
    if s.gate.stopped || s.gate.lost then
      let s := { s with gate := s.gate.markStop, closed := true }
      match s.queue with
      | [] => some (.done, { s with driver := .returned })
      | (j, request) :: rest => some (.done, { s with queue := rest, driver := .taken j request })
    else none
  | _ => none

def abandon (s : Session) : Option (Reply × Session) :=
  match s.driver, s.queue, s.accepted with
  | .waiting, [], [] => if s.calls = ∅ then some (.done, { s with driver := .abandoned }) else none
  | _, _, _ => none

def leave (s : Session) : Option (Reply × Session) :=
  match s.driver with
  | .abandoned => if s.gate.stopped || s.gate.lost then some (.done, { s with driver := .returned }) else none
  | _ => none

def begin (s : Session) : Option (Reply × Session) :=
  match s.driver with
  | .taken j request =>
    match s.runs[j]? with
    | none => none
    | some run =>
      match s.scheduler.begin request with
      | .ok adv => some (.begun run, { s with driver := .running j adv s.scheduler.plan.order none })
      | .error .missed => some (.begun run, s.collapse s.scheduler.fault)
      | .error (.failed (.request _)) => some (.begun run, { s with gate := s.gate.disappear, driver := .stopping })
      | .error (.failed (.failed failure)) => some (.begun run, s.failRun j failure none)
      | .error (.failed (.faulted failure)) => some (.begun run, s.failRun j failure none)
  | _ => none

def dispatch (s : Session) : Option (Reply × Session) :=
  match s.driver with
  | .running j adv (inst :: rest) none =>
    match (s.scheduler.gather adv.request (fun output => adv.outputs[output]?) inst :
        Except (Abort StepFailure) StepInputs) with
    | .error _ => some (.done, s.collapse (adv.unwound s.scheduler.fault))
    | .ok inputs => some (.dispatched j adv.request.tick inst inputs,
        { s with driver := .running j (adv.dispatch inst) rest (some inst) })
  | _ => none

def answer (s : Session) (outcome : NodeOutcome) (override : Option StepFailureKind) : Option (Reply × Session) :=
  match s.driver with
  | .running j adv rest (some inst) =>
    match adv.complete s.scheduler.plan.graph.nodes inst outcome with
    | .ok adv => some (.done, { s with driver := .running j adv rest none })
    | .error .missed => some (.done, s.collapse (adv.unwound s.scheduler.fault))
    | .error (.failed failure) =>
      some (.done, { s with scheduler := s.scheduler.fail failure }.failRun j failure override)
  | _ => none

def commit (s : Session) : Option (Reply × Session) :=
  match s.driver with
  | .running j adv [] none =>
    match s.runs[j]?, (s.scheduler.retain adv.outputs : Except (Abort StepFailure) (Map StepOutput StepValue)) with
    | none, _ => none
    | some _, .error _ => some (.done, s.collapse (adv.unwound s.scheduler.fault))
    | some run, .ok previous =>
      match s.gate.commit run s.now (StepScheduler.receipt adv) (s.scheduler.committedClock adv) with
      | .error kind =>
        some (.done, { s with scheduler := s.scheduler.fail (adv.refused kind) }.failRun j (adv.refused kind) none)
      | .ok (gate, run) => some (.done,
          { s with
            gate := gate
            runs := s.runs.set j run
            scheduler := s.scheduler.applyCommit adv previous
            driver := .waiting })
  | _ => none

def interrupt (s : Session) : Option (Reply × Session) :=
  match s.driver with
  | .taken j _ => do
    let run ← s.runs[j]?
    let kind ← s.gate.interruption run s.now
    return (.done, s.interruptRun j run kind)
  | .running j adv _ _ => do
    let run ← s.runs[j]?
    let kind ← s.gate.interruption run s.now
    let scheduler := { s.scheduler with fault := adv.dropped s.scheduler.fault }
    return (.done, { s with scheduler := scheduler }.interruptRun j run kind)
  | _ => none

def finish (s : Session) : Option (Reply × Session) :=
  match s.driver with
  | .failing j failure => do
    let run ← s.runs[j]?
    let clock := { s.scheduler.clock with phase := .faulted failure }
    let (gate, run) := s.gate.finish run (.error (.failed failure)) clock
    return (.done, { s with gate := gate, runs := s.runs.set j run, driver := .stopping })
  | .ending j error => do
    let run ← s.runs[j]?
    let (gate, run) := s.gate.finish run (.error error) s.scheduler.clock
    return (.done, { s with gate := gate, runs := s.runs.set j run, driver := .waiting })
  | _ => none

def halt (s : Session) : Option (Reply × Session) :=
  match s.driver with
  | .stopping => some (.done, { s with gate := s.gate.markStop, driver := .returned })
  | _ => none

def exit (s : Session) : Option (Reply × Session) :=
  match s.driver with
  | .returned => some (.done, { s with closed := true, driver := .gone })
  | _ => none

def abort (s : Session) : Option (Reply × Session) :=
  match s.driver with
  | .gone => none
  | .running _ adv _ _ => some (.done, s.collapse (adv.dropped s.scheduler.fault))
  | _ => some (.done, s.collapse s.scheduler.fault)

def step (s : Session) : Event → Option (Reply × Session)
  | .start call request timeout => s.start call request timeout
  | .retry call => s.retry call
  | .accept call => s.accept call
  | .handOver call => s.handOver call
  | .cancel j => s.cancel j
  | .stop => some (.done, { s with gate := s.gate.markStop })
  | .activate => some (.done, { s with gate := s.gate.activate })
  | .clock => some (.clock s.gate.snapshot, s)
  | .elapse nanos => some (.done, { s with now := s.now + nanos })
  | .receive => s.receive
  | .drain => s.drain
  | .abandon => s.abandon
  | .leave => s.leave
  | .begin => s.begin
  | .dispatch => s.dispatch
  | .answer outcome override => s.answer outcome override
  | .commit => s.commit
  | .interrupt => s.interrupt
  | .finish => s.finish
  | .halt => s.halt
  | .exit => s.exit
  | .abort => s.abort

abbrev run (s : Session) (events : List Event) : Option (List Reply × Session) := Machine.run step s events

end Session

end Reiny.Step
