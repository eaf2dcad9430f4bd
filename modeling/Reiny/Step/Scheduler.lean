import Reiny.Step.Request

namespace Reiny.Step

open Std Lib Results Checked

inductive SchedulerError
  | request (error : StepRequestError)
  | failed (failure : StepFailure)
  | faulted (failure : StepFailure)
deriving DecidableEq

structure StepScheduler where
  plan : Plan
  epoch : ℕ
  nextIndex : ℕ
  time : Duration
  previous : Map StepOutput StepValue
  fault : Option StepFailure
deriving DecidableEq

/-- The progress of a tick between two awaits: the guard's failure record and whether dropping it faults
the epoch. -/
structure Advance where
  request : ValidatedRequest
  outputs : Map StepOutput StepValue
  failure : StepFailure
  armed : Bool
deriving DecidableEq

def invalidOutput (schema : Map String StepType) (outputs : StepOutputs) : Option (String × String) :=
  (schema.toList.findSome? fun entry =>
    match outputs[entry.1]? with
    | none => some (entry.1, "missing declared output")
    | some value => if value.stepType ≠ entry.2 then some (entry.1, "output schema mismatch") else none).or
  ((outputs.keys.find? fun port => !schema.contains port).map fun port => (port, "undeclared output"))

namespace Advance

def new (request : ValidatedRequest) : Advance where
  request := request
  outputs := ∅
  failure :=
    { tick := request.tick.id
      kind := .advanceDropped
      inst := none
      port := none
      attempted := []
      completed := []
      detail := "advance dropped after dispatch; component effects may persist" }
  armed := false

def dispatch (adv : Advance) (inst : String) : Advance :=
  { adv with
    failure := { adv.failure with inst := some inst, attempted := adv.failure.attempted ++ [inst] }
    armed := true }

def absorb (adv : Advance) (inst : String) (outputs : StepOutputs) : Advance :=
  { adv with
    outputs := adv.outputs.insertMany (outputs.toList.map fun entry => (⟨inst, entry.1⟩, entry.2))
    failure := { adv.failure with completed := adv.failure.completed ++ [inst] } }

def complete (adv : Advance) (nodes : Map String StepSchema) (inst : String) (outcome : NodeOutcome) :
    Except (Abort StepFailure) Advance :=
  match catchNode outcome with
  | .error (kind, detail) => .error (.failed { adv.failure with kind := kind, detail := detail })
  | .ok outputs => do
    let schema ← index nodes inst
    match invalidOutput schema.outputs outputs with
    | some (port, detail) =>
      .error (.failed { adv.failure with kind := .invalidOutputs, port := some port, detail := detail })
    | none => .ok (adv.absorb inst outputs)

def refused (adv : Advance) (kind : StepFailureKind) : StepFailure :=
  { adv.failure with kind := kind, detail := "host rejected bookkeeping commit; effects may persist" }

def dropped (adv : Advance) (fault : Option StepFailure) : Option StepFailure :=
  if adv.armed then some adv.failure else fault

def unwound (adv : Advance) (fault : Option StepFailure) : Option StepFailure :=
  if adv.armed then
    some { adv.failure with
      kind := .nodePanicked
      detail := "unwound after dispatch; component effects may persist" }
  else fault

end Advance

namespace StepScheduler

def new (graph : StepGraph) (initialTime : Duration) (epochs : ℕ) : Except StepPlanError (StepScheduler × ℕ) := do
  let plan ← Plan.compile graph
  let next ← ofOption (checkedAdd U64 epochs 1) .epochExhausted
  return (⟨plan, epochs, 0, initialTime, ∅, none⟩, next)

def clock (s : StepScheduler) : ClockSnapshot where
  epoch := s.epoch
  nextIndex := s.nextIndex
  time := s.time
  phase :=
    match s.fault with
    | some failure => .faulted failure
    | none => .ready

def begin (s : StepScheduler) (request : StepRequest) : Except (Abort SchedulerError) Advance :=
  match s.fault with
  | some failure => .error (.failed (.faulted failure))
  | none =>
    match request.validate s.plan s.clock with
    | .error .missed => .error .missed
    | .error (.failed error) => .error (.failed (.request error))
    | .ok valid => .ok (.new valid)

variable {ε : Type}

def sourceValue (s : StepScheduler) (request : ValidatedRequest) (outputs : StepOutput → Option StepValue)
    (input : StepInput) : StepSource → Except (Abort ε) StepValue
  | .external => index request.inputs input
  | .sameTick source => ofOption (outputs source) .missed
  | .previousTick source initial => if s.nextIndex = 0 then .ok initial else index s.previous source

def gather (s : StepScheduler) (request : ValidatedRequest) (outputs : StepOutput → Option StepValue)
    (inst : String) : Except (Abort ε) StepInputs := do
  let inputs ← (s.plan.graph.inputs.toList.filter fun entry => entry.1.inst = inst).mapM fun entry => do
    let value ← s.sourceValue request outputs entry.1 entry.2
    return (entry.1.port, value)
  return .ofList inputs

abbrev Nodes := String → StepTick → StepInputs → NodeOutcome

def runNode (s : StepScheduler) (node : Nodes) (inst : String) (adv : Advance) :
    Except (Abort StepFailure) Unit × Advance :=
  match s.gather adv.request (fun output => adv.outputs[output]?) inst with
  | .error e => (.error e, adv)
  | .ok inputs =>
    let sent := adv.dispatch inst
    match sent.complete s.plan.graph.nodes inst (node inst adv.request.tick inputs) with
    | .error e => (.error e, sent)
    | .ok adv => (.ok (), adv)

def runNodes (s : StepScheduler) (node : Nodes) : List String → Advance → Except (Abort StepFailure) Unit × Advance
  | [], adv => (.ok (), adv)
  | inst :: rest, adv =>
    match s.runNode node inst adv with
    | (.error e, adv) => (.error e, adv)
    | (.ok (), adv) => runNodes s node rest adv

def retain (s : StepScheduler) (outputs : Map StepOutput StepValue) :
    Except (Abort ε) (Map StepOutput StepValue) := do
  let values ← (s.plan.graph.inputs.toList.filterMap fun entry =>
    match entry.2 with
    | .previousTick source _ => some source
    | .external | .sameTick _ => none).mapM fun source => do
      let value ← index outputs source
      return (source, value)
  return .ofList values

def receipt (adv : Advance) : StepReceipt := ⟨adv.request.tick, adv.outputs⟩

def committedClock (s : StepScheduler) (adv : Advance) : ClockSnapshot :=
  ⟨s.epoch, adv.request.nextIndex, adv.request.tick.end_, .ready⟩

def applyCommit (s : StepScheduler) (adv : Advance) (previous : Map StepOutput StepValue) : StepScheduler :=
  { s with previous := previous, time := adv.request.tick.end_, nextIndex := adv.request.nextIndex }

def fail (s : StepScheduler) (failure : StepFailure) : StepScheduler := { s with fault := some failure }

/-- The commit of `advance_controlled`. `control` is the verdict of the host: `none` lets the tick through. -/
def conclude (s : StepScheduler) (adv : Advance) (control : StepReceipt → ClockSnapshot → Option StepFailureKind) :
    Except (Abort SchedulerError) StepReceipt × StepScheduler :=
  match s.retain adv.outputs with
  | .error e => (.error e, { s with fault := adv.unwound s.fault })
  | .ok previous =>
    match control (receipt adv) (s.committedClock adv) with
    | none => (.ok (receipt adv), s.applyCommit adv previous)
    | some kind => (.error (.failed (.failed (adv.refused kind))), s.fail (adv.refused kind))

def advanceControlled (s : StepScheduler) (node : Nodes) (request : StepRequest)
    (control : StepReceipt → ClockSnapshot → Option StepFailureKind) :
    Except (Abort SchedulerError) StepReceipt × StepScheduler :=
  match s.begin request with
  | .error e => (.error e, s)
  | .ok adv =>
    match s.runNodes node s.plan.order adv with
    | (.error (.failed failure), _) => (.error (.failed (.failed failure)), s.fail failure)
    | (.error .missed, adv) => (.error .missed, { s with fault := adv.unwound s.fault })
    | (.ok (), adv) => s.conclude adv control

def advance (s : StepScheduler) (node : Nodes) (request : StepRequest) :
    Except (Abort SchedulerError) StepReceipt × StepScheduler :=
  s.advanceControlled node request fun _ _ => none

def interrupted (s : StepScheduler) (kind : StepFailureKind) : Option StepFailure × StepScheduler :=
  match s.fault with
  | none => (none, s)
  | some failure =>
    let detail :=
      if failure.kind = .advanceDropped then "host interrupted advancement; component effects may persist"
      else failure.detail
    let failure := { failure with kind := kind, detail := detail }
    (some failure, { s with fault := some failure })

end StepScheduler

end Reiny.Step
