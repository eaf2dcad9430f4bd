import Reiny.Lib.Checked
import Reiny.Step.Graph

namespace Reiny.Step

open Std Lib.Checked

structure StepId where
  epoch : ℕ
  index : ℕ
deriving DecidableEq

structure StepTick where
  id : StepId
  start : Duration
  dt : Duration
  end_ : Duration
deriving DecidableEq

structure StepReceipt where
  tick : StepTick
  outputs : Map StepOutput StepValue
deriving DecidableEq

inductive StepFailureKind
  | nodeError
  | nodePanicked
  | invalidOutputs
  | cancelled
  | timedOut
  | hostStopped
  | workerLost
  | advanceDropped
deriving DecidableEq

structure StepFailure where
  tick : StepId
  kind : StepFailureKind
  inst : Option String
  port : Option String
  attempted : List String
  completed : List String
  detail : String
deriving DecidableEq

inductive ClockPhase
  | starting
  | ready
  | running (tick : StepId)
  | faulted (failure : StepFailure)
  | stopped
deriving DecidableEq

structure ClockSnapshot where
  epoch : ℕ
  nextIndex : ℕ
  time : Duration
  phase : ClockPhase
deriving DecidableEq

inductive NodeOutcome
  | ok (outputs : StepOutputs)
  | error (message : String)
  | panicked (detail : String)

def catchNode : NodeOutcome → Except (StepFailureKind × String) StepOutputs
  | .ok outputs => .ok outputs
  | .error message => .error (.nodeError, message)
  | .panicked detail => .error (.nodePanicked, detail)

end Reiny.Step
