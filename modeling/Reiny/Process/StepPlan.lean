import Reiny.Bindings.Report
import Reiny.Process.StepWire

namespace Reiny.Process

open Std Lib Results Maps Checked Step Bindings

def MAX_RETAINED_BYTES : ℕ := 64 * 1024 * 1024

inductive ProcessStepSeed
  | literal (value : StepValue)
  | preparedOutput (output : StepOutput)
deriving DecidableEq

inductive ProcessStepSource
  | external
  | sameTick (output : StepOutput)
  | previousTick (source : StepOutput) (initial : ProcessStepSeed)
deriving DecidableEq

structure ProcessStepPlan where
  nodes : Map String StepSchema
  inputs : Map StepInput ProcessStepSource

structure StepPreparedReport where
  inst : String
  schema : WireSchema
  contract : Bytes
  outputs : Map String WireValue

inductive PrepareError
  | message (text : String)
  | process (error : ProcessError)
  | plan (error : StepPlanError)
  | report (error : Abort ReportError)
deriving DecidableEq

def charge (budget bytes : ℕ) : Except ProcessError ℕ :=
  ofOption ((checkedAdd U64 budget bytes).filter (· ≤ MAX_RETAINED_BYTES)) invalid

namespace ProcessStepPlan

def chargeLiteral (budget : ℕ) (entry : StepInput × ProcessStepSource) : Except ProcessError ℕ :=
  match entry.2 with
  | .previousTick _ (.literal value) => charge budget value.bytes.length
  | _ => .ok budget

def literalBudget (plan : ProcessStepPlan) : Except ProcessError ℕ := plan.inputs.toList.foldlM chargeLiteral 0

def seedType (nodes : Map String StepSchema) : ProcessStepSeed → Except PrepareError StepType
  | .literal value => do
    ensure (value.bytes.length ≤ MAX_VALUE_BYTES) (.message "oversized initial value")
    return value.stepType
  | .preparedOutput output => ofOption (declaredOutput nodes output) (.message "unknown prepared seed output")

def draftRoute (nodes : Map String StepSchema) (_ : StepInput) : ProcessStepSource → Except PrepareError PlanRoute
  | .external => return ⟨none, none, false⟩
  | .sameTick output => return ⟨some output, none, true⟩
  | .previousTick source initial => do
    let ty ← seedType nodes initial
    return ⟨some source, some ty, false⟩

def draftOrder (plan : ProcessStepPlan) : Except PrepareError (List String) := do
  ensure (plan.nodes.size ≤ MAX_ENTRIES) (.message "too many nodes")
  let _ ← plan.literalBudget.mapError .process
  let routes ← traverse (draftRoute plan.nodes) plan.inputs
  (Plan.validateRoutes plan.nodes routes).mapError .plan

def validate (plan : ProcessStepPlan) : Except PrepareError Unit := do
  let _ ← plan.draftOrder

abbrev Reports := Map String StepPreparedReport

def chargeReport (budget : ℕ) (entry : String × StepPreparedReport) : Except ProcessError ℕ :=
  entry.2.outputs.toList.foldlM (fun budget output => charge budget output.2.bytes.length) budget

def preparedValue (reports : Reports) (output : StepOutput) : Option WireValue :=
  reports[output.inst]?.bind fun report => report.outputs[output.port]?

def resolveSeed (reports : Reports) (budget : ℕ) : ProcessStepSeed → Except PrepareError (StepValue × ℕ)
  | .literal value => do
    let budget ← (charge budget value.bytes.length).mapError .process
    return (value, budget)
  | .preparedOutput output => do
    let wire ← ofOption (preparedValue reports output) (.message "missing authorized prepared seed")
    let budget ← (charge budget wire.bytes.length).mapError .process
    let values ← (importValues (Map.of [(output.port, wire)])).mapError .process
    let value ← ofOption values[output.port]? (.message "missing prepared value")
    return (value, budget)

def resolveSource (reports : Reports) (budget : ℕ) : ProcessStepSource → Except PrepareError (StepSource × ℕ)
  | .external => return (.external, budget)
  | .sameTick source => return (.sameTick source, budget)
  | .previousTick source initial => do
    let (initial, budget) ← resolveSeed reports budget initial
    return (.previousTick source initial, budget)

def resolveInputs (reports : Reports) :
    ℕ → List (StepInput × ProcessStepSource) → Except PrepareError (List (StepInput × StepSource))
  | _, [] => return []
  | budget, (input, source) :: rest => do
    let (source, budget) ← resolveSource reports budget source
    let rest ← resolveInputs reports budget rest
    return (input, source) :: rest

def resolve (plan : ProcessStepPlan) (reports : Reports) : Except PrepareError StepGraph := do
  let budget ← (reports.toList.foldlM chargeReport 0).mapError .process
  let inputs ← resolveInputs reports budget plan.inputs.toList
  return ⟨plan.nodes, Map.of inputs⟩

end ProcessStepPlan

end Reiny.Process
