import Reiny.Process.StepPlan

namespace Reiny.Process

open Std Lib Results Maps Checked Step Bindings

structure StepAssignment where
  schema : WireSchema
  contract : Bytes
  seedOutputs : ExtTreeSet String

structure ProcessStepPeer where
  identity : SessionIdentity
  hostId : String
  assignments : List ModuleBindings
  steps : Map String StepAssignment

abbrev Prepares := Except PrepareError

structure Assigned where
  steps : Map String StepAssignment
  instances : ExtTreeSet String
  hosts : ExtTreeSet String

def addInstance (instances : ExtTreeSet String) (bindings : ModuleBindings) : Prepares (ExtTreeSet String) := do
  ensure (bindings.namespace_ ∉ instances) (.message "duplicate instance")
  return instances.insert bindings.namespace_

def addStep (plan : ProcessStepPlan) (peer : ProcessStepPeer) (steps : Map String StepAssignment)
    (entry : String × StepAssignment) : Prepares (Map String StepAssignment) := do
  ensure (entry.1 ∈ peer.assignments.map (·.namespace_) ∧ entry.1 ∉ steps) (.message "step assignment mismatch")
  ensure (plan.nodes[entry.1]?.any (fun schema => exportSchema schema = entry.2.schema) = true)
    (.message "assigned schema mismatch")
  let _ ← (importSchema entry.2.schema).mapError .process
  return steps.insert entry.1 entry.2

def addPeer (plan : ProcessStepPlan) (key : StepSessionKey) (assigned : Assigned) (peer : ProcessStepPeer) :
    Prepares Assigned := do
  ensure (peer.identity = ⟨key.ownerGeneration, key.graphGeneration, key.graphDigest⟩) (.message "session mismatch")
  ensure (peer.hostId ∉ assigned.hosts) (.message "duplicate host")
  let instances ← peer.assignments.foldlM addInstance assigned.instances
  let steps ← peer.steps.toList.foldlM (addStep plan peer) assigned.steps
  return ⟨steps, instances, assigned.hosts.insert peer.hostId⟩

def checkSeed (assigned : Assigned) (entry : StepInput × ProcessStepSource) : Prepares Unit :=
  match entry.2 with
  | .previousTick _ (.preparedOutput output) =>
    ensure (assigned.steps[output.inst]?.any (fun assignment => assignment.seedOutputs.contains output.port) = true)
      (.message "unauthorized prepared seed")
  | _ => .ok ()

def validateAssignments (peers : List ProcessStepPeer) (plan : ProcessStepPlan) (key : StepSessionKey) :
    Prepares Unit := do
  plan.validate
  let assigned ← peers.foldlM (addPeer plan key) ⟨∅, ∅, ∅⟩
  ensure (assigned.steps.size = plan.nodes.size) (.message "incomplete placement")
  plan.inputs.toList.forM (checkSeed assigned)

inductive HostMessage
  | report (report : ModuleReport)
  | steps (report : StepPreparedReport)
  | stepEvent
  | preparedComplete
  | other

structure CollectedReports where
  steps : Map String StepPreparedReport
  ordinary : Map String ModuleReport
  budget : ℕ

structure Collecting where
  reports : CollectedReports
  actual : ExtTreeSet String
  ordinaryActual : ExtTreeSet String

def bindingsOf (peer : ProcessStepPeer) : Map String ModuleBindings :=
  Map.of (peer.assignments.map fun bindings => (bindings.namespace_, bindings))

def addOrdinary (peer : ProcessStepPeer) (c : Collecting) (report : ModuleReport) : Prepares Collecting := do
  let expected ← ofOption (bindingsOf peer)[report.namespace_]? (.process invalid)
  (validateReport ⟨expected, report⟩).mapError .report
  ensure (report.namespace_ ∉ c.reports.ordinary) (.message "duplicate ordinary report")
  return { c with
    reports := { c.reports with ordinary := c.reports.ordinary.insert report.namespace_ report }
    ordinaryActual := c.ordinaryActual.insert report.namespace_ }

def chargeOutput (schema : StepSchema) (budget : ℕ) (output : String × WireValue) : Prepares ℕ := do
  let ty ← (importType output.2.ty).mapError .process
  ensure (output.2.bytes.length ≤ MAX_VALUE_BYTES ∧ schema.outputs[output.1]? = some ty)
    (.message "seed schema mismatch")
  (charge budget output.2.bytes.length).mapError .process

def addSteps (peer : ProcessStepPeer) (c : Collecting) (report : StepPreparedReport) : Prepares Collecting := do
  let expected ← ofOption peer.steps[report.inst]? (.process invalid)
  ensure (report.schema = expected.schema ∧ report.contract = expected.contract ∧
    ExtTreeSet.ofList report.outputs.keys = expected.seedOutputs) (.message "prepared contract mismatch")
  let schema ← (importSchema report.schema).mapError .process
  let budget ← report.outputs.toList.foldlM (chargeOutput schema) c.reports.budget
  ensure (report.inst ∉ c.reports.steps) (.message "duplicate step report")
  return { c with
    reports := { c.reports with steps := c.reports.steps.insert report.inst report, budget }
    actual := c.actual.insert report.inst }

def finishReports (peer : ProcessStepPeer) (c : Collecting) : Prepares CollectedReports := do
  ensure (c.actual = ExtTreeSet.ofList peer.steps.keys) (.message "missing prepared step report")
  ensure (c.ordinaryActual = ExtTreeSet.ofList (bindingsOf peer).keys) (.message "missing host ordinary report")
  return c.reports

def collectReports (peer : ProcessStepPeer) : Collecting → List HostMessage → Prepares CollectedReports
  | _, [] => .error (.message "component host disconnected")
  | c, .preparedComplete :: _ => finishReports peer c
  | c, .report report :: rest => do
    let c ← addOrdinary peer c report
    collectReports peer c rest
  | c, .steps report :: rest => do
    let c ← addSteps peer c report
    collectReports peer c rest
  | _, .stepEvent :: _ => .error (.message "unexpected preparation event")
  | _, .other :: _ => .error (.message "host failed during preparation")

def collectAll : CollectedReports → List (ProcessStepPeer × List HostMessage) → Prepares CollectedReports
  | reports, [] => return reports
  | reports, (peer, messages) :: rest => do
    let reports ← collectReports peer ⟨reports, ∅, ∅⟩ messages
    collectAll reports rest

def entriesOf (peers : List ProcessStepPeer) (ordinary : Map String ModuleReport) : List ReportEntry :=
  let bindings : Map String ModuleBindings :=
    peers.foldl (fun all peer => all.insertMany (bindingsOf peer).toList) ∅
  bindings.toList.filterMap fun entry => ordinary[entry.1]?.map fun report => ⟨entry.2, report⟩

def prepareHosts (hosts : List (ProcessStepPeer × List HostMessage)) (budget : ℕ) :
    Prepares (Map String StepPreparedReport) := do
  let reports ← collectAll ⟨∅, ∅, budget⟩ hosts
  (validateGraph (entriesOf (hosts.map Prod.fst) reports.ordinary)).mapError .report
  return reports.steps

def prepare (accept : Map String StepPreparedReport → StepGraph → Prepares Unit)
    (hosts : List (ProcessStepPeer × List HostMessage)) (plan : ProcessStepPlan) (key : StepSessionKey) :
    Prepares Plan := do
  ensure (hosts ≠ [] ∧ hosts.length ≤ MAX_ENTRIES) (.message "invalid peers/budget")
  validateAssignments (hosts.map Prod.fst) plan key
  let budget ← plan.literalBudget.mapError .process
  let reports ← prepareHosts hosts budget
  let graph ← plan.resolve reports
  accept reports graph
  (Plan.compile graph).mapError .plan

end Reiny.Process
