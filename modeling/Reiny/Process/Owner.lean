import Reiny.Process.Preparation
import Reiny.Step.Flight

namespace Reiny.Process

open Std Lib Results Checked Machine Step

structure StepDispatchContext where
  run : StepRunId
  tick : StepTick
  ordinal : ℕ
  deadline : ℕ

structure DispatchFailure where
  kind : StepFailureKind
  message : String

def lost (message : String) : DispatchFailure := ⟨.workerLost, message⟩

def bounds : DispatchFailure := ⟨.invalidOutputs, "aggregate retained step bytes exceeded"⟩

def ProcessError.text : ProcessError → String
  | ⟨.assignment⟩ => "component host session: Assignment"

inductive StepFailureCode
  | nodeError
  | nodePanicked
  | invalidOutputs
  | cancelled
  | timedOut
  | hostStopped
  | workerLost

structure WireStepFailure where
  code : StepFailureCode
  message : String

def importFailure (failure : WireStepFailure) : DispatchFailure :=
  let kind : StepFailureKind :=
    match failure.code with
    | .nodeError => .nodeError
    | .nodePanicked => .nodePanicked
    | .invalidOutputs => .invalidOutputs
    | .cancelled => .cancelled
    | .timedOut => .timedOut
    | .hostStopped => .hostStopped
    | .workerLost => .workerLost
  ⟨kind, failure.message⟩

/-- What comes back for an invocation: a result, another step message, a message of another kind, or a connection
that broke while sending or receiving. -/
inductive Received
  | result (call : StepCallKey) (outcome : Except WireStepFailure (Map String WireValue))
  | steps
  | other
  | broken (error : String)

def Received.outputs (call : StepCallKey) : Received → Except DispatchFailure StepOutputs
  | .result answered outcome => do
    ensure (answered = call) (lost "unsolicited or mismatched step result")
    let values ← outcome.mapError importFailure
    (importValues values).mapError fun error => lost error.text
  | .steps => .error (lost "unsolicited or mismatched step result")
  | .other => .error (lost "host disappeared during invocation")
  | .broken error => .error (lost error)

structure Adapter where
  run : Option (StepRunId × ℕ)
  ordinal : ℕ
  failure : Option StepFailureKind

namespace Adapter

def begin (_ : Adapter) (run : Run) : Adapter := ⟨run.deadline.map fun deadline => (run.id, deadline), 0, none⟩

def context (adapter : Adapter) (tick : StepTick) : Except DispatchFailure (StepDispatchContext × Adapter) := do
  let (run, deadline) ← ofOption adapter.run (lost "missing owner attempt")
  let next ← ofOption (checkedAdd U32 adapter.ordinal 1) (lost "node ordinal exhausted")
  return (⟨run, tick, adapter.ordinal, deadline⟩, { adapter with ordinal := next })

end Adapter

structure Executor where
  placement : Map String ℕ
  key : StepSessionKey
  delayed : ExtTreeSet StepOutput
  finalOrdinal : ℕ
  runSequence : Option ℕ
  retained : ℕ
  nextPrevious : ℕ

structure Retention where
  bootstrap : ℕ
  previous : ℕ
  available : ℕ

def wireTick (tick : StepTick) : WireTick :=
  ⟨tick.id.epoch, tick.id.index, .ofDuration tick.start, .ofDuration tick.dt, .ofDuration tick.end_⟩

namespace Executor

def invocation (executor : Executor) (context : StepDispatchContext) (inst : String)
    (inputs : StepInputs) (now : ℕ) :
    Except DispatchFailure (ℕ × InvokeStep) := do
  let host ← ofOption executor.placement[inst]? (lost "unassigned node")
  let tick := context.tick
  let call : StepCallKey :=
    ⟨executor.key, tick.id.epoch, context.run.sequence, tick.id.index, context.ordinal, inst⟩
  let inputs ← (exportValues inputs).mapError fun error => lost error.text
  return (host, ⟨call, wireTick tick, inputs, .ofDuration (.ofNanos (context.deadline - now))⟩)

def countFor (executor : Executor) (sequence : ℕ) : Executor :=
  if executor.runSequence = some sequence then executor
  else { executor with runSequence := some sequence, retained := 0, nextPrevious := 0 }

def addOutputs (inst : String) : Executor → List (String × StepValue) → Except DispatchFailure Unit × Executor
  | executor, [] => (.ok (), executor)
  | executor, (port, value) :: rest =>
    match checkedAdd U64 executor.retained value.bytes.length with
    | none => (.error bounds, executor)
    | some retained =>
      let executor := { executor with retained }
      if ⟨inst, port⟩ ∈ executor.delayed then
        match checkedAdd U64 executor.nextPrevious value.bytes.length with
        | none => (.error bounds, executor)
        | some nextPrevious => addOutputs inst { executor with nextPrevious } rest
      else addOutputs inst executor rest

def retainOutputs (executor : Executor) (retention : Retention) (context : StepDispatchContext) (inst : String)
    (outputs : StepOutputs) : Except DispatchFailure Unit × Executor × Retention :=
  match addOutputs inst (executor.countFor context.run.sequence) outputs.toList with
  | (.error failure, executor) => (.error failure, executor, retention)
  | (.ok (), executor) =>
    match checkedAdd U64 executor.retained executor.nextPrevious with
    | none => (.error bounds, executor, retention)
    | some used =>
      if retention.available < used then (.error bounds, executor, retention)
      else if context.ordinal = executor.finalOrdinal then
        (.ok (), executor, { retention with previous := executor.nextPrevious })
      else (.ok (), executor, retention)

end Executor

inductive Call
  | idle
  | waiting (tick : StepTick) (inst : String) (inputs : StepInputs)
  | sent (context : StepDispatchContext) (inst : String) (call : StepCallKey)

structure Owner where
  session : Session
  adapter : Adapter
  executor : Executor
  retention : Retention
  call : Call

inductive OwnerEvent
  | session (event : Event)
  | invoke
  | receive (received : Received)
  | reserve (available : ℕ)

inductive OwnerReply
  | session (reply : Reply)
  | sent (host : ℕ) (invocation : InvokeStep)
deriving DecidableEq

def awaits : Driver → Bool
  | .running _ _ _ (some _) => true
  | _ => false

namespace Owner

def observe (o : Owner) (reply : Reply) (session : Session) : Owner :=
  match reply with
  | .begun run => { o with session, adapter := o.adapter.begin run, call := .idle }
  | .dispatched _ tick inst inputs => { o with session, call := .waiting tick inst inputs }
  | _ => { o with session, call := if awaits session.driver then o.call else .idle }

def drive (o : Owner) : Event → Option (OwnerReply × Owner)
  | .answer _ _ => none
  | event => (o.session.step event).map fun (reply, session) => (.session reply, o.observe reply session)

def answer (o : Owner) (outcome : NodeOutcome) : Option (OwnerReply × Owner) :=
  (o.session.step (.answer outcome o.adapter.failure)).map fun (reply, session) =>
    (.session reply, { o with session, call := .idle })

def fail (o : Owner) (failure : DispatchFailure) : Option (OwnerReply × Owner) :=
  answer { o with adapter := { o.adapter with failure := some failure.kind } } (.error failure.message)

def invoke (o : Owner) : Option (OwnerReply × Owner) :=
  match o.call with
  | .waiting tick inst inputs =>
    match o.adapter.context tick with
    | .error failure => o.fail failure
    | .ok (context, adapter) =>
      match o.executor.invocation context inst inputs o.session.now with
      | .error failure => fail { o with adapter } failure
      | .ok (host, invocation) =>
        some (.sent host invocation, { o with adapter, call := .sent context inst invocation.call })
  | _ => none

def receive (o : Owner) (received : Received) : Option (OwnerReply × Owner) :=
  match o.call with
  | .sent context inst call =>
    match received.outputs call with
    | .error failure => o.fail failure
    | .ok outputs =>
      match o.executor.retainOutputs o.retention context inst outputs with
      | (.error failure, executor, retention) => fail { o with executor, retention } failure
      | (.ok (), executor, retention) => answer { o with executor, retention } (.ok outputs)
  | _ => none

def reserve (o : Owner) (available : ℕ) : Owner := { o with retention := { o.retention with available } }

def step (o : Owner) : OwnerEvent → Option (OwnerReply × Owner)
  | .session event => o.drive event
  | .invoke => o.invoke
  | .receive received => o.receive received
  | .reserve available => some (.session .done, o.reserve available)

abbrev run (o : Owner) (events : List OwnerEvent) : Option (List OwnerReply × Owner) := Machine.run step o events

end Owner

section Preparing

variable {α : Type}

def placementFrom : ℕ → Map String ℕ → List (Map String α) → Map String ℕ
  | _, placement, [] => placement
  | host, placement, part :: rest =>
    placementFrom (host + 1) (placement.insertMany (part.keys.map fun id => (id, host))) rest

def placementOf (parts : List (Map String α)) : Map String ℕ := placementFrom 0 ∅ parts

def addSeed (total : ℕ) (entry : StepInput × StepSource) : Option ℕ :=
  match entry.2 with
  | .previousTick _ initial => checkedAdd U64 total initial.bytes.length
  | .external | .sameTick _ => some total

def bootstrap (graph : StepGraph) : Option ℕ := graph.inputs.toList.foldlM addSeed 0

def delayedSource (entry : StepInput × StepSource) : Option StepOutput :=
  match entry.2 with
  | .previousTick source _ => some source
  | .external | .sameTick _ => none

def delayedSources (graph : StepGraph) : ExtTreeSet StepOutput :=
  .ofList (graph.inputs.toList.filterMap delayedSource)

variable (planDigest : PlanDigest)

/-- The owner of a resolved graph, and the plan it binds its hosts to. `epochs` is the process-wide counter of
epochs. -/
def Owner.prepare (parts : List (Map String α)) (graph : StepGraph) (key : StepSessionKey) (initialTime : Duration)
    (horizon epochs : ℕ) : Prepares (Owner × BoundGraph × ℕ) := do
  let plan ← (Plan.compile graph).mapError .plan
  let bound ← (sealPlan planDigest plan key epochs initialTime).mapError .process
  let seeds ← ofOption (bootstrap graph) (.process invalid)
  ensure (plan.order.length - 1 < U32) (.message "out of range integral type conversion attempted")
  let (scheduler, next) ← (StepScheduler.new graph initialTime epochs).mapError .plan
  let executor : Executor :=
    { placement := placementOf parts
      key := bound.session
      delayed := delayedSources graph
      finalOrdinal := plan.order.length - 1
      runSequence := none
      retained := 0
      nextPrevious := 0 }
  return (⟨.new scheduler false horizon, ⟨none, 0, none⟩, executor, ⟨seeds, 0, 0⟩, .idle⟩, bound, next)

end Preparing

end Reiny.Process
