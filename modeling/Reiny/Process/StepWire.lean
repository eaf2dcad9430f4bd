import Reiny.Bindings.Contract
import Reiny.Lib.Maps
import Reiny.Process.Protocol
import Reiny.Step.Plan

/-! The wire form of types, schemas, values and step graphs, and what a host checks before it binds a plan. -/

namespace Reiny.Process

open Std Lib Results Maps Checked Step Bindings

def MAX_ENTRIES : ℕ := 1024
def MAX_VALUE_BYTES : ℕ := 1024 * 1024

structure WireSchema where
  inputs : Map String WireStepType
  outputs : Map String WireStepType
deriving DecidableEq

structure WireOutput where
  inst : String
  port : String

inductive WireSource
  | external
  | sameTick (source : WireOutput)
  | previousTick (source : WireOutput) (initial : WireValue)

structure WireRoute where
  inst : String
  port : String
  source : WireSource

structure WireGraph where
  nodes : Map String WireSchema
  inputs : List WireRoute

def isIdentifier : List Char → Bool
  | [] => false
  | c :: rest => (c.isAlpha || c == '_') && rest.all fun c => c.isAlphanum || c == '_'

def isProtobufName (name : String) : Bool := (name.toList.splitOn '.').all isIdentifier

structure EncodedType where
  typeName : String
  fingerprintVersion : ℕ
  fingerprint : UInt64

inductive SchemaError
  | invalidTypeName
  | unsupportedFingerprintVersion (expected received : ℕ)

def EncodedType.new (typeName : String) (fingerprintVersion : ℕ) (fingerprint : UInt64) :
    Except SchemaError EncodedType := do
  ensure (isProtobufName typeName = true) .invalidTypeName
  ensure (fingerprintVersion = SCHEMA_FINGERPRINT_VERSION)
    (.unsupportedFingerprintVersion SCHEMA_FINGERPRINT_VERSION fingerprintVersion)
  return ⟨typeName, fingerprintVersion, fingerprint⟩

def fromEncodedType (ty : EncodedType) : StepType := ⟨ty.typeName, ty.fingerprint, Map.of []⟩

def withSemantics (ty : StepType) (semantics : Map String String) : Except BindingError StepType := do
  validateSemantics semantics
  return { ty with semantics }

def exportType (ty : StepType) : WireStepType :=
  ⟨ty.typeName, SCHEMA_FINGERPRINT_VERSION, ty.fingerprint, ty.semantics⟩

def importType (ty : WireStepType) : Except ProcessError StepType := do
  let encoded ← (EncodedType.new ty.typeName ty.fingerprintVersion ty.fingerprint).mapError fun _ => invalid
  (withSemantics (fromEncodedType encoded) ty.assertions).mapError fun _ => invalid

def exportSchema (schema : StepSchema) : WireSchema :=
  ⟨schema.inputs.map fun _ ty => exportType ty, schema.outputs.map fun _ ty => exportType ty⟩

def importPort (name : String) (ty : WireStepType) : Except ProcessError StepType := do
  ensure (validatePortName name = true) invalid
  importType ty

def importPorts (ports : Map String WireStepType) : Except ProcessError (Map String StepType) := do
  ensure (ports.size ≤ MAX_ENTRIES) invalid
  traverse importPort ports

def importSchema (schema : WireSchema) : Except ProcessError StepSchema := do
  let inputs ← importPorts schema.inputs
  let outputs ← importPorts schema.outputs
  return ⟨inputs, outputs⟩

def exportValue (_ : String) (value : StepValue) : Except ProcessError WireValue := do
  ensure (value.bytes.length ≤ MAX_VALUE_BYTES) invalid
  return ⟨exportType value.stepType, value.bytes⟩

def exportValues (values : StepOutputs) : Except ProcessError (Map String WireValue) := do
  ensure (values.size ≤ MAX_ENTRIES) invalid
  traverse exportValue values

def importValue (_ : String) (value : WireValue) : Except ProcessError StepValue := do
  ensure (value.bytes.length ≤ MAX_VALUE_BYTES) invalid
  let ty ← importType value.ty
  return ⟨ty, value.bytes⟩

def importValues (values : Map String WireValue) : Except ProcessError StepInputs := do
  ensure (values.size ≤ MAX_ENTRIES) invalid
  traverse importValue values

def exportOutput (output : StepOutput) : WireOutput := ⟨output.inst, output.port⟩

def importOutput (output : WireOutput) : StepOutput := ⟨output.inst, output.port⟩

def exportSource : StepSource → Except ProcessError WireSource
  | .external => return .external
  | .sameTick output => return .sameTick (exportOutput output)
  | .previousTick source initial => do
    let values ← exportValues (Map.of [("initial", initial)])
    let initial ← ofOption values["initial"]? invalid
    return .previousTick (exportOutput source) initial

def importSource : WireSource → Except ProcessError StepSource
  | .external => return .external
  | .sameTick source => return .sameTick (importOutput source)
  | .previousTick source initial => do
    let values ← importValues (Map.of [("initial", initial)])
    let initial ← ofOption values["initial"]? invalid
    return .previousTick (importOutput source) initial

def exportRoute (entry : StepInput × StepSource) : Except ProcessError WireRoute := do
  let source ← exportSource entry.2
  return ⟨entry.1.inst, entry.1.port, source⟩

def importRoute (route : WireRoute) : Except ProcessError (StepInput × StepSource) := do
  let source ← importSource route.source
  return (⟨route.inst, route.port⟩, source)

def exportGraph (graph : StepGraph) : Except ProcessError WireGraph := do
  let inputs ← graph.inputs.toList.mapM exportRoute
  return ⟨graph.nodes.map fun _ schema => exportSchema schema, inputs⟩

def importGraph (graph : WireGraph) : Except ProcessError StepGraph := do
  ensure (graph.nodes.size ≤ MAX_ENTRIES ∧ graph.inputs.length ≤ MAX_ENTRIES * MAX_ENTRIES) invalid
  let nodes ← traverse (fun _ schema => importSchema schema) graph.nodes
  let inputs ← graph.inputs.foldlM (insertNew importRoute invalid) (Map.of [])
  return ⟨nodes, inputs⟩

section Binding

structure BoundGraph extends BoundSteps where
  graph : WireGraph

structure SessionIdentity where
  ownerGeneration : ℕ
  graphGeneration : ℕ
  graphDigest : String
deriving DecidableEq

abbrev PlanDigest := WireGraph → WireDuration → Except ProcessError String

variable (planDigest : PlanDigest)

def sealPlan (plan : Plan) (key : StepSessionKey) (epoch : ℕ) (initialTime : Duration) :
    Except ProcessError BoundGraph := do
  let graph ← exportGraph plan.graph
  let digest ← planDigest graph (.ofDuration initialTime)
  return ⟨⟨{ key with planDigest := digest }, epoch, .ofDuration initialTime, plan.order⟩, graph⟩

def recompile (bound : BoundGraph) : Except ProcessError Plan := do
  let graph ← importGraph bound.graph
  (Plan.compile graph).mapError fun _ => invalid

def bind (identity : SessionIdentity) (schemas : Map String StepSchema) (bound : BoundGraph) :
    Except ProcessError BoundGraph := do
  let validated ← recompile bound
  ensure (bound.session.ownerGeneration = identity.ownerGeneration ∧
    bound.session.graphGeneration = identity.graphGeneration ∧ bound.session.graphDigest = identity.graphDigest ∧
    bound.order.length ≤ MAX_ENTRIES ∧ bound.order.Nodup ∧ (∀ id ∈ schemas.keys, id ∈ bound.order) ∧
    (∀ entry ∈ schemas.toList, validated.graph.nodes[entry.1]? = some entry.2) ∧
      validated.order = bound.order) invalid
  let digest ← planDigest bound.graph bound.initialTime
  ensure (digest = bound.session.planDigest) invalid
  let _ ← bound.initialTime.duration.mapError fun _ => invalid
  return bound

end Binding

end Reiny.Process
