import Mathlib.Data.String.Basic
import Reiny.Bindings.Contract
import Reiny.Lib.Maps

namespace Reiny.Bindings

open Std Lib Results Maps Step

inductive PortEndpoint
  | input (sources : List EndpointAddress)
  | output (address : EndpointAddress)
deriving DecidableEq

structure ResponseReport where
  typeName : String
  schema : UInt64
deriving DecidableEq

structure PortReport where
  endpoint : PortEndpoint
  typeName : String
  schema : UInt64
  contract : EndpointContract
  response : Option ResponseReport
deriving DecidableEq

structure ModuleReport where
  version : ℕ
  fingerprintVersion : ℕ
  namespace_ : String
  endpointNamespace : String
  inputs : Map String PortReport
  outputs : Map String PortReport
deriving DecidableEq

structure ReportEntry where
  bindings : ModuleBindings
  report : ModuleReport

inductive ReportErrorCode
  | emptyGraph
  | invalidBindings
  | unsupportedGraphMember
  | duplicateNamespace
  | reportVersion
  | fingerprintVersion
  | namespace_
  | endpointNamespace
  | portSet
  | endpoint
  | contract
  | type
  | response
  | missingSourceModule
  | missingSourcePort
  | schema
  | policy
  | semantics
deriving DecidableEq

inductive ReportPortSide
  | input
  | output
deriving DecidableEq

structure ReportError where
  code : ReportErrorCode
  module : Option String
  side : Option ReportPortSide
  port : Option String
  source : Option EndpointAddress
  detail : String
deriving DecidableEq

namespace ReportError

def new (code : ReportErrorCode) (module : Option String) (detail : String) : ReportError :=
  ⟨code, module, none, none, none, detail⟩

def at_ (error : ReportError) (side : ReportPortSide) (port : String) : ReportError :=
  { error with side := some side, port := some port }

end ReportError

structure Declared where
  name : String
  contract : EndpointContract
  sources : Option (List EndpointAddress)

namespace ReportEntry

variable (entry : ReportEntry)

def actual : ReportPortSide → Map String PortReport
  | .input => entry.report.inputs
  | .output => entry.report.outputs

def declared : ReportPortSide → List Declared
  | .input => entry.bindings.inputs.toList.map fun (name, binding) => ⟨name, binding.contract, some binding.sources⟩
  | .output => entry.bindings.outputs.toList.map fun (name, binding) => ⟨name, binding.contract, none⟩

def declares (name : String) : ReportPortSide → Bool
  | .input => entry.bindings.inputs.contains name
  | .output => entry.bindings.outputs.contains name

def portDifference (side : ReportPortSide) : Option String :=
  let missing := ((entry.declared side).find? fun port => !(entry.actual side).contains port.name).map (·.name)
  let extra := (entry.actual side).keys.find? fun name => !entry.declares name side
  (missing.toList ++ extra.toList).min?

def endpointMatches (declared : Declared) : PortEndpoint → Bool
  | .input actual => declared.sources = some actual
  | .output address =>
    declared.sources.isNone && address.namespace_ == entry.bindings.endpointNamespace && address.port
      == declared.name

end ReportEntry

def responseMatches (contract : EndpointContract) (response : Option ResponseReport) : Bool :=
  match contract.kind, contract.response, response with
  | .stream, none, none => true
  | .rpc, some expected, some response => expected == response.typeName
  | _, _, _ => false

abbrev Validated := Except (Abort ReportError) Unit

def ReportEntry.error (entry : ReportEntry) (code : ReportErrorCode) (detail : String) : Abort ReportError :=
  .failed (.new code (some entry.bindings.namespace_) detail)

def ReportEntry.portError (entry : ReportEntry) (side : ReportPortSide) (name : String) (code : ReportErrorCode)
    (detail : String) : Abort ReportError :=
  .failed ((ReportError.new code (some entry.bindings.namespace_) detail).at_ side name)

def checkPortSet (entry : ReportEntry) (side : ReportPortSide) : Option String → Validated
  | none => .ok ()
  | some name => .error (entry.portError side name .portSet "declared and compiled port sets differ")

def checkPort (entry : ReportEntry) (side : ReportPortSide) (declared : Declared) : Validated := do
  let error := entry.portError side declared.name
  let port ← index (entry.actual side) declared.name
  ensure (entry.endpointMatches declared port.endpoint = true)
    (error .endpoint "compiled endpoint differs from its binding")
  ensure (port.contract = declared.contract) (error .contract "effective contract differs from its declaration")
  ensure (port.typeName = declared.contract.typeName) (error .type "compiled message or request name differs")
  ensure (responseMatches declared.contract port.response = true)
    (error .response "compiled response shape or name differs")

def validatePorts (entry : ReportEntry) (side : ReportPortSide) : Validated := do
  checkPortSet entry side (entry.portDifference side)
  (entry.declared side).forM (checkPort entry side)

def checkBindings (entry : ReportEntry) : Validated :=
  match entry.bindings.validate with
  | .ok () => .ok ()
  | .error failure => .error (entry.error .invalidBindings failure.message)

def validateReport (entry : ReportEntry) : Validated := do
  checkBindings entry
  ensure (entry.report.version = MODULE_REPORT_VERSION) (entry.error .reportVersion "unsupported report version")
  ensure (entry.report.fingerprintVersion = SCHEMA_FINGERPRINT_VERSION)
    (entry.error .fingerprintVersion "unsupported fingerprint version")
  ensure (entry.report.namespace_ = entry.bindings.namespace_)
    (entry.error .namespace_ "report namespace differs from bindings")
  ensure (entry.report.endpointNamespace = entry.bindings.endpointNamespace)
    (entry.error .endpointNamespace "report endpoint namespace differs from bindings")
  validatePorts entry .input
  validatePorts entry .output

abbrev Modules := Map String ModuleReport

def register (modules : Modules) (entry : ReportEntry) : Except (Abort ReportError) Modules := do
  ensure (entry.bindings.namespace_ = entry.bindings.endpointNamespace)
    (entry.error .unsupportedGraphMember "aggregate an owned child's report into its parent")
  ensure (entry.bindings.namespace_ ∉ modules) (entry.error .duplicateNamespace "module namespace is repeated")
  return modules.insert entry.bindings.namespace_ entry.report

def checkResponses (error : ReportErrorCode → String → Abort ReportError) :
    Option ResponseReport → Option ResponseReport → Validated
  | none, none => .ok ()
  | some expected, some actual => do
    ensure (expected.typeName = actual.typeName) (error .response "source response name differs")
    ensure (expected.schema = actual.schema) (error .schema "source response fingerprint differs")
  | _, _ => .error (error .response "source response shape differs")

def ReportEntry.edgeError (entry : ReportEntry) (name : String) (address : EndpointAddress) (code : ReportErrorCode)
    (detail : String) : Abort ReportError :=
  .failed { (ReportError.new code (some entry.bindings.namespace_) detail).at_ .input
    name with source := some address }

def checkEdge (modules : Modules) (entry : ReportEntry) (name : String) (input : PortReport)
    (address : EndpointAddress) : Validated := do
  let error := entry.edgeError name address
  let source ← ofOption modules[address.namespace_]? (error .missingSourceModule "source module is absent")
  let output ← ofOption source.outputs[address.port]? (error .missingSourcePort "source output is absent")
  ensure (input.typeName = output.typeName) (error .type "source message or request name differs")
  ensure (input.schema = output.schema) (error .schema "source message or request fingerprint differs")
  ensure (input.contract.kind = output.contract.kind) (error .policy "source endpoint kind differs")
  ensure (input.contract.semantics = output.contract.semantics)
    (error .semantics "source semantic assertions differ")
  checkResponses error input.response output.response
  ensure (¬ (input.contract.replay = .last ∧ output.contract.retention = .volatile))
    (error .policy "source does not retain replayable samples")

def checkInputEdges (modules : Modules) (entry : ReportEntry) (binding : String × InputBinding) : Validated := do
  let input ← index entry.report.inputs binding.1
  binding.2.sources.forM (checkEdge modules entry binding.1 input)

def checkEntryEdges (modules : Modules) (entry : ReportEntry) : Validated :=
  entry.bindings.inputs.toList.forM (checkInputEdges modules entry)

def validateGraph (entries : List ReportEntry) : Validated := do
  ensure (entries ≠ []) (.failed (.new .emptyGraph none "a closed graph requires a module"))
  entries.forM validateReport
  let modules ← entries.foldlM register ∅
  entries.forM (checkEntryEdges modules)

end Reiny.Bindings
