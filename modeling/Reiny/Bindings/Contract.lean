import Reiny.Lib.Results
import Reiny.Step.Graph

namespace Reiny.Bindings

open Std Lib Results Step

def MODULE_BINDINGS_VERSION : ℕ := 3

def MODULE_REPORT_VERSION : ℕ := 3

def SCHEMA_FINGERPRINT_VERSION : ℕ := 2

inductive PortKind
  | stream
  | rpc
deriving DecidableEq

inductive QosProfile
  | default
  | command
  | sensor
deriving DecidableEq

inductive Retention
  | volatile
  | last
deriving DecidableEq

inductive Replay
  | live
  | last
deriving DecidableEq

inductive ReceiveBuffer
  | fifo
  | latest (depth : ℕ)
deriving DecidableEq

structure EndpointContract where
  semantics : Map String String
  typeName : String
  kind : PortKind
  response : Option String
  qos : QosProfile
  retention : Retention
  replay : Replay
  buffer : ReceiveBuffer
deriving DecidableEq

structure PortDelegation where
  inputs : List String
  outputs : List String
deriving DecidableEq

structure EndpointAddress where
  namespace_ : String
  port : String
deriving DecidableEq

instance : Ord EndpointAddress :=
  ⟨compareLex (compareOn EndpointAddress.namespace_) (compareOn EndpointAddress.port)⟩

instance : TransOrd EndpointAddress :=
  inferInstanceAs (TransCmp (compareLex (compareOn EndpointAddress.namespace_) (compareOn EndpointAddress.port)))

structure InputBinding where
  contract : EndpointContract
  sources : List EndpointAddress
deriving DecidableEq

structure OutputBinding where
  contract : EndpointContract
deriving DecidableEq

structure ModuleBindings where
  version : ℕ
  namespace_ : String
  endpointNamespace : String
  inputs : Map String InputBinding
  outputs : Map String OutputBinding
  children : Map String PortDelegation
  executables : List String
deriving DecidableEq

structure BindingError where
  message : String
deriving DecidableEq

def require (condition : Prop) [Decidable condition] (message : String) : Except BindingError Unit :=
  ensure condition ⟨message⟩

def isDots (value : List Char) : Bool := value == ['.'] || value == ['.', '.']

def isTypeName (value : String) : Bool :=
  (value.toList.splitOn '.').all fun part => !part.isEmpty && part.all fun c => c.isAlphanum || c == '_'

def isBlank (value : String) : Bool := value.toList.all isWhitespace

def validateSemantics (semantics : Map String String) : Except BindingError Unit :=
  require (∀ entry ∈ semantics.toList, isBlank entry.1 = false ∧ isBlank entry.2 = false)
    "semantic assertion keys and values must not be blank"

def EndpointAddress.validate (address : EndpointAddress) : Except BindingError Unit := do
  require (validateNamespace address.namespace_ = true) "invalid module namespace"
  require (validatePortName address.port = true) "invalid endpoint name"

namespace EndpointContract

def validateKind (contract : EndpointContract) : Except BindingError Unit :=
  match contract.kind with
  | .stream => require (contract.response = none) "stream cannot declare a response"
  | .rpc => do
    require (contract.response.any isTypeName = true) "RPC requires a valid response type"
    require (contract.qos = .default ∧ contract.retention = .volatile ∧ contract.replay = .live ∧
      contract.buffer = .fifo) "stream policies do not apply to RPC"

def validate (contract : EndpointContract) (input : Bool) : Except BindingError Unit := do
  validateSemantics contract.semantics
  require (isTypeName contract.typeName = true) "invalid endpoint type"
  require (contract.buffer ≠ .latest 0) "latest buffer depth must be positive"
  require (input = false ∨ contract.qos = .default ∧ contract.retention = .volatile)
    "qos and retention belong to outputs"
  require (input = true ∨ contract.replay = .live ∧ contract.buffer = .fifo) "replay and buffer belong to inputs"
  contract.validateKind

structure Shape where
  typeName : String
  response : Option String
  rpc : Bool
  semantics : Map String String
deriving DecidableEq

def shape (contract : EndpointContract) : Shape :=
  ⟨contract.typeName, contract.response, contract.kind = .rpc, contract.semantics⟩

end EndpointContract

namespace ModuleBindings

def ownsEndpoint (bindings : ModuleBindings) : Bool :=
  bindings.namespace_ == bindings.endpointNamespace ||
    (bindings.namespace_.toList.dropPrefix? (bindings.endpointNamespace ++ "/owned/").toList).any fun child =>
      !child.isEmpty && !child.contains '/'

def checkExecutable (seen : List String) (executable : String) : Except BindingError (List String) := do
  require (segment executable.toList = true ∧ isDots executable.toList = false ∧ executable ∉ seen)
    "invalid or duplicate executable"
  return executable :: seen

abbrev Addresses := Map EndpointAddress EndpointContract.Shape

def checkShape (shape : EndpointContract.Shape) : Option EndpointContract.Shape → Except BindingError Unit
  | none => .ok ()
  | some previous => require (previous = shape) "incompatible contracts for one source endpoint"

def checkSource (contract : EndpointContract) (state : List EndpointAddress × Addresses)
    (source : EndpointAddress) : Except BindingError (List EndpointAddress × Addresses) := do
  source.validate
  require (source ∉ state.1) "duplicate input source"
  checkShape contract.shape state.2[source]?
  return (source :: state.1, state.2.insert source contract.shape)

def checkInput (addresses : Addresses) (entry : String × InputBinding) : Except BindingError Addresses := do
  require (validatePortName entry.1 = true) "invalid endpoint name"
  entry.2.contract.validate true
  require (entry.2.sources ≠ []) "input requires exact sources"
  require (entry.2.contract.kind ≠ .rpc ∨ entry.2.sources.length = 1) "RPC input requires exactly one source"
  let state ← entry.2.sources.foldlM (checkSource entry.2.contract) ([], addresses)
  return state.2

def checkOutput (entry : String × OutputBinding) : Except BindingError Unit := do
  require (validatePortName entry.1 = true) "invalid endpoint name"
  entry.2.contract.validate false

def checkDelegated (bindings : ModuleBindings) (delegated : List (String × Bool)) (port : String × Bool) :
    Except BindingError (List (String × Bool)) := do
  require (if port.2 then port.1 ∈ bindings.inputs else port.1 ∈ bindings.outputs)
    "child delegates undefined endpoint"
  require (port ∉ delegated) "endpoint delegated more than once"
  return port :: delegated

def checkChild (bindings : ModuleBindings) (delegated : List (String × Bool)) (entry : String × PortDelegation) :
    Except BindingError (List (String × Bool)) := do
  require (segment entry.1.toList = true ∧ isDots entry.1.toList = false) "invalid owned child name"
  (entry.2.inputs.map (·, true) ++ entry.2.outputs.map (·, false)).foldlM bindings.checkDelegated delegated

def validateDelegations (bindings : ModuleBindings) : Except BindingError Unit := do
  let _ ← bindings.children.toList.foldlM bindings.checkChild []

def validate (bindings : ModuleBindings) : Except BindingError Unit := do
  require (bindings.version = MODULE_BINDINGS_VERSION) "unsupported module bindings version"
  require (validateNamespace bindings.namespace_ = true) "invalid module namespace"
  require (validateNamespace bindings.endpointNamespace = true) "invalid module namespace"
  require (bindings.ownsEndpoint = true) "endpoint namespace must be the module or its owning host"
  require (bindings.namespace_ = bindings.endpointNamespace ∨ bindings.children.isEmpty = true)
    "owned children cannot delegate endpoints"
  let _ ← bindings.executables.foldlM checkExecutable []
  let _ ← bindings.inputs.toList.foldlM checkInput ∅
  bindings.outputs.toList.forM checkOutput
  bindings.validateDelegations

end ModuleBindings

end Reiny.Bindings
