import Reiny.Bindings.Report

namespace Reiny.Launch

open Std Lib Results Step Bindings

def MODULE_MANIFEST_VERSION : ℕ := 3

/-- `other` stands for what the file system, the parser or the acquisition of a source reports. -/
inductive ModuleError
  | invalid (module message : String)
  | reference (module reference message : String)
  | typeMismatch (port expected actual : String)
  | cycle (path : String)
  | other (message : String)

inductive PortSources
  | one (source : String)
  | many (sources : List String)

def PortSources.references : PortSources → List String
  | one source => [source]
  | many sources => sources

structure PortSpec where
  semantics : Map String String
  typeName : String
  from_ : Option PortSources
  kind : PortKind
  response : Option String
  qos : QosProfile
  retention : Retention
  replay : Replay
  buffer : ReceiveBuffer

def PortSpec.contract (port : PortSpec) : EndpointContract :=
  ⟨port.semantics, port.typeName, port.kind, port.response, port.qos, port.retention, port.replay, port.buffer⟩

structure PortConnection where
  typeName : String
  from_ : Option PortSources

inductive ModuleSource
  | local_ (path : String)
  | git (repository : String)

structure ModuleCall where
  source : ModuleSource
  providers : Map String String
  inputs : Map String PortConnection
  outputs : Map String PortConnection
  config : Option String
  configAssets : Option (List String)
  args : Option (List String)

inductive ProviderKind
  | process
  | artifact
deriving DecidableEq

structure ProviderSpec where
  kind : ProviderKind
  zenohConfig : Option String
  connect : List String

structure RunSpec where
  provider : String
  bin : String
  companions : List String
  config : Option String
  configAssets : List String
  args : List String

structure ComponentSpec where
  factory : String
  factoryRevision : String
  config : Option String
  configAssets : List String

inductive ComponentTransport
  | routedZenoh
  | local_

inductive RestartPolicy
  | manual
  | onFailure
  | always

structure ComponentHostSpec where
  provider : String
  bin : String
  transport : ComponentTransport
  restart : RestartPolicy

structure ResourceSpec where
  kind : String
  provider : String
  source : String
  sha256 : Option String

structure ModuleManifest where
  version : ℕ
  deployment : Option String
  domain : Option String
  providers : Map String ProviderSpec
  modules : Map String ModuleCall
  run : Option RunSpec
  component : Option ComponentSpec
  componentHosts : Option (Map String ComponentHostSpec)
  placement : Option (Map String String)
  build : Bool
  inputs : Map String PortSpec
  outputs : Map String PortSpec
  resources : Map String ResourceSpec
  ownedChildren : Map String PortDelegation

def isNameChar (c : Char) : Bool := c.isAlphanum || c == '_' || c == '-'

def validateName (name kind : String) : Except ModuleError Unit :=
  ensure (name ≠ "" ∧ name ≠ "in" ∧ name.toList.all isNameChar = true)
    (.invalid name ("invalid " ++ kind ++ " name; use letters, digits, '_' or '-'"))

def validatePortNames (ports : Map String PortSpec) : Except ModuleError Unit :=
  ports.keys.forM fun name => validateName name "port"

def validateContract (namespace_ : String) (contract : EndpointContract) (input : Bool) : Except ModuleError Unit :=
  (contract.validate input).mapError fun error => .invalid namespace_ error.message

def validateConnection (namespace_ : String) (port : PortSpec) : Except ModuleError Unit :=
  ensure (port.semantics.isEmpty = true ∧ port.kind = .stream ∧ port.response = none ∧ port.qos = .default ∧
      port.retention = .volatile ∧ port.replay = .live ∧ port.buffer = .fifo)
    (.invalid namespace_ "callers connect app-owned endpoints; they cannot redefine endpoint policy")

def PortConnection.tryFrom (port : PortSpec) : Except ModuleError PortConnection := do
  validateConnection "connection" port
  if port.typeName ≠ "" then validateContract "connection" port.contract true
  return ⟨port.typeName, port.from_⟩

def checkCompanion (namespace_ : String) (binaries : List String) (companion : String) :
    Except ModuleError (List String) := do
  validateName companion "companion binary"
  ensure (companion ∉ binaries) (.invalid namespace_ "duplicate executable in runtime bundle")
  return companion :: binaries

def RunSpec.validateNames (run : RunSpec) (namespace_ : String) : Except ModuleError Unit := do
  validateName run.bin "binary"
  let _ ← run.companions.foldlM (checkCompanion namespace_) [run.bin]

def checkAssets (namespace_ : String) (config : Option String) (assets : List String) : Except ModuleError Unit :=
  ensure (config ≠ none ∨ assets = []) (.invalid namespace_ "config_assets requires the selected instance config")

def RunSpec.validate (run : RunSpec) (namespace_ : String) : Except ModuleError Unit := do
  run.validateNames namespace_
  checkAssets namespace_ run.config run.configAssets

def ComponentSpec.validate (component : ComponentSpec) (namespace_ : String) : Except ModuleError Unit := do
  validateName component.factory "component factory"
  ensure (isBlank component.factoryRevision = false)
    (.invalid namespace_ "component factory_revision must not be empty")
  checkAssets namespace_ component.config component.configAssets

def validateCall (namespace_ : String) (entry : String × ModuleCall) : Except ModuleError Unit := do
  validateName entry.1 "module"
  let child := namespace_ ++ "/" ++ entry.1
  (entry.2.inputs.keys ++ entry.2.outputs.keys).forM fun port => validateName port "port"
  entry.2.inputs.values.forM fun input =>
    ensure (input.from_ ≠ none) (.invalid child "caller inputs require from")
  entry.2.outputs.values.forM fun output =>
    ensure (output.from_ = none) (.invalid child "caller output contracts cannot contain from")

def validateInput (namespace_ : String) (port : PortSpec) : Except ModuleError Unit := do
  validateContract namespace_ port.contract true
  ensure (port.from_ = none) (.invalid namespace_ "module inputs are supplied by their caller, not by from")

def validateExecutableOutput (namespace_ : String) (port : PortSpec) : Except ModuleError Unit := do
  validateContract namespace_ port.contract false
  ensure (port.from_ = none) (.invalid namespace_ "executable outputs cannot forward another module")

def validateCompositeInput (namespace_ : String) (port : PortSpec) : Except ModuleError Unit :=
  ensure (port.replay = .live ∧ port.buffer = .fifo)
    (.invalid namespace_ "composite inputs forward contracts; receive policy belongs to the executable app")

def validateCompositeOutput (namespace_ : String) (port : PortSpec) : Except ModuleError Unit := do
  ensure (port.from_ ≠ none) (.invalid namespace_ "composite outputs require from")
  let _ ← PortConnection.tryFrom port

def checkDelegatedPort (namespace_ child : String) (ports : Map String PortSpec) (seen : List String)
    (port : String) :
    Except ModuleError (List String) := do
  ensure (port ∈ ports ∧ port ∉ seen) (.invalid namespace_
    ("owned child '" ++ child ++ "' has undefined or multiply delegated port '" ++ port ++ "'"))
  return port :: seen

def checkOwnedChild (namespace_ : String) (manifest : ModuleManifest) (seen : List String × List String)
    (entry : String × PortDelegation) : Except ModuleError (List String × List String) := do
  validateName entry.1 "owned child"
  let inputs ← entry.2.inputs.foldlM (checkDelegatedPort namespace_ entry.1 manifest.inputs) seen.1
  let outputs ← entry.2.outputs.foldlM (checkDelegatedPort namespace_ entry.1 manifest.outputs) seen.2
  return (inputs, outputs)

def ModuleManifest.isLeaf (manifest : ModuleManifest) : Bool := manifest.run.isSome || manifest.component.isSome

def validateOptional {α : Type} (check : α → Except ModuleError Unit) : Option α → Except ModuleError Unit
  | none => .ok ()
  | some a => check a

def validatePorts (namespace_ : String) (manifest : ModuleManifest) : Except ModuleError Unit :=
  if manifest.isLeaf then manifest.outputs.values.forM (validateExecutableOutput namespace_)
  else do
    manifest.inputs.values.forM (validateCompositeInput namespace_)
    manifest.outputs.values.forM (validateCompositeOutput namespace_)

def validateDefinition (namespace_ : String) (manifest : ModuleManifest) : Except ModuleError Unit := do
  ensure (manifest.version = MODULE_MANIFEST_VERSION ∨ manifest.version = 4)
    (.invalid namespace_ ("unsupported module version " ++ toString manifest.version))
  ensure (manifest.version ≠ MODULE_MANIFEST_VERSION ∨
      manifest.component = none ∧ manifest.componentHosts.isNone = true ∧ manifest.placement.isNone = true)
    (.invalid namespace_ "component, component_hosts and placement require version 4")
  ensure ([manifest.run.isSome, manifest.component.isSome, !manifest.modules.isEmpty].count true = 1)
    (.invalid namespace_ "module requires exactly one of run, component or nonempty modules")
  ensure (manifest.build = false ∨ manifest.run ≠ none) (.invalid namespace_ "build requires run")
  manifest.modules.toList.forM (validateCall namespace_)
  validatePortNames manifest.inputs
  validatePortNames manifest.outputs
  manifest.inputs.values.forM (validateInput namespace_)
  validateOptional (·.validateNames namespace_) manifest.run
  validateOptional (·.validate namespace_) manifest.component
  validatePorts namespace_ manifest
  ensure (manifest.ownedChildren.isEmpty = true ∨ manifest.run ≠ none)
    (.invalid namespace_ "owned_children requires run")
  let _ ← manifest.ownedChildren.toList.foldlM (checkOwnedChild namespace_ manifest) ([], [])

def checkProvider (namespace_ : String) (providers : Map String ProviderSpec) (run : RunSpec) :
    Except ModuleError Unit :=
  ensure ((providers[run.provider]?.any fun provider => provider.kind = .process) = true)
    (.invalid namespace_ ("unknown process provider '" ++ run.provider ++ "'"))

def validateManifest (namespace_ : String) (manifest : ModuleManifest) (providers : Map String ProviderSpec)
    (root : Bool) : Except ModuleError Unit := do
  ensure (root = true ∨ manifest.deployment = none ∧ manifest.domain = none ∧ manifest.providers.isEmpty = true ∧
      manifest.componentHosts.isNone = true ∧ manifest.placement.isNone = true)
    (.invalid namespace_ "deployment, domain, providers, component_hosts and placement belong to the root")
  validateDefinition namespace_ manifest
  validateOptional (fun run => do
    run.validate namespace_
    checkProvider namespace_ providers run) manifest.run

end Reiny.Launch
