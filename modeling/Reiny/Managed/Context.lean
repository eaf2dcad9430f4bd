import Reiny.Bindings.Graph
import Reiny.Engine.Key
import Reiny.Lib.Machine

namespace Reiny.Managed

open Std Lib Results Machine Step Bindings

inductive HostedEvent
  | stopRequested
  | readinessLost

structure Shutdown where
  triggered : Bool
  event : Option (Option HostedEvent)

def Shutdown.hostedEvent (shutdown : Shutdown) (event : HostedEvent) : Shutdown :=
  { shutdown with event := shutdown.event.map fun current => some (current.getD event) }

def Shutdown.trigger (shutdown : Shutdown) : Shutdown :=
  Shutdown.hostedEvent { shutdown with triggered := true } .stopRequested

structure Registration where
  contract : PortReport
  transportType : String
  live : ℕ

structure ChildState where
  ready : Bool
  exited : Bool
  report : Option ModuleReport

structure Ports where
  inputs : Map String Registration
  outputs : Map String Registration
  children : Map String ChildState
  ready : Bool
  admission : Option ℕ

namespace Ports

def registered (ports : Ports) : Bool → Map String Registration
  | true => ports.inputs
  | false => ports.outputs

def register (ports : Ports) (name : String) (registration : Registration) : Bool → Ports
  | true => { ports with inputs := ports.inputs.insert name registration }
  | false => { ports with outputs := ports.outputs.insert name registration }

end Ports

inductive AdmissionError
  | missingBindings
  | unsupportedHostedBindings
  | shuttingDown
  | alreadyPrepared
  | alreadyReady
  | portUnavailable (input : Bool) (name : String)
  | noLiveliness
  | foreignTicket
  | staleTicket
  | transport (detail : String)
deriving DecidableEq

inductive Failure
  | admission (error : AdmissionError)
  | text (message : String)
deriving DecidableEq

def Failure.toAdmission : Failure → AdmissionError
  | .admission error => error
  | .text message => .transport message

structure Module where
  pointer : ℕ
  id : String
  bindings : Option ModuleBindings
  liveliness : Bool
  reportPath : Bool

def declared (bindings : ModuleBindings) : Bool → List String
  | true => bindings.inputs.keys
  | false => bindings.outputs.keys

def delegated (delegation : PortDelegation) : Bool → List String
  | true => delegation.inputs
  | false => delegation.outputs

def contractOf (bindings : ModuleBindings) (name : String) : Bool → Option EndpointContract
  | true => bindings.inputs[name]?.map (·.contract)
  | false => bindings.outputs[name]?.map (·.contract)

def Module.endpointNamespace (m : Module) : String := (m.bindings.map (·.endpointNamespace)).getD m.id

def Module.portEndpoint (m : Module) (name : String) (input : Bool) : Except Failure PortEndpoint := do
  let bindings ← ofOption m.bindings (.text "module bindings are required")
  if input then
    let binding ← ofOption bindings.inputs[name]? (.text ("undefined input '" ++ name ++ "'"))
    return .input binding.sources
  else return .output ⟨bindings.endpointNamespace, name⟩

def Module.namedContract (m : Module) (name : String) (input : Bool) (kind : PortKind) :
    Except Failure EndpointContract := do
  let bindings ← ofOption m.bindings (.text ("named endpoint '" ++ name ++ "' requires module bindings"))
  ensure (bindings.children.toList.all (fun child => !(delegated child.2 input).contains name) = true)
    (.text ("port '" ++ name ++ "' is exclusively delegated to an owned child"))
  let contract ← ofOption (contractOf bindings name input) (.text ("undefined endpoint '" ++ name ++ "'"))
  ensure (contract.kind = kind) (.text ("wrong endpoint operation for '" ++ name ++ "'"))
  return contract

def delegatedBindings (bindings : ModuleBindings) (name : String) : Except Failure ModuleBindings := do
  let delegation ← ofOption bindings.children[name]? (.text ("undeclared owned child '" ++ name ++ "'"))
  let inputs ← delegation.inputs.mapM fun port => do
    return (port, ← ofOption bindings.inputs[port]? (.text "no entry found for key"))
  let outputs ← delegation.outputs.mapM fun port => do
    return (port, ← ofOption bindings.outputs[port]? (.text "no entry found for key"))
  let child : ModuleBindings :=
    { version := MODULE_BINDINGS_VERSION
      namespace_ := bindings.namespace_ ++ "/owned/" ++ name
      endpointNamespace := bindings.endpointNamespace
      inputs := ExtTreeMap.ofList inputs
      outputs := ExtTreeMap.ofList outputs
      children := ∅
      executables := bindings.executables }
  child.validate.mapError fun failure => .text failure.message
  return child

inductive Opening
  | input (message : ResponseReport)
  | output (message : ResponseReport)
  | rpcClient (service response : ResponseReport)
  | rpcServer (service response : ResponseReport)
  | rawInput (message : ResponseReport)
  | rawOutput (message : ResponseReport)
  | rawRpcClient (request response : ResponseReport)
  | rawRpcServer (request response : ResponseReport)
  | bridgeRpcPort (input : Bool) (schema responseSchema : UInt64)

namespace Opening

def isInput : Opening → Bool
  | input _ | rpcClient _ _ | rawInput _ | rawRpcClient _ _ => true
  | output _ | rpcServer _ _ | rawOutput _ | rawRpcServer _ _ => false
  | bridgeRpcPort side _ _ => side

def kind : Opening → PortKind
  | input _ | output _ | rawInput _ | rawOutput _ => .stream
  | rpcClient _ _ | rpcServer _ _ | rawRpcClient _ _ | rawRpcServer _ _ | bridgeRpcPort _ _ _ => .rpc

def validateSegment (value : String) : Except Failure Unit :=
  (Engine.validateSegment "transport type" value).mapError .text

def differs (declared actual : String) : Failure :=
  .text ("declared port type '" ++ declared ++ "' differs from actual type '" ++ actual ++ "'")

def compiledType (declared : String) (actual : ResponseReport) : Except Failure ResponseReport := do
  validateSegment actual.typeName
  ensure (declared = actual.typeName) (differs declared actual.typeName)
  return actual

def of (contract : EndpointContract) (endpoint : PortEndpoint) (message : ResponseReport) :
    Except Failure PortReport := do
  let compiled ← compiledType contract.typeName message
  return ⟨endpoint, compiled.typeName, compiled.schema, contract, none⟩

def rpc (contract : EndpointContract) (endpoint : PortEndpoint) (service response : ResponseReport) :
    Except Failure PortReport := do
  let report ← of contract endpoint service
  let declared ← ofOption contract.response (.text "RPC requires a response type")
  let compiled ← compiledType declared response
  return { report with response := some compiled }

def registration (contract : EndpointContract) (endpoint : PortEndpoint) (message : ResponseReport) :
    Except Failure PortReport := do
  ensure (message.typeName = contract.typeName) (differs contract.typeName message.typeName)
  validateSegment message.typeName
  return ⟨endpoint, message.typeName, message.schema, contract, none⟩

def rpcRegistration (contract : EndpointContract) (endpoint : PortEndpoint) (request response : ResponseReport) :
    Except Failure PortReport := do
  let report ← registration contract endpoint request
  ensure (contract.response = some response.typeName)
    (.text ("declared response type differs from actual type '" ++ response.typeName ++ "'"))
  return { report with response := some response }

def bridged (contract : EndpointContract) (endpoint : PortEndpoint) (schema responseSchema : UInt64) :
    Except Failure PortReport := do
  validateSegment contract.typeName
  let response ← ofOption contract.response (.text "RPC requires response type")
  return ⟨endpoint, contract.typeName, schema, contract, some ⟨response, responseSchema⟩⟩

def report (contract : EndpointContract) (endpoint : PortEndpoint) : Opening → Except Failure PortReport
  | input message | output message => of contract endpoint message
  | rpcClient service response | rpcServer service response => rpc contract endpoint service response
  | rawInput message | rawOutput message => registration contract endpoint message
  | rawRpcClient request response | rawRpcServer request response =>
    rpcRegistration contract endpoint request response
  | bridgeRpcPort _ schema responseSchema => bridged contract endpoint schema responseSchema

def checkTarget (endpoint : PortEndpoint) : Opening → Except Failure Unit
  | rpcClient _ _ | rawRpcClient _ _ =>
    match endpoint with
    | .input sources => ensure (sources.length = 1) (.text "RPC requires exactly one target")
    | .output _ => .ok ()
  | _ => .ok ()

end Opening

def reportPort (handles : List ℕ) (input : Bool) (reported : Map String PortReport)
    (port : String × Registration) : Except Failure (Map String PortReport) := do
  ensure (port.2.live ∈ handles) (.admission (.portUnavailable input port.1))
  return reported.insert port.1 port.2.contract

def childReport (ports : Ports) (name : String) : Except Failure ModuleReport := do
  let child ← ofOption ports.children[name]? (.text ("owned child '" ++ name ++ "' has not been spawned"))
  ensure (child.ready = true ∧ child.exited = false) (.text ("owned child '" ++ name ++ "' is not live and ready"))
  ofOption child.report (.text ("owned child '" ++ name ++ "' has no validated report"))

def extendReport (ports : Ports) (report : ModuleReport) (name : String) : Except Failure ModuleReport := do
  let child ← childReport ports name
  return { report with
    inputs := report.inputs.insertMany child.inputs.toList
    outputs := report.outputs.insertMany child.outputs.toList }

def checkReported (input : Bool) (reported : Map String PortReport) (name : String) : Except Failure Unit :=
  ensure (name ∈ reported) (.admission (.portUnavailable input name))

def checkDeclared (report : ModuleReport) (bindings : ModuleBindings) : Except Failure Unit := do
  (declared bindings true).forM (checkReported true report.inputs)
  (declared bindings false).forM (checkReported false report.outputs)

def buildReport (m : Module) (handles : List ℕ) (ports : Ports) : Except Failure ModuleReport := do
  let inputs ← ports.inputs.toList.foldlM (reportPort handles true) ∅
  let outputs ← ports.outputs.toList.foldlM (reportPort handles false) ∅
  let report : ModuleReport :=
    ⟨MODULE_REPORT_VERSION, SCHEMA_FINGERPRINT_VERSION, m.id, m.endpointNamespace, inputs, outputs⟩
  match m.bindings with
  | none => return report
  | some bindings => do
    let report ← bindings.children.keys.foldlM (extendReport ports) report
    checkDeclared report bindings
    return report

inductive Stage
  | prepared
  | ready
  | spent
deriving DecidableEq

structure Ticket where
  context : ℕ
  generation : ℕ
  report : ModuleReport
  stage : Stage
deriving DecidableEq

inductive Supervisor
  | running
  | leaving
  | done
deriving DecidableEq

structure Context where
  ports : Ports
  shutdown : Shutdown
  handles : List ℕ
  nextHandle : ℕ
  nextGeneration : ℕ
  tickets : List Ticket
  supervisors : Map String Supervisor

def Context.new (hosted : Bool) : Context where
  ports := ⟨∅, ∅, ∅, false, none⟩
  shutdown := ⟨false, if hosted then some none else none⟩
  handles := []
  nextHandle := 0
  nextGeneration := 0
  tickets := []
  supervisors := ∅

section Locked

variable (m : Module) (c : Context)

def lockPorts (name : String) (input : Bool) : Except Failure Unit := do
  ensure (c.shutdown.triggered = false) (.text "module is shutting down")
  ensure (c.ports.ready = false) (.text "cannot create a port after ready()")
  ensure (c.ports.admission = none) (.text "cannot create a port during admission")
  ensure (name ∉ c.ports.registered input) (.text ("port '" ++ name ++ "' already created"))

-- Whether the engine declares, the report is stored or a child starts is part of the event.
def openPort (opening : Opening) (name : String) (built : Bool) : Except Failure Context := do
  let contract ← m.namedContract name opening.isInput opening.kind
  lockPorts c name opening.isInput
  let endpoint ← m.portEndpoint name opening.isInput
  let report ← opening.report contract endpoint
  opening.checkTarget endpoint
  ensure (built = true) (.text "engine")
  return { c with
    ports := c.ports.register name ⟨report, report.typeName, c.nextHandle⟩ opening.isInput
    handles := c.nextHandle :: c.handles
    nextHandle := c.nextHandle + 1 }

def dropPort (handle : ℕ) : Context :=
  let admitted := c.ports.admission.isSome
  let shutdown := if admitted then c.shutdown.hostedEvent .readinessLost else c.shutdown
  { c with
    handles := c.handles.filter (· ≠ handle)
    ports := { c.ports with admission := none, ready := false }
    shutdown := if admitted || c.ports.ready then shutdown.trigger else shutdown }

def prepareAdmission : Except AdmissionError (Ticket × Context) := do
  let bindings ← ofOption m.bindings .missingBindings
  ensure (bindings.children.isEmpty = true ∧ bindings.executables = []) .unsupportedHostedBindings
  ensure (c.shutdown.triggered = false) .shuttingDown
  ensure (c.ports.ready = false) .alreadyReady
  ensure (c.ports.admission = none) .alreadyPrepared
  ensure (m.liveliness = true) .noLiveliness
  let report ← (buildReport m c.handles c.ports).mapError Failure.toAdmission
  let ticket : Ticket := ⟨m.pointer, c.nextGeneration, report, .prepared⟩
  return (ticket, { c with
    ports := { c.ports with admission := some ticket.generation }
    nextGeneration := c.nextGeneration + 1
    tickets := ticket :: c.tickets })

def commitAdmission (ticket : Ticket) (announced : Bool) : Except AdmissionError Context := do
  ensure (ticket.context = m.pointer) .foreignTicket
  ensure (c.ports.admission = some ticket.generation) .staleTicket
  ensure (c.shutdown.triggered = false) .shuttingDown
  let report ← (buildReport m c.handles c.ports).mapError Failure.toAdmission
  ensure (report = ticket.report) .staleTicket
  ensure (announced = true) (.transport "engine")
  return { c with ports := { c.ports with ready := true } }

def markTicket (ticket : Ticket) (stage : Stage) : Context :=
  { c with tickets := { ticket with stage := stage } :: c.tickets.erase ticket }

def dropTicket (ticket : Ticket) : Context :=
  let ports := if c.ports.admission = some ticket.generation then { c.ports with admission := none, ready := false }
    else c.ports
  { c with ports := ports, tickets := c.tickets.erase ticket }

def ready (written announced : Bool) : Except Failure Context := do
  ensure (c.shutdown.triggered = false) (.text "module is shutting down")
  if c.ports.ready then return c
  else do
    ensure (c.ports.admission = none) (.text "module admission is prepared")
    ensure (m.liveliness = true) (.text "ready() requires liveliness")
    let _ ← buildReport m c.handles c.ports
    ensure (m.reportPath = false ∨ written = true) (.text "publishing module report")
    ensure (announced = true) (.text "engine")
    return { c with ports := { c.ports with ready := true } }

def spawnOwnedChild (name : String) (started : Bool) : Except Failure Context := do
  let bindings ← ofOption m.bindings (.text "owned children require module bindings")
  let _ ← delegatedBindings bindings name
  ensure (c.shutdown.triggered = false ∧ c.ports.ready = false)
    (.text "cannot spawn a child after readiness or shutdown")
  ensure (name ∉ c.ports.children) (.text ("owned child '" ++ name ++ "' already spawned"))
  ensure (started = true) (.text "spawning owned child")
  return { c with
    ports := { c.ports with children := c.ports.children.insert name ⟨false, false, none⟩ }
    supervisors := c.supervisors.insert name .running }

def observe (name : String) (joined : Bool) : Context :=
  match c.ports.children[name]? with
  | none => c
  | some child =>
    let lost := child.ready && !joined
    let next : ChildState := { child with
      ready := joined && !child.exited
      report := if lost then none else child.report }
    { c with
      ports := { c.ports with
        children := c.ports.children.insert name next
        ready := c.ports.ready && !lost }
      shutdown := if lost then c.shutdown.trigger else c.shutdown }

def adopt (name : String) (report : ModuleReport) : Except Failure Context := do
  let bindings ← ofOption m.bindings (.text "owned children require module bindings")
  let child ← delegatedBindings bindings name
  (validateReport ⟨child, report⟩).mapError fun _ => .text "invalid owned child report"
  let state ← ofOption c.ports.children[name]? (.text "owned child registration disappeared")
  ensure (state.ready = true ∧ state.exited = false) (.text "owned child lost readiness")
  let children := c.ports.children.insert name { state with report := some report }
  return { c with ports := { c.ports with children := children } }

def childExited (name : String) : Context :=
  let children := if name ∈ c.ports.children then c.ports.children.insert name ⟨false, true, none⟩
    else c.ports.children
  { c with
    ports := { c.ports with children := children, ready := false }
    supervisors := c.supervisors.insert name .leaving }

end Locked

inductive Event
  | openPort (opening : Opening) (name : String) (built : Bool)
  | dropPort (handle : ℕ)
  | prepare
  | commit (ticket : Ticket) (announced : Bool)
  | dropTicket (ticket : Ticket)
  | ready (written announced : Bool)
  | spawn (name : String) (started : Bool)
  | presence (name : String) (joined : Bool)
  | adopt (name : String) (report : ModuleReport)
  | exit (name : String)
  | superviseTrigger (name : String)
  | stop

inductive Outcome
  | done
  | refused (failure : Failure)
deriving DecidableEq

def answer (c : Context) : Except Failure Context → Outcome × Context
  | .ok next => (.done, next)
  | .error failure => (.refused failure, c)

-- A ticket of another context is just refused.
def step (m : Module) (c : Context) : Event → Option (Outcome × Context)
  | .openPort opening name built => some (answer c (openPort m c opening name built))
  | .dropPort handle => if handle ∈ c.handles then some (.done, dropPort c handle) else none
  | .prepare => some (answer c ((prepareAdmission m c).map (·.2) |>.mapError .admission))
  | .commit ticket announced =>
    if ticket.context ≠ m.pointer then some (answer c ((commitAdmission m c ticket announced).mapError .admission))
    else if ticket ∈ c.tickets ∧ ticket.stage = .prepared then
      match commitAdmission m c ticket announced with
      | .ok next => some (.done, markTicket next ticket .ready)
      | .error error => some (.refused (.admission error), markTicket c ticket .spent)
    else none
  | .dropTicket ticket => if ticket ∈ c.tickets then some (.done, dropTicket c ticket) else none
  | .ready written announced => some (answer c (ready m c written announced))
  | .spawn name started => some (answer c (spawnOwnedChild m c name started))
  | .presence name joined => some (.done, observe c name joined)
  | .adopt name report => some (answer c (adopt m c name report))
  | .exit name => if c.supervisors[name]? = some .running then some (.done, childExited c name) else none
  | .superviseTrigger name =>
    if c.supervisors[name]? = some .leaving then
      some (.done, { c with shutdown := c.shutdown.trigger, supervisors := c.supervisors.insert name .done })
    else none
  | .stop => some (.done, { c with shutdown := c.shutdown.trigger })

end Reiny.Managed
