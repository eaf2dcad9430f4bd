import Reiny.Launch.Manifest

/-! The resolution of a tree of manifests. -/

namespace Reiny.Launch

open Std Lib Results Maps Step Bindings

structure World where
  canonicalize : String → Except ModuleError String
  acquire : String → String → String → Except ModuleError String
  readManifest : String → Except ModuleError ModuleManifest
  checkCancelled : String → Except ModuleError Unit
  openSources : Except ModuleError Unit

structure Instance where
  dir : String
  manifest : ModuleManifest
  providers : Map String ProviderSpec

abbrev Instances := Map String Instance

abbrev Resolving := Except (Abort ModuleError)

def failing {α : Type} (result : Except ModuleError α) : Resolving α := result.mapError .failed

def absolute (base path : String) : String := if path.toList.head? = some '/' then path else base ++ "/" ++ path

def checkType (port : String) (expected : PortSpec) (actual : PortConnection) : Except ModuleError Unit :=
  ensure (actual.typeName = "" ∨ expected.typeName = actual.typeName)
    (.typeMismatch port expected.typeName actual.typeName)

def checkCallInput (child : String) (declared : Map String PortSpec) (entry : String × PortConnection) :
    Resolving Unit := do
  let port ← index declared entry.1
  failing (checkType (child ++ ".in." ++ entry.1) port entry.2)

def checkCallOutput (child : String) (declared : Map String PortSpec) (entry : String × PortConnection) :
    Except ModuleError Unit := do
  let port ← ofOption declared[entry.1]? (.invalid child ("child has no output '" ++ entry.1 ++ "'"))
  checkType (child ++ ".out." ++ entry.1) port entry.2

def overrideLeaf (child dir : String) (call : ModuleCall) (manifest : ModuleManifest) :
    Except ModuleError ModuleManifest :=
  if call.config = none ∧ call.configAssets = none ∧ call.args = none then .ok manifest
  else
    match manifest.run, manifest.component with
    | some run, none => .ok { manifest with run := some { run with
        args := call.args.getD run.args
        config := (call.config.map (absolute dir)).or run.config
        configAssets := call.configAssets.getD run.configAssets } }
    | none, some component => do
      ensure (call.args = none) (.invalid child "component instances do not accept args")
      return { manifest with component := some { component with
        config := (call.config.map (absolute dir)).or component.config
        configAssets := call.configAssets.getD component.configAssets } }
    | _, _ => .error (.invalid child "instance overrides require exactly one executable or component leaf")

def mapProvider (namespace_ : String) (providers : Map String ProviderSpec) (mapped : Map String ProviderSpec)
    (entry : String × String) : Except ModuleError (Map String ProviderSpec) := do
  validateName entry.1 "provider slot"
  let provider ← ofOption providers[entry.2]?
    (.invalid namespace_ ("unknown provider mapping '" ++ entry.2 ++ "'"))
  return mapped.insert entry.1 provider

structure Child where
  dir : String
  manifest : ModuleManifest
  providers : Map String ProviderSpec

def prepareChild (world : World) (namespace_ dir : String) (providers : Map String ProviderSpec)
    (entry : String × ModuleCall) : Resolving Child := do
  let child := namespace_ ++ "/" ++ entry.1
  let childDir ← failing (match entry.2.source with
    | .local_ path => .ok (absolute dir path)
    | .git repository => world.acquire child dir repository)
  let manifest ← failing (world.readManifest childDir)
  ensure (entry.2.inputs.keys = manifest.inputs.keys)
    (.failed (.invalid child "caller must connect exactly the child's declared inputs"))
  entry.2.inputs.toList.forM (checkCallInput child manifest.inputs)
  failing (entry.2.outputs.toList.forM (checkCallOutput child manifest.outputs))
  let manifest ← failing (overrideLeaf child dir entry.2 manifest)
  let mapped ← failing (entry.2.providers.toList.foldlM (mapProvider namespace_ providers) providers)
  return ⟨childDir, manifest, mapped⟩

inductive Halted
  | outOfFuel
  | aborted (a : Abort ModuleError)

def ending {α : Type} (result : Resolving α) : Except Halted α := result.mapError .aborted

def enter (world : World) (namespace_ dir : String) (manifest : ModuleManifest)
    (providers : Map String ProviderSpec)
    (root : Bool) (stack : List String) : Resolving String := do
  let dir ← failing (world.canonicalize dir)
  ensure (dir ∉ stack) (.failed (.cycle ("source " ++ dir)))
  failing (validateManifest namespace_ manifest providers root)
  failing (world.checkCancelled namespace_)
  return dir

def visit (world : World) : ℕ → String → String → ModuleManifest → Map String ProviderSpec → Bool → List String →
    Instances → Except Halted Instances
  | 0, _, _, _, _, _, _, _ => .error .outOfFuel
  | fuel + 1, namespace_, dir, manifest, providers, root, stack, instances => do
    let dir ← ending (enter world namespace_ dir manifest providers root stack)
    let instances ← manifest.modules.toList.foldlM (fun instances entry => do
      let child ← ending (prepareChild world namespace_ dir providers entry)
      visit world fuel (namespace_ ++ "/" ++ entry.1) child.dir child.manifest child.providers false (dir :: stack)
        instances) instances
    return instances.insert namespace_ ⟨dir, manifest, providers⟩

structure PortAddress where
  namespace_ : String
  input : Bool
  name : String
deriving DecidableEq

def PortAddress.key (address : PortAddress) : String × Bool × String :=
  (address.namespace_, address.input, address.name)

instance : Ord PortAddress := ⟨compareOn PortAddress.key⟩

instance : TransOrd PortAddress := inferInstanceAs (TransCmp (compareOn PortAddress.key))

instance : LawfulEqOrd PortAddress where
  compare_self := compare_self (α := String × Bool × String)
  eq_of_compare := by
    rintro ⟨namespace_, input, name⟩ ⟨namespace_', input', name'⟩ h
    cases LawfulEqOrd.eq_of_compare (α := String × Bool × String) h
    rfl

def PortAddress.text (address : PortAddress) : String :=
  address.namespace_ ++ "." ++ (if address.input then "in" else "out") ++ "." ++ address.name

structure ResolvedRoute where
  source : PortAddress
  via : List PortAddress
  contract : EndpointContract
deriving DecidableEq

def splitReference (text : String) : Option (String × String) :=
  match text.toList.dropWhile (· ≠ '.') with
  | [] => none
  | _ :: name => some (String.ofList (text.toList.takeWhile (· ≠ '.')), String.ofList name)

def referTo (instances : Instances) (namespace_ text : String) : Except ModuleError PortAddress := do
  let error message := ModuleError.reference namespace_ text message
  let (owner, name) ← ofOption (splitReference text) (error "use sibling.port or in.port")
  ensure ('.' ∉ name.toList) (error "module shared_types and absolute paths are not public references")
  let found ← ofOption instances[namespace_]? (error "unknown module")
  if owner = "in" then
    ensure (name ∈ found.manifest.inputs) (error "input is not declared")
    return ⟨namespace_, true, name⟩
  else
    ensure (owner ∈ found.manifest.modules) (error "sibling module is not declared")
    let child ← ofOption instances[namespace_ ++ "/" ++ owner]? (error "sibling module is not resolved")
    ensure (name ∈ child.manifest.outputs) (error "sibling output is not declared by its app")
    return ⟨namespace_ ++ "/" ++ owner, false, name⟩

def collectReference (instances : Instances) (namespace_ : String) (addresses : List PortAddress) (text : String) :
    Except ModuleError (List PortAddress) := do
  let address ← referTo instances namespace_ text
  ensure (address ∉ addresses) (.invalid namespace_ "duplicate endpoint in fan-in")
  return addresses ++ [address]

def references (instances : Instances) (namespace_ : String) (sources : PortSources) :
    Except ModuleError (List PortAddress) := do
  ensure (sources.references ≠ []) (.invalid namespace_ "fan-in requires at least one source")
  sources.references.foldlM (collectReference instances namespace_) []

/-- `edges` are the ports that forward others, `terminals` the outputs of leaves. -/
structure Wiring where
  edges : Map PortAddress (List PortAddress)
  portTypes : Map PortAddress EndpointContract
  terminals : Map PortAddress EndpointContract

def wireInput (namespace_ : String) (wiring : Wiring) (entry : String × PortSpec) : Wiring :=
  { wiring with portTypes := wiring.portTypes.insert ⟨namespace_, true, entry.1⟩ entry.2.contract }

def wireOutput (instances : Instances) (namespace_ : String) (leaf : Bool) (wiring : Wiring)
    (entry : String × PortSpec) : Except ModuleError Wiring := do
  let address : PortAddress := ⟨namespace_, false, entry.1⟩
  let wiring := { wiring with portTypes := wiring.portTypes.insert address entry.2.contract }
  if leaf then return { wiring with terminals := wiring.terminals.insert address entry.2.contract }
  else
    match entry.2.from_ with
    | none => return wiring
    | some sources => do
      let addresses ← references instances namespace_ sources
      return { wiring with edges := wiring.edges.insert address addresses }

def wireConnection (instances : Instances) (namespace_ child : String) (wiring : Wiring)
    (entry : String × PortConnection) : Except ModuleError Wiring := do
  let sources ← ofOption entry.2.from_ (.invalid namespace_ "missing input reference")
  let addresses ← references instances namespace_ sources
  return { wiring with edges := wiring.edges.insert ⟨namespace_ ++ "/" ++ child, true, entry.1⟩ addresses }

def wireCall (instances : Instances) (namespace_ : String) (wiring : Wiring) (entry : String × ModuleCall) :
    Except ModuleError Wiring :=
  entry.2.inputs.toList.foldlM (wireConnection instances namespace_ entry.1) wiring

def wireInstance (instances : Instances) (wiring : Wiring) (entry : String × Instance) :
    Except ModuleError Wiring := do
  let manifest := entry.2.manifest
  let wiring := manifest.inputs.toList.foldl (wireInput entry.1) wiring
  let wiring ← manifest.outputs.toList.foldlM (wireOutput instances entry.1 manifest.isLeaf) wiring
  manifest.modules.toList.foldlM (wireCall instances entry.1) wiring

def wire (instances : Instances) : Except ModuleError Wiring :=
  instances.toList.foldlM (wireInstance instances) ⟨∅, ∅, ∅⟩

abbrev Routes := Map PortAddress (List ResolvedRoute)

def through (source : PortAddress) (route : ResolvedRoute) : ResolvedRoute :=
  if source = route.source then route else { route with via := source :: route.via }

def resolveEndpoint (wiring : Wiring) : ℕ → PortAddress → List PortAddress → Routes →
    Except ModuleError (List ResolvedRoute × Routes)
  | 0, _, _, _ => .error (.other "out of fuel")
  | fuel + 1, address, active, resolved =>
    match resolved[address]? with
    | some routes => .ok (routes, resolved)
    | none =>
      match wiring.terminals[address]? with
      | some contract =>
        let routes := [⟨address, [], contract⟩]
        .ok (routes, resolved.insert address routes)
      | none => do
        ensure (address ∉ active) (.cycle address.text)
        let sources ← ofOption wiring.edges[address]? (.invalid address.text "port has no executable publisher")
        let (routes, resolved) ← sources.foldlM (fun state source => do
          let (found, resolved) ← resolveEndpoint wiring fuel source (address :: active) state.2
          return (state.1 ++ found.map (through source), resolved)) ([], resolved)
        return (routes, resolved.insert address routes)

def resolveFuel (wiring : Wiring) : ℕ := wiring.edges.size + 2

def resolvePort (wiring : Wiring) (resolved : Routes) (address : PortAddress) : Except ModuleError Routes := do
  let (_, resolved) ← resolveEndpoint wiring (resolveFuel wiring) address [] resolved
  return resolved

def rootProviders (root : String) (manifest : ModuleManifest) : Except ModuleError (Map String ProviderSpec) := do
  manifest.providers.keys.forM fun name => validateName name "provider"
  return manifest.providers.map fun _ provider =>
    { provider with zenohConfig := provider.zenohConfig.map (absolute root) }

def openRoot (world : World) (root : String) (manifest : ModuleManifest) :
    Resolving (String × Map String ProviderSpec) := do
  let deployment ← failing (ofOption manifest.deployment (.invalid root "root main.yaml requires deployment"))
  failing (validateName deployment "deployment")
  failing (validateName (manifest.domain.getD deployment) "domain")
  ensure (manifest.inputs.isEmpty = true) (.failed (.invalid deployment "root inputs have no supplying parent"))
  let providers ← failing (rootProviders root manifest)
  failing world.openSources
  return (deployment, providers)

def load (world : World) (fuel : ℕ) (root : String) (manifest : ModuleManifest) : Except Halted Instances := do
  let (deployment, providers) ← ending (openRoot world root manifest)
  visit world fuel deployment root manifest providers true [] ∅

section Termination

open List

variable {α β : Type} {world : World} {dirs : List String}

lemma ending_bind (r : Resolving α) (f : α → Resolving β) :
    ending (r >>= f) = ending r >>= fun a => ending (f a) := by
  cases r <;> rfl

lemma ending_foldlM (f : β → α → Resolving β) (l : List α) (b : β) :
    ending (l.foldlM f b) = l.foldlM (fun b a => ending (f b a)) b := by
  induction l generalizing b with
  | nil => rfl
  | cons a l ih =>
    rw [foldlM_cons, foldlM_cons, ending_bind]
    simp only [ih]

lemma enter_ok {namespace_ dir found : String} {manifest : ModuleManifest} {providers : Map String ProviderSpec}
    {root : Bool} {stack : List String} (h : enter world namespace_ dir manifest providers root stack = .ok found) :
    world.canonicalize dir = .ok found ∧ found ∉ stack := by
  obtain ⟨dir', hc, h⟩ := bind_ok.mp h
  obtain ⟨hm, h⟩ := ensure_bind_ok.mp h
  obtain ⟨_, -, h⟩ := bind_ok.mp h
  obtain ⟨_, -, h⟩ := bind_ok.mp h
  cases pure_ok.mp h
  exact ⟨mapError_ok.mp hc, hm⟩

-- The stack holds different directories, so the fuel outlasts it.
lemma visit_settles (hd : ∀ path dir, world.canonicalize path = .ok dir → dir ∈ dirs) (fuel : ℕ)
    (stack : List String)
    (hn : stack.Nodup) (hs : stack ⊆ dirs) (hf : dirs.length < fuel + stack.length) (namespace_ dir : String)
    (manifest : ModuleManifest) (providers : Map String ProviderSpec) (root : Bool) (instances : Instances) :
    ∃ result, ∀ more,
      visit world (fuel + more) namespace_ dir manifest providers root stack instances = ending result := by
  induction fuel generalizing namespace_ dir manifest providers root stack instances with
  | zero =>
    have hl := (hn.subperm hs).length_le
    omega
  | succ fuel ih =>
    cases he : enter world namespace_ dir manifest providers root stack with
    | error e => exact ⟨.error e, fun more => by rw [Nat.add_right_comm, visit, he]; rfl⟩
    | ok found =>
      obtain ⟨hc, hm⟩ := enter_ok he
      choose below hb using ih (found :: stack) (nodup_cons.mpr ⟨hm, hn⟩) (cons_subset.mpr ⟨hd _ _ hc, hs⟩)
        (by rw [length_cons]; omega)
      refine ⟨do
        let instances ← manifest.modules.toList.foldlM (fun instances entry => do
          let child ← prepareChild world namespace_ found providers entry
          below (namespace_ ++ "/" ++ entry.1) child.dir child.manifest child.providers false instances) instances
        return instances.insert namespace_ ⟨found, manifest, providers⟩, fun more => ?_⟩
      rw [Nat.add_right_comm, visit, he]
      change (foldlM (m := Except Halted) _ _ _ >>= _) = _
      simp only [ending_bind, ending_foldlM, hb]
      rfl

theorem load_terminates (hd : ∀ path dir, world.canonicalize path = .ok dir → dir ∈ dirs) (root : String)
    (manifest : ModuleManifest) : ∃ result : Resolving Instances,
      ∀ fuel, dirs.length < fuel → load world fuel root manifest = ending result := by
  choose below hb using visit_settles hd (dirs.length + 1) [] nodup_nil (nil_subset dirs) (by simp)
  refine ⟨do
    let (deployment, providers) ← openRoot world root manifest
    below deployment root manifest providers true ∅, fun fuel hf => ?_⟩
  obtain ⟨more, rfl⟩ := Nat.exists_eq_add_of_lt hf
  rw [Nat.add_right_comm, load, ending_bind]
  simp only [hb]

def selfManifest : ModuleManifest := ⟨MODULE_MANIFEST_VERSION, some "d", none, ∅, ExtTreeMap.ofList
  [("a", (⟨.local_ ".", ∅, ∅, ∅, none, none, none⟩ : ModuleCall))], none, none, none, none, false, ∅, ∅, ∅, ∅⟩

def selfWorld : World :=
  ⟨fun _ => .ok "/app", fun _ _ _ => .ok "/app", fun _ => .ok selfManifest, fun _ => .ok (), .ok ()⟩

theorem load_terminates_self : ∃ result,
    (∀ fuel, 1 < fuel → load selfWorld fuel "/app" selfManifest = ending result) ∧
    ending result = .error (.aborted (.failed (.cycle "source /app"))) := by
  obtain ⟨result, hr⟩ :=
    @load_terminates selfWorld ["/app"] (fun path dir h => by cases h; simp) "/app" selfManifest
  exact ⟨result, hr, (hr 2 (by decide)).symm⟩

end Termination

end Reiny.Launch
