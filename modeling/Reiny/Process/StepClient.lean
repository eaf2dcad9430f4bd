import Reiny.Process.Dispatch

namespace Reiny.Process

open Std Lib Results Checked Machine Step

def MAX_FRAME_BYTES : ℕ := 8 * 1024 * 1024

inductive ProcessStepStartError
  | admission (error : StepStartError)
  | bounds
  | retentionCapacity
  | released
  | requestConflict
  | sequenceExhausted
  | ownerUnknown
deriving DecidableEq

structure Record where
  request : StepRequest
  timeout : Duration
  run : ℕ
deriving DecidableEq

inductive Stage
  | free
  | poisoned
  | loading (id : ℕ) (request : StepRequest) (timeout : Duration) (bytes : ℕ)
  | summing (id : ℕ) (request : StepRequest) (timeout : Duration) (retained : ℕ) (left : List Record)
  | starting (id : ℕ) (request : StepRequest) (timeout : Duration)
  | entering (id : ℕ) (request : StepRequest) (timeout : Duration)
  | calling (id : ℕ) (request : StepRequest) (timeout : Duration)
  | handing (id : ℕ) (request : StepRequest) (timeout : Duration) (run : ℕ)
  | recording (id : ℕ) (request : StepRequest) (timeout : Duration) (run : ℕ)
deriving DecidableEq

structure Client where
  owner : Owner
  highWater : Option ℕ
  records : Map ℕ Record
  active : Option ℕ
  stage : Stage

inductive ClientEvent
  | tryStep (request : StepRequest) (timeout : Duration)
  | start (id : ℕ) (request : StepRequest) (timeout : Duration)
  | observe (id : ℕ)
  | release (id : ℕ)
  | proceed
  | owner (event : OwnerEvent)

inductive ClientReply
  | working
  | handed (id : ℕ)
  | admitted (id : ℕ) (record : Record)
  | run (run : ℕ)
  | refused (error : ProcessStepStartError)
  | observed (run : Option ℕ)
  | released
  | panicked
  | owner (reply : OwnerReply)
deriving DecidableEq

abbrev Payload := Map String WireValue → Except ProcessError Bytes

def addInput (total : ℕ) (entry : StepInput × StepValue) : Except ProcessStepStartError ℕ := do
  let total ← ofOption (checkedAdd U64 total entry.2.bytes.length) .bounds
  ensure (total ≤ MAX_RETAINED_BYTES) .bounds
  return total

def groupInput (groups : Map String StepInputs) (entry : StepInput × StepValue) : Map String StepInputs :=
  groups.insert entry.1.inst ((groups.getD entry.1.inst ∅).insert entry.1.port entry.2)

def checkPayload (payload : Payload) (entry : String × StepInputs) : Except ProcessStepStartError Unit := do
  let wire ← (exportValues entry.2).mapError fun _ => .bounds
  let bytes ← (payload wire).mapError fun _ => .bounds
  ensure (bytes.length ≤ MAX_FRAME_BYTES - 65536) .bounds

def checkInputs (payload : Payload) (request : StepRequest) : Except ProcessStepStartError ℕ := do
  let bytes ← request.inputs.toList.foldlM addInput 0
  (request.inputs.toList.foldl groupInput ∅).toList.forM (checkPayload payload)
  return bytes

def baseTotal (retention : Retention) (bytes : ℕ) : Option ℕ := do
  let total ← checkedAdd U64 retention.bootstrap retention.previous
  let twice ← if bytes * 2 < U64 then some (bytes * 2) else none
  checkedAdd U64 total twice

def addValue {K : Type} (total : ℕ) (entry : K × StepValue) : Option ℕ := checkedAdd U64 total entry.2.bytes.length

def addRecord (session : Session) (total : ℕ) (record : Record) : Option ℕ := do
  let total ← record.request.inputs.toList.foldlM addValue total
  match session.retained record.run with
  | some (.ok receipt) => receipt.outputs.toList.foldlM addValue total
  | _ => some total

namespace Client

def new (owner : Owner) : Client := ⟨owner, none, ∅, none, .free⟩

def busy (c : Client) : Option StepRunId :=
  c.active.bind fun j =>
    match c.owner.session.retained j with
    | some _ => none
    | none => c.owner.session.runs[j]?.map (·.id)

section Calls

variable (payload : Payload)

def present (c : Client) (id : ℕ) (request : StepRequest) (timeout : Duration) : ClientReply × Client :=
  match c.records[id]? with
  | some record =>
    (if record.request = request ∧ record.timeout = timeout then .run record.run else .refused .requestConflict, c)
  | none =>
    if c.highWater.any (id ≤ ·) then (.refused .released, c)
    else
      let c := { c with highWater := some id }
      if 64 ≤ c.records.size then (.refused .retentionCapacity, c)
      else
        match c.busy with
        | some inFlight => (.refused (.admission (.busy inFlight)), c)
        | none =>
          let c := { c with active := none }
          match checkInputs payload request with
          | .error error => (.refused error, c)
          | .ok bytes => (.working, { c with stage := .loading id request timeout bytes })

def tryStep (c : Client) (request : StepRequest) (timeout : Duration) : ClientReply × Client :=
  match c.highWater with
  | none => c.present payload 0 request timeout
  | some high =>
    match checkedAdd U64 high 1 with
    | none => (.refused .sequenceExhausted, c)
    | some id => c.present payload id request timeout

def observe (c : Client) (id : ℕ) : ClientReply :=
  match c.records[id]? with
  | some record => .observed (some record.run)
  | none => if c.highWater.any (id ≤ ·) then .refused .released else .observed none

def release (c : Client) (id : ℕ) : ClientReply × Client :=
  if id ∈ c.records then (.released, { c with records := c.records.erase id }) else (.refused .released, c)

end Calls

def call (c : Client) (event : Event) (next : Reply → ClientReply × Stage) : Option (ClientReply × Client) :=
  match c.owner.session.step event with
  | none => none
  | some (reply, session) =>
    some ((next reply).1, { c with owner := c.owner.observe reply session, stage := (next reply).2 })

def settle (id : ℕ) (request : StepRequest) (timeout : Duration) : Reply → ClientReply × Stage
  | .started (.error error) => (.refused (.admission error), .free)
  | .started (.ok run) => (.working, .recording id request timeout run)
  | .accepted run => (.working, .handing id request timeout run)
  | .panicked => (.panicked, .poisoned)
  | _ => (.working, .calling id request timeout)

def proceed (c : Client) : Option (ClientReply × Client) :=
  match c.stage with
  | .free | .poisoned => none
  | .loading id request timeout bytes =>
    match baseTotal c.owner.retention bytes with
    | none => some (.refused .bounds, { c with stage := .free })
    | some retained =>
      some (.working, { c with stage := .summing id request timeout retained (c.records.toList.map Prod.snd) })
  | .summing id request timeout retained (record :: left) =>
    match addRecord c.owner.session retained record with
    | none => some (.refused .bounds, { c with stage := .free })
    | some retained => some (.working, { c with stage := .summing id request timeout retained left })
  | .summing id request timeout retained [] =>
    if retained < MAX_RETAINED_BYTES then
      some (.working,
        { c with owner := c.owner.reserve (MAX_RETAINED_BYTES - retained), stage := .starting id request timeout })
    else some (.refused .retentionCapacity, { c with stage := .free })
  | .starting id request timeout => some (.handed id, { c with stage := .entering id request timeout })
  | .entering id request timeout => c.call (.start 0 request (some timeout)) (settle id request timeout)
  | .calling id request timeout =>
    match c.owner.session.calls[(0 : ℕ)]? with
    | some (.read _) => c.call (.accept 0) (settle id request timeout)
    | some (.retry _ _) => c.call (.retry 0) (settle id request timeout)
    | none => none
  | .handing id request timeout _ => c.call (.handOver 0) (settle id request timeout)
  | .recording id request timeout run =>
    some (.admitted id ⟨request, timeout, run⟩,
      { c with active := some run, records := c.records.insert id ⟨request, timeout, run⟩, stage := .free })

def isOthers : OwnerEvent → Bool
  | .session (.start _ _ _) | .session (.retry _) | .session (.accept _) | .session
    (.handOver _) | .reserve _ => false
  | .session _ | .invoke | .receive _ => true

def locked (c : Client) (f : ClientReply × Client) : Option (ClientReply × Client) :=
  match c.stage with
  | .free => some f
  | .poisoned => some (.refused .ownerUnknown, c)
  | _ => none

def step (payload : Payload) (c : Client) : ClientEvent → Option (ClientReply × Client)
  | .tryStep request timeout => c.locked (c.tryStep payload request timeout)
  | .start id request timeout => c.locked (c.present payload id request timeout)
  | .observe id => c.locked (c.observe id, c)
  | .release id => c.locked (c.release id)
  | .proceed => c.proceed
  | .owner event =>
    if isOthers event then (c.owner.step event).map fun (reply, owner) => (.owner reply, { c with owner }) else none

abbrev run (payload : Payload) (c : Client) (events : List ClientEvent) : Option (List ClientReply × Client) :=
  Machine.run (step payload) c events

end Client

end Reiny.Process
