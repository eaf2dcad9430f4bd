import Reiny.Step.Plan
import Reiny.Step.Status

namespace Reiny.Step

open Std Lib Results Checked

structure StepRequest where
  dt : Duration
  inputs : Map StepInput StepValue
deriving DecidableEq

inductive StepRequestError
  | zeroDt
  | timeOverflow
  | tickOverflow
  | missingInput (input : StepInput)
  | unexpectedInput (input : StepInput)
  | typeMismatch (input : StepInput) (expected actual : StepType)
deriving DecidableEq

structure ValidatedRequest where
  tick : StepTick
  nextIndex : ℕ
  inputs : Map StepInput StepValue
deriving DecidableEq

def checkExternal (nodes : Map String StepSchema) (inputs : Map StepInput StepValue) :
    StepInput × StepSource → Except (Abort StepRequestError) Unit
  | (input, .external) => do
    let value ← ofOption inputs[input]? (.failed (.missingInput input))
    let schema ← index nodes input.inst
    let expected ← index schema.inputs input.port
    ensure (value.stepType = expected) (.failed (.typeMismatch input expected value.stepType))
  | (_, .sameTick _) => .ok ()
  | (_, .previousTick _ _) => .ok ()

def StepRequest.validate (request : StepRequest) (plan : Plan) (clock : ClockSnapshot) :
    Except (Abort StepRequestError) ValidatedRequest := do
  ensure (request.dt.isZero = false) (.failed .zeroDt)
  let end_ ← ofOption (clock.time.checkedAdd request.dt) (.failed .timeOverflow)
  let nextIndex ← ofOption (checkedAdd U64 clock.nextIndex 1) (.failed .tickOverflow)
  request.inputs.keys.forM fun input =>
    ensure (plan.graph.inputs[input]? = some .external) (.failed (.unexpectedInput input))
  plan.graph.inputs.toList.forM (checkExternal plan.graph.nodes request.inputs)
  return ⟨⟨⟨clock.epoch, clock.nextIndex⟩, clock.time, request.dt, end_⟩, nextIndex, request.inputs⟩

structure StepTick.Proper (tick : StepTick) : Prop where
  positive : 0 < tick.dt.nanos
  sum : tick.start.nanos + tick.dt.nanos = tick.end_.nanos

structure Validated (graph : StepGraph) (clock : ClockSnapshot) (request : StepRequest)
    (valid : ValidatedRequest) : Prop where
  id : valid.tick.id = ⟨clock.epoch, clock.nextIndex⟩
  start : valid.tick.start = clock.time
  proper : valid.tick.Proper
  next : valid.nextIndex = clock.nextIndex + 1
  bound : valid.nextIndex < U64
  inputs : valid.inputs = request.inputs
  external : ∀ input : StepInput, graph.inputs[input]? = some .external → input ∈ request.inputs

lemma validate_ok {request : StepRequest} {plan : Plan} {clock : ClockSnapshot} {valid : ValidatedRequest}
    (h : request.validate plan clock = .ok valid) : Validated plan.graph clock request valid := by
  obtain ⟨hdt, h⟩ := ensure_bind_ok.mp h
  obtain ⟨end_, hend, h⟩ := bind_ok.mp h
  obtain ⟨next, hn, h⟩ := bind_ok.mp h
  obtain ⟨-, -, h⟩ := bind_ok.mp h
  obtain ⟨_, he, h⟩ := bind_ok.mp h
  cases pure_ok.mp h
  rw [ofOption_ok, Duration.checkedAdd_some] at hend
  rw [ofOption_ok, checkedAdd_some] at hn
  refine ⟨rfl, rfl, ⟨?_, hend⟩, hn.1.symm, hn.2, rfl, ?_⟩
  · rw [Duration.isZero, beq_eq_false_iff_ne] at hdt
    exact Nat.pos_of_ne_zero hdt
  · intro input hin
    have hc := forM_ok.mp he (input, .external) (ExtTreeMap.mem_toList_iff_getElem?_eq_some.mpr hin)
    obtain ⟨value, hv, -⟩ := bind_ok.mp hc
    rw [ofOption_ok] at hv
    exact ExtTreeMap.mem_iff_isSome_getElem?.mpr (by rw [hv]; rfl)

end Reiny.Step
