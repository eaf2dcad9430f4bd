import Mathlib.Tactic

namespace Reiny.Step

open Std

abbrev Map (K V : Type) [Ord K] := ExtTreeMap K V

def Map.of {K V : Type} [Ord K] (entries : List (K × V)) : Map K V := ExtTreeMap.ofList entries

abbrev Bytes := List UInt8

structure StepType where
  typeName : String
  fingerprint : UInt64
  semantics : Map String String
deriving DecidableEq

structure StepValue where
  stepType : StepType
  bytes : Bytes
deriving DecidableEq

/-- A node's named port, ordered by node and then by name. `StepInput` and `StepOutput` of the source
are both this. -/
structure StepPort where
  inst : String
  port : String
deriving DecidableEq

instance : Ord StepPort := ⟨compareLex (compareOn StepPort.inst) (compareOn StepPort.port)⟩

instance : TransOrd StepPort :=
  inferInstanceAs (TransCmp (compareLex (compareOn StepPort.inst) (compareOn StepPort.port)))

instance : LawfulEqOrd StepPort where
  eq_of_compare {a b} h := by
    obtain ⟨hi, hp⟩ := Ordering.then_eq_eq.mp h
    have hi' : a.inst = b.inst := LawfulEqOrd.eq_of_compare hi
    have hp' : a.port = b.port := LawfulEqOrd.eq_of_compare hp
    cases a
    cases b
    simp_all

abbrev StepInput := StepPort

abbrev StepOutput := StepPort

structure StepSchema where
  inputs : Map String StepType
  outputs : Map String StepType
deriving DecidableEq

inductive StepSource
  | external
  | sameTick (source : StepOutput)
  | previousTick (source : StepOutput) (initial : StepValue)
deriving DecidableEq

structure StepGraph where
  nodes : Map String StepSchema
  inputs : Map StepInput StepSource
deriving DecidableEq

inductive StepPlanError
  | emptyGraph
  | invalidInstance (inst : String)
  | invalidPort (inst port : String)
  | missingInput (input : StepInput)
  | unknownInput (input : StepInput)
  | unknownSource (output : StepOutput)
  | typeMismatch (input : StepInput) (expected actual : StepType)
  | initialTypeMismatch (input : StepInput) (expected actual : StepType)
  | sameTickCycle (instances : List String)
  | epochExhausted
deriving DecidableEq

abbrev StepInputs := Map String StepValue

abbrev StepOutputs := Map String StepValue

def isWhitespace (c : Char) : Bool :=
  let n := c.toNat
  (9 ≤ n && n ≤ 13) || n == 0x20 || n == 0x85 || n == 0xA0 || n == 0x1680 || (0x2000 ≤ n && n ≤ 0x200A) ||
    n == 0x2028 || n == 0x2029 || n == 0x202F || n == 0x205F || n == 0x3000

def segment (value : List Char) : Bool :=
  !value.isEmpty && value != ['.'] && value != ['.', '.'] &&
    !value.any (['/', '*', '?', '#', '$', '@'].contains ·) && !value.any isWhitespace

def validateNamespace (value : String) : Bool :=
  (value.toList.splitOn '/').all fun part => segment part && part != ['.'] && part != ['.', '.']

def validatePortName (value : String) : Bool := segment value.toList

end Reiny.Step
