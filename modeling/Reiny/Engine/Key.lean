import Reiny.Lib.Results
import Reiny.Lib.Segments
import Reiny.Step.Graph

namespace Reiny.Engine

open Lib Results Segments Step

def KEY_ROOT : String := "reiny"
def SERVICE_CHUNK : String := "@service"
def SUB_CHUNK : String := "@sub"
def LAUNCH_CHUNK : String := "@launch"
def READY_CHUNK : String := "@ready"
def STOP_CHUNK : String := "@stop"
def SCHEMA_CHUNK : String := "@schema"

inductive EndpointSlot
  | output (port : String)
  | input (port : String)
deriving DecidableEq

structure Key where
  domain : String
  source : Option String
  endpoint : Option EndpointSlot
  ty : Option String
  chunk : Option String
deriving DecidableEq

def isReserved (c : Char) : Bool := ['/', '*', '?', '#', '$', '@'].contains c || isWhitespace c

def validateSegment (what value : String) : Except String Unit := do
  ensure (value ≠ "") (what ++ " must not be empty")
  match value.toList.find? isReserved with
  | none => .ok ()
  | some bad => .error (what ++ " '" ++ value ++ "' contains '" ++ bad.toString ++
      "': it must be a single key segment (no '/', '*', '?', '#', '$', '@' or whitespace)")

def ordinarySegment (segment : String) : Bool :=
  !(segment == "." || segment == "..") && (validateSegment "key segment" segment).isOk

def isVerbatim (segment : String) : Bool := segment.toList.head? == some '@'

def isControl (segment : String) : Bool :=
  segment == LAUNCH_CHUNK || segment == READY_CHUNK || segment == STOP_CHUNK

def schemaName (chunk : String) : Option String := (chunk.toList.dropPrefix? "@schema/".toList).map String.ofList

namespace Key

def output (domain ns port ty : String) : Key := ⟨domain, some ns, some (.output port), some ty, none⟩

/-- A module control address; the source asserts that it is one of the three control tokens. -/
def module (domain : String) (ns : Option String) (control : String) : Key := ⟨domain, ns, none, some control, none⟩

def port (key : Key) : Option String :=
  key.endpoint.map fun slot =>
    match slot with
    | .output port => port
    | .input port => port

def isVerbatimType (key : Key) : Bool := key.ty.any isVerbatim

def isInput (key : Key) : Bool :=
  match key.endpoint with
  | some (.input _) => true
  | _ => false

def isOutput (key : Key) : Bool :=
  match key.endpoint with
  | some (.output _) => true
  | _ => false

def checkSource : Option String → Except String Unit
  | none => .ok ()
  | some source => ensure (∀ part ∈ segments source, ordinarySegment part = true)
      ("invalid key source '" ++ source ++ "': expected a canonical namespace, not a pattern")

def checkType : Option String → Except String Unit
  | none => .ok ()
  | some ty => ensure (ordinarySegment ty = true ∨ isControl ty = true) ("invalid key type '" ++ ty ++ "'")

def checkPort (ty : Option String) : Option String → Except String Unit
  | none => .ok ()
  | some port => do
    ensure (ordinarySegment port = true) ("invalid endpoint port '" ++ port ++ "'")
    ensure (ty.any ordinarySegment = true) "named endpoints require a payload type"

def checkChunk (key : Key) : Option String → Except String Unit
  | none => .ok ()
  | some chunk => do
    ensure (chunk = SERVICE_CHUNK ∨ chunk = SUB_CHUNK ∨
        (schemaName chunk).any (fun name => name == "*" || ordinarySegment name) = true)
      ("invalid endpoint facet '" ++ chunk ++ "'")
    ensure (¬ (key.isOutput = true ∧ chunk = SUB_CHUNK ∨ key.isInput = true ∧ chunk = SERVICE_CHUNK))
      "endpoint facet has the wrong direction"

def validate (key : Key) : Except String Unit := do
  ensure (ordinarySegment key.domain = true) ("invalid key domain '" ++ key.domain ++ "'")
  checkSource key.source
  checkType key.ty
  checkPort key.ty key.port
  ensure (key.isVerbatimType = true → key.endpoint = none ∧ key.chunk = none)
    "module controls cannot have endpoint slots or facets"
  ensure (key.isInput = true → key.chunk.any (fun chunk => chunk == SUB_CHUNK || (schemaName chunk).isSome) = true)
    "input identities require a receiver-presence or schema facet"
  checkChunk key key.chunk

def wildcardToNone (segment : String) : Option String := if segment ≠ "*" then some segment else none

def parseSlots : List String → Option (Option EndpointSlot × Option String × Option String)
  | [] => none
  | marker :: rest =>
    if isControl marker && rest.isEmpty then some (none, some marker, none)
    else if marker == "@out" || marker == "@in" then
      match rest with
      | port :: ty :: facet =>
        if !(port == "*" || ordinarySegment port) || !(ty == "*" || ordinarySegment ty) ||
            (marker == "@out" && facet.head? == some SUB_CHUNK) then none
        else if marker == "@in" && !(facet.head? == some SUB_CHUNK || facet.head? == some SCHEMA_CHUNK) then none
        else
          let endpoint :=
            if port == "*" then none
            else if marker == "@out" then some (.output port)
            else some (.input port)
          some (endpoint, wildcardToNone ty, if facet.isEmpty then none else some (join facet))
      | _ => none
    else none

def parse (text : String) : Option Key :=
  match segments text with
  | root :: version :: domain :: tail =>
    if root ≠ KEY_ROOT ∨ version ≠ "v3" then none
    else do
      let boundary ← tail.findIdx? isVerbatim
      if boundary = 0 then none
      else
        let name := join (tail.take boundary)
        let (endpoint, ty, chunk) ← parseSlots (tail.drop boundary)
        let key : Key := ⟨domain, if name ≠ "**" then some name else none, endpoint, ty, chunk⟩
        if key.validate.isOk then some key else none
  | _ => none

def direction (key : Key) : String :=
  if key.isInput then "@in" else if key.chunk = some SUB_CHUNK then "@in" else "@out"

def displaySlots (key : Key) : String :=
  if key.isVerbatimType then key.ty.getD ""
  else key.direction ++ "/" ++ key.port.getD "*" ++ "/" ++ key.ty.getD "*"

def displayChunk : Option String → String
  | none => ""
  | some chunk => "/" ++ chunk

def display (key : Key) : String :=
  KEY_ROOT ++ "/v3/" ++ key.domain ++ "/" ++ key.source.getD "**" ++ "/" ++ key.displaySlots ++
    displayChunk key.chunk

end Key

variable {part : String}

section

variable (h : ordinarySegment part = true)

include h

lemma ordinary_reserved : ∀ c ∈ part.toList, isReserved c = false := by
  unfold ordinarySegment validateSegment at h
  cases hf : part.toList.find? isReserved with
  | none => simpa using hf
  | some bad =>
    rw [hf] at h
    unfold ensure at h
    split_ifs at h <;> simp [bind, Except.bind, Except.isOk, Except.toBool] at h

lemma ordinary_ne {c : Char} (hc : isReserved c = true) : c ∉ part.toList := by
  intro hm
  rw [ordinary_reserved h c hm] at hc
  cases hc

lemma ordinary_segments : segments part = [part] := segments_single (ordinary_ne h (by decide))

lemma ordinary_verbatim : isVerbatim part = false := by
  rw [isVerbatim, beq_eq_false_iff_ne]
  intro hh
  exact ordinary_ne h (by decide) (List.mem_of_head? hh)

lemma ordinary_star : part ≠ "*" ∧ part ≠ "**" := by
  refine ⟨?_, ?_⟩
  · rintro rfl
    exact ordinary_ne (c := '*') h (by decide) (by decide)
  · rintro rfl
    exact ordinary_ne (c := '*') h (by decide) (by decide)

end

lemma control_verbatim (h : isControl part = true) : isVerbatim part = true := by
  simp only [isControl, Bool.or_eq_true, beq_iff_eq] at h
  rcases h with (rfl | rfl) | rfl <;> decide

lemma schemaName_some {chunk name : String} : schemaName chunk = some name ↔ chunk = "@schema/" ++ name := by
  rw [schemaName, Option.map_eq_some_iff]
  constructor
  · rintro ⟨rest, hr, rfl⟩
    rw [List.dropPrefix?_eq_some_iff] at hr
    obtain ⟨pre, heq, hp⟩ := hr
    rw [← String.toList_inj, String.toList_append, heq, eq_of_beq hp, String.toList_ofList, String.toList_ofList]
  · rintro rfl
    refine ⟨name.toList, ?_, String.ofList_toList⟩
    rw [List.dropPrefix?_eq_some_iff]
    exact ⟨_, String.toList_append, beq_self_eq_true _⟩

structure Key.Valid (key : Key) : Prop where
  domain : ordinarySegment key.domain = true
  source : ∀ source, key.source = some source → ∀ part ∈ segments source, ordinarySegment part = true
  ty : ∀ ty, key.ty = some ty → ordinarySegment ty = true ∨ isControl ty = true
  port : ∀ port, key.port = some port → ordinarySegment port = true ∧ ∃ ty, key.ty = some ty ∧
    ordinarySegment ty = true
  control : key.isVerbatimType = true → key.endpoint = none ∧ key.chunk = none
  input : key.isInput = true → key.chunk = some SUB_CHUNK ∨ ∃ name, key.chunk = some ("@schema/" ++ name)
  chunk : ∀ chunk, key.chunk = some chunk → chunk = SERVICE_CHUNK ∨ chunk = SUB_CHUNK ∨
    ∃ name, chunk = "@schema/" ++ name ∧ (name = "*" ∨ ordinarySegment name = true)
  output : key.isOutput = true → key.chunk ≠ some SUB_CHUNK
  service : key.isInput = true → key.chunk ≠ some SERVICE_CHUNK

variable {key : Key} {u : Unit} {ty chunk : Option String}

lemma checkSource_ok {source : Option String} : Key.checkSource source = .ok u ↔
    ∀ s, source = some s → ∀ part ∈ segments s, ordinarySegment part = true := by
  cases source <;> simp [Key.checkSource, ensure_ok]

lemma checkType_ok : Key.checkType ty = .ok u ↔
    ∀ t, ty = some t → ordinarySegment t = true ∨ isControl t = true := by
  cases ty <;> simp [Key.checkType, ensure_ok]

lemma checkPort_ok {port : Option String} : Key.checkPort ty port = .ok u ↔
    ∀ p, port = some p → ordinarySegment p = true ∧ ∃ t, ty = some t ∧ ordinarySegment t = true := by
  cases port <;> simp [Key.checkPort, ensure_ok, bind_ok, Option.any_eq_true]

lemma checkChunk_ok : Key.checkChunk key chunk = .ok u ↔
    (∀ c, chunk = some c → c = SERVICE_CHUNK ∨ c = SUB_CHUNK ∨
      ∃ name, c = "@schema/" ++ name ∧ (name = "*" ∨ ordinarySegment name = true)) ∧
    (key.isOutput = true → chunk ≠ some SUB_CHUNK) ∧ (key.isInput = true → chunk ≠ some SERVICE_CHUNK) := by
  cases chunk with
  | none => simp [Key.checkChunk]
  | some chunk =>
    simp only [Key.checkChunk, bind_ok, ensure_ok, exists_const, Option.any_eq_true, schemaName_some,
      Bool.or_eq_true, beq_iff_eq, not_or, not_and, Option.some.injEq, forall_eq', ne_eq]

lemma input_facet :
    chunk.any (fun c => c == SUB_CHUNK || (schemaName c).isSome) = true ↔
      chunk = some SUB_CHUNK ∨ ∃ name, chunk = some ("@schema/" ++ name) := by
  cases chunk with
  | none => simp
  | some c => simp [Option.isSome_iff_exists, schemaName_some]

lemma validate_ok : key.validate = .ok u ↔ key.Valid := by
  unfold Key.validate
  simp only [bind_ok, ensure_ok, exists_const, checkSource_ok, checkType_ok, checkPort_ok, input_facet,
    checkChunk_ok]
  constructor
  · rintro ⟨hd, hsrc, hty, hp, hc, hin, hch, ho, hs⟩
    exact ⟨hd, hsrc, hty, hp, hc, hin, hch, ho, hs⟩
  · intro h
    exact ⟨h.domain, h.source, h.ty, h.port, h.control, h.input, h.chunk, h.output, h.service⟩

end Reiny.Engine
