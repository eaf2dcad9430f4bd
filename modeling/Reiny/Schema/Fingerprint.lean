import Mathlib.Data.String.Basic
import Reiny.Lib.Framing
import Reiny.Lib.Worklist
import Reiny.Schema.Descriptor

namespace Reiny.Schema

open Std Lib Results Words Framing Worklist

def SCHEMA_FINGERPRINT_VERSION : UInt16 := 2

inductive Dialect
  | proto2 | proto3
deriving DecidableEq

def Dialect.text : Dialect → String
  | .proto2 => "proto2"
  | .proto3 => "proto3"

inductive FieldType
  | double | float | int64 | uint64 | int32 | fixed64 | fixed32 | bool | string | group | message | bytes | uint32
  | enumeration | sfixed32 | sfixed64 | sint32 | sint64
deriving DecidableEq

def FieldType.code : FieldType → Int32
  | .double => 1 | .float => 2 | .int64 => 3 | .uint64 => 4 | .int32 => 5 | .fixed64 => 6 | .fixed32 => 7
  | .bool => 8 | .string => 9 | .group => 10 | .message => 11 | .bytes => 12 | .uint32 => 13 | .enumeration => 14
  | .sfixed32 => 15 | .sfixed64 => 16 | .sint32 => 17 | .sint64 => 18

def FieldType.ofCode (code : Int32) : Option FieldType :=
  [double, float, int64, uint64, int32, fixed64, fixed32, bool, string, group, message, bytes, uint32, enumeration,
    sfixed32, sfixed64, sint32, sint64].find? (·.code == code)

inductive Label
  | optional | required | repeated
deriving DecidableEq

def Label.code : Label → Int32
  | .optional => 1 | .required => 2 | .repeated => 3

def Label.ofCode (code : Int32) : Option Label := [optional, required, repeated].find? (·.code == code)

structure FieldRecord where
  number : Int32
  name : String
  kind : FieldType
  label : Label
  reference : Option String
  oneof : Option String
  proto3Optional : Bool
  presence : Bool
  packed : Bool
  defaultValue : Option String
  jsonName : String

structure MessageRecord where
  mapEntry : Bool
  messageSetWireFormat : Bool
  reservedRange : List (Int32 × Int32)
  reservedName : List String
  oneofs : List String
  fields : List FieldRecord

structure EnumRecord where
  default : Int32
  allowAlias : Bool
  reservedRange : List (Int32 × Int32)
  reservedName : List String
  values : List (Int32 × String)

inductive Shape
  | message (record : MessageRecord)
  | enumeration (record : EnumRecord)

structure Record where
  name : String
  dialect : Dialect
  shape : Shape

def FieldDescriptor.fieldNumber (field : FieldDescriptor) : Int32 := field.number.getD 0

def FieldDescriptor.fieldName (field : FieldDescriptor) : String := field.name.getD ""

def Range.bounds (range : Range) : Int32 × Int32 := (range.start.getD 0, range.stop.getD 0)

def EnumValue.entry (value : EnumValue) : Int32 × String := (value.number.getD 0, value.name.getD "")

def rangeLe (a b : Int32 × Int32) : Prop := a.1.toInt < b.1.toInt ∨ a.1 = b.1 ∧ a.2.toInt ≤ b.2.toInt

def valueLe (a b : Int32 × String) : Prop := a.1.toInt < b.1.toInt ∨ a.1 = b.1 ∧ a.2 ≤ b.2

def fieldLe (a b : FieldDescriptor) : Prop := a.fieldNumber.toInt ≤ b.fieldNumber.toInt

instance : DecidableRel rangeLe := fun _ _ => inferInstanceAs (Decidable (_ ∨ _))

instance : DecidableRel valueLe := fun _ _ => inferInstanceAs (Decidable (_ ∨ _))

instance : DecidableRel fieldLe := fun _ _ => inferInstanceAs (Decidable (_ ≤ _))

def sortRanges (ranges : List Range) : List (Int32 × Int32) := (ranges.map Range.bounds).insertionSort rangeLe

def sortStrings (names : List String) : List String := names.insertionSort (· ≤ ·)

def camel : Bool → List Char → List Char
  | _, [] => []
  | uppercase, c :: rest =>
    if c = '_' then camel true rest else (if uppercase then c.toUpper else c) :: camel false rest

def defaultJsonName (name : String) : String := String.ofList (camel false name.toList)

def Definition.kind : Definition → FieldType
  | .message _ => .message
  | .enumeration _ => .enumeration

def fieldReference (index : Index) (name : String) (field : FieldDescriptor) : Except String (Option String) :=
  match field.typeName with
  | none => .ok none
  | some reference => do return some (← index.resolve name reference)

def fieldType (index : Index) (name : String) (field : FieldDescriptor) :
    Except String (FieldType × Option String) := do
  let reference ← fieldReference index name field
  let inferred := reference.bind fun target => index[target]?.map fun entry => entry.2.kind
  let kind ←
    match field.type with
    | some code => ofOption (FieldType.ofCode code) "invalid field type"
    | none => ofOption inferred "missing field type"
  if kind = .message ∨ kind = .group ∨ kind = .enumeration then
    ensure (inferred = some (if kind = .group then .message else kind))
      ("missing or wrong-kind reference for " ++ field.fieldName)
  else ensure (reference = none) "scalar field has a type reference"
  return (kind, reference)

def fieldLabel (field : FieldDescriptor) : Except String Label :=
  match field.label with
  | none => .ok .optional
  | some code => ofOption (Label.ofCode code) "invalid field label"

def fieldOneof (message : MessageBody) (field : FieldDescriptor) : Except String (Option String) :=
  match field.oneofIndex with
  | none => .ok none
  | some i => do
    let decl ← ofOption (if 0 ≤ i.toInt then message.oneofDecl[i.toInt.toNat]? else none)
      ("invalid oneof index " ++ toString i.toInt)
    return some (decl.getD "")

def checkProto3Optional (dialect : Dialect) (message : MessageBody) (field : FieldDescriptor) (label : Label)
    (oneof : Option String) : Except String Unit :=
  if field.proto3Optional.getD false then do
    ensure (dialect = .proto3 ∧ label = .optional ∧ oneof.isSome = true) "invalid proto3 optional field"
    ensure (message.field.countP (fun other => other.oneofIndex = field.oneofIndex) = 1)
      "proto3 optional oneof must have one field"
  else .ok ()

def encodeField (index : Index) (name : String) (dialect : Dialect) (message : MessageBody)
    (field : FieldDescriptor) : Except String FieldRecord := do
  ensure (field.extendee = none) "protobuf extension fields are unsupported"
  let (kind, reference) ← fieldType index name field
  let label ← fieldLabel field
  let oneof ← fieldOneof message field
  checkProto3Optional dialect message field label oneof
  ensure (oneof = none ∨ label = .optional) "oneof field must be optional"
  ensure (dialect ≠ .proto3 ∨ label ≠ .required) "proto3 field cannot be required"
  let packable := !(kind = .string || kind = .bytes || kind = .message || kind = .group)
  ensure (field.packed ≠ some true ∨ packable = true ∧ label = .repeated)
    "packed requires a repeated scalar or enum"
  return {
    number := field.fieldNumber
    name := field.fieldName
    kind := kind
    label := label
    reference := reference
    oneof := oneof
    proto3Optional := field.proto3Optional.getD false
    presence := label ≠ .repeated && (dialect = .proto2 || oneof.isSome || kind = .message || kind = .group)
    packed := packable && label = .repeated && field.packed.getD (dialect = .proto3)
    defaultValue := field.defaultValue
    jsonName := field.jsonName.getD (defaultJsonName field.fieldName) }

def encodeFields (index : Index) (name : String) (dialect : Dialect) (message : MessageBody) :
    List Int32 → List String → List FieldDescriptor → Except String (List FieldRecord)
  | _, _, [] => .ok []
  | numbers, names, field :: fields => do
    ensure (0 < field.fieldNumber.toInt ∧ field.fieldNumber ∉ numbers)
      ("invalid or duplicate field number in " ++ name)
    ensure (field.fieldName ≠ "" ∧ field.fieldName ∉ names) ("invalid or duplicate field name in " ++ name)
    let record ← (encodeField index name dialect message field).mapError
      fun e => "fingerprinting " ++ name ++ "." ++ field.fieldName ++ ": " ++ e
    let records ← encodeFields index name dialect message (field.fieldNumber :: numbers)
      (field.fieldName :: names) fields
    return record :: records

def encodeMessage (index : Index) (name : String) (dialect : Dialect) (message : MessageBody) :
    Except String MessageRecord := do
  ensure (message.extension = [] ∧ message.extensionRange = [])
    ("protobuf extensions are unsupported in reachable message " ++ name)
  let oneofs := message.oneofDecl.map (·.getD "")
  ensure (oneofs.Nodup ∧ "" ∉ oneofs) ("invalid or duplicate oneof name in " ++ name)
  let fields ← encodeFields index name dialect message [] [] (message.field.insertionSort fieldLe)
  return {
    mapEntry := message.mapEntry.getD false
    messageSetWireFormat := message.messageSetWireFormat.getD false
    reservedRange := sortRanges message.reservedRange
    reservedName := sortStrings message.reservedName
    oneofs := sortStrings oneofs
    fields := fields }

def encodeEnum (name : String) (enumeration : EnumDescriptor) : Except String EnumRecord := do
  let default ← ofOption enumeration.value.head? ("empty enum " ++ name)
  let values := (enumeration.value.map EnumValue.entry).insertionSort valueLe
  ensure ("" ∉ values.map (·.2) ∧ (values.map (·.2)).Nodup) ("invalid or duplicate enum value name in " ++ name)
  return {
    default := default.number.getD 0
    allowAlias := enumeration.allowAlias.getD false
    reservedRange := sortRanges enumeration.reservedRange
    reservedName := sortStrings enumeration.reservedName
    values := values }

def readDialect (syntaxName : Option String) (name : String) : Except String Dialect :=
  match syntaxName.getD "" with
  | "" | "proto2" => .ok .proto2
  | "proto3" => .ok .proto3
  | other => .error ("unsupported protobuf syntax \"" ++ other ++ "\" for " ++ name)

def Shape.references : Shape → List String
  | .message record => record.fields.filterMap (·.reference)
  | .enumeration _ => []

def encodeShape (index : Index) (name : String) (dialect : Dialect) : Definition → Except String Shape
  | .message message => do return .message (← encodeMessage index name dialect message)
  | .enumeration enumeration => do return .enumeration (← encodeEnum name enumeration)

def expand (index : Index) (name : String) : Except String (Record × List String) := do
  let (syntaxName, definition) ← ofOption index[name]? ("no definition " ++ name)
  let dialect ← readDialect syntaxName name
  let shape ← encodeShape index name dialect definition
  return (⟨name, dialect, shape⟩, shape.references)

def string (text : String) : Bytes := framedBytes text.toUTF8.data.toList

def integer (value : Int32) : Bytes := le32 value.toUInt32

def boolean (value : Bool) : Bytes := [if value then 1 else 0]

def range (bounds : Int32 × Int32) : Bytes := integer bounds.1 ++ integer bounds.2

def FieldRecord.write (field : FieldRecord) : Bytes :=
  integer field.number ++ string field.name ++ integer field.kind.code ++ integer field.label.code ++
    optional string field.reference ++ optional string field.oneof ++ boolean field.proto3Optional ++
    boolean field.presence ++ boolean field.packed ++ optional string field.defaultValue ++ string field.jsonName

def MessageRecord.write (message : MessageRecord) : Bytes :=
  boolean message.mapEntry ++ boolean message.messageSetWireFormat ++ listing range message.reservedRange ++
    listing string message.reservedName ++ listing string message.oneofs ++ listing FieldRecord.write message.fields

def EnumRecord.write (enumeration : EnumRecord) : Bytes :=
  integer enumeration.default ++ boolean enumeration.allowAlias ++ listing range enumeration.reservedRange ++
    listing string enumeration.reservedName ++
    listing (fun value => integer value.1 ++ string value.2) enumeration.values

def Shape.write : Shape → Bytes
  | .message record => 1 :: record.write
  | .enumeration record => 2 :: record.write

def Record.write (record : Record) : Bytes := string record.name ++ string record.dialect.text ++ record.shape.write

def writeClosure (root : String) (records : ExtTreeMap String Record) : Bytes :=
  string "reiny.schema-fingerprint" ++ le16 SCHEMA_FINGERPRINT_VERSION ++ string root ++
    listing (fun record => framedBytes record.write) (records.toList.map (·.2))

def Definition.weight : Definition → ℕ
  | .message body => body.field.length
  | .enumeration _ => 0

def fuel (index : Index) : ℕ := 1 + (index.keys.map fun name => (index[name]?.map (·.2.weight)).getD 0).sum

def closure (index : Index) (root : String) : Except String (Option (ExtTreeMap String Record)) :=
  close (expand index) (fuel index) [root] ∅

def MAX_LENGTH : ℕ := 2 ^ 63

def canonical (index : Index) (root : String) : Except String (Option Bytes) :=
  match index[root]? with
  | some (_, .message _) => do
    match ← closure index root with
    | none => .error "out of fuel"
    | some records => do
      let bytes := writeClosure root records
      ensure (bytes.length < MAX_LENGTH) "capacity overflow"
      return some bytes
  | _ => .ok none

def hash (bytes : Bytes) : UInt64 :=
  bytes.foldl (fun hash byte => (hash ^^^ byte.toUInt64) * 0x00000100000001b3) 0xcbf29ce484222325

def fingerprint (set : FileDescriptorSet) (root : String) : Except String (Option UInt64) := do
  let index ← Index.new set
  return (← canonical index root).map hash

variable {index : Index} {root name : String} {record : Record} {refs : List String} {bytes : Bytes}
  {index' : Index}

lemma expand_ok : expand index name = .ok (record, refs) ↔ ∃ entry dialect shape, index[name]? = some entry ∧
    readDialect entry.1 name = .ok dialect ∧ encodeShape index name dialect entry.2 = .ok shape ∧
    record = ⟨name, dialect, shape⟩ ∧ refs = shape.references := by
  simp only [expand, bind_ok, ofOption_ok, pure_ok, Prod.mk.injEq]
  constructor
  · rintro ⟨entry, he, dialect, hd, shape, hs, rfl, rfl⟩
    exact ⟨entry, dialect, shape, he, hd, hs, rfl, rfl⟩
  · rintro ⟨entry, dialect, shape, he, hd, hs, rfl, rfl⟩
    exact ⟨entry, he, dialect, hd, shape, hs, rfl, rfl⟩

lemma canonical_ok : canonical index root = .ok (some bytes) ↔
    (∃ syntaxName body, index[root]? = some (syntaxName, .message body)) ∧
      ∃ records, closure index root = .ok (some records) ∧ bytes = writeClosure root records ∧
        bytes.length < MAX_LENGTH := by
  constructor
  · intro h
    unfold canonical at h
    split at h
    · rename_i syntaxName body hr
      obtain ⟨found, hc, h⟩ := bind_ok.mp h
      cases found with
      | none => cases h
      | some records =>
        obtain ⟨hl, h⟩ := ensure_bind_ok.mp h
        cases h
        exact ⟨⟨syntaxName, body, hr⟩, records, hc, rfl, hl⟩
    · cases h
  · rintro ⟨⟨syntaxName, body, hr⟩, records, hc, rfl, hl⟩
    simp only [canonical, hr]
    rw [bind_ok]
    exact ⟨some records, hc, ensure_bind_ok.mpr ⟨hl, rfl⟩⟩

lemma encodeFields_length {dialect : Dialect} {message : MessageBody} {numbers : List Int32} {names : List String}
    {fields : List FieldDescriptor} {records : List FieldRecord}
    (h : encodeFields index name dialect message numbers names fields = .ok records) :
    records.length = fields.length := by
  induction fields generalizing numbers names records with
  | nil =>
    cases h
    rfl
  | cons field fields ih =>
    simp only [encodeFields, bind_ok, pure_ok] at h
    obtain ⟨-, -, -, -, record, -, rest, hr, rfl⟩ := h
    rw [List.length_cons, List.length_cons, ih hr]

lemma expand_bounded (h : expand index name = .ok (record, refs)) :
    name ∈ index.keys ∧ refs.length ≤ (index[name]?.map (·.2.weight)).getD 0 := by
  obtain ⟨⟨syntaxName, definition⟩, dialect, shape, he, -, hs, -, rfl⟩ := expand_ok.mp h
  refine ⟨ExtTreeMap.mem_keys.mpr (Maps.mem_of_some he), ?_⟩
  rw [he, Option.map_some, Option.getD_some]
  cases definition with
  | enumeration body =>
    obtain ⟨encoded, -, rfl⟩ := by simpa only [encodeShape, bind_ok, pure_ok] using hs
    exact Nat.zero_le _
  | message body =>
    obtain ⟨encoded, henc, rfl⟩ := by simpa only [encodeShape, bind_ok, pure_ok] using hs
    simp only [encodeMessage, bind_ok, pure_ok] at henc
    obtain ⟨-, -, -, -, fields, hf, rfl⟩ := henc
    calc (fields.filterMap (·.reference)).length ≤ fields.length := List.length_filterMap_le _ _
      _ = (body.field.insertionSort fieldLe).length := encodeFields_length hf
      _ = body.field.length := List.length_insertionSort _ _

lemma closure_fueled : closure index root ≠ .ok none := by
  refine close_bounded (P := fun _ => True) ExtTreeMap.nodup_keys (fun _ _ => trivial)
    (fun k _ v refs h => ⟨(expand_bounded h).1, (expand_bounded h).2, fun _ _ => trivial⟩) ?_
  rw [fuel, outstanding, List.filter_eq_self.mpr (by simp)]
  exact le_rfl

lemma canonical_expands (h : canonical index root = .ok (some bytes)) (hn : Reach (expand index) root name) :
    ∃ record refs, expand index name = .ok (record, refs) := by
  obtain ⟨-, records, hc, -⟩ := canonical_ok.mp h
  obtain ⟨record, refs, he, -⟩ := close_expands hc hn
  exact ⟨record, refs, he⟩

lemma canonical_agrees {syntaxName syntaxName' : Option String} {body body' : MessageBody}
    (hr : index[root]? = some (syntaxName, .message body))
    (hr' : index'[root]? = some (syntaxName', .message body'))
    (he : ∀ name, Reach (expand index) root name → expand index' name = expand index name) :
    canonical index' root = canonical index root := by
  have hc : closure index' root = closure index root := close_congr he closure_fueled closure_fueled
  simp only [canonical, hr, hr', hc]

lemma canonical_congr (h : canonical index root = .ok (some bytes))
    (hr : ∀ syntaxName body, index[root]? = some (syntaxName, .message body) →
      ∃ syntaxName body, index'[root]? = some (syntaxName, .message body))
    (he : ∀ name, Reach (expand index) root name → expand index' name = expand index name) :
    canonical index' root = .ok (some bytes) := by
  obtain ⟨⟨syntaxName, body, hm⟩, -⟩ := canonical_ok.mp h
  obtain ⟨syntaxName', body', hm'⟩ := hr syntaxName body hm
  rwa [canonical_agrees hm hm' he]

end Reiny.Schema
