import Reiny.Schema.Fingerprint

namespace Reiny.Schema

open Std Lib Results Words Framing Worklist List

lemma ofCode_code (kind : FieldType) : FieldType.ofCode kind.code = some kind := by
  cases kind <;> rfl

lemma label_ofCode_code (label : Label) : Label.ofCode label.code = some label := by
  cases label <;> rfl

lemma kind_code_injective : Function.Injective FieldType.code := by
  intro a b h
  have := congrArg FieldType.ofCode h
  rw [ofCode_code, ofCode_code] at this
  exact Option.some.inj this

lemma label_code_injective : Function.Injective Label.code := by
  intro a b h
  have := congrArg Label.ofCode h
  rw [label_ofCode_code, label_ofCode_code] at this
  exact Option.some.inj this

lemma framed_string : Framed string := by
  apply framed_comp framed_bytes
  intro a b h
  apply String.toByteArray_inj.mp
  exact ByteArray.ext (Array.toList_inj.mp h)

lemma framed_integer : Framed integer := by
  apply framed_fixed (n := 4)
  · intro value
    exact le32_length _
  · intro a b h
    have := congrArg (fun bytes => UInt32.ofNat (ofLe bytes)) h
    simp only [integer, of_le32] at this
    cases a
    cases b
    exact congrArg Int32.ofUInt32 this

lemma framed_boolean : Framed boolean := by
  apply framed_fixed (n := 1)
  · intro value
    rfl
  · intro a b h
    cases a <;> cases b <;> first | rfl | exact absurd h (by decide)

lemma framed_range : Framed range := framed_append framed_integer framed_integer

lemma framed_text : Framed fun dialect : Dialect => string dialect.text := by
  apply framed_comp framed_string
  intro a b h
  cases a <;> cases b <;> first | rfl | exact absurd h (by decide)

lemma framed_kind : Framed fun kind : FieldType => integer kind.code :=
  framed_comp framed_integer kind_code_injective

lemma framed_label : Framed fun label : Label => integer label.code :=
  framed_comp framed_integer label_code_injective

lemma framed_field : Framed FieldRecord.write := by
  have ho := framed_optional framed_string
  have ht := framed_append framed_integer (framed_append framed_string (framed_append framed_kind
    (framed_append framed_label (framed_append ho (framed_append ho (framed_append framed_boolean
      (framed_append framed_boolean (framed_append framed_boolean (framed_append ho framed_string)))))))))
  refine framed_fields ht (f := fun field => (field.number, field.name, field.kind, field.label,
    field.reference, field.oneof, field.proto3Optional, field.presence, field.packed, field.defaultValue,
    field.jsonName)) ?_ ?_
  · rintro ⟨⟩ ⟨⟩ h
    simpa using h
  · intro field
    simp only [FieldRecord.write, append_assoc]

lemma string_pos (text : String) : 0 < (string text).length := by simp [string, framedBytes]

lemma range_pos (bounds : Int32 × Int32) : 0 < (range bounds).length := by simp [range, integer]

lemma framed_message : Framed MessageRecord.write := by
  have hp : ∀ field : FieldRecord, 0 < field.write.length := by
    intro field
    simp [FieldRecord.write, integer]
  have hn := framed_listing framed_string string_pos
  have ht := framed_append framed_boolean (framed_append framed_boolean (framed_append
    (framed_listing framed_range range_pos) (framed_append hn (framed_append hn
      (framed_listing framed_field hp)))))
  refine framed_fields ht (f := fun message => (message.mapEntry, message.messageSetWireFormat,
    message.reservedRange, message.reservedName, message.oneofs, message.fields)) ?_ ?_
  · rintro ⟨⟩ ⟨⟩ h
    simpa using h
  · intro message
    simp only [MessageRecord.write, append_assoc]

lemma framed_enum : Framed EnumRecord.write := by
  have hv : ∀ value : Int32 × String, 0 < (integer value.1 ++ string value.2).length := by
    intro value
    simp [integer]
  have ht := framed_append framed_integer (framed_append framed_boolean (framed_append
    (framed_listing framed_range range_pos) (framed_append (framed_listing framed_string string_pos)
      (framed_listing (framed_append framed_integer framed_string) hv))))
  refine framed_fields ht (f := fun enumeration => (enumeration.default, enumeration.allowAlias,
    enumeration.reservedRange, enumeration.reservedName, enumeration.values)) ?_ ?_
  · rintro ⟨⟩ ⟨⟩ h
    simpa using h
  · intro enumeration
    simp only [EnumRecord.write, append_assoc]

lemma framed_shape : Framed Shape.write := by
  intro a b s t ha hb h
  cases a with
  | message a =>
    cases b with
    | message b =>
      rw [Shape.write, length_cons] at ha hb
      obtain ⟨rfl, hr⟩ := framed_message a b s t (by omega) (by omega) (List.cons.inj h).2
      exact ⟨rfl, hr⟩
    | enumeration b => exact absurd (List.cons.inj h).1 (by decide)
  | enumeration a =>
    cases b with
    | message b => exact absurd (List.cons.inj h).1 (by decide)
    | enumeration b =>
      rw [Shape.write, length_cons] at ha hb
      obtain ⟨rfl, hr⟩ := framed_enum a b s t (by omega) (by omega) (List.cons.inj h).2
      exact ⟨rfl, hr⟩

lemma framed_record : Framed Record.write := by
  have ht := framed_append framed_string (framed_append framed_text framed_shape)
  refine framed_fields ht (f := fun record => (record.name, record.dialect, record.shape)) ?_ ?_
  · rintro ⟨⟩ ⟨⟩ h
    simpa using h
  · intro record
    simp only [Record.write, append_assoc]

variable {index index' : Index} {root root' name : String} {record : Record} {refs : List String}
  {records records' : ExtTreeMap String Record} {bytes : Bytes}

lemma records_ext (h : ∀ (name : String) (record : Record), records[name]? = some record → record.name = name)
    (h' : ∀ (name : String) (record : Record), records'[name]? = some record → record.name = name)
    (heq : records.toList.map (·.2) = records'.toList.map (·.2)) : records = records' := by
  have hn : ∀ map : ExtTreeMap String Record,
      (∀ (name : String) (record : Record), map[name]? = some record → record.name = name) →
      map.toList = (map.toList.map (·.2)).map fun record => (record.name, record) := by
    intro map hmap
    rw [map_map]
    conv_lhs => rw [← map_id map.toList]
    apply map_congr_left
    rintro ⟨name, record⟩ hm
    rw [ExtTreeMap.mem_toList_iff_getElem?_eq_some] at hm
    rw [Function.comp_apply, id, hmap name record hm]
  rw [← Maps.ofList_toList (m := records), ← Maps.ofList_toList (m := records'), hn records h, hn records' h',
    heq]

lemma writeClosure_inj (hlen : (writeClosure root records).length < 2 ^ 64)
    (hl' : (writeClosure root' records').length < 2 ^ 64)
    (heq : writeClosure root records = writeClosure root' records') :
    root = root' ∧ records.toList.map (·.2) = records'.toList.map (·.2) := by
  rw [writeClosure, append_assoc, append_assoc] at hlen hl'
  rw [writeClosure, writeClosure, append_assoc, append_assoc, append_assoc, append_assoc] at heq
  simp only [length_append] at hlen hl'
  have heq := append_cancel_left (append_cancel_left heq)
  obtain ⟨rfl, hr⟩ := framed_string root root' _ _ (by omega) (by omega) heq
  have hl : Framed (listing fun record : Record => framedBytes record.write) := by
    refine framed_listing (framed_comp_bytes framed_bytes ?_ framed_record) ?_
    · intro b
      simp [framedBytes]
    · intro record
      simp [framedBytes]
  refine ⟨rfl, (hl _ _ [] [] (by omega) (by omega) ?_).1⟩
  rw [hr]

lemma canonical_same (h : canonical index root = .ok (some bytes))
    (h' : canonical index' root' = .ok (some bytes)) :
    root = root' ∧ (∀ name, Reach (expand index) root name ↔ Reach (expand index') root' name) ∧
      ∀ name, Reach (expand index) root name →
        ∃ record refs, expand index name = .ok (record, refs) ∧ expand index' name = .ok (record, refs) := by
  obtain ⟨-, records, hc, rfl, hl⟩ := canonical_ok.mp h
  obtain ⟨-, records', hc', heq, -⟩ := canonical_ok.mp h'
  have hb : (writeClosure root records).length < 2 ^ 64 := hl.trans (by decide)
  obtain ⟨rfl, hre⟩ := writeClosure_inj hb (heq ▸ hb) heq
  have hs : records = records' := by
    refine records_ext ?_ ?_ hre
    · intro name record hg
      obtain ⟨-, refs, he⟩ := (close_ok hc).mp hg
      obtain ⟨-, -, -, -, -, -, rfl, -⟩ := expand_ok.mp he
      rfl
    · intro name record hg
      obtain ⟨-, refs, he⟩ := (close_ok hc').mp hg
      obtain ⟨-, -, -, -, -, -, rfl, -⟩ := expand_ok.mp he
      rfl
  subst hs
  have hr : ∀ {index : Index}, closure index root = .ok (some records) → ∀ name,
      Reach (expand index) root name ↔ ∃ record, records[name]? = some record := by
    intro index hc name
    constructor
    · intro hn
      obtain ⟨record, -, -, hg⟩ := close_expands hc hn
      exact ⟨record, hg⟩
    · rintro ⟨record, hg⟩
      exact ((close_ok hc).mp hg).1
  refine ⟨rfl, fun name => (hr hc name).trans (hr hc' name).symm, ?_⟩
  intro name hn
  obtain ⟨record, hg⟩ := (hr hc name).mp hn
  obtain ⟨-, refs, he⟩ := (close_ok hc).mp hg
  obtain ⟨-, refs', he'⟩ := (close_ok hc').mp hg
  have hrefs : ∀ {index : Index} {refs : List String}, expand index name = .ok (record, refs) →
      refs = record.shape.references := by
    intro index refs he
    obtain ⟨-, -, -, -, -, -, rfl, rfl⟩ := expand_ok.mp he
    rfl
  exact ⟨record, refs, he, by rw [he', hrefs he, hrefs he']⟩

theorem canonical_injective {set set' : FileDescriptorSet}
    (h : Index.new set >>= (canonical · root) = .ok (some bytes))
    (h' : Index.new set' >>= (canonical · root') = .ok (some bytes)) :
    ∃ index index', Index.new set = .ok index ∧ Index.new set' = .ok index' ∧ root = root' ∧
      (∀ name, Reach (expand index) root name ↔ Reach (expand index') root' name) ∧
      ∀ name, Reach (expand index) root name →
        ∃ record refs, expand index name = .ok (record, refs) ∧ expand index' name = .ok (record, refs) := by
  obtain ⟨index, hidx, hc⟩ := bind_ok.mp h
  obtain ⟨index', hi', hc'⟩ := bind_ok.mp h'
  exact ⟨index, index', hidx, hi', canonical_same hc hc'⟩

def modeField (typeName : String) (jsonName : Option String) : FieldDescriptor :=
  ⟨some "drive_mode", some 1, none, some 14, some typeName, none, none, none, jsonName, none, none⟩

def labelField : FieldDescriptor := ⟨some "label", some 2, none, some 9, none, none, none, none, none, none, none⟩

def commandMessage (fields : List FieldDescriptor) : DescriptorProto :=
  .mk (some "Command") ⟨fields, [], none, none, [], [], [], []⟩ [] []

def modeEnum (values : List EnumValue) : EnumDescriptor := ⟨some "Mode", values, none, [], []⟩

def driveSchema (fields : List FieldDescriptor) (values : List EnumValue) : FileDescriptorSet :=
  [⟨some "drive", [commandMessage fields], [modeEnum values], some "proto3"⟩]

def stopValue : EnumValue := ⟨some "STOP", some 0⟩

def cruiseValue : EnumValue := ⟨some "CRUISE", some 1⟩

def boostValue : EnumValue := ⟨some "BOOST", some 2⟩

def drive : FileDescriptorSet :=
  driveSchema [modeField "Mode" none, labelField] [stopValue, cruiseValue, boostValue]

def driveRewritten : FileDescriptorSet :=
  driveSchema [labelField, modeField ".drive.Mode" (some "driveMode")] [stopValue, boostValue, cruiseValue]

theorem canonical_injective_drive :
    ∃ index index', Index.new drive = .ok index ∧ Index.new driveRewritten = .ok index' ∧
    "drive.Command" = "drive.Command" ∧
    (∀ name, Reach (expand index) "drive.Command" name ↔ Reach (expand index') "drive.Command" name) ∧
    ∀ name, Reach (expand index) "drive.Command" name →
      ∃ record refs, expand index name = .ok (record, refs) ∧ expand index' name = .ok (record, refs) := by
  have hd : (Index.new drive >>= (canonical · "drive.Command")).toOption.join.isSome = true := by decide +kernel
  have hs : (Index.new driveRewritten >>= (canonical · "drive.Command")) =
      (Index.new drive >>= (canonical · "drive.Command")) := by decide +kernel
  cases hr : Index.new drive >>= (canonical · "drive.Command") with
  | error e =>
    rw [hr] at hd
    cases hd
  | ok found =>
    cases found with
    | none =>
      rw [hr] at hd
      cases hd
    | some bytes => exact canonical_injective hr (hs.trans hr)

end Reiny.Schema
