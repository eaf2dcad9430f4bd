import Reiny.Lib.Shuffle
import Reiny.Schema.Fingerprint

namespace Reiny.Schema

open Std Lib Results Shuffle Worklist List FieldDescriptor

inductive SameReference (index : Index) (scope : String) : Option String → Option String → Prop
  | same (typeName : Option String) : SameReference index scope typeName typeName
  | absolute {reference target : String} (h : index.resolve scope reference = .ok target) :
      SameReference index scope (some reference) (some ("." ++ target))
  | relative {reference target : String} (h : index.resolve scope reference = .ok target) :
      SameReference index scope (some ("." ++ target)) (some reference)

inductive SameJsonName (name : String) : Option String → Option String → Prop
  | same (jsonName : Option String) : SameJsonName name jsonName jsonName
  | written : SameJsonName name none (some (defaultJsonName name))
  | omitted : SameJsonName name (some (defaultJsonName name)) none

def Adjusted (place : ℕ → ℕ) (i i' : Int32) : Prop :=
  i'.toInt = if 0 ≤ i.toInt then (place i.toInt.toNat : ℤ) else i.toInt

structure FieldReworded (refer : Option String → Option String → Prop) (place : ℕ → ℕ)
    (field field' : FieldDescriptor) :
    Prop where
  typeName : refer field.typeName field'.typeName
  oneofIndex : Option.Rel (Adjusted place) field.oneofIndex field'.oneofIndex
  jsonName : SameJsonName field.fieldName field.jsonName field'.jsonName
  rest : field' = { field with
    typeName := field'.typeName, oneofIndex := field'.oneofIndex, jsonName := field'.jsonName }

variable {refer : Option String → Option String → Prop}

lemma FieldReworded.same {α : Type} {place : ℕ → ℕ} {field field' : FieldDescriptor}
    (h : FieldReworded refer place field field') (f : FieldDescriptor → α)
    (hf : ∀ typeName oneofIndex jsonName,
      f { field with typeName := typeName, oneofIndex := oneofIndex, jsonName := jsonName } = f field) :
    f field' = f field := by
  rw [h.rest]
  exact hf _ _ _

structure BodyReworded (refer : Option String → Option String → Prop) (body body' : MessageBody) : Prop where
  field : ∃ place : ℕ → ℕ, (∀ i < body.oneofDecl.length, body'.oneofDecl[place i]? = body.oneofDecl[i]?) ∧
    Shuffled (FieldReworded refer place) body.field body'.field
  oneofDecl : body.oneofDecl.Perm body'.oneofDecl
  reservedRange : body.reservedRange.Perm body'.reservedRange
  reservedName : body.reservedName.Perm body'.reservedName
  rest : body' = { body with
    field := body'.field, oneofDecl := body'.oneofDecl, reservedRange := body'.reservedRange,
    reservedName := body'.reservedName }

structure EnumReworded (body body' : EnumDescriptor) : Prop where
  default : body'.value.head? = body.value.head?
  value : body.value.tail.Perm body'.value.tail
  reservedRange : body.reservedRange.Perm body'.reservedRange
  reservedName : body.reservedName.Perm body'.reservedName
  rest : body' = { body with
    value := body'.value, reservedRange := body'.reservedRange, reservedName := body'.reservedName }

inductive DefinitionReworded (refer : Option String → Option String → Prop) : Definition → Definition → Prop
  | message {body body' : MessageBody} (h : BodyReworded refer body body') :
      DefinitionReworded refer (.message body) (.message body')
  | enumeration {body body' : EnumDescriptor} (h : EnumReworded body body') :
      DefinitionReworded refer (.enumeration body) (.enumeration body')

lemma adjusted_id (i : Int32) : Adjusted id i i := by
  rw [Adjusted]
  split_ifs with h
  · exact (Int.toNat_of_nonneg h).symm
  · rfl

lemma fieldReworded_refl (hr : ∀ typeName, refer typeName typeName) (field : FieldDescriptor) :
    FieldReworded refer id field field where
  typeName := hr field.typeName
  oneofIndex := by
    cases field.oneofIndex with
    | none => exact .none
    | some i => exact .some (adjusted_id i)
  jsonName := .same field.jsonName
  rest := rfl

lemma bodyReworded_refl (hr : ∀ typeName, refer typeName typeName) (body : MessageBody) :
    BodyReworded refer body body where
  field := ⟨id, fun _ _ => rfl, shuffled_of_perm (fieldReworded_refl hr) (List.Perm.refl body.field)⟩
  oneofDecl := .refl _
  reservedRange := .refl _
  reservedName := .refl _
  rest := rfl

lemma enumReworded_refl (body : EnumDescriptor) : EnumReworded body body where
  default := rfl
  value := .refl _
  reservedRange := .refl _
  reservedName := .refl _
  rest := rfl

lemma definitionReworded_refl (hr : ∀ typeName, refer typeName typeName) :
    ∀ definition, DefinitionReworded refer definition definition
  | .message body => .message (bodyReworded_refl hr body)
  | .enumeration body => .enumeration (enumReworded_refl body)

lemma DefinitionReworded.kind {definition definition' : Definition}
    (h : DefinitionReworded refer definition definition') : definition'.kind = definition.kind := by
  cases h <;> rfl

instance : Std.Total fieldLe := ⟨fun a b => le_total a.fieldNumber.toInt b.fieldNumber.toInt⟩

instance : IsTrans FieldDescriptor fieldLe := ⟨fun _ _ _ hab hbc => Int.le_trans hab hbc⟩

lemma rangeLe_iff (a b : Int32 × Int32) :
    rangeLe a b ↔ toLex (a.1.toInt, a.2.toInt) ≤ toLex (b.1.toInt, b.2.toInt) := by
  rw [Prod.Lex.toLex_le_toLex, rangeLe, Int32.toInt_inj]

lemma valueLe_iff (a b : Int32 × String) : valueLe a b ↔ toLex (a.1.toInt, a.2) ≤ toLex (b.1.toInt, b.2) := by
  rw [Prod.Lex.toLex_le_toLex, valueLe, Int32.toInt_inj]

lemma sortRanges_perm {ranges ranges' : List Range} (h : ranges.Perm ranges') :
    sortRanges ranges = sortRanges ranges' := by
  refine insertionSort_perm_eq (fun a => toLex (a.1.toInt, a.2.toInt)) ?_ rangeLe_iff (h.map Range.bounds)
  intro a b hab
  obtain ⟨hf, hs⟩ := Prod.mk.inj (toLex.injective hab)
  exact Prod.ext (Int32.toInt_inj.mp hf) (Int32.toInt_inj.mp hs)

lemma sortStrings_perm {names names' : List String} (h : names.Perm names') :
    sortStrings names = sortStrings names' :=
  insertionSort_perm_eq id Function.injective_id (fun _ _ => Iff.rfl) h

lemma sortValues_perm {values values' : List (Int32 × String)} (h : values.Perm values') :
    values.insertionSort valueLe = values'.insertionSort valueLe := by
  refine insertionSort_perm_eq (fun a => toLex (a.1.toInt, a.2)) ?_ valueLe_iff h
  intro a b hab
  obtain ⟨hf, hs⟩ := Prod.mk.inj (toLex.injective hab)
  exact Prod.ext (Int32.toInt_inj.mp hf) hs

variable {index index' : Index} {scope reference target : String}

lemma resolve_mem (h : index.resolve scope reference = .ok target) : target ∈ index := by
  unfold Index.resolve at h
  split at h
  · obtain ⟨hm, h⟩ := ensure_bind_ok.mp h
    cases pure_ok.mp h
    exact hm
  · obtain ⟨-, h⟩ := ensure_bind_ok.mp h
    have hf := find?_some (ofOption_ok.mp h)
    exact of_decide_eq_true hf

lemma resolve_absolute (h : target ∈ index) : index.resolve scope ("." ++ target) = .ok target := by
  have hl : ("." ++ target).toList = '.' :: target.toList := by simp
  have ho : String.ofList target.toList = target := String.ofList_toList
  rw [Index.resolve.eq_def, hl]
  simp only [ho]
  exact ensure_bind_ok.mpr ⟨h, rfl⟩

lemma resolve_congr (h : ∀ name, name ∈ index' ↔ name ∈ index) :
    index'.resolve scope reference = index.resolve scope reference := by
  unfold Index.resolve
  simp only [h]

lemma sameReference_resolve {field field' : FieldDescriptor} {found : Option String}
    (hn : ∀ name, name ∈ index' ↔ name ∈ index) (h : SameReference index scope field.typeName field'.typeName)
    (hf : fieldReference index scope field = .ok found) : fieldReference index' scope field' = .ok found := by
  unfold fieldReference at hf ⊢
  generalize field.typeName = written at h hf
  generalize field'.typeName = written' at h
  cases h with
  | same =>
    cases written with
    | none => exact hf
    | some reference =>
      simp only [resolve_congr hn]
      exact hf
  | absolute hr =>
    rename_i reference target
    simp only [hr] at hf
    simp only [resolve_absolute ((hn target).mpr (resolve_mem hr))]
    exact hf
  | relative hr =>
    rename_i reference target
    simp only [resolve_absolute (resolve_mem hr)] at hf
    simp only [resolve_congr hn, hr]
    exact hf

variable {name : String} {dialect : Dialect} {message message' : MessageBody} {field field' : FieldDescriptor}
  {place : ℕ → ℕ}

def KeepsKinds (index index' : Index) : Prop :=
  ∀ (name : String) entry, index[name]? = some entry → ∃ entry', index'[name]? = some entry' ∧
    entry'.2.kind = entry.2.kind

lemma fieldReference_mem {target : String} (h : fieldReference index name field = .ok (some target)) :
    target ∈ index := by
  unfold fieldReference at h
  split at h
  · cases h
  · obtain ⟨found, hf, h⟩ := bind_ok.mp h
    cases pure_ok.mp h
    exact resolve_mem hf

lemma fieldType_reworded {result : FieldType × Option String} (hk : KeepsKinds index index')
    (h : FieldReworded refer place field field')
    (hr : ∀ found, fieldReference index name field = .ok found → fieldReference index' name field' = .ok found)
    (hok : fieldType index name field = .ok result) : fieldType index' name field' = .ok result := by
  have ht : field'.type = field.type := h.same type fun _ _ _ => rfl
  have hn : field'.fieldName = field.fieldName := h.same fieldName fun _ _ _ => rfl
  obtain ⟨reference, href, hok⟩ := bind_ok.mp hok
  have hin : (reference.bind fun target => index'[target]?.map fun entry => entry.2.kind) =
      reference.bind fun target => index[target]?.map fun entry => entry.2.kind := by
    cases reference with
    | none => rfl
    | some target =>
      obtain ⟨entry, he⟩ := Maps.some_of_mem (fieldReference_mem href)
      obtain ⟨entry', he', hki⟩ := hk target entry he
      simp only [Option.bind_some, he, he', Option.map_some, hki]
  refine bind_ok.mpr ⟨reference, hr reference href, ?_⟩
  simp only [hin, ht, hn]
  exact hok

lemma adjusted_inj {decl decl' : List (Option String)} {i j i' j' : Int32} (hnd : decl.Nodup)
    (hp : ∀ i < decl.length, decl'[place i]? = decl[i]?) (hi : 0 ≤ i.toInt ∧ i.toInt.toNat < decl.length)
    (hj : 0 ≤ j.toInt ∧ j.toInt.toNat < decl.length) (ha : Adjusted place i i') (ha' : Adjusted place j j') :
    i' = j' ↔ i = j := by
  rw [Adjusted, if_pos hi.1] at ha
  rw [Adjusted, if_pos hj.1] at ha'
  constructor
  · rintro rfl
    have hs : place i.toInt.toNat = place j.toInt.toNat := by omega
    have hg : decl[i.toInt.toNat]? = decl[j.toInt.toNat]? := by
      rw [← hp _ hi.2, ← hp _ hj.2, hs]
    have hat : i.toInt.toNat = j.toInt.toNat := (getElem?_inj hi.2 hnd).mp hg
    exact Int32.toInt_inj.mp (by omega)
  · rintro rfl
    exact Int32.toInt_inj.mp (by rw [ha, ha'])

variable {oneof : Option String}

lemma fieldOneof_ranged (h : fieldOneof message field = .ok oneof) :
    ∀ i, field.oneofIndex = some i → 0 ≤ i.toInt ∧ i.toInt.toNat < message.oneofDecl.length := by
  intro i hi
  rw [fieldOneof, hi] at h
  obtain ⟨decl, hd, -⟩ := bind_ok.mp h
  rw [ofOption_ok] at hd
  split_ifs at hd with hn
  exact ⟨hn, (List.getElem?_eq_some_iff.mp hd).1⟩

lemma fieldOneof_reworded
    (hp : ∀ i < message.oneofDecl.length, message'.oneofDecl[place i]? = message.oneofDecl[i]?)
    (h : FieldReworded refer place field field') (hok : fieldOneof message field = .ok oneof) :
    fieldOneof message' field' = .ok oneof := by
  have hr := fieldOneof_ranged hok
  have hidx := h.oneofIndex
  unfold fieldOneof at hok ⊢
  generalize field.oneofIndex = i at hok hidx hr
  generalize field'.oneofIndex = i' at hidx
  cases hidx with
  | none => exact hok
  | some ha =>
    rename_i i i'
    obtain ⟨hn, hlt⟩ := hr i rfl
    rw [Adjusted, if_pos hn] at ha
    obtain ⟨decl, hd, hok⟩ := bind_ok.mp hok
    rw [ofOption_ok, if_pos hn] at hd
    refine bind_ok.mpr ⟨decl, ?_, hok⟩
    rw [ofOption_ok, if_pos (by omega), ha, Int.toNat_natCast, hp _ hlt, hd]

lemma SameJsonName.getD {jsonName jsonName' : Option String} (h : SameJsonName name jsonName jsonName') :
    jsonName'.getD (defaultJsonName name) = jsonName.getD (defaultJsonName name) := by
  cases h <;> rfl

section

variable (hnd : message.oneofDecl.Nodup)
    (hp : ∀ i < message.oneofDecl.length, message'.oneofDecl[place i]? = message.oneofDecl[i]?)
    (hra : ∀ other ∈ message.field, ∀ i, other.oneofIndex = some i →
      0 ≤ i.toInt ∧ i.toInt.toNat < message.oneofDecl.length)
    (hf : Shuffled (FieldReworded refer place) message.field message'.field) (hm : field ∈ message.field)
    (h : FieldReworded refer place field field')

include hnd hp hra hf hm h

lemma countOneof_reworded :
    message'.field.countP (fun other => other.oneofIndex = field'.oneofIndex) =
      message.field.countP fun other => other.oneofIndex = field.oneofIndex := by
  have hs : ∀ other ∈ message.field, ∀ other', FieldReworded refer place other other' →
      (other'.oneofIndex = field'.oneofIndex ↔ other.oneofIndex = field.oneofIndex) := by
    intro other ho other' hrew
    have hi := hrew.oneofIndex
    have hj := h.oneofIndex
    have hrangei := hra other ho
    have hr := hra field hm
    generalize other.oneofIndex = i at hi hrangei
    generalize other'.oneofIndex = i' at hi
    generalize field.oneofIndex = j at hj hr
    generalize field'.oneofIndex = j' at hj
    cases hi with
    | none => cases hj <;> simp
    | some hi =>
      cases hj with
      | none => simp
      | some hj =>
        rw [Option.some.injEq, Option.some.injEq]
        exact adjusted_inj hnd hp (hrangei _ rfl) (hr _ rfl) hi hj
  have hpe := (hf.imp fun other ho other' hrew =>
    hs other ho other' hrew).perm_map (f := fun other => decide (other.oneofIndex = field.oneofIndex))
      (g := fun other => decide (other.oneofIndex = field'.oneofIndex)) fun _ _ hiff =>
        decide_eq_decide.mpr hiff.symm
  have hc := hpe.countP_eq id
  rw [countP_map, countP_map] at hc
  exact hc.symm

lemma encodeField_reworded {record : FieldRecord} (hk : KeepsKinds index index')
    (hre : ∀ found, fieldReference index name field = .ok found → fieldReference index' name field' = .ok found)
    (hok : encodeField index name dialect message field = .ok record) :
    encodeField index' name dialect message' field' = .ok record := by
  simp only [encodeField, bind_ok, ensure_ok, exists_const] at hok
  obtain ⟨he, ⟨kind, reference⟩, ht, label, hl, oneof, hon, ⟨⟩, ho, hr⟩ := hok
  have ho' : checkProto3Optional dialect message' field' label oneof = .ok () := by
    rw [checkProto3Optional] at ho ⊢
    rw [h.same proto3Optional fun _ _ _ => rfl,
      countOneof_reworded hnd hp hra hf hm h]
    exact ho
  simp only [encodeField, bind_ok, ensure_ok, exists_const]
  refine ⟨(h.same extendee fun _ _ _ => rfl).trans he, (kind, reference),
    fieldType_reworded hk h hre ht, label, (h.same fieldLabel fun _ _ _ => rfl).trans hl, oneof,
    fieldOneof_reworded hp h hon, (), ho', ?_⟩
  rw [h.same packed fun _ _ _ => rfl, h.same fieldNumber fun _ _ _ => rfl,
    h.same fieldName fun _ _ _ => rfl, h.same proto3Optional fun _ _ _ => rfl,
    h.same defaultValue fun _ _ _ => rfl, h.jsonName.getD]
  exact hr

end

variable {fields : List FieldDescriptor} {records : List FieldRecord}

def Fresh {α : Type} (good : α → Prop) (used list : List α) : Prop := (∀ a ∈ list, good a ∧ a ∉ used) ∧ list.Nodup

variable {α : Type} {good : α → Prop} {list used : List α} {numbers : List Int32} {names : List String}
  {record : FieldRecord}

lemma fresh_nil : Fresh good used [] := ⟨fun _ h => absurd h List.not_mem_nil, List.nodup_nil⟩

lemma fresh_cons {a : α} : Fresh good used (a :: list) ↔ (good a ∧ a ∉ used) ∧ Fresh good (a :: used) list := by
  rw [Fresh, Fresh, forall_mem_cons, nodup_cons]
  simp only [mem_cons, not_or]
  constructor
  · rintro ⟨⟨ha, hl⟩, hn, hnd⟩
    refine ⟨ha, fun b hb => ⟨(hl b hb).1, ?_, (hl b hb).2⟩, hnd⟩
    rintro rfl
    exact hn hb
  · rintro ⟨ha, hl, hnd⟩
    exact ⟨⟨ha, fun b hb => ⟨(hl b hb).1, (hl b hb).2.2⟩⟩, fun hm => (hl a hm).2.1 rfl, hnd⟩

lemma Fresh.perm {list' : List α} (h : Fresh good used list) (hp : list.Perm list') : Fresh good used list' :=
  ⟨fun a ha => h.1 a (hp.symm.subset ha), hp.nodup h.2⟩

structure Distinct (numbers : List Int32) (names : List String) (fields : List FieldDescriptor) : Prop where
  number : Fresh (fun number : Int32 => 0 < number.toInt) numbers (fields.map fieldNumber)
  name : Fresh (fun name : String => name ≠ "") names (fields.map fieldName)

lemma distinct_cons :
    Distinct numbers names (field :: fields) ↔ (0 < field.fieldNumber.toInt ∧ field.fieldNumber ∉ numbers) ∧
      (field.fieldName ≠ "" ∧ field.fieldName ∉ names) ∧
      Distinct (field.fieldNumber :: numbers) (field.fieldName :: names) fields := by
  constructor
  · rintro ⟨hnum, hn⟩
    rw [map_cons, fresh_cons] at hnum hn
    exact ⟨hnum.1, hn.1, hnum.2, hn.2⟩
  · rintro ⟨hnum, hn, hr⟩
    exact ⟨fresh_cons.mpr ⟨hnum, hr.number⟩, fresh_cons.mpr ⟨hn, hr.name⟩⟩

lemma encodeFields_ok :
    encodeFields index name dialect message numbers names fields = .ok records ↔ Distinct numbers names fields ∧
      List.Forall₂ (fun field record => encodeField index name dialect message field = .ok record)
        fields records := by
  induction fields generalizing numbers names records with
  | nil =>
    rw [encodeFields, forall₂_nil_left_iff, Except.ok.injEq, eq_comm]
    have hno : Distinct numbers names [] := ⟨fresh_nil, fresh_nil⟩
    simp only [hno, true_and]
  | cons field fields ih =>
    simp only [encodeFields, bind_ok, ensure_ok, exists_const, mapError_ok, pure_ok, ih, distinct_cons,
      forall₂_cons_left_iff]
    constructor
    · rintro ⟨hnum, hn, record, hrec, rest, ⟨hne, hr⟩, rfl⟩
      exact ⟨⟨hnum, hn, hne⟩, record, rest, hrec, hr, rfl⟩
    · rintro ⟨⟨hnum, hn, hne⟩, record, rest, hrec, hr, rfl⟩
      exact ⟨hnum, hn, record, hrec, rest, ⟨hne, hr⟩, rfl⟩

lemma Distinct.shuffled {fields' : List FieldDescriptor} (h : Distinct [] [] fields)
    (hf : Shuffled (FieldReworded refer place) fields fields') : Distinct [] [] fields' := by
  have hnu : (fields.map fieldNumber).Perm (fields'.map fieldNumber) :=
    hf.perm_map fun _ _ hfi => (hfi.same fieldNumber fun _ _ _ => rfl).symm
  have hn : (fields.map fieldName).Perm (fields'.map fieldName) :=
    hf.perm_map fun _ _ hfi => (hfi.same fieldName fun _ _ _ => rfl).symm
  exact ⟨h.number.perm hnu, h.name.perm hn⟩

lemma encodeField_number (h : encodeField index name dialect message field = .ok record) :
    record.number = field.fieldNumber := by
  simp only [encodeField, bind_ok, ensure_ok, exists_const, pure_ok] at h
  obtain ⟨-, -, -, -, -, -, -, -, -, -, -, -, rfl⟩ := h
  rfl

lemma encodeField_ranged (h : encodeField index name dialect message field = .ok record) :
    ∀ i, field.oneofIndex = some i → 0 ≤ i.toInt ∧ i.toInt.toNat < message.oneofDecl.length := by
  simp only [encodeField, bind_ok, ensure_ok, exists_const, pure_ok] at h
  obtain ⟨-, -, -, -, -, oneof, ho, -⟩ := h
  exact fieldOneof_ranged ho

lemma encoded_ascending (hs : fields.Pairwise fieldLe) (hne : Distinct [] [] fields)
    (h : List.Forall₂ (fun field record => encodeField index name dialect message field = .ok record)
      fields records) :
    (records.map fun record => record.number.toInt).Nodup ∧
      (records.map fun record => record.number.toInt).Pairwise (· ≤ ·) := by
  have hn : records.map (fun record => record.number.toInt) =
      (fields.map fieldNumber).map Int32.toInt := by
    rw [map_map]
    clear hs hne
    induction h with
    | nil => rfl
    | cons hr _ ih => rw [map_cons, map_cons, ih, encodeField_number hr, Function.comp_apply]
  rw [hn]
  refine ⟨hne.number.2.map fun _ _ => Int32.toInt_inj.mp, ?_⟩
  rw [map_map, pairwise_map]
  exact hs

lemma encodeFields_reworded (hk : KeepsKinds index index') (hnd : message.oneofDecl.Nodup)
    (hp : ∀ i < message.oneofDecl.length, message'.oneofDecl[place i]? = message.oneofDecl[i]?)
    (hf : Shuffled (FieldReworded refer place) message.field message'.field)
    (hre : ∀ field ∈ message.field, ∀ field', refer field.typeName field'.typeName → ∀ found,
      fieldReference index name field = .ok found → fieldReference index' name field' = .ok found)
    (h : encodeFields index name dialect message [] [] (message.field.insertionSort fieldLe) = .ok records) :
    encodeFields index' name dialect message' [] [] (message'.field.insertionSort fieldLe) = .ok records := by
  have hso := perm_insertionSort fieldLe message.field
  have hsort' := perm_insertionSort fieldLe message'.field
  obtain ⟨hne, hrecs⟩ := encodeFields_ok.mp h
  have he : ∀ field ∈ message.field, ∃ record, encodeField index name dialect message field = .ok record := by
    intro field hfi
    obtain ⟨record, -, hrec⟩ := (shuffled_of_forall₂ hrecs).mem (hso.symm.subset hfi)
    exact ⟨record, hrec⟩
  have hr : ∀ other ∈ message.field, ∀ i, other.oneofIndex = some i →
      0 ≤ i.toInt ∧ i.toInt.toNat < message.oneofDecl.length := by
    intro other ho
    obtain ⟨record, hrec⟩ := he other ho
    exact encodeField_ranged hrec
  -- a field and its other wording have the same record
  have hs : Shuffled (FieldReworded refer place) (message.field.insertionSort fieldLe)
      (message'.field.insertionSort fieldLe) := (hf.perm_right hsort'.symm).perm_left hso
  have hsa : ∀ field ∈ message.field, ∀ field', FieldReworded refer place field field' → ∀ record,
      encodeField index name dialect message field = .ok record →
        encodeField index' name dialect message' field' = .ok record := by
    intro field hfi field' hrew record
    exact encodeField_reworded hnd hp hr hf hfi hrew hk
      (hre field hfi field' hrew.typeName)
  obtain ⟨records', hr', hpe⟩ : ∃ records', List.Forall₂
      (fun field record => encodeField index' name dialect message' field = .ok record)
      (message'.field.insertionSort fieldLe) records' ∧ records'.Perm records := by
    obtain ⟨mid, hmid, hm⟩ := hs
    exact perm_comp_forall₂ hm.symm (forall₂_replace hmid hrecs fun field hfi field' record hrew =>
      hsa field (hso.subset hfi) field' hrew record)
  have hne' := hne.shuffled hs
  obtain ⟨-, ha⟩ := encoded_ascending (pairwise_insertionSort fieldLe _) hne hrecs
  obtain ⟨hn, ha'⟩ := encoded_ascending (pairwise_insertionSort fieldLe _) hne' hr'
  have heq : records' = records := perm_eq_of_keys hpe hn ha' ha
  exact encodeFields_ok.mpr ⟨hne', heq ▸ hr'⟩

lemma encodeMessage_reworded {record : MessageRecord} (hk : KeepsKinds index index')
    (h : BodyReworded refer message message')
    (hr : ∀ field ∈ message.field, ∀ field', refer field.typeName field'.typeName → ∀ found,
      fieldReference index name field = .ok found → fieldReference index' name field' = .ok found)
    (hok : encodeMessage index name dialect message = .ok record) :
    encodeMessage index' name dialect message' = .ok record := by
  obtain ⟨place, hp, hf⟩ := h.field
  have hma : message'.mapEntry = message.mapEntry := by rw [h.rest]
  have hme : message'.messageSetWireFormat = message.messageSetWireFormat := by rw [h.rest]
  have hextension : message'.extension = message.extension := by rw [h.rest]
  have he : message'.extensionRange = message.extensionRange := by rw [h.rest]
  have ho : (message.oneofDecl.map (·.getD "")).Perm (message'.oneofDecl.map (·.getD "")) := h.oneofDecl.map _
  simp only [encodeMessage, bind_ok, ensure_ok, exists_const, pure_ok] at hok ⊢
  obtain ⟨hex, ⟨hnd, hn⟩, fields, henc, rfl⟩ := hok
  refine ⟨?_, ⟨ho.nodup hnd, fun hm => hn (ho.symm.subset hm)⟩, fields,
    encodeFields_reworded hk hnd.of_map hp hf hr henc, ?_⟩
  · rw [hextension, he]
    exact hex
  · rw [hma, hme, sortRanges_perm h.reservedRange, sortStrings_perm h.reservedName,
      sortStrings_perm ho]

lemma encodeEnum_reworded {body body' : EnumDescriptor} {record : EnumRecord} (h : EnumReworded body body')
    (hok : encodeEnum name body = .ok record) : encodeEnum name body' = .ok record := by
  have ha : body'.allowAlias = body.allowAlias := by rw [h.rest]
  simp only [encodeEnum, bind_ok, ensure_ok, exists_const, pure_ok, ofOption_ok] at hok ⊢
  obtain ⟨default, hd, hv, rfl⟩ := hok
  have hp : body.value.Perm body'.value := by
    have hh : ∀ list : List EnumValue, list.head? = some default → list = default :: list.tail := by
      rintro (_ | ⟨value, list⟩) hl
      · cases hl
      · cases hl
        rfl
    rw [hh body.value hd, hh body'.value (h.default.trans hd)]
    exact h.value.cons default
  have hs := sortValues_perm (hp.map EnumValue.entry)
  refine ⟨default, h.default.trans hd, hs ▸ hv, ?_⟩
  rw [ha, ← hs, sortRanges_perm h.reservedRange, sortStrings_perm h.reservedName]

lemma expand_reworded {record : Record} {refs : List String} {syntaxName : Option String}
    {definition definition' : Definition} (hk : KeepsKinds index index')
    (he : index[name]? = some (syntaxName, definition)) (he' : index'[name]? = some (syntaxName, definition'))
    (h : DefinitionReworded refer definition definition')
    (hr : ∀ body, definition = .message body → ∀ field ∈ body.field, ∀ field',
      refer field.typeName field'.typeName → ∀ found, fieldReference index name field = .ok found →
        fieldReference index' name field' = .ok found)
    (hok : expand index name = .ok (record, refs)) : expand index' name = .ok (record, refs) := by
  obtain ⟨entry, dialect, shape, hf, hd, hs, rfl, rfl⟩ := expand_ok.mp hok
  rw [he] at hf
  cases hf
  refine expand_ok.mpr ⟨_, dialect, shape, he', hd, ?_, rfl, rfl⟩
  cases h with
  | message hb =>
    obtain ⟨encoded, henc, rfl⟩ := by simpa only [encodeShape, bind_ok, pure_ok] using hs
    simp only [encodeShape, bind_ok, pure_ok]
    exact ⟨encoded, encodeMessage_reworded hk hb (hr _ rfl) henc, rfl⟩
  | enumeration hb =>
    obtain ⟨encoded, henc, rfl⟩ := by simpa only [encodeShape, bind_ok, pure_ok] using hs
    simp only [encodeShape, bind_ok, pure_ok]
    exact ⟨encoded, encodeEnum_reworded hb henc, rfl⟩

end Reiny.Schema
