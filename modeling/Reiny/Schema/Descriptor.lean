import Reiny.Lib.Maps

namespace Reiny.Schema

open Std Lib Results List ExtTreeMap

structure Range where
  start : Option Int32
  stop : Option Int32
deriving DecidableEq

structure FieldDescriptor where
  name : Option String
  number : Option Int32
  label : Option Int32
  type : Option Int32
  typeName : Option String
  extendee : Option String
  defaultValue : Option String
  oneofIndex : Option Int32
  jsonName : Option String
  packed : Option Bool
  proto3Optional : Option Bool
deriving DecidableEq

structure EnumValue where
  name : Option String
  number : Option Int32
deriving DecidableEq

structure EnumDescriptor where
  name : Option String
  value : List EnumValue
  allowAlias : Option Bool
  reservedRange : List Range
  reservedName : List String
deriving DecidableEq

structure MessageBody where
  field : List FieldDescriptor
  oneofDecl : List (Option String)
  mapEntry : Option Bool
  messageSetWireFormat : Option Bool
  reservedRange : List Range
  reservedName : List String
  extension : List FieldDescriptor
  extensionRange : List Range
deriving DecidableEq

inductive DescriptorProto
  | mk (name : Option String) (body : MessageBody) (nestedType : List DescriptorProto)
      (enumType : List EnumDescriptor)

structure FileDescriptor where
  package : Option String
  messageType : List DescriptorProto
  enumType : List EnumDescriptor
  syntaxName : Option String

abbrev FileDescriptorSet := List FileDescriptor

inductive Definition
  | message (body : MessageBody)
  | enumeration (body : EnumDescriptor)
deriving DecidableEq

structure Item where
  syntaxName : Option String
  scope : String
  name : String
  definition : Definition

def qualify (scope name : String) : String := if scope = "" then name else scope ++ "." ++ name

def Item.fullName (item : Item) : String := qualify item.scope item.name

def enumItem (syntaxName : Option String) (scope : String) (body : EnumDescriptor) : Item :=
  ⟨syntaxName, scope, body.name.getD "", .enumeration body⟩

mutual

def messageItems (syntaxName : Option String) (scope : String) : DescriptorProto → List Item
  | .mk name body nestedType enumType =>
    let full := qualify scope (name.getD "")
    ⟨syntaxName, scope, name.getD "", .message body⟩ ::
      (scopeMessages syntaxName full nestedType ++ enumType.map (enumItem syntaxName full))

def scopeMessages (syntaxName : Option String) (scope : String) : List DescriptorProto → List Item
  | [] => []
  | message :: messages => messageItems syntaxName scope message ++ scopeMessages syntaxName scope messages

end

def fileItems (file : FileDescriptor) : List Item :=
  let scope := file.package.getD ""
  scopeMessages file.syntaxName scope file.messageType ++ file.enumType.map (enumItem file.syntaxName scope)

def items (set : FileDescriptorSet) : List Item := set.flatMap fileItems

abbrev Index := ExtTreeMap String (Option String × Definition)

namespace Index

def insertItem (index : Index) (item : Item) : Except String Index := do
  ensure (item.name ≠ "") ("unnamed protobuf definition in " ++ item.scope)
  ensure (item.fullName ∉ index) ("duplicate protobuf definition " ++ item.fullName)
  return index.insert item.fullName (item.syntaxName, item.definition)

def new (set : FileDescriptorSet) : Except String Index := (items set).foldlM insertItem ∅

def parent (scope : String) : String :=
  String.ofList ((scope.toList.reverse.dropWhile (· ≠ '.')).drop 1).reverse

def enclosing : ℕ → String → List String
  | 0, _ => []
  | fuel + 1, scope => scope :: if scope = "" then [] else enclosing fuel (parent scope)

def resolve (index : Index) (scope reference : String) : Except String String :=
  match reference.toList with
  | '.' :: absolute => do
    ensure (String.ofList absolute ∈ index) ("unresolved protobuf reference " ++ reference ++ " in " ++ scope)
    return String.ofList absolute
  | _ => do
    ensure (reference ≠ "") ("missing protobuf reference in " ++ scope)
    ofOption (((enclosing (scope.length + 1) scope).map (qualify · reference)).find? (· ∈ index))
      ("unresolved protobuf reference " ++ reference)

end Index

variable {set : FileDescriptorSet} {index : Index} {list : List Item} {name : String}

lemma insertItem_ok {next : Index} {item : Item} : index.insertItem item = .ok next ↔
    (item.name ≠ "" ∧ item.fullName ∉ index) ∧
      index.insert item.fullName (item.syntaxName, item.definition) = next := by
  simp only [Index.insertItem, bind_ok, ensure_ok, exists_const, pure_ok, and_assoc]

lemma insertItem_fold {start : Index} : list.foldlM Index.insertItem start = .ok index ↔
    (∀ item ∈ list, item.name ≠ "" ∧ item.fullName ∉ start) ∧ (list.map Item.fullName).Nodup ∧
      index = start.insertMany (list.map fun item => (item.fullName, item.syntaxName, item.definition)) := by
  induction list generalizing start with
  | nil =>
    simp only [foldlM_nil, pure_ok, map_nil, insertMany_nil]
    constructor
    · rintro rfl
      exact ⟨nofun, nodup_nil, rfl⟩
    · rintro ⟨-, -, rfl⟩
      rfl
  | cons item list ih =>
    have hin : ∀ name, name ∉ start.insert item.fullName (item.syntaxName, item.definition) ↔
        item.fullName ≠ name ∧ name ∉ start := by
      intro name
      rw [mem_insert, LawfulEqOrd.compare_eq_iff_eq, not_or]
    rw [foldlM_cons, bind_ok]
    simp only [insertItem_ok, ih, map_cons, nodup_cons, forall_mem_cons,
      insertMany_cons]
    constructor
    · rintro ⟨next, ⟨hit, rfl⟩, hl, hnd, rfl⟩
      simp only [hin] at hl
      refine ⟨⟨hit, fun other ho => ⟨(hl other ho).1, (hl other ho).2.2⟩⟩, ⟨?_, hnd⟩, rfl⟩
      intro hm
      obtain ⟨other, ho, heq⟩ := mem_map.mp hm
      exact (hl other ho).2.1 heq.symm
    · rintro ⟨⟨hit, hl⟩, ⟨hn, hnd⟩, rfl⟩
      refine ⟨_, ⟨hit, rfl⟩, ?_, hnd, rfl⟩
      intro other ho
      rw [hin]
      refine ⟨(hl other ho).1, ?_, (hl other ho).2⟩
      intro heq
      exact hn (heq ▸ mem_map_of_mem ho)

lemma new_ok : Index.new set = .ok index ↔
    (∀ item ∈ items set, item.name ≠ "") ∧ ((items set).map Item.fullName).Nodup ∧
      index = (∅ : Index).insertMany
        ((items set).map fun item => (item.fullName, item.syntaxName, item.definition)) := by
  rw [Index.new, insertItem_fold]
  simp

lemma new_get (h : Index.new set = .ok index) {entry : Option String × Definition} :
    index[name]? = some entry ↔
      ∃ item ∈ items set, item.fullName = name ∧ (item.syntaxName, item.definition) = entry := by
  obtain ⟨-, hnd, rfl⟩ := new_ok.mp h
  have hf : Maps.Functional ((items set).map fun item =>
      (item.fullName, item.syntaxName, item.definition)) := by
    intro key v v' hv hv'
    obtain ⟨a, ha, he⟩ := mem_map.mp hv
    obtain ⟨b, hb, heqb⟩ := mem_map.mp hv'
    cases he
    obtain ⟨hn, rfl⟩ := Prod.mk.inj heqb
    rw [inj_on_of_nodup_map hnd hb ha hn]
  constructor
  · intro hg
    by_cases hm : ∃ entry', (name, entry') ∈ (items set).map fun item =>
        (item.fullName, item.syntaxName, item.definition)
    · obtain ⟨entry', he'⟩ := hm
      rw [Maps.insertMany_of_mem hf he'] at hg
      cases hg
      obtain ⟨item, hit, heq⟩ := mem_map.mp he'
      exact ⟨item, hit, (Prod.mk.inj heq).1, (Prod.mk.inj heq).2⟩
    · rw [Maps.insertMany_of_not_mem (fun entry' h => hm ⟨entry', h⟩), getElem?_empty] at hg
      cases hg
  · rintro ⟨item, hit, rfl, rfl⟩
    exact Maps.insertMany_of_mem hf (mem_map_of_mem hit)

lemma new_mem (h : Index.new set = .ok index) : name ∈ index ↔ name ∈ (items set).map Item.fullName := by
  constructor
  · intro hm
    obtain ⟨entry, he⟩ := Maps.some_of_mem hm
    obtain ⟨item, hit, rfl, -⟩ := (new_get h).mp he
    exact mem_map_of_mem hit
  · intro hm
    obtain ⟨item, hit, rfl⟩ := mem_map.mp hm
    exact Maps.mem_of_some ((new_get h).mpr ⟨item, hit, rfl, rfl⟩)

end Reiny.Schema
