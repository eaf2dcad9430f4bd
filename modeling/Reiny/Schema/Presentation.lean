import Reiny.Schema.Injectivity
import Reiny.Schema.Rewording

namespace Reiny.Schema

open Std Lib Results Shuffle Worklist List

inductive MessagesRewritten (index : Index) : String → List DescriptorProto → List DescriptorProto → Prop
  | perm {scope : String} {messages messages' : List DescriptorProto} (h : messages.Perm messages') :
      MessagesRewritten index scope messages messages'
  | nested {scope : String} {name : Option String} {body : MessageBody} {nested nested' : List DescriptorProto}
      {enums : List EnumDescriptor} {messages : List DescriptorProto}
      (h : MessagesRewritten index (qualify scope (name.getD "")) nested nested') :
      MessagesRewritten index scope (.mk name body nested enums :: messages)
        (.mk name body nested' enums :: messages)
  | enums {scope : String} {name : Option String} {body : MessageBody} {nested : List DescriptorProto}
      {enums enums' : List EnumDescriptor} {messages : List DescriptorProto}
      (h : Shuffled EnumReworded enums enums') :
      MessagesRewritten index scope (.mk name body nested enums :: messages)
        (.mk name body nested enums' :: messages)
  | body {scope : String} {name : Option String} {body body' : MessageBody} {nested : List DescriptorProto}
      {enums : List EnumDescriptor} {messages : List DescriptorProto}
      (h : BodyReworded (SameReference index (qualify scope (name.getD ""))) body body') :
      MessagesRewritten index scope (.mk name body nested enums :: messages)
        (.mk name body' nested enums :: messages)

inductive SetRewritten (index : Index) : FileDescriptorSet → FileDescriptorSet → Prop
  | files {set set' : FileDescriptorSet} (h : set.Perm set') : SetRewritten index set set'
  | messages {package : Option String} {messages messages' : List DescriptorProto} {enums : List EnumDescriptor}
      {syntaxName : Option String} {set : FileDescriptorSet}
      (h : MessagesRewritten index (package.getD "") messages messages') :
      SetRewritten index (⟨package, messages, enums, syntaxName⟩ :: set)
        (⟨package, messages', enums, syntaxName⟩ :: set)
  | enums {package : Option String} {messages : List DescriptorProto} {enums enums' : List EnumDescriptor}
      {syntaxName : Option String} {set : FileDescriptorSet} (h : Shuffled EnumReworded enums enums') :
      SetRewritten index (⟨package, messages, enums, syntaxName⟩ :: set)
        (⟨package, messages, enums', syntaxName⟩ :: set)

inductive MessagesExtended : List DescriptorProto → List DescriptorProto → Prop
  | message {messages : List DescriptorProto} (message : DescriptorProto) :
      MessagesExtended messages (message :: messages)
  | nested {name : Option String} {body : MessageBody} {nested nested' : List DescriptorProto}
      {enums : List EnumDescriptor} {messages : List DescriptorProto} (h : MessagesExtended nested nested') :
      MessagesExtended (.mk name body nested enums :: messages) (.mk name body nested' enums :: messages)
  | enumeration {name : Option String} {body : MessageBody} {nested : List DescriptorProto}
      {enums : List EnumDescriptor} {messages : List DescriptorProto} (enumeration : EnumDescriptor) :
      MessagesExtended (.mk name body nested enums :: messages)
        (.mk name body nested (enumeration :: enums) :: messages)

inductive SetExtended : FileDescriptorSet → FileDescriptorSet → Prop
  | file {set : FileDescriptorSet} (file : FileDescriptor) : SetExtended set (file :: set)
  | messages {package : Option String} {messages messages' : List DescriptorProto} {enums : List EnumDescriptor}
      {syntaxName : Option String} {set : FileDescriptorSet} (h : MessagesExtended messages messages') :
      SetExtended (⟨package, messages, enums, syntaxName⟩ :: set) (⟨package, messages', enums, syntaxName⟩ :: set)
  | enumeration {package : Option String} {messages : List DescriptorProto} {enums : List EnumDescriptor}
      {syntaxName : Option String} {set : FileDescriptorSet} (enumeration : EnumDescriptor) :
      SetExtended (⟨package, messages, enums, syntaxName⟩ :: set)
        (⟨package, messages, enumeration :: enums, syntaxName⟩ :: set)

def KeepsReferences (index index' : Index) (root : String) : Prop :=
  ∀ (name : String) syntaxName body, Reach (expand index) root name →
    index[name]? = some (syntaxName, .message body) →
    ∀ field ∈ body.field, ∀ reference, field.typeName = some reference →
      index'.resolve name reference = index.resolve name reference

/-- Any number of changes after each other. That the names of what is added are fresh is that they can be indexed. -/
inductive Variation (root : String) : FileDescriptorSet → FileDescriptorSet → Prop
  | rewritten {set set' : FileDescriptorSet} {index : Index} (hindex : Index.new set = .ok index)
      (h : SetRewritten index set set') : Variation root set set'
  | extended {set set' : FileDescriptorSet} {index index' : Index} (hindex : Index.new set = .ok index)
      (hindex' : Index.new set' = .ok index') (h : SetExtended set set')
      (hkeeps : KeepsReferences index index' root) :
      Variation root set set'
  | trans {set set' set'' : FileDescriptorSet} (h : Variation root set set') (h' : Variation root set' set'') :
      Variation root set set''

variable {index : Index} {scope : String} {syntaxName : Option String}

structure ItemReworded (index : Index) (item item' : Item) : Prop where
  definition : DefinitionReworded (SameReference index item.fullName) item.definition item'.definition
  rest : item' = { item with definition := item'.definition }

lemma itemReworded_refl (item : Item) : ItemReworded index item item :=
  ⟨definitionReworded_refl SameReference.same item.definition, rfl⟩

lemma items_refl (items : List Item) : Shuffled (ItemReworded index) items items :=
  shuffled_of_perm itemReworded_refl (List.Perm.refl items)

lemma enumItem_reworded {body body' : EnumDescriptor} (h : EnumReworded body body') :
    ItemReworded index (enumItem syntaxName scope body) (enumItem syntaxName scope body') := by
  have hn : body'.name = body.name := by rw [h.rest]
  refine ⟨.enumeration h, ?_⟩
  rw [enumItem, enumItem, hn]

lemma enumItems_reworded {enums enums' : List EnumDescriptor} (h : Shuffled EnumReworded enums enums') :
    Shuffled (ItemReworded index) (enums.map (enumItem syntaxName scope))
      (enums'.map (enumItem syntaxName scope)) := by
  obtain ⟨mid, hm, hp⟩ := h
  refine ⟨mid.map (enumItem syntaxName scope), ?_, hp.map _⟩
  rw [forall₂_map_left_iff, forall₂_map_right_iff]
  exact hm.imp fun _ _ => enumItem_reworded

lemma scopeMessages_eq (messages : List DescriptorProto) :
    scopeMessages syntaxName scope messages = messages.flatMap (messageItems syntaxName scope) := by
  induction messages with
  | nil => rfl
  | cons message messages ih => rw [scopeMessages, flatMap_cons, ih]

variable {messages messages' : List DescriptorProto} {set set' : FileDescriptorSet}

lemma scopeMessages_rewritten (h : MessagesRewritten index scope messages messages') :
    Shuffled (ItemReworded index) (scopeMessages syntaxName scope messages)
      (scopeMessages syntaxName scope messages') := by
  induction h with
  | perm h =>
    rw [scopeMessages_eq, scopeMessages_eq]
    exact shuffled_of_perm itemReworded_refl (h.flatMap_right _)
  | nested _ ih =>
    rw [scopeMessages, scopeMessages, messageItems, messageItems]
    exact (((items_refl [_]).append (ih.append (items_refl _)))).append (items_refl _)
  | enums h =>
    rw [scopeMessages, scopeMessages, messageItems, messageItems]
    exact ((items_refl [_]).append ((items_refl _).append (enumItems_reworded h))).append (items_refl _)
  | body h =>
    rw [scopeMessages, scopeMessages, messageItems, messageItems]
    refine Shuffled.append ?_ (items_refl _)
    exact Shuffled.append (shuffled_of_forall₂ (.cons ⟨.message h, rfl⟩ .nil)) (items_refl _)

lemma items_rewritten (h : SetRewritten index set set') :
    Shuffled (ItemReworded index) (items set) (items set') := by
  cases h with
  | files h => exact shuffled_of_perm itemReworded_refl (h.flatMap_right _)
  | messages h => exact ((scopeMessages_rewritten h).append (items_refl _)).append (items_refl _)
  | enums h => exact ((items_refl _).append (enumItems_reworded h)).append (items_refl _)

lemma scopeMessages_extended (h : MessagesExtended messages messages') :
    (scopeMessages syntaxName scope messages).Sublist (scopeMessages syntaxName scope messages') := by
  induction h generalizing scope with
  | message => exact sublist_append_right _ _
  | nested _ ih =>
    rw [scopeMessages, scopeMessages, messageItems, messageItems]
    exact ((ih.append (List.Sublist.refl _)).cons_cons _).append (List.Sublist.refl _)
  | enumeration =>
    rw [scopeMessages, scopeMessages, messageItems, messageItems]
    exact (((List.Sublist.refl _).append (sublist_cons_self _ _)).cons_cons _).append (List.Sublist.refl _)

lemma items_extended (h : SetExtended set set') : (items set).Sublist (items set') := by
  cases h with
  | file file => exact sublist_append_right _ _
  | messages h => exact ((scopeMessages_extended h).append (List.Sublist.refl _)).append (List.Sublist.refl _)
  | enumeration enumeration =>
    exact ((List.Sublist.refl _).append (sublist_cons_self _ _)).append (List.Sublist.refl _)

variable {index' : Index} {root : String} {print : UInt64}

lemma fingerprint_ok : fingerprint set root = .ok (some print) ↔
    ∃ index bytes, Index.new set = .ok index ∧ canonical index root = .ok (some bytes) ∧ hash bytes = print := by
  simp only [fingerprint, bind_ok, pure_ok, Option.map_eq_some_iff]
  constructor
  · rintro ⟨index, hidx, found, hf, bytes, rfl, hp⟩
    exact ⟨index, bytes, hidx, hf, hp⟩
  · rintro ⟨index, bytes, hidx, hf, hp⟩
    exact ⟨index, hidx, some bytes, hf, bytes, rfl, hp⟩

lemma new_rewritten (hidx : Index.new set = .ok index)
    (h : Shuffled (ItemReworded index) (items set) (items set')) :
    ∃ index', Index.new set' = .ok index' ∧ (∀ name, name ∈ index' ↔ name ∈ index) ∧
      ∀ (name : String) entry, index[name]? = some entry → ∃ definition, index'[name]? =
        some (entry.1, definition) ∧
        DefinitionReworded (SameReference index name) entry.2 definition := by
  obtain ⟨hn, hnd, -⟩ := new_ok.mp hidx
  have hna : ((items set).map Item.fullName).Perm ((items set').map Item.fullName) :=
    h.perm_map fun _ _ hit => by rw [hit.rest]; rfl
  have hu : ((items set).map Item.name).Perm ((items set').map Item.name) :=
    h.perm_map fun _ _ hit => by rw [hit.rest]
  have hn' : ∀ item ∈ items set', item.name ≠ "" := by
    intro item' hi'
    obtain ⟨item, hit, heq⟩ := mem_map.mp (hu.symm.subset (mem_map_of_mem hi'))
    exact heq ▸ hn item hit
  have hidx' := new_ok.mpr ⟨hn', hna.nodup hnd, rfl⟩
  refine ⟨_, hidx', ?_, ?_⟩
  · intro name
    rw [new_mem hidx', new_mem hidx, hna.mem_iff]
  · intro name entry he
    obtain ⟨item, hit, rfl, rfl⟩ := (new_get hidx).mp he
    obtain ⟨item', hi', hr⟩ := h.mem hit
    refine ⟨item'.definition, (new_get hidx').mpr ⟨item', hi', ?_, ?_⟩, hr.definition⟩
    · rw [hr.rest]
      rfl
    · rw [hr.rest]

lemma fingerprint_rewritten (hidx : Index.new set = .ok index) (h : SetRewritten index set set')
    (hp : fingerprint set root = .ok (some print)) : fingerprint set' root = .ok (some print) := by
  obtain ⟨index', hi', hna, hes⟩ := new_rewritten hidx (items_rewritten h)
  obtain ⟨index, bytes, hs, hc, hh⟩ := fingerprint_ok.mp hp
  cases hidx.symm.trans hs
  have hk : KeepsKinds index index' := by
    intro name entry he
    obtain ⟨definition, he', hrew⟩ := hes name entry he
    exact ⟨_, he', hrew.kind⟩
  refine fingerprint_ok.mpr ⟨index', bytes, hi', canonical_congr hc ?_ ?_, hh⟩
  · intro syntaxName body hr
    obtain ⟨definition, hr', hrew⟩ := hes root _ hr
    cases hrew
    exact ⟨_, _, hr'⟩
  · intro name hn
    obtain ⟨record, refs, hexp⟩ := canonical_expands hc hn
    obtain ⟨⟨syntaxName, definition⟩, -, -, he, -⟩ := expand_ok.mp hexp
    obtain ⟨definition', he', hrew⟩ := hes name _ he
    rw [hexp]
    exact expand_reworded hk he he' hrew
      (fun _ _ _ _ _ hs _ => sameReference_resolve hna hs) hexp

lemma fingerprint_extended (hidx : Index.new set = .ok index) (hi' : Index.new set' = .ok index')
    (h : SetExtended set set') (hk : KeepsReferences index index' root)
    (hp : fingerprint set root = .ok (some print)) : fingerprint set' root = .ok (some print) := by
  obtain ⟨index, bytes, hs, hc, hh⟩ := fingerprint_ok.mp hp
  cases hidx.symm.trans hs
  have hes : ∀ (name : String) entry, index[name]? = some entry → index'[name]? = some entry := by
    intro name entry he
    obtain ⟨item, hit, heq⟩ := (new_get hidx).mp he
    exact (new_get hi').mpr ⟨item, (items_extended h).subset hit, heq⟩
  have hki : KeepsKinds index index' := fun name entry he => ⟨entry, hes name entry he, rfl⟩
  refine fingerprint_ok.mpr ⟨index', bytes, hi', canonical_congr hc ?_ ?_, hh⟩
  · intro syntaxName body hr
    exact ⟨syntaxName, body, hes root _ hr⟩
  · intro name hn
    obtain ⟨record, refs, hexp⟩ := canonical_expands hc hn
    obtain ⟨⟨syntaxName, definition⟩, -, -, he, -⟩ := expand_ok.mp hexp
    rw [hexp]
    refine expand_reworded hki he (hes name _ he) (definitionReworded_refl Eq.refl definition) ?_ hexp
    rintro body rfl field hfi field' hs found hf
    rw [fieldReference, ← hs]
    rw [fieldReference] at hf
    cases ht : field.typeName with
    | none =>
      rw [ht] at hf
      exact hf
    | some reference =>
      rw [ht] at hf
      simp only [hk name syntaxName body hn he field hfi reference ht]
      exact hf

theorem fingerprint_presentation (hprint : fingerprint set root = .ok (some print)) (h : Variation root set set') :
    fingerprint set' root = .ok (some print) := by
  induction h with
  | rewritten hidx h => exact fingerprint_rewritten hidx h hprint
  | extended hidx hi' h hk => exact fingerprint_extended hidx hi' h hk hprint
  | trans _ _ ih ih' => exact ih' (ih hprint)

lemma modeField_reworded (h : index.resolve "drive.Command" "Mode" = .ok "drive.Mode") :
    BodyReworded (SameReference index (qualify "drive" "Command"))
      ⟨[modeField "Mode" none, labelField], [], none, none, [], [], [], []⟩
      ⟨[labelField, modeField ".drive.Mode" (some "driveMode")], [], none, none, [], [], [], []⟩ where
  field := by
    refine ⟨id, fun _ _ => rfl, [modeField ".drive.Mode" (some "driveMode"), labelField], ?_, List.Perm.swap _ _ _⟩
    refine .cons ⟨SameReference.absolute h, .none, ?_, rfl⟩ (.cons (fieldReworded_refl SameReference.same _) .nil)
    exact SameJsonName.written
  oneofDecl := .refl _
  reservedRange := .refl _
  reservedName := .refl _
  rest := rfl

lemma modeEnum_reworded : EnumReworded (modeEnum [stopValue, cruiseValue, boostValue])
    (modeEnum [stopValue, boostValue, cruiseValue]) where
  default := rfl
  value := List.Perm.swap _ _ _
  reservedRange := .refl _
  reservedName := .refl _
  rest := rfl

def soundFile : FileDescriptor := ⟨some "sound", [], [modeEnum [stopValue]], some "proto3"⟩

def Item.references (item : Item) : List String :=
  match item.definition with
  | .message body => body.field.filterMap (·.typeName)
  | .enumeration _ => []

lemma keepsReferences_of_items {set : FileDescriptorSet} {index' : Index} (hidx : Index.new set = .ok index)
    (h : ∀ item ∈ items set, ∀ reference ∈ item.references,
      index'.resolve item.fullName reference = index.resolve item.fullName reference) (root : String) :
    KeepsReferences index index' root := by
  intro name syntaxName body _ he field hf reference hr
  obtain ⟨item, hit, rfl, heq⟩ := (new_get hidx).mp he
  refine h item hit reference ?_
  rw [Item.references, (Prod.mk.inj heq).2]
  exact mem_filterMap.mpr ⟨field, hf, hr⟩

theorem fingerprint_presentation_drive : ∃ print, fingerprint drive "drive.Command" = .ok (some print) ∧
    fingerprint (soundFile :: driveRewritten) "drive.Command" = .ok (some print) := by
  have hd : (fingerprint drive "drive.Command").toOption.join.isSome = true := by decide +kernel
  have hres : (Index.new drive >>= (·.resolve "drive.Command" "Mode")) = .ok "drive.Mode" := by decide +kernel
  obtain ⟨index, hidx, hm⟩ := bind_ok.mp hres
  have hmid : (Index.new (driveSchema [labelField, modeField ".drive.Mode" (some "driveMode")]
      [stopValue, cruiseValue, boostValue])).toOption.isSome = true := by decide +kernel
  have hk : (Index.new driveRewritten >>= fun index => Index.new (soundFile :: driveRewritten) >>= fun index' =>
      Except.ok (decide (∀ item ∈ items driveRewritten, ∀ reference ∈ item.references,
        index'.resolve item.fullName reference = index.resolve item.fullName reference))) = .ok true := by
    decide +kernel
  obtain ⟨rewritten, hr, hk⟩ := bind_ok.mp hk
  obtain ⟨extended, he, hk⟩ := bind_ok.mp hk
  have hv : Variation "drive.Command" drive (soundFile :: driveRewritten) := by
    refine .trans (.rewritten hidx (.messages (.body (modeField_reworded hm)))) (.trans ?_
      (.extended hr he (.file soundFile) (keepsReferences_of_items hr ?_ _)))
    · cases hn : Index.new (driveSchema [labelField, modeField ".drive.Mode" (some "driveMode")]
          [stopValue, cruiseValue, boostValue]) with
      | error e =>
        rw [hn] at hmid
        cases hmid
      | ok mid => exact .rewritten hn (.enums (shuffled_of_forall₂ (.cons modeEnum_reworded .nil)))
    · exact of_decide_eq_true (Except.ok.inj hk)
  cases hp : fingerprint drive "drive.Command" with
  | error e =>
    rw [hp] at hd
    cases hd
  | ok found =>
    cases found with
    | none =>
      rw [hp] at hd
      cases hd
    | some print => exact ⟨print, rfl, fingerprint_presentation hp hv⟩

end Reiny.Schema
