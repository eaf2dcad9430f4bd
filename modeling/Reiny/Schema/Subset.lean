import Reiny.Lib.Frontier
import Reiny.Schema.Presentation

namespace Reiny.Schema

open Std Lib Results Worklist Shuffle List Option

structure FileDescriptorProto extends FileDescriptor where
  name : Option String
  dependency : List String

def FileDescriptorProto.fileName (file : FileDescriptorProto) : String := file.name.getD ""

def DescriptorProto.protoName : DescriptorProto → String
  | .mk name _ _ _ => name.getD ""

def DescriptorProto.nestedType : DescriptorProto → List DescriptorProto
  | .mk _ _ nestedType _ => nestedType

def files (set : List FileDescriptorProto) : FileDescriptorSet := set.map (·.toFileDescriptor)

def named (messages : List DescriptorProto) (name : List Char) : Option DescriptorProto :=
  messages.find? fun message => message.protoName == String.ofList name

def descend (messages : List DescriptorProto) : List (List Char) → Option DescriptorProto
  | [] => none
  | first :: names => do
    let message ← named messages first
    names.foldlM (fun message name => named message.nestedType name) message

def unqualified (file : FileDescriptor) (message : String) : Option (List Char) :=
  if file.package.getD "" = "" then some message.toList
  else do
    let rest ← message.toList.dropPrefix? (file.package.getD "").toList
    rest.dropPrefix? ['.']

def findMessage (set : List FileDescriptorProto) (message : String) :
    Option (FileDescriptorProto × DescriptorProto) :=
  set.findSome? fun file => do
    let rest ← unqualified file.toFileDescriptor message
    let found ← descend file.messageType (rest.splitOn '.')
    return (file, found)

def imports (set : List FileDescriptorProto) (name : String) : List String :=
  match set.find? fun file => file.fileName == name with
  | none => []
  | some file => file.dependency

-- Every name but the first is a dependency of some file.
def wanted (set : List FileDescriptorProto) (root : String) : Option (List String) :=
  Frontier.grow (imports set) (set.flatMap (·.dependency)).length.succ 0 [root]

/-- The encoded form of descriptor sets, and what `prost` documents about it. -/
structure SetCodec (E : Type) where
  encode : List FileDescriptorProto → E
  decode : E → Except String (List FileDescriptorProto)
  decode_encode : ∀ set, decode (encode set) = .ok set

section Operations

variable {E : Type} (P : SetCodec E)

def messageFingerprint (fileSet : E) (message : String) : Except String (Option UInt64) := do
  let set ← P.decode fileSet
  fingerprint (files set) message

def descriptorSubset (fileSet : E) (message : String) : Except String (Option E) := do
  let set ← P.decode fileSet
  match findMessage set message with
  | none => return none
  | some (root, _) =>
    match wanted set root.fileName with
    | none => .error "out of fuel"
    | some wanted => return some (P.encode (set.filter fun file => file.fileName ∈ wanted))

end Operations

section Names

variable {scope : String} {names : List (List Char)}

def joined (scope : String) (names : List (List Char)) : String :=
  names.foldl (fun scope name => qualify scope (String.ofList name)) scope

def opening (scope : String) : List Char := if scope = "" then [] else scope.toList ++ ['.']

lemma qualify_toList (scope name : String) : (qualify scope name).toList = opening scope ++ name.toList := by
  unfold qualify opening
  split_ifs <;> simp

lemma qualify_ne_empty {name : String} (h : name ≠ "") : qualify scope name ≠ "" := by
  intro he
  have hl := qualify_toList scope name
  rw [he] at hl
  obtain ⟨-, hn⟩ := append_eq_nil_iff.mp hl.symm
  exact h (String.toList_eq_nil_iff.mp hn)

lemma joined_toList (hne : names ≠ []) (h : ∀ name ∈ names, name ≠ []) :
    (joined scope names).toList = opening scope ++ ['.'].intercalate names := by
  induction names generalizing scope with
  | nil => exact absurd rfl hne
  | cons name names ih =>
    have hs : joined scope (name :: names) = joined (qualify scope (String.ofList name)) names := rfl
    cases names with
    | nil => simp [joined, qualify_toList]
    | cons next names =>
      have hna : String.ofList name ≠ "" := by
        intro he
        exact h name mem_cons_self (by simpa using congrArg String.toList he)
      rw [hs, ih (cons_ne_nil _ _) fun n hn => h n (mem_cons_of_mem _ hn), intercalate_cons_cons,
        opening, if_neg (qualify_ne_empty hna), qualify_toList]
      simp

variable {file : FileDescriptor}

lemma unqualified_joined (hne : names ≠ []) (h : ∀ name ∈ names, name ≠ []) :
    unqualified file (joined (file.package.getD "") names) = some (['.'].intercalate names) := by
  have hl := @joined_toList (file.package.getD "") names hne h
  unfold unqualified
  unfold opening at hl
  split_ifs at hl ⊢ with hp
  · rw [hl, nil_append]
  · rw [hl, append_assoc]
    simp only [bind_eq_bind]
    rw [dropPrefix?_eq_some_iff.mpr ⟨_, rfl, beq_self_eq_true _⟩, bind_some,
      dropPrefix?_eq_some_iff.mpr ⟨_, rfl, beq_self_eq_true _⟩]

lemma unqualified_some {message : String} {rest : List Char} (h : unqualified file message = some rest) :
    message.toList = opening (file.package.getD "") ++ rest := by
  unfold unqualified at h
  unfold opening
  split_ifs at h ⊢ with hp
  · cases h
    rfl
  · simp only [bind_eq_bind, bind_eq_some_iff, dropPrefix?_eq_some_iff, beq_iff_eq] at h
    obtain ⟨middle, ⟨_, hmsg, rfl⟩, _, hm, rfl⟩ := h
    rw [hmsg, hm, append_assoc]

end Names

section Paths

variable {syntaxName : Option String} {scope : String} {messages : List DescriptorProto} {names : List (List Char)}
  {message : DescriptorProto} {item : Item} {name : List Char} {body : MessageBody}

lemma messageItems_head (message : DescriptorProto) :
    ∃ head rest, messageItems syntaxName scope message = head :: rest ∧
    head.name = message.protoName ∧ head.fullName = qualify scope message.protoName ∧
    (scopeMessages syntaxName (qualify scope message.protoName) message.nestedType).Sublist rest := by
  cases message with
  | mk name body nestedType enumType =>
    refine ⟨⟨syntaxName, scope, name.getD "", .message body⟩, _, by rw [messageItems], rfl, rfl, ?_⟩
    exact sublist_append_left _ _

lemma messageItems_sublist (h : message ∈ messages) :
    (messageItems syntaxName scope message).Sublist (scopeMessages syntaxName scope messages) := by
  rw [scopeMessages_eq]
  exact sublist_flatten_of_mem (mem_map_of_mem h)

lemma heads_sublist (messages : List DescriptorProto) :
    (messages.map fun message => qualify scope message.protoName).Sublist
      ((scopeMessages syntaxName scope messages).map Item.fullName) := by
  induction messages with
  | nil => exact List.Sublist.slnil
  | cons message messages ih =>
    obtain ⟨head, rest, hit, -, hf, -⟩ := @messageItems_head syntaxName scope message
    rw [scopeMessages, hit, map_append, map_cons, map_cons, hf, cons_append]
    exact (ih.trans (sublist_append_right _ _)).cons_cons _

lemma named_unique (hnd : ((scopeMessages syntaxName scope messages).map Item.fullName).Nodup)
    (h : message ∈ messages) : named messages message.protoName.toList = some message := by
  have hh := hnd.sublist (heads_sublist messages)
  cases hf : named messages message.protoName.toList with
  | none =>
    have := find?_eq_none.mp hf message h
    simp at this
  | some other =>
    have ho : other ∈ messages := mem_of_find?_eq_some hf
    have hn : other.protoName = message.protoName := by simpa using find?_some hf
    rw [inj_on_of_nodup_map hh ho h (by rw [hn])]

lemma named_some (h : named messages name = some message) :
    message ∈ messages ∧ message.protoName = String.ofList name :=
  ⟨List.mem_of_find?_eq_some h, by simpa using List.find?_some h⟩

lemma named_ne_nil (h : named messages name = some message)
    (hna : ∀ item ∈ scopeMessages syntaxName scope messages, item.name ≠ "") : name ≠ [] := by
  obtain ⟨hm, hn⟩ := named_some h
  obtain ⟨head, rest, hit, hh, -, -⟩ := @messageItems_head syntaxName scope message
  rintro rfl
  apply hna head ((messageItems_sublist hm).subset (by rw [hit]; exact mem_cons_self))
  rw [hh, hn]

lemma walk_sound {start : DescriptorProto}
    (h : names.foldlM (fun message name => named message.nestedType name) start = some message)
    (hna : ∀ item ∈ messageItems syntaxName scope start, item.name ≠ "") :
    (∀ name ∈ names, name ≠ []) ∧ ∃ item ∈ messageItems syntaxName scope start,
      item.fullName = joined (qualify scope start.protoName) names := by
  induction names generalizing start scope with
  | nil =>
    obtain ⟨head, rest, hit, -, hf, -⟩ := @messageItems_head syntaxName scope start
    refine ⟨nofun, head, ?_, hf⟩
    rw [hit]
    exact mem_cons_self
  | cons name names ih =>
    rw [foldlM_cons, bind_eq_bind, bind_eq_some_iff] at h
    obtain ⟨next, hnext, h⟩ := h
    obtain ⟨hm, hn⟩ := named_some hnext
    obtain ⟨head, rest, hit, -, -, hne⟩ := @messageItems_head syntaxName scope start
    have hin : ∀ item ∈ scopeMessages syntaxName (qualify scope start.protoName) start.nestedType,
        item ∈ messageItems syntaxName scope start := by
      intro item hitem
      rw [hit]
      exact mem_cons_of_mem _ (hne.subset hitem)
    have hn' := @messageItems_sublist syntaxName (qualify scope start.protoName) _ next hm
    obtain ⟨hr, item, hitem, hf⟩ := ih h fun item hitem => hna item (hin item (hn'.subset hitem))
    refine ⟨forall_mem_cons.mpr ⟨named_ne_nil hnext fun item hitem => hna item (hin item hitem), hr⟩,
      item, hin item (hn'.subset hitem), ?_⟩
    rw [hf, hn]
    rfl

lemma descend_sound (h : descend messages names = some message)
    (hna : ∀ item ∈ scopeMessages syntaxName scope messages, item.name ≠ "") :
    names ≠ [] ∧ (∀ name ∈ names, name ≠ []) ∧ ∃ item ∈ scopeMessages syntaxName scope messages,
      item.fullName = joined scope names := by
  cases names with
  | nil => cases h
  | cons first names =>
    obtain ⟨start, hst, h⟩ := bind_eq_some_iff.mp h
    obtain ⟨hm, hn⟩ := named_some hst
    have hs := @messageItems_sublist syntaxName scope messages start hm
    obtain ⟨hr, item, hit, hf⟩ := walk_sound h fun item hit => hna item (hs.subset hit)
    refine ⟨cons_ne_nil _ _, forall_mem_cons.mpr ⟨named_ne_nil hst hna, hr⟩, item, hs.subset hit, ?_⟩
    rw [hf, hn]
    rfl

theorem walk_complete : ∀ (start : DescriptorProto) (scope : String),
    item ∈ messageItems syntaxName scope start → item.definition = .message body →
    ((messageItems syntaxName scope start).map Item.fullName).Nodup → ∃ names,
      item.fullName = joined (qualify scope start.protoName) names ∧
      (∀ name ∈ names, ∃ inner ∈ messageItems syntaxName scope start, inner.name.toList = name) ∧
      (names.foldlM (fun message name => named message.nestedType name) start).isSome = true
  | .mk name body' nestedType enumType, scope, hitem, hmsg, hnd => by
    rw [messageItems] at hitem hnd
    rcases List.mem_cons.mp hitem with rfl | hitem
    · exact ⟨[], rfl, (by intro _ h; cases h), rfl⟩
    rcases List.mem_append.mp hitem with hitem | hitem
    · rw [scopeMessages_eq] at hitem
      obtain ⟨next, hne, hitem⟩ := List.mem_flatMap.mp hitem
      rw [List.map_cons, List.map_append] at hnd
      have hs := (List.nodup_append.mp (List.nodup_cons.mp hnd).2).1
      have hsub := @messageItems_sublist syntaxName (qualify scope (name.getD "")) nestedType next hne
      obtain ⟨names, hfu, hna, hw⟩ := walk_complete next (qualify scope (name.getD "")) hitem hmsg
        (hs.sublist (hsub.map _))
      have hin : ∀ inner ∈ messageItems syntaxName (qualify scope (name.getD "")) next,
          inner ∈ messageItems syntaxName scope (.mk name body' nestedType enumType) := by
        intro inner hin
        rw [messageItems]
        exact mem_cons_of_mem _ (mem_append_left _ (hsub.subset hin))
      refine ⟨next.protoName.toList :: names, ?_, ?_, ?_⟩
      · rw [hfu]
        simp [joined, DescriptorProto.protoName]
      · intro other ho
        rcases mem_cons.mp ho with rfl | ho
        · obtain ⟨head, rest, hit, hh, -, -⟩ :=
            @messageItems_head syntaxName (qualify scope (name.getD "")) next
          exact ⟨head, hin head (by rw [hit]; exact mem_cons_self), by rw [hh]⟩
        · obtain ⟨inner, hm, hn⟩ := hna other ho
          exact ⟨inner, hin inner hm, hn⟩
      · have hf : named nestedType next.protoName.toList = some next := named_unique hs hne
        rw [foldlM_cons]
        simp only [DescriptorProto.nestedType, hf, bind_eq_bind, bind_some]
        exact hw
    · obtain ⟨enumeration, -, rfl⟩ := mem_map.mp hitem
      cases hmsg
termination_by start => sizeOf start
decreasing_by
  have := sizeOf_lt_of_mem hne
  simp only [DescriptorProto.mk.sizeOf_spec]
  omega

lemma descend_complete (hitem : item ∈ scopeMessages syntaxName scope messages)
    (hmsg : item.definition = .message body)
    (hnd : ((scopeMessages syntaxName scope messages).map Item.fullName).Nodup) : ∃ names,
      item.fullName = joined scope names ∧ names ≠ [] ∧
      (∀ name ∈ names, ∃ inner ∈ scopeMessages syntaxName scope messages, inner.name.toList = name) ∧
      (descend messages names).isSome = true := by
  rw [scopeMessages_eq] at hitem
  obtain ⟨start, hst, hitem⟩ := mem_flatMap.mp hitem
  have hs := @messageItems_sublist syntaxName scope messages start hst
  obtain ⟨names, hf, hna, hw⟩ := walk_complete start scope hitem hmsg (hnd.sublist (hs.map _))
  refine ⟨start.protoName.toList :: names, ?_, cons_ne_nil _ _, ?_, ?_⟩
  · rw [hf]
    simp [joined]
  · intro other ho
    rcases mem_cons.mp ho with rfl | ho
    · obtain ⟨head, rest, hit, hh, -, -⟩ := @messageItems_head syntaxName scope start
      exact ⟨head, hs.subset (by rw [hit]; exact mem_cons_self), by rw [hh]⟩
    · obtain ⟨inner, hm, hn⟩ := hna other ho
      exact ⟨inner, hs.subset hm, hn⟩
  · rw [descend, named_unique hnd hst]
    exact hw

end Paths

section Files

variable {set : List FileDescriptorProto} {index : Index} {message : String}

def FileDescriptorProto.items (file : FileDescriptorProto) : List Item := fileItems file.toFileDescriptor

def Undotted (set : List FileDescriptorProto) : Prop := ∀ file ∈ set, ∀ item ∈ file.items, '.' ∉ item.name.toList

lemma items_files (set : List FileDescriptorProto) : items (files set) = set.flatMap FileDescriptorProto.items := by
  rw [items, files, flatMap_map]
  rfl

lemma mem_items {item : Item} : item ∈ items (files set) ↔ ∃ file ∈ set, item ∈ file.items := by
  rw [items_files, mem_flatMap]

lemma file_sublist {file : FileDescriptorProto} (h : file ∈ set) : file.items.Sublist (items (files set)) := by
  rw [items_files]
  exact sublist_flatten_of_mem (mem_map_of_mem h)

lemma findMessage_sound {root : FileDescriptorProto} {found : DescriptorProto}
    (hidx : Index.new (files set) = .ok index)
    (h : findMessage set message = some (root, found)) :
    root ∈ set ∧ message ∈ root.items.map Item.fullName := by
  obtain ⟨hn, -, -⟩ := new_ok.mp hidx
  obtain ⟨before, file, after, hset, h, -⟩ := findSome?_eq_some_iff.mp h
  have hm : file ∈ set := by
    rw [hset]
    simp
  simp only [Option.bind_eq_bind, Option.bind_eq_some_iff, Option.pure_def, Option.some.injEq, Prod.mk.injEq] at h
  obtain ⟨rest, hr, m, hd, rfl, rfl⟩ := h
  refine ⟨hm, ?_⟩
  have hs : ∀ item ∈ scopeMessages file.syntaxName (file.package.getD "") file.messageType, item ∈ file.items :=
    fun item hit => mem_append_left _ hit
  obtain ⟨hne, hna, item, hit, hf⟩ := descend_sound hd fun item hit =>
    hn item ((file_sublist hm).subset (hs item hit))
  have hmsg : message = item.fullName := by
    apply String.toList_injective
    rw [hf, joined_toList hne hna, unqualified_some hr, intercalate_splitOn]
  rw [hmsg]
  exact mem_map_of_mem (hs item hit)

lemma findMessage_complete {syntaxName : Option String} {body : MessageBody}
    (hidx : Index.new (files set) = .ok index)
    (hu : Undotted set) (h : index[message]? = some (syntaxName, .message body)) :
    ∃ root found, findMessage set message = some (root, found) := by
  obtain ⟨hno, hnd, -⟩ := new_ok.mp hidx
  obtain ⟨item, hit, rfl, he⟩ := (new_get hidx).mp h
  obtain ⟨file, hfi, hit⟩ := mem_items.mp hit
  have hsub := file_sublist hfi
  have hs : (scopeMessages file.syntaxName (file.package.getD "") file.messageType).Sublist file.items :=
    sublist_append_left _ _
  have hm : item ∈ scopeMessages file.syntaxName (file.package.getD "") file.messageType := by
    rcases mem_append.mp hit with hit | hit
    · exact hit
    · obtain ⟨enumeration, -, rfl⟩ := mem_map.mp hit
      cases (Prod.mk.inj he).2
  obtain ⟨names, hfu, hne, hna, hd⟩ := descend_complete hm (Prod.mk.inj he).2
    (hnd.sublist ((hs.trans hsub).map _))
  have hp : ∀ name ∈ names, name ≠ [] ∧ '.' ∉ name := by
    intro name hn
    obtain ⟨inner, hin, rfl⟩ := hna name hn
    refine ⟨?_, hu file hfi inner (hs.subset hin)⟩
    intro hemp
    exact hno inner ((hs.trans hsub).subset hin) (String.toList_eq_nil_iff.mp hemp)
  have hso : (findMessage set item.fullName).isSome = true := by
    rw [findMessage, findSome?_isSome_iff]
    refine ⟨file, hfi, ?_⟩
    obtain ⟨found, hf⟩ := isSome_iff_exists.mp hd
    rw [hfu, unqualified_joined hne fun name hn => (hp name hn).1]
    simp only [bind_eq_bind, bind_some]
    rw [splitOn_intercalate '.' (fun name hn => (hp name hn).2) hne, hf]
    rfl
  obtain ⟨⟨root, found⟩, hf⟩ := isSome_iff_exists.mp hso
  exact ⟨root, found, hf⟩

def Imports (set : List FileDescriptorProto) (a b : String) : Prop :=
  ∃ file ∈ set, file.fileName = a ∧ b ∈ file.dependency

lemma mem_imports (hna : (set.map FileDescriptorProto.fileName).Nodup) {a b : String} :
    b ∈ imports set a ↔ Imports set a b := by
  unfold imports
  constructor
  · intro h
    cases hf : set.find? fun file => file.fileName == a with
    | none =>
      rw [hf] at h
      cases h
    | some file =>
      rw [hf] at h
      exact ⟨file, mem_of_find?_eq_some hf, by simpa using find?_some hf, h⟩
  · rintro ⟨file, hfi, rfl, hb⟩
    cases hf : set.find? fun other => other.fileName == file.fileName with
    | none =>
      have := find?_eq_none.mp hf file hfi
      simp at this
    | some other =>
      have hn : other.fileName = file.fileName := by simpa using find?_some hf
      rw [inj_on_of_nodup_map hna (mem_of_find?_eq_some hf) hfi hn]
      exact hb

lemma wanted_covers (hn : (set.map FileDescriptorProto.fileName).Nodup) (root : String) : ∃ list,
    wanted set root = some list ∧ root ∈ list ∧
      ∀ a ∈ list, ∀ b, Relation.ReflTransGen (Imports set) a b → b ∈ list := by
  have hf : ∃ list, wanted set root = some list := by
    apply @Frontier.grow_fueled _ _ (imports set) [root] _ _ (root :: set.flatMap (·.dependency))
      (nodup_singleton root)
    · intro a ha
      rw [mem_singleton.mp ha]
      exact mem_cons_self
    · intro a b hb
      obtain ⟨file, hfi, -, hd⟩ := (mem_imports hn).mp hb
      exact mem_cons_of_mem _ (mem_flatMap.mpr ⟨file, hfi, hd⟩)
    · exact (length_cons ..).le
  obtain ⟨list, hl⟩ := hf
  obtain ⟨hr, hcl⟩ := Frontier.grow_reaches hl
  refine ⟨list, hl, hr, ?_⟩
  intro a ha b hb
  exact hcl a ha b (hb.lift id fun _ _ h => (mem_imports hn).mpr h)

end Files

section Agreement

variable {index index' : Index} {name : String} {dialect : Dialect} {field : FieldDescriptor}
  {message : MessageBody} {target : String}

lemma encodeFields_congr {numbers : List Int32} {names : List String} {fields : List FieldDescriptor}
    (h : ∀ field ∈ fields, fieldType index' name field = fieldType index name field) :
    encodeFields index' name dialect message numbers names fields =
      encodeFields index name dialect message numbers names fields := by
  induction fields generalizing numbers names with
  | nil => rfl
  | cons field fields ih =>
    obtain ⟨hfi, hf⟩ := forall_mem_cons.mp h
    have he : encodeField index' name dialect message field = encodeField index name dialect message field := by
      simp only [encodeField, hfi]
    simp only [encodeFields, he, ih hf]

lemma expand_congr (he : index'[name]? = index[name]?) (h : ∀ syntaxName body,
      index[name]? = some (syntaxName, .message body) →
        ∀ field ∈ body.field, fieldType index' name field = fieldType index name field) :
    expand index' name = expand index name := by
  unfold expand
  rw [he]
  cases hf : index[name]? with
  | none => rfl
  | some entry =>
    obtain ⟨syntaxName, definition⟩ := entry
    have hs : ∀ dialect, encodeShape index' name dialect definition =
      encodeShape index name dialect definition := by
      intro dialect
      cases definition with
      | enumeration body => rfl
      | message body =>
        have hso := @encodeFields_congr index index' name dialect body [] [] (body.field.insertionSort fieldLe)
          fun field hfi => h syntaxName body hf field ((mem_insertionSort fieldLe).mp hfi)
        simp only [encodeShape, encodeMessage, hso]
    change (readDialect syntaxName name >>= fun dialect => encodeShape index' name dialect definition >>= _) =
      (readDialect syntaxName name >>= fun dialect => encodeShape index name dialect definition >>= _)
    simp only [hs]

lemma fieldType_absolute (hr : field.typeName = some ("." ++ target)) (hm : target ∈ index)
    (hs : index'[target]? = index[target]?) :
    fieldType index' name field = fieldType index name field := by
  have hm' : target ∈ index' := by
    obtain ⟨entry, he⟩ := Maps.some_of_mem hm
    exact Maps.mem_of_some (hs.trans he)
  have hres : fieldReference index' name field = fieldReference index name field := by
    simp only [fieldReference, hr, resolve_absolute hm, resolve_absolute hm']
  have hf : fieldReference index name field = .ok (some target) := by
    simp only [fieldReference, hr, resolve_absolute hm]
    rfl
  unfold fieldType
  rw [hres, hf]
  simp only [bind, Except.bind, bind_some, hs]

lemma fieldType_scalar (hr : field.typeName = none) :
    fieldType index' name field = fieldType index name field := by
  simp only [fieldType, fieldReference, hr]
  rfl

lemma fieldType_reference {result : FieldType × Option String} (h : fieldType index name field = .ok result) :
    fieldReference index name field = .ok result.2 := by
  obtain ⟨found, hf, hr⟩ := bind_ok.mp h
  have hk : ∀ kind, (if kind = FieldType.message ∨ kind = FieldType.group ∨ kind = FieldType.enumeration then do
        ensure ((found.bind fun target => index[target]?.map fun entry => entry.2.kind) =
          some (if kind = .group then .message else kind))
            ("missing or wrong-kind reference for " ++ field.fieldName)
        pure (kind, found)
      else do
        ensure (found = none) "scalar field has a type reference"
        pure (kind, found)) = Except.ok result → result.2 = found := by
    intro kind hk
    split at hk
    · obtain ⟨-, hk⟩ := ensure_bind_ok.mp hk
      cases hk
      rfl
    · obtain ⟨-, hk⟩ := ensure_bind_ok.mp hk
      cases hk
      rfl
  have hs : result.2 = found := by
    cases ht : field.type with
    | none | some =>
      rw [ht] at hr
      obtain ⟨kind, -, hr⟩ := bind_ok.mp hr
      exact hk kind hr
  rwa [hs]

lemma encodeField_reference {record : FieldRecord}
    (h : encodeField index name dialect message field = .ok record) :
    fieldReference index name field = .ok record.reference := by
  simp only [encodeField, bind_ok, ensure_ok, exists_const, pure_ok] at h
  obtain ⟨-, result, ht, -, -, -, -, -, -, -, -, -, rfl⟩ := h
  exact fieldType_reference ht

lemma expand_references {record : Record} {refs : List String} (h : expand index name = .ok (record, refs))
    (htgt : target ∈ refs) : ∃ syntaxName body, index[name]? = some (syntaxName, .message body) ∧
      ∃ field ∈ body.field, ∃ reference, field.typeName = some reference ∧
        index.resolve name reference = .ok target := by
  obtain ⟨⟨syntaxName, definition⟩, dialect, shape, he, -, hs, -, rfl⟩ := expand_ok.mp h
  cases definition with
  | enumeration body =>
    obtain ⟨encoded, -, rfl⟩ := by simpa only [encodeShape, bind_ok, pure_ok] using hs
    cases htgt
  | message body =>
    obtain ⟨encoded, henc, rfl⟩ := by simpa only [encodeShape, bind_ok, pure_ok] using hs
    simp only [encodeMessage, bind_ok, pure_ok] at henc
    obtain ⟨-, -, -, -, fields, hfi, rfl⟩ := henc
    obtain ⟨record, hr, href⟩ := mem_filterMap.mp htgt
    obtain ⟨-, hfo⟩ := encodeFields_ok.mp hfi
    obtain ⟨field, hfield, hen⟩ := forall₂_mem_right hfo hr
    have hf := encodeField_reference hen
    rw [href] at hf
    refine ⟨syntaxName, body, he, field, (mem_insertionSort fieldLe).mp hfield, ?_⟩
    unfold fieldReference at hf
    cases ht : field.typeName with
    | none =>
      rw [ht] at hf
      cases hf
    | some reference =>
      rw [ht] at hf
      obtain ⟨found, hres, hf⟩ := bind_ok.mp hf
      cases pure_ok.mp hf
      exact ⟨reference, rfl, hres⟩

end Agreement

section Subsets

variable {E : Type} {set : List FileDescriptorProto} {index index' : Index} {list : List String}
  {message name : String}

def Contained (set : List FileDescriptorProto) : Prop :=
  ∀ file ∈ set, ∀ item ∈ file.items, ∀ reference ∈ item.references, ∃ target, reference = "." ++ target ∧
    ∃ home ∈ set, Relation.ReflTransGen (Imports set) file.fileName home.fileName ∧
      target ∈ home.items.map Item.fullName

def Kept (set : List FileDescriptorProto) (list : List String) (name : String) : Prop :=
  ∃ file ∈ set, file.fileName ∈ list ∧ name ∈ file.items.map Item.fullName

def subset (set : List FileDescriptorProto) (list : List String) : List FileDescriptorProto :=
  set.filter fun file => file.fileName ∈ list

lemma subset_index (hidx : Index.new (files set) = .ok index) (list : List String) : ∃ index',
    Index.new (files (subset set list)) = .ok index' ∧ ∀ name, Kept set list name →
      index'[name]? = index[name]? := by
  obtain ⟨hno, hnd, -⟩ := new_ok.mp hidx
  have hs : (items (files (subset set list))).Sublist (items (files set)) := by
    rw [items_files, items_files]
    exact filter_sublist.flatMap _
  obtain ⟨index', hi'⟩ : ∃ index', Index.new (files (subset set list)) = .ok index' :=
    ⟨_, new_ok.mpr ⟨fun item hit => hno item (hs.subset hit), hnd.sublist (hs.map _), rfl⟩⟩
  refine ⟨index', hi', ?_⟩
  rintro name ⟨file, hf, hl, hn⟩
  obtain ⟨item, hit, rfl⟩ := mem_map.mp hn
  have hk : file ∈ subset set list := mem_filter.mpr ⟨hf, decide_eq_true hl⟩
  rw [(new_get hi').mpr ⟨item, mem_items.mpr ⟨file, hk, hit⟩, rfl, rfl⟩,
    (new_get hidx).mpr ⟨item, mem_items.mpr ⟨file, hf, hit⟩, rfl, rfl⟩]

variable {syntaxName : Option String} {body : MessageBody}

section

variable (hidx : Index.new (files set) = .ok index)

include hidx

section

variable (hs : Contained set) (hcl : ∀ a ∈ list, ∀ b, Relation.ReflTransGen (Imports set) a b → b ∈ list)

include hs hcl

lemma Kept.refers (hk : Kept set list name) (he : index[name]? = some (syntaxName, .message body))
    {field : FieldDescriptor} (hf : field ∈ body.field) {reference : String}
    (href : field.typeName = some reference) :
    ∃ target, reference = "." ++ target ∧ target ∈ index ∧
      Kept set list target := by
  obtain ⟨file, hfi, hl, hn⟩ := hk
  obtain ⟨item, hit, rfl⟩ := mem_map.mp hn
  rw [(new_get hidx).mpr ⟨item, mem_items.mpr ⟨file, hfi, hit⟩, rfl, rfl⟩, some.injEq, Prod.mk.injEq] at he
  have hw : reference ∈ item.references := by
    rw [Item.references, he.2]
    exact mem_filterMap.mpr ⟨field, hf, href⟩
  obtain ⟨target, ht, home, hh, hr, hd⟩ := hs file hfi item hit reference hw
  refine ⟨target, ht, ?_, home, hh, hcl _ hl _ hr, hd⟩
  obtain ⟨other, ho, rfl⟩ := mem_map.mp hd
  exact (new_mem hidx).mpr (mem_map_of_mem (mem_items.mpr ⟨home, hh, ho⟩))

lemma reach_kept (hr : Kept set list message) (h : Reach (expand index) message name) : Kept set list name := by
  induction h with
  | root => exact hr
  | step _ hexp ht ih =>
    obtain ⟨syntaxName, body, he, field, hf, reference, href, hres⟩ := expand_references hexp ht
    obtain ⟨target, rfl, hm, hk⟩ := ih.refers hidx hs hcl he hf href
    rw [resolve_absolute hm] at hres
    cases hres
    exact hk

end

lemma fingerprint_kept (hsub : Contained set)
    (hcl : ∀ a ∈ list, ∀ b, Relation.ReflTransGen (Imports set) a b → b ∈ list) (hro : Kept set list message)
    (hmsg : index[message]? = some (syntaxName, .message body)) :
    fingerprint (files (subset set list)) message = fingerprint (files set) message := by
  obtain ⟨index', hi', hs⟩ := subset_index hidx list
  have hc : canonical index' message = canonical index message := by
    refine canonical_agrees hmsg ((hs message hro).trans hmsg) ?_
    intro name hr
    have hk := reach_kept hidx hsub hcl hro hr
    refine expand_congr (hs name hk) ?_
    intro syntaxName body he field hf
    cases href : field.typeName with
    | none => exact fieldType_scalar href
    | some reference =>
      obtain ⟨target, rfl, hm, hk'⟩ := hk.refers hidx hsub hcl he hf href
      exact fieldType_absolute href hm (hs target hk')
  simp only [fingerprint, hidx, hi', bind, Except.bind, hc]

end

theorem subset_fingerprint (P : SetCodec E) {fileSet : E} (hdecode : P.decode fileSet = .ok set)
    (hnames : (set.map FileDescriptorProto.fileName).Nodup) (hundotted : Undotted set)
    (hindex : Index.new (files set) = .ok index) (hcontained : Contained set) {syntaxName : Option String}
    {body : MessageBody} (hmessage : index[message]? = some (syntaxName, .message body)) : ∃ pruned,
      descriptorSubset P fileSet message = .ok (some pruned) ∧
      messageFingerprint P pruned message = messageFingerprint P fileSet message := by
  obtain ⟨root, found, hf⟩ := findMessage_complete hindex hundotted hmessage
  obtain ⟨hr, hd⟩ := findMessage_sound hindex hf
  obtain ⟨list, hli, hl, hcl⟩ := wanted_covers hnames root.fileName
  refine ⟨P.encode (subset set list), ?_, ?_⟩
  · simp only [descriptorSubset, hdecode, hf, hli, bind, Except.bind]
    rfl
  · simp only [messageFingerprint, hdecode, P.decode_encode, bind, Except.bind]
    exact fingerprint_kept hindex hcontained hcl ⟨root, hr, hl, hd⟩ hmessage

lemma contained_of_wanted (hn : (set.map FileDescriptorProto.fileName).Nodup)
    (h : ∀ file ∈ set, ∀ item ∈ file.items, ∀ reference ∈ item.references, ∃ ho ∈ set,
      ho.fileName ∈ (wanted set file.fileName).getD [] ∧
        ∃ target ∈ ho.items.map Item.fullName, reference = "." ++ target) : Contained set := by
  intro file hf item hit reference hr
  obtain ⟨ho, hh, hw, target, ht, rfl⟩ := h file hf item hit reference hr
  refine ⟨target, rfl, ho, hh, ?_, ht⟩
  obtain ⟨list, hl, -, -⟩ := wanted_covers hn file.fileName
  rw [hl] at hw
  have hst : ∀ b ∈ [file.fileName], Relation.ReflTransGen (fun a b => b ∈ imports set a) file.fileName b := by
    intro b hb
    rw [mem_singleton.mp hb]
  exact (Frontier.grow_sound hst hl _ hw).lift id fun _ _ h => (mem_imports hn).mp h

end Subsets

def referring (name : String) (number : Int32) (target : String) : FieldDescriptor :=
  ⟨some name, some number, none, none, some target, none, none, none, none, none, none⟩

def schemaFile (name package : String) (dependency : List String) (messageType : List DescriptorProto)
    (enumType : List EnumDescriptor) : FileDescriptorProto :=
  ⟨⟨some package, messageType, enumType, some "proto3"⟩, some name, dependency⟩

def bodyOf (field : List FieldDescriptor) : MessageBody := ⟨field, [], none, none, [], [], [], []⟩

def poseMessage : DescriptorProto := .mk (some "Pose") (bodyOf [referring "mode" 1 ".common.Mode"]) [] []

def orderBody : MessageBody :=
  bodyOf [referring "arm" 1 ".arm.Pose", referring "base" 2 ".base.Pose", referring "mode" 3 ".common.Mode"]

def diamond : List FileDescriptorProto :=
  [schemaFile "sound.proto" "sound" [] [] [modeEnum [stopValue]],
    schemaFile "fleet.proto" "fleet" ["arm.proto", "base.proto"] [.mk (some "Order") orderBody [] []] [],
    schemaFile "arm.proto" "arm" ["common.proto"] [poseMessage] [],
    schemaFile "base.proto" "base" ["common.proto"] [poseMessage] [],
    schemaFile "common.proto" "common" [] [] [modeEnum [stopValue, cruiseValue]]]

def plainCodec : SetCodec (List FileDescriptorProto) := ⟨id, .ok, fun _ => rfl⟩

theorem subset_fingerprint_diamond :
    ∃ pruned, descriptorSubset plainCodec diamond "fleet.Order" = .ok (some pruned) ∧
    pruned.length = 4 ∧ messageFingerprint plainCodec pruned "fleet.Order" =
      messageFingerprint plainCodec diamond "fleet.Order" ∧
    (messageFingerprint plainCodec diamond "fleet.Order").toOption.join.isSome = true := by
  have hn : (diamond.map FileDescriptorProto.fileName).Nodup := by decide +kernel
  have hu : Undotted diamond := by
    unfold Undotted
    decide +kernel
  have hs : Contained diamond := by
    apply contained_of_wanted hn
    decide +kernel
  have hm : (Index.new (files diamond) >>= fun index => .ok index["fleet.Order"]?) =
      .ok (some (some "proto3", .message orderBody)) := by decide +kernel
  obtain ⟨index, hidx, hm⟩ := bind_ok.mp hm
  have hl : (descriptorSubset plainCodec diamond "fleet.Order").toOption.join.map List.length = some 4 := by
    decide +kernel
  obtain ⟨pruned, hp, hpr⟩ := subset_fingerprint plainCodec rfl hn hu hidx hs
    (Except.ok.inj hm)
  rw [hp] at hl
  exact ⟨pruned, hp, some.inj hl, hpr, by decide +kernel⟩

end Reiny.Schema
