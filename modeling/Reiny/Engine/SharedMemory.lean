import Reiny.Engine.KeyText
import Reiny.Lib.Slices

namespace Reiny.Engine

open Lib Results Slices Step

def replaceChar (text : String) (pattern : Char) (word : String) : String :=
  String.ofList (text.toList.flatMap fun c => if c = pattern then word.toList else [c])

def aliveName (key : Key) : String := "reiny-alive/" ++ replaceChar (replaceChar key.display '_' "_us_") '@' "_at_"

def decodeAlive : List Char → List Char
  | '_' :: 'a' :: 't' :: '_' :: tail => '@' :: decodeAlive tail
  | '_' :: 'u' :: 's' :: '_' :: tail => '_' :: decodeAlive tail
  | c :: tail => c :: decodeAlive tail
  | [] => []

def parseAlive (name : String) : Option Key := do
  let encoded ← name.toList.dropPrefix? "reiny-alive/".toList
  Key.parse (String.ofList (decodeAlive encoded))

def escape (c : Char) : List Char :=
  if c = '_' then "_us_".toList else if c = '@' then "_at_".toList else [c]

lemma replace_escape (text : String) :
    (replaceChar (replaceChar text '_' "_us_") '@' "_at_").toList = text.toList.flatMap escape := by
  simp only [replaceChar, String.toList_ofList, List.flatMap_assoc]
  apply List.flatMap_congr
  intro c _
  unfold escape
  split_ifs with hu hat
  · rfl
  · simp [hat]
  · simp [hat]

lemma decodeAlive_escape (c : Char) (tail : List Char) :
    decodeAlive (escape c ++ tail) = c :: decodeAlive tail := by
  unfold escape
  split_ifs with hu hat
  · rw [hu]
    rfl
  · rw [hat]
    rfl
  · -- any other character is neither the start of an escape word nor an escape word
    rw [List.singleton_append, decodeAlive]
    · exact fun _ h => absurd h hu
    · exact fun _ h => absurd h hu

lemma decodeAlive_flatMap (text : List Char) : decodeAlive (text.flatMap escape) = text := by
  induction text with
  | nil => rfl
  | cons c text ih => rw [List.flatMap_cons, decodeAlive_escape, ih]

lemma parseAlive_aliveName (key : Key) : parseAlive (aliveName key) = Key.parse key.display := by
  unfold parseAlive aliveName
  rw [String.toList_append, List.dropPrefix?_eq_some_iff.mpr ⟨_, rfl, beq_self_eq_true _⟩, replace_escape]
  simp only [Option.bind_eq_bind, Option.bind_some, decodeAlive_flatMap, String.ofList_toList]

theorem alive_name_faithful (key : Key) (hvalid : key.validate = .ok ()) :
    parseAlive (aliveName key) = some key ∧
      ∀ other : Key, other.validate = .ok () → aliveName other = aliveName key → other = key := by
  have hb (key : Key) (hvalid : key.validate = .ok ()) : parseAlive (aliveName key) = some key := by
    rw [parseAlive_aliveName, parse_text hvalid]
  refine ⟨hb key hvalid, ?_⟩
  intro other ho hn
  have hs := hb other ho
  rw [hn, hb key hvalid] at hs
  exact (Option.some.inj hs).symm

def escapeWords : Key := ⟨"robot", some "_at_/a_us_b", some (.output "_us_"), some "at_", none⟩

theorem alive_name_faithful_words :
    aliveName escapeWords =
      "reiny-alive/reiny/v3/robot/_us_at_us_/a_us_us_us_b/_at_out/_us_us_us_/at_us_" ∧
    parseAlive "reiny-alive/reiny/v3/robot/_us_at_us_/a_us_us_us_b/_at_out/_us_us_us_/at_us_" =
      some escapeWords := by
  have hn : aliveName escapeWords =
      "reiny-alive/reiny/v3/robot/_us_at_us_/a_us_us_us_b/_at_out/_us_us_us_/at_us_" := by decide +kernel
  exact ⟨hn, hn ▸ (alive_name_faithful escapeWords (by decide +kernel)).1⟩

def KEY_MAX : ℕ := 224
def ATTACHMENT_MAX : ℕ := 32

abbrev Field (size : ℕ) := { bytes : List UInt8 // bytes.length = size }

structure Meta where
  key : Field KEY_MAX
  attachment : Field ATTACHMENT_MAX
  unixNs : UInt64
  keyLen : UInt8
  attachmentLen : UInt8
  flags : UInt8

def Field.holding {size : ℕ} (bytes : List UInt8) (h : bytes.length ≤ size) : Field size :=
  ⟨bytes ++ List.replicate (size - bytes.length) 0, by rw [List.length_append, List.length_replicate]; omega⟩

namespace Meta

def new (key : Key) (attachment : Option (List UInt8)) (flags : UInt8) (now : Option UInt64) :
    Except String Meta := do
  key.validate
  let text := key.display.toUTF8.data.toList
  let attachment := attachment.getD []
  -- both limits are below 256, so `u8::try_from` refuses nothing more
  if hkey : text.length ≤ KEY_MAX then
    if hattachment : attachment.length ≤ ATTACHMENT_MAX then
      .ok
        { key := .holding text hkey
          attachment := .holding attachment hattachment
          unixNs := now.getD 0
          keyLen := UInt8.ofNat text.length
          attachmentLen := UInt8.ofNat attachment.length
          flags }
    else .error "attachment is longer than 32 bytes (reiny puts 8)"
  else .error ("key '" ++ key.display ++ "' is longer than 224 bytes")

def readKey (m : Meta) : Option Key := do
  let bytes ← slice m.key.val 0 m.keyLen.toNat
  let text ← String.fromUTF8? ⟨bytes.toArray⟩
  Key.parse text

def readAttachment (m : Meta) : Option (Option (List UInt8)) :=
  if m.attachmentLen > 0 then (slice m.attachment.val 0 m.attachmentLen.toNat).map some else some none

def timestamp (m : Meta) : Option UInt64 := if m.unixNs ≠ 0 then some m.unixNs else none

end Meta

variable {key : Key} {attachment : Option (List UInt8)} {flags : UInt8} {now : Option UInt64} {m : Meta}

lemma slice_holding {size : ℕ} {bytes : List UInt8} (h : bytes.length ≤ size) (hsz : size < 256) :
    slice (Field.holding bytes h).val 0 (UInt8.ofNat bytes.length).toNat = some bytes := by
  rw [UInt8.toNat_ofNat_of_lt' (h.trans_lt hsz), slice_front (by rw [(Field.holding bytes h).property]; exact h)]
  simp [Field.holding]

section

variable (h : Meta.new key attachment flags now = .ok m)

include h

lemma Meta.new_ok : key.validate = .ok () ∧
    ∃ hk ha, m =
      { key := .holding key.display.toUTF8.data.toList hk
        attachment := .holding (attachment.getD []) ha
        unixNs := now.getD 0
        keyLen := UInt8.ofNat key.display.toUTF8.data.toList.length
        attachmentLen := UInt8.ofNat (attachment.getD []).length
        flags } := by
  unfold Meta.new at h
  cases hv : key.validate with
  | error e =>
    rw [hv] at h
    cases h
  | ok u =>
    rw [hv] at h
    refine ⟨rfl, ?_⟩
    dsimp only [bind, Except.bind] at h
    split_ifs at h with hk ha
    exact ⟨hk, ha, (Except.ok.inj h).symm⟩

lemma readKey_new : m.readKey = some key := by
  obtain ⟨hv, hk, ha, rfl⟩ := Meta.new_ok h
  have ht : String.fromUTF8? ⟨key.display.toUTF8.data.toList.toArray⟩ = some key.display := by
    rw [Array.toArray_toList]
    exact dif_pos key.display.isValidUTF8
  unfold Meta.readKey
  rw [slice_holding hk (by decide), Option.bind_eq_bind, Option.bind_some, ht]
  exact parse_text hv

lemma readAttachment_new : m.readAttachment = some (attachment.filter fun bytes => !bytes.isEmpty) := by
  obtain ⟨-, hk, ha, rfl⟩ := Meta.new_ok h
  unfold Meta.readAttachment
  rw [slice_holding ha (by decide)]
  cases attachment with
  | none => rfl
  | some bytes =>
    cases bytes with
    | nil => rfl
    | cons byte bytes =>
      have hl : bytes.length + 1 < 256 := ha.trans_lt (by decide)
      apply if_pos
      change (0 : UInt8) < UInt8.ofNat (bytes.length + 1)
      rw [UInt8.lt_iff_toNat_lt, UInt8.toNat_ofNat_of_lt' hl]
      exact Nat.succ_pos _

end

lemma readAttachment_isSome (m : Meta) :
    m.readAttachment.isSome = true ↔ m.attachmentLen.toNat ≤ ATTACHMENT_MAX := by
  unfold Meta.readAttachment slice
  rw [m.attachment.property]
  by_cases hl : m.attachmentLen.toNat ≤ ATTACHMENT_MAX
  · rw [if_pos (⟨Nat.zero_le _, hl⟩ : _ ∧ _)]
    simp only [hl, iff_true]
    split_ifs <;> rfl
  · have hp : m.attachmentLen > 0 := by
      rw [gt_iff_lt, UInt8.lt_iff_toNat_lt]
      exact Nat.zero_lt_of_lt (not_le.mp hl)
    rw [if_pos hp, if_neg fun h => hl h.2]
    simpa using hl

theorem header_reads (m : Meta) :
    (m.readAttachment.isSome = true ↔ m.attachmentLen.toNat ≤ ATTACHMENT_MAX) ∧
    ∀ (key : Key) (attachment : Option (List UInt8)) (flags : UInt8) (now : Option UInt64),
      Meta.new key attachment flags now = .ok m →
        m.readKey = some key ∧ m.timestamp = now.filter (· ≠ 0) ∧
        m.readAttachment = some (attachment.filter fun bytes => !bytes.isEmpty) ∧
        (m.readAttachment = some attachment ↔ attachment ≠ some []) := by
  refine ⟨readAttachment_isSome m, ?_⟩
  intro key attachment flags now h
  have ha := readAttachment_new h
  refine ⟨readKey_new h, ?_, ha, ?_⟩
  · obtain ⟨-, hk, ha, rfl⟩ := Meta.new_ok h
    unfold Meta.timestamp
    cases now with
    | none => rfl
    | some now => simp [Option.filter]
  · rw [ha]
    cases attachment with
    | none => simp
    | some bytes => simp

theorem header_reads_stamped : ∃ m, Meta.new escapeWords (some [1, 2]) 1 none = .ok m ∧
    m.readKey = some escapeWords ∧ m.readAttachment = some (some [1, 2]) := by
  have hn : ∃ m, Meta.new escapeWords (some [1, 2]) 1 none = .ok m := ⟨_, rfl⟩
  obtain ⟨m, hm⟩ := hn
  obtain ⟨hk, -, -, ha⟩ := (header_reads m).2 _ _ _ _ hm
  exact ⟨m, hm, hk, ha.mpr (by decide)⟩

def overlong : Meta :=
  ⟨.holding [] (by decide), .holding [] (by decide), 0, 0, 33, 0⟩

theorem header_out_of_range : overlong.readAttachment = none := by decide

end Reiny.Engine
