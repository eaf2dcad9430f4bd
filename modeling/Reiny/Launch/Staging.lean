import Reiny.Lib.Framing
import Reiny.Lib.Maps
import Reiny.Lib.Segments
import Reiny.Step.Graph

/-! The cache of bundles: a directory is named after the digest of its paths and bytes. -/

namespace Reiny.Launch

open Std Lib Words Results Framing Maps Segments List
open Step (Map)

/-- A path by its components; `""` is the root. -/
abbrev BundlePath := List String

structure BundleFile where
  bytes : Bytes
  permissions : ℕ
deriving DecidableEq

abbrev Bundle := Map BundlePath BundleFile

/-- Code outside of the crate: SHA-256 in hexadecimal, and `str::to_lowercase` with its Unicode tables. -/
structure Platform where
  sha256 : Bytes → String
  lowercase : String → String
  lowercase_ascii : ∀ text : String, (∀ c ∈ text.toList, c.toNat < 128) →
    lowercase text = String.ofList (text.toList.map Char.toLower)

variable (P : Platform)

def normalComponent (part : String) : Bool :=
  part != "" && part != "." && part != ".." && !part.toList.contains '/'

def validatePath (paths : ExtTreeSet String) (name : BundlePath) : Except String (ExtTreeSet String) := do
  ensure (name ≠ [] ∧ name.all normalComponent = true) ("bundle path must be a normal relative path: " ++ join name)
  let normalized := P.lowercase (replace (join name) "\\" "/")
  ensure (normalized ∉ paths) ("conflicting bundle path " ++ join name)
  return paths.insert normalized

def validatePaths (files : Bundle) : Except String Unit := do
  let paths ← files.keys.foldlM (validatePath P) ∅
  paths.toList.forM fun name =>
    ensure (∀ other ∈ paths.toList, (name ++ "/").toList.isPrefixOf other.toList = false)
      ("conflicting bundle path " ++ name)

def hashed (file : BundlePath × Bytes) : Bytes :=
  framedBytes (join file.1).toUTF8.data.toList ++ framedBytes file.2

def contents (files : Bundle) : Map BundlePath Bytes := files.map fun _ file => file.bytes

def hashInput (files : Bundle) : Bytes := ((contents files).toList.map hashed).flatten

def directoryDigest (files : Bundle) : String := P.sha256 (hashInput files)

/-- A call of `stage_files_with`. The sources are files of a disk, with less than 2^64 bytes in all. -/
structure Staging where
  files : Bundle
  entry : BundlePath
  fits : (hashInput files).length < 2 ^ 64

abbrev Cache := Map String Bundle

def checkStaging (s : Staging) : Except String Unit := do
  validatePaths P s.files
  ensure (s.entry ∈ s.files) "bundle entry is not declared"

def verifyDirectory (cache : Cache) (digest : String) (entry : BundlePath) : Except String String := do
  let directory ← ofOption cache[digest]? ("no directory " ++ digest)
  ensure (directoryDigest P directory = digest) ("immutable bundle integrity mismatch: " ++ digest)
  ensure (entry ∈ directory) "incomplete immutable artifact bundle"
  return digest

def stageFiles (cache : Cache) (s : Staging) : Except String String × Cache :=
  match checkStaging P s with
  | .error e => (.error e, cache)
  | .ok () =>
    let digest := directoryDigest P s.files
    let cache := if digest ∈ cache then cache else cache.insert digest s.files
    (verifyDirectory P cache digest s.entry, cache)

def stagedBy (history : List Staging) : Cache := history.foldl (fun cache s => (stageFiles P cache s).2) ∅

section Digests

variable {P}

lemma framed_file :
    Framed fun file : String × Bytes => framedBytes file.1.toUTF8.data.toList ++ framedBytes file.2 := by
  have hn : Framed fun text : String => framedBytes text.toUTF8.data.toList := by
    apply framed_comp framed_bytes
    intro a b h
    exact String.toByteArray_inj.mp (ByteArray.ext (Array.toList_inj.mp h))
  exact framed_append hn framed_bytes

def Legible (files : Bundle) : Prop := ∀ name ∈ files, segments (join name) = name

lemma validatePaths_legible {files : Bundle} (h : validatePaths P files = .ok ()) : Legible files := by
  intro name hn
  obtain ⟨paths, hpa, -⟩ := bind_ok.mp h
  obtain ⟨before, after, hs⟩ := foldlM_each hpa (ExtTreeMap.mem_keys.mpr hn)
  obtain ⟨⟨hne, hno⟩, -⟩ := ensure_bind_ok.mp hs
  apply segments_join hne
  intro part hp
  have hp := all_eq_true.mp hno part hp
  simp only [normalComponent, Bool.and_eq_true, Bool.not_eq_true', contains_eq_mem, decide_eq_false_iff_not] at hp
  exact hp.2

lemma hashInput_inj {files files' : Bundle} (hl : Legible files) (hl' : Legible files')
    (hf : (hashInput files).length < 2 ^ 64) (hf' : (hashInput files').length < 2 ^ 64)
    (h : hashInput files = hashInput files') : contents files = contents files' := by
  have hr (files : Bundle) (hl : Legible files) :
      ((contents files).toList.map fun file => (join file.1, file.2)).map (fun file => (segments file.1, file.2)) =
        (contents files).toList := by
    have hn : ∀ file ∈ (contents files).toList, (segments (join file.1), file.2) = file := by
      intro file hfi
      have hm : file.1 ∈ contents files := mem_of_some (ExtTreeMap.mem_toList_iff_getElem?_eq_some.mp hfi)
      rw [hl file.1 (ExtTreeMap.mem_map.mp hm)]
    rw [map_map]
    exact (map_congr_left hn).trans (map_id _)
  have hw (files : Bundle) : hashInput files = (((contents files).toList.map fun file => (join file.1, file.2)).map
      fun file : String × Bytes => framedBytes file.1.toUTF8.data.toList ++ framedBytes file.2).flatten := by
    rw [hashInput, map_map]
    rfl
  rw [hw] at hf hf' h
  rw [hw] at h
  have hs := items_inj framed_file (fun file => by simp [framedBytes]) hf hf' h
  rw [← ExtTreeMap.toList_inj, ← hr files hl, hs, hr files' hl']

lemma digest_iff (hsha : Function.Injective P.sha256) {s t : Staging} (hs : checkStaging P s = .ok ())
    (ht : checkStaging P t = .ok ()) : directoryDigest P s.files = directoryDigest P t.files ↔
      contents s.files = contents t.files := by
  obtain ⟨_, hs, -⟩ := bind_ok.mp hs
  obtain ⟨_, ht, -⟩ := bind_ok.mp ht
  constructor
  · intro h
    exact hashInput_inj (validatePaths_legible hs) (validatePaths_legible ht) s.fits t.fits (hsha h)
  · intro h
    rw [directoryDigest, directoryDigest, hashInput, hashInput, h]

end Digests

section History

variable {P} {s : Staging}

def firstOf (P : Platform) (history : List Staging) (files : Bundle) : Option Staging :=
  history.find? fun s => (checkStaging P s).isOk && decide (contents s.files = contents files)

lemma stageFiles_cache (hs : checkStaging P s = .ok ()) (cache : Cache) (digest : String) :
    (stageFiles P cache s).2[digest]? =
      cache[digest]?.or (if directoryDigest P s.files = digest then some s.files else none) := by
  simp only [stageFiles, hs]
  split_ifs with hm heq heq
  · obtain ⟨directory, hd⟩ := some_of_mem (heq ▸ hm)
    rw [hd, Option.some_or]
  · rw [Option.or_none]
  · rw [← heq, ExtTreeMap.getElem?_insert_self, ExtTreeMap.getElem?_eq_none hm, Option.none_or]
  · rw [ExtTreeMap.getElem?_insert, if_neg (by rwa [LawfulEqOrd.compare_eq_iff_eq]), Option.or_none]

lemma staged_cache (hsha : Function.Injective P.sha256) (hs : checkStaging P s = .ok ()) (his : List Staging)
    (cache : Cache) : (his.foldl (fun cache s => (stageFiles P cache s).2) cache)[directoryDigest P s.files]? =
      cache[directoryDigest P s.files]?.or ((firstOf P his s.files).map Staging.files) := by
  induction his generalizing cache with
  | nil => rw [foldl_nil, firstOf, find?_nil, Option.map_none, Option.or_none]
  | cons t his ih =>
    have hf : firstOf P (t :: his) s.files =
        if (checkStaging P t).isOk && decide (contents t.files = contents s.files) then some t
          else firstOf P his s.files := by
      rw [firstOf, find?_cons]
      split <;> rename_i h <;> rw [h] <;> rfl
    rw [foldl_cons, ih, hf]
    cases ht : checkStaging P t with
    | error e =>
      have hr : (stageFiles P cache t).2 = cache := by simp only [stageFiles, ht]
      rw [hr]
      rfl
    | ok u =>
      rw [stageFiles_cache ht, Option.or_assoc]
      congr 1
      by_cases hsa : contents t.files = contents s.files
      · rw [if_pos ((digest_iff hsha ht hs).mpr hsa), Option.some_or]
        simp [hsa, Except.isOk, Except.toBool]
      · rw [if_neg (mt (digest_iff hsha ht hs).mp hsa), Option.none_or]
        simp [hsa]

lemma stageFiles_name (cache : Cache) {digest : String} (h : (stageFiles P cache s).1 = .ok digest) :
    digest = directoryDigest P s.files := by
  unfold stageFiles at h
  split at h
  · cases h
  · obtain ⟨_, -, h⟩ := bind_ok.mp h
    obtain ⟨-, h⟩ := ensure_bind_ok.mp h
    obtain ⟨-, h⟩ := ensure_bind_ok.mp h
    exact (pure_ok.mp h).symm

end History

theorem staging_faithful (hsha : Function.Injective P.sha256) (history : List Staging) (s : Staging)
    (hs : checkStaging P s = .ok ()) : ∃ directory,
      (stageFiles P (stagedBy P history) s).1 = .ok (directoryDigest P s.files) ∧
      (stageFiles P (stagedBy P history) s).2[directoryDigest P s.files]? = some directory ∧
      contents directory = contents s.files ∧
      (directory = s.files ↔ ∀ first ∈ firstOf P history s.files, first.files = s.files) ∧
      ∀ (cache : Cache) (t : Staging), checkStaging P t = .ok () → contents t.files ≠ contents s.files →
        (stageFiles P cache t).1 ≠ .ok (directoryDigest P s.files) := by
  have hca := stageFiles_cache hs (stagedBy P history) (directoryDigest P s.files)
  have hea := staged_cache hsha hs history ∅
  rw [ExtTreeMap.getElem?_empty, Option.none_or] at hea
  rw [stagedBy, hea, if_pos rfl] at hca
  obtain ⟨directory, hd, hc, hiff⟩ : ∃ directory,
      (((firstOf P history s.files).map Staging.files).or (some s.files)) = some directory ∧
      contents directory = contents s.files ∧
      (directory = s.files ↔ ∀ first ∈ firstOf P history s.files, first.files = s.files) := by
    cases hfst : firstOf P history s.files with
    | none => exact ⟨s.files, rfl, rfl, by simp⟩
    | some first =>
      have hf := find?_some hfst
      rw [Bool.and_eq_true, decide_eq_true_eq] at hf
      exact ⟨first.files, rfl, hf.2, by simp⟩
  rw [hd] at hca
  refine ⟨directory, ?_, hca, hc, hiff, ?_⟩
  · have hdigest : directoryDigest P directory = directoryDigest P s.files := by
      rw [directoryDigest, hashInput, hc]
      rfl
    have he : s.entry ∈ directory := by
      obtain ⟨_, -, hs⟩ := bind_ok.mp hs
      have hm : s.entry ∈ contents s.files := ExtTreeMap.mem_map.mpr (ensure_ok.mp hs)
      rw [← hc] at hm
      exact ExtTreeMap.mem_map.mp hm
    simp only [stageFiles, hs] at hca ⊢
    refine bind_ok.mpr ⟨directory, ofOption_ok.mpr hca, ?_⟩
    exact ensure_bind_ok.mpr ⟨hdigest, ensure_bind_ok.mpr ⟨he, rfl⟩⟩
  · intro cache t ht hdi hsa
    exact hdi ((digest_iff hsha ht hs).mp (stageFiles_name cache hsa).symm)

def plainPlatform : Platform :=
  ⟨fun bytes => String.ofList (bytes.map fun b => Char.ofNat b.toNat),
    fun text => String.ofList (text.toList.map Char.toLower), fun _ _ => rfl⟩

lemma plainPlatform_injective : Function.Injective plainPlatform.sha256 := by
  intro a b h
  have hb : ∀ b : UInt8, UInt8.ofNat (Char.ofNat b.toNat).toNat = b := uint8_forall (by decide +kernel)
  have hc := congrArg (fun text => text.toList.map fun c => UInt8.ofNat c.toNat) h
  simpa [plainPlatform, Function.comp_def, hb] using hc

def program (executable : Bool) : Staging :=
  ⟨Map.of [(["bin", "run"], ⟨[1, 2], if executable then 0o755 else 0o644⟩)], ["bin", "run"],
    by cases executable <;> decide +kernel⟩

-- The first one is refused, as its entry is not among its files.
def earlier : List Staging := [{ program false with entry := ["bin"] }, program true]

theorem staging_faithful_program : ∃ directory,
    (stageFiles plainPlatform (stagedBy plainPlatform earlier) (program true)).2[
      directoryDigest plainPlatform (program true).files]? = some directory ∧ directory = (program true).files := by
  obtain ⟨directory, -, hd, -, hiff, -⟩ :=
    staging_faithful plainPlatform plainPlatform_injective earlier (program true) (by decide +kernel)
  exact ⟨directory, hd, hiff.mpr (by decide +kernel)⟩

theorem staging_keeps_permissions :
    (stageFiles plainPlatform (stagedBy plainPlatform [program false]) (program true)).1 =
      .ok (directoryDigest plainPlatform (program true).files) ∧
    (stageFiles plainPlatform (stagedBy plainPlatform [program false]) (program true)).2[
      directoryDigest plainPlatform (program true).files]? = some (program false).files ∧
    (program false).files ≠ (program true).files := by
  decide +kernel

end Reiny.Launch
