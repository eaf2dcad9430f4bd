import Reiny.Schema.Subset

namespace Reiny.Schema

open Std Lib Results Worklist Shuffle List

inductive Reaches (index : Index) (root : String) : String → Prop
  | root : Reaches index root root
  | field {name target : String} {syntaxName : Option String} {body : MessageBody} {field : FieldDescriptor}
      (hname : Reaches index root name) (hentry : index[name]? = some (syntaxName, .message body))
      (hfield : field ∈ body.field) (htarget : fieldReference index name field = .ok (some target)) :
      Reaches index root target

def visited (index : Index) (root : String) : List String :=
  match index[root]? with
  | some (_, .message _) => (trace (expand index) (fuel index) [root] ∅).1
  | _ => []

def LooksUp (index : Index) (name : String) : Prop :=
  name ∈ index ∧ ∀ syntaxName body, index[name]? = some (syntaxName, .message body) → ∀ field ∈ body.field,
    ∀ target, fieldReference index name field = .ok (some target) → target ∈ index

variable {scope : String}

lemma parent_shorter (h : scope ≠ "") : (Index.parent scope).length < scope.length := by
  have hne : scope.toList.length ≠ 0 := by
    rw [Ne, length_eq_zero_iff, String.toList_eq_nil_iff]
    exact h
  have hle : (scope.toList.reverse.dropWhile (· ≠ '.')).length ≤ scope.toList.length := by
    calc (scope.toList.reverse.dropWhile (· ≠ '.')).length ≤ scope.toList.reverse.length :=
          (dropWhile_suffix _).length_le
      _ = scope.toList.length := length_reverse
  rw [Index.parent, String.length_ofList, length_reverse, length_drop, ← String.length_toList]
  omega

lemma enclosing_outermost {steps : ℕ} (h : scope.length < steps) :
    (Index.enclosing steps scope).getLast? = some "" := by
  induction steps generalizing scope with
  | zero => omega
  | succ steps ih =>
    rw [Index.enclosing]
    split_ifs with hsc
    · rw [hsc]
      rfl
    · have hs := parent_shorter hsc
      have hp : (Index.enclosing steps (Index.parent scope)).getLast? = some "" := ih (by omega)
      rw [getLast?_cons, hp]
      rfl

variable {index : Index} {root name target : String}

lemma mem_references {record : Record} {refs : List String} (h : expand index name = .ok (record, refs)) :
    target ∈ refs ↔ ∃ syntaxName body, index[name]? = some (syntaxName, .message body) ∧ ∃ field ∈ body.field,
      fieldReference index name field = .ok (some target) := by
  constructor
  · intro ht
    obtain ⟨syntaxName, body, he, field, hfield, reference, href, hres⟩ := expand_references h ht
    refine ⟨syntaxName, body, he, field, hfield, ?_⟩
    simp only [fieldReference, href, hres]
    rfl
  · rintro ⟨syntaxName, body, he, field, hfield, ht⟩
    obtain ⟨entry, dialect, shape, he', -, hs, -, rfl⟩ := expand_ok.mp h
    rw [he] at he'
    cases he'
    obtain ⟨encoded, henc, rfl⟩ := by simpa only [encodeShape, bind_ok, pure_ok] using hs
    simp only [encodeMessage, bind_ok, pure_ok] at henc
    obtain ⟨-, -, -, -, fields, hfi, rfl⟩ := henc
    obtain ⟨-, hf⟩ := encodeFields_ok.mp hfi
    obtain ⟨record, hr, hen⟩ :=
      forall₂_mem_right hf.flip ((mem_insertionSort fieldLe).mpr hfield)
    have href := encodeField_reference hen
    rw [ht] at href
    exact mem_filterMap.mpr ⟨record, hr, (Except.ok.inj href).symm⟩

lemma reaches_of_reach (h : Reach (expand index) root name) : Reaches index root name := by
  induction h with
  | root => exact .root
  | step _ hexp hj ih =>
    obtain ⟨syntaxName, body, he, field, hf, ht⟩ := (mem_references hexp).mp hj
    exact .field ih he hf ht

lemma Reaches.reach (h : Reaches index root name)
    (hexp : ∀ name, Reach (expand index) root name → ∃ record refs, expand index name = .ok (record, refs)) :
    Reach (expand index) root name := by
  induction h with
  | root => exact .root
  | field _ he hf ht ih =>
    obtain ⟨record, refs, hok⟩ := hexp _ ih
    exact ih.step hok ((mem_references hok).mpr ⟨_, _, he, _, hf, ht⟩)

lemma Reaches.mem (h : Reaches index root name) (hr : root ∈ index) : name ∈ index := by
  induction h with
  | root => exact hr
  | field _ _ _ ht _ => exact fieldReference_mem ht

lemma mem_visited (h : name ∈ visited index root) : Reaches index root name ∧ root ∈ index := by
  unfold visited at h
  split at h
  · rename_i hr
    exact ⟨reaches_of_reach (trace_reach open_start name h), Maps.mem_of_some hr⟩
  · cases h

lemma visited_nodup : (visited index root).Nodup := by
  unfold visited
  split
  · exact trace_nodup.2
  · exact nodup_nil

theorem fingerprint_closure {set : FileDescriptorSet} {index : Index} (hindex : Index.new set = .ok index)
    (root : String) :
    (∀ scope, (Index.enclosing (scope.length + 1) scope).getLast? = some "") ∧ closure index root ≠ .ok none ∧
      (visited index root).Nodup ∧
      (∀ name ∈ visited index root, Reaches index root name ∧ LooksUp index name) ∧
      ∀ value, fingerprint set root = .ok (some value) →
        (∀ name, name ∈ visited index root ↔ Reaches index root name) ∧
        ∃ records, closure index root = .ok (some records) ∧ ∀ name, name ∈ records ↔
          name ∈ visited index root := by
  refine ⟨fun scope => enclosing_outermost (Nat.lt_succ_self _), closure_fueled, visited_nodup, ?_, ?_⟩
  · intro name hn
    obtain ⟨hr, hro⟩ := mem_visited hn
    exact ⟨hr, hr.mem hro, fun _ _ _ _ _ _ => fieldReference_mem⟩
  · intro value hv
    obtain ⟨index', hi', hv⟩ := bind_ok.mp hv
    rw [hindex] at hi'
    cases hi'
    obtain ⟨found, hc, hv⟩ := bind_ok.mp hv
    cases found with
    | none => cases hv
    | some bytes =>
      obtain ⟨⟨syntaxName, body, hro⟩, records, hclo, -⟩ := canonical_ok.mp hc
      have hrecs : ∀ name, name ∈ records ↔ name ∈ visited index root := by
        intro name
        simp only [visited, hro]
        rw [trace_records (trace_close.trans hclo)]
        simp
      refine ⟨fun name => ⟨fun h => (mem_visited h).1, fun h => ?_⟩, records, hclo, hrecs⟩
      have hre : Reach (expand index) root name := h.reach fun _ => canonical_expands hc
      obtain ⟨record, refs, -, hrec⟩ := close_expands hclo hre
      exact (hrecs name).mp (Maps.mem_of_some hrec)

def linkMessage (name target : String) : DescriptorProto :=
  .mk (some name) ⟨[⟨some "next", some 1, none, none, some target, none, none, none, none, none, none⟩],
    [], none, none, [], [], [], []⟩ [] []

def mutualSchema : FileDescriptorSet :=
  [⟨none, [linkMessage "Node" "Edge", linkMessage "Edge" ".Node"], [], some "proto3"⟩]

theorem fingerprint_closure_mutual : ∃ index, Index.new mutualSchema = .ok index ∧
    visited index "Node" = ["Node", "Edge"] ∧ ∀ name, name ∈ visited index "Node" ↔ Reaches index "Node" name := by
  have hvi : (Index.new mutualSchema).map (visited · "Node") = .ok ["Node", "Edge"] := by decide +kernel
  have hv : (fingerprint mutualSchema "Node").toOption.join.isSome = true := by decide +kernel
  cases hidx : Index.new mutualSchema with
  | error e =>
    rw [hidx] at hvi
    cases hvi
  | ok index =>
    rw [hidx] at hvi
    refine ⟨index, rfl, Except.ok.inj hvi, ?_⟩
    obtain ⟨value, hv⟩ := Option.isSome_iff_exists.mp hv
    have hfp : fingerprint mutualSchema "Node" = .ok (some value) :=
      toOption_some.mp (Option.join_eq_some_iff.mp hv)
    exact ((fingerprint_closure hidx "Node").2.2.2.2 value hfp).1

end Reiny.Schema
