import Mathlib.Tactic

/-! Texts of segments between slashes, and the replacement of every occurrence of a text. -/

namespace Reiny.Lib.Segments

open List

def segments (text : String) : List String := (text.toList.splitOn '/').map String.ofList

def join (parts : List String) : String := String.ofList (['/'].intercalate (parts.map String.toList))

lemma segments_append (a b : String) : segments (a ++ "/" ++ b) = segments a ++ segments b := by
  have ht : (a ++ "/" ++ b).toList = a.toList ++ '/' :: b.toList := by simp
  rw [segments, ht, splitOn_append_cons_self, map_append]
  rfl

variable {text : String}

lemma segments_single (h : '/' ∉ text.toList) : segments text = [text] := by
  rw [segments, splitOn_eq_singleton h, map_singleton, String.ofList_toList]

lemma segments_ne_nil (text : String) : segments text ≠ [] := by
  simp [segments]

lemma join_segments (text : String) : join (segments text) = text := by
  have hp : (segments text).map String.toList = text.toList.splitOn '/' := by
    simp [segments, Function.comp_def]
  rw [join, hp, intercalate_splitOn, String.ofList_toList]

variable {parts : List String}

lemma join_cons (part : String) (h : parts ≠ []) : join (part :: parts) = part ++ "/" ++ join parts := by
  obtain ⟨next, rest, rfl⟩ := exists_cons_of_ne_nil h
  rw [← String.toList_inj]
  simp [join, intercalate_cons_cons]

lemma join_append {front : List String} (hf : front ≠ []) (h : parts ≠ []) :
    join (front ++ parts) = join front ++ "/" ++ join parts := by
  induction front with
  | nil => exact absurd rfl hf
  | cons part front ih =>
    rw [cons_append, join_cons part (by simp [h])]
    cases front with
    | nil => simp [join]
    | cons next front =>
      rw [ih (by simp), join_cons part (by simp)]
      simp only [String.append_assoc]

lemma segments_join (h : parts ≠ []) (hpa : ∀ part ∈ parts, '/' ∉ part.toList) :
    segments (join parts) = parts := by
  induction parts with
  | nil => exact absurd rfl h
  | cons part parts ih =>
    have hpart := segments_single (hpa part mem_cons_self)
    by_cases hn : parts = []
    · have hj : join [part] = part := by rw [← hpart, join_segments]
      rw [hn, hj, hpart]
    · rw [join_cons part hn, segments_append, hpart, ih hn fun p hp => hpa p (mem_cons_of_mem _ hp)]
      rfl

lemma segments_injective : Function.Injective segments := by
  intro a b h
  rw [← join_segments a, h, join_segments]

lemma mem_intercalate {α : Type*} {x separator : α} {parts : List (List α)}
    (h : x ∈ [separator].intercalate parts) : x = separator ∨ ∃ part ∈ parts, x ∈ part := by
  induction parts with
  | nil => simp at h
  | cons part parts ih =>
    cases parts with
    | nil => exact .inr ⟨part, mem_cons_self, by simpa using h⟩
    | cons next parts =>
      rw [intercalate_cons_cons, mem_append, mem_append, mem_singleton] at h
      rcases h with (hp | hs) | hr
      · exact .inr ⟨part, mem_cons_self, hp⟩
      · exact .inl hs
      · rcases ih hr with hs | ⟨other, ho, hx⟩
        · exact .inl hs
        · exact .inr ⟨other, mem_cons_of_mem _ ho, hx⟩

lemma not_mem_of_segments {c : Char} (hc : c ≠ '/') (h : ∀ part ∈ segments text, c ∉ part.toList) :
    c ∉ text.toList := by
  intro hm
  rw [← join_segments text, join, String.toList_ofList] at hm
  rcases mem_intercalate hm with hs | ⟨part, hp, hin⟩
  · exact hc hs
  · obtain ⟨text, ht, rfl⟩ := mem_map.mp hp
    exact h text ht hin

def replaceFrom (before after : List Char) : ℕ → List Char → List Char
  | _, [] => []
  | skip + 1, _ :: rest => replaceFrom before after skip rest
  | 0, c :: rest =>
    if before.isPrefixOf (c :: rest) then after ++ replaceFrom before after (before.length - 1) rest
    else c :: replaceFrom before after 0 rest

def replace (text before after : String) : String :=
  String.ofList (replaceFrom before.toList after.toList 0 text.toList)

variable {before after : List Char} {c : Char} {rest : List Char}

lemma replaceFrom_cons (h : before.isPrefixOf (c :: rest) = false) :
    replaceFrom before after 0 (c :: rest) = c :: replaceFrom before after 0 rest := by
  rw [replaceFrom, h]
  rfl

lemma replaceFrom_skip (skipped rest : List Char) :
    replaceFrom before after skipped.length (skipped ++ rest) = replaceFrom before after 0 rest := by
  induction skipped with
  | nil => rfl
  | cons c skipped ih => exact ih

lemma replaceFrom_found (tail rest : List Char) :
    replaceFrom (c :: tail) after 0 (c :: tail ++ rest) = after ++ replaceFrom (c :: tail) after 0 rest := by
  have hp : (c :: tail).isPrefixOf (c :: tail ++ rest) = true :=
    isPrefixOf_iff_prefix.mpr (prefix_append _ _)
  rw [cons_append] at hp ⊢
  rw [replaceFrom, if_pos hp, length_cons, Nat.add_sub_cancel, replaceFrom_skip]

lemma replaceFrom_clean {a b : Char} {tail pre : List Char} (hp : b ∉ pre) (hr : rest.head? ≠ some b) :
    replaceFrom (a :: b :: tail) after 0 (pre ++ rest) = pre ++ replaceFrom (a :: b :: tail) after 0 rest := by
  induction pre with
  | nil => rfl
  | cons c pre ih =>
    rw [mem_cons, not_or] at hp
    have hn : (a :: b :: tail).isPrefixOf (c :: (pre ++ rest)) = false := by
      rw [Bool.eq_false_iff, Ne, isPrefixOf_iff_prefix]
      rintro ⟨more, hm⟩
      cases pre with
      | nil =>
        obtain ⟨-, rfl⟩ := List.cons.inj hm
        exact hr rfl
      | cons d pre =>
        simp only [cons_append, List.cons.injEq] at hm
        exact hp.2 (by rw [hm.2.1]; exact mem_cons_self)
    rw [cons_append, replaceFrom_cons hn, ih hp.2]
    rfl

end Reiny.Lib.Segments
