import Reiny.Engine.KeyText

namespace Reiny.Engine

open Lib Results Segments Step Option

def segmentMatches (pattern part : String) : Bool := pattern == part || (pattern == "*" && !isVerbatim part)

def typeMatches : Option String → Option String → Bool
  | none, some ty => !isVerbatim ty
  | none, none => true
  | some pattern, other => other == some pattern

def chunkMatches : Option String → Option String → Bool
  | none, none => true
  | some pattern, some chunk => (segments pattern).length == (segments chunk).length &&
      ((segments pattern).zip (segments chunk)).all fun pair => segmentMatches pair.1 pair.2
  | _, _ => false

def Key.matches (pattern key : Key) : Bool :=
  pattern.domain == key.domain && pattern.source.all (fun source => key.source == some source) &&
    typeMatches pattern.ty key.ty && pattern.endpoint.all (fun slot => key.endpoint == some slot) &&
    chunkMatches pattern.chunk key.chunk

def Key.selectors (key : Key) : List String :=
  key.display ::
    if key.endpoint.isNone && key.chunk.any (fun chunk => (schemaName chunk).isSome) then
      [replace key.display "/@out/" "/@in/"]
    else []

def skipping (rest : List String → Bool) : List String → Bool
  | [] => rest []
  | part :: text => rest (part :: text) || (!isVerbatim part && skipping rest text)

def taking (pattern : String) (rest : List String → Bool) : List String → Bool
  | [] => false
  | part :: text => segmentMatches pattern part && rest text

/-- The meaning of a selector to the network: `*` is one segment that is not verbatim, `**` any number of them,
and every other segment is itself. -/
def selects : List String → List String → Bool
  | [], text => text.isEmpty
  | pattern :: rest, text =>
    if pattern = "**" then skipping (selects rest) text else taking pattern (selects rest) text

variable {pattern part : String} {rest text : List String} {marker : String} {more : List String}

lemma selects_cons (h : pattern ≠ "**") :
    selects (pattern :: rest) (part :: text) = (segmentMatches pattern part && selects rest text) := by
  rw [selects, if_neg h, taking]

lemma selects_nil (h : pattern ≠ "**") : selects (pattern :: rest) [] = false := by
  rw [selects, if_neg h, taking]

lemma selects_skip : selects ("**" :: rest) text = skipping (selects rest) text := by
  rw [selects, if_pos rfl]

lemma segmentMatches_literal (h : pattern ≠ "*") : segmentMatches pattern part = (pattern == part) := by
  have hs : (pattern == "*") = false := beq_eq_false_iff_ne.mpr h
  rw [segmentMatches, hs, Bool.false_and, Bool.or_false]

lemma segmentMatches_star (h : isVerbatim part = false) : segmentMatches "*" part = true := by
  rw [segmentMatches, h]
  simp

lemma verbatim_star (h : isVerbatim pattern = true) : pattern ≠ "*" ∧ pattern ≠ "**" := by
  refine ⟨?_, ?_⟩
  · rintro rfl
    exact absurd h (by decide)
  · rintro rfl
    exact absurd h (by decide)

lemma selects_verbatim (hp : isVerbatim pattern = true) (hs : isVerbatim part = false) :
    selects (pattern :: rest) (part :: text) = false := by
  obtain ⟨hstar, hst⟩ := verbatim_star hp
  have hne : (pattern == part) = false := by
    rw [beq_eq_false_iff_ne]
    rintro rfl
    rw [hp] at hs
    cases hs
  rw [selects_cons hst, segmentMatches_literal hstar, hne, Bool.false_and]

lemma selects_stars (hp : isVerbatim pattern = true) (hs : ∀ part ∈ text, isVerbatim part = false)
    (hm : isVerbatim marker = true) :
    selects ("**" :: pattern :: rest) (text ++ marker :: more) = selects (pattern :: rest) (marker :: more) := by
  rw [selects_skip]
  induction text with
  | nil => rw [List.nil_append, skipping, hm, Bool.not_true, Bool.false_and, Bool.or_false]
  | cons part text ih =>
    rw [List.forall_mem_cons] at hs
    rw [List.cons_append, skipping, selects_verbatim hp hs.1, hs.1, Bool.false_or, Bool.not_false,
      Bool.true_and, ih hs.2]

lemma selects_spaces {literal : List String} (hp : isVerbatim pattern = true)
    (hl : ∀ part ∈ literal, ordinarySegment part = true)
    (hs : ∀ part ∈ text, isVerbatim part = false) (hm : isVerbatim marker = true) :
    selects (literal ++ pattern :: rest) (text ++ marker :: more) = true ↔
      literal = text ∧ selects (pattern :: rest) (marker :: more) = true := by
  induction literal generalizing text with
  | nil =>
    cases text with
    | nil => simp
    | cons part text =>
      rw [List.nil_append, List.cons_append, selects_verbatim hp (hs part List.mem_cons_self)]
      simp
  | cons first literal ih =>
    rw [List.forall_mem_cons] at hl
    obtain ⟨hstar, hst⟩ := ordinary_star hl.1
    cases text with
    | nil =>
      have hne : (first == marker) = false := by
        rw [beq_eq_false_iff_ne]
        rintro rfl
        rw [ordinary_verbatim hl.1] at hm
        cases hm
      rw [List.cons_append, List.nil_append, selects_cons hst, segmentMatches_literal hstar, hne]
      simp
    | cons part text =>
      rw [List.forall_mem_cons] at hs
      rw [List.cons_append, List.cons_append, selects_cons hst, segmentMatches_literal hstar, Bool.and_eq_true,
        beq_iff_eq, ih hl.2 hs.2, List.cons.injEq, and_assoc]

lemma selects_pairs {parts : List String} (h : "**" ∉ parts) : selects parts text =
    (parts.length == text.length && (parts.zip text).all fun pair => segmentMatches pair.1 pair.2) := by
  induction parts generalizing text with
  | nil => cases text <;> rfl
  | cons part parts ih =>
    rw [List.mem_cons, not_or] at h
    cases text with
    | nil => rw [selects_nil (Ne.symm h.1)]; rfl
    | cons part text =>
      rw [selects_cons (Ne.symm h.1), ih h.2, List.zip_cons_cons, List.all_cons, List.length_cons, List.length_cons]
      simp only [Nat.add_right_cancel_iff, Bool.beq_eq_decide_eq]
      rw [Bool.and_left_comm]

variable {pattern key : Key}

def Key.slotsAt (key : Key) (direction : String) : List String :=
  direction :: key.port.getD "*" :: key.ty.getD "*" :: key.facet

lemma slots_at (h : key.isVerbatimType = false) : key.slots = key.slotsAt key.direction := by
  rw [Key.slots, h]
  rfl

lemma selects_namespace {marker : String} {rest : List String} (hp : pattern.Valid) (hk : key.Valid)
    (hm : isVerbatim marker = true) :
    selects (KEY_ROOT :: "v3" :: pattern.domain :: (pattern.spaces ++ marker :: rest))
      (segments key.display) = true ↔
      pattern.domain = key.domain ∧ pattern.source.all (fun source => key.source == some source) = true ∧
        selects (marker :: rest) key.slots = true := by
  obtain ⟨first, more, hsl, hf⟩ := slots_head hk
  obtain ⟨hstar, hst⟩ := ordinary_star hp.domain
  rw [segments_display hk, hsl, selects_cons (by decide), selects_cons (by decide), selects_cons hst,
    segmentMatches_literal (by decide), segmentMatches_literal (by decide), segmentMatches_literal hstar]
  simp only [beq_self_eq_true, Bool.true_and, Bool.and_eq_true, beq_iff_eq]
  refine and_congr_right fun _ => ?_
  cases hsrc : pattern.source with
  | none =>
    have hs : pattern.spaces = ["**"] := by
      rw [Key.spaces, hsrc]
      decide
    rw [hs, List.singleton_append, selects_stars hm (spaces_plain hk) hf]
    simp
  | some source =>
    have hl : ∀ part ∈ pattern.spaces, ordinarySegment part = true := by
      rw [Key.spaces, hsrc]
      exact hp.source source hsrc
    rw [selects_spaces hm hl (spaces_plain hk) hf]
    refine and_congr_left fun _ => ?_
    rw [Key.spaces, Key.spaces, hsrc, segments_injective.eq_iff, all_some, beq_iff_eq]
    cases ho : key.source with
    | none =>
      simp only [getD_some, getD_none, reduceCtorEq, iff_false]
      rintro rfl
      exact (ordinary_star (hp.source "**" hsrc "**" (by decide))).2 rfl
    | some other =>
      simp only [getD_some, Option.some.injEq]
      exact eq_comm

variable {chunk : Option String} {facet : List String}

lemma Facet.stars (h : Facet chunk facet) : "**" ∉ facet := by
  cases h with
  | none => simp
  | service => decide
  | sub => decide
  | schema name hn =>
    rw [List.mem_cons, List.mem_singleton, not_or]
    refine ⟨by decide, ?_⟩
    rintro rfl
    rcases hn with hn | hn
    · exact absurd hn (by decide)
    · exact (ordinary_star hn).2 rfl

lemma chunkMatches_facet (hp : pattern.Valid) :
    chunkMatches pattern.chunk key.chunk = selects pattern.facet key.facet := by
  have hs := hp.facet.stars
  rw [selects_pairs hs]
  unfold Key.facet
  cases pattern.chunk with
  | none =>
    cases key.chunk with
    | none => rfl
    | some chunk => simp [chunkMatches, eq_comm (a := 0), segments_ne_nil]
  | some chunk =>
    cases key.chunk with
    | none => simp [chunkMatches, segments_ne_nil]
    | some other => rfl

lemma typeMatches_plain (hp : pattern.Valid) (hk : key.Valid) (hpl : pattern.isVerbatimType = false)
    (hkey : key.isVerbatimType = false) :
    typeMatches pattern.ty key.ty = segmentMatches (pattern.ty.getD "*") (key.ty.getD "*") := by
  have hv : isVerbatim (key.ty.getD "*") = false := by
    rcases hk.plain_type hkey with h | h
    · rw [h]
      decide
    · exact ordinary_verbatim h
  cases hty : pattern.ty with
  | none =>
    rw [getD_none, segmentMatches_star hv]
    cases ho : key.ty with
    | none => rfl
    | some other =>
      rw [ho, getD_some] at hv
      rw [typeMatches, hv]
      rfl
  | some ty =>
    have hor : ordinarySegment ty = true := by
      have h := hp.plain_type hpl
      rw [hty, getD_some] at h
      refine h.resolve_left ?_
      rintro rfl
      have hso := wildcardToNone_type hp
      rw [hty] at hso
      exact absurd hso (by decide)
    obtain ⟨hs, -⟩ := ordinary_star hor
    rw [getD_some, segmentMatches_literal hs, typeMatches, Bool.eq_iff_iff, beq_iff_eq, beq_iff_eq]
    cases ho : key.ty with
    | none => simp [hs]
    | some other =>
      simp only [Option.some.injEq, getD_some]
      exact eq_comm

lemma endpoint_slots (hp : pattern.Valid) (hk : key.Valid) {slot : EndpointSlot}
    (hsl : pattern.endpoint = some slot) :
    key.endpoint = some slot ↔
      pattern.direction = key.direction ∧ segmentMatches (pattern.port.getD "*") (key.port.getD "*") = true := by
  obtain ⟨port, hpo⟩ : ∃ port, pattern.port = some port := by
    rw [← ne_none_iff_exists', Ne, port_endpoint, hsl]
    simp
  obtain ⟨hs, -⟩ := ordinary_star (hp.port port hpo).1
  have hpa := direction_endpoint hp hpo
  rw [hpo, getD_some, segmentMatches_literal hs, beq_iff_eq, ← hsl]
  constructor
  · intro hsa
    have hkp : key.port = some port := by rw [← hpo, Key.port, Key.port, hsa]
    refine ⟨?_, by rw [hkp]; rfl⟩
    rw [hpa, direction_endpoint hk hkp] at hsa
    rcases direction_cases pattern with hd | hd <;> rcases direction_cases key with hd' | hd' <;>
      rw [hd, hd'] at hsa ⊢ <;> simp at hsa
  · rintro ⟨hdir, hsa⟩
    have hkp : key.port = some port := by
      cases ho : key.port with
      | none =>
        rw [ho] at hsa
        exact absurd hsa hs
      | some other =>
        rw [ho] at hsa
        rw [hsa]
        rfl
    rw [hpa, direction_endpoint hk hkp, hdir]

lemma Facet.selects {other : Option String} {text : List String} (h : Facet chunk facet)
    (h' : Facet other text) (hs : selects facet text = true) :
    other = chunk ∨ ∃ name, chunk = some ("@schema/" ++ name) := by
  cases h with
  | schema name => exact .inr ⟨name, rfl⟩
  | none =>
    cases h' with
    | none => exact .inl rfl
    | _ => simp [Engine.selects] at hs
  | service =>
    refine .inl ?_
    cases h' with
    | service => rfl
    | none | sub => exact absurd hs (by decide)
    | schema name =>
      rw [selects_pairs (by decide)] at hs
      exact absurd hs (by simp)
  | sub =>
    refine .inl ?_
    cases h' with
    | sub => rfl
    | none | service => exact absurd hs (by decide)
    | schema name =>
      rw [selects_pairs (by decide)] at hs
      exact absurd hs (by simp)

lemma direction_chunk (hp : pattern.Valid) (hk : key.Valid) (hep : pattern.endpoint = none)
    (hsel : selects pattern.facet key.facet = true) :
    pattern.direction = key.direction ∨ ∃ name, pattern.chunk = some ("@schema/" ++ name) := by
  have ho : pattern.isInput = false := by rw [Key.isInput, hep]
  rcases hp.facet.selects hk.facet hsel with hch | hsch
  · cases hin : key.isInput with
    | false =>
      left
      rw [Key.direction, Key.direction, ho, hin, hch]
    | true =>
      rcases hk.input hin with hs | hsch
      · left
        rw [Key.direction, Key.direction, hin, if_pos rfl, ← hch, if_pos hs, ite_self]
      · exact .inr (hch ▸ hsch)
  · exact .inr hsch

def Key.directions (key : Key) : List String :=
  if key.endpoint.isNone && key.chunk.any (fun chunk => (schemaName chunk).isSome) then ["@out", "@in"]
  else [key.direction]

lemma schema_chunk : key.chunk.any (fun chunk => (schemaName chunk).isSome) = true ↔
    ∃ name, key.chunk = some ("@schema/" ++ name) := by
  cases key.chunk <;> simp [isSome_iff_exists, schemaName_some]

lemma directions_endpoint (hp : pattern.Valid) (hk : key.Valid) (hsel : selects pattern.facet key.facet = true) :
    (key.direction ∈ pattern.directions ∧ segmentMatches (pattern.port.getD "*") (key.port.getD "*") = true) ↔
      pattern.endpoint.all (fun slot => key.endpoint == some slot) = true := by
  unfold Key.directions
  cases hep : pattern.endpoint with
  | none =>
    have hpo : segmentMatches (pattern.port.getD "*") (key.port.getD "*") = true := by
      rw [port_endpoint.mpr hep, getD_none]
      refine segmentMatches_star ?_
      rcases hk.plain_port with h | h
      · rw [h]
        decide
      · exact ordinary_verbatim h
    simp only [hpo, isNone_none, Bool.true_and, and_true, all_none, iff_true]
    split_ifs with hsch
    · rcases direction_cases key with h | h <;> simp [h]
    · rcases direction_chunk hp hk hep hsel with hs | hn
      · rw [hs]
        exact List.mem_singleton_self _
      · exact absurd (schema_chunk.mpr hn) hsch
  | some slot =>
    rw [isNone_some, Bool.false_and, if_neg Bool.false_ne_true, List.mem_singleton, all_some, beq_iff_eq,
      endpoint_slots hp hk hep]
    exact and_congr_left fun _ => eq_comm

def Key.front (key : Key) : String := KEY_ROOT ++ "/v3/" ++ key.domain ++ "/" ++ key.source.getD "**"

lemma segments_front (h : key.Valid) : segments key.front = KEY_ROOT :: "v3" :: key.domain :: key.spaces := by
  have ht : key.front = KEY_ROOT ++ "/" ++ "v3" ++ "/" ++ key.domain ++ "/" ++ key.source.getD "**" := rfl
  have hr : segments KEY_ROOT = [KEY_ROOT] := by decide
  have hv : segments "v3" = ["v3"] := by decide
  rw [ht, segments_append, segments_append, segments_append, hr, hv, ordinary_segments h.domain]
  rfl

lemma front_clean (h : key.Valid) : '@' ∉ key.front.toList := by
  refine not_mem_of_segments (by decide) ?_
  rw [segments_front h]
  intro part hp
  rw [List.mem_cons, List.mem_cons, List.mem_cons] at hp
  rcases hp with rfl | rfl | rfl | hp
  · decide
  · decide
  · exact ordinary_ne h.domain (by decide)
  · unfold Key.spaces at hp
    cases hsrc : key.source with
    | none =>
      have hs : segments "**" = ["**"] := by decide
      rw [hsrc, getD_none, hs, List.mem_singleton] at hp
      rw [hp]
      decide
    | some source =>
      rw [hsrc] at hp
      exact ordinary_ne (h.source source hsrc part hp) (by decide)

lemma wildcard_clean {part : String} (h : part = "*" ∨ ordinarySegment part = true) : '@' ∉ part.toList := by
  rcases h with rfl | h
  · decide
  · exact ordinary_ne h (by decide)

variable {name : String}

lemma replace_direction {front ty : String} (hfr : '@' ∉ front.toList) (hty : '@' ∉ ty.toList)
    (hn : '@' ∉ name.toList) :
    replace (front ++ "/@out/*/" ++ ty ++ "/@schema/" ++ name) "/@out/" "/@in/" =
      front ++ "/@in/*/" ++ ty ++ "/@schema/" ++ name := by
  have hb : "/@out/".toList = '/' :: '@' :: "out/".toList := rfl
  have ht : (front ++ "/@out/*/" ++ ty ++ "/@schema/" ++ name).toList =
      front.toList ++ ('/' :: ('@' :: "out/".toList) ++ (("*/".toList ++ ty.toList) ++
        ('/' :: '@' :: ("schema/".toList ++ name.toList) ++ []))) := by
    simp
  have hsl : '@' ∉ "*/".toList ++ ty.toList := by
    rw [List.mem_append, not_or]
    exact ⟨by decide, hty⟩
  have hf : '@' ∉ "schema/".toList ++ name.toList := by
    rw [List.mem_append, not_or]
    exact ⟨by decide, hn⟩
  rw [replace, ht, hb, replaceFrom_clean hfr (by simp), replaceFrom_found,
    replaceFrom_clean hsl (by simp)]
  rw [List.cons_append, List.cons_append, replaceFrom_cons (by rfl), replaceFrom_cons (by rfl),
    replaceFrom_clean hf (by simp), ← String.toList_inj, String.toList_ofList]
  simp [replaceFrom]

def Key.targets (key : Key) : List (List String) :=
  if key.isVerbatimType then [key.slots] else key.directions.map key.slotsAt

lemma targets_head (h : key.Valid) {slots : List String} (hm : slots ∈ key.targets) :
    ∃ marker rest, slots = marker :: rest ∧ isVerbatim marker = true := by
  unfold Key.targets Key.directions at hm
  split_ifs at hm
  · rw [List.mem_singleton.mp hm]
    exact slots_head h
  · simp only [List.map_cons, List.map_nil, List.mem_cons, List.not_mem_nil, or_false] at hm
    rcases hm with rfl | rfl
    · exact ⟨_, _, rfl, by decide⟩
    · exact ⟨_, _, rfl, by decide⟩
  · rw [List.map_singleton, List.mem_singleton] at hm
    refine ⟨_, _, hm, ?_⟩
    rcases direction_cases key with hd | hd <;> rw [hd] <;> decide

lemma display_schema (hp : key.isVerbatimType = false) (hep : key.endpoint = none)
    (hch : key.chunk = some ("@schema/" ++ name)) :
    key.direction = "@out" ∧ key.display = key.front ++ "/@out/*/" ++ key.ty.getD "*" ++ "/@schema/" ++ name := by
  have hd : key.direction = "@out" := by
    rw [Key.direction, Key.isInput, hep, if_neg Bool.false_ne_true, hch,
      if_neg (fun hs => (schema_ne name).1 (Option.some.inj hs))]
  refine ⟨hd, ?_⟩
  rw [Key.display, Key.displaySlots, hp, hd, hch, port_endpoint.mpr hep, Key.front,
    ← String.toList_inj]
  simp [Key.displayChunk]

lemma schema_wildcard (h : key.Valid) (hch : key.chunk = some ("@schema/" ++ name)) :
    name = "*" ∨ ordinarySegment name = true := by
  rcases h.chunk _ hch with hc | hc | ⟨other, hc, ho⟩
  · exact absurd hc (schema_ne name).2
  · exact absurd hc (schema_ne name).1
  · have hs := schemaName_some.mpr hc
    rw [schemaName_some.mpr rfl] at hs
    exact Option.some.inj hs ▸ ho

lemma segments_replaced (h : key.Valid) (hp : key.isVerbatimType = false)
    (hep : key.endpoint = none) (hch : key.chunk = some ("@schema/" ++ name)) :
    segments (replace key.display "/@out/" "/@in/") =
      KEY_ROOT :: "v3" :: key.domain :: (key.spaces ++ key.slotsAt "@in") := by
  have hn := schema_wildcard h hch
  have hty := h.plain_type hp
  have hsl : key.front ++ "/@in/*/" ++ key.ty.getD "*" ++ "/@schema/" ++ name =
      key.front ++ "/" ++ "@in" ++ "/" ++ "*" ++ "/" ++ key.ty.getD "*" ++ "/" ++ ("@schema/" ++ name) := by
    rw [← String.toList_inj]
    simp
  have hs : segments "*" = ["*"] := by decide
  have hm : segments "@in" = ["@in"] := by decide
  have hf : key.facet = [SCHEMA_CHUNK, name] := by
    rw [Key.facet, hch, elim_some, segments_schema hn]
  rw [(display_schema hp hep hch).2,
    replace_direction (front_clean h) (wildcard_clean hty) (wildcard_clean hn), hsl, segments_append,
    segments_append, segments_append, segments_append, segments_front h, hs, hm, segments_wildcard hty,
    segments_schema hn, Key.slotsAt, port_endpoint.mpr hep, hf]
  simp

lemma segments_selectors (h : key.Valid) : key.selectors.map segments =
    key.targets.map fun slots => KEY_ROOT :: "v3" :: key.domain :: (key.spaces ++ slots) := by
  unfold Key.selectors Key.targets Key.directions
  cases hv : key.isVerbatimType with
  | true =>
    obtain ⟨-, hch⟩ := h.control hv
    rw [hch, any_none, Bool.and_false, if_neg Bool.false_ne_true, if_pos rfl, List.map_singleton,
      List.map_singleton, segments_display h]
  | false =>
    rw [if_neg Bool.false_ne_true]
    split_ifs with hb
    · rw [Bool.and_eq_true, isNone_iff_eq_none, schema_chunk] at hb
      obtain ⟨hep, name, hch⟩ := hb
      rw [List.map_cons, List.map_singleton, segments_replaced h hv hep hch, segments_display h,
        slots_at hv, (display_schema hv hep hch).1]
      rfl
    · rw [List.map_singleton, segments_display h, slots_at hv]
      rfl

variable {direction : String}

lemma direction_star (h : key.Valid) (hp : key.isVerbatimType = false) (hm : direction ∈ key.directions) :
    direction ≠ "*" ∧ direction ≠ "**" := by
  have hh : key.slotsAt direction ∈ key.targets := by
    rw [Key.targets, hp]
    exact List.mem_map_of_mem hm
  obtain ⟨marker, rest, hsl, hv⟩ := targets_head h hh
  rw [(List.cons.inj hsl).1]
  exact verbatim_star hv

lemma wildcard_stars {part : String} (h : part = "*" ∨ ordinarySegment part = true) : part ≠ "**" := by
  rcases h with rfl | h
  · decide
  · exact (ordinary_star h).2

lemma selects_slotsAt (hp : pattern.Valid) (hk : key.Valid) (hpl : pattern.isVerbatimType = false)
    (hkey : key.isVerbatimType = false) (hd : direction ∈ pattern.directions) :
    selects (pattern.slotsAt direction) key.slots = true ↔
      direction = key.direction ∧ segmentMatches (pattern.port.getD "*") (key.port.getD "*") = true ∧
        typeMatches pattern.ty key.ty = true ∧ chunkMatches pattern.chunk key.chunk = true := by
  obtain ⟨hst, hs⟩ := direction_star hp hpl hd
  rw [slots_at hkey, Key.slotsAt, Key.slotsAt, selects_cons hs, selects_cons (wildcard_stars hp.plain_port),
    selects_cons (wildcard_stars (hp.plain_type hpl)), segmentMatches_literal hst,
    typeMatches_plain hp hk hpl hkey, chunkMatches_facet hp]
  simp only [Bool.and_eq_true, beq_iff_eq]

lemma slots_control (h : key.Valid) (hv : key.isVerbatimType = true) :
    ∃ ty, key.ty = some ty ∧ isControl ty = true ∧ key.slots = [ty] ∧ key.endpoint = none ∧ key.chunk = none := by
  obtain ⟨ty, hty, hc⟩ := h.control_type hv
  obtain ⟨hep, hch⟩ := h.control hv
  refine ⟨ty, hty, hc, ?_, hep, hch⟩
  rw [Key.slots, hv, Key.facet, hch, hty]
  rfl

lemma typeMatches_control (hk : key.Valid) (hm : pattern.isVerbatimType ≠ key.isVerbatimType) :
    typeMatches pattern.ty key.ty = false := by
  cases hty : pattern.ty with
  | none =>
    have hp : pattern.isVerbatimType = false := by rw [Key.isVerbatimType, hty]; rfl
    rw [hp] at hm
    obtain ⟨other, ho, hc, -⟩ := slots_control hk (Bool.eq_true_of_not_eq_false (Ne.symm hm))
    rw [ho, typeMatches, control_verbatim hc]
    rfl
  | some ty =>
    rw [typeMatches, beq_eq_false_iff_ne]
    intro ho
    rw [Key.isVerbatimType, Key.isVerbatimType, hty, ho] at hm
    exact hm rfl

lemma targets_agree (hp : pattern.Valid) (hk : key.Valid) :
    (∃ slots ∈ pattern.targets, selects slots key.slots = true) ↔
      typeMatches pattern.ty key.ty = true ∧ pattern.endpoint.all (fun slot => key.endpoint == some slot) = true ∧
        chunkMatches pattern.chunk key.chunk = true := by
  unfold Key.targets
  cases hpl : pattern.isVerbatimType with
  | true =>
    obtain ⟨ty, hty, hc, hsl, hep, hch⟩ := slots_control hp hpl
    obtain ⟨hst, hs⟩ := verbatim_star (control_verbatim hc)
    simp only [if_true, List.mem_singleton, exists_eq_left, hsl]
    cases hkey : key.isVerbatimType with
    | true =>
      obtain ⟨other, ho, -, hot, -, hn⟩ := slots_control hk hkey
      rw [hot, ho, hty, hch, hn, hep, selects_cons hs, segmentMatches_literal hst]
      simp only [selects, chunkMatches, typeMatches, List.isEmpty_nil, Bool.and_true, all_none, beq_iff_eq,
        Option.some.injEq, and_true]
      exact eq_comm
    | false =>
      rw [typeMatches_control hk (by rw [hpl, hkey]; decide), slots_at hkey, Key.slotsAt, selects_cons hs]
      simp [selects]
  | false =>
    cases hkey : key.isVerbatimType with
    | true =>
      obtain ⟨ty, -, -, hsl, -⟩ := slots_control hk hkey
      rw [typeMatches_control hk (by rw [hpl, hkey]; decide)]
      simp only [Bool.false_eq_true, if_false, List.mem_map, exists_exists_and_eq_and, false_and, iff_false]
      rintro ⟨direction, hm, hsel⟩
      rw [hsl, Key.slotsAt, selects_cons (direction_star hp hpl hm).2,
        selects_nil (wildcard_stars hp.plain_port)] at hsel
      simp at hsel
    | false =>
      simp only [Bool.false_eq_true, if_false, List.mem_map, exists_exists_and_eq_and]
      constructor
      · rintro ⟨direction, hm, hsel⟩
        obtain ⟨rfl, hpo, hty, hch⟩ := (selects_slotsAt hp hk hpl hkey hm).mp hsel
        exact ⟨hty, (directions_endpoint hp hk (chunkMatches_facet hp ▸ hch)).mp ⟨hm, hpo⟩, hch⟩
      · rintro ⟨hty, hep, hch⟩
        obtain ⟨hm, hpo⟩ := (directions_endpoint hp hk (chunkMatches_facet hp ▸ hch)).mpr hep
        exact ⟨_, hm, (selects_slotsAt hp hk hpl hkey hm).mpr ⟨rfl, hpo, hty, hch⟩⟩

theorem matches_selectors (pattern key : Key) (hp : pattern.validate = .ok ()) (hk : key.validate = .ok ()) :
    pattern.matches key = true ↔
      ∃ selector ∈ pattern.selectors, selects (segments selector) (segments key.display) = true := by
  have hpa := validate_ok.mp hp
  have hkey := validate_ok.mp hk
  have hte : (∃ selector ∈ pattern.selectors, selects (segments selector) (segments key.display) = true) ↔
      ∃ parts ∈ pattern.selectors.map segments, selects parts (segments key.display) = true := by
    simp only [List.mem_map, exists_exists_and_eq_and]
  rw [hte, segments_selectors hpa]
  have hsl : ∀ slots ∈ pattern.targets,
      (selects (KEY_ROOT :: "v3" :: pattern.domain :: (pattern.spaces ++ slots)) (segments key.display) = true ↔
        pattern.domain = key.domain ∧ pattern.source.all (fun source => key.source == some source) = true ∧
          selects slots key.slots = true) := by
    intro slots hm
    obtain ⟨marker, rest, rfl, hma⟩ := targets_head hpa hm
    exact selects_namespace hpa hkey hma
  simp only [List.mem_map, exists_exists_and_eq_and]
  rw [exists_congr fun slots => and_congr_right (hsl slots)]
  have ht := targets_agree hpa hkey
  simp only [Key.matches, Bool.and_eq_true, beq_iff_eq]
  constructor
  · rintro ⟨⟨⟨⟨hd, hs⟩, hty⟩, hep⟩, hch⟩
    obtain ⟨slots, hm, hsel⟩ := ht.mpr ⟨hty, hep, hch⟩
    exact ⟨slots, hm, hd, hs, hsel⟩
  · rintro ⟨slots, hm, hd, hs, hsel⟩
    obtain ⟨hty, hep, hch⟩ := ht.mp ⟨slots, hm, hsel⟩
    exact ⟨⟨⟨⟨hd, hs⟩, hty⟩, hep⟩, hch⟩

def inputSchema : Key := ⟨"robot", some "arm/left", some (.input "goal"), some "Pose", some "@schema/Pose"⟩

theorem matches_selectors_input : ∃ selector ∈ schemaPattern.selectors,
    selects (segments selector) (segments inputSchema.display) = true :=
  (matches_selectors schemaPattern inputSchema (by decide +kernel) (by decide +kernel)).mp (by decide +kernel)

end Reiny.Engine
