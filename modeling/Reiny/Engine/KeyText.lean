import Reiny.Engine.Key

namespace Reiny.Engine

open Lib Results Segments Step List

namespace Key

def facet (key : Key) : List String := key.chunk.elim [] segments

def slots (key : Key) : List String :=
  (if key.isVerbatimType then [key.ty.getD ""] else [key.direction, key.port.getD "*", key.ty.getD "*"]) ++
    key.facet

def spaces (key : Key) : List String := segments (key.source.getD "**")

end Key

variable {key : Key}

lemma segments_schema {name : String} (h : name = "*" ∨ ordinarySegment name = true) :
    segments ("@schema/" ++ name) = [SCHEMA_CHUNK, name] := by
  have ht : "@schema/" ++ name = SCHEMA_CHUNK ++ "/" ++ name := rfl
  have hn : segments name = [name] := by
    rcases h with rfl | h
    · decide
    · exact ordinary_segments h
  rw [ht, segments_append, hn]
  rfl

inductive Facet : Option String → List String → Prop
  | none : Facet none []
  | service : Facet (some SERVICE_CHUNK) [SERVICE_CHUNK]
  | sub : Facet (some SUB_CHUNK) [SUB_CHUNK]
  | schema (name : String) (h : name = "*" ∨ ordinarySegment name = true) :
      Facet (some ("@schema/" ++ name)) [SCHEMA_CHUNK, name]

lemma Key.Valid.facet (h : key.Valid) : Facet key.chunk key.facet := by
  unfold Key.facet
  cases hc : key.chunk with
  | none => exact .none
  | some chunk =>
    rcases h.chunk chunk hc with rfl | rfl | ⟨name, rfl, hn⟩
    · exact .service
    · exact .sub
    · rw [Option.elim_some, segments_schema hn]
      exact .schema name hn

lemma schema_ne (name : String) : "@schema/" ++ name ≠ SUB_CHUNK ∧ "@schema/" ++ name ≠ SERVICE_CHUNK := by
  refine ⟨?_, ?_⟩
  · intro h
    have hc := congrArg String.toList h
    simp [SUB_CHUNK] at hc
  · intro h
    have hc := congrArg String.toList h
    simp [SERVICE_CHUNK] at hc

variable {chunk : Option String}

lemma Facet.head_sub {facet : List String} (h : Facet chunk facet) :
    facet.head? = some SUB_CHUNK ↔ chunk = some SUB_CHUNK := by
  cases h with
  | none => simp
  | service => decide
  | sub => simp
  | schema name =>
    refine ⟨fun h => absurd (Option.some.inj h) (by decide), ?_⟩
    intro h
    exact absurd (Option.some.inj h) (schema_ne name).1

lemma Facet.head_schema {facet : List String} (h : Facet chunk facet) :
    facet.head? = some SCHEMA_CHUNK ↔ ∃ name, chunk = some ("@schema/" ++ name) := by
  cases h with
  | none => simp
  | service =>
    refine ⟨fun h => absurd (Option.some.inj h) (by decide), ?_⟩
    rintro ⟨name, h⟩
    exact absurd (Option.some.inj h).symm (schema_ne name).2
  | sub =>
    refine ⟨fun h => absurd (Option.some.inj h) (by decide), ?_⟩
    rintro ⟨name, h⟩
    exact absurd (Option.some.inj h).symm (schema_ne name).1
  | schema name => simp

lemma Key.Valid.plain_type (h : key.Valid) (hp : key.isVerbatimType = false) :
    key.ty.getD "*" = "*" ∨ ordinarySegment (key.ty.getD "*") = true := by
  cases hty : key.ty with
  | none => exact .inl rfl
  | some ty =>
    rcases h.ty ty hty with ho | hc
    · exact .inr ho
    · rw [Key.isVerbatimType, hty, Option.any_some, control_verbatim hc] at hp
      cases hp

lemma Key.Valid.control_type (h : key.Valid) (hve : key.isVerbatimType = true) :
    ∃ ty, key.ty = some ty ∧ isControl ty = true := by
  obtain ⟨ty, hty, hv⟩ := (Option.any_eq_true ..).mp hve
  refine ⟨ty, hty, ?_⟩
  rcases h.ty ty hty with ho | hc
  · rw [ordinary_verbatim ho] at hv
    cases hv
  · exact hc

lemma Key.Valid.plain_port (h : key.Valid) :
    key.port.getD "*" = "*" ∨ ordinarySegment (key.port.getD "*") = true := by
  cases hp : key.port with
  | none => exact .inl rfl
  | some port => exact .inr (h.port port hp).1

lemma segments_wildcard {part : String} (h : part = "*" ∨ ordinarySegment part = true) :
    segments part = [part] := by
  rcases h with rfl | h
  · decide
  · exact ordinary_segments h

lemma control_segments {ty : String} (h : isControl ty = true) : segments ty = [ty] := by
  simp only [isControl, Bool.or_eq_true, beq_iff_eq] at h
  rcases h with (rfl | rfl) | rfl <;> decide

lemma direction_cases (key : Key) : key.direction = "@out" ∨ key.direction = "@in" := by
  unfold Key.direction
  split_ifs
  · exact .inr rfl
  · exact .inr rfl
  · exact .inl rfl

lemma segments_displaySlots (h : key.Valid) : segments key.displaySlots =
    if key.isVerbatimType then [key.ty.getD ""] else [key.direction, key.port.getD "*", key.ty.getD "*"] := by
  unfold Key.displaySlots
  cases hv : key.isVerbatimType with
  | true =>
    obtain ⟨ty, hty, hc⟩ := h.control_type hv
    rw [hty]
    exact control_segments hc
  | false =>
    have hdir : segments key.direction = [key.direction] := by
      rcases direction_cases key with hd | hd <;> rw [hd] <;> decide
    simp only [Bool.false_eq_true, if_false]
    rw [segments_append, segments_append, hdir, segments_wildcard h.plain_port,
      segments_wildcard (h.plain_type hv)]
    rfl

lemma segments_display (h : key.Valid) :
    segments key.display = KEY_ROOT :: "v3" :: key.domain :: (key.spaces ++ key.slots) := by
  have ht : key.display = KEY_ROOT ++ "/" ++ "v3" ++ "/" ++ key.domain ++ "/" ++ key.source.getD "**" ++ "/" ++
      (key.displaySlots ++ Key.displayChunk key.chunk) := by
    rw [Key.display, ← String.append_assoc]
    rfl
  have hch : segments (key.displaySlots ++ Key.displayChunk key.chunk) = key.slots := by
    rw [Key.slots, ← segments_displaySlots h, Key.facet]
    cases key.chunk with
    | none => rw [Key.displayChunk, String.append_empty, Option.elim_none, append_nil]
    | some chunk => rw [Key.displayChunk, ← String.append_assoc, segments_append, Option.elim_some]
  have hr : segments KEY_ROOT = [KEY_ROOT] := by decide
  have hv : segments "v3" = ["v3"] := by decide
  rw [ht, segments_append, segments_append, segments_append, segments_append, hch, hr, hv,
    ordinary_segments h.domain, Key.spaces, append_assoc]
  rfl

lemma spaces_plain (h : key.Valid) : ∀ part ∈ key.spaces, isVerbatim part = false := by
  intro part hp
  unfold Key.spaces at hp
  cases hsrc : key.source with
  | none =>
    rw [hsrc] at hp
    have hs : segments "**" = ["**"] := by decide
    rw [Option.getD_none, hs, mem_singleton] at hp
    rw [hp]
    decide
  | some source =>
    rw [hsrc] at hp
    exact ordinary_verbatim (h.source source hsrc part hp)

lemma slots_head (h : key.Valid) : ∃ marker rest, key.slots = marker :: rest ∧ isVerbatim marker = true := by
  unfold Key.slots
  cases hv : key.isVerbatimType with
  | true =>
    obtain ⟨ty, hty, hc⟩ := h.control_type hv
    exact ⟨ty, key.facet, by rw [hty]; rfl, control_verbatim hc⟩
  | false =>
    refine ⟨key.direction, _, rfl, ?_⟩
    rcases direction_cases key with hd | hd <;> rw [hd] <;> decide

lemma findIdx_slots (h : key.Valid) : (key.spaces ++ key.slots).findIdx? isVerbatim = some key.spaces.length := by
  obtain ⟨marker, rest, hsl, hm⟩ := slots_head h
  have hs : key.spaces.findIdx? isVerbatim = none := findIdx?_eq_none_iff.mpr (spaces_plain h)
  rw [findIdx?_append, hs, hsl, findIdx?_cons, hm]
  simp

lemma port_endpoint : key.port = none ↔ key.endpoint = none := by
  simp [Key.port]

lemma direction_endpoint (h : key.Valid) {port : String} (hp : key.port = some port) :
    key.endpoint = if key.direction = "@out" then some (.output port) else some (.input port) := by
  unfold Key.direction
  cases hep : key.endpoint with
  | none =>
    rw [port_endpoint.mpr hep] at hp
    cases hp
  | some slot =>
    rw [Key.port, hep] at hp
    cases slot with
    | output other =>
      have hin : key.isInput = false := by rw [Key.isInput, hep]
      have hs := h.output (by rw [Key.isOutput, hep])
      rw [hin, if_neg Bool.false_ne_true, if_neg hs, if_pos rfl, ← Option.some.inj hp]
    | input other =>
      have hin : key.isInput = true := by rw [Key.isInput, hep]
      rw [hin, if_pos rfl, if_neg (by decide), ← Option.some.inj hp]

lemma direction_out (h : key.Valid) (ho : key.direction = "@out") : key.facet.head? ≠ some SUB_CHUNK := by
  rw [Ne, h.facet.head_sub]
  intro hs
  rw [Key.direction, if_pos hs, ite_self] at ho
  exact absurd ho (by decide)

lemma direction_in (h : key.Valid) (hin : key.direction = "@in") :
    key.facet.head? = some SUB_CHUNK ∨ key.facet.head? = some SCHEMA_CHUNK := by
  rw [h.facet.head_sub, h.facet.head_schema]
  unfold Key.direction at hin
  split_ifs at hin with hinput hs
  · exact h.input hinput
  · exact .inl hs
  · exact absurd hin (by decide)

lemma direction_marker (key : Key) : isControl key.direction = false ∧
    (key.direction == "@out" || key.direction == "@in") = true := by
  rcases direction_cases key with hd | hd <;> rw [hd] <;> decide

lemma facet_chunk (key : Key) : (if key.facet.isEmpty then none else some (join key.facet)) = key.chunk := by
  unfold Key.facet
  cases key.chunk with
  | none => rfl
  | some chunk =>
    rw [Option.elim_some, if_neg (by simp [segments_ne_nil]), join_segments]

lemma wildcardToNone_type (h : key.Valid) : Key.wildcardToNone (key.ty.getD "*") = key.ty := by
  unfold Key.wildcardToNone
  cases hty : key.ty with
  | none => rfl
  | some ty =>
    rw [Option.getD_some, if_pos]
    rintro rfl
    rcases h.ty "*" hty with ho | hc
    · exact (ordinary_star ho).1 rfl
    · exact absurd hc (by decide)

lemma parseSlots_slots (h : key.Valid) : Key.parseSlots key.slots = some (key.endpoint, key.ty, key.chunk) := by
  unfold Key.slots
  cases hv : key.isVerbatimType with
  | true =>
    obtain ⟨ty, hty, hc⟩ := h.control_type hv
    obtain ⟨hep, hch⟩ := h.control hv
    have hf : key.facet = [] := by rw [Key.facet, hch]; rfl
    rw [hf, hty, hep, hch]
    simp [Key.parseSlots, hc]
  | false =>
    obtain ⟨hc, hm⟩ := direction_marker key
    have hpo : (key.port.getD "*" == "*" || ordinarySegment (key.port.getD "*")) = true := by
      rcases h.plain_port with hp | hp <;> simp [hp]
    have hty : (key.ty.getD "*" == "*" || ordinarySegment (key.ty.getD "*")) = true := by
      rcases h.plain_type hv with ht | ht <;> simp [ht]
    have ho : (key.direction == "@out" && key.facet.head? == some SUB_CHUNK) = false := by
      rw [Bool.and_eq_false_imp, beq_iff_eq, beq_eq_false_iff_ne]
      exact direction_out h
    have hin : (key.direction == "@in" &&
        !(key.facet.head? == some SUB_CHUNK || key.facet.head? == some SCHEMA_CHUNK)) = false := by
      rw [Bool.and_eq_false_imp, beq_iff_eq, Bool.not_eq_false', Bool.or_eq_true, beq_iff_eq, beq_iff_eq]
      exact direction_in h
    have hep : (if key.port.getD "*" == "*" then none
        else if key.direction == "@out" then some (EndpointSlot.output (key.port.getD "*"))
        else some (EndpointSlot.input (key.port.getD "*"))) = key.endpoint := by
      cases hp : key.port with
      | none =>
        rw [port_endpoint.mp hp]
        rfl
      | some port =>
        have hs := (ordinary_star (h.port port hp).1).1
        rw [direction_endpoint h hp, Option.getD_some, if_neg (by simpa using hs)]
        simp only [beq_iff_eq]
    rw [if_neg Bool.false_ne_true, cons_append, cons_append, cons_append, nil_append,
      Key.parseSlots, hc, hm]
    simp only [Bool.false_and, Bool.false_eq_true, if_false, if_true, hpo, hty, ho, hin, Bool.not_true,
      Bool.or_false, hep, wildcardToNone_type h, facet_chunk key]

lemma spaces_source (h : key.Valid) :
    (if key.source.getD "**" ≠ "**" then some (key.source.getD "**") else none) = key.source := by
  cases hs : key.source with
  | none => rfl
  | some source =>
    rw [Option.getD_some, if_pos]
    rintro rfl
    exact (ordinary_star (h.source "**" hs "**" (by decide))).2 rfl

lemma parse_text (hv : key.validate = .ok ()) : Key.parse key.display = some key := by
  have h := validate_ok.mp hv
  have hs : key.spaces.length ≠ 0 := by
    rw [Ne, length_eq_zero_iff]
    exact segments_ne_nil _
  have hn : join key.spaces = key.source.getD "**" := join_segments _
  unfold Key.parse
  rw [segments_display h]
  simp only [findIdx_slots h, Option.bind_eq_bind, Option.bind_some, take_left', drop_left',
    parseSlots_slots h, if_neg hs, hn, spaces_source h]
  rw [if_neg (by simp)]
  change (if key.validate.isOk = true then some key else none) = some key
  rw [hv]
  rfl

theorem parse_display (key : Key) (hvalid : key.validate = .ok ()) :
    Key.parse key.display = some key ∧
      ∀ other : Key, other.validate = .ok () → other.display = key.display → other = key := by
  refine ⟨parse_text hvalid, ?_⟩
  intro other ho ht
  have hs := parse_text ho
  rw [ht, parse_text hvalid] at hs
  exact (Option.some.inj hs).symm

def schemaPattern : Key := ⟨"robot", none, none, none, some "@schema/*"⟩

theorem parse_display_schemas : schemaPattern.display = "reiny/v3/robot/**/@out/*/*/@schema/*" ∧
    Key.parse "reiny/v3/robot/**/@out/*/*/@schema/*" = some schemaPattern := by
  have ht : schemaPattern.display = "reiny/v3/robot/**/@out/*/*/@schema/*" := by decide +kernel
  exact ⟨ht, ht ▸ (parse_display schemaPattern (by decide +kernel)).1⟩

variable {text : String}

def Key.markers (text : String) : List String := (segments text).dropWhile fun part => !isVerbatim part

def Key.HidesDirection (text : String) : Prop :=
  ∃ ty facet, Key.markers text = "@in" :: "*" :: ty :: SCHEMA_CHUNK :: facet

lemma isOk_iff {x : Except String Unit} : x.isOk = true ↔ x = .ok () := by
  cases x with
  | ok u => exact ⟨fun _ => rfl, fun _ => rfl⟩
  | error e => exact ⟨nofun, nofun⟩

lemma parse_some (h : Key.parse text = some key) : ∃ spaces, spaces ≠ [] ∧ Key.markers text ≠ [] ∧
    segments text = KEY_ROOT :: "v3" :: key.domain :: (spaces ++ Key.markers text) ∧
    key.source.getD "**" = join spaces ∧ Key.parseSlots (Key.markers text) =
      some (key.endpoint, key.ty, key.chunk) ∧
    key.validate = .ok () := by
  unfold Key.parse at h
  split at h
  · rename_i root version domain tail ht
    split_ifs at h with hr
    simp only [not_or, not_not] at hr
    obtain ⟨rfl, rfl⟩ := hr
    obtain ⟨boundary, hb, h⟩ := Option.bind_eq_some_iff.mp h
    split_ifs at h with hz
    obtain ⟨⟨endpoint, ty, chunk⟩, hsl, h⟩ := Option.bind_eq_some_iff.mp h
    obtain ⟨hv, h⟩ := Option.ite_none_right_eq_some.mp h
    cases h
    have hok := isOk_iff.mp hv
    obtain ⟨hlt, hf⟩ := findIdx?_eq_some_iff_findIdx_eq.mp hb
    have hm : Key.markers text = tail.drop boundary := by
      have hd := ordinary_verbatim (validate_ok.mp hok).domain
      have hr : isVerbatim KEY_ROOT = false := by decide
      have hve : isVerbatim "v3" = false := by decide
      have hverb : (fun part => !!isVerbatim part) = isVerbatim := funext fun _ => Bool.not_not _
      rw [Key.markers, ht, dropWhile_cons_of_pos (by rw [hr]; rfl),
        dropWhile_cons_of_pos (by rw [hve]; rfl), dropWhile_cons_of_pos (by rw [hd]; rfl),
        dropWhile_eq_drop_findIdx_not, hverb, hf]
    rw [hm]
    refine ⟨tail.take boundary, ?_, ?_, by rw [take_append_drop]; exact ht, ?_, hsl, hok⟩
    · simp [hz, ne_nil_of_length_pos (Nat.zero_lt_of_lt hlt)]
    · simpa using hlt
    · dsimp only
      split_ifs with hn
      · rfl
      · exact (not_not.mp hn).symm
  · cases h

lemma parseSlots_some {slots : List String} {endpoint : Option EndpointSlot} {ty chunk : Option String}
    (h : Key.parseSlots slots = some (endpoint, ty, chunk)) :
    (∃ control, isControl control = true ∧ slots = [control] ∧ endpoint = none ∧ ty = some control ∧ chunk = none) ∨
    ∃ marker port type facet, slots = marker :: port :: type :: facet ∧ (marker = "@out" ∨ marker = "@in") ∧
      (type = "*" ∨ ordinarySegment type = true) ∧ (marker = "@out" → facet.head? ≠ some SUB_CHUNK) ∧
      (marker = "@in" → facet.head? = some SUB_CHUNK ∨ facet.head? = some SCHEMA_CHUNK) ∧
      endpoint = (if port = "*" then none
        else if marker = "@out" then some (.output port) else some (.input port)) ∧
      ty = Key.wildcardToNone type ∧ chunk = (if facet = [] then none else some (join facet)) := by
  unfold Key.parseSlots at h
  split at h
  · cases h
  · rename_i marker rest
    split at h
    · rename_i hc
      cases h
      rw [Bool.and_eq_true, List.isEmpty_iff] at hc
      exact .inl ⟨marker, hc.1, by rw [hc.2], rfl, rfl, rfl⟩
    · split at h
      · rename_i hm
        split at h
        · rename_i port type facet _
          split at h
          · cases h
          · rename_i hsl
            split at h
            · cases h
            · rename_i hf
              simp only [Bool.or_eq_true, Bool.and_eq_true, beq_iff_eq, not_or, not_and, Bool.not_eq_true',
                Bool.not_eq_false] at hm hsl hf
              simp only [Option.some.injEq, Prod.mk.injEq, beq_iff_eq, List.isEmpty_iff] at h
              obtain ⟨rfl, rfl, rfl⟩ := h
              exact .inr ⟨marker, port, type, facet, rfl, hm, hsl.1.2, hsl.2, hf, rfl, rfl, rfl⟩
        · cases h
      · cases h

variable {marker port type : String} {facet : List String}

lemma facet_sub (h : (if facet = [] then none else some (join facet)) = some SUB_CHUNK) :
    facet.head? = some SUB_CHUNK := by
  cases facet with
  | nil => cases h
  | cons first rest =>
    rw [if_neg (by simp), Option.some.injEq] at h
    cases rest with
    | nil => simpa [join] using h
    | cons next rest =>
      rw [join_cons first (by simp)] at h
      have hs : '/' ∈ SUB_CHUNK.toList := by
        rw [← h]
        simp
      exact absurd hs (by decide)

lemma sub_facet {rest : List String} (hv : key.Valid) (hch : key.chunk = some (join (SUB_CHUNK :: rest))) :
    key.chunk = some SUB_CHUNK := by
  rw [hch]
  cases rest with
  | nil => simp [join]
  | cons next rest =>
    rw [join_cons _ (by simp)] at hch
    rcases hv.chunk _ hch with h | h | ⟨name, h, -⟩
    all_goals
      have hc := congrArg String.toList h
      simp [SUB_CHUNK, SERVICE_CHUNK] at hc

lemma direction_marker_iff (hv : key.Valid) (hm : marker = "@out" ∨ marker = "@in")
    (ho : marker = "@out" → facet.head? ≠ some SUB_CHUNK)
    (hin : marker = "@in" → facet.head? = some SUB_CHUNK ∨ facet.head? = some SCHEMA_CHUNK)
    (hep : key.endpoint = (if port = "*" then none
      else if marker = "@out" then some (.output port) else some (.input port)))
    (hch : key.chunk = (if facet = [] then none else some (join facet))) :
    key.direction = marker ↔ ¬ (marker = "@in" ∧ port = "*" ∧ facet.head? = some SCHEMA_CHUNK) := by
  have hs : key.chunk = some SUB_CHUNK → facet.head? = some SUB_CHUNK := fun h => facet_sub (hch ▸ h)
  rcases hm with rfl | rfl
  · have hinput : key.isInput = false := by
      rw [Key.isInput, hep, if_pos rfl]
      split_ifs <;> rfl
    rw [Key.direction, hinput, if_neg Bool.false_ne_true, if_neg fun h => ho rfl (hs h)]
    simp
  · by_cases hp : port = "*"
    · have hinput : key.isInput = false := by rw [Key.isInput, hep, if_pos hp]
      rw [Key.direction, hinput, if_neg Bool.false_ne_true]
      rcases hin rfl with hh | hh
      · obtain ⟨rest, rfl⟩ := head?_eq_some_iff.mp hh
        rw [if_pos (sub_facet hv (hch.trans (if_neg (by simp))))]
        simp [SUB_CHUNK, SCHEMA_CHUNK]
      · rw [if_neg]
        · simp [hp, hh]
        · intro h
          rw [hs h] at hh
          exact absurd hh (by decide)
    · have hinput : key.isInput = true := by rw [Key.isInput, hep, if_neg hp, if_neg (by decide)]
      rw [Key.direction, hinput, if_pos rfl]
      simp [hp]

lemma display_slots (ht : type = "*" ∨ ordinarySegment type = true)
    (hep : key.endpoint = (if port = "*" then none
      else if marker = "@out" then some (.output port) else some (.input port)))
    (hty : key.ty = Key.wildcardToNone type) (hch : key.chunk = (if facet = [] then none else some (join facet))) :
    key.displaySlots ++ Key.displayChunk key.chunk = join (key.direction :: port :: type :: facet) := by
  have hp : key.port.getD "*" = port := by
    rw [Key.port, hep]
    split_ifs with h <;> simp [h]
  have hn : key.ty.getD "*" = type := by
    rw [hty, Key.wildcardToNone]
    split_ifs with h
    · rfl
    · exact (not_not.mp h).symm
  have hpl : key.isVerbatimType = false := by
    rw [Key.isVerbatimType, hty, Key.wildcardToNone]
    split_ifs with h
    · exact ordinary_verbatim (ht.resolve_left h)
    · rfl
  rw [Key.displaySlots, hpl, if_neg Bool.false_ne_true, hp, hn, hch, join_cons _ (by simp),
    join_cons _ (by simp)]
  cases facet with
  | nil => simp [Key.displayChunk, join, String.append_assoc]
  | cons first rest =>
    rw [if_neg (by simp), join_cons type (by simp), Key.displayChunk]
    simp only [String.append_assoc]

lemma display_markers (h : Key.parse text = some key) :
    key.display = text ↔ key.displaySlots ++ Key.displayChunk key.chunk = join (Key.markers text) := by
  obtain ⟨spaces, hs, hm, ht, hsrc, -⟩ := parse_some h
  have hb := join_segments text
  rw [ht, join_cons _ (by simp), join_cons _ (by simp), join_cons _ (by simp [hs]),
    join_append hs hm] at hb
  generalize Key.markers text = slots at hb ⊢
  rw [← hb, Key.display, hsrc]
  simp only [← String.toList_inj, String.toList_append, append_assoc]
  simp

theorem parse_canonical (h : Key.parse text = some key) :
    (key.display = text ↔ ¬ Key.HidesDirection text) ∧
      (Key.HidesDirection text → ∃ other, other ≠ text ∧ Key.parse other = some key) := by
  have hiff : key.display = text ↔ ¬ Key.HidesDirection text := by
    obtain ⟨spaces, -, -, -, -, hsl, hok⟩ := parse_some h
    have hv := validate_ok.mp hok
    rw [display_markers h, Key.HidesDirection]
    rcases parseSlots_some hsl with ⟨control, hc, hm, -, hty, hch⟩ |
      ⟨marker, port, type, facet, hm, hma, ht, ho, hin, hep, hty, hch⟩
    · have hve : key.isVerbatimType = true := by
        rw [Key.isVerbatimType, hty]
        exact control_verbatim hc
      rw [hm, hch, Key.displaySlots, if_pos hve, hty]
      simp [Key.displayChunk, join]
    · have hd := direction_marker_iff hv hma ho hin hep hch
      rw [display_slots ht hep hty hch, hm, join_cons _ (by simp), join_cons marker (by simp),
        String.append_left_inj, String.append_left_inj, hd, not_iff_not, head?_eq_some_iff]
      constructor
      · rintro ⟨rfl, rfl, rest, rfl⟩
        exact ⟨type, rest, rfl⟩
      · rintro ⟨type, rest, hs⟩
        simp only [List.cons.injEq] at hs
        exact ⟨hs.1, hs.2.1, rest, hs.2.2.2⟩
  refine ⟨hiff, fun hh => ⟨key.display, fun hs => hiff.mp hs hh, ?_⟩⟩
  obtain ⟨-, -, -, -, -, -, hok⟩ := parse_some h
  exact parse_text hok

def armSchema : Key := ⟨"robot", some "arm", none, some "Pose", some "@schema/Pose"⟩

theorem parse_canonical_arm : Key.parse "reiny/v3/robot/arm/@out/*/Pose/@schema/Pose" = some armSchema ∧
    (armSchema.display = "reiny/v3/robot/arm/@out/*/Pose/@schema/Pose" ↔
      ¬ Key.HidesDirection "reiny/v3/robot/arm/@out/*/Pose/@schema/Pose") := by
  have hp : Key.parse "reiny/v3/robot/arm/@out/*/Pose/@schema/Pose" = some armSchema := by decide +kernel
  exact ⟨hp, (parse_canonical hp).1⟩

theorem parse_receivers : Key.parse "reiny/v3/robot/arm/@in/*/Pose/@schema/Pose" = some armSchema ∧
    armSchema.display = "reiny/v3/robot/arm/@out/*/Pose/@schema/Pose" ∧
    Key.parse "reiny/v3/robot/arm/@out/*/Pose/@schema/Pose" = some armSchema := by
  decide +kernel

end Reiny.Engine
