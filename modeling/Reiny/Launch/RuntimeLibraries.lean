import Reiny.Lib.Worklist

namespace Reiny.Launch.RuntimeLibraries

open Std Lib Results Worklist List ExtTreeMap

abbrev Files := ExtTreeMap String String

abbrev Found := List (String × String)

/-- A call with what it finds on disk: the last component of a path, names without their case, the contents of files, the
imports of each file that is an image, and the files of the `deps` directory. -/
structure Call where
  executable : String
  imports : List String
  files : Files
  fileName : String → Option String
  folded : String → String
  read : String → Option (List UInt8)
  peImports : String → Option (Option (List String))
  deps : Option Found

inductive LibraryError
  | listing
  | image (source : String)
  | unread (source : String)
  | conflicting (name : String)
  | filename (source : String)
deriving DecidableEq

namespace Call

variable (c : Call)

def entries : Found := c.files.toList ++ c.deps.getD []

def candidates (name : String) : List String := (c.entries.filter fun e => c.folded e.1 = name).map Prod.snd

def same (name source other : String) : Except LibraryError Unit :=
  if source = other then .ok ()
  else do
    let content ← ofOption (c.read source) (.unread source)
    let content' ← ofOption (c.read other) (.unread other)
    ensure (content = content') (.conflicting name)

def supply (name : String) : Except LibraryError (Option (String × String)) :=
  match c.candidates name with
  | [] => .ok none
  | source :: others => do
    others.forM (c.same name source)
    let filename ← ofOption (c.fileName source) (.filename source)
    return some (filename, source)

def importsOf (source : String) : Except LibraryError (List String) :=
  if source = c.executable then .ok c.imports
  else (ofOption (c.peImports source) (.image source)).map (·.getD [])

def expand (source : String) : Except LibraryError (Found × List String) := do
  let names ← c.importsOf source
  let libraries ← names.mapM c.supply
  return (libraries.filterMap id,
    (if source = c.executable then c.files.toList.map Prod.snd else []) ++ (libraries.filterMap id).map Prod.snd)

def images : List String := (c.executable :: c.entries.map Prod.snd).dedup

def weight (source : String) : ℕ := (c.expand source).toOption.elim 0 (·.2.length)

def fuel : ℕ := 1 + outstanding c.weight c.images (∅ : ExtTreeMap String Found)

/-- The images that are parsed, in order, and the files. The loop begins with the names that the executable needs, as if
it had just been taken from the stack. -/
def collectPeDependencies : List String × Except LibraryError (Option Files) :=
  if c.deps.isNone then ([], .error .listing)
  else
    let (order, result) := trace c.expand c.fuel [c.executable] ∅
    (order.tail,
      result.map (·.map fun found => c.files.insertMany (order.flatMap fun source => found[source]?.getD [])))

inductive Reached : String → Prop
  | executable : Reached c.executable
  | initial {f p : String} (h : c.files[f]? = some p) : Reached p
  | library {p q name : String} {names : List String} (hq : Reached q) (hi : c.importsOf q = .ok names)
      (hn : name ∈ names) (hp : (c.candidates name).head? = some p) : Reached p

def Needed (name : String) : Prop := ∃ q names, c.Reached q ∧ c.importsOf q = .ok names ∧ name ∈ names

def Supplies (name f p : String) : Prop := (c.candidates name).head? = some p ∧ c.fileName p = some f

def Named (name : String) : Prop := ∀ p, (c.candidates name).head? = some p → ∃ f, c.fileName p = some f

def Conflict (name : String) : Prop := ∃ source ∈ c.candidates name, ∃ other ∈ c.candidates name,
  source ≠ other ∧ (c.read source = none ∨ c.read source ≠ c.read other)

structure OwnNames : Prop where
  initial : ∀ f p, c.files[f]? = some p → c.fileName p = some f
  listed : ∀ e ∈ c.deps.getD [], c.fileName e.2 = some e.1

end Call

variable {c : Call} {name f p q source other : String} {r : Option (String × String)} {names refs : List String}
  {v : Found} {found : ExtTreeMap String Found} {order : List String} {fuel : ℕ}

lemma supply_ok (h : c.supply name = .ok r) : (∀ f p, r = some (f, p) ↔ c.Supplies name f p) ∧ c.Named name := by
  rw [Call.supply] at h
  rw [Call.Named]
  unfold Call.Supplies
  cases hc : c.candidates name with
  | nil =>
    rw [hc] at h
    cases h
    simp
  | cons source others =>
    rw [hc] at h
    obtain ⟨_, -, h⟩ := bind_ok.mp h
    obtain ⟨g, hg, h⟩ := bind_ok.mp h
    cases pure_ok.mp h
    rw [ofOption_ok] at hg
    simp only [Option.some.injEq, Prod.mk.injEq, List.head?_cons]
    refine ⟨fun f p => ⟨?_, ?_⟩, ?_⟩
    · rintro ⟨rfl, rfl⟩
      exact ⟨rfl, hg⟩
    · rintro ⟨rfl, hf⟩
      rw [hg] at hf
      exact ⟨Option.some.inj hf, rfl⟩
    · rintro p rfl
      exact ⟨g, hg⟩

structure Expands (c : Call) (source : String) (v : Found) (refs names : List String) : Prop where
  imports : c.importsOf source = .ok names
  found : ∀ f p, (f, p) ∈ v ↔ ∃ name ∈ names, c.Supplies name f p
  named : ∀ name ∈ names, c.Named name
  refs : refs = (if source = c.executable then c.files.toList.map Prod.snd else []) ++ v.map Prod.snd

lemma expand_ok (h : c.expand source = .ok (v, refs)) : ∃ names, Expands c source v refs names := by
  obtain ⟨names, hi, h⟩ := bind_ok.mp h
  obtain ⟨libraries, hl, h⟩ := bind_ok.mp h
  cases pure_ok.mp h
  refine ⟨names, hi, fun f p => ?_, fun name hn => ?_, rfl⟩
  · have hm : (f, p) ∈ libraries.filterMap id ↔ some (f, p) ∈ libraries := by simp
    rw [hm, mapM_mem hl]
    refine exists_congr fun name => and_congr_right fun hn => ?_
    obtain ⟨r, hr⟩ := mapM_each hl hn
    rw [hr, Except.ok.injEq, (supply_ok hr).1]
  · obtain ⟨r, hr⟩ := mapM_each hl hn
    exact (supply_ok hr).2

lemma mem_candidates : p ∈ c.candidates name ↔ ∃ g, (g, p) ∈ c.entries ∧ c.folded g = name := by
  simp [Call.candidates]

lemma mem_images (h : c.Reached p) : p ∈ c.images := by
  rw [Call.images, List.mem_dedup, mem_cons]
  cases h with
  | executable => exact .inl rfl
  | initial h =>
    exact .inr (mem_map_of_mem (mem_append_left _ (mem_toList_iff_getElem?_eq_some.mpr h)))
  | library hq hi hn hp =>
    obtain ⟨g, hg, -⟩ := mem_candidates.mp (mem_of_mem_head? hp)
    exact .inr (mem_map_of_mem hg)

lemma expand_reached (hq : c.Reached q) (h : c.expand q = .ok (v, refs)) (hp : p ∈ refs) : c.Reached p := by
  obtain ⟨names, hx⟩ := expand_ok h
  rw [hx.refs, mem_append] at hp
  rcases hp with hp | hp
  · split_ifs at hp
    · obtain ⟨⟨f, p⟩, hm, rfl⟩ := mem_map.mp hp
      exact .initial (mem_toList_iff_getElem?_eq_some.mp hm)
    · cases hp
  · obtain ⟨⟨f, p⟩, hm, rfl⟩ := mem_map.mp hp
    obtain ⟨name, hn, hs⟩ := (hx.found f p).mp hm
    exact .library hq hx.imports hn hs.1

lemma reach_reached (h : Reach c.expand c.executable p) : c.Reached p := by
  induction h with
  | root => exact .executable
  | step _ he hj ih => exact expand_reached ih he hj

lemma collect_terminates : close c.expand c.fuel [c.executable] ∅ ≠ .ok none := by
  refine close_bounded (P := c.Reached) (List.nodup_dedup _) ?_ ?_ le_rfl
  · intro p hp
    rw [mem_singleton.mp hp]
    exact .executable
  · intro p hp v refs h
    refine ⟨mem_images hp, ?_, fun j hj => expand_reached hp h hj⟩
    rw [Call.weight, h]
    rfl

lemma reached_reach (h : close c.expand fuel [c.executable] ∅ = .ok (some found)) (hp : c.Reached p) :
    Reach c.expand c.executable p := by
  induction hp with
  | executable => exact .root
  | initial hf =>
    obtain ⟨v, refs, he, -⟩ := close_expands h .root
    obtain ⟨names, hx⟩ := expand_ok he
    refine .step .root he ?_
    rw [hx.refs, if_pos rfl]
    exact mem_append_left _ (mem_map_of_mem (mem_toList_iff_getElem?_eq_some.mpr hf))
  | @library p q name names hq hi hn hp ih =>
    obtain ⟨v, refs, he, -⟩ := close_expands h ih
    obtain ⟨names', hx⟩ := expand_ok he
    cases hi.symm.trans hx.imports
    obtain ⟨f, hf⟩ := hx.named name hn p hp
    refine .step ih he ?_
    rw [hx.refs]
    exact mem_append_right _ (mem_map_of_mem ((hx.found f p).mpr ⟨name, hn, hp, hf⟩))

lemma inserted_iff (h : trace c.expand fuel [c.executable] ∅ = (order, .ok (some found))) :
    (f, p) ∈ (order.flatMap fun source => found[source]?.getD []) ↔ ∃ name, c.Needed name ∧
      c.Supplies name f p := by
  have hc : close c.expand fuel [c.executable] ∅ = .ok (some found) := by rw [← trace_close, h]
  rw [mem_flatMap]
  constructor
  · rintro ⟨q, -, hm⟩
    cases hq : found[q]? with
    | none =>
      rw [hq] at hm
      cases hm
    | some v =>
      rw [hq] at hm
      obtain ⟨hre, refs, he⟩ := (close_ok hc).mp hq
      obtain ⟨names, hx⟩ := expand_ok he
      obtain ⟨name, hn, hs⟩ := (hx.found f p).mp hm
      exact ⟨name, ⟨q, names, reach_reached hre, hx.imports, hn⟩, hs⟩
  · rintro ⟨name, ⟨q, names, hq, hi, hn⟩, hs⟩
    obtain ⟨v, refs, he, hv⟩ := close_expands hc (reached_reach hc hq)
    obtain ⟨names', hx⟩ := expand_ok he
    cases hi.symm.trans hx.imports
    refine ⟨q, ?_, ?_⟩
    · have hr := trace_records (by rw [h]) q
      rw [h] at hr
      exact (hr.mp (Maps.mem_of_some hv)).resolve_left not_mem_empty
    · rw [hv]
      exact (hx.found f p).mpr ⟨name, hn, hs⟩

lemma supplies_entry (ho : c.OwnNames) (h : c.Supplies name f p) : (f, p) ∈ c.entries ∧ c.folded f = name := by
  obtain ⟨g, hg, rfl⟩ := mem_candidates.mp (mem_of_mem_head? h.1)
  have hn : c.fileName p = some g := by
    rcases mem_append.mp hg with hm | hm
    · exact ho.initial g p (mem_toList_iff_getElem?_eq_some.mp hm)
    · exact ho.listed _ hm
  rw [h.2] at hn
  cases hn
  exact ⟨hg, rfl⟩

lemma supplies_initial (ho : c.OwnNames) (h : c.Supplies name f p) (hq : c.files[f]? = some q) : p = q := by
  obtain ⟨-, rfl⟩ := supplies_entry ho h
  have hne : (c.files.toList.filter fun e => c.folded e.1 = c.folded f) ≠ [] :=
    ne_nil_of_mem (mem_filter.mpr ⟨mem_toList_iff_getElem?_eq_some.mpr hq, by simp⟩)
  have hh := h.1
  rw [Call.candidates, Call.entries, filter_append, map_append, List.head?_append_of_ne_nil _ (by simpa using hne)]
    at hh
  obtain ⟨⟨g, p'⟩, hm, rfl⟩ := mem_map.mp (mem_of_mem_head? hh)
  have hg := mem_toList_iff_getElem?_eq_some.mp (mem_filter.mp hm).1
  have hn := ho.initial g _ hg
  rw [h.2] at hn
  cases hn
  rw [hq] at hg
  exact (Option.some.inj hg).symm

lemma supply_total (hc : ¬ c.Conflict name) (hf : c.Named name) : ∃ r, c.supply name = .ok r := by
  rw [Call.Conflict] at hc
  rw [Call.Named] at hf
  rw [Call.supply]
  cases hca : c.candidates name with
  | nil => exact ⟨none, rfl⟩
  | cons source others =>
    rw [hca] at hc hf
    obtain ⟨f, hf⟩ := hf source rfl
    refine ⟨some (f, source), bind_ok.mpr ⟨(), forM_ok.mpr fun other ho => ?_, ?_⟩⟩
    · rw [Call.same]
      split_ifs with heq
      · rfl
      · have hr : c.read source ≠ none ∧ c.read source = c.read other := by
          by_contra hne
          refine hc ⟨source, mem_cons_self, other, mem_cons_of_mem _ ho, heq, ?_⟩
          rwa [not_and_or, not_not] at hne
        obtain ⟨content, hco⟩ := Option.ne_none_iff_exists'.mp hr.1
        rw [← hr.2, hco]
        exact ensure_ok.mpr rfl
    · rw [hf]
      rfl

lemma expand_total (hi : c.importsOf q = .ok names) (hn : ∀ name ∈ names, ¬ c.Conflict name ∧ c.Named name) :
    ∃ x, c.expand q = .ok x := by
  obtain ⟨libraries, hl⟩ := mapM_total fun name h => supply_total (hn name h).1 (hn name h).2
  exact ⟨_, bind_ok.mpr ⟨names, hi, bind_ok.mpr ⟨libraries, hl, rfl⟩⟩⟩

lemma collect_total (hi : ∀ p, c.Reached p → ∃ names, c.importsOf p = .ok names) 
    (hn : ∀ name, c.Needed name → ¬ c.Conflict name ∧ c.Named name) :
    ∃ found, close c.expand c.fuel [c.executable] ∅ = .ok (some found) := by
  match hc : close c.expand c.fuel [c.executable] ∅ with
  | .ok (some found) => exact ⟨found, rfl⟩
  | .ok none => exact absurd hc collect_terminates
  | .error e =>
    obtain ⟨q, hq, he⟩ := close_error (P := c.Reached) (List.forall_mem_singleton.mpr .executable)
      (fun k hk v refs h j hj => expand_reached hk h hj) hc
    obtain ⟨names, hna⟩ := hi q hq
    obtain ⟨x, hx⟩ := expand_total hna fun name h => hn name ⟨q, names, hq, hna, h⟩
    rw [hx] at he
    cases he

lemma order_head : ∃ later, (trace c.expand c.fuel [c.executable] ∅).1 = c.executable :: later := by
  rw [Call.fuel, Nat.add_comm, trace, if_neg not_mem_empty]
  cases c.expand c.executable with
  | error e => exact ⟨[], rfl⟩
  | ok x => exact ⟨_, rfl⟩

def Call.elsewhere (c : Call) (read : String → Option (List UInt8))
    (peImports : String → Option (Option (List String))) :
    Call :=
  { c with read := read, peImports := peImports }

variable {read : String → Option (List UInt8)} {peImports : String → Option (Option (List String))}

lemma supply_elsewhere (h : ∀ p ∈ c.candidates name, read p = c.read p) :
    (c.elsewhere read peImports).supply name = c.supply name := by
  rw [Call.supply, Call.supply]
  have hca : (c.elsewhere read peImports).candidates name = c.candidates name := rfl
  rw [hca]
  cases hc : c.candidates name with
  | nil => rfl
  | cons source others =>
    rw [hc, forall_mem_cons] at h
    have hs : others.forM ((c.elsewhere read peImports).same name source) = others.forM (c.same name source) :=
      forM_congr fun other ho => by
        simp only [Call.same, Call.elsewhere, h.1, h.2 other ho]
    dsimp only
    rw [hs]
    rfl

lemma expand_elsewhere (hi : peImports q = c.peImports q) (hr : ∀ names, c.importsOf q = .ok names → ∀ name ∈ names,
      ∀ p ∈ c.candidates name, read p = c.read p) : (c.elsewhere read peImports).expand q = c.expand q := by
  have himp : (c.elsewhere read peImports).importsOf q = c.importsOf q := by
    simp only [Call.importsOf, Call.elsewhere, hi]
  rw [Call.expand, Call.expand, himp]
  cases hna : c.importsOf q with
  | error e => rfl
  | ok names =>
    have hm : names.mapM (c.elsewhere read peImports).supply = names.mapM c.supply :=
      mapM_congr fun name hn => supply_elsewhere (hr names hna name hn)
    change (names.mapM (c.elsewhere read peImports).supply >>= _) = _
    rw [hm]
    rfl

lemma collect_elsewhere (hi : ∀ p, c.Reached p → peImports p = c.peImports p)
    (hr : ∀ name, c.Needed name → ∀ p ∈ c.candidates name, read p = c.read p) :
    (c.elsewhere read peImports).collectPeDependencies = c.collectPeDependencies := by
  have ht : trace (c.elsewhere read peImports).expand (c.elsewhere read peImports).fuel [c.executable] ∅ =
      trace c.expand c.fuel [c.executable] ∅ := by
    refine trace_congr (fun q hq => ?_) collect_terminates (@collect_terminates (c.elsewhere read peImports))
    have hq := reach_reached hq
    exact expand_elsewhere (hi q hq) fun names hna name hn => hr name ⟨q, names, hq, hna, hn⟩
  simp only [Call.collectPeDependencies]
  rw [← ht]
  rfl

lemma collect_cases : c.deps = none ∧ c.collectPeDependencies = ([], .error .listing) ∨
    c.deps.isSome ∧ ∃ order result, trace c.expand c.fuel [c.executable] ∅ = (c.executable :: order, result) ∧
      c.collectPeDependencies = (order, result.map (·.map fun found =>
        c.files.insertMany ((c.executable :: order).flatMap fun source => found[source]?.getD []))) := by
  rw [Call.collectPeDependencies]
  cases hd : c.deps with
  | none => exact .inl ⟨rfl, rfl⟩
  | some deps =>
    obtain ⟨order, ho⟩ := @order_head c
    have ht : trace c.expand c.fuel [c.executable] ∅ = (c.executable :: order, _) := Prod.ext ho rfl
    refine .inr ⟨rfl, order, _, ht, ?_⟩
    rw [if_neg (by simp), ht]
    rfl

lemma files_iff (h : trace c.expand fuel [c.executable] ∅ = (order, .ok (some found))) (ho : c.OwnNames) :
    (c.files.insertMany (order.flatMap fun source => found[source]?.getD []))[f]? = some p ↔
      c.files[f]? = some p ∨ ∃ name, c.Needed name ∧ c.Supplies name f p := by
  have hf : Maps.Functional (order.flatMap fun source => found[source]?.getD []) := by
    intro f p q hp hq
    obtain ⟨name, -, hp⟩ := (inserted_iff h).mp hp
    obtain ⟨name', -, hq⟩ := (inserted_iff h).mp hq
    obtain ⟨-, rfl⟩ := supplies_entry ho hp
    obtain ⟨-, rfl⟩ := supplies_entry ho hq
    exact Option.some.inj (hp.1.symm.trans hq.1)
  rw [← inserted_iff h]
  by_cases hm : ∃ q, (f, q) ∈ order.flatMap fun source => found[source]?.getD []
  · obtain ⟨q, hq⟩ := hm
    rw [Maps.insertMany_of_mem hf hq, Option.some.injEq]
    constructor
    · rintro rfl
      exact .inr hq
    · rintro (hp | hp)
      · obtain ⟨name, -, hs⟩ := (inserted_iff h).mp hq
        exact supplies_initial ho hs hp
      · exact hf f q p hq hp
  · rw [Maps.insertMany_of_not_mem (not_exists.mp hm)]
    exact ⟨Or.inl, fun h => h.resolve_right fun hp => hm ⟨p, hp⟩⟩

/-- No image is parsed twice, and the call fails only over what is reached or needed. -/
theorem collect_closure (c : Call) :
    c.collectPeDependencies.2 ≠ .ok none ∧
    (∀ files, c.collectPeDependencies.2 = .ok (some files) → c.OwnNames → ∀ f p, files[f]? = some p ↔
      c.files[f]? = some p ∨ ∃ name, c.Needed name ∧ c.Supplies name f p) ∧
    c.collectPeDependencies.1.Nodup ∧ (∀ p ∈ c.collectPeDependencies.1, p ≠ c.executable ∧ c.Reached p) ∧
    (∀ read peImports, (∀ p, c.Reached p → peImports p = c.peImports p) →
      (∀ name, c.Needed name → ∀ p ∈ c.candidates name, read p = c.read p) →
      (c.elsewhere read peImports).collectPeDependencies = c.collectPeDependencies) ∧
    (c.deps.isSome → (∀ p, c.Reached p → ∃ names, c.importsOf p = .ok names) → 
      (∀ name, c.Needed name → ¬ c.Conflict name ∧ c.Named name) → ∃ files, c.collectPeDependencies.2 =
        .ok (some files)) := by
  rcases @collect_cases c with ⟨hd, hcol⟩ | ⟨hd, order, result, ht, hcol⟩
  · rw [hcol, hd]
    exact ⟨nofun, nofun, nodup_nil, nofun, fun read peImports hi hr => (collect_elsewhere hi hr).trans hcol, nofun⟩
  · have hc : close c.expand c.fuel [c.executable] ∅ = result := by rw [← trace_close, ht]
    have hnd : (trace c.expand c.fuel [c.executable] ∅).1.Nodup := trace_nodup.2
    have hre : ∀ p ∈ (trace c.expand c.fuel [c.executable] ∅).1, Reach c.expand c.executable p :=
      trace_reach open_start
    rw [ht] at hnd hre
    refine ⟨?_, ?_, ?_, ?_, ?_, ?_⟩
    · rw [hcol]
      match result with
      | .ok none => exact absurd hc collect_terminates
      | .ok (some found) => exact nofun
      | .error e => exact nofun
    · intro files h ho f p
      rw [hcol] at h
      match result with
      | .ok none => cases h
      | .ok (some found) =>
        cases h
        exact files_iff ht ho
      | .error e => cases h
    · rw [hcol]
      exact (nodup_cons.mp hnd).2
    · rw [hcol]
      intro p hp
      refine ⟨?_, reach_reached (hre p (mem_cons_of_mem _ hp))⟩
      rintro rfl
      exact (nodup_cons.mp hnd).1 hp
    · exact fun read peImports => collect_elsewhere
    · intro _ hi hn
      obtain ⟨found, hf⟩ := collect_total hi hn
      rw [hc] at hf
      rw [hcol, hf]
      exact ⟨_, rfl⟩

-- A directory that cannot be listed, and a library that takes the name of an initial file.
def misplaced : Call where
  executable := "app.exe"
  imports := ["foo.dll"]
  files := ((∅ : Files).insert "foo.dll" "p/bar.dll").insert "bar.dll" "q/bar.dll"
  fileName := fun p => if p = "p/bar.dll" ∨ p = "q/bar.dll" then some "bar.dll" else none
  folded := id
  read := fun _ => none
  peImports := fun _ => some none
  deps := some []

theorem collect_closure_misplaced :
    { misplaced with deps := none }.collectPeDependencies.2 = .error .listing ∧ misplaced.files["bar.dll"]? =
      some "q/bar.dll" ∧
    (misplaced.collectPeDependencies.2.toOption.join.bind (·["bar.dll"]?)) = some "p/bar.dll" := by
  decide +kernel

def cyclic : Call where
  executable := "app.exe"
  imports := ["a.dll"]
  files := ∅
  fileName := some
  folded := id
  read := fun _ => none
  peImports := fun p => if p = "a.dll" then some (some ["b.dll"])
    else if p = "b.dll" then some (some ["a.dll"]) else none
  deps := some [("a.dll", "a.dll"), ("b.dll", "b.dll"), ("c.dll", "c.dll")]

theorem collect_closure_cyclic :
    ∃ files, cyclic.collectPeDependencies.2 = .ok (some files) ∧ ∀ f p, files[f]? = some p ↔
    cyclic.files[f]? = some p ∨ ∃ name, cyclic.Needed name ∧ cyclic.Supplies name f p := by
  have h : cyclic.collectPeDependencies.2.toOption.join.isSome := by decide +kernel
  obtain ⟨files, h⟩ := Option.isSome_iff_exists.mp h
  rw [Option.join_eq_some_iff, toOption_some] at h
  exact ⟨files, h, (collect_closure cyclic).2.1 files h ⟨nofun, by decide⟩⟩

end Reiny.Launch.RuntimeLibraries
