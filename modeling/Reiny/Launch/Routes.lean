import Reiny.Launch.Loader

namespace Reiny.Launch

open Std Lib Results Maps Relation Step Bindings ExtTreeMap

namespace Wiring

variable (w : Wiring)

def sources (a : PortAddress) : List PortAddress := w.edges[a]?.getD []

def Forwards (a b : PortAddress) : Prop := a ∉ w.terminals ∧ b ∈ w.sources a

inductive IsPath : PortAddress → List PortAddress → Prop
  | terminal {a : PortAddress} (h : a ∈ w.terminals) : IsPath a [a]
  | forward {a b : PortAddress} {path : List PortAddress} (h : w.Forwards a b) (hpath : IsPath b path) :
      IsPath a (a :: path)

def paths : ℕ → PortAddress → List (List PortAddress)
  | 0, _ => []
  | n + 1, a => if a ∈ w.terminals then [[a]] else ((w.sources a).flatMap (paths n)).map (a :: ·)

def routeOf (path : List PortAddress) : Option ResolvedRoute := do
  let source ← path.getLast?
  let contract ← w.terminals[source]?
  return ⟨source, path.tail.dropLast, contract⟩

def Grounded (a : PortAddress) : Prop :=
  ∀ b, ReflTransGen w.Forwards a b → ¬ TransGen w.Forwards b b ∧ (b ∉ w.terminals → b ∈ w.edges)

def Settled : ℕ → PortAddress → Prop
  | 0, _ => False
  | n + 1, a => a ∈ w.terminals ∨ a ∈ w.edges ∧ ∀ b ∈ w.sources a, Settled n b

end Wiring

section Paths

variable {w : Wiring} {a b : PortAddress} {n m : ℕ} {path : List PortAddress}

section

variable (h : w.Settled n a)

include h

lemma settled_mono (hle : n ≤ m) : w.Settled m a ∧ w.paths m a = w.paths n a := by
  induction n generalizing a m with
  | zero => exact h.elim
  | succ n ih =>
    obtain ⟨m, rfl⟩ := Nat.exists_eq_succ_of_ne_zero (Nat.ne_zero_of_lt hle)
    rcases h with ht | ⟨he, ha⟩
    · exact ⟨Or.inl ht, by rw [Wiring.paths, Wiring.paths, if_pos ht, if_pos ht]⟩
    · have hbe : ∀ b ∈ w.sources a, w.Settled m b ∧ w.paths m b = w.paths n b :=
        fun b hb => ih (ha b hb) (Nat.le_of_succ_le_succ hle)
      refine ⟨Or.inr ⟨he, fun b hb => (hbe b hb).1⟩, ?_⟩
      rw [Wiring.paths, Wiring.paths, List.flatMap_congr fun b hb => (hbe b hb).2]

lemma settled_below (hr : TransGen w.Forwards a b) : ∃ m < n, w.Settled m b := by
  have hs {n : ℕ} {a b : PortAddress} (h : w.Settled n a) (hf : w.Forwards a b) : ∃ m < n, w.Settled m b := by
    cases n with
    | zero => exact h.elim
    | succ n =>
      rcases h with h | ⟨-, ha⟩
      · exact absurd h hf.1
      · exact ⟨n, Nat.lt_succ_self n, ha b hf.2⟩
  induction hr with
  | single hf => exact hs h hf
  | tail _ hf ih =>
    obtain ⟨m, hlt, hm⟩ := ih
    obtain ⟨k, hk, hset⟩ := hs hm hf
    exact ⟨k, hk.trans hlt, hset⟩

lemma settled_acyclic : ¬ TransGen w.Forwards a a := by
  induction n using Nat.strong_induction_on with
  | _ n ih =>
    intro hc
    obtain ⟨m, hlt, hm⟩ := settled_below h hc
    exact ih m hlt hm hc

lemma settled_grounded : w.Grounded a := by
  intro b hr
  obtain ⟨m, hm⟩ : ∃ m, w.Settled m b := by
    rcases reflTransGen_iff_eq_or_transGen.mp hr with rfl | hr
    · exact ⟨n, h⟩
    · obtain ⟨m, -, hm⟩ := settled_below h hr
      exact ⟨m, hm⟩
  refine ⟨settled_acyclic hm, fun ht => ?_⟩
  cases m with
  | zero => exact hm.elim
  | succ m =>
    exact hm.elim (absurd · ht) And.left

lemma mem_paths : path ∈ w.paths n a ↔ w.IsPath a path := by
  induction n generalizing a path with
  | zero => exact h.elim
  | succ n ih =>
    by_cases ht : a ∈ w.terminals
    · rw [Wiring.paths, if_pos ht, List.mem_singleton]
      constructor
      · rintro rfl
        exact .terminal ht
      · intro hp
        cases hp with
        | terminal => rfl
        | forward hf => exact absurd ht hf.1
    · rcases h with h | ⟨-, ha⟩
      · exact absurd h ht
      rw [Wiring.paths, if_neg ht, List.mem_map]
      constructor
      · rintro ⟨rest, hr, rfl⟩
        obtain ⟨b, hb, hm⟩ := List.mem_flatMap.mp hr
        exact .forward ⟨ht, hb⟩ ((ih (ha b hb)).mp hm)
      · intro hp
        cases hp with
        | terminal h => exact absurd h ht
        | forward hf hp =>
          exact ⟨_, List.mem_flatMap.mpr ⟨_, hf.2, (ih (ha _ hf.2)).mpr hp⟩, rfl⟩

end

lemma routeOf_forward (h : w.IsPath b path) (a : PortAddress) :
    w.routeOf (a :: path) = (w.routeOf path).map (through b) := by
  cases h with
  | terminal ht =>
    obtain ⟨contract, hc⟩ := some_of_mem ht
    simp [Wiring.routeOf, hc, through]
  | @forward _ c rest hf hr =>
    have hne : rest ≠ [] := by cases hr <;> simp
    obtain ⟨last, hl⟩ := List.getLast?_isSome.mpr hne |> Option.isSome_iff_exists.mp
    have hl' (x : PortAddress) : (x :: rest).getLast? = some last := by rw [List.getLast?_cons, hl]; rfl
    rw [Wiring.routeOf, Wiring.routeOf, List.getLast?_cons, hl']
    cases hc : w.terminals[last]? with
    | none => simp [hc]
    | some contract =>
      -- the publisher is a terminal, and the port on the way to it is none
      have hd : b ≠ last := by
        rintro rfl
        exact hf.1 (mem_of_some hc)
      simp [hc, through, hd, List.dropLast_cons_of_ne_nil hne]

end Paths

section Resolving

variable (w : Wiring)

def Spells (a : PortAddress) (routes : List ResolvedRoute) : Prop :=
  ∃ n, w.Settled n a ∧ routes.map some = (w.paths n a).map w.routeOf

def SoundRoutes (resolved : Routes) : Prop :=
  ∀ (a : PortAddress) routes, resolved[a]? = some routes → Spells w a routes

def RoutingError (e : ModuleError) : Prop :=
  ∃ a : PortAddress, e = .cycle a.text ∨ e = .invalid a.text "port has no executable publisher"

def refusal : ℕ → PortAddress → List PortAddress → Option ModuleError
  | 0, _, _ => none
  | fuel + 1, a, active =>
    if a ∈ w.terminals then none
    else if a ∈ active then some (.cycle a.text)
    else
      match w.edges[a]? with
      | none => some (.invalid a.text "port has no executable publisher")
      | some sources => sources.findSome? (refusal fuel · (a :: active))

def Answers (a : PortAddress) (refused : Option ModuleError) :
    Except ModuleError (List ResolvedRoute × Routes) → Prop
  | .ok (routes, resolved) => Spells w a routes ∧ SoundRoutes w resolved
  | .error e => ¬ w.Grounded a ∧ refused = some e

variable {w} {a b : PortAddress} {resolved : Routes} {routes : List ResolvedRoute}
  {active : List PortAddress} {fuel : ℕ}

lemma refusal_routing {e : ModuleError} (h : refusal w fuel a active = some e) : RoutingError e := by
  induction fuel generalizing a active with
  | zero => cases h
  | succ fuel ih =>
    rw [refusal] at h
    split_ifs at h
    · exact ⟨a, .inl (Option.some.inj h).symm⟩
    · split at h
      · exact ⟨a, .inr (Option.some.inj h).symm⟩
      · obtain ⟨b, -, hb⟩ := List.exists_of_findSome?_eq_some h
        exact ih hb

lemma active_below (hr : ∀ b ∈ active, TransGen w.Forwards b a) (hf : w.Forwards a b) :
    ∀ c ∈ a :: active, TransGen w.Forwards c b := by
  intro c hc
  rcases List.mem_cons.mp hc with rfl | hc
  · exact .single hf
  · exact (hr c hc).tail hf

lemma soundRoutes_insert (h : SoundRoutes w resolved) (hr : Spells w a routes) :
    SoundRoutes w (resolved.insert a routes) := by
  intro c found hf
  rw [getElem?_insert] at hf
  split_ifs at hf with hs
  · cases hf
    rwa [LawfulEqOrd.eq_of_compare hs] at hr
  · exact h c found hf

lemma grounded_below (h : w.Grounded a) (hf : w.Forwards a b) : w.Grounded b := fun c hc => h c (.head hf hc)

lemma refusal_grounded (h : w.Grounded a) (hr : ∀ b ∈ active, TransGen w.Forwards b a) :
    refusal w fuel a active = none := by
  induction fuel generalizing a active with
  | zero => rfl
  | succ fuel ih =>
    rw [refusal]
    split_ifs with hp hact
    · rfl
    · exact absurd (hr a hact) (h a .refl).1
    · obtain ⟨sources, hsr⟩ := some_of_mem ((h a .refl).2 hp)
      simp only [hsr, List.findSome?_eq_none_iff]
      intro b hb
      have hf : w.Forwards a b := ⟨hp, by rwa [Wiring.sources, hsr]⟩
      exact ih (grounded_below h hf) (active_below hr hf)

lemma sources_answers {refused : PortAddress → Option ModuleError}
    {visit : PortAddress → Routes → Except ModuleError (List ResolvedRoute × Routes)} {sources : List PortAddress}
    (hv : ∀ b ∈ sources, ∀ resolved, SoundRoutes w resolved → Answers w b (refused b) (visit b resolved))
    (hg : ∀ b ∈ sources, w.Grounded b → refused b = none) (hfwd : ∀ b ∈ sources, w.Forwards a b)
    (hs : SoundRoutes w resolved) :
    match sources.foldlM (fun state source => do
        let (found, resolved) ← visit source state.2
        return (state.1 ++ found.map (through source), resolved)) (routes, resolved) with
    | .ok (all, resolved') => SoundRoutes w resolved' ∧ ∃ n found, (∀ b ∈ sources, w.Settled n b) ∧
      all = routes ++ found ∧
        found.map some = ((sources.flatMap (w.paths n)).map (a :: ·)).map w.routeOf
    | .error e => ¬ w.Grounded a ∧ sources.findSome? refused = some e := by
  induction sources generalizing routes resolved with
  | nil => exact ⟨hs, 0, [], by simp, by simp, rfl⟩
  | cons b sources ih =>
    have hb := hv b List.mem_cons_self resolved hs
    rw [List.foldlM_cons]
    dsimp only
    cases hres : visit b resolved with
    | error e =>
      rw [hres] at hb
      refine ⟨fun hg => hb.1 (grounded_below hg (hfwd b List.mem_cons_self)), ?_⟩
      rw [List.findSome?_cons, hb.2]
    | ok result =>
      obtain ⟨found, after⟩ := result
      rw [hres] at hb
      obtain ⟨⟨n, hn, hf⟩, ha⟩ := hb
      have hr := @ih after (routes ++ found.map (through b)) (fun c hc => hv c (List.mem_cons_of_mem _ hc))
        (fun c hc => hg c (List.mem_cons_of_mem _ hc)) (fun c hc => hfwd c (List.mem_cons_of_mem _ hc)) ha
      have ht : (found.map (through b)).map some = ((w.paths n b).map (a :: ·)).map w.routeOf := by
        calc (found.map (through b)).map some = (found.map some).map (Option.map (through b)) := by simp
          _ = (w.paths n b).map fun path => (w.routeOf path).map (through b) := by rw [hf, List.map_map]; rfl
          _ = (w.paths n b).map fun path => w.routeOf (a :: path) :=
            List.map_congr_left fun path hp => (routeOf_forward ((mem_paths hn).mp hp) a).symm
          _ = ((w.paths n b).map (a :: ·)).map w.routeOf := by rw [List.map_map]; rfl
      simp only [bind, Except.bind, pure, Except.pure] at hr ⊢
      split at hr
      · obtain ⟨hs', m, later, hset, rfl, hl⟩ := hr
        have hm {c : PortAddress} {k : ℕ} (hc : w.Settled k c) (hk : k ≤ max n m) := settled_mono hc hk
        refine ⟨hs', max n m, found.map (through b) ++ later, ?_, by rw [List.append_assoc], ?_⟩
        · intro c hc
          rcases List.mem_cons.mp hc with rfl | hc
          · exact (hm hn (le_max_left _ _)).1
          · exact (hm (hset c hc) (le_max_right _ _)).1
        · rw [List.flatMap_cons, List.map_append, List.map_append, List.map_append, ht, hl,
            (hm hn (le_max_left _ _)).2, List.flatMap_congr fun c hc => (hm (hset c hc) (le_max_right _ _)).2]
      · rw [List.findSome?_cons, hg b List.mem_cons_self (settled_grounded hn)]
        exact hr

lemma resolveEndpoint_answers (fuel : ℕ) (hfu : w.edges.size + 2 ≤ fuel + active.length)
    (hnd : active.Nodup) (hk : ∀ b ∈ active, b ∈ w.edges) (hr : ∀ b ∈ active, TransGen w.Forwards b a)
    (hs : SoundRoutes w resolved) :
    Answers w a (refusal w fuel a active) (resolveEndpoint w fuel a active resolved) := by
  induction fuel generalizing a active resolved with
  | zero =>
    have hle := (hnd.subperm fun b hb => mem_keys.mpr (hk b hb)).length_le
    rw [length_keys] at hle
    omega
  | succ fuel ih =>
    unfold resolveEndpoint
    cases hme : resolved[a]? with
    | some routes => exact ⟨hs a routes hme, hs⟩
    | none =>
      cases ht : w.terminals[a]? with
      | some contract =>
        have hsp : Spells w a [⟨a, [], contract⟩] := by
          refine ⟨1, .inl (mem_of_some ht), ?_⟩
          rw [Wiring.paths, if_pos (mem_of_some ht)]
          simp [Wiring.routeOf, ht]
        exact ⟨hsp, soundRoutes_insert hs hsp⟩
      | none =>
        have hp : a ∉ w.terminals := by
          rw [mem_iff_isSome_getElem?, ht]
          exact Bool.false_ne_true
        dsimp only
        by_cases hact : a ∈ active
        · rw [ensure, if_neg (not_not.mpr hact)]
          exact ⟨fun hg => (hg a .refl).1 (hr a hact), by rw [refusal, if_neg hp, if_pos hact]⟩
        · rw [ensure, if_pos hact]
          cases hsr : w.edges[a]? with
          | none =>
            refine ⟨fun hg => ?_, by rw [refusal, if_neg hp, if_neg hact, hsr]⟩
            obtain ⟨sources, hm⟩ := some_of_mem ((hg a .refl).2 hp)
            rw [hsr] at hm
            cases hm
          | some sources =>
            have hsa : w.sources a = sources := by rw [Wiring.sources, hsr, Option.getD_some]
            have hfwd : ∀ b ∈ sources, w.Forwards a b := fun b hb => ⟨hp, hsa ▸ hb⟩
            have hv : ∀ b ∈ sources, ∀ resolved, SoundRoutes w resolved →
                Answers w b (refusal w fuel b (a :: active)) (resolveEndpoint w fuel b (a :: active) resolved) := by
              intro b hb resolved hs
              refine ih (by rw [List.length_cons]; omega) (List.nodup_cons.mpr ⟨hact, hnd⟩) ?_
                (active_below hr (hfwd b hb)) hs
              intro c hc
              rcases List.mem_cons.mp hc with rfl | hc
              · exact mem_of_some hsr
              · exact hk c hc
            have hg : ∀ b ∈ sources, w.Grounded b → refusal w fuel b (a :: active) = none :=
              fun b hb hg => refusal_grounded hg (active_below hr (hfwd b hb))
            have hfo := @sources_answers w a resolved [] _ _ sources hv hg hfwd hs
            simp only [bind, Except.bind, pure, Except.pure, ofOption] at hfo ⊢
            split at hfo
            · rename_i heq
              obtain ⟨hs', n, found, hset, ha, hf⟩ := hfo
              have hsp : Spells w a found := by
                refine ⟨n + 1, .inr ⟨mem_of_some hsr, hsa ▸ hset⟩, ?_⟩
                rw [Wiring.paths, if_neg hp, hsa, hf]
              rw [heq, ha]
              exact ⟨hsp, soundRoutes_insert hs' hsp⟩
            · rename_i heq
              rw [heq, refusal, if_neg hp, if_neg hact, hsr]
              exact hfo

lemma spells_unique {routes' : List ResolvedRoute} (h : Spells w a routes) (h' : Spells w a routes') :
    routes = routes' := by
  obtain ⟨n, hn, hr⟩ := h
  obtain ⟨m, hm, hr'⟩ := h'
  apply (List.map_injective_iff.mpr (Option.some_injective _))
  rw [hr, hr', ← (settled_mono hn (le_max_left n m)).2, ← (settled_mono hm (le_max_right n m)).2]

lemma paths_nodup (h : ∀ a, (w.sources a).Nodup) (n : ℕ) (a : PortAddress) : (w.paths n a).Nodup := by
  induction n generalizing a with
  | zero => exact List.nodup_nil
  | succ n ih =>
    have hh : ∀ (n : ℕ) (b : PortAddress), ∀ path ∈ w.paths n b, path.head? = some b := by
      intro n b path hp
      cases n with
      | zero => cases hp
      | succ n =>
        rw [Wiring.paths] at hp
        split_ifs at hp
        · rw [List.mem_singleton.mp hp]
          rfl
        · obtain ⟨_, -, rfl⟩ := List.mem_map.mp hp
          rfl
    rw [Wiring.paths]
    split_ifs with ht
    · exact List.nodup_singleton _
    · refine List.Nodup.map List.cons_injective (List.nodup_flatMap.mpr ⟨fun b _ => ih b, ?_⟩)
      refine (h a).imp fun {b c} hne path hb hc => hne ?_
      exact Option.some.inj ((hh n b path hb).symm.trans (hh n c path hc))

end Resolving

section Wired

variable {w w' : Wiring} {instances : Instances} {namespace_ : String} {addresses : List PortAddress}
  {sources : PortSources} {a : PortAddress}

def Wiring.Distinct (w : Wiring) : Prop := ∀ a, (w.sources a).Nodup

lemma references_nodup (h : references instances namespace_ sources = .ok addresses) : addresses.Nodup := by
  obtain ⟨-, h⟩ := ensure_bind_ok.mp h
  refine foldlM_invariant ?_ List.nodup_nil h
  intro text _ before after hb hc
  obtain ⟨address, -, hc⟩ := bind_ok.mp hc
  obtain ⟨hn, hc⟩ := ensure_bind_ok.mp hc
  cases pure_ok.mp hc
  exact List.nodup_append_comm.mp (List.nodup_cons.mpr ⟨hn, hb⟩)

lemma Wiring.Distinct.connect (h : w.Distinct) (hr : references instances namespace_ sources = .ok addresses) :
    Wiring.Distinct { w with edges := w.edges.insert a addresses } := by
  intro b
  by_cases hb : a = b
  · subst hb
    rw [Wiring.sources, getElem?_insert_self]
    exact references_nodup hr
  · rw [Wiring.sources, insert_of_ne hb]
    exact h b

lemma wireOutput_distinct {leaf : Bool} {entry : String × PortSpec} (h : w.Distinct)
    (ho : wireOutput instances namespace_ leaf w entry = .ok w') : w'.Distinct := by
  unfold wireOutput at ho
  cases leaf with
  | true =>
    cases pure_ok.mp ho
    exact h
  | false =>
    cases hf : entry.2.from_ with
    | none =>
      rw [hf] at ho
      cases pure_ok.mp ho
      exact h
    | some sources =>
      rw [hf] at ho
      obtain ⟨addresses, hr, ho⟩ := bind_ok.mp ho
      cases pure_ok.mp ho
      exact Wiring.Distinct.connect (w := { w with portTypes := _ }) h hr

lemma wireConnection_distinct {child : String} {entry : String × PortConnection} (h : w.Distinct)
    (hc : wireConnection instances namespace_ child w entry = .ok w') : w'.Distinct := by
  obtain ⟨sources, -, hc⟩ := bind_ok.mp hc
  obtain ⟨addresses, hr, hc⟩ := bind_ok.mp hc
  cases pure_ok.mp hc
  exact h.connect hr

lemma wireInstance_distinct {entry : String × Instance} (h : w.Distinct)
    (hw : wireInstance instances w entry = .ok w') : w'.Distinct := by
  have hin : (entry.2.manifest.inputs.toList.foldl (wireInput entry.1) w).Distinct :=
    List.foldlRecOn _ _ h fun _ hb _ _ => hb
  obtain ⟨mid, ho, hw⟩ := bind_ok.mp hw
  refine foldlM_invariant (P := Wiring.Distinct) (fun call _ _ _ hb hc => ?_) ?_ hw
  · exact foldlM_invariant (P := Wiring.Distinct) (fun _ _ _ _ hb hc => wireConnection_distinct hb hc) hb hc
  · exact foldlM_invariant (P := Wiring.Distinct) (fun _ _ _ _ hb ho => wireOutput_distinct hb ho) hin ho

lemma wire_distinct (h : wire instances = .ok w) : w.Distinct :=
  foldlM_invariant (P := Wiring.Distinct) (fun _ _ _ _ hb hi => wireInstance_distinct hb hi) (fun _ => by
    rw [Wiring.sources, getElem?_empty]
    exact List.nodup_nil) h

end Wired

theorem resolve_endpoint_paths (w : Wiring) {addresses : List PortAddress} {resolved : Routes}
    (hres : addresses.foldlM (resolvePort w) ∅ = .ok resolved) (a : PortAddress) :
    ((resolveEndpoint w (resolveFuel w) a [] resolved).isOk = true ↔ w.Grounded a) ∧
    (∀ e, resolveEndpoint w (resolveFuel w) a [] resolved = .error e → RoutingError e ∧
      resolveEndpoint w (resolveFuel w) a [] ∅ = .error e) ∧
    (∀ routes after, resolveEndpoint w (resolveFuel w) a [] resolved = .ok (routes, after) →
      ∃ n, (∀ path, path ∈ w.paths n a ↔ w.IsPath a path) ∧ routes.map some = (w.paths n a).map w.routeOf ∧
        ((∀ b, (w.sources b).Nodup) → (w.paths n a).Nodup) ∧
        (∀ instances, wire instances = .ok w → (w.paths n a).Nodup) ∧
        ∃ fresh, resolveEndpoint w (resolveFuel w) a [] ∅ = .ok (routes, fresh)) := by
  have han (resolved : Routes) (hs : SoundRoutes w resolved) (a : PortAddress) :
      Answers w a (refusal w (resolveFuel w) a []) (resolveEndpoint w (resolveFuel w) a [] resolved) :=
    resolveEndpoint_answers _ (Nat.le_add_right _ _) List.nodup_nil (by simp) (by simp) hs
  have he : SoundRoutes w ∅ := fun a routes h => by simp at h
  have hs : SoundRoutes w resolved := by
    refine foldlM_invariant (P := SoundRoutes w) ?_ he hres
    intro a _ before after hb hst
    obtain ⟨⟨routes, memo⟩, hc, hm⟩ := bind_ok.mp hst
    cases pure_ok.mp hm
    have h := han before hb a
    rw [hc] at h
    exact h.2
  have ha := han resolved hs a
  have hfr := han ∅ he a
  cases hc : resolveEndpoint w (resolveFuel w) a [] resolved with
  | error e =>
    rw [hc] at ha
    refine ⟨⟨nofun, fun hg => absurd hg ha.1⟩, ?_, nofun⟩
    rintro _ ⟨⟩
    refine ⟨refusal_routing ha.2, ?_⟩
    cases hco : resolveEndpoint w (resolveFuel w) a [] ∅ with
    | error e' =>
      rw [hco] at hfr
      rw [← Option.some.inj (ha.2.symm.trans hfr.2)]
    | ok cold =>
      rw [hco] at hfr
      obtain ⟨⟨n, hn, -⟩, -⟩ := hfr
      exact absurd (settled_grounded hn) ha.1
  | ok result =>
    obtain ⟨routes, after⟩ := result
    rw [hc] at ha
    obtain ⟨n, hn, hr⟩ := ha.1
    refine ⟨⟨fun _ => settled_grounded hn, fun _ => rfl⟩, nofun, ?_⟩
    rintro _ _ ⟨⟩
    refine ⟨n, fun _ => mem_paths hn, hr, fun hnd => paths_nodup hnd n a,
      fun _ hw => paths_nodup (wire_distinct hw) n a, ?_⟩
    cases hco : resolveEndpoint w (resolveFuel w) a [] ∅ with
    | error e =>
      rw [hco] at hfr
      exact absurd (settled_grounded hn) hfr.1
    | ok cold =>
      rw [hco] at hfr
      exact ⟨cold.2, by rw [spells_unique ha.1 hfr.1]⟩

def stream : EndpointContract := ⟨∅, "Pose", .stream, none, .default, .volatile, .live, .fifo⟩

def armPose : PortAddress := ⟨"arm", false, "pose"⟩
def rigPose : PortAddress := ⟨"rig", false, "pose"⟩
def viewPose : PortAddress := ⟨"view", true, "pose"⟩

def rigWiring : Wiring := ⟨Map.of [(viewPose, [rigPose]), (rigPose, [armPose])], ∅, Map.of [(armPose, stream)]⟩

theorem resolve_endpoint_paths_rig : ∃ resolved, [rigPose].foldlM (resolvePort rigWiring) ∅ = .ok resolved ∧
    resolved ≠ ∅ ∧ rigWiring.Grounded viewPose ∧
    (resolveEndpoint rigWiring (resolveFuel rigWiring) viewPose [] resolved).toOption.map (·.1) =
      some [⟨armPose, [rigPose], stream⟩] := by
  have hm : (([rigPose].foldlM (resolvePort rigWiring) ∅).toOption.map fun resolved =>
      (resolved.size,
        (resolveEndpoint rigWiring (resolveFuel rigWiring) viewPose [] resolved).toOption.map (·.1))) =
        some (2, some [⟨armPose, [rigPose], stream⟩]) := by
    decide +kernel
  cases hres : [rigPose].foldlM (resolvePort rigWiring) ∅ with
  | error e =>
    rw [hres] at hm
    cases hm
  | ok resolved =>
    rw [hres] at hm
    obtain ⟨hsz, hc⟩ := Prod.mk.inj (Option.some.inj hm)
    refine ⟨resolved, rfl, ?_, (resolve_endpoint_paths rigWiring hres viewPose).1.mp ?_, hc⟩
    · rintro rfl
      cases hsz
    · cases hr : resolveEndpoint rigWiring (resolveFuel rigWiring) viewPose [] resolved with
      | error e =>
        rw [hr] at hc
        cases hc
      | ok result => rfl

end Reiny.Launch
