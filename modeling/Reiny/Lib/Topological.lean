import Mathlib.Tactic

/-! Sorting by dependencies, and evaluation in any order that respects them. -/

namespace Reiny.Lib.Topological

open Std List ExtTreeMap

variable {α : Type}

def Ready (deps : α → Set α) : List α → List α → Prop
  | _, [] => True
  | done, n :: rest => n ∉ done ∧ (∀ d ∈ deps n, d ∈ done) ∧ Ready deps (done ++ [n]) rest

variable {deps : α → Set α} {done order : List α} {n : α}

lemma Ready.append {more : List α} (h : Ready deps done order) (hm : Ready deps (done ++ order) more) :
    Ready deps done (order ++ more) := by
  induction order generalizing done with
  | nil => simpa using hm
  | cons n rest ih =>
    obtain ⟨hn, hd, hr⟩ := h
    refine ⟨hn, hd, ih hr ?_⟩
    rwa [append_assoc, singleton_append]

lemma Ready.fresh (h : Ready deps done order) (hn : n ∈ order) : n ∉ done := by
  induction order generalizing done with
  | nil => cases hn
  | cons m rest ih =>
    obtain ⟨hm, -, hr⟩ := h
    rcases mem_cons.mp hn with rfl | hn
    · exact hm
    · intro hd
      exact ih hr hn (mem_append_left _ hd)

lemma Ready.nodup (h : Ready deps done order) : order.Nodup := by
  induction order generalizing done with
  | nil => exact nodup_nil
  | cons n rest ih =>
    obtain ⟨-, -, hr⟩ := h
    refine nodup_cons.mpr ⟨?_, ih hr⟩
    intro hn
    exact hr.fresh hn (mem_append_right _ (mem_singleton_self n))

lemma Ready.before {p s : List α} {d : α} (h : Ready deps done (p ++ n :: s)) (hd : d ∈ deps n) :
    d ∈ done ∨ d ∈ p := by
  induction p generalizing done with
  | nil =>
    obtain ⟨-, hde, -⟩ := h
    exact .inl (hde d hd)
  | cons m p ih =>
    obtain ⟨-, -, hr⟩ := h
    rcases ih hr with hdo | hp
    · rcases mem_append.mp hdo with hdo | hm
      · exact .inl hdo
      · rw [mem_singleton.mp hm]
        exact .inr mem_cons_self
    · exact .inr (mem_cons_of_mem _ hp)

def Respects (deps : α → Set α) (order : List α) : Prop :=
  ∀ p n s, order = p ++ n :: s → ∀ d ∈ deps n, d ∈ p

lemma Ready.respects (h : Ready deps [] order) : Respects deps order := by
  rintro p n s rfl d hd
  rcases h.before hd with hn | hp
  · cases hn
  · exact hp

lemma Ready.of_splits (hnd : order.Nodup) (hfr : ∀ n ∈ order, n ∉ done)
    (h : ∀ p n s, order = p ++ n :: s → ∀ d ∈ deps n, d ∈ done ∨ d ∈ p) : Ready deps done order := by
  induction order generalizing done with
  | nil => trivial
  | cons n rest ih =>
    rw [nodup_cons] at hnd
    rw [forall_mem_cons] at hfr
    refine ⟨hfr.1, ?_, ih hnd.2 ?_ ?_⟩
    · intro d hd
      rcases h [] n rest rfl d hd with hdo | hnil
      · exact hdo
      · cases hnil
    · intro m hm hmem
      rcases mem_append.mp hmem with hdo | hn
      · exact hfr.2 m hm hdo
      · exact hnd.1 (mem_singleton.mp hn ▸ hm)
    · rintro p m s rfl d hd
      rw [mem_append, mem_singleton, or_assoc]
      have hc := h (n :: p) m s rfl d hd
      rwa [mem_cons] at hc

lemma Respects.ready (hnd : order.Nodup) (h : Respects deps order) : Ready deps [] order := by
  refine Ready.of_splits hnd (fun n hn hnil => by cases hnil) ?_
  intro p n s hsp d hd
  exact .inr (h p n s hsp d hd)

section Cycles

open Relation

def BehindCycle (R : α → α → Prop) (n : α) : Prop := ∃ m, TransGen R m m ∧ ReflTransGen R m n

variable {R : α → α → Prop}

lemma not_behindCycle_of_acc (h : Acc R n) : ¬ BehindCycle R n := by
  rintro ⟨m, hc, hp⟩
  have hm : Acc R m := by
    induction hp with
    | refl => exact h
    | tail _ hs ih => exact ih (h.inv hs)
  have hir : ∀ a, Acc (TransGen R) a → ¬ TransGen R a a := by
    intro a ha
    induction ha with
    | intro a _ ih => exact fun hl => ih a hl hl
  exact hir m hm.transGen hc

lemma behindCycle_of_finite {S : Set α} (hS : S.Finite) (hp : ∀ n ∈ S, ∃ d ∈ S, R d n) (hn : n ∈ S) :
    BehindCycle R n := by
  by_contra hnot
  have hsub : (S ∩ { m | ReflTransGen R m n }).Finite := hS.subset Set.inter_subset_left
  let Below := { m // m ∈ S ∩ { m | ReflTransGen R m n } }
  have : Finite Below := hsub
  let before : Below → Below → Prop := fun a b => TransGen R a.1 b.1
  have : IsTrans Below before := ⟨fun _ _ _ hab hbc => hab.trans hbc⟩
  have : Std.Irrefl before := ⟨fun a hlo => hnot ⟨a.1, hlo, a.2.2⟩⟩
  have hwf : WellFounded before := Finite.wellFounded_of_trans_of_irrefl before
  obtain ⟨least, -, hl⟩ := hwf.has_min Set.univ ⟨⟨n, hn, ReflTransGen.refl⟩, trivial⟩
  obtain ⟨d, hd, hs⟩ := hp least.1 least.2.1
  exact hl ⟨d, hd, ReflTransGen.head hs least.2.2⟩ trivial (TransGen.single hs)

lemma Ready.acc {deps : α → Set α} {done order : List α} (h : Ready deps done order)
    (hdo : ∀ n ∈ done, Acc (fun d n => d ∈ deps n) n) : ∀ n ∈ order, Acc (fun d n => d ∈ deps n) n := by
  induction order generalizing done with
  | nil => exact fun n hn => by cases hn
  | cons n rest ih =>
    obtain ⟨-, hde, hr⟩ := h
    have hn : Acc (fun d n => d ∈ deps n) n := Acc.intro n fun d hd => hdo d (hde d hd)
    refine forall_mem_cons.mpr ⟨hn, ih hr ?_⟩
    intro m hm
    rcases mem_append.mp hm with hm | hm
    · exact hdo m hm
    · exact mem_singleton.mp hm ▸ hn

end Cycles

section Sorting

variable [Ord α] [TransOrd α] [LawfulEqOrd α]

def takeOut (deps : ExtTreeMap α (ExtTreeSet α)) (next : α) : ExtTreeMap α (ExtTreeSet α) :=
  (deps.erase next).map fun _ sources => sources.erase next

/-- Take out the least element without dependencies until none is left, or report those that remain. -/
def sort : ℕ → ExtTreeMap α (ExtTreeSet α) → List α → Except (List α) (List α)
  | 0, _, order => .ok order
  | fuel + 1, deps, order =>
    if deps.isEmpty then .ok order
    else
      match deps.toList.find? (fun entry => entry.2.isEmpty) with
      | none => .error deps.keys
      | some (next, _) => sort fuel (takeOut deps next) (order ++ [next])

def depsOf (deps : ExtTreeMap α (ExtTreeSet α)) (n : α) : Set α := { d | ∃ s, deps[n]? = some s ∧ d ∈ s }

structure Remaining (whole deps : ExtTreeMap α (ExtTreeSet α)) (order : List α) : Prop where
  known : ∀ n, n ∈ order ∨ n ∈ deps ↔ n ∈ whole
  gone : ∀ n ∈ order, n ∉ deps
  left : ∀ (n : α) (r s : ExtTreeSet α), deps[n]? = some r → whole[n]? = some s → ∀ d, d ∈ r ↔ d ∈ s ∧ d ∉ order
  ready : Ready (depsOf whole) [] order

omit [LawfulEqOrd α] in
lemma Remaining.start (whole : ExtTreeMap α (ExtTreeSet α)) : Remaining whole whole [] where
  known := fun n => by simp
  gone := fun n hn => by cases hn
  left := fun n r s hr hs d => by
    rw [hr] at hs
    cases hs
    simp
  ready := trivial

variable {deps whole : ExtTreeMap α (ExtTreeSet α)} {result : List α} {sources : ExtTreeSet α} {fuel : ℕ}
  {stuck : List α} {r : ExtTreeSet α}

lemma Remaining.next (h : Remaining whole deps order) {next : α} (hn : deps[next]? = some sources)
    (he : sources.isEmpty = true) : Remaining whole (takeOut deps next) (order ++ [next]) := by
  have hm : next ∈ deps := mem_iff_isSome_getElem?.mpr (by rw [hn]; rfl)
  refine ⟨?_, ?_, ?_, ?_⟩
  · intro n
    rw [← h.known n, takeOut, ExtTreeMap.mem_map, ExtTreeMap.mem_erase, mem_append, mem_singleton]
    by_cases hne : n = next
    · subst hne
      simp [hm]
    · have hcmp : compare next n ≠ .eq := fun hc => hne (LawfulEqOrd.eq_of_compare hc).symm
      simp [hne, hcmp]
  · intro n hn'
    rw [takeOut, ExtTreeMap.mem_map, ExtTreeMap.mem_erase]
    rintro ⟨hcmp, hd⟩
    rcases mem_append.mp hn' with ho | ho
    · exact h.gone n ho hd
    · rw [mem_singleton.mp ho] at hcmp
      exact hcmp ReflOrd.compare_self
  · intro n r s hr hs d
    rw [takeOut, ExtTreeMap.getElem?_map, ExtTreeMap.getElem?_erase, Option.map_eq_some_iff] at hr
    obtain ⟨r', hr', rfl⟩ := hr
    split_ifs at hr' with hcmp
    rw [ExtTreeSet.mem_erase, h.left n r' s hr' hs d, mem_append, mem_singleton, not_or]
    constructor
    · rintro ⟨hd, hs, ho⟩
      exact ⟨hs, ho, fun he => hd (by rw [he]; exact ReflOrd.compare_self)⟩
    · rintro ⟨hs, ho, hd⟩
      exact ⟨fun hc => hd (LawfulEqOrd.eq_of_compare hc).symm, hs, ho⟩
  · refine h.ready.append ⟨?_, ?_, trivial⟩
    · rw [nil_append]
      exact fun ho => h.gone next ho hm
    · rintro d ⟨s, hs, hd⟩
      by_contra ho
      have hin := (h.left next sources s hn hs d).mpr ⟨hd, ho⟩
      rw [ExtTreeSet.isEmpty_iff] at he
      rw [he] at hin
      exact ExtTreeSet.not_mem_empty hin

lemma sort_cases (hs : sort (fuel + 1) deps order = .ok result) :
    deps = ∅ ∧ result = order ∨ ∃ next sources,
      deps.toList.find? (fun entry => entry.2.isEmpty) = some (next, sources) ∧ deps[next]? = some sources ∧
      sources.isEmpty = true ∧ sort fuel (takeOut deps next) (order ++ [next]) = .ok result := by
  rw [sort] at hs
  split_ifs at hs with he
  · cases hs
    exact .inl ⟨isEmpty_iff.mp he, rfl⟩
  · split at hs
    · cases hs
    · rename_i next sources hf
      have hn := mem_toList_iff_getElem?_eq_some.mp (mem_of_find?_eq_some hf)
      have hemp := find?_some hf
      exact .inr ⟨next, sources, hf, hn, hemp, hs⟩

omit [LawfulEqOrd α] in
lemma takeOut_size {next : α} (hn : deps[next]? = some sources) : (takeOut deps next).size + 1 = deps.size := by
  have hm : next ∈ deps := mem_iff_isSome_getElem?.mpr (by rw [hn]; rfl)
  have hp : deps.size ≠ 0 := by
    intro hz
    rw [← eq_empty_iff_size_eq_zero] at hz
    rw [hz] at hm
    exact not_mem_empty hm
  rw [takeOut, size_map, size_erase, if_pos (contains_iff_mem.mpr hm)]
  omega

lemma sort_remaining (h : Remaining whole deps order) (hf : deps.size ≤ fuel)
    (hs : sort fuel deps order = .ok result) :
    Ready (depsOf whole) [] result ∧ ∀ n, n ∈ result ↔ n ∈ whole := by
  have hd : ∀ {deps order}, Remaining whole deps order → deps = ∅ →
      Ready (depsOf whole) [] order ∧ ∀ n, n ∈ order ↔ n ∈ whole := by
    rintro deps order h rfl
    refine ⟨h.ready, fun n => ?_⟩
    rw [← h.known n]
    simp
  induction fuel generalizing deps order with
  | zero =>
    cases hs
    exact hd h (eq_empty_iff_size_eq_zero.mpr (Nat.le_zero.mp hf))
  | succ fuel ih =>
    rcases sort_cases hs with ⟨he, rfl⟩ | ⟨next, sources, -, hn, hemp, hs⟩
    · exact hd h he
    · have hsz := takeOut_size hn
      exact ih (h.next hn hemp) (by omega) hs

theorem sort_ok (h : sort deps.size deps [] = .ok order) :
    Ready (depsOf deps) [] order ∧ ∀ n, n ∈ order ↔ n ∈ deps :=
  sort_remaining (.start deps) le_rfl h

lemma sort_stuck (h : Remaining whole deps order) (hs : sort fuel deps order = .error stuck) :
    ∃ deps' order', Remaining whole deps' order' ∧ deps'.isEmpty = false ∧ stuck = deps'.keys ∧
      ∀ (n : α) r, deps'[n]? = some r → ∃ d, d ∈ r := by
  induction fuel generalizing deps order with
  | zero => cases hs
  | succ fuel ih =>
    unfold sort at hs
    split_ifs at hs with he
    split at hs
    · rename_i hno
      cases hs
      refine ⟨deps, order, h, Bool.eq_false_iff.mpr he, rfl, ?_⟩
      intro n r hr
      have hne := find?_eq_none.mp hno (n, r) (mem_toList_iff_getElem?_eq_some.mpr hr)
      by_contra hno
      rw [not_exists] at hno
      exact hne (ExtTreeSet.isEmpty_iff.mpr (ExtTreeSet.ext_mem fun d => by simp [hno d]))
    · rename_i next sources hf
      have hn := mem_toList_iff_getElem?_eq_some.mp (mem_of_find?_eq_some hf)
      have hemp := find?_some hf
      exact ih (h.next hn hemp) hs

theorem sort_error (hcl : ∀ n, ∀ d ∈ depsOf deps n, d ∈ deps) (h : sort deps.size deps [] = .error stuck) :
    stuck ≠ [] ∧ stuck.Nodup ∧ ∀ n, n ∈ stuck ↔ n ∈ deps ∧ BehindCycle (fun d n => d ∈ depsOf deps n) n := by
  obtain ⟨left, order, hl, hne, rfl, hst⟩ := sort_stuck (.start deps) h
  have hf : { n | n ∈ left }.Finite := by
    refine Set.Finite.subset left.keys.finite_toSet ?_
    exact fun n hn => ExtTreeMap.mem_keys.mpr hn
  have hp : ∀ n, n ∈ left → ∃ d, d ∈ left ∧ d ∈ depsOf deps n := by
    intro n hn
    obtain ⟨r, hr⟩ := Option.isSome_iff_exists.mp (mem_iff_isSome_getElem?.mp hn)
    obtain ⟨s, hs⟩ := Option.isSome_iff_exists.mp (mem_iff_isSome_getElem?.mp ((hl.known n).mp (Or.inr hn)))
    obtain ⟨d, hd⟩ := hst n r hr
    obtain ⟨hds, ho⟩ := (hl.left n r s hr hs d).mp hd
    have hdep : d ∈ depsOf deps n := ⟨s, hs, hds⟩
    exact ⟨d, ((hl.known d).mpr (hcl n d hdep)).resolve_left ho, hdep⟩
  have ha := hl.ready.acc fun n hn => by cases hn
  refine ⟨?_, nodup_keys, ?_⟩
  · intro hnil
    rw [keys_eq_nil_iff] at hnil
    rw [hnil] at hne
    cases hne
  · intro n
    rw [ExtTreeMap.mem_keys]
    constructor
    · intro hn
      exact ⟨(hl.known n).mp (Or.inr hn), behindCycle_of_finite hf hp hn⟩
    · rintro ⟨hn, hc⟩
      rcases (hl.known n).mpr hn with ho | hin
      · exact absurd hc (not_behindCycle_of_acc (ha n ho))
      · exact hin

lemma sort_acyclic (h : sort deps.size deps [] = .ok order) (n : α) :
    ¬ Relation.TransGen (fun d n => d ∈ depsOf deps n) n n := by
  intro hc
  obtain ⟨hrd, hm⟩ := sort_ok h
  have hn : n ∈ order := by
    obtain ⟨d, -, s, hs, -⟩ := Relation.TransGen.tail'_iff.mp hc
    exact (hm n).mpr (mem_iff_isSome_getElem?.mpr (by rw [hs]; rfl))
  have ha := hrd.acc (fun n hn => by cases hn) n hn
  exact not_behindCycle_of_acc ha ⟨n, hc, Relation.ReflTransGen.refl⟩

lemma sort_keeps (hs : sort fuel deps order = .ok result) : ∃ rest, result = order ++ rest := by
  induction fuel generalizing deps order with
  | zero =>
    cases hs
    exact ⟨[], by simp⟩
  | succ fuel ih =>
    rcases sort_cases hs with ⟨-, rfl⟩ | ⟨next, sources, -, -, -, hs⟩
    · exact ⟨[], by simp⟩
    · obtain ⟨rest, rfl⟩ := ih hs
      exact ⟨next :: rest, by simp⟩

lemma find_least {next : α} (hf : deps.toList.find? (fun entry => entry.2.isEmpty) = some (next, sources))
    (hn : deps[n]? = some r) (he : r.isEmpty = true) : n = next ∨ compare next n = .lt := by
  obtain ⟨-, before, after, hsp, hb⟩ := find?_eq_some_iff_append.mp hf
  have hm := mem_toList_iff_getElem?_eq_some.mpr hn
  have ho := ordered_keys_toList (t := deps)
  rw [hsp] at hm ho
  rcases mem_append.mp hm with hm | hm
  · have hnot := hb (n, r) hm
    rw [he] at hnot
    cases hnot
  · rcases mem_cons.mp hm with heq | hm
    · exact .inl (congrArg Prod.fst heq)
    · rw [pairwise_append, pairwise_cons] at ho
      exact .inr (ho.2.1.1 (n, r) hm)

lemma Remaining.empty_of_ready (h : Remaining whole deps order) (hr : deps[n]? = some r)
    (hde : ∀ d ∈ depsOf whole n, d ∈ order) : r.isEmpty = true := by
  have hn : n ∈ deps := mem_iff_isSome_getElem?.mpr (by rw [hr]; rfl)
  obtain ⟨s, hs⟩ := Option.isSome_iff_exists.mp
    (mem_iff_isSome_getElem?.mp ((h.known n).mp (Or.inr hn)))
  have hno : ∀ d, d ∉ r := by
    intro d hd
    obtain ⟨hds, ho⟩ := (h.left n r s hr hs d).mp hd
    exact ho (hde d ⟨s, hs, hds⟩)
  exact ExtTreeSet.isEmpty_iff.mpr (ExtTreeSet.ext_mem fun d => by simp [hno d])

lemma mem_takeOut {next : α} : n ∈ takeOut deps next ↔ next ≠ n ∧ n ∈ deps := by
  rw [takeOut, ExtTreeMap.mem_map, ExtTreeMap.mem_erase, ne_eq, LawfulEqOrd.compare_eq_iff_eq]

lemma sort_least {other : List α} (h : Remaining whole deps order) (hf : deps.size ≤ fuel)
    (hs : sort fuel deps order = .ok result) (ho : Ready (depsOf whole) order other)
    (hk : ∀ n, n ∈ other ↔ n ∈ deps) :
    result = order ++ other ∨ List.Lex (fun a b => compare a b = .lt) result (order ++ other) := by
  have hd : ∀ {deps : ExtTreeMap α (ExtTreeSet α)} {order other : List α}, (∀ n, n ∈ other ↔ n ∈ deps) →
      deps = ∅ → order = order ++ other := by
    rintro deps order other hk rfl
    have hnil : other = [] := eq_nil_iff_forall_not_mem.mpr fun n hn =>
      not_mem_empty ((hk n).mp hn)
    rw [hnil, append_nil]
  induction fuel generalizing deps order other with
  | zero =>
    cases hs
    exact .inl (hd hk (eq_empty_iff_size_eq_zero.mpr (Nat.le_zero.mp hf)))
  | succ fuel ih =>
    rcases sort_cases hs with ⟨he, rfl⟩ | ⟨next, sources, hfi, hn, hemp, hs⟩
    · exact .inl (hd hk he)
    · have hm : next ∈ other := (hk next).mpr (mem_iff_isSome_getElem?.mpr (by rw [hn]; rfl))
      cases other with
      | nil => cases hm
      | cons first other =>
        obtain ⟨-, hde, hre⟩ := ho
        obtain ⟨r, hr⟩ := Option.isSome_iff_exists.mp
          (mem_iff_isSome_getElem?.mp ((hk first).mp mem_cons_self))
        -- the first of the other order is ready as well, so it is found or comes after what is found
        rcases find_least hfi hr (h.empty_of_ready hr hde) with rfl | hlt
        · have hfr : first ∉ other := fun hm' =>
            hre.fresh hm' (mem_append_right _ (mem_singleton_self first))
          have hkeys' : ∀ n, n ∈ other ↔ n ∈ takeOut deps first := by
            intro n
            rw [mem_takeOut, ← hk n, mem_cons]
            constructor
            · intro hn'
              exact ⟨fun heq => hfr (heq ▸ hn'), .inr hn'⟩
            · rintro ⟨hne, hn'⟩
              exact hn'.resolve_left fun heq => hne heq.symm
          have hsz := takeOut_size hn
          have hnext := ih (h.next hn hemp) (by omega) hs hre hkeys'
          rwa [append_assoc, singleton_append] at hnext
        · obtain ⟨rest, rfl⟩ := sort_keeps hs
          right
          rw [append_assoc]
          exact List.Lex.append_left (fun a b => compare a b = .lt) (.rel hlt) order

end Sorting

section Evaluation

variable {β : Type} [DecidableEq α]

def evalFrom (F : (α → Option β) → α → Option β) (env : α → Option β) : List α → Option (α → Option β)
  | [] => some env
  | n :: rest => do
    let b ← F env n
    evalFrom F (Function.update env n (some b)) rest

def Causal (deps : α → Set α) (F : (α → Option β) → α → Option β) : Prop :=
  ∀ n env env', (∀ d ∈ deps n, env d = env' d) → F env n = F env' n

variable {F : (α → Option β) → α → Option β} {env result : α → Option β}

theorem evalFrom_solves (hF : Causal deps F) (h : Ready deps done order) (he : evalFrom F env order = some result) :
    (∀ n, n ∉ order → result n = env n) ∧ ∀ n ∈ order, result n = F result n ∧ (result n).isSome = true := by
  induction order generalizing env done with
  | nil =>
    cases he
    exact ⟨fun _ _ => rfl, fun n hn => by cases hn⟩
  | cons m rest ih =>
    obtain ⟨hm, hde, hr⟩ := h
    obtain ⟨b, hb, he⟩ := Option.bind_eq_some_iff.mp he
    obtain ⟨ho, hin⟩ := ih hr he
    have hmr : m ∉ rest := fun hmem => hr.fresh hmem (mem_append_right _ (mem_singleton_self m))
    have hres : result m = some b := by rw [ho m hmr, Function.update_self]
    refine ⟨?_, ?_⟩
    · intro n hn
      rw [mem_cons, not_or] at hn
      rw [ho n hn.2, Function.update_of_ne hn.1]
    · intro n hn
      rcases mem_cons.mp hn with rfl | hn
      · refine ⟨?_, by rw [hres]; rfl⟩
        rw [hres, ← hb]
        apply hF
        intro d hd
        have hdo := hde d hd
        have hdr : d ∉ rest := fun hmem => hr.fresh hmem (mem_append_left _ hdo)
        have hne : d ≠ n := fun he => hm (he ▸ hdo)
        rw [ho d hdr, Function.update_of_ne hne]
      · exact hin n hn

theorem evalFrom_of_solution (hF : Causal deps F) (h : Ready deps done order)
    (hs : ∀ n ∈ order, result n = F result n ∧ (result n).isSome = true) (hd : ∀ d ∈ done, env d = result d) :
    evalFrom F env order = some fun n => if n ∈ order then result n else env n := by
  induction order generalizing env done with
  | nil => simp [evalFrom]
  | cons m rest ih =>
    obtain ⟨hm, hde, hr⟩ := h
    obtain ⟨hv, hso⟩ := hs m mem_cons_self
    obtain ⟨b, hb⟩ := Option.isSome_iff_exists.mp hso
    have hF' : F env m = some b := by
      rw [← hb, hv]
      exact hF m _ _ fun d hd' => hd d (hde d hd')
    have hdo : ∀ d ∈ done ++ [m], Function.update env m (some b) d = result d := by
      intro d hd'
      by_cases hdm : d = m
      · rw [hdm, Function.update_self, hb]
      · rw [Function.update_of_ne hdm]
        exact hd d ((mem_append.mp hd').resolve_right (by simpa using hdm))
    simp only [evalFrom, hF', Option.bind_eq_bind, Option.bind_some,
      ih hr (fun n hn => hs n (mem_cons_of_mem _ hn)) hdo]
    congr 1
    funext n
    by_cases hn : n = m
    · subst hn
      by_cases hre : n ∈ rest <;> simp [hre, hb]
    · simp [hn]

theorem evalFrom_order {order' : List α} (hF : Causal deps F) (h : Ready deps [] order) (h' : Ready deps [] order')
    (hp : ∀ n, n ∈ order ↔ n ∈ order') (he : evalFrom F (fun _ => none) order = some result) :
    evalFrom F (fun _ => none) order' = some result := by
  obtain ⟨hout, hin⟩ := evalFrom_solves hF h he
  rw [evalFrom_of_solution hF h' (fun n hn => hin n ((hp n).mpr hn)) (by simp)]
  congr 1
  funext n
  by_cases hn : n ∈ order'
  · simp [hn]
  · rw [if_neg hn, hout n (fun ho => hn ((hp n).mp ho))]

end Evaluation

end Reiny.Lib.Topological
