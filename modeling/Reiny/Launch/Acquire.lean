import Reiny.Lib.Machine
import Reiny.Lib.Maps
import Reiny.Lib.Segments

namespace Reiny.Launch.Acquire

open Std Lib Segments List

structure GitSource where
  git : String
  reference : String
  path : String

structure Record where
  url : String
  reference : String
  path : String
  commit : String
deriving DecidableEq

abbrev Records := ExtTreeMap String Record

abbrev Memo := ExtTreeMap (String × String) String

/-- `validate_url`, `validate_path` and `validate_commit`, which only refuse. -/
structure Checks where
  url : String → Bool
  path : String → Bool
  commit : String → Bool

/-- What `git` and the file system answer to one resolve; `served` is the commit that the remote has for the ref by now. -/
structure Outside where
  format : Bool
  url : Option String
  repository : Bool
  cached : Bool
  fetched : Bool
  served : Option String
  module : Option String

structure SourceResolver where
  update : Bool
  lock : Bool
  records : Records
  resolved : Memo
  failed : Bool
  cancelled : Bool
  yaml : Option Records

/-- `finish` with whether the new lockfile could be written, and whether a cancellation came in between. -/
inductive Event
  | resolve (namespace_ : String) (source : GitSource) (outside : Outside)
  | finish (written late : Bool)
  | cancel

inductive Answer
  | resolved (namespace_ : String) (record : Record)
  | refused
  | finished
  | unfinished
  | cancelled
deriving DecidableEq

/-- The parts that paths are compared by: no empty one, and `.` only at the start. -/
def components (path : String) : List String :=
  let parts := segments path
  (if 1 < parts.length ∧ parts.head? = some "" then ["/"] else (parts.take 1).filter (· ≠ "")) ++
    parts.tail.filter fun part => part ≠ "" ∧ part ≠ "."

def Record.sameSource (a b : Record) : Bool :=
  a.url = b.url ∧ a.reference = b.reference ∧ components a.path = components b.path

namespace SourceResolver

variable (s : SourceResolver) (C : Checks)

def openInner (yaml : Option Records) (update : Bool) : SourceResolver :=
  ⟨update, true, yaml.getD ∅, ∅, false, false, yaml⟩

def pinned (namespace_ : String) (wanted : Record) : Option String :=
  if s.update then none else (s.records[namespace_]?.filter (·.sameSource wanted)).map (·.commit)

def commit (namespace_ : String) (wanted : Record) (out : Outside) : Option (String × SourceResolver) :=
  match s.pinned namespace_ wanted with
  | some commit => if C.commit commit ∧ (out.cached ∨ out.fetched) then some (commit, s) else none
  | none =>
    match s.resolved[(wanted.url, wanted.reference)]? with
    | some commit => some (commit, s)
    | none => do
      let commit ← out.served
      guard (C.commit commit)
      return (commit, { s with resolved := s.resolved.insert (wanted.url, wanted.reference) commit })

def refuse : Answer × SourceResolver := (.refused, { s with failed := true })

def resolve (namespace_ : String) (source : GitSource) (out : Outside) : Answer × SourceResolver :=
  if s.cancelled ∨ !s.lock ∨ namespace_ = "" ∨ !C.url source.git ∨ !C.path source.path ∨ source.reference = "" ∨
      source.reference.toList.head? = some '-' ∨ !out.format ∨ !out.repository then s.refuse
  else match out.url with
    | none => s.refuse
    | some url =>
      let wanted : Record := ⟨url, source.reference, source.path, ""⟩
      match s.commit C namespace_ wanted out with
      | none => s.refuse
      | some (commit, s) =>
        let record := { wanted with commit := commit }
        if out.module.isSome then (.resolved namespace_ record,
          { s with records := s.records.insert namespace_ record })
        else s.refuse

def finish (written late : Bool) : Answer × SourceResolver :=
  if s.cancelled ∨ !s.lock ∨ s.failed then (.unfinished, s)
  else if s.records.isEmpty then (.finished, { s with lock := false })
  else if late then (.cancelled, { s with cancelled := true })
  else if written then (.finished, { s with yaml := some s.records, lock := false })
  else (.unfinished, s)

def step : Event → Option (Answer × SourceResolver)
  | .resolve namespace_ source out => some (s.resolve C namespace_ source out)
  | .finish written late => some (s.finish written late)
  | .cancel => some (.cancelled, { s with cancelled := true })

end SourceResolver

def override (old : Records) (answers : List Answer) : Records :=
  answers.foldl (fun records answer => match answer with
    | .resolved namespace_ record => records.insert namespace_ record
    | _ => records) old

def Unlocked (old : Records) (n : String) (r : Record) : Prop :=
  ∀ locked, old[n]? = some locked → locked.sameSource r = false

structure Pinned (old : Records) (answers : List Answer) (s : SourceResolver) : Prop where
  update : s.update = false
  records : s.records = override old answers
  kept : ∀ n r locked, .resolved n r ∈ answers → old[n]? = some locked → locked.sameSource r = true →
    r.commit = locked.commit
  memo : ∀ n r, .resolved n r ∈ answers → Unlocked old n r → s.resolved[(r.url, r.reference)]? = some r.commit

/-- The lockfile stays as it is until the transaction is finished, before anything has failed or was cancelled. -/
structure Published (yaml : Option Records) (answers : List Answer) (s : SourceResolver) : Prop where
  failed : .refused ∈ answers → s.failed = true
  cancelled : .cancelled ∈ answers → s.cancelled = true
  still : s.lock = true → s.yaml = yaml
  done : s.lock = false → ∃ earlier later, answers = earlier ++ .finished :: later ∧ .refused ∉ earlier ∧
    .cancelled ∉ earlier ∧ s.yaml.getD ∅ = override (yaml.getD ∅) earlier

def Grows (memo later : Memo) : Prop := ∀ k : String × String, ∀ c, memo[k]? = some c → later[k]? = some c

inductive Resolves (s : SourceResolver) (n : String) : Answer → SourceResolver → Prop
  | refused {memo : Memo} (h : Grows s.resolved memo) :
    Resolves s n .refused { s with resolved := memo, failed := true }
  | pinned {r locked : Record} (h : s.records[n]? = some locked) (hs : locked.sameSource r = true)
      (hc : r.commit = locked.commit) : Resolves s n (.resolved n r) { s with records := s.records.insert n r }
  | fetched {r : Record} {memo : Memo} (h : Grows s.resolved memo)
    (hr : memo[(r.url, r.reference)]? = some r.commit)
      (hnew : s.update = false → Unlocked s.records n r) :
      Resolves s n (.resolved n r) { s with resolved := memo, records := s.records.insert n r }

variable {C : Checks} {s next : SourceResolver} {n : String} {source : GitSource} {out : Outside} {a : Answer}
  {old : Records} {answers : List Answer} {r wanted : Record} {yaml : Option Records} {event : Event}

lemma pinned_some {c : String} (h : s.pinned n wanted = some c) :
    ∃ locked, s.records[n]? = some locked ∧ locked.sameSource wanted = true ∧ locked.commit = c := by
  unfold SourceResolver.pinned at h
  split_ifs at h
  obtain ⟨r, hr, rfl⟩ := Option.map_eq_some_iff.mp h
  obtain ⟨hr, hs⟩ := Option.filter_eq_some_iff.mp hr
  exact ⟨r, hr, hs, rfl⟩

lemma pinned_none (h : s.pinned n wanted = none) (hu : s.update = false) : Unlocked s.records n wanted := by
  intro locked hl
  rw [SourceResolver.pinned, hu, hl] at h
  cases hs : locked.sameSource wanted with
  | false => rfl
  | true => simp [Option.filter, hs] at h

lemma commit_cases {c : String} (h : s.commit C n wanted out = some (c, next)) :
    next = s ∧ s.pinned n wanted = some c ∨
    s.pinned n wanted = none ∧ ∃ memo, next = { s with resolved := memo } ∧ Grows s.resolved memo ∧
      memo[(wanted.url, wanted.reference)]? = some c := by
  unfold SourceResolver.commit at h
  split at h
  · rename_i hp
    split_ifs at h
    cases h
    exact .inl ⟨rfl, hp⟩
  · rename_i hp
    split at h
    · rename_i hm
      cases h
      exact .inr ⟨hp, s.resolved, rfl, fun _ _ h => h, hm⟩
    · rename_i hm
      obtain ⟨c', hc, h⟩ := Option.bind_eq_some_iff.mp h
      obtain ⟨_, -, h⟩ := Option.bind_eq_some_iff.mp h
      cases h
      refine .inr ⟨hp, _, rfl, fun k c hk => ?_, ExtTreeMap.getElem?_insert_self⟩
      rw [ExtTreeMap.getElem?_insert]
      split_ifs with heq
      · rw [← LawfulEqOrd.compare_eq_iff_eq.mp heq, hm] at hk
        cases hk
      · exact hk

lemma resolve_resolves : Resolves s n (s.resolve C n source out).1 (s.resolve C n source out).2 := by
  have hs : Resolves s n s.refuse.1 s.refuse.2 := .refused fun _ _ h => h
  unfold SourceResolver.resolve
  split
  · exact hs
  · cases out.url with
    | none => exact hs
    | some url =>
      dsimp only
      cases hc : s.commit C n ⟨url, source.reference, source.path, ""⟩ out with
      | none => exact hs
      | some found =>
        obtain ⟨c, s'⟩ := found
        dsimp only
        rcases commit_cases hc with ⟨rfl, hp⟩ | ⟨hp, memo, rfl, hg, hm⟩
        · obtain ⟨locked, hl, hsa, rfl⟩ := pinned_some hp
          split_ifs
          · exact .pinned hl hsa rfl
          · exact hs
        · split_ifs
          · exact .fetched hg hm fun hu => pinned_none hp hu
          · exact .refused hg

lemma resolve_cases (h : s.step C (.resolve n source out) = some (a, next)) : Resolves s n a next := by
  have hr := @resolve_resolves C s n source out
  rwa [Option.some.inj h] at hr

lemma override_concat : override old (answers ++ [a]) =
    match a with
    | .resolved n r => (override old answers).insert n r
    | _ => override old answers := by
  rw [override, List.foldl_concat]
  rfl

lemma override_eq_empty (h : override old answers = ∅) : old = ∅ := by
  induction answers using List.reverseRecOn with
  | nil => exact h
  | append_singleton answers a ih =>
    rw [override_concat] at h
    cases a with
    | resolved n r => exact absurd h ExtTreeMap.insert_ne_empty
    | refused | finished | unfinished | cancelled => exact ih h

lemma override_other (h : ∀ r, .resolved n r ∉ answers) : (override old answers)[n]? = old[n]? := by
  induction answers using List.reverseRecOn with
  | nil => rfl
  | append_singleton answers a ih =>
    have hn := ih fun r hr => h r (mem_append_left _ hr)
    rw [override_concat]
    cases a with
    | resolved k r =>
      have hk : k ≠ n := by
        rintro rfl
        exact h r (mem_append_right _ (mem_singleton.mpr rfl))
      rw [ExtTreeMap.getElem?_insert, if_neg fun heq => hk (LawfulEqOrd.compare_eq_iff_eq.mp heq)]
      exact hn
    | refused | finished | unfinished | cancelled => exact hn

lemma Pinned.silent (h : Pinned old answers s) (ha : ∀ n r, a ≠ .resolved n r) (hu : next.update = s.update)
    (hr : next.records = s.records) (hg : Grows s.resolved next.resolved) : Pinned old (answers ++ [a]) next := by
  have hm : ∀ {n r}, .resolved n r ∈ answers ++ [a] → .resolved n r ∈ answers := fun hm =>
    (mem_append.mp hm).resolve_right fun hm => ha _ _ (mem_singleton.mp hm).symm
  refine ⟨hu.trans h.update, ?_, fun n r locked hn => h.kept n r locked (hm hn), fun n r hn hu => ?_⟩
  · rw [hr, h.records, override_concat]
    cases a with
    | resolved n r => exact absurd rfl (ha n r)
    | refused | finished | unfinished | cancelled => rfl
  · exact hg _ _ (h.memo n r (hm hn) hu)

lemma Pinned.record {memo : Memo} (h : Pinned old answers s) (hg : Grows s.resolved memo)
    (hk : ∀ locked, old[n]? = some locked → locked.sameSource r = true → r.commit = locked.commit)
    (hm : Unlocked old n r → memo[(r.url, r.reference)]? = some r.commit) :
    Pinned old (answers ++ [.resolved n r]) { s with resolved := memo, records := s.records.insert n r } := by
  refine ⟨h.update, by rw [h.records, override_concat], fun k q locked hq => ?_, fun k q hq hu => ?_⟩
  · rcases mem_append.mp hq with hq | hq
    · exact h.kept k q locked hq
    · cases mem_singleton.mp hq
      exact hk locked
  · rcases mem_append.mp hq with hq | hq
    · exact hg _ _ (h.memo k q hq hu)
    · cases mem_singleton.mp hq
      exact hm hu

def Event.asked : Event → Option String
  | .resolve namespace_ _ _ => some namespace_
  | .finish _ _ | .cancel => none

-- The record of a namespace that was not asked for yet is still the locked one.
lemma step_pins (hs : Pinned old answers s) (hnew : ∀ n, event.asked = some n → ∀ r, .resolved n r ∉ answers)
    (h : s.step C event = some (a, next)) : Pinned old (answers ++ [a]) next := by
  cases event with
  | resolve n source out =>
    have ho : s.records[n]? = old[n]? := by rw [hs.records, override_other (hnew n rfl)]
    cases resolve_cases h with
    | refused hg => exact hs.silent nofun rfl rfl hg
    | @pinned r locked hl hsa hc =>
      rw [ho] at hl
      refine hs.record (fun _ _ h => h) (fun other hother _ => ?_) fun hu => ?_
      · rw [hl] at hother
        cases hother
        exact hc
      · rw [hu locked hl] at hsa
        cases hsa
    | fetched hg hr hn =>
      refine hs.record hg (fun locked hl hsa => ?_) fun _ => hr
      rw [hn hs.update locked (ho.trans hl)] at hsa
      cases hsa
  | finish written late =>
    simp only [SourceResolver.step, SourceResolver.finish] at h
    split_ifs at h <;> cases h <;> exact hs.silent nofun rfl rfl fun _ _ h => h
  | cancel =>
    cases h
    exact hs.silent nofun rfl rfl fun _ _ h => h

lemma step_asked (h : s.step C event = some (.resolved n r, next)) : event.asked = some n := by
  cases event with
  | resolve m source out => cases resolve_cases h <;> rfl
  | finish written late =>
    simp only [SourceResolver.step, SourceResolver.finish] at h
    split_ifs at h <;> cases h
  | cancel => cases h

lemma Published.keep (h : Published yaml answers s) (hl : next.lock = s.lock) (hy : next.yaml = s.yaml)
    (hf : a = .refused ∨ s.failed = true → next.failed = true)
    (hc : a = .cancelled ∨ s.cancelled = true → next.cancelled = true) : Published yaml (answers ++ [a]) next := by
  refine ⟨fun hm => hf ?_, fun hm => hc ?_, fun ho => hy.trans (h.still (hl ▸ ho)), fun ho => ?_⟩
  · exact (mem_append.mp hm).symm.imp (fun hm => (mem_singleton.mp hm).symm) h.failed
  · exact (mem_append.mp hm).symm.imp (fun hm => (mem_singleton.mp hm).symm) h.cancelled
  · obtain ⟨earlier, later, rfl, hr, hcan, hya⟩ := h.done (hl ▸ ho)
    exact ⟨earlier, later ++ [a], by simp, hr, hcan, hy ▸ hya⟩

lemma Published.close (h : Published yaml answers s) (hf : s.failed = false) (hc : s.cancelled = false)
    {written : Option Records} (hw : written.getD ∅ = override (yaml.getD ∅) answers) :
    Published yaml (answers ++ [.finished]) { s with yaml := written, lock := false } := by
  refine ⟨fun hm => h.failed (by simpa using hm), fun hm => h.cancelled (by simpa using hm), nofun, fun _ => ?_⟩
  refine ⟨answers, [], rfl, fun hm => ?_, fun hm => ?_, hw⟩
  · rw [h.failed hm] at hf
    cases hf
  · rw [h.cancelled hm] at hc
    cases hc

lemma step_published (hs : Pinned (yaml.getD ∅) answers s) (hp : Published yaml answers s)
    (h : s.step C event = some (a, next)) : Published yaml (answers ++ [a]) next := by
  cases event with
  | resolve n source out =>
    cases resolve_cases h with
    | refused => exact hp.keep rfl rfl (fun _ => rfl) fun h => h.resolve_left nofun
    | pinned | fetched => exact hp.keep rfl rfl (fun h => h.resolve_left nofun) fun h => h.resolve_left nofun
  | cancel =>
    cases h
    exact hp.keep rfl rfl (fun h => h.resolve_left nofun) fun _ => rfl
  | finish written late =>
    simp only [SourceResolver.step, SourceResolver.finish] at h
    split_ifs at h with hb he hl hw <;> cases h
    · exact hp.keep rfl rfl (fun h => h.resolve_left nofun) fun h => h.resolve_left nofun
    · simp only [not_or, Bool.not_eq_true, Bool.not_eq_eq_eq_not, Bool.not_true, Bool.not_eq_false] at hb
      have hn := ExtTreeMap.isEmpty_iff.mp he
      rw [hs.records] at hn
      refine hp.close hb.2.2 hb.1 ?_
      rw [hp.still hb.2.1, hn, override_eq_empty hn]
    · exact hp.keep rfl rfl (fun h => h.resolve_left nofun) fun _ => rfl
    · simp only [not_or, Bool.not_eq_true, Bool.not_eq_eq_eq_not, Bool.not_true, Bool.not_eq_false] at hb
      exact hp.close hb.2.2 hb.1 hs.records
    · exact hp.keep rfl rfl (fun h => h.resolve_left nofun) fun h => h.resolve_left nofun

structure Transacted (yaml : Option Records) (events : List Event) (answers : List Answer) (s : SourceResolver) :
    Prop where
  asked : ∀ n r, .resolved n r ∈ answers → n ∈ events.filterMap Event.asked
  pinned : Pinned (yaml.getD ∅) answers s
  published : Published yaml answers s

lemma run_transacted {events : List Event} {last : SourceResolver}
    (hrun : Machine.run (SourceResolver.step · C) (.openInner yaml false) events = some (answers, last))
    (hnodup : (events.filterMap Event.asked).Nodup) : Transacted yaml events answers last := by
  have hst : Transacted yaml [] [] (.openInner yaml false) :=
    ⟨nofun, ⟨rfl, rfl, nofun, nofun⟩, ⟨nofun, nofun, fun _ => rfl, nofun⟩⟩
  refine Machine.run_trace (P := fun events answers s => (events.filterMap Event.asked).Nodup →
    Transacted yaml events answers s) (fun events answers s event a next ih hs hnd => ?_) [] []
      (fun _ => hst) hrun hnodup
  rw [filterMap_append] at hnd
  have ht := ih hnd.of_append_left
  have hnew : ∀ n, event.asked = some n → ∀ r, .resolved n r ∉ answers := by
    intro n he r hr
    refine disjoint_of_nodup_append hnd (ht.asked n r hr) ?_
    simp [he]
  refine ⟨fun n r hr => ?_, step_pins ht.pinned hnew hs, step_published ht.pinned ht.published hs⟩
  rw [filterMap_append, mem_append]
  rcases mem_append.mp hr with hr | hr
  · exact .inl (ht.asked n r hr)
  · cases mem_singleton.mp hr
    simp [step_asked hs]

/-- A transaction asks for each namespace once. -/
theorem git_pins {C : Checks} {yaml : Option Records} {events : List Event} {answers : List Answer}
    {last : SourceResolver}
    (hrun : Machine.run (SourceResolver.step · C) (.openInner yaml false) events = some (answers, last))
    (hnodup : (events.filterMap Event.asked).Nodup) :
    (∀ n r locked, .resolved n r ∈ answers → (yaml.getD ∅)[n]? = some locked → locked.sameSource r = true →
      r.commit = locked.commit) ∧
    (∀ n r n' r', .resolved n r ∈ answers → .resolved n' r' ∈ answers → Unlocked (yaml.getD ∅) n r →
      Unlocked (yaml.getD ∅) n' r' → r.url = r'.url → r.reference = r'.reference → r.commit = r'.commit) ∧
    Published yaml answers last := by
  obtain ⟨-, hs, hp⟩ := run_transacted hrun hnodup
  refine ⟨hs.kept, ?_, hp⟩
  intro n r n' r' hm hm' hn hn' hu href
  have hc := hs.memo n r hm hn
  rw [hu, href, hs.memo n' r' hm' hn'] at hc
  exact (Option.some.inj hc).symm

def lockedArm : Records := (∅ : Records).insert "arm" ⟨"repo", "main", "m", "c1"⟩

def lenient : Checks := ⟨fun _ => true, fun _ => true, fun _ => true⟩

def ask (namespace_ reference path served : String) : Event :=
  .resolve namespace_ ⟨"repo", reference, path⟩ ⟨true, some "repo", true, true, true, some served, some namespace_⟩

-- The arm is resolved from another ref, and then from that of its record, which has moved on.
theorem git_pin_lost : (Machine.run (SourceResolver.step · lenient) (.openInner (some lockedArm) false)
      [ask "arm" "dev" "m" "c2", ask "arm" "main" "m" "c3"]).map Prod.fst =
    some [.resolved "arm" ⟨"repo", "dev", "m", "c2"⟩, .resolved "arm" ⟨"repo", "main", "m", "c3"⟩] := by
  decide +kernel

-- The remote moves on after each resolve, and the path of the arm is written in another way.
def moving : List Event :=
  [ask "arm" "main" "m/" "c2", ask "leg" "main" "m" "c3", ask "tail" "main" "." "c4", .finish true false]

theorem git_pins_arm : ∃ last arm leg tail,
    Machine.run (SourceResolver.step · lenient) (.openInner (some lockedArm) false) moving =
      some ([.resolved "arm" arm, .resolved "leg" leg, .resolved "tail" tail, .finished], last) ∧
    arm.commit = "c1" ∧ leg.commit = tail.commit ∧ leg.commit = "c3" ∧ last.lock = false := by
  have h : (Machine.run (SourceResolver.step · lenient) (.openInner (some lockedArm) false) moving).map
        (fun out => (out.1, out.2.lock)) = some ([.resolved "arm" ⟨"repo", "main", "m/", "c1"⟩,
      .resolved "leg" ⟨"repo", "main", "m", "c3"⟩, .resolved "tail" ⟨"repo", "main", ".", "c3"⟩, .finished],
        false) := by
    decide +kernel
  obtain ⟨⟨answers, last⟩, hr, ho⟩ := Option.map_eq_some_iff.mp h
  obtain ⟨rfl, hl⟩ := Prod.mk.inj ho
  obtain ⟨hk, hm, -⟩ := git_pins hr (by decide)
  have hn : ∀ n, n ≠ "arm" → ∀ r, Unlocked ((some lockedArm).getD ∅) n r := by
    intro n hn r locked h
    simp [lockedArm, hn.symm] at h
  exact ⟨last, _, _, _, hr, hk "arm" _ ⟨"repo", "main", "m", "c1"⟩ (by simp) (by decide +kernel)
    (by decide +kernel),
    hm "leg" _ "tail" _ (by simp) (by simp) (hn _ (by decide) _) (hn _ (by decide) _) rfl rfl, rfl, hl⟩

end Reiny.Launch.Acquire
