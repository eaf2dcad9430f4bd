import Reiny.Process.Agreement
import Reiny.Process.StepClient
import Reiny.Step.Settlement

namespace Reiny.Process

open Std Lib Results Checked Machine Maps Step List Client

def Stage.id : Stage → Option ℕ
  | .free | .poisoned => none
  | .loading id _ _ _ | .summing id _ _ _ _ | .starting id _ _ | .entering id _ _ | .calling id _ _
  | .handing id _ _ _ | .recording id _ _ _ => some id

def Stage.unhanded : Stage → Option ℕ
  | .loading id _ _ _ | .summing id _ _ _ _ | .starting id _ _ => some id
  | .free | .poisoned | .entering _ _ _ | .calling _ _ _ | .handing _ _ _ _ | .recording _ _ _ _ => none

def Client.Presented (c : Client) (id : ℕ) : Prop := ∃ high, c.highWater = some high ∧ id ≤ high

def Silent : ClientReply → Prop
  | .handed _ | .admitted _ _ => False
  | .working | .run _ | .refused _ | .observed _ | .released | .panicked | .owner _ => True

inductive ClientMove (payload : Payload) (c : Client) : ClientReply → Client → Prop
  | quiet (reply : ClientReply) (hreply : Silent reply) : ClientMove payload c reply c
  | raise (id : ℕ) (active : Option ℕ) (error : ProcessStepStartError) (hfree : c.stage = .free)
      (hnew : ¬ c.Presented id) (hactive : active = c.active ∨ active = none ∧ c.busy = none) :
      ClientMove payload c (.refused error) { c with highWater := some id, active }
  | present (id : ℕ) (request : StepRequest) (timeout : Duration) (bytes : ℕ) (hfree : c.stage = .free)
      (hnew : ¬ c.Presented id) (hfound : c.records[id]? = none) (hroom : c.records.size < 64)
      (hidle : c.busy = none)
      (hinputs : checkInputs payload request = .ok bytes) :
      ClientMove payload c .working
        { c with highWater := some id, active := none, stage := .loading id request timeout bytes }
  | release (id : ℕ) (hfree : c.stage = .free) :
      ClientMove payload c .released { c with records := c.records.erase id }
  | abandon (error : ProcessStepStartError) : ClientMove payload c (.refused error) { c with stage := .free }
  | load (id : ℕ) (request : StepRequest) (timeout : Duration) (bytes retained : ℕ)
      (hstage : c.stage = .loading id request timeout bytes)
      (h : baseTotal c.owner.retention bytes = some retained) :
      ClientMove payload c .working
        { c with stage := .summing id request timeout retained (c.records.toList.map Prod.snd) }
  | count (id : ℕ) (request : StepRequest) (timeout : Duration) (retained retained' : ℕ) (record : Record)
      (left : List Record) (hstage : c.stage = .summing id request timeout retained (record :: left))
      (h : addRecord c.owner.session retained record = some retained') :
      ClientMove payload c .working { c with stage := .summing id request timeout retained' left }
  | reserve (id : ℕ) (request : StepRequest) (timeout : Duration) (retained : ℕ)
      (hstage : c.stage = .summing id request timeout retained []) (h : retained < MAX_RETAINED_BYTES) :
      ClientMove payload c .working
        { c with owner := c.owner.reserve (MAX_RETAINED_BYTES - retained), stage := .starting id request timeout }
  | hand (id : ℕ) (request : StepRequest) (timeout : Duration) (hstage : c.stage = .starting id request timeout) :
      ClientMove payload c (.handed id) { c with stage := .entering id request timeout }
  | call (id : ℕ) (request : StepRequest) (timeout : Duration) (event : Event) (reply : Reply) (session : Session)
      (hstage : ((c.stage = .entering id request timeout ∧ event = .start 0 request (some timeout)) ∨
        c.stage = .calling id request timeout ∧ (event = .accept 0 ∨ event = .retry 0)) ∨
        ∃ run, c.stage = .handing id request timeout run ∧ event = .handOver 0)
      (h : c.owner.session.step event = some (reply, session)) :
      ClientMove payload c (settle id request timeout reply).1
        { c with
          owner := c.owner.observe reply session
          stage := (settle id request timeout reply).2 }
  | record (id : ℕ) (request : StepRequest) (timeout : Duration) (run : ℕ)
      (hstage : c.stage = .recording id request timeout run) :
      ClientMove payload c (.admitted id ⟨request, timeout, run⟩)
        { c with active := some run, records := c.records.insert id ⟨request, timeout, run⟩, stage := .free }
  | owner (event : OwnerEvent) (reply : OwnerReply) (owner : Owner) (hevent : isOthers event = true)
      (h : c.owner.step event = some (reply, owner)) : ClientMove payload c (.owner reply) { c with owner }

variable {payload : Payload} {c c' : Client} {reply : ClientReply} {request : StepRequest} {timeout : Duration}

lemma not_presented {id : ℕ} (h : ¬ c.highWater.any (id ≤ ·) = true) : ¬ c.Presented id := by
  rintro ⟨high, hh, hle⟩
  rw [hh] at h
  exact h (by simpa using hle)

lemma present_move {id : ℕ} (hfr : c.stage = .free) (h : c.present payload id request timeout = (reply, c')) :
    ClientMove payload c reply c' := by
  unfold present at h
  split at h
  · cases h
    refine .quiet _ ?_
    split_ifs <;> trivial
  · rename_i hf
    split_ifs at h with hh
    · cases h
      exact .quiet _ trivial
    · have hn := not_presented hh
      dsimp only at h
      split_ifs at h with hr
      · cases h
        exact .raise id c.active _ hfr hn (Or.inl rfl)
      · split at h
        · cases h
          exact .raise id c.active _ hfr hn (Or.inl rfl)
        · rename_i hid
          split at h
          · cases h
            exact .raise id none _ hfr hn (Or.inr ⟨rfl, hid⟩)
          · rename_i bytes hin
            cases h
            exact .present id request timeout bytes hfr hn hf (Nat.not_le.mp hr) hid hin

lemma tryStep_move (hf : c.stage = .free) (h : c.tryStep payload request timeout = (reply, c')) :
    ClientMove payload c reply c' := by
  unfold tryStep at h
  split at h
  · exact present_move hf h
  · split at h
    · cases h
      exact .quiet _ trivial
    · exact present_move hf h

lemma release_move {id : ℕ} (hf : c.stage = .free) (h : c.release id = (reply, c')) :
    ClientMove payload c reply c' := by
  unfold release at h
  split_ifs at h
  · cases h
    exact .release id hf
  · cases h
    exact .quiet _ trivial

lemma observe_silent (c : Client) (id : ℕ) : Silent (c.observe id) := by
  unfold observe
  split
  · trivial
  · split_ifs <;> trivial

lemma call_move {id : ℕ} {event : Event}
    (hst : ((c.stage = .entering id request timeout ∧ event = .start 0 request (some timeout)) ∨
      c.stage = .calling id request timeout ∧ (event = .accept 0 ∨ event = .retry 0)) ∨
      ∃ run, c.stage = .handing id request timeout run ∧ event = .handOver 0)
    (h : c.call event (settle id request timeout) = some (reply, c')) :
    ClientMove payload c reply c' := by
  unfold call at h
  split at h
  · cases h
  · rename_i answered session hs
    cases h
    exact .call id request timeout event answered session hst hs

lemma proceed_move (h : c.proceed = some (reply, c')) : ClientMove payload c reply c' := by
  unfold proceed at h
  split at h
  · cases h
  · cases h
  · rename_i id request timeout bytes hst
    split at h
    · cases h
      exact .abandon _
    · rename_i retained hb
      cases h
      exact .load id request timeout bytes retained hst hb
  · rename_i id request timeout retained record left hst
    split at h
    · cases h
      exact .abandon _
    · rename_i retained' ha
      cases h
      exact .count id request timeout retained retained' record left hst ha
  · rename_i id request timeout retained hst
    split_ifs at h with hf
    · cases h
      exact .reserve id request timeout retained hst hf
    · cases h
      exact .abandon _
  · rename_i id request timeout hst
    cases h
    exact .hand id request timeout hst
  · rename_i id request timeout hst
    exact call_move (Or.inl (.inl ⟨hst, rfl⟩)) h
  · rename_i id request timeout hst
    split at h
    · exact call_move (Or.inl (.inr ⟨hst, .inl rfl⟩)) h
    · exact call_move (Or.inl (.inr ⟨hst, .inr rfl⟩)) h
    · cases h
  · rename_i id request timeout run hst
    exact call_move (Or.inr ⟨run, hst, rfl⟩) h
  · rename_i id request timeout run hst
    cases h
    exact .record id request timeout run hst

lemma locked_cases {f : ClientReply × Client} (h : c.locked f = some (reply, c')) :
    c.stage = .free ∧ f = (reply, c') ∨ c.stage = .poisoned ∧ c' = c ∧ reply = .refused .ownerUnknown := by
  unfold locked at h
  split at h
  · rename_i hf
    cases h
    exact .inl ⟨hf, rfl⟩
  · rename_i hp
    cases h
    exact .inr ⟨hp, rfl, rfl⟩
  · cases h

theorem client_move {event : ClientEvent} (h : c.step payload event = some (reply, c')) :
    ClientMove payload c reply c' := by
  cases event with
  | tryStep request timeout =>
    rcases locked_cases h with ⟨hf, h⟩ | ⟨-, rfl, rfl⟩
    · exact tryStep_move hf h
    · exact .quiet _ trivial
  | start id request timeout =>
    rcases locked_cases h with ⟨hf, h⟩ | ⟨-, rfl, rfl⟩
    · exact present_move hf h
    · exact .quiet _ trivial
  | observe id =>
    rcases locked_cases h with ⟨-, h⟩ | ⟨-, rfl, rfl⟩
    · cases h
      exact .quiet _ (observe_silent c id)
    · exact .quiet _ trivial
  | release id =>
    rcases locked_cases h with ⟨hf, h⟩ | ⟨-, rfl, rfl⟩
    · exact release_move hf h
    · exact .quiet _ trivial
  | proceed => exact proceed_move h
  | owner event =>
    simp only [step] at h
    split_ifs at h with hev
    obtain ⟨⟨answered, owner⟩, hs, heq⟩ := Option.map_eq_some_iff.mp h
    cases heq
    exact .owner event answered owner hev hs

def handedIds (replies : List ClientReply) : List ℕ :=
  replies.filterMap fun
    | .handed id => some id
    | _ => none

structure Correlated (replies : List ClientReply) (c : Client) : Prop where
  once : (handedIds replies).Nodup
  below : ∀ id ∈ handedIds replies, c.Presented id
  current : ∀ id, c.stage.id = some id → c.highWater = some id ∧ c.records[id]? = none
  unhanded : ∀ id, c.stage.unhanded = some id → id ∉ handedIds replies
  records : ∀ (id : ℕ) record, c.records[id]? = some record → c.Presented id ∧ .admitted id record ∈ replies
  admitted : ∀ id record, .admitted id record ∈ replies → c.Presented id ∧ c.stage.id ≠ some id ∧
    ∀ other, c.records[id]? = some other → other = record
  room : c.records.size ≤ 64 ∧ (c.stage.id ≠ none → c.records.size < 64)

variable {replies : List ClientReply}

lemma handedIds_silent (h : Silent reply) : handedIds (replies ++ [reply]) = handedIds replies := by
  cases reply with
  | handed | admitted => cases h
  | _ => simp [handedIds]

lemma mem_silent (h : Silent reply) {id : ℕ} {record : Record} :
    .admitted id record ∈ replies ++ [reply] ↔ .admitted id record ∈ replies := by
  rw [mem_append, mem_singleton, or_iff_left]
  rintro rfl
  cases h

lemma Correlated.silent (h : Correlated replies c) (hrep : Silent reply) (hh : c'.highWater = c.highWater)
    (hr : c'.records = c.records) (hid : c'.stage.id = c.stage.id ∨ c'.stage.id = none)
    (hu : c'.stage.unhanded = c.stage.unhanded ∨ c'.stage.unhanded = none) :
    Correlated (replies ++ [reply]) c' := by
  have hpr : ∀ id, c'.Presented id ↔ c.Presented id := by
    intro id
    rw [Client.Presented, Client.Presented, hh]
  refine ⟨?_, ?_, ?_, ?_, ?_, ?_, ?_⟩
  · rw [handedIds_silent hrep]
    exact h.once
  · intro id hm
    rw [handedIds_silent hrep] at hm
    exact (hpr id).mpr (h.below id hm)
  · intro id hst
    rw [hh, hr]
    rcases hid with hid | hid
    · exact h.current id (hid ▸ hst)
    · rw [hid] at hst
      cases hst
  · intro id hst
    rw [handedIds_silent hrep]
    rcases hu with hsa | hn
    · exact h.unhanded id (hsa ▸ hst)
    · rw [hn] at hst
      cases hst
  · intro id record hrec
    rw [hr] at hrec
    obtain ⟨hp, hm⟩ := h.records id record hrec
    exact ⟨(hpr id).mpr hp, (mem_silent hrep).mpr hm⟩
  · intro id record hm
    obtain ⟨hp, hst, hsa⟩ := h.admitted id record ((mem_silent hrep).mp hm)
    refine ⟨(hpr id).mpr hp, ?_, ?_⟩
    · rcases hid with hid | hid
      · rwa [hid]
      · rw [hid]
        exact nofun
    · rw [hr]
      exact hsa
  · rw [hr]
    refine ⟨h.room.1, ?_⟩
    intro hs
    rcases hid with hid | hid
    · exact h.room.2 (hid ▸ hs)
    · exact absurd hid hs

lemma Correlated.raise (h : Correlated replies c) (hrep : Silent reply) {id : ℕ} (hnew : ¬ c.Presented id)
    (hh : c'.highWater = some id) (hre : c'.records = c.records)
    (hst : c'.stage.id = none ∨ c'.stage.id = some id ∧ c.records.size < 64)
    (hu : ∀ other, c'.stage.unhanded = some other → other = id) : Correlated (replies ++ [reply]) c' := by
  have hpr : ∀ other, c.Presented other → c'.Presented other := by
    rintro other ⟨high, hold, hle⟩
    refine ⟨id, hh, hle.trans ?_⟩
    by_contra hlt
    exact hnew ⟨high, hold, by omega⟩
  refine ⟨?_, ?_, ?_, ?_, ?_, ?_, ?_⟩
  · rw [handedIds_silent hrep]
    exact h.once
  · intro other hm
    rw [handedIds_silent hrep] at hm
    exact hpr other (h.below other hm)
  · intro other ho
    rcases hst with hn | ⟨hs, -⟩
    · rw [hn] at ho
      cases ho
    · rw [hs] at ho
      cases ho
      refine ⟨hh, ?_⟩
      rw [hre, Option.eq_none_iff_forall_ne_some]
      intro record hrec
      exact hnew (h.records id record hrec).1
  · intro other ho
    rw [handedIds_silent hrep, hu other ho]
    exact fun hm => hnew (h.below id hm)
  · intro other record hrec
    rw [hre] at hrec
    obtain ⟨hp, hm⟩ := h.records other record hrec
    exact ⟨hpr other hp, (mem_silent hrep).mpr hm⟩
  · intro other record hm
    obtain ⟨hp, -, hsa⟩ := h.admitted other record ((mem_silent hrep).mp hm)
    refine ⟨hpr other hp, ?_, by rw [hre]; exact hsa⟩
    rcases hst with hn | ⟨hs, -⟩
    · rw [hn]
      exact nofun
    · rw [hs]
      rintro ⟨⟩
      exact hnew hp
  · rw [hre]
    refine ⟨h.room.1, ?_⟩
    intro hs
    rcases hst with hn | ⟨-, hr⟩
    · exact absurd hn hs
    · exact hr

lemma settle_silent (id : ℕ) (request : StepRequest) (timeout : Duration) (answered : Reply) :
    Silent (settle id request timeout answered).1 ∧
      ((settle id request timeout answered).2.id = some id ∨
        (settle id request timeout answered).2.id = none) ∧
      (settle id request timeout answered).2.unhanded = none := by
  unfold settle
  split
  · exact ⟨trivial, .inr rfl, rfl⟩
  · exact ⟨trivial, .inl rfl, rfl⟩
  · exact ⟨trivial, .inl rfl, rfl⟩
  · exact ⟨trivial, .inr rfl, rfl⟩
  · exact ⟨trivial, .inl rfl, rfl⟩

lemma Correlated.hand (h : Correlated replies c) {id : ℕ} (hst : c.stage = .starting id request timeout) :
    Correlated (replies ++ [.handed id]) { c with stage := .entering id request timeout } := by
  have hc : c.stage.id = some id := by rw [hst]; rfl
  have hfr := h.unhanded id (by rw [hst]; rfl)
  have hids : handedIds (replies ++ [.handed id]) = handedIds replies ++ [id] := by simp [handedIds]
  have hm : ∀ other record, .admitted other record ∈ replies ++ [.handed id] ↔
    .admitted other record ∈ replies := by
    intro other record
    simp
  refine ⟨?_, ?_, ?_, nofun, ?_, ?_, ?_⟩
  · rw [hids]
    exact h.once.append (nodup_singleton id) (disjoint_singleton.mpr hfr)
  · intro other ho
    rw [hids, mem_append, mem_singleton] at ho
    rcases ho with hold | rfl
    · exact h.below other hold
    · exact ⟨other, (h.current other hc).1, le_rfl⟩
  · intro other ho
    cases ho
    exact h.current id hc
  · intro other record hr
    obtain ⟨hp, hold⟩ := h.records other record hr
    exact ⟨hp, (hm other record).mpr hold⟩
  · intro other record ha
    obtain ⟨hp, hne, hs⟩ := h.admitted other record ((hm other record).mp ha)
    rw [hc] at hne
    exact ⟨hp, hne, hs⟩
  · exact ⟨h.room.1, fun _ => h.room.2 (by rw [hc]; exact nofun)⟩

lemma Correlated.record (h : Correlated replies c) {id run : ℕ}
    (hst : c.stage = .recording id request timeout run) :
    Correlated (replies ++ [.admitted id ⟨request, timeout, run⟩])
      { c with active := some run, records := c.records.insert id ⟨request, timeout, run⟩, stage := .free } := by
  have hc : c.stage.id = some id := by rw [hst]; rfl
  obtain ⟨hh, hn⟩ := h.current id hc
  have hids : handedIds (replies ++ [.admitted id ⟨request, timeout, run⟩]) = handedIds replies := by
    simp [handedIds]
  have hg : ∀ (other : ℕ) record, (c.records.insert id ⟨request, timeout, run⟩)[other]? = some record ↔
      if id = other then record = ⟨request, timeout, run⟩ else c.records[other]? = some record := by
    intro other record
    rw [ExtTreeMap.getElem?_insert]
    simp only [LawfulEqOrd.compare_eq_iff_eq]
    split_ifs
    · rw [Option.some.injEq, eq_comm]
    · rfl
  refine ⟨?_, ?_, nofun, nofun, ?_, ?_, ?_⟩
  · rw [hids]
    exact h.once
  · rw [hids]
    exact h.below
  · intro other record hrec
    rw [hg] at hrec
    split_ifs at hrec with hs
    · subst hs
      subst hrec
      exact ⟨⟨id, hh, le_rfl⟩, mem_append_right _ (mem_singleton_self _)⟩
    · obtain ⟨hp, hold⟩ := h.records other record hrec
      exact ⟨hp, mem_append_left _ hold⟩
  · intro other record ha
    rcases mem_append.mp ha with hold | hnew
    · obtain ⟨hp, hne, hs⟩ := h.admitted other record hold
      refine ⟨hp, nofun, ?_⟩
      intro found hf
      rw [hg] at hf
      split_ifs at hf with ho
      · exact absurd (ho ▸ hc) hne
      · exact hs found hf
    · cases mem_singleton.mp hnew
      refine ⟨⟨id, hh, le_rfl⟩, nofun, ?_⟩
      intro found hf
      rw [hg, if_pos rfl] at hf
      exact hf
  · have hr := h.room.2 (by rw [hc]; exact nofun)
    refine ⟨?_, fun hne => absurd rfl hne⟩
    rw [ExtTreeMap.size_insert]
    split_ifs <;> omega

lemma Correlated.release (h : Correlated replies c) (id : ℕ) (hfr : c.stage = .free) :
    Correlated (replies ++ [.released]) { c with records := c.records.erase id } := by
  have hsub : ∀ (other : ℕ) record, (c.records.erase id)[other]? = some record →
    c.records[other]? = some record := by
    intro other record hr
    rw [ExtTreeMap.getElem?_erase] at hr
    split_ifs at hr
    exact hr
  have hn : c.stage.id = none := by rw [hfr]; rfl
  have hs : Silent .released := trivial
  refine ⟨?_, ?_, ?_, ?_, ?_, ?_, ?_⟩
  · rw [handedIds_silent hs]
    exact h.once
  · rw [handedIds_silent hs]
    exact h.below
  · intro other ho
    change c.stage.id = some other at ho
    rw [hn] at ho
    cases ho
  · intro other ho
    rw [handedIds_silent hs]
    exact h.unhanded other ho
  · intro other record hr
    obtain ⟨hp, hold⟩ := h.records other record (hsub other record hr)
    exact ⟨hp, (mem_silent hs).mpr hold⟩
  · intro other record ha
    obtain ⟨hp, hne, hsa⟩ := h.admitted other record ((mem_silent hs).mp ha)
    exact ⟨hp, hne, fun found hf => hsa found (hsub other found hf)⟩
  · refine ⟨?_, fun hne => absurd hn hne⟩
    have hsz : (c.records.erase id).size ≤ c.records.size := by
      rw [ExtTreeMap.size_erase]
      split_ifs <;> omega
    exact hsz.trans h.room.1

theorem ClientMove.correlated (hm : ClientMove payload c reply c') (h : Correlated replies c) :
    Correlated (replies ++ [reply]) c' := by
  cases hm with
  | quiet _ hrep => exact h.silent hrep rfl rfl (Or.inl rfl) (Or.inl rfl)
  | raise id active error hfr hnew =>
    refine h.raise trivial hnew rfl rfl (Or.inl ?_) ?_
    · change c.stage.id = none
      rw [hfr]
      rfl
    · intro other ho
      change c.stage.unhanded = some other at ho
      rw [hfr] at ho
      cases ho
  | present id request timeout bytes hfr hnew hf hr =>
    refine h.raise trivial hnew rfl rfl (Or.inr ⟨rfl, hr⟩) ?_
    rintro other ⟨⟩
    rfl
  | release id hfr => exact h.release id hfr
  | abandon error => exact h.silent trivial rfl rfl (Or.inr rfl) (Or.inr rfl)
  | load _ _ _ _ _ hst | count _ _ _ _ _ _ _ hst | reserve _ _ _ _ hst =>
    exact h.silent trivial rfl rfl (Or.inl (by rw [hst]; rfl)) (Or.inl (by rw [hst]; rfl))
  | hand id request timeout hst => exact h.hand hst
  | call id request timeout event answered session hst =>
    have hid : c.stage.id = some id := by
      rcases hst with (⟨hst, -⟩ | ⟨hst, -⟩) | ⟨run, hst, -⟩ <;> rw [hst] <;> rfl
    obtain ⟨hs, hn, hu⟩ := settle_silent id request timeout answered
    refine h.silent hs rfl rfl ?_ (Or.inr hu)
    rw [hid]
    exact hn
  | record id request timeout run hst => exact h.record hst
  | owner => exact h.silent trivial rfl rfl (Or.inl rfl) (Or.inl rfl)

def Client.presents (c : Client) : ClientEvent → Option ℕ
  | .start id _ _ => if c.stage = .free then some id else none
  | .tryStep _ _ =>
    if c.stage = .free then
      match c.highWater with
      | none => some 0
      | some high => checkedAdd U64 high 1
    else none
  | .observe _ | .release _ | .proceed | .owner _ => none

def presentedIds (payload : Payload) : Client → List ClientEvent → List ℕ
  | _, [] => []
  | c, event :: rest =>
    match c.step payload event with
    | none => []
    | some (_, next) => (c.presents event).toList ++ presentedIds payload next rest

variable {id : ℕ} {events : List ClientEvent}

lemma presented_any : c.highWater.any (id ≤ ·) = true ↔ c.Presented id := by
  cases hh : c.highWater with
  | none | some => simp [Client.Presented, hh]

lemma present_presented {request : StepRequest} {timeout : Duration}
    (hre : ∀ record, c.records[id]? = some record → c.Presented id)
    (h : c.present payload id request timeout = (reply, c')) (other : ℕ) :
    c'.Presented other ↔ c.Presented other ∨ other ≤ id := by
  have hs : c.Presented id → (c.Presented other ↔ c.Presented other ∨ other ≤ id) := by
    rintro ⟨high, hh, hle⟩
    refine ⟨Or.inl, fun hor => hor.elim (fun hp => hp) fun ho => ⟨high, hh, ho.trans hle⟩⟩
  unfold present at h
  split at h
  · rename_i record hrec
    cases h
    exact hs (hre record hrec)
  · split_ifs at h with hh
    · cases h
      exact hs (presented_any.mp hh)
    · have hn := not_presented hh
      have hr : c'.highWater = some id := by
        dsimp only at h
        split_ifs at h
        · cases h
          rfl
        · repeat' split at h
          all_goals cases h; rfl
      constructor
      · rintro ⟨high, hso, hle⟩
        rw [hr] at hso
        cases hso
        exact .inr hle
      · rintro (⟨high, hso, hle⟩ | hle)
        · refine ⟨id, hr, hle.trans ?_⟩
          by_contra hlt
          exact hn ⟨high, hso, by omega⟩
        · exact ⟨id, hr, hle⟩

lemma proceed_highWater (h : c.proceed = some (reply, c')) : c'.highWater = c.highWater := by
  have hb : c.stage ≠ .free := by
    intro hf
    rw [proceed, hf] at h
    cases h
  have hm : ClientMove (fun _ => .ok []) c reply c' := proceed_move h
  cases hm with
  | raise _ _ _ hf | present _ _ _ _ hf => exact absurd hf hb
  | _ => rfl

lemma step_presented {event : ClientEvent} (hr : ∀ (id : ℕ) record, c.records[id]? = some record → c.Presented id)
    (h : c.step payload event = some (reply, c')) (other : ℕ) :
    c'.Presented other ↔ c.Presented other ∨ ∃ p ∈ c.presents event, other ≤ p := by
  have hs : c.presents event = none → c'.highWater = c.highWater →
      (c'.Presented other ↔ c.Presented other ∨ ∃ p ∈ c.presents event, other ≤ p) := by
    intro hn hh
    rw [Client.Presented, Client.Presented, hh, hn]
    simp
  have hpr : ∀ id request timeout, c.presents event = some id →
      c.present payload id request timeout = (reply, c') →
      (c'.Presented other ↔ c.Presented other ∨ ∃ p ∈ c.presents event, other ≤ p) := by
    intro id request timeout hso hc
    rw [present_presented (hr id) hc, hso]
    simp
  cases event with
  | tryStep request timeout =>
    rcases locked_cases h with ⟨hf, h⟩ | ⟨hp, rfl, rfl⟩
    · unfold tryStep at h
      split at h
      · rename_i hh
        exact hpr 0 request timeout (by simp [presents, hf, hh]) h
      · rename_i high hh
        split at h
        · rename_i hl
          cases h
          exact hs (by simp [presents, hf, hh, hl]) rfl
        · rename_i id hne
          exact hpr id request timeout (by simp [presents, hf, hh, hne]) h
    · exact hs (by simp [presents, hp]) rfl
  | start id request timeout =>
    rcases locked_cases h with ⟨hf, h⟩ | ⟨hp, rfl, rfl⟩
    · exact hpr id request timeout (by simp [presents, hf]) h
    · exact hs (by simp [presents, hp]) rfl
  | observe id =>
    rcases locked_cases h with ⟨-, h⟩ | ⟨-, rfl, rfl⟩
    · cases h
      exact hs rfl rfl
    · exact hs rfl rfl
  | release id =>
    rcases locked_cases h with ⟨-, h⟩ | ⟨-, rfl, rfl⟩
    · refine hs rfl ?_
      unfold release at h
      split_ifs at h <;> cases h <;> rfl
    · exact hs rfl rfl
  | proceed => exact hs rfl (proceed_highWater h)
  | owner event =>
    simp only [step] at h
    split_ifs at h
    obtain ⟨_, -, heq⟩ := Option.map_eq_some_iff.mp h
    cases heq
    exact hs rfl rfl

lemma run_presented {before : List ClientReply} (hc : Correlated before c)
    (hrun : c.run payload events = some (replies, c')) (other : ℕ) :
    c'.Presented other ↔ c.Presented other ∨ ∃ p ∈ presentedIds payload c events, other ≤ p := by
  induction events generalizing c before replies with
  | nil =>
    cases hrun
    simp [presentedIds]
  | cons event events ih =>
    obtain ⟨reply, next, rest, hs, hre, rfl⟩ := run_cons.mp hrun
    rw [ih ((client_move hs).correlated hc) hre,
      step_presented (fun id record hr => (hc.records id record hr).1) hs,
      presentedIds, hs]
    simp only [mem_append, Option.mem_toList, Option.mem_def, or_assoc]
    constructor
    · rintro (hp | ⟨p, hp, hle⟩ | ⟨p, hp, hle⟩)
      · exact .inl hp
      · exact .inr ⟨p, .inl hp, hle⟩
      · exact .inr ⟨p, .inr hp, hle⟩
    · rintro (hp | ⟨p, hp | hp, hle⟩)
      · exact .inl hp
      · exact .inr (.inl ⟨p, hp, hle⟩)
      · exact .inr (.inr ⟨p, hp, hle⟩)

lemma ClientMove.spent (hm : ClientMove payload c reply c') (hp : c.Presented id)
    (hst : c.stage.unhanded ≠ some id) :
    reply ≠ .handed id ∧ c'.Presented id ∧ c'.stage.unhanded ≠ some id := by
  have hr : ∀ new, ¬ c.Presented new → id < new := by
    intro new hnew
    obtain ⟨high, hh, hle⟩ := hp
    by_contra hlt
    exact hnew ⟨high, hh, by omega⟩
  cases hm with
  | quiet reply hrep =>
    refine ⟨?_, hp, hst⟩
    rintro rfl
    cases hrep
  | raise new active error hf hnew => exact ⟨nofun, ⟨new, rfl, (hr new hnew).le⟩, hst⟩
  | present new request timeout bytes hf hnew =>
    have hlt := hr new hnew
    refine ⟨nofun, ⟨new, rfl, hlt.le⟩, ?_⟩
    rintro ⟨⟩
    exact lt_irrefl _ hlt
  | release | owner => exact ⟨nofun, hp, hst⟩
  | abandon => exact ⟨nofun, hp, nofun⟩
  | load _ _ _ _ _ hb | count _ _ _ _ _ _ _ hb | reserve _ _ _ _ hb =>
    rw [hb] at hst
    exact ⟨nofun, hp, hst⟩
  | hand other request timeout hb =>
    rw [hb] at hst
    refine ⟨?_, hp, nofun⟩
    rintro ⟨⟩
    exact hst rfl
  | call other request timeout event answered =>
    obtain ⟨hs, -, hn⟩ := settle_silent other request timeout answered
    refine ⟨?_, hp, ?_⟩
    · intro heq
      rw [heq] at hs
      cases hs
    · change (settle other request timeout answered).2.unhanded ≠ some id
      rw [hn]
      exact nofun
  | record => exact ⟨nofun, hp, nofun⟩

lemma run_spent (hp : c.Presented id) (hst : c.stage.unhanded ≠ some id)
    (hrun : c.run payload events = some (replies, c')) : .handed id ∉ replies := by
  have hk := run_history
    (P := fun replies c => .handed id ∉ replies ∧ c.Presented id ∧ c.stage.unhanded ≠ some id) ?_
    ⟨not_mem_nil, hp, hst⟩ hrun
  · exact hk.1
  · rintro before s event reply s' ⟨hn, hp, hst⟩ hs
    obtain ⟨hr, hp', hst'⟩ := (client_move hs).spent hp hst
    refine ⟨?_, hp', hst'⟩
    rw [mem_append, mem_singleton]
    rintro (hm | rfl)
    · exact hn hm
    · exact hr rfl

variable {initial : Duration}

lemma ClientMove.steady (hm : ClientMove payload c reply c') (h : Steady initial c.owner) :
    Steady initial c'.owner := by
  cases hm with
  | reserve id request timeout retained => exact (OwnerMove.reserve (MAX_RETAINED_BYTES - retained)).steady h
  | call id request timeout event reply session hst hs =>
    refine (OwnerMove.drive event reply session ?_ hs).steady h
    rintro outcome override rfl
    rcases hst with (⟨-, hev⟩ | ⟨-, hev | hev⟩) | ⟨-, -, hev⟩ <;> cases hev
  | owner event reply owner hev hs => exact (owner_move hs).steady h
  | _ => exact h

lemma new_correlated (o : Owner) : Correlated [] (new o) := by
  refine ⟨nodup_nil, nofun, nofun, nofun, ?_, nofun, Nat.zero_le 64, fun hne => absurd rfl hne⟩
  intro id record hr
  change (∅ : Map ℕ Record)[id]? = some record at hr
  rw [ExtTreeMap.getElem?_empty] at hr
  cases hr

lemma client_history {o : Owner} (ho : Steady initial o) {events : List ClientEvent}
    (hr : (new o).run payload events = some (replies, c)) : Correlated replies c ∧ Steady initial c.owner := by
  have h := run_history (P := fun replies c => Correlated replies c ∧ Steady initial c.owner)
    (fun _ _ _ _ _ h hs => ⟨(client_move hs).correlated h.1, (client_move hs).steady h.2⟩)
    ⟨new_correlated o, ho⟩ hr
  rwa [nil_append] at h

theorem requests_handed_once {α : Type} {planDigest : PlanDigest} {parts : List (Map String α)} {graph : StepGraph}
    {key : StepSessionKey} {horizon epochs next : ℕ} {o : Owner} {sealed : BoundGraph}
    (hprepare : Owner.prepare planDigest parts graph key initial horizon epochs = .ok (o, sealed, next))
    {events : List ClientEvent} (hrun : (new o).run payload events = some (replies, c)) :
    (handedIds replies).Nodup ∧
    (∀ (id : ℕ) record, c.records[id]? = some record →
      (.admitted id record ∈ replies ∧ ∀ other, .admitted id other ∈ replies → other = record) ∧
      ∀ request timeout, c.stage = .free → c.step payload (.start id request timeout) =
        some (if record.request = request ∧ record.timeout = timeout then .run record.run
          else .refused .requestConflict,
          c)) ∧
    (∀ id, ∀ p ∈ presentedIds payload (new o) events, id ≤ p →
      (∀ request timeout, c.records[id]? = none → c.stage = .free →
        c.step payload (.start id request timeout) = some (.refused .released, c)) ∧
      (c.stage.unhanded ≠ some id → ∀ later replies' c', c.run payload later = some (replies', c') →
        .handed id ∉ replies')) ∧
    c.records.size ≤ 64 ∧
    ∀ i j, i < c.owner.session.runs.length → j < c.owner.session.runs.length →
      c.owner.session.retained i = none → c.owner.session.retained j = none → i = j := by
  obtain ⟨hc, hs⟩ := client_history (prepare_ok hprepare).steady hrun
  refine ⟨hc.once, ?_, ?_, hc.room.1, fun i j => hs.sound.flight.one_pending⟩
  · intro id record hr
    refine ⟨⟨(hc.records id record hr).2, ?_⟩, ?_⟩
    · intro other ho
      exact ((hc.admitted id other ho).2.2 record hr).symm
    · intro request timeout hf
      simp only [step, locked, hf, present, hr]
  · intro id p hp hle
    have hpr : c.Presented id := (run_presented (new_correlated o) hrun id).mpr (Or.inr ⟨p, hp, hle⟩)
    refine ⟨?_, fun hst later replies' c' => run_spent hpr hst⟩
    intro request timeout hn hf
    simp only [step, locked, hf, present, hn, presented_any.mpr hpr, if_true]

def samplePayload : Payload := fun _ => .ok []

def loopCall (id : ℕ) (goal : UInt8) : ClientEvent := .start id (loopRequest goal) (.ofNanos 100)

def loopAdmission (id : ℕ) (goal : UInt8) (retained : ℕ) : List ClientEvent :=
  loopCall id goal :: List.replicate (retained + 7) .proceed

def loopCompletion (run tick : ℕ) (bytes : Bytes) : List ClientEvent :=
  ([.session .receive, .session .begin, .session .dispatch, .invoke, loopResult run tick 0 "control" "force" bytes,
    .session .dispatch, .invoke, loopResult run tick 1 "plant" "state" bytes, .session .commit] :
      List OwnerEvent).map
    .owner

def loopRequests : List ClientEvent :=
  .owner (.session .activate) :: loopAdmission 4 1 0 ++
    [loopCall 4 1, loopCall 4 2, .tryStep (loopRequest 1) (.ofNanos 100)] ++ loopCompletion 0 0
    [1, 0] ++ [loopCall 5 1]

theorem requests_handed_once_loop : ∃ o sealed next replies c,
    Owner.prepare loopDigest loopParts loopGraph sampleSession .zero 1000 3 = .ok (o, sealed, next) ∧
    (new o).run samplePayload loopRequests = some (replies, c) ∧
    handedIds replies = [4] ∧ .run 0 ∈ replies ∧ .refused .requestConflict ∈ replies ∧
    c.step samplePayload (loopCall 5 1) = some (.refused .released, c) ∧
    ∀ later replies' c', c.run samplePayload later = some (replies', c') → .handed 5 ∉ replies' := by
  have hs : (Owner.prepare loopDigest loopParts loopGraph sampleSession .zero 1000 3).toOption.bind (fun prepared =>
      ((new prepared.1).run samplePayload loopRequests).map fun result =>
        (handedIds result.1, presentedIds samplePayload (new prepared.1) loopRequests,
          decide (.run 0 ∈ result.1 ∧ .refused .requestConflict ∈ result.1), result.2.stage,
            result.2.records[(5 : ℕ)]?)) =
      some ([4], [4, 4, 4, 5, 5], true, .free, none) := by decide +kernel
  obtain ⟨⟨o, sealed, next⟩, hp, hs⟩ := Option.bind_eq_some_iff.mp hs
  obtain ⟨⟨replies, c⟩, hrun, hs⟩ := Option.map_eq_some_iff.mp hs
  simp only [Prod.mk.injEq, decide_eq_true_eq] at hs
  obtain ⟨hh, hids, ⟨hr, hc⟩, hf, hn⟩ := hs
  rw [toOption_some] at hp
  obtain ⟨href, hne⟩ := (requests_handed_once hp hrun).2.2.1 5 5 (by rw [hids]; decide) le_rfl
  exact ⟨o, sealed, next, replies, c, hp, hrun, hh, hr, hc, href _ _ hn hf,
    hne (by rw [hf]; exact nofun)⟩

end Reiny.Process
