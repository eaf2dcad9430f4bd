import Reiny.Lib.Maps
import Reiny.Jobs.Owner

namespace Reiny.Jobs

open Lib Checked Machine Maps Step List JobOwner Option

variable {P T E : Type}

def JobReply.accepted : JobReply T E → Bool
  | .reported accepted => accepted
  | .cancel request => request = .requested
  | .completed recorded => recorded.isSome
  | .left => false

def JobReply.recorded : JobReply T E → Option (JobOutcome T E)
  | .completed recorded => recorded
  | _ => none

def JobStatus.reserve : JobStatus T E → ℕ
  | .running => 2
  | .cancelling => 1
  | .complete _ => 0

def Worker.fits : Worker → JobStatus T E → Prop
  | .working, status => status.outcome = none
  | .cleaning, status => status = .cancelling
  | .leaving .returned, status => status.outcome ≠ none
  | .leaving _, status => status.outcome = none
  | .gone _, status => status.outcome ≠ none

structure JobSnapshot.Sound (snapshot : JobSnapshot P T E) : Prop where
  room : snapshot.revision + snapshot.status.reserve < U64
  running : snapshot.status = .running → snapshot.cancellationRequested = false
  cancelling : snapshot.status = .cancelling → snapshot.cancellationRequested = true
  success : ∀ value, snapshot.status = .complete (.succeeded value) → snapshot.cancellationRequested = false

variable {snapshot : JobSnapshot P T E}

lemma saturatingAdd_one {n : ℕ} (h : n + 1 < U64) : saturatingAdd n 1 = n + 1 := by
  rw [saturatingAdd, Nat.min_eq_left (Nat.le_sub_one_of_lt h)]

lemma nextProgress_some {revision next : ℕ} (h : nextProgress revision = some next) :
    next = revision + 1 ∧ next + 2 < U64 := by
  rw [nextProgress, filter_eq_some_iff, checkedAdd_some, decide_eq_true_eq] at h
  obtain ⟨⟨rfl, hlt⟩, hle⟩ := h
  exact ⟨rfl, by unfold U64 at *; omega⟩

lemma progress_cases (snapshot : JobSnapshot P T E) (report : P) :
    progress snapshot report = (false, snapshot) ∨
      snapshot.status = .running ∧ snapshot.revision + 1 + 2 < U64 ∧
        progress snapshot report =
          (true, { snapshot with progress := some report, revision := snapshot.revision + 1 }) := by
  unfold progress
  cases hs : snapshot.status with
  | running =>
    cases hn : nextProgress snapshot.revision with
    | none => exact .inl rfl
    | some next =>
      obtain ⟨rfl, hr⟩ := nextProgress_some hn
      exact .inr ⟨rfl, hr, rfl⟩
  | cancelling | complete => exact .inl rfl

lemma requestCancel_cases (h : snapshot.Sound) :
    (∃ request, request ≠ .requested ∧ snapshot.status ≠ .running ∧ requestCancel snapshot = (request, snapshot)) ∨
      snapshot.status = .running ∧ requestCancel snapshot = (.requested, { snapshot with
        status := .cancelling, cancellationRequested := true, revision := snapshot.revision + 1 }) := by
  have hr := h.room
  unfold requestCancel
  cases hs : snapshot.status with
  | running =>
    rw [hs, JobStatus.reserve] at hr
    exact .inr ⟨rfl, by rw [saturatingAdd_one (by omega)]⟩
  | cancelling => exact .inl ⟨.alreadyRequested, by decide, by simp, rfl⟩
  | complete => exact .inl ⟨.finished, by decide, by simp, rfl⟩

lemma commit_cases (h : snapshot.Sound) (outcome : JobOutcome T E) :
    (snapshot.status.outcome ≠ none ∧ commit snapshot outcome = (.ignored, snapshot)) ∨
      (snapshot.status = .cancelling ∧ (∃ value, outcome = .succeeded value) ∧
        commit snapshot outcome = (.discarded, snapshot)) ∨
      (snapshot.status.outcome = none ∧ (∀ value, outcome = .succeeded value → snapshot.status = .running) ∧
        snapshot.revision + 1 < U64 ∧ commit snapshot outcome =
          (.recorded, { snapshot with status := .complete outcome, revision := snapshot.revision + 1 })) := by
  have hr := h.room
  unfold commit JobSnapshot.terminal
  cases hs : snapshot.status with
  | complete other => exact .inl ⟨by simp [JobStatus.outcome], rfl⟩
  | running =>
    rw [hs, JobStatus.reserve] at hr
    exact .inr (.inr ⟨rfl, fun _ _ => rfl, by omega, by rw [saturatingAdd_one (by omega)]⟩)
  | cancelling =>
    rw [hs, JobStatus.reserve] at hr
    rw [saturatingAdd_one hr]
    cases outcome with
    | succeeded value => exact .inr (.inl ⟨rfl, ⟨value, rfl⟩, rfl⟩)
    | failed | cancelled | panicked | interrupted => exact .inr (.inr ⟨rfl, by simp, hr, rfl⟩)

/-- The calls of `complete` that record: by the worker's return, after the cleanup of a discarded success, and by
the drop of `Completion` otherwise. -/
inductive Ends : Worker → JobEvent P T E → JobOutcome T E → Worker → Prop
  | finish (result : Except E T) : Ends .working (.finish result) (Job.outcomeOf result) (.leaving .returned)
  | cleanup : Ends .cleaning (.cleanup false) .cancelled (.leaving .returned)
  | unwinding : Ends (.leaving .unwinding) .release .panicked (.gone .unwinding)
  | dropped : Ends (.leaving .dropped) .release .interrupted (.gone .dropped)

inductive Stays (status : JobStatus T E) : Worker → JobEvent P T E → JobReply T E → Worker → Prop
  | refused (worker : Worker) (report : P) : Stays status worker (.report report) (.reported false) worker
  | cancel (worker : Worker) (request : CancelRequest) (h : request ≠ .requested) :
      Stays status worker .cancel (.cancel request) worker
  | discard (value : T) (h : status = .cancelling) :
      Stays status .working (.finish (.ok value)) (.completed none) .cleaning
  | unwind : Stays status .cleaning (.cleanup true) .left (.leaving .unwinding)
  | vanish (panicked : Bool) : Stays status .working (.vanish panicked) .left (.leaving (Job.exitOf panicked))
  | release : Stays status (.leaving .returned) .release (.completed none) (.gone .returned)

inductive Move (job : Job P T E) : JobEvent P T E → JobReply T E → Job P T E → Prop
  | stay {event : JobEvent P T E} {reply : JobReply T E} {next : Worker}
      (h : Stays job.snapshot.status job.worker event reply next) : Move job event reply { job with worker := next }
  | report (report : P) (hrunning : job.snapshot.status = .running) (hroom : job.snapshot.revision + 1 + 2 < U64) :
      Move job (.report report) (.reported true) { job with
        snapshot := { job.snapshot with progress := some report, revision := job.snapshot.revision + 1 } }
  | cancel (hrunning : job.snapshot.status = .running) :
      Move job .cancel (.cancel .requested) { job with
        snapshot := { job.snapshot with
          status := .cancelling, cancellationRequested := true, revision := job.snapshot.revision + 1 } }
  | record {event : JobEvent P T E} {outcome : JobOutcome T E} {next : Worker}
      (hends : Ends job.worker event outcome next) (hopen : job.snapshot.status.outcome = none)
      (hsuccess : ∀ value, outcome = .succeeded value → job.snapshot.status = .running)
      (hroom : job.snapshot.revision + 1 < U64) :
      Move job event (.completed (some outcome)) ⟨{ job.snapshot with
        status := .complete outcome, revision := job.snapshot.revision + 1 }, next⟩

structure Job.Sound (job : Job P T E) : Prop where
  snapshot : job.snapshot.Sound
  fits : job.worker.fits job.snapshot.status

variable {job next : Job P T E} {event : JobEvent P T E} {reply : JobReply T E} {worker : Worker}
  {outcome : JobOutcome T E} {worker' : Worker}

lemma complete_open (h : job.snapshot.Sound) (ho : job.snapshot.status.outcome = none)
    (he : Ends job.worker event outcome worker) :
    Move job event (job.complete outcome worker).1 (job.complete outcome worker).2 ∨
      job.snapshot.status = .cancelling ∧ (∃ value, outcome = .succeeded value) ∧
        job.complete outcome worker = (.completed none, { job with worker := .cleaning }) := by
  unfold Job.complete
  rcases commit_cases h outcome with ⟨hcl, -⟩ | ⟨hc, hv, heq⟩ | ⟨-, hs, hr, heq⟩
  · exact absurd ho hcl
  · right
    rw [heq]
    exact ⟨hc, hv, rfl⟩
  · left
    rw [heq]
    exact .record he ho hs hr

lemma step_move (h : job.Sound) (hs : job.step event = some (reply, next)) : Move job event reply next := by
  have hf := h.fits
  cases event with
  | report report =>
    rcases progress_cases job.snapshot report with heq | ⟨hrun, hr, heq⟩
    · simp only [Job.step, heq, some.injEq, Prod.mk.injEq] at hs
      obtain ⟨rfl, rfl⟩ := hs
      exact .stay (.refused _ report)
    · simp only [Job.step, heq, some.injEq, Prod.mk.injEq] at hs
      obtain ⟨rfl, rfl⟩ := hs
      exact .report report hrun hr
  | cancel =>
    rcases requestCancel_cases h.snapshot with ⟨request, hne, -, heq⟩ | ⟨hrun, heq⟩
    · simp only [Job.step, Job.cancel, heq, some.injEq, Prod.mk.injEq] at hs
      obtain ⟨rfl, rfl⟩ := hs
      exact .stay (.cancel _ request hne)
    · simp only [Job.step, Job.cancel, heq, some.injEq, Prod.mk.injEq] at hs
      obtain ⟨rfl, rfl⟩ := hs
      exact .cancel hrun
  | finish result =>
    rw [Job.step] at hs
    split_ifs at hs with hw
    rw [hw] at hf
    have he : Ends job.worker (JobEvent.finish result : JobEvent P T E) (Job.outcomeOf result)
      (.leaving .returned) :=
      hw ▸ Ends.finish result
    rcases complete_open h.snapshot hf he with hm | ⟨hca, ⟨value, hv⟩, heq⟩
    · rwa [some.inj hs] at hm
    · rw [heq] at hs
      cases hs
      cases result with
      | error error => cases hv
      | ok value => exact .stay (hw ▸ Stays.discard value hca)
  | cleanup panicked =>
    rw [Job.step] at hs
    split_ifs at hs with hc hp
    · cases hs
      exact .stay (hc ▸ hp ▸ Stays.unwind)
    · rw [hc] at hf
      have ho : job.snapshot.status.outcome = none := by rw [show job.snapshot.status = .cancelling from hf]; rfl
      have he : Ends job.worker (JobEvent.cleanup panicked : JobEvent P T E) .cancelled (.leaving .returned) := by
        rw [hc, eq_false_of_ne_true hp]
        exact Ends.cleanup
      rcases complete_open h.snapshot ho he with hm | ⟨-, ⟨value, hv⟩, -⟩
      · rwa [some.inj hs] at hm
      · cases hv
  | vanish panicked =>
    rw [Job.step] at hs
    split_ifs at hs with hw
    cases hs
    exact .stay (hw ▸ Stays.vanish panicked)
  | release =>
    rw [Job.step] at hs
    cases hwo : job.worker with
    | working | cleaning | gone => simp [hwo] at hs
    | leaving exit =>
      simp only [hwo, some.injEq] at hs
      rw [hwo] at hf
      cases exit with
      | returned =>
        rcases commit_cases h.snapshot (Job.dropOutcome Exit.returned) with ⟨-, heq⟩ | ⟨hca, -⟩ | ⟨ho, -⟩
        · rw [Job.complete, heq] at hs
          cases hs
          exact .stay (hwo ▸ Stays.release)
        · rw [hca] at hf
          exact absurd rfl hf
        · exact absurd ho hf
      | unwinding =>
        rcases complete_open h.snapshot hf (hwo ▸ Ends.unwinding) with hm | ⟨-, ⟨value, hv⟩, -⟩
        · exact (congrArg (fun r => Move job .release r.1 r.2) hs).mp hm
        · cases hv
      | dropped =>
        rcases complete_open h.snapshot hf (hwo ▸ Ends.dropped) with hm | ⟨-, ⟨value, hv⟩, -⟩
        · exact (congrArg (fun r => Move job .release r.1 r.2) hs).mp hm
        · cases hv

lemma Stays.fits {status : JobStatus T E} (h : Stays status worker event reply worker')
    (hf : worker.fits status) : worker'.fits status := by
  cases h with
  | refused => exact hf
  | cancel => exact hf
  | discard value hc => exact hc
  | unwind =>
    rw [show status = .cancelling from hf]
    rfl
  | vanish panicked => cases panicked <;> exact hf
  | release => exact hf

lemma Ends.fits (h : Ends worker event outcome worker') : worker'.fits (.complete outcome) := by
  cases h <;> simp [Worker.fits, JobStatus.outcome]

lemma fits_cancelling (h : worker.fits (.running : JobStatus T E)) :
    worker.fits (.cancelling : JobStatus T E) := by
  cases worker with
  | working => rfl
  | cleaning => rfl
  | leaving exit => cases exit <;> exact h
  | gone exit => exact h

lemma Move.sound (hm : Move job event reply next) (h : job.Sound) : next.Sound := by
  cases hm with
  | stay hstay => exact ⟨h.snapshot, hstay.fits h.fits⟩
  | report report hrun hr =>
    refine ⟨⟨?_, h.snapshot.running, h.snapshot.cancelling, h.snapshot.success⟩, h.fits⟩
    rw [hrun]
    exact hr
  | cancel hrun =>
    have hr := h.snapshot.room
    have hf := h.fits
    rw [hrun] at hr hf
    refine ⟨⟨?_, ?_, ?_, ?_⟩, fits_cancelling hf⟩
    · simp only [JobStatus.reserve] at hr ⊢
      omega
    · intro hst
      cases hst
    · intro _
      rfl
    · intro value hst
      cases hst
  | record he ho hs hr =>
    refine ⟨⟨hr, ?_, ?_, ?_⟩, he.fits⟩
    · intro hst
      cases hst
    · intro hst
      cases hst
    · intro value hst
      exact h.snapshot.running (hs value (JobStatus.complete.inj hst))

abbrev History (P T E : Type) := List (JobEvent P T E × JobReply T E)

structure Lived (history : History P T E) (job : Job P T E) : Prop where
  sound : job.Sound
  revision : job.snapshot.revision = history.countP fun entry => entry.2.accepted
  recorded : history.filterMap (fun entry => entry.2.recorded) = job.snapshot.status.outcome.toList
  requested : (∃ event, (event, .cancel .requested) ∈ history) → job.snapshot.cancellationRequested = true
  failed : ∀ error reply, (.finish (.error error), reply) ∈ history →
    job.snapshot.status = .complete (.failed error)
  unwound : ∀ event reply, event = .vanish true ∨ event = .cleanup true → (event, reply) ∈ history →
    job.worker = .leaving .unwinding ∨ job.snapshot.status = .complete .panicked

variable {history : History P T E} {status : JobStatus T E}

lemma new_lived (id : ℕ) : Lived [] (Job.new id : Job P T E) := by
  refine ⟨⟨⟨(by decide : 0 + 2 < U64), fun _ => rfl, by simp [Job.new], by simp [Job.new]⟩, rfl⟩, rfl, rfl, ?_,
    ?_, ?_⟩ <;> simp

lemma Stays.unaccepted (h : Stays status worker event reply worker') :
    reply.accepted = false ∧ reply.recorded = none ∧ reply ≠ .cancel .requested := by
  cases h with
  | cancel worker request hne => simpa [JobReply.accepted, JobReply.recorded] using hne
  | _ => simp [JobReply.accepted, JobReply.recorded]

lemma Stays.exit (h : Stays status worker event reply worker') :
    (∀ error, event ≠ .finish (.error error)) ∧
      (event = .vanish true ∨ event = .cleanup true → worker' = .leaving .unwinding) ∧
      (worker = .leaving .unwinding → worker' = .leaving .unwinding) := by
  cases h with
  | vanish panicked => cases panicked <;> simp [Job.exitOf]
  | _ => simp

lemma Ends.exit {outcome : JobOutcome T E} (h : Ends worker event outcome worker') :
    (∀ error, event = .finish (.error error) → outcome = .failed error) ∧
      ¬ (event = .vanish true ∨ event = .cleanup true) ∧ (worker = .leaving .unwinding → outcome = .panicked) := by
  cases h with
  | finish result => cases result <;> simp [Job.outcomeOf]
  | _ => simp

lemma Lived.extend (h : Lived history job) (hs : next.Sound)
    (hrevision : next.snapshot.revision = job.snapshot.revision + if reply.accepted then 1 else 0)
    (hrec : next.snapshot.status.outcome.toList = job.snapshot.status.outcome.toList ++ reply.recorded.toList)
    (hre : job.snapshot.cancellationRequested = true ∨ reply = .cancel .requested →
      next.snapshot.cancellationRequested = true)
    (hf : ∀ error, job.snapshot.status = .complete (.failed error) ∨ event = .finish (.error error) →
      next.snapshot.status = .complete (.failed error))
    (hu : (job.worker = .leaving .unwinding ∨ job.snapshot.status = .complete .panicked) ∨
      (event = .vanish true ∨ event = .cleanup true) →
      next.worker = .leaving .unwinding ∨ next.snapshot.status = .complete .panicked) :
    Lived (history ++ [(event, reply)]) next := by
  refine ⟨hs, ?_, ?_, ?_, ?_, ?_⟩
  · rw [hrevision, h.revision, countP_append, countP_singleton]
  · rw [hrec, ← h.recorded, filterMap_append]
    cases hr : reply.recorded <;> simp [hr]
  · rintro ⟨other, hm⟩
    rcases mem_append.mp hm with hold | hn
    · exact hre (Or.inl (h.requested ⟨other, hold⟩))
    · cases mem_singleton.mp hn
      exact hre (Or.inr rfl)
  · intro error other hm
    rcases mem_append.mp hm with hold | hn
    · exact hf error (Or.inl (h.failed error other hold))
    · cases mem_singleton.mp hn
      exact hf error (Or.inr rfl)
  · intro other answer ho hm
    rcases mem_append.mp hm with hold | hn
    · exact hu (Or.inl (h.unwound other answer ho hold))
    · cases mem_singleton.mp hn
      exact hu (Or.inr ho)

lemma Move.lived (hm : Move job event reply next) (h : Lived history job) :
    Lived (history ++ [(event, reply)]) next := by
  have hs := hm.sound h.sound
  cases hm with
  | stay hstay =>
    obtain ⟨ha, hrec, hreq⟩ := hstay.unaccepted
    obtain ⟨hret, hu, hk⟩ := hstay.exit
    refine h.extend hs (by rw [ha]; rfl) (by rw [hrec, toList_none, append_nil]) ?_ ?_ ?_
    · exact fun hor => hor.resolve_right hreq
    · exact fun error hor => hor.resolve_right (hret error)
    · rintro ((hl | hp) | hev)
      · exact .inl (hk hl)
      · exact .inr hp
      · exact .inl (hu hev)
  | report report hrun hr =>
    refine h.extend hs rfl (by simp [JobReply.recorded]) ?_ ?_ ?_
    · simp
    · simp
    · simp
  | cancel hrun =>
    refine h.extend hs rfl (by simp [JobReply.recorded, hrun, JobStatus.outcome]) (fun _ => rfl) ?_ ?_
    · simp [hrun]
    · simp [hrun]
  | record he ho hsu hr =>
    obtain ⟨hf, hpl, hu⟩ := he.exit
    refine h.extend hs rfl (by rw [ho]; rfl) ?_ ?_ ?_
    · simp
    · rintro error (hst | hev)
      · rw [hst] at ho
        cases ho
      · rw [hf error hev]
    · rintro ((hl | hp) | hev)
      · rw [hu hl]
        exact .inr rfl
      · rw [hp] at ho
        cases ho
      · exact absurd hev hpl

structure Passed (job : Job P T E) (history : History P T E) (later : Job P T E) : Prop where
  frozen : job.snapshot.status.outcome ≠ none → later.snapshot = job.snapshot
  halted : job.snapshot.status ≠ .running →
    later.snapshot.status ≠ .running ∧ ∀ event, (event, .reported true) ∉ history
  requested : job.snapshot.cancellationRequested = true → later.snapshot.cancellationRequested = true

lemma Passed.refl (job : Job P T E) : Passed job [] job := ⟨fun _ => rfl, fun h => ⟨h, by simp⟩, id⟩

lemma Passed.step {job mid next : Job P T E} {event : JobEvent P T E} {reply : JobReply T E}
    {history : History P T E}
    (h : Passed job history mid) (hmo : Move mid event reply next) :
    Passed job (history ++ [(event, reply)]) next := by
  have hm : reply ≠ .reported true → (∀ event, (event, .reported true) ∉ history) →
      ∀ other, (other, .reported true) ∉ history ++ [(event, reply)] := by
    intro hne hold other hm
    rcases mem_append.mp hm with hm | hm
    · exact hold other hm
    · cases mem_singleton.mp hm
      exact hne rfl
  cases hmo with
  | stay hst =>
    refine ⟨h.frozen, fun hh => ?_, h.requested⟩
    obtain ⟨hrun, hn⟩ := h.halted hh
    refine ⟨hrun, hm ?_ hn⟩
    rintro rfl
    cases hst.unaccepted.1
  | report report hrun hr =>
    refine ⟨?_, fun hh => absurd hrun (h.halted hh).1, h.requested⟩
    intro hd
    have hsa := h.frozen hd
    rw [← hsa, hrun] at hd
    exact absurd rfl hd
  | cancel hrun =>
    refine ⟨?_, fun hh => absurd hrun (h.halted hh).1, fun _ => rfl⟩
    intro hd
    have hsa := h.frozen hd
    rw [← hsa, hrun] at hd
    exact absurd rfl hd
  | record he ho hs hr =>
    refine ⟨?_, fun hh => ⟨by simp, hm (by simp) (h.halted hh).2⟩, h.requested⟩
    intro hd
    have hsa := h.frozen hd
    rw [← hsa] at hd
    exact absurd ho hd

section Owner

open Std

inductive Grows : ℕ → Map ℕ (Job P T E) → List (Entry P T E) → ℕ → Map ℕ (Job P T E) → Prop
  | same (n : ℕ) (jobs : Map ℕ (Job P T E)) : Grows n jobs [] n jobs
  | start (n : ℕ) (jobs : Map ℕ (Job P T E)) : Grows n jobs [] (n + 1) (jobs.insert n (Job.new n))
  | act {n m id : ℕ} {jobs later : Map ℕ (Job P T E)} {job next : Job P T E} {event : JobEvent P T E}
      {reply : JobReply T E} {entries : List (Entry P T E)} (hjob : jobs[id]? = some job)
      (hstep : job.step event = some (reply, next)) (hrest : Grows n (jobs.insert id next) entries m later) :
      Grows n jobs (⟨id, event, reply⟩ :: entries) m later

variable {owner next : JobOwner P T E} {entries : List (Entry P T E)}

lemma act_some {id : ℕ} {event : JobEvent P T E} {entry : Entry P T E}
    (h : owner.act id event = some (entry, next)) :
    ∃ job reply later, owner.jobs[id]? = some job ∧ job.step event = some (reply, later) ∧
      entry = ⟨id, event, reply⟩ ∧ next = { owner with jobs := owner.jobs.insert id later } := by
  simp only [act, bind_eq_bind, bind_eq_some_iff, Prod.exists, pure, some.injEq,
    Prod.mk.injEq] at h
  obtain ⟨job, hj, reply, later, hs, rfl, rfl⟩ := h
  exact ⟨job, reply, later, hj, hs, rfl, rfl⟩

lemma cancelAll_grows (workers : List ℕ) (owner : JobOwner P T E) :
    Grows owner.nextId owner.jobs (cancelAll workers owner).1 (cancelAll workers owner).2.nextId
      (cancelAll workers owner).2.jobs := by
  induction workers generalizing owner with
  | nil => exact .same _ _
  | cons id workers ih =>
    unfold cancelAll
    cases ha : owner.act id .cancel with
    | none => exact ih owner
    | some result =>
      obtain ⟨entry, next⟩ := result
      obtain ⟨job, reply, later, hj, hs, rfl, rfl⟩ := act_some ha
      exact .act hj hs (ih { owner with jobs := owner.jobs.insert id later })

lemma spawn_grows (owner : JobOwner P T E) (runtime : Bool) :
    Grows owner.nextId owner.jobs [] (owner.spawn runtime).2.nextId (owner.spawn runtime).2.jobs := by
  unfold spawn
  split_ifs
  · exact .same _ _
  · exact .same _ _
  · cases hn : checkedAdd U64 owner.nextId 1 with
    | none => exact .same _ _
    | some next =>
      obtain ⟨rfl, -⟩ := checkedAdd_some.mp hn
      exact .start _ _

lemma start_grows (owner : JobOwner P T E) (runtime : Bool) :
    Grows owner.nextId owner.jobs [] (owner.start runtime).2.nextId (owner.start runtime).2.jobs := by
  unfold start
  split_ifs
  · exact .same _ _
  · exact spawn_grows owner.reaped runtime

lemma step_grows {event : OwnerEvent P T E} {reply : OwnerReply}
    (hs : owner.step event = some ((reply, entries), next)) :
    Grows owner.nextId owner.jobs entries next.nextId next.jobs := by
  have hc : Grows owner.nextId owner.jobs owner.close.1 owner.close.2.nextId owner.close.2.jobs :=
    cancelAll_grows owner.workers { owner with closed := true }
  cases event with
  | start runtime =>
    have hst := start_grows owner runtime
    rw [step] at hs
    split_ifs at hs
    cases hr : owner.start runtime with
    | mk result later =>
      rw [hr] at hst hs
      cases result <;> cases hs <;> exact hst
  | job id event =>
    obtain ⟨⟨entry, later⟩, ha, heq⟩ := map_eq_some_iff.mp hs
    cases heq
    obtain ⟨job, answer, after, hjob, hj, rfl, rfl⟩ := act_some ha
    exact .act hjob hj (.same _ _)
  | close | drop =>
    rw [step] at hs
    split_ifs at hs
    cases hs
    exact hc
  | shutdown representable =>
    rw [step] at hs
    split_ifs at hs <;> cases hs <;> exact hc
  | join | expire | finish =>
    rw [step] at hs
    split at hs
    · split_ifs at hs
      cases hs
      exact .same _ _
    · cases hs
  | abandon =>
    rw [step] at hs
    split_ifs at hs
    cases hs
    exact .same _ _

def historyOf (id : ℕ) (entries : List (Entry P T E)) : History P T E :=
  (entries.filter fun entry => entry.id = id).map fun entry => (entry.event, entry.reply)

lemma historyOf_append (id : ℕ) (log log' : List (Entry P T E)) :
    historyOf id (log ++ log') = historyOf id log ++ historyOf id log' := by
  simp [historyOf]

structure Tracked (log : List (Entry P T E)) (n : ℕ) (jobs : Map ℕ (Job P T E)) : Prop where
  lived : ∀ id job, jobs[id]? = some job → Lived (historyOf id log) job
  fresh : ∀ id, n ≤ id → jobs[id]? = none ∧ historyOf id log = []

def Carried (jobs : Map ℕ (Job P T E)) (log : List (Entry P T E)) (later : Map ℕ (Job P T E)) : Prop :=
  ∀ id job, jobs[id]? = some job → ∃ after, later[id]? = some after ∧ Passed job (historyOf id log) after

variable {m n : ℕ} {jobs later : Map ℕ (Job P T E)} {log : List (Entry P T E)}

lemma Grows.tracked (h : Grows n jobs entries m later) (htr : Tracked log n jobs) :
    Tracked (log ++ entries) m later := by
  induction h generalizing log with
  | same => rwa [append_nil]
  | start jobs =>
    rw [append_nil]
    refine ⟨?_, ?_⟩
    · intro id job hj
      rcases of_insert hj with ⟨rfl, rfl⟩ | ⟨-, hj⟩
      · rw [(htr.fresh n le_rfl).2]
        exact new_lived n
      · exact htr.lived id job hj
    · intro id hid
      rw [insert_of_ne (by omega)]
      exact htr.fresh id (by omega)
  | @act m id jobs later job next event reply entries hj hs hr ih =>
    have hlog : log ++ (⟨id, event, reply⟩ : Entry P T E) :: entries = (log ++ [⟨id, event, reply⟩]) ++
      entries := by simp
    rw [hlog]
    refine ih ⟨?_, ?_⟩
    · intro other found hf
      rw [historyOf_append]
      rcases of_insert hf with ⟨rfl, rfl⟩ | ⟨hne, hf⟩
      · have hl := htr.lived id job hj
        simpa [historyOf] using (step_move hl.sound hs).lived hl
      · simpa [historyOf, hne] using htr.lived other found hf
    · intro other ho
      obtain ⟨hn, he⟩ := htr.fresh other ho
      have hne : id ≠ other := by
        rintro rfl
        rw [hn] at hj
        cases hj
      rw [insert_of_ne hne, historyOf_append, he]
      exact ⟨hn, by simp [historyOf, hne]⟩

lemma Grows.carried {base : Map ℕ (Job P T E)} {seen : List (Entry P T E)} (h : Grows n jobs entries m later)
    (htr : Tracked log n jobs) (hc : Carried base seen jobs) :
    Carried base (seen ++ entries) later := by
  induction h generalizing log seen with
  | same => rwa [append_nil]
  | start jobs =>
    rw [append_nil]
    intro id job hj
    obtain ⟨after, ha, hp⟩ := hc id job hj
    refine ⟨after, ?_, hp⟩
    rw [insert_of_ne, ha]
    rintro rfl
    rw [(htr.fresh _ le_rfl).1] at ha
    cases ha
  | @act m id jobs later job next event reply entries hj hs hr ih =>
    have ho : Tracked (log ++ [⟨id, event, reply⟩]) n (jobs.insert id next) :=
      (Grows.act hj hs (.same n _)).tracked htr
    have hl : seen ++ (⟨id, event, reply⟩ : Entry P T E) :: entries =
      (seen ++ [⟨id, event, reply⟩]) ++ entries := by
      simp
    rw [hl]
    refine ih ho ?_
    intro other first hf
    obtain ⟨mid, hm, hp⟩ := hc other first hf
    rw [historyOf_append, ExtTreeMap.getElem?_insert]
    split_ifs with heq
    · rw [LawfulEqOrd.compare_eq_iff_eq] at heq
      subst heq
      rw [hj] at hm
      cases hm
      refine ⟨next, rfl, ?_⟩
      simpa [historyOf] using hp.step (step_move (htr.lived id job hj).sound hs)
    · rw [LawfulEqOrd.compare_eq_iff_eq] at heq
      refine ⟨mid, hm, ?_⟩
      simpa [historyOf, heq] using hp

end Owner

variable {events later : List (OwnerEvent P T E)} {rs rs' : List (OwnerReply × List (Entry P T E))}
  {owner owner' : JobOwner P T E}

def logOf (rs : List (OwnerReply × List (Entry P T E))) : List (Entry P T E) := rs.flatMap Prod.snd

lemma new_tracked (capacity nextId : ℕ) :
    Tracked [] (new capacity nextId : JobOwner P T E).nextId (new capacity nextId : JobOwner P T E).jobs := by
  have hn : ∀ id : ℕ, (new capacity nextId : JobOwner P T E).jobs[id]? = none := by
    intro id
    exact Std.ExtTreeMap.getElem?_empty
  refine ⟨?_, fun id _ => ⟨hn id, rfl⟩⟩
  intro id job hj
  rw [hn id] at hj
  cases hj

lemma run_tracked {log : List (Entry P T E)} (h : Tracked log owner.nextId owner.jobs)
    (hr : run step owner events = some (rs, owner')) :
    Tracked (log ++ logOf rs) owner'.nextId owner'.jobs ∧ Carried owner.jobs (logOf rs) owner'.jobs := by
  refine @run_history _ _ _ step _ _ _ _ (fun rs last =>
    Tracked (log ++ logOf rs) last.nextId last.jobs ∧ Carried owner.jobs (logOf rs) last.jobs) ?_ [] ?_ hr
  · rintro rs s e ⟨reply, entries⟩ s' ⟨htr, hc⟩ hs
    have hg := step_grows hs
    have hl : logOf (rs ++ [(reply, entries)]) = logOf rs ++ entries := by simp [logOf]
    rw [hl, ← append_assoc]
    exact ⟨hg.tracked htr, hg.carried htr hc⟩
  · refine ⟨by simpa [logOf] using h, ?_⟩
    intro id job hj
    exact ⟨job, hj, Passed.refl job⟩

theorem job_outcome_revision (capacity nextId : ℕ)
    (hrun : run step (new capacity nextId) events = some (rs, owner))
    (hlater : run step owner later = some (rs', owner')) (id : ℕ) (job : Job P T E)
    (hjob : owner.jobs[id]? = some job) :
    ∃ job', owner'.jobs[id]? = some job' ∧
      -- one outcome, and it stays
      ((historyOf id (logOf rs)).filterMap (fun entry => entry.2.recorded) = job.snapshot.status.outcome.toList ∧
        ((∃ exit, job.worker = .gone exit) → job.snapshot.status.outcome ≠ none) ∧
        (job.snapshot.status.outcome ≠ none → job'.snapshot = job.snapshot)) ∧
      -- the revision numbers the accepted changes and leaves room for those to come
      (job.snapshot.revision = (historyOf id (logOf rs)).countP (fun entry => entry.2.accepted) ∧
        job.snapshot.revision + job.snapshot.status.reserve < U64) ∧
      -- cancellation against success, failure and panic
      (((∃ event, (event, .cancel .requested) ∈ historyOf id (logOf rs)) →
          ∀ value, job'.snapshot.status ≠ .complete (.succeeded value)) ∧
        (∀ error reply, (.finish (.error error), reply) ∈ historyOf id (logOf rs) →
          job.snapshot.status = .complete (.failed error)) ∧
        (∀ event reply, event = .vanish true ∨ event = .cleanup true → (event, reply) ∈ historyOf id (logOf rs) →
          (∃ exit, job.worker = .gone exit) → job.snapshot.status = .complete .panicked)) ∧
      -- no progress afterwards
      ((∃ event, (event, .cancel .requested) ∈ historyOf id (logOf rs)) ∨ job.snapshot.status.outcome ≠ none →
        ∀ event, (event, .reported true) ∉ historyOf id (logOf rs')) := by
  obtain ⟨htr, -⟩ := run_tracked (new_tracked capacity nextId) hrun
  obtain ⟨htr', hc⟩ := run_tracked htr hlater
  obtain ⟨job', hj', hpa⟩ := hc id job hjob
  have hli : Lived (historyOf id (logOf rs)) job := htr.lived id job hjob
  have hsound' := (htr'.lived id job' hj').sound
  have hg : (∃ exit, job.worker = .gone exit) → job.snapshot.status.outcome ≠ none := by
    rintro ⟨exit, he⟩
    have hf := hli.sound.fits
    rwa [he] at hf
  refine ⟨job', hj', ⟨hli.recorded, hg, hpa.frozen⟩, ⟨hli.revision, hli.sound.snapshot.room⟩,
    ⟨?_, hli.failed, ?_⟩, ?_⟩
  · intro hr value hs
    have hpl := hsound'.snapshot.success value hs
    rw [hpa.requested (hli.requested hr)] at hpl
    cases hpl
  · rintro event reply hev hm ⟨exit, he⟩
    rcases hli.unwound event reply hev hm with hl | hp
    · rw [he] at hl
      cases hl
    · exact hp
  · intro hst
    refine (hpa.halted ?_).2
    intro hru
    rcases hst with hr | hd
    · have hpl := hli.sound.snapshot.running hru
      rw [hli.requested hr] at hpl
      cases hpl
    · rw [hru] at hd
      exact hd rfl

def cancelledRun : List (OwnerEvent ℕ ℕ ℕ) :=
  [.start true, .job 1 (.report 5), .shutdown true, .job 1 (.finish (.ok 7)), .job 1 (.report 6),
    .job 1 (.cleanup false), .job 1 .release, .join, .finish]

theorem job_outcome_revision_cancelled : ∃ rs owner job,
    run step (new 1 1) cancelledRun = some (rs, owner) ∧ owner.jobs[1]? = some job ∧
      job.snapshot.status = .complete .cancelled ∧
      job.snapshot.revision = (historyOf 1 (logOf rs)).countP (fun entry => entry.2.accepted) := by
  have he : ((run step (new 1 1) cancelledRun).bind fun result => result.2.jobs[1]?) =
      some ⟨⟨1, 3, some 5, true, .complete .cancelled⟩, .gone .returned⟩ := by decide +kernel
  obtain ⟨⟨rs, owner⟩, hrun, hj⟩ := bind_eq_some_iff.mp he
  obtain ⟨-, -, -, ⟨hr, -⟩, -⟩ := job_outcome_revision 1 1 hrun (rfl : run step owner [] = _) 1 _ hj
  exact ⟨rs, owner, _, hrun, hj, rfl, hr⟩

end Reiny.Jobs
