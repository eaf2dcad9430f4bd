import Reiny.Lib.Checked
import Reiny.Lib.Machine

namespace Reiny.Jobs

open Lib Checked

inductive JobOutcome (T E : Type)
  | succeeded (value : T)
  | failed (error : E)
  | cancelled
  | panicked
  | interrupted
deriving DecidableEq

inductive JobStatus (T E : Type)
  | running
  | cancelling
  | complete (outcome : JobOutcome T E)
deriving DecidableEq

structure JobSnapshot (P T E : Type) where
  id : ℕ
  revision : ℕ
  progress : Option P
  cancellationRequested : Bool
  status : JobStatus T E
deriving DecidableEq

inductive CancelRequest
  | requested
  | alreadyRequested
  | finished
deriving DecidableEq

variable {P T E : Type}

def JobStatus.outcome : JobStatus T E → Option (JobOutcome T E)
  | .complete outcome => some outcome
  | _ => none

def saturatingAdd (a b : ℕ) : ℕ := min (a + b) (U64 - 1)

def requestCancel (snapshot : JobSnapshot P T E) : CancelRequest × JobSnapshot P T E :=
  match snapshot.status with
  | .running => (.requested, { snapshot with
      status := .cancelling
      cancellationRequested := true
      revision := saturatingAdd snapshot.revision 1 })
  | .cancelling => (.alreadyRequested, snapshot)
  | .complete _ => (.finished, snapshot)

def nextProgress (revision : ℕ) : Option ℕ := (checkedAdd U64 revision 1).filter (· ≤ U64 - 1 - 2)

def progress (snapshot : JobSnapshot P T E) (report : P) : Bool × JobSnapshot P T E :=
  match snapshot.status with
  | .running =>
    match nextProgress snapshot.revision with
    | some next => (true, { snapshot with progress := some report, revision := next })
    | none => (false, snapshot)
  | _ => (false, snapshot)

inductive Commit
  | recorded
  | discarded
  | ignored

def JobSnapshot.terminal (snapshot : JobSnapshot P T E) (outcome : JobOutcome T E) : JobSnapshot P T E :=
  { snapshot with status := .complete outcome, revision := saturatingAdd snapshot.revision 1 }

/-- The locked part of `complete`; what is discarded is dropped behind the lock, before the cancellation
is recorded in its place. -/
def commit (snapshot : JobSnapshot P T E) (outcome : JobOutcome T E) : Commit × JobSnapshot P T E :=
  match snapshot.status, outcome with
  | .complete _, _ => (.ignored, snapshot)
  | .cancelling, .succeeded _ => (.discarded, snapshot)
  | _, outcome => (.recorded, snapshot.terminal outcome)

inductive Exit
  | returned
  | unwinding
  | dropped
deriving DecidableEq

/-- In the user's future, dropping a success that came after a cancellation, or around the drop of its `Completion`. -/
inductive Worker
  | working
  | cleaning
  | leaving (exit : Exit)
  | gone (exit : Exit)
deriving DecidableEq

structure Job (P T E : Type) where
  snapshot : JobSnapshot P T E
  worker : Worker
deriving DecidableEq

inductive JobEvent (P T E : Type)
  | report (report : P)
  | cancel
  | finish (result : Except E T)
  | cleanup (panicked : Bool)
  | vanish (panicked : Bool)
  | release

inductive JobReply (T E : Type)
  | reported (accepted : Bool)
  | cancel (request : CancelRequest)
  | completed (recorded : Option (JobOutcome T E))
  | left

namespace Job

def new (id : ℕ) : Job P T E := ⟨⟨id, 0, none, false, .running⟩, .working⟩

def cancel (job : Job P T E) : CancelRequest × Job P T E :=
  let (request, snapshot) := requestCancel job.snapshot
  (request, { job with snapshot })

def outcomeOf : Except E T → JobOutcome T E
  | .ok value => .succeeded value
  | .error error => .failed error

def complete (job : Job P T E) (outcome : JobOutcome T E) (next : Worker) : JobReply T E × Job P T E :=
  match commit job.snapshot outcome with
  | (.recorded, snapshot) => (.completed (some outcome), ⟨snapshot, next⟩)
  | (.discarded, snapshot) => (.completed none, ⟨snapshot, .cleaning⟩)
  | (.ignored, snapshot) => (.completed none, ⟨snapshot, next⟩)

def dropOutcome : Exit → JobOutcome T E
  | .unwinding => .panicked
  | _ => .interrupted

def exitOf (panicked : Bool) : Exit := if panicked then .unwinding else .dropped

/-- Reports and cancellations come from any thread at any time; the rest is the worker's own. -/
def step (job : Job P T E) : JobEvent P T E → Option (JobReply T E × Job P T E)
  | .report report =>
    let (accepted, snapshot) := progress job.snapshot report
    some (.reported accepted, { job with snapshot })
  | .cancel => some (.cancel job.cancel.1, job.cancel.2)
  | .finish result =>
    if job.worker = .working then some (job.complete (outcomeOf result) (.leaving .returned)) else none
  | .cleanup panicked =>
    if job.worker = .cleaning then
      if panicked then some (.left, { job with worker := .leaving .unwinding })
      else some (job.complete .cancelled (.leaving .returned))
    else none
  | .vanish panicked =>
    if job.worker = .working then some (.left, { job with worker := .leaving (exitOf panicked) }) else none
  | .release =>
    match job.worker with
    | .leaving exit => some (job.complete (dropOutcome exit) (.gone exit))
    | _ => none

end Job

end Reiny.Jobs
