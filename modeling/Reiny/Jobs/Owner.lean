import Reiny.Jobs.State
import Reiny.Step.Graph

/-! The owner of jobs: admission under a capacity, closing, and shutdown that joins worker by worker while
the jobs go on. -/

namespace Reiny.Jobs

open Lib Checked Step

inductive StartError
  | closed
  | atCapacity
  | idExhausted
  | runtimeUnavailable

structure ShutdownReport where
  unresponsive : List ℕ
  joinFailures : List ℕ

structure Shutdown where
  index : ℕ
  report : ShutdownReport

structure JobOwner (P T E : Type) where
  capacity : ℕ
  closed : Bool
  workers : List ℕ
  shutdown : Option Shutdown
  dropped : Bool
  nextId : ℕ
  jobs : Map ℕ (Job P T E)

structure Entry (P T E : Type) where
  id : ℕ
  event : JobEvent P T E
  reply : JobReply T E

inductive OwnerEvent (P T E : Type)
  | start (runtime : Bool)
  | job (id : ℕ) (event : JobEvent P T E)
  | close
  | shutdown (representable : Bool)
  | join
  | expire
  | finish
  | abandon
  | drop

inductive OwnerReply
  | started (id : ℕ)
  | refused (error : StartError)
  | invalidDeadline
  | report (report : ShutdownReport)
  | done

variable {P T E : Type}

namespace JobOwner

def new (capacity nextId : ℕ) : JobOwner P T E := ⟨capacity, false, [], none, false, nextId, Map.of []⟩

def isFinished (owner : JobOwner P T E) (id : ℕ) : Bool :=
  owner.jobs[id]?.any fun job =>
    match job.worker with
    | .gone _ => true
    | _ => false

def joinFailed (owner : JobOwner P T E) (id : ℕ) : Bool :=
  owner.jobs[id]?.any fun job => job.worker ≠ .gone .returned

def reaped (owner : JobOwner P T E) : JobOwner P T E :=
  { owner with workers := owner.workers.filter fun id => !owner.isFinished id }

def spawn (owner : JobOwner P T E) (runtime : Bool) : Except StartError ℕ × JobOwner P T E :=
  if owner.capacity ≤ owner.workers.length then (.error .atCapacity, owner)
  else if !runtime then (.error .runtimeUnavailable, owner)
  else
    match checkedAdd U64 owner.nextId 1 with
    | none => (.error .idExhausted, owner)
    | some next => (.ok owner.nextId, { owner with
        nextId := next
        workers := owner.workers ++ [owner.nextId]
        jobs := owner.jobs.insert owner.nextId (Job.new owner.nextId) })

def start (owner : JobOwner P T E) (runtime : Bool) : Except StartError ℕ × JobOwner P T E :=
  if owner.closed then (.error .closed, owner) else owner.reaped.spawn runtime

def act (owner : JobOwner P T E) (id : ℕ) (event : JobEvent P T E) : Option (Entry P T E × JobOwner P T E) := do
  let job ← owner.jobs[id]?
  let (reply, job) ← job.step event
  return (⟨id, event, reply⟩, { owner with jobs := owner.jobs.insert id job })

def cancelAll : List ℕ → JobOwner P T E → List (Entry P T E) × JobOwner P T E
  | [], owner => ([], owner)
  | id :: workers, owner =>
    match owner.act id .cancel with
    | none => cancelAll workers owner
    | some (entry, next) =>
      let (entries, last) := cancelAll workers next
      (entry :: entries, last)

def close (owner : JobOwner P T E) : List (Entry P T E) × JobOwner P T E :=
  cancelAll owner.workers { owner with closed := true }

def free (owner : JobOwner P T E) : Bool := !owner.dropped && owner.shutdown.isNone

def awaited (owner : JobOwner P T E) : Option (Shutdown × ℕ) := do
  let shutdown ← owner.shutdown
  let id ← owner.workers[shutdown.index]?
  return (shutdown, id)

def joined (owner : JobOwner P T E) (shutdown : Shutdown) (id : ℕ) : JobOwner P T E :=
  let failures := shutdown.report.joinFailures ++ if owner.joinFailed id then [id] else []
  { owner with
    workers := owner.workers.eraseIdx shutdown.index
    shutdown := some { shutdown with report := { shutdown.report with joinFailures := failures } } }

def expired (owner : JobOwner P T E) (shutdown : Shutdown) (id : ℕ) : JobOwner P T E :=
  let unresponsive := shutdown.report.unresponsive ++ [id]
  { owner with shutdown := some ⟨shutdown.index + 1, { shutdown.report with unresponsive }⟩ }

/-- The owner's methods take it whole, and a shutdown keeps it until it reports or is abandoned. -/
def step (owner : JobOwner P T E) :
    OwnerEvent P T E → Option ((OwnerReply × List (Entry P T E)) × JobOwner P T E)
  | .start runtime =>
    if owner.free then
      match owner.start runtime with
      | (.ok id, next) => some ((.started id, []), next)
      | (.error error, next) => some ((.refused error, []), next)
    else none
  | .job id event => (owner.act id event).map fun (entry, next) => ((.done, [entry]), next)
  | .close => if owner.free then some ((.done, owner.close.1), owner.close.2) else none
  | .shutdown representable =>
    if owner.free then
      if representable then some ((.done, owner.close.1), { owner.close.2 with shutdown := some ⟨0, ⟨[], []⟩⟩ })
      else some ((.invalidDeadline, owner.close.1), owner.close.2)
    else none
  | .join =>
    match owner.awaited with
    | some (shutdown, id) => if owner.isFinished id then some ((.done, []), owner.joined shutdown id) else none
    | none => none
  | .expire =>
    match owner.awaited with
    | some (shutdown, id) => if owner.isFinished id then none else some ((.done, []), owner.expired shutdown id)
    | none => none
  | .finish =>
    match owner.shutdown with
    | some shutdown =>
      if owner.workers.length ≤ shutdown.index then some ((.report shutdown.report, []),
        { owner with shutdown := none })
      else none
    | none => none
  | .abandon => if owner.shutdown.isSome then some ((.done, []), { owner with shutdown := none }) else none
  | .drop => if owner.free then some ((.done, owner.close.1), { owner.close.2 with dropped := true }) else none

end JobOwner

end Reiny.Jobs
