import CodeStory.Lib.Transition
import Mathlib.Algebra.Ring.Nat
import Mathlib.Logic.Function.Basic

/-!
# The workers that run the stages

`executor.rs`: a stage runs on one of a few threads that all requests share. A call takes a permit,
puts its job into a bounded channel and waits for the completion until its deadline. The job carries
the permit and drops it only after the task has ended, also when nobody waits any more. The loads
and stores that threads share, the channel operations and the locks are steps of their own; what a
thread reads of the clock and of the cancellation flag is up to the event.
-/

set_option autoImplicit false

namespace CodeStory.Retrieval

inductive StageCompletionStatus where
  | completed
  | pendingAfterDeadline
  | cancelledBeforeStart
  | completedLate
  | skipped
  deriving DecidableEq, Repr

inductive StageError where
  | task (message : String)
  | panicked
  | disconnected
  deriving DecidableEq, Repr

def StageError.text : StageError → String
  | .task message => message
  | .panicked => "retrieval stage worker panicked"
  | .disconnected => "sidecar stage worker disconnected"

/-- How a task ends, before `catch_unwind`. -/
inductive TaskOutcome (Hits : Type) where
  | returned (hits : Hits)
  | failed (message : String)
  | panicked

def TaskOutcome.caught {Hits : Type} : TaskOutcome Hits → Except StageError Hits
  | .returned hits => .ok hits
  | .failed message => .error (.task message)
  | .panicked => .error .panicked

inductive StageRun (Hits : Type) where
  | completed (hits : Hits) (admissionWaitMs : Nat) (queueWaitMs executionMs : Option Nat)
  | cancelled (reason : String) (admissionWaitMs : Nat) (queueWaitMs executionMs : Option Nat)
    (completionStatus : StageCompletionStatus)

structure StageJobState where
  started : Bool
  queueWaitMs : Nat
  deriving DecidableEq, Repr

def StageJobState.default : StageJobState := ⟨false, 0⟩

structure StageCompletion (Hits : Type) where
  result : Except StageError Hits
  queueWaitMs : Nat
  executionMs : Nat
  finishedAt : Nat

/-- A job, with the call it belongs to for its state and its channel. -/
structure StageJob where
  call : Nat
  queuedAt : Nat
  deriving DecidableEq, Repr

/-- Where a worker stands in `stage_worker_loop`. After the completion is sent the job is still to
be dropped, and its permit with it. -/
inductive Worker where
  | idle
  | taken (job : StageJob)
  | timed (job : StageJob) (queueWaitMs : Nat)
  | running (job : StageJob) (queueWaitMs startedAt : Nat)
  | sent (job : StageJob)
  deriving DecidableEq, Repr

/-- The job whose permit a worker holds. -/
def Worker.job : Worker → Option StageJob
  | .idle => none
  | .taken job | .timed job _ | .running job _ _ | .sent job => some job

/-- The job whose task a worker has not ended yet. -/
def Worker.task : Worker → Option StageJob
  | .idle | .sent _ => none
  | .taken job | .timed job _ | .running job _ _ => some job

/-- Where a call stands in `run_stage_bounded`. -/
inductive Phase (Hits : Type) where
  | acquiring (startedAt : Nat)
  | sending (admissionWaitMs : Nat)
  | waiting (admissionWaitMs : Nat)
  | reporting (reason : String) (admissionWaitMs : Nat) (started : Bool)
  | returned (result : Except StageError (StageRun Hits))

structure Call (Hits : Type) where
  deadline : Nat
  phase : Phase Hits
  stageCancelled : Bool

structure PoolConfig where
  workerLimit : Nat
  queueCapacity : Nat

def stageWorkerLimit : Nat := 16

def stageWorkerPool : PoolConfig := ⟨stageWorkerLimit, stageWorkerLimit⟩

def PoolConfig.capacity (config : PoolConfig) : Nat :=
  min (config.workerLimit + config.queueCapacity) (2 ^ 64 - 1)

/-- `executed` is no part of the program: it records every completion a worker has sent or tried to
send. -/
structure StagePool (Hits : Type) where
  inFlight : Nat
  senders : List StageJob
  queue : List StageJob
  workers : List Worker
  calls : Nat → Option (Call Hits)
  states : Nat → StageJobState
  mail : Nat → Option (StageCompletion Hits)
  executed : List (Nat × StageCompletion Hits)

def StagePool.new (Hits : Type) (config : PoolConfig) : StagePool Hits where
  inFlight := 0
  senders := []
  queue := []
  workers := List.replicate config.workerLimit .idle
  calls := fun _ => none
  states := fun _ => .default
  mail := fun _ => none
  executed := []

inductive PoolEvent (Hits : Type) where
  | call (id requestDeadline budgetMs now startedAt : Nat)
  | refuse (id : Nat) (cancelled : Bool) (now : Nat) (cancelledAfter : Bool) (returnedAt : Nat)
  | acquire (id : Nat) (cancelled : Bool) (now acquiredAt queuedAt : Nat)
  | send (id : Nat)
  | recv (worker : Nat)
  | storeQueueWait (worker now : Nat)
  | storeStarted (worker now : Nat)
  | finish (worker : Nat) (outcome : TaskOutcome Hits) (endedAt finishedAt : Nat)
  | release (worker : Nat)
  | expire (id : Nat) (cancelled : Bool) (now : Nat) (cancelledAfter : Bool)
  | report (id : Nat)
  | receive (id : Nat) (cancelled cancelledAfter : Bool)
  | disconnect (id : Nat)

/-- A step of a worker, or of a call that puts its job into the channel. -/
def PoolEvent.internal {Hits : Type} : PoolEvent Hits → Bool
  | .send _ | .recv _ | .storeQueueWait _ _ | .storeStarted _ _ => true
  | .finish _ _ _ _ | .release _ => true
  | _ => false

def nanosPerMilli : Nat := 1000000

def elapsedMs (since now : Nat) : Nat := (now - since) / nanosPerMilli % 2 ^ 64

def stageDeadline (requestDeadline budgetMs now : Nat) : Nat :=
  min requestDeadline (now + max budgetMs 1 * nanosPerMilli)

def cancellationReason (cancelled : Bool) : String :=
  if cancelled then "cancelled" else "stage_deadline"

section Returned

variable {Hits : Type}

/-- What `run_stage_bounded` returns without a permit. -/
def refusedStageRun (cancelled : Bool) (admissionStarted now : Nat) : StageRun Hits :=
  .cancelled (cancellationReason cancelled) (elapsedMs admissionStarted now) none none
    .cancelledBeforeStart

def cancelledStageRun (reason : String) (admissionWaitMs : Nat) (started : Bool)
    (queueWaitMs : Nat) :
    StageRun Hits :=
  .cancelled reason admissionWaitMs (if started then some queueWaitMs else none) none
    (if started then .pendingAfterDeadline else .cancelledBeforeStart)

def StageCompletion.late (completion : StageCompletion Hits) (deadline : Nat) (cancelled : Bool) :
    Bool :=
  deadline ≤ completion.finishedAt || cancelled

def lateStageRun (completion : StageCompletion Hits) (cancelled : Bool) (admissionWaitMs : Nat) :
    StageRun Hits :=
  .cancelled (cancellationReason cancelled) admissionWaitMs (some completion.queueWaitMs)
    (some completion.executionMs) .completedLate

def StageCompletion.stageRun (completion : StageCompletion Hits) (admissionWaitMs : Nat) :
    Except StageError (StageRun Hits) :=
  completion.result.map fun hits =>
    .completed hits admissionWaitMs (some completion.queueWaitMs) (some completion.executionMs)

end Returned

namespace StagePool

variable {Hits : Type} (pool : StagePool Hits)

def setCall (id : Nat) (call : Call Hits) : StagePool Hits :=
  { pool with calls := Function.update pool.calls id (some call) }

def setWorker (worker : Nat) (next : Worker) : StagePool Hits :=
  { pool with workers := pool.workers.set worker next }

def setState (id : Nat) (state : StageJobState) : StagePool Hits :=
  { pool with states := Function.update pool.states id state }

/-- The receiver of a call's channel is gone once the call has returned. -/
def listening (id : Nat) : Bool :=
  match pool.calls id with
  | none | some ⟨_, .returned _, _⟩ => false
  | some _ => true

def deliver (id : Nat) (completion : StageCompletion Hits) : StagePool Hits :=
  { pool with
    executed := (id, completion) :: pool.executed
    mail :=
      if pool.listening id then Function.update pool.mail id (some completion) else pool.mail }

/-- The sender of a call's channel lives as long as its job. -/
def connected (id : Nat) : Bool :=
  pool.senders.any (·.call = id) || pool.queue.any (·.call = id) ||
    pool.workers.any (fun worker => worker.job.any (·.call = id))

end StagePool

def StagePool.step {Hits : Type} (config : PoolConfig) (pool : StagePool Hits) :
    PoolEvent Hits → Option (StagePool Hits)
  | .call id requestDeadline budgetMs now startedAt =>
    match pool.calls id with
    | none =>
      some (pool.setCall id ⟨stageDeadline requestDeadline budgetMs now, .acquiring startedAt,
        false⟩)
    | some _ => none
  | .refuse id cancelled now cancelledAfter returnedAt =>
    match pool.calls id with
    | some ⟨deadline, .acquiring startedAt, _⟩ =>
      if cancelled ∨ deadline ≤ now then
        some (pool.setCall id
          ⟨deadline, .returned (.ok (refusedStageRun cancelledAfter startedAt returnedAt)), true⟩)
      else none
    | _ => none
  | .acquire id cancelled now acquiredAt queuedAt =>
    match pool.calls id with
    | some ⟨deadline, .acquiring startedAt, stageCancelled⟩ =>
      if cancelled ∨ deadline ≤ now then none
      else if pool.inFlight < config.capacity then
        let admissionWaitMs := elapsedMs startedAt acquiredAt
        some { pool.setCall id ⟨deadline, .sending admissionWaitMs, stageCancelled⟩ with
          inFlight := pool.inFlight + 1
          senders := ⟨id, queuedAt⟩ :: pool.senders }
      else none
    | _ => none
  | .send id =>
    match pool.calls id, pool.senders.find? (·.call = id) with
    | some ⟨deadline, .sending admissionWaitMs, stageCancelled⟩, some job =>
      if pool.queue.length < config.queueCapacity then
        some { pool.setCall id ⟨deadline, .waiting admissionWaitMs, stageCancelled⟩ with
          senders := pool.senders.erase job
          queue := pool.queue ++ [job] }
      else none
    | _, _ => none
  | .recv worker =>
    match pool.workers[worker]?, pool.queue with
    | some .idle, job :: rest => some { pool.setWorker worker (.taken job) with queue := rest }
    | _, _ => none
  | .storeQueueWait worker now =>
    match pool.workers[worker]? with
    | some (.taken job) =>
      let queueWaitMs := elapsedMs job.queuedAt now
      some ((pool.setWorker worker (.timed job queueWaitMs)).setState job.call
        { pool.states job.call with queueWaitMs })
    | _ => none
  | .storeStarted worker now =>
    match pool.workers[worker]? with
    | some (.timed job queueWaitMs) =>
      some ((pool.setWorker worker (.running job queueWaitMs now)).setState job.call
        { pool.states job.call with started := true })
    | _ => none
  | .finish worker outcome endedAt finishedAt =>
    match pool.workers[worker]? with
    | some (.running job queueWaitMs startedAt) =>
      some ((pool.setWorker worker (.sent job)).deliver job.call
        ⟨outcome.caught, queueWaitMs, elapsedMs startedAt endedAt, finishedAt⟩)
    | _ => none
  | .release worker =>
    match pool.workers[worker]? with
    | some (.sent _) => some { pool.setWorker worker .idle with inFlight := pool.inFlight - 1 }
    | _ => none
  | .expire id cancelled now cancelledAfter =>
    match pool.calls id with
    | some ⟨deadline, .waiting admissionWaitMs, _⟩ =>
      if cancelled ∨ deadline ≤ now then
        let reason := cancellationReason cancelledAfter
        some (pool.setCall id
          ⟨deadline, .reporting reason admissionWaitMs (pool.states id).started, true⟩)
      else none
    | _ => none
  | .report id =>
    match pool.calls id with
    | some ⟨deadline, .reporting reason admissionWaitMs started, stageCancelled⟩ =>
      let queueWaitMs := (pool.states id).queueWaitMs
      some (pool.setCall id ⟨deadline,
        .returned (.ok (cancelledStageRun reason admissionWaitMs started queueWaitMs)),
        stageCancelled⟩)
    | _ => none
  | .receive id cancelled cancelledAfter =>
    match pool.calls id, pool.mail id with
    | some ⟨deadline, .waiting admissionWaitMs, stageCancelled⟩, some completion =>
      if completion.late deadline cancelled then
        some (pool.setCall id ⟨deadline,
          .returned (.ok (lateStageRun completion cancelledAfter admissionWaitMs)), true⟩)
      else
        some (pool.setCall id
          ⟨deadline, .returned (completion.stageRun admissionWaitMs), stageCancelled⟩)
    | _, _ => none
  | .disconnect id =>
    match pool.calls id, pool.mail id with
    | some ⟨deadline, .waiting _, stageCancelled⟩, none =>
      if pool.connected id then none
      else some (pool.setCall id ⟨deadline, .returned (.error .disconnected), stageCancelled⟩)
    | _, _ => none

end CodeStory.Retrieval
