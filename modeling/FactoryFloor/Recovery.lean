import FactoryFloor.Commit

/-!
# Startup recovery

`StartupRecoveryService.run`. A pass commits the pending submissions of one batch, then
recovers the attempts whose lease has expired, releases leased deliveries that no attempt
recovers, and settles the regions that are being cancelled. The clock is read once, at the
start of the pass.

`recoveryPass` is a pass with nothing in between its transactions.
-/

namespace FactoryFloor

open Relational

/-- `MAX_ATTEMPTS`. -/
def maxAttempts : ℕ := 4

/-- `RECOVERY_FAILURE`. -/
def recoveryFailure : Json :=
  .obj [("code", .str "startup_recovery_terminal"),
    ("message", .str "Execution could not be resumed during startup recovery."),
    ("retryable", .bool false)]

/-- `CANCELLATION_FAILURE`. -/
def cancellationFailure : Json :=
  .obj [("code", .str "region_cancelled"),
    ("message", .str "Execution was cancelled while the control plane was offline."),
    ("retryable", .bool false)]

/-! ## Pending submissions -/

/-- The order `created_at, id` of submissions. -/
def submittedBefore (s t : WorkerResultSubmission) : Prop :=
  s.createdAt < t.createdAt ∨ s.createdAt = t.createdAt ∧ s.id ≤ t.id

instance : DecidableRel submittedBefore := fun s t => by unfold submittedBefore; infer_instance

/-- The uncommitted submissions, the oldest first. -/
def uncommittedSubmissions (db : Db) : List WorkerResultSubmission :=
  (db.submissions.filter (·.committedAt.isNone)).insertionSort submittedBefore

/-- The batch of pending submissions, by attempt. -/
def pendingSubmissions (limit : ℕ) (db : Db) : List Uuid :=
  ((uncommittedSubmissions db).take limit).map (·.attemptId)

/-- The outcome of recovering a batch of submissions. -/
structure SubmissionCounts where
  committed : ℕ
  rejected : ℕ
deriving DecidableEq, Repr

/-- The loop over the pending submissions. A rejection is counted, and any other error ends
the pass. -/
def recoverSubmissions (P : Platform) (env : CommitEnv) :
    List Uuid → SubmissionCounts → Db → Outcome SubmissionCounts × Db
  | [], counts, db => (.ok counts, db)
  | attemptId :: rest, counts, db =>
    match commitSubmittedResult P env attemptId db with
    | (.ok _, db) => recoverSubmissions P env rest { counts with committed := counts.committed + 1 } db
    | (.error e, db) =>
      if e.rejects then
        recoverSubmissions P env rest { counts with rejected := counts.rejected + 1 } db
      else (.error e, db)

/-! ## Expired attempts -/

/-- Whether an attempt is active and its lease has expired. -/
def expired (now : Time) (a : ExecutionAttempt) : Bool :=
  a.status.active && a.lease.any (·.expiresAt ≤ now)

/-- The attempts whose lease has expired, by id. -/
def expiredAttemptIds (now : Time) (db : Db) : List Uuid :=
  ((db.attempts.filter (expired now)).map (·.id)).insertionSort (· ≤ ·)

/-- What recovering one attempt did. -/
structure RecoveredAttempt where
  abandoned : ℕ
  replacement : ℕ
  exposed : ℕ
  terminal : ℕ
deriving DecidableEq, Repr

/-- The recovery of one expired attempt : a replacement while the execution and its region
run and attempts are left, otherwise the end of the execution. -/
def recoverAttempt (P : Platform) (now : Time) (attempt : ExecutionAttempt) (execution : Execution)
    (region : Region) (db : Db) : Outcome (RecoveredAttempt × Db) := do
  let deliveryIds := (db.inputDeliveries execution.id).map (·.id)
  let db ← updateAttempts (·.id = attempt.id) (closeAttempt .abandoned now none) db
  if execution.status = .running && region.lifecycleStatus = .running &&
      decide (attempt.attemptNumber < maxAttempts) then
    let before := db.attempts.length
    let db ← insertNextAttempt P execution.id attempt.attemptNumber now db
    let replacement := db.attempts.length - before
    let db ← updateDeliveries (fun d => d.id ∈ deliveryIds)
      (fun d => { d with status := .ready, availableAt := now, lease := none }) db
    return ({ abandoned := 1, replacement, exposed := deliveryIds.length, terminal := 0 }, db)
  else if execution.status = .running then
    let db ← updateExecutions (·.id = execution.id)
      (fun e => { e with status := .failed, failedAt := some now, completedAt := none,
                         failure := some recoveryFailure }) db
    let db ← updateDeliveries (fun d => d.id ∈ deliveryIds)
      (fun d => { d with status := .deadLettered, lease := none, deadLetteredAt := some now }) db
    return ({ abandoned := 1, replacement := 0, exposed := 0, terminal := 1 }, db)
  else return ({ abandoned := 1, replacement := 0, exposed := 0, terminal := 0 }, db)

/-- The transaction of one candidate. An attempt that is no longer expired is left alone. -/
def recoverExpired (P : Platform) (now : Time) (attemptId : Uuid) (db : Db) :
    Outcome (RecoveredAttempt × Db) := do
  match (db.attempt? attemptId).filter (expired now) with
  | none => return ({ abandoned := 0, replacement := 0, exposed := 0, terminal := 0 }, db)
  | some attempt =>
    let execution ← takeFirstOrThrow "executions" (db.execution? attempt.executionId)
    let region ← takeFirstOrThrow "regions" (db.region? execution.regionId)
    recoverAttempt P now attempt execution region db

/-! ## Orphaned deliveries -/

/-- Whether a delivery's lease has expired in a running region. -/
def orphaned (now : Time) (db : Db) (d : Delivery) : Bool :=
  d.status = .leased && d.lease.any (·.expiresAt ≤ now) &&
    db.regions.any fun r => r.id = d.regionId && r.lifecycleStatus = .running

/-- The statement that releases orphaned deliveries. -/
def releaseOrphans (now : Time) (db : Db) : Outcome Db :=
  updateDeliveries (orphaned now db)
    (fun d => { d with status := .ready, availableAt := now, lease := none }) db

/-! ## Cancelling regions -/

/-- Whether an execution belongs to a region. -/
def executionIn (db : Db) (regionId executionId : Uuid) : Bool :=
  db.executions.any fun e => e.id = executionId && e.regionId = regionId

/-- The transaction that settles one cancelling region. -/
def settleCancelling (now : Time) (regionId : Uuid) (db : Db) : Outcome Db :=
  match (db.region? regionId).filter (·.lifecycleStatus = .cancelling) with
  | none => .ok db
  | some region => do
    let before := db
    let db ← updateAttempts
      (fun a => (a.status = .pending || a.status.active) && executionIn before region.id a.executionId)
      (closeAttempt .cancelled now none) db
    let db ← updateExecutions (fun e => e.regionId = region.id && e.status = .running)
      (fun e => { e with status := .failed, failedAt := some now, completedAt := none,
                         failure := some cancellationFailure }) db
    let db ← updateDeliveries
      (fun d => d.regionId = region.id && (d.status = .ready || d.status = .leased))
      (fun d => { d with status := .cancelled, lease := none }) db
    let regions ← sql (update (fun r => r.id = region.id)
      (fun r => { r with lifecycleStatus := .cancelled,
                         lifecycleEpoch := region.lifecycleEpoch + 1 }) db.regions)
    return { db with regions }

/-- The regions that are being cancelled, by id. -/
def cancellingRegionIds (db : Db) : List Uuid :=
  ((db.regions.filter (·.lifecycleStatus = .cancelling)).map (·.id)).insertionSort (· ≤ ·)

/-! ## A pass -/

/-- One transaction for each candidate, one after the other. -/
def forEach {α : Type} (tx : α → Db → Outcome Db) : List α → Db → Outcome Unit × Db
  | [], db => (.ok (), db)
  | a :: rest, db =>
    match tx a db with
    | .ok db => forEach tx rest db
    | .error e => (.error e, db)

/-- The phases of a pass after its commits. -/
def recoverLeases (P : Platform) (now : Time) (db : Db) : Outcome Unit × Db :=
  match forEach (fun id db => (·.2) <$> recoverExpired P now id db) (expiredAttemptIds now db) db with
  | (.error e, db) => (.error e, db)
  | (.ok (), db) =>
    match releaseOrphans now db with
    | .error e => (.error e, db)
    | .ok db => forEach (settleCancelling now) (cancellingRegionIds db) db

/-- `StartupRecoveryService.run`, up to the reconciliation of other services. -/
def recoveryPass (P : Platform) (env : CommitEnv) (resultCommitBatchSize : ℕ) (db : Db) :
    Outcome SubmissionCounts × Db :=
  let env := { env with allowExpiredLease := true }
  match recoverSubmissions P env (pendingSubmissions resultCommitBatchSize db)
      { committed := 0, rejected := 0 } db with
  | (.error e, db) => (.error e, db)
  | (.ok counts, db) =>
    match recoverLeases P env.now db with
    | (.error e, db) => (.error e, db)
    | (.ok (), db) => (.ok counts, db)

end FactoryFloor
