import FactoryFloor.Commands

/-!
# Cancelling a run

`OperatorCommandService.cancelRun`. A run is the command that started it. Its deliveries are
those of the run's region with the run's correlation id, its executions are those triggered by
one of these deliveries, and its attempts are the attempts of these executions. What is not
terminal is cancelled.
-/

namespace FactoryFloor

open Relational

/-- `OPERATOR_CANCELLATION_FAILURE`. -/
def operatorCancellationFailure : Json :=
  .obj [("code", .str "operator_cancelled"),
    ("message", .str "Execution was cancelled by an operator."), ("retryable", .bool false)]

structure OperatorContext where
  principalId : String
  roles : List String
deriving DecidableEq, Repr

structure RunCancellationRequest where
  clientRequestId : String
  reason : String
deriving DecidableEq, Repr

structure CancellationReceipt where
  replayed : Bool
  cancelledDeliveries : ℕ
  cancelledExecutions : ℕ
  cancelledAttempts : ℕ
deriving DecidableEq, Repr

/-- `s.trim()`. -/
def trim (s : String) : String :=
  String.ofList ((s.toList.dropWhile isTrimmed).reverse.dropWhile isTrimmed).reverse

/-- `s.length` : the number of UTF-16 code units. -/
def utf16Length (s : String) : ℕ :=
  (s.toList.map fun c => if c.toNat < 0x10000 then 1 else 2).foldr (· + ·) 0

/-- `requireReason`. -/
def requireReason (reason : String) : Outcome String := do
  require (!isBlank reason) (.request "reason_required")
  require (utf16Length (trim reason) ≤ 1000) (.request "reason_too_long")
  return trim reason

/-! ## The rows of a run -/

/-- Whether a delivery belongs to a run. -/
def ofRun (run : Command) (d : Delivery) : Bool :=
  d.regionId = run.regionId && d.correlationId = run.correlationId

/-- The executions one of the run's deliveries triggers. -/
def runExecutions (run : Command) (db : Db) : List Execution :=
  db.executions.filter fun e => (db.deliveries.filter (ofRun run)).any (·.id = e.deliveryId)

/-- The attempts of the run's executions. -/
def runAttempts (run : Command) (db : Db) : List ExecutionAttempt :=
  db.attempts.filter fun a => (runExecutions run db).any (·.id = a.executionId)

/-- `isOperatorCancellation`. -/
def isOperatorCancellation (failure : Option Json) : Bool :=
  match failure.bind (Json.get? "code") with
  | some (.str code) => code = "operator_cancelled"
  | _ => false

/-- `cancellationReceipt`. -/
def cancellationReceipt (run : Command) (db : Db) : CancellationReceipt :=
  { replayed := true,
    cancelledDeliveries :=
      (db.deliveries.filter fun d => ofRun run d && d.status = .cancelled).length,
    cancelledExecutions :=
      ((runExecutions run db).filter fun e => isOperatorCancellation e.failure).length,
    cancelledAttempts := ((runAttempts run db).filter (·.status = .cancelled)).length }

/-! ## The transaction -/

/-- The three updates of `cancelRun`. -/
def cancelRows (now : Time) (run : Command) (before : Db) (db : Db) : Outcome Db := do
  let attemptIds := ((runAttempts run before).filter (!·.status.terminal)).map (·.id)
  let executionIds := ((runExecutions run before).filter (!·.status.terminal)).map (·.id)
  let deliveryIds := (before.deliveries.filter fun d => ofRun run d && !d.status.terminal).map (·.id)
  let db ← updateAttempts (fun a => a.id ∈ attemptIds)
    (fun a => { a with status := .cancelled, lease := none, completedAt := some now,
                       failure := none }) db
  let db ← updateExecutions (fun e => e.id ∈ executionIds)
    (fun e => { e with status := .failed, failedAt := some now, completedAt := none,
                       failure := some operatorCancellationFailure }) db
  updateDeliveries (fun d => d.id ∈ deliveryIds)
    (fun d => { d with status := .cancelled, lease := none }) db

/-- `cancelRun`. -/
def cancelRun (P : Platform) (now : Time) (context : OperatorContext) (runId : Uuid)
    (input : RunCancellationRequest) (db : Db) : Outcome (CancellationReceipt × Db) := do
  require (context.roles.contains "operator" || context.roles.contains "admin")
    (.request "operator_forbidden")
  require (!isBlank input.clientRequestId) (.request "client_request_id_required")
  let reason ← requireReason input.reason
  let requestDigest :=
    P.canonicalJsonDigest (.cancellation runId input.clientRequestId reason)
  match db.commands.find? (·.id = runId) with
  | none => .error (.request "run_not_found")
  | some run =>
    require (run.correlationId ≠ .other "") (.request "run_missing_correlation_id")
    let idempotencyKey := context.principalId ++ ":operator-cancel:" ++ input.clientRequestId
    match db.commands.find? fun c =>
        c.regionId = run.regionId && c.idempotencyKey = some idempotencyKey with
    | some existing =>
      require (existing.requestDigest = requestDigest)
        (.request "cancellation_idempotency_conflict")
      return (cancellationReceipt run db, db)
    | none =>
      indexedKey P (some idempotencyKey)
      let payload : Json := .obj [("runId", .str (P.uuidText runId)), ("reason", .str reason),
        ("clientRequestId", .str input.clientRequestId)]
      let command : Command :=
        { id := db.nextUuid P, regionId := run.regionId,
          commandType := "operator.run.cancel_requested", payload, status := .accepted,
          requestDigest, rejection := none, correlationId := run.correlationId,
          idempotencyKey := some idempotencyKey }
      let commands ← sql (insert command db.commands)
      let (_, db) ← insertEvent P
        { regionId := run.regionId, eventType := "operator.run.cancel_requested", payload,
          streamKey := .regionCommands run.regionId, correlationId := run.correlationId,
          source := .command command.id }
        { db.draw with commands }
      let cancelled ← cancelRows now run db db
      return ({ replayed := false,
                cancelledDeliveries :=
                  (db.deliveries.filter fun d => ofRun run d && !d.status.terminal).length,
                cancelledExecutions :=
                  ((runExecutions run db).filter (!·.status.terminal)).length,
                cancelledAttempts := ((runAttempts run db).filter (!·.status.terminal)).length },
              cancelled)

end FactoryFloor
