import FactoryFloor.Admission
import FactoryFloor.CancelRun

/-!
# External actions

`ExternalActionService` and `decideApproval`. A dispatch is a transaction that moves an authorized
action to `dispatching` (`prepareDispatch`), the provider's call, and a transaction that stores its
answer (`persistResult`). A reconciliation reads an uncertain action (`beginReconcile`), asks the
provider, and stores its answer too. An answer that is not indeterminate settles the reservation of
the network call, in a transaction of its own (`reconcileNetworkReservation`).

The columns that no statement here reads are left out : the policy decision of an action, which no
code under `packages` sets, and the time an attempt was requested.
-/

namespace FactoryFloor

open Relational

/-! ## The provider -/

/-- `ExternalActionProviderRequest`. -/
structure ExternalActionProviderRequest where
  actionId : Uuid
  actionType : String
  idempotencyKey : String
  capabilityGrantId : Uuid
  outboundRequestArtifactId : Uuid
deriving DecidableEq, Repr

inductive ProviderStatus where
  | acknowledged | failed | indeterminate
deriving DecidableEq, Repr

/-- `ExternalActionProviderResult`. -/
structure ExternalActionProviderResult where
  status : ProviderStatus
  response : Json

/-- `providerRequest`. -/
def providerRequest (a : ExternalAction) : ExternalActionProviderRequest :=
  { actionId := a.id, actionType := a.actionType, idempotencyKey := a.idempotencyKey,
    capabilityGrantId := a.capabilityGrantId,
    outboundRequestArtifactId := a.outboundRequestArtifactId }

/-! ## Tables -/

inductive ActionAttemptStatus where
  | pending | dispatching | acknowledged | failed | indeterminate
deriving DecidableEq, Repr

structure ExternalActionAttempt where
  id : Uuid
  externalActionId : Uuid
  attemptNumber : ℕ
  status : ActionAttemptStatus
  completedAt : Option Time
  response : Option Json

/-- `acknowledged`, `failed` or `indeterminate`. -/
def ActionAttemptStatus.answered : ActionAttemptStatus → Bool
  | .acknowledged | .failed | .indeterminate => true
  | .pending | .dispatching => false

instance : Row ExternalActionAttempt where
  violation a := firstViolation
    [("external_action_attempts_attempt_number_check", 0 < a.attemptNumber),
     ("external_action_attempts_check", a.status.answered == a.completedAt.isSome)]
  uniques := [("external_action_attempts_pkey", fun a b => a.id = b.id),
    ("external_action_attempts_external_action_id_attempt_number_key", fun a b =>
      a.externalActionId = b.externalActionId && a.attemptNumber = b.attemptNumber)]

inductive ApprovalStatus where
  | requested | approved | denied | cancelled
deriving DecidableEq, Repr

structure Approval where
  id : Uuid
  status : ApprovalStatus
  decidedAt : Option Time
  decidedBy : Option String
  decisionReason : Option String
  decisionClientRequestId : Option String
  decisionRequestDigest : Option Digest
deriving DecidableEq, Repr

/-- `approved` or `denied`. -/
def ApprovalStatus.decided : ApprovalStatus → Bool
  | .approved | .denied => true
  | .requested | .cancelled => false

instance : Row Approval where
  violation a := firstViolation
    [("approvals_check", (a.status ≠ .requested : Bool) == a.decidedAt.isSome),
     ("approvals_check1", a.status.decided == a.decidedBy.isSome),
     ("approvals_decision_audit_check",
       a.decisionReason.isSome == a.status.decided &&
         a.decisionClientRequestId.isSome == a.status.decided &&
         a.decisionRequestDigest.isSome == a.status.decided)]
  uniques := [("approvals_pkey", fun a b => a.id = b.id),
    ("approvals_decision_idempotency_unique", fun a b =>
      a.decidedBy.isSome && a.decisionClientRequestId.isSome && a.decidedBy = b.decidedBy &&
        a.decisionClientRequestId = b.decisionClientRequestId)]

/-- The tables with those of the attempts and approvals of external actions. -/
structure ActionDb extends Db where
  actionAttempts : List ExternalActionAttempt
  approvals : List Approval

/-- `dispatching`, `indeterminate` or `acknowledged`. -/
def ExternalActionStatus.uncertain : ExternalActionStatus → Bool
  | .dispatching | .indeterminate | .acknowledged => true
  | _ => false

/-- `dispatching`, `indeterminate` or `acknowledged`, of an attempt. -/
def ActionAttemptStatus.uncertain : ActionAttemptStatus → Bool
  | .dispatching | .indeterminate | .acknowledged => true
  | .pending | .failed => false

/-- `UPDATE external_actions SET status`. -/
def setActionStatus (p : ExternalAction → Bool) (status : ExternalActionStatus) (t : ActionDb) :
    ActionDb :=
  { t with actions := updateWhere p (fun a => { a with status }) t.actions }

/-! ## Dispatch -/

inductive DispatchPreparation where
  | dispatch (request : ExternalActionProviderRequest) (attemptId : Uuid)
  | deferred (outcome : AdmissionOutcome)
  | uncertain (status : ExternalActionStatus)
  | cancelled
  | terminal

/-- An action with its execution and the execution's region. -/
def dispatchRow (actionId : Uuid) (db : Db) : Option (ExternalAction × Execution × Region) :=
  (db.actions.find? (·.id = actionId)).bind fun action =>
    (db.execution? action.executionId).bind fun execution =>
      (db.region? execution.regionId).map fun region => (action, execution, region)

/-- The request for one network call of an action. -/
def networkCall (action : ExternalAction) (region : Region) : ReserveResourceInput :=
  { regionId := region.id, resourceType := "network_calls", quantity := 1,
    idempotencyKey := .networkCalls action.id, executionId := some action.executionId,
    attemptId := some action.attemptId, externalActionId := some action.id }

/-- The largest attempt number of an action. -/
def latestAttemptNumber (actionId : Uuid) (t : ActionDb) : ℕ :=
  ((t.actionAttempts.filter (·.externalActionId = actionId)).map (·.attemptNumber)).foldr max 0

/-- Whether the region still has the epoch in which the action was proposed. -/
def hasAuthority (execution : Execution) (region : Region) : Bool :=
  region.lifecycleStatus = .running && execution.lifecycleEpoch = region.lifecycleEpoch

/-- The attempt of an admitted dispatch, and the action's move to `dispatching`. -/
def startDispatch (P : Platform) (action : ExternalAction) (t : ActionDb) :
    Outcome (DispatchPreparation × ActionDb) := do
  let attempt : ExternalActionAttempt :=
    { id := t.nextUuid P, externalActionId := action.id,
      attemptNumber := latestAttemptNumber action.id t + 1, status := .dispatching,
      completedAt := none, response := none }
  let actionAttempts ← sql (insert attempt t.actionAttempts)
  return (.dispatch (providerRequest action) attempt.id,
    setActionStatus (·.id = action.id) .dispatching
      { t with toDb := t.toDb.draw, actionAttempts })

/-- `prepareDispatch`. -/
def prepareDispatch (P : Platform) (actionId : Uuid) (t : ActionDb) :
    Outcome (DispatchPreparation × ActionDb) :=
  match dispatchRow actionId t.toDb with
  | none => .error (.request "external_action_not_found")
  | some (action, execution, region) =>
    if action.status.uncertain then .ok (.uncertain action.status, t)
    else if action.status ≠ .authorized then .ok (.terminal, t)
    else if !hasAuthority execution region then
      .ok (.cancelled, setActionStatus (·.id = actionId) .cancelled t)
    else do
      let (outcome, db) ← reserveInTransaction P (networkCall action region) t.toDb
      if outcome ≠ .admitted then return (.deferred outcome, { t with toDb := db })
      else startDispatch P action { t with toDb := db }

/-! ## Answers -/

/-- The first transaction of `reconcile` : the request and the latest attempt of an uncertain
action, or nothing to ask. -/
def beginReconcile (actionId : Uuid) (t : ActionDb) :
    Outcome (Option (ExternalActionProviderRequest × Uuid)) :=
  match t.actions.find? (·.id = actionId) with
  | none => .error (.request "external_action_not_found")
  | some action =>
    if !action.status.uncertain then .ok none
    else
      match t.actionAttempts.find? fun a => a.externalActionId = actionId &&
          a.attemptNumber = latestAttemptNumber actionId t with
      | none => .error (.request "external_action_attempt_missing")
      | some attempt => .ok (some (providerRequest action, attempt.id))

/-- Who asked the provider. -/
inductive Asked where
  | dispatch | reconcile
deriving DecidableEq, Repr

/-- The status an answer stores with the action. -/
def answeredStatus : Asked → ProviderStatus → ExternalActionStatus
  | .dispatch, .acknowledged => .acknowledged
  | .reconcile, .acknowledged => .reconciled
  | _, .failed => .failed
  | _, .indeterminate => .indeterminate

/-- The status an answer stores with the attempt. -/
def attemptStatusOf : ProviderStatus → ActionAttemptStatus
  | .acknowledged => .acknowledged
  | .failed => .failed
  | .indeterminate => .indeterminate

/-- `persistResult`. -/
def persistResult (now : Time) (actionId attemptId : Uuid) (asked : Asked)
    (result : ExternalActionProviderResult) (t : ActionDb) : Outcome ActionDb := do
  let action ← takeFirstOrThrow "external_actions" (t.actions.find? (·.id = actionId))
  let attempt ← takeFirstOrThrow "external_action_attempts"
    (t.actionAttempts.find? fun a => a.id = attemptId && a.externalActionId = actionId)
  if action.status = .reconciled then return t
  else
    require action.status.uncertain (.request "external_action_state_conflict")
    require attempt.status.uncertain (.request "external_action_attempt_state_conflict")
    let actionAttempts ← sql (update (·.id = attemptId)
      (fun a => { a with status := attemptStatusOf result.status, completedAt := some now,
                         response := some result.response }) t.actionAttempts)
    return setActionStatus (·.id = actionId) (answeredStatus asked result.status)
      { t with actionAttempts }

/-- `reconcileNetworkReservation`. -/
def reconcileNetworkReservation (actionId : Uuid) (db : Db) : Outcome (Bool × Db) :=
  match db.reservations.find? fun r => r.externalActionId = some actionId &&
      db.budgets.any fun b => b.id = r.budgetId && b.resourceType = "network_calls" with
  | none => .ok (false, db)
  | some r => reconcile r.requestId 1 db

/-- The candidates of `reconcilePending`. -/
def pendingReconciliations (limit : ℕ) (db : Db) : List Uuid :=
  ((db.actions.filter (·.status.uncertain)).map (·.id)).take limit

/-! ## Approvals -/

structure ApprovalDecisionRequest where
  clientRequestId : String
  approve : Bool
  reason : String
deriving DecidableEq, Repr

inductive DecisionDisposition where
  | accepted | replayed
deriving DecidableEq, Repr

/-- The approval with a decision. -/
def decidedApproval (now : Time) (context : OperatorContext) (input : ApprovalDecisionRequest)
    (reason : String) (digest : Digest) (a : Approval) : Approval :=
  { a with
    status := if input.approve then .approved else .denied
    decidedAt := some now
    decidedBy := some context.principalId
    decisionReason := some reason
    decisionClientRequestId := some input.clientRequestId
    decisionRequestDigest := some digest }

/-- `decideApproval`. -/
def decideApproval (P : Platform) (now : Time) (context : OperatorContext) (approvalId : Uuid)
    (input : ApprovalDecisionRequest) (t : ActionDb) :
    Outcome (DecisionDisposition × ActionDb) := do
  require (context.roles.contains "operator" || context.roles.contains "admin")
    (.request "operator_forbidden")
  require (!isBlank input.clientRequestId) (.request "client_request_id_required")
  let reason ← requireReason input.reason
  let digest := P.canonicalJsonDigest
    (.decision approvalId input.clientRequestId input.approve reason)
  let reused := t.approvals.find? fun a => a.decidedBy = some context.principalId &&
    a.decisionClientRequestId = some input.clientRequestId
  require (reused.all (·.id = approvalId)) (.request "approval_idempotency_conflict")
  match t.approvals.find? (·.id = approvalId) with
  | none => .error (.request "approval_not_found")
  | some approval =>
    if approval.status ≠ .requested then
      require (approval.decidedBy = some context.principalId &&
          approval.decisionClientRequestId = some input.clientRequestId &&
          approval.decisionRequestDigest = some digest)
        (.request "approval_not_pending")
      return (.replayed, t)
    else
      require ((t.actions.filter (·.approvalId = some approvalId)).all
          (·.status = .awaitingApproval))
        (.request "approval_context_changed")
      let approvals ← sql (update (·.id = approvalId)
        (decidedApproval now context input reason digest) t.approvals)
      return (.accepted, setActionStatus (·.approvalId = some approvalId)
        (if input.approve then .authorized else .denied) { t with approvals })

end FactoryFloor
