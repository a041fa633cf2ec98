import FactoryFloor.Relational
import FactoryFloor.Values

/-!
# The tables of the runtime

The rows of the PostgreSQL schema (`packages/db/src/migrations`) that the runtime reads,
with their CHECK and unique constraints as `Row` instances. A lease is the triple of
columns `lease_owner`, `lease_token`, `lease_expires_at`, which every statement sets or
clears together.

`Db` groups the tables by who writes them, so that a function that writes one group keeps
the others by construction : the catalog (definitions and topologies, fixed while work
runs), the scheduling tables, the artifact tables, and what a commit publishes. `drawn`
counts the uuids and tokens drawn so far.
-/

namespace FactoryFloor

open Relational

/-! ## Statuses -/

inductive LifecycleStatus where
  | declared | starting | ready | running | completing | completed | blocked | suspended
  | cancelling | cancelled | failed
deriving DecidableEq, Repr

inductive DeliveryStatus where
  | ready | leased | completed | failed | deadLettered | cancelled
deriving DecidableEq, Repr

/-- `TERMINAL_DELIVERY_STATUSES`. -/
def DeliveryStatus.terminal : DeliveryStatus → Bool
  | .completed | .failed | .cancelled | .deadLettered => true
  | .ready | .leased => false

inductive ExecutionStatus where
  | pending | running | completed | failed | cancelled
deriving DecidableEq, Repr

/-- `TERMINAL_EXECUTION_STATUSES`. -/
def ExecutionStatus.terminal : ExecutionStatus → Bool
  | .completed | .failed => true
  | .pending | .running | .cancelled => false

inductive AttemptStatus where
  | pending | leased | running | completed | failed | cancelled | abandoned
deriving DecidableEq, Repr

/-- `['leased', 'running'].includes(status)`. -/
def AttemptStatus.active : AttemptStatus → Bool
  | .leased | .running => true
  | _ => false

/-- `TERMINAL_ATTEMPT_STATUSES`. -/
def AttemptStatus.terminal : AttemptStatus → Bool
  | .completed | .failed | .cancelled | .abandoned => true
  | .pending | .leased | .running => false

theorem ExecutionStatus.ne_running_of_terminal {s : ExecutionStatus} (h : s.terminal = true) :
    s ≠ .running := by
  rintro rfl
  simp [ExecutionStatus.terminal] at h

theorem DeliveryStatus.ne_leased_of_terminal {s : DeliveryStatus} (h : s.terminal = true) :
    s ≠ .leased := by
  rintro rfl
  simp [DeliveryStatus.terminal] at h

theorem AttemptStatus.not_active_of_terminal {s : AttemptStatus} (h : s.terminal = true) :
    s.active = false := by
  cases s <;> simp_all [AttemptStatus.active, AttemptStatus.terminal]

theorem AttemptStatus.terminal_of_active {s : AttemptStatus} (h : s.active = true) :
    s.terminal = false := by
  cases s <;> simp_all [AttemptStatus.active, AttemptStatus.terminal]

inductive PortDirection where
  | input | output | state
deriving DecidableEq, Repr

inductive ArtifactState where
  | staged | committed | tombstoned
deriving DecidableEq, Repr

inductive StagingStatus where
  | staged | promoted | abandoned
deriving DecidableEq, Repr

inductive ExternalActionStatus where
  | proposed | policyChecked | awaitingApproval | authorized | dispatching | acknowledged
  | reconciled | denied | failed | cancelled | indeterminate
deriving DecidableEq, Repr

inductive ReservationStatus where
  | reserved | reconciled | released
deriving DecidableEq, Repr

/-- The outcomes of an admission decision. `admitted` is the text `admit`. -/
inductive AdmissionOutcome where
  | admitted | defer | requireApproval | suspend | reject
deriving DecidableEq, Repr

inductive CommandStatus where
  | accepted | rejected | completed | cancelled | expired
deriving DecidableEq, Repr

/-- The name of the first constraint that does not hold. -/
def firstViolation (constraints : List (String × Bool)) : Option String :=
  (constraints.find? fun c => !c.2).map Prod.fst

theorem firstViolation_eq_none {constraints : List (String × Bool)} :
    firstViolation constraints = none ↔ ∀ c ∈ constraints, c.2 = true := by
  simp [firstViolation]

/-! ## Catalog -/

structure ArtifactSchema where
  id : Uuid
  contentDigest : Digest
  schema : Json
  retiredAt : Option Time

structure ComponentDefinition where
  id : Uuid
  name : String
  version : String
deriving DecidableEq, Repr

structure PortDefinition where
  componentDefinitionId : Uuid
  name : String
  direction : PortDirection
  schemaId : Uuid
  required : Bool
deriving DecidableEq, Repr

/-- A rule of `spec.fanIn`. `expected` is `Number(rule.completion?.expected)` where that is
a positive integer. -/
structure FanInRule where
  input : String
  expected : Option ℕ
deriving DecidableEq, Repr

/-- A target of `ingress.commands`. -/
structure IngressTarget where
  component : String
  port : String
deriving DecidableEq, Repr

structure TopologyRevision where
  id : Uuid
  regionId : Uuid
  fanIn : List FanInRule
  ingressCommands : List (String × List IngressTarget)
deriving DecidableEq, Repr

structure ComponentInstance where
  id : Uuid
  regionId : Uuid
  topologyRevisionId : Uuid
  componentDefinitionId : Uuid
  name : String
deriving DecidableEq, Repr

structure Connection where
  topologyRevisionId : Uuid
  sourceComponentInstanceId : Uuid
  sourcePortName : String
  targetComponentInstanceId : Uuid
  targetPortName : String
deriving DecidableEq, Repr

structure Capability where
  id : Uuid
  retiredAt : Option Time
deriving DecidableEq, Repr

structure CapabilityGrant where
  id : Uuid
  capabilityId : Uuid
  granteeComponentDefinitionId : Uuid
  active : Bool
deriving DecidableEq, Repr

structure Catalog where
  schemas : List ArtifactSchema
  definitions : List ComponentDefinition
  ports : List PortDefinition
  revisions : List TopologyRevision
  components : List ComponentInstance
  connections : List Connection
  capabilities : List Capability
  grants : List CapabilityGrant

/-! ## Scheduling -/

structure Region where
  id : Uuid
  parentRegionId : Option Uuid
  name : String
  lifecycleStatus : LifecycleStatus
  lifecycleEpoch : ℕ
  activeTopologyRevisionId : Option Uuid
deriving DecidableEq, Repr

instance : Row Region where
  violation _ := none
  uniques := [("regions_pkey", fun r s => r.id = s.id)]

/-- Why a command is rejected. -/
structure Rejection where
  code : String
  message : String
deriving DecidableEq, Repr

structure Command where
  id : Uuid
  regionId : Uuid
  commandType : String
  payload : Json
  status : CommandStatus
  requestDigest : Digest
  rejection : Option Rejection
  correlationId : Text
  idempotencyKey : Option String

instance : Row Command where
  violation _ := none
  uniques := [("commands_pkey", fun c d => c.id = d.id),
    ("commands_region_id_idempotency_key_key", fun c d =>
      c.idempotencyKey.isSome && c.regionId = d.regionId && c.idempotencyKey = d.idempotencyKey)]

/-- `lease_owner`, `lease_token` and `lease_expires_at`. -/
structure Lease where
  owner : String
  token : LeaseToken
  expiresAt : Time
deriving DecidableEq, Repr

/-- `source_command_id` or `source_event_id` : exactly one of them is set. -/
inductive DeliverySource where
  | command (id : Uuid)
  | event (id : Uuid)
deriving DecidableEq, Repr

/-- The columns by which the scheduler groups deliveries. -/
structure GroupKey where
  regionId : Uuid
  topologyRevisionId : Uuid
  targetComponentInstanceId : Uuid
  correlationId : Text
deriving DecidableEq, Repr

structure Delivery extends GroupKey where
  id : Uuid
  targetPortName : String
  source : DeliverySource
  inputPayload : Json
  inputPayloadDigest : Digest
  status : DeliveryStatus
  availableAt : Time
  lease : Option Lease
  attemptsCount : ℕ
  completedAt : Option Time
  failedAt : Option Time
  deadLetteredAt : Option Time
  failure : Option Json
  createdAt : Time

instance : Row Delivery where
  violation d := firstViolation
    [("deliveries_check1", (d.status = .leased : Bool) == d.lease.isSome),
     ("deliveries_check3", (d.status = .completed : Bool) == d.completedAt.isSome),
     ("deliveries_check4",
       (d.status = .failed : Bool) == (d.failedAt.isSome && d.failure.isSome)),
     ("deliveries_dead_lettered_at_check",
       (d.status = .deadLettered : Bool) == d.deadLetteredAt.isSome)]
  uniques := [("deliveries_pkey", fun d e => d.id = e.id),
    ("deliveries_source_target_unique", fun d e =>
      d.source = e.source && d.topologyRevisionId = e.topologyRevisionId &&
        d.targetComponentInstanceId = e.targetComponentInstanceId &&
        d.targetPortName = e.targetPortName)]

/-- A delivery has a lease exactly while it is leased. -/
theorem Delivery.leased_eq {d : Delivery} (h : Row.violation d = none) :
    (decide (d.status = .leased)) = d.lease.isSome := by
  have := firstViolation_eq_none.1 h ("deliveries_check1", _) (by simp; rfl)
  simpa using this

/-- `InputIdentity`. The source kind and the source id are the delivery's source. -/
structure InputIdentity where
  portName : String
  deliveryId : Uuid
  source : DeliverySource
  payloadDigest : Digest
deriving DecidableEq, Repr

/-- The digest of a set of inputs. SHA-256 is taken to be free of collisions : a digest is
the sorted list of identities it is the digest of. -/
abbrev InputSetDigest := List InputIdentity

structure Execution where
  id : Uuid
  deliveryId : Uuid
  regionId : Uuid
  componentInstanceId : Uuid
  topologyRevisionId : Uuid
  lifecycleEpoch : ℕ
  inputSetDigest : InputSetDigest
  status : ExecutionStatus
  completedAt : Option Time
  failedAt : Option Time
  failure : Option Json

instance : Row Execution where
  violation e := firstViolation
    [("executions_check", (e.status = .completed : Bool) == e.completedAt.isSome),
     ("executions_check1", (e.status = .failed : Bool) == (e.failedAt.isSome && e.failure.isSome))]
  uniques := [("executions_pkey", fun e f => e.id = f.id),
    ("executions_delivery_id_key", fun e f => e.deliveryId = f.deliveryId),
    ("executions_logical_identity_unique", fun e f =>
      e.regionId = f.regionId && e.componentInstanceId = f.componentInstanceId &&
        e.topologyRevisionId = f.topologyRevisionId && e.lifecycleEpoch = f.lifecycleEpoch &&
        e.inputSetDigest = f.inputSetDigest)]

structure ExecutionInput where
  executionId : Uuid
  portName : String
  deliveryId : Uuid
deriving DecidableEq, Repr

instance : Row ExecutionInput where
  violation _ := none
  uniques := [("execution_inputs_execution_id_port_name_delivery_id_key", fun i j => i = j)]

structure ExecutionAttempt where
  id : Uuid
  executionId : Uuid
  attemptNumber : ℕ
  status : AttemptStatus
  lease : Option Lease
  startedAt : Option Time
  completedAt : Option Time
  failure : Option Json

instance : Row ExecutionAttempt where
  violation a := firstViolation
    [("execution_attempts_attempt_number_check", 0 < a.attemptNumber),
     ("execution_attempts_check", a.status.active == a.lease.isSome),
     ("execution_attempts_terminal_completed_at_check", a.status.terminal == a.completedAt.isSome),
     ("execution_attempts_failed_failure_check", (a.status = .failed : Bool) == a.failure.isSome)]
  uniques := [("execution_attempts_pkey", fun a b => a.id = b.id),
    ("execution_attempts_execution_id_attempt_number_key", fun a b =>
      a.executionId = b.executionId && a.attemptNumber = b.attemptNumber)]

/-- An attempt has a lease exactly while it is active. -/
theorem ExecutionAttempt.active_eq {a : ExecutionAttempt} (h : Row.violation a = none) :
    a.status.active = a.lease.isSome := by
  have := firstViolation_eq_none.1 h ("execution_attempts_check", _) (by simp; rfl)
  simpa using this

structure ResourceBudget where
  id : Uuid
  /-- The region of the budget (`scope_kind` is `region`). -/
  scopeId : Uuid
  parentBudgetId : Option Uuid
  resourceType : String
  unit : String
  limitQuantity : ℕ
  exhaustionOutcome : AdmissionOutcome
  retiredAt : Option Time
deriving DecidableEq, Repr

instance : Row ResourceBudget where
  violation b := firstViolation
    [("resource_budgets_exhaustion_outcome_check", b.exhaustionOutcome ≠ .admitted)]
  uniques := [("resource_budgets_pkey", fun b c => b.id = c.id),
    ("resource_budgets_active_scope_resource_unique", fun b c =>
      b.retiredAt.isNone && c.retiredAt.isNone && b.scopeId = c.scopeId &&
        b.resourceType = c.resourceType)]

/-- The idempotency key of a reservation. -/
inductive ReservationKey where
  | concurrentExecutions (executionId : Uuid)
  | networkCalls (externalActionId : Uuid)
  | other (key : String)
deriving DecidableEq, Repr

structure ResourceReservation where
  requestId : Uuid
  budgetId : Uuid
  regionId : Uuid
  executionId : Option Uuid
  attemptId : Option Uuid
  externalActionId : Option Uuid
  idempotencyKey : ReservationKey
  quantity : ℕ
  status : ReservationStatus
deriving DecidableEq, Repr

instance : Row ResourceReservation where
  violation _ := none
  uniques := [("resource_reservations_budget_idempotency_unique", fun r s =>
    r.budgetId = s.budgetId && r.idempotencyKey = s.idempotencyKey)]

structure Scheduling where
  regions : List Region
  commands : List Command
  deliveries : List Delivery
  executions : List Execution
  inputs : List ExecutionInput
  attempts : List ExecutionAttempt
  budgets : List ResourceBudget
  reservations : List ResourceReservation

/-! ## Artifacts -/

structure ArtifactStaging where
  id : Uuid
  attemptId : Uuid
  stagedRef : Uuid
  digest : Digest
  sizeBytes : ℕ
  schemaId : Uuid
  mediaType : String
  status : StagingStatus
  artifactId : Option Uuid
deriving DecidableEq, Repr

instance : Row ArtifactStaging where
  violation s := firstViolation
    [("artifact_staging_status_consistency", s.status ≠ .promoted || s.artifactId.isSome)]
  uniques := [("artifact_staging_pkey", fun s t => s.id = t.id),
    ("artifact_staging_attempt_id_staged_ref_key", fun s t =>
      s.attemptId = t.attemptId && s.stagedRef = t.stagedRef),
    ("artifact_staging_locator_unique", fun s t => s.stagedRef = t.stagedRef)]

structure ArtifactUpload where
  stagedRef : Uuid
  executionId : Uuid
  attemptId : Uuid
  lifecycleEpoch : ℕ
  portName : String
  schemaId : Uuid
  mediaType : String
  expectedDigest : Digest
  expectedSizeBytes : ℕ
  expiresAt : Time
  artifactStagingId : Option Uuid
deriving DecidableEq, Repr

instance : Row ArtifactUpload where
  violation _ := none
  uniques := [("worker_artifact_uploads_staged_ref_key", fun u v => u.stagedRef = v.stagedRef),
    ("worker_artifact_uploads_artifact_staging_id_key", fun u v =>
      u.artifactStagingId.isSome && u.artifactStagingId = v.artifactStagingId)]

structure Artifact where
  id : Uuid
  digest : Digest
  sizeBytes : ℕ
  schemaId : Uuid
  state : ArtifactState
  mediaType : String
deriving DecidableEq, Repr

instance : Row Artifact where
  violation _ := none
  uniques := [("artifacts_pkey", fun a b => a.id = b.id),
    ("artifacts_digest_algorithm_digest_key", fun a b => a.digest = b.digest)]

inductive DerivationType where
  | executionOutput | stateVersion | externalActionRequest
deriving DecidableEq, Repr

structure ArtifactDerivation where
  artifactId : Uuid
  executionId : Uuid
  attemptId : Uuid
  derivationType : DerivationType
deriving DecidableEq, Repr

structure ArtifactTables where
  staging : List ArtifactStaging
  uploads : List ArtifactUpload
  artifacts : List Artifact
  derivations : List ArtifactDerivation

/-! ## Publications -/

/-- The stream keys the runtime builds. -/
inductive StreamKey where
  | component (componentId : Uuid) (portName : String)
  | subject (subject : String)
  | regionCommands (regionId : Uuid)
deriving DecidableEq, Repr

inductive EventSource where
  | command (commandId : Uuid)
  | component (executionId attemptId componentId : Uuid) (portName : String)
  | attempt (executionId attemptId : Uuid)
deriving DecidableEq, Repr

/-- `source_attempt_id`. -/
def EventSource.attemptId? : EventSource → Option Uuid
  | .command _ => none
  | .component _ attemptId _ _ => some attemptId
  | .attempt _ attemptId => some attemptId

structure Event where
  id : Uuid
  regionId : Uuid
  eventType : String
  payload : Json
  streamKey : StreamKey
  sequenceNumber : ℕ
  correlationId : Text
  source : EventSource

instance : Row Event where
  violation _ := none
  uniques := [("events_pkey", fun e f => e.id = f.id),
    ("events_stream_key_sequence_number_key", fun e f =>
      e.streamKey = f.streamKey && e.sequenceNumber = f.sequenceNumber)]

structure ExecutionOutput where
  executionId : Uuid
  attemptId : Uuid
  portName : String
  artifactId : Uuid
  publishedEventId : Option Uuid
deriving DecidableEq, Repr

instance : Row ExecutionOutput where
  violation _ := none
  uniques := [("execution_outputs_execution_id_port_name_artifact_id_key", fun o p =>
    o.executionId = p.executionId && o.portName = p.portName && o.artifactId = p.artifactId)]

structure ExternalAction where
  id : Uuid
  executionId : Uuid
  attemptId : Uuid
  proposalId : Uuid
  capabilityGrantId : Uuid
  outboundRequestArtifactId : Uuid
  approvalId : Option Uuid
  actionType : String
  risk : ExternalActionRisk
  status : ExternalActionStatus
  idempotencyKey : String
deriving DecidableEq, Repr

instance : Row ExternalAction where
  violation _ := none
  uniques := [("external_actions_pkey", fun a b => a.id = b.id),
    ("external_actions_capability_grant_id_action_type_idempotency_key_key", fun a b =>
      a.capabilityGrantId = b.capabilityGrantId && a.actionType = b.actionType &&
        a.idempotencyKey = b.idempotencyKey),
    ("external_actions_attempt_proposal_unique", fun a b =>
      a.attemptId = b.attemptId && a.proposalId = b.proposalId)]

structure ResourceLedgerEntry where
  regionId : Uuid
  executionId : Option Uuid
  attemptId : Option Uuid
  externalActionId : Option Uuid
  resourceType : String
  quantity : ℚ
  unit : String
  /-- `attributes ->> 'admission_request_id'` -/
  admissionRequestId : Option Uuid
deriving DecidableEq, Repr

instance : Row ResourceLedgerEntry where
  violation l := firstViolation
    [("resource_ledger_quantity_check", decide (0 ≤ l.quantity)),
     ("resource_ledger_check", l.executionId.isSome || l.externalActionId.isSome)]
  uniques := [("resource_ledger_admission_request_unique", fun l m =>
    l.admissionRequestId.isSome && l.admissionRequestId = m.admissionRequestId &&
      l.resourceType = m.resourceType)]

/-- The source of a component state version. -/
inductive StateSource where
  | templateInstantiation (instantiationId : Uuid)
  | execution (executionId attemptId : Uuid)
deriving DecidableEq, Repr

structure ComponentStateVersion where
  componentInstanceId : Uuid
  statePortName : String
  versionNumber : ℕ
  artifactId : Uuid
  schemaId : Uuid
  source : StateSource
deriving DecidableEq, Repr

instance : Row ComponentStateVersion where
  violation v := firstViolation
    [("component_state_versions_state_port_name_check", !isBlank v.statePortName),
     ("component_state_versions_version_number_check", 0 < v.versionNumber)]
  uniques := [("component_state_versions_component_instance_id_state_port_name_key", fun v w =>
    v.componentInstanceId = w.componentInstanceId && v.statePortName = w.statePortName &&
      v.versionNumber = w.versionNumber)]

structure WorkerResultSubmission where
  id : Uuid
  executionId : Uuid
  attemptId : Uuid
  submissionDigest : Digest
  result : ProposedExecutionResult
  createdAt : Time
  committedAt : Option Time

instance : Row WorkerResultSubmission where
  violation _ := none
  uniques := [("worker_result_submissions_pkey", fun s t => s.id = t.id),
    ("worker_result_submissions_attempt_id_key", fun s t => s.attemptId = t.attemptId)]

structure Publications where
  submissions : List WorkerResultSubmission
  outputs : List ExecutionOutput
  events : List Event
  /-- `event_stream_sequences` : the next sequence number of each stream. -/
  streams : List (StreamKey × ℕ)
  actions : List ExternalAction
  ledger : List ResourceLedgerEntry
  stateVersions : List ComponentStateVersion

/-! ## The database -/

/-- The tables, and how many uuids and tokens have been drawn. -/
structure Db extends Catalog, Scheduling, ArtifactTables, Publications where
  drawn : ℕ

/-- Why a call fails. Only `commit` errors below 500 count as rejections of a result. -/
inductive RuntimeError where
  /-- `ExecutionCommitError`. -/
  | commit (code message : String) (statusCode : ℕ)
  /-- `WorkerProtocolError`. -/
  | worker (code message : String) (retryable : Bool) (statusCode : ℕ)
  /-- An error of the operator, the command or the external action service. -/
  | request (code : String)
  /-- The database refuses a statement. -/
  | sql (error : SqlError)
  /-- A query that must return a row returns none. -/
  | noResult (table : String)
  /-- A library or language built-in throws. -/
  | thrown (message : String)
  /-- The connection or a store fails. -/
  | transient
deriving DecidableEq, Repr

/-- The outcome of a call or a transaction. -/
abbrev Outcome (α : Type) := Except RuntimeError α

/-- A statement inside a transaction. -/
def sql {α : Type} (statement : Except SqlError α) : Outcome α :=
  statement.mapError .sql

@[simp] theorem sql_eq_ok {α : Type} {statement : Except SqlError α} {a : α} :
    sql statement = .ok a ↔ statement = .ok a :=
  Except.mapError_eq_ok

/-- `executeTakeFirstOrThrow`. -/
def takeFirstOrThrow {α : Type} (table : String) : Option α → Outcome α
  | some a => .ok a
  | none => .error (.noResult table)

@[simp] theorem takeFirstOrThrow_eq_ok {α : Type} {table : String} {row : Option α} {a : α} :
    takeFirstOrThrow table row = .ok a ↔ row = some a := by
  cases row <;> simp [takeFirstOrThrow]

/-- A text that a statement puts in an entry of the named index. -/
def indexed (P : Platform) (index s : String) : Outcome Unit :=
  if P.indexable s then .ok () else .error (.sql (.indexRowTooLarge index))

@[simp] theorem indexed_eq_ok {P : Platform} {index s : String} :
    indexed P index s = .ok () ↔ P.indexable s = true := by
  unfold indexed
  split <;> simp_all

/-- The stored value of a NOT NULL `jsonb` parameter. -/
def bound (P : Platform) (column : String) (value : Json) : Outcome Json :=
  match P.bindJsonb value with
  | some stored => .ok stored
  | none => .error (.sql (.invalidText column))

@[simp] theorem bound_eq_ok {P : Platform} {column : String} {value stored : Json} :
    bound P column value = .ok stored ↔ P.bindJsonb value = some stored := by
  unfold bound
  split <;> simp_all

/-- Fails with `e` unless the condition holds. -/
def require (condition : Bool) (e : RuntimeError) : Outcome Unit :=
  if condition then .ok () else .error e

@[simp] theorem require_eq_ok {condition : Bool} {e : RuntimeError} :
    require condition e = .ok () ↔ condition = true := by
  cases condition <;> simp [require]

namespace Db

variable (P : Platform) (db : Db)

/-- The uuid `createUuidV7` returns next. -/
def nextUuid : Uuid :=
  P.uuid db.drawn

/-- The token `generateLeaseToken` returns next. -/
def nextToken : LeaseToken :=
  P.token db.drawn

/-- One more draw. -/
def draw : Db :=
  { db with drawn := db.drawn + 1 }

def region? (id : Uuid) : Option Region :=
  db.regions.find? (·.id = id)

def component? (id : Uuid) : Option ComponentInstance :=
  db.components.find? (·.id = id)

def execution? (id : Uuid) : Option Execution :=
  db.executions.find? (·.id = id)

def attempt? (id : Uuid) : Option ExecutionAttempt :=
  db.attempts.find? (·.id = id)

def submission? (attemptId : Uuid) : Option WorkerResultSubmission :=
  db.submissions.find? (·.attemptId = attemptId)

def schema? (id : Uuid) : Option ArtifactSchema :=
  db.schemas.find? (·.id = id)

def artifactByDigest? (digest : Digest) : Option Artifact :=
  db.artifacts.find? (·.digest = digest)

/-- The attempts of an execution, in the order of their numbers. -/
def attemptsOf (executionId : Uuid) : List ExecutionAttempt :=
  db.attempts.filter (·.executionId = executionId)

/-- The delivery ids an execution has as inputs. -/
def inputIds (executionId : Uuid) : List Uuid :=
  (db.inputs.filter (·.executionId = executionId)).map (·.deliveryId)

/-- The deliveries an execution has as inputs : `execution_inputs` joined with `deliveries`. -/
def inputDeliveries (executionId : Uuid) : List Delivery :=
  db.deliveries.filter fun d => d.id ∈ db.inputIds executionId

end Db

/-! ## Triggers -/

/-- The trigger `sync_attempt_delivery_lease` on one updated row. -/
def syncAttemptDeliveryLease (inputs : List ExecutionInput) (deliveries : List Delivery)
    (old new : ExecutionAttempt) : Except SqlError (List Delivery) :=
  match new.lease with
  | none => .ok deliveries
  | some lease =>
    if new.status.active &&
        (old.lease.map (·.expiresAt) ≠ some lease.expiresAt ||
          old.lease.map (·.owner) ≠ some lease.owner || old.status ≠ new.status) then
      update
        (fun d => inputs.any (fun i => i.executionId = new.executionId && i.deliveryId = d.id) &&
          d.status = .leased && d.lease.map (·.token) = some lease.token)
        (fun d => { d with status := .leased, lease := some lease })
        deliveries
    else .ok deliveries

/-- `UPDATE execution_attempts`, with the trigger on every updated row. -/
def updateAttempts (p : ExecutionAttempt → Bool) (f : ExecutionAttempt → ExecutionAttempt)
    (db : Db) : Outcome Db := do
  let attempts ← sql (update p f db.attempts)
  let deliveries ← sql ((db.attempts.filter p).foldlM
    (fun deliveries a => syncAttemptDeliveryLease db.inputs deliveries a (f a)) db.deliveries)
  return { db with attempts, deliveries }

/-- The trigger `release_terminal_execution_admission` on one updated row. -/
def releaseTerminalExecutionAdmission (budgets : List ResourceBudget)
    (reservations : List ResourceReservation) (old new : Execution) : List ResourceReservation :=
  if new.status.terminal && old.status ≠ new.status then
    updateWhere
      (fun r => r.executionId = some new.id && r.status = .reserved &&
        budgets.any fun b => b.id = r.budgetId && b.resourceType = "concurrent_executions")
      (fun r => { r with status := .released })
      reservations
  else reservations

/-- `UPDATE executions`, with the trigger on every updated row. -/
def updateExecutions (p : Execution → Bool) (f : Execution → Execution) (db : Db) :
    Outcome Db := do
  let executions ← sql (update p f db.executions)
  let reservations := (db.executions.filter p).foldl
    (fun rs e => releaseTerminalExecutionAdmission db.budgets rs e (f e)) db.reservations
  return { db with executions, reservations }

/-- `UPDATE deliveries`. -/
def updateDeliveries (p : Delivery → Bool) (f : Delivery → Delivery) (db : Db) : Outcome Db := do
  let deliveries ← sql (update p f db.deliveries)
  return { db with deliveries }

/-- The trigger does nothing for an attempt without a lease. -/
theorem syncAttemptDeliveryLease_of_none {inputs : List ExecutionInput}
    {deliveries : List Delivery} {old new : ExecutionAttempt} (h : new.lease = none) :
    syncAttemptDeliveryLease inputs deliveries old new = .ok deliveries := by
  simp [syncAttemptDeliveryLease, h]

/-- The trigger changes nothing when no delivery holds the token of the attempt. -/
theorem syncAttemptDeliveryLease_of_unused {inputs : List ExecutionInput}
    {deliveries : List Delivery} {old new : ExecutionAttempt}
    (h : ∀ lease, new.lease = some lease →
      ∀ d ∈ deliveries, d.lease.map (·.token) ≠ some lease.token) :
    syncAttemptDeliveryLease inputs deliveries old new = .ok deliveries := by
  unfold syncAttemptDeliveryLease
  cases hl : new.lease with
  | none => rfl
  | some lease =>
    have hnone : ∀ d ∈ deliveries, ¬(inputs.any (fun i => i.executionId = new.executionId &&
        i.deliveryId = d.id) && d.status = .leased && d.lease.map (·.token) = some lease.token :
          Bool) := fun d hd hp => h lease hl d hd (by simp only [Bool.and_eq_true] at hp; simpa using hp.2)
    dsimp only
    split
    · rw [update_ok fun d hd hp => absurd hp (hnone d hd), updateWhere_eq_self hnone]
    · rfl

theorem updateDeliveries_eq_ok {p : Delivery → Bool} {f : Delivery → Delivery} {db db' : Db} :
    updateDeliveries p f db = .ok db' ↔
      db' = { db with deliveries := updateWhere p f db.deliveries } ∧
        ∀ d ∈ db.deliveries, p d → Row.violation (f d) = none := by
  unfold updateDeliveries
  rw [Except.bind_eq_ok]
  constructor
  · rintro ⟨deliveries, hd, h⟩
    obtain ⟨rfl, hv⟩ := update_eq_ok.1 (sql_eq_ok.1 hd)
    exact ⟨(Except.ok.inj h).symm, hv⟩
  · rintro ⟨rfl, hv⟩
    exact ⟨_, sql_eq_ok.2 (update_ok hv), rfl⟩

/-- An update of executions sets their columns, and may release reservations. -/
theorem updateExecutions_eq_ok {p : Execution → Bool} {f : Execution → Execution} {db db' : Db} :
    updateExecutions p f db = .ok db' ↔
      db' = { db with
        executions := updateWhere p f db.executions,
        reservations := (db.executions.filter p).foldl
          (fun rs e => releaseTerminalExecutionAdmission db.budgets rs e (f e)) db.reservations } ∧
        ∀ e ∈ db.executions, p e → Row.violation (f e) = none := by
  unfold updateExecutions
  rw [Except.bind_eq_ok]
  constructor
  · rintro ⟨executions, he, h⟩
    obtain ⟨rfl, hv⟩ := update_eq_ok.1 (sql_eq_ok.1 he)
    exact ⟨(Except.ok.inj h).symm, hv⟩
  · rintro ⟨rfl, hv⟩
    exact ⟨_, sql_eq_ok.2 (update_ok hv), rfl⟩

theorem updateAttempts_eq_ok {p : ExecutionAttempt → Bool}
    {f : ExecutionAttempt → ExecutionAttempt} {db db' : Db} :
    updateAttempts p f db = .ok db' ↔
      ∃ deliveries, (db.attempts.filter p).foldlM
          (fun ds a => syncAttemptDeliveryLease db.inputs ds a (f a)) db.deliveries =
          .ok deliveries ∧
        db' = { db with attempts := updateWhere p f db.attempts, deliveries } ∧
        ∀ a ∈ db.attempts, p a → Row.violation (f a) = none := by
  unfold updateAttempts
  rw [Except.bind_eq_ok]
  constructor
  · rintro ⟨attempts, ha, h⟩
    obtain ⟨rfl, hv⟩ := update_eq_ok.1 (sql_eq_ok.1 ha)
    obtain ⟨deliveries, hd, h⟩ := Except.bind_eq_ok.1 h
    exact ⟨deliveries, sql_eq_ok.1 hd, (Except.ok.inj h).symm, hv⟩
  · rintro ⟨deliveries, hd, rfl, hv⟩
    exact ⟨_, sql_eq_ok.2 (update_ok hv), Except.bind_eq_ok.2 ⟨_, sql_eq_ok.2 hd, rfl⟩⟩

/-- Updates of attempts after which the trigger does nothing. -/
theorem updateAttempts_eq_ok_of_inert {p : ExecutionAttempt → Bool}
    {f : ExecutionAttempt → ExecutionAttempt} {db db' : Db}
    (h : ∀ a ∈ db.attempts, p a →
      syncAttemptDeliveryLease db.inputs db.deliveries a (f a) = .ok db.deliveries) :
    updateAttempts p f db = .ok db' ↔
      db' = { db with attempts := updateWhere p f db.attempts } ∧
        ∀ a ∈ db.attempts, p a → Row.violation (f a) = none := by
  have hfold : ∀ l : List ExecutionAttempt, (∀ a ∈ l, a ∈ db.attempts ∧ p a) →
      l.foldlM (fun ds a => syncAttemptDeliveryLease db.inputs ds a (f a)) db.deliveries =
        .ok db.deliveries := by
    intro l hl
    induction l with
    | nil => rfl
    | cons a l ih =>
      rw [List.foldlM_cons, h a (hl a (by simp)).1 (hl a (by simp)).2]
      exact ih fun b hb => hl b (List.mem_cons_of_mem a hb)
  rw [updateAttempts_eq_ok, hfold _ fun a ha => List.mem_filter.1 ha]
  constructor
  · rintro ⟨deliveries, hd, rfl, hv⟩
    obtain rfl := Except.ok.inj hd
    exact ⟨rfl, hv⟩
  · rintro ⟨rfl, hv⟩
    exact ⟨_, rfl, rfl, hv⟩

/-- Updates that end leases leave the deliveries alone. -/
theorem updateAttempts_eq_ok_of_closed {p : ExecutionAttempt → Bool}
    {f : ExecutionAttempt → ExecutionAttempt} {db db' : Db} (h : ∀ a, (f a).lease = none) :
    updateAttempts p f db = .ok db' ↔
      db' = { db with attempts := updateWhere p f db.attempts } ∧
        ∀ a ∈ db.attempts, p a → Row.violation (f a) = none :=
  updateAttempts_eq_ok_of_inert fun a _ _ => syncAttemptDeliveryLease_of_none (h a)

end FactoryFloor
