import FactoryFloor.Artifacts
import FactoryFloor.Commands

/-!
# Committing a submitted result

`ExecutionCommitService`. `commitTx` is the transaction : it locks the attempt and its
execution, answers a committed submission as a duplicate, checks that the submission still
has authority (`assertAuthority`) and is well formed, publishes what it proposes, and
closes the attempt (`complete`, `failOrRetry`). `commit` deletes the submission after the
transaction is rejected.

Each phase is a function of its own, in the order of the source.
-/

namespace FactoryFloor

open Relational

/-- `RETRY_BACKOFF_MS`. -/
def retryBackoffMs : List ℕ := [1000, 5000, 30000]

/-- `RESOURCE_UNITS`. -/
def resourceUnits : List (String × String) :=
  [("cpuMilliseconds", "milliseconds"), ("wallMilliseconds", "milliseconds"),
    ("inputBytes", "bytes"), ("outputBytes", "bytes"), ("externalCalls", "count")]

/-- What one commit runs with. -/
structure CommitEnv where
  now : Time
  allowExpiredLease : Bool
  stores : Stores
  /-- The transaction fails for a reason of the moment, outside the artifact validation. -/
  aborts : Bool

/-- The same commit with healthy stores and a healthy database. -/
def CommitEnv.healthy (env : CommitEnv) : CommitEnv :=
  { env with stores := env.stores.healthy, aborts := false }

/-- The recovery commit in the same state, with healthy stores and a healthy database. -/
def CommitEnv.recovery (env : CommitEnv) : CommitEnv :=
  { env.healthy with allowExpiredLease := true }

inductive CommitDisposition where
  | duplicate | committed | retryScheduled | deadLettered
deriving DecidableEq, Repr

/-! ## Authority -/

/-- The attempt and the execution of a submission. -/
def lockAttempt (input : ProposedExecutionResult) (db : Db) :
    Outcome (ExecutionAttempt × Execution) :=
  match db.attempts.find? fun a => a.id = input.attemptId && a.executionId = input.executionId,
    db.execution? input.executionId with
  | some attempt, some execution => .ok (attempt, execution)
  | _, _ => .error (.commit "inactive_attempt" "attempt is not active" 409)

/-- `assertAuthority`. -/
def assertAuthority (env : CommitEnv) (input : ProposedExecutionResult)
    (attempt : ExecutionAttempt) (execution : Execution) (region : Region)
    (deliveries : List Delivery) : Outcome Unit := do
  require (attempt.lease.map (·.token) = some input.leaseToken)
    (.commit "stale_lease_token" "lease token is not current" 409)
  require (env.allowExpiredLease || attempt.lease.any (env.now < ·.expiresAt))
    (.commit "lease_expired" "lease has expired" 409)
  require (execution.lifecycleEpoch = input.lifecycleEpoch &&
      region.lifecycleEpoch = input.lifecycleEpoch && region.lifecycleStatus = .running)
    (.commit "stale_lifecycle_epoch" "lifecycle epoch is not current" 409)
  require (deliveries.all fun d =>
      d.status = .leased && d.lease.map (·.token) = some input.leaseToken)
    (.commit "stale_lease_token" "input delivery lease is not current" 409)

/-! ## The checks of the content -/

/-- `usage[key]`. -/
def quantityOf (usage : Json) (key : String) : Option ℚ :=
  match usage.get? key with
  | some (.num q) => some q
  | _ => none

/-- The canonical counters of a usage object are there, and no other key. -/
def onlyCanonicalCounters (members : List (String × Json)) : Bool :=
  members.length == resourceUnits.length &&
    members.all fun m => (resourceUnits.map Prod.fst).contains m.1

/-- `validateResourceUsage`. -/
def validateResourceUsage (usage : Json) : Outcome Unit := do
  match usage with
  | .obj members =>
    require (onlyCanonicalCounters members)
      (.commit "invalid_resource_usage" "resourceUsage must contain only canonical counters" 400)
    (resourceUnits.map Prod.fst).forM fun key =>
      require ((quantityOf usage key).any isNonNegativeSafeInteger)
        (.commit "invalid_resource_usage" (key ++ " must be a non-negative safe integer") 400)
  | _ => .error (.commit "invalid_resource_usage" "resourceUsage must be an object" 400)

/-- Whether the metadata and the source of a proposed event are valid. -/
def eventMetadataValid (P : Platform) (input : ProposedExecutionResult) (event : ProposedEvent) :
    Bool :=
  !isBlank event.eventType && !isBlank event.subject && !event.schemaId.isBlank &&
    (P.parseDate event.occurredAt).isSome &&
    isExecutionSource event.source input.executionId input.attemptId

/-- The schema of a proposed event, unless it is not authoritative. -/
def eventSchema (db : Db) (schemaId : Uuid) (schemaDigest : Digest) : Option ArtifactSchema :=
  (db.schema? schemaId).filter fun s => s.retiredAt.isNone && s.contentDigest = schemaDigest

/-- `validateProposedEvents`. One Ajv instance compiles the schemas of all the events :
`compiled` lists those it has compiled. -/
def validateProposedEvents (P : Platform) (input : ProposedExecutionResult) (db : Db) :
    List Json → List ProposedEvent → Outcome Unit
  | _, [] => .ok ()
  | compiled, event :: events => do
    require (eventMetadataValid P input event)
      (.commit "invalid_proposed_event" "proposed event metadata or source is invalid" 400)
    match P.uuidOf event.schemaId with
    | none => .error (.sql (.invalidText "uuid"))
    | some schemaId =>
      match eventSchema db schemaId event.schemaDigest with
      | none =>
        .error (.commit "invalid_proposed_event" "proposed event schema is not authoritative" 400)
      | some schema =>
        require (P.compiles compiled schema.schema) (.thrown "schema does not compile")
        require (P.validates schema.schema event.payload)
          (.commit "invalid_proposed_event" "proposed event payload failed schema validation" 400)
        validateProposedEvents P input db (compiled ++ [schema.schema]) events

/-! ## Staged artifacts -/

/-- A staged row with its schema's digest and the port its upload was authorized for. -/
structure AuthorizedStaging extends ArtifactStaging where
  schemaDigest : Digest
  authorizedPortName : String
deriving DecidableEq, Repr

/-- `artifact_staging` joined with its schema and its upload. -/
def authorizedStaging (db : Db) (stagedRef : Uuid) : Option AuthorizedStaging :=
  (db.staging.find? (·.stagedRef = stagedRef)).bind fun row =>
    (db.schema? row.schemaId).bind fun schema =>
      (db.uploads.find? (·.artifactStagingId = some row.id)).map fun upload =>
        { toArtifactStaging := row, schemaDigest := schema.contentDigest,
          authorizedPortName := upload.portName }

/-- Whether the metadata of a staged artifact is that of its row and port. -/
def stagedMetadataValid (input : ProposedExecutionResult) (staged : Staged)
    (port : PortDefinition) (row : AuthorizedStaging) : Bool :=
  row.attemptId = input.attemptId && row.status = .staged && row.digest = staged.digest &&
    row.sizeBytes = staged.sizeBytes && .uuid row.schemaId = staged.schemaId &&
    .uuid port.schemaId = staged.schemaId && row.mediaType = staged.mediaType &&
    row.schemaDigest = staged.schemaDigest && row.authorizedPortName = staged.portName &&
    isExecutionSource staged.provenance input.executionId input.attemptId

/-- The text of a port direction. -/
def PortDirection.text : PortDirection → String
  | .input => "input"
  | .output => "output"
  | .state => "state"

/-- `validateStaged`. -/
def validateStaged (P : Platform) (env : CommitEnv) (input : ProposedExecutionResult)
    (ports : List PortDefinition) (direction : PortDirection) (staged : Staged) (db : Db) :
    Outcome ArtifactStaging :=
  match ports.find? fun p => p.direction = direction && p.name = staged.portName with
  | none =>
    .error (.commit "undeclared_output_port"
      (direction.text ++ " port " ++ staged.portName ++ " is not declared") 400)
  | some port =>
    match (authorizedStaging db staged.stagingId).filter (stagedMetadataValid input staged port) with
    | none =>
      .error (.commit "invalid_staged_artifact" "staged artifact metadata is not authoritative" 400)
    | some row =>
      if input.status = .completed then
        if env.stores.blobStore.isNone then
          .error (.commit "blob_store_unavailable" "artifact blob store is not configured" 503)
        else
          match validateStagedArtifact P env.stores row.id db with
          | .ok () => .ok row.toArtifactStaging
          | .error e => .error (.commit "invalid_staged_artifact" e.message 400)
      else .ok row.toArtifactStaging

/-- Where the publication of a result stands : the staging references seen, the artifact of
each published reference, and the database. -/
structure Publishing where
  seen : List Uuid
  artifactIds : List (Uuid × Uuid)
  db : Db

/-- Validate one staged output or state, and publish it when the result is completed. -/
def stageArtifact (P : Platform) (env : CommitEnv) (input : ProposedExecutionResult)
    (ports : List PortDefinition) (direction : PortDirection) (derivationType : DerivationType)
    (duplicateMessage : String) (p : Publishing) (staged : Staged) : Outcome Publishing := do
  require (!p.seen.contains staged.stagingId)
    (.commit "invalid_staged_artifact" duplicateMessage 400)
  let row ← validateStaged P env input ports direction staged p.db
  if input.status = .completed then
    let (artifactId, db) ←
      publishArtifact P input.executionId input.attemptId row derivationType p.db
    return { seen := staged.stagingId :: p.seen,
             artifactIds := (staged.stagingId, artifactId) :: p.artifactIds, db }
  else return { p with seen := staged.stagingId :: p.seen }

/-- The loop over `stagedArtifacts`. -/
def stageOutputs (P : Platform) (env : CommitEnv) (input : ProposedExecutionResult)
    (ports : List PortDefinition) (p : Publishing) : Outcome Publishing :=
  input.stagedArtifacts.foldlM
    (stageArtifact P env input ports .output .executionOutput
      "staged artifact is referenced more than once as an output") p

/-- The publication of `proposedState`. -/
def stageState (P : Platform) (env : CommitEnv) (input : ProposedExecutionResult)
    (ports : List PortDefinition) (p : Publishing) : Outcome Publishing :=
  match input.proposedState with
  | none => .ok p
  | some state =>
    stageArtifact P env input ports .state .stateVersion
      "state artifact is also referenced as an output" p state

/-! ## External actions -/

/-- `validateExternalActionProposal`. -/
def validateExternalActionProposal (P : Platform) (proposal : ExternalActionProposal) :
    Outcome Unit :=
  require (P.matchesUuidPattern (.uuid proposal.proposalId) && !isBlank proposal.actionType &&
      !isBlank proposal.idempotencyKey && !isBlank proposal.capabilityHandle)
    (.commit "invalid_external_action_proposal" "external action proposal metadata is invalid" 400)

/-- `decodeCapabilityGrantHandle`. -/
def decodeCapabilityGrantHandle (P : Platform) (handle : String) : Option Text :=
  if "ffcap_".toList.isPrefixOf handle.toList then
    let grantId := P.base64url (String.ofList (handle.toList.drop 6))
    if P.matchesUuidPattern grantId then some grantId else none
  else none

/-- The active grant of a capability to a component definition. -/
def activeGrant (db : Db) (grantId componentDefinitionId : Uuid) : Option CapabilityGrant :=
  db.grants.find? fun g =>
    g.id = grantId && g.granteeComponentDefinitionId = componentDefinitionId && g.active &&
      db.capabilities.any fun c => c.id = g.capabilityId && c.retiredAt.isNone

/-- The grant a proposal may act under. -/
def authorizeProposal (P : Platform) (component : ComponentInstance)
    (proposal : ExternalActionProposal) (db : Db) : Outcome CapabilityGrant := do
  match decodeCapabilityGrantHandle P proposal.capabilityHandle with
  | none =>
    .error (.commit "external_action_unauthorized" "capability handle is invalid" 403)
  | some handle =>
    match P.uuidOf handle with
    | none => .error (.sql (.invalidText "uuid"))
    | some grantId =>
      match activeGrant db grantId component.componentDefinitionId with
      | none =>
        .error (.commit "external_action_unauthorized"
          "capability handle is not authorized for this component" 403)
      | some grant => .ok grant

/-- The artifact of a proposal's request : the published one, or a new one. -/
def publishRequest (P : Platform) (env : CommitEnv) (input : ProposedExecutionResult)
    (ports : List PortDefinition) (request : Staged) (p : Publishing) :
    Outcome (Uuid × Publishing) := do
  let row ← validateStaged P env input ports .output request p.db
  match p.artifactIds.lookup request.stagingId with
  | some artifactId => return (artifactId, p)
  | none =>
    let (artifactId, db) ←
      publishArtifact P input.executionId input.attemptId row .externalActionRequest p.db
    return (artifactId,
      { p with artifactIds := (request.stagingId, artifactId) :: p.artifactIds, db })

/-- The conflict of `ON CONFLICT DO NOTHING` on external actions. -/
def sameAction (a b : ExternalAction) : Bool :=
  a.capabilityGrantId = b.capabilityGrantId && a.actionType = b.actionType &&
      a.idempotencyKey = b.idempotencyKey ||
    a.attemptId = b.attemptId && a.proposalId = b.proposalId

/-- Insert an external action, unless an action has one of its keys. -/
def insertAction (P : Platform) (action : ExternalAction) (db : Db) : Outcome Db := do
  if db.actions.any (sameAction action) then return db.draw
  else
    indexed P "external_actions_capability_grant_id_action_type_idempotency_key_key"
      (action.actionType ++ action.idempotencyKey)
    let actions ← sql (insert action db.actions)
    return { db.draw with actions }

/-- The action a proposal stands for : the one of the attempt, or the one with its key. -/
def actionOf (action : ExternalAction) (db : Db) : Option ExternalAction :=
  (db.actions.find? fun a => a.attemptId = action.attemptId && a.proposalId = action.proposalId).or
    (db.actions.find? fun a => a.capabilityGrantId = action.capabilityGrantId &&
      a.actionType = action.actionType && a.idempotencyKey = action.idempotencyKey)

/-- Whether the action found is the one proposed. -/
def isProposedAction (action found : ExternalAction) : Bool :=
  found.executionId = action.executionId && found.attemptId = action.attemptId &&
    found.proposalId = action.proposalId &&
    found.outboundRequestArtifactId = action.outboundRequestArtifactId && found.risk = action.risk

/-- The publication of one external action proposal. -/
def publishExternalAction (P : Platform) (env : CommitEnv) (input : ProposedExecutionResult)
    (component : ComponentInstance) (ports : List PortDefinition) (p : Publishing)
    (proposal : ExternalActionProposal) : Outcome Publishing := do
  validateExternalActionProposal P proposal
  let grant ← authorizeProposal P component proposal p.db
  let (requestArtifactId, p) ← publishRequest P env input ports proposal.requestArtifact p
  let action : ExternalAction :=
    { id := p.db.nextUuid P, executionId := input.executionId, attemptId := input.attemptId,
      proposalId := proposal.proposalId, capabilityGrantId := grant.id,
      outboundRequestArtifactId := requestArtifactId, approvalId := none,
      actionType := proposal.actionType, risk := proposal.risk, status := .proposed,
      idempotencyKey := proposal.idempotencyKey }
  let db ← insertAction P action p.db
  require ((actionOf action db).any (isProposedAction action))
    (.commit "duplicate_conflicting_external_action"
      "external action proposal conflicts with an existing action" 409)
  return { p with db }

/-- `publishExternalActions`. -/
def publishExternalActions (P : Platform) (env : CommitEnv) (input : ProposedExecutionResult)
    (component : ComponentInstance) (ports : List PortDefinition) (p : Publishing) :
    Outcome Publishing :=
  input.externalActionProposals.foldlM (publishExternalAction P env input component ports) p

/-! ## Closing the attempt -/

/-- The ledger rows of a result : the counters that are not zero. -/
def ledgerEntries (regionId : Uuid) (input : ProposedExecutionResult) :
    List ResourceLedgerEntry :=
  resourceUnits.filterMap fun (resourceType, unit) =>
    match quantityOf input.resourceUsage resourceType with
    | some quantity =>
      if quantity = 0 then none
      else some { regionId, executionId := some input.executionId,
                  attemptId := some input.attemptId, externalActionId := none, resourceType,
                  quantity, unit, admissionRequestId := none }
    | none => none

/-- `writeResourceUsage`. -/
def writeResourceUsage (regionId : Uuid) (input : ProposedExecutionResult) (db : Db) : Db :=
  { db with ledger := db.ledger ++ ledgerEntries regionId input,
            drawn := db.drawn + (ledgerEntries regionId input).length }

/-- The largest version number of a component's state. -/
def latestVersion (componentInstanceId : Uuid) (db : Db) : ℕ :=
  ((db.stateVersions.filter (·.componentInstanceId = componentInstanceId)).map
    (·.versionNumber)).foldr max 0

/-- The trigger `record_execution_component_state_version`. -/
def recordComponentStateVersion (output : ExecutionOutput) (db : Db) : Outcome Db :=
  match output.publishedEventId, db.execution? output.executionId,
    db.artifacts.find? (·.id = output.artifactId) with
  | none, some execution, some artifact =>
    if (db.component? execution.componentInstanceId).any fun component =>
        db.ports.any fun port => port.componentDefinitionId = component.componentDefinitionId &&
          port.direction = .state && port.name = output.portName &&
          port.schemaId = artifact.schemaId then do
      let stateVersions ← sql (insert
        { componentInstanceId := execution.componentInstanceId, statePortName := output.portName,
          versionNumber := latestVersion execution.componentInstanceId db + 1,
          artifactId := output.artifactId, schemaId := artifact.schemaId,
          source := .execution output.executionId output.attemptId }
        db.stateVersions)
      return { db with stateVersions }
    else return db
  | _, _, _ => return db

/-- `INSERT INTO execution_outputs`, with its trigger. -/
def insertOutput (output : ExecutionOutput) (db : Db) : Outcome Db := do
  let outputs ← sql (insert output db.outputs)
  recordComponentStateVersion output { db.draw with outputs }

/-- The artifact a staging reference was published as. -/
def publishedArtifact (artifactIds : List (Uuid × Uuid)) (stagingId : Uuid) : Outcome Uuid :=
  match artifactIds.lookup stagingId with
  | some artifactId => .ok artifactId
  | none => .error (.sql (.notNull "execution_outputs.artifact_id"))

/-- The publication of one output : its event, its row and its deliveries. -/
def publishOutput (P : Platform) (now : Time) (input : ProposedExecutionResult)
    (execution : Execution) (component : ComponentInstance) (correlationId : Text)
    (artifactIds : List (Uuid × Uuid)) (db : Db) (staged : Staged) : Outcome Db := do
  let artifactId ← publishedArtifact artifactIds staged.stagingId
  let (event, db) ← insertEvent P
    { regionId := execution.regionId, eventType := "component.output",
      payload := .obj [("portName", .str staged.portName),
        ("artifactId", .str (P.uuidText artifactId))],
      streamKey := .component component.id staged.portName, correlationId,
      source := .component input.executionId input.attemptId component.id staged.portName } db
  let db ← insertOutput
    { executionId := input.executionId, attemptId := input.attemptId,
      portName := staged.portName, artifactId, publishedEventId := some event.id } db
  let (_, db) ← routeComponentEvent P now event execution.topologyRevisionId db
  return db

/-- The output row of the proposed state. -/
def publishState (input : ProposedExecutionResult) (artifactIds : List (Uuid × Uuid)) (db : Db) :
    Outcome Db :=
  match input.proposedState with
  | none => .ok db
  | some state => do
    let artifactId ← publishedArtifact artifactIds state.stagingId
    insertOutput
      { executionId := input.executionId, attemptId := input.attemptId,
        portName := state.portName, artifactId, publishedEventId := none } db

/-- The event of one proposed event. -/
def publishEvent (P : Platform) (input : ProposedExecutionResult) (execution : Execution)
    (correlationId : Text) (db : Db) (proposed : ProposedEvent) : Outcome Db := do
  let (_, db) ← insertEvent P
    { regionId := execution.regionId, eventType := proposed.eventType,
      payload := proposed.payload, streamKey := .subject proposed.subject, correlationId,
      source := .attempt input.executionId input.attemptId } db
  return db

/-- The attempt, closed with a status. -/
def closeAttempt (status : AttemptStatus) (now : Time) (failure : Option Json)
    (a : ExecutionAttempt) : ExecutionAttempt :=
  { a with status, completedAt := some now, failure, lease := none }

/-- The end of a completed attempt, of its execution and of its deliveries. -/
def closeCompleted (now : Time) (input : ProposedExecutionResult) (deliveries : List Delivery)
    (db : Db) : Outcome Db := do
  let db ← updateAttempts (·.id = input.attemptId) (closeAttempt .completed now none) db
  let db ← updateExecutions (·.id = input.executionId)
    (fun e => { e with status := .completed, completedAt := some now, failedAt := none,
                       failure := none }) db
  updateDeliveries (fun d => d.id ∈ deliveries.map (·.id))
    (fun d => { d with status := .completed, completedAt := some now, failedAt := none,
                       deadLetteredAt := none, lease := none }) db

/-- `complete`. -/
def complete (P : Platform) (now : Time) (input : ProposedExecutionResult) (execution : Execution)
    (component : ComponentInstance) (deliveries : List Delivery) (artifactIds : List (Uuid × Uuid))
    (db : Db) : Outcome (CommitDisposition × Db) := do
  let first ← takeFirstOrThrow "deliveries" deliveries.head?
  let correlationId := first.correlationId
  let db ← input.stagedArtifacts.foldlM
    (publishOutput P now input execution component correlationId artifactIds) db
  let db ← publishState input artifactIds db
  let db ← input.proposedEvents.foldlM (publishEvent P input execution correlationId) db
  let db ← closeCompleted now input deliveries db
  return (.committed, db)

/-- The failure a result reports. -/
def reportedFailure (input : ProposedExecutionResult) : Json :=
  input.failure.getD (.obj
    [("code", .str (if input.status = .cancelled then "cancelled" else "worker_failed")),
     ("message", .str (if input.status = .cancelled then "worker reported cancelled"
       else "worker reported failed")),
     ("retryable", .bool false)])

/-- The pending attempt after the attempt with a number. -/
def nextAttempt (P : Platform) (executionId : Uuid) (attemptNumber : ℕ) (startedAt : Time)
    (db : Db) : ExecutionAttempt :=
  { id := db.nextUuid P, executionId, attemptNumber := attemptNumber + 1, status := .pending,
    lease := none, startedAt := some startedAt, completedAt := none, failure := none }

/-- Insert the next attempt of an execution, unless there is one with its number. -/
def insertNextAttempt (P : Platform) (executionId : Uuid) (attemptNumber : ℕ) (startedAt : Time)
    (db : Db) : Outcome Db := do
  let attempts ← sql (insertOrIgnore
    (fun a b => a.executionId = b.executionId && a.attemptNumber = b.attemptNumber)
    (nextAttempt P executionId attemptNumber startedAt db) db.attempts)
  return { db.draw with attempts }

/-- When the next attempt may start, if the failure is retried. -/
def retryDelay (input : ProposedExecutionResult) (attempt : ExecutionAttempt) : Option ℕ :=
  if input.status = .failed && (reportedFailure input).isTrueAt "retryable" then
    retryBackoffMs[attempt.attemptNumber - 1]?
  else none

/-- `failOrRetry`. -/
def failOrRetry (P : Platform) (now : Time) (input : ProposedExecutionResult)
    (execution : Execution) (attempt : ExecutionAttempt) (deliveries : List Delivery) (db : Db) :
    Outcome (CommitDisposition × Db) := do
  let failure := reportedFailure input
  let status := if input.status = .cancelled then .cancelled else .failed
  let db ← updateAttempts (·.id = input.attemptId) (closeAttempt status now (some failure)) db
  match retryDelay input attempt with
  | some delay =>
    let db ← insertNextAttempt P execution.id attempt.attemptNumber (now + delay) db
    let db ← updateDeliveries (fun d => d.id ∈ deliveries.map (·.id))
      (fun d => { d with status := .ready, availableAt := now + delay, completedAt := none,
                         failedAt := none, deadLetteredAt := none, lease := none }) db
    return (.retryScheduled, db)
  | none =>
    let db ← updateExecutions (·.id = execution.id)
      (fun e => { e with status := .failed, failedAt := some now, completedAt := none,
                         failure := some failure }) db
    let db ← updateDeliveries (fun d => d.id ∈ deliveries.map (·.id))
      (fun d => { d with status := .deadLettered, completedAt := none, failedAt := none,
                         deadLetteredAt := some now, lease := none }) db
    return (.deadLettered, db)

/-! ## The transaction -/

/-- The input deliveries of an execution, by id. -/
def lockDeliveries (executionId : Uuid) (db : Db) : List Delivery :=
  (db.inputDeliveries executionId).insertionSort fun d e => d.id ≤ e.id

/-- The submission row of an attempt that has none. -/
def recordSubmission (P : Platform) (now : Time) (input : ProposedExecutionResult) (submissionDigest : Digest)
    (db : Db) : Outcome Db :=
  match db.submission? input.attemptId with
  | some _ => .ok db
  | none => do
    let submissions ← sql (insert
      { id := db.nextUuid P, executionId := input.executionId, attemptId := input.attemptId,
        submissionDigest, result := input, createdAt := now, committedAt := none }
      db.submissions)
    return { db.draw with submissions }

/-- Set `committed_at` of the submission. -/
def markCommitted (now : Time) (attemptId : Uuid) (submissionDigest : Digest) (db : Db) :
    Outcome Db := do
  let submissions ← sql (update
    (fun s => s.attemptId = attemptId && s.submissionDigest = submissionDigest &&
      s.committedAt.isNone)
    (fun s => { s with committedAt := some now }) db.submissions)
  return { db with submissions }

/-- The publication of a result whose authority and content are checked, and the end of its
attempt. -/
def publishResult (P : Platform) (env : CommitEnv) (input : ProposedExecutionResult)
    (attempt : ExecutionAttempt) (execution : Execution) (region : Region)
    (component : ComponentInstance) (deliveries : List Delivery) (db : Db) :
    Outcome (CommitDisposition × Db) := do
  let ports := db.ports.filter (·.componentDefinitionId = component.componentDefinitionId)
  let p ← stageOutputs P env input ports { seen := [], artifactIds := [], db }
  let p ← stageState P env input ports p
  if input.status = .completed then
    let p ← publishExternalActions P env input component ports p
    complete P env.now input execution component deliveries p.artifactIds
      (writeResourceUsage region.id input p.db)
  else
    failOrRetry P env.now input execution attempt deliveries
      (writeResourceUsage region.id input p.db)

/-- What a commit has locked before it checks authority. -/
structure Locked where
  attempt : ExecutionAttempt
  execution : Execution
  region : Region
  component : ComponentInstance
  deliveries : List Delivery

/-- Lock the rows of an active attempt. -/
def lockActive (attempt : ExecutionAttempt) (execution : Execution) (db : Db) : Outcome Locked := do
  require attempt.status.active (.commit "inactive_attempt" "attempt is already terminal" 409)
  require (execution.status = .running)
    (.commit "inactive_attempt" "execution is already terminal" 409)
  let region ← takeFirstOrThrow "regions" (db.region? execution.regionId)
  let component ← takeFirstOrThrow "component_instances"
    (db.component? execution.componentInstanceId)
  let _ ← takeFirstOrThrow "topology_revisions"
    (db.revisions.find? (·.id = execution.topologyRevisionId))
  let deliveries := lockDeliveries execution.id db
  require (!deliveries.isEmpty) (.commit "inactive_attempt" "execution has no inputs" 409)
  return { attempt, execution, region, component, deliveries }

/-- The checks of the content. -/
def validateContent (P : Platform) (input : ProposedExecutionResult) (db : Db) : Outcome Unit := do
  validateResourceUsage input.resourceUsage
  validateProposedEvents P input db [] input.proposedEvents
  require (input.status = .completed || input.externalActionProposals.isEmpty)
    (.commit "external_action_unauthorized"
      "external actions may only be proposed by a completed attempt" 400)

/-- The transaction of `commit`. -/
def commitTx (P : Platform) (env : CommitEnv) (input : ProposedExecutionResult)
    (submissionDigest : Digest) (db : Db) : Outcome (CommitDisposition × Db) := do
  require (!env.aborts) .transient
  let (attempt, execution) ← lockAttempt input db
  let submission := db.submission? input.attemptId
  require (submission.all (·.submissionDigest = submissionDigest))
    (.commit "duplicate_conflicting_result" "attempt already has a different proposed result" 409)
  if submission.any (·.committedAt.isSome) then return (.duplicate, db)
  else
    let l ← lockActive attempt execution db
    assertAuthority env input l.attempt l.execution l.region l.deliveries
    validateContent P input db
    let db ← recordSubmission P env.now input submissionDigest db
    let (disposition, db) ←
      publishResult P env input l.attempt l.execution l.region l.component l.deliveries db
    let db ← markCommitted env.now input.attemptId submissionDigest db
    return (disposition, db)

/-- `error instanceof ExecutionCommitError && error.statusCode < 500`. -/
def RuntimeError.rejects : RuntimeError → Bool
  | .commit _ _ statusCode => statusCode < 500
  | _ => false

/-- The statement that deletes a rejected submission. -/
def deleteSubmission (attemptId : Uuid) (submissionDigest : Digest) (db : Db) : Db :=
  { db with submissions := db.submissions.filter fun s =>
      !(s.attemptId = attemptId && s.submissionDigest = submissionDigest && s.committedAt.isNone) }

/-- `commit` with nothing in between : the transaction, and the deletion when it is rejected. -/
def commit (P : Platform) (env : CommitEnv) (input : ProposedExecutionResult)
    (submissionDigest : Digest) (db : Db) : Outcome CommitDisposition × Db :=
  match commitTx P env input submissionDigest db with
  | .ok (disposition, db') => (.ok disposition, db')
  | .error e =>
    (.error e, if e.rejects then deleteSubmission input.attemptId submissionDigest db else db)

/-- `commitSubmittedResult`. -/
def commitSubmittedResult (P : Platform) (env : CommitEnv) (attemptId : Uuid) (db : Db) :
    Outcome CommitDisposition × Db :=
  match db.submission? attemptId with
  | none => (.error (.noResult "worker_result_submissions"), db)
  | some s => commit P env s.result s.submissionDigest db

end FactoryFloor
