import FactoryFloor.Commit
import FactoryFloor.Scheduler

/-!
# The worker protocol

`WorkerProtocolService` : what a worker may ask of the control plane. A request names its
attempt by id, lease token and epoch, and `activeAttempt` checks that they are current.

`submitResult` has two transactions. `handoff` stores the result, and `commit` publishes it;
anything may happen between the two. `withState` reads a component's latest state into the
envelope of a claimed attempt, outside every transaction.
-/

namespace FactoryFloor

open Relational

/-! ## Requests -/

/-- `invalidRequest`. -/
def invalidRequest (message : String) : RuntimeError :=
  .worker "invalid_request" message false 400

structure AttemptIdentity where
  executionId : Uuid
  attemptId : Uuid
  leaseToken : LeaseToken
  regionFencingEpoch : ℕ
deriving DecidableEq, Repr

/-- `normalizeAttemptIdentity`. -/
def normalizeAttemptIdentity (input : AttemptIdentityInput) : Outcome AttemptIdentity := do
  require (input.regionFencingEpoch.isNone || input.lifecycleEpoch.isNone ||
      input.regionFencingEpoch = input.lifecycleEpoch)
    (invalidRequest "regionFencingEpoch conflicts with lifecycleEpoch")
  match input.regionFencingEpoch.or input.lifecycleEpoch with
  | some (.ofNat epoch) =>
    return { executionId := input.executionId, attemptId := input.attemptId,
             leaseToken := input.leaseToken, regionFencingEpoch := epoch }
  | _ =>
    .error (invalidRequest "regionFencingEpoch (or worker protocol v1 lifecycleEpoch) is required")

/-- `normalizeStagedArtifact`, under the commit's names. -/
def normalizeStagedArtifact (artifact : StagedArtifactInput) : Outcome Staged := do
  require (artifact.stagingRef.isNone || artifact.stagingId.isNone ||
      artifact.stagingRef = artifact.stagingId)
    (invalidRequest "stagingRef conflicts with stagingId")
  match artifact.stagingRef.or artifact.stagingId with
  | some stagingId =>
    return { stagingId, portName := artifact.portName, digest := artifact.digest,
             sizeBytes := artifact.sizeBytes, mediaType := artifact.mediaType,
             schemaId := artifact.schemaId, schemaDigest := artifact.schemaDigest,
             provenance := artifact.provenance }
  | none => .error (invalidRequest "stagingRef (or worker protocol v1 stagingId) is required")

/-- `commitInput` : the result a request proposes. -/
def commitInput (input : ProposedResultInput) : Outcome ProposedExecutionResult := do
  let attempt ← normalizeAttemptIdentity input.toAttemptIdentityInput
  let stagedArtifacts ← input.stagedArtifacts.mapM normalizeStagedArtifact
  let proposedState ← input.proposedState.mapM normalizeStagedArtifact
  return { executionId := attempt.executionId, attemptId := attempt.attemptId,
           leaseToken := attempt.leaseToken, lifecycleEpoch := attempt.regionFencingEpoch,
           status := input.status, stagedArtifacts, proposedState,
           proposedEvents := input.proposedEvents,
           externalActionProposals := input.externalActionProposals,
           resourceUsage := input.resourceUsage, failure := input.failure }

/-- The digest of a submission. -/
def submissionDigestOf (P : Platform) (input : ProposedResultInput) : Digest :=
  P.canonicalJsonDigest (.submission input)

/-- The attempt a proposed result names. -/
def ProposedExecutionResult.identity (input : ProposedExecutionResult) : AttemptIdentity :=
  { executionId := input.executionId, attemptId := input.attemptId,
    leaseToken := input.leaseToken, regionFencingEpoch := input.lifecycleEpoch }

/-! ## The active attempt -/

/-- `ActiveAttemptRow`. -/
structure ActiveAttemptRow where
  attempt : ExecutionAttempt
  execution : Execution
  region : Region
  leaseExpiresAt : Time

/-- An attempt joined with its execution and region. -/
def attemptRow (input : AttemptIdentity) (db : Db) :
    Option (ExecutionAttempt × Execution × Region) :=
  (db.attempts.find? fun a => a.id = input.attemptId && a.executionId = input.executionId).bind
    fun attempt => (db.execution? attempt.executionId).bind fun execution =>
      (db.region? execution.regionId).map fun region => (attempt, execution, region)

/-- `activeAttempt`. -/
def activeAttempt (now : Time) (input : AttemptIdentity) (db : Db) : Outcome ActiveAttemptRow := do
  match attemptRow input db with
  | none => .error (.worker "inactive_attempt" "attempt is not active" false 409)
  | some (attempt, execution, region) =>
    require attempt.status.active
      (.worker "inactive_attempt" "attempt is not active" false 409)
    require (attempt.lease.map (·.token) = some input.leaseToken)
      (.worker "stale_lease_token" "lease token is not current" false 409)
    require (execution.lifecycleEpoch = input.regionFencingEpoch &&
        region.lifecycleEpoch = input.regionFencingEpoch)
      (.worker "stale_lifecycle_epoch" "lifecycle epoch is not current" false 409)
    match attempt.lease.filter (now < ·.expiresAt) with
    | none => .error (.worker "lease_expired" "lease has expired" true 409)
    | some lease => return { attempt, execution, region, leaseExpiresAt := lease.expiresAt }

/-! ## Heartbeats -/

structure HeartbeatReply where
  leaseValid : Bool
  leaseExpiresAt : Time
  cancellationRequested : Bool
deriving DecidableEq, Repr

/-- The row a heartbeat updates. -/
def isAttempt (input : AttemptIdentity) (a : ExecutionAttempt) : Bool :=
  a.id = input.attemptId && a.executionId = input.executionId &&
    a.lease.map (·.token) = some input.leaseToken

/-- The attempt, running under a lease that is extended. -/
def extendLease (expiresAt : Time) (a : ExecutionAttempt) : ExecutionAttempt :=
  { a with status := .running, lease := a.lease.map fun l => { l with expiresAt } }

/-- `heartbeat`. -/
def heartbeat (now leaseDurationMs : Time) (input : AttemptIdentityInput) (db : Db) :
    Outcome (HeartbeatReply × Db) := do
  let attempt ← normalizeAttemptIdentity input
  let row ← activeAttempt now attempt db
  let leaseExpiresAt := now + leaseDurationMs
  let db ← updateAttempts (isAttempt attempt) (extendLease leaseExpiresAt) db
  return ({ leaseValid := true, leaseExpiresAt,
            cancellationRequested := row.region.lifecycleStatus = .cancelling ||
              row.region.lifecycleStatus = .cancelled }, db)

/-! ## Staging -/

structure StageInput extends AttemptIdentityInput where
  portName : String
  mediaType : String
  expectedDigest : Digest
  expectedSizeBytes : ℕ
deriving DecidableEq, Repr

/-- `stage` : authorize an upload for an output port. -/
def stage (P : Platform) (now leaseDurationMs : Time) (input : StageInput) (db : Db) :
    Outcome (Uuid × Db) := do
  let attempt ← normalizeAttemptIdentity input.toAttemptIdentityInput
  let active ← activeAttempt now attempt db
  match (db.component? active.execution.componentInstanceId).bind fun c => db.ports.find? fun p =>
      p.componentDefinitionId = c.componentDefinitionId && p.direction = .output &&
        p.name = input.portName with
  | none =>
    .error (.worker "unauthorized_staging_reference" "output port is not declared" false 403)
  | some port =>
    let stagedRef := db.nextUuid P
    let uploads ← sql (insert
      { stagedRef, executionId := attempt.executionId, attemptId := attempt.attemptId,
        lifecycleEpoch := attempt.regionFencingEpoch, portName := input.portName,
        schemaId := port.schemaId, mediaType := input.mediaType,
        expectedDigest := input.expectedDigest, expectedSizeBytes := input.expectedSizeBytes,
        expiresAt := min active.leaseExpiresAt (now + leaseDurationMs), artifactStagingId := none }
      db.uploads)
    return (stagedRef, { db.draw.draw with uploads })

/-- The upload an attempt is authorized for, before it expires. -/
def authorizedUpload (now : Time) (stagedRef : Uuid) (attempt : AttemptIdentity) (db : Db) :
    Option ArtifactUpload :=
  db.uploads.find? fun u => u.stagedRef = stagedRef && u.executionId = attempt.executionId &&
    u.attemptId = attempt.attemptId && u.lifecycleEpoch = attempt.regionFencingEpoch &&
    decide (now < u.expiresAt)

/-- `blobStore.stage`. -/
def stageBlob (P : Platform) (authorization : ArtifactUpload) (bytes : List UInt8)
    (blobs : List (Uuid × List UInt8)) : Outcome (List (Uuid × List UInt8)) := do
  require (P.sha256 bytes = authorization.expectedDigest &&
      bytes.length = authorization.expectedSizeBytes)
    (invalidRequest "staged content did not match expected digest or size")
  match blobs.lookup authorization.stagedRef with
  | none => return blobs ++ [(authorization.stagedRef, bytes)]
  | some staged =>
    require (staged = bytes)
      (.worker "unauthorized_staging_reference" "staging conflict" false 409)
    return blobs

/-- The part of `upload` before its transaction. -/
def uploadBlob (P : Platform) (now : Time) (stagedRef : Uuid) (input : AttemptIdentityInput)
    (bytes : List UInt8) (blobs : List (Uuid × List UInt8)) (db : Db) :
    Outcome (List (Uuid × List UInt8)) := do
  let attempt ← normalizeAttemptIdentity input
  let _ ← activeAttempt now attempt db
  match authorizedUpload now stagedRef attempt db with
  | none =>
    .error (.worker "unauthorized_staging_reference"
      "staged artifact reference is not authorized for this attempt" false 403)
  | some authorization => stageBlob P authorization bytes blobs

/-- The transaction of `upload`, on the receipt of the blob store. -/
def recordUpload (P : Platform) (now : Time) (stagedRef : Uuid) (input : AttemptIdentityInput)
    (digest : Digest) (sizeBytes : ℕ) (db : Db) : Outcome Db := do
  let attempt ← normalizeAttemptIdentity input
  let _ ← activeAttempt now attempt db
  match authorizedUpload now stagedRef attempt db with
  | none =>
    .error (.worker "unauthorized_staging_reference"
      "staged artifact reference is no longer authorized" false 403)
  | some current =>
    let staging ← sql (insertOrIgnore
      (fun s t => s.attemptId = t.attemptId && s.stagedRef = t.stagedRef)
      { id := current.artifactStagingId.getD (db.nextUuid P), attemptId := attempt.attemptId,
        stagedRef, digest, sizeBytes, schemaId := current.schemaId,
        mediaType := current.mediaType, status := .staged, artifactId := none }
      db.staging)
    let staged ← takeFirstOrThrow "artifact_staging"
      (staging.find? fun s => s.attemptId = attempt.attemptId && s.stagedRef = stagedRef)
    require (staged.digest = digest && staged.sizeBytes = sizeBytes &&
        staged.schemaId = current.schemaId && staged.mediaType = current.mediaType)
      (.worker "unauthorized_staging_reference"
        "staged artifact metadata conflicts with an existing upload" false 409)
    let uploads ← sql (update (fun u => u.stagedRef = stagedRef)
      (fun u => { u with artifactStagingId := some staged.id }) db.uploads)
    return { db.draw with staging, uploads }

/-! ## Handing off a result -/

/-- Whether a staging row is what a staged artifact of a result names. -/
def stagedRowMatches (staged : Staged) (row : ArtifactStaging) (schemaDigest : Digest) : Bool :=
  row.status = .staged && row.digest = staged.digest && row.sizeBytes = staged.sizeBytes &&
    .uuid row.schemaId = staged.schemaId && schemaDigest = staged.schemaDigest &&
    row.mediaType = staged.mediaType

/-- `validateStagedArtifacts`. -/
def validateStagedArtifacts (attemptId : Uuid) (artifacts : List Staged) (db : Db) :
    Outcome Unit :=
  artifacts.forM fun staged =>
    require
      ((db.staging.find? fun s =>
        s.attemptId = attemptId && s.stagedRef = staged.stagingId).any fun row =>
          (db.schema? row.schemaId).any fun schema =>
            stagedRowMatches staged row schema.contentDigest)
      (.worker "unauthorized_staging_reference"
        "staged artifact reference does not match authorized content" false 403)

/-- The first transaction of `submitResult` : whether the submission is a duplicate. -/
def handoff (P : Platform) (now : Time) (input : ProposedResultInput) (db : Db) :
    Outcome (Bool × Db) := do
  let result ← commitInput input
  let digest := submissionDigestOf P input
  match db.submission? result.attemptId with
  | some existing =>
    require (existing.submissionDigest = digest)
      (.worker "duplicate_conflicting_result"
        "attempt already has a different proposed result" false 409)
    return (true, db)
  | none =>
    let submissions ← sql (insert
      { id := db.nextUuid P, executionId := result.executionId, attemptId := result.attemptId,
        submissionDigest := digest, result, createdAt := now, committedAt := none }
      db.submissions)
    let db := { db.draw with submissions }
    let _ ← activeAttempt now result.identity db
    validateStagedArtifacts result.attemptId
      (result.stagedArtifacts ++ result.proposedState.toList) db
    return (false, db)

/-- The answer of `submitResult`. -/
structure SubmitReply where
  accepted : Bool
  duplicate : Bool
deriving DecidableEq, Repr

/-- What an envelope carries of a component's state : the version read, and its artifact. -/
structure EnvelopeState where
  version : ComponentStateVersion
  artifactId : Uuid
  digest : Digest
  sizeBytes : ℕ
  mediaType : String
  schemaId : Uuid
  schemaDigest : Digest
deriving DecidableEq, Repr

structure Envelope where
  executionId : Uuid
  attemptId : Uuid
  attemptNumber : ℕ
  leaseToken : LeaseToken
  leaseExpiresAt : Time
  lifecycleEpoch : ℕ
  componentId : Uuid
  definitionId : Uuid
  inputs : List LeasedInput
  state : Option EnvelopeState
  capabilityGrantIds : List Uuid

/-- A state version joined with its artifact and schema, when the artifact is committed. -/
def readableState (db : Db) (v : ComponentStateVersion) : Option EnvelopeState :=
  (db.artifacts.find? fun a => a.id = v.artifactId && a.state = .committed).bind fun artifact =>
    (db.schema? v.schemaId).map fun schema =>
      { version := v, artifactId := artifact.id, digest := artifact.digest,
        sizeBytes := artifact.sizeBytes, mediaType := artifact.mediaType, schemaId := v.schemaId,
        schemaDigest := schema.contentDigest }

/-- `readLatestState` : the version with the largest number, the last one of several. -/
def readLatestState (componentInstanceId : Uuid) (db : Db) : Option EnvelopeState :=
  (((db.stateVersions.filter (·.componentInstanceId = componentInstanceId)).filterMap
    (readableState db)).reverse.insertionSort fun s t =>
      t.version.versionNumber ≤ s.version.versionNumber).head?

/-- `buildEnvelope`, with the state that `withState` adds. -/
def buildEnvelope (scheduled : LeasedExecutionAttempt) (db : Db) : Outcome Envelope := do
  let execution ← takeFirstOrThrow "executions" (db.execution? scheduled.executionId)
  let _ ← takeFirstOrThrow "regions" (db.region? execution.regionId)
  let component ← takeFirstOrThrow "component_instances"
    (db.component? execution.componentInstanceId)
  let definition ← takeFirstOrThrow "component_definitions"
    (db.definitions.find? (·.id = component.componentDefinitionId))
  let grants := db.grants.filter fun g =>
    g.granteeComponentDefinitionId = definition.id && g.active &&
      db.capabilities.any fun c => c.id = g.capabilityId && c.retiredAt.isNone
  return { executionId := scheduled.executionId, attemptId := scheduled.attemptId,
           attemptNumber := scheduled.attemptNumber, leaseToken := scheduled.leaseToken,
           leaseExpiresAt := scheduled.leaseExpiresAt, lifecycleEpoch := execution.lifecycleEpoch,
           componentId := component.id, definitionId := definition.id, inputs := scheduled.inputs,
           state := readLatestState component.id db,
           capabilityGrantIds := (grants.map (·.id)).insertionSort (· ≤ ·) }

end FactoryFloor
