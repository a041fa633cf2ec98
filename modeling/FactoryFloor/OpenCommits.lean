import FactoryFloor.Instantiation
import FactoryFloor.Worker

/-!
# Overlapping commits

Commits of different regions run at the same time, and the artifacts are shared by all regions. An
`OpenCommit` is the transaction of a commit between two of its statements, with the rows it has
written, which nothing else sees before it commits.

A commit locks its attempt, its region and its component first. It then looks for the artifact of
each staged row by the row's digest, and creates it where there is none. The insert waits while
another open commit has created an artifact with the digest. When that one commits, the insert
conflicts, and the commit goes on with the artifact that is there now.

Of a commit, the statements on the artifact tables, the outputs, the state versions and the
submissions are modelled. Between them, the other services change the scheduling tables and the
staging rows (`ServesCommits`), store submissions and artifacts, and instantiate templates. No artifact is
tombstoned while commits run : nothing calls `ArtifactTombstoneService`.
-/

namespace FactoryFloor

open Relational Transition

/-! ## Instantiations in one step -/

/-- The ids that a call of `instantiate` draws. -/
structure DrawnIds where
  instantiationId : Uuid
  revisionId : Uuid
  componentId : String → Uuid
  /-- The id of a new artifact with a digest. -/
  artifactId : Digest → Uuid

/-- `instantiateInTransaction` : the topology, and its rows when it is new. -/
def publishTopology (ids : DrawnIds) (content : InstantiationContent) (resolution : Resolution)
    (regions : List Region) (rows : TemplateRows) : Outcome (TopologyResult × TemplateRows) := do
  match activeRevision content.targetRegionId regions rows with
  | some active =>
    let topology ← existingTopology content resolution active
    return (topology, .nil)
  | none =>
    require (regionEligible content.targetRegionId regions) (.request "region_not_eligible")
    require (rows.revisions.all (·.regionId ≠ content.targetRegionId))
      (.sql (.unique "topology_revisions_region_id_revision_number_key"))
    require (decide (resolution.instances.map (·.name)).Nodup)
      (.sql (.unique "component_instances_topology_revision_id_name_key"))
    return (⟨.created, content.targetRegionId, ids.revisionId⟩,
      topologyRows content.targetRegionId ids.revisionId ids.componentId resolution)

/-- The owner of the initial states : the instantiation that was found, or a new one. -/
def ownInstantiation (T : Templates) (ids : DrawnIds) (request : InstantiationRequest)
    (resolution : Resolution) (topology : TopologyResult) :
    Option TemplateInstantiation → Outcome (StateOwner × TemplateRows)
  | some existing => do
    require (existing.targetRegionId = topology.regionId &&
        existing.topologyRevisionId = topology.revisionId &&
        existing.templateId = resolution.templateId && existing.effectiveDigest = resolution.digest)
      instantiationConflict
    return (⟨existing.id, topology.revisionId, resolution.templateId⟩, .nil)
  | none =>
    return (⟨ids.instantiationId, topology.revisionId, resolution.templateId⟩,
      { TemplateRows.nil with
        instantiations :=
          [instantiationRow T request resolution topology ids.instantiationId] })

/-- `publishInitialStates`, on the rows of the transaction. -/
def publishInitialStates (ids : DrawnIds) (owner : StateOwner) (rows own : TemplateRows)
    (states : List InitialState) : Outcome TemplateRows :=
  states.foldlM (fun own state => do
    let delta ← publishInitialState owner (ids.artifactId state.digest) state (rows.append own)
    return own.append delta) own

/-- The rows that a call of `instantiate` inserts, or its replay. -/
def instantiate (T : Templates) (ids : DrawnIds) (request : InstantiationRequest)
    (regions : List Region) (rows : TemplateRows) : Outcome TemplateRows := do
  let existing := rows.instantiations.find? (·.requestId = request.id T)
  require (existing.all (·.requestDigest = request.digest T)) instantiationConflict
  let resolution ← T.resolve request.content
  let (topology, created) ← publishTopology ids request.content resolution regions rows
  let (owner, recorded) ← ownInstantiation T ids request resolution topology existing
  publishInitialStates ids owner rows (created.append recorded) resolution.initialStates

/-! ## Open commits -/

/-- A staged artifact of a result, with the direction of its port and what it derives. -/
structure Part where
  staged : Staged
  direction : PortDirection
  derivationType : DerivationType
deriving DecidableEq, Repr

/-- The outputs of a result, and its state. -/
def ProposedExecutionResult.outputParts (input : ProposedExecutionResult) : List Part :=
  input.stagedArtifacts.map (⟨·, .output, .executionOutput⟩) ++
    input.proposedState.toList.map (⟨·, .state, .stateVersion⟩)

/-- What a commit of a result stages, in order. -/
def ProposedExecutionResult.parts (input : ProposedExecutionResult) : List Part :=
  input.outputParts ++
    input.externalActionProposals.map (⟨·.requestArtifact, .output, .externalActionRequest⟩)

/-- A part of a result that a commit has published, with its staging row. -/
structure PublishedPart where
  row : ArtifactStaging
  derivationType : DerivationType
  artifactId : Uuid

/-- The rows that a commit has inserted. -/
structure CommitRows where
  submissions : List WorkerResultSubmission
  artifacts : List Artifact
  outputs : List ExecutionOutput
  stateVersions : List ComponentStateVersion

structure OpenCommit where
  env : CommitEnv
  input : ProposedExecutionResult
  submissionDigest : Digest
  execution : Execution
  component : ComponentInstance
  /-- What is still to be staged. -/
  remaining : List Part
  seen : List Uuid
  /-- The row of the next part, when no artifact had its digest. -/
  missing : Option ArtifactStaging
  published : List PublishedPart
  /-- What is still to be inserted into `execution_outputs`. -/
  recording : List Part
  own : CommitRows

namespace OpenCommit

variable (c : OpenCommit)

/-- The published part with a staging reference (`artifactIds.get`). -/
def publishedPart (stagingId : Uuid) : Option PublishedPart :=
  c.published.find? (·.row.stagedRef = stagingId)

/-- A staging row, linked when the commit has published it. -/
def link (row : ArtifactStaging) : ArtifactStaging :=
  match c.published.find? (·.row.id = row.id) with
  | some p => { row with artifactId := some p.artifactId }
  | none => row

/-- The database as the statements of the commit see it. -/
def view (db : Db) : Db :=
  { db with
    staging := db.staging.map c.link
    artifacts := db.artifacts ++ c.own.artifacts
    derivations := db.derivations ++ c.published.map fun p =>
      ⟨p.artifactId, c.input.executionId, c.input.attemptId, p.derivationType⟩
    submissions := db.submissions ++ c.own.submissions
    outputs := db.outputs ++ c.own.outputs
    stateVersions := db.stateVersions ++ c.own.stateVersions }

/-- `validateStaged` of a part. -/
def validates (P : Platform) (db : Db) (part : Part) : Outcome ArtifactStaging :=
  validateStaged P c.env c.input
    (db.ports.filter (·.componentDefinitionId = c.component.componentDefinitionId))
    part.direction part.staged (c.view db)

/-- Whether a part is to be staged : an output or the state has not been seen, and the request of
an external action has not been published. -/
def stages (part : Part) : Bool :=
  match part.derivationType with
  | .externalActionRequest => (c.publishedPart part.staged.stagingId).isNone
  | _ => !c.seen.contains part.staged.stagingId

/-- The staging references seen, after a part. -/
def see (part : Part) : List Uuid :=
  match part.derivationType with
  | .externalActionRequest => c.seen
  | _ => part.staged.stagingId :: c.seen

/-- The commit after it has published the next part as an artifact. -/
def publish (part : Part) (row : ArtifactStaging) (artifactId : Uuid) (remaining : List Part) :
    OpenCommit :=
  { c with
    remaining, missing := none, seen := c.see part
    published := ⟨row, part.derivationType, artifactId⟩ :: c.published }

/-- The artifact that a staging row becomes. -/
def newArtifact (row : ArtifactStaging) (id : Uuid) : Artifact :=
  { id, digest := row.digest, sizeBytes := row.sizeBytes, schemaId := row.schemaId,
    state := .committed, mediaType := row.mediaType }

/-- The row of a part in `execution_outputs`. -/
def output (part : Part) (artifactId eventId : Uuid) : ExecutionOutput :=
  { executionId := c.input.executionId, attemptId := c.input.attemptId,
    portName := part.staged.portName, artifactId,
    publishedEventId := if part.direction = .state then none else some eventId }

end OpenCommit

/-- The submission row that a commit inserts, when its attempt has none. -/
def submissionRows (now : Time) (input : ProposedExecutionResult) (submissionDigest : Digest)
    (id : Uuid) (db : Db) : List WorkerResultSubmission :=
  match db.submission? input.attemptId with
  | some _ => []
  | none =>
    [{ id, executionId := input.executionId, attemptId := input.attemptId, submissionDigest,
       result := input, createdAt := now, committedAt := none }]

/-- A commit that has locked its rows and checked its authority and the content. -/
def openCommit (env : CommitEnv) (input : ProposedExecutionResult) (submissionDigest : Digest)
    (submissionId : Uuid) (locked : Locked) (db : Db) : OpenCommit :=
  { env, input, submissionDigest, execution := locked.execution, component := locked.component
    remaining := input.parts, seen := [], missing := none, published := []
    recording := if input.status = .completed then input.outputParts else []
    own := ⟨submissionRows env.now input submissionDigest submissionId db, [], [], []⟩ }

/-! ## The services -/

/-- The tables, the rows of the template tables that only instantiations use, and the open
commits. -/
structure CommitService where
  db : Db
  revisions : List PublishedRevision
  instantiations : List TemplateInstantiation
  inlinePayloads : List InlinePayload
  stateLinks : List (Uuid × StateKey)
  commits : List OpenCommit

/-- The rows of the template tables. -/
def CommitService.templateRows (s : CommitService) : TemplateRows :=
  { revisions := s.revisions, components := s.db.components, connections := s.db.connections,
    instantiations := s.instantiations, artifacts := s.db.artifacts,
    inlinePayloads := s.inlinePayloads, stateVersions := s.db.stateVersions,
    stateLinks := s.stateLinks }

/-- The state after an instantiation commits its rows. -/
def CommitService.instantiated (s : CommitService) (delta : TemplateRows) : CommitService :=
  { db :=
      { s.db with
        regions := delta.revisions.foldl
          (fun regions r => activateRevision r.regionId r.id regions) s.db.regions
        components := s.db.components ++ delta.components
        connections := s.db.connections ++ delta.connections
        artifacts := s.db.artifacts ++ delta.artifacts
        stateVersions := s.db.stateVersions ++ delta.stateVersions }
    revisions := s.revisions ++ delta.revisions
    instantiations := s.instantiations ++ delta.instantiations
    inlinePayloads := s.inlinePayloads ++ delta.inlinePayloads
    stateLinks := s.stateLinks ++ delta.stateLinks
    commits := s.commits }

/-- The columns of a staging row that are never updated. -/
def ArtifactStaging.SameUpload (r r' : ArtifactStaging) : Prop :=
  r'.id = r.id ∧ r'.attemptId = r.attemptId ∧ r'.stagedRef = r.stagedRef ∧ r'.digest = r.digest ∧
    r'.sizeBytes = r.sizeBytes ∧ r'.schemaId = r.schemaId ∧ r'.mediaType = r.mediaType

/-- What the schedulers, the workers' services and the promotions do to the tables a commit reads :
anything but change the catalog, the owner of an execution, and the uploads. -/
structure ServesCommits (db db' : Db) : Prop where
  catalog : db'.toCatalog = db.toCatalog
  executions : ∀ e ∈ db.executions, ∃ e' ∈ db'.executions,
    e'.id = e.id ∧ e'.componentInstanceId = e.componentInstanceId
  executionIds : Keyed (·.id) db'.executions
  staging : ∀ r ∈ db.staging, ∃ r' ∈ db'.staging, r.SameUpload r'
  stagedRefs : Keyed (·.stagedRef) db'.staging
  artifacts : db'.artifacts = db.artifacts
  submissions : db'.submissions = db.submissions
  outputs : db'.outputs = db.outputs
  stateVersions : db'.stateVersions = db.stateVersions

/-- The ids of a call are fresh, and its artifacts have waited for those of the open commits. -/
structure DrawnIds.Fresh (ids : DrawnIds) (s : CommitService) (delta : TemplateRows) : Prop where
  revision : ∀ c ∈ s.db.components, c.topologyRevisionId ≠ ids.revisionId
  revisions : ∀ r ∈ s.revisions, r.id ≠ ids.revisionId
  components : Keyed (·.id) (s.db.components ++ delta.components)
  artifactIds : KeyedAcross (·.id) (s.db.artifacts ++ delta.artifacts)
    (s.commits.map (·.own.artifacts))
  digests : KeyedAcross (·.digest) (s.db.artifacts ++ delta.artifacts)
    (s.commits.map (·.own.artifacts))
  /-- The schemas of the artifacts and the versions are there. -/
  schemas : ∀ a ∈ delta.artifacts, (s.db.schema? a.schemaId).isSome
  versionSchemas : ∀ v ∈ delta.stateVersions, (s.db.schema? v.schemaId).isSome

inductive OpenCommitLabel where
  | statement
  /-- The insert of a row's artifact, and the artifact it has conflicted with. -/
  | create (derivationType : DerivationType) (row : ArtifactStaging) (existing : Option Artifact)
  | commit (submissionDigest : Digest)
  | rollback (submissionDigest : Digest)
  | other

/-- The steps, where `content` is the result that a submission digest is the digest of. -/
inductive OpenCommitStep (P : Platform) (T : Templates)
    (content : Digest → ProposedExecutionResult) :
    CommitService → OpenCommitLabel → CommitService → Prop
  /-- The commit waits for the rows that an open commit has locked. -/
  | begin {s : CommitService} {env : CommitEnv} {d : Digest} {attempt : ExecutionAttempt}
      {execution : Execution} {locked : Locked} {id : Uuid}
      (hattempt : lockAttempt (content d) s.db = .ok (attempt, execution))
      (hsubmission : ∀ r ∈ s.db.submission? (content d).attemptId,
        r.submissionDigest = d ∧ r.committedAt = none)
      (hactive : lockActive attempt execution s.db = .ok locked)
      (hauthority : assertAuthority env (content d) locked.attempt locked.execution locked.region
        locked.deliveries = .ok ())
      (hcontent : validateContent P (content d) s.db = .ok ())
      (hlocks : ∀ c ∈ s.commits, c.input.attemptId ≠ (content d).attemptId ∧
        c.execution.regionId ≠ locked.execution.regionId ∧ c.component.id ≠ locked.component.id) :
      OpenCommitStep P T content s .statement
        { s with commits := openCommit env (content d) d id locked s.db :: s.commits }
  /-- A part of a result that is not completed. -/
  | validate {s : CommitService} {c : OpenCommit} {pre post : List OpenCommit} {part : Part}
      {remaining : List Part} {row : ArtifactStaging} (hmem : s.commits = pre ++ c :: post)
      (hremaining : c.remaining = part :: remaining) (hstatus : c.input.status ≠ .completed)
      (hstages : c.stages part) (hrow : c.validates P s.db part = .ok row) :
      OpenCommitStep P T content s .statement
        { s with commits := pre ++ { c with remaining, seen := c.see part } :: post }
  /-- A request that has been published as an output. -/
  | known {s : CommitService} {c : OpenCommit} {pre post : List OpenCommit} {part : Part}
      {remaining : List Part} {row : ArtifactStaging} {p : PublishedPart}
      (hmem : s.commits = pre ++ c :: post) (hremaining : c.remaining = part :: remaining)
      (hrequest : part.derivationType = .externalActionRequest) (hmissing : c.missing = none)
      (hrow : c.validates P s.db part = .ok row)
      (hpublished : c.publishedPart part.staged.stagingId = some p) :
      OpenCommitStep P T content s .statement
        { s with commits := pre ++ { c with remaining } :: post }
  /-- The artifact of a part is there, with the metadata of its row. -/
  | found {s : CommitService} {c : OpenCommit} {pre post : List OpenCommit} {part : Part}
      {remaining : List Part} {row : ArtifactStaging} {artifact : Artifact}
      (hmem : s.commits = pre ++ c :: post) (hremaining : c.remaining = part :: remaining)
      (hstatus : c.input.status = .completed) (hmissing : c.missing = none)
      (hstages : c.stages part) (hrow : c.validates P s.db part = .ok row)
      (hartifact : (c.view s.db).artifactByDigest? row.digest = some artifact)
      (hcompatible : artifact.compatible row) :
      OpenCommitStep P T content s .statement
        { s with commits := pre ++ c.publish part row artifact.id remaining :: post }
  | notFound {s : CommitService} {c : OpenCommit} {pre post : List OpenCommit} {part : Part}
      {remaining : List Part} {row : ArtifactStaging} (hmem : s.commits = pre ++ c :: post)
      (hremaining : c.remaining = part :: remaining) (hstatus : c.input.status = .completed)
      (hmissing : c.missing = none) (hstages : c.stages part)
      (hrow : c.validates P s.db part = .ok row)
      (hartifact : (c.view s.db).artifactByDigest? row.digest = none) :
      OpenCommitStep P T content s .statement
        { s with commits := pre ++ { c with missing := some row } :: post }
  /-- The artifact waits for an artifact with its digest, and is then inserted. -/
  | create {s : CommitService} {c : OpenCommit} {pre post : List OpenCommit} {part : Part}
      {remaining : List Part} {row : ArtifactStaging} {id : Uuid}
      (hmem : s.commits = pre ++ c :: post) (hremaining : c.remaining = part :: remaining)
      (hmissing : c.missing = some row)
      (hdigest : FreshAcross (·.digest) s.db.artifacts (s.commits.map (·.own.artifacts)) row.digest)
      (hid : FreshAcross (·.id) s.db.artifacts (s.commits.map (·.own.artifacts)) id) :
      OpenCommitStep P T content s (.create part.derivationType row none)
        { s with commits := pre ++
            { c.publish part row id remaining with
              own.artifacts := c.own.artifacts ++ [OpenCommit.newArtifact row id] } :: post }
  /-- The artifact that another transaction has committed is used as it is. -/
  | conflict {s : CommitService} {c : OpenCommit} {pre post : List OpenCommit} {part : Part}
      {remaining : List Part} {row : ArtifactStaging} {artifact : Artifact}
      (hmem : s.commits = pre ++ c :: post) (hremaining : c.remaining = part :: remaining)
      (hmissing : c.missing = some row)
      (hexisting : s.db.artifactByDigest? row.digest = some artifact) :
      OpenCommitStep P T content s (.create part.derivationType row (some artifact))
        { s with commits := pre ++ c.publish part row artifact.id remaining :: post }
  /-- A row of `execution_outputs`, with its trigger. -/
  | record {s : CommitService} {c : OpenCommit} {pre post : List OpenCommit} {part : Part}
      {recording : List Part} {p : PublishedPart} {eventId : Uuid} {db : Db}
      (hmem : s.commits = pre ++ c :: post) (hremaining : c.remaining = [])
      (hrecording : c.recording = part :: recording)
      (hpublished : c.publishedPart part.staged.stagingId = some p)
      (hop : insertOutput (c.output part p.artifactId eventId) (c.view s.db) = .ok db) :
      OpenCommitStep P T content s .statement
        { s with commits := pre ++
            { c with
              recording
              own.outputs := c.own.outputs ++ [c.output part p.artifactId eventId]
              own.stateVersions := db.stateVersions.drop s.db.stateVersions.length } :: post }
  | commit {s : CommitService} {c : OpenCommit} {pre post : List OpenCommit} {db : Db}
      (hmem : s.commits = pre ++ c :: post) (hremaining : c.remaining = [])
      (hrecording : c.recording = [])
      (hop : markCommitted c.env.now c.input.attemptId c.submissionDigest (c.view s.db) = .ok db) :
      OpenCommitStep P T content s (.commit c.submissionDigest)
        { s with db, commits := pre ++ post }
  /-- A commit is rejected, or its process stops. -/
  | rollback {s : CommitService} {c : OpenCommit} {pre post : List OpenCommit}
      (hmem : s.commits = pre ++ c :: post) :
      OpenCommitStep P T content s (.rollback c.submissionDigest)
        { s with commits := pre ++ post }
  /-- The submission of a rejected commit is deleted, when no open commit has locked it. -/
  | delete {s : CommitService} {attemptId : Uuid} {d : Digest}
      (hlocks : ∀ c ∈ s.commits, c.input.attemptId ≠ attemptId) :
      OpenCommitStep P T content s .other { s with db := deleteSubmission attemptId d s.db }
  /-- A submission is stored. -/
  | handoff {s : CommitService} {r : WorkerResultSubmission}
      (hresult : r.result = content r.submissionDigest)
      (hattempt : r.attemptId = r.result.attemptId) (hexecution : r.executionId = r.result.executionId)
      (hcommitted : r.committedAt = none)
      (hkey : FreshAcross (·.attemptId) s.db.submissions (s.commits.map (·.own.submissions))
        r.attemptId) :
      OpenCommitStep P T content s .other
        { s with db := { s.db with submissions := s.db.submissions ++ [r] } }
  | serve {s : CommitService} {db : Db} (hserves : ServesCommits s.db db) :
      OpenCommitStep P T content s .other { s with db }
  /-- Another service commits an artifact. -/
  | store {s : CommitService} {a : Artifact}
      (hdigest : FreshAcross (·.digest) s.db.artifacts (s.commits.map (·.own.artifacts)) a.digest)
      (hid : FreshAcross (·.id) s.db.artifacts (s.commits.map (·.own.artifacts)) a.id)
      (hschema : (s.db.schema? a.schemaId).isSome) :
      OpenCommitStep P T content s .other
        { s with db := { s.db with artifacts := s.db.artifacts ++ [a] } }
  /-- A call of `instantiate` commits. Nothing sees its rows before. -/
  | instantiate {s : CommitService} {ids : DrawnIds} {request : InstantiationRequest}
      {delta : TemplateRows}
      (hop : instantiate T ids request s.db.regions s.templateRows = .ok delta)
      (hids : ids.Fresh s delta) :
      OpenCommitStep P T content s .other (s.instantiated delta)

/-- The tables before any of the commits and instantiations. -/
structure CommitService.Initial (content : Digest → ProposedExecutionResult) (s : CommitService) :
    Prop where
  executions : Keyed (·.id) s.db.executions
  components : Keyed (·.id) s.db.components
  componentNames : Keyed (fun c => (c.topologyRevisionId, c.name)) s.db.components
  stagedRefs : Keyed (·.stagedRef) s.db.staging
  artifactIds : Keyed (·.id) s.db.artifacts
  digests : Keyed (·.digest) s.db.artifacts
  schemas : ∀ a ∈ s.db.artifacts, (s.db.schema? a.schemaId).isSome
  attempts : Keyed (·.attemptId) s.db.submissions
  submissions : ∀ r ∈ s.db.submissions, r.result = content r.submissionDigest ∧
    r.attemptId = r.result.attemptId ∧ r.executionId = r.result.executionId ∧ r.committedAt = none
  outputs : s.db.outputs = []
  stateVersions : s.db.stateVersions = []
  revisions : s.revisions = []
  instantiations : s.instantiations = []
  commits : s.commits = []

/-- Commits, instantiations and the services around them. -/
def commitService (P : Platform) (T : Templates) (content : Digest → ProposedExecutionResult) :
    System CommitService OpenCommitLabel :=
  ⟨CommitService.Initial content, OpenCommitStep P T content⟩

end FactoryFloor
