import FactoryFloor.CancelRun
import FactoryFloor.Recovery
import FactoryFloor.Transition
import FactoryFloor.Worker

/-!
# The runtime as a transition system

Every transaction of the runtime is one step, and reads the clock in that step. Between its
transactions a call is a `Process`, and a recovery pass is a `Pass` : any number of both are
under way, their steps interleave in any order, and each may stop at any time (`crash`).

A step whose transaction fails changes nothing and is not a step of the system, except a
rejected commit, which goes on to delete its submission.

The system starts with a catalog, regions and budgets, and with no work (`Initial`). The
statements that others write are steps too : a region is asked to cancel
(`requestCancellation`), and artifacts and actions are maintained (`Maintenance`).
-/

namespace FactoryFloor

open Relational Transition

/-! ## States -/

/-- A call between two of its transactions. -/
inductive Process where
  /-- `submitResult` has handed the result of an attempt off. -/
  | handedOff (attemptId : Uuid)
  /-- A commit has read a submission row. -/
  | committing (result : ProposedExecutionResult) (submissionDigest : Digest)
      (allowExpiredLease : Bool)
  /-- A commit was rejected, and its submission is to be deleted. -/
  | rejected (attemptId : Uuid) (submissionDigest : Digest)

/-- A recovery pass in its scan of expired attempts. -/
structure Pass where
  now : Time
  remaining : List Uuid

structure State where
  db : Db
  now : Time
  blobs : List (Uuid × List UInt8)
  /-- The attempts leased for a claim whose envelope is not built yet. -/
  claimed : List LeasedExecutionAttempt
  envelopes : List Envelope
  processes : List Process
  passes : List Pass

/-! ## What others write -/

/-- Writes of the other services. -/
inductive Maintenance where
  /-- `markStagingPromoted` -/
  | promote (stagingRowId artifactId : Uuid)
  /-- `markStagingAbandoned` -/
  | abandonStaging (stagingRowId : Uuid)
  /-- `tombstoneArtifact` -/
  | tombstone (artifactId : Uuid)
  /-- The dispatch of an external action moves on. -/
  | moveAction (actionId : Uuid) (status : ExternalActionStatus)
deriving DecidableEq, Repr

/-- The artifact and publication tables after a write of another service. -/
def maintain : Maintenance → Db → Outcome Db
  | .promote stagingRowId artifactId, db => do
    let staging ← sql (update (fun s => s.id = stagingRowId)
      (fun s => { s with status := .promoted, artifactId := some artifactId }) db.staging)
    return { db with staging }
  | .abandonStaging stagingRowId, db => do
    let staging ← sql (update (fun s => s.id = stagingRowId)
      (fun s => { s with status := .abandoned }) db.staging)
    return { db with staging }
  | .tombstone artifactId, db => do
    let artifacts ← sql (update (fun a => a.id = artifactId)
      (fun a => { a with state := .tombstoned }) db.artifacts)
    return { db with artifacts }
  | .moveAction actionId status, db => do
    let actions ← sql (update (fun a => a.id = actionId)
      (fun a => { a with status }) db.actions)
    return { db with actions }

/-- The request to cancel a running region. Its epoch may be advanced by the way. -/
def requestCancellation (regionId : Uuid) (epoch : ℕ) (db : Db) : Db :=
  let regions := updateWhere (fun r => r.id = regionId && r.lifecycleStatus = .running)
    (fun r => { r with lifecycleStatus := .cancelling,
                       lifecycleEpoch := max r.lifecycleEpoch epoch })
    db.regions
  { db with regions }

/-! ## Initial states -/

/-- The foreign keys of the catalog and the regions. -/
structure WellFormed (db : Db) : Prop where
  regions : Keyed (·.id) db.regions
  components : Keyed (·.id) db.components
  budgets : Keyed (·.id) db.budgets
  /-- A region is not its own ancestor. -/
  ancestors : ∀ r ∈ db.regions, (db.ancestors r.id).Nodup
  /-- A revision belongs to a region. -/
  revision : ∀ v ∈ db.revisions, ∃ r ∈ db.regions, r.id = v.regionId
  /-- A component instance belongs to a revision and its region, and has a definition. -/
  component : ∀ c ∈ db.components, ∃ v ∈ db.revisions,
    v.id = c.topologyRevisionId ∧ v.regionId = c.regionId
  /-- The active revision of a region is one of its own. -/
  active : ∀ r ∈ db.regions, ∀ v ∈ db.revisions, r.activeTopologyRevisionId = some v.id →
    v.regionId = r.id
  /-- The target of a connection is a component instance of its revision. -/
  connection : ∀ k ∈ db.connections, ∃ c ∈ db.components,
    c.id = k.targetComponentInstanceId ∧ c.topologyRevisionId = k.topologyRevisionId
  revisions : Keyed (·.id) db.revisions

/-- A state before any work : a catalog, regions, budgets, and the state versions and
artifacts that templates brought. -/
structure Initial (P : Platform) (s : State) : Prop where
  wellFormed : WellFormed s.db
  commands : s.db.commands = []
  deliveries : s.db.deliveries = []
  executions : s.db.executions = []
  inputs : s.db.inputs = []
  attempts : s.db.attempts = []
  reservations : s.db.reservations = []
  staging : s.db.staging = []
  uploads : s.db.uploads = []
  derivations : s.db.derivations = []
  submissions : s.db.submissions = []
  outputs : s.db.outputs = []
  events : s.db.events = []
  streams : s.db.streams = []
  actions : s.db.actions = []
  ledger : s.db.ledger = []
  artifacts : Keyed (·.id) s.db.artifacts ∧ Keyed (·.digest) s.db.artifacts ∧
    ∀ a ∈ s.db.artifacts, ∀ n, s.db.drawn ≤ n → P.uuid n ≠ a.id
  stateVersions : ∀ v ∈ s.db.stateVersions, (∃ i, v.source = .templateInstantiation i) ∧
    0 < v.versionNumber
  claimed : s.claimed = []
  envelopes : s.envelopes = []
  processes : s.processes = []
  passes : s.passes = []

/-! ## Steps -/

inductive Label where
  | tick (now : Time)
  | submit (input : SubmitCommandInput)
  | lease (options : LeaseNextAttemptOptions) (acquired : GroupKey → Bool)
  | envelope (scheduled : LeasedExecutionAttempt)
  | heartbeat (leaseDurationMs : ℕ) (input : AttemptIdentityInput)
  | stage (leaseDurationMs : ℕ) (input : StageInput)
  | uploadBlob (stagedRef : Uuid) (input : AttemptIdentityInput) (bytes : List UInt8)
  | recordUpload (stagedRef : Uuid) (input : AttemptIdentityInput) (bytes : List UInt8)
  | handoff (input : ProposedResultInput)
  | read (attemptId : Uuid)
  | recoverSubmission (attemptId : Uuid)
  | commit (env : CommitEnv) (result : ProposedExecutionResult) (submissionDigest : Digest)
  | delete (attemptId : Uuid) (submissionDigest : Digest)
  | crash
  | scanExpired (now : Time)
  | recoverExpired (now : Time) (attemptId : Uuid)
  | releaseOrphans (now : Time)
  | settle (now : Time) (regionId : Uuid)
  | cancelRun (context : OperatorContext) (runId : Uuid) (input : RunCancellationRequest)
  | requestCancellation (regionId : Uuid) (epoch : ℕ)
  | maintain (write : Maintenance)

/-- Whether a commit runs with what the state has : its clock and its staged bytes. -/
def CommitEnv.of (env : CommitEnv) (s : State) : Prop :=
  env.now = s.now ∧
    (env.stores.blobStore = none ∨ env.stores.blobStore = some fun ref => s.blobs.lookup ref)

/-- The steps of the runtime. -/
inductive Step (P : Platform) : State → Label → State → Prop
  | tick {s : State} {now : Time} (hnow : s.now ≤ now) :
      Step P s (.tick now) { s with now }
  | submit {s : State} {input : SubmitCommandInput} {result : SubmitCommandResult} {db : Db}
      (hop : submit P s.now input s.db = .ok (result, db)) :
      Step P s (.submit input) { s with db }
  | lease {s : State} {options : LeaseNextAttemptOptions} {acquired : GroupKey → Bool}
      {leased : Option LeasedExecutionAttempt} {db : Db}
      (hop : leaseNextAttempt P s.now options acquired s.db = .ok (leased, db)) :
      Step P s (.lease options acquired) { s with db, claimed := leased.toList ++ s.claimed }
  | envelope {s : State} {scheduled : LeasedExecutionAttempt} {envelope : Envelope}
      {pre post : List LeasedExecutionAttempt} (hmem : s.claimed = pre ++ scheduled :: post)
      (hop : buildEnvelope scheduled s.db = .ok envelope) :
      Step P s (.envelope scheduled)
        { s with claimed := pre ++ post, envelopes := envelope :: s.envelopes }
  | heartbeat {s : State} {leaseDurationMs : ℕ} {input : AttemptIdentityInput}
      {reply : HeartbeatReply} {db : Db} (hduration : validLeaseDuration leaseDurationMs)
      (hop : heartbeat s.now leaseDurationMs input s.db = .ok (reply, db)) :
      Step P s (.heartbeat leaseDurationMs input) { s with db }
  | stage {s : State} {leaseDurationMs : ℕ} {input : StageInput} {stagedRef : Uuid} {db : Db}
      (hop : stage P s.now leaseDurationMs input s.db = .ok (stagedRef, db)) :
      Step P s (.stage leaseDurationMs input) { s with db }
  | uploadBlob {s : State} {stagedRef : Uuid} {input : AttemptIdentityInput} {bytes : List UInt8}
      {blobs : List (Uuid × List UInt8)}
      (hop : uploadBlob P s.now stagedRef input bytes s.blobs s.db = .ok blobs) :
      Step P s (.uploadBlob stagedRef input bytes) { s with blobs }
  | recordUpload {s : State} {stagedRef : Uuid} {input : AttemptIdentityInput}
      {bytes : List UInt8} {db : Db} (hblob : s.blobs.lookup stagedRef = some bytes)
      (hop : recordUpload P s.now stagedRef input (P.sha256 bytes) bytes.length s.db = .ok db) :
      Step P s (.recordUpload stagedRef input bytes) { s with db }
  | handoff {s : State} {input : ProposedResultInput} {duplicate : Bool} {db : Db}
      (hop : handoff P s.now input s.db = .ok (duplicate, db)) :
      Step P s (.handoff input)
        { s with db, processes := .handedOff input.attemptId :: s.processes }
  | read {s : State} {attemptId : Uuid} {row : WorkerResultSubmission} {pre post : List Process}
      (hmem : s.processes = pre ++ .handedOff attemptId :: post)
      (hrow : s.db.submission? attemptId = some row) :
      Step P s (.read attemptId)
        { s with processes :=
            pre ++ .committing row.result row.submissionDigest false :: post }
  | recoverSubmission {s : State} {attemptId : Uuid} {row : WorkerResultSubmission}
      (hrow : s.db.submission? attemptId = some row) :
      Step P s (.recoverSubmission attemptId)
        { s with processes :=
            .committing row.result row.submissionDigest true :: s.processes }
  | commit {s : State} {env : CommitEnv} {result : ProposedExecutionResult}
      {submissionDigest : Digest} {disposition : CommitDisposition} {db : Db}
      {pre post : List Process} (henv : env.of s)
      (hmem : s.processes =
        pre ++ .committing result submissionDigest env.allowExpiredLease :: post)
      (hop : commitTx P env result submissionDigest s.db = .ok (disposition, db)) :
      Step P s (.commit env result submissionDigest) { s with db, processes := pre ++ post }
  | reject {s : State} {env : CommitEnv} {result : ProposedExecutionResult}
      {submissionDigest : Digest} {e : RuntimeError} {pre post : List Process} (henv : env.of s)
      (hmem : s.processes =
        pre ++ .committing result submissionDigest env.allowExpiredLease :: post)
      (hop : commitTx P env result submissionDigest s.db = .error e) (he : e.rejects) :
      Step P s (.commit env result submissionDigest)
        { s with processes := pre ++ .rejected result.attemptId submissionDigest :: post }
  | delete {s : State} {attemptId : Uuid} {submissionDigest : Digest} {pre post : List Process}
      (hmem : s.processes = pre ++ .rejected attemptId submissionDigest :: post) :
      Step P s (.delete attemptId submissionDigest)
        { s with db := deleteSubmission attemptId submissionDigest s.db, processes := pre ++ post }
  | crashProcess {s : State} {process : Process} {pre post : List Process}
      (hmem : s.processes = pre ++ process :: post) :
      Step P s .crash { s with processes := pre ++ post }
  | crashPass {s : State} {pass : Pass} {pre post : List Pass}
      (hmem : s.passes = pre ++ pass :: post) :
      Step P s .crash { s with passes := pre ++ post }
  | scanExpired {s : State} {now : Time} (hnow : now ≤ s.now) :
      Step P s (.scanExpired now)
        { s with passes := { now, remaining := expiredAttemptIds now s.db } :: s.passes }
  | recoverExpired {s : State} {now : Time} {attemptId : Uuid} {remaining : List Uuid}
      {recovered : RecoveredAttempt} {db : Db} {pre post : List Pass}
      (hmem : s.passes = pre ++ { now, remaining := attemptId :: remaining } :: post)
      (hop : recoverExpired P now attemptId s.db = .ok (recovered, db)) :
      Step P s (.recoverExpired now attemptId)
        { s with db, passes := pre ++ { now, remaining } :: post }
  | releaseOrphans {s : State} {now : Time} {db : Db} {pre post : List Pass}
      (hmem : s.passes = pre ++ { now, remaining := [] } :: post)
      (hop : releaseOrphans now s.db = .ok db) :
      Step P s (.releaseOrphans now) { s with db, passes := pre ++ post }
  | settle {s : State} {now : Time} {regionId : Uuid} {db : Db}
      (hop : settleCancelling now regionId s.db = .ok db) :
      Step P s (.settle now regionId) { s with db }
  | cancelRun {s : State} {context : OperatorContext} {runId : Uuid}
      {input : RunCancellationRequest} {receipt : CancellationReceipt} {db : Db}
      (hop : cancelRun P s.now context runId input s.db = .ok (receipt, db)) :
      Step P s (.cancelRun context runId input) { s with db }
  | requestCancellation {s : State} {regionId : Uuid} {epoch : ℕ} :
      Step P s (.requestCancellation regionId epoch)
        { s with db := requestCancellation regionId epoch s.db }
  | maintain {s : State} {write : Maintenance} {db : Db} (hop : maintain write s.db = .ok db) :
      Step P s (.maintain write) { s with db }

/-- The runtime. -/
def runtime (P : Platform) : System State Label :=
  ⟨Initial P, Step P⟩

end FactoryFloor
