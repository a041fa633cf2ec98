import FactoryFloor.BlobStore
import FactoryFloor.Artifacts
import FactoryFloor.Instantiation

/-!
# Reconciling artifacts

`ArtifactReconciliationService.runBatch` scans three things with one limit : the committed
artifacts, the staging rows that are older than the grace period, and one page of the staged
objects. Only the last scan goes on where the batch before stopped.

* An artifact whose bytes are not committed is promoted from a staging row that is linked to it
  and still staged (`reconcileArtifact`).
* A staging row that no commit has linked is abandoned when nothing is staged for it
  (`reconcileStagingRow`).
* A staged object that no staging row refers to is an orphan (`reconcileObject`).

The steps are functions of the rows a scan has read and of the tables and the store at the time.
`runBatch` runs them one after the other.
-/

namespace FactoryFloor

open Relational

/-! ## Rows -/

/-- A row of `artifact_staging`. `locator` is the staging id whose object it locates, if it is the
locator of one. -/
structure StagingRow extends ArtifactStaging where
  locator : Option Uuid
  createdAt : Time
  promotedAt : Option Time
  abandonedAt : Option Time
deriving DecidableEq, Repr

/-- A row of `artifacts`. -/
structure ArtifactRow extends Artifact where
  createdAt : Time
deriving DecidableEq, Repr

/-- The tables and the store a reconciliation works on. -/
structure ArtifactWorld where
  artifacts : List ArtifactRow
  staging : List StagingRow
  inlinePayloads : List InlinePayload
  store : BlobStore

namespace ArtifactWorld

variable (w : ArtifactWorld)

/-- `findCommittedArtifactsNeedingBlobCheck`. -/
def findCommittedArtifactsNeedingBlobCheck (limit : ℕ) : List ArtifactRow :=
  ((w.artifacts.filter (·.state = .committed)).insertionSort
    fun a b => a.createdAt ≤ b.createdAt).take limit

/-- `readStagingRowsByArtifactId`. -/
def readStagingRowsByArtifactId (artifactId : Uuid) : List StagingRow :=
  (w.staging.filter (·.artifactId = some artifactId)).insertionSort
    fun r s => r.createdAt ≤ s.createdAt

/-- `readStagingRowsByLocator`, of the locator of a staged object. -/
def readStagingRowsByLocator (stagingId : Uuid) : List StagingRow :=
  w.staging.filter (·.locator = some stagingId)

/-- `listReconciliationCandidates` of staged rows. -/
def listReconciliationCandidates (before : Time) (limit : ℕ) : List StagingRow :=
  ((w.staging.filter fun r => r.status = .staged && r.createdAt < before).insertionSort
    fun r s => r.createdAt ≤ s.createdAt).take limit

/-- `markStagingPromoted`. The row satisfies the CHECK constraints of the table. -/
def markStagingPromoted (stagingRowId artifactId : Uuid) (now : Time) : ArtifactWorld :=
  { w with staging := updateWhere (fun r => r.id = stagingRowId) (fun r =>
      { r with status := .promoted, artifactId := some artifactId, promotedAt := some now,
               abandonedAt := none }) w.staging }

/-- `markStagingAbandoned`, of which the same is true. -/
def markStagingAbandoned (stagingRowId : Uuid) (now : Time) : ArtifactWorld :=
  { w with staging := updateWhere (fun r => r.id = stagingRowId) (fun r =>
      { r with status := .abandoned, promotedAt := none, abandonedAt := some now }) w.staging }

end ArtifactWorld

/-! ## Reports -/

/-- `ReconciliationDiagnostic`. -/
structure ReconciliationDiagnostic where
  code : String
  id : Uuid
  message : String
deriving DecidableEq, Repr

/-- `ArtifactReconciliationReport`. The cursor is the staging id it encodes. -/
structure ArtifactReconciliationReport where
  dryRun : Bool
  scanned : ℕ
  promoted : ℕ
  wouldPromote : ℕ
  alreadyConsistent : ℕ
  abandonedMetadataRows : ℕ
  wouldAbandonMetadataRows : ℕ
  orphanStagedObjects : ℕ
  removedOrphanObjects : ℕ
  wouldRemoveOrphanObjects : ℕ
  unresolved : List ReconciliationDiagnostic
  nextCursor : Option Uuid
deriving DecidableEq, Repr

/-- The report a batch starts with. -/
def ArtifactReconciliationReport.empty (dryRun : Bool) : ArtifactReconciliationReport :=
  ⟨dryRun, 0, 0, 0, 0, 0, 0, 0, 0, 0, [], none⟩

/-- Why a batch throws. -/
inductive ReconciliationError where
  /-- `ArtifactDomainError`. -/
  | domain (e : ArtifactError)
  | blob (e : BlobError)
deriving DecidableEq, Repr

/-- An operation of the store, as part of a batch. -/
def blob {α : Type} (r : Except BlobError α) : Except ReconciliationError α :=
  r.mapError .blob

/-- `promotionDiagnostic`. -/
def promotionDiagnostic (P : Platform) (artifactId stagingRowId : Uuid) :
    BlobError → Option ReconciliationDiagnostic
  | .store .notFound _ => some
    { code := "missing_staged_bytes", id := artifactId,
      message := "staged recovery bytes are missing for staging row " ++ P.uuidText stagingRowId }
  | .store .digestMismatch _ | .store .sizeMismatch _ | .store .stagingConflict _ => some
    { code := "staged_bytes_mismatch", id := artifactId,
      message := "staged recovery bytes do not match committed artifact metadata for staging row " ++
        P.uuidText stagingRowId }
  | .store .invalidDigest _ | .store .committedConflict _ | .thrown .. => none

/-! ## One batch -/

/-- What `runBatch` is given. -/
structure ReconciliationInput where
  limit : ℕ
  cursor : Option Uuid
  removeOrphans : Bool
  orphanGraceSeconds : ℤ
  dryRun : Bool

/-- The end of the grace period of what exists now. -/
def ReconciliationInput.cutoff (input : ReconciliationInput) (now : Time) : Time :=
  (now - input.orphanGraceSeconds * 1000).toNat

/-- What a batch works on, and its report so far. -/
structure Reconciling extends ArtifactWorld where
  report : ArtifactReconciliationReport

/-- The report of a batch that has found something. -/
def Reconciling.reporting (s : Reconciling)
    (f : ArtifactReconciliationReport → ArtifactReconciliationReport) : Reconciling :=
  { s with report := f s.report }

/-- A diagnostic of a batch. -/
def Reconciling.unresolved (s : Reconciling) (d : ReconciliationDiagnostic) : Reconciling :=
  s.reporting fun r => { r with unresolved := r.unresolved ++ [d] }

/-- The staging row an artifact would be promoted from. -/
def ArtifactWorld.recoveryRow (w : ArtifactWorld) (artifactId : Uuid) : Option StagingRow :=
  (w.readStagingRowsByArtifactId artifactId).find? (·.status = .staged)

/-- The scan of one artifact. -/
def reconcileArtifact (P : Platform) (dryRun : Bool) (now : Time) (s : Reconciling)
    (artifact : ArtifactRow) : Except ReconciliationError Reconciling := do
  let s := s.reporting fun r => { r with scanned := r.scanned + 1 }
  if ← blob (s.store.committedExists P artifact.digest) then
    return s.reporting fun r => { r with alreadyConsistent := r.alreadyConsistent + 1 }
  match s.recoveryRow artifact.id with
  | none =>
    return s.unresolved { code := "missing_committed_bytes", id := artifact.id,
                          message := "committed artifact bytes are missing" }
  | some row =>
    if dryRun then
      return s.reporting fun r => { r with wouldPromote := r.wouldPromote + 1 }
    match s.store.promote P row.stagedRef artifact.digest artifact.sizeBytes with
    | .error e =>
      match promotionDiagnostic P artifact.id row.id e with
      | some diagnostic => return s.unresolved diagnostic
      | none => .error (.blob e)
    | .ok store =>
      return ({ s with toArtifactWorld :=
          { s.toArtifactWorld with store }.markStagingPromoted row.id artifact.id now }).reporting
        fun r => { r with promoted := r.promoted + 1 }

/-- The scan of one staging row. -/
def reconcileStagingRow (P : Platform) (dryRun : Bool) (now : Time) (s : Reconciling)
    (row : StagingRow) : Except ReconciliationError Reconciling := do
  if row.artifactId ≠ none then return s
  if ← blob (s.store.stagedExists P row.stagedRef) then return s
  if dryRun then
    return s.reporting fun r => { r with wouldAbandonMetadataRows := r.wouldAbandonMetadataRows + 1 }
  return ({ s with toArtifactWorld := s.toArtifactWorld.markStagingAbandoned row.id now }).reporting
    fun r => { r with abandonedMetadataRows := r.abandonedMetadataRows + 1 }

/-- The scan of one staged object. -/
def reconcileObject (input : ReconciliationInput) (cutoff : Time) (s : Reconciling)
    (object : BlobStore.StagedObject) : Reconciling :=
  if s.readStagingRowsByLocator object.stagingId ≠ [] ∨ cutoff ≤ object.lastModifiedAt then s
  else
    let s := s.reporting fun r => { r with orphanStagedObjects := r.orphanStagedObjects + 1 }
    if !input.removeOrphans then s
    else if input.dryRun then
      s.reporting fun r => { r with wouldRemoveOrphanObjects := r.wouldRemoveOrphanObjects + 1 }
    else
      ({ s with store := s.store.removeStaged object.stagingId }).reporting
        fun r => { r with removedOrphanObjects := r.removedOrphanObjects + 1 }

/-- `runBatch`. -/
def runBatch (P : Platform) (now : Time) (input : ReconciliationInput) (w : ArtifactWorld) :
    Except ReconciliationError Reconciling := do
  if input.limit < 1 then
    .error (.domain { code := "reconciliation_unresolved",
                      message := "reconciliation limit must be a positive integer" })
  if input.orphanGraceSeconds < 0 then
    .error (.domain { code := "reconciliation_unresolved",
                      message := "orphan grace period must not be negative" })
  let cutoff := input.cutoff now
  let s : Reconciling := ⟨w, .empty input.dryRun⟩
  let s ← (s.findCommittedArtifactsNeedingBlobCheck input.limit).foldlM
    (reconcileArtifact P input.dryRun now) s
  let s ← (s.listReconciliationCandidates cutoff input.limit).foldlM
    (reconcileStagingRow P input.dryRun now) s
  let (objects, nextCursor) ← blob (s.store.listStaged P input.limit input.cursor)
  let s := objects.foldl (reconcileObject input cutoff) s
  return s.reporting fun r => { r with nextCursor }

end FactoryFloor
