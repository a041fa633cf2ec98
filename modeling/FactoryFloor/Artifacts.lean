import FactoryFloor.Schema

/-!
# Validating and publishing staged artifacts

`ArtifactValidationService.validateStagedArtifact` reads the staged bytes and checks them
against the row and its schema. It remembers rows it has validated (`receipts`) and
schemas it has compiled (`compiled`), which belong to the process.

`publishArtifact` makes the staged row's content a committed artifact, or finds the
artifact that has its digest.

The faults of one run are part of its `Stores` : the staged bytes, or the rows read to
validate them, cannot be read for a moment.
-/

namespace FactoryFloor

open Relational

/-- `ArtifactDomainError`, or an error of the store or the database. -/
structure ArtifactError where
  code : String
  message : String
deriving DecidableEq, Repr

/-- What a validation receipt names. -/
structure Fingerprint where
  id : Uuid
  stagedRef : Uuid
  digest : Digest
  sizeBytes : ℕ
  schemaId : Uuid
  mediaType : String
  schemaDigest : Digest
deriving DecidableEq, Repr

/-- The stores a process validates with. -/
structure Stores where
  /-- `readStaged`, where the process has a blob store. -/
  blobStore : Option (Uuid → Option (List UInt8))
  receipts : Uuid → Option Fingerprint
  compiled : Digest → Option Json
  /-- Staged bytes that cannot be read at the moment. -/
  blobFails : Uuid → Bool
  /-- Staging rows whose validation cannot read the database at the moment. -/
  databaseFails : Uuid → Bool

/-- The same stores without faults. -/
def Stores.healthy (stores : Stores) : Stores :=
  { stores with blobFails := fun _ => false, databaseFails := fun _ => false }

/-- `maxJsonBytes`. -/
def maxJsonBytes : ℕ := 104857600

/-- `mediaType.split(';', 1)[0].trim().toLowerCase()`. -/
def mediaTypeBase (mediaType : String) : List Char :=
  ((((mediaType.toList.takeWhile (· ≠ ';')).dropWhile isTrimmed).reverse.dropWhile
    isTrimmed).reverse).map Char.toLower

/-- `isJsonMediaType`. -/
def isJsonMediaType (mediaType : String) : Bool :=
  mediaTypeBase mediaType = "application/json".toList ||
    "+json".toList.isSuffixOf (mediaTypeBase mediaType)

/-- The fingerprint of a row and its schema. -/
def fingerprint (row : ArtifactStaging) (schema : ArtifactSchema) : Fingerprint :=
  { id := row.id, stagedRef := row.stagedRef, digest := row.digest, sizeBytes := row.sizeBytes,
    schemaId := row.schemaId, mediaType := row.mediaType, schemaDigest := schema.contentDigest }

/-- Fails with an artifact error unless the condition holds. -/
def requireArtifact (condition : Bool) (code message : String) : Except ArtifactError Unit :=
  if condition then .ok () else .error { code, message }

theorem requireArtifact_eq_ok {condition : Bool} {code message : String} {u : Unit} :
    requireArtifact condition code message = .ok u ↔ condition = true := by
  rw [requireArtifact]
  split_ifs with h
  · exact iff_of_true rfl h
  · exact iff_of_false (by simp) h

/-- The compiled validator of a schema : the cached one, or a new one. -/
def compiledValidator (P : Platform) (stores : Stores) (schema : ArtifactSchema) :
    Except ArtifactError Json :=
  match stores.compiled schema.contentDigest with
  | some compiled => .ok compiled
  | none =>
    if P.compiles [] schema.schema then .ok schema.schema
    else .error { code := "compile_failed", message := "schema does not compile" }

/-- The bytes `readStaged` streams. -/
def readStaged (stores : Stores) (stagedRef : Uuid) : Except ArtifactError (List UInt8) :=
  if stores.blobFails stagedRef then
    .error { code := "read_failed", message := "staged bytes cannot be read" }
  else
    match stores.blobStore.bind fun read => read stagedRef with
    | some bytes => .ok bytes
    | none => .error { code := "read_failed", message := "staged bytes cannot be read" }

/-- The checks of the staged bytes. -/
def validateBytes (P : Platform) (stores : Stores) (row : ArtifactStaging)
    (schema : ArtifactSchema) (bytes : List UInt8) : Except ArtifactError Unit := do
  requireArtifact (bytes.length ≤ maxJsonBytes) "artifact_too_large"
    "artifact exceeds maximum JSON validation size"
  requireArtifact (P.sha256 bytes = row.digest) "digest_mismatch"
    "staged bytes digest does not match database metadata"
  requireArtifact (bytes.length = row.sizeBytes) "size_mismatch"
    "staged bytes size does not match database metadata"
  match P.parseJson bytes with
  | none => .error { code := "invalid_json", message := "artifact is not valid JSON" }
  | some value =>
    let validator ← compiledValidator P stores schema
    requireArtifact (P.validates validator value) "schema_validation_failed"
      "artifact failed schema validation"

/-- `validateStagedArtifact`. -/
def validateStagedArtifact (P : Platform) (stores : Stores) (stagingRowId : Uuid) (db : Db) :
    Except ArtifactError Unit := do
  requireArtifact (!stores.databaseFails stagingRowId) "read_failed" "database cannot be read"
  match db.staging.find? (·.id = stagingRowId) with
  | none => .error { code := "staging_not_found", message := "staging row was not found" }
  | some row =>
    requireArtifact (row.status = .staged) "staging_not_active" "staging row is not active"
    match (db.schema? row.schemaId).filter (·.retiredAt.isNone) with
    | none =>
      .error { code := "schema_not_found",
               message := "artifact schema was not found or is retired" }
    | some schema =>
      requireArtifact (isJsonMediaType row.mediaType) "unsupported_media_type"
        "artifact media type is not JSON"
      if stores.receipts row.id = some (fingerprint row schema) then .ok ()
      else validateBytes P stores row schema (← readStaged stores row.stagedRef)

/-! ## Publishing -/

/-- `createCommittedArtifactIdempotently`, after no artifact with the digest was found. -/
def createCommittedArtifact (P : Platform) (row : ArtifactStaging) (db : Db) :
    Outcome (Artifact × Db) := do
  let artifact : Artifact :=
    { id := db.nextUuid P, digest := row.digest, sizeBytes := row.sizeBytes,
      schemaId := row.schemaId, state := .committed, mediaType := row.mediaType }
  let artifacts ← sql (insert artifact db.artifacts)
  return (artifact, { db.draw with artifacts })

/-- Whether an artifact has the metadata of a staged row, and is not tombstoned. -/
def Artifact.compatible (artifact : Artifact) (row : ArtifactStaging) : Bool :=
  artifact.sizeBytes = row.sizeBytes && artifact.schemaId = row.schemaId &&
    artifact.mediaType = row.mediaType && artifact.state ≠ .tombstoned

/-- The artifact that has the row's digest : the one that is there, or a new one. -/
def ensureArtifact (P : Platform) (row : ArtifactStaging) (db : Db) : Outcome (Artifact × Db) :=
  match db.artifactByDigest? row.digest with
  | some artifact =>
    if artifact.compatible row then .ok (artifact, db)
    else .error (.commit "artifact_conflict"
      "artifact digest conflicts with existing metadata" 409)
  | none => createCommittedArtifact P row db

/-- `linkStagingRowToArtifact`. -/
def linkStagingRowToArtifact (stagingRowId artifactId : Uuid) (db : Db) : Outcome Db := do
  let staging ← sql (update (fun s => s.id = stagingRowId)
    (fun s => { s with artifactId := some artifactId }) db.staging)
  return { db with staging }

/-- `publishArtifact`. -/
def publishArtifact (P : Platform) (executionId attemptId : Uuid) (row : ArtifactStaging)
    (derivationType : DerivationType) (db : Db) : Outcome (Uuid × Db) := do
  let (artifact, db) ← ensureArtifact P row db
  let db ← linkStagingRowToArtifact row.id artifact.id db
  let derivation : ArtifactDerivation :=
    { artifactId := artifact.id, executionId, attemptId, derivationType }
  return (artifact.id, { db.draw with derivations := db.derivations ++ [derivation] })

end FactoryFloor
