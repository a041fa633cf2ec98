import FactoryFloor.Execution
import FactoryFloor.Reconciliation

/-!
# Publishing a staged artifact by itself

`ArtifactPublicationService.publish` : a staging row is validated, linked to the artifact of its digest
in one transaction, and then the blob store is told to promote the staged bytes. What the blob store
answers with an error is reported as a promotion that is pending.

The validation reads what is staged under the row's reference, and the promotion takes what is staged
under the row's id. So a publication is complete where the bytes are committed already, or staged under
the id too (`publishes_validated_iff`).
-/

namespace FactoryFloor

open Relational

namespace StagedPublication

/-- The tables, the blob store, and what the process remembers of validations. -/
structure PublicationWorld where
  db : Db
  store : BlobStore
  receipts : Uuid → Option Fingerprint
  compiled : Digest → Option Json

inductive PublicationDisposition where
  | created
  | existing
  | metadataCommittedBlobPromoted
  | metadataCommittedPromotionPending
deriving DecidableEq, Repr

/-- `readStaged`. -/
def readStaged (P : Platform) (store : BlobStore) (stagingId : Uuid) : Option (List UInt8) :=
  match readVerifiedObjectMetadata P .notFound (store.staged? stagingId) with
  | .ok _ => (store.staged? stagingId).bind (·.data)
  | .error _ => none

/-- What a validation reads. -/
def PublicationWorld.stores (P : Platform) (w : PublicationWorld) : Stores where
  blobStore := some (readStaged P w.store)
  receipts := w.receipts
  compiled := w.compiled
  blobFails _ := false
  databaseFails _ := false

/-- `assertCompatible`. -/
def assertCompatible (artifact : Artifact) (staging : ArtifactStaging) : Except ArtifactError Unit := do
  requireArtifact (artifact.state ≠ .tombstoned) "artifact_tombstoned" "artifact digest is tombstoned"
  requireArtifact (artifact.sizeBytes = staging.sizeBytes && artifact.schemaId = staging.schemaId &&
      artifact.mediaType = staging.mediaType) "artifact_conflict"
    "artifact identity conflicts with existing digest"

/-- `linkStagingRowToArtifact`. The row satisfies the CHECK constraints of the table. -/
def linkRow (stagingRowId artifactId : Uuid) (db : Db) : Db :=
  { db with staging := updateWhere (fun s => s.id = stagingRowId) (fun s =>
      { s with artifactId := some artifactId }) db.staging }

/-- `markStagingPromoted`, of which the same is true. -/
def markStagingPromoted (stagingRowId artifactId : Uuid) (db : Db) : Db :=
  { db with staging := updateWhere (fun s => s.id = stagingRowId) (fun s =>
      { s with status := .promoted, artifactId := some artifactId }) db.staging }

/-- The first transaction of `publish`. With the digest locked, the artifact that is inserted is the
only one with it, and its id is new. -/
def linkArtifact (P : Platform) (stagingRowId : Uuid) (db : Db) :
    Except ArtifactError (Artifact × PublicationDisposition × Db) :=
  match db.staging.find? (·.id = stagingRowId) with
  | none => .error { code := "staging_not_found", message := "staging row was not found" }
  | some row => do
    requireArtifact (row.status = .staged) "staging_not_active" "staging row is not active"
    match db.artifactByDigest? row.digest with
    | some existing =>
      assertCompatible existing row
      return (existing, .existing, linkRow row.id existing.id db)
    | none =>
      let artifact : Artifact :=
        { id := db.nextUuid P, digest := row.digest, sizeBytes := row.sizeBytes,
          schemaId := row.schemaId, state := .committed, mediaType := row.mediaType }
      assertCompatible artifact row
      return (artifact, .created,
        linkRow row.id artifact.id { db.draw with artifacts := db.artifacts ++ [artifact] })

/-- `publish`. An error of the promotion is not reported. -/
def publish (P : Platform) (stagingRowId : Uuid) (w : PublicationWorld) :
    PublicationWorld × Except ArtifactError (Artifact × PublicationDisposition) :=
  match validateStagedArtifact P (w.stores P) stagingRowId w.db with
  | .error e => (w, .error e)
  | .ok _ =>
    match linkArtifact P stagingRowId w.db with
    | .error e => (w, .error e)
    | .ok (artifact, disposition, db) =>
      match w.store.promote P stagingRowId artifact.digest artifact.sizeBytes with
      | .error _ =>
        ({ w with db }, .ok (artifact, .metadataCommittedPromotionPending))
      | .ok store =>
        ({ w with db := markStagingPromoted stagingRowId artifact.id db, store },
          .ok (artifact, if disposition = .created then .metadataCommittedBlobPromoted
            else disposition))

/-! ## What a publication is for -/

/-- A staging row whose staged bytes pass the validation. -/
structure ValidRow (P : Platform) (stagingRowId : Uuid) (w : PublicationWorld) (row : ArtifactStaging)
    (bytes : List UInt8) : Prop where
  found : w.db.staging.find? (·.id = stagingRowId) = some row
  status : row.status = .staged
  mediaType : isJsonMediaType row.mediaType
  staged : readStaged P w.store row.stagedRef = some bytes
  bytes : ∃ schema, (w.db.schema? row.schemaId).filter (·.retiredAt.isNone) = some schema ∧
    validateBytes P (w.stores P) row schema bytes = .ok ()

/-- Whether no artifact is in conflict with a row. -/
def NoConflict (w : PublicationWorld) (row : ArtifactStaging) : Prop :=
  ∀ artifact, w.db.artifactByDigest? row.digest = some artifact → artifact.compatible row

/-- The row is promoted and linked to an artifact of its digest, and the bytes are committed. -/
def Published (P : Platform) (row : ArtifactStaging) (bytes : List UInt8)
    (r : PublicationWorld × Except ArtifactError (Artifact × PublicationDisposition)) : Prop :=
  ∃ artifact disposition, r.2 = .ok (artifact, disposition) ∧ artifact ∈ r.1.db.artifacts ∧
    artifact.digest = row.digest ∧ r.1.store.committed row.digest = some (.written P bytes) ∧
    ∃ linked ∈ r.1.db.staging, linked.id = row.id ∧ linked.status = .promoted ∧
      linked.artifactId = some artifact.id

/-- Publications are complete, or change nothing. -/
structure PublishesValidated (P : Platform) (stagingRowId : Uuid) (w : PublicationWorld) : Prop where
  complete : ∀ row bytes, ValidRow P stagingRowId w row bytes → NoConflict w row →
    Published P row bytes (publish P stagingRowId w)
  refused : ∀ e, validateStagedArtifact P (w.stores P) stagingRowId w.db = .error e →
    publish P stagingRowId w = (w, .error e)
  conflicting : ∀ row bytes, ValidRow P stagingRowId w row bytes → ¬NoConflict w row →
    ∃ e, publish P stagingRowId w = (w, .error e)

/-- A store whose objects are as they were written, the committed ones under their digests. -/
structure Healthy (P : Platform) (store : BlobStore) : Prop where
  committed : ∀ digest object, store.committed digest = some object →
    ∃ bytes, object = .written P bytes ∧ P.sha256 bytes = digest
  staged : ∀ entry ∈ store.staged, IsWritten P (some entry.directory)

section Publish

variable {P : Platform} {stagingRowId : Uuid} {w : PublicationWorld} {row : ArtifactStaging}
  {bytes : List UInt8}

theorem assertCompatible_eq_ok {artifact : Artifact} {u : Unit} :
    assertCompatible artifact row = .ok u ↔ artifact.compatible row := by
  rw [assertCompatible, Except.bind_eq_ok, Artifact.compatible, Bool.and_eq_true]
  simp only [requireArtifact_eq_ok, exists_and_left, exists_const]
  exact and_comm

/-- A row whose bytes pass is validated, remembered or not. -/
theorem ValidRow.validated (h : ValidRow P stagingRowId w row bytes) :
    validateStagedArtifact P (w.stores P) stagingRowId w.db = .ok () := by
  obtain ⟨schema, hschema, hbytes⟩ := h.bytes
  rw [validateStagedArtifact, Except.bind_eq_ok]
  refine ⟨(), rfl, ?_⟩
  rw [h.found]
  dsimp only
  rw [Except.bind_eq_ok]
  refine ⟨(), by rw [requireArtifact, h.status]; rfl, ?_⟩
  rw [hschema]
  dsimp only
  rw [Except.bind_eq_ok]
  refine ⟨(), by rw [requireArtifact, h.mediaType]; rfl, ?_⟩
  split_ifs
  · rfl
  · rw [Except.bind_eq_ok]
    have hread : (w.stores P).blobStore.bind (fun read => read row.stagedRef) = some bytes := h.staged
    have hready : (w.stores P).blobFails row.stagedRef = false := rfl
    refine ⟨bytes, ?_, hbytes⟩
    rw [FactoryFloor.readStaged, hready, hread]
    rfl

/-- The bytes that pass have the digest and the size of the row. -/
theorem ValidRow.identity (h : ValidRow P stagingRowId w row bytes) :
    P.sha256 bytes = row.digest ∧ bytes.length = row.sizeBytes := by
  obtain ⟨schema, -, hbytes⟩ := h.bytes
  rw [validateBytes] at hbytes
  obtain ⟨_, -, hbytes⟩ := Except.bind_eq_ok.1 hbytes
  obtain ⟨_, hdigest, hbytes⟩ := Except.bind_eq_ok.1 hbytes
  obtain ⟨_, hsize, -⟩ := Except.bind_eq_ok.1 hbytes
  exact ⟨of_decide_eq_true (requireArtifact_eq_ok.1 hdigest),
    of_decide_eq_true (requireArtifact_eq_ok.1 hsize)⟩

/-- A row without a conflict is linked to an artifact of its digest. -/
theorem linkArtifact_of_valid (h : ValidRow P stagingRowId w row bytes) (hconflict : NoConflict w row) :
    ∃ artifact disposition db, linkArtifact P stagingRowId w.db = .ok (artifact, disposition, db) ∧
      artifact.digest = row.digest ∧ artifact.sizeBytes = row.sizeBytes ∧ artifact ∈ db.artifacts ∧
      ∃ linked ∈ db.staging, linked.id = row.id := by
  have hlinked : ∀ (artifactId : Uuid) (db : Db), db.staging = w.db.staging →
      ∃ linked ∈ (linkRow row.id artifactId db).staging, linked.id = row.id := by
    intro artifactId db hstaging
    refine ⟨_, List.mem_map.2 ⟨row, ?_, rfl⟩, ?_⟩
    · rw [hstaging]
      exact List.mem_of_find?_eq_some h.found
    · simp
  rw [linkArtifact, h.found]
  dsimp only
  cases hexisting : w.db.artifactByDigest? row.digest with
  | some existing =>
    have hcompatible := hconflict existing hexisting
    refine ⟨existing, .existing, linkRow row.id existing.id w.db, ?_, ?_, ?_, ?_, hlinked _ _ rfl⟩
    · rw [Except.bind_eq_ok]
      refine ⟨(), by rw [requireArtifact, h.status]; rfl, ?_⟩
      rw [Except.bind_eq_ok]
      exact ⟨(), assertCompatible_eq_ok.2 hcompatible, rfl⟩
    · simpa using List.find?_some hexisting
    · rw [Artifact.compatible, Bool.and_eq_true, Bool.and_eq_true, Bool.and_eq_true] at hcompatible
      exact of_decide_eq_true hcompatible.1.1.1
    · exact List.mem_of_find?_eq_some hexisting
  | none =>
    let artifact : Artifact :=
      { id := w.db.nextUuid P, digest := row.digest, sizeBytes := row.sizeBytes,
        schemaId := row.schemaId, state := .committed, mediaType := row.mediaType }
    refine ⟨artifact, .created, linkRow row.id artifact.id
      { w.db.draw with artifacts := w.db.artifacts ++ [artifact] }, ?_, rfl, rfl, ?_, hlinked _ _ rfl⟩
    · rw [Except.bind_eq_ok]
      refine ⟨(), by rw [requireArtifact, h.status]; rfl, ?_⟩
      rw [Except.bind_eq_ok]
      exact ⟨(), assertCompatible_eq_ok.2 (by simp [Artifact.compatible]), rfl⟩
    · exact List.mem_append_right _ (List.mem_singleton_self _)

/-- A row in conflict is not linked. -/
theorem linkArtifact_of_conflict (h : ValidRow P stagingRowId w row bytes)
    (hconflict : ¬NoConflict w row) : ∃ e, linkArtifact P stagingRowId w.db = .error e := by
  rw [NoConflict] at hconflict
  push Not at hconflict
  obtain ⟨existing, hexisting, hcompatible⟩ := hconflict
  cases hlink : linkArtifact P stagingRowId w.db with
  | error e => exact ⟨e, rfl⟩
  | ok linked =>
    rw [linkArtifact, h.found] at hlink
    dsimp only at hlink
    obtain ⟨_, -, hlink⟩ := Except.bind_eq_ok.1 hlink
    rw [hexisting] at hlink
    dsimp only at hlink
    obtain ⟨_, hassert, -⟩ := Except.bind_eq_ok.1 hlink
    exact absurd (assertCompatible_eq_ok.1 hassert) (by simpa using hcompatible)

/-- The promotion finds the bytes, committed already or staged under the id of the row. -/
def BytesAtHand (P : Platform) (stagingRowId : Uuid) (w : PublicationWorld) (row : ArtifactStaging)
    (bytes : List UInt8) : Prop :=
  match w.store.committed row.digest with
  | some object => object = .written P bytes
  | none => w.store.staged? stagingRowId = some (.written P bytes)

/-- A row that passes is published exactly when the promotion finds its bytes. -/
theorem published_iff (h : ValidRow P stagingRowId w row bytes) (hconflict : NoConflict w row) :
    Published P row bytes (publish P stagingRowId w) ↔ BytesAtHand P stagingRowId w row bytes := by
  obtain ⟨artifact, disposition, db, hlink, hdigest, hsize, hmem, linked, hlinked, hid⟩ :=
    linkArtifact_of_valid h hconflict
  obtain ⟨hsha, hlength⟩ := h.identity
  have hrow : row.id = stagingRowId := by simpa using List.find?_some h.found
  rw [publish, h.validated]
  dsimp only
  rw [hlink]
  dsimp only
  rw [hdigest, hsize, BytesAtHand]
  cases hpromote : w.store.promote P stagingRowId row.digest row.sizeBytes with
  | error e =>
    have hnot : ∀ store', ¬∃ bytes, P.sha256 bytes = row.digest ∧ bytes.length = row.sizeBytes ∧
        ((w.store.committed row.digest = some (.written P bytes) ∧
            store' = w.store.removeStaged stagingRowId) ∨
          (w.store.committed row.digest = none ∧
            w.store.staged? stagingRowId = some (.written P bytes) ∧
            store' = (w.store.addCommitted row.digest (.written P bytes)).removeStaged
              stagingRowId)) := by
      intro store' hpromoted
      rw [BlobStore.promote_eq_ok.2 hpromoted] at hpromote
      cases hpromote
    refine iff_of_false ?_ ?_
    · rintro ⟨-, -, -, -, -, hcommitted, -⟩
      exact hnot _ ⟨bytes, hsha, hlength, Or.inl ⟨hcommitted, rfl⟩⟩
    · intro hbytes
      cases hcommitted : w.store.committed row.digest with
      | some object =>
        rw [hcommitted] at hbytes
        exact hnot _ ⟨bytes, hsha, hlength, Or.inl ⟨by rw [hcommitted, hbytes], rfl⟩⟩
      | none =>
        rw [hcommitted] at hbytes
        exact hnot _ ⟨bytes, hsha, hlength, Or.inr ⟨hcommitted, hbytes, rfl⟩⟩
  | ok store' =>
    obtain ⟨found, -, -, hfound⟩ := BlobStore.promote_eq_ok.1 hpromote
    have hstore : store'.committed row.digest = some (.written P found) := by
      rcases hfound with ⟨hcommitted, rfl⟩ | ⟨-, -, rfl⟩
      · exact hcommitted
      · exact if_pos rfl
    have hhand : (match w.store.committed row.digest with
        | some object => object = ObjectDirectory.written P bytes
        | none => w.store.staged? stagingRowId = some (.written P bytes)) ↔
          ObjectDirectory.written P found = .written P bytes := by
      rcases hfound with ⟨hcommitted, -⟩ | ⟨hcommitted, hstaged, -⟩
      · rw [hcommitted]
      · rw [hcommitted]
        dsimp only
        rw [hstaged, Option.some.injEq]
    rw [hhand]
    constructor
    · rintro ⟨-, -, -, -, -, hcommitted, -⟩
      exact Option.some.inj (hstore.symm.trans hcommitted)
    · intro heq
      refine ⟨artifact, _, rfl, hmem, hdigest, by rw [← heq]; exact hstore, _,
        List.mem_map.2 ⟨linked, hlinked, rfl⟩, ?_⟩
      have hlinkedId : linked.id = stagingRowId := hid.trans hrow
      simp [hlinkedId, hrow]

/-- Publications are complete, or change nothing, exactly when the promotion finds the bytes of every
row that passes. -/
theorem publishes_validated_iff (P : Platform) (stagingRowId : Uuid) (w : PublicationWorld) :
    PublishesValidated P stagingRowId w ↔ ∀ row bytes, ValidRow P stagingRowId w row bytes →
      NoConflict w row → BytesAtHand P stagingRowId w row bytes := by
  constructor
  · exact fun h row bytes hvalid hconflict =>
      (published_iff hvalid hconflict).1 (h.complete row bytes hvalid hconflict)
  · intro h
    refine ⟨fun row bytes hvalid hconflict =>
      (published_iff hvalid hconflict).2 (h row bytes hvalid hconflict), fun e he => ?_,
      fun row bytes hvalid hconflict => ?_⟩
    · rw [publish, he]
    · obtain ⟨e, he⟩ := linkArtifact_of_conflict hvalid hconflict
      refine ⟨e, ?_⟩
      rw [publish, hvalid.validated]
      dsimp only
      rw [he]

end Publish

/-- A platform that has the digest of the JSON text `null`. -/
def nullPlatform : Platform :=
  { samplePlatform with
    sha256 := fun _ => 0x74234e98afe7498fb5daf1f36ac2d78acc339464f950703b8c019892f982b90b }

/-- A row with id 1, whose bytes are staged under the reference 2. -/
def nullRow : ArtifactStaging where
  id := 1
  attemptId := 3
  stagedRef := 2
  digest := nullPlatform.sha256 []
  sizeBytes := 4
  schemaId := 500
  mediaType := "application/json"
  status := .staged
  artifactId := none

/-- The bytes of the JSON text `null`. -/
def nullBytes : List UInt8 := [110, 117, 108, 108]

/-- A store where only this row's bytes are staged. -/
def nullWorld : PublicationWorld where
  db := { deployDb plantCatalog [] [] 0 with staging := [nullRow] }
  store := ⟨[⟨2, .written nullPlatform nullBytes, 0⟩], fun _ => none, List.nodup_singleton _⟩
  receipts _ := none
  compiled _ := none

theorem nullRow_valid : ValidRow nullPlatform 1 nullWorld nullRow nullBytes where
  found := rfl
  status := rfl
  mediaType := by decide
  staged := rfl
  bytes := ⟨⟨500, 7, .null, none⟩, rfl, rfl⟩

/-- The bytes of the row are valid, and stay staged while nothing is committed. -/
theorem other_reference_not_promoted : ¬ ∀ (P : Platform) (stagingRowId : Uuid)
    (w : PublicationWorld), Healthy P w.store → PublishesValidated P stagingRowId w := by
  intro h
  have hhealthy : Healthy nullPlatform nullWorld.store :=
    { committed := fun digest object hobject => nomatch hobject
      staged := fun entry hentry => by
        rw [List.mem_singleton.1 hentry]
        exact isWritten_written }
  have hconflict : NoConflict nullWorld nullRow := fun artifact hartifact => by
    rw [Db.artifactByDigest?, nullWorld] at hartifact
    cases hartifact
  have hhand := (published_iff nullRow_valid hconflict).1
    ((h nullPlatform 1 nullWorld hhealthy).complete nullRow nullBytes nullRow_valid hconflict)
  change nullWorld.store.staged? 1 = some _ at hhand
  cases hhand

end StagedPublication

end FactoryFloor
