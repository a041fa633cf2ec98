import FactoryFloor.Execution
import FactoryFloor.PublishedParts

/-!
# Metadata of shared artifacts

Two commits of different regions may stage the same bytes with other metadata. Both look for the
artifact of the digest, and neither finds one. The one whose insert waits goes on with the artifact
of the other, and nothing compares that one with its staging row. So an output may refer to an
artifact with another schema or media type (`output_disagrees`).

In the runs where an insert that conflicts finds an artifact with the metadata of its row, every
output refers to such an artifact (`artifacts_agree`).
-/

namespace FactoryFloor

open Relational Transition

variable {P : Platform} {T : Templates} {content : Digest → ProposedExecutionResult}
  {s t : CommitService} {l : OpenCommitLabel}

/-- Outputs refer to artifacts with the metadata of their staging rows. A result with a row that
disagrees with the artifact of its digest is not committed, and nothing but a commit publishes. -/
structure CommitService.Agreed (P : Platform) (T : Templates)
    (content : Digest → ProposedExecutionResult) (s : CommitService) : Prop where
  outputs : ∀ o ∈ s.db.outputs, ∃ r ∈ s.db.submissions, r.attemptId = o.attemptId ∧
    r.executionId = o.executionId ∧ r.committedAt.isSome ∧ r.result.status = .completed ∧
    ∃ part ∈ r.result.outputParts, part.staged.portName = o.portName ∧
      ∃ row ∈ s.db.staging, row.attemptId = o.attemptId ∧
        row.stagedRef = part.staged.stagingId ∧
        ∃ a ∈ s.db.artifacts, a.id = o.artifactId ∧ a.digest = row.digest ∧
          a.schemaId = row.schemaId ∧ a.mediaType = row.mediaType ∧ a.sizeBytes = row.sizeBytes ∧
          a.state ≠ .tombstoned
  committed : ∀ r ∈ s.db.submissions, r.committedAt.isSome → r.result.status = .completed →
    ∀ part ∈ r.result.parts, ∃ row ∈ s.db.staging, row.attemptId = r.attemptId ∧
      row.stagedRef = part.staged.stagingId ∧
      ∀ a ∈ s.db.artifacts, a.digest = row.digest → a.compatible row
  publishes : ∀ l t, (commitService P T content).step s l t → (∀ d, l ≠ .commit d) →
    t.db.outputs = s.db.outputs ∧ (∀ d, l = .rollback d → t.db = s.db)

theorem Artifact.compatible_iff {a : Artifact} {row : ArtifactStaging} :
    a.compatible row = true ↔ a.sizeBytes = row.sizeBytes ∧ a.schemaId = row.schemaId ∧
      a.mediaType = row.mediaType ∧ a.state ≠ .tombstoned := by
  simp [Artifact.compatible, and_assoc]

theorem Artifact.compatible_sameUpload {a : Artifact} {row row' : ArtifactStaging}
    (h : row.SameUpload row') : a.compatible row' = a.compatible row := by
  obtain ⟨-, -, -, -, hsize, hschema, hmedia⟩ := h
  rw [Artifact.compatible, Artifact.compatible, hsize, hschema, hmedia]

/-- Nothing but a commit inserts outputs. -/
theorem OpenCommitStep.outputs (h : OpenCommitStep P T content s l t) (hl : ∀ d, l ≠ .commit d) :
    t.db.outputs = s.db.outputs ∧ ∀ d, l = .rollback d → t.db = s.db := by
  cases h with
  | commit => exact absurd rfl (hl _)
  | serve hserves => exact ⟨hserves.outputs, by simp⟩
  | _ => exact ⟨rfl, by simp⟩

/-- While an insert that conflicts finds an artifact with the metadata of its row, every output
refers to an artifact with the metadata of its own row, and a result that disagrees with an artifact
is not committed. -/
theorem artifacts_agree
    (h : ((commitService P T content).restrict (conflictsAgree fun _ a r => a.compatible r)).Reachable
      s) : s.Agreed P T content := by
  have hsound := reachable_commitService (fun _ _ _ h => h) h
  refine ⟨fun o ho => ?_, fun r hr hcommitted hstatus part hpart => ?_, fun l t hstep hl =>
    OpenCommitStep.outputs hstep hl⟩
  · obtain ⟨r, hr, hattempt, hexecution, hcommitted, hstatus, part, hpart, hport, a, hid, ha, row, -,
      ⟨row', hrow', hsame⟩, hrowAttempt, hrowRef, -, hdigest, hagrees⟩ := hsound.outputs o ho
    rw [← Artifact.compatible_sameUpload hsame, Artifact.compatible_iff] at hagrees
    obtain ⟨hsize, hschema, hmedia, hstate⟩ := hagrees
    obtain ⟨-, hattempt', href', hdigest', -, -, -⟩ := hsame
    exact ⟨r, hr, hattempt, hexecution, hcommitted, hstatus, part, hpart, hport, row', hrow',
      hattempt'.trans (hrowAttempt.trans hattempt), href'.trans hrowRef, a, ha, hid,
      hdigest.trans hdigest'.symm, hschema, hmedia, hsize, hstate⟩
  · obtain ⟨a, ha, row, -, ⟨row', hrow', hsame⟩, hrowAttempt, hrowRef, -, hdigest, hagrees⟩ :=
      hsound.committed r hr hcommitted hstatus part hpart
    rw [← Artifact.compatible_sameUpload hsame] at hagrees
    obtain ⟨-, hattempt', href', hdigest', -, -, -⟩ := hsame
    refine ⟨row', hrow', hattempt'.trans hrowAttempt, href'.trans hrowRef, fun b hb hbdigest => ?_⟩
    rwa [hsound.keys.digests.committed.eq hb ha (hbdigest.trans (hdigest'.trans hdigest.symm))]

/-! ## Two regions with the same bytes -/

/-- A result of a twin press, with no usage. -/
def twinResult (executionId attemptId : Uuid) (leaseToken : LeaseToken)
    (stagedArtifacts : List Staged) (proposedState : Option Staged) : ProposedExecutionResult :=
  { executionId, attemptId, leaseToken, lifecycleEpoch := 1, status := .completed, stagedArtifacts,
    proposedState, proposedEvents := [], externalActionProposals := [], resourceUsage := noUsage,
    failure := none }

/-- The schema of the state. -/
def twinSchema (differ : Bool) : Uuid :=
  if differ then 501 else 500

/-- One press reports an output, and the other its state with the same bytes, perhaps under another
schema. -/
def twinContent (differ : Bool) (d : Digest) : ProposedExecutionResult :=
  if d = 1 then
    twinResult 20 30 60 [⟨50, "out", 1, 1, "application/json", .uuid 500, 7, .execution 20 30⟩] none
  else
    twinResult 21 31 61 []
      (some ⟨51, "st", 1, 1, "application/json", .uuid (twinSchema differ), 7,
        .execution 21 31⟩)

/-- A region of a press. -/
def twinRegion (id revisionId : Uuid) (name : String) : Region :=
  ⟨id, none, name, .running, 1, some revisionId⟩

def twinDelivery (id regionId revisionId componentId : Uuid) (leaseToken : LeaseToken) : Delivery :=
  { regionId, topologyRevisionId := revisionId, targetComponentInstanceId := componentId,
    correlationId := .other "c", id, targetPortName := "in", source := .command id,
    inputPayload := .null, inputPayloadDigest := 0, status := .leased, availableAt := 0,
    lease := some ⟨"worker", leaseToken, 1000⟩, attemptsCount := 1, completedAt := none,
    failedAt := none, deadLetteredAt := none, failure := none, createdAt := 0 }

def twinExecution (id deliveryId regionId componentId revisionId : Uuid) : Execution :=
  { id, deliveryId, regionId, componentInstanceId := componentId, topologyRevisionId := revisionId,
    lifecycleEpoch := 1, inputSetDigest := [], status := .running, completedAt := none,
    failedAt := none, failure := none }

def twinAttempt (id executionId : Uuid) (leaseToken : LeaseToken) : ExecutionAttempt :=
  { id, executionId, attemptNumber := 1, status := .running,
    lease := some ⟨"worker", leaseToken, 1000⟩, startedAt := some 0, completedAt := none,
    failure := none }

def twinUpload (stagedRef executionId attemptId schemaId stagingId : Uuid) (portName : String) :
    ArtifactUpload :=
  { stagedRef, executionId, attemptId, lifecycleEpoch := 1, portName, schemaId,
    mediaType := "application/json", expectedDigest := 1, expectedSizeBytes := 1, expiresAt := 1000,
    artifactStagingId := some stagingId }

/-- Both presses have staged the same byte. A third region has no topology. -/
def twins (differ : Bool) : CommitService where
  db :=
    { schemas := [⟨500, 7, .null, none⟩, ⟨501, 7, .null, none⟩], definitions := []
      ports := [⟨400, "out", .output, 500, false⟩, ⟨400, "st", .state, twinSchema differ, false⟩]
      revisions := [⟨200, 100, [], []⟩, ⟨201, 101, [], []⟩]
      components := [⟨300, 100, 200, 400, "press"⟩, ⟨301, 101, 201, 400, "press"⟩]
      connections := [], capabilities := [], grants := []
      regions := [twinRegion 100 200 "east", twinRegion 101 201 "west",
        ⟨102, none, "north", .ready, 1, none⟩]
      commands := []
      deliveries := [twinDelivery 10 100 200 300 60, twinDelivery 11 101 201 301 61]
      executions := [twinExecution 20 10 100 300 200, twinExecution 21 11 101 301 201]
      inputs := [⟨20, "in", 10⟩, ⟨21, "in", 11⟩]
      attempts := [twinAttempt 30 20 60, twinAttempt 31 21 61], budgets := [], reservations := []
      staging := [⟨40, 30, 50, 1, 1, 500, "application/json", .staged, none⟩,
        ⟨41, 31, 51, 1, 1, twinSchema differ, "application/json", .staged, none⟩]
      uploads := [twinUpload 50 20 30 500 40 "out",
        twinUpload 51 21 31 (twinSchema differ) 41 "st"]
      artifacts := [], derivations := [], submissions := [], outputs := [], events := []
      streams := [], actions := [], ledger := [], stateVersions := [], drawn := 1000 }
  revisions := []
  instantiations := []
  inlinePayloads := []
  stateLinks := []
  commits := []

/-- A commit of a twin press, with the byte as it is staged. -/
def twinEnv : CommitEnv :=
  { now := 5, allowExpiredLease := false, aborts := false,
    stores := { plantStores with blobStore := some fun _ => some [0] } }

/-- The artifact of the first press. -/
def twinArtifact : Artifact :=
  ⟨70, 1, 1, 500, .committed, "application/json"⟩

/-- No templates. -/
def noTemplates : Templates where
  requestDigest _ := 0
  deterministicRequestId d := d
  resolve _ := .error instantiationConflict

theorem twins_initial (differ : Bool) : (twins differ).Initial (twinContent differ) := by
  cases differ <;>
    exact ⟨by decide, by decide, by decide, by decide, by decide, by decide, by simp [twins],
      by decide, by simp [twins], rfl, rfl, rfl, rfl, rfl⟩

/-- Both presses commit, and neither has found an artifact. The one that creates it commits first. -/
theorem twins_commit {agrees : DerivationType → Artifact → ArtifactStaging → Prop} (differ : Bool)
    (hok : agrees .stateVersion twinArtifact
      ⟨41, 31, 51, 1, 1, twinSchema differ, "application/json", .staged, none⟩) :
    ∃ s, ((commitService samplePlatform noTemplates (twinContent differ)).restrict
        (conflictsAgree agrees)).Reachable s ∧
      s.db.outputs.map (fun o => (o.attemptId, o.portName, o.artifactId)) =
        [(30, "out", 70), (31, "st", 70)] ∧
      s.db.artifacts = [twinArtifact] ∧
      s.db.staging.map (fun r => (r.attemptId, r.schemaId)) = [(30, 500), (31, twinSchema differ)] ∧
      s.db.submissions.map (fun r => (r.submissionDigest, r.committedAt)) =
        [(1, some 5), (2, some 5)] ∧
      s.db.stateVersions.map (·.versionNumber) = if differ then [] else [1] := by
  have hstart : ((commitService samplePlatform noTemplates (twinContent differ)).restrict
      (conflictsAgree agrees)).Reachable (twins differ) := .start (twins_initial differ)
  cases differ
  all_goals
    have hread := (hstart.next ⟨@OpenCommitStep.begin _ _ _ _ twinEnv 1 _ _ _ 80 rfl (by decide) rfl
      rfl rfl (by decide), trivial⟩).next
      ⟨@OpenCommitStep.notFound _ _ _ _ _ [] [] _ _ _ rfl rfl rfl rfl rfl rfl rfl, trivial⟩
    have hboth := (hread.next ⟨@OpenCommitStep.begin _ _ _ _ twinEnv 2 _ _ _ 81 rfl (by decide) rfl
      rfl rfl (by decide), trivial⟩).next
      ⟨@OpenCommitStep.notFound _ _ _ _ _ [] [_] _ _ _ rfl rfl rfl rfl rfl rfl rfl, trivial⟩
    -- the first creates the artifact, and commits
    have hcreated := hboth.next ⟨@OpenCommitStep.create _ _ _ _ _ [_] [] _ _ _ 70 rfl rfl rfl
      ⟨by decide, by decide⟩ ⟨by decide, by decide⟩, trivial⟩
    have hcommitted := (hcreated.next
      ⟨@OpenCommitStep.record _ _ _ _ _ [_] [] _ _ _ 90 _ rfl rfl rfl rfl rfl, trivial⟩).next
      ⟨@OpenCommitStep.commit _ _ _ _ _ [_] [] _ rfl rfl rfl rfl, trivial⟩
    -- the insert of the second conflicts
    have hconflicted := hcommitted.next
      ⟨@OpenCommitStep.conflict _ _ _ _ _ [] [] _ _ _ _ rfl rfl rfl rfl, hok⟩
    have hended := (hconflicted.next
      ⟨@OpenCommitStep.record _ _ _ _ _ [] [] _ _ _ 91 _ rfl rfl rfl rfl rfl, trivial⟩).next
      ⟨@OpenCommitStep.commit _ _ _ _ _ [] [] _ rfl rfl rfl rfl, trivial⟩
    exact ⟨_, hended, rfl, rfl, rfl, rfl, rfl⟩

/-- Two outputs with the same metadata share the artifact of the first. -/
theorem artifacts_agree_shared : ∃ s : CommitService,
    s.db.outputs.map (fun o => (o.attemptId, o.portName, o.artifactId)) =
      [(30, "out", 70), (31, "st", 70)] ∧
    s.Agreed samplePlatform noTemplates (twinContent false) := by
  obtain ⟨s, hs, houtputs, -⟩ :=
    @twins_commit (fun _ a r => a.compatible r = true) false (by decide)
  exact ⟨s, houtputs, artifacts_agree hs⟩

/-- The state of the second press is published as an artifact with the schema of the first. -/
theorem output_disagrees : ∃ s : CommitService,
    (commitService samplePlatform noTemplates (twinContent true)).Reachable s ∧
      ¬s.Agreed samplePlatform noTemplates (twinContent true) := by
  obtain ⟨s, hs, houtputs, hartifacts, hstaging, -⟩ :=
    @twins_commit (fun _ _ _ => True) true trivial
  refine ⟨s, hs.of_restrict, fun hagreed => ?_⟩
  have hstate : (31, "st", 70) ∈ s.db.outputs.map fun o => (o.attemptId, o.portName, o.artifactId) := by
    rw [houtputs]
    simp
  obtain ⟨o, ho, heq⟩ := List.mem_map.1 hstate
  obtain ⟨hattempt, -, -⟩ : o.attemptId = 31 ∧ o.portName = "st" ∧ o.artifactId = 70 := by
    simpa using heq
  obtain ⟨-, -, -, -, -, -, -, -, -, row, hrow, hrowAttempt, -, a, ha, -, -, hschema, -⟩ :=
    hagreed.outputs o ho
  have hrowSchema : (row.attemptId, row.schemaId) ∈ [(30, 500), (31, twinSchema true)] :=
    hstaging ▸ List.mem_map_of_mem hrow
  rw [hartifacts, List.mem_singleton] at ha
  rw [hrowAttempt, hattempt, ← hschema, ha] at hrowSchema
  simp [twinArtifact, twinSchema] at hrowSchema

end FactoryFloor
