import FactoryFloor.DamagedStores
import FactoryFloor.Transition

/-!
# A batch that runs alone

A batch is no transaction : what it has done before it throws or stops stays. `batchRun` is a batch
from one scanned artifact, row or object to the next, also where a promotion is not recorded any
more, and `reconciliation_harmless` is about every state it goes through.

The three scans find rows by different columns : an artifact its rows by their link, a row its
object by its reference, and an object its rows by their locator. What a batch removes or abandons
is harmless for the column it looks at.
-/

namespace FactoryFloor

open Relational Transition

variable {P : Platform} {now : Time} {input : ReconciliationInput} {w : ArtifactWorld}

/-! ## Statement -/

/-- What a batch has still to do. -/
inductive BatchPhase where
  | artifacts (remaining : List ArtifactRow)
  | rows (remaining : List StagingRow)
  | objects (remaining : List BlobStore.StagedObject)
  | stopped

structure BatchState extends Reconciling where
  phase : BatchPhase

/-- One scanned artifact, row or object of a batch. -/
inductive BatchStep (P : Platform) (now : Time) (input : ReconciliationInput) :
    BatchState → Unit → BatchState → Prop
  | artifact {s : Reconciling} {s' : Reconciling} {a : ArtifactRow} {rest : List ArtifactRow}
      (hop : reconcileArtifact P input.dryRun now s a = .ok s') :
      BatchStep P now input ⟨s, .artifacts (a :: rest)⟩ () ⟨s', .artifacts rest⟩
  /-- The bytes of an artifact are promoted, and the batch stops before its row is. -/
  | interrupted {s : Reconciling} {a : ArtifactRow} {rest : List ArtifactRow} {row : StagingRow}
      {store : BlobStore} (hdry : input.dryRun = false)
      (hmissing : s.store.committedExists P a.digest = .ok false)
      (hrow : s.recoveryRow a.id = some row)
      (hpromote : s.store.promote P row.stagedRef a.digest a.sizeBytes = .ok store) :
      BatchStep P now input ⟨s, .artifacts (a :: rest)⟩ ()
        ⟨{ s with toArtifactWorld := { s.toArtifactWorld with store } }, .stopped⟩
  | listRows {s : Reconciling} :
      BatchStep P now input ⟨s, .artifacts []⟩ ()
        ⟨s, .rows (s.listReconciliationCandidates (input.cutoff now) input.limit)⟩
  | row {s : Reconciling} {s' : Reconciling} {row : StagingRow} {rest : List StagingRow}
      (hop : reconcileStagingRow P input.dryRun now s row = .ok s') :
      BatchStep P now input ⟨s, .rows (row :: rest)⟩ () ⟨s', .rows rest⟩
  | listObjects {s : Reconciling} {objects : List BlobStore.StagedObject} {nextCursor : Option Uuid}
      (hop : s.store.listStaged P input.limit input.cursor = .ok (objects, nextCursor)) :
      BatchStep P now input ⟨s, .rows []⟩ ()
        ⟨s, .objects objects⟩
  | object {s : Reconciling} {o : BlobStore.StagedObject} {rest : List BlobStore.StagedObject} :
      BatchStep P now input ⟨s, .objects (o :: rest)⟩ ()
        ⟨reconcileObject input (input.cutoff now) s o, .objects rest⟩

/-- A batch on some tables and a store. -/
def batchRun (P : Platform) (now : Time) (input : ReconciliationInput) (w : ArtifactWorld) :
    System BatchState Unit :=
  ⟨fun s => s = ⟨⟨w, .empty input.dryRun⟩,
    .artifacts (w.findCommittedArtifactsNeedingBlobCheck input.limit)⟩, BatchStep P now input⟩

/-- Staged bytes that have been promoted : they are the committed object of the artifact that a
staging row of theirs is linked to. -/
def ArtifactWorld.PromotedBytes (P : Platform) (w w' : ArtifactWorld) (e : StagedEntry) : Prop :=
  ∃ row ∈ w.staging, row.stagedRef = e.id ∧ ∃ a ∈ w.artifacts, row.artifactId = some a.id ∧
    ∃ bytes, e.directory = .written P bytes ∧ P.sha256 bytes = a.digest ∧
      w'.store.committed a.digest = some (.written P bytes)

/-- What a step of a batch may do to the tables and the store. -/
structure ArtifactWorld.Harmless (P : Platform) (w w' : ArtifactWorld) : Prop where
  /-- A staged object goes when it is promoted, or when no staging row has its locator. -/
  removed : ∀ e ∈ w.store.staged, e ∉ w'.store.staged →
    w.PromotedBytes P w' e ∨ ∀ row ∈ w.staging, row.locator ≠ some e.id
  /-- A row is abandoned when it is not linked, and its reference names no valid object. -/
  abandoned : ∀ row' ∈ w'.staging, row'.status = .abandoned → ∃ row ∈ w.staging, row.id = row'.id ∧
    (row.status = .abandoned ∨
      row.artifactId = none ∧ w.store.stagedExists P row.stagedRef = .ok false)
  committed : ∀ d object, w.store.committed d = some object → w'.store.committed d = some object

/-- The columns of a staging row that rows are found by. -/
def StagingRow.identity (row : StagingRow) : Uuid × Uuid × Option Uuid × Option Uuid :=
  (row.id, row.stagedRef, row.locator, row.artifactId)

/-! ## What a batch keeps -/

/-- What a step leaves of the rows. -/
structure ArtifactWorld.KeepsRows (w w' : ArtifactWorld) : Prop where
  artifacts : w'.artifacts = w.artifacts
  rows : w'.staging.map (·.identity) = w.staging.map (·.identity)

/-- What the phase has still to scan are rows of the tables. -/
def BatchPhase.Scans (w : ArtifactWorld) : BatchPhase → Prop
  | .artifacts remaining => ∀ a ∈ remaining, a ∈ w.artifacts
  | .rows remaining => ∀ row ∈ remaining, row.identity ∈ w.staging.map (·.identity)
  | .objects _ | .stopped => True

/-- What holds in every state of a batch. -/
structure BatchState.Sound (dryRun : Bool) (w : ArtifactWorld) (s : BatchState) : Prop where
  kept : w.KeepsRows s.toArtifactWorld
  dryRun : dryRun → s.toArtifactWorld = w
  scans : s.phase.Scans w

section

variable {w' w'' : ArtifactWorld}

theorem ArtifactWorld.KeepsRows.refl (w : ArtifactWorld) : w.KeepsRows w := ⟨rfl, rfl⟩

theorem ArtifactWorld.KeepsRows.trans (h : w.KeepsRows w') (h' : w'.KeepsRows w'') :
    w.KeepsRows w'' :=
  ⟨h'.artifacts.trans h.artifacts, h'.rows.trans h.rows⟩

theorem ArtifactWorld.Harmless.refl (w : ArtifactWorld) : w.Harmless P w :=
  ⟨fun _ he hgone => absurd he hgone, fun r hr hstatus => ⟨r, hr, rfl, Or.inl hstatus⟩,
    fun _ _ h => h⟩

theorem ArtifactWorld.KeepsRows.stagingIds (h : w.KeepsRows w') (hids : Keyed (·.id) w.staging) :
    Keyed (·.id) w'.staging := by
  have heq := congrArg (List.map Prod.fst) h.rows
  rw [List.map_map, List.map_map] at heq
  exact (heq ▸ hids : (w'.staging.map (Prod.fst ∘ StagingRow.identity)).Nodup)

/-- The store after a promotion, whose row may be marked. -/
theorem ArtifactWorld.Harmless.promoted {a : ArtifactRow} {row : StagingRow} {bytes : List UInt8}
    (ha : a ∈ w.artifacts) (hcommitted : w.store.committed a.digest = none)
    (hrow : w.recoveryRow a.id = some row)
    (hstaged : w.store.staged? row.stagedRef = some (.written P bytes))
    (hdigest : P.sha256 bytes = a.digest)
    (hstore : w'.store =
      (w.store.addCommitted a.digest (.written P bytes)).removeStaged row.stagedRef)
    (hrows : ∀ r' ∈ w'.staging, r'.status = .abandoned →
      ∃ r ∈ w.staging, r.id = r'.id ∧ r.status = .abandoned) : w.Harmless P w' := by
  obtain ⟨hmem, hlinked, -⟩ := mem_of_recoveryRow hrow
  refine ⟨fun e he hgone => ?_, fun r' hr' hstatus => ?_, fun d object hd => ?_⟩
  · -- the only object that goes is that of the row
    have hid : e.id = row.stagedRef := by
      by_contra hne
      exact hgone (hstore ▸ BlobStore.mem_removeStaged.2 ⟨he, hne⟩)
    obtain ⟨entry, hentry, hentryId, hdirectory⟩ := BlobStore.staged?_eq_some.1 hstaged
    obtain rfl := w.store.stagedKeyed.eq hentry he (hentryId.trans hid.symm)
    refine Or.inl ⟨row, hmem, hid.symm, a, ha, hlinked, bytes, hdirectory, hdigest, ?_⟩
    rw [hstore]
    simp [BlobStore.addCommitted]
  · obtain ⟨r, hr, hid, hs⟩ := hrows r' hr' hstatus
    exact ⟨r, hr, hid, Or.inl hs⟩
  · have hne : d ≠ a.digest := by
      rintro rfl
      rw [hcommitted] at hd
      cases hd
    rw [hstore]
    simpa [BlobStore.addCommitted, hne] using hd

/-- Marking the row that an artifact is promoted from keeps what rows are found by. -/
theorem ArtifactWorld.markStagingPromoted_identity (hids : Keyed (·.id) w.staging) {row : StagingRow}
    (hmem : row ∈ w.staging) {artifactId : Uuid} (hlinked : row.artifactId = some artifactId) :
    (w.markStagingPromoted row.id artifactId now).staging.map (·.identity) =
      w.staging.map (·.identity) := by
  change (updateWhere _ _ w.staging).map _ = _
  rw [updateWhere, List.map_map]
  refine List.map_congr_left fun r hr => ?_
  simp only [Function.comp_apply]
  split
  · rename_i hid
    obtain rfl := hids.eq hr hmem (of_decide_eq_true hid)
    simp [StagingRow.identity, hlinked]
  · rfl

theorem ArtifactWorld.markStagingPromoted_abandoned {id artifactId : Uuid} {r' : StagingRow}
    (hr' : r' ∈ (w.markStagingPromoted id artifactId now).staging) (hstatus : r'.status = .abandoned) :
    ∃ r ∈ w.staging, r.id = r'.id ∧ r.status = .abandoned := by
  obtain ⟨r, hr, rfl⟩ := mem_updateWhere.1 hr'
  refine ⟨r, hr, ?_⟩
  split at hstatus
  · simp at hstatus
  · rename_i hne
    rw [if_neg hne]
    exact ⟨rfl, hstatus⟩

theorem ArtifactWorld.mem_candidates {before : Time} {limit : ℕ} {row : StagingRow}
    (h : row ∈ w.listReconciliationCandidates before limit) : row ∈ w.staging := by
  have h := List.mem_of_mem_take h
  rw [List.mem_insertionSort, List.mem_filter] at h
  exact h.1

/-- Abandoning a row that is not linked, and for which nothing valid is staged. -/
theorem ArtifactWorld.Harmless.abandoning (hids : Keyed (·.id) w.staging) {row : StagingRow}
    (hmem : row.identity ∈ w.staging.map (·.identity)) (hnone : row.artifactId = none)
    (hmissing : w.store.stagedExists P row.stagedRef = .ok false) :
    w.Harmless P (w.markStagingAbandoned row.id now) := by
  obtain ⟨row₀, hrow₀, hsame⟩ := List.mem_map.1 hmem
  have hsame : row₀.id = row.id ∧ row₀.stagedRef = row.stagedRef ∧ row₀.locator = row.locator ∧
      row₀.artifactId = row.artifactId := by simpa [StagingRow.identity] using hsame
  refine ⟨fun e he hgone => absurd he hgone, fun r' hr' hstatus => ?_, fun _ _ h => h⟩
  obtain ⟨r, hr, rfl⟩ := mem_updateWhere.1 hr'
  refine ⟨r, hr, ?_⟩
  split at hstatus
  · rename_i hid
    rw [if_pos hid]
    obtain rfl := hids.eq hrow₀ hr (hsame.1.trans (of_decide_eq_true hid).symm)
    exact ⟨rfl, Or.inr ⟨hsame.2.2.2.trans hnone, hsame.2.1 ▸ hmissing⟩⟩
  · rename_i hne
    rw [if_neg hne]
    exact ⟨rfl, Or.inl hstatus⟩

theorem ArtifactWorld.markStagingAbandoned_identity {id : Uuid} :
    (w.markStagingAbandoned id now).staging.map (·.identity) = w.staging.map (·.identity) := by
  refine map_updateWhere (f := fun r : StagingRow =>
    { r with status := .abandoned, promotedAt := none, abandonedAt := some now })
    StagingRow.identity (fun r => ?_) w.staging
  rfl

end

/-! ## Steps -/

variable (now) in
/-- A promotion, with or without the mark of its row. -/
theorem BatchState.Sound.promoting {s : Reconciling} {a : ArtifactRow} {rest : List ArtifactRow}
    (h : BatchState.Sound false w ⟨s, .artifacts (a :: rest)⟩) (hids : Keyed (·.id) w.staging)
    {row : StagingRow} {bytes : List UInt8} (hcommitted : s.store.committed a.digest = none)
    (hrow : s.recoveryRow a.id = some row)
    (hstaged : s.store.staged? row.stagedRef = some (.written P bytes))
    (hdigest : P.sha256 bytes = a.digest) :
    (s.Harmless P { s.toArtifactWorld with store :=
        (s.store.addCommitted a.digest (.written P bytes)).removeStaged row.stagedRef } ∧
      w.KeepsRows { s.toArtifactWorld with store :=
        (s.store.addCommitted a.digest (.written P bytes)).removeStaged row.stagedRef }) ∧
      s.Harmless P (s.toArtifactWorld.promoting P now a row bytes) ∧
        w.KeepsRows (s.toArtifactWorld.promoting P now a row bytes) := by
  have ha : a ∈ s.artifacts := h.kept.artifacts ▸ h.scans a List.mem_cons_self
  obtain ⟨hmem, hlinked, -⟩ := ArtifactWorld.mem_of_recoveryRow hrow
  refine ⟨⟨.promoted ha hcommitted hrow hstaged hdigest rfl fun r hr hs => ⟨r, hr, rfl, hs⟩,
    h.kept.trans ⟨rfl, rfl⟩⟩, .promoted ha hcommitted hrow hstaged hdigest rfl fun r hr hs =>
      ArtifactWorld.markStagingPromoted_abandoned hr hs, h.kept.trans ⟨rfl, ?_⟩⟩
  exact ArtifactWorld.markStagingPromoted_identity (h.kept.stagingIds hids) hmem hlinked

/-- The scan of an artifact. -/
theorem BatchState.Sound.artifact {s s' : Reconciling} {a : ArtifactRow} {rest : List ArtifactRow}
    (h : BatchState.Sound input.dryRun w ⟨s, .artifacts (a :: rest)⟩)
    (hids : Keyed (·.id) w.staging) (hop : reconcileArtifact P input.dryRun now s a = .ok s') :
    s.Harmless P s'.toArtifactWorld ∧ BatchState.Sound input.dryRun w ⟨s', .artifacts rest⟩ := by
  have hrest : ∀ b ∈ rest, b ∈ w.artifacts := fun b hb => h.scans b (List.mem_cons_of_mem a hb)
  rw [reconcileArtifact_eq] at hop
  have hconcludes := verdict_concludes P input.dryRun s.toArtifactWorld a
  cases hverdict : s.toArtifactWorld.verdict P input.dryRun a with
  | error e =>
    rw [hverdict] at hop
    cases hop
  | ok v =>
    rw [hverdict] at hop hconcludes
    obtain rfl := Except.ok.inj hop
    cases hdry : input.dryRun with
    | true =>
      rw [hdry] at hconcludes h
      cases hconcludes <;> exact ⟨.refl _, h.kept, h.dryRun, hrest⟩
    | false =>
      rw [hdry] at hconcludes h
      cases hconcludes with
      | promoted hcommitted hrow hstaged hdigest =>
        obtain ⟨-, hharmless, hkept⟩ :=
          h.promoting now hids hcommitted hrow hstaged hdigest
        exact ⟨hharmless, hkept, by simp, hrest⟩
      | _ => exact ⟨.refl _, h.kept, h.dryRun, hrest⟩

/-- The scan of a staging row. -/
theorem BatchState.Sound.row {s s' : Reconciling} {row : StagingRow} {rest : List StagingRow}
    (h : BatchState.Sound input.dryRun w ⟨s, .rows (row :: rest)⟩)
    (hids : Keyed (·.id) w.staging) (hop : reconcileStagingRow P input.dryRun now s row = .ok s') :
    s.Harmless P s'.toArtifactWorld ∧ BatchState.Sound input.dryRun w ⟨s', .rows rest⟩ := by
  have hrest : ∀ r ∈ rest, r.identity ∈ w.staging.map (·.identity) :=
    fun r hr => h.scans r (List.mem_cons_of_mem row hr)
  have hmem : row.identity ∈ s.staging.map (·.identity) :=
    h.kept.rows ▸ h.scans row List.mem_cons_self
  rw [ArtifactWorld.reconcileStagingRow_eq] at hop
  cases habandons : ArtifactWorld.abandons P s.store row with
  | error e =>
    rw [habandons] at hop
    cases hop
  | ok b =>
    rw [habandons] at hop
    cases b with
    | false =>
      obtain rfl := Except.ok.inj hop
      exact ⟨.refl _, h.kept, h.dryRun, hrest⟩
    | true =>
      simp only at hop
      split at hop
      · obtain rfl := Except.ok.inj hop
        exact ⟨.refl _, h.kept, h.dryRun, hrest⟩
      · rename_i hdry
        obtain rfl := Except.ok.inj hop
        obtain ⟨hnone, hmissing⟩ : row.artifactId = none ∧
            s.store.stagedExists P row.stagedRef = .ok false := by
          unfold ArtifactWorld.abandons at habandons
          split at habandons
          · cases habandons
          · rename_i hnone
            refine ⟨not_not.1 hnone, ?_⟩
            cases hexists : s.store.stagedExists P row.stagedRef with
            | error e => simp [hexists, Except.map] at habandons
            | ok b =>
              have hb : b = false := by simpa [hexists, Except.map] using habandons
              rw [hb]
        exact ⟨.abandoning (h.kept.stagingIds hids) hmem hnone hmissing,
          h.kept.trans ⟨rfl, ArtifactWorld.markStagingAbandoned_identity⟩,
          fun hd => absurd hd hdry, hrest⟩

/-- The scan of a staged object. -/
theorem BatchState.Sound.object {s : Reconciling} {o : BlobStore.StagedObject}
    {rest : List BlobStore.StagedObject}
    (h : BatchState.Sound input.dryRun w ⟨s, .objects (o :: rest)⟩) :
    s.Harmless P (reconcileObject input (input.cutoff now) s o).toArtifactWorld ∧
      BatchState.Sound input.dryRun w
        ⟨reconcileObject input (input.cutoff now) s o, .objects rest⟩ := by
  unfold reconcileObject
  split_ifs with hkept hremove hdry
  · exact ⟨.refl _, h.kept, h.dryRun, trivial⟩
  · exact ⟨.refl _, h.kept, h.dryRun, trivial⟩
  · exact ⟨.refl _, h.kept, h.dryRun, trivial⟩
  · push Not at hkept
    refine ⟨⟨fun e he hgone => Or.inr fun row hrow hlocator => ?_, fun r hr hstatus =>
      ⟨r, hr, rfl, Or.inl hstatus⟩, fun _ _ hd => hd⟩, h.kept.trans ⟨rfl, rfl⟩,
      fun hd => absurd hd hdry, trivial⟩
    have hid : e.id = o.stagingId := by
      by_contra hne
      exact hgone (BlobStore.mem_removeStaged.2 ⟨he, hne⟩)
    have hlocated : row ∈ s.readStagingRowsByLocator o.stagingId :=
      List.mem_filter.2 ⟨hrow, by simp [hlocator, hid]⟩
    rw [hkept.1] at hlocated
    cases hlocated

theorem BatchState.Sound.step {s s' : BatchState} {l : Unit} (h : s.Sound input.dryRun w)
    (hids : Keyed (·.id) w.staging) (hstep : BatchStep P now input s l s') :
    s.Harmless P s'.toArtifactWorld ∧ s'.Sound input.dryRun w := by
  cases hstep with
  | artifact hop => exact h.artifact hids hop
  | @interrupted s a rest row store hdry hmissing hrow hpromote =>
    obtain ⟨bytes, hdigest, -, ⟨hcommitted, -⟩ | ⟨hcommitted, hstaged, rfl⟩⟩ :=
      BlobStore.promote_eq_ok.1 hpromote
    · rw [BlobStore.committedExists,
        validObjectExists_of_written (hcommitted ▸ isWritten_written)] at hmissing
      cases hmissing
    · rw [hdry] at h ⊢
      obtain ⟨⟨hharmless, hkept⟩, -⟩ := h.promoting now hids hcommitted hrow hstaged hdigest
      exact ⟨hharmless, hkept, by simp, trivial⟩
  | @listRows s =>
    refine ⟨.refl _, h.kept, h.dryRun, fun row hrow => ?_⟩
    exact h.kept.rows ▸ List.mem_map_of_mem (ArtifactWorld.mem_candidates hrow)
  | row hop => exact h.row hids hop
  | listObjects hop => exact ⟨.refl _, h.kept, h.dryRun, trivial⟩
  | object => exact h.object

theorem BatchState.Sound.reachable {s : BatchState} (hids : Keyed (·.id) w.staging)
    (h : (batchRun P now input w).Reachable s) : s.Sound input.dryRun w := by
  refine h.invariant (I := BatchState.Sound input.dryRun w) ?_ fun s l t hs hstep =>
    (hs.step hids hstep).2
  rintro s rfl
  exact ⟨.refl w, fun _ => rfl, fun a ha => (ArtifactWorld.mem_scanned ha).1⟩

/-- A batch that runs alone does no harm, in any of its states. -/
theorem reconciliation_harmless (hids : Keyed (·.id) w.staging) {s : BatchState}
    (h : (batchRun P now input w).Reachable s) :
    s.staging.map (·.identity) = w.staging.map (·.identity) ∧
      (input.dryRun → s.toArtifactWorld = w) ∧
      ∀ l s', (batchRun P now input w).step s l s' → s.Harmless P s'.toArtifactWorld :=
  have hs := BatchState.Sound.reachable hids h
  ⟨hs.kept.rows, hs.dryRun, fun _ _ hstep => (hs.step hids hstep).1⟩

/-! ## Whole batches -/

section Runs

variable {s s' : Reconciling}

theorem batchRun_artifacts {as : List ArtifactRow}
    (h : (batchRun P now input w).Reachable ⟨s, .artifacts as⟩)
    (hop : as.foldlM (reconcileArtifact P input.dryRun now) s = .ok s') :
    (batchRun P now input w).Reachable ⟨s', .artifacts []⟩ := by
  induction as generalizing s with
  | nil =>
    obtain rfl := Except.ok.inj hop
    exact h
  | cons a as ih =>
    rw [List.foldlM_cons] at hop
    obtain ⟨t, ha, hrest⟩ := Except.bind_eq_ok.1 hop
    exact ih (h.next (l := ()) (.artifact ha)) hrest

theorem batchRun_rows {rows : List StagingRow}
    (h : (batchRun P now input w).Reachable ⟨s, .rows rows⟩)
    (hop : rows.foldlM (reconcileStagingRow P input.dryRun now) s = .ok s') :
    (batchRun P now input w).Reachable ⟨s', .rows []⟩ := by
  induction rows generalizing s with
  | nil =>
    obtain rfl := Except.ok.inj hop
    exact h
  | cons row rows ih =>
    rw [List.foldlM_cons] at hop
    obtain ⟨t, ha, hrest⟩ := Except.bind_eq_ok.1 hop
    exact ih (h.next (l := ()) (.row ha)) hrest

theorem batchRun_objects {objects : List BlobStore.StagedObject}
    (h : (batchRun P now input w).Reachable ⟨s, .objects objects⟩) :
    (batchRun P now input w).Reachable
      ⟨objects.foldl (reconcileObject input (input.cutoff now)) s, .objects []⟩ := by
  induction objects generalizing s with
  | nil => exact h
  | cons o objects ih => exact ih (h.next (l := ()) .object)

/-- What a batch returns is reached one scanned thing after the other. -/
theorem runBatch_reached (h : runBatch P now input w = .ok s') :
    ∃ s, (batchRun P now input w).Reachable ⟨s, .objects []⟩ ∧
      s.toArtifactWorld = s'.toArtifactWorld := by
  unfold runBatch at h
  by_cases hlimit : input.limit < 1
  · rw [if_pos hlimit] at h
    cases h
  by_cases hgrace : input.orphanGraceSeconds < 0
  · rw [if_neg hlimit, if_pos hgrace] at h
    cases h
  rw [if_neg hlimit, if_neg hgrace] at h
  obtain ⟨s₁, hartifacts, h⟩ := Except.bind_eq_ok.1 h
  obtain ⟨s₂, hrows, h⟩ := Except.bind_eq_ok.1 h
  obtain ⟨⟨objects, nextCursor⟩, hlist, h⟩ := Except.bind_eq_ok.1 h
  obtain rfl := Except.ok.inj h
  have h₁ := batchRun_artifacts (.start rfl) hartifacts
  have h₂ := batchRun_rows (h₁.next (l := ()) .listRows) hrows
  have hlist : s₂.store.listStaged P input.limit input.cursor = .ok (objects, nextCursor) := by
    unfold blob Except.mapError at hlist
    split at hlist
    · cases hlist
    · rename_i hok
      rw [hok, Except.ok.inj hlist]
  exact ⟨_, batchRun_objects (h₂.next (l := ()) (.listObjects hlist)), rfl⟩

end Runs

/-- A batch of a recovery promotes the second of two artifacts, and does no harm. -/
theorem reconciliation_harmless_recovery : ∃ s : BatchState,
    (batchRun samplePlatform 10000000 recoveryBatch damagedCommitted).Reachable s ∧
      s.staging.map (·.status) = [.promoted, .promoted] ∧ s.store.staged = [] ∧
      s.staging.map (·.identity) = damagedCommitted.staging.map (·.identity) := by
  have hrun : ∃ s', runBatch samplePlatform 10000000 recoveryBatch damagedCommitted = .ok s' ∧
      s'.staging.map (·.status) = [.promoted, .promoted] ∧ s'.store.staged = [] := ⟨_, rfl, rfl, rfl⟩
  obtain ⟨s', hrun, hstatus, hstaged⟩ := hrun
  obtain ⟨s, hs, hsame⟩ := runBatch_reached hrun
  have hids : Keyed (·.id) damagedCommitted.staging := by
    unfold Keyed
    decide
  exact ⟨_, hs, hsame ▸ hstatus, hsame ▸ hstaged, (reconciliation_harmless hids hs).1⟩

/-! ## What is no harm to the batch -/

/-- A row whose object is staged, but is not found by its locator. -/
def mislocated : ArtifactWorld where
  artifacts := []
  staging := [⟨⟨80, 30, 50, 1, 1, 500, "application/json", .staged, none⟩, none, 10, none, none⟩]
  inlinePayloads := []
  store := ⟨[⟨50, .written samplePlatform [1], 10⟩], fun _ => none, by unfold Keyed; decide⟩

/-- Staged bytes go with their promotion, and also when a row only has them as its reference. What is
staged and damaged does not keep its row from being abandoned. -/
theorem batches_not_harmless :
    (∃ s' : BatchState,
      (batchRun samplePlatform 10000000 recoveryBatch damagedCommitted).Reachable s' ∧
        ∃ row ∈ damagedCommitted.staging, row.locator = some row.stagedRef ∧
          (damagedCommitted.store.staged? row.stagedRef).isSome ∧
          s'.store.staged? row.stagedRef = none) ∧
    (∃ s' : BatchState,
      (batchRun samplePlatform 10000000 recoveryBatch damagedStaged).Reachable s' ∧
        ∃ row ∈ s'.staging, row.status = .abandoned ∧
          s'.store.staged? row.stagedRef = some truncated ∧
          damagedStaged.store.staged? row.stagedRef = some truncated) ∧
    ∃ s' : BatchState, (batchRun samplePlatform 10000000
        { recoveryBatch with removeOrphans := true } mislocated).Reachable s' ∧
      ∃ row ∈ s'.staging, row.status = .staged ∧
        (mislocated.store.staged? row.stagedRef).isSome ∧ s'.store.staged? row.stagedRef = none := by
  refine ⟨?_, ?_, ?_⟩
  · have hrun : ∃ s', runBatch samplePlatform 10000000 recoveryBatch damagedCommitted = .ok s' ∧
        s'.store.staged = [] := ⟨_, rfl, rfl⟩
    obtain ⟨s', hrun, hstaged⟩ := hrun
    obtain ⟨s, hs, hsame⟩ := runBatch_reached hrun
    refine ⟨_, hs, _, List.mem_cons_of_mem _ List.mem_cons_self, rfl, rfl, ?_⟩
    refine BlobStore.staged?_eq_none.2 fun e he => ?_
    rw [hsame, hstaged] at he
    cases he
  · have hstart : (batchRun samplePlatform 10000000 recoveryBatch damagedStaged).Reachable
        ⟨⟨damagedStaged, .empty false⟩, .artifacts []⟩ := .start rfl
    refine ⟨_, (hstart.next (l := ()) .listRows).next (l := ()) (BatchStep.row rfl), _,
      List.mem_cons_self, rfl, rfl, rfl⟩
  · have hrun : ∃ s', runBatch samplePlatform 10000000 { recoveryBatch with removeOrphans := true }
        mislocated = .ok s' ∧ s'.staging = mislocated.staging ∧ s'.store.staged = [] :=
      ⟨_, rfl, rfl, rfl⟩
    obtain ⟨s', hrun, hrows, hstaged⟩ := hrun
    obtain ⟨s, hs, hsame⟩ := runBatch_reached hrun
    rw [← hsame] at hrows hstaged
    have hrow : ⟨⟨80, 30, 50, 1, 1, 500, "application/json", .staged, none⟩, none, 10, none, none⟩ ∈
        s.staging := by
      rw [hrows]
      exact List.mem_cons_self
    refine ⟨_, hs, _, hrow, rfl, rfl, ?_⟩
    refine BlobStore.staged?_eq_none.2 fun e he => ?_
    rw [hstaged] at he
    cases he

end FactoryFloor
