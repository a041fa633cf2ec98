import FactoryFloor.Scans
import FactoryFloor.Execution

/-!
# Reconciling a damaged store

Files of a store are lost, truncated or overwritten. A batch is meant to go through such a store all
the same : it ends, it reports what it finds damaged, and it treats everything else as if the damaged
objects were not there (`Tolerates`).

It does so exactly when no damage is where it does not expect any (`Survivable`). The listing trusts
every staged object of its page. A damaged committed object is in the way of the promotion that would
replace it. No operation expects metadata that is none. And two kinds of damage are passed over :
that behind a promotion a dry run announces, and that of what is staged for a row whose artifact needs
no promotion.
-/

namespace FactoryFloor

open Relational

/-! ## Intact objects -/

/-- An object that is as it was written. -/
def ObjectDirectory.intact (P : Platform) (object : ObjectDirectory) : Bool :=
  object.data.any fun bytes => object = .written P bytes

theorem ObjectDirectory.intact_iff {P : Platform} {object : ObjectDirectory} :
    object.intact P ↔ IsWritten P (some object) := by
  constructor
  · intro h
    obtain ⟨bytes, -, heq⟩ := (Option.any_eq_true _ _).1 h
    exact ⟨bytes, congrArg some (by simpa using heq)⟩
  · rintro ⟨bytes, h⟩
    rw [Option.some.inj h]
    simp [intact, ObjectDirectory.written]

/-- The store without the damaged objects. -/
def BlobStore.withoutDamaged (P : Platform) (store : BlobStore) : BlobStore where
  staged := store.staged.filter (·.directory.intact P)
  committed d := (store.committed d).filter (·.intact P)
  stagedKeyed := store.stagedKeyed.sublist (List.filter_sublist.map _)

section Stores

variable {P : Platform} {store : BlobStore}

theorem BlobStore.withoutDamaged_committed (d : Digest) :
    (IsWritten P (store.committed d) ∧ (store.withoutDamaged P).committed d = store.committed d) ∨
      ¬IsWritten P (store.committed d) ∧ (store.withoutDamaged P).committed d = none := by
  cases hcommitted : store.committed d with
  | none => exact Or.inr ⟨not_isWritten_none, by simp [withoutDamaged, hcommitted]⟩
  | some object =>
    by_cases h : object.intact P
    · exact Or.inl ⟨ObjectDirectory.intact_iff.1 h, by simp [withoutDamaged, hcommitted, h]⟩
    · exact Or.inr ⟨fun hw => h (ObjectDirectory.intact_iff.2 hw), by
        simp [withoutDamaged, hcommitted, h]⟩

theorem BlobStore.withoutDamaged_staged? (P : Platform) (store : BlobStore) (id : Uuid) :
    (IsWritten P (store.staged? id) ∧ (store.withoutDamaged P).staged? id = store.staged? id) ∨
      ¬IsWritten P (store.staged? id) ∧ (store.withoutDamaged P).staged? id = none := by
  by_cases hw : IsWritten P (store.staged? id)
  · refine Or.inl ⟨hw, ?_⟩
    obtain ⟨bytes, hbytes⟩ := hw
    obtain ⟨e, he, hid, hdirectory⟩ := staged?_eq_some.1 hbytes
    rw [hbytes]
    refine staged?_eq_some.2 ⟨e, List.mem_filter.2 ⟨he, ?_⟩, hid, hdirectory⟩
    exact hdirectory ▸ ObjectDirectory.intact_iff.2 isWritten_written
  · refine Or.inr ⟨hw, staged?_eq_none.2 fun e he hid => hw ?_⟩
    obtain ⟨he, hintact⟩ := List.mem_filter.1 he
    obtain ⟨bytes, hbytes⟩ := ObjectDirectory.intact_iff.1 hintact
    exact ⟨bytes, staged?_eq_some.2 ⟨e, he, hid, Option.some.inj hbytes⟩⟩

end Stores

namespace ArtifactWorld

variable {P : Platform} {now : Time} {input : ReconciliationInput} {w : ArtifactWorld}
  {a : ArtifactRow} {s s' : Reconciling}

/-- The same tables, and the store without the damaged objects. -/
def withoutDamaged (P : Platform) (w : ArtifactWorld) : ArtifactWorld :=
  { w with store := w.store.withoutDamaged P }

/-! ## The two batches -/

theorem verdict_stagedMissing {row : StagingRow} (hcommitted : w.store.committed a.digest = none)
    (hrow : w.recoveryRow a.id = some row) (hstaged : w.store.staged? row.stagedRef = none) :
    ∃ d, d.id = a.id ∧ w.verdict P false a = .ok (.unresolved d) := by
  refine ⟨{ code := "missing_staged_bytes", id := a.id, message :=
    "staged recovery bytes are missing for staging row " ++ P.uuidText row.id }, rfl, ?_⟩
  have hexists : validObjectExists P none = .ok false := rfl
  have hpromote : w.store.promote P row.stagedRef a.digest a.sizeBytes =
      .error (.store .notFound "staged object was not found") := by
    unfold BlobStore.promote
    rw [hcommitted, hstaged]
  simp only [verdict, BlobStore.committedExists, hcommitted, hexists, hrow, hpromote]
  rfl

/-- What a batch concludes on a damaged store, it concludes on the store without the damaged objects :
the same, unless what is staged for the artifact is damaged. -/
theorem verdict_withoutDamaged {dryRun : Bool} {v : Verdict} (hv : w.verdict P dryRun a = .ok v) :
    (w.withoutDamaged P).verdict P dryRun a = .ok v ∨
      ∃ d d' row object, v = .unresolved d ∧ d.id = a.id ∧ w.recoveryRow a.id = some row ∧
        w.store.staged? row.stagedRef = some object ∧ ¬IsWritten P (some object) ∧
        (w.withoutDamaged P).verdict P dryRun a = .ok (.unresolved d') ∧ d'.id = a.id := by
  have hrow : (w.withoutDamaged P).recoveryRow a.id = w.recoveryRow a.id := rfl
  have hcommittedNone : ∀ {d}, ¬IsWritten P (w.store.committed d) →
      (w.withoutDamaged P).store.committed d = none := fun hnot =>
    ((BlobStore.withoutDamaged_committed _).resolve_left fun h => hnot h.1).2
  have hcommittedSame : ∀ {d}, IsWritten P (w.store.committed d) →
      (w.withoutDamaged P).store.committed d = w.store.committed d := fun hw =>
    ((BlobStore.withoutDamaged_committed _).resolve_right fun h => h.1 hw).2
  have hstagedNone : ∀ {id}, ¬IsWritten P (w.store.staged? id) →
      (w.withoutDamaged P).store.staged? id = none := fun hnot =>
    ((BlobStore.withoutDamaged_staged? _ _ _).resolve_left fun h => hnot h.1).2
  have hstagedSame : ∀ {id}, IsWritten P (w.store.staged? id) →
      (w.withoutDamaged P).store.staged? id = w.store.staged? id := fun hw =>
    ((BlobStore.withoutDamaged_staged? _ _ _).resolve_right fun h => h.1 hw).2
  have hconcludes := verdict_concludes P dryRun w a
  generalize hr : w.verdict P dryRun a = r at hconcludes
  rw [hr] at hv
  subst hv
  cases hconcludes with
  | consistent hcommitted =>
    refine Or.inl ?_
    rw [verdict, BlobStore.committedExists, hcommittedSame hcommitted,
      validObjectExists_of_written hcommitted]
  | missing hcommitted hreadable hnone =>
    refine Or.inl ?_
    rw [verdict, BlobStore.committedExists, hcommittedNone hcommitted, hrow, hnone]
    rfl
  | wouldPromote hcommitted hreadable hsome =>
    refine Or.inl ?_
    rw [verdict, BlobStore.committedExists, hcommittedNone hcommitted, hrow, hsome]
    rfl
  | @promoted row bytes hcommitted hsome hstaged hdigest hsize =>
    have hsame : SameFor w (w.withoutDamaged P) a := by
      refine ⟨?_, hrow, fun row' hrow' => ?_⟩
      · rw [hcommittedNone (hcommitted ▸ not_isWritten_none), hcommitted]
      · obtain rfl := Option.some.inj (hrow'.symm.trans hsome)
        exact hstagedSame (hstaged ▸ isWritten_written)
    exact Or.inl (hsame.verdict.trans hr)
  | @stagedMissing row d hcommitted hsome hstaged hd =>
    have hsame : SameFor w (w.withoutDamaged P) a := by
      refine ⟨?_, hrow, fun row' hrow' => ?_⟩
      · rw [hcommittedNone (hcommitted ▸ not_isWritten_none), hcommitted]
      · obtain rfl := Option.some.inj (hrow'.symm.trans hsome)
        rw [hstagedNone (hstaged ▸ not_isWritten_none), hstaged]
    exact Or.inl (hsame.verdict.trans hr)
  | @stagedDamaged row object d hcommitted hsome hstaged hreadable hdamaged hd =>
    by_cases hw : IsWritten P (some object)
    · have hsame : SameFor w (w.withoutDamaged P) a := by
        refine ⟨?_, hrow, fun row' hrow' => ?_⟩
        · rw [hcommittedNone (hcommitted ▸ not_isWritten_none), hcommitted]
        · obtain rfl := Option.some.inj (hrow'.symm.trans hsome)
          exact hstagedSame (hstaged ▸ hw)
      exact Or.inl (hsame.verdict.trans hr)
    · obtain ⟨d', hd', hverdict⟩ := @verdict_stagedMissing P (w.withoutDamaged P) _ _
        (hcommittedNone (hcommitted ▸ not_isWritten_none)) (hrow.trans hsome)
        (hstagedNone (hstaged ▸ hw))
      exact Or.inr ⟨d, d', row, object, rfl, hd, hsome, hstaged, hw, hverdict, hd'⟩

/-- Damage does not change which artifacts a batch promotes. -/
theorem promotions_withoutDamaged
    (hverdicts : ∀ a ∈ w.scannedArtifacts input, ∃ v, w.verdict P input.dryRun a = .ok v) :
    (w.withoutDamaged P).promotions P input = w.promotions P input := by
  refine List.filterMap_congr fun a ha => ?_
  obtain ⟨v, hv⟩ := hverdicts a ha
  unfold promotion?
  rcases verdict_withoutDamaged hv with hsame | ⟨d, d', _, _, rfl, -, -, -, -, hv', -⟩
  · rw [hsame, hv]
  · rw [hv', hv]

theorem scannedRows_withoutDamaged
    (hverdicts : ∀ a ∈ w.scannedArtifacts input, ∃ v, w.verdict P input.dryRun a = .ok v) :
    (w.withoutDamaged P).scannedRows P now input = w.scannedRows P now input := by
  unfold scannedRows
  rw [promotions_withoutDamaged hverdicts]
  rfl

/-- A row is abandoned when nothing intact is staged for it. -/
theorem abandons_withoutDamaged {r : StagingRow} {b : Bool} (h : abandons P w.store r = .ok b) :
    abandons P (w.withoutDamaged P).store r = .ok b := by
  unfold abandons BlobStore.stagedExists at h ⊢
  by_cases hlinked : r.artifactId ≠ none
  · rwa [if_pos hlinked] at h ⊢
  · rw [if_neg hlinked] at h ⊢
    change (validObjectExists P ((w.store.withoutDamaged P).staged? r.stagedRef)).map _ = _
    rcases BlobStore.withoutDamaged_staged? P w.store r.stagedRef with
      ⟨-, hsame⟩ | ⟨hnot, hnone⟩
    · rw [hsame, h]
    · rw [hnone]
      rcases validObjectExists_cases P (w.store.staged? r.stagedRef) with
        ⟨hw, -⟩ | ⟨-, -, hexists⟩ | ⟨_, e, -, -, -, hexists⟩
      · exact absurd hw hnot
      · rwa [hexists] at h
      · rw [hexists] at h
        cases h

/-- The page is the same, when nothing on it is damaged. -/
theorem listedIds_withoutDamaged (hc : w.Concludable P now input) :
    (w.withoutDamaged P).listedIds P input = w.listedIds P input := by
  have hremaining : (w.withoutDamaged P).remainingIds P input = (w.remainingIds P input).filter
      fun id => (w.store.staged? id).any (·.intact P) := by
    have hids : (w.withoutDamaged P).store.sortedIds = w.store.sortedIds.filter
        fun id => (w.store.staged? id).any (·.intact P) := by
      unfold BlobStore.sortedIds
      rw [← insertionSort_filter_le, List.filter_map]
      congr 2
      refine List.filter_congr fun e he => ?_
      have hsome : w.store.staged? e.id = some e.directory :=
        BlobStore.staged?_eq_some.2 ⟨e, he, rfl, rfl⟩
      simp [hsome]
    unfold remainingIds remains
    rw [hids, promotions_withoutDamaged hc.verdicts, List.filter_filter, List.filter_filter]
    simp only [Bool.and_comm]
  unfold listedIds
  rw [hremaining]
  refine Paging.page_filter (BlobStore.sortedIds_pairwise.filter _) fun id hid => ?_
  obtain ⟨bytes, hbytes⟩ := hc.page id hid
  rw [hbytes]
  exact ObjectDirectory.intact_iff.2 isWritten_written

theorem Concludable.withoutDamaged (hc : w.Concludable P now input) :
    (w.withoutDamaged P).Concludable P now input where
  verdicts a ha := by
    obtain ⟨v, hv⟩ := hc.verdicts a ha
    rcases verdict_withoutDamaged hv with hsame | ⟨_, d', _, _, -, -, -, -, -, hv', -⟩
    · exact ⟨v, hsame⟩
    · exact ⟨_, hv'⟩
  rows r hr := by
    rw [scannedRows_withoutDamaged hc.verdicts] at hr
    obtain ⟨b, hb⟩ := hc.rows r hr
    exact ⟨b, abandons_withoutDamaged hb⟩
  page id hid := by
    rw [listedIds_withoutDamaged hc] at hid
    have hw := hc.page id hid
    change IsWritten P ((w.store.withoutDamaged P).staged? id)
    rwa [((BlobStore.withoutDamaged_staged? _ _ _).resolve_right fun h => h.1 hw).2]

/-! ## Tolerating damage -/

/-- An artifact whose bytes only wait for their promotion. -/
def Restorable (P : Platform) (w : ArtifactWorld) (a : ArtifactRow) : Prop :=
  w.store.committed a.digest = none ∧ ∃ row bytes, w.recoveryRow a.id = some row ∧
    w.store.staged? row.stagedRef = some (.written P bytes) ∧ P.sha256 bytes = a.digest ∧
    bytes.length = a.sizeBytes

/-- What is staged for a row that is linked to an artifact is damaged, or it is missing while the
artifact is not committed. -/
def DamagedFor (P : Platform) (w : ArtifactWorld) (r : StagingRow) (artifactId : Uuid) : Prop :=
  (∃ object, w.store.staged? r.stagedRef = some object ∧ ¬IsWritten P (some object)) ∨
    w.store.staged? r.stagedRef = none ∧
      ¬∃ a ∈ w.artifacts, a.id = artifactId ∧ IsWritten P (w.store.committed a.digest)

/-- An artifact one of whose objects is there and damaged. -/
def RefersToDamaged (P : Platform) (w : ArtifactWorld) (a : ArtifactRow) : Prop :=
  (∃ object, w.store.committed a.digest = some object ∧ ¬IsWritten P (some object)) ∨
    ∃ row object, w.recoveryRow a.id = some row ∧ w.store.staged? row.stagedRef = some object ∧
      ¬IsWritten P (some object)

/-- Every damaged or missing object that a scanned artifact or staging row refers to is reported. -/
structure Reports (P : Platform) (now : Time) (input : ReconciliationInput) (w : ArtifactWorld)
    (r : ArtifactReconciliationReport) : Prop where
  artifacts : ∀ a ∈ w.scannedArtifacts input, ¬IsWritten P (w.store.committed a.digest) →
    ¬w.Restorable P a → ∃ d ∈ r.unresolved, d.id = a.id
  linkedRows : ∀ row ∈ w.scannedRows P now input, ∀ artifactId, row.artifactId = some artifactId →
    w.DamagedFor P row artifactId → ∃ d ∈ r.unresolved, d.id = artifactId
  unlinkedRows : r.wouldAbandonMetadataRows + r.abandonedMetadataRows =
    (w.scannedRows P now input).countP fun row => decide (row.artifactId = none) &&
      !(w.store.staged? row.stagedRef).any (·.intact P)

/-- Two batches treat everything alike but what is damaged in `w`. -/
structure TreatsAlike (P : Platform) (w : ArtifactWorld) (s s' : Reconciling) : Prop where
  artifacts : s.artifacts = s'.artifacts
  staging : s.staging = s'.staging
  staged : ∀ e : StagedEntry, e.directory.intact P → (e ∈ s.store.staged ↔ e ∈ s'.store.staged)
  committed : ∀ d, (∀ object, w.store.committed d = some object → object.intact P) →
    s.store.committed d = s'.store.committed d
  unresolved : ∀ a ∈ w.artifacts, ¬w.RefersToDamaged P a →
    s.report.unresolved.filter (·.id = a.id) = s'.report.unresolved.filter (·.id = a.id)

/-- A batch ends on a damaged store, reports the damage, and treats everything else as if the damaged
objects were absent. -/
def Tolerates (P : Platform) (now : Time) (input : ReconciliationInput) (w : ArtifactWorld) : Prop :=
  ∃ s, runBatch P now input w = .ok s ∧ w.Reports P now input s.report ∧
    ∃ s', runBatch P now input (w.withoutDamaged P) = .ok s' ∧ w.TreatsAlike P s s'

/-- The damage to an artifact's objects is of a kind that its scan expects : its metadata is metadata,
nothing damaged is in the way of a promotion, and a dry run announces no promotion that would fail. -/
def Manageable (P : Platform) (dryRun : Bool) (w : ArtifactWorld) (a : ArtifactRow) : Prop :=
  IsWritten P (w.store.committed a.digest) ∨
  (w.recoveryRow a.id = none ∧
    ∀ object, w.store.committed a.digest = some object → object.failure = none) ∨
  ∃ row, w.recoveryRow a.id = some row ∧ w.store.committed a.digest = none ∧
    if dryRun then w.Restorable P a
    else ∀ object, w.store.staged? row.stagedRef = some object → object.failure = none

/-- No damage is where a batch expects none. -/
structure Survivable (P : Platform) (now : Time) (input : ReconciliationInput) (w : ArtifactWorld) :
    Prop where
  artifacts : ∀ a ∈ w.scannedArtifacts input, w.Manageable P input.dryRun a
  unlinkedRows : ∀ row ∈ w.scannedRows P now input, row.artifactId = none →
    ∀ object, w.store.staged? row.stagedRef = some object → object.failure = none
  linkedRows : ∀ row ∈ w.scannedRows P now input, ∀ artifactId, row.artifactId = some artifactId →
    w.DamagedFor P row artifactId → input.dryRun = false ∧ ∃ a ∈ w.scannedArtifacts input,
      a.id = artifactId ∧ ¬IsWritten P (w.store.committed a.digest) ∧ ¬w.Restorable P a
  page : ∀ id ∈ w.listedIds P input, IsWritten P (w.store.staged? id)

/-! ## What is reported -/

theorem mem_diagnostics {d : ReconciliationDiagnostic} (h : d ∈ w.diagnostics P input a) :
    d.id = a.id ∧ (w.verdict P input.dryRun a = .ok .missing ∨
      w.verdict P input.dryRun a = .ok (.unresolved d)) := by
  have hconcludes := verdict_concludes P input.dryRun w a
  unfold diagnostics at h
  split at h
  · rename_i hv
    obtain rfl := List.mem_singleton.1 h
    exact ⟨rfl, Or.inl hv⟩
  · rename_i d' hv
    obtain rfl := List.mem_singleton.1 h
    rw [hv] at hconcludes
    refine ⟨?_, Or.inr hv⟩
    generalize hdry : input.dryRun = dryRun at hconcludes
    cases hconcludes with
    | stagedMissing _ _ _ hd => exact hd
    | stagedDamaged _ _ _ _ _ hd => exact hd
  · cases h

/-- The diagnostics of one artifact. -/
theorem filter_unresolved (hkeys : w.Keys) (ha : a ∈ w.artifacts) :
    ((w.scannedArtifacts input).flatMap (w.diagnostics P input)).filter (·.id = a.id) =
      if a ∈ w.scannedArtifacts input then w.diagnostics P input a else [] := by
  have hg : ∀ a' ∈ w.scannedArtifacts input, ∀ d ∈ w.diagnostics P input a', d.id = a'.id :=
    fun a' _ d hd => (mem_diagnostics hd).1
  split_ifs with hmem
  · exact (hkeys.scanned input.limit).1.filter_flatMap hg hmem
  · refine filter_flatMap_of_forall_ne hg fun a' ha' heq => hmem ?_
    rwa [hkeys.artifactIds.eq ha (mem_scanned ha').1 heq.symm]

theorem exists_unresolved {artifactId : Uuid} :
    (∃ d ∈ (w.scannedArtifacts input).flatMap (w.diagnostics P input), d.id = artifactId) ↔
      ∃ a ∈ w.scannedArtifacts input, a.id = artifactId ∧ w.diagnostics P input a ≠ [] := by
  constructor
  · rintro ⟨d, hd, rfl⟩
    obtain ⟨a, ha, hd⟩ := List.mem_flatMap.1 hd
    exact ⟨a, ha, (mem_diagnostics hd).1.symm, List.ne_nil_of_mem hd⟩
  · rintro ⟨a, ha, rfl, hne⟩
    obtain ⟨d, hd⟩ := List.exists_mem_of_ne_nil _ hne
    exact ⟨d, List.mem_flatMap.2 ⟨a, ha, hd⟩, (mem_diagnostics hd).1⟩

/-- A batch that can conclude on an artifact names it in its report exactly when its bytes are not
committed, and it does not promote the artifact or announce that it would. -/
theorem diagnostics_ne_nil (hv : ∃ v, w.verdict P input.dryRun a = .ok v) :
    w.diagnostics P input a ≠ [] ↔ ¬IsWritten P (w.store.committed a.digest) ∧
      (w.recoveryRow a.id = none ∨ input.dryRun = false ∧ ¬w.Restorable P a) := by
  obtain ⟨v, hv⟩ := hv
  have hconcludes := verdict_concludes P input.dryRun w a
  unfold diagnostics
  rw [hv] at hconcludes ⊢
  generalize input.dryRun = dryRun at hconcludes
  cases hconcludes with
  | consistent hcommitted => simp [hcommitted]
  | missing hcommitted _ hrow => simp [hcommitted, hrow]
  | wouldPromote hcommitted _ hrow => simp [hrow]
  | @promoted row bytes hcommitted hrow hstaged hdigest hsize =>
    have hrestorable : w.Restorable P a := ⟨hcommitted, row, bytes, hrow, hstaged, hdigest, hsize⟩
    simp [hrow, hrestorable]
  | stagedMissing hcommitted hrow hstaged hd =>
    have hnot : ¬w.Restorable P a := by
      rintro ⟨-, row', bytes, hrow', hstaged', -⟩
      obtain rfl := Option.some.inj (hrow'.symm.trans hrow)
      rw [hstaged] at hstaged'
      cases hstaged'
    simp [hcommitted, hnot, not_isWritten_none]
  | stagedDamaged hcommitted hrow hstaged _ hdamaged hd =>
    have hnot : ¬w.Restorable P a := by
      rintro ⟨-, row', bytes, hrow', hstaged', hdigest, hsize⟩
      obtain rfl := Option.some.inj (hrow'.symm.trans hrow)
      obtain rfl := Option.some.inj (hstaged.symm.trans hstaged')
      exact hdamaged bytes rfl hdigest hsize
    simp [hcommitted, hnot, not_isWritten_none]

/-- A row is abandoned when no commit has linked it and nothing intact is staged for it. -/
theorem abandons_eq_ok {store : BlobStore} {r : StagingRow} {b : Bool}
    (h : abandons P store r = .ok b) :
    b = (decide (r.artifactId = none) && !(store.staged? r.stagedRef).any (·.intact P)) := by
  unfold abandons BlobStore.stagedExists at h
  by_cases hlinked : r.artifactId ≠ none
  · rw [if_pos hlinked] at h
    simp [← Except.ok.inj h, hlinked]
  · rw [if_neg hlinked] at h
    rw [not_not] at hlinked
    have hany : (store.staged? r.stagedRef).any (·.intact P) ↔
        IsWritten P (store.staged? r.stagedRef) := by
      cases store.staged? r.stagedRef with
      | none => simp [not_isWritten_none]
      | some object => exact ObjectDirectory.intact_iff
    rcases validObjectExists_cases P (store.staged? r.stagedRef) with
      ⟨hw, hexists⟩ | ⟨hw, -, hexists⟩ | ⟨_, _, -, -, -, hexists⟩
    · rw [hexists] at h
      simp [← Except.ok.inj h, hany.2 hw]
    · rw [hexists] at h
      have hnone : (store.staged? r.stagedRef).any (·.intact P) = false :=
        Bool.eq_false_iff.2 fun hany' => hw (hany.1 hany')
      simp [← Except.ok.inj h, hlinked, hnone]
    · rw [hexists] at h
      cases h

/-- The rows a batch counts as abandoned are those it should. -/
theorem BatchEffect.unlinkedRows (h : w.BatchEffect P now input s) (hc : w.Concludable P now input) :
    s.report.wouldAbandonMetadataRows + s.report.abandonedMetadataRows =
      (w.scannedRows P now input).countP fun row => decide (row.artifactId = none) &&
        !(w.store.staged? row.stagedRef).any (·.intact P) := by
  have hlength : s.report.wouldAbandonMetadataRows + s.report.abandonedMetadataRows =
      (abandonedRows P w.store (w.scannedRows P now input)).length := by
    have hcounts := h.abandoned
    split_ifs at hcounts <;> obtain ⟨hwould, habandoned⟩ := Prod.mk.inj hcounts <;>
      rw [hwould, habandoned] <;> simp
  rw [hlength, abandonedRows, ← List.countP_eq_length_filter]
  refine List.countP_congr fun r hr => ?_
  obtain ⟨b, hb⟩ := hc.rows r hr
  simp only [hb, Except.toOption, Option.getD_some, ← abandons_eq_ok hb]

/-- The scan of a staging row that a batch does not promote finds the artifact it is linked to
unpromoted, too. -/
theorem recoveryRow_of_scanned {row : StagingRow} (hrow : row ∈ w.scannedRows P now input)
    {artifactId : Uuid} (hid : row.artifactId = some artifactId) : w.recoveryRow artifactId ≠ none :=
  fun hnone => recoveryRow_eq_none.1 hnone row (mem_scannedRows hrow).1 hid (mem_scannedRows hrow).2.1

/-- Nothing in the way, a batch can conclude. -/
theorem Survivable.concludable (h : w.Survivable P now input) : w.Concludable P now input where
  verdicts a ha := by
    have hmanageable := h.artifacts a ha
    have hconcludes := verdict_concludes P input.dryRun w a
    generalize w.verdict P input.dryRun a = r at hconcludes
    generalize input.dryRun = dryRun at hconcludes hmanageable
    cases hconcludes with
    | @unreadable _ object e hcommitted hfailure =>
      rcases hmanageable with ⟨bytes, hw⟩ | ⟨-, hreadable⟩ | ⟨row, -, hnone, -⟩
      · rw [hcommitted] at hw
        rw [Option.some.inj hw] at hfailure
        cases hfailure
      · rw [hreadable object hcommitted] at hfailure
        cases hfailure
      · rw [hnone] at hcommitted
        cases hcommitted
    | blocked hcommitted hdamaged hreadable hrow =>
      rcases hmanageable with hw | ⟨hnone, -⟩ | ⟨row, -, hnone, -⟩
      · exact absurd (hcommitted ▸ hw) hdamaged
      · rw [hnone] at hrow
        cases hrow
      · rw [hnone] at hcommitted
        cases hcommitted
    | stagedUnreadable hcommitted hrow hstaged hfailure =>
      rcases hmanageable with hw | ⟨hnone, -⟩ | ⟨row, hrow', -, hreadable⟩
      · exact absurd (hcommitted ▸ hw) not_isWritten_none
      · rw [hnone] at hrow
        cases hrow
      · obtain rfl := Option.some.inj (hrow'.symm.trans hrow)
        rw [if_neg (by simp)] at hreadable
        rw [hreadable _ hstaged] at hfailure
        cases hfailure
    | _ => exact ⟨_, rfl⟩
  rows r hr := by
    unfold abandons BlobStore.stagedExists
    by_cases hlinked : r.artifactId ≠ none
    · exact ⟨false, if_pos hlinked⟩
    · rw [if_neg hlinked]
      rw [not_not] at hlinked
      rcases validObjectExists_cases P (w.store.staged? r.stagedRef) with
        ⟨-, hexists⟩ | ⟨-, -, hexists⟩ | ⟨object, e, hobject, hfailure, -, -⟩
      · exact ⟨false, by rw [hexists]; rfl⟩
      · exact ⟨true, by rw [hexists]; rfl⟩
      · rw [h.unlinkedRows r hr hlinked object hobject] at hfailure
        cases hfailure
  page := h.page

/-- A batch that ends has reported the damage exactly when none is where it passes over it. -/
theorem BatchEffect.reports_iff (h : w.BatchEffect P now input s) (hc : w.Concludable P now input) :
    w.Reports P now input s.report ↔
      (∀ a ∈ w.scannedArtifacts input, ¬IsWritten P (w.store.committed a.digest) →
        ¬w.Restorable P a → w.recoveryRow a.id = none ∨ input.dryRun = false) ∧
      ∀ row ∈ w.scannedRows P now input, ∀ artifactId, row.artifactId = some artifactId →
        w.DamagedFor P row artifactId → input.dryRun = false ∧ ∃ a ∈ w.scannedArtifacts input,
          a.id = artifactId ∧ ¬IsWritten P (w.store.committed a.digest) ∧ ¬w.Restorable P a := by
  have hexists : ∀ artifactId, (∃ d ∈ s.report.unresolved, d.id = artifactId) ↔
      ∃ a ∈ w.scannedArtifacts input, a.id = artifactId ∧
        ¬IsWritten P (w.store.committed a.digest) ∧
          (w.recoveryRow a.id = none ∨ input.dryRun = false ∧ ¬w.Restorable P a) := by
    intro artifactId
    rw [h.unresolved, exists_unresolved]
    refine exists_congr fun a => and_congr_right fun ha => ?_
    rw [diagnostics_ne_nil (hc.verdicts a ha)]
  constructor
  · intro hreports
    refine ⟨fun a ha hcommitted hnot => ?_, fun row hrow artifactId hid hdamaged => ?_⟩
    · obtain ⟨a', ha', hid, -, hnone | ⟨hdry, -⟩⟩ :=
        (hexists a.id).1 (hreports.artifacts a ha hcommitted hnot)
      · exact Or.inl (hid ▸ hnone)
      · exact Or.inr hdry
    · obtain ⟨a, ha, rfl, hcommitted, hnone | ⟨hdry, hnot⟩⟩ :=
        (hexists artifactId).1 (hreports.linkedRows row hrow artifactId hid hdamaged)
      · exact absurd hnone (recoveryRow_of_scanned hrow hid)
      · exact ⟨hdry, a, ha, rfl, hcommitted, hnot⟩
  · rintro ⟨hartifacts, hlinked⟩
    refine ⟨fun a ha hcommitted hnot => ?_, fun row hrow artifactId hid hdamaged => ?_,
      h.unlinkedRows hc⟩
    · refine (hexists a.id).2 ⟨a, ha, rfl, hcommitted, ?_⟩
      exact (hartifacts a ha hcommitted hnot).imp id fun hdry => ⟨hdry, hnot⟩
    · obtain ⟨hdry, a, ha, haid, hcommitted, hnot⟩ := hlinked row hrow artifactId hid hdamaged
      exact (hexists artifactId).2 ⟨a, ha, haid, hcommitted, Or.inr ⟨hdry, hnot⟩⟩

/-! ## What is treated alike -/

/-- The batches with and without the damaged objects treat everything else alike. -/
theorem BatchEffect.treatsAlike (hkeys : w.Keys) (h : w.BatchEffect P now input s)
    (h' : (w.withoutDamaged P).BatchEffect P now input s') (hc : w.Concludable P now input) :
    w.TreatsAlike P s s' where
  artifacts := h.artifacts.trans h'.artifacts.symm
  staging := by
    have hrows : abandonedRows P (w.withoutDamaged P).store (w.scannedRows P now input) =
        abandonedRows P w.store (w.scannedRows P now input) :=
      List.filter_congr fun r hr => by
        obtain ⟨b, hb⟩ := hc.rows r hr
        rw [hb, abandons_withoutDamaged hb]
    rw [h.staging, h'.staging, promotions_withoutDamaged hc.verdicts,
      scannedRows_withoutDamaged hc.verdicts, hrows]
    rfl
  staged e he := by
    have hremoves : (w.withoutDamaged P).removes P now input e = w.removes P now input e := by
      unfold removes
      rw [listedIds_withoutDamaged hc]
      rfl
    have hremains : (w.withoutDamaged P).remains P input e.id = w.remains P input e.id := by
      unfold remains
      rw [promotions_withoutDamaged hc.verdicts]
    have hmem : e ∈ (w.withoutDamaged P).store.staged ↔ e ∈ w.store.staged := by
      change e ∈ w.store.staged.filter _ ↔ _
      rw [List.mem_filter]
      exact and_iff_left he
    rw [h.staged, h'.staged, List.mem_filter, List.mem_filter, hmem, hremoves, hremains]
  committed d hd := by
    have hsame : (w.withoutDamaged P).store.committed d = w.store.committed d := by
      change (w.store.committed d).filter _ = _
      cases hcommitted : w.store.committed d with
      | none => rfl
      | some object => simp [hd object hcommitted]
    rw [h.committed, h'.committed, promotions_withoutDamaged hc.verdicts, hsame]
  unresolved a ha hother := by
    have hkeys' : (w.withoutDamaged P).Keys := ⟨hkeys.1, hkeys.2, hkeys.3, hkeys.4⟩
    rw [h.unresolved, h'.unresolved, filter_unresolved hkeys ha, filter_unresolved hkeys' ha]
    have hscanned : (w.withoutDamaged P).scannedArtifacts input = w.scannedArtifacts input := rfl
    rw [hscanned]
    split_ifs with hmem
    · obtain ⟨v, hv⟩ := hc.verdicts a hmem
      rcases verdict_withoutDamaged hv with hsame | ⟨_, _, row, object, -, -, hrow, hstaged, hw, -⟩
      · unfold diagnostics
        rw [hsame, hv]
      · exact absurd (Or.inr ⟨row, object, hrow, hstaged, hw⟩) hother
    · rfl

/-- The damage a batch can conclude on and reports is of a kind it expects. -/
theorem Concludable.manageable (hc : w.Concludable P now input)
    (ha : a ∈ w.scannedArtifacts input)
    (hreported : ¬IsWritten P (w.store.committed a.digest) → ¬w.Restorable P a →
      w.recoveryRow a.id = none ∨ input.dryRun = false) : w.Manageable P input.dryRun a := by
  obtain ⟨v, hv⟩ := hc.verdicts a ha
  have hconcludes := verdict_concludes P input.dryRun w a
  rw [hv] at hconcludes
  generalize input.dryRun = dryRun at hconcludes hreported
  cases hconcludes with
  | consistent hcommitted => exact Or.inl hcommitted
  | missing hcommitted hreadable hrow => exact Or.inr (Or.inl ⟨hrow, hreadable⟩)
  | @wouldPromote row hcommitted hreadable hrow =>
    by_cases hrestorable : w.Restorable P a
    · exact Or.inr (Or.inr ⟨row, hrow, hrestorable.1, hrestorable⟩)
    · rcases hreported hcommitted hrestorable with hnone | hdry
      · rw [hnone] at hrow
        cases hrow
      · cases hdry
  | @promoted row bytes hcommitted hrow hstaged _ _ =>
    refine Or.inr (Or.inr ⟨row, hrow, hcommitted, fun object hobject => ?_⟩)
    rw [hstaged] at hobject
    rw [← Option.some.inj hobject]
    rfl
  | @stagedMissing row _ hcommitted hrow hstaged _ =>
    refine Or.inr (Or.inr ⟨row, hrow, hcommitted, fun object hobject => ?_⟩)
    rw [hstaged] at hobject
    cases hobject
  | @stagedDamaged row _ _ hcommitted hrow hstaged hreadable _ _ =>
    refine Or.inr (Or.inr ⟨row, hrow, hcommitted, fun object hobject => ?_⟩)
    rw [hstaged] at hobject
    rw [← Option.some.inj hobject]
    exact hreadable

/-- A batch on a damaged store ends, reports the damage and treats everything else as if the damaged
objects were absent, exactly when no damage is where it expects none. -/
theorem batch_tolerates (hkeys : w.Keys) (hlimit : 1 ≤ input.limit ∧ input.limit ≤ 1000)
    (hgrace : 0 ≤ input.orphanGraceSeconds) :
    w.Tolerates P now input ↔ w.Survivable P now input := by
  have hkeys' : (w.withoutDamaged P).Keys := ⟨hkeys.1, hkeys.2, hkeys.3, hkeys.4⟩
  constructor
  · rintro ⟨s, hrun, hreports, -⟩
    rcases @runBatch_cases P now input w hkeys hlimit hgrace with
      ⟨hc, s', hrun', heffect⟩ | ⟨-, e, hrun'⟩
    · obtain rfl := Except.ok.inj (hrun.symm.trans hrun')
      obtain ⟨hartifacts, hlinked⟩ := (heffect.reports_iff hc).1 hreports
      refine ⟨fun a ha => hc.manageable ha (hartifacts a ha), fun row hrow hnone object hobject => ?_,
        hlinked, hc.page⟩
      obtain ⟨b, hb⟩ := hc.rows row hrow
      cases hfailure : object.failure with
      | none => rfl
      | some e =>
        rw [abandons, if_neg (not_not.2 hnone), BlobStore.stagedExists, hobject,
          validObjectExists_of_failure hfailure] at hb
        cases hb
    · rw [hrun] at hrun'
      cases hrun'
  · intro h
    have hc := h.concludable
    rcases @runBatch_cases P now input w hkeys hlimit hgrace with
      ⟨-, s, hrun, heffect⟩ | ⟨hnot, -⟩
    · rcases @runBatch_cases P now input _ hkeys' hlimit hgrace with
        ⟨-, s', hrun', heffect'⟩ | ⟨hnot, -⟩
      · refine ⟨s, hrun, (heffect.reports_iff hc).2 ⟨fun a ha hcommitted hnot => ?_, h.linkedRows⟩, s',
          hrun', heffect.treatsAlike hkeys heffect' hc⟩
        rcases h.artifacts a ha with hw | ⟨hnone, -⟩ | ⟨row, -, -, hrest⟩
        · exact absurd hw hcommitted
        · exact Or.inl hnone
        · split_ifs at hrest with hdry
          · exact absurd hrest hnot
          · exact Or.inr (by simpa using hdry)
      · exact absurd hc.withoutDamaged hnot
    · exact absurd hc hnot

end ArtifactWorld

/-! ## Two damaged stores -/

/-- The batches of a recovery. -/
def recoveryBatch : ReconciliationInput where
  limit := 500
  cursor := none
  removeOrphans := false
  orphanGraceSeconds := 3600
  dryRun := false

/-- An object that has lost its second byte. -/
def truncated : ObjectDirectory :=
  { data := some [1], metadata := some (.value (.digest 2) (some 2)) }

/-- The first artifact is promoted, but its committed object has been truncated since. The bytes of
the second still wait for their promotion. -/
def damagedCommitted : ArtifactWorld where
  artifacts := [⟨⟨70, 2, 2, 500, .committed, "application/json"⟩, 10⟩,
    ⟨⟨71, 3, 3, 500, .committed, "application/json"⟩, 11⟩]
  staging := [⟨⟨80, 30, 50, 2, 2, 500, "application/json", .promoted, some 70⟩, some 50, 10,
      some 12, none⟩,
    ⟨⟨81, 31, 51, 3, 3, 500, "application/json", .staged, some 71⟩, some 51, 11,
      none, none⟩]
  inlinePayloads := []
  store := ⟨[⟨51, .written samplePlatform [1, 2, 3], 11⟩], fun d => if d = 2 then some truncated else none,
    by unfold Keyed; decide⟩

/-- What was staged for a row has been truncated. -/
def damagedStaged : ArtifactWorld where
  artifacts := []
  staging := [⟨⟨80, 30, 50, 2, 2, 500, "application/json", .staged, none⟩, some 50, 10,
    none, none⟩]
  inlinePayloads := []
  store := ⟨[⟨50, truncated, 10⟩], fun _ => none, by unfold Keyed; decide⟩

namespace ArtifactWorld

/-- A batch reports the first artifact and promotes the second. -/
theorem batch_tolerates_committed :
    damagedCommitted.Tolerates samplePlatform 10000000 recoveryBatch := by
  have hkeys : damagedCommitted.Keys := by
    constructor <;> unfold Keyed <;> decide
  have hscanned : damagedCommitted.scannedArtifacts recoveryBatch = damagedCommitted.artifacts := rfl
  have hrows : damagedCommitted.scannedRows samplePlatform 10000000 recoveryBatch = [] := rfl
  have hlisted : damagedCommitted.listedIds samplePlatform recoveryBatch = [] := rfl
  refine (batch_tolerates hkeys (by decide) (by decide)).2 ⟨fun a ha => ?_, ?_, ?_, ?_⟩
  · rw [hscanned] at ha
    rcases List.mem_pair.1 ha with rfl | rfl
    · refine Or.inr (Or.inl ⟨rfl, fun object hobject => ?_⟩)
      rw [← Option.some.inj hobject]
      rfl
    · refine Or.inr (Or.inr ⟨_, rfl, rfl, fun object hobject => ?_⟩)
      rw [← Option.some.inj hobject]
      rfl
  · simp [hrows]
  · simp [hrows]
  · simp [hlisted]

/-- The listing of what is staged throws, and the batch with it. -/
theorem batch_throws : damagedStaged.Keys ∧
    ¬damagedStaged.Tolerates samplePlatform 10000000 recoveryBatch := by
  refine ⟨by constructor <;> unfold Keyed <;> decide, ?_⟩
  rintro ⟨s, hrun, -⟩
  have hthrows : runBatch samplePlatform 10000000 recoveryBatch damagedStaged =
      .error (.blob (.store .notFound "object content does not match its metadata")) := rfl
  rw [hthrows] at hrun
  cases hrun

end ArtifactWorld

end FactoryFloor
