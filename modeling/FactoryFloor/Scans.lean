import FactoryFloor.Reconciliation
import Mathlib.Data.List.Induction

/-!
# What a batch does

The rows and the objects that the scan of one artifact reads belong to that artifact : the
committed object of its digest, the staging rows linked to it, and what is staged for them. So what
a batch concludes of an artifact (`verdict`) can be read off the tables and the store the batch
starts with, whatever it has done to other artifacts. The same is true of the staging rows no
commit has linked.

`runBatch_cases` puts the scans together : a batch throws on the first artifact, row or listed
object that it cannot conclude on, and otherwise does what its conclusions say.
-/

namespace FactoryFloor

open Relational

/-! ## Conclusions -/

/-- What the scan of an artifact concludes. -/
inductive Verdict where
  | consistent
  | missing
  | wouldPromote
  | unresolved (d : ReconciliationDiagnostic)
  | promoted (row : StagingRow) (bytes : List UInt8)
deriving DecidableEq, Repr

namespace ArtifactWorld

/-- What the scan of an artifact concludes from the tables and the store. -/
def verdict (P : Platform) (dryRun : Bool) (w : ArtifactWorld) (a : ArtifactRow) :
    Except BlobError Verdict :=
  match w.store.committedExists P a.digest, w.recoveryRow a.id with
  | .error e, _ => .error e
  | .ok true, _ => .ok .consistent
  | .ok false, none => .ok .missing
  | .ok false, some row =>
    if dryRun then .ok .wouldPromote
    else
      match w.store.promote P row.stagedRef a.digest a.sizeBytes with
      | .ok _ => .ok (.promoted row (((w.store.staged? row.stagedRef).bind (·.data)).getD []))
      | .error e =>
        match promotionDiagnostic P a.id row.id e with
        | some d => .ok (.unresolved d)
        | none => .error e

/-- The tables and the store after a promotion of an artifact that had no committed object. -/
def promoting (P : Platform) (now : Time) (a : ArtifactRow) (row : StagingRow) (bytes : List UInt8)
    (w : ArtifactWorld) : ArtifactWorld :=
  { w with store := (w.store.addCommitted a.digest (.written P bytes)).removeStaged row.stagedRef
    }.markStagingPromoted row.id a.id now

/-- What a conclusion does to the tables and the store. -/
def concluding (P : Platform) (now : Time) (a : ArtifactRow) (w : ArtifactWorld) :
    Verdict → ArtifactWorld
  | .promoted row bytes => w.promoting P now a row bytes
  | .consistent | .missing | .wouldPromote | .unresolved _ => w

end ArtifactWorld

/-- What a conclusion of a scanned artifact adds to the report. -/
def ArtifactReconciliationReport.concluding (r : ArtifactReconciliationReport) (a : ArtifactRow) :
    Verdict → ArtifactReconciliationReport
  | .consistent => { r with scanned := r.scanned + 1, alreadyConsistent := r.alreadyConsistent + 1 }
  | .missing =>
    { r with scanned := r.scanned + 1, unresolved := r.unresolved ++
      [{ code := "missing_committed_bytes", id := a.id,
         message := "committed artifact bytes are missing" }] }
  | .wouldPromote => { r with scanned := r.scanned + 1, wouldPromote := r.wouldPromote + 1 }
  | .unresolved d => { r with scanned := r.scanned + 1, unresolved := r.unresolved ++ [d] }
  | .promoted .. => { r with scanned := r.scanned + 1, promoted := r.promoted + 1 }

section Verdicts

variable {P : Platform} {dryRun : Bool} {now : Time} {w : ArtifactWorld} {a : ArtifactRow}

/-- The scan of an artifact does what it concludes. -/
theorem reconcileArtifact_eq (s : Reconciling) :
    reconcileArtifact P dryRun now s a =
      match s.toArtifactWorld.verdict P dryRun a with
      | .error e => .error (.blob e)
      | .ok v => .ok ⟨s.toArtifactWorld.concluding P now a v, s.report.concluding a v⟩ := by
  simp only [reconcileArtifact, ArtifactWorld.verdict, Reconciling.reporting, blob,
    BlobStore.committedExists]
  rcases validObjectExists_cases P (s.store.committed a.digest) with
    ⟨-, hexists⟩ | ⟨hw, hreadable, hexists⟩ | ⟨-, e, -, -, -, hexists⟩
  · rw [hexists]
    rfl
  · rw [hexists]
    cases hrecovery : s.toArtifactWorld.recoveryRow a.id with
    | none => simp [Except.mapError, bind, Except.bind]; rfl
    | some row =>
      cases dryRun with
      | true => simp [Except.mapError, bind, Except.bind]; rfl
      | false =>
        cases hpromote : s.store.promote P row.stagedRef a.digest a.sizeBytes with
        | error e =>
          cases hdiagnostic : promotionDiagnostic P a.id row.id e with
          | some d =>
            simp [Except.mapError, bind, Except.bind, hpromote, hdiagnostic]
            rfl
          | none => simp [Except.mapError, bind, Except.bind, hpromote, hdiagnostic]
        | ok store =>
          obtain ⟨bytes, -, -, ⟨hcommitted, -⟩ | ⟨-, hstaged, rfl⟩⟩ :=
            BlobStore.promote_eq_ok.1 hpromote
          · exact absurd ⟨bytes, hcommitted⟩ hw
          · have hdata : ((s.store.staged? row.stagedRef).bind (·.data)).getD [] = bytes := by
              rw [hstaged]
              rfl
            simp [Except.mapError, bind, Except.bind, hpromote, hdata]
            rfl
  · rw [hexists]
    rfl

/-- What an artifact's verdict rests on. -/
inductive Concludes (P : Platform) (w : ArtifactWorld) (a : ArtifactRow) :
    Bool → Except BlobError Verdict → Prop
  | consistent {dryRun : Bool} (hcommitted : IsWritten P (w.store.committed a.digest)) :
      Concludes P w a dryRun (.ok .consistent)
  | unreadable {dryRun : Bool} {object : ObjectDirectory} {e : BlobError}
      (hcommitted : w.store.committed a.digest = some object) (hfailure : object.failure = some e) :
      Concludes P w a dryRun (.error e)
  | missing {dryRun : Bool} (hcommitted : ¬IsWritten P (w.store.committed a.digest))
      (hreadable : ∀ object, w.store.committed a.digest = some object → object.failure = none)
      (hrow : w.recoveryRow a.id = none) : Concludes P w a dryRun (.ok .missing)
  | wouldPromote {row : StagingRow} (hcommitted : ¬IsWritten P (w.store.committed a.digest))
      (hreadable : ∀ object, w.store.committed a.digest = some object → object.failure = none)
      (hrow : w.recoveryRow a.id = some row) : Concludes P w a true (.ok .wouldPromote)
  /-- A damaged committed object is in the way of a promotion. -/
  | blocked {row : StagingRow} {object : ObjectDirectory} {message : String}
      (hcommitted : w.store.committed a.digest = some object)
      (hdamaged : ¬IsWritten P (some object)) (hreadable : object.failure = none)
      (hrow : w.recoveryRow a.id = some row) :
      Concludes P w a false (.error (.store .committedConflict message))
  | promoted {row : StagingRow} {bytes : List UInt8} (hcommitted : w.store.committed a.digest = none)
      (hrow : w.recoveryRow a.id = some row)
      (hstaged : w.store.staged? row.stagedRef = some (.written P bytes))
      (hdigest : P.sha256 bytes = a.digest) (hsize : bytes.length = a.sizeBytes) :
      Concludes P w a false (.ok (.promoted row bytes))
  | stagedMissing {row : StagingRow} {d : ReconciliationDiagnostic}
      (hcommitted : w.store.committed a.digest = none) (hrow : w.recoveryRow a.id = some row)
      (hstaged : w.store.staged? row.stagedRef = none) (hd : d.id = a.id) :
      Concludes P w a false (.ok (.unresolved d))
  | stagedDamaged {row : StagingRow} {object : ObjectDirectory} {d : ReconciliationDiagnostic}
      (hcommitted : w.store.committed a.digest = none) (hrow : w.recoveryRow a.id = some row)
      (hstaged : w.store.staged? row.stagedRef = some object) (hreadable : object.failure = none)
      (hdamaged : ∀ bytes, object = .written P bytes → P.sha256 bytes = a.digest →
        bytes.length ≠ a.sizeBytes) (hd : d.id = a.id) :
      Concludes P w a false (.ok (.unresolved d))
  | stagedUnreadable {row : StagingRow} {object : ObjectDirectory} {e : BlobError}
      (hcommitted : w.store.committed a.digest = none) (hrow : w.recoveryRow a.id = some row)
      (hstaged : w.store.staged? row.stagedRef = some object) (hfailure : object.failure = some e) :
      Concludes P w a false (.error e)

theorem promotionDiagnostic_foreign {e : BlobError} {artifactId rowId : Uuid} (h : e.foreign) :
    promotionDiagnostic P artifactId rowId e = none := by
  match e with
  | .thrown .. | .store .invalidDigest _ => rfl

theorem verdict_concludes (P : Platform) (dryRun : Bool) (w : ArtifactWorld) (a : ArtifactRow) :
    Concludes P w a dryRun (w.verdict P dryRun a) := by
  unfold ArtifactWorld.verdict
  rcases validObjectExists_cases P (w.store.committed a.digest) with
    ⟨hw, hexists⟩ | ⟨hw, hreadable, hexists⟩ | ⟨object, e, hobject, hfailure, -, hexists⟩
  · rw [BlobStore.committedExists, hexists]
    exact .consistent hw
  · rw [BlobStore.committedExists, hexists]
    cases hrow : w.recoveryRow a.id with
    | none => exact .missing hw hreadable hrow
    | some row =>
      cases dryRun with
      | true => exact .wouldPromote hw hreadable hrow
      | false =>
        simp only [Bool.false_eq_true, if_false]
        cases hcommitted : w.store.committed a.digest with
        | some object =>
          obtain ⟨message, hpromote⟩ := BlobStore.promote_of_damaged row.stagedRef
            a.sizeBytes hcommitted (hcommitted ▸ hw) (hreadable object hcommitted)
          rw [hpromote]
          exact .blocked hcommitted (hcommitted ▸ hw) (hreadable object hcommitted) hrow
        | none =>
          rcases BlobStore.promote_cases P row.stagedRef a.sizeBytes hcommitted with
            ⟨bytes, hdigest, hsize, hstaged⟩ | ⟨hstaged, hpromote⟩ |
            ⟨object, code, message, hstaged, hfailure, hcode, hpromote⟩ |
            ⟨object, e, hstaged, hfailure, hpromote⟩
          · rw [BlobStore.promote_eq_ok.2
              ⟨bytes, hdigest, hsize, Or.inr ⟨hcommitted, hstaged, rfl⟩⟩, hstaged]
            exact .promoted hcommitted hrow hstaged hdigest hsize
          · rw [hpromote]
            exact .stagedMissing hcommitted hrow hstaged rfl
          · rw [hpromote]
            have hdamaged : ∀ bytes, object = .written P bytes → P.sha256 bytes = a.digest →
                bytes.length ≠ a.sizeBytes := by
              rintro bytes rfl hdigest hsize
              rw [BlobStore.promote_eq_ok.2
                ⟨bytes, hdigest, hsize, Or.inr ⟨hcommitted, hstaged, rfl⟩⟩] at hpromote
              cases hpromote
            rcases hcode with rfl | rfl | rfl <;>
              exact .stagedDamaged hcommitted hrow hstaged hfailure hdamaged rfl
          · rw [hpromote]
            simp only [promotionDiagnostic_foreign (ObjectDirectory.failure_foreign hfailure)]
            exact .stagedUnreadable hcommitted hrow hstaged hfailure
  · rw [BlobStore.committedExists, hexists]
    exact .unreadable hobject hfailure

/-- Two worlds that look the same to the scan of an artifact. -/
structure SameFor (w w' : ArtifactWorld) (a : ArtifactRow) : Prop where
  committed : w'.store.committed a.digest = w.store.committed a.digest
  row : w'.recoveryRow a.id = w.recoveryRow a.id
  staged : ∀ row, w.recoveryRow a.id = some row →
    w'.store.staged? row.stagedRef = w.store.staged? row.stagedRef

theorem SameFor.refl : SameFor w w a := ⟨rfl, rfl, fun _ _ => rfl⟩

theorem SameFor.trans {w' w'' : ArtifactWorld} (h : SameFor w w' a) (h' : SameFor w' w'' a) :
    SameFor w w'' a :=
  ⟨h'.committed.trans h.committed, h'.row.trans h.row, fun row hrow =>
    (h'.staged row (h.row.trans hrow)).trans (h.staged row hrow)⟩

theorem SameFor.verdict {w' : ArtifactWorld} (h : SameFor w w' a) :
    w'.verdict P dryRun a = w.verdict P dryRun a := by
  unfold ArtifactWorld.verdict BlobStore.committedExists
  rw [h.committed, h.row]
  cases validObjectExists P (w.store.committed a.digest) with
  | error e => rfl
  | ok exists_ =>
    cases exists_ with
    | true => rfl
    | false =>
      cases hrow : w.recoveryRow a.id with
      | none => rfl
      | some row =>
        cases dryRun with
        | true => rfl
        | false =>
          have hpromote := BlobStore.promote_congr (P := P) a.sizeBytes h.committed (h.staged row hrow)
          simp only [Bool.false_eq_true, if_false, h.staged row hrow]
          cases hp : w.store.promote P row.stagedRef a.digest a.sizeBytes with
          | ok store =>
            rw [hp] at hpromote
            cases hp' : w'.store.promote P row.stagedRef a.digest a.sizeBytes with
            | ok store' => rfl
            | error e => rw [hp'] at hpromote; cases hpromote
          | error e =>
            rw [hp] at hpromote
            cases hp' : w'.store.promote P row.stagedRef a.digest a.sizeBytes with
            | ok store' => rw [hp'] at hpromote; cases hpromote
            | error e' =>
              rw [hp'] at hpromote
              obtain rfl : e' = e := Except.error.inj hpromote
              rfl

end Verdicts

/-! ## Sorted names -/

/-- Sorting commutes with a selection of numbers. -/
theorem insertionSort_filter_le (p : ℕ → Bool) (xs : List ℕ) :
    (xs.filter p).insertionSort (· ≤ ·) = (xs.insertionSort (· ≤ ·)).filter p := by
  have hperm : ((xs.filter p).insertionSort (· ≤ ·)).Perm
      ((xs.insertionSort (· ≤ ·)).filter p) :=
    (List.perm_insertionSort _ _).trans ((List.perm_insertionSort _ xs).symm.filter p)
  exact hperm.eq_of_pairwise' (List.pairwise_insertionSort _ _)
    ((List.pairwise_insertionSort _ _).filter p)

/-! ## Keys -/

/-- The keys of the tables. -/
structure ArtifactWorld.Keys (w : ArtifactWorld) : Prop where
  artifactIds : Keyed (·.id) w.artifacts
  digests : Keyed (·.digest) w.artifacts
  stagingIds : Keyed (·.id) w.staging
  stagedRefs : Keyed (·.stagedRef) w.staging

/-- A row as it is abandoned. -/
def StagingRow.markAbandoned (now : Time) (r : StagingRow) : StagingRow :=
  { r with status := .abandoned, promotedAt := none, abandonedAt := some now }

/-- A linked row as it is promoted. -/
def StagingRow.markPromoted (now : Time) (r : StagingRow) : StagingRow :=
  { r with status := .promoted, promotedAt := some now, abandonedAt := none }

namespace ArtifactWorld

variable {w : ArtifactWorld} {a : ArtifactRow} {row : StagingRow} {limit : ℕ}

theorem mem_readStagingRowsByArtifactId {artifactId : Uuid} :
    row ∈ w.readStagingRowsByArtifactId artifactId ↔
      row ∈ w.staging ∧ row.artifactId = some artifactId := by
  rw [readStagingRowsByArtifactId, List.mem_insertionSort, List.mem_filter]
  simp

/-- The row an artifact is recovered from is linked to it, and still staged. -/
theorem mem_of_recoveryRow {artifactId : Uuid} (h : w.recoveryRow artifactId = some row) :
    row ∈ w.staging ∧ row.artifactId = some artifactId ∧ row.status = .staged := by
  obtain ⟨hmem, hid⟩ := mem_readStagingRowsByArtifactId.1 (List.mem_of_find?_eq_some h)
  exact ⟨hmem, hid, by simpa using List.find?_some h⟩

theorem recoveryRow_eq_none {artifactId : Uuid} :
    w.recoveryRow artifactId = none ↔
      ∀ r ∈ w.staging, r.artifactId = some artifactId → r.status ≠ .staged := by
  rw [recoveryRow, List.find?_eq_none]
  constructor
  · intro h r hr hid
    simpa using h r (mem_readStagingRowsByArtifactId.2 ⟨hr, hid⟩)
  · intro h r hr
    obtain ⟨hmem, hid⟩ := mem_readStagingRowsByArtifactId.1 hr
    simpa using h r hmem hid

theorem mem_scanned : a ∈ w.findCommittedArtifactsNeedingBlobCheck limit →
    a ∈ w.artifacts ∧ a.state = .committed := by
  intro h
  have h := List.mem_of_mem_take h
  rw [List.mem_insertionSort, List.mem_filter] at h
  simpa using h

/-- The scanned artifacts are different ones. -/
theorem Keys.scanned (h : w.Keys) (limit : ℕ) :
    Keyed (·.id) (w.findCommittedArtifactsNeedingBlobCheck limit) ∧
      Keyed (·.digest) (w.findCommittedArtifactsNeedingBlobCheck limit) := by
  have hperm := List.perm_insertionSort (fun a b : ArtifactRow => a.createdAt ≤ b.createdAt)
    (w.artifacts.filter (·.state = .committed))
  have hnodup : ∀ {β : Type} (key : ArtifactRow → β), Keyed key w.artifacts →
      Keyed key (w.findCommittedArtifactsNeedingBlobCheck limit) := by
    intro β key hkey
    refine List.Nodup.sublist ((List.take_sublist _ _).map key) ((hperm.map key).nodup_iff.2 ?_)
    exact hkey.sublist (List.filter_sublist.map key)
  exact ⟨hnodup _ h.artifactIds, hnodup _ h.digests⟩

/-! ## The scan of the artifacts -/

/-- A promotion of a batch. -/
structure Promotion where
  artifact : ArtifactRow
  row : StagingRow
  bytes : List UInt8

/-- The promotion an artifact's verdict is. -/
def promotion? (P : Platform) (dryRun : Bool) (w : ArtifactWorld) (a : ArtifactRow) :
    Option Promotion :=
  match w.verdict P dryRun a with
  | .ok (.promoted row bytes) => some ⟨a, row, bytes⟩
  | _ => none

/-- A promotion copies valid bytes to where nothing is. -/
structure Promotion.Valid (P : Platform) (w : ArtifactWorld) (p : Promotion) : Prop where
  mem : p.row ∈ w.staging
  linked : p.row.artifactId = some p.artifact.id
  status : p.row.status = .staged
  absent : w.store.committed p.artifact.digest = none
  staged : w.store.staged? p.row.stagedRef = some (.written P p.bytes)
  digest : P.sha256 p.bytes = p.artifact.digest
  size : p.bytes.length = p.artifact.sizeBytes

theorem promotion?_eq_some {P : Platform} {dryRun : Bool} {p : Promotion}
    (h : w.promotion? P dryRun a = some p) :
    p.artifact = a ∧ w.verdict P dryRun a = .ok (.promoted p.row p.bytes) ∧ p.Valid P w := by
  unfold promotion? at h
  have hconcludes := verdict_concludes P dryRun w a
  split at h
  · rename_i row bytes hverdict
    obtain rfl := Option.some.inj h
    rw [hverdict] at hconcludes
    cases hconcludes with
    | promoted hcommitted hrow hstaged hdigest hsize =>
      obtain ⟨hmem, hid, hstatus⟩ := mem_of_recoveryRow hrow
      exact ⟨rfl, hverdict, hmem, hid, hstatus, hcommitted, hstaged, hdigest, hsize⟩
  · cases h

/-- What promotions that find nothing committed do, all together. -/
structure Promoted (P : Platform) (now : Time) (ps : List Promotion) (w w' : ArtifactWorld) :
    Prop where
  artifacts : w'.artifacts = w.artifacts
  inlinePayloads : w'.inlinePayloads = w.inlinePayloads
  staging : w'.staging =
    updateWhere (fun r => ps.any (·.row.id = r.id)) (StagingRow.markPromoted now) w.staging
  staged : w'.store.staged = w.store.staged.filter fun e => !ps.any (·.row.stagedRef = e.id)
  committed : ∀ d, w'.store.committed d =
    match ps.find? (·.artifact.digest = d) with
    | some p => some (.written P p.bytes)
    | none => w.store.committed d

theorem Promoted.nil {P : Platform} {now : Time} : Promoted P now [] w w :=
  ⟨rfl, rfl, by simp, by simp, fun _ => rfl⟩

/-- One more promotion, of another artifact. -/
theorem Promoted.next {P : Platform} {now : Time} {ps : List Promotion} {w' : ArtifactWorld}
    (h : Promoted P now ps w w') (hkeys : w.Keys) {p : Promotion} (hp : p.Valid P w)
    (hother : ∀ q ∈ ps, q.artifact.digest ≠ p.artifact.digest) :
    Promoted P now (ps ++ [p]) w (w'.promoting P now p.artifact p.row p.bytes) where
  artifacts := h.artifacts
  inlinePayloads := h.inlinePayloads
  staging := by
    change updateWhere _ _ w'.staging = _
    rw [h.staging, updateWhere, updateWhere, updateWhere, List.map_map]
    refine List.map_congr_left fun r hr => ?_
    have hid : (if ps.any (·.row.id = r.id) then StagingRow.markPromoted now r else r).id = r.id := by
      split_ifs <;> rfl
    simp only [Function.comp, hid, List.any_append, List.any_cons, List.any_nil, Bool.or_false,
      Bool.or_eq_true, decide_eq_true_eq]
    by_cases heq : r.id = p.row.id
    · obtain rfl := hkeys.stagingIds.eq hr hp.mem heq
      rw [if_pos rfl, if_pos (Or.inr rfl)]
      have hlinked : (if ps.any (·.row.id = p.row.id) then StagingRow.markPromoted now p.row
          else p.row) = { p.row with
            status := if ps.any (·.row.id = p.row.id) then .promoted else p.row.status
            promotedAt := if ps.any (·.row.id = p.row.id) then some now else p.row.promotedAt
            abandonedAt := if ps.any (·.row.id = p.row.id) then none else p.row.abandonedAt } := by
        split_ifs <;> rfl
      rw [hlinked]
      simp [StagingRow.markPromoted, hp.linked]
    · rw [if_neg heq]
      simp [Ne.symm heq]
  staged := by
    change List.filter _ w'.store.staged = _
    rw [h.staged, List.filter_filter]
    congr 1
    funext e
    simp [Bool.and_comm, eq_comm]
  committed d := by
    change (if d = p.artifact.digest then _ else w'.store.committed d) = _
    rw [List.find?_append]
    by_cases hd : d = p.artifact.digest
    · subst hd
      have hnone : ps.find? (·.artifact.digest = p.artifact.digest) = none :=
        List.find?_eq_none.2 fun q hq => by simpa using hother q hq
      simp [hnone]
    · have hne : [p].find? (·.artifact.digest = d) = none := by simp [Ne.symm hd]
      rw [if_neg hd, h.committed, hne]
      cases ps.find? (·.artifact.digest = d) <;> rfl

theorem Promoted.staged? {P : Platform} {now : Time} {ps : List Promotion} {w' : ArtifactWorld}
    (h : Promoted P now ps w w') {id : Uuid} (hid : ∀ p ∈ ps, p.row.stagedRef ≠ id) :
    w'.store.staged? id = w.store.staged? id := by
  unfold BlobStore.staged?
  rw [h.staged, List.find?_filter]
  congr 2
  funext e
  by_cases he : e.id = id
  · subst he
    simpa using hid
  · simp [he]

/-- The row another artifact is recovered from is as before. -/
theorem Promoted.recoveryRow {P : Platform} {now : Time} {ps : List Promotion} {w' : ArtifactWorld}
    (h : Promoted P now ps w w') (hkeys : w.Keys) (hps : ∀ p ∈ ps, p.Valid P w) {artifactId : Uuid}
    (hid : ∀ p ∈ ps, p.artifact.id ≠ artifactId) :
    w'.recoveryRow artifactId = w.recoveryRow artifactId := by
  unfold ArtifactWorld.recoveryRow readStagingRowsByArtifactId
  rw [h.staging, filter_updateWhere_of_not]
  intro r hr hany
  obtain ⟨p, hp, heq⟩ := List.any_eq_true.1 hany
  obtain rfl := hkeys.stagingIds.eq (hps p hp).mem hr (by simpa using heq)
  have hne : p.row.artifactId ≠ some artifactId := by
    rw [(hps p hp).linked]
    simpa using hid p hp
  exact ⟨by simpa using hne, by simp [StagingRow.markPromoted, hne]⟩

/-- Promotions of other artifacts change nothing the scan of an artifact reads. -/
theorem Promoted.sameFor {P : Platform} {now : Time} {ps : List Promotion} {w' : ArtifactWorld}
    (h : Promoted P now ps w w') (hkeys : w.Keys) (hps : ∀ p ∈ ps, p.Valid P w)
    (hid : ∀ p ∈ ps, p.artifact.id ≠ a.id) (hdigest : ∀ p ∈ ps, p.artifact.digest ≠ a.digest) :
    SameFor w w' a where
  committed := by
    rw [h.committed, List.find?_eq_none.2 fun p hp => by simpa using hdigest p hp]
  row := h.recoveryRow hkeys hps hid
  staged row hrow := h.staged? fun p hp heq => by
    obtain ⟨hmem, hlinked, -⟩ := mem_of_recoveryRow hrow
    obtain rfl := hkeys.stagedRefs.eq (hps p hp).mem hmem heq
    rw [(hps p hp).linked] at hlinked
    exact hid p hp (Option.some.inj hlinked)

/-- What the scan of artifacts has done : the promotions of the artifacts scanned so far, and a
report of every verdict. -/
structure ScanningArtifacts (P : Platform) (dryRun : Bool) (now : Time) (w : ArtifactWorld)
    (r : ArtifactReconciliationReport) (done : List ArtifactRow) (s : Reconciling) : Prop where
  promoted : Promoted P now (done.filterMap (w.promotion? P dryRun)) w s.toArtifactWorld
  report : s.report = done.foldl (fun r a =>
    (w.verdict P dryRun a).toOption.elim r (r.concluding a)) r

theorem mem_promotions {P : Platform} {dryRun : Bool} {as : List ArtifactRow} {p : Promotion}
    (h : p ∈ as.filterMap (w.promotion? P dryRun)) :
    p.artifact ∈ as ∧ w.verdict P dryRun p.artifact = .ok (.promoted p.row p.bytes) ∧ p.Valid P w := by
  obtain ⟨a, ha, hp⟩ := List.mem_filterMap.1 h
  obtain ⟨rfl, hverdict, hvalid⟩ := promotion?_eq_some hp
  exact ⟨ha, hverdict, hvalid⟩

/-- The scan of artifacts throws the error of the first verdict that is one. Otherwise it does what
the verdicts say, all of which can be told beforehand. -/
theorem scanArtifacts_cases (P : Platform) (dryRun : Bool) (now : Time) {as : List ArtifactRow}
    (r : ArtifactReconciliationReport) (hkeys : w.Keys) (hids : Keyed (·.id) as)
    (hdigests : Keyed (·.digest) as) :
    (∃ s, as.foldlM (reconcileArtifact P dryRun now) ⟨w, r⟩ = .ok s ∧
      ScanningArtifacts P dryRun now w r as s ∧ ∀ a ∈ as, ∃ v, w.verdict P dryRun a = .ok v) ∨
    ∃ a ∈ as, ∃ e, w.verdict P dryRun a = .error e ∧
      as.foldlM (reconcileArtifact P dryRun now) ⟨w, r⟩ = .error (.blob e) := by
  have houtcomes := Except.foldlM_outcomes (I := ScanningArtifacts P dryRun now w r)
    (f := reconcileArtifact P dryRun now)
    (o := fun a => blob (w.verdict P dryRun a)) (l := as) (b := ⟨w, r⟩) ?_
    ⟨Promoted.nil, rfl⟩
  · rcases houtcomes with ⟨s, hrun, hs, hall⟩ | ⟨a, ha, e, he, hrun⟩
    · refine Or.inl ⟨s, hrun, hs, fun a ha => ?_⟩
      obtain ⟨v, hv⟩ := hall a ha
      exact ⟨v, Except.mapError_eq_ok.1 hv⟩
    · cases hverdict : w.verdict P dryRun a with
      | ok v => simp [blob, hverdict, Except.mapError] at he
      | error e' =>
        refine Or.inr ⟨a, ha, e', hverdict, hrun.trans ?_⟩
        simp only [blob, hverdict, Except.mapError] at he
        rw [Except.error.inj he]
  · intro done a rest s has hs
    have hother : ∀ p ∈ done.filterMap (w.promotion? P dryRun),
        p.artifact.id ≠ a.id ∧ p.artifact.digest ≠ a.digest := by
      intro p hp
      have hmem := (mem_promotions hp).1
      rw [has, Keyed, List.map_append, List.map_cons, List.nodup_middle] at hids hdigests
      refine ⟨fun heq => ?_, fun heq => ?_⟩
      · exact (List.nodup_cons.1 hids).1 (List.mem_append_left _ (heq ▸ List.mem_map_of_mem hmem))
      · exact (List.nodup_cons.1 hdigests).1
          (List.mem_append_left _ (heq ▸ List.mem_map_of_mem hmem))
    have hvalid : ∀ p ∈ done.filterMap (w.promotion? P dryRun), p.Valid P w := fun p hp =>
      (mem_promotions hp).2.2
    have hsame := hs.promoted.sameFor hkeys hvalid (fun p hp => (hother p hp).1)
      fun p hp => (hother p hp).2
    rw [reconcileArtifact_eq, hsame.verdict]
    cases hverdict : w.verdict P dryRun a with
    | error e => exact Or.inl ⟨.blob e, by simp [blob, Except.mapError], rfl⟩
    | ok v =>
      refine Or.inr ⟨v, _, by simp [blob, Except.mapError], rfl, ?_, ?_⟩
      · rw [List.filterMap_append]
        cases v with
        | promoted row bytes =>
          have hp : w.promotion? P dryRun a = some ⟨a, row, bytes⟩ := by
            simp [promotion?, hverdict]
          simp only [List.filterMap_cons, hp, List.filterMap_nil]
          exact hs.promoted.next hkeys (promotion?_eq_some hp).2.2 fun q hq => (hother q hq).2
        | _ =>
          have hp : w.promotion? P dryRun a = none := by simp [promotion?, hverdict]
          simpa [hp, concluding] using hs.promoted
      · rw [List.foldl_append, ← hs.report]
        simp [hverdict, Except.toOption]

/-! ## The scan of the staging rows -/

/-- Whether the scan of a staging row abandons it : no commit has linked it, and nothing is staged
for it. -/
def abandons (P : Platform) (store : BlobStore) (row : StagingRow) : Except BlobError Bool :=
  if row.artifactId ≠ none then .ok false
  else (store.stagedExists P row.stagedRef).map (!·)

theorem reconcileStagingRow_eq {P : Platform} {dryRun : Bool} {now : Time} (s : Reconciling) :
    reconcileStagingRow P dryRun now s row =
      match abandons P s.store row with
      | .error e => .error (.blob e)
      | .ok false => .ok s
      | .ok true =>
        if dryRun then .ok (s.reporting fun r =>
          { r with wouldAbandonMetadataRows := r.wouldAbandonMetadataRows + 1 })
        else .ok (Reconciling.reporting
          { s with toArtifactWorld := s.toArtifactWorld.markStagingAbandoned row.id now } fun r =>
            { r with abandonedMetadataRows := r.abandonedMetadataRows + 1 }) := by
  unfold reconcileStagingRow abandons
  by_cases hlinked : row.artifactId ≠ none
  · rw [if_pos hlinked, if_pos hlinked]
    rfl
  · rw [if_neg hlinked, if_neg hlinked]
    cases s.store.stagedExists P row.stagedRef with
    | error e => rfl
    | ok exists_ =>
      cases exists_ with
      | true => rfl
      | false => cases dryRun <;> rfl

/-- What abandoning rows does, all together. -/
structure Abandoned (now : Time) (rows : List StagingRow) (w w' : ArtifactWorld) : Prop where
  artifacts : w'.artifacts = w.artifacts
  inlinePayloads : w'.inlinePayloads = w.inlinePayloads
  store : w'.store = w.store
  staging : w'.staging =
    updateWhere (fun r => rows.any (·.id = r.id)) (StagingRow.markAbandoned now) w.staging

theorem Abandoned.nil {now : Time} : Abandoned now [] w w :=
  ⟨rfl, rfl, rfl, by simp⟩

theorem Abandoned.next {now : Time} {rows : List StagingRow} {w' : ArtifactWorld}
    (h : Abandoned now rows w w') :
    Abandoned now (rows ++ [row]) w (w'.markStagingAbandoned row.id now) where
  artifacts := h.artifacts
  inlinePayloads := h.inlinePayloads
  store := h.store
  staging := by
    change updateWhere _ _ w'.staging = _
    rw [h.staging, updateWhere, updateWhere, updateWhere, List.map_map]
    refine List.map_congr_left fun r _ => ?_
    have hid : (if rows.any (·.id = r.id) then StagingRow.markAbandoned now r else r).id = r.id := by
      split_ifs <;> rfl
    simp only [Function.comp, hid, List.any_append, List.any_cons, List.any_nil, Bool.or_false,
      Bool.or_eq_true, decide_eq_true_eq]
    by_cases heq : r.id = row.id
    · rw [if_pos heq, if_pos (Or.inr heq.symm)]
      split_ifs <;> rfl
    · rw [if_neg heq]
      simp [Ne.symm heq]

/-- The rows a scan abandons. -/
def abandonedRows (P : Platform) (store : BlobStore) (rows : List StagingRow) : List StagingRow :=
  rows.filter fun r => (abandons P store r).toOption.getD false

/-- What the scan of staging rows has done. -/
structure ScanningRows (P : Platform) (dryRun : Bool) (now : Time) (s₀ : Reconciling)
    (done : List StagingRow) (s : Reconciling) : Prop where
  abandoned : Abandoned now (if dryRun then [] else abandonedRows P s₀.store done)
    s₀.toArtifactWorld s.toArtifactWorld
  report : s.report =
    if dryRun then { s₀.report with wouldAbandonMetadataRows :=
      s₀.report.wouldAbandonMetadataRows + (abandonedRows P s₀.store done).length }
    else { s₀.report with abandonedMetadataRows :=
      s₀.report.abandonedMetadataRows + (abandonedRows P s₀.store done).length }

theorem scanRows_cases (P : Platform) (dryRun : Bool) (now : Time) (rows : List StagingRow)
    (s₀ : Reconciling) :
    (∃ s, rows.foldlM (reconcileStagingRow P dryRun now) s₀ = .ok s ∧
      ScanningRows P dryRun now s₀ rows s ∧ ∀ r ∈ rows, ∃ b, abandons P s₀.store r = .ok b) ∨
    ∃ r ∈ rows, ∃ e, abandons P s₀.store r = .error e ∧
      rows.foldlM (reconcileStagingRow P dryRun now) s₀ = .error (.blob e) := by
  have houtcomes := Except.foldlM_outcomes (I := ScanningRows P dryRun now s₀)
    (f := reconcileStagingRow P dryRun now) (o := fun r => blob (abandons P s₀.store r))
    (l := rows) (b := s₀) ?_ ⟨by simpa [abandonedRows] using Abandoned.nil, by simp [abandonedRows]⟩
  · rcases houtcomes with ⟨s, hrun, hs, hall⟩ | ⟨r, hr, e, he, hrun⟩
    · refine Or.inl ⟨s, hrun, hs, fun r hr => ?_⟩
      obtain ⟨b, hb⟩ := hall r hr
      exact ⟨b, Except.mapError_eq_ok.1 hb⟩
    · cases habandons : abandons P s₀.store r with
      | ok b => simp [blob, habandons, Except.mapError] at he
      | error e' =>
        refine Or.inr ⟨r, hr, e', habandons, hrun.trans ?_⟩
        simp only [blob, habandons, Except.mapError] at he
        rw [Except.error.inj he]
  · intro done r rest s _ hs
    have hstore : s.store = s₀.store := hs.abandoned.store
    rw [reconcileStagingRow_eq, hstore]
    cases habandons : abandons P s₀.store r with
    | error e => exact Or.inl ⟨.blob e, by simp [blob, Except.mapError], rfl⟩
    | ok b =>
      refine Or.inr ⟨b, ?_⟩
      simp only [blob, Except.mapError]
      cases b with
      | false =>
        have hrows : abandonedRows P s₀.store (done ++ [r]) = abandonedRows P s₀.store done := by
          simp [abandonedRows, habandons, Except.toOption]
        exact ⟨s, trivial, rfl, by rw [hrows]; exact hs.abandoned, by rw [hrows]; exact hs.report⟩
      | true =>
        have hrows : abandonedRows P s₀.store (done ++ [r]) =
            abandonedRows P s₀.store done ++ [r] := by
          simp [abandonedRows, habandons, Except.toOption]
        cases dryRun with
        | true =>
          refine ⟨_, trivial, rfl, hs.abandoned, ?_⟩
          simp [hrows, hs.report, Reconciling.reporting, Nat.add_assoc]
        | false =>
          refine ⟨_, trivial, rfl, ?_, ?_⟩
          · rw [hrows]
            exact hs.abandoned.next
          · simp [hrows, hs.report, Reconciling.reporting, Nat.add_assoc]

/-! ## The scan of the staged objects -/

/-- A listed object that no staging row refers to, and that has been there for the grace period. -/
def orphan (w : ArtifactWorld) (cutoff : Time) (o : BlobStore.StagedObject) : Bool :=
  w.readStagingRowsByLocator o.stagingId = [] && decide (o.lastModifiedAt < cutoff)

/-- The orphans a batch removes. -/
def removed (w : ArtifactWorld) (input : ReconciliationInput) (cutoff : Time)
    (objects : List BlobStore.StagedObject) : List BlobStore.StagedObject :=
  if input.removeOrphans && !input.dryRun then objects.filter (w.orphan cutoff) else []

/-- The scan of staged objects removes orphans from the store, and nothing else. -/
structure Swept (removed : List BlobStore.StagedObject) (w w' : ArtifactWorld) : Prop where
  artifacts : w'.artifacts = w.artifacts
  inlinePayloads : w'.inlinePayloads = w.inlinePayloads
  staging : w'.staging = w.staging
  committed : w'.store.committed = w.store.committed
  staged : w'.store.staged = w.store.staged.filter fun e => !removed.any (·.stagingId = e.id)

theorem Swept.nil : Swept [] w w :=
  ⟨rfl, rfl, rfl, rfl, by simp⟩

theorem Swept.next {os : List BlobStore.StagedObject} {o : BlobStore.StagedObject}
    {w' : ArtifactWorld} (h : Swept os w w') :
    Swept (os ++ [o]) w { w' with store := w'.store.removeStaged o.stagingId } where
  artifacts := h.artifacts
  inlinePayloads := h.inlinePayloads
  staging := h.staging
  committed := h.committed
  staged := by
    change List.filter _ w'.store.staged = _
    rw [h.staged, List.filter_filter]
    congr 1
    funext e
    simp [Bool.and_comm, eq_comm]

/-- What the scan of staged objects has done. -/
structure ScanningObjects (input : ReconciliationInput) (cutoff : Time) (s₀ : Reconciling)
    (done : List BlobStore.StagedObject) (s : Reconciling) : Prop where
  swept : Swept (s₀.removed input cutoff done) s₀.toArtifactWorld s.toArtifactWorld
  unresolved : s.report.unresolved = s₀.report.unresolved
  abandoned : s.report.abandonedMetadataRows = s₀.report.abandonedMetadataRows ∧
    s.report.wouldAbandonMetadataRows = s₀.report.wouldAbandonMetadataRows

theorem scanObjects (input : ReconciliationInput) (cutoff : Time) (s₀ : Reconciling)
    (objects : List BlobStore.StagedObject) :
    ScanningObjects input cutoff s₀ objects (objects.foldl (reconcileObject input cutoff) s₀) := by
  induction objects using List.reverseRecOn with
  | nil => exact ⟨by simpa [removed] using Swept.nil, rfl, rfl, rfl⟩
  | append_singleton done o ih =>
    rw [List.foldl_append, List.foldl_cons, List.foldl_nil]
    obtain ⟨s, hs⟩ : ∃ s, s = done.foldl (reconcileObject input cutoff) s₀ := ⟨_, rfl⟩
    rw [← hs] at ih ⊢
    have hrows : s.readStagingRowsByLocator o.stagingId = s₀.readStagingRowsByLocator o.stagingId := by
      rw [readStagingRowsByLocator, ih.swept.staging, readStagingRowsByLocator]
    unfold reconcileObject
    rw [hrows]
    split_ifs with hkept hremove hdry
    · have hnot : s₀.orphan cutoff o = false := by
        rcases hkept with hrow | hnew
        · simp [orphan, hrow]
        · simp [orphan, hnew]
      have hsame : s₀.removed input cutoff (done ++ [o]) = s₀.removed input cutoff done := by
        simp [removed, hnot]
      exact ⟨hsame ▸ ih.swept, ih.unresolved, ih.abandoned⟩
    · have hsame : s₀.removed input cutoff (done ++ [o]) = s₀.removed input cutoff done := by
        simp only [Bool.not_eq_true'] at hremove
        simp [removed, hremove]
      exact ⟨hsame ▸ ih.swept, ih.unresolved, ih.abandoned⟩
    · have hsame : s₀.removed input cutoff (done ++ [o]) = s₀.removed input cutoff done := by
        simp [removed, hdry]
      exact ⟨hsame ▸ ih.swept, ih.unresolved, ih.abandoned⟩
    · have horphan : s₀.orphan cutoff o = true := by
        push Not at hkept
        simp [orphan, hkept.1, hkept.2]
      have hmore : s₀.removed input cutoff (done ++ [o]) = s₀.removed input cutoff done ++ [o] := by
        simp only [Bool.not_eq_true', Bool.not_eq_false] at hremove hdry
        simp [removed, hremove, hdry, horphan]
      exact ⟨hmore ▸ ih.swept.next, ih.unresolved, ih.abandoned⟩

/-! ## The listing -/

end ArtifactWorld

namespace BlobStore

variable {P : Platform} {store : BlobStore} {limit : ℕ} {cursor : Option Uuid}

theorem mem_sortedIds {id : Uuid} : id ∈ store.sortedIds ↔ ∃ e ∈ store.staged, e.id = id := by
  rw [sortedIds, List.mem_insertionSort, List.mem_map]

theorem sortedIds_pairwise : store.sortedIds.Pairwise (· < ·) := by
  have hnodup : store.sortedIds.Nodup := (List.perm_insertionSort _ _).nodup_iff.2 store.stagedKeyed
  exact ((List.pairwise_insertionSort _ _).and hnodup).imp fun h => lt_of_le_of_ne h.1 h.2

theorem mem_of_mem_pageIds {id : Uuid} (h : id ∈ store.pageIds limit cursor) :
    ∃ e ∈ store.staged, e.id = id := by
  rw [← mem_sortedIds]
  exact (Paging.page_sublist ..).subset h

theorem listObject_eq_ok {id : Uuid} {o : StagedObject} :
    store.listObject P id = .ok o ↔ ∃ bytes, ∃ e ∈ store.staged, e.id = id ∧
      e.directory = .written P bytes ∧ o = { measure P bytes with
        stagingId := id, lastModifiedAt := e.modifiedAt } := by
  unfold listObject staged?
  cases hfind : store.staged.find? (·.id = id) with
  | none =>
    have hnone : ∀ e ∈ store.staged, e.id ≠ id := by simpa using List.find?_eq_none.1 hfind
    constructor
    · intro h
      obtain ⟨m, hm, -⟩ := Except.bind_eq_ok.1 h
      obtain ⟨_, hw, -⟩ := readVerifiedObjectMetadata_eq_ok.1 hm
      cases hw
    · rintro ⟨_, e, he, hid, -⟩
      exact absurd hid (hnone e he)
  | some e =>
    obtain ⟨he, hid⟩ := mem_of_find?_key hfind
    constructor
    · intro h
      obtain ⟨m, hm, h⟩ := Except.bind_eq_ok.1 h
      obtain ⟨bytes, hw, rfl⟩ := readVerifiedObjectMetadata_eq_ok.1 hm
      exact ⟨bytes, e, he, hid, Option.some.inj hw, (Except.ok.inj h).symm⟩
    · rintro ⟨bytes, e', he', hid', hw, rfl⟩
      obtain rfl := store.stagedKeyed.eq he he' (hid.trans hid'.symm)
      simp only [Option.map_some, hw]
      rw [readVerifiedObjectMetadata_eq_ok.2 ⟨bytes, rfl, rfl⟩]
      rfl

/-- A listing throws unless every object of its page is as it was written. -/
theorem listStaged_cases (P : Platform) (store : BlobStore) (cursor : Option Uuid)
    (hlimit : 1 ≤ limit ∧ limit ≤ 1000) :
    (∃ objects, store.listStaged P limit cursor = .ok (objects, store.nextCursor limit cursor) ∧
      objects.map (·.stagingId) = store.pageIds limit cursor ∧
      (∀ o ∈ objects, store.listObject P o.stagingId = .ok o) ∧
      ∀ id ∈ store.pageIds limit cursor, IsWritten P (store.staged? id)) ∨
    (∃ id ∈ store.pageIds limit cursor, ¬IsWritten P (store.staged? id)) ∧
      ∃ e, store.listStaged P limit cursor = .error e := by
  have hpage : ∀ ids : List Uuid, (∀ id ∈ ids, ∃ e ∈ store.staged, e.id = id) →
      (∃ objects, ids.mapM (store.listObject P) = .ok objects ∧ objects.map (·.stagingId) = ids ∧
        (∀ o ∈ objects, store.listObject P o.stagingId = .ok o) ∧
        ∀ id ∈ ids, IsWritten P (store.staged? id)) ∨
      (∃ id ∈ ids, ¬IsWritten P (store.staged? id)) ∧
        ∃ e, ids.mapM (store.listObject P) = .error e := by
    intro ids
    induction ids with
    | nil => exact fun _ => Or.inl ⟨[], rfl, rfl, by simp, by simp⟩
    | cons id ids ih =>
      intro hids
      obtain ⟨⟨e, he, hid⟩, hids⟩ := List.forall_mem_cons.1 hids
      cases hobject : store.listObject P id with
      | error error =>
        refine Or.inr ⟨⟨id, by simp, fun ⟨bytes, hw⟩ => ?_⟩, error, by
          rw [List.mapM_cons, hobject]; rfl⟩
        obtain ⟨e, he, hid, hdirectory⟩ := staged?_eq_some.1 hw
        rw [listObject_eq_ok.2 ⟨bytes, e, he, hid, hdirectory, rfl⟩] at hobject
        cases hobject
      | ok o =>
        obtain ⟨bytes, e, he, hid, hdirectory, ho⟩ := listObject_eq_ok.1 hobject
        have hw : IsWritten P (store.staged? id) := ⟨bytes, staged?_eq_some.2 ⟨e, he, hid, hdirectory⟩⟩
        have hoid : o.stagingId = id := by rw [ho]
        rcases ih hids with ⟨objects, hrun, hmap, hall, hwritten⟩ | ⟨⟨id', hid', hnot⟩, error, hrun⟩
        · refine Or.inl ⟨o :: objects, ?_, ?_, ?_, List.forall_mem_cons.2 ⟨hw, hwritten⟩⟩
          · rw [List.mapM_cons, hobject, hrun]
            rfl
          · rw [List.map_cons, hmap, hoid]
          · exact List.forall_mem_cons.2 ⟨hoid ▸ hobject, hall⟩
        · refine Or.inr ⟨⟨id', List.mem_cons_of_mem id hid', hnot⟩, error, ?_⟩
          rw [List.mapM_cons, hobject, hrun]
          rfl
  unfold listStaged
  rw [if_neg (by omega)]
  rcases hpage _ fun id hid => mem_of_mem_pageIds hid with ⟨objects, hrun, hmap, hall, hw⟩ |
    ⟨hnot, e, hrun⟩
  · exact Or.inl ⟨objects, by rw [hrun]; rfl, hmap, hall, hw⟩
  · exact Or.inr ⟨hnot, e, by rw [hrun]; rfl⟩

end BlobStore

/-! ## The whole batch -/

namespace ArtifactWorld

variable (P : Platform) (now : Time) (input : ReconciliationInput) (w : ArtifactWorld)

/-- The artifacts a batch scans. -/
def scannedArtifacts : List ArtifactRow :=
  w.findCommittedArtifactsNeedingBlobCheck input.limit

/-- The promotions of a batch. -/
def promotions : List Promotion :=
  (w.scannedArtifacts input).filterMap (w.promotion? P input.dryRun)

/-- The staging rows a batch scans : the oldest that are staged, and that the batch does not
promote. -/
def scannedRows : List StagingRow :=
  ((w.staging.filter fun r => r.status = .staged && r.createdAt < input.cutoff now &&
    !(w.promotions P input).any (·.row.id = r.id)).insertionSort
      fun r s => r.createdAt ≤ s.createdAt).take input.limit

/-- Whether a staged object is still there when a batch lists the staged objects. -/
def remains (id : Uuid) : Bool :=
  !(w.promotions P input).any (·.row.stagedRef = id)

/-- The names a batch lists. -/
def remainingIds : List Uuid :=
  w.store.sortedIds.filter (w.remains P input)

/-- The page of them the batch scans. -/
def listedIds : List Uuid :=
  Paging.page input.limit input.cursor (w.remainingIds P input)

/-- The staged objects a batch removes. -/
def removes (e : StagedEntry) : Bool :=
  input.removeOrphans && !input.dryRun && decide (e.id ∈ w.listedIds P input) &&
    decide (w.readStagingRowsByLocator e.id = []) && decide (e.modifiedAt < input.cutoff now)

/-- The diagnostics of an artifact. -/
def diagnostics (a : ArtifactRow) : List ReconciliationDiagnostic :=
  match w.verdict P input.dryRun a with
  | .ok .missing => [{ code := "missing_committed_bytes", id := a.id,
                       message := "committed artifact bytes are missing" }]
  | .ok (.unresolved d) => [d]
  | _ => []

/-- What a batch that ends has done, told from the tables and the store it started with. -/
structure BatchEffect (s : Reconciling) : Prop where
  artifacts : s.artifacts = w.artifacts
  inlinePayloads : s.inlinePayloads = w.inlinePayloads
  staging : s.staging = updateWhere
    (fun r => (if input.dryRun then [] else abandonedRows P w.store (w.scannedRows P now input)).any
      (·.id = r.id)) (StagingRow.markAbandoned now)
    (updateWhere (fun r => (w.promotions P input).any (·.row.id = r.id))
      (StagingRow.markPromoted now) w.staging)
  committed : ∀ d, s.store.committed d =
    match (w.promotions P input).find? (·.artifact.digest = d) with
    | some p => some (.written P p.bytes)
    | none => w.store.committed d
  staged : s.store.staged =
    w.store.staged.filter fun e => w.remains P input e.id && !w.removes P now input e
  unresolved : s.report.unresolved = (w.scannedArtifacts input).flatMap (w.diagnostics P input)
  abandoned : (s.report.wouldAbandonMetadataRows, s.report.abandonedMetadataRows) =
    if input.dryRun then ((abandonedRows P w.store (w.scannedRows P now input)).length, 0)
    else (0, (abandonedRows P w.store (w.scannedRows P now input)).length)
  nextCursor : s.report.nextCursor =
    Paging.next input.limit input.cursor (w.remainingIds P input)

/-- What a batch must be able to conclude on. -/
structure Concludable : Prop where
  verdicts : ∀ a ∈ w.scannedArtifacts input, ∃ v, w.verdict P input.dryRun a = .ok v
  rows : ∀ r ∈ w.scannedRows P now input, ∃ b, abandons P w.store r = .ok b
  page : ∀ id ∈ w.listedIds P input, IsWritten P (w.store.staged? id)

variable {P now input w}

theorem mem_promotion {p : Promotion} (h : p ∈ w.promotions P input) :
    p.artifact ∈ w.scannedArtifacts input ∧
      w.verdict P input.dryRun p.artifact = .ok (.promoted p.row p.bytes) ∧ p.Valid P w :=
  mem_promotions h

section Promoted

variable {w₁ : ArtifactWorld} (h : Promoted P now (w.promotions P input) w w₁)

include h

theorem Promoted.candidates :
    w₁.listReconciliationCandidates (input.cutoff now) input.limit = w.scannedRows P now input := by
  unfold listReconciliationCandidates scannedRows
  rw [h.staging]
  congr 2
  induction w.staging with
  | nil => rfl
  | cons r rows ih =>
    rw [updateWhere, List.map_cons, List.filter_cons, List.filter_cons]
    rw [updateWhere] at ih
    rw [ih]
    by_cases hp : (w.promotions P input).any (·.row.id = r.id)
    · simp [hp, StagingRow.markPromoted]
    · simp [hp]

theorem Promoted.sortedIds : w₁.store.sortedIds = w.remainingIds P input := by
  unfold BlobStore.sortedIds remainingIds
  rw [h.staged, BlobStore.sortedIds, ← insertionSort_filter_le, List.filter_map]
  rfl

theorem Promoted.pageIds :
    w₁.store.pageIds input.limit input.cursor = w.listedIds P input := by
  rw [BlobStore.pageIds, h.sortedIds]
  rfl

theorem Promoted.remaining {id : Uuid} (hid : w.remains P input id) :
    w₁.store.staged? id = w.store.staged? id :=
  h.staged? fun p hp heq => by
    have hany : (w.promotions P input).any (·.row.stagedRef = id) :=
      List.any_eq_true.2 ⟨p, hp, by simpa using heq⟩
    simp [remains, hany] at hid

/-- What the scan of a row reads is as before. -/
theorem Promoted.abandons (hkeys : w.Keys) {r : StagingRow} (hr : r ∈ w.staging) :
    ArtifactWorld.abandons P w₁.store r = ArtifactWorld.abandons P w.store r := by
  unfold ArtifactWorld.abandons BlobStore.stagedExists
  by_cases hlinked : r.artifactId ≠ none
  · rw [if_pos hlinked, if_pos hlinked]
  · rw [if_neg hlinked, if_neg hlinked, h.remaining]
    have hnone : ∀ p ∈ w.promotions P input, p.row.stagedRef ≠ r.stagedRef := by
      intro p hp heq
      obtain ⟨-, -, hvalid⟩ := mem_promotion hp
      obtain rfl := hkeys.stagedRefs.eq hvalid.mem hr heq
      rw [hvalid.linked] at hlinked
      exact hlinked (by simp)
    simpa [remains] using hnone

end Promoted

theorem mem_scannedRows {r : StagingRow} (h : r ∈ w.scannedRows P now input) :
    r ∈ w.staging ∧ r.status = .staged ∧ r.createdAt < input.cutoff now ∧
      ∀ p ∈ w.promotions P input, p.row.id ≠ r.id := by
  have h := List.mem_of_mem_take h
  rw [List.mem_insertionSort, List.mem_filter] at h
  simpa [and_assoc] using h

theorem mem_listedIds {id : Uuid} (h : id ∈ w.listedIds P input) :
    w.remains P input id ∧ ∃ e ∈ w.store.staged, e.id = id := by
  have hmem : id ∈ w.remainingIds P input := (Paging.page_sublist ..).subset h
  rw [remainingIds, List.mem_filter, BlobStore.mem_sortedIds] at hmem
  exact ⟨hmem.2, hmem.1⟩

variable (P input w) in
/-- The report of the scan of artifacts. -/
theorem report_foldl (as : List ArtifactRow) (r : ArtifactReconciliationReport) :
    (as.foldl (fun r a => (w.verdict P input.dryRun a).toOption.elim r (r.concluding a)) r).unresolved =
        r.unresolved ++ as.flatMap (w.diagnostics P input) ∧
      (as.foldl (fun r a => (w.verdict P input.dryRun a).toOption.elim r (r.concluding a))
        r).abandonedMetadataRows = r.abandonedMetadataRows ∧
      (as.foldl (fun r a => (w.verdict P input.dryRun a).toOption.elim r (r.concluding a))
        r).wouldAbandonMetadataRows = r.wouldAbandonMetadataRows := by
  induction as generalizing r with
  | nil => simp
  | cons a as ih =>
    rw [List.foldl_cons]
    obtain ⟨hu, ha, hw⟩ := ih ((w.verdict P input.dryRun a).toOption.elim r (r.concluding a))
    rw [hu, ha, hw, List.flatMap_cons]
    have hone : ((w.verdict P input.dryRun a).toOption.elim r (r.concluding a)).unresolved =
          r.unresolved ++ w.diagnostics P input a ∧
        ((w.verdict P input.dryRun a).toOption.elim r (r.concluding a)).abandonedMetadataRows =
          r.abandonedMetadataRows ∧
        ((w.verdict P input.dryRun a).toOption.elim r (r.concluding a)).wouldAbandonMetadataRows =
          r.wouldAbandonMetadataRows := by
      unfold diagnostics
      cases w.verdict P input.dryRun a with
      | error e => simp [Except.toOption]
      | ok v => cases v <;> simp [Except.toOption, ArtifactReconciliationReport.concluding]
    rw [hone.1, List.append_assoc]
    exact ⟨rfl, hone.2⟩

/-- What a batch does, from what its three scans do. -/
theorem batchEffect {s₁ s₂ : Reconciling} {objects : List BlobStore.StagedObject} (hkeys : w.Keys)
    (h₁ : ScanningArtifacts P input.dryRun now w (.empty input.dryRun) (w.scannedArtifacts input) s₁)
    (h₂ : ScanningRows P input.dryRun now s₁ (w.scannedRows P now input) s₂)
    (hmap : objects.map (·.stagingId) = w.listedIds P input)
    (hlisted : ∀ o ∈ objects, s₂.store.listObject P o.stagingId = .ok o) :
    w.BatchEffect P now input
      ((objects.foldl (reconcileObject input (input.cutoff now)) s₂).reporting fun r =>
        { r with nextCursor := s₂.store.nextCursor input.limit input.cursor }) := by
  have h₃ := scanObjects input (input.cutoff now) s₂ objects
  have hpromoted : Promoted P now (w.promotions P input) w s₁.toArtifactWorld := h₁.promoted
  have hstore : s₂.store = s₁.store := h₂.abandoned.store
  have hrows : abandonedRows P s₁.store (w.scannedRows P now input) =
      abandonedRows P w.store (w.scannedRows P now input) :=
    List.filter_congr fun r hr => by rw [hpromoted.abandons hkeys (mem_scannedRows hr).1]
  obtain ⟨hunresolved, habandoned, hwould⟩ :=
    report_foldl P input w (w.scannedArtifacts input) (.empty input.dryRun)
  rw [← h₁.report] at hunresolved habandoned hwould
  have hrefs : ∀ id, s₂.readStagingRowsByLocator id = [] ↔ w.readStagingRowsByLocator id = [] := by
    intro id
    unfold readStagingRowsByLocator
    rw [h₂.abandoned.staging, hpromoted.staging,
      filter_updateWhere (f := StagingRow.markAbandoned now) fun _ => rfl,
      filter_updateWhere (f := StagingRow.markPromoted now) fun _ => rfl, updateWhere,
      List.map_eq_nil_iff, updateWhere, List.map_eq_nil_iff]
  refine ⟨?_, ?_, ?_, ?_, ?_, ?_, ?_, ?_⟩
  · exact (h₃.swept.artifacts.trans h₂.abandoned.artifacts).trans hpromoted.artifacts
  · exact (h₃.swept.inlinePayloads.trans h₂.abandoned.inlinePayloads).trans hpromoted.inlinePayloads
  · rw [← hrows]
    exact h₃.swept.staging.trans (h₂.abandoned.staging.trans (by rw [hpromoted.staging]))
  · intro d
    rw [← hpromoted.committed d, ← hstore]
    exact congrFun h₃.swept.committed d
  · refine h₃.swept.staged.trans ?_
    rw [hstore, hpromoted.staged, List.filter_filter]
    refine List.filter_congr fun e he => ?_
    rw [Bool.and_comm]
    by_cases hremains : w.remains P input e.id
    · rw [hremains, show (!(w.promotions P input).any (·.row.stagedRef = e.id)) = true from hremains,
        Bool.true_and, Bool.true_and, Bool.not_inj_iff, Bool.eq_iff_iff]
      have hentry : ∀ o ∈ objects, o.stagingId = e.id → o.lastModifiedAt = e.modifiedAt := by
        intro o ho hid
        obtain ⟨_, e', he', hid', -, heq⟩ := BlobStore.listObject_eq_ok.1 (hlisted o ho)
        rw [hstore, hpromoted.staged] at he'
        obtain rfl := w.store.stagedKeyed.eq (List.mem_of_mem_filter he') he (hid'.trans hid)
        rw [heq]
      constructor
      · intro hany
        obtain ⟨o, ho, hid⟩ := List.any_eq_true.1 hany
        have hid : o.stagingId = e.id := by simpa using hid
        unfold removed at ho
        split_ifs at ho with hinput
        · obtain ⟨ho, horphan⟩ := List.mem_filter.1 ho
          have hmem : e.id ∈ w.listedIds P input := hmap ▸ hid ▸ List.mem_map_of_mem ho
          have horphan : s₂.readStagingRowsByLocator o.stagingId = [] ∧
              o.lastModifiedAt < input.cutoff now := by simpa [orphan] using horphan
          rw [hid, hrefs, hentry o ho hid] at horphan
          simpa [removes, hmem, horphan] using hinput
        · simp at ho
      · intro hremoves
        obtain ⟨⟨⟨hinput, hmem⟩, hrow⟩, hold⟩ : (((input.removeOrphans = true ∧ input.dryRun = false) ∧
            e.id ∈ w.listedIds P input) ∧ w.readStagingRowsByLocator e.id = []) ∧
            e.modifiedAt < input.cutoff now := by simpa [removes] using hremoves
        rw [← hmap] at hmem
        obtain ⟨o, ho, hid⟩ := List.mem_map.1 hmem
        refine List.any_eq_true.2 ⟨o, ?_, by simpa using hid⟩
        have hrow' := (hrefs e.id).2 hrow
        simp [removed, hinput, ho, orphan, hid, hrow', hentry o ho hid, hold]
    · rw [Bool.not_eq_true] at hremains
      rw [hremains, show (!(w.promotions P input).any (·.row.stagedRef = e.id)) = false from hremains,
        Bool.false_and, Bool.false_and]
  · refine h₃.unresolved.trans ?_
    have hsame : s₂.report.unresolved = s₁.report.unresolved := by
      rw [h₂.report]
      split_ifs <;> rfl
    rw [hsame, hunresolved]
    rfl
  · refine (Prod.ext h₃.abandoned.2 h₃.abandoned.1 : (_, _) =
      (s₂.report.wouldAbandonMetadataRows, s₂.report.abandonedMetadataRows)).trans ?_
    have hzero : s₁.report.wouldAbandonMetadataRows = 0 ∧ s₁.report.abandonedMetadataRows = 0 :=
      ⟨hwould, habandoned⟩
    rw [h₂.report, hrows]
    split_ifs <;> simp [hzero]
  · change s₂.store.nextCursor input.limit input.cursor = _
    rw [hstore, BlobStore.nextCursor, hpromoted.sortedIds]

/-- A batch with a limit and a grace period the store and the service accept ends exactly when it can
conclude on everything it scans, and then does what it concludes. -/
theorem runBatch_cases (hkeys : w.Keys) (hlimit : 1 ≤ input.limit ∧ input.limit ≤ 1000)
    (hgrace : 0 ≤ input.orphanGraceSeconds) :
    (w.Concludable P now input ∧ ∃ s, runBatch P now input w = .ok s ∧ w.BatchEffect P now input s) ∨
      ¬w.Concludable P now input ∧ ∃ e, runBatch P now input w = .error e := by
  have hrun : runBatch P now input w = (do
      let s ← (w.scannedArtifacts input).foldlM (reconcileArtifact P input.dryRun now)
        ⟨w, .empty input.dryRun⟩
      let s ← (s.listReconciliationCandidates (input.cutoff now) input.limit).foldlM
        (reconcileStagingRow P input.dryRun now) s
      let page ← blob (s.store.listStaged P input.limit input.cursor)
      return (page.1.foldl (reconcileObject input (input.cutoff now)) s).reporting
        fun r => { r with nextCursor := page.2 }) := by
    unfold runBatch
    rw [if_neg (by omega), if_neg (by omega)]
    rfl
  rw [hrun]
  have hids : Keyed (·.id) (w.scannedArtifacts input) := (hkeys.scanned _).1
  have hdigests : Keyed (·.digest) (w.scannedArtifacts input) := (hkeys.scanned _).2
  rcases scanArtifacts_cases P input.dryRun now (.empty input.dryRun) hkeys hids hdigests with ⟨s₁, hs₁, h₁, hverdicts⟩ | ⟨a, ha, e, hverdict, hs₁⟩
  · have hrows : ∀ r ∈ w.scannedRows P now input,
        abandons P s₁.store r = abandons P w.store r := fun r hr =>
      h₁.promoted.abandons hkeys (mem_scannedRows hr).1
    rw [hs₁]
    simp only [bind, Except.bind]
    rw [h₁.promoted.candidates]
    rcases scanRows_cases P input.dryRun now (w.scannedRows P now input) s₁ with ⟨s₂, hs₂, h₂, hall⟩ | ⟨r, hr, e, habandons, hs₂⟩
    · rw [hs₂]
      simp only
      rcases BlobStore.listStaged_cases P s₂.store input.cursor hlimit with ⟨objects, hlist, hmap, hobjects, hpage⟩ | ⟨⟨id, hid, hnot⟩, e, hlist⟩
      · rw [hlist]
        refine Or.inl ⟨⟨hverdicts, fun r hr => hrows r hr ▸ hall r hr, fun id hid => ?_⟩, _, rfl, ?_⟩
        · have hid' := h₁.promoted.remaining (mem_listedIds hid).1
          rw [← hid', ← h₂.abandoned.store]
          exact hpage id (by rw [h₂.abandoned.store, h₁.promoted.pageIds]; exact hid)
        · rw [h₂.abandoned.store, h₁.promoted.pageIds] at hmap
          exact batchEffect hkeys h₁ h₂ hmap hobjects
      · refine Or.inr ⟨fun hc => hnot ?_, .blob e, by rw [hlist]; rfl⟩
        rw [h₂.abandoned.store, h₁.promoted.pageIds] at hid
        rw [h₂.abandoned.store, h₁.promoted.remaining (mem_listedIds hid).1]
        exact hc.page id hid
    · refine Or.inr ⟨fun hc => ?_, .blob e, by rw [hs₂]⟩
      obtain ⟨b, hb⟩ := hc.rows r hr
      rw [← hrows r hr, habandons] at hb
      cases hb
  · refine Or.inr ⟨fun hc => ?_, .blob e, by rw [hs₁]; rfl⟩
    obtain ⟨v, hv⟩ := hc.verdicts a ha
    rw [hverdict] at hv
    cases hv

end ArtifactWorld

end FactoryFloor
