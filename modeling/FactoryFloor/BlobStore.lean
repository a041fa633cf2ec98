import FactoryFloor.Schema
import FactoryFloor.Paging

/-!
# The blob store

`FilesystemArtifactBlobStore`. An object is a directory of two files : its bytes, and the
metadata `stage` or `promote` wrote beside them. A staged object is found under its staging id and
a committed one under its digest. Either file may be missing and the metadata may be anything :
`readVerifiedObjectMetadata` is what every operation trusts an object by.

`stage` and `promote` write an object in a temporary directory and rename it, so that an object
they leave is whole (`ObjectDirectory.written_verified`).
-/

namespace FactoryFloor

open Relational

/-! ## Errors -/

/-- The codes of an `ArtifactBlobStoreError` that staging ids and digests of the database can
lead to. -/
inductive BlobErrorCode where
  | invalidDigest | notFound | digestMismatch | sizeMismatch | stagingConflict | committedConflict
deriving DecidableEq, Repr

/-- What an operation of the store throws. -/
inductive BlobError where
  /-- `ArtifactBlobStoreError`. -/
  | store (code : BlobErrorCode) (message : String)
  /-- An error of the language : a `SyntaxError` of `JSON.parse`, a `TypeError`, a `RangeError`. -/
  | thrown (name message : String)
deriving DecidableEq, Repr

/-! ## Objects -/

/-- The member `digest` of a metadata file, as `validateDigest` and `===` see it. -/
inductive DigestMember where
  | digest (d : Digest)
  /-- An array of one digest. The pattern accepts its text, and it equals no digest. -/
  | boxed
  | invalid
deriving DecidableEq, Repr

/-- `metadata.json`. -/
inductive MetadataFile where
  | notJson
  | null
  /-- Another JSON value. Its member `size` is none where its text is no size. -/
  | value (digest : DigestMember) (size : Option ℕ)
deriving DecidableEq, Repr

/-- The directory of an object. -/
structure ObjectDirectory where
  data : Option (List UInt8)
  metadata : Option MetadataFile
deriving DecidableEq, Repr

/-- `ObjectMetadata`. The digest is none for a boxed one. -/
structure ObjectMetadata where
  digest : Option Digest
  size : ℕ
deriving DecidableEq, Repr

/-- `DigestAccumulator` after the bytes. -/
def measure (P : Platform) (bytes : List UInt8) : ObjectMetadata :=
  { digest := some (P.sha256 bytes), size := bytes.length }

/-- `validateDigest` of a metadata member. -/
def DigestMember.validate : DigestMember → Except BlobError (Option Digest)
  | .digest d => .ok (some d)
  | .boxed => .ok none
  | .invalid => .error (.store .invalidDigest "invalid SHA-256 digest")

/-- `readMetadata`. -/
def readMetadata (missingCode : BlobErrorCode) : Option MetadataFile → Except BlobError ObjectMetadata
  | none => .error (.store missingCode "object metadata not found or unsafe")
  | some .notJson => .error (.thrown "SyntaxError" "JSON.parse")
  | some .null => .error (.thrown "TypeError" "data is null")
  | some (.value digest size) => do
    let digest ← digest.validate
    match size with
    | some size => .ok { digest, size }
    | none => .error (.store missingCode "invalid metadata size")

/-- `readObjectMetadata` : the bytes of an object and its metadata. -/
def readObjectMetadata (missingCode : BlobErrorCode) :
    Option ObjectDirectory → Except BlobError (List UInt8 × ObjectMetadata)
  | none => .error (.store missingCode "directory not found")
  | some directory =>
    match directory.data with
    | none => .error (.store missingCode "file not found")
    | some bytes => do
      let metadata ← readMetadata missingCode directory.metadata
      return (bytes, metadata)

/-- `readVerifiedObjectMetadata`. -/
def readVerifiedObjectMetadata (P : Platform) (missingCode : BlobErrorCode)
    (directory : Option ObjectDirectory) : Except BlobError ObjectMetadata := do
  let (bytes, metadata) ← readObjectMetadata missingCode directory
  if measure P bytes = metadata then return metadata
  else .error (.store missingCode "object content does not match its metadata")

/-- `validObjectExists`. -/
def validObjectExists (P : Platform) (directory : Option ObjectDirectory) : Except BlobError Bool :=
  match readVerifiedObjectMetadata P .notFound directory with
  | .ok _ => .ok true
  | .error (.store .notFound _) => .ok false
  | .error e => .error e

/-- The directory that is renamed into its place : bytes and what was measured of them. -/
def ObjectDirectory.written (P : Platform) (bytes : List UInt8) : ObjectDirectory :=
  { data := some bytes, metadata := some (.value (.digest (P.sha256 bytes)) (some bytes.length)) }

/-- What reading a metadata file throws when it is no metadata at all, whatever the caller expects
of the object. -/
def MetadataFile.failure : MetadataFile → Option BlobError
  | .notJson => some (.thrown "SyntaxError" "JSON.parse")
  | .null => some (.thrown "TypeError" "data is null")
  | .value .invalid _ => some (.store .invalidDigest "invalid SHA-256 digest")
  | .value .. => none

/-- What reading an object throws when its metadata file is no metadata. -/
def ObjectDirectory.failure (directory : ObjectDirectory) : Option BlobError :=
  if directory.data.isSome then directory.metadata.bind (·.failure) else none

/-- An error that says nothing of the object : no operation of the store turns it into an answer. -/
def BlobError.foreign : BlobError → Bool
  | .thrown .. | .store .invalidDigest _ => true
  | .store .. => false

section Objects

variable {P : Platform} {code : BlobErrorCode} {directory : Option ObjectDirectory}
  {object : ObjectDirectory} {e : BlobError} {bytes bytes' : List UInt8}

theorem ObjectDirectory.written_inj
    (h : ObjectDirectory.written P bytes = .written P bytes') : bytes = bytes' :=
  Option.some.inj (congrArg ObjectDirectory.data h)

@[simp] theorem ObjectDirectory.failure_written : (ObjectDirectory.written P bytes).failure = none :=
  rfl

@[simp] theorem readObjectMetadata_written :
    readObjectMetadata code (some (.written P bytes)) = .ok (bytes, measure P bytes) :=
  rfl

theorem ObjectDirectory.failure_foreign (h : object.failure = some e) : e.foreign := by
  obtain ⟨data, metadata⟩ := object
  match data, metadata with
  | none, _ | some _, none => cases h
  | some _, some .notJson | some _, some .null | some _, some (.value .invalid _) =>
    obtain rfl := Option.some.inj h
    rfl
  | some _, some (.value (.digest _) _) | some _, some (.value .boxed _) => cases h

/-- Reading an object fails with the code the caller gives, or because of its metadata file. -/
theorem readObjectMetadata_error (h : readObjectMetadata code directory = .error e) :
    (∃ message, e = .store code message) ∨ ∃ object, directory = some object ∧
      object.failure = some e := by
  match directory with
  | none | some ⟨none, _⟩ | some ⟨some _, none⟩ => exact Or.inl ⟨_, (Except.error.inj h).symm⟩
  | some ⟨some _, some .notJson⟩ | some ⟨some _, some .null⟩
  | some ⟨some _, some (.value .invalid _)⟩ =>
    exact Or.inr ⟨_, rfl, congrArg some (Except.error.inj h)⟩
  | some ⟨some _, some (.value (.digest _) none)⟩ | some ⟨some _, some (.value .boxed none)⟩ =>
    exact Or.inl ⟨_, (Except.error.inj h).symm⟩
  | some ⟨some _, some (.value (.digest _) (some _))⟩
  | some ⟨some _, some (.value .boxed (some _))⟩ => cases h

theorem readObjectMetadata_failure (h : object.failure = some e) :
    readObjectMetadata code (some object) = .error e := by
  obtain ⟨data, metadata⟩ := object
  match data, metadata with
  | none, _ | some _, none => cases h
  | some _, some .notJson | some _, some .null | some _, some (.value .invalid _) =>
    exact congrArg Except.error (Option.some.inj h)
  | some _, some (.value (.digest _) _) | some _, some (.value .boxed _) => cases h

/-- Metadata that says what is measured of the bytes is what was written beside them. -/
theorem eq_written (h : readObjectMetadata code (some object) = .ok (bytes, measure P bytes)) :
    object = .written P bytes := by
  match object with
  | ⟨none, _⟩ | ⟨some _, none⟩ | ⟨some _, some .notJson⟩ | ⟨some _, some .null⟩
  | ⟨some _, some (.value .invalid _)⟩ | ⟨some _, some (.value (.digest _) none)⟩
  | ⟨some _, some (.value .boxed none)⟩ | ⟨some _, some (.value .boxed (some _))⟩ => cases h
  | ⟨some data, some (.value (.digest d) (some n))⟩ =>
    obtain ⟨rfl, hm⟩ := Prod.mk.inj (Except.ok.inj h)
    obtain ⟨hd, rfl⟩ := ObjectMetadata.mk.inj hm
    rw [Option.some.inj hd]
    rfl

/-- An operation trusts an object exactly when it is as it was written. -/
theorem readVerifiedObjectMetadata_eq_ok {metadata : ObjectMetadata} :
    readVerifiedObjectMetadata P code directory = .ok metadata ↔
      ∃ bytes, directory = some (.written P bytes) ∧ metadata = measure P bytes := by
  constructor
  · intro h
    obtain ⟨⟨bytes, m⟩, hread, h⟩ := Except.bind_eq_ok.1 h
    by_cases hm : measure P bytes = m
    · subst hm
      obtain rfl : measure P bytes = metadata := by simpa [pure, Except.pure] using h
      cases directory with
      | none => cases hread
      | some object => exact ⟨bytes, congrArg some (eq_written hread), rfl⟩
    · simp [hm] at h
  · rintro ⟨bytes, rfl, rfl⟩
    simp [readVerifiedObjectMetadata, bind, Except.bind, pure, Except.pure]

theorem readVerifiedObjectMetadata_error
    (h : readVerifiedObjectMetadata P code directory = .error e) :
    (∃ message, e = .store code message) ∨ ∃ object, directory = some object ∧
      object.failure = some e := by
  unfold readVerifiedObjectMetadata at h
  cases hread : readObjectMetadata code directory with
  | error e' =>
    rw [hread] at h
    obtain rfl := Except.error.inj h
    exact readObjectMetadata_error hread
  | ok r =>
    rw [hread] at h
    by_cases hm : measure P r.1 = r.2
    · simp [hm, bind, Except.bind, pure, Except.pure] at h
    · refine Or.inl ⟨"object content does not match its metadata", ?_⟩
      simpa [hm, bind, Except.bind, eq_comm] using h

theorem readVerifiedObjectMetadata_failure (h : object.failure = some e) :
    readVerifiedObjectMetadata P code (some object) = .error e := by
  rw [readVerifiedObjectMetadata, readObjectMetadata_failure h]
  rfl

/-- A directory that is as it was written. -/
def IsWritten (P : Platform) (directory : Option ObjectDirectory) : Prop :=
  ∃ bytes, directory = some (.written P bytes)

theorem isWritten_written : IsWritten P (some (.written P bytes)) := ⟨bytes, rfl⟩

theorem not_isWritten_none : ¬IsWritten P none := fun ⟨_, h⟩ => by cases h

theorem validObjectExists_of_written (h : IsWritten P directory) :
    validObjectExists P directory = .ok true := by
  obtain ⟨bytes, rfl⟩ := h
  rw [validObjectExists, readVerifiedObjectMetadata_eq_ok.2 ⟨bytes, rfl, rfl⟩]

theorem validObjectExists_of_failure (h : object.failure = some e) :
    validObjectExists P (some object) = .error e := by
  rw [validObjectExists, readVerifiedObjectMetadata_failure h]
  have hforeign := ObjectDirectory.failure_foreign h
  match e with
  | .thrown .. | .store .invalidDigest _ => rfl

theorem validObjectExists_of_not (h : ¬IsWritten P directory)
    (hreadable : ∀ object, directory = some object → object.failure = none) :
    validObjectExists P directory = .ok false := by
  rw [validObjectExists]
  cases hread : readVerifiedObjectMetadata P .notFound directory with
  | ok metadata =>
    obtain ⟨bytes, hw, -⟩ := readVerifiedObjectMetadata_eq_ok.1 hread
    exact absurd ⟨bytes, hw⟩ h
  | error e =>
    rcases readVerifiedObjectMetadata_error hread with ⟨message, rfl⟩ | ⟨object, hobject, hfailure⟩
    · rfl
    · rw [hreadable object hobject] at hfailure
      cases hfailure

/-- An object exists when it is as it was written, and the test fails on metadata that is none. -/
theorem validObjectExists_cases (P : Platform) (directory : Option ObjectDirectory) :
    (IsWritten P directory ∧ validObjectExists P directory = .ok true) ∨
    (¬IsWritten P directory ∧ (∀ object, directory = some object → object.failure = none) ∧
      validObjectExists P directory = .ok false) ∨
    ∃ object e, directory = some object ∧ object.failure = some e ∧ ¬IsWritten P directory ∧
      validObjectExists P directory = .error e := by
  by_cases hw : IsWritten P directory
  · exact Or.inl ⟨hw, validObjectExists_of_written hw⟩
  by_cases hreadable : ∀ object, directory = some object → object.failure = none
  · exact Or.inr (Or.inl ⟨hw, hreadable, validObjectExists_of_not hw hreadable⟩)
  · push Not at hreadable
    obtain ⟨object, rfl, hfailure⟩ := hreadable
    obtain ⟨e, he⟩ := Option.ne_none_iff_exists'.1 hfailure
    exact Or.inr (Or.inr ⟨object, e, rfl, he, hw, validObjectExists_of_failure he⟩)

end Objects

/-! ## The store -/

/-- A directory under `staging`. -/
structure StagedEntry where
  id : Uuid
  directory : ObjectDirectory
  modifiedAt : Time
deriving DecidableEq, Repr

/-- The directories of the store. -/
structure BlobStore where
  staged : List StagedEntry
  committed : Digest → Option ObjectDirectory
  stagedKeyed : Keyed (·.id) staged

namespace BlobStore

variable {P : Platform} {store store' : BlobStore}

/-- The staged object under an id. -/
def staged? (store : BlobStore) (id : Uuid) : Option ObjectDirectory :=
  (store.staged.find? (·.id = id)).map (·.directory)

/-- `removeStaged`. -/
def removeStaged (id : Uuid) (store : BlobStore) : BlobStore where
  staged := store.staged.filter (·.id ≠ id)
  committed := store.committed
  stagedKeyed := store.stagedKeyed.sublist (List.filter_sublist.map _)

/-- The store with one more staged object. -/
def addStaged (entry : StagedEntry) (store : BlobStore) : BlobStore where
  staged := (store.removeStaged entry.id).staged ++ [entry]
  committed := store.committed
  stagedKeyed := (store.removeStaged entry.id).stagedKeyed.append fun s hs => by
    simpa using (List.mem_filter.1 hs).2

/-- The store with a committed object in its place. -/
def addCommitted (digest : Digest) (directory : ObjectDirectory) (store : BlobStore) : BlobStore where
  staged := store.staged
  committed d := if d = digest then some directory else store.committed d
  stagedKeyed := store.stagedKeyed

/-- `stagedExists`. -/
def stagedExists (P : Platform) (id : Uuid) (store : BlobStore) : Except BlobError Bool :=
  validObjectExists P (store.staged? id)

/-- `committedExists`. -/
def committedExists (P : Platform) (digest : Digest) (store : BlobStore) : Except BlobError Bool :=
  validObjectExists P (store.committed digest)

/-- `stage` of a stream, for the upload that expects its digest and size. -/
def stage (P : Platform) (now : Time) (id : Uuid) (bytes : List UInt8) (expected : ObjectMetadata)
    (store : BlobStore) : Except BlobError BlobStore :=
  if expected.size ≠ bytes.length then
    .error (.store .sizeMismatch "staged content size did not match expected size")
  else if expected.digest ≠ some (P.sha256 bytes) then
    .error (.store .digestMismatch "staged content digest did not match expected digest")
  else
    match store.staged? id with
    | none | some { data := none, metadata := none } =>
      -- The rename replaces an empty directory.
      .ok (store.addStaged { id, directory := .written P bytes, modifiedAt := now })
    | some directory => do
      let existing ← readVerifiedObjectMetadata P .stagingConflict (some directory)
      if existing = measure P bytes then return store
      else .error (.store .stagingConflict "object identity conflicts with existing content")

/-- `promote`. -/
def promote (P : Platform) (id : Uuid) (digest : Digest) (size : ℕ) (store : BlobStore) :
    Except BlobError BlobStore :=
  match store.committed digest with
  | some directory => do
    let existing ← readVerifiedObjectMetadata P .committedConflict (some directory)
    if existing = { digest := some digest, size } then return store.removeStaged id
    else .error (.store .committedConflict
      "committed object conflicts with requested digest or size")
  | none =>
    match store.staged? id with
    | none => .error (.store .notFound "staged object was not found")
    | some directory => do
      let (bytes, metadata) ← readObjectMetadata .stagingConflict (some directory)
      if metadata.size ≠ size then
        .error (.store .sizeMismatch "staged metadata size does not match promotion size")
      else if metadata.digest ≠ some digest then
        .error (.store .digestMismatch "staged metadata digest does not match promotion digest")
      else if bytes.length ≠ size then
        .error (.store .sizeMismatch "staged content size does not match promotion size")
      else if P.sha256 bytes ≠ digest then
        .error (.store .digestMismatch "staged content digest does not match promotion digest")
      else return (store.addCommitted digest (.written P bytes)).removeStaged id

@[simp] theorem removeStaged_committed (id : Uuid) :
    (store.removeStaged id).committed = store.committed := rfl

theorem mem_removeStaged {id : Uuid} {entry : StagedEntry} :
    entry ∈ (store.removeStaged id).staged ↔ entry ∈ store.staged ∧ entry.id ≠ id := by
  simp [removeStaged]

/-- What is staged under other ids stays. -/
theorem removeStaged_staged? {id id' : Uuid} (h : id' ≠ id) :
    (store.removeStaged id).staged? id' = store.staged? id' := by
  unfold staged? removeStaged
  rw [List.find?_filter]
  congr 2
  funext entry
  by_cases hid : entry.id = id' <;> simp [hid, h]

@[simp] theorem removeStaged_self (id : Uuid) : (store.removeStaged id).staged? id = none := by
  simp [staged?, removeStaged, List.find?_filter]

theorem staged?_eq_none {id : Uuid} :
    store.staged? id = none ↔ ∀ entry ∈ store.staged, entry.id ≠ id := by
  simp [staged?]

theorem staged?_eq_some {id : Uuid} {directory : ObjectDirectory} :
    store.staged? id = some directory ↔
      ∃ entry ∈ store.staged, entry.id = id ∧ entry.directory = directory := by
  constructor
  · intro h
    obtain ⟨entry, hentry, rfl⟩ := Option.map_eq_some_iff.1 h
    obtain ⟨hmem, hid⟩ := mem_of_find?_key hentry
    exact ⟨entry, hmem, hid, rfl⟩
  · rintro ⟨entry, hmem, rfl, rfl⟩
    rw [staged?, store.stagedKeyed.find?_eq_some hmem]
    rfl

/-- A promotion that ends well leaves the bytes committed, and nothing staged under the id. -/
theorem promote_eq_ok {id : Uuid} {digest : Digest} {size : ℕ} :
    store.promote P id digest size = .ok store' ↔
      ∃ bytes, P.sha256 bytes = digest ∧ bytes.length = size ∧
        ((store.committed digest = some (.written P bytes) ∧ store' = store.removeStaged id) ∨
          (store.committed digest = none ∧ store.staged? id = some (.written P bytes) ∧
            store' = (store.addCommitted digest (.written P bytes)).removeStaged id)) := by
  unfold promote
  cases hcommitted : store.committed digest with
  | some directory =>
    constructor
    · intro h
      obtain ⟨existing, hread, h⟩ := Except.bind_eq_ok.1 h
      obtain ⟨bytes, hw, rfl⟩ := readVerifiedObjectMetadata_eq_ok.1 hread
      by_cases hm : measure P bytes = { digest := some digest, size }
      · obtain ⟨hd, hn⟩ := ObjectMetadata.mk.inj hm
        rw [if_pos hm] at h
        exact ⟨bytes, Option.some.inj hd, hn, Or.inl ⟨hw, (Except.ok.inj h).symm⟩⟩
      · rw [if_neg hm] at h
        cases h
    · rintro ⟨bytes, rfl, rfl, ⟨hw, rfl⟩ | ⟨hnone, -⟩⟩
      · simp only [hw, readVerifiedObjectMetadata_eq_ok.2 ⟨bytes, rfl, rfl⟩, bind, Except.bind]
        exact if_pos rfl
      · cases hnone
  | none =>
    cases hstaged : store.staged? id with
    | none => simp
    | some directory =>
      constructor
      · intro h
        obtain ⟨⟨bytes, metadata⟩, hread, h⟩ := Except.bind_eq_ok.1 h
        simp only at h
        split_ifs at h with hsize hdigest hlength hsha
        obtain rfl := Except.ok.inj h
        have hm : metadata = measure P bytes := by
          obtain ⟨d, n⟩ := metadata
          rw [not_not] at hsize hdigest hlength hsha
          simp only at hsize hdigest
          rw [hsize, hdigest, ← hlength, ← hsha]
          rfl
        exact ⟨bytes, not_not.1 hsha, not_not.1 hlength,
          Or.inr ⟨rfl, congrArg some (eq_written (hm ▸ hread)), rfl⟩⟩
      · rintro ⟨bytes, rfl, rfl, ⟨hw, -⟩ | ⟨-, hw, rfl⟩⟩
        · cases hw
        · obtain rfl := Option.some.inj hw
          simp [measure, bind, Except.bind, pure, Except.pure]

/-- What stands in the place of the committed object, and is not what was written there, stays in
the way of every promotion. -/
theorem promote_of_damaged (id : Uuid) {digest : Digest} (size : ℕ) {object : ObjectDirectory}
    (hobject : store.committed digest = some object) (hw : ¬IsWritten P (some object))
    (hreadable : object.failure = none) :
    ∃ message, store.promote P id digest size = .error (.store .committedConflict message) := by
  unfold promote
  rw [hobject]
  simp only
  cases hread : readVerifiedObjectMetadata P .committedConflict (some object) with
  | ok metadata =>
    obtain ⟨bytes, heq, -⟩ := readVerifiedObjectMetadata_eq_ok.1 hread
    exact absurd ⟨bytes, heq⟩ hw
  | error e =>
    rcases readVerifiedObjectMetadata_error hread with ⟨message, rfl⟩ | ⟨o, ho, hfailure⟩
    · exact ⟨message, rfl⟩
    · obtain rfl := Option.some.inj ho
      rw [hreadable] at hfailure
      cases hfailure

/-- Without a committed object, a promotion ends well, or fails because of what is staged, or on
metadata that is none. -/
theorem promote_cases (P : Platform) (id : Uuid) {digest : Digest} (size : ℕ)
    (hnone : store.committed digest = none) :
    (∃ bytes, P.sha256 bytes = digest ∧ bytes.length = size ∧
      store.staged? id = some (.written P bytes)) ∨
    (store.staged? id = none ∧
      store.promote P id digest size = .error (.store .notFound "staged object was not found")) ∨
    (∃ object code message, store.staged? id = some object ∧ object.failure = none ∧
      (code = .sizeMismatch ∨ code = .digestMismatch ∨ code = .stagingConflict) ∧
      store.promote P id digest size = .error (.store code message)) ∨
    ∃ object e, store.staged? id = some object ∧ object.failure = some e ∧
      store.promote P id digest size = .error e := by
  cases hpromote : store.promote P id digest size with
  | ok store' =>
    obtain ⟨bytes, hd, hn, ⟨hw, -⟩ | ⟨-, hw, -⟩⟩ := promote_eq_ok.1 hpromote
    · rw [hnone] at hw
      cases hw
    · exact Or.inl ⟨bytes, hd, hn, hw⟩
  | error e =>
    refine Or.inr ?_
    unfold promote at hpromote
    rw [hnone] at hpromote
    simp only at hpromote
    cases hstaged : store.staged? id with
    | none =>
      rw [hstaged] at hpromote
      exact Or.inl ⟨rfl, hpromote.symm⟩
    | some object =>
      rw [hstaged] at hpromote
      simp only at hpromote
      cases hread : readObjectMetadata .stagingConflict (some object) with
      | error e' =>
        rw [hread] at hpromote
        obtain rfl := Except.error.inj hpromote
        rcases readObjectMetadata_error hread with ⟨message, rfl⟩ | ⟨o, ho, hfailure⟩
        · cases hfailure : object.failure with
          | none => exact Or.inr (Or.inl ⟨object, _, message, rfl, hfailure, by simp, rfl⟩)
          | some e =>
            rw [readObjectMetadata_failure hfailure] at hread
            exact Or.inr (Or.inr ⟨object, e, rfl, hfailure,
              congrArg Except.error (Except.error.inj hread).symm⟩)
        · obtain rfl := Option.some.inj ho
          exact Or.inr (Or.inr ⟨object, e', rfl, hfailure, rfl⟩)
      | ok r =>
        have hfailure : object.failure = none := by
          cases hfailure : object.failure with
          | none => rfl
          | some e =>
            rw [readObjectMetadata_failure hfailure] at hread
            cases hread
        rw [hread] at hpromote
        simp only [bind, Except.bind] at hpromote
        refine Or.inr (Or.inl ?_)
        split_ifs at hpromote <;> cases hpromote <;>
          exact ⟨object, _, _, rfl, hfailure, by simp, rfl⟩

/-- How a promotion ends is decided by the two objects it reads. -/
theorem promote_congr {id : Uuid} {digest : Digest} (size : ℕ)
    (hcommitted : store'.committed digest = store.committed digest)
    (hstaged : store'.staged? id = store.staged? id) :
    (store'.promote P id digest size).map (fun _ => ()) =
      (store.promote P id digest size).map fun _ => () := by
  unfold promote
  rw [hcommitted, hstaged]
  cases store.committed digest with
  | some directory =>
    cases hread : readVerifiedObjectMetadata P .committedConflict (some directory) with
    | error e => simp only [hread, bind, Except.bind, Except.map]
    | ok existing => simp only [hread, bind, Except.bind]; split_ifs <;> rfl
  | none =>
    cases store.staged? id with
    | none => rfl
    | some directory =>
      cases hread : readObjectMetadata .stagingConflict (some directory) with
      | error e => simp only [hread, bind, Except.bind, Except.map]
      | ok r => simp only [hread, bind, Except.bind]; split_ifs <;> rfl

/-! ## Listing -/

/-- `StagedObject`, without its locator, which names its id. -/
structure StagedObject extends ObjectMetadata where
  stagingId : Uuid
  lastModifiedAt : Time
deriving DecidableEq, Repr

/-- The names under `staging`, sorted. -/
def sortedIds (store : BlobStore) : List Uuid :=
  (store.staged.map (·.id)).insertionSort (· ≤ ·)

/-- The names of one page. The slice starts at the first name that is greater than the cursor. -/
def pageIds (limit : ℕ) (cursor : Option Uuid) (store : BlobStore) : List Uuid :=
  Paging.page limit cursor store.sortedIds

/-- A listed object. -/
def listObject (P : Platform) (store : BlobStore) (id : Uuid) : Except BlobError StagedObject := do
  let metadata ← readVerifiedObjectMetadata P .notFound (store.staged? id)
  let entry ← match store.staged.find? (·.id = id) with
    | some entry => .ok entry
    | none => .error (.thrown "Error" "ENOENT")
  return { metadata with stagingId := id, lastModifiedAt := entry.modifiedAt }

/-- `nextCursor` of the page. -/
def nextCursor (limit : ℕ) (cursor : Option Uuid) (store : BlobStore) : Option Uuid :=
  Paging.next limit cursor store.sortedIds

/-- `listStaged`. -/
def listStaged (P : Platform) (limit : ℕ) (cursor : Option Uuid) (store : BlobStore) :
    Except BlobError (List StagedObject × Option Uuid) :=
  if limit < 1 ∨ 1000 < limit then
    .error (.thrown "RangeError" "limit must be an integer from 1 to 1000")
  else do
    let objects ← (store.pageIds limit cursor).mapM (store.listObject P)
    return (objects, store.nextCursor limit cursor)

end BlobStore

end FactoryFloor
