import Mathlib.Data.List.AList
import Mathlib.Data.List.Infix
import Mathlib.Data.List.Lex
import Mathlib.Data.Char
import FactoryFloor.Paging

/-!
# The two artifact stores

`FilesystemArtifactBlobStore` and the exported `S3ArtifactBlobStore`, with staging ids and digests
as the texts they are. The file system is modelled as the directories of the two roots. The object
service is a parameter : what the store relies on of it is the laws of `ObjectService`. Timestamps
and locators are left out, and a call runs to its end before the next one.

What both stores are for is `BlobMap` : bytes under staging ids, and bytes under digests.
-/

namespace FactoryFloor

namespace ArtifactStores

/-- A text of the interface : a staging id, a digest, a key. -/
abbrev Chars := List Char

/-! ## Errors -/

/-- The codes of `ArtifactBlobStoreError` that the calls throw. -/
inductive ErrorCode where
  | invalidStagingId | invalidDigest | invalidSize | notFound | digestMismatch | sizeMismatch
  | stagingConflict | committedConflict
deriving DecidableEq, Repr

/-- What a call throws. -/
inductive StoreError where
  | store (code : ErrorCode) (message : String)
  /-- A `RangeError`. -/
  | range (message : String)
deriving DecidableEq, Repr

/-- What a caller can tell an error by : its code, or none for a `RangeError`. -/
def StoreError.kind : StoreError → Option ErrorCode
  | .store code _ => some code
  | .range _ => none

/-- `if (!condition) throw new ArtifactBlobStoreError(message, code)`. -/
def require (condition : Bool) (code : ErrorCode) (message : String) : Except StoreError Unit :=
  if condition then .ok () else .error (.store code message)

/-! ## Identities -/

/-- `isValidStagingId`. -/
def isValidStagingId : Chars → Bool
  | [] => false
  | c :: rest => c.isAlphanum && decide (rest.length ≤ 127) &&
      rest.all (fun d => d.isAlphanum || d == '.' || d == '_' || d == '-') &&
      !decide ("..".toList <:+: c :: rest)

/-- `validateStagingId`. -/
def validateStagingId (stagingId : Chars) : Except StoreError Unit :=
  require (isValidStagingId stagingId) .invalidStagingId "invalid staging id"

/-- `/^[a-f0-9]{64}$/`. -/
def isDigest (digest : Chars) : Bool :=
  decide (digest.length = 64) &&
    digest.all fun c => c.isDigit || decide ('a' ≤ c) && decide (c ≤ 'f')

/-- `validateDigest`. -/
def validateDigest (digest : Chars) : Except StoreError Unit :=
  require (isDigest digest) .invalidDigest "invalid SHA-256 digest"

/-- `createHash('sha256')` with its digest in hexadecimal. -/
structure Sha256 where
  digest : List UInt8 → Chars
  hex : ∀ bytes, isDigest (digest bytes) = true

/-- `ObjectMetadata`. -/
structure ObjectMetadata where
  digest : Chars
  size : ℕ
deriving DecidableEq, Repr

/-- `DigestAccumulator` after the bytes. -/
def measure (H : Sha256) (bytes : List UInt8) : ObjectMetadata :=
  { digest := H.digest bytes, size := bytes.length }

/-- `size.toString()`. -/
def sizeText (size : ℕ) : Chars :=
  Nat.toDigits 10 size

/-- `BigInt(size)` of a text that matches `/^(0|[1-9][0-9]*)$/`. -/
def readSize (size : Chars) : Option ℕ :=
  if size ≠ [] ∧ size.all Char.isDigit = true ∧ (size = ['0'] ∨ size.head? ≠ some '0') then
    some (Nat.ofDigitChars 10 size 0)
  else none

/-! ## The checks of both stores -/

/-- `StageOptions`. -/
structure StageOptions where
  expectedDigest : Option Chars
  expectedSize : Option ℤ

/-- `StagingReceipt`, without its locator. -/
structure StagingReceipt extends ObjectMetadata where
  stagingId : Chars
deriving DecidableEq, Repr

/-- `CommittedReceipt`, without its locator. -/
structure CommittedReceipt where
  digest : Chars
  size : ℤ
deriving DecidableEq, Repr

/-- What `stage` checks before it reads the stream. -/
def validateStage (stagingId : Chars) (options : StageOptions) : Except StoreError Unit := do
  validateStagingId stagingId
  match options.expectedDigest with
  | some digest => validateDigest digest
  | none => .ok ()
  require (options.expectedSize.all (0 ≤ ·)) .invalidSize "expected size must be non-negative"

/-- What `stage` checks of the stream it has read. -/
def validateMeasured (options : StageOptions) (measured : ObjectMetadata) :
    Except StoreError Unit := do
  require (options.expectedSize.all fun size => size = (measured.size : ℤ)) .sizeMismatch
    "staged content size did not match expected size"
  require (options.expectedDigest.all fun digest => digest = measured.digest) .digestMismatch
    "staged content digest did not match expected digest"

/-- What `promote` checks of its arguments. -/
def validatePromotion (stagingId digest : Chars) (size : ℤ) : Except StoreError Unit := do
  validateStagingId stagingId
  validateDigest digest
  require (0 ≤ size) .invalidSize "size must be non-negative"

/-- What `promote` checks of the staged object, by its metadata and then by its content. -/
def validateStaged (what : String) (digest : Chars) (size : ℤ) (staged : ObjectMetadata) :
    Except StoreError Unit := do
  require (staged.size = size) .sizeMismatch
    ("staged " ++ what ++ " size does not match promotion size")
  require (staged.digest = digest) .digestMismatch
    ("staged " ++ what ++ " digest does not match promotion digest")

/-- The limit of `listStaged`. -/
def validateLimit (limit : ℤ) : Except StoreError Unit :=
  if limit < 1 ∨ 1000 < limit then .error (.range "limit must be an integer from 1 to 1000")
  else .ok ()

/-! ## Calls and their answers -/

/-- The calls of `ArtifactBlobStore`. -/
inductive Call where
  | stage (stagingId : Chars) (bytes : List UInt8) (options : StageOptions)
  | readStaged (stagingId : Chars)
  | promote (stagingId digest : Chars) (size : ℤ)
  | readCommitted (digest : Chars)
  | removeStaged (stagingId : Chars)
  | stagedExists (stagingId : Chars)
  | committedExists (digest : Chars)
  | listStaged (limit : ℤ) (cursor : Option Chars)

/-- The answers, where the cursor of a page is what the store tells a page by. -/
inductive Answer (τ : Type) where
  | staged (receipt : StagingReceipt)
  | promoted (receipt : CommittedReceipt)
  | bytes (read : List UInt8)
  | removed
  | exist (present : Bool)
  | page (objects : List StagingReceipt) (nextCursor : Option τ)

/-- The answer with another form of cursor. -/
def Answer.mapCursor {τ υ : Type} (f : τ → υ) : Answer τ → Answer υ
  | .staged receipt => .staged receipt
  | .promoted receipt => .promoted receipt
  | .bytes read => .bytes read
  | .removed => .removed
  | .exist present => .exist present
  | .page objects nextCursor => .page objects (nextCursor.map f)

/-- A call that reads leaves the store as it is. -/
def reading {ε σ α τ : Type} (store : σ) (f : α → Answer τ) (x : Except ε α) :
    Except ε (Answer τ × σ) :=
  x.map fun a => (f a, store)

/-- A call that writes leaves another store. -/
def writing {ε σ α τ : Type} (f : α → Answer τ) (x : Except ε (α × σ)) : Except ε (Answer τ × σ) :=
  x.map fun a => (f a.1, a.2)

/-! ## The file-system store -/

/-- `metadata.json`. -/
structure SidecarMetadata where
  digest : Chars
  size : Chars

/-- The directory of an object. It is renamed into its place when both files are written. -/
structure ObjectDirectory where
  data : List UInt8
  metadata : SidecarMetadata

/-- `readMetadata`. -/
def readMetadata (missingCode : ErrorCode) (data : SidecarMetadata) :
    Except StoreError ObjectMetadata := do
  validateDigest data.digest
  match readSize data.size with
  | some size => return { digest := data.digest, size }
  | none => .error (.store missingCode "invalid metadata size")

/-- `readObjectMetadata`, with the bytes beside it. -/
def readObjectMetadata (missingCode : ErrorCode) :
    Option ObjectDirectory → Except StoreError (List UInt8 × ObjectMetadata)
  | none => .error (.store missingCode "directory not found")
  | some directory => do
    let metadata ← readMetadata missingCode directory.metadata
    return (directory.data, metadata)

/-- `readVerifiedObjectMetadata`, with the bytes that are verified. -/
def readVerifiedObjectMetadata (H : Sha256) (missingCode : ErrorCode)
    (directory : Option ObjectDirectory) : Except StoreError (List UInt8 × ObjectMetadata) := do
  let (bytes, metadata) ← readObjectMetadata missingCode directory
  require (measure H bytes = metadata) missingCode "object content does not match its metadata"
  return (bytes, metadata)

/-- `validObjectExists`. -/
def validObjectExists (H : Sha256) (directory : Option ObjectDirectory) : Except StoreError Bool :=
  match readVerifiedObjectMetadata H .notFound directory with
  | .ok _ => .ok true
  | .error (.store .notFound _) => .ok false
  | .error e => .error e

/-- A temporary directory with `data` and, by `writeObjectMetadata`, `metadata.json`. -/
def temporaryDirectory (H : Sha256) (bytes : List UInt8) : ObjectDirectory :=
  { data := bytes,
    metadata := { digest := (measure H bytes).digest, size := sizeText (measure H bytes).size } }

/-- `publishObjectDirectory`. It is false for an `AlreadyPublishedError`. -/
def publishObjectDirectory (H : Sha256) (temporary : ObjectDirectory)
    (final : Option ObjectDirectory) (conflictCode : ErrorCode) (identity : ObjectMetadata) :
    Except StoreError Bool := do
  let (_, metadata) ← readVerifiedObjectMetadata H conflictCode (some temporary)
  require (metadata = identity) conflictCode
    "temporary object identity does not match requested content"
  match final with
  | none => return true
  | some directory => do
    -- The rename fails with `ENOTEMPTY`.
    let (_, existing) ← readVerifiedObjectMetadata H conflictCode (some directory)
    require (existing = identity) conflictCode "object identity conflicts with existing content"
    return false

/-- The directories of the store. -/
structure FilesystemStore where
  staging : AList fun _ : Chars => ObjectDirectory
  committed : AList fun _ : Chars => ObjectDirectory

namespace FilesystemStore

variable (H : Sha256) (store : FilesystemStore)

/-- `stage`. -/
def stage (stagingId : Chars) (bytes : List UInt8) (options : StageOptions) :
    Except StoreError (StagingReceipt × FilesystemStore) := do
  validateStage stagingId options
  let measured := measure H bytes
  validateMeasured options measured
  let temporary := temporaryDirectory H bytes
  let _ ← readMetadata .notFound temporary.metadata
  if ← publishObjectDirectory H temporary (store.staging.lookup stagingId) .stagingConflict measured
  then
    return ({ measured with stagingId },
      { store with staging := store.staging.insert stagingId temporary })
  else
    let (_, existing) ←
      readVerifiedObjectMetadata H .stagingConflict (store.staging.lookup stagingId)
    return ({ existing with stagingId }, store)

/-- `removeStaged`, of a valid id. -/
def withoutStaged (stagingId : Chars) : FilesystemStore :=
  { store with staging := store.staging.erase stagingId }

/-- `promote`. -/
def promote (stagingId digest : Chars) (size : ℤ) :
    Except StoreError (CommittedReceipt × FilesystemStore) := do
  validatePromotion stagingId digest size
  match store.committed.lookup digest with
  | some directory =>
    let (_, existing) ← readVerifiedObjectMetadata H .committedConflict (some directory)
    require (existing.size = size && existing.digest = digest) .committedConflict
      "committed object conflicts with requested digest or size"
    return ({ digest, size }, store.withoutStaged stagingId)
  | none =>
    match store.staging.lookup stagingId with
    | none => .error (.store .notFound "staged object was not found")
    | some directory =>
      let (bytes, stagedMetadata) ← readObjectMetadata .stagingConflict (some directory)
      validateStaged "metadata" digest size stagedMetadata
      let measured := measure H bytes
      validateStaged "content" digest size measured
      let temporary := temporaryDirectory H bytes
      let _ ← readMetadata .notFound temporary.metadata
      if ← publishObjectDirectory H temporary (store.committed.lookup digest) .committedConflict
          measured
      then
        return ({ digest, size },
          ({ store with committed := store.committed.insert digest temporary } :
            FilesystemStore).withoutStaged stagingId)
      else return ({ digest, size }, store.withoutStaged stagingId)

/-- `readStaged`. -/
def readStaged (stagingId : Chars) : Except StoreError (List UInt8) := do
  validateStagingId stagingId
  let (bytes, _) ← readVerifiedObjectMetadata H .notFound (store.staging.lookup stagingId)
  return bytes

/-- `readCommitted`. -/
def readCommitted (digest : Chars) : Except StoreError (List UInt8) := do
  validateDigest digest
  let (bytes, _) ← readVerifiedObjectMetadata H .notFound (store.committed.lookup digest)
  return bytes

/-- `removeStaged`. -/
def removeStaged (stagingId : Chars) : Except StoreError (Unit × FilesystemStore) := do
  validateStagingId stagingId
  return ((), store.withoutStaged stagingId)

/-- `stagedExists`. -/
def stagedExists (stagingId : Chars) : Except StoreError Bool := do
  validateStagingId stagingId
  validObjectExists H (store.staging.lookup stagingId)

/-- `committedExists`. -/
def committedExists (digest : Chars) : Except StoreError Bool := do
  validateDigest digest
  validObjectExists H (store.committed.lookup digest)

/-- `entries.filter((entry) => isValidStagingId(entry)).sort()`. -/
def ids : List Chars :=
  (store.staging.keys.filter isValidStagingId).insertionSort (· ≤ ·)

/-- The ids of a page. -/
def slice (limit : ℕ) (cursor : Option Chars) : List Chars :=
  let start := match cursor with
    | none => 0
    | some cursor => store.ids.findIdx (cursor < ·)
  (store.ids.drop start).take limit

/-- The receipt of a listed object. -/
def listObject (stagingId : Chars) : Except StoreError StagingReceipt := do
  let (_, metadata) ← readVerifiedObjectMetadata H .notFound (store.staging.lookup stagingId)
  return { metadata with stagingId }

/-- `listStaged`. -/
def listStaged (limit : ℤ) (cursor : Option Chars) :
    Except StoreError (List StagingReceipt × Option Chars) := do
  validateLimit limit
  let slice := store.slice limit.toNat cursor
  let objects ← slice.mapM (store.listObject H)
  return (objects, slice.getLast?.filter fun last => store.ids.any (last < ·))

/-- A call, with the store it leaves. -/
def run : Call → Except StoreError (Answer Chars × FilesystemStore)
  | .stage stagingId bytes options => writing .staged (store.stage H stagingId bytes options)
  | .readStaged stagingId => reading store .bytes (store.readStaged H stagingId)
  | .promote stagingId digest size => writing .promoted (store.promote H stagingId digest size)
  | .readCommitted digest => reading store .bytes (store.readCommitted H digest)
  | .removeStaged stagingId => writing (fun _ => .removed) (store.removeStaged stagingId)
  | .stagedExists stagingId => reading store .exist (store.stagedExists H stagingId)
  | .committedExists digest => reading store .exist (store.committedExists H digest)
  | .listStaged limit cursor =>
    reading store (fun page => .page page.1 page.2) (store.listStaged H limit cursor)

end FilesystemStore

/-! ## The object service -/

/-- An object of the service, with the metadata of its user. -/
structure S3Object where
  body : List UInt8
  metadata : List (String × Chars)

/-- What the store relies on of the object service. `put` is a put with `If-None-Match: *`, and
fails where the key is taken. A listing goes by the code points of the keys, and its token stands
for the last key of the page before. -/
structure ObjectService (σ τ : Type) where
  object? : σ → Chars → Option S3Object
  put : Chars → S3Object → σ → Option σ
  delete : Chars → σ → σ
  token : Chars → τ
  list : Chars → Option τ → ℕ → σ → List Chars × Option τ
  put_taken : ∀ s key object, (object? s key).isSome → put key object s = none
  put_free : ∀ s key object, object? s key = none → ∃ s', put key object s = some s' ∧
    ∀ k, object? s' k = if k = key then some object else object? s k
  object?_delete : ∀ s key k, object? (delete key s) k = if k = key then none else object? s k
  list_eq : ∀ s keyPrefix cursor limit, ∃ keys : List Chars, keys.Pairwise (· < ·) ∧
    (∀ k, k ∈ keys ↔ keyPrefix <+: k ∧ (object? s k).isSome) ∧
    list keyPrefix (cursor.map token) limit s =
      (Paging.page limit cursor keys, (Paging.next limit cursor keys).map token)

/-! ## The S3 store -/

/-- `Number.MAX_SAFE_INTEGER`. -/
def maxSafeInteger : ℕ := 9007199254740991

/-- `metadataFormat`. -/
def metadataFormat : Chars := "factory-floor-artifact-blob".toList

/-- `metadataVersion`. -/
def metadataVersion : Chars := "1".toList

/-- `objectMetadata`. -/
def objectMetadata (metadata : ObjectMetadata) : List (String × Chars) :=
  [("digest", metadata.digest), ("size", sizeText metadata.size), ("format", metadataFormat),
    ("version", metadataVersion)]

/-- `parseMetadata`. -/
def parseMetadata (metadata : List (String × Chars)) (code : ErrorCode) :
    Except StoreError ObjectMetadata :=
  let invalid := .error (.store code "object metadata is missing or invalid")
  if metadata.lookup "format" = some metadataFormat ∧
      metadata.lookup "version" = some metadataVersion then
    match metadata.lookup "digest", (metadata.lookup "size").bind readSize with
    | some digest, some size => if isDigest digest then .ok { digest, size } else invalid
    | _, _ => invalid
  else invalid

/-- `parseS3Metadata`. -/
def parseS3Metadata (metadata : List (String × Chars)) (missingCode : ErrorCode) :
    Except StoreError ObjectMetadata := do
  require (metadata.lookup "format" = some metadataFormat &&
      metadata.lookup "version" = some metadataVersion) missingCode
    "object metadata format is missing or unsupported"
  let digest := (metadata.lookup "digest").getD []
  validateDigest digest
  match (metadata.lookup "size").bind readSize with
  | some size => return { digest, size }
  | none => .error (.store missingCode "invalid metadata size")

/-- `contentLength`. -/
def contentLength (size : ℕ) : Except StoreError Unit :=
  require (size ≤ maxSafeInteger) .invalidSize "object is too large for a single S3 upload"

/-- `headObject` and `getReadable`. -/
def getObject (missingCode : ErrorCode) : Option S3Object → Except StoreError S3Object
  | some object => .ok object
  | none => .error (.store missingCode "object not found")

/-- `readVerifiedMetadata`, with the bytes that are verified. -/
def readVerifiedMetadata (H : Sha256) (missingCode : ErrorCode) (object : Option S3Object) :
    Except StoreError (List UInt8 × ObjectMetadata) := do
  let object ← getObject missingCode object
  let metadata ← parseS3Metadata object.metadata missingCode
  require (measure H object.body = metadata) missingCode
    "object content does not match its metadata"
  return (object.body, metadata)

/-- `validObjectExists`, with the code `not_found`. -/
def validS3ObjectExists (H : Sha256) (expectedDigest : Option Chars) (object : Option S3Object) :
    Except StoreError Bool :=
  match readVerifiedMetadata H .notFound object with
  | .ok (_, metadata) => .ok (expectedDigest.all (metadata.digest = ·))
  | .error (.store .notFound _) => .ok false
  | .error e => .error e

/-- What is put of some bytes. -/
def putBody (H : Sha256) (bytes : List UInt8) : S3Object :=
  { body := bytes, metadata := objectMetadata (measure H bytes) }

/-- `stagingKey`, under the prefix of the store. -/
def stagingKey (keyPrefix stagingId : Chars) : Chars :=
  keyPrefix ++ ("staging/".toList ++ stagingId)

/-- `committedKey`. -/
def committedKey (keyPrefix digest : Chars) : Chars :=
  keyPrefix ++ ("committed/sha256/".toList ++ (digest.take 2 ++ '/' :: digest))

namespace S3Store

variable {σ τ : Type} (H : Sha256) (S : ObjectService σ τ) (keyPrefix : Chars) (s : σ)

/-- `stage`. -/
def stage (stagingId : Chars) (bytes : List UInt8) (options : StageOptions) :
    Except StoreError (StagingReceipt × σ) := do
  validateStage stagingId options
  let measured := measure H bytes
  validateMeasured options measured
  contentLength measured.size
  let finalKey := stagingKey keyPrefix stagingId
  match S.put finalKey (putBody H bytes) s with
  | some s => return ({ measured with stagingId }, s)
  | none =>
    let (_, existing) ← readVerifiedMetadata H .stagingConflict (S.object? s finalKey)
    require (existing.digest = measured.digest && existing.size = measured.size) .stagingConflict
      "staging object conflicts with existing content"
    return ({ existing with stagingId }, s)

/-- `promote`. -/
def promote (stagingId digest : Chars) (size : ℤ) : Except StoreError (CommittedReceipt × σ) := do
  validatePromotion stagingId digest size
  let stagedKey := stagingKey keyPrefix stagingId
  let committedKey := committedKey keyPrefix digest
  if (S.object? s committedKey).isSome then
    let (_, existing) ← readVerifiedMetadata H .committedConflict (S.object? s committedKey)
    require (existing.digest = digest && existing.size = size) .committedConflict
      "committed object conflicts with requested digest or size"
    return ({ digest, size }, S.delete stagedKey s)
  else
    match S.object? s stagedKey with
    | none => .error (.store .notFound "staged object was not found")
    | some object =>
      let stagedMetadata ← parseMetadata object.metadata .stagingConflict
      validateStaged "metadata" digest size stagedMetadata
      let measured := measure H object.body
      validateStaged "content" digest size measured
      contentLength measured.size
      match S.put committedKey (putBody H object.body) s with
      | some s => return ({ digest, size }, S.delete stagedKey s)
      | none =>
        let (_, existing) ← readVerifiedMetadata H .committedConflict (S.object? s committedKey)
        require (existing.digest = digest && existing.size = size) .committedConflict
          "committed object conflicts with requested digest or size"
        return ({ digest, size }, S.delete stagedKey s)

/-- `readStaged`. -/
def readStaged (stagingId : Chars) : Except StoreError (List UInt8) := do
  validateStagingId stagingId
  let (bytes, _) ← readVerifiedMetadata H .notFound (S.object? s (stagingKey keyPrefix stagingId))
  return bytes

/-- `readCommitted`. -/
def readCommitted (digest : Chars) : Except StoreError (List UInt8) := do
  validateDigest digest
  let (bytes, _) ← readVerifiedMetadata H .notFound (S.object? s (committedKey keyPrefix digest))
  return bytes

/-- `removeStaged`. -/
def removeStaged (stagingId : Chars) : Except StoreError (Unit × σ) := do
  validateStagingId stagingId
  return ((), S.delete (stagingKey keyPrefix stagingId) s)

/-- `stagedExists`. -/
def stagedExists (stagingId : Chars) : Except StoreError Bool := do
  validateStagingId stagingId
  validS3ObjectExists H none (S.object? s (stagingKey keyPrefix stagingId))

/-- `committedExists`. -/
def committedExists (digest : Chars) : Except StoreError Bool := do
  validateDigest digest
  validS3ObjectExists H (some digest) (S.object? s (committedKey keyPrefix digest))

/-- The receipts of the listed keys. Keys of directories and of other names are passed over. -/
def listObjects : List Chars → Except StoreError (List StagingReceipt)
  | [] => .ok []
  | key :: keys => do
    let stagingId := key.drop (stagingKey keyPrefix []).length
    if key.getLast? = some '/' ∨ isValidStagingId stagingId = false then listObjects keys
    else
      let (_, metadata) ← readVerifiedMetadata H .notFound (S.object? s key)
      let objects ← listObjects keys
      return { metadata with stagingId } :: objects

/-- `listStaged`. -/
def listStaged (limit : ℤ) (cursor : Option τ) :
    Except StoreError (List StagingReceipt × Option τ) := do
  validateLimit limit
  let (keys, nextCursor) := S.list (stagingKey keyPrefix []) cursor limit.toNat s
  let objects ← listObjects H S keyPrefix s keys
  return (objects, nextCursor)

/-- The token of a staged object. -/
def cursorOf (stagingId : Chars) : τ :=
  S.token (stagingKey keyPrefix stagingId)

/-- A call, with the bucket it leaves. The cursor of a page is the token of its last object. -/
def run : Call → Except StoreError (Answer τ × σ)
  | .stage stagingId bytes options =>
    writing .staged (stage H S keyPrefix s stagingId bytes options)
  | .readStaged stagingId => reading s .bytes (readStaged H S keyPrefix s stagingId)
  | .promote stagingId digest size =>
    writing .promoted (promote H S keyPrefix s stagingId digest size)
  | .readCommitted digest => reading s .bytes (readCommitted H S keyPrefix s digest)
  | .removeStaged stagingId => writing (fun _ => .removed) (removeStaged S keyPrefix s stagingId)
  | .stagedExists stagingId => reading s .exist (stagedExists H S keyPrefix s stagingId)
  | .committedExists digest => reading s .exist (committedExists H S keyPrefix s digest)
  | .listStaged limit cursor =>
    reading s (fun page => .page page.1 page.2)
      (listStaged H S keyPrefix s limit (cursor.map (cursorOf S keyPrefix)))

end S3Store

end ArtifactStores

end FactoryFloor
