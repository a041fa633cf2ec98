import FactoryFloor.Artifacts
import FactoryFloor.Caches
import FactoryFloor.Execution

/-!
# The caches of validation

`artifact-validation-service.ts` with its two caches, which every service of the process shares : the
receipts of the rows that were validated, and the compiled validators of schemas. Both are bounded. A
receipt is a fingerprint of what was validated, and a row with the same fingerprint is accepted without
its bytes being read again.

The limit on the size of an artifact belongs to a service, and the fingerprint does not name it. A
service with a lower limit accepts a row for which one with a higher limit has left a receipt, and
without the receipt it would reject it. That is the only way for the caches to change a verdict :
in every run, a call accepts or rejects as it would with empty caches exactly when it is not answered
from the receipt of a row that is larger than its limit (`cached_verdict`).

In a run, rows are uploaded and updated, schemas are registered and retired, and staged bytes come and
go, while the bytes of a row that is staged stay as they are. Calls are made in transactions that may
have updated rows and may fail. What a transaction of a call writes is seen by the call and is not kept
by the run : where it is committed, the same updates follow as steps.
-/

namespace FactoryFloor

open Relational

/-! ## Receipts -/

/-- The texts of uuids and digests, as the database gives them. -/
structure ColumnTexts where
  uuid : Uuid → List Char
  uuid_injective : Function.Injective uuid
  uuid_colon : ∀ u, ':' ∉ uuid u
  digest : Digest → List Char
  digest_injective : Function.Injective digest
  digest_colon : ∀ d, ':' ∉ digest d

/-- `[row.id, row.staged_ref, ..].join(':')`. -/
def Fingerprint.text (T : ColumnTexts) (f : Fingerprint) : List Char :=
  [':'].intercalate [T.uuid f.id, T.uuid f.stagedRef, T.digest f.digest, Nat.toDigits 10 f.sizeBytes,
    T.uuid f.schemaId, f.mediaType.toList, T.digest f.schemaDigest]

/-- `VALIDATION_RECEIPT_LIMIT`. -/
def validationReceiptLimit : ℕ := 1024

/-- `COMPILED_VALIDATOR_LIMIT`. -/
def compiledValidatorLimit : ℕ := 1024

/-- `validationReceipts` and `compiledValidators`. A validator is the schema that it was compiled
from. -/
structure ValidationCaches where
  receipts : List (Uuid × List Char)
  compiled : List (Digest × Json)

namespace ValidationCaches

/-- The caches of a process that has not validated anything. -/
def empty : ValidationCaches := ⟨[], []⟩

/-- `rememberReceipt`. -/
def rememberReceipt (stagingRowId : Uuid) (fingerprint : List Char) (caches : ValidationCaches) :
    ValidationCaches :=
  { caches with
    receipts := Caches.put validationReceiptLimit stagingRowId fingerprint caches.receipts }

/-- `compiledValidator`. -/
def compiledValidator (P : Platform) (schemaDigest : Digest) (schema : Json)
    (caches : ValidationCaches) : Except ArtifactError Json × ValidationCaches :=
  match Caches.get schemaDigest caches.compiled with
  | some existing =>
    (.ok existing, { caches with compiled := Caches.touch schemaDigest existing caches.compiled })
  | none =>
    if P.compiles [] schema then
      (.ok schema, { caches with
        compiled := Caches.put compiledValidatorLimit schemaDigest schema caches.compiled })
    else (.error { code := "compile_failed", message := "schema does not compile" }, caches)

end ValidationCaches

/-! ## Validation -/

/-- A row of `artifact_schemas`, with the name and the version of its declaration. -/
structure SchemaRow extends ArtifactSchema where
  name : String
  version : String

/-- What a validation reads : the rows of two tables, and the bytes that are staged. -/
structure ValidationWorld where
  staging : List ArtifactStaging
  schemas : List SchemaRow
  bytes : Uuid → Option (List UInt8)

namespace ValidationWorld

variable (P : Platform) (T : ColumnTexts) (maxJsonBytes : ℕ) (stagingRowId : Uuid)
  (w : ValidationWorld)

/-- `readArtifactSchemaById`. -/
def schema? (id : Uuid) : Option ArtifactSchema :=
  (w.schemas.find? (·.id = id)).map (·.toArtifactSchema)

/-- `validateStagedArtifact`, before the caches have a part in it : the row and its schema. -/
def readRow : Except ArtifactError (ArtifactStaging × ArtifactSchema) :=
  match w.staging.find? (·.id = stagingRowId) with
  | none => .error { code := "staging_not_found", message := "staging row was not found" }
  | some row => do
    requireArtifact (row.status = .staged) "staging_not_active" "staging row is not active"
    match (w.schema? row.schemaId).filter (·.retiredAt.isNone) with
    | none =>
      .error { code := "schema_not_found",
               message := "artifact schema was not found or is retired" }
    | some schema =>
      requireArtifact (isJsonMediaType row.mediaType) "unsupported_media_type"
        "artifact media type is not JSON"
      return (row, schema)

/-- The staged bytes as a value. -/
def readInstance (row : ArtifactStaging) : Except ArtifactError Json :=
  match w.bytes row.stagedRef with
  | none => .error { code := "read_failed", message := "staged bytes cannot be read" }
  | some bytes => do
    requireArtifact (bytes.length ≤ maxJsonBytes) "artifact_too_large"
      "artifact exceeds maximum JSON validation size"
    requireArtifact (P.sha256 bytes = row.digest) "digest_mismatch"
      "staged bytes digest does not match database metadata"
    requireArtifact (bytes.length = row.sizeBytes) "size_mismatch"
      "staged bytes size does not match database metadata"
    match P.parseJson bytes with
    | none => .error { code := "invalid_json", message := "artifact is not valid JSON" }
    | some value => .ok value

/-- `validateStagedArtifact`, and the caches it leaves. -/
def validateStagedArtifact (caches : ValidationCaches) :
    Except ArtifactError Unit × ValidationCaches :=
  match w.readRow stagingRowId with
  | .error e => (.error e, caches)
  | .ok (row, schema) =>
    let text := (fingerprint row schema).text T
    if Caches.get row.id caches.receipts = some text then (.ok (), caches)
    else
      match w.readInstance P maxJsonBytes row with
      | .error e => (.error e, caches)
      | .ok value =>
        match caches.compiledValidator P schema.contentDigest schema.schema with
        | (.error e, caches) => (.error e, caches)
        | (.ok validate, caches) =>
          if P.validates validate value then (.ok (), caches.rememberReceipt row.id text)
          else (.error { code := "schema_validation_failed",
                         message := "artifact failed schema validation" }, caches)

end ValidationWorld

/-! ## Runs -/

/-- What is digested of a declared schema. -/
structure SchemaDeclaration where
  name : String
  version : String
  schema : Json
  description : Json

/-- The world with another row under an id. -/
def ValidationWorld.withRow (row : ArtifactStaging) (w : ValidationWorld) : ValidationWorld :=
  { w with staging := w.staging.map fun r => if r.id = row.id then row else r }

/-- An update of a row. No statement changes its reference, and none makes it staged again. -/
inductive RowUpdate (w : ValidationWorld) : ValidationWorld → Prop
  | mk (row : ArtifactStaging)
    (h : ∀ r ∈ w.staging, r.id = row.id →
      r.stagedRef = row.stagedRef ∧ (row.status = .staged → r.status = .staged)) :
    RowUpdate w (w.withRow row)

section Runs

variable (P : Platform) (T : ColumnTexts) (digest : SchemaDeclaration → Digest)
  (declarations : Set SchemaDeclaration)

/-- What happens between the calls. -/
inductive WorldStep (w : ValidationWorld) : ValidationWorld → Prop
  | update {w' : ValidationWorld} (h : RowUpdate w w') : WorldStep w w'
  /-- A row is inserted under a new id. -/
  | upload (row : ArtifactStaging) (h : ∀ r ∈ w.staging, r.id ≠ row.id) :
    WorldStep w { w with staging := w.staging ++ [row] }
  /-- Bytes are staged, promoted or removed. Those of a staged row do not change. -/
  | stage (bytes : Uuid → Option (List UInt8))
    (h : ∀ r ∈ w.staging, r.status = .staged → bytes r.stagedRef = w.bytes r.stagedRef) :
    WorldStep w { w with bytes }
  /-- `registerArtifactSchema`, under a name and version that are not registered. -/
  | register (d : SchemaDeclaration) (id : Uuid) (hd : d ∈ declarations)
    (h : ∀ s ∈ w.schemas, ¬(s.name = d.name ∧ s.version = d.version)) :
    WorldStep w { w with
      schemas := w.schemas ++ [⟨⟨id, digest d, d.schema, none⟩, d.name, d.version⟩] }
  | retire (id : Uuid) (now : Time) :
    WorldStep w { w with
      schemas := w.schemas.map fun s => if s.id = id then { s with retiredAt := some now } else s }

/-- The rows are keyed, and every schema was registered. -/
structure ValidationWorld.Registered (w : ValidationWorld) : Prop where
  keyed : Keyed (·.id) w.staging
  named : Keyed (fun s : SchemaRow => (s.name, s.version)) w.schemas
  declared : ∀ s ∈ w.schemas, ∃ d ∈ declarations,
    s.contentDigest = digest d ∧ s.name = d.name ∧ s.version = d.version

/-- A call of a service with a limit, with what its transaction sees and the caches it finds. -/
structure ValidationCall where
  maxJsonBytes : ℕ
  stagingRowId : Uuid
  world : ValidationWorld
  caches : ValidationCaches

/-- The world and the caches after a run, and the calls that were made. -/
inductive ValidationRun : ValidationWorld → ValidationCaches → List ValidationCall → Prop
  | start {w : ValidationWorld} (h : w.Registered digest declarations) :
    ValidationRun w .empty []
  | step {w w' : ValidationWorld} {caches : ValidationCaches} {calls : List ValidationCall}
    (h : ValidationRun w caches calls) (hstep : WorldStep digest declarations w w') :
    ValidationRun w' caches calls
  | call {w v : ValidationWorld} {caches : ValidationCaches} {calls : List ValidationCall}
    (h : ValidationRun w caches calls) (hview : Relation.ReflTransGen RowUpdate w v)
    (maxJsonBytes : ℕ) (stagingRowId : Uuid) :
    ValidationRun w (v.validateStagedArtifact P T maxJsonBytes stagingRowId caches).2
      (calls ++ [⟨maxJsonBytes, stagingRowId, v, caches⟩])

end Runs

namespace ValidationCall

variable (P : Platform) (T : ColumnTexts) (call : ValidationCall)

/-- Whether a call accepts, and with which error it rejects. -/
def verdict : Except ArtifactError Unit :=
  (call.world.validateStagedArtifact P T call.maxJsonBytes call.stagingRowId call.caches).1

/-- The verdict of the same call with empty caches. -/
def verdictWithoutCaches : Except ArtifactError Unit :=
  (call.world.validateStagedArtifact P T call.maxJsonBytes call.stagingRowId .empty).1

/-- A row that the caches have a receipt of is not larger than the limit of the call. -/
def WithinLimit : Prop :=
  ∀ row schema, call.world.readRow call.stagingRowId = .ok (row, schema) →
    Caches.get row.id call.caches.receipts = some ((fingerprint row schema).text T) →
    row.sizeBytes ≤ call.maxJsonBytes

end ValidationCall

/-! ## Fingerprints -/

section Fingerprints

variable {T : ColumnTexts}

theorem colon_notMem_toDigits (n : ℕ) : ':' ∉ Nat.toDigits 10 n := fun h => by
  have hdigit := Nat.isDigit_of_mem_toDigits (by decide) (by decide) h
  exact absurd hdigit (by decide)

theorem toDigits_injective : Function.Injective (Nat.toDigits 10) := fun m n h => by
  rw [← Nat.ofDigitChars_toDigits (b := 10) (n := m) (by decide) (by decide), h,
    Nat.ofDigitChars_toDigits (by decide) (by decide)]

/-- A text without colons is told from what follows the next colon. -/
theorem append_colon_inj {s t x y : List Char} (hs : ':' ∉ s) (ht : ':' ∉ t)
    (h : s ++ ':' :: x = t ++ ':' :: y) : s = t ∧ x = y := by
  induction s generalizing t with
  | nil =>
    cases t with
    | nil => exact ⟨rfl, (List.cons.inj h).2⟩
    | cons c t =>
      obtain rfl := (List.cons.inj h).1
      exact absurd List.mem_cons_self ht
  | cons c s ih =>
    cases t with
    | nil =>
      obtain rfl := (List.cons.inj h).1
      exact absurd List.mem_cons_self hs
    | cons d t =>
      obtain ⟨rfl, hrest⟩ := List.cons.inj h
      obtain ⟨rfl, rfl⟩ := ih (fun hc => hs (List.mem_cons_of_mem _ hc))
        (fun hc => ht (List.mem_cons_of_mem _ hc)) hrest
      exact ⟨rfl, rfl⟩

/-- The only field that may have colons is the media type, so a text names one fingerprint. -/
theorem Fingerprint.text_injective : Function.Injective (Fingerprint.text T) := by
  intro f g h
  obtain ⟨fid, fref, fdigest, fsize, fschema, fmedia, fsd⟩ := f
  obtain ⟨gid, gref, gdigest, gsize, gschema, gmedia, gsd⟩ := g
  simp only [Fingerprint.text, List.intercalate, List.intersperse, List.flatten_cons,
    List.flatten_nil, List.append_nil, List.singleton_append] at h
  obtain ⟨hid, h⟩ := append_colon_inj (T.uuid_colon _) (T.uuid_colon _) h
  obtain ⟨href, h⟩ := append_colon_inj (T.uuid_colon _) (T.uuid_colon _) h
  obtain ⟨hdigest, h⟩ := append_colon_inj (T.digest_colon _) (T.digest_colon _) h
  obtain ⟨hsize, h⟩ := append_colon_inj (colon_notMem_toDigits _) (colon_notMem_toDigits _) h
  obtain ⟨hschema, h⟩ := append_colon_inj (T.uuid_colon _) (T.uuid_colon _) h
  -- The digest of the schema is what follows the last colon.
  have hreverse := congrArg List.reverse h
  simp only [List.reverse_append, List.reverse_cons, List.append_assoc, List.singleton_append]
    at hreverse
  obtain ⟨hsd, hmedia⟩ := append_colon_inj (by simpa using T.digest_colon fsd)
    (by simpa using T.digest_colon gsd) hreverse
  obtain rfl := T.uuid_injective hid
  obtain rfl := T.uuid_injective href
  obtain rfl := T.digest_injective hdigest
  obtain rfl := toDigits_injective hsize
  obtain rfl := T.uuid_injective hschema
  obtain rfl := String.ext (List.reverse_injective hmedia)
  obtain rfl := T.digest_injective (List.reverse_injective hsd)
  rfl

end Fingerprints

/-! ## What the caches hold -/

section Sound

variable {P : Platform} {T : ColumnTexts} {digest : SchemaDeclaration → Digest}
  {declarations : Set SchemaDeclaration} {w w' v : ValidationWorld} {caches : ValidationCaches}

/-- The bytes that a fingerprint names pass every check but that of a limit. -/
def AcceptedPrint (P : Platform) (w : ValidationWorld) (f : Fingerprint) : Prop :=
  ∃ bytes value schema, w.bytes f.stagedRef = some bytes ∧ P.sha256 bytes = f.digest ∧
    bytes.length = f.sizeBytes ∧ P.parseJson bytes = some value ∧ schema ∈ w.schemas ∧
    schema.contentDigest = f.schemaDigest ∧ P.compiles [] schema.schema = true ∧
    P.validates schema.schema value = true

/-- A receipt : its row is there, and while it is staged its bytes are those that were accepted. -/
def IsReceipt (P : Platform) (T : ColumnTexts) (w : ValidationWorld) (e : Uuid × List Char) : Prop :=
  ∃ f : Fingerprint, e = (f.id, f.text T) ∧ ∃ row ∈ w.staging, row.id = f.id ∧
    row.stagedRef = f.stagedRef ∧ (row.status = .staged → AcceptedPrint P w f)

/-- A compiled validator is that of a registered schema. -/
def IsValidator (P : Platform) (w : ValidationWorld) (e : Digest × Json) : Prop :=
  ∃ schema ∈ w.schemas, schema.contentDigest = e.1 ∧ schema.schema = e.2 ∧ P.compiles [] e.2 = true

/-- What holds of the caches in every run. -/
structure ValidationCaches.Sound (P : Platform) (T : ColumnTexts) (w : ValidationWorld)
    (caches : ValidationCaches) : Prop where
  receipts : ∀ e ∈ caches.receipts, IsReceipt P T w e
  compiled : ∀ e ∈ caches.compiled, IsValidator P w e

theorem ValidationCaches.sound_empty : (ValidationCaches.empty).Sound P T w :=
  ⟨by simp [ValidationCaches.empty], by simp [ValidationCaches.empty]⟩

/-- A fingerprint stays accepted while its bytes and the schemas stay. -/
theorem AcceptedPrint.mono {f : Fingerprint} (h : AcceptedPrint P w f)
    (hbytes : w'.bytes f.stagedRef = w.bytes f.stagedRef)
    (hschemas : ∀ s ∈ w.schemas, ∃ s' ∈ w'.schemas, s'.contentDigest = s.contentDigest ∧
      s'.schema = s.schema) : AcceptedPrint P w' f := by
  obtain ⟨bytes, value, schema, hread, hdigest, hsize, hvalue, hschema, hsd, hcompiles, hvalid⟩ := h
  obtain ⟨schema', hmem, hdigest', hsame⟩ := hschemas schema hschema
  exact ⟨bytes, value, schema', hbytes.trans hread, hdigest, hsize, hvalue, hmem,
    hdigest'.trans hsd, by rw [hsame]; exact hcompiles, by rw [hsame]; exact hvalid⟩

/-- What a step keeps, as the caches see it. -/
structure Keeps (w w' : ValidationWorld) : Prop where
  rows : ∀ r ∈ w.staging, ∃ r' ∈ w'.staging, r'.id = r.id ∧ r'.stagedRef = r.stagedRef ∧
    (r'.status = .staged → r.status = .staged)
  bytes : ∀ r ∈ w.staging, r.status = .staged → w'.bytes r.stagedRef = w.bytes r.stagedRef
  schemas : ∀ s ∈ w.schemas, ∃ s' ∈ w'.schemas, s'.contentDigest = s.contentDigest ∧
    s'.schema = s.schema

/-- Sound caches stay so. -/
theorem ValidationCaches.Sound.keeps (h : caches.Sound P T w) (hkeeps : Keeps w w') :
    caches.Sound P T w' := by
  constructor
  · intro e he
    obtain ⟨f, rfl, row, hrow, hid, href, haccepted⟩ := h.receipts e he
    obtain ⟨row', hrow', hid', href', hstaged⟩ := hkeeps.rows row hrow
    refine ⟨f, rfl, row', hrow', hid'.trans hid, href'.trans href, fun hstatus => ?_⟩
    exact (haccepted (hstaged hstatus)).mono (href ▸ hkeeps.bytes row hrow (hstaged hstatus))
      hkeeps.schemas
  · intro e he
    obtain ⟨schema, hschema, hdigest, hsame, hcompiles⟩ := h.compiled e he
    obtain ⟨schema', hschema', hdigest', hsame'⟩ := hkeeps.schemas schema hschema
    exact ⟨schema', hschema', hdigest'.trans hdigest, hsame'.trans hsame, hcompiles⟩

theorem RowUpdate.keeps (h : RowUpdate w w') : Keeps w w' := by
  obtain ⟨row, hrow⟩ := h
  refine ⟨fun r hr => ⟨_, List.mem_map_of_mem hr, ?_⟩, fun _ _ _ => rfl, fun s hs => ⟨s, hs, rfl, rfl⟩⟩
  by_cases hid : r.id = row.id
  · obtain ⟨href, hstaged⟩ := hrow r hr hid
    rw [if_pos hid]
    exact ⟨hid.symm, href.symm, hstaged⟩
  · rw [if_neg hid]
    exact ⟨rfl, rfl, id⟩

theorem WorldStep.keeps (h : WorldStep digest declarations w w') : Keeps w w' := by
  have hrows : ∀ r ∈ w.staging, ∃ r' ∈ w.staging, r'.id = r.id ∧ r'.stagedRef = r.stagedRef ∧
      (r'.status = .staged → r.status = .staged) := fun r hr => ⟨r, hr, rfl, rfl, id⟩
  have hschemas : ∀ s ∈ w.schemas, ∃ s' ∈ w.schemas, s'.contentDigest = s.contentDigest ∧
      s'.schema = s.schema := fun s hs => ⟨s, hs, rfl, rfl⟩
  cases h with
  | update h => exact h.keeps
  | upload row _ =>
    refine ⟨fun r hr => ?_, fun _ _ _ => rfl, hschemas⟩
    exact ⟨r, List.mem_append_left _ hr, rfl, rfl, id⟩
  | stage bytes h => exact ⟨hrows, h, hschemas⟩
  | register d id _ _ =>
    refine ⟨hrows, fun _ _ _ => rfl, fun s hs => ?_⟩
    exact ⟨s, List.mem_append_left _ hs, rfl, rfl⟩
  | retire id now =>
    refine ⟨hrows, fun _ _ _ => rfl, fun s hs => ⟨_, List.mem_map_of_mem hs, ?_⟩⟩
    split_ifs <;> exact ⟨rfl, rfl⟩

theorem RowUpdate.registered (h : RowUpdate w w') (hw : w.Registered digest declarations) :
    w'.Registered digest declarations := by
  obtain ⟨row, hrow⟩ := h
  refine ⟨?_, hw.named, hw.declared⟩
  have hids : (w.withRow row).staging.map (·.id) = w.staging.map (·.id) := by
    rw [ValidationWorld.withRow, List.map_map]
    refine List.map_congr_left fun r _ => ?_
    by_cases hid : r.id = row.id
    · simp [hid]
    · simp [hid]
  rw [Keyed, hids]
  exact hw.keyed

theorem WorldStep.registered (h : WorldStep digest declarations w w')
    (hw : w.Registered digest declarations) : w'.Registered digest declarations := by
  cases h with
  | update h => exact h.registered hw
  | upload row h => exact ⟨hw.keyed.append h, hw.named, hw.declared⟩
  | stage bytes _ => exact ⟨hw.keyed, hw.named, hw.declared⟩
  | register d id hd h =>
    refine ⟨hw.keyed, hw.named.append fun s hs heq => h s hs (Prod.mk.inj heq), ?_⟩
    intro s hs
    rcases List.mem_append.1 hs with hs | hs
    · exact hw.declared s hs
    · obtain rfl := List.mem_singleton.1 hs
      exact ⟨d, hd, rfl, rfl, rfl⟩
  | retire id now =>
    refine ⟨hw.keyed, ?_, fun s hs => ?_⟩
    · have hnames : (w.schemas.map fun s => if s.id = id then { s with retiredAt := some now }
          else s).map (fun s => (s.name, s.version)) = w.schemas.map fun s => (s.name, s.version) := by
        rw [List.map_map]
        refine List.map_congr_left fun s _ => ?_
        rw [Function.comp_apply]
        split_ifs <;> rfl
      rw [Keyed, hnames]
      exact hw.named
    · obtain ⟨s, hmem, rfl⟩ := List.mem_map.1 hs
      obtain ⟨d, hd, hdigest, hname, hversion⟩ := hw.declared s hmem
      refine ⟨d, hd, ?_⟩
      split_ifs <;> exact ⟨hdigest, hname, hversion⟩

/-- Declarations with one digest have one name and version. -/
def Distinguishes (digest : SchemaDeclaration → Digest) (declarations : Set SchemaDeclaration) :
    Prop :=
  ∀ d ∈ declarations, ∀ d' ∈ declarations, digest d = digest d' →
    d.name = d'.name ∧ d.version = d'.version

/-- A digest names one registered schema. -/
theorem ValidationWorld.Registered.eq_of_digest (hw : w.Registered digest declarations)
    (hdigest : Distinguishes digest declarations) {s s' : SchemaRow} (hs : s ∈ w.schemas)
    (hs' : s' ∈ w.schemas) (h : s.contentDigest = s'.contentDigest) : s = s' := by
  obtain ⟨d, hd, hdd, hname, hversion⟩ := hw.declared s hs
  obtain ⟨d', hd', hdd', hname', hversion'⟩ := hw.declared s' hs'
  obtain ⟨hn, hv⟩ := hdigest d hd d' hd' (hdd.symm.trans (h.trans hdd'))
  refine hw.named.eq hs hs' (Prod.ext ?_ ?_)
  · exact hname.trans (hn.trans hname'.symm)
  · exact hversion.trans (hv.trans hversion'.symm)

/-! ## One call -/

theorem ValidationWorld.readRow_eq_ok {id : Uuid} {row : ArtifactStaging} {schema : ArtifactSchema}
    (h : w.readRow id = .ok (row, schema)) : row ∈ w.staging ∧ row.id = id ∧
      row.status = .staged ∧ ∃ s ∈ w.schemas, s.toArtifactSchema = schema := by
  unfold readRow at h
  cases hfound : w.staging.find? (·.id = id) with
  | none =>
    rw [hfound] at h
    cases h
  | some r =>
    rw [hfound] at h
    obtain ⟨⟨⟩, hstatus, h⟩ := Except.bind_eq_ok.1 h
    cases hschema : (w.schema? r.schemaId).filter (·.retiredAt.isNone) with
    | none =>
      rw [hschema] at h
      cases h
    | some s =>
      rw [hschema] at h
      obtain ⟨⟨⟩, -, h⟩ := Except.bind_eq_ok.1 h
      obtain ⟨rfl, rfl⟩ := Prod.mk.inj (Except.ok.inj h)
      obtain ⟨s', hs', rfl⟩ := Option.map_eq_some_iff.1 (Option.eq_some_of_filter_eq_some hschema)
      exact ⟨List.mem_of_find?_eq_some hfound, by simpa using List.find?_some hfound,
        by simpa [requireArtifact_eq_ok] using hstatus, s', List.mem_of_find?_eq_some hs', rfl⟩

theorem ValidationWorld.readInstance_eq_ok {limit : ℕ} {row : ArtifactStaging} {value : Json} :
    w.readInstance P limit row = .ok value ↔ ∃ bytes, w.bytes row.stagedRef = some bytes ∧
      bytes.length ≤ limit ∧ P.sha256 bytes = row.digest ∧ bytes.length = row.sizeBytes ∧
      P.parseJson bytes = some value := by
  unfold readInstance
  cases hread : w.bytes row.stagedRef with
  | none => simp
  | some bytes =>
    dsimp only
    simp only [Except.bind_eq_ok, requireArtifact_eq_ok, decide_eq_true_eq, Option.some.injEq,
      exists_eq_left']
    cases P.parseJson bytes <;> simp [exists_const]

/-- A compiled validator is that of the schema, whether it was cached or not. -/
theorem compiledValidator_fst (hw : w.Registered digest declarations)
    (hdigest : Distinguishes digest declarations) (h : caches.Sound P T w) {schema : SchemaRow}
    (hschema : schema ∈ w.schemas) :
    (caches.compiledValidator P schema.contentDigest schema.schema).1 =
      (ValidationCaches.empty.compiledValidator P schema.contentDigest schema.schema).1 := by
  unfold ValidationCaches.compiledValidator
  cases hget : Caches.get schema.contentDigest caches.compiled with
  | none =>
    dsimp only [ValidationCaches.empty, Caches.get_nil]
    split_ifs <;> rfl
  | some existing =>
    obtain ⟨s, hs, hsd, hsame, hcompiles⟩ := h.compiled _ (Caches.mem_of_get hget)
    obtain rfl := hw.eq_of_digest hdigest hs hschema hsd
    obtain rfl : s.schema = existing := hsame
    dsimp only [ValidationCaches.empty, Caches.get_nil]
    rw [if_pos hcompiles]

/-- What a lookup leaves in the caches. -/
theorem compiledValidator_snd {schema : SchemaRow} (hschema : schema ∈ w.schemas) :
    (caches.compiledValidator P schema.contentDigest schema.schema).2.receipts = caches.receipts ∧
      ∀ e ∈ (caches.compiledValidator P schema.contentDigest schema.schema).2.compiled,
        e ∈ caches.compiled ∨ IsValidator P w e := by
  unfold ValidationCaches.compiledValidator
  cases hget : Caches.get schema.contentDigest caches.compiled with
  | some existing =>
    refine ⟨rfl, fun e he => ?_⟩
    rcases Caches.mem_touch he with rfl | he
    · exact Or.inl (Caches.mem_of_get hget)
    · exact Or.inl he
  | none =>
    dsimp only
    split_ifs with hcompiles
    · refine ⟨rfl, fun e he => ?_⟩
      rcases Caches.mem_put he with rfl | he
      · exact Or.inr ⟨schema, hschema, rfl, rfl, hcompiles⟩
      · exact Or.inl he
    · exact ⟨rfl, fun e he => Or.inl he⟩

section Call

variable {limit : ℕ} {id : Uuid} {row : ArtifactStaging} {schema : ArtifactSchema}

/-- Without a receipt, the bytes are read and the schema's validator is run on them. -/
theorem verdict_of_miss (hrow : w.readRow id = .ok (row, schema))
    (hmiss : Caches.get row.id caches.receipts ≠ some ((fingerprint row schema).text T)) :
    (w.validateStagedArtifact P T limit id caches).1 = (do
      let value ← w.readInstance P limit row
      let validate ← (caches.compiledValidator P schema.contentDigest schema.schema).1
      requireArtifact (P.validates validate value) "schema_validation_failed"
        "artifact failed schema validation") := by
  unfold ValidationWorld.validateStagedArtifact
  rw [hrow]
  dsimp only
  rw [if_neg hmiss]
  cases w.readInstance P limit row with
  | error e => rfl
  | ok value =>
    obtain ⟨compiled, caches'⟩ := caches.compiledValidator P schema.contentDigest schema.schema
    cases compiled with
    | error e => rfl
    | ok validate =>
      cases hvalid : P.validates validate value <;> simp [hvalid, requireArtifact, bind, Except.bind]

theorem verdict_of_hit (hrow : w.readRow id = .ok (row, schema))
    (hhit : Caches.get row.id caches.receipts = some ((fingerprint row schema).text T)) :
    w.validateStagedArtifact P T limit id caches = (.ok (), caches) := by
  unfold ValidationWorld.validateStagedArtifact
  rw [hrow]
  dsimp only
  rw [if_pos hhit]

theorem verdict_of_error {e : ArtifactError} (hrow : w.readRow id = .error e) :
    w.validateStagedArtifact P T limit id caches = (.error e, caches) := by
  unfold ValidationWorld.validateStagedArtifact
  rw [hrow]

/-- With empty caches, a staged row is accepted when its fingerprint is and it is within the limit. -/
theorem verdict_empty_eq_ok (hrow : w.readRow id = .ok (row, schema)) :
    (w.validateStagedArtifact P T limit id .empty).1 = .ok () ↔
      row.sizeBytes ≤ limit ∧ ∃ bytes value, w.bytes row.stagedRef = some bytes ∧
        P.sha256 bytes = row.digest ∧ bytes.length = row.sizeBytes ∧
        P.parseJson bytes = some value ∧ P.compiles [] schema.schema = true ∧
        P.validates schema.schema value = true := by
  rw [verdict_of_miss hrow (by simp [ValidationCaches.empty])]
  have hcompiled : (ValidationCaches.empty.compiledValidator P schema.contentDigest schema.schema).1 =
      if P.compiles [] schema.schema then .ok schema.schema
      else .error { code := "compile_failed", message := "schema does not compile" } := by
    unfold ValidationCaches.compiledValidator
    dsimp only [ValidationCaches.empty, Caches.get_nil]
    split_ifs <;> rfl
  rw [hcompiled]
  simp only [Except.bind_eq_ok, ValidationWorld.readInstance_eq_ok, requireArtifact_eq_ok]
  constructor
  · rintro ⟨value, ⟨bytes, hread, hlimit, hdigest, hsize, hvalue⟩, validate, hcompile, hvalid⟩
    split_ifs at hcompile with hcompiles
    obtain rfl := Except.ok.inj hcompile
    exact ⟨hsize ▸ hlimit, bytes, value, hread, hdigest, hsize, hvalue, hcompiles, hvalid⟩
  · rintro ⟨hlimit, bytes, value, hread, hdigest, hsize, hvalue, hcompiles, hvalid⟩
    exact ⟨value, ⟨bytes, hread, hsize ▸ hlimit, hdigest, hsize, hvalue⟩, schema.schema,
      if_pos hcompiles, hvalid⟩

/-- Without a receipt, a call has the verdict that it has with empty caches. -/
theorem verdict_of_miss_eq (hw : w.Registered digest declarations)
    (hdigest : Distinguishes digest declarations) (h : caches.Sound P T w)
    (hrow : w.readRow id = .ok (row, schema))
    (hmiss : Caches.get row.id caches.receipts ≠ some ((fingerprint row schema).text T)) :
    (w.validateStagedArtifact P T limit id caches).1 =
      (w.validateStagedArtifact P T limit id .empty).1 := by
  obtain ⟨-, -, -, s, hs, rfl⟩ := ValidationWorld.readRow_eq_ok hrow
  rw [verdict_of_miss hrow hmiss, verdict_of_miss hrow (by simp [ValidationCaches.empty]),
    compiledValidator_fst hw hdigest h hs]

/-- A fingerprint with a receipt is accepted. -/
theorem accepted_of_hit (hw : w.Registered digest declarations) (h : caches.Sound P T w)
    (hrow : w.readRow id = .ok (row, schema))
    (hhit : Caches.get row.id caches.receipts = some ((fingerprint row schema).text T)) :
    AcceptedPrint P w (fingerprint row schema) := by
  obtain ⟨hmem, -, hstatus, -⟩ := ValidationWorld.readRow_eq_ok hrow
  obtain ⟨f, hf, r, hr, hid, -, haccepted⟩ := h.receipts _ (Caches.mem_of_get hhit)
  obtain ⟨hfid, htext⟩ := Prod.mk.inj hf
  obtain rfl := Fingerprint.text_injective htext
  obtain rfl : r = row := hw.keyed.eq hr hmem hid
  exact haccepted hstatus

/-- A call has the verdict that it has with empty caches, exactly when it is not answered from the
receipt of a row that is larger than its limit. -/
theorem verdict_iff (hw : w.Registered digest declarations)
    (hdigest : Distinguishes digest declarations) (h : caches.Sound P T w) :
    (w.validateStagedArtifact P T limit id caches).1 =
        (w.validateStagedArtifact P T limit id .empty).1 ↔
      ∀ row schema, w.readRow id = .ok (row, schema) →
        Caches.get row.id caches.receipts = some ((fingerprint row schema).text T) →
        row.sizeBytes ≤ limit := by
  cases hrow : w.readRow id with
  | error e =>
    rw [verdict_of_error hrow, verdict_of_error hrow]
    exact iff_of_true rfl fun row schema h => by cases h
  | ok r =>
    obtain ⟨row, schema⟩ := r
    have hone : (∀ row' schema', (.ok (row, schema) : Except ArtifactError _) = .ok (row', schema') →
        Caches.get row'.id caches.receipts = some ((fingerprint row' schema').text T) →
        row'.sizeBytes ≤ limit) ↔
        (Caches.get row.id caches.receipts = some ((fingerprint row schema).text T) →
          row.sizeBytes ≤ limit) := by
      refine ⟨fun hall => hall row schema rfl, fun hrow row' schema' heq => ?_⟩
      obtain ⟨rfl, rfl⟩ := Prod.mk.inj (Except.ok.inj heq)
      exact hrow
    rw [hone]
    by_cases hhit : Caches.get row.id caches.receipts = some ((fingerprint row schema).text T)
    · rw [verdict_of_hit hrow hhit, eq_comm, verdict_empty_eq_ok hrow]
      obtain ⟨bytes, value, s, hread, hsha, hsize, hvalue, hs, hsd, hcompiles, hvalid⟩ :=
        accepted_of_hit hw h hrow hhit
      obtain ⟨-, -, -, s', hs', rfl⟩ := ValidationWorld.readRow_eq_ok hrow
      obtain rfl := hw.eq_of_digest hdigest hs hs' hsd
      exact ⟨fun hok _ => hok.1, fun hlimit =>
        ⟨hlimit hhit, bytes, value, hread, hsha, hsize, hvalue, hcompiles, hvalid⟩⟩
    · exact iff_of_true (verdict_of_miss_eq hw hdigest h hrow hhit) fun h => absurd h hhit

/-- What a call without a receipt does to the caches : it looks up a validator, unless it cannot read
the value, and it remembers a receipt when it accepts. -/
theorem caches_of_miss (hrow : w.readRow id = .ok (row, schema))
    (hmiss : Caches.get row.id caches.receipts ≠ some ((fingerprint row schema).text T)) :
    (w.validateStagedArtifact P T limit id caches).2 = caches ∨
    (w.validateStagedArtifact P T limit id caches).2 =
      (caches.compiledValidator P schema.contentDigest schema.schema).2 ∨
    (w.validateStagedArtifact P T limit id caches).1 = .ok () ∧
      (w.validateStagedArtifact P T limit id caches).2 =
        (caches.compiledValidator P schema.contentDigest schema.schema).2.rememberReceipt row.id
          ((fingerprint row schema).text T) := by
  unfold ValidationWorld.validateStagedArtifact
  rw [hrow]
  dsimp only
  rw [if_neg hmiss]
  cases w.readInstance P limit row with
  | error e => exact Or.inl rfl
  | ok value =>
    refine Or.inr ?_
    obtain ⟨compiled, caches'⟩ := caches.compiledValidator P schema.contentDigest schema.schema
    cases compiled with
    | error e => exact Or.inl rfl
    | ok validate =>
      dsimp only
      split_ifs
      · exact Or.inr ⟨rfl, rfl⟩
      · exact Or.inl rfl

/-- A receipt that a call adds is that of a row it accepted, and a validator that of a schema. -/
theorem caches_after (hw : w.Registered digest declarations)
    (hdigest : Distinguishes digest declarations) (h : caches.Sound P T w) :
    (∀ e ∈ (w.validateStagedArtifact P T limit id caches).2.receipts, e ∈ caches.receipts ∨
      ∃ row schema, w.readRow id = .ok (row, schema) ∧
        e = (row.id, (fingerprint row schema).text T) ∧ AcceptedPrint P w (fingerprint row schema)) ∧
    ∀ e ∈ (w.validateStagedArtifact P T limit id caches).2.compiled,
      e ∈ caches.compiled ∨ IsValidator P w e := by
  have hunchanged : (∀ e ∈ caches.receipts, e ∈ caches.receipts ∨
      ∃ row schema, w.readRow id = .ok (row, schema) ∧
        e = (row.id, (fingerprint row schema).text T) ∧ AcceptedPrint P w (fingerprint row schema)) ∧
      ∀ e ∈ caches.compiled, e ∈ caches.compiled ∨ IsValidator P w e :=
    ⟨fun e he => Or.inl he, fun e he => Or.inl he⟩
  cases hrow : w.readRow id with
  | error e =>
    rw [verdict_of_error hrow]
    rw [hrow] at hunchanged
    exact hunchanged
  | ok r =>
    obtain ⟨row, schema⟩ := r
    rw [hrow] at hunchanged
    by_cases hhit : Caches.get row.id caches.receipts = some ((fingerprint row schema).text T)
    · rw [verdict_of_hit hrow hhit]
      exact hunchanged
    obtain ⟨-, -, -, s, hs, rfl⟩ := ValidationWorld.readRow_eq_ok hrow
    obtain ⟨hreceipts, hcompiled⟩ :
        (caches.compiledValidator P s.contentDigest s.schema).2.receipts = caches.receipts ∧ _ :=
      compiledValidator_snd hs
    rcases (caches_of_miss hrow hhit : (w.validateStagedArtifact P T limit id caches).2 = _ ∨ _)
      with hafter | hafter | ⟨hok, hafter⟩
    · rw [hafter]
      exact hunchanged
    · rw [hafter, hreceipts]
      exact ⟨hunchanged.1, hcompiled⟩
    · rw [hafter]
      refine ⟨fun e he => ?_, hcompiled⟩
      rcases Caches.mem_put he with rfl | he
      · rw [verdict_of_miss_eq hw hdigest h hrow hhit, verdict_empty_eq_ok hrow] at hok
        obtain ⟨-, bytes, value, hread, hsha, hsize, hvalue, hcompiles, hvalid⟩ := hok
        exact Or.inr ⟨row, s.toArtifactSchema, rfl, rfl, bytes, value, s, hread, hsha, hsize, hvalue,
          hs, rfl, hcompiles, hvalid⟩
      · rw [hreceipts] at he
        exact Or.inl he

end Call

/-! ## Every run -/

/-- What a transaction sees has the bytes and the schemas of the world, and its rows, updated. -/
theorem view_origin (h : Relation.ReflTransGen RowUpdate w v) : v.bytes = w.bytes ∧
    v.schemas = w.schemas ∧ ∀ r' ∈ v.staging, ∃ r ∈ w.staging, r.id = r'.id ∧
      r.stagedRef = r'.stagedRef := by
  induction h with
  | refl => exact ⟨rfl, rfl, fun r hr => ⟨r, hr, rfl, rfl⟩⟩
  | tail _ hupdate ih =>
    obtain ⟨row, hrow⟩ := hupdate
    refine ⟨ih.1, ih.2.1, fun r' hr' => ?_⟩
    obtain ⟨r, hr, rfl⟩ := List.mem_map.1 hr'
    obtain ⟨r₀, hr₀, hid₀, href₀⟩ := ih.2.2 r hr
    by_cases hid : r.id = row.id
    · rw [if_pos hid]
      exact ⟨r₀, hr₀, hid₀.trans hid, href₀.trans (hrow r hr hid).1⟩
    · rw [if_neg hid]
      exact ⟨r₀, hr₀, hid₀, href₀⟩

theorem view_sound (h : Relation.ReflTransGen RowUpdate w v)
    (hw : w.Registered digest declarations) (hsound : caches.Sound P T w) :
    v.Registered digest declarations ∧ caches.Sound P T v := by
  induction h with
  | refl => exact ⟨hw, hsound⟩
  | tail _ hupdate ih => exact ⟨hupdate.registered ih.1, ih.2.keeps hupdate.keeps⟩

/-- The caches are sound for the world, whatever the transactions of the calls have seen. -/
theorem call_sound {limit : ℕ} {id : Uuid} (hdigest : Distinguishes digest declarations)
    (hview : Relation.ReflTransGen RowUpdate w v) (hw : w.Registered digest declarations)
    (hsound : caches.Sound P T w) :
    (v.validateStagedArtifact P T limit id caches).2.Sound P T w := by
  obtain ⟨hregistered, hview_sound⟩ := view_sound hview hw hsound
  obtain ⟨hreceipts, hcompiled⟩ :
      (∀ e ∈ (v.validateStagedArtifact P T limit id caches).2.receipts, _) ∧ _ :=
    caches_after hregistered hdigest hview_sound
  obtain ⟨hbytes, hschemas, horigin⟩ := view_origin hview
  constructor
  · intro e he
    rcases hreceipts e he with he | ⟨row, schema, hrow, rfl, haccepted⟩
    · exact hsound.receipts e he
    · obtain ⟨hmem, -⟩ := ValidationWorld.readRow_eq_ok hrow
      obtain ⟨r, hr, hid, href⟩ := horigin row hmem
      exact ⟨fingerprint row schema, rfl, r, hr, hid, href, fun _ =>
        haccepted.mono (by rw [hbytes]) fun s hs => ⟨s, hschemas ▸ hs, rfl, rfl⟩⟩
  · intro e he
    rcases hcompiled e he with he | ⟨s, hs, hrest⟩
    · exact hsound.compiled e he
    · exact ⟨s, hschemas ▸ hs, hrest⟩

theorem run_sound (hdigest : Distinguishes digest declarations) {calls : List ValidationCall}
    (h : ValidationRun P T digest declarations w caches calls) :
    w.Registered digest declarations ∧ caches.Sound P T w := by
  induction h with
  | start h => exact ⟨h, ValidationCaches.sound_empty⟩
  | step _ hstep ih => exact ⟨hstep.registered ih.1, ih.2.keeps hstep.keeps⟩
  | call _ hview limit id ih => exact ⟨ih.1, call_sound hdigest hview ih.1 ih.2⟩

end Sound

/-- Whether the caches are within their limits. -/
def ValidationCaches.Bounded (caches : ValidationCaches) : Prop :=
  caches.receipts.length ≤ validationReceiptLimit ∧ caches.compiled.length ≤ compiledValidatorLimit

theorem compiledValidator_bounded (P : Platform) (schemaDigest : Digest) (schema : Json)
    {caches : ValidationCaches} (h : caches.Bounded) :
    (caches.compiledValidator P schemaDigest schema).2.Bounded := by
  unfold ValidationCaches.compiledValidator
  cases hget : Caches.get schemaDigest caches.compiled with
  | some existing => exact ⟨h.1, (Caches.length_touch_le hget).trans h.2⟩
  | none =>
    dsimp only
    split_ifs
    · exact ⟨h.1, Caches.length_put_le⟩
    · exact h

/-- The caches stay within their limits. -/
theorem run_bounded {P : Platform} {T : ColumnTexts} {digest : SchemaDeclaration → Digest}
    {declarations : Set SchemaDeclaration} {w : ValidationWorld} {caches : ValidationCaches}
    {calls : List ValidationCall} (h : ValidationRun P T digest declarations w caches calls) :
    caches.Bounded := by
  induction h with
  | start _ => exact ⟨Nat.zero_le _, Nat.zero_le _⟩
  | step _ _ ih => exact ih
  | @call _ v caches _ _ _ limit id ih =>
    cases hrow : v.readRow id with
    | error e =>
      rw [verdict_of_error hrow]
      exact ih
    | ok r =>
      obtain ⟨row, schema⟩ := r
      by_cases hhit : Caches.get row.id caches.receipts = some ((fingerprint row schema).text T)
      · rw [verdict_of_hit hrow hhit]
        exact ih
      have hcompiled := compiledValidator_bounded P schema.contentDigest schema.schema ih
      rcases (caches_of_miss hrow hhit : (v.validateStagedArtifact P T limit id caches).2 = _ ∨ _)
        with hafter | hafter | ⟨-, hafter⟩
      · rw [hafter]
        exact ih
      · rw [hafter]
        exact hcompiled
      · rw [hafter]
        exact ⟨Caches.length_put_le, hcompiled.2⟩

/-- With empty caches, the production limit and the rows of a database, a verdict is that of a
process whose stores hold no receipts and no validators. -/
theorem validate_fresh (P : Platform) (T : ColumnTexts) (id : Uuid) (w : ValidationWorld) {db : Db}
    (hstaging : db.staging = w.staging) (hschemas : db.schemas = w.schemas.map (·.toArtifactSchema)) :
    (w.validateStagedArtifact P T maxJsonBytes id .empty).1 =
      validateStagedArtifact P { plantStores with blobStore := some w.bytes } id db := by
  have hschema : ∀ schemaId, db.schema? schemaId = w.schema? schemaId := fun schemaId => by
    rw [Db.schema?, hschemas, List.find?_map, ValidationWorld.schema?]
    rfl
  have hreads : validateStagedArtifact P { plantStores with blobStore := some w.bytes } id db = (do
      let r ← w.readRow id
      let bytes ← readStaged { plantStores with blobStore := some w.bytes } r.1.stagedRef
      validateBytes P { plantStores with blobStore := some w.bytes } r.1 r.2 bytes) := by
    unfold validateStagedArtifact ValidationWorld.readRow
    rw [hstaging]
    cases w.staging.find? (·.id = id) with
    | none => rfl
    | some row =>
      dsimp only
      rw [hschema]
      cases hstatus : decide (row.status = .staged) with
      | false => rfl
      | true =>
        cases (w.schema? row.schemaId).filter (·.retiredAt.isNone) with
        | none => rfl
        | some schema =>
          cases isJsonMediaType row.mediaType with
          | false => simp [requireArtifact, bind, Except.bind, plantStores]
          | true => simp [requireArtifact, bind, Except.bind, plantStores, pure, Except.pure]
  rw [hreads]
  cases hrow : w.readRow id with
  | error e =>
    rw [verdict_of_error hrow]
    rfl
  | ok r =>
    obtain ⟨row, schema⟩ := r
    rw [verdict_of_miss hrow (by simp [ValidationCaches.empty])]
    change _ = (readStaged { plantStores with blobStore := some w.bytes } row.stagedRef).bind
      (validateBytes P { plantStores with blobStore := some w.bytes } row schema)
    unfold ValidationWorld.readInstance readStaged
    cases hbytes : w.bytes row.stagedRef with
    | none => simp [plantStores, hbytes, bind, Except.bind]
    | some bytes =>
      simp only [plantStores, Bool.false_eq_true, if_false, Option.bind_some, hbytes]
      unfold validateBytes
      rw [Except.bind]
      simp only [bind_assoc]
      refine bind_congr fun _ => bind_congr fun _ => bind_congr fun _ => ?_
      cases P.parseJson bytes with
      | none => rfl
      | some value =>
        unfold ValidationCaches.compiledValidator compiledValidator
        dsimp only [ValidationCaches.empty, Caches.get_nil]
        cases P.compiles [] schema.schema <;> rfl

/-- In every run, a call has the verdict that it has with empty caches exactly when it is not answered
from the receipt of a row that is larger than its limit. -/
theorem cached_verdict (P : Platform) (T : ColumnTexts) (digest : SchemaDeclaration → Digest)
    (declarations : Set SchemaDeclaration) (hdigest : Distinguishes digest declarations)
    {w : ValidationWorld} {caches : ValidationCaches} {calls : List ValidationCall}
    (h : ValidationRun P T digest declarations w caches calls) :
    ∀ call ∈ calls, call.verdict P T = call.verdictWithoutCaches P T ↔ call.WithinLimit T := by
  induction h with
  | start h => simp
  | step _ _ ih => exact ih
  | call hrun hview limit id ih =>
    intro call hcall
    rcases List.mem_append.1 hcall with hcall | hcall
    · exact ih call hcall
    · obtain rfl := List.mem_singleton.1 hcall
      obtain ⟨hw, hsound⟩ := run_sound hdigest hrun
      obtain ⟨hregistered, hview_sound⟩ := view_sound hview hw hsound
      exact verdict_iff hregistered hdigest hview_sound

/-! ## A service with a lower limit -/

/-- Decimal texts. -/
def sampleTexts : ColumnTexts where
  uuid := Nat.toDigits 10
  uuid_injective := toDigits_injective
  uuid_colon := colon_notMem_toDigits
  digest := Nat.toDigits 10
  digest_injective := toDigits_injective
  digest_colon := colon_notMem_toDigits

/-- The declaration of a schema of any value. -/
def anyValue : SchemaDeclaration := ⟨"any", "1", .null, .null⟩

/-- One staged row of two bytes. -/
def smallArtifact : ValidationWorld where
  staging := [⟨1, 9, 5, 2, 2, 500, "application/json", .staged, none⟩]
  schemas := [⟨⟨500, 7, .null, none⟩, "any", "1"⟩]
  bytes _ := some [123, 125]

/-- The caches after a call with a limit of two bytes. -/
def cachesAfter : ValidationCaches :=
  (smallArtifact.validateStagedArtifact samplePlatform sampleTexts 2 1 .empty).2

/-- A call with a limit of two bytes, and one with a limit of one. -/
theorem small_artifact_run : ValidationRun samplePlatform sampleTexts (fun _ => 7) {anyValue}
    smallArtifact (smallArtifact.validateStagedArtifact samplePlatform sampleTexts 1 1 cachesAfter).2
    [⟨2, 1, smallArtifact, .empty⟩, ⟨1, 1, smallArtifact, cachesAfter⟩] := by
  have hregistered : smallArtifact.Registered (fun _ => 7) {anyValue} := by
    refine ⟨List.nodup_singleton _, List.nodup_singleton _, fun s hs => ?_⟩
    obtain rfl := List.mem_singleton.1 hs
    exact ⟨anyValue, rfl, rfl, rfl, rfl⟩
  exact ((ValidationRun.start hregistered).call .refl 2 1).call .refl 1 1

theorem anyValue_distinguished : Distinguishes (fun _ => 7) {anyValue} := by
  rintro d rfl d' rfl _
  exact ⟨rfl, rfl⟩

/-- The call with the lower limit accepts, and with empty caches it would reject. -/
theorem receipt_exceeds_limit : ¬ ∀ (P : Platform) (T : ColumnTexts)
    (digest : SchemaDeclaration → Digest) (declarations : Set SchemaDeclaration),
    Distinguishes digest declarations → ∀ (w : ValidationWorld) (caches : ValidationCaches)
      (calls : List ValidationCall), ValidationRun P T digest declarations w caches calls →
      ∀ call ∈ calls, call.verdict P T = call.verdictWithoutCaches P T := by
  intro hall
  have hequal := hall _ _ _ _ anyValue_distinguished _ _ _ small_artifact_run
    ⟨1, 1, smallArtifact, cachesAfter⟩ (by simp)
  have hcached : ValidationCall.verdict samplePlatform sampleTexts
      ⟨1, 1, smallArtifact, cachesAfter⟩ = .ok () := by rfl
  have hfresh : ValidationCall.verdictWithoutCaches samplePlatform sampleTexts
      ⟨1, 1, smallArtifact, cachesAfter⟩ =
      .error ⟨"artifact_too_large", "artifact exceeds maximum JSON validation size"⟩ := by rfl
  rw [hcached, hfresh] at hequal
  cases hequal

/-- The second call of that run would agree with empty caches if its row were within its limit. -/
theorem small_artifact_verdicts :
    ValidationCall.verdict samplePlatform sampleTexts ⟨1, 1, smallArtifact, cachesAfter⟩ =
        ValidationCall.verdictWithoutCaches samplePlatform sampleTexts
          ⟨1, 1, smallArtifact, cachesAfter⟩ ↔
      ValidationCall.WithinLimit sampleTexts ⟨1, 1, smallArtifact, cachesAfter⟩ :=
  cached_verdict samplePlatform sampleTexts (fun _ => 7) {anyValue} anyValue_distinguished
    small_artifact_run ⟨1, 1, smallArtifact, cachesAfter⟩ (by simp)

end FactoryFloor
