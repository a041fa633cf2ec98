import FactoryFloor.CodePoints
import FactoryFloor.GraphReplay
import FactoryFloor.JsObjects
import FactoryFloor.Separators

/-!
# Requests to instantiate a template

A request comes in a canonical form, which names its template by a natural key, or in a legacy form,
which names it by a text `name@version`. Both are normalised to a request with the text, and the text
is what `parseRef` reads and what the digest of the request covers.

The schema lets every character into a name and a version, and `parseRef` splits at the last `@`. So
two requests keep their natural keys exactly when no version has an `@` (`template_references_iff`).
The legacy form is checked as `parseRef` checks it, and its texts are always read.

The texts that `ajv` and `canonicalizeJson` give to their refusals are parameters.
-/

namespace FactoryFloor

open JsonText

/-! ## The schema -/

/-- The length of a string as JSON Schema counts it. -/
def ucs2length (s : Utf16) : ℕ :=
  (points s).length

/-- A property of an object schema. -/
structure PropertySchema where
  name : String
  required : Bool
  valid : JsValue → Bool

/-- An object schema without additional properties. -/
def closedObject (properties : List PropertySchema) : JsValue → Bool
  | .obj members =>
    (properties.all fun p =>
      match members.lookup (ascii p.name) with
      | some value => p.valid value
      | none => !p.required) &&
    members.all fun m => m.1 ∈ properties.map fun p => ascii p.name
  | _ => false

/-- An object schema with the schema of its additional properties. -/
def objectOf (valid : JsValue → Bool) : JsValue → Bool
  | .obj members => members.all fun m => valid m.2
  | _ => false

/-- `{ const: text }`. -/
def constant (text : String) : JsValue → Bool
  | .str s => s = ascii text
  | _ => false

/-- `{ type: 'string', minLength, maxLength }`. -/
def boundedString (minLength maxLength : ℕ) : JsValue → Bool
  | .str s => minLength ≤ ucs2length s && ucs2length s ≤ maxLength
  | _ => false

/-- A string schema with a pattern. -/
def patternString (pattern : Utf16 → Bool) : JsValue → Bool
  | .str s => pattern s
  | _ => false

/-- Whether a text is a sequence of characters of some classes. -/
def matchesClasses : List (CodeUnit → Bool) → Utf16 → Bool
  | [], [] => true
  | class_ :: classes, c :: text => class_ c && matchesClasses classes text
  | _, _ => false

/-- `[0-9a-fA-F]`. -/
def isHexDigit (c : CodeUnit) : Bool :=
  isDigit c || 97 ≤ c.val && c.val ≤ 102 || 65 ≤ c.val && c.val ≤ 70

/-- `-`. -/
def isHyphen (c : CodeUnit) : Bool :=
  c = 45

/-- `[89aAbB]`. -/
def isVariantDigit (c : CodeUnit) : Bool :=
  c ∈ ascii "89aAbB"

/-- `uuidPattern`. -/
def isUuidText : Utf16 → Bool :=
  matchesClasses <|
    List.replicate 8 isHexDigit ++ isHyphen :: List.replicate 4 isHexDigit ++
      isHyphen :: List.replicate 4 isHexDigit ++ isHyphen :: isVariantDigit ::
      List.replicate 3 isHexDigit ++ isHyphen :: List.replicate 12 isHexDigit

/-- `#/$defs/naturalKey`. -/
def naturalKeySchema : JsValue → Bool :=
  closedObject [⟨"name", true, boundedString 1 128⟩, ⟨"version", true, boundedString 1 128⟩]

/-- `#/$defs/systemSource`. -/
def systemSource : JsValue → Bool :=
  closedObject [⟨"kind", true, constant "system"⟩, ⟨"name", true, boundedString 1 128⟩,
    ⟨"version", true, boundedString 1 128⟩, ⟨"contentDigest", true, patternString isDigestText⟩]

/-- `#/$defs/regionRequestSource`. -/
def regionRequestSource : JsValue → Bool :=
  closedObject [⟨"kind", true, constant "regionRequest"⟩,
    ⟨"requestId", true, patternString isUuidText⟩, ⟨"parentRegionId", true, patternString isUuidText⟩,
    ⟨"requesterComponentInstanceId", true, patternString isUuidText⟩]

/-- `#/$defs/internalSource`. -/
def internalSource : JsValue → Bool :=
  closedObject [⟨"kind", true, constant "internal"⟩, ⟨"operation", true, boundedString 1 128⟩]

/-- `validateSource` : the schemas differ in the kind, so one of them holds at most. -/
def validateSource (value : JsValue) : Bool :=
  [systemSource value, regionRequestSource value, internalSource value].count true = 1

/-- `validateCanonicalRequest`. -/
def validateCanonicalRequest : JsValue → Bool :=
  closedObject [⟨"protocolVersion", true, constant "1.0"⟩,
    ⟨"requestId", true, patternString isUuidText⟩, ⟨"targetRegionId", true, patternString isUuidText⟩,
    ⟨"template", true, naturalKeySchema⟩, ⟨"parameters", false, objectOf fun _ => true⟩,
    ⟨"componentConfiguration", false, objectOf (objectOf fun _ => true)⟩,
    ⟨"source", true, validateSource⟩]

/-! ## Normalisation -/

/-- The texts of refusals. -/
structure Refusals where
  request : JsValue → Utf16
  source : JsValue → Utf16
  canonical : JsValue → Utf16

/-- `NormalizedTemplateInstantiationRequest`. -/
structure NormalizedRequest where
  requestId : Utf16
  targetRegionId : Utf16
  template : Utf16
  parameters : JsValue
  componentConfiguration : JsValue
  source : JsValue

/-- `invalid`. -/
def invalid {α : Type} (message : Utf16) : Except Thrown α :=
  .error (.domain "invalid_declaration" message)

/-- `value ?? {}`. -/
def orEmpty : Option JsValue → JsValue
  | none | some .null => .obj []
  | some value => value

/-- The name and the version of a template. -/
structure NaturalKey where
  name : Utf16
  version : Utf16
deriving DecidableEq

/-- `request.template`. -/
def naturalKey (request : JsValue) : NaturalKey :=
  let template := (property? request "template").getD .null
  ⟨textProperty template "name", textProperty template "version"⟩

/-- `normalizeCanonicalRequest`. -/
def normalizeCanonicalRequest (R : Refusals) (value : JsValue) : Except Thrown NormalizedRequest :=
  if validateCanonicalRequest value then
    let key := naturalKey value
    .ok {
      requestId := textProperty value "requestId"
      targetRegionId := textProperty value "targetRegionId"
      template := key.name ++ 64 :: key.version
      parameters := orEmpty (property? value "parameters")
      componentConfiguration := orEmpty (property? value "componentConfiguration")
      source := (property? value "source").getD .null }
  else
    invalid (ascii "request does not satisfy the template-instantiation contract: " ++
      R.request value)

/-- `jsonObject`. -/
def jsonObject (R : Refusals) (value : JsValue) (label : Utf16) : Except Thrown JsValue :=
  match value with
  | .obj members =>
    if (canonicalizeJson (.obj members)).isSome then .ok (.obj members)
    else invalid (label ++ ascii " must contain only JSON values: " ++ R.canonical (.obj members))
  | _ => invalid (label ++ ascii " must be an object")

/-- `componentConfiguration`. -/
def componentConfiguration (R : Refusals) (value : JsValue) : Except Thrown JsValue := do
  let object ← jsonObject R value (ascii "componentConfiguration")
  let configurations ← (entries object).mapM fun m => do
    return (m.1, ← jsonObject R m.2 (ascii "componentConfiguration." ++ m.1))
  return .obj (defineMembers configurations)

/-- `source`. -/
def source (R : Refusals) (value : JsValue) : Except Thrown JsValue :=
  if validateSource value then .ok value
  else
    invalid (ascii "source does not satisfy the template-instantiation contract: " ++ R.source value)

/-- The source of a legacy request, which has a default. -/
def legacySource (R : Refusals) : Option JsValue → Except Thrown JsValue
  | none =>
    .ok (record [("kind", .str (ascii "internal")),
      ("operation", .str (ascii "template-instantiation"))])
  | some value => source R value

/-- `templateReference`. -/
def templateReference : Option JsValue → Except Thrown Utf16
  | some (.str value) =>
    if isBlankText value then invalid (ascii "template must be a non-empty name@version reference")
    else if (Separators.lastPair 64 value).isSome then .ok value
    else invalid (ascii "template must be a name@version reference")
  | _ => invalid (ascii "template must be a non-empty name@version reference")

/-- The bytes of a digest. -/
def digestBytes (d : Digest) : List ℕ :=
  (List.range 32).map fun i => d / 256 ^ (31 - i) % 256

/-- `deterministicUuid`. -/
def deterministicUuid (H : Sha256) (value : JsValue) : Except Thrown Utf16 :=
  match H.canonicalJsonDigest value with
  | none => .error (.other "TypeError")
  | some d =>
    let bytes := (digestBytes (H.digest (digestText d))).take 16
    let bytes := bytes.modify 6 fun b => b % 16 + 0x50
    let bytes := bytes.modify 8 fun b => b % 64 + 0x80
    let hex := bytes.flatMap fun b => [hexDigit (b / 16), hexDigit (b % 16)]
    let slice (start finish : ℕ) := (hex.take finish).drop start
    .ok (slice 0 8 ++ 45 :: slice 8 12 ++ 45 :: slice 12 16 ++ 45 :: slice 16 20 ++
      45 :: slice 20 32)

/-- The keys that `normalizeLegacyRequest` allows. -/
def legacyKeys : List Utf16 :=
  ["targetRegionId", "template", "parameters", "componentConfiguration", "source"].map ascii

/-- What the digest of a request covers. -/
def requestContent (targetRegionId template : Utf16) (parameters configuration source : JsValue) :
    JsValue :=
  record [("targetRegionId", .str targetRegionId), ("template", .str template),
    ("parameters", parameters), ("componentConfiguration", configuration), ("source", source)]

/-- `normalizeLegacyRequest`. -/
def normalizeLegacyRequest (R : Refusals) (H : Sha256) (value : JsValue) :
    Except Thrown NormalizedRequest := do
  let .obj members := value | invalid (ascii "request must be an object")
  members.forM fun m =>
    if m.1 ∈ legacyKeys then pure () else invalid (ascii "request." ++ m.1 ++ ascii " is not allowed")
  let targetRegionId := textProperty value "targetRegionId"
  if isBlankText targetRegionId then invalid (ascii "targetRegionId must be a non-empty string")
  let normalizedSource ← legacySource R (property? value "source")
  let parameters ← jsonObject R (orEmpty (property? value "parameters")) (ascii "parameters")
  let configuration ← componentConfiguration R (orEmpty (property? value "componentConfiguration"))
  let template ← templateReference (property? value "template")
  let requestId ← deterministicUuid H
    (requestContent targetRegionId template parameters configuration normalizedSource)
  return {
    requestId, targetRegionId, template, parameters
    componentConfiguration := configuration
    source := normalizedSource }

/-- `normalizeTemplateInstantiationRequest` : of a request that is normalised, or of a value. -/
def normalizeTemplateInstantiationRequest (R : Refusals) (H : Sha256) :
    NormalizedRequest ⊕ JsValue → Except Thrown NormalizedRequest
  | .inl request => .ok request
  | .inr value =>
    if (property? value "protocolVersion").isSome then normalizeCanonicalRequest R value
    else normalizeLegacyRequest R H value

/-- What the durable service digests of a normalised request. -/
def NormalizedRequest.content (n : NormalizedRequest) : JsValue :=
  requestContent n.targetRegionId n.template n.parameters n.componentConfiguration n.source

/-- `parseRef`. -/
def parseTemplateRef (reference : Utf16) : Except Thrown NaturalKey :=
  match Separators.lastPair 64 reference with
  | some (name, version) => .ok ⟨name, version⟩
  | none => invalid (ascii "Invalid name@version reference " ++ reference)

/-! ## Natural keys -/

theorem ne_nil_of_length {s : Utf16} (h : 1 ≤ ucs2length s) : s ≠ [] := by
  rintro rfl
  simp [ucs2length, points] at h

/-- A required property of an object that a schema accepts. -/
theorem property_of_closedObject {properties : List PropertySchema} {value : JsValue}
    (h : closedObject properties value) {p : PropertySchema} (hp : p ∈ properties)
    (hrequired : p.required) : ∃ found, property? value p.name = some found ∧ p.valid found := by
  cases value with
  | obj members =>
    have hproperty := List.all_eq_true.1 (Bool.and_eq_true_iff.1 h).1 p hp
    cases hlookup : members.lookup (ascii p.name) with
    | none => simp [hlookup, hrequired] at hproperty
    | some found => exact ⟨found, hlookup, by simpa [hlookup] using hproperty⟩
  | _ => cases h

theorem textProperty_bounded {properties : List PropertySchema} {value : JsValue}
    (h : closedObject properties value) {name : String} {n m : ℕ}
    (hp : ⟨name, true, boundedString n m⟩ ∈ properties) : n ≤ ucs2length (textProperty value name) := by
  obtain ⟨found, hfound, hvalid⟩ := property_of_closedObject h hp rfl
  rw [textProperty, hfound]
  cases found with
  | str s => exact of_decide_eq_true (Bool.and_eq_true_iff.1 hvalid).1
  | _ => cases hvalid

/-- A request in the canonical form, which the schema accepts. -/
structure CanonicalRequest where
  value : JsValue
  accepted : validateCanonicalRequest value

/-- The template that a canonical request names. -/
def CanonicalRequest.key (r : CanonicalRequest) : NaturalKey :=
  naturalKey r.value

theorem CanonicalRequest.key_ne_nil (r : CanonicalRequest) : r.key.name ≠ [] ∧ r.key.version ≠ [] := by
  obtain ⟨template, htemplate, hvalid⟩ := property_of_closedObject r.accepted
    (p := ⟨"template", true, naturalKeySchema⟩) (by simp) rfl
  simp only [CanonicalRequest.key, naturalKey, htemplate, Option.getD_some]
  exact ⟨ne_nil_of_length (textProperty_bounded hvalid (m := 128) (by simp)),
    ne_nil_of_length (textProperty_bounded hvalid (m := 128) (by simp))⟩

/-- The text that a natural key is normalised to. -/
def NaturalKey.text (k : NaturalKey) : Utf16 :=
  k.name ++ 64 :: k.version

/-- A natural key is read from its text exactly when the version has no `@`. -/
theorem parseTemplateRef_text {k : NaturalKey} (hname : k.name ≠ []) (hversion : k.version ≠ []) :
    parseTemplateRef k.text = .ok k ↔ 64 ∉ k.version := by
  rw [parseTemplateRef, NaturalKey.text]
  constructor
  · intro h
    split at h
    · rename_i name version hpair
      obtain rfl := Except.ok.inj h
      exact (Separators.lastPair_eq_some.1 hpair).2.2.2
    · cases h
  · intro h
    rw [Separators.lastPair_eq_some.2 ⟨rfl, hname, hversion, h⟩]

theorem normalize_canonical (R : Refusals) (H : Sha256) (r : CanonicalRequest) :
    ∃ n, normalizeTemplateInstantiationRequest R H (.inr r.value) = .ok n ∧
      n.template = r.key.text := by
  obtain ⟨version, hversion, -⟩ := property_of_closedObject r.accepted
    (p := ⟨"protocolVersion", true, constant "1.0"⟩) (by simp) rfl
  simp only [normalizeTemplateInstantiationRequest, hversion, Option.isSome_some, if_true,
    normalizeCanonicalRequest, if_pos r.accepted]
  exact ⟨_, rfl, rfl⟩

theorem templateReference_eq_ok {value : Option JsValue} {template : Utf16}
    (h : templateReference value = .ok template) :
    ∃ key, parseTemplateRef template = .ok key := by
  unfold templateReference at h
  split at h
  · rename_i s
    split_ifs at h with hblank hpair
    · cases h
    · obtain rfl := Except.ok.inj h
      obtain ⟨⟨name, version⟩, hpair⟩ := Option.isSome_iff_exists.1 hpair
      exact ⟨⟨name, version⟩, by rw [parseTemplateRef, hpair]⟩
    · cases h
  · cases h

/-- The legacy form is normalised to texts that `parseRef` reads. -/
theorem normalizeLegacyRequest_template {R : Refusals} {H : Sha256} {value : JsValue}
    {n : NormalizedRequest} (h : normalizeLegacyRequest R H value = .ok n) :
    ∃ key, parseTemplateRef n.template = .ok key := by
  unfold normalizeLegacyRequest at h
  split at h
  · obtain ⟨⟨⟩, -, h⟩ := Except.bind_eq_ok.1 h
    dsimp only at h
    split_ifs at h
    · cases h
    obtain ⟨normalizedSource, -, h⟩ := Except.bind_eq_ok.1 h
    obtain ⟨parameters, -, h⟩ := Except.bind_eq_ok.1 h
    obtain ⟨configuration, -, h⟩ := Except.bind_eq_ok.1 h
    obtain ⟨template, htemplate, h⟩ := Except.bind_eq_ok.1 h
    obtain ⟨requestId, -, h⟩ := Except.bind_eq_ok.1 h
    obtain rfl := Except.ok.inj h
    exact templateReference_eq_ok htemplate
  · cases h

/-! ## Digests -/

/-- The members of what is digested, as they are written. -/
def contentTrees (n : NormalizedRequest) : List (Utf16 × Tree) :=
  (entries n.content).map (mapValue fun value => toTree (norm value))

theorem contentTrees_keys (n : NormalizedRequest) :
    (contentTrees n).map Prod.fst =
      ["targetRegionId", "template", "parameters", "componentConfiguration", "source"].map ascii := by
  rw [contentTrees, map_fst_mapValue]
  exact record_keys _

theorem template_mem_contentTrees (n : NormalizedRequest) :
    (ascii "template", .str n.template) ∈ contentTrees n := by
  have hmem : (ascii "template", .str n.template) ∈ entries n.content :=
    List.mem_cons_of_mem _ List.mem_cons_self
  refine List.mem_map.2 ⟨_, hmem, ?_⟩
  simp only [mapValue, norm, toTree]

/-- What is digested is written with the text of the template. -/
theorem template_of_canonicalizeJson {n n' : NormalizedRequest} {text : Utf16}
    (h : canonicalizeJson n.content = some text) (h' : canonicalizeJson n'.content = some text) :
    n.template = n'.template := by
  have hwritten : ∀ {v : JsValue}, canonicalizeJson v = some text →
      render (toTree (norm v)) = text := by
    intro v hv
    rw [canonicalizeJson, Option.ite_none_right_eq_some] at hv
    exact Option.some.inj hv.2
  have htree : toTree (norm n.content) = toTree (norm n'.content) :=
    render_injective (toTree_valid _) (toTree_valid _) ((hwritten h).trans (hwritten h').symm)
  have hrebuilt : rebuild (contentTrees n) = rebuild (contentTrees n') := by
    rw [NormalizedRequest.content, NormalizedRequest.content, requestContent, requestContent, record,
      record, toTree_norm_obj, toTree_norm_obj] at htree
    exact Tree.obj.inj htree
  have hkeys : ∀ m : NormalizedRequest, ((contentTrees m).map Prod.fst).Nodup := fun m =>
    contentTrees_keys m ▸ by decide
  have hproto : ascii "template" ≠ protoKey := by decide
  have hmem : (ascii "template", Tree.str n.template) ∈ rebuild (contentTrees n) :=
    (rebuild_perm (hkeys n)).mem_iff.2
      (List.mem_filter.2 ⟨template_mem_contentTrees n, decide_eq_true hproto⟩)
  rw [hrebuilt] at hmem
  have hmem' := List.mem_of_mem_filter ((rebuild_perm (hkeys n')).mem_iff.1 hmem)
  have heq := List.inj_on_of_nodup_map (hkeys n') hmem' (template_mem_contentTrees n') rfl
  exact Tree.str.inj (Prod.mk.inj heq).2

/-! ## Round trips -/

/-- The references of two requests keep what they name. -/
structure TemplateReferences (R : Refusals) (H : Sha256) (r r' : CanonicalRequest) : Prop where
  /-- The text of a request is parsed to the name and the version it names. -/
  parsed : ∀ q ∈ [r, r'], ∃ n,
    normalizeTemplateInstantiationRequest R H (.inr q.value) = .ok n ∧
      parseTemplateRef n.template = .ok q.key
  /-- Different natural keys have different texts, resolve to different templates and are digested
  differently. -/
  distinct : r.key ≠ r'.key → ∀ n n',
    normalizeTemplateInstantiationRequest R H (.inr r.value) = .ok n →
    normalizeTemplateInstantiationRequest R H (.inr r'.value) = .ok n' →
    n.template ≠ n'.template ∧ parseTemplateRef n.template ≠ parseTemplateRef n'.template ∧
      ∀ text, canonicalizeJson n.content = some text → canonicalizeJson n'.content ≠ some text
  /-- The legacy form is normalised to a text that is parsed. -/
  legacy : ∀ value n, property? value "protocolVersion" = none →
    normalizeTemplateInstantiationRequest R H (.inr value) = .ok n →
    ∃ key, parseTemplateRef n.template = .ok key

/-- Template references round trip exactly when no version has an `@`. -/
theorem template_references_iff (R : Refusals) (H : Sha256) (r r' : CanonicalRequest) :
    TemplateReferences R H r r' ↔ 64 ∉ r.key.version ∧ 64 ∉ r'.key.version := by
  have hkey : ∀ q : CanonicalRequest, parseTemplateRef q.key.text = .ok q.key ↔ 64 ∉ q.key.version :=
    fun q => parseTemplateRef_text q.key_ne_nil.1 q.key_ne_nil.2
  obtain ⟨n, hn, htext⟩ := normalize_canonical R H r
  obtain ⟨n', hn', htext'⟩ := normalize_canonical R H r'
  constructor
  · intro h
    have hversion : ∀ q ∈ [r, r'], 64 ∉ q.key.version := by
      intro q hq
      obtain ⟨m, hm, hparsed⟩ := h.parsed q hq
      obtain ⟨m', hm', htext⟩ := normalize_canonical R H q
      rw [hm] at hm'
      rwa [Except.ok.inj hm', htext, hkey] at hparsed
    exact ⟨hversion r (by simp), hversion r' (by simp)⟩
  · rintro ⟨hr, hr'⟩
    refine ⟨?_, ?_, ?_⟩
    · intro q hq
      have hversion : 64 ∉ q.key.version := by
        obtain rfl | rfl : q = r ∨ q = r' := by simpa using hq
        · exact hr
        · exact hr'
      obtain ⟨m, hm, htext⟩ := normalize_canonical R H q
      exact ⟨m, hm, by rw [htext, hkey]; exact hversion⟩
    · intro hne m m' hm hm'
      obtain rfl := Except.ok.inj (hn.symm.trans hm)
      obtain rfl := Except.ok.inj (hn'.symm.trans hm')
      have hparsed := htext ▸ (hkey r).2 hr
      have hparsed' := htext' ▸ (hkey r').2 hr'
      have hrefs : parseTemplateRef n.template ≠ parseTemplateRef n'.template := by
        rw [hparsed, hparsed']
        exact fun heq => hne (Except.ok.inj heq)
      refine ⟨fun heq => hrefs (congrArg _ heq), hrefs, fun text h h' => ?_⟩
      exact hrefs (congrArg _ (template_of_canonicalizeJson h h'))
    · intro value m hnone hm
      rw [normalizeTemplateInstantiationRequest, hnone] at hm
      exact normalizeLegacyRequest_template hm

/-- A canonical request for a template. -/
def requestFor (name version : String) : JsValue :=
  record [("protocolVersion", .str (ascii "1.0")),
    ("requestId", .str (ascii "00000000-0000-4000-8000-000000000001")),
    ("targetRegionId", .str (ascii "00000000-0000-4000-8000-000000000002")),
    ("template", record [("name", .str (ascii name)), ("version", .str (ascii version))]),
    ("source", record [("kind", .str (ascii "internal")), ("operation", .str (ascii "test"))])]

/-- Templates with different names and versions have the text `a@b@c`. -/
theorem at_sign_confused : ¬ ∀ (R : Refusals) (H : Sha256) (r r' : CanonicalRequest),
    TemplateReferences R H r r' := by
  intro h
  let r : CanonicalRequest := ⟨requestFor "a" "b@c", by decide⟩
  let r' : CanonicalRequest := ⟨requestFor "a@b" "c", by decide⟩
  have hrefs := h ⟨fun _ => [], fun _ => [], fun _ => []⟩ ⟨fun _ => 0, fun _ => by norm_num⟩ r r'
  obtain ⟨n, hn, hparsed⟩ := hrefs.parsed r (by simp)
  obtain ⟨n', hn', htext⟩ := normalize_canonical _ _ r
  obtain rfl := Except.ok.inj (hn.symm.trans hn')
  rw [htext, parseTemplateRef_text r.key_ne_nil.1 r.key_ne_nil.2] at hparsed
  exact absurd hparsed (by decide)

end FactoryFloor
