import FactoryFloor.JsObjects
import FactoryFloor.Separators

/-!
# Draft pull requests

`github-draft-pr-adapter.ts` : `dispatch` looks for the pull request of an action and creates it, and
`reconcile` looks for it again. What GitHub answers is a parameter of each call, and so is what is
loaded for an artifact.

`History` says which pull requests have been created, and for which idempotency keys, when an action
has been dispatched any number of times and the rest of the repository has gone on. Reconciliation
tells the truth where the lookup is not refused after a creation, and the first listed draft that has
the marker was created for the key (`reconciliation_truthful_iff`). A lookup without permission is
reported as a failure of the action (`refused_lookup_reported_failed`).
-/

namespace FactoryFloor.DraftPullRequests

open JsonText

/-- The members of a response. -/
abbrev Details := List (Utf16 × JsValue)

def details (fields : List (String × JsValue)) (metadata : Details) : Details :=
  fields.map (fun f => (ascii f.1, f.2)) ++ metadata

/-- A text as a value. -/
def word (s : String) : JsValue :=
  .str (ascii s)

structure ExternalActionProviderRequest where
  actionType : Utf16
  idempotencyKey : Utf16
  outboundRequestArtifactId : Utf16

structure DraftPullRequestArtifact where
  repository : Utf16
  head : Utf16
  base : Utf16
  title : Utf16
  body : Utf16

structure PullRequestSummary where
  number : ℕ
  draft : Bool
  htmlUrl : Utf16
  body : Option Utf16
  head : Option Utf16
  base : Option Utf16
deriving DecidableEq

structure Adapter where
  repository : Utf16
  allowedHeadPrefixes : List Utf16
  allowedBaseBranches : List Utf16
  /-- A value, or the error of a promise that is rejected. -/
  loadRequestArtifact : Utf16 → Except Utf16 JsValue

/-- How a request to GitHub ends, with what `responseMetadata` takes from the headers, and the body as
JSON when it is JSON. -/
inductive Answer where
  | transportError (errorKind : Utf16)
  | response (status : ℕ) (metadata : Details) (payload : Option JsValue)

/-- What an adapter reports. -/
inductive Report where
  | acknowledged (operation : String) (pullRequest : PullRequestSummary) (metadata : Details)
  | failed (response : Details)
  | indeterminate (response : Details)

/-- What an adapter throws. -/
inductive ThrownError where
  | loader (error : Utf16)
  | indeterminate (message : String) (response : Details)

/-- The response of a report. -/
def Report.response : Report → Details
  | .acknowledged operation pullRequest metadata =>
    details [("provider", word "github"), ("operation", word operation),
      ("pull_request_number", natValue pullRequest.number),
      ("pull_request_url", .str pullRequest.htmlUrl)] metadata
  | .failed response => response
  | .indeterminate response => response

/-! ## Requests -/

/-- `[A-Za-z0-9._-]`. -/
def isNameUnit (c : CodeUnit) : Bool :=
  isDigit c || 65 ≤ c.val && c.val ≤ 90 || 97 ≤ c.val && c.val ≤ 122 || c ∈ ascii "._-"

/-- `/^[A-Za-z0-9_.-]+\/[A-Za-z0-9_.-]+$/.test(repository)`. -/
def isRepository (repository : Utf16) : Bool :=
  match Separators.splitEvery 47 repository with
  | [owner, name] => owner ≠ [] && name ≠ [] && owner.all isNameUnit && name.all isNameUnit
  | _ => false

def safeRef (value : Utf16) : Bool :=
  (value.all fun c => 0x1f < c.val && c.val ≠ 0x7f && !isWhiteSpace c) &&
    !(value.head? = some 47 || value.getLast? = some 47 || ascii ".." <:+: value ||
      value.any fun c => c ∈ ascii "~^:?*[" || c = 92)

def boundedString (raw : Option JsValue) (maxLength : ℕ) (allowEmpty : Bool) : Option Utf16 :=
  match raw with
  | some (.str s) =>
    if s.length > maxLength || !allowEmpty && isBlankText s then none else some s
  | _ => none

def validIdempotencyKey (value : Utf16) : Bool :=
  1 ≤ value.length && value.length ≤ 200 && value.all fun c => isNameUnit c || c ∈ ascii ":/"

def idempotencyMarker (value : Utf16) : Utf16 :=
  ascii "<!-- factory-floor-idempotency:" ++ value ++ ascii " -->"

def parseArtifact (raw : JsValue) : Option DraftPullRequestArtifact := do
  let repository ← boundedString (property? raw "repository") 200 false
  let head ← boundedString (property? raw "head") 255 false
  let base ← boundedString (property? raw "base") 255 false
  let title ← boundedString (property? raw "title") 256 false
  let body ← boundedString (property? raw "body") 65000 true
  if isRepository repository ∧ safeRef head ∧ safeRef base then
    some ⟨repository, head, base, title, body⟩
  else none

def scopeFailure (reason : String) : Report :=
  .failed (details [("provider", word "github"),
    ("code", word "github_external_action_scope_denied"), ("reason", word reason),
    ("retry_classification", word "terminal")] [])

/-- The artifact of a request, or how the call ends without it. -/
def prepare (a : Adapter) (request : ExternalActionProviderRequest) :
    Except (Except ThrownError Report) DraftPullRequestArtifact :=
  if request.actionType ≠ ascii "github.draft_pull_request.upsert" then
    .error (.ok (scopeFailure "unsupported_action_type"))
  else if !validIdempotencyKey request.idempotencyKey then
    .error (.ok (scopeFailure "invalid_idempotency_key"))
  else
    match a.loadRequestArtifact request.outboundRequestArtifactId with
    | .error error => .error (.error (.loader error))
    | .ok raw =>
      match parseArtifact raw with
      | none => .error (.ok (scopeFailure "invalid_request_artifact"))
      | some artifact =>
        if artifact.repository ≠ a.repository ∨ artifact.base ∉ a.allowedBaseBranches ∨
            !a.allowedHeadPrefixes.any (·.isPrefixOf artifact.head) then
          .error (.ok (scopeFailure "configured_scope_mismatch"))
        else .ok artifact

/-! ## Answers -/

/-- A number that is a safe integer, and at least 1. -/
def positiveInteger : JsNumber → Option ℕ
  | .finite x =>
    let value := x.magnitude.toRat
    if !x.negative ∧ value.den = 1 ∧ 1 ≤ value.num ∧ value.num ≤ 9007199254740991 then
      some value.num.toNat
    else none
  | .infinite _ => none

/-- `refObject`. -/
def refObject (raw : Option JsValue) : Option Utf16 :=
  match raw.bind (property? · "ref") with
  | some (.str ref) => some ref
  | _ => none

def pullRequestSummary (raw : JsValue) : Option PullRequestSummary :=
  match property? raw "number", property? raw "draft", property? raw "html_url" with
  | some (.num number), some (.bool draft), some (.str htmlUrl) => do
    let number ← positiveInteger number
    let body :=
      match property? raw "body" with
      | some (.str body) => some body
      | _ => none
    return ⟨number, draft, htmlUrl, body, refObject (property? raw "head"),
      refObject (property? raw "base")⟩
  | _, _, _ => none

/-- `status === 408 || status === 429 || status >= 500`. -/
def retryable (status : ℕ) : Bool :=
  status = 408 || status = 429 || 500 ≤ status

/-- `response.ok`. -/
def isOk (status : ℕ) : Bool :=
  200 ≤ status && status ≤ 299

def providerFailure (operation : String) (status : ℕ) (metadata : Details) : Report :=
  let response := details [("provider", word "github"), ("operation", word operation),
    ("code", word (if retryable status then "github_provider_retryable_failure"
      else "github_provider_terminal_failure")),
    ("http_status", natValue status),
    ("retry_classification", word (if retryable status then "reconcile_before_retry"
      else "terminal"))] metadata
  if retryable status then .indeterminate response else .failed response

/-- A report that leaves open what has happened. -/
def unknownOutcome (operation code : String) (metadata : Details) : Report :=
  .indeterminate (details [("provider", word "github"), ("operation", word operation),
    ("code", word code), ("retry_classification", word "reconcile_before_retry")] metadata)

/-- Whether a pull request is taken for the one of an action. -/
def PullRequestSummary.isOf (pullRequest : PullRequestSummary) (artifact : DraftPullRequestArtifact)
    (idempotencyKey : Utf16) : Bool :=
  pullRequest.draft && pullRequest.head = some artifact.head &&
    pullRequest.base = some artifact.base &&
    pullRequest.body.any (idempotencyMarker idempotencyKey <:+: ·)

/-- The items of a body that is an array. -/
def itemsOf : Option JsValue → Option (List JsValue)
  | some (.arr items) => some items
  | _ => none

/-- What a lookup finds, or the report that it ends with. -/
inductive Lookup where
  | found (pullRequest : Option PullRequestSummary) (metadata : Details)
  | stopped (report : Report)

def lookup (artifact : DraftPullRequestArtifact) (idempotencyKey : Utf16) : Answer → Lookup
  | .transportError errorKind =>
    .stopped (unknownOutcome "reconcile" "github_lookup_transport_indeterminate"
      [(ascii "error_kind", .str errorKind)])
  | .response status metadata payload =>
    if !isOk status then .stopped (providerFailure "reconcile" status metadata)
    else
      match itemsOf payload with
      | some items =>
        .found ((items.filterMap pullRequestSummary).find? (·.isOf artifact idempotencyKey)) metadata
      | none => .stopped (unknownOutcome "reconcile" "github_lookup_response_invalid" metadata)

/-! ## Calls -/

/-- What is posted to create a draft. -/
structure Post where
  repository : Utf16
  head : Utf16
  base : Utf16
  title : Utf16
  body : Utf16

/-- What a dispatch posts, when it does, and how it ends. -/
structure Dispatched where
  posted : Option Post
  outcome : Except ThrownError Report

/-- How a dispatch ends after it has posted. -/
def created : Answer → Except ThrownError Report
  | .transportError errorKind =>
    .error (.indeterminate
      "GitHub draft pull request dispatch completed with an unknown provider outcome."
      (details [("provider", word "github"), ("operation", word "create_draft"),
        ("code", word "github_dispatch_transport_indeterminate"),
        ("retry_classification", word "reconcile_before_retry"),
        ("error_kind", .str errorKind)] []))
  | .response status metadata payload =>
    if !isOk status then .ok (providerFailure "create_draft" status metadata)
    else
      match payload.bind pullRequestSummary with
      | none => .ok (unknownOutcome "create_draft" "github_create_response_invalid" metadata)
      | some pullRequest => .ok (.acknowledged "created_draft" pullRequest metadata)

def dispatch (a : Adapter) (request : ExternalActionProviderRequest) (listing answer : Answer) :
    Dispatched :=
  match prepare a request with
  | .error outcome => ⟨none, outcome⟩
  | .ok artifact =>
    match lookup artifact request.idempotencyKey listing with
    | .stopped report => ⟨none, .ok report⟩
    | .found (some pullRequest) metadata =>
      ⟨none, .ok (.acknowledged "existing_draft" pullRequest metadata)⟩
    | .found none _ =>
      ⟨some ⟨artifact.repository, artifact.head, artifact.base, artifact.title,
        idempotencyMarker request.idempotencyKey ++ [10] ++ artifact.body⟩, created answer⟩

def reconcile (a : Adapter) (request : ExternalActionProviderRequest) (listing : Answer) :
    Except ThrownError Report :=
  match prepare a request with
  | .error outcome => outcome
  | .ok artifact =>
    match lookup artifact request.idempotencyKey listing with
    | .stopped report => .ok report
    | .found (some pullRequest) metadata =>
      .ok (.acknowledged "reconciled_draft" pullRequest metadata)
    | .found none metadata =>
      .ok (unknownOutcome "reconcile" "github_draft_pull_request_not_found" metadata)

/-! ## Histories -/

/-- A pull request that has been created for an idempotency key. -/
structure Creation where
  number : ℕ
  idempotencyKey : Utf16
deriving DecidableEq

/-- What has been created when an action may have been dispatched. A pull request is created for the
action by what a dispatch posts, whatever the dispatch comes to know about it. -/
inductive History (a : Adapter) (request : ExternalActionProviderRequest) : List Creation → Prop
  | start : History a request []
  | other {w : List Creation} (c : Creation) (hfresh : c.number ∉ w.map (·.number))
      (hother : c.idempotencyKey ≠ request.idempotencyKey) (h : History a request w) :
      History a request (w ++ [c])
  | dispatched {w : List Creation} (number : ℕ) (listing answer : Answer) (post : Post)
      (hpost : (dispatch a request listing answer).posted = some post)
      (hfresh : number ∉ w.map (·.number)) (h : History a request w) :
      History a request (w ++ [⟨number, request.idempotencyKey⟩])

/-- What is reported is so. -/
structure ReconciliationTruthful (a : Adapter) (request : ExternalActionProviderRequest)
    (w : List Creation) (listing answer : Answer) : Prop where
  failed : ∀ response, reconcile a request listing = .ok (.failed response) →
    ∀ c ∈ w, c.idempotencyKey ≠ request.idempotencyKey
  reconciled : ∀ operation pullRequest metadata,
    reconcile a request listing = .ok (.acknowledged operation pullRequest metadata) →
      ⟨pullRequest.number, request.idempotencyKey⟩ ∈ w
  existing : ∀ pullRequest metadata, (dispatch a request listing answer).outcome =
    .ok (.acknowledged "existing_draft" pullRequest metadata) →
      ⟨pullRequest.number, request.idempotencyKey⟩ ∈ w

/-- A lookup that is answered with an error that is not to be tried again. -/
def Answer.refuses : Answer → Bool
  | .transportError _ => false
  | .response status _ _ => !isOk status && !retryable status

/-- The drafts that an answer lists. -/
def Answer.listed : Answer → List PullRequestSummary
  | .transportError _ => []
  | .response status _ payload =>
    if isOk status then ((itemsOf payload).getD []).filterMap pullRequestSummary else []

section Truthful

variable {a : Adapter} {request : ExternalActionProviderRequest} {w : List Creation}
  {artifact : DraftPullRequestArtifact} {listing answer : Answer}

/-- Without an artifact, a call is refused or rejected. -/
theorem prepare_error {outcome : Except ThrownError Report}
    (h : prepare a request = .error outcome) :
    (∃ error, outcome = .error error) ∨ ∃ response, outcome = .ok (.failed response) := by
  rw [prepare] at h
  split_ifs at h
  · exact Or.inr ⟨_, (Except.error.inj h).symm⟩
  · exact Or.inr ⟨_, (Except.error.inj h).symm⟩
  · cases hload : a.loadRequestArtifact request.outboundRequestArtifactId with
    | error error =>
      rw [hload] at h
      exact Or.inl ⟨_, (Except.error.inj h).symm⟩
    | ok raw =>
      rw [hload] at h
      dsimp only at h
      cases hparse : parseArtifact raw with
      | none =>
        rw [hparse] at h
        exact Or.inr ⟨_, (Except.error.inj h).symm⟩
      | some artifact =>
        rw [hparse] at h
        dsimp only at h
        split_ifs at h
        exact Or.inr ⟨_, (Except.error.inj h).symm⟩

/-- Without an artifact nothing is created for an action. -/
theorem History.not_created {outcome : Except ThrownError Report}
    (hprepare : prepare a request = .error outcome) (h : History a request w) :
    ∀ c ∈ w, c.idempotencyKey ≠ request.idempotencyKey := by
  induction h with
  | start => simp
  | other c _ hother _ ih =>
    intro d hd
    rcases List.mem_append.1 hd with hd | hd
    · exact ih d hd
    · rw [List.mem_singleton.1 hd]
      exact hother
  | dispatched number listing answer post hpost _ _ _ =>
    rw [dispatch, hprepare] at hpost
    cases hpost

/-- A lookup fails where it is refused. -/
theorem lookup_failed_iff {key : Utf16} : (∃ response, lookup artifact key listing =
    .stopped (.failed response)) ↔ listing.refuses = true := by
  cases listing with
  | transportError errorKind => simp [lookup, unknownOutcome, Answer.refuses]
  | response status metadata payload =>
    rw [lookup, Answer.refuses]
    cases hok : isOk status with
    | true =>
      refine iff_of_false ?_ (by simp)
      rintro ⟨response, h⟩
      rw [if_neg (by simp)] at h
      cases hitems : itemsOf payload with
      | none =>
        rw [hitems] at h
        cases h
      | some items =>
        rw [hitems] at h
        cases h
    | false =>
      rw [if_pos (by rfl), providerFailure]
      cases hretry : retryable status with
      | true => simp
      | false => simp

/-- A lookup finds the first listed pull request that is taken for the one of the action. -/
theorem lookup_found_iff {key : Utf16} {pullRequest : PullRequestSummary} :
    (∃ metadata, lookup artifact key listing = .found (some pullRequest) metadata) ↔
      listing.listed.find? (·.isOf artifact key) = some pullRequest := by
  cases listing with
  | transportError errorKind => simp [lookup, Answer.listed]
  | response status metadata payload =>
    rw [lookup, Answer.listed]
    cases hok : isOk status with
    | false => simp
    | true =>
      rw [if_neg (by simp), if_pos rfl]
      cases itemsOf payload with
      | none => simp
      | some items => simp only [Lookup.found.injEq, Option.getD_some, exists_and_left, exists_eq', and_true]

/-- A lookup that is stopped reports no pull request. -/
theorem lookup_stopped {key : Utf16} {report : Report}
    (h : lookup artifact key listing = .stopped report) :
    (∃ response, report = .failed response) ∨ ∃ response, report = .indeterminate response := by
  cases listing with
  | transportError errorKind =>
    obtain rfl := Lookup.stopped.inj h
    exact Or.inr ⟨_, rfl⟩
  | response status metadata payload =>
    rw [lookup] at h
    cases hok : isOk status with
    | true =>
      rw [hok, if_neg (by simp)] at h
      cases hitems : itemsOf payload with
      | some items =>
        rw [hitems] at h
        cases h
      | none =>
        rw [hitems] at h
        obtain rfl := Lookup.stopped.inj h
        exact Or.inr ⟨_, rfl⟩
    | false =>
      rw [hok, if_pos (by rfl)] at h
      obtain rfl := Lookup.stopped.inj h
      rw [providerFailure]
      cases retryable status with
      | true => exact Or.inr ⟨_, rfl⟩
      | false => exact Or.inl ⟨_, rfl⟩

/-- Of an action that can be dispatched, `reconcile` reports what the lookup says. -/
theorem reconcile_of_prepared (hprepare : prepare a request = .ok artifact) {report : Report}
    (h : reconcile a request listing = .ok report) :
    (∃ response, report = .failed response ∧ listing.refuses = true) ∨
      (∃ response, report = .indeterminate response) ∨
      ∃ pullRequest metadata, report = .acknowledged "reconciled_draft" pullRequest metadata ∧
        listing.listed.find? (·.isOf artifact request.idempotencyKey) = some pullRequest := by
  rw [reconcile, hprepare] at h
  dsimp only at h
  cases hlookup : lookup artifact request.idempotencyKey listing with
  | stopped stop =>
    rw [hlookup] at h
    obtain rfl := Except.ok.inj h
    obtain ⟨response, rfl⟩ | ⟨response, rfl⟩ := lookup_stopped hlookup
    · exact Or.inl ⟨response, rfl, lookup_failed_iff.1 ⟨response, hlookup⟩⟩
    · exact Or.inr (Or.inl ⟨response, rfl⟩)
  | found found metadata =>
    rw [hlookup] at h
    cases found with
    | none =>
      obtain rfl := Except.ok.inj h
      exact Or.inr (Or.inl ⟨_, rfl⟩)
    | some pullRequest =>
      obtain rfl := Except.ok.inj h
      exact Or.inr (Or.inr ⟨pullRequest, metadata, rfl, lookup_found_iff.1 ⟨metadata, hlookup⟩⟩)

/-- What is acknowledged after a dispatch has posted is a created draft. -/
theorem operation_created {operation : String} {pullRequest : PullRequestSummary} {metadata : Details}
    (h : created answer = .ok (.acknowledged operation pullRequest metadata)) :
    operation = "created_draft" := by
  cases answer with
  | transportError errorKind => cases h
  | response status headers payload =>
    rw [created] at h
    cases hok : isOk status with
    | false =>
      rw [hok, if_pos (by rfl), providerFailure] at h
      cases hretry : retryable status with
      | true =>
        rw [hretry] at h
        cases h
      | false =>
        rw [hretry] at h
        cases h
    | true =>
      rw [hok, if_neg (by simp)] at h
      cases hsummary : payload.bind pullRequestSummary with
      | none =>
        rw [hsummary] at h
        cases h
      | some summary =>
        rw [hsummary] at h
        exact (Report.acknowledged.inj (Except.ok.inj h)).1.symm

/-- `dispatch` reports the existing pull request that the lookup finds. -/
theorem dispatch_existing (hprepare : prepare a request = .ok artifact)
    {pullRequest : PullRequestSummary} {metadata : Details}
    (h : (dispatch a request listing answer).outcome =
      .ok (.acknowledged "existing_draft" pullRequest metadata)) :
    listing.listed.find? (·.isOf artifact request.idempotencyKey) = some pullRequest := by
  rw [dispatch, hprepare] at h
  dsimp only at h
  cases hlookup : lookup artifact request.idempotencyKey listing with
  | stopped report =>
    rw [hlookup] at h
    obtain rfl := Except.ok.inj h
    obtain ⟨response, hreport⟩ | ⟨response, hreport⟩ := lookup_stopped hlookup <;> cases hreport
  | found found metadata' =>
    rw [hlookup] at h
    cases found with
    | none =>
      exact absurd (operation_created h) (by decide)
    | some found =>
      obtain ⟨-, rfl, rfl⟩ := Report.acknowledged.inj (Except.ok.inj h)
      exact lookup_found_iff.1 ⟨metadata', hlookup⟩

/-- What is reported is so exactly when, for an action that can be dispatched, the lookup is not
refused after a creation, and the first listed pull request that is taken for the one of the action was
created for it. -/
theorem reconciliation_truthful_iff (h : History a request w) :
    ReconciliationTruthful a request w listing answer ↔
      ∀ artifact, prepare a request = .ok artifact →
        (listing.refuses → ∀ c ∈ w, c.idempotencyKey ≠ request.idempotencyKey) ∧
        ∀ pullRequest, listing.listed.find? (·.isOf artifact request.idempotencyKey) =
          some pullRequest → ⟨pullRequest.number, request.idempotencyKey⟩ ∈ w := by
  constructor
  · intro htruthful artifact hprepare
    refine ⟨fun hrefuses => ?_, fun pullRequest hfind => ?_⟩
    · obtain ⟨response, hlookup⟩ := lookup_failed_iff.2 hrefuses
      refine htruthful.failed response ?_
      rw [reconcile, hprepare]
      dsimp only
      rw [hlookup]
    · obtain ⟨metadata, hlookup⟩ := lookup_found_iff.2 hfind
      refine htruthful.reconciled "reconciled_draft" pullRequest metadata ?_
      rw [reconcile, hprepare]
      dsimp only
      rw [hlookup]
  · intro hall
    cases hprepare : prepare a request with
    | error outcome =>
      have hreconcile : reconcile a request listing = outcome := by rw [reconcile, hprepare]
      have hdispatch : (dispatch a request listing answer).outcome = outcome := by
        rw [dispatch, hprepare]
      refine ⟨fun _ _ => h.not_created hprepare, fun operation pullRequest metadata hreport => ?_,
        fun pullRequest metadata hreport => ?_⟩
      · rw [hreconcile] at hreport
        obtain ⟨error, rfl⟩ | ⟨response, rfl⟩ := prepare_error hprepare <;> cases hreport
      · rw [hdispatch] at hreport
        obtain ⟨error, rfl⟩ | ⟨response, rfl⟩ := prepare_error hprepare <;> cases hreport
    | ok artifact =>
      obtain ⟨hrefused, hfound⟩ := hall artifact hprepare
      refine ⟨fun response hreport => ?_, fun operation pullRequest metadata hreport => ?_,
        fun pullRequest metadata hreport => hfound pullRequest (dispatch_existing hprepare hreport)⟩
      · rcases reconcile_of_prepared hprepare hreport with
          ⟨_, -, hrefuses⟩ | ⟨_, heq⟩ | ⟨_, _, heq, -⟩
        · exact hrefused hrefuses
        · cases heq
        · cases heq
      · rcases reconcile_of_prepared hprepare hreport with
          ⟨_, heq, -⟩ | ⟨_, heq⟩ | ⟨_, _, heq, hfind⟩
        · cases heq
        · cases heq
        · obtain ⟨-, rfl, -⟩ := Report.acknowledged.inj heq
          exact hfound pullRequest hfind

end Truthful

/-- A request for a draft, with what is loaded for it. -/
def sampleRequest : ExternalActionProviderRequest :=
  ⟨ascii "github.draft_pull_request.upsert", ascii "key", []⟩

def sampleAdapter : Adapter where
  repository := ascii "o/r"
  allowedHeadPrefixes := [ascii "h"]
  allowedBaseBranches := [ascii "b"]
  loadRequestArtifact _ := .ok (.obj (details [("repository", word "o/r"), ("head", word "h"),
    ("base", word "b"), ("title", word "t"), ("body", word "")] []))

/-- The history of the request after a dispatch that has created a pull request. -/
theorem sample_history : History sampleAdapter sampleRequest [⟨1, ascii "key"⟩] :=
  .dispatched 1 (.response 200 [] (some (.arr []))) (.transportError [])
    ⟨ascii "o/r", ascii "h", ascii "b", ascii "t",
      idempotencyMarker (ascii "key") ++ [10] ++ ascii ""⟩ rfl (by simp) .start

theorem sample_truthful_iff : ReconciliationTruthful sampleAdapter sampleRequest
    [⟨1, ascii "key"⟩] (.response 403 [] none) (.response 403 [] none) ↔
      ∀ artifact, prepare sampleAdapter sampleRequest = .ok artifact →
        ((Answer.response 403 [] none).refuses →
          ∀ c ∈ [(⟨1, ascii "key"⟩ : Creation)], c.idempotencyKey ≠ sampleRequest.idempotencyKey) ∧
        ∀ pullRequest, (Answer.response 403 [] none).listed.find?
          (·.isOf artifact sampleRequest.idempotencyKey) = some pullRequest →
            ⟨pullRequest.number, sampleRequest.idempotencyKey⟩ ∈ [(⟨1, ascii "key"⟩ : Creation)] :=
  reconciliation_truthful_iff sample_history

/-- The pull request is there, but the lookup is answered with 403, and the action is reported as
failed. -/
theorem refused_lookup_reported_failed : ¬ ∀ (a : Adapter) (request : ExternalActionProviderRequest)
    (w : List Creation) (listing answer : Answer), History a request w →
    ReconciliationTruthful a request w listing answer := by
  intro h
  have htruthful := h sampleAdapter sampleRequest _ (.response 403 [] none) (.response 403 [] none)
    sample_history
  exact htruthful.failed _ rfl ⟨1, ascii "key"⟩ (by simp) rfl

end FactoryFloor.DraftPullRequests
