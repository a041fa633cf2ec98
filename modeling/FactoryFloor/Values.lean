import Mathlib.Data.List.Sort
import Mathlib.Data.Rat.Defs
import Mathlib.Logic.Function.Defs

/-!
# Values of the runtime

Identifiers, JSON values and the submitted result of an attempt, as
`worker-protocol-service.ts` and `execution-commit-service.ts` exchange them.

A `Uuid` is a number whose order is the order of the uuid's text. `Text` is a string in
which the canonical texts of uuids are singled out, since the database casts a text that
it compares with a uuid column, and refuses a text that is not one.

`Platform` holds what the runtime gets from outside the repository : random uuids and
lease tokens, SHA-256, the JSON parser, Ajv, and the driver's binding of a value to a
`jsonb` parameter. Draws are numbered over the whole run, so `uuid n` is the `n`-th uuid
drawn; no draw is ever repeated.
-/

namespace FactoryFloor

/-! ## Identifiers -/

/-- A uuid. -/
abbrev Uuid := ℕ

/-- A lease token. -/
abbrev LeaseToken := ℕ

/-- Milliseconds since the epoch. -/
abbrev Time := ℕ

/-- A SHA-256 digest (64 lowercase hex digits). -/
abbrev Digest := ℕ

/-- A string : the canonical text of a uuid, or another string. -/
inductive Text where
  | uuid (id : Uuid)
  | other (s : String)
deriving DecidableEq, Repr

/-- The white space of `String.prototype.trim`. -/
def isTrimmed (c : Char) : Bool :=
  c.toNat ∈ [9, 10, 11, 12, 13, 32, 0xa0, 0x1680, 0x2000, 0x2001, 0x2002, 0x2003, 0x2004, 0x2005,
    0x2006, 0x2007, 0x2008, 0x2009, 0x200a, 0x2028, 0x2029, 0x202f, 0x205f, 0x3000, 0xfeff]

/-- `!s.trim()`. -/
def isBlank (s : String) : Bool :=
  s.toList.all isTrimmed

/-- `!s.trim()` of a text : the text of a uuid is not blank. -/
def Text.isBlank : Text → Bool
  | .uuid _ => false
  | .other s => FactoryFloor.isBlank s

/-! ## JSON -/

/-- JSON values. A finite number is the rational it denotes. -/
inductive Json where
  | null
  | bool (b : Bool)
  | num (q : ℚ)
  | str (s : String)
  | arr (items : List Json)
  | obj (members : List (String × Json))

namespace Json

/-- `value.key` of a record. -/
def get? (key : String) : Json → Option Json
  | .obj members => members.lookup key
  | _ => none

/-- `value.key === true` of a record. -/
def isTrueAt (key : String) (value : Json) : Bool :=
  match value.get? key with
  | some (.bool b) => b
  | _ => false

end Json

mutual

/-- `norm` : the members of an object in the order of their names. The member `__proto__` is lost,
since assigning it sets the prototype of the copy. -/
def Json.norm : Json → Json
  | .arr items => .arr (normItems items)
  | .obj members => .obj ((normMembers members).insertionSort (·.1 ≤ ·.1))
  | value => value

def Json.normItems : List Json → List Json
  | [] => []
  | value :: items => value.norm :: normItems items

def Json.normMembers : List (String × Json) → List (String × Json)
  | [] => []
  | (name, value) :: members =>
    if name = "__proto__" then normMembers members else (name, value.norm) :: normMembers members

end

/-- `Number.isSafeInteger(q) && q >= 0`. -/
def isNonNegativeSafeInteger (q : ℚ) : Bool :=
  q.den == 1 && decide (0 ≤ q.num) && decide (q.num ≤ 9007199254740991)

/-- What caused an invocation, a proposal or an artifact (`source-identity.schema.json`). -/
inductive SourceIdentity where
  | command (commandId : Uuid) (submittedBy : String)
  | event (eventId producerComponentId : Uuid)
  | artifact (artifactId : Uuid) (digest : Digest)
  | execution (executionId attemptId : Uuid)
  | templateInstantiation (instantiationId templateId regionId : Uuid)
deriving DecidableEq, Repr

/-- `isExecutionSource`. -/
def isExecutionSource (value : SourceIdentity) (executionId attemptId : Uuid) : Bool :=
  value = .execution executionId attemptId

/-! ## Submitted results -/

inductive ResultStatus where
  | completed | failed | cancelled
deriving DecidableEq, Repr

inductive ExternalActionRisk where
  | low | medium | high | irreversible
deriving DecidableEq, Repr

/-- A staged artifact a result refers to. -/
structure Staged where
  stagingId : Uuid
  portName : String
  digest : Digest
  sizeBytes : ℕ
  mediaType : String
  schemaId : Text
  schemaDigest : Digest
  provenance : SourceIdentity
deriving DecidableEq, Repr

structure ProposedEvent where
  eventType : String
  subject : String
  payload : Json
  schemaId : Text
  schemaDigest : Digest
  occurredAt : String
  source : SourceIdentity

structure ExternalActionProposal where
  proposalId : Uuid
  actionType : String
  idempotencyKey : String
  capabilityHandle : String
  requestArtifact : Staged
  risk : ExternalActionRisk
deriving DecidableEq, Repr

/-- The result a submission row stores, with the names the commit uses. -/
structure ProposedExecutionResult where
  executionId : Uuid
  attemptId : Uuid
  leaseToken : LeaseToken
  lifecycleEpoch : ℕ
  status : ResultStatus
  stagedArtifacts : List Staged
  proposedState : Option Staged
  proposedEvents : List ProposedEvent
  externalActionProposals : List ExternalActionProposal
  resourceUsage : Json
  failure : Option Json

/-- The identity of an attempt in a worker request, with both names of the epoch. -/
structure AttemptIdentityInput where
  executionId : Uuid
  attemptId : Uuid
  leaseToken : LeaseToken
  regionFencingEpoch : Option ℤ
  lifecycleEpoch : Option ℤ
deriving DecidableEq, Repr

/-- A staged artifact of a worker request, with both names of the staging reference. -/
structure StagedArtifactInput where
  stagingRef : Option Uuid
  stagingId : Option Uuid
  portName : String
  digest : Digest
  sizeBytes : ℕ
  mediaType : String
  schemaId : Text
  schemaDigest : Digest
  provenance : SourceIdentity
deriving DecidableEq, Repr

/-- The request body of `submitResult`. -/
structure ProposedResultInput extends AttemptIdentityInput where
  status : ResultStatus
  stagedArtifacts : List StagedArtifactInput
  proposedState : Option StagedArtifactInput
  proposedEvents : List ProposedEvent
  externalActionProposals : List ExternalActionProposal
  resourceUsage : Json
  failure : Option Json

/-! ## The platform -/

/-- A value the runtime takes the digest of. -/
inductive Digested where
  | submission (input : ProposedResultInput)
  | payload (value : Json)
  | command (region commandType : String) (source payload : Json) (correlationId : Option Text)
      (expiresAt : Option String)
  | cancellation (runId : Uuid) (clientRequestId reason : String)
  | decision (approvalId : Uuid) (clientRequestId : String) (approve : Bool) (reason : String)

/-- What the runtime gets from outside the repository. -/
structure Platform where
  /-- The uuids `createUuidV7` returns, in the order drawn. -/
  uuid : ℕ → Uuid
  uuid_injective : Function.Injective uuid
  /-- The tokens `generateLeaseToken` returns, in the order drawn. -/
  token : ℕ → LeaseToken
  token_injective : Function.Injective token
  /-- `canonicalJsonDigest`. -/
  canonicalJsonDigest : Digested → Digest
  /-- SHA-256 of a byte string. -/
  sha256 : List UInt8 → Digest
  /-- `JSON.parse` of a UTF-8 byte string. -/
  parseJson : List UInt8 → Option Json
  /-- `Date.parse`, unless it is `NaN`. -/
  parseDate : String → Option Time
  /-- `Buffer.from(s, 'base64url')` as a string. -/
  base64url : String → Text
  /-- The database's cast of a text other than the canonical one to a uuid. -/
  castUuid : String → Option Uuid
  /-- The canonical text of a uuid. -/
  uuidText : Uuid → String
  /-- `UUID_PATTERN.test`. -/
  matchesUuidPattern : Text → Bool
  /-- A text the pattern accepts is a uuid's. -/
  castUuid_of_matches : ∀ s, matchesUuidPattern (.other s) → (castUuid s).isSome
  /-- Whether an Ajv instance that has compiled the schemas of the list compiles one more. -/
  compiles : List Json → Json → Bool
  /-- Whether a compiled schema accepts a value. -/
  validates : Json → Json → Bool
  /-- The stored value of a parameter bound to a NOT NULL `jsonb` column, when the
  statement accepts it. -/
  bindJsonb : Json → Option Json
  /-- Whether a text fits in an entry of a unique index. -/
  indexable : String → Bool

/-- The database's cast of a text to a uuid. -/
def Platform.uuidOf (P : Platform) : Text → Option Uuid
  | .uuid id => some id
  | .other s => P.castUuid s

end FactoryFloor
