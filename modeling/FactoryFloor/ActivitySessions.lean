import FactoryFloor.JsStrings
import FactoryFloor.Relational
import FactoryFloor.Transition
import Mathlib.Logic.Function.Basic

/-!
# Activity sessions

An activity instance is bound to a location, an adapter and perhaps a run. Whoever joins it gets a
session of that binding, and the token of the session is replaced with every refresh.

A call reads the clock when it starts, and is then interleaved with the others statement by statement.
What a transaction writes is seen at its commit :

* `createOrJoinSession` binds the instance in one transaction, and inserts the session in another. The
  transaction locks the row of the instance if it finds one. Otherwise it inserts one, unless another
  call was faster.
* `refreshSession` locks the session, reads the binding without a lock, and writes.
* `revokeSession` is a single update.
* `closeInstance` locks the binding, and then the sessions its update has found. It waits for those that
  are locked, but not for those inserted meanwhile.

A call may end at any time without an effect : it refuses, or fails and is rolled back. Random tokens
and uuids are new ones, and the digest of a new token is that of no token before.
-/

namespace FactoryFloor

open Relational Transition

/-! ## Rows -/

/-- What `createOrJoinSession` is given. -/
structure ActivitySessionRequest where
  applicationId : String
  instanceId : String
  installationId : String
  guildId : Option String
  channelId : Option String
  threadId : Option String
  principalId : String
  adapter : String
  boundRunId : Option String
deriving DecidableEq, Repr

/-- A row of `activity_instance_bindings`. -/
structure ActivityBinding where
  id : Uuid
  applicationId : String
  instanceId : String
  installationId : String
  guildId : Option String
  channelId : Option String
  threadId : Option String
  boundRunId : Option String
  principalId : String
  adapter : String
  expiresAt : Time
  closedAt : Option Time
deriving DecidableEq, Repr

/-- A row of `activity_sessions`. -/
structure ActivitySession where
  id : Uuid
  instanceBindingId : Uuid
  principalId : String
  tokenDigest : Digest
  expiresAt : Time
  idleExpiresAt : Time
  revokedAt : Option Time
  refreshedAt : Option Time
deriving DecidableEq, Repr

inductive ActivitySessionError where
  | instanceClosed
  | instanceExpired
  | instanceBindingMismatch
  | instanceBindingInvalid
deriving DecidableEq, Repr

def ActivitySessionError.message : ActivitySessionError → String
  | .instanceClosed => "instance_closed"
  | .instanceExpired => "instance_expired"
  | .instanceBindingMismatch => "instance_binding_mismatch"
  | .instanceBindingInvalid => "instance_binding_invalid"

/-- `SESSION_TTL_MS`. -/
def sessionTtl : Time := 3600000

/-- `IDLE_TTL_MS`. -/
def idleTtl : Time := 300000

/-- `BINDING_TTL_MS`. -/
def bindingTtl : Time := 7200000

/-- The instance a binding is of. -/
def ActivityBinding.key (b : ActivityBinding) : String × String :=
  (b.applicationId, b.instanceId)

/-- The instance a request is for. -/
def ActivitySessionRequest.key (request : ActivitySessionRequest) : String × String :=
  (request.applicationId, request.instanceId)

/-! ## The functions of the service -/

/-- `assertBindingMatches`, after the test for a binding without an adapter. -/
def assertBindingMatches (existing : ActivityBinding) (request : ActivitySessionRequest)
    (now : Time) : Except ActivitySessionError Unit := do
  if existing.adapter = "" then throw .instanceBindingInvalid
  if existing.closedAt.isSome then throw .instanceClosed
  if existing.expiresAt ≤ now then throw .instanceExpired
  let locationMatches := existing.installationId = request.installationId ∧
    existing.guildId = request.guildId ∧ existing.channelId = request.channelId ∧
    existing.threadId = request.threadId
  let adapterMatches := existing.adapter = request.adapter
  let runMatches := request.boundRunId = none ∨ existing.boundRunId = request.boundRunId
  if ¬locationMatches ∨ ¬adapterMatches ∨ ¬runMatches then throw .instanceBindingMismatch

/-- The row that the first join of an instance inserts. -/
def ActivitySessionRequest.binding (request : ActivitySessionRequest) (id : Uuid) (now : Time) :
    ActivityBinding where
  id := id
  applicationId := request.applicationId
  instanceId := request.instanceId
  installationId := request.installationId
  guildId := request.guildId
  channelId := request.channelId
  threadId := request.threadId
  boundRunId := request.boundRunId
  principalId := request.principalId
  adapter := request.adapter
  expiresAt := now + bindingTtl
  closedAt := none

/-- The row that `createSession` inserts. -/
def createSession (id : Uuid) (digest : Digest) (instanceBindingId : Uuid) (principalId : String)
    (bindingExpiresAt now : Time) : Except ActivitySessionError ActivitySession := do
  let expiresAt := min (now + sessionTtl) bindingExpiresAt
  let idleExpiresAt := min (now + idleTtl) expiresAt
  if expiresAt ≤ now ∨ idleExpiresAt ≤ now then throw .instanceExpired
  return { id, instanceBindingId, principalId, tokenDigest := digest, expiresAt, idleExpiresAt,
           revokedAt := none, refreshedAt := none }

/-- Whether a session has been revoked or has expired. -/
def ActivitySession.refused (row : ActivitySession) (now : Time) : Bool :=
  row.revokedAt.isSome || row.expiresAt ≤ now || row.idleExpiresAt ≤ now

/-- Whether an instance has been closed or its binding has expired. -/
def ActivityBinding.refused (b : ActivityBinding) (now : Time) : Bool :=
  b.closedAt.isSome || b.expiresAt ≤ now

/-- The idle expiry after a refresh. -/
def ActivitySession.refreshedIdle (row : ActivitySession) (bindingExpiresAt now : Time) : Time :=
  min (now + idleTtl) (min row.expiresAt bindingExpiresAt)

/-! ## Calls -/

/-- Where a call is. -/
inductive ActivityPhase where
  | createOrJoin (request : ActivitySessionRequest)
  /-- The first statement has found no binding. -/
  | joinAbsent (request : ActivitySessionRequest)
  | createSession (instanceBindingId : Uuid) (principalId : String) (bindingExpiresAt : Time)
  | refresh (sessionToken : JsString)
  /-- The session is locked, and is this row. -/
  | refreshLocked (row : ActivitySession)
  /-- The binding has been read, too. -/
  | refreshBound (row : ActivitySession) (bindingExpiresAt : Time)
  | revoke (sessionToken : JsString)
  | close (applicationId instanceId : String)
  /-- The binding is locked. -/
  | closing (instanceBindingId : Uuid)
  /-- The second statement has found these sessions. -/
  | closingSessions (instanceBindingId : Uuid) (sessionIds : List Uuid)

/-- A call, with the time it has read at its start. -/
structure ActivityCall where
  now : Time
  phase : ActivityPhase

/-- A phase a call starts in. -/
def ActivityPhase.Initial : ActivityPhase → Prop
  | .createOrJoin _ | .refresh _ | .revoke _ | .close _ _ => True
  | _ => False

/-- The session a refresh has locked. -/
def ActivityPhase.locked : ActivityPhase → Option ActivitySession
  | .refreshLocked row | .refreshBound row _ => some row
  | _ => none

/-- The instance a join is for, until its transaction ends. -/
def ActivityPhase.joins : ActivityPhase → Option ActivitySessionRequest
  | .createOrJoin request | .joinAbsent request => some request
  | _ => none

/-- The binding that is locked to be closed. -/
def ActivityPhase.closes : ActivityPhase → Option Uuid
  | .closing id | .closingSessions id _ => some id
  | _ => none

/-- A join that was not refused. -/
structure ActivityJoin where
  request : ActivitySessionRequest
  instanceBindingId : Uuid

/-- A refresh that returned a new token. -/
structure ActivityRefresh where
  call : ℕ
  sessionId : Uuid
  tokenDigest : Digest

/-- The tables, the calls that are going on, and what calls have returned. -/
structure ActivityService where
  clock : Time
  bindings : List ActivityBinding
  sessions : List ActivitySession
  calls : ℕ → Option ActivityCall
  /-- How many calls have started. -/
  started : ℕ
  /-- The digests of the tokens handed out. -/
  issued : List Digest
  joined : List ActivityJoin
  refreshed : List ActivityRefresh

namespace ActivityService

/-- A call goes on, or ends. -/
def moves (s : ActivityService) (n : ℕ) (call : Option ActivityCall) : ActivityService :=
  { s with calls := Function.update s.calls n call }

/-- A session is locked by a refresh. -/
def SessionLocked (s : ActivityService) (id : Uuid) : Prop :=
  ∃ n c row, s.calls n = some c ∧ c.phase.locked = some row ∧ row.id = id

/-- A binding is locked by a call that closes its instance. -/
def BindingLocked (s : ActivityService) (id : Uuid) : Prop :=
  ∃ n c, s.calls n = some c ∧ c.phase.closes = some id

/-- `DatabaseActivitySessionAuthorizer.resolveSession`, with what it returns of the session and of the
binding. -/
def resolveSession (sha256 : JsString → Digest) (s : ActivityService) (sessionToken : JsString)
    (now : Time) : Option (ActivitySession × ActivityBinding) := do
  let token := sessionToken.trim
  if token = [] then none
  let row ← s.sessions.find? (·.tokenDigest = sha256 token)
  let binding ← s.bindings.find? (·.id = row.instanceBindingId)
  if row.revokedAt.isSome ∨ binding.closedAt.isSome ∨ row.expiresAt ≤ now ∨ row.idleExpiresAt ≤ now ∨
      binding.expiresAt ≤ now then none
  return (row, binding)

end ActivityService

/-! ## Steps -/

/-- A statement that writes nothing others see. -/
inductive ReadStep (sha256 : JsString → Digest) (s : ActivityService) (now : Time) :
    ActivityPhase → ActivityPhase → Prop
  | joinAbsent {request : ActivitySessionRequest} (habsent : ∀ b ∈ s.bindings, b.key ≠ request.key) :
      ReadStep sha256 s now (.createOrJoin request) (.joinAbsent request)
  | refreshLocked {sessionToken : JsString} {row : ActivitySession} (hrow : row ∈ s.sessions)
      (hdigest : row.tokenDigest = sha256 sessionToken) (hfree : ¬s.SessionLocked row.id)
      (hrefused : row.refused now = false) :
      ReadStep sha256 s now (.refresh sessionToken) (.refreshLocked row)
  | refreshBound {row : ActivitySession} {b : ActivityBinding} (hb : b ∈ s.bindings)
      (hid : b.id = row.instanceBindingId) (hrefused : b.refused now = false) :
      ReadStep sha256 s now (.refreshLocked row) (.refreshBound row b.expiresAt)
  | closing {b : ActivityBinding} (hb : b ∈ s.bindings) (hopen : b.closedAt = none)
      (hfree : ¬s.BindingLocked b.id) :
      ReadStep sha256 s now (.close b.applicationId b.instanceId) (.closing b.id)
  | closingSessions {id : Uuid} :
      ReadStep sha256 s now (.closing id) (.closingSessions id
        ((s.sessions.filter fun r => r.instanceBindingId = id ∧ r.revokedAt = none).map (·.id)))

/-- One step of the service. -/
inductive ActivityStep (sha256 : JsString → Digest) :
    ActivityService → Unit → ActivityService → Prop
  | tick {s : ActivityService} {clock : Time} (hclock : s.clock ≤ clock) :
      ActivityStep sha256 s () { s with clock }
  | starts {s : ActivityService} {phase : ActivityPhase} (hphase : phase.Initial) :
      ActivityStep sha256 s ()
        { s.moves s.started (some ⟨s.clock, phase⟩) with started := s.started + 1 }
  /-- A call refuses, finds nothing, or is rolled back. -/
  | ends {s : ActivityService} (n : ℕ) : ActivityStep sha256 s () (s.moves n none)
  | reads {s : ActivityService} {n : ℕ} {now : Time} {phase phase' : ActivityPhase}
      (hcall : s.calls n = some ⟨now, phase⟩) (hread : ReadStep sha256 s now phase phase') :
      ActivityStep sha256 s () (s.moves n (some ⟨now, phase'⟩))
  /-- The instance is bound already : also when it was not for the first statement. -/
  | joins {s : ActivityService} {n : ℕ} {now : Time} {phase : ActivityPhase}
      {request : ActivitySessionRequest} {b : ActivityBinding}
      (hcall : s.calls n = some ⟨now, phase⟩) (hphase : phase.joins = some request)
      (hb : b ∈ s.bindings) (hkey : b.key = request.key) (hfree : ¬s.BindingLocked b.id)
      (hmatches : assertBindingMatches b request now = .ok ()) :
      ActivityStep sha256 s () { s.moves n
          (some ⟨now, .createSession b.id request.principalId (now + bindingTtl)⟩) with
        bindings := updateWhere (fun r => r.id = b.id)
          (fun r => { r with expiresAt := now + bindingTtl }) s.bindings
        joined := s.joined ++ [⟨request, b.id⟩] }
  | binds {s : ActivityService} {n : ℕ} {now : Time} {request : ActivitySessionRequest} {id : Uuid}
      (hcall : s.calls n = some ⟨now, .joinAbsent request⟩)
      (habsent : ∀ b ∈ s.bindings, b.key ≠ request.key) (hid : ∀ b ∈ s.bindings, b.id ≠ id) :
      ActivityStep sha256 s () { s.moves n
          (some ⟨now, .createSession id request.principalId (now + bindingTtl)⟩) with
        bindings := s.bindings ++ [request.binding id now]
        joined := s.joined ++ [⟨request, id⟩] }
  | createsSession {s : ActivityService} {n : ℕ} {now bindingExpiresAt : Time} {bindingId id : Uuid}
      {principalId : String} {digest : Digest} {row : ActivitySession}
      (hcall : s.calls n = some ⟨now, .createSession bindingId principalId bindingExpiresAt⟩)
      (hid : ∀ r ∈ s.sessions, r.id ≠ id) (hdigest : digest ∉ s.issued)
      (hrow : createSession id digest bindingId principalId bindingExpiresAt now = .ok row) :
      ActivityStep sha256 s () { s.moves n none with
        sessions := s.sessions ++ [row]
        issued := s.issued ++ [digest] }
  | refreshes {s : ActivityService} {n : ℕ} {now bindingExpiresAt : Time} {row : ActivitySession}
      {digest : Digest} (hcall : s.calls n = some ⟨now, .refreshBound row bindingExpiresAt⟩)
      (hidle : now < row.refreshedIdle bindingExpiresAt now) (hdigest : digest ∉ s.issued)
      (hrow : ∃ r ∈ s.sessions, r.id = row.id ∧ r.tokenDigest = row.tokenDigest) :
      ActivityStep sha256 s () { s.moves n none with
        sessions := updateWhere (fun r => r.id = row.id ∧ r.tokenDigest = row.tokenDigest)
          (fun r => { r with tokenDigest := digest
                             idleExpiresAt := row.refreshedIdle bindingExpiresAt now
                             refreshedAt := some now }) s.sessions
        issued := s.issued ++ [digest]
        refreshed := s.refreshed ++ [⟨n, row.id, row.tokenDigest⟩] }
  | revokes {s : ActivityService} {n : ℕ} {now : Time} {sessionToken : JsString}
      (hcall : s.calls n = some ⟨now, .revoke sessionToken⟩)
      (hfree : ∀ r ∈ s.sessions, r.tokenDigest = sha256 sessionToken → ¬s.SessionLocked r.id) :
      ActivityStep sha256 s () { s.moves n none with
        sessions := updateWhere
          (fun r => r.tokenDigest = sha256 sessionToken ∧ r.revokedAt = none)
          (fun r => { r with revokedAt := some now }) s.sessions }
  | closes {s : ActivityService} {n : ℕ} {now : Time} {id : Uuid} {sessionIds : List Uuid}
      (hcall : s.calls n = some ⟨now, .closingSessions id sessionIds⟩)
      (hfree : ∀ r ∈ sessionIds, ¬s.SessionLocked r) :
      ActivityStep sha256 s () { s.moves n none with
        bindings := updateWhere (fun r => r.id = id)
          (fun r => { r with closedAt := some now }) s.bindings
        sessions := updateWhere
          (fun r => r.id ∈ sessionIds ∧ r.instanceBindingId = id ∧ r.revokedAt = none)
          (fun r => { r with revokedAt := some now }) s.sessions }

/-- The service on empty tables. -/
def activityService (sha256 : JsString → Digest) : System ActivityService Unit :=
  ⟨fun s => s.bindings = [] ∧ s.sessions = [] ∧ s.calls = (fun _ => none) ∧ s.started = 0 ∧
    s.issued = [] ∧ s.joined = [] ∧ s.refreshed = [], ActivityStep sha256⟩

end FactoryFloor
