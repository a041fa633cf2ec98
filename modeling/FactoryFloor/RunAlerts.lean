import FactoryFloor.CanonicalJson
import FactoryFloor.JsObjects
import FactoryFloor.Relational
import Mathlib.Data.Fintype.OfMap

/-!
# Alerts of a run

`projectRunAlerts` projects alerts from the rows of a run, and `listRunAlerts` returns them page by
page. A page ends with a cursor, the sort key of its last alert, and the next page begins after the
first alert with that key. An alert is identified by its id.

An approval is joined with the external actions it is linked to, so an approval of two actions is
projected twice with one id. The quantity of a ledger row is rendered with twelve fraction digits,
which `BigInt` refuses, and the refusal is taken for no pressure. So alerts are complete exactly when
each requested approval is linked to one action of the run at most, and no ledger row with a durable
limit is at 80 percent of it (`run_alerts_iff`).

Ids are texts, as the driver gives them. A delivery and an execution are found by their primary keys.
How names are collated, and how a date is read from its text, are parameters, and a cursor is one that
is well formed.
-/

namespace FactoryFloor

open JsonText

/-! ## Rows -/

/-- A row of `commands`, with what `loadRun` reads. -/
structure CommandRow where
  id : Utf16
  regionId : Utf16
  commandType : Utf16
  correlationId : Option Utf16
  status : Utf16
  createdAt : ℕ

/-- A row of `regions`. -/
structure RegionRow where
  id : Utf16
  name : Utf16
  blocked : Bool
  createdAt : ℕ

/-- A row of `deliveries`. -/
structure DeliveryRow where
  id : Utf16
  regionId : Utf16
  correlationId : Option Utf16
  deadLettered : Bool
  attemptsCount : ℕ
  createdAt : ℕ

/-- A row of `executions`. -/
structure ExecutionRow where
  id : Utf16
  deliveryId : Utf16
  failed : Bool
  failure : Option JsValue
  failedAt : Option ℕ
  createdAt : ℕ

/-- A row of `execution_attempts`. -/
structure AttemptRow where
  id : Utf16
  executionId : Utf16
  /-- Its status is `failed` or `abandoned`. -/
  failed : Bool
  completedAt : Option ℕ
  createdAt : ℕ

/-- A row of `approvals`. -/
structure ApprovalRow where
  id : Utf16
  requested : Bool
  requestedAt : ℕ

/-- A row of `external_actions`. -/
structure ActionRow where
  id : Utf16
  approvalId : Option Utf16
  executionId : Utf16
  actionType : Utf16
  risk : JsValue

/-- A row of `resource_ledger`, with its quantity in units of `10 ^ -12`. -/
structure LedgerRow where
  id : Utf16
  executionId : Option Utf16
  resourceType : Utf16
  quantity : ℕ
  unit : Utf16
  attributes : JsValue
  createdAt : ℕ

/-- A row of `projection_checkpoints`. -/
structure CheckpointRow where
  id : Utf16
  projectionName : Utf16
  streamKey : Utf16
  updatedAt : ℕ

/-- The tables that alerts are projected from, with their keys. -/
structure AlertDb where
  commands : List CommandRow
  regions : List RegionRow
  deliveries : List DeliveryRow
  executions : List ExecutionRow
  attempts : List AttemptRow
  approvals : List ApprovalRow
  actions : List ActionRow
  ledger : List LedgerRow
  checkpoints : List CheckpointRow
  regions_nodup : (regions.map (·.id)).Nodup
  deliveries_nodup : (deliveries.map (·.id)).Nodup
  executions_nodup : (executions.map (·.id)).Nodup
  approvals_nodup : (approvals.map (·.id)).Nodup
  ledger_nodup : (ledger.map (·.id)).Nodup
  /-- `unique(projection_name, stream_key)`. -/
  checkpoints_nodup : (checkpoints.map fun c => (c.projectionName, c.streamKey)).Nodup

/-- `RunIdentity`. -/
structure RunIdentity where
  id : Utf16
  regionId : Utf16
  correlationId : Utf16

/-- What the database and the runtime decide : how names are collated, what `localeCompare` puts not
after another text, and the time of `new Date(String(updated_at))`. -/
structure AlertPlatform where
  nameLe : Utf16 → Utf16 → Bool
  localeLe : Utf16 → Utf16 → Bool
  stringDate : ℕ → Option ℕ

/-! ## Alerts -/

inductive AlertSeverity where
  | error
  | warning
  | info
deriving DecidableEq, Repr

inductive AlertKind where
  | approvalRequired
  | blockedWork
  | repeatedFailure
  | budgetPressure
  | deadLetter
  | projectionStale
  | executionFailed
deriving DecidableEq, Repr

instance : Fintype AlertKind :=
  Fintype.ofList [.approvalRequired, .blockedWork, .repeatedFailure, .budgetPressure, .deadLetter,
    .projectionStale, .executionFailed] fun kind => by cases kind <;> decide

/-- The text of a kind. -/
def AlertKind.text : AlertKind → String
  | .approvalRequired => "approval_required"
  | .blockedWork => "blocked_work"
  | .repeatedFailure => "repeated_failure"
  | .budgetPressure => "budget_pressure"
  | .deadLetter => "dead_letter"
  | .projectionStale => "projection_stale"
  | .executionFailed => "execution_failed"

structure RunAlert where
  id : Utf16
  kind : AlertKind
  severity : AlertSeverity
  title : Utf16
  message : Utf16
  observedAt : ℕ
  sourceKind : Utf16
  sourceId : Utf16
  details : List (Utf16 × JsValue)

/-- `rank[severity]`. -/
def AlertSeverity.rank : AlertSeverity → String
  | .error => "0"
  | .warning => "1"
  | .info => "2"

/-- `alertSortKey`. -/
def alertSortKey (alert : RunAlert) : Utf16 :=
  ascii alert.severity.rank ++ 58 :: (ascii alert.kind.text ++ 58 :: alert.id)

/-! ## Failures and budgets -/

/-- `isOperatorCancellation`. -/
def operatorCancelled : Option JsValue → Bool
  | some (.obj members) =>
    match members.lookup (ascii "code") with
    | some (.str code) => code = ascii "operator_cancelled"
    | _ => false
  | _ => false

/-- `failureMessage`. -/
def failureMessage (failure : Option JsValue) (fallback : Utf16) : Utf16 :=
  match failure.bind fun value => property? value "message" with
  | some (.str message) => if isBlankText message then fallback else message
  | _ => fallback

/-- `numeric(38, 12)` as the database renders it. -/
def renderNumeric (quantity : ℕ) : Utf16 :=
  natText (quantity / 10 ^ 12) ++
    46 :: (List.range 12).map fun i => digitUnit (quantity / 10 ^ (11 - i) % 10)

/-- Whether a number is a safe integer greater than zero. -/
def isPositiveSafeInteger : JsNumber → Bool
  | .finite x =>
    let value := x.magnitude.toRat
    !x.negative && 0 < value && value.isInt && value ≤ 2 ^ 53 - 1
  | .infinite _ => false

/-- `/^[1-9][0-9]*$/`. -/
def isPositiveDecimal : Utf16 → Bool
  | c :: digits => 49 ≤ c.val && c.val ≤ 57 && digits.all isDigit
  | [] => false

/-- `budgetLimit`. -/
def budgetLimit (attributes : JsValue) : Option Utf16 :=
  let value := match property? attributes "budgetLimit" with
    | none | some .null => property? attributes "budget_limit"
    | some value => some value
  match value with
  | some (.num (.finite x)) => if isPositiveSafeInteger (.finite x) then some (numberToString x) else none
  | some (.str s) => if isPositiveDecimal s then some s else none
  | _ => none

/-- `isBudgetPressure`. -/
def isBudgetPressure (quantity limit : Utf16) : Bool :=
  match bigInt? quantity, bigInt? limit with
  | some quantity, some limit => limit * 80 ≤ quantity * 100
  | _, _ => false

/-! ## Queries -/

/-- `orderBy` of texts. -/
def orderBy {α : Type} (le : Utf16 → Utf16 → Bool) (column : α → Utf16) (rows : List α) : List α :=
  rows.insertionSort fun a b => le (column a) (column b)

/-- Whether the delivery with an id belongs to a run. -/
def AlertDb.deliveryInRun (db : AlertDb) (run : RunIdentity) (deliveryId : Utf16) : Bool :=
  (db.deliveries.find? (·.id = deliveryId)).any (·.correlationId = some run.correlationId)

/-- Whether the execution with an id belongs to a run. -/
def AlertDb.executionInRun (db : AlertDb) (run : RunIdentity) (executionId : Utf16) : Bool :=
  (db.executions.find? (·.id = executionId)).any fun e => db.deliveryInRun run e.deliveryId

/-- The deliveries of a run. -/
def AlertDb.deliveriesOf (db : AlertDb) (run : RunIdentity) : List DeliveryRow :=
  orderBy keyLe (·.id) (db.deliveries.filter (·.correlationId = some run.correlationId))

/-- The executions of a run. -/
def AlertDb.executionsOf (db : AlertDb) (run : RunIdentity) : List ExecutionRow :=
  orderBy keyLe (·.id) (db.executions.filter fun e => db.deliveryInRun run e.deliveryId)

/-- The actions of a run that are linked to an approval. -/
def AlertDb.actionsOf (db : AlertDb) (run : RunIdentity) (approval : ApprovalRow) : List ActionRow :=
  db.actions.filter fun a => a.approvalId = some approval.id && db.executionInRun run a.executionId

/-- The requested approvals of a run, joined with their actions. -/
def AlertDb.approvalsOf (db : AlertDb) (run : RunIdentity) : List (ApprovalRow × ActionRow) :=
  (orderBy keyLe (·.id) (db.approvals.filter (·.requested))).flatMap fun approval =>
    (db.actionsOf run approval).map fun action => (approval, action)

/-- The checkpoints of the global stream. -/
def AlertDb.globalCheckpoints (db : AlertDb) (P : AlertPlatform) : List CheckpointRow :=
  orderBy P.nameLe (·.projectionName) (db.checkpoints.filter (·.streamKey = ascii "global"))

/-- The ledger rows of a run. -/
def AlertDb.ledgerOf (db : AlertDb) (run : RunIdentity) : List LedgerRow :=
  orderBy keyLe (·.id) (db.ledger.filter fun r => r.executionId.any (db.executionInRun run))

/-- The blocked regions among those of a run. -/
def AlertDb.blockedRegions (db : AlertDb) (run : RunIdentity) : List RegionRow :=
  let ids := run.regionId :: (db.deliveriesOf run).map (·.regionId)
  orderBy keyLe (·.id) (db.regions.filter fun r => r.id ∈ ids && r.blocked)

/-- The failed attempts of an execution, by id. -/
def AlertDb.failedAttempts (db : AlertDb) (execution : ExecutionRow) : List AttemptRow :=
  orderBy keyLe (·.id) (db.attempts.filter fun a => a.executionId = execution.id && a.failed)

/-! ## Projection -/

def approvalAlert (row : ApprovalRow × ActionRow) : RunAlert where
  id := ascii "approval-required:" ++ row.1.id
  kind := .approvalRequired
  severity := .warning
  title := ascii "Approval required"
  message := row.2.actionType ++ ascii " is awaiting an operator decision."
  observedAt := row.1.requestedAt
  sourceKind := ascii "approval"
  sourceId := row.1.id
  details := [(ascii "actionType", .str row.2.actionType), (ascii "risk", row.2.risk)]

def blockedAlert (region : RegionRow) : RunAlert where
  id := ascii "blocked-work:" ++ region.id
  kind := .blockedWork
  severity := .error
  title := ascii "Run work is blocked"
  message := ascii "Region " ++ region.name ++ ascii " is blocked."
  observedAt := region.createdAt
  sourceKind := ascii "region"
  sourceId := region.id
  details := [(ascii "regionName", .str region.name)]

def deadLetterAlert (delivery : DeliveryRow) : RunAlert where
  id := ascii "dead-letter:" ++ delivery.id
  kind := .deadLetter
  severity := .error
  title := ascii "Delivery dead-lettered"
  message := ascii "A run delivery exhausted its retry path."
  observedAt := delivery.createdAt
  sourceKind := ascii "delivery"
  sourceId := delivery.id
  details := [(ascii "attemptsCount", natValue delivery.attemptsCount)]

def failedAlert (execution : ExecutionRow) : RunAlert where
  id := ascii "execution-failed:" ++ execution.id
  kind := .executionFailed
  severity := .error
  title := ascii "Execution failed"
  message := failureMessage execution.failure (ascii "Execution failed.")
  observedAt := execution.failedAt.getD execution.createdAt
  sourceKind := ascii "execution"
  sourceId := execution.id
  details := [(ascii "failure", execution.failure.getD .null)]

def repeatedAlert (execution : ExecutionRow) (failedAttempts : List AttemptRow) : RunAlert where
  id := ascii "repeated-failure:" ++ execution.id
  kind := .repeatedFailure
  severity := .warning
  title := ascii "Repeated execution failure"
  message := ascii "Execution has " ++ natText failedAttempts.length ++
    ascii " failed or abandoned attempts."
  observedAt := ((failedAttempts.getLast?.map fun a => a.completedAt.getD a.createdAt)).getD
    execution.createdAt
  sourceKind := ascii "execution"
  sourceId := execution.id
  details := [(ascii "attemptCount", natValue failedAttempts.length)]

def pressureAlert (resource : LedgerRow) (limit : Utf16) : RunAlert where
  id := ascii "budget-pressure:" ++ resource.id
  kind := .budgetPressure
  severity := .warning
  title := ascii "Resource budget pressure"
  message := resource.resourceType ++ ascii " usage is at least 80% of its durable limit."
  observedAt := resource.createdAt
  sourceKind := ascii "resource_ledger"
  sourceId := resource.id
  details := [(ascii "resourceType", .str resource.resourceType),
    (ascii "quantity", .str (renderNumeric resource.quantity)), (ascii "unit", .str resource.unit),
    (ascii "budgetLimit", .str limit)]

def staleAlert (checkpoint : CheckpointRow) (stalenessMs : ℕ) : RunAlert where
  id := ascii "projection-stale:" ++ checkpoint.projectionName
  kind := .projectionStale
  severity := .warning
  title := ascii "Projection is stale"
  message := checkpoint.projectionName ++
    ascii " has not advanced within the operator freshness window."
  observedAt := checkpoint.updatedAt
  sourceKind := ascii "projection_checkpoint"
  sourceId := checkpoint.id
  details := [(ascii "projectionName", .str checkpoint.projectionName),
    (ascii "stalenessMs", natValue stalenessMs)]

/-- The alerts of an execution. -/
def executionAlerts (db : AlertDb) (execution : ExecutionRow) : List RunAlert :=
  (if execution.failed && !operatorCancelled execution.failure then [failedAlert execution]
    else []) ++
  if 2 ≤ (db.failedAttempts execution).length then
    [repeatedAlert execution (db.failedAttempts execution)] else []

/-- The alert of a ledger row. -/
def ledgerAlert (resource : LedgerRow) : Option RunAlert :=
  (budgetLimit resource.attributes).bind fun limit =>
    if isBudgetPressure (renderNumeric resource.quantity) limit then
      some (pressureAlert resource limit) else none

/-- The alert of a checkpoint. -/
def checkpointAlert (P : AlertPlatform) (now : ℕ) (checkpoint : CheckpointRow) : Option RunAlert :=
  (P.stringDate checkpoint.updatedAt).bind fun updatedAt =>
    if now - updatedAt ≤ 60000 then none else some (staleAlert checkpoint (now - updatedAt))

/-- The alerts of a run, before they are sorted. -/
def collectRunAlerts (P : AlertPlatform) (now : ℕ) (run : RunIdentity) (db : AlertDb) :
    List RunAlert :=
  (db.approvalsOf run).map approvalAlert ++ (db.blockedRegions run).map blockedAlert ++
    ((db.deliveriesOf run).filter (·.deadLettered)).map deadLetterAlert ++
    (db.executionsOf run).flatMap (executionAlerts db) ++
    (db.ledgerOf run).filterMap ledgerAlert ++
    (db.globalCheckpoints P).filterMap (checkpointAlert P now)

/-- `projectRunAlerts`. -/
def projectRunAlerts (P : AlertPlatform) (now : ℕ) (run : RunIdentity) (db : AlertDb) :
    List RunAlert :=
  orderBy P.localeLe alertSortKey (collectRunAlerts P now run db)

/-! ## Pages -/

/-- An error of the operator's services, by its class and its code. -/
inductive OperatorError where
  | authorization
  | notFound (code : String)
  | validation (code : String)
deriving DecidableEq, Repr

/-- `RunCursor`, of the kind `run-alerts`. -/
structure AlertCursor where
  runId : Utf16
  after : Utf16
deriving DecidableEq

structure RunAlertPage where
  items : List RunAlert
  nextCursor : Option AlertCursor
  complete : Bool
  generatedAt : ℕ

/-- `loadRun`. -/
def loadRun (db : AlertDb) (runId : Utf16) : Except OperatorError RunIdentity :=
  match db.commands.find? fun c => c.id = runId && db.regions.any (·.id = c.regionId) with
  | none => .error (.notFound "run_not_found")
  | some command =>
    match command.correlationId with
    | none | some [] => .error (.validation "run_missing_correlation_id")
    | some correlationId => .ok ⟨command.id, command.regionId, correlationId⟩

/-- `normalizePageLimit`. -/
def normalizeAlertLimit (limit : Option ℤ) : Except OperatorError ℕ :=
  if 1 ≤ limit.getD 25 ∧ limit.getD 25 ≤ 100 then .ok (limit.getD 25).toNat
  else .error (.validation "invalid_limit")

/-- Where a page begins : after the first alert with the key of the cursor. -/
def pageStart (alerts : List RunAlert) (run : RunIdentity) :
    Option AlertCursor → Except OperatorError ℕ
  | none => .ok 0
  | some cursor =>
    if cursor.runId = run.id then
      match alerts.findIdx? (alertSortKey · = cursor.after) with
      | some index => .ok (index + 1)
      | none => .error (.validation "cursor_expired")
    else .error (.validation "cursor_run_mismatch")

/-- `listRunAlerts`. -/
def listRunAlerts (P : AlertPlatform) (now : ℕ) (db : AlertDb) (roles : List String) (runId : Utf16)
    (limit : Option ℤ) (cursor : Option AlertCursor) : Except OperatorError RunAlertPage := do
  if !(roles.contains "operator" || roles.contains "admin") then
    throw .authorization
  let run ← loadRun db runId
  let limit ← normalizeAlertLimit limit
  let alerts := projectRunAlerts P now run db
  let start ← pageStart alerts run cursor
  let items := (alerts.drop start).take limit
  let hasMore := start + items.length < alerts.length
  return {
    items
    nextCursor := if hasMore then items.getLast?.map fun a => ⟨run.id, alertSortKey a⟩ else none
    complete := !hasMore
    generatedAt := now }

/-! ## Ids and sort keys -/

/-- What the id of an alert begins with. -/
def AlertKind.head : AlertKind → String
  | .approvalRequired => "approval-required:"
  | .blockedWork => "blocked-work:"
  | .repeatedFailure => "repeated-failure:"
  | .budgetPressure => "budget-pressure:"
  | .deadLetter => "dead-letter:"
  | .projectionStale => "projection-stale:"
  | .executionFailed => "execution-failed:"

/-- The severity of an alert. -/
def AlertKind.severity : AlertKind → AlertSeverity
  | .blockedWork | .deadLetter | .executionFailed => .error
  | _ => .warning

/-- An alert is named after what it is about, with a head for its kind. -/
structure RunAlert.Named (alert : RunAlert) (subject : Utf16) : Prop where
  id : alert.id = ascii alert.kind.head ++ subject
  severity : alert.severity = alert.kind.severity

/-- What the sort key of an alert begins with. -/
def AlertKind.keyHead (kind : AlertKind) : Utf16 :=
  ascii kind.severity.rank ++ 58 :: (ascii kind.text ++ 58 :: ascii kind.head)

theorem RunAlert.Named.key {alert : RunAlert} {subject : Utf16} (h : alert.Named subject) :
    alertSortKey alert = alert.kind.keyHead ++ subject := by
  rw [alertSortKey, h.severity, h.id, AlertKind.keyHead]
  simp

/-- Texts with heads of which none is a part of another one have equal heads when they are equal. -/
theorem head_eq_of_append {α β : Type*} {head : α → List β}
    (hheads : ∀ x y, head x <+: head y → x = y) {x y : α} {s t : List β}
    (h : head x ++ s = head y ++ t) : x = y ∧ s = t := by
  have hxy : x = y := by
    have hx : head x <+: head y ++ t := ⟨s, h⟩
    rcases List.prefix_or_prefix_of_prefix hx (List.prefix_append (head y) t) with hp | hp
    · exact hheads x y hp
    · exact (hheads y x hp).symm
  subst hxy
  exact ⟨rfl, List.append_cancel_left h⟩

theorem head_prefix : ∀ x y : AlertKind, ascii x.head <+: ascii y.head → x = y := by
  decide

theorem keyHead_prefix : ∀ x y : AlertKind, x.keyHead <+: y.keyHead → x = y := by
  decide

section Named

variable {a b : RunAlert} {s t : Utf16}

theorem RunAlert.Named.eq_of_id (ha : a.Named s) (hb : b.Named t) (h : a.id = b.id) :
    a.kind = b.kind ∧ s = t := by
  rw [ha.id, hb.id] at h
  exact head_eq_of_append head_prefix h

theorem RunAlert.Named.id_eq_iff (ha : a.Named s) (hb : b.Named t) :
    a.id = b.id ↔ alertSortKey a = alertSortKey b := by
  constructor
  · intro h
    obtain ⟨hkind, rfl⟩ := ha.eq_of_id hb h
    rw [ha.key, hb.key, hkind]
  · intro h
    rw [ha.key, hb.key] at h
    obtain ⟨hkind, rfl⟩ := head_eq_of_append keyHead_prefix h
    rw [ha.id, hb.id, hkind]

end Named

/-! ## Projected alerts -/

/-- Alerts with names, of some kinds. -/
def NamedAlerts (kinds : List AlertKind) (alerts : List RunAlert) : Prop :=
  ∀ a ∈ alerts, a.kind ∈ kinds ∧ ∃ subject, a.Named subject

theorem NamedAlerts.append {kinds kinds' : List AlertKind} {xs ys : List RunAlert}
    (hxs : NamedAlerts kinds xs) (hys : NamedAlerts kinds' ys) :
    NamedAlerts (kinds ++ kinds') (xs ++ ys) := by
  intro a ha
  rcases List.mem_append.1 ha with ha | ha
  · exact ⟨List.mem_append_left _ (hxs a ha).1, (hxs a ha).2⟩
  · exact ⟨List.mem_append_right _ (hys a ha).1, (hys a ha).2⟩

/-- The ids of alerts of different kinds are different. -/
theorem NamedAlerts.nodup_append {kinds kinds' : List AlertKind} {xs ys : List RunAlert}
    (hxs : NamedAlerts kinds xs) (hys : NamedAlerts kinds' ys) (hkinds : ∀ kind ∈ kinds, kind ∉ kinds') :
    ((xs ++ ys).map (·.id)).Nodup ↔ (xs.map (·.id)).Nodup ∧ (ys.map (·.id)).Nodup := by
  rw [List.map_append, List.nodup_append]
  refine and_congr_right fun _ => and_iff_left ?_
  intro id hid id' hid' heq
  obtain ⟨a, ha, rfl⟩ := List.mem_map.1 hid
  obtain ⟨b, hb, rfl⟩ := List.mem_map.1 hid'
  obtain ⟨hkind, s, hs⟩ := hxs a ha
  obtain ⟨hkind', t, ht⟩ := hys b hb
  exact hkinds _ hkind ((hs.eq_of_id ht heq).1 ▸ hkind')

section Project

variable {P : AlertPlatform} {now : ℕ} {run : RunIdentity} {db : AlertDb}

/-- Rows in an order are the rows. -/
theorem orderBy_perm {α : Type} (le : Utf16 → Utf16 → Bool) (column : α → Utf16) (rows : List α) :
    (orderBy le column rows).Perm rows :=
  List.perm_insertionSort _ rows

theorem nodup_orderBy {α β : Type} {le : Utf16 → Utf16 → Bool} {column : α → Utf16} {f : α → β}
    {rows : List α} {p : α → Bool} (h : (rows.map f).Nodup) :
    ((orderBy le column (rows.filter p)).map f).Nodup :=
  ((orderBy_perm le column _).map f).nodup_iff.2 (h.sublist (List.filter_sublist.map f))

theorem nodup_map_head {α : Type} {rows : List α} {column : α → Utf16} (head : Utf16)
    (h : (rows.map column).Nodup) : (rows.map fun r => head ++ column r).Nodup := by
  have hmap := h.map (f := (head ++ ·)) fun _ _ => List.append_cancel_left
  rwa [List.map_map] at hmap

/-- The alerts of executions have different ids. -/
theorem nodup_executionAlerts :
    (((db.executionsOf run).flatMap (executionAlerts db)).map (·.id)).Nodup := by
  have hnamed : ∀ e, ∀ a ∈ executionAlerts db e, a.Named e.id := by
    intro e a ha
    rcases List.mem_append.1 ha with ha | ha <;> split_ifs at ha <;>
      simp only [List.mem_singleton, List.not_mem_nil] at ha <;> subst ha <;> exact ⟨rfl, rfl⟩
  rw [List.map_flatMap, List.nodup_flatMap]
  refine ⟨fun e _ => ?_, ?_⟩
  · rw [executionAlerts]
    have hne : (failedAlert e).id ≠ (repeatedAlert e (db.failedAttempts e)).id := by
      intro heq
      have hkind := (RunAlert.Named.eq_of_id (s := e.id) (t := e.id) ⟨rfl, rfl⟩ ⟨rfl, rfl⟩ heq).1
      cases hkind
    split_ifs <;> simp [hne]
  · have hnodup : ((db.executionsOf run).map (·.id)).Nodup := nodup_orderBy db.executions_nodup
    refine (List.pairwise_map.1 hnodup).imp fun {e e'} hne => ?_
    intro id hid hid'
    obtain ⟨a, ha, rfl⟩ := List.mem_map.1 hid
    obtain ⟨b, hb, heq⟩ := List.mem_map.1 hid'
    exact hne ((hnamed e a ha).eq_of_id (hnamed e' b hb) heq.symm).2

/-- An approval is projected once when it is linked to one action of the run at most. -/
theorem nodup_approvalAlerts :
    (((db.approvalsOf run).map approvalAlert).map (·.id)).Nodup ↔
      ∀ approval ∈ db.approvals, approval.requested → (db.actionsOf run approval).length ≤ 1 := by
  have hid : ∀ {s t : Utf16}, ascii "approval-required:" ++ s = ascii "approval-required:" ++ t → s = t :=
    List.append_cancel_left
  have hids : ((db.approvalsOf run).map approvalAlert).map (·.id) =
      (orderBy keyLe (·.id) (db.approvals.filter (·.requested))).flatMap fun approval =>
        List.replicate (db.actionsOf run approval).length
          (ascii "approval-required:" ++ approval.id) := by
    rw [AlertDb.approvalsOf, List.map_map, List.map_flatMap]
    refine List.flatMap_congr fun approval _ => ?_
    rw [List.map_map]
    exact List.map_eq_replicate_iff.2 fun _ _ => rfl
  rw [hids, List.nodup_flatMap]
  have hmem : ∀ approval, approval ∈ orderBy keyLe (·.id) (db.approvals.filter (·.requested)) ↔
      approval ∈ db.approvals ∧ approval.requested = true := by
    intro approval
    rw [(orderBy_perm _ _ _).mem_iff, List.mem_filter]
  constructor
  · rintro ⟨honce, -⟩ approval happroval hrequested
    exact List.nodup_replicate.1 (honce approval ((hmem approval).2 ⟨happroval, hrequested⟩))
  · intro honce
    refine ⟨fun approval happroval => ?_, ?_⟩
    · obtain ⟨happroval, hrequested⟩ := (hmem approval).1 happroval
      exact List.nodup_replicate.2 (honce approval happroval hrequested)
    · have hnodup : ((orderBy keyLe (·.id) (db.approvals.filter (·.requested))).map (·.id)).Nodup :=
        nodup_orderBy db.approvals_nodup
      refine (List.pairwise_map.1 hnodup).imp fun {a b} hne => ?_
      intro id hid hid'
      have heq := (List.eq_of_mem_replicate hid).symm.trans (List.eq_of_mem_replicate hid')
      exact hne (List.append_cancel_left heq)

/-- No ledger row is projected : `BigInt` refuses its quantity. -/
theorem ledgerAlert_eq_none (resource : LedgerRow) : ledgerAlert resource = none := by
  have hpoint : (46 : CodeUnit) ∈ renderNumeric resource.quantity :=
    List.mem_append_right _ List.mem_cons_self
  rw [ledgerAlert]
  cases budgetLimit resource.attributes with
  | none => rfl
  | some limit => simp [isBudgetPressure, bigInt?_of_point hpoint]

theorem namedAlerts_map {α : Type} {f : α → RunAlert} {kind : AlertKind} {rows : List α}
    (h : ∀ row, (f row).kind = kind ∧ ∃ subject, (f row).Named subject) :
    NamedAlerts [kind] (rows.map f) := by
  intro a ha
  obtain ⟨row, -, rfl⟩ := List.mem_map.1 ha
  exact ⟨List.mem_singleton.2 (h row).1, (h row).2⟩

theorem namedAlerts_executions :
    NamedAlerts [.executionFailed, .repeatedFailure]
      ((db.executionsOf run).flatMap (executionAlerts db)) := by
  intro a ha
  obtain ⟨e, -, ha⟩ := List.mem_flatMap.1 ha
  rcases List.mem_append.1 ha with ha | ha <;> split_ifs at ha <;>
    simp only [List.mem_singleton, List.not_mem_nil] at ha <;> subst ha
  · exact ⟨List.mem_cons_self, e.id, rfl, rfl⟩
  · exact ⟨List.mem_cons_of_mem _ List.mem_cons_self, e.id, rfl, rfl⟩

/-- The alert of a stale checkpoint is that of its name. -/
theorem checkpointAlert_eq_some {checkpoint : CheckpointRow} {a : RunAlert}
    (h : checkpointAlert P now checkpoint = some a) :
    a.kind = .projectionStale ∧ a.Named checkpoint.projectionName := by
  obtain ⟨updatedAt, -, h⟩ := Option.bind_eq_some_iff.1 h
  split_ifs at h
  obtain rfl := Option.some.inj h
  exact ⟨rfl, rfl, rfl⟩

theorem namedAlerts_checkpoints :
    NamedAlerts [.projectionStale]
      ((db.globalCheckpoints P).filterMap (checkpointAlert P now)) := by
  intro a ha
  obtain ⟨checkpoint, -, ha⟩ := List.mem_filterMap.1 ha
  obtain ⟨hkind, hnamed⟩ := checkpointAlert_eq_some ha
  exact ⟨List.mem_singleton.2 hkind, _, hnamed⟩

theorem nodup_checkpointAlerts :
    (((db.globalCheckpoints P).filterMap (checkpointAlert P now)).map (·.id)).Nodup := by
  have hnames : ((db.globalCheckpoints P).map (·.projectionName)).Nodup := by
    refine ((orderBy_perm P.nameLe (fun c : CheckpointRow => c.projectionName) _).map _).nodup_iff.2 ?_
    have hkeys := db.checkpoints_nodup.sublist
      ((List.filter_sublist (p := fun c => c.streamKey = ascii "global")).map
        fun c : CheckpointRow => (c.projectionName, c.streamKey))
    refine List.Nodup.of_map (fun name => (name, ascii "global")) ?_
    rw [List.map_map]
    refine (List.map_congr_left fun c hc => ?_) ▸ hkeys
    have hglobal := of_decide_eq_true (List.mem_filter.1 hc).2
    exact Prod.ext rfl hglobal
  rw [List.Nodup, List.pairwise_map, List.pairwise_filterMap]
  refine (List.pairwise_map.1 hnames).imp fun {c c'} hne => ?_
  intro a ha b hb heq
  exact hne (((checkpointAlert_eq_some ha).2).eq_of_id (checkpointAlert_eq_some hb).2 heq).2

/-- The collected alerts are named, and none is about a budget. -/
theorem namedAlerts_collect : NamedAlerts [.approvalRequired, .blockedWork, .deadLetter,
    .executionFailed, .repeatedFailure, .projectionStale] (collectRunAlerts P now run db) := by
  have happrovals : NamedAlerts [.approvalRequired] ((db.approvalsOf run).map approvalAlert) :=
    namedAlerts_map fun row => ⟨rfl, row.1.id, rfl, rfl⟩
  have hblocked : NamedAlerts [.blockedWork] ((db.blockedRegions run).map blockedAlert) :=
    namedAlerts_map fun row => ⟨rfl, row.id, rfl, rfl⟩
  have hdead : NamedAlerts [.deadLetter]
      (((db.deliveriesOf run).filter (·.deadLettered)).map deadLetterAlert) :=
    namedAlerts_map fun row => ⟨rfl, row.id, rfl, rfl⟩
  have hledger : NamedAlerts [] ((db.ledgerOf run).filterMap ledgerAlert) := by
    intro a ha
    obtain ⟨row, -, ha⟩ := List.mem_filterMap.1 ha
    rw [ledgerAlert_eq_none] at ha
    cases ha
  exact ((((happrovals.append hblocked).append hdead).append namedAlerts_executions).append
    hledger).append namedAlerts_checkpoints

/-- The ids of the collected alerts are different when every approval is projected once. -/
theorem nodup_collect : ((collectRunAlerts P now run db).map (·.id)).Nodup ↔
    ∀ approval ∈ db.approvals, approval.requested → (db.actionsOf run approval).length ≤ 1 := by
  have happrovals : NamedAlerts [.approvalRequired] ((db.approvalsOf run).map approvalAlert) :=
    namedAlerts_map fun row => ⟨rfl, row.1.id, rfl, rfl⟩
  have hblocked : NamedAlerts [.blockedWork] ((db.blockedRegions run).map blockedAlert) :=
    namedAlerts_map fun row => ⟨rfl, row.id, rfl, rfl⟩
  have hdead : NamedAlerts [.deadLetter]
      (((db.deliveriesOf run).filter (·.deadLettered)).map deadLetterAlert) :=
    namedAlerts_map fun row => ⟨rfl, row.id, rfl, rfl⟩
  have hledger : (db.ledgerOf run).filterMap ledgerAlert = [] :=
    List.filterMap_eq_nil_iff.2 fun row _ => ledgerAlert_eq_none row
  have hblockedIds : (((db.blockedRegions run).map blockedAlert).map (·.id)).Nodup := by
    rw [List.map_map]
    exact nodup_map_head (ascii "blocked-work:") (nodup_orderBy db.regions_nodup)
  have hdeadIds : ((((db.deliveriesOf run).filter (·.deadLettered)).map deadLetterAlert).map
      (·.id)).Nodup := by
    rw [List.map_map]
    refine nodup_map_head (ascii "dead-letter:") ?_
    have hdeliveries : ((db.deliveriesOf run).map (·.id)).Nodup := nodup_orderBy db.deliveries_nodup
    exact hdeliveries.sublist (List.filter_sublist.map _)
  rw [collectRunAlerts, hledger, List.append_nil,
    (((happrovals.append hblocked).append hdead).append namedAlerts_executions).nodup_append
      namedAlerts_checkpoints (by decide),
    ((happrovals.append hblocked).append hdead).nodup_append namedAlerts_executions (by decide),
    (happrovals.append hblocked).nodup_append hdead (by decide),
    happrovals.nodup_append hblocked (by decide), nodup_approvalAlerts]
  exact ⟨fun h => h.1.1.1.1,
    fun h => ⟨⟨⟨⟨h, hblockedIds⟩, hdeadIds⟩, nodup_executionAlerts⟩, nodup_checkpointAlerts⟩⟩

end Project

/-! ## Following the cursors -/

/-- What a reader has received who follows the cursors of a listing to its end. -/
inductive Follows (list : Option AlertCursor → Except OperatorError RunAlertPage) :
    Option AlertCursor → List RunAlert → Prop
  | last {cursor : Option AlertCursor} {page : RunAlertPage} (hpage : list cursor = .ok page)
      (hlast : page.nextCursor = none) : Follows list cursor page.items
  | next {cursor : Option AlertCursor} {page : RunAlertPage} {next : AlertCursor}
      {rest : List RunAlert} (hpage : list cursor = .ok page) (hnext : page.nextCursor = some next)
      (hrest : Follows list (some next) rest) : Follows list cursor (page.items ++ rest)

/-- An operator who reads the alerts of a run, with a page size. -/
structure AlertReader (db : AlertDb) where
  roles : List String
  operator : (roles.contains "operator" || roles.contains "admin") = true
  runId : Utf16
  run : RunIdentity
  loaded : loadRun db runId = .ok run
  limit : Option ℤ
  valid : 1 ≤ limit.getD 25 ∧ limit.getD 25 ≤ 100

/-- The pages that a reader is given. -/
def AlertReader.list (P : AlertPlatform) (now : ℕ) {db : AlertDb} (r : AlertReader db) :
    Option AlertCursor → Except OperatorError RunAlertPage :=
  listRunAlerts P now db r.roles r.runId r.limit

section Follow

variable {P : AlertPlatform} {now : ℕ} {db : AlertDb} {r : AlertReader db}

theorem AlertReader.list_eq {cursor : Option AlertCursor} {start : ℕ}
    (h : pageStart (projectRunAlerts P now r.run db) r.run cursor = .ok start) :
    let alerts := projectRunAlerts P now r.run db
    let items := (alerts.drop start).take (r.limit.getD 25).toNat
    r.list P now cursor = .ok {
      items
      nextCursor := if start + items.length < alerts.length then
        items.getLast?.map fun a => ⟨r.run.id, alertSortKey a⟩ else none
      complete := !decide (start + items.length < alerts.length)
      generatedAt := now } := by
  rw [AlertReader.list, listRunAlerts, r.operator, r.loaded, normalizeAlertLimit, if_pos r.valid]
  simp only [Bool.not_true, Bool.false_eq_true, if_false]
  refine Except.bind_eq_ok.2 ⟨_, rfl, Except.bind_eq_ok.2 ⟨_, rfl,
    Except.bind_eq_ok.2 ⟨start, h, ?_⟩⟩⟩
  rfl

/-- Where sort keys are different, the page after an alert begins behind it. -/
theorem pageStart_key {alerts : List RunAlert} {run : RunIdentity}
    (hkeys : (alerts.map alertSortKey).Nodup) {i : ℕ} (hi : i < alerts.length) :
    pageStart alerts run (some ⟨run.id, alertSortKey alerts[i]⟩) = .ok (i + 1) := by
  have hindex : alerts.findIdx? (alertSortKey · = alertSortKey alerts[i]) = some i := by
    rw [List.findIdx?_eq_some_iff_getElem]
    refine ⟨hi, by simp, fun j hj => ?_⟩
    have hne := List.pairwise_iff_getElem.1 (List.pairwise_map.1 hkeys) j i (hj.trans hi) hi hj
    simpa using hne
  rw [pageStart, if_pos rfl, hindex]

/-- A reader who begins at a place receives what follows it. -/
theorem follows_from (hkeys : ((projectRunAlerts P now r.run db).map alertSortKey).Nodup)
    (remaining : ℕ) {cursor : Option AlertCursor} {start : ℕ}
    (hstart : pageStart (projectRunAlerts P now r.run db) r.run cursor = .ok start)
    (hremaining : (projectRunAlerts P now r.run db).length - start ≤ remaining) :
    Follows (r.list P now) cursor ((projectRunAlerts P now r.run db).drop start) := by
  have hlimit : 1 ≤ (r.limit.getD 25).toNat := by
    have h := r.valid.1
    omega
  induction remaining generalizing cursor start with
  | zero =>
    have hpage := AlertReader.list_eq hstart
    dsimp only at hpage
    have hnil : (projectRunAlerts P now r.run db).drop start = [] :=
      List.drop_eq_nil_of_le (by omega)
    rw [hnil] at hpage ⊢
    have hlast := Follows.last hpage (by simp)
    simpa using hlast
  | succ remaining ih =>
    have hpage := AlertReader.list_eq hstart
    generalize halerts : projectRunAlerts P now r.run db = alerts at *
    dsimp only at hpage
    by_cases hmore : start + ((alerts.drop start).take (r.limit.getD 25).toNat).length < alerts.length
    · rw [List.length_take, List.length_drop] at hmore
      have hend : start + (r.limit.getD 25).toNat < alerts.length := by omega
      have hlast : start + (r.limit.getD 25).toNat - 1 < alerts.length := by omega
      have hgetLast : ((alerts.drop start).take (r.limit.getD 25).toNat).getLast? =
          some alerts[start + (r.limit.getD 25).toNat - 1] := by
        rw [List.getLast?_eq_getElem?, List.length_take, List.length_drop, List.getElem?_take,
          List.getElem?_drop, if_pos (by omega), List.getElem?_eq_some_iff]
        refine ⟨by omega, ?_⟩
        congr 1
        omega
      have hnext : pageStart alerts r.run _ = _ := pageStart_key hkeys hlast
      have hindex : start + (r.limit.getD 25).toNat - 1 + 1 = start + (r.limit.getD 25).toNat := by
        omega
      rw [hindex] at hnext
      have hrest := ih hnext (by omega)
      have hwhole : (alerts.drop start).take (r.limit.getD 25).toNat ++
          alerts.drop (start + (r.limit.getD 25).toNat) = alerts.drop start := by
        rw [← List.drop_drop, List.take_append_drop]
      rw [← hwhole]
      refine Follows.next hpage ?_ hrest
      dsimp only
      rw [hgetLast, List.length_take, List.length_drop, if_pos (by omega)]
      rfl
    · have hall : (alerts.drop start).take (r.limit.getD 25).toNat = alerts.drop start := by
        rw [List.length_take, List.length_drop] at hmore
        exact List.take_of_length_le (by rw [List.length_drop]; omega)
      have hlast := Follows.last hpage (if_neg hmore)
      rwa [hall] at hlast

end Follow

/-! ## Complete alerts -/

/-- Whether a ledger row is at 80 percent of its durable limit. -/
def underPressure (row : LedgerRow) : Bool :=
  match (budgetLimit row.attributes).bind bigInt? with
  | some limit => limit * 80 * 10 ^ 12 ≤ row.quantity * 100
  | none => false

/-- What a reader is told of the alerts of a run. -/
structure RunAlertsComplete (P : AlertPlatform) (now : ℕ) (db : AlertDb) (r : AlertReader db) :
    Prop where
  /-- The pages end, and what they hold are the projected alerts. -/
  followed : Follows (r.list P now) none (projectRunAlerts P now r.run db)
  /-- No alert is among them twice. -/
  once : ((projectRunAlerts P now r.run db).map (·.id)).Nodup
  /-- A ledger row has an alert exactly when it is at 80 percent of its limit. -/
  pressure : ∀ id, (∃ a ∈ projectRunAlerts P now r.run db, a.kind = .budgetPressure ∧ a.sourceId = id) ↔
    ∃ row ∈ db.ledgerOf r.run, row.id = id ∧ underPressure row

/-- Alerts are complete exactly when every requested approval is linked to one action of the run at
most, and no ledger row of the run is at 80 percent of its durable limit. -/
theorem run_alerts_iff (P : AlertPlatform) (now : ℕ) (db : AlertDb) (r : AlertReader db) :
    RunAlertsComplete P now db r ↔
      (∀ approval ∈ db.approvals, approval.requested → (db.actionsOf r.run approval).length ≤ 1) ∧
        ∀ row ∈ db.ledgerOf r.run, ¬underPressure row := by
  have hperm : (projectRunAlerts P now r.run db).Perm (collectRunAlerts P now r.run db) :=
    orderBy_perm _ _ _
  have hids : ((projectRunAlerts P now r.run db).map (·.id)).Nodup ↔
      ∀ approval ∈ db.approvals, approval.requested → (db.actionsOf r.run approval).length ≤ 1 := by
    exact (hperm.map _).nodup_iff.trans nodup_collect
  have hnamed : ∀ a ∈ projectRunAlerts P now r.run db, ∃ subject, a.Named subject := fun a ha =>
    (namedAlerts_collect a (hperm.mem_iff.1 ha)).2
  have hnone : ∀ a ∈ projectRunAlerts P now r.run db, a.kind ≠ .budgetPressure := by
    rintro a ha hkind
    have hmem := (namedAlerts_collect a (hperm.mem_iff.1 ha)).1
    rw [hkind] at hmem
    exact absurd hmem (by decide)
  constructor
  · intro h
    refine ⟨hids.1 h.once, fun row hrow hpressure => ?_⟩
    obtain ⟨a, ha, hkind, -⟩ := (h.pressure row.id).2 ⟨row, hrow, rfl, hpressure⟩
    exact hnone a ha hkind
  · rintro ⟨hactions, hbudgets⟩
    have honce := hids.2 hactions
    have hkeys : ((projectRunAlerts P now r.run db).map alertSortKey).Nodup := by
      rw [List.Nodup, List.pairwise_map] at honce ⊢
      refine honce.imp_of_mem fun {a b} ha hb hne heq => ?_
      obtain ⟨s, hs⟩ := hnamed a ha
      obtain ⟨t, ht⟩ := hnamed b hb
      exact hne ((hs.id_eq_iff ht).2 heq)
    have hstart : pageStart (projectRunAlerts P now r.run db) r.run none = .ok 0 := rfl
    refine ⟨follows_from hkeys _ hstart le_rfl, honce, fun id => iff_of_false ?_ ?_⟩
    · rintro ⟨a, ha, hkind, -⟩
      exact hnone a ha hkind
    · rintro ⟨row, hrow, -, hpressure⟩
      exact hbudgets row hrow hpressure

/-- A run with an approval that two actions wait for. -/
def sharedApproval : AlertDb where
  commands := [⟨[1], [2], [3], some [4], [5], 0⟩]
  regions := [⟨[2], [6], false, 0⟩]
  deliveries := [⟨[7], [2], some [4], false, 1, 0⟩]
  executions := [⟨[8], [7], false, none, none, 0⟩]
  attempts := []
  approvals := [⟨[9], true, 0⟩]
  actions := [⟨[10], some [9], [8], [12], .null⟩, ⟨[11], some [9], [8], [12], .null⟩]
  ledger := []
  checkpoints := []
  regions_nodup := by decide
  deliveries_nodup := by decide
  executions_nodup := by decide
  approvals_nodup := by decide
  ledger_nodup := by decide
  checkpoints_nodup := by decide

/-- An approval of two actions is an alert that is returned twice. -/
theorem shared_approval_repeated : ¬ ∀ (P : AlertPlatform) (now : ℕ) (db : AlertDb)
    (r : AlertReader db), RunAlertsComplete P now db r := by
  intro h
  let P : AlertPlatform := ⟨keyLe, keyLe, some⟩
  let r : AlertReader sharedApproval :=
    ⟨["operator"], by decide, [1], ⟨[1], [2], [4]⟩, rfl, some 1, by decide⟩
  have honce := (h P 0 sharedApproval r).once
  have hperm : (projectRunAlerts P 0 r.run sharedApproval).Perm
      (collectRunAlerts P 0 r.run sharedApproval) := orderBy_perm _ _ _
  have hactions := nodup_collect.1 ((hperm.map _).nodup_iff.1 honce) ⟨[9], true, 0⟩
    List.mem_cons_self rfl
  exact absurd hactions (by decide)

end FactoryFloor
