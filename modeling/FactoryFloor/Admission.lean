import FactoryFloor.Schema
import Mathlib.Algebra.Group.Nat.Defs

/-!
# Resource admission

`reserveInTransaction` of `resource-admission-service.ts` : a request is charged against
the active budget of every ancestor of its region, and it is admitted when each of them
has room. A request whose idempotency key has a reservation is admitted as it was.

The consumed quantity comes from the database as text. A sum over a `numeric(38,12)`
column is printed with its fraction digits, which `BigInt` does not parse; the sum over no
rows is `0`.

`reconcile` charges the ledger once for a request, and `configureRegionBudgets` replaces the
budgets of a region.

Rows of `admission_decisions` are written and never read, so they are left out.
-/

namespace FactoryFloor

open Relational

/-- `executionLeaseMayProceed`. -/
def executionLeaseMayProceed (outcome : AdmissionOutcome) : Bool :=
  outcome = .admitted

structure ReserveResourceInput where
  regionId : Uuid
  resourceType : String
  quantity : ℕ
  idempotencyKey : ReservationKey
  executionId : Option Uuid
  attemptId : Option Uuid
  externalActionId : Option Uuid
deriving DecidableEq, Repr

/-- `calculateAdmission`. -/
def calculateAdmission (limitQuantity consumedQuantity reservedQuantity requestedQuantity : ℤ)
    (exhaustionOutcome : AdmissionOutcome) : AdmissionOutcome :=
  if requestedQuantity ≤ limitQuantity - consumedQuantity - reservedQuantity then .admitted
  else exhaustionOutcome

namespace Db

variable (db : Db)

/-- A region and its ancestors, from the region up. A chain is no longer than the table. -/
def ancestorsUpTo : ℕ → Uuid → List Uuid
  | 0, _ => []
  | n + 1, id =>
    match db.region? id with
    | none => []
    | some region =>
      match region.parentRegionId with
      | none => [id]
      | some parent => id :: ancestorsUpTo n parent

def ancestors (id : Uuid) : List Uuid :=
  db.ancestorsUpTo db.regions.length id

/-- The active budgets of a resource on the ancestor chain, nearest first. -/
def activeBudgets (regionId : Uuid) (resourceType : String) : List ResourceBudget :=
  (db.ancestors regionId).flatMap fun ancestor =>
    (db.budgets.filter fun b =>
      b.scopeId = ancestor && b.resourceType = resourceType && b.retiredAt.isNone).insertionSort
        (fun b c => b.id ≤ c.id)

/-- The reserved quantity of a budget. -/
def reservedQuantity (budgetId : Uuid) : ℕ :=
  ((db.reservations.filter fun r => r.budgetId = budgetId && r.status = .reserved).map
    (·.quantity)).foldr (· + ·) 0

/-- The ledger rows charged to a region's subtree. -/
def consumedRows (budget : ResourceBudget) (resourceType : String) : List ResourceLedgerEntry :=
  db.ledger.filter fun l => l.resourceType = resourceType && budget.scopeId ∈ db.ancestors l.regionId

/-- `BigInt(consumed.quantity)`. -/
def consumedQuantity (budget : ResourceBudget) (resourceType : String) : Outcome ℤ :=
  if (db.consumedRows budget resourceType).isEmpty then .ok 0
  else .error (.thrown "Cannot convert the consumed quantity to a BigInt")

/-- The outcome of the first budget that refuses the request. -/
def firstRefusal (input : ReserveResourceInput) :
    List ResourceBudget → Outcome (Option AdmissionOutcome)
  | [] => .ok none
  | budget :: budgets => do
    let consumed ← db.consumedQuantity budget input.resourceType
    let outcome := calculateAdmission budget.limitQuantity consumed (db.reservedQuantity budget.id)
      input.quantity budget.exhaustionOutcome
    if outcome = .admitted then firstRefusal input budgets else return some outcome

end Db

/-- One reservation row a budget. -/
def insertReservations (requestId : Uuid) (input : ReserveResourceInput)
    (reservations : List ResourceReservation) :
    List ResourceBudget → Except SqlError (List ResourceReservation)
  | [] => .ok reservations
  | budget :: budgets => do
    let reservations ← insert
      { requestId, budgetId := budget.id, regionId := input.regionId,
        executionId := input.executionId, attemptId := input.attemptId,
        externalActionId := input.externalActionId, idempotencyKey := input.idempotencyKey,
        quantity := input.quantity, status := .reserved }
      reservations
    insertReservations requestId input reservations budgets

/-- The cast of a quantity to `bigint`, in the rows of decisions and reservations. -/
def castBigint (quantity : ℕ) : Outcome Unit :=
  require (quantity < 2 ^ 63) (.sql (.outOfRange "bigint"))

/-- `reserveInTransaction`. -/
def reserveInTransaction (P : Platform) (input : ReserveResourceInput) (db : Db) :
    Outcome (AdmissionOutcome × Db) :=
  if db.reservations.any (·.idempotencyKey = input.idempotencyKey) then .ok (.admitted, db)
  else do
    let budgets := db.activeBudgets input.regionId input.resourceType
    let requestId := db.nextUuid P
    match ← db.firstRefusal input budgets with
    | some outcome =>
      castBigint input.quantity
      return (outcome, db.draw)
    | none =>
      castBigint input.quantity
      let reservations ← sql (insertReservations requestId input db.reservations budgets)
      return (.admitted, { db.draw with reservations })

/-- What a caller of `reserve` asks for. -/
structure ReserveRequest where
  regionId : Uuid
  resourceType : String
  quantity : ℤ
  idempotencyKey : ReservationKey
  executionId : Option Uuid
  attemptId : Option Uuid
  externalActionId : Option Uuid

/-- A request whose quantity is checked. -/
def ReserveRequest.input (request : ReserveRequest) : ReserveResourceInput :=
  { request with quantity := request.quantity.toNat }

/-- `reserve`. -/
def reserve (P : Platform) (request : ReserveRequest) (db : Db) :
    Outcome (AdmissionOutcome × Db) := do
  require (0 ≤ request.quantity) (.thrown "reservation quantity must be non-negative")
  require (request.idempotencyKey ≠ .other "") (.thrown "idempotency key is required")
  reserveInTransaction P request.input db

/-- `reserveExecutionLeaseAdmission`. -/
def reserveExecutionLeaseAdmission (P : Platform) (regionId executionId : Uuid) (db : Db) :
    Outcome (AdmissionOutcome × Db) :=
  reserveInTransaction P
    { regionId, resourceType := "concurrent_executions", quantity := 1,
      idempotencyKey := .concurrentExecutions executionId, executionId := some executionId,
      attemptId := none, externalActionId := none }
    db

/-- A reservation changes the reservations, and at most draws uuids. -/
theorem reserveInTransaction_frame {P : Platform} {input : ReserveResourceInput} {db db' : Db}
    {outcome : AdmissionOutcome} (h : reserveInTransaction P input db = .ok (outcome, db')) :
    ∃ reservations drawn, db.drawn ≤ drawn ∧ db' = { db with reservations, drawn } := by
  unfold reserveInTransaction at h
  split at h
  · obtain ⟨-, rfl⟩ := Prod.mk.inj (Except.ok.inj h)
    exact ⟨db.reservations, db.drawn, le_rfl, rfl⟩
  obtain ⟨refusal, -, h⟩ := Except.bind_eq_ok.1 h
  cases refusal with
  | some o =>
    obtain ⟨-, -, h⟩ := Except.bind_eq_ok.1 h
    obtain ⟨-, rfl⟩ := Prod.mk.inj (Except.ok.inj h)
    exact ⟨db.reservations, db.drawn + 1, Nat.le_succ _, rfl⟩
  | none =>
    obtain ⟨-, -, h⟩ := Except.bind_eq_ok.1 h
    obtain ⟨reservations, -, h⟩ := Except.bind_eq_ok.1 h
    obtain ⟨-, rfl⟩ := Prod.mk.inj (Except.ok.inj h)
    exact ⟨reservations, db.drawn + 1, Nat.le_succ _, rfl⟩

/-! ## Reconciling -/

/-- The reservations of a request with their budgets, in the order of the budgets. -/
def requestReservations (requestId : Uuid) (db : Db) :
    List (ResourceReservation × ResourceBudget) :=
  ((db.reservations.filter (·.requestId = requestId)).filterMap fun r =>
    (db.budgets.find? (·.id = r.budgetId)).map fun b => (r, b)).insertionSort
      fun x y => x.1.budgetId ≤ y.1.budgetId

/-- The ledger row of a request. -/
def chargeOf (requestId : Uuid) (actualQuantity : ℕ) (r : ResourceReservation)
    (b : ResourceBudget) : ResourceLedgerEntry :=
  { regionId := r.regionId, executionId := r.executionId, attemptId := r.attemptId,
    externalActionId := r.externalActionId, resourceType := b.resourceType,
    quantity := actualQuantity, unit := b.unit, admissionRequestId := some requestId }

/-- `reconcile`. -/
def reconcile (requestId : Uuid) (actualQuantity : ℕ) (db : Db) : Outcome (Bool × Db) := do
  match requestReservations requestId db with
  | [] => return (false, db)
  | (first, budget) :: _ =>
    castBigint actualQuantity
    let ledger ← sql (insertOrIgnore
      (fun l m => l.admissionRequestId.isSome && l.admissionRequestId = m.admissionRequestId &&
        l.resourceType = m.resourceType)
      (chargeOf requestId actualQuantity first budget) db.ledger)
    let reservations := updateWhere (fun r => r.requestId = requestId && r.status = .reserved)
      (fun r => { r with status := .reconciled }) db.reservations
    return (true, { db.draw with ledger, reservations })

/-! ## Budgets -/

/-- `NormalizedBudgetLimit`. -/
structure NormalizedBudgetLimit where
  resourceType : String
  limitQuantity : ℕ
  unit : String
  exhaustionOutcome : AdmissionOutcome
deriving DecidableEq, Repr

/-- Retire the budgets of a condition. -/
def retireBudgets (now : Time) (p : ResourceBudget → Bool) (db : Db) : Db :=
  { db with budgets := updateWhere p (fun b => { b with retiredAt := some now }) db.budgets }

/-- The active budget of a region for a resource. -/
def activeBudget (db : Db) (regionId : Uuid) (resourceType : String) : Option ResourceBudget :=
  db.budgets.find? fun b =>
    b.scopeId = regionId && b.resourceType = resourceType && b.retiredAt.isNone

/-- The budget of the parent region a limit comes under. -/
def parentBudget (parentRegionId : Option Uuid) (limit : NormalizedBudgetLimit) (db : Db) :
    Option ResourceBudget :=
  parentRegionId.bind fun parent => activeBudget db parent limit.resourceType

/-- Whether a budget says what a limit asks for. -/
def sameBudget (parentBudgetId : Option Uuid) (limit : NormalizedBudgetLimit)
    (b : ResourceBudget) : Bool :=
  b.parentBudgetId = parentBudgetId && b.limitQuantity = limit.limitQuantity &&
    b.unit = limit.unit && b.exhaustionOutcome = limit.exhaustionOutcome

/-- The configuration of one limit of a region, where `existing` were its active budgets. -/
def configureLimit (P : Platform) (now : Time) (regionId : Uuid) (parentRegionId : Option Uuid)
    (existing : List ResourceBudget) (db : Db) (limit : NormalizedBudgetLimit) : Outcome Db := do
  let parent := parentBudget parentRegionId limit db
  require (parent.all (limit.limitQuantity ≤ ·.limitQuantity))
    (.thrown "child budget cannot exceed parent limit")
  let current := existing.find? (·.resourceType = limit.resourceType)
  if current.any (sameBudget (parent.map (·.id)) limit) then return db
  else
    let db := retireBudgets now (fun b => current.any (·.id = b.id)) db
    castBigint limit.limitQuantity
    let budgets ← sql (insert
      { id := db.nextUuid P, scopeId := regionId, parentBudgetId := parent.map (·.id),
        resourceType := limit.resourceType, unit := limit.unit,
        limitQuantity := limit.limitQuantity, exhaustionOutcome := limit.exhaustionOutcome,
        retiredAt := none } db.budgets)
    return { db.draw with budgets }

/-- `configureRegionBudgetsInTransaction`, of normalized limits. -/
def configureRegionBudgets (P : Platform) (now : Time) (regionId : Uuid)
    (parentRegionId : Option Uuid) (limits : List NormalizedBudgetLimit) (db : Db) : Outcome Db :=
  let existing := db.budgets.filter fun b => b.scopeId = regionId && b.retiredAt.isNone
  let undesired (b : ResourceBudget) : Bool :=
    existing.any (·.id = b.id) && limits.all (·.resourceType ≠ b.resourceType)
  limits.foldlM (configureLimit P now regionId parentRegionId existing)
    (retireBudgets now undesired db)

end FactoryFloor
