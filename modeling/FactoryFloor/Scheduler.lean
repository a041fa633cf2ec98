import FactoryFloor.Admission
import FactoryFloor.Commands

/-!
# The scheduler

`ExecutionLeaseService.leaseNextAttempt`. A poll takes the first due delivery of each
group, in order, and tries to lease an attempt for the group (`tryCandidate`).

A group is scheduled when every required input port has as many ready deliveries as its
fan-in rule expects, and no optional port has more (`selectGroup`). The selected
deliveries name the execution by the digest of their identities. A group that cannot be
scheduled now is put off (`deferGroup`).

`pg_try_advisory_xact_lock` is the parameter `acquired`.
-/

namespace FactoryFloor

open Relational

/-- `CANDIDATE_GROUP_LIMIT`. -/
def candidateGroupLimit : ℕ := 50

/-- `INCOMPLETE_GROUP_RECHECK_MS`. -/
def incompleteGroupRecheckMs : ℕ := 250

structure LeaseNextAttemptOptions where
  workerId : String
  leaseDurationMs : ℤ
  componentSelectors : Option (List String)
deriving DecidableEq, Repr

structure LeasedInput where
  portName : String
  deliveryId : Uuid
  payload : Json

structure LeasedExecutionAttempt where
  executionId : Uuid
  attemptId : Uuid
  attemptNumber : ℕ
  leaseToken : LeaseToken
  leaseExpiresAt : Time
  inputs : List LeasedInput

/-- `validateLeaseDuration`. -/
def validLeaseDuration (ms : ℤ) : Bool :=
  decide (0 < ms) && decide (ms ≤ 15 * 60000)

/-! ## Candidates -/

/-- The order `available_at, created_at, id`. -/
def duesBefore (d e : Delivery) : Prop :=
  d.availableAt < e.availableAt ∨ d.availableAt = e.availableAt ∧
    (d.createdAt < e.createdAt ∨ d.createdAt = e.createdAt ∧ d.id ≤ e.id)

instance : DecidableRel duesBefore := fun d e => by unfold duesBefore; infer_instance

/-- The rows of rank one in their group, of rows in the ranking order. -/
def firstOfGroups : List Delivery → List Delivery
  | [] => []
  | d :: ds => d :: (firstOfGroups ds).filter (·.toGroupKey ≠ d.toGroupKey)

/-- Whether the delivery's component definition is one a selector names. -/
def matchesSelectors (db : Db) (selectors : Option (List String)) (d : Delivery) : Bool :=
  match db.component? d.targetComponentInstanceId with
  | none => false
  | some c =>
    match db.definitions.find? (·.id = c.componentDefinitionId) with
    | none => false
    | some cd => selectors.all fun names => (cd.name ++ "@" ++ cd.version) ∈ names

/-- The deliveries of a group that are ready and due. -/
def due (now : Time) (group : GroupKey) (d : Delivery) : Bool :=
  d.status = .ready && d.toGroupKey = group && decide (d.availableAt ≤ now)

/-- The candidate query. -/
def candidates (now : Time) (selectors : Option (List String)) (db : Db) : List Delivery :=
  (firstOfGroups ((db.deliveries.filter fun d =>
      d.status = .ready && decide (d.availableAt ≤ now) && matchesSelectors db selectors d).insertionSort
    duesBefore)).take candidateGroupLimit

/-! ## Groups -/

/-- `deferGroup`. -/
def deferGroup (now : Time) (group : GroupKey) (db : Db) : Outcome Db :=
  updateDeliveries (due now group)
    (fun d => { d with availableAt := now + incompleteGroupRecheckMs }) db

/-- `input.split('.')`. -/
def splitDots : List Char → List (List Char)
  | [] => [[]]
  | c :: cs =>
    match c, splitDots cs with
    | '.', parts => [] :: parts
    | c, part :: parts => (c :: part) :: parts
    | c, [] => [[c]]

/-- Whether a fan-in rule is about a port of the named instance. -/
def FanInRule.about (rule : FanInRule) (instanceName portName : String) : Bool :=
  match splitDots rule.input.toList with
  | name :: port :: _ => name = instanceName.toList && port = portName.toList
  | _ => false

/-- `fanInExpected.get(port) ?? 1` : the last rule about the port that states a positive
number of deliveries. -/
def fanInExpected (rules : List FanInRule) (instanceName portName : String) : ℕ :=
  ((rules.filter fun rule => rule.about instanceName portName).filterMap
    fun rule => rule.expected.filter (0 < ·)).getLast?.getD 1

/-- The input ports of a component definition. -/
def inputPorts (db : Db) (component : ComponentInstance) : List PortDefinition :=
  db.ports.filter fun p =>
    p.componentDefinitionId = component.componentDefinitionId && p.direction = .input

/-- The due deliveries of a group at a port. -/
def dueAt (now : Time) (group : GroupKey) (db : Db) (portName : String) : List Delivery :=
  db.deliveries.filter fun d => due now group d && d.targetPortName = portName

/-- The deliveries of the required ports, unless a port does not have its number. -/
def selectRequired (rows : String → List Delivery) (expected : String → ℕ) :
    List PortDefinition → Option (List Delivery)
  | [] => some []
  | port :: ports =>
    if (rows port.name).length = expected port.name then
      (selectRequired rows expected ports).map (rows port.name ++ ·)
    else none

/-- The deliveries of the optional ports that have their number, unless a port has more. -/
def selectOptional (rows : String → List Delivery) (expected : String → ℕ) :
    List PortDefinition → Option (List Delivery)
  | [] => some []
  | port :: ports =>
    if expected port.name < (rows port.name).length then none
    else (selectOptional rows expected ports).map
      ((if (rows port.name).length = expected port.name then rows port.name else []) ++ ·)

/-- The order of the inputs : by port, then by delivery. -/
def inputsBefore (d e : Delivery) : Prop :=
  d.targetPortName < e.targetPortName ∨ d.targetPortName = e.targetPortName ∧ d.id ≤ e.id

instance : DecidableRel inputsBefore := fun d e => by unfold inputsBefore; infer_instance

/-- The deliveries that are leased together, in the order of the inputs. -/
def selectGroup (now : Time) (candidate : Delivery) (component : ComponentInstance)
    (rules : List FanInRule) (db : Db) : Option (List Delivery) :=
  let ports := inputPorts db component
  let rows := dueAt now candidate.toGroupKey db
  let expected := fanInExpected rules component.name
  if ports.any (·.name = candidate.targetPortName) then
    match selectRequired rows expected (ports.filter (·.required)),
      selectOptional rows expected (ports.filter (!·.required)) with
    | some required, some optional =>
      if (required ++ optional).isEmpty then none
      else some ((required ++ optional).insertionSort inputsBefore)
    | _, _ => none
  else none

/-- The identity of a delivery as an input. -/
def Delivery.identity (d : Delivery) : InputIdentity :=
  { portName := d.targetPortName, deliveryId := d.id, source := d.source,
    payloadDigest := d.inputPayloadDigest }

/-- `inputSetDigest` of deliveries in the order of the inputs. -/
def inputSetDigest (selected : List Delivery) : InputSetDigest :=
  selected.map Delivery.identity

/-- The selected delivery with the smallest id. -/
def triggerOf (selected : List Delivery) : Option Delivery :=
  (selected.insertionSort fun d e => d.id ≤ e.id).head?

/-! ## Executions and attempts -/

/-- Whether an execution is the one of a group's inputs in a region's epoch. -/
def isExecutionOf (group : GroupKey) (region : Region) (digest : InputSetDigest)
    (e : Execution) : Bool :=
  e.regionId = group.regionId && e.componentInstanceId = group.targetComponentInstanceId &&
    e.topologyRevisionId = group.topologyRevisionId && e.lifecycleEpoch = region.lifecycleEpoch &&
    e.inputSetDigest = digest

/-- The execution of a group's inputs : the one that is there, or a new one. -/
def ensureExecution (P : Platform) (group : GroupKey) (region : Region)
    (selected : List Delivery) (db : Db) : Outcome (Option (Execution × Bool) × Db) := do
  let digest := inputSetDigest selected
  match db.executions.find? (isExecutionOf group region digest) with
  | some execution =>
    if execution.status = .running then return (some (execution, false), db)
    else return (none, db)
  | none =>
    let trigger ← takeFirstOrThrow "deliveries" (triggerOf selected)
    let execution : Execution :=
      { id := db.nextUuid P, deliveryId := trigger.id, regionId := group.regionId,
        componentInstanceId := group.targetComponentInstanceId,
        topologyRevisionId := group.topologyRevisionId, lifecycleEpoch := region.lifecycleEpoch,
        inputSetDigest := digest, status := .running, completedAt := none, failedAt := none,
        failure := none }
    let executions ← sql (insert execution db.executions)
    return (some (execution, true), { db.draw with executions })

/-- One row of `execution_inputs` a selected delivery. -/
def insertInputs (executionId : Uuid) (db : Db) : List Delivery → Outcome Db
  | [] => .ok db
  | d :: ds => do
    let inputs ← sql (insertOrIgnore (fun i j => i = j)
      { executionId, portName := d.targetPortName, deliveryId := d.id } db.inputs)
    insertInputs executionId { db.draw with inputs } ds

/-- The pending attempt of an execution that may start. -/
def pendingAttempt (now : Time) (executionId : Uuid) (db : Db) : Option ExecutionAttempt :=
  ((db.attempts.filter fun a => a.executionId = executionId && a.status = .pending &&
    a.startedAt.all (· ≤ now)).insertionSort fun a b => a.attemptNumber ≤ b.attemptNumber).head?

/-- The attempt a poll leases : the pending one, or the first one. -/
def leaseAttempt (P : Platform) (now : Time) (executionId : Uuid) (owner : String)
    (expiresAt : Time) (db : Db) : Outcome (Option ExecutionAttempt × Db) := do
  match pendingAttempt now executionId db with
  | some attempt =>
    let lease : Lease := { owner, token := db.nextToken P, expiresAt }
    let leased (a : ExecutionAttempt) : ExecutionAttempt :=
      { a with status := .leased, lease := some lease, startedAt := some now }
    let db ← updateAttempts (·.id = attempt.id) leased db.draw
    return (some (leased attempt), db)
  | none =>
    if db.attempts.any (·.executionId = executionId) then return (none, db)
    else
      let attempt : ExecutionAttempt :=
        { id := db.nextUuid P, executionId, attemptNumber := 1, status := .leased,
          lease := some { owner, token := db.draw.nextToken P, expiresAt }, startedAt := some now,
          completedAt := none, failure := none }
      let attempts ← sql (insert attempt db.attempts)
      return (some attempt, { db.draw.draw with attempts })

/-- The deliveries take the lease of the attempt. -/
def leaseDeliveries (selected : List Delivery) (lease : Option Lease) (db : Db) : Outcome Db :=
  updateDeliveries (fun d => d.id ∈ selected.map (·.id))
    (fun d => { d with status := .leased, lease, attemptsCount := d.attemptsCount + 1 }) db

/-- Lease an attempt of the execution with the selected deliveries. -/
def leaseExecution (P : Platform) (now : Time) (owner : String) (expiresAt : Time)
    (group : GroupKey) (selected : List Delivery) (execution : Execution) (created : Bool)
    (db : Db) : Outcome (Option LeasedExecutionAttempt × Db) := do
  let (admission, db) ← reserveExecutionLeaseAdmission P group.regionId execution.id db
  if !executionLeaseMayProceed admission then
    let executions :=
      if created then db.executions.filter (·.id ≠ execution.id) else db.executions
    return (none, ← deferGroup now group { db with executions })
  else
    let db ← insertInputs execution.id db selected
    match ← leaseAttempt P now execution.id owner expiresAt db with
    | (none, db) => return (none, ← deferGroup now group db)
    | (some attempt, db) =>
      let db ← leaseDeliveries selected attempt.lease db
      let lease ← takeFirstOrThrow "execution_attempts" attempt.lease
      return (some
        { executionId := execution.id, attemptId := attempt.id,
          attemptNumber := attempt.attemptNumber, leaseToken := lease.token,
          leaseExpiresAt := lease.expiresAt,
          inputs := selected.map fun d =>
            { portName := d.targetPortName, deliveryId := d.id, payload := d.inputPayload } }, db)

/-! ## Polls -/

/-- `tryCandidate`. -/
def tryCandidate (P : Platform) (now : Time) (owner : String) (expiresAt : Time)
    (acquired : GroupKey → Bool) (candidate : Delivery) (db : Db) :
    Outcome (Option LeasedExecutionAttempt × Db) := do
  let group := candidate.toGroupKey
  if !acquired group then return (none, db)
  else
    let region ← takeFirstOrThrow "regions" (db.region? group.regionId)
    if region.lifecycleStatus ≠ .running then return (none, ← deferGroup now group db)
    else
      let component ← takeFirstOrThrow "component_instances"
        (db.component? group.targetComponentInstanceId)
      let revision ← takeFirstOrThrow "topology_revisions"
        (db.revisions.find? (·.id = group.topologyRevisionId))
      match selectGroup now candidate component revision.fanIn db with
      | none => return (none, ← deferGroup now group db)
      | some selected =>
        match ← ensureExecution P group region selected db with
        | (none, db) => return (none, ← deferGroup now group db)
        | (some (execution, created), db) =>
          leaseExecution P now owner expiresAt group selected execution created db

/-- Try the candidates until one is leased. -/
def tryCandidates (P : Platform) (now : Time) (owner : String) (expiresAt : Time)
    (acquired : GroupKey → Bool) : List Delivery → Db → Outcome (Option LeasedExecutionAttempt × Db)
  | [], db => .ok (none, db)
  | candidate :: rest, db => do
    match ← tryCandidate P now owner expiresAt acquired candidate db with
    | (some leased, db) => return (some leased, db)
    | (none, db) => tryCandidates P now owner expiresAt acquired rest db

/-- `leaseNextAttempt`. -/
def leaseNextAttempt (P : Platform) (now : Time) (options : LeaseNextAttemptOptions)
    (acquired : GroupKey → Bool) (db : Db) : Outcome (Option LeasedExecutionAttempt × Db) := do
  require (validLeaseDuration options.leaseDurationMs)
    (.thrown "leaseDurationMs must be between 1ms and 15 minutes")
  if options.componentSelectors = some [] then return (none, db)
  else
    tryCandidates P now options.workerId (now + options.leaseDurationMs.toNat) acquired
      (candidates now options.componentSelectors db) db

end FactoryFloor
