import FactoryFloor.AttemptHistory
import FactoryFloor.Worker

/-!
# Work

The part of the database that scheduling is about, and what an operation can do to it. `Work`
is the view. `Work.Step` has one case for each thing that happens : deliveries are routed or put
off, an execution is started, its pending attempt is resumed, a lease is extended, an attempt
ends and is retried or closes its execution, executions are cancelled, a region moves on.

The operations of the runtime refine these steps, so an invariant of work is proved for each
case once.
-/

namespace FactoryFloor

open Relational

/-- The tables that scheduling is about. -/
structure Work where
  regions : List Region
  deliveries : List Delivery
  executions : List Execution
  inputs : List ExecutionInput
  attempts : List ExecutionAttempt
  drawn : ℕ

/-- The work of a database. -/
def Db.work (db : Db) : Work :=
  { regions := db.regions, deliveries := db.deliveries, executions := db.executions,
    inputs := db.inputs, attempts := db.attempts, drawn := db.drawn }

@[simp] theorem Db.work_draw (db : Db) : db.draw.work = { db.work with drawn := db.drawn + 1 } := rfl

/-- The attempts of an execution. -/
def attemptsOf (attempts : List ExecutionAttempt) (executionId : Uuid) : List ExecutionAttempt :=
  attempts.filter (·.executionId = executionId)

/-- The history of an execution. -/
def historyOf (attempts : List ExecutionAttempt) (e : Execution) : History :=
  ⟨e.status, (attemptsOf attempts e.id).map fun a => (a.attemptNumber, a.status)⟩

/-- The group of an execution's inputs, under a correlation id. -/
def Execution.groupKey (e : Execution) (correlationId : Text) : GroupKey :=
  { regionId := e.regionId, topologyRevisionId := e.topologyRevisionId,
    targetComponentInstanceId := e.componentInstanceId, correlationId }

/-- The delivery as it was routed. -/
def Delivery.asRouted (d : Delivery) : Delivery :=
  { d with status := .ready, availableAt := d.createdAt, lease := none, attemptsCount := 0,
           completedAt := none, failedAt := none, deadLetteredAt := none, failure := none }

/-- Deliveries that were routed alike have the same id, group and source. -/
theorem Delivery.of_asRouted_eq {d d' : Delivery} (h : d'.asRouted = d.asRouted) :
    d'.id = d.id ∧ d'.toGroupKey = d.toGroupKey ∧ d'.source = d.source := by
  simp only [Delivery.asRouted, Delivery.mk.injEq] at h
  exact ⟨h.2.1, h.1, h.2.2.2.1⟩

/-- An update of deliveries that keeps how they were routed. -/
structure Delivery.Moves (f : Delivery → Delivery) : Prop where
  asRouted : ∀ d, (f d).asRouted = d.asRouted

namespace Delivery.Moves

variable {f : Delivery → Delivery} (hf : Delivery.Moves f) (d : Delivery)

include hf

theorem id : (f d).id = d.id := by
  change (f d).asRouted.id = d.asRouted.id
  rw [hf.asRouted]

theorem group : (f d).toGroupKey = d.toGroupKey := by
  change (f d).asRouted.toGroupKey = d.asRouted.toGroupKey
  rw [hf.asRouted]

theorem port : (f d).targetPortName = d.targetPortName := by
  change (f d).asRouted.targetPortName = d.asRouted.targetPortName
  rw [hf.asRouted]

theorem identity : (f d).identity = d.identity := by
  change (f d).asRouted.identity = d.asRouted.identity
  rw [hf.asRouted]

end Delivery.Moves

/-- An update of regions that keeps what identifies them. -/
structure Region.Moves (f : Region → Region) : Prop where
  id : ∀ r, (f r).id = r.id
  parent : ∀ r, (f r).parentRegionId = r.parentRegionId
  active : ∀ r, (f r).activeTopologyRevisionId = r.activeTopologyRevisionId

/-- An update of executions that keeps what identifies them. -/
structure Execution.Moves (g : Execution → Execution) : Prop where
  id : ∀ e, (g e).id = e.id
  delivery : ∀ e, (g e).deliveryId = e.deliveryId
  group : ∀ e c, (g e).groupKey c = e.groupKey c
  epoch : ∀ e, (g e).lifecycleEpoch = e.lifecycleEpoch
  digest : ∀ e, (g e).inputSetDigest = e.inputSetDigest

/-- An update of attempts that keeps what identifies them. -/
structure ExecutionAttempt.Moves (h : ExecutionAttempt → ExecutionAttempt) : Prop where
  id : ∀ a, (h a).id = a.id
  execution : ∀ a, (h a).executionId = a.executionId
  number : ∀ a, (h a).attemptNumber = a.attemptNumber

/-- What identifies a delivery is kept by an update. -/
theorem Delivery.Moves.ite {f : Delivery → Delivery} (hf : Delivery.Moves f) (p : Delivery → Bool)
    (d : Delivery) : (if p d then f d else d).id = d.id ∧
      (if p d then f d else d).toGroupKey = d.toGroupKey ∧
      (if p d then f d else d).targetPortName = d.targetPortName := by
  by_cases h : p d <;> simp [h, hf.id, hf.group, hf.port]

theorem Execution.Moves.ite {g : Execution → Execution} (hg : Execution.Moves g)
    (q : Execution → Bool) (e : Execution) :
    (if q e then g e else e).id = e.id ∧ (if q e then g e else e).deliveryId = e.deliveryId ∧
      (∀ c, (if q e then g e else e).groupKey c = e.groupKey c) ∧
      (if q e then g e else e).lifecycleEpoch = e.lifecycleEpoch ∧
      (if q e then g e else e).inputSetDigest = e.inputSetDigest := by
  by_cases h : q e <;> simp [h, hg.id, hg.delivery, hg.group, hg.epoch, hg.digest]

theorem ExecutionAttempt.Moves.ite {h : ExecutionAttempt → ExecutionAttempt}
    (hh : ExecutionAttempt.Moves h) (r : ExecutionAttempt → Bool) (a : ExecutionAttempt) :
    (if r a then h a else a).id = a.id ∧ (if r a then h a else a).executionId = a.executionId ∧
      (if r a then h a else a).attemptNumber = a.attemptNumber := by
  by_cases hr : r a <;> simp [hr, hh.id, hh.execution, hh.number]

theorem closeAttempt_moves (status : AttemptStatus) (now : Time) (failure : Option Json) :
    ExecutionAttempt.Moves (closeAttempt status now failure) :=
  ⟨fun _ => rfl, fun _ => rfl, fun _ => rfl⟩

/-- The delivery under a lease. -/
def Delivery.under (lease : Lease) (d : Delivery) : Delivery :=
  { d with status := .leased, lease := some lease, attemptsCount := d.attemptsCount + 1 }

theorem Delivery.under_moves (lease : Lease) : Delivery.Moves (Delivery.under lease) :=
  ⟨fun _ => rfl⟩

/-- The delivery, put off until a time. -/
def Delivery.putOff (t : Time) (d : Delivery) : Delivery :=
  { d with availableAt := t }

theorem Delivery.putOff_moves (t : Time) : Delivery.Moves (Delivery.putOff t) :=
  ⟨fun _ => rfl⟩

/-- The delivery under a lease that is extended. -/
def Delivery.extend (lease : Lease) (t : Time) (d : Delivery) : Delivery :=
  { d with status := .leased, lease := some { lease with expiresAt := t } }

theorem Delivery.extend_moves (lease : Lease) (t : Time) : Delivery.Moves (Delivery.extend lease t) :=
  ⟨fun _ => rfl⟩

/-- The attempt under a lease. -/
def ExecutionAttempt.under (lease : Lease) (now : Time) (a : ExecutionAttempt) : ExecutionAttempt :=
  { a with status := .leased, lease := some lease, startedAt := some now }

theorem ExecutionAttempt.under_moves (lease : Lease) (now : Time) :
    ExecutionAttempt.Moves (ExecutionAttempt.under lease now) :=
  ⟨fun _ => rfl, fun _ => rfl, fun _ => rfl⟩

theorem extendLease_moves (t : Time) : ExecutionAttempt.Moves (extendLease t) :=
  ⟨fun _ => rfl, fun _ => rfl, fun _ => rfl⟩

namespace Work

variable (P : Platform) (placed : GroupKey → Prop) (allow : Work → List Delivery → Prop)
  (late : Time → Prop)

/-- Whether a delivery is recorded as an input of an execution. -/
def IsInput (w : Work) (executionId deliveryId : Uuid) : Prop :=
  ∃ i ∈ w.inputs, i.executionId = executionId ∧ i.deliveryId = deliveryId

/-- A uuid drawn between two points of the run. -/
def Drawn (from_ upTo : ℕ) (id : Uuid) : Prop :=
  ∃ k, from_ ≤ k ∧ k < upTo ∧ id = P.uuid k

/-- Ready deliveries of one group. -/
def Selects (w : Work) (group : GroupKey) (selected : List Delivery) : Prop :=
  ∀ d ∈ selected, d ∈ w.deliveries ∧ d.status = .ready ∧ d.toGroupKey = group

/-- What one operation can do to the work. `placed` holds of the groups that deliveries are
routed to, `allow` of the deliveries an execution may be started with, and `late` of the times
at which a lease that is given or extended expires. -/
inductive Step : Work → Work → Prop
  | draw {w : Work} {n : ℕ} (hn : w.drawn ≤ n) : Step w { w with drawn := n }
  | route {w : Work} {new : List Delivery} {n : ℕ} (hn : w.drawn ≤ n)
      (hnew : ∀ d ∈ new, d.status = .ready ∧ Row.violation d = none ∧ placed d.toGroupKey ∧
        Drawn P w.drawn n d.id)
      (hkeyed : Keyed (·.id) new) :
      Step w { w with deliveries := w.deliveries ++ new, drawn := n }
  | putOff {w : Work} {p : Delivery → Bool} {t : Time}
      (hp : ∀ d ∈ w.deliveries, p d → d.status = .ready) :
      Step w { w with deliveries := updateWhere p (Delivery.putOff t) w.deliveries }
  | start {w : Work} {group : GroupKey} {selected : List Delivery} {region : Region}
      {execution : Execution} {attempt : ExecutionAttempt} {lease : Lease}
      {inputs : List ExecutionInput} {n : ℕ} (hn : w.drawn ≤ n) (hallow : allow w selected)
      (hselects : Selects w group selected)
      (hregion : region ∈ w.regions ∧ region.id = group.regionId ∧
        region.lifecycleStatus = .running)
      (hgroup : ∀ c, execution.groupKey c = { group with correlationId := c })
      (hexecution : execution.status = .running ∧
        execution.lifecycleEpoch = region.lifecycleEpoch ∧
        execution.inputSetDigest = inputSetDigest selected ∧
        ∃ d ∈ selected, d.id = execution.deliveryId)
      (hexecutionId : Drawn P w.drawn n execution.id)
      (hattempt : attempt.executionId = execution.id ∧ attempt.attemptNumber = 1 ∧
        attempt.status = .leased ∧ attempt.lease = some lease ∧ Row.violation attempt = none)
      (hattemptId : Drawn P w.drawn n attempt.id)
      (htoken : ∃ k, w.drawn ≤ k ∧ k < n ∧ lease.token = P.token k)
      (hlate : late lease.expiresAt)
      (hinputs : ∀ i, i ∈ inputs ↔
        i ∈ w.inputs ∨ ∃ d ∈ selected, i = ⟨execution.id, d.targetPortName, d.id⟩)
      (hvalid : ∀ d ∈ selected, Row.violation (d.under lease) = none) :
      Step w { w with
        deliveries :=
          updateWhere (fun d => d.id ∈ selected.map (·.id)) (Delivery.under lease) w.deliveries,
        executions := w.executions ++ [execution],
        inputs, attempts := w.attempts ++ [attempt], drawn := n }
  | resume {w : Work} {group : GroupKey} {selected : List Delivery} {execution : Execution}
      {attempt : ExecutionAttempt} {lease : Lease} {now : Time} {n : ℕ} (hn : w.drawn ≤ n)
      (hselects : Selects w group selected)
      (hexecution : execution ∈ w.executions ∧ execution.status = .running ∧
        execution.inputSetDigest = inputSetDigest selected)
      (hattempt : attempt ∈ w.attempts ∧ attempt.executionId = execution.id ∧
        attempt.status = .pending ∧ Row.violation (attempt.under lease now) = none)
      (htoken : ∃ k, w.drawn ≤ k ∧ k < n ∧ lease.token = P.token k)
      (hlate : late lease.expiresAt)
      (hvalid : ∀ d ∈ selected, Row.violation (d.under lease) = none) :
      Step w { w with
        deliveries :=
          updateWhere (fun d => d.id ∈ selected.map (·.id)) (Delivery.under lease) w.deliveries,
        attempts := updateWhere (·.id = attempt.id) (ExecutionAttempt.under lease now) w.attempts,
        drawn := n }
  | extend {w : Work} {attempt : ExecutionAttempt} {lease : Lease} {t : Time}
      {p : Delivery → Bool} (hattempt : attempt ∈ w.attempts ∧ attempt.status.active ∧
        attempt.lease = some lease ∧ Row.violation (extendLease t attempt) = none)
      (hlate : late t)
      (hp : ∀ d ∈ w.deliveries, p d ↔ w.IsInput attempt.executionId d.id)
      (hvalid : ∀ d ∈ w.deliveries, p d → Row.violation (d.extend lease t) = none) :
      Step w { w with
        deliveries := updateWhere p (Delivery.extend lease t) w.deliveries,
        attempts := updateWhere (·.id = attempt.id) (extendLease t) w.attempts }
  | retry {w : Work} {attempt next : ExecutionAttempt} {execution : Execution}
      {status : AttemptStatus} {now : Time} {failure : Option Json} {p : Delivery → Bool}
      {f : Delivery → Delivery} {n : ℕ} (hn : w.drawn ≤ n)
      (hattempt : attempt ∈ w.attempts ∧ attempt.status.active ∧
        attempt.attemptNumber < maxAttempts ∧
        Row.violation (closeAttempt status now failure attempt) = none)
      (hstatus : status.terminal)
      (hexecution : execution ∈ w.executions ∧ execution.id = attempt.executionId ∧
        execution.status = .running)
      (hnext : next.executionId = execution.id ∧
        next.attemptNumber = attempt.attemptNumber + 1 ∧ next.status = .pending ∧
        next.lease = none ∧ Row.violation next = none ∧ Drawn P w.drawn n next.id)
      (hp : ∀ d ∈ w.deliveries, p d ↔ w.IsInput attempt.executionId d.id)
      (hf : Delivery.Moves f) (hready : ∀ d, (f d).status = .ready)
      (hvalid : ∀ d ∈ w.deliveries, p d → Row.violation (f d) = none) :
      Step w { w with
        deliveries := updateWhere p f w.deliveries,
        attempts :=
          updateWhere (·.id = attempt.id) (closeAttempt status now failure) w.attempts ++ [next],
        drawn := n }
  | close {w : Work} {attempt : ExecutionAttempt} {execution : Execution}
      {status : AttemptStatus} {now : Time} {failure : Option Json} {p : Delivery → Bool}
      {f : Delivery → Delivery} {g : Execution → Execution}
      (hattempt : attempt ∈ w.attempts ∧ attempt.status.active ∧
        Row.violation (closeAttempt status now failure attempt) = none)
      (hstatus : status.terminal)
      (hexecution : execution ∈ w.executions ∧ execution.id = attempt.executionId ∧
        execution.status = .running)
      (hg : Execution.Moves g) (hclosed : ∀ e, (g e).status.terminal)
      (hp : ∀ d ∈ w.deliveries, p d ↔ w.IsInput attempt.executionId d.id)
      (hf : Delivery.Moves f) (hterminal : ∀ d, (f d).status.terminal)
      (hvalid : ∀ d ∈ w.deliveries, p d → Row.violation (f d) = none) :
      Step w { w with
        deliveries := updateWhere p f w.deliveries,
        executions := updateWhere (·.id = execution.id) g w.executions,
        attempts := updateWhere (·.id = attempt.id) (closeAttempt status now failure) w.attempts }
  | cancel {w : Work} {now : Time} {R : Uuid → Prop} {p : ExecutionAttempt → Bool}
      {q : Execution → Bool} {r : Delivery → Bool} {f : Delivery → Delivery}
      {g : Execution → Execution}
      (hp : ∀ a ∈ w.attempts, p a ↔ a.status.terminal = false ∧ R a.executionId)
      (hq : ∀ e ∈ w.executions, q e ↔ e.status.terminal = false ∧ R e.id)
      (hr : ∀ d ∈ w.deliveries, ∀ e ∈ w.executions, w.IsInput e.id d.id →
        (r d ↔ d.status.terminal = false ∧ R e.id))
      (hg : Execution.Moves g) (hclosed : ∀ e, (g e).status.terminal)
      (hf : Delivery.Moves f) (hterminal : ∀ d, (f d).status.terminal)
      (hvalidAttempt : ∀ a ∈ w.attempts, p a → Row.violation (closeAttempt .cancelled now none a) = none)
      (hvalid : ∀ d ∈ w.deliveries, r d → Row.violation (f d) = none) :
      Step w { w with
        deliveries := updateWhere r f w.deliveries,
        executions := updateWhere q g w.executions,
        attempts := updateWhere p (closeAttempt .cancelled now none) w.attempts }
  | moveRegions {w : Work} {p : Region → Bool} {f : Region → Region}
      (hf : Region.Moves f) (hstop : ∀ r, (f r).lifecycleStatus ≠ .running)
      (hepoch : ∀ r ∈ w.regions, p r → r.lifecycleEpoch ≤ (f r).lifecycleEpoch) :
      Step w { w with regions := updateWhere p f w.regions }

end Work

end FactoryFloor
