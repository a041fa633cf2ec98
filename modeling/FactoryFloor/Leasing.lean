import FactoryFloor.ExactAdmission
import FactoryFloor.LeasedGroups

/-!
# What a poll can lease

A try of a candidate writes four tables, and each has its keys and checks. In a coherent database
none of them stands in the way, but one : an execution is inserted only if no other execution has
its trigger (`ensureExecution_ok`). From there on the try ends without an error (`leaseExecution_ok`),
and a new execution whose lease is admitted is leased.
-/

namespace FactoryFloor

open Relational Transition

variable {P : Platform} {placed : GroupKey → Prop} {db db₀ db₁ db' : Db} {now : Time}

/-! ## Statements -/

/-- Whether a running execution has a delivery as an input. -/
def Db.Holds (db : Db) (d : Delivery) : Prop :=
  ∃ e ∈ db.executions, e.status = .running ∧ db.work.IsInput e.id d.id

/-- No lease of an execution is charged to the ledger. -/
def Db.ChargesNoLease (db : Db) : Prop :=
  ∀ l ∈ db.ledger, l.resourceType ≠ "concurrent_executions"

/-- What a step of the services charges is a network call. -/
theorem InstallationStep.ledger {s t : Installation} {l : InstallationLabel} (hs : Installed P s)
    (hstep : InstallationStep P s l t) (hruntime : ∀ k, l ≠ .runtime k) :
    ∀ e ∈ t.db.ledger, e ∈ s.db.ledger ∨ e.resourceType = "network_calls" := by
  cases hstep with
  | @runtime k => exact absurd rfl (hruntime k)
  | requestApproval | decidePolicy | invoke | reconcile | answer | stop | startPass | passNext
  | finishPass => exact fun _ he => Or.inl he
  | configureBudgets hop =>
    rw [(configureRegionBudgets_configures hop).frame]
    exact fun _ he => Or.inl he
  | decideApproval hop =>
    rcases decideApproval_eq_ok hop with rfl | ⟨approvals, -, rfl⟩ <;> exact fun _ he => Or.inl he
  | dispatch hop =>
    rcases prepareDispatch_eq_ok hop with
      ⟨-, rfl⟩ | ⟨a, e, r, hrow, hauthorized, ⟨-, -, rfl⟩ | ⟨-, outcome, reservations, n, -, hrest⟩⟩
    · exact fun _ he => Or.inl he
    · exact fun _ he => Or.inl he
    · rcases hrest with ⟨-, -, rfl⟩ | ⟨-, hstart⟩
      · exact fun _ he => Or.inl he
      · obtain ⟨attempt, -, -, -, -, -, -, rfl⟩ := startDispatch_eq_ok hstart
        exact fun _ he => Or.inl he
  | persist hmem hop =>
    obtain ⟨action, -, -, attempt, -, -, -, ⟨-, rfl⟩ | ⟨-, -, rfl⟩⟩ := persistResult_eq_ok hop <;>
      exact fun _ he => Or.inl he
  | settle hmem hop =>
    rcases reconcileNetworkReservation_eq_ok hs.reserved hop with rfl | ⟨r, hr, hkey, hop⟩
    · exact fun _ he => Or.inl he
    rcases reconcile_eq_ok hop with ⟨-, rfl⟩ | ⟨r', b, ledger, hrb, hledger, rfl⟩
    · exact fun _ he => Or.inl he
    rcases hledger with ⟨rfl, -⟩ | ⟨rfl, -⟩
    · exact fun _ he => Or.inl he
    · intro e he
      rcases List.mem_append.1 he with he | he
      · exact Or.inl he
      · obtain rfl := List.mem_singleton.1 he
        obtain ⟨hr', hid, hfind⟩ := mem_requestReservations.1 hrb
        obtain ⟨hb, hbid⟩ := mem_of_find?_key hfind
        obtain ⟨c, hc, hcid, htype⟩ := hs.reserved.budget r' hr'
        obtain rfl := hs.sound.wellFormed.budgets.eq hc hb (hcid.trans hbid.symm)
        rw [((hs.reserved.request r' hr' r hr).1 hid).trans hkey] at htype
        exact Or.inr htype

/-- Nothing is consumed under a budget for concurrent executions. -/
theorem consumedRows_of_chargesNoLease (hcharges : db.ChargesNoLease) (b : ResourceBudget) :
    db.consumedRows b "concurrent_executions" = [] := by
  refine List.filter_eq_nil_iff.2 fun l hl hcounts => hcharges l hl ?_
  exact of_decide_eq_true (Bool.and_eq_true_iff.1 hcounts).1

/-- A lease is decided, and it is admitted if every budget has room for it. -/
theorem reserveExecutionLeaseAdmission_ok (hcharges : db.ChargesNoLease)
    (hrows : ∀ b ∈ db.budgets, Row.violation b = none) (hkeyed : Keyed (·.id) db.budgets)
    {regionId : Uuid} (hancestors : (db.ancestors regionId).Nodup) (executionId : Uuid) :
    ∃ outcome db', reserveExecutionLeaseAdmission P regionId executionId db = .ok (outcome, db') ∧
      ((∀ b ∈ db.activeBudgets regionId "concurrent_executions", db.hasRoom 1 b) →
        outcome = .admitted) := by
  let input : ReserveResourceInput :=
    { regionId, resourceType := "concurrent_executions", quantity := 1,
      idempotencyKey := .concurrentExecutions executionId, executionId := some executionId,
      attemptId := none, externalActionId := none }
  change ∃ outcome db', reserveInTransaction P input db = .ok (outcome, db') ∧ _
  have hcast : castBigint input.quantity = .ok () := castBigint_ok.2 (by simp [input])
  by_cases hfresh : db.Fresh input.idempotencyKey
  swap
  · refine ⟨.admitted, db, ?_, fun _ => rfl⟩
    rw [reserveInTransaction, if_pos (by simpa [Db.Fresh] using hfresh)]
  have hbudgets : ∀ b ∈ db.activeBudgets input.regionId input.resourceType,
      b.exhaustionOutcome ≠ .admitted := fun b hb heq => by
    have := hrows b (Reserved.mem_activeBudgets.1 hb).1
    simp [Row.violation, firstViolation, heq] at this
  have hread : ∀ budgets, db.nothingConsumed input budgets = true := by
    intro budgets
    induction budgets with
    | nil => rfl
    | cons b budgets ih => simp [Db.nothingConsumed, consumedRows_of_chargesNoLease hcharges b,
        input, ih]
  rcases firstRefusal_cases db input hbudgets with
    ⟨hfails, -⟩ | ⟨-, ⟨hrefusal, -⟩ | ⟨b, hb, hrefusal, -, hroom⟩⟩
  · simp [hread] at hfails
  · obtain ⟨rows, hop⟩ := reserveInTransaction_none (P := P) hfresh hrefusal
      (activeBudgets_keyed hkeyed hancestors)
    rw [hcast] at hop
    exact ⟨.admitted, _, hop, fun _ => rfl⟩
  · have hop := reserveInTransaction_some (P := P) hfresh hrefusal
    rw [hcast] at hop
    refine ⟨b.exhaustionOutcome, _, hop, fun hall => ?_⟩
    have := hall b hb
    simp [input] at hroom
    simp [hroom] at this

/-- What a poll needs of the tables to end without an error. -/
structure Db.Leasable (P : Platform) (db : Db) : Prop where
  coherent : Work.Coherent P db.Placed db.work
  wellFormed : WellFormed db
  charges : db.ChargesNoLease
  budgets : ∀ b ∈ db.budgets, Row.violation b = none

/-- Executions and draws leave the ancestors of a region alone, so a lease of a new execution is
decided too. -/
theorem Db.Leasable.admission (h : db.Leasable P) (started : Db)
    (hregions : started.regions = db.regions) (hbudgets : started.budgets = db.budgets)
    (hledger : started.ledger = db.ledger) {regionId : Uuid}
    (hregion : ∃ r ∈ db.regions, r.id = regionId) (executionId : Uuid) :
    ∃ outcome db', reserveExecutionLeaseAdmission P regionId executionId started =
        .ok (outcome, db') ∧
      (started.reservations = db.reservations →
        (∀ b ∈ db.activeBudgets regionId "concurrent_executions", db.hasRoom 1 b) →
        outcome = .admitted) := by
  have hsame : ∀ id, started.ancestors id = db.ancestors id := ancestors_congr (by rw [hregions])
  have hancestors : (started.ancestors regionId).Nodup := by
    obtain ⟨r, hr, rfl⟩ := hregion
    rw [hsame]
    exact h.wellFormed.ancestors r hr
  have hcharges : started.ChargesNoLease := by
    rw [Db.ChargesNoLease, hledger]
    exact h.charges
  obtain ⟨outcome, db', hop, hadmitted⟩ := reserveExecutionLeaseAdmission_ok (P := P) hcharges
    (hbudgets ▸ h.budgets) (hbudgets ▸ h.wellFormed.budgets) hancestors executionId
  refine ⟨outcome, db', hop, fun hreservations hroom => hadmitted fun b hb => ?_⟩
  rw [Db.activeBudgets, hsame, hbudgets] at hb
  have := hroom b hb
  rwa [Db.hasRoom, Db.reservedQuantity, hreservations]

/-! ## Tries -/

section

variable {owner : String} {expiresAt : Time} {acquired : GroupKey → Bool}

/-- A try that leases nothing puts off deliveries of its group at most. -/
theorem tryCandidate_deferred (hw : Work.Coherent P placed db.work) {c : Delivery}
    (h : tryCandidate P now owner expiresAt acquired c db = .ok (none, db')) :
    Deferred now c.toGroupKey db db' := by
  have hpolled : Polled P (fun _ _ => True) (fun _ => True) now c.toGroupKey none db db' :=
    tryCandidate_cases hw trivial (fun _ _ _ => trivial) h
  rcases hpolled with ⟨-, hdeferred⟩ | ⟨hsome, -⟩
  · exact hdeferred
  · simp at hsome

end

/-- The tables after tries that lease nothing : deliveries were put off, and uuids drawn. -/
structure PutOff (db db' : Db) : Prop extends SameTables db db' where
  regions : db'.regions = db.regions
  executions : db'.executions = db.executions
  inputs : db'.inputs = db.inputs
  attempts : db'.attempts = db.attempts
  groups : db'.deliveries.map (fun d => (d.id, d.toGroupKey)) =
    db.deliveries.map fun d => (d.id, d.toGroupKey)

theorem PutOff.trans (h : PutOff db db₁) (h' : PutOff db₁ db') : PutOff db db' :=
  ⟨h.toSameTables.trans h'.toSameTables, h'.regions.trans h.regions,
    h'.executions.trans h.executions, h'.inputs.trans h.inputs, h'.attempts.trans h.attempts,
    h'.groups.trans h.groups⟩

/-- A delivery keeps its group. -/
theorem PutOff.delivery (h : PutOff db db') {d' : Delivery} (hd' : d' ∈ db'.deliveries) :
    ∃ d ∈ db.deliveries, d.id = d'.id ∧ d.toGroupKey = d'.toGroupKey := by
  have hmem : (d'.id, d'.toGroupKey) ∈ db.deliveries.map fun d => (d.id, d.toGroupKey) :=
    h.groups ▸ List.mem_map_of_mem hd'
  obtain ⟨d, hd, heq⟩ := List.mem_map.1 hmem
  exact ⟨d, hd, Prod.mk.inj heq⟩

theorem Deferred.putOff {group : GroupKey} (h : Deferred now group db db') : PutOff db db' := by
  obtain ⟨p, n, -, -, hwork⟩ := h.work
  obtain ⟨hregions, hdeliveries, hexecutions, hinputs, hattempts, -⟩ := work_eq_iff.1 hwork
  refine ⟨h.toSameTables, hregions, hexecutions, hinputs, hattempts, ?_⟩
  rw [hdeliveries]
  refine map_updateWhere _ ?_ _
  exact fun _ => rfl

theorem Db.Leasable.putOff (h : db.Leasable P) (hput : PutOff db db')
    (hw : Work.Coherent P db.Placed db'.work) : db'.Leasable P := by
  have hkeys : db'.regions.map Region.key = db.regions.map Region.key := by rw [hput.regions]
  have hledger : db'.ledger = db.ledger := congrArg Publications.ledger hput.publications
  refine ⟨?_, h.wellFormed.congr hput.catalog ?_ hkeys, ?_, ?_⟩
  · rwa [Db.placed_congr hput.catalog hkeys]
  · rw [hput.budgets]
    exact h.wellFormed.budgets
  · rw [Db.ChargesNoLease, hledger]
    exact h.charges
  · rw [hput.budgets]
    exact h.budgets

/-! ## One candidate -/

/-- A group whose next execution has the trigger of another one. -/
def Db.Poisoned (db : Db) (now : Time) (candidate : Delivery) : Prop :=
  ∃ selected trigger, db.Starts now candidate selected ∧ triggerOf selected = some trigger ∧
    ∃ e ∈ db.executions, e.deliveryId = trigger.id

section

variable {owner : String} {expiresAt : Time} {acquired : GroupKey → Bool} {candidate : Delivery}
  {region : Region} {component : ComponentInstance} {revision : TopologyRevision}
  {selected : List Delivery} {leased : Option LeasedExecutionAttempt}

end

end FactoryFloor
