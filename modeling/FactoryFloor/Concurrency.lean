import FactoryFloor.Cancellation

/-!
# Budgets of concurrent executions

An execution that is leased reserves one unit of every active `concurrent_executions` budget of its
region's ancestors, and the trigger releases it when the execution closes. So as long as every
running execution has its reservation under a budget (`Covered`), the running executions of the
budget's subtree are no more than its limit.

A budget that is configured anew is a new row, without the reservations of the executions that run
already : those that ran without a budget, or under the row it replaces. They are then not counted,
and as many more are admitted as the limit says. `concurrency_safe` is about the runs in which a
budget is configured only while nothing runs in its subtree, or as it is (`keepsConcurrency`).
-/

namespace FactoryFloor

open Relational Transition

variable {P : Platform} {db db' : Db} {s t : Installation} {l : InstallationLabel}

/-! ## Counting -/

/-- An active budget of concurrent executions. -/
def ResourceBudget.LimitsExecutions (b : ResourceBudget) : Prop :=
  b.resourceType = "concurrent_executions" ∧ b.retiredAt = none

/-- The running executions in the subtree of a region. -/
def Db.runningIn (db : Db) (regionId : Uuid) : List Execution :=
  db.executions.filter fun e => e.status = .running && regionId ∈ db.ancestors e.regionId

/-- Whether a row holds a unit of a budget. -/
def ResourceReservation.holds (budgetId : Uuid) (r : ResourceReservation) : Bool :=
  r.budgetId = budgetId && r.status = .reserved

/-- With one unit a row, the reserved quantity is the number of rows that hold one. -/
theorem reservedQuantity_eq (h : ∀ r ∈ db.reservations, r.quantity = 1) (budgetId : Uuid) :
    db.reservedQuantity budgetId = db.reservations.countP (·.holds budgetId) := by
  have hsum : ∀ rows : List ResourceReservation, (∀ r ∈ rows, r.quantity = 1) →
      (rows.map (·.quantity)).foldr (· + ·) 0 = rows.length := by
    intro rows hrows
    induction rows with
    | nil => rfl
    | cons r rows ih =>
      obtain ⟨hr, hrows⟩ := List.forall_mem_cons.1 hrows
      simp only [List.map_cons, List.foldr_cons, List.length_cons, ih hrows, hr]
      omega
  rw [List.countP_eq_length_filter]
  exact hsum _ fun r hr => h r (List.mem_filter.1 hr).1

/-- Every running execution holds a unit of each budget above it, and no budget is overdrawn. -/
structure Covered (db : Db) : Prop where
  placed : ∀ r ∈ db.reservations, ∀ id, r.idempotencyKey = .concurrentExecutions id →
    ∃ e ∈ db.executions, e.id = id
  held : ∀ b ∈ db.budgets, b.LimitsExecutions → ∀ e ∈ db.runningIn b.scopeId,
    ∃ r ∈ db.reservations, r.idempotencyKey = .concurrentExecutions e.id ∧ r.holds b.id
  bounded : ∀ b ∈ db.budgets, b.LimitsExecutions →
    db.reservations.countP (·.holds b.id) ≤ b.limitQuantity

/-- Then the running executions in its subtree are within the limit of a budget. -/
theorem Covered.running_le (h : Covered db) (hk : Keyed (·.id) db.executions) {b : ResourceBudget}
    (hb : b ∈ db.budgets) (hlimits : b.LimitsExecutions) :
    (db.runningIn b.scopeId).length ≤ b.limitQuantity := by
  refine le_trans ?_ (h.bounded b hb hlimits)
  let keys := (db.runningIn b.scopeId).map fun e => ReservationKey.concurrentExecutions e.id
  have hnodup : keys.Nodup := by
    have hids : ((db.runningIn b.scopeId).map (·.id)).Nodup :=
      List.Nodup.sublist (List.Sublist.map _ List.filter_sublist) hk
    have hkeys : keys = ((db.runningIn b.scopeId).map (·.id)).map .concurrentExecutions := by
      simp [keys, Function.comp_def]
    rw [hkeys]
    exact hids.map fun _ _ => ReservationKey.concurrentExecutions.inj
  have hsubset : keys ⊆ (db.reservations.filter (·.holds b.id)).map (·.idempotencyKey) := by
    intro key hkey
    obtain ⟨e, he, rfl⟩ := List.mem_map.1 hkey
    obtain ⟨r, hr, hrkey, hholds⟩ := h.held b hb hlimits e he
    exact List.mem_map.2 ⟨r, List.mem_filter.2 ⟨hr, hholds⟩, hrkey⟩
  have hle := (List.subperm_of_subset hnodup hsubset).length_le
  simpa [keys, List.countP_eq_length_filter] using hle

/-! ## Steps of the runtime -/

/-- What the running executions of a subtree are depends on the executions and the regions. -/
theorem runningIn_congr (hexecutions : db'.executions = db.executions)
    (hregions : db'.regions.map Region.key = db.regions.map Region.key) (regionId : Uuid) :
    db'.runningIn regionId = db.runningIn regionId := by
  simp only [Db.runningIn, hexecutions, ancestors_congr hregions]

theorem Covered.congr (h : Covered db) (hbudgets : db'.budgets = db.budgets)
    (hreservations : db'.reservations = db.reservations)
    (hexecutions : db'.executions = db.executions)
    (hregions : db'.regions.map Region.key = db.regions.map Region.key) : Covered db' := by
  refine ⟨by rw [hreservations, hexecutions]; exact h.placed, fun b hb hlimits e he => ?_, ?_⟩
  · rw [runningIn_congr hexecutions hregions] at he
    rw [hreservations]
    exact h.held b (hbudgets ▸ hb) hlimits e he
  · rw [hbudgets, hreservations]
    exact h.bounded

/-- An execution that is admitted holds a unit of each budget above it, and each has room. -/
theorem Covered.admits (h : Covered db) (hr : Reserved P db)
    (hkeyedBudgets : Keyed (·.id) db.budgets) (hrows : ∀ b ∈ db.budgets, Row.violation b = none)
    {e : Execution} {new : List Execution} (hbudgets : db'.budgets = db.budgets)
    (hregions : db'.regions.map Region.key = db.regions.map Region.key)
    (hexecutions : db'.executions = db.executions ++ new)
    (hnew : new = [] ∧ e ∈ db.executions ∨ new = [e] ∧ ∀ f ∈ db.executions, f.id ≠ e.id)
    (hadmits : Admits P (executionLease e) db db') : Covered db' := by
  cases hadmits with
  | replayed hkey hreservations =>
    obtain ⟨r, hrmem, hrkey⟩ := hkey
    obtain ⟨f, hf, hfid⟩ := h.placed r hrmem e.id hrkey
    rcases hnew with ⟨rfl, -⟩ | ⟨-, hfresh⟩
    · exact h.congr hbudgets hreservations (by simpa using hexecutions) hregions
    · exact absurd hfid (hfresh f hf)
  | @reserved n hn hkey hroom hkeyed hreservations =>
    have hmem : e ∈ db'.executions := by
      rw [hexecutions]
      rcases hnew with ⟨rfl, he⟩ | ⟨rfl, -⟩
      · simpa using he
      · simp
    have hold : ∀ f ∈ db.executions, f ∈ db'.executions := fun f hf => by
      rw [hexecutions]
      exact List.mem_append_left _ hf
    refine ⟨fun r hr' id hid => ?_, fun b hb hlimits f hf => ?_, fun b hb hlimits => ?_⟩
    · rw [hreservations] at hr'
      rcases List.mem_append.1 hr' with hr' | hr'
      · obtain ⟨f, hf, hfid⟩ := h.placed r hr' id hid
        exact ⟨f, hold f hf, hfid⟩
      · obtain ⟨b, -, rfl⟩ := List.mem_map.1 hr'
        exact ⟨e, hmem, ReservationKey.concurrentExecutions.inj hid⟩
    · rw [hreservations]
      rw [hbudgets] at hb
      obtain ⟨hf, hrunning⟩ := List.mem_filter.1 hf
      simp only [Bool.and_eq_true, decide_eq_true_eq, ancestors_congr hregions] at hrunning
      rw [hexecutions] at hf
      rcases List.mem_append.1 hf with hf | hf
      · obtain ⟨r, hr', hrkey, hholds⟩ := h.held b hb hlimits f
          (List.mem_filter.2 ⟨hf, by simp [hrunning.1, hrunning.2]⟩)
        exact ⟨r, List.mem_append_left _ hr', hrkey, hholds⟩
      · obtain rfl : f = e := by
          rcases hnew with ⟨rfl, -⟩ | ⟨rfl, -⟩
          · simp at hf
          · simpa using hf
        have hactive : b ∈ db.activeBudgets f.regionId "concurrent_executions" :=
          Reserved.mem_activeBudgets.2 ⟨hb, hrunning.2, hlimits.1, hlimits.2⟩
        exact ⟨_, List.mem_append_right _ (List.mem_map_of_mem hactive), rfl,
          by simp [ResourceReservation.holds, reservationOf]⟩
    · rw [hbudgets] at hb
      have hcount : ∀ budgets : List ResourceBudget,
          (budgets.map (reservationOf (P.uuid n) (executionLease e))).countP (·.holds b.id) =
            (budgets.map (·.id)).count b.id := fun budgets => by
        rw [List.count, List.countP_map, List.countP_map]
        refine List.countP_congr fun c _ => ?_
        simp only [Function.comp_apply, ResourceReservation.holds, reservationOf, decide_true,
          Bool.and_true, beq_iff_eq]
        exact decide_eq_true_iff
      rw [hreservations, List.countP_append, hcount]
      by_cases hactive : b ∈ db.activeBudgets e.regionId "concurrent_executions"
      · have hone := List.nodup_iff_count_le_one.1 hkeyed b.id
        have hfits := hroom b hactive fun heq => by
          have := hrows b hb
          simp [Row.violation, firstViolation, heq] at this
        rw [Db.HasRoom, reservedQuantity_eq fun r hr' => (hr.regular r hr').quantity] at hfits
        change _ + 1 ≤ _ at hfits
        omega
      · have hnone : (List.map (·.id) (db.activeBudgets e.regionId "concurrent_executions")).count b.id
            = 0 := by
          refine List.count_eq_zero.2 fun hmem => hactive ?_
          obtain ⟨c, hc, hid⟩ := List.mem_map.1 hmem
          obtain rfl := hkeyedBudgets.eq (Reserved.mem_activeBudgets.1 hc).1 hb hid
          exact hc
        have hold := h.bounded b hb hlimits
        change _ + List.count b.id
          (List.map (·.id) (db.activeBudgets e.regionId "concurrent_executions")) ≤ _
        omega

/-- The trigger keeps the rows of other executions. -/
theorem mem_releasedBy {p : Execution → Bool} {f : Execution → Execution} {r : ResourceReservation}
    (hr : r ∈ db.reservations) (h : ∀ e ∈ db.executions, p e → r.executionId ≠ some (f e).id) :
    r ∈ releasedBy p f db := by
  refine releasedBy_induction (I := fun rows => r ∈ rows) hr fun rows hmem e he hp => ?_
  unfold releaseTerminalExecutionAdmission
  split
  · exact mem_updateWhere_of_not hmem (by simp [h e he hp])
  · exact hmem

/-- The trigger only gives units back. -/
theorem countP_releasedBy (p : Execution → Bool) (f : Execution → Execution) (db : Db)
    (budgetId : Uuid) :
    (releasedBy p f db).countP (·.holds budgetId) ≤ db.reservations.countP (·.holds budgetId) := by
  refine releasedBy_induction
    (I := fun rows => rows.countP (·.holds budgetId) ≤ db.reservations.countP (·.holds budgetId))
    le_rfl fun rows hle e _ _ => le_trans ?_ hle
  unfold releaseTerminalExecutionAdmission
  split
  · rw [updateWhere, List.countP_map]
    refine List.countP_mono_left fun r _ hholds => ?_
    simp only [Function.comp_apply] at hholds
    split at hholds
    · simp [ResourceReservation.holds] at hholds
    · exact hholds
  · exact le_rfl

theorem Covered.step (h : Covered db) (hr : Reserved P db) (hkeyedBudgets : Keyed (·.id) db.budgets)
    (hkeyed : Keyed (·.id) db.executions) (hrows : ∀ b ∈ db.budgets, Row.violation b = none)
    (hstep : AccountStep P db db') :
    Covered db' ∧ Keyed (·.id) db'.executions := by
  cases hstep with
  | keep hkeep =>
    exact ⟨h.congr hkeep.budgets hkeep.reservations hkeep.executions hkeep.regions,
      by rw [hkeep.executions]; exact hkeyed⟩
  | @admits e new hbudgets hregions hdrawn hexecutions hnew hrunning hadmits =>
    refine ⟨h.admits hr hkeyedBudgets hrows hbudgets hregions hexecutions hnew hadmits, ?_⟩
    rw [hexecutions]
    rcases hnew with ⟨rfl, -⟩ | ⟨rfl, hfresh⟩
    · simpa using hkeyed
    · exact hkeyed.append hfresh
  | @close p f hf hclosed hbudgets hregions hdrawn hexecutions hreservations =>
    refine ⟨⟨fun r hr' id hid => ?_, fun b hb hlimits e' he' => ?_, fun b hb hlimits => ?_⟩, ?_⟩
    · have hmem : r.asReserved ∈ db.reservations.map ResourceReservation.asReserved := by
        rw [← Reserved.releasedBy_asReserved p f, ← hreservations]
        exact List.mem_map_of_mem hr'
      obtain ⟨r₀, hr₀, heq⟩ := List.mem_map.1 hmem
      have hkey : r₀.idempotencyKey = .concurrentExecutions id :=
        (show r₀.asReserved.idempotencyKey = r.asReserved.idempotencyKey from congrArg _ heq).trans hid
      obtain ⟨e, he, heid⟩ := h.placed r₀ hr₀ id hkey
      exact ⟨_, hexecutions ▸ mem_updateWhere.2 ⟨e, he, rfl⟩, (hf.ite p e).1.trans heid⟩
    · obtain ⟨he', hrunning⟩ := List.mem_filter.1 he'
      simp only [Bool.and_eq_true, decide_eq_true_eq, ancestors_congr hregions] at hrunning
      obtain ⟨e, he, rfl⟩ := mem_updateWhere.1 (hexecutions ▸ he')
      -- a running execution was not closed, so its reservations are kept
      have hp : ¬p e := fun hp => by
        have := hclosed e
        simp [hp] at hrunning
        simp [hrunning.1, ExecutionStatus.terminal] at this
      simp only [hp, Bool.false_eq_true, if_false] at hrunning ⊢
      obtain ⟨r, hrmem, hkey, hholds⟩ := h.held b (hbudgets ▸ hb) hlimits e
        (List.mem_filter.2 ⟨he, by simp [hrunning.1, hrunning.2]⟩)
      refine ⟨r, ?_, hkey, hholds⟩
      rw [hreservations]
      refine mem_releasedBy hrmem fun x hx hpx heq => hp ?_
      rw [(hr.regular r hrmem).execution e.id hkey, hf.id] at heq
      rwa [hkeyed.eq he hx (Option.some.inj heq)]
    · rw [hreservations]
      exact (countP_releasedBy p f db b.id).trans (h.bounded b (hbudgets ▸ hb) hlimits)
    · rw [hexecutions]
      exact hkeyed.updateWhere hf.id

theorem Covered.accounts (h : Covered db) (hr : Reserved P db)
    (hkeyedBudgets : Keyed (·.id) db.budgets) (hkeyed : Keyed (·.id) db.executions)
    (hrows : ∀ b ∈ db.budgets, Row.violation b = none) (haccounts : Accounts P db db') :
    Covered db' := by
  suffices hall : Covered db' ∧ Reserved P db' ∧ Keyed (·.id) db'.executions from hall.1
  induction haccounts with
  | refl => exact ⟨h, hr, hkeyed⟩
  | tail hpre hstep ih =>
    obtain ⟨hcovered, hreserved, hk⟩ := ih
    have hbudgets := Accounts.budgets hpre
    obtain ⟨hcovered', hk'⟩ :=
      hcovered.step hreserved (hbudgets ▸ hkeyedBudgets) hk (hbudgets ▸ hrows) hstep
    exact ⟨hcovered', hreserved.step hstep, hk'⟩

/-! ## Steps of the services -/

/-- A row for the lease of an execution. -/
def ResourceReservation.isLease (r : ResourceReservation) : Bool :=
  r.idempotencyKey.execution?.isSome

/-- A row under a budget of executions is for a lease. -/
theorem isLease_of_holds (hr : Reserved P db) (hkeyed : Keyed (·.id) db.budgets)
    {b : ResourceBudget} (hb : b ∈ db.budgets) (hlimits : b.LimitsExecutions)
    {r : ResourceReservation} (hmem : r ∈ db.reservations) (hholds : r.holds b.id) : r.isLease := by
  simp only [ResourceReservation.holds, Bool.and_eq_true, decide_eq_true_eq] at hholds
  obtain ⟨c, hc, hid, htype⟩ := hr.budget r hmem
  obtain rfl := hkeyed.eq hc hb (hid.trans hholds.1)
  rcases (hr.regular r hmem).key with ⟨e, he⟩ | ⟨a, ha⟩
  · simp [ResourceReservation.isLease, he, ReservationKey.execution?]
  · rw [hlimits.1, ha] at htype
    simp [ReservationKey.resourceType] at htype

/-- A write that keeps the rows of leases. -/
theorem Covered.of_leases (h : Covered db) (hr : Reserved P db) (hr' : Reserved P db')
    (hkeyed : Keyed (·.id) db.budgets) (hbudgets : db'.budgets = db.budgets)
    (hexecutions : db'.executions = db.executions) (hregions : db'.regions = db.regions)
    (hleases : db'.reservations.filter (·.isLease) = db.reservations.filter (·.isLease)) :
    Covered db' := by
  have hiff : ∀ {r : ResourceReservation}, r.isLease →
      (r ∈ db'.reservations ↔ r ∈ db.reservations) := fun {r} hlease => by
    have := congrArg (r ∈ ·) hleases
    simpa [List.mem_filter, hlease] using this
  refine ⟨fun r hmem id hkey => ?_, fun b hb hlimits e he => ?_, fun b hb hlimits => ?_⟩
  · rw [hexecutions]
    have hlease : r.isLease := by simp [ResourceReservation.isLease, hkey, ReservationKey.execution?]
    exact h.placed r ((hiff hlease).1 hmem) id hkey
  · rw [runningIn_congr hexecutions (by rw [hregions])] at he
    obtain ⟨r, hmem, hkey, hholds⟩ := h.held b (hbudgets ▸ hb) hlimits e he
    have hlease : r.isLease := by simp [ResourceReservation.isLease, hkey, ReservationKey.execution?]
    exact ⟨r, (hiff hlease).2 hmem, hkey, hholds⟩
  · have hcount : ∀ {d : Db}, Reserved P d → Keyed (·.id) d.budgets → b ∈ d.budgets →
        d.reservations.countP (·.holds b.id) =
          (d.reservations.filter (·.isLease)).countP (·.holds b.id) := by
      intro d hd hk hbd
      rw [List.countP_filter]
      refine List.countP_congr fun r hmem => ?_
      simp only [Bool.and_eq_true, iff_self_and]
      exact fun hholds => isLease_of_holds hd hk hbd hlimits hmem hholds
    rw [hcount hr' (hbudgets ▸ hkeyed) hb, hleases, ← hcount hr hkeyed (hbudgets ▸ hb)]
    exact h.bounded b (hbudgets ▸ hb) hlimits

/-- A request for a network call adds no row for a lease. -/
theorem reserveInTransaction_leases {a : ExternalAction} {region : Region}
    {outcome : AdmissionOutcome}
    (h : reserveInTransaction P (networkCall a region) db = .ok (outcome, db')) :
    db'.reservations.filter (·.isLease) = db.reservations.filter (·.isLease) := by
  obtain ⟨reservations, n, rfl, -, ⟨-, rfl⟩ | ⟨-, hadmits⟩⟩ := reserveInTransaction_eq_ok h
  · rfl
  · cases hadmits with
    | replayed hkey hrows => rw [hrows]
    | @reserved m hn hkey hroom hkeyed hrows =>
      have hnone : ((db.activeBudgets (networkCall a region).regionId
          (networkCall a region).resourceType).map
            (reservationOf (P.uuid m) (networkCall a region))).filter (·.isLease) = [] := by
        refine List.filter_eq_nil_iff.2 fun r hr => ?_
        obtain ⟨b, -, rfl⟩ := List.mem_map.1 hr
        simp [ResourceReservation.isLease, reservationOf, networkCall, ReservationKey.execution?]
      rw [hrows, List.filter_append, hnone, List.append_nil]

/-- Settling a network call settles no row of a lease. -/
theorem reconcileNetworkReservation_leases (hr : Reserved P db) {actionId : Uuid} {settled : Bool}
    (h : reconcileNetworkReservation actionId db = .ok (settled, db')) :
    db'.reservations.filter (·.isLease) = db.reservations.filter (·.isLease) := by
  rcases reconcileNetworkReservation_eq_ok hr h with rfl | ⟨r, hmem, hkey, h⟩
  · rfl
  rcases reconcile_eq_ok h with ⟨-, rfl⟩ | ⟨r', b, ledger, -, -, rfl⟩
  · rfl
  · refine filter_updateWhere_of_not fun x hx hp => ?_
    simp only [Bool.and_eq_true, decide_eq_true_eq] at hp
    have hxkey := ((hr.request x hx r hmem).1 hp.1).trans hkey
    simp [ResourceReservation.isLease, hxkey, ReservationKey.execution?]

/-- What a step of the services does to the accounts of leases, unless it configures budgets :
nothing. -/
theorem InstallationStep.leases (hs : Installed P s) (hstep : InstallationStep P s l t)
    (hruntime : ∀ k, l ≠ .runtime k) (hconfigure : ∀ r p limits, l ≠ .configureBudgets r p limits) :
    t.db.reservations.filter (·.isLease) = s.db.reservations.filter (·.isLease) ∧
      t.db.budgets = s.db.budgets := by
  cases hstep with
  | @runtime k => exact absurd rfl (hruntime k)
  | @configureBudgets r p limits => exact absurd rfl (hconfigure r p limits)
  | requestApproval | decidePolicy | invoke | reconcile | answer | stop | startPass | passNext
  | finishPass =>
    exact ⟨rfl, rfl⟩
  | decideApproval hop =>
    rcases decideApproval_eq_ok hop with rfl | ⟨approvals, -, rfl⟩ <;> exact ⟨rfl, rfl⟩
  | dispatch hop =>
    rcases prepareDispatch_eq_ok hop with
      ⟨-, rfl⟩ | ⟨a, e, r, hrow, hauthorized, ⟨-, -, rfl⟩ | ⟨-, outcome, reservations, n, hreserve, hrest⟩⟩
    · exact ⟨rfl, rfl⟩
    · exact ⟨rfl, rfl⟩
    have hleases := reserveInTransaction_leases hreserve
    rcases hrest with ⟨-, -, rfl⟩ | ⟨-, hstart⟩
    · exact ⟨hleases, rfl⟩
    · obtain ⟨attempt, -, -, -, -, -, -, rfl⟩ := startDispatch_eq_ok hstart
      exact ⟨hleases, rfl⟩
  | persist hmem hop =>
    obtain ⟨action, -, -, attempt, -, -, -, ⟨-, rfl⟩ | ⟨-, -, rfl⟩⟩ := persistResult_eq_ok hop <;>
      exact ⟨rfl, rfl⟩
  | @settle actionId pass pre post settled db hmem hop =>
    refine ⟨reconcileNetworkReservation_leases hs.reserved hop, ?_⟩
    rcases reconcileNetworkReservation_eq_ok hs.reserved hop with rfl | ⟨r, -, -, hop⟩
    · rfl
    · rcases reconcile_eq_ok hop with ⟨-, rfl⟩ | ⟨r', b, ledger, -, -, rfl⟩ <;> rfl

/-! ## Configuring budgets -/

/-- Budgets that are configured are covered, if each active one was there, or is a new one with
nothing running in its subtree. -/
theorem Covered.configures {regionId : Uuid} (h : Covered db) (hr : Reserved P db)
    (hc : Configures P regionId db db')
    (hnew : ∀ b' ∈ db'.budgets, b'.LimitsExecutions → b' ∈ db.budgets ∨
      db.runningIn b'.scopeId = [] ∧ ∃ k, db.drawn ≤ k ∧ b'.id = P.uuid k) : Covered db' := by
  have hreservations : db'.reservations = db.reservations := by rw [hc.frame]
  have hexecutions : db'.executions = db.executions := by rw [hc.frame]
  have hregions : db'.regions = db.regions := by rw [hc.frame]
  refine ⟨by rw [hreservations, hexecutions]; exact h.placed, fun b hb hlimits e he => ?_,
    fun b hb hlimits => ?_⟩
  · rw [runningIn_congr hexecutions (by rw [hregions])] at he
    rw [hreservations]
    rcases hnew b hb hlimits with hold | ⟨hnone, -⟩
    · exact h.held b hold hlimits e he
    · simp [hnone] at he
  · rw [hreservations]
    rcases hnew b hb hlimits with hold | ⟨-, k, hk, hid⟩
    · exact h.bounded b hold hlimits
    · -- no row has the id of a budget that has just been inserted
      have hnone : db.reservations.countP (·.holds b.id) = 0 := by
        refine List.countP_eq_zero.2 fun r hmem hholds => ?_
        simp only [ResourceReservation.holds, Bool.and_eq_true, decide_eq_true_eq] at hholds
        obtain ⟨c, hcmem, hcid, -⟩ := hr.budget r hmem
        exact hr.budgetIds c hcmem k hk (hid.symm.trans (hholds.1.symm.trans hcid.symm))
      omega

/-- Whether the limits of executions that are asked for are those a region has. -/
def keepsLimits (db : Db) (regionId : Uuid) (parentRegionId : Option Uuid)
    (limits : List NormalizedBudgetLimit) : Bool :=
  limits.all fun limit => limit.resourceType ≠ "concurrent_executions" ||
    (activeBudget db regionId limit.resourceType).any
      (sameBudget ((parentBudget parentRegionId limit db).map (·.id)) limit)

/-- The active budgets of executions. -/
def Db.executionBudgets (db : Db) : List ResourceBudget :=
  db.budgets.filter fun b => b.resourceType = "concurrent_executions" && b.retiredAt.isNone

theorem mem_executionBudgets {b : ResourceBudget} :
    b ∈ db.executionBudgets ↔ b ∈ db.budgets ∧ b.LimitsExecutions := by
  simp [Db.executionBudgets, ResourceBudget.LimitsExecutions]

theorem activeBudget_eq (db : Db) (regionId : Uuid) :
    activeBudget db regionId "concurrent_executions" =
      db.executionBudgets.find? (·.scopeId = regionId) := by
  rw [Db.executionBudgets, List.find?_filter]
  unfold activeBudget
  congr 1
  funext b
  cases b.retiredAt <;> by_cases h : b.scopeId = regionId <;> simp [h]

/-- A limit that is kept, or of another resource, leaves the budgets of executions. -/
theorem configureLimit_executionBudgets {now : Time} {regionId : Uuid}
    {parentRegionId : Option Uuid} {existing : List ResourceBudget} {d d' : Db}
    {limit : NormalizedBudgetLimit}
    (htype : ∀ b ∈ existing, ∀ b' ∈ d.budgets, b'.id = b.id → b'.resourceType = b.resourceType)
    (hkept : limit.resourceType = "concurrent_executions" →
      (existing.find? (·.resourceType = limit.resourceType)).any
        (sameBudget ((parentBudget parentRegionId limit d).map (·.id)) limit))
    (h : configureLimit P now regionId parentRegionId existing d limit = .ok d') :
    d'.executionBudgets = d.executionBudgets := by
  unfold configureLimit at h
  obtain ⟨⟨⟩, -, h⟩ := Except.bind_eq_ok.1 h
  dsimp only at h
  split at h
  · obtain rfl := Except.ok.inj h
    rfl
  rename_i hchanged
  have hother : limit.resourceType ≠ "concurrent_executions" := fun heq => hchanged (hkept heq)
  obtain ⟨⟨⟩, -, h⟩ := Except.bind_eq_ok.1 h
  obtain ⟨budgets, hinsert, h⟩ := Except.bind_eq_ok.1 h
  obtain rfl := Except.ok.inj h
  obtain ⟨rfl, -, -⟩ := insert_eq_ok.1 (sql_eq_ok.1 hinsert)
  have hretired : (retireBudgets now (fun b =>
      (existing.find? (·.resourceType = limit.resourceType)).any (·.id = b.id)) d).executionBudgets =
        d.executionBudgets := by
    refine filter_updateWhere_of_not fun b hb hp => ?_
    obtain ⟨c, hc, hid⟩ := (Option.any_eq_true _ _).1 hp
    have hcb := htype c (List.mem_of_find?_eq_some hc) b hb (of_decide_eq_true hid).symm
    have hct := List.find?_some hc
    simp only [decide_eq_true_eq] at hct
    rw [hct] at hcb
    simp [hcb, hother]
  rw [← hretired]
  simp [Db.executionBudgets, hother]

/-- Limits that keep those of executions leave the active budgets of executions, or retire one. -/
theorem configureRegionBudgets_executionBudgets {now : Time} {regionId : Uuid}
    {parentRegionId : Option Uuid} {limits : List NormalizedBudgetLimit}
    (hkeyed : Keyed (·.id) db.budgets) (hkeeps : keepsLimits db regionId parentRegionId limits)
    (h : configureRegionBudgets P now regionId parentRegionId limits db = .ok db') :
    ∀ b ∈ db'.executionBudgets, b ∈ db.executionBudgets := by
  let existing := db.budgets.filter fun b => b.scopeId = regionId && b.retiredAt.isNone
  let retired := retireBudgets now (fun b => existing.any (·.id = b.id) &&
    limits.all (·.resourceType ≠ b.resourceType)) db
  have hretired : ∀ b ∈ retired.executionBudgets, b ∈ db.executionBudgets := by
    intro b hb
    obtain ⟨hb, hlimits⟩ := mem_executionBudgets.1 hb
    obtain ⟨c, hc, heq⟩ := mem_updateWhere.1 hb
    split at heq
    · obtain rfl := heq
      simp [ResourceBudget.LimitsExecutions] at hlimits
    · exact mem_executionBudgets.2 ⟨heq ▸ hc, hlimits⟩
  -- a limit of executions keeps the budget it asks for from being retired
  have hsame : (∃ limit ∈ limits, limit.resourceType = "concurrent_executions") →
      retired.executionBudgets = db.executionBudgets := by
    rintro ⟨limit, hlimit, htype⟩
    refine filter_updateWhere_of_not fun b _ hp => ?_
    simp only [Bool.and_eq_true, List.all_eq_true, decide_eq_true_eq] at hp
    have hother : b.resourceType ≠ "concurrent_executions" := fun heq =>
      hp.2 limit hlimit (htype.trans heq.symm)
    simp [hother]
  have hfold : Configures P regionId db db' ∧ db'.executionBudgets = retired.executionBudgets := by
    refine Except.foldlM_invariant
      (I := fun d => Configures P regionId db d ∧ d.executionBudgets = retired.executionBudgets)
      (fun d limit d' hlimit hd hstep => ⟨hd.1.trans (configureLimit_configures hstep), ?_⟩)
      ⟨Configures.retire now _ db, rfl⟩ h
    rw [← hd.2]
    refine configureLimit_executionBudgets (fun b hb b' hb' hid => ?_) (fun htype => ?_) hstep
    · obtain ⟨c, hc, heq⟩ := hd.1.kept b (List.mem_filter.1 hb).1
      have hbc : b' = c := by
        refine (hd.1.keyed hkeyed).eq hb' hc (hid.trans ?_)
        rcases heq with rfl | ⟨t, rfl⟩ <;> rfl
      rcases heq with rfl | ⟨t, rfl⟩ <;> rw [hbc]
    · have hbudgets := hd.2.trans (hsame ⟨limit, hlimit, htype⟩)
      have hlimit' := List.all_eq_true.1 hkeeps limit hlimit
      have hactive : ∀ r, activeBudget d r "concurrent_executions" =
          activeBudget db r "concurrent_executions" := fun r => by
        rw [activeBudget_eq, activeBudget_eq, hbudgets]
      have hcurrent : existing.find? (·.resourceType = "concurrent_executions") =
          activeBudget db regionId "concurrent_executions" := by
        rw [List.find?_filter]
        unfold activeBudget
        congr 1
        funext b
        cases b.retiredAt <;> by_cases h : b.scopeId = regionId <;> simp [h]
      have hparent : parentBudget parentRegionId limit d = parentBudget parentRegionId limit db := by
        simp only [parentBudget, htype, hactive]
      rw [htype, hcurrent, hparent]
      simpa [htype] using hlimit'
  rw [hfold.2]
  exact hretired

/-! ## Runs -/

/-- The budgets of an installation pass the checks of their table. -/
theorem reachable_budgetRows (h : (installation P).Reachable s) :
    ∀ b ∈ s.db.budgets, Row.violation b = none := by
  refine h.invariant_of (I := fun s => ∀ b ∈ s.db.budgets, Row.violation b = none)
    (fun s (hs : InitialInstallation P s) => hs.budgetRows) fun s l t hr hrows hst => ?_
  have hstep : InstallationStep P s l t := hst
  have hs := reachable_installed hr
  cases l with
  | runtime k =>
    cases hstep with
    | runtime hstep hmoves => rwa [(hstep.accounts hs.sound).budgets]
  | configureBudgets r p limits =>
    cases hstep with
    | configureBudgets hop => exact (configureRegionBudgets_configures hop).rows hrows
  | _ => rwa [(hstep.leases hs (by simp) (by simp)).2]

/-- Whether a configuration of budgets counts what is running : nothing is in the subtree, or the
limits of executions are as they were. -/
def keepsConcurrency (s : Installation) : InstallationLabel → Bool
  | .configureBudgets regionId parentRegionId limits =>
    (s.db.runningIn regionId).isEmpty || keepsLimits s.db regionId parentRegionId limits
  | _ => true

/-- The runs whose configurations of budgets count what is running. -/
def countingRuns (P : Platform) : System Installation InstallationLabel :=
  (installation P).restrict fun s l => keepsConcurrency s l

theorem Covered.next (h : Covered s.db) (hr : (installation P).Reachable s)
    (hstep : InstallationStep P s l t) (hok : keepsConcurrency s l) : Covered t.db := by
  have hs := reachable_installed hr
  have ht := reachable_installed (hr.next hstep)
  have hbudgets := hs.sound.wellFormed.budgets
  cases l with
  | runtime k =>
    cases hstep with
    | runtime hstep hmoves =>
      exact h.accounts hs.reserved hbudgets hs.sound.coherent.executionsKeyed
        (reachable_budgetRows hr) (hstep.accounts hs.sound)
  | configureBudgets regionId parentRegionId limits =>
    cases hstep with
    | @configureBudgets _ _ _ db hop =>
      have hc := configureRegionBudgets_configures hop
      refine h.configures hs.reserved hc fun b' hb' hlimits => ?_
      simp only [keepsConcurrency, Bool.or_eq_true, List.isEmpty_iff] at hok
      rcases hok with hempty | hkeeps
      · rcases hc.new b' hb' with ⟨b, hb, rfl | ⟨t, rfl⟩⟩ | ⟨hscope, k, hk, -, hid⟩
        · exact Or.inl hb
        · simp [ResourceBudget.LimitsExecutions] at hlimits
        · exact Or.inr ⟨hscope ▸ hempty, k, hk, hid⟩
      · exact Or.inl (mem_executionBudgets.1 (configureRegionBudgets_executionBudgets hbudgets
          hkeeps hop b' (mem_executionBudgets.2 ⟨hb', hlimits⟩))).1
  | _ =>
    obtain ⟨hleases, hsame⟩ := hstep.leases hs (by simp) (by simp)
    rcases hstep.serves hs.reserved hs.attempts with ⟨k, hk, -⟩ | hserves
    · simp at hk
    · exact h.of_leases hs.reserved ht.reserved hbudgets hsame
        (congrArg Work.executions hserves.work) hserves.regions hleases

theorem reachable_covered (h : (countingRuns P).Reachable s) : Covered s.db := by
  refine h.invariant_of (I := fun s => Covered s.db) (fun s (hs : InitialInstallation P s) => ?_)
    fun s l t hr hcovered hst => hcovered.next hr.of_restrict hst.1 hst.2
  refine ⟨by simp [hs.state.reservations], fun b _ _ e he => ?_,
    by simp [hs.state.reservations]⟩
  simp [Db.runningIn, hs.state.executions] at he

/-- No more executions run in the subtree of a region than its active budgets of concurrent
executions allow. -/
def WithinBudgets (db : Db) : Prop :=
  ∀ b ∈ db.budgets, b.LimitsExecutions → (db.runningIn b.scopeId).length ≤ b.limitQuantity

theorem concurrency_safe (h : (countingRuns P).Reachable s) : WithinBudgets s.db :=
  fun _ hb hlimits => (reachable_covered h).running_le
    (reachable_installed h.of_restrict).sound.coherent.executionsKeyed hb hlimits

/-- The shop runs one execution, as its budget allows. -/
theorem concurrency_safe_shop : ∃ s,
    performs shopPlatform keepsConcurrency (shop [shopBudget 10 "concurrent_executions" 1])
        [.runtime (.submit (plantCommand "start" "c")), .runtime poll] = some s ∧
      (s.db.runningIn 100).length = 1 ∧ WithinBudgets s.db := by
  have hsome : (performs shopPlatform keepsConcurrency
      (shop [shopBudget 10 "concurrent_executions" 1])
      [.runtime (.submit (plantCommand "start" "c")), .runtime poll]).map
        (fun s => (s.db.runningIn 100).length) = some 1 := rfl
  obtain ⟨s, hs, hrunning⟩ := Option.map_eq_some_iff.1 hsome
  exact ⟨s, hs, hrunning, concurrency_safe (P := shopPlatform)
    (performs_reachable (shop_initial (by simp [shopBudget]) (by decide) (by decide)) hs)⟩

/-- A budget of one execution is configured while one runs, and then another one is leased. -/
theorem concurrency_exceeded : ∃ s, (installation shopPlatform).Reachable s ∧
    ¬WithinBudgets s.db := by
  have hsome : (performs shopPlatform (fun _ _ => true) (shop [])
      [.runtime (.submit (plantCommand "start" "c")), .runtime poll,
        .configureBudgets 100 none [⟨"concurrent_executions", 1, "count", .defer⟩],
        .runtime (.submit (plantCommand "start" "d")), .runtime poll]).map
        (fun s => (s.db.budgets.map fun b => (b.scopeId, b.resourceType, b.retiredAt,
          b.limitQuantity), (s.db.runningIn 100).length)) =
      some ([(100, "concurrent_executions", none, 1)], 2) := rfl
  obtain ⟨s, hs, hpair⟩ := Option.map_eq_some_iff.1 hsome
  obtain ⟨hrows, hrunning⟩ := Prod.mk.inj hpair
  refine ⟨s, (performs_reachable (shop_initial (by simp) (by decide) (by simp)) hs).of_restrict,
    fun h => ?_⟩
  obtain ⟨b, hb, heq⟩ := List.mem_map.1 (hrows ▸ List.mem_singleton_self _)
  simp only [Prod.mk.injEq] at heq
  have hle := h b hb ⟨heq.2.1, heq.2.2.1⟩
  rw [heq.1, heq.2.2.2, hrunning] at hle
  omega

end FactoryFloor
