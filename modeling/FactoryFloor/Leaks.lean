import FactoryFloor.Concurrency

/-!
# Reservations of leases

The first lease of an execution reserves a unit of every budget of concurrent executions that is
active above its region. A later lease finds the rows under the execution's key, and reserves
nothing. The rows are released by the trigger on the status of the execution, and by nothing else.

So a row is reserved exactly as long as its execution runs (`Leased`), whichever path ends the
execution, and each budget of the first lease has one row of it (`reservations_leak_free`).
-/

namespace FactoryFloor

open Relational Transition

variable {P : Platform} {db db' : Db} {s t u : Installation} {l : InstallationLabel}

/-! ## Rows -/

/-- The reservations for the lease of an execution. -/
def Db.leaseReservations (db : Db) (executionId : Uuid) : List ResourceReservation :=
  db.reservations.filter (·.idempotencyKey = .concurrentExecutions executionId)

theorem mem_leaseReservations {executionId : Uuid} {r : ResourceReservation} :
    r ∈ db.leaseReservations executionId ↔
      r ∈ db.reservations ∧ r.idempotencyKey = .concurrentExecutions executionId := by
  simp [Db.leaseReservations]

/-- A row of an execution under a budget of concurrent executions is for its lease. -/
theorem Reserved.mem_leaseReservations (hr : Reserved P db) (hkeyed : Keyed (·.id) db.budgets)
    {r : ResourceReservation} (hmem : r ∈ db.reservations) {b : ResourceBudget}
    (hb : b ∈ db.budgets) (hid : b.id = r.budgetId) (htype : b.resourceType = "concurrent_executions")
    {executionId : Uuid} (hexecution : r.executionId = some executionId) :
    r ∈ db.leaseReservations executionId := by
  refine FactoryFloor.mem_leaseReservations.2 ⟨hmem, ?_⟩
  obtain ⟨c, hc, hcid, hctype⟩ := hr.budget r hmem
  obtain rfl := hkeyed.eq hb hc (hid.trans hcid.symm)
  rcases (hr.regular r hmem).key with ⟨e, he⟩ | ⟨a, ha⟩
  · rw [(hr.regular r hmem).execution e he] at hexecution
    rw [he, Option.some.inj hexecution]
  · rw [htype, ha] at hctype
    simp [ReservationKey.resourceType] at hctype

/-- Every row for a lease has its execution, and is reserved as long as it runs. -/
def Leased (db : Db) : Prop :=
  ∀ r ∈ db.reservations, ∀ id, r.idempotencyKey = .concurrentExecutions id →
    ∃ e ∈ db.executions, e.id = id ∧ (r.status = .reserved ↔ e.status = .running)

/-- The rows for the leases of executions are there, apart from their status. -/
def KeepsLeases (db db' : Db) : Prop :=
  ∀ e ∈ db.executions, db.leaseReservations e.id ≠ [] →
    (db'.leaseReservations e.id).map ResourceReservation.asReserved =
      (db.leaseReservations e.id).map ResourceReservation.asReserved

/-! ## The trigger -/

section Trigger

variable {p : Execution → Bool} {f : Execution → Execution} {budgets : List ResourceBudget}
  {rows : List ResourceReservation} {r' : ResourceReservation} {e e' : Execution}

/-- What the trigger does to a row. -/
theorem mem_releaseTerminalExecutionAdmission
    (h : r' ∈ releaseTerminalExecutionAdmission budgets rows e e') :
    ∃ r ∈ rows, r.asReserved = r'.asReserved ∧
      (r'.status = r.status ∨ r'.status = .released ∧ r.executionId = some e'.id ∧
        e'.status.terminal) := by
  unfold releaseTerminalExecutionAdmission at h
  split at h
  · rename_i hmoved
    obtain ⟨r, hr, rfl⟩ := mem_updateWhere.1 h
    refine ⟨r, hr, ?_⟩
    simp only [Bool.and_eq_true] at hmoved
    by_cases hp : r.executionId = some e'.id && r.status = .reserved &&
        budgets.any fun b => b.id = r.budgetId && b.resourceType = "concurrent_executions"
    · rw [if_pos hp]
      simp only [Bool.and_eq_true, decide_eq_true_eq] at hp
      exact ⟨rfl, Or.inr ⟨rfl, hp.1.1, hmoved.1⟩⟩
    · rw [if_neg hp]
      exact ⟨rfl, Or.inl rfl⟩
  · exact ⟨r', h, rfl, Or.inl rfl⟩

/-- What an update of executions does to a row. -/
theorem mem_releasedBy_row (h : r' ∈ releasedBy p f db) :
    ∃ r ∈ db.reservations, r.asReserved = r'.asReserved ∧
      (r'.status = r.status ∨ r'.status = .released ∧
        ∃ e ∈ db.executions, p e ∧ r.executionId = some (f e).id ∧ (f e).status.terminal) := by
  refine releasedBy_induction (I := fun rows => ∀ r' ∈ rows, ∃ r ∈ db.reservations,
    r.asReserved = r'.asReserved ∧ (r'.status = r.status ∨ r'.status = .released ∧
      ∃ e ∈ db.executions, p e ∧ r.executionId = some (f e).id ∧ (f e).status.terminal))
    (fun r hr => ⟨r, hr, rfl, Or.inl rfl⟩) (fun rows hrows e he hp r' hr' => ?_) r' h
  obtain ⟨r, hr, hsame, hstatus⟩ := mem_releaseTerminalExecutionAdmission hr'
  obtain ⟨r₀, hr₀, hsame₀, hstatus₀⟩ := hrows r hr
  refine ⟨r₀, hr₀, hsame₀.trans hsame, ?_⟩
  rcases hstatus with hstatus | ⟨hreleased, hexecution, hterminal⟩
  · rwa [hstatus]
  · have hid : r₀.executionId = r.executionId :=
      (ResourceReservation.mk.inj hsame₀).2.2.2.1
    exact Or.inr ⟨hreleased, e, he, hp, hid.trans hexecution, hterminal⟩

/-- Executions that close release their rows. -/
theorem releasedBy_released (he : e ∈ db.executions) (hp : p e) (hterminal : (f e).status.terminal)
    (hmoved : e.status ≠ (f e).status) :
    ∀ r ∈ releasedBy p f db, r.executionId = some (f e).id →
      (∃ b ∈ db.budgets, b.id = r.budgetId ∧ b.resourceType = "concurrent_executions") →
      r.status ≠ .reserved := by
  obtain ⟨before, after, hsplit⟩ := List.append_of_mem (List.mem_filter.2 ⟨he, hp⟩)
  let I : List ResourceReservation → Prop := fun rows => ∀ r ∈ rows, r.executionId = some (f e).id →
    (∃ b ∈ db.budgets, b.id = r.budgetId ∧ b.resourceType = "concurrent_executions") →
    r.status ≠ .reserved
  have hrelease : ∀ rows, I (releaseTerminalExecutionAdmission db.budgets rows e (f e)) := by
    intro rows r hr hexecution ⟨b, hb, hid, htype⟩ hreserved
    unfold releaseTerminalExecutionAdmission at hr
    rw [if_pos (by simp [hterminal, hmoved])] at hr
    obtain ⟨r₀, -, heq⟩ := mem_updateWhere.1 hr
    split at heq
    · rw [← heq] at hreserved
      simp at hreserved
    · rename_i hnot
      obtain rfl := heq
      refine hnot ?_
      simp only [Bool.and_eq_true, decide_eq_true_eq, List.any_eq_true]
      exact ⟨⟨hexecution, hreserved⟩, b, hb, hid, htype⟩
  have hkeep : ∀ (es : List Execution) (rows : List ResourceReservation), I rows →
      I (es.foldl (fun rs e => releaseTerminalExecutionAdmission db.budgets rs e (f e)) rows) := by
    intro es
    induction es with
    | nil => exact fun _ h => h
    | cons e es ih =>
      refine fun rows hrows => ih _ fun r hr hexecution hbudget => ?_
      obtain ⟨r₀, hr₀, hsame, hstatus⟩ := mem_releaseTerminalExecutionAdmission hr
      obtain ⟨-, hbudgetId, -, hexec, -⟩ := ResourceReservation.mk.inj hsame
      rcases hstatus with hstatus | ⟨hreleased, -⟩
      · rw [hstatus]
        exact hrows r₀ hr₀ (hexec.trans hexecution) (hbudgetId ▸ hbudget)
      · simp [hreleased]
  unfold releasedBy
  rw [hsplit, List.foldl_append, List.foldl_cons]
  exact hkeep after _ (hrelease _)

end Trigger

/-! ## Steps of the runtime -/

theorem leaseReservations_congr (h : db'.reservations = db.reservations) (id : Uuid) :
    db'.leaseReservations id = db.leaseReservations id := by
  unfold Db.leaseReservations
  rw [h]

theorem KeepsLeases.of_rows
    (h : db'.reservations.map ResourceReservation.asReserved =
      db.reservations.map ResourceReservation.asReserved) : KeepsLeases db db' := by
  intro e _ _
  have hfilter : ∀ rows : List ResourceReservation,
      (rows.filter (·.idempotencyKey = .concurrentExecutions e.id)).map
          ResourceReservation.asReserved =
        (rows.map ResourceReservation.asReserved).filter
          (·.idempotencyKey = .concurrentExecutions e.id) := fun rows => by
    rw [List.filter_map]
    rfl
  unfold Db.leaseReservations
  rw [hfilter, hfilter, h]

theorem KeepsLeases.trans {db'' : Db} (h : KeepsLeases db db') (h' : KeepsLeases db' db'')
    (hexecutions : ∀ e ∈ db.executions, ∃ e' ∈ db'.executions, e'.id = e.id) :
    KeepsLeases db db'' := by
  intro e he hne
  obtain ⟨e', he', hid⟩ := hexecutions e he
  have hsame := h e he hne
  rw [← hsame, ← hid]
  refine h' e' he' fun hnil => hne ?_
  rw [← hid] at hsame ⊢
  rw [hnil] at hsame
  exact List.map_eq_nil_iff.1 hsame.symm

/-- What a statement of the runtime does to the rows of leases. -/
theorem AccountStep.leases (h : Leased db) (hr : Reserved P db) (hkeyed : Keyed (·.id) db.executions)
    (hstep : AccountStep P db db') :
    Leased db' ∧ KeepsLeases db db' ∧
      ∀ e ∈ db.executions, ∃ e' ∈ db'.executions, e'.id = e.id ∧ e'.regionId = e.regionId := by
  cases hstep with
  | keep hkeep =>
    refine ⟨?_, .of_rows (by rw [hkeep.reservations]), ?_⟩
    · unfold Leased
      rw [hkeep.reservations, hkeep.executions]
      exact h
    · rw [hkeep.executions]
      exact fun e he => ⟨e, he, rfl, rfl⟩
  | @admits e new _ hregions hdrawn hexecutions hnew hrunning hadmits =>
    have hold : ∀ f ∈ db.executions, f ∈ db'.executions := fun f hf => by
      rw [hexecutions]
      exact List.mem_append_left _ hf
    have hrows : ∀ r ∈ db.reservations, ∀ id, r.idempotencyKey = .concurrentExecutions id →
        ∃ e ∈ db'.executions, e.id = id ∧ (r.status = .reserved ↔ e.status = .running) := by
      intro r hr id hkey
      obtain ⟨f, hf, hid, hstatus⟩ := h r hr id hkey
      exact ⟨f, hold f hf, hid, hstatus⟩
    refine ⟨?_, ?_, fun f hf => ⟨f, hold f hf, rfl, rfl⟩⟩
    · cases hadmits with
      | replayed hkey hreservations =>
        unfold Leased
        rw [hreservations]
        exact hrows
      | @reserved n hn hkey hroom _ hreservations =>
        intro r hr id hid
        rw [hreservations] at hr
        rcases List.mem_append.1 hr with hr | hr
        · exact hrows r hr id hid
        · obtain ⟨b, -, rfl⟩ := List.mem_map.1 hr
          have hmem : e ∈ db'.executions := by
            rcases hnew with ⟨-, he⟩ | ⟨rfl, -⟩
            · exact hold e he
            · rw [hexecutions]
              simp
          exact ⟨e, hmem, ReservationKey.concurrentExecutions.inj hid,
            by simp [reservationOf, hrunning]⟩
    · cases hadmits with
      | replayed hkey hreservations => exact .of_rows (by rw [hreservations])
      | @reserved n hn hkey hroom _ hreservations =>
        intro f hf hne
        -- an execution that has rows is not the one that is admitted
        have hother : f.id ≠ e.id := fun hid => by
          obtain ⟨r, hr⟩ := List.exists_mem_of_ne_nil _ hne
          obtain ⟨hr, hrkey⟩ := mem_leaseReservations.1 hr
          exact hkey r hr (hrkey.trans (congrArg _ hid))
        have hnone : ((db.activeBudgets (executionLease e).regionId
            (executionLease e).resourceType).map (reservationOf (P.uuid n) (executionLease e))).filter
              (·.idempotencyKey = .concurrentExecutions f.id) = [] := by
          refine List.filter_eq_nil_iff.2 fun r hr => ?_
          obtain ⟨b, -, rfl⟩ := List.mem_map.1 hr
          simp [reservationOf, executionLease, Ne.symm hother]
        unfold Db.leaseReservations
        rw [hreservations, List.filter_append, hnone, List.append_nil]
  | @close p f hf hclosed _ hregions hdrawn hexecutions hreservations =>
    refine ⟨fun r' hr' id hkey => ?_, .of_rows (by rw [hreservations, Reserved.releasedBy_asReserved]),
      fun e he => ?_⟩
    · obtain ⟨r, hrmem, hsame, hstatus⟩ := mem_releasedBy_row (hreservations ▸ hr')
      obtain ⟨-, hbudget, -, hexecution, -, -, hkeys, -⟩ := ResourceReservation.mk.inj hsame
      obtain ⟨e, he, hid, hreserved⟩ := h r hrmem id (hkeys.trans hkey)
      refine ⟨_, hexecutions ▸ mem_updateWhere.2 ⟨e, he, rfl⟩, (hf.ite p e).1.trans hid, ?_⟩
      have hrexecution : r'.executionId = some e.id := by
        rw [← hexecution, (hr.regular r hrmem).execution id (hkeys.trans hkey), hid]
      by_cases hp : p e
      · have hterminal := hclosed e
        have hnot : (f e).status ≠ .running := fun heq => by
          rw [heq] at hterminal
          simp [ExecutionStatus.terminal] at hterminal
        simp only [hp, if_true, hnot, iff_false]
        intro hr'reserved
        by_cases hmoved : e.status = (f e).status
        · have hrunning : r.status = .reserved := by
            rcases hstatus with hstatus | ⟨hreleased, -⟩
            · exact hstatus.symm.trans hr'reserved
            · simp [hreleased] at hr'reserved
          exact hnot (hmoved.symm.trans (hreserved.1 hrunning))
        · obtain ⟨b, hb, hbid, htype⟩ := hr.budget r hrmem
          rw [hkeys.trans hkey] at htype
          exact releasedBy_released he hp hterminal hmoved r' (hreservations ▸ hr')
            (by rw [hf.id, hrexecution]) ⟨b, hb, hbid.trans hbudget, htype⟩ hr'reserved
      · simp only [hp, Bool.false_eq_true, if_false]
        rcases hstatus with hstatus | ⟨-, x, hx, hpx, hxid, -⟩
        · rwa [hstatus]
        · rw [hexecution, hrexecution, hf.id] at hxid
          obtain rfl := hkeyed.eq he hx (Option.some.inj hxid)
          exact absurd hpx hp
    · exact ⟨_, hexecutions ▸ mem_updateWhere.2 ⟨e, he, rfl⟩, (hf.ite p e).1,
        congrArg GroupKey.regionId ((hf.ite p e).2.2.1 (.other ""))⟩

theorem AccountStep.keyed (hkeyed : Keyed (·.id) db.executions) (hstep : AccountStep P db db') :
    Keyed (·.id) db'.executions := by
  cases hstep with
  | keep hkeep => rwa [hkeep.executions]
  | admits _ _ _ hexecutions hnew =>
    rw [hexecutions]
    rcases hnew with ⟨rfl, -⟩ | ⟨rfl, hfresh⟩
    · simpa using hkeyed
    · exact hkeyed.append hfresh
  | close hf _ _ _ _ hexecutions =>
    rw [hexecutions]
    exact hkeyed.updateWhere hf.id

theorem AccountStep.regions (hstep : AccountStep P db db') :
    db'.regions.map Region.key = db.regions.map Region.key := by
  cases hstep with
  | keep hkeep => exact hkeep.regions
  | admits _ hregions => exact hregions
  | close _ _ _ hregions => exact hregions

/-- An execution that a statement creates has a row under every active budget above it. -/
theorem AccountStep.first (h : Leased db) (hstep : AccountStep P db db') {e : Execution}
    (he : e ∈ db'.executions) (hnew : ∀ f ∈ db.executions, f.id ≠ e.id) {b : ResourceBudget}
    (hb : b ∈ db.activeBudgets e.regionId "concurrent_executions") :
    ∃ r ∈ db'.leaseReservations e.id, r.budgetId = b.id := by
  cases hstep with
  | keep hkeep => exact absurd rfl (hnew e (hkeep.executions ▸ he))
  | @admits x new _ _ _ hexecutions hcreated _ hadmits =>
    rw [hexecutions] at he
    obtain rfl : e = x := by
      rcases hcreated with ⟨rfl, -⟩ | ⟨rfl, -⟩ <;> rcases List.mem_append.1 he with he | he
      · exact absurd rfl (hnew e he)
      · simp at he
      · exact absurd rfl (hnew e he)
      · exact List.mem_singleton.1 he
    cases hadmits with
    | replayed hkey =>
      obtain ⟨r, hr, hrkey⟩ := hkey
      obtain ⟨f, hf, hid, -⟩ := h r hr e.id hrkey
      exact absurd hid (hnew f hf)
    | reserved _ _ _ _ hreservations =>
      refine ⟨_, mem_leaseReservations.2 ⟨hreservations ▸ List.mem_append_right _
        (List.mem_map_of_mem hb), rfl⟩, rfl⟩
  | close hf _ _ _ _ hexecutions =>
    obtain ⟨f, hf', rfl⟩ := mem_updateWhere.1 (hexecutions ▸ he)
    exact absurd (hf.ite _ f).1.symm (hnew f hf')

/-- The rows of a lease that are kept are under the same budgets. -/
theorem KeepsLeases.budget (h : KeepsLeases db db') {e : Execution} (he : e ∈ db.executions)
    {r : ResourceReservation} (hr : r ∈ db.leaseReservations e.id) :
    ∃ r' ∈ db'.leaseReservations e.id, r'.budgetId = r.budgetId := by
  have hmem : r.asReserved ∈ (db'.leaseReservations e.id).map ResourceReservation.asReserved := by
    rw [h e he (List.ne_nil_of_mem hr)]
    exact List.mem_map_of_mem hr
  obtain ⟨r', hr', hsame⟩ := List.mem_map.1 hmem
  exact ⟨r', hr', (ResourceReservation.mk.inj hsame).2.1⟩

/-- What a transaction of the runtime does to the rows of leases. -/
structure LeaseEffect (db db' : Db) : Prop where
  leased : Leased db'
  keeps : KeepsLeases db db'
  executions : ∀ e ∈ db.executions, ∃ e' ∈ db'.executions, e'.id = e.id ∧ e'.regionId = e.regionId
  first : ∀ e ∈ db'.executions, (∀ f ∈ db.executions, f.id ≠ e.id) →
    ∀ b ∈ db.activeBudgets e.regionId "concurrent_executions",
      ∃ r ∈ db'.leaseReservations e.id, r.budgetId = b.id

theorem Accounts.leases (h : Leased db) (hr : Reserved P db) (hkeyed : Keyed (·.id) db.executions)
    (haccounts : Accounts P db db') : LeaseEffect db db' := by
  suffices hall : LeaseEffect db db' ∧ Reserved P db' ∧ Keyed (·.id) db'.executions ∧
      db'.regions.map Region.key = db.regions.map Region.key from hall.1
  induction haccounts with
  | refl =>
    exact ⟨⟨h, fun _ _ _ => rfl, fun e he => ⟨e, he, rfl, rfl⟩,
      fun e he hnew => absurd rfl (hnew e he)⟩, hr, hkeyed, rfl⟩
  | @tail db₁ db₂ hpre hstep ih =>
    obtain ⟨heffect, hr₁, hkeyed₁, hregions⟩ := ih
    obtain ⟨hleased, hkeeps, hexecutions⟩ := hstep.leases heffect.leased hr₁ hkeyed₁
    have hkeyed₂ := hstep.keyed hkeyed₁
    refine ⟨⟨hleased, heffect.keeps.trans hkeeps fun e he => ?_, fun e he => ?_,
      fun e he hnew b hb => ?_⟩, hr₁.step hstep, hkeyed₂, hstep.regions.trans hregions⟩
    · obtain ⟨e', he', hid, -⟩ := heffect.executions e he
      exact ⟨e', he', hid⟩
    · obtain ⟨e', he', hid, hregion⟩ := heffect.executions e he
      obtain ⟨e'', he'', hid', hregion'⟩ := hexecutions e' he'
      exact ⟨e'', he'', hid'.trans hid, hregion'.trans hregion⟩
    · by_cases hthere : ∃ f ∈ db₁.executions, f.id = e.id
      · obtain ⟨f, hf, hid⟩ := hthere
        obtain ⟨e', he', hid', hregion⟩ := hexecutions f hf
        obtain rfl := hkeyed₂.eq he' he (hid'.trans hid)
        obtain ⟨r, hr, hbudget⟩ := heffect.first f hf (hid ▸ hnew) b (hregion ▸ hb)
        obtain ⟨r', hr', hbudget'⟩ := hkeeps.budget hf hr
        exact ⟨r', hid ▸ hr', hbudget'.trans hbudget⟩
      · have hactive : b ∈ db₁.activeBudgets e.regionId "concurrent_executions" := by
          rw [Reserved.mem_activeBudgets] at hb ⊢
          rwa [ancestors_congr hregions, Accounts.budgets hpre]
        exact hstep.first heffect.leased he (by simpa using hthere) hactive

/-! ## Steps of an installation -/

/-- The rows of leases after a write that keeps them. -/
theorem LeaseEffect.of_rows (h : Leased db) (hexecutions : db'.executions = db.executions)
    (hleases : db'.reservations.filter (·.isLease) = db.reservations.filter (·.isLease)) :
    LeaseEffect db db' := by
  have hrows : ∀ id, db'.leaseReservations id = db.leaseReservations id := fun id => by
    have hfilter : ∀ d : Db, d.leaseReservations id =
        (d.reservations.filter (·.isLease)).filter
          (·.idempotencyKey = .concurrentExecutions id) := fun d => by
      rw [List.filter_filter]
      refine List.filter_congr fun r _ => ?_
      by_cases hkey : r.idempotencyKey = .concurrentExecutions id <;>
        simp [hkey, ResourceReservation.isLease, ReservationKey.execution?]
    rw [hfilter, hfilter, hleases]
  refine ⟨fun r hr id hkey => ?_, fun e _ _ => by rw [hrows], fun e he => ⟨e, hexecutions ▸ he, rfl, rfl⟩,
    fun e he hnew => absurd rfl (hnew e (hexecutions ▸ he))⟩
  rw [hexecutions]
  have hmem : r ∈ db.leaseReservations id := hrows id ▸ mem_leaseReservations.2 ⟨hr, hkey⟩
  exact h r (mem_leaseReservations.1 hmem).1 id hkey

/-- What a step of an installation does to the rows of leases. -/
theorem InstallationStep.leaseEffect (hr : (installation P).Reachable s) (h : Leased s.db)
    (hstep : InstallationStep P s l t) : LeaseEffect s.db t.db := by
  have hs := reachable_installed hr
  cases l with
  | runtime k =>
    cases hstep with
    | runtime hstep hmoves =>
      exact (hstep.accounts hs.sound).leases h hs.reserved hs.sound.coherent.executionsKeyed
  | configureBudgets regionId parentRegionId limits =>
    cases hstep with
    | configureBudgets hop =>
      have hframe := (configureRegionBudgets_configures hop).frame
      exact .of_rows h (by rw [hframe]) (by rw [hframe])
  | _ =>
    obtain ⟨hleases, -⟩ := hstep.leases hs (by simp) (by simp)
    rcases hstep.serves hs.reserved hs.attempts with ⟨k, hk, -⟩ | hserves
    · simp at hk
    · exact .of_rows h (congrArg Work.executions hserves.work) hleases

theorem reachable_leased (h : (installation P).Reachable s) : Leased s.db := by
  refine h.invariant_of (I := fun s => Leased s.db) (fun s (hs : InitialInstallation P s) => ?_)
    fun s l t hr hleased hst => (InstallationStep.leaseEffect hr hleased hst).leased
  simp [Leased, hs.state.reservations]

/-! ## Leases of an execution -/

/-- A step that first leases an execution, on the way to a state. -/
structure FirstLease (P : Platform) (e : Execution) (s t u : Installation) : Prop where
  reachable : (installation P).Reachable s
  step : ∃ l, (installation P).step s l t
  created : (∀ f ∈ s.db.executions, f.id ≠ e.id) ∧ ∃ f ∈ t.db.executions, f.id = e.id
  later : (installation P).Later t u

/-- An execution has one row under a budget, which is reserved exactly as long as it runs. -/
def Db.HoldsUnit (db : Db) (e : Execution) (b : ResourceBudget) : Prop :=
  ∃ r, (db.leaseReservations e.id).filter (·.budgetId = b.id) = [r] ∧
    (r.status = .reserved ↔ e.status = .running)

/-- The reservations of leases in a state. -/
structure LeakFree (P : Platform) (u : Installation) : Prop where
  leased : ∀ e ∈ u.db.executions, ∃ s t, FirstLease P e s t u
  /-- An execution holds its unit of each budget that was active at its first lease. -/
  held : ∀ e ∈ u.db.executions, ∀ s t, FirstLease P e s t u →
    ∀ b ∈ s.db.activeBudgets e.regionId "concurrent_executions", u.db.HoldsUnit e b
  /-- An execution that does not run holds no unit of any budget. -/
  released : ∀ e ∈ u.db.executions, e.status ≠ .running → ∀ r ∈ u.db.reservations,
    r.executionId = some e.id → ∀ b ∈ u.db.budgets, b.id = r.budgetId →
      b.resourceType = "concurrent_executions" → r.status ≠ .reserved
  /-- A step adds no row to an execution that has rows, and loses none. -/
  kept : ∀ l v, (installation P).step u l v → KeepsLeases u.db v.db

/-- The rows of an execution, from its first lease on. -/
theorem FirstLease.rows {e : Execution} (h : FirstLease P e s t u) :
    ∃ e' ∈ u.db.executions, e'.id = e.id ∧
      ∀ b ∈ s.db.activeBudgets e'.regionId "concurrent_executions",
        ∃ r ∈ u.db.leaseReservations e.id, r.budgetId = b.id := by
  obtain ⟨hs, ⟨l, hstep⟩, ⟨hnew, f, hf, hid⟩, hlater⟩ := h
  refine hlater.preserves (P := fun u => ∃ e' ∈ u.db.executions, e'.id = e.id ∧
    ∀ b ∈ s.db.activeBudgets e'.regionId "concurrent_executions",
      ∃ r ∈ u.db.leaseReservations e.id, r.budgetId = b.id) ?_ (hs.next hstep) ?_
  · rintro u l v hu ⟨e', he', hid', hrows⟩ hstep
    have heffect := InstallationStep.leaseEffect hu (reachable_leased hu) hstep
    obtain ⟨e'', he'', hid'', hregion⟩ := heffect.executions e' he'
    refine ⟨e'', he'', hid''.trans hid', fun b hb => ?_⟩
    obtain ⟨r, hr, hbudget⟩ := hrows b (hregion ▸ hb)
    obtain ⟨r', hr', hbudget'⟩ := heffect.keeps.budget he' (hid'.symm ▸ hr)
    exact ⟨r', hid' ▸ hr', hbudget'.trans hbudget⟩
  · refine ⟨f, hf, hid, fun b hb => ?_⟩
    rw [← hid]
    exact (InstallationStep.leaseEffect hs (reachable_leased hs) hstep).first f hf
      (hid.symm ▸ hnew) b hb

/-- Every execution of a reachable state has been leased first. -/
theorem exists_firstLease (h : (installation P).Reachable u) :
    ∀ e ∈ u.db.executions, ∃ s t, FirstLease P e s t u := by
  induction h with
  | @start s hs =>
    have hinitial : InitialInstallation P s := hs
    simp [hinitial.state.executions]
  | @next u v l hu hstep ih =>
    intro e he
    by_cases hthere : ∃ f ∈ u.db.executions, f.id = e.id
    · obtain ⟨f, hf, hid⟩ := hthere
      obtain ⟨s, t, hfirst⟩ := ih f hf
      exact ⟨s, t, hfirst.reachable, hfirst.step, hid ▸ hfirst.created, hfirst.later.next hstep⟩
    · exact ⟨u, v, hu, ⟨l, hstep⟩, ⟨by simpa using hthere, e, he, rfl⟩, .refl⟩

/-- In every reachable state, each execution that runs holds its unit of each budget that was active
above its region at its first lease, no other execution holds one, and no step adds a row to an
execution that has rows, or loses one. -/
theorem reservations_leak_free (h : (installation P).Reachable u) : LeakFree P u := by
  have hu := reachable_installed h
  have hleased := reachable_leased h
  have hexecutions := hu.sound.coherent.executionsKeyed
  have hstatus : ∀ e ∈ u.db.executions, ∀ r ∈ u.db.leaseReservations e.id,
      (r.status = .reserved ↔ e.status = .running) := by
    intro e he r hr
    obtain ⟨hmem, hkey⟩ := mem_leaseReservations.1 hr
    obtain ⟨f, hf, hid, hiff⟩ := hleased r hmem e.id hkey
    rwa [hexecutions.eq hf he hid] at hiff
  refine ⟨exists_firstLease h, fun e he s t hfirst b hb => ?_, fun e he hidle r hr hexecution b hb hid
    htype hreserved => ?_, fun l v hstep => (InstallationStep.leaseEffect h hleased hstep).keeps⟩
  · obtain ⟨e', he', hid, hrows⟩ := hfirst.rows
    obtain rfl := hexecutions.eq he' he hid
    obtain ⟨r, hr, hbudget⟩ := hrows b hb
    refine ⟨r, ?_, hstatus e' he r hr⟩
    obtain ⟨hmem, hkey⟩ := mem_leaseReservations.1 hr
    unfold Db.leaseReservations
    rw [List.filter_filter]
    refine hu.reserved.keyed.filter_eq_singleton hmem fun x _ => ?_
    simp [hbudget, hkey]
  · have hmem := hu.reserved.mem_leaseReservations hu.sound.wellFormed.budgets hr hb hid htype
      hexecution
    exact hidle ((hstatus e he r hmem).1 hreserved)

/-- The first attempt of the shop has expired, and its retry is leased. -/
def shopRetried : List InstallationAction :=
  [.runtime (.submit (plantCommand "start" "c")), .runtime poll, .runtime (.tick 2000),
    .runtime .scanExpired, .runtime (.recoverExpired 0), .runtime (.tick 20000), .runtime poll]

/-- The retry runs under the reservation of the first attempt. -/
theorem reservations_leak_free_retried : ∃ s, (installation shopPlatform).Reachable s ∧
    s.db.attempts.map (·.status) = [.abandoned, .leased] ∧
    (s.db.executions.map fun e => (s.db.leaseReservations e.id).map (·.status)) = [[.reserved]] ∧
    LeakFree shopPlatform s := by
  have hsome : (performs shopPlatform (fun _ _ => true)
      (shop [shopBudget 10 "concurrent_executions" 1]) shopRetried).map
        (fun s => (s.db.attempts.map (·.status),
          s.db.executions.map fun e => (s.db.leaseReservations e.id).map (·.status))) =
      some ([.abandoned, .leased], [[.reserved]]) := rfl
  obtain ⟨s, hs, hpair⟩ := Option.map_eq_some_iff.1 hsome
  obtain ⟨hattempts, hrows⟩ := Prod.mk.inj hpair
  have hreachable := (performs_reachable
    (shop_initial (by simp [shopBudget]) (by decide) (by decide)) hs).of_restrict
  exact ⟨s, hreachable, hattempts, hrows, reservations_leak_free hreachable⟩

end FactoryFloor
