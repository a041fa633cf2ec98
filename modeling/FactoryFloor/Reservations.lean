import FactoryFloor.Sound

/-!
# What admits executions

The budgets, the reservations and the executions are the accounts of admission. A step of the
runtime does three things to them (`AccountStep`) : it keeps them, it admits the lease of a running
execution, or it closes executions, and the trigger releases what they reserved. Nothing else in
the runtime writes a reservation, and nothing in it writes a budget.

`reserveInTransaction_eq_ok` says what a request does. An admitted request keeps the reservations
it has under its key, or it adds one to every active budget of the ancestor chain, and each of
these has room for it.
-/

namespace FactoryFloor

open Relational

variable {P : Platform} {db db' db'' : Db}

/-! ## Requests -/

/-- The reservation of a request under a budget. -/
def reservationOf (requestId : Uuid) (input : ReserveResourceInput) (budget : ResourceBudget) :
    ResourceReservation :=
  { requestId, budgetId := budget.id, regionId := input.regionId,
    executionId := input.executionId, attemptId := input.attemptId,
    externalActionId := input.externalActionId, idempotencyKey := input.idempotencyKey,
    quantity := input.quantity, status := .reserved }

/-- Whether a budget has room for a quantity beside what is reserved. -/
def Db.HasRoom (db : Db) (quantity : ℕ) (budget : ResourceBudget) : Prop :=
  db.reservedQuantity budget.id + quantity ≤ budget.limitQuantity

theorem consumedQuantity_eq_ok {budget : ResourceBudget} {resourceType : String} {q : ℤ} :
    db.consumedQuantity budget resourceType = .ok q ↔
      db.consumedRows budget resourceType = [] ∧ q = 0 := by
  unfold Db.consumedQuantity
  cases db.consumedRows budget resourceType <;> simp [eq_comm]

theorem calculateAdmission_eq_admitted {limit consumed reserved requested : ℤ}
    {exhaustion : AdmissionOutcome} (h : exhaustion ≠ .admitted) :
    calculateAdmission limit consumed reserved requested exhaustion = .admitted ↔
      consumed + reserved + requested ≤ limit := by
  unfold calculateAdmission
  split
  · simp only [true_iff]
    omega
  · simp only [h, false_iff]
    omega

/-- No budget refuses a request exactly when nothing is consumed and each budget has room, if no
budget admits what it has no room for. -/
theorem firstRefusal_eq_none {input : ReserveResourceInput} {budgets : List ResourceBudget}
    (hb : ∀ b ∈ budgets, b.exhaustionOutcome ≠ .admitted) :
    db.firstRefusal input budgets = .ok none ↔ ∀ b ∈ budgets,
      db.consumedRows b input.resourceType = [] ∧ db.HasRoom input.quantity b := by
  induction budgets with
  | nil => simp [Db.firstRefusal]
  | cons b budgets ih =>
    have hroom : ((0 : ℤ) + db.reservedQuantity b.id + input.quantity ≤ b.limitQuantity) ↔
        db.HasRoom input.quantity b := by
      unfold Db.HasRoom
      omega
    rw [List.forall_mem_cons, ← ih fun c hc => hb c (List.mem_cons_of_mem b hc), Db.firstRefusal,
      Except.bind_eq_ok]
    constructor
    · rintro ⟨consumed, hconsumed, h⟩
      obtain ⟨hrows, rfl⟩ := consumedQuantity_eq_ok.1 hconsumed
      dsimp only at h
      split at h
      · rename_i hadmitted
        exact ⟨⟨hrows, hroom.1 ((calculateAdmission_eq_admitted (hb b (by simp))).1 hadmitted)⟩, h⟩
      · simp [pure, Except.pure] at h
    · rintro ⟨⟨hrows, hb'⟩, h⟩
      refine ⟨0, consumedQuantity_eq_ok.2 ⟨hrows, rfl⟩, ?_⟩
      dsimp only
      rw [if_pos ((calculateAdmission_eq_admitted (hb b (by simp))).2 (hroom.2 hb'))]
      exact h

/-- A budget that refuses does so with another outcome than `admitted`. -/
theorem firstRefusal_eq_some {input : ReserveResourceInput} {budgets : List ResourceBudget}
    {outcome : AdmissionOutcome} (h : db.firstRefusal input budgets = .ok (some outcome)) :
    outcome ≠ .admitted := by
  induction budgets with
  | nil => simp [Db.firstRefusal] at h
  | cons b budgets ih =>
    obtain ⟨consumed, -, h⟩ := Except.bind_eq_ok.1 h
    dsimp only at h
    split at h
    · exact ih h
    · rename_i hne
      obtain rfl := Option.some.inj (Except.ok.inj h)
      exact hne

/-- A request adds no row for a budget in which its key has one. -/
theorem insertReservations_fresh {requestId : Uuid} {input : ReserveResourceInput}
    {budgets : List ResourceBudget} {reservations reservations' : List ResourceReservation}
    (h : insertReservations requestId input reservations budgets = .ok reservations') :
    ∀ r ∈ reservations, r.idempotencyKey = input.idempotencyKey → ∀ b ∈ budgets,
      b.id ≠ r.budgetId := by
  induction budgets generalizing reservations with
  | nil => simp
  | cons b budgets ih =>
    intro r hr hkey
    obtain ⟨rows, hinsert, h⟩ := Except.bind_eq_ok.1 h
    obtain ⟨rfl, -, hunique⟩ := insert_eq_ok.1 hinsert
    refine List.forall_mem_cons.2 ⟨fun hid => ?_, ih h r (List.mem_append_left _ hr) hkey⟩
    have := hunique _ (List.mem_singleton.2 rfl) r hr
    simp [hid, hkey] at this

/-- A request that is admitted adds one row for each budget. -/
theorem insertReservations_eq_ok {requestId : Uuid} {input : ReserveResourceInput}
    {budgets : List ResourceBudget} {reservations reservations' : List ResourceReservation}
    (h : insertReservations requestId input reservations budgets = .ok reservations') :
    reservations' = reservations ++ budgets.map (reservationOf requestId input) ∧
      Keyed (·.id) budgets := by
  induction budgets generalizing reservations with
  | nil =>
    obtain rfl := Except.ok.inj h
    exact ⟨by simp, List.nodup_nil⟩
  | cons b budgets ih =>
    obtain ⟨rows, hinsert, h⟩ := Except.bind_eq_ok.1 h
    obtain ⟨rfl, -, -⟩ := insert_eq_ok.1 hinsert
    obtain ⟨rfl, hkeyed⟩ := ih h
    refine ⟨by simp [reservationOf], List.nodup_cons.2 ⟨fun hmem => ?_, hkeyed⟩⟩
    obtain ⟨c, hc, hid⟩ := List.mem_map.1 hmem
    exact insertReservations_fresh h (reservationOf requestId input b) (by simp [reservationOf])
      rfl c hc hid

/-- A request that is admitted : it has reservations under its key, or it gets one in every active
budget of the ancestor chain. -/
inductive Admits (P : Platform) (input : ReserveResourceInput) (db db' : Db) : Prop
  | replayed (hkey : ∃ r ∈ db.reservations, r.idempotencyKey = input.idempotencyKey)
      (hreservations : db'.reservations = db.reservations)
  | reserved {n : ℕ} (hn : db.drawn ≤ n ∧ n < db'.drawn)
      (hkey : ∀ r ∈ db.reservations, r.idempotencyKey ≠ input.idempotencyKey)
      (hroom : ∀ b ∈ db.activeBudgets input.regionId input.resourceType,
        b.exhaustionOutcome ≠ .admitted → db.HasRoom input.quantity b)
      (hkeyed : Keyed (·.id) (db.activeBudgets input.regionId input.resourceType))
      (hreservations : db'.reservations = db.reservations ++
        (db.activeBudgets input.regionId input.resourceType).map (reservationOf (P.uuid n) input))

/-- Budgets that admit a request have room for it. -/
theorem firstRefusal_room {input : ReserveResourceInput} {budgets : List ResourceBudget}
    (h : db.firstRefusal input budgets = .ok none) :
    ∀ b ∈ budgets, b.exhaustionOutcome ≠ .admitted → db.HasRoom input.quantity b := by
  induction budgets with
  | nil => simp
  | cons b budgets ih =>
    obtain ⟨consumed, hconsumed, h⟩ := Except.bind_eq_ok.1 h
    obtain ⟨-, rfl⟩ := consumedQuantity_eq_ok.1 hconsumed
    dsimp only at h
    split at h
    · rename_i hadmitted
      refine List.forall_mem_cons.2 ⟨fun hb => ?_, ih h⟩
      have := (calculateAdmission_eq_admitted hb).1 hadmitted
      unfold Db.HasRoom
      omega
    · simp [pure, Except.pure] at h

/-- What a request does to the database. -/
theorem reserveInTransaction_eq_ok {input : ReserveResourceInput} {outcome : AdmissionOutcome}
    (h : reserveInTransaction P input db = .ok (outcome, db')) :
    ∃ reservations n, db' = { db with reservations, drawn := n } ∧ db.drawn ≤ n ∧
      (outcome ≠ .admitted ∧ reservations = db.reservations ∨
        outcome = .admitted ∧ Admits P input db db') := by
  unfold reserveInTransaction at h
  split at h
  · rename_i hany
    obtain ⟨rfl, rfl⟩ := Prod.mk.inj (Except.ok.inj h)
    refine ⟨db.reservations, db.drawn, rfl, le_rfl, Or.inr ⟨rfl, .replayed ?_ rfl⟩⟩
    simpa using hany
  rename_i hnone
  obtain ⟨refusal, hrefusal, h⟩ := Except.bind_eq_ok.1 h
  cases refusal with
  | some o =>
    obtain ⟨-, -, h⟩ := Except.bind_eq_ok.1 h
    obtain ⟨rfl, rfl⟩ := Prod.mk.inj (Except.ok.inj h)
    exact ⟨db.reservations, db.drawn + 1, rfl, Nat.le_succ _,
      Or.inl ⟨firstRefusal_eq_some hrefusal, rfl⟩⟩
  | none =>
    obtain ⟨-, -, h⟩ := Except.bind_eq_ok.1 h
    obtain ⟨reservations, hinsert, h⟩ := Except.bind_eq_ok.1 h
    obtain ⟨rfl, rfl⟩ := Prod.mk.inj (Except.ok.inj h)
    obtain ⟨rfl, hkeyed⟩ := insertReservations_eq_ok (sql_eq_ok.1 hinsert)
    refine ⟨_, db.drawn + 1, rfl, Nat.le_succ _, Or.inr ⟨rfl, ?_⟩⟩
    exact .reserved ⟨le_rfl, Nat.lt_succ_self _⟩ (by simpa using hnone) (firstRefusal_room hrefusal)
      hkeyed rfl

/-- What a request is admitted by are the budgets, the reservations and the regions. -/
theorem Admits.congr {input : ReserveResourceInput} (h : Admits P input db db')
    {before after : Db} (hbudgets : before.budgets = db.budgets)
    (hreservations : before.reservations = db.reservations) (hregions : before.regions = db.regions)
    (hdrawn : before.drawn ≤ db.drawn) (hreservations' : after.reservations = db'.reservations)
    (hdrawn' : db'.drawn ≤ after.drawn) : Admits P input before after := by
  have hactive : ∀ id resource, before.activeBudgets id resource = db.activeBudgets id resource := by
    intro id resource
    have hancestors : ∀ n id, before.ancestorsUpTo n id = db.ancestorsUpTo n id := by
      intro n
      induction n with
      | zero => exact fun _ => rfl
      | succ n ih =>
        intro id
        unfold Db.ancestorsUpTo
        simp only [Db.region?, hregions, ih]
    simp only [Db.activeBudgets, Db.ancestors, hregions, hancestors, hbudgets]
  have hroom : ∀ q b, before.HasRoom q b ↔ db.HasRoom q b := fun q b => by
    simp only [Db.HasRoom, Db.reservedQuantity, hreservations]
  cases h with
  | replayed hkey hrows =>
    exact .replayed (hreservations ▸ hkey) (by rw [hreservations', hrows, hreservations])
  | reserved hn hkey hfits hkeyed hrows =>
    refine .reserved ⟨hdrawn.trans hn.1, hn.2.trans_le hdrawn'⟩ (hreservations ▸ hkey) ?_ ?_ ?_
    · rw [hactive]
      exact fun b hb hne => (hroom _ _).2 (hfits b hb hne)
    · rwa [hactive]
    · rw [hreservations', hrows, hreservations, hactive]

/-! ## Accounts -/

/-- The accounts of admission are the same, and the regions keep their keys. -/
structure SameAccounts (db db' : Db) : Prop where
  budgets : db'.budgets = db.budgets
  reservations : db'.reservations = db.reservations
  executions : db'.executions = db.executions
  regions : db'.regions.map Region.key = db.regions.map Region.key
  drawn : db.drawn ≤ db'.drawn

theorem SameAccounts.of_scheduling (h : db'.toScheduling = db.toScheduling)
    (hdrawn : db.drawn ≤ db'.drawn) : SameAccounts db db' :=
  ⟨by rw [h], by rw [h], by rw [h], by rw [h], hdrawn⟩

theorem SameAccounts.trans (h : SameAccounts db db') (h' : SameAccounts db' db'') :
    SameAccounts db db'' :=
  ⟨h'.budgets.trans h.budgets, h'.reservations.trans h.reservations,
    h'.executions.trans h.executions, h'.regions.trans h.regions, h.drawn.trans h'.drawn⟩

/-- A statement after others that keep the accounts. -/
theorem SameAccounts.after (h : SameAccounts db' db'') (h₀ : SameAccounts db db') :
    SameAccounts db db'' :=
  h₀.trans h

/-- An update of regions that keeps their keys. -/
theorem SameAccounts.of_regions {p : Region → Bool} {f : Region → Region}
    (h : db' = { db with regions := updateWhere p f db.regions })
    (hf : ∀ r, (f r).key = r.key) : SameAccounts db db' := by
  obtain rfl := h
  exact ⟨rfl, rfl, rfl, map_updateWhere _ hf _, le_rfl⟩

/-- The request for the lease of an execution. -/
def executionLease (e : Execution) : ReserveResourceInput :=
  { regionId := e.regionId, resourceType := "concurrent_executions", quantity := 1,
    idempotencyKey := .concurrentExecutions e.id, executionId := some e.id, attemptId := none,
    externalActionId := none }

/-- The reservations after an update of executions. -/
def releasedBy (p : Execution → Bool) (f : Execution → Execution) (db : Db) :
    List ResourceReservation :=
  (db.executions.filter p).foldl
    (fun rs e => releaseTerminalExecutionAdmission db.budgets rs e (f e)) db.reservations

/-- What the trigger keeps for one execution, it keeps for an update. -/
theorem releasedBy_induction {I : List ResourceReservation → Prop} {p : Execution → Bool}
    {f : Execution → Execution} (h : I db.reservations)
    (hstep : ∀ rows, I rows → ∀ e ∈ db.executions, p e →
      I (releaseTerminalExecutionAdmission db.budgets rows e (f e))) : I (releasedBy p f db) := by
  have hfold : ∀ (es : List Execution) (rows : List ResourceReservation),
      (∀ e ∈ es, e ∈ db.executions ∧ p e) → I rows →
      I (es.foldl (fun rs e => releaseTerminalExecutionAdmission db.budgets rs e (f e)) rows) := by
    intro es
    induction es with
    | nil => exact fun rows _ hrows => hrows
    | cons e es ih =>
      intro rows hes hrows
      obtain ⟨he, hes⟩ := List.forall_mem_cons.1 hes
      exact ih _ hes (hstep rows hrows e he.1 he.2)
  exact hfold _ _ (fun e he => List.mem_filter.1 he) h

/-- What one statement of the runtime does to the accounts. -/
inductive AccountStep (P : Platform) : Db → Db → Prop
  | keep {db db' : Db} (h : SameAccounts db db') : AccountStep P db db'
  | admits {db db' : Db} {e : Execution} {new : List Execution}
      (hbudgets : db'.budgets = db.budgets)
      (hregions : db'.regions.map Region.key = db.regions.map Region.key)
      (hdrawn : db.drawn ≤ db'.drawn) (hexecutions : db'.executions = db.executions ++ new)
      (hnew : new = [] ∧ e ∈ db.executions ∨ new = [e] ∧ ∀ f ∈ db.executions, f.id ≠ e.id)
      (hrunning : e.status = .running) (hadmits : Admits P (executionLease e) db db') :
      AccountStep P db db'
  | close {db db' : Db} {p : Execution → Bool} {f : Execution → Execution}
      (hf : Execution.Moves f) (hclosed : ∀ e, (f e).status.terminal)
      (hbudgets : db'.budgets = db.budgets)
      (hregions : db'.regions.map Region.key = db.regions.map Region.key)
      (hdrawn : db.drawn ≤ db'.drawn) (hexecutions : db'.executions = updateWhere p f db.executions)
      (hreservations : db'.reservations = releasedBy p f db) : AccountStep P db db'

/-- What the statements of a transaction do to the accounts. -/
abbrev Accounts (P : Platform) (db db' : Db) : Prop :=
  Relation.ReflTransGen (AccountStep P) db db'

theorem AccountStep.budgets (h : AccountStep P db db') : db'.budgets = db.budgets := by
  cases h with
  | keep h => exact h.budgets
  | admits hbudgets => exact hbudgets
  | close _ _ hbudgets => exact hbudgets

theorem Accounts.budgets (h : Accounts P db db') : db'.budgets = db.budgets := by
  induction h with
  | refl => rfl
  | tail _ hstep ih => exact hstep.budgets.trans ih

theorem SameAccounts.accounts (h : SameAccounts db db') : Accounts P db db' :=
  .single (.keep h)

theorem Aside.accounts (h : Aside P db db') : Accounts P db db' :=
  (SameAccounts.of_scheduling h.scheduling h.drawn).accounts

/-! ## Statements -/

theorem updateAttempts_accounts {p : ExecutionAttempt → Bool}
    {f : ExecutionAttempt → ExecutionAttempt} (h : updateAttempts p f db = .ok db') :
    SameAccounts db db' := by
  obtain ⟨deliveries, -, rfl, -⟩ := updateAttempts_eq_ok.1 h
  exact ⟨rfl, rfl, rfl, rfl, le_rfl⟩

theorem updateDeliveries_accounts {p : Delivery → Bool} {f : Delivery → Delivery}
    (h : updateDeliveries p f db = .ok db') : SameAccounts db db' := by
  obtain ⟨rfl, -⟩ := updateDeliveries_eq_ok.1 h
  exact ⟨rfl, rfl, rfl, rfl, le_rfl⟩

theorem insertNextAttempt_accounts {executionId : Uuid} {attemptNumber : ℕ} {startedAt : Time}
    (h : insertNextAttempt P executionId attemptNumber startedAt db = .ok db') :
    SameAccounts db db' := by
  unfold insertNextAttempt at h
  obtain ⟨attempts, -, h⟩ := Except.bind_eq_ok.1 h
  obtain rfl := Except.ok.inj h
  exact ⟨rfl, rfl, rfl, rfl, Nat.le_succ _⟩

/-- An update that closes executions. -/
theorem updateExecutions_accounts {p : Execution → Bool} {f : Execution → Execution}
    (h : updateExecutions p f db = .ok db') (hf : Execution.Moves f)
    (hclosed : ∀ e, (f e).status.terminal) : AccountStep P db db' := by
  obtain ⟨rfl, -⟩ := updateExecutions_eq_ok.1 h
  exact .close hf hclosed rfl rfl le_rfl rfl rfl

/-! ## Transactions -/

section

variable {now : Time} {placed : GroupKey → Prop}

theorem heartbeat_accounts {leaseDurationMs : Time} {input : AttemptIdentityInput}
    {reply : HeartbeatReply} (h : heartbeat now leaseDurationMs input db = .ok (reply, db')) :
    Accounts P db db' := by
  unfold heartbeat at h
  obtain ⟨attempt, -, h⟩ := Except.bind_eq_ok.1 h
  obtain ⟨row, -, h⟩ := Except.bind_eq_ok.1 h
  obtain ⟨db₁, hupdate, h⟩ := Except.bind_eq_ok.1 h
  obtain ⟨-, rfl⟩ := Prod.mk.inj (Except.ok.inj h)
  exact (updateAttempts_accounts hupdate).accounts

theorem recoverExpired_accounts {attemptId : Uuid} {recovered : RecoveredAttempt}
    (h : recoverExpired P now attemptId db = .ok (recovered, db')) : Accounts P db db' := by
  unfold recoverExpired at h
  split at h
  · obtain ⟨-, rfl⟩ := Prod.mk.inj (Except.ok.inj h)
    exact .refl
  obtain ⟨execution, -, h⟩ := Except.bind_eq_ok.1 h
  obtain ⟨region, -, h⟩ := Except.bind_eq_ok.1 h
  unfold recoverAttempt at h
  obtain ⟨db₁, h₁, h⟩ := Except.bind_eq_ok.1 h
  have hclose := (updateAttempts_accounts h₁).accounts (P := P)
  dsimp only at h
  split at h
  · obtain ⟨db₂, h₂, h⟩ := Except.bind_eq_ok.1 h
    obtain ⟨db₃, h₃, h⟩ := Except.bind_eq_ok.1 h
    obtain ⟨-, rfl⟩ := Prod.mk.inj (Except.ok.inj h)
    exact hclose.tail (.keep ((insertNextAttempt_accounts h₂).trans (updateDeliveries_accounts h₃)))
  · split at h
    · obtain ⟨db₂, h₂, h⟩ := Except.bind_eq_ok.1 h
      obtain ⟨db₃, h₃, h⟩ := Except.bind_eq_ok.1 h
      obtain ⟨-, rfl⟩ := Prod.mk.inj (Except.ok.inj h)
      exact (hclose.tail (updateExecutions_accounts h₂
        ⟨fun _ => rfl, fun _ => rfl, fun _ _ => rfl, fun _ => rfl, fun _ => rfl⟩
        fun _ => rfl)).tail (.keep (updateDeliveries_accounts h₃))
    · obtain ⟨-, rfl⟩ := Prod.mk.inj (Except.ok.inj h)
      exact hclose

theorem settleCancelling_accounts {regionId : Uuid} (h : settleCancelling now regionId db = .ok db') :
    Accounts P db db' := by
  unfold settleCancelling at h
  split at h
  · obtain rfl := Except.ok.inj h
    exact .refl
  obtain ⟨db₁, h₁, h⟩ := Except.bind_eq_ok.1 h
  obtain ⟨db₂, h₂, h⟩ := Except.bind_eq_ok.1 h
  obtain ⟨db₃, h₃, h⟩ := Except.bind_eq_ok.1 h
  obtain ⟨regions, h₄, h⟩ := Except.bind_eq_ok.1 h
  obtain rfl := Except.ok.inj h
  obtain ⟨rfl, -⟩ := update_eq_ok.1 (sql_eq_ok.1 h₄)
  have hrows : Accounts P db db₃ := ((updateAttempts_accounts h₁).accounts.tail
    (updateExecutions_accounts h₂
      ⟨fun _ => rfl, fun _ => rfl, fun _ _ => rfl, fun _ => rfl, fun _ => rfl⟩
      fun _ => rfl)).tail (.keep (updateDeliveries_accounts h₃))
  refine hrows.tail (.keep (SameAccounts.of_regions rfl ?_))
  exact fun _ => rfl

theorem requestCancellation_accounts (regionId : Uuid) (epoch : ℕ) (db : Db) :
    Accounts P db (requestCancellation regionId epoch db) := by
  refine (SameAccounts.of_regions rfl ?_).accounts
  exact fun _ => rfl

theorem cancelRun_accounts {context : OperatorContext} {runId : Uuid}
    {input : RunCancellationRequest} {receipt : CancellationReceipt}
    (h : cancelRun P now context runId input db = .ok (receipt, db')) : Accounts P db db' := by
  unfold cancelRun at h
  obtain ⟨_, -, h⟩ := Except.bind_eq_ok.1 h
  obtain ⟨_, -, h⟩ := Except.bind_eq_ok.1 h
  obtain ⟨reason, -, h⟩ := Except.bind_eq_ok.1 h
  dsimp only at h
  split at h
  · simp at h
  obtain ⟨_, -, h⟩ := Except.bind_eq_ok.1 h
  split at h
  · obtain ⟨_, -, h⟩ := Except.bind_eq_ok.1 h
    obtain ⟨-, rfl⟩ := Prod.mk.inj (Except.ok.inj h)
    exact .refl
  obtain ⟨_, -, h⟩ := Except.bind_eq_ok.1 h
  obtain ⟨commands, -, h⟩ := Except.bind_eq_ok.1 h
  obtain ⟨⟨event, db₁⟩, hevent, h⟩ := Except.bind_eq_ok.1 h
  obtain ⟨db₂, hcancel, h⟩ := Except.bind_eq_ok.1 h
  obtain ⟨-, rfl⟩ := Prod.mk.inj (Except.ok.inj h)
  obtain ⟨n, payload, -, -, -, streams, rfl⟩ := insertEvent_eq_ok hevent
  unfold cancelRows at hcancel
  obtain ⟨db₃, h₃, hcancel⟩ := Except.bind_eq_ok.1 hcancel
  obtain ⟨db₄, h₄, h₅⟩ := Except.bind_eq_ok.1 hcancel
  have hattempts : SameAccounts db db₃ :=
    (updateAttempts_accounts h₃).after ⟨rfl, rfl, rfl, rfl, Nat.le_add_right db.drawn 2⟩
  exact (hattempts.accounts.tail (updateExecutions_accounts h₄
    ⟨fun _ => rfl, fun _ => rfl, fun _ _ => rfl, fun _ => rfl, fun _ => rfl⟩
    fun _ => rfl)).tail (.keep (updateDeliveries_accounts h₅))

/-- The end of an attempt whose result is committed. -/
theorem closeCompleted_accounts {input : ProposedExecutionResult} {deliveries : List Delivery}
    (h : closeCompleted now input deliveries db = .ok db') : Accounts P db db' := by
  unfold closeCompleted at h
  obtain ⟨db₁, h₁, h⟩ := Except.bind_eq_ok.1 h
  obtain ⟨db₂, h₂, h₃⟩ := Except.bind_eq_ok.1 h
  exact ((updateAttempts_accounts h₁).accounts.tail (updateExecutions_accounts h₂
    ⟨fun _ => rfl, fun _ => rfl, fun _ _ => rfl, fun _ => rfl, fun _ => rfl⟩
    fun _ => rfl)).tail (.keep (updateDeliveries_accounts h₃))

theorem failOrRetry_accounts {input : ProposedExecutionResult} {execution : Execution}
    {attempt : ExecutionAttempt} {deliveries : List Delivery} {disposition : CommitDisposition}
    (h : failOrRetry P now input execution attempt deliveries db = .ok (disposition, db')) :
    Accounts P db db' := by
  unfold failOrRetry at h
  obtain ⟨db₁, h₁, h⟩ := Except.bind_eq_ok.1 h
  have hclose := (updateAttempts_accounts h₁).accounts (P := P)
  split at h
  · obtain ⟨db₂, h₂, h⟩ := Except.bind_eq_ok.1 h
    obtain ⟨db₃, h₃, h⟩ := Except.bind_eq_ok.1 h
    obtain ⟨-, rfl⟩ := Prod.mk.inj (Except.ok.inj h)
    exact hclose.tail (.keep ((insertNextAttempt_accounts h₂).trans (updateDeliveries_accounts h₃)))
  · obtain ⟨db₂, h₂, h⟩ := Except.bind_eq_ok.1 h
    obtain ⟨db₃, h₃, h⟩ := Except.bind_eq_ok.1 h
    obtain ⟨-, rfl⟩ := Prod.mk.inj (Except.ok.inj h)
    exact (hclose.tail (updateExecutions_accounts h₂
      ⟨fun _ => rfl, fun _ => rfl, fun _ _ => rfl, fun _ => rfl, fun _ => rfl⟩
      fun _ => rfl)).tail (.keep (updateDeliveries_accounts h₃))

theorem Commits.accounts {env : CommitEnv} {input : ProposedExecutionResult}
    {submissionDigest : Digest} {disposition : CommitDisposition} {l : Locked} {db₁ db₂ : Db}
    (hb : Backed db) (h : Commits P env input submissionDigest disposition l db db₁ db₂ db') :
    Accounts P db db' := by
  obtain ⟨w, dbw, hwrote⟩ := h.writes hb
  have hsched := hwrote.writes.scheduling
  have hrecords := SameAccounts.of_scheduling h.records.scheduling h.records.drawn
  have hwrites : SameAccounts db₁ dbw :=
    ⟨by rw [hsched], by rw [hsched], by rw [hsched], by rw [hsched], hwrote.writes.drawn⟩
  have hends : Accounts P dbw db₂ := by
    rcases hwrote.ends with ⟨-, hclose⟩ | ⟨-, hfail⟩
    · exact closeCompleted_accounts hclose
    · exact failOrRetry_accounts hfail
  refine ((hrecords.trans hwrites).accounts.trans hends).tail (.keep ?_)
  rw [markCommitted_eq_ok h.mark]
  exact ⟨rfl, rfl, rfl, rfl, le_rfl⟩

/-! ## Polls -/

theorem deferGroup_accounts {group : GroupKey} (h : deferGroup now group db = .ok db') :
    SameAccounts db db' :=
  updateDeliveries_accounts h

/-- The statements of a lease after its admission. -/
theorem leaseAttempt_accounts {executionId : Uuid} {owner : String} {expiresAt : Time}
    {result : Option ExecutionAttempt}
    (h : leaseAttempt P now executionId owner expiresAt db = .ok (result, db')) :
    SameAccounts db db' := by
  rcases leaseAttempt_eq_ok h with
    ⟨a, -, -, -, -, hupdate⟩ | ⟨-, rfl, -⟩ | ⟨-, a, -, -, -, -, -, -, -, rfl⟩
  · have hdraw : SameAccounts db db.draw := ⟨rfl, rfl, rfl, rfl, Nat.le_succ _⟩
    exact hdraw.trans (updateAttempts_accounts hupdate)
  · exact ⟨rfl, rfl, rfl, rfl, le_rfl⟩
  · exact ⟨rfl, rfl, rfl, rfl, Nat.le_add_right db.drawn 2⟩

/-- What a poll that leases an execution, or is refused, does to the accounts. The execution is
there, or it has just been created. -/
theorem leaseExecution_accounts {owner : String} {expiresAt : Time} {group : GroupKey}
    {selected : List Delivery} {e : Execution} {created : Bool} {before : Db}
    {leased : Option LeasedExecutionAttempt} {new : List Execution}
    (h : leaseExecution P now owner expiresAt group selected e created db = .ok (leased, db'))
    (hregion : group.regionId = e.regionId) (hrunning : e.status = .running)
    (hdb : db = { before with executions := before.executions ++ new, drawn := db.drawn })
    (hdrawn : before.drawn ≤ db.drawn)
    (hnew : created = false ∧ new = [] ∧ e ∈ before.executions ∨
      created = true ∧ new = [e] ∧ ∀ f ∈ before.executions, f.id ≠ e.id) :
    Accounts P before db' := by
  unfold leaseExecution at h
  obtain ⟨⟨admission, db₁⟩, hreserve, h⟩ := Except.bind_eq_ok.1 h
  obtain ⟨reservations, n, rfl, hn, hcases⟩ := reserveInTransaction_eq_ok hreserve
  have hregions : db.regions = before.regions := by rw [hdb]
  have hbudgets : db.budgets = before.budgets := by rw [hdb]
  have hreservations : db.reservations = before.reservations := by rw [hdb]
  have hexecutions : db.executions = before.executions ++ new := by rw [hdb]
  dsimp only at h
  split at h
  · rename_i hrefused
    obtain ⟨db₂, hdefer, h⟩ := Except.bind_eq_ok.1 h
    obtain ⟨-, rfl⟩ := Prod.mk.inj (Except.ok.inj h)
    rcases hcases with ⟨-, rfl⟩ | ⟨rfl, -⟩
    · refine ((deferGroup_accounts hdefer).after
        ⟨hbudgets, hreservations, ?_, by rw [hregions], hdrawn.trans hn⟩).accounts
      rcases hnew with ⟨rfl, rfl, -⟩ | ⟨rfl, rfl, hfresh⟩
      · simpa using hexecutions
      · simp only [if_true, hexecutions, List.filter_append]
        rw [List.filter_eq_self.2 fun f hf => by simpa using hfresh f hf]
        simp
    · simp [executionLeaseMayProceed] at hrefused
  · rename_i hproceeds
    rcases hcases with ⟨hne, -⟩ | ⟨rfl, hadmits⟩
    · simp [executionLeaseMayProceed, hne] at hproceeds
    obtain ⟨db₂, hinputs, h⟩ := Except.bind_eq_ok.1 h
    obtain ⟨inputs, rfl, -, -⟩ := insertInputs_eq_ok hinputs
    obtain ⟨⟨result, db₃⟩, hattempt, h⟩ := Except.bind_eq_ok.1 h
    have hadmitted : Accounts P before { db with reservations, drawn := n } := by
      have hcreated : new = [] ∧ e ∈ before.executions ∨
          new = [e] ∧ ∀ f ∈ before.executions, f.id ≠ e.id := by
        rcases hnew with ⟨-, hnew⟩ | ⟨-, hnew⟩
        · exact Or.inl hnew
        · exact Or.inr hnew
      refine .single (.admits hbudgets (by rw [hregions]) (hdrawn.trans hn) hexecutions hcreated
        hrunning ?_)
      rw [hregion] at hadmits
      exact hadmits.congr hbudgets.symm hreservations.symm hregions.symm hdrawn rfl le_rfl
    have hattempts : SameAccounts { db with reservations, drawn := n } db₃ :=
      (leaseAttempt_accounts hattempt).after ⟨rfl, rfl, rfl, rfl, Nat.le_add_right n _⟩
    cases result with
    | none =>
      obtain ⟨db₄, hdefer, h⟩ := Except.bind_eq_ok.1 h
      obtain ⟨-, rfl⟩ := Prod.mk.inj (Except.ok.inj h)
      exact hadmitted.tail (.keep (hattempts.trans (deferGroup_accounts hdefer)))
    | some attempt =>
      obtain ⟨db₄, hlease, h⟩ := Except.bind_eq_ok.1 h
      obtain ⟨lease, -, h⟩ := Except.bind_eq_ok.1 h
      obtain ⟨-, rfl⟩ := Prod.mk.inj (Except.ok.inj h)
      exact hadmitted.tail (.keep (hattempts.trans (updateDeliveries_accounts hlease)))

/-- What a poll for an execution that is there does to the accounts. -/
theorem leaseExecution_existing_accounts {owner : String} {expiresAt : Time} {group : GroupKey}
    {selected : List Delivery} {e : Execution} {leased : Option LeasedExecutionAttempt}
    (h : leaseExecution P now owner expiresAt group selected e false db = .ok (leased, db'))
    (hregion : group.regionId = e.regionId) (hrunning : e.status = .running)
    (he : e ∈ db.executions) : Accounts P db db' := by
  have hdb : db = { db with executions := db.executions ++ [], drawn := db.drawn } := by simp
  exact leaseExecution_accounts h hregion hrunning hdb le_rfl (Or.inl ⟨rfl, rfl, he⟩)

/-- An execution that a poll creates has an id of its own. -/
theorem ensureExecution_fresh {group : GroupKey} {region : Region} {selected : List Delivery}
    {e : Execution} (h : ensureExecution P group region selected db = .ok (some (e, true), db')) :
    ∀ f ∈ db.executions, f.id ≠ e.id := by
  unfold ensureExecution at h
  dsimp only at h
  split at h
  · split at h
    · simp [pure, Except.pure] at h
    · simp [pure, Except.pure] at h
  · obtain ⟨trigger, -, h⟩ := Except.bind_eq_ok.1 h
    obtain ⟨executions, hinsert, h⟩ := Except.bind_eq_ok.1 h
    obtain ⟨hsome, -⟩ := Prod.mk.inj (Except.ok.inj h)
    obtain ⟨rfl, -⟩ := Prod.mk.inj (Option.some.inj hsome)
    obtain ⟨-, -, hunique⟩ := insert_eq_ok.1 (sql_eq_ok.1 hinsert)
    intro f hf hid
    have := hunique _ (List.mem_cons_self) f hf
    simp [hid] at this

theorem tryCandidate_accounts {owner : String} {expiresAt : Time} {acquired : GroupKey → Bool}
    {candidate : Delivery} {leased : Option LeasedExecutionAttempt}
    (h : tryCandidate P now owner expiresAt acquired candidate db = .ok (leased, db')) :
    Accounts P db db' := by
  have hdefers : ∀ {db₁ : Db} {group : GroupKey}, deferGroup now group db = .ok db₁ →
      Accounts P db db₁ := fun hdefer => (deferGroup_accounts hdefer).accounts
  unfold tryCandidate at h
  dsimp only at h
  split at h
  · obtain ⟨-, rfl⟩ := Prod.mk.inj (Except.ok.inj h)
    exact .refl
  obtain ⟨region, hregion, h⟩ := Except.bind_eq_ok.1 h
  split at h
  · obtain ⟨db₁, hdefer, h⟩ := Except.bind_eq_ok.1 h
    obtain ⟨-, rfl⟩ := Prod.mk.inj (Except.ok.inj h)
    exact hdefers hdefer
  obtain ⟨component, -, h⟩ := Except.bind_eq_ok.1 h
  obtain ⟨revision, -, h⟩ := Except.bind_eq_ok.1 h
  split at h
  · obtain ⟨db₁, hdefer, h⟩ := Except.bind_eq_ok.1 h
    obtain ⟨-, rfl⟩ := Prod.mk.inj (Except.ok.inj h)
    exact hdefers hdefer
  obtain ⟨⟨result, db₁⟩, hensure, hrest⟩ := Except.bind_eq_ok.1 h
  rcases ensureExecution_eq_ok hensure with
    ⟨rfl, rfl⟩ | ⟨e, he, rfl, rfl, hrunning, hexec⟩ | ⟨e, rfl, rfl, he⟩
  · obtain ⟨db₂, hdefer, hrest⟩ := Except.bind_eq_ok.1 hrest
    obtain ⟨-, rfl⟩ := Prod.mk.inj (Except.ok.inj hrest)
    exact hdefers hdefer
  · simp only [isExecutionOf, Bool.and_eq_true, decide_eq_true_eq] at hexec
    exact leaseExecution_existing_accounts hrest hexec.1.1.1.1.symm hrunning he
  · have hgroup : candidate.toGroupKey.regionId = e.regionId :=
      (congrArg GroupKey.regionId (he.group (.other ""))).symm
    exact leaseExecution_accounts hrest hgroup he.status rfl (Nat.le_succ _)
      (Or.inr ⟨rfl, rfl, ensureExecution_fresh hensure⟩)

theorem leaseNextAttempt_accounts {options : LeaseNextAttemptOptions} {acquired : GroupKey → Bool}
    {leased : Option LeasedExecutionAttempt}
    (h : leaseNextAttempt P now options acquired db = .ok (leased, db')) : Accounts P db db' := by
  have htry : ∀ {owner : String} {expiresAt : Time} (cs : List Delivery) (db : Db),
      tryCandidates P now owner expiresAt acquired cs db = .ok (leased, db') → Accounts P db db' := by
    intro owner expiresAt cs
    induction cs with
    | nil =>
      intro db h
      obtain ⟨-, rfl⟩ := Prod.mk.inj (Except.ok.inj h)
      exact .refl
    | cons c cs ih =>
      intro db h
      obtain ⟨⟨result, db₁⟩, hcandidate, h⟩ := Except.bind_eq_ok.1 h
      have hfirst := tryCandidate_accounts hcandidate
      cases result with
      | none => exact hfirst.trans (ih _ h)
      | some l =>
        obtain ⟨-, rfl⟩ := Prod.mk.inj (Except.ok.inj h)
        exact hfirst
  unfold leaseNextAttempt at h
  obtain ⟨⟨⟩, -, h⟩ := Except.bind_eq_ok.1 h
  split at h
  · obtain ⟨-, rfl⟩ := Prod.mk.inj (Except.ok.inj h)
    exact .refl
  · exact htry _ _ h

end

/-! ## Steps of the runtime -/

/-- What a step of the runtime does to the accounts. -/
theorem Step.accounts {s t : State} {l : Label} (hs : Sound P s) (h : Step P s l t) :
    Accounts P s.db t.db := by
  cases h with
  | tick | envelope | uploadBlob | read | recoverSubmission | reject | crashProcess | crashPass
  | scanExpired => exact .refl
  | submit hop =>
    rcases submit_eq_ok hop with rfl | ⟨command, event, streams, new, n, hn, -, -, rfl, -, -⟩
    · exact .refl
    · exact SameAccounts.accounts ⟨rfl, rfl, rfl, rfl, le_trans (Nat.le_add_right _ 2) hn⟩
  | lease hop => exact leaseNextAttempt_accounts hop
  | heartbeat hduration hop => exact heartbeat_accounts hop
  | stage hop => exact (stage_still hop).toAside.accounts
  | recordUpload hblob hop => exact (recordUpload_still hop).toAside.accounts
  | handoff hop => exact (handoff_still hop).toAside.accounts
  | commit henv hmem hop =>
    rcases commitTx_eq_ok hop with ⟨-, rfl, -⟩ | ⟨locked, db₁, db₂, hc⟩
    · exact .refl
    · exact hc.accounts hs.backed
  | delete hmem => exact (deleteSubmission_still _ _ _).toAside.accounts
  | recoverExpired hmem hop => exact recoverExpired_accounts hop
  | releaseOrphans hmem hop => exact (updateDeliveries_accounts hop).accounts
  | settle hop => exact settleCancelling_accounts hop
  | cancelRun hop => exact cancelRun_accounts hop
  | requestCancellation => exact requestCancellation_accounts _ _ _
  | maintain hop => exact (maintain_aside hop).accounts

end FactoryFloor
