import FactoryFloor.Reservations

/-!
# The rows of reservations

`Reserved` says what the rows of `resource_reservations` are. A row is of an execution's lease or
of an action's network call, and of a budget of that resource. The rows of a request are those
with its key, so each is charged and released as one.

An update of the status keeps all this, and so does a request that is admitted, since its id is
drawn for it.
-/

namespace FactoryFloor

open Relational

variable {P : Platform} {db db' : Db}

/-- The resource that a key is charged to. -/
def ReservationKey.resourceType : ReservationKey → String
  | .concurrentExecutions _ => "concurrent_executions"
  | .networkCalls _ => "network_calls"
  | .other _ => ""

/-- The external action of a key. -/
def ReservationKey.action? : ReservationKey → Option Uuid
  | .networkCalls actionId => some actionId
  | _ => none

/-- The execution whose lease a key is about. -/
def ReservationKey.execution? : ReservationKey → Option Uuid
  | .concurrentExecutions executionId => some executionId
  | _ => none

/-- A row for the lease of an execution, or for a network call. -/
structure ResourceReservation.Regular (r : ResourceReservation) : Prop where
  key : (∃ e, r.idempotencyKey = .concurrentExecutions e) ∨ ∃ a, r.idempotencyKey = .networkCalls a
  execution : ∀ e, r.idempotencyKey = .concurrentExecutions e → r.executionId = some e
  action : r.externalActionId = r.idempotencyKey.action?
  quantity : r.quantity = 1

/-- The reservation as it was made. -/
def ResourceReservation.asReserved (r : ResourceReservation) : ResourceReservation :=
  { r with status := .reserved }

/-- What the rows of reservations are. -/
structure Reserved (P : Platform) (db : Db) : Prop where
  budgetIds : ∀ b ∈ db.budgets, ∀ n, db.drawn ≤ n → P.uuid n ≠ b.id
  requestIds : ∀ r ∈ db.reservations, ∀ n, db.drawn ≤ n → P.uuid n ≠ r.requestId
  regular : ∀ r ∈ db.reservations, r.Regular
  request : ∀ r ∈ db.reservations, ∀ r' ∈ db.reservations,
    r.requestId = r'.requestId ↔ r.idempotencyKey = r'.idempotencyKey
  budget : ∀ r ∈ db.reservations, ∃ b ∈ db.budgets, b.id = r.budgetId ∧
    b.resourceType = r.idempotencyKey.resourceType
  keyed : Keyed (fun r => (r.budgetId, r.idempotencyKey)) db.reservations

namespace Reserved

theorem of_nil (hbudgets : ∀ b ∈ db.budgets, ∀ n, db.drawn ≤ n → P.uuid n ≠ b.id)
    (h : db.reservations = []) : Reserved P db := by
  refine ⟨hbudgets, ?_, ?_, ?_, ?_, ?_⟩ <;> simp [h, Keyed]

/-- The rows may change their status, and budgets may be added and retired. -/
theorem of_rows (h : Reserved P db)
    (hrows : db'.reservations.map ResourceReservation.asReserved =
      db.reservations.map ResourceReservation.asReserved)
    (hbudgets : ∀ b ∈ db.budgets, ∃ b' ∈ db'.budgets, b'.id = b.id ∧
      b'.resourceType = b.resourceType)
    (hbudgetIds : ∀ b ∈ db'.budgets, ∀ n, db'.drawn ≤ n → P.uuid n ≠ b.id)
    (hdrawn : db.drawn ≤ db'.drawn) : Reserved P db' := by
  have hrow : ∀ r' ∈ db'.reservations, ∃ r ∈ db.reservations, r.asReserved = r'.asReserved :=
    fun r' hr' => List.mem_map.1 (hrows ▸ List.mem_map_of_mem hr')
  have hfields : ∀ {r r' : ResourceReservation}, r.asReserved = r'.asReserved →
      r.requestId = r'.requestId ∧ r.budgetId = r'.budgetId ∧ r.executionId = r'.executionId ∧
        r.externalActionId = r'.externalActionId ∧ r.idempotencyKey = r'.idempotencyKey ∧
        r.quantity = r'.quantity := by
    intro r r' heq
    simp only [ResourceReservation.asReserved, ResourceReservation.mk.injEq] at heq
    exact ⟨heq.1, heq.2.1, heq.2.2.2.1, heq.2.2.2.2.2.1, heq.2.2.2.2.2.2.1, heq.2.2.2.2.2.2.2.1⟩
  refine ⟨hbudgetIds, fun r' hr' n hn => ?_, fun r' hr' => ?_, fun r' hr' s' hs' => ?_,
    fun r' hr' => ?_, ?_⟩
  · obtain ⟨r, hr, heq⟩ := hrow r' hr'
    rw [← (hfields heq).1]
    exact h.requestIds r hr n (hdrawn.trans hn)
  · obtain ⟨r, hr, heq⟩ := hrow r' hr'
    obtain ⟨-, -, hexec, haction, hkey, hquantity⟩ := hfields heq
    obtain ⟨hk, he, ha, hq⟩ := h.regular r hr
    exact ⟨hkey ▸ hk, hkey ▸ hexec ▸ he, by rw [← haction, ha, hkey], hquantity ▸ hq⟩
  · obtain ⟨r, hr, hreq⟩ := hrow r' hr'
    obtain ⟨s, hs, hseq⟩ := hrow s' hs'
    rw [← (hfields hreq).1, ← (hfields hseq).1, ← (hfields hreq).2.2.2.2.1,
      ← (hfields hseq).2.2.2.2.1]
    exact h.request r hr s hs
  · obtain ⟨r, hr, heq⟩ := hrow r' hr'
    obtain ⟨b, hb, hid, htype⟩ := h.budget r hr
    obtain ⟨b', hb', hid', htype'⟩ := hbudgets b hb
    rw [← (hfields heq).2.1, ← (hfields heq).2.2.2.2.1]
    exact ⟨b', hb', hid'.trans hid, htype'.trans htype⟩
  · have hkeys : ∀ rs : List ResourceReservation, rs.map (fun r => (r.budgetId, r.idempotencyKey)) =
        (rs.map ResourceReservation.asReserved).map fun r => (r.budgetId, r.idempotencyKey) :=
      fun rs => by simp [ResourceReservation.asReserved, Function.comp_def]
    have hkeyed := h.keyed
    unfold Keyed at hkeyed ⊢
    rwa [hkeys, hrows, ← hkeys]

/-- The rows and the budgets are the same. -/
theorem congr (h : Reserved P db) (hrows : db'.reservations = db.reservations)
    (hbudgets : db'.budgets = db.budgets) (hdrawn : db.drawn ≤ db'.drawn) : Reserved P db' :=
  h.of_rows (by rw [hrows]) (by rw [hbudgets]; exact fun b hb => ⟨b, hb, rfl, rfl⟩)
    (by rw [hbudgets]; exact fun b hb n hn => h.budgetIds b hb n (hdrawn.trans hn)) hdrawn

theorem mem_activeBudgets {regionId : Uuid} {resourceType : String} {b : ResourceBudget} :
    b ∈ db.activeBudgets regionId resourceType ↔ b ∈ db.budgets ∧
      b.scopeId ∈ db.ancestors regionId ∧ b.resourceType = resourceType ∧ b.retiredAt = none := by
  unfold Db.activeBudgets
  simp only [List.mem_flatMap, (List.perm_insertionSort _ _).mem_iff, List.mem_filter,
    Bool.and_eq_true, decide_eq_true_eq, Option.isNone_iff_eq_none]
  constructor
  · rintro ⟨id, hid, hb, ⟨rfl, htype⟩, hactive⟩
    exact ⟨hb, hid, htype, hactive⟩
  · rintro ⟨hb, hid, htype, hactive⟩
    exact ⟨_, hid, hb, ⟨rfl, htype⟩, hactive⟩

/-- A request that is admitted adds rows of its own. -/
theorem admits {input : ReserveResourceInput} (h : Reserved P db) (ha : Admits P input db db')
    (hregular : ∀ id b, (reservationOf id input b).Regular)
    (htype : input.resourceType = input.idempotencyKey.resourceType)
    (hbudgets : db'.budgets = db.budgets) (hdrawn : db.drawn ≤ db'.drawn) : Reserved P db' := by
  cases ha with
  | replayed hkey hrows => exact h.congr hrows hbudgets hdrawn
  | @reserved n hn hkey hroom hkeyed hrows =>
    have hmem : ∀ r ∈ db'.reservations, r ∈ db.reservations ∨ ∃ b ∈ db.activeBudgets input.regionId
        input.resourceType, reservationOf (P.uuid n) input b = r := by
      rw [hrows]
      simp
    have hnew : ∀ r ∈ db.reservations, ∀ b, (r.requestId ≠ (reservationOf (P.uuid n) input b).requestId)
        ∧ r.idempotencyKey ≠ (reservationOf (P.uuid n) input b).idempotencyKey := fun r hr b =>
      ⟨(h.requestIds r hr n hn.1).symm, hkey r hr⟩
    refine ⟨by rw [hbudgets]; exact fun b hb n hn => h.budgetIds b hb n (hdrawn.trans hn),
      fun r hr m hm => ?_, fun r hr => ?_, fun r hr s hs => ?_, fun r hr => ?_, ?_⟩
    · rcases hmem r hr with hr | ⟨b, -, rfl⟩
      · exact h.requestIds r hr m (hdrawn.trans hm)
      · exact fun heq => absurd (P.uuid_injective heq) (by omega)
    · rcases hmem r hr with hr | ⟨b, -, rfl⟩
      · exact h.regular r hr
      · exact hregular _ b
    · rcases hmem r hr with hr | ⟨b, -, rfl⟩ <;> rcases hmem s hs with hs | ⟨c, -, rfl⟩
      · exact h.request r hr s hs
      · simp [(hnew r hr c).1, (hnew r hr c).2]
      · simp [(hnew s hs b).1.symm, (hnew s hs b).2.symm]
      · simp [reservationOf]
    · rw [hbudgets]
      rcases hmem r hr with hr | ⟨b, hb, rfl⟩
      · exact h.budget r hr
      · obtain ⟨hb, -, hresource, -⟩ := mem_activeBudgets.1 hb
        exact ⟨b, hb, rfl, hresource.trans htype⟩
    · unfold Keyed
      rw [hrows, List.map_append, List.map_map, List.nodup_append]
      refine ⟨h.keyed, ?_, ?_⟩
      · refine (List.Nodup.of_map Prod.fst ?_)
        rw [List.map_map]
        exact hkeyed
      · rintro x hx y hy rfl
        obtain ⟨r, hr, rfl⟩ := List.mem_map.1 hx
        obtain ⟨b, -, heq⟩ := List.mem_map.1 hy
        exact (hnew r hr b).2 (congrArg Prod.snd heq).symm

/-- An update of executions changes the status of rows only. -/
theorem releasedBy_asReserved (p : Execution → Bool) (f : Execution → Execution) (db : Db) :
    (releasedBy p f db).map ResourceReservation.asReserved =
      db.reservations.map ResourceReservation.asReserved := by
  refine releasedBy_induction (I := fun rows => rows.map ResourceReservation.asReserved =
    db.reservations.map ResourceReservation.asReserved) rfl fun rows hrows e _ _ => ?_
  unfold releaseTerminalExecutionAdmission
  split
  · refine (map_updateWhere _ ?_ _).trans hrows
    exact fun _ => rfl
  · exact hrows

theorem regular_executionLease (e : Execution) (id : Uuid) (b : ResourceBudget) :
    (reservationOf id (executionLease e) b).Regular :=
  ⟨Or.inl ⟨e.id, rfl⟩, fun _ h => congrArg some (ReservationKey.concurrentExecutions.inj h), rfl, rfl⟩

theorem step (h : Reserved P db) (hstep : AccountStep P db db') : Reserved P db' := by
  cases hstep with
  | keep hkeep => exact h.congr hkeep.reservations hkeep.budgets hkeep.drawn
  | admits hbudgets hregions hdrawn hexecutions hnew hrunning hadmits =>
    exact h.admits hadmits (regular_executionLease _) rfl hbudgets hdrawn
  | close hf hclosed hbudgets hregions hdrawn hexecutions hreservations =>
    refine h.of_rows (by rw [hreservations, releasedBy_asReserved]) ?_ ?_ hdrawn
    · rw [hbudgets]
      exact fun b hb => ⟨b, hb, rfl, rfl⟩
    · rw [hbudgets]
      exact fun b hb n hn => h.budgetIds b hb n (hdrawn.trans hn)

theorem accounts (h : Reserved P db) (haccounts : Accounts P db db') : Reserved P db' := by
  induction haccounts with
  | refl => exact h
  | tail _ hstep ih => exact ih.step hstep

end Reserved

end FactoryFloor
