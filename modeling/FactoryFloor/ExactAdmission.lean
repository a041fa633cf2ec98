import FactoryFloor.Concurrency

/-!
# Exact admission

A request should be admitted exactly when every active budget above its region has room for what is
consumed, reserved and requested (`Db.Allows`). The consumed quantity is a sum over a
`numeric(38,12)` column, and its text has fraction digits as soon as there is a row to sum. `BigInt`
does not parse it. So the law holds of a request (`ExactAdmission`) as long as no row of its
resource is charged under a budget that is looked at, and it fails from the first charge on.
-/

namespace FactoryFloor

open Relational Transition

variable {P : Platform} {db db' : Db} {s : Installation} {request : ReserveRequest}
  {input : ReserveResourceInput}

/-! ## The law -/

/-- A request passes the checks of `reserve`, and names rows that exist. -/
structure ReserveRequest.Valid (request : ReserveRequest) (db : Db) : Prop where
  quantity : 0 ≤ request.quantity
  key : request.idempotencyKey ≠ .other ""
  region : ∃ r ∈ db.regions, r.id = request.regionId
  execution : ∀ id ∈ request.executionId, ∃ e ∈ db.executions, e.id = id
  attempt : ∀ id ∈ request.attemptId, ∃ a ∈ db.attempts, a.id = id
  action : ∀ id ∈ request.externalActionId, ∃ a ∈ db.actions, a.id = id

/-- A key that no reservation has. -/
def Db.Fresh (db : Db) (key : ReservationKey) : Prop :=
  ∀ r ∈ db.reservations, r.idempotencyKey ≠ key

/-- What is consumed under a budget. -/
def Db.consumed (db : Db) (budget : ResourceBudget) (resourceType : String) : ℚ :=
  ((db.consumedRows budget resourceType).map (·.quantity)).foldr (· + ·) 0

/-- Every active budget above the region has room for the request. -/
def Db.Allows (db : Db) (request : ReserveRequest) : Prop :=
  ∀ b ∈ db.activeBudgets request.regionId request.resourceType,
    db.consumed b request.resourceType + db.reservedQuantity b.id + request.quantity ≤
      b.limitQuantity

/-- The consumed quantity is parsed, a fresh request is admitted exactly when it is allowed, and a
request that is not admitted adds no reservation. -/
structure ExactAdmission (P : Platform) (request : ReserveRequest) (db : Db) : Prop where
  parses : reserve P request db ≠
    .error (.thrown "Cannot convert the consumed quantity to a BigInt")
  admits : db.Fresh request.idempotencyKey →
    ((∃ db', reserve P request db = .ok (.admitted, db')) ↔ db.Allows request)
  refused : ∀ outcome db', reserve P request db = .ok (outcome, db') → outcome ≠ .admitted →
    db'.reservations = db.reservations

/-! ## What is looked at -/

/-- Whether a budget has room for a quantity, when nothing is consumed. -/
def Db.hasRoom (db : Db) (quantity : ℕ) (budget : ResourceBudget) : Bool :=
  db.reservedQuantity budget.id + quantity ≤ budget.limitQuantity

/-- Whether nothing is consumed under the budgets, up to the first one without room. -/
def Db.nothingConsumed (db : Db) (input : ReserveResourceInput) : List ResourceBudget → Bool
  | [] => true
  | budget :: budgets =>
    (db.consumedRows budget input.resourceType).isEmpty &&
      (!db.hasRoom input.quantity budget || nothingConsumed db input budgets)

/-- Whether a request is admitted exactly : its key is known, or nothing is consumed, and the
quantity is a `bigint` unless a budget has no room for it. -/
def admitsExactly (db : Db) (input : ReserveResourceInput) : Bool :=
  let budgets := db.activeBudgets input.regionId input.resourceType
  db.reservations.any (·.idempotencyKey = input.idempotencyKey) ||
    db.nothingConsumed input budgets &&
      (input.quantity < 2 ^ 63 || budgets.any (!db.hasRoom input.quantity ·))

/-- A budget is found to admit, to refuse, or not to parse. -/
theorem firstRefusal_cons {b : ResourceBudget} {budgets : List ResourceBudget}
    (hb : b.exhaustionOutcome ≠ .admitted) :
    db.firstRefusal input (b :: budgets) =
      if (db.consumedRows b input.resourceType).isEmpty then
        if db.hasRoom input.quantity b then db.firstRefusal input budgets
        else .ok (some b.exhaustionOutcome)
      else .error (.thrown "Cannot convert the consumed quantity to a BigInt") := by
  have hroom : calculateAdmission b.limitQuantity 0 (db.reservedQuantity b.id) input.quantity
      b.exhaustionOutcome = .admitted ↔ db.hasRoom input.quantity b = true := by
    rw [calculateAdmission_eq_admitted hb, Db.hasRoom, decide_eq_true_eq]
    omega
  rw [Db.firstRefusal, Db.consumedQuantity]
  by_cases hrows : (db.consumedRows b input.resourceType).isEmpty
  · simp only [hrows, if_true, bind, Except.bind, hroom]
    by_cases hfits : db.hasRoom input.quantity b
    · simp [hfits]
    · have hrefuses : calculateAdmission b.limitQuantity 0 (db.reservedQuantity b.id)
          input.quantity b.exhaustionOutcome = b.exhaustionOutcome := by
        rw [← hroom] at hfits
        unfold calculateAdmission at hfits ⊢
        split at hfits
        · simp at hfits
        · rename_i hlt
          rw [if_neg hlt]
      simp [hfits, hrefuses, pure, Except.pure]
  · simp [hrows, bind, Except.bind]

/-- What the loop over the budgets ends with. -/
theorem firstRefusal_cases (db : Db) (input : ReserveResourceInput) {budgets : List ResourceBudget}
    (hb : ∀ b ∈ budgets, b.exhaustionOutcome ≠ .admitted) :
    db.nothingConsumed input budgets = false ∧ db.firstRefusal input budgets =
        .error (.thrown "Cannot convert the consumed quantity to a BigInt") ∨
      db.nothingConsumed input budgets = true ∧
        (db.firstRefusal input budgets = .ok none ∧ (∀ b ∈ budgets,
            db.consumedRows b input.resourceType = [] ∧ db.hasRoom input.quantity b = true) ∨
          ∃ b ∈ budgets, db.firstRefusal input budgets = .ok (some b.exhaustionOutcome) ∧
            db.consumedRows b input.resourceType = [] ∧ db.hasRoom input.quantity b = false) := by
  induction budgets with
  | nil => exact Or.inr ⟨rfl, Or.inl ⟨rfl, by simp⟩⟩
  | cons b budgets ih =>
    obtain ⟨hb, hbudgets⟩ := List.forall_mem_cons.1 hb
    rw [firstRefusal_cons hb, Db.nothingConsumed]
    by_cases hrows : (db.consumedRows b input.resourceType).isEmpty
    · have hnil := List.isEmpty_iff.1 hrows
      cases hroom : db.hasRoom input.quantity b with
      | false =>
        refine Or.inr ⟨by simp [hnil], Or.inr ⟨b, List.mem_cons_self, ?_, hnil, hroom⟩⟩
        simp [hrows]
      | true =>
        simp only [hrows, if_true, Bool.not_true, Bool.false_or, Bool.true_and]
        rcases ih hbudgets with h | ⟨h, ⟨hnone, hall⟩ | ⟨c, hc, hsome, hrest⟩⟩
        · exact Or.inl h
        · exact Or.inr ⟨h, Or.inl ⟨hnone, List.forall_mem_cons.2 ⟨⟨hnil, hroom⟩, hall⟩⟩⟩
        · exact Or.inr ⟨h, Or.inr ⟨c, List.mem_cons_of_mem b hc, hsome, hrest⟩⟩
    · exact Or.inl ⟨by simp [hrows], by simp [hrows]⟩

/-- Nothing is consumed where no row is charged. -/
theorem consumed_of_nil {b : ResourceBudget} {resourceType : String}
    (h : db.consumedRows b resourceType = []) : db.consumed b resourceType = 0 := by
  simp [Db.consumed, h]

/-- A budget that is not charged has room as its reservations say. -/
theorem hasRoom_iff {b : ResourceBudget} (hquantity : 0 ≤ request.quantity)
    (h : db.consumedRows b request.resourceType = []) :
    db.hasRoom request.input.quantity b = true ↔
      db.consumed b request.resourceType + db.reservedQuantity b.id + request.quantity ≤
        b.limitQuantity := by
  have hq : ((request.quantity.toNat : ℕ) : ℤ) = request.quantity := Int.toNat_of_nonneg hquantity
  rw [consumed_of_nil h, zero_add, Db.hasRoom, decide_eq_true_eq, ← hq]
  exact_mod_cast Iff.rfl

/-! ## What is inserted -/

/-- A request with a fresh key has its rows inserted. -/
theorem insertReservations_ok (requestId : Uuid) (input : ReserveResourceInput)
    {budgets : List ResourceBudget} {reservations : List ResourceReservation} (hkeyed : Keyed (·.id) budgets)
    (hfresh : ∀ r ∈ reservations, r.idempotencyKey = input.idempotencyKey → ∀ b ∈ budgets,
      r.budgetId ≠ b.id) :
    ∃ rows, insertReservations requestId input reservations budgets = .ok rows := by
  induction budgets generalizing reservations with
  | nil => exact ⟨reservations, rfl⟩
  | cons b budgets ih =>
    obtain ⟨hb, hkeyed⟩ := List.nodup_cons.1 hkeyed
    have hinsert : Relational.insert (reservationOf requestId input b) reservations =
        .ok (reservations ++ [reservationOf requestId input b]) := by
      refine insert_ok rfl fun u hu r hr => ?_
      obtain rfl := List.mem_singleton.1 hu
      simp only [reservationOf, Bool.and_eq_true, not_and]
      exact fun hid hkey => hfresh r hr (of_decide_eq_true hkey).symm b List.mem_cons_self
        (of_decide_eq_true hid).symm
    have hrest : ∀ r ∈ reservations ++ [reservationOf requestId input b],
        r.idempotencyKey = input.idempotencyKey → ∀ c ∈ budgets, r.budgetId ≠ c.id := by
      intro r hr hkey c hc hid
      rcases List.mem_append.1 hr with hr | hr
      · exact hfresh r hr hkey c (List.mem_cons_of_mem b hc) hid
      · obtain rfl := List.mem_singleton.1 hr
        exact hb (List.mem_map.2 ⟨c, hc, hid.symm⟩)
    obtain ⟨rows, hrows⟩ := ih hkeyed hrest
    exact ⟨rows, Except.bind_eq_ok.2 ⟨_, hinsert, hrows⟩⟩

/-- The active budgets above a region are distinct. -/
theorem activeBudgets_keyed {regionId : Uuid} {resourceType : String}
    (hkeyed : Keyed (·.id) db.budgets) (hancestors : (db.ancestors regionId).Nodup) :
    Keyed (·.id) (db.activeBudgets regionId resourceType) := by
  refine List.Nodup.map_on (fun b hb c hc hid => ?_) ?_
  · exact hkeyed.eq (Reserved.mem_activeBudgets.1 hb).1 (Reserved.mem_activeBudgets.1 hc).1 hid
  · refine List.nodup_flatMap.2 ⟨fun id _ => ?_, hancestors.imp fun {x y} hne b hx hy => hne ?_⟩
    · exact ((List.perm_insertionSort _ _).nodup_iff).2
        ((List.Nodup.of_map _ hkeyed).sublist List.filter_sublist)
    · have hx := List.mem_filter.1 ((List.perm_insertionSort _ _).mem_iff.1 hx)
      have hy := List.mem_filter.1 ((List.perm_insertionSort _ _).mem_iff.1 hy)
      simp only [Bool.and_eq_true, decide_eq_true_eq] at hx hy
      exact hx.2.1.1.symm.trans hy.2.1.1

theorem castBigint_ok {quantity : ℕ} : castBigint quantity = .ok () ↔ quantity < 2 ^ 63 := by
  rw [castBigint, require_eq_ok, decide_eq_true_eq]

/-! ## Admission -/

theorem reserve_valid (hvalid : request.Valid db) :
    reserve P request db = reserveInTransaction P request.input db := by
  simp [reserve, require, hvalid.quantity, hvalid.key, bind, Except.bind]

/-- A request with a fresh key fails as the loop over the budgets does. -/
theorem reserveInTransaction_error {e : RuntimeError} (hfresh : db.Fresh input.idempotencyKey)
    (h : db.firstRefusal input (db.activeBudgets input.regionId input.resourceType) = .error e) :
    reserveInTransaction P input db = .error e := by
  rw [reserveInTransaction, if_neg (by simpa [Db.Fresh] using hfresh)]
  simp only [h]
  rfl

/-- It is refused as the loop says, if its quantity is a `bigint`. -/
theorem reserveInTransaction_some {outcome : AdmissionOutcome} (hfresh : db.Fresh input.idempotencyKey)
    (h : db.firstRefusal input (db.activeBudgets input.regionId input.resourceType) =
      .ok (some outcome)) :
    reserveInTransaction P input db =
      (castBigint input.quantity).bind fun _ => .ok (outcome, db.draw) := by
  rw [reserveInTransaction, if_neg (by simpa [Db.Fresh] using hfresh)]
  simp only [h]
  rfl

/-- It is admitted if no budget refuses, and its quantity is a `bigint`. -/
theorem reserveInTransaction_none (hfresh : db.Fresh input.idempotencyKey)
    (h : db.firstRefusal input (db.activeBudgets input.regionId input.resourceType) = .ok none)
    (hkeyed : Keyed (·.id) (db.activeBudgets input.regionId input.resourceType)) :
    ∃ reservations, reserveInTransaction P input db =
      (castBigint input.quantity).bind fun _ =>
        .ok (.admitted, { db.draw with reservations }) := by
  obtain ⟨rows, hrows⟩ := insertReservations_ok (db.nextUuid P) input hkeyed
    fun r hr hkey => absurd hkey (hfresh r hr)
  refine ⟨rows, ?_⟩
  rw [reserveInTransaction, if_neg (by simpa [Db.Fresh] using hfresh)]
  simp only [h, sql_eq_ok.2 hrows]
  rfl

/-- The cast of a quantity fails with an error of the database. -/
theorem castBigint_cases (quantity : ℕ) :
    quantity < 2 ^ 63 ∧ castBigint quantity = .ok () ∨
      ¬quantity < 2 ^ 63 ∧ castBigint quantity = .error (.sql (.outOfRange "bigint")) := by
  by_cases h : quantity < 2 ^ 63
  · exact Or.inl ⟨h, castBigint_ok.2 h⟩
  · exact Or.inr ⟨h, by rw [castBigint, decide_eq_false h]; rfl⟩

/-- A request that is not admitted adds no reservation. -/
theorem reserveInTransaction_refused {outcome : AdmissionOutcome}
    (h : reserveInTransaction P input db = .ok (outcome, db')) (hne : outcome ≠ .admitted) :
    db'.reservations = db.reservations := by
  obtain ⟨reservations, n, rfl, -, ⟨-, rfl⟩ | ⟨hadmitted, -⟩⟩ := reserveInTransaction_eq_ok h
  · rfl
  · exact absurd hadmitted hne

/-- An exact admission, of a request with a fresh key, from what it ends with. -/
theorem ExactAdmission.of_fresh (hvalid : request.Valid db)
    (hparses : reserveInTransaction P request.input db ≠
      .error (.thrown "Cannot convert the consumed quantity to a BigInt"))
    (hadmits : (∃ db', reserveInTransaction P request.input db = .ok (.admitted, db')) ↔
      db.Allows request) : ExactAdmission P request db := by
  refine ⟨?_, fun _ => ?_, fun outcome db' hop hne => ?_⟩
  · rwa [reserve_valid hvalid]
  · rwa [reserve_valid hvalid]
  · rw [reserve_valid hvalid] at hop
    exact reserveInTransaction_refused hop hne

theorem admission_exact (h : (installation P).Reachable s) (hvalid : request.Valid s.db) :
    ExactAdmission P request s.db ↔ admitsExactly s.db request.input := by
  have hwell := (reachable_installed h).sound.wellFormed
  have hbudgets : ∀ b ∈ s.db.activeBudgets request.input.regionId request.input.resourceType,
      b.exhaustionOutcome ≠ .admitted := fun b hb heq => by
    have := reachable_budgetRows h b (Reserved.mem_activeBudgets.1 hb).1
    simp [Row.violation, firstViolation, heq] at this
  obtain ⟨region, hregion, hid⟩ := hvalid.region
  have hancestors : (s.db.ancestors request.input.regionId).Nodup := by
    rw [show request.input.regionId = region.id from hid.symm]
    exact hwell.ancestors region hregion
  unfold admitsExactly
  by_cases hfresh : s.db.Fresh request.input.idempotencyKey
  swap
  · -- the key is known
    have hany : s.db.reservations.any (·.idempotencyKey = request.input.idempotencyKey) = true := by
      simpa [Db.Fresh] using hfresh
    have hop : reserveInTransaction P request.input s.db = .ok (.admitted, s.db) := by
      rw [reserveInTransaction, if_pos hany]
    refine iff_of_true ⟨?_, fun hf => absurd hf hfresh, fun outcome db' hop' hne => ?_⟩ (by simp [hany])
    · simp [reserve_valid hvalid, hop]
    · rw [reserve_valid hvalid] at hop'
      exact reserveInTransaction_refused hop' hne
  have hany : s.db.reservations.any (·.idempotencyKey = request.input.idempotencyKey) = false := by
    simpa [Db.Fresh] using hfresh
  rw [hany, Bool.false_or]
  rcases firstRefusal_cases s.db request.input hbudgets with
    ⟨hread, hrefusal⟩ | ⟨hread, ⟨hrefusal, hall⟩ | ⟨b, hb, hrefusal, hnil, hroom⟩⟩
  · -- the consumed quantity of a budget is not parsed
    refine iff_of_false (fun hexact => hexact.parses ?_) (by simp [hread])
    rw [reserve_valid hvalid, reserveInTransaction_error hfresh hrefusal]
  · -- no budget refuses
    have hallows : s.db.Allows request := fun b hb =>
      (hasRoom_iff hvalid.quantity (hall b hb).1).1 (hall b hb).2
    have hnone : (s.db.activeBudgets request.input.regionId request.input.resourceType).any
        (!s.db.hasRoom request.input.quantity ·) = false := by
      simpa using fun b hb => (hall b hb).2
    obtain ⟨rows, hop⟩ := reserveInTransaction_none (P := P) hfresh hrefusal
      (activeBudgets_keyed hwell.budgets hancestors)
    rw [hread, hnone]
    rcases castBigint_cases request.input.quantity with ⟨hq, hcast⟩ | ⟨hq, hcast⟩
    · rw [hcast] at hop
      refine iff_of_true (.of_fresh hvalid ?_ (iff_of_true ⟨_, hop⟩ hallows))
        (by rw [decide_eq_true hq]; rfl)
      rw [hop]
      simp [Except.bind]
    · rw [hcast] at hop
      refine iff_of_false (fun hexact => ?_) (by rw [decide_eq_false hq]; simp)
      obtain ⟨db', hadmitted⟩ := (hexact.admits hfresh).2 hallows
      rw [reserve_valid hvalid, hop] at hadmitted
      simp [Except.bind] at hadmitted
  · -- a budget refuses
    have hop := reserveInTransaction_some (P := P) hfresh hrefusal
    have hnot : ¬s.db.Allows request := fun hallows => by
      have := (hasRoom_iff hvalid.quantity hnil).2 (hallows b hb)
      simp [hroom] at this
    have hsome : (s.db.activeBudgets request.input.regionId request.input.resourceType).any
        (!s.db.hasRoom request.input.quantity ·) = true :=
      List.any_eq_true.2 ⟨b, hb, by simp [hroom]⟩
    refine iff_of_true (.of_fresh hvalid ?_ (iff_of_false ?_ hnot)) (by rw [hread, hsome]; simp)
    all_goals
      rw [hop]
      rcases castBigint_cases request.input.quantity with ⟨-, hcast⟩ | ⟨-, hcast⟩ <;> rw [hcast]
    · simp [Except.bind]
    · simp [Except.bind]
    · rintro ⟨db', hadmitted⟩
      exact hbudgets b hb (Prod.mk.inj (Except.ok.inj hadmitted)).1
    · simp [Except.bind]

/-- A request for three network calls of the shop. -/
def shopCall : ReserveRequest :=
  { regionId := 100, resourceType := "network_calls", quantity := 3, idempotencyKey := .other "call",
    executionId := none, attemptId := none, externalActionId := none }

theorem shopCalls_initial :
    InitialInstallation shopPlatform (shop [shopBudget 10 "network_calls" 5]) :=
  shop_initial (by simp [shopBudget]) (by decide) (by decide)

theorem shopCall_valid (h : s.db.regions.map (·.id) = [100]) : shopCall.Valid s.db := by
  refine ⟨by decide, by decide, List.mem_map.1 (h ▸ List.mem_singleton_self _), ?_, ?_, ?_⟩ <;>
    simp [shopCall]

/-- The budget of the shop has room for the request, and has not been charged. -/
theorem admission_exact_shop : ∃ s,
    performs shopPlatform (fun _ _ => true) (shop [shopBudget 10 "network_calls" 5]) shopStaged =
        some s ∧
      ExactAdmission shopPlatform shopCall s.db := by
  have hsome : (performs shopPlatform (fun _ _ => true) (shop [shopBudget 10 "network_calls" 5])
      shopStaged).map
        (fun s => (s.db.regions.map (·.id), admitsExactly s.db shopCall.input)) =
      some ([100], true) := rfl
  obtain ⟨s, hs, hpair⟩ := Option.map_eq_some_iff.1 hsome
  obtain ⟨hregions, hexact⟩ := Prod.mk.inj hpair
  have hinitial := shopCalls_initial
  exact ⟨s, hs, (admission_exact (performs_reachable hinitial hs).of_restrict
    (shopCall_valid hregions)).2 hexact⟩

/-- A network call has been charged, and the next request is not answered. -/
theorem admission_throws : ∃ s, (installation shopPlatform).Reachable s ∧
    shopCall.Valid s.db ∧ ¬ExactAdmission shopPlatform shopCall s.db := by
  have hsome : (performs shopPlatform (fun _ _ => true) (shop [shopBudget 10 "network_calls" 5])
      (shopFailed ++ [.settle 0])).map
        (fun s => (s.db.regions.map (·.id), (reserve shopPlatform shopCall s.db).map (·.1))) =
      some ([100], .error (.thrown "Cannot convert the consumed quantity to a BigInt")) := rfl
  obtain ⟨s, hs, hpair⟩ := Option.map_eq_some_iff.1 hsome
  obtain ⟨hregions, hop⟩ := Prod.mk.inj hpair
  have hinitial := shopCalls_initial
  refine ⟨s, (performs_reachable hinitial hs).of_restrict, shopCall_valid hregions, fun hexact =>
    hexact.parses ?_⟩
  cases hreserve : reserve shopPlatform shopCall s.db with
  | error e =>
    rw [hreserve] at hop
    exact congrArg Except.error (Except.error.inj hop)
  | ok result =>
    rw [hreserve] at hop
    simp [Except.map] at hop

end FactoryFloor
