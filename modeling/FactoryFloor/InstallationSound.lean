import FactoryFloor.Accounts
import FactoryFloor.Fencing
import FactoryFloor.Installation

/-!
# The invariant of an installation

The runtime stays sound while actions are dispatched and budgets are configured (`Installed`). A
transaction of these services `Serves` : it keeps the work up to draws, an action keeps how it was
proposed, and what it adds to the ledger is of an external action.

`InstallationStep.actions` says what a step does to the external actions. It appends proposed ones,
and it moves each of the others along `ActionMove`, which has one case for each statement that sets
a status.
-/

namespace FactoryFloor

open Relational Transition

variable {P : Platform} {db db' : Db}

/-! ## Services -/

/-- A write of the services beside the runtime. -/
structure Serves (db db' : Db) : Prop where
  catalog : db'.toCatalog = db.toCatalog
  work : db'.work = { db.work with drawn := db'.drawn }
  drawn : db.drawn ≤ db'.drawn
  artifacts : db'.toArtifactTables = db.toArtifactTables
  submissions : db'.submissions = db.submissions
  outputs : db'.outputs = db.outputs
  events : db'.events = db.events
  actions : db'.actions.map ExternalAction.asProposed = db.actions.map ExternalAction.asProposed
  ledger : ∃ new, db'.ledger = db.ledger ++ new ∧ ∀ l ∈ new, l.externalActionId.isSome

namespace Serves

theorem refl : Serves db db :=
  ⟨rfl, rfl, le_rfl, rfl, rfl, rfl, rfl, rfl, [], by simp, by simp⟩

/-- A write that moves actions. -/
theorem of_actions {actions : List ExternalAction}
    (h : actions.map ExternalAction.asProposed = db.actions.map ExternalAction.asProposed) :
    Serves db { db with actions } :=
  ⟨rfl, rfl, le_rfl, rfl, rfl, rfl, rfl, h, [], by simp, by simp⟩

theorem trans {db'' : Db} (h : Serves db db') (h' : Serves db' db'') : Serves db db'' := by
  obtain ⟨new, hnew, hsome⟩ := h.ledger
  obtain ⟨new', hnew', hsome'⟩ := h'.ledger
  refine ⟨h'.catalog.trans h.catalog, by rw [h'.work, h.work], h.drawn.trans h'.drawn,
    h'.artifacts.trans h.artifacts, h'.submissions.trans h.submissions,
    h'.outputs.trans h.outputs, h'.events.trans h.events, h'.actions.trans h.actions,
    new ++ new', by rw [hnew', hnew, List.append_assoc], fun l hl => ?_⟩
  rcases List.mem_append.1 hl with hl | hl
  · exact hsome l hl
  · exact hsome' l hl

theorem regions (h : Serves db db') : db'.regions = db.regions :=
  congrArg Work.regions h.work

theorem actionsKeyed (h : Serves db db') (hk : Keyed (·.id) db.actions) :
    Keyed (·.id) db'.actions := by
  have hids : ∀ as : List ExternalAction,
      as.map (·.id) = (as.map ExternalAction.asProposed).map (·.id) := fun as => by
    simp [ExternalAction.asProposed, Function.comp_def]
  unfold Keyed at hk ⊢
  rwa [hids, h.actions, ← hids]

theorem backed (h : Serves db db') (hb : Backed db) : Backed db' := by
  have hcommitted : ∀ {a}, db.Committed a → db'.Committed a := fun hc => by
    rwa [Db.Committed, h.submissions]
  have hdeliveries : db'.deliveries = db.deliveries := congrArg Work.deliveries h.work
  refine ⟨by rw [h.artifacts]; exact hb.artifacts, by rw [h.submissions]; exact hb.submissions,
    fun d hd id hid => ?_, fun o ho => hcommitted (hb.outputs o (h.outputs ▸ ho)),
    fun e he a ha => hcommitted (hb.events e (h.events ▸ he) a ha), fun a ha => ?_,
    fun l hl a ha => ?_⟩
  · rw [h.events]
    exact hb.sourced d (hdeliveries ▸ hd) id hid
  · obtain ⟨a₀, ha₀, heq⟩ := List.mem_map.1 (h.actions ▸ List.mem_map_of_mem ha)
    have hid : a₀.attemptId = a.attemptId :=
      show a₀.asProposed.attemptId = a.asProposed.attemptId from congrArg _ heq
    exact hid ▸ hcommitted (hb.actions a₀ ha₀)
  · obtain ⟨new, hnew, hsome⟩ := h.ledger
    rw [hnew] at hl
    rcases List.mem_append.1 hl with hl | hl
    · exact hcommitted (hb.ledger l hl a ha)
    · simp only [ResourceLedgerEntry.isOf, Bool.and_eq_true, Option.isNone_iff_eq_none] at ha
      simpa [ha.2] using hsome l hl

/-- The runtime stays sound. -/
theorem sound {s : State} (h : Serves s.db db') (hs : Sound P s)
    (hbudgets : Keyed (·.id) db'.budgets) : Sound P { s with db := db' } := by
  have hkeys : db'.regions.map Region.key = s.db.regions.map Region.key := by rw [h.regions]
  have hplaced : db'.Placed = s.db.Placed := Db.placed_congr h.catalog hkeys
  have hattempts : db'.attempts = s.db.attempts := congrArg Work.attempts h.work
  refine ⟨?_, h.backed hs.backed, ?_, fun p hp => ?_⟩
  · change Work.Coherent P db'.Placed db'.work
    rw [hplaced, h.work]
    have hdraw : Work.Step P s.db.Placed (fun _ _ => True) (fun _ => True) s.db.work
        { s.db.work with drawn := db'.drawn } := .draw h.drawn
    exact hs.coherent.step hdraw
  · exact hs.wellFormed.congr h.catalog hbudgets hkeys
  · change p.now ≤ s.now ∧ ∀ a ∈ db'.attempts, _
    rw [hattempts]
    exact hs.passes p hp

end Serves

/-- A request for a reservation is a write of the services. -/
theorem reserveInTransaction_serves {input : ReserveResourceInput} {outcome : AdmissionOutcome}
    (h : reserveInTransaction P input db = .ok (outcome, db')) : Serves db db' := by
  obtain ⟨reservations, n, hn, rfl⟩ := reserveInTransaction_frame h
  exact ⟨rfl, rfl, hn, rfl, rfl, rfl, rfl, rfl, [], by simp, by simp⟩

/-! ## Reconciling -/

theorem mem_requestReservations {requestId : Uuid} {r : ResourceReservation} {b : ResourceBudget} :
    (r, b) ∈ requestReservations requestId db ↔
      r ∈ db.reservations ∧ r.requestId = requestId ∧ db.budgets.find? (·.id = r.budgetId) = some b := by
  unfold requestReservations
  rw [(List.perm_insertionSort _ _).mem_iff, List.mem_filterMap]
  constructor
  · rintro ⟨r', hr', hmap⟩
    obtain ⟨b', hb', heq⟩ := Option.map_eq_some_iff.1 hmap
    obtain ⟨rfl, rfl⟩ := Prod.mk.inj heq
    obtain ⟨hmem, hid⟩ := List.mem_filter.1 hr'
    exact ⟨hmem, by simpa using hid, hb'⟩
  · rintro ⟨hr, hid, hb⟩
    exact ⟨r, List.mem_filter.2 ⟨hr, by simpa using hid⟩, by simp [hb]⟩

/-- What settling a request does : nothing when it has no row, or it charges the ledger once and
settles the rows. -/
theorem reconcile_eq_ok {requestId : Uuid} {actualQuantity : ℕ} {settled : Bool}
    (h : reconcile requestId actualQuantity db = .ok (settled, db')) :
    requestReservations requestId db = [] ∧ db' = db ∨
      ∃ r b ledger, (r, b) ∈ requestReservations requestId db ∧
        (ledger = db.ledger ∧ (∃ l ∈ db.ledger, l.admissionRequestId = some requestId ∧
            l.resourceType = b.resourceType) ∨
          ledger = db.ledger ++ [chargeOf requestId actualQuantity r b] ∧
            ∀ l ∈ db.ledger, ¬(l.admissionRequestId = some requestId ∧
              l.resourceType = b.resourceType)) ∧
        db' = { db with ledger, drawn := db.drawn + 1,
                        reservations := updateWhere
                          (fun r => r.requestId = requestId && r.status = .reserved)
                          (fun r => { r with status := .reconciled }) db.reservations } := by
  unfold reconcile at h
  split at h
  · rename_i hnone
    obtain ⟨-, rfl⟩ := Prod.mk.inj (Except.ok.inj h)
    exact Or.inl ⟨hnone, rfl⟩
  · rename_i r b rest hcons
    obtain ⟨-, -, h⟩ := Except.bind_eq_ok.1 h
    obtain ⟨ledger, hledger, h⟩ := Except.bind_eq_ok.1 h
    obtain ⟨-, rfl⟩ := Prod.mk.inj (Except.ok.inj h)
    refine Or.inr ⟨r, b, ledger, by simp [hcons], ?_, rfl⟩
    rcases insertOrIgnore_eq_ok (sql_eq_ok.1 hledger) with ⟨rfl, l, hl, hsame⟩ | ⟨rfl, -, hnew⟩
    · simp only [Bool.and_eq_true] at hsame
      exact Or.inl ⟨rfl, l, hl, (of_decide_eq_true hsame.1.2).symm,
        (of_decide_eq_true hsame.2).symm⟩
    · refine Or.inr ⟨rfl, fun l hl hsame => hnew l hl ?_⟩
      simp [chargeOf, hsame.1, hsame.2]

/-- The rows of a network call that are settled are of the call's action. -/
theorem reconcileNetworkReservation_eq_ok (hr : Reserved P db) {actionId : Uuid} {settled : Bool}
    (h : reconcileNetworkReservation actionId db = .ok (settled, db')) :
    db' = db ∨ ∃ r ∈ db.reservations, r.idempotencyKey = .networkCalls actionId ∧
      reconcile r.requestId 1 db = .ok (settled, db') := by
  unfold reconcileNetworkReservation at h
  split at h
  · exact Or.inl (Prod.mk.inj (Except.ok.inj h)).2.symm
  · rename_i r hfind
    have hmem := List.mem_of_find?_eq_some hfind
    have hcond := List.find?_some hfind
    simp only [Bool.and_eq_true, decide_eq_true_eq] at hcond
    refine Or.inr ⟨r, hmem, ?_, h⟩
    have haction := (hr.regular r hmem).action
    rw [hcond.1] at haction
    rcases (hr.regular r hmem).key with ⟨e, he⟩ | ⟨a, ha⟩
    · simp [he, ReservationKey.action?] at haction
    · rw [ha] at haction ⊢
      rw [Option.some.inj haction]

theorem reconcileNetworkReservation_serves (hr : Reserved P db) {actionId : Uuid} {settled : Bool}
    (h : reconcileNetworkReservation actionId db = .ok (settled, db')) : Serves db db' := by
  rcases reconcileNetworkReservation_eq_ok hr h with rfl | ⟨r, hmem, hkey, h⟩
  · exact .refl
  rcases reconcile_eq_ok h with ⟨-, rfl⟩ | ⟨r', b, ledger, hrb, hledger, rfl⟩
  · exact .refl
  · refine ⟨rfl, rfl, Nat.le_succ _, rfl, rfl, rfl, rfl, rfl, ?_⟩
    rcases hledger with ⟨rfl, -⟩ | ⟨rfl, -⟩
    · exact ⟨[], by simp, by simp⟩
    · refine ⟨_, rfl, fun l hl => ?_⟩
      obtain rfl := List.mem_singleton.1 hl
      obtain ⟨hr', hid, -⟩ := mem_requestReservations.1 hrb
      have hkey' := (hr.request r' hr' r hmem).1 hid
      change r'.externalActionId.isSome
      rw [(hr.regular r' hr').action, hkey', hkey]
      rfl

/-- Settling changes the status of rows only. -/
theorem reconcile_reserved (hr : Reserved P db) {requestId : Uuid} {actualQuantity : ℕ}
    {settled : Bool} (h : reconcile requestId actualQuantity db = .ok (settled, db')) :
    Reserved P db' := by
  rcases reconcile_eq_ok h with ⟨-, rfl⟩ | ⟨r', b, ledger, -, -, rfl⟩
  · exact hr
  · refine hr.of_rows ?_ (fun b hb => ⟨b, hb, rfl, rfl⟩)
      (fun b hb n hn => hr.budgetIds b hb n (le_trans (Nat.le_succ _) hn)) (Nat.le_succ _)
    refine map_updateWhere _ ?_ _
    exact fun _ => rfl

/-! ## Configuring budgets -/

/-- What configuring the budgets of a region does : budgets are retired, and new ones of the region
are inserted. -/
structure Configures (P : Platform) (regionId : Uuid) (db db' : Db) : Prop where
  frame : db' = { db with budgets := db'.budgets, drawn := db'.drawn }
  drawn : db.drawn ≤ db'.drawn
  keyed : Keyed (·.id) db.budgets → Keyed (·.id) db'.budgets
  rows : (∀ b ∈ db.budgets, Row.violation b = none) → ∀ b ∈ db'.budgets, Row.violation b = none
  kept : ∀ b ∈ db.budgets, ∃ b' ∈ db'.budgets, b' = b ∨ ∃ t, b' = { b with retiredAt := some t }
  new : ∀ b' ∈ db'.budgets,
    (∃ b ∈ db.budgets, b' = b ∨ ∃ t, b' = { b with retiredAt := some t }) ∨
      b'.scopeId = regionId ∧ ∃ k, db.drawn ≤ k ∧ k < db'.drawn ∧ b'.id = P.uuid k

namespace Configures

variable {regionId : Uuid} {db'' : Db}

theorem refl : Configures P regionId db db :=
  ⟨rfl, le_rfl, id, id, fun b hb => ⟨b, hb, Or.inl rfl⟩, fun b hb => Or.inl ⟨b, hb, Or.inl rfl⟩⟩

theorem trans (h : Configures P regionId db db') (h' : Configures P regionId db' db'') :
    Configures P regionId db db'' := by
  refine ⟨by rw [h'.frame, h.frame], h.drawn.trans h'.drawn, fun hk => h'.keyed (h.keyed hk),
    fun hv => h'.rows (h.rows hv), fun b hb => ?_, fun b'' hb'' => ?_⟩
  · obtain ⟨b', hb', heq⟩ := h.kept b hb
    obtain ⟨b'', hb'', heq'⟩ := h'.kept b' hb'
    refine ⟨b'', hb'', ?_⟩
    rcases heq with rfl | ⟨t, rfl⟩ <;> rcases heq' with rfl | ⟨t', rfl⟩
    · exact Or.inl rfl
    · exact Or.inr ⟨t', rfl⟩
    · exact Or.inr ⟨t, rfl⟩
    · exact Or.inr ⟨t', rfl⟩
  · rcases h'.new b'' hb'' with ⟨b', hb', heq'⟩ | ⟨hscope, k, hk, hk', hid⟩
    · rcases h.new b' hb' with ⟨b, hb, heq⟩ | ⟨hscope, k, hk, hk', hid⟩
      · refine Or.inl ⟨b, hb, ?_⟩
        rcases heq with rfl | ⟨t, rfl⟩ <;> rcases heq' with rfl | ⟨t', rfl⟩
        · exact Or.inl rfl
        · exact Or.inr ⟨t', rfl⟩
        · exact Or.inr ⟨t, rfl⟩
        · exact Or.inr ⟨t', rfl⟩
      · refine Or.inr ⟨?_, k, hk, hk'.trans_le h'.drawn, ?_⟩ <;>
          rcases heq' with rfl | ⟨t', rfl⟩ <;> assumption
    · exact Or.inr ⟨hscope, k, h.drawn.trans hk, hk', hid⟩

theorem retire (now : Time) (p : ResourceBudget → Bool) (db : Db) :
    Configures P regionId db (retireBudgets now p db) := by
  refine ⟨rfl, le_rfl, fun hk => hk.updateWhere fun _ => rfl,
    fun hv => valid_updateWhere hv fun b hb _ => hv b hb, fun b hb => ?_, fun b' hb' => ?_⟩
  · refine ⟨_, mem_updateWhere.2 ⟨b, hb, rfl⟩, ?_⟩
    split
    · exact Or.inr ⟨now, rfl⟩
    · exact Or.inl rfl
  · obtain ⟨b, hb, rfl⟩ := mem_updateWhere.1 hb'
    refine Or.inl ⟨b, hb, ?_⟩
    split
    · exact Or.inr ⟨now, rfl⟩
    · exact Or.inl rfl

/-- The insertion of a budget of the region. -/
theorem insert {budget : ResourceBudget} {budgets : List ResourceBudget}
    (h : Relational.insert budget db.budgets = .ok budgets) (hscope : budget.scopeId = regionId)
    (hid : budget.id = P.uuid db.drawn) :
    Configures P regionId db { db.draw with budgets } := by
  obtain ⟨rfl, hrow, hunique⟩ := insert_eq_ok.1 h
  refine ⟨rfl, Nat.le_succ _, fun hk => hk.append fun b hb heq => ?_,
    fun hv => List.forall_mem_append.2 ⟨hv, List.forall_mem_singleton.2 hrow⟩, fun b hb => ⟨b, List.mem_append_left _ hb, Or.inl rfl⟩, fun b' hb' => ?_⟩
  · have := hunique _ List.mem_cons_self b hb
    simp [heq] at this
  · rcases List.mem_append.1 hb' with hb' | hb'
    · exact Or.inl ⟨b', hb', Or.inl rfl⟩
    · rw [List.mem_singleton.1 hb']
      exact Or.inr ⟨hscope, db.drawn, le_rfl, Nat.lt_succ_self _, hid⟩

end Configures

theorem configureLimit_configures {now : Time} {regionId : Uuid} {parentRegionId : Option Uuid}
    {existing : List ResourceBudget} {limit : NormalizedBudgetLimit}
    (h : configureLimit P now regionId parentRegionId existing db limit = .ok db') :
    Configures P regionId db db' := by
  unfold configureLimit at h
  obtain ⟨⟨⟩, -, h⟩ := Except.bind_eq_ok.1 h
  dsimp only at h
  split at h
  · obtain rfl := Except.ok.inj h
    exact .refl
  · obtain ⟨⟨⟩, -, h⟩ := Except.bind_eq_ok.1 h
    obtain ⟨budgets, hinsert, h⟩ := Except.bind_eq_ok.1 h
    obtain rfl := Except.ok.inj h
    exact (Configures.retire now _ db).trans (Configures.insert (sql_eq_ok.1 hinsert) rfl rfl)

theorem configureRegionBudgets_configures {now : Time} {regionId : Uuid}
    {parentRegionId : Option Uuid} {limits : List NormalizedBudgetLimit}
    (h : configureRegionBudgets P now regionId parentRegionId limits db = .ok db') :
    Configures P regionId db db' :=
  Except.foldlM_invariant (I := Configures P regionId db)
    (fun _ _ _ _ hd hstep => hd.trans (configureLimit_configures hstep))
    (Configures.retire now _ db) h

namespace Configures

variable {regionId : Uuid}

theorem serves (h : Configures P regionId db db') : Serves db db' := by
  rw [h.frame]
  exact ⟨rfl, rfl, h.drawn, rfl, rfl, rfl, rfl, rfl, [], by simp, by simp⟩

theorem reserved (h : Configures P regionId db db') (hr : Reserved P db) : Reserved P db' := by
  have hrows : db'.reservations = db.reservations := by rw [h.frame]
  refine hr.of_rows (by rw [hrows]) (fun b hb => ?_) (fun b' hb' n hn => ?_) h.drawn
  · obtain ⟨b', hb', rfl | ⟨t, rfl⟩⟩ := h.kept b hb
    · exact ⟨_, hb', rfl, rfl⟩
    · exact ⟨_, hb', rfl, rfl⟩
  · rcases h.new b' hb' with ⟨b, hb, rfl | ⟨t, rfl⟩⟩ | ⟨-, k, -, hk, hid⟩
    · exact hr.budgetIds _ hb n (h.drawn.trans hn)
    · exact hr.budgetIds _ hb n (h.drawn.trans hn)
    · rw [hid]
      exact fun heq => absurd (P.uuid_injective heq) (by omega)

end Configures

/-! ## What the runtime publishes -/

/-- What a step of the runtime adds to the external actions and the ledger. An action is proposed
by a commit that has authority. -/
structure Publishes (db db' : Db) : Prop where
  actions : ∃ new, db'.actions = db.actions ++ new ∧ ∀ a ∈ new, a.asProposed = a ∧
    ∃ env input locked, Authorized env input db locked ∧ a.attemptId = input.attemptId ∧
      a.executionId = input.executionId
  keyed : Keyed (·.id) db.actions → Keyed (·.id) db'.actions
  ledger : ∃ new, db'.ledger = db.ledger ++ new ∧ ∀ l ∈ new, l.admissionRequestId = none

theorem Publishes.of_eq (hactions : db'.actions = db.actions) (hledger : db'.ledger = db.ledger) :
    Publishes db db' :=
  ⟨⟨[], by simp [hactions], by simp⟩, by rw [hactions]; exact id, [], by simp [hledger], by simp⟩

theorem Publishes.of_publications (h : db'.toPublications = db.toPublications) : Publishes db db' :=
  .of_eq (congrArg Publications.actions h) (congrArg Publications.ledger h)

/-- The rows that usage writes to the ledger are of no admission request, and the actions are the
result's. -/
theorem Describes.admission {input : ProposedExecutionResult} {execution : Execution}
    {component : ComponentInstance} {correlationId : Text} {dbw : Db} {w : Written}
    (h : Describes P input execution component correlationId dbw w) :
    (∀ l ∈ w.ledger, l.admissionRequestId = none) ∧
      ∀ a ∈ w.actions, a.executionId = input.executionId := by
  constructor
  · intro l hl
    rw [h.ledger] at hl
    obtain ⟨unit, -, hunit⟩ := List.mem_filterMap.1 hl
    dsimp only at hunit
    split at hunit
    · split at hunit
      · simp at hunit
      · obtain rfl := Option.some.inj hunit
        rfl
    · simp at hunit
  · intro a ha
    by_cases hc : input.status = .completed
    · obtain ⟨rows, outputs, events, -, -, -, -, -, -, hactions⟩ := h.completed hc
      obtain ⟨_, -, haction⟩ := exists_of_forall₂ hactions ha
      exact haction.executionId
    · rw [h.failed hc] at ha
      simp [Written.ofLedger, Written.none] at ha

theorem Commits.publishes {env : CommitEnv} {input : ProposedExecutionResult}
    {submissionDigest : Digest} {disposition : CommitDisposition} {l : Locked} {db₁ db₂ : Db}
    (hw : Work.Coherent P db.Placed db.work) (hb : Backed db) (hf : WellFormed db)
    (h : Commits P env input submissionDigest disposition l db db₁ db₂ db') : Publishes db db' := by
  obtain ⟨w, dbw, hwrote, hends, -, -⟩ := h.ends hw hb (connectionsPlaced hw hf)
  obtain ⟨first, -, hdescribes⟩ := hwrote.describes
  obtain ⟨hledger, hexec⟩ := hdescribes.admission
  refine ⟨⟨w.actions, hends.actions, fun a ha => ?_⟩, hends.actionsKeyed,
    w.ledger, hends.ledger, hledger⟩
  obtain ⟨hid, hproposed⟩ := hdescribes.own.2.2.1 a ha
  exact ⟨hproposed, env, input, l, h.authorized, hid, hexec a ha⟩

/-- Only a commit adds actions and usage. -/
theorem Step.commits {s t : State} {l : Label} (hs : Sound P s) (h : Step P s l t)
    (hmoves : l.movesAction = false) :
    (t.db.actions = s.db.actions ∧ t.db.ledger = s.db.ledger) ∨
      ∃ env input submissionDigest disposition locked db₁ db₂,
        Commits P env input submissionDigest disposition locked s.db db₁ db₂ t.db := by
  have hw := hs.coherent
  have hpublications : t.db.toPublications = s.db.toPublications →
      t.db.actions = s.db.actions ∧ t.db.ledger = s.db.ledger := fun h =>
    ⟨congrArg Publications.actions h, congrArg Publications.ledger h⟩
  cases h with
  | tick | envelope | uploadBlob | read | recoverSubmission | reject | crashProcess | crashPass
  | scanExpired => exact Or.inl ⟨rfl, rfl⟩
  | submit hop =>
    rcases submit_eq_ok hop with rfl | ⟨command, event, streams, new, n, -, -, -, rfl, -, -⟩
    · exact Or.inl ⟨rfl, rfl⟩
    · exact Or.inl ⟨rfl, rfl⟩
  | lease hop =>
    have hschedules : Schedules P (fun _ _ => True) (fun _ => True) s.db _ :=
      leaseNextAttempt_schedules hw (fun _ _ => trivial) (fun _ _ _ _ _ => trivial) hop
    exact Or.inl (hpublications hschedules.publications)
  | heartbeat hduration hop =>
    have hschedules : Schedules P (fun _ _ => True) (fun _ => True) s.db _ :=
      heartbeat_schedules hw trivial hop
    exact Or.inl (hpublications hschedules.publications)
  | stage hop => exact Or.inl ⟨(stage_still hop).actions, (stage_still hop).quiet.ledger⟩
  | recordUpload hblob hop =>
    exact Or.inl ⟨(recordUpload_still hop).actions, (recordUpload_still hop).quiet.ledger⟩
  | handoff hop => exact Or.inl ⟨(handoff_still hop).actions, (handoff_still hop).quiet.ledger⟩
  | commit henv hmem hop =>
    rcases commitTx_eq_ok hop with ⟨-, rfl, -⟩ | ⟨locked, db₁, db₂, hc⟩
    · exact Or.inl ⟨rfl, rfl⟩
    · exact Or.inr ⟨_, _, _, _, locked, db₁, db₂, hc⟩
  | delete hmem => exact Or.inl ⟨rfl, rfl⟩
  | recoverExpired hmem hop =>
    have hschedules : Schedules P (fun _ _ => True) (fun _ => True) s.db _ :=
      recoverExpired_schedules hw hop
    exact Or.inl (hpublications hschedules.publications)
  | releaseOrphans hmem hop =>
    obtain ⟨rfl, -⟩ := updateDeliveries_eq_ok.1 hop
    exact Or.inl ⟨rfl, rfl⟩
  | settle hop =>
    have hschedules : Schedules P (fun _ _ => True) (fun _ => True) s.db _ :=
      settleCancelling_schedules hw hop
    exact Or.inl (hpublications hschedules.publications)
  | cancelRun hop =>
    rcases cancelRun_eq_ok (fun _ _ => True) (fun _ => True) hw hop with
      rfl | ⟨commands, streams, event, -, hschedules⟩
    · exact Or.inl ⟨rfl, rfl⟩
    · have hp := hschedules.publications
      exact Or.inl ⟨by rw [hp]; rfl, by rw [hp]; rfl⟩
  | requestCancellation => exact Or.inl ⟨rfl, rfl⟩
  | maintain hop =>
    refine Or.inl ⟨maintain_actions hop ?_, (maintain_aside (P := P) hop).quiet.ledger⟩
    rintro actionId status rfl
    simp [Label.movesAction] at hmoves

/-- What a step of the runtime that moves no action publishes. -/
theorem Step.publishes {s t : State} {l : Label} (hs : Sound P s) (h : Step P s l t)
    (hmoves : l.movesAction = false) : Publishes s.db t.db := by
  rcases h.commits hs hmoves with
    ⟨hactions, hledger⟩ | ⟨env, input, digest, disposition, locked, db₁, db₂, hc⟩
  · exact .of_eq hactions hledger
  · exact hc.publishes hs.coherent hs.backed hs.wellFormed

/-! ## What a step does to the external actions -/

/-- Whether the region of an action's execution runs in the execution's epoch. -/
def Db.HasAuthority (db : Db) (a : ExternalAction) : Prop :=
  ∃ e ∈ db.executions, e.id = a.executionId ∧ ∃ r ∈ db.regions, r.id = e.regionId ∧
    r.lifecycleStatus = .running ∧ e.lifecycleEpoch = r.lifecycleEpoch

/-- How a step moves one external action. -/
inductive ActionMove (s : Installation) : InstallationLabel → ExternalAction → ExternalAction → Prop
  | same {l : InstallationLabel} {a : ExternalAction} : ActionMove s l a a
  | decided {a : ExternalAction} {status : ExternalActionStatus} {approvalId : Option Uuid}
      (h : policyDecides a.status status) :
      ActionMove s (.decidePolicy a.id status approvalId) a { a with status, approvalId }
  | approved {a : ExternalAction} {status : ExternalActionStatus} {context : OperatorContext}
      {approvalId : Uuid} {input : ApprovalDecisionRequest} (h : a.status = .awaitingApproval)
      (hstatus : status = .authorized ∨ status = .denied) :
      ActionMove s (.decideApproval context approvalId input) a { a with status }
  | cancelled {a : ExternalAction} (h : a.status = .authorized) :
      ActionMove s (.dispatch a.id) a { a with status := .cancelled }
  | dispatched {a : ExternalAction} (h : a.status = .authorized) (hauthority : s.db.HasAuthority a) :
      ActionMove s (.dispatch a.id) a { a with status := .dispatching }
  | answered {a : ExternalAction} {pass : Option ℕ} {asked : Asked} {attemptId : Uuid}
      {result : ExternalActionProviderResult} (h : a.status.uncertain)
      (hcall : ⟨pass, .answered asked a.id attemptId result⟩ ∈ s.calls) :
      ActionMove s (.persist a.id result) a { a with status := answeredStatus asked result.status }

theorem ActionMove.asProposed {s : Installation} {l : InstallationLabel} {a a' : ExternalAction}
    (h : ActionMove s l a a') : a'.asProposed = a.asProposed := by
  cases h <;> rfl

theorem ActionMove.id {s : Installation} {l : InstallationLabel} {a a' : ExternalAction}
    (h : ActionMove s l a a') : a'.id = a.id := by
  cases h <;> rfl

/-- What a step does to the table of external actions. -/
structure MovesActions (s : Installation) (l : InstallationLabel) (db' : Db) : Prop where
  moves : ∃ old new, db'.actions = old ++ new ∧ List.Forall₂ (ActionMove s l) s.db.actions old ∧
    ∀ a ∈ new, a.asProposed = a ∧ ∃ env input locked, Authorized env input s.db locked ∧
      a.attemptId = input.attemptId ∧ a.executionId = input.executionId
  keyed : Keyed (·.id) s.db.actions → Keyed (·.id) db'.actions

namespace MovesActions

variable {s : Installation} {l : InstallationLabel}

/-- A step that leaves the actions alone. -/
theorem same (h : db'.actions = s.db.actions) : MovesActions s l db' :=
  ⟨⟨s.db.actions, [], by simp [h], List.forall₂_same.2 fun _ _ => .same, by simp⟩,
    by rw [h]; exact id⟩

theorem publishes (h : Publishes s.db db') : MovesActions s l db' := by
  obtain ⟨new, hnew, hproposed⟩ := h.actions
  exact ⟨⟨s.db.actions, new, hnew, List.forall₂_same.2 fun _ _ => .same, hproposed⟩, h.keyed⟩

/-- A step that updates actions. -/
theorem update {p : ExternalAction → Bool} {f : ExternalAction → ExternalAction}
    (h : db'.actions = updateWhere p f s.db.actions) (hid : ∀ a, (f a).id = a.id)
    (hmove : ∀ a ∈ s.db.actions, p a → ActionMove s l a (f a)) : MovesActions s l db' := by
  refine ⟨⟨updateWhere p f s.db.actions, [], by simp [h], ?_, by simp⟩, fun hk => ?_⟩
  · rw [updateWhere, List.forall₂_map_right_iff]
    refine List.forall₂_same.2 fun a ha => ?_
    by_cases hp : p a
    · simpa [hp] using hmove a ha hp
    · simpa [hp] using ActionMove.same
  · rw [h]
    exact hk.updateWhere hid

/-- An action after the step is new, or comes from one before. -/
theorem mem (h : MovesActions s l db') {a' : ExternalAction} (ha' : a' ∈ db'.actions) :
    (∃ a ∈ s.db.actions, ActionMove s l a a') ∨ a'.asProposed = a' ∧
      ∃ env input locked, Authorized env input s.db locked ∧ a'.attemptId = input.attemptId ∧
        a'.executionId = input.executionId := by
  obtain ⟨old, new, hdb, hmoves, hnew⟩ := h.moves
  rw [hdb] at ha'
  rcases List.mem_append.1 ha' with ha' | ha'
  · exact Or.inl (exists_of_forall₂ hmoves ha')
  · exact Or.inr (hnew a' ha')

/-- An action before the step is there after it. -/
theorem kept (h : MovesActions s l db') {a : ExternalAction} (ha : a ∈ s.db.actions) :
    ∃ a' ∈ db'.actions, ActionMove s l a a' := by
  obtain ⟨old, new, hdb, hmoves, -⟩ := h.moves
  obtain ⟨a', ha', hmove⟩ := exists_of_forall₂ hmoves.flip ha
  exact ⟨a', by rw [hdb]; exact List.mem_append_left _ ha', hmove⟩

end MovesActions

/-! ## Transactions -/

/-- What the start of a dispatch does. -/
theorem startDispatch_eq_ok {action : ExternalAction} {t t' : ActionDb}
    {preparation : DispatchPreparation} (h : startDispatch P action t = .ok (preparation, t')) :
    ∃ attempt, attempt.id = P.uuid t.drawn ∧ attempt.externalActionId = action.id ∧
      attempt.attemptNumber = latestAttemptNumber action.id t + 1 ∧
      attempt.status = .dispatching ∧
      (∀ a ∈ t.actionAttempts, a.id ≠ attempt.id) ∧
      preparation = .dispatch (providerRequest action) attempt.id ∧
      t' = { t with
        actions := updateWhere (·.id = action.id) (fun a => { a with status := .dispatching }) t.actions,
        drawn := t.drawn + 1, actionAttempts := t.actionAttempts ++ [attempt] } := by
  unfold startDispatch at h
  obtain ⟨attempts, hinsert, h⟩ := Except.bind_eq_ok.1 h
  obtain ⟨rfl, rfl⟩ := Prod.mk.inj (Except.ok.inj h)
  obtain ⟨rfl, -, hunique⟩ := insert_eq_ok.1 (sql_eq_ok.1 hinsert)
  refine ⟨_, rfl, rfl, rfl, rfl, fun a ha hid => ?_, rfl, rfl⟩
  have := hunique _ List.mem_cons_self a ha
  simp [hid] at this

/-- The rows that a dispatch looks at. -/
theorem dispatchRow_eq_some {actionId : Uuid} {a : ExternalAction} {e : Execution} {r : Region}
    (h : dispatchRow actionId db = some (a, e, r)) :
    a ∈ db.actions ∧ a.id = actionId ∧ e ∈ db.executions ∧ e.id = a.executionId ∧
      r ∈ db.regions ∧ r.id = e.regionId := by
  unfold dispatchRow at h
  obtain ⟨a', ha, h⟩ := Option.bind_eq_some_iff.1 h
  obtain ⟨e', he, h⟩ := Option.bind_eq_some_iff.1 h
  obtain ⟨r', hr, heq⟩ := Option.map_eq_some_iff.1 h
  simp only [Prod.mk.injEq] at heq
  obtain ⟨rfl, rfl, rfl⟩ := heq
  exact ⟨(mem_of_find?_key ha).1, (mem_of_find?_key ha).2, (mem_of_find?_key he).1,
    (mem_of_find?_key he).2, (mem_of_find?_key hr).1, (mem_of_find?_key hr).2⟩

/-- What the first transaction of a dispatch does : it finds nothing to dispatch, it cancels, it is
put off, or it moves an authorized action with authority to `dispatching`. -/
theorem prepareDispatch_eq_ok {actionId : Uuid} {t t' : ActionDb} {preparation : DispatchPreparation}
    (h : prepareDispatch P actionId t = .ok (preparation, t')) :
    (preparation.call = none ∧ t' = t) ∨
      ∃ a e r, dispatchRow actionId t.toDb = some (a, e, r) ∧ a.status = .authorized ∧
        ((preparation.call = none ∧ hasAuthority e r = false ∧
            t' = setActionStatus (·.id = actionId) .cancelled t) ∨
          (hasAuthority e r = true ∧ ∃ outcome reservations n,
            reserveInTransaction P (networkCall a r) t.toDb =
              .ok (outcome, { t.toDb with reservations, drawn := n }) ∧
            (outcome ≠ .admitted ∧ preparation.call = none ∧
                t' = { t with reservations, drawn := n } ∨
              outcome = .admitted ∧ startDispatch P a { t with reservations, drawn := n } =
                .ok (preparation, t')))) := by
  unfold prepareDispatch at h
  split at h
  · simp at h
  rename_i a e r hrow
  split at h
  · obtain ⟨rfl, rfl⟩ := Prod.mk.inj (Except.ok.inj h)
    exact Or.inl ⟨rfl, rfl⟩
  split at h
  · obtain ⟨rfl, rfl⟩ := Prod.mk.inj (Except.ok.inj h)
    exact Or.inl ⟨rfl, rfl⟩
  rename_i hauthorized
  refine Or.inr ⟨a, e, r, hrow, by simpa using hauthorized, ?_⟩
  split at h
  · rename_i hno
    obtain ⟨rfl, rfl⟩ := Prod.mk.inj (Except.ok.inj h)
    exact Or.inl ⟨rfl, by simpa using hno, rfl⟩
  rename_i hyes
  obtain ⟨⟨outcome, db₁⟩, hreserve, h⟩ := Except.bind_eq_ok.1 h
  obtain ⟨reservations, n, -, rfl⟩ := reserveInTransaction_frame hreserve
  refine Or.inr ⟨by simpa using hyes, outcome, reservations, n, hreserve, ?_⟩
  dsimp only at h
  split at h
  · rename_i hne
    obtain ⟨rfl, rfl⟩ := Prod.mk.inj (Except.ok.inj h)
    exact Or.inl ⟨hne, rfl, rfl⟩
  · rename_i heq
    exact Or.inr ⟨by simpa using heq, h⟩

/-- What storing an answer does : nothing to a reconciled action, and otherwise it sets the status
of the action and of the attempt. -/
theorem persistResult_eq_ok {now : Time} {actionId attemptId : Uuid} {asked : Asked}
    {result : ExternalActionProviderResult} {t t' : ActionDb}
    (h : persistResult now actionId attemptId asked result t = .ok t') :
    ∃ action ∈ t.actions, action.id = actionId ∧
      ∃ attempt ∈ t.actionAttempts, attempt.id = attemptId ∧ attempt.externalActionId = actionId ∧
        (action.status = .reconciled ∧ t' = t ∨
          action.status.uncertain ∧ attempt.status.uncertain ∧ t' = { t with
            actions := updateWhere (·.id = actionId)
              (fun a => { a with status := answeredStatus asked result.status }) t.actions,
            actionAttempts := updateWhere (·.id = attemptId)
              (fun a => { a with status := attemptStatusOf result.status, completedAt := some now,
                                 response := some result.response }) t.actionAttempts }) := by
  unfold persistResult at h
  obtain ⟨action, haction, h⟩ := Except.bind_eq_ok.1 h
  obtain ⟨attempt, hattempt, h⟩ := Except.bind_eq_ok.1 h
  obtain ⟨hmem, hid⟩ := mem_of_find?_key (takeFirstOrThrow_eq_ok.1 haction)
  have hattempt := takeFirstOrThrow_eq_ok.1 hattempt
  have hcond := List.find?_some hattempt
  simp only [Bool.and_eq_true, decide_eq_true_eq] at hcond
  refine ⟨action, hmem, hid, attempt, List.mem_of_find?_eq_some hattempt, hcond.1, hcond.2, ?_⟩
  split at h
  · exact Or.inl ⟨‹_›, (Except.ok.inj h).symm⟩
  · obtain ⟨⟨⟩, hu, h⟩ := Except.bind_eq_ok.1 h
    obtain ⟨⟨⟩, hu', h⟩ := Except.bind_eq_ok.1 h
    obtain ⟨attempts, hupdate, h⟩ := Except.bind_eq_ok.1 h
    obtain rfl := Except.ok.inj h
    obtain ⟨rfl, -⟩ := update_eq_ok.1 (sql_eq_ok.1 hupdate)
    exact Or.inr ⟨require_eq_ok.1 hu, require_eq_ok.1 hu', rfl⟩

/-- What a decision does : nothing when it is replayed, and otherwise it moves the actions that
await it. -/
theorem decideApproval_eq_ok {now : Time} {context : OperatorContext} {approvalId : Uuid}
    {input : ApprovalDecisionRequest} {disposition : DecisionDisposition} {t t' : ActionDb}
    (h : decideApproval P now context approvalId input t = .ok (disposition, t')) :
    t' = t ∨ ∃ approvals,
      (∀ a ∈ t.actions, a.approvalId = some approvalId → a.status = .awaitingApproval) ∧
      t' = setActionStatus (·.approvalId = some approvalId)
        (if input.approve then .authorized else .denied) { t with approvals } := by
  unfold decideApproval at h
  obtain ⟨⟨⟩, -, h⟩ := Except.bind_eq_ok.1 h
  obtain ⟨⟨⟩, -, h⟩ := Except.bind_eq_ok.1 h
  obtain ⟨reason, -, h⟩ := Except.bind_eq_ok.1 h
  obtain ⟨⟨⟩, -, h⟩ := Except.bind_eq_ok.1 h
  split at h
  · simp at h
  split at h
  · obtain ⟨⟨⟩, -, h⟩ := Except.bind_eq_ok.1 h
    exact Or.inl (Prod.mk.inj (Except.ok.inj h)).2.symm
  · obtain ⟨⟨⟩, hawaiting, h⟩ := Except.bind_eq_ok.1 h
    obtain ⟨approvals, -, h⟩ := Except.bind_eq_ok.1 h
    obtain ⟨-, rfl⟩ := Prod.mk.inj (Except.ok.inj h)
    refine Or.inr ⟨approvals, fun a ha hid => ?_, rfl⟩
    have hall := List.all_eq_true.1 (require_eq_ok.1 hawaiting) a
      (List.mem_filter.2 ⟨ha, by simpa using hid⟩)
    simpa using hall

theorem setActionStatus_asProposed {p : ExternalAction → Bool} {status : ExternalActionStatus}
    (t : ActionDb) : (setActionStatus p status t).actions.map ExternalAction.asProposed =
      t.actions.map ExternalAction.asProposed := by
  refine map_updateWhere _ ?_ _
  exact fun _ => rfl

theorem regular_networkCall (a : ExternalAction) (r : Region) (id : Uuid) (b : ResourceBudget) :
    (reservationOf id (networkCall a r) b).Regular :=
  ⟨Or.inr ⟨a.id, rfl⟩, (fun _ h => nomatch h), rfl, rfl⟩

/-- A request for a network call keeps what the reservations are. -/
theorem reserveInTransaction_reserved (hr : Reserved P db) {a : ExternalAction} {r : Region}
    {outcome : AdmissionOutcome}
    (h : reserveInTransaction P (networkCall a r) db = .ok (outcome, db')) : Reserved P db' := by
  obtain ⟨reservations, n, rfl, hn, ⟨-, rfl⟩ | ⟨-, hadmits⟩⟩ := reserveInTransaction_eq_ok h
  · exact hr.congr rfl rfl hn
  · exact hr.admits hadmits (regular_networkCall a r) rfl rfl hn

/-! ## The invariant -/

/-- The invariant of an installation. -/
structure Installed (P : Platform) (s : Installation) : Prop where
  sound : Sound P s.toState
  actions : Keyed (·.id) s.db.actions
  reserved : Reserved P s.db
  attempts : Keyed (·.id) s.actionAttempts


namespace Installed

variable {s t : Installation} {l : InstallationLabel}

/-- A step of the services. -/
theorem serves (h : Installed P s) (hserves : Serves s.db t.db)
    (hstate : t.toState = { s.toState with db := t.db })
    (hbudgets : Keyed (·.id) t.db.budgets) (hreserved : Reserved P t.db)
    (hattempts : Keyed (·.id) t.actionAttempts) : Installed P t := by
  refine ⟨?_, hserves.actionsKeyed h.actions, hreserved, hattempts⟩
  rw [hstate]
  exact hserves.sound h.sound hbudgets

/-- A step that only moves actions, if at all. -/
theorem moves (h : Installed P s) {actions : List ExternalAction}
    (hdb : t.db = { s.db with actions })
    (hproposed : actions.map ExternalAction.asProposed = s.db.actions.map ExternalAction.asProposed)
    (hstate : t.toState = { s.toState with db := t.db })
    (hattempts : Keyed (·.id) t.actionAttempts) : Installed P t :=
  h.serves (by rw [hdb]; exact .of_actions hproposed) hstate
    (by rw [hdb]; exact h.sound.wellFormed.budgets)
    (by rw [hdb]; exact h.reserved.congr rfl rfl le_rfl) hattempts

end Installed

theorem InitialInstallation.installed {s : Installation} (h : InitialInstallation P s) :
    Installed P s := by
  refine ⟨h.state.sound, ?_, .of_nil h.budgets h.state.reservations, ?_⟩
  · simp [Keyed, h.state.actions]
  · simp [Keyed, h.actionAttempts]

variable {s t : Installation} {l : InstallationLabel}

/-- What a dispatch does to the database, whatever it finds. -/
theorem prepareDispatch_serves {actionId : Uuid} {before after : ActionDb}
    {preparation : DispatchPreparation}
    (h : prepareDispatch P actionId before = .ok (preparation, after))
    (hr : Reserved P before.toDb) (hattempts : Keyed (·.id) before.actionAttempts) :
    Serves before.toDb after.toDb ∧ after.budgets = before.budgets ∧ Reserved P after.toDb ∧
      Keyed (·.id) after.actionAttempts := by
  rcases prepareDispatch_eq_ok h with
    ⟨-, rfl⟩ | ⟨a, e, r, hrow, hauthorized, ⟨-, -, rfl⟩ | ⟨-, outcome, reservations, n, hreserve, hrest⟩⟩
  · exact ⟨.refl, rfl, hr, hattempts⟩
  · exact ⟨.of_actions (setActionStatus_asProposed before), rfl, hr.congr rfl rfl le_rfl, hattempts⟩
  have hserves := reserveInTransaction_serves hreserve
  have hreserved := reserveInTransaction_reserved hr hreserve
  rcases hrest with ⟨-, -, rfl⟩ | ⟨-, hstart⟩
  · exact ⟨hserves, rfl, hreserved, hattempts⟩
  · obtain ⟨attempt, -, -, -, -, hfresh, -, rfl⟩ := startDispatch_eq_ok hstart
    refine ⟨hserves.trans ⟨rfl, rfl, Nat.le_succ _, rfl, rfl, rfl, rfl,
        setActionStatus_asProposed before, [], by simp, by simp⟩, rfl,
      hreserved.congr rfl rfl (Nat.le_succ _), hattempts.append hfresh⟩

/-- A step is a step of the runtime, or a write of the services. -/
theorem InstallationStep.serves (hr : Reserved P s.db) (hattempts : Keyed (·.id) s.actionAttempts)
    (hstep : InstallationStep P s l t) :
    (∃ k, l = .runtime k ∧ Step P s.toState k t.toState ∧ k.movesAction = false) ∨
      Serves s.db t.db := by
  cases hstep with
  | runtime hstep hmoves => exact Or.inl ⟨_, rfl, hstep, hmoves⟩
  | requestApproval | invoke | reconcile | answer | stop | startPass | passNext | finishPass =>
    exact Or.inr .refl
  | decidePolicy hstatus =>
    refine Or.inr (.of_actions ?_)
    refine map_updateWhere _ ?_ _
    exact fun _ => rfl
  | decideApproval hop =>
    rcases decideApproval_eq_ok hop with rfl | ⟨approvals, -, rfl⟩
    · exact Or.inr .refl
    · exact Or.inr (.of_actions (setActionStatus_asProposed s.tables))
  | configureBudgets hop => exact Or.inr (configureRegionBudgets_configures hop).serves
  | dispatch hop => exact Or.inr (prepareDispatch_serves hop hr hattempts).1
  | persist hmem hop =>
    obtain ⟨action, -, -, attempt, -, -, -, ⟨-, rfl⟩ | ⟨-, -, rfl⟩⟩ := persistResult_eq_ok hop
    · exact Or.inr .refl
    · refine Or.inr (.of_actions ?_)
      refine map_updateWhere _ ?_ _
      exact fun _ => rfl
  | settle hmem hop => exact Or.inr (reconcileNetworkReservation_serves hr hop)

theorem Installed.step (h : Installed P s) (hstep : InstallationStep P s l t) : Installed P t := by
  have hbudgets := h.sound.wellFormed.budgets
  cases hstep with
  | runtime hstep hmoves =>
    exact ⟨h.sound.step hstep, (hstep.publishes h.sound hmoves).keyed h.actions,
      h.reserved.accounts (hstep.accounts h.sound), h.attempts⟩
  | requestApproval | invoke | reconcile | answer | stop | startPass | passNext | finishPass =>
    exact ⟨h.sound, h.actions, h.reserved, h.attempts⟩
  | decidePolicy hstatus =>
    refine h.moves rfl ?_ rfl h.attempts
    refine map_updateWhere _ ?_ _
    exact fun _ => rfl
  | decideApproval hop =>
    rcases decideApproval_eq_ok hop with rfl | ⟨approvals, -, rfl⟩
    · exact h
    · exact h.moves rfl (setActionStatus_asProposed s.tables) rfl h.attempts
  | configureBudgets hop =>
    have hc := configureRegionBudgets_configures hop
    exact h.serves hc.serves rfl (hc.keyed hbudgets) (hc.reserved h.reserved) h.attempts
  | @dispatch actionId preparation t hop =>
    obtain ⟨hserves, hsame, hreserved, hattempts⟩ :=
      prepareDispatch_serves hop h.reserved h.attempts
    exact h.serves hserves rfl ((congrArg (Keyed (·.id)) hsame).mpr hbudgets) hreserved hattempts
  | persist hmem hop =>
    obtain ⟨action, -, -, attempt, -, -, -, ⟨-, rfl⟩ | ⟨-, -, rfl⟩⟩ := persistResult_eq_ok hop
    · exact ⟨h.sound, h.actions, h.reserved, h.attempts⟩
    · refine h.moves rfl ?_ rfl (h.attempts.updateWhere fun _ => rfl)
      refine map_updateWhere _ ?_ _
      exact fun _ => rfl
  | @settle actionId pass pre post settled db hmem hop =>
    have hserves := reconcileNetworkReservation_serves h.reserved hop
    rcases reconcileNetworkReservation_eq_ok h.reserved hop with rfl | ⟨r, -, -, hop⟩
    · exact ⟨h.sound, h.actions, h.reserved, h.attempts⟩
    · refine h.serves hserves rfl ?_ (reconcile_reserved h.reserved hop) h.attempts
      rcases reconcile_eq_ok hop with ⟨-, rfl⟩ | ⟨r', b, ledger, -, -, rfl⟩ <;> exact hbudgets

theorem reachable_installed (h : (installation P).Reachable s) : Installed P s :=
  h.invariant (fun _ hinit => InitialInstallation.installed hinit)
    fun u k v hs (hst : InstallationStep P u k v) => hs.step hst

/-- What a step does to the external actions. -/
theorem InstallationStep.actions (h : Installed P s) (hstep : InstallationStep P s l t) :
    MovesActions s l t.db := by
  have hkeyed := h.actions
  cases hstep with
  | runtime hstep hmoves => exact .publishes (hstep.publishes h.sound hmoves)
  | requestApproval | invoke | reconcile | answer | stop | startPass | passNext | finishPass =>
    exact .same rfl
  | @decidePolicy actionId status approvalId hstatus =>
    refine .update rfl (fun _ => rfl) fun a ha hid => ?_
    obtain rfl : a.id = actionId := by simpa using hid
    exact .decided (hstatus a ha rfl)
  | @decideApproval context approvalId input disposition t hop =>
    rcases decideApproval_eq_ok hop with rfl | ⟨approvals, hawaiting, rfl⟩
    · exact .same rfl
    · refine .update rfl (fun _ => rfl) fun a ha hid => ?_
      refine .approved (hawaiting a ha (by simpa using hid)) ?_
      split
      · exact Or.inl rfl
      · exact Or.inr rfl
  | configureBudgets hop =>
    refine .same ?_
    rw [(configureRegionBudgets_configures hop).frame]
  | @dispatch actionId preparation t hop =>
    rcases prepareDispatch_eq_ok hop with
      ⟨-, rfl⟩ | ⟨a, e, r, hrow, hauthorized, hrest⟩
    · exact .same rfl
    obtain ⟨ha, haid, he, heid, hr, hrid⟩ := dispatchRow_eq_some hrow
    have hone : ∀ b ∈ s.db.actions, decide (b.id = actionId) = true → b = a := fun b hb hid =>
      hkeyed.eq hb ha ((by simpa using hid : b.id = actionId).trans haid.symm)
    rcases hrest with ⟨-, -, rfl⟩ | ⟨hauthority, outcome, reservations, n, -, ⟨-, -, rfl⟩ | ⟨-, hstart⟩⟩
    · refine .update rfl (fun _ => rfl) fun b hb hid => ?_
      rw [hone b hb hid, ← haid]
      exact .cancelled hauthorized
    · exact .same rfl
    · obtain ⟨attempt, -, -, -, -, -, -, rfl⟩ := startDispatch_eq_ok hstart
      refine .update rfl (fun _ => rfl) fun b hb hid => ?_
      obtain rfl := hone b hb ((by simpa using hid : b.id = a.id).trans haid ▸ by simp)
      simp only [hasAuthority, Bool.and_eq_true, decide_eq_true_eq] at hauthority
      rw [← haid]
      exact .dispatched hauthorized ⟨e, he, heid, r, hr, hrid, hauthority.1, hauthority.2⟩
  | @persist asked actionId attemptId result pass pre post t hmem hop =>
    obtain ⟨action, ha, haid, attempt, -, -, -, ⟨-, rfl⟩ | ⟨huncertain, -, rfl⟩⟩ :=
      persistResult_eq_ok hop
    · exact .same rfl
    · refine .update rfl (fun _ => rfl) fun b hb hid => ?_
      obtain rfl : b.id = actionId := by simpa using hid
      obtain rfl := hkeyed.eq hb ha haid.symm
      have hcall : ⟨pass, .answered asked b.id attemptId result⟩ ∈ s.calls := by simp [hmem]
      exact .answered huncertain hcall
  | @settle actionId pass pre post settled db hmem hop =>
    refine .same ?_
    rcases reconcileNetworkReservation_eq_ok h.reserved hop with rfl | ⟨r, -, -, hop⟩
    · rfl
    · rcases reconcile_eq_ok hop with ⟨-, rfl⟩ | ⟨r', b, ledger, -, -, rfl⟩ <;> rfl

end FactoryFloor
