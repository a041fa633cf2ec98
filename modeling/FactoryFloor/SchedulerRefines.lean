import FactoryFloor.Refinement

/-!
# A poll refines the steps of the work

`tryCandidate_cases` says what a poll does with one candidate : it puts the group off, resumes the
pending attempt of the group's execution, or starts an execution. A poll tries candidates of
different groups, so what it would select for a later candidate does not change by putting off an
earlier one (`Db.Selects.deferred`), and `leaseNextAttempt_schedules` follows.
-/

namespace FactoryFloor

open Relational

variable {P : Platform} {placed : GroupKey → Prop} {allow : Work → List Delivery → Prop}
variable {late : Time → Prop} {db db' : Db} {now : Time}

/-! ## Selections -/

theorem mem_selectRequired {rows : String → List Delivery} {expected : String → ℕ}
    {ports : List PortDefinition} {selected : List Delivery}
    (h : selectRequired rows expected ports = some selected) :
    ∀ d ∈ selected, ∃ port ∈ ports, d ∈ rows port.name := by
  induction ports generalizing selected with
  | nil =>
    obtain rfl := Option.some.inj h
    simp
  | cons port ports ih =>
    unfold selectRequired at h
    split at h
    · obtain ⟨rest, hrest, rfl⟩ := Option.map_eq_some_iff.1 h
      intro d hd
      rcases List.mem_append.1 hd with hd | hd
      · exact ⟨port, by simp, hd⟩
      · obtain ⟨p, hp, hd⟩ := ih hrest d hd
        exact ⟨p, List.mem_cons_of_mem _ hp, hd⟩
    · simp at h

theorem mem_selectOptional {rows : String → List Delivery} {expected : String → ℕ}
    {ports : List PortDefinition} {selected : List Delivery}
    (h : selectOptional rows expected ports = some selected) :
    ∀ d ∈ selected, ∃ port ∈ ports, d ∈ rows port.name := by
  induction ports generalizing selected with
  | nil =>
    obtain rfl := Option.some.inj h
    simp
  | cons port ports ih =>
    unfold selectOptional at h
    split at h
    · simp at h
    · obtain ⟨rest, hrest, rfl⟩ := Option.map_eq_some_iff.1 h
      intro d hd
      rcases List.mem_append.1 hd with hd | hd
      · refine ⟨port, by simp, ?_⟩
        split at hd
        · exact hd
        · simp at hd
      · obtain ⟨p, hp, hd⟩ := ih hrest d hd
        exact ⟨p, List.mem_cons_of_mem _ hp, hd⟩

/-- What is selected is due in the group, and something is. -/
theorem mem_selectGroup {candidate : Delivery} {component : ComponentInstance}
    {rules : List FanInRule} {selected : List Delivery}
    (h : selectGroup now candidate component rules db = some selected) :
    selected ≠ [] ∧ ∀ d ∈ selected, d ∈ db.deliveries ∧ due now candidate.toGroupKey d := by
  unfold selectGroup at h
  dsimp only at h
  split at h
  · split at h
    · rename_i required optional hrequired hoptional
      split at h
      · simp at h
      · rename_i hne
        obtain rfl := Option.some.inj h
        constructor
        · intro hnil
          have hlen := (List.perm_insertionSort inputsBefore (required ++ optional)).length_eq
          rw [hnil, List.length_nil, eq_comm, List.length_eq_zero_iff] at hlen
          exact hne (by rw [hlen]; rfl)
        · intro d hd
          have hmem := (List.perm_insertionSort inputsBefore _).mem_iff.1 hd
          obtain ⟨port, -, hrow⟩ : ∃ port ∈ inputPorts db component,
              d ∈ dueAt now candidate.toGroupKey db port.name := by
            rcases List.mem_append.1 hmem with hmem | hmem
            · obtain ⟨port, hport, hrow⟩ := mem_selectRequired hrequired d hmem
              exact ⟨port, (List.mem_filter.1 hport).1, hrow⟩
            · obtain ⟨port, hport, hrow⟩ := mem_selectOptional hoptional d hmem
              exact ⟨port, (List.mem_filter.1 hport).1, hrow⟩
          obtain ⟨hd, hdue⟩ := List.mem_filter.1 hrow
          simp only [Bool.and_eq_true] at hdue
          exact ⟨hd, hdue.1⟩
    · simp at h
  · simp at h

theorem selects_of_due {group : GroupKey} {selected : List Delivery}
    (h : ∀ d ∈ selected, d ∈ db.deliveries ∧ due now group d) :
    Work.Selects db.work group selected := by
  intro d hd
  obtain ⟨hmem, hdue⟩ := h d hd
  simp only [due, Bool.and_eq_true, decide_eq_true_eq] at hdue
  exact ⟨hmem, hdue.1.1, hdue.1.2⟩

/-- The deliveries a poll leases together for a candidate. -/
def Db.Selects (db : Db) (now : Time) (candidate : Delivery) (selected : List Delivery) : Prop :=
  ∃ region component revision, db.region? candidate.regionId = some region ∧
    region.lifecycleStatus = .running ∧
    db.component? candidate.targetComponentInstanceId = some component ∧
    db.revisions.find? (·.id = candidate.topologyRevisionId) = some revision ∧
    selectGroup now candidate component revision.fanIn db = some selected

/-- The deliveries a poll would start an execution with for a candidate. -/
def Db.Starts (db : Db) (now : Time) (candidate : Delivery) (selected : List Delivery) : Prop :=
  db.Selects now candidate selected ∧ ∃ region, db.region? candidate.regionId = some region ∧
    ∀ e ∈ db.executions, ¬isExecutionOf candidate.toGroupKey region (inputSetDigest selected) e

/-! ## Putting off -/

/-- A poll puts off due deliveries of a group, and draws. -/
structure Deferred (now : Time) (group : GroupKey) (db db' : Db) : Prop extends
  SameTables db db' where
  work : ∃ p n, (∀ d ∈ db.deliveries, p d → due now group d) ∧ db.drawn ≤ n ∧ db'.work =
    { db.work with
      deliveries := updateWhere p (Delivery.putOff (now + incompleteGroupRecheckMs)) db.deliveries,
      drawn := n }

theorem Deferred.of_work {group : GroupKey} (htables : SameTables db db') {n : ℕ}
    (hn : db.drawn ≤ n) (hwork : db'.work = { db.work with drawn := n }) : Deferred now group db db' :=
  ⟨htables, fun _ => false, n, by simp, hn, by rw [updateWhere_false]; exact hwork⟩

theorem Deferred.schedules {group : GroupKey} (h : Deferred now group db db') :
    Schedules P allow late db db' := by
  obtain ⟨p, n, hp, hn, hwork⟩ := h.work
  refine ⟨h.toSameTables, .tail (.single (Work.Step.draw hn)) ?_⟩
  rw [hwork]
  refine Work.Step.putOff (w := { db.work with drawn := n }) fun d hd hpd => ?_
  have := hp d hd hpd
  simp only [due, Bool.and_eq_true, decide_eq_true_eq] at this
  exact this.1.1

/-- Putting the group off, after operations that leave the work alone. -/
theorem deferGroup_deferred {db₁ : Db} {group : GroupKey} (h : deferGroup now group db₁ = .ok db')
    (htables : SameTables db db₁) {n : ℕ} (hn : db.drawn ≤ n) (hwork : db₁.work = { db.work with drawn := n }) :
    Deferred now group db db' := by
  obtain ⟨rfl, -⟩ := updateDeliveries_eq_ok.1 h
  have hdeliveries : db₁.deliveries = db.deliveries := congrArg Work.deliveries hwork
  refine ⟨htables.trans ⟨rfl, rfl, rfl, rfl⟩, due now group, n, fun _ _ h => h, hn, ?_⟩
  rw [← hdeliveries]
  simp only [Db.work, Work.mk.injEq] at hwork ⊢
  exact ⟨hwork.1, rfl, hwork.2.2⟩

theorem dueAt_deferred {group group' : GroupKey} (hne : group' ≠ group)
    (h : Deferred now group db db') (portName : String) :
    dueAt now group' db' portName = dueAt now group' db portName := by
  obtain ⟨p, n, hp, -, hwork⟩ := h.work
  have hdeliveries : db'.deliveries = _ := congrArg Work.deliveries hwork
  rw [dueAt, hdeliveries]
  refine filter_updateWhere_of_not fun d hd hpd => ?_
  have hdue := hp d hd hpd
  simp only [due, Bool.and_eq_true, decide_eq_true_eq] at hdue
  have hgroup : d.toGroupKey ≠ group' := fun h => hne (h.symm.trans hdue.1.2)
  simp [due, hgroup, Delivery.putOff]

/-- What a poll selects for a candidate of another group does not change. -/
theorem Db.Selects.deferred {group : GroupKey} {candidate : Delivery} {selected : List Delivery}
    (hne : candidate.toGroupKey ≠ group) (h : Deferred now group db db')
    (hs : db'.Selects now candidate selected) : db.Selects now candidate selected := by
  obtain ⟨region, component, revision, hregion, hrunning, hcomponent, hrevision, hselect⟩ := hs
  obtain ⟨p, n, hp, hn, hwork⟩ := h.work
  have hregions : db'.regions = db.regions := congrArg Work.regions hwork
  have hrows : dueAt now candidate.toGroupKey db' = dueAt now candidate.toGroupKey db :=
    funext (dueAt_deferred hne h)
  refine ⟨region, component, revision, ?_, hrunning, ?_, ?_, ?_⟩
  · rwa [Db.region?, ← hregions]
  · rwa [Db.component?, ← h.catalog]
  · rwa [← h.catalog]
  · rwa [selectGroup, hrows, inputPorts, h.catalog] at hselect

/-! ## Executions -/

/-- Whether an execution is a new one for selected deliveries. -/
structure IsNewExecution (P : Platform) (g : GroupKey) (region : Region)
    (selected : List Delivery) (db : Db) (e : Execution) : Prop where
  id : e.id = P.uuid db.drawn
  trigger : ∃ d ∈ selected, triggerOf selected = some d ∧ d.id = e.deliveryId
  group : ∀ c, e.groupKey c = { g with correlationId := c }
  epoch : e.lifecycleEpoch = region.lifecycleEpoch
  digest : e.inputSetDigest = inputSetDigest selected
  status : e.status = .running
  unknown : ∀ f ∈ db.executions, ¬isExecutionOf g region (inputSetDigest selected) f

theorem mem_triggerOf {selected : List Delivery} {d : Delivery} (h : triggerOf selected = some d) :
    d ∈ selected :=
  (List.perm_insertionSort _ _).mem_iff.1 (List.mem_of_head? h)

/-- The execution of a group's inputs is not running, or it is, or it is new. -/
theorem ensureExecution_eq_ok {group : GroupKey} {region : Region} {selected : List Delivery}
    {result : Option (Execution × Bool)}
    (h : ensureExecution P group region selected db = .ok (result, db')) :
    (result = none ∧ db' = db) ∨
      (∃ e ∈ db.executions, result = some (e, false) ∧ db' = db ∧ e.status = .running ∧
        isExecutionOf group region (inputSetDigest selected) e) ∨
      ∃ e, result = some (e, true) ∧ db' = { db.draw with executions := db.executions ++ [e] } ∧
        IsNewExecution P group region selected db e := by
  unfold ensureExecution at h
  dsimp only at h
  split at h
  · rename_i e he
    split at h
    · rename_i hrunning
      obtain ⟨rfl, rfl⟩ := Prod.mk.inj (Except.ok.inj h)
      exact Or.inr (Or.inl ⟨e, List.mem_of_find?_eq_some he, rfl, rfl, hrunning,
        List.find?_some he⟩)
    · obtain ⟨rfl, rfl⟩ := Prod.mk.inj (Except.ok.inj h)
      exact Or.inl ⟨rfl, rfl⟩
  · rename_i hnone
    obtain ⟨trigger, htrigger, h⟩ := Except.bind_eq_ok.1 h
    obtain ⟨executions, hinsert, h⟩ := Except.bind_eq_ok.1 h
    obtain ⟨rfl, rfl⟩ := Prod.mk.inj (Except.ok.inj h)
    obtain ⟨rfl, -, -⟩ := insert_eq_ok.1 (sql_eq_ok.1 hinsert)
    have htrigger := takeFirstOrThrow_eq_ok.1 htrigger
    exact Or.inr (Or.inr ⟨_, rfl, rfl, rfl, ⟨trigger, mem_triggerOf htrigger, htrigger, rfl⟩,
      fun _ => rfl, rfl, rfl, rfl, fun f hf => by simpa using List.find?_eq_none.1 hnone f hf⟩)

/-- The input rows of an execution, after they are inserted. -/
theorem insertInputs_eq_ok {executionId : Uuid} {selected : List Delivery}
    (h : insertInputs executionId db selected = .ok db') :
    ∃ inputs, db' = { db with inputs, drawn := db.drawn + selected.length } ∧
      (∀ i, i ∈ inputs ↔
        i ∈ db.inputs ∨ ∃ d ∈ selected, i = ⟨executionId, d.targetPortName, d.id⟩) ∧
      ((∀ d ∈ selected, (⟨executionId, d.targetPortName, d.id⟩ : ExecutionInput) ∈ db.inputs) →
        inputs = db.inputs) := by
  induction selected generalizing db with
  | nil =>
    obtain rfl := Except.ok.inj h
    exact ⟨db.inputs, rfl, by simp, fun _ => rfl⟩
  | cons d ds ih =>
    obtain ⟨inputs₁, hinsert, h⟩ := Except.bind_eq_ok.1 h
    obtain ⟨inputs, rfl, hmem, hsame⟩ := ih h
    have hinsert := insertOrIgnore_eq_ok (sql_eq_ok.1 hinsert)
    have hmem₁ : ∀ i, i ∈ inputs₁ ↔ i ∈ db.inputs ∨ i = ⟨executionId, d.targetPortName, d.id⟩ := by
      intro i
      rcases hinsert with ⟨rfl, j, hj, hij⟩ | ⟨rfl, -, -⟩
      · constructor
        · exact Or.inl
        · rintro (hi | rfl)
          · exact hi
          · rwa [show (⟨executionId, d.targetPortName, d.id⟩ : ExecutionInput) = j by simpa using hij]
      · simp
    refine ⟨inputs, ?_, fun i => ?_, fun hall => ?_⟩
    · simp [Db.draw, Nat.add_assoc, Nat.add_comm 1]
    · rw [hmem, hmem₁, or_assoc]
      simp
    · have h₁ : inputs₁ = db.inputs := by
        rcases hinsert with ⟨rfl, -⟩ | ⟨rfl, -, hnone⟩
        · rfl
        · exact absurd (hnone _ (hall d (by simp))) (by simp)
      exact (hsame fun e he => h₁ ▸ hall e (List.mem_cons_of_mem _ he)).trans h₁

/-! ## Attempts -/

theorem mem_pendingAttempt {executionId : Uuid} {a : ExecutionAttempt}
    (h : pendingAttempt now executionId db = some a) :
    a ∈ db.attempts ∧ a.executionId = executionId ∧ a.status = .pending := by
  have hmem := (List.perm_insertionSort _ _).mem_iff.1 (List.mem_of_head? h)
  obtain ⟨ha, hpending⟩ := List.mem_filter.1 hmem
  simp only [Bool.and_eq_true, decide_eq_true_eq] at hpending
  exact ⟨ha, hpending.1.1, hpending.1.2⟩

/-- A poll leases the pending attempt of an execution, or none, or the first one. -/
theorem leaseAttempt_eq_ok {executionId : Uuid} {owner : String} {expiresAt : Time}
    {result : Option ExecutionAttempt}
    (h : leaseAttempt P now executionId owner expiresAt db = .ok (result, db')) :
    (∃ a ∈ db.attempts, a.executionId = executionId ∧ a.status = .pending ∧
      result = some (a.under ⟨owner, P.token db.drawn, expiresAt⟩ now) ∧
      updateAttempts (·.id = a.id)
        (ExecutionAttempt.under ⟨owner, P.token db.drawn, expiresAt⟩ now) db.draw = .ok db') ∨
    (result = none ∧ db' = db ∧ ∃ a ∈ db.attempts, a.executionId = executionId) ∨
    ((∀ a ∈ db.attempts, a.executionId ≠ executionId) ∧ ∃ a, result = some a ∧
      a.id = P.uuid db.drawn ∧ a.executionId = executionId ∧ a.attemptNumber = 1 ∧
      a.status = .leased ∧ a.lease = some ⟨owner, P.token (db.drawn + 1), expiresAt⟩ ∧
      Row.violation a = none ∧ db' = { db.draw.draw with attempts := db.attempts ++ [a] }) := by
  unfold leaseAttempt at h
  split at h
  · rename_i a ha
    obtain ⟨hmem, hexec, hpending⟩ := mem_pendingAttempt ha
    obtain ⟨db₁, h₁, h⟩ := Except.bind_eq_ok.1 h
    obtain ⟨rfl, rfl⟩ := Prod.mk.inj (Except.ok.inj h)
    exact Or.inl ⟨a, hmem, hexec, hpending, rfl, h₁⟩
  · split at h
    · rename_i hany
      obtain ⟨rfl, rfl⟩ := Prod.mk.inj (Except.ok.inj h)
      exact Or.inr (Or.inl ⟨rfl, rfl, by simpa using hany⟩)
    · rename_i hnone
      obtain ⟨attempts, hinsert, h⟩ := Except.bind_eq_ok.1 h
      obtain ⟨rfl, rfl⟩ := Prod.mk.inj (Except.ok.inj h)
      obtain ⟨rfl, hvalid, -⟩ := insert_eq_ok.1 (sql_eq_ok.1 hinsert)
      exact Or.inr (Or.inr ⟨by simpa using hnone, _, rfl, rfl, rfl, rfl, rfl, rfl, hvalid, rfl⟩)

/-- A token that is not drawn yet is held by no delivery. -/
theorem token_unused {w : Work} (hL : Work.Leases P w) {k : ℕ} (hk : w.drawn ≤ k) :
    ∀ d ∈ w.deliveries, d.lease.map (·.token) ≠ some (P.token k) := by
  intro d hd htoken
  obtain ⟨l, hl, hlk⟩ := Option.map_eq_some_iff.1 htoken
  have hleased : d.status = .leased := by
    have := Delivery.leased_eq (hL.deliveryValid d hd)
    simpa [hl] using this
  obtain ⟨a, ha, hactive, hi⟩ := hL.owned d hd hleased
  obtain ⟨j, hj, hlj⟩ := hL.tokenDrawn a ha l ((hL.held a ha hactive d hd hi).2 ▸ hl)
  have := P.token_injective (hlj.symm.trans hlk)
  omega

/-! ## Leasing an execution -/

/-- What a poll does with one candidate : it puts the group off, or it leases, in some steps. -/
def Polled (P : Platform) (allow : Work → List Delivery → Prop) (late : Time → Prop) (now : Time)
    (group : GroupKey) (leased : Option LeasedExecutionAttempt) (db db' : Db) : Prop :=
  (leased = none ∧ Deferred now group db db') ∨
    (leased.isSome ∧ Schedules P allow late db db')

/-- The selected deliveries are recorded as the inputs of the execution that has their digest. -/
theorem mem_inputs_of_digest (hw : Work.Coherent P placed db.work) {selected : List Delivery}
    (hsel : ∀ d ∈ selected, d ∈ db.deliveries) {e : Execution} (he : e ∈ db.executions)
    (hdigest : e.inputSetDigest = inputSetDigest selected) :
    ∀ d ∈ selected, (⟨e.id, d.targetPortName, d.id⟩ : ExecutionInput) ∈ db.inputs := by
  intro d hd
  have hin : db.work.IsInput e.id d.id := by
    rw [hw.digest e he, hdigest, inputSetDigest, List.map_map]
    exact List.mem_map.2 ⟨d, hd, rfl⟩
  obtain ⟨i, hi, hie, hid⟩ := hin
  obtain ⟨d', hd', hd'id, hport⟩ := hw.inputDelivery i hi
  obtain rfl : d' = d := hw.deliveriesKeyed.eq hd' (hsel d hd) (hd'id.trans hid)
  rwa [show (⟨e.id, d'.targetPortName, d'.id⟩ : ExecutionInput) = i by
    rw [← hie, hport, hd'id]]

/-- Leasing the pending attempt of the execution that the selected deliveries have. -/
theorem resume_schedules (hw : Work.Coherent P placed db.work) {group : GroupKey} {region : Region}
    {selected : List Delivery} (hsel : Work.Selects db.work group selected) {e : Execution}
    (he : e ∈ db.executions) (hrunning : e.status = .running)
    (hexec : isExecutionOf group region (inputSetDigest selected) e) {a : ExecutionAttempt}
    (ha : a ∈ db.attempts) (hae : a.executionId = e.id) (hpending : a.status = .pending)
    {lease : Lease} {k n : ℕ} (hk : db.drawn ≤ k) (hkn : k < n) (htoken : lease.token = P.token k)
    (hlate : late lease.expiresAt) {db₁ db₂ : Db}
    (h₁ : updateAttempts (·.id = a.id) (ExecutionAttempt.under lease now) db₁ = .ok db₂)
    (h₂ : leaseDeliveries selected (some lease) db₂ = .ok db')
    (htables : SameTables db db₁) (hwork : db₁.work = { db.work with drawn := n }) :
    Schedules P allow late db db' := by
  simp only [Db.work, Work.mk.injEq] at hwork
  obtain ⟨hregions, hdeliveries, hexecutions, hinputs, hattempts, hdrawn⟩ := hwork
  have hinert : ∀ b ∈ db₁.attempts, (b.id = a.id : Bool) →
      syncAttemptDeliveryLease db₁.inputs db₁.deliveries b (b.under lease now) =
        .ok db₁.deliveries := by
    intro b _ _
    refine syncAttemptDeliveryLease_of_unused fun l hl d hd => ?_
    obtain rfl : lease = l := Option.some.inj hl
    rw [htoken]
    exact token_unused hw.toLeases hk d (show d ∈ db.deliveries from hdeliveries ▸ hd)
  obtain ⟨rfl, hvalid₁⟩ := (updateAttempts_eq_ok_of_inert hinert).1 h₁
  obtain ⟨rfl, hvalid₂⟩ := updateDeliveries_eq_ok.1 h₂
  simp only [hattempts, hdeliveries] at hvalid₁ hvalid₂
  simp only [isExecutionOf, Bool.and_eq_true, decide_eq_true_eq] at hexec
  refine Schedules.single (htables.trans ⟨rfl, rfl, rfl, rfl⟩) ?_
  have hstep : Work.Step P nowhere allow late db.work _ :=
    Work.Step.resume (show db.drawn ≤ n by omega) hsel ⟨he, hrunning, hexec.2⟩
      ⟨ha, hae, hpending, hvalid₁ a ha (by simp)⟩ ⟨k, hk, hkn, htoken⟩ hlate
      (fun d hd => hvalid₂ d (hsel d hd).1 (by simpa using ⟨d, hd, rfl⟩))
  convert hstep using 1
  simp [Db.work, hregions, hdeliveries, hexecutions, hinputs, hattempts, hdrawn]
  rfl

/-- The work while an operation draws and inserts inputs. -/
theorem work_eq_iff {w : Work} : db.work = w ↔ db.regions = w.regions ∧
    db.deliveries = w.deliveries ∧ db.executions = w.executions ∧ db.inputs = w.inputs ∧
    db.attempts = w.attempts ∧ db.drawn = w.drawn := by
  cases w
  simp [Db.work]

/-- A poll for the execution that the selected deliveries have. -/
theorem leaseExecution_existing (hw : Work.Coherent P placed db.work) {owner : String}
    {expiresAt : Time} (hlate : late expiresAt) {group : GroupKey} {region : Region}
    {selected : List Delivery} (hsel : Work.Selects db.work group selected) {e : Execution}
    (he : e ∈ db.executions) (hrunning : e.status = .running)
    (hexec : isExecutionOf group region (inputSetDigest selected) e)
    {leased : Option LeasedExecutionAttempt}
    (h : leaseExecution P now owner expiresAt group selected e false db = .ok (leased, db')) :
    Polled P allow late now group leased db db' := by
  unfold leaseExecution at h
  obtain ⟨⟨admission, db₁⟩, hreserve, h⟩ := Except.bind_eq_ok.1 h
  obtain ⟨reservations, m, hm, rfl⟩ := reserveInTransaction_frame hreserve
  dsimp only at h
  split at h
  · obtain ⟨db₂, hdefer, h⟩ := Except.bind_eq_ok.1 h
    obtain ⟨rfl, rfl⟩ := Prod.mk.inj (Except.ok.inj h)
    exact Or.inl ⟨rfl, deferGroup_deferred hdefer ⟨rfl, rfl, rfl, rfl⟩ hm rfl⟩
  · obtain ⟨db₂, hinputs, h⟩ := Except.bind_eq_ok.1 h
    obtain ⟨inputs, rfl, -, hsame⟩ := insertInputs_eq_ok hinputs
    have hdigest : e.inputSetDigest = inputSetDigest selected := by
      simp only [isExecutionOf, Bool.and_eq_true, decide_eq_true_eq] at hexec
      exact hexec.2
    obtain rfl := hsame (mem_inputs_of_digest hw (fun d hd => (hsel d hd).1) he hdigest)
    obtain ⟨⟨result, db₃⟩, hattempt, h⟩ := Except.bind_eq_ok.1 h
    rcases leaseAttempt_eq_ok hattempt with
      ⟨a, ha, hae, hpending, rfl, hupdate⟩ | ⟨rfl, rfl, -⟩ | ⟨hnone, -⟩
    · obtain ⟨db₄, hlease, h⟩ := Except.bind_eq_ok.1 h
      obtain ⟨l, -, h⟩ := Except.bind_eq_ok.1 h
      obtain ⟨rfl, rfl⟩ := Prod.mk.inj (Except.ok.inj h)
      refine Or.inr ⟨rfl, ?_⟩
      exact resume_schedules hw hsel he hrunning hexec ha hae hpending
        (show db.drawn ≤ m + selected.length by omega) (Nat.lt_succ_self _) rfl hlate hupdate hlease
        ⟨rfl, rfl, rfl, rfl⟩ (work_eq_iff.2 ⟨rfl, rfl, rfl, rfl, rfl, rfl⟩)
    · obtain ⟨db₄, hdefer, h⟩ := Except.bind_eq_ok.1 h
      obtain ⟨rfl, rfl⟩ := Prod.mk.inj (Except.ok.inj h)
      exact Or.inl ⟨rfl, deferGroup_deferred hdefer ⟨rfl, rfl, rfl, rfl⟩
        (show db.drawn ≤ m + selected.length by omega) (work_eq_iff.2 ⟨rfl, rfl, rfl, rfl, rfl, rfl⟩)⟩
    · obtain ⟨pre, a, hpre, -⟩ := hw.toLeases.split he hrunning
      have ha : a ∈ attemptsOf db.attempts e.id := by
        rw [show attemptsOf db.attempts e.id = pre ++ [a] from hpre]
        simp
      exact absurd (Work.mem_attemptsOf.1 ha).2 (hnone a (Work.mem_attemptsOf.1 ha).1)

/-- A poll that starts an execution. -/
theorem leaseExecution_new (hw : Work.Coherent P placed db.work) {owner : String}
    {expiresAt : Time} (hlate : late expiresAt) {group : GroupKey} {region : Region}
    (hregion : region ∈ db.regions ∧ region.id = group.regionId ∧ region.lifecycleStatus = .running)
    {selected : List Delivery} {leased : Option LeasedExecutionAttempt}
    (hallow : leased.isSome → allow db.work selected)
    (hsel : Work.Selects db.work group selected) {e : Execution}
    (he : IsNewExecution P group region selected db e)
    (h : leaseExecution P now owner expiresAt group selected e true
      { db.draw with executions := db.executions ++ [e] } = .ok (leased, db')) :
    Polled P allow late now group leased db db' := by
  have hfresh : ∀ f ∈ db.executions, f.id ≠ e.id := fun f hf =>
    (hw.executionDrawn f hf).ne (he.id ▸ ⟨db.drawn, le_rfl, Nat.lt_succ_self _, rfl⟩ :
      Work.Drawn P db.drawn (db.drawn + 1) e.id) le_rfl
  have hnone : ∀ a ∈ db.attempts, a.executionId ≠ e.id := fun a ha hae => by
    obtain ⟨f, hf, hid⟩ := hw.attemptExecution a ha
    exact hfresh f hf (hid.trans hae)
  unfold leaseExecution at h
  obtain ⟨⟨admission, db₁⟩, hreserve, h⟩ := Except.bind_eq_ok.1 h
  obtain ⟨reservations, m, hm, rfl⟩ := reserveInTransaction_frame hreserve
  have hm : db.drawn + 1 ≤ m := hm
  dsimp only at h
  split at h
  · obtain ⟨db₂, hdefer, h⟩ := Except.bind_eq_ok.1 h
    obtain ⟨rfl, rfl⟩ := Prod.mk.inj (Except.ok.inj h)
    have hfilter : (db.executions ++ [e]).filter (·.id ≠ e.id) = db.executions := by
      rw [List.filter_append, List.filter_eq_self.2 fun f hf => by simpa using hfresh f hf]
      simp
    refine Or.inl ⟨rfl, deferGroup_deferred hdefer ⟨rfl, rfl, rfl, rfl⟩ (show db.drawn ≤ m by omega)
      (work_eq_iff.2 ⟨rfl, rfl, ?_, rfl, rfl, rfl⟩)⟩
    exact hfilter
  · obtain ⟨db₂, hinputs, h⟩ := Except.bind_eq_ok.1 h
    obtain ⟨inputs, rfl, hmem, -⟩ := insertInputs_eq_ok hinputs
    obtain ⟨⟨result, db₃⟩, hattempt, h⟩ := Except.bind_eq_ok.1 h
    rcases leaseAttempt_eq_ok hattempt with
      ⟨a, ha, hae, -⟩ | ⟨-, -, a, ha, hae⟩ | ⟨-, a, rfl, haid, hae, hnumber, hstatus, hlease, hvalid, rfl⟩
    · exact absurd hae (hnone a ha)
    · exact absurd hae (hnone a ha)
    · obtain ⟨db₄, hlock, h⟩ := Except.bind_eq_ok.1 h
      obtain ⟨l, -, h⟩ := Except.bind_eq_ok.1 h
      obtain ⟨rfl, rfl⟩ := Prod.mk.inj (Except.ok.inj h)
      rw [hlease] at hlock
      obtain ⟨rfl, hvalidDeliveries⟩ := updateDeliveries_eq_ok.1 hlock
      refine Or.inr ⟨rfl, Schedules.single ⟨rfl, rfl, rfl, rfl⟩ ?_⟩
      have hdrawn : ∀ k, db.drawn ≤ k → k < m + selected.length + 2 →
          Work.Drawn P db.drawn (m + selected.length + 2) (P.uuid k) := fun k hk hk' =>
        ⟨k, hk, hk', rfl⟩
      exact Work.Step.start (n := m + selected.length + 2) (show db.drawn ≤ _ by omega) (hallow rfl) hsel
        hregion he.group ⟨he.status, he.epoch, he.digest, by
          obtain ⟨d, hd, -, hid⟩ := he.trigger
          exact ⟨d, hd, hid⟩⟩
        (he.id ▸ hdrawn db.drawn le_rfl (by omega)) ⟨hae, hnumber, hstatus, hlease, hvalid⟩
        (haid ▸ hdrawn (m + selected.length) (by omega) (by omega))
        ⟨m + selected.length + 1, (show db.drawn ≤ _ by omega), by omega, rfl⟩ hlate hmem
        fun d hd => hvalidDeliveries d (hsel d hd).1 (by simpa using ⟨d, hd, rfl⟩)

/-! ## Polls -/

/-- What a poll does with one candidate. -/
theorem tryCandidate_cases (hw : Work.Coherent P placed db.work) {owner : String} {expiresAt : Time}
    (hlate : late expiresAt) {acquired : GroupKey → Bool} {candidate : Delivery}
    {leased : Option LeasedExecutionAttempt}
    (hallow : leased.isSome → ∀ selected, db.Starts now candidate selected → allow db.work selected)
    (h : tryCandidate P now owner expiresAt acquired candidate db = .ok (leased, db')) :
    Polled P allow late now candidate.toGroupKey leased db db' := by
  unfold tryCandidate at h
  dsimp only at h
  split at h
  · obtain ⟨rfl, rfl⟩ := Prod.mk.inj (Except.ok.inj h)
    exact Or.inl ⟨rfl, Deferred.of_work .refl le_rfl rfl⟩
  · rename_i hacquired
    obtain ⟨region, hregion, h⟩ := Except.bind_eq_ok.1 h
    have hregion := takeFirstOrThrow_eq_ok.1 hregion
    split at h
    · obtain ⟨db₁, hdefer, h⟩ := Except.bind_eq_ok.1 h
      obtain ⟨rfl, rfl⟩ := Prod.mk.inj (Except.ok.inj h)
      exact Or.inl ⟨rfl, deferGroup_deferred hdefer ⟨rfl, rfl, rfl, rfl⟩ le_rfl rfl⟩
    · rename_i hrunning
      have hrunning : region.lifecycleStatus = .running := by simpa using hrunning
      obtain ⟨component, hcomponent, h⟩ := Except.bind_eq_ok.1 h
      obtain ⟨revision, hrevision, h⟩ := Except.bind_eq_ok.1 h
      split at h
      · obtain ⟨db₁, hdefer, h⟩ := Except.bind_eq_ok.1 h
        obtain ⟨rfl, rfl⟩ := Prod.mk.inj (Except.ok.inj h)
        exact Or.inl ⟨rfl, deferGroup_deferred hdefer ⟨rfl, rfl, rfl, rfl⟩ le_rfl rfl⟩
      · rename_i selected hselected
        have hselects : db.Selects now candidate selected :=
          ⟨region, component, revision, hregion, hrunning, takeFirstOrThrow_eq_ok.1 hcomponent,
            takeFirstOrThrow_eq_ok.1 hrevision, hselected⟩
        have hsel := selects_of_due (mem_selectGroup hselected).2
        obtain ⟨⟨result, db₁⟩, hensure, hrest⟩ := Except.bind_eq_ok.1 h
        rcases ensureExecution_eq_ok hensure with
          ⟨rfl, rfl⟩ | ⟨e, he, rfl, rfl, herun, hexec⟩ | ⟨e, rfl, rfl, he⟩
        · obtain ⟨db₂, hdefer, hrest⟩ := Except.bind_eq_ok.1 hrest
          obtain ⟨rfl, rfl⟩ := Prod.mk.inj (Except.ok.inj hrest)
          exact Or.inl ⟨rfl, deferGroup_deferred hdefer ⟨rfl, rfl, rfl, rfl⟩ le_rfl rfl⟩
        · exact leaseExecution_existing hw hlate hsel he herun hexec hrest
        · obtain ⟨hmem, hid⟩ := mem_of_find?_key hregion
          exact leaseExecution_new hw hlate ⟨hmem, hid, hrunning⟩
            (fun hsome => hallow hsome selected ⟨hselects, region, hregion, he.unknown⟩) hsel he hrest

/-- Tries that lease nothing, and then others. -/
theorem tryCandidates_append {owner : String} {expiresAt : Time} {acquired : GroupKey → Bool}
    {cs cs' : List Delivery} {db₁ : Db}
    (h : tryCandidates P now owner expiresAt acquired cs db = .ok (none, db₁)) :
    tryCandidates P now owner expiresAt acquired (cs ++ cs') db =
      tryCandidates P now owner expiresAt acquired cs' db₁ := by
  induction cs generalizing db with
  | nil =>
    obtain ⟨-, rfl⟩ := Prod.mk.inj (Except.ok.inj h)
    rfl
  | cons c cs ih =>
    unfold tryCandidates at h
    obtain ⟨⟨leased, db₂⟩, htry, h⟩ := Except.bind_eq_ok.1 h
    cases leased with
    | some leased => simp [pure, Except.pure] at h
    | none =>
      rw [List.cons_append, tryCandidates, htry]
      exact ih h

theorem tryCandidates_schedules (hw : Work.Coherent P placed db.work) {owner : String}
    {expiresAt : Time} (hlate : late expiresAt) {acquired : GroupKey → Bool} (pre : List Delivery)
    {cs : List Delivery} {db₀ : Db} (hpre : tryCandidates P now owner expiresAt acquired pre db₀ = .ok (none, db))
    (hallow : ∀ pre' c post db₁ leased db', pre ++ cs = pre' ++ c :: post →
      tryCandidates P now owner expiresAt acquired pre' db₀ = .ok (none, db₁) →
      tryCandidate P now owner expiresAt acquired c db₁ = .ok (some leased, db') →
      ∀ selected, db₁.Starts now c selected → allow db₁.work selected)
    {leased : Option LeasedExecutionAttempt}
    (h : tryCandidates P now owner expiresAt acquired cs db = .ok (leased, db')) :
    Schedules P allow late db db' := by
  induction cs generalizing db pre with
  | nil =>
    obtain ⟨-, rfl⟩ := Prod.mk.inj (Except.ok.inj h)
    exact Schedules.refl
  | cons c cs ih =>
    unfold tryCandidates at h
    obtain ⟨⟨result, db₁⟩, htry, h⟩ := Except.bind_eq_ok.1 h
    have hstarts : result.isSome → ∀ selected, db.Starts now c selected → allow db.work selected := by
      intro hsome
      obtain ⟨l, rfl⟩ := Option.isSome_iff_exists.1 hsome
      exact hallow pre c cs db l db₁ rfl hpre htry
    rcases tryCandidate_cases hw hlate hstarts htry with
      ⟨rfl, hdeferred⟩ | ⟨hleased, hschedules⟩
    · have hschedules : Schedules P allow late db db₁ := hdeferred.schedules
      have hpre' : tryCandidates P now owner expiresAt acquired (pre ++ [c]) db₀ = .ok (none, db₁) := by
        rw [tryCandidates_append hpre, tryCandidates, htry]
        rfl
      refine hschedules.trans (ih (hschedules.coherent hw) (pre ++ [c]) hpre' ?_ h)
      rwa [List.append_assoc]
    · obtain ⟨l, rfl⟩ := Option.isSome_iff_exists.1 hleased
      obtain ⟨-, rfl⟩ := Prod.mk.inj (Except.ok.inj h)
      exact hschedules

/-- A poll leases an attempt for a candidate, after tries that lease nothing. -/
structure LeasesAt (P : Platform) (now : Time) (options : LeaseNextAttemptOptions)
    (acquired : GroupKey → Bool) (candidate : Delivery) (db db₁ : Db) : Prop where
  tried : ∃ pre post, candidates now options.componentSelectors db = pre ++ candidate :: post ∧
    tryCandidates P now options.workerId (now + options.leaseDurationMs.toNat) acquired pre db =
      .ok (none, db₁)
  leased : ∃ leased db', tryCandidate P now options.workerId
    (now + options.leaseDurationMs.toNat) acquired candidate db₁ = .ok (some leased, db')

/-- A poll refines the steps of the work, and writes no other table. -/
theorem leaseNextAttempt_schedules (hw : Work.Coherent P placed db.work)
    {options : LeaseNextAttemptOptions} {acquired : GroupKey → Bool}
    (hlate : ∀ ms : ℤ, validLeaseDuration ms → late (now + ms.toNat))
    (hallow : ∀ c db₁, LeasesAt P now options acquired c db db₁ →
      ∀ selected, db₁.Starts now c selected → allow db₁.work selected)
    {leased : Option LeasedExecutionAttempt}
    (h : leaseNextAttempt P now options acquired db = .ok (leased, db')) :
    Schedules P allow late db db' := by
  unfold leaseNextAttempt at h
  obtain ⟨⟨⟩, hduration, h⟩ := Except.bind_eq_ok.1 h
  split at h
  · obtain ⟨-, rfl⟩ := Prod.mk.inj (Except.ok.inj h)
    exact Schedules.refl
  · exact tryCandidates_schedules hw (hlate _ (require_eq_ok.1 hduration)) [] rfl
      (fun pre c post db₁ l db' hsplit hpre hc =>
        hallow c db₁ ⟨⟨pre, post, hsplit, hpre⟩, l, db', hc⟩) h

end FactoryFloor
