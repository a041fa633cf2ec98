import FactoryFloor.Refinement

/-!
# Recovery, settling and cancelling refine the steps of the work

An expired attempt is retried or closes its execution (`recoverExpired_schedules`), a region that is
settled and a run that is cancelled cancel their executions (`settleCancelling_schedules`,
`cancelRun_refines`), and there are no orphans once no active attempt has expired
(`releaseOrphans_eq_self`).
-/

namespace FactoryFloor

open Relational

variable {P : Platform} {placed : GroupKey → Prop} {allow : Work → List Delivery → Prop}
variable {late : Time → Prop} {db db' : Db} {now : Time}

/-! ## Expired attempts -/

theorem recoverAttempt_schedules (hw : Work.Coherent P placed db.work) {attempt : ExecutionAttempt}
    {execution : Execution} {region : Region} {recovered : RecoveredAttempt}
    (ha : attempt ∈ db.attempts) (hactive : attempt.status.active) (he : execution ∈ db.executions)
    (hea : execution.id = attempt.executionId)
    (h : recoverAttempt P now attempt execution region db = .ok (recovered, db')) :
    Schedules P allow late db db' := by
  unfold recoverAttempt at h
  obtain ⟨db₁, h₁, h⟩ := Except.bind_eq_ok.1 h
  have hrunning := (hw.toLeases.split_of_mem he ha hea (AttemptStatus.terminal_of_active hactive)).1
  have hids : ∀ d ∈ db.deliveries, decide (d.id ∈ (db.inputDeliveries execution.id).map (·.id)) ↔
      db.work.IsInput attempt.executionId d.id := fun d hd => by
    rw [decide_eq_true_iff, mem_inputDeliveries_ids hd, hea]
  dsimp only at h
  split at h
  · rename_i hretry
    simp only [Bool.and_eq_true, decide_eq_true_eq] at hretry
    obtain ⟨db₂, h₂, h⟩ := Except.bind_eq_ok.1 h
    obtain ⟨db₃, h₃, h⟩ := Except.bind_eq_ok.1 h
    obtain ⟨-, rfl⟩ := Prod.mk.inj (Except.ok.inj h)
    exact retry_schedules hw ha hactive he hea hretry.2 h₁ h₂ h₃ rfl hids
      ⟨fun _ => rfl⟩ fun _ => rfl
  · obtain ⟨db₂, h₂, h⟩ := Except.bind_eq_ok.1 h
    obtain ⟨db₃, h₃, h⟩ := Except.bind_eq_ok.1 h
    obtain ⟨-, rfl⟩ := Prod.mk.inj (Except.ok.inj h)
    exact close_schedules hw ha hactive he hea h₁ h₂ h₃ rfl
      ⟨fun _ => rfl, fun _ => rfl, fun _ _ => rfl, fun _ => rfl, fun _ => rfl⟩ (fun _ => rfl) hids
      ⟨fun _ => rfl⟩ fun _ => rfl

/-- The transaction of one expired attempt. -/
theorem recoverExpired_schedules (hw : Work.Coherent P placed db.work) {attemptId : Uuid}
    {recovered : RecoveredAttempt}
    (h : recoverExpired P now attemptId db = .ok (recovered, db')) :
    Schedules P allow late db db' := by
  unfold recoverExpired at h
  split at h
  · obtain ⟨-, rfl⟩ := Prod.mk.inj (Except.ok.inj h)
    exact Schedules.refl
  · rename_i attempt hattempt
    obtain ⟨execution, hexecution, h⟩ := Except.bind_eq_ok.1 h
    obtain ⟨region, -, h⟩ := Except.bind_eq_ok.1 h
    obtain ⟨hattempt, hexpired⟩ := Option.filter_eq_some_iff.1 hattempt
    simp only [expired, Bool.and_eq_true] at hexpired
    obtain ⟨he, hid⟩ := mem_of_find?_key (takeFirstOrThrow_eq_ok.1 hexecution)
    exact recoverAttempt_schedules hw (mem_of_find?_key hattempt).1 hexpired.1 he hid h

/-! ## Orphans -/

/-- A leased delivery is held by an active attempt, so it is no orphan unless the attempt has
expired. -/
theorem releaseOrphans_eq_self (hw : Work.Coherent P placed db.work)
    (hnone : ∀ a ∈ db.attempts, ¬expired now a) (h : releaseOrphans now db = .ok db') :
    db' = db := by
  obtain ⟨rfl, -⟩ := updateDeliveries_eq_ok.1 h
  have hself : updateWhere (orphaned now db)
      (fun d => { d with status := .ready, availableAt := now, lease := none }) db.deliveries =
      db.deliveries := by
    refine updateWhere_eq_self fun d hd horphan => ?_
    simp only [orphaned, Bool.and_eq_true, decide_eq_true_eq] at horphan
    obtain ⟨a, ha, hactive, hinput⟩ := hw.owned d hd horphan.1.1
    have hlease := (hw.held a ha hactive d hd hinput).2
    refine hnone a ha ?_
    rw [expired, Bool.and_eq_true]
    exact ⟨hactive, hlease ▸ horphan.1.2⟩
  rw [hself]

/-! ## Cancellation -/

/-- A recorded execution runs, unless it is closed. -/
theorem running_of_open (hL : Work.Leases P db.work) {e : Execution} (he : e ∈ db.executions) :
    e.status = .running ↔ e.status.terminal = false := by
  constructor
  · intro h
    rw [h]
    rfl
  · intro h
    rcases (hL.discipline e he).settled with hrun | hclosed
    · exact hrun
    · exact absurd hclosed (by simp [historyOf, h])

theorem open_iff {s : AttemptStatus} : s.terminal = false ↔ s = .pending ∨ s.active = true := by
  cases s <;> simp [AttemptStatus.terminal, AttemptStatus.active]

theorem open_delivery_iff {s : DeliveryStatus} : s.terminal = false ↔ s = .ready ∨ s = .leased := by
  cases s <;> simp [DeliveryStatus.terminal]

/-- The three updates of a cancellation : of the attempts, executions and deliveries of some
executions that are not terminal. -/
theorem cancel_schedules {db₁ db₂ db₃ : Db} {R : Uuid → Prop} {p : ExecutionAttempt → Bool}
    {q : Execution → Bool} {r : Delivery → Bool} {g : Execution → Execution}
    {f : Delivery → Delivery}
    (h₁ : updateAttempts p (closeAttempt .cancelled now none) db = .ok db₁)
    (h₂ : updateExecutions q g db₁ = .ok db₂) (h₃ : updateDeliveries r f db₂ = .ok db₃)
    (hp : ∀ a ∈ db.attempts, p a ↔ a.status.terminal = false ∧ R a.executionId)
    (hq : ∀ e ∈ db.executions, q e ↔ e.status.terminal = false ∧ R e.id)
    (hr : ∀ d ∈ db.deliveries, ∀ e ∈ db.executions, db.work.IsInput e.id d.id →
      (r d ↔ d.status.terminal = false ∧ R e.id))
    (hg : Execution.Moves g) (hclosed : ∀ e, (g e).status.terminal) (hf : Delivery.Moves f)
    (hterminal : ∀ d, (f d).status.terminal) : Schedules P allow late db db₃ := by
  obtain ⟨rfl, hvalid₁⟩ := (updateAttempts_eq_ok_of_closed fun _ => rfl).1 h₁
  obtain ⟨rfl, -⟩ := updateExecutions_eq_ok.1 h₂
  obtain ⟨rfl, hvalid₃⟩ := updateDeliveries_eq_ok.1 h₃
  exact Schedules.single ⟨rfl, rfl, rfl, rfl⟩
    (Work.Step.cancel hp hq hr hg hclosed hf hterminal hvalid₁ hvalid₃)

/-- The transaction that settles a cancelling region. -/
theorem settleCancelling_schedules (hw : Work.Coherent P placed db.work) {regionId : Uuid}
    (h : settleCancelling now regionId db = .ok db') : Schedules P allow late db db' := by
  unfold settleCancelling at h
  split at h
  · obtain rfl := Except.ok.inj h
    exact Schedules.refl
  · rename_i region hregion
    obtain ⟨hregion, -⟩ := Option.filter_eq_some_iff.1 hregion
    obtain ⟨hmem, -⟩ := mem_of_find?_key hregion
    obtain ⟨db₁, h₁, h⟩ := Except.bind_eq_ok.1 h
    obtain ⟨db₂, h₂, h⟩ := Except.bind_eq_ok.1 h
    obtain ⟨db₃, h₃, h⟩ := Except.bind_eq_ok.1 h
    obtain ⟨regions, h₄, h⟩ := Except.bind_eq_ok.1 h
    obtain rfl := Except.ok.inj h
    have hin : ∀ e ∈ db.executions,
        (∃ f ∈ db.executions, f.id = e.id ∧ f.regionId = region.id) ↔ e.regionId = region.id := by
      intro e he
      constructor
      · rintro ⟨f, hf, hid, hr⟩
        rwa [← hw.executionsKeyed.eq hf he hid]
      · exact fun hr => ⟨e, he, rfl, hr⟩
    have hcancel : Schedules P allow late db db₃ := by
      refine cancel_schedules (R := fun id => ∃ f ∈ db.executions, f.id = id ∧ f.regionId = region.id)
        h₁ h₂ h₃ ?_ ?_ ?_
        ⟨fun _ => rfl, fun _ => rfl, fun _ _ => rfl, fun _ => rfl, fun _ => rfl⟩ (fun _ => rfl)
        ⟨fun _ => rfl⟩ (fun _ => rfl)
      · intro a _
        simp [executionIn, open_iff]
      · intro e he
        rw [hin e he, ← running_of_open hw.toLeases he]
        simp [and_comm]
      · intro d hd e he hi
        obtain ⟨c, hgroup⟩ := hw.group e he
        have hdr : d.regionId = e.regionId := congrArg GroupKey.regionId (hgroup d hd hi)
        rw [hin e he, open_delivery_iff, ← hdr]
        simp [and_comm]
    have hregions : db₃.regions = db.regions := by
      obtain ⟨rfl, -⟩ := (updateAttempts_eq_ok_of_closed fun _ => rfl).1 h₁
      obtain ⟨rfl, -⟩ := updateExecutions_eq_ok.1 h₂
      obtain ⟨rfl, -⟩ := updateDeliveries_eq_ok.1 h₃
      rfl
    obtain ⟨rfl, -⟩ := update_eq_ok.1 (sql_eq_ok.1 h₄)
    have hmoves : Region.Moves fun r => { r with
        lifecycleStatus := .cancelled, lifecycleEpoch := region.lifecycleEpoch + 1 } :=
      ⟨fun _ => rfl, fun _ => rfl, fun _ => rfl⟩
    refine hcancel.trans (Schedules.single ⟨rfl, rfl, rfl, rfl⟩
      (Work.Step.moveRegions hmoves (fun _ => by simp) fun r hr hid => ?_))
    have hr : r ∈ db.regions := hregions ▸ hr
    obtain rfl : r = region := hw.regionsKeyed.eq hr hmem (by simpa using hid)
    exact Nat.le_succ _

/-! ## Runs -/

theorem mem_runExecutions {run : Command} {e : Execution} :
    e ∈ runExecutions run db ↔
      e ∈ db.executions ∧ ∃ d ∈ db.deliveries, ofRun run d ∧ d.id = e.deliveryId := by
  simp [runExecutions]

/-- An input of a recorded execution belongs to a run exactly when the execution does. -/
theorem ofRun_input (hw : Work.Coherent P placed db.work) {run : Command} {e : Execution}
    (he : e ∈ db.executions) {d : Delivery} (hd : d ∈ db.deliveries)
    (hi : db.work.IsInput e.id d.id) : ofRun run d ↔ e ∈ runExecutions run db := by
  obtain ⟨c, hgroup⟩ := hw.group e he
  have hrun : ∀ d' ∈ db.deliveries, db.work.IsInput e.id d'.id → (ofRun run d' ↔ ofRun run d) := by
    intro d' hd' hi'
    have heq := (hgroup d' hd' hi').trans (hgroup d hd hi).symm
    rw [ofRun, ofRun, heq]
  rw [mem_runExecutions]
  constructor
  · intro h
    obtain ⟨i, hi', hie, hid⟩ := hw.trigger e he
    obtain ⟨d', hd', hd'id, -⟩ := hw.inputDelivery i hi'
    have htrigger : d'.id = e.deliveryId := hd'id.trans hid
    exact ⟨he, d', hd', (hrun d' hd' (htrigger ▸ hw.trigger e he)).2 h, htrigger⟩
  · rintro ⟨-, d', hd', h, hid⟩
    exact (hrun d' hd' (hid ▸ hw.trigger e he)).1 h

/-- The three updates of `cancelRun`, on the rows the run has in the same work. -/
theorem cancelRows_schedules {before : Db} (hw : Work.Coherent P placed db.work)
    (hattempts : before.attempts = db.attempts) (hexecutions : before.executions = db.executions)
    (hdeliveries : before.deliveries = db.deliveries) {run : Command}
    (h : cancelRows now run before db = .ok db') : Schedules P allow late db db' := by
  have hrunExecutions : runExecutions run before = runExecutions run db := by
    rw [runExecutions, runExecutions, hexecutions, hdeliveries]
  have hrunAttempts : runAttempts run before = runAttempts run db := by
    rw [runAttempts, runAttempts, hattempts, hrunExecutions]
  unfold cancelRows at h
  rw [hrunExecutions, hrunAttempts, hdeliveries] at h
  obtain ⟨db₁, h₁, h⟩ := Except.bind_eq_ok.1 h
  obtain ⟨db₂, h₂, h⟩ := Except.bind_eq_ok.1 h
  have hin : ∀ e ∈ db.executions,
      (∃ f ∈ runExecutions run db, f.id = e.id) ↔ e ∈ runExecutions run db := by
    intro e he
    constructor
    · rintro ⟨f, hf, hid⟩
      rwa [← hw.executionsKeyed.eq (mem_runExecutions.1 hf).1 he hid]
    · exact fun h => ⟨e, h, rfl⟩
  refine cancel_schedules (R := fun id => ∃ e ∈ runExecutions run db, e.id = id) h₁ h₂ h
    ?_ ?_ ?_ ⟨fun _ => rfl, fun _ => rfl, fun _ _ => rfl, fun _ => rfl, fun _ => rfl⟩
    (fun _ => rfl) ⟨fun _ => rfl⟩
    (fun _ => rfl)
  · intro a ha
    rw [decide_eq_true_iff, List.mem_map]
    constructor
    · rintro ⟨b, hb, hid⟩
      obtain ⟨hb, hopen⟩ := List.mem_filter.1 hb
      obtain ⟨hb, hrun⟩ := List.mem_filter.1 hb
      obtain rfl : b = a := hw.attemptsKeyed.eq hb ha hid
      exact ⟨by simpa using hopen, by simpa using hrun⟩
    · rintro ⟨hopen, hrun⟩
      exact ⟨a, List.mem_filter.2 ⟨List.mem_filter.2 ⟨ha, by simpa using hrun⟩, by simp [hopen]⟩, rfl⟩
  · intro e he
    rw [hin e he, decide_eq_true_iff, List.mem_map]
    constructor
    · rintro ⟨f, hf, hid⟩
      obtain ⟨hf, hopen⟩ := List.mem_filter.1 hf
      obtain rfl : f = e := hw.executionsKeyed.eq (mem_runExecutions.1 hf).1 he hid
      exact ⟨by simpa using hopen, hf⟩
    · rintro ⟨hopen, hrun⟩
      exact ⟨e, List.mem_filter.2 ⟨hrun, by simp [hopen]⟩, rfl⟩
  · intro d hd e he hi
    rw [hin e he, ← ofRun_input hw he hd hi, decide_eq_true_iff, List.mem_map]
    constructor
    · rintro ⟨d', hd', hid⟩
      obtain ⟨hd', hsel⟩ := List.mem_filter.1 hd'
      obtain rfl : d' = d := hw.deliveriesKeyed.eq hd' hd hid
      simpa [and_comm] using hsel
    · rintro ⟨hopen, hrun⟩
      exact ⟨d, List.mem_filter.2 ⟨hd, by simp [hopen, hrun]⟩, rfl⟩

end FactoryFloor
