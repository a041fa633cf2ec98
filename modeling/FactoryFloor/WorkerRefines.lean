import FactoryFloor.Publication
import FactoryFloor.RecoveryRefines
import FactoryFloor.SchedulerRefines

/-!
# The other operations

A heartbeat extends one lease, and the trigger carries it to the deliveries of the attempt. A
submitted command and a cancellation append their rows and are quiet, and so are the writes of
artifacts and submissions.
-/

namespace FactoryFloor

open Relational

variable {P : Platform} {placed : GroupKey → Prop} {allow : Work → List Delivery → Prop}
variable {late : Time → Prop} {db db' : Db} {now : Time}

/-! ## Heartbeats -/

/-- What a request of an active attempt finds. -/
theorem activeAttempt_eq_ok {input : AttemptIdentity} {row : ActiveAttemptRow}
    (h : activeAttempt now input db = .ok row) :
    row.attempt ∈ db.attempts ∧ row.attempt.id = input.attemptId ∧
      row.attempt.executionId = input.executionId ∧ row.attempt.status.active = true ∧
      row.attempt.lease.map (·.token) = some input.leaseToken ∧
      db.execution? input.executionId = some row.execution := by
  unfold activeAttempt at h
  split at h
  · simp at h
  · rename_i attempt execution region hrow
    obtain ⟨⟨⟩, hactive, h⟩ := Except.bind_eq_ok.1 h
    obtain ⟨⟨⟩, htoken, h⟩ := Except.bind_eq_ok.1 h
    obtain ⟨⟨⟩, -, h⟩ := Except.bind_eq_ok.1 h
    split at h
    · simp at h
    · obtain rfl := Except.ok.inj h
      obtain ⟨a, ha, hjoin⟩ := Option.bind_eq_some_iff.1 hrow
      obtain ⟨e, he, hjoin⟩ := Option.bind_eq_some_iff.1 hjoin
      obtain ⟨r, -, hjoin⟩ := Option.map_eq_some_iff.1 hjoin
      simp only [Prod.mk.injEq] at hjoin
      obtain ⟨rfl, rfl, rfl⟩ := hjoin
      have hid := List.find?_some ha
      simp only [Bool.and_eq_true, decide_eq_true_eq] at hid
      exact ⟨List.mem_of_find?_eq_some ha, hid.1, hid.2, require_eq_ok.1 hactive,
        by simpa using require_eq_ok.1 htoken, hid.2 ▸ he⟩

/-- The trigger carries an extended lease to the inputs of its attempt. -/
theorem syncAttemptDeliveryLease_extend (hw : Work.Coherent P placed db.work)
    {a : ExecutionAttempt} (ha : a ∈ db.attempts) (hactive : a.status.active) {lease : Lease}
    (hlease : a.lease = some lease) {t : Time} {deliveries : List Delivery}
    (h : syncAttemptDeliveryLease db.inputs db.deliveries a (extendLease t a) = .ok deliveries) :
    deliveries = db.deliveries ∧ extendLease t a = a ∨ ∃ p : Delivery → Bool,
      deliveries = updateWhere p (Delivery.extend lease t) db.deliveries ∧
      (∀ d ∈ db.deliveries, p d ↔ db.work.IsInput a.executionId d.id) ∧
      ∀ d ∈ db.deliveries, p d → Row.violation (d.extend lease t) = none := by
  unfold syncAttemptDeliveryLease at h
  simp only [extendLease, hlease, Option.map_some, AttemptStatus.active, Bool.true_and] at h
  split at h
  · obtain ⟨rfl, hvalid⟩ := update_eq_ok.1 h
    refine Or.inr ⟨_, rfl, fun d hd => ?_, hvalid⟩
    simp only [Bool.and_eq_true, List.any_eq_true, decide_eq_true_eq]
    constructor
    · rintro ⟨⟨⟨i, hi, hie, hid⟩, -⟩, -⟩
      exact ⟨i, hi, hie, hid⟩
    · rintro ⟨i, hi, hie, hid⟩
      obtain ⟨hleased, hheld⟩ := hw.held a ha hactive d hd ⟨i, hi, hie, hid⟩
      exact ⟨⟨⟨i, hi, hie, hid⟩, hleased⟩, by rw [hheld, hlease]; rfl⟩
  · rename_i hsame
    simp only [ne_eq, decide_not, Bool.or_eq_true, Bool.not_eq_true', decide_eq_false_iff_not,
      not_or, not_not, Option.some.injEq] at hsame
    refine Or.inl ⟨(Except.ok.inj h).symm, ?_⟩
    rw [extendLease, ← hsame.1.1, ← hsame.2, hlease]
    simp only [Option.map_some]
    rw [← hlease]

/-- A heartbeat extends the lease of its attempt. -/
theorem heartbeat_schedules (hw : Work.Coherent P placed db.work) {leaseDurationMs : Time}
    (hlate : late (now + leaseDurationMs)) {input : AttemptIdentityInput} {reply : HeartbeatReply}
    (h : heartbeat now leaseDurationMs input db = .ok (reply, db')) :
    Schedules P allow late db db' := by
  unfold heartbeat at h
  obtain ⟨attempt, -, h⟩ := Except.bind_eq_ok.1 h
  obtain ⟨row, hrow, h⟩ := Except.bind_eq_ok.1 h
  obtain ⟨db₁, hupdate, h⟩ := Except.bind_eq_ok.1 h
  obtain ⟨-, rfl⟩ := Prod.mk.inj (Except.ok.inj h)
  obtain ⟨ha, hid, hexec, hactive, htoken, -⟩ := activeAttempt_eq_ok hrow
  obtain ⟨lease, hlease, -⟩ := Option.map_eq_some_iff.1 htoken
  have hmem : ∀ b ∈ db.attempts, isAttempt attempt b ↔ b.id = row.attempt.id := by
    intro b hb
    simp only [isAttempt, Bool.and_eq_true, decide_eq_true_eq]
    constructor
    · exact fun hsel => hsel.1.1.trans hid.symm
    · intro hbid
      obtain rfl := hw.attemptsKeyed.eq hb ha hbid
      exact ⟨⟨hid, hexec⟩, htoken⟩
  have hone : db.attempts.filter (isAttempt attempt) = [row.attempt] :=
    hw.attemptsKeyed.filter_eq_singleton ha hmem
  obtain ⟨deliveries, htrigger, rfl, hvalid⟩ := updateAttempts_eq_ok.1 hupdate
  have hattempts : updateWhere (isAttempt attempt) (extendLease (now + leaseDurationMs)) db.attempts =
      updateWhere (·.id = row.attempt.id) (extendLease (now + leaseDurationMs)) db.attempts := by
    refine List.map_congr_left fun b hb => ?_
    have := hmem b hb
    by_cases hbid : b.id = row.attempt.id <;> simp_all
  rw [hone, List.foldlM_cons] at htrigger
  obtain ⟨ds, hsync, hrest⟩ := Except.bind_eq_ok.1 htrigger
  obtain rfl : ds = deliveries := Except.ok.inj hrest
  rw [hattempts]
  rcases syncAttemptDeliveryLease_extend hw ha hactive hlease hsync with
    ⟨rfl, hself⟩ | ⟨p, rfl, hp, hdeliveries⟩
  · have hkeep : updateWhere (·.id = row.attempt.id) (extendLease (now + leaseDurationMs)) db.attempts =
        db.attempts := by
      rw [updateWhere, List.map_congr_left (g := id) fun b hb => ?_, List.map_id]
      by_cases hbid : b.id = row.attempt.id
      · obtain rfl := hw.attemptsKeyed.eq hb ha hbid
        simp [hself]
      · simp [hbid]
    rw [hkeep]
    exact Schedules.refl
  · exact Schedules.single ⟨rfl, rfl, rfl, rfl⟩ (Work.Step.extend
      ⟨ha, hactive, hlease, hvalid _ ha ((hmem _ ha).2 rfl)⟩ hlate hp hdeliveries)

/-! ## Commands -/

/-- A recorded command routes its deliveries. -/
theorem RecordsCommand.refines {command : Command} (h : RecordsCommand P now command db db')
    (hplaced : ∀ r ∈ db.regions, ∀ v ∈ db.revisions, r.activeTopologyRevisionId = some v.id →
      ∀ c ∈ db.components, c.topologyRevisionId = v.id → ∀ correlationId,
        placed ⟨r.id, v.id, c.id, correlationId⟩) :
    Refines P placed allow late db db' := by
  obtain ⟨event, streams, new, n, hn, -, -, rfl, hkeyed, hnew⟩ := h
  refine Refines.single rfl rfl (Work.Step.route (w := db.work) (n := n)
    ((Nat.le_add_right _ 2).trans hn) (fun d hd => ?_) hkeyed)
  obtain ⟨r, hr, hrid, v, hv, hactive, c, hc, hcv, portName, k, hk, hk', rfl⟩ := hnew d hd
  refine ⟨rfl, routed_valid _ _ _ _, ?_, k, (Nat.le_add_right _ 2).trans hk, hk', rfl⟩
  have := hplaced r hr v hv hactive c hc hcv command.correlationId
  rwa [hrid] at this

theorem RecordsCommand.quiet {command : Command} (h : RecordsCommand P now command db db') :
    Quiet P db db' := by
  obtain ⟨event, streams, new, n, -, hsource, -, rfl, -, hnew⟩ := h
  refine ⟨rfl, rfl, rfl, rfl, ⟨[event], rfl, ?_⟩, ⟨new.map Delivery.asRouted, ?_, ?_⟩, rfl,
    fun _ _ => Iff.rfl, id, fun _ h => Or.inl h⟩
  · intro e he
    rw [List.mem_singleton.1 he, hsource]
    rfl
  · exact List.map_append
  · intro d hd
    obtain ⟨d₀, hd₀, rfl⟩ := List.mem_map.1 hd
    obtain ⟨r, -, -, v, -, -, c, -, -, portName, k, -, -, rfl⟩ := hnew d₀ hd₀
    exact ⟨command.id, rfl⟩

variable (allow late) in
/-- A cancellation changes nothing, or it appends its command and event and then only schedules. -/
theorem cancelRun_eq_ok (hw : Work.Coherent P placed db.work) {context : OperatorContext}
    {runId : Uuid} {input : RunCancellationRequest} {receipt : CancellationReceipt}
    (h : cancelRun P now context runId input db = .ok (receipt, db')) :
    db' = db ∨ ∃ commands streams event, event.source.attemptId? = none ∧
      Schedules P allow late
        { ({ db.draw with commands } : Db).draw with streams, events := db.events ++ [event] } db' := by
  unfold cancelRun at h
  obtain ⟨_, -, h⟩ := Except.bind_eq_ok.1 h
  obtain ⟨_, -, h⟩ := Except.bind_eq_ok.1 h
  obtain ⟨reason, -, h⟩ := Except.bind_eq_ok.1 h
  dsimp only at h
  split at h
  · simp at h
  · rename_i run hrun
    obtain ⟨_, -, h⟩ := Except.bind_eq_ok.1 h
    split at h
    · obtain ⟨_, -, h⟩ := Except.bind_eq_ok.1 h
      exact Or.inl (Prod.mk.inj (Except.ok.inj h)).2.symm
    · obtain ⟨_, -, h⟩ := Except.bind_eq_ok.1 h
      obtain ⟨commands, -, h⟩ := Except.bind_eq_ok.1 h
      obtain ⟨⟨event, db₁⟩, hevent, h⟩ := Except.bind_eq_ok.1 h
      obtain ⟨db₂, hcancel, h⟩ := Except.bind_eq_ok.1 h
      obtain ⟨-, rfl⟩ := Prod.mk.inj (Except.ok.inj h)
      obtain ⟨n, payload, -, heq, -, streams, rfl⟩ := insertEvent_eq_ok hevent
      have hrecord : Refines P placed allow late db
          { ({ db.draw with commands } : Db).draw with streams, events := db.events ++ [event] } :=
        Refines.of_work rfl rfl (Nat.le_add_right db.drawn 2) rfl
      exact Or.inr ⟨commands, streams, event, by rw [heq]; rfl,
        cancelRows_schedules (hrecord.coherent hw) rfl rfl rfl hcancel⟩

theorem cancelRun_refines (hw : Work.Coherent P placed db.work) {context : OperatorContext}
    {runId : Uuid} {input : RunCancellationRequest} {receipt : CancellationReceipt}
    (h : cancelRun P now context runId input db = .ok (receipt, db')) :
    Refines P placed allow late db db' ∧ Quiet P db db' := by
  rcases cancelRun_eq_ok allow late hw h with
    rfl | ⟨commands, streams, event, hsource, hschedules⟩
  · exact ⟨Refines.refl, Quiet.refl⟩
  · have hrecord : Refines P placed allow late db
        { ({ db.draw with commands } : Db).draw with streams, events := db.events ++ [event] } :=
      Refines.of_work rfl rfl (Nat.le_add_right db.drawn 2) rfl
    refine ⟨hrecord.trans hschedules.refines, Quiet.schedules ?_ hschedules⟩
    exact ⟨rfl, rfl, rfl, rfl, ⟨[event], rfl, by simpa using hsource⟩, ⟨[], by simp [Db.draw], by simp⟩,
      rfl, fun _ _ => Iff.rfl, id, fun _ h => Or.inl h⟩

/-! ## Regions -/

/-- A request to cancel moves regions out of `running`. -/
theorem requestCancellation_schedules (regionId : Uuid) (epoch : ℕ) (db : Db) :
    Schedules P allow late db (requestCancellation regionId epoch db) :=
  Schedules.single ⟨rfl, rfl, rfl, rfl⟩ (Work.Step.moveRegions
    ⟨fun _ => rfl, fun _ => rfl, fun _ => rfl⟩ (fun _ => by simp) fun _ _ _ => le_max_left _ _)

/-! ## Artifacts and submissions -/

/-- An operation outside the tables of scheduling. It is quiet, and at most draws. -/
structure Aside (P : Platform) (db db' : Db) : Prop where
  quiet : Quiet P db db'
  catalog : db'.toCatalog = db.toCatalog
  scheduling : db'.toScheduling = db.toScheduling
  drawn : db.drawn ≤ db'.drawn

theorem Aside.refl : Aside P db db :=
  ⟨Quiet.refl, rfl, rfl, le_rfl⟩

/-- An operation outside the tables of scheduling that leaves the external actions alone. -/
structure Still (P : Platform) (db db' : Db) : Prop extends Aside P db db' where
  actions : db'.actions = db.actions

theorem Still.refl : Still P db db :=
  ⟨Aside.refl, rfl⟩

theorem Aside.refines (h : Aside P db db') : Refines P placed allow late db db' :=
  Refines.of_work h.catalog (by rw [h.scheduling]) h.drawn (by simp [Db.work, h.scheduling])

theorem stage_still {leaseDurationMs : Time} {input : StageInput} {stagedRef : Uuid}
    (h : stage P now leaseDurationMs input db = .ok (stagedRef, db')) : Still P db db' := by
  unfold stage at h
  obtain ⟨attempt, -, h⟩ := Except.bind_eq_ok.1 h
  obtain ⟨active, -, h⟩ := Except.bind_eq_ok.1 h
  split at h
  · simp at h
  · obtain ⟨uploads, -, h⟩ := Except.bind_eq_ok.1 h
    obtain ⟨-, rfl⟩ := Prod.mk.inj (Except.ok.inj h)
    exact ⟨⟨⟨rfl, rfl, rfl, rfl, ⟨[], by simp [Db.draw], by simp⟩, ⟨[], by simp [Db.draw], by simp⟩,
      rfl, fun _ _ => Iff.rfl, id, fun _ h => Or.inl h⟩, rfl, rfl, Nat.le_add_right _ 2⟩, rfl⟩

theorem recordUpload_still {stagedRef : Uuid} {input : AttemptIdentityInput} {digest : Digest}
    {sizeBytes : ℕ} (h : recordUpload P now stagedRef input digest sizeBytes db = .ok db') :
    Still P db db' := by
  unfold recordUpload at h
  obtain ⟨attempt, -, h⟩ := Except.bind_eq_ok.1 h
  obtain ⟨active, -, h⟩ := Except.bind_eq_ok.1 h
  split at h
  · simp at h
  · obtain ⟨staging, -, h⟩ := Except.bind_eq_ok.1 h
    obtain ⟨staged, -, h⟩ := Except.bind_eq_ok.1 h
    obtain ⟨_, -, h⟩ := Except.bind_eq_ok.1 h
    obtain ⟨uploads, -, h⟩ := Except.bind_eq_ok.1 h
    obtain rfl := Except.ok.inj h
    exact ⟨⟨⟨rfl, rfl, rfl, rfl, ⟨[], by simp [Db.draw], by simp⟩, ⟨[], by simp [Db.draw], by simp⟩,
      rfl, fun _ _ => Iff.rfl, id, fun _ h => Or.inl h⟩, rfl, rfl, Nat.le_add_right _ 1⟩, rfl⟩

/-- A hand-off finds the submission of its content, or it appends one for the active attempt. -/
theorem handoff_eq_ok {input : ProposedResultInput} {duplicate : Bool}
    (h : handoff P now input db = .ok (duplicate, db')) :
    ∃ result, commitInput input = .ok result ∧
      (duplicate = true ∧ db' = db ∧ (∃ s, db.submission? result.attemptId = some s ∧
          s.submissionDigest = submissionDigestOf P input) ∨
        duplicate = false ∧ db.submission? result.attemptId = none ∧ (∃ a ∈ db.attempts,
          a.id = result.attemptId ∧ a.executionId = result.executionId ∧ a.status.active = true) ∧
        db' = { db.draw with submissions := db.submissions ++
          [{ id := P.uuid db.drawn, executionId := result.executionId,
             attemptId := result.attemptId, submissionDigest := submissionDigestOf P input, result,
             createdAt := now, committedAt := none }] }) := by
  unfold handoff at h
  obtain ⟨result, hresult, h⟩ := Except.bind_eq_ok.1 h
  refine ⟨result, hresult, ?_⟩
  dsimp only at h
  split at h
  · rename_i existing hexisting
    obtain ⟨⟨⟩, hdigest, h⟩ := Except.bind_eq_ok.1 h
    obtain ⟨rfl, rfl⟩ := Prod.mk.inj (Except.ok.inj h)
    exact Or.inl ⟨rfl, rfl, existing, hexisting, by simpa using hdigest⟩
  · rename_i hnone
    obtain ⟨submissions, hinsert, h⟩ := Except.bind_eq_ok.1 h
    obtain ⟨rfl, -, -⟩ := insert_eq_ok.1 (sql_eq_ok.1 hinsert)
    obtain ⟨row, hrow, h⟩ := Except.bind_eq_ok.1 h
    obtain ⟨_, -, h⟩ := Except.bind_eq_ok.1 h
    obtain ⟨rfl, rfl⟩ := Prod.mk.inj (Except.ok.inj h)
    obtain ⟨ha, hid, hexec, hactive, -⟩ := activeAttempt_eq_ok hrow
    exact Or.inr ⟨rfl, hnone, ⟨row.attempt, ha, hid, hexec, hactive⟩, rfl⟩

theorem handoff_still {input : ProposedResultInput} {duplicate : Bool}
    (h : handoff P now input db = .ok (duplicate, db')) : Still P db db' := by
  obtain ⟨result, hresult, ⟨-, rfl, -⟩ | ⟨-, hnone, ⟨a, ha, hid, hexec, -⟩, rfl⟩⟩ :=
    handoff_eq_ok h
  · exact Still.refl
  · refine ⟨⟨⟨rfl, rfl, rfl, rfl, ⟨[], by simp [Db.draw], by simp⟩,
      ⟨[], by simp [Db.draw], by simp⟩, rfl, fun s hs => ?_, fun hk => hk.append fun s hs hid => ?_,
      fun r hr => ?_⟩, rfl, rfl, Nat.le_add_right _ 1⟩, rfl⟩
    · simp only [List.mem_append, List.mem_singleton, or_iff_left_iff_imp]
      rintro rfl
      simp at hs
    · have := List.find?_eq_none.1 hnone s hs
      simp [hid] at this
    · rcases List.mem_append.1 hr with hr | hr
      · exact Or.inl hr
      · rw [List.mem_singleton.1 hr]
        exact Or.inr ⟨⟨⟨input, hresult, rfl⟩, rfl, rfl⟩, a, ha, hid, hexec⟩

/-- The deletion of a rejected submission keeps the committed ones. -/
theorem deleteSubmission_still (attemptId : Uuid) (submissionDigest : Digest) (db : Db) :
    Still P db (deleteSubmission attemptId submissionDigest db) := by
  refine ⟨⟨⟨rfl, rfl, rfl, rfl, ⟨[], by simp [deleteSubmission], by simp⟩,
    ⟨[], by simp [deleteSubmission], by simp⟩, rfl, fun s hs => ?_, fun hk => ?_,
    fun r hr => Or.inl (List.mem_filter.1 hr).1⟩, rfl, rfl, le_rfl⟩, rfl⟩
  · rw [deleteSubmission, List.mem_filter, and_iff_left_iff_imp]
    intro _
    cases hc : s.committedAt <;> simp_all
  · exact hk.sublist (List.filter_sublist.map _)

/-- A write of another service that moves no external action leaves the actions alone. -/
theorem maintain_actions {write : Maintenance} (h : maintain write db = .ok db')
    (hmoves : ∀ actionId status, write ≠ .moveAction actionId status) : db'.actions = db.actions := by
  cases write with
  | promote | abandonStaging | tombstone =>
    obtain ⟨_, -, h⟩ := Except.bind_eq_ok.1 h
    obtain rfl := Except.ok.inj h
    rfl
  | moveAction actionId status => exact absurd rfl (hmoves actionId status)

theorem maintain_aside {write : Maintenance} (h : maintain write db = .ok db') : Aside P db db' := by
  cases write with
  | promote | abandonStaging =>
    obtain ⟨staging, -, h⟩ := Except.bind_eq_ok.1 h
    obtain rfl := Except.ok.inj h
    exact ⟨⟨rfl, rfl, rfl, rfl, ⟨[], by simp, by simp⟩, ⟨[], by simp, by simp⟩, rfl,
      fun _ _ => Iff.rfl, id, fun _ h => Or.inl h⟩, rfl, rfl, le_rfl⟩
  | tombstone artifactId =>
    obtain ⟨artifacts, hupdate, h⟩ := Except.bind_eq_ok.1 h
    obtain rfl := Except.ok.inj h
    obtain ⟨rfl, -⟩ := update_eq_ok.1 (sql_eq_ok.1 hupdate)
    have hkeep : (updateWhere (·.id = artifactId) (fun a => { a with state := .tombstoned })
        db.artifacts).map (fun a => (a.id, a.digest)) = db.artifacts.map fun a => (a.id, a.digest) := by
      refine map_updateWhere _ ?_ _
      exact fun _ => rfl
    exact ⟨⟨rfl, rfl, rfl, rfl, ⟨[], by simp, by simp⟩, ⟨[], by simp, by simp⟩, hkeep,
      fun _ _ => Iff.rfl, id, fun _ h => Or.inl h⟩, rfl, rfl, le_rfl⟩
  | moveAction actionId status =>
    obtain ⟨actions, hupdate, h⟩ := Except.bind_eq_ok.1 h
    obtain rfl := Except.ok.inj h
    obtain ⟨rfl, -⟩ := update_eq_ok.1 (sql_eq_ok.1 hupdate)
    have hkeep : (updateWhere (·.id = actionId) (fun a => { a with status }) db.actions).map
        ExternalAction.asProposed = db.actions.map ExternalAction.asProposed := by
      refine map_updateWhere _ ?_ _
      exact fun _ => rfl
    exact ⟨⟨rfl, rfl, rfl, hkeep, ⟨[], by simp, by simp⟩, ⟨[], by simp, by simp⟩, rfl,
      fun _ _ => Iff.rfl, id, fun _ h => Or.inl h⟩, rfl, rfl, le_rfl⟩

end FactoryFloor
