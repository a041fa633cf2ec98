import FactoryFloor.Refinement

/-!
# A commit refines the steps of the work

`Backed` says that what is published is of a committed submission, so an attempt that commits has
published nothing before. `Commits.writes` puts the phases of a commit together : the rows it
writes are those its result describes, and then the attempt ends.

`commitTx_refines` follows : a commit routes the deliveries of its outputs, and then its attempt is
retried or closes its execution.
-/

namespace FactoryFloor

open Relational

variable {P : Platform} {placed : GroupKey → Prop} {allow : Work → List Delivery → Prop}
variable {late : Time → Prop} {db db' : Db}

/-! ## What is published is committed -/

/-- Whether an attempt has a committed submission. -/
def Db.Committed (db : Db) (attemptId : Uuid) : Prop :=
  ∃ s ∈ db.submissions, s.attemptId = attemptId ∧ s.committedAt.isSome

/-- Whether a ledger row is charged to an attempt for its own usage. -/
def ResourceLedgerEntry.isOf (attemptId : Uuid) (l : ResourceLedgerEntry) : Bool :=
  l.attemptId = some attemptId && l.externalActionId.isNone

/-- What is published is of a committed submission. -/
structure Backed (db : Db) : Prop where
  artifacts : Keyed (·.id) db.artifacts
  submissions : Keyed (·.attemptId) db.submissions
  sourced : Sourced db
  outputs : ∀ o ∈ db.outputs, db.Committed o.attemptId
  events : ∀ e ∈ db.events, ∀ a, e.source.attemptId? = some a → db.Committed a
  actions : ∀ a ∈ db.actions, db.Committed a.attemptId
  ledger : ∀ l ∈ db.ledger, ∀ a, l.isOf a → db.Committed a

/-- The submission of an attempt is the one row the attempt has. -/
theorem submission?_eq_some (hk : Keyed (·.attemptId) db.submissions)
    {s : WorkerResultSubmission} {attemptId : Uuid} :
    db.submission? attemptId = some s ↔ s ∈ db.submissions ∧ s.attemptId = attemptId := by
  constructor
  · exact mem_of_find?_key
  · rintro ⟨hs, rfl⟩
    exact hk.find?_eq_some hs

variable {env : CommitEnv} {input : ProposedExecutionResult} {submissionDigest : Digest}
variable {disposition : CommitDisposition} {l : Locked} {db₁ db₂ : Db}

/-- An attempt that commits has no committed submission before. -/
theorem Commits.not_committed (hb : Backed db)
    (h : Commits P env input submissionDigest disposition l db db₁ db₂ db') :
    ¬db.Committed input.attemptId := by
  rintro ⟨s, hs, hid, hc⟩
  have := (h.uncommitted s ((submission?_eq_some hb.submissions).2 ⟨hs, hid⟩)).2
  simp [this] at hc

/-- Recording the submission leaves the other tables alone. -/
structure Records (db db₁ : Db) : Prop where
  catalog : db₁.toCatalog = db.toCatalog
  scheduling : db₁.toScheduling = db.toScheduling
  artifacts : db₁.toArtifactTables = db.toArtifactTables
  outputs : db₁.outputs = db.outputs
  events : db₁.events = db.events
  actions : db₁.actions = db.actions
  ledger : db₁.ledger = db.ledger
  stateVersions : db₁.stateVersions = db.stateVersions
  drawn : db.drawn ≤ db₁.drawn

theorem Commits.records (h : Commits P env input submissionDigest disposition l db db₁ db₂ db') :
    Records db db₁ := by
  rcases recordSubmission_eq_ok h.record with ⟨rfl, -⟩ | ⟨s, -, -, -, -, -, -, -, -, rfl⟩
  · exact ⟨rfl, rfl, rfl, rfl, rfl, rfl, rfl, rfl, le_rfl⟩
  · exact ⟨rfl, rfl, rfl, rfl, rfl, rfl, rfl, rfl, Nat.le_succ _⟩

theorem Records.work (h : Records db db₁) : db₁.work = { db.work with drawn := db₁.drawn } := by
  simp [Db.work, h.scheduling]

/-- What a commit writes before it ends the attempt. -/
structure Wrote (P : Platform) (env : CommitEnv) (input : ProposedExecutionResult)
    (disposition : CommitDisposition) (l : Locked) (db₁ : Db) (w : Written) (dbw db₂ : Db) : Prop where
  writes : Writes P db₁ w dbw
  describes : ∃ first, l.deliveries.head? = some first ∧
    Describes P input l.execution l.component first.correlationId dbw w
  versions : Versions input l.execution db₁ w
  ends : input.status = .completed ∧ closeCompleted env.now input l.deliveries dbw = .ok db₂ ∨
    input.status ≠ .completed ∧
      failOrRetry P env.now input l.execution l.attempt l.deliveries dbw = .ok (disposition, db₂)

/-- What a commit publishes before it ends the attempt, with the loop over its proposals. -/
theorem Commits.published (hb : Backed db)
    (h : Commits P env input submissionDigest disposition l db db₁ db₂ db') :
    ∃ w dbw, Wrote P env input disposition l db₁ w dbw db₂ ∧
      (input.status = .completed →
        ∃ ports p p', p.db.actions = db₁.actions ∧ Keyed (·.id) p.db.artifacts ∧ p.Linked ∧
          publishExternalActions P env input l.component ports p = .ok p' ∧
          dbw.actions = p'.db.actions ∧ p'.db.artifacts <+: dbw.artifacts) := by
  have hrec := h.records
  have ha := h.authorized
  obtain ⟨first, rest, hcons⟩ := List.exists_cons_of_ne_nil ha.inputs
  have hfirst : l.deliveries.head? = some first := by rw [hcons]; rfl
  have hregion := mem_of_find?_key ha.region
  obtain ⟨w, dbw, hwrites, hdescribes, hversions, hproposes, hends⟩ := publishResult_eq_ok
    (hrec.artifacts ▸ hb.artifacts)
    (fun d hd id hid => by
      rw [hrec.scheduling] at hd
      rw [hrec.events]
      exact hb.sourced d hd id hid)
    (by rw [Db.execution?, hrec.scheduling]; exact ha.execution) hregion.2 hfirst
    (fun a hmem hid => h.not_committed hb (hid ▸ hb.actions a (hrec.actions ▸ hmem))) h.publish
  exact ⟨w, dbw, ⟨hwrites, ⟨first, hfirst, hdescribes⟩, hversions, hends⟩, hproposes⟩

theorem Commits.writes (hb : Backed db)
    (h : Commits P env input submissionDigest disposition l db db₁ db₂ db') :
    ∃ w dbw, Wrote P env input disposition l db₁ w dbw db₂ := by
  obtain ⟨w, dbw, hwrote, -⟩ := h.published hb
  exact ⟨w, dbw, hwrote⟩

/-! ## The steps -/

theorem routed_valid (now : Time) (s : RoutedSource) (t : RouteTarget) (id : Uuid) :
    Row.violation (routed P now s t id) = none := by
  rw [Row.violation, instRowDelivery, firstViolation_eq_none]
  simp [routed]

/-- The deliveries a commit routes go to the targets of connections of the execution's revision. -/
theorem Wrote.target {w : Written} {dbw : Db}
    (h : Wrote P env input disposition l db₁ w dbw db₂) {d : Delivery} (hd : d ∈ w.deliveries) :
    ∃ c ∈ db₁.connections, c.topologyRevisionId = l.execution.topologyRevisionId ∧
      d.regionId = l.execution.regionId ∧ d.topologyRevisionId = l.execution.topologyRevisionId ∧
      d.targetComponentInstanceId = c.targetComponentInstanceId := by
  obtain ⟨first, -, hdescribes⟩ := h.describes
  by_cases hc : input.status = .completed
  · obtain ⟨rows, outputs, events, -, -, hdel, hrows, -⟩ := hdescribes.completed hc
    rw [hdel] at hd
    obtain ⟨r, hr, hd⟩ := List.mem_flatMap.1 hd
    obtain ⟨staged, -, hout⟩ := exists_of_forall₂ hrows hr
    obtain ⟨now, id, t, ht, rfl⟩ := hout.routed d hd
    obtain ⟨c, hc, rfl⟩ := List.mem_map.1 ht
    obtain ⟨hc, hsel⟩ := List.mem_filter.1 hc
    simp only [Bool.and_eq_true, decide_eq_true_eq] at hsel
    rw [h.writes.catalog] at hc
    exact ⟨c, hc, hsel.1.1, hout.regionId, rfl, rfl⟩
  · have := hdescribes.failed hc
    rw [this] at hd
    simp [Written.ofLedger, Written.none] at hd

/-- Whether `placed` holds of the groups that connections lead to. -/
def ConnectionsPlaced (placed : GroupKey → Prop) (db : Db) : Prop :=
  ∀ e ∈ db.executions, ∀ c ∈ db.connections, c.topologyRevisionId = e.topologyRevisionId →
    ∀ g : GroupKey, g.regionId = e.regionId → g.topologyRevisionId = e.topologyRevisionId →
      g.targetComponentInstanceId = c.targetComponentInstanceId → placed g

/-- Writing the rows of a result routes the deliveries of its outputs. -/
theorem Wrote.refines {w : Written} {dbw : Db} (h : Wrote P env input disposition l db₁ w dbw db₂)
    (he : l.execution ∈ db₁.executions) (hplaced : ConnectionsPlaced placed db₁) :
    Refines P placed allow late db₁ dbw := by
  have hw := h.writes
  refine Refines.single hw.catalog (by rw [hw.scheduling]) ?_
  have hwork : dbw.work = { db₁.work with
      deliveries := db₁.work.deliveries ++ w.deliveries, drawn := dbw.drawn } := by
    simp [Db.work, hw.scheduling]
  rw [hwork]
  refine Work.Step.route hw.drawn (fun d hd => ?_) hw.deliveriesKeyed
  obtain ⟨c, hc, hrevision, hregion, hdr, htarget⟩ := h.target hd
  obtain ⟨now, s, t, k, hk, hk', rfl, -⟩ := hw.newDeliveries d hd
  exact ⟨rfl, routed_valid _ _ _ _, hplaced _ he c hc hrevision _ hregion hdr htarget,
    k, hk, hk', rfl⟩

theorem mem_lockDeliveries {executionId : Uuid} {d : Delivery} :
    d ∈ lockDeliveries executionId db ↔
      d ∈ db.deliveries ∧ db.work.IsInput executionId d.id := by
  rw [lockDeliveries, (List.perm_insertionSort _ _).mem_iff, mem_inputDeliveries]

/-- The deliveries a commit updates by their ids are the inputs of its execution. -/
theorem mem_locked_ids (hw : Work.Coherent P placed db.work) {dbw : Db}
    (hinputs : dbw.inputs = db.inputs) {executionId : Uuid} {d : Delivery} :
    d.id ∈ (lockDeliveries executionId db).map (·.id) ↔ dbw.work.IsInput executionId d.id := by
  have hsame : ∀ id, dbw.work.IsInput executionId id ↔ db.work.IsInput executionId id := fun id => by
    simp [Work.IsInput, Db.work, hinputs]
  rw [hsame, List.mem_map]
  constructor
  · rintro ⟨d', hd', hid⟩
    exact hid ▸ (mem_lockDeliveries.1 hd').2
  · rintro ⟨i, hi, hie, hid⟩
    obtain ⟨d', hd', hd'id, -⟩ := hw.inputDelivery i hi
    exact ⟨d', mem_lockDeliveries.2 ⟨hd', i, hi, hie, hd'id.symm⟩, hd'id.trans hid⟩

/-- A retry has a delay while attempts are left. -/
theorem retryDelay_eq_some {attempt : ExecutionAttempt} {delay : ℕ}
    (h : retryDelay input attempt = some delay) : attempt.attemptNumber < maxAttempts := by
  unfold retryDelay at h
  split at h
  · obtain ⟨hlt, -⟩ := List.getElem?_eq_some_iff.1 h
    simp only [retryBackoffMs, List.length_cons, List.length_nil] at hlt
    simp only [maxAttempts]
    omega
  · simp at h

/-- The end of the attempt. -/
theorem Wrote.end_schedules {w : Written} {dbw : Db}
    (h : Wrote P env input disposition l db₁ w dbw db₂) (ha : Authorized env input db l)
    (hw : Work.Coherent P placed db.work) (hw' : Work.Coherent P placed dbw.work)
    (hattempts : dbw.attempts = db.attempts) (hexecutions : dbw.executions = db.executions)
    (hinputs : dbw.inputs = db.inputs) : Schedules P allow late dbw db₂ := by
  obtain ⟨hmem, hid, hexec⟩ := ha.attempt
  have hmem : l.attempt ∈ dbw.attempts := hattempts ▸ hmem
  obtain ⟨he, heid⟩ := mem_of_find?_key ha.execution
  have he : l.execution ∈ dbw.executions := hexecutions ▸ he
  have hea : l.execution.id = l.attempt.executionId := heid.trans hexec.symm
  have hids : ∀ d ∈ dbw.deliveries, decide (d.id ∈ l.deliveries.map (·.id)) ↔
      dbw.work.IsInput l.attempt.executionId d.id := fun d _ => by
    rw [decide_eq_true_iff, ha.deliveries, mem_locked_ids hw hinputs, hea]
  rcases h.ends with ⟨-, hclose⟩ | ⟨-, hfail⟩
  · unfold closeCompleted at hclose
    obtain ⟨db₃, h₃, hclose⟩ := Except.bind_eq_ok.1 hclose
    obtain ⟨db₄, h₄, h₅⟩ := Except.bind_eq_ok.1 hclose
    rw [← hid] at h₃
    rw [← heid] at h₄
    exact close_schedules hw' hmem ha.active he hea h₃ h₄ h₅ rfl
      ⟨fun _ => rfl, fun _ => rfl, fun _ _ => rfl, fun _ => rfl, fun _ => rfl⟩ (fun _ => rfl) hids
      ⟨fun _ => rfl⟩ fun _ => rfl
  · unfold failOrRetry at hfail
    obtain ⟨db₃, h₃, hfail⟩ := Except.bind_eq_ok.1 hfail
    rw [← hid] at h₃
    have hterminal : AttemptStatus.terminal
        (if input.status = .cancelled then .cancelled else .failed) = true := by
      split <;> rfl
    split at hfail
    · rename_i delay hdelay
      obtain ⟨db₄, h₄, hfail⟩ := Except.bind_eq_ok.1 hfail
      obtain ⟨db₅, h₅, hfail⟩ := Except.bind_eq_ok.1 hfail
      obtain ⟨-, rfl⟩ := Prod.mk.inj (Except.ok.inj hfail)
      exact retry_schedules hw' hmem ha.active he hea (retryDelay_eq_some hdelay) h₃ h₄ h₅ hterminal
        hids ⟨fun _ => rfl⟩ fun _ => rfl
    · obtain ⟨db₄, h₄, hfail⟩ := Except.bind_eq_ok.1 hfail
      obtain ⟨db₅, h₅, hfail⟩ := Except.bind_eq_ok.1 hfail
      obtain ⟨-, rfl⟩ := Prod.mk.inj (Except.ok.inj hfail)
      exact close_schedules hw' hmem ha.active he hea h₃ h₄ h₅ hterminal
        ⟨fun _ => rfl, fun _ => rfl, fun _ _ => rfl, fun _ => rfl, fun _ => rfl⟩ (fun _ => rfl) hids
        ⟨fun _ => rfl⟩ fun _ => rfl

/-- A commit that publishes refines the steps of the work. -/
theorem Commits.refines (hw : Work.Coherent P placed db.work) (hb : Backed db)
    (hplaced : ConnectionsPlaced placed db)
    (h : Commits P env input submissionDigest disposition l db db₁ db₂ db') :
    Refines P placed allow late db db' := by
  obtain ⟨w, dbw, hwrote⟩ := h.writes hb
  have hrec := h.records
  have hrecord : Refines P placed allow late db db₁ :=
    Refines.of_work hrec.catalog (by rw [hrec.scheduling]) hrec.drawn hrec.work
  have he : l.execution ∈ db₁.executions := by
    rw [hrec.scheduling]
    exact (mem_of_find?_key h.authorized.execution).1
  have hplaced₁ : ConnectionsPlaced placed db₁ := by
    unfold ConnectionsPlaced
    rw [hrec.scheduling, hrec.catalog]
    exact hplaced
  have hroute : Refines P placed allow late db dbw := hrecord.trans (hwrote.refines he hplaced₁)
  have hsched := hwrote.writes.scheduling
  have hend : Refines P placed allow late dbw db₂ := (hwrote.end_schedules h.authorized hw
    (hroute.coherent hw) (by rw [hsched, hrec.scheduling]) (by rw [hsched, hrec.scheduling])
    (by rw [hsched, hrec.scheduling])).refines
  refine (hroute.trans hend).trans ?_
  rw [markCommitted_eq_ok h.mark]
  exact Refines.of_work rfl rfl le_rfl rfl

theorem commitTx_refines (hw : Work.Coherent P placed db.work) (hb : Backed db)
    (hplaced : ConnectionsPlaced placed db)
    (h : commitTx P env input submissionDigest db = .ok (disposition, db')) :
    Refines P placed allow late db db' := by
  rcases commitTx_eq_ok h with ⟨-, rfl, -⟩ | ⟨l, db₁, db₂, hc⟩
  · exact Refines.refl
  · exact hc.refines hw hb hplaced

end FactoryFloor
