import FactoryFloor.Cancellation
import FactoryFloor.LeasedGroups
import FactoryFloor.RunIsolation

/-!
# The status of a run

`OperatorQueryService.getRunStatus` reads the run, its deliveries, their executions and the attempts
of these in separate statements, and each of them sees a snapshot of its own (`StatusCall`). What
the rest of the runtime does in between is any steps of it.

A step adds a delivery to a run with a command of the run, or when it ends an attempt that holds one
of the run's deliveries under a lease (`Extends`). So a run whose deliveries are all terminal at one
read stays as it is (`Frozen`), and so do the executions that are closed at a later read.

`terminal_status_stable` is about runs under whose region and correlation id no command is submitted
any more. Cancellations may go on, and record commands under that correlation id.
-/

namespace FactoryFloor

open Relational Transition

variable {P : Platform} {placed : GroupKey → Prop} {db db' : Db} {now : Time} {s t : State}
variable {l : Label} {run : Command}

/-! ## The report -/

/-- What `runStatus` answers. -/
inductive RunStatus where
  | rejected | running | queued | cancelled | failed | completed | accepted
deriving DecidableEq, Repr

/-- `completed`, `failed` or `cancelled`. -/
def RunStatus.finished : RunStatus → Bool
  | .completed | .failed | .cancelled => true
  | _ => false

/-- `runStatus`. -/
def runStatus (commandStatus : CommandStatus) (deliveryCounts : DeliveryStatus → ℕ)
    (executionCounts : ExecutionStatus → ℕ) (cancelledExecutions failedExecutions : ℕ) : RunStatus :=
  if commandStatus = .rejected then .rejected
  else if 0 < executionCounts .running then .running
  else if 0 < deliveryCounts .ready ∨ 0 < deliveryCounts .leased then .queued
  else if 0 < cancelledExecutions ∨ 0 < deliveryCounts .cancelled then .cancelled
  else if 0 < failedExecutions then .failed
  else if 0 < executionCounts .completed then .completed
  else .accepted

/-- A failure of an execution, or the rejection of the command. -/
inductive BlockingReason where
  | failure (failure : Json)
  | rejection (rejection : Rejection)

structure RunCounts where
  queued : ℕ
  active : ℕ
  completed : ℕ
  failed : ℕ
  cancelled : ℕ
deriving DecidableEq, Repr

/-- What `getRunStatus` returns. -/
structure RunReport where
  runId : Uuid
  commandType : String
  regionId : Uuid
  status : RunStatus
  counts : RunCounts
  retryCount : ℕ
  pendingApprovalCount : ℕ
  blockingReason : Option BlockingReason
  completedAt : Option Time
  terminalResultSummary : Option RunStatus

/-- `findRun`. -/
def findRun (runId : Uuid) (db : Db) : Outcome Command :=
  match db.commands.find? (·.id = runId) with
  | none => .error (.request "run_not_found")
  | some run => do
    require (db.region? run.regionId).isSome (.request "run_not_found")
    require (run.correlationId ≠ .other "") (.request "run_missing_correlation_id")
    return run

/-- The deliveries `runGraph` reads. -/
def graphDeliveries (run : Command) (db : Db) : List Delivery :=
  (db.deliveries.filter (ofRun run)).insertionSort fun d e => d.id ≤ e.id

/-- The executions `runGraph` reads, of the deliveries it has read. -/
def graphExecutions (deliveries : List Delivery) (db : Db) : List Execution :=
  (db.executions.filter fun e => e.deliveryId ∈ deliveries.map (·.id)).insertionSort
    fun d e => d.id ≤ e.id

/-- The attempts `runGraph` reads, of the executions it has read. -/
def graphAttempts (executions : List Execution) (db : Db) : List ExecutionAttempt :=
  (db.attempts.filter fun a => a.executionId ∈ executions.map (·.id)).insertionSort
    fun d e => d.id ≤ e.id

/-- Whether an execution has failed, and not by a cancellation. -/
def Execution.failedItself (e : Execution) : Bool :=
  e.status = .failed && !isOperatorCancellation e.failure

/-- `getRunStatus`, of the rows it has read. -/
def runReport (run : Command) (deliveries : List Delivery) (executions : List Execution)
    (attempts : List ExecutionAttempt) (pendingApprovalCount : ℕ) : RunReport :=
  let deliveryCounts := fun status => (deliveries.filter (·.status = status)).length
  let executionCounts := fun status => (executions.filter (·.status = status)).length
  let cancelledExecutions := (executions.filter fun e => isOperatorCancellation e.failure).length
  let failedExecutions := (executions.filter Execution.failedItself).length
  let status :=
    runStatus run.status deliveryCounts executionCounts cancelledExecutions failedExecutions
  let nonCancellationFailure := (executions.find? Execution.failedItself).bind (·.failure)
  let cancellationFailure :=
    (executions.find? fun e => isOperatorCancellation e.failure).bind (·.failure)
  { runId := run.id, commandType := run.commandType, regionId := run.regionId, status,
    counts :=
      { queued := deliveryCounts .ready, active := executionCounts .running,
        completed := executionCounts .completed, failed := failedExecutions,
        cancelled := max cancelledExecutions (deliveryCounts .cancelled) },
    retryCount := (attempts.filter (1 < ·.attemptNumber)).length, pendingApprovalCount,
    blockingReason :=
      (nonCancellationFailure <|> cancellationFailure).map .failure <|>
        run.rejection.map .rejection,
    completedAt := (executions.filterMap fun e => e.completedAt <|> e.failedAt).max?,
    terminalResultSummary :=
      if status = .completed ∨ status = .failed ∨ status = .cancelled ∨ status = .rejected then
        some status
      else none }

/-! ## Calls -/

/-- The states in which a call makes its reads. -/
structure StatusCall where
  asked : State
  deliveries : State
  executions : State
  attempts : State

/-- What a call returns. The approvals are counted in another table. -/
def StatusCall.report (call : StatusCall) (runId : Uuid) (pendingApprovalCount : ℕ) :
    Outcome RunReport := do
  let run ← findRun runId call.asked.db
  let deliveries := graphDeliveries run call.deliveries.db
  let executions := graphExecutions deliveries call.executions.db
  let attempts := graphAttempts executions call.attempts.db
  return runReport run deliveries executions attempts pendingApprovalCount

/-- The reads of a call are made one after another. -/
structure StatusCall.Ordered (S : System State Label) (call : StatusCall) : Prop where
  deliveries : S.Later call.asked call.deliveries
  executions : S.Later call.deliveries call.executions
  attempts : S.Later call.executions call.attempts

/-- A step that submits no command of the run. -/
def submitsNone (P : Platform) (run : Command) (s : State) : Label → Prop
  | .submit input => ∀ result db, submit P s.now input s.db = .ok (result, db) →
      ∀ c ∈ db.commands, c.SameRun run → c ∈ s.db.commands
  | _ => True

/-- The runtime, with no later command of the run. -/
abbrev runtimeWithout (P : Platform) (run : Command) : System State Label :=
  (runtime P).restrict (submitsNone P run)

/-! ## What a step adds -/

/-- What a step does to the commands and the deliveries. A terminal delivery stays, and a new one is
of a command that is submitted, or of the run of a delivery that is held under a lease. -/
structure Extends (submits : Prop) (db db' : Db) : Prop where
  commands : ∀ c ∈ db.commands, c ∈ db'.commands
  settled : ∀ d ∈ db.deliveries, d.status.terminal → d ∈ db'.deliveries
  origin : ∀ d' ∈ db'.deliveries,
    (∃ d ∈ db.deliveries, d.id = d'.id ∧ d.toGroupKey = d'.toGroupKey) ∨
      (submits ∧ ∃ c ∈ db'.commands, c ∉ db.commands ∧ ofRun c d') ∨
      ∃ d ∈ db.deliveries, d.status = .leased ∧ d.regionId = d'.regionId ∧
        d.correlationId = d'.correlationId

/-- Whether a step submits a command, and the database it leaves. -/
def SubmitsTo (P : Platform) (s : State) (l : Label) (db : Db) : Prop :=
  ∃ input result, l = .submit input ∧ submit P s.now input s.db = .ok (result, db)

/-- The terminal deliveries are the same. -/
def SameTerminal (db db' : Db) : Prop :=
  ∀ d : Delivery, d.status.terminal → (d ∈ db'.deliveries ↔ d ∈ db.deliveries)

namespace SameTerminal

variable {db'' : Db}

theorem of_eq (h : db'.deliveries = db.deliveries) : SameTerminal db db' := fun d _ => by rw [h]

theorem trans (h : SameTerminal db db') (h' : SameTerminal db' db'') : SameTerminal db db'' :=
  fun d hd => (h' d hd).trans (h d hd)

/-- An update of open deliveries that leaves them open. -/
theorem update {p : Delivery → Bool} {f : Delivery → Delivery}
    (h : db'.deliveries = updateWhere p f db.deliveries)
    (hp : ∀ d ∈ db.deliveries, p d → d.status.terminal = false)
    (hf : ∀ d, p d → (f d).status.terminal = false) : SameTerminal db db' := by
  intro d hd
  rw [h]
  constructor
  · intro hmem
    obtain ⟨e, he, rfl⟩ := mem_updateWhere.1 hmem
    by_cases hpe : p e
    · simp [hpe, hf e hpe] at hd
    · simpa [hpe] using he
  · intro hmem
    refine mem_updateWhere_of_not hmem fun hpd => ?_
    simp [hp d hmem hpd] at hd

end SameTerminal

theorem deferGroup_sameTerminal {group : GroupKey} (h : deferGroup now group db = .ok db') :
    SameTerminal db db' := by
  obtain ⟨rfl, -⟩ := updateDeliveries_eq_ok.1 h
  have hready : ∀ d : Delivery, due now group d → d.status.terminal = false := fun d hd => by
    simp only [due, Bool.and_eq_true, decide_eq_true_eq] at hd
    simp [hd, DeliveryStatus.terminal]
  exact .update rfl (fun d _ => hready d) hready

theorem updateAttempts_sameTerminal {p : ExecutionAttempt → Bool}
    {f : ExecutionAttempt → ExecutionAttempt} (h : updateAttempts p f db = .ok db') :
    SameTerminal db db' := by
  obtain ⟨deliveries, hfold, rfl, -⟩ := updateAttempts_eq_ok.1 h
  have hsame : SameTerminal db { db with deliveries } := by
    refine Except.foldlM_invariant (I := fun ds => SameTerminal db { db with deliveries := ds })
      (fun ds a ds' _ hds hsync => ?_) (.of_eq rfl) hfold
    unfold syncAttemptDeliveryLease at hsync
    split at hsync
    · obtain rfl := Except.ok.inj hsync
      exact hds
    · split at hsync
      · obtain ⟨rfl, -⟩ := update_eq_ok.1 hsync
        refine hds.trans (.update rfl (fun d _ hd => ?_) fun _ _ => rfl)
        simp only [Bool.and_eq_true, decide_eq_true_eq] at hd
        simp [hd, DeliveryStatus.terminal]
      · obtain rfl := Except.ok.inj hsync
        exact hds
  exact hsame

/-- Deliveries that were ready are leased. -/
theorem leaseDeliveries_sameTerminal (hk : Keyed (·.id) db.deliveries) {db₁ : Db}
    {selected : List Delivery} {lease : Option Lease}
    (hselected : ∀ d ∈ selected, d ∈ db.deliveries ∧ d.status = .ready)
    (hsame : SameTerminal db db₁) (h : leaseDeliveries selected lease db₁ = .ok db') :
    SameTerminal db db' := by
  obtain ⟨rfl, -⟩ := updateDeliveries_eq_ok.1 h
  refine hsame.trans (.update rfl (fun d hd hmem => ?_) fun _ _ => rfl)
  by_contra hopen
  have hterminal : d.status.terminal = true := by simpa using hopen
  obtain ⟨e, he, hid⟩ := List.mem_map.1 (of_decide_eq_true hmem)
  obtain ⟨he, hready⟩ := hselected e he
  obtain rfl := hk.eq he ((hsame d hterminal).1 hd) hid
  simp [hready, DeliveryStatus.terminal] at hterminal

theorem leaseExecution_sameTerminal (hk : Keyed (·.id) db.deliveries) {owner : String}
    {expiresAt : Time} {group : GroupKey} {selected : List Delivery} {e : Execution}
    {created : Bool} {leased : Option LeasedExecutionAttempt}
    (hselected : ∀ d ∈ selected, d ∈ db.deliveries ∧ d.status = .ready)
    (h : leaseExecution P now owner expiresAt group selected e created db = .ok (leased, db')) :
    SameTerminal db db' := by
  unfold leaseExecution at h
  obtain ⟨⟨admission, db₁⟩, hreserve, h⟩ := Except.bind_eq_ok.1 h
  obtain ⟨reservations, m, -, rfl⟩ := reserveInTransaction_frame hreserve
  dsimp only at h
  split at h
  · obtain ⟨db₂, hdefer, h⟩ := Except.bind_eq_ok.1 h
    obtain ⟨-, rfl⟩ := Prod.mk.inj (Except.ok.inj h)
    have hsame := deferGroup_sameTerminal hdefer
    exact hsame
  · obtain ⟨db₂, hinputs, h⟩ := Except.bind_eq_ok.1 h
    obtain ⟨inputs, rfl, -, -⟩ := insertInputs_eq_ok hinputs
    obtain ⟨⟨result, db₃⟩, hattempt, h⟩ := Except.bind_eq_ok.1 h
    have hsame : SameTerminal db db₃ := by
      rcases leaseAttempt_eq_ok hattempt with
        ⟨b, -, -, -, -, hupdate⟩ | ⟨-, rfl, -⟩ | ⟨-, b, -, -, -, -, -, -, -, rfl⟩
      · have hsame := updateAttempts_sameTerminal hupdate
        exact hsame
      · exact .of_eq rfl
      · exact .of_eq rfl
    cases result with
    | none =>
      obtain ⟨db₄, hdefer, h⟩ := Except.bind_eq_ok.1 h
      obtain ⟨-, rfl⟩ := Prod.mk.inj (Except.ok.inj h)
      exact hsame.trans (deferGroup_sameTerminal hdefer)
    | some a =>
      obtain ⟨db₄, hlease, h⟩ := Except.bind_eq_ok.1 h
      obtain ⟨l, -, h⟩ := Except.bind_eq_ok.1 h
      obtain ⟨-, rfl⟩ := Prod.mk.inj (Except.ok.inj h)
      exact leaseDeliveries_sameTerminal hk hselected hsame hlease

theorem tryCandidate_sameTerminal (hk : Keyed (·.id) db.deliveries) {owner : String}
    {expiresAt : Time} {acquired : GroupKey → Bool} {candidate : Delivery}
    {leased : Option LeasedExecutionAttempt}
    (h : tryCandidate P now owner expiresAt acquired candidate db = .ok (leased, db')) :
    SameTerminal db db' := by
  unfold tryCandidate at h
  dsimp only at h
  split at h
  · obtain ⟨-, rfl⟩ := Prod.mk.inj (Except.ok.inj h)
    exact .of_eq rfl
  obtain ⟨region, -, h⟩ := Except.bind_eq_ok.1 h
  split at h
  · obtain ⟨db₁, hdefer, h⟩ := Except.bind_eq_ok.1 h
    obtain ⟨-, rfl⟩ := Prod.mk.inj (Except.ok.inj h)
    exact deferGroup_sameTerminal hdefer
  obtain ⟨component, -, h⟩ := Except.bind_eq_ok.1 h
  obtain ⟨revision, -, h⟩ := Except.bind_eq_ok.1 h
  split at h
  · obtain ⟨db₁, hdefer, h⟩ := Except.bind_eq_ok.1 h
    obtain ⟨-, rfl⟩ := Prod.mk.inj (Except.ok.inj h)
    exact deferGroup_sameTerminal hdefer
  rename_i selected hselect
  have hselected : ∀ d ∈ selected, d ∈ db.deliveries ∧ d.status = .ready := fun d hd => by
    obtain ⟨hmem, hdue⟩ := (mem_selectGroup hselect).2 d hd
    simp only [due, Bool.and_eq_true, decide_eq_true_eq] at hdue
    exact ⟨hmem, hdue.1.1⟩
  obtain ⟨⟨result, db₁⟩, hensure, hrest⟩ := Except.bind_eq_ok.1 h
  rcases ensureExecution_eq_ok hensure with
    ⟨rfl, rfl⟩ | ⟨e, -, rfl, rfl, -⟩ | ⟨e, rfl, rfl, -⟩
  · obtain ⟨db₂, hdefer, hrest⟩ := Except.bind_eq_ok.1 hrest
    obtain ⟨-, rfl⟩ := Prod.mk.inj (Except.ok.inj hrest)
    exact deferGroup_sameTerminal hdefer
  · exact leaseExecution_sameTerminal hk hselected hrest
  · have hsame := leaseExecution_sameTerminal (by exact hk) (by exact hselected) hrest
    exact hsame

theorem leaseNextAttempt_sameTerminal (hk : Keyed (·.id) db.deliveries)
    {options : LeaseNextAttemptOptions} {acquired : GroupKey → Bool}
    {leased : Option LeasedExecutionAttempt}
    (h : leaseNextAttempt P now options acquired db = .ok (leased, db')) : SameTerminal db db' := by
  have htries : ∀ (cs : List Delivery) (db : Db), Keyed (·.id) db.deliveries →
      tryCandidates P now options.workerId (now + options.leaseDurationMs.toNat) acquired cs db =
        .ok (leased, db') → SameTerminal db db' := by
    intro cs
    induction cs with
    | nil =>
      intro db _ h
      obtain ⟨-, rfl⟩ := Prod.mk.inj (Except.ok.inj h)
      exact .of_eq rfl
    | cons c cs ih =>
      intro db hk h
      obtain ⟨⟨result, db₁⟩, htry, h⟩ := Except.bind_eq_ok.1 h
      have hsame := tryCandidate_sameTerminal hk htry
      cases result with
      | none =>
        have hids := (tryCandidate_takes htry).1.ids
        exact hsame.trans (ih db₁ (by unfold Keyed; rw [hids]; exact hk) h)
      | some l =>
        obtain ⟨-, rfl⟩ := Prod.mk.inj (Except.ok.inj h)
        exact hsame
  unfold leaseNextAttempt at h
  obtain ⟨⟨⟩, -, h⟩ := Except.bind_eq_ok.1 h
  split at h
  · obtain ⟨-, rfl⟩ := Prod.mk.inj (Except.ok.inj h)
    exact .of_eq rfl
  · exact htries _ _ hk h

/-- Closing or releasing what an active attempt holds keeps the terminal deliveries. -/
theorem settled_of_held (hw : Work.Coherent P placed db.work) {a : ExecutionAttempt} {db₁ : Db}
    {p : Delivery → Bool} {f : Delivery → Delivery} (ha : a ∈ db.attempts) (hactive : a.status.active)
    (hsame : SameTerminal db db₁) (hp : ∀ d, p d → db.work.IsInput a.executionId d.id)
    (h : updateDeliveries p f db₁ = .ok db') :
    ∀ d ∈ db.deliveries, d.status.terminal → d ∈ db'.deliveries := by
  intro d hd hterminal
  obtain ⟨rfl, -⟩ := updateDeliveries_eq_ok.1 h
  refine mem_updateWhere_of_not ((hsame d hterminal).2 hd) fun hpd => ?_
  have hleased := (hw.held a ha hactive d hd (hp d hpd)).1
  simp [hleased, DeliveryStatus.terminal] at hterminal

theorem heartbeat_sameTerminal {leaseDurationMs : Time} {input : AttemptIdentityInput}
    {reply : HeartbeatReply} (h : heartbeat now leaseDurationMs input db = .ok (reply, db')) :
    SameTerminal db db' := by
  unfold heartbeat at h
  obtain ⟨attempt, -, h⟩ := Except.bind_eq_ok.1 h
  obtain ⟨row, -, h⟩ := Except.bind_eq_ok.1 h
  obtain ⟨db₁, hupdate, h⟩ := Except.bind_eq_ok.1 h
  obtain ⟨-, rfl⟩ := Prod.mk.inj (Except.ok.inj h)
  exact updateAttempts_sameTerminal hupdate

theorem insertNextAttempt_deliveries {executionId : Uuid} {attemptNumber : ℕ} {startedAt : Time}
    (h : insertNextAttempt P executionId attemptNumber startedAt db = .ok db') :
    db'.deliveries = db.deliveries := by
  obtain ⟨attempts, -, h⟩ := Except.bind_eq_ok.1 h
  obtain rfl := Except.ok.inj h
  rfl

theorem updateExecutions_deliveries {p : Execution → Bool} {f : Execution → Execution}
    (h : updateExecutions p f db = .ok db') : db'.deliveries = db.deliveries := by
  obtain ⟨rfl, -⟩ := updateExecutions_eq_ok.1 h
  rfl

/-- The recovery of an attempt keeps the terminal deliveries. -/
theorem recoverExpired_settled (hw : Work.Coherent P placed db.work) {attemptId : Uuid}
    {recovered : RecoveredAttempt} (h : recoverExpired P now attemptId db = .ok (recovered, db')) :
    ∀ d ∈ db.deliveries, d.status.terminal → d ∈ db'.deliveries := by
  unfold recoverExpired at h
  split at h
  · obtain ⟨-, rfl⟩ := Prod.mk.inj (Except.ok.inj h)
    exact fun d hd _ => hd
  rename_i attempt hattempt
  obtain ⟨hattempt, hexpired⟩ := Option.filter_eq_some_iff.1 hattempt
  have hmem := (mem_of_find?_key hattempt).1
  have hactive : attempt.status.active := by
    simp only [expired, Bool.and_eq_true] at hexpired
    exact hexpired.1
  obtain ⟨execution, hexecution, h⟩ := Except.bind_eq_ok.1 h
  obtain ⟨region, -, h⟩ := Except.bind_eq_ok.1 h
  have heid := (mem_of_find?_key (takeFirstOrThrow_eq_ok.1 hexecution)).2
  have hinputs : ∀ d : Delivery, decide (d.id ∈ (db.inputDeliveries execution.id).map (·.id)) = true →
      db.work.IsInput attempt.executionId d.id := by
    intro d hd
    obtain ⟨e, he, hid⟩ := List.mem_map.1 (of_decide_eq_true hd)
    exact hid ▸ heid ▸ (mem_inputDeliveries.1 he).2
  unfold recoverAttempt at h
  obtain ⟨db₁, h₁, h⟩ := Except.bind_eq_ok.1 h
  have hsame := updateAttempts_sameTerminal h₁
  split at h
  · obtain ⟨db₂, h₂, h⟩ := Except.bind_eq_ok.1 h
    obtain ⟨db₃, h₃, h⟩ := Except.bind_eq_ok.1 h
    obtain ⟨-, rfl⟩ := Prod.mk.inj (Except.ok.inj h)
    exact settled_of_held hw hmem hactive
      (hsame.trans (.of_eq (insertNextAttempt_deliveries h₂))) hinputs h₃
  split at h
  · obtain ⟨db₂, h₂, h⟩ := Except.bind_eq_ok.1 h
    obtain ⟨db₃, h₃, h⟩ := Except.bind_eq_ok.1 h
    obtain ⟨-, rfl⟩ := Prod.mk.inj (Except.ok.inj h)
    exact settled_of_held hw hmem hactive
      (hsame.trans (.of_eq (updateExecutions_deliveries h₂))) hinputs h₃
  · obtain ⟨-, rfl⟩ := Prod.mk.inj (Except.ok.inj h)
    exact fun d hd hterminal => (hsame d hterminal).2 hd

/-- The end of the attempt a commit is about keeps the terminal deliveries. -/
theorem Commits.settled {env : CommitEnv} {input : ProposedExecutionResult}
    {submissionDigest : Digest} {disposition : CommitDisposition} {l : Locked} {db₁ db₂ : Db}
    (hw : Work.Coherent P placed db.work) (hb : Backed db)
    (h : Commits P env input submissionDigest disposition l db db₁ db₂ db') :
    ∀ d ∈ db.deliveries, d.status.terminal → d ∈ db'.deliveries := by
  obtain ⟨w, dbw, hwrote⟩ := h.writes hb
  obtain ⟨hmem, -, hexec⟩ := h.authorized.attempt
  have hids : ∀ d : Delivery, decide (d.id ∈ l.deliveries.map (·.id)) = true →
      db.work.IsInput l.attempt.executionId d.id := by
    intro d hd
    obtain ⟨e, he, hid⟩ := List.mem_map.1 (of_decide_eq_true hd)
    rw [h.authorized.deliveries] at he
    rw [hexec, ← hid, ← (mem_of_find?_key h.authorized.execution).2]
    exact (mem_lockDeliveries.1 he).2
  -- the rows a commit routes are ready
  have hsame : SameTerminal db dbw := by
    intro d hterminal
    rw [hwrote.writes.scheduling, h.records.scheduling]
    refine ⟨fun hd => ?_, fun hd => List.mem_append_left _ hd⟩
    rcases List.mem_append.1 hd with hd | hd
    · exact hd
    · obtain ⟨_, _, _, _, -, -, rfl, -⟩ := hwrote.writes.newDeliveries d hd
      simp [routed, DeliveryStatus.terminal] at hterminal
  rw [markCommitted_eq_ok h.mark]
  rcases hwrote.ends with ⟨-, hclose⟩ | ⟨-, hfail⟩
  · unfold closeCompleted at hclose
    obtain ⟨db₃, h₃, hclose⟩ := Except.bind_eq_ok.1 hclose
    obtain ⟨db₄, h₄, h₅⟩ := Except.bind_eq_ok.1 hclose
    have hsettled := settled_of_held hw hmem h.authorized.active ((hsame.trans
      (updateAttempts_sameTerminal h₃)).trans (.of_eq (updateExecutions_deliveries h₄))) hids h₅
    exact hsettled
  · unfold failOrRetry at hfail
    obtain ⟨db₃, h₃, hfail⟩ := Except.bind_eq_ok.1 hfail
    have hsame' := hsame.trans (updateAttempts_sameTerminal h₃)
    split at hfail
    · obtain ⟨db₄, h₄, hfail⟩ := Except.bind_eq_ok.1 hfail
      obtain ⟨db₅, h₅, hfail⟩ := Except.bind_eq_ok.1 hfail
      obtain ⟨-, rfl⟩ := Prod.mk.inj (Except.ok.inj hfail)
      have hsettled := settled_of_held hw hmem h.authorized.active
        (hsame'.trans (.of_eq (insertNextAttempt_deliveries h₄))) hids h₅
      exact hsettled
    · obtain ⟨db₄, h₄, hfail⟩ := Except.bind_eq_ok.1 hfail
      obtain ⟨db₅, h₅, hfail⟩ := Except.bind_eq_ok.1 hfail
      obtain ⟨-, rfl⟩ := Prod.mk.inj (Except.ok.inj hfail)
      have hsettled := settled_of_held hw hmem h.authorized.active
        (hsame'.trans (.of_eq (updateExecutions_deliveries h₄))) hids h₅
      exact hsettled

theorem settleCancelling_settled {regionId : Uuid}
    (h : settleCancelling now regionId db = .ok db') :
    ∀ d ∈ db.deliveries, d.status.terminal → d ∈ db'.deliveries := by
  unfold settleCancelling at h
  split at h
  · obtain rfl := Except.ok.inj h
    exact fun d hd _ => hd
  obtain ⟨db₁, h₁, h⟩ := Except.bind_eq_ok.1 h
  obtain ⟨db₂, h₂, h⟩ := Except.bind_eq_ok.1 h
  obtain ⟨db₃, h₃, h⟩ := Except.bind_eq_ok.1 h
  obtain ⟨regions, -, h⟩ := Except.bind_eq_ok.1 h
  obtain rfl := Except.ok.inj h
  have hsame := (updateAttempts_sameTerminal h₁).trans (.of_eq (updateExecutions_deliveries h₂))
  obtain ⟨rfl, -⟩ := updateDeliveries_eq_ok.1 h₃
  refine fun d hd hterminal => mem_updateWhere_of_not ((hsame d hterminal).2 hd) fun hp => ?_
  simp only [Bool.and_eq_true, Bool.or_eq_true, decide_eq_true_eq] at hp
  rcases hp.2 with hs | hs <;> simp [hs, DeliveryStatus.terminal] at hterminal

theorem cancelRows_settled {before : Db} (hk : Keyed (·.id) db.deliveries)
    (hbefore : before.deliveries = db.deliveries) (h : cancelRows now run before db = .ok db') :
    ∀ d ∈ db.deliveries, d.status.terminal → d ∈ db'.deliveries := by
  unfold cancelRows at h
  obtain ⟨db₁, h₁, h⟩ := Except.bind_eq_ok.1 h
  obtain ⟨db₂, h₂, h₃⟩ := Except.bind_eq_ok.1 h
  have hsame := (updateAttempts_sameTerminal h₁).trans (.of_eq (updateExecutions_deliveries h₂))
  obtain ⟨rfl, -⟩ := updateDeliveries_eq_ok.1 h₃
  refine fun d hd hterminal => mem_updateWhere_of_not ((hsame d hterminal).2 hd) fun hp => ?_
  obtain ⟨e, he, hid⟩ := List.mem_map.1 (of_decide_eq_true hp)
  obtain ⟨he, hopen⟩ := List.mem_filter.1 he
  obtain rfl := hk.eq (hbefore ▸ he) hd hid
  simp [hterminal] at hopen

/-! ## Steps -/

namespace Extends

variable {submits : Prop}

/-- An operation that routes nothing. -/
theorem routeless (hcommands : db'.commands = db.commands)
    (hrouted : db'.deliveries.map Delivery.asRouted = db.deliveries.map Delivery.asRouted)
    (hsettled : ∀ d ∈ db.deliveries, d.status.terminal → d ∈ db'.deliveries) :
    Extends submits db db' := by
  refine ⟨fun c hc => hcommands ▸ hc, hsettled, fun d' hd' => Or.inl ?_⟩
  obtain ⟨d, hd, heq⟩ := List.mem_map.1 (hrouted ▸ List.mem_map_of_mem hd')
  exact ⟨d, hd, (Delivery.of_asRouted_eq heq).1, (Delivery.of_asRouted_eq heq).2.1⟩

theorem refl : Extends submits db db :=
  .routeless rfl rfl fun _ hd _ => hd

theorem aside (h : Aside P db db') : Extends submits db db' := by
  have hscheduling := h.scheduling
  refine .routeless (by rw [hscheduling]) (by rw [hscheduling]) fun d hd _ => ?_
  rw [hscheduling]
  exact hd

/-- A command is the origin of what it is routed to. -/
theorem records {command : Command} (hsubmits : submits) (hfresh : ∀ c ∈ db.commands, c.id ≠ command.id)
    (h : RecordsCommand P now command db db') : Extends submits db db' := by
  obtain ⟨event, streams, new, n, -, -, -, rfl, -, hnew⟩ := h
  refine ⟨fun c hc => List.mem_append_left _ hc, fun d hd _ => List.mem_append_left _ hd,
    fun d' hd' => ?_⟩
  rcases List.mem_append.1 hd' with hd' | hd'
  · exact Or.inl ⟨d', hd', rfl, rfl⟩
  · refine Or.inr (Or.inl ⟨hsubmits, command, by simp, fun hmem => hfresh command hmem rfl, ?_⟩)
    obtain ⟨r, -, -, v, -, -, c, -, -, portName, k, -, -, rfl⟩ := hnew d' hd'
    exact Bool.and_eq_true_iff.2 ⟨decide_eq_true rfl, decide_eq_true rfl⟩

/-- A commit is the origin of what it routes, and holds its inputs. -/
theorem commits {env : CommitEnv} {input : ProposedExecutionResult} {submissionDigest : Digest}
    {disposition : CommitDisposition} {l : Locked} {db₁ db₂ : Db}
    (hw : Work.Coherent P placed db.work) (hb : Backed db) (hplaced : ConnectionsPlaced placed db)
    (hc : Commits P env input submissionDigest disposition l db db₁ db₂ db') : Extends submits db db' := by
  obtain ⟨w, dbw, hwrote, hends, -, -⟩ := hc.ends hw hb hplaced
  obtain ⟨he, heid⟩ := mem_of_find?_key hc.authorized.execution
  obtain ⟨hmem, -, hexec⟩ := hc.authorized.attempt
  have hlocked : ∀ d ∈ l.deliveries, d ∈ db.deliveries ∧ db.work.IsInput l.execution.id d.id :=
    fun d hd => mem_lockDeliveries.1 (hc.authorized.deliveries ▸ hd)
  obtain ⟨correlationId, hgroup⟩ := hw.group _ he
  have hregion : ∀ d ∈ l.deliveries, d.regionId = l.execution.regionId := fun d hd =>
    congrArg GroupKey.regionId (hgroup d (hlocked d hd).1 (hlocked d hd).2)
  obtain ⟨first, hfirst, hemits⟩ := hwrote.emits heid hregion
  obtain ⟨hfirst, hinput⟩ := hlocked first hfirst
  rw [heid, ← hexec] at hinput
  have hleased := (hw.held l.attempt hmem hc.authorized.active first hfirst hinput).1
  refine ⟨fun c h => hc.commands hb ▸ h, hc.settled hw hb, fun d' hd' => ?_⟩
  rcases List.mem_append.1 (hends.deliveries ▸ List.mem_map_of_mem hd') with h | h
  · obtain ⟨d, hd, heq⟩ := List.mem_map.1 h
    exact Or.inl ⟨d, hd, (Delivery.of_asRouted_eq heq).1, (Delivery.of_asRouted_eq heq).2.1⟩
  · obtain ⟨e, -, -, hr, hcorrelation⟩ := hemits.delivery _ h
    exact Or.inr (Or.inr ⟨first, hfirst, hleased, hr.symm, hcorrelation.symm⟩)

/-- A cancellation records its command, which routes nothing. -/
theorem cancelRun (hw : Work.Coherent P placed db.work) {context : OperatorContext} {runId : Uuid}
    {input : RunCancellationRequest} {receipt : CancellationReceipt}
    (h : cancelRun P now context runId input db = .ok (receipt, db')) : Extends submits db db' := by
  unfold FactoryFloor.cancelRun at h
  obtain ⟨_, -, h⟩ := Except.bind_eq_ok.1 h
  obtain ⟨_, -, h⟩ := Except.bind_eq_ok.1 h
  obtain ⟨reason, -, h⟩ := Except.bind_eq_ok.1 h
  dsimp only at h
  split at h
  · simp at h
  obtain ⟨_, -, h⟩ := Except.bind_eq_ok.1 h
  split at h
  · obtain ⟨_, -, h⟩ := Except.bind_eq_ok.1 h
    obtain ⟨-, rfl⟩ := Prod.mk.inj (Except.ok.inj h)
    exact .refl
  obtain ⟨_, -, h⟩ := Except.bind_eq_ok.1 h
  obtain ⟨commands, hcommands, h⟩ := Except.bind_eq_ok.1 h
  obtain ⟨⟨event, db₁⟩, hevent, h⟩ := Except.bind_eq_ok.1 h
  obtain ⟨db₂, hcancel, h⟩ := Except.bind_eq_ok.1 h
  obtain ⟨-, rfl⟩ := Prod.mk.inj (Except.ok.inj h)
  obtain ⟨hnew, -⟩ := insertCommand_eq_ok (sql_eq_ok.1 hcommands)
  obtain ⟨n, payload, -, -, -, streams, rfl⟩ := insertEvent_eq_ok hevent
  refine ⟨fun c hc => ?_, ?_, fun d' hd' => Or.inl ?_⟩
  · rw [cancelRows_commands hcancel]
    exact hnew ▸ List.mem_append_left _ hc
  · have hsettled := cancelRows_settled (by exact hw.deliveriesKeyed) rfl hcancel
    exact hsettled
  · have hrecord : Refines P placed (fun _ _ => True) (fun _ => True) db
        { ({ db.draw with commands } : Db).draw with streams, events := db.events ++ [event] } :=
      Refines.of_work rfl rfl (Nat.le_add_right db.drawn 2) rfl
    have hschedules : Schedules P (fun _ _ => True) (fun _ => True) _ db₂ :=
      cancelRows_schedules (hrecord.coherent hw) rfl rfl rfl hcancel
    have hrouted : db₂.deliveries.map Delivery.asRouted = db.deliveries.map Delivery.asRouted :=
      hschedules.asRouted
    obtain ⟨d, hd, heq⟩ := List.mem_map.1 (hrouted ▸ List.mem_map_of_mem hd')
    exact ⟨d, hd, (Delivery.of_asRouted_eq heq).1, (Delivery.of_asRouted_eq heq).2.1⟩

end Extends

/-- What any step of the runtime adds. -/
theorem Step.extends (hs : Sound P s) (hst : Step P s l t) :
    Extends (SubmitsTo P s l t.db) s.db t.db := by
  have hw := hs.coherent
  cases hst with
  | tick | envelope | uploadBlob | read | recoverSubmission | reject | crashProcess | crashPass
  | scanExpired => exact .refl
  | submit hop =>
    rcases submit_commands hop with rfl | ⟨command, hrecords, hfresh⟩
    · exact .refl
    · exact .records ⟨_, _, rfl, hop⟩ hfresh hrecords
  | @lease options acquired leased db hop =>
    have hschedules : Schedules P (fun _ _ => True) (fun _ => True) s.db db :=
      leaseNextAttempt_schedules hw (fun _ _ => trivial) (fun _ _ _ _ _ => trivial) hop
    exact .routeless (leaseNextAttempt_commands hop) hschedules.asRouted fun d hd ht =>
      (leaseNextAttempt_sameTerminal hw.deliveriesKeyed hop d ht).2 hd
  | @heartbeat leaseDurationMs input reply db hduration hop =>
    have hschedules : Schedules P (fun _ _ => True) (fun _ => True) s.db db :=
      heartbeat_schedules hw trivial hop
    exact .routeless (heartbeat_commands hop) hschedules.asRouted
      fun d hd ht => (heartbeat_sameTerminal hop d ht).2 hd
  | stage hop => exact .aside (stage_still hop).toAside
  | recordUpload hblob hop => exact .aside (recordUpload_still hop).toAside
  | handoff hop => exact .aside (handoff_still hop).toAside
  | commit henv hmem hop =>
    rcases commitTx_eq_ok hop with ⟨-, rfl, -⟩ | ⟨locked, db₁, db₂, hc⟩
    · exact .refl
    · exact .commits hw hs.backed (connectionsPlaced hw hs.wellFormed) hc
  | delete hmem => exact .aside (P := P) (deleteSubmission_still _ _ _).toAside
  | @recoverExpired now attemptId remaining recovered db pre post hmem hop =>
    have hschedules : Schedules P (fun _ _ => True) (fun _ => True) s.db db :=
      recoverExpired_schedules hw hop
    exact .routeless (recoverExpired_commands hop) hschedules.asRouted
      (recoverExpired_settled hw hop)
  | @releaseOrphans now db pre post hmem hop =>
    have hnone : ∀ a ∈ s.db.attempts, ¬expired now a := fun a ha he => by
      simpa using (hs.passes { now, remaining := [] } (by simp [hmem])).2 a ha he
    obtain rfl := releaseOrphans_eq_self hw hnone hop
    exact .refl
  | @settle now regionId db hop =>
    have hschedules : Schedules P (fun _ _ => True) (fun _ => True) s.db db :=
      settleCancelling_schedules hw hop
    exact .routeless (settleCancelling_commands hop) hschedules.asRouted
      (settleCancelling_settled hop)
  | cancelRun hop => exact .cancelRun hw hop
  | requestCancellation => exact .routeless rfl rfl fun _ hd _ => hd
  | maintain hop => exact .aside (P := P) (maintain_aside hop)

/-! ## A run that is done -/

/-- The deliveries of a run are those of another state. -/
def Frozen (run : Command) (deliveries : List Delivery) (db : Db) : Prop :=
  ∀ d, ofRun run d → (d ∈ db.deliveries ↔ d ∈ deliveries)

theorem ofRun_congr {d d' : Delivery} (hregion : d.regionId = d'.regionId)
    (hcorrelation : d.correlationId = d'.correlationId) : ofRun run d = ofRun run d' := by
  rw [ofRun, ofRun, hregion, hcorrelation]

/-- The deliveries of a run stay when all of them are terminal. -/
theorem Frozen.step {deliveries : List Delivery}
    (hdone : ∀ d ∈ deliveries, ofRun run d → d.status.terminal) (hs : Sound P s)
    (h : Frozen run deliveries s.db) (hst : Step P s l t) (hnone : submitsNone P run s l) :
    Frozen run deliveries t.db := by
  have hext := hst.extends hs
  have hkeyed : Keyed (·.id) t.db.deliveries :=
    (hst.anyEffect hs).refines.coherent hs.coherent |>.deliveriesKeyed
  intro d hrun
  refine ⟨fun hd => ?_, fun hd => ?_⟩
  · rcases hext.origin d hd with ⟨e, he, hid, hgroup⟩ | ⟨⟨input, result, rfl, hop⟩, c, hc, hnew, hof⟩ |
        ⟨e, he, hleased, hr, hcorr⟩
    · have hof : ofRun run e := by
        rwa [ofRun_congr (congrArg GroupKey.regionId hgroup) (congrArg GroupKey.correlationId hgroup)]
      have hmem := (h e hof).1 he
      obtain rfl := hkeyed.eq (hext.settled e he (hdone e hmem hof)) hd hid
      exact hmem
    · exact absurd (hnone result _ hop c hc (sameRun_of_ofRun hof hrun)) hnew
    · have hof : ofRun run e := by rwa [ofRun_congr hr hcorr]
      have := hdone e ((h e hof).1 he) hof
      simp [hleased, DeliveryStatus.terminal] at this
  · exact hext.settled d ((h d hrun).2 hd) (hdone d hd hrun)

theorem Frozen.later (h : (runtime P).Reachable s)
    (hdone : ∀ d ∈ s.db.deliveries, ofRun run d → d.status.terminal)
    (hst : (runtimeWithout P run).Later s t) : Frozen run s.db.deliveries t.db := by
  induction hst with
  | refl => exact fun d _ => Iff.rfl
  | next hl hs ih => exact ih.step hdone (reachable_sound (h.later hl.of_restrict)) hs.1 hs.2

theorem commands_later (h : (runtime P).Reachable s) (hst : (runtime P).Later s t) :
    ∀ c ∈ s.db.commands, c ∈ t.db.commands :=
  hst.preserves (P := fun u => ∀ c ∈ s.db.commands, c ∈ u.db.commands)
    (fun _ _ _ hu hc hs c hmem => (hs.extends (reachable_sound hu)).commands c (hc c hmem)) h
    fun _ hc => hc

theorem closed_later {ids : Uuid → Prop} (h : (runtime P).Reachable s)
    (hclosed : s.db.work.Closed ids) (hst : (runtime P).Later s t) : t.db.work.Closed ids :=
  hst.preserves (P := fun u => u.db.work.Closed ids) (fun _ _ _ hu hc hs =>
    have hsound := reachable_sound hu
    (hc.steps hsound.coherent (hs.anyEffect hsound).refines.steps).1) h hclosed

theorem findRun_eq_ok {runId : Uuid} (h : findRun runId db = .ok run) :
    run ∈ db.commands ∧ run.id = runId := by
  unfold findRun at h
  split at h
  · simp at h
  · rename_i c hfind
    obtain ⟨_, -, h⟩ := Except.bind_eq_ok.1 h
    obtain ⟨_, -, h⟩ := Except.bind_eq_ok.1 h
    obtain rfl := Except.ok.inj h
    exact mem_of_find?_key hfind

/-- A run is found as it was. -/
theorem findRun_later {runId : Uuid} {run' : Command} (h : (runtime P).Reachable s)
    (hst : (runtime P).Later s t) (hrun : findRun runId s.db = .ok run)
    (hrun' : findRun runId t.db = .ok run') : run' = run := by
  obtain ⟨hmem, hid⟩ := findRun_eq_ok hrun
  obtain ⟨hmem', hid'⟩ := findRun_eq_ok hrun'
  exact (reachable_lineage (h.later hst)).commands.eq hmem' (commands_later h hst run hmem)
    (hid'.trans hid.symm)

/-! ## Reports -/

theorem length_filter_pos {α : Type} {p : α → Bool} {as : List α} :
    0 < (as.filter p).length ↔ ∃ a ∈ as, p a := by
  simp [List.length_pos_iff_exists_mem]

theorem runStatus_finished {commandStatus : CommandStatus} {deliveryCounts : DeliveryStatus → ℕ}
    {executionCounts : ExecutionStatus → ℕ} {cancelled failed : ℕ} :
    (runStatus commandStatus deliveryCounts executionCounts cancelled failed).finished ↔
      commandStatus ≠ .rejected ∧ ¬0 < executionCounts .running ∧
        (¬0 < deliveryCounts .ready ∧ ¬0 < deliveryCounts .leased) ∧
        (0 < cancelled ∨ 0 < deliveryCounts .cancelled ∨ 0 < failed ∨
          0 < executionCounts .completed) := by
  unfold runStatus
  split_ifs <;> grind [RunStatus.finished]

/-- A report is of a run that is done when no execution that is read runs, every delivery that is
read is terminal, and one of them says how the run ended. -/
theorem runReport_finished {deliveries : List Delivery} {executions : List Execution}
    {attempts : List ExecutionAttempt} {pendingApprovalCount : ℕ} :
    (runReport run deliveries executions attempts pendingApprovalCount).status.finished ↔
      run.status ≠ .rejected ∧ (∀ e ∈ executions, e.status ≠ .running) ∧
        (∀ d ∈ deliveries, d.status.terminal) ∧
        ((∃ e ∈ executions, isOperatorCancellation e.failure) ∨
          (∃ d ∈ deliveries, d.status = .cancelled) ∨ (∃ e ∈ executions, e.failedItself) ∨
          ∃ e ∈ executions, e.status = .completed) := by
  have hopen : ∀ d : Delivery, d.status.terminal ↔ d.status ≠ .ready ∧ d.status ≠ .leased := by
    intro d
    cases hs : d.status <;> simp [DeliveryStatus.terminal]
  simp only [runReport, runStatus_finished, length_filter_pos, decide_eq_true_eq, hopen]
  simp only [not_exists, not_and, forall_and]

theorem mem_graphDeliveries {d : Delivery} :
    d ∈ graphDeliveries run db ↔ d ∈ db.deliveries ∧ ofRun run d := by
  rw [graphDeliveries, (List.perm_insertionSort _ _).mem_iff, List.mem_filter]

theorem mem_graphExecutions {deliveries : List Delivery} {e : Execution} :
    e ∈ graphExecutions deliveries db ↔
      e ∈ db.executions ∧ ∃ d ∈ deliveries, d.id = e.deliveryId := by
  rw [graphExecutions, (List.perm_insertionSort _ _).mem_iff, List.mem_filter, decide_eq_true_iff,
    List.mem_map]

theorem StatusCall.report_eq_ok {call : StatusCall} {runId : Uuid} {pendingApprovalCount : ℕ}
    {report : RunReport} (h : call.report runId pendingApprovalCount = .ok report) :
    ∃ run, findRun runId call.asked.db = .ok run ∧ ∃ attempts,
      report = runReport run (graphDeliveries run call.deliveries.db)
        (graphExecutions (graphDeliveries run call.deliveries.db) call.executions.db) attempts
        pendingApprovalCount := by
  obtain ⟨run, hrun, h⟩ := Except.bind_eq_ok.1 h
  exact ⟨run, hrun, _, (Except.ok.inj h).symm⟩

/-! ## A terminal status -/

/-- What a report of a terminal status says : the deliveries of the run are terminal from the first
read of its rows on, and later calls report that the run is done. -/
structure TerminalStatus (P : Platform) (run : Command) (call : StatusCall) : Prop where
  deliveries : ∀ t, (runtimeWithout P run).Later call.deliveries t →
    ∀ d ∈ t.db.deliveries, ofRun run d → d.status.terminal
  later : ∀ call' : StatusCall, (runtimeWithout P run).Later call.attempts call'.asked →
    call'.Ordered (runtimeWithout P run) → ∀ pendingApprovalCount report,
      call'.report run.id pendingApprovalCount = .ok report → report.status.finished

/-- A report of a terminal status is accurate, and stays so while no command of the run is
submitted. -/
theorem terminal_status_stable {call : StatusCall} {runId : Uuid} {pendingApprovalCount : ℕ}
    {report : RunReport} (h : (runtime P).Reachable call.asked)
    (hcall : call.Ordered (runtimeWithout P run)) (hrun : findRun runId call.asked.db = .ok run)
    (hreport : call.report runId pendingApprovalCount = .ok report)
    (hfinished : report.status.finished) : TerminalStatus P run call := by
  obtain ⟨run', hrun', attempts, rfl⟩ := StatusCall.report_eq_ok hreport
  obtain rfl := Except.ok.inj (hrun.symm.trans hrun')
  obtain ⟨hrejected, hidle, hdone, hend⟩ := runReport_finished.1 hfinished
  have hreachable := h.later hcall.deliveries.of_restrict
  have hdone : ∀ d ∈ call.deliveries.db.deliveries, ofRun run d → d.status.terminal :=
    fun d hd hof => hdone d (mem_graphDeliveries.2 ⟨hd, hof⟩)
  have hfrozen : ∀ t, (runtimeWithout P run).Later call.deliveries t →
      Frozen run call.deliveries.db.deliveries t.db := fun t ht => .later hreachable hdone ht
  refine ⟨fun t ht d hd hof => hdone d ((hfrozen t ht d hof).1 hd) hof,
    fun call' hlater hcall' n' report' hreport' => ?_⟩
  obtain ⟨run', hrun', attempts', rfl⟩ := StatusCall.report_eq_ok hreport'
  -- the later call reads the same run and the same deliveries
  have hexecutions := hcall.deliveries.trans hcall.executions
  have hasked := (hexecutions.trans hcall.attempts).trans hlater
  obtain rfl : run' = run :=
    findRun_later h hasked.of_restrict ((findRun_eq_ok hrun).2 ▸ hrun) hrun'
  have hsame : ∀ {t : State}, (runtimeWithout P run').Later call.deliveries t → ∀ d,
      d ∈ graphDeliveries run' t.db ↔ d ∈ graphDeliveries run' call.deliveries.db := by
    intro t ht d
    simp only [mem_graphDeliveries]
    exact and_congr_left fun hof => hfrozen t ht d hof
  have hread' := hsame (((hcall.executions.trans hcall.attempts).trans hlater).trans hcall'.deliveries)
  -- the executions that were closed when they were read stay as they are
  have hbetween : (runtimeWithout P run').Later call.executions call'.executions :=
    ((hcall.attempts.trans hlater).trans hcall'.deliveries).trans hcall'.executions
  have hreachable' := h.later hexecutions.of_restrict
  have hkeyed := (reachable_sound hreachable').coherent.deliveriesKeyed
  have hread := hfrozen _ hcall.executions
  have hclosed : call.executions.db.work.Closed (deliveriesOf run' call.deliveries.db) := by
    refine ⟨fun id hid => ?_, fun d hd hid => ?_, fun e he hid => ?_⟩
    · obtain ⟨d, hd, hof, rfl⟩ := hid
      exact ⟨d, (hread d hof).2 hd, rfl⟩
    · obtain ⟨d₀, hd₀, hof, hid⟩ := hid
      obtain rfl := hkeyed.eq ((hread d₀ hof).2 hd₀) hd hid
      exact hdone d₀ hd₀ hof
    · obtain ⟨d, hd, hof, hid⟩ := hid
      exact hidle e (mem_graphExecutions.2 ⟨he, d, mem_graphDeliveries.2 ⟨hd, hof⟩, hid⟩)
  have hkept : ∀ e ∈ graphExecutions (graphDeliveries run' call.deliveries.db) call.executions.db,
      e ∈ graphExecutions (graphDeliveries run' call'.deliveries.db) call'.executions.db := by
    intro e he
    obtain ⟨hmem, d, hd, hid⟩ := mem_graphExecutions.1 he
    obtain ⟨e', he', -, -, -, -, hsame'⟩ :=
      (later_persists hreachable' hbetween.of_restrict).executions e hmem
    exact mem_graphExecutions.2 ⟨hsame' (hidle e he) ▸ he', d, (hread' d).2 hd, hid⟩
  refine runReport_finished.2 ⟨hrejected, fun e he => ?_, fun d hd => ?_, ?_⟩
  · obtain ⟨hmem, d, hd, hid⟩ := mem_graphExecutions.1 he
    obtain ⟨hd, hof⟩ := mem_graphDeliveries.1 ((hread' d).1 hd)
    exact (closed_later hreachable' hclosed hbetween.of_restrict).executions e hmem
      ⟨d, hd, hof, hid⟩
  · obtain ⟨hd, hof⟩ := mem_graphDeliveries.1 ((hread' d).1 hd)
    exact hdone d hd hof
  · rcases hend with ⟨e, he, hc⟩ | ⟨d, hd, hc⟩ | ⟨e, he, hc⟩ | ⟨e, he, hc⟩
    · exact Or.inl ⟨e, hkept e he, hc⟩
    · exact Or.inr (Or.inl ⟨d, (hread' d).2 hd, hc⟩)
    · exact Or.inr (Or.inr (Or.inl ⟨e, hkept e he, hc⟩))
    · exact Or.inr (Or.inr (Or.inr ⟨e, hkept e he, hc⟩))

theorem toOption_eq_some {α : Type} {x : Outcome α} {a : α} : x.toOption = some a ↔ x = .ok a := by
  cases x <;> simp [Except.toOption]

/-- A call whose reads see one state. -/
def StatusCall.at (s : State) : StatusCall :=
  ⟨s, s, s, s⟩

theorem terminal_status_stable_plant : ∃ s run report,
    runs samplePlatform plant committedRun = some s ∧ findRun 1000 s.db = .ok run ∧
      (StatusCall.at s).report 1000 0 = .ok report ∧ report.status = .completed ∧
      TerminalStatus samplePlatform run (.at s) := by
  have hsome : (runs samplePlatform plant committedRun).bind (fun s =>
      (findRun 1000 s.db).toOption.bind fun _ =>
        ((StatusCall.at s).report 1000 0).toOption.map (·.status)) = some .completed := rfl
  obtain ⟨s, hs, h⟩ := Option.bind_eq_some_iff.1 hsome
  obtain ⟨run, hrun, h⟩ := Option.bind_eq_some_iff.1 h
  obtain ⟨report, hreport, hstatus⟩ := Option.map_eq_some_iff.1 h
  have hrun := toOption_eq_some.1 hrun
  have hreport := toOption_eq_some.1 hreport
  exact ⟨s, run, report, hs, hrun, hreport, hstatus,
    terminal_status_stable (runs_reachable plant_reachable hs) ⟨.refl, .refl, .refl⟩ hrun hreport
      (by rw [hstatus]; rfl)⟩

end FactoryFloor
