import FactoryFloor.Execution

/-!
# The runs a cancellation leaves alone

A delivery descends from the command it was routed from, or from what the deliveries do that its
event's execution had as inputs (`Descends`). A run is a region and a correlation id, and clients
choose correlation ids. `Lineage` is the invariant : whatever descends from a command is of the
command's region and correlation id, and every delivery descends from a command.

So a cancellation leaves alone what descends from a command of another region or correlation id, and
counts rows of its own run only (`cancelRun_isolated`). Two commands of one region under one
correlation id are one run, and the cancellation of one cancels what descends from the other
(`shared_correlation_cancelled`).
-/

namespace FactoryFloor

open Relational Transition

variable {P : Platform} {placed : GroupKey → Prop} {allow : Work → List Delivery → Prop}
variable {late : Time → Prop} {db db' : Db} {now : Time} {s t : State} {l : Label}

/-! ## Commands -/

theorem updateDeliveries_commands {p : Delivery → Bool} {f : Delivery → Delivery}
    (h : updateDeliveries p f db = .ok db') : db'.commands = db.commands := by
  obtain ⟨rfl, -⟩ := updateDeliveries_eq_ok.1 h
  rfl

theorem updateExecutions_commands {p : Execution → Bool} {f : Execution → Execution}
    (h : updateExecutions p f db = .ok db') : db'.commands = db.commands := by
  obtain ⟨rfl, -⟩ := updateExecutions_eq_ok.1 h
  rfl

theorem updateAttempts_commands {p : ExecutionAttempt → Bool}
    {f : ExecutionAttempt → ExecutionAttempt} (h : updateAttempts p f db = .ok db') :
    db'.commands = db.commands := by
  obtain ⟨deliveries, -, rfl, -⟩ := updateAttempts_eq_ok.1 h
  rfl

theorem insertNextAttempt_commands {executionId : Uuid} {attemptNumber : ℕ} {startedAt : Time}
    (h : insertNextAttempt P executionId attemptNumber startedAt db = .ok db') :
    db'.commands = db.commands := by
  obtain ⟨attempts, -, h⟩ := Except.bind_eq_ok.1 h
  obtain rfl := Except.ok.inj h
  rfl

theorem leaseExecution_commands {owner : String} {expiresAt : Time} {group : GroupKey}
    {selected : List Delivery} {e : Execution} {created : Bool}
    {leased : Option LeasedExecutionAttempt}
    (h : leaseExecution P now owner expiresAt group selected e created db = .ok (leased, db')) :
    db'.commands = db.commands := by
  unfold leaseExecution at h
  obtain ⟨⟨admission, db₁⟩, hreserve, h⟩ := Except.bind_eq_ok.1 h
  obtain ⟨reservations, m, -, rfl⟩ := reserveInTransaction_frame hreserve
  dsimp only at h
  split at h
  · obtain ⟨db₂, hdefer, h⟩ := Except.bind_eq_ok.1 h
    obtain ⟨-, rfl⟩ := Prod.mk.inj (Except.ok.inj h)
    have hkept := updateDeliveries_commands hdefer
    exact hkept
  · obtain ⟨db₂, hinputs, h⟩ := Except.bind_eq_ok.1 h
    obtain ⟨inputs, rfl, -, -⟩ := insertInputs_eq_ok hinputs
    obtain ⟨⟨result, db₃⟩, hattempt, h⟩ := Except.bind_eq_ok.1 h
    have hkept : db₃.commands = db.commands := by
      rcases leaseAttempt_eq_ok hattempt with
        ⟨b, -, -, -, -, hupdate⟩ | ⟨-, rfl, -⟩ | ⟨-, b, -, -, -, -, -, -, -, rfl⟩
      · have hkept := updateAttempts_commands hupdate
        exact hkept
      · rfl
      · rfl
    cases result with
    | none =>
      obtain ⟨db₄, hdefer, h⟩ := Except.bind_eq_ok.1 h
      obtain ⟨-, rfl⟩ := Prod.mk.inj (Except.ok.inj h)
      exact (updateDeliveries_commands hdefer).trans hkept
    | some a =>
      obtain ⟨db₄, hlease, h⟩ := Except.bind_eq_ok.1 h
      obtain ⟨l, -, h⟩ := Except.bind_eq_ok.1 h
      obtain ⟨-, rfl⟩ := Prod.mk.inj (Except.ok.inj h)
      exact (updateDeliveries_commands hlease).trans hkept

theorem tryCandidate_commands {owner : String} {expiresAt : Time} {acquired : GroupKey → Bool}
    {candidate : Delivery} {leased : Option LeasedExecutionAttempt}
    (h : tryCandidate P now owner expiresAt acquired candidate db = .ok (leased, db')) :
    db'.commands = db.commands := by
  unfold tryCandidate at h
  dsimp only at h
  split at h
  · obtain ⟨-, rfl⟩ := Prod.mk.inj (Except.ok.inj h)
    rfl
  obtain ⟨region, -, h⟩ := Except.bind_eq_ok.1 h
  split at h
  · obtain ⟨db₁, hdefer, h⟩ := Except.bind_eq_ok.1 h
    obtain ⟨-, rfl⟩ := Prod.mk.inj (Except.ok.inj h)
    exact updateDeliveries_commands hdefer
  obtain ⟨component, -, h⟩ := Except.bind_eq_ok.1 h
  obtain ⟨revision, -, h⟩ := Except.bind_eq_ok.1 h
  split at h
  · obtain ⟨db₁, hdefer, h⟩ := Except.bind_eq_ok.1 h
    obtain ⟨-, rfl⟩ := Prod.mk.inj (Except.ok.inj h)
    exact updateDeliveries_commands hdefer
  obtain ⟨⟨result, db₁⟩, hensure, hrest⟩ := Except.bind_eq_ok.1 h
  rcases ensureExecution_eq_ok hensure with
    ⟨rfl, rfl⟩ | ⟨e, -, rfl, rfl, -⟩ | ⟨e, rfl, rfl, -⟩
  · obtain ⟨db₂, hdefer, hrest⟩ := Except.bind_eq_ok.1 hrest
    obtain ⟨-, rfl⟩ := Prod.mk.inj (Except.ok.inj hrest)
    exact updateDeliveries_commands hdefer
  · exact leaseExecution_commands hrest
  · have hkept := leaseExecution_commands hrest
    exact hkept

theorem leaseNextAttempt_commands {options : LeaseNextAttemptOptions} {acquired : GroupKey → Bool}
    {leased : Option LeasedExecutionAttempt}
    (h : leaseNextAttempt P now options acquired db = .ok (leased, db')) :
    db'.commands = db.commands := by
  have htries : ∀ (cs : List Delivery) (db : Db),
      tryCandidates P now options.workerId (now + options.leaseDurationMs.toNat) acquired cs db =
        .ok (leased, db') → db'.commands = db.commands := by
    intro cs
    induction cs with
    | nil =>
      intro db h
      obtain ⟨-, rfl⟩ := Prod.mk.inj (Except.ok.inj h)
      rfl
    | cons c cs ih =>
      intro db h
      obtain ⟨⟨result, db₁⟩, htry, h⟩ := Except.bind_eq_ok.1 h
      cases result with
      | none => exact (ih db₁ h).trans (tryCandidate_commands htry)
      | some l =>
        obtain ⟨-, rfl⟩ := Prod.mk.inj (Except.ok.inj h)
        exact tryCandidate_commands htry
  unfold leaseNextAttempt at h
  obtain ⟨⟨⟩, -, h⟩ := Except.bind_eq_ok.1 h
  split at h
  · obtain ⟨-, rfl⟩ := Prod.mk.inj (Except.ok.inj h)
    rfl
  · exact htries _ _ h

theorem heartbeat_commands {leaseDurationMs : Time} {input : AttemptIdentityInput}
    {reply : HeartbeatReply} (h : heartbeat now leaseDurationMs input db = .ok (reply, db')) :
    db'.commands = db.commands := by
  unfold heartbeat at h
  obtain ⟨attempt, -, h⟩ := Except.bind_eq_ok.1 h
  obtain ⟨row, -, h⟩ := Except.bind_eq_ok.1 h
  obtain ⟨db₁, hupdate, h⟩ := Except.bind_eq_ok.1 h
  obtain ⟨-, rfl⟩ := Prod.mk.inj (Except.ok.inj h)
  exact updateAttempts_commands hupdate

theorem closeCompleted_commands {input : ProposedExecutionResult} {deliveries : List Delivery}
    (h : closeCompleted now input deliveries db = .ok db') : db'.commands = db.commands := by
  unfold closeCompleted at h
  obtain ⟨db₁, h₁, h⟩ := Except.bind_eq_ok.1 h
  obtain ⟨db₂, h₂, h₃⟩ := Except.bind_eq_ok.1 h
  exact (updateDeliveries_commands h₃).trans
    ((updateExecutions_commands h₂).trans (updateAttempts_commands h₁))

theorem failOrRetry_commands {input : ProposedExecutionResult} {execution : Execution}
    {attempt : ExecutionAttempt} {deliveries : List Delivery} {disposition : CommitDisposition}
    (h : failOrRetry P now input execution attempt deliveries db = .ok (disposition, db')) :
    db'.commands = db.commands := by
  unfold failOrRetry at h
  obtain ⟨db₁, h₁, h⟩ := Except.bind_eq_ok.1 h
  split at h
  · obtain ⟨db₂, h₂, h⟩ := Except.bind_eq_ok.1 h
    obtain ⟨db₃, h₃, h⟩ := Except.bind_eq_ok.1 h
    obtain ⟨-, rfl⟩ := Prod.mk.inj (Except.ok.inj h)
    exact (updateDeliveries_commands h₃).trans
      ((insertNextAttempt_commands h₂).trans (updateAttempts_commands h₁))
  · obtain ⟨db₂, h₂, h⟩ := Except.bind_eq_ok.1 h
    obtain ⟨db₃, h₃, h⟩ := Except.bind_eq_ok.1 h
    obtain ⟨-, rfl⟩ := Prod.mk.inj (Except.ok.inj h)
    exact (updateDeliveries_commands h₃).trans
      ((updateExecutions_commands h₂).trans (updateAttempts_commands h₁))

theorem Commits.commands {env : CommitEnv} {input : ProposedExecutionResult}
    {submissionDigest : Digest} {disposition : CommitDisposition} {l : Locked} {db₁ db₂ : Db}
    (hb : Backed db) (h : Commits P env input submissionDigest disposition l db db₁ db₂ db') :
    db'.commands = db.commands := by
  obtain ⟨w, dbw, hwrote⟩ := h.writes hb
  have hkept : dbw.commands = db.commands := by
    rw [hwrote.writes.scheduling, h.records.scheduling]
  rw [markCommitted_eq_ok h.mark]
  rcases hwrote.ends with ⟨-, hclose⟩ | ⟨-, hfail⟩
  · exact (closeCompleted_commands hclose).trans hkept
  · exact (failOrRetry_commands hfail).trans hkept

theorem recoverExpired_commands {attemptId : Uuid} {recovered : RecoveredAttempt}
    (h : recoverExpired P now attemptId db = .ok (recovered, db')) :
    db'.commands = db.commands := by
  unfold recoverExpired at h
  split at h
  · obtain ⟨-, rfl⟩ := Prod.mk.inj (Except.ok.inj h)
    rfl
  obtain ⟨execution, -, h⟩ := Except.bind_eq_ok.1 h
  obtain ⟨region, -, h⟩ := Except.bind_eq_ok.1 h
  unfold recoverAttempt at h
  obtain ⟨db₁, h₁, h⟩ := Except.bind_eq_ok.1 h
  have hkept := updateAttempts_commands h₁
  split at h
  · obtain ⟨db₂, h₂, h⟩ := Except.bind_eq_ok.1 h
    obtain ⟨db₃, h₃, h⟩ := Except.bind_eq_ok.1 h
    obtain ⟨-, rfl⟩ := Prod.mk.inj (Except.ok.inj h)
    exact (updateDeliveries_commands h₃).trans ((insertNextAttempt_commands h₂).trans hkept)
  split at h
  · obtain ⟨db₂, h₂, h⟩ := Except.bind_eq_ok.1 h
    obtain ⟨db₃, h₃, h⟩ := Except.bind_eq_ok.1 h
    obtain ⟨-, rfl⟩ := Prod.mk.inj (Except.ok.inj h)
    exact (updateDeliveries_commands h₃).trans ((updateExecutions_commands h₂).trans hkept)
  · obtain ⟨-, rfl⟩ := Prod.mk.inj (Except.ok.inj h)
    exact hkept

theorem settleCancelling_commands {regionId : Uuid}
    (h : settleCancelling now regionId db = .ok db') : db'.commands = db.commands := by
  unfold settleCancelling at h
  split at h
  · rw [Except.ok.inj h]
  obtain ⟨db₁, h₁, h⟩ := Except.bind_eq_ok.1 h
  obtain ⟨db₂, h₂, h⟩ := Except.bind_eq_ok.1 h
  obtain ⟨db₃, h₃, h⟩ := Except.bind_eq_ok.1 h
  obtain ⟨regions, -, h⟩ := Except.bind_eq_ok.1 h
  obtain rfl := Except.ok.inj h
  exact (updateDeliveries_commands h₃).trans
    ((updateExecutions_commands h₂).trans (updateAttempts_commands h₁))

theorem cancelRows_commands {run : Command} {before : Db}
    (h : cancelRows now run before db = .ok db') : db'.commands = db.commands := by
  unfold cancelRows at h
  obtain ⟨db₁, h₁, h⟩ := Except.bind_eq_ok.1 h
  obtain ⟨db₂, h₂, h₃⟩ := Except.bind_eq_ok.1 h
  exact (updateDeliveries_commands h₃).trans
    ((updateExecutions_commands h₂).trans (updateAttempts_commands h₁))

/-- A command is inserted under a new id. -/
theorem insertCommand_eq_ok {command : Command} {commands commands' : List Command}
    (h : Relational.insert command commands = .ok commands') :
    commands' = commands ++ [command] ∧ ∀ c ∈ commands, c.id ≠ command.id := by
  obtain ⟨rfl, -, hunique⟩ := insert_eq_ok.1 h
  exact ⟨rfl, fun c hc hid => hunique ("commands_pkey", fun c d => c.id = d.id)
    (by simp [Row.uniques]) c hc (by simp [hid])⟩

theorem recordCommand_commands {command : Command} {revision : Option TopologyRevision}
    {eventPayload : Json} {result : Event × List Delivery}
    (h : recordCommand P now command revision eventPayload db = .ok (result, db')) :
    db'.commands = db.commands ++ [command] ∧ ∀ c ∈ db.commands, c.id ≠ command.id := by
  unfold recordCommand at h
  obtain ⟨commands, hcommands, h⟩ := Except.bind_eq_ok.1 h
  obtain ⟨⟨event, db₁⟩, hevent, h⟩ := Except.bind_eq_ok.1 h
  obtain ⟨⟨deliveries, db₂⟩, hroute, h⟩ := Except.bind_eq_ok.1 h
  obtain ⟨-, rfl⟩ := Prod.mk.inj (Except.ok.inj h)
  obtain ⟨rfl, hfresh⟩ := insertCommand_eq_ok (sql_eq_ok.1 hcommands)
  obtain ⟨n, payload, -, -, -, streams, rfl⟩ := insertEvent_eq_ok hevent
  refine ⟨?_, hfresh⟩
  unfold routeAccepted routeCommand at hroute
  split at hroute
  · obtain ⟨targets, -, hroute⟩ := Except.bind_eq_ok.1 hroute
    obtain ⟨new, rfl, -⟩ := routeTargets_eq_ok hroute
    rfl
  · obtain ⟨-, rfl⟩ := Prod.mk.inj (Except.ok.inj hroute)
    rfl

/-- A command that is recorded is new. -/
theorem submit_commands {input : SubmitCommandInput} {result : SubmitCommandResult}
    (h : submit P now input db = .ok (result, db')) :
    db' = db ∨ ∃ command, RecordsCommand P now command db db' ∧
      ∀ c ∈ db.commands, c.id ≠ command.id := by
  rcases submit_eq_ok h with rfl | ⟨command, hrecords⟩
  · exact Or.inl rfl
  refine Or.inr ⟨command, hrecords, ?_⟩
  have hnew : db'.commands = db.commands ++ [command] := by
    obtain ⟨event, streams, new, n, -, -, -, rfl, -⟩ := hrecords
    rfl
  have hfresh : db'.commands = db.commands ∨ ∃ c, db'.commands = db.commands ++ [c] ∧
      ∀ d ∈ db.commands, d.id ≠ c.id := by
    unfold submit at h
    obtain ⟨_, -, h⟩ := Except.bind_eq_ok.1 h
    obtain ⟨expiresAt, -, h⟩ := Except.bind_eq_ok.1 h
    split at h
    · simp at h
    dsimp only at h
    split at h
    · obtain ⟨_, -, h⟩ := Except.bind_eq_ok.1 h
      rw [(Prod.mk.inj (Except.ok.inj h)).2]
      exact Or.inl rfl
    obtain ⟨_, -, h⟩ := Except.bind_eq_ok.1 h
    obtain ⟨payload, -, h⟩ := Except.bind_eq_ok.1 h
    obtain ⟨_, -, h⟩ := Except.bind_eq_ok.1 h
    obtain ⟨⟨⟨event, deliveries⟩, db₁⟩, hrecord, h⟩ := Except.bind_eq_ok.1 h
    obtain ⟨-, rfl⟩ := Prod.mk.inj (Except.ok.inj h)
    exact Or.inr ⟨_, recordCommand_commands hrecord⟩
  rcases hfresh with hsame | ⟨c, hc, hfresh⟩
  · simp [hsame] at hnew
  · obtain rfl : c = command := by simpa using hc.symm.trans hnew
    exact hfresh

/-! ## Descent -/

/-- `source_execution_id`. -/
def EventSource.executionId? : EventSource → Option Uuid
  | .command _ => none
  | .component executionId _ _ _ => some executionId
  | .attempt executionId _ => some executionId

/-- A delivery descends from a command : the command was routed to it, or it is of an event of an
execution that has a descendant as an input. -/
inductive Descends (db : Db) (commandId : Uuid) : Uuid → Prop
  | routed {d : Delivery} (hd : d ∈ db.deliveries) (hsource : d.source = .command commandId) :
      Descends db commandId d.id
  | emitted {d : Delivery} {event : Event} {executionId deliveryId : Uuid} (hd : d ∈ db.deliveries)
      (hevent : event ∈ db.events) (hsource : d.source = .event event.id)
      (hexecution : event.source.executionId? = some executionId)
      (hinput : db.work.IsInput executionId deliveryId) (h : Descends db commandId deliveryId) :
      Descends db commandId d.id

/-- An execution descends from a command with its inputs. -/
def ExecutionDescends (db : Db) (commandId executionId : Uuid) : Prop :=
  ∃ deliveryId, db.work.IsInput executionId deliveryId ∧ Descends db commandId deliveryId

/-- What descends from a command is of its region and correlation id, and every delivery descends
from a command. -/
structure Lineage (db : Db) : Prop where
  commands : Keyed (·.id) db.commands
  routed : ∀ d ∈ db.deliveries, ∀ id, d.source = .command id →
    ∃ c ∈ db.commands, c.id = id ∧ ofRun c d
  emitter : ∀ event ∈ db.events, ∀ id, event.source.executionId? = some id →
    ∃ e ∈ db.executions, e.id = id ∧ ∀ d ∈ db.deliveries, db.work.IsInput id d.id →
      d.regionId = event.regionId ∧ d.correlationId = event.correlationId
  emitted : ∀ d ∈ db.deliveries, ∀ event ∈ db.events, d.source = .event event.id →
    event.source.executionId?.isSome →
      d.regionId = event.regionId ∧ d.correlationId = event.correlationId
  rooted : ∀ d ∈ db.deliveries, ∃ c ∈ db.commands, Descends db c.id d.id

/-- A delivery that descends from a command is of its run. -/
theorem Lineage.inRun (h : Lineage db) (hw : Work.Coherent P placed db.work) {c : Command}
    (hc : c ∈ db.commands) {deliveryId : Uuid} (hdescends : Descends db c.id deliveryId) :
    ∀ d ∈ db.deliveries, d.id = deliveryId → ofRun c d := by
  induction hdescends with
  | @routed d₀ hd₀ hsource =>
    intro d hd hid
    obtain rfl := hw.deliveriesKeyed.eq hd hd₀ hid
    obtain ⟨c', hc', hid', hrun⟩ := h.routed d hd _ hsource
    obtain rfl := h.commands.eq hc' hc hid'
    exact hrun
  | @emitted d₀ event executionId deliveryId hd₀ hevent hsource hexecution hinput _ ih =>
    intro d hd hid
    obtain rfl := hw.deliveriesKeyed.eq hd hd₀ hid
    obtain ⟨i, hi, hie, rfl⟩ := hinput
    obtain ⟨d', hd', hid', -⟩ := hw.inputDelivery i hi
    have hrun := ih d' hd' hid'
    obtain ⟨e, -, -, hinputs⟩ := h.emitter event hevent executionId hexecution
    obtain ⟨hregion', hcorrelation'⟩ := hinputs d' hd' ⟨i, hi, hie, hid'.symm⟩
    obtain ⟨hregion, hcorrelation⟩ := h.emitted d hd event hevent hsource (by simp [hexecution])
    simp only [ofRun, Bool.and_eq_true, decide_eq_true_eq] at hrun ⊢
    exact ⟨hregion.trans (hregion'.symm.trans hrun.1),
      hcorrelation.trans (hcorrelation'.symm.trans hrun.2)⟩

/-- An execution that descends from a command is of its run. -/
theorem Lineage.executionInRun (h : Lineage db) (hw : Work.Coherent P placed db.work) {c : Command}
    (hc : c ∈ db.commands) {e : Execution} (he : e ∈ db.executions)
    (hdescends : ExecutionDescends db c.id e.id) : e ∈ runExecutions c db := by
  obtain ⟨id, hinput, hdescends⟩ := hdescends
  obtain ⟨i, hi, hie, rfl⟩ := hinput
  obtain ⟨d, hd, hid, -⟩ := hw.inputDelivery i hi
  exact (ofRun_input hw he hd ⟨i, hi, hie, hid.symm⟩).1 (h.inRun hw hc hdescends d hd hid)

/-! ## The invariant -/

/-- What a row descends from, it descends from later. -/
theorem Descends.mono {commandId deliveryId : Uuid} (h : Descends db commandId deliveryId)
    (hdeliveries : ∀ d ∈ db.deliveries, ∃ d' ∈ db'.deliveries, d'.asRouted = d.asRouted)
    (hevents : ∀ e ∈ db.events, e ∈ db'.events) (hinputs : ∀ i ∈ db.inputs, i ∈ db'.inputs) :
    Descends db' commandId deliveryId := by
  induction h with
  | @routed d hd hsource =>
    obtain ⟨d', hd', heq⟩ := hdeliveries d hd
    obtain ⟨hid, -, hs⟩ := Delivery.of_asRouted_eq heq
    exact hid ▸ .routed hd' (hs.trans hsource)
  | @emitted d event executionId deliveryId hd hevent hsource hexecution hinput _ ih =>
    obtain ⟨d', hd', heq⟩ := hdeliveries d hd
    obtain ⟨hid, -, hs⟩ := Delivery.of_asRouted_eq heq
    obtain ⟨i, hi, hie⟩ := hinput
    exact hid ▸ .emitted hd' (hevents _ hevent) (hs.trans hsource) hexecution
      ⟨i, hinputs i hi, hie⟩ ih

/-- An execution keeps its id, its region and its inputs. -/
theorem Work.Step.inputs {w w' : Work} (h : Work.Step P placed allow late w w') :
    (∀ i ∈ w.inputs, i ∈ w'.inputs) ∧ ∀ e ∈ w.executions, ∃ e' ∈ w'.executions,
      e'.id = e.id ∧ e'.inputSetDigest = e.inputSetDigest := by
  have hsame : ∀ e ∈ w.executions, ∃ e' ∈ w.executions,
      e'.id = e.id ∧ e'.inputSetDigest = e.inputSetDigest := fun e he => ⟨e, he, rfl, rfl⟩
  cases h with
  | start _ _ _ _ _ _ _ _ _ _ _ hinputs =>
    exact ⟨fun i hi => (hinputs i).2 (Or.inl hi),
      fun e he => ⟨e, List.mem_append_left _ he, rfl, rfl⟩⟩
  | @close attempt execution status now failure p f g _ _ _ hg =>
    refine ⟨fun _ hi => hi, fun e he => ⟨_, mem_updateWhere.2 ⟨e, he, rfl⟩, ?_⟩⟩
    have hmoves := hg.ite (·.id = execution.id) e
    exact ⟨hmoves.1, hmoves.2.2.2.2⟩
  | @cancel now R p q r f g _ _ _ hg =>
    refine ⟨fun _ hi => hi, fun e he => ⟨_, mem_updateWhere.2 ⟨e, he, rfl⟩, ?_⟩⟩
    have hmoves := hg.ite q e
    exact ⟨hmoves.1, hmoves.2.2.2.2⟩
  | _ => exact ⟨fun _ hi => hi, hsame⟩

/-- The inputs of an execution that is there stay as they are. -/
theorem Refines.inputs (h : Refines P placed allow late db db')
    (hw : Work.Coherent P placed db.work) : (∀ i ∈ db.inputs, i ∈ db'.inputs) ∧
      ∀ e ∈ db.executions, ∃ e' ∈ db'.executions, e'.id = e.id ∧
        ∀ id, db'.work.IsInput e.id id ↔ db.work.IsInput e.id id := by
  have hrun := h.invariant (I := fun w => Work.Coherent P placed w ∧ (∀ i ∈ db.inputs, i ∈ w.inputs) ∧
      ∀ e ∈ db.executions, ∃ e' ∈ w.executions, e'.id = e.id ∧ e'.inputSetDigest = e.inputSetDigest)
    (fun w w' hI hstep => by
      obtain ⟨hinputs, hexecutions⟩ := hstep.inputs
      refine ⟨hI.1.step hstep, fun i hi => hinputs i (hI.2.1 i hi), fun e he => ?_⟩
      obtain ⟨e', he', hid, hdigest⟩ := hI.2.2 e he
      obtain ⟨e'', he'', hid', hdigest'⟩ := hexecutions e' he'
      exact ⟨e'', he'', hid'.trans hid, hdigest'.trans hdigest⟩)
    ⟨hw, fun _ hi => hi, fun e he => ⟨e, he, rfl, rfl⟩⟩
  refine ⟨hrun.2.1, fun e he => ?_⟩
  obtain ⟨e', he', hid, hdigest⟩ := hrun.2.2 e he
  refine ⟨e', he', hid, fun id => ?_⟩
  rw [← hid, hrun.1.digest e' he', hdigest, hid, hw.digest e he]

/-- An operation that routes nothing keeps the lineage. -/
theorem Lineage.routeless (h : Lineage db) (hw : Work.Coherent P placed db.work)
    (hrefines : Refines P placed (fun _ _ => True) (fun _ => True) db db')
    (hcommands : ∀ c ∈ db.commands, c ∈ db'.commands) (hkeyed : Keyed (·.id) db'.commands)
    (hrouted : db'.deliveries.map Delivery.asRouted = db.deliveries.map Delivery.asRouted)
    (hevents : ∃ new, db'.events = db.events ++ new ∧ ∀ e ∈ new, e.source.executionId? = none) :
    Lineage db' := by
  obtain ⟨hinputs, hexecutions⟩ := hrefines.inputs hw
  obtain ⟨new, hnew, hnone⟩ := hevents
  have hback : ∀ d' ∈ db'.deliveries, ∃ d ∈ db.deliveries,
      d.id = d'.id ∧ d.toGroupKey = d'.toGroupKey ∧ d.source = d'.source := by
    intro d' hd'
    obtain ⟨d, hd, heq⟩ := List.mem_map.1 (hrouted ▸ List.mem_map_of_mem hd')
    exact ⟨d, hd, Delivery.of_asRouted_eq heq⟩
  have hforth : ∀ d ∈ db.deliveries, ∃ d' ∈ db'.deliveries, d'.asRouted = d.asRouted := by
    intro d hd
    obtain ⟨d', hd', heq⟩ := List.mem_map.1 (hrouted.symm ▸ List.mem_map_of_mem hd)
    exact ⟨d', hd', heq⟩
  have hold : ∀ e ∈ db'.events, e.source.executionId?.isSome → e ∈ db.events := by
    intro e he hsome
    rcases List.mem_append.1 (hnew ▸ he) with he | he
    · exact he
    · simp [hnone e he] at hsome
  refine ⟨hkeyed, fun d' hd' id hsource => ?_, fun event hevent id hid => ?_,
    fun d' hd' event hevent hsource hsome => ?_, fun d' hd' => ?_⟩
  · obtain ⟨d, hd, -, hgroup, hs⟩ := hback d' hd'
    obtain ⟨c, hc, hcid, hrun⟩ := h.routed d hd id (hs.trans hsource)
    refine ⟨c, hcommands c hc, hcid, ?_⟩
    rwa [ofRun, ← hgroup]
  · obtain ⟨e, he, heid, hall⟩ := h.emitter event (hold event hevent (by simp [hid])) id hid
    obtain ⟨e', he', hid', hsame⟩ := hexecutions e he
    refine ⟨e', he', hid'.trans heid, fun d' hd' hinput => ?_⟩
    obtain ⟨d, hd, hdid, hgroup, -⟩ := hback d' hd'
    rw [← hgroup]
    refine hall d hd ?_
    rw [← heid] at hinput ⊢
    rw [hdid]
    exact (hsame d'.id).1 hinput
  · obtain ⟨d, hd, -, hgroup, hs⟩ := hback d' hd'
    rw [← hgroup]
    exact h.emitted d hd event (hold event hevent hsome) (hs.trans hsource) hsome
  · obtain ⟨d, hd, hid, -⟩ := hback d' hd'
    obtain ⟨c, hc, hdescends⟩ := h.rooted d hd
    refine ⟨c, hcommands c hc, hid ▸ hdescends.mono hforth (fun e he => ?_) hinputs⟩
    exact hnew ▸ List.mem_append_left _ he

/-- An operation that only schedules keeps the lineage. -/
theorem Lineage.schedules (h : Lineage db) (hw : Work.Coherent P placed db.work)
    (hschedules : Schedules P (fun _ _ => True) (fun _ => True) db db')
    (hcommands : db'.commands = db.commands) : Lineage db' := by
  refine h.routeless hw hschedules.refines (fun c hc => hcommands ▸ hc) (hcommands ▸ h.commands)
    hschedules.asRouted ⟨[], ?_, by simp⟩
  rw [hschedules.publications, List.append_nil]

/-- An operation outside the tables of scheduling keeps the lineage. -/
theorem Lineage.aside (h : Lineage db) (hw : Work.Coherent P placed db.work)
    (haside : Aside P db db') : Lineage db' := by
  obtain ⟨new, hnew, hnone⟩ := haside.quiet.events
  have hscheduling := haside.scheduling
  refine h.routeless hw haside.refines
    (fun c hc => by rw [hscheduling]; exact hc) (by rw [hscheduling]; exact h.commands)
    (by rw [hscheduling]) ⟨new, hnew, fun e he => ?_⟩
  have := hnone e he
  cases hs : e.source with
  | command => rfl
  | component | attempt => simp [hs, EventSource.attemptId?] at this

/-- A new command is the root of its deliveries. -/
theorem Lineage.records (h : Lineage db) (hw : Work.Coherent P placed db.work) {command : Command}
    (hfresh : ∀ c ∈ db.commands, c.id ≠ command.id)
    (hrecords : RecordsCommand P now command db db') : Lineage db' := by
  obtain ⟨event, streams, new, n, hn, hsource, -, rfl, hkeyed, hnew⟩ := hrecords
  have hnone : event.source.executionId? = none := by rw [hsource]; rfl
  have hnew : ∀ d ∈ new, ofRun command d ∧ d.source = .command command.id ∧
      Work.Drawn P db.drawn n d.id := by
    intro d hd
    obtain ⟨r, -, -, v, -, -, c, -, -, portName, k, hk, hk', rfl⟩ := hnew d hd
    refine ⟨?_, rfl, k, by omega, hk', rfl⟩
    simp only [ofRun, Bool.and_eq_true, decide_eq_true_eq]
    exact ⟨rfl, rfl⟩
  have hold : ∀ e ∈ db.events ++ [event], e.source.executionId?.isSome → e ∈ db.events := by
    intro e he hsome
    rcases List.mem_append.1 he with he | he
    · exact he
    · simp [List.mem_singleton.1 he, hnone] at hsome
  refine ⟨h.commands.append hfresh, fun d hd id hid => ?_, fun ev hev id hid => ?_,
    fun d hd ev hev hs hsome => ?_, fun d hd => ?_⟩
  · rcases List.mem_append.1 hd with hd | hd
    · obtain ⟨c, hc, h⟩ := h.routed d hd id hid
      exact ⟨c, List.mem_append_left _ hc, h⟩
    · obtain ⟨hrun, hs, -⟩ := hnew d hd
      exact ⟨command, by simp, DeliverySource.command.inj (hs.symm.trans hid), hrun⟩
  · obtain ⟨e, he, heid, hall⟩ := h.emitter ev (hold ev hev (by simp [hid])) id hid
    refine ⟨e, he, heid, fun d hd hinput => ?_⟩
    rcases List.mem_append.1 hd with hd | hd
    · exact hall d hd hinput
    · exact absurd hinput (hw.not_isInput (hnew d hd).2.2 le_rfl)
  · rcases List.mem_append.1 hd with hd | hd
    · exact h.emitted d hd ev (hold ev hev hsome) hs hsome
    · rw [(hnew d hd).2.1] at hs
      simp at hs
  · rcases List.mem_append.1 hd with hd | hd
    · obtain ⟨c, hc, hdescends⟩ := h.rooted d hd
      exact ⟨c, List.mem_append_left _ hc, hdescends.mono
        (fun d hd => ⟨d, List.mem_append_left _ hd, rfl⟩) (fun _ he => List.mem_append_left _ he)
        fun _ hi => hi⟩
    · exact ⟨command, by simp, .routed (List.mem_append_right _ hd) (hnew d hd).2.1⟩

/-- The rows a commit writes are of the group of its inputs. -/
structure Emits (l : Locked) (first : Delivery) (w : Written) : Prop where
  event : ∀ e ∈ w.events, e.source.executionId? = some l.execution.id ∧
    first.regionId = e.regionId ∧ first.correlationId = e.correlationId
  delivery : ∀ d ∈ w.deliveries, ∃ e ∈ w.events, d.source = .event e.id ∧
    d.regionId = first.regionId ∧ d.correlationId = first.correlationId

theorem Wrote.emits {env : CommitEnv} {input : ProposedExecutionResult}
    {disposition : CommitDisposition} {l : Locked} {w : Written} {db₁ dbw db₂ : Db}
    (h : Wrote P env input disposition l db₁ w dbw db₂) (hid : l.execution.id = input.executionId)
    (hregion : ∀ d ∈ l.deliveries, d.regionId = l.execution.regionId) :
    ∃ first ∈ l.deliveries, Emits l first w := by
  obtain ⟨first, hfirst, hdescribes⟩ := h.describes
  have hmem : first ∈ l.deliveries := List.mem_of_mem_head? hfirst
  have hfirstRegion := hregion first hmem
  refine ⟨first, hmem, ?_⟩
  by_cases hc : input.status = .completed
  · obtain ⟨rows, outputs, events, -, hevents, hdeliveries, hrows, -, hproposed, -⟩ :=
      hdescribes.completed hc
    refine ⟨fun e he => ?_, fun d hd => ?_⟩
    · rcases List.mem_append.1 (hevents ▸ he) with he | he
      · obtain ⟨r, hr, rfl⟩ := List.mem_map.1 he
        obtain ⟨_, -, hout⟩ := exists_of_forall₂ hrows hr
        rw [hout.source, hout.regionId, hout.correlationId, hid]
        exact ⟨rfl, hfirstRegion, rfl⟩
      · obtain ⟨_, -, hev⟩ := exists_of_forall₂ hproposed he
        rw [hev.source, hev.regionId, hev.correlationId, hid]
        exact ⟨rfl, hfirstRegion, rfl⟩
    · obtain ⟨r, hr, hd⟩ := List.mem_flatMap.1 (hdeliveries ▸ hd)
      obtain ⟨_, -, hout⟩ := exists_of_forall₂ hrows hr
      obtain ⟨at_, id, t, -, rfl⟩ := hout.routed d hd
      refine ⟨r.event, hevents ▸ List.mem_append_left _ (List.mem_map_of_mem hr), rfl, ?_⟩
      exact ⟨hout.regionId.trans hfirstRegion.symm, hout.correlationId⟩
  · have hw := hdescribes.failed hc
    constructor <;> rw [hw] <;> simp [Written.ofLedger, Written.none]

/-- A commit keeps the lineage. -/
theorem Lineage.commits (h : Lineage db) (hw : Work.Coherent P placed db.work) (hb : Backed db)
    (hplaced : ConnectionsPlaced placed db)
    (hrefines : Refines P placed (fun _ _ => True) (fun _ => True) db db')
    {env : CommitEnv} {input : ProposedExecutionResult} {submissionDigest : Digest}
    {disposition : CommitDisposition} {l : Locked} {db₁ db₂ : Db}
    (hc : Commits P env input submissionDigest disposition l db db₁ db₂ db') : Lineage db' := by
  obtain ⟨w, dbw, hwrote, hends, -, -⟩ := hc.ends hw hb hplaced
  obtain ⟨he, heid⟩ := mem_of_find?_key hc.authorized.execution
  obtain ⟨hinputs, hexecutions⟩ := hrefines.inputs hw
  have hcommands := hc.commands hb
  -- the inputs of the execution are one group
  have hlocked : ∀ d ∈ l.deliveries, d ∈ db.deliveries ∧ db.work.IsInput l.execution.id d.id := by
    intro d hd
    rw [hc.authorized.deliveries, lockDeliveries, (List.perm_insertionSort _ _).mem_iff] at hd
    exact mem_inputDeliveries.1 hd
  obtain ⟨correlationId, hgroup⟩ := hw.group _ he
  have hregion : ∀ d ∈ l.deliveries, d.regionId = l.execution.regionId := fun d hd =>
    congrArg GroupKey.regionId (hgroup d (hlocked d hd).1 (hlocked d hd).2)
  obtain ⟨first, hfirst, hemits⟩ := hwrote.emits heid hregion
  obtain ⟨hfirst, hfirstInput⟩ := hlocked first hfirst
  have hback : ∀ d' ∈ db'.deliveries, (∃ d ∈ db.deliveries,
      d.id = d'.id ∧ d.toGroupKey = d'.toGroupKey ∧ d.source = d'.source) ∨
      ∃ d ∈ w.deliveries, d.id = d'.id ∧ d.toGroupKey = d'.toGroupKey ∧ d.source = d'.source := by
    intro d' hd'
    rcases List.mem_append.1 (hends.deliveries ▸ List.mem_map_of_mem hd') with hmem | hmem
    · obtain ⟨d, hd, heq⟩ := List.mem_map.1 hmem
      exact Or.inl ⟨d, hd, Delivery.of_asRouted_eq heq⟩
    · exact Or.inr ⟨_, hmem, rfl, rfl, rfl⟩
  have hforth : ∀ d ∈ db.deliveries, ∃ d' ∈ db'.deliveries, d'.asRouted = d.asRouted :=
    hends.grows.deliveries
  have hevents : ∀ e ∈ db.events, e ∈ db'.events := fun e he =>
    hends.events ▸ List.mem_append_left _ he
  have hnot : ∀ d' ∈ db'.deliveries, ∀ id, db.work.IsInput id d'.id →
      ∃ d ∈ db.deliveries, d.id = d'.id ∧ d.toGroupKey = d'.toGroupKey := by
    intro d' hd' id hinput
    rcases hback d' hd' with ⟨d, hd, hid, hkey, -⟩ | ⟨d, hd, hid, -⟩
    · exact ⟨d, hd, hid, hkey⟩
    · obtain ⟨at_, r, t, k, hk, hk', rfl, -⟩ := hwrote.writes.newDeliveries d hd
      exact absurd (hid ▸ hinput) (hw.not_isInput ⟨k, hk, hk', rfl⟩ hc.records.drawn)
  have hdescends : ∀ d ∈ db.deliveries, ∃ c ∈ db'.commands, Descends db' c.id d.id := by
    intro d hd
    obtain ⟨c, hmem, hdescends⟩ := h.rooted d hd
    exact ⟨c, hcommands ▸ hmem, hdescends.mono hforth hevents hinputs⟩
  refine ⟨hcommands ▸ h.commands, fun d' hd' id hsource => ?_, fun ev hev id hid => ?_,
    fun d' hd' ev hev hsource hsome => ?_, fun d' hd' => ?_⟩
  · rcases hback d' hd' with ⟨d, hd, -, hkey, hs⟩ | ⟨d, hd, -, -, hs⟩
    · obtain ⟨c, hmem, hcid, hrun⟩ := h.routed d hd id (hs.trans hsource)
      refine ⟨c, hcommands ▸ hmem, hcid, ?_⟩
      rwa [ofRun, ← hkey]
    · obtain ⟨e, -, he, -⟩ := hemits.delivery d hd
      rw [← hs, he] at hsource
      simp at hsource
  · rcases List.mem_append.1 (hends.events ▸ hev) with hev | hev
    · obtain ⟨e, he, heid, hall⟩ := h.emitter ev hev id hid
      obtain ⟨e', he', hid', hsame⟩ := hexecutions e he
      refine ⟨e', he', hid'.trans heid, fun d' hd' hinput => ?_⟩
      rw [← heid, hsame] at hinput
      obtain ⟨d, hd, hdid, hkey⟩ := hnot d' hd' _ hinput
      rw [← hkey]
      exact hall d hd (heid ▸ hdid ▸ hinput)
    · obtain ⟨hof, hregionId, hcorrelationId⟩ := hemits.event ev hev
      obtain rfl := Option.some.inj (hof.symm.trans hid)
      obtain ⟨e', he', hid', hsame⟩ := hexecutions _ he
      refine ⟨e', he', hid', fun d' hd' hinput => ?_⟩
      rw [hsame] at hinput
      obtain ⟨d, hd, hdid, hkey⟩ := hnot d' hd' _ hinput
      have hsameGroup := (hgroup d hd (hdid ▸ hinput)).trans (hgroup first hfirst hfirstInput).symm
      rw [← hkey, hsameGroup]
      exact ⟨hregionId, hcorrelationId⟩
  · rcases List.mem_append.1 (hends.events ▸ hev) with hev | hev
    · rcases hback d' hd' with ⟨d, hd, -, hkey, hs⟩ | ⟨d, hd, -, -, hs⟩
      · rw [← hkey]
        exact h.emitted d hd ev hev (hs.trans hsource) hsome
      · obtain ⟨e, hmem, he, -⟩ := hemits.delivery d hd
        rw [← hs, he] at hsource
        exact absurd (DeliverySource.event.inj hsource).symm (hends.newEvents e hmem ev hev)
    · rcases hback d' hd' with ⟨d, hd, -, -, hs⟩ | ⟨d, hd, -, hkey, hs⟩
      · obtain ⟨e, hmem, heq⟩ := hb.sourced d hd ev.id (hs.trans hsource)
        exact absurd heq (hends.newEvents ev hev e hmem)
      · obtain ⟨e, -, -, hr, hcorr⟩ := hemits.delivery d hd
        obtain ⟨-, hregionId, hcorrelationId⟩ := hemits.event ev hev
        rw [← hkey]
        exact ⟨hr.trans hregionId, hcorr.trans hcorrelationId⟩
  · rcases hback d' hd' with ⟨d, hd, hid, -⟩ | ⟨d, hd, -, -, hs⟩
    · exact hid ▸ hdescends d hd
    · obtain ⟨c, hmem, hroot⟩ := hdescends first hfirst
      obtain ⟨e, hev, hde, -⟩ := hemits.delivery d hd
      obtain ⟨e', -, -, hsame⟩ := hexecutions _ he
      refine ⟨c, hmem, .emitted hd' (hends.events ▸ List.mem_append_right _ hev) (hs.symm.trans hde)
        (hemits.event e hev).1 ?_ hroot⟩
      exact (hsame first.id).2 hfirstInput

/-- A command that is recorded and routes nothing. -/
theorem Lineage.recordsOnly (h : Lineage db) (hw : Work.Coherent P placed db.work) {command : Command}
    {event : Event} (hfresh : ∀ c ∈ db.commands, c.id ≠ command.id)
    (hnone : event.source.executionId? = none) (streams : List (StreamKey × ℕ)) :
    Refines P placed (fun _ _ => True) (fun _ => True) db
        { ({ db.draw with commands := db.commands ++ [command] } : Db).draw with
          streams, events := db.events ++ [event] } ∧
      Lineage { ({ db.draw with commands := db.commands ++ [command] } : Db).draw with
        streams, events := db.events ++ [event] } := by
  have hrefines : Refines P placed (fun _ _ => True) (fun _ => True) db
      { ({ db.draw with commands := db.commands ++ [command] } : Db).draw with
        streams, events := db.events ++ [event] } :=
    Refines.of_work rfl rfl (Nat.le_add_right db.drawn 2) rfl
  refine ⟨hrefines, h.routeless hw hrefines (fun c hc => List.mem_append_left _ hc)
    (h.commands.append hfresh) rfl ⟨[event], rfl, fun e he => ?_⟩⟩
  rw [List.mem_singleton.1 he, hnone]

/-- A cancellation records its command, which routes nothing. -/
theorem Lineage.cancelRun (h : Lineage db) (hw : Work.Coherent P placed db.work)
    {context : OperatorContext} {runId : Uuid} {input : RunCancellationRequest}
    {receipt : CancellationReceipt}
    (hop : cancelRun P now context runId input db = .ok (receipt, db')) : Lineage db' := by
  unfold FactoryFloor.cancelRun at hop
  obtain ⟨_, -, hop⟩ := Except.bind_eq_ok.1 hop
  obtain ⟨_, -, hop⟩ := Except.bind_eq_ok.1 hop
  obtain ⟨reason, -, hop⟩ := Except.bind_eq_ok.1 hop
  dsimp only at hop
  split at hop
  · simp at hop
  obtain ⟨_, -, hop⟩ := Except.bind_eq_ok.1 hop
  split at hop
  · obtain ⟨_, -, hop⟩ := Except.bind_eq_ok.1 hop
    obtain ⟨-, rfl⟩ := Prod.mk.inj (Except.ok.inj hop)
    exact h
  obtain ⟨_, -, hop⟩ := Except.bind_eq_ok.1 hop
  obtain ⟨commands, hcommands, hop⟩ := Except.bind_eq_ok.1 hop
  obtain ⟨⟨event, db₁⟩, hevent, hop⟩ := Except.bind_eq_ok.1 hop
  obtain ⟨db₂, hcancel, hop⟩ := Except.bind_eq_ok.1 hop
  obtain ⟨-, rfl⟩ := Prod.mk.inj (Except.ok.inj hop)
  obtain ⟨rfl, hfresh⟩ := insertCommand_eq_ok (sql_eq_ok.1 hcommands)
  obtain ⟨n, payload, -, heq, -, streams, rfl⟩ := insertEvent_eq_ok hevent
  have hnone : event.source.executionId? = none := by rw [heq]; rfl
  obtain ⟨hrefines, hrecorded⟩ := h.recordsOnly hw hfresh hnone streams
  have hcoherent := hrefines.coherent hw
  exact hrecorded.schedules hcoherent (cancelRows_schedules hcoherent rfl rfl rfl hcancel)
    (cancelRows_commands hcancel)

theorem Initial.lineage (h : Initial P s) : Lineage s.db := by
  refine ⟨?_, ?_, ?_, ?_, ?_⟩
  all_goals simp [Keyed, h.commands, h.deliveries, h.events]

/-- Every step keeps the lineage. -/
theorem Lineage.step (h : Lineage s.db) (hs : Sound P s) (hst : Step P s l t) : Lineage t.db := by
  have hw := hs.coherent
  cases hst with
  | tick | envelope | uploadBlob | read | recoverSubmission | reject | crashProcess | crashPass
  | scanExpired => exact h
  | submit hop =>
    rcases submit_commands hop with rfl | ⟨command, hrecords, hfresh⟩
    · exact h
    · exact h.records hw hfresh hrecords
  | @lease options acquired leased db hop =>
    exact h.schedules hw (leaseNextAttempt_schedules hw (fun _ _ => trivial)
      (fun _ _ _ _ _ => trivial) hop) (leaseNextAttempt_commands hop)
  | heartbeat hduration hop =>
    exact h.schedules hw (heartbeat_schedules hw trivial hop) (heartbeat_commands hop)
  | stage hop => exact h.aside hw (stage_still hop).toAside
  | recordUpload hblob hop => exact h.aside hw (recordUpload_still hop).toAside
  | handoff hop => exact h.aside hw (handoff_still hop).toAside
  | commit henv hmem hop =>
    have hplaced := connectionsPlaced hw hs.wellFormed
    rcases commitTx_eq_ok hop with ⟨-, rfl, -⟩ | ⟨locked, db₁, db₂, hc⟩
    · exact h
    · exact h.commits hw hs.backed hplaced (commitTx_refines hw hs.backed hplaced hop) hc
  | delete hmem => exact h.aside hw (deleteSubmission_still _ _ _).toAside
  | recoverExpired hmem hop =>
    exact h.schedules hw (recoverExpired_schedules hw hop) (recoverExpired_commands hop)
  | @releaseOrphans now db pre post hmem hop =>
    have hnone : ∀ a ∈ s.db.attempts, ¬expired now a := fun a ha he => by
      simpa using (hs.passes { now, remaining := [] } (by simp [hmem])).2 a ha he
    obtain rfl := releaseOrphans_eq_self hw hnone hop
    exact h
  | settle hop =>
    exact h.schedules hw (settleCancelling_schedules hw hop) (settleCancelling_commands hop)
  | cancelRun hop => exact h.cancelRun hw hop
  | requestCancellation =>
    exact h.schedules hw (requestCancellation_schedules _ _ _) rfl
  | maintain hop => exact h.aside hw (maintain_aside hop)

/-- Every reachable state has its lineage. -/
theorem reachable_lineage (h : (runtime P).Reachable s) : Lineage s.db :=
  (h.invariant (I := fun s => Sound P s ∧ Lineage s.db)
    (fun _ hinit => ⟨Initial.sound hinit, Initial.lineage hinit⟩)
    fun _ _ _ hI hst => ⟨hI.1.step hst, hI.2.step hI.1 hst⟩).2

/-! ## Cancellations -/

/-- A cancellation answers a repetition and changes nothing, or it cancels the rows of its run and
counts them. -/
theorem cancelRun_cases {context : OperatorContext} {runId : Uuid} {input : RunCancellationRequest}
    {receipt : CancellationReceipt} (h : cancelRun P now context runId input db = .ok (receipt, db')) :
    ∃ run, db.commands.find? (·.id = runId) = some run ∧
      (receipt = cancellationReceipt run db ∧ db' = db ∨ ∃ db₁ : Db,
        db₁.deliveries = db.deliveries ∧ db₁.executions = db.executions ∧
        db₁.attempts = db.attempts ∧
        cancelRows now run db₁ db₁ = .ok db' ∧
        receipt =
          { replayed := false,
            cancelledDeliveries :=
              (db.deliveries.filter fun d => ofRun run d && !d.status.terminal).length,
            cancelledExecutions := ((runExecutions run db).filter (!·.status.terminal)).length,
            cancelledAttempts := ((runAttempts run db).filter (!·.status.terminal)).length }) := by
  unfold cancelRun at h
  obtain ⟨_, -, h⟩ := Except.bind_eq_ok.1 h
  obtain ⟨_, -, h⟩ := Except.bind_eq_ok.1 h
  obtain ⟨reason, -, h⟩ := Except.bind_eq_ok.1 h
  dsimp only at h
  split at h
  · simp at h
  rename_i run hrun
  refine ⟨run, hrun, ?_⟩
  obtain ⟨_, -, h⟩ := Except.bind_eq_ok.1 h
  split at h
  · obtain ⟨_, -, h⟩ := Except.bind_eq_ok.1 h
    obtain ⟨rfl, rfl⟩ := Prod.mk.inj (Except.ok.inj h)
    exact Or.inl ⟨rfl, rfl⟩
  obtain ⟨_, -, h⟩ := Except.bind_eq_ok.1 h
  obtain ⟨commands, -, h⟩ := Except.bind_eq_ok.1 h
  obtain ⟨⟨event, db₁⟩, hevent, h⟩ := Except.bind_eq_ok.1 h
  obtain ⟨db₂, hcancel, h⟩ := Except.bind_eq_ok.1 h
  obtain ⟨rfl, rfl⟩ := Prod.mk.inj (Except.ok.inj h)
  obtain ⟨n, payload, -, -, -, streams, rfl⟩ := insertEvent_eq_ok hevent
  exact Or.inr ⟨{ ({ db.draw with commands } : Db).draw with
    streams, events := db.events ++ [event] }, rfl, rfl, rfl, hcancel, rfl⟩

/-- The rows that are not of the run stay. -/
theorem cancelRows_keeps {run : Command} (hdeliveries : Keyed (·.id) db.deliveries)
    (hexecutions : Keyed (·.id) db.executions) (hattempts : Keyed (·.id) db.attempts)
    (h : cancelRows now run db db = .ok db') :
    (∀ d ∈ db.deliveries, ¬ofRun run d → d ∈ db'.deliveries) ∧
      (∀ e ∈ db.executions, e ∉ runExecutions run db → e ∈ db'.executions) ∧
      ∀ a ∈ db.attempts, a ∉ runAttempts run db → a ∈ db'.attempts := by
  unfold cancelRows at h
  obtain ⟨db₁, h₁, h⟩ := Except.bind_eq_ok.1 h
  obtain ⟨db₂, h₂, h₃⟩ := Except.bind_eq_ok.1 h
  obtain ⟨rfl, -⟩ := (updateAttempts_eq_ok_of_closed fun _ => rfl).1 h₁
  obtain ⟨rfl, -⟩ := updateExecutions_eq_ok.1 h₂
  obtain ⟨rfl, -⟩ := updateDeliveries_eq_ok.1 h₃
  refine ⟨fun d hd hnot => ?_, fun e he hnot => ?_, fun a ha hnot => ?_⟩
  · refine mem_updateWhere_of_not hd fun hmem => ?_
    obtain ⟨d', hd', hid⟩ := List.mem_map.1 (of_decide_eq_true hmem)
    obtain ⟨hd', hrun⟩ := List.mem_filter.1 hd'
    obtain rfl := hdeliveries.eq hd' hd hid
    exact hnot (Bool.and_eq_true_iff.1 hrun).1
  · refine mem_updateWhere_of_not he fun hmem => ?_
    obtain ⟨e', he', hid⟩ := List.mem_map.1 (of_decide_eq_true hmem)
    have hrun := (List.mem_filter.1 he').1
    obtain rfl := hexecutions.eq (mem_runExecutions.1 hrun).1 he hid
    exact hnot hrun
  · refine mem_updateWhere_of_not ha fun hmem => ?_
    obtain ⟨a', ha', hid⟩ := List.mem_map.1 (of_decide_eq_true hmem)
    have hrun := (List.mem_filter.1 ha').1
    obtain rfl := hattempts.eq (List.mem_filter.1 hrun).1 ha hid
    exact hnot hrun

/-- Whether two commands are of one region and correlation id. -/
def Command.SameRun (c run : Command) : Prop :=
  c.regionId = run.regionId ∧ c.correlationId = run.correlationId

/-- A cancellation of a run changes nothing that descends from a command of another run, and counts
only rows that descend from commands of the run. -/
structure Isolates (run : Command) (db : Db) (receipt : CancellationReceipt) (db' : Db) : Prop where
  deliveries : ∀ c ∈ db.commands, ¬c.SameRun run → ∀ d ∈ db.deliveries, Descends db c.id d.id →
    d ∈ db'.deliveries
  executions : ∀ c ∈ db.commands, ¬c.SameRun run → ∀ e ∈ db.executions,
    ExecutionDescends db c.id e.id → e ∈ db'.executions
  attempts : ∀ c ∈ db.commands, ¬c.SameRun run → ∀ a ∈ db.attempts,
    ExecutionDescends db c.id a.executionId → a ∈ db'.attempts
  countedDeliveries : ∃ ds : List Delivery, ds.Sublist db.deliveries ∧
    ds.length = receipt.cancelledDeliveries ∧
    ∀ d ∈ ds, ∃ c ∈ db.commands, c.SameRun run ∧ Descends db c.id d.id
  countedExecutions : ∃ es : List Execution, es.Sublist db.executions ∧
    es.length = receipt.cancelledExecutions ∧
    ∀ e ∈ es, ∃ c ∈ db.commands, c.SameRun run ∧ ExecutionDescends db c.id e.id
  countedAttempts : ∃ as : List ExecutionAttempt, as.Sublist db.attempts ∧
    as.length = receipt.cancelledAttempts ∧
    ∀ a ∈ as, ∃ c ∈ db.commands, c.SameRun run ∧ ExecutionDescends db c.id a.executionId

section Runs

variable {run c : Command}

/-- A delivery of two runs is of one run. -/
theorem sameRun_of_ofRun {d : Delivery} (hc : ofRun c d) (hrun : ofRun run d) : c.SameRun run := by
  simp only [ofRun, Bool.and_eq_true, decide_eq_true_eq] at hc hrun
  exact ⟨hc.1.symm.trans hrun.1, hc.2.symm.trans hrun.2⟩

/-- What is of a run descends from a command of the run. -/
theorem Lineage.descends (h : Lineage db) (hw : Work.Coherent P placed db.work) {d : Delivery}
    (hd : d ∈ db.deliveries) (hrun : ofRun run d) :
    ∃ c ∈ db.commands, c.SameRun run ∧ Descends db c.id d.id := by
  obtain ⟨c, hc, hdescends⟩ := h.rooted d hd
  exact ⟨c, hc, sameRun_of_ofRun (h.inRun hw hc hdescends d hd rfl) hrun, hdescends⟩

theorem Lineage.executionDescends (h : Lineage db) (hw : Work.Coherent P placed db.work)
    {e : Execution} (he : e ∈ runExecutions run db) :
    ∃ c ∈ db.commands, c.SameRun run ∧ ExecutionDescends db c.id e.id := by
  obtain ⟨hmem, d, hd, hrun, hid⟩ := mem_runExecutions.1 he
  obtain ⟨c, hc, hsame, hdescends⟩ := h.descends hw hd hrun
  exact ⟨c, hc, hsame, d.id, hid ▸ hw.trigger e hmem, hdescends⟩

theorem Lineage.attemptDescends (h : Lineage db) (hw : Work.Coherent P placed db.work)
    {a : ExecutionAttempt} (ha : a ∈ runAttempts run db) :
    ∃ c ∈ db.commands, c.SameRun run ∧ ExecutionDescends db c.id a.executionId := by
  obtain ⟨e, he, hid⟩ := List.any_eq_true.1 (List.mem_filter.1 ha).2
  exact of_decide_eq_true hid ▸ h.executionDescends hw he

/-- An execution that descends from a command of another run is not of the run. -/
theorem Lineage.not_runExecutions (h : Lineage db) (hw : Work.Coherent P placed db.work)
    (hc : c ∈ db.commands) (hother : ¬c.SameRun run) {e : Execution} (he : e ∈ db.executions)
    (hdescends : ExecutionDescends db c.id e.id) : e ∉ runExecutions run db := by
  intro hrun
  obtain ⟨-, d, hd, hofRun, hid⟩ := mem_runExecutions.1 hrun
  have hin := h.executionInRun hw hc he hdescends
  exact hother (sameRun_of_ofRun ((ofRun_input hw he hd (hid ▸ hw.trigger e he)).2 hin) hofRun)

end Runs

/-- Cancelling the run of a command leaves the other runs alone, and counts its own rows. -/
theorem cancelRun_isolated {context : OperatorContext} {runId : Uuid}
    {input : RunCancellationRequest} {receipt : CancellationReceipt}
    (hs : (runtime P).Reachable s)
    (h : cancelRun P s.now context runId input s.db = .ok (receipt, db)) :
    ∃ run ∈ s.db.commands, run.id = runId ∧ Isolates run s.db receipt db := by
  have hlineage := reachable_lineage hs
  have hw := (reachable_sound hs).coherent
  obtain ⟨run, hrun, hcases⟩ := cancelRun_cases h
  obtain ⟨hmem, hid⟩ := mem_of_find?_key hrun
  refine ⟨run, hmem, hid, ?_⟩
  have hkeeps : (∀ d ∈ s.db.deliveries, ¬ofRun run d → d ∈ db.deliveries) ∧
      (∀ e ∈ s.db.executions, e ∉ runExecutions run s.db → e ∈ db.executions) ∧
      ∀ a ∈ s.db.attempts, a ∉ runAttempts run s.db → a ∈ db.attempts := by
    rcases hcases with ⟨-, rfl⟩ | ⟨db₁, hdeliveries, hexecutions, hattempts, hcancel, -⟩
    · exact ⟨fun _ hd _ => hd, fun _ he _ => he, fun _ ha _ => ha⟩
    · have hsame : runExecutions run db₁ = runExecutions run s.db := by
        rw [runExecutions, runExecutions, hdeliveries, hexecutions]
      have hsame' : runAttempts run db₁ = runAttempts run s.db := by
        rw [runAttempts, runAttempts, hattempts, hsame]
      have hkeeps := cancelRows_keeps (hdeliveries ▸ hw.deliveriesKeyed)
        (hexecutions ▸ hw.executionsKeyed) (hattempts ▸ hw.attemptsKeyed) hcancel
      rwa [hdeliveries, hexecutions, hattempts, hsame, hsame'] at hkeeps
  have hexecutions : (runExecutions run s.db).Sublist s.db.executions := List.filter_sublist
  have hattempts : (runAttempts run s.db).Sublist s.db.attempts := List.filter_sublist
  refine ⟨fun c hc hother d hd hdescends => ?_, fun c hc hother e he hdescends => ?_,
    fun c hc hother a ha hdescends => ?_, ?_, ?_, ?_⟩
  · refine hkeeps.1 d hd fun hofRun => hother (sameRun_of_ofRun ?_ hofRun)
    exact hlineage.inRun hw hc hdescends d hd rfl
  · exact hkeeps.2.1 e he (hlineage.not_runExecutions hw hc hother he hdescends)
  · refine hkeeps.2.2 a ha fun hin => ?_
    obtain ⟨e, he, heid⟩ := List.any_eq_true.1 (List.mem_filter.1 hin).2
    have heid : e.id = a.executionId := of_decide_eq_true heid
    exact hlineage.not_runExecutions hw hc hother (hexecutions.subset he) (heid ▸ hdescends) he
  · rcases hcases with ⟨rfl, -⟩ | ⟨db₁, -, -, -, -, rfl⟩
    all_goals
      refine ⟨_, List.filter_sublist, rfl, fun d hd => ?_⟩
      obtain ⟨hd, hsel⟩ := List.mem_filter.1 hd
      exact hlineage.descends hw hd (Bool.and_eq_true_iff.1 hsel).1
  · rcases hcases with ⟨rfl, -⟩ | ⟨db₁, -, -, -, -, rfl⟩
    all_goals
      exact ⟨_, List.filter_sublist.trans hexecutions, rfl, fun e he =>
        hlineage.executionDescends hw (List.mem_filter.1 he).1⟩
  · rcases hcases with ⟨rfl, -⟩ | ⟨db₁, -, -, -, -, rfl⟩
    all_goals
      exact ⟨_, List.filter_sublist.trans hattempts, rfl, fun a ha =>
        hlineage.attemptDescends hw (List.mem_filter.1 ha).1⟩

/-- Who cancels runs of the plant. -/
def plantOperator : OperatorContext :=
  ⟨"operator", ["operator"]⟩

/-- The plant with two commands, and what the cancellation of the first one returns. -/
def plantCancels (first second : String) : Option (State × CancellationReceipt × Db) :=
  (runs samplePlatform plant
    [.submit (plantCommand "start" first), .submit (plantCommand "start" second)]).bind fun s =>
      (cancelRun samplePlatform s.now plantOperator 1000 ⟨"request", "stop"⟩ s.db).toOption.map
        fun result => (s, result)

theorem plantCancels_eq_some {first second : String} {receipt : CancellationReceipt}
    (h : plantCancels first second = some (s, receipt, db)) :
    (runtime samplePlatform).Reachable s ∧
      cancelRun samplePlatform s.now plantOperator 1000 ⟨"request", "stop"⟩ s.db =
        .ok (receipt, db) := by
  obtain ⟨s', hs, h⟩ := Option.bind_eq_some_iff.1 h
  obtain ⟨result, hop, heq⟩ := Option.map_eq_some_iff.1 h
  obtain ⟨rfl, rfl⟩ := Prod.mk.inj heq
  refine ⟨runs_reachable plant_reachable hs, ?_⟩
  cases hc : cancelRun samplePlatform s'.now plantOperator 1000 ⟨"request", "stop"⟩ s'.db with
  | error e => simp [hc, Except.toOption] at hop
  | ok r => simpa [hc, Except.toOption] using hop

theorem cancelRun_isolated_plant : ∃ s receipt db,
    plantCancels "order" "other" = some (s, receipt, db) ∧
      s.db.deliveries.length = 2 ∧ receipt.cancelledDeliveries = 1 ∧
      ∃ run ∈ s.db.commands, run.id = 1000 ∧ Isolates run s.db receipt db := by
  have hsome : (plantCancels "order" "other").map (fun r =>
      (r.1.db.deliveries.length, r.2.1.cancelledDeliveries)) = some (2, 1) := rfl
  obtain ⟨⟨s, receipt, db⟩, hcancels, heq⟩ := Option.map_eq_some_iff.1 hsome
  obtain ⟨hlength, hcount⟩ := Prod.mk.inj heq
  obtain ⟨hs, hop⟩ := plantCancels_eq_some hcancels
  exact ⟨s, receipt, db, hcancels, hlength, hcount, cancelRun_isolated hs hop⟩

/-- Two commands have one correlation id : the cancellation of the run of one cancels the delivery of
the other. -/
theorem shared_correlation_cancelled : ¬∀ (P : Platform) (s : State) (context : OperatorContext)
    (runId : Uuid) (input : RunCancellationRequest) (receipt : CancellationReceipt) (db : Db),
    (runtime P).Reachable s → cancelRun P s.now context runId input s.db = .ok (receipt, db) →
    ∀ c ∈ s.db.commands, c.id ≠ runId → c.status = .accepted →
      ∀ d ∈ s.db.deliveries, Descends s.db c.id d.id → d ∈ db.deliveries := by
  intro hkeeps
  have hsome : (plantCancels "order" "order").map (fun r =>
      (r.1.db.commands.any fun c => c.id ≠ 1000 && c.status = .accepted &&
        r.1.db.deliveries.any fun d => d.source = .command c.id && d.status = .ready,
        r.2.2.deliveries.all (·.status = .cancelled))) = some (true, true) := rfl
  obtain ⟨⟨s, receipt, db⟩, hcancels, heq⟩ := Option.map_eq_some_iff.1 hsome
  obtain ⟨hany, hall⟩ := Prod.mk.inj heq
  simp only [List.any_eq_true, Bool.and_eq_true, decide_eq_true_eq] at hany
  obtain ⟨c, hc, ⟨hne, haccepted⟩, d, hd, hsource, hready⟩ := hany
  obtain ⟨hs, hop⟩ := plantCancels_eq_some hcancels
  have hd' := hkeeps _ s _ _ _ _ db hs hop c hc hne haccepted d hd (.routed hd hsource)
  have hcancelled := List.all_eq_true.1 hall d hd'
  simp [hready] at hcancelled

end FactoryFloor
