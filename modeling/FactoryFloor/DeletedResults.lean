import FactoryFloor.AtMostOnce

/-!
# Which handed-off results are deleted

A result that is handed off is deleted when its commit is rejected. A commit that reads what it
validates and may use its lease ends as the recovery commit does in the same state
(`commitTx_recovery`), so in a run of such commits every deletion is for cause
(`deleted_for_cause`). Otherwise a result can be lost : a read fault of the validation and a lease
that expires after the hand-off are rejections as well, and `late_result_deleted` deletes a result
that the recovery commit accepts.

A row is deleted some time after its commit has failed, so the runs here record each commit that
fails, with the state it failed in (`tracked`).
-/

namespace FactoryFloor

open Relational Transition Except

variable {P : Platform} {env : CommitEnv} {input : ProposedExecutionResult} {digest : Digest}
variable {db : Db} {s t u : State} {l : Label}

/-! ## The recovery commit -/

/-- No read fails that the validation of a staged reference makes. -/
def Stores.Reads (stores : Stores) (staging : List ArtifactStaging) (stagedRef : Uuid) : Prop :=
  ∀ row ∈ staging, row.stagedRef = stagedRef → stores.databaseFails row.id = false ∧
    ∀ row' ∈ staging, row'.id = row.id → stores.blobFails row'.stagedRef = false

/-- The staged references that the commit of a result validates. -/
def ProposedExecutionResult.validated (input : ProposedExecutionResult) : List Staged :=
  input.published ++ input.externalActionProposals.map (·.requestArtifact)

/-- A commit whose validation meets no fault, and whose lease has not expired unless it may have. -/
structure CommitEnv.Unhindered (env : CommitEnv) (input : ProposedExecutionResult) (db : Db) :
    Prop where
  reads : input.status = .completed →
    ∀ staged ∈ input.validated, env.stores.Reads db.staging staged.stagingId
  lease : env.allowExpiredLease = true ∨ ∀ a ∈ db.attempts, a.id = input.attemptId →
    a.status.active → a.lease.map (·.token) = some input.leaseToken →
    a.lease.any (env.now < ·.expiresAt) = true

theorem Stores.Reads.link {stores : Stores} {staging : List ArtifactStaging} {stagedRef : Uuid}
    (h : stores.Reads staging stagedRef) (p : ArtifactStaging → Bool) (artifactId : Option Uuid) :
    stores.Reads (updateWhere p (fun s => { s with artifactId }) staging) stagedRef := by
  have hold : ∀ row ∈ updateWhere p (fun s => { s with artifactId }) staging,
      ∃ row₀ ∈ staging, row₀.id = row.id ∧ row₀.stagedRef = row.stagedRef := by
    intro row hrow
    obtain ⟨row₀, hrow₀, rfl⟩ := List.mem_map.1 hrow
    refine ⟨row₀, hrow₀, ?_⟩
    split <;> exact ⟨rfl, rfl⟩
  intro row hrow href
  obtain ⟨row₀, hrow₀, hid, href₀⟩ := hold row hrow
  obtain ⟨hdatabase, hblob⟩ := h row₀ hrow₀ (href₀.trans href)
  refine ⟨hid ▸ hdatabase, fun row' hrow' hid' => ?_⟩
  obtain ⟨row₁, hrow₁, hid₁, href₁⟩ := hold row' hrow'
  exact href₁ ▸ hblob row₁ hrow₁ (hid₁.trans (hid'.trans hid.symm))

theorem validateStagedArtifact_healthy {stores : Stores} {row : ArtifactStaging}
    (h : stores.Reads db.staging row.stagedRef) (hrow : row ∈ db.staging) :
    validateStagedArtifact P stores.healthy row.id db = validateStagedArtifact P stores row.id db := by
  obtain ⟨hdatabase, hblob⟩ := h row hrow rfl
  have hread : ∀ row', db.staging.find? (·.id = row.id) = some row' →
      readStaged stores.healthy row'.stagedRef = readStaged stores row'.stagedRef := by
    intro row' hrow'
    obtain ⟨hmem, hid⟩ := mem_of_find?_key hrow'
    unfold readStaged
    rw [hblob row' hmem hid]
    rfl
  unfold validateStagedArtifact
  rw [hdatabase]
  refine bind_congr_ok fun _ _ => ?_
  cases hfind : db.staging.find? (·.id = row.id) with
  | none => rfl
  | some row' =>
    dsimp only
    rw [hread row' hfind]
    rfl

variable {ports : List PortDefinition} {direction : PortDirection} {staged : Staged}

theorem validateStaged_recovery
    (h : input.status = .completed → env.stores.Reads db.staging staged.stagingId) :
    validateStaged P env.recovery input ports direction staged db =
      validateStaged P env input ports direction staged db := by
  unfold validateStaged
  split
  · rfl
  split
  · rfl
  rename_i row hrow
  obtain ⟨row₀, hrow₀, hrow⟩ := Option.bind_eq_some_iff.1 (Option.filter_eq_some_iff.1 hrow).1
  obtain ⟨schema, -, hrow⟩ := Option.bind_eq_some_iff.1 hrow
  obtain ⟨upload, -, rfl⟩ := Option.map_eq_some_iff.1 hrow
  obtain ⟨hmem, href⟩ := mem_of_find?_key hrow₀
  split
  · rename_i hcompleted
    have hvalidate : validateStagedArtifact P env.recovery.stores row₀.id db =
        validateStagedArtifact P env.stores row₀.id db :=
      validateStagedArtifact_healthy (href ▸ h hcompleted) hmem
    dsimp only
    rw [hvalidate]
    rfl
  · rfl

theorem publishArtifact_reads {stores : Stores} {executionId attemptId artifactId stagedRef : Uuid}
    {row : ArtifactStaging} {derivationType : DerivationType} {db' : Db}
    (h : publishArtifact P executionId attemptId row derivationType db = .ok (artifactId, db'))
    (hreads : stores.Reads db.staging stagedRef) : stores.Reads db'.staging stagedRef := by
  unfold publishArtifact at h
  obtain ⟨⟨artifact, db₁⟩, hensure, h⟩ := Except.bind_eq_ok.1 h
  obtain ⟨db₂, hlink, h⟩ := Except.bind_eq_ok.1 h
  obtain ⟨-, rfl⟩ := Prod.mk.inj (Except.ok.inj h)
  obtain ⟨staging, hstaging, hlink⟩ := Except.bind_eq_ok.1 hlink
  obtain rfl := Except.ok.inj hlink
  obtain ⟨rfl, -⟩ := update_eq_ok.1 (sql_eq_ok.1 hstaging)
  have hsame : db₁.staging = db.staging := by
    unfold ensureArtifact at hensure
    split at hensure
    · split at hensure
      · rw [(Prod.mk.inj (Except.ok.inj hensure)).2]
      · exact absurd hensure nofun
    · obtain ⟨artifacts, -, hensure⟩ := Except.bind_eq_ok.1 hensure
      rw [← (Prod.mk.inj (Except.ok.inj hensure)).2]
      rfl
  exact (hsame ▸ hreads).link _ _

/-- The staging so far has left the reads of a publication without faults. -/
def Publishing.Reads (stores : Stores) (input : ProposedExecutionResult) (p : Publishing) : Prop :=
  input.status = .completed → ∀ staged ∈ input.validated, stores.Reads p.db.staging staged.stagingId

variable {derivationType : DerivationType} {message : String} {p p' : Publishing}

theorem stageArtifact_reads {stores : Stores} (h : p.Reads stores input)
    (hop : stageArtifact P env input ports direction derivationType message p staged = .ok p') :
    p'.Reads stores input := by
  intro hcompleted staged' hstaged'
  unfold stageArtifact at hop
  obtain ⟨_, -, hop⟩ := Except.bind_eq_ok.1 hop
  obtain ⟨row, hrow, hop⟩ := Except.bind_eq_ok.1 hop
  rw [if_pos hcompleted] at hop
  obtain ⟨⟨artifactId, db⟩, hpublish, hop⟩ := Except.bind_eq_ok.1 hop
  obtain rfl := Except.ok.inj hop
  exact publishArtifact_reads hpublish (h hcompleted staged' hstaged')

theorem stageArtifact_recovery (h : p.Reads env.stores input) (hstaged : staged ∈ input.validated) :
    stageArtifact P env.recovery input ports direction derivationType message p staged =
      stageArtifact P env input ports direction derivationType message p staged := by
  unfold stageArtifact
  rw [validateStaged_recovery fun hcompleted => h hcompleted staged hstaged]

theorem publishRequest_recovery {proposal : ExternalActionProposal} (h : p.Reads env.stores input)
    (hproposal : proposal ∈ input.externalActionProposals) :
    publishRequest P env.recovery input ports proposal.requestArtifact p =
      publishRequest P env input ports proposal.requestArtifact p := by
  unfold publishRequest
  rw [validateStaged_recovery fun hcompleted => h hcompleted _
    (List.mem_append_right _ (List.mem_map_of_mem hproposal))]

theorem publishRequest_reads {stores : Stores} {request : Staged} {artifactId : Uuid}
    (h : p.Reads stores input)
    (hop : publishRequest P env input ports request p = .ok (artifactId, p')) :
    p'.Reads stores input := by
  unfold publishRequest at hop
  obtain ⟨row, -, hop⟩ := Except.bind_eq_ok.1 hop
  split at hop
  · obtain ⟨-, rfl⟩ := Prod.mk.inj (Except.ok.inj hop)
    exact h
  · obtain ⟨⟨artifactId', db⟩, hpublish, hop⟩ := Except.bind_eq_ok.1 hop
    obtain ⟨-, rfl⟩ := Prod.mk.inj (Except.ok.inj hop)
    intro hcompleted staged' hstaged'
    exact publishArtifact_reads hpublish (h hcompleted staged' hstaged')

variable {component : ComponentInstance}

theorem publishExternalAction_reads {stores : Stores} {proposal : ExternalActionProposal}
    (h : p.Reads stores input)
    (hop : publishExternalAction P env input component ports p proposal = .ok p') :
    p'.Reads stores input := by
  unfold publishExternalAction at hop
  obtain ⟨_, -, hop⟩ := Except.bind_eq_ok.1 hop
  obtain ⟨grant, -, hop⟩ := Except.bind_eq_ok.1 hop
  obtain ⟨⟨requestArtifactId, p₁⟩, hrequest, hop⟩ := Except.bind_eq_ok.1 hop
  obtain ⟨db, hinsert, hop⟩ := Except.bind_eq_ok.1 hop
  obtain ⟨_, -, hop⟩ := Except.bind_eq_ok.1 hop
  obtain rfl := Except.ok.inj hop
  obtain ⟨new, rfl, -⟩ := insertAction_eq_ok hinsert
  have hreads : p₁.Reads stores input := publishRequest_reads h hrequest
  exact hreads

theorem publishExternalActions_recovery (h : p.Reads env.stores input) :
    publishExternalActions P env.recovery input component ports p =
      publishExternalActions P env input component ports p := by
  refine foldlM_congr_ok (I := Publishing.Reads env.stores input) (fun p proposal hproposal hp => ?_)
    (fun p proposal p' _ hp hop => publishExternalAction_reads hp hop) h
  unfold publishExternalAction
  rw [publishRequest_recovery hp hproposal]

theorem publishResult_recovery (h : env.Unhindered input db) (attempt : ExecutionAttempt)
    (execution : Execution) (region : Region) (deliveries : List Delivery) {db' : Db}
    (hsame : db'.staging = db.staging) :
    publishResult P env.recovery input attempt execution region component deliveries db' =
      publishResult P env input attempt execution region component deliveries db' := by
  have hstart : Publishing.Reads env.stores input { seen := [], artifactIds := [], db := db' } := by
    intro hcompleted staged hstaged
    rw [hsame]
    exact h.reads hcompleted staged hstaged
  have hvalidated : ∀ staged ∈ input.stagedArtifacts, staged ∈ input.validated := fun staged h =>
    List.mem_append_left _ (List.mem_append_left _ h)
  unfold publishResult
  dsimp only
  have houtputs : ∀ ports, stageOutputs P env.recovery input ports
        { seen := [], artifactIds := [], db := db' } =
      stageOutputs P env input ports { seen := [], artifactIds := [], db := db' } := fun ports =>
    foldlM_congr_ok (I := Publishing.Reads env.stores input)
      (fun p staged hstaged hp => stageArtifact_recovery hp (hvalidated staged hstaged))
      (fun p staged p' _ hp hop => stageArtifact_reads hp hop) hstart
  rw [houtputs]
  refine bind_congr_ok fun p hp => ?_
  have hreads : p.Reads env.stores input :=
    foldlM_invariant (I := Publishing.Reads env.stores input)
      (fun p staged p' _ hp hop => stageArtifact_reads hp hop) hstart hp
  have hstate : ∀ ports, stageState P env.recovery input ports p = stageState P env input ports p := by
    intro ports
    unfold stageState
    split
    · rfl
    · rename_i state hstate
      exact stageArtifact_recovery hreads (by
        simp [ProposedExecutionResult.validated, ProposedExecutionResult.published, hstate])
  rw [hstate]
  refine bind_congr_ok fun p₁ hp₁ => ?_
  have hreads₁ : p₁.Reads env.stores input := by
    unfold stageState at hp₁
    split at hp₁
    · exact Except.ok.inj hp₁ ▸ hreads
    · exact stageArtifact_reads hreads hp₁
  rw [publishExternalActions_recovery hreads₁]
  rfl

theorem assertAuthority_recovery {attempt : ExecutionAttempt} {execution : Execution}
    {region : Region} {deliveries : List Delivery}
    (h : attempt.lease.map (·.token) = some input.leaseToken →
      env.allowExpiredLease = true ∨ attempt.lease.any (env.now < ·.expiresAt) = true) :
    assertAuthority env.recovery input attempt execution region deliveries =
      assertAuthority env input attempt execution region deliveries := by
  refine bind_congr_ok fun _ htoken => ?_
  have hlease : (env.allowExpiredLease || attempt.lease.any (env.now < ·.expiresAt)) = true :=
    Bool.or_eq_true_iff.2 (h (by simpa using require_eq_ok.1 htoken))
  have hrecovery : (env.recovery.allowExpiredLease ||
      attempt.lease.any (env.recovery.now < ·.expiresAt)) = true := rfl
  rw [hlease, hrecovery]

/-- A commit that is not hindered ends as the recovery commit does. -/
theorem commitTx_recovery (h : env.Unhindered input db) (haborts : env.aborts = false) :
    commitTx P env.recovery input digest db = commitTx P env input digest db := by
  have hsame : env.recovery.aborts = env.aborts := haborts.symm
  unfold commitTx
  rw [hsame]
  refine bind_congr_ok fun _ _ => bind_congr_ok fun ⟨attempt, execution⟩ hlock =>
    bind_congr_ok fun _ _ => ?_
  dsimp only
  split
  · rfl
  refine bind_congr_ok fun locked hlocked => ?_
  obtain ⟨hactive, -, rfl, -⟩ := lockActive_eq_ok hlocked
  have hlease : locked.attempt.lease.map (·.token) = some input.leaseToken →
      env.allowExpiredLease = true ∨ locked.attempt.lease.any (env.now < ·.expiresAt) = true := by
    intro htoken
    refine h.lease.imp_right fun hunexpired => ?_
    unfold lockAttempt at hlock
    split at hlock
    · rename_i a e hattempt hexecution
      obtain ⟨rfl, -⟩ := Prod.mk.inj (Except.ok.inj hlock)
      have hid := List.find?_some hattempt
      rw [Bool.and_eq_true, decide_eq_true_eq] at hid
      exact hunexpired _ (List.mem_of_find?_eq_some hattempt) hid.1 hactive htoken
    · exact absurd hlock nofun
  rw [assertAuthority_recovery hlease]
  refine bind_congr_ok fun _ _ => bind_congr_ok fun _ _ =>
    bind_congr_ok fun db₁ hrecord => ?_
  have hstaging : db₁.staging = db.staging := by
    rcases recordSubmission_eq_ok hrecord with ⟨rfl, -⟩ | ⟨r, -, -, -, -, -, -, -, -, rfl⟩ <;> rfl
  rw [publishResult_recovery h _ _ _ _ hstaging]
  rfl

/-! ## Deletions -/

/-- A rejection is of a commit step, or was there before. -/
theorem Step.rejected (h : Step P s l t) {attemptId : Uuid}
    (hmem : .rejected attemptId digest ∈ t.processes) :
    .rejected attemptId digest ∈ s.processes ∨ ∃ env content e, l = .commit env content digest ∧
      CommitEnv.of env s ∧ content.attemptId = attemptId ∧
      .committing content digest env.allowExpiredLease ∈ s.processes ∧
      commitTx P env content digest s.db = .error e ∧ e.rejects := by
  have hdrop : ∀ {p x : Process} {pre post : List Process}, s.processes = pre ++ p :: post →
      x ∈ pre ++ post → x ∈ s.processes := by
    intro p x pre post heq hx
    rw [heq]
    rcases List.mem_append.1 hx with hx | hx
    · exact List.mem_append_left _ hx
    · exact List.mem_append_right _ (List.mem_cons_of_mem _ hx)
  cases h with
  | handoff | recoverSubmission =>
    rcases List.mem_cons.1 hmem with heq | hmem
    · exact nomatch heq
    · exact Or.inl hmem
  | read hprocesses =>
    rcases List.mem_append.1 hmem with hmem | hmem
    · exact Or.inl (hdrop hprocesses (List.mem_append_left _ hmem))
    · rcases List.mem_cons.1 hmem with heq | hmem
      · exact nomatch heq
      · exact Or.inl (hdrop hprocesses (List.mem_append_right _ hmem))
  | commit henv hprocesses => exact Or.inl (hdrop hprocesses hmem)
  | delete hprocesses => exact Or.inl (hdrop hprocesses hmem)
  | crashProcess hprocesses => exact Or.inl (hdrop hprocesses hmem)
  | @reject env content digest' e pre post henv hprocesses hop he =>
    rcases List.mem_append.1 hmem with hmem | hmem
    · exact Or.inl (hdrop hprocesses (List.mem_append_left _ hmem))
    · rcases List.mem_cons.1 hmem with heq | hmem
      · obtain ⟨rfl, rfl⟩ := Process.rejected.inj heq
        exact Or.inr ⟨env, content, e, rfl, henv, rfl, by rw [hprocesses]; simp, hop, he⟩
      · exact Or.inl (hdrop hprocesses (List.mem_append_right _ hmem))
  | _ => exact Or.inl hmem

/-- Every attempt with a submission row still has one. -/
def KeepsSubmissions (db db' : Db) : Prop :=
  ∀ r ∈ db.submissions, ∃ r' ∈ db'.submissions, r'.attemptId = r.attemptId

theorem KeepsSubmissions.of_eq {db db' : Db} (h : db'.submissions = db.submissions) :
    KeepsSubmissions db db' :=
  fun r hr => ⟨r, h ▸ hr, rfl⟩

theorem Schedules.keepsSubmissions {allow : Work → List Delivery → Prop} {late : Time → Prop}
    {db db' : Db} (h : Schedules P allow late db db') : KeepsSubmissions db db' :=
  .of_eq (congrArg Publications.submissions h.publications)

/-- A step keeps the submission rows, or it is the deletion of one. -/
theorem Step.keepsSubmissions (hs : Sound P s) (h : Step P s l t) :
    KeepsSubmissions s.db t.db ∨ ∃ attemptId digest, l = .delete attemptId digest ∧
      .rejected attemptId digest ∈ s.processes ∧ t.db = deleteSubmission attemptId digest s.db := by
  have hw := hs.coherent
  cases h with
  | tick | envelope | uploadBlob | read | recoverSubmission | reject | crashProcess | crashPass
  | scanExpired | requestCancellation => exact Or.inl (.of_eq rfl)
  | @delete attemptId digest pre post hprocesses =>
    exact Or.inr ⟨attemptId, digest, rfl, by simp [hprocesses], rfl⟩
  | submit hop =>
    rcases submit_eq_ok hop with rfl | ⟨command, event, streams, new, n, -, -, -, rfl, -⟩ <;>
      exact Or.inl (.of_eq rfl)
  | @lease options acquired leased db hop =>
    have hschedules : Schedules P (fun _ _ => True) (fun _ => True) s.db db :=
      leaseNextAttempt_schedules hw (fun _ _ => trivial) (fun _ _ _ _ _ => trivial) hop
    exact Or.inl hschedules.keepsSubmissions
  | @heartbeat leaseDurationMs input reply db hduration hop =>
    have hschedules : Schedules P (fun _ _ => True) (fun _ => True) s.db db :=
      heartbeat_schedules hw trivial hop
    exact Or.inl hschedules.keepsSubmissions
  | stage hop =>
    obtain ⟨attempt, -, hop⟩ := Except.bind_eq_ok.1 hop
    obtain ⟨active, -, hop⟩ := Except.bind_eq_ok.1 hop
    split at hop
    · exact absurd hop nofun
    · obtain ⟨uploads, -, hop⟩ := Except.bind_eq_ok.1 hop
      obtain ⟨-, rfl⟩ := Prod.mk.inj (Except.ok.inj hop)
      exact Or.inl (.of_eq rfl)
  | recordUpload hblob hop =>
    obtain ⟨attempt, -, hop⟩ := Except.bind_eq_ok.1 hop
    obtain ⟨active, -, hop⟩ := Except.bind_eq_ok.1 hop
    split at hop
    · exact absurd hop nofun
    · obtain ⟨staging, -, hop⟩ := Except.bind_eq_ok.1 hop
      obtain ⟨staged, -, hop⟩ := Except.bind_eq_ok.1 hop
      obtain ⟨_, -, hop⟩ := Except.bind_eq_ok.1 hop
      obtain ⟨uploads, -, hop⟩ := Except.bind_eq_ok.1 hop
      obtain rfl := Except.ok.inj hop
      exact Or.inl (.of_eq rfl)
  | handoff hop =>
    obtain ⟨result, -, ⟨-, rfl, -⟩ | ⟨-, -, -, rfl⟩⟩ := handoff_eq_ok hop
    · exact Or.inl (.of_eq rfl)
    · exact Or.inl fun r hr => ⟨r, List.mem_append_left _ hr, rfl⟩
  | @commit env content digest disposition db pre post henv hmem hop =>
    rcases commitTx_eq_ok hop with ⟨-, rfl, -⟩ | ⟨locked, db₁, db₂, hc⟩
    · exact Or.inl (.of_eq rfl)
    · refine Or.inl fun r hr => ?_
      obtain ⟨-, hother, u, hid, -, -, hu⟩ :=
        hc.submission hw hs.backed (connectionsPlaced hw hs.wellFormed)
      by_cases hne : r.attemptId = content.attemptId
      · exact ⟨_, hu, hid.trans hne.symm⟩
      · exact ⟨r, (hother r hne).2 hr, rfl⟩
  | @recoverExpired now attemptId remaining recovered db pre post hmem hop =>
    have hschedules : Schedules P (fun _ _ => True) (fun _ => True) s.db db :=
      recoverExpired_schedules hw hop
    exact Or.inl hschedules.keepsSubmissions
  | releaseOrphans hmem hop =>
    obtain ⟨deliveries, -, hop⟩ := Except.bind_eq_ok.1 hop
    obtain rfl := Except.ok.inj hop
    exact Or.inl (.of_eq rfl)
  | @settle now regionId db hop =>
    have hschedules : Schedules P (fun _ _ => True) (fun _ => True) s.db db :=
      settleCancelling_schedules hw hop
    exact Or.inl hschedules.keepsSubmissions
  | cancelRun hop =>
    rcases cancelRun_eq_ok (fun _ _ => True) (fun _ => True) hw hop with
      rfl | ⟨commands, streams, event, -, hschedules⟩
    · exact Or.inl (.of_eq rfl)
    · exact Or.inl hschedules.keepsSubmissions
  | @maintain write db hop =>
    cases write with
    | promote | abandonStaging | tombstone | moveAction =>
      obtain ⟨rows, -, hop⟩ := Except.bind_eq_ok.1 hop
      obtain rfl := Except.ok.inj hop
      exact Or.inl (.of_eq rfl)

/-! ## Runs and their failed commits -/

/-- A commit that failed, with the state it failed in. -/
structure FailedCommit where
  state : State
  env : CommitEnv
  content : ProposedExecutionResult
  digest : Digest

/-- The recovery commit, with a healthy database and blob store, rejects the content as well. -/
def FailedCommit.ForCause (P : Platform) (x : FailedCommit) : Prop :=
  ∃ e, commitTx P x.env.recovery x.content x.digest x.state.db = .error e ∧ e.rejects

/-- A state of the runtime, with the commits that failed so far. -/
structure Tracked where
  state : State
  failures : List FailedCommit

/-- The commits that fail in a step. -/
def failedCommits (P : Platform) (s : State) : Label → List FailedCommit
  | .commit env content digest =>
    match commitTx P env content digest s.db with
    | .ok _ => []
    | .error _ => [{ state := s, env, content, digest }]
  | _ => []

/-- The runtime, with a record of the commits that fail. -/
def tracked (P : Platform) : System Tracked Label :=
  ⟨fun s => Initial P s.state ∧ s.failures = [],
    fun s l t => Step P s.state l t.state ∧ t.failures = failedCommits P s.state l ++ s.failures⟩

/-- A commit of a run meets no fault, and no expired lease unless it may. -/
def Unhindered (s : Tracked) : Label → Prop
  | .commit env input _ => env.Unhindered input s.state.db
  | _ => True

/-- The rows that a step deletes were rejected for cause. -/
def DeletesForCause (P : Platform) (s : Tracked) (t : State) : Prop :=
  ∀ r ∈ s.state.db.submissions, (∀ r' ∈ t.db.submissions, r'.attemptId ≠ r.attemptId) →
    r.committedAt = none ∧ ∃ x ∈ s.failures, x.content.attemptId = r.attemptId ∧
      x.digest = r.submissionDigest ∧ Proposed P x.content r.submissionDigest ∧
      (Function.Injective P.canonicalJsonDigest → x.content = r.result) ∧ x.ForCause P

theorem tracked_reachable {ok : Tracked → Label → Prop} {s : Tracked}
    (h : ((tracked P).restrict ok).Reachable s) : (runtime P).Reachable s.state := by
  induction h with
  | start hinit => exact .start hinit.1
  | next _ hst ih => exact ih.next hst.1.1

/-- A process that is rejected stands for a commit that the recovery commit rejects as well. -/
theorem rejected_for_cause {s : Tracked} (h : ((tracked P).restrict Unhindered).Reachable s)
    {attemptId : Uuid} (hrejected : .rejected attemptId digest ∈ s.state.processes) :
    ∃ x ∈ s.failures, x.content.attemptId = attemptId ∧ x.digest = digest ∧
      Proposed P x.content digest ∧ x.ForCause P := by
  induction h with
  | start hinit => simp [hinit.1.processes] at hrejected
  | @next s t l hr hst ih =>
    obtain ⟨⟨hstep, hrecord⟩, hunhindered⟩ := hst
    rw [hrecord]
    rcases hstep.rejected hrejected with hmem | ⟨env, content, e, rfl, henv, hid, hmem, hop, he⟩
    · obtain ⟨x, hx, hrest⟩ := ih hmem
      exact ⟨x, List.mem_append_right _ hx, hrest⟩
    · have haborts : env.aborts = false := by
        by_contra haborts
        rw [Bool.not_eq_false] at haborts
        unfold commitTx at hop
        rw [haborts] at hop
        obtain rfl : e = .transient := (Except.error.inj hop).symm
        exact nomatch he
      refine ⟨{ state := s.state, env, content, digest }, List.mem_append_left _ ?_, hid, rfl,
        (reachable_handed (tracked_reachable hr)).processes _ _ _ hmem, e, ?_, he⟩
      · simp [failedCommits, hop]
      · exact (commitTx_recovery hunhindered haborts).trans hop

/-- In a run whose commits meet no fault and no expired lease, a row is deleted only for cause. -/
theorem deleted_for_cause {s t : Tracked} (h : ((tracked P).restrict Unhindered).Reachable s)
    (hst : (tracked P).step s l t) : DeletesForCause P s t.state := by
  have hreachable := tracked_reachable h
  intro r hr hgone
  rcases hst.1.keepsSubmissions (reachable_sound hreachable) with
    hkeeps | ⟨attemptId, digest, rfl, hrejected, hdelete⟩
  · obtain ⟨r', hr', hid⟩ := hkeeps r hr
    exact absurd hid (hgone r' hr')
  · have hdeleted : r ∉ t.state.db.submissions := fun hr => hgone r hr rfl
    rw [hdelete] at hdeleted
    have hcondition : r.attemptId = attemptId ∧ r.submissionDigest = digest ∧
        r.committedAt = none := by
      by_contra hkept
      refine hdeleted (List.mem_filter.2 ⟨hr, ?_⟩)
      by_contra hmatches
      exact hkept (by simpa [and_assoc] using hmatches)
    obtain ⟨rfl, rfl, hopen⟩ := hcondition
    obtain ⟨x, hx, hid, hdigest, hproposed, hcause⟩ := rejected_for_cause h hrejected
    refine ⟨hopen, x, hx, hid, hdigest, hproposed, fun hinj => ?_, hcause⟩
    exact hproposed.eq hinj ((reachable_handed hreachable).rows r hr).proposed

/-! ## Runs of a plant -/

/-- The recorded state after some actions, as long as the steps meet a condition. -/
def tracks (P : Platform) (ok : Tracked → Label → Bool) : Tracked → List Action → Option Tracked
  | s, [] => some s
  | s, a :: as => (act P s.state a).bind fun lt =>
      if ok s lt.1 then
        tracks P ok { state := lt.2, failures := failedCommits P s.state lt.1 ++ s.failures } as
      else none

theorem tracks_reachable {ok : Tracked → Label → Bool} {cond : Tracked → Label → Prop}
    (hok : ∀ s l, ok s l = true → cond s l) {as : List Action} {s t : Tracked}
    (hs : ((tracked P).restrict cond).Reachable s) (h : tracks P ok s as = some t) :
    ((tracked P).restrict cond).Reachable t := by
  induction as generalizing s with
  | nil => exact Option.some.inj h ▸ hs
  | cons a as ih =>
    obtain ⟨⟨l, u⟩, hact, h⟩ := Option.bind_eq_some_iff.1 h
    dsimp only at h
    split at h
    · rename_i hl
      exact ih (hs.next ⟨⟨act_step hact, rfl⟩, hok _ _ hl⟩) h
    · exact absurd h nofun

/-- The commits of recovery, for results that failed. -/
def recoversFailures (_ : Tracked) : Label → Bool
  | .commit env input _ => env.allowExpiredLease && input.status ≠ .completed
  | _ => true

theorem recoversFailures_unhindered (s : Tracked) (l : Label) (h : recoversFailures s l = true) :
    Unhindered s l := by
  cases l with
  | commit env input digest =>
    rw [recoversFailures, Bool.and_eq_true, decide_eq_true_eq] at h
    exact ⟨fun hcompleted => absurd hcompleted h.2, Or.inl h.1⟩
  | _ => trivial

/-- The plant before any work, with an empty record. -/
def trackedPlant : Tracked :=
  ⟨plant, []⟩

theorem trackedPlant_reachable {cond : Tracked → Label → Prop} :
    ((tracked samplePlatform).restrict cond).Reachable trackedPlant :=
  .start ⟨deploy_initial (by decide), rfl⟩

/-- The attempts with a row, before and after a deletion by the first process. -/
def deletion (s : Tracked) : Option (List Uuid × List Uuid) :=
  (act samplePlatform s.state (.delete 0)).map fun lt =>
    (s.state.db.submissions.map (·.attemptId), lt.2.db.submissions.map (·.attemptId))

/-- What a deletion by the first process does is a step. -/
theorem deletion_step {s : Tracked} {before after : List Uuid}
    (h : deletion s = some (before, after)) :
    s.state.db.submissions.map (·.attemptId) = before ∧ ∃ l t, (tracked samplePlatform).step s l t ∧
      t.state.db.submissions.map (·.attemptId) = after := by
  obtain ⟨⟨l, u⟩, hact, heq⟩ := Option.map_eq_some_iff.1 h
  obtain ⟨hbefore, hafter⟩ := Prod.mk.inj heq
  exact ⟨hbefore, l, ⟨u, failedCommits samplePlatform s.state l ++ s.failures⟩, ⟨act_step hact, rfl⟩,
    hafter⟩

/-- Recovery rejects a result whose usage is no report. -/
def rejectedRun : List Action :=
  [.submit (plantCommand "start" "c"), poll,
    .handoff { plantResult .failed 1003 1006 1007 with resourceUsage := .null }, .recoverSubmission 1006,
    .commit 0 plantStores]

/-- The rejected result is deleted, for cause. -/
theorem rejected_usage_deleted : ∃ s l t, (tracked samplePlatform).step s l t ∧
    s.state.db.submissions.map (·.attemptId) = [1006] ∧ t.state.db.submissions.map (·.attemptId) = [] ∧
      DeletesForCause samplePlatform s t.state := by
  have hsome : (tracks samplePlatform recoversFailures trackedPlant rejectedRun).map deletion =
      some (some ([1006], [])) := rfl
  obtain ⟨s, hs, hdeletion⟩ := Option.map_eq_some_iff.1 hsome
  obtain ⟨hbefore, l, t, hst, hafter⟩ := deletion_step hdeletion
  exact ⟨s, l, t, hst, hbefore, hafter, deleted_for_cause
    (tracks_reachable recoversFailures_unhindered trackedPlant_reachable hs) hst⟩

/-- The lease of an attempt expires between the hand-off of its result and the commit. -/
def lateRun : List Action :=
  [.submit (plantCommand "start" "c"), poll, .handoff (plantResult .completed 1003 1006 1007),
    .read 0, .tick 5000, .commit 0 plantStores]

/-- The result is deleted, though the recovery commit accepts it. -/
theorem late_result_deleted : ¬∀ (P : Platform) (s t : Tracked) (l : Label), (tracked P).Reachable s →
    (tracked P).step s l t → DeletesForCause P s t.state := by
  intro h
  have hsome : (tracks samplePlatform (fun _ _ => true) trackedPlant lateRun).map (fun s =>
      (deletion s, s.failures.all fun x =>
        (commitTx samplePlatform x.env.recovery x.content x.digest x.state.db).isOk)) =
      some (some ([1006], []), true) := rfl
  obtain ⟨s, hs, heq⟩ := Option.map_eq_some_iff.1 hsome
  obtain ⟨hdeletion, haccepted⟩ := Prod.mk.inj heq
  obtain ⟨hbefore, l, t, hst, hafter⟩ := deletion_step hdeletion
  have hfree : ((tracked samplePlatform).restrict fun _ _ => True).Reachable s :=
    tracks_reachable (fun _ _ _ => trivial) trackedPlant_reachable hs
  have hreachable := hfree.of_restrict
  obtain ⟨r, hr, -⟩ := List.mem_map.1 (hbefore ▸ List.mem_singleton_self 1006)
  obtain ⟨-, x, hx, -, -, -, -, e, he, -⟩ := h _ s t l hreachable hst r hr (by
    rw [List.map_eq_nil_iff.1 hafter]
    exact fun r' hr' => nomatch hr')
  have hok := List.all_eq_true.1 haccepted x hx
  rw [he] at hok
  exact nomatch hok

end FactoryFloor
