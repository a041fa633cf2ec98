import FactoryFloor.Sound

/-!
# Executing runs

The steps of the runtime as a function. An `Action` names a step by what the caller chooses, and
`act` takes it : the process or the pass it needs is named by its position. `act_step` says that
what `act` returns is a step, so the states `runs` computes are reachable (`runs_reachable`).

`deploy` is the state before any work, of a catalog, regions and budgets.
-/

namespace FactoryFloor

open Relational Transition

/-! ## Deployments -/

instance {α β : Type*} [DecidableEq β] (key : α → β) (rows : List α) : Decidable (Keyed key rows) :=
  inferInstanceAs (Decidable (rows.map key).Nodup)

instance (db : Db) : Decidable (WellFormed db) :=
  decidable_of_iff
    ((Keyed (·.id) db.regions ∧ Keyed (·.id) db.components ∧ Keyed (·.id) db.budgets ∧
        Keyed (·.id) db.revisions) ∧
      (∀ r ∈ db.regions, (db.ancestors r.id).Nodup) ∧
      (∀ v ∈ db.revisions, ∃ r ∈ db.regions, r.id = v.regionId) ∧
      (∀ c ∈ db.components, ∃ v ∈ db.revisions,
        v.id = c.topologyRevisionId ∧ v.regionId = c.regionId) ∧
      (∀ r ∈ db.regions, ∀ v ∈ db.revisions, r.activeTopologyRevisionId = some v.id →
        v.regionId = r.id) ∧
      ∀ k ∈ db.connections, ∃ c ∈ db.components,
        c.id = k.targetComponentInstanceId ∧ c.topologyRevisionId = k.topologyRevisionId)
    ⟨fun ⟨⟨h₁, h₂, h₃, h₄⟩, h₅, h₆, h₇, h₈, h₉⟩ => ⟨h₁, h₂, h₃, h₅, h₆, h₇, h₈, h₉, h₄⟩,
      fun h => ⟨⟨h.regions, h.components, h.budgets, h.revisions⟩, h.ancestors, h.revision,
        h.component, h.active, h.connection⟩⟩

/-- A database before any work. -/
def deployDb (catalog : Catalog) (regions : List Region) (budgets : List ResourceBudget)
    (drawn : ℕ) : Db :=
  { catalog with
    regions, budgets, commands := [], deliveries := [], executions := [], inputs := [],
    attempts := [], reservations := [], staging := [], uploads := [], artifacts := [],
    derivations := [], submissions := [], outputs := [], events := [], streams := [],
    actions := [], ledger := [], stateVersions := [], drawn }

/-- The state of a database before any work. -/
def deploy (catalog : Catalog) (regions : List Region) (budgets : List ResourceBudget)
    (drawn : ℕ) : State :=
  { db := deployDb catalog regions budgets drawn, now := 0, blobs := [], claimed := [],
    envelopes := [], processes := [], passes := [] }

theorem deploy_initial {P : Platform} {catalog : Catalog} {regions : List Region}
    {budgets : List ResourceBudget} {drawn : ℕ}
    (h : WellFormed (deployDb catalog regions budgets drawn)) :
    Initial P (deploy catalog regions budgets drawn) := by
  refine ⟨h, rfl, rfl, rfl, rfl, rfl, rfl, rfl, rfl, rfl, rfl, rfl, rfl, rfl, rfl, rfl, ?_,
    ?_, rfl, rfl, rfl, rfl⟩
  · exact ⟨List.nodup_nil, List.nodup_nil, by simp [deploy, deployDb]⟩
  · simp [deploy, deployDb]

/-! ## Actions -/

/-- A step, by what its caller chooses. -/
inductive Action where
  | tick (now : Time)
  | submit (input : SubmitCommandInput)
  | lease (options : LeaseNextAttemptOptions)
  /-- Build the envelope of the claimed attempt at a position. -/
  | envelope (claim : ℕ)
  | heartbeat (leaseDurationMs : ℕ) (input : AttemptIdentityInput)
  | stage (leaseDurationMs : ℕ) (input : StageInput)
  | uploadBlob (stagedRef : Uuid) (input : AttemptIdentityInput) (bytes : List UInt8)
  | recordUpload (stagedRef : Uuid) (input : AttemptIdentityInput) (bytes : List UInt8)
  | handoff (input : ProposedResultInput)
  /-- Read the submission of the process at a position. -/
  | read (process : ℕ)
  | recoverSubmission (attemptId : Uuid)
  /-- The commit, or its rejection, of the process at a position. -/
  | commit (process : ℕ) (stores : Stores)
  | delete (process : ℕ)
  | scanExpired
  /-- Recover the next attempt of the pass at a position. -/
  | recoverExpired (pass : ℕ)
  | settle (regionId : Uuid)
  | cancelRun (context : OperatorContext) (runId : Uuid) (input : RunCancellationRequest)
  | requestCancellation (regionId : Uuid) (epoch : ℕ)

/-- The result of a transaction, when it has one. -/
def done {α β : Type} (x : Outcome (α × Db)) (f : α → Db → β) : Option β :=
  match x with
  | .ok (a, db) => some (f a db)
  | .error _ => none

theorem done_eq_some {α β : Type} {x : Outcome (α × Db)} {f : α → Db → β} {b : β} :
    done x f = some b ↔ ∃ a db, x = .ok (a, db) ∧ f a db = b := by
  rcases x with e | ⟨a, db⟩ <;> simp [done]

/-- What a process commits with. -/
def commitEnv (s : State) (stores : Stores) (allowExpiredLease : Bool) : CommitEnv :=
  { now := s.now, allowExpiredLease, aborts := false,
    stores := { stores with blobStore := some fun ref => s.blobs.lookup ref } }

/-- The commit of a result, or its rejection. -/
def actCommit (P : Platform) (s : State) (env : CommitEnv) (result : ProposedExecutionResult)
    (digest : Digest) (pre post : List Process) : Option (Label × State) :=
  match commitTx P env result digest s.db with
  | .ok (_, db) => some (.commit env result digest, { s with db, processes := pre ++ post })
  | .error e =>
    if e.rejects then
      some (.commit env result digest,
        { s with processes := pre ++ .rejected result.attemptId digest :: post })
    else none

/-- The step an action names, and the state after it. -/
def act (P : Platform) (s : State) : Action → Option (Label × State)
  | .tick now => if s.now ≤ now then some (.tick now, { s with now }) else none
  | .submit input =>
    done (submit P s.now input s.db) fun _ db => (.submit input, { s with db })
  | .lease options =>
    done (leaseNextAttempt P s.now options (fun _ => true) s.db) fun leased db =>
      (.lease options fun _ => true, { s with db, claimed := leased.toList ++ s.claimed })
  | .envelope claim =>
    match s.claimed.drop claim with
    | scheduled :: post =>
      match buildEnvelope scheduled s.db with
      | .ok envelope => some (.envelope scheduled,
          { s with claimed := s.claimed.take claim ++ post, envelopes := envelope :: s.envelopes })
      | .error _ => none
    | [] => none
  | .heartbeat leaseDurationMs input =>
    if validLeaseDuration leaseDurationMs then
      done (heartbeat s.now leaseDurationMs input s.db) fun _ db =>
        (.heartbeat leaseDurationMs input, { s with db })
    else none
  | .stage leaseDurationMs input =>
    done (stage P s.now leaseDurationMs input s.db) fun _ db =>
      (.stage leaseDurationMs input, { s with db })
  | .uploadBlob stagedRef input bytes =>
    match uploadBlob P s.now stagedRef input bytes s.blobs s.db with
    | .ok blobs => some (.uploadBlob stagedRef input bytes, { s with blobs })
    | .error _ => none
  | .recordUpload stagedRef input bytes =>
    if s.blobs.lookup stagedRef = some bytes then
      match recordUpload P s.now stagedRef input (P.sha256 bytes) bytes.length s.db with
      | .ok db => some (.recordUpload stagedRef input bytes, { s with db })
      | .error _ => none
    else none
  | .handoff input =>
    done (handoff P s.now input s.db) fun _ db =>
      (.handoff input, { s with db, processes := .handedOff input.attemptId :: s.processes })
  | .read process =>
    match s.processes.drop process with
    | .handedOff attemptId :: post =>
      (s.db.submission? attemptId).map fun row =>
        (.read attemptId,
          { s with processes :=
              s.processes.take process ++
                .committing row.result row.submissionDigest false :: post })
    | _ => none
  | .recoverSubmission attemptId =>
    (s.db.submission? attemptId).map fun row =>
      (.recoverSubmission attemptId,
        { s with processes :=
            .committing row.result row.submissionDigest true :: s.processes })
  | .commit process stores =>
    match s.processes.drop process with
    | .committing result digest allow :: post =>
      actCommit P s (commitEnv s stores allow) result digest (s.processes.take process) post
    | _ => none
  | .delete process =>
    match s.processes.drop process with
    | .rejected attemptId digest :: post =>
      some (.delete attemptId digest, { s with db := deleteSubmission attemptId digest s.db,
                                               processes := s.processes.take process ++ post })
    | _ => none
  | .scanExpired =>
    some (.scanExpired s.now,
      { s with passes := { now := s.now, remaining := expiredAttemptIds s.now s.db } :: s.passes })
  | .recoverExpired pass =>
    match s.passes.drop pass with
    | ⟨now, attemptId :: remaining⟩ :: post =>
      done (recoverExpired P now attemptId s.db) fun _ db =>
        (.recoverExpired now attemptId,
          { s with db, passes := s.passes.take pass ++ { now, remaining } :: post })
    | _ => none
  | .settle regionId =>
    match settleCancelling s.now regionId s.db with
    | .ok db => some (.settle s.now regionId, { s with db })
    | .error _ => none
  | .cancelRun context runId input =>
    done (cancelRun P s.now context runId input s.db) fun _ db =>
      (.cancelRun context runId input, { s with db })
  | .requestCancellation regionId epoch =>
    some (.requestCancellation regionId epoch,
      { s with db := requestCancellation regionId epoch s.db })

variable {P : Platform} {s t : State} {l : Label}

theorem split_of_drop {α : Type} {xs : List α} {n : ℕ} {x : α} {post : List α}
    (h : xs.drop n = x :: post) : xs = xs.take n ++ x :: post := by
  rw [← h, List.take_append_drop]

theorem commitEnv_of (s : State) (stores : Stores) (allowExpiredLease : Bool) :
    (commitEnv s stores allowExpiredLease).of s :=
  ⟨rfl, Or.inr rfl⟩

theorem actCommit_step {env : CommitEnv} {result : ProposedExecutionResult} {digest : Digest}
    {pre post : List Process} (henv : env.of s)
    (hmem : s.processes = pre ++ .committing result digest env.allowExpiredLease :: post)
    (h : actCommit P s env result digest pre post = some (l, t)) : Step P s l t := by
  unfold actCommit at h
  split at h
  · rename_i disposition db hop
    obtain ⟨rfl, rfl⟩ := Prod.mk.inj (Option.some.inj h)
    exact .commit henv hmem hop
  · rename_i e hop
    split at h
    · rename_i he
      obtain ⟨rfl, rfl⟩ := Prod.mk.inj (Option.some.inj h)
      exact .reject henv hmem hop he
    · simp at h

/-- What `act` returns is a step. -/
theorem act_step {a : Action} (h : act P s a = some (l, t)) : Step P s l t := by
  unfold act at h
  split at h
  · split at h
    · obtain ⟨rfl, rfl⟩ := Prod.mk.inj (Option.some.inj h)
      exact .tick ‹_›
    · simp at h
  · obtain ⟨result, db, hop, h⟩ := done_eq_some.1 h
    obtain ⟨rfl, rfl⟩ := Prod.mk.inj h
    exact .submit hop
  · obtain ⟨leased, db, hop, h⟩ := done_eq_some.1 h
    obtain ⟨rfl, rfl⟩ := Prod.mk.inj h
    exact .lease hop
  · split at h
    · rename_i scheduled post hdrop
      split at h
      · rename_i envelope hop
        obtain ⟨rfl, rfl⟩ := Prod.mk.inj (Option.some.inj h)
        exact .envelope (split_of_drop hdrop) hop
      · simp at h
    · simp at h
  · split at h
    · obtain ⟨reply, db, hop, h⟩ := done_eq_some.1 h
      obtain ⟨rfl, rfl⟩ := Prod.mk.inj h
      exact .heartbeat ‹_› hop
    · simp at h
  · obtain ⟨stagedRef, db, hop, h⟩ := done_eq_some.1 h
    obtain ⟨rfl, rfl⟩ := Prod.mk.inj h
    exact .stage hop
  · split at h
    · rename_i blobs hop
      obtain ⟨rfl, rfl⟩ := Prod.mk.inj (Option.some.inj h)
      exact .uploadBlob hop
    · simp at h
  · split at h
    · rename_i hblob
      split at h
      · rename_i db hop
        obtain ⟨rfl, rfl⟩ := Prod.mk.inj (Option.some.inj h)
        exact .recordUpload hblob hop
      · simp at h
    · simp at h
  · obtain ⟨duplicate, db, hop, h⟩ := done_eq_some.1 h
    obtain ⟨rfl, rfl⟩ := Prod.mk.inj h
    exact .handoff hop
  · split at h
    · rename_i attemptId post hdrop
      obtain ⟨row, hrow, h⟩ := Option.map_eq_some_iff.1 h
      obtain ⟨rfl, rfl⟩ := Prod.mk.inj h
      exact .read (split_of_drop hdrop) hrow
    · simp at h
  · obtain ⟨row, hrow, h⟩ := Option.map_eq_some_iff.1 h
    obtain ⟨rfl, rfl⟩ := Prod.mk.inj h
    exact .recoverSubmission hrow
  · split at h
    · rename_i result digest allow post hdrop
      exact actCommit_step (commitEnv_of s _ allow) (split_of_drop hdrop) h
    · simp at h
  · split at h
    · rename_i attemptId digest post hdrop
      obtain ⟨rfl, rfl⟩ := Prod.mk.inj (Option.some.inj h)
      exact .delete (split_of_drop hdrop)
    · simp at h
  · obtain ⟨rfl, rfl⟩ := Prod.mk.inj (Option.some.inj h)
    exact .scanExpired le_rfl
  · split at h
    · rename_i now attemptId remaining post hdrop
      obtain ⟨recovered, db, hop, h⟩ := done_eq_some.1 h
      obtain ⟨rfl, rfl⟩ := Prod.mk.inj h
      exact .recoverExpired (split_of_drop hdrop) hop
    · simp at h
  · split at h
    · rename_i db hop
      obtain ⟨rfl, rfl⟩ := Prod.mk.inj (Option.some.inj h)
      exact .settle hop
    · simp at h
  · obtain ⟨receipt, db, hop, h⟩ := done_eq_some.1 h
    obtain ⟨rfl, rfl⟩ := Prod.mk.inj h
    exact .cancelRun hop
  · obtain ⟨rfl, rfl⟩ := Prod.mk.inj (Option.some.inj h)
    exact .requestCancellation

/-! ## Runs -/

/-- The state after some actions. -/
def runs (P : Platform) : State → List Action → Option State
  | s, [] => some s
  | s, a :: as => (act P s a).bind fun lt => runs P lt.2 as

theorem runs_later {as : List Action} (h : runs P s as = some t) : (runtime P).Later s t := by
  induction as generalizing s with
  | nil =>
    obtain rfl := Option.some.inj h
    exact .refl
  | cons a as ih =>
    obtain ⟨⟨l, u⟩, hact, h⟩ := Option.bind_eq_some_iff.1 h
    exact (System.Later.refl.next (act_step hact)).trans (ih h)

/-- The state some actions lead to is reachable. -/
theorem runs_reachable {as : List Action} (hs : (runtime P).Reachable s)
    (h : runs P s as = some t) : (runtime P).Reachable t :=
  hs.later (runs_later h)

/-! ## A plant -/

/-- A platform that numbers what it draws. -/
def samplePlatform : Platform where
  uuid n := n
  uuid_injective _ _ h := h
  token n := n
  token_injective _ _ h := h
  canonicalJsonDigest
    | .submission input => input.attemptId
    | .payload _ => 0
    | .command .. => 1
    | .cancellation .. => 2
    | .decision .. => 3
  sha256 bytes := bytes.length
  parseJson _ := some .null
  parseDate _ := some 0
  base64url s := .other s
  castUuid _ := none
  uuidText n := toString n
  matchesUuidPattern
    | .uuid _ => true
    | .other _ => false
  castUuid_of_matches := by simp
  compiles _ _ := true
  validates _ _ := true
  bindJsonb v := some v
  indexable _ := true

/-- A press with a required and an optional input, whose output goes to a packer. -/
def plantCatalog : Catalog where
  schemas := [⟨500, 7, .null, none⟩]
  definitions := [⟨400, "press", "1"⟩, ⟨401, "pack", "1"⟩]
  ports := [⟨400, "in", .input, 500, true⟩, ⟨400, "opt", .input, 500, false⟩,
    ⟨400, "out", .output, 500, true⟩, ⟨400, "st", .output, 500, false⟩,
    ⟨400, "st", .state, 500, false⟩, ⟨401, "in", .input, 500, true⟩]
  revisions := [⟨200, 100, [], [("start", [⟨"press", "in"⟩]), ("extra", [⟨"press", "opt"⟩])]⟩]
  components := [⟨300, 100, 200, 400, "press"⟩, ⟨301, 100, 200, 401, "pack"⟩]
  connections := [⟨200, 300, "out", 301, "in"⟩]
  capabilities := []
  grants := []

/-- The plant before any work. -/
def plant : State :=
  deploy plantCatalog [⟨100, none, "plant", .running, 1, some 200⟩] [] 1000

theorem plant_reachable : (runtime samplePlatform).Reachable plant :=
  .start (deploy_initial (by decide))

/-- A command of a type, under a correlation id. -/
def plantCommand (commandType correlationId : String) : SubmitCommandInput :=
  ⟨"plant", commandType, .null, none, some (.other correlationId), none, none⟩

/-- A poll of the plant. -/
def poll : Action :=
  .lease ⟨"worker", 1000, none⟩

/-- A usage report without usage. -/
def noUsage : Json :=
  .obj (resourceUnits.map fun unit => (unit.1, .num 0))

/-- The result an attempt of the plant reports, with no artifacts. -/
def plantResult (status : ResultStatus) (executionId attemptId : Uuid) (leaseToken : LeaseToken) :
    ProposedResultInput :=
  { executionId, attemptId, leaseToken, regionFencingEpoch := some 1, lifecycleEpoch := none, status,
    stagedArtifacts := [], proposedState := none, proposedEvents := [],
    externalActionProposals := [], resourceUsage := noUsage, failure := none }

/-- Stores without receipts and faults. -/
def plantStores : Stores :=
  { blobStore := none, receipts := fun _ => none, compiled := fun _ => none,
    blobFails := fun _ => false, databaseFails := fun _ => false }

end FactoryFloor
