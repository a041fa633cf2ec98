import FactoryFloor.Commit

/-!
# What a commit writes

One lemma for each phase of a commit that succeeds : the tables it writes, and the rows it
appends. `Stages` is the effect of publishing artifacts, and `digestOf` names an artifact by its
content. `IsAction`, `IsOutput` and `IsEvent` relate a row to what the result proposes, and
`Publishes` puts the phases of a completed result together.

`commitTx_eq_ok` says that a commit answers a duplicate and changes nothing, or publishes under
authority.
-/

namespace FactoryFloor

open Relational

/-! ## Artifacts -/

/-- The digest of the artifact with an id. -/
def digestOf (artifacts : List Artifact) (id : Uuid) : Option Digest :=
  (artifacts.find? (·.id = id)).map (·.digest)

/-- The digest of the staged row with a reference. -/
def stagedDigest (staging : List ArtifactStaging) (stagedRef : Uuid) : Option Digest :=
  (staging.find? (·.stagedRef = stagedRef)).map (·.digest)

theorem digestOf_append {artifacts : List Artifact} {id : Uuid} {digest : Digest}
    (h : digestOf artifacts id = some digest) (new : List Artifact) :
    digestOf (artifacts ++ new) id = some digest := by
  obtain ⟨a, ha, rfl⟩ := Option.map_eq_some_iff.1 h
  rw [digestOf, List.find?_append, ha]
  rfl

theorem digestOf_eq {artifacts : List Artifact} (hk : Keyed (·.id) artifacts) {a : Artifact}
    (ha : a ∈ artifacts) : digestOf artifacts a.id = some a.digest := by
  rw [digestOf, hk.find?_eq_some ha]
  rfl

/-- Updates of the status or the artifact of staged rows keep the digests. -/
theorem stagedDigest_updateWhere {p : ArtifactStaging → Bool} {f : ArtifactStaging → ArtifactStaging}
    (hf : ∀ s, (f s).stagedRef = s.stagedRef ∧ (f s).digest = s.digest)
    (staging : List ArtifactStaging) (ref : Uuid) :
    stagedDigest (updateWhere p f staging) ref = stagedDigest staging ref :=
  map_find?_updateWhere _ (fun s => by simp [(hf s).1]) (fun s => (hf s).2) staging

/-! ## Written rows -/

/-- The rows a commit appends to the tables it publishes in. -/
@[ext] structure Written where
  outputs : List ExecutionOutput
  events : List Event
  deliveries : List Delivery
  actions : List ExternalAction
  ledger : List ResourceLedgerEntry
  stateVersions : List ComponentStateVersion

namespace Written

/-- Nothing is written. -/
def none : Written :=
  ⟨[], [], [], [], [], []⟩

instance : Append Written :=
  ⟨fun w w' => ⟨w.outputs ++ w'.outputs, w.events ++ w'.events, w.deliveries ++ w'.deliveries,
    w.actions ++ w'.actions, w.ledger ++ w'.ledger, w.stateVersions ++ w'.stateVersions⟩⟩

theorem append_def (w w' : Written) : w ++ w' = ⟨w.outputs ++ w'.outputs, w.events ++ w'.events,
    w.deliveries ++ w'.deliveries, w.actions ++ w'.actions, w.ledger ++ w'.ledger,
    w.stateVersions ++ w'.stateVersions⟩ := rfl

@[simp] theorem none_append (w : Written) : none ++ w = w := rfl

@[simp] theorem append_none (w : Written) : w ++ none = w := by
  ext1 <;> exact List.append_nil _

end Written

/-- What the phases of a commit do to the database, up to the end of the attempt : they append
rows, artifacts among them, and link staged rows to artifacts. -/
structure Writes (P : Platform) (db : Db) (w : Written) (db' : Db) : Prop where
  catalog : db'.toCatalog = db.toCatalog
  scheduling : db'.toScheduling = { db.toScheduling with deliveries := db.deliveries ++ w.deliveries }
  submissions : db'.submissions = db.submissions
  outputs : db'.outputs = db.outputs ++ w.outputs
  events : db'.events = db.events ++ w.events
  actions : db'.actions = db.actions ++ w.actions
  ledger : db'.ledger = db.ledger ++ w.ledger
  stateVersions : db'.stateVersions = db.stateVersions ++ w.stateVersions
  uploads : db'.uploads = db.uploads
  artifacts : db.artifacts <+: db'.artifacts
  artifactsKeyed : Keyed (·.id) db.artifacts → Keyed (·.id) db'.artifacts
  actionsKeyed : Keyed (·.id) db.actions → Keyed (·.id) db'.actions
  stagedDigest : ∀ ref, stagedDigest db'.staging ref = stagedDigest db.staging ref
  drawn : db.drawn ≤ db'.drawn
  newEvents : ∀ e ∈ w.events, ∀ e' ∈ db.events, e'.id ≠ e.id
  newDeliveries : ∀ d ∈ w.deliveries, ∃ now s t k, db.drawn ≤ k ∧ k < db'.drawn ∧
    d = routed P now s t (P.uuid k) ∧ ∃ e ∈ w.events, s.source = .event e.id
  deliveriesKeyed : Keyed (·.id) w.deliveries

namespace Writes

variable {P : Platform} {db₁ db₂ db₃ : Db} {w w' : Written}

/-- A phase that publishes nothing but artifacts. -/
theorem of_artifacts (catalog : db₂.toCatalog = db₁.toCatalog)
    (scheduling : db₂.toScheduling = db₁.toScheduling)
    (publications : db₂.toPublications = db₁.toPublications) (uploads : db₂.uploads = db₁.uploads)
    (artifacts : db₁.artifacts <+: db₂.artifacts)
    (keyed : Keyed (·.id) db₁.artifacts → Keyed (·.id) db₂.artifacts)
    (staged : ∀ ref, FactoryFloor.stagedDigest db₂.staging ref =
      FactoryFloor.stagedDigest db₁.staging ref)
    (drawn : db₁.drawn ≤ db₂.drawn) : Writes P db₁ .none db₂ := by
  constructor <;> simp_all [Written.none, Keyed]

theorem refl : Writes P db₁ .none db₁ :=
  of_artifacts rfl rfl rfl rfl List.prefix_rfl id (fun _ => rfl) le_rfl

theorem trans (h : Writes P db₁ w db₂) (h' : Writes P db₂ w' db₃) : Writes P db₁ (w ++ w') db₃ where
  catalog := h'.catalog.trans h.catalog
  scheduling := by
    rw [h'.scheduling, show db₂.deliveries = db₁.deliveries ++ w.deliveries by rw [h.scheduling],
      h.scheduling, Written.append_def, List.append_assoc]
  submissions := h'.submissions.trans h.submissions
  outputs := by rw [h'.outputs, h.outputs, Written.append_def, List.append_assoc]
  events := by rw [h'.events, h.events, Written.append_def, List.append_assoc]
  actions := by rw [h'.actions, h.actions, Written.append_def, List.append_assoc]
  ledger := by rw [h'.ledger, h.ledger, Written.append_def, List.append_assoc]
  stateVersions := by
    rw [h'.stateVersions, h.stateVersions, Written.append_def, List.append_assoc]
  uploads := h'.uploads.trans h.uploads
  artifacts := h.artifacts.trans h'.artifacts
  artifactsKeyed := h'.artifactsKeyed ∘ h.artifactsKeyed
  actionsKeyed := h'.actionsKeyed ∘ h.actionsKeyed
  stagedDigest ref := (h'.stagedDigest ref).trans (h.stagedDigest ref)
  drawn := h.drawn.trans h'.drawn
  newEvents e he e' he' := by
    rcases List.mem_append.1 he with he | he
    · exact h.newEvents e he e' he'
    · exact h'.newEvents e he e' (h.events ▸ List.mem_append_left _ he')
  newDeliveries d hd := by
    rcases List.mem_append.1 hd with hd | hd
    · obtain ⟨now, s, t, k, hk, hk', hd, e, he, hs⟩ := h.newDeliveries d hd
      exact ⟨now, s, t, k, hk, hk'.trans_le h'.drawn, hd, e, List.mem_append_left _ he, hs⟩
    · obtain ⟨now, s, t, k, hk, hk', hd, e, he, hs⟩ := h'.newDeliveries d hd
      exact ⟨now, s, t, k, h.drawn.trans hk, hk', hd, e, List.mem_append_right _ he, hs⟩
  deliveriesKeyed := by
    have hkeyed := h.deliveriesKeyed
    have hkeyed' := h'.deliveriesKeyed
    unfold Keyed at hkeyed hkeyed' ⊢
    rw [Written.append_def, List.map_append, List.nodup_append]
    refine ⟨hkeyed, hkeyed', ?_⟩
    rintro x hx y hy rfl
    obtain ⟨d, hd, rfl⟩ := List.mem_map.1 hx
    obtain ⟨d', hd', hid⟩ := List.mem_map.1 hy
    obtain ⟨_, _, _, k, -, hk, rfl, -⟩ := h.newDeliveries d hd
    obtain ⟨_, _, _, k', hk', -, rfl, -⟩ := h'.newDeliveries d' hd'
    exact absurd (P.uuid_injective hid) (by omega)

/-- A phase that publishes nothing but artifacts adds no rows. -/
theorem and_artifacts (h : Writes P db₁ w db₂) (h' : Writes P db₂ .none db₃) :
    Writes P db₁ w db₃ := by
  simpa using h.trans h'

theorem digestOf (h : Writes P db₁ w db₂) {id : Uuid} {digest : Digest}
    (hd : digestOf db₁.artifacts id = some digest) : digestOf db₂.artifacts id = some digest := by
  obtain ⟨new, hnew⟩ := h.artifacts
  rw [← hnew]
  exact digestOf_append hd new

end Writes

/-! ## Publishing artifacts -/

/-- The artifact of a row has the digest of the row. -/
theorem ensureArtifact_eq_ok {P : Platform} {row : ArtifactStaging} {db db' : Db}
    {artifact : Artifact} (hk : Keyed (·.id) db.artifacts)
    (h : ensureArtifact P row db = .ok (artifact, db')) :
    Writes P db .none db' ∧ digestOf db'.artifacts artifact.id = some row.digest := by
  unfold ensureArtifact at h
  split at h
  · rename_i found hfound
    split at h
    · obtain ⟨rfl, rfl⟩ := Prod.mk.inj (Except.ok.inj h)
      obtain ⟨hmem, hdigest⟩ := mem_of_find?_key hfound
      exact ⟨Writes.refl, by rw [digestOf_eq hk hmem, hdigest]⟩
    · simp at h
  · obtain ⟨artifacts, hinsert, h⟩ := Except.bind_eq_ok.1 h
    obtain ⟨rfl, rfl⟩ := Prod.mk.inj (Except.ok.inj h)
    obtain ⟨rfl, -, hunique⟩ := insert_eq_ok.1 (sql_eq_ok.1 hinsert)
    have hfresh : ∀ a ∈ db.artifacts, a.id ≠ db.nextUuid P := by
      intro a ha hid
      exact hunique ("artifacts_pkey", fun a b => a.id = b.id) (by simp [Row.uniques]) a ha
        (by simp [hid])
    refine ⟨Writes.of_artifacts rfl rfl rfl rfl (List.prefix_append _ _) (fun _ => hk.append hfresh)
      (fun _ => rfl) (Nat.le_succ _), ?_⟩
    exact digestOf_eq (hk.append hfresh) (List.mem_append_right _ (List.mem_singleton_self _))

/-- Publishing a row appends its artifact, or finds it. -/
theorem publishArtifact_eq_ok {P : Platform} {executionId attemptId artifactId : Uuid}
    {row : ArtifactStaging} {derivationType : DerivationType} {db db' : Db}
    (hk : Keyed (·.id) db.artifacts)
    (h : publishArtifact P executionId attemptId row derivationType db = .ok (artifactId, db')) :
    Writes P db .none db' ∧ digestOf db'.artifacts artifactId = some row.digest := by
  unfold publishArtifact at h
  obtain ⟨⟨artifact, db₁⟩, hensure, h⟩ := Except.bind_eq_ok.1 h
  obtain ⟨db₂, hlink, h⟩ := Except.bind_eq_ok.1 h
  obtain ⟨rfl, rfl⟩ := Prod.mk.inj (Except.ok.inj h)
  obtain ⟨staging, hstaging, hlink⟩ := Except.bind_eq_ok.1 hlink
  obtain rfl := Except.ok.inj hlink
  obtain ⟨rfl, -⟩ := update_eq_ok.1 (sql_eq_ok.1 hstaging)
  obtain ⟨hwrites, hdigest⟩ := ensureArtifact_eq_ok hk hensure
  refine ⟨hwrites.and_artifacts (Writes.of_artifacts rfl rfl rfl rfl List.prefix_rfl id (fun ref => ?_)
    (Nat.le_succ _)), hdigest⟩
  exact stagedDigest_updateWhere (f := fun s => { s with artifactId := some artifact.id })
    (fun _ => ⟨rfl, rfl⟩) db₁.staging ref

/-! ## Staged outputs and state -/

/-- A staged artifact that passes has the digest of its row. -/
theorem validateStaged_eq_ok {P : Platform} {env : CommitEnv} {input : ProposedExecutionResult}
    {ports : List PortDefinition} {direction : PortDirection} {staged : Staged} {db : Db}
    {row : ArtifactStaging}
    (h : validateStaged P env input ports direction staged db = .ok row) :
    row.digest = staged.digest ∧ stagedDigest db.staging staged.stagingId = some staged.digest := by
  unfold validateStaged at h
  split at h
  · simp at h
  · split at h
    · simp at h
    · rename_i port hport authorized hauthorized
      obtain ⟨hrow, hvalid⟩ := Option.filter_eq_some_iff.1 hauthorized
      have hdigest : authorized.digest = staged.digest := by
        simp only [stagedMetadataValid, Bool.and_eq_true, decide_eq_true_eq] at hvalid
        tauto
      obtain rfl : authorized.toArtifactStaging = row := by
        split at h
        · split at h
          · simp at h
          · split at h
            · exact Except.ok.inj h
            · simp at h
        · exact Except.ok.inj h
      obtain ⟨s, hs, hrow⟩ := Option.bind_eq_some_iff.1 hrow
      obtain ⟨schema, -, hrow⟩ := Option.bind_eq_some_iff.1 hrow
      obtain ⟨upload, -, rfl⟩ := Option.map_eq_some_iff.1 hrow
      exact ⟨hdigest, by rw [stagedDigest, hs]; exact congrArg some hdigest⟩

/-- Every reference that is published has an artifact with the digest of its row. -/
def Publishing.Linked (p : Publishing) : Prop :=
  ∀ ref id, p.artifactIds.lookup ref = some id →
    ∃ d, digestOf p.db.artifacts id = some d ∧ stagedDigest p.db.staging ref = some d

/-- What a step of a publication does : it publishes artifacts, and keeps the links. -/
structure Publishing.Advances (P : Platform) (p : Publishing) (w : Written) (p' : Publishing) :
    Prop where
  writes : Writes P p.db w p'.db
  linked : p'.Linked

theorem Publishing.Linked.writes {P : Platform} {p : Publishing} {w : Written} {db : Db}
    (h : p.Linked) (hs : Writes P p.db w db) :
    ({ p with db } : Publishing).Linked := by
  intro ref id hlookup
  obtain ⟨d, hd, hr⟩ := h ref id hlookup
  exact ⟨d, hs.digestOf hd, (hs.stagedDigest ref).trans hr⟩

/-- The links after one more reference is published. -/
theorem Publishing.Linked.cons {seen : List Uuid} {artifactIds : List (Uuid × Uuid)} {db : Db}
    (h : Publishing.Linked ⟨seen, artifactIds, db⟩) {ref id : Uuid} {d : Digest}
    (hd : digestOf db.artifacts id = some d) (hr : stagedDigest db.staging ref = some d)
    (seen' : List Uuid) : Publishing.Linked ⟨seen', (ref, id) :: artifactIds, db⟩ := by
  intro ref' id' hlookup
  by_cases heq : ref' = ref
  · subst heq
    simp only [List.lookup_cons, beq_self_eq_true, Option.some.injEq] at hlookup
    subst hlookup
    exact ⟨d, hd, hr⟩
  · rw [List.lookup_cons, beq_eq_false_iff_ne.2 heq] at hlookup
    exact h ref' id' hlookup

theorem stageArtifact_eq_ok {P : Platform} {env : CommitEnv} {input : ProposedExecutionResult}
    {ports : List PortDefinition} {direction : PortDirection} {derivationType : DerivationType}
    {message : String} {p p' : Publishing} {staged : Staged} (hk : Keyed (·.id) p.db.artifacts)
    (hp : p.Linked)
    (h : stageArtifact P env input ports direction derivationType message p staged = .ok p') :
    p.Advances P .none p' ∧ stagedDigest p.db.staging staged.stagingId = some staged.digest ∧
      (input.status ≠ .completed → p'.db = p.db) := by
  unfold stageArtifact at h
  obtain ⟨_, -, h⟩ := Except.bind_eq_ok.1 h
  obtain ⟨row, hrow, h⟩ := Except.bind_eq_ok.1 h
  obtain ⟨hdigest, hstaged⟩ := validateStaged_eq_ok hrow
  split at h
  · rename_i hcompleted
    obtain ⟨⟨artifactId, db⟩, hpublish, h⟩ := Except.bind_eq_ok.1 h
    obtain rfl := Except.ok.inj h
    obtain ⟨hwrites, hartifact⟩ := publishArtifact_eq_ok hk hpublish
    refine ⟨⟨hwrites, ?_⟩, hstaged, fun hne => absurd hcompleted hne⟩
    exact (hp.writes hwrites).cons (hartifact.trans (congrArg some hdigest))
      ((hwrites.stagedDigest _).trans hstaged) _
  · obtain rfl := Except.ok.inj h
    exact ⟨⟨Writes.refl, hp⟩, hstaged, fun _ => rfl⟩

/-- The staged artifacts a result publishes : the outputs, and the state. -/
def ProposedExecutionResult.published (input : ProposedExecutionResult) : List Staged :=
  input.stagedArtifacts ++ input.proposedState.toList

/-- Staging the outputs and the state of a result. -/
theorem stage_eq_ok {P : Platform} {env : CommitEnv} {input : ProposedExecutionResult}
    {ports : List PortDefinition} {p p₁ p' : Publishing} (hk : Keyed (·.id) p.db.artifacts)
    (hp : p.Linked) (h₁ : stageOutputs P env input ports p = .ok p₁)
    (h : stageState P env input ports p₁ = .ok p') :
    p.Advances P .none p' ∧
      (∀ staged ∈ input.published,
        stagedDigest p.db.staging staged.stagingId = some staged.digest) ∧
      (input.status ≠ .completed → p'.db = p.db) := by
  -- One step of either loop, from any point the publication has advanced to.
  have hloop : ∀ (direction : PortDirection) (derivationType : DerivationType) (message : String)
      (l : List Staged) (q q' : Publishing), p.Advances P .none q →
      (input.status ≠ .completed → q.db = p.db) →
      l.foldlM (stageArtifact P env input ports direction derivationType message) q = .ok q' →
      p.Advances P .none q' ∧ (∀ staged ∈ l,
          stagedDigest p.db.staging staged.stagingId = some staged.digest) ∧
        (input.status ≠ .completed → q'.db = p.db) := by
    intro direction derivationType message l
    induction l with
    | nil =>
      intro q q' hq hsame h
      obtain rfl : q = q' := by simpa [pure, Except.pure] using h
      exact ⟨hq, by simp, hsame⟩
    | cons staged l ih =>
      intro q q' hq hsame h
      rw [List.foldlM_cons] at h
      obtain ⟨q₁, hq₁, h⟩ := Except.bind_eq_ok.1 h
      obtain ⟨hadv, hdigest, hkeep⟩ := stageArtifact_eq_ok (hq.writes.artifactsKeyed hk) hq.linked hq₁
      obtain ⟨hadv', hall, hsame'⟩ := ih q₁ q' ⟨hq.writes.and_artifacts hadv.writes, hadv.linked⟩
        (fun hne => (hkeep hne).trans (hsame hne)) h
      refine ⟨hadv', fun s hs => ?_, hsame'⟩
      rcases List.mem_cons.1 hs with rfl | hs
      · rw [← hq.writes.stagedDigest]
        exact hdigest
      · exact hall s hs
  obtain ⟨hadv₁, hall₁, hsame₁⟩ := hloop .output .executionOutput _ _ p p₁ ⟨Writes.refl, hp⟩
    (fun _ => rfl) h₁
  unfold stageState at h
  cases hstate : input.proposedState with
  | none =>
    rw [hstate] at h
    obtain rfl := Except.ok.inj h
    exact ⟨hadv₁, by simpa [ProposedExecutionResult.published, hstate] using hall₁, hsame₁⟩
  | some state =>
    rw [hstate] at h
    obtain ⟨hadv, hall, hsame⟩ := hloop .state .stateVersion _ [state] p₁ p' hadv₁ hsame₁
      (by rw [List.foldlM_cons]; exact Except.bind_eq_ok.2 ⟨p', h, rfl⟩)
    refine ⟨hadv, fun s hs => ?_, hsame⟩
    rcases List.mem_append.1 hs with hs | hs
    · exact hall₁ s hs
    · exact hall s (by simpa [hstate] using hs)

/-! ## External actions -/

/-- Whether an external action is what a proposal describes. -/
structure IsAction (P : Platform) (input : ProposedExecutionResult) (artifacts : List Artifact)
    (proposal : ExternalActionProposal) (action : ExternalAction) : Prop where
  executionId : action.executionId = input.executionId
  attemptId : action.attemptId = input.attemptId
  proposalId : action.proposalId = proposal.proposalId
  grant : ∃ handle, decodeCapabilityGrantHandle P proposal.capabilityHandle = some handle ∧
    P.uuidOf handle = some action.capabilityGrantId
  request : digestOf artifacts action.outboundRequestArtifactId =
    some proposal.requestArtifact.digest
  actionType : action.actionType = proposal.actionType
  idempotencyKey : action.idempotencyKey = proposal.idempotencyKey
  risk : action.risk = proposal.risk
  status : action.status = .proposed
  approvalId : action.approvalId = none

/-- The first proposal under each id that has not been seen. -/
def firstProposals (seen : List Uuid) : List ExternalActionProposal → List ExternalActionProposal
  | [] => []
  | p :: ps =>
    if p.proposalId ∈ seen then firstProposals seen ps
    else p :: firstProposals (p.proposalId :: seen) ps

/-- The rows of external actions. -/
def Written.ofActions (actions : List ExternalAction) : Written :=
  { Written.none with actions }

theorem publishRequest_eq_ok {P : Platform} {env : CommitEnv} {input : ProposedExecutionResult}
    {ports : List PortDefinition} {request : Staged} {p p' : Publishing} {artifactId : Uuid}
    (hk : Keyed (·.id) p.db.artifacts) (hp : p.Linked)
    (h : publishRequest P env input ports request p = .ok (artifactId, p')) :
    p.Advances P .none p' ∧ digestOf p'.db.artifacts artifactId = some request.digest := by
  unfold publishRequest at h
  obtain ⟨row, hrow, h⟩ := Except.bind_eq_ok.1 h
  obtain ⟨hdigest, hstaged⟩ := validateStaged_eq_ok hrow
  split at h
  · rename_i id hlookup
    obtain ⟨rfl, rfl⟩ := Prod.mk.inj (Except.ok.inj h)
    obtain ⟨d, hd, hr⟩ := hp _ _ hlookup
    exact ⟨⟨Writes.refl, hp⟩, hd.trans (hr.symm.trans hstaged)⟩
  · obtain ⟨⟨id, db⟩, hpublish, h⟩ := Except.bind_eq_ok.1 h
    obtain ⟨rfl, rfl⟩ := Prod.mk.inj (Except.ok.inj h)
    obtain ⟨hwrites, hartifact⟩ := publishArtifact_eq_ok hk hpublish
    refine ⟨⟨hwrites, ?_⟩, hartifact.trans (congrArg some hdigest)⟩
    exact (hp.writes hwrites).cons (hartifact.trans (congrArg some hdigest))
      ((hwrites.stagedDigest _).trans hstaged) _

/-- An action is appended, unless an action has one of its keys. -/
theorem insertAction_eq_ok {P : Platform} {action : ExternalAction} {db db' : Db}
    (h : insertAction P action db = .ok db') :
    ∃ new, db' = { db.draw with actions := db.actions ++ new } ∧
      (new = [] ∨ new = [action] ∧ ∀ a ∈ db.actions, ¬sameAction action a ∧ a.id ≠ action.id) := by
  unfold insertAction at h
  split at h
  · obtain rfl := Except.ok.inj h
    exact ⟨[], by simp [Db.draw], Or.inl rfl⟩
  · rename_i hnone
    obtain ⟨_, -, h⟩ := Except.bind_eq_ok.1 h
    obtain ⟨actions, hinsert, h⟩ := Except.bind_eq_ok.1 h
    obtain rfl := Except.ok.inj h
    obtain ⟨rfl, -, hkeys⟩ := insert_eq_ok.1 (sql_eq_ok.1 hinsert)
    refine ⟨[action], rfl, Or.inr ⟨rfl, fun a ha => ⟨?_, fun hid => ?_⟩⟩⟩
    · exact fun hsame => hnone (List.any_eq_true.2 ⟨a, ha, hsame⟩)
    · exact hkeys _ (List.mem_cons_self) a ha (by simp [hid])

/-- The action that stands for a proposal is there under the proposal's id. -/
theorem mem_of_actionOf {action : ExternalAction} {db : Db}
    (h : (actionOf action db).any (isProposedAction action)) :
    ∃ a ∈ db.actions, a.attemptId = action.attemptId ∧ a.proposalId = action.proposalId := by
  obtain ⟨found, hfound, hproposed⟩ := (Option.any_eq_true _ _).1 h
  have hmem : found ∈ db.actions := by
    rcases Option.or_eq_some_iff.1 hfound with h | ⟨-, h⟩ <;> exact List.mem_of_find?_eq_some h
  simp only [isProposedAction, Bool.and_eq_true, decide_eq_true_eq] at hproposed
  exact ⟨found, hmem, by tauto, by tauto⟩

/-- One proposal appends its action, or an action of the attempt has its id already. -/
theorem publishExternalAction_eq_ok {P : Platform} {env : CommitEnv}
    {input : ProposedExecutionResult} {component : ComponentInstance} {ports : List PortDefinition}
    {p p' : Publishing} {proposal : ExternalActionProposal} (hk : Keyed (·.id) p.db.artifacts)
    (hp : p.Linked)
    (h : publishExternalAction P env input component ports p proposal = .ok p') :
    ∃ new, p.Advances P (.ofActions new) p' ∧
      ((new = [] ∧ ∃ a ∈ p.db.actions, a.attemptId = input.attemptId ∧
          a.proposalId = proposal.proposalId) ∨
        ∃ a, new = [a] ∧ IsAction P input p'.db.artifacts proposal a ∧
          ∀ b ∈ p.db.actions, ¬(b.attemptId = input.attemptId ∧
            b.proposalId = proposal.proposalId)) := by
  unfold publishExternalAction at h
  obtain ⟨_, -, h⟩ := Except.bind_eq_ok.1 h
  obtain ⟨grant, hgrant, h⟩ := Except.bind_eq_ok.1 h
  obtain ⟨⟨requestArtifactId, p₁⟩, hrequest, h⟩ := Except.bind_eq_ok.1 h
  obtain ⟨db, hinsert, h⟩ := Except.bind_eq_ok.1 h
  obtain ⟨_, hfound, h⟩ := Except.bind_eq_ok.1 h
  obtain rfl := Except.ok.inj h
  obtain ⟨hadv, hdigest⟩ := publishRequest_eq_ok hk hp hrequest
  have hactions : p₁.db.actions = p.db.actions := by simpa [Written.none] using hadv.writes.actions
  obtain ⟨new, rfl, hnew⟩ := insertAction_eq_ok hinsert
  have hwrites : Writes P p₁.db (.ofActions new)
      { p₁.db.draw with actions := p₁.db.actions ++ new } := by
    have hkeyed : Keyed (·.id) p₁.db.actions → Keyed (·.id) (p₁.db.actions ++ new) := by
      intro hkeyed
      rcases hnew with rfl | ⟨rfl, hnone⟩
      · rwa [List.append_nil]
      · exact hkeyed.append fun b hb => (hnone b hb).2
    constructor <;> simp [Written.ofActions, Written.none, Db.draw, Keyed]
    exact by simpa [Keyed] using hkeyed
  refine ⟨new, ⟨by simpa using hadv.writes.trans hwrites, hadv.linked.writes hwrites⟩, ?_⟩
  rcases hnew with rfl | ⟨rfl, hnone⟩
  · obtain ⟨a, ha, hattempt, hproposal⟩ := mem_of_actionOf (require_eq_ok.1 hfound)
    exact Or.inl ⟨rfl, a, by simpa [hactions] using ha, hattempt, hproposal⟩
  · refine Or.inr ⟨_, rfl, ⟨rfl, rfl, rfl, ?_, hdigest, rfl, rfl, rfl, rfl, rfl⟩,
      fun b hb hab => ?_⟩
    · unfold authorizeProposal at hgrant
      split at hgrant
      · simp at hgrant
      · rename_i handle hhandle
        split at hgrant
        · simp at hgrant
        · rename_i grantId hgrantId
          split at hgrant
          · simp at hgrant
          · rename_i found hactive
            obtain rfl := Except.ok.inj hgrant
            have hid := List.find?_some hactive
            simp only [Bool.and_eq_true, decide_eq_true_eq] at hid
            exact ⟨handle, hhandle, by rw [hgrantId, ← hid.1.1.1]⟩
    · refine (hnone b (hactions ▸ hb)).1 ?_
      simp [sameAction, hab.1, hab.2]

theorem IsAction.mono {P : Platform} {input : ProposedExecutionResult} {artifacts new : List Artifact}
    {proposal : ExternalActionProposal} {action : ExternalAction}
    (h : IsAction P input artifacts proposal action) (hnew : artifacts <+: new) :
    IsAction P input new proposal action := by
  obtain ⟨more, rfl⟩ := hnew
  exact { h with request := digestOf_append h.request more }

/-- The proposals append one action for each of the first ones. -/
theorem publishExternalActions_eq_ok {P : Platform} {env : CommitEnv}
    {input : ProposedExecutionResult} {component : ComponentInstance} {ports : List PortDefinition}
    {proposals : List ExternalActionProposal} {p p' : Publishing} (seen : List Uuid)
    (hk : Keyed (·.id) p.db.artifacts) (hp : p.Linked)
    (hseen : ∀ id, id ∈ seen ↔ ∃ a ∈ p.db.actions, a.attemptId = input.attemptId ∧ a.proposalId = id)
    (h : proposals.foldlM (publishExternalAction P env input component ports) p = .ok p') :
    ∃ new, p.Advances P (.ofActions new) p' ∧
      List.Forall₂ (IsAction P input p'.db.artifacts) (firstProposals seen proposals) new := by
  induction proposals generalizing p seen with
  | nil =>
    obtain rfl : p = p' := by simpa [pure, Except.pure] using h
    exact ⟨[], ⟨Writes.refl, hp⟩, List.Forall₂.nil⟩
  | cons proposal proposals ih =>
    rw [List.foldlM_cons] at h
    obtain ⟨p₁, h₁, h⟩ := Except.bind_eq_ok.1 h
    obtain ⟨new₁, hadv₁, hnew₁⟩ := publishExternalAction_eq_ok hk hp h₁
    have hactions : p₁.db.actions = p.db.actions ++ new₁ := hadv₁.writes.actions
    have hk₁ := hadv₁.writes.artifactsKeyed hk
    rcases hnew₁ with ⟨rfl, hold⟩ | ⟨a, rfl, ha, hnone⟩
    · obtain ⟨new, hadv, hall⟩ := ih seen hk₁ hadv₁.linked
        (by simpa [hactions] using hseen) h
      refine ⟨new, ⟨hadv₁.writes.trans hadv.writes, hadv.linked⟩, ?_⟩
      rw [firstProposals, if_pos ((hseen _).2 hold)]
      exact hall
    · have hseen₁ : ∀ id, id ∈ proposal.proposalId :: seen ↔
          ∃ b ∈ p₁.db.actions, b.attemptId = input.attemptId ∧ b.proposalId = id := by
        intro id
        rw [hactions, List.mem_cons, hseen]
        constructor
        · rintro (rfl | ⟨b, hb, h⟩)
          · exact ⟨a, by simp, ha.attemptId, ha.proposalId⟩
          · exact ⟨b, List.mem_append_left _ hb, h⟩
        · rintro ⟨b, hb, hattempt, hproposal⟩
          rcases List.mem_append.1 hb with hb | hb
          · exact Or.inr ⟨b, hb, hattempt, hproposal⟩
          · obtain rfl := List.mem_singleton.1 hb
            exact Or.inl (hproposal.symm.trans ha.proposalId)
      obtain ⟨new, hadv, hall⟩ := ih _ hk₁ hadv₁.linked hseen₁ h
      refine ⟨a :: new, ⟨hadv₁.writes.trans hadv.writes, hadv.linked⟩, ?_⟩
      rw [firstProposals, if_neg fun hin => ?_]
      · exact List.Forall₂.cons (ha.mono hadv.writes.artifacts) hall
      · obtain ⟨b, hb, hab⟩ := (hseen _).1 hin
        exact hnone b hb hab

/-! ## Events -/

/-- The row of one event. -/
def Written.ofEvents (events : List Event) : Written :=
  { Written.none with events }

theorem insertEvent_writes {P : Platform} {input : EventInput} {db db' : Db} {event : Event}
    (h : insertEvent P input db = .ok (event, db')) : Writes P db (.ofEvents [event]) db' := by
  obtain ⟨n, payload, -, -, hfresh, streams, rfl⟩ := insertEvent_eq_ok h
  constructor <;> simp [Written.ofEvents, Written.none, Db.draw, Keyed]
  exact hfresh

/-- Whether an event is what a proposed event describes. -/
structure IsEvent (P : Platform) (input : ProposedExecutionResult) (execution : Execution)
    (correlationId : Text) (proposed : ProposedEvent) (event : Event) : Prop where
  regionId : event.regionId = execution.regionId
  eventType : event.eventType = proposed.eventType
  payload : P.bindJsonb proposed.payload = some event.payload
  streamKey : event.streamKey = .subject proposed.subject
  correlationId : event.correlationId = correlationId
  source : event.source = .attempt input.executionId input.attemptId

/-- The proposed events append one event each. -/
theorem publishEvents_eq_ok {P : Platform} {input : ProposedExecutionResult}
    {execution : Execution} {correlationId : Text} {proposed : List ProposedEvent} {db db' : Db}
    (h : proposed.foldlM (publishEvent P input execution correlationId) db = .ok db') :
    ∃ events, Writes P db (.ofEvents events) db' ∧
      List.Forall₂ (IsEvent P input execution correlationId) proposed events := by
  induction proposed generalizing db with
  | nil =>
    obtain rfl : db = db' := by simpa [pure, Except.pure] using h
    exact ⟨[], Writes.refl, List.Forall₂.nil⟩
  | cons x proposed ih =>
    rw [List.foldlM_cons] at h
    obtain ⟨db₁, h₁, h⟩ := Except.bind_eq_ok.1 h
    obtain ⟨⟨event, db₂⟩, hevent, h₁⟩ := Except.bind_eq_ok.1 h₁
    obtain rfl := Except.ok.inj h₁
    obtain ⟨events, hwrites, hall⟩ := ih h
    obtain ⟨n, payload, hpayload, rfl, -⟩ := insertEvent_eq_ok hevent
    exact ⟨_ :: events, (insertEvent_writes hevent).trans hwrites,
      List.Forall₂.cons ⟨rfl, rfl, hpayload, rfl, rfl, rfl⟩ hall⟩

/-! ## Outputs -/

/-- The rows of one output. -/
structure OutputRows where
  event : Event
  output : ExecutionOutput
  deliveries : List Delivery

/-- The rows of the outputs. -/
def Written.ofOutputs (rows : List OutputRows) : Written :=
  { Written.none with
    outputs := rows.map (·.output), events := rows.map (·.event),
    deliveries := rows.flatMap (·.deliveries) }

/-- The payload of a `component.output` event. -/
def outputPayload (P : Platform) (portName : String) (artifactId : Uuid) : Json :=
  .obj [("portName", .str portName), ("artifactId", .str (P.uuidText artifactId))]

/-- What the deliveries of an output event carry. -/
def Event.routedSource (e : Event) : RoutedSource :=
  { regionId := e.regionId, source := .event e.id, correlationId := e.correlationId,
    payload := e.payload }

/-- Whether rows are what a staged output describes : its output row with its artifact, its event,
and one delivery of the event for each target of the component's connections. -/
structure IsOutput (P : Platform) (input : ProposedExecutionResult) (execution : Execution)
    (component : ComponentInstance) (correlationId : Text) (db : Db) (staged : Staged)
    (rows : OutputRows) : Prop where
  output : rows.output =
    { executionId := input.executionId, attemptId := input.attemptId, portName := staged.portName,
      artifactId := rows.output.artifactId, publishedEventId := some rows.event.id }
  artifact : digestOf db.artifacts rows.output.artifactId = some staged.digest
  regionId : rows.event.regionId = execution.regionId
  eventType : rows.event.eventType = "component.output"
  payload : P.bindJsonb (outputPayload P staged.portName rows.output.artifactId) =
    some rows.event.payload
  streamKey : rows.event.streamKey = .component component.id staged.portName
  correlationId : rows.event.correlationId = correlationId
  source : rows.event.source =
    .component input.executionId input.attemptId component.id staged.portName
  routed : ∀ d ∈ rows.deliveries, ∃ now id,
    ∃ t ∈ connectionTargets db execution.topologyRevisionId component.id staged.portName,
      d = routed P now rows.event.routedSource t id
  routes : (rows.deliveries.map Delivery.route).Nodup
  targets : ∀ t ∈ connectionTargets db execution.topologyRevisionId component.id staged.portName,
    t ∈ rows.deliveries.map Delivery.route

theorem connectionTargets_congr {db db' : Db} (h : db'.toCatalog = db.toCatalog) :
    connectionTargets db' = connectionTargets db := by
  funext v c p
  rw [connectionTargets, connectionTargets, h]

/-- An output with an event records no state version. -/
theorem insertOutput_eq_ok {output : ExecutionOutput} {db db' : Db}
    (hevent : output.publishedEventId.isSome) (h : insertOutput output db = .ok db') :
    db' = { db.draw with outputs := db.outputs ++ [output] } := by
  unfold insertOutput at h
  obtain ⟨outputs, hinsert, h⟩ := Except.bind_eq_ok.1 h
  obtain ⟨rfl, -, -⟩ := insert_eq_ok.1 (sql_eq_ok.1 hinsert)
  obtain ⟨id, hid⟩ := Option.isSome_iff_exists.1 hevent
  unfold recordComponentStateVersion at h
  simp only [hid] at h
  exact (Except.ok.inj h).symm

/-- The events that deliveries come from are there. -/
def Sourced (db : Db) : Prop :=
  ∀ d ∈ db.deliveries, ∀ id, d.source = .event id → ∃ e ∈ db.events, e.id = id

theorem Sourced.writes {P : Platform} {db db' : Db} {w : Written} (hs : Sourced db)
    (h : Writes P db w db') : Sourced db' := by
  intro d hd id hid
  rw [show db'.deliveries = db.deliveries ++ w.deliveries by rw [h.scheduling]] at hd
  rw [h.events]
  rcases List.mem_append.1 hd with hd | hd
  · obtain ⟨e, he, heq⟩ := hs d hd id hid
    exact ⟨e, List.mem_append_left _ he, heq⟩
  · obtain ⟨now, s, t, k, -, -, rfl, e, he, hse⟩ := h.newDeliveries d hd
    exact ⟨e, List.mem_append_right _ he, DeliverySource.event.inj (hse.symm.trans hid)⟩

theorem publishOutput_eq_ok {P : Platform} {now : Time} {input : ProposedExecutionResult}
    {execution : Execution} {component : ComponentInstance} {correlationId : Text}
    {artifactIds : List (Uuid × Uuid)} {db db' : Db} {staged : Staged} (hs : Sourced db)
    (hartifact : ∀ id, artifactIds.lookup staged.stagingId = some id →
      digestOf db.artifacts id = some staged.digest)
    (h : publishOutput P now input execution component correlationId artifactIds db staged =
      .ok db') :
    ∃ rows, Writes P db (.ofOutputs [rows]) db' ∧
      IsOutput P input execution component correlationId db' staged rows := by
  unfold publishOutput at h
  obtain ⟨artifactId, hlookup, h⟩ := Except.bind_eq_ok.1 h
  obtain ⟨⟨event, db₁⟩, hevent, h⟩ := Except.bind_eq_ok.1 h
  obtain ⟨db₂, houtput, h⟩ := Except.bind_eq_ok.1 h
  obtain ⟨⟨ds, db₃⟩, hroute, h⟩ := Except.bind_eq_ok.1 h
  obtain rfl := Except.ok.inj h
  have hlookup : artifactIds.lookup staged.stagingId = some artifactId := by
    unfold publishedArtifact at hlookup
    split at hlookup
    · rename_i id hid
      rw [hid, Except.ok.inj hlookup]
    · simp at hlookup
  obtain ⟨n, payload, hpayload, heq, hfresh, streams, rfl⟩ := insertEvent_eq_ok hevent
  obtain rfl := insertOutput_eq_ok rfl houtput
  have hsource : event.source =
      .component input.executionId input.attemptId component.id staged.portName := by rw [heq]
  unfold routeComponentEvent at hroute
  rw [hsource] at hroute
  obtain ⟨new, rfl, hnew, hkeyed, hroutes, -, hall⟩ := routeTargets_eq_ok hroute
  refine ⟨⟨event, ⟨input.executionId, input.attemptId, staged.portName, artifactId, some event.id⟩,
    new⟩, ?_, ⟨rfl, hartifact _ hlookup, by rw [heq], by rw [heq], by rw [heq]; exact hpayload,
    by rw [heq], by rw [heq], hsource, ?_, hroutes, ?_⟩⟩
  · constructor <;> simp [Written.ofOutputs, Written.none, Db.draw]
    · omega
    · exact hfresh
    · intro d hd
      obtain ⟨t, -, k, hk, hk', rfl⟩ := hnew d hd
      simp only [Db.draw] at hk hk'
      exact ⟨now, _, t, k, by omega, by omega, rfl, rfl⟩
    · exact hkeyed
  · intro d hd
    obtain ⟨t, ht, k, -, -, rfl⟩ := hnew d hd
    exact ⟨now, _, t, ht, rfl⟩
  · intro t ht
    obtain ⟨d, hd, hsource, hdt⟩ := hall t ht
    rcases List.mem_append.1 hd with hd | hd
    · -- the event is new, so no delivery of it was there
      obtain ⟨e, he, hid⟩ := hs d hd _ hsource
      exact absurd hid (hfresh e he)
    · exact List.mem_map.2 ⟨d, hd, hdt⟩

theorem IsOutput.mono {P : Platform} {input : ProposedExecutionResult} {execution : Execution}
    {component : ComponentInstance} {correlationId : Text} {db db' : Db} {staged : Staged}
    {rows : OutputRows} {w : Written} (h : IsOutput P input execution component correlationId db staged rows)
    (hw : Writes P db w db') :
    IsOutput P input execution component correlationId db' staged rows :=
  { h with
    artifact := hw.digestOf h.artifact
    routed := by rw [connectionTargets_congr hw.catalog]; exact h.routed
    targets := by rw [connectionTargets_congr hw.catalog]; exact h.targets }

/-- The staged outputs append the rows of one output each. -/
theorem publishOutputs_eq_ok {P : Platform} {now : Time} {input : ProposedExecutionResult}
    {execution : Execution} {component : ComponentInstance} {correlationId : Text}
    {artifactIds : List (Uuid × Uuid)} {outputs : List Staged} {db db' : Db} (hs : Sourced db)
    (hartifact : ∀ staged ∈ outputs, ∀ id, artifactIds.lookup staged.stagingId = some id →
      digestOf db.artifacts id = some staged.digest)
    (h : outputs.foldlM (publishOutput P now input execution component correlationId artifactIds) db =
      .ok db') :
    ∃ rows, Writes P db (.ofOutputs rows) db' ∧
      List.Forall₂ (IsOutput P input execution component correlationId db') outputs rows := by
  induction outputs generalizing db with
  | nil =>
    obtain rfl : db = db' := by simpa [pure, Except.pure] using h
    exact ⟨[], Writes.refl, List.Forall₂.nil⟩
  | cons staged outputs ih =>
    rw [List.foldlM_cons] at h
    obtain ⟨db₁, h₁, h⟩ := Except.bind_eq_ok.1 h
    obtain ⟨rows₁, hwrites₁, hrows₁⟩ := publishOutput_eq_ok hs (hartifact staged (by simp)) h₁
    obtain ⟨rows, hwrites, hrows⟩ := ih (hs.writes hwrites₁)
      (fun s hmem id hid => hwrites₁.digestOf (hartifact s (List.mem_cons_of_mem _ hmem) id hid)) h
    refine ⟨rows₁ :: rows, ?_, List.Forall₂.cons (hrows₁.mono hwrites) hrows⟩
    exact by simpa [Written.ofOutputs, Written.append_def, Written.none] using hwrites₁.trans hwrites

/-! ## The state -/

/-- Whether an output row is what a staged state describes. -/
structure IsState (input : ProposedExecutionResult) (artifacts : List Artifact) (staged : Staged)
    (output : ExecutionOutput) : Prop where
  row : output = ⟨input.executionId, input.attemptId, staged.portName, output.artifactId, none⟩
  artifact : digestOf artifacts output.artifactId = some staged.digest

/-- The rows of a state. -/
def Written.ofState (outputs : List ExecutionOutput) (stateVersions : List ComponentStateVersion) :
    Written :=
  { Written.none with outputs, stateVersions }

/-- The version an output row appends : the one after the latest. -/
structure IsVersion (input : ProposedExecutionResult) (execution : Execution) (latest : ℕ)
    (v : ComponentStateVersion) : Prop where
  component : v.componentInstanceId = execution.componentInstanceId
  number : v.versionNumber = latest + 1
  source : v.source = .execution input.executionId input.attemptId

theorem publishState_eq_ok {P : Platform} {input : ProposedExecutionResult}
    {artifactIds : List (Uuid × Uuid)} {db db' : Db} {execution : Execution}
    (hexecution : db.execution? input.executionId = some execution)
    (hartifact : ∀ staged ∈ input.proposedState.toList, ∀ id,
      artifactIds.lookup staged.stagingId = some id → digestOf db.artifacts id = some staged.digest)
    (h : publishState input artifactIds db = .ok db') :
    ∃ outputs versions, Writes P db (.ofState outputs versions) db' ∧
      List.Forall₂ (IsState input db'.artifacts) input.proposedState.toList outputs ∧
      (versions = [] ∨ ∃ v, versions = [v] ∧
        IsVersion input execution (latestVersion execution.componentInstanceId db) v) := by
  unfold publishState at h
  cases hstate : input.proposedState with
  | none =>
    rw [hstate] at h
    obtain rfl := Except.ok.inj h
    exact ⟨[], [], Writes.refl, List.Forall₂.nil, Or.inl rfl⟩
  | some staged =>
    rw [hstate] at h
    obtain ⟨artifactId, hlookup, h⟩ := Except.bind_eq_ok.1 h
    have hlookup : artifactIds.lookup staged.stagingId = some artifactId := by
      unfold publishedArtifact at hlookup
      split at hlookup
      · rename_i id hid
        rw [hid, Except.ok.inj hlookup]
      · simp at hlookup
    have hdigest := hartifact staged (by simp [hstate]) _ hlookup
    unfold insertOutput at h
    obtain ⟨outputs, hinsert, h⟩ := Except.bind_eq_ok.1 h
    obtain ⟨rfl, -, -⟩ := insert_eq_ok.1 (sql_eq_ok.1 hinsert)
    have hwrites : ∀ versions : List ComponentStateVersion, Writes P db
        (.ofState [⟨input.executionId, input.attemptId, staged.portName, artifactId, none⟩] versions)
        { db.draw with
          outputs := db.outputs ++
            [⟨input.executionId, input.attemptId, staged.portName, artifactId, none⟩],
          stateVersions := db.stateVersions ++ versions } := by
      intro versions
      constructor <;> simp [Written.ofState, Written.none, Db.draw, Keyed]
    have hstateRow : ∀ db'' : Db, db''.artifacts = db.artifacts →
        List.Forall₂ (IsState input db''.artifacts) (some staged).toList
          [⟨input.executionId, input.attemptId, staged.portName, artifactId, none⟩] := by
      intro db'' ha
      exact List.Forall₂.cons ⟨rfl, by rw [ha]; exact hdigest⟩ List.Forall₂.nil
    unfold recordComponentStateVersion at h
    split at h
    · rename_i e artifact hnone he hfound
      obtain rfl : execution = e := Option.some.inj (hexecution.symm.trans he)
      split at h
      · obtain ⟨stateVersions, hversions, h⟩ := Except.bind_eq_ok.1 h
        obtain rfl := Except.ok.inj h
        obtain ⟨rfl, -, -⟩ := insert_eq_ok.1 (sql_eq_ok.1 hversions)
        exact ⟨_, [_], hwrites [_], hstateRow _ rfl, Or.inr ⟨_, rfl, rfl, rfl, rfl⟩⟩
      · obtain rfl := Except.ok.inj h
        exact ⟨_, [], by simpa [Db.draw] using hwrites [], hstateRow _ rfl, Or.inl rfl⟩
    · obtain rfl := Except.ok.inj h
      exact ⟨_, [], by simpa [Db.draw] using hwrites [], hstateRow _ rfl, Or.inl rfl⟩

/-! ## A result -/

/-- The rows of a usage report. -/
def Written.ofLedger (ledger : List ResourceLedgerEntry) : Written :=
  { Written.none with ledger }

/-- Whether the rows written are those a completed result describes. -/
def DescribesCompleted (P : Platform) (input : ProposedExecutionResult) (execution : Execution)
    (component : ComponentInstance) (correlationId : Text) (db : Db) (w : Written) : Prop :=
  ∃ rows outputs events,
    w.outputs = rows.map (·.output) ++ outputs ∧ w.events = rows.map (·.event) ++ events ∧
    w.deliveries = rows.flatMap (·.deliveries) ∧
    List.Forall₂ (IsOutput P input execution component correlationId db) input.stagedArtifacts rows ∧
    List.Forall₂ (IsState input db.artifacts) input.proposedState.toList outputs ∧
    List.Forall₂ (IsEvent P input execution correlationId) input.proposedEvents events ∧
    List.Forall₂ (IsAction P input db.artifacts)
      (firstProposals [] input.externalActionProposals) w.actions

/-- Whether the rows written are those a result describes. Only a completed result publishes more
than its usage. -/
structure Describes (P : Platform) (input : ProposedExecutionResult) (execution : Execution)
    (component : ComponentInstance) (correlationId : Text) (db : Db) (w : Written) : Prop where
  ledger : w.ledger = ledgerEntries execution.regionId input
  completed : input.status = .completed →
    DescribesCompleted P input execution component correlationId db w
  failed : input.status ≠ .completed → w = .ofLedger w.ledger

/-- The state versions a result appends : none, or one after the latest. -/
def Versions (input : ProposedExecutionResult) (execution : Execution) (db : Db) (w : Written) :
    Prop :=
  w.stateVersions = [] ∨ ∃ v, w.stateVersions = [v] ∧
    IsVersion input execution (latestVersion execution.componentInstanceId db) v

theorem writeResourceUsage_writes (P : Platform) (regionId : Uuid) (input : ProposedExecutionResult)
    (db : Db) :
    Writes P db (.ofLedger (ledgerEntries regionId input)) (writeResourceUsage regionId input db) := by
  constructor <;> simp [Written.ofLedger, Written.none, writeResourceUsage, Keyed]

theorem Writes.execution? {P : Platform} {db db' : Db} {w : Written} (h : Writes P db w db')
    (id : Uuid) : db'.execution? id = db.execution? id := by
  rw [Db.execution?, Db.execution?, h.scheduling]

/-- What `complete` publishes before it closes the attempt. -/
theorem complete_eq_ok {P : Platform} {now : Time} {input : ProposedExecutionResult}
    {execution : Execution} {component : ComponentInstance} {deliveries : List Delivery}
    {artifactIds : List (Uuid × Uuid)} {db db' : Db} {disposition : CommitDisposition}
    {first : Delivery} (hs : Sourced db)
    (hexecution : db.execution? input.executionId = some execution)
    (hfirst : deliveries.head? = some first)
    (hartifact : ∀ staged ∈ input.published, ∀ id, artifactIds.lookup staged.stagingId = some id →
      digestOf db.artifacts id = some staged.digest)
    (h : complete P now input execution component deliveries artifactIds db = .ok (disposition, db')) :
    ∃ rows outputs versions events db₁,
      Writes P db (.ofOutputs rows ++ .ofState outputs versions ++ .ofEvents events) db₁ ∧
      List.Forall₂ (IsOutput P input execution component first.correlationId db₁)
        input.stagedArtifacts rows ∧
      List.Forall₂ (IsState input db₁.artifacts) input.proposedState.toList outputs ∧
      (versions = [] ∨ ∃ v, versions = [v] ∧
        IsVersion input execution (latestVersion execution.componentInstanceId db) v) ∧
      List.Forall₂ (IsEvent P input execution first.correlationId) input.proposedEvents events ∧
      closeCompleted now input deliveries db₁ = .ok db' := by
  unfold complete at h
  rw [hfirst] at h
  obtain ⟨first', hfirst', h⟩ := Except.bind_eq_ok.1 h
  obtain rfl := Option.some.inj (takeFirstOrThrow_eq_ok.1 hfirst')
  obtain ⟨db₁, h₁, h⟩ := Except.bind_eq_ok.1 h
  obtain ⟨db₂, h₂, h⟩ := Except.bind_eq_ok.1 h
  obtain ⟨db₃, h₃, h⟩ := Except.bind_eq_ok.1 h
  obtain ⟨db₄, h₄, h⟩ := Except.bind_eq_ok.1 h
  obtain ⟨-, rfl⟩ := Prod.mk.inj (Except.ok.inj h)
  obtain ⟨rows, hw₁, hrows⟩ := publishOutputs_eq_ok hs
    (fun s hmem => hartifact s (List.mem_append_left _ hmem)) h₁
  obtain ⟨outputs, versions, hw₂, houtputs, hversions⟩ := publishState_eq_ok
    ((hw₁.execution? _).trans hexecution)
    (fun s hmem id hid => hw₁.digestOf (hartifact s (List.mem_append_right _ hmem) id hid)) h₂
  obtain ⟨events, hw₃, hevents⟩ := publishEvents_eq_ok h₃
  refine ⟨rows, outputs, versions, events, db₃, (hw₁.trans hw₂).trans hw₃, ?_, ?_, ?_, hevents, h₄⟩
  · exact hrows.imp fun _ _ h => (h.mono hw₂).mono hw₃
  · exact houtputs.imp fun _ _ h => ⟨h.row, hw₃.digestOf h.artifact⟩
  · have hsame : db₁.stateVersions = db.stateVersions := by
      simpa [Written.ofOutputs, Written.none] using hw₁.stateVersions
    rcases hversions with rfl | ⟨v, rfl, hv⟩
    · exact Or.inl rfl
    · exact Or.inr ⟨v, rfl, hv.component, by rw [hv.number, latestVersion, hsame]; rfl, hv.source⟩

/-- What a result publishes, and the end of its attempt. -/
theorem publishResult_eq_ok {P : Platform} {env : CommitEnv} {input : ProposedExecutionResult}
    {attempt : ExecutionAttempt} {execution : Execution} {region : Region}
    {component : ComponentInstance} {deliveries : List Delivery} {db db' : Db}
    {disposition : CommitDisposition} {first : Delivery} (hk : Keyed (·.id) db.artifacts)
    (hs : Sourced db) (hexecution : db.execution? input.executionId = some execution)
    (hregion : region.id = execution.regionId) (hfirst : deliveries.head? = some first)
    (hnone : ∀ a ∈ db.actions, a.attemptId ≠ input.attemptId)
    (h : publishResult P env input attempt execution region component deliveries db =
      .ok (disposition, db')) :
    ∃ w db₁, Writes P db w db₁ ∧
      Describes P input execution component first.correlationId db₁ w ∧
      Versions input execution db w ∧
      (input.status = .completed →
        ∃ ports p p', p.db.actions = db.actions ∧ Keyed (·.id) p.db.artifacts ∧ p.Linked ∧
          publishExternalActions P env input component ports p = .ok p' ∧
          db₁.actions = p'.db.actions ∧ p'.db.artifacts <+: db₁.artifacts) ∧
      (input.status = .completed ∧ closeCompleted env.now input deliveries db₁ = .ok db' ∨
        input.status ≠ .completed ∧
          failOrRetry P env.now input execution attempt deliveries db₁ = .ok (disposition, db')) := by
  unfold publishResult at h
  obtain ⟨p₁, h₁, h⟩ := Except.bind_eq_ok.1 h
  obtain ⟨p₂, h₂, h⟩ := Except.bind_eq_ok.1 h
  have hlinked : Publishing.Linked ⟨[], [], db⟩ := by
    intro ref id hlookup
    simp at hlookup
  obtain ⟨hadv, hstaged, hsame⟩ := stage_eq_ok hk hlinked h₁ h₂
  have hledger := writeResourceUsage_writes P region.id input
  split at h
  · rename_i hcompleted
    obtain ⟨p₃, h₃, h⟩ := Except.bind_eq_ok.1 h
    have hactions : p₂.db.actions = db.actions := by simpa [Written.none] using hadv.writes.actions
    obtain ⟨actions, hadv₃, hall⟩ := publishExternalActions_eq_ok []
      (hadv.writes.artifactsKeyed hk) hadv.linked
      (fun id => by simpa [hactions] using fun a ha hattempt => absurd hattempt (hnone a ha)) h₃
    have hw := (hadv.writes.trans hadv₃.writes).trans (hledger p₃.db)
    obtain ⟨rows, outputs, versions, events, db₁, hw₁, hrows, houtputs, hversions, hevents, hclose⟩ :=
      complete_eq_ok (hs.writes hw) ((hw.execution? _).trans hexecution) hfirst
        (fun staged hmem id hid => by
          obtain ⟨d, hd, hr⟩ := hadv₃.linked _ _ hid
          rw [hadv₃.writes.stagedDigest, hadv.writes.stagedDigest] at hr
          exact hd.trans (hr.symm.trans (hstaged staged hmem))) h
    refine ⟨_, db₁, hw.trans hw₁, ⟨?_, fun _ => ⟨rows, outputs, events, ?_, ?_, ?_, hrows, houtputs,
      hevents, ?_⟩, fun hne => absurd hcompleted hne⟩, ?_, fun _ => ⟨_, p₂, p₃, hactions,
      hadv.writes.artifactsKeyed hk, hadv.linked, h₃, ?_, ((hledger p₃.db).trans hw₁).artifacts⟩,
      Or.inl ⟨hcompleted, hclose⟩⟩
    · simp [Written.append_def, Written.ofLedger, Written.ofActions, Written.ofOutputs,
        Written.ofState, Written.ofEvents, Written.none, hregion]
    · simp [Written.append_def, Written.ofLedger, Written.ofActions, Written.ofOutputs,
        Written.ofState, Written.ofEvents, Written.none]
    · simp [Written.append_def, Written.ofLedger, Written.ofActions, Written.ofOutputs,
        Written.ofState, Written.ofEvents, Written.none]
    · simp [Written.append_def, Written.ofLedger, Written.ofActions, Written.ofOutputs,
        Written.ofState, Written.ofEvents, Written.none]
    · have hartifacts := ((hledger p₃.db).trans hw₁).artifacts
      simpa [Written.append_def, Written.ofLedger, Written.ofActions, Written.ofOutputs,
        Written.ofState, Written.ofEvents, Written.none] using
        hall.imp fun _ _ h => h.mono hartifacts
    · have hsame : (writeResourceUsage region.id input p₃.db).stateVersions = db.stateVersions := by
        simpa [Written.append_def, Written.ofLedger, Written.ofActions, Written.none] using
          hw.stateVersions
      have hlatest : latestVersion execution.componentInstanceId
          (writeResourceUsage region.id input p₃.db) =
          latestVersion execution.componentInstanceId db := by
        rw [latestVersion, latestVersion, hsame]
      rw [hlatest] at hversions
      simpa [Versions, Written.append_def, Written.ofLedger, Written.ofActions, Written.ofOutputs,
        Written.ofState, Written.ofEvents, Written.none] using hversions
    · simpa [Written.append_def, Written.ofLedger, Written.ofOutputs, Written.ofState,
        Written.ofEvents, Written.none] using ((hledger p₃.db).trans hw₁).actions
  · rename_i hnot
    rw [hsame hnot] at h
    exact ⟨_, _, hledger db, ⟨by rw [← hregion]; rfl, fun hc => absurd hc hnot, fun _ => rfl⟩,
      Or.inl rfl, fun hc => absurd hc hnot, Or.inr ⟨hnot, h⟩⟩

/-! ## The transaction -/

/-- What a commit has checked when it publishes. -/
structure Authorized (env : CommitEnv) (input : ProposedExecutionResult) (db : Db) (l : Locked) :
    Prop where
  attempt : l.attempt ∈ db.attempts ∧ l.attempt.id = input.attemptId ∧
    l.attempt.executionId = input.executionId
  execution : db.execution? input.executionId = some l.execution
  active : l.attempt.status.active = true
  running : l.execution.status = .running
  region : db.region? l.execution.regionId = some l.region
  component : db.component? l.execution.componentInstanceId = some l.component
  deliveries : l.deliveries = lockDeliveries l.execution.id db
  inputs : l.deliveries ≠ []
  token : l.attempt.lease.map (·.token) = some input.leaseToken
  unexpired : env.allowExpiredLease = true ∨ l.attempt.lease.any (env.now < ·.expiresAt) = true
  executionEpoch : l.execution.lifecycleEpoch = input.lifecycleEpoch
  regionEpoch : l.region.lifecycleEpoch = input.lifecycleEpoch
  regionRunning : l.region.lifecycleStatus = .running
  leased : ∀ d ∈ l.deliveries, d.status = .leased ∧ d.lease.map (·.token) = some input.leaseToken

/-- The parts of a commit that publishes. -/
structure Commits (P : Platform) (env : CommitEnv) (input : ProposedExecutionResult)
    (submissionDigest : Digest) (disposition : CommitDisposition) (l : Locked) (db db₁ db₂ db' : Db) :
    Prop where
  authorized : Authorized env input db l
  uncommitted : ∀ s, db.submission? input.attemptId = some s →
    s.submissionDigest = submissionDigest ∧ s.committedAt = none
  record : recordSubmission P env.now input submissionDigest db = .ok db₁
  publish : publishResult P env input l.attempt l.execution l.region l.component l.deliveries db₁ =
    .ok (disposition, db₂)
  mark : markCommitted env.now input.attemptId submissionDigest db₂ = .ok db'

theorem lockActive_eq_ok {attempt : ExecutionAttempt} {execution : Execution} {db : Db} {l : Locked}
    (h : lockActive attempt execution db = .ok l) :
    attempt.status.active = true ∧ execution.status = .running ∧ l.attempt = attempt ∧
      l.execution = execution ∧ db.region? execution.regionId = some l.region ∧
      db.component? execution.componentInstanceId = some l.component ∧
      l.deliveries = lockDeliveries execution.id db ∧ l.deliveries ≠ [] := by
  unfold lockActive at h
  obtain ⟨⟨⟩, hactive, h⟩ := Except.bind_eq_ok.1 h
  obtain ⟨⟨⟩, hrunning, h⟩ := Except.bind_eq_ok.1 h
  obtain ⟨region, hregion, h⟩ := Except.bind_eq_ok.1 h
  obtain ⟨component, hcomponent, h⟩ := Except.bind_eq_ok.1 h
  obtain ⟨_, -, h⟩ := Except.bind_eq_ok.1 h
  obtain ⟨⟨⟩, hinputs, h⟩ := Except.bind_eq_ok.1 h
  obtain rfl := Except.ok.inj h
  exact ⟨require_eq_ok.1 hactive, by simpa using hrunning, rfl, rfl,
    takeFirstOrThrow_eq_ok.1 hregion, takeFirstOrThrow_eq_ok.1 hcomponent, rfl,
    by simpa using hinputs⟩

/-- A commit answers a duplicate and changes nothing, or it publishes under authority. -/
theorem commitTx_eq_ok {P : Platform} {env : CommitEnv} {input : ProposedExecutionResult}
    {submissionDigest : Digest} {db db' : Db} {disposition : CommitDisposition}
    (h : commitTx P env input submissionDigest db = .ok (disposition, db')) :
    (disposition = .duplicate ∧ db' = db ∧ ∃ s, db.submission? input.attemptId = some s ∧
        s.submissionDigest = submissionDigest ∧ s.committedAt.isSome) ∨
      ∃ l db₁ db₂, Commits P env input submissionDigest disposition l db db₁ db₂ db' := by
  unfold commitTx at h
  obtain ⟨_, -, h⟩ := Except.bind_eq_ok.1 h
  obtain ⟨⟨attempt, execution⟩, hlock, h⟩ := Except.bind_eq_ok.1 h
  obtain ⟨⟨⟩, hdigest, h⟩ := Except.bind_eq_ok.1 h
  have hdigest := require_eq_ok.1 hdigest
  split at h
  · rename_i hcommitted
    obtain ⟨rfl, rfl⟩ := Prod.mk.inj (Except.ok.inj h)
    obtain ⟨s, hs, hc⟩ := (Option.any_eq_true _ _).1 hcommitted
    rw [hs] at hdigest
    exact Or.inl ⟨rfl, rfl, s, hs, by simpa using hdigest, hc⟩
  · rename_i hopen
    obtain ⟨l, hl, h⟩ := Except.bind_eq_ok.1 h
    obtain ⟨⟨⟩, hauthority, h⟩ := Except.bind_eq_ok.1 h
    obtain ⟨_, -, h⟩ := Except.bind_eq_ok.1 h
    obtain ⟨db₁, hrecord, h⟩ := Except.bind_eq_ok.1 h
    obtain ⟨⟨d, db₂⟩, hpublish, h⟩ := Except.bind_eq_ok.1 h
    obtain ⟨db₃, hmark, h⟩ := Except.bind_eq_ok.1 h
    obtain ⟨rfl, rfl⟩ := Prod.mk.inj (Except.ok.inj h)
    refine Or.inr ⟨l, db₁, db₂, ?_, fun s hs => ?_, hrecord, hpublish, hmark⟩
    · obtain ⟨hactive, hrunning, rfl, rfl, hregion, hcomponent, hdeliveries, hinputs⟩ :=
        lockActive_eq_ok hl
      unfold lockAttempt at hlock
      split at hlock
      · rename_i a e hattempt hexecution
        obtain ⟨rfl, rfl⟩ := Prod.mk.inj (Except.ok.inj hlock)
        obtain ⟨⟨⟩, htoken, hauthority⟩ := Except.bind_eq_ok.1 hauthority
        obtain ⟨⟨⟩, hlease, hauthority⟩ := Except.bind_eq_ok.1 hauthority
        obtain ⟨⟨⟩, hepoch, hleased⟩ := Except.bind_eq_ok.1 hauthority
        simp only [require_eq_ok, Bool.and_eq_true, Bool.or_eq_true, decide_eq_true_eq,
          List.all_eq_true] at htoken hlease hepoch hleased
        have hid := List.find?_some hattempt
        simp only [Bool.and_eq_true, decide_eq_true_eq] at hid
        exact ⟨⟨List.mem_of_find?_eq_some hattempt, hid⟩, hexecution, hactive, hrunning, hregion,
          hcomponent, hdeliveries, hinputs, htoken, hlease, hepoch.1.1, hepoch.1.2, hepoch.2, hleased⟩
      · simp at hlock
    · rw [hs] at hdigest hopen
      exact ⟨by simpa using hdigest, by simpa using hopen⟩

/-- The submission row of an attempt after it is recorded. -/
theorem recordSubmission_eq_ok {P : Platform} {now : Time} {input : ProposedExecutionResult}
    {submissionDigest : Digest} {db db' : Db}
    (h : recordSubmission P now input submissionDigest db = .ok db') :
    (db' = db ∧ ∃ s, db.submission? input.attemptId = some s) ∨
      ∃ s, s.attemptId = input.attemptId ∧ s.submissionDigest = submissionDigest ∧
        s.executionId = input.executionId ∧ s.result = input ∧ s.committedAt = none ∧
        s.id = P.uuid db.drawn ∧ s.createdAt = now ∧
        (∀ t ∈ db.submissions, t.attemptId ≠ input.attemptId) ∧
        db' = { db.draw with submissions := db.submissions ++ [s] } := by
  unfold recordSubmission at h
  split at h
  · rename_i s hs
    exact Or.inl ⟨(Except.ok.inj h).symm, s, hs⟩
  · rename_i hnone
    obtain ⟨submissions, hinsert, h⟩ := Except.bind_eq_ok.1 h
    obtain rfl := Except.ok.inj h
    obtain ⟨rfl, -, -⟩ := insert_eq_ok.1 (sql_eq_ok.1 hinsert)
    refine Or.inr ⟨_, rfl, rfl, rfl, rfl, rfl, rfl, rfl, fun t ht hid => ?_, rfl⟩
    have := List.find?_eq_none.1 hnone t ht
    simp [hid] at this

theorem markCommitted_eq_ok {now : Time} {attemptId : Uuid} {submissionDigest : Digest} {db db' : Db}
    (h : markCommitted now attemptId submissionDigest db = .ok db') :
    db' = { db with
      submissions := updateWhere
        (fun s => s.attemptId = attemptId && s.submissionDigest = submissionDigest &&
          s.committedAt.isNone)
        (fun s => { s with committedAt := some now }) db.submissions } := by
  unfold markCommitted at h
  obtain ⟨submissions, hupdate, h⟩ := Except.bind_eq_ok.1 h
  obtain ⟨rfl, -⟩ := update_eq_ok.1 (sql_eq_ok.1 hupdate)
  exact (Except.ok.inj h).symm

end FactoryFloor
