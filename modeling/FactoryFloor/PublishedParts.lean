import FactoryFloor.CommitEffect
import FactoryFloor.OpenCommits

/-!
# What open commits have published

An open commit goes through the parts of its result in order. Each part it is done with has a staging
row of its attempt, with the schema of its port, and an artifact with the digest of the row
(`OpenCommit.Sound`). Where the artifact was found or created it has the row's metadata. Where the
insert has conflicted it has what `agrees` says, in the runs whose conflicts meet that.

The rows stay what they are while other commits and services run (`Retains`), so the facts hold at the
commit, and of the submission from then on.
-/

namespace FactoryFloor

open Relational Transition

variable {P : Platform} {T : Templates} {content : Digest → ProposedExecutionResult}
  {agrees : DerivationType → Artifact → ArtifactStaging → Prop} {s t : CommitService}
  {l : OpenCommitLabel} {db db' : Db} {c c' : OpenCommit} {pre post : List OpenCommit}

/-! ## Rows that stay -/

/-- A staging row is there, whatever its status. -/
def Db.HoldsUpload (db : Db) (row : ArtifactStaging) : Prop :=
  ∃ r ∈ db.staging, row.SameUpload r

theorem ArtifactStaging.SameUpload.refl (r : ArtifactStaging) : r.SameUpload r :=
  ⟨rfl, rfl, rfl, rfl, rfl, rfl, rfl⟩

theorem ArtifactStaging.SameUpload.trans {r r' r'' : ArtifactStaging} (h : r.SameUpload r')
    (h' : r'.SameUpload r'') : r.SameUpload r'' := by
  obtain ⟨h₁, h₂, h₃, h₄, h₅, h₆, h₇⟩ := h
  obtain ⟨k₁, k₂, k₃, k₄, k₅, k₆, k₇⟩ := h'
  exact ⟨k₁.trans h₁, k₂.trans h₂, k₃.trans h₃, k₄.trans h₄, k₅.trans h₅, k₆.trans h₆, k₇.trans h₇⟩

/-- Rows that a step keeps. -/
structure Retains (db db' : Db) : Prop where
  ports : db'.ports = db.ports
  schemas : db'.schemas = db.schemas
  components : ∀ c ∈ db.components, c ∈ db'.components
  executions : ∀ e ∈ db.executions, ∃ e' ∈ db'.executions,
    e'.id = e.id ∧ e'.componentInstanceId = e.componentInstanceId
  staging : ∀ r ∈ db.staging, ∃ r' ∈ db'.staging, r.SameUpload r'
  artifacts : ∀ a ∈ db.artifacts, a ∈ db'.artifacts

theorem Retains.holds {row : ArtifactStaging} (h : Retains db db') (hrow : db.HoldsUpload row) :
    db'.HoldsUpload row := by
  obtain ⟨r, hr, hsame⟩ := hrow
  obtain ⟨r', hr', hsame'⟩ := h.staging r hr
  exact ⟨r', hr', hsame.trans hsame'⟩

theorem Retains.schema? (h : Retains db db') (id : Uuid) : db'.schema? id = db.schema? id := by
  rw [Db.schema?, h.schemas, Db.schema?]

theorem ServesCommits.retains (h : ServesCommits db db') : Retains db db' :=
  ⟨by rw [h.catalog], by rw [h.catalog], by simp [h.catalog], h.executions, h.staging,
    by simp [h.artifacts]⟩

theorem OpenCommit.link_sameUpload (c : OpenCommit) (r : ArtifactStaging) :
    r.SameUpload (c.link r) := by
  unfold OpenCommit.link
  split <;> exact ⟨rfl, rfl, rfl, rfl, rfl, rfl, rfl⟩

theorem OpenCommit.view_retains (c : OpenCommit) (db : Db) : Retains db (c.view db) :=
  ⟨rfl, rfl, fun _ h => h, fun e he => ⟨e, he, rfl, rfl⟩,
    fun r hr => ⟨c.link r, List.mem_map_of_mem hr, c.link_sameUpload r⟩,
    fun _ ha => List.mem_append_left _ ha⟩

theorem Retains.refl (db : Db) : Retains db db :=
  ⟨rfl, rfl, fun _ h => h, fun e he => ⟨e, he, rfl, rfl⟩, fun r hr => ⟨r, hr, .refl r⟩, fun _ h => h⟩

theorem Retains.withSubmissions (db : Db) (submissions : List WorkerResultSubmission) :
    Retains db { db with submissions } :=
  ⟨rfl, rfl, fun _ h => h, fun e he => ⟨e, he, rfl, rfl⟩, fun r hr => ⟨r, hr, .refl r⟩, fun _ h => h⟩

/-! ## Validated parts -/

/-- What `validateStaged` has checked of the row of a part, for an attempt of a component. -/
structure Validated (db : Db) (attemptId : Uuid) (component : ComponentInstance) (part : Part)
    (row : ArtifactStaging) : Prop where
  holds : db.HoldsUpload row
  attemptId : row.attemptId = attemptId
  stagedRef : row.stagedRef = part.staged.stagingId
  port : ∃ port ∈ db.ports, port.componentDefinitionId = component.componentDefinitionId ∧
    port.direction = part.direction ∧ port.name = part.staged.portName ∧
    port.schemaId = row.schemaId
  schema : (db.schema? row.schemaId).isSome

theorem Validated.retained {attemptId : Uuid} {component : ComponentInstance} {part : Part}
    {row : ArtifactStaging} (h : Validated db attemptId component part row) (hg : Retains db db') :
    Validated db' attemptId component part row :=
  ⟨hg.holds h.holds, h.attemptId, h.stagedRef, hg.ports ▸ h.port,
    (hg.schema? row.schemaId).symm ▸ h.schema⟩

theorem authorizedStaging_eq_some {stagedRef : Uuid} {row : AuthorizedStaging}
    (h : authorizedStaging db stagedRef = some row) :
    row.toArtifactStaging ∈ db.staging ∧ row.stagedRef = stagedRef ∧
      (db.schema? row.schemaId).isSome := by
  obtain ⟨r, hr, h⟩ := Option.bind_eq_some_iff.1 h
  obtain ⟨schema, hschema, h⟩ := Option.bind_eq_some_iff.1 h
  obtain ⟨upload, -, rfl⟩ := Option.map_eq_some_iff.1 h
  obtain ⟨hmem, href⟩ := mem_of_find?_key hr
  exact ⟨hmem, href, by simp [hschema]⟩

theorem validates_eq_ok {part : Part} {row : ArtifactStaging}
    (h : c.validates P db part = .ok row) :
    Validated db c.input.attemptId c.component part row := by
  unfold OpenCommit.validates validateStaged at h
  split at h
  · simp at h
  rename_i port hport
  split at h
  · simp at h
  rename_i authorized hauthorized
  have hrow : authorized.toArtifactStaging = row := by
    split at h
    · split at h
      · simp at h
      · split at h
        · exact Except.ok.inj h
        · simp at h
    · exact Except.ok.inj h
  obtain ⟨hfound, hvalid⟩ := Option.filter_eq_some_iff.1 hauthorized
  obtain ⟨hmem, href, hschema⟩ := authorizedStaging_eq_some hfound
  obtain ⟨hportMem, hdefinition⟩ := List.mem_filter.1 (List.mem_of_find?_eq_some hport)
  have hportFound := List.find?_some hport
  simp only [Bool.and_eq_true, decide_eq_true_eq] at hportFound
  simp only [stagedMetadataValid, Bool.and_eq_true, decide_eq_true_eq] at hvalid
  obtain ⟨⟨⟨⟨⟨⟨⟨⟨⟨hattempt, -⟩, -⟩, -⟩, hrowSchema⟩, hportSchema⟩, -⟩, -⟩, -⟩, -⟩ := hvalid
  obtain ⟨r, hr, hlink⟩ := List.mem_map.1 hmem
  subst hrow
  refine ⟨⟨r, hr, ?_⟩, hattempt, href, ⟨port, hportMem, of_decide_eq_true hdefinition,
    hportFound.1, hportFound.2, Text.uuid.inj (hportSchema.trans hrowSchema.symm)⟩, hschema⟩
  obtain ⟨h₁, h₂, h₃, h₄, h₅, h₆, h₇⟩ := hlink ▸ c.link_sameUpload r
  exact ⟨h₁.symm, h₂.symm, h₃.symm, h₄.symm, h₅.symm, h₆.symm, h₇.symm⟩

/-- A published part has an artifact with the digest of its row. -/
structure PublishedPart.Sound (agrees : DerivationType → Artifact → ArtifactStaging → Prop) (db : Db)
    (attemptId : Uuid) (artifacts : List Artifact) (p : PublishedPart) : Prop where
  holds : db.HoldsUpload p.row
  attemptId : p.row.attemptId = attemptId
  artifact : ∃ a ∈ artifacts, a.id = p.artifactId ∧ a.digest = p.row.digest ∧
    agrees p.derivationType a p.row

/-- A part that a commit is done with : it was published, or it is the request of an external action
that was published as an output. -/
def OpenCommit.Done (c : OpenCommit) (db : Db) (part : Part) : Prop :=
  ∃ p, c.publishedPart part.staged.stagingId = some p ∧
    (part.derivationType ≠ .externalActionRequest →
      p.derivationType = part.derivationType ∧
        Validated db c.input.attemptId c.component part p.row)

/-- What holds of an open commit. -/
structure OpenCommit.Sound (content : Digest → ProposedExecutionResult)
    (agrees : DerivationType → Artifact → ArtifactStaging → Prop) (db : Db) (c : OpenCommit) :
    Prop where
  input : c.input = content c.submissionDigest
  owner : ∃ e ∈ db.executions, e.id = c.input.executionId ∧
    e.componentInstanceId = c.component.id
  component : c.component ∈ db.components
  missing : ∀ row, c.missing = some row → c.input.status = .completed ∧
    ∃ part remaining, c.remaining = part :: remaining ∧ c.stages part ∧
      Validated db c.input.attemptId c.component part row
  published : ∀ p ∈ c.published,
    p.Sound agrees db c.input.attemptId (db.artifacts ++ c.own.artifacts)
  seen : (∀ p ∈ c.published, p.row.stagedRef ∈ c.seen) ∨
    ∀ part ∈ c.remaining, part.derivationType = .externalActionRequest
  parts : ∃ done, c.input.parts = done ++ c.remaining ∧
    (c.input.status = .completed → ∀ part ∈ done, c.Done db part)
  recorded : ∃ recorded, (if c.input.status = .completed then c.input.outputParts else []) =
      recorded ++ c.recording ∧
    ∀ o ∈ c.own.outputs, ∃ part ∈ recorded, ∃ p eventId,
      c.publishedPart part.staged.stagingId = some p ∧ o = c.output part p.artifactId eventId
  schemas : ∀ a ∈ c.own.artifacts, (db.schema? a.schemaId).isSome

theorem PublishedPart.Sound.mono {p : PublishedPart} {attemptId : Uuid}
    {artifacts artifacts' : List Artifact} (h : p.Sound agrees db attemptId artifacts)
    (hg : Retains db db') (ha : ∀ a ∈ artifacts, a ∈ artifacts') :
    p.Sound agrees db' attemptId artifacts' := by
  obtain ⟨a, hmem, ha'⟩ := h.artifact
  exact ⟨hg.holds h.holds, h.attemptId, a, ha a hmem, ha'⟩

theorem OpenCommit.Done.retained {part : Part} (h : c.Done db part) (hg : Retains db db') :
    c.Done db' part := by
  obtain ⟨p, hp, htype⟩ := h
  exact ⟨p, hp, fun hrequest => ⟨(htype hrequest).1, (htype hrequest).2.retained hg⟩⟩

/-- What other steps keep for an open commit. -/
theorem OpenCommit.Sound.retained (h : c.Sound content agrees db) (hg : Retains db db') :
    c.Sound content agrees db' := by
  refine ⟨h.input, ?_, hg.components _ h.component, fun row hrow => ?_, fun p hp => ?_, h.seen, ?_,
    h.recorded, fun a ha => (hg.schema? a.schemaId).symm ▸ h.schemas a ha⟩
  · obtain ⟨e, he, hid, howner⟩ := h.owner
    obtain ⟨e', he', hid', howner'⟩ := hg.executions e he
    exact ⟨e', he', hid'.trans hid, howner'.trans howner⟩
  · obtain ⟨hstatus, part, remaining, hremaining, hstages, hvalid⟩ := h.missing row hrow
    exact ⟨hstatus, part, remaining, hremaining, hstages, hvalid.retained hg⟩
  · refine (h.published p hp).mono hg fun a ha => ?_
    exact List.mem_append.2 ((List.mem_append.1 ha).imp_left (hg.artifacts a))
  · obtain ⟨done, hparts, hdone⟩ := h.parts
    exact ⟨done, hparts, fun hstatus part hpart => (hdone hstatus part hpart).retained hg⟩

/-! ## Staging a part -/

/-- After the request of an external action come only such requests. -/
theorem requests_last {input : ProposedExecutionResult} {done remaining : List Part} {part : Part}
    (h : input.parts = done ++ part :: remaining)
    (hpart : part.derivationType = .externalActionRequest) :
    ∀ q ∈ remaining, q.derivationType = .externalActionRequest := by
  have hordered : input.parts.Pairwise fun p q =>
      p.derivationType = .externalActionRequest → q.derivationType = .externalActionRequest := by
    unfold ProposedExecutionResult.parts ProposedExecutionResult.outputParts
    rw [List.pairwise_append, List.pairwise_append]
    simp [List.pairwise_map, List.pairwise_of_forall]
  rw [h] at hordered
  have htail := (List.pairwise_append.1 hordered).2.1
  exact fun q hq => (List.pairwise_cons.1 htail).1 q hq hpart

/-- A part that is to be staged has not been published. -/
theorem OpenCommit.Sound.unpublished {part : Part} {remaining : List Part}
    (h : c.Sound content agrees db) (hremaining : c.remaining = part :: remaining)
    (hstages : c.stages part) : c.publishedPart part.staged.stagingId = none := by
  by_cases hrequest : part.derivationType = .externalActionRequest
  · simpa [OpenCommit.stages, hrequest] using hstages
  · have hunseen : part.staged.stagingId ∉ c.seen := by
      cases htype : part.derivationType <;> simp_all [OpenCommit.stages]
    rcases h.seen with hseen | hlast
    · refine List.find?_eq_none.2 fun p hp heq => hunseen ?_
      exact of_decide_eq_true heq ▸ hseen p hp
    · exact absurd (hlast part (by simp [hremaining])) hrequest

theorem OpenCommit.publishedPart_publish {part : Part} {row : ArtifactStaging} {id : Uuid}
    {remaining : List Part} (href : row.stagedRef = part.staged.stagingId) :
    (c.publish part row id remaining).publishedPart part.staged.stagingId =
      some ⟨row, part.derivationType, id⟩ := by
  simp [OpenCommit.publishedPart, OpenCommit.publish, href]

/-- A part that has been published stays published as the same artifact. -/
theorem OpenCommit.publishedPart_publish_of_some {part : Part} {row : ArtifactStaging} {id : Uuid}
    {remaining : List Part} {ref : Uuid} {p : PublishedPart}
    (href : row.stagedRef = part.staged.stagingId)
    (hnone : c.publishedPart part.staged.stagingId = none) (h : c.publishedPart ref = some p) :
    (c.publish part row id remaining).publishedPart ref = some p := by
  have hne : row.stagedRef ≠ ref := by
    rintro rfl
    rw [href, hnone] at h
    simp at h
  unfold OpenCommit.publishedPart OpenCommit.publish at *
  simpa [hne] using h

/-- The next part is published as an artifact that `agrees`. -/
theorem OpenCommit.Sound.publish {part : Part} {remaining : List Part} {row : ArtifactStaging}
    {id : Uuid} {artifacts : List Artifact} (h : c.Sound content agrees db)
    (hremaining : c.remaining = part :: remaining) (hstages : c.stages part)
    (hvalid : Validated db c.input.attemptId c.component part row)
    (hartifact : ∃ a ∈ db.artifacts ++ artifacts, a.id = id ∧ a.digest = row.digest ∧
      agrees part.derivationType a row)
    (hown : ∀ a ∈ c.own.artifacts, a ∈ artifacts)
    (hschemas : ∀ a ∈ artifacts, (db.schema? a.schemaId).isSome) :
    OpenCommit.Sound content agrees db
      { c.publish part row id remaining with own.artifacts := artifacts } := by
  have hnone := h.unpublished hremaining hstages
  have hkeep : ∀ {ref p}, c.publishedPart ref = some p →
      (c.publish part row id remaining).publishedPart ref = some p := fun hp =>
    c.publishedPart_publish_of_some hvalid.stagedRef hnone hp
  refine ⟨h.input, h.owner, h.component, by simp [OpenCommit.publish], fun p hp => ?_, ?_, ?_, ?_,
    hschemas⟩
  · rcases List.mem_cons.1 hp with rfl | hp
    · exact ⟨hvalid.holds, hvalid.attemptId, hartifact⟩
    · refine (h.published p hp).mono (.refl db) fun a ha => ?_
      exact List.mem_append.2 ((List.mem_append.1 ha).imp_right (hown a))
  · by_cases hrequest : part.derivationType = .externalActionRequest
    · obtain ⟨done, hparts, -⟩ := h.parts
      rw [hremaining] at hparts
      exact Or.inr (requests_last hparts hrequest)
    · have hsee : c.see part = part.staged.stagingId :: c.seen := by
        cases htype : part.derivationType <;> simp_all [OpenCommit.see]
      refine Or.inl fun p hp => ?_
      change p.row.stagedRef ∈ c.see part
      rw [hsee]
      rcases List.mem_cons.1 hp with rfl | hp
      · exact hvalid.stagedRef ▸ List.mem_cons_self
      · rcases h.seen with hseen | hlast
        · exact List.mem_cons_of_mem _ (hseen p hp)
        · exact absurd (hlast part (by simp [hremaining])) hrequest
  · obtain ⟨done, hparts, hdone⟩ := h.parts
    refine ⟨done ++ [part], by simp [hparts, hremaining, OpenCommit.publish],
      fun hstatus q hq => ?_⟩
    rcases List.mem_append.1 hq with hq | hq
    · obtain ⟨p, hp, htype⟩ := hdone hstatus q hq
      exact ⟨p, hkeep hp, htype⟩
    · obtain rfl := List.mem_singleton.1 hq
      exact ⟨_, @OpenCommit.publishedPart_publish c q row id remaining hvalid.stagedRef,
        fun _ => ⟨rfl, hvalid⟩⟩
  · obtain ⟨recorded, hrecorded, houtputs⟩ := h.recorded
    refine ⟨recorded, hrecorded, fun o ho => ?_⟩
    obtain ⟨q, hq, p, eventId, hp, ho⟩ := houtputs o ho
    exact ⟨q, hq, p, eventId, hkeep hp, ho⟩

/-! ## Keys and locks -/

/-- The keys of the tables, across the open commits, and the rows that these have locked. -/
structure CommitService.Keys (s : CommitService) : Prop where
  executions : Keyed (·.id) s.db.executions
  components : Keyed (·.id) s.db.components
  stagedRefs : Keyed (·.stagedRef) s.db.staging
  artifactIds : KeyedAcross (·.id) s.db.artifacts (s.commits.map (·.own.artifacts))
  digests : KeyedAcross (·.digest) s.db.artifacts (s.commits.map (·.own.artifacts))
  submissions : KeyedAcross (·.attemptId) s.db.submissions (s.commits.map (·.own.submissions))
  attemptsLocked : (s.commits.map (·.input.attemptId)).Nodup
  componentsLocked : (s.commits.map (·.component.id)).Nodup

/-- A submission row is of the result that its digest is the digest of. -/
def WorkerResultSubmission.Of (content : Digest → ProposedExecutionResult)
    (r : WorkerResultSubmission) : Prop :=
  r.result = content r.submissionDigest ∧ r.attemptId = r.result.attemptId ∧
    r.executionId = r.result.executionId

/-- The submission of an open commit. -/
structure OpenCommit.Submitted (content : Digest → ProposedExecutionResult)
    (submissions : List WorkerResultSubmission) (c : OpenCommit) : Prop where
  mem : ∃ r ∈ submissions ++ c.own.submissions, r.attemptId = c.input.attemptId ∧
    r.submissionDigest = c.submissionDigest ∧ r.committedAt = none
  own : ∀ r ∈ c.own.submissions, r.attemptId = c.input.attemptId ∧ r.Of content

/-! ## The services -/

/-- An artifact that a part of a result of an attempt was published as. -/
def ArtifactOf (agrees : DerivationType → Artifact → ArtifactStaging → Prop) (db : Db)
    (attemptId : Uuid) (part : Part) (a : Artifact) : Prop :=
  a ∈ db.artifacts ∧ ∃ row derivationType, db.HoldsUpload row ∧ row.attemptId = attemptId ∧
    row.stagedRef = part.staged.stagingId ∧
    (part.derivationType ≠ .externalActionRequest → derivationType = part.derivationType) ∧
    a.digest = row.digest ∧ agrees derivationType a row

theorem ArtifactOf.retained {attemptId : Uuid} {part : Part} {a : Artifact}
    (h : ArtifactOf agrees db attemptId part a) (hg : Retains db db') :
    ArtifactOf agrees db' attemptId part a := by
  obtain ⟨ha, row, d, hholds, hrest⟩ := h
  exact ⟨hg.artifacts a ha, row, d, hg.holds hholds, hrest⟩

/-- An output of a committed result. -/
def ExecutionOutput.Committed (agrees : DerivationType → Artifact → ArtifactStaging → Prop) (db : Db)
    (o : ExecutionOutput) : Prop :=
  ∃ r ∈ db.submissions, r.attemptId = o.attemptId ∧ r.executionId = o.executionId ∧
    r.committedAt.isSome ∧ r.result.status = .completed ∧
    ∃ part ∈ r.result.outputParts, part.staged.portName = o.portName ∧
      ∃ a, a.id = o.artifactId ∧ ArtifactOf agrees db r.attemptId part a

/-- What holds in every state. -/
structure CommitService.Sound (content : Digest → ProposedExecutionResult)
    (agrees : DerivationType → Artifact → ArtifactStaging → Prop) (s : CommitService) : Prop where
  keys : s.Keys
  commits : ∀ c ∈ s.commits, c.Sound content agrees s.db ∧ c.Submitted content s.db.submissions
  submissions : ∀ r ∈ s.db.submissions, r.Of content
  schemas : ∀ a ∈ s.db.artifacts, (s.db.schema? a.schemaId).isSome
  committed : ∀ r ∈ s.db.submissions, r.committedAt.isSome → r.result.status = .completed →
    ∀ part ∈ r.result.parts, ∃ a, ArtifactOf agrees s.db r.attemptId part a
  outputs : ∀ o ∈ s.db.outputs, o.Committed agrees s.db

theorem map_replaced {α β : Type} {f : α → β} {a a' : α} {pre post : List α} (h : f a' = f a) :
    (pre ++ a' :: post).map f = (pre ++ a :: post).map f := by
  simp [h]

/-- A statement of an open commit. -/
theorem CommitService.Sound.statement (h : s.Sound content agrees)
    (hmem : s.commits = pre ++ c :: post) (hc : c'.Sound content agrees s.db)
    (hinput : c'.input = c.input) (hdigest : c'.submissionDigest = c.submissionDigest)
    (hcomponent : c'.component = c.component) (hown : c'.own.submissions = c.own.submissions)
    (hids : KeyedAcross (·.id) s.db.artifacts ((pre ++ c' :: post).map (·.own.artifacts)))
    (hdigests : KeyedAcross (·.digest) s.db.artifacts ((pre ++ c' :: post).map (·.own.artifacts))) :
    CommitService.Sound content agrees { s with commits := pre ++ c' :: post } := by
  obtain ⟨hexecutions, hcomponents, hrefs, -, -, hsubmissions, hattempts, howners⟩ := h.keys
  rw [hmem] at hsubmissions hattempts howners
  refine ⟨⟨hexecutions, hcomponents, hrefs, hids, hdigests, ?_, ?_, ?_⟩, fun d hd => ?_,
    h.submissions, h.schemas, h.committed, h.outputs⟩
  · exact map_replaced (f := fun d : OpenCommit => d.own.submissions) hown ▸ hsubmissions
  · have hsame : c'.input.attemptId = c.input.attemptId := by rw [hinput]
    exact map_replaced (f := fun d : OpenCommit => d.input.attemptId) hsame ▸ hattempts
  · have hsame : c'.component.id = c.component.id := by rw [hcomponent]
    exact map_replaced (f := fun d : OpenCommit => d.component.id) hsame ▸ howners
  · rcases List.mem_append.1 hd with hd | hd
    · exact h.commits d (by simp [hmem, hd])
    · rcases List.mem_cons.1 hd with rfl | hd
      · obtain ⟨⟨r, hr, hattempt, hdigest', hnone⟩, hrows⟩ := (h.commits c (by simp [hmem])).2
        refine ⟨hc, ⟨r, hown ▸ hr, hinput ▸ hattempt, hdigest ▸ hdigest', hnone⟩, ?_⟩
        rw [hown, hinput]
        exact hrows
      · exact h.commits d (by simp [hmem, hd])

/-- A statement that creates no artifact. -/
theorem CommitService.Sound.same (h : s.Sound content agrees) (hmem : s.commits = pre ++ c :: post)
    (hc : c'.Sound content agrees s.db) (hinput : c'.input = c.input)
    (hdigest : c'.submissionDigest = c.submissionDigest) (hcomponent : c'.component = c.component)
    (hown : c'.own.submissions = c.own.submissions) (hartifacts : c'.own.artifacts = c.own.artifacts) :
    CommitService.Sound content agrees { s with commits := pre ++ c' :: post } := by
  have hmap := @map_replaced _ _ (fun d : OpenCommit => d.own.artifacts) _ _ pre post
    hartifacts
  refine h.statement hmem hc hinput hdigest hcomponent hown ?_ ?_ <;> rw [hmap, ← hmem]
  · exact h.keys.artifactIds
  · exact h.keys.digests

/-- A step of another service. -/
theorem CommitService.Sound.other (h : s.Sound content agrees) (hg : Retains s.db t.db)
    (hcommits : t.commits = s.commits) (hkeys : t.Keys)
    (hkept : ∀ r ∈ s.db.submissions, r.committedAt.isSome → r ∈ t.db.submissions)
    (hnew : ∀ r ∈ t.db.submissions, r ∈ s.db.submissions ∨ r.committedAt = none ∧ r.Of content)
    (hsubmitted : ∀ c ∈ s.commits, c.Submitted content t.db.submissions)
    (houtputs : t.db.outputs = s.db.outputs)
    (hschemas : ∀ a ∈ t.db.artifacts, a ∈ s.db.artifacts ∨ (s.db.schema? a.schemaId).isSome) :
    t.Sound content agrees := by
  refine ⟨hkeys, fun c hc => ?_, fun r hr => ?_, fun a ha => ?_, fun r hr hcommitted hstatus part
    hpart => ?_, fun o ho => ?_⟩
  · rw [hcommits] at hc
    exact ⟨(h.commits c hc).1.retained hg, hsubmitted c hc⟩
  · rcases hnew r hr with hr | ⟨-, hof⟩
    · exact h.submissions r hr
    · exact hof
  · rw [hg.schema?]
    exact (hschemas a ha).elim (h.schemas a) id
  · rcases hnew r hr with hr | ⟨hnone, -⟩
    · obtain ⟨a, ha⟩ := h.committed r hr hcommitted hstatus part hpart
      exact ⟨a, ha.retained hg⟩
    · simp [hnone] at hcommitted
  · rw [houtputs] at ho
    obtain ⟨r, hr, hattempt, hexecution, hcommitted, hstatus, part, hpart, hport, a, hid, ha⟩ :=
      h.outputs o ho
    exact ⟨r, hkept r hr hcommitted, hattempt, hexecution, hcommitted, hstatus, part, hpart, hport, a,
      hid, ha.retained hg⟩

/-- The commits that are left. -/
theorem CommitService.Keys.left (h : s.Keys) (hmem : s.commits = pre ++ c :: post) :
    (∀ d ∈ pre ++ post, d ∈ s.commits) ∧
      (∀ d ∈ pre ++ post, d.input.attemptId ≠ c.input.attemptId) ∧
      (∀ d ∈ pre ++ post, d.component.id ≠ c.component.id) ∧
      ((pre ++ post).map (·.input.attemptId)).Nodup ∧ ((pre ++ post).map (·.component.id)).Nodup := by
  have hsub : List.Sublist (pre ++ post) s.commits := by
    rw [hmem]
    exact (List.sublist_cons_self c post).append_left pre
  have hperm : s.commits.Perm (c :: (pre ++ post)) := hmem ▸ List.perm_middle
  have hattempts := (hperm.map (·.input.attemptId)).nodup_iff.1 h.attemptsLocked
  have hcomponents := (hperm.map (·.component.id)).nodup_iff.1 h.componentsLocked
  rw [List.map_cons, List.nodup_cons] at hattempts hcomponents
  exact ⟨fun d hd => hsub.subset hd, fun d hd heq => hattempts.1 (heq ▸ List.mem_map_of_mem hd),
    fun d hd heq => hcomponents.1 (heq ▸ List.mem_map_of_mem hd), hattempts.2, hcomponents.2⟩

/-! ## The commit -/

/-- The submissions after a commit marks its own. -/
theorem mem_markCommitted {now : Time} {attemptId : Uuid} {d : Digest}
    (hop : markCommitted now attemptId d db = .ok db') {r : WorkerResultSubmission}
    (hr : r ∈ db'.submissions) : r ∈ db.submissions ∧ ¬(r.attemptId = attemptId ∧
        r.submissionDigest = d ∧ r.committedAt = none) ∨
      ∃ u ∈ db.submissions, u.attemptId = attemptId ∧ u.submissionDigest = d ∧
        r = { u with committedAt := some now } := by
  rw [markCommitted_eq_ok hop] at hr
  obtain ⟨u, hu, rfl⟩ := mem_updateWhere.1 hr
  by_cases hmark : u.attemptId = attemptId ∧ u.submissionDigest = d ∧ u.committedAt = none
  · exact Or.inr ⟨u, hu, hmark.1, hmark.2.1, by simp [hmark]⟩
  · refine Or.inl ?_
    have hp : ¬((u.attemptId = attemptId && u.submissionDigest = d && u.committedAt.isNone) = true) := by
      simpa [and_assoc] using hmark
    rw [if_neg hp]
    exact ⟨hu, hmark⟩

/-- The one submission of an open commit that it sees. -/
theorem CommitService.Sound.submission (h : s.Sound content agrees) (hc : c ∈ s.commits) :
    ∃ r ∈ (c.view s.db).submissions, r.Of content ∧ r.attemptId = c.input.attemptId ∧
      r.submissionDigest = c.submissionDigest ∧ r.committedAt = none ∧ r.result = c.input ∧
      ∀ u ∈ (c.view s.db).submissions, u.attemptId = c.input.attemptId → u = r := by
  obtain ⟨hsound, ⟨r, hr, hattempt, hdigest, hnone⟩, hown⟩ := h.commits c hc
  have hof : r.Of content := by
    rcases List.mem_append.1 hr with hr | hr
    · exact h.submissions r hr
    · exact (hown r hr).2
  have hkeyed := h.keys.submissions.seen (List.mem_map_of_mem hc)
  exact ⟨r, hr, hof, hattempt, hdigest, hnone, by rw [hof.1, hdigest, hsound.input],
    fun u hu huattempt => hkeyed.eq hu hr (huattempt.trans hattempt.symm)⟩

/-- What a commit publishes. -/
theorem CommitService.Sound.commits_parts (h : s.Sound content agrees) (hc : c ∈ s.commits)
    (hremaining : c.remaining = []) (hstatus : c.input.status = .completed)
    (hg : Retains (c.view s.db) db) {part : Part} (hpart : part ∈ c.input.parts) :
    ∃ p, c.publishedPart part.staged.stagingId = some p ∧
      ∃ a, a.id = p.artifactId ∧ ArtifactOf agrees db c.input.attemptId part a := by
  have hsound := (h.commits c hc).1
  obtain ⟨done, hparts, hdone⟩ := hsound.parts
  rw [hremaining, List.append_nil] at hparts
  obtain ⟨p, hp, htype⟩ := hdone hstatus part (hparts ▸ hpart)
  have href : p.row.stagedRef = part.staged.stagingId := of_decide_eq_true (List.find?_some hp :)
  obtain ⟨hholds, hattempt, a, ha, hid, hdigest, hagrees⟩ :=
    hsound.published p (List.mem_of_find?_eq_some hp)
  exact ⟨p, hp, a, hid, hg.artifacts a ha, p.row, p.derivationType,
    hg.holds ((c.view_retains s.db).holds hholds), hattempt, href, fun h => (htype h).1, hdigest,
    hagrees⟩

theorem CommitService.Sound.commit (h : s.Sound content agrees) (hmem : s.commits = pre ++ c :: post)
    (hremaining : c.remaining = []) (hrecording : c.recording = [])
    (hop : markCommitted c.env.now c.input.attemptId c.submissionDigest (c.view s.db) = .ok db) :
    CommitService.Sound content agrees { s with db, commits := pre ++ post } := by
  have hc : c ∈ s.commits := by simp [hmem]
  have hsound := (h.commits c hc).1
  obtain ⟨u, hu, huof, huattempt, hudigest, hunone, huresult, honly⟩ := h.submission hc
  have hdb := markCommitted_eq_ok hop
  have hgview : Retains (c.view s.db) db := by
    rw [hdb]
    exact ⟨rfl, rfl, fun _ h => h, fun e he => ⟨e, he, rfl, rfl⟩, fun r hr => ⟨r, hr, .refl r⟩,
      fun _ h => h⟩
  have hg : Retains s.db db := by
    rw [hdb]
    exact ⟨rfl, rfl, fun _ h => h, fun e he => ⟨e, he, rfl, rfl⟩,
      (c.view_retains s.db).staging, fun a ha => List.mem_append_left _ ha⟩
  have hmarked : { u with committedAt := some c.env.now } ∈ db.submissions := by
    rw [hdb]
    exact mem_updateWhere.2 ⟨u, hu, by simp [huattempt, hudigest, hunone]⟩
  have hkept : ∀ r ∈ s.db.submissions, ¬(r.attemptId = c.input.attemptId ∧ r.committedAt = none) →
      r ∈ db.submissions := by
    intro r hr hother
    rw [hdb]
    refine mem_updateWhere_of_not (List.mem_append_left _ hr) fun hp => hother ?_
    simp only [Bool.and_eq_true, decide_eq_true_eq, Option.isNone_iff_eq_none] at hp
    exact ⟨hp.1.1, hp.2⟩
  obtain ⟨hleft, hattempts, -, hattemptsLeft, hcomponentsLeft⟩ := h.keys.left hmem
  obtain ⟨hexecutions, hcomponents, hrefs, hids, hdigests, hsubmissions, -, -⟩ := h.keys
  rw [hmem, List.map_append, List.map_cons] at hids hdigests hsubmissions
  refine ⟨⟨?_, ?_, ?_, ?_, ?_, ?_, hattemptsLeft, hcomponentsLeft⟩, fun d hd => ?_, fun r hr => ?_,
    fun a ha => ?_, fun r hr hcommitted hstatus part hpart => ?_, fun o ho => ?_⟩
  · exact hdb ▸ hexecutions
  · exact hdb ▸ hcomponents
  · have hlinked : Keyed (·.stagedRef) (s.db.staging.map c.link) := by
      rw [Keyed, List.map_map]
      exact (List.map_congr_left fun r _ => (c.link_sameUpload r).2.2.1) ▸ hrefs
    rw [hdb]
    exact hlinked
  · rw [List.map_append, hdb]
    exact hids.commit
  · rw [List.map_append, hdb]
    exact hdigests.commit
  · rw [List.map_append, hdb]
    exact hsubmissions.commit.updateWhere fun _ => rfl
  · obtain ⟨hd', ⟨r, hr, hattempt, hdigest, hnone⟩, hown⟩ := h.commits d (hleft d hd)
    refine ⟨hd'.retained hg, ⟨r, ?_, hattempt, hdigest, hnone⟩, hown⟩
    rcases List.mem_append.1 hr with hr | hr
    · refine List.mem_append_left _ (hkept r hr fun hsame => ?_)
      exact hattempts d hd (hattempt.symm.trans hsame.1)
    · exact List.mem_append_right _ hr
  · rcases mem_markCommitted hop hr with ⟨hr, -⟩ | ⟨v, hv, hvattempt, -, rfl⟩
    · rcases List.mem_append.1 hr with hr | hr
      · exact h.submissions r hr
      · exact ((h.commits c hc).2.own r hr).2
    · obtain rfl := honly v hv hvattempt
      exact huof
  · rw [hg.schema?]
    rw [hdb] at ha
    exact (List.mem_append.1 ha).elim (h.schemas a) (hsound.schemas a)
  · rcases mem_markCommitted hop hr with ⟨hr, -⟩ | ⟨v, hv, hvattempt, -, rfl⟩
    · rcases List.mem_append.1 hr with hr | hr
      · obtain ⟨a, ha⟩ := h.committed r hr hcommitted hstatus part hpart
        exact ⟨a, ha.retained hg⟩
      · obtain rfl := honly r (List.mem_append_right _ hr) ((h.commits c hc).2.own r hr).1
        simp [hunone] at hcommitted
    · obtain rfl := honly v hv hvattempt
      change v.result.status = .completed at hstatus
      change part ∈ v.result.parts at hpart
      rw [huresult] at hstatus hpart
      obtain ⟨-, -, a, -, ha⟩ := h.commits_parts hc hremaining hstatus hgview hpart
      exact ⟨a, show ArtifactOf agrees db v.attemptId part a from huattempt ▸ ha⟩
  · rw [hdb] at ho
    rcases List.mem_append.1 ho with ho | ho
    · obtain ⟨r, hr, hattempt, hexecution, hcommitted, hstatus, part, hpart, hport, a, hid, ha⟩ :=
        h.outputs o ho
      refine ⟨r, hkept r hr fun hsame => ?_, hattempt, hexecution, hcommitted, hstatus, part, hpart,
        hport, a, hid, ha.retained hg⟩
      simp [hsame.2] at hcommitted
    · obtain ⟨recorded, hrecorded, houtputs⟩ := hsound.recorded
      rw [hrecording, List.append_nil] at hrecorded
      obtain ⟨part, hpart, p, eventId, hp, rfl⟩ := houtputs o ho
      have hstatus : c.input.status = .completed := by
        by_contra hnot
        rw [if_neg hnot] at hrecorded
        simp [← hrecorded] at hpart
      rw [if_pos hstatus] at hrecorded
      have hparts : part ∈ c.input.parts := List.mem_append_left _ (hrecorded ▸ hpart)
      obtain ⟨q, hq, a, hid, ha⟩ := h.commits_parts hc hremaining hstatus hgview hparts
      obtain rfl := Option.some.inj (hp.symm.trans hq)
      refine ⟨_, hmarked, huattempt, ?_, rfl, huresult ▸ hstatus, part,
        huresult ▸ hrecorded ▸ hpart, rfl, a, hid, ?_⟩
      · exact huof.2.2.trans (by rw [huresult]; rfl)
      · exact show ArtifactOf agrees db u.attemptId part a from huattempt ▸ ha

/-! ## The steps -/

/-- An insert that conflicts finds an artifact that `agrees`. -/
def conflictsAgree (agrees : DerivationType → Artifact → ArtifactStaging → Prop) :
    CommitService → OpenCommitLabel → Prop
  | _, .create derivationType row (some artifact) => agrees derivationType artifact row
  | _, _ => True

theorem lockAttempt_eq_ok {input : ProposedExecutionResult} {attempt : ExecutionAttempt}
    {execution : Execution} (h : lockAttempt input db = .ok (attempt, execution)) :
    execution ∈ db.executions ∧ execution.id = input.executionId := by
  unfold lockAttempt at h
  split at h
  · rename_i hexecution
    obtain ⟨-, rfl⟩ := Prod.mk.inj (Except.ok.inj h)
    exact mem_of_find?_key hexecution
  · simp at h

/-- A commit that begins. -/
theorem openCommit_sound {env : CommitEnv} {d : Digest} {attempt : ExecutionAttempt}
    {execution : Execution} {locked : Locked} {id : Uuid}
    (hattempt : lockAttempt (content d) db = .ok (attempt, execution))
    (hactive : lockActive attempt execution db = .ok locked) :
    (openCommit env (content d) d id locked db).Sound content agrees db := by
  obtain ⟨hexecution, hid⟩ := lockAttempt_eq_ok hattempt
  obtain ⟨-, -, -, -, -, hcomponent, -, -⟩ := lockActive_eq_ok hactive
  obtain ⟨hcomponentMem, hcomponentId⟩ := mem_of_find?_key hcomponent
  exact ⟨rfl, ⟨execution, hexecution, hid, hcomponentId.symm⟩, hcomponentMem, by simp [openCommit],
    by simp [openCommit], Or.inl (by simp [openCommit]), ⟨[], rfl, by simp⟩, ⟨[], rfl, by simp [openCommit]⟩,
    by simp [openCommit]⟩

theorem openCommit_submitted {env : CommitEnv} {d : Digest} {locked : Locked} {id : Uuid}
    (hsubmission : ∀ r ∈ db.submission? (content d).attemptId,
      r.submissionDigest = d ∧ r.committedAt = none) :
    (openCommit env (content d) d id locked db).Submitted content db.submissions := by
  cases hfound : db.submission? (content d).attemptId with
  | some r =>
    obtain ⟨hr, hattempt⟩ := mem_of_find?_key hfound
    have hown : (openCommit env (content d) d id locked db).own.submissions = [] := by
      simp [openCommit, submissionRows, hfound]
    exact ⟨⟨r, List.mem_append_left _ hr, hattempt, hsubmission r hfound⟩, by simp [hown]⟩
  | none =>
    have hown : (openCommit env (content d) d id locked db).own.submissions =
        [⟨id, (content d).executionId, (content d).attemptId, d, content d, env.now, none⟩] := by
      simp [openCommit, submissionRows, hfound]
    refine ⟨⟨_, List.mem_append_right _ (hown ▸ List.mem_singleton_self _), rfl, rfl, rfl⟩, ?_⟩
    rw [hown]
    intro r hr
    obtain rfl := List.mem_singleton.1 hr
    exact ⟨rfl, rfl, rfl, rfl⟩

theorem CommitService.Sound.begin {env : CommitEnv} {d : Digest} {attempt : ExecutionAttempt}
    {execution : Execution} {locked : Locked} {id : Uuid} (h : s.Sound content agrees)
    (hattempt : lockAttempt (content d) s.db = .ok (attempt, execution))
    (hsubmission : ∀ r ∈ s.db.submission? (content d).attemptId,
      r.submissionDigest = d ∧ r.committedAt = none)
    (hactive : lockActive attempt execution s.db = .ok locked)
    (hlocks : ∀ c ∈ s.commits, c.input.attemptId ≠ (content d).attemptId ∧
      c.execution.regionId ≠ locked.execution.regionId ∧ c.component.id ≠ locked.component.id) :
    CommitService.Sound content agrees
      { s with commits := openCommit env (content d) d id locked s.db :: s.commits } := by
  obtain ⟨hexecutions, hcomponents, hrefs, hids, hdigests, hsubmissions, hattempts, howners⟩ := h.keys
  refine ⟨⟨hexecutions, hcomponents, hrefs, hids.begin, hdigests.begin, ?_, ?_, ?_⟩, fun c hc => ?_,
    h.submissions, h.schemas, h.committed, h.outputs⟩
  · cases hfound : s.db.submission? (content d).attemptId with
    | some r =>
      have hown : (openCommit env (content d) d id locked s.db).own.submissions = [] := by
        simp [openCommit, submissionRows, hfound]
      rw [List.map_cons, hown]
      exact hsubmissions.begin
    | none =>
      have hown : (openCommit env (content d) d id locked s.db).own.submissions =
          [] ++ [⟨id, (content d).executionId, (content d).attemptId, d, content d, env.now, none⟩] := by
        simp [openCommit, submissionRows, hfound]
      rw [List.map_cons, hown]
      refine @KeyedAcross.insert _ _ _ _ [] [] _ _ hsubmissions.begin
        ⟨fun r hr => ?_, fun own hown r hr => ?_⟩
      · simpa using List.find?_eq_none.1 hfound r hr
      · rcases List.mem_cons.1 hown with rfl | hown
        · simp at hr
        · obtain ⟨c, hc, rfl⟩ := List.mem_map.1 hown
          change r.attemptId ≠ (content d).attemptId
          rw [((h.commits c hc).2.own r hr).1]
          exact (hlocks c hc).1
  · refine List.nodup_cons.2 ⟨fun hmem => ?_, hattempts⟩
    obtain ⟨c, hc, heq⟩ := List.mem_map.1 hmem
    exact (hlocks c hc).1 heq
  · refine List.nodup_cons.2 ⟨fun hmem => ?_, howners⟩
    obtain ⟨c, hc, heq⟩ := List.mem_map.1 hmem
    exact (hlocks c hc).2.2 heq
  · rcases List.mem_cons.1 hc with rfl | hc
    · exact ⟨openCommit_sound hattempt hactive, openCommit_submitted hsubmission⟩
    · exact h.commits c hc

/-- Other keys that a step keeps. -/
theorem CommitService.Keys.same (h : s.Keys) (hcommits : t.commits = s.commits)
    (hexecutions : Keyed (·.id) t.db.executions) (hcomponents : Keyed (·.id) t.db.components)
    (hrefs : Keyed (·.stagedRef) t.db.staging)
    (hids : KeyedAcross (·.id) t.db.artifacts (s.commits.map (·.own.artifacts)))
    (hdigests : KeyedAcross (·.digest) t.db.artifacts (s.commits.map (·.own.artifacts)))
    (hsubmissions :
      KeyedAcross (·.attemptId) t.db.submissions (s.commits.map (·.own.submissions))) : t.Keys :=
  ⟨hexecutions, hcomponents, hrefs, hcommits ▸ hids, hcommits ▸ hdigests, hcommits ▸ hsubmissions,
    hcommits ▸ h.attemptsLocked, hcommits ▸ h.componentsLocked⟩

theorem OpenCommitStep.sound (hcompatible : ∀ d a r, a.compatible r → agrees d a r)
    (h : s.Sound content agrees) (hstep : OpenCommitStep P T content s l t)
    (hok : conflictsAgree agrees s l) : t.Sound content agrees := by
  cases hstep with
  | begin hattempt hsubmission hactive _ _ hlocks =>
    exact h.begin hattempt hsubmission hactive hlocks
  | @validate c pre post part remaining row hmem hremaining hstatus hstages hrow =>
    have hc := (h.commits c (by simp [hmem])).1
    refine h.same hmem ⟨hc.input, hc.owner, hc.component, fun row hmissing => ?_, hc.published, ?_,
      ?_, hc.recorded, hc.schemas⟩ rfl rfl rfl rfl rfl
    · exact absurd (hc.missing row hmissing).1 hstatus
    · refine hc.seen.imp (fun hseen p hp => ?_) fun hlast q hq => hlast q (by simp [hremaining, hq])
      unfold OpenCommit.see
      split
      · exact hseen p hp
      · exact List.mem_cons_of_mem _ (hseen p hp)
    · obtain ⟨done, hparts, -⟩ := hc.parts
      exact ⟨done ++ [part], by simp [hparts, hremaining], fun hstatus' => absurd hstatus' hstatus⟩
  | @known c pre post part remaining row p hmem hremaining hrequest hmissing hrow hpublished =>
    have hc := (h.commits c (by simp [hmem])).1
    refine h.same hmem ⟨hc.input, hc.owner, hc.component, by simp [hmissing], hc.published, ?_, ?_,
      hc.recorded, hc.schemas⟩ rfl rfl rfl rfl rfl
    · exact hc.seen.imp_right fun hlast q hq => hlast q (by simp [hremaining, hq])
    · obtain ⟨done, hparts, hdone⟩ := hc.parts
      refine ⟨done ++ [part], by simp [hparts, hremaining], fun hstatus q hq => ?_⟩
      rcases List.mem_append.1 hq with hq | hq
      · exact hdone hstatus q hq
      · obtain rfl := List.mem_singleton.1 hq
        exact ⟨p, hpublished, fun hnot => absurd hrequest hnot⟩
  | @found c pre post part remaining row artifact hmem hremaining hstatus hmissing hstages hrow
      hartifact hcompatible' =>
    have hc := (h.commits c (by simp [hmem])).1
    obtain ⟨ha, hdigest⟩ := mem_of_find?_key hartifact
    exact h.same hmem (hc.publish hremaining hstages (validates_eq_ok hrow)
      ⟨artifact, ha, rfl, hdigest, hcompatible _ _ _ hcompatible'⟩ (fun _ ha => ha) hc.schemas)
      rfl rfl rfl rfl rfl
  | @notFound c pre post part remaining row hmem hremaining hstatus hmissing hstages hrow
      hartifact =>
    have hc := (h.commits c (by simp [hmem])).1
    refine h.same hmem ⟨hc.input, hc.owner, hc.component, fun row' hmissing' => ?_, hc.published,
      hc.seen, hc.parts, hc.recorded, hc.schemas⟩ rfl rfl rfl rfl rfl
    obtain rfl := Option.some.inj hmissing'
    exact ⟨hstatus, part, remaining, hremaining, hstages, validates_eq_ok hrow⟩
  | @create c pre post part remaining row id hmem hremaining hmissing hdigest hid =>
    have hc := (h.commits c (by simp [hmem])).1
    obtain ⟨hstatus, part', remaining', hremaining', hstages, hvalid⟩ := hc.missing row hmissing
    obtain ⟨rfl, rfl⟩ := List.cons.inj (hremaining.symm.trans hremaining')
    have hkeys := h.keys
    rw [hmem, List.map_append, List.map_cons] at hdigest hid
    have hids := hkeys.artifactIds
    have hdigests := hkeys.digests
    rw [hmem, List.map_append, List.map_cons] at hids hdigests
    refine h.statement hmem (hc.publish hremaining hstages hvalid
      ⟨OpenCommit.newArtifact row id, by simp, rfl, rfl, hcompatible _ _ _ ?_⟩
      (fun _ ha => List.mem_append_left _ ha) fun a ha => ?_) rfl rfl rfl rfl ?_ ?_
    · simp [Artifact.compatible, OpenCommit.newArtifact]
    · rcases List.mem_append.1 ha with ha | ha
      · exact hc.schemas a ha
      · rw [List.mem_singleton.1 ha]
        exact hvalid.schema
    · rw [List.map_append, List.map_cons]
      exact hids.insert hid
    · rw [List.map_append, List.map_cons]
      exact hdigests.insert hdigest
  | @conflict c pre post part remaining row artifact hmem hremaining hmissing hexisting =>
    have hc := (h.commits c (by simp [hmem])).1
    obtain ⟨hstatus, part', remaining', hremaining', hstages, hvalid⟩ := hc.missing row hmissing
    obtain ⟨rfl, rfl⟩ := List.cons.inj (hremaining.symm.trans hremaining')
    obtain ⟨ha, hdigest⟩ := mem_of_find?_key hexisting
    exact h.same hmem (hc.publish hremaining hstages hvalid
      ⟨artifact, List.mem_append_left _ ha, rfl, hdigest, hok⟩ (fun _ ha => ha) hc.schemas)
      rfl rfl rfl rfl rfl
  | @record c pre post part recording p eventId db hmem hremaining hrecording hpublished hop =>
    have hc := (h.commits c (by simp [hmem])).1
    refine h.same hmem ⟨hc.input, hc.owner, hc.component, hc.missing, hc.published, hc.seen, hc.parts,
      ?_, hc.schemas⟩ rfl rfl rfl rfl rfl
    obtain ⟨recorded, hrecorded, houtputs⟩ := hc.recorded
    refine ⟨recorded ++ [part], hrecorded.trans (by simp [hrecording]), fun o ho => ?_⟩
    rcases List.mem_append.1 ho with ho | ho
    · obtain ⟨q, hq, hrest⟩ := houtputs o ho
      exact ⟨q, List.mem_append_left _ hq, hrest⟩
    · obtain rfl := List.mem_singleton.1 ho
      exact ⟨part, by simp, p, eventId, hpublished, rfl⟩
  | commit hmem hremaining hrecording hop => exact h.commit hmem hremaining hrecording hop
  | @rollback c pre post hmem =>
    obtain ⟨hleft, -, -, hattempts, hcomponents⟩ := h.keys.left hmem
    obtain ⟨hexecutions, hcomponentIds, hrefs, hids, hdigests, hsubmissions, -, -⟩ := h.keys
    rw [hmem, List.map_append, List.map_cons] at hids hdigests hsubmissions
    refine ⟨⟨hexecutions, hcomponentIds, hrefs, ?_, ?_, ?_, hattempts, hcomponents⟩,
      fun d hd => h.commits d (hleft d hd), h.submissions, h.schemas, h.committed, h.outputs⟩ <;>
      rw [List.map_append]
    · exact hids.rollback
    · exact hdigests.rollback
    · exact hsubmissions.rollback
  | @delete attemptId d hlocks =>
    obtain ⟨hexecutions, hcomponents, hrefs, hids, hdigests, hsubmissions, -, -⟩ := h.keys
    refine h.other (.withSubmissions s.db _) rfl (h.keys.same rfl hexecutions hcomponents hrefs hids hdigests
      (hsubmissions.sublist List.filter_sublist)) (fun r hr hcommitted => ?_)
      (fun r hr => Or.inl (List.mem_of_mem_filter hr)) (fun c hc => ?_) rfl fun a ha => Or.inl ha
    · refine List.mem_filter.2 ⟨hr, ?_⟩
      simp [hcommitted]
    · obtain ⟨⟨r, hr, hattempt, hrest⟩, hown⟩ := (h.commits c hc).2
      refine ⟨⟨r, ?_, hattempt, hrest⟩, hown⟩
      refine List.mem_append.2 ((List.mem_append.1 hr).imp_left fun hr => List.mem_filter.2 ⟨hr, ?_⟩)
      simp [hattempt, hlocks c hc]
  | @handoff r hresult hattempt hexecution hcommitted hkey =>
    obtain ⟨hexecutions, hcomponents, hrefs, hids, hdigests, hsubmissions, -, -⟩ := h.keys
    refine h.other (.withSubmissions s.db _) rfl (h.keys.same rfl hexecutions hcomponents hrefs hids hdigests
      (hsubmissions.insert_committed hkey)) (fun u hu _ => List.mem_append_left _ hu)
      (fun u hu => ?_) (fun c hc => ?_) rfl fun a ha => Or.inl ha
    · refine (List.mem_append.1 hu).imp_right fun hu => ?_
      obtain rfl := List.mem_singleton.1 hu
      exact ⟨hcommitted, hresult, hattempt, hexecution⟩
    · obtain ⟨⟨u, hu, hrest⟩, hown⟩ := (h.commits c hc).2
      refine ⟨⟨u, ?_, hrest⟩, hown⟩
      exact List.mem_append.2 ((List.mem_append.1 hu).imp_left (List.mem_append_left _))
  | @serve db hserves =>
    obtain ⟨-, hcomponents, -, hids, hdigests, hsubmissions, -, -⟩ := h.keys
    refine h.other hserves.retains rfl (h.keys.same rfl hserves.executionIds ?_ hserves.stagedRefs
      (hserves.artifacts ▸ hids) (hserves.artifacts ▸ hdigests) (hserves.submissions ▸ hsubmissions))
      ?_ ?_ (fun c hc => ?_) hserves.outputs ?_
    · change Keyed _ db.toCatalog.components
      rw [hserves.catalog]
      exact hcomponents
    · rw [hserves.submissions]
      exact fun r hr _ => hr
    · rw [hserves.submissions]
      exact fun r hr => Or.inl hr
    · rw [hserves.submissions]
      exact (h.commits c hc).2
    · rw [hserves.artifacts]
      exact fun a ha => Or.inl ha
  | @store a hdigest hid hschema =>
    obtain ⟨hexecutions, hcomponents, hrefs, hids, hdigests, hsubmissions, -, -⟩ := h.keys
    refine h.other ⟨rfl, rfl, fun _ h => h, fun e he => ⟨e, he, rfl, rfl⟩,
      fun r hr => ⟨r, hr, .refl r⟩, fun _ ha => List.mem_append_left _ ha⟩ rfl
      (h.keys.same rfl hexecutions hcomponents hrefs (hids.insert_committed hid)
        (hdigests.insert_committed hdigest) hsubmissions) (fun r hr _ => hr) (fun r hr => Or.inl hr)
      (fun c hc => (h.commits c hc).2) rfl fun b hb => ?_
    refine (List.mem_append.1 hb).imp_right fun hb => ?_
    rw [List.mem_singleton.1 hb]
    exact hschema
  | @instantiate ids request delta hop hids =>
    obtain ⟨hexecutions, -, hrefs, -, -, hsubmissions, -, -⟩ := h.keys
    refine h.other ⟨rfl, rfl, fun _ hc => List.mem_append_left _ hc, fun e he => ⟨e, he, rfl, rfl⟩,
      fun r hr => ⟨r, hr, .refl r⟩, fun _ ha => List.mem_append_left _ ha⟩ rfl
      (h.keys.same rfl hexecutions hids.components hrefs hids.artifactIds hids.digests hsubmissions)
      (fun r hr _ => hr) (fun r hr => Or.inl hr) (fun c hc => (h.commits c hc).2) rfl fun b hb => ?_
    exact (List.mem_append.1 hb).imp_right (hids.schemas b)

theorem initial_commitService (h : s.Initial content) : s.Sound content agrees := by
  refine ⟨⟨h.executions, h.components, h.stagedRefs, ?_, ?_, ?_, ?_, ?_⟩, ?_, fun r hr => ?_,
    h.schemas, fun r hr hcommitted => ?_, ?_⟩
  · exact h.commits ▸ .of_nil h.artifactIds
  · exact h.commits ▸ .of_nil h.digests
  · exact h.commits ▸ .of_nil h.attempts
  · simp [h.commits]
  · simp [h.commits]
  · simp [h.commits]
  · obtain ⟨hresult, hattempt, hexecution, -⟩ := h.submissions r hr
    exact ⟨hresult, hattempt, hexecution⟩
  · simp [(h.submissions r hr).2.2.2] at hcommitted
  · simp [h.outputs]

theorem reachable_commitService (hcompatible : ∀ d a r, a.compatible r → agrees d a r)
    (h : ((commitService P T content).restrict (conflictsAgree agrees)).Reachable s) :
    s.Sound content agrees := by
  induction h with
  | start h0 => exact initial_commitService h0
  | next _ hstep ih => exact OpenCommitStep.sound hcompatible ih hstep.1 hstep.2

end FactoryFloor
