import FactoryFloor.ArtifactAgreement
import FactoryFloor.StateVersions
import FactoryFloor.TemplateCalls

/-!
# The history of a component's state

Versions are only appended. An instantiation appends the first version of a component that declares
an initial state, and its replays find that version. A commit appends one version for the state it
proposes, and takes the number after the greatest one. It has locked the component, so no number is
taken twice or left out, and the version with the greatest number is the one appended last.

The trigger appends a version only when the artifact has the schema of the state port. The staging
row has it, but an artifact that the insert of the row has conflicted with need not, and then the
commit appends no version and does not fail (`state_not_appended`). In the other runs the history of
each component is consistent (`states_consistent`).
-/

namespace FactoryFloor

open Relational Transition

variable {P : Platform} {T : Templates} {content : Digest → ProposedExecutionResult}
  {s t : CommitService} {l : OpenCommitLabel} {db db' : Db} {c c' : OpenCommit}
  {pre post : List OpenCommit} {rows own delta : TemplateRows} {ids : DrawnIds}

/-! ## Instantiations -/

/-- What the resolution of a template keeps to. Its digest is taken of all that the initial states
are computed from, and an instance declares at most one. -/
structure Templates.Lawful (T : Templates) : Prop where
  digest : ∀ c c' resolution resolution', T.resolve c = .ok resolution →
    T.resolve c' = .ok resolution' → resolution.digest = resolution'.digest →
    resolution.initialStates = resolution'.initialStates
  single : ∀ c resolution, T.resolve c = .ok resolution →
    (resolution.initialStates.map (·.componentName)).Nodup

/-- The initial states of a revision have their versions. -/
def RevisionStates (T : Templates) (rows : TemplateRows) (revision : PublishedRevision) : Prop :=
  ∃ c resolution, T.resolve c = .ok resolution ∧ resolution.digest = revision.contentDigest ∧
    ∀ state ∈ resolution.initialStates, HasInitialVersion rows revision.id state

/-- What an instantiation inserts. -/
structure Instantiated (T : Templates) (rows delta : TemplateRows) : Prop where
  revisions : ∀ r ∈ delta.revisions, RevisionStates T (rows.append delta) r
  names : ∀ c ∈ delta.components, ∀ d ∈ rows.components ++ delta.components,
    c.topologyRevisionId = d.topologyRevisionId → c.name = d.name → c = d
  versions : ∀ v ∈ delta.stateVersions, v.versionNumber = 1 ∧
    (∃ id, v.source = .templateInstantiation id) ∧
    ∃ c ∈ delta.components, c.id = v.componentInstanceId
  single : (delta.stateVersions.map (·.componentInstanceId)).Nodup

/-- Components are named uniquely within a revision. -/
def NamedUniquely (components : List ComponentInstance) : Prop :=
  ∀ c ∈ components, ∀ d ∈ components,
    c.topologyRevisionId = d.topologyRevisionId → c.name = d.name → c = d

theorem publishInitialStates_components {owner : StateOwner} {states : List InitialState}
    (h : publishInitialStates ids owner rows own states = .ok delta) :
    delta.components = own.components := by
  refine Except.foldlM_invariant (I := fun own' => own'.components = own.components)
    (fun own₁ state own₂ _ hsame hstep => ?_) rfl h
  obtain ⟨delta', hop, hstep⟩ := Except.bind_eq_ok.1 hstep
  obtain rfl := Except.ok.inj hstep
  simp [TemplateRows.append, hsame, (publishInitialState_eq_ok hop).components]

/-- A replay finds the versions of its initial states. -/
theorem publishInitialStates_found {owner : StateOwner} {states : List InitialState}
    (hnames : NamedUniquely rows.components) (hown : own.components = [] ∧ own.stateVersions = [])
    (hstates : ∀ state ∈ states, HasInitialVersion rows owner.topologyRevisionId state)
    (h : publishInitialStates ids owner rows own states = .ok delta) :
    delta.components = [] ∧ delta.stateVersions = [] ∧ delta.revisions = own.revisions := by
  refine Except.foldlM_invariant (I := fun own' => own'.components = [] ∧ own'.stateVersions = [] ∧
    own'.revisions = own.revisions) (fun own₁ state own₂ hstate hfound hstep => ?_)
    ⟨hown.1, hown.2, rfl⟩ h
  obtain ⟨hcomponents, hversions, hrevisions⟩ := hfound
  obtain ⟨delta', hop, hstep⟩ := Except.bind_eq_ok.1 hstep
  obtain rfl := Except.ok.inj hstep
  have hpublished := publishInitialState_eq_ok hop
  obtain ⟨component, hmem, hrevision, hname, hversion⟩ := hpublished.version
  have hnone : delta'.stateVersions = [] := by
    rcases hversion with hnone | ⟨v, -, hkey, -, hfresh⟩
    · exact hnone
    · obtain ⟨c, hc, hcrevision, hcname, w, hw, hwkey, -⟩ := hstates state hstate
      have hmem' : component ∈ rows.components := by simpa [TemplateRows.append, hcomponents] using hmem
      obtain rfl := hnames c hc component hmem' (hcrevision.trans hrevision.symm)
        (hcname.trans hname.symm)
      exact absurd (hwkey.trans hkey.symm) (hfresh w (List.mem_append_left _ hw))
  simp [TemplateRows.append, hcomponents, hversions, hrevisions, hpublished.components, hnone,
    hpublished.revisions]

/-- The versions of a topology that has just been published. -/
structure FirstVersions (own : TemplateRows) (done : List InitialState) (delta : TemplateRows) :
    Prop where
  revisions : delta.revisions = own.revisions
  components : delta.components = own.components
  versions : ∀ v ∈ delta.stateVersions, v.versionNumber = 1 ∧
    (∃ id, v.source = .templateInstantiation id) ∧
    ∃ c ∈ own.components, c.id = v.componentInstanceId ∧ c.name ∈ done.map (·.componentName)
  single : (delta.stateVersions.map (·.componentInstanceId)).Nodup

theorem publishInitialStates_first {owner : StateOwner} {states : List InitialState}
    (hnew : ∀ c ∈ rows.components, c.topologyRevisionId ≠ owner.topologyRevisionId)
    (hids : Keyed (·.id) own.components) (hown : own.stateVersions = [])
    (hsingle : (states.map (·.componentName)).Nodup)
    (h : publishInitialStates ids owner rows own states = .ok delta) :
    FirstVersions own states delta ∧
      ∀ state ∈ states, HasInitialVersion (rows.append delta) owner.topologyRevisionId state := by
  refine Except.foldlM_done (I := fun done delta => FirstVersions own done delta ∧
    ∀ state ∈ done, HasInitialVersion (rows.append delta) owner.topologyRevisionId state)
    (fun done state rest own₁ own₂ hstates hfirst hstep => ?_) ?_ h
  · obtain ⟨⟨hrevisions, hcomponents, hversions, hnodup⟩, hpublished⟩ := hfirst
    obtain ⟨delta', hop, hstep⟩ := Except.bind_eq_ok.1 hstep
    obtain rfl := Except.ok.inj hstep
    have hone := publishInitialState_eq_ok hop
    obtain ⟨component, hmem, hrevision, hname, hversion⟩ := hone.version
    have hcomponent : component ∈ own.components := by
      rcases List.mem_append.1 hmem with hmem | hmem
      · exact absurd hrevision (hnew component hmem)
      · exact hcomponents ▸ hmem
    have hundone : state.componentName ∉ done.map (·.componentName) := by
      rw [hstates, List.map_append, List.map_cons] at hsingle
      exact fun hdone => (List.nodup_append.1 hsingle).2.2 _ hdone _ List.mem_cons_self rfl
    refine ⟨⟨by simp [TemplateRows.append, hrevisions, hone.revisions],
      by simp [TemplateRows.append, hcomponents, hone.components], fun v hv => ?_, ?_⟩,
      fun st hst => ?_⟩
    · rcases List.mem_append.1 hv with hv | hv
      · obtain ⟨hnumber, hsource, c, hc, hid, hdone⟩ := hversions v hv
        exact ⟨hnumber, hsource, c, hc, hid, by simp [hdone]⟩
      · rcases hversion with hnone | ⟨w, hw, hkey, hsource, -⟩
        · simp [hnone] at hv
        · rw [hw] at hv
          obtain rfl := List.mem_singleton.1 hv
          obtain ⟨hid, -, hnumber⟩ : v.componentInstanceId = component.id ∧
              v.statePortName = state.portName ∧ v.versionNumber = 1 := by
            simpa [ComponentStateVersion.key] using hkey
          exact ⟨hnumber, ⟨_, hsource⟩, component, hcomponent, hid.symm, by simp [hname]⟩
    · rcases hversion with hnone | ⟨w, hw, hkey, -, -⟩
      · simpa [TemplateRows.append, hnone] using hnodup
      · have hid : w.componentInstanceId = component.id := congrArg Prod.fst hkey
        simp only [TemplateRows.append, hw, List.map_append, List.map_cons, List.map_nil]
        refine List.nodup_append.2 ⟨hnodup, List.nodup_singleton _, ?_⟩
        rintro a ha b hb rfl
        obtain ⟨v, hv, rfl⟩ := List.mem_map.1 ha
        obtain ⟨-, -, c, hc, hcid, hcname⟩ := hversions v hv
        have hsame : v.componentInstanceId = component.id :=
          (List.mem_singleton.1 hb).trans hid
        obtain rfl := hids.eq hc hcomponent (hcid.trans hsame)
        exact hundone (hname ▸ hcname)
    · rw [TemplateRows.append_assoc]
      rcases List.mem_append.1 hst with hst | hst
      · exact (hpublished st hst).within (TemplateRows.within_append _ _)
      · obtain rfl := List.mem_singleton.1 hst
        exact hone.published
  · exact ⟨⟨rfl, rfl, by simp [hown], by simp [hown]⟩, by simp⟩

theorem ownInstantiation_eq_ok {request : InstantiationRequest} {resolution : Resolution}
    {topology : TopologyResult} {existing : Option TemplateInstantiation} {owner : StateOwner}
    {recorded : TemplateRows}
    (h : ownInstantiation T ids request resolution topology existing = .ok (owner, recorded)) :
    owner.topologyRevisionId = topology.revisionId ∧ recorded.revisions = [] ∧
      recorded.components = [] ∧ recorded.stateVersions = [] := by
  cases existing with
  | none =>
    obtain ⟨rfl, rfl⟩ := Prod.mk.inj (Except.ok.inj h)
    exact ⟨rfl, rfl, rfl, rfl⟩
  | some existing =>
    obtain ⟨⟨⟩, -, h⟩ := Except.bind_eq_ok.1 h
    obtain ⟨rfl, rfl⟩ := Prod.mk.inj (Except.ok.inj h)
    exact ⟨rfl, rfl, rfl, rfl⟩

/-- The topology that is there has the digest of the resolution, or it is published. -/
theorem publishTopology_eq_ok {request : InstantiationContent} {resolution : Resolution}
    {regions : List Region} {topology : TopologyResult} {created : TemplateRows}
    (h : publishTopology ids request resolution regions rows = .ok (topology, created)) :
    (∃ active ∈ rows.revisions, active.contentDigest = resolution.digest ∧
      topology.revisionId = active.id ∧ created = .nil) ∨
    (resolution.instances.map (·.name)).Nodup ∧ topology.revisionId = ids.revisionId ∧
      created = topologyRows request.targetRegionId ids.revisionId ids.componentId resolution := by
  unfold publishTopology at h
  split at h
  · rename_i active hactive
    obtain ⟨topology', htopology, h⟩ := Except.bind_eq_ok.1 h
    obtain ⟨rfl, rfl⟩ := Prod.mk.inj (Except.ok.inj h)
    obtain ⟨⟨⟩, hdigest, htopology⟩ := Except.bind_eq_ok.1 htopology
    obtain rfl := Except.ok.inj htopology
    exact Or.inl ⟨active, (activeRevision_eq_some hactive).1, by simpa using hdigest, rfl, rfl⟩
  · obtain ⟨⟨⟩, -, h⟩ := Except.bind_eq_ok.1 h
    obtain ⟨⟨⟩, -, h⟩ := Except.bind_eq_ok.1 h
    obtain ⟨⟨⟩, hnames, h⟩ := Except.bind_eq_ok.1 h
    obtain ⟨rfl, rfl⟩ := Prod.mk.inj (Except.ok.inj h)
    exact Or.inr ⟨by simpa using hnames, rfl, rfl⟩

/-- A call inserts the rows of a new topology, with at most one version for each of its components,
or no version. -/
theorem instantiate_eq_ok {request : InstantiationRequest} {regions : List Region} (hT : T.Lawful)
    (hrevisions : ∀ r ∈ rows.revisions, RevisionStates T rows r)
    (hnames : NamedUniquely rows.components)
    (hnew : ∀ c ∈ rows.components, c.topologyRevisionId ≠ ids.revisionId)
    (hids : Keyed (·.id) delta.components)
    (h : instantiate T ids request regions rows = .ok delta) : Instantiated T rows delta := by
  unfold instantiate at h
  obtain ⟨⟨⟩, -, h⟩ := Except.bind_eq_ok.1 h
  obtain ⟨resolution, hresolve, h⟩ := Except.bind_eq_ok.1 h
  obtain ⟨⟨topology, created⟩, htopology, h⟩ := Except.bind_eq_ok.1 h
  obtain ⟨⟨owner, recorded⟩, hrecorded, h⟩ := Except.bind_eq_ok.1 h
  obtain ⟨howner, hnoRevisions, hnoComponents, hnoVersions⟩ := ownInstantiation_eq_ok hrecorded
  rcases publishTopology_eq_ok htopology with
    ⟨active, hactive, hdigest, hid, rfl⟩ | ⟨hdistinct, hid, rfl⟩
  · obtain ⟨c, resolution', hresolve', hdigest', hstates⟩ := hrevisions active hactive
    rw [hT.digest _ _ _ _ hresolve' hresolve (hdigest'.trans hdigest)] at hstates
    obtain ⟨hcomponents, hversions, hsame⟩ := publishInitialStates_found hnames
      ⟨by simp [TemplateRows.append, TemplateRows.nil, hnoComponents],
        by simp [TemplateRows.append, TemplateRows.nil, hnoVersions]⟩
      (by rw [howner, hid]; exact hstates) h
    refine ⟨?_, by simp [hcomponents], by simp [hversions], by simp [hversions]⟩
    simp [hsame, TemplateRows.append, TemplateRows.nil, hnoRevisions]
  · have hcomponents : (topologyRows request.content.targetRegionId ids.revisionId ids.componentId
        resolution |>.append recorded).components =
          (topologyRows request.content.targetRegionId ids.revisionId ids.componentId
            resolution).components := by
      simp [TemplateRows.append, hnoComponents]
    have hdelta := publishInitialStates_components h
    obtain ⟨hfirst, hstates⟩ := publishInitialStates_first
      (by rw [howner, hid]; exact hnew) (hdelta ▸ hids)
      (by simp [TemplateRows.append, topologyRows, TemplateRows.nil, hnoVersions])
      (hT.single _ _ hresolve) h
    refine ⟨fun r hr => ?_, fun c hc d hd hrevision hname => ?_, fun v hv => ?_, hfirst.single⟩
    · rw [hfirst.revisions] at hr
      obtain rfl : r = ⟨⟨ids.revisionId, request.content.targetRegionId, resolution.fanIn,
          resolution.ingressCommands⟩, 1, resolution.digest⟩ := by
        simpa [TemplateRows.append, topologyRows, hnoRevisions] using hr
      refine ⟨request.content, resolution, hresolve, rfl, fun state hstate => ?_⟩
      have hstate := hstates state hstate
      rwa [howner, hid] at hstate
    · rw [hdelta, hcomponents] at hc hd
      obtain ⟨i, hi, rfl⟩ := List.mem_map.1 hc
      rcases List.mem_append.1 hd with hd | hd
      · exact absurd hrevision.symm (hnew d hd)
      · obtain ⟨j, hj, rfl⟩ := List.mem_map.1 hd
        obtain rfl := List.inj_on_of_nodup_map hdistinct hi hj hname
        rfl
    · obtain ⟨hnumber, hsource, c, hc, hcid, -⟩ := hfirst.versions v hv
      exact ⟨hnumber, hsource, c, hdelta ▸ hc, hcid⟩

/-! ## Numbers -/

/-- The version numbers of a component, in the order of their versions. -/
def versionNumbers (componentInstanceId : Uuid) (versions : List ComponentStateVersion) : List ℕ :=
  (versions.filter (·.componentInstanceId = componentInstanceId)).map (·.versionNumber)

@[simp] theorem versionNumbers_append (k : Uuid) (xs ys : List ComponentStateVersion) :
    versionNumbers k (xs ++ ys) = versionNumbers k xs ++ versionNumbers k ys := by
  simp [versionNumbers]

@[simp] theorem versionNumbers_nil (k : Uuid) : versionNumbers k [] = [] :=
  rfl

theorem versionNumbers_of_all {k : Uuid} {versions : List ComponentStateVersion}
    (h : ∀ v ∈ versions, v.componentInstanceId = k) :
    versionNumbers k versions = versions.map (·.versionNumber) := by
  rw [versionNumbers, List.filter_eq_self.2 fun v hv => decide_eq_true (h v hv)]

theorem versionNumbers_of_none {k : Uuid} {versions : List ComponentStateVersion}
    (h : ∀ v ∈ versions, v.componentInstanceId ≠ k) : versionNumbers k versions = [] := by
  rw [versionNumbers, List.filter_eq_nil_iff.2 fun v hv => by simpa using h v hv, List.map_nil]

/-- The greatest of the numbers from one on is their number. -/
theorem foldr_max_range' (n : ℕ) : (List.range' 1 n).foldr max 0 = n := by
  have hmax : ∀ (xs : List ℕ) (m : ℕ), xs.foldr max m = max (xs.foldr max 0) m := by
    intro xs m
    induction xs with
    | nil => simp
    | cons x xs ih => rw [List.foldr_cons, List.foldr_cons, ih, max_assoc]
  induction n with
  | zero => rfl
  | succ n ih =>
    rw [List.range'_1_concat, List.foldr_append, List.foldr_cons, List.foldr_nil, hmax, ih]
    omega

theorem latestVersion_eq {k : Uuid} {n : ℕ}
    (h : versionNumbers k db.stateVersions = List.range' 1 n) : latestVersion k db = n := by
  rw [latestVersion]
  exact (congrArg (List.foldr max 0) h).trans (foldr_max_range' n)

/-! ## Open commits -/

/-- The versions that a commit has appended for its state. -/
structure OpenCommit.Records (db : Db) (c : OpenCommit) : Prop where
  versions : ∀ v ∈ c.own.stateVersions, v.componentInstanceId = c.component.id ∧
    v.source = .execution c.input.executionId c.input.attemptId ∧ (db.schema? v.schemaId).isSome
  numbers : c.own.stateVersions.map (·.versionNumber) =
    List.range' ((versionNumbers c.component.id db.stateVersions).length + 1)
      c.own.stateVersions.length
  ports : ∃ recorded, (if c.input.status = .completed then c.input.outputParts else []) =
      recorded ++ c.recording ∧
    c.own.stateVersions.map (·.statePortName) =
      (recorded.filter (·.direction = .state)).map (·.staged.portName)

/-- The versions that a submission has appended. -/
def WorkerResultSubmission.versions (r : WorkerResultSubmission) (db : Db) :
    List ComponentStateVersion :=
  db.stateVersions.filter (·.source = .execution r.executionId r.attemptId)

/-- The port of the state that a submission has committed. -/
def WorkerResultSubmission.statePorts (r : WorkerResultSubmission) : List String :=
  if r.committedAt.isSome ∧ r.result.status = .completed then
    (r.result.proposedState.map (·.portName)).toList
  else []

/-- What holds of the versions in every state. -/
structure CommitService.Recorded (T : Templates) (s : CommitService) : Prop where
  numbers : ∀ k, versionNumbers k s.db.stateVersions =
    List.range' 1 (versionNumbers k s.db.stateVersions).length
  owned : ∀ v ∈ s.db.stateVersions, ∃ c ∈ s.db.components, c.id = v.componentInstanceId
  sources : ∀ v ∈ s.db.stateVersions, ∀ executionId attemptId,
    v.source = .execution executionId attemptId → ∃ r ∈ s.db.submissions,
      r.executionId = executionId ∧ r.attemptId = attemptId ∧ r.committedAt.isSome
  initial : ∀ v ∈ s.db.stateVersions, ∀ id, v.source = .templateInstantiation id →
    v.versionNumber = 1
  appended : ∀ r ∈ s.db.submissions, (r.versions s.db).map (·.statePortName) = r.statePorts
  schemas : ∀ v ∈ s.db.stateVersions, (s.db.schema? v.schemaId).isSome
  commits : ∀ c ∈ s.commits, c.Records s.db
  revisions : ∀ r ∈ s.revisions, RevisionStates T s.templateRows r
  names : NamedUniquely s.db.components

/-- An artifact that was published as state has the schema of its staging row. -/
def hasStateSchema (derivationType : DerivationType) (a : Artifact) (r : ArtifactStaging) : Prop :=
  derivationType = .stateVersion → a.schemaId = r.schemaId

theorem mem_outputParts {input : ProposedExecutionResult} {part : Part}
    (h : part ∈ input.outputParts) : part.direction = .output ∧ part.derivationType = .executionOutput ∨
      part.direction = .state ∧ part.derivationType = .stateVersion := by
  rcases List.mem_append.1 h with h | h <;> obtain ⟨staged, -, rfl⟩ := List.mem_map.1 h
  · exact Or.inl ⟨rfl, rfl⟩
  · exact Or.inr ⟨rfl, rfl⟩

/-- The trigger appends the version of a state whose artifact has its schema. -/
theorem recordComponentStateVersion_state {output : ExecutionOutput} {e : Execution} {a : Artifact}
    {component : ComponentInstance} (hevent : output.publishedEventId = none)
    (he : db.execution? output.executionId = some e)
    (ha : db.artifacts.find? (·.id = output.artifactId) = some a)
    (hcomponent : db.component? e.componentInstanceId = some component)
    (hport : ∃ port ∈ db.ports, port.componentDefinitionId = component.componentDefinitionId ∧
      port.direction = .state ∧ port.name = output.portName ∧ port.schemaId = a.schemaId)
    (h : recordComponentStateVersion output db = .ok db') :
    db'.stateVersions = db.stateVersions ++
      [{ componentInstanceId := e.componentInstanceId, statePortName := output.portName,
         versionNumber := latestVersion e.componentInstanceId db + 1,
         artifactId := output.artifactId, schemaId := a.schemaId,
         source := .execution output.executionId output.attemptId }] := by
  have hport' : (db.component? e.componentInstanceId).any fun component =>
      db.ports.any fun port => port.componentDefinitionId = component.componentDefinitionId &&
        port.direction = .state && port.name = output.portName && port.schemaId = a.schemaId := by
    obtain ⟨port, hmem, hdefinition, hdirection, hname, hschema⟩ := hport
    rw [hcomponent, Option.any_some, List.any_eq_true]
    exact ⟨port, hmem, by simp [hdefinition, hdirection, hname, hschema]⟩
  unfold recordComponentStateVersion at h
  simp only [hevent, he, ha, hport', if_true] at h
  obtain ⟨stateVersions, hinsert, h⟩ := Except.bind_eq_ok.1 h
  obtain rfl := Except.ok.inj h
  exact (insert_eq_ok.1 (sql_eq_ok.1 hinsert)).1

theorem insertOutput_state {output : ExecutionOutput} {e : Execution} {a : Artifact}
    {component : ComponentInstance} (hevent : output.publishedEventId = none)
    (he : db.execution? output.executionId = some e)
    (ha : db.artifacts.find? (·.id = output.artifactId) = some a)
    (hcomponent : db.component? e.componentInstanceId = some component)
    (hport : ∃ port ∈ db.ports, port.componentDefinitionId = component.componentDefinitionId ∧
      port.direction = .state ∧ port.name = output.portName ∧ port.schemaId = a.schemaId)
    (h : insertOutput output db = .ok db') :
    db'.stateVersions = db.stateVersions ++
      [{ componentInstanceId := e.componentInstanceId, statePortName := output.portName,
         versionNumber := latestVersion e.componentInstanceId db + 1,
         artifactId := output.artifactId, schemaId := a.schemaId,
         source := .execution output.executionId output.attemptId }] := by
  unfold insertOutput at h
  obtain ⟨outputs, -, h⟩ := Except.bind_eq_ok.1 h
  exact @recordComponentStateVersion_state { db.draw with outputs } db' output e a component hevent
    he ha hcomponent hport h

/-- The numbers that an open commit sees. -/
theorem OpenCommit.Records.seen (h : c.Records s.db) (hv : s.Recorded T) :
    versionNumbers c.component.id (s.db.stateVersions ++ c.own.stateVersions) =
      List.range' 1 ((versionNumbers c.component.id s.db.stateVersions).length +
        c.own.stateVersions.length) := by
  rw [versionNumbers_append, versionNumbers_of_all fun v hv => (h.versions v hv).1, h.numbers,
    ← List.range'_append_1, ← hv.numbers, Nat.add_comm 1]

/-- The version that a commit appends for its state has the number after the greatest one. -/
theorem OpenCommit.Records.record {part : Part} {recording : List Part} {p : PublishedPart}
    {eventId : Uuid} (hs : s.Sound content hasStateSchema) (hv : s.Recorded T) (hc : c ∈ s.commits)
    (hremaining : c.remaining = []) (hrecording : c.recording = part :: recording)
    (hpublished : c.publishedPart part.staged.stagingId = some p)
    (hop : insertOutput (c.output part p.artifactId eventId) (c.view s.db) = .ok db) :
    OpenCommit.Records s.db
      { c with
        recording
        own.outputs := c.own.outputs ++ [c.output part p.artifactId eventId]
        own.stateVersions := db.stateVersions.drop s.db.stateVersions.length } := by
  have hsound := (hs.commits c hc).1
  have hrecords := hv.commits c hc
  obtain ⟨recorded, hrecorded, hports⟩ := hrecords.ports
  have hmem : part ∈ (if c.input.status = .completed then c.input.outputParts else []) := by
    rw [hrecorded, hrecording]
    simp
  have hstatus : c.input.status = .completed := by
    by_contra hnot
    simp [hnot] at hmem
  rw [if_pos hstatus] at hmem
  rcases mem_outputParts hmem with ⟨hdirection, -⟩ | ⟨hdirection, htype⟩
  · have hevent : (c.output part p.artifactId eventId).publishedEventId.isSome := by
      simp [OpenCommit.output, hdirection]
    have hversions : db.stateVersions.drop s.db.stateVersions.length = c.own.stateVersions := by
      rw [insertOutput_eq_ok hevent hop]
      exact List.drop_left
    rw [hversions]
    refine ⟨hrecords.versions, hrecords.numbers, recorded ++ [part],
      hrecorded.trans (by simp [hrecording]), ?_⟩
    simpa [hdirection] using hports
  · obtain ⟨e, he, heid, howner⟩ := hsound.owner
    have hexecution : (c.view s.db).execution? c.input.executionId = some e := by
      rw [← heid]
      exact hs.keys.executions.find?_eq_some he
    obtain ⟨-, -, a, ha, haid, -, hschema⟩ := hsound.published p (List.mem_of_find?_eq_some hpublished)
    have hartifact : (c.view s.db).artifacts.find? (·.id = p.artifactId) = some a := by
      rw [← haid]
      exact (hs.keys.artifactIds.seen (List.mem_map_of_mem hc)).find?_eq_some ha
    have hcomponent : (c.view s.db).component? e.componentInstanceId = some c.component := by
      rw [howner]
      exact hs.keys.components.find?_eq_some hsound.component
    obtain ⟨done, hparts, hdone⟩ := hsound.parts
    rw [hremaining, List.append_nil] at hparts
    obtain ⟨q, hq, hvalid⟩ := hdone hstatus part (hparts ▸ List.mem_append_left _ hmem)
    obtain rfl := Option.some.inj (hpublished.symm.trans hq)
    obtain ⟨hptype, -, -, -, ⟨port, hport, hdefinition, hportDirection, hname, hportSchema⟩, -⟩ :=
      hvalid (by simp [htype])
    have haschema : a.schemaId = p.row.schemaId := hschema (hptype.trans htype)
    have hversions := @insertOutput_state (c.view s.db) db (c.output part p.artifactId eventId) e a
      c.component (by simp [OpenCommit.output, hdirection]) hexecution hartifact hcomponent
      ⟨port, hport, hdefinition, hportDirection.trans hdirection, hname,
        hportSchema.trans haschema.symm⟩ hop
    have hlatest : latestVersion e.componentInstanceId (c.view s.db) =
        (versionNumbers c.component.id s.db.stateVersions).length + c.own.stateVersions.length := by
      rw [howner]
      exact latestVersion_eq (hrecords.seen hv)
    have hown : db.stateVersions.drop s.db.stateVersions.length = c.own.stateVersions ++
        [{ componentInstanceId := c.component.id, statePortName := part.staged.portName,
           versionNumber := (versionNumbers c.component.id s.db.stateVersions).length +
             c.own.stateVersions.length + 1,
           artifactId := p.artifactId, schemaId := a.schemaId,
           source := .execution c.input.executionId c.input.attemptId }] := by
      rw [hversions, hlatest, howner]
      change List.drop _ (s.db.stateVersions ++ c.own.stateVersions ++ _) = _
      rw [List.append_assoc, List.drop_left]
      rfl
    have haSchema : (s.db.schema? a.schemaId).isSome := by
      rcases List.mem_append.1 ha with ha | ha
      · exact hs.schemas a ha
      · exact hsound.schemas a ha
    rw [hown]
    refine ⟨fun v hv => ?_, ?_, recorded ++ [part], hrecorded.trans (by simp [hrecording]), ?_⟩
    · rcases List.mem_append.1 hv with hv | hv
      · exact hrecords.versions v hv
      · rw [List.mem_singleton.1 hv]
        exact ⟨rfl, rfl, haSchema⟩
    · change List.map _ (c.own.stateVersions ++ _) = List.range' _ (c.own.stateVersions ++ _).length
      rw [List.map_append, hrecords.numbers, List.length_append, List.length_singleton,
        List.range'_concat]
      simp [Nat.add_assoc, Nat.add_comm, Nat.add_left_comm]
    · change List.map _ (c.own.stateVersions ++ _) = _
      simp [hports, hdirection]

/-! ## The steps -/

/-- The versions of a submission follow from its attempt. -/
theorem CommitService.Recorded.versions_nil (hv : s.Recorded T) {r : WorkerResultSubmission}
    (hnone : ∀ u ∈ s.db.submissions, u.attemptId = r.attemptId → u.committedAt = none) :
    r.versions s.db = [] := by
  refine List.filter_eq_nil_iff.2 fun v hmem hsource => ?_
  obtain ⟨u, hu, -, hattempt, hcommitted⟩ :=
    hv.sources v hmem _ _ (of_decide_eq_true hsource)
  simp [hnone u hu hattempt] at hcommitted

theorem RevisionStates.within {rows' : TemplateRows} {r : PublishedRevision}
    (h : RevisionStates T rows r) (hw : rows.Within rows') : RevisionStates T rows' r := by
  obtain ⟨c, resolution, hresolve, hdigest, hstates⟩ := h
  exact ⟨c, resolution, hresolve, hdigest, fun state hstate => (hstates state hstate).within hw⟩

/-- A statement of an open commit. -/
theorem CommitService.Recorded.statement (hv : s.Recorded T) (hmem : s.commits = pre ++ c :: post)
    (hc : c'.Records s.db) :
    CommitService.Recorded T { s with commits := pre ++ c' :: post } := by
  refine ⟨hv.numbers, hv.owned, hv.sources, hv.initial, hv.appended, hv.schemas, fun d hd => ?_,
    hv.revisions, hv.names⟩
  rcases List.mem_append.1 hd with hd | hd
  · exact hv.commits d (by simp [hmem, hd])
  · rcases List.mem_cons.1 hd with rfl | hd
    · exact hc
    · exact hv.commits d (by simp [hmem, hd])

theorem OpenCommit.Records.congr (h : c.Records db)
    (hversions : db'.stateVersions = db.stateVersions) (hschemas : db'.schemas = db.schemas) :
    c.Records db' :=
  ⟨by simpa only [Db.schema?, hschemas] using h.versions, hversions ▸ h.numbers, h.ports⟩

/-- A step that appends no version. -/
theorem CommitService.Recorded.other (hv : s.Recorded T)
    (hversions : t.db.stateVersions = s.db.stateVersions) (hcommits : t.commits = s.commits)
    (hschemas : t.db.schemas = s.db.schemas) (hcomponents : t.db.components = s.db.components)
    (hartifacts : ∀ a ∈ s.db.artifacts, a ∈ t.db.artifacts) (hrevisions : t.revisions = s.revisions)
    (hinstantiations : t.instantiations = s.instantiations)
    (hkept : ∀ r ∈ s.db.submissions, r.committedAt.isSome → r ∈ t.db.submissions)
    (hnew : ∀ r ∈ t.db.submissions, r ∈ s.db.submissions ∨ r.committedAt = none ∧
      ∀ u ∈ s.db.submissions, u.attemptId ≠ r.attemptId) :
    t.Recorded T := by
  have hschema : ∀ id, t.db.schema? id = s.db.schema? id := fun id => by
    rw [Db.schema?, hschemas, Db.schema?]
  refine ⟨by rw [hversions]; exact hv.numbers, by rw [hversions, hcomponents]; exact hv.owned, ?_,
    by rw [hversions]; exact hv.initial, fun r hr => ?_, ?_, ?_, ?_, hcomponents ▸ hv.names⟩
  · rw [hversions]
    intro v hmem executionId attemptId hsource
    obtain ⟨r, hr, hexecution, hattempt, hcommitted⟩ := hv.sources v hmem executionId attemptId hsource
    exact ⟨r, hkept r hr hcommitted, hexecution, hattempt, hcommitted⟩
  · have hsame : r.versions t.db = r.versions s.db := by
      rw [WorkerResultSubmission.versions, hversions, WorkerResultSubmission.versions]
    rw [hsame]
    rcases hnew r hr with hr | ⟨hnone, hfresh⟩
    · exact hv.appended r hr
    · rw [hv.versions_nil fun u hu heq => absurd heq (hfresh u hu)]
      simp [WorkerResultSubmission.statePorts, hnone]
  · rw [hversions]
    exact fun v hmem => hschema _ ▸ hv.schemas v hmem
  · rw [hcommits]
    exact fun d hd => (hv.commits d hd).congr hversions hschemas
  · rw [hrevisions]
    refine fun r hr => (hv.revisions r hr).within ⟨?_, ?_, ?_, hartifacts, ?_⟩
    · simp [CommitService.templateRows, hrevisions]
    · simp [CommitService.templateRows, hcomponents]
    · simp [CommitService.templateRows, hinstantiations]
    · simp [CommitService.templateRows, hversions]

theorem CommitService.Recorded.commit (hs : s.Sound content hasStateSchema) (hv : s.Recorded T)
    (hmem : s.commits = pre ++ c :: post) (hrecording : c.recording = [])
    (hop : markCommitted c.env.now c.input.attemptId c.submissionDigest (c.view s.db) = .ok db) :
    CommitService.Recorded T { s with db, commits := pre ++ post } := by
  have hc : c ∈ s.commits := by simp [hmem]
  have hrecords := hv.commits c hc
  obtain ⟨u, hu, huof, huattempt, hudigest, hunone, huresult, honly⟩ := hs.submission hc
  obtain ⟨hleft, -, hcomponents, -, -⟩ := hs.keys.left hmem
  have hdb := markCommitted_eq_ok hop
  have hversions : db.stateVersions = s.db.stateVersions ++ c.own.stateVersions := by
    rw [hdb]
    rfl
  have hschemas : db.schemas = s.db.schemas := by
    rw [hdb]
    rfl
  have hmarked : { u with committedAt := some c.env.now } ∈ db.submissions := by
    rw [hdb]
    exact mem_updateWhere.2 ⟨u, hu, by simp [huattempt, hudigest, hunone]⟩
  have hown : ∀ v ∈ c.own.stateVersions, v.componentInstanceId = c.component.id ∧
      v.source = .execution c.input.executionId c.input.attemptId ∧
      (s.db.schema? v.schemaId).isSome := hrecords.versions
  have huexecution : u.executionId = c.input.executionId := by rw [huof.2.2, huresult]
  have hother : ∀ k, k ≠ c.component.id → versionNumbers k c.own.stateVersions = [] := fun k hk =>
    versionNumbers_of_none fun v hv heq => hk (heq.symm.trans (hown v hv).1)
  refine ⟨fun k => ?_, fun v hmem => ?_, fun v hmem executionId attemptId hsource => ?_,
    fun v hmem id hsource => ?_, fun r hr => ?_, fun v hmem => ?_, fun d hd => ?_, ?_, ?_⟩
  · rw [hversions]
    by_cases hk : k = c.component.id
    · rw [hk, hrecords.seen hv, List.length_range']
    · rw [versionNumbers_append, hother k hk, List.append_nil]
      exact hv.numbers k
  · rw [hversions] at hmem
    have hcomponents : db.components = s.db.components := by
      rw [hdb]
      rfl
    rw [hcomponents]
    rcases List.mem_append.1 hmem with hmem | hmem
    · exact hv.owned v hmem
    · exact ⟨c.component, (hs.commits c hc).1.component, (hown v hmem).1.symm⟩
  · rw [hversions] at hmem
    rcases List.mem_append.1 hmem with hmem | hmem
    · obtain ⟨r, hr, hexecution, hattempt, hcommitted⟩ :=
        hv.sources v hmem executionId attemptId hsource
      refine ⟨r, ?_, hexecution, hattempt, hcommitted⟩
      rw [hdb]
      refine mem_updateWhere_of_not (List.mem_append_left _ hr) ?_
      simp [Option.isSome_iff_ne_none.1 hcommitted]
    · obtain ⟨rfl, rfl⟩ := StateSource.execution.inj (hsource.symm.trans (hown v hmem).2.1)
      exact ⟨_, hmarked, huexecution, huattempt, rfl⟩
  · rw [hversions] at hmem
    rcases List.mem_append.1 hmem with hmem | hmem
    · exact hv.initial v hmem id hsource
    · simp [(hown v hmem).2.1] at hsource
  · have hsplit : r.versions db = r.versions s.db ++
        c.own.stateVersions.filter (·.source = .execution r.executionId r.attemptId) := by
      rw [WorkerResultSubmission.versions, hversions, List.filter_append]
      rfl
    rw [hsplit]
    rcases mem_markCommitted hop hr with ⟨hr, hnot⟩ | ⟨w, hw, hwattempt, -, rfl⟩
    · have hne : r.attemptId ≠ c.input.attemptId := by
        intro heq
        obtain rfl := honly r hr heq
        exact hnot ⟨huattempt, hudigest, hunone⟩
      have hnone : c.own.stateVersions.filter
          (·.source = .execution r.executionId r.attemptId) = [] := by
        refine List.filter_eq_nil_iff.2 fun v hv heq => hne ?_
        exact (StateSource.execution.inj
          ((of_decide_eq_true heq).symm.trans (hown v hv).2.1)).2
      rw [hnone, List.append_nil]
      rcases List.mem_append.1 hr with hr | hr
      · exact hv.appended r hr
      · exact absurd ((hs.commits c hc).2.own r hr).1 hne
    · obtain rfl := honly w hw hwattempt
      have hall : c.own.stateVersions.filter
          (·.source = .execution w.executionId w.attemptId) = c.own.stateVersions := by
        refine List.filter_eq_self.2 fun v hv => decide_eq_true ?_
        rw [(hown v hv).2.1, huexecution, huattempt]
      have hold : w.versions s.db = [] := by
        refine hv.versions_nil fun r hr hattempt => ?_
        rw [honly r (List.mem_append_left _ hr) (hattempt.trans huattempt)]
        exact hunone
      obtain ⟨recorded, hrecorded, hports⟩ := hrecords.ports
      rw [hrecording, List.append_nil] at hrecorded
      change List.map _ (w.versions s.db ++ c.own.stateVersions.filter
        (·.source = .execution w.executionId w.attemptId)) = _
      rw [hold, hall, List.nil_append, hports, ← hrecorded]
      simp only [WorkerResultSubmission.statePorts, huresult, Option.isSome_some, true_and]
      split
      · cases hstate : c.input.proposedState <;>
          simp [ProposedExecutionResult.outputParts, hstate, List.filter_map, Function.comp_def]
      · rfl
  · rw [Db.schema?, hschemas]
    rw [hversions] at hmem
    rcases List.mem_append.1 hmem with hmem | hmem
    · exact hv.schemas v hmem
    · exact (hown v hmem).2.2
  · have hd' := hv.commits d (hleft d hd)
    refine ⟨by simpa only [Db.schema?, hschemas] using hd'.versions, ?_, hd'.ports⟩
    rw [hversions, versionNumbers_append, hother _ (hcomponents d hd), List.append_nil]
    exact hd'.numbers
  · refine fun r hr => (hv.revisions r hr).within ⟨fun _ h => h, ?_, fun _ h => h, ?_, ?_⟩ <;>
      simp only [CommitService.templateRows, hdb]
    · exact fun _ h => h
    · exact fun a ha => List.mem_append_left _ ha
    · exact fun v hv => List.mem_append_left _ hv
  · have hcomponents : db.components = s.db.components := by
      rw [hdb]
      rfl
    exact hcomponents ▸ hv.names

theorem CommitService.Recorded.instantiate {request : InstantiationRequest} (hT : T.Lawful)
    (hs : s.Sound content hasStateSchema) (hv : s.Recorded T)
    (hop : instantiate T ids request s.db.regions s.templateRows = .ok delta)
    (hids : ids.Fresh s delta) : (s.instantiated delta).Recorded T := by
  have hdelta := instantiate_eq_ok hT hv.revisions hv.names hids.revision
    (List.Nodup.sublist ((List.sublist_append_right _ _).map _) hids.components) hop
  have hversions : (s.instantiated delta).db.stateVersions = s.db.stateVersions ++ delta.stateVersions :=
    rfl
  have hnew : ∀ k, (∃ c ∈ s.db.components, c.id = k) → versionNumbers k delta.stateVersions = [] := by
    rintro _ ⟨c, hc, rfl⟩
    refine versionNumbers_of_none fun v hv heq => ?_
    obtain ⟨-, -, d, hd, hid⟩ := hdelta.versions v hv
    have hsame := hids.components.eq (List.mem_append_left _ hc) (List.mem_append_right _ hd)
      (heq.symm.trans hid.symm)
    have hnodup := List.nodup_append.1 (List.Nodup.of_map _ hids.components)
    exact hnodup.2.2 c hc d hd hsame
  have hwithin : s.templateRows.Within (s.instantiated delta).templateRows :=
    TemplateRows.within_append s.templateRows delta
  refine ⟨fun k => ?_, fun v hmem => ?_, fun v hmem executionId attemptId hsource => ?_,
    fun v hmem id hsource => ?_, fun r hr => ?_, fun v hmem => ?_, fun d hd => ?_, fun r hr => ?_,
    fun c hc d hd hrevision hname => ?_⟩
  · rw [hversions, versionNumbers_append]
    by_cases hk : ∃ c ∈ s.db.components, c.id = k
    · rw [hnew k hk, List.append_nil]
      exact hv.numbers k
    · have hnone : versionNumbers k s.db.stateVersions = [] := by
        refine versionNumbers_of_none fun v hmem heq => hk ?_
        obtain ⟨c, hc, hid⟩ := hv.owned v hmem
        exact ⟨c, hc, hid.trans heq⟩
      have hone : (delta.stateVersions.filter (·.componentInstanceId = k)).length ≤ 1 := by
        have hcount := List.nodup_iff_count_le_one.1 hdelta.single k
        rw [List.count, List.countP_map, List.countP_eq_length_filter] at hcount
        exact hcount
      rw [hnone, List.nil_append, versionNumbers]
      cases hfilter : delta.stateVersions.filter (·.componentInstanceId = k) with
      | nil => rfl
      | cons v rest =>
        obtain rfl : rest = [] := by
          rw [hfilter] at hone
          exact List.length_eq_zero_iff.1 (by simpa using hone)
        have hmem : v ∈ delta.stateVersions :=
          List.mem_of_mem_filter (p := (·.componentInstanceId = k)) (hfilter ▸ List.mem_singleton_self v)
        simp [(hdelta.versions v hmem).1]
  · rcases List.mem_append.1 hmem with hmem | hmem
    · obtain ⟨c, hc, hid⟩ := hv.owned v hmem
      exact ⟨c, List.mem_append_left _ hc, hid⟩
    · obtain ⟨-, -, c, hc, hid⟩ := hdelta.versions v hmem
      exact ⟨c, List.mem_append_right _ hc, hid⟩
  · rcases List.mem_append.1 hmem with hmem | hmem
    · exact hv.sources v hmem executionId attemptId hsource
    · obtain ⟨-, ⟨id, hid⟩, -⟩ := hdelta.versions v hmem
      simp [hid] at hsource
  · rcases List.mem_append.1 hmem with hmem | hmem
    · exact hv.initial v hmem id hsource
    · exact (hdelta.versions v hmem).1
  · have hnone : delta.stateVersions.filter
        (·.source = .execution r.executionId r.attemptId) = [] := by
      refine List.filter_eq_nil_iff.2 fun v hv heq => ?_
      obtain ⟨-, ⟨id, hid⟩, -⟩ := hdelta.versions v hv
      simp [hid] at heq
    have hsame : r.versions (s.instantiated delta).db = r.versions s.db := by
      rw [WorkerResultSubmission.versions, hversions, List.filter_append, hnone, List.append_nil]
      rfl
    rw [hsame]
    exact hv.appended r hr
  · rcases List.mem_append.1 hmem with hmem | hmem
    · exact hv.schemas v hmem
    · exact hids.versionSchemas v hmem
  · have hd' := hv.commits d hd
    refine ⟨hd'.versions, ?_, hd'.ports⟩
    rw [hversions, versionNumbers_append,
      hnew _ ⟨d.component, (hs.commits d hd).1.component, rfl⟩, List.append_nil]
    exact hd'.numbers
  · rcases List.mem_append.1 hr with hr | hr
    · exact (hv.revisions r hr).within hwithin
    · exact hdelta.revisions r hr
  · rcases List.mem_append.1 hc with hc | hc
    · rcases List.mem_append.1 hd with hd | hd
      · exact hv.names c hc d hd hrevision hname
      · exact (hdelta.names d hd c (List.mem_append_left _ hc) hrevision.symm hname.symm).symm
    · exact hdelta.names c hc d hd hrevision hname

theorem OpenCommitStep.recorded (hT : T.Lawful) (hs : s.Sound content hasStateSchema)
    (hv : s.Recorded T) (hstep : OpenCommitStep P T content s l t) : t.Recorded T := by
  cases hstep with
  | begin =>
    refine ⟨hv.numbers, hv.owned, hv.sources, hv.initial, hv.appended, hv.schemas, fun c hc => ?_,
      hv.revisions, hv.names⟩
    rcases List.mem_cons.1 hc with rfl | hc
    · exact ⟨by simp [openCommit], by simp [openCommit], [], rfl, rfl⟩
    · exact hv.commits c hc
  | @validate c pre post _ _ _ hmem =>
    obtain ⟨hversions, hnumbers, hports⟩ := hv.commits c (by simp [hmem])
    exact hv.statement hmem ⟨hversions, hnumbers, hports⟩
  | @known c pre post _ _ _ _ hmem =>
    obtain ⟨hversions, hnumbers, hports⟩ := hv.commits c (by simp [hmem])
    exact hv.statement hmem ⟨hversions, hnumbers, hports⟩
  | @found c pre post _ _ _ _ hmem =>
    obtain ⟨hversions, hnumbers, hports⟩ := hv.commits c (by simp [hmem])
    exact hv.statement hmem ⟨hversions, hnumbers, hports⟩
  | @notFound c pre post _ _ _ hmem =>
    obtain ⟨hversions, hnumbers, hports⟩ := hv.commits c (by simp [hmem])
    exact hv.statement hmem ⟨hversions, hnumbers, hports⟩
  | @create c pre post _ _ _ _ hmem =>
    obtain ⟨hversions, hnumbers, hports⟩ := hv.commits c (by simp [hmem])
    exact hv.statement hmem ⟨hversions, hnumbers, hports⟩
  | @conflict c pre post _ _ _ _ hmem =>
    obtain ⟨hversions, hnumbers, hports⟩ := hv.commits c (by simp [hmem])
    exact hv.statement hmem ⟨hversions, hnumbers, hports⟩
  | @record c pre post part recording p eventId db hmem hremaining hrecording hpublished hop =>
    exact hv.statement hmem
      (OpenCommit.Records.record hs hv (by simp [hmem]) hremaining hrecording hpublished hop)
  | commit hmem _ hrecording hop => exact hv.commit hs hmem hrecording hop
  | rollback hmem =>
    exact ⟨hv.numbers, hv.owned, hv.sources, hv.initial, hv.appended, hv.schemas,
      fun d hd => hv.commits d ((hs.keys.left hmem).1 d hd), hv.revisions, hv.names⟩
  | @delete attemptId d _ =>
    refine hv.other rfl rfl rfl rfl (fun _ h => h) rfl rfl (fun r hr hcommitted => ?_)
      fun r hr => Or.inl (List.mem_of_mem_filter hr)
    exact List.mem_filter.2 ⟨hr, by simp [hcommitted]⟩
  | @handoff r hresult hattempt hexecution hcommitted hkey =>
    refine hv.other rfl rfl rfl rfl (fun _ h => h) rfl rfl (fun u hu _ => List.mem_append_left _ hu)
      fun u hu => (List.mem_append.1 hu).imp_right fun hu => ?_
    obtain rfl := List.mem_singleton.1 hu
    exact ⟨hcommitted, hkey.1⟩
  | @serve db hserves =>
    refine hv.other hserves.stateVersions rfl ?_ ?_ ?_ rfl rfl ?_ ?_
    · change db.toCatalog.schemas = _
      rw [hserves.catalog]
    · change db.toCatalog.components = _
      rw [hserves.catalog]
    · exact fun a ha => hserves.artifacts ▸ ha
    · exact fun r hr _ => hserves.submissions ▸ hr
    · exact fun r hr => Or.inl (hserves.submissions ▸ hr)
  | store =>
    exact hv.other rfl rfl rfl rfl (fun _ ha => List.mem_append_left _ ha) rfl rfl
      (fun r hr _ => hr) fun r hr => Or.inl hr
  | instantiate hop hids => exact hv.instantiate hT hs hop hids

theorem initial_recorded (h : s.Initial content) : s.Recorded T := by
  refine ⟨?_, ?_, ?_, ?_, fun r hr => ?_, ?_, ?_, ?_, fun c hc d hd hrevision hname => ?_⟩
  · simp [h.stateVersions]
  · simp [h.stateVersions]
  · simp [h.stateVersions]
  · simp [h.stateVersions]
  · simp [WorkerResultSubmission.versions, WorkerResultSubmission.statePorts, h.stateVersions,
      (h.submissions r hr).2.2.2]
  · simp [h.stateVersions]
  · simp [h.commits]
  · simp [h.revisions]
  · exact h.componentNames.eq hc hd (Prod.ext hrevision hname)

/-! ## Reading -/

/-- Whether the artifact of a version is committed. -/
def ComponentStateVersion.committed (v : ComponentStateVersion) (db : Db) : Bool :=
  db.artifacts.any fun a => a.id = v.artifactId && a.state = .committed

theorem readableState_eq {v : ComponentStateVersion} (hschema : (db.schema? v.schemaId).isSome) :
    (readableState db v).map (·.version) = if v.committed db then some v else none := by
  obtain ⟨schema, hschema⟩ := Option.isSome_iff_exists.1 hschema
  unfold readableState ComponentStateVersion.committed
  cases hfind : db.artifacts.find? fun a => a.id = v.artifactId && a.state = .committed with
  | none =>
    have hnone : ¬db.artifacts.any fun a => a.id = v.artifactId && a.state = .committed := by
      simpa using hfind
    rw [if_neg hnone]
    rfl
  | some a =>
    have hsome : db.artifacts.any fun a => a.id = v.artifactId && a.state = .committed :=
      List.any_eq_true.2 ⟨a, List.mem_of_find?_eq_some hfind, (List.find?_some hfind :)⟩
    rw [if_pos hsome, hschema]
    rfl

theorem filterMap_readableState {versions : List ComponentStateVersion}
    (hschemas : ∀ v ∈ versions, (db.schema? v.schemaId).isSome) :
    (versions.filterMap (readableState db)).map (·.version) = versions.filter (·.committed db) := by
  induction versions with
  | nil => rfl
  | cons v versions ih =>
    obtain ⟨hschema, hschemas⟩ := List.forall_mem_cons.1 hschemas
    have hread := readableState_eq hschema
    rw [List.filterMap_cons, List.filter_cons, ← ih hschemas]
    by_cases hcommitted : v.committed db
    · rw [if_pos hcommitted] at hread ⊢
      obtain ⟨state, hstate, hversion⟩ := Option.map_eq_some_iff.1 hread
      simp [hstate, hversion]
    · rw [if_neg hcommitted, Option.map_eq_none_iff] at hread
      rw [if_neg hcommitted, hread]

/-- The version that is read is the one appended last whose artifact is committed. -/
theorem readLatestState_eq {k : Uuid} {n : ℕ}
    (hnumbers : versionNumbers k db.stateVersions = List.range' 1 n)
    (hschemas : ∀ v ∈ db.stateVersions, (db.schema? v.schemaId).isSome) :
    (readLatestState k db).map (·.version) =
      ((db.stateVersions.filter (·.componentInstanceId = k)).filter (·.committed db)).getLast? := by
  obtain ⟨versions, hversions⟩ :
      ∃ versions, versions = db.stateVersions.filter (·.componentInstanceId = k) := ⟨_, rfl⟩
  have hread : (versions.filterMap (readableState db)).map (·.version) =
      versions.filter (·.committed db) := filterMap_readableState fun v hv =>
    hschemas v (List.mem_of_mem_filter (hversions ▸ hv))
  have hincreasing : (versions.filter (·.committed db)).Pairwise
      fun v w => v.versionNumber < w.versionNumber := by
    rw [versionNumbers, ← hversions] at hnumbers
    exact (List.pairwise_map.1 (hnumbers ▸ List.pairwise_lt_range')).filter _
  rw [← hread, List.pairwise_map] at hincreasing
  have : Std.Total fun s t : EnvelopeState =>
      t.version.versionNumber ≤ s.version.versionNumber := ⟨fun _ _ => le_total _ _⟩
  have : IsTrans EnvelopeState fun s t : EnvelopeState =>
      t.version.versionNumber ≤ s.version.versionNumber := ⟨fun _ _ _ h h' => h'.trans h⟩
  have hsorted : (versions.filterMap (readableState db)).reverse.Pairwise
      fun s t => t.version.versionNumber ≤ s.version.versionNumber :=
    List.pairwise_reverse.2 (hincreasing.imp fun h => h.le)
  rw [readLatestState, ← hversions, hsorted.insertionSort_eq, List.head?_reverse, ← hread,
    List.getLast?_map]

/-! ## Histories -/

/-- The history of each component. The numbers of its versions are those from one on, in the order
in which the versions were appended, and an initial version is the first. A submission has appended
one version for the state it has committed, and no other. -/
structure CommitService.Consistent (s : CommitService) : Prop where
  numbers : ∀ k, versionNumbers k s.db.stateVersions =
    List.range' 1 (versionNumbers k s.db.stateVersions).length
  initial : ∀ v ∈ s.db.stateVersions, ∀ id, v.source = .templateInstantiation id →
    v.versionNumber = 1
  appended : ∀ r ∈ s.db.submissions, (r.versions s.db).map (·.statePortName) = r.statePorts
  sources : ∀ v ∈ s.db.stateVersions, ∀ executionId attemptId,
    v.source = .execution executionId attemptId → ∃ r ∈ s.db.submissions,
      r.executionId = executionId ∧ r.attemptId = attemptId ∧ r.committedAt.isSome
  latest : ∀ k, (readLatestState k s.db).map (·.version) =
    ((s.db.stateVersions.filter (·.componentInstanceId = k)).filter (·.committed s.db)).getLast?

theorem CommitService.Recorded.consistent (hv : s.Recorded T) : s.Consistent :=
  ⟨hv.numbers, hv.initial, hv.appended, hv.sources, fun k =>
    readLatestState_eq (hv.numbers k) hv.schemas⟩

theorem reachable_recorded (hT : T.Lawful)
    (h : ((commitService P T content).restrict (conflictsAgree hasStateSchema)).Reachable s) :
    s.Sound content hasStateSchema ∧ s.Recorded T := by
  have hcompatible : ∀ d a r, Artifact.compatible a r → hasStateSchema d a r := fun _ _ _ h _ =>
    (Artifact.compatible_iff.1 h).2.1
  induction h with
  | start h0 => exact ⟨initial_commitService h0, initial_recorded h0⟩
  | next _ hstep ih =>
    exact ⟨OpenCommitStep.sound hcompatible ih.1 hstep.1 hstep.2,
      OpenCommitStep.recorded hT ih.1 ih.2 hstep.1⟩

/-- Versions are appended, and stay. -/
theorem OpenCommitStep.appends (h : OpenCommitStep P T content s l t) :
    s.db.stateVersions <+: t.db.stateVersions := by
  cases h with
  | @commit c pre post db hmem hremaining hrecording hop =>
    change s.db.stateVersions <+: db.stateVersions
    rw [markCommitted_eq_ok hop]
    exact List.prefix_append _ _
  | serve hserves => exact hserves.stateVersions ▸ List.prefix_rfl
  | instantiate => exact List.prefix_append _ _
  | _ => exact List.prefix_rfl

/-- While an insert that a proposed state conflicts on finds an artifact with the schema of its row,
the history of every component is consistent, and versions are only appended. -/
theorem states_consistent (hT : T.Lawful)
    (h : ((commitService P T content).restrict (conflictsAgree hasStateSchema)).Reachable s) :
    s.Consistent ∧ ∀ t, ((commitService P T content).restrict (conflictsAgree hasStateSchema)).Later s t →
      s.db.stateVersions <+: t.db.stateVersions :=
  ⟨(reachable_recorded hT h).2.consistent, fun _ hst => hst.preserves
    (P := fun u => s.db.stateVersions <+: u.db.stateVersions)
    (fun u l v _ hp (hstep : OpenCommitStep P T content u l v ∧ _) =>
      hp.trans (OpenCommitStep.appends hstep.1)) h List.prefix_rfl⟩

/-- A request for the third region. -/
def northRequest : InstantiationRequest :=
  ⟨some 7, 102, "press", .null, .null, .null⟩

def northIds (instantiationId revisionId : Uuid) : DrawnIds :=
  ⟨instantiationId, revisionId, fun _ => 302, fun _ => 71⟩

/-- The rows that it inserts. -/
def northRows : TemplateRows where
  revisions := [⟨⟨202, 102, [], []⟩, 1, 102⟩]
  components := [⟨302, 102, 202, 400, "press"⟩]
  connections := []
  instantiations := [⟨600, 7, 102, 102, 202, 1, 102, northRequest.content, .created⟩]
  artifacts := [⟨71, 9, 2, 500, .committed, "application/json"⟩]
  inlinePayloads := [⟨71, "\x7b\x7d", 2⟩]
  stateVersions := [⟨302, "state", 1, 71, 500, .templateInstantiation 600⟩]
  stateLinks := [(600, (302, "state", 1))]

theorem sampleTemplates_lawful : sampleTemplates.Lawful := by
  refine ⟨fun c c' resolution resolution' h h' _ => ?_, fun c resolution h => ?_⟩
  · rw [← Except.ok.inj h, ← Except.ok.inj h']
  · rw [← Except.ok.inj h]
    exact List.nodup_singleton _

/-- A template is instantiated in the third region, and once more. Then a press commits its state. -/
theorem states_consistent_instantiated : ∃ s : CommitService,
    s.instantiations.map (·.id) = [600] ∧
    s.db.stateVersions.map (fun v => (v.componentInstanceId, v.versionNumber)) =
      [(302, 1), (301, 1)] ∧
    s.Consistent := by
  have hstart : ((commitService samplePlatform sampleTemplates (twinContent false)).restrict
      (conflictsAgree hasStateSchema)).Reachable (twins false) := .start (twins_initial false)
  have hinstantiated := hstart.next ⟨@OpenCommitStep.instantiate _ _ _ _ (northIds 600 202) northRequest
    northRows rfl ⟨by decide, by decide, by decide, by unfold KeyedAcross; decide,
      by unfold KeyedAcross; decide, by decide, by decide⟩, trivial⟩
  have hreplayed := hinstantiated.next ⟨@OpenCommitStep.instantiate _ _ _ _ (northIds 601 203) northRequest
    .nil rfl ⟨by decide, by decide, by decide, by unfold KeyedAcross; decide,
      by unfold KeyedAcross; decide, by decide, by decide⟩, trivial⟩
  have hmissed := (hreplayed.next ⟨@OpenCommitStep.begin _ _ _ _ twinEnv 2 _ _ _ 81 rfl (by decide) rfl
    rfl rfl (by decide), trivial⟩).next
    ⟨@OpenCommitStep.notFound _ _ _ _ _ [] [] _ _ _ rfl rfl rfl rfl rfl rfl rfl, trivial⟩
  have hcreated := hmissed.next ⟨@OpenCommitStep.create _ _ _ _ _ [] [] _ _ _ 70 rfl rfl rfl
    ⟨by decide, by decide⟩ ⟨by decide, by decide⟩, trivial⟩
  have hcommitted := (hcreated.next
    ⟨@OpenCommitStep.record _ _ _ _ _ [] [] _ _ _ 91 _ rfl rfl rfl rfl rfl, trivial⟩).next
    ⟨@OpenCommitStep.commit _ _ _ _ _ [] [] _ rfl rfl rfl rfl, trivial⟩
  exact ⟨_, rfl, rfl, (states_consistent sampleTemplates_lawful hcommitted).1⟩

/-- The state of the second press is published as an artifact with the schema of the first, and no
version is appended. -/
theorem state_not_appended : ∃ s : CommitService,
    (commitService samplePlatform noTemplates (twinContent true)).Reachable s ∧ ¬s.Consistent := by
  obtain ⟨s, hs, -, -, -, hsubmissions, hversions⟩ :=
    @twins_commit (fun _ _ _ => True) true trivial
  refine ⟨s, hs.of_restrict, fun hconsistent => ?_⟩
  have hsound : s.Sound (twinContent true) fun _ _ _ => True :=
    reachable_commitService (fun _ _ _ _ => trivial) hs
  have hmem : (2, some 5) ∈ s.db.submissions.map fun r => (r.submissionDigest, r.committedAt) := by
    rw [hsubmissions]
    simp
  obtain ⟨r, hr, heq⟩ := List.mem_map.1 hmem
  obtain ⟨hdigest, hcommitted⟩ := Prod.mk.inj heq
  have hresult : r.result = twinContent true 2 := hdigest ▸ (hsound.submissions r hr).1
  have hnone : s.db.stateVersions = [] := List.map_eq_nil_iff.1 hversions
  have happended := hconsistent.appended r hr
  rw [WorkerResultSubmission.versions, hnone, WorkerResultSubmission.statePorts, hcommitted, hresult]
    at happended
  simp [twinContent, twinResult] at happended

end FactoryFloor
