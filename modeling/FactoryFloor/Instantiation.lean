import FactoryFloor.Concurrent
import FactoryFloor.Schema
import FactoryFloor.Transition

/-!
# Instantiating templates

`TemplateInstantiationService.instantiate` is one transaction : it finds the instantiation of the
request id, publishes the topology or finds the one that is active, records the instantiation, and
publishes the initial states. When the transaction breaks a unique key it is run once more.

A `TemplateCall` is such a transaction between two of its statements, with the rows it has
inserted, which no other call sees before the commit. An insert waits while another call has
inserted a row with its key. What the calls read of the definitions is a parameter (`Templates`) :
no call writes them.

`instantiation_idempotent` is about every interleaving of calls, also with other request ids.
-/

namespace FactoryFloor

open Relational Transition

/-! ## Requests -/

/-- What the digest of a request is taken of. -/
structure InstantiationContent where
  targetRegionId : Uuid
  template : String
  parameters : Json
  componentConfiguration : Json
  source : Json

structure InstantiationRequest where
  requestId : Option Uuid
  content : InstantiationContent

structure TemplateInstance where
  name : String
  definitionId : Uuid

/-- The initial state of an instance : `canonical` is the canonical text of its value. -/
structure InitialState where
  componentName : String
  portName : String
  schemaId : Uuid
  canonical : String
  digest : Digest
  sizeBytes : ℕ

/-- What a request resolves to : the effective topology with its digest, and the initial states. -/
structure Resolution where
  templateId : Uuid
  digest : Digest
  fanIn : List FanInRule
  ingressCommands : List (String × List IngressTarget)
  instances : List TemplateInstance
  /-- A source instance and port, and a target instance and port. -/
  connections : List (String × String × String × String)
  initialStates : List InitialState

/-- What the calls get from the definitions. -/
structure Templates where
  /-- `canonicalJsonDigest` of the content of a request. -/
  requestDigest : InstantiationContent → Digest
  deterministicRequestId : Digest → Uuid
  /-- The validation of a request, and the topology and the initial states it resolves to. -/
  resolve : InstantiationContent → Outcome Resolution

/-- The digest of a request. -/
def InstantiationRequest.digest (T : Templates) (request : InstantiationRequest) : Digest :=
  T.requestDigest request.content

/-- `request.requestId ?? deterministicRequestId(requestDigest)`. -/
def InstantiationRequest.id (T : Templates) (request : InstantiationRequest) : Uuid :=
  request.requestId.getD (T.deterministicRequestId (request.digest T))

/-! ## Rows -/

inductive TopologyDisposition where
  | created | existing
deriving DecidableEq, Repr

/-- A revision with its columns that identify it. -/
structure PublishedRevision extends TopologyRevision where
  revisionNumber : ℕ
  contentDigest : Digest

structure TemplateInstantiation where
  id : Uuid
  requestId : Uuid
  requestDigest : Digest
  targetRegionId : Uuid
  topologyRevisionId : Uuid
  templateId : Uuid
  effectiveDigest : Digest
  content : InstantiationContent
  initialDisposition : TopologyDisposition

/-- An inline payload, as its canonical text. -/
structure InlinePayload where
  artifactId : Uuid
  canonical : String
  canonicalSizeBytes : ℕ

/-- The key of a state version. -/
abbrev StateKey := Uuid × String × ℕ

/-- The unique key of `component_state_versions`. -/
def ComponentStateVersion.key (v : ComponentStateVersion) : StateKey :=
  (v.componentInstanceId, v.statePortName, v.versionNumber)

/-- The rows that instantiations insert. -/
structure TemplateRows where
  revisions : List PublishedRevision
  components : List ComponentInstance
  connections : List Connection
  instantiations : List TemplateInstantiation
  artifacts : List Artifact
  inlinePayloads : List InlinePayload
  stateVersions : List ComponentStateVersion
  /-- An instantiation, and the key of a version it is linked to. -/
  stateLinks : List (Uuid × StateKey)

namespace TemplateRows

/-- No rows. -/
def nil : TemplateRows :=
  ⟨[], [], [], [], [], [], [], []⟩

/-- Rows, and rows that are inserted after them. -/
def append (rows own : TemplateRows) : TemplateRows :=
  { revisions := rows.revisions ++ own.revisions
    components := rows.components ++ own.components
    connections := rows.connections ++ own.connections
    instantiations := rows.instantiations ++ own.instantiations
    artifacts := rows.artifacts ++ own.artifacts
    inlinePayloads := rows.inlinePayloads ++ own.inlinePayloads
    stateVersions := rows.stateVersions ++ own.stateVersions
    stateLinks := rows.stateLinks ++ own.stateLinks }

end TemplateRows

/-! ## The topology -/

/-- What the topology of a request was published as. -/
structure TopologyResult where
  disposition : TopologyDisposition
  regionId : Uuid
  revisionId : Uuid

/-- The error of a request whose topology or initial states are not those recorded. -/
def instantiationConflict : RuntimeError :=
  .request "template_instantiation_conflict"

/-- `activeRevision`. -/
def activeRevision (regionId : Uuid) (regions : List Region) (rows : TemplateRows) :
    Option PublishedRevision :=
  (regions.find? (·.id = regionId)).bind fun region =>
    region.activeTopologyRevisionId.bind fun id => rows.revisions.find? (·.id = id)

/-- The topology of a request, when its region has an active one. -/
def existingTopology (content : InstantiationContent) (resolution : Resolution)
    (active : PublishedRevision) : Outcome TopologyResult := do
  require (active.contentDigest = resolution.digest) instantiationConflict
  return ⟨.existing, content.targetRegionId, active.id⟩

/-- Whether a region may get a topology. -/
def regionEligible (regionId : Uuid) (regions : List Region) : Bool :=
  (regions.find? (·.id = regionId)).any fun region =>
    region.lifecycleStatus = .declared || region.lifecycleStatus = .starting ||
      region.lifecycleStatus = .ready

/-- The rows of a topology that is published with some ids. -/
def topologyRows (regionId revisionId : Uuid) (componentId : String → Uuid)
    (resolution : Resolution) : TemplateRows :=
  { TemplateRows.nil with
    revisions := [{ id := revisionId, regionId, fanIn := resolution.fanIn,
                    ingressCommands := resolution.ingressCommands, revisionNumber := 1,
                    contentDigest := resolution.digest }]
    components := resolution.instances.map fun i =>
      { id := componentId i.name, regionId, topologyRevisionId := revisionId,
        componentDefinitionId := i.definitionId, name := i.name }
    connections := resolution.connections.map fun (source, sourcePort, target, targetPort) =>
      { topologyRevisionId := revisionId, sourceComponentInstanceId := componentId source,
        sourcePortName := sourcePort, targetComponentInstanceId := componentId target,
        targetPortName := targetPort } }

/-- `activate`. -/
def activateRevision (regionId revisionId : Uuid) (regions : List Region) : List Region :=
  updateWhere (·.id = regionId)
    (fun r => { r with activeTopologyRevisionId := some revisionId, lifecycleStatus := .running })
    regions

/-! ## Initial states -/

/-- What one initial state is published for. -/
structure StateOwner where
  instantiationId : Uuid
  topologyRevisionId : Uuid
  templateId : Uuid

/-- Whether a version is from an instantiation of a template. -/
def ComponentStateVersion.ofTemplate (v : ComponentStateVersion) (templateId : Uuid)
    (instantiations : List TemplateInstantiation) : Bool :=
  match v.source with
  | .templateInstantiation id => instantiations.any fun i => i.id = id && i.templateId = templateId
  | .execution _ _ => false

/-- The rows that one turn of `publishInitialStates` inserts. -/
def publishInitialState (owner : StateOwner) (artifactId : Uuid) (state : InitialState)
    (rows : TemplateRows) : Outcome TemplateRows := do
  match rows.components.find? fun c =>
      c.topologyRevisionId = owner.topologyRevisionId && c.name = state.componentName with
  | none => .error instantiationConflict
  | some component =>
    let (artifact, artifacts) := findOrInsert (·.digest = state.digest)
      { id := artifactId, digest := state.digest, sizeBytes := state.sizeBytes,
        schemaId := state.schemaId, state := .committed, mediaType := "application/json" }
      rows.artifacts
    require (artifact.schemaId = state.schemaId && artifact.mediaType = "application/json" &&
        artifact.sizeBytes = state.sizeBytes && artifact.state = .committed)
      instantiationConflict
    let (inline, inlinePayloads) := findOrInsert (·.artifactId = artifact.id)
      ⟨artifact.id, state.canonical, state.sizeBytes⟩ rows.inlinePayloads
    require (inline.canonical = state.canonical && inline.canonicalSizeBytes = state.sizeBytes)
      instantiationConflict
    let (version, stateVersions) :=
      findOrInsert (·.key = (component.id, state.portName, 1))
        { componentInstanceId := component.id, statePortName := state.portName, versionNumber := 1,
          artifactId := artifact.id, schemaId := state.schemaId,
          source := .templateInstantiation owner.instantiationId } rows.stateVersions
    -- the revision and the region of a version are those of its component
    require (version.artifactId = artifact.id && version.schemaId = state.schemaId &&
        version.ofTemplate owner.templateId rows.instantiations)
      instantiationConflict
    let (_, stateLinks) := findOrInsert (· = (owner.instantiationId, version.key))
      (owner.instantiationId, version.key) rows.stateLinks
    return { TemplateRows.nil with artifacts, inlinePayloads, stateVersions, stateLinks }

/-! ## Calls -/

structure InstantiationResult where
  disposition : TopologyDisposition
  instantiationId : Uuid
  regionId : Uuid
  topologyRevisionId : Uuid
deriving DecidableEq, Repr

inductive TemplatePhase where
  | started
  /-- The instantiation of the request id has been read. -/
  | found (existing : Option TemplateInstantiation)
  /-- The region had no active revision when it was read. -/
  | inactive (existing : Option TemplateInstantiation) (resolution : Resolution)
  | resolved (existing : Option TemplateInstantiation) (resolution : Resolution)
      (topology : TopologyResult)
  | publishing (owner : StateOwner) (result : InstantiationResult) (remaining : List InitialState)

structure TemplateCall where
  request : InstantiationRequest
  retried : Bool
  phase : TemplatePhase
  own : TemplateRows

/-- An answered call : its request and its result, and whether it recorded the instantiation. -/
structure Answered where
  request : InstantiationRequest
  result : InstantiationResult
  recorded : Bool

structure TemplateService where
  rows : TemplateRows
  regions : List Region
  calls : List TemplateCall
  answered : List Answered

/-- The regions after a call commits. -/
def TemplateCall.activate (c : TemplateCall) (regions : List Region) : List Region :=
  c.own.revisions.foldl (fun regions r => activateRevision r.regionId r.id regions) regions

/-- No other call has inserted a row with the key of one of these rows. -/
def insertsFreely {α β : Type} [DecidableEq β] (key : α → β) (rows others : List α) : Bool :=
  rows.all fun r => others.all fun s => key s ≠ key r

/-- The rows of initial states wait for no other call. -/
def TemplateRows.free (delta other : TemplateRows) : Bool :=
  insertsFreely (·.digest) delta.artifacts other.artifacts &&
    insertsFreely (·.artifactId) delta.inlinePayloads other.inlinePayloads &&
    insertsFreely (·.key) delta.stateVersions other.stateVersions &&
    insertsFreely id delta.stateLinks other.stateLinks

/-- The statement of a call that has run into a unique key. -/
def TemplateCall.violates (T : Templates) (c : TemplateCall) (rows : TemplateRows) : Bool :=
  match c.phase with
  | .inactive _ resolution =>
    rows.revisions.any (·.regionId = c.request.content.targetRegionId) ||
      !decide (resolution.instances.map (·.name)).Nodup
  | .resolved none _ _ => rows.instantiations.any (·.requestId = c.request.id T)
  | _ => false

/-- The instantiation that a call records. -/
def instantiationRow (T : Templates) (request : InstantiationRequest) (resolution : Resolution)
    (topology : TopologyResult) (id : Uuid) : TemplateInstantiation :=
  { id, requestId := request.id T, requestDigest := request.digest T,
    targetRegionId := topology.regionId, topologyRevisionId := topology.revisionId,
    templateId := resolution.templateId, effectiveDigest := resolution.digest,
    content := request.content, initialDisposition := topology.disposition }

inductive TemplateLabel where
  | call (request : InstantiationRequest)
  | statement
  | commit (request : InstantiationRequest) (result : InstantiationResult)
  | fail (request : InstantiationRequest)
  | retry (request : InstantiationRequest)

inductive TemplateStep (T : Templates) : TemplateService → TemplateLabel → TemplateService → Prop
  | call {s : TemplateService} {request : InstantiationRequest} :
      TemplateStep T s (.call request)
        { s with calls := ⟨request, false, .started, .nil⟩ :: s.calls }
  | find {s : TemplateService} {c : TemplateCall} {pre post : List TemplateCall}
      {existing : Option TemplateInstantiation} (hmem : s.calls = pre ++ c :: post)
      (hphase : c.phase = .started)
      (hread : s.rows.instantiations.find? (·.requestId = c.request.id T) = existing)
      (hdigest : existing.all (·.requestDigest = c.request.digest T)) :
      TemplateStep T s .statement
        { s with calls := pre ++ { c with phase := .found existing } :: post }
  | readActive {s : TemplateService} {c : TemplateCall} {pre post : List TemplateCall}
      {existing : Option TemplateInstantiation} {resolution : Resolution}
      {active : PublishedRevision} {topology : TopologyResult}
      (hmem : s.calls = pre ++ c :: post) (hphase : c.phase = .found existing)
      (hresolve : T.resolve c.request.content = .ok resolution)
      (hactive : activeRevision c.request.content.targetRegionId s.regions s.rows = some active)
      (htopology : existingTopology c.request.content resolution active = .ok topology) :
      TemplateStep T s .statement
        { s with calls := pre ++ { c with phase := .resolved existing resolution topology } :: post }
  | readInactive {s : TemplateService} {c : TemplateCall} {pre post : List TemplateCall}
      {existing : Option TemplateInstantiation} {resolution : Resolution}
      (hmem : s.calls = pre ++ c :: post) (hphase : c.phase = .found existing)
      (hresolve : T.resolve c.request.content = .ok resolution)
      (hactive : activeRevision c.request.content.targetRegionId s.regions s.rows = none)
      (heligible : regionEligible c.request.content.targetRegionId s.regions) :
      TemplateStep T s .statement
        { s with calls := pre ++ { c with phase := .inactive existing resolution } :: post }
  /-- The revision waits for a revision of its region, and then the topology is inserted. -/
  | createTopology {s : TemplateService} {c : TemplateCall} {pre post : List TemplateCall}
      {existing : Option TemplateInstantiation} {resolution : Resolution} {revisionId : Uuid}
      {componentId : String → Uuid} (hmem : s.calls = pre ++ c :: post)
      (hphase : c.phase = .inactive existing resolution)
      (hkeys : c.violates T s.rows = false)
      (hwait : ∀ d ∈ pre ++ post,
        ∀ r ∈ d.own.revisions, r.regionId ≠ c.request.content.targetRegionId)
      (hid : FreshAcross (·.id) s.rows.revisions (s.calls.map (·.own.revisions)) revisionId)
      (hids : ∀ i ∈ resolution.instances,
        FreshAcross (·.id) s.rows.components (s.calls.map (·.own.components)) (componentId i.name))
      (hdistinct : (resolution.instances.map fun i => componentId i.name).Nodup) :
      TemplateStep T s .statement
        { s with calls := pre ++
            { c with phase := .resolved existing resolution
                       ⟨.created, c.request.content.targetRegionId, revisionId⟩
                     own := topologyRows c.request.content.targetRegionId revisionId componentId
                       resolution } :: post }
  | compare {s : TemplateService} {c : TemplateCall} {pre post : List TemplateCall}
      {existing : TemplateInstantiation} {resolution : Resolution} {topology : TopologyResult}
      (hmem : s.calls = pre ++ c :: post)
      (hphase : c.phase = .resolved (some existing) resolution topology)
      (hsame : existing.targetRegionId = topology.regionId ∧
        existing.topologyRevisionId = topology.revisionId ∧
        existing.templateId = resolution.templateId ∧ existing.effectiveDigest = resolution.digest) :
      TemplateStep T s .statement
        { s with calls := pre ++
            { c with phase := .publishing ⟨existing.id, topology.revisionId, resolution.templateId⟩
                       ⟨.existing, existing.id, topology.regionId, topology.revisionId⟩
                       resolution.initialStates } :: post }
  /-- The instantiation waits for an instantiation with its request id. -/
  | record {s : TemplateService} {c : TemplateCall} {pre post : List TemplateCall}
      {resolution : Resolution} {topology : TopologyResult} {id : Uuid}
      (hmem : s.calls = pre ++ c :: post) (hphase : c.phase = .resolved none resolution topology)
      (hkeys : c.violates T s.rows = false)
      (hwait : ∀ d ∈ pre ++ post, ∀ i ∈ d.own.instantiations, i.requestId ≠ c.request.id T)
      (hid : FreshAcross (·.id) s.rows.instantiations (s.calls.map (·.own.instantiations)) id) :
      TemplateStep T s .statement
        { s with calls := pre ++
            { c with phase := .publishing ⟨id, topology.revisionId, resolution.templateId⟩
                       ⟨topology.disposition, id, topology.regionId, topology.revisionId⟩
                       resolution.initialStates
                     own := c.own.append { TemplateRows.nil with
                       instantiations := [instantiationRow T c.request resolution topology id] } } ::
            post }
  | publish {s : TemplateService} {c : TemplateCall} {pre post : List TemplateCall}
      {owner : StateOwner} {result : InstantiationResult} {state : InitialState}
      {remaining : List InitialState} {artifactId : Uuid} {delta : TemplateRows}
      (hmem : s.calls = pre ++ c :: post)
      (hphase : c.phase = .publishing owner result (state :: remaining))
      (hid : FreshAcross (·.id) s.rows.artifacts (s.calls.map (·.own.artifacts)) artifactId)
      (hop : publishInitialState owner artifactId state (s.rows.append c.own) = .ok delta)
      (hwait : ∀ d ∈ pre ++ post, delta.free d.own) :
      TemplateStep T s .statement
        { s with calls := pre ++
            { c with phase := .publishing owner result remaining, own := c.own.append delta } ::
            post }
  | commit {s : TemplateService} {c : TemplateCall} {pre post : List TemplateCall}
      {owner : StateOwner} {result : InstantiationResult} (hmem : s.calls = pre ++ c :: post)
      (hphase : c.phase = .publishing owner result []) :
      TemplateStep T s (.commit c.request result)
        { rows := s.rows.append c.own, regions := c.activate s.regions, calls := pre ++ post
          answered := ⟨c.request, result, !c.own.instantiations.isEmpty⟩ :: s.answered }
  /-- A call fails, or its process stops, and its transaction is rolled back. -/
  | fail {s : TemplateService} {c : TemplateCall} {pre post : List TemplateCall}
      (hmem : s.calls = pre ++ c :: post) :
      TemplateStep T s (.fail c.request) { s with calls := pre ++ post }
  /-- A transaction that has broken a unique key is rolled back, and run once more. -/
  | retry {s : TemplateService} {c : TemplateCall} {pre post : List TemplateCall}
      (hmem : s.calls = pre ++ c :: post) (hretried : c.retried = false)
      (hviolates : c.violates T s.rows) :
      TemplateStep T s (.retry c.request)
        { s with calls := pre ++ ⟨c.request, true, .started, .nil⟩ :: post }

/-- The active revision of a region is one of its revisions. -/
def ActiveRevisions (regions : List Region) (rows : TemplateRows) : Prop :=
  ∀ region ∈ regions, ∀ id ∈ region.activeTopologyRevisionId,
    ∃ r ∈ rows.revisions, r.id = id ∧ r.regionId = region.id

/-- The tables before any instantiation. -/
structure TemplateService.Initial (s : TemplateService) : Prop where
  revisionIds : Keyed (·.id) s.rows.revisions
  revisions : Keyed (·.regionId) s.rows.revisions
  stateVersions : Keyed (·.key) s.rows.stateVersions
  active : ActiveRevisions s.regions s.rows
  instantiations : s.rows.instantiations = []
  calls : s.calls = []
  answered : s.answered = []

/-- Calls of `instantiate`. -/
def templateService (T : Templates) : System TemplateService TemplateLabel :=
  ⟨TemplateService.Initial, TemplateStep T⟩

/-! ## Idempotency -/

/-- Whether the initial state of an instance of a revision has its version. -/
def HasInitialVersion (rows : TemplateRows) (revisionId : Uuid) (state : InitialState) : Prop :=
  ∃ component ∈ rows.components, component.topologyRevisionId = revisionId ∧
    component.name = state.componentName ∧ ∃ v ∈ rows.stateVersions,
      v.key = (component.id, state.portName, 1) ∧ v.schemaId = state.schemaId ∧
      ∃ a ∈ rows.artifacts, a.id = v.artifactId ∧ a.digest = state.digest

/-- A request id with an answered call has one instantiation, one revision and one set of initial
versions, and one call recorded it. The others have found it. Only answered calls change rows. -/
structure TemplateService.Idempotent (T : Templates) (s : TemplateService) : Prop where
  instantiation : ∀ a ∈ s.answered, ∃ i,
    s.rows.instantiations.filter (·.requestId = a.request.id T) = [i] ∧
    i.requestDigest = a.request.digest T ∧
    a.result.instantiationId = i.id ∧ a.result.topologyRevisionId = i.topologyRevisionId ∧
    a.result.regionId = a.request.content.targetRegionId
  revision : ∀ a ∈ s.answered,
    (s.rows.revisions.filter (·.regionId = a.request.content.targetRegionId)).map (·.id) =
      [a.result.topologyRevisionId]
  initialStates : ∀ a ∈ s.answered, ∃ resolution, T.resolve a.request.content = .ok resolution ∧
    ∀ state ∈ resolution.initialStates,
      HasInitialVersion s.rows a.result.topologyRevisionId state
  versions : Keyed (·.key) s.rows.stateVersions
  recorded : ∀ a ∈ s.answered,
    (s.answered.filter fun b => b.recorded && b.request.id T = a.request.id T).length = 1
  existing : ∀ a ∈ s.answered, a.recorded = false → a.result.disposition = .existing
  refused : ∀ l t, (templateService T).step s l t →
    t.rows = s.rows ∧ t.regions = s.regions ∧ t.answered = s.answered ∨
      ∃ a, t.answered = a :: s.answered

end FactoryFloor
