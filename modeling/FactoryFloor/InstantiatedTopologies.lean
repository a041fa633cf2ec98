import FactoryFloor.TemplateCalls
import FactoryFloor.WiredTopologies

/-!
# The topology an instantiation publishes

An instantiation leaves a whole topology or none : a step of the calls changes the revisions, the
components and the connections only when it is the commit of a call that publishes one
(`TopologyEffect`).

What it publishes is `WellFormedTopology`, but for the name `region`. An instance may have that name,
and the service then takes its endpoints for the boundary of the region : a connection of the
instance is checked as one of the boundary, and not persisted.
-/

namespace FactoryFloor

open Relational Transition

/-- The templates of an instantiation service with these definitions. -/
def instantiationTemplates (E : TemplateChecks) (D : Definitions)
    (requestDigest : InstantiationContent → Digest) (deterministicRequestId : Digest → Uuid) :
    Templates :=
  ⟨requestDigest, deterministicRequestId, resolveTopology E D⟩

/-! ## Well-formed topologies -/

/-- The row of a declared connection, when both of its ends name a component. -/
def TopologyConnection.row (revisionId : Uuid) (components : List ComponentInstance)
    (c : TopologyConnection) : Option Connection := do
  let wire ← c.ends
  let source ← components.find? (·.name = wire.source.instanceName)
  let target ← components.find? (·.name = wire.target.instanceName)
  return { topologyRevisionId := revisionId, sourceComponentInstanceId := source.id,
           sourcePortName := wire.source.port, targetComponentInstanceId := target.id,
           targetPortName := wire.target.port }

/-- A port of a component, with its definition. -/
def IsPort (D : Definitions) (components : List ComponentInstance) (direction : PortDirection)
    (componentId : Uuid) (name : String) (port : PortDefinition) : Prop :=
  port ∈ D.ports ∧ port.name = name ∧ port.direction = direction ∧
    ∃ component ∈ components, component.id = componentId ∧
      component.componentDefinitionId = port.componentDefinitionId

/-- The rows of a topology are what its template declares. -/
structure WellFormedTopology (D : Definitions) (document : TemplateDocument)
    (topology : StaticTopology) (revision : PublishedRevision)
    (components : List ComponentInstance) (persisted : List Connection) : Prop where
  instances : components.map (·.name) = topology.instances.map (·.name)
  /-- Each connection between two instances has one row, and there are no other rows. -/
  connections : persisted.Perm (topology.connections.filterMap (·.row revision.id components))
  once : persisted.Nodup
  /-- A connection is from an output to an input with its schema. -/
  typed : ∀ row ∈ persisted, ∃ output input,
    IsPort D components .output row.sourceComponentInstanceId row.sourcePortName output ∧
    IsPort D components .input row.targetComponentInstanceId row.targetPortName input ∧
    output.schemaId = input.schemaId
  /-- A required output of the region has one producer, a port of a component. -/
  produced : ∀ output ∈ document.outputs, output.required →
    ∃ c, topology.connections.filter (·.target = endpointKey boundary output.port) = [c] ∧
      ∃ e, endpoint c.source = .ok e ∧ ∃ component ∈ components, component.name = e.instanceName ∧
        ∃ port, IsPort D components .output component.id e.port port

/-- A connection between two declared instances, one of which has the name of the boundary. -/
def StaticTopology.Shadowed (topology : StaticTopology) (c : TopologyConnection) : Prop :=
  ∃ wire, c.ends = some wire ∧ wire.source.instanceName ∈ topology.instances.map (·.name) ∧
    wire.target.instanceName ∈ topology.instances.map (·.name) ∧
    (wire.source.instanceName = boundary ∨ wire.target.instanceName = boundary)

/-- What a step does to the topologies : nothing, or it commits a whole one. It is well formed where
no connection of it is shadowed. -/
inductive TopologyEffect (E : TemplateChecks) (D : Definitions) (rows rows' : TemplateRows) :
    TemplateLabel → Prop
  | unchanged {l : TemplateLabel} (hrevisions : rows'.revisions = rows.revisions)
      (hcomponents : rows'.components = rows.components)
      (hconnections : rows'.connections = rows.connections) : TopologyEffect E D rows rows' l
  | published {request : InstantiationRequest} {result : InstantiationResult}
      {template : TemplateDefinition} {topology : StaticTopology} {revision : PublishedRevision}
      {components : List ComponentInstance} {persisted : List Connection}
      (htemplate : findTemplate D request.content.template = .ok template)
      (htopology : template.document.initialTopology = some topology)
      (hregion : revision.regionId = request.content.targetRegionId)
      (hrevisions : rows'.revisions = rows.revisions ++ [revision])
      (hcomponents : rows'.components = rows.components ++ components)
      (hconnections : rows'.connections = rows.connections ++ persisted)
      (hformed : WellFormedTopology D template.document topology revision components persisted ↔
        ∀ c ∈ topology.connections, ¬topology.Shadowed c) :
      TopologyEffect E D rows rows' (.commit request result)

/-! ## The rows of a resolution -/

section

variable {D : Definitions} {document : TemplateDocument} {topology : StaticTopology}
  {inputs outputs : List (ContractPort × Uuid)} {resolved : ResolvedTopology}

theorem ResolvedTopology.Sound.mem_names
    (h : resolved.Sound D document topology inputs outputs) {name : String} :
    name ∈ topology.instances.map (·.name) ↔ ∃ i ∈ resolved.instances, i.name = name := by
  rw [← h.names, List.mem_map]

theorem mem_of_resolvedPort {instances : List ResolvedInstance} {direction : PortDirection}
    {e : Endpoint} {port : PortDefinition} (h : resolvedPort instances direction e = some port) :
    ∃ i ∈ instances, i.name = e.instanceName ∧ port ∈ i.ports ∧ port.name = e.port ∧
      port.direction = direction := by
  obtain ⟨i, hi, h⟩ := Option.bind_eq_some_iff.1 h
  have hport := List.find?_some h
  rw [Bool.and_eq_true, decide_eq_true_eq, decide_eq_true_eq] at hport
  exact ⟨i, List.mem_of_find?_eq_some hi, by simpa using List.find?_some hi,
    List.mem_of_find?_eq_some h, hport⟩

/-- The components of a topology. -/
def publishedComponents (regionId revisionId : Uuid) (componentId : String → Uuid)
    (resolved : ResolvedTopology) : List ComponentInstance :=
  resolved.instances.map fun i =>
    { id := componentId i.name, regionId, topologyRevisionId := revisionId,
      componentDefinitionId := i.definitionId, name := i.name }

/-- The row of a wire that is persisted. -/
def publishedConnection (revisionId : Uuid) (componentId : String → Uuid) :
    String × String × String × String → Connection
  | (source, sourcePort, target, targetPort) =>
    { topologyRevisionId := revisionId, sourceComponentInstanceId := componentId source,
      sourcePortName := sourcePort, targetComponentInstanceId := componentId target,
      targetPortName := targetPort }

variable {regionId revisionId : Uuid} {componentId : String → Uuid}

theorem find?_publishedComponents_of_mem
    (h : resolved.Sound D document topology inputs outputs) {name : String}
    (hname : name ∈ topology.instances.map (·.name)) :
    ∃ component, (publishedComponents regionId revisionId componentId resolved).find?
      (·.name = name) = some component ∧ component.id = componentId name := by
  obtain ⟨i, hi, rfl⟩ := h.mem_names.1 hname
  cases hfind : (publishedComponents regionId revisionId componentId resolved).find?
      (·.name = i.name) with
  | none => simpa using List.find?_eq_none.1 hfind _ (List.mem_map_of_mem hi)
  | some component =>
    obtain ⟨j, -, rfl⟩ := List.mem_map.1 (List.mem_of_find?_eq_some hfind)
    have hname : j.name = i.name := by simpa using List.find?_some hfind
    exact ⟨_, rfl, congrArg componentId hname⟩

theorem find?_publishedComponents_of_notMem
    (h : resolved.Sound D document topology inputs outputs) {name : String}
    (hname : name ∉ topology.instances.map (·.name)) :
    (publishedComponents regionId revisionId componentId resolved).find? (·.name = name) = none := by
  refine List.find?_eq_none.2 fun component hmem hfound => hname ?_
  obtain ⟨i, hi, rfl⟩ := List.mem_map.1 hmem
  exact h.mem_names.2 ⟨i, hi, by simpa using hfound⟩

/-- The row of a connection between two instances. -/
theorem TopologyConnection.row_of_mem
    (h : resolved.Sound D document topology inputs outputs) {c : TopologyConnection} {wire : Wire}
    (hends : c.ends = some wire)
    (hsource : wire.source.instanceName ∈ topology.instances.map (·.name))
    (htarget : wire.target.instanceName ∈ topology.instances.map (·.name)) :
    c.row revisionId (publishedComponents regionId revisionId componentId resolved) =
      some (publishedConnection revisionId componentId
        (wire.source.instanceName, wire.source.port, wire.target.instanceName, wire.target.port)) := by
  obtain ⟨source, hs, hsid⟩ := find?_publishedComponents_of_mem h hsource
  obtain ⟨target, ht, htid⟩ := find?_publishedComponents_of_mem h htarget
  simp only [TopologyConnection.row, hends, Option.bind_eq_bind, Option.bind_some]
  rw [hs, Option.bind_some, ht, Option.bind_some, hsid, htid]
  rfl

/-- A connection with an end that is no instance has no row. -/
theorem TopologyConnection.row_of_notMem
    (h : resolved.Sound D document topology inputs outputs) {c : TopologyConnection} {wire : Wire}
    (hends : c.ends = some wire)
    (hnone : wire.source.instanceName ∉ topology.instances.map (·.name) ∨
      wire.target.instanceName ∉ topology.instances.map (·.name)) :
    c.row revisionId (publishedComponents regionId revisionId componentId resolved) = none := by
  simp only [TopologyConnection.row, hends, Option.bind_eq_bind, Option.bind_some]
  rcases hnone with hnone | hnone <;> rw [find?_publishedComponents_of_notMem h hnone] <;> simp

/-- The row that the service persists for a connection. -/
def TopologyConnection.publishedRow (revisionId : Uuid) (componentId : String → Uuid)
    (c : TopologyConnection) : Option Connection :=
  (c.ends.bind Wire.persisted).map (publishedConnection revisionId componentId)

theorem ResolvedTopology.Sound.persisted
    (h : resolved.Sound D document topology inputs outputs) :
    resolved.wiring.persisted.map (publishedConnection revisionId componentId) =
      topology.connections.filterMap (·.publishedRow revisionId componentId) := by
  rw [h.wired.persisted, List.filterMap_filterMap, List.map_filterMap]
  rfl

theorem Wire.persisted_eq_some {wire : Wire} {ends : String × String × String × String} :
    wire.persisted = some ends ↔ wire.source.instanceName ≠ boundary ∧
      wire.target.instanceName ≠ boundary ∧
      ends = (wire.source.instanceName, wire.source.port, wire.target.instanceName,
        wire.target.port) := by
  unfold Wire.persisted
  split
  · rename_i hinternal
    simp [hinternal.1, hinternal.2, eq_comm]
  · rename_i hnot
    exact iff_of_false (by simp) fun h => hnot ⟨h.1, h.2.1⟩

theorem Wire.producedPort_eq_some {wire : Wire} {port : String} :
    wire.producedPort = some port ↔ wire.source.instanceName ≠ boundary ∧
      wire.target = ⟨boundary, port⟩ := by
  obtain ⟨source, ⟨name, targetPort⟩⟩ := wire
  unfold Wire.producedPort
  simp only [Endpoint.mk.injEq]
  split <;> simp_all

/-- Both ends of a wire that fits and is persisted are ports of instances. -/
theorem Wire.Fits.internal_of_persisted {wire : Wire} {ends : String × String × String × String}
    (h : wire.Fits resolved.instances inputs outputs) (hp : wire.persisted = some ends) :
    ∃ output input, resolvedPort resolved.instances .output wire.source = some output ∧
      resolvedPort resolved.instances .input wire.target = some input ∧
      output.schemaId = input.schemaId := by
  obtain ⟨hs, ht, -⟩ := Wire.persisted_eq_some.1 hp
  cases h with
  | ingress hsource => exact absurd hsource hs
  | egress _ htarget => exact absurd htarget ht
  | internal _ _ houtput hinput hschema => exact ⟨_, _, houtput, hinput, hschema⟩

theorem ResolvedTopology.Sound.name_mem
    (h : resolved.Sound D document topology inputs outputs) {direction : PortDirection}
    {e : Endpoint} {port : PortDefinition}
    (hport : resolvedPort resolved.instances direction e = some port) :
    e.instanceName ∈ topology.instances.map (·.name) := by
  obtain ⟨i, hi, hname, -⟩ := mem_of_resolvedPort hport
  exact h.mem_names.2 ⟨i, hi, hname⟩

/-- A resolved port is a port of the component of its instance. -/
theorem ResolvedTopology.Sound.isPort
    (h : resolved.Sound D document topology inputs outputs) {direction : PortDirection}
    {e : Endpoint} {port : PortDefinition}
    (hport : resolvedPort resolved.instances direction e = some port) :
    IsPort D (publishedComponents regionId revisionId componentId resolved) direction
      (componentId e.instanceName) e.port port := by
  obtain ⟨i, hi, hname, hmem, hport, hdirection⟩ := mem_of_resolvedPort hport
  rw [h.ports i hi, List.mem_filter, decide_eq_true_eq] at hmem
  exact ⟨hmem.1, hport, hdirection, _, List.mem_map_of_mem hi, congrArg componentId hname,
    hmem.2.symm⟩

/-- The components of two instances are not the same. -/
theorem ResolvedTopology.Sound.componentId_inj
    (h : resolved.Sound D document topology inputs outputs)
    (hids : (resolved.instances.map fun i => componentId i.name).Nodup) {name name' : String}
    (hname : name ∈ topology.instances.map (·.name))
    (hname' : name' ∈ topology.instances.map (·.name)) (heq : componentId name = componentId name') :
    name = name' := by
  obtain ⟨i, hi, rfl⟩ := h.mem_names.1 hname
  obtain ⟨j, hj, rfl⟩ := h.mem_names.1 hname'
  rw [List.inj_on_of_nodup_map hids hi hj heq]

/-- The declared connections are distinct, and so are their ends. -/
theorem ResolvedTopology.Sound.ends_nodup
    (h : resolved.Sound D document topology inputs outputs) :
    (topology.connections.filterMap (·.ends)).Nodup := by
  refine List.Nodup.filterMap (fun c c' wire hc hc' => TopologyConnection.eq_of_ends hc hc') ?_
  exact List.Nodup.of_map (·.key) (h.wired.keys ▸ h.wired.distinct)

theorem ResolvedTopology.Sound.persisted_nodup
    (h : resolved.Sound D document topology inputs outputs) : resolved.wiring.persisted.Nodup := by
  rw [h.wired.persisted]
  refine h.ends_nodup.filterMap fun wire wire' ends hw hw' => ?_
  obtain ⟨-, -, hends⟩ := Wire.persisted_eq_some.1 hw
  obtain ⟨-, -, hends'⟩ := Wire.persisted_eq_some.1 hw'
  obtain ⟨⟨_, _⟩, ⟨_, _⟩⟩ := wire
  obtain ⟨⟨_, _⟩, ⟨_, _⟩⟩ := wire'
  simp_all

theorem ResolvedTopology.Sound.mem_persisted
    (h : resolved.Sound D document topology inputs outputs)
    {ends : String × String × String × String} (hends : ends ∈ resolved.wiring.persisted) :
    ∃ c ∈ topology.connections, ∃ wire, c.ends = some wire ∧
      wire.Fits resolved.instances inputs outputs ∧ wire.persisted = some ends := by
  rw [h.wired.persisted, List.mem_filterMap] at hends
  obtain ⟨wire, hwire, hp⟩ := hends
  obtain ⟨c, hc, hcends⟩ := List.mem_filterMap.1 hwire
  obtain ⟨wire', hcends', hfits⟩ := h.wired.fits c hc
  obtain rfl := Option.some.inj (hcends.symm.trans hcends')
  exact ⟨c, hc, wire, hcends, hfits, hp⟩

/-- The rows of the connections are distinct. -/
theorem ResolvedTopology.Sound.rows_nodup
    (h : resolved.Sound D document topology inputs outputs)
    (hids : (resolved.instances.map fun i => componentId i.name).Nodup) :
    (resolved.wiring.persisted.map (publishedConnection revisionId componentId)).Nodup := by
  refine List.Nodup.map_on (fun ends hends ends' hends' heq => ?_) h.persisted_nodup
  obtain ⟨c, -, wire, -, hfits, hp⟩ := h.mem_persisted hends
  obtain ⟨c', -, wire', -, hfits', hp'⟩ := h.mem_persisted hends'
  obtain ⟨_, _, houtput, hinput, -⟩ := hfits.internal_of_persisted hp
  obtain ⟨_, _, houtput', hinput', -⟩ := hfits'.internal_of_persisted hp'
  obtain ⟨-, -, rfl⟩ := Wire.persisted_eq_some.1 hp
  obtain ⟨-, -, rfl⟩ := Wire.persisted_eq_some.1 hp'
  simp only [publishedConnection, Connection.mk.injEq, true_and] at heq
  obtain ⟨hs, hsport, ht, htport⟩ := heq
  rw [h.componentId_inj hids (h.name_mem houtput) (h.name_mem houtput') hs,
    h.componentId_inj hids (h.name_mem hinput) (h.name_mem hinput') ht, hsport, htport]

/-- The connections to an output of the region. -/
theorem ResolvedTopology.Sound.target_eq_boundary
    (h : resolved.Sound D document topology inputs outputs) {c : TopologyConnection}
    (hc : c ∈ topology.connections) {port : String} :
    c.target = endpointKey boundary port ↔
      ∃ wire, c.ends = some wire ∧ wire.producedPort = some port := by
  obtain ⟨wire, hends, hfits⟩ := h.wired.fits c hc
  have htarget := (TopologyConnection.ends_eq_some.1 hends).2
  constructor
  · intro heq
    have hdotted : Dotted (endpointKey boundary port) := heq ▸ (h.dotted c hc).2
    rw [heq, hdotted.endpoint_eq] at htarget
    have htarget := Except.ok.inj htarget
    refine ⟨wire, hends, Wire.producedPort_eq_some.2 ⟨fun hsource => ?_, htarget.symm⟩⟩
    have hboundary : wire.target.instanceName = boundary := htarget ▸ rfl
    cases hfits with
    | ingress _ hne => exact hne hboundary
    | egress hne => exact hne hsource
    | internal hne => exact hne hsource
  · rintro ⟨wire', hends', hproduced⟩
    obtain rfl := Option.some.inj (hends.symm.trans hends')
    rw [eq_endpointKey htarget, (Wire.producedPort_eq_some.1 hproduced).2]

/-- The connections to an output of the region are those counted for it. -/
theorem ResolvedTopology.Sound.count_connectedOutputs
    (h : resolved.Sound D document topology inputs outputs) (port : String) :
    topology.connections.countP (·.target = endpointKey boundary port) =
      resolved.wiring.connectedOutputs.count port := by
  rw [h.wired.produced, List.filterMap_filterMap, List.count_filterMap]
  refine List.countP_congr fun c hc => ?_
  rw [decide_eq_true_eq, h.target_eq_boundary hc]
  cases hends : c.ends <;> simp

/-- A required output is produced by one connection. -/
theorem ResolvedTopology.Sound.filter_produced
    (h : resolved.Sound D document topology inputs outputs) {output : ContractPort}
    (houtput : output ∈ document.outputs) (hrequired : output.required) :
    ∃ c, topology.connections.filter (·.target = endpointKey boundary output.port) = [c] ∧
      ∃ wire, c.ends = some wire ∧ wire.Fits resolved.instances inputs outputs ∧
        wire.producedPort = some output.port := by
  have hmem := h.required output houtput hrequired
  have hcount : (topology.connections.filter
      (·.target = endpointKey boundary output.port)).length = 1 := by
    rw [← List.countP_eq_length_filter, h.count_connectedOutputs]
    exact List.count_eq_one_of_mem h.wired.single hmem
  obtain ⟨c, hfilter⟩ := List.length_eq_one_iff.1 hcount
  have hc : c ∈ topology.connections.filter (·.target = endpointKey boundary output.port) := by
    rw [hfilter]; simp
  rw [List.mem_filter, decide_eq_true_eq] at hc
  obtain ⟨wire, hends, hproduced⟩ := (h.target_eq_boundary hc.1).1 hc.2
  obtain ⟨wire', hends', hfits⟩ := h.wired.fits c hc.1
  obtain rfl := Option.some.inj (hends.symm.trans hends')
  exact ⟨c, hfilter, wire, hends, hfits, hproduced⟩

/-- A connection that is not shadowed is persisted as its row. -/
theorem ResolvedTopology.Sound.publishedRow_eq
    (h : resolved.Sound D document topology inputs outputs) {c : TopologyConnection}
    (hc : c ∈ topology.connections) (hnot : ¬topology.Shadowed c) :
    c.publishedRow revisionId componentId =
      c.row revisionId (publishedComponents regionId revisionId componentId resolved) := by
  obtain ⟨wire, hends, hfits⟩ := h.wired.fits c hc
  have hrow : c.publishedRow revisionId componentId =
      wire.persisted.map (publishedConnection revisionId componentId) := by
    rw [TopologyConnection.publishedRow, hends]
    rfl
  rw [hrow]
  cases hfits with
  | ingress hsource htarget hport =>
    have hnone : wire.source.instanceName ∉ topology.instances.map (·.name) := fun hmem =>
      hnot ⟨wire, hends, hmem, h.name_mem hport, .inl hsource⟩
    rw [TopologyConnection.row_of_notMem h hends (.inl hnone), Wire.persisted,
      if_neg fun hp => hp.1 hsource]
    rfl
  | egress hsource htarget hport =>
    have hnone : wire.target.instanceName ∉ topology.instances.map (·.name) := fun hmem =>
      hnot ⟨wire, hends, h.name_mem hport, hmem, .inr htarget⟩
    rw [TopologyConnection.row_of_notMem h hends (.inr hnone), Wire.persisted,
      if_neg fun hp => hp.2 htarget]
    rfl
  | internal hsource htarget houtput hinput =>
    rw [TopologyConnection.row_of_mem h hends (h.name_mem houtput) (h.name_mem hinput),
      Wire.persisted, if_pos ⟨hsource, htarget⟩]
    rfl

/-- A shadowed connection has a row that is not persisted. -/
theorem ResolvedTopology.Sound.row_notMem_of_shadowed
    (h : resolved.Sound D document topology inputs outputs)
    (hids : (resolved.instances.map fun i => componentId i.name).Nodup) {c : TopologyConnection}
    (hshadowed : topology.Shadowed c) :
    ∃ row, c.row revisionId (publishedComponents regionId revisionId componentId resolved) =
      some row ∧ row ∉ resolved.wiring.persisted.map (publishedConnection revisionId componentId) := by
  obtain ⟨wire, hends, hsource, htarget, hboundary⟩ := hshadowed
  refine ⟨_, TopologyConnection.row_of_mem h hends hsource htarget, fun hmem => ?_⟩
  obtain ⟨ends, hp, heq⟩ := List.mem_map.1 hmem
  obtain ⟨c', -, wire', -, hfits, hp⟩ := h.mem_persisted hp
  obtain ⟨_, _, houtput, hinput, -⟩ := hfits.internal_of_persisted hp
  obtain ⟨hs, ht, rfl⟩ := Wire.persisted_eq_some.1 hp
  simp only [publishedConnection, Connection.mk.injEq, true_and] at heq
  obtain ⟨hsid, -, htid, -⟩ := heq
  rcases hboundary with hboundary | hboundary
  · exact hs ((h.componentId_inj hids (h.name_mem houtput) hsource hsid).trans hboundary)
  · exact ht ((h.componentId_inj hids (h.name_mem hinput) htarget htid).trans hboundary)

/-- What a resolved topology is published as is well formed where no connection is shadowed. -/
theorem ResolvedTopology.Sound.wellFormed_iff
    (h : resolved.Sound D document topology inputs outputs)
    (hids : (resolved.instances.map fun i => componentId i.name).Nodup)
    (revision : PublishedRevision) :
    WellFormedTopology D document topology revision
        (publishedComponents regionId revision.id componentId resolved)
        (resolved.wiring.persisted.map (publishedConnection revision.id componentId)) ↔
      ∀ c ∈ topology.connections, ¬topology.Shadowed c := by
  constructor
  · intro hformed c hc hshadowed
    obtain ⟨row, hrow, hnone⟩ := h.row_notMem_of_shadowed hids hshadowed
    exact hnone (hformed.connections.mem_iff.2 (List.mem_filterMap.2 ⟨c, hc, hrow⟩))
  · intro hnot
    refine ⟨?_, ?_, h.rows_nodup hids, fun row hrow => ?_, fun output houtput hrequired => ?_⟩
    · simp [publishedComponents, ← h.names]
    · rw [h.persisted, List.filterMap_congr fun c hc => h.publishedRow_eq hc (hnot c hc)]
    · obtain ⟨ends, hends, rfl⟩ := List.mem_map.1 hrow
      obtain ⟨c, -, wire, -, hfits, hp⟩ := h.mem_persisted hends
      obtain ⟨output, input, houtput, hinput, hschema⟩ := hfits.internal_of_persisted hp
      obtain ⟨-, -, rfl⟩ := Wire.persisted_eq_some.1 hp
      exact ⟨output, input, h.isPort houtput, h.isPort hinput, hschema⟩
    · obtain ⟨c, hfilter, wire, hends, hfits, hproduced⟩ := h.filter_produced houtput hrequired
      obtain ⟨hsource, htarget⟩ := Wire.producedPort_eq_some.1 hproduced
      refine ⟨c, hfilter, wire.source, (TopologyConnection.ends_eq_some.1 hends).1, ?_⟩
      cases hfits with
      | ingress hboundary => exact absurd hboundary hsource
      | internal _ hne => exact absurd (congrArg Endpoint.instanceName htarget) hne
      | @egress port _ _ hport =>
        obtain ⟨i, hi, hname, -⟩ := mem_of_resolvedPort hport
        exact ⟨_, List.mem_map_of_mem hi, hname, port, hname ▸ h.isPort hport⟩

end

/-! ## Calls -/

variable {E : TemplateChecks} {D : Definitions} {requestDigest : InstantiationContent → Digest}
  {deterministicRequestId : Digest → Uuid} {s t : TemplateService} {l : TemplateLabel}

/-- The rows of a call have no topology, or the one its request resolves to. -/
inductive HoldsTopology (T : Templates) (request : InstantiationRequest) (own : TemplateRows) : Prop
  | none (hrevisions : own.revisions = []) (hcomponents : own.components = [])
      (hconnections : own.connections = []) : HoldsTopology T request own
  | whole {resolution : Resolution} {revisionId : Uuid} {componentId : String → Uuid}
      {topology : TemplateRows} (hresolve : T.resolve request.content = .ok resolution)
      (htopology : topology = topologyRows request.content.targetRegionId revisionId componentId
        resolution)
      (hids : (resolution.instances.map fun i => componentId i.name).Nodup)
      (hrevisions : own.revisions = topology.revisions)
      (hcomponents : own.components = topology.components)
      (hconnections : own.connections = topology.connections) : HoldsTopology T request own

/-- Other rows make no difference. -/
theorem HoldsTopology.append {T : Templates} {request : InstantiationRequest}
    {own delta : TemplateRows} (h : HoldsTopology T request own) (hrevisions : delta.revisions = [])
    (hcomponents : delta.components = []) (hconnections : delta.connections = []) :
    HoldsTopology T request (own.append delta) := by
  cases h with
  | none hr hc hn =>
    exact .none (by simp [TemplateRows.append, hr, hrevisions])
      (by simp [TemplateRows.append, hc, hcomponents])
      (by simp [TemplateRows.append, hn, hconnections])
  | whole hresolve htopology hids hr hc hn =>
    exact .whole hresolve htopology hids (by simp [TemplateRows.append, hr, hrevisions])
      (by simp [TemplateRows.append, hc, hcomponents])
      (by simp [TemplateRows.append, hn, hconnections])

/-- A turn of `publishInitialStates` writes no topology. -/
theorem connections_of_publishInitialState {owner : StateOwner} {artifactId : Uuid}
    {state : InitialState} {rows delta : TemplateRows}
    (h : publishInitialState owner artifactId state rows = .ok delta) : delta.connections = [] := by
  unfold publishInitialState at h
  split at h
  · simp at h
  · obtain ⟨⟨⟩, -, h⟩ := Except.bind_eq_ok.1 h
    obtain ⟨⟨⟩, -, h⟩ := Except.bind_eq_ok.1 h
    obtain ⟨⟨⟩, -, h⟩ := Except.bind_eq_ok.1 h
    obtain rfl := (Except.ok.inj h).symm
    rfl

/-- A statement of a call keeps what holds of the others. -/
theorem forall_calls_replace {P : TemplateCall → Prop} {c c' : TemplateCall}
    {calls pre post : List TemplateCall} (h : ∀ d ∈ calls, P d) (hmem : calls = pre ++ c :: post)
    (hc' : P c') : ∀ d ∈ pre ++ c' :: post, P d := by
  subst hmem
  intro d hd
  rcases List.mem_append.1 hd with hd | hd
  · exact h d (by simp [hd])
  · rcases List.mem_cons.1 hd with rfl | hd
    · exact hc'
    · exact h d (by simp [hd])

theorem TemplateStep.holdsTopology {T : Templates} (hsound : s.Sound T)
    (h : ∀ c ∈ s.calls, HoldsTopology T c.request c.own) (hstep : TemplateStep T s l t) :
    ∀ c ∈ t.calls, HoldsTopology T c.request c.own := by
  cases hstep with
  | call =>
    intro c hc
    rcases List.mem_cons.1 hc with rfl | hc
    · exact .none rfl rfl rfl
    · exact h c hc
  | @find c pre post _ hmem =>
    exact forall_calls_replace h hmem (h c (by simp [hmem]))
  | @readActive c pre post _ _ _ _ hmem =>
    exact forall_calls_replace h hmem (h c (by simp [hmem]))
  | @readInactive c pre post _ _ hmem =>
    exact forall_calls_replace h hmem (h c (by simp [hmem]))
  | @createTopology c pre post existing resolution revisionId componentId hmem hphase hkeys hwait hid
      hids hdistinct =>
    refine forall_calls_replace h hmem ?_
    have hc := hsound.calls c (by simp [hmem])
    obtain ⟨request, retried, phase, own⟩ := c
    obtain rfl : phase = .inactive existing resolution := hphase
    cases hc with
    | inactive _ hresolve => exact .whole hresolve rfl hdistinct rfl rfl rfl
  | @compare c pre post _ _ _ hmem =>
    exact forall_calls_replace h hmem (h c (by simp [hmem]))
  | @record c pre post _ _ _ hmem =>
    exact forall_calls_replace h hmem ((h c (by simp [hmem])).append rfl rfl rfl)
  | @publish c pre post _ _ _ _ _ _ hmem _ _ hop =>
    have hstate := publishInitialState_eq_ok hop
    exact forall_calls_replace h hmem ((h c (by simp [hmem])).append hstate.revisions
      hstate.components (connections_of_publishInitialState hop))
  | commit hmem => exact fun d hd => h d (mem_calls_left hmem hd)
  | fail hmem => exact fun d hd => h d (mem_calls_left hmem hd)
  | retry hmem => exact forall_calls_replace h hmem (.none rfl rfl rfl)

theorem reachable_holdsTopology {T : Templates} (h : (templateService T).Reachable s) :
    ∀ c ∈ s.calls, HoldsTopology T c.request c.own := by
  refine h.invariant_of (I := fun s => ∀ c ∈ s.calls, HoldsTopology T c.request c.own)
    (fun s (hs : s.Initial) => by simp [hs.calls])
    fun s l t hreach h hstep => TemplateStep.holdsTopology (reachable_templateService hreach) h hstep

/-- For every run of instantiations, a step changes no topology, or it publishes one whole, which is
well formed if and only if none of the connections between its instances is of one with the name
`region`. -/
theorem instantiation_well_formed
    (h : (templateService (instantiationTemplates E D requestDigest deterministicRequestId)).Reachable
      s)
    (hstep : (templateService (instantiationTemplates E D requestDigest deterministicRequestId)).step
      s l t) : TopologyEffect E D s.rows t.rows l := by
  have hcalls := reachable_holdsTopology h
  have hstep : TemplateStep _ s l t := hstep
  cases hstep with
  | @commit c pre post owner result hmem hphase =>
    cases hcalls c (by simp [hmem]) with
    | none hrevisions hcomponents hconnections =>
      exact .unchanged (by simp [TemplateRows.append, hrevisions])
        (by simp [TemplateRows.append, hcomponents]) (by simp [TemplateRows.append, hconnections])
    | @whole resolution revisionId componentId _ hresolve htopology hids hrevisions hcomponents
        hconnections =>
      subst htopology
      obtain ⟨template, htemplate, hresolve⟩ := Except.bind_eq_ok.1 hresolve
      cases htopology : template.document.initialTopology with
      | none => simp [htopology] at hresolve
      | some topology =>
        rw [htopology] at hresolve
        obtain ⟨initialStates, -, hresolve⟩ := Except.bind_eq_ok.1 hresolve
        obtain ⟨⟨⟩, -, hresolve⟩ := Except.bind_eq_ok.1 hresolve
        obtain ⟨resolved, hresolved, hresolve⟩ := Except.bind_eq_ok.1 hresolve
        obtain ⟨inputs, outputs, hsound⟩ := resolveWiring_eq_ok hresolved
        obtain rfl := Except.ok.inj hresolve
        rw [List.map_map] at hids
        simp only [topologyRows, List.map_map] at hrevisions hcomponents hconnections
        refine .published htemplate htopology ?_ (by rw [TemplateRows.append, hrevisions])
          (by rw [TemplateRows.append, hcomponents]) (by rw [TemplateRows.append, hconnections]) ?_
        · rfl
        · exact hsound.wellFormed_iff hids _
  | _ => exact .unchanged rfl rfl rfl

/-- A component with an output and an input, and a template with an instance of it that is called
`region`. -/
def pumpDefinitions : Definitions where
  templates := [{ id := 1, name := "plant", version := "1", retired := false
                  document :=
                    { inputs := [⟨"out", .naturalKey "item" "1", true⟩], outputs := []
                      completionSchema := none, policies := [], capabilities := []
                      allowedComponents := none, specFanIn := none, fanIn := none
                      initialTopology := some
                        { instances := [⟨"region", "pump@1"⟩, ⟨"sink", "pump@1"⟩]
                          connections := [⟨"region.out", "sink.in"⟩], ingressCommands := [] } } }]
  components := [⟨400, "pump", "1", false⟩]
  ports := [⟨400, "in", .input, 500, true⟩, ⟨400, "out", .output, 500, true⟩]
  schemas := [⟨500, "item", "1", false⟩]
  policies := []
  capabilities := []

def pumpChecks : TemplateChecks where
  coerce _ := none
  notAfter _ _ := true
  parameters _ _ := .ok ()
  initialStates _ _ := .ok []
  digest content _ := content.targetRegionId

def pumpTemplates : Templates :=
  instantiationTemplates pumpChecks pumpDefinitions (·.targetRegionId) id

/-- The template for the region of `sampleRegions`. -/
def pumpRequest : InstantiationRequest :=
  ⟨some 7, 100, "plant@1", .null, .null, .null⟩

/-- The request is answered, and nothing is connected. -/
theorem pump_committed : ∃ s, (templateService pumpTemplates).Reachable s ∧ s.rows = .nil ∧
    ∃ l t, (templateService pumpTemplates).step s l t ∧ (∃ result, l = .commit pumpRequest result) ∧
    t.rows.components = [⟨300, 100, 200, 400, "region"⟩, ⟨298, 100, 200, 400, "sink"⟩] ∧
    t.rows.connections = [] := by
  have hstart : (templateService pumpTemplates).Reachable sampleRegions :=
    .start ⟨List.nodup_nil, List.nodup_nil, List.nodup_nil, by simp [ActiveRevisions, sampleRegions],
      rfl, rfl, rfl⟩
  have hread := ((hstart.next (@TemplateStep.call _ _ pumpRequest)).next
    (@TemplateStep.find _ _ _ [] [] none rfl rfl rfl rfl)).next
    (@TemplateStep.readInactive _ _ _ [] [] none _ rfl rfl rfl rfl rfl)
  have hcreated := hread.next
    (@TemplateStep.createTopology _ _ _ [] [] none _ 200 (fun name => 294 + name.length) rfl rfl rfl
      (by decide) ⟨by decide, by decide⟩
      (fun _ _ => ⟨by simp [sampleRegions, TemplateRows.nil], by simp [TemplateRows.nil]⟩) (by decide))
  have hrecorded := hcreated.next
    (@TemplateStep.record _ _ _ [] [] _ _ 600 rfl rfl rfl (by decide) ⟨by decide, by decide⟩)
  exact ⟨_, hrecorded, rfl, _, _, @TemplateStep.commit _ _ _ [] [] _ _ rfl rfl, ⟨_, rfl⟩, rfl, rfl⟩

theorem instantiation_well_formed_pump : ∃ (s t : TemplateService) (l : TemplateLabel),
    (∃ result, l = .commit pumpRequest result) ∧ t.rows.components.length = 2 ∧
    TopologyEffect pumpChecks pumpDefinitions s.rows t.rows l := by
  obtain ⟨s, hreach, -, l, t, hstep, hl, hcomponents, -⟩ := pump_committed
  exact ⟨s, t, l, hl, by rw [hcomponents]; rfl, instantiation_well_formed hreach hstep⟩

/-- The template connects `region.out` to `sink.in`. -/
theorem instantiation_drops_connection : ∃ s, (templateService pumpTemplates).Reachable s ∧
    s.rows = .nil ∧ ∃ l t, (templateService pumpTemplates).step s l t ∧
    (∃ result, l = .commit pumpRequest result) ∧ ∃ template topology,
      findTemplate pumpDefinitions pumpRequest.content.template = .ok template ∧
      template.document.initialTopology = some topology ∧ ∀ revision,
        ¬WellFormedTopology pumpDefinitions template.document topology revision t.rows.components
          t.rows.connections := by
  obtain ⟨s, hreach, hnil, l, t, hstep, hl, hcomponents, hconnections⟩ := pump_committed
  refine ⟨s, hreach, hnil, l, t, hstep, hl, _, _, rfl, rfl, fun revision hformed => ?_⟩
  rw [hcomponents, hconnections] at hformed
  have hrow : (⟨"region.out", "sink.in"⟩ : TopologyConnection).row revision.id
      [⟨300, 100, 200, 400, "region"⟩, ⟨298, 100, 200, 400, "sink"⟩] =
      some ⟨revision.id, 300, "out", 298, "in"⟩ := rfl
  have hmem := hformed.connections.mem_iff.2
    (List.mem_filterMap.2 ⟨_, List.mem_singleton_self _, hrow⟩)
  simp at hmem

end FactoryFloor
