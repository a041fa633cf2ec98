import FactoryFloor.CanonicalJson
import FactoryFloor.CodePoints
import FactoryFloor.InstantiatedTopologies
import FactoryFloor.StateHistory
import FactoryFloor.TemplateParameters

/-!
# Initial states

The resolver takes the initial state that an instance of a template declares, finds the state port of
the component and its schema, replaces the references to parameters, and validates the value. What it
resolves is published into the region as a committed artifact with an inline payload, and a version
of the component with the number one.

An artifact has one schema, and its digest is taken of the canonical text of the value. So a state
agrees with what is stored under its digest, and with the other states that have it, or it is
refused. States that agree are published (`initial_states_published`), each as the only version of
its component.

Documents are taken as parsed. The validation of a value by its schema is a parameter. A payload is
read as it was written, up to the order of keys.
-/

namespace FactoryFloor

open JsonText Relational

namespace InitialStates

/-! ## Values with parameters -/

section Bind

variable {parameter : Utf16 → Except Thrown JsValue}

theorem isJson_bindItems {items ws : List JsValue}
    (h : ∀ item ∈ items, ∀ w, bindWith parameter item = .ok w → IsJson w)
    (hws : bindItems parameter items = .ok ws) : ∀ w ∈ ws, IsJson w := by
  induction items generalizing ws with
  | nil =>
    obtain rfl := Except.ok.inj hws
    simp
  | cons item items ih =>
    obtain ⟨w, hw, hws⟩ := Except.bind_eq_ok.1 hws
    obtain ⟨rest, hrest, hws⟩ := Except.bind_eq_ok.1 hws
    obtain rfl := Except.ok.inj hws
    obtain ⟨hitem, hitems⟩ := List.forall_mem_cons.1 h
    exact List.forall_mem_cons.2 ⟨hitem w hw, ih hitems hrest⟩

theorem isJson_bindMembers {members ws : List (Utf16 × JsValue)}
    (h : ∀ m ∈ members, ∀ w, bindWith parameter m.2 = .ok w → IsJson w)
    (hws : bindMembers parameter members = .ok ws) :
    ws.map Prod.fst = members.map Prod.fst ∧ ∀ w ∈ ws, IsJson w.2 := by
  induction members generalizing ws with
  | nil =>
    obtain rfl := Except.ok.inj hws
    simp
  | cons m members ih =>
    obtain ⟨w, hw, hws⟩ := Except.bind_eq_ok.1 hws
    obtain ⟨rest, hrest, hws⟩ := Except.bind_eq_ok.1 hws
    obtain rfl := Except.ok.inj hws
    obtain ⟨hm, hmembers⟩ := List.forall_mem_cons.1 h
    obtain ⟨hkeys, hvalues⟩ := ih hmembers hrest
    exact ⟨by simp [hkeys], List.forall_mem_cons.2 ⟨hm w hw, hvalues⟩⟩

/-- A JSON value with its references replaced by JSON values is one. -/
theorem isJson_bindWith {v w : JsValue}
    (hparameter : ∀ path w, parameter path = .ok w → IsJson w) (hv : IsJson v)
    (h : bindWith parameter v = .ok w) : IsJson w := by
  induction hv generalizing w with
  | null | bool | num | str =>
    obtain rfl := Except.ok.inj h
    constructor
  | @arr items hitems ih =>
    rw [bindWith] at h
    obtain ⟨ws, hws, h⟩ := Except.bind_eq_ok.1 h
    obtain rfl := Except.ok.inj h
    exact .arr (isJson_bindItems (fun item hitem w hw => ih item hitem hw) hws)
  | @obj members hkeys hmembers ih =>
    rw [bindWith] at h
    cases hpath : referencedPath members with
    | some path =>
      rw [hpath] at h
      exact hparameter path w h
    | none =>
      rw [hpath] at h
      obtain ⟨ws, hws, h⟩ := Except.bind_eq_ok.1 h
      obtain rfl := Except.ok.inj h
      obtain ⟨hsame, hvalues⟩ := isJson_bindMembers (fun m hm w hw => ih m hm hw) hws
      have hperm := defineMembers_perm (by rwa [hsame] : (ws.map Prod.fst).Nodup)
      exact .obj ((hperm.map Prod.fst).nodup_iff.2 (by rwa [hsame]))
        fun m hm => hvalues m (hperm.mem_iff.1 hm)

end Bind

/-- What a path of JSON parameters names, cloned. -/
theorem isJson_parameter (parameters : JsonObject) (path : Utf16) (w : JsValue)
    (h : (do structuredClone (← parameterValue parameters.1 path) : Except Thrown JsValue) = .ok w) :
    IsJson w := by
  obtain ⟨found, hfound, h⟩ := Except.bind_eq_ok.1 h
  have hjson : ∀ v, found = .value v → IsJson v := by
    refine Except.foldlM_invariant (I := fun found => ∀ v, found = .value v → IsJson v)
      (fun found part found' _ hjson hstep v hv => ?_) ?_ hfound
    · subst hv
      rw [followPart] at hstep
      split at hstep
      · rename_i found'' hread
        obtain rfl := Except.ok.inj hstep
        unfold readProperty at hread
        split at hread
        · rename_i members name
          split at hread
          · rename_i v' hlookup
            obtain rfl := Found.value.inj (Option.some.inj hread)
            cases hjson _ rfl with
            | obj hkeys hmembers =>
              exact hmembers _ ((perm_omitMember hkeys hlookup).mem_iff.2 List.mem_cons_self)
          · split at hread
            · cases hread
            · split at hread <;> cases hread
        · split at hread
          · obtain rfl := Found.value.inj (Option.some.inj hread)
            exact .null
          · split at hread <;> cases hread
        · cases hread
      · cases hstep
    · rintro v hv
      obtain rfl := Found.value.inj hv
      exact parameters.2
  cases found with
  | value v =>
    obtain rfl := Except.ok.inj h
    exact hjson _ rfl
  | method => cases h
  | prototype =>
    obtain rfl := Except.ok.inj h
    exact .obj List.nodup_nil (by simp)

/-- The error of a runtime service. -/
def thrown : Thrown → RuntimeError
  | .domain code _ => .request code
  | .other errorClass => .thrown errorClass

/-- `bindParameters` of JSON. -/
def bindJson (value : JsonValue) (parameters : JsonObject) : Outcome JsonValue :=
  match h : TemplateInitialStateResolver.bindParameters value.1 parameters.1 with
  | .ok v => .ok ⟨v, isJson_bindWith (isJson_parameter parameters) value.2 h⟩
  | .error e => .error (thrown e)

/-! ## The resolver -/

/-- The definitions that the resolver reads. -/
structure StateDefinitions extends Definitions where
  /-- `initialState` of an instance, by the id of its template and its name. A validated template names
  its instances uniquely. -/
  initialState : Uuid → String → Option JsonValue
  /-- The validation of a value by a schema. -/
  validate : Uuid → JsValue → Outcome Unit

structure ResolvedTemplateInitialState where
  componentInstanceName : String
  portName : String
  schemaId : Uuid
  value : JsonValue

/-- A member of a JSON value. -/
def member? (value : JsonValue) (name : String) : Option JsonValue :=
  match h : property? value.1 name with
  | some v => some ⟨v, by
      obtain ⟨value, hvalue⟩ := value
      cases hvalue with
      | obj hkeys hmembers =>
        exact hmembers _ ((perm_omitMember hkeys h).mem_iff.2 List.mem_cons_self)
      | _ => cases h⟩
  | none => none

/-- `initialStateDeclaration` of an instance that declares one. -/
def initialStateDeclaration (declaration : JsonValue) : Outcome (Utf16 × JsonValue) :=
  match member? declaration "port" with
  | some ⟨.str port, _⟩ => do
    require (!isBlankText port) invalidDeclaration
    match member? declaration "value" with
    | some value => return (port, value)
    | none => .error invalidDeclaration
  | _ => .error invalidDeclaration

/-- One turn of the loop over the instances. -/
def resolveInstance (S : StateDefinitions) (templateId : Uuid) (parameters : JsonObject)
    (i : InstanceDeclaration) : Outcome (Option ResolvedTemplateInitialState) :=
  match S.initialState templateId i.name with
  | none => return none
  | some declaration => do
    let (port, body) ← initialStateDeclaration declaration
    requireNonEmptyString i.name
    requireNonEmptyString i.component
    let component ← findDefinition "component_definition" S.components (← parseRef i.component)
    let statePort ← requirePort (S.ports.find? fun p =>
      p.componentDefinitionId = component.id && p.direction = .state && utf16 p.name.toList = port)
    match S.schemas.find? (·.id = statePort.schemaId) with
    | none => .error (.request "artifact_schema_not_found")
    | some schema => do
      require (!schema.retired) (.request "artifact_schema_retired")
      let value ← bindJson body parameters
      S.validate schema.id value.1
      return some { componentInstanceName := i.name, portName := statePort.name,
                    schemaId := schema.id, value }

/-- `resolve`. -/
def resolve (S : StateDefinitions) (reference : String) (parameters : JsonObject) :
    Outcome (List ResolvedTemplateInitialState) := do
  requireNonEmptyString reference
  let template ← findTemplate S.toDefinitions reference
  match template.document.initialTopology with
  | none => return []
  | some topology =>
    validateStaticTopology topology
    return (← topology.instances.mapM (resolveInstance S template.id parameters)).filterMap id

theorem resolveInstance_name {S : StateDefinitions} {templateId : Uuid} {parameters : JsonObject}
    {i : InstanceDeclaration} {state : ResolvedTemplateInitialState}
    (h : resolveInstance S templateId parameters i = .ok (some state)) :
    state.componentInstanceName = i.name := by
  unfold resolveInstance at h
  split at h
  · cases h
  · obtain ⟨⟨port, body⟩, -, h⟩ := Except.bind_eq_ok.1 h
    obtain ⟨⟨⟩, -, h⟩ := Except.bind_eq_ok.1 h
    obtain ⟨⟨⟩, -, h⟩ := Except.bind_eq_ok.1 h
    obtain ⟨reference, -, h⟩ := Except.bind_eq_ok.1 h
    obtain ⟨component, -, h⟩ := Except.bind_eq_ok.1 h
    obtain ⟨statePort, -, h⟩ := Except.bind_eq_ok.1 h
    split at h
    · cases h
    · obtain ⟨⟨⟩, -, h⟩ := Except.bind_eq_ok.1 h
      obtain ⟨value, -, h⟩ := Except.bind_eq_ok.1 h
      obtain ⟨⟨⟩, -, h⟩ := Except.bind_eq_ok.1 h
      obtain rfl := Option.some.inj (Except.ok.inj h)
      rfl

/-- The states are those of some of the instances, in order. -/
theorem resolveInstances_names {S : StateDefinitions} {templateId : Uuid} {parameters : JsonObject}
    {instances : List InstanceDeclaration} {found : List (Option ResolvedTemplateInitialState)}
    (h : List.Forall₂ (fun i state => resolveInstance S templateId parameters i = .ok state)
      instances found) :
    ((found.filterMap id).map (·.componentInstanceName)).Sublist (instances.map (·.name)) := by
  induction h with
  | nil => exact List.Sublist.refl _
  | @cons i state instances found hstate _ ih =>
    cases state with
    | none => exact ih.cons _
    | some state =>
      rw [List.filterMap_cons_some (f := id) rfl, List.map_cons, List.map_cons, resolveInstance_name hstate]
      exact ih.cons_cons _

theorem resolve_names {S : StateDefinitions} {reference : String} {parameters : JsonObject}
    {states : List ResolvedTemplateInitialState}
    (h : resolve S reference parameters = .ok states) : ∃ template,
      findTemplate S.toDefinitions reference = .ok template ∧
      ∀ topology, template.document.initialTopology = some topology →
        (states.map (·.componentInstanceName)).Sublist (topology.instances.map (·.name)) := by
  obtain ⟨⟨⟩, -, h⟩ := Except.bind_eq_ok.1 h
  obtain ⟨template, htemplate, h⟩ := Except.bind_eq_ok.1 h
  refine ⟨template, htemplate, fun topology htopology => ?_⟩
  rw [htopology] at h
  obtain ⟨⟨⟩, -, h⟩ := Except.bind_eq_ok.1 h
  obtain ⟨found, hfound, h⟩ := Except.bind_eq_ok.1 h
  obtain rfl := Except.ok.inj h
  exact resolveInstances_names (Except.mapM_eq_ok hfound)

/-! ## Publication -/

/-- The canonical text of a value. -/
def canonicalText (value : JsonValue) : Utf16 :=
  (canonicalizeJson value.1).get (by rw [canonicalizeJson_eq value.2]; rfl)

/-- A text as a string. -/
def string (text : Utf16) : String :=
  String.ofList ((points text).map scalar)

/-- The bytes that an artifact of a value has. -/
def canonicalBytes (value : JsonValue) : List UInt8 :=
  encodeText (canonicalText value)

theorem canonicalText_congr {v w : JsonValue} (h : Same v.1 w.1) :
    canonicalText v = canonicalText w := by
  simp only [canonicalText, canonicalizeJson_eq v.2, canonicalizeJson_eq w.2, Option.get_some,
    toTree_norm_congr v.2 w.2 h]

theorem canonicalBytes_congr {v w : JsonValue} (h : Same v.1 w.1) :
    canonicalBytes v = canonicalBytes w :=
  congrArg encodeText (canonicalText_congr h)

/-- A row of `artifact_inline_payloads`. -/
structure StoredPayload where
  artifactId : Uuid
  payload : JsonValue
  canonicalSizeBytes : ℕ

/-- The row, with the canonical text of its payload. -/
def StoredPayload.inline (p : StoredPayload) : InlinePayload :=
  ⟨p.artifactId, string (canonicalText p.payload), p.canonicalSizeBytes⟩

/-- The tables, with the payloads themselves. -/
structure StateRows where
  rows : TemplateRows
  stored : List StoredPayload
  agree : rows.inlinePayloads = stored.map StoredPayload.inline

namespace StateRows

/-- `lockArtifactByDigest`. -/
def artifact? (w : StateRows) (digest : Digest) : Option Artifact :=
  w.rows.artifacts.find? (·.digest = digest)

/-- The inline payload of an artifact. -/
def payload? (w : StateRows) (artifactId : Uuid) : Option StoredPayload :=
  w.stored.find? (·.artifactId = artifactId)

end StateRows

section Publication

variable (P : Platform) (ids : DrawnIds) (owner : StateOwner)

/-- What is published of a state. -/
def ResolvedTemplateInitialState.initialState (state : ResolvedTemplateInitialState) :
    InitialState where
  componentName := state.componentInstanceName
  portName := state.portName
  schemaId := state.schemaId
  canonical := string (canonicalText state.value)
  digest := P.sha256 (canonicalBytes state.value)
  sizeBytes := (canonicalBytes state.value).length

/-- `canonicalJsonDigest` of a state. -/
abbrev ResolvedTemplateInitialState.digest (state : ResolvedTemplateInitialState) : Digest :=
  (state.initialState P).digest

theorem publishInitialState_inline {artifactId : Uuid} {state : InitialState}
    {rows delta : TemplateRows} (h : publishInitialState owner artifactId state rows = .ok delta) :
    ∀ p ∈ delta.inlinePayloads, p.canonical = state.canonical := by
  unfold publishInitialState at h
  split at h
  · cases h
  · obtain ⟨⟨⟩, -, h⟩ := Except.bind_eq_ok.1 h
    obtain ⟨⟨⟩, -, h⟩ := Except.bind_eq_ok.1 h
    obtain ⟨⟨⟩, -, h⟩ := Except.bind_eq_ok.1 h
    obtain rfl := Except.ok.inj h
    intro p hp
    rw [mem_findOrInsert hp]

/-- One turn of `publishInitialStates`. -/
def StateRows.publish (w : StateRows) (state : ResolvedTemplateInitialState) : Outcome StateRows :=
  match h : publishInitialState owner (ids.artifactId (state.digest P)) (state.initialState P)
      w.rows with
  | .error e => .error e
  | .ok delta => .ok
    { rows := w.rows.append delta
      stored := w.stored ++ delta.inlinePayloads.map fun p =>
        ⟨p.artifactId, state.value, p.canonicalSizeBytes⟩
      agree := by
        rw [List.map_append, List.map_map, TemplateRows.append, w.agree]
        refine congrArg _ (Eq.trans (List.map_id _).symm (List.map_congr_left fun p hp => ?_))
        exact congrArg (InlinePayload.mk p.artifactId · p.canonicalSizeBytes)
          (publishInitialState_inline owner h p hp) }

/-- `publishInitialStates`. -/
def publishStates (w : StateRows) (states : List ResolvedTemplateInitialState) : Outcome StateRows :=
  states.foldlM (StateRows.publish P ids owner) w

/-! ## One state -/

/-- The artifact that a state is inserted as. -/
def ResolvedTemplateInitialState.newArtifact (state : ResolvedTemplateInitialState) : Artifact where
  id := ids.artifactId (state.digest P)
  digest := state.digest P
  sizeBytes := (canonicalBytes state.value).length
  schemaId := state.schemaId
  state := .committed
  mediaType := "application/json"

namespace StateRows

/-- The artifact of a state, and the artifacts that are inserted for it. -/
def stateArtifact (w : StateRows) (state : ResolvedTemplateInitialState) :
    Artifact × List Artifact :=
  findOrInsert (fun a => a.digest = (state.newArtifact P ids).digest) (state.newArtifact P ids)
    w.rows.artifacts

/-- The payload that a state is inserted as. -/
def newPayload (w : StateRows) (state : ResolvedTemplateInitialState) : StoredPayload :=
  ⟨(w.stateArtifact P ids state).1.id, state.value, (canonicalBytes state.value).length⟩

/-- The payload of a state, and the payloads that are inserted for it. -/
def statePayload (w : StateRows) (state : ResolvedTemplateInitialState) :
    StoredPayload × List StoredPayload :=
  findOrInsert (fun p => p.artifactId = (w.newPayload P ids state).artifactId)
    (w.newPayload P ids state) w.stored

end StateRows

/-- `assertArtifactIdentity` passes. -/
def HasIdentity (state : ResolvedTemplateInitialState) (a : Artifact) : Prop :=
  a.schemaId = state.schemaId ∧ a.mediaType = "application/json" ∧
    a.sizeBytes = (canonicalBytes state.value).length ∧ a.state = .committed

/-- Whether what is stored is that of a state. -/
structure Accepts (w : StateRows) (state : ResolvedTemplateInitialState) : Prop where
  identity : HasIdentity state (w.stateArtifact P ids state).1
  canonical : string (canonicalText (w.statePayload P ids state).1.payload) =
    string (canonicalText state.value)
  size : (w.statePayload P ids state).1.canonicalSizeBytes = (canonicalBytes state.value).length

/-- The component of a state is there, without versions, and so is the instantiation. -/
structure Ready (w : StateRows) (state : ResolvedTemplateInitialState)
    (component : ComponentInstance) : Prop where
  found : w.rows.components.find? (fun c => c.topologyRevisionId = owner.topologyRevisionId &&
    c.name = state.componentInstanceName) = some component
  versions : ∀ v ∈ w.rows.stateVersions, v.componentInstanceId ≠ component.id
  instantiation : w.rows.instantiations.any fun i =>
    i.id = owner.instantiationId && i.templateId = owner.templateId

/-- The first version of a component. -/
def firstVersion (state : ResolvedTemplateInitialState) (componentInstanceId artifactId : Uuid) :
    ComponentStateVersion where
  componentInstanceId := componentInstanceId
  statePortName := state.portName
  versionNumber := 1
  artifactId := artifactId
  schemaId := state.schemaId
  source := .templateInstantiation owner.instantiationId

/-- What is inserted for a state. -/
structure Turn (w : StateRows) (state : ResolvedTemplateInitialState) (component : ComponentInstance)
    (w' : StateRows) : Prop where
  components : w'.rows.components = w.rows.components
  instantiations : w'.rows.instantiations = w.rows.instantiations
  artifacts : w'.rows.artifacts = w.rows.artifacts ++ (w.stateArtifact P ids state).2
  stored : w'.stored = w.stored ++ (w.statePayload P ids state).2
  versions : w'.rows.stateVersions = w.rows.stateVersions ++
    [firstVersion owner state component.id (w.stateArtifact P ids state).1.id]

variable {P ids owner} {w w' : StateRows} {state : ResolvedTemplateInitialState}
  {component : ComponentInstance}

theorem inlinePayload_eq (w : StateRows) (state : ResolvedTemplateInitialState) :
    findOrInsert (fun p => p.artifactId = (w.stateArtifact P ids state).1.id)
      ⟨(w.stateArtifact P ids state).1.id, (state.initialState P).canonical,
        (state.initialState P).sizeBytes⟩ w.rows.inlinePayloads =
      ((w.statePayload P ids state).1.inline, (w.statePayload P ids state).2.map StoredPayload.inline) := by
  rw [w.agree]
  exact findOrInsert_map StoredPayload.inline _ (w.newPayload P ids state) w.stored

/-- What is computed of a state whose component has no versions. -/
theorem Ready.publishInitialState_eq (h : Ready owner w state component) :
    publishInitialState owner (ids.artifactId (state.digest P)) (state.initialState P) w.rows = do
      require ((w.stateArtifact P ids state).1.schemaId = state.schemaId &&
        (w.stateArtifact P ids state).1.mediaType = "application/json" &&
        (w.stateArtifact P ids state).1.sizeBytes = (canonicalBytes state.value).length &&
        (w.stateArtifact P ids state).1.state = .committed) instantiationConflict
      require (string (canonicalText (w.statePayload P ids state).1.payload) =
          string (canonicalText state.value) &&
        (w.statePayload P ids state).1.canonicalSizeBytes = (canonicalBytes state.value).length)
        instantiationConflict
      return { TemplateRows.nil with
        artifacts := (w.stateArtifact P ids state).2
        inlinePayloads := (w.statePayload P ids state).2.map StoredPayload.inline
        stateVersions := [firstVersion owner state component.id (w.stateArtifact P ids state).1.id]
        stateLinks := (findOrInsert (· = (owner.instantiationId, (component.id, state.portName, 1)))
          (owner.instantiationId, (component.id, state.portName, 1)) w.rows.stateLinks).2 } := by
  have hversion : findOrInsert (fun v => v.key = (component.id, state.portName, 1))
      (firstVersion owner state component.id (w.stateArtifact P ids state).1.id)
      w.rows.stateVersions = (firstVersion owner state component.id
        (w.stateArtifact P ids state).1.id, [firstVersion owner state component.id
          (w.stateArtifact P ids state).1.id]) := by
    rcases findOrInsert_eq (fun v : ComponentStateVersion =>
      v.key = (component.id, state.portName, 1)) _ w.rows.stateVersions with
        ⟨v, hv, hkey, -⟩ | ⟨-, heq⟩
    · exact absurd (congrArg Prod.fst (of_decide_eq_true hkey)) (h.versions v hv)
    · exact heq
  have hown : (firstVersion owner state component.id (w.stateArtifact P ids state).1.id).ofTemplate
      owner.templateId w.rows.instantiations = true := h.instantiation
  have hartifact : findOrInsert (fun a => a.digest = (state.initialState P).digest)
      { id := ids.artifactId (state.digest P), digest := (state.initialState P).digest,
        sizeBytes := (state.initialState P).sizeBytes, schemaId := (state.initialState P).schemaId,
        state := .committed, mediaType := "application/json" } w.rows.artifacts =
      ((w.stateArtifact P ids state).1, (w.stateArtifact P ids state).2) := rfl
  have hfound : w.rows.components.find? (fun c => c.topologyRevisionId = owner.topologyRevisionId &&
    c.name = (state.initialState P).componentName) = some component := h.found
  unfold publishInitialState
  rw [hfound]
  dsimp only
  rw [hartifact]
  dsimp only
  rw [inlinePayload_eq]
  dsimp only
  erw [hversion]
  dsimp only
  rw [hown]
  refine bind_congr fun _ => bind_congr fun _ => ?_
  rw [require_eq_ok.2]
  · rfl
  · simp [firstVersion, ResolvedTemplateInitialState.initialState]

/-- A state is published exactly when what is stored is accepted. -/
theorem Ready.publish_ok (h : Ready owner w state component) (haccepts : Accepts P ids w state) :
    ∃ w', w.publish P ids owner state = .ok w' := by
  obtain ⟨⟨hschema, hmedia, hsize, hstate⟩, hcanonical, hbytes⟩ := haccepts
  have hdelta := @Ready.publishInitialState_eq P ids _ _ _ _ h
  rw [require_eq_ok.2 (by simp [hschema, hmedia, hsize, hstate]),
    require_eq_ok.2 (by simp [hcanonical, hbytes])] at hdelta
  unfold StateRows.publish
  split
  · rename_i e he
    rw [hdelta] at he
    cases he
  · exact ⟨_, rfl⟩

theorem Ready.publish_eq_ok (h : Ready owner w state component)
    (hok : w.publish P ids owner state = .ok w') :
    Accepts P ids w state ∧ Turn P ids owner w state component w' := by
  unfold StateRows.publish at hok
  split at hok
  · cases hok
  · rename_i delta hdelta
    obtain rfl := Except.ok.inj hok
    rw [h.publishInitialState_eq] at hdelta
    obtain ⟨⟨⟩, hidentity, hdelta⟩ := Except.bind_eq_ok.1 hdelta
    obtain ⟨⟨⟩, hinline, hdelta⟩ := Except.bind_eq_ok.1 hdelta
    obtain rfl := Except.ok.inj hdelta
    simp only [require_eq_ok, Bool.and_eq_true, decide_eq_true_eq] at hidentity hinline
    obtain ⟨⟨⟨hschema, hmedia⟩, hsize⟩, hstate⟩ := hidentity
    refine ⟨⟨⟨hschema, hmedia, hsize, hstate⟩, hinline.1, hinline.2⟩, ?_, ?_, rfl, ?_, rfl⟩
    · simp [TemplateRows.append, TemplateRows.nil]
    · simp [TemplateRows.append, TemplateRows.nil]
    · dsimp only
      rw [List.map_map]
      refine congrArg _ ((List.map_congr_left fun p hp => ?_).trans (List.map_id _))
      rw [mem_findOrInsert hp]
      rfl

/-- A state that is not published is in conflict. -/
theorem Ready.publish_eq_error (h : Ready owner w state component) {e : RuntimeError}
    (herror : w.publish P ids owner state = .error e) : e = instantiationConflict := by
  have hrequire : ∀ {α : Type} {condition : Bool} {f : Unit → Outcome α},
      (require condition instantiationConflict >>= f) = .error e →
        e = instantiationConflict ∨ f () = .error e := by
    intro α condition f hf
    cases condition with
    | false => exact Or.inl (Except.error.inj hf).symm
    | true => exact Or.inr hf
  unfold StateRows.publish at herror
  split at herror
  · rename_i e' he
    obtain rfl := Except.error.inj herror
    rw [h.publishInitialState_eq] at he
    rcases hrequire he with he | he
    · exact he
    · rcases hrequire he with he | he
      · exact he
      · cases he
  · cases herror

namespace Turn

/-- The artifact of the digest of the state is that of the state, and the others are as before. -/
theorem artifact? (h : Turn P ids owner w state component w') (digest : Digest) :
    w'.artifact? digest =
      if digest = state.digest P then some (w.stateArtifact P ids state).1
      else w.artifact? digest := by
  rw [StateRows.artifact?, h.artifacts]
  exact find?_findOrInsert (·.digest) (state.newArtifact P ids) w.rows.artifacts digest

theorem payload? (h : Turn P ids owner w state component w') (artifactId : Uuid) :
    w'.payload? artifactId =
      if artifactId = (w.stateArtifact P ids state).1.id then some (w.statePayload P ids state).1
      else w.payload? artifactId := by
  rw [StateRows.payload?, h.stored]
  exact find?_findOrInsert (·.artifactId) (w.newPayload P ids state) w.stored artifactId

end Turn

theorem stateArtifact_eq (w : StateRows) (state : ResolvedTemplateInitialState) :
    (w.stateArtifact P ids state).1 =
      (w.artifact? (state.digest P)).getD (state.newArtifact P ids) :=
  findOrInsert_fst _ _ _

theorem statePayload_eq (w : StateRows) (state : ResolvedTemplateInitialState) :
    (w.statePayload P ids state).1 =
      (w.payload? (w.stateArtifact P ids state).1.id).getD (w.newPayload P ids state) :=
  findOrInsert_fst _ _ _

theorem artifact?_eq_some {digest : Digest} {a : Artifact} (h : w.artifact? digest = some a) :
    a ∈ w.rows.artifacts ∧ a.digest = digest := by
  unfold StateRows.artifact? at h
  exact ⟨List.mem_of_find?_eq_some h, by simpa using List.find?_some h⟩

theorem payload?_eq_some {artifactId : Uuid} {p : StoredPayload}
    (h : w.payload? artifactId = some p) : p ∈ w.stored ∧ p.artifactId = artifactId := by
  unfold StateRows.payload? at h
  exact ⟨List.mem_of_find?_eq_some h, by simpa using List.find?_some h⟩

/-! ## All states -/

/-- A component has a state as its first version, and no other version. -/
def HasResolvedState (P : Platform) (revisionId : Uuid) (w : StateRows)
    (state : ResolvedTemplateInitialState) : Prop :=
  ∃ c ∈ w.rows.components, c.topologyRevisionId = revisionId ∧
    c.name = state.componentInstanceName ∧ ∃ v a p,
      w.rows.stateVersions.filter (·.componentInstanceId = c.id) = [v] ∧
      v.key = (c.id, state.portName, 1) ∧ v.schemaId = state.schemaId ∧
      w.artifact? (state.digest P) = some a ∧ a.id = v.artifactId ∧
      w.payload? a.id = some p ∧ Same p.payload.1 state.value.1

/-- The metadata of what has the digest of a state is that of the state. -/
structure MetadataAgrees (P : Platform) (w : StateRows) (states : List ResolvedTemplateInitialState) :
    Prop where
  stored : ∀ s ∈ states, ∀ a, w.artifact? (s.digest P) = some a → HasIdentity s a
  shared : ∀ s ∈ states, ∀ t ∈ states, s.digest P = t.digest P → s.schemaId = t.schemaId

/-- What has the digest of a state is its value. -/
structure ValuesAgree (P : Platform) (w : StateRows) (states : List ResolvedTemplateInitialState) :
    Prop where
  stored : ∀ s ∈ states, ∀ a p, w.artifact? (s.digest P) = some a → w.payload? a.id = some p →
    Same p.payload.1 s.value.1 ∧ p.canonicalSizeBytes = (canonicalBytes s.value).length
  shared : ∀ s ∈ states, ∀ t ∈ states, s.digest P = t.digest P → Same s.value.1 t.value.1

/-- A region that has just been instantiated, and the ids that are drawn for its states. -/
structure FreshRegion (ids : DrawnIds) (owner : StateOwner) (names : List String) (w : StateRows) :
    Prop where
  component : ∀ name ∈ names, ∃ c, w.rows.components.find? (fun c =>
    c.topologyRevisionId = owner.topologyRevisionId && c.name = name) = some c ∧
    ∀ v ∈ w.rows.stateVersions, v.componentInstanceId ≠ c.id
  named : ∀ c ∈ w.rows.components, ∀ d ∈ w.rows.components,
    c.topologyRevisionId = owner.topologyRevisionId → d.topologyRevisionId = owner.topologyRevisionId →
    c.id = d.id → c.name = d.name
  instantiation : w.rows.instantiations.any fun i =>
    i.id = owner.instantiationId && i.templateId = owner.templateId
  artifactIds : Function.Injective ids.artifactId
  keyed : Keyed (·.id) w.rows.artifacts
  artifacts : ∀ a ∈ w.rows.artifacts, ∀ d, a.id ≠ ids.artifactId d
  payloads : ∀ p ∈ w.stored, ∀ d, p.artifactId ≠ ids.artifactId d

/-- What the tables have after some states. -/
structure Progress (P : Platform) (ids : DrawnIds) (owner : StateOwner) (w : StateRows)
    (done : List ResolvedTemplateInitialState) (w' : StateRows) : Prop where
  components : w'.rows.components = w.rows.components
  instantiations : w'.rows.instantiations = w.rows.instantiations
  artifacts_kept : ∀ d a, w.artifact? d = some a → w'.artifact? d = some a
  artifacts : ∀ d a, w'.artifact? d = some a → w.artifact? d = some a ∨
    w.artifact? d = none ∧ ∃ t ∈ done, t.digest P = d ∧ a = t.newArtifact P ids
  payloads : ∀ id p, w'.payload? id = some p → w.payload? id = some p ∨
    ∃ t ∈ done, ∃ a, w'.artifact? (t.digest P) = some a ∧ a.id = id ∧
      p.payload = t.value ∧ p.canonicalSizeBytes = (canonicalBytes t.value).length
  versions : ∀ v ∈ w'.rows.stateVersions, v ∈ w.rows.stateVersions ∨ ∃ t ∈ done,
    ∃ c ∈ w.rows.components, c.topologyRevisionId = owner.topologyRevisionId ∧
      c.name = t.componentInstanceName ∧ v.componentInstanceId = c.id
  published : ∀ t ∈ done, ∃ c ∈ w.rows.components,
    c.topologyRevisionId = owner.topologyRevisionId ∧ c.name = t.componentInstanceName ∧ ∃ v a p,
      w'.rows.stateVersions.filter (·.componentInstanceId = c.id) = [v] ∧
      v.key = (c.id, t.portName, 1) ∧ v.schemaId = t.schemaId ∧
      w'.artifact? (t.digest P) = some a ∧ a.id = v.artifactId ∧ HasIdentity t a ∧
      w'.payload? a.id = some p

namespace Progress

variable {done : List ResolvedTemplateInitialState} {names : List String} {w₀ : StateRows}

theorem nil (w : StateRows) : Progress P ids owner w [] w where
  components := rfl
  instantiations := rfl
  artifacts_kept _ _ h := h
  artifacts _ _ h := Or.inl h
  payloads _ _ h := Or.inl h
  versions _ h := Or.inl h
  published t ht := by cases ht

/-- An artifact has one digest. -/
theorem digest_eq (hfresh : FreshRegion ids owner names w₀) (h : Progress P ids owner w₀ done w)
    {d d' : Digest} {a a' : Artifact} (ha : w.artifact? d = some a) (ha' : w.artifact? d' = some a')
    (hid : a.id = a'.id) : d = d' := by
  rcases h.artifacts d a ha with ha | ⟨-, t, ht, hd, rfl⟩
  · obtain ⟨hmem, hdigest⟩ := artifact?_eq_some ha
    rcases h.artifacts d' a' ha' with ha' | ⟨-, t, ht, hd, rfl⟩
    · obtain ⟨hmem', hdigest'⟩ := artifact?_eq_some ha'
      rw [← hdigest, ← hdigest', hfresh.keyed.eq hmem hmem' hid]
    · exact absurd hid (hfresh.artifacts a hmem _)
  · rcases h.artifacts d' a' ha' with ha' | ⟨-, t', ht', hd', rfl⟩
    · obtain ⟨hmem', -⟩ := artifact?_eq_some ha'
      exact absurd hid.symm (hfresh.artifacts a' hmem' _)
    · rw [← hd, ← hd']
      exact hfresh.artifactIds hid

/-- The publication of a state of another component. -/
theorem next (hfresh : FreshRegion ids owner names w₀) (h : Progress P ids owner w₀ done w)
    (hready : Ready owner w state component) (haccepts : Accepts P ids w state)
    (hturn : Turn P ids owner w state component w')
    (hnew : state.componentInstanceName ∉ done.map (·.componentInstanceName)) :
    Progress P ids owner w₀ (done ++ [state]) w' := by
  have hartifact := @stateArtifact_eq P ids w state
  have hpayload := @statePayload_eq P ids w state
  have hfound := List.find?_some hready.found
  rw [Bool.and_eq_true, decide_eq_true_eq, decide_eq_true_eq] at hfound
  have hmem := List.mem_of_find?_eq_some hready.found
  have hkept : ∀ d a, w.artifact? d = some a → w'.artifact? d = some a := by
    intro d a ha
    rw [hturn.artifact?]
    split_ifs with hd
    · rw [hartifact, ← hd, ha]
      rfl
    · exact ha
  have hkeptPayload : ∀ id p, w.payload? id = some p → w'.payload? id = some p := by
    intro id p hp
    rw [hturn.payload?]
    split_ifs with hid
    · rw [hpayload, ← hid, hp]
      rfl
    · exact hp
  have hself : w'.artifact? (state.digest P) = some (w.stateArtifact P ids state).1 := by
    rw [hturn.artifact?, if_pos rfl]
  constructor
  · rw [hturn.components, h.components]
  · rw [hturn.instantiations, h.instantiations]
  · exact fun d a ha => hkept d a (h.artifacts_kept d a ha)
  · intro d a ha
    rw [hturn.artifact?] at ha
    split_ifs at ha with hd
    · obtain rfl := Option.some.inj ha
      subst hd
      cases hold : w.artifact? (state.digest P) with
      | some a =>
        rw [hartifact, hold, Option.getD_some]
        exact (h.artifacts _ a hold).imp_right fun ⟨hnone, t, ht, heq⟩ =>
          ⟨hnone, t, List.mem_append_left _ ht, heq⟩
      | none =>
        rw [hartifact, hold, Option.getD_none]
        refine Or.inr ⟨?_, state, by simp, rfl, rfl⟩
        by_contra hsome
        obtain ⟨a, ha⟩ := Option.ne_none_iff_exists'.1 hsome
        rw [h.artifacts_kept _ _ ha] at hold
        cases hold
    · exact (h.artifacts d a ha).imp_right fun ⟨hnone, t, ht, heq⟩ =>
        ⟨hnone, t, List.mem_append_left _ ht, heq⟩
  · intro id p hp
    have hother : w.payload? id = some p → w₀.payload? id = some p ∨ ∃ t ∈ done ++ [state], ∃ a,
        w'.artifact? (t.digest P) = some a ∧ a.id = id ∧ p.payload = t.value ∧
        p.canonicalSizeBytes = (canonicalBytes t.value).length := fun hp =>
      (h.payloads id p hp).imp_right fun ⟨t, ht, a, ha, hrest⟩ =>
        ⟨t, List.mem_append_left _ ht, a, hkept _ _ ha, hrest⟩
    rw [hturn.payload?] at hp
    split_ifs at hp with hid
    · obtain rfl := Option.some.inj hp
      cases hold : w.payload? id with
      | some q =>
        have hsame : (w.statePayload P ids state).1 = q := by
          rw [hpayload, ← hid, hold, Option.getD_some]
        exact hother (hold.trans (congrArg some hsame.symm))
      | none =>
        rw [hpayload, ← hid, hold, Option.getD_none]
        exact Or.inr ⟨state, by simp, _, hself, hid.symm, rfl, rfl⟩
    · exact hother hp
  · intro v hv
    rw [hturn.versions] at hv
    rcases List.mem_append.1 hv with hv | hv
    · exact (h.versions v hv).imp_right fun ⟨t, ht, hrest⟩ => ⟨t, List.mem_append_left _ ht, hrest⟩
    · obtain rfl := List.mem_singleton.1 hv
      exact Or.inr ⟨state, by simp, component, h.components ▸ hmem, hfound.1, hfound.2, rfl⟩
  · intro t ht
    rcases List.mem_append.1 ht with ht | ht
    · obtain ⟨c, hc, hrevision, hname, v, a, p, hfilter, hkey, hschema, ha, hid, hidentity, hp⟩ :=
        h.published t ht
      refine ⟨c, hc, hrevision, hname, v, a, p, ?_, hkey, hschema, hkept _ _ ha, hid, hidentity,
        hkeptPayload _ _ hp⟩
      have hne : component.id ≠ c.id := fun heq => hnew (List.mem_map.2 ⟨t, ht, by
        rw [← hname, ← hfound.2, hfresh.named c hc component (h.components ▸ hmem) hrevision hfound.1
          heq.symm]⟩)
      rw [hturn.versions, List.filter_append, hfilter, List.append_right_eq_self,
        List.filter_eq_nil_iff]
      rintro v hv heq
      obtain rfl := List.mem_singleton.1 hv
      exact hne (of_decide_eq_true heq)
    · obtain rfl := List.mem_singleton.1 ht
      refine ⟨component, h.components ▸ hmem, hfound.1, hfound.2,
        firstVersion owner t component.id (w.stateArtifact P ids t).1.id, _,
        (w.statePayload P ids t).1, ?_, rfl, rfl, hself, rfl, haccepts.identity, ?_⟩
      · rw [hturn.versions, List.filter_append,
          List.filter_eq_nil_iff.2 fun v hv => by simpa using hready.versions v hv, List.nil_append]
        exact List.filter_cons_of_pos (by simp [firstVersion])
      · rw [hturn.payload?, if_pos rfl]

/-- What is stored under the artifact of a state that is published has its value. -/
theorem payload_value (hfresh : FreshRegion ids owner names w₀) (h : Progress P ids owner w₀ done w)
    {states : List ResolvedTemplateInitialState} (hdone : ∀ t ∈ done, t ∈ states)
    (hvalues : ValuesAgree P w₀ states) (hstate : state ∈ states) {a : Artifact} {p : StoredPayload}
    (ha : w.artifact? (state.digest P) = some a) (hp : w.payload? a.id = some p) :
    Same p.payload.1 state.value.1 ∧
      p.canonicalSizeBytes = (canonicalBytes state.value).length := by
  rcases h.payloads a.id p hp with hold | ⟨t, ht, b, hb, hid, hvalue, hsize⟩
  · rcases h.artifacts _ a ha with ha | ⟨-, t, -, hd, rfl⟩
    · exact hvalues.stored state hstate a p ha hold
    · obtain ⟨hmem, hid⟩ := payload?_eq_some hold
      exact absurd hid (hfresh.payloads p hmem _)
  · have hsame := hvalues.shared t (hdone t ht) state hstate (h.digest_eq hfresh hb ha hid)
    rw [hvalue, hsize, canonicalBytes_congr hsame]
    exact ⟨hsame, rfl⟩

/-- The next state is accepted. -/
theorem accepts (hfresh : FreshRegion ids owner names w₀) (h : Progress P ids owner w₀ done w)
    {states : List ResolvedTemplateInitialState} (hdone : ∀ t ∈ done, t ∈ states)
    (hmetadata : MetadataAgrees P w₀ states) (hvalues : ValuesAgree P w₀ states)
    (hstate : state ∈ states) : Accepts P ids w state := by
  have hartifact := @stateArtifact_eq P ids w state
  have hpayload := @statePayload_eq P ids w state
  have hidentity : HasIdentity state (w.stateArtifact P ids state).1 := by
    rw [hartifact]
    cases hold : w.artifact? (state.digest P) with
    | none => exact ⟨rfl, rfl, rfl, rfl⟩
    | some a =>
      rw [Option.getD_some]
      rcases h.artifacts _ a hold with ha | ⟨-, t, ht, hd, rfl⟩
      · exact hmetadata.stored state hstate a ha
      · refine ⟨hmetadata.shared t (hdone t ht) state hstate hd, rfl, ?_, rfl⟩
        rw [← canonicalBytes_congr (hvalues.shared t (hdone t ht) state hstate hd)]
        rfl
  have hsame : Same (w.statePayload P ids state).1.payload.1 state.value.1 ∧
      (w.statePayload P ids state).1.canonicalSizeBytes = (canonicalBytes state.value).length := by
    rw [hpayload]
    cases hold : w.payload? (w.stateArtifact P ids state).1.id with
    | none => exact ⟨Same.refl _, rfl⟩
    | some p =>
      rw [Option.getD_some]
      rw [hartifact] at hold
      cases ha : w.artifact? (state.digest P) with
      | some a =>
        rw [ha, Option.getD_some] at hold
        exact h.payload_value hfresh hdone hvalues hstate ha hold
      | none =>
        -- a payload of an artifact that is not there yet
        rw [ha, Option.getD_none] at hold
        rcases h.payloads _ p hold with hp | ⟨t, ht, b, hb, hid, -⟩
        · obtain ⟨hmem, hid⟩ := payload?_eq_some hp
          exact absurd hid (hfresh.payloads p hmem _)
        · rcases h.artifacts _ b hb with hb' | ⟨-, t', -, hd, rfl⟩
          · exact absurd hid (hfresh.artifacts b (artifact?_eq_some hb').1 _)
          · rw [← hd, hfresh.artifactIds hid, ha] at hb
            cases hb
  exact ⟨hidentity, congrArg string (canonicalText_congr hsame.1), hsame.2⟩

end Progress

/-- The instances are named uniquely. -/
theorem notMem_done {done rest : List ResolvedTemplateInitialState}
    (hnodup : ((done ++ state :: rest).map (·.componentInstanceName)).Nodup) :
    state.componentInstanceName ∉ done.map (·.componentInstanceName) := by
  rw [List.map_append, List.map_cons] at hnodup
  exact fun hmem => (List.nodup_append.1 hnodup).2.2 _ hmem _ List.mem_cons_self rfl

/-- A component is ready for its state until it is published. -/
theorem Progress.ready {w₀ : StateRows} {done rest : List ResolvedTemplateInitialState}
    (hfresh : FreshRegion ids owner
      ((done ++ state :: rest).map (·.componentInstanceName)) w₀)
    (hnodup : ((done ++ state :: rest).map (·.componentInstanceName)).Nodup)
    (h : Progress P ids owner w₀ done w) : ∃ component, Ready owner w state component := by
  obtain ⟨c, hc, hversions⟩ := hfresh.component state.componentInstanceName
    (List.mem_map.2 ⟨state, by simp, rfl⟩)
  have hmem := List.mem_of_find?_eq_some hc
  have hfound := List.find?_some hc
  rw [Bool.and_eq_true, decide_eq_true_eq, decide_eq_true_eq] at hfound
  refine ⟨c, by rw [h.components]; exact hc, fun v hv heq => ?_, by
    rw [h.instantiations]; exact hfresh.instantiation⟩
  rcases h.versions v hv with hv | ⟨t, ht, d, hd, hrevision, hname, hid⟩
  · exact hversions v hv heq
  · refine notMem_done hnodup (List.mem_map.2 ⟨t, ht, ?_⟩)
    rw [← hname, ← hfound.2, hfresh.named d hd c hmem hrevision hfound.1 (hid.symm.trans heq)]

section Run

variable {states : List ResolvedTemplateInitialState} {w₀ : StateRows}

/-- A publication that succeeds has gone through all states. -/
theorem publishStates_progress
    (hfresh : FreshRegion ids owner (states.map (·.componentInstanceName)) w₀)
    (hnodup : (states.map (·.componentInstanceName)).Nodup)
    (h : publishStates P ids owner w₀ states = .ok w) : Progress P ids owner w₀ states w := by
  refine Except.foldlM_done (I := Progress P ids owner w₀)
    (fun done state rest w₁ w₂ hstates hprogress hstep => ?_) (.nil w₀) h
  subst hstates
  obtain ⟨component, hready⟩ := hprogress.ready hfresh hnodup
  obtain ⟨haccepts, hturn⟩ := hready.publish_eq_ok hstep
  exact hprogress.next hfresh hready haccepts hturn (notMem_done hnodup)

/-- States that agree are all published. -/
theorem publishStates_ok
    (hfresh : FreshRegion ids owner (states.map (·.componentInstanceName)) w₀)
    (hnodup : (states.map (·.componentInstanceName)).Nodup)
    (hmetadata : MetadataAgrees P w₀ states) (hvalues : ValuesAgree P w₀ states) :
    ∃ w, publishStates P ids owner w₀ states = .ok w := by
  suffices hrest : ∀ rest done w, states = done ++ rest → Progress P ids owner w₀ done w →
      ∃ w', publishStates P ids owner w rest = .ok w' from hrest states [] w₀ rfl (.nil w₀)
  intro rest
  induction rest with
  | nil => exact fun done w _ _ => ⟨w, rfl⟩
  | cons state rest ih =>
    intro done w hstates hprogress
    subst hstates
    obtain ⟨component, hready⟩ := hprogress.ready hfresh hnodup
    have haccepts := hprogress.accepts hfresh (fun t ht => List.mem_append_left _ ht) hmetadata
      hvalues (by simp : state ∈ done ++ state :: rest)
    obtain ⟨w', hw'⟩ := hready.publish_ok haccepts
    have hnext := hprogress.next hfresh hready haccepts (hready.publish_eq_ok hw').2 (notMem_done hnodup)
    obtain ⟨w'', hw''⟩ := ih (done ++ [state]) w' (by simp) hnext
    refine ⟨w'', ?_⟩
    rw [publishStates, List.foldlM_cons, hw']
    exact hw''

/-- What keeps states from being published is a conflict. -/
theorem publishStates_error
    (hfresh : FreshRegion ids owner (states.map (·.componentInstanceName)) w₀)
    (hnodup : (states.map (·.componentInstanceName)).Nodup) {e : RuntimeError}
    (h : publishStates P ids owner w₀ states = .error e) : e = instantiationConflict := by
  suffices hrest : ∀ rest done w, states = done ++ rest → Progress P ids owner w₀ done w →
      publishStates P ids owner w rest = .error e → e = instantiationConflict from
    hrest states [] w₀ rfl (.nil w₀) h
  clear h
  intro rest
  induction rest with
  | nil => intro done w _ _ h; cases h
  | cons state rest ih =>
    intro done w hstates hprogress h
    subst hstates
    obtain ⟨component, hready⟩ := hprogress.ready hfresh hnodup
    rw [publishStates, List.foldlM_cons] at h
    cases hw : w.publish P ids owner state with
    | error e' =>
      rw [hw] at h
      obtain rfl := Except.error.inj h
      exact hready.publish_eq_error hw
    | ok w' =>
      rw [hw] at h
      obtain ⟨haccepts, hturn⟩ := hready.publish_eq_ok hw
      exact ih (done ++ [state]) w' (by simp)
        (hprogress.next hfresh hready haccepts hturn (notMem_done hnodup)) h

end Run

/-! ## A fresh region -/

/-- The tables with the rows of a topology and of an instantiation, which have no payloads. -/
def StateRows.withTopology (w : StateRows) (own : TemplateRows) : StateRows where
  rows := w.rows.append { own with inlinePayloads := [] }
  stored := w.stored
  agree := by rw [TemplateRows.append, List.append_nil, w.agree]

/-- Ids that no row has, where the components are those that are created. -/
structure NewIds (ids : DrawnIds) (components : List ComponentInstance) (w : StateRows) : Prop where
  revision : ∀ c ∈ w.rows.components, c.topologyRevisionId ≠ ids.revisionId
  distinct : Keyed (·.id) components
  components : ∀ v ∈ w.rows.stateVersions, ∀ c ∈ components, v.componentInstanceId ≠ c.id
  artifactIds : Function.Injective ids.artifactId
  artifacts : ∀ a ∈ w.rows.artifacts, ∀ d, a.id ≠ ids.artifactId d
  payloads : ∀ p ∈ w.stored, ∀ d, p.artifactId ≠ ids.artifactId d

/-- A request that is new, whose initial states and topology have been resolved, and whose topology
and instantiation have been created : the states, the owner they get, and the tables. -/
structure Instantiating (T : Templates) (E : TemplateChecks) (S : StateDefinitions) (ids : DrawnIds)
    (request : InstantiationRequest) (parameters : JsonObject) (regions : List Region)
    (w : StateRows) (states : List ResolvedTemplateInitialState) (owner : StateOwner)
    (region : StateRows) : Prop where
  artifacts : Keyed (·.id) w.rows.artifacts
  states : resolve S request.content.template parameters = .ok states
  created : ∃ resolution topology created recorded,
    resolveTopology E S.toDefinitions request.content = .ok resolution ∧
    publishTopology ids request.content resolution regions w.rows = .ok (topology, created) ∧
    topology.disposition = .created ∧
    ownInstantiation T ids request resolution topology none = .ok (owner, recorded) ∧
    NewIds ids created.components w ∧ region = w.withTopology (created.append recorded)

/-- The publication of initial states. -/
structure PublishesStates (P : Platform) (ids : DrawnIds) (states : List ResolvedTemplateInitialState)
    (owner : StateOwner) (region : StateRows) : Prop where
  published : MetadataAgrees P region states → ValuesAgree P region states →
    ∃ w, publishStates P ids owner region states = .ok w ∧
      ∀ state ∈ states, HasResolvedState P owner.topologyRevisionId w state
  refused : ¬MetadataAgrees P region states →
    publishStates P ids owner region states = .error instantiationConflict

section Region

variable {T : Templates} {E : TemplateChecks} {S : StateDefinitions} {request : InstantiationRequest}
  {parameters : JsonObject} {regions : List Region} {states : List ResolvedTemplateInitialState}
  {region : StateRows}

/-- A topology that is created has its rows. -/
theorem publishTopology_created {content : InstantiationContent} {resolution : Resolution}
    {rows created : TemplateRows} {topology : TopologyResult}
    (h : publishTopology ids content resolution regions rows = .ok (topology, created))
    (hnew : topology.disposition = .created) :
    (resolution.instances.map (·.name)).Nodup ∧ topology.revisionId = ids.revisionId ∧
      created = topologyRows content.targetRegionId ids.revisionId ids.componentId resolution := by
  unfold publishTopology at h
  split at h
  · obtain ⟨topology', htopology, h⟩ := Except.bind_eq_ok.1 h
    obtain ⟨rfl, rfl⟩ := Prod.mk.inj (Except.ok.inj h)
    obtain ⟨⟨⟩, -, htopology⟩ := Except.bind_eq_ok.1 htopology
    obtain rfl := Except.ok.inj htopology
    cases hnew
  · obtain ⟨⟨⟩, -, h⟩ := Except.bind_eq_ok.1 h
    obtain ⟨⟨⟩, -, h⟩ := Except.bind_eq_ok.1 h
    obtain ⟨⟨⟩, hnames, h⟩ := Except.bind_eq_ok.1 h
    obtain ⟨rfl, rfl⟩ := Prod.mk.inj (Except.ok.inj h)
    exact ⟨by simpa using hnames, rfl, rfl⟩

/-- The instances of a resolution are those of the template, in order. -/
theorem resolveTopology_names {D : Definitions} {content : InstantiationContent}
    {resolution : Resolution} (h : resolveTopology E D content = .ok resolution) :
    ∃ template topology, findTemplate D content.template = .ok template ∧
      template.document.initialTopology = some topology ∧
      resolution.instances.map (·.name) = topology.instances.map (·.name) := by
  obtain ⟨template, htemplate, h⟩ := Except.bind_eq_ok.1 h
  cases htopology : template.document.initialTopology with
  | none => simp [htopology] at h
  | some topology =>
    rw [htopology] at h
    obtain ⟨initialStates, -, h⟩ := Except.bind_eq_ok.1 h
    obtain ⟨⟨⟩, -, h⟩ := Except.bind_eq_ok.1 h
    obtain ⟨resolved, hresolved, h⟩ := Except.bind_eq_ok.1 h
    obtain ⟨inputs, outputs, hsound⟩ := resolveWiring_eq_ok hresolved
    obtain rfl := Except.ok.inj h
    refine ⟨template, topology, htemplate, htopology, ?_⟩
    rw [List.map_map, ← hsound.names]
    rfl

/-- The states of a new region have their components, which are named uniquely. -/
theorem Instantiating.freshRegion
    (h : Instantiating T E S ids request parameters regions w states owner region) :
    FreshRegion ids owner (states.map (·.componentInstanceName)) region ∧
      (states.map (·.componentInstanceName)).Nodup := by
  obtain ⟨resolution, topology, created, recorded, hresolve, htopology, hnew, hrecord, hids,
    hregion⟩ := h.created
  obtain ⟨hdistinct, hrevision, rfl⟩ := publishTopology_created htopology hnew
  obtain ⟨rfl, rfl⟩ := Prod.mk.inj (Except.ok.inj hrecord)
  obtain ⟨template, declared, htemplate, hdeclared, hnames⟩ := resolveTopology_names hresolve
  obtain ⟨template', htemplate', hsub⟩ := resolve_names h.states
  obtain rfl := Except.ok.inj (htemplate.symm.trans htemplate')
  have hsub := hsub declared hdeclared
  rw [← hnames] at hsub
  have hcomponents : region.rows.components = w.rows.components ++
      (topologyRows request.content.targetRegionId ids.revisionId ids.componentId
        resolution).components := by
    simp [hregion, StateRows.withTopology, TemplateRows.append, TemplateRows.nil]
  have hversions : region.rows.stateVersions = w.rows.stateVersions := by
    simp [hregion, StateRows.withTopology, TemplateRows.append, TemplateRows.nil, topologyRows]
  have hartifacts : region.rows.artifacts = w.rows.artifacts := by
    simp [hregion, StateRows.withTopology, TemplateRows.append, TemplateRows.nil, topologyRows]
  have hstored : region.stored = w.stored := by rw [hregion]; rfl
  -- the components of the revision are those of the topology
  have hcreated : ∀ c ∈ region.rows.components, c.topologyRevisionId = topology.revisionId →
      c ∈ (topologyRows request.content.targetRegionId ids.revisionId ids.componentId
        resolution).components := by
    intro c hc hcrevision
    rw [hcomponents] at hc
    exact (List.mem_append.1 hc).resolve_left fun hc =>
      hids.revision c hc (hcrevision.trans hrevision)
  refine ⟨⟨fun name hname => ?_, fun c hc d hd hc' hd' hid => ?_, ?_, hids.artifactIds, ?_, ?_, ?_⟩,
    hdistinct.sublist hsub⟩
  · obtain ⟨i, hi, rfl⟩ := List.mem_map.1 (hsub.subset hname)
    have hsome : (region.rows.components.find? fun c =>
        c.topologyRevisionId = topology.revisionId && c.name = i.name).isSome := by
      rw [List.find?_isSome, hcomponents]
      exact ⟨_, List.mem_append_right _ (List.mem_map_of_mem hi), by simp [hrevision]⟩
    obtain ⟨c, hc⟩ := Option.isSome_iff_exists.1 hsome
    have hfound := List.find?_some hc
    rw [Bool.and_eq_true, decide_eq_true_eq] at hfound
    refine ⟨c, hc, fun v hv => ?_⟩
    rw [hversions] at hv
    exact hids.components v hv c (hcreated c (List.mem_of_find?_eq_some hc) hfound.1)
  · exact congrArg _ (hids.distinct.eq (hcreated c hc hc') (hcreated d hd hd') hid)
  · rw [hregion]
    exact List.any_eq_true.2 ⟨_, List.mem_append_right _ (List.mem_append_right _
      (List.mem_singleton_self _)), by simp [instantiationRow]⟩
  · rw [hartifacts]
    exact h.artifacts
  · rw [hartifacts]
    exact hids.artifacts
  · rw [hstored]
    exact hids.payloads

/-- The metadata of published states agree. -/
theorem Progress.metadataAgrees (h : Progress P ids owner region states w) :
    MetadataAgrees P region states := by
  constructor
  · intro s hs a ha
    obtain ⟨-, -, -, -, -, a', -, -, -, -, ha', -, hidentity, -⟩ := h.published s hs
    rw [h.artifacts_kept _ _ ha] at ha'
    obtain rfl := Option.some.inj ha'
    exact hidentity
  · intro s hs t ht hd
    obtain ⟨-, -, -, -, -, a, -, -, -, -, ha, -, hidentity, -⟩ := h.published s hs
    obtain ⟨-, -, -, -, -, a', -, -, -, -, ha', -, hidentity', -⟩ := h.published t ht
    rw [hd, ha'] at ha
    obtain rfl := Option.some.inj ha
    exact hidentity.1.symm.trans hidentity'.1

/-- The states of a new region are published, each as the only version of its component, when what is
stored under their digests agrees with them. When its metadata does not, nothing is published. -/
theorem initial_states_published
    (h : Instantiating T E S ids request parameters regions w states owner region) :
    PublishesStates P ids states owner region := by
  obtain ⟨hfresh, hnodup⟩ := h.freshRegion
  constructor
  · intro hmetadata hvalues
    obtain ⟨w', hw'⟩ := publishStates_ok hfresh hnodup hmetadata hvalues
    have hprogress := publishStates_progress hfresh hnodup hw'
    refine ⟨w', hw', fun state hstate => ?_⟩
    obtain ⟨c, hc, hrevision, hname, v, a, p, hfilter, hkey, hschema, ha, hid, -, hp⟩ :=
      hprogress.published state hstate
    exact ⟨c, hprogress.components ▸ hc, hrevision, hname, v, a, p, hfilter, hkey, hschema, ha, hid,
      hp, (hprogress.payload_value hfresh (fun t ht => ht) hvalues hstate ha hp).1⟩
  · intro hnot
    cases hw : publishStates P ids owner region states with
    | ok w' => exact absurd (publishStates_progress hfresh hnodup hw).metadataAgrees hnot
    | error e => rw [publishStates_error hfresh hnodup hw]

end Region

end Publication

/-! ## Equal values -/

/-- A template with two instances whose components have a state port, of two schemas. -/
def plantStates (schema : Uuid) : StateDefinitions where
  templates := [{ id := 1, name := "plant", version := "1", retired := false
                  document :=
                    { inputs := [], outputs := [], completionSchema := none, policies := []
                      capabilities := [], allowedComponents := none, specFanIn := none
                      fanIn := none
                      initialTopology := some
                        { instances := [⟨"left", "pump@1"⟩, ⟨"right", "tank@1"⟩]
                          connections := [], ingressCommands := [] } } }]
  components := [⟨400, "pump", "1", false⟩, ⟨401, "tank", "1", false⟩]
  ports := [⟨400, "level", .state, 500, true⟩, ⟨401, "level", .state, schema, true⟩]
  schemas := [⟨500, "level", "1", false⟩, ⟨501, "depth", "1", false⟩]
  policies := []
  capabilities := []
  initialState _ _ := some ⟨.obj [(ascii "port", .str (ascii "level")), (ascii "value", .obj [])],
    .obj (by decide) (by simpa using ⟨.str _, .obj List.nodup_nil (by simp)⟩)⟩
  validate _ _ := .ok ()

/-- What is resolved of it. -/
def plantResolved (schema : Uuid) : List ResolvedTemplateInitialState :=
  [⟨"left", "level", 500, emptyObject⟩, ⟨"right", "level", schema, emptyObject⟩]

/-- Tables without rows. -/
def noRows : StateRows :=
  ⟨.nil, [], rfl⟩

/-- The ids that are drawn, where an artifact's is known by its digest. -/
def plantIds : DrawnIds where
  instantiationId := 600
  revisionId := 200
  componentId name := 300 + name.length
  artifactId digest := digest + 1000

theorem plant_instantiating {schema : Uuid} (h : schema = 500 ∨ schema = 501) : ∃ region,
    Instantiating sampleTemplates pumpChecks (plantStates schema) plantIds pumpRequest
      ⟨[], .obj List.nodup_nil (by simp)⟩ sampleRegions.regions noRows (plantResolved schema)
      ⟨600, 200, 1⟩ region ∧ region.rows.artifacts = [] := by
  have hids : Function.Injective plantIds.artifactId := fun d d' h => Nat.add_right_cancel h
  have hnone : ∀ p ∈ noRows.stored, ∀ d, p.artifactId ≠ plantIds.artifactId d := by simp [noRows]
  rcases h with rfl | rfl
  · exact ⟨_, ⟨List.nodup_nil, rfl, _, _, _, _, rfl, rfl, rfl, rfl, ⟨by simp [noRows, TemplateRows.nil],
      by decide, by simp [noRows, TemplateRows.nil], hids, by simp [noRows, TemplateRows.nil], hnone⟩,
      rfl⟩, rfl⟩
  · exact ⟨_, ⟨List.nodup_nil, rfl, _, _, _, _, rfl, rfl, rfl, rfl, ⟨by simp [noRows, TemplateRows.nil],
      by decide, by simp [noRows, TemplateRows.nil], hids, by simp [noRows, TemplateRows.nil], hnone⟩,
      rfl⟩, rfl⟩

/-- Two equal values of one schema share an artifact. -/
theorem equal_states_published : ∃ region w,
    publishStates samplePlatform plantIds ⟨600, 200, 1⟩ region (plantResolved 500) = .ok w ∧
    ∀ state ∈ plantResolved 500, HasResolvedState samplePlatform 200 w state := by
  obtain ⟨region, h, hnone⟩ := plant_instantiating (Or.inl rfl)
  have hempty : ∀ d a, ¬region.artifact? d = some a := fun d a ha => by
    rw [StateRows.artifact?, hnone] at ha
    cases ha
  have hequal : ∀ s ∈ plantResolved 500, s.schemaId = 500 ∧ s.value = emptyObject := by
    simp [plantResolved]
  refine ⟨region, (initial_states_published (P := samplePlatform) h).published
    ⟨fun s _ a ha => absurd ha (hempty _ a), fun s hs t ht _ => ?_⟩
    ⟨fun s _ a p ha => absurd ha (hempty _ a), fun s hs t ht _ => ?_⟩⟩
  · rw [(hequal s hs).1, (hequal t ht).1]
  · rw [(hequal s hs).2, (hequal t ht).2]
    exact Same.refl _

/-- Two equal values of two schemas are resolved, and not published. -/
theorem equal_states_refused : ¬ ∀ (P : Platform) (T : Templates) (E : TemplateChecks)
    (S : StateDefinitions) (ids : DrawnIds) (request : InstantiationRequest)
    (parameters : JsonObject) (regions : List Region) (w : StateRows)
    (states : List ResolvedTemplateInitialState) (owner : StateOwner) (region : StateRows),
    Instantiating T E S ids request parameters regions w states owner region →
    ∃ w', publishStates P ids owner region states = .ok w' ∧
      ∀ state ∈ states, HasResolvedState P owner.topologyRevisionId w' state := by
  intro hall
  obtain ⟨region, h, -⟩ := @plant_instantiating 501 (Or.inr rfl)
  obtain ⟨w, hw, -⟩ := hall samplePlatform _ _ _ _ _ _ _ _ _ _ _ h
  obtain ⟨hfresh, hnodup⟩ := h.freshRegion
  have hagrees := (publishStates_progress hfresh hnodup hw).metadataAgrees
  have hschema := hagrees.shared _ List.mem_cons_self _ (List.mem_cons_of_mem _ List.mem_cons_self) rfl
  cases hschema

end InitialStates

end FactoryFloor
