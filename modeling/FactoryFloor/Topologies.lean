import FactoryFloor.Instantiation
import FactoryFloor.Scheduler
import FactoryFloor.Separators

/-!
# Resolving a template

What `instantiateInTransaction` of the template instantiation service reads and checks before it
writes : the template and the definitions it refers to, its static topology, its contracts, and its
fan-in rules. `resolveTopology` ends with the `Resolution` that the calls of `Instantiation` publish.

An endpoint `instance.port` is a string. The validation wants one dot in it (`requireEndpoint`),
and the service splits it at the last one (`endpoint`). The instance name `region` stands for the
boundary of the region, also where the topology declares an instance of that name.

Documents are taken as parsed. What is not about the topology is a parameter (`TemplateChecks`) : the
schemas of parameters, the configuration of instances, the initial states and the digest.
-/

namespace FactoryFloor

open Relational

/-! ## Documents -/

/-- `from` and `to` of a connection. -/
structure TopologyConnection where
  source : String
  target : String
deriving DecidableEq, Repr

structure InstanceDeclaration where
  name : String
  component : String
deriving DecidableEq, Repr

/-- `spec.initialTopology`. -/
structure StaticTopology where
  instances : List InstanceDeclaration
  connections : List TopologyConnection
  ingressCommands : List (String × List IngressTarget)

/-- A reference to an artifact schema. -/
inductive SchemaReference where
  | naturalKey (name version : String)
  | text (reference : String)
deriving DecidableEq, Repr

/-- An input or output of a template. `required !== false` is of outputs only. -/
structure ContractPort where
  port : String
  schema : SchemaReference
  required : Bool
deriving DecidableEq, Repr

/-- A rule of a template's `fanIn`. -/
structure FanInDeclaration where
  input : String
  completionType : Option String
  expected : Option Json
  deadlineSeconds : Option Json

/-- A template. `fanIn` is a list beside `spec`. -/
structure TemplateDocument where
  inputs : List ContractPort
  outputs : List ContractPort
  completionSchema : Option SchemaReference
  policies : List String
  capabilities : List String
  allowedComponents : Option (List String)
  initialTopology : Option StaticTopology
  specFanIn : Option (List FanInDeclaration)
  fanIn : Option (List FanInDeclaration)

/-- A registered definition. -/
structure NamedDefinition where
  id : Uuid
  name : String
  version : String
  retired : Bool
deriving DecidableEq, Repr

structure TemplateDefinition extends NamedDefinition where
  document : TemplateDocument

/-- The definitions an instantiation reads. -/
structure Definitions where
  templates : List TemplateDefinition
  components : List NamedDefinition
  ports : List PortDefinition
  schemas : List NamedDefinition
  policies : List NamedDefinition
  capabilities : List NamedDefinition

/-- What an instantiation checks and computes beside its topology. -/
structure TemplateChecks where
  /-- `Number(value)` of a value that is no number, where it is a positive integer. -/
  coerce : Json → Option ℕ
  /-- `left.component.localeCompare(right.component) || left.port.localeCompare(right.port)`, where
  it is not positive. -/
  notAfter : IngressTarget → IngressTarget → Bool
  /-- The parameters, the configurations and the resource declarations. -/
  parameters : InstantiationContent → TemplateDocument → Outcome Unit
  initialStates : InstantiationContent → TemplateDocument → Outcome (List InitialState)
  /-- `canonicalJsonDigest` of what is instantiated. -/
  digest : InstantiationContent → TemplateDefinition → Digest

/-! ## References -/

/-- `DomainError` with the code `invalid_declaration`. -/
def invalidDeclaration : RuntimeError :=
  .request "invalid_declaration"

/-- Two parts of a string, or an error. -/
def parts (pair : List Char → Option (List Char × List Char)) (value : String) :
    Outcome (String × String) :=
  match pair value.toList with
  | some (left, right) => .ok (String.ofList left, String.ofList right)
  | none => .error invalidDeclaration

/-- `parseRef`. -/
def parseRef : String → Outcome (String × String) :=
  parts (Separators.lastPair '@')

/-- `requireNonEmptyString`. -/
def requireNonEmptyString (value : String) : Outcome Unit :=
  require (!isBlank value) invalidDeclaration

/-- `parseSchemaRef`. -/
def parseSchemaRef : SchemaReference → Outcome (String × String)
  | .naturalKey name version => do
    requireNonEmptyString name
    requireNonEmptyString version
    return (name, version)
  | .text reference => do
    requireNonEmptyString reference
    if '@' ∈ reference.toList then parseRef reference
    else parts (Separators.lastPair '.') reference

structure Endpoint where
  instanceName : String
  port : String
deriving DecidableEq, Repr

/-- `endpoint`. -/
def endpoint (value : String) : Outcome Endpoint := do
  let (instanceName, port) ← parts (Separators.lastPair '.') value
  return ⟨instanceName, port⟩

/-- An instance and a port, as the text of an endpoint. -/
def endpointKey (instanceName port : String) : String :=
  instanceName ++ "." ++ port

/-! ## Validation -/

/-- `requireReference`, `/^[^@]+@[^@]+$/`. -/
def requireReference (value : String) : Outcome Unit :=
  require (!isBlank value && (Separators.onePair '@' value.toList).isSome) invalidDeclaration

/-- `requireEndpoint`, `/^[^.]+\.[^.]+$/`. -/
def requireEndpoint (value : String) : Outcome Unit :=
  require (!isBlank value && (Separators.onePair '.' value.toList).isSome) invalidDeclaration

/-- The names of the instances, which have to be distinct. -/
def validateInstances : List InstanceDeclaration → List String → Outcome (List String)
  | [], names => .ok names
  | i :: rest, names => do
    requireNonEmptyString i.name
    requireReference i.component
    require (i.name ∉ names) (.request "duplicate_component_instance")
    validateInstances rest (names ++ [i.name])

/-- The targets of a command, each of them once. -/
def validateTargets (names : List String) : List IngressTarget → List String → Outcome Unit
  | [], _ => .ok ()
  | t :: rest, seen => do
    requireNonEmptyString t.component
    requireNonEmptyString t.port
    require (t.component ∈ names) invalidDeclaration
    require (endpointKey t.component t.port ∉ seen) (.request "duplicate_ingress_target")
    validateTargets names rest (seen ++ [endpointKey t.component t.port])

/-- `validateStaticTopology`. -/
def validateStaticTopology (topology : StaticTopology) : Outcome Unit := do
  let names ← validateInstances topology.instances []
  topology.ingressCommands.forM fun (commandType, targets) => do
    requireNonEmptyString commandType
    validateTargets names targets []
  topology.connections.forM fun c => do
    requireEndpoint c.source
    requireEndpoint c.target

/-! ## Definitions -/

/-- The registered definition of a name and version, which is not retired. -/
def findDefinition (kind : String) (definitions : List NamedDefinition)
    (reference : String × String) : Outcome NamedDefinition :=
  match definitions.find? fun d => d.name = reference.1 && d.version = reference.2 with
  | none => .error (.request (kind ++ "_not_found"))
  | some d => do
    require (!d.retired) (.request (kind ++ "_retired"))
    return d

structure ResolvedInstance where
  name : String
  definitionId : Uuid
  ports : List PortDefinition

/-- One turn of the loop over the instances. -/
def resolveInstance (D : Definitions) (allowed : Option (List String)) (i : InstanceDeclaration) :
    Outcome ResolvedInstance := do
  require (allowed.all (i.component ∈ ·)) (.request "component_not_allowed")
  let definition ← findDefinition "component_definition" D.components (← parseRef i.component)
  let ports := D.ports.filter (·.componentDefinitionId = definition.id)
  ports.forM fun p =>
    match D.schemas.find? (·.id = p.schemaId) with
    | none => .error (.request "artifact_schema_not_found")
    | some schema => require (!schema.retired) (.request "artifact_schema_retired")
  return ⟨i.name, definition.id, ports⟩

/-- `resolvedPort` of the instance with a name. -/
def resolvedPort (instances : List ResolvedInstance) (direction : PortDirection) (at_ : Endpoint) :
    Option PortDefinition :=
  (instances.find? (·.name = at_.instanceName)).bind fun i =>
    i.ports.find? fun p => p.name = at_.port && p.direction = direction

/-- The inputs or the outputs of a template with their schemas, each port once. -/
def resolveContracts (D : Definitions) :
    List ContractPort → List (ContractPort × Uuid) → Outcome (List (ContractPort × Uuid))
  | [], resolved => .ok resolved
  | c :: rest, resolved => do
    requireNonEmptyString c.port
    require (!resolved.any (·.1.port = c.port)) (.request "duplicate_port_identity")
    let schema ← findDefinition "artifact_schema" D.schemas (← parseSchemaRef c.schema)
    resolveContracts D rest (resolved ++ [(c, schema.id)])

/-- The schema of a port of the template. -/
def contractSchema (contracts : List (ContractPort × Uuid)) (port : String) : Option Uuid :=
  (contracts.find? (·.1.port = port)).map (·.2)

/-- The targets of a command are input ports, each of them once. -/
def resolveTargets (instances : List ResolvedInstance) :
    List IngressTarget → List String → Outcome Unit
  | [], _ => .ok ()
  | t :: rest, seen => do
    require (resolvedPort instances .input ⟨t.component, t.port⟩).isSome
      (.request "invalid_port_reference")
    require (endpointKey t.component t.port ∉ seen) (.request "duplicate_ingress_target")
    resolveTargets instances rest (seen ++ [endpointKey t.component t.port])

/-! ## Connections -/

/-- The name that stands for the boundary of the region. -/
def boundary : String :=
  "region"

/-- What the loop over the connections has collected. -/
structure Wiring where
  connectionKeys : List String
  /-- The targets of the connections so far that are no boundary, one entry a connection. -/
  incoming : List String
  connectedOutputs : List String
  persisted : List (String × String × String × String)

/-- The two ports of a connection have one schema. -/
def compatible (left right : Uuid) : Outcome Unit :=
  require (left = right) (.request "incompatible_port_schema")

/-- A port that has to be there. -/
def requirePort {α : Type} (port : Option α) : Outcome α :=
  match port with
  | some p => .ok p
  | none => .error (.request "invalid_port_reference")

/-- One turn of the loop over the connections. -/
def connect (instances : List ResolvedInstance) (inputs outputs : List (ContractPort × Uuid))
    (w : Wiring) (c : TopologyConnection) : Outcome Wiring := do
  let source ← endpoint c.source
  let target ← endpoint c.target
  let key := c.source ++ "->" ++ c.target
  require (key ∉ w.connectionKeys) (.request "duplicate_connection")
  let connectionKeys := w.connectionKeys ++ [key]
  let incoming :=
    if target.instanceName = boundary then w.incoming
    else w.incoming ++ [endpointKey target.instanceName target.port]
  require (!(source.instanceName = boundary && target.instanceName = boundary))
    (.request "invalid_port_reference")
  if source.instanceName = boundary then
    let port ← requirePort (resolvedPort instances .input target)
    let schema ← requirePort (contractSchema inputs source.port)
    compatible schema port.schemaId
    return { w with connectionKeys, incoming }
  else if target.instanceName = boundary then
    let port ← requirePort (resolvedPort instances .output source)
    let schema ← requirePort (contractSchema outputs target.port)
    compatible schema port.schemaId
    require (target.port ∉ w.connectedOutputs) (.request "duplicate_connection")
    return { w with
      connectionKeys, incoming, connectedOutputs := w.connectedOutputs ++ [target.port] }
  else
    let sourcePort ← requirePort (resolvedPort instances .output source)
    let targetPort ← requirePort (resolvedPort instances .input target)
    compatible sourcePort.schemaId targetPort.schemaId
    return { w with
      connectionKeys, incoming
      persisted := w.persisted ++
        [(source.instanceName, source.port, target.instanceName, target.port)] }

/-! ## Fan-in -/

/-- A positive integer. -/
def positiveInteger : Json → Option ℕ
  | .num q => if q.den = 1 ∧ 0 < q.num then some q.num.toNat else none
  | _ => none

/-- Whether a deadline is absent, or a positive number. -/
def validDeadline : Option Json → Bool
  | none => true
  | some (.num q) => 0 < q
  | some _ => false

/-- The inputs that have a fan-in rule, each of them one that expects what is connected to it. -/
def checkFanIn (instances : List ResolvedInstance) (incoming : List String) :
    List FanInDeclaration → List String → Outcome (List String)
  | [], seen => .ok seen
  | rule :: rest, seen => do
    requireNonEmptyString rule.input
    let target ← endpoint rule.input
    let key := endpointKey target.instanceName target.port
    require (key ∉ seen && (resolvedPort instances .input target).isSome &&
        rule.completionType = some "all-expected" &&
        rule.expected.bind positiveInteger = some (incoming.count key) &&
        validDeadline rule.deadlineSeconds)
      (.request "invalid_fan_in_rule")
    checkFanIn instances incoming rest (seen ++ [key])

/-- `Number(rule.completion?.expected)`, where it is a positive integer. -/
def FanInDeclaration.number (coerce : Json → Option ℕ) (rule : FanInDeclaration) : Option ℕ :=
  rule.expected.bind fun value =>
    match value with
    | .num q => positiveInteger (.num q)
    | value => coerce value

/-- The rules that `tryCandidate` reads from the topology of a revision, which is the template :
`topology?.spec?.fanIn ?? topology?.fanIn ?? []`. -/
def TemplateDocument.schedulerRules (coerce : Json → Option ℕ) (document : TemplateDocument) :
    List FanInRule :=
  ((document.specFanIn <|> document.fanIn).getD []).map fun rule =>
    ⟨rule.input, rule.number coerce⟩

/-! ## Resolution -/

/-- The instances, connections and rules of a topology. -/
structure ResolvedTopology where
  instances : List ResolvedInstance
  wiring : Wiring

/-- The checks of a topology, from its validation to its fan-in rules. -/
def resolveWiring (D : Definitions) (document : TemplateDocument) (topology : StaticTopology) :
    Outcome ResolvedTopology := do
  validateStaticTopology topology
  let instances ← topology.instances.mapM (resolveInstance D document.allowedComponents)
  let inputs ← resolveContracts D document.inputs []
  let outputs ← resolveContracts D document.outputs []
  document.completionSchema.toList.forM fun reference => do
    let _ ← findDefinition "artifact_schema" D.schemas (← parseSchemaRef reference)
  document.policies.forM fun reference => do
    let _ ← findDefinition "policy" D.policies (← parseRef reference)
  document.capabilities.forM fun reference => do
    let _ ← findDefinition "capability" D.capabilities (← parseRef reference)
  topology.ingressCommands.forM fun (_, targets) => resolveTargets instances targets []
  let wiring ← topology.connections.foldlM (connect instances inputs outputs) ⟨[], [], [], []⟩
  outputs.forM fun (output, _) =>
    require (!output.required || output.port ∈ wiring.connectedOutputs)
      (.request "missing_required_output")
  let ruled ← checkFanIn instances wiring.incoming (document.specFanIn.getD []) []
  require (wiring.incoming.all fun key => wiring.incoming.count key ≤ 1 || key ∈ ruled)
    (.request "invalid_fan_in_rule")
  return ⟨instances, wiring⟩

/-- The template of a request, which is registered and not retired. -/
def findTemplate (D : Definitions) (reference : String) : Outcome TemplateDefinition := do
  let (name, version) ← parseRef reference
  match D.templates.find? fun t => t.name = name && t.version = version with
  | none => .error (.request "template_not_found")
  | some template =>
    require (!template.retired) (.request "template_retired")
    return template

/-- What a request resolves to. -/
def resolveTopology (E : TemplateChecks) (D : Definitions) (content : InstantiationContent) :
    Outcome Resolution := do
  let template ← findTemplate D content.template
  match template.document.initialTopology with
  | none => .error invalidDeclaration
  | some topology =>
    let initialStates ← E.initialStates content template.document
    E.parameters content template.document
    let resolved ← resolveWiring D template.document topology
    return { templateId := template.id, digest := E.digest content template,
             fanIn := template.document.schedulerRules E.coerce,
             ingressCommands := topology.ingressCommands.map fun (commandType, targets) =>
               (commandType, targets.insertionSort (E.notAfter · ·)),
             instances := resolved.instances.map fun i => ⟨i.name, i.definitionId⟩,
             connections := resolved.wiring.persisted, initialStates }

end FactoryFloor
