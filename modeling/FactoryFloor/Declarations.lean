import FactoryFloor.Separators
import FactoryFloor.Schema

/-!
# Declarations

`declarations/validation.ts` of the runtime core, on the parsed body of a request. A validation
returns the document it leaves, since it fills in the `$schema` of an artifact schema and sorts the
targets of every ingress rule in place, before the digest of the document is taken.

`Declared` is what a registration goes on with. `declare_spec` says what every document that passes
has : a name and a version that are not blank, and ports of which no two agree in name and
direction.
-/

namespace FactoryFloor

namespace Declarations

/-- `DomainError`. -/
structure DomainError where
  code : String
  message : String
deriving DecidableEq, Repr

/-- A call that throws a `DomainError` or returns. -/
abbrev Checked (α : Type) := Except DomainError α

/-- What the validation is given from outside. -/
structure Libraries where
  /-- `a.localeCompare(b)`. -/
  localeCompare : String → String → ℤ
  /-- The message of what `new Ajv2020({ strict: true }).compile(schema)` throws. -/
  compileError : Json → Option String

/-- `if (!condition) throw new DomainError(code, message)`. -/
def check (condition : Bool) (code message : String) : Checked Unit :=
  if condition then .ok () else .error ⟨code, message⟩

/-- `throw new DomainError('invalid_declaration', message)` unless the condition holds. -/
def valid (condition : Bool) (message : String) : Checked Unit :=
  check condition "invalid_declaration" message

@[simp] theorem check_eq_ok {condition : Bool} {code message : String} :
    check condition code message = .ok () ↔ condition = true := by
  unfold check
  split <;> simp_all

@[simp] theorem valid_eq_ok {condition : Bool} {message : String} :
    valid condition message = .ok () ↔ condition = true :=
  check_eq_ok

/-! ## Values -/

/-- `left ?? right`. -/
def orElse : Option Json → Option Json → Option Json
  | none, right | some .null, right => right
  | left, _ => left

/-- The string a value is, when `nonEmptyString` accepts it. -/
def nonEmptyString : Option Json → Option String
  | some (.str s) => if isBlank s then none else some s
  | _ => none

theorem nonEmptyString_eq_some {value : Option Json} {s : String} :
    nonEmptyString value = some s ↔ value = some (.str s) ∧ isBlank s = false := by
  unfold nonEmptyString
  split
  next s' =>
    by_cases hs : isBlank s' = true
    · simp only [hs, if_true, reduceCtorEq, Option.some.injEq, Json.str.injEq, false_iff]
      rintro ⟨rfl, h⟩
      simp [hs] at h
    · simp only [hs, Bool.false_eq_true, if_false, Option.some.injEq, Json.str.injEq]
      constructor
      · rintro rfl
        exact ⟨rfl, by simpa using hs⟩
      · exact And.left
  next hstr =>
    simp only [reduceCtorEq, false_iff]
    rintro ⟨rfl, -⟩
    exact hstr s rfl

/-- `value.key` as a non-empty string. -/
def textOf (key : String) (value : Json) : Option String :=
  nonEmptyString (value.get? key)

/-- `value && typeof value === 'object' && !Array.isArray(value)`. -/
def isObject : Json → Bool
  | .obj _ => true
  | _ => false

/-- `value?.key` of a value that may be missing. -/
def member (key : String) (value : Option Json) : Option Json :=
  value.bind (·.get? key)

/-- `value.key = replacement` on the members of an object. -/
def assigned (key : String) (replacement : Json) : List (String × Json) → List (String × Json)
  | [] => [(key, replacement)]
  | m :: members =>
    if m.1 = key then (key, replacement) :: members else m :: assigned key replacement members

/-- `value.key = replacement`. -/
def set (key : String) (replacement : Json) : Json → Json
  | .obj members => .obj (assigned key replacement members)
  | value => value

/-- `requireReference`. -/
def requireReference (value : Option Json) (label : String) : Checked String :=
  match nonEmptyString value with
  | some s =>
    if (Separators.onePair '@' s.toList).isSome then .ok s
    else .error ⟨"invalid_declaration", label ++ " must be a name@version reference"⟩
  | none => .error ⟨"invalid_declaration", label ++ " must be a name@version reference"⟩

/-- `requireEndpoint`. -/
def requireEndpoint (value : Option Json) (label : String) : Checked String :=
  match nonEmptyString value with
  | some s =>
    if (Separators.onePair '.' s.toList).isSome then .ok s
    else .error ⟨"invalid_declaration", label ++ " must be an instance.port endpoint"⟩
  | none => .error ⟨"invalid_declaration", label ++ " must be an instance.port endpoint"⟩

/-! ## Envelopes -/

/-- `RegKind`. -/
inductive RegKind where
  | artifactSchema | componentDefinition | template | policy
deriving DecidableEq, Repr

/-- The `kind` of a declaration. -/
def RegKind.text : RegKind → String
  | .artifactSchema => "ArtifactSchema"
  | .componentDefinition => "ComponentDefinition"
  | .template => "Template"
  | .policy => "Policy"

/-- `requireEnvelope`, with the name and the version of the metadata. -/
def requireEnvelope (kind : String) (doc : Json) : Checked (String × String) := do
  valid (isObject doc) "Declaration must be an object"
  check (match doc.get? "apiVersion" with
      | some (.str v) => v == "factory-floor.dev/v1alpha1" || v == "factoryfloor.dev/v1alpha1"
      | _ => false)
    "unsupported_declaration_version" "Unsupported apiVersion"
  valid (match doc.get? "kind" with
      | some (.str k) => k == kind
      | _ => false)
    ("Expected kind " ++ kind)
  match nonEmptyString (member "name" (doc.get? "metadata")),
      nonEmptyString (member "version" (doc.get? "metadata")) with
  | some name, some version => return (name, version)
  | _, _ =>
    .error ⟨"invalid_declaration", "metadata.name and metadata.version must be non-empty strings"⟩

/-! ## Artifact schemas -/

/-- The dialect of artifact schemas. -/
def draft202012 : String :=
  "https://json-schema.org/draft/2020-12/schema"

/-- `spec.schema`, with its `$schema`. -/
def validateSchema (L : Libraries) (schema : Option Json) : Checked Json := do
  let schema ← match schema with
    | some (.obj members) => .ok (Json.obj members)
    | _ => .error ⟨"invalid_declaration", "spec.schema is required"⟩
  let schema := match orElse (schema.get? "$schema") none with
    | some _ => schema
    | none => set "$schema" (.str draft202012) schema
  valid (match schema.get? "$schema" with
      | some (.str dialect) => dialect == draft202012
      | _ => false)
    "Artifact schemas must use JSON Schema Draft 2020-12"
  match L.compileError schema with
  | some message => .error ⟨"invalid_declaration", "Invalid JSON Schema: " ++ message⟩
  | none => return schema

/-- `validateArtifactSchemaDeclaration`, with the document it leaves and its schema. -/
def validateArtifactSchemaDeclaration (L : Libraries) (doc : Json) :
    Checked ((String × String) × Json × Json) := do
  let key ← requireEnvelope RegKind.artifactSchema.text doc
  let schema ← validateSchema L (member "schema" (doc.get? "spec"))
  return (key, set "spec" (((doc.get? "spec").map (set "schema" schema)).getD .null) doc, schema)

/-! ## Component definitions -/

/-- The text of a direction. -/
def directionText : PortDirection → String
  | .input => "input"
  | .output => "output"
  | .state => "state"

/-- `['input', 'output', 'state'].includes(direction)`, with the direction. -/
def directionOf : String → Option PortDirection
  | "input" => some .input
  | "output" => some .output
  | "state" => some .state
  | _ => none

/-- A port of a component definition, with the natural key of its schema. -/
structure DeclaredPort where
  name : String
  direction : PortDirection
  required : Bool
  schemaName : String
  schemaVersion : String
deriving DecidableEq, Repr

/-- The key that tells two ports apart. -/
def DeclaredPort.key (p : DeclaredPort) : String :=
  p.name ++ ":" ++ directionText p.direction

/-- A port, without the check for duplicates. -/
def declaredPort (port : Json) : Checked DeclaredPort := do
  let (name, direction, required) ← match textOf "name" port, port.get? "direction",
      port.get? "required" with
    | some name, some (.str direction), some (.bool required) =>
      match directionOf direction with
      | some direction => .ok (name, direction, required)
      | none => .error ⟨"invalid_declaration", "Each port requires name, direction, required"⟩
    | _, _, _ => .error ⟨"invalid_declaration", "Each port requires name, direction, required"⟩
  let reference := orElse (port.get? "schema") (port.get? "schemaRef")
  match nonEmptyString (member "name" reference), nonEmptyString (member "version" reference) with
  | some schemaName, some schemaVersion =>
    return { name, direction, required, schemaName, schemaVersion }
  | _, _ => .error ⟨"invalid_declaration", "Each port requires schema natural key"⟩

/-- The loop over `spec.ports`, with the keys seen so far. -/
def validatePorts : List Json → List String → Checked (List DeclaredPort)
  | [], _ => .ok []
  | port :: rest, seen => do
    let p ← declaredPort port
    check (p.key ∉ seen) "duplicate_port_identity" ("Duplicate port " ++ p.key)
    let ports ← validatePorts rest (seen ++ [p.key])
    return p :: ports

/-- `validateComponentDefinitionDeclaration`, with the ports it has read. -/
def validateComponentDefinitionDeclaration (doc : Json) :
    Checked ((String × String) × List DeclaredPort) := do
  let key ← requireEnvelope RegKind.componentDefinition.text doc
  match member "ports" (doc.get? "spec") with
  | some (.arr ports) => return (key, ← validatePorts ports [])
  | _ => .error ⟨"invalid_declaration", "spec.ports is required"⟩

/-! ## Static topologies -/

/-- The loop over the instances, with the names seen so far. -/
def validateInstances : List Json → List String → Checked (List String)
  | [], names => .ok names
  | i :: rest, names => do
    let name ← match textOf "name" i with
      | some name => .ok name
      | none => .error ⟨"invalid_declaration", "Each topology instance requires a non-empty name"⟩
    let _ ← requireReference (i.get? "component") ("Component reference for " ++ name)
    check (name ∉ names) "duplicate_component_instance" ("Duplicate component instance " ++ name)
    valid ((i.get? "configuration").all isObject) ("Configuration for " ++ name ++
      " must be an object")
    validateInstances rest (names ++ [name])

/-- The component and the port of an ingress target. -/
def targetKey (target : Json) : Option (String × String) :=
  match textOf "component" target, textOf "port" target with
  | some component, some port => some (component, port)
  | _, _ => none

/-- The loop over the targets of a rule, with the keys seen so far. -/
def validateTargets (commandType : String) (names : List String) :
    List Json → List String → Checked Unit
  | [], _ => .ok ()
  | target :: rest, seen => do
    let (component, port) ← match targetKey target with
      | some key => .ok key
      | none => .error ⟨"invalid_declaration", "Ingress " ++ commandType ++
          " target requires component and port"⟩
    valid (component ∈ names) ("Ingress " ++ commandType ++ " target component does not exist")
    let key := component ++ "." ++ port
    check (key ∉ seen) "duplicate_ingress_target" ("Duplicate ingress target " ++ key)
    validateTargets commandType names rest (seen ++ [key])

/-- `a.component.localeCompare(b.component) || a.port.localeCompare(b.port)` is not positive. -/
def targetLe (L : Libraries) (a b : Json) : Bool :=
  match targetKey a, targetKey b with
  | some a, some b =>
    let byComponent := L.localeCompare a.1 b.1
    (if byComponent ≠ 0 then byComponent else L.localeCompare a.2 b.2) ≤ 0
  | _, _ => true

/-- The loop over `ingress.commands`, with the rules it leaves. -/
def validateRules (L : Libraries) (names : List String) :
    List (String × Json) → Checked (List (String × Json))
  | [] => .ok []
  | (commandType, rule) :: rest => do
    valid (!isBlank commandType) "Ingress command type must be non-empty"
    let targets ← match rule.get? "targets" with
      | some (.arr targets) => .ok targets
      | _ => .error ⟨"invalid_declaration", "Ingress " ++ commandType ++ " requires targets"⟩
    validateTargets commandType names targets []
    let rules ← validateRules L names rest
    return (commandType, set "targets" (.arr (targets.mergeSort (targetLe L))) rule) :: rules

/-- `topology.ingress`, with its rules sorted. -/
def validateIngress (L : Libraries) (names : List String) (ingress : Option Json) :
    Checked (Option Json) :=
  match member "commands" ingress with
  | none => .ok ingress
  | some (.obj rules) => do
    let rules ← validateRules L names rules
    return ingress.map (set "commands" (.obj rules))
  | some _ => .error ⟨"invalid_declaration", "ingress.commands must be an object"⟩

/-- `validateStaticTopology`, with the topology it leaves. -/
def validateStaticTopology (L : Libraries) (topology : Json) : Checked Json := do
  valid (isObject topology) "initialTopology must be an object"
  match topology.get? "instances", topology.get? "connections" with
  | some (.arr instances), some (.arr connections) =>
    let names ← validateInstances instances []
    let ingress ← validateIngress L names (topology.get? "ingress")
    connections.forM fun c => do
      let _ ← requireEndpoint (c.get? "from") "Connection source"
      let _ ← requireEndpoint (c.get? "to") "Connection target"
    return match ingress with
      | some ingress => set "ingress" ingress topology
      | none => topology
  | _, _ =>
    .error ⟨"invalid_declaration", "initialTopology requires instances and connections arrays"⟩

/-- `validateSimpleDeclaration`, with the document it leaves. -/
def validateSimpleDeclaration (L : Libraries) (kind : RegKind) (doc : Json) :
    Checked ((String × String) × Json) := do
  let key ← requireEnvelope kind.text doc
  match doc.get? "spec" with
  | some (.obj members) =>
    let spec := Json.obj members
    match kind, spec.get? "initialTopology" with
    | .template, some topology =>
      let topology ← validateStaticTopology L topology
      return (key, set "spec" (set "initialTopology" topology spec) doc)
    | _, _ => return (key, doc)
  | _ => .error ⟨"invalid_declaration", "spec is required"⟩

/-! ## What a registration goes on with -/

/-- What a registration takes from a document that has passed. `content` is what the table of the
kind stores. -/
structure Declared where
  name : String
  version : String
  document : Json
  content : Json
  ports : List DeclaredPort

/-- The validation each `register…` begins with. -/
def declare (L : Libraries) : RegKind → Json → Checked Declared
  | .artifactSchema, doc => do
    let (key, document, schema) ← validateArtifactSchemaDeclaration L doc
    return { name := key.1, version := key.2, document, content := schema, ports := [] }
  | .componentDefinition, doc => do
    let (key, ports) ← validateComponentDefinitionDeclaration doc
    return { name := key.1, version := key.2, document := doc, content := doc, ports }
  | .template, doc => do
    let (key, document) ← validateSimpleDeclaration L .template doc
    return { name := key.1, version := key.2, document, content := document, ports := [] }
  | .policy, doc => do
    let (key, document) ← validateSimpleDeclaration L .policy doc
    return { name := key.1, version := key.2, document, content := document, ports := [] }

/-! ## What passes -/

theorem DeclaredPort.key_injective {p q : DeclaredPort} (h : p.key = q.key) :
    p.name = q.name ∧ p.direction = q.direction := by
  have hkey : (directionText p.direction).toList.reverse ++ ':' :: p.name.toList.reverse =
      (directionText q.direction).toList.reverse ++ ':' :: q.name.toList.reverse := by
    have hlist := congrArg (fun s => s.toList.reverse) h
    simpa [key] using hlist
  have hname : ∀ s t : String, s.toList.reverse = t.toList.reverse → s = t := fun s t hst =>
    String.toList_inj.1 (List.reverse_injective hst)
  cases hp : p.direction <;> cases hq : q.direction <;>
    simp only [hp, hq, directionText, String.reduceToList, List.reverse_cons, List.reverse_nil,
      List.nil_append, List.cons_append, List.cons.injEq, true_and, Char.reduceEq,
      false_and, and_false] at hkey
  all_goals exact ⟨hname _ _ hkey, rfl⟩

theorem validatePorts_keys {docs : List Json} {seen : List String} {ports : List DeclaredPort}
    (h : validatePorts docs seen = .ok ports) :
    (ports.map DeclaredPort.key).Nodup ∧ ∀ p ∈ ports, p.key ∉ seen := by
  induction docs generalizing seen ports with
  | nil =>
    cases h
    simp
  | cons port rest ih =>
    simp only [validatePorts, Except.bind_eq_ok] at h
    obtain ⟨p, -, _, hp, ports', hrest, h⟩ := h
    have hp := of_decide_eq_true (check_eq_ok.1 hp)
    cases h
    obtain ⟨hnodup, hseen⟩ := ih hrest
    refine ⟨?_, ?_⟩
    · refine List.nodup_cons.2 ⟨fun hmem => ?_, hnodup⟩
      obtain ⟨q, hq, hkey⟩ := List.mem_map.1 hmem
      exact hseen q hq (by simp [hkey])
    · rintro q hq
      rcases List.mem_cons.1 hq with rfl | hq
      · exact hp
      · exact fun hmem => hseen q hq (List.mem_append_left _ hmem)

theorem requireEnvelope_spec {kind : String} {doc : Json} {key : String × String}
    (h : requireEnvelope kind doc = .ok key) :
    isBlank key.1 = false ∧ isBlank key.2 = false := by
  simp only [requireEnvelope, Except.bind_eq_ok] at h
  obtain ⟨-, -, -, -, -, -, h⟩ := h
  split at h
  next name version hname hversion =>
    cases h
    exact ⟨(nonEmptyString_eq_some.1 hname).2, (nonEmptyString_eq_some.1 hversion).2⟩
  next => cases h

theorem validateSimpleDeclaration_key {L : Libraries} {kind : RegKind} {doc : Json}
    {checked : (String × String) × Json} (h : validateSimpleDeclaration L kind doc = .ok checked) :
    requireEnvelope kind.text doc = .ok checked.1 := by
  simp only [validateSimpleDeclaration, Except.bind_eq_ok] at h
  obtain ⟨key, hkey, h⟩ := h
  rw [hkey]
  split at h
  · split at h
    · simp only [Except.bind_eq_ok] at h
      obtain ⟨_, -, h⟩ := h
      cases h
      rfl
    · cases h
      rfl
  · cases h

/-- A document that passes has a name and a version, and no port of it twice. -/
structure Declared.Valid (d : Declared) : Prop where
  name : isBlank d.name = false
  version : isBlank d.version = false
  ports : (d.ports.map fun p => (p.name, p.direction)).Nodup

theorem nodup_ports {ports : List DeclaredPort} (h : (ports.map DeclaredPort.key).Nodup) :
    (ports.map fun p => (p.name, p.direction)).Nodup := by
  rw [List.nodup_map_iff_inj_on (List.Nodup.of_map _ h)]
  intro p hp q hq hkey
  refine List.inj_on_of_nodup_map h hp hq ?_
  obtain ⟨hname, hdirection⟩ := Prod.mk.inj hkey
  simp [DeclaredPort.key, hname, hdirection]

theorem declare_spec {L : Libraries} {kind : RegKind} {doc : Json} {d : Declared}
    (h : declare L kind doc = .ok d) : d.Valid := by
  cases kind with
  | artifactSchema =>
    simp only [declare, validateArtifactSchemaDeclaration, Except.bind_eq_ok] at h
    obtain ⟨_, ⟨key, hkey, schema, -, ho⟩, h⟩ := h
    cases ho
    cases h
    exact ⟨(requireEnvelope_spec hkey).1, (requireEnvelope_spec hkey).2, List.nodup_nil⟩
  | componentDefinition =>
    simp only [declare, validateComponentDefinitionDeclaration, Except.bind_eq_ok] at h
    obtain ⟨_, ⟨key, hkey, ho⟩, h⟩ := h
    cases h
    split at ho
    next docs =>
      simp only [Except.bind_eq_ok] at ho
      obtain ⟨ports, hports, ho⟩ := ho
      cases ho
      exact ⟨(requireEnvelope_spec hkey).1, (requireEnvelope_spec hkey).2,
        nodup_ports (validatePorts_keys hports).1⟩
    next => cases ho
  | template | policy =>
    simp only [declare, Except.bind_eq_ok] at h
    obtain ⟨_, hsimple, h⟩ := h
    cases h
    have hkey := requireEnvelope_spec (validateSimpleDeclaration_key hsimple)
    exact ⟨hkey.1, hkey.2, List.nodup_nil⟩

end Declarations

end FactoryFloor
