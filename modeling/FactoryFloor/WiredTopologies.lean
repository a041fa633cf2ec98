import FactoryFloor.Topologies

/-!
# Resolved topologies

What the loop over the connections collects (`Wired`), and what the checks after it leave
(`resolveWiring_eq_ok`). The validation wants one dot in an endpoint, so that the text of an endpoint
and its two parts say the same (`endpoint_eq_ok`, `Dotted`).
-/

namespace FactoryFloor

open Relational

/-! ## Endpoints -/

theorem parts_eq_ok {pair : List Char → Option (List Char × List Char)} {value left right : String} :
    parts pair value = .ok (left, right) ↔
      pair value.toList = some (left.toList, right.toList) := by
  unfold parts
  cases hpair : pair value.toList with
  | none => simp
  | some ends =>
    obtain ⟨l, r⟩ := ends
    simp only [Except.ok.injEq, Prod.mk.injEq, Option.some.injEq]
    constructor
    · rintro ⟨rfl, rfl⟩
      simp
    · rintro ⟨rfl, rfl⟩
      simp

theorem endpoint_eq_parts {value : String} {e : Endpoint} :
    endpoint value = .ok e ↔
      Separators.lastPair '.' value.toList = some (e.instanceName.toList, e.port.toList) := by
  unfold endpoint
  constructor
  · intro h
    obtain ⟨⟨left, right⟩, hparts, h⟩ := Except.bind_eq_ok.1 h
    obtain rfl := Except.ok.inj h
    exact parts_eq_ok.1 hparts
  · intro h
    rw [parts_eq_ok.2 h]
    rfl

/-- An endpoint is the text of its parts. -/
theorem eq_endpointKey {value : String} {e : Endpoint} (h : endpoint value = .ok e) :
    value = endpointKey e.instanceName e.port := by
  obtain ⟨hword, -⟩ := Separators.lastPair_eq_some.1 (endpoint_eq_parts.1 h)
  apply String.toList_inj.1
  rw [hword, endpointKey, String.toList_append, String.toList_append]
  simp

/-- A text with one dot, and something on both sides of it. -/
def Dotted (value : String) : Prop :=
  (Separators.onePair '.' value.toList).isSome

theorem requireEndpoint_eq_ok {value : String} (h : requireEndpoint value = .ok ()) :
    Dotted value := by
  have h := require_eq_ok.1 h
  rw [Bool.and_eq_true] at h
  exact h.2

/-- The parts of a text with one dot are those of every reading of it. -/
theorem Dotted.exists_parts {value : String} (h : Dotted value) :
    ∃ e, endpoint value = .ok e ∧ value = endpointKey e.instanceName e.port ∧
      Separators.onePair '.' value.toList = some (e.instanceName.toList, e.port.toList) := by
  obtain ⟨⟨left, right⟩, hpair⟩ := Option.isSome_iff_exists.1 h
  have hends : endpoint value = .ok ⟨String.ofList left, String.ofList right⟩ := by
    rw [endpoint_eq_parts]
    simpa using Separators.lastPair_of_onePair hpair
  exact ⟨_, hends, eq_endpointKey hends, by simpa using hpair⟩

/-- A text with one dot that is the text of an instance and a port has these as its parts. -/
theorem Dotted.endpoint_eq {instanceName port : String} (h : Dotted (endpointKey instanceName port)) :
    endpoint (endpointKey instanceName port) = .ok ⟨instanceName, port⟩ := by
  obtain ⟨e, hends, hkey, hpair⟩ := h.exists_parts
  rw [endpointKey, String.toList_append, String.toList_append, List.append_assoc] at hpair
  obtain ⟨hinstance, hport⟩ := Prod.mk.inj (Separators.onePair_append hpair)
  rw [hends, ← String.toList_inj.1 hinstance, ← String.toList_inj.1 hport]

/-! ## Connections -/

/-- The two ends of a connection. -/
structure Wire where
  source : Endpoint
  target : Endpoint
deriving DecidableEq, Repr

/-- The ends of a declared connection, as the service reads them. -/
def TopologyConnection.ends (c : TopologyConnection) : Option Wire :=
  match endpoint c.source, endpoint c.target with
  | .ok source, .ok target => some ⟨source, target⟩
  | _, _ => none

theorem TopologyConnection.ends_eq_some {c : TopologyConnection} {w : Wire} :
    c.ends = some w ↔ endpoint c.source = .ok w.source ∧ endpoint c.target = .ok w.target := by
  obtain ⟨source, target⟩ := w
  unfold TopologyConnection.ends
  cases endpoint c.source <;> cases endpoint c.target <;> simp

/-- Connections with the same ends are the same. -/
theorem TopologyConnection.eq_of_ends {c c' : TopologyConnection} {w : Wire}
    (h : c.ends = some w) (h' : c'.ends = some w) : c = c' := by
  obtain ⟨hsource, htarget⟩ := ends_eq_some.1 h
  obtain ⟨hsource', htarget'⟩ := ends_eq_some.1 h'
  obtain ⟨source, target⟩ := c
  obtain ⟨source', target'⟩ := c'
  simp only at hsource htarget hsource' htarget'
  rw [eq_endpointKey hsource, eq_endpointKey htarget, eq_endpointKey hsource',
    eq_endpointKey htarget']

/-- The key that a connection counts for at its target, which is no boundary. -/
def Wire.incomingKey (w : Wire) : Option String :=
  if w.target.instanceName = boundary then none
  else some (endpointKey w.target.instanceName w.target.port)

/-- The output of the region that a connection produces. -/
def Wire.producedPort (w : Wire) : Option String :=
  if w.source.instanceName ≠ boundary ∧ w.target.instanceName = boundary then some w.target.port
  else none

/-- The connection that is persisted, with no end at a boundary. -/
def Wire.persisted (w : Wire) : Option (String × String × String × String) :=
  if w.source.instanceName ≠ boundary ∧ w.target.instanceName ≠ boundary then
    some (w.source.instanceName, w.source.port, w.target.instanceName, w.target.port)
  else none

section

variable {instances : List ResolvedInstance} {inputs outputs : List (ContractPort × Uuid)}

/-- The ports of a connection : it starts or ends at a boundary, or it is between two instances. -/
inductive Wire.Fits (instances : List ResolvedInstance) (inputs outputs : List (ContractPort × Uuid))
    (w : Wire) : Prop
  | ingress {port : PortDefinition} (hsource : w.source.instanceName = boundary)
      (htarget : w.target.instanceName ≠ boundary)
      (hport : resolvedPort instances .input w.target = some port)
      (hschema : contractSchema inputs w.source.port = some port.schemaId) :
      Fits instances inputs outputs w
  | egress {port : PortDefinition} (hsource : w.source.instanceName ≠ boundary)
      (htarget : w.target.instanceName = boundary)
      (hport : resolvedPort instances .output w.source = some port)
      (hschema : contractSchema outputs w.target.port = some port.schemaId) :
      Fits instances inputs outputs w
  | internal {sourcePort targetPort : PortDefinition} (hsource : w.source.instanceName ≠ boundary)
      (htarget : w.target.instanceName ≠ boundary)
      (houtput : resolvedPort instances .output w.source = some sourcePort)
      (hinput : resolvedPort instances .input w.target = some targetPort)
      (hschema : sourcePort.schemaId = targetPort.schemaId) : Fits instances inputs outputs w

theorem requirePort_eq_ok {α : Type} {port : Option α} {p : α} :
    requirePort port = .ok p ↔ port = some p := by
  cases port <;> simp [requirePort]

/-- The text that tells connections apart. -/
def TopologyConnection.key (c : TopologyConnection) : String :=
  c.source ++ "->" ++ c.target

/-- One turn of the loop over the connections. -/
theorem connect_eq_ok {w w' : Wiring} {c : TopologyConnection}
    (h : connect instances inputs outputs w c = .ok w') :
    ∃ wire, c.ends = some wire ∧ wire.Fits instances inputs outputs ∧
      c.key ∉ w.connectionKeys ∧ (∀ port ∈ wire.producedPort, port ∉ w.connectedOutputs) ∧
      w' = ⟨w.connectionKeys ++ [c.key], w.incoming ++ wire.incomingKey.toList,
        w.connectedOutputs ++ wire.producedPort.toList, w.persisted ++ wire.persisted.toList⟩ := by
  unfold connect at h
  obtain ⟨source, hsource, h⟩ := Except.bind_eq_ok.1 h
  obtain ⟨target, htarget, h⟩ := Except.bind_eq_ok.1 h
  obtain ⟨⟨⟩, hkey, h⟩ := Except.bind_eq_ok.1 h
  obtain ⟨⟨⟩, hboundaries, h⟩ := Except.bind_eq_ok.1 h
  have hkey : c.key ∉ w.connectionKeys := of_decide_eq_true (require_eq_ok.1 hkey)
  have hends : c.ends = some ⟨source, target⟩ :=
    TopologyConnection.ends_eq_some.2 ⟨hsource, htarget⟩
  refine ⟨⟨source, target⟩, hends, ?_⟩
  by_cases hin : source.instanceName = boundary
  · have hout : target.instanceName ≠ boundary := by simpa [hin] using hboundaries
    rw [if_pos hin] at h
    obtain ⟨port, hport, h⟩ := Except.bind_eq_ok.1 h
    obtain ⟨schema, hschema, h⟩ := Except.bind_eq_ok.1 h
    obtain ⟨⟨⟩, hsame, h⟩ := Except.bind_eq_ok.1 h
    have hsame : schema = port.schemaId := of_decide_eq_true (require_eq_ok.1 hsame)
    obtain rfl := Except.ok.inj h
    refine ⟨.ingress hin hout (requirePort_eq_ok.1 hport) (hsame ▸ requirePort_eq_ok.1 hschema),
      hkey, ?_⟩
    simp [Wire.producedPort, Wire.incomingKey, Wire.persisted, hin, hout, TopologyConnection.key]
  · rw [if_neg hin] at h
    by_cases hout : target.instanceName = boundary
    · rw [if_pos hout] at h
      obtain ⟨port, hport, h⟩ := Except.bind_eq_ok.1 h
      obtain ⟨schema, hschema, h⟩ := Except.bind_eq_ok.1 h
      obtain ⟨⟨⟩, hsame, h⟩ := Except.bind_eq_ok.1 h
      obtain ⟨⟨⟩, hsingle, h⟩ := Except.bind_eq_ok.1 h
      have hsame : schema = port.schemaId := of_decide_eq_true (require_eq_ok.1 hsame)
      have hsingle : target.port ∉ w.connectedOutputs := of_decide_eq_true (require_eq_ok.1 hsingle)
      obtain rfl := Except.ok.inj h
      refine ⟨.egress hin hout (requirePort_eq_ok.1 hport) (hsame ▸ requirePort_eq_ok.1 hschema),
        hkey, ?_⟩
      simp [Wire.producedPort, Wire.incomingKey, Wire.persisted, hin, hout, hsingle,
        TopologyConnection.key]
    · rw [if_neg hout] at h
      obtain ⟨sourcePort, houtput, h⟩ := Except.bind_eq_ok.1 h
      obtain ⟨targetPort, hinput, h⟩ := Except.bind_eq_ok.1 h
      obtain ⟨⟨⟩, hsame, h⟩ := Except.bind_eq_ok.1 h
      have hsame := of_decide_eq_true (require_eq_ok.1 hsame)
      obtain rfl := Except.ok.inj h
      refine ⟨.internal hin hout (requirePort_eq_ok.1 houtput) (requirePort_eq_ok.1 hinput) hsame,
        hkey, ?_⟩
      simp [Wire.producedPort, Wire.incomingKey, Wire.persisted, hin, hout, TopologyConnection.key]

/-- What the loop over the connections has collected of the connections it has gone through. -/
structure Wired (instances : List ResolvedInstance) (inputs outputs : List (ContractPort × Uuid))
    (connections : List TopologyConnection) (w : Wiring) : Prop where
  fits : ∀ c ∈ connections, ∃ wire, c.ends = some wire ∧ wire.Fits instances inputs outputs
  keys : w.connectionKeys = connections.map (·.key)
  distinct : w.connectionKeys.Nodup
  incoming : w.incoming = (connections.filterMap (·.ends)).filterMap (·.incomingKey)
  produced : w.connectedOutputs = (connections.filterMap (·.ends)).filterMap (·.producedPort)
  single : w.connectedOutputs.Nodup
  persisted : w.persisted = (connections.filterMap (·.ends)).filterMap (·.persisted)

theorem Wired.connect {connections : List TopologyConnection} {c : TopologyConnection}
    {w w' : Wiring} (hw : Wired instances inputs outputs connections w)
    (h : FactoryFloor.connect instances inputs outputs w c = .ok w') :
    Wired instances inputs outputs (connections ++ [c]) w' := by
  obtain ⟨wire, hends, hfits, hkey, hsingle, rfl⟩ := connect_eq_ok h
  have hwires : (connections ++ [c]).filterMap (·.ends) = connections.filterMap (·.ends) ++ [wire] := by
    simp [hends]
  have hstep : ∀ {α : Type} (f : Wire → Option α),
      ((connections ++ [c]).filterMap (·.ends)).filterMap f =
        (connections.filterMap (·.ends)).filterMap f ++ (f wire).toList := by
    intro α f
    rw [hwires, List.filterMap_append]
    cases hf : f wire <;> simp [hf]
  refine ⟨fun c' hc' => ?_, ?_, ?_, ?_, ?_, ?_, ?_⟩
  · rcases List.mem_append.1 hc' with hc' | hc'
    · exact hw.fits c' hc'
    · obtain rfl := List.mem_singleton.1 hc'
      exact ⟨wire, hends, hfits⟩
  · simp [hw.keys]
  · refine hw.distinct.append (List.nodup_singleton _) fun k hk hk' => ?_
    exact hkey (List.mem_singleton.1 hk' ▸ hk)
  · rw [hstep, ← hw.incoming]
  · rw [hstep, ← hw.produced]
  · refine hw.single.append ?_ fun p hp hp' => hsingle p (Option.mem_toList.1 hp') hp
    cases wire.producedPort <;> simp
  · rw [hstep, ← hw.persisted]

theorem foldlM_connect_eq_ok {connections : List TopologyConnection} {w : Wiring}
    (h : connections.foldlM (connect instances inputs outputs) ⟨[], [], [], []⟩ = .ok w) :
    Wired instances inputs outputs connections w := by
  refine Except.foldlM_done (I := Wired instances inputs outputs)
    (fun done c rest w w' _ hw hc => hw.connect hc) ?_ h
  constructor <;> simp

/-! ## The other checks -/

theorem validateInstances_eq_ok {declared : List InstanceDeclaration} {names names' : List String}
    (hnames : names.Nodup) (h : validateInstances declared names = .ok names') :
    names' = names ++ declared.map (·.name) ∧ names'.Nodup := by
  induction declared generalizing names with
  | nil =>
    obtain rfl := Except.ok.inj h
    exact ⟨by simp, hnames⟩
  | cons i declared ih =>
    obtain ⟨⟨⟩, -, h⟩ := Except.bind_eq_ok.1 h
    obtain ⟨⟨⟩, -, h⟩ := Except.bind_eq_ok.1 h
    obtain ⟨⟨⟩, hnew, h⟩ := Except.bind_eq_ok.1 h
    have hnew : i.name ∉ names := of_decide_eq_true (require_eq_ok.1 hnew)
    obtain ⟨rfl, hdistinct⟩ := ih (hnames.append (List.nodup_singleton _) (by simpa using hnew)) h
    exact ⟨by simp, hdistinct⟩

/-- A valid topology names its instances apart, and its endpoints have one dot each. -/
theorem validateStaticTopology_eq_ok {topology : StaticTopology}
    (h : validateStaticTopology topology = .ok ()) :
    (topology.instances.map (·.name)).Nodup ∧
      ∀ c ∈ topology.connections, Dotted c.source ∧ Dotted c.target := by
  obtain ⟨names, hnames, h⟩ := Except.bind_eq_ok.1 h
  obtain ⟨⟨⟩, -, h⟩ := Except.bind_eq_ok.1 h
  obtain ⟨hdeclared, hdistinct⟩ := validateInstances_eq_ok List.nodup_nil hnames
  refine ⟨by simpa [hdeclared] using hdistinct, fun c hc => ?_⟩
  obtain ⟨⟨⟩, hsource, htarget⟩ := Except.bind_eq_ok.1 (Except.forM_eq_ok h hc)
  exact ⟨requireEndpoint_eq_ok hsource, requireEndpoint_eq_ok htarget⟩

theorem resolveInstance_eq_ok {D : Definitions} {allowed : Option (List String)}
    {i : InstanceDeclaration} {resolved : ResolvedInstance}
    (h : resolveInstance D allowed i = .ok resolved) :
    resolved.name = i.name ∧
      resolved.ports = D.ports.filter (·.componentDefinitionId = resolved.definitionId) := by
  obtain ⟨⟨⟩, -, h⟩ := Except.bind_eq_ok.1 h
  obtain ⟨reference, -, h⟩ := Except.bind_eq_ok.1 h
  obtain ⟨definition, -, h⟩ := Except.bind_eq_ok.1 h
  obtain ⟨⟨⟩, -, h⟩ := Except.bind_eq_ok.1 h
  obtain rfl := Except.ok.inj h
  exact ⟨rfl, rfl⟩

/-- The contracts of a template are resolved in their order. -/
theorem resolveContracts_eq_ok {D : Definitions} {contracts : List ContractPort}
    {resolved resolved' : List (ContractPort × Uuid)}
    (h : resolveContracts D contracts resolved = .ok resolved') :
    resolved'.map (·.1) = resolved.map (·.1) ++ contracts := by
  induction contracts generalizing resolved with
  | nil =>
    obtain rfl := Except.ok.inj h
    simp
  | cons c contracts ih =>
    obtain ⟨⟨⟩, -, h⟩ := Except.bind_eq_ok.1 h
    obtain ⟨⟨⟩, -, h⟩ := Except.bind_eq_ok.1 h
    obtain ⟨reference, -, h⟩ := Except.bind_eq_ok.1 h
    obtain ⟨schema, -, h⟩ := Except.bind_eq_ok.1 h
    rw [ih h]
    simp

/-- A fan-in rule that is accepted : it is about one endpoint, and expects what is connected to it. -/
structure FanInDeclaration.Accepted (incoming : List String) (rule : FanInDeclaration) : Prop where
  expected : rule.expected.bind positiveInteger = some (incoming.count rule.input)
  input : ∃ e, endpoint rule.input = .ok e

theorem checkFanIn_eq_ok {incoming : List String} {rules : List FanInDeclaration}
    {seen seen' : List String} (hseen : seen.Nodup)
    (h : checkFanIn instances incoming rules seen = .ok seen') :
    seen' = seen ++ rules.map (·.input) ∧ seen'.Nodup ∧ ∀ rule ∈ rules, rule.Accepted incoming := by
  induction rules generalizing seen with
  | nil =>
    obtain rfl := Except.ok.inj h
    exact ⟨by simp, hseen, by simp⟩
  | cons rule rules ih =>
    obtain ⟨⟨⟩, -, h⟩ := Except.bind_eq_ok.1 h
    obtain ⟨target, htarget, h⟩ := Except.bind_eq_ok.1 h
    obtain ⟨⟨⟩, hrule, h⟩ := Except.bind_eq_ok.1 h
    rw [← eq_endpointKey htarget] at hrule h
    have hrule := require_eq_ok.1 hrule
    simp only [Bool.and_eq_true, decide_eq_true_eq] at hrule
    obtain ⟨⟨⟨⟨hnew, -⟩, -⟩, hexpected⟩, -⟩ := hrule
    obtain ⟨rfl, hdistinct, hrules⟩ :=
      ih (hseen.append (List.nodup_singleton _) (by simpa using hnew)) h
    exact ⟨by simp, hdistinct, List.forall_mem_cons.2 ⟨⟨hexpected, target, htarget⟩, hrules⟩⟩

/-! ## Resolution -/

/-- What is known of a topology that has been resolved. -/
structure ResolvedTopology.Sound (D : Definitions) (document : TemplateDocument)
    (topology : StaticTopology) (inputs outputs : List (ContractPort × Uuid))
    (resolved : ResolvedTopology) : Prop where
  names : resolved.instances.map (·.name) = topology.instances.map (·.name)
  distinct : (topology.instances.map (·.name)).Nodup
  ports : ∀ i ∈ resolved.instances,
    i.ports = D.ports.filter (·.componentDefinitionId = i.definitionId)
  dotted : ∀ c ∈ topology.connections, Dotted c.source ∧ Dotted c.target
  wired : Wired resolved.instances inputs outputs topology.connections resolved.wiring
  outputs : outputs.map (·.1) = document.outputs
  required : ∀ output ∈ document.outputs, output.required →
    output.port ∈ resolved.wiring.connectedOutputs
  ruled : ((document.specFanIn.getD []).map (·.input)).Nodup
  rules : ∀ rule ∈ document.specFanIn.getD [], rule.Accepted resolved.wiring.incoming
  single : ∀ key ∈ resolved.wiring.incoming, resolved.wiring.incoming.count key ≤ 1 ∨
    key ∈ (document.specFanIn.getD []).map (·.input)

theorem resolveWiring_eq_ok {D : Definitions} {document : TemplateDocument}
    {topology : StaticTopology} {resolved : ResolvedTopology}
    (h : resolveWiring D document topology = .ok resolved) :
    ∃ inputs outputs, resolved.Sound D document topology inputs outputs := by
  obtain ⟨⟨⟩, hvalid, h⟩ := Except.bind_eq_ok.1 h
  obtain ⟨instances, hinstances, h⟩ := Except.bind_eq_ok.1 h
  obtain ⟨inputs, hinputs, h⟩ := Except.bind_eq_ok.1 h
  obtain ⟨outputs, houtputs, h⟩ := Except.bind_eq_ok.1 h
  obtain ⟨⟨⟩, -, h⟩ := Except.bind_eq_ok.1 h
  obtain ⟨⟨⟩, -, h⟩ := Except.bind_eq_ok.1 h
  obtain ⟨⟨⟩, -, h⟩ := Except.bind_eq_ok.1 h
  obtain ⟨⟨⟩, -, h⟩ := Except.bind_eq_ok.1 h
  obtain ⟨wiring, hwiring, h⟩ := Except.bind_eq_ok.1 h
  obtain ⟨⟨⟩, hrequired, h⟩ := Except.bind_eq_ok.1 h
  obtain ⟨ruled, hruled, h⟩ := Except.bind_eq_ok.1 h
  obtain ⟨⟨⟩, hsingle, h⟩ := Except.bind_eq_ok.1 h
  obtain rfl := Except.ok.inj h
  obtain ⟨hdistinct, hdotted⟩ := validateStaticTopology_eq_ok hvalid
  obtain ⟨rfl, hrules, hexpected⟩ := checkFanIn_eq_ok List.nodup_nil hruled
  have hinstances := Except.mapM_eq_ok hinstances
  have houtputs := resolveContracts_eq_ok houtputs
  refine ⟨inputs, outputs, ?_, hdistinct, fun i hi => ?_, hdotted, foldlM_connect_eq_ok hwiring,
    by simpa using houtputs, fun output houtput hneeded => ?_, by simpa using hrules, hexpected,
    fun key hkey => ?_⟩
  · refine List.forall₂_eq_eq_eq ▸ List.forall₂_map_left_iff.2 (List.forall₂_map_right_iff.2 ?_)
    exact List.Forall₂.flip (hinstances.imp fun _ _ hi => (resolveInstance_eq_ok hi).1)
  · obtain ⟨d, -, hd⟩ := exists_of_forall₂ hinstances hi
    exact (resolveInstance_eq_ok hd).2
  · have houtput : output ∈ outputs.map (·.1) := by simpa [houtputs] using houtput
    obtain ⟨⟨port, schema⟩, hmem, rfl⟩ := List.mem_map.1 houtput
    have hneeded : port.required = true := hneeded
    simpa [hneeded] using Except.forM_eq_ok hrequired hmem
  · have hkey := List.all_eq_true.1 (require_eq_ok.1 hsingle) key hkey
    simpa using hkey

end

end FactoryFloor
