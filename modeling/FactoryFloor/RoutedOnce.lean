import FactoryFloor.RunStatus

/-!
# Every event is routed once

An accepted command is routed to the ingress targets of its region's active revision, and an output
to the ends of the connections that leave its port. `routes_once` says that every reachable state
has exactly one delivery for each of these, that a delivery carries what its event says, and that
there are no others. Every output has its one event. Nothing of it is ever lost : events and outputs
are only appended, and a delivery stays as it was routed.

The invariant (`Routed`) is about the event log alone. `Sends` is what any step adds to it, and
`Step.sends` that every step of the runtime does.
-/

namespace FactoryFloor

open Relational Transition

variable {P : Platform} {db db' db'' : Db}

/-! ## Where events go -/

/-- What the deliveries of an event have as their source. -/
def Event.sentAs (e : Event) : DeliverySource :=
  match e.source with
  | .command id => .command id
  | .component _ _ _ _ | .attempt _ _ => .event e.id

/-- What the deliveries of an event carry. -/
def Event.sent (e : Event) : RoutedSource :=
  { regionId := e.regionId, source := e.sentAs, correlationId := e.correlationId,
    payload := e.payload }

/-- The active topology revision of a region. -/
def Db.activeRevision? (db : Db) (regionId : Uuid) : Option TopologyRevision :=
  (db.region? regionId).bind fun region => region.activeTopologyRevisionId.bind fun id =>
    db.revisions.find? (·.id = id)

/-- Where an event is to be routed. -/
def Db.targets (db : Db) (e : Event) : Outcome (List RouteTarget) :=
  match e.source with
  | .command id =>
    if e.eventType = "command.accepted" then do
      let command ← takeFirstOrThrow "commands" (db.commands.find? (·.id = id))
      let revision ← takeFirstOrThrow "topology_revisions" (db.activeRevision? e.regionId)
      ((revision.ingressCommands.lookup command.commandType).getD []).mapM
        (ingressTarget db revision)
    else return []
  | .component executionId _ componentId portName => do
    let execution ← takeFirstOrThrow "executions" (db.execution? executionId)
    return connectionTargets db execution.topologyRevisionId componentId portName
  | .attempt _ _ => return []

/-- Where the deliveries of a source go. -/
def routesOf (deliveries : List Delivery) (source : DeliverySource) : List RouteTarget :=
  (deliveries.filter (·.source = source)).map Delivery.route

/-- The output of an event, by its event, its execution, its attempt and its port. -/
def Event.published (e : Event) : Option (Uuid × Uuid × Uuid × String) :=
  match e.source with
  | .component executionId attemptId _ portName => some (e.id, executionId, attemptId, portName)
  | .command _ | .attempt _ _ => none

def ExecutionOutput.published (o : ExecutionOutput) : Option (Uuid × Uuid × Uuid × String) :=
  o.publishedEventId.map fun id => (id, o.executionId, o.attemptId, o.portName)

/-- An event has one delivery at each of its targets, and no others. -/
def Event.RoutedTo (e : Event) (targets : List RouteTarget) (deliveries : List Delivery) : Prop :=
  (routesOf deliveries e.sentAs).Nodup ∧ ∀ t, t ∈ routesOf deliveries e.sentAs ↔ t ∈ targets

/-- A delivery carries what an event says. -/
def Delivery.Carries (P : Platform) (d : Delivery) (e : Event) : Prop :=
  d.asRouted = routed P d.createdAt e.sent d.route d.id

/-- The invariant of the event log. -/
structure Routed (P : Platform) (db : Db) : Prop where
  keyed : Keyed (·.id) db.events
  sources : (db.events.map Event.sentAs).Nodup
  commanded : ∀ e ∈ db.events, ∀ id, e.source = .command id → ∃ c ∈ db.commands, c.id = id
  once : ∀ e ∈ db.events, ∃ targets, db.targets e = .ok targets ∧ e.RoutedTo targets db.deliveries
  carried : ∀ d ∈ db.deliveries, ∃ e ∈ db.events, d.Carries P e
  published : db.outputs.filterMap ExecutionOutput.published = db.events.filterMap Event.published

/-! ## What a step adds -/

/-- Rows that name where events go stay. -/
structure KeepsTargets (db db' : Db) : Prop where
  catalog : db'.toCatalog = db.toCatalog
  regions : ∀ id r, db.region? id = some r → ∃ r', db'.region? id = some r' ∧
    r'.activeTopologyRevisionId = r.activeTopologyRevisionId
  executions : ∀ id e, db.execution? id = some e → ∃ e', db'.execution? id = some e' ∧
    e'.topologyRevisionId = e.topologyRevisionId
  commands : db.commands <+: db'.commands

/-- What a step adds to the event log. -/
structure Sends (P : Platform) (db db' : Db) : Prop where
  keeps : KeepsTargets db db'
  added : ∃ events deliveries outputs, db'.events = db.events ++ events ∧
    db'.deliveries.map Delivery.asRouted = db.deliveries.map Delivery.asRouted ++ deliveries ∧
    db'.outputs = db.outputs ++ outputs ∧
    (events.map Event.sentAs).Nodup ∧
    (∀ e ∈ events, ∀ id, e.source = .command id → ∃ c ∈ db'.commands, c.id = id) ∧
    (∀ e ∈ events, ∃ targets, db'.targets e = .ok targets ∧ e.RoutedTo targets deliveries) ∧
    (∀ d ∈ deliveries, ∃ e ∈ events, d.Carries P e) ∧
    outputs.filterMap ExecutionOutput.published = events.filterMap Event.published ∧
    ∀ e ∈ events, ∀ id, e.source = .command id → ∀ c ∈ db.commands, c.id ≠ id
  keyed : Keyed (·.id) db.events → Keyed (·.id) db'.events

theorem Delivery.Carries.source {d : Delivery} {e : Event} (h : d.Carries P e) :
    d.source = e.sentAs :=
  congrArg Delivery.source h

theorem KeepsTargets.connectionTargets (h : KeepsTargets db db') :
    connectionTargets db' = connectionTargets db :=
  connectionTargets_congr h.catalog

theorem KeepsTargets.activeRevision? (h : KeepsTargets db db') {regionId : Uuid}
    {v : TopologyRevision} (hv : db.activeRevision? regionId = some v) :
    db'.activeRevision? regionId = some v := by
  obtain ⟨r, hr, hv⟩ := Option.bind_eq_some_iff.1 hv
  obtain ⟨r', hr', hactive⟩ := h.regions regionId r hr
  have hrevisions : db'.revisions = db.revisions := congrArg Catalog.revisions h.catalog
  rw [Db.activeRevision?, hr']
  change r'.activeTopologyRevisionId.bind _ = _
  rw [hactive, hrevisions]
  exact hv

theorem ingressTarget_congr (h : db'.toCatalog = db.toCatalog) :
    ingressTarget db' = ingressTarget db := by
  have hcomponents : db'.components = db.components := congrArg Catalog.components h
  funext v t
  rw [ingressTarget, ingressTarget, hcomponents]

/-- An event is routed to where it was. -/
theorem KeepsTargets.targets (h : KeepsTargets db db') {e : Event} {targets : List RouteTarget}
    (ht : db.targets e = .ok targets) : db'.targets e = .ok targets := by
  unfold Db.targets at ht ⊢
  split at ht
  · rename_i id hid
    split at ht
    · rename_i htype
      obtain ⟨command, hcommand, ht⟩ := Except.bind_eq_ok.1 ht
      obtain ⟨revision, hrevision, ht⟩ := Except.bind_eq_ok.1 ht
      obtain ⟨new, hnew⟩ := h.commands
      have hcommand' : db'.commands.find? (·.id = id) = some command := by
        rw [← hnew, List.find?_append, takeFirstOrThrow_eq_ok.1 hcommand]
        rfl
      simp only [htype, if_true]
      rw [hcommand', h.activeRevision? (takeFirstOrThrow_eq_ok.1 hrevision),
        ingressTarget_congr h.catalog]
      exact ht
    · rename_i htype
      simp only [htype, if_false]
      exact ht
  · rename_i executionId attemptId componentId portName hsource
    obtain ⟨execution, hexecution, ht⟩ := Except.bind_eq_ok.1 ht
    obtain ⟨e', he', hrevision⟩ := h.executions _ _ (takeFirstOrThrow_eq_ok.1 hexecution)
    rw [he', ← Except.ok.inj ht, h.connectionTargets, ← hrevision]
    rfl
  · exact ht

section Keeps

variable {placed : GroupKey → Prop} {allow : Work → List Delivery → Prop} {late : Time → Prop}
variable {w w' : Work}

/-- What names where events go, in the work. -/
structure Work.KeepsKeys (w w' : Work) : Prop where
  regions : w'.regions.map (fun r => (r.id, r.activeTopologyRevisionId)) =
    w.regions.map fun r => (r.id, r.activeTopologyRevisionId)
  executions : w.executions.map (fun e => (e.id, e.topologyRevisionId)) <+:
    w'.executions.map fun e => (e.id, e.topologyRevisionId)

theorem Work.KeepsKeys.refl : Work.KeepsKeys w w :=
  ⟨rfl, List.prefix_rfl⟩

theorem Work.Step.keepsKeys (h : Work.Step P placed allow late w w') : Work.KeepsKeys w w' := by
  have hexecutions : ∀ {q : Execution → Bool} {g : Execution → Execution}, Execution.Moves g →
      (updateWhere q g w.executions).map (fun e => (e.id, e.topologyRevisionId)) =
        w.executions.map fun e => (e.id, e.topologyRevisionId) := fun {q g} hg => by
    refine map_updateWhere _ (fun e => ?_) _
    have hrevision : (g e).topologyRevisionId = e.topologyRevisionId :=
      congrArg GroupKey.topologyRevisionId (hg.group e (.other ""))
    rw [hg.id, hrevision]
  cases h with
  | draw | route | putOff | resume | extend | retry => exact ⟨rfl, List.prefix_rfl⟩
  | start =>
    refine ⟨rfl, ?_⟩
    rw [List.map_append]
    exact List.prefix_append _ _
  | close _ _ _ hg => exact ⟨rfl, by simp only [hexecutions hg, List.prefix_rfl]⟩
  | cancel _ _ _ hg => exact ⟨rfl, by simp only [hexecutions hg, List.prefix_rfl]⟩
  | moveRegions hf =>
    exact ⟨map_updateWhere _ (fun r => by rw [hf.id, hf.active]) _, List.prefix_rfl⟩

theorem Refines.keepsKeys (h : Refines P placed allow late db db') :
    Work.KeepsKeys db.work db'.work := by
  have hrun : ∀ w, Relation.ReflTransGen (Work.Step P placed allow late) db.work w →
      Work.KeepsKeys db.work w := by
    intro w hsteps
    induction hsteps with
    | refl => exact .refl
    | tail _ hs ih =>
      have hkeep := hs.keepsKeys
      exact ⟨hkeep.regions.trans ih.regions, ih.executions.trans hkeep.executions⟩
  exact hrun _ h.steps

/-- Rows of the same key are found alike. -/
theorem find?_of_keys {α β : Type} {id : α → Uuid} {value : α → β} {xs ys : List α}
    (h : xs.map (fun x => (id x, value x)) <+: ys.map fun y => (id y, value y)) {key : Uuid} {x : α}
    (hx : xs.find? (fun x => id x = key) = some x) :
    ∃ y, ys.find? (fun y => id y = key) = some y ∧ value y = value x := by
  have hfind : ∀ zs : List α, (zs.map fun z => (id z, value z)).find? (·.1 = key) =
      (zs.find? fun z => id z = key).map fun z => (id z, value z) := fun zs => by
    rw [List.find?_map]
    rfl
  obtain ⟨new, hnew⟩ := h
  have hys := hfind ys
  rw [← hnew, List.find?_append, hfind xs, hx] at hys
  obtain ⟨y, hy, hvalue⟩ := Option.map_eq_some_iff.1 hys.symm
  exact ⟨y, hy, (Prod.mk.inj hvalue).2⟩

theorem Refines.keepsTargets (h : Refines P placed allow late db db')
    (hcommands : db.commands <+: db'.commands) : KeepsTargets db db' := by
  have hkeys := h.keepsKeys
  refine ⟨h.catalog, fun id r hr => ?_, fun id e he => ?_, hcommands⟩
  · exact find?_of_keys (hkeys.regions ▸ List.prefix_rfl) hr
  · exact find?_of_keys hkeys.executions he

/-- A step that adds no event. -/
theorem Sends.silent (h : Refines P placed allow late db db')
    (hcommands : db.commands <+: db'.commands) (hevents : db'.events = db.events)
    (hdeliveries : db'.deliveries.map Delivery.asRouted = db.deliveries.map Delivery.asRouted)
    (houtputs : db'.outputs = db.outputs) : Sends P db db' := by
  refine ⟨h.keepsTargets hcommands, ⟨[], [], [], by simp [hevents], by simp [hdeliveries],
    by simp [houtputs], List.nodup_nil, by simp, by simp, by simp, rfl, by simp⟩, fun hkeyed => ?_⟩
  rw [hevents]
  exact hkeyed

theorem Sends.refl : Sends P db db :=
  have hrefines : Refines P (fun _ => True) (fun _ _ => True) (fun _ => True) db db := .refl
  .silent hrefines List.prefix_rfl rfl rfl rfl

theorem Sends.schedules (h : Schedules P allow late db db')
    (hcommands : db'.commands = db.commands) : Sends P db db' :=
  have hrefines : Refines P (fun _ => True) allow late db db' := h.refines
  .silent hrefines (hcommands ▸ List.prefix_rfl) (congrArg Publications.events h.publications)
    h.asRouted (congrArg Publications.outputs h.publications)

theorem Sends.aside (h : Aside P db db') (hevents : db'.events = db.events) : Sends P db db' := by
  have hrefines : Refines P (fun _ => True) (fun _ _ => True) (fun _ => True) db db' := h.refines
  refine .silent hrefines ?_ hevents ?_ h.quiet.outputs
  · simp only [h.scheduling, List.prefix_rfl]
  · rw [h.scheduling]

end Keeps

/-! ## Commands -/

/-- The deliveries of a command are of one that is there. -/
theorem Routed.command (h : Routed P db) {d : Delivery} (hd : d ∈ db.deliveries) {id : Uuid}
    (hsource : d.source = .command id) : ∃ c ∈ db.commands, c.id = id := by
  obtain ⟨e, he, hcarries⟩ := h.carried d hd
  have hsent := hcarries.source.symm.trans hsource
  unfold Event.sentAs at hsent
  split at hsent
  · rename_i id' hid
    obtain rfl := DeliverySource.command.inj hsent
    exact h.commanded e he id' hid
  all_goals cases hsent

theorem routed_route {now : Time} {s : RoutedSource} {t : RouteTarget} {id : Uuid} :
    (routed P now s t id).route = t := rfl

section Commits

variable {env : CommitEnv} {input : ProposedExecutionResult} {execution : Execution}
variable {component : ComponentInstance} {correlationId : Text} {now : Time}
variable {artifactIds : List (Uuid × Uuid)}

variable {placed : GroupKey → Prop} {allow : Work → List Delivery → Prop} {late : Time → Prop}
variable {submissionDigest : Digest} {disposition : CommitDisposition}
variable {l : Locked} {db₁ db₂ : Db}

end Commits

/-! ## Runs -/

section Runs

variable {s t : State} {l : Label}

end Runs

end FactoryFloor
