import FactoryFloor.Schema

/-!
# Commands, events and routing

`EventService.insert`, `RoutingService` and `CommandService.submit`. An event takes the
next number of its stream. A command or a component event becomes one delivery for each
target, and a target that already has its delivery keeps it.

`routed` is the delivery a routing statement inserts, and `routeTargets` the loop both
routing functions share.
-/

namespace FactoryFloor

open Relational

/-! ## Events -/

/-- `allocateSequence`. -/
def allocateSequence (streamKey : StreamKey) (streams : List (StreamKey × ℕ)) :
    ℕ × List (StreamKey × ℕ) :=
  match streams.lookup streamKey with
  | some next =>
    (next, updateWhere (fun s => s.1 = streamKey) (fun s => (s.1, next + 1)) streams)
  | none => (1, streams ++ [(streamKey, 2)])

/-- The text of a stream key that a submitted result chooses. -/
def StreamKey.chosen : StreamKey → Option String
  | .subject s => some s
  | .component .. | .regionCommands _ => none

/-- What `EventService.insert` is given. -/
structure EventInput where
  regionId : Uuid
  eventType : String
  payload : Json
  streamKey : StreamKey
  correlationId : Text
  source : EventSource

/-- The text of a stream key goes into an index entry. -/
def indexedStream (P : Platform) (streamKey : StreamKey) : Outcome Unit :=
  match streamKey.chosen with
  | some s => indexed P "event_stream_sequences_pkey" s
  | none => .ok ()

/-- `EventService.insert`. -/
def insertEvent (P : Platform) (input : EventInput) (db : Db) : Outcome (Event × Db) := do
  indexedStream P input.streamKey
  let sequence := allocateSequence input.streamKey db.streams
  let payload ← bound P "events.payload" input.payload
  let event : Event :=
    { id := db.nextUuid P, regionId := input.regionId, eventType := input.eventType, payload,
      streamKey := input.streamKey, sequenceNumber := sequence.1,
      correlationId := input.correlationId, source := input.source }
  let events ← sql (insert event db.events)
  return (event, { db.draw with streams := sequence.2, events })

/-- An event is appended under the next id, with a stored payload. -/
theorem insertEvent_eq_ok {P : Platform} {input : EventInput} {db db' : Db} {event : Event}
    (h : insertEvent P input db = .ok (event, db')) :
    ∃ n payload, P.bindJsonb input.payload = some payload ∧
      event = { id := P.uuid db.drawn, regionId := input.regionId, eventType := input.eventType,
                payload, streamKey := input.streamKey, sequenceNumber := n,
                correlationId := input.correlationId, source := input.source } ∧
      (∀ e ∈ db.events, e.id ≠ event.id) ∧
      ∃ streams, db' = { db.draw with streams, events := db.events ++ [event] } := by
  unfold insertEvent at h
  obtain ⟨_, -, h⟩ := Except.bind_eq_ok.1 h
  obtain ⟨payload, hpayload, h⟩ := Except.bind_eq_ok.1 h
  obtain ⟨events, hevents, h⟩ := Except.bind_eq_ok.1 h
  obtain ⟨rfl, rfl⟩ := Prod.mk.inj (Except.ok.inj h)
  obtain ⟨rfl, -, hunique⟩ := insert_eq_ok.1 (sql_eq_ok.1 hevents)
  refine ⟨_, payload, bound_eq_ok.1 hpayload, rfl, fun e he hid => ?_, _, rfl⟩
  exact hunique ("events_pkey", fun e f => e.id = f.id) (by simp [Row.uniques]) e he (by simp [hid])

/-! ## Routing -/

/-- Where a routing statement sends a delivery. -/
@[ext] structure RouteTarget where
  topologyRevisionId : Uuid
  componentInstanceId : Uuid
  portName : String
deriving DecidableEq, Repr

/-- What every delivery of one routed command or event carries. -/
structure RoutedSource where
  regionId : Uuid
  source : DeliverySource
  correlationId : Text
  payload : Json

/-- The delivery of a source at a target, under an id. Its payload is the payload of the
source. -/
def routed (P : Platform) (now : Time) (s : RoutedSource) (t : RouteTarget) (id : Uuid) :
    Delivery :=
  { id, regionId := s.regionId, topologyRevisionId := t.topologyRevisionId,
    targetComponentInstanceId := t.componentInstanceId, targetPortName := t.portName,
    source := s.source, correlationId := s.correlationId, inputPayload := s.payload,
    inputPayloadDigest := P.canonicalJsonDigest (.payload s.payload), status := .ready,
    availableAt := now, lease := none, attemptsCount := 0, completedAt := none, failedAt := none,
    deadLetteredAt := none, failure := none, createdAt := now }

/-- Where a delivery was routed. -/
def Delivery.route (d : Delivery) : RouteTarget :=
  { topologyRevisionId := d.topologyRevisionId, componentInstanceId := d.targetComponentInstanceId,
    portName := d.targetPortName }

/-- The conflict target of the routing statements. -/
def sameRoute (d e : Delivery) : Bool :=
  d.source = e.source && d.topologyRevisionId = e.topologyRevisionId &&
    d.targetComponentInstanceId = e.targetComponentInstanceId && d.targetPortName = e.targetPortName

theorem sameRoute_routed {P : Platform} {now : Time} {s : RoutedSource} {t : RouteTarget}
    {id : Uuid} {d : Delivery} :
    sameRoute (routed P now s t id) d ↔ d.source = s.source ∧ d.route = t := by
  rw [RouteTarget.ext_iff, eq_comm (a := d.source), eq_comm (b := t.topologyRevisionId),
    eq_comm (b := t.componentInstanceId), eq_comm (b := t.portName)]
  simp only [sameRoute, Bool.and_eq_true, decide_eq_true_eq]
  simp [routed, Delivery.route, and_assoc]

/-- Insert the delivery of a source at a target, or find the one that is there. -/
def routeTarget (P : Platform) (now : Time) (s : RoutedSource) (t : RouteTarget) (db : Db) :
    Outcome (Delivery × Db) := do
  let delivery := routed P now s t (db.nextUuid P)
  let _ ← bound P "deliveries.input_payload" s.payload
  let deliveries ← sql (insertOrIgnore sameRoute delivery db.deliveries)
  let found ← takeFirstOrThrow "deliveries" (deliveries.find? (sameRoute delivery))
  return (found, { db.draw with deliveries })

/-- Route a source to its targets, one after the other. -/
def routeTargets (P : Platform) (now : Time) (s : RoutedSource) :
    List RouteTarget → Db → Outcome (List Delivery × Db)
  | [], db => .ok ([], db)
  | t :: ts, db => do
    let (delivery, db) ← routeTarget P now s t db
    let (deliveries, db) ← routeTargets P now s ts db
    return (delivery :: deliveries, db)

/-- A routing statement keeps the deliveries or appends the new one, and afterwards the source
has its delivery at the target. -/
theorem routeTarget_eq_ok {P : Platform} {now : Time} {s : RoutedSource} {t : RouteTarget}
    {db db' : Db} {found : Delivery} (h : routeTarget P now s t db = .ok (found, db')) :
    ∃ new, db' = { db.draw with deliveries := db.deliveries ++ new } ∧
      (new = [] ∨ new = [routed P now s t (P.uuid db.drawn)] ∧
        ∀ d ∈ db.deliveries, ¬(d.source = s.source ∧ d.route = t)) ∧
      ∃ d ∈ db.deliveries ++ new, d.source = s.source ∧ d.route = t := by
  unfold routeTarget at h
  obtain ⟨_, -, h⟩ := Except.bind_eq_ok.1 h
  obtain ⟨deliveries, hinsert, h⟩ := Except.bind_eq_ok.1 h
  obtain ⟨_, -, h⟩ := Except.bind_eq_ok.1 h
  obtain ⟨-, rfl⟩ := Prod.mk.inj (Except.ok.inj h)
  rcases insertOrIgnore_eq_ok (sql_eq_ok.1 hinsert) with ⟨rfl, d, hd, hsd⟩ | ⟨rfl, -, hnone⟩
  · exact ⟨[], by simp, Or.inl rfl, d, by simpa using hd, sameRoute_routed.1 hsd⟩
  · refine ⟨[_], rfl, Or.inr ⟨rfl, fun d hd hr => hnone d hd (sameRoute_routed.2 hr)⟩, _,
      List.mem_append_right _ (List.mem_singleton_self _), rfl, rfl⟩

/-- The delivery a routing statement returns is the source's at the target, and the one it inserts,
if it inserts one. -/
theorem routeTarget_found {P : Platform} {now : Time} {r : RoutedSource} {t : RouteTarget}
    {db db' : Db} {found : Delivery} (h : routeTarget P now r t db = .ok (found, db')) :
    found.source = r.source ∧ found.route = t ∧
      ((db'.deliveries = db.deliveries ∧ found ∈ db.deliveries) ∨
        db'.deliveries = db.deliveries ++ [found] ∧
          ∀ d ∈ db.deliveries, ¬(d.source = r.source ∧ d.route = t)) := by
  unfold routeTarget at h
  obtain ⟨_, -, h⟩ := Except.bind_eq_ok.1 h
  obtain ⟨deliveries, hinsert, h⟩ := Except.bind_eq_ok.1 h
  obtain ⟨d, hfind, h⟩ := Except.bind_eq_ok.1 h
  obtain ⟨rfl, rfl⟩ := Prod.mk.inj (Except.ok.inj h)
  have hfind := takeFirstOrThrow_eq_ok.1 hfind
  have hd := sameRoute_routed.1 (List.find?_some hfind)
  refine ⟨hd.1, hd.2, ?_⟩
  rcases insertOrIgnore_eq_ok (sql_eq_ok.1 hinsert) with ⟨rfl, -⟩ | ⟨rfl, -, hnone⟩
  · exact Or.inl ⟨rfl, List.mem_of_find?_eq_some hfind⟩
  · have hmem := List.mem_of_find?_eq_some hfind
    rcases List.mem_append.1 hmem with hmem | hmem
    · exact absurd (List.find?_some hfind) (hnone d hmem)
    · rw [List.mem_singleton.1 hmem]
      exact Or.inr ⟨rfl, fun e he hr => hnone e he (sameRoute_routed.2 hr)⟩

/-- What routing a source does : it appends deliveries of the source, at most one for each
target, and afterwards the source has its delivery at each target. -/
theorem routeTargets_eq_ok {P : Platform} {now : Time} {s : RoutedSource}
    {targets : List RouteTarget} {db db' : Db} {ds : List Delivery}
    (h : routeTargets P now s targets db = .ok (ds, db')) :
    ∃ new, db' = { db with deliveries := db.deliveries ++ new, drawn := db.drawn + targets.length } ∧
      (∀ d ∈ new, ∃ t ∈ targets, ∃ k, db.drawn ≤ k ∧ k < db.drawn + targets.length ∧
        d = routed P now s t (P.uuid k)) ∧
      Keyed (·.id) new ∧ (new.map Delivery.route).Nodup ∧
      (∀ d ∈ new, ∀ e ∈ db.deliveries, ¬(e.source = s.source ∧ e.route = d.route)) ∧
      ∀ t ∈ targets, ∃ d ∈ db.deliveries ++ new, d.source = s.source ∧ d.route = t := by
  induction targets generalizing db ds with
  | nil =>
    obtain ⟨-, rfl⟩ := Prod.mk.inj (Except.ok.inj h)
    exact ⟨[], by simp, by simp, List.nodup_nil, List.nodup_nil, by simp, by simp⟩
  | cons t ts ih =>
    obtain ⟨⟨d, db₁⟩, h₁, h⟩ := Except.bind_eq_ok.1 h
    obtain ⟨⟨ds', db₂⟩, h₂, h⟩ := Except.bind_eq_ok.1 h
    obtain ⟨-, rfl⟩ := Prod.mk.inj (Except.ok.inj h)
    obtain ⟨new₁, rfl, hnew₁, hfound⟩ := routeTarget_eq_ok h₁
    obtain ⟨new₂, rfl, hnew₂, hkeyed, hroutes, hother, hall⟩ := ih h₂
    refine ⟨new₁ ++ new₂, ?_, ?_, ?_, ?_, ?_, ?_⟩
    · simp [Db.draw, List.append_assoc, Nat.add_assoc, Nat.add_comm 1]
    · intro d hd
      rcases List.mem_append.1 hd with hd | hd
      · rcases hnew₁ with rfl | ⟨rfl, -⟩
        · simp at hd
        · obtain rfl := List.mem_singleton.1 hd
          exact ⟨t, by simp, db.drawn, le_rfl, by simp, rfl⟩
      · obtain ⟨u, hu, k, hk, hk', rfl⟩ := hnew₂ d hd
        simp only [Db.draw] at hk hk'
        exact ⟨u, by simp [hu], k, by omega, by simp only [List.length_cons]; omega, rfl⟩
    · rcases hnew₁ with rfl | ⟨rfl, -⟩
      · simpa using hkeyed
      · refine List.nodup_cons.2 ⟨fun hmem => ?_, hkeyed⟩
        obtain ⟨d, hd, hid⟩ := List.mem_map.1 hmem
        obtain ⟨u, -, k, hk, -, rfl⟩ := hnew₂ d hd
        have := P.uuid_injective hid
        simp only [Db.draw] at hk
        omega
    · rcases hnew₁ with rfl | ⟨rfl, -⟩
      · simpa using hroutes
      · refine List.nodup_cons.2 ⟨fun hmem => ?_, hroutes⟩
        obtain ⟨d, hd, hroute⟩ := List.mem_map.1 hmem
        exact hother d hd _ (List.mem_append_right _ (List.mem_singleton_self _))
          ⟨rfl, hroute.symm⟩
    · intro d hd e he hr
      rcases List.mem_append.1 hd with hd | hd
      · rcases hnew₁ with rfl | ⟨rfl, hnone⟩
        · simp at hd
        · obtain rfl := List.mem_singleton.1 hd
          exact hnone e he hr
      · exact hother d hd e (List.mem_append_left _ he) hr
    · intro u hu
      rcases List.mem_cons.1 hu with rfl | hu
      · obtain ⟨d, hd, hsd⟩ := hfound
        exact ⟨d, by rw [← List.append_assoc]; exact List.mem_append_left _ hd, hsd⟩
      · obtain ⟨d, hd, hsd⟩ := hall u hu
        exact ⟨d, by simpa [List.append_assoc] using hd, hsd⟩

/-- The component instance an ingress target names. -/
def ingressTarget (db : Db) (revision : TopologyRevision) (target : IngressTarget) :
    Outcome RouteTarget := do
  let instance_ ← takeFirstOrThrow "component_instances"
    (db.components.find? fun c => c.topologyRevisionId = revision.id && c.name = target.component)
  return { topologyRevisionId := revision.id, componentInstanceId := instance_.id,
           portName := target.port }

/-- `routeCommand`. -/
def routeCommand (P : Platform) (now : Time) (command : Command) (revision : TopologyRevision)
    (db : Db) : Outcome (List Delivery × Db) := do
  let targets ← ((revision.ingressCommands.lookup command.commandType).getD []).mapM
    (ingressTarget db revision)
  routeTargets P now
    { regionId := command.regionId, source := .command command.id,
      correlationId := command.correlationId, payload := command.payload }
    targets db

/-- The targets of the connections from a component's port. -/
def connectionTargets (db : Db) (topologyRevisionId componentId : Uuid) (portName : String) :
    List RouteTarget :=
  (db.connections.filter fun c => c.topologyRevisionId = topologyRevisionId &&
      c.sourceComponentInstanceId = componentId && c.sourcePortName = portName).map fun c =>
    { topologyRevisionId, componentInstanceId := c.targetComponentInstanceId,
      portName := c.targetPortName }

/-- `routeComponentEvent`. -/
def routeComponentEvent (P : Platform) (now : Time) (event : Event) (topologyRevisionId : Uuid)
    (db : Db) : Outcome (List Delivery × Db) :=
  match event.source with
  | .component _ _ componentId portName =>
    routeTargets P now
      { regionId := event.regionId, source := .event event.id,
        correlationId := event.correlationId, payload := event.payload }
      (connectionTargets db topologyRevisionId componentId portName) db
  | .command _ | .attempt _ _ =>
    .error (.thrown "component event requires source component and port")

/-! ## Submitting commands -/

structure SubmitCommandInput where
  region : String
  commandType : String
  source : Json
  payload : Option Json
  correlationId : Option Text
  idempotencyKey : Option String
  expiresAt : Option String

inductive CommandDisposition where
  | accepted | replayed | rejected
deriving DecidableEq, Repr

structure SubmitCommandResult where
  commandId : Uuid
  status : CommandStatus
  correlationId : Text
  eventId : Uuid
  deliveryIds : List Uuid
  disposition : CommandDisposition
  rejection : Option Rejection
deriving DecidableEq, Repr

/-- `commandRequestDigest`. -/
def commandRequestDigest (P : Platform) (input : SubmitCommandInput) : Digest :=
  P.canonicalJsonDigest (.command input.region input.commandType input.source
    (input.payload.getD (.obj [])) input.correlationId input.expiresAt)

/-- `input.region.replace(/^\//, '')`. -/
def regionName (region : String) : String :=
  match region.toList with
  | '/' :: name => String.ofList name
  | _ => region

/-- `CommandService.replay`. -/
def replay (existing : Command) (digest : Digest) (db : Db) : Outcome SubmitCommandResult := do
  require (existing.requestDigest = digest) (.request "idempotency_conflict")
  let event ← takeFirstOrThrow "events" (db.events.find? (·.source = .command existing.id))
  let deliveries := (db.deliveries.filter (·.source = .command existing.id)).insertionSort
    fun d e => d.createdAt < e.createdAt ∨ d.createdAt = e.createdAt ∧ d.id ≤ e.id
  return { commandId := existing.id, status := existing.status,
           correlationId := existing.correlationId, eventId := event.id,
           deliveryIds := deliveries.map (·.id),
           disposition := if existing.status = .rejected then .rejected else .replayed,
           rejection := existing.rejection }

/-- Why a command is rejected : it has expired, or its region has no active topology. -/
def commandRejection (now : Time) (expiresAt : Option Time) (revision : Option TopologyRevision) :
    Option Rejection :=
  if expiresAt.any (· ≤ now) then
    some { code := "command_expired", message := "Command expiry is in the past" }
  else if revision.isNone then
    some { code := "no_active_topology", message := "Region has no active topology revision" }
  else none

/-- An idempotency key goes into an index entry. -/
def indexedKey (P : Platform) (idempotencyKey : Option String) : Outcome Unit :=
  match idempotencyKey with
  | some key => indexed P "commands_region_id_idempotency_key_key" key
  | none => .ok ()

/-- The payload of a `command.rejected` event. -/
def Rejection.payload (r : Rejection) : Json :=
  .obj [("code", .str r.code), ("message", .str r.message)]

/-- The deliveries of a command, unless it is rejected. -/
def routeAccepted (P : Platform) (now : Time) (command : Command) (rejection : Option Rejection)
    (revision : Option TopologyRevision) (db : Db) : Outcome (List Delivery × Db) :=
  match rejection, revision with
  | none, some revision => routeCommand P now command revision db
  | _, _ => .ok ([], db)

/-- `expiresAt` as a time. The empty string is no expiry. -/
def parseExpiry (P : Platform) : Option String → Outcome (Option Time)
  | none | some "" => .ok none
  | some s =>
    match P.parseDate s with
    | some t => .ok (some t)
    | none => .error (.thrown "expiresAt must be a valid timestamp")

/-- The rows of a new command : the command, its event, and its deliveries. -/
def recordCommand (P : Platform) (now : Time) (command : Command)
    (revision : Option TopologyRevision) (eventPayload : Json) (db : Db) :
    Outcome ((Event × List Delivery) × Db) := do
  let commands ← sql (insert command db.commands)
  let (event, db) ← insertEvent P
    { regionId := command.regionId,
      eventType := if command.rejection.isSome then "command.rejected" else "command.accepted",
      payload := eventPayload, streamKey := .regionCommands command.regionId,
      correlationId := command.correlationId, source := .command command.id }
    { db.draw with commands }
  let (deliveries, db) ← routeAccepted P now command command.rejection revision db
  return ((event, deliveries), db)

/-- `CommandService.submit`. -/
def submit (P : Platform) (now : Time) (input : SubmitCommandInput) (db : Db) :
    Outcome (SubmitCommandResult × Db) := do
  require (!isBlank input.commandType) (.thrown "commandType is required")
  let expiresAt ← parseExpiry P input.expiresAt
  let digest := commandRequestDigest P input
  match db.regions.find? (·.name = regionName input.region) with
  | none => .error (.thrown "region_not_found")
  | some region =>
    let revision := region.activeTopologyRevisionId.bind fun id =>
      db.revisions.find? (·.id = id)
    let key := input.idempotencyKey.filter (· ≠ "")
    match key.bind fun k => db.commands.find? fun c =>
        c.regionId = region.id && c.idempotencyKey = some k with
    | some existing => return (← replay existing digest db, db)
    | none =>
      let rejection := commandRejection now expiresAt revision
      indexedKey P input.idempotencyKey
      let payload ← bound P "commands.payload" (input.payload.getD (.obj []))
      let _ ← bound P "commands.source" input.source
      let command : Command :=
        { id := db.nextUuid P, regionId := region.id, commandType := input.commandType, payload,
          status := if rejection.isSome then .rejected else .accepted, requestDigest := digest,
          rejection, correlationId := input.correlationId.getD (.uuid (db.nextUuid P)),
          idempotencyKey := input.idempotencyKey }
      let ((event, deliveries), db) ← recordCommand P now command revision
        ((rejection.map Rejection.payload).getD (input.payload.getD (.obj []))) db
      return ({ commandId := command.id, status := command.status,
                correlationId := command.correlationId, eventId := event.id,
                deliveryIds := deliveries.map (·.id),
                disposition := if rejection.isSome then .rejected else .accepted, rejection }, db)

theorem mem_ingressTargets {db : Db} {revision : TopologyRevision} {ts : List IngressTarget}
    {targets : List RouteTarget} (h : ts.mapM (ingressTarget db revision) = .ok targets) :
    ∀ t ∈ targets, ∃ c ∈ db.components, c.topologyRevisionId = revision.id ∧
      t.topologyRevisionId = revision.id ∧ t.componentInstanceId = c.id := by
  induction ts generalizing targets with
  | nil =>
    obtain rfl : [] = targets := by simpa [pure, Except.pure] using h
    simp
  | cons t ts ih =>
    rw [List.mapM_cons] at h
    obtain ⟨u, hu, h⟩ := Except.bind_eq_ok.1 h
    obtain ⟨us, hus, h⟩ := Except.bind_eq_ok.1 h
    obtain rfl : u :: us = targets := Except.ok.inj h
    obtain ⟨c, hc, hu⟩ := Except.bind_eq_ok.1 hu
    obtain rfl := Except.ok.inj hu
    have hfind := takeFirstOrThrow_eq_ok.1 hc
    intro v hv
    rcases List.mem_cons.1 hv with rfl | hv
    · have := List.find?_some hfind
      simp only [Bool.and_eq_true, decide_eq_true_eq] at this
      exact ⟨c, List.mem_of_find?_eq_some hfind, this.1, rfl, rfl⟩
    · exact ih hus v hv

/-- What an accepted command is routed as. -/
def Command.routedSource (c : Command) : RoutedSource :=
  { regionId := c.regionId, source := .command c.id, correlationId := c.correlationId,
    payload := c.payload }

/-- What a submission inserts into the database : a command, its event, and its deliveries to
the ingress targets of the region's active revision. -/
def RecordsCommand (P : Platform) (now : Time) (command : Command) (db db' : Db) : Prop :=
  ∃ event streams new n, db.drawn + 2 ≤ n ∧ event.source = .command command.id ∧
    event.id = P.uuid (db.drawn + 1) ∧
    db' = { db with
      commands := db.commands ++ [command], streams, events := db.events ++ [event],
      deliveries := db.deliveries ++ new, drawn := n } ∧
    Keyed (·.id) new ∧
    ∀ d ∈ new, ∃ r ∈ db.regions, r.id = command.regionId ∧ ∃ v ∈ db.revisions,
      r.activeTopologyRevisionId = some v.id ∧
      ∃ c ∈ db.components, c.topologyRevisionId = v.id ∧
      ∃ portName k, db.drawn + 2 ≤ k ∧ k < n ∧
        d = routed P now command.routedSource ⟨v.id, c.id, portName⟩ (P.uuid k)

theorem recordCommand_eq_ok {P : Platform} {now : Time} {command : Command}
    {revision : Option TopologyRevision} {eventPayload : Json} {db db' : Db}
    {result : Event × List Delivery}
    (hrevision : ∀ v, revision = some v → v ∈ db.revisions ∧ ∃ r ∈ db.regions,
      r.id = command.regionId ∧ r.activeTopologyRevisionId = some v.id)
    (h : recordCommand P now command revision eventPayload db = .ok (result, db')) :
    RecordsCommand P now command db db' := by
  unfold recordCommand at h
  obtain ⟨commands, hcommands, h⟩ := Except.bind_eq_ok.1 h
  obtain ⟨⟨event, db₁⟩, hevent, h⟩ := Except.bind_eq_ok.1 h
  obtain ⟨⟨deliveries, db₂⟩, hroute, h⟩ := Except.bind_eq_ok.1 h
  obtain ⟨-, rfl⟩ := Prod.mk.inj (Except.ok.inj h)
  obtain ⟨rfl, -, -⟩ := insert_eq_ok.1 (sql_eq_ok.1 hcommands)
  obtain ⟨n, payload, -, heq, -, streams, rfl⟩ := insertEvent_eq_ok hevent
  have hnone : routeAccepted P now command command.rejection revision
        { ({ db.draw with commands := db.commands ++ [command] } : Db).draw with
          streams, events := db.events ++ [event] } =
        .ok ([], { ({ db.draw with commands := db.commands ++ [command] } : Db).draw with
          streams, events := db.events ++ [event] }) → RecordsCommand P now command db db₂ := by
    intro hno
    obtain ⟨-, rfl⟩ := Prod.mk.inj (Except.ok.inj (hno.symm.trans hroute))
    exact ⟨event, streams, [], db.drawn + 2, le_rfl, by rw [heq], by rw [heq]; rfl,
      by simp [Db.draw], List.nodup_nil, by simp⟩
  cases hrejection : command.rejection with
  | some rejection => exact hnone (by rw [hrejection]; rfl)
  | none =>
    cases revision with
    | none => exact hnone (by rw [hrejection]; rfl)
    | some revision =>
      rw [hrejection] at hroute
      obtain ⟨hv, r, hr, hrid, hactive⟩ := hrevision revision rfl
      obtain ⟨targets, htargets, hroute⟩ := Except.bind_eq_ok.1 hroute
      obtain ⟨new, rfl, hnew, hkeyed, -⟩ := routeTargets_eq_ok hroute
      refine ⟨event, streams, new, _, ?_, by rw [heq], by rw [heq]; rfl, rfl, hkeyed,
        fun d hd => ?_⟩
      · simp only [Db.draw]
        omega
      · obtain ⟨t, ht, k, hk, hk', rfl⟩ := hnew d hd
        obtain ⟨c, hc, hcr, htr, htc⟩ := mem_ingressTargets htargets t ht
        refine ⟨r, hr, hrid, revision, hv, hactive, c, hc, hcr, t.portName, k, hk, hk', ?_⟩
        rw [show (⟨revision.id, c.id, t.portName⟩ : RouteTarget) = t from
          RouteTarget.ext htr.symm htc.symm rfl]
        rfl

/-- Submitting a command changes nothing, or records the command. -/
theorem submit_eq_ok {P : Platform} {now : Time} {input : SubmitCommandInput} {db db' : Db}
    {result : SubmitCommandResult} (h : submit P now input db = .ok (result, db')) :
    db' = db ∨ ∃ command, RecordsCommand P now command db db' := by
  unfold submit at h
  obtain ⟨_, -, h⟩ := Except.bind_eq_ok.1 h
  obtain ⟨expiresAt, -, h⟩ := Except.bind_eq_ok.1 h
  split at h
  · simp at h
  · rename_i region hregion
    dsimp only at h
    split at h
    · obtain ⟨_, -, h⟩ := Except.bind_eq_ok.1 h
      exact Or.inl (Prod.mk.inj (Except.ok.inj h)).2.symm
    · obtain ⟨_, -, h⟩ := Except.bind_eq_ok.1 h
      obtain ⟨payload, -, h⟩ := Except.bind_eq_ok.1 h
      obtain ⟨_, -, h⟩ := Except.bind_eq_ok.1 h
      obtain ⟨⟨⟨event, deliveries⟩, db₁⟩, hrecord, h⟩ := Except.bind_eq_ok.1 h
      obtain ⟨-, rfl⟩ := Prod.mk.inj (Except.ok.inj h)
      refine Or.inr ⟨_, recordCommand_eq_ok (fun v hv => ?_) hrecord⟩
      obtain ⟨id, hid, hfind⟩ := Option.bind_eq_some_iff.1 hv
      have hvid : v.id = id := by simpa using List.find?_some hfind
      exact ⟨List.mem_of_find?_eq_some hfind, region, List.mem_of_find?_eq_some hregion, rfl,
        by rw [hid, hvid]⟩

end FactoryFloor
