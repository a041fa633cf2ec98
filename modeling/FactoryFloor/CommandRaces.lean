import FactoryFloor.Concurrent
import FactoryFloor.Execution
import FactoryFloor.Submissions

/-!
# Submissions with one idempotency key

Of the submissions to a region with one key, one inserts its command, and the others replay it :
they find it when they look for the key, or their insert waits for it and conflicts.

A keyed command is unique across the committed rows and those of open submissions
(`CommandDesk.Inv`), and whatever an open submission has read of a committed command stays true
(`CommandDesk.Grows`). The empty string is a key to the unique index but not to `submit`, which neither
looks for it nor ignores its conflict. So `submissions_idempotent` is about the other keys, and
`blank_key_conflicts` is what happens with the empty one.
-/

namespace FactoryFloor

open Relational Transition

variable {P : Platform} {inputs : Set SubmitCommandInput}

/-! ## What is known of a command -/

/-- The name of a region denotes one region. -/
def Db.Denotes (db : Db) (name : String) (regionId : Uuid) : Prop :=
  (∃ r ∈ db.regions, r.name = name) ∧ ∀ r ∈ db.regions, r.name = name → r.id = regionId

/-- What the checks of `submit` and the driver ask of an input. -/
structure SubmitCommandInput.Valid (P : Platform) (input : SubmitCommandInput) : Prop where
  commandType : isBlank input.commandType = false
  expiresAt : ∃ t, parseExpiry P input.expiresAt = .ok t
  key : indexedKey P input.idempotencyKey = .ok ()
  payload : (P.bindJsonb (input.payload.getD (.obj []))).isSome
  source : (P.bindJsonb input.source).isSome

/-- The digest tells inputs apart by their canonical content, and the driver stores inputs with one
canonical content alike. -/
structure Canonical (P : Platform) (inputs : Set SubmitCommandInput) : Prop where
  digest : ∀ a ∈ inputs, ∀ b ∈ inputs,
    commandRequestDigest P a = commandRequestDigest P b ↔ a.content = b.content
  payload : ∀ a ∈ inputs, ∀ b ∈ inputs, a.content = b.content →
    (P.bindJsonb (a.payload.getD (.obj []))).isSome → (P.bindJsonb (b.payload.getD (.obj []))).isSome
  source : ∀ a ∈ inputs, ∀ b ∈ inputs, a.content = b.content →
    (P.bindJsonb a.source).isSome → (P.bindJsonb b.source).isSome

/-- Inputs with one canonical content and one key are valid together. -/
theorem Canonical.valid (h : Canonical P inputs) {a b : SubmitCommandInput} (ha : a ∈ inputs)
    (hb : b ∈ inputs) (hcontent : a.content = b.content)
    (hkey : a.idempotencyKey = b.idempotencyKey) (hvalid : a.Valid P) : b.Valid P := by
  have htype : a.commandType = b.commandType := congrArg CommandContent.commandType hcontent
  have hexpiry : a.expiresAt = b.expiresAt := congrArg CommandContent.expiresAt hcontent
  exact ⟨htype ▸ hvalid.commandType, hexpiry ▸ hvalid.expiresAt, hkey ▸ hvalid.key,
    h.payload a ha b hb hcontent hvalid.payload, h.source a ha b hb hcontent hvalid.source⟩

/-- A command is the record of an input. -/
structure Command.Records (P : Platform) (db : Db) (c : Command) (input : SubmitCommandInput) :
    Prop where
  region : ∃ r ∈ db.regions, r.id = c.regionId ∧ r.name = regionName input.region
  key : c.idempotencyKey = input.idempotencyKey
  digest : c.requestDigest = commandRequestDigest P input

namespace CommandDesk

variable {s t : CommandDesk} {c : Command} {events : List Event} {deliveries : List Delivery}

/-- A command has one event, and one delivery for each ingress target of a revision that has been
the active one. A rejected command has no deliveries. -/
structure Recorded (s : CommandDesk) (c : Command) (events : List Event)
    (deliveries : List Delivery) : Prop where
  event : events.length = 1
  routes : (deliveries.map Delivery.route).Nodup
  rejected : c.rejection.isSome → deliveries = []
  accepted : c.rejection = none → ∃ v ∈ s.db.revisions, (c.regionId, v.id) ∈ s.activated ∧
    ∃ targets, (ingressTargets v c.commandType).mapM (ingressTarget s.db v) = .ok targets ∧
      ∀ t, t ∈ deliveries.map Delivery.route ↔ t ∈ targets

/-- A result names a command, its event, and its deliveries. -/
structure Names (s : CommandDesk) (result : SubmitCommandResult) (c : Command) : Prop where
  command : result.commandId = c.id
  event : (s.db.eventsOf c.id).map (·.id) = [result.eventId]
  deliveries : ∀ id, id ∈ result.deliveryIds ↔ id ∈ (s.db.deliveriesOf c.id).map (·.id)

/-- A result answers an input with its command. -/
def Answers (P : Platform) (s : CommandDesk) (input : SubmitCommandInput)
    (result : SubmitCommandResult) : Prop :=
  ∃ c ∈ s.db.commands, c.Records P s.db input ∧ s.Names result c

/-- What stays true of the committed rows. -/
structure Grows (s t : CommandDesk) : Prop where
  commands : ∀ c ∈ s.db.commands, c ∈ t.db.commands
  events : ∀ c ∈ s.db.commands, t.db.eventsOf c.id = s.db.eventsOf c.id
  deliveries : ∀ c ∈ s.db.commands, (t.db.deliveriesOf c.id).map (fun d => (d.id, d.route)) =
    (s.db.deliveriesOf c.id).map fun d => (d.id, d.route)
  regions : ∀ r ∈ s.db.regions, ∃ r' ∈ t.db.regions, r'.id = r.id ∧ r'.name = r.name
  revisions : ∀ v ∈ s.db.revisions, v ∈ t.db.revisions
  targets : ∀ v name target, ingressTarget s.db v name = .ok target →
    ingressTarget t.db v name = .ok target
  activated : ∀ a ∈ s.activated, a ∈ t.activated

namespace Grows

variable (h : Grows s t)

include h

theorem region {id : Uuid} {name : String} (hr : ∃ r ∈ s.db.regions, r.id = id ∧ r.name = name) :
    ∃ r ∈ t.db.regions, r.id = id ∧ r.name = name := by
  obtain ⟨r, hr, rfl, rfl⟩ := hr
  exact h.regions r hr

theorem records {input : SubmitCommandInput} (hc : c.Records P s.db input) :
    c.Records P t.db input :=
  ⟨h.region hc.region, hc.key, hc.digest⟩

theorem mapM_targets {v : TopologyRevision} {names : List IngressTarget}
    {targets : List RouteTarget} (hrun : names.mapM (ingressTarget s.db v) = .ok targets) :
    names.mapM (ingressTarget t.db v) = .ok targets := by
  induction names generalizing targets with
  | nil => exact hrun
  | cons name names ih =>
    rw [List.mapM_cons] at hrun ⊢
    obtain ⟨target, htarget, hrun⟩ := Except.bind_eq_ok.1 hrun
    obtain ⟨rest, hrest, hrun⟩ := Except.bind_eq_ok.1 hrun
    rw [h.targets v name target htarget]
    exact Except.bind_eq_ok.2 ⟨target, rfl, Except.bind_eq_ok.2 ⟨rest, ih hrest, hrun⟩⟩

theorem recorded (hc : s.Recorded c events deliveries) : t.Recorded c events deliveries := by
  refine ⟨hc.event, hc.routes, hc.rejected, fun hnone => ?_⟩
  obtain ⟨v, hv, hactive, targets, hrun, hall⟩ := hc.accepted hnone
  exact ⟨v, h.revisions v hv, h.activated _ hactive, targets, h.mapM_targets hrun, hall⟩

/-- Only where the deliveries of a command are matters to what is recorded. -/
theorem recorded_of_mem (hc : c ∈ s.db.commands)
    (hr : s.Recorded c (s.db.eventsOf c.id) (s.db.deliveriesOf c.id)) :
    t.Recorded c (t.db.eventsOf c.id) (t.db.deliveriesOf c.id) := by
  have hroutes : (t.db.deliveriesOf c.id).map Delivery.route =
      (s.db.deliveriesOf c.id).map Delivery.route := by
    simpa [List.map_map, Function.comp_def] using
      congrArg (List.map Prod.snd) (h.deliveries c hc)
  have hr := h.recorded hr
  refine ⟨by rw [h.events c hc]; exact hr.event, hroutes ▸ hr.routes, fun hsome => ?_,
    hroutes ▸ hr.accepted⟩
  rw [hr.rejected hsome, List.map_nil, List.map_eq_nil_iff] at hroutes
  exact hroutes

theorem names {result : SubmitCommandResult} (hc : c ∈ s.db.commands) (hn : s.Names result c) :
    t.Names result c := by
  have hids : (t.db.deliveriesOf c.id).map (·.id) = (s.db.deliveriesOf c.id).map (·.id) := by
    simpa [List.map_map, Function.comp_def] using
      congrArg (List.map Prod.fst) (h.deliveries c hc)
  exact ⟨hn.command, by rw [h.events c hc]; exact hn.event, by rw [hids]; exact hn.deliveries⟩

theorem answers {input : SubmitCommandInput} {result : SubmitCommandResult}
    (ha : s.Answers P input result) : t.Answers P input result := by
  obtain ⟨c, hc, hrecords, hnames⟩ := ha
  exact ⟨c, h.commands c hc, h.records hrecords, h.names hc hnames⟩

end Grows

/-! ## What an open submission knows -/

/-- The row a submission has inserted. -/
structure Inserted (P : Platform) (sub : OpenSubmission) (c : Command) : Prop where
  valid : sub.input.Valid P
  regionId : c.regionId = sub.region.id
  key : c.idempotencyKey = sub.input.idempotencyKey
  digest : c.requestDigest = commandRequestDigest P sub.input
  commandType : c.commandType = sub.input.commandType

/-- A committed command with the region and the key of a keyed submission. -/
structure Found (s : CommandDesk) (sub : OpenSubmission) (c : Command) : Prop where
  mem : c ∈ s.db.commands
  regionId : c.regionId = sub.region.id
  key : c.idempotencyKey = sub.input.idempotencyKey
  keyed : sub.key.isSome

/-- What a submission has inserted when it comes to its commit. -/
structure Complete (P : Platform) (s : CommandDesk) (sub : OpenSubmission)
    (result : SubmitCommandResult) (c : Command) (e : Event) (ds : List Delivery) : Prop where
  own : sub.own = ⟨[c], [e], ds⟩
  inserted : Inserted P sub c
  event : e.source = .command c.id
  deliveries : ∀ d ∈ ds, d.source = .command c.id
  recorded : s.Recorded c [e] ds
  commandId : result.commandId = c.id
  eventId : result.eventId = e.id
  deliveryIds : ∀ id, id ∈ result.deliveryIds ↔ id ∈ ds.map (·.id)

/-- What a submission has inserted while it routes. -/
structure Routing (P : Platform) (s : CommandDesk) (sub : OpenSubmission) (c : Command) (e : Event)
    (v : TopologyRevision) (remaining : List IngressTarget) (found ds : List Delivery) : Prop where
  own : sub.own = ⟨[c], [e], ds⟩
  inserted : Inserted P sub c
  event : e.source = .command c.id
  accepted : c.rejection = none
  revision : sub.revision = some v
  deliveries : ∀ d ∈ ds, d.source = .command c.id
  routes : (ds.map Delivery.route).Nodup
  found : ∀ d, d ∈ found ↔ d ∈ ds
  routed : ∃ names targets, ingressTargets v c.commandType = names ++ remaining ∧
    names.mapM (ingressTarget s.db v) = .ok targets ∧
    ∀ t, t ∈ ds.map Delivery.route ↔ t ∈ targets

/-- What a submission has read. -/
structure Reads (P : Platform) (inputs : Set SubmitCommandInput) (s : CommandDesk)
    (sub : OpenSubmission) : Prop where
  input : sub.input ∈ inputs
  commandType : isBlank sub.input.commandType = false
  expiresAt : ∃ t, parseExpiry P sub.input.expiresAt = .ok t
  region : ∃ r ∈ s.db.regions, r.id = sub.region.id ∧ r.name = regionName sub.input.region
  revision : ∀ v, sub.revision = some v → v ∈ s.db.revisions ∧ (sub.region.id, v.id) ∈ s.activated

/-- What a submission has established before its next statement. -/
def Ready (P : Platform) (s : CommandDesk) (sub : OpenSubmission) : Prop :=
  match sub.phase with
  | .looking | .inserting => sub.own = .nil
  | .conflicting => sub.own = .nil ∧ ∃ c, Found s sub c
  | .replaying existing => sub.own = .nil ∧ Found s sub existing
  | .answering existing event => sub.own = .nil ∧ Found s sub existing ∧
      existing.requestDigest = commandRequestDigest P sub.input ∧
      s.db.eventsOf existing.id = [event]
  | .recording c => sub.own = ⟨[c], [], []⟩ ∧ Inserted P sub c ∧ c.rejection = sub.rejection
  | .routing c e v remaining found => ∃ ds, Routing P s sub c e v remaining found ds
  | .done result => (sub.own = .nil ∧ s.Answers P sub.input result) ∨
      ∃ c e ds, Complete P s sub result c e ds

namespace Grows

variable (h : Grows s t) {sub : OpenSubmission}

include h

theorem reads (hr : Reads P inputs s sub) : Reads P inputs t sub :=
  ⟨hr.input, hr.commandType, hr.expiresAt, h.region hr.region, fun v hv =>
    ⟨h.revisions v (hr.revision v hv).1, h.activated _ (hr.revision v hv).2⟩⟩

theorem found (hf : Found s sub c) : Found t sub c :=
  ⟨h.commands c hf.mem, hf.regionId, hf.key, hf.keyed⟩

theorem ready (hr : Ready P s sub) : Ready P t sub := by
  unfold Ready at hr ⊢
  cases hphase : sub.phase with
  | looking => simpa only [hphase] using hr
  | inserting => simpa only [hphase] using hr
  | conflicting =>
    simp only [hphase] at hr ⊢
    exact ⟨hr.1, hr.2.imp fun c hc => h.found hc⟩
  | replaying existing =>
    simp only [hphase] at hr ⊢
    exact ⟨hr.1, h.found hr.2⟩
  | answering existing event =>
    simp only [hphase] at hr ⊢
    exact ⟨hr.1, h.found hr.2.1, hr.2.2.1, by rw [h.events _ hr.2.1.mem]; exact hr.2.2.2⟩
  | recording c => simpa only [hphase] using hr
  | routing c e v remaining found =>
    simp only [hphase] at hr ⊢
    obtain ⟨ds, hr⟩ := hr
    obtain ⟨names, targets, hnames, hrun, hall⟩ := hr.routed
    exact ⟨ds, { hr with routed := ⟨names, targets, hnames, h.mapM_targets hrun, hall⟩ }⟩
  | done result =>
    simp only [hphase] at hr ⊢
    rcases hr with ⟨hown, hanswers⟩ | ⟨c, e, ds, hc⟩
    · exact Or.inl ⟨hown, h.answers hanswers⟩
    · exact Or.inr ⟨c, e, ds, { hc with recorded := h.recorded hc.recorded }⟩

end Grows

/-! ## The invariant -/

/-- The committed commands, and those of open submissions. -/
def commands (s : CommandDesk) : List Command :=
  s.db.commands ++ (s.submissions.map (·.own.commands)).flatten

structure Inv (P : Platform) (inputs : Set SubmitCommandInput) (s : CommandDesk) : Prop where
  ids : KeyedAcross (·.id) s.db.commands (s.submissions.map (·.own.commands))
  drawn : ∀ c ∈ s.commands, ∃ k < s.db.drawn, c.id = P.uuid k
  keys : ∀ c ∈ s.commands, ∀ d ∈ s.commands, sameKey c d → c.id = d.id
  /-- Events and deliveries of commands are those of committed ones. -/
  sources : ∀ id, (∀ c ∈ s.db.commands, c.id ≠ id) →
    s.db.eventsOf id = [] ∧ s.db.deliveriesOf id = []
  origins : ∀ c ∈ s.db.commands, ∃ input ∈ inputs, input.Valid P ∧ c.Records P s.db input
  recorded : ∀ c ∈ s.db.commands, s.Recorded c (s.db.eventsOf c.id) (s.db.deliveriesOf c.id)
  active : ∀ a ∈ s.db.activeRevisions, a ∈ s.activated
  reads : ∀ sub ∈ s.submissions, Reads P inputs s sub
  ready : ∀ sub ∈ s.submissions, Ready P s sub
  asked : ∀ a ∈ s.answers, a.1 ∈ inputs
  answers : ∀ input result, (input, .ok result) ∈ s.answers → s.Answers P input result

namespace Inv

variable (hinv : Inv P inputs s)

include hinv

/-- A keyed command is the only one with its region and key. -/
theorem eq_of_sameKey {d : Command} (hc : c ∈ s.db.commands) (hd : d ∈ s.db.commands)
    (h : sameKey c d) : c = d :=
  hinv.ids.committed.eq hc hd
    (hinv.keys c (List.mem_append_left _ hc) d (List.mem_append_left _ hd) h)

/-- No command of an open submission has the region and key of a committed one. -/
theorem not_sameKey {d : Command} {sub : OpenSubmission} {pre post : List OpenSubmission}
    (hmem : s.submissions = pre ++ sub :: post) (hc : c ∈ s.db.commands)
    (hd : d ∈ sub.own.commands) : ¬sameKey c d := by
  intro h
  have hids := hinv.ids
  have hin : d ∈ (s.submissions.map (·.own.commands)).flatten :=
    List.mem_flatten.2 ⟨sub.own.commands, List.mem_map.2 ⟨sub, by simp [hmem], rfl⟩, hd⟩
  have heq := hinv.keys c (List.mem_append_left _ hc) d (List.mem_append_right _ hin) h
  rw [KeyedAcross, Keyed, List.map_append, List.nodup_append] at hids
  exact hids.2.2 c.id (List.mem_map_of_mem hc) d.id (List.mem_map_of_mem hin) heq

/-- A command under the next id is neither committed nor of an open submission. -/
theorem fresh : ∀ c ∈ s.commands, c.id ≠ P.uuid s.db.drawn := by
  intro c hc heq
  obtain ⟨k, hk, hid⟩ := hinv.drawn c hc
  exact hk.ne (P.uuid_injective (hid.symm.trans heq))

/-- Nothing of a command that is not committed is visible. -/
theorem not_committed {sub : OpenSubmission} {pre post : List OpenSubmission}
    (hmem : s.submissions = pre ++ sub :: post) (hc : c ∈ sub.own.commands) :
    ∀ d ∈ s.db.commands, d.id ≠ c.id := by
  intro d hd heq
  have hids := hinv.ids
  have hin : c ∈ (s.submissions.map (·.own.commands)).flatten :=
    List.mem_flatten.2 ⟨sub.own.commands, List.mem_map.2 ⟨sub, by simp [hmem], rfl⟩, hc⟩
  rw [KeyedAcross, Keyed, List.map_append, List.nodup_append] at hids
  exact hids.2.2 d.id (List.mem_map_of_mem hd) c.id (List.mem_map_of_mem hin) heq

end Inv

/-! ## Statements -/

theorem sameKey_comm (c d : Command) : sameKey c d = sameKey d c := by
  unfold sameKey
  by_cases hk : c.idempotencyKey = d.idempotencyKey
  · simp [hk, eq_comm]
  · simp [hk, Ne.symm hk]

variable {sub sub' : OpenSubmission} {pre post : List OpenSubmission}

/-- What a submission has inserted or found does not depend on the place it is at. -/
theorem Inserted.at (h : Inserted P sub c) (own : SubmissionRows) (phase : SubmissionPhase) :
    Inserted P { sub with own, phase } c :=
  ⟨h.valid, h.regionId, h.key, h.digest, h.commandType⟩

theorem Found.at (h : Found s sub c) (own : SubmissionRows) (phase : SubmissionPhase) :
    Found s { sub with own, phase } c :=
  ⟨h.mem, h.regionId, h.key, h.keyed⟩

theorem found_of_find {k : String} (hkey : sub.key = some k)
    (h : sub.findCommand s.db k = some c) : Found s sub c := by
  have hc := List.find?_some h
  simp only [Bool.and_eq_true, decide_eq_true_eq] at hc
  obtain ⟨hinput, -⟩ := Option.filter_eq_some_iff.1 hkey
  exact ⟨List.mem_of_find?_eq_some h, hc.1, hc.2.trans hinput.symm, by simp [hkey]⟩

theorem find_of_found (h : Found s sub c) : ∃ d, sub.key.bind (sub.findCommand s.db) = some d := by
  obtain ⟨k, hk⟩ := Option.isSome_iff_exists.1 h.keyed
  obtain ⟨hinput, -⟩ := Option.filter_eq_some_iff.1 hk
  rw [hk]
  cases hfind : sub.findCommand s.db k with
  | some d => exact ⟨d, by simpa using hfind⟩
  | none =>
    have hnone := List.find?_eq_none.1 hfind c h.mem
    simp [h.regionId, h.key, hinput] at hnone

/-- The insert of a command inserts it under a key that no command has, or it conflicts with a
committed command. -/
theorem insertCommand_eq_ok {command : Command} {commands : List Command} (hown : sub.own = .nil)
    (hregion : command.regionId = sub.region.id)
    (hkey : command.idempotencyKey = sub.input.idempotencyKey)
    (h : sub.insertCommand s.db command = .ok commands) :
    (commands = s.db.commands ++ [command] ∧ ∀ d ∈ s.db.commands, ¬sameKey command d) ∨
      commands = s.db.commands ∧ ∃ c, Found s sub c := by
  have hrows : (sub.seen s.db).commands = s.db.commands := by
    simp [OpenSubmission.seen, hown, SubmissionRows.nil]
  unfold OpenSubmission.insertCommand at h
  rw [hrows] at h
  cases hkeyed : sub.key.isSome with
  | true =>
    rw [hkeyed, if_pos rfl] at h
    rcases insertOrIgnore_eq_ok (sql_eq_ok.1 h) with ⟨rfl, d, hd, hsame⟩ | ⟨rfl, -, hnone⟩
    · simp only [sameKey, Bool.and_eq_true, decide_eq_true_eq] at hsame
      exact Or.inr ⟨rfl, d, hd, hsame.1.2.symm.trans hregion, hsame.2.symm.trans hkey, hkeyed⟩
    · exact Or.inl ⟨rfl, hnone⟩
  | false =>
    rw [hkeyed, if_neg (by simp)] at h
    obtain ⟨rfl, -, hunique⟩ := insert_eq_ok.1 (sql_eq_ok.1 h)
    refine Or.inl ⟨rfl, fun d hd => ?_⟩
    exact hunique ("commands_region_id_idempotency_key_key", _) (by simp [Row.uniques]; rfl) d hd

/-- A statement changes nothing but the rows of the submission and the place it is at. -/
theorem statement_keeps (h : sub.statement P s.db = .ok sub') :
    ∃ own phase, sub' = { sub with own, phase } := by
  unfold OpenSubmission.statement at h
  cases hphase : sub.phase with
  | looking =>
    rw [hphase] at h
    exact ⟨_, _, (Except.ok.inj h).symm⟩
  | inserting =>
    rw [hphase] at h
    obtain ⟨_, -, h⟩ := Except.bind_eq_ok.1 h
    obtain ⟨_, -, h⟩ := Except.bind_eq_ok.1 h
    split at h <;> exact ⟨_, _, (Except.ok.inj h).symm⟩
  | conflicting =>
    rw [hphase] at h
    obtain ⟨_, -, h⟩ := Except.bind_eq_ok.1 h
    exact ⟨_, _, (Except.ok.inj h).symm⟩
  | replaying existing =>
    rw [hphase] at h
    obtain ⟨_, -, h⟩ := Except.bind_eq_ok.1 h
    obtain ⟨_, -, h⟩ := Except.bind_eq_ok.1 h
    exact ⟨_, _, (Except.ok.inj h).symm⟩
  | answering existing event =>
    rw [hphase] at h
    exact ⟨_, _, (Except.ok.inj h).symm⟩
  | recording command =>
    rw [hphase] at h
    obtain ⟨_, -, h⟩ := Except.bind_eq_ok.1 h
    exact ⟨_, _, (Except.ok.inj h).symm⟩
  | routing command event revision remaining deliveries =>
    rw [hphase] at h
    cases remaining with
    | nil => exact ⟨_, _, (Except.ok.inj h).symm⟩
    | cons target remaining =>
      obtain ⟨_, -, h⟩ := Except.bind_eq_ok.1 h
      obtain ⟨_, -, h⟩ := Except.bind_eq_ok.1 h
      exact ⟨_, _, (Except.ok.inj h).symm⟩
  | done result =>
    rw [hphase] at h
    exact ⟨sub.own, sub.phase, (Except.ok.inj h).symm⟩

/-- What a submission inserts into `commands` : a row under the next id, with a key that no
committed row has. -/
structure Inserts (P : Platform) (s : CommandDesk) (sub : OpenSubmission) (c : Command) : Prop where
  own : sub.own = .nil
  id : c.id = P.uuid s.db.drawn
  draws : sub.draws = 1
  waits : ∀ t, ¬sub.waitsFor t → ∀ d ∈ t.own.commands, ¬sameKey c d
  keys : ∀ d ∈ s.db.commands, ¬sameKey c d

theorem newCommand_eq_ok (hreads : Reads P inputs s sub) (h : sub.newCommand P s.db = .ok c) :
    Inserted P sub c ∧ c.rejection = sub.rejection ∧ c.id = P.uuid s.db.drawn := by
  unfold OpenSubmission.newCommand at h
  obtain ⟨_, hindexed, h⟩ := Except.bind_eq_ok.1 h
  obtain ⟨payload, hpayload, h⟩ := Except.bind_eq_ok.1 h
  obtain ⟨_, hsource, h⟩ := Except.bind_eq_ok.1 h
  obtain rfl := Except.ok.inj h
  refine ⟨⟨⟨hreads.commandType, hreads.expiresAt, hindexed, ?_, ?_⟩, rfl, rfl, rfl, rfl⟩, rfl, rfl⟩
  · rw [bound_eq_ok.1 hpayload]
    rfl
  · rw [bound_eq_ok.1 hsource]
    rfl

theorem Inv.statement_inserting (hinv : Inv P inputs s) (hmem : s.submissions = pre ++ sub :: post)
    (hphase : sub.phase = .inserting) (h : sub.statement P s.db = .ok sub') :
    Ready P s sub' ∧
      (sub'.own.commands = [] ∨ ∃ c, sub'.own.commands = [c] ∧ Inserts P s sub c) := by
  have hsub : sub ∈ s.submissions := by simp [hmem]
  have hown : sub.own = .nil := by
    have := hinv.ready sub hsub
    rwa [Ready, hphase] at this
  rw [OpenSubmission.statement, hphase] at h
  obtain ⟨command, hcommand, h⟩ := Except.bind_eq_ok.1 h
  obtain ⟨commands, hcommands, h⟩ := Except.bind_eq_ok.1 h
  obtain ⟨hinserted, hrejection, hid⟩ := newCommand_eq_ok (hinv.reads sub hsub) hcommand
  have hrows : (sub.seen s.db).commands = s.db.commands := by
    simp [OpenSubmission.seen, hown, SubmissionRows.nil]
  rw [hrows] at h
  rcases insertCommand_eq_ok hown hinserted.regionId hinserted.key hcommands with
    ⟨rfl, hnone⟩ | ⟨rfl, hfound⟩
  · rw [List.drop_left] at h
    obtain rfl := Except.ok.inj h
    refine ⟨⟨by simp [hown, SubmissionRows.nil], hinserted.at _ _, hrejection⟩,
      Or.inr ⟨command, by simp [hown, SubmissionRows.nil], hown, hid, ?_, ?_, hnone⟩⟩
    · simp [OpenSubmission.draws, hphase]
    · intro t hwait d hd hsame
      refine hwait ?_
      rw [OpenSubmission.waitsFor, hphase]
      refine List.any_eq_true.2 ⟨d, hd, ?_⟩
      simp only [sameKey, Bool.and_eq_true, decide_eq_true_eq] at hsame
      rw [← hinserted.key, ← hinserted.regionId, ← hsame.2]
      simp [hsame.1.1, hsame.1.2]
  · rw [List.drop_length] at h
    obtain rfl := Except.ok.inj h
    exact ⟨⟨hown, hfound.imp fun c hc => hc.at _ _⟩, Or.inl (by simp [hown, SubmissionRows.nil])⟩

/-- The single event of a committed command is the one `replay` finds. -/
theorem Inv.event_of_find (hinv : Inv P inputs s) (hc : c ∈ s.db.commands) {e : Event}
    (h : s.db.events.find? (·.source = .command c.id) = some e) : s.db.eventsOf c.id = [e] := by
  obtain ⟨e', he'⟩ := List.length_eq_one_iff.1 (hinv.recorded c hc).event
  have hhead : (s.db.eventsOf c.id).head? = some e := by rw [Db.eventsOf, List.head?_filter, h]
  rw [he'] at hhead ⊢
  rw [Option.some.inj hhead]

/-- The answer of `replay` names the command it replays. -/
theorem replayed_names {e : Event} (he : s.db.eventsOf c.id = [e]) :
    s.Names (replayed c e s.db) c := by
  refine ⟨rfl, by rw [he]; rfl, fun id => ?_⟩
  have hperm := (List.perm_insertionSort (fun d e : Delivery => d.createdAt < e.createdAt ∨
    d.createdAt = e.createdAt ∧ d.id ≤ e.id) (s.db.deliveriesOf c.id)).map (·.id)
  exact hperm.mem_iff

theorem Found.records (hf : Found s sub c) (hreads : Reads P inputs s sub)
    (hdigest : c.requestDigest = commandRequestDigest P sub.input) :
    c.Records P s.db sub.input :=
  ⟨by rw [hf.regionId]; exact hreads.region, hf.key, hdigest⟩

theorem Inv.statement_recording (hinv : Inv P inputs s)
    (hmem : s.submissions = pre ++ sub :: post) (hphase : sub.phase = .recording c)
    (h : sub.statement P s.db = .ok sub') :
    Ready P s sub' ∧ sub'.own.commands = sub.own.commands := by
  have hsub : sub ∈ s.submissions := by simp [hmem]
  have hready := hinv.ready sub hsub
  simp only [Ready, hphase] at hready
  obtain ⟨hown, hinserted, hrejection⟩ := hready
  rw [OpenSubmission.statement, hphase] at h
  obtain ⟨⟨event, db'⟩, hevent, h⟩ := Except.bind_eq_ok.1 h
  obtain rfl := Except.ok.inj h
  obtain ⟨_, _, -, heq, -⟩ := insertEvent_eq_ok hevent
  have hsource : event.source = .command c.id := by rw [heq]; rfl
  refine ⟨?_, rfl⟩
  have hownAfter : ({ sub.own with events := sub.own.events ++ [event] } : SubmissionRows) =
      ⟨[c], [event], []⟩ := by simp [hown]
  rw [hownAfter]
  cases hrej : c.rejection with
  | some r =>
    have hafter : sub.afterEvent c event = .done (submitted c event []) := by
      simp [OpenSubmission.afterEvent, hrej]
    rw [hafter]
    refine Or.inr ⟨c, event, [], rfl, hinserted.at _ _, hsource, by simp, ?_, rfl, rfl, ?_⟩
    · exact ⟨rfl, by simp, fun _ => rfl, fun hnone => by simp [hrej] at hnone⟩
    · intro id
      rfl
  | none =>
    rcases Option.eq_none_or_eq_some sub.revision with hrev | ⟨v, hrev⟩
    · rw [hrej, OpenSubmission.rejection, hrev, commandRejection] at hrejection
      split at hrejection <;> simp at hrejection
    · have hafter : sub.afterEvent c event =
          .routing c event v (ingressTargets v c.commandType) [] := by
        simp [OpenSubmission.afterEvent, hrej, hrev]
      rw [hafter]
      exact ⟨[], rfl, hinserted.at _ _, hsource, hrej, hrev, by simp, by simp, by simp, [], [], rfl,
        rfl, by simp⟩

theorem Inv.statement_routing (hinv : Inv P inputs s) (hmem : s.submissions = pre ++ sub :: post)
    {e : Event} {v : TopologyRevision} {remaining : List IngressTarget} {found : List Delivery}
    (hphase : sub.phase = .routing c e v remaining found) (h : sub.statement P s.db = .ok sub') :
    Ready P s sub' ∧ sub'.own.commands = sub.own.commands := by
  have hsub : sub ∈ s.submissions := by simp [hmem]
  have hready := hinv.ready sub hsub
  simp only [Ready, hphase] at hready
  obtain ⟨ds, hr⟩ := hready
  obtain ⟨names, targets, hnames, hrun, hall⟩ := hr.routed
  rw [OpenSubmission.statement, hphase] at h
  cases remaining with
  | nil =>
    obtain rfl := Except.ok.inj h
    rw [List.append_nil] at hnames
    obtain ⟨hv, hactive⟩ := (hinv.reads sub hsub).revision v hr.revision
    refine ⟨Or.inr ⟨c, e, ds, hr.own, hr.inserted.at _ _, hr.event, hr.deliveries, ?_, rfl, rfl, ?_⟩,
      rfl⟩
    · refine ⟨rfl, hr.routes, fun hsome => by simp [hr.accepted] at hsome, fun _ => ?_⟩
      rw [← hr.inserted.regionId] at hactive
      exact ⟨v, hv, hactive, targets, hnames ▸ hrun, hall⟩
    · intro id
      simp [submitted, hr.found]
  | cons name remaining =>
    obtain ⟨target, htarget, h⟩ := Except.bind_eq_ok.1 h
    obtain ⟨⟨delivery, after⟩, hroute, h⟩ := Except.bind_eq_ok.1 h
    obtain rfl := Except.ok.inj h
    have hds : sub.own.deliveries = ds := by rw [hr.own]
    have hcommitted : ∀ d ∈ s.db.deliveries, d.source ≠ .command c.id := by
      intro d hd hsource
      have hnone := (hinv.sources c.id
        (hinv.not_committed hmem (by rw [hr.own]; simp))).2
      rw [Db.deliveriesOf, List.filter_eq_nil_iff] at hnone
      exact hnone d hd (by simpa using hsource)
    obtain ⟨hsource, hroute', hnew⟩ := routeTarget_found hroute
    have hseen : (sub.seen s.db).deliveries = s.db.deliveries ++ ds := by
      simp [OpenSubmission.seen, hds]
    rw [hseen] at hnew ⊢
    have hrun' : (names ++ [name]).mapM (ingressTarget s.db v) = .ok (targets ++ [target]) := by
      rw [List.mapM_append, hrun, List.mapM_cons, htarget]
      rfl
    have hnames' : ingressTargets v c.commandType = (names ++ [name]) ++ remaining := by
      simpa using hnames
    rcases hnew with ⟨hkept, hfound⟩ | ⟨hkept, hnone⟩
    · -- The target repeats an earlier one.
      have hin : delivery ∈ ds := by
        rcases List.mem_append.1 hfound with hd | hd
        · exact absurd hsource (hcommitted delivery hd)
        · exact hd
      rw [hkept, List.drop_length, List.append_nil]
      refine ⟨⟨ds, hr.own, hr.inserted.at _ _, hr.event, hr.accepted, hr.revision, hr.deliveries,
        hr.routes, fun d => ?_, names ++ [name], targets ++ [target], hnames', hrun', fun t => ?_⟩,
        rfl⟩
      · rw [List.mem_append, List.mem_singleton, hr.found]
        exact ⟨fun hd => hd.elim id fun heq => heq ▸ hin, Or.inl⟩
      · rw [List.mem_append, List.mem_singleton, ← hall]
        exact ⟨Or.inl, fun ht => ht.elim id fun heq =>
          heq ▸ hroute' ▸ List.mem_map_of_mem hin⟩
    · rw [hkept, List.drop_left]
      refine ⟨⟨ds ++ [delivery], ?_, hr.inserted.at _ _, hr.event, hr.accepted, hr.revision, ?_, ?_,
        fun d => ?_, names ++ [name], targets ++ [target], hnames', hrun', fun t => ?_⟩, rfl⟩
      · simp [hr.own]
      · intro d hd
        rcases List.mem_append.1 hd with hd | hd
        · exact hr.deliveries d hd
        · rw [List.mem_singleton.1 hd]
          exact hsource
      · rw [List.map_append, List.nodup_append]
        refine ⟨hr.routes, by simp, fun t ht u hu => ?_⟩
        obtain ⟨d, hd, rfl⟩ := List.mem_map.1 ht
        obtain rfl : u = delivery.route := by simpa using hu
        intro heq
        exact hnone d (List.mem_append_right _ hd) ⟨hr.deliveries d hd, heq.trans hroute'⟩
      · rw [List.mem_append, List.mem_append, hr.found]
      · rw [List.map_append, List.mem_append, List.mem_append, hall]
        simp [hroute']

/-- A statement keeps what the submission has established, and inserts a command at most in the
statement that does so. -/
theorem Inv.statement (hinv : Inv P inputs s) (hmem : s.submissions = pre ++ sub :: post)
    (h : sub.statement P s.db = .ok sub') :
    Ready P s sub' ∧ (sub'.own.commands = sub.own.commands ∨
      ∃ c, sub'.own.commands = [c] ∧ Inserts P s sub c) := by
  have hsub : sub ∈ s.submissions := by simp [hmem]
  have hready := hinv.ready sub hsub
  have hreads := hinv.reads sub hsub
  cases hphase : sub.phase with
  | looking =>
    simp only [Ready, hphase] at hready
    rw [OpenSubmission.statement, hphase] at h
    obtain rfl := Except.ok.inj h
    refine ⟨?_, Or.inl rfl⟩
    cases hkey : sub.key with
    | none => exact hready
    | some k =>
      cases hfind : sub.findCommand s.db k with
      | none =>
        simp only [Ready, Option.bind_some, hfind, Option.elim_none]
        exact hready
      | some existing =>
        simp only [Ready, Option.bind_some, hfind, Option.elim_some]
        exact ⟨hready, (found_of_find hkey hfind).at _ _⟩
  | inserting =>
    simp only [Ready, hphase] at hready
    obtain ⟨hready', hcommands | hinserts⟩ := hinv.statement_inserting hmem hphase h
    · exact ⟨hready', Or.inl (by rw [hcommands, hready]; rfl)⟩
    · exact ⟨hready', Or.inr hinserts⟩
  | conflicting =>
    simp only [Ready, hphase] at hready
    rw [OpenSubmission.statement, hphase] at h
    obtain ⟨existing, hfind, h⟩ := Except.bind_eq_ok.1 h
    obtain rfl := Except.ok.inj h
    obtain ⟨k, hkey, hfind⟩ := Option.bind_eq_some_iff.1 (takeFirstOrThrow_eq_ok.1 hfind)
    exact ⟨⟨hready.1, (found_of_find hkey hfind).at _ _⟩, Or.inl rfl⟩
  | replaying existing =>
    simp only [Ready, hphase] at hready
    rw [OpenSubmission.statement, hphase] at h
    obtain ⟨_, hdigest, h⟩ := Except.bind_eq_ok.1 h
    obtain ⟨event, hevent, h⟩ := Except.bind_eq_ok.1 h
    obtain rfl := Except.ok.inj h
    exact ⟨⟨hready.1, hready.2.at _ _, of_decide_eq_true (require_eq_ok.1 hdigest),
      hinv.event_of_find hready.2.mem (takeFirstOrThrow_eq_ok.1 hevent)⟩, Or.inl rfl⟩
  | answering existing event =>
    simp only [Ready, hphase] at hready
    rw [OpenSubmission.statement, hphase] at h
    obtain rfl := Except.ok.inj h
    obtain ⟨hown, hfound, hdigest, hevent⟩ := hready
    exact ⟨Or.inl ⟨hown, existing, hfound.mem, hfound.records hreads hdigest,
      replayed_names hevent⟩, Or.inl rfl⟩
  | recording c =>
    obtain ⟨hready', hcommands⟩ := hinv.statement_recording hmem hphase h
    exact ⟨hready', Or.inl hcommands⟩
  | routing c e v remaining found =>
    obtain ⟨hready', hcommands⟩ := hinv.statement_routing hmem hphase h
    exact ⟨hready', Or.inl hcommands⟩
  | done result =>
    rw [OpenSubmission.statement, hphase] at h
    obtain rfl := Except.ok.inj h
    exact ⟨hready, Or.inl rfl⟩

/-! ## Steps keep the invariant -/

/-- A step that leaves the committed rows as they are. -/
theorem Grows.of_drawn {n : ℕ} (hdb : t.db = { s.db with drawn := n })
    (hactivated : t.activated = s.activated) : Grows s t := by
  refine ⟨fun c hc => by rw [hdb]; exact hc, fun c _ => by rw [hdb]; rfl,
    fun c _ => by rw [hdb]; rfl, fun r hr => ⟨r, by rw [hdb]; exact hr, rfl, rfl⟩,
    fun v hv => by rw [hdb]; exact hv, fun v name target h => by rw [hdb]; exact h,
    fun a ha => by rw [hactivated]; exact ha⟩

/-- The part of the invariant that is about committed rows is kept where they are. -/
theorem Inv.of_drawn {n : ℕ} (hinv : Inv P inputs s) (hdb : t.db = { s.db with drawn := n })
    (hactivated : t.activated = s.activated)
    (hids : KeyedAcross (·.id) t.db.commands (t.submissions.map (·.own.commands)))
    (hdrawn : ∀ c ∈ t.commands, ∃ k < n, c.id = P.uuid k)
    (hkeys : ∀ c ∈ t.commands, ∀ d ∈ t.commands, sameKey c d → c.id = d.id)
    (hreads : ∀ sub ∈ t.submissions, Reads P inputs s sub)
    (hready : ∀ sub ∈ t.submissions, Ready P s sub) (hasked : ∀ a ∈ t.answers, a.1 ∈ inputs)
    (hanswers : ∀ input result, (input, .ok result) ∈ t.answers → s.Answers P input result) :
    Inv P inputs t := by
  have hgrows : Grows s t := .of_drawn hdb hactivated
  refine ⟨hids, by rw [hdb]; exact hdrawn, hkeys, by rw [hdb]; exact hinv.sources, ?_, ?_,
    by rw [hdb, hactivated]; exact hinv.active, fun sub hsub => hgrows.reads (hreads sub hsub),
    fun sub hsub => hgrows.ready (hready sub hsub), hasked,
    fun input result h => hgrows.answers (hanswers input result h)⟩
  · intro c hc
    obtain ⟨input, hinput, hvalid, hrecords⟩ := hinv.origins c (by rw [hdb] at hc; exact hc)
    exact ⟨input, hinput, hvalid, hgrows.records hrecords⟩
  · intro c hc
    rw [hdb] at hc
    exact hgrows.recorded_of_mem hc (hinv.recorded c hc)

theorem mem_commands {d : Command} :
    d ∈ s.commands ↔ d ∈ s.db.commands ∨ ∃ sub ∈ s.submissions, d ∈ sub.own.commands := by
  simp [commands]

/-- A submission that ends without a commit. -/
theorem Inv.drop {answers : List (SubmitCommandInput × Outcome SubmitCommandResult)}
    (hinv : Inv P inputs s) (hmem : s.submissions = pre ++ sub :: post)
    (hasked : ∀ a ∈ answers, a.1 ∈ inputs)
    (hanswers : ∀ input result, (input, .ok result) ∈ answers → s.Answers P input result) :
    Inv P inputs { s with submissions := pre ++ post, answers } := by
  have hids := hinv.ids
  rw [hmem, List.map_append, List.map_cons] at hids
  have hsubmissions : ∀ sub' ∈ pre ++ post, sub' ∈ s.submissions := by
    intro sub' h
    rw [hmem]
    rcases List.mem_append.1 h with h | h <;> simp [h]
  have hcommands : ∀ c ∈ ({ s with submissions := pre ++ post, answers } : CommandDesk).commands,
      c ∈ s.commands := by
    intro c hc
    rw [mem_commands] at hc ⊢
    exact hc.imp id fun ⟨sub', hsub', hc⟩ => ⟨sub', hsubmissions sub' hsub', hc⟩
  refine hinv.of_drawn rfl rfl ?_ (fun c hc => hinv.drawn c (hcommands c hc))
    (fun c hc d hd => hinv.keys c (hcommands c hc) d (hcommands d hd))
    (fun sub' h => hinv.reads sub' (hsubmissions sub' h))
    (fun sub' h => hinv.ready sub' (hsubmissions sub' h)) hasked hanswers
  rw [List.map_append]
  exact hids.rollback

theorem Inv.next_statement (hinv : Inv P inputs s) (hmem : s.submissions = pre ++ sub :: post)
    (hwait : ∀ t ∈ pre ++ post, ¬sub.waitsFor t) (h : sub.statement P s.db = .ok sub') :
    Inv P inputs { s with db := { s.db with drawn := s.db.drawn + sub.draws },
                          submissions := pre ++ sub' :: post } := by
  obtain ⟨hready, hcommands⟩ := hinv.statement hmem h
  obtain ⟨own, phase, heq⟩ := statement_keeps h
  have hids := hinv.ids
  rw [hmem, List.map_append, List.map_cons] at hids
  have hothers : ∀ u ∈ pre ++ post, u ∈ s.submissions := by
    intro u hu
    rw [hmem]
    rcases List.mem_append.1 hu with hu | hu <;> simp [hu]
  have hsub : sub ∈ s.submissions := by simp [hmem]
  have hsplit : ∀ u ∈ pre ++ sub' :: post, u = sub' ∨ u ∈ pre ++ post := by
    intro u hu
    simp only [List.mem_append, List.mem_cons] at hu ⊢
    tauto
  have hreads : ∀ u ∈ pre ++ sub' :: post, Reads P inputs s u := by
    intro u hu
    rcases hsplit u hu with rfl | hu
    · have hr := hinv.reads sub hsub
      rw [heq]
      exact ⟨hr.input, hr.commandType, hr.expiresAt, hr.region, hr.revision⟩
    · exact hinv.reads u (hothers u hu)
  have hall : ∀ u ∈ pre ++ sub' :: post, Ready P s u := by
    intro u hu
    rcases hsplit u hu with rfl | hu
    · exact hready
    · exact hinv.ready u (hothers u hu)
  rcases hcommands with hsame | ⟨c, hc, hinserts⟩
  · have hmap : (pre ++ sub' :: post).map (·.own.commands) = s.submissions.map (·.own.commands) := by
      rw [hmem]
      simp [hsame]
    have hcommands : ∀ db, ({ s with db, submissions := pre ++ sub' :: post } : CommandDesk).commands =
        ({ s with db } : CommandDesk).commands := fun db => by simp only [commands, hmap]
    refine hinv.of_drawn rfl rfl (by rw [hmap]; exact hinv.ids) ?_ ?_ hreads hall hinv.asked
      hinv.answers
    · intro c hc
      rw [hcommands] at hc
      obtain ⟨k, hk, hid⟩ := hinv.drawn c hc
      exact ⟨k, by omega, hid⟩
    · rw [hcommands]
      exact hinv.keys
  · have hold : ∀ d ∈ ({ s with submissions := pre ++ sub' :: post } : CommandDesk).commands,
        d = c ∨ d ∈ s.commands ∧ ¬sameKey c d := by
      intro d hd
      rcases mem_commands.1 hd with hd | ⟨u, hu, hdu⟩
      · exact Or.inr ⟨List.mem_append_left _ hd, hinserts.keys d hd⟩
      · rcases hsplit u hu with rfl | hu
        · rw [hc] at hdu
          exact Or.inl (List.mem_singleton.1 hdu)
        · exact Or.inr ⟨mem_commands.2 (Or.inr ⟨u, hothers u hu, hdu⟩),
            hinserts.waits u (hwait u hu) d hdu⟩
    refine hinv.of_drawn rfl rfl ?_ ?_ ?_ hreads hall hinv.asked hinv.answers
    · have hfresh : FreshAcross (·.id) s.db.commands
          (pre.map (·.own.commands) ++ [] :: post.map (·.own.commands)) c.id := by
        refine ⟨fun d hd => ?_, fun own hown d hd => ?_⟩
        · rw [hinserts.id]
          exact hinv.fresh d (List.mem_append_left _ hd)
        · rw [hinserts.id]
          simp only [List.mem_append, List.mem_cons, List.mem_map] at hown
          rcases hown with ⟨u, hu, rfl⟩ | rfl | ⟨u, hu, rfl⟩
          · exact hinv.fresh d (mem_commands.2 (Or.inr ⟨u, by simp [hmem, hu], hd⟩))
          · simp at hd
          · exact hinv.fresh d (mem_commands.2 (Or.inr ⟨u, by simp [hmem, hu], hd⟩))
      rw [hinserts.own] at hids
      rw [List.map_append, List.map_cons, hc]
      exact hids.insert hfresh
    · intro d hd
      rcases hold d hd with rfl | ⟨hd, -⟩
      · exact ⟨s.db.drawn, by rw [hinserts.draws]; omega, hinserts.id⟩
      · obtain ⟨k, hk, hid⟩ := hinv.drawn d hd
        exact ⟨k, by omega, hid⟩
    · intro d hd e he hsame
      rcases hold d hd with rfl | ⟨hd, hnd⟩ <;> rcases hold e he with rfl | ⟨he, hne⟩
      · rfl
      · exact absurd hsame hne
      · exact absurd (sameKey_comm d e ▸ hsame) hnd
      · exact hinv.keys d hd e he hsame

/-- What a submission that has inserted its command commits. -/
theorem Complete.grows {result : SubmitCommandResult} {e : Event} {ds : List Delivery}
    (h : Complete P s sub result c e ds) (hnew : ∀ d ∈ s.db.commands, d.id ≠ c.id)
    (hdb : t.db = sub.seen s.db) (hactivated : t.activated = s.activated) : Grows s t := by
  have hother : ∀ d ∈ s.db.commands, DeliverySource.command c.id ≠ .command d.id :=
    fun d hd heq => hnew d hd (DeliverySource.command.inj heq).symm
  refine ⟨fun d hd => ?_, fun d hd => ?_, fun d hd => ?_, fun r hr => ⟨r, ?_, rfl, rfl⟩,
    fun v hv => ?_, fun v name target hrun => ?_, fun a ha => by rw [hactivated]; exact ha⟩
  · rw [hdb]
    exact List.mem_append_left _ hd
  · rw [hdb, Db.eventsOf, Db.eventsOf, OpenSubmission.seen, List.filter_append, h.own]
    have hne : ¬EventSource.command c.id = .command d.id :=
      fun heq => hnew d hd (EventSource.command.inj heq).symm
    simp [h.event, hne]
  · rw [hdb, Db.deliveriesOf, Db.deliveriesOf, OpenSubmission.seen, List.filter_append, h.own]
    have hnil : ds.filter (·.source = .command d.id) = [] :=
      List.filter_eq_nil_iff.2 fun x hx => by simpa [h.deliveries x hx] using (hnew d hd).symm
    rw [hnil, List.append_nil]
  · rw [hdb]
    exact hr
  · rw [hdb]
    exact hv
  · rw [hdb]
    exact hrun

theorem seen_of_nil (h : sub.own = .nil) : sub.seen s.db = s.db := by
  simp [OpenSubmission.seen, h, SubmissionRows.nil]

theorem Inv.next_commit (hinv : Inv P inputs s) (hmem : s.submissions = pre ++ sub :: post)
    {result : SubmitCommandResult} (hphase : sub.phase = .done result) :
    Inv P inputs { s with db := sub.seen s.db, submissions := pre ++ post,
                          answers := s.answers ++ [(sub.input, .ok result)] } := by
  have hsub : sub ∈ s.submissions := by simp [hmem]
  have hreads := hinv.reads sub hsub
  have hready := hinv.ready sub hsub
  simp only [Ready, hphase] at hready
  have hasked : ∀ a ∈ s.answers ++ [(sub.input, .ok result)], a.1 ∈ inputs := by
    intro a ha
    rcases List.mem_append.1 ha with ha | ha
    · exact hinv.asked a ha
    · rw [List.mem_singleton.1 ha]
      exact hreads.input
  have hcases : ∀ input r, (input, Except.ok r) ∈ s.answers ++ [(sub.input, .ok result)] →
      (input, Except.ok r) ∈ s.answers ∨ input = sub.input ∧ r = result := by
    intro input r h
    rcases List.mem_append.1 h with h | h
    · exact Or.inl h
    · obtain ⟨hinput, hresult⟩ := Prod.mk.inj (List.mem_singleton.1 h)
      exact Or.inr ⟨hinput, Except.ok.inj hresult⟩
  rcases hready with ⟨hown, hanswer⟩ | ⟨c, e, ds, hc⟩
  · rw [seen_of_nil hown]
    refine hinv.drop hmem hasked fun input r h => ?_
    rcases hcases input r h with h | ⟨rfl, rfl⟩
    · exact hinv.answers input r h
    · exact hanswer
  have hown : sub.own.commands = [c] := by rw [hc.own]
  have hnew : ∀ d ∈ s.db.commands, d.id ≠ c.id :=
    hinv.not_committed hmem (by rw [hown]; simp)
  obtain ⟨t, ht⟩ : ∃ t : CommandDesk, t = { s with
      db := sub.seen s.db, submissions := pre ++ post,
      answers := s.answers ++ [(sub.input, .ok result)] } := ⟨_, rfl⟩
  have hgrows : Grows s t := hc.grows hnew (by rw [ht]) (by rw [ht])
  have hdbc : t.db.commands = s.db.commands ++ [c] := by rw [ht]; simp [OpenSubmission.seen, hown]
  have hevents : t.db.eventsOf c.id = [e] := by
    rw [ht, Db.eventsOf, OpenSubmission.seen, hc.own, List.filter_append]
    have hnil := (hinv.sources c.id hnew).1
    rw [Db.eventsOf] at hnil
    simp [hnil, hc.event]
  have hdeliveries : t.db.deliveriesOf c.id = ds := by
    rw [ht, Db.deliveriesOf, OpenSubmission.seen, hc.own, List.filter_append]
    have hnil := (hinv.sources c.id hnew).2
    rw [Db.deliveriesOf] at hnil
    rw [hnil, List.nil_append]
    exact List.filter_eq_self.2 fun d hd => by simpa using hc.deliveries d hd
  have hothers : ∀ u ∈ pre ++ post, u ∈ s.submissions := by
    intro u hu
    rw [hmem]
    rcases List.mem_append.1 hu with hu | hu <;> simp [hu]
  have hcommands : ∀ d ∈ t.commands, d ∈ s.commands := by
    intro d hd
    rw [mem_commands] at hd ⊢
    rw [hdbc] at hd
    rcases hd with hd | ⟨u, hu, hd⟩
    · rcases List.mem_append.1 hd with hd | hd
      · exact Or.inl hd
      · exact Or.inr ⟨sub, hsub, by rw [hown]; exact hd⟩
    · rw [ht] at hu
      exact Or.inr ⟨u, hothers u hu, hd⟩
  have hrecords : c.Records P t.db sub.input := by
    refine hgrows.records ⟨?_, hc.inserted.key, hc.inserted.digest⟩
    rw [hc.inserted.regionId]
    exact hreads.region
  have hids := hinv.ids
  rw [hmem, List.map_append, List.map_cons, hown] at hids
  rw [← ht]
  refine ⟨?_, fun d hd => ?_, fun d hd d' hd' => hinv.keys d (hcommands d hd) d' (hcommands d' hd'),
    fun id hid => ?_, fun d hd => ?_, fun d hd => ?_, ?_, ?_, ?_, by rw [ht]; exact hasked, ?_⟩
  · rw [hdbc, ht, List.map_append]
    exact hids.commit
  · obtain ⟨k, hk, hid⟩ := hinv.drawn d (hcommands d hd)
    exact ⟨k, by rw [ht]; exact hk, hid⟩
  · rw [hdbc] at hid
    obtain ⟨hev, hde⟩ := hinv.sources id fun d hd => hid d (List.mem_append_left _ hd)
    have hne : c.id ≠ id := hid c (by simp)
    constructor
    · rw [ht, Db.eventsOf, OpenSubmission.seen, hc.own, List.filter_append]
      rw [Db.eventsOf] at hev
      simp [hev, hc.event, hne]
    · rw [ht, Db.deliveriesOf, OpenSubmission.seen, hc.own, List.filter_append]
      rw [Db.deliveriesOf] at hde
      rw [hde, List.nil_append]
      exact List.filter_eq_nil_iff.2 fun d hd => by simpa [hc.deliveries d hd] using hne
  · rw [hdbc] at hd
    rcases List.mem_append.1 hd with hd | hd
    · obtain ⟨input, hinput, hvalid, hrec⟩ := hinv.origins d hd
      exact ⟨input, hinput, hvalid, hgrows.records hrec⟩
    · rw [List.mem_singleton.1 hd]
      exact ⟨sub.input, hreads.input, hc.inserted.valid, hrecords⟩
  · rw [hdbc] at hd
    rcases List.mem_append.1 hd with hd | hd
    · exact hgrows.recorded_of_mem hd (hinv.recorded d hd)
    · rw [List.mem_singleton.1 hd, hevents, hdeliveries]
      exact hgrows.recorded hc.recorded
  · rw [ht]
    exact hinv.active
  · rw [ht]
    exact fun u hu => ht ▸ hgrows.reads (hinv.reads u (hothers u hu))
  · rw [ht]
    exact fun u hu => ht ▸ hgrows.ready (hinv.ready u (hothers u hu))
  · intro input r h
    rw [ht] at h
    rcases hcases input r h with h | ⟨rfl, rfl⟩
    · exact hgrows.answers (hinv.answers input r h)
    · refine ⟨c, by rw [hdbc]; simp, hrecords, hc.commandId, by rw [hevents, hc.eventId]; rfl, ?_⟩
      rw [hdeliveries]
      exact hc.deliveryIds

theorem grows_of_elsewhere {db : Db} (h : Elsewhere s.db db) :
    Grows s { s with db, activated := s.activated ++ db.activeRevisions } := by
  refine ⟨fun c hc => by rw [h.commands]; exact hc, fun c _ => h.events c.id,
    fun c _ => h.deliveries c.id, fun r hr => ?_, fun v hv => h.revisions.subset hv,
    fun v name target hrun => ?_, fun a ha => List.mem_append_left _ ha⟩
  · have hmem : (r.id, r.name) ∈ db.regions.map fun r => (r.id, r.name) := by
      rw [h.regions]
      exact List.mem_map.2 ⟨r, hr, rfl⟩
    obtain ⟨r', hr', heq⟩ := List.mem_map.1 hmem
    exact ⟨r', hr', (Prod.mk.inj heq).1, (Prod.mk.inj heq).2⟩
  · obtain ⟨rest, hrest⟩ := h.components
    unfold ingressTarget at hrun ⊢
    obtain ⟨c, hc, hrun⟩ := Except.bind_eq_ok.1 hrun
    refine Except.bind_eq_ok.2 ⟨c, ?_, hrun⟩
    rw [takeFirstOrThrow_eq_ok] at hc ⊢
    rw [← hrest, List.find?_append, hc]
    rfl

theorem Inv.next_elsewhere (hinv : Inv P inputs s) {db : Db} (h : Elsewhere s.db db) :
    Inv P inputs { s with db, activated := s.activated ++ db.activeRevisions } := by
  have hgrows := grows_of_elsewhere h
  have hcommands : ∀ c ∈ ({ s with db, activated := s.activated ++ db.activeRevisions } :
      CommandDesk).commands, c ∈ s.commands := by
    intro c hc
    rwa [mem_commands, h.commands, ← mem_commands] at hc
  refine ⟨by rw [h.commands]; exact hinv.ids, fun c hc => ?_,
    fun c hc d hd => hinv.keys c (hcommands c hc) d (hcommands d hd), fun id hid => ?_,
    fun c hc => ?_, fun c hc => ?_, fun a ha => List.mem_append_right _ ha,
    fun sub hsub => hgrows.reads (hinv.reads sub hsub),
    fun sub hsub => hgrows.ready (hinv.ready sub hsub), hinv.asked,
    fun input result ha => hgrows.answers (hinv.answers input result ha)⟩
  · obtain ⟨k, hk, hid⟩ := hinv.drawn c (hcommands c hc)
    exact ⟨k, hk.trans_le h.drawn, hid⟩
  · rw [h.commands] at hid
    obtain ⟨hevents, hdeliveries⟩ := hinv.sources id hid
    refine ⟨(h.events id).trans hevents, ?_⟩
    have := h.deliveries id
    rw [hdeliveries, List.map_nil, List.map_eq_nil_iff] at this
    exact this
  · rw [h.commands] at hc
    obtain ⟨input, hinput, hvalid, hrecords⟩ := hinv.origins c hc
    exact ⟨input, hinput, hvalid, hgrows.records hrecords⟩
  · rw [h.commands] at hc
    exact hgrows.recorded_of_mem hc (hinv.recorded c hc)

/-- A submission that has passed the checks and read its region. -/
theorem reads_of_open {input : SubmitCommandInput} {now : Time} (hinv : Inv P inputs s)
    (hinput : input ∈ inputs) (h : openSubmission P now input s.db = .ok sub) :
    Reads P inputs s sub ∧ sub.own = .nil ∧ sub.phase = .looking := by
  unfold openSubmission at h
  obtain ⟨_, htype, h⟩ := Except.bind_eq_ok.1 h
  obtain ⟨expiresAt, hexpiry, h⟩ := Except.bind_eq_ok.1 h
  cases hfind : s.db.regions.find? (·.name = regionName input.region) with
  | none => simp [hfind] at h
  | some region =>
    rw [hfind] at h
    obtain rfl := Except.ok.inj h
    have hregion := List.mem_of_find?_eq_some hfind
    have hname : region.name = regionName input.region := by simpa using List.find?_some hfind
    refine ⟨⟨hinput, by simpa using require_eq_ok.1 htype, ⟨expiresAt, hexpiry⟩,
      ⟨region, hregion, rfl, hname⟩, fun v hv => ?_⟩, rfl, rfl⟩
    obtain ⟨id, hid, hfound⟩ := Option.bind_eq_some_iff.1 hv
    have hvid : v.id = id := by simpa using List.find?_some hfound
    refine ⟨List.mem_of_find?_eq_some hfound, hinv.active _ ?_⟩
    exact List.mem_filterMap.2 ⟨region, hregion, by rw [hid, hvid]; rfl⟩

theorem Inv.next (hinv : Inv P inputs s) {l : DeskLabel} (h : DeskStep P inputs s l t) :
    Inv P inputs t := by
  cases h with
  | @begin input now sub hinput hopen =>
    obtain ⟨hreads, hown, hphase⟩ := reads_of_open hinv hinput hopen
    have hcommands : ∀ c ∈ ({ s with submissions := sub :: s.submissions } : CommandDesk).commands,
        c ∈ s.commands := by
      intro c hc
      simpa [commands, hown, SubmissionRows.nil] using hc
    refine hinv.of_drawn rfl rfl ?_ (fun c hc => hinv.drawn c (hcommands c hc))
      (fun c hc d hd => hinv.keys c (hcommands c hc) d (hcommands d hd)) ?_ ?_ hinv.asked
      hinv.answers
    · rw [List.map_cons, hown]
      exact hinv.ids.begin
    · exact List.forall_mem_cons.2 ⟨hreads, hinv.reads⟩
    · refine List.forall_mem_cons.2 ⟨?_, hinv.ready⟩
      rwa [Ready, hphase]
  | @refuse input now e hinput hopen =>
    refine hinv.of_drawn rfl rfl hinv.ids hinv.drawn hinv.keys hinv.reads hinv.ready ?_ ?_
    · intro a ha
      rcases List.mem_append.1 ha with ha | ha
      · exact hinv.asked a ha
      · rw [List.mem_singleton.1 ha]
        exact hinput
    · intro input' result ha
      rcases List.mem_append.1 ha with ha | ha
      · exact hinv.answers input' result ha
      · simp at ha
  | statement hmem hwait hrun => exact hinv.next_statement hmem hwait hrun
  | @fail sub pre post e hmem hwait hrun =>
    refine hinv.drop hmem ?_ ?_
    · intro a ha
      rcases List.mem_append.1 ha with ha | ha
      · exact hinv.asked a ha
      · rw [List.mem_singleton.1 ha]
        exact (hinv.reads sub (by simp [hmem])).input
    · intro input result ha
      rcases List.mem_append.1 ha with ha | ha
      · exact hinv.answers input result ha
      · simp at ha
  | commit hmem hphase => exact hinv.next_commit hmem hphase
  | lost hmem => exact hinv.drop hmem hinv.asked hinv.answers
  | elsewhere h => exact hinv.next_elsewhere h

theorem Initial.inv (h : s.Initial) : Inv P inputs s := by
  have hcommands : s.commands = [] := by simp [CommandDesk.commands, h.commands, h.submissions]
  exact ⟨by rw [h.commands, h.submissions]; simp [KeyedAcross, Keyed], by simp [hcommands],
    by simp [hcommands], fun id _ => ⟨h.events id, h.deliveries id⟩, by simp [h.commands],
    by simp [h.commands], by simp [h.activated], by simp [h.submissions], by simp [h.submissions],
    by simp [h.answers], by simp [h.answers]⟩

theorem reachable_inv (h : (commandDesk P inputs).Reachable s) : Inv P inputs s :=
  h.invariant (I := Inv P inputs) (fun _ hinit => Initial.inv hinit) fun _ _ _ hinv hstep =>
    hinv.next hstep

/-! ## Submissions that end -/

theorem newCommand_ok (hvalid : sub.input.Valid P) : ∃ c, sub.newCommand P s.db = .ok c := by
  obtain ⟨payload, hpayload⟩ := Option.isSome_iff_exists.1 hvalid.payload
  obtain ⟨source, hsource⟩ := Option.isSome_iff_exists.1 hvalid.source
  unfold OpenSubmission.newCommand
  exact ⟨_, Except.bind_eq_ok.2 ⟨(), hvalid.key, Except.bind_eq_ok.2 ⟨payload,
    bound_eq_ok.2 hpayload, Except.bind_eq_ok.2 ⟨source, bound_eq_ok.2 hsource, rfl⟩⟩⟩⟩

/-- A submission whose key some committed command of its region has ends with the answer of that
command, unless its content is another, or it is not valid. -/
theorem Inv.statement_error (hinv : Inv P inputs s) (hmem : s.submissions = pre ++ sub :: post)
    {e : RuntimeError} (h : sub.statement P s.db = .error e) (hvalid : sub.input.Valid P)
    (hc : Found s sub c) :
    c.requestDigest ≠ commandRequestDigest P sub.input ∧ e = .request "idempotency_conflict" := by
  have hsub : sub ∈ s.submissions := by simp [hmem]
  have hready := hinv.ready sub hsub
  obtain ⟨k, hk⟩ := Option.isSome_iff_exists.1 hc.keyed
  obtain ⟨hinput, -⟩ := Option.filter_eq_some_iff.1 hk
  have hkey : c.idempotencyKey.isSome := by rw [hc.key, hinput]; rfl
  have hown : ∀ d, d ∈ sub.own.commands → Inserted P sub d → False := by
    intro d hd hinserted
    refine hinv.not_sameKey hmem hc.mem hd ?_
    simp [sameKey, hinput, hc.regionId, hinserted.regionId, hc.key, hinserted.key]
  unfold OpenSubmission.statement at h
  cases hphase : sub.phase with
  | looking => rw [hphase] at h; simp at h
  | inserting =>
    rw [hphase] at h
    simp only [Ready, hphase] at hready
    obtain ⟨command, hcommand⟩ := newCommand_ok (s := s) hvalid
    obtain ⟨hinserted, -, -⟩ := newCommand_eq_ok (hinv.reads sub hsub) hcommand
    have hconflict : sub.insertCommand s.db command = .ok s.db.commands := by
      have hrows : (sub.seen s.db).commands = s.db.commands := by rw [seen_of_nil hready]
      have hany : s.db.commands.any (sameKey command) = true := by
        refine List.any_eq_true.2 ⟨c, hc.mem, ?_⟩
        simp [sameKey, hinput, hc.regionId, hinserted.regionId, hc.key, hinserted.key]
      rw [OpenSubmission.insertCommand, hrows, if_pos hc.keyed, insertOrIgnore]
      simp [Row.violation, hany, sql, Except.mapError]
    have hdrop : s.db.commands.drop (sub.seen s.db).commands.length = [] := by
      rw [seen_of_nil hready, List.drop_length]
    simp [hcommand, hconflict, hdrop, bind, Except.bind, pure, Except.pure] at h
  | conflicting =>
    rw [hphase] at h
    obtain ⟨d, hd⟩ := find_of_found hc
    simp [hd, takeFirstOrThrow, bind, Except.bind, pure, Except.pure] at h
  | replaying existing =>
    simp only [Ready, hphase] at hready
    have heq : existing = c := by
      refine hinv.eq_of_sameKey hready.2.mem hc.mem ?_
      simp [sameKey, hinput, hready.2.regionId, hready.2.key, hc.regionId, hc.key]
    subst heq
    rw [hphase] at h
    by_cases hdigest : existing.requestDigest = commandRequestDigest P sub.input
    · obtain ⟨event, hevent⟩ := List.length_eq_one_iff.1 (hinv.recorded existing hc.mem).event
      have hfind : s.db.events.find? (·.source = .command existing.id) = some event := by
        rw [← List.head?_filter]
        rw [Db.eventsOf] at hevent
        rw [hevent]
        rfl
      simp [hdigest, hfind, require, takeFirstOrThrow, bind, Except.bind, pure, Except.pure] at h
    · refine ⟨hdigest, ?_⟩
      simpa [hdigest, require, bind, Except.bind, eq_comm] using h
  | answering existing event => rw [hphase] at h; simp at h
  | recording d =>
    simp only [Ready, hphase] at hready
    exact (hown d (by rw [hready.1]; simp) hready.2.1).elim
  | routing d event revision remaining found =>
    simp only [Ready, hphase] at hready
    obtain ⟨ds, hr⟩ := hready
    exact (hown d (by rw [hr.own]; simp) hr.inserted).elim
  | done result => rw [hphase] at h; simp at h

end CommandDesk

/-- An input names a region and has a key. -/
structure SubmitCommandInput.IsFor (input : SubmitCommandInput) (db : Db) (regionId : Uuid)
    (key : String) : Prop where
  region : db.Denotes (regionName input.region) regionId
  key : input.idempotencyKey = some key

namespace CommandDesk

/-- The submissions to a region with a key have one command. -/
structure Idempotent (P : Platform) (inputs : Set SubmitCommandInput) (s : CommandDesk)
    (regionId : Uuid) (key : String) : Prop where
  one : ∀ c ∈ s.db.commands, ∀ d ∈ s.db.commands, c.regionId = regionId →
    c.idempotencyKey = some key → d.regionId = regionId → d.idempotencyKey = some key → c = d
  /-- The command has one event, and one delivery for each ingress target. -/
  recorded : ∀ c ∈ s.db.commands, c.regionId = regionId → c.idempotencyKey = some key →
    s.Recorded c (s.db.eventsOf c.id) (s.db.deliveriesOf c.id)
  /-- Commands that are not there have no events and no deliveries. -/
  sources : ∀ id, (∀ c ∈ s.db.commands, c.id ≠ id) →
    s.db.eventsOf id = [] ∧ s.db.deliveriesOf id = []
  /-- An answer names the command, its event, and its deliveries. -/
  named : ∀ a r, (a, .ok r) ∈ s.answers → a.IsFor s.db regionId key →
    ∃ c ∈ s.db.commands, c.regionId = regionId ∧ c.idempotencyKey = some key ∧ s.Names r c
  /-- All answers name the same, and only inputs of one content are answered. -/
  same : ∀ a r b r', (a, .ok r) ∈ s.answers → (b, .ok r') ∈ s.answers →
    a.IsFor s.db regionId key → b.IsFor s.db regionId key → a.content = b.content ∧
      r.commandId = r'.commandId ∧ r.eventId = r'.eventId ∧
      ∀ id, id ∈ r.deliveryIds ↔ id ∈ r'.deliveryIds
  /-- An input of another content has no command. -/
  different : ∀ a r, (a, .ok r) ∈ s.answers → a.IsFor s.db regionId key → ∀ b ∈ inputs,
    b.content ≠ a.content → ∀ c ∈ s.db.commands, c.regionId = regionId →
      c.idempotencyKey = some key → c.requestDigest ≠ commandRequestDigest P b
  /-- Once an input is answered, no submission of its content fails, and one of another content is
  refused for it. -/
  fails : ∀ a r, (a, .ok r) ∈ s.answers → a.IsFor s.db regionId key → ∀ b e t,
    DeskStep P inputs s (.fail b e) t → b.IsFor s.db regionId key → b.content ≠ a.content ∧
      (b.Valid P → e = .request "idempotency_conflict")

variable {s t : CommandDesk} {c : Command} {regionId : Uuid} {key : String}

theorem Inv.answered (hinv : Inv P inputs s) {a : SubmitCommandInput} {r : SubmitCommandResult}
    (h : (a, .ok r) ∈ s.answers) (ha : a.IsFor s.db regionId key) :
    ∃ c ∈ s.db.commands, c.regionId = regionId ∧ c.idempotencyKey = some key ∧
      c.requestDigest = commandRequestDigest P a ∧ s.Names r c := by
  obtain ⟨c, hc, ⟨⟨region, hregion, hid, hname⟩, hkey, hdigest⟩, hnames⟩ := hinv.answers a r h
  exact ⟨c, hc, hid.symm.trans (ha.region.2 region hregion hname), hkey.trans ha.key, hdigest, hnames⟩

theorem Inv.one (hinv : Inv P inputs s) {d : Command} (hc : c ∈ s.db.commands)
    (hd : d ∈ s.db.commands) (hcr : c.regionId = regionId) (hck : c.idempotencyKey = some key)
    (hdr : d.regionId = regionId) (hdk : d.idempotencyKey = some key) : c = d :=
  hinv.eq_of_sameKey hc hd (by simp [sameKey, hcr, hck, hdr, hdk])

/-- A submission fails, though a command of its region has its key. -/
theorem Inv.fail (hinv : Inv P inputs s) {b : SubmitCommandInput} {e : RuntimeError}
    (h : DeskStep P inputs s (.fail b e) t) (hkey : key ≠ "") (hb : b.IsFor s.db regionId key)
    (hvalid : b.Valid P) (hc : c ∈ s.db.commands) (hcr : c.regionId = regionId)
    (hck : c.idempotencyKey = some key) :
    c.requestDigest ≠ commandRequestDigest P b ∧ e = .request "idempotency_conflict" := by
  cases h with
  | @refuse _ now _ hinput hopen =>
    obtain ⟨t, ht⟩ := hvalid.expiresAt
    obtain ⟨⟨r, hr, hname⟩, -⟩ := hb.region
    cases hfind : s.db.regions.find? (·.name = regionName b.region) with
    | none => simpa [hname] using List.find?_eq_none.1 hfind r hr
    | some region =>
      simp [openSubmission, require, hvalid.commandType, ht, hfind, bind, Except.bind, pure,
        Except.pure] at hopen
  | @fail sub pre post _ hmem hwait hrun =>
    obtain ⟨region, hregion, hid, hname⟩ := (hinv.reads sub (by simp [hmem])).region
    refine hinv.statement_error hmem hrun hvalid ⟨hc, ?_, ?_, ?_⟩
    · rw [hcr, ← hid, hb.region.2 region hregion hname]
    · rw [hck, hb.key]
    · simp [OpenSubmission.key, hb.key, hkey]

end CommandDesk

open CommandDesk in
/-- All submissions to a region with one key, other than the empty string, and one content have one
command, one event and one set of deliveries, and those with another content are refused. -/
theorem submissions_idempotent (hcanonical : Canonical P inputs) {s : CommandDesk}
    (h : (commandDesk P inputs).Reachable s) {key : String} (hkey : key ≠ "") (regionId : Uuid) :
    s.Idempotent P inputs regionId key := by
  have hinv := reachable_inv h
  have hasked : ∀ a o, (a, o) ∈ s.answers → a ∈ inputs := fun a o ha => hinv.asked (a, o) ha
  refine ⟨fun c hc d hd hcr hck hdr hdk => hinv.one hc hd hcr hck hdr hdk,
    fun c hc _ _ => hinv.recorded c hc, hinv.sources, ?_, ?_, ?_, ?_⟩
  · intro a r ha hfor
    obtain ⟨c, hc, hcr, hck, -, hnames⟩ := hinv.answered ha hfor
    exact ⟨c, hc, hcr, hck, hnames⟩
  · intro a r b r' ha hb hafor hbfor
    obtain ⟨c, hc, hcr, hck, hdigest, hnames⟩ := hinv.answered ha hafor
    obtain ⟨d, hd, hdr, hdk, hdigest', hnames'⟩ := hinv.answered hb hbfor
    obtain rfl := hinv.one hc hd hcr hck hdr hdk
    have hevent := hnames.event.symm.trans hnames'.event
    exact ⟨(hcanonical.digest a (hasked a _ ha) b (hasked b _ hb)).1 (hdigest.symm.trans hdigest'),
      hnames.command.trans hnames'.command.symm, List.singleton_inj.1 hevent,
      fun id => (hnames.deliveries id).trans (hnames'.deliveries id).symm⟩
  · intro a r ha hafor b hb hne c hc hcr hck heq
    obtain ⟨d, hd, hdr, hdk, hdigest, -⟩ := hinv.answered ha hafor
    obtain rfl := hinv.one hc hd hcr hck hdr hdk
    exact hne ((hcanonical.digest b hb a (hasked a _ ha)).1 (heq.symm.trans hdigest))
  · intro a r ha hafor b e t hstep hbfor
    obtain ⟨c, hc, hcr, hck, hdigest, -⟩ := hinv.answered ha hafor
    refine ⟨fun hsame => ?_, fun hvalid => (hinv.fail hstep hkey hbfor hvalid hc hcr hck).2⟩
    have hb : b ∈ inputs := (hinv.next hstep).asked (b, .error e) (by cases hstep <;> simp)
    obtain ⟨input, hinput, hvalid, hrecords⟩ := hinv.origins c hc
    have hcontent : input.content = b.content := by
      rw [hsame]
      exact (hcanonical.digest input hinput a (hasked a _ ha)).1 (hrecords.digest.symm.trans hdigest)
    have hkeys : input.idempotencyKey = b.idempotencyKey := by
      rw [← hrecords.key, hck, hbfor.key]
    refine (hinv.fail hstep hkey hbfor (hcanonical.valid hinput hb hcontent hkeys hvalid) hc hcr
      hck).1 ?_
    rw [hrecords.digest]
    exact (hcanonical.digest input hinput b hb).2 hcontent

/-! ## A start command -/

/-- The plant without submissions. -/
def plantDesk : CommandDesk :=
  { db := plant.db, submissions := [], answers := [], activated := [(100, 200)] }

theorem plantDesk_reachable {inputs : Set SubmitCommandInput} :
    (commandDesk samplePlatform inputs).Reachable plantDesk :=
  .start ⟨rfl, rfl, rfl, fun _ => rfl, fun _ => rfl, rfl⟩

/-- A start command with a key, and a payload. -/
def startInput (key : String) (payload : Option Json) : SubmitCommandInput :=
  { region := "/plant", commandType := "start", source := .obj [], payload, correlationId := none,
    idempotencyKey := some key, expiresAt := none }

theorem startInput_isFor (key : String) (payload : Option Json) :
    (startInput key payload).IsFor plant.db 100 key :=
  ⟨⟨⟨⟨100, none, "plant", .running, 1, some 200⟩, List.mem_singleton.2 rfl,
      show "plant" = regionName "/plant" by decide⟩,
    fun r hr _ => by rw [List.mem_singleton.1 hr]⟩, rfl⟩

/-- Two encodings of one start command. -/
def startInputs : Set SubmitCommandInput :=
  {startInput "k" none, startInput "k" (some (.obj []))}

theorem startInputs_canonical : Canonical samplePlatform startInputs := by
  have hcontent : ∀ a ∈ startInputs, a.content = (startInput "k" none).content := by
    rintro a (rfl | rfl)
    · rfl
    · rfl
  exact ⟨fun a ha b hb => ⟨fun _ => (hcontent a ha).trans (hcontent b hb).symm, fun _ => rfl⟩,
    fun _ _ _ _ _ _ => rfl, fun _ _ _ _ _ _ => rfl⟩

/-- The second submission looks for the key before the first one inserts it, and its insert comes
after the commit of the first. -/
def startRace : List DeskAction :=
  [.begin (startInput "k" none) 1000, .begin (startInput "k" (some (.obj []))) 1000, .statement 0,
    .statement 1, .statement 1, .statement 1, .statement 1, .statement 1, .commit 1, .statement 0,
    .statement 0, .statement 0, .statement 0, .commit 0]

/-- Two submissions that race end with the same ids. -/
theorem startRace_idempotent : ∃ s, plantDesk.acts samplePlatform startRace = some s ∧
    s.answers.length = 2 ∧ s.Idempotent samplePlatform startInputs 100 "k" := by
  obtain ⟨s, hs⟩ : ∃ s, plantDesk.acts samplePlatform startRace = some s := ⟨_, rfl⟩
  have hlater := CommandDesk.acts_later (fun input now h => by
    simp only [startRace, List.mem_cons, DeskAction.begin.injEq, reduceCtorEq, List.mem_nil_iff,
      or_false] at h
    exact h.imp And.left And.left) hs
  exact ⟨s, hs, by obtain rfl := Option.some.inj hs; rfl,
    submissions_idempotent startInputs_canonical (plantDesk_reachable.later hlater) (by decide) 100⟩

/-- Two submissions with the empty key : the second one meets the unique index. -/
theorem blank_key_conflicts : ¬∀ (P : Platform) (inputs : Set SubmitCommandInput) (s : CommandDesk),
    Canonical P inputs → (commandDesk P inputs).Reachable s →
      ∀ regionId key, s.Idempotent P inputs regionId key := by
  intro hall
  have hcanonical : Canonical samplePlatform {startInput "" none} := by
    refine ⟨fun a ha b hb => ?_, fun a ha b hb _ h => ?_, fun a ha b hb _ h => ?_⟩ <;>
      obtain rfl := Set.mem_singleton_iff.1 ha <;> obtain rfl := Set.mem_singleton_iff.1 hb
    · exact ⟨fun _ => rfl, fun _ => rfl⟩
    · exact h
    · exact h
  -- The first submission is committed, and the second one comes to its insert.
  obtain ⟨s, hs⟩ : ∃ s, plantDesk.acts samplePlatform
      [.begin (startInput "" none) 1000, .statement 0, .statement 0, .statement 0, .statement 0,
        .statement 0, .commit 0, .begin (startInput "" none) 1000, .statement 0] = some s := ⟨_, rfl⟩
  have hreachable := plantDesk_reachable.later (CommandDesk.acts_later (fun input now h => by
    simp only [List.mem_cons, DeskAction.begin.injEq, reduceCtorEq, List.mem_nil_iff,
      or_false, false_or] at h
    exact h.elim And.left And.left) hs)
  obtain ⟨sub, e, hmem, hinput, hrun⟩ : ∃ sub e, s.submissions = [] ++ sub :: [] ∧
      sub.input = startInput "" none ∧ sub.statement samplePlatform s.db = .error e := by
    obtain rfl := Option.some.inj hs
    exact ⟨_, _, rfl, rfl, rfl⟩
  obtain ⟨r, hanswer⟩ : ∃ r, (startInput "" none, .ok r) ∈ s.answers := by
    obtain rfl := Option.some.inj hs
    exact ⟨_, List.mem_singleton.2 rfl⟩
  have hfor : (startInput "" none).IsFor s.db 100 "" := by
    have hregions : s.db.regions = plant.db.regions := by
      obtain rfl := Option.some.inj hs
      rfl
    exact ⟨by rw [Db.Denotes, hregions]; exact (startInput_isFor "" none).region, rfl⟩
  have hstep := @DeskStep.fail samplePlatform {startInput "" none} s sub [] [] e hmem (by simp) hrun
  rw [hinput] at hstep
  exact ((hall _ _ s hcanonical hreachable 100 "").fails _ r hanswer hfor _ e _ hstep hfor).1 rfl

end FactoryFloor
