import FactoryFloor.Commands
import FactoryFloor.Transition

/-!
# Overlapping submissions of commands

`CommandService.submit`, statement by statement. An `OpenSubmission` is its transaction between two
statements : what it has read, and the rows it has inserted, which nothing else sees before it
commits. Each statement reads the rows that are committed at its start, and the transaction's own.

An insert of a command waits while another open submission has inserted a command with its region
and key, and the insert of an event while another has taken a number of its stream. A keyed
submission whose insert meets a committed command with its key replays that command.

Between the statements, topologies are installed and activated, and deliveries are worked on
(`Elsewhere`). `submit_later` says that a submission whose statements nothing comes between
does what `submit` does.
-/

namespace FactoryFloor

open Relational Transition

/-! ## Canonical content -/

/-- The canonical form of what `commandRequestDigest` takes the digest of. -/
structure CommandContent where
  region : String
  commandType : String
  source : Json
  payload : Json
  correlationId : Option Text
  expiresAt : Option String

def SubmitCommandInput.content (input : SubmitCommandInput) : CommandContent :=
  { region := input.region, commandType := input.commandType, source := input.source.norm,
    payload := (input.payload.getD (.obj [])).norm, correlationId := input.correlationId,
    expiresAt := input.expiresAt }

/-! ## Open submissions -/

/-- The rows that a submission has inserted. -/
structure SubmissionRows where
  commands : List Command
  events : List Event
  deliveries : List Delivery

def SubmissionRows.nil : SubmissionRows := ⟨[], [], []⟩

/-- The statement a submission comes to next. -/
inductive SubmissionPhase where
  /-- Look for a command with the key. -/
  | looking
  /-- Insert the command. -/
  | inserting
  /-- The insert has met a command with the key. -/
  | conflicting
  /-- `replay`, before it reads the event. -/
  | replaying (existing : Command)
  /-- `replay`, before it reads the deliveries. -/
  | answering (existing : Command) (event : Event)
  /-- Insert the event. -/
  | recording (command : Command)
  /-- Route to the targets that remain. -/
  | routing (command : Command) (event : Event) (revision : TopologyRevision)
      (remaining : List IngressTarget) (deliveries : List Delivery)
  /-- Commit. -/
  | done (result : SubmitCommandResult)

structure OpenSubmission where
  input : SubmitCommandInput
  now : Time
  expiresAt : Option Time
  region : Region
  revision : Option TopologyRevision
  own : SubmissionRows
  phase : SubmissionPhase

/-- The unique index on `commands`. -/
def sameKey (c d : Command) : Bool :=
  c.idempotencyKey.isSome && c.regionId = d.regionId && c.idempotencyKey = d.idempotencyKey

/-- The answer of `replay`. -/
def replayed (existing : Command) (event : Event) (db : Db) : SubmitCommandResult :=
  { commandId := existing.id, status := existing.status,
    correlationId := existing.correlationId, eventId := event.id,
    deliveryIds := ((db.deliveries.filter (·.source = .command existing.id)).insertionSort
      fun d e => d.createdAt < e.createdAt ∨ d.createdAt = e.createdAt ∧ d.id ≤ e.id).map (·.id),
    disposition := if existing.status = .rejected then .rejected else .replayed,
    rejection := existing.rejection }

/-- The answer of a submission that has inserted its command. -/
def submitted (command : Command) (event : Event) (deliveries : List Delivery) :
    SubmitCommandResult :=
  { commandId := command.id, status := command.status, correlationId := command.correlationId,
    eventId := event.id, deliveryIds := deliveries.map (·.id),
    disposition := if command.rejection.isSome then .rejected else .accepted,
    rejection := command.rejection }

/-- `topologyIngress`. -/
def ingressTargets (revision : TopologyRevision) (commandType : String) : List IngressTarget :=
  (revision.ingressCommands.lookup commandType).getD []

/-- The checks of a submission and its reads of the region and the revision. -/
def openSubmission (P : Platform) (now : Time) (input : SubmitCommandInput) (db : Db) :
    Outcome OpenSubmission := do
  require (!isBlank input.commandType) (.thrown "commandType is required")
  let expiresAt ← parseExpiry P input.expiresAt
  match db.regions.find? (·.name = regionName input.region) with
  | none => .error (.thrown "region_not_found")
  | some region =>
    return { input, now, expiresAt, region,
             revision := region.activeTopologyRevisionId.bind fun id =>
               db.revisions.find? (·.id = id),
             own := .nil, phase := .looking }

namespace OpenSubmission

variable (P : Platform) (db : Db) (s : OpenSubmission)

/-- The key, if the submission has one : the empty string is none. -/
def key : Option String :=
  s.input.idempotencyKey.filter (· ≠ "")

def findCommand (key : String) : Option Command :=
  db.commands.find? fun c => c.regionId = s.region.id && c.idempotencyKey = some key

/-- The database as the submission's next statement sees it. -/
def seen : Db :=
  { db with
    commands := db.commands ++ s.own.commands,
    streams := s.own.events.foldl (fun streams e => (allocateSequence e.streamKey streams).2)
      db.streams,
    events := db.events ++ s.own.events,
    deliveries := db.deliveries ++ s.own.deliveries }

def rejection : Option Rejection :=
  commandRejection s.now s.expiresAt s.revision

/-- The row `submit` inserts into `commands`. -/
def newCommand : Outcome Command := do
  indexedKey P s.input.idempotencyKey
  let payload ← bound P "commands.payload" (s.input.payload.getD (.obj []))
  let _ ← bound P "commands.source" s.input.source
  return { id := db.nextUuid P, regionId := s.region.id, commandType := s.input.commandType,
           payload, status := if s.rejection.isSome then .rejected else .accepted,
           requestDigest := commandRequestDigest P s.input, rejection := s.rejection,
           correlationId := s.input.correlationId.getD (.uuid (db.nextUuid P)),
           idempotencyKey := s.input.idempotencyKey }

/-- The insert into `commands`. Only a keyed submission ignores a conflict. -/
def insertCommand (command : Command) : Outcome (List Command) :=
  sql (if s.key.isSome then insertOrIgnore sameKey command (s.seen db).commands
    else insert command (s.seen db).commands)

/-- The event of the command. -/
def eventInput (command : Command) : EventInput :=
  { regionId := command.regionId,
    eventType := if command.rejection.isSome then "command.rejected" else "command.accepted",
    payload := (s.rejection.map Rejection.payload).getD (s.input.payload.getD (.obj [])),
    streamKey := .regionCommands command.regionId, correlationId := command.correlationId,
    source := .command command.id }

/-- What follows the insert of the event : an accepted command is routed. -/
def afterEvent (command : Command) (event : Event) : SubmissionPhase :=
  match command.rejection, s.revision with
  | none, some revision =>
    .routing command event revision (ingressTargets revision command.commandType) []
  | _, _ => .done (submitted command event [])

/-- The next statement of the submission. -/
def statement : Outcome OpenSubmission :=
  match s.phase with
  | .looking =>
    .ok { s with phase := (s.key.bind (s.findCommand db)).elim .inserting .replaying }
  | .inserting => do
    let command ← s.newCommand P db
    let commands ← s.insertCommand db command
    match commands.drop (s.seen db).commands.length with
    | [] => return { s with phase := .conflicting }
    | command :: _ =>
      return { s with own := { s.own with commands := s.own.commands ++ [command] },
                      phase := .recording command }
  | .conflicting => do
    let existing ← takeFirstOrThrow "commands" (s.key.bind (s.findCommand db))
    return { s with phase := .replaying existing }
  | .replaying existing => do
    require (existing.requestDigest = commandRequestDigest P s.input)
      (.request "idempotency_conflict")
    let event ← takeFirstOrThrow "events" (db.events.find? (·.source = .command existing.id))
    return { s with phase := .answering existing event }
  | .answering existing event => .ok { s with phase := .done (replayed existing event db) }
  | .recording command => do
    let (event, _) ← insertEvent P (s.eventInput command) (s.seen db)
    return { s with own := { s.own with events := s.own.events ++ [event] },
                    phase := s.afterEvent command event }
  | .routing command event _ [] deliveries =>
    .ok { s with phase := .done (submitted command event deliveries) }
  | .routing command event revision (target :: remaining) deliveries => do
    let target ← ingressTarget db revision target
    let (delivery, after) ← routeTarget P s.now command.routedSource target (s.seen db)
    let new := after.deliveries.drop (s.seen db).deliveries.length
    return { s with own := { s.own with deliveries := s.own.deliveries ++ new },
                    phase := .routing command event revision remaining (deliveries ++ [delivery]) }
  | .done _ => .ok s

/-- How many ids the next statement draws. -/
def draws : ℕ :=
  match s.phase with
  | .inserting | .recording _ | .routing _ _ _ (_ :: _) _ => 1
  | _ => 0

/-- Whether the next statement waits for another open submission. -/
def waitsFor (t : OpenSubmission) : Bool :=
  match s.phase with
  | .inserting => t.own.commands.any fun c => c.idempotencyKey.isSome &&
      c.regionId = s.region.id && c.idempotencyKey = s.input.idempotencyKey
  | .recording command => t.own.events.any (·.streamKey = .regionCommands command.regionId)
  | _ => false

end OpenSubmission

/-! ## Submissions in progress -/

namespace Db

variable (db : Db)

/-- The events of a command. -/
def eventsOf (commandId : Uuid) : List Event :=
  db.events.filter (·.source = .command commandId)

/-- The deliveries of a command. -/
def deliveriesOf (commandId : Uuid) : List Delivery :=
  db.deliveries.filter (·.source = .command commandId)

/-- The active revision of each region. -/
def activeRevisions : List (Uuid × Uuid) :=
  db.regions.filterMap fun r => r.activeTopologyRevisionId.map (r.id, ·)

end Db

/-- What the rest of the runtime does to the database while submissions run : it keeps the
commands, their events, and where and under which ids their deliveries are. -/
structure Elsewhere (db db' : Db) : Prop where
  commands : db'.commands = db.commands
  streams : ∀ regionId, db'.streams.lookup (.regionCommands regionId) =
    db.streams.lookup (.regionCommands regionId)
  events : ∀ id, db'.eventsOf id = db.eventsOf id
  deliveries : ∀ id, (db'.deliveriesOf id).map (fun d => (d.id, d.route)) =
    (db.deliveriesOf id).map fun d => (d.id, d.route)
  regions : db'.regions.map (fun r => (r.id, r.name)) = db.regions.map fun r => (r.id, r.name)
  revisions : db.revisions <+: db'.revisions
  components : db.components <+: db'.components
  drawn : db.drawn ≤ db'.drawn

structure CommandDesk where
  /-- What is committed. -/
  db : Db
  submissions : List OpenSubmission
  /-- What the calls that have ended returned or threw. -/
  answers : List (SubmitCommandInput × Outcome SubmitCommandResult)
  /-- The revisions that have been active so far, with their regions. -/
  activated : List (Uuid × Uuid)

inductive DeskLabel where
  | begin (input : SubmitCommandInput)
  | statement
  | commit (input : SubmitCommandInput)
  /-- A call throws. -/
  | fail (input : SubmitCommandInput) (e : RuntimeError)
  /-- A call ends without an answer : the process crashes, or the connection is lost. -/
  | lost
  | elsewhere

/-- A step of the submissions of a set of inputs. -/
inductive DeskStep (P : Platform) (inputs : Set SubmitCommandInput) :
    CommandDesk → DeskLabel → CommandDesk → Prop
  | begin {s : CommandDesk} {input : SubmitCommandInput} {now : Time} {sub : OpenSubmission}
      (hinput : input ∈ inputs) (hopen : openSubmission P now input s.db = .ok sub) :
      DeskStep P inputs s (.begin input) { s with submissions := sub :: s.submissions }
  | refuse {s : CommandDesk} {input : SubmitCommandInput} {now : Time} {e : RuntimeError}
      (hinput : input ∈ inputs) (hopen : openSubmission P now input s.db = .error e) :
      DeskStep P inputs s (.fail input e) { s with answers := s.answers ++ [(input, .error e)] }
  | statement {s : CommandDesk} {sub sub' : OpenSubmission} {pre post : List OpenSubmission}
      (hmem : s.submissions = pre ++ sub :: post) (hwait : ∀ t ∈ pre ++ post, ¬sub.waitsFor t)
      (hrun : sub.statement P s.db = .ok sub') :
      DeskStep P inputs s .statement
        { s with db := { s.db with drawn := s.db.drawn + sub.draws },
                 submissions := pre ++ sub' :: post }
  | fail {s : CommandDesk} {sub : OpenSubmission} {pre post : List OpenSubmission}
      {e : RuntimeError} (hmem : s.submissions = pre ++ sub :: post)
      (hwait : ∀ t ∈ pre ++ post, ¬sub.waitsFor t) (hrun : sub.statement P s.db = .error e) :
      DeskStep P inputs s (.fail sub.input e)
        { s with submissions := pre ++ post, answers := s.answers ++ [(sub.input, .error e)] }
  | commit {s : CommandDesk} {sub : OpenSubmission} {pre post : List OpenSubmission}
      {result : SubmitCommandResult} (hmem : s.submissions = pre ++ sub :: post)
      (hphase : sub.phase = .done result) :
      DeskStep P inputs s (.commit sub.input)
        { s with db := sub.seen s.db, submissions := pre ++ post,
                 answers := s.answers ++ [(sub.input, .ok result)] }
  | lost {s : CommandDesk} {sub : OpenSubmission} {pre post : List OpenSubmission}
      (hmem : s.submissions = pre ++ sub :: post) :
      DeskStep P inputs s .lost { s with submissions := pre ++ post }
  | elsewhere {s : CommandDesk} {db : Db} (h : Elsewhere s.db db) :
      DeskStep P inputs s .elsewhere { s with db, activated := s.activated ++ db.activeRevisions }

/-- A runtime that no command has been submitted to. -/
structure CommandDesk.Initial (s : CommandDesk) : Prop where
  submissions : s.submissions = []
  answers : s.answers = []
  commands : s.db.commands = []
  events : ∀ id, s.db.eventsOf id = []
  deliveries : ∀ id, s.db.deliveriesOf id = []
  activated : s.activated = s.db.activeRevisions

/-- The submissions of a set of inputs. -/
def commandDesk (P : Platform) (inputs : Set SubmitCommandInput) : System CommandDesk DeskLabel where
  init := CommandDesk.Initial
  step := DeskStep P inputs

/-! ## A submission alone -/

section Alone

variable {P : Platform} {inputs : Set SubmitCommandInput} {s : CommandDesk}

/-- The desk with one open submission. -/
def CommandDesk.alone (s : CommandDesk) (db : Db) (sub : OpenSubmission) : CommandDesk :=
  { s with db, submissions := [sub] }

theorem alone_next {db : Db} {sub sub' : OpenSubmission} (h : sub.statement P db = .ok sub') :
    (commandDesk P inputs).Later (s.alone db sub)
      (s.alone { db with drawn := db.drawn + sub.draws } sub') :=
  System.Later.refl.next (@DeskStep.statement P inputs (s.alone db sub) sub sub' [] [] rfl (by simp) h)

theorem alone_commit {db : Db} {sub : OpenSubmission} {result : SubmitCommandResult}
    (hphase : sub.phase = .done result) : (commandDesk P inputs).Later (s.alone db sub)
      { s with db := sub.seen db, submissions := [],
               answers := s.answers ++ [(sub.input, .ok result)] } :=
  System.Later.refl.next (@DeskStep.commit P inputs (s.alone db sub) sub [] [] result rfl hphase)

theorem insertEvent_streams {input : EventInput} {db db' : Db} {event : Event}
    (h : insertEvent P input db = .ok (event, db')) : event.streamKey = input.streamKey ∧
      db' = { db.draw with streams := (allocateSequence input.streamKey db.streams).2,
                           events := db.events ++ [event] } := by
  unfold insertEvent at h
  obtain ⟨_, -, h⟩ := Except.bind_eq_ok.1 h
  obtain ⟨payload, -, h⟩ := Except.bind_eq_ok.1 h
  obtain ⟨events, hevents, h⟩ := Except.bind_eq_ok.1 h
  obtain ⟨rfl, rfl⟩ := Prod.mk.inj (Except.ok.inj h)
  obtain ⟨rfl, -, -⟩ := insert_eq_ok.1 (sql_eq_ok.1 hevents)
  exact ⟨rfl, rfl⟩

/-- A submission routes to its targets one statement after the other, as `routeTargets` does. -/
theorem alone_routes {sub : OpenSubmission} {command : Command} {event : Event}
    {revision : TopologyRevision} {names : List IngressTarget} {targets : List RouteTarget}
    {found deliveries : List Delivery} {db db' : Db}
    (hphase : sub.phase = .routing command event revision names found)
    (htargets : names.mapM (ingressTarget db revision) = .ok targets)
    (h : routeTargets P sub.now command.routedSource targets (sub.seen db) = .ok (deliveries, db')) :
    ∃ sub' drawn, (commandDesk P inputs).Later (s.alone db sub) (s.alone { db with drawn } sub') ∧
      sub'.phase = .routing command event revision [] (found ++ deliveries) ∧
      sub'.input = sub.input ∧ sub'.seen { db with drawn } = db' := by
  induction names generalizing sub targets found deliveries db with
  | nil =>
    obtain rfl : [] = targets := by simpa [pure, Except.pure] using htargets
    obtain ⟨rfl, rfl⟩ := Prod.mk.inj (Except.ok.inj h)
    exact ⟨sub, db.drawn, .refl, by rw [hphase, List.append_nil], rfl, rfl⟩
  | cons name names ih =>
    rw [List.mapM_cons] at htargets
    obtain ⟨target, htarget, htargets⟩ := Except.bind_eq_ok.1 htargets
    obtain ⟨rest, hrest, htargets⟩ := Except.bind_eq_ok.1 htargets
    obtain rfl : target :: rest = targets := Except.ok.inj htargets
    obtain ⟨⟨delivery, after⟩, hroute, h⟩ := Except.bind_eq_ok.1 h
    obtain ⟨⟨ds, final⟩, hroutes, h⟩ := Except.bind_eq_ok.1 h
    obtain ⟨rfl, rfl⟩ := Prod.mk.inj (Except.ok.inj h)
    obtain ⟨new, rfl, -⟩ := routeTarget_eq_ok hroute
    obtain ⟨sub₁, hsub₁⟩ : ∃ sub₁, sub₁ =
        { sub with own := { sub.own with deliveries := sub.own.deliveries ++ new },
                   phase := .routing command event revision names (found ++ [delivery]) } := ⟨_, rfl⟩
    have hrun : sub.statement P db = .ok sub₁ := by
      rw [OpenSubmission.statement, hphase, hsub₁]
      refine Except.bind_eq_ok.2 ⟨target, htarget, Except.bind_eq_ok.2 ⟨_, hroute, ?_⟩⟩
      simp [pure, Except.pure]
    have hdraws : sub.draws = 1 := by rw [OpenSubmission.draws, hphase]
    have hseen : sub₁.seen { db with drawn := db.drawn + 1 } =
        { (sub.seen db).draw with deliveries := (sub.seen db).deliveries ++ new } := by
      simp [OpenSubmission.seen, Db.draw, hsub₁]
    have hfirst : (commandDesk P inputs).Later (s.alone db sub) _ := alone_next hrun
    rw [hdraws] at hfirst
    rw [← hseen] at hroutes
    have hrest' : names.mapM (ingressTarget { db with drawn := db.drawn + 1 } revision) = .ok rest :=
      hrest
    have hnow : sub₁.now = sub.now := by rw [hsub₁]
    rw [← hnow] at hroutes
    obtain ⟨sub', drawn, hlater, hphase', hinput, hfinal⟩ := ih (by rw [hsub₁]) hrest' hroutes
    exact ⟨sub', drawn, hfirst.trans hlater, by rw [hphase']; simp, by rw [hinput, hsub₁], hfinal⟩

/-- An insert that meets no row with its key inserts the row, whether or not it ignores conflicts. -/
theorem insertCommand_ok {sub : OpenSubmission} {db : Db} {command : Command}
    {commands : List Command} (hown : sub.own = .nil) (hregion : command.regionId = sub.region.id)
    (hkey : command.idempotencyKey = sub.input.idempotencyKey)
    (hnone : sub.key.bind (sub.findCommand db) = none)
    (h : insert command db.commands = .ok commands) :
    sub.insertCommand db command = .ok commands := by
  have hrows : (sub.seen db).commands = db.commands := by
    simp [OpenSubmission.seen, hown, SubmissionRows.nil]
  rw [OpenSubmission.insertCommand, hrows]
  cases hk : sub.key with
  | none => rw [Option.isSome_none, if_neg (by simp), h]; rfl
  | some k =>
    rw [hk] at hnone
    obtain ⟨hinput, -⟩ := Option.filter_eq_some_iff.1 hk
    have hany : db.commands.any (sameKey command) = false := by
      refine List.any_eq_false.2 fun c hc hsame => List.find?_eq_none.1 hnone c hc ?_
      simp only [sameKey, Bool.and_eq_true, decide_eq_true_eq] at hsame
      simp [← hsame.1.2, ← hsame.2, hregion, hkey, hinput]
    rw [Option.isSome_some, if_pos rfl, insertOrIgnore, hany, h]
    rfl

/-- A submission records its command one statement after the other, as `recordCommand` does. -/
theorem alone_records {sub : OpenSubmission} {command : Command} {event : Event}
    {deliveries : List Delivery} {db final : Db} (hphase : sub.phase = .inserting)
    (hown : sub.own = .nil) (hnone : sub.key.bind (sub.findCommand db) = none)
    (hcommand : sub.newCommand P db = .ok command)
    (h : recordCommand P sub.now command sub.revision
      ((sub.rejection.map Rejection.payload).getD (sub.input.payload.getD (.obj []))) db =
        .ok ((event, deliveries), final)) :
    (commandDesk P inputs).Later (s.alone db sub)
      { s with db := final, submissions := [],
               answers := s.answers ++ [(sub.input, .ok (submitted command event deliveries))] } := by
  obtain ⟨commands, hinsert, h⟩ := Except.bind_eq_ok.1 h
  obtain ⟨⟨_, db₂⟩, hevent, h⟩ := Except.bind_eq_ok.1 h
  obtain ⟨⟨_, _⟩, hroute, h⟩ := Except.bind_eq_ok.1 h
  obtain ⟨heq, rfl⟩ := Prod.mk.inj (Except.ok.inj h).symm
  obtain ⟨rfl, rfl⟩ := Prod.mk.inj heq
  obtain ⟨hregion, hkey⟩ : command.regionId = sub.region.id ∧
      command.idempotencyKey = sub.input.idempotencyKey := by
    obtain ⟨_, -, h⟩ := Except.bind_eq_ok.1 hcommand
    obtain ⟨_, -, h⟩ := Except.bind_eq_ok.1 h
    obtain ⟨_, -, h⟩ := Except.bind_eq_ok.1 h
    obtain rfl := Except.ok.inj h
    exact ⟨rfl, rfl⟩
  have hinserted := insertCommand_ok hown hregion hkey hnone (sql_eq_ok.1 hinsert)
  obtain ⟨rfl, -, -⟩ := insert_eq_ok.1 (sql_eq_ok.1 hinsert)
  obtain ⟨hstream, rfl⟩ := insertEvent_streams hevent
  obtain ⟨sub₁, hsub₁⟩ : ∃ sub₁ : OpenSubmission, sub₁ =
      { sub with own := ⟨[command], [], []⟩, phase := .recording command } := ⟨_, rfl⟩
  have hfirst : sub.statement P db = .ok sub₁ := by
    have hrows : (sub.seen db).commands = db.commands := by
      simp [OpenSubmission.seen, hown, SubmissionRows.nil]
    rw [OpenSubmission.statement, hphase]
    refine Except.bind_eq_ok.2 ⟨command, hcommand, Except.bind_eq_ok.2 ⟨_, hinserted, ?_⟩⟩
    rw [hrows, List.drop_left, hsub₁, hown]
    rfl
  have hseen₁ : sub₁.seen { db with drawn := db.drawn + 1 } =
      { db.draw with commands := db.commands ++ [command] } := by
    simp [OpenSubmission.seen, hsub₁, Db.draw]
  obtain ⟨after, hevent₁⟩ : ∃ after, insertEvent P (sub₁.eventInput command)
      (sub₁.seen { db with drawn := db.drawn + 1 }) = .ok (event, after) := by
    rw [hseen₁, hsub₁]
    exact ⟨_, hevent⟩
  obtain ⟨sub₂, hsub₂⟩ : ∃ sub₂ : OpenSubmission, sub₂ =
      { sub with own := ⟨[command], [event], []⟩, phase := sub.afterEvent command event } := ⟨_, rfl⟩
  have hsecond : sub₁.statement P { db with drawn := db.drawn + 1 } = .ok sub₂ := by
    have hphase₁ : sub₁.phase = .recording command := by rw [hsub₁]
    rw [OpenSubmission.statement, hphase₁]
    refine Except.bind_eq_ok.2 ⟨_, hevent₁, ?_⟩
    rw [hsub₂, hsub₁]
    rfl
  have hdraws : sub.draws = 1 ∧ sub₁.draws = 1 := by
    rw [OpenSubmission.draws, OpenSubmission.draws, hphase, hsub₁]
    exact ⟨rfl, rfl⟩
  have hseen₂ : sub₂.seen { db with drawn := db.drawn + 1 + 1 } =
      { ({ db.draw with commands := db.commands ++ [command] } : Db).draw with
        streams := (allocateSequence (.regionCommands command.regionId) db.streams).2,
        events := db.events ++ [event] } := by
    simp [OpenSubmission.seen, hsub₂, Db.draw, hstream]
  have hlater : (commandDesk P inputs).Later (s.alone db sub)
      (s.alone { db with drawn := db.drawn + 1 + 1 } sub₂) := by
    have h₁ : (commandDesk P inputs).Later (s.alone _ sub) _ := alone_next hfirst
    have h₂ : (commandDesk P inputs).Later (s.alone _ sub₁) _ := alone_next hsecond
    rw [hdraws.1] at h₁
    rw [hdraws.2] at h₂
    exact h₁.trans h₂
  rw [show sub.input = sub₂.input by rw [hsub₂]]
  have hphase₂ : sub₂.phase = sub.afterEvent command event := by rw [hsub₂]
  have hroute₂ : routeAccepted P sub.now command command.rejection sub.revision
      (sub₂.seen { db with drawn := db.drawn + 1 + 1 }) = .ok (deliveries, final) := by
    rw [hseen₂]
    exact hroute
  have hdone : sub.afterEvent command event = .done (submitted command event []) →
      routeAccepted P sub.now command command.rejection sub.revision
        (sub₂.seen { db with drawn := db.drawn + 1 + 1 }) =
          .ok ([], sub₂.seen { db with drawn := db.drawn + 1 + 1 }) →
      (commandDesk P inputs).Later (s.alone db sub)
        { s with db := final, submissions := [],
                 answers := s.answers ++ [(sub₂.input, .ok (submitted command event deliveries))] } := by
    intro hafter hno
    obtain ⟨rfl, rfl⟩ := Prod.mk.inj (Except.ok.inj (hno.symm.trans hroute₂))
    exact hlater.trans (alone_commit (hphase₂.trans hafter))
  cases hrejection : command.rejection with
  | some r => exact hdone (by simp [OpenSubmission.afterEvent, hrejection]) (by rw [hrejection]; rfl)
  | none =>
    rcases Option.eq_none_or_eq_some sub.revision with hrevision | ⟨v, hrevision⟩
    · exact hdone (by simp [OpenSubmission.afterEvent, hrejection, hrevision])
        (by rw [hrejection, hrevision]; rfl)
    · have hafter : sub.afterEvent command event =
          .routing command event v (ingressTargets v command.commandType) [] := by
        simp [OpenSubmission.afterEvent, hrejection, hrevision]
      rw [hrejection, hrevision] at hroute₂
      obtain ⟨targets, htargets, hroutes⟩ := Except.bind_eq_ok.1 hroute₂
      have hnow : sub.now = sub₂.now := by rw [hsub₂]
      rw [hnow] at hroutes
      have hnames : (ingressTargets v command.commandType).mapM
          (ingressTarget { db with drawn := db.drawn + 1 + 1 } v) = .ok targets := htargets
      obtain ⟨sub₃, drawn, hlater₃, hphase₃, hinput₃, hseen₃⟩ :=
        alone_routes (hphase₂.trans hafter) hnames hroutes
      have hrun₃ : sub₃.statement P { db with drawn } =
          .ok { sub₃ with phase := .done (submitted command event deliveries) } := by
        rw [OpenSubmission.statement, hphase₃]
        rfl
      have hlast : (commandDesk P inputs).Later (s.alone _ sub₃) _ := alone_next hrun₃
      have hdraws₃ : sub₃.draws = 0 := by rw [OpenSubmission.draws, hphase₃]
      rw [hdraws₃] at hlast
      rw [← hinput₃, ← hseen₃]
      exact ((hlater.trans hlater₃).trans hlast).trans (alone_commit rfl)

/-- A submission whose statements nothing comes between does what `submit` does. -/
theorem submit_later {now : Time} {input : SubmitCommandInput} {result : SubmitCommandResult}
    {db : Db} (hinput : input ∈ inputs) (hnone : s.submissions = [])
    (h : submit P now input s.db = .ok (result, db)) : (commandDesk P inputs).Later s
      { s with db, answers := s.answers ++ [(input, .ok result)] } := by
  unfold submit at h
  obtain ⟨_, htype, h⟩ := Except.bind_eq_ok.1 h
  obtain ⟨expiresAt, hexpiry, h⟩ := Except.bind_eq_ok.1 h
  cases hregion : s.db.regions.find? (·.name = regionName input.region) with
  | none => simp [hregion] at h
  | some region =>
    simp only [hregion] at h
    obtain ⟨sub, hsub⟩ : ∃ sub : OpenSubmission, sub =
        { input, now, expiresAt, region,
          revision := region.activeTopologyRevisionId.bind fun id =>
            s.db.revisions.find? (·.id = id),
          own := .nil, phase := .looking } := ⟨_, rfl⟩
    have hopen : openSubmission P now input s.db = .ok sub := by
      rw [openSubmission, hsub]
      refine Except.bind_eq_ok.2 ⟨(), htype, Except.bind_eq_ok.2 ⟨expiresAt, hexpiry, ?_⟩⟩
      rw [hregion]
      rfl
    have hbegin : (commandDesk P inputs).Later s (s.alone s.db sub) := by
      have hfirst : (commandDesk P inputs).Later s _ :=
        System.Later.refl.next (DeskStep.begin hinput hopen)
      rwa [hnone] at hfirst
    have hown : sub.own = .nil := by rw [hsub]
    have hcalled : sub.input = input := by rw [hsub]
    have hphase : sub.phase = .looking := by rw [hsub]
    have hlook : sub.statement P s.db = .ok
        { sub with phase := (sub.key.bind (sub.findCommand s.db)).elim .inserting .replaying } := by
      rw [OpenSubmission.statement, hphase]
    have hdraws : sub.draws = 0 := by rw [OpenSubmission.draws, hphase]
    have hlooked : (commandDesk P inputs).Later s (s.alone s.db
        { sub with phase := (sub.key.bind (sub.findCommand s.db)).elim .inserting .replaying }) := by
      have hnext : (commandDesk P inputs).Later (s.alone _ sub) _ := alone_next hlook
      rw [hdraws] at hnext
      exact hbegin.trans hnext
    have hsame : (input.idempotencyKey.filter (· ≠ "")).bind (fun k => s.db.commands.find? fun c =>
        c.regionId = region.id && c.idempotencyKey = some k) =
          sub.key.bind (sub.findCommand s.db) := by rw [hsub]; rfl
    rw [hsame] at h
    cases hfound : sub.key.bind (sub.findCommand s.db) with
    | some existing =>
      rw [hfound] at h hlooked
      obtain ⟨r, hreplay, h⟩ := Except.bind_eq_ok.1 h
      obtain ⟨rfl, rfl⟩ := Prod.mk.inj (Except.ok.inj h)
      obtain ⟨_, hdigest, hreplay⟩ := Except.bind_eq_ok.1 hreplay
      obtain ⟨event, hevent, hreplay⟩ := Except.bind_eq_ok.1 hreplay
      obtain rfl := Except.ok.inj hreplay
      have hread : ({ sub with phase := .replaying existing } : OpenSubmission).statement P s.db =
          .ok { sub with phase := .answering existing event } := by
        rw [OpenSubmission.statement]
        refine Except.bind_eq_ok.2 ⟨(), ?_, Except.bind_eq_ok.2 ⟨event, hevent, rfl⟩⟩
        rw [hcalled]
        exact hdigest
      have hlater := ((hlooked.trans (alone_next hread)).trans (alone_next rfl)).trans
        (alone_commit rfl)
      have hseen : ({ sub with phase := .done (replayed existing event s.db) } :
          OpenSubmission).seen s.db = s.db := by
        simp [OpenSubmission.seen, hown, SubmissionRows.nil]
      have hfinal : (commandDesk P inputs).Later s
          { s with db := ({ sub with phase := .done (replayed existing event s.db) } :
                     OpenSubmission).seen s.db,
                   submissions := [],
                   answers := s.answers ++ [(sub.input, .ok (replayed existing event s.db))] } := hlater
      rw [hseen, hcalled, ← hnone] at hfinal
      exact hfinal
    | none =>
      rw [hfound] at h hlooked
      obtain ⟨_, hindexed, h⟩ := Except.bind_eq_ok.1 h
      obtain ⟨payload, hpayload, h⟩ := Except.bind_eq_ok.1 h
      obtain ⟨_, hsource, h⟩ := Except.bind_eq_ok.1 h
      obtain ⟨⟨⟨event, deliveries⟩, final⟩, hrecord, h⟩ := Except.bind_eq_ok.1 h
      obtain ⟨hresult, rfl⟩ := Prod.mk.inj (Except.ok.inj h).symm
      obtain ⟨command, hdef⟩ : ∃ c : Command, c =
          { id := s.db.nextUuid P, regionId := sub.region.id, commandType := sub.input.commandType,
            payload, status := if sub.rejection.isSome then .rejected else .accepted,
            requestDigest := commandRequestDigest P sub.input, rejection := sub.rejection,
            correlationId := sub.input.correlationId.getD (.uuid (s.db.nextUuid P)),
            idempotencyKey := sub.input.idempotencyKey } := ⟨_, rfl⟩
      have hcommand : ({ sub with phase := .inserting } : OpenSubmission).newCommand P s.db =
          .ok command := by
        rw [hdef, hsub]
        exact Except.bind_eq_ok.2 ⟨(), hindexed, Except.bind_eq_ok.2 ⟨payload, hpayload,
          Except.bind_eq_ok.2 ⟨_, hsource, rfl⟩⟩⟩
      have hrecord' : recordCommand P sub.now command sub.revision
          ((sub.rejection.map Rejection.payload).getD (sub.input.payload.getD (.obj []))) s.db =
            .ok ((event, deliveries), db) := by
        rw [hdef, hsub]
        exact hrecord
      have hrecorded := hlooked.trans (alone_records rfl hown hfound hcommand hrecord')
      rw [hcalled, ← hnone] at hrecorded
      have hanswer : submitted command event deliveries = result := by
        rw [hdef, hsub]
        exact hresult.symm
      rw [hanswer] at hrecorded
      exact hrecorded

end Alone

/-! ## Running submissions -/

/-- What a run does next. Submissions are numbered by their place in the list. -/
inductive DeskAction where
  | begin (input : SubmitCommandInput) (now : Time)
  | statement (i : ℕ)
  | commit (i : ℕ)

namespace CommandDesk

/-- The step of an action, unless a lock holds it up. -/
def act (P : Platform) (s : CommandDesk) : DeskAction → Option CommandDesk
  | .begin input now =>
    match openSubmission P now input s.db with
    | .ok sub => some { s with submissions := sub :: s.submissions }
    | .error e => some { s with answers := s.answers ++ [(input, .error e)] }
  | .statement i =>
    match s.submissions.drop i with
    | [] => none
    | sub :: post =>
      if (s.submissions.take i ++ post).any (sub.waitsFor ·) then none
      else match sub.statement P s.db with
        | .ok sub' => some { s with db := { s.db with drawn := s.db.drawn + sub.draws },
                                    submissions := s.submissions.take i ++ sub' :: post }
        | .error e => some { s with submissions := s.submissions.take i ++ post,
                                    answers := s.answers ++ [(sub.input, .error e)] }
  | .commit i =>
    match s.submissions.drop i with
    | [] => none
    | sub :: post =>
      match sub.phase with
      | .done result => some { s with db := sub.seen s.db, submissions := s.submissions.take i ++ post,
                                      answers := s.answers ++ [(sub.input, .ok result)] }
      | _ => none

variable {P : Platform} {inputs : Set SubmitCommandInput} {s t : CommandDesk}

theorem act_step {a : DeskAction} (hinput : ∀ input now, a = .begin input now → input ∈ inputs)
    (h : s.act P a = some t) : ∃ l, DeskStep P inputs s l t := by
  have hsplit : ∀ {i : ℕ} {sub : OpenSubmission} {post : List OpenSubmission},
      s.submissions.drop i = sub :: post → s.submissions = s.submissions.take i ++ sub :: post :=
    fun hdrop => by rw [← hdrop, List.take_append_drop]
  cases a with
  | begin input now =>
    have hmem := hinput input now rfl
    rw [act] at h
    split at h
    · rename_i sub hopen
      obtain rfl := Option.some.inj h
      exact ⟨_, .begin hmem hopen⟩
    · rename_i e hopen
      obtain rfl := Option.some.inj h
      exact ⟨_, .refuse hmem hopen⟩
  | statement i =>
    rw [act] at h
    split at h
    · simp at h
    · rename_i sub post hdrop
      split at h
      · simp at h
      · rename_i hwait
        have hfree : ∀ t ∈ s.submissions.take i ++ post, ¬sub.waitsFor t :=
          fun t ht hw => hwait (List.any_eq_true.2 ⟨t, ht, hw⟩)
        split at h
        · rename_i sub' hrun
          obtain rfl := Option.some.inj h
          exact ⟨_, .statement (hsplit hdrop) hfree hrun⟩
        · rename_i e hrun
          obtain rfl := Option.some.inj h
          exact ⟨_, .fail (hsplit hdrop) hfree hrun⟩
  | commit i =>
    rw [act] at h
    split at h
    · simp at h
    · rename_i sub post hdrop
      split at h
      · rename_i result hphase
        obtain rfl := Option.some.inj h
        exact ⟨_, .commit (hsplit hdrop) hphase⟩
      · simp at h

/-- The state after some actions. -/
def acts (P : Platform) : CommandDesk → List DeskAction → Option CommandDesk
  | s, [] => some s
  | s, a :: as => (s.act P a).bind fun t => acts P t as

theorem acts_later {as : List DeskAction}
    (hinputs : ∀ input now, .begin input now ∈ as → input ∈ inputs) (h : s.acts P as = some t) :
    (commandDesk P inputs).Later s t := by
  induction as generalizing s with
  | nil =>
    obtain rfl := Option.some.inj h
    exact .refl
  | cons a as ih =>
    obtain ⟨u, hact, h⟩ := Option.bind_eq_some_iff.1 h
    obtain ⟨l, hstep⟩ := act_step (fun input now ha => hinputs input now
      (by simp [ha])) hact
    exact (System.Later.refl.next hstep).trans
      (ih (fun input now ha => hinputs input now (List.mem_cons_of_mem _ ha)) h)

end CommandDesk

end FactoryFloor
