import FactoryFloor.HandedOut

/-!
# Workers of the SDK

`WorkerRunner` of the TypeScript SDK, as the runtime's other party. A `Task` is one `execute` : the
component runs, its result is proposed after `observeCancellation` says to continue, and a heartbeat
loop goes on beside it. An `Exchange` is a call of `withRetry` on its way. `Task.abort` is the
task's `AbortController`.

A `Fleet` is runners over a network, and the runtime they call. A request may be lost, answered
late, or carried out after the worker gave it up (`strays`). Tasks and the runtime take their steps
in any order, and a process may stop at any time. What the runtime does for others is any step of it
that no worker asks for.

Left out are the checks of an envelope's form, staging and capabilities that a component asks for
itself, the logs, and the delays between two tries. Which runner an envelope is for is left open,
and so is the answer to a submission that was handed off.
-/

namespace FactoryFloor

open Relational Transition

/-! ## Observations -/

/-- The states that `cancellation` answers. -/
inductive CancellationState where
  | attemptTerminal | leaseNoLongerValid | cancellationRequested | continues
deriving DecidableEq, Repr

/-- `cancellation`. -/
def cancellation (now : Time) (input : AttemptIdentityInput) (db : Db) :
    Outcome CancellationState := do
  let attempt ← normalizeAttemptIdentity input
  match attemptRow attempt db with
  | none => return .attemptTerminal
  | some (a, execution, region) =>
    if !a.status.active then return .attemptTerminal
    else if a.lease.map (·.token) ≠ some attempt.leaseToken ||
        (a.lease.filter (now < ·.expiresAt)).isNone ||
        execution.lifecycleEpoch ≠ attempt.regionFencingEpoch then
      return .leaseNoLongerValid
    else if region.lifecycleEpoch ≠ attempt.regionFencingEpoch ||
        region.lifecycleStatus = .cancelling || region.lifecycleStatus = .cancelled then
      return .cancellationRequested
    else return .continues

/-! ## Calls -/

/-- The error handler of the routes : only a `WorkerProtocolError` may say not to try again. -/
def RuntimeError.retryable : RuntimeError → Bool
  | .worker _ _ retryable _ => retryable
  | _ => true

/-- What the client makes of an answer. An error is whether it may be tried again. -/
def answerOf {α : Type} (outcome : Outcome α) : Except Bool α :=
  outcome.mapError RuntimeError.retryable

/-- How an operation ends in `withRetry`. -/
inductive RetryVerdict (α : Type) where
  | again (attempt : ℕ)
  | threw
  | returned (value : α)

/-- `withRetry`, at the end of an operation. -/
def withRetry {α : Type} (retries attempt : ℕ) (aborted : Bool) : Except Bool α → RetryVerdict α
  | .ok value => .returned value
  | .error retryable =>
    if !retryable || retries ≤ attempt || aborted then .threw else .again (attempt + 1)

/-- A call of `withRetry` on its way. -/
inductive Exchange (α : Type) where
  /-- The request is not sent yet : it waits for its delay. -/
  | ready (attempt : ℕ)
  | sent (attempt : ℕ)
  | heard (attempt : ℕ) (answer : Except Bool α)

/-- How a call goes on by itself. Nothing is sent under an aborted signal, nor awaited. -/
def Exchange.verdict {α : Type} (retries : ℕ) (aborted : Bool) :
    Exchange α → Option (RetryVerdict α)
  | .ready _ | .sent _ => if aborted then some .threw else none
  | .heard attempt answer => some (withRetry retries attempt aborted answer)

/-! ## Tasks -/

/-- `leaseBody`. -/
def leaseBody (envelope : Envelope) : AttemptIdentityInput :=
  { executionId := envelope.executionId, attemptId := envelope.attemptId,
    leaseToken := envelope.leaseToken, regionFencingEpoch := none,
    lifecycleEpoch := some envelope.lifecycleEpoch }

/-- `normalizeResultIdentity`. -/
def normalizeResultIdentity (envelope : Envelope) (result : ProposedResultInput) :
    ProposedResultInput :=
  { result with
    executionId := envelope.executionId, attemptId := envelope.attemptId,
    leaseToken := envelope.leaseToken, lifecycleEpoch := some envelope.lifecycleEpoch }

/-- `emptyResourceUsage`. -/
def emptyResourceUsage : Json :=
  .obj [("cpuMilliseconds", .num 0), ("wallMilliseconds", .num 0), ("inputBytes", .num 0),
    ("outputBytes", .num 0), ("externalCalls", .num 0)]

/-- `componentFailureResult`. The envelope carries the component's name and version, `nameOf` its
definition. -/
def componentFailureResult (nameOf : Uuid → String) (envelope : Envelope) : ProposedResultInput :=
  { leaseBody envelope with
    status := .failed, stagedArtifacts := [], proposedState := none, proposedEvents := [],
    externalActionProposals := [], resourceUsage := emptyResourceUsage
    failure := some (.obj [("code", .str "WORKER_COMPONENT_ERROR"),
      ("message", .str "Worker component execution failed."), ("category", .str "unknown"),
      ("retryable", .bool true),
      ("details", .obj [("component", .str (nameOf envelope.definitionId))])]) }

/-- Where `execute` is. -/
inductive TaskPhase where
  | running
  | observing (result : ProposedResultInput) (call : Exchange CancellationState)
  | submitting (result : ProposedResultInput) (call : Exchange SubmitReply)
  | ended

/-- Where the heartbeat loop is. -/
inductive Beat where
  | sleeping
  | calling (call : Exchange HeartbeatReply)
  | ended

/-- One `execute` of a runner. -/
structure Task where
  runner : ℕ
  envelope : Envelope
  aborted : Bool
  phase : TaskPhase
  beat : Beat
  /-- The result it has gone on to submit. -/
  submitted : Option ProposedResultInput

namespace Task

def start (runner : ℕ) (envelope : Envelope) : Task :=
  { runner, envelope, aborted := false, phase := .running, beat := .sleeping, submitted := none }

/-- Whether the task counts for the concurrency of its runner. -/
def active (t : Task) : Bool :=
  match t.phase, t.beat with
  | .ended, .ended => false
  | _, _ => true

/-- The end of `execute`, up to the heartbeat loop. -/
def finish (t : Task) : Task :=
  { t with phase := .ended, aborted := true }

/-- After the component : `none` when it threw. -/
def afterComponent (nameOf : Uuid → String) (t : Task) (outcome : Option ProposedResultInput) :
    Task :=
  if t.aborted then t.finish
  else
    let result := match outcome with
      | some result => normalizeResultIdentity t.envelope result
      | none => componentFailureResult nameOf t.envelope
    { t with phase := .observing result (.ready 0) }

def afterObservation (t : Task) (result : ProposedResultInput) :
    RetryVerdict CancellationState → Task
  | .again attempt => { t with phase := .observing result (.ready attempt) }
  | .returned .continues =>
    { t with phase := .submitting result (.ready 0), submitted := some result }
  | _ => t.finish

def afterSubmission (t : Task) (result : ProposedResultInput) : RetryVerdict SubmitReply → Task
  | .again attempt => { t with phase := .submitting result (.ready attempt) }
  | _ => t.finish

def afterHeartbeat (t : Task) : RetryVerdict HeartbeatReply → Task
  | .again attempt => { t with beat := .calling (.ready attempt) }
  | .threw => { t with aborted := true, beat := .ended }
  | .returned reply =>
    if !reply.leaseValid || reply.cancellationRequested then
      { t with aborted := true, beat := .ended }
    else { t with beat := .sleeping }

/-- The submission that is under way, if one is. -/
def underWay (t : Task) : List ProposedResultInput :=
  match t.phase with
  | .submitting result (.sent _) => [result]
  | _ => []

end Task

/-- What a task does by itself, with the submissions it leaves under way. -/
inductive TaskStep (nameOf : Uuid → String) (registered : Bool) :
    Task → Task → List ProposedResultInput → Prop
  | unregistered {t : Task} (hphase : t.phase = .running) (h : registered = false) :
      TaskStep nameOf registered t t.finish []
  | component {t : Task} (outcome : Option ProposedResultInput) (hphase : t.phase = .running)
      (h : registered = true) :
      TaskStep nameOf registered t (t.afterComponent nameOf outcome) []
  | abort {t : Task} : TaskStep nameOf registered t { t with aborted := true } []
  | ask {t : Task} {result : ProposedResultInput} {k : ℕ}
      (hphase : t.phase = .observing result (.ready k)) (h : t.aborted = false) :
      TaskStep nameOf registered t { t with phase := .observing result (.sent k) } []
  | unanswered {t : Task} {result : ProposedResultInput} {k : ℕ}
      (hphase : t.phase = .observing result (.sent k)) :
      TaskStep nameOf registered t { t with phase := .observing result (.heard k (.error true)) } []
  | observed {t : Task} {result : ProposedResultInput} {call : Exchange CancellationState}
      {verdict : RetryVerdict CancellationState} (hphase : t.phase = .observing result call)
      (h : call.verdict 2 t.aborted = some verdict) :
      TaskStep nameOf registered t (t.afterObservation result verdict) []
  | submit {t : Task} {result : ProposedResultInput} {k : ℕ}
      (hphase : t.phase = .submitting result (.ready k)) (h : t.aborted = false) :
      TaskStep nameOf registered t { t with phase := .submitting result (.sent k) } []
  | lost {t : Task} {result : ProposedResultInput} {k : ℕ}
      (hphase : t.phase = .submitting result (.sent k)) :
      TaskStep nameOf registered t { t with phase := .submitting result (.heard k (.error true)) }
        t.underWay
  | submitted {t : Task} {result : ProposedResultInput} {call : Exchange SubmitReply}
      {verdict : RetryVerdict SubmitReply} (hphase : t.phase = .submitting result call)
      (h : call.verdict 2 t.aborted = some verdict) :
      TaskStep nameOf registered t (t.afterSubmission result verdict) t.underWay
  | wake {t : Task} (hbeat : t.beat = .sleeping) :
      TaskStep nameOf registered t
        { t with beat := if t.aborted then .ended else .calling (.ready 0) } []
  | pulse {t : Task} {k : ℕ} (hbeat : t.beat = .calling (.ready k)) (h : t.aborted = false) :
      TaskStep nameOf registered t { t with beat := .calling (.sent k) } []
  | missed {t : Task} {k : ℕ} (hbeat : t.beat = .calling (.sent k)) :
      TaskStep nameOf registered t { t with beat := .calling (.heard k (.error true)) } []
  | beaten {t : Task} {call : Exchange HeartbeatReply} {verdict : RetryVerdict HeartbeatReply}
      (hbeat : t.beat = .calling call) (h : call.verdict 2 t.aborted = some verdict) :
      TaskStep nameOf registered t (t.afterHeartbeat verdict) []
  /-- The process stops. -/
  | crash {t : Task} : TaskStep nameOf registered t { t.finish with beat := .ended } t.underWay

/-! ## Fleets -/

/-- A runner, by the definitions of the components it has. -/
structure Runner where
  registry : Uuid → Bool
  concurrency : ℕ
  /-- Whether it waits for the answer to a claim. -/
  claiming : Bool

structure Fleet where
  server : State
  /-- The envelopes on their way to a runner. -/
  claims : List Envelope
  runners : List Runner
  tasks : List Task
  /-- The submissions that were given up and may still arrive. -/
  strays : List ProposedResultInput

/-- How many tasks of a runner are active. -/
def Fleet.load (f : Fleet) (runner : ℕ) : ℕ :=
  f.tasks.countP fun t => t.runner = runner && t.active

/-- Whether only a request of a worker brings a step about. -/
def Label.ofWorkers : Label → Bool
  | .handoff _ | .envelope _ => true
  | _ => false

/-- The steps of a fleet. -/
inductive FleetStep (P : Platform) (nameOf : Uuid → String) : Fleet → Fleet → Prop
  | server {f : Fleet} {l : Label} {server : State} (hs : Step P f.server l server)
      (hlabel : l.ofWorkers = false) : FleetStep P nameOf f { f with server }
  | envelope {f : Fleet} {scheduled : LeasedExecutionAttempt} {envelope : Envelope} {server : State}
      (hs : Step P f.server (.envelope scheduled) server)
      (hnew : server.envelopes = envelope :: f.server.envelopes) :
      FleetStep P nameOf f { f with server, claims := envelope :: f.claims }
  | loseClaim {f : Fleet} {envelope : Envelope} {pre post : List Envelope}
      (hclaims : f.claims = pre ++ envelope :: post) :
      FleetStep P nameOf f { f with claims := pre ++ post }
  | claim {f : Fleet} {i : ℕ} {r : Runner} (hr : f.runners[i]? = some r)
      (hidle : r.claiming = false) (hroom : f.load i < r.concurrency) :
      FleetStep P nameOf f { f with runners := f.runners.set i { r with claiming := true } }
  | unclaimed {f : Fleet} {i : ℕ} {r : Runner} (hr : f.runners[i]? = some r) :
      FleetStep P nameOf f { f with runners := f.runners.set i { r with claiming := false } }
  | receive {f : Fleet} {i : ℕ} {r : Runner} {envelope : Envelope} {pre post : List Envelope}
      (hr : f.runners[i]? = some r) (hclaiming : r.claiming = true)
      (hclaims : f.claims = pre ++ envelope :: post) :
      FleetStep P nameOf f
        { f with claims := pre ++ post,
                 runners := f.runners.set i { r with claiming := false },
                 tasks := Task.start i envelope :: f.tasks }
  | task {f : Fleet} {t t' : Task} {r : Runner} {left : List ProposedResultInput}
      {pre post : List Task} (htasks : f.tasks = pre ++ t :: post)
      (hr : f.runners[t.runner]? = some r)
      (h : TaskStep nameOf (r.registry t.envelope.definitionId) t t' left) :
      FleetStep P nameOf f { f with tasks := pre ++ t' :: post, strays := left ++ f.strays }
  | observe {f : Fleet} {t : Task} {result : ProposedResultInput} {k : ℕ} {pre post : List Task}
      (htasks : f.tasks = pre ++ t :: post) (hphase : t.phase = .observing result (.sent k)) :
      FleetStep P nameOf f
        { f with tasks := pre ++ { t with phase := .observing result (.heard k
            (answerOf (cancellation f.server.now (leaseBody t.envelope) f.server.db))) } :: post }
  | heartbeat {f : Fleet} {t : Task} {k leaseDurationMs : ℕ} {reply : HeartbeatReply} {db : Db}
      {pre post : List Task} (htasks : f.tasks = pre ++ t :: post)
      (hbeat : t.beat = .calling (.sent k)) (hduration : validLeaseDuration leaseDurationMs)
      (hop : heartbeat f.server.now leaseDurationMs (leaseBody t.envelope) f.server.db =
        .ok (reply, db)) :
      FleetStep P nameOf f
        { f with server := { f.server with db },
                 tasks := pre ++ { t with beat := .calling (.heard k (.ok reply)) } :: post }
  | heartbeatRefused {f : Fleet} {t : Task} {k leaseDurationMs : ℕ} {e : RuntimeError}
      {pre post : List Task} (htasks : f.tasks = pre ++ t :: post)
      (hbeat : t.beat = .calling (.sent k)) (hop : heartbeat f.server.now leaseDurationMs
        (leaseBody t.envelope) f.server.db = .error e) :
      FleetStep P nameOf f
        { f with tasks :=
            pre ++ { t with beat := .calling (.heard k (.error e.retryable)) } :: post }
  | handoff {f : Fleet} {t : Task} {result : ProposedResultInput} {k : ℕ} {server : State}
      {pre post : List Task} (answer : Except Bool SubmitReply)
      (htasks : f.tasks = pre ++ t :: post) (hphase : t.phase = .submitting result (.sent k))
      (hs : Step P f.server (.handoff result) server) :
      FleetStep P nameOf f
        { f with server,
                 tasks := pre ++ { t with phase := .submitting result (.heard k answer) } :: post }
  | handoffRefused {f : Fleet} {t : Task} {result : ProposedResultInput} {k : ℕ} {e : RuntimeError}
      {pre post : List Task} (htasks : f.tasks = pre ++ t :: post)
      (hphase : t.phase = .submitting result (.sent k))
      (hop : handoff P f.server.now result f.server.db = .error e) :
      FleetStep P nameOf f
        { f with tasks :=
            pre ++ { t with phase := .submitting result (.heard k (.error e.retryable)) } :: post }
  | stray {f : Fleet} {result : ProposedResultInput} {server : State}
      {pre post : List ProposedResultInput} (hstrays : f.strays = pre ++ result :: post)
      (hs : Step P f.server (.handoff result) server) :
      FleetStep P nameOf f { f with server, strays := pre ++ post }

/-- A fleet before any work. -/
structure Fleet.Initial (P : Platform) (f : Fleet) : Prop where
  server : FactoryFloor.Initial P f.server
  claims : f.claims = []
  runners : ∀ r ∈ f.runners, r.claiming = false
  tasks : f.tasks = []
  strays : f.strays = []

end FactoryFloor
