import FactoryFloor.CommitRefines

/-!
# What an attempt has published

`Publication` is what one attempt has published : its outputs, the events derived from it, the
deliveries of these events as they were routed, its external actions as they were proposed, and
its ledger rows.

Every operation but a commit is `Quiet` : it adds neither to the publication of an attempt nor to
the committed submissions. A commit adds to the publication of its own attempt only, which has
none before (`Commits.publication`), and marks the submission (`Commits.submission`).
-/

namespace FactoryFloor

open Relational

/-! ## Publications -/

/-- The action as it was proposed. -/
def ExternalAction.asProposed (a : ExternalAction) : ExternalAction :=
  { a with status := .proposed, approvalId := none }

/-- What one attempt has published. -/
structure Publication where
  outputs : List ExecutionOutput
  events : List Event
  deliveries : List Delivery
  actions : List ExternalAction
  ledger : List ResourceLedgerEntry

/-- Nothing is published. -/
def Publication.none : Publication :=
  ⟨[], [], [], [], []⟩

/-- Whether an event is derived from an attempt. -/
def Event.isOf (attemptId : Uuid) (e : Event) : Bool :=
  e.source.attemptId? = some attemptId

/-- Whether a delivery is of one of the events. -/
def Delivery.isOf (events : List Event) (d : Delivery) : Bool :=
  events.any fun e => d.source = .event e.id

/-- The publication of an attempt. -/
def Db.publication (db : Db) (attemptId : Uuid) : Publication :=
  let events := db.events.filter (Event.isOf attemptId)
  { outputs := db.outputs.filter (·.attemptId = attemptId), events,
    deliveries := (db.deliveries.map Delivery.asRouted).filter (Delivery.isOf events),
    actions := (db.actions.map ExternalAction.asProposed).filter (·.attemptId = attemptId),
    ledger := db.ledger.filter (ResourceLedgerEntry.isOf attemptId) }

/-- The publication of the rows a commit writes. -/
def Written.publication (w : Written) : Publication :=
  ⟨w.outputs, w.events, w.deliveries, w.actions, w.ledger⟩

/-! ## Contents -/

/-- Whether some request proposes a content under a digest. -/
def Proposed (P : Platform) (content : ProposedExecutionResult) (digest : Digest) : Prop :=
  ∃ request, commitInput request = .ok content ∧ submissionDigestOf P request = digest

/-- Where digests do not collide, a digest has one content. -/
theorem Proposed.eq {P : Platform} {content content' : ProposedExecutionResult} {digest : Digest}
    (hinj : Function.Injective P.canonicalJsonDigest) (h : Proposed P content digest)
    (h' : Proposed P content' digest) : content = content' := by
  obtain ⟨request, hcontent, rfl⟩ := h
  obtain ⟨request', hcontent', hdigest⟩ := h'
  obtain rfl : request' = request := Digested.submission.inj (hinj hdigest)
  exact Except.ok.inj (hcontent.symm.trans hcontent')

/-- The content of a request is of the attempt the request names. -/
theorem commitInput_attemptId {input : ProposedResultInput} {content : ProposedExecutionResult}
    (h : commitInput input = .ok content) :
    content.attemptId = input.attemptId ∧ content.executionId = input.executionId := by
  unfold commitInput at h
  obtain ⟨attempt, hattempt, h⟩ := Except.bind_eq_ok.1 h
  obtain ⟨_, -, h⟩ := Except.bind_eq_ok.1 h
  obtain ⟨_, -, h⟩ := Except.bind_eq_ok.1 h
  obtain rfl := Except.ok.inj h
  unfold normalizeAttemptIdentity at hattempt
  obtain ⟨_, -, hattempt⟩ := Except.bind_eq_ok.1 hattempt
  split at hattempt
  · obtain rfl := Except.ok.inj hattempt
    exact ⟨rfl, rfl⟩
  · simp at hattempt

/-- A row whose content a request proposed. -/
structure WorkerResultSubmission.Handed (P : Platform) (r : WorkerResultSubmission) : Prop where
  proposed : Proposed P r.result r.submissionDigest
  attemptId : r.result.attemptId = r.attemptId
  executionId : r.result.executionId = r.executionId

/-- Whether the attempt of a submission is there. -/
def Db.Attempted (db : Db) (r : WorkerResultSubmission) : Prop :=
  ∃ a ∈ db.attempts, a.id = r.attemptId ∧ a.executionId = r.executionId

/-! ## Quiet operations -/

/-- An operation that publishes nothing for an attempt. -/
structure Quiet (P : Platform) (db db' : Db) : Prop where
  outputs : db'.outputs = db.outputs
  ledger : db'.ledger = db.ledger
  stateVersions : db'.stateVersions = db.stateVersions
  actions : db'.actions.map ExternalAction.asProposed = db.actions.map ExternalAction.asProposed
  events : ∃ new, db'.events = db.events ++ new ∧ ∀ e ∈ new, e.source.attemptId? = none
  deliveries : ∃ new, db'.deliveries.map Delivery.asRouted =
    db.deliveries.map Delivery.asRouted ++ new ∧ ∀ d ∈ new, ∃ id, d.source = .command id
  artifacts : db'.artifacts.map (fun a => (a.id, a.digest)) =
    db.artifacts.map fun a => (a.id, a.digest)
  committed : ∀ s, s.committedAt.isSome → (s ∈ db'.submissions ↔ s ∈ db.submissions)
  submissions : Keyed (·.attemptId) db.submissions → Keyed (·.attemptId) db'.submissions
  handed : ∀ r ∈ db'.submissions, r ∈ db.submissions ∨ r.Handed P ∧ db.Attempted r

variable {P : Platform} {placed : GroupKey → Prop} {allow : Work → List Delivery → Prop}
variable {late : Time → Prop} {db db' db'' : Db}

/-- A step that routes nothing keeps how the deliveries were routed. -/
theorem Work.Step.asRouted {w w' : Work} (h : Work.Step P nowhere allow late w w') :
    w'.deliveries.map Delivery.asRouted = w.deliveries.map Delivery.asRouted := by
  have hmoves : ∀ {p : Delivery → Bool} {f : Delivery → Delivery} (ds : List Delivery),
      Delivery.Moves f → (updateWhere p f ds).map Delivery.asRouted = ds.map Delivery.asRouted :=
    fun ds hf => map_updateWhere _ hf.asRouted ds
  cases h with
  | draw | moveRegions => rfl
  | @route new n hn hnew hkeyed =>
    obtain rfl : new = [] := List.eq_nil_iff_forall_not_mem.2 fun d hd => (hnew d hd).2.2.1
    simp
  | putOff => exact hmoves _ (Delivery.putOff_moves _)
  | start => exact hmoves _ (Delivery.under_moves _)
  | resume => exact hmoves _ (Delivery.under_moves _)
  | extend => exact hmoves _ (Delivery.extend_moves _ _)
  | retry _ _ _ _ _ _ hf => exact hmoves _ hf
  | close _ _ _ _ _ _ hf => exact hmoves _ hf
  | cancel _ _ _ _ _ hf => exact hmoves _ hf

theorem Schedules.asRouted (h : Schedules P allow late db db') :
    db'.deliveries.map Delivery.asRouted = db.deliveries.map Delivery.asRouted := by
  have hrun : ∀ w, Relation.ReflTransGen (Work.Step P nowhere allow late) db.work w →
      w.deliveries.map Delivery.asRouted = db.work.deliveries.map Delivery.asRouted := by
    intro w hsteps
    induction hsteps with
    | refl => rfl
    | tail _ hs ih => exact hs.asRouted.trans ih
  exact hrun _ h.steps

namespace Quiet

theorem refl : Quiet P db db :=
  ⟨rfl, rfl, rfl, rfl, ⟨[], by simp, by simp⟩, ⟨[], by simp, by simp⟩, rfl, fun _ _ => Iff.rfl, id,
    fun _ h => Or.inl h⟩

/-- What only schedules after a quiet operation is quiet with it. -/
theorem schedules (h : Quiet P db db') (hs : Schedules P allow late db' db'') : Quiet P db db'' := by
  have hp := hs.publications
  have hsub : db''.submissions = db'.submissions := by rw [hp]
  refine ⟨?_, ?_, ?_, ?_, ?_, ?_, ?_, fun r hr => ?_, fun hk => ?_, fun r hr => ?_⟩
  · rw [hp, h.outputs]
  · rw [hp, h.ledger]
  · rw [hp, h.stateVersions]
  · rw [hp, h.actions]
  · rw [hp]
    exact h.events
  · rw [hs.asRouted]
    exact h.deliveries
  · rw [hs.artifacts]
    exact h.artifacts
  · rw [hsub]
    exact h.committed r hr
  · rw [hsub]
    exact h.submissions hk
  · rw [hsub] at hr
    exact h.handed r hr

/-- An operation that only schedules is quiet. -/
theorem of_schedules (h : Schedules P allow late db db') : Quiet P db db' :=
  refl.schedules h

/-- A quiet operation changes the publication of no attempt. -/
theorem publication (h : Quiet P db db') (attemptId : Uuid) :
    db'.publication attemptId = db.publication attemptId := by
  obtain ⟨es, hes, hnewEvents⟩ := h.events
  obtain ⟨ds, hds, hnewDeliveries⟩ := h.deliveries
  have hevents : db'.events.filter (Event.isOf attemptId) =
      db.events.filter (Event.isOf attemptId) := by
    have hnone : es.filter (Event.isOf attemptId) = [] :=
      List.filter_eq_nil_iff.2 fun e he => by simp [Event.isOf, hnewEvents e he]
    rw [hes, List.filter_append, hnone, List.append_nil]
  have hdeliveries : ∀ events : List Event,
      (db'.deliveries.map Delivery.asRouted).filter (Delivery.isOf events) =
        (db.deliveries.map Delivery.asRouted).filter (Delivery.isOf events) := by
    intro events
    have hnone : ds.filter (Delivery.isOf events) = [] :=
      List.filter_eq_nil_iff.2 fun d hd => by
        obtain ⟨id, hid⟩ := hnewDeliveries d hd
        simp [Delivery.isOf, hid]
    rw [hds, List.filter_append, hnone, List.append_nil]
  simp only [Db.publication, hevents, hdeliveries, h.outputs, h.actions, h.ledger]

/-- A quiet operation keeps and adds no committed submission. -/
theorem committed_iff (h : Quiet P db db') (attemptId : Uuid) :
    db'.Committed attemptId ↔ db.Committed attemptId := by
  constructor
  · rintro ⟨s, hs, hid, hc⟩
    exact ⟨s, (h.committed s hc).1 hs, hid, hc⟩
  · rintro ⟨s, hs, hid, hc⟩
    exact ⟨s, (h.committed s hc).2 hs, hid, hc⟩

theorem backed (h : Quiet P db db') (hb : Backed db) : Backed db' := by
  obtain ⟨es, hes, hnewEvents⟩ := h.events
  obtain ⟨ds, hds, hnewDeliveries⟩ := h.deliveries
  have hcommitted : ∀ {a}, db.Committed a → db'.Committed a := fun hc => (h.committed_iff _).2 hc
  refine ⟨?_, h.submissions hb.submissions, ?_, ?_, ?_, ?_, ?_⟩
  · have hids := congrArg (List.map Prod.fst) h.artifacts
    simp only [List.map_map, Function.comp_def] at hids
    have hk := hb.artifacts
    unfold Keyed at hk ⊢
    rwa [hids]
  · intro d hd id hid
    have hmem : d.asRouted ∈ db.deliveries.map Delivery.asRouted ++ ds :=
      hds ▸ List.mem_map_of_mem hd
    rw [hes]
    rcases List.mem_append.1 hmem with hmem | hmem
    · obtain ⟨d₀, hd₀, heq⟩ := List.mem_map.1 hmem
      have hsource : d₀.source = d.source := (Delivery.of_asRouted_eq heq).2.2
      obtain ⟨e, he, heid⟩ := hb.sourced d₀ hd₀ id (hsource.trans hid)
      exact ⟨e, List.mem_append_left _ he, heid⟩
    · obtain ⟨c, hc⟩ := hnewDeliveries _ hmem
      have hc : d.source = .command c := hc
      rw [hid] at hc
      simp at hc
  · exact fun o ho => hcommitted (hb.outputs o (h.outputs ▸ ho))
  · intro e he a ha
    rw [hes] at he
    rcases List.mem_append.1 he with he | he
    · exact hcommitted (hb.events e he a ha)
    · simp [hnewEvents e he] at ha
  · intro a ha
    obtain ⟨a₀, ha₀, heq⟩ := List.mem_map.1 (h.actions ▸ List.mem_map_of_mem ha)
    have hid : a₀.attemptId = a.attemptId :=
      show a₀.asProposed.attemptId = a.asProposed.attemptId from congrArg _ heq
    exact hid ▸ hcommitted (hb.actions a₀ ha₀)
  · exact fun l hl a ha => hcommitted (hb.ledger l (h.ledger ▸ hl) a ha)

end Quiet

/-- The deliveries and the artifacts only grow. -/
structure Grows (db db' : Db) : Prop where
  digestOf : ∀ id digest, digestOf db.artifacts id = some digest → digestOf db'.artifacts id = some digest
  deliveries : ∀ d ∈ db.deliveries, ∃ d' ∈ db'.deliveries, d'.asRouted = d.asRouted

theorem Quiet.grows (h : Quiet P db db') : Grows db db' := by
  refine ⟨fun id digest hdigest => ?_, fun d hd => ?_⟩
  · have hfind : ∀ artifacts : List Artifact, FactoryFloor.digestOf artifacts id =
        ((artifacts.map fun a => (a.id, a.digest)).find? (·.1 = id)).map Prod.snd := by
      intro artifacts
      rw [FactoryFloor.digestOf, List.find?_map, Option.map_map]
      rfl
    rwa [hfind, h.artifacts, ← hfind]
  · obtain ⟨new, hnew, -⟩ := h.deliveries
    have hmem : d.asRouted ∈ db'.deliveries.map Delivery.asRouted :=
      hnew ▸ List.mem_append_left _ (List.mem_map_of_mem hd)
    exact List.mem_map.1 hmem

/-! ## Commits -/

variable {env : CommitEnv} {input : ProposedExecutionResult} {submissionDigest : Digest}
variable {disposition : CommitDisposition} {l : Locked} {db₁ db₂ dbw : Db} {w : Written}

/-- The rows a commit writes are of its own attempt. -/
theorem Describes.own {execution : Execution} {component : ComponentInstance} {correlationId : Text}
    (h : Describes P input execution component correlationId dbw w) :
    (∀ o ∈ w.outputs, o.attemptId = input.attemptId) ∧
      (∀ e ∈ w.events, e.source.attemptId? = some input.attemptId) ∧
      (∀ a ∈ w.actions, a.attemptId = input.attemptId ∧ a.asProposed = a) ∧
      ∀ r ∈ w.ledger, r.attemptId = some input.attemptId ∧ r.externalActionId = none := by
  have hledger : ∀ r ∈ w.ledger,
      r.attemptId = some input.attemptId ∧ r.externalActionId = none := by
    intro r hr
    rw [h.ledger] at hr
    obtain ⟨unit, -, hunit⟩ := List.mem_filterMap.1 hr
    dsimp only at hunit
    split at hunit
    · split at hunit
      · simp at hunit
      · obtain rfl := Option.some.inj hunit
        exact ⟨rfl, rfl⟩
    · simp at hunit
  by_cases hc : input.status = .completed
  · obtain ⟨rows, outputs, events, ho, he, -, hrows, houtputs, hevents, hactions⟩ := h.completed hc
    refine ⟨fun o hmem => ?_, fun e hmem => ?_, fun a hmem => ?_, hledger⟩
    · rw [ho] at hmem
      rcases List.mem_append.1 hmem with hmem | hmem
      · obtain ⟨r, hr, rfl⟩ := List.mem_map.1 hmem
        obtain ⟨_, -, hout⟩ := exists_of_forall₂ hrows hr
        rw [hout.output]
      · obtain ⟨_, -, hstate⟩ := exists_of_forall₂ houtputs hmem
        rw [hstate.row]
    · rw [he] at hmem
      rcases List.mem_append.1 hmem with hmem | hmem
      · obtain ⟨r, hr, rfl⟩ := List.mem_map.1 hmem
        obtain ⟨_, -, hout⟩ := exists_of_forall₂ hrows hr
        rw [hout.source]
        rfl
      · obtain ⟨_, -, hev⟩ := exists_of_forall₂ hevents hmem
        rw [hev.source]
        rfl
    · obtain ⟨_, -, hact⟩ := exists_of_forall₂ hactions hmem
      exact ⟨hact.attemptId, by rw [ExternalAction.asProposed, ← hact.status, ← hact.approvalId]⟩
  · have hw := h.failed hc
    refine ⟨?_, ?_, ?_, hledger⟩ <;> rw [hw] <;> simp [Written.ofLedger, Written.none]

/-- The tables of publications at the end of a commit, up to the submissions. -/
structure Ends (w : Written) (db db' : Db) : Prop where
  outputs : db'.outputs = db.outputs ++ w.outputs
  events : db'.events = db.events ++ w.events
  deliveries : db'.deliveries.map Delivery.asRouted =
    db.deliveries.map Delivery.asRouted ++ w.deliveries
  actions : db'.actions = db.actions ++ w.actions
  ledger : db'.ledger = db.ledger ++ w.ledger
  stateVersions : db'.stateVersions = db.stateVersions ++ w.stateVersions
  artifacts : db.artifacts <+: db'.artifacts
  artifactsKeyed : Keyed (·.id) db.artifacts → Keyed (·.id) db'.artifacts
  actionsKeyed : Keyed (·.id) db.actions → Keyed (·.id) db'.actions
  newEvents : ∀ e ∈ w.events, ∀ e' ∈ db.events, e'.id ≠ e.id
  newDeliveries : ∀ d ∈ w.deliveries, ∃ e ∈ w.events, d.source = .event e.id

theorem Ends.grows (h : Ends w db db') : Grows db db' := by
  refine ⟨fun id digest hdigest => ?_, fun d hd => ?_⟩
  · obtain ⟨new, hnew⟩ := h.artifacts
    exact hnew ▸ digestOf_append hdigest new
  · have hmem : d.asRouted ∈ db'.deliveries.map Delivery.asRouted :=
      h.deliveries ▸ List.mem_append_left _ (List.mem_map_of_mem hd)
    exact List.mem_map.1 hmem

/-- A commit writes its rows, and then only schedules. -/
theorem Commits.wrote (hw : Work.Coherent P placed db.work) (hb : Backed db)
    (hplaced : ConnectionsPlaced placed db)
    (h : Commits P env input submissionDigest disposition l db db₁ db₂ db') :
    ∃ w dbw, Wrote P env input disposition l db₁ w dbw db₂ ∧
      Schedules P (fun _ _ => False) (fun _ => False) dbw db₂ := by
  obtain ⟨w, dbw, hwrote⟩ := h.writes hb
  have hrec := h.records
  have hsched := hwrote.writes.scheduling
  have he : l.execution ∈ db₁.executions := by
    rw [hrec.scheduling]
    exact (mem_of_find?_key h.authorized.execution).1
  have hplaced₁ : ConnectionsPlaced placed db₁ := by
    unfold ConnectionsPlaced
    rw [hrec.scheduling, hrec.catalog]
    exact hplaced
  have hrecord : Refines P placed (fun _ _ => False) (fun _ => False) db db₁ :=
    Refines.of_work hrec.catalog (by rw [hrec.scheduling]) hrec.drawn hrec.work
  exact ⟨w, dbw, hwrote, hwrote.end_schedules h.authorized hw
    ((hrecord.trans (hwrote.refines he hplaced₁)).coherent hw) (by rw [hsched, hrec.scheduling])
    (by rw [hsched, hrec.scheduling]) (by rw [hsched, hrec.scheduling])⟩

theorem Commits.ends (hw : Work.Coherent P placed db.work) (hb : Backed db)
    (hplaced : ConnectionsPlaced placed db)
    (h : Commits P env input submissionDigest disposition l db db₁ db₂ db') :
    ∃ w dbw, Wrote P env input disposition l db₁ w dbw db₂ ∧ Ends w db db' ∧
      dbw.toCatalog = db.toCatalog ∧ db'.artifacts = dbw.artifacts := by
  obtain ⟨w, dbw, hwrote, hend⟩ := h.wrote hw hb hplaced
  have hrec := h.records
  have hwr := hwrote.writes
  have hmark := markCommitted_eq_ok h.mark
  have hpub := hend.publications
  refine ⟨w, dbw, hwrote, ?_, hwr.catalog.trans hrec.catalog, by rw [hmark, hend.artifacts]⟩
  rw [hmark]
  constructor
  · exact (congrArg Publications.outputs hpub).trans (by rw [hwr.outputs, hrec.outputs])
  · exact (congrArg Publications.events hpub).trans (by rw [hwr.events, hrec.events])
  · change db₂.deliveries.map Delivery.asRouted = _
    have hnew : w.deliveries.map Delivery.asRouted = w.deliveries := by
      refine (List.map_congr_left (g := id) fun d hd => ?_).trans (List.map_id _)
      obtain ⟨now, s, t, k, -, -, rfl, -⟩ := hwr.newDeliveries d hd
      rfl
    rw [hend.asRouted, hwr.scheduling, List.map_append, hrec.scheduling, hnew]
  · exact (congrArg Publications.actions hpub).trans (by rw [hwr.actions, hrec.actions])
  · exact (congrArg Publications.ledger hpub).trans (by rw [hwr.ledger, hrec.ledger])
  · exact (congrArg Publications.stateVersions hpub).trans
      (by rw [hwr.stateVersions, hrec.stateVersions])
  · change db.artifacts <+: db₂.artifacts
    rw [hend.artifacts, ← hrec.artifacts]
    exact hwr.artifacts
  · intro hk
    change Keyed (·.id) db₂.artifacts
    rw [hend.artifacts]
    exact hwr.artifactsKeyed (by rwa [hrec.artifacts])
  · intro hk
    change Keyed (·.id) db₂.actions
    rw [show db₂.actions = dbw.actions from congrArg Publications.actions hpub]
    exact hwr.actionsKeyed (by rwa [hrec.actions])
  · intro e he e' he'
    exact hwr.newEvents e he e' (hrec.events ▸ he')
  · intro d hd
    obtain ⟨now, s, t, k, -, -, rfl, e, he, hs⟩ := hwr.newDeliveries d hd
    exact ⟨e, he, hs⟩

/-- The submission rows after a commit : the one of its attempt is committed, and the others are
as before. -/
theorem Commits.submission (hw : Work.Coherent P placed db.work) (hb : Backed db)
    (hplaced : ConnectionsPlaced placed db)
    (h : Commits P env input submissionDigest disposition l db db₁ db₂ db') :
    Keyed (·.attemptId) db'.submissions ∧
      (∀ t, t.attemptId ≠ input.attemptId → (t ∈ db'.submissions ↔ t ∈ db.submissions)) ∧
      ∃ s, s.attemptId = input.attemptId ∧ s.submissionDigest = submissionDigest ∧
        (s ∈ db.submissions ∨ s.executionId = input.executionId ∧ s.result = input) ∧
        { s with committedAt := some env.now } ∈ db'.submissions := by
  have hmark := markCommitted_eq_ok h.mark
  have hends : db₂.submissions = db₁.submissions := by
    obtain ⟨w, dbw, hwrote, hend⟩ := h.wrote hw hb hplaced
    exact (congrArg Publications.submissions hend.publications).trans hwrote.writes.submissions
  have hkeyed : Keyed (·.attemptId) db₁.submissions := by
    rcases recordSubmission_eq_ok h.record with ⟨rfl, -⟩ | ⟨s, hid, -, -, -, -, -, -, hnew, rfl⟩
    · exact hb.submissions
    · exact hb.submissions.append fun t ht => hid ▸ hnew t ht
  obtain ⟨s, hs, hid, hdigest, hopen, hfrom, hsame⟩ : ∃ s ∈ db₁.submissions,
      s.attemptId = input.attemptId ∧ s.submissionDigest = submissionDigest ∧ s.committedAt = none ∧
        (s ∈ db.submissions ∨ s.executionId = input.executionId ∧ s.result = input) ∧
        ∀ t, t.attemptId ≠ input.attemptId → (t ∈ db₁.submissions ↔ t ∈ db.submissions) := by
    rcases recordSubmission_eq_ok h.record with
      ⟨rfl, s, hs⟩ | ⟨s, hid, hdigest, hexec, hresult, hopen, -, -, -, rfl⟩
    · obtain ⟨hmem, hid⟩ := (submission?_eq_some hb.submissions).1 hs
      obtain ⟨hdigest, hopen⟩ := h.uncommitted s hs
      exact ⟨s, hmem, hid, hdigest, hopen, Or.inl hmem, fun _ _ => Iff.rfl⟩
    · refine ⟨s, by simp, hid, hdigest, hopen, Or.inr ⟨hexec, hresult⟩, fun t ht => ?_⟩
      simp only [List.mem_append, List.mem_singleton, or_iff_left_iff_imp]
      rintro rfl
      exact absurd hid ht
  rw [hmark, hends]
  refine ⟨hkeyed.updateWhere fun _ => rfl, fun t ht => ?_, s, hid, hdigest, hfrom, ?_⟩
  · rw [← hsame t ht]
    constructor
    · intro hmem
      obtain ⟨u, hu, rfl⟩ := mem_updateWhere.1 hmem
      split at ht
      · rename_i hsel
        simp only [Bool.and_eq_true, decide_eq_true_eq] at hsel
        exact absurd hsel.1.1 ht
      · rename_i hsel
        simpa [hsel] using hu
    · intro hmem
      refine mem_updateWhere_of_not hmem ?_
      simp [ht]
  · refine mem_updateWhere.2 ⟨s, hs, ?_⟩
    simp [hid, hdigest, hopen]

/-- The publications after a commit : its attempt had none, and now has the rows written. The
other attempts keep theirs. -/
theorem Ends.publication (h : Ends w db db') (hb : Backed db) (hnot : ¬db.Committed input.attemptId)
    {execution : Execution} {component : ComponentInstance} {correlationId : Text}
    (hd : Describes P input execution component correlationId dbw w) :
    db'.publication input.attemptId = w.publication ∧
      ∀ b, b ≠ input.attemptId → db'.publication b = db.publication b := by
  obtain ⟨houtputs, hevents, hactions, hledger⟩ := hd.own
  have hactionsNew : w.actions.map ExternalAction.asProposed = w.actions :=
    (List.map_congr_left (g := id) fun a ha => (hactions a ha).2).trans (List.map_id _)
  have hold : ∀ e ∈ w.events, ∀ d ∈ db.deliveries.map Delivery.asRouted,
      d.source ≠ .event e.id := by
    intro e he d hd hs
    obtain ⟨d₀, hd₀, rfl⟩ := List.mem_map.1 hd
    obtain ⟨e', he', hid⟩ := hb.sourced d₀ hd₀ e.id hs
    exact h.newEvents e he e' he' hid
  constructor
  · have holdEvents : db.events.filter (Event.isOf input.attemptId) = [] :=
      List.filter_eq_nil_iff.2 fun e he hof => hnot (hb.events e he _ (by simpa [Event.isOf] using hof))
    have hnewEvents : w.events.filter (Event.isOf input.attemptId) = w.events :=
      List.filter_eq_self.2 fun e he => by simp [Event.isOf, hevents e he]
    have holdDeliveries : (db.deliveries.map Delivery.asRouted).filter (Delivery.isOf w.events) = [] :=
      List.filter_eq_nil_iff.2 fun d hd hof => by
        obtain ⟨e, he, hs⟩ := List.any_eq_true.1 hof
        exact hold e he d hd (by simpa using hs)
    have hnewDeliveries : w.deliveries.filter (Delivery.isOf w.events) = w.deliveries :=
      List.filter_eq_self.2 fun d hd => by
        obtain ⟨e, he, hs⟩ := h.newDeliveries d hd
        exact List.any_eq_true.2 ⟨e, he, by simpa using hs⟩
    have houtputsOld : db.outputs.filter (·.attemptId = input.attemptId) = [] :=
      List.filter_eq_nil_iff.2 fun o ho hid => hnot (by simpa using of_decide_eq_true hid ▸ hb.outputs o ho)
    have hledgerOld : db.ledger.filter (ResourceLedgerEntry.isOf input.attemptId) = [] :=
      List.filter_eq_nil_iff.2 fun o ho hof => hnot (hb.ledger o ho _ hof)
    have hactionsOld : (db.actions.map ExternalAction.asProposed).filter
        (·.attemptId = input.attemptId) = [] :=
      List.filter_eq_nil_iff.2 fun a ha hid => by
        obtain ⟨a₀, ha₀, rfl⟩ := List.mem_map.1 ha
        have hid : a₀.attemptId = input.attemptId := of_decide_eq_true hid
        exact hnot (hid ▸ hb.actions a₀ ha₀)
    have houtputsNew : w.outputs.filter (·.attemptId = input.attemptId) = w.outputs :=
      List.filter_eq_self.2 fun o ho => by simp [houtputs o ho]
    have hledgerNew : w.ledger.filter (ResourceLedgerEntry.isOf input.attemptId) = w.ledger :=
      List.filter_eq_self.2 fun o ho => by simp [ResourceLedgerEntry.isOf, hledger o ho]
    have hactionsFilter : w.actions.filter (·.attemptId = input.attemptId) = w.actions :=
      List.filter_eq_self.2 fun a ha => by simp [(hactions a ha).1]
    simp only [Db.publication, Written.publication, h.outputs, h.events, h.deliveries, h.actions,
      h.ledger, List.filter_append, List.map_append, holdEvents, hnewEvents, holdDeliveries,
      hnewDeliveries, houtputsOld, houtputsNew, hledgerOld, hledgerNew, hactionsOld, hactionsNew,
      hactionsFilter, List.nil_append]
  · intro b hb'
    have hnewEvents : w.events.filter (Event.isOf b) = [] :=
      List.filter_eq_nil_iff.2 fun e he => by simp [Event.isOf, hevents e he, Ne.symm hb']
    have hnewDeliveries : w.deliveries.filter (Delivery.isOf (db.events.filter (Event.isOf b))) = [] :=
      List.filter_eq_nil_iff.2 fun d hd hof => by
        obtain ⟨e, he, hs⟩ := h.newDeliveries d hd
        obtain ⟨e', he', hs'⟩ := List.any_eq_true.1 hof
        have hs' : d.source = .event e'.id := by simpa using hs'
        exact h.newEvents e he e' (List.mem_filter.1 he').1
          (DeliverySource.event.inj (hs'.symm.trans hs))
    have houtputsNew : w.outputs.filter (·.attemptId = b) = [] :=
      List.filter_eq_nil_iff.2 fun o ho => by simp [houtputs o ho, Ne.symm hb']
    have hledgerNew : w.ledger.filter (ResourceLedgerEntry.isOf b) = [] :=
      List.filter_eq_nil_iff.2 fun o ho => by
        simp [ResourceLedgerEntry.isOf, hledger o ho, Ne.symm hb']
    have hactionsFilter : w.actions.filter (·.attemptId = b) = [] :=
      List.filter_eq_nil_iff.2 fun a ha => by simp [(hactions a ha).1, Ne.symm hb']
    simp only [Db.publication, h.outputs, h.events, h.deliveries, h.actions, h.ledger,
      List.filter_append, List.map_append, hnewEvents, hnewDeliveries, houtputsNew, hledgerNew,
      hactionsNew, hactionsFilter, List.append_nil]

/-- What is published after a commit is of a committed submission. -/
theorem Commits.backed (hw : Work.Coherent P placed db.work) (hb : Backed db)
    (hplaced : ConnectionsPlaced placed db)
    (h : Commits P env input submissionDigest disposition l db db₁ db₂ db') : Backed db' := by
  obtain ⟨w, dbw, hwrote, hends, -⟩ := h.ends hw hb hplaced
  obtain ⟨hkeyed, hother, s, hid, -, -, hmem⟩ := h.submission hw hb hplaced
  obtain ⟨first, -, hdescribes⟩ := hwrote.describes
  obtain ⟨houtputs, hevents, hactions, hledger⟩ := hdescribes.own
  have hown : db'.Committed input.attemptId := ⟨_, hmem, hid, rfl⟩
  have hkeep : ∀ {a}, db.Committed a → db'.Committed a := by
    rintro a ⟨t, ht, rfl, hc⟩
    by_cases heq : t.attemptId = input.attemptId
    · exact heq ▸ hown
    · exact ⟨t, (hother t heq).2 ht, rfl, hc⟩
  refine ⟨hends.artifactsKeyed hb.artifacts, hkeyed, ?_, ?_, ?_, ?_, ?_⟩
  · intro d hd id hs
    have hd : d.asRouted ∈ db.deliveries.map Delivery.asRouted ++ w.deliveries :=
      hends.deliveries ▸ List.mem_map_of_mem hd
    rw [hends.events]
    rcases List.mem_append.1 hd with hd | hd
    · obtain ⟨d₀, hd₀, heq⟩ := List.mem_map.1 hd
      have hsource : d₀.source = d.source := (Delivery.of_asRouted_eq heq).2.2
      obtain ⟨e, he, heid⟩ := hb.sourced d₀ hd₀ id (hsource.trans hs)
      exact ⟨e, List.mem_append_left _ he, heid⟩
    · obtain ⟨e, he, hse⟩ := hends.newDeliveries _ hd
      have hse : d.source = .event e.id := hse
      exact ⟨e, List.mem_append_right _ he, DeliverySource.event.inj (hse.symm.trans hs)⟩
  · rw [hends.outputs]
    exact List.forall_mem_append.2
      ⟨fun o ho => hkeep (hb.outputs o ho), fun o ho => houtputs o ho ▸ hown⟩
  · rw [hends.events]
    refine List.forall_mem_append.2
      ⟨fun e he a ha => hkeep (hb.events e he a ha), fun e he a ha => ?_⟩
    obtain rfl := Option.some.inj ((hevents e he).symm.trans ha)
    exact hown
  · rw [hends.actions]
    exact List.forall_mem_append.2
      ⟨fun a ha => hkeep (hb.actions a ha), fun a ha => (hactions a ha).1 ▸ hown⟩
  · rw [hends.ledger]
    exact List.forall_mem_append.2
      ⟨fun r hr a ha => hkeep (hb.ledger r hr a ha), fun r hr a ha => by
        simp only [ResourceLedgerEntry.isOf, hledger r hr, Bool.and_eq_true, decide_eq_true_eq,
          Option.some.injEq] at ha
        exact ha.1 ▸ hown⟩

end FactoryFloor
