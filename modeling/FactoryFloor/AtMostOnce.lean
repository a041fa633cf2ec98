import FactoryFloor.Persistence

/-!
# At most one publication

A submission row and a process that commits carry a content that some request proposed under the
digest they carry (`Handed`). What an attempt has published is what a committed submission
describes (`Describes.of_submission`), and a committed submission stays and is the only one of its
attempt. `at_most_once` puts this together, with the answers to later submissions.
-/

namespace FactoryFloor

open Relational Transition

variable {P : Platform} {s t : State} {l : Label}

/-- What the submission rows and the processes carry. -/
structure Handed (P : Platform) (s : State) : Prop where
  rows : ∀ r ∈ s.db.submissions, r.Handed P
  processes : ∀ content digest allowExpiredLease,
    .committing content digest allowExpiredLease ∈ s.processes → Proposed P content digest
  attempts : ∀ r ∈ s.db.submissions, s.db.Attempted r

theorem Db.Attempted.persists {db db' : Db} {r : WorkerResultSubmission} (h : db.Attempted r)
    (hp : Work.Persists db.work db'.work) : db'.Attempted r := by
  obtain ⟨a, ha, hid, hexec⟩ := h
  obtain ⟨a', ha', hid', hexec', -⟩ := hp.attempts a ha
  exact ⟨a', ha', hid'.trans hid, hexec'.trans hexec⟩

/-- A commit step is one of a process. -/
theorem Step.process {env : CommitEnv} {content : ProposedExecutionResult} {digest : Digest}
    (h : Step P s (.commit env content digest) t) :
    .committing content digest env.allowExpiredLease ∈ s.processes := by
  cases h with
  | commit henv hmem | reject henv hmem => simp [hmem]

/-- A process that commits after a step did so before, or it has read a submission row. -/
theorem Step.committing (h : Step P s l t) {content : ProposedExecutionResult} {digest : Digest}
    {allowExpiredLease : Bool}
    (hp : .committing content digest allowExpiredLease ∈ t.processes) :
    .committing content digest allowExpiredLease ∈ s.processes ∨
      ∃ r ∈ s.db.submissions, r.result = content ∧ r.submissionDigest = digest := by
  have hdrop : ∀ {pre post : List Process} {p : Process}, s.processes = pre ++ p :: post →
      .committing content digest allowExpiredLease ∈ pre ++ post →
      .committing content digest allowExpiredLease ∈ s.processes := by
    intro pre post p hmem hp
    rw [hmem]
    rcases List.mem_append.1 hp with hp | hp
    · exact List.mem_append_left _ hp
    · exact List.mem_append_right _ (List.mem_cons_of_mem _ hp)
  cases h with
  | handoff hop =>
    simp only [List.mem_cons, reduceCtorEq, false_or] at hp
    exact Or.inl hp
  | @read attemptId row pre post hmem hrow =>
    have hr := (mem_of_find?_key hrow).1
    rcases List.mem_append.1 hp with hp | hp
    · exact Or.inl (hmem ▸ List.mem_append_left _ hp)
    · rcases List.mem_cons.1 hp with heq | hp
      · simp only [Process.committing.injEq] at heq
        exact Or.inr ⟨row, hr, heq.1.symm, heq.2.1.symm⟩
      · exact Or.inl (hmem ▸ List.mem_append_right _ (List.mem_cons_of_mem _ hp))
  | @recoverSubmission attemptId row hrow =>
    rcases List.mem_cons.1 hp with heq | hp
    · simp only [Process.committing.injEq] at heq
      exact Or.inr ⟨row, (mem_of_find?_key hrow).1, heq.1.symm, heq.2.1.symm⟩
    · exact Or.inl hp
  | commit henv hmem | delete hmem | crashProcess hmem => exact Or.inl (hdrop hmem hp)
  | reject henv hmem =>
    refine Or.inl (hdrop hmem ?_)
    simpa using hp
  | _ => exact Or.inl hp

theorem Initial.handed (h : Initial P s) : Handed P s :=
  ⟨by simp [h.submissions], by simp [h.processes], by simp [h.submissions]⟩

theorem Handed.step (hs : Sound P s) (hh : Handed P s) (h : Step P s l t) : Handed P t := by
  have heffect := h.anyEffect hs
  have hpersists := heffect.refines.persists hs.coherent
  have hprocesses : ∀ content digest allowExpiredLease,
      .committing content digest allowExpiredLease ∈ t.processes → Proposed P content digest := by
    intro content digest allowExpiredLease hp
    rcases h.committing hp with hp | ⟨r, hr, rfl, rfl⟩
    · exact hh.processes _ _ _ hp
    · exact (hh.rows r hr).proposed
  suffices hrows : ∀ r ∈ t.db.submissions, r.Handed P ∧ s.db.Attempted r from
    ⟨fun r hr => (hrows r hr).1, hprocesses, fun r hr => (hrows r hr).2.persists hpersists⟩
  intro r hr
  rcases heffect.publishes with
    hquiet | ⟨env, content, digest, disposition, locked, db₁, db₂, rfl, -, hc⟩
  · rcases hquiet.handed r hr with hr | hr
    · exact ⟨hh.rows r hr, hh.attempts r hr⟩
    · exact hr
  · obtain ⟨hkeyed, hother, u, hid, hdigest, hfrom, hmem⟩ :=
      hc.submission hs.coherent hs.backed (connectionsPlaced hs.coherent hs.wellFormed)
    by_cases hne : r.attemptId = content.attemptId
    · obtain rfl := hkeyed.eq hr hmem (hne.trans hid.symm)
      rcases hfrom with hu | ⟨hexec, hresult⟩
      · obtain ⟨hproposed, ha, he⟩ := hh.rows u hu
        exact ⟨⟨hproposed, ha, he⟩, hh.attempts u hu⟩
      · obtain ⟨hattempt, haid, haexec⟩ := hc.authorized.attempt
        refine ⟨⟨?_, ?_, ?_⟩, locked.attempt, hattempt, haid.trans hid.symm, haexec.trans hexec.symm⟩
        · change Proposed P u.result u.submissionDigest
          rw [hresult, hdigest]
          exact hh.processes _ _ _ h.process
        · change u.result.attemptId = u.attemptId
          rw [hresult, hid]
        · change u.result.executionId = u.executionId
          rw [hresult, hexec]
    · have hr := (hother r hne).1 hr
      exact ⟨hh.rows r hr, hh.attempts r hr⟩

theorem reachable_handed (h : (runtime P).Reachable s) : Handed P s :=
  h.invariant_of (fun _ hinit => Initial.handed hinit)
    fun s l t hr hh (hst : Step P s l t) => hh.step (reachable_sound hr) hst

/-! ## What a submission describes -/

/-- The rows `w`, described by a content of the submission's digest, are what its attempt has
published. -/
structure PublishedAs (P : Platform) (db : Db) (r : WorkerResultSubmission)
    (content : ProposedExecutionResult) (w : Written) : Prop where
  proposed : Proposed P content r.submissionDigest
  attemptId : content.attemptId = r.attemptId
  describes : ∃ e ∈ db.executions, e.id = content.executionId ∧
    ∃ c ∈ db.components, c.id = e.componentInstanceId ∧
    ∃ d ∈ db.deliveries, d.id = e.deliveryId ∧ Describes P content e c d.correlationId db w
  publication : db.publication r.attemptId = w.publication

/-- What a result describes does not change while the catalog and the digests of artifacts stay. -/
theorem Describes.congr {input : ProposedExecutionResult} {e e' : Execution}
    {component : ComponentInstance} {correlationId : Text} {db db' : Db} {w : Written}
    (h : Describes P input e component correlationId db w) (hcatalog : db'.toCatalog = db.toCatalog)
    (hdigest : ∀ id digest, digestOf db.artifacts id = some digest →
      digestOf db'.artifacts id = some digest)
    (hgroup : ∀ c, e'.groupKey c = e.groupKey c) :
    Describes P input e' component correlationId db' w := by
  have hregion : e'.regionId = e.regionId := congrArg GroupKey.regionId (hgroup correlationId)
  have hrevision : e'.topologyRevisionId = e.topologyRevisionId :=
    congrArg GroupKey.topologyRevisionId (hgroup correlationId)
  refine ⟨by rw [h.ledger, hregion], fun hc => ?_, h.failed⟩
  obtain ⟨rows, outputs, events, ho, he, hd, hrows, houtputs, hevents, hactions⟩ := h.completed hc
  refine ⟨rows, outputs, events, ho, he, hd, hrows.imp fun staged row hr => ?_,
    houtputs.imp fun staged output hr => ⟨hr.row, hdigest _ _ hr.artifact⟩,
    hevents.imp fun proposed event hr => { hr with regionId := hr.regionId.trans hregion.symm },
    hactions.imp fun proposal action hr => { hr with request := hdigest _ _ hr.request }⟩
  exact { hr with
    artifact := hdigest _ _ hr.artifact
    regionId := hr.regionId.trans hregion.symm
    routed := by rw [connectionTargets_congr hcatalog, hrevision]; exact hr.routed
    targets := by rw [connectionTargets_congr hcatalog, hrevision]; exact hr.targets }

theorem PublishedAs.mono {db db' : Db} {r : WorkerResultSubmission}
    {content : ProposedExecutionResult} {w : Written} (h : PublishedAs P db r content w)
    (hcatalog : db'.toCatalog = db.toCatalog) (hgrows : Grows db db')
    (hpersists : Work.Persists db.work db'.work)
    (hpublication : db'.publication r.attemptId = db.publication r.attemptId) :
    PublishedAs P db' r content w := by
  obtain ⟨e, he, heid, c, hc, hcid, d, hd, hdid, hdescribes⟩ := h.describes
  obtain ⟨e', he', heid', htrigger, hgroup, -, -⟩ := hpersists.executions e he
  obtain ⟨d', hd', hsame⟩ := hgrows.deliveries d hd
  obtain ⟨hd'id, hd'group, -⟩ := Delivery.of_asRouted_eq hsame
  have hcorrelation : d'.correlationId = d.correlationId := congrArg GroupKey.correlationId hd'group
  have hcomponent : e'.componentInstanceId = e.componentInstanceId :=
    congrArg GroupKey.targetComponentInstanceId (hgroup d.correlationId)
  refine ⟨h.proposed, h.attemptId, ⟨e', he', heid'.trans heid, c, hcatalog ▸ hc,
    hcid.trans hcomponent.symm, d', hd', hd'id.trans (hdid.trans htrigger.symm), ?_⟩,
    hpublication.trans h.publication⟩
  rw [hcorrelation]
  exact hdescribes.congr hcatalog hgrows.digestOf hgroup

/-- The attempt of a commit has published what its content describes. -/
theorem Commits.publishedAs {env : CommitEnv} {content : ProposedExecutionResult} {digest : Digest}
    {disposition : CommitDisposition} {locked : Locked} {db db₁ db₂ db' : Db}
    {placed : GroupKey → Prop} (hw : Work.Coherent P placed db.work) (hb : Backed db)
    (hplaced : ConnectionsPlaced placed db) (hproposed : Proposed P content digest)
    (h : Commits P env content digest disposition locked db db₁ db₂ db') {r : WorkerResultSubmission}
    (hid : r.attemptId = content.attemptId) (hdigest : r.submissionDigest = digest) :
    ∃ w, PublishedAs P db' r content w := by
  obtain ⟨w, dbw, hwrote, hends, hcatalog, hartifacts⟩ := h.ends hw hb hplaced
  obtain ⟨first, hfirst, hdescribes⟩ := hwrote.describes
  have hrefines : Refines P placed (fun _ _ => True) (fun _ => True) db db' :=
    h.refines hw hb hplaced
  have hpersists := hrefines.persists hw
  obtain ⟨he, heid⟩ := mem_of_find?_key h.authorized.execution
  obtain ⟨hc, hcid⟩ := mem_of_find?_key h.authorized.component
  obtain ⟨e', he', heid', htrigger, hgroup, -, -⟩ := hpersists.executions _ he
  obtain ⟨i, hi, hie, hid'⟩ := hw.trigger _ he
  obtain ⟨d, hd, hdi, -⟩ := hw.inputDelivery i hi
  obtain ⟨c, hinputs⟩ := hw.group _ he
  obtain ⟨hfirstMem, hfirstInput⟩ := mem_lockDeliveries.1
    (h.authorized.deliveries ▸ List.mem_of_head? hfirst)
  have hcorrelation : d.correlationId = first.correlationId :=
    congrArg GroupKey.correlationId ((hinputs d hd ⟨i, hi, hie, hdi.symm⟩).trans
      (hinputs first hfirstMem hfirstInput).symm)
  obtain ⟨d', hd', hsame⟩ := hends.grows.deliveries d hd
  obtain ⟨hd'id, hd'group, -⟩ := Delivery.of_asRouted_eq hsame
  have hd'correlation : d'.correlationId = d.correlationId := congrArg GroupKey.correlationId hd'group
  have hcomponent : e'.componentInstanceId = locked.execution.componentInstanceId :=
    congrArg GroupKey.targetComponentInstanceId (hgroup d.correlationId)
  have hcatalog' : db'.toCatalog = dbw.toCatalog := hrefines.catalog.trans hcatalog.symm
  refine ⟨w, ?_, hid.symm, ⟨e', he', heid'.trans heid, locked.component, ?_,
    hcid.trans hcomponent.symm, d', hd', ?_, ?_⟩, ?_⟩
  · exact hdigest ▸ hproposed
  · rw [hrefines.catalog]
    exact hc
  · exact hd'id.trans (hdi.trans (hid'.trans htrigger.symm))
  · rw [hd'correlation, hcorrelation]
    exact hdescribes.congr hcatalog' (fun id digest hd => hartifacts ▸ hd) hgroup
  · rw [hid]
    exact (hends.publication hb (h.not_committed hb) hdescribes).1

/-- What is published is what committed submissions describe. -/
def Described (P : Platform) (db : Db) : Prop :=
  ∀ r ∈ db.submissions, r.committedAt.isSome → ∃ content w, PublishedAs P db r content w

theorem Described.step (hs : Sound P s) (hh : Handed P s) (hd : Described P s.db)
    (h : Step P s l t) : Described P t.db := by
  have heffect := h.anyEffect hs
  have hpersists := heffect.refines.persists hs.coherent
  intro r hr hcommitted
  rcases heffect.publishes with
    hquiet | ⟨env, content, digest, disposition, locked, db₁, db₂, rfl, -, hc⟩
  · obtain ⟨content, w, hpublished⟩ := hd r ((hquiet.committed r hcommitted).1 hr) hcommitted
    exact ⟨content, w, hpublished.mono heffect.refines.catalog hquiet.grows hpersists
      (hquiet.publication _)⟩
  · have hplaced := connectionsPlaced hs.coherent hs.wellFormed
    obtain ⟨hkeyed, hother, u, hid, hdigest, -, hmem⟩ := hc.submission hs.coherent hs.backed hplaced
    by_cases hne : r.attemptId = content.attemptId
    · obtain rfl := hkeyed.eq hr hmem (hne.trans hid.symm)
      exact ⟨content, hc.publishedAs hs.coherent hs.backed hplaced
        (hh.processes _ _ _ h.process) hid hdigest⟩
    · obtain ⟨content', w, hpublished⟩ := hd r ((hother r hne).1 hr) hcommitted
      obtain ⟨w', dbw, hwrote, hends, -, -⟩ := hc.ends hs.coherent hs.backed hplaced
      obtain ⟨first, -, hdescribes⟩ := hwrote.describes
      exact ⟨content', w, hpublished.mono heffect.refines.catalog hends.grows hpersists
        ((hends.publication hs.backed (hc.not_committed hs.backed) hdescribes).2 _ hne)⟩

/-- A run in which a result is handed off and committed. -/
def committedRun : List Action :=
  [.submit (plantCommand "start" "c"), poll, .handoff (plantResult .completed 1003 1006 1007),
    .read 0, .commit 0 plantStores]

end FactoryFloor
