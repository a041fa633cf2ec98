import FactoryFloor.AtMostOnce
import FactoryFloor.WorkerRunner

/-!
# A fleet never contradicts itself

`fleet_safe` is about every reachable state of a fleet. The runtime is in one of its own reachable
states, so what holds of these holds beside workers. No two tasks have the same attempt, and no
runner has more active tasks than its concurrency. Every submission the runtime has is the result of
the one task of its attempt, under the identity of its envelope. So a task that submits again, or
whose request arrives late, is answered as a duplicate and never refused as a conflict. A task goes
on to submit only after the runtime has said of its attempt that it may continue.

The invariant (`FleetSound`) keeps for each task what it has submitted. `Step.submissionRow` says
where a submission row comes from, in every step of the runtime.
-/

namespace FactoryFloor

open Relational Transition

variable {P : Platform} {nameOf : Uuid → String}

/-! ## Where submissions come from -/

section Rows

variable {s t : State} {l : Label}

/-- A submission row was there, or is handed off or recorded by a commit. -/
def RowOf (P : Platform) (s : State) (l : Label) (row : WorkerResultSubmission) : Prop :=
  (∃ old ∈ s.db.submissions, old.attemptId = row.attemptId ∧ old.result = row.result ∧
    old.submissionDigest = row.submissionDigest) ∨
  (∃ input, l = .handoff input ∧ commitInput input = .ok row.result ∧
    row.submissionDigest = submissionDigestOf P input ∧ row.attemptId = row.result.attemptId) ∨
  ∃ env, l = .commit env row.result row.submissionDigest ∧ row.attemptId = row.result.attemptId

theorem RowOf.of_mem {row : WorkerResultSubmission} (h : row ∈ s.db.submissions) :
    RowOf P s l row :=
  Or.inl ⟨row, h, rfl, rfl, rfl⟩

theorem RowOf.of_schedules {allow : Work → List Delivery → Prop} {late : Time → Prop} {db : Db}
    (h : Schedules P allow late s.db db) {row : WorkerResultSubmission}
    (hr : row ∈ db.submissions) : RowOf P s l row :=
  .of_mem (congrArg Publications.submissions h.publications ▸ hr)

theorem Step.submissionRow (hs : Sound P s) (h : Step P s l t) :
    ∀ row ∈ t.db.submissions, RowOf P s l row := by
  have hw := hs.coherent
  intro row hr
  cases h with
  | tick | envelope | uploadBlob | read | recoverSubmission | reject | crashProcess | crashPass
  | scanExpired | requestCancellation => exact .of_mem hr
  | delete => exact .of_mem (List.mem_filter.1 hr).1
  | submit hop =>
    rcases submit_eq_ok hop with rfl | ⟨command, event, streams, new, n, -, -, -, rfl, -⟩ <;>
      exact .of_mem hr
  | @lease options acquired leased db hop =>
    have hschedules : Schedules P (fun _ _ => True) (fun _ => True) s.db db :=
      leaseNextAttempt_schedules hw (fun _ _ => trivial) (fun _ _ _ _ _ => trivial) hop
    exact .of_schedules hschedules hr
  | @heartbeat leaseDurationMs input reply db hduration hop =>
    have hschedules : Schedules P (fun _ _ => True) (fun _ => True) s.db db :=
      heartbeat_schedules hw trivial hop
    exact .of_schedules hschedules hr
  | stage hop =>
    obtain ⟨attempt, -, hop⟩ := Except.bind_eq_ok.1 hop
    obtain ⟨active, -, hop⟩ := Except.bind_eq_ok.1 hop
    split at hop
    · cases hop
    · obtain ⟨uploads, -, hop⟩ := Except.bind_eq_ok.1 hop
      obtain ⟨-, rfl⟩ := Prod.mk.inj (Except.ok.inj hop)
      exact .of_mem hr
  | recordUpload hblob hop =>
    obtain ⟨attempt, -, hop⟩ := Except.bind_eq_ok.1 hop
    obtain ⟨active, -, hop⟩ := Except.bind_eq_ok.1 hop
    split at hop
    · cases hop
    · obtain ⟨staging, -, hop⟩ := Except.bind_eq_ok.1 hop
      obtain ⟨staged, -, hop⟩ := Except.bind_eq_ok.1 hop
      obtain ⟨_, -, hop⟩ := Except.bind_eq_ok.1 hop
      obtain ⟨uploads, -, hop⟩ := Except.bind_eq_ok.1 hop
      obtain rfl := Except.ok.inj hop
      exact .of_mem hr
  | @handoff input duplicate db hop =>
    obtain ⟨result, hresult, ⟨-, rfl, -⟩ | ⟨-, -, -, rfl⟩⟩ := handoff_eq_ok hop
    · exact .of_mem hr
    · rcases List.mem_append.1 hr with hr | hr
      · exact .of_mem hr
      · rw [List.mem_singleton.1 hr]
        exact Or.inr (Or.inl ⟨input, rfl, hresult, rfl, rfl⟩)
  | @commit env content digest disposition db pre post henv hmem hop =>
    rcases commitTx_eq_ok hop with ⟨-, rfl, -⟩ | ⟨locked, db₁, db₂, hc⟩
    · exact .of_mem hr
    · obtain ⟨hkeyed, hother, u, hid, hdigest, hfrom, hu⟩ :=
        hc.submission hw hs.backed (connectionsPlaced hw hs.wellFormed)
      by_cases hne : row.attemptId = content.attemptId
      · obtain rfl := hkeyed.eq hr hu (hne.trans hid.symm)
        rcases hfrom with hu | ⟨-, hresult⟩
        · exact Or.inl ⟨u, hu, rfl, rfl, rfl⟩
        · refine Or.inr (Or.inr ⟨env, ?_, hid.trans (congrArg _ hresult.symm)⟩)
          change Label.commit env content digest = .commit env u.result u.submissionDigest
          rw [hresult, hdigest]
      · exact .of_mem ((hother row hne).1 hr)
  | @recoverExpired now attemptId remaining recovered db pre post hmem hop =>
    have hschedules : Schedules P (fun _ _ => True) (fun _ => True) s.db db :=
      recoverExpired_schedules hw hop
    exact .of_schedules hschedules hr
  | releaseOrphans hmem hop =>
    obtain ⟨deliveries, -, hop⟩ := Except.bind_eq_ok.1 hop
    obtain rfl := Except.ok.inj hop
    exact .of_mem hr
  | @settle now regionId db hop =>
    have hschedules : Schedules P (fun _ _ => True) (fun _ => True) s.db db :=
      settleCancelling_schedules hw hop
    exact .of_schedules hschedules hr
  | @cancelRun context runId input receipt db hop =>
    rcases cancelRun_eq_ok (fun _ _ => True) (fun _ => True) hw hop with
      rfl | ⟨commands, streams, event, -, hschedules⟩
    · exact .of_mem hr
    · have hsame := congrArg Publications.submissions hschedules.publications
      have hmem : row ∈ db.submissions := hr
      rw [hsame] at hmem
      exact .of_mem hmem
  | @maintain write db hop =>
    cases write with
    | promote | abandonStaging | tombstone | moveAction =>
      obtain ⟨rows, -, hop⟩ := Except.bind_eq_ok.1 hop
      obtain rfl := Except.ok.inj hop
      exact .of_mem hr

end Rows

/-! ## Tasks -/

/-- The result is under the identity of the envelope. -/
def Names (envelope : Envelope) (result : ProposedResultInput) : Prop :=
  result.executionId = envelope.executionId ∧ result.attemptId = envelope.attemptId ∧
    result.leaseToken = envelope.leaseToken ∧
    result.lifecycleEpoch = some (envelope.lifecycleEpoch : ℤ)

/-- The runtime has said of the attempt that it may continue. -/
def Seen (P : Platform) (server : State) (envelope : Envelope) : Prop :=
  ∃ u, (runtime P).Reachable u ∧ (runtime P).Later u server ∧
    cancellation u.now (leaseBody envelope) u.db = .ok .continues

theorem Seen.later {s t : State} {envelope : Envelope} (h : Seen P s envelope)
    (hst : (runtime P).Later s t) : Seen P t envelope := by
  obtain ⟨u, hu, hus, hcontinue⟩ := h
  exact ⟨u, hu, hus.trans hst, hcontinue⟩

/-- The invariant of a task. -/
structure TaskSound (P : Platform) (server : State) (t : Task) : Prop where
  running : t.phase = .running → t.submitted = none
  observing : ∀ result call, t.phase = .observing result call →
    t.submitted = none ∧ Names t.envelope result
  heard : ∀ result k, t.phase = .observing result (.heard k (.ok .continues)) →
    Seen P server t.envelope
  submitting : ∀ result call, t.phase = .submitting result call → t.submitted = some result
  submitted : ∀ result, t.submitted = some result →
    Names t.envelope result ∧ Seen P server t.envelope

/-- What becomes of a task. -/
structure Task.Evolves (t t' : Task) : Prop where
  envelope : t'.envelope = t.envelope
  runner : t'.runner = t.runner
  submitted : ∀ result, t.submitted = some result → t'.submitted = some result
  active : t'.active = true → t.active = true

theorem TaskSound.later {s s' : State} {t : Task} (h : TaskSound P s t)
    (hst : (runtime P).Later s s') : TaskSound P s' t :=
  ⟨h.running, h.observing, fun result k hphase => (h.heard result k hphase).later hst, h.submitting,
    fun result hresult =>
      ⟨(h.submitted result hresult).1, (h.submitted result hresult).2.later hst⟩⟩

theorem taskSound_start (server : State) (runner : ℕ) (envelope : Envelope) :
    TaskSound P server (Task.start runner envelope) :=
  ⟨fun _ => rfl, fun _ _ h => (by cases h), fun _ _ h => (by cases h), fun _ _ h => (by cases h),
    fun _ h => (by cases h)⟩

namespace TaskSound

variable {server : State} {t : Task}

/-- A task that ends, or only beats. -/
theorem of_phase (h : TaskSound P server t) {t' : Task} (henvelope : t'.envelope = t.envelope)
    (hsubmitted : t'.submitted = t.submitted) (hphase : t'.phase = t.phase ∨ t'.phase = .ended) :
    TaskSound P server t' := by
  obtain ⟨runner, envelope, aborted, phase, beat, submitted⟩ := t'
  subst henvelope hsubmitted
  rcases hphase with rfl | rfl
  · exact ⟨h.running, h.observing, h.heard, h.submitting, h.submitted⟩
  · exact ⟨fun h => (by cases h), fun _ _ h => (by cases h), fun _ _ h => (by cases h),
      fun _ _ h => (by cases h), h.submitted⟩

/-- A task that observes. -/
theorem of_observing (hsubmitted : t.submitted = none) {result : ProposedResultInput}
    (hnames : Names t.envelope result) {call : Exchange CancellationState}
    (hheard : ∀ k, call = .heard k (.ok .continues) → Seen P server t.envelope) :
    TaskSound P server { t with phase := .observing result call } := by
  refine ⟨fun h => (by cases h), fun _ _ h => ?_, fun _ k h => ?_, fun _ _ h => (by cases h),
    fun _ h => absurd (hsubmitted.symm.trans h) (by simp)⟩
  · obtain ⟨rfl, -⟩ := TaskPhase.observing.inj h
    exact ⟨hsubmitted, hnames⟩
  · obtain ⟨-, hcall⟩ := TaskPhase.observing.inj h
    exact hheard k hcall

/-- A task that submits. -/
theorem of_submitting {result : ProposedResultInput} (hnames : Names t.envelope result)
    (hseen : Seen P server t.envelope) (call : Exchange SubmitReply) :
    TaskSound P server { t with phase := .submitting result call, submitted := some result } := by
  refine ⟨fun h => (by cases h), fun _ _ h => (by cases h), fun _ _ h => (by cases h),
    fun _ _ h => ?_, fun _ h => ?_⟩
  · obtain ⟨rfl, -⟩ := TaskPhase.submitting.inj h
    rfl
  · obtain rfl := Option.some.inj h
    exact ⟨hnames, hseen⟩

/-- A task that goes on with its submission. -/
theorem resubmitting (h : TaskSound P server t) {result : ProposedResultInput}
    {call : Exchange SubmitReply} (hphase : t.phase = .submitting result call)
    (call' : Exchange SubmitReply) :
    TaskSound P server { t with phase := .submitting result call' } := by
  have hsubmitted := h.submitting _ _ hphase
  obtain ⟨hnames, hseen⟩ := h.submitted result hsubmitted
  have hsame : { t with phase := .submitting result call' } =
      { t with phase := .submitting result call', submitted := some result } := by
    rw [← hsubmitted]
  rw [hsame]
  exact of_submitting hnames hseen call'

end TaskSound

theorem names_normalized (envelope : Envelope) (result : ProposedResultInput) :
    Names envelope (normalizeResultIdentity envelope result) :=
  ⟨rfl, rfl, rfl, rfl⟩

theorem names_failure (envelope : Envelope) :
    Names envelope (componentFailureResult nameOf envelope) :=
  ⟨rfl, rfl, rfl, rfl⟩

theorem Task.active_of_phase {t : Task} (h : t.phase ≠ .ended) : t.active = true := by
  unfold Task.active
  split
  · rename_i hended _
    exact absurd hended h
  · rfl

theorem Task.active_of_beat {t : Task} (h : t.beat ≠ .ended) : t.active = true := by
  unfold Task.active
  split
  · rename_i _ hended
    exact absurd hended h
  · rfl

/-- A task whose phase goes on. -/
theorem Task.Evolves.of_phase {t t' : Task} (hphase : t.phase ≠ .ended)
    (henvelope : t'.envelope = t.envelope) (hrunner : t'.runner = t.runner)
    (hsubmitted : t.submitted = none ∨ t'.submitted = t.submitted) : t.Evolves t' := by
  refine ⟨henvelope, hrunner, fun result hresult => ?_, fun _ => Task.active_of_phase hphase⟩
  rcases hsubmitted with hnone | hsame
  · rw [hnone] at hresult
    cases hresult
  · rw [hsame, hresult]

theorem Task.Evolves.of_beat {t t' : Task} (hbeat : t.beat ≠ .ended)
    (henvelope : t'.envelope = t.envelope) (hrunner : t'.runner = t.runner)
    (hsubmitted : t'.submitted = t.submitted) : t.Evolves t' :=
  ⟨henvelope, hrunner, fun _ hresult => hsubmitted.trans hresult,
    fun _ => Task.active_of_beat hbeat⟩

theorem Task.Evolves.of_active {t t' : Task} (henvelope : t'.envelope = t.envelope)
    (hrunner : t'.runner = t.runner) (hsubmitted : t'.submitted = t.submitted)
    (hactive : t'.active = true → t.active = true) : t.Evolves t' :=
  ⟨henvelope, hrunner, fun _ hresult => hsubmitted.trans hresult, hactive⟩

/-- What a task leaves under way it has submitted. -/
theorem TaskSound.underWay {server : State} {t : Task} (h : TaskSound P server t) :
    ∀ result ∈ t.underWay, t.submitted = some result := by
  intro result hmem
  unfold Task.underWay at hmem
  split at hmem
  · rename_i hphase
    rw [List.mem_singleton.1 hmem]
    exact h.submitting _ _ hphase
  · cases hmem

/-- A task keeps its invariant, and what it has submitted. -/
theorem TaskSound.step {server : State} {registered : Bool} {t t' : Task}
    {left : List ProposedResultInput} (h : TaskSound P server t)
    (hs : TaskStep nameOf registered t t' left) :
    TaskSound P server t' ∧ t.Evolves t' ∧ ∀ result ∈ left, t.submitted = some result := by
  cases hs with
  | unregistered hphase =>
    exact ⟨h.of_phase rfl rfl (Or.inr rfl), .of_phase (by simp [hphase]) rfl rfl (Or.inr rfl),
      by simp⟩
  | component outcome hphase =>
    have hne : t.phase ≠ .ended := by simp [hphase]
    unfold Task.afterComponent
    split
    · exact ⟨h.of_phase rfl rfl (Or.inr rfl), .of_phase hne rfl rfl (Or.inr rfl), by simp⟩
    · refine ⟨.of_observing (h.running hphase) ?_ fun _ hcall => (by cases hcall),
        .of_phase hne rfl rfl (Or.inr rfl), by simp⟩
      cases outcome with
      | none => exact names_failure _
      | some result => exact names_normalized _ _
  | abort =>
    exact ⟨h.of_phase rfl rfl (Or.inl rfl), .of_active rfl rfl rfl id, by simp⟩
  | ask hphase | unanswered hphase =>
    obtain ⟨hnone, hnames⟩ := h.observing _ _ hphase
    exact ⟨.of_observing hnone hnames fun _ hcall => (by cases hcall),
      .of_phase (by simp [hphase]) rfl rfl (Or.inr rfl), by simp⟩
  | @observed result call verdict hphase hverdict =>
    obtain ⟨hnone, hnames⟩ := h.observing _ _ hphase
    have hne : t.phase ≠ .ended := by simp [hphase]
    have hfinish : TaskSound P server t.finish ∧ t.Evolves t.finish ∧
        ∀ result ∈ ([] : List ProposedResultInput), t.submitted = some result :=
      ⟨h.of_phase rfl rfl (Or.inr rfl), .of_phase hne rfl rfl (Or.inr rfl), by simp⟩
    cases verdict with
    | again attempt =>
      exact ⟨.of_observing hnone hnames fun _ hcall => (by cases hcall),
        .of_phase hne rfl rfl (Or.inr rfl), by simp⟩
    | threw => exact hfinish
    | returned state =>
      cases state with
      | attemptTerminal | leaseNoLongerValid | cancellationRequested => exact hfinish
      | continues =>
        -- Only an answer that was heard returns.
        obtain ⟨k, rfl⟩ : ∃ k, call = .heard k (.ok .continues) := by
          cases call with
          | ready k | sent k =>
            simp only [Exchange.verdict, Option.ite_none_right_eq_some] at hverdict
            exact absurd hverdict.2 (by simp)
          | heard k answer =>
            have hverdict := Option.some.inj hverdict
            cases answer with
            | ok state => exact ⟨k, by rw [RetryVerdict.returned.inj hverdict]⟩
            | error retryable =>
              simp only [withRetry] at hverdict
              split at hverdict <;> cases hverdict
        exact ⟨.of_submitting hnames (h.heard _ _ hphase) _, .of_phase hne rfl rfl
          (Or.inl hnone), by simp⟩
  | submit hphase =>
    exact ⟨h.resubmitting hphase _, .of_phase (by simp [hphase]) rfl rfl (Or.inr rfl), by simp⟩
  | lost hphase =>
    exact ⟨h.resubmitting hphase _, .of_phase (by simp [hphase]) rfl rfl (Or.inr rfl),
      h.underWay⟩
  | @submitted result call verdict hphase =>
    have hne : t.phase ≠ .ended := by simp [hphase]
    cases verdict with
    | again attempt =>
      exact ⟨h.resubmitting hphase _, .of_phase hne rfl rfl (Or.inr rfl), h.underWay⟩
    | threw | returned reply =>
      exact ⟨h.of_phase rfl rfl (Or.inr rfl), .of_phase hne rfl rfl (Or.inr rfl), h.underWay⟩
  | wake hbeat =>
    exact ⟨h.of_phase rfl rfl (Or.inl rfl), .of_beat (by simp [hbeat]) rfl rfl rfl, by simp⟩
  | pulse hbeat | missed hbeat =>
    exact ⟨h.of_phase rfl rfl (Or.inl rfl), .of_beat (by simp [hbeat]) rfl rfl rfl, by simp⟩
  | @beaten call verdict hbeat =>
    have hne : t.beat ≠ .ended := by simp [hbeat]
    cases verdict with
    | again attempt | threw =>
      exact ⟨h.of_phase rfl rfl (Or.inl rfl), .of_beat hne rfl rfl rfl, by simp⟩
    | returned reply =>
      unfold Task.afterHeartbeat
      dsimp only
      split
      · exact ⟨h.of_phase rfl rfl (Or.inl rfl), .of_beat hne rfl rfl rfl, by simp⟩
      · exact ⟨h.of_phase rfl rfl (Or.inl rfl), .of_beat hne rfl rfl rfl, by simp⟩
  | crash =>
    exact ⟨h.of_phase rfl rfl (Or.inr rfl), .of_active rfl rfl rfl fun hactive =>
      absurd hactive (by simp [Task.active, Task.finish]), h.underWay⟩

/-! ## Fleets -/

/-- A task of the attempt has submitted the content. -/
def Submits (P : Platform) (tasks : List Task) (attemptId : Uuid)
    (content : ProposedExecutionResult) (digest : Digest) : Prop :=
  ∃ t ∈ tasks, ∃ result, t.submitted = some result ∧ t.envelope.attemptId = attemptId ∧
    commitInput result = .ok content ∧ digest = submissionDigestOf P result

/-- What the runtime has of submissions was submitted by tasks. -/
structure SubmittedBy (P : Platform) (tasks : List Task) (s : State) : Prop where
  rows : ∀ row ∈ s.db.submissions,
    row.result.attemptId = row.attemptId ∧
      Submits P tasks row.attemptId row.result row.submissionDigest
  processes : ∀ content digest allowExpiredLease,
    .committing content digest allowExpiredLease ∈ s.processes →
      Submits P tasks content.attemptId content digest

/-- Every task is still there, and has evolved. -/
def Evolve (tasks tasks' : List Task) : Prop :=
  ∀ t ∈ tasks, ∃ t' ∈ tasks', t.Evolves t'

theorem Evolve.refl (tasks : List Task) : Evolve tasks tasks :=
  fun t ht => ⟨t, ht, rfl, rfl, fun _ h => h, id⟩

/-- One task takes a step. -/
theorem Evolve.of_one {pre post : List Task} {t t' : Task} (h : t.Evolves t') :
    Evolve (pre ++ t :: post) (pre ++ t' :: post) := by
  intro u hu
  rcases List.mem_append.1 hu with hu | hu
  · exact ⟨u, List.mem_append_left _ hu, rfl, rfl, fun _ h => h, id⟩
  · rcases List.mem_cons.1 hu with rfl | hu
    · exact ⟨t', by simp, h⟩
    · exact ⟨u, by simp [hu], rfl, rfl, fun _ h => h, id⟩

theorem Submits.evolve {tasks tasks' : List Task} {attemptId : Uuid}
    {content : ProposedExecutionResult} {digest : Digest}
    (h : Submits P tasks attemptId content digest) (he : Evolve tasks tasks') :
    Submits P tasks' attemptId content digest := by
  obtain ⟨t, ht, result, hresult, hid, hcontent, hdigest⟩ := h
  obtain ⟨t', ht', hevolves⟩ := he t ht
  exact ⟨t', ht', result, hevolves.submitted result hresult,
    (congrArg Envelope.attemptId hevolves.envelope).trans hid, hcontent, hdigest⟩

theorem SubmittedBy.evolve {tasks tasks' : List Task} {s : State} (h : SubmittedBy P tasks s)
    (he : Evolve tasks tasks') : SubmittedBy P tasks' s :=
  ⟨fun row hr => ⟨(h.rows row hr).1, (h.rows row hr).2.evolve he⟩,
    fun content digest allowExpiredLease hp =>
      (h.processes content digest allowExpiredLease hp).evolve he⟩

/-- A step of the runtime, whose hand-off is of a task's submission. -/
theorem SubmittedBy.step {tasks : List Task} {s t : State} {l : Label} (hsound : Sound P s)
    (h : SubmittedBy P tasks s) (hs : Step P s l t)
    (hhandoff : ∀ input, l = .handoff input → ∃ u ∈ tasks, u.submitted = some input ∧
      Names u.envelope input) : SubmittedBy P tasks t := by
  refine ⟨fun row hr => ?_, fun content digest allowExpiredLease hp => ?_⟩
  · rcases hs.submissionRow hsound row hr with ⟨old, hold, hid, hresult, hdigest⟩ |
      ⟨input, hl, hcontent, hdigest, hid⟩ | ⟨env, rfl, hid⟩
    · obtain ⟨hattempt, hsubmits⟩ := h.rows old hold
      rw [hid, hresult] at hattempt
      rw [hid, hresult, hdigest] at hsubmits
      exact ⟨hattempt, hsubmits⟩
    · obtain ⟨u, hu, hsubmitted, -, hattempt, -⟩ := hhandoff input hl
      refine ⟨hid.symm, u, hu, input, hsubmitted, ?_, hcontent, hdigest⟩
      rw [hid, (commitInput_attemptId hcontent).1, hattempt]
    · exact ⟨hid.symm, hid ▸ h.processes _ _ _ hs.process⟩
  · rcases hs.committing hp with hp | ⟨row, hr, rfl, rfl⟩
    · exact h.processes _ _ _ hp
    · obtain ⟨hattempt, hsubmits⟩ := h.rows row hr
      exact hattempt.symm ▸ hsubmits

/-- The invariant of a fleet. -/
structure FleetSound (P : Platform) (f : Fleet) : Prop where
  reachable : (runtime P).Reachable f.server
  envelopes : (f.tasks.map (·.envelope) ++ f.claims).Subperm f.server.envelopes
  tasks : ∀ t ∈ f.tasks, TaskSound P f.server t
  strays : ∀ result ∈ f.strays, ∃ t ∈ f.tasks, t.submitted = some result
  submissions : SubmittedBy P f.tasks f.server
  bounded : ∀ i r, f.runners[i]? = some r →
    f.load i + (if r.claiming then 1 else 0) ≤ r.concurrency

/-- Only an envelope that is built is a new one. -/
theorem Step.envelopes {s t : State} {l : Label} (h : Step P s l t)
    (hl : ∀ scheduled, l ≠ .envelope scheduled) : t.envelopes = s.envelopes := by
  cases h with
  | envelope => exact absurd rfl (hl _)
  | _ => rfl

theorem load_evolves {tasks : List Task} {t t' : Task} (h : t.Evolves t') (pre post : List Task)
    (htasks : tasks = pre ++ t :: post) (i : ℕ) :
    (pre ++ t' :: post).countP (fun u => u.runner = i && u.active) ≤
      tasks.countP (fun u => u.runner = i && u.active) := by
  subst htasks
  have hone : (decide (t'.runner = i) && t'.active) = true →
      (decide (t.runner = i) && t.active) = true := by
    rw [Bool.and_eq_true, Bool.and_eq_true, h.runner]
    exact fun hactive => ⟨hactive.1, h.active hactive.2⟩
  simp only [List.countP_append, List.countP_cons]
  split <;> split <;> first | omega | (rename_i h₁ h₂; exact absurd (hone h₁) h₂)

namespace FleetSound

variable {f f' : Fleet}

/-- The runtime takes a step that no worker asks for, or that a task has asked for. -/
theorem server (h : FleetSound P f) {l : Label} {server : State} (hs : Step P f.server l server)
    (henvelope : ∀ scheduled, l ≠ .envelope scheduled)
    (hhandoff : ∀ input, l = .handoff input → ∃ u ∈ f.tasks, u.submitted = some input) :
    FleetSound P { f with server } := by
  have hlater : (runtime P).Later f.server server := .next .refl hs
  refine ⟨h.reachable.next hs, ?_, fun t ht => (h.tasks t ht).later hlater, h.strays, ?_, h.bounded⟩
  · change List.Subperm _ server.envelopes
    rw [hs.envelopes henvelope]
    exact h.envelopes
  · refine h.submissions.step (reachable_sound h.reachable) hs fun input hl => ?_
    obtain ⟨u, hu, hsubmitted⟩ := hhandoff input hl
    exact ⟨u, hu, hsubmitted, ((h.tasks u hu).submitted input hsubmitted).1⟩

/-- A task takes a step, and the runtime stays as it is. -/
theorem task (h : FleetSound P f) {t t' : Task} (left : List ProposedResultInput)
    {pre post : List Task} (htasks : f.tasks = pre ++ t :: post)
    (hsound : TaskSound P f.server t') (hevolves : t.Evolves t')
    (hleft : ∀ result ∈ left, t.submitted = some result) :
    FleetSound P { f with tasks := pre ++ t' :: post, strays := left ++ f.strays } := by
  have hevolve : Evolve f.tasks (pre ++ t' :: post) := htasks ▸ .of_one hevolves
  refine ⟨h.reachable, ?_, fun u hu => ?_, fun result hresult => ?_,
    h.submissions.evolve hevolve, fun i r hr => ?_⟩
  · have hsame : (pre ++ t' :: post).map (·.envelope) = f.tasks.map (·.envelope) := by
      simp [htasks, hevolves.envelope]
    change List.Subperm ((pre ++ t' :: post).map (·.envelope) ++ f.claims) _
    rw [hsame]
    exact h.envelopes
  · rcases List.mem_append.1 hu with hu | hu
    · exact h.tasks u (htasks ▸ List.mem_append_left _ hu)
    · rcases List.mem_cons.1 hu with rfl | hu
      · exact hsound
      · exact h.tasks u (htasks ▸ List.mem_append_right _ (List.mem_cons_of_mem _ hu))
  · rcases List.mem_append.1 hresult with hresult | hresult
    · exact ⟨t', by simp, hevolves.submitted result (hleft result hresult)⟩
    · obtain ⟨u, hu, hsubmitted⟩ := h.strays result hresult
      obtain ⟨u', hu', hevolved⟩ := hevolve u hu
      exact ⟨u', hu', hevolved.submitted result hsubmitted⟩
  · have hload := load_evolves hevolves pre post htasks i
    have hbound := h.bounded i r hr
    simp only [Fleet.load] at hbound ⊢
    omega

/-- An envelope is built for a claim. -/
theorem claimed (h : FleetSound P f) {scheduled : LeasedExecutionAttempt} {envelope : Envelope}
    {server : State} (hs : Step P f.server (.envelope scheduled) server)
    (hnew : server.envelopes = envelope :: f.server.envelopes) :
    FleetSound P { f with server, claims := envelope :: f.claims } := by
  have hlater : (runtime P).Later f.server server := .next .refl hs
  refine ⟨h.reachable.next hs, ?_, fun t ht => (h.tasks t ht).later hlater, h.strays,
    h.submissions.step (reachable_sound h.reachable) hs fun _ hl => absurd hl (by simp), h.bounded⟩
  change List.Subperm (f.tasks.map (·.envelope) ++ envelope :: f.claims) server.envelopes
  rw [hnew]
  exact List.perm_middle.subperm.trans ((List.subperm_cons envelope).2 h.envelopes)

/-- A runner changes whether it waits, within its concurrency. -/
theorem waiting (h : FleetSound P f) {i : ℕ} {r : Runner} {claiming : Bool}
    (hroom : f.load i + (if claiming then 1 else 0) ≤ r.concurrency) :
    FleetSound P { f with runners := f.runners.set i { r with claiming } } := by
  refine ⟨h.reachable, h.envelopes, h.tasks, h.strays, h.submissions, fun j r' hr' => ?_⟩
  change (f.runners.set i { r with claiming })[j]? = some r' at hr'
  rw [List.getElem?_set] at hr'
  split at hr'
  · rename_i hij
    subst hij
    split at hr'
    · obtain rfl := Option.some.inj hr'
      exact hroom
    · cases hr'
  · exact h.bounded j r' hr'

/-- A runner receives an envelope, and starts its task. -/
theorem received (h : FleetSound P f) {i : ℕ} {r : Runner} {envelope : Envelope}
    {pre post : List Envelope} (hr : f.runners[i]? = some r) (hclaiming : r.claiming = true)
    (hclaims : f.claims = pre ++ envelope :: post) :
    FleetSound P
      { f with claims := pre ++ post,
               runners := f.runners.set i { r with claiming := false },
               tasks := Task.start i envelope :: f.tasks } := by
  have hevolve : Evolve f.tasks (Task.start i envelope :: f.tasks) := fun t ht =>
    ⟨t, List.mem_cons_of_mem _ ht, rfl, rfl, fun _ h => h, id⟩
  refine ⟨h.reachable, ?_, fun t ht => ?_, fun result hresult => ?_, h.submissions.evolve hevolve,
    fun j r' hr' => ?_⟩
  · have hperm : (envelope :: (f.tasks.map (·.envelope) ++ (pre ++ post))).Perm
        (f.tasks.map (·.envelope) ++ f.claims) := by
      rw [hclaims, ← List.append_assoc, ← List.append_assoc]
      exact List.perm_middle.symm
    exact hperm.subperm.trans h.envelopes
  · rcases List.mem_cons.1 ht with rfl | ht
    · exact taskSound_start _ _ _
    · exact h.tasks t ht
  · obtain ⟨t, ht, hsubmitted⟩ := h.strays result hresult
    exact ⟨t, List.mem_cons_of_mem _ ht, hsubmitted⟩
  · change (f.runners.set i { r with claiming := false })[j]? = some r' at hr'
    change (Task.start i envelope :: f.tasks).countP (fun t => t.runner = j && t.active) +
      (if r'.claiming then 1 else 0) ≤ r'.concurrency
    rw [List.countP_cons]
    rw [List.getElem?_set] at hr'
    split at hr'
    · rename_i hij
      subst hij
      split at hr'
      · obtain rfl := Option.some.inj hr'
        have hbound := h.bounded i r hr
        simp only [Fleet.load, hclaiming] at hbound
        simpa [Task.start, Task.active_of_phase] using hbound
      · cases hr'
    · rename_i hij
      have hbound := h.bounded j r' hr'
      simp only [Fleet.load] at hbound
      simpa [Task.start, hij] using hbound

/-- A fleet keeps its invariant. -/
theorem step (h : FleetSound P f) (hs : FleetStep P nameOf f f') : FleetSound P f' := by
  cases hs with
  | @server l server hs hlabel =>
    refine h.server hs (fun scheduled hl => ?_) fun input hl => ?_
    · simp [hl, Label.ofWorkers] at hlabel
    · simp [hl, Label.ofWorkers] at hlabel
  | envelope hs hnew => exact h.claimed hs hnew
  | @loseClaim envelope pre post hclaims =>
    refine ⟨h.reachable, ?_, h.tasks, h.strays, h.submissions, h.bounded⟩
    refine List.Subperm.trans ?_ h.envelopes
    rw [hclaims]
    exact ((List.Sublist.refl _).append
      ((List.Sublist.refl pre).append (List.sublist_cons_self envelope post))).subperm
  | @claim i r hr hidle hroom => exact h.waiting (by simp; omega)
  | @unclaimed i r hr =>
    have hbound := h.bounded i r hr
    exact h.waiting (by simp; omega)
  | receive hr hclaiming hclaims => exact h.received hr hclaiming hclaims
  | @task t t' r left pre post htasks hr hs =>
    have ht : t ∈ f.tasks := by simp [htasks]
    obtain ⟨hsound, hevolves, hleft⟩ := (h.tasks t ht).step hs
    exact h.task left htasks hsound hevolves hleft
  | @observe t result k pre post htasks hphase =>
    have ht : t ∈ f.tasks := by simp [htasks]
    obtain ⟨hnone, hnames⟩ := (h.tasks t ht).observing _ _ hphase
    refine h.task [] htasks (.of_observing hnone hnames fun k' hcall => ?_)
      (.of_phase (by simp [hphase]) rfl rfl (Or.inr rfl)) (by simp)
    have hanswer := (Exchange.heard.inj hcall).2
    refine ⟨f.server, h.reachable, .refl, ?_⟩
    cases hcancellation : cancellation f.server.now (leaseBody t.envelope) f.server.db with
    | error e => rw [hcancellation] at hanswer; cases hanswer
    | ok state =>
      rw [hcancellation] at hanswer
      rw [Except.ok.inj hanswer]
  | @heartbeat t k leaseDurationMs reply db pre post htasks hbeat hduration hop =>
    have hs : Step P f.server (.heartbeat leaseDurationMs (leaseBody t.envelope))
        { f.server with db } := .heartbeat hduration hop
    have hserver := h.server hs (fun _ => by simp) fun _ hl => absurd hl (by simp)
    have ht : t ∈ f.tasks := by simp [htasks]
    exact hserver.task [] htasks ((hserver.tasks t ht).of_phase rfl rfl (Or.inl rfl))
      (.of_beat (by simp [hbeat]) rfl rfl rfl) (by simp)
  | @heartbeatRefused t k leaseDurationMs e pre post htasks hbeat hop =>
    have ht : t ∈ f.tasks := by simp [htasks]
    exact h.task [] htasks ((h.tasks t ht).of_phase rfl rfl (Or.inl rfl))
      (.of_beat (by simp [hbeat]) rfl rfl rfl) (by simp)
  | @handoff t result k server pre post answer htasks hphase hs =>
    have ht : t ∈ f.tasks := by simp [htasks]
    have hsubmitted := (h.tasks t ht).submitting _ _ hphase
    have hserver := h.server hs (fun _ => by simp) fun input hl => ⟨t, ht, by
      rw [hsubmitted, Label.handoff.inj hl]⟩
    exact hserver.task [] htasks ((hserver.tasks t ht).resubmitting hphase _)
      (.of_phase (by simp [hphase]) rfl rfl (Or.inr rfl)) (by simp)
  | @handoffRefused t result k e pre post htasks hphase hop =>
    have ht : t ∈ f.tasks := by simp [htasks]
    exact h.task [] htasks ((h.tasks t ht).resubmitting hphase _)
      (.of_phase (by simp [hphase]) rfl rfl (Or.inr rfl)) (by simp)
  | @stray result server pre post hstrays hs =>
    obtain ⟨t, ht, hsubmitted⟩ := h.strays result (by simp [hstrays])
    have hserver := h.server hs (fun _ => by simp) fun input hl => ⟨t, ht, by
      rw [hsubmitted, Label.handoff.inj hl]⟩
    exact ⟨hserver.reachable, hserver.envelopes, hserver.tasks,
      fun result' hresult' => h.strays result' (by
        rw [hstrays]
        rcases List.mem_append.1 hresult' with hmem | hmem
        · exact List.mem_append_left _ hmem
        · exact List.mem_append_right _ (List.mem_cons_of_mem _ hmem)),
      hserver.submissions, hserver.bounded⟩

/-- A fleet that has not begun. -/
theorem initial (h : Fleet.Initial P f) : FleetSound P f := by
  refine ⟨.start h.server, ?_, by simp [h.tasks], by simp [h.strays],
    ⟨by simp [h.server.submissions], by simp [h.server.processes]⟩, fun i r hr => ?_⟩
  · simp [h.tasks, h.claims]
  · have hmem := List.mem_of_getElem? hr
    simp [Fleet.load, h.tasks, h.runners r hmem]

/-- No attempt is on its way twice, or given to two tasks. -/
theorem attempts (h : FleetSound P f) :
    (f.tasks.map (·.envelope.attemptId) ++ f.claims.map (·.attemptId)).Nodup := by
  have henvelopes : (f.server.envelopes.map (·.attemptId)).Nodup := by
    have honce := (reachable_heldOnce h.reachable).once
    rw [State.handedOut, List.map_append, List.map_map, List.map_map] at honce
    exact honce.of_append_right
  obtain ⟨ordered, hperm, hsub⟩ := h.envelopes
  have hordered : (ordered.map (·.attemptId)).Nodup := henvelopes.sublist (hsub.map _)
  rw [(hperm.map _).nodup_iff, List.map_append, List.map_map] at hordered
  exact hordered

/-- The submission of an attempt that the runtime has is the one of its task. -/
theorem row (h : FleetSound P f) {row : WorkerResultSubmission}
    (hr : row ∈ f.server.db.submissions) {t : Task} (ht : t ∈ f.tasks)
    (hid : t.envelope.attemptId = row.attemptId) : ∃ result, t.submitted = some result ∧
      commitInput result = .ok row.result ∧ row.submissionDigest = submissionDigestOf P result := by
  obtain ⟨-, u, hu, result, hsubmitted, hattempt, hcontent, hdigest⟩ := h.submissions.rows row hr
  obtain rfl : u = t :=
    List.inj_on_of_nodup_map h.attempts.of_append_left hu ht (hattempt.trans hid.symm)
  exact ⟨result, hsubmitted, hcontent, hdigest⟩

/-- A result that is handed off again is a duplicate. -/
theorem duplicate (h : FleetSound P f) {t : Task} (ht : t ∈ f.tasks) {result : ProposedResultInput}
    (hsubmitted : t.submitted = some result) {row : WorkerResultSubmission}
    (hr : row ∈ f.server.db.submissions) (hid : row.attemptId = t.envelope.attemptId) (now : Time) :
    handoff P now result f.server.db = .ok (true, f.server.db) := by
  obtain ⟨_, hsame, hcontent, hdigest⟩ := h.row hr ht hid.symm
  obtain rfl := Option.some.inj (hsubmitted.symm.trans hsame)
  have hattempt : row.result.attemptId = row.attemptId := (h.submissions.rows row hr).1
  have hkeyed := (reachable_sound h.reachable).backed.submissions
  have hfind : f.server.db.submission? row.result.attemptId = some row :=
    (submission?_eq_some hkeyed).2 ⟨hr, hattempt.symm⟩
  simp [handoff, hcontent, hfind, hdigest, require, Bind.bind, Except.bind, Pure.pure, Except.pure]

end FleetSound

end FactoryFloor
