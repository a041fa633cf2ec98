import FactoryFloor.AtMostOnce

/-!
# What a recovery pass keeps

A pass of `StartupRecoveryService.run` recovers one batch of pending submissions, the oldest first, and
then every attempt whose lease has expired. The runtime reaches a state after each of its transactions
(`Passing`), so the invariants of the runtime hold all through a pass.

`RecoversBatch`, `RecoversLeases` and `SettlesRegions` say what the phases do to the submissions and the
attempts. A submission of the batch is committed, or rejected and deleted, before any lease is judged.
An attempt that is judged expired is abandoned, and its submission is not looked at.

So a pass throws no accepted result away when its batch holds every uncommitted submission whose attempt
has expired, and a pass that ends well does so only then (`recovery_keeps_results`). One result more than
the batch takes is enough (`second_result_abandoned`).
-/

namespace FactoryFloor

open Relational Transition

variable {P : Platform} {placed : GroupKey → Prop} {db db' : Db} {now : Time}

/-! ## One commit -/

/-- A transaction on one attempt leaves the submissions and the rows of the others as they are. -/
structure Touches (attemptId : Uuid) (db db' : Db) : Prop where
  submissions : ∀ r, r.attemptId ≠ attemptId → (r ∈ db'.submissions ↔ r ∈ db.submissions)
  attempts : ∀ a ∈ db.attempts, a.id ≠ attemptId → a ∈ db'.attempts

theorem Touches.refl (attemptId : Uuid) (db : Db) : Touches attemptId db db :=
  ⟨fun _ _ => Iff.rfl, fun _ ha _ => ha⟩

theorem insertNextAttempt_keeps {executionId : Uuid} {attemptNumber : ℕ} {startedAt : Time}
    (h : insertNextAttempt P executionId attemptNumber startedAt db = .ok db') :
    ∀ a ∈ db.attempts, a ∈ db'.attempts := by
  obtain ⟨attempts, hinsert, h⟩ := Except.bind_eq_ok.1 h
  obtain rfl := Except.ok.inj h
  intro a ha
  rcases insertOrIgnore_eq_ok (sql_eq_ok.1 hinsert) with ⟨rfl, -⟩ | ⟨rfl, -, -⟩
  · exact ha
  · exact List.mem_append_left _ ha

theorem updateAttempts_keeps {attemptId : Uuid} {status : AttemptStatus} {failure : Option Json}
    (h : updateAttempts (·.id = attemptId) (closeAttempt status now failure) db = .ok db') :
    ∀ a ∈ db.attempts, a.id ≠ attemptId → a ∈ db'.attempts := by
  obtain ⟨rfl, -⟩ := (updateAttempts_eq_ok_of_closed fun _ => rfl).1 h
  exact fun a ha hne => mem_updateWhere_of_not ha (by simpa using hne)

theorem closeCompleted_attempts {input : ProposedExecutionResult} {deliveries : List Delivery}
    (h : closeCompleted now input deliveries db = .ok db') :
    ∀ a ∈ db.attempts, a.id ≠ input.attemptId → a ∈ db'.attempts := by
  unfold closeCompleted at h
  obtain ⟨db₁, h₁, h⟩ := Except.bind_eq_ok.1 h
  obtain ⟨db₂, h₂, h₃⟩ := Except.bind_eq_ok.1 h
  intro a ha hne
  have ha₁ := updateAttempts_keeps h₁ a ha hne
  obtain ⟨rfl, -⟩ := updateExecutions_eq_ok.1 h₂
  obtain ⟨rfl, -⟩ := updateDeliveries_eq_ok.1 h₃
  exact ha₁

theorem failOrRetry_attempts {input : ProposedExecutionResult} {execution : Execution}
    {attempt : ExecutionAttempt} {deliveries : List Delivery} {disposition : CommitDisposition}
    (h : failOrRetry P now input execution attempt deliveries db = .ok (disposition, db')) :
    ∀ a ∈ db.attempts, a.id ≠ input.attemptId → a ∈ db'.attempts := by
  unfold failOrRetry at h
  obtain ⟨db₁, h₁, h⟩ := Except.bind_eq_ok.1 h
  intro a ha hne
  have ha₁ := updateAttempts_keeps h₁ a ha hne
  split at h
  · obtain ⟨db₂, h₂, h⟩ := Except.bind_eq_ok.1 h
    obtain ⟨db₃, h₃, h⟩ := Except.bind_eq_ok.1 h
    obtain ⟨-, rfl⟩ := Prod.mk.inj (Except.ok.inj h)
    obtain ⟨rfl, -⟩ := updateDeliveries_eq_ok.1 h₃
    exact insertNextAttempt_keeps h₂ a ha₁
  · obtain ⟨db₂, h₂, h⟩ := Except.bind_eq_ok.1 h
    obtain ⟨db₃, h₃, h⟩ := Except.bind_eq_ok.1 h
    obtain ⟨-, rfl⟩ := Prod.mk.inj (Except.ok.inj h)
    obtain ⟨rfl, -⟩ := updateExecutions_eq_ok.1 h₂
    obtain ⟨rfl, -⟩ := updateDeliveries_eq_ok.1 h₃
    exact ha₁

/-- A commit touches its attempt. -/
theorem Commits.touches {env : CommitEnv} {input : ProposedExecutionResult} {digest : Digest}
    {disposition : CommitDisposition} {l : Locked} {db₁ db₂ : Db}
    (hw : Work.Coherent P placed db.work) (hb : Backed db) (hplaced : ConnectionsPlaced placed db)
    (h : Commits P env input digest disposition l db db₁ db₂ db') :
    Touches input.attemptId db db' := by
  refine ⟨(h.submission hw hb hplaced).2.1, fun a ha hne => ?_⟩
  obtain ⟨w, dbw, hwrote⟩ := h.writes hb
  have hsame : dbw.attempts = db.attempts := by
    rw [hwrote.writes.scheduling, h.records.scheduling]
  rw [markCommitted_eq_ok h.mark]
  rcases hwrote.ends with ⟨-, hend⟩ | ⟨-, hend⟩
  · exact closeCompleted_attempts hend a (hsame ▸ ha) hne
  · exact failOrRetry_attempts hend a (hsame ▸ ha) hne

theorem deleteSubmission_touches (attemptId : Uuid) (digest : Digest) (db : Db) :
    Touches attemptId db (deleteSubmission attemptId digest db) := by
  refine ⟨fun r hne => ?_, fun a ha _ => ha⟩
  simp [deleteSubmission, hne]

/-- A pass is at a state that the runtime reaches, with the clock and the bytes of its start. -/
structure Passing (P : Platform) (s : State) (db : Db) (t : State) : Prop where
  reachable : (runtime P).Reachable t
  db : t.db = db
  now : t.now = s.now
  blobs : t.blobs = s.blobs

theorem Passing.trans {s t u : State} (h : Passing P s db t) (h' : Passing P t db' u) :
    Passing P s db' u :=
  ⟨h'.reachable, h'.db, h'.now.trans h.now, h'.blobs.trans h.blobs⟩

theorem CommitEnv.of_passing {env : CommitEnv} {s t : State} (h : env.of s)
    (ht : Passing P s db t) : env.of t := by
  rw [CommitEnv.of, ht.now, ht.blobs]
  exact h

/-- Whether a recovered submission is settled : it is committed, or rejected and deleted. -/
def settles {α : Type} : Outcome α → Bool
  | .ok _ => true
  | .error e => e.rejects

/-- What the commit of a recovered submission does. It is committed or deleted, or the pass ends and
nothing is changed. -/
structure RecoversResult (attemptId : Uuid) (settled : Bool) (db db' : Db) : Prop where
  touches : Touches attemptId db db'
  committed : settled → ∀ r ∈ db'.submissions, r.attemptId = attemptId → r.committedAt.isSome
  unchanged : settled = false → db' = db

theorem commitSubmittedResult_recovers {env : CommitEnv} {s : State} {attemptId : Uuid}
    {outcome : Outcome CommitDisposition} (hr : (runtime P).Reachable s) (henv : env.of s)
    (hlease : env.allowExpiredLease = true)
    (h : commitSubmittedResult P env attemptId s.db = (outcome, db')) :
    ∃ t, Passing P s db' t ∧ RecoversResult attemptId (settles outcome) s.db db' := by
  have hs := reachable_sound hr
  unfold commitSubmittedResult at h
  split at h
  · obtain ⟨rfl, rfl⟩ := Prod.mk.inj h
    exact ⟨s, ⟨hr, rfl, rfl, rfl⟩, Touches.refl _ _, nofun, fun _ => rfl⟩
  rename_i row hrow
  obtain ⟨hmem, hid⟩ := (submission?_eq_some hs.backed.submissions).1 hrow
  have hattempt : row.result.attemptId = attemptId :=
    ((reachable_handed hr).rows row hmem).attemptId.trans hid
  have hread := hr.next (Step.recoverSubmission (P := P) hrow)
  have hprocesses : .committing row.result row.submissionDigest true :: s.processes =
      [] ++ .committing row.result row.submissionDigest env.allowExpiredLease :: s.processes := by
    rw [hlease]
    rfl
  have hone {r : WorkerResultSubmission} (hr : r ∈ s.db.submissions) (hrid : r.attemptId = attemptId) :
      r = row := hs.backed.submissions.eq hr hmem (hrid.trans hid.symm)
  unfold commit at h
  cases htx : commitTx P env row.result row.submissionDigest s.db with
  | ok published =>
    obtain ⟨disposition, db₁⟩ := published
    rw [htx] at h
    obtain ⟨rfl, rfl⟩ := Prod.mk.inj h
    have hcommit := hread.next (Step.commit (P := P) henv hprocesses htx)
    refine ⟨_, ⟨hcommit, rfl, rfl, rfl⟩, ?_⟩
    rcases commitTx_eq_ok htx with ⟨-, rfl, u, hu, -, hcommitted⟩ | ⟨l, db₂, db₃, hc⟩
    · refine ⟨Touches.refl _ _, fun _ r hr hrid => ?_, nofun⟩
      rw [hattempt, hrow] at hu
      obtain rfl := Option.some.inj hu
      rw [hone hr hrid]
      exact hcommitted
    · have hplaced := connectionsPlaced hs.coherent hs.wellFormed
      have htouches := hc.touches hs.coherent hs.backed hplaced
      obtain ⟨hkeyed, -, u, huid, -, -, hu⟩ := hc.submission hs.coherent hs.backed hplaced
      rw [hattempt] at htouches huid
      refine ⟨htouches, fun _ r hr hrid => ?_, nofun⟩
      rw [hkeyed.eq hr hu (hrid.trans huid.symm)]
      rfl
  | error e =>
    rw [htx] at h
    obtain ⟨rfl, rfl⟩ := Prod.mk.inj h
    by_cases hrejects : e.rejects
    · rw [if_pos hrejects, hattempt]
      have hreject := hread.next (Step.reject (P := P) henv hprocesses htx hrejects)
      have hrejected : [] ++ .rejected row.result.attemptId row.submissionDigest :: s.processes =
          [] ++ .rejected row.result.attemptId row.submissionDigest :: s.processes := rfl
      have hdelete := hreject.next (Step.delete (P := P) hrejected)
      refine ⟨_, ⟨hdelete, ?_, rfl, rfl⟩, deleteSubmission_touches _ _ _, fun _ r hr hrid => ?_, ?_⟩
      · rw [← hattempt]
      · have hr : r ∈ s.db.submissions ∧ ((r.attemptId ≠ attemptId ∨
            r.submissionDigest ≠ row.submissionDigest) ∨ r.committedAt.isSome) := by
          simpa [deleteSubmission] using hr
        obtain rfl := hone hr.1 hrid
        exact hr.2.resolve_left (by simp [hrid])
      · exact fun hfalse => absurd (hrejects.symm.trans hfalse) Bool.noConfusion
    · rw [if_neg hrejects]
      exact ⟨s, ⟨hr, rfl, rfl, rfl⟩, Touches.refl _ _, fun htrue => absurd htrue hrejects,
        fun _ => rfl⟩

/-! ## The batch -/

/-- What the batch of a pass does : it touches its own attempts, each submission that is left
uncommitted was there with its attempt, and if the pass goes on, none of the batch is left. -/
structure RecoversBatch (ids : List Uuid) (goesOn : Bool) (db db' : Db) : Prop where
  submissions : ∀ r, r.attemptId ∉ ids → (r ∈ db'.submissions ↔ r ∈ db.submissions)
  attempts : ∀ a ∈ db.attempts, a.id ∉ ids → a ∈ db'.attempts
  pending : ∀ r ∈ db'.submissions, r.committedAt = none →
    r ∈ db.submissions ∧ ∀ a ∈ db.attempts, a.id = r.attemptId → a ∈ db'.attempts
  settled : goesOn → ∀ r ∈ db'.submissions, r.attemptId ∈ ids → r.committedAt.isSome

theorem RecoversBatch.cons {attemptId : Uuid} {ids : List Uuid} {goesOn : Bool} {db₁ : Db}
    (h : RecoversResult attemptId true db db₁) (hbatch : RecoversBatch ids goesOn db₁ db') :
    RecoversBatch (attemptId :: ids) goesOn db db' where
  submissions r hr := by
    rw [List.mem_cons, not_or] at hr
    exact (hbatch.submissions r hr.2).trans (h.touches.submissions r hr.1)
  attempts a ha hid := by
    rw [List.mem_cons, not_or] at hid
    exact hbatch.attempts a (h.touches.attempts a ha hid.1) hid.2
  pending r hr hopen := by
    obtain ⟨hr₁, hkept⟩ := hbatch.pending r hr hopen
    have hne : r.attemptId ≠ attemptId := fun hid => by
      have := h.committed rfl r hr₁ hid
      simp [hopen] at this
    refine ⟨(h.touches.submissions r hne).1 hr₁, fun a ha hid => ?_⟩
    exact hkept a (h.touches.attempts a ha (by rwa [hid])) hid
  settled hgoes r hr hid := by
    by_contra hopen
    have hopen : r.committedAt = none := by simpa using hopen
    rcases List.mem_cons.1 hid with hid | hid
    · have := h.committed rfl r (hbatch.pending r hr hopen).1 hid
      simp [hopen] at this
    · have := hbatch.settled hgoes r hr hid
      simp [hopen] at this

theorem RecoversBatch.refl (ids : List Uuid) (db : Db) : RecoversBatch ids false db db :=
  ⟨fun _ _ => Iff.rfl, fun _ ha _ => ha, fun _ hr _ => ⟨hr, fun _ ha _ => ha⟩, nofun⟩

theorem recoverSubmissions_recovers {env : CommitEnv} (hlease : env.allowExpiredLease = true)
    (ids : List Uuid) {counts : SubmissionCounts} {outcome : Outcome SubmissionCounts} {s : State}
    (hr : (runtime P).Reachable s) (henv : env.of s)
    (h : recoverSubmissions P env ids counts s.db = (outcome, db')) :
    ∃ t, Passing P s db' t ∧ RecoversBatch ids outcome.isOk s.db db' := by
  induction ids generalizing s counts with
  | nil =>
    obtain ⟨rfl, rfl⟩ := Prod.mk.inj h
    exact ⟨s, ⟨hr, rfl, rfl, rfl⟩, fun _ _ => Iff.rfl, fun _ ha _ => ha,
      fun _ hr _ => ⟨hr, fun _ ha _ => ha⟩, fun _ _ _ hmem => absurd hmem List.not_mem_nil⟩
  | cons id ids ih =>
    rw [recoverSubmissions] at h
    cases hcommit : commitSubmittedResult P env id s.db with
    | mk first db₁ =>
      obtain ⟨t, ht, hfirst⟩ := commitSubmittedResult_recovers hr henv hlease hcommit
      have hgo {counts : SubmissionCounts} (hsettled : settles first = true)
          (h : recoverSubmissions P env ids counts db₁ = (outcome, db')) :
          ∃ t, Passing P s db' t ∧ RecoversBatch (id :: ids) outcome.isOk s.db db' := by
        rw [← ht.db] at h
        obtain ⟨u, hu, hbatch⟩ := ih ht.reachable (CommitEnv.of_passing henv ht) h
        rw [hsettled] at hfirst
        rw [ht.db] at hbatch
        exact ⟨u, ht.trans hu, .cons hfirst hbatch⟩
      rw [hcommit] at h
      cases first with
      | ok disposition => exact hgo rfl h
      | error e =>
        dsimp only at h
        split at h
        next hrejects => exact hgo hrejects h
        next hrejects =>
          obtain ⟨rfl, rfl⟩ := Prod.mk.inj h
          obtain rfl := hfirst.unchanged (Bool.eq_false_iff.2 hrejects)
          exact ⟨t, ht, .refl _ _⟩

/-! ## Expired attempts -/

/-- What the later phases of a pass do to an attempt : it stays, is abandoned if its lease has expired,
or is cancelled with its region. -/
structure RecoversLeases (judged : List Uuid) (now : Time) (db db' : Db) : Prop where
  submissions : db'.submissions = db.submissions
  stays : ∀ a ∈ db.attempts, (a.id ∉ judged ∨ ¬expired now a) → a ∈ db'.attempts
  abandoned : ∀ a ∈ db.attempts, a.id ∈ judged → expired now a →
    ∃ b ∈ db'.attempts, b.id = a.id ∧ b.status = .abandoned

theorem recoverAttempt_keeps {attempt : ExecutionAttempt} {execution : Execution} {region : Region}
    {recovered : RecoveredAttempt}
    (h : recoverAttempt P now attempt execution region db = .ok (recovered, db')) :
    db'.submissions = db.submissions ∧
      ∀ a ∈ updateWhere (·.id = attempt.id) (closeAttempt .abandoned now none) db.attempts,
        a ∈ db'.attempts := by
  unfold recoverAttempt at h
  obtain ⟨db₁, h₁, h⟩ := Except.bind_eq_ok.1 h
  obtain ⟨rfl, -⟩ := (updateAttempts_eq_ok_of_closed fun _ => rfl).1 h₁
  dsimp only at h
  split at h
  · obtain ⟨db₂, h₂, h⟩ := Except.bind_eq_ok.1 h
    obtain ⟨db₃, h₃, h⟩ := Except.bind_eq_ok.1 h
    obtain ⟨-, rfl⟩ := Prod.mk.inj (Except.ok.inj h)
    have hkeeps := insertNextAttempt_keeps h₂
    obtain ⟨rfl, -⟩ := updateDeliveries_eq_ok.1 h₃
    obtain ⟨attempts, -, h₂⟩ := Except.bind_eq_ok.1 h₂
    obtain rfl := Except.ok.inj h₂
    exact ⟨rfl, hkeeps⟩
  · split at h
    · obtain ⟨db₂, h₂, h⟩ := Except.bind_eq_ok.1 h
      obtain ⟨db₃, h₃, h⟩ := Except.bind_eq_ok.1 h
      obtain ⟨-, rfl⟩ := Prod.mk.inj (Except.ok.inj h)
      obtain ⟨rfl, -⟩ := updateExecutions_eq_ok.1 h₂
      obtain ⟨rfl, -⟩ := updateDeliveries_eq_ok.1 h₃
      exact ⟨rfl, fun _ ha => ha⟩
    · obtain ⟨-, rfl⟩ := Prod.mk.inj (Except.ok.inj h)
      exact ⟨rfl, fun _ ha => ha⟩

theorem recoverExpired_recovers {attemptId : Uuid} {recovered : RecoveredAttempt}
    (hk : Keyed (·.id) db.attempts)
    (h : recoverExpired P now attemptId db = .ok (recovered, db')) :
    RecoversLeases [attemptId] now db db' := by
  unfold recoverExpired at h
  split at h
  · rename_i hnone
    obtain ⟨-, rfl⟩ := Prod.mk.inj (Except.ok.inj h)
    refine ⟨rfl, fun a ha _ => ha, fun a ha hid he => ?_⟩
    obtain rfl := List.mem_singleton.1 hid
    rw [Db.attempt?, hk.find?_eq_some ha, Option.filter_some, if_pos he] at hnone
    exact absurd hnone (Option.some_ne_none a)
  · rename_i attempt hattempt
    obtain ⟨execution, -, h⟩ := Except.bind_eq_ok.1 h
    obtain ⟨region, -, h⟩ := Except.bind_eq_ok.1 h
    obtain ⟨hfound, he⟩ := Option.filter_eq_some_iff.1 hattempt
    obtain ⟨hmem, hid⟩ := mem_of_find?_key hfound
    obtain ⟨hsubmissions, hkeeps⟩ := recoverAttempt_keeps h
    refine ⟨hsubmissions, fun a ha hstays => ?_, fun a ha haid _ => ?_⟩
    · refine hkeeps a (mem_updateWhere_of_not ha ?_)
      intro hsame
      have hsame : a.id = attempt.id := by simpa using hsame
      rcases hstays with hne | hne
      · exact hne (List.mem_singleton.2 (hsame.trans hid))
      · obtain rfl := hk.eq ha hmem hsame
        exact hne he
    · have hsame : a.id = attempt.id := (List.mem_singleton.1 haid).trans hid.symm
      exact ⟨_, hkeeps _ (mem_updateWhere_of ha (by simpa using hsame)), rfl, rfl⟩

theorem not_expired_of_abandoned {a : ExecutionAttempt} (h : a.status = .abandoned) :
    ¬expired now a := by
  simp [expired, h, AttemptStatus.active]

theorem RecoversLeases.cons {id : Uuid} {ids : List Uuid} {db₁ : Db}
    (h : RecoversLeases [id] now db db₁) (hrest : RecoversLeases ids now db₁ db') :
    RecoversLeases (id :: ids) now db db' where
  submissions := hrest.submissions.trans h.submissions
  stays a ha hstays := by
    have hsplit : (a.id ∉ [id] ∨ ¬expired now a) ∧ (a.id ∉ ids ∨ ¬expired now a) := by
      simp only [List.mem_cons, not_or, List.not_mem_nil, or_false] at hstays ⊢
      tauto
    exact hrest.stays a (h.stays a ha hsplit.1) hsplit.2
  abandoned a ha hid he := by
    by_cases hfirst : a.id = id
    · obtain ⟨b, hb, hbid, hstatus⟩ := h.abandoned a ha (List.mem_singleton.2 hfirst) he
      exact ⟨b, hrest.stays b hb (Or.inr (not_expired_of_abandoned hstatus)), hbid, hstatus⟩
    · refine hrest.abandoned a (h.stays a ha (Or.inl ?_)) ?_ he
      · exact fun hmem => hfirst (List.mem_singleton.1 hmem)
      · exact (List.mem_cons.1 hid).resolve_left hfirst

/-- The recovery of the expired attempts goes on from states that the runtime reaches. -/
theorem forEach_recoverExpired {s : State} {outcome : Outcome Unit} (ids : List Uuid)
    {rest : List Pass} (hr : (runtime P).Reachable s)
    (hpasses : s.passes = { now, remaining := ids } :: rest)
    (h : forEach (fun id db => (·.2) <$> recoverExpired P now id db) ids s.db = (outcome, db')) :
    ∃ t done, Passing P s db' t ∧ RecoversLeases done now s.db db' ∧ done <+: ids ∧
      (outcome.isOk → done = ids ∧ t.passes = { now, remaining := [] } :: rest) := by
  induction ids generalizing s with
  | nil =>
    obtain ⟨rfl, rfl⟩ := Prod.mk.inj h
    exact ⟨s, [], ⟨hr, rfl, rfl, rfl⟩, ⟨rfl, fun _ ha _ => ha, nofun⟩, List.prefix_rfl,
      fun _ => ⟨rfl, hpasses⟩⟩
  | cons id ids ih =>
    rw [forEach] at h
    cases hfirst : recoverExpired P now id s.db with
    | error e =>
      rw [hfirst] at h
      obtain ⟨rfl, rfl⟩ := Prod.mk.inj h
      exact ⟨s, [], ⟨hr, rfl, rfl, rfl⟩, ⟨rfl, fun _ ha _ => ha, nofun⟩, List.nil_prefix, nofun⟩
    | ok recovered =>
      obtain ⟨recovered, db₁⟩ := recovered
      rw [hfirst] at h
      have hmem : s.passes = [] ++ { now, remaining := id :: ids } :: rest := hpasses
      have hstep := hr.next (Step.recoverExpired (P := P) hmem hfirst)
      obtain ⟨t, done, ht, hrecovers, hdone, hall⟩ := ih hstep rfl h
      refine ⟨t, id :: done, ⟨ht.reachable, ht.db, ht.now, ht.blobs⟩, ?_, ?_, fun hok => ?_⟩
      · exact .cons (recoverExpired_recovers (reachable_sound hr).coherent.attemptsKeyed hfirst)
          hrecovers
      · exact List.cons_prefix_cons.2 ⟨rfl, hdone⟩
      · rw [(hall hok).1]
        exact ⟨rfl, (hall hok).2⟩

/-! ## Cancelling regions -/

/-- What settling a region does to the attempts : a closed one stays, and an open one stays or is
cancelled. -/
structure SettlesRegions (db db' : Db) : Prop where
  submissions : db'.submissions = db.submissions
  closed : ∀ a ∈ db.attempts, a.status.terminal → a ∈ db'.attempts
  cancels : ∀ a ∈ db.attempts, a ∈ db'.attempts ∨
    ∃ b ∈ db'.attempts, b.id = a.id ∧ b.status = .cancelled

theorem SettlesRegions.refl (db : Db) : SettlesRegions db db :=
  ⟨rfl, fun _ ha _ => ha, fun _ ha => Or.inl ha⟩

theorem SettlesRegions.trans {db₁ : Db} (h : SettlesRegions db db₁) (h' : SettlesRegions db₁ db') :
    SettlesRegions db db' where
  submissions := h'.submissions.trans h.submissions
  closed a ha hclosed := h'.closed a (h.closed a ha hclosed) hclosed
  cancels a ha := by
    rcases h.cancels a ha with ha | ⟨b, hb, hid, hstatus⟩
    · exact h'.cancels a ha
    · exact Or.inr ⟨b, h'.closed b hb (by rw [hstatus]; rfl), hid, hstatus⟩

theorem settleCancelling_settles {regionId : Uuid} (h : settleCancelling now regionId db = .ok db') :
    SettlesRegions db db' := by
  unfold settleCancelling at h
  split at h
  · obtain rfl := Except.ok.inj h
    exact .refl _
  · obtain ⟨db₁, h₁, h⟩ := Except.bind_eq_ok.1 h
    obtain ⟨db₂, h₂, h⟩ := Except.bind_eq_ok.1 h
    obtain ⟨db₃, h₃, h⟩ := Except.bind_eq_ok.1 h
    obtain ⟨regions, -, h⟩ := Except.bind_eq_ok.1 h
    obtain rfl := Except.ok.inj h
    obtain ⟨rfl, -⟩ := (updateAttempts_eq_ok_of_closed fun _ => rfl).1 h₁
    obtain ⟨rfl, -⟩ := updateExecutions_eq_ok.1 h₂
    obtain ⟨rfl, -⟩ := updateDeliveries_eq_ok.1 h₃
    refine ⟨rfl, fun a ha hclosed => mem_updateWhere_of_not ha ?_, fun a ha => ?_⟩
    · intro hopen
      cases hstatus : a.status <;>
        simp [hstatus, AttemptStatus.active, AttemptStatus.terminal] at hopen hclosed
    · rw [or_iff_not_imp_left]
      intro hmoved
      refine ⟨_, mem_updateWhere_of ha ?_, rfl, rfl⟩
      by_contra hnot
      exact hmoved (mem_updateWhere_of_not ha hnot)

theorem forEach_settles {s : State} {outcome : Outcome Unit} (ids : List Uuid)
    (hr : (runtime P).Reachable s)
    (h : forEach (settleCancelling now) ids s.db = (outcome, db')) :
    ∃ t, Passing P s db' t ∧ SettlesRegions s.db db' := by
  induction ids generalizing s with
  | nil =>
    obtain ⟨rfl, rfl⟩ := Prod.mk.inj h
    exact ⟨s, ⟨hr, rfl, rfl, rfl⟩, .refl _⟩
  | cons id ids ih =>
    rw [forEach] at h
    cases hfirst : settleCancelling now id s.db with
    | error e =>
      rw [hfirst] at h
      obtain ⟨rfl, rfl⟩ := Prod.mk.inj h
      exact ⟨s, ⟨hr, rfl, rfl, rfl⟩, .refl _⟩
    | ok db₁ =>
      rw [hfirst] at h
      obtain ⟨t, ht, hsettles⟩ := ih (hr.next (Step.settle (P := P) hfirst)) h
      exact ⟨t, ⟨ht.reachable, ht.db, ht.now, ht.blobs⟩,
        (settleCancelling_settles hfirst).trans hsettles⟩

theorem releaseOrphans_settles (h : releaseOrphans now db = .ok db') : SettlesRegions db db' := by
  obtain ⟨rfl, -⟩ := updateDeliveries_eq_ok.1 h
  exact ⟨rfl, fun _ ha _ => ha, fun _ ha => Or.inl ha⟩

/-- The phases after the batch : the expired attempts of a prefix are abandoned, all of them if the pass
ends well, and then open attempts may be cancelled. -/
theorem recoverLeases_recovers {s : State} {outcome : Outcome Unit} (hr : (runtime P).Reachable s)
    (h : recoverLeases P s.now s.db = (outcome, db')) :
    ∃ t done db₁, Passing P s db' t ∧ RecoversLeases done s.now s.db db₁ ∧ SettlesRegions db₁ db' ∧
      done <+: expiredAttemptIds s.now s.db ∧
      (outcome.isOk → done = expiredAttemptIds s.now s.db) := by
  unfold recoverLeases at h
  have hscan := hr.next (Step.scanExpired (P := P) (Nat.le_refl s.now))
  cases hexpired : forEach (fun id db => (·.2) <$> recoverExpired P s.now id db)
      (expiredAttemptIds s.now s.db) s.db with
  | mk first db₁ =>
    obtain ⟨t, done, ht, hrecovers, hdone, hall⟩ := forEach_recoverExpired _ hscan rfl hexpired
    rw [hexpired] at h
    cases first with
    | error e =>
      obtain ⟨rfl, rfl⟩ := Prod.mk.inj h
      exact ⟨t, done, db₁, ⟨ht.reachable, ht.db, ht.now, ht.blobs⟩, hrecovers, .refl _, hdone, nofun⟩
    | ok u =>
      obtain ⟨rfl, hpasses⟩ := hall rfl
      have hends {u : State} (hu : Passing P s db' u) (hsettles : SettlesRegions db₁ db') :
          ∃ t done db₁, Passing P s db' t ∧ RecoversLeases done s.now s.db db₁ ∧
            SettlesRegions db₁ db' ∧ done <+: expiredAttemptIds s.now s.db ∧
            (outcome.isOk → done = expiredAttemptIds s.now s.db) :=
        ⟨u, _, db₁, hu, hrecovers, hsettles, List.prefix_rfl, fun _ => rfl⟩
      dsimp only at h
      cases horphans : releaseOrphans s.now db₁ with
      | error e =>
        rw [horphans] at h
        obtain ⟨rfl, rfl⟩ := Prod.mk.inj h
        exact hends ⟨ht.reachable, ht.db, ht.now, ht.blobs⟩ (.refl _)
      | ok db₂ =>
        rw [horphans] at h
        have hmem : t.passes = [] ++ { now := s.now, remaining := [] } :: s.passes := hpasses
        have hrelease := ht.reachable.next (Step.releaseOrphans (P := P) hmem
          (by rw [ht.db]; exact horphans))
        obtain ⟨v, hv, hsettles⟩ := forEach_settles _ hrelease h
        exact hends ⟨hv.reachable, hv.db, hv.now.trans ht.now, hv.blobs.trans ht.blobs⟩
          ((releaseOrphans_settles horphans).trans hsettles)

/-! ## A pass -/

/-- The attempts whose leases a pass judges to have expired, once its batch is recovered. -/
def judgedExpired (P : Platform) (env : CommitEnv) (resultCommitBatchSize : ℕ) (db : Db) :
    List Uuid :=
  match recoverSubmissions P { env with allowExpiredLease := true }
      (pendingSubmissions resultCommitBatchSize db) { committed := 0, rejected := 0 } db with
  | (.error _, _) => []
  | (.ok _, db) => expiredAttemptIds env.now db

/-- A pass throws no accepted result away. A submission that is there uncommitted is considered before
the lease of its attempt is judged expired, and while it is left uncommitted its attempt is as it was,
unless the region of the attempt is being cancelled. -/
structure KeepsResults (P : Platform) (env : CommitEnv) (resultCommitBatchSize : ℕ) (db : Db) :
    Prop where
  considered : ∀ r ∈ db.submissions, r.committedAt = none →
    r.attemptId ∈ judgedExpired P env resultCommitBatchSize db →
    r.attemptId ∈ pendingSubmissions resultCommitBatchSize db
  kept : ∀ r ∈ (recoveryPass P env resultCommitBatchSize db).2.submissions, r.committedAt = none →
    ∀ a ∈ db.attempts, a.id = r.attemptId →
      a ∈ (recoveryPass P env resultCommitBatchSize db).2.attempts ∨
        ∃ b ∈ (recoveryPass P env resultCommitBatchSize db).2.attempts,
          b.id = a.id ∧ b.status = .cancelled

/-- The batch holds every uncommitted submission whose attempt has expired. -/
def BatchHolds (resultCommitBatchSize : ℕ) (now : Time) (db : Db) : Prop :=
  ∀ r ∈ db.submissions, r.committedAt = none → ∀ a ∈ db.attempts, a.id = r.attemptId →
    expired now a → r.attemptId ∈ pendingSubmissions resultCommitBatchSize db

theorem mem_expiredAttemptIds {id : Uuid} :
    id ∈ expiredAttemptIds now db ↔ ∃ a ∈ db.attempts, expired now a ∧ a.id = id := by
  rw [expiredAttemptIds, (List.perm_insertionSort _ _).mem_iff, List.mem_map]
  simp only [List.mem_filter, and_assoc]

/-- A pass whose batch goes well. -/
structure GoesOn (P : Platform) (env : CommitEnv) (limit : ℕ) (s : State) (db₁ db₂ : Db)
    (done : List Uuid) : Prop where
  batch : RecoversBatch (pendingSubmissions limit s.db) true s.db db₁
  keyed : Keyed (·.id) db₁.attempts
  leases : RecoversLeases done s.now db₁ db₂
  regions : SettlesRegions db₂ (recoveryPass P env limit s.db).2
  ends : Keyed (·.id) (recoveryPass P env limit s.db).2.attempts
  judged : judgedExpired P env limit s.db = expiredAttemptIds s.now db₁
  initial : done <+: judgedExpired P env limit s.db
  complete : (recoveryPass P env limit s.db).1.isOk → done = judgedExpired P env limit s.db

/-- A pass stops in its batch, or goes on. -/
theorem recoveryPass_cases {env : CommitEnv} {s : State} (hr : (runtime P).Reachable s)
    (henv : env.of s) (limit : ℕ) :
    (RecoversBatch (pendingSubmissions limit s.db) false s.db (recoveryPass P env limit s.db).2 ∧
        judgedExpired P env limit s.db = [] ∧ (recoveryPass P env limit s.db).1.isOk = false) ∨
      ∃ db₁ db₂ done, GoesOn P env limit s db₁ db₂ done := by
  cases hbatch : recoverSubmissions P { env with allowExpiredLease := true }
      (pendingSubmissions limit s.db) { committed := 0, rejected := 0 } s.db with
  | mk outcome db₁ =>
    have hrecovery : CommitEnv.of { env with allowExpiredLease := true } s := henv
    obtain ⟨t, ht, hrecovers⟩ := recoverSubmissions_recovers rfl _ hr hrecovery hbatch
    cases outcome with
    | error e =>
      have hpass : recoveryPass P env limit s.db = (.error e, db₁) := by
        rw [recoveryPass, hbatch]
      rw [hpass]
      exact Or.inl ⟨hrecovers, by rw [judgedExpired, hbatch], rfl⟩
    | ok counts =>
      right
      have hjudged : judgedExpired P env limit s.db = expiredAttemptIds s.now db₁ := by
        rw [judgedExpired, hbatch, henv.1]
      cases hlater : recoverLeases P s.now db₁ with
      | mk outcome db' =>
        have hpass : (recoveryPass P env limit s.db).2 = db' ∧
            ((recoveryPass P env limit s.db).1.isOk → outcome.isOk) := by
          rw [recoveryPass, hbatch]
          dsimp only
          rw [henv.1, hlater]
          cases outcome with
          | ok u => exact ⟨rfl, fun _ => rfl⟩
          | error e => exact ⟨rfl, nofun⟩
        rw [← ht.db, ← ht.now] at hlater
        obtain ⟨u, done, db₂, hu, hleases, hregions, hdone, hall⟩ :=
          recoverLeases_recovers ht.reachable hlater
        rw [ht.db, ht.now] at hleases hdone hall
        refine ⟨db₁, db₂, done, hrecovers, ?_, hleases, ?_, ?_, hjudged, ?_, fun hok => ?_⟩
        · rw [← ht.db]
          exact (reachable_sound ht.reachable).coherent.attemptsKeyed
        · rw [hpass.1]
          exact hregions
        · rw [hpass.1, ← hu.db]
          exact (reachable_sound hu.reachable).coherent.attemptsKeyed
        · rw [hjudged]
          exact hdone
        · rw [hjudged]
          exact hall (hpass.2 hok)

section Pass

variable {env : CommitEnv} {s : State} {limit : ℕ} {db₁ db₂ : Db} {done : List Uuid}

/-- An attempt judged expired whose submission is outside the batch had expired at the start. -/
theorem GoesOn.considered (hr : (runtime P).Reachable s) (h : GoesOn P env limit s db₁ db₂ done)
    (hfit : BatchHolds limit s.now s.db) {r : WorkerResultSubmission} (hmem : r ∈ s.db.submissions)
    (hopen : r.committedAt = none) (hjudged : r.attemptId ∈ judgedExpired P env limit s.db) :
    r.attemptId ∈ pendingSubmissions limit s.db := by
  by_contra hout
  rw [h.judged, mem_expiredAttemptIds] at hjudged
  obtain ⟨b, hb, hexpired, hid⟩ := hjudged
  obtain ⟨a, ha, haid, -⟩ := (reachable_handed hr).attempts r hmem
  have ha₁ : a ∈ db₁.attempts := h.batch.attempts a ha (by rwa [haid])
  obtain rfl := h.keyed.eq ha₁ hb (haid.trans hid.symm)
  exact hout (hfit r hmem hopen a ha haid hexpired)

theorem GoesOn.kept (h : GoesOn P env limit s db₁ db₂ done)
    (hconsidered : ∀ r ∈ s.db.submissions, r.committedAt = none →
      r.attemptId ∈ judgedExpired P env limit s.db → r.attemptId ∈ pendingSubmissions limit s.db)
    {r : WorkerResultSubmission} (hmem : r ∈ (recoveryPass P env limit s.db).2.submissions)
    (hopen : r.committedAt = none) {a : ExecutionAttempt} (ha : a ∈ s.db.attempts)
    (hid : a.id = r.attemptId) : a ∈ (recoveryPass P env limit s.db).2.attempts ∨
      ∃ b ∈ (recoveryPass P env limit s.db).2.attempts, b.id = a.id ∧ b.status = .cancelled := by
  rw [h.regions.submissions, h.leases.submissions] at hmem
  obtain ⟨hstart, hkept⟩ := h.batch.pending r hmem hopen
  refine h.regions.cancels a (h.leases.stays a (hkept a ha hid) (Or.inl fun hdone => ?_))
  have hbatch := hconsidered r hstart hopen (hid ▸ h.initial.subset hdone)
  have hsettled := h.batch.settled rfl r hmem hbatch
  rw [hopen] at hsettled
  exact absurd hsettled Bool.false_ne_true

/-- A pass that ends well abandons the expired attempts whose submissions its batch does not hold. -/
theorem GoesOn.holds (h : GoesOn P env limit s db₁ db₂ done)
    (hok : (recoveryPass P env limit s.db).1.isOk) (hkeeps : KeepsResults P env limit s.db) :
    BatchHolds limit s.now s.db := by
  intro r hmem hopen a ha hid hexpired
  by_contra hout
  have hr₁ : r ∈ db₁.submissions := (h.batch.submissions r hout).2 hmem
  have ha₁ : a ∈ db₁.attempts := h.batch.attempts a ha (by rwa [hid])
  have hdone : a.id ∈ done := by
    rw [h.complete hok, h.judged]
    exact mem_expiredAttemptIds.2 ⟨a, ha₁, hexpired, rfl⟩
  obtain ⟨b, hb, hbid, hstatus⟩ := h.leases.abandoned a ha₁ hdone hexpired
  have hb := h.regions.closed b hb (by rw [hstatus]; rfl)
  have hr : r ∈ (recoveryPass P env limit s.db).2.submissions := by
    rwa [h.regions.submissions, h.leases.submissions]
  rcases hkeeps.kept r hr hopen a ha hid with ha | ⟨c, hc, hcid, hcancelled⟩
  · obtain rfl := h.ends.eq ha hb hbid.symm
    exact not_expired_of_abandoned hstatus hexpired
  · obtain rfl := h.ends.eq hc hb (hcid.trans hbid.symm)
    rw [hstatus] at hcancelled
    exact nomatch hcancelled

end Pass

/-- From every reachable state, a pass throws no accepted result away when its batch holds every
uncommitted submission whose attempt has expired, and a pass that ends well does so only then. -/
theorem recovery_keeps_results {env : CommitEnv} {s : State} (hr : (runtime P).Reachable s)
    (henv : env.of s) (resultCommitBatchSize : ℕ) :
    (BatchHolds resultCommitBatchSize s.now s.db →
        KeepsResults P env resultCommitBatchSize s.db) ∧
      ((recoveryPass P env resultCommitBatchSize s.db).1.isOk →
        KeepsResults P env resultCommitBatchSize s.db →
        BatchHolds resultCommitBatchSize s.now s.db) := by
  rcases recoveryPass_cases hr henv resultCommitBatchSize with
    ⟨hbatch, hjudged, herror⟩ | ⟨db₁, db₂, done, h⟩
  · refine ⟨fun _ => ⟨fun r _ _ hmem => ?_, fun r hmem hopen a ha hid => ?_⟩, fun hok => ?_⟩
    · rw [hjudged] at hmem
      exact absurd hmem List.not_mem_nil
    · exact Or.inl ((hbatch.pending r hmem hopen).2 a ha hid)
    · rw [herror] at hok
      exact absurd hok Bool.false_ne_true
  · refine ⟨fun hfit => ?_, h.holds⟩
    have hconsidered : ∀ r ∈ s.db.submissions, r.committedAt = none →
        r.attemptId ∈ judgedExpired P env resultCommitBatchSize s.db →
        r.attemptId ∈ pendingSubmissions resultCommitBatchSize s.db :=
      fun r hmem hopen hjudged => h.considered hr hfit hmem hopen hjudged
    exact ⟨hconsidered, fun r hmem hopen a ha hid => h.kept hconsidered hmem hopen ha hid⟩

/-- Two results are handed off before the leases of their attempts expire. -/
def twoResultsRun : List Action :=
  [.submit (plantCommand "start" "c"), .submit (plantCommand "start" "d"), poll, poll,
    .handoff (plantResult .completed 1006 1009 1010), .handoff (plantResult .completed 1011 1014 1015),
    .tick 5000]

theorem two_results_kept : ∃ s, runs samplePlatform plant twoResultsRun = some s ∧
    s.db.submissions.map (·.attemptId) = [1009, 1014] ∧
    (BatchHolds 2 s.now s.db →
        KeepsResults samplePlatform (commitEnv s plantStores true) 2 s.db) ∧
      ((recoveryPass samplePlatform (commitEnv s plantStores true) 2 s.db).1.isOk →
        KeepsResults samplePlatform (commitEnv s plantStores true) 2 s.db →
        BatchHolds 2 s.now s.db) := by
  have hsome : (runs samplePlatform plant twoResultsRun).map
      (fun s => s.db.submissions.map (·.attemptId)) = some [1009, 1014] := by decide +kernel
  obtain ⟨s, hs, hrows⟩ := Option.map_eq_some_iff.1 hsome
  exact ⟨s, hs, hrows, recovery_keeps_results (runs_reachable plant_reachable hs)
    (commitEnv_of s plantStores true) 2⟩

/-- A batch of one leaves the second result, and the pass abandons its attempt. -/
theorem second_result_abandoned : ¬∀ (P : Platform) (s : State) (env : CommitEnv) (limit : ℕ),
    (runtime P).Reachable s → env.of s → KeepsResults P env limit s.db := by
  intro hkeeps
  have hsome : (runs samplePlatform plant twoResultsRun).map (fun s =>
      let db := (recoveryPass samplePlatform (commitEnv s plantStores true) 1 s.db).2
      (db.submissions.any fun r => r.attemptId = 1014 && r.committedAt.isNone,
        s.db.attempts.any fun a => a.id = 1014 && a.status = .leased,
        db.attempts.all fun a => a.id ≠ 1014 || a.status = .abandoned)) =
      some (true, true, true) := by decide +kernel
  obtain ⟨s, hs, heq⟩ := Option.map_eq_some_iff.1 hsome
  obtain ⟨hrow, heq⟩ := Prod.mk.inj heq
  obtain ⟨hattempt, hall⟩ := Prod.mk.inj heq
  simp only [List.any_eq_true, List.all_eq_true, Bool.and_eq_true, Bool.or_eq_true,
    decide_eq_true_eq] at hrow hattempt hall
  obtain ⟨r, hr, hrid, hopen⟩ := hrow
  obtain ⟨a, ha, haid, hleased⟩ := hattempt
  have hkept := (hkeeps samplePlatform s (commitEnv s plantStores true) 1
    (runs_reachable plant_reachable hs) (commitEnv_of s plantStores true)).kept r hr
    (by simpa using hopen) a ha (haid.trans hrid.symm)
  rcases hkept with hmem | ⟨b, hb, hbid, hcancelled⟩
  · rcases hall a hmem with hne | habandoned
    · exact hne haid
    · rw [hleased] at habandoned
      exact nomatch habandoned
  · rcases hall b hb with hne | habandoned
    · exact hne (hbid.trans haid)
    · rw [hcancelled] at habandoned
      exact nomatch habandoned

end FactoryFloor
