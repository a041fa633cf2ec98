import FactoryFloor.AtMostOnce

/-!
# Fencing

A step that adds to the publication of an attempt is a commit, and the commit has checked the
authority of its submission in the state before the step (`Step.publisher`). A closed attempt, a
replaced attempt, and one whose region is in a later epoch than its execution are `Fenced` : some
fact of the check fails, and it fails from then on.
-/

namespace FactoryFloor

open Relational Transition

variable {P : Platform} {s t : State} {l : Label}

/-- What is published for an attempt is published by a commit of its own submission, which has
authority. -/
theorem Step.publisher (hs : Sound P s) (h : Step P s l t) {attemptId : Uuid}
    (hne : t.db.publication attemptId ≠ s.db.publication attemptId) :
    ∃ env content digest locked, l = .commit env content digest ∧ content.attemptId = attemptId ∧
      Authorized env content s.db locked := by
  rcases (h.anyEffect hs).publishes with
    hquiet | ⟨env, content, digest, disposition, locked, db₁, db₂, rfl, -, hc⟩
  · exact absurd (hquiet.publication attemptId) hne
  · refine ⟨env, content, digest, locked, rfl, ?_, hc.authorized⟩
    by_contra hother
    obtain ⟨w, dbw, hwrote, hends, -, -⟩ :=
      hc.ends hs.coherent hs.backed (connectionsPlaced hs.coherent hs.wellFormed)
    obtain ⟨first, -, hdescribes⟩ := hwrote.describes
    exact hne ((hends.publication hs.backed (hc.not_committed hs.backed) hdescribes).2 _
      (Ne.symm hother))

/-- An attempt that is closed, or replaced by a later attempt of its execution, or whose region is
in a later epoch. -/
def Fenced (db : Db) (attemptId : Uuid) : Prop :=
  ∃ a ∈ db.attempts, a.id = attemptId ∧
    (a.status.terminal ∨
      (∃ b ∈ db.attempts, b.executionId = a.executionId ∧ a.attemptNumber < b.attemptNumber) ∨
      ∃ e ∈ db.executions, e.id = a.executionId ∧ ∃ r ∈ db.regions, r.id = e.regionId ∧
        e.lifecycleEpoch < r.lifecycleEpoch)

/-- A fenced attempt stays fenced. -/
theorem Fenced.persists {db db' : Db} {attemptId : Uuid} (h : Fenced db attemptId)
    (hp : Work.Persists db.work db'.work) : Fenced db' attemptId := by
  obtain ⟨a, ha, hid, hfenced⟩ := h
  obtain ⟨a', ha', hid', hexec, hnumber, hsame⟩ := hp.attempts a ha
  refine ⟨a', ha', hid'.trans hid, ?_⟩
  rcases hfenced with hclosed | ⟨b, hb, hbe, hlt⟩ | ⟨e, he, heid, r, hr, hrid, hlt⟩
  · rw [hsame hclosed]
    exact Or.inl hclosed
  · obtain ⟨b', hb', -, hbe', hbn, -⟩ := hp.attempts b hb
    exact Or.inr (Or.inl ⟨b', hb', hbe'.trans (hbe.trans hexec.symm), by rwa [hnumber, hbn]⟩)
  · obtain ⟨e', he', heid', -, hgroup, hepoch, -⟩ := hp.executions e he
    obtain ⟨r', hr', hrid', hle⟩ := hp.regions r hr
    have hregion : e'.regionId = e.regionId := congrArg GroupKey.regionId (hgroup (.other ""))
    exact Or.inr (Or.inr ⟨e', he', heid'.trans (heid.trans hexec.symm), r', hr',
      hrid'.trans (hrid.trans hregion.symm), by rw [hepoch]; exact hlt.trans_le hle⟩)

/-- A submission of a fenced attempt has no authority. -/
theorem Fenced.not_authorized (hs : Sound P s) {env : CommitEnv} {content : ProposedExecutionResult}
    {locked : Locked} (hfenced : Fenced s.db content.attemptId)
    (h : Authorized env content s.db locked) : False := by
  have hw := hs.coherent
  obtain ⟨a, ha, hid, hfenced⟩ := hfenced
  obtain ⟨hmem, haid, hexec⟩ := h.attempt
  obtain rfl : locked.attempt = a := hw.attemptsKeyed.eq hmem ha (haid.trans hid.symm)
  have hopen := AttemptStatus.terminal_of_active h.active
  obtain ⟨he, heid⟩ := mem_of_find?_key h.execution
  have hea : locked.execution.id = locked.attempt.executionId := heid.trans hexec.symm
  rcases hfenced with hclosed | ⟨b, hb, hbe, hlt⟩ | ⟨e, hemem, hee, r, hr, hrid, hlt⟩
  · simp [hclosed] at hopen
  · exact absurd (hw.toLeases.number_le he ha hb hea (hbe.trans hea.symm) hopen) (not_le.2 hlt)
  · obtain rfl : e = locked.execution := hw.executionsKeyed.eq hemem he (hee.trans hea.symm)
    obtain ⟨hrmem, hrid'⟩ := mem_of_find?_key h.region
    obtain rfl : r = locked.region := hs.wellFormed.regions.eq hr hrmem (hrid.trans hrid'.symm)
    rw [h.executionEpoch, h.regionEpoch] at hlt
    exact lt_irrefl _ hlt

/-- A fenced attempt publishes nothing more. -/
theorem Fenced.publication_later (h : (runtime P).Reachable s) {attemptId : Uuid}
    (hfenced : Fenced s.db attemptId) (hst : (runtime P).Later s t) :
    t.db.publication attemptId = s.db.publication attemptId := by
  refine (hst.preserves (P := fun u => Fenced u.db attemptId ∧
    u.db.publication attemptId = s.db.publication attemptId) (fun u l v hu hp hs => ?_) h
    ⟨hfenced, rfl⟩).2
  have hsound := reachable_sound hu
  refine ⟨hp.1.persists ((Step.anyEffect hsound hs).refines.persists hsound.coherent), ?_⟩
  by_contra hne
  rw [← hp.2] at hne
  obtain ⟨env, content, digest, locked, -, rfl, hauthorized⟩ := Step.publisher hsound hs hne
  exact hp.1.not_authorized hsound hauthorized

/-- Fencing : only a commit with current authority publishes, and a fenced attempt never does. -/
structure Fencing (P : Platform) (s : State) : Prop where
  authorized : ∀ l t attemptId, Step P s l t →
    t.db.publication attemptId ≠ s.db.publication attemptId →
    ∃ env content digest locked, l = .commit env content digest ∧ content.attemptId = attemptId ∧
      Authorized env content s.db locked
  fenced : ∀ attemptId, Fenced s.db attemptId → ∀ t, (runtime P).Later s t →
    t.db.publication attemptId = s.db.publication attemptId

theorem fencing (h : (runtime P).Reachable s) : Fencing P s :=
  ⟨fun _ _ _ hst => hst.publisher (reachable_sound h), fun _ hfenced _ hst =>
    hfenced.publication_later h hst⟩

theorem fencing_replaced : ∃ s, runs samplePlatform plant replacedRun = some s ∧
    s.db.attempts.map (fun a => (a.id, a.status)) = [(1006, .abandoned), (1008, .pending)] ∧
    Fencing samplePlatform s := by
  have hsome : (runs samplePlatform plant replacedRun).map
      (fun s => s.db.attempts.map fun a => (a.id, a.status)) =
      some [(1006, .abandoned), (1008, .pending)] := rfl
  obtain ⟨s, hs, hrows⟩ := Option.map_eq_some_iff.1 hsome
  exact ⟨s, hs, hrows, fencing (runs_reachable plant_reachable hs)⟩

end FactoryFloor
