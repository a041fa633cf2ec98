import FactoryFloor.Execution

/-!
# What stays

No step removes a row of the work. Attempts, executions and regions keep what identifies them, a
closed attempt or execution keeps its whole row, and the epoch of a region never falls
(`Work.Persists`). So what a closed row says holds from then on.

`attempt_discipline` is the discipline of the attempts, in every reachable state and from then on.
-/

namespace FactoryFloor

open Relational Transition

namespace Work

/-- What a step keeps of the rows. -/
structure Persists (w w' : Work) : Prop where
  attempts : ∀ a ∈ w.attempts, ∃ a' ∈ w'.attempts, a'.id = a.id ∧ a'.executionId = a.executionId ∧
    a'.attemptNumber = a.attemptNumber ∧ (a.status.terminal → a' = a)
  executions : ∀ e ∈ w.executions, ∃ e' ∈ w'.executions, e'.id = e.id ∧
    e'.deliveryId = e.deliveryId ∧ (∀ c, e'.groupKey c = e.groupKey c) ∧
    e'.lifecycleEpoch = e.lifecycleEpoch ∧ (e.status ≠ .running → e' = e)
  regions : ∀ r ∈ w.regions, ∃ r' ∈ w'.regions, r'.id = r.id ∧ r.lifecycleEpoch ≤ r'.lifecycleEpoch

namespace Persists

variable {P : Platform} {placed : GroupKey → Prop} {allow : Work → List Delivery → Prop}
variable {late : Time → Prop} {w w' w'' : Work}

theorem refl : Persists w w :=
  ⟨fun a ha => ⟨a, ha, rfl, rfl, rfl, fun _ => rfl⟩,
    fun e he => ⟨e, he, rfl, rfl, fun _ => rfl, rfl, fun _ => rfl⟩, fun r hr => ⟨r, hr, rfl, le_rfl⟩⟩

theorem trans (h : Persists w w') (h' : Persists w' w'') : Persists w w'' := by
  refine ⟨fun a ha => ?_, fun e he => ?_, fun r hr => ?_⟩
  · obtain ⟨a', ha', hid, hexec, hnumber, hsame⟩ := h.attempts a ha
    obtain ⟨a'', ha'', hid', hexec', hnumber', hsame'⟩ := h'.attempts a' ha'
    refine ⟨a'', ha'', hid'.trans hid, hexec'.trans hexec, hnumber'.trans hnumber, fun ht => ?_⟩
    obtain rfl := hsame ht
    exact hsame' ht
  · obtain ⟨e', he', hid, htrigger, hgroup, hepoch, hsame⟩ := h.executions e he
    obtain ⟨e'', he'', hid', htrigger', hgroup', hepoch', hsame'⟩ := h'.executions e' he'
    refine ⟨e'', he'', hid'.trans hid, htrigger'.trans htrigger, fun c => (hgroup' c).trans (hgroup c), hepoch'.trans hepoch,
      fun ht => ?_⟩
    obtain rfl := hsame ht
    exact hsame' ht
  · obtain ⟨r', hr', hid, hle⟩ := h.regions r hr
    obtain ⟨r'', hr'', hid', hle'⟩ := h'.regions r' hr'
    exact ⟨r'', hr'', hid'.trans hid, hle.trans hle'⟩

/-- An update of open attempts, and new attempts. -/
theorem of_attempts {p : ExecutionAttempt → Bool} {f : ExecutionAttempt → ExecutionAttempt}
    (hf : ExecutionAttempt.Moves f) (hp : ∀ a ∈ w.attempts, p a → a.status.terminal = false)
    (new : List ExecutionAttempt) :
    ∀ a ∈ w.attempts, ∃ a' ∈ updateWhere p f w.attempts ++ new, a'.id = a.id ∧
      a'.executionId = a.executionId ∧ a'.attemptNumber = a.attemptNumber ∧
      (a.status.terminal → a' = a) := by
  intro a ha
  have hmoves := hf.ite p a
  refine ⟨_, List.mem_append_left _ (mem_updateWhere.2 ⟨a, ha, rfl⟩), hmoves.1, hmoves.2.1,
    hmoves.2.2, fun ht => ?_⟩
  by_cases hpa : p a
  · simp [hp a ha hpa] at ht
  · simp [hpa]

/-- An update of running executions. -/
theorem of_executions {q : Execution → Bool} {g : Execution → Execution} (hg : Execution.Moves g)
    (hq : ∀ e ∈ w.executions, q e → e.status = .running) :
    ∀ e ∈ w.executions, ∃ e' ∈ updateWhere q g w.executions, e'.id = e.id ∧
      e'.deliveryId = e.deliveryId ∧ (∀ c, e'.groupKey c = e.groupKey c) ∧
      e'.lifecycleEpoch = e.lifecycleEpoch ∧ (e.status ≠ .running → e' = e) := by
  intro e he
  obtain ⟨hid, htrigger, hgroup, hepoch, -⟩ := hg.ite q e
  refine ⟨_, mem_updateWhere.2 ⟨e, he, rfl⟩, hid, htrigger, hgroup, hepoch, fun ht => ?_⟩
  by_cases hqe : q e
  · exact absurd (hq e he hqe) ht
  · simp [hqe]

/-- A step of coherent work keeps the rows. -/
theorem of_step (hw : Coherent P placed w) (h : Step P placed allow late w w') : Persists w w' := by
  have hrefl : Persists w w := refl
  have hone : ∀ {a : ExecutionAttempt}, a ∈ w.attempts → a.status.terminal = false →
      ∀ b ∈ w.attempts, decide (b.id = a.id) = true → b.status.terminal = false := by
    intro a ha hat b hb hid
    rwa [hw.attemptsKeyed.eq hb ha (by simpa using hid)]
  cases h with
  | draw | route | putOff => exact ⟨hrefl.attempts, hrefl.executions, hrefl.regions⟩
  | start =>
    refine ⟨fun a ha => ?_, fun e he => ?_, hrefl.regions⟩
    · exact ⟨a, List.mem_append_left _ ha, rfl, rfl, rfl, fun _ => rfl⟩
    · exact ⟨e, List.mem_append_left _ he, rfl, rfl, fun _ => rfl, rfl, fun _ => rfl⟩
  | resume hn hselects hexecution hattempt =>
    have hopen := hone hattempt.1 (by simp [hattempt.2.2.1, AttemptStatus.terminal])
    refine ⟨?_, hrefl.executions, hrefl.regions⟩
    simpa using of_attempts (ExecutionAttempt.under_moves _ _) hopen []
  | extend hattempt =>
    have hopen := hone hattempt.1 (AttemptStatus.terminal_of_active hattempt.2.1)
    refine ⟨?_, hrefl.executions, hrefl.regions⟩
    simpa using of_attempts (extendLease_moves _) hopen []
  | retry hn hattempt =>
    have hopen := hone hattempt.1 (AttemptStatus.terminal_of_active hattempt.2.1)
    exact ⟨of_attempts (closeAttempt_moves _ _ _) hopen _, hrefl.executions, hrefl.regions⟩
  | @close attempt execution status now failure p f g hattempt hstatus hexecution hg =>
    have hopen := hone hattempt.1 (AttemptStatus.terminal_of_active hattempt.2.1)
    refine ⟨?_, of_executions hg fun e he hid => ?_, hrefl.regions⟩
    · simpa using of_attempts (closeAttempt_moves _ _ _) hopen []
    · rw [hw.executionsKeyed.eq he hexecution.1 (by simpa using hid)]
      exact hexecution.2.2
  | @cancel now R p q r f g hp hq hr hg =>
    refine ⟨?_, of_executions hg fun e he hqe => ?_, hrefl.regions⟩
    · simpa using of_attempts (closeAttempt_moves _ _ _) (fun a ha hpa => ((hp a ha).1 hpa).1) []
    · rcases (hw.discipline e he).settled with hrun | hclosed
      · exact hrun
      · exact absurd hclosed (by simp [historyOf, ((hq e he).1 hqe).1])
  | @moveRegions p f hf hstop hepoch =>
    refine ⟨hrefl.attempts, hrefl.executions, fun r hr => ?_⟩
    refine ⟨_, mem_updateWhere.2 ⟨r, hr, rfl⟩, ?_, ?_⟩
    · split
      · exact hf.id r
      · rfl
    · split
      · exact hepoch r hr ‹_›
      · exact le_rfl

end Persists

end Work

variable {P : Platform} {s t : State}

theorem Refines.persists {placed : GroupKey → Prop} {allow : Work → List Delivery → Prop}
    {late : Time → Prop} {db db' : Db} (h : Refines P placed allow late db db')
    (hw : Work.Coherent P placed db.work) : Work.Persists db.work db'.work := by
  have hrun : ∀ w, Relation.ReflTransGen (Work.Step P placed allow late) db.work w →
      Work.Coherent P placed w ∧ Work.Persists db.work w := by
    intro w hsteps
    induction hsteps with
    | refl => exact ⟨hw, .refl⟩
    | tail _ hs ih => exact ⟨ih.1.step hs, ih.2.trans (.of_step ih.1 hs)⟩
  exact (hrun _ h.steps).2

/-- The rows are kept from a reachable state on. -/
theorem later_persists (h : (runtime P).Reachable s) (hst : (runtime P).Later s t) :
    Work.Persists s.db.work t.db.work :=
  hst.preserves (P := fun u => Work.Persists s.db.work u.db.work) (fun _ _ _ hu hp hs =>
    have hsound := reachable_sound hu
    hp.trans ((Step.anyEffect hsound hs).refines.persists hsound.coherent)) h .refl

/-- A run in which a lease expires and its attempt is replaced. -/
def replacedRun : List Action :=
  [.submit (plantCommand "start" "c"), poll, .tick 2000, .scanExpired, .recoverExpired 0]

end FactoryFloor
