import FactoryFloor.Execution

/-!
# Who owns a delivery

A delivery should be an input of one running execution at most, and its status should follow that
execution's attempt : leased under the attempt's lease while the attempt is active, ready while a
retry is pending (`Db.Owned`). An active attempt does hold its inputs in every run. The rest fails
when a poll starts an execution with a delivery of a pending retry, which a late delivery at an
optional port brings about (`delivery_shared`).

`deliveries_owned` says that this is the only way : in a run whose polls start no execution with a
delivery of a running one (`startsFree`), every delivery is owned.
-/

namespace FactoryFloor

open Relational Transition

namespace Work

variable {P : Platform} {placed : GroupKey → Prop} {late : Time → Prop} {w w' : Work}

/-- Running executions share no input, and the inputs of a pending retry are ready. -/
structure Owned (w : Work) : Prop where
  exclusive : ∀ e ∈ w.executions, ∀ f ∈ w.executions, e.status = .running → f.status = .running →
    ∀ id, w.IsInput e.id id → w.IsInput f.id id → e = f
  ready : ∀ a ∈ w.attempts, a.status = .pending → ∀ d ∈ w.deliveries,
    w.IsInput a.executionId d.id → d.status = .ready

/-- No running execution has one of the deliveries. -/
def Free (w : Work) (selected : List Delivery) : Prop :=
  ∀ d ∈ selected, ∀ e ∈ w.executions, e.status = .running → ¬w.IsInput e.id d.id

/-! ## Steps -/

/-- Open attempts have different inputs. -/
theorem Owned.apart (h : Owned w) (hw : Coherent P placed w) {a b : ExecutionAttempt}
    (ha : a ∈ w.attempts) (hb : b ∈ w.attempts) (hat : a.status.terminal = false)
    (hbt : b.status.terminal = false) (hab : a ≠ b) {id : Uuid} (hid : w.IsInput a.executionId id) :
    ¬w.IsInput b.executionId id := by
  intro hid'
  obtain ⟨e, he, hea⟩ := hw.attemptExecution a ha
  obtain ⟨f, hf, hfb⟩ := hw.attemptExecution b hb
  obtain ⟨herun, -⟩ := hw.toLeases.split_of_mem he ha hea hat
  obtain ⟨hfrun, -⟩ := hw.toLeases.split_of_mem hf hb hfb hbt
  obtain rfl := h.exclusive e he f hf herun hfrun id (hea ▸ hid) (hfb ▸ hid')
  exact hab (hw.toLeases.eq_of_not_terminal he ha hb hea hfb hat hbt)

/-- Executions that only close still share no input. -/
theorem Owned.exclusive_of (h : Owned w) (hkeyed : Keyed (·.id) w'.executions)
    (hinputs : w'.inputs = w.inputs) (hrunning : ∀ e' ∈ w'.executions, e'.status = .running →
      ∃ e ∈ w.executions, e.status = .running ∧ e.id = e'.id) :
    ∀ e ∈ w'.executions, ∀ f ∈ w'.executions, e.status = .running → f.status = .running →
      ∀ id, w'.IsInput e.id id → w'.IsInput f.id id → e = f := by
  intro e' he' f' hf' herun' hfrun' id hid hid'
  obtain ⟨e, he, herun, heid⟩ := hrunning e' he' herun'
  obtain ⟨f, hf, hfrun, hfid⟩ := hrunning f' hf' hfrun'
  have hin : ∀ x, w'.IsInput x id ↔ w.IsInput x id := fun x => by simp [IsInput, hinputs]
  rw [hin, ← heid] at hid
  rw [hin, ← hfid] at hid'
  obtain rfl := h.exclusive e he f hf herun hfrun id hid hid'
  exact hkeyed.eq he' hf' (heid.symm.trans hfid)

/-- The inputs of a pending attempt stay ready while other deliveries are updated. -/
theorem Owned.ready_of (h : Owned w) {p : Delivery → Bool} {f : Delivery → Delivery}
    (hf : Delivery.Moves f) {a : ExecutionAttempt} (ha : a ∈ w.attempts) (hpending : a.status = .pending)
    (hother : ∀ d ∈ w.deliveries, w.IsInput a.executionId d.id → ¬p d) :
    ∀ d ∈ updateWhere p f w.deliveries, w.IsInput a.executionId d.id → d.status = .ready := by
  intro d' hd' hid
  obtain ⟨d, hd, rfl⟩ := mem_updateWhere.1 hd'
  rw [(hf.ite p d).1] at hid
  rw [if_neg (hother d hd hid)]
  exact h.ready a ha hpending d hd hid

/-- A step that moves an open attempt and its inputs leaves the inputs of the others ready. -/
theorem Owned.ready_touch (h : Owned w) (hw : Coherent P placed w) {a : ExecutionAttempt}
    (ha : a ∈ w.attempts) (hat : a.status.terminal = false)
    {g : ExecutionAttempt → ExecutionAttempt} (hg : (g a).status ≠ .pending)
    {p : Delivery → Bool} {f : Delivery → Delivery} (hf : Delivery.Moves f)
    (hp : ∀ d ∈ w.deliveries, p d → w.IsInput a.executionId d.id) :
    ∀ b ∈ updateWhere (·.id = a.id) g w.attempts, b.status = .pending →
      ∀ d ∈ updateWhere p f w.deliveries, w.IsInput b.executionId d.id → d.status = .ready := by
  intro b hb hpending
  rcases (hw.attemptsKeyed.mem_updateWhere ha).1 hb with rfl | ⟨hb, hid⟩
  · exact absurd hpending hg
  have hbt : b.status.terminal = false := by simp [hpending, AttemptStatus.terminal]
  have hne : a ≠ b := fun hab => hid (by rw [hab])
  exact h.ready_of hf hb hpending fun d hd hin hpd =>
    h.apart hw ha hb hat hbt hne (hp d hd hpd) hin

theorem Owned.step (h : Owned w) (hw : Coherent P placed w) (hs : Step P placed Free late w w') :
    Owned w' := by
  have hkeyed := (hw.step hs).executionsKeyed
  have hsame : ∀ e ∈ w.executions, e.status = .running → ∃ e' ∈ w.executions,
      e'.status = .running ∧ e'.id = e.id := fun e he herun => ⟨e, he, herun, rfl⟩
  have hclosing : ∀ {q : Execution → Bool} {g : Execution → Execution},
      (∀ e, (g e).status.terminal) → ∀ e' ∈ updateWhere q g w.executions, e'.status = .running →
        ∃ e ∈ w.executions, e.status = .running ∧ e.id = e'.id := by
    intro q g hclosed e' he' herun
    obtain ⟨e, he, rfl⟩ := mem_updateWhere.1 he'
    split at herun
    · exact absurd herun (ExecutionStatus.ne_running_of_terminal (hclosed e))
    · rename_i hq
      exact ⟨e, he, herun, by simp [hq]⟩
  cases hs with
  | draw => exact ⟨h.exclusive, h.ready⟩
  | moveRegions => exact ⟨h.exclusive, h.ready⟩
  | route hn hnew =>
    refine ⟨h.exclusive, fun a ha hpending d hd hid => ?_⟩
    rcases List.mem_append.1 hd with hd | hd
    · exact h.ready a ha hpending d hd hid
    · exact (hnew d hd).1
  | @putOff p t hp =>
    refine ⟨h.exclusive, fun a ha hpending d' hd' hid => ?_⟩
    obtain ⟨d, hd, rfl⟩ := mem_updateWhere.1 hd'
    rw [((Delivery.putOff_moves t).ite p d).1] at hid
    have := h.ready a ha hpending d hd hid
    split <;> exact this
  | @start group selected region execution attempt lease inputs n hn hfree hselects hregion hgroup
      hexecution hexecutionId hattempt hattemptId htoken hlate hinputs hvalid =>
    -- The new execution has the selected deliveries, which no running one has.
    have hold : ∀ e ∈ w.executions, ∀ id, (∃ i ∈ inputs, i.executionId = e.id ∧ i.deliveryId = id) →
        w.IsInput e.id id := by
      rintro e he id ⟨i, hi, hie, hid⟩
      rcases (hinputs i).1 hi with hi | ⟨d, -, rfl⟩
      · exact ⟨i, hi, hie, hid⟩
      · exact absurd hie.symm ((hw.executionDrawn e he).ne hexecutionId le_rfl)
    have hnew : ∀ id, (∃ i ∈ inputs, i.executionId = execution.id ∧ i.deliveryId = id) →
        ∃ d ∈ selected, d.id = id := by
      rintro id ⟨i, hi, hie, hid⟩
      rcases (hinputs i).1 hi with hi | ⟨d, hd, rfl⟩
      · obtain ⟨f, hf, hfid⟩ := hw.inputExecution i hi
        exact absurd (hfid.trans hie) ((hw.executionDrawn f hf).ne hexecutionId le_rfl)
      · exact ⟨d, hd, hid⟩
    have hapart : ∀ e ∈ w.executions, e.status = .running → ∀ id,
        (∃ i ∈ inputs, i.executionId = e.id ∧ i.deliveryId = id) →
        ¬∃ i ∈ inputs, i.executionId = execution.id ∧ i.deliveryId = id := by
      intro e he herun id hid hid'
      obtain ⟨d, hd, rfl⟩ := hnew id hid'
      exact hfree d hd e he herun (hold e he d.id hid)
    refine ⟨fun e he f hf herun hfrun id hid hid' => ?_, fun a ha hpending d' hd' hid => ?_⟩
    · rcases List.mem_append.1 he with he₁ | he₁ <;> rcases List.mem_append.1 hf with hf₁ | hf₁
      · exact h.exclusive e he₁ f hf₁ herun hfrun id (hold e he₁ id hid) (hold f hf₁ id hid')
      · obtain rfl := List.mem_singleton.1 hf₁
        exact absurd hid' (hapart e he₁ herun id hid)
      · obtain rfl := List.mem_singleton.1 he₁
        exact absurd hid (hapart f hf₁ hfrun id hid')
      · exact (List.mem_singleton.1 he₁).trans (List.mem_singleton.1 hf₁).symm
    · rcases List.mem_append.1 ha with ha | ha
      swap
      · obtain rfl := List.mem_singleton.1 ha
        simp [hattempt.2.2.1] at hpending
      obtain ⟨e, he, hea⟩ := hw.attemptExecution a ha
      have herun := (hw.toLeases.split_of_mem he ha hea
        (by simp [hpending, AttemptStatus.terminal])).1
      have hother : ∀ d ∈ w.deliveries, w.IsInput a.executionId d.id →
          ¬decide (d.id ∈ selected.map (·.id)) := by
        intro d hd hin hmem
        exact hfree d (hw.toRows.mem_selected hselects hd (of_decide_eq_true hmem)) e he herun
          (hea ▸ hin)
      exact h.ready_of (Delivery.under_moves lease) ha hpending hother d' hd'
        (hea ▸ hold e he d'.id (hea ▸ hid))
  | @resume group selected execution attempt lease now n hn hselects hexecution hattempt =>
    have hat : attempt.status.terminal = false := by simp [hattempt.2.2.1, AttemptStatus.terminal]
    refine ⟨h.exclusive_of hkeyed rfl hsame, h.ready_touch hw hattempt.1 hat
      (by simp [ExecutionAttempt.under]) (Delivery.under_moves lease) fun d hd hmem => ?_⟩
    rw [hattempt.2.1]
    exact (hw.toRows.isInput_selected hexecution.1 hexecution.2.2 d.id).2 (of_decide_eq_true hmem)
  | @extend attempt lease t p hattempt hlate hp =>
    have hat := AttemptStatus.terminal_of_active hattempt.2.1
    refine ⟨h.exclusive_of hkeyed rfl hsame, h.ready_touch hw hattempt.1 hat
      (by simp [extendLease]) (Delivery.extend_moves lease t) fun d hd => (hp d hd).1⟩
  | @retry attempt next execution status now failure p f n hn hattempt hstatus hexecution hnext hp hf
      hready =>
    have hat := AttemptStatus.terminal_of_active hattempt.2.1
    refine ⟨h.exclusive_of hkeyed rfl hsame, fun b hb hpending d' hd' hid => ?_⟩
    rcases List.mem_append.1 hb with hb | hb
    · refine h.ready_touch hw hattempt.1 hat (fun hclosed => ?_) hf (fun d hd => (hp d hd).1) b hb
        hpending d' hd' hid
      rw [show status = .pending from hclosed] at hstatus
      simp [AttemptStatus.terminal] at hstatus
    · -- the retry has the inputs of the attempt that ended
      obtain rfl := List.mem_singleton.1 hb
      obtain ⟨d, hd, rfl⟩ := mem_updateWhere.1 hd'
      rw [(hf.ite p d).1, hnext.1, hexecution.2.1] at hid
      rw [if_pos ((hp d hd).2 hid)]
      exact hready d
  | @close attempt execution status now failure p f g hattempt hstatus hexecution hg hclosed hp hf =>
    have hat := AttemptStatus.terminal_of_active hattempt.2.1
    refine ⟨h.exclusive_of hkeyed rfl (hclosing hclosed), h.ready_touch hw hattempt.1 hat
      (fun hpending => ?_) hf fun d hd => (hp d hd).1⟩
    rw [show status = .pending from hpending] at hstatus
    simp [AttemptStatus.terminal] at hstatus
  | @cancel now R p q r f g hp hq hr hg hclosed hf =>
    refine ⟨h.exclusive_of hkeyed rfl (hclosing hclosed), fun a' ha' hpending => ?_⟩
    obtain ⟨a, ha, rfl⟩ := mem_updateWhere.1 ha'
    split at hpending
    · simp [closeAttempt] at hpending
    rename_i hpa
    rw [if_neg hpa]
    obtain ⟨e, he, hea⟩ := hw.attemptExecution a ha
    refine h.ready_of hf ha hpending fun d hd hin hrd => hpa ((hp a ha).2
      ⟨by simp [hpending, AttemptStatus.terminal], ?_⟩)
    exact hea ▸ ((hr d hd e he (hea ▸ hin)).1 hrd).2

end Work

variable {P : Platform} {s : State} {l : Label} {db db₁ : Db} {now : Time}

/-! ## Runs -/

/-- A delivery is an input of one running execution at most. While an attempt of that execution is
active, the delivery is leased under the attempt's lease, and while a retry is pending it is ready. -/
structure Db.Owned (db : Db) : Prop where
  once : ∀ d ∈ db.deliveries, ∀ e ∈ db.executions, ∀ f ∈ db.executions, e.status = .running →
    f.status = .running → db.work.IsInput e.id d.id → db.work.IsInput f.id d.id → e = f
  leased : ∀ e ∈ db.executions, e.status = .running → ∀ a ∈ db.attempts, a.executionId = e.id →
    a.status.active → ∀ d ∈ db.deliveries, db.work.IsInput e.id d.id →
    d.status = .leased ∧ d.lease = a.lease
  ready : ∀ e ∈ db.executions, e.status = .running → ∀ a ∈ db.attempts, a.executionId = e.id →
    a.status = .pending → ∀ d ∈ db.deliveries, db.work.IsInput e.id d.id → d.status = .ready

/-- A poll starts no execution with a delivery of a running one. -/
def StartsFree (P : Platform) (s : State) (l : Label) : Prop :=
  Allows P Work.Free s l

theorem Initial.owned (h : Initial P s) : s.db.work.Owned := by
  constructor <;> simp [Db.work, h.executions, h.attempts]

/-- In every run whose polls start free executions, the inputs are owned. -/
theorem reachable_owned (h : ((runtime P).restrict (StartsFree P)).Reachable s) :
    s.db.work.Owned := by
  refine h.invariant_of (I := fun s => s.db.work.Owned) (fun s hinit => Initial.owned hinit)
    fun s l t hr hs hst => ?_
  have hsound := reachable_sound hr.of_restrict
  have hrefines := (Step.effect hsound hst.2 hst.1).refines
  have hboth : Work.Coherent P s.db.Placed t.db.work ∧ t.db.work.Owned :=
    hrefines.invariant (I := fun w => Work.Coherent P s.db.Placed w ∧ w.Owned)
      (fun w w' hw hstep => ⟨hw.1.step hstep, hw.2.step hw.1 hstep⟩) ⟨hsound.coherent, hs⟩
  exact hboth.2

theorem deliveries_owned (h : ((runtime P).restrict (StartsFree P)).Reachable s) : s.db.Owned := by
  have howned := reachable_owned h
  have hw := (reachable_sound h.of_restrict).coherent
  refine ⟨fun d _ e he f hf herun hfrun => howned.exclusive e he f hf herun hfrun d.id,
    fun e _ _ a ha hae hactive d hd hid => ?_, fun e _ _ a ha hae hpending d hd hid => ?_⟩
  · exact hw.held a ha hactive d hd (hae.symm ▸ hid)
  · exact howned.ready a ha hpending d hd (hae.symm ▸ hid)

/-- A poll of one candidate leases at once. -/
theorem LeasesAt.eq_of_length {options : LeaseNextAttemptOptions} {acquired : GroupKey → Bool}
    {c : Delivery} (h : LeasesAt P now options acquired c db db₁)
    (hone : (candidates now options.componentSelectors db).length = 1) : db₁ = db := by
  obtain ⟨pre, post, hsplit, htried⟩ := h.tried
  rw [hsplit, List.length_append, List.length_cons] at hone
  obtain rfl := List.length_eq_zero_iff.1 (show pre.length = 0 by omega)
  exact (Prod.mk.inj (Except.ok.inj htried)).2.symm

/-- The first lease of the plant. -/
theorem deliveries_owned_plant : ∃ s : State,
    s.db.executions.map (·.status) = [.running] ∧ s.db.Owned := by
  obtain ⟨s, t, hsubmit, hpoll, hone, hnone, hrunning⟩ : ∃ s t,
      act samplePlatform plant (.submit (plantCommand "start" "c")) =
        some (.submit (plantCommand "start" "c"), s) ∧
      act samplePlatform s poll = some (.lease ⟨"worker", 1000, none⟩ (fun _ => true), t) ∧
      (candidates s.now none s.db).length = 1 ∧ s.db.executions = [] ∧
      t.db.executions.map (·.status) = [.running] := ⟨_, _, rfl, rfl, rfl, rfl, rfl⟩
  have hstart : ((runtime samplePlatform).restrict (StartsFree samplePlatform)).Reachable plant :=
    .start (deploy_initial (by decide))
  have hsubmitted := hstart.next ⟨act_step hsubmit, fun _ _ h => by simp at h⟩
  refine ⟨t, hrunning, deliveries_owned (hsubmitted.next ⟨act_step hpoll, ?_⟩)⟩
  intro options acquired hlabel c db hleases selected hstarts d hd e he
  obtain ⟨rfl, -⟩ := Label.lease.inj hlabel
  rw [hleases.eq_of_length hone, show s.db.work.executions = [] from hnone] at he
  exact absurd he List.not_mem_nil

/-- A delivery at an optional port is put off when the first attempt is leased, and due when its
retry is. The retry's delivery then gets a second execution, and the retry is no longer ready. -/
theorem delivery_shared : ∃ s, (runtime samplePlatform).Reachable s ∧ ¬s.db.Owned := by
  have hsome : (runs samplePlatform plant
      [.submit (plantCommand "extra" "c"), poll, .submit (plantCommand "start" "c"), poll,
        .tick 2000, .scanExpired, .recoverExpired 0, poll]).map
      (fun s => (s.db.executions.map fun e => (e.id, e.status),
        s.db.deliveries.map (·.id), s.db.inputs.map fun i => (i.executionId, i.deliveryId))) =
      some ([(1006, .running), (1012, .running)], [1002, 1005],
        [(1006, 1005), (1012, 1005), (1012, 1002)]) := rfl
  obtain ⟨s, hs, hfacts⟩ := Option.map_eq_some_iff.1 hsome
  obtain ⟨hexecutions, hrest⟩ := Prod.mk.inj hfacts
  obtain ⟨hdeliveries, hinputs⟩ := Prod.mk.inj hrest
  refine ⟨s, runs_reachable plant_reachable hs, fun howned => ?_⟩
  have hexecution : ∀ x ∈ [((1006 : Uuid), ExecutionStatus.running), (1012, .running)],
      ∃ e ∈ s.db.executions, (e.id, e.status) = x := fun x hx => List.mem_map.1 (hexecutions ▸ hx)
  have hinput : ∀ x ∈ [((1006 : Uuid), (1005 : Uuid)), (1012, 1005)],
      ∃ i ∈ s.db.inputs, (i.executionId, i.deliveryId) = x := fun x hx => by
    refine List.mem_map.1 (hinputs ▸ ?_)
    exact List.mem_of_mem_take (i := 2) hx
  obtain ⟨e, he, heq⟩ := hexecution (1006, .running) (by simp)
  obtain ⟨f, hf, hfeq⟩ := hexecution (1012, .running) (by simp)
  obtain ⟨i, hi, hieq⟩ := hinput (1006, 1005) (by simp)
  obtain ⟨j, hj, hjeq⟩ := hinput (1012, 1005) (by simp)
  obtain ⟨d, hd, hid⟩ := List.mem_map.1 (show 1005 ∈ s.db.deliveries.map (·.id) by simp [hdeliveries])
  simp only [Prod.mk.injEq] at heq hfeq hieq hjeq
  have hsame := howned.once d hd e he f hf heq.2 hfeq.2
    ⟨i, hi, hieq.1.trans heq.1.symm, hieq.2.trans hid.symm⟩
    ⟨j, hj, hjeq.1.trans hfeq.1.symm, hjeq.2.trans hid.symm⟩
  exact absurd (heq.1.symm.trans (hsame ▸ hfeq.1)) (by decide)

end FactoryFloor
