import FactoryFloor.Charges

/-!
# External actions of a cancelled run

`cancelRun` closes the executions of a run with their attempts, and cancels its deliveries. It
changes nothing that `prepareDispatch` checks : neither the actions, nor the region of the run, nor
the epochs of its executions. So an action that is authorized, or that is authorized by a later
decision, is still dispatched after the run has been cancelled.

`cancelled_dispatches_nothing` is about the cancellations that find no such action
(`nothingToDispatch`). A closed execution proposes no more actions, and a region that has stopped
does not run again, so then no action of the run is dispatched from there on.
-/

namespace FactoryFloor

open Relational Transition

/-! ## Closed work -/

namespace Work

variable {P : Platform} {placed : GroupKey → Prop} {allow : Work → List Delivery → Prop}
variable {late : Time → Prop} {w w' : Work}

/-- Deliveries that are all done with, and whose executions are closed. -/
structure Closed (w : Work) (ids : Uuid → Prop) : Prop where
  known : ∀ id, ids id → ∃ d ∈ w.deliveries, d.id = id
  deliveries : ∀ d ∈ w.deliveries, ids d.id → d.status.terminal
  executions : ∀ e ∈ w.executions, ids e.deliveryId → e.status ≠ .running

/-- Deliveries stay closed under an update that keeps what is closed. -/
theorem Closed.updateDeliveries {ids : Uuid → Prop} (h : w.Closed ids) {p : Delivery → Bool}
    {f : Delivery → Delivery} (hf : Delivery.Moves f)
    (hp : ∀ d ∈ w.deliveries, p d → d.status.terminal → (f d).status.terminal) :
    (∀ id, ids id → ∃ d ∈ updateWhere p f w.deliveries, d.id = id) ∧
      ∀ d ∈ updateWhere p f w.deliveries, ids d.id → d.status.terminal := by
  refine ⟨fun id hid => ?_, fun d' hd' hid => ?_⟩
  · obtain ⟨d, hd, rfl⟩ := h.known id hid
    exact ⟨_, mem_updateWhere.2 ⟨d, hd, rfl⟩, (hf.ite p d).1⟩
  · obtain ⟨d, hd, rfl⟩ := mem_updateWhere.1 hd'
    have hterminal := h.deliveries d hd ((hf.ite p d).1 ▸ hid)
    split
    · exact hp d hd ‹_› hterminal
    · exact hterminal

/-- Executions stay closed when others are closed. -/
theorem Closed.updateExecutions {ids : Uuid → Prop} (h : w.Closed ids) {q : Execution → Bool}
    {g : Execution → Execution} (hg : Execution.Moves g) (hclosed : ∀ e, (g e).status.terminal) :
    (∀ e ∈ updateWhere q g w.executions, ids e.deliveryId → e.status ≠ .running) ∧
      ∀ e' ∈ updateWhere q g w.executions, ids e'.deliveryId →
        ∃ e ∈ w.executions, e.id = e'.id ∧ e.deliveryId = e'.deliveryId := by
  refine ⟨fun e' he' hid => ?_, fun e' he' _ => ?_⟩ <;> obtain ⟨e, he, rfl⟩ := mem_updateWhere.1 he'
  · have hrunning := h.executions e he ((hg.ite q e).2.1 ▸ hid)
    split
    · intro heq
      have := hclosed e
      simp [heq, ExecutionStatus.terminal] at this
    · exact hrunning
  · exact ⟨e, he, (hg.ite q e).1.symm, (hg.ite q e).2.1.symm⟩

/-- No step moves a closed delivery, and none starts an execution that one triggers. -/
theorem Closed.step {ids : Uuid → Prop} (hw : Coherent P placed w) (h : w.Closed ids)
    (hstep : Step P placed allow late w w') :
    w'.Closed ids ∧ ∀ e' ∈ w'.executions, ids e'.deliveryId →
      ∃ e ∈ w.executions, e.id = e'.id ∧ e.deliveryId = e'.deliveryId := by
  have hsame : ∀ e' ∈ w.executions, ids e'.deliveryId →
      ∃ e ∈ w.executions, e.id = e'.id ∧ e.deliveryId = e'.deliveryId :=
    fun e' he' _ => ⟨e', he', rfl, rfl⟩
  -- the inputs of an active attempt are leased
  have hinputs : ∀ {a : ExecutionAttempt} {p : Delivery → Bool} {f : Delivery → Delivery},
      a ∈ w.attempts → a.status.active →
      (∀ d ∈ w.deliveries, p d ↔ w.IsInput a.executionId d.id) →
      ∀ d ∈ w.deliveries, p d → d.status.terminal → (f d).status.terminal := by
    intro a p f ha hactive hp d hd hpd hterminal
    simp [(hw.held a ha hactive d hd ((hp d hd).1 hpd)).1, DeliveryStatus.terminal] at hterminal
  -- what a poll selects is ready
  have hselected : ∀ {group : GroupKey} {selected : List Delivery} {f : Delivery → Delivery},
      w.Selects group selected → ∀ d ∈ w.deliveries, decide (d.id ∈ selected.map (·.id)) = true →
      d.status.terminal → (f d).status.terminal := by
    intro group selected f hselects d hd hmem hterminal
    obtain ⟨d', hd', hid⟩ := List.mem_map.1 (of_decide_eq_true hmem)
    obtain ⟨hd'', hready, -⟩ := hselects d' hd'
    obtain rfl := hw.deliveriesKeyed.eq hd'' hd hid
    simp [hready, DeliveryStatus.terminal] at hterminal
  cases hstep with
  | draw | moveRegions => exact ⟨⟨h.known, h.deliveries, h.executions⟩, hsame⟩
  | @route new n hn hnew hkeyed =>
    refine ⟨⟨fun id hid => ?_, fun d hd hid => ?_, h.executions⟩, hsame⟩
    · obtain ⟨d, hd, hdid⟩ := h.known id hid
      exact ⟨d, List.mem_append_left _ hd, hdid⟩
    · rcases List.mem_append.1 hd with hd | hd
      · exact h.deliveries d hd hid
      · obtain ⟨d', hd', heq⟩ := h.known d.id hid
        exact absurd heq (Drawn.ne (hw.deliveryDrawn d' hd') (hnew d hd).2.2.2 le_rfl)
  | @putOff p t hp =>
    have hdeliveries := h.updateDeliveries (p := p) (Delivery.putOff_moves t)
      fun d hd hpd hterminal => by simp [hp d hd hpd, DeliveryStatus.terminal] at hterminal
    exact ⟨⟨hdeliveries.1, hdeliveries.2, h.executions⟩, hsame⟩
  | @start group selected region execution attempt lease inputs n hn hallow hselects hregion hgroup
      hexecution =>
    have hdeliveries := h.updateDeliveries (Delivery.under_moves lease) (hselected hselects)
    obtain ⟨d, hd, hid⟩ := hexecution.2.2.2
    obtain ⟨hmem, hready, -⟩ := hselects d hd
    have hopen : ¬ids execution.deliveryId := fun hids => by
      have := h.deliveries d hmem (hid ▸ hids)
      simp [hready, DeliveryStatus.terminal] at this
    refine ⟨⟨hdeliveries.1, hdeliveries.2, fun e he hids => ?_⟩, fun e he hids => ?_⟩ <;>
      rcases List.mem_append.1 he with he | he
    · exact h.executions e he hids
    · exact absurd (List.mem_singleton.1 he ▸ hids) hopen
    · exact ⟨e, he, rfl, rfl⟩
    · exact absurd (List.mem_singleton.1 he ▸ hids) hopen
  | @resume group selected execution attempt lease now n hn hselects =>
    have hdeliveries := h.updateDeliveries (Delivery.under_moves lease) (hselected hselects)
    exact ⟨⟨hdeliveries.1, hdeliveries.2, h.executions⟩, hsame⟩
  | @extend attempt lease t p hattempt hlate hp =>
    have hdeliveries := h.updateDeliveries (Delivery.extend_moves lease t)
      (hinputs hattempt.1 hattempt.2.1 hp)
    exact ⟨⟨hdeliveries.1, hdeliveries.2, h.executions⟩, hsame⟩
  | @retry attempt next execution status now failure p f n hn hattempt hstatus hexecution hnext hp hf =>
    have hdeliveries := h.updateDeliveries hf (hinputs hattempt.1 hattempt.2.1 hp)
    exact ⟨⟨hdeliveries.1, hdeliveries.2, h.executions⟩, hsame⟩
  | @close attempt execution status now failure p f g hattempt hstatus hexecution hg hclosed hp hf
      hterminal =>
    have hdeliveries := h.updateDeliveries (p := p) hf fun d _ _ _ => hterminal d
    have hexecutions := h.updateExecutions (q := (·.id = execution.id)) hg hclosed
    exact ⟨⟨hdeliveries.1, hdeliveries.2, hexecutions.1⟩, hexecutions.2⟩
  | @cancel now R p q r f g hp hq hr hg hclosed hf hterminal =>
    have hdeliveries := h.updateDeliveries (p := r) hf fun d _ _ _ => hterminal d
    have hexecutions := h.updateExecutions (q := q) hg hclosed
    exact ⟨⟨hdeliveries.1, hdeliveries.2, hexecutions.1⟩, hexecutions.2⟩

/-- No step makes a region run. -/
theorem Step.regions (hstep : Step P placed allow late w w') :
    ∀ r ∈ w'.regions, r.lifecycleStatus = .running → r ∈ w.regions := by
  cases hstep with
  | @moveRegions p f hf hstop hepoch =>
    intro r' hr' hrunning
    obtain ⟨r, hr, rfl⟩ := mem_updateWhere.1 hr'
    by_cases hp : p r
    · simp only [hp, if_true] at hrunning
      exact absurd hrunning (hstop r)
    · simpa [hp] using hr
  | _ => exact fun r hr _ => hr

/-- Some steps of coherent work keep what is closed. -/
theorem Closed.steps {ids : Uuid → Prop} (hw : Coherent P placed w) (h : w.Closed ids)
    (hsteps : Relation.ReflTransGen (Step P placed allow late) w w') :
    w'.Closed ids ∧ ∀ e' ∈ w'.executions, ids e'.deliveryId →
      ∃ e ∈ w.executions, e.id = e'.id ∧ e.deliveryId = e'.deliveryId := by
  suffices hall : Coherent P placed w' ∧ w'.Closed ids ∧ ∀ e' ∈ w'.executions,
      ids e'.deliveryId → ∃ e ∈ w.executions, e.id = e'.id ∧ e.deliveryId = e'.deliveryId from hall.2
  induction hsteps with
  | refl => exact ⟨hw, h, fun e he _ => ⟨e, he, rfl, rfl⟩⟩
  | tail _ hstep ih =>
    obtain ⟨hw', hclosed, hold⟩ := ih
    obtain ⟨hclosed', hold'⟩ := hclosed.step hw' hstep
    refine ⟨hw'.step hstep, hclosed', fun e' he' hid => ?_⟩
    obtain ⟨e, he, heq, htrigger⟩ := hold' e' he' hid
    obtain ⟨e₀, he₀, heq₀, htrigger₀⟩ := hold e he (htrigger ▸ hid)
    exact ⟨e₀, he₀, heq₀.trans heq, htrigger₀.trans htrigger⟩

/-- No steps make a region run. -/
theorem regions_of_steps (hsteps : Relation.ReflTransGen (Step P placed allow late) w w') :
    ∀ r ∈ w'.regions, r.lifecycleStatus = .running → r ∈ w.regions := by
  induction hsteps with
  | refl => exact fun r hr _ => hr
  | tail _ hstep ih => exact fun r hr hrunning => ih r (hstep.regions r hr hrunning) hrunning

end Work

variable {P : Platform} {s t u : Installation} {l : InstallationLabel}

/-- A step of an installation is some steps of its work. -/
theorem InstallationStep.work (hs : Installed P s) (hstep : InstallationStep P s l t) :
    Relation.ReflTransGen (Work.Step P s.db.Placed (fun _ _ => True) (s.now < ·)) s.db.work
      t.db.work := by
  rcases hstep.serves hs.reserved hs.attempts with ⟨k, rfl, hruntime, -⟩ | hserves
  · exact (hruntime.anyEffect hs.sound).refines.steps
  · rw [hserves.work]
    exact .single (.draw hserves.drawn)

theorem InstallationStep.persists (hs : Installed P s) (hstep : InstallationStep P s l t) :
    Work.Persists s.db.work t.db.work := by
  rcases hstep.serves hs.reserved hs.attempts with ⟨k, rfl, hruntime, -⟩ | hserves
  · exact (hruntime.anyEffect hs.sound).refines.persists hs.sound.coherent
  · have hdraw : Work.Step P s.db.Placed (fun _ _ => True) (fun _ => True) s.db.work
        { s.db.work with drawn := t.db.drawn } := .draw hserves.drawn
    rw [hserves.work]
    exact .of_step hs.sound.coherent hdraw

/-- Work that is closed stays closed, and what its deliveries trigger was there. -/
theorem Work.Closed.later {ids : Uuid → Prop} (ht : (installation P).Reachable t)
    (h : t.db.work.Closed ids) (hu : (installation P).Later t u) :
    u.db.work.Closed ids ∧ ∀ e' ∈ u.db.executions, ids e'.deliveryId →
      ∃ e ∈ t.db.executions, e.id = e'.id ∧ e.deliveryId = e'.deliveryId := by
  induction hu with
  | refl => exact ⟨h, fun e he _ => ⟨e, he, rfl, rfl⟩⟩
  | @next u v l hu hstep ih =>
    have hs := reachable_installed (ht.later hu)
    obtain ⟨hclosed, hold⟩ := ih.1.steps hs.sound.coherent (InstallationStep.work hs hstep)
    refine ⟨hclosed, fun e' he' hid => ?_⟩
    obtain ⟨e, he, heq, htrigger⟩ := hold e' he' hid
    obtain ⟨e₀, he₀, heq₀, htrigger₀⟩ := ih.2 e he (htrigger ▸ hid)
    exact ⟨e₀, he₀, heq₀.trans heq, htrigger₀.trans htrigger⟩

/-! ## Actions that may be dispatched -/

/-- Whether an action has been neither sent nor refused. -/
def ExternalActionStatus.dispatchable : ExternalActionStatus → Bool
  | .proposed | .policyChecked | .awaitingApproval | .authorized => true
  | _ => false

/-- An action that may be dispatched after a step could be dispatched before. -/
theorem ActionMove.dispatchable {a a' : ExternalAction} (h : ActionMove s l a a')
    (hd : a'.status.dispatchable) : a.status.dispatchable := by
  cases h with
  | same => exact hd
  | decided hdecides =>
    simp only [policyDecides, Bool.and_eq_true, Bool.or_eq_true, decide_eq_true_eq] at hdecides
    rcases hdecides.1 with h | h <;> simp [h, ExternalActionStatus.dispatchable]
  | approved h | cancelled h | dispatched h => simp [h, ExternalActionStatus.dispatchable]
  | @answered _ _ asked attemptId result h hcall =>
    cases asked <;> cases hr : result.status <;>
      simp [answeredStatus, hr, ExternalActionStatus.dispatchable] at hd

/-- An action moves to `dispatching` only if it may be dispatched and has authority. -/
theorem ActionMove.dispatching {a a' : ExternalAction} (h : ActionMove s l a a')
    (hd : a'.status = .dispatching) (hne : a.status ≠ .dispatching) :
    a.status.dispatchable ∧ s.db.HasAuthority a := by
  cases h with
  | same => exact absurd hd hne
  | decided hdecides =>
    simp only [policyDecides, Bool.and_eq_true, Bool.or_eq_true, decide_eq_true_eq] at hdecides
    rcases hdecides.2 with ((h | h) | h) | h <;> simp [h] at hd
  | approved h hstatus => rcases hstatus with h | h <;> simp [h] at hd
  | cancelled h => simp at hd
  | dispatched h hauthority => exact ⟨by simp [h, ExternalActionStatus.dispatchable], hauthority⟩
  | @answered _ _ asked attemptId result h hcall =>
    cases asked <;> cases hr : result.status <;> simp [answeredStatus, hr] at hd

/-- An action that has authority after a step had it before, if its execution was there. -/
theorem Db.HasAuthority.before (hs : Installed P s) (hstep : InstallationStep P s l t)
    {a : ExternalAction} (hexecution : ∃ e ∈ s.db.executions, e.id = a.executionId)
    (h : t.db.HasAuthority a) : s.db.HasAuthority a := by
  obtain ⟨e, he, heid⟩ := hexecution
  obtain ⟨e', he', heid', r, hr, hrid, hrunning, hepoch⟩ := h
  obtain ⟨f, hf, hfid, -, hgroup, hfepoch, -⟩ := (hstep.persists hs).executions e he
  obtain rfl : f = e' := (hs.step hstep).sound.coherent.executionsKeyed.eq hf he'
    (hfid.trans (heid.trans heid'.symm))
  have hregion : f.regionId = e.regionId := congrArg GroupKey.regionId (hgroup (.other ""))
  exact ⟨e, he, heid, r, Work.regions_of_steps (hstep.work hs) r hr hrunning, hrid.trans hregion,
    hrunning, hfepoch.symm.trans hepoch⟩

/-! ## Calls -/

/-- The calls that are prepared after a step, and the dispatches that it makes. -/
theorem InstallationStep.prepared (hstep : InstallationStep P s l t) :
    (∀ c ∈ t.calls, ∀ id, c.phase.dispatches = some id →
      (∃ c' ∈ s.calls, c'.phase.dispatches = some id) ∨
        ∃ a ∈ s.db.actions, a.id = id ∧ a.status = .authorized ∧ s.db.HasAuthority a) ∧
    (t.dispatched = s.dispatched ∨ ∃ request, t.dispatched = request :: s.dispatched ∧
      ∃ c ∈ s.calls, c.phase.dispatches = some request.actionId) := by
  have hkeep : ∀ c ∈ s.calls, ∀ id, c.phase.dispatches = some id →
      (∃ c' ∈ s.calls, c'.phase.dispatches = some id) ∨
        ∃ a ∈ s.db.actions, a.id = id ∧ a.status = .authorized ∧ s.db.HasAuthority a :=
    fun c hc id hid => Or.inl ⟨c, hc, hid⟩
  -- a call that moves on is not prepared
  have hmoved : ∀ {pre post : List Call} (new : List Call) {call : Call},
      s.calls = pre ++ call :: post →
      (∀ c ∈ new, c.phase.dispatches = none) → ∀ c ∈ pre ++ new ++ post, ∀ id,
      c.phase.dispatches = some id → (∃ c' ∈ s.calls, c'.phase.dispatches = some id) ∨
        ∃ a ∈ s.db.actions, a.id = id ∧ a.status = .authorized ∧ s.db.HasAuthority a := by
    intro pre post new call hmem hnew c hc id hid
    rcases List.mem_append.1 hc with hc | hc
    · rcases List.mem_append.1 hc with hc | hc
      · exact hkeep c (by simp [hmem, hc]) id hid
      · simp [hnew c hc] at hid
    · exact hkeep c (by simp [hmem, hc]) id hid
  cases hstep with
  | runtime | requestApproval | decidePolicy | configureBudgets | startPass | finishPass =>
    exact ⟨hkeep, Or.inl rfl⟩
  | decideApproval hop => exact ⟨hkeep, Or.inl rfl⟩
  | @dispatch actionId preparation t hop =>
    refine ⟨fun c hc id hid => ?_, Or.inl rfl⟩
    rcases List.mem_append.1 hc with hc | hc
    · rcases prepareDispatch_eq_ok hop with
        ⟨hnone, -⟩ | ⟨a, e, r, hrow, hauthorized, ⟨hnone, -⟩ | ⟨hauthority, outcome, reservations, n, -,
          ⟨-, hnone, -⟩ | ⟨-, hstart⟩⟩⟩
      · simp [hnone] at hc
      · simp [hnone] at hc
      · simp [hnone] at hc
      · obtain ⟨attempt, -, -, -, -, -, rfl, -⟩ := startDispatch_eq_ok hstart
        obtain ⟨ha, haid, he, heid, hr, hrid⟩ := dispatchRow_eq_some hrow
        simp only [hasAuthority, Bool.and_eq_true, decide_eq_true_eq] at hauthority
        obtain rfl : c = ⟨none, .prepared (providerRequest a) attempt.id⟩ := by
          simpa [DispatchPreparation.call] using hc
        exact Or.inr ⟨a, ha, Option.some.inj hid, hauthorized, e, he, heid, r, hr, hrid,
          hauthority.1, hauthority.2⟩
    · exact hkeep c hc id hid
  | @invoke request attemptId pass pre post hmem =>
    refine ⟨?_, Or.inr ⟨request, rfl, ⟨pass, .prepared request attemptId⟩, by simp [hmem], rfl⟩⟩
    simpa using hmoved [⟨pass, .awaiting .dispatch request.actionId attemptId⟩] hmem
      (by simp [CallPhase.dispatches])
  | @reconcile actionId asked hop =>
    refine ⟨fun c hc id hid => ?_, Or.inl rfl⟩
    rcases List.mem_append.1 hc with hc | hc
    · cases asked <;> simp at hc
      simp [hc, CallPhase.dispatches] at hid
    · exact hkeep c hc id hid
  | @answer asked actionId attemptId result pass pre post hmem =>
    refine ⟨?_, Or.inl rfl⟩
    simpa using hmoved [⟨pass, .answered asked actionId attemptId result⟩] hmem
      (by simp [CallPhase.dispatches])
  | @persist asked actionId attemptId result pass pre post t hmem hop =>
    refine ⟨hmoved _ hmem ?_, Or.inl rfl⟩
    unfold afterPersist
    split <;> simp [CallPhase.dispatches]
  | @settle actionId pass pre post settled db hmem hop =>
    exact ⟨by simpa using hmoved [] hmem (by simp), Or.inl rfl⟩
  | @stop call pre post hmem =>
    exact ⟨by simpa using hmoved [] hmem (by simp), Or.inl rfl⟩
  | @passNext id actionId remaining terminal pre post asked hmem hidle hop =>
    refine ⟨fun c hc id hid => ?_, Or.inl rfl⟩
    rcases List.mem_append.1 hc with hc | hc
    · cases asked <;> simp at hc
      simp [hc, CallPhase.dispatches] at hid
    · exact hkeep c hc id hid

/-! ## The rows of a cancelled run -/

/-- The deliveries of a run. -/
def deliveriesOf (run : Command) (db : Db) (id : Uuid) : Prop :=
  ∃ d ∈ db.deliveries, ofRun run d ∧ d.id = id

/-- The three updates close the deliveries and the executions of a run. -/
theorem cancelRows_closes {now : Time} {run : Command} {db db' : Db}
    (hdeliveries : Keyed (·.id) db.deliveries)
    (h : cancelRows now run db db = .ok db') :
    db'.work.Closed (deliveriesOf run db) ∧ ∀ e' ∈ db'.executions,
      ∃ e ∈ db.executions, e.id = e'.id ∧ e.deliveryId = e'.deliveryId := by
  unfold cancelRows at h
  obtain ⟨db₁, h₁, h⟩ := Except.bind_eq_ok.1 h
  obtain ⟨db₂, h₂, h₃⟩ := Except.bind_eq_ok.1 h
  obtain ⟨rfl, -⟩ := (updateAttempts_eq_ok_of_closed fun _ => rfl).1 h₁
  obtain ⟨rfl, -⟩ := updateExecutions_eq_ok.1 h₂
  obtain ⟨rfl, -⟩ := updateDeliveries_eq_ok.1 h₃
  refine ⟨⟨fun id hid => ?_, fun d' hd' hid => ?_, fun e' he' hid => ?_⟩, fun e' he' => ?_⟩
  · obtain ⟨d, hd, -, rfl⟩ := hid
    refine ⟨_, mem_updateWhere.2 ⟨d, hd, rfl⟩, ?_⟩
    split <;> rfl
  · obtain ⟨d, hd, rfl⟩ := mem_updateWhere.1 hd'
    obtain ⟨d₀, hd₀, hrun, hid⟩ := hid
    obtain rfl : d₀ = d := hdeliveries.eq hd₀ hd (hid.trans (by split <;> rfl))
    split
    · rfl
    · rename_i hnot
      by_contra hopen
      refine hnot (decide_eq_true (List.mem_map_of_mem (List.mem_filter.2 ⟨hd, ?_⟩)))
      simpa [hrun] using hopen
  · obtain ⟨e, he, rfl⟩ := mem_updateWhere.1 he'
    have hrun : e ∈ runExecutions run db := by
      obtain ⟨d, hd, hrun, hid⟩ := hid
      exact mem_runExecutions.2 ⟨he, d, hd, hrun, hid.trans (by split <;> rfl)⟩
    split
    · simp
    · rename_i hnot
      intro hrunning
      refine hnot (decide_eq_true (List.mem_map_of_mem (List.mem_filter.2 ⟨hrun, ?_⟩)))
      simp [hrunning, ExecutionStatus.terminal]
  · obtain ⟨e, he, rfl⟩ := mem_updateWhere.1 he'
    refine ⟨e, he, ?_, ?_⟩ <;> split <;> rfl

/-- A cancellation that is no replay closes the deliveries and the executions of its run. -/
theorem cancelRun_closes {now : Time} {context : OperatorContext} {runId : Uuid} {run : Command}
    {input : RunCancellationRequest} {receipt : CancellationReceipt} {db db' : Db}
    (hdeliveries : Keyed (·.id) db.deliveries)
    (h : cancelRun P now context runId input db = .ok (receipt, db'))
    (hrun : db.commands.find? (·.id = runId) = some run) (hnew : receipt.replayed = false) :
    db'.work.Closed (deliveriesOf run db) ∧ ∀ e' ∈ db'.executions,
      ∃ e ∈ db.executions, e.id = e'.id ∧ e.deliveryId = e'.deliveryId := by
  unfold cancelRun at h
  obtain ⟨_, -, h⟩ := Except.bind_eq_ok.1 h
  obtain ⟨_, -, h⟩ := Except.bind_eq_ok.1 h
  obtain ⟨reason, -, h⟩ := Except.bind_eq_ok.1 h
  dsimp only at h
  split at h
  · simp at h
  rename_i run' hrun'
  obtain rfl := Option.some.inj (hrun.symm.trans hrun')
  obtain ⟨_, -, h⟩ := Except.bind_eq_ok.1 h
  split at h
  · obtain ⟨_, -, h⟩ := Except.bind_eq_ok.1 h
    obtain ⟨rfl, -⟩ := Prod.mk.inj (Except.ok.inj h)
    simp [cancellationReceipt] at hnew
  obtain ⟨_, -, h⟩ := Except.bind_eq_ok.1 h
  obtain ⟨commands, -, h⟩ := Except.bind_eq_ok.1 h
  obtain ⟨⟨event, db₁⟩, hevent, h⟩ := Except.bind_eq_ok.1 h
  obtain ⟨db₂, hcancel, h⟩ := Except.bind_eq_ok.1 h
  obtain ⟨-, rfl⟩ := Prod.mk.inj (Except.ok.inj h)
  obtain ⟨n, payload, -, -, -, streams, rfl⟩ := insertEvent_eq_ok hevent
  have hclosed := cancelRows_closes (by exact hdeliveries) hcancel
  exact hclosed

/-! ## Runs after a cancellation -/

/-- Whether a dispatch of the action would find its authority. -/
def mayDispatch (db : Db) (a : ExternalAction) : Bool :=
  a.status.dispatchable && (dispatchRow a.id db).any fun row => hasAuthority row.2.1 row.2.2

/-- Whether no action of a run may still be dispatched, and no dispatch of one is prepared. -/
def nothingToDispatch (run : Command) (s : Installation) : Bool :=
  s.db.actions.all fun a => (runExecutions run s.db).all (·.id ≠ a.executionId) ||
    !mayDispatch s.db a && s.calls.all fun c => c.phase.dispatches ≠ some a.id

/-- Executions that are closed, whose actions are not dispatched. -/
structure Quieted (executionIds : Uuid → Prop) (s : Installation) : Prop where
  closed : ∀ id, executionIds id → ∃ e ∈ s.db.executions, e.id = id ∧ e.status ≠ .running
  actions : ∀ a ∈ s.db.actions, executionIds a.executionId → a.status.dispatchable →
    ¬s.db.HasAuthority a
  calls : ∀ c ∈ s.calls, ∀ id, c.phase.dispatches = some id →
    ∀ a ∈ s.db.actions, a.id = id → ¬executionIds a.executionId

section

variable {executionIds : Uuid → Prop}

/-- A step adds no action of closed executions. -/
theorem Quieted.mem (hs : Installed P s) (h : Quieted executionIds s)
    (hstep : InstallationStep P s l t) {a' : ExternalAction} (ha' : a' ∈ t.db.actions)
    (hid : executionIds a'.executionId) : ∃ a ∈ s.db.actions, ActionMove s l a a' := by
  rcases (hstep.actions hs).mem ha' with hold | ⟨-, env, input, locked, hauthorized, -, hexecution⟩
  · exact hold
  · obtain ⟨e, he, heid, hclosed⟩ := h.closed _ hid
    obtain ⟨hmem, hlid⟩ := mem_of_find?_key hauthorized.execution
    obtain rfl := hs.sound.coherent.executionsKeyed.eq he hmem
      (heid.trans (hexecution.trans hlid.symm))
    exact absurd hauthorized.running hclosed

theorem ActionMove.executionId {a a' : ExternalAction} (h : ActionMove s l a a') :
    a'.executionId = a.executionId :=
  show a'.asProposed.executionId = a.asProposed.executionId from congrArg _ h.asProposed

theorem Quieted.step (hs : Installed P s) (h : Quieted executionIds s)
    (hstep : InstallationStep P s l t) : Quieted executionIds t := by
  refine ⟨fun id hid => ?_, fun a' ha' hid hd hauthority => ?_, fun c hc id hcid a' ha' haid hid => ?_⟩
  · obtain ⟨e, he, heid, hclosed⟩ := h.closed id hid
    obtain ⟨e', he', -, -, -, -, hsame⟩ := (hstep.persists hs).executions e he
    obtain rfl := hsame hclosed
    exact ⟨e', he', heid, hclosed⟩
  · obtain ⟨a, ha, hmove⟩ := h.mem hs hstep ha' hid
    rw [hmove.executionId] at hid
    obtain ⟨e, he, heid, -⟩ := h.closed _ hid
    have hbefore : s.db.HasAuthority a' :=
      hauthority.before hs hstep ⟨e, he, heid.trans hmove.executionId.symm⟩
    refine h.actions a ha hid (hmove.dispatchable hd) ?_
    rwa [Db.HasAuthority, hmove.executionId] at hbefore
  · obtain ⟨a, ha, hmove⟩ := h.mem hs hstep ha' hid
    rw [hmove.executionId] at hid
    rcases hstep.prepared.1 c hc id hcid with ⟨c', hc', hcid'⟩ | ⟨b, hb, hbid, hstatus, hauthority⟩
    · exact h.calls c' hc' id hcid' a ha (hmove.id.symm.trans haid) hid
    · obtain rfl := hs.actions.eq hb ha (hbid.trans (haid.symm.trans hmove.id))
      exact h.actions b ha hid (by simp [hstatus, ExternalActionStatus.dispatchable]) hauthority

/-- Executions that are quieted stay so. -/
theorem Quieted.later (ht : (installation P).Reachable t) (h : Quieted executionIds t)
    (hu : (installation P).Later t u) : Quieted executionIds u :=
  hu.preserves (P := Quieted executionIds)
    (fun _ _ _ hr hq (hst : InstallationStep P _ _ _) => hq.step (reachable_installed hr) hst) ht h

/-- No action of quieted executions moves to `dispatching`. -/
theorem Quieted.not_dispatched (hs : Installed P s) (h : Quieted executionIds s)
    (hstep : InstallationStep P s l t) {a' : ExternalAction} (ha' : a' ∈ t.db.actions)
    (hid : executionIds a'.executionId) (hd : a'.status = .dispatching) :
    ∃ a ∈ s.db.actions, a.id = a'.id ∧ a.status = .dispatching := by
  obtain ⟨a, ha, hmove⟩ := h.mem hs hstep ha' hid
  refine ⟨a, ha, hmove.id.symm, ?_⟩
  by_contra hne
  obtain ⟨hdispatchable, hauthority⟩ := hmove.dispatching hd hne
  exact h.actions a ha (hmove.executionId ▸ hid) hdispatchable hauthority

/-- The provider is not asked to dispatch an action of quieted executions. -/
theorem Quieted.not_invoked (ht : (installation P).Reachable t) (h : Quieted executionIds t)
    (hu : (installation P).Later t u) :
    ∀ a ∈ u.db.actions, executionIds a.executionId →
      u.dispatched.filter (·.actionId = a.id) = t.dispatched.filter (·.actionId = a.id) := by
  induction hu with
  | refl => exact fun _ _ _ => rfl
  | @next u v l hu hstep ih =>
    intro a' ha' hid
    have hstep : InstallationStep P u l v := hstep
    have hquieted := h.later ht hu
    obtain ⟨a, ha, hmove⟩ := hquieted.mem (reachable_installed (ht.later hu)) hstep ha' hid
    rw [hmove.executionId] at hid
    rw [hmove.id]
    rcases hstep.prepared.2 with hsame | ⟨request, hcons, c, hc, hcid⟩
    · rw [hsame, ih a ha hid]
    · have hne : request.actionId ≠ a.id := fun heq =>
        hquieted.calls c hc _ hcid a ha heq.symm hid
      rw [hcons, List.filter_cons, if_neg (by simpa using hne), ih a ha hid]

end

/-- Whether an action is proposed by an execution that a delivery of the run triggers. The delivery
was there when the run was cancelled. -/
def ProposedBy (run : Command) (cancelled : Db) (db : Db) (a : ExternalAction) : Prop :=
  ∃ e ∈ db.executions, e.id = a.executionId ∧ deliveriesOf run cancelled e.deliveryId

/-- From a state on, no action of a cancelled run is dispatched. -/
structure DispatchesNothing (P : Platform) (run : Command) (cancelled : Db) (t : Installation) :
    Prop where
  moves : ∀ u l v, (installation P).Later t u → InstallationStep P u l v →
    ∀ a ∈ v.db.actions, ProposedBy run cancelled v.db a → a.status = .dispatching →
      ∃ b ∈ u.db.actions, b.id = a.id ∧ b.status = .dispatching
  invoked : ∀ u, (installation P).Later t u → ∀ a ∈ u.db.actions,
    ProposedBy run cancelled u.db a →
      u.dispatched.filter (·.actionId = a.id) = t.dispatched.filter (·.actionId = a.id)

/-- An action without authority is not found to have it. -/
theorem not_mayDispatch (hs : Installed P s) {a : ExternalAction} (ha : a ∈ s.db.actions)
    (h : mayDispatch s.db a = false) (hd : a.status.dispatchable) : ¬s.db.HasAuthority a := by
  rintro ⟨e, he, heid, r, hr, hrid, hrunning, hepoch⟩
  have hexecution : s.db.execution? a.executionId = some e :=
    heid ▸ hs.sound.coherent.executionsKeyed.find?_eq_some he
  have hregion : s.db.region? e.regionId = some r :=
    hrid ▸ hs.sound.wellFormed.regions.find?_eq_some hr
  simp [mayDispatch, hd, dispatchRow, hs.actions.find?_eq_some ha, hexecution, hregion,
    hasAuthority, hrunning, hepoch] at h

theorem cancelled_dispatches_nothing {context : OperatorContext} {runId : Uuid} {run : Command}
    {input : RunCancellationRequest} {receipt : CancellationReceipt} {db : Db}
    (hs : (installation P).Reachable s) (hrun : s.db.commands.find? (·.id = runId) = some run)
    (hop : cancelRun P s.now context runId input s.db = .ok (receipt, db))
    (hnew : receipt.replayed = false) (hok : nothingToDispatch run s) :
    DispatchesNothing P run s.db { s with db } := by
  have hinstalled := reachable_installed hs
  have hstep : InstallationStep P s (.runtime (.cancelRun context runId input)) { s with db } :=
    .runtime (.cancelRun hop) rfl
  have ht : (installation P).Reachable { s with db } := hs.next hstep
  obtain ⟨hclosed, hexecutions⟩ :=
    cancelRun_closes hinstalled.sound.coherent.deliveriesKeyed hop hrun hnew
  have hactions : db.actions = s.db.actions := by
    rcases cancelRun_eq_ok (fun _ _ => True) (fun _ => True) hinstalled.sound.coherent hop with
      rfl | ⟨commands, streams, event, -, hschedules⟩
    · rfl
    · rw [hschedules.publications]
      rfl
  have hquieted : Quieted (fun id => ∃ e ∈ runExecutions run s.db, e.id = id) { s with db } := by
    refine ⟨fun id hid => ?_, fun a ha hid hd hauthority => ?_, fun c hc id hcid a ha haid hid => ?_⟩
    · obtain ⟨e, he, rfl⟩ := hid
      obtain ⟨he, hdelivery⟩ := mem_runExecutions.1 he
      obtain ⟨e', he', hid', htrigger, -⟩ := (hstep.persists hinstalled).executions e he
      exact ⟨e', he', hid', hclosed.executions e' he' (htrigger ▸ hdelivery)⟩
    all_goals
      have ha : a ∈ s.db.actions := hactions ▸ ha
      obtain ⟨e, he, heid⟩ := hid
      have hok := List.all_eq_true.1 hok a ha
      simp only [Bool.or_eq_true, Bool.and_eq_true, Bool.not_eq_true', List.all_eq_true,
        decide_eq_true_eq] at hok
      have hok := hok.resolve_left fun hne => hne e he heid
    · refine not_mayDispatch hinstalled ha hok.1 hd ?_
      exact hauthority.before hinstalled hstep ⟨e, (mem_runExecutions.1 he).1, heid⟩
    · exact hok.2 c hc (haid ▸ hcid)
  -- an execution that a delivery of the run triggers was there before the cancellation
  have hold : ∀ {u}, (installation P).Later { s with db } u → ∀ {a : ExternalAction},
      ProposedBy run s.db u.db a → ∃ e ∈ runExecutions run s.db, e.id = a.executionId := by
    rintro u hu a ⟨e, he, heid, hdelivery⟩
    obtain ⟨f, hf, hfid, htrigger⟩ := (hclosed.later ht hu).2 e he hdelivery
    obtain ⟨e₀, he₀, hid₀, htrigger₀⟩ := hexecutions f hf
    obtain ⟨d, hd, hof, hdid⟩ := hdelivery
    exact ⟨e₀, mem_runExecutions.2 ⟨he₀, d, hd, hof, hdid.trans (htrigger₀.trans htrigger).symm⟩,
      hid₀.trans (hfid.trans heid)⟩
  refine ⟨fun u l v hu hst a ha hproposed hd => ?_, fun u hu a ha hproposed => ?_⟩
  · exact (hquieted.later ht hu).not_dispatched (reachable_installed (ht.later hu)) hst ha
      (hold (hu.next hst) hproposed) hd
  · exact hquieted.not_invoked ht hu a ha (hold hu hproposed)

/-- Who cancels the run of the shop. -/
def shopOperator : OperatorContext :=
  ⟨"operator", ["operator"]⟩

/-- The shop with the action 1014 as the policy has decided about it. -/
def shopDecided (status : ExternalActionStatus) : List InstallationAction :=
  shopProposed [shopProposal 800 "mail"] ++ [.decidePolicy 1014 status none]

/-- The run 1000 of the shop, and what the cancellation of it returns. -/
def shopCancels (s : Installation) : Option (Command × CancellationReceipt × Db) :=
  (s.db.commands.find? (·.id = 1000)).bind fun run =>
    (cancelRun shopPlatform s.now shopOperator 1000 ⟨"request", "stop"⟩ s.db).toOption.map
      fun result => (run, result)

theorem shopCancels_eq_some {run : Command} {receipt : CancellationReceipt} {db : Db}
    (h : shopCancels s = some (run, receipt, db)) :
    s.db.commands.find? (·.id = 1000) = some run ∧
      cancelRun shopPlatform s.now shopOperator 1000 ⟨"request", "stop"⟩ s.db =
        .ok (receipt, db) := by
  obtain ⟨run', hrun, h⟩ := Option.bind_eq_some_iff.1 h
  obtain ⟨result, hop, heq⟩ := Option.map_eq_some_iff.1 h
  obtain ⟨rfl, rfl⟩ := Prod.mk.inj heq
  refine ⟨hrun, ?_⟩
  cases hc : cancelRun shopPlatform s.now shopOperator 1000 ⟨"request", "stop"⟩ s.db with
  | error e => simp [hc, Except.toOption] at hop
  | ok r => simpa [hc, Except.toOption] using hop

theorem cancelled_dispatches_nothing_shop : ∃ s run receipt db,
    performs shopPlatform (fun _ _ => true) (shop []) (shopDecided .denied) = some s ∧
      shopCancels s = some (run, receipt, db) ∧ s.db.actions.map (·.id) = [1014] ∧
        DispatchesNothing shopPlatform run s.db { s with db } := by
  have hsome : ((performs shopPlatform (fun _ _ => true) (shop []) (shopDecided .denied)).bind
      fun s => (shopCancels s).map fun c =>
        (c.2.1.replayed, nothingToDispatch c.1 s, s.db.actions.map (·.id))) =
      some (false, true, [1014]) := rfl
  obtain ⟨s, hs, hsome⟩ := Option.bind_eq_some_iff.1 hsome
  obtain ⟨⟨run, receipt, db⟩, hcancels, heq⟩ := Option.map_eq_some_iff.1 hsome
  simp only [Prod.mk.injEq] at heq
  obtain ⟨hrun, hop⟩ := shopCancels_eq_some hcancels
  exact ⟨s, run, receipt, db, hs, hcancels, heq.2.2, cancelled_dispatches_nothing
    (performs_reachable (shop_initial (by simp) (by decide) (by simp)) hs).of_restrict hrun hop heq.1 heq.2.1⟩

/-- The action is authorized when the run is cancelled, and is dispatched after that. -/
theorem cancelled_dispatches : ∃ s run receipt db, (installation shopPlatform).Reachable s ∧
    s.db.commands.find? (·.id = 1000) = some run ∧
      cancelRun shopPlatform s.now shopOperator 1000 ⟨"request", "stop"⟩ s.db = .ok (receipt, db) ∧
        receipt.replayed = false ∧ ¬DispatchesNothing shopPlatform run s.db { s with db } := by
  have hsome : ((performs shopPlatform (fun _ _ => true) (shop []) (shopDecided .authorized)).bind
      fun s => (shopCancels s).bind fun c =>
        (perform shopPlatform { s with db := c.2.2 } (.dispatch 1014)).map fun v =>
          (c.2.1.replayed, c.2.2.actions.all (·.status ≠ .dispatching),
            v.2.db.actions.any fun a => a.status = .dispatching &&
              v.2.db.executions.any fun e => e.id = a.executionId &&
                s.db.deliveries.any fun d => ofRun c.1 d && d.id = e.deliveryId)) =
      some (false, true, true) := rfl
  obtain ⟨s, hs, hsome⟩ := Option.bind_eq_some_iff.1 hsome
  obtain ⟨⟨run, receipt, db⟩, hcancels, hsome⟩ := Option.bind_eq_some_iff.1 hsome
  obtain ⟨⟨l, v⟩, hv, heq⟩ := Option.map_eq_some_iff.1 hsome
  simp only [Prod.mk.injEq, List.all_eq_true, List.any_eq_true, Bool.and_eq_true,
    decide_eq_true_eq] at heq
  obtain ⟨hnew, hbefore, a, ha, hdispatching, e, he, heid, d, hd, hrun', hdid⟩ := heq
  obtain ⟨hrun, hop⟩ := shopCancels_eq_some hcancels
  refine ⟨s, run, receipt, db,
    (performs_reachable (shop_initial (by simp) (by decide) (by simp)) hs).of_restrict, hrun, hop, hnew,
    fun h => ?_⟩
  obtain ⟨b, hb, -, hstatus⟩ := h.moves _ l v .refl (perform_step hv) a ha
    ⟨e, he, heid, d, hd, hrun', hdid⟩ hdispatching
  exact hbefore b hb hstatus

end FactoryFloor
