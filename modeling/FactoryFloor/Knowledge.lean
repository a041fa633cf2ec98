import FactoryFloor.Dispatch

/-!
# What is known of external actions

An action whose acknowledgement is stored should only become reconciled, and a reconciled or failed
one should not change. `persistResult` returns early for a reconciled action, and refuses a failed
one. It has no such guard for an acknowledged action, so a failed or indeterminate answer of a
reconciliation that began earlier is stored over the acknowledgement of the dispatch.

`knowledge_kept` is about the runs in which no such answer is stored with an acknowledged action
(`keepsAcknowledgement`). An action has at most one attempt, and an attempt that is acknowledged is
of an action that is acknowledged or reconciled (`Attempted`), so the response stored with the
attempt is kept with the status of the action.
-/

namespace FactoryFloor

open Relational Transition

variable {P : Platform} {s t : Installation} {l : InstallationLabel}

/-! ## Attempts -/

/-- An attempt with an answer. -/
def answeredAttempt (now : Time) (result : ExternalActionProviderResult)
    (x : ExternalActionAttempt) : ExternalActionAttempt :=
  { x with status := attemptStatusOf result.status, completedAt := some now,
           response := some result.response }

/-- What a step does to the attempts of external actions. -/
inductive MovesAttempts (s t : Installation) : InstallationLabel → Prop
  | keep {l : InstallationLabel} (h : t.actionAttempts = s.actionAttempts)
      (hl : ∀ actionId result, l ≠ .persist actionId result) : MovesAttempts s t l
  | replay {l : InstallationLabel} (h : t.actionAttempts = s.actionAttempts)
      (hactions : t.db.actions = s.db.actions) : MovesAttempts s t l
  | start {a : ExternalAction} {x : ExternalActionAttempt} (ha : a ∈ s.db.actions)
      (hstatus : a.status = .authorized) (hid : x.externalActionId = a.id)
      (hnew : x.status = .dispatching) (h : t.actionAttempts = s.actionAttempts ++ [x])
      (hactions : t.db.actions =
        updateWhere (·.id = a.id) (fun a => { a with status := .dispatching }) s.db.actions) :
      MovesAttempts s t (.dispatch a.id)
  | answer {a : ExternalAction} {x : ExternalActionAttempt} {asked : Asked}
      {result : ExternalActionProviderResult} (ha : a ∈ s.db.actions) (huncertain : a.status.uncertain)
      (hx : x ∈ s.actionAttempts) (hid : x.externalActionId = a.id)
      (h : t.actionAttempts =
        updateWhere (·.id = x.id) (answeredAttempt s.now result) s.actionAttempts)
      (hactions : t.db.actions = updateWhere (·.id = a.id)
        (fun a => { a with status := answeredStatus asked result.status }) s.db.actions) :
      MovesAttempts s t (.persist a.id result)

theorem InstallationStep.attempts (hstep : InstallationStep P s l t) : MovesAttempts s t l := by
  cases hstep with
  | runtime | requestApproval | decidePolicy | configureBudgets | invoke | reconcile | answer
  | settle | stop | startPass | passNext | finishPass =>
    exact .keep rfl (by simp)
  | decideApproval hop =>
    refine .keep ?_ (by simp)
    rcases decideApproval_eq_ok hop with rfl | ⟨approvals, -, rfl⟩ <;> rfl
  | dispatch hop =>
    rcases prepareDispatch_eq_ok hop with
      ⟨-, rfl⟩ | ⟨a, e, r, hrow, hauthorized, ⟨-, -, rfl⟩ | ⟨-, outcome, reservations, n, -,
        ⟨-, -, rfl⟩ | ⟨-, hstart⟩⟩⟩
    · exact .keep rfl (by simp)
    · exact .keep rfl (by simp)
    · exact .keep rfl (by simp)
    · obtain ⟨x, -, hid, -, hnew, -, -, rfl⟩ := startDispatch_eq_ok hstart
      obtain ⟨ha, rfl, -⟩ := dispatchRow_eq_some hrow
      exact .start ha hauthorized hid hnew rfl rfl
  | persist hmem hop =>
    obtain ⟨a, ha, rfl, x, hx, rfl, hid, ⟨-, rfl⟩ | ⟨huncertain, -, rfl⟩⟩ := persistResult_eq_ok hop
    · exact .replay rfl rfl
    · exact .answer ha huncertain hx hid rfl rfl

/-! ## The attempt of an action -/

/-- `acknowledged` or `reconciled`. -/
def ExternalActionStatus.known : ExternalActionStatus → Bool
  | .acknowledged | .reconciled => true
  | _ => false

theorem ExternalActionStatus.known_iff {status : ExternalActionStatus} :
    status.known ↔ status = .acknowledged ∨ status = .reconciled := by
  cases status <;> simp [known]

/-- Only an answer moves an action that was sent. -/
theorem ActionMove.eq_of_sent {a a' : ExternalAction} (h : ActionMove s l a a') (hs : a.status.sent)
    (hl : ∀ actionId result, l ≠ .persist actionId result) : a' = a := by
  cases h with
  | same => rfl
  | decided hdecides =>
    simp only [policyDecides, Bool.and_eq_true, Bool.or_eq_true, decide_eq_true_eq] at hdecides
    rcases hdecides.1 with h | h <;> simp [h, ExternalActionStatus.sent] at hs
  | approved h => simp [h, ExternalActionStatus.sent] at hs
  | cancelled h => simp [h, ExternalActionStatus.sent] at hs
  | dispatched h => simp [h, ExternalActionStatus.sent] at hs
  | @answered _ _ asked attemptId result h hcall => exact absurd rfl (hl a.id result)

/-- An action has at most one attempt, and was sent. -/
structure Attempted (s : Installation) : Prop where
  keyed : Keyed (·.externalActionId) s.actionAttempts
  sent : ∀ x ∈ s.actionAttempts, ∃ a ∈ s.db.actions, a.id = x.externalActionId ∧ a.status.sent ∧
    (x.status = .acknowledged → a.status.known)

theorem Attempted.step (hs : Installed P s) (h : Attempted s) (hstep : InstallationStep P s l t) :
    Attempted t := by
  have hkept : (∀ actionId result, l ≠ .persist actionId result) → ∀ x ∈ s.actionAttempts,
      ∃ a ∈ t.db.actions, a.id = x.externalActionId ∧ a.status.sent ∧
        (x.status = .acknowledged → a.status.known) := by
    intro hl x hx
    obtain ⟨a, ha, hid, hsent, hknown⟩ := h.sent x hx
    obtain ⟨a', ha', hmove⟩ := (hstep.actions hs).kept ha
    obtain rfl := hmove.eq_of_sent hsent hl
    exact ⟨a', ha', hid, hsent, hknown⟩
  have hmoves := hstep.attempts
  cases hmoves with
  | keep hsame hl => exact ⟨by rw [hsame]; exact h.keyed, by rw [hsame]; exact hkept hl⟩
  | replay hsame hactions =>
    exact ⟨by rw [hsame]; exact h.keyed, by rw [hsame, hactions]; exact h.sent⟩
  | @start a x ha hstatus hid hnew happend hactions =>
    -- the attempts that were there are of sent actions, and `a` was only authorized
    have hfresh : ∀ y ∈ s.actionAttempts, y.externalActionId ≠ x.externalActionId := by
      intro y hy heq
      obtain ⟨b, hb, hbid, hsent, -⟩ := h.sent y hy
      obtain rfl := hs.actions.eq hb ha (hbid.trans (heq.trans hid))
      simp [hstatus, ExternalActionStatus.sent] at hsent
    refine ⟨by rw [happend]; exact h.keyed.append hfresh, fun y hy => ?_⟩
    rcases List.mem_append.1 (happend ▸ hy) with hy | hy
    · exact hkept (by simp) y hy
    · obtain rfl := List.mem_singleton.1 hy
      exact ⟨{ a with status := .dispatching },
        by rw [hactions]; exact mem_updateWhere.2 ⟨a, ha, by simp⟩, hid.symm, rfl, by simp [hnew]⟩
  | @answer a x asked result ha huncertain hx hid hupdate hactions =>
    refine ⟨by rw [hupdate]; exact h.keyed.updateWhere fun _ => rfl, fun y' hy' => ?_⟩
    rw [hupdate] at hy'
    obtain ⟨y, hy, rfl⟩ := mem_updateWhere.1 hy'
    obtain ⟨b, hb, hbid, hsent, hknown⟩ := h.sent y hy
    by_cases hyx : y.id = x.id
    · -- the attempt that is answered, and its action
      obtain rfl := hs.attempts.eq hy hx hyx
      refine ⟨{ a with status := answeredStatus asked result.status },
        by rw [hactions]; exact mem_updateWhere.2 ⟨a, ha, by simp⟩, by simp [hid, answeredAttempt],
        ?_, ?_⟩
      · cases asked <;> cases result.status <;> rfl
      · cases asked <;> cases hr : result.status <;>
          simp [answeredAttempt, attemptStatusOf, answeredStatus, hr, ExternalActionStatus.known]
    · -- an action has one attempt, so the action of this one is another
      have hne : b.id ≠ a.id := fun heq =>
        hyx (congrArg (·.id) (h.keyed.eq hy hx (hbid.symm.trans (heq.trans hid.symm))))
      refine ⟨b, by rw [hactions]; exact mem_updateWhere.2 ⟨b, hb, by simp [hne]⟩, ?_⟩
      simpa [hyx] using ⟨hbid, hsent, hknown⟩

theorem reachable_attempted (h : (installation P).Reachable s) : Attempted s :=
  h.invariant_of
    (fun s (hs : InitialInstallation P s) =>
      ⟨by simp [Keyed, hs.actionAttempts], by simp [hs.actionAttempts]⟩)
    fun _ _ _ hs hattempted (hst : InstallationStep P _ _ _) =>
      hattempted.step (reachable_installed hs) hst

/-! ## Runs that keep acknowledgements -/

/-- Whether a step stores no failed or indeterminate answer with an acknowledged action. -/
def keepsAcknowledgement (s : Installation) : InstallationLabel → Bool
  | .persist actionId result => result.status = .acknowledged ||
      s.db.actions.all fun a => a.id ≠ actionId || a.status ≠ .acknowledged
  | _ => true

/-- What is known of an action is kept by a step that keeps acknowledgements. -/
theorem ActionMove.knowledge {a a' : ExternalAction} (h : ActionMove s l a a')
    (ha : a ∈ s.db.actions) (hok : keepsAcknowledgement s l) :
    (a.status.known → a'.status.known) ∧ (a.status.last → a'.status = a.status) := by
  by_cases hsent : a.status.sent
  · by_cases hl : ∀ actionId result, l ≠ .persist actionId result
    · rw [h.eq_of_sent hsent hl]
      exact ⟨fun hknown => hknown, fun _ => rfl⟩
    · cases h with
      | same => exact ⟨fun hknown => hknown, fun _ => rfl⟩
      | decided | approved | cancelled | dispatched => simp at hl
      | @answered _ _ asked attemptId result h hcall =>
        refine ⟨fun hknown => ?_, fun hlast => ?_⟩
        · have hacknowledged : result.status = .acknowledged := by
            simp only [keepsAcknowledgement, Bool.or_eq_true, decide_eq_true_eq,
              List.all_eq_true] at hok
            refine hok.resolve_right fun hall => ?_
            rcases ExternalActionStatus.known_iff.1 hknown with hst | hst
            · simpa [hst] using hall a ha
            · simp [hst, ExternalActionStatus.uncertain] at h
          cases asked <;> simp [hacknowledged, answeredStatus, ExternalActionStatus.known]
        · cases hst : a.status <;>
            simp [hst, ExternalActionStatus.uncertain, ExternalActionStatus.last] at h hlast
  · cases hst : a.status <;> simp [hst, ExternalActionStatus.sent, ExternalActionStatus.known,
      ExternalActionStatus.last] at hsent ⊢

/-- From a state on, what is known of the external actions is kept. -/
structure KeepsKnowledge (S : System Installation InstallationLabel) (s : Installation) : Prop where
  acknowledged : ∀ a ∈ s.db.actions, a.status = .acknowledged → ∀ t, S.Later s t →
    ∃ a' ∈ t.db.actions, a'.id = a.id ∧ (a'.status = .acknowledged ∨ a'.status = .reconciled)
  last : ∀ a ∈ s.db.actions, a.status.last → ∀ t, S.Later s t →
    ∃ a' ∈ t.db.actions, a'.id = a.id ∧ a'.status = a.status
  response : ∀ x ∈ s.actionAttempts, x.status = .acknowledged → ∀ u l t, S.Later s u →
    S.step u l t → ∃ x₁ ∈ u.actionAttempts, ∃ x₂ ∈ t.actionAttempts, x₁.id = x.id ∧ x₂.id = x.id ∧
      (x₂.response = x₁.response ∨ ∃ result, l = .persist x.externalActionId result ∧
        result.status = .acknowledged ∧ x₂.response = some result.response)

/-- The runs whose steps keep acknowledgements. -/
def keeping (P : Platform) : System Installation InstallationLabel :=
  (installation P).restrict fun s l => keepsAcknowledgement s l

/-- The status of an action is kept, as long as it is known or last. -/
theorem status_kept (hs : (keeping P).Reachable s) (hlater : (keeping P).Later s t)
    {a : ExternalAction} (ha : a ∈ s.db.actions) :
    ∃ a' ∈ t.db.actions, a'.id = a.id ∧ (a.status.known → a'.status.known) ∧
      (a.status.last → a'.status = a.status) := by
  induction hlater with
  | refl => exact ⟨a, ha, rfl, fun hknown => hknown, fun _ => rfl⟩
  | next hlater hstep ih =>
    obtain ⟨b, hb, hid, hknown, hlast⟩ := ih
    have hmoves := hstep.1.actions (reachable_installed (hs.later hlater).of_restrict)
    obtain ⟨c, hc, hmove⟩ := hmoves.kept hb
    obtain ⟨hknown', hlast'⟩ := hmove.knowledge hb hstep.2
    refine ⟨c, hc, hmove.id.trans hid, fun h => hknown' (hknown h), fun h => ?_⟩
    rw [hlast' (by rw [hlast h]; exact h), hlast h]

/-- The attempt of an acknowledgement after a step. -/
theorem Attempted.answer (hs : Installed P s) (h : Attempted s) (hstep : InstallationStep P s l t)
    (hok : keepsAcknowledgement s l) {x : ExternalActionAttempt} (hx : x ∈ s.actionAttempts)
    (hacknowledged : x.status = .acknowledged) :
    ∃ y ∈ t.actionAttempts, y.id = x.id ∧ y.externalActionId = x.externalActionId ∧
      y.status = .acknowledged ∧ (y.response = x.response ∨ ∃ result,
        l = .persist x.externalActionId result ∧ result.status = .acknowledged ∧
          y.response = some result.response) := by
  have hmoves := hstep.attempts
  cases hmoves with
  | keep hsame => exact ⟨x, by rw [hsame]; exact hx, rfl, rfl, hacknowledged, Or.inl rfl⟩
  | replay hsame => exact ⟨x, by rw [hsame]; exact hx, rfl, rfl, hacknowledged, Or.inl rfl⟩
  | start ha hstatus hid hnew happend =>
    exact ⟨x, by rw [happend]; exact List.mem_append_left _ hx, rfl, rfl, hacknowledged, Or.inl rfl⟩
  | @answer a z asked result ha huncertain hz hid hupdate hactions =>
    by_cases hxz : x.id = z.id
    · obtain rfl := hs.attempts.eq hx hz hxz
      obtain ⟨b, hb, hbid, -, hknown⟩ := h.sent x hx
      obtain rfl := hs.actions.eq hb ha (hbid.trans hid)
      have hanswer : result.status = .acknowledged := by
        simp only [keepsAcknowledgement, Bool.or_eq_true, decide_eq_true_eq,
          List.all_eq_true] at hok
        refine hok.resolve_right fun hall => ?_
        rcases ExternalActionStatus.known_iff.1 (hknown hacknowledged) with hst | hst
        · simpa [hst] using hall b ha
        · simp [hst, ExternalActionStatus.uncertain] at huncertain
      exact ⟨answeredAttempt s.now result x,
        by rw [hupdate]; exact mem_updateWhere.2 ⟨x, hx, by simp⟩, rfl, rfl,
        by simp [answeredAttempt, attemptStatusOf, hanswer],
        Or.inr ⟨result, by rw [hid], hanswer, rfl⟩⟩
    · exact ⟨x, by rw [hupdate]; exact mem_updateWhere.2 ⟨x, hx, by simp [hxz]⟩, rfl, rfl,
        hacknowledged, Or.inl rfl⟩

/-- The attempt of an acknowledgement stays one. -/
theorem attempt_kept (hs : (keeping P).Reachable s) (hlater : (keeping P).Later s t)
    {x : ExternalActionAttempt} (hx : x ∈ s.actionAttempts) (hacknowledged : x.status = .acknowledged) :
    ∃ y ∈ t.actionAttempts, y.id = x.id ∧ y.externalActionId = x.externalActionId ∧
      y.status = .acknowledged := by
  induction hlater with
  | refl => exact ⟨x, hx, rfl, rfl, hacknowledged⟩
  | next hlater hstep ih =>
    obtain ⟨y, hy, hid, haction, hy'⟩ := ih
    have hu := (hs.later hlater).of_restrict
    obtain ⟨z, hz, hzid, hzaction, hz', -⟩ :=
      (reachable_attempted hu).answer (reachable_installed hu) hstep.1 hstep.2 hy hy'
    exact ⟨z, hz, hzid.trans hid, hzaction.trans haction, hz'⟩

theorem knowledge_kept (hs : (keeping P).Reachable s) : KeepsKnowledge (keeping P) s := by
  refine ⟨fun a ha hstatus t hlater => ?_, fun a ha hlast t hlater => ?_,
    fun x hx hacknowledged u l t hlater hstep => ?_⟩
  · obtain ⟨a', ha', hid, hknown, -⟩ := status_kept hs hlater ha
    exact ⟨a', ha', hid, ExternalActionStatus.known_iff.1 (hknown (by simp [hstatus,
      ExternalActionStatus.known]))⟩
  · obtain ⟨a', ha', hid, -, hkept⟩ := status_kept hs hlater ha
    exact ⟨a', ha', hid, hkept hlast⟩
  · obtain ⟨y, hy, hid, haction, hy'⟩ := attempt_kept hs hlater hx hacknowledged
    have hu := (hs.later hlater).of_restrict
    obtain ⟨z, hz, hzid, -, -, hresponse⟩ :=
      (reachable_attempted hu).answer (reachable_installed hu) hstep.1 hstep.2 hy hy'
    exact ⟨y, hy, z, hz, hid, hzid.trans hid, haction ▸ hresponse⟩

/-- The dispatch is acknowledged after a reconciliation was answered that is not stored yet. -/
def shopAcknowledged : List InstallationAction :=
  shopDispatched ++ [.reconcile 1014, .answer 0 ⟨.indeterminate, .null⟩,
    .answer 1 ⟨.acknowledged, .bool true⟩, .persist 1]

theorem knowledge_kept_shop : ∃ s,
    performs shopPlatform keepsAcknowledgement (shop []) shopAcknowledged = some s ∧
      s.db.actions.map (·.status) = [.acknowledged] ∧ KeepsKnowledge (keeping shopPlatform) s := by
  have hsome : (performs shopPlatform keepsAcknowledgement (shop []) shopAcknowledged).map
      (fun s => s.db.actions.map (·.status)) = some [.acknowledged] := rfl
  obtain ⟨s, hs, hstatus⟩ := Option.map_eq_some_iff.1 hsome
  exact ⟨s, hs, hstatus,
    knowledge_kept (performs_reachable (shop_initial (by simp) (by decide) (by simp)) hs)⟩

/-- The answer of the reconciliation is stored over the acknowledgement. -/
theorem knowledge_lost : ∃ s, (installation shopPlatform).Reachable s ∧
    ¬KeepsKnowledge (installation shopPlatform) s := by
  have hsome : ((performs shopPlatform (fun _ _ => true) (shop []) shopAcknowledged).bind
      fun s => (performs shopPlatform (fun _ _ => true) s [.persist 0]).map fun t =>
        (s.db.actions.map (·.status), t.db.actions.map (·.status))) =
      some ([.acknowledged], [.indeterminate]) := rfl
  obtain ⟨s, hs, hsome⟩ := Option.bind_eq_some_iff.1 hsome
  obtain ⟨t, ht, hstatus⟩ := Option.map_eq_some_iff.1 hsome
  obtain ⟨hbefore, hafter⟩ := Prod.mk.inj hstatus
  refine ⟨s, (performs_reachable (shop_initial (by simp) (by decide) (by simp)) hs).of_restrict, fun hkeeps => ?_⟩
  obtain ⟨a, ha, hacknowledged⟩ : ∃ a ∈ s.db.actions, a.status = .acknowledged :=
    List.mem_map.1 (hbefore ▸ List.mem_singleton_self _)
  obtain ⟨a', ha', -, hkept⟩ := hkeeps.acknowledged a ha hacknowledged t (performs_later ht).of_restrict
  have hindeterminate : a'.status ∈ [ExternalActionStatus.indeterminate] :=
    hafter ▸ List.mem_map_of_mem ha'
  rw [List.mem_singleton.1 hindeterminate] at hkept
  simp at hkept

end FactoryFloor
