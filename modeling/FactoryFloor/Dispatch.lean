import FactoryFloor.InstallationRuns

/-!
# At most one dispatch

The provider is asked to dispatch an action at most once (`at_most_one_dispatch`). What protects
the call is the status of the action : a call is prepared by the transaction that moves the action
from `authorized` to `dispatching`, and no step takes an action that was sent back to `authorized`
(`ActionMove.sent`). So at any time the calls that are prepared and the dispatches that were made
are of different actions, and each of these has been sent (`Sent`).
-/

namespace FactoryFloor

open Relational Transition

variable {P : Platform} {s t : Installation} {l : InstallationLabel}

/-! ## Sent actions -/

/-- Whether an action has been moved to `dispatching`. -/
def ExternalActionStatus.sent : ExternalActionStatus → Bool
  | .dispatching | .acknowledged | .reconciled | .failed | .indeterminate => true
  | _ => false

/-- No step takes a sent action back. -/
theorem ActionMove.sent {a a' : ExternalAction} (h : ActionMove s l a a') (hs : a.status.sent) :
    a'.status.sent := by
  cases h with
  | same => exact hs
  | decided hdecides =>
    simp only [policyDecides, Bool.and_eq_true, Bool.or_eq_true, decide_eq_true_eq] at hdecides
    rcases hdecides.1 with h | h <;> simp [h, ExternalActionStatus.sent] at hs
  | approved h => simp [h, ExternalActionStatus.sent] at hs
  | cancelled h => simp [h, ExternalActionStatus.sent] at hs
  | dispatched h => rfl
  | @answered _ _ asked attemptId result h hcall =>
    cases asked <;> cases hr : result.status <;>
      simp [answeredStatus, hr, ExternalActionStatus.sent]

/-- Some earlier step has dispatched the action. It was authorized then, and its region was running
in the epoch of its execution. -/
def DispatchedBefore (P : Platform) (s : Installation) (actionId : Uuid) : Prop :=
  ∃ u v, (installation P).Reachable u ∧ InstallationStep P u (.dispatch actionId) v ∧
    (installation P).Later v s ∧ ∃ a ∈ u.db.actions, a.id = actionId ∧ a.status = .authorized ∧
      u.db.HasAuthority a ∧ ∃ a' ∈ v.db.actions, a'.id = actionId ∧ a'.status = .dispatching

/-- An action that an earlier step has dispatched. -/
structure Sent (P : Platform) (s : Installation) (actionId : Uuid) : Prop where
  row : ∃ a ∈ s.db.actions, a.id = actionId ∧ a.status.sent
  before : DispatchedBefore P s actionId

/-- A sent action stays sent. -/
theorem Sent.step (hs : Installed P s) {actionId : Uuid} (h : Sent P s actionId)
    (hstep : InstallationStep P s l t) : Sent P t actionId := by
  obtain ⟨⟨a, ha, hid, hsent⟩, u, v, hu, hdispatch, hlater, hrow⟩ := h
  obtain ⟨a', ha', hmove⟩ := (hstep.actions hs).kept ha
  exact ⟨⟨a', ha', hmove.id.trans hid, hmove.sent hsent⟩, u, v, hu, hdispatch,
    hlater.next hstep, hrow⟩

/-! ## Calls -/

/-- The action a prepared call is about to dispatch. -/
def CallPhase.dispatches : CallPhase → Option Uuid
  | .prepared request _ => some request.actionId
  | _ => none

/-- The actions of the calls that are prepared, and of the dispatches that were made. -/
def sentIds (s : Installation) : List Uuid :=
  s.calls.filterMap (·.phase.dispatches) ++ s.dispatched.map (·.actionId)

/-- What a step adds to the actions that were sent : the one action that it dispatches. -/
theorem InstallationStep.sentIds (hs : (installation P).Reachable s)
    (hstep : InstallationStep P s l t) :
    (FactoryFloor.sentIds t).Subperm (FactoryFloor.sentIds s) ∨
      ∃ actionId, FactoryFloor.sentIds t = actionId :: FactoryFloor.sentIds s ∧
        Sent P t actionId ∧ ¬Sent P s actionId := by
  have hinstalled := reachable_installed hs
  cases hstep with
  | runtime | requestApproval | decidePolicy | configureBudgets | startPass | finishPass =>
    exact Or.inl (List.Subperm.refl _)
  | decideApproval hop => exact Or.inl (List.Subperm.refl _)
  | @dispatch actionId preparation t hop =>
    have hstep : InstallationStep P s (.dispatch actionId)
      { s.store t with calls := preparation.call.toList ++ s.calls } := .dispatch hop
    rcases prepareDispatch_eq_ok hop with
      ⟨hnone, rfl⟩ | ⟨a, e, r, hrow, hauthorized, ⟨hnone, -, rfl⟩ | ⟨hauthority, outcome, reservations,
        n, -, ⟨-, hnone, rfl⟩ | ⟨-, hstart⟩⟩⟩
    · exact Or.inl (by rw [hnone]; exact List.Subperm.refl _)
    · exact Or.inl (by rw [hnone]; exact List.Subperm.refl _)
    · exact Or.inl (by rw [hnone]; exact List.Subperm.refl _)
    · obtain ⟨attempt, -, -, -, -, -, rfl, rfl⟩ := startDispatch_eq_ok hstart
      obtain ⟨ha, haid, he, heid, hr, hrid⟩ := dispatchRow_eq_some hrow
      simp only [hasAuthority, Bool.and_eq_true, decide_eq_true_eq] at hauthority
      obtain ⟨a', ha', hid', hstatus⟩ : ∃ a' ∈ updateWhere (·.id = a.id)
          (fun b => { b with status := .dispatching }) s.db.actions, a'.id = actionId ∧
            a'.status = .dispatching :=
        ⟨{ a with status := .dispatching }, mem_updateWhere.2 ⟨a, ha, by simp⟩, haid, rfl⟩
      refine Or.inr ⟨actionId, ?_, ⟨⟨a', ha', hid', by rw [hstatus]; rfl⟩, s, _, hs, hstep, .refl, a, ha,
        haid, hauthorized, ⟨e, he, heid, r, hr, hrid, hauthority.1, hauthority.2⟩, a', ha', hid',
        hstatus⟩, ?_⟩
      · simp [FactoryFloor.sentIds, DispatchPreparation.call, CallPhase.dispatches, providerRequest, haid,
          Installation.store]
      · rintro ⟨⟨b, hb, hbid, hsent⟩, -⟩
        obtain rfl := hinstalled.actions.eq hb ha (hbid.trans haid.symm)
        simp [hauthorized, ExternalActionStatus.sent] at hsent
  | @invoke request attemptId pass pre post hmem =>
    refine Or.inl (List.Perm.subperm ?_)
    simp only [FactoryFloor.sentIds, hmem, List.filterMap_append, List.filterMap_cons,
      CallPhase.dispatches, List.map_cons, List.append_assoc]
    exact (List.Perm.append_left _ (List.perm_middle)).trans (by simp)
  | @reconcile actionId asked hop =>
    refine Or.inl (List.Perm.subperm ?_)
    cases asked <;> simp [FactoryFloor.sentIds, CallPhase.dispatches]
  | @answer asked actionId attemptId result pass pre post hmem =>
    exact Or.inl (List.Perm.subperm (by simp [FactoryFloor.sentIds, hmem, CallPhase.dispatches]))
  | @persist asked actionId attemptId result pass pre post t hmem hop =>
    refine Or.inl (List.Perm.subperm ?_)
    unfold afterPersist
    split <;> simp [FactoryFloor.sentIds, hmem, CallPhase.dispatches, Installation.store]
  | @settle actionId pass pre post settled db hmem hop =>
    exact Or.inl (List.Perm.subperm (by simp [FactoryFloor.sentIds, hmem, CallPhase.dispatches]))
  | @stop call pre post hmem =>
    refine Or.inl (List.Sublist.subperm ?_)
    simp only [FactoryFloor.sentIds, hmem]
    refine List.Sublist.append_right (List.Sublist.filterMap _ ?_) _
    exact List.Sublist.append_left (List.sublist_cons_self call post) pre
  | @passNext id actionId remaining terminal pre post asked hmem hidle hop =>
    refine Or.inl (List.Perm.subperm ?_)
    cases asked <;> simp [FactoryFloor.sentIds, CallPhase.dispatches]

/-- The calls that are prepared and the dispatches that were made are of different actions, which
were sent. -/
theorem sentIds_reachable (h : (installation P).Reachable s) :
    (sentIds s).Nodup ∧ ∀ actionId ∈ sentIds s, Sent P s actionId := by
  refine h.invariant_of (I := fun s => (sentIds s).Nodup ∧ ∀ id ∈ sentIds s, Sent P s id) ?_ ?_
  · intro s hs
    have hnil : sentIds s = [] := by simp [sentIds, hs.calls, hs.dispatched]
    simp [hnil]
  · intro s l t hs ⟨hnodup, hsent⟩ hstep
    have hkeep : ∀ id ∈ sentIds s, Sent P t id := fun id hid =>
      (hsent id hid).step (reachable_installed hs) hstep
    rcases InstallationStep.sentIds hs hstep with hsub | ⟨actionId, hcons, hnew, hold⟩
    · obtain ⟨ids, hperm, hsublist⟩ := id hsub
      exact ⟨hperm.nodup_iff.1 (hnodup.sublist hsublist), fun id hid => hkeep id (hsub.subset hid)⟩
    · rw [hcons]
      refine ⟨List.nodup_cons.2 ⟨fun hmem => hold (hsent actionId hmem), hnodup⟩, ?_⟩
      exact List.forall_mem_cons.2 ⟨hnew, hkeep⟩

/-- At most one dispatch : the provider is asked to dispatch an action at most once, and only after
a step that moved the action to `dispatching`. -/
structure AtMostOneDispatch (P : Platform) (s : Installation) : Prop where
  once : (s.dispatched.map (·.actionId)).Nodup
  before : ∀ request ∈ s.dispatched, DispatchedBefore P s request.actionId

theorem at_most_one_dispatch (h : (installation P).Reachable s) : AtMostOneDispatch P s := by
  obtain ⟨hnodup, hsent⟩ := sentIds_reachable h
  refine ⟨(List.nodup_append.1 hnodup).2.1, fun request hrequest => (hsent _ ?_).before⟩
  exact List.mem_append_right _ (List.mem_map_of_mem hrequest)

theorem at_most_one_dispatch_shop : ∃ s,
    performs shopPlatform (fun _ _ => true) (shop []) shopDispatched = some s ∧
      s.dispatched.map (·.actionId) = [1014] ∧ AtMostOneDispatch shopPlatform s := by
  have hsome : (performs shopPlatform (fun _ _ => true) (shop []) shopDispatched).map
      (fun s => s.dispatched.map (·.actionId)) = some [1014] := rfl
  obtain ⟨s, hs, hids⟩ := Option.map_eq_some_iff.1 hsome
  exact ⟨s, hs, hids, at_most_one_dispatch
    (performs_reachable (shop_initial (by simp) (by decide) (by simp)) hs).of_restrict⟩

end FactoryFloor
