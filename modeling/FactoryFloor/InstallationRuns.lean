import FactoryFloor.InstallationSound

/-!
# Executing runs of an installation

The steps of an installation as a function, as `Execution` has them for the runtime. A call or a
pass is named by its position. `perform_step` says that what `perform` returns is a step.
`performs` stops at a step that does not meet its condition.
-/

namespace FactoryFloor

open Relational Transition

/-! ## Actions -/

/-- A step, by what its caller chooses. -/
inductive InstallationAction where
  | runtime (a : Action)
  | requestApproval (approvalId : Uuid)
  | decidePolicy (actionId : Uuid) (status : ExternalActionStatus) (approvalId : Option Uuid)
  | decideApproval (context : OperatorContext) (approvalId : Uuid) (input : ApprovalDecisionRequest)
  | configureBudgets (regionId : Uuid) (parentRegionId : Option Uuid)
      (limits : List NormalizedBudgetLimit)
  | dispatch (actionId : Uuid)
  | invoke (call : ℕ)
  | reconcile (actionId : Uuid)
  | answer (call : ℕ) (result : ExternalActionProviderResult)
  | persist (call : ℕ)
  | settle (call : ℕ)
  | stop (call : ℕ)
  | startPass (id limit : ℕ)
  | passNext (pass : ℕ)
  | finishPass (pass : ℕ)

variable (P : Platform) (s : Installation)

/-- The first transaction of a reconciliation, for a pass or for none. -/
def performReconcile (pass : Option ℕ) (actionId : Uuid) : Option (List Call) :=
  match beginReconcile actionId s.tables with
  | .ok asked => some ((asked.map fun a => ⟨pass, .awaiting .reconcile a.1.actionId a.2⟩).toList)
  | .error _ => none

/-- The step an action names, and the state after it. -/
def perform : InstallationAction → Option (InstallationLabel × Installation)
  | .runtime a =>
    (act P s.toState a).bind fun lt =>
      if lt.1.movesAction then none else some (.runtime lt.1, { s with toState := lt.2 })
  | .requestApproval approvalId =>
    some (.requestApproval approvalId,
      { s with approvals := s.approvals ++ [⟨approvalId, .requested, none, none, none, none, none⟩] })
  | .decidePolicy actionId status approvalId =>
    if ∀ a ∈ s.db.actions, a.id = actionId → policyDecides a.status status then
      some (.decidePolicy actionId status approvalId,
        { s with db := { s.db with
          actions := updateWhere (·.id = actionId) (fun a => { a with status, approvalId })
            s.db.actions } })
    else none
  | .decideApproval context approvalId input =>
    match decideApproval P s.now context approvalId input s.tables with
    | .ok (_, t) => some (.decideApproval context approvalId input, s.store t)
    | .error _ => none
  | .configureBudgets regionId parentRegionId limits =>
    match configureRegionBudgets P s.now regionId parentRegionId limits s.db with
    | .ok db => some (.configureBudgets regionId parentRegionId limits, { s with db })
    | .error _ => none
  | .dispatch actionId =>
    match prepareDispatch P actionId s.tables with
    | .ok (preparation, t) =>
      some (.dispatch actionId, { s.store t with calls := preparation.call.toList ++ s.calls })
    | .error _ => none
  | .invoke call =>
    match s.calls.drop call with
    | ⟨pass, .prepared request attemptId⟩ :: post =>
      some (.invoke request,
        { s with
          calls := s.calls.take call ++
            ⟨pass, .awaiting .dispatch request.actionId attemptId⟩ :: post
          dispatched := request :: s.dispatched })
    | _ => none
  | .reconcile actionId =>
    (performReconcile s none actionId).map fun calls =>
      (.reconcile actionId, { s with calls := calls ++ s.calls })
  | .answer call result =>
    match s.calls.drop call with
    | ⟨pass, .awaiting asked actionId attemptId⟩ :: post =>
      some (.answer actionId result,
        { s with calls :=
            s.calls.take call ++ ⟨pass, .answered asked actionId attemptId result⟩ :: post })
    | _ => none
  | .persist call =>
    match s.calls.drop call with
    | ⟨pass, .answered asked actionId attemptId result⟩ :: post =>
      match persistResult s.now actionId attemptId asked result s.tables with
      | .ok t =>
        some (.persist actionId result,
          { s.store t with
            calls := s.calls.take call ++
              (afterPersist pass actionId result.status).toList ++ post })
      | .error _ => none
    | _ => none
  | .settle call =>
    match s.calls.drop call with
    | ⟨_, .settling actionId⟩ :: post =>
      match reconcileNetworkReservation actionId s.db with
      | .ok (_, db) => some (.settle actionId, { s with db, calls := s.calls.take call ++ post })
      | .error _ => none
    | _ => none
  | .stop call =>
    match s.calls.drop call with
    | c :: post =>
      some (.stop c.phase,
        { s with calls := s.calls.take call ++ post,
                 reconciling := s.reconciling.filter (some ·.id ≠ c.pass) })
    | [] => none
  | .startPass id limit =>
    if 0 < limit ∧ (∀ c ∈ s.calls, c.pass ≠ some id) ∧ ∀ p ∈ s.reconciling, p.id ≠ id then
      some (.startPass limit,
        { s with reconciling :=
            ⟨id, pendingReconciliations limit s.db, terminalActions s.db⟩ :: s.reconciling })
    else none
  | .passNext pass =>
    match s.reconciling.drop pass with
    | ⟨id, actionId :: remaining, terminal⟩ :: post =>
      if ∀ c ∈ s.calls, c.pass ≠ some id then
        (performReconcile s (some id) actionId).map fun calls =>
          (.passNext actionId,
            { s with calls := calls ++ s.calls,
                     reconciling := s.reconciling.take pass ++ ⟨id, remaining, terminal⟩ :: post })
      else none
    | _ => none
  | .finishPass pass =>
    match s.reconciling.drop pass with
    | ⟨id, [], terminal⟩ :: post =>
      if ∀ c ∈ s.calls, c.pass ≠ some id then
        some (.finishPass ⟨id, [], terminal⟩,
          { s with reconciling := s.reconciling.take pass ++ post,
                   recovered := terminal ++ s.recovered })
      else none
    | _ => none

variable {P s} {t : Installation} {l : InstallationLabel}

theorem performReconcile_eq_some {pass : Option ℕ} {actionId : Uuid} {calls : List Call}
    (h : performReconcile s pass actionId = some calls) :
    ∃ asked, beginReconcile actionId s.tables = .ok asked ∧
      calls = (asked.map fun a => ⟨pass, .awaiting .reconcile a.1.actionId a.2⟩).toList := by
  unfold performReconcile at h
  split at h
  · exact ⟨_, ‹_›, (Option.some.inj h).symm⟩
  · simp at h

/-- What `perform` returns is a step. -/
theorem perform_step {a : InstallationAction} (h : perform P s a = some (l, t)) :
    InstallationStep P s l t := by
  unfold perform at h
  split at h
  · obtain ⟨⟨k, u⟩, hact, h⟩ := Option.bind_eq_some_iff.1 h
    split at h
    · simp at h
    · rename_i hmoves
      obtain ⟨rfl, rfl⟩ := Prod.mk.inj (Option.some.inj h)
      exact .runtime (act_step hact) (by simpa using hmoves)
  · obtain ⟨rfl, rfl⟩ := Prod.mk.inj (Option.some.inj h)
    exact .requestApproval
  · split at h
    · obtain ⟨rfl, rfl⟩ := Prod.mk.inj (Option.some.inj h)
      exact .decidePolicy ‹_›
    · simp at h
  · split at h
    · obtain ⟨rfl, rfl⟩ := Prod.mk.inj (Option.some.inj h)
      exact .decideApproval ‹_›
    · simp at h
  · split at h
    · obtain ⟨rfl, rfl⟩ := Prod.mk.inj (Option.some.inj h)
      exact .configureBudgets ‹_›
    · simp at h
  · split at h
    · obtain ⟨rfl, rfl⟩ := Prod.mk.inj (Option.some.inj h)
      exact .dispatch ‹_›
    · simp at h
  · split at h
    · rename_i hdrop
      obtain ⟨rfl, rfl⟩ := Prod.mk.inj (Option.some.inj h)
      exact .invoke (split_of_drop hdrop)
    · simp at h
  · obtain ⟨calls, hcalls, h⟩ := Option.map_eq_some_iff.1 h
    obtain ⟨asked, hop, rfl⟩ := performReconcile_eq_some hcalls
    obtain ⟨rfl, rfl⟩ := Prod.mk.inj h
    exact .reconcile hop
  · split at h
    · rename_i hdrop
      obtain ⟨rfl, rfl⟩ := Prod.mk.inj (Option.some.inj h)
      exact .answer (split_of_drop hdrop)
    · simp at h
  · split at h
    · rename_i hdrop
      split at h
      · obtain ⟨rfl, rfl⟩ := Prod.mk.inj (Option.some.inj h)
        exact .persist (split_of_drop hdrop) ‹_›
      · simp at h
    · simp at h
  · split at h
    · rename_i hdrop
      split at h
      · obtain ⟨rfl, rfl⟩ := Prod.mk.inj (Option.some.inj h)
        exact .settle (split_of_drop hdrop) ‹_›
      · simp at h
    · simp at h
  · split at h
    · rename_i hdrop
      obtain ⟨rfl, rfl⟩ := Prod.mk.inj (Option.some.inj h)
      exact .stop (split_of_drop hdrop)
    · simp at h
  · split at h
    · rename_i hid
      obtain ⟨rfl, rfl⟩ := Prod.mk.inj (Option.some.inj h)
      exact .startPass hid.1 hid.2
    · simp at h
  · split at h
    · rename_i hdrop
      split at h
      · obtain ⟨calls, hcalls, h⟩ := Option.map_eq_some_iff.1 h
        obtain ⟨asked, hop, rfl⟩ := performReconcile_eq_some hcalls
        obtain ⟨rfl, rfl⟩ := Prod.mk.inj h
        exact .passNext (split_of_drop hdrop) ‹_› hop
      · simp at h
    · simp at h
  · split at h
    · rename_i hdrop
      split at h
      · obtain ⟨rfl, rfl⟩ := Prod.mk.inj (Option.some.inj h)
        exact .finishPass (split_of_drop hdrop) ‹_›
      · simp at h
    · simp at h

/-! ## Runs -/

/-- The state after some actions, as long as the steps meet a condition. -/
def performs (P : Platform) (ok : Installation → InstallationLabel → Bool) :
    Installation → List InstallationAction → Option Installation
  | s, [] => some s
  | s, a :: as => (perform P s a).bind fun lt => if ok s lt.1 then performs P ok lt.2 as else none

theorem performs_later {ok : Installation → InstallationLabel → Bool} {as : List InstallationAction}
    (h : performs P ok s as = some t) :
    ((installation P).restrict fun s l => ok s l).Later s t := by
  induction as generalizing s with
  | nil =>
    obtain rfl := Option.some.inj h
    exact .refl
  | cons a as ih =>
    obtain ⟨⟨k, u⟩, hact, h⟩ := Option.bind_eq_some_iff.1 h
    dsimp only at h
    split at h
    · have hstep : ((installation P).restrict fun s l => ok s l).step s k u :=
        ⟨perform_step hact, ‹_›⟩
      exact (System.Later.refl.next hstep).trans (ih h)
    · simp at h

/-- The state some actions lead to is reachable by steps that meet the condition. -/
theorem performs_reachable {ok : Installation → InstallationLabel → Bool}
    {as : List InstallationAction} (hs : InitialInstallation P s)
    (h : performs P ok s as = some t) :
    ((installation P).restrict fun s l => ok s l).Reachable t :=
  System.Reachable.later (.start hs) (performs_later h)

/-! ## A shop -/

/-- The installation of a deployment before any work. -/
def install (s : State) : Installation :=
  { toState := s, actionAttempts := [], approvals := [], calls := [], reconciling := [],
    dispatched := [], recovered := [] }

/-- A platform that decodes every capability handle to one grant. -/
def shopPlatform : Platform :=
  { samplePlatform with base64url := fun _ => .uuid 600 }

/-- The plant, whose press has a grant. -/
def shopCatalog : Catalog :=
  { plantCatalog with capabilities := [⟨700, none⟩], grants := [⟨600, 700, 400, true⟩] }

/-- The shop before any work, under some budgets. -/
def shop (budgets : List ResourceBudget) : Installation :=
  install (deploy shopCatalog [⟨100, none, "plant", .running, 1, some 200⟩] budgets 1000)

/-- A budget of the shop for a resource. -/
def shopBudget (id : Uuid) (resourceType : String) (limitQuantity : ℕ) : ResourceBudget :=
  { id, scopeId := 100, parentBudgetId := none, resourceType, unit := "count", limitQuantity,
    exhaustionOutcome := .defer, retiredAt := none }

theorem shop_initial {budgets : List ResourceBudget} (hids : ∀ b ∈ budgets, b.id < 1000)
    (hkeyed : Keyed (·.id) budgets) (hrows : ∀ b ∈ budgets, Row.violation b = none) :
    InitialInstallation shopPlatform (shop budgets) := by
  have hplant : WellFormed (deployDb shopCatalog [⟨100, none, "plant", .running, 1, some 200⟩] []
      1000) := by decide
  refine ⟨?_, fun b hb n hn => ?_, hrows, rfl, rfl, rfl, rfl, rfl⟩
  · refine ⟨hplant.congr rfl hkeyed rfl, rfl, rfl, rfl, rfl, rfl, rfl, rfl, rfl, rfl, rfl, rfl, rfl,
      rfl, rfl, rfl, ⟨List.nodup_nil, List.nodup_nil, by simp [shop, install, deploy, deployDb]⟩, ?_,
      rfl, rfl, rfl, rfl⟩
    simp [shop, install, deploy, deployDb]
  · exact (lt_of_lt_of_le (hids b hb) hn).ne'

/-- The identity of the first attempt of the shop. -/
def shopIdentity : AttemptIdentityInput :=
  { executionId := 1003, attemptId := 1006, leaseToken := 1007, regionFencingEpoch := some 1,
    lifecycleEpoch := none }

/-- The request artifact that the first attempt stages. -/
def shopRequest : Staged :=
  { stagingId := 1008, portName := "out", digest := 1, sizeBytes := 1,
    mediaType := "application/json", schemaId := .uuid 500, schemaDigest := 7,
    provenance := .execution 1003 1006 }

/-- A proposal of the first attempt. -/
def shopProposal (proposalId : Uuid) (actionType : String) : ExternalActionProposal :=
  { proposalId, actionType, idempotencyKey := "key", capabilityHandle := "ffcap_handle",
    requestArtifact := shopRequest, risk := .low }

/-- The first attempt is leased, and has staged its request. -/
def shopStaged : List InstallationAction :=
  [.runtime (.submit (plantCommand "start" "c")), .runtime poll,
    .runtime (.stage 1000 { shopIdentity with
      portName := "out", mediaType := "application/json", expectedDigest := 1,
      expectedSizeBytes := 1 }),
    .runtime (.uploadBlob 1008 shopIdentity [0]), .runtime (.recordUpload 1008 shopIdentity [0])]

/-- The first attempt completes, and proposes actions. -/
def shopProposed (proposals : List ExternalActionProposal) : List InstallationAction :=
  shopStaged ++
    [.runtime (.handoff { plantResult .completed 1003 1006 1007 with
        externalActionProposals := proposals }),
      .runtime (.read 0), .runtime (.commit 0 plantStores)]

/-- The action 1014 is proposed, authorized and dispatched, and the provider is called. -/
def shopDispatched : List InstallationAction :=
  shopProposed [shopProposal 800 "mail"] ++
    [.decidePolicy 1014 .authorized none, .dispatch 1014, .invoke 0]

end FactoryFloor
