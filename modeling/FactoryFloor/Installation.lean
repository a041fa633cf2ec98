import FactoryFloor.Execution
import FactoryFloor.ExternalActions

/-!
# The runtime with its external actions

An `Installation` is the runtime together with the calls that dispatch and reconcile external
actions, and with the configuration of budgets. A step is a step of the runtime, a transaction of
one of these calls, or the provider's answer. A call is a `Call` between its transactions, and it
may stop at any time. A pass of `reconcilePending` is a `ReconcilePass` : it reconciles its
candidates one after another, and ends with the first call that stops.

The runtime has no code that takes a proposal to its approval. The step `decidePolicy` stands for
it : it decides about actions that are proposed or checked, and about no others.

`dispatched` is the list of the provider's dispatches, and `recovered` are the actions that had
their last status when some pass started that has been completed. No step reads them.
-/

namespace FactoryFloor

open Relational Transition

/-! ## States -/

/-- A call between two of its transactions. -/
inductive CallPhase where
  /-- `dispatch` has moved the action, and is about to call the provider. -/
  | prepared (request : ExternalActionProviderRequest) (attemptId : Uuid)
  /-- The provider has been called. -/
  | awaiting (asked : Asked) (actionId attemptId : Uuid)
  /-- The provider has answered. -/
  | answered (asked : Asked) (actionId attemptId : Uuid) (result : ExternalActionProviderResult)
  /-- The answer is stored, and the reservation is to be settled. -/
  | settling (actionId : Uuid)

/-- A call, and the pass it belongs to. -/
structure Call where
  pass : Option ℕ
  phase : CallPhase

/-- A pass of `reconcilePending`. -/
structure ReconcilePass where
  id : ℕ
  remaining : List Uuid
  /-- The actions that had their last status when the pass started. -/
  terminal : List Uuid

structure Installation extends State where
  actionAttempts : List ExternalActionAttempt
  approvals : List Approval
  calls : List Call
  reconciling : List ReconcilePass
  dispatched : List ExternalActionProviderRequest
  recovered : List Uuid

namespace Installation

/-- The tables of an installation. -/
def tables (s : Installation) : ActionDb :=
  { s.db with actionAttempts := s.actionAttempts, approvals := s.approvals }

/-- An installation after a transaction. -/
def store (s : Installation) (t : ActionDb) : Installation :=
  { s with db := t.toDb, actionAttempts := t.actionAttempts, approvals := t.approvals }

end Installation

/-- `reconciled` or `failed`. -/
def ExternalActionStatus.last : ExternalActionStatus → Bool
  | .reconciled | .failed => true
  | _ => false

/-- The actions that have their last status. -/
def terminalActions (db : Db) : List Uuid :=
  (db.actions.filter (·.status.last)).map (·.id)

/-! ## Steps -/

inductive InstallationLabel where
  | runtime (l : Label)
  | requestApproval (approvalId : Uuid)
  | decidePolicy (actionId : Uuid) (status : ExternalActionStatus) (approvalId : Option Uuid)
  | decideApproval (context : OperatorContext) (approvalId : Uuid) (input : ApprovalDecisionRequest)
  | configureBudgets (regionId : Uuid) (parentRegionId : Option Uuid)
      (limits : List NormalizedBudgetLimit)
  | dispatch (actionId : Uuid)
  | invoke (request : ExternalActionProviderRequest)
  | reconcile (actionId : Uuid)
  | answer (actionId : Uuid) (result : ExternalActionProviderResult)
  | persist (actionId : Uuid) (result : ExternalActionProviderResult)
  | settle (actionId : Uuid)
  | stop (call : CallPhase)
  | startPass (limit : ℕ)
  | passNext (actionId : Uuid)
  | finishPass (pass : ReconcilePass)

/-- Whether a label of the runtime stands for the dispatch of an action. -/
def Label.movesAction : Label → Bool
  | .maintain (.moveAction _ _) => true
  | _ => false

/-- What the policy may decide about an action. -/
def policyDecides (old new : ExternalActionStatus) : Bool :=
  (old = .proposed || old = .policyChecked) &&
    (new = .policyChecked || new = .awaitingApproval || new = .authorized || new = .denied)

/-- The call of a prepared dispatch. -/
def DispatchPreparation.call : DispatchPreparation → Option Call
  | .dispatch request attemptId => some ⟨none, .prepared request attemptId⟩
  | _ => none

/-- The call that goes on after an answer is stored. -/
def afterPersist (pass : Option ℕ) (actionId : Uuid) (status : ProviderStatus) : Option Call :=
  if status = .indeterminate then none else some ⟨pass, .settling actionId⟩

inductive InstallationStep (P : Platform) :
    Installation → InstallationLabel → Installation → Prop
  | runtime {s : Installation} {l : Label} {t : State} (hstep : Step P s.toState l t)
      (hmoves : l.movesAction = false) :
      InstallationStep P s (.runtime l) { s with toState := t }
  | requestApproval {s : Installation} {approvalId : Uuid} :
      InstallationStep P s (.requestApproval approvalId)
        { s with approvals := s.approvals ++ [⟨approvalId, .requested, none, none, none, none, none⟩] }
  | decidePolicy {s : Installation} {actionId : Uuid} {status : ExternalActionStatus}
      {approvalId : Option Uuid}
      (hstatus : ∀ a ∈ s.db.actions, a.id = actionId → policyDecides a.status status) :
      InstallationStep P s (.decidePolicy actionId status approvalId)
        { s with db := { s.db with
          actions := updateWhere (·.id = actionId) (fun a => { a with status, approvalId })
            s.db.actions } }
  | decideApproval {s : Installation} {context : OperatorContext} {approvalId : Uuid}
      {input : ApprovalDecisionRequest} {disposition : DecisionDisposition} {t : ActionDb}
      (hop : decideApproval P s.now context approvalId input s.tables = .ok (disposition, t)) :
      InstallationStep P s (.decideApproval context approvalId input) (s.store t)
  | configureBudgets {s : Installation} {regionId : Uuid} {parentRegionId : Option Uuid}
      {limits : List NormalizedBudgetLimit} {db : Db}
      (hop : configureRegionBudgets P s.now regionId parentRegionId limits s.db = .ok db) :
      InstallationStep P s (.configureBudgets regionId parentRegionId limits) { s with db }
  | dispatch {s : Installation} {actionId : Uuid} {preparation : DispatchPreparation}
      {t : ActionDb} (hop : prepareDispatch P actionId s.tables = .ok (preparation, t)) :
      InstallationStep P s (.dispatch actionId)
        { s.store t with calls := preparation.call.toList ++ s.calls }
  | invoke {s : Installation} {request : ExternalActionProviderRequest} {attemptId : Uuid}
      {pass : Option ℕ} {pre post : List Call}
      (hmem : s.calls = pre ++ ⟨pass, .prepared request attemptId⟩ :: post) :
      InstallationStep P s (.invoke request)
        { s with calls := pre ++ ⟨pass, .awaiting .dispatch request.actionId attemptId⟩ :: post,
                 dispatched := request :: s.dispatched }
  | reconcile {s : Installation} {actionId : Uuid}
      {asked : Option (ExternalActionProviderRequest × Uuid)}
      (hop : beginReconcile actionId s.tables = .ok asked) :
      InstallationStep P s (.reconcile actionId)
        { s with calls :=
            (asked.map fun a => ⟨none, .awaiting .reconcile a.1.actionId a.2⟩).toList ++ s.calls }
  | answer {s : Installation} {asked : Asked} {actionId attemptId : Uuid}
      {result : ExternalActionProviderResult} {pass : Option ℕ} {pre post : List Call}
      (hmem : s.calls = pre ++ ⟨pass, .awaiting asked actionId attemptId⟩ :: post) :
      InstallationStep P s (.answer actionId result)
        { s with calls := pre ++ ⟨pass, .answered asked actionId attemptId result⟩ :: post }
  | persist {s : Installation} {asked : Asked} {actionId attemptId : Uuid}
      {result : ExternalActionProviderResult} {pass : Option ℕ} {pre post : List Call} {t : ActionDb}
      (hmem : s.calls = pre ++ ⟨pass, .answered asked actionId attemptId result⟩ :: post)
      (hop : persistResult s.now actionId attemptId asked result s.tables = .ok t) :
      InstallationStep P s (.persist actionId result)
        { s.store t with
          calls := pre ++ (afterPersist pass actionId result.status).toList ++ post }
  | settle {s : Installation} {actionId : Uuid} {pass : Option ℕ} {pre post : List Call}
      {settled : Bool} {db : Db} (hmem : s.calls = pre ++ ⟨pass, .settling actionId⟩ :: post)
      (hop : reconcileNetworkReservation actionId s.db = .ok (settled, db)) :
      InstallationStep P s (.settle actionId) { s with db, calls := pre ++ post }
  /-- A call fails or stops, and the pass it belongs to with it. -/
  | stop {s : Installation} {call : Call} {pre post : List Call}
      (hmem : s.calls = pre ++ call :: post) :
      InstallationStep P s (.stop call.phase)
        { s with calls := pre ++ post,
                 reconciling := s.reconciling.filter (some ·.id ≠ call.pass) }
  | startPass {s : Installation} {id limit : ℕ} (hlimit : 0 < limit)
      (hid : (∀ c ∈ s.calls, c.pass ≠ some id) ∧ ∀ p ∈ s.reconciling, p.id ≠ id) :
      InstallationStep P s (.startPass limit)
        { s with reconciling :=
            ⟨id, pendingReconciliations limit s.db, terminalActions s.db⟩ :: s.reconciling }
  | passNext {s : Installation} {id : ℕ} {actionId : Uuid} {remaining terminal : List Uuid}
      {pre post : List ReconcilePass} {asked : Option (ExternalActionProviderRequest × Uuid)}
      (hmem : s.reconciling = pre ++ ⟨id, actionId :: remaining, terminal⟩ :: post)
      (hidle : ∀ c ∈ s.calls, c.pass ≠ some id)
      (hop : beginReconcile actionId s.tables = .ok asked) :
      InstallationStep P s (.passNext actionId)
        { s with
          calls :=
            (asked.map fun a => ⟨some id, .awaiting .reconcile a.1.actionId a.2⟩).toList ++ s.calls
          reconciling := pre ++ ⟨id, remaining, terminal⟩ :: post }
  | finishPass {s : Installation} {id : ℕ} {terminal : List Uuid} {pre post : List ReconcilePass}
      (hmem : s.reconciling = pre ++ ⟨id, [], terminal⟩ :: post)
      (hidle : ∀ c ∈ s.calls, c.pass ≠ some id) :
      InstallationStep P s (.finishPass ⟨id, [], terminal⟩)
        { s with reconciling := pre ++ post, recovered := terminal ++ s.recovered }

/-- An installation before any work. The ids of its budgets are not drawn again, and the budgets
pass the checks of their table. -/
structure InitialInstallation (P : Platform) (s : Installation) : Prop where
  state : Initial P s.toState
  budgets : ∀ b ∈ s.db.budgets, ∀ n, s.db.drawn ≤ n → P.uuid n ≠ b.id
  budgetRows : ∀ b ∈ s.db.budgets, Row.violation b = none
  actionAttempts : s.actionAttempts = []
  calls : s.calls = []
  reconciling : s.reconciling = []
  dispatched : s.dispatched = []
  recovered : s.recovered = []

/-- The runtime with its external actions. -/
def installation (P : Platform) : System Installation InstallationLabel :=
  ⟨InitialInstallation P, InstallationStep P⟩

end FactoryFloor
