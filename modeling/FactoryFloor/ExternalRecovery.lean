import FactoryFloor.Knowledge
import FactoryFloor.Windows

/-!
# Recovery of external actions

`reconcilePending` takes the oldest uncertain actions up to its limit, and reconciles one after the
other. An action whose answer is definite gets its last status and leaves the queue. One whose answer
stays indeterminate keeps its place at the front, and is taken again by the next pass. An error of the
provider ends the pass, since `reconcile` catches none (`dispatch` does store an indeterminate answer
for the error that stands for a lost response).

So the uncertain actions are a queue behind a window (`Windows`). `recovery_progresses_iff` says when
repeated passes settle every action with a definite answer : when no action that makes the provider
throw, and fewer actions without a definite answer than the limit, are ahead.

A provider is what it answers in a pass, or the error it throws. Nothing else runs between the
passes.
-/

namespace FactoryFloor

open Relational Transition

/-! ## Passes -/

/-- `ExternalActionReconciliationReport`. -/
structure ExternalActionReconciliationReport where
  scanned : ℕ
  reconciled : ℕ
  failed : ℕ
  indeterminate : ℕ
deriving DecidableEq, Repr

/-- `ExternalActionProvider.reconcile`. -/
abbrev ReconcileProvider := ExternalActionProviderRequest → Outcome ExternalActionProviderResult

variable (now : Uuid → Time) (provider : ReconcileProvider) (limit : ℤ)

/-- `reconcile`, with the tables it leaves : an error keeps what was stored before it. The answer
about an action is stored at its time. -/
def reconcileAction (actionId : Uuid) (t : ActionDb) :
    Outcome (Option ExternalActionStatus) × ActionDb :=
  match beginReconcile actionId t with
  | .error e => (.error e, t)
  | .ok none => (.ok ((t.actions.find? (·.id = actionId)).map (·.status)), t)
  | .ok (some (request, attemptId)) =>
    match provider request with
    | .error e => (.error e, t)
    | .ok result =>
      match persistResult (now actionId) actionId attemptId .reconcile result t with
      | .error e => (.error e, t)
      | .ok t' =>
        let status := answeredStatus .reconcile result.status
        if result.status = .indeterminate then (.ok (some status), t')
        else
          match reconcileNetworkReservation actionId t'.toDb with
          | .error e => (.error e, t')
          | .ok (_, db) => (.ok (some status), { t' with toDb := db })

/-- A report that counts one more action. -/
def ExternalActionReconciliationReport.count (report : ExternalActionReconciliationReport)
    (status : Option ExternalActionStatus) : ExternalActionReconciliationReport :=
  let report := { report with scanned := report.scanned + 1 }
  if status = some .reconciled then { report with reconciled := report.reconciled + 1 }
  else if status = some .failed then { report with failed := report.failed + 1 }
  else if status = some .indeterminate then { report with indeterminate := report.indeterminate + 1 }
  else report

/-- The loop of `reconcilePending`. -/
def reconcileCandidates : List Uuid → ExternalActionReconciliationReport → ActionDb →
    Outcome ExternalActionReconciliationReport × ActionDb
  | [], report, t => (.ok report, t)
  | actionId :: rest, report, t =>
    match reconcileAction now provider actionId t with
    | (.error e, t') => (.error e, t')
    | (.ok status, t') => reconcileCandidates rest (report.count status) t'

/-- `Number.isSafeInteger`, of an integer. -/
def isSafeInteger (n : ℤ) : Bool :=
  -9007199254740991 ≤ n && n ≤ 9007199254740991

/-- `reconcilePending`, with the tables it leaves. -/
def reconcilePending (t : ActionDb) : Outcome ExternalActionReconciliationReport × ActionDb :=
  if !isSafeInteger limit || limit < 1 then
    (.error (.request "external action reconciliation limit must be positive"), t)
  else
    reconcileCandidates now provider (pendingReconciliations limit.toNat t.toDb) ⟨0, 0, 0, 0⟩ t

/-- What the provider does when it is asked about an action. -/
inductive Manner where
  | definite | indeterminate | throws
deriving DecidableEq, Repr

/-- The manner of what the provider did. -/
def mannerOf : Outcome ExternalActionProviderResult → Manner
  | .error _ => .throws
  | .ok result => if result.status = .indeterminate then .indeterminate else .definite

/-- The action of an id has its last status. -/
def ActionDb.Settled (t : ActionDb) (actionId : Uuid) : Prop :=
  ∃ a ∈ t.actions, a.id = actionId ∧ a.status.last

/-- A pass reports all it scanned. -/
def ReportsAll (now : Uuid → Time) (provider : ReconcileProvider) (limit : ℤ) (t : ActionDb) : Prop :=
  ∃ report, (reconcilePending now provider limit t).1 = .ok report ∧
    report.scanned = (pendingReconciliations limit.toNat t.toDb).length

/-- The requests about the uncertain actions, the oldest first. -/
def pendingRequests (t : ActionDb) : List ExternalActionProviderRequest :=
  (t.actions.filter (·.status.uncertain)).map providerRequest

/-! ## Reconcilable actions -/

/-- Every uncertain action has one attempt, which is uncertain too. -/
structure Reconcilable (t : ActionDb) : Prop where
  actions : Keyed (·.id) t.actions
  attempts : Keyed (·.id) t.actionAttempts
  one : Keyed (·.externalActionId) t.actionAttempts
  numbered : ∀ x ∈ t.actionAttempts, 0 < x.attemptNumber
  attempted : ∀ a ∈ t.actions, a.status.uncertain →
    ∃ x ∈ t.actionAttempts, x.externalActionId = a.id ∧ x.status.uncertain

variable {now provider limit} {t t' : ActionDb} {a : ExternalAction} {x : ExternalActionAttempt}
  {result : ExternalActionProviderResult}

/-- The actions with the answer of a reconciliation. -/
def reconciledActions (actionId : Uuid) (result : ExternalActionProviderResult)
    (actions : List ExternalAction) : List ExternalAction :=
  updateWhere (·.id = actionId)
    (fun a => { a with status := answeredStatus .reconcile result.status }) actions

/-- An uncertain status stays uncertain with an indeterminate answer, and gets its last status with
any other. -/
theorem uncertain_answeredStatus {status : ProviderStatus} :
    (answeredStatus .reconcile status).uncertain = (status = .indeterminate : Bool) := by
  cases status <;> rfl

theorem last_answeredStatus {status : ProviderStatus} (h : status ≠ .indeterminate) :
    (answeredStatus .reconcile status).last := by
  cases status with
  | acknowledged | failed => rfl
  | indeterminate => exact absurd rfl h

/-- The one attempt of an action is its latest. -/
theorem Reconcilable.latest (h : Reconcilable t) (hx : x ∈ t.actionAttempts) :
    (t.actionAttempts.find? fun y => y.externalActionId = x.externalActionId &&
      y.attemptNumber = latestAttemptNumber x.externalActionId t) = some x := by
  have hfilter : t.actionAttempts.filter (·.externalActionId = x.externalActionId) = [x] :=
    h.one.filter_eq_singleton hx fun y _ => by simp
  have hlatest : latestAttemptNumber x.externalActionId t = x.attemptNumber := by
    simp [latestAttemptNumber, hfilter]
  cases hfind : t.actionAttempts.find? _ with
  | none => simpa [hlatest] using List.find?_eq_none.1 hfind x hx
  | some y =>
    have hcond := List.find?_some hfind
    simp only [Bool.and_eq_true, decide_eq_true_eq] at hcond
    exact congrArg some (h.one.eq (List.mem_of_find?_eq_some hfind) hx hcond.1)

/-- What a reconciliation asks about an uncertain action. -/
theorem Reconcilable.begin (h : Reconcilable t) (ha : a ∈ t.actions) (hu : a.status.uncertain)
    (hx : x ∈ t.actionAttempts) (hid : x.externalActionId = a.id) :
    beginReconcile a.id t = .ok (some (providerRequest a, x.id)) := by
  have hlatest := h.latest hx
  rw [hid] at hlatest
  simp [beginReconcile, h.actions.find?_eq_some ha, hu, hlatest]

/-- An answer is stored with the action and with its attempt. -/
theorem Reconcilable.persist (h : Reconcilable t) (ha : a ∈ t.actions) (hu : a.status.uncertain)
    (hx : x ∈ t.actionAttempts) (hid : x.externalActionId = a.id) (hxu : x.status.uncertain)
    (now : Time) :
    persistResult now a.id x.id .reconcile result t = .ok { t with
      actions := reconciledActions a.id result t.actions
      actionAttempts := updateWhere (·.id = x.id) (answeredAttempt now result) t.actionAttempts } := by
  have hattempt : (t.actionAttempts.find? fun y => y.id = x.id && y.externalActionId = a.id) =
      some x := by
    cases hfind : t.actionAttempts.find? _ with
    | none => simpa [hid] using List.find?_eq_none.1 hfind x hx
    | some y =>
      have hcond := List.find?_some hfind
      simp only [Bool.and_eq_true, decide_eq_true_eq] at hcond
      exact congrArg some (h.attempts.eq (List.mem_of_find?_eq_some hfind) hx hcond.1)
  have hstatus : a.status ≠ .reconciled := fun heq => by
    simp [heq, ExternalActionStatus.uncertain] at hu
  have hupdate : update (·.id = x.id) (answeredAttempt now result) t.actionAttempts =
      .ok (updateWhere (·.id = x.id) (answeredAttempt now result) t.actionAttempts) := by
    refine update_ok fun y hy _ => firstViolation_eq_none.2 ?_
    have hnumber := h.numbered y hy
    cases hs : result.status <;>
      simp [answeredAttempt, attemptStatusOf, ActionAttemptStatus.answered, hs, hnumber]
  unfold persistResult
  refine Except.bind_eq_ok.2 ⟨a, takeFirstOrThrow_eq_ok.2 (h.actions.find?_eq_some ha), ?_⟩
  refine Except.bind_eq_ok.2 ⟨x, takeFirstOrThrow_eq_ok.2 hattempt, ?_⟩
  rw [if_neg hstatus]
  refine Except.bind_eq_ok.2 ⟨⟨⟩, require_eq_ok.2 hu, ?_⟩
  refine Except.bind_eq_ok.2 ⟨⟨⟩, require_eq_ok.2 hxu, ?_⟩
  exact Except.bind_eq_ok.2 ⟨_, sql_eq_ok.2 hupdate, rfl⟩

theorem reconcileNetworkReservation_actions {actionId : Uuid} {db db' : Db} {settled : Bool}
    (h : reconcileNetworkReservation actionId db = .ok (settled, db')) :
    db'.actions = db.actions := by
  unfold reconcileNetworkReservation at h
  split at h
  · rw [(Prod.mk.inj (Except.ok.inj h)).2]
  · rcases reconcile_eq_ok h with ⟨-, rfl⟩ | ⟨r, b, ledger, -, -, rfl⟩ <;> rfl

/-- The answer about an action is stored with it and with its attempt. -/
structure StoresAnswer (a : ExternalAction) (result : ExternalActionProviderResult) (t t' : ActionDb) :
    Prop where
  actions : t'.actions = reconciledActions a.id result t.actions
  attempts : ∃ now, ∃ x ∈ t.actionAttempts, x.externalActionId = a.id ∧
    t'.actionAttempts = updateWhere (·.id = x.id) (answeredAttempt now result) t.actionAttempts

variable (now provider) in
/-- What the reconciliation of an uncertain action does : nothing when the provider throws, and
otherwise it stores the answer. Only the reservation of a definite answer can still fail. -/
theorem Reconcilable.reconcileAction (h : Reconcilable t) (ha : a ∈ t.actions)
    (hu : a.status.uncertain) :
    (∃ e, provider (providerRequest a) = .error e ∧
        FactoryFloor.reconcileAction now provider a.id t = (.error e, t)) ∨
      ∃ result outcome t', provider (providerRequest a) = .ok result ∧
        FactoryFloor.reconcileAction now provider a.id t = (outcome, t') ∧ StoresAnswer a result t t' ∧
        (result.status = .indeterminate → ∃ status, outcome = .ok status) := by
  obtain ⟨x, hx, hid, hxu⟩ := h.attempted a ha hu
  unfold FactoryFloor.reconcileAction
  rw [h.begin ha hu hx hid]
  cases hprovider : provider (providerRequest a) with
  | error e => exact Or.inl ⟨e, rfl, by simp [hprovider]⟩
  | ok result =>
    simp only [hprovider, h.persist ha hu hx hid hxu]
    by_cases hindeterminate : result.status = .indeterminate
    · exact Or.inr ⟨result, _, _, rfl, by rw [if_pos hindeterminate],
        ⟨rfl, _, x, hx, hid, rfl⟩, fun _ => ⟨_, rfl⟩⟩
    · rw [if_neg hindeterminate]
      split
      · exact Or.inr ⟨result, _, _, rfl, rfl, ⟨rfl, _, x, hx, hid, rfl⟩,
          fun hi => absurd hi hindeterminate⟩
      · rename_i settled db hsettle
        exact Or.inr ⟨result, _, _, rfl, rfl,
          ⟨reconcileNetworkReservation_actions hsettle, _, x, hx, hid, rfl⟩,
          fun hi => absurd hi hindeterminate⟩

/-! ## What an answer leaves -/

theorem mem_pendingRequests {r : ExternalActionProviderRequest} :
    r ∈ pendingRequests t ↔ ∃ a ∈ t.actions, a.status.uncertain ∧ providerRequest a = r := by
  simp [pendingRequests, and_assoc]

theorem StoresAnswer.reconcilable (hanswers : StoresAnswer a result t t') (h : Reconcilable t) :
    Reconcilable t' := by
  obtain ⟨now, x, hx, hid, hattempts⟩ := hanswers.attempts
  refine ⟨?_, ?_, ?_, fun y' hy' => ?_, fun b' hb' hu' => ?_⟩
  · rw [hanswers.actions]
    exact h.actions.updateWhere fun _ => rfl
  · rw [hattempts]
    exact h.attempts.updateWhere fun _ => rfl
  · rw [hattempts]
    exact h.one.updateWhere fun _ => rfl
  · rw [hattempts] at hy'
    obtain ⟨y, hy, rfl⟩ := mem_updateWhere.1 hy'
    have hnumber := h.numbered y hy
    split <;> exact hnumber
  · rw [hanswers.actions] at hb'
    obtain ⟨b, hb, rfl⟩ := mem_updateWhere.1 hb'
    rw [hattempts]
    by_cases hba : b.id = a.id
    · -- the answer is indeterminate, and stored with the attempt too
      have hindeterminate : result.status = .indeterminate := by
        simpa [hba, uncertain_answeredStatus] using hu'
      refine ⟨answeredAttempt now result x, mem_updateWhere_of hx (by simp), ?_, ?_⟩
      · simpa [hba, answeredAttempt] using hid
      · simp [answeredAttempt, hindeterminate, attemptStatusOf, ActionAttemptStatus.uncertain]
    · simp only [hba, decide_false, Bool.false_eq_true, if_false] at hu' ⊢
      obtain ⟨y, hy, hyid, hyu⟩ := h.attempted b hb hu'
      have hyx : y.id ≠ x.id := fun heq =>
        hba (hyid.symm.trans ((congrArg _ (h.attempts.eq hy hx heq)).trans hid))
      exact ⟨y, mem_updateWhere_of_not hy (by simp [hyx]), hyid, hyu⟩

/-- Only the action of a definite answer is no longer uncertain. -/
theorem StoresAnswer.pendingRequests (hanswers : StoresAnswer a result t t') (h : Reconcilable t)
    (ha : a ∈ t.actions) (hu : a.status.uncertain) :
    FactoryFloor.pendingRequests t' = (FactoryFloor.pendingRequests t).filter fun r =>
      !(r = providerRequest a && result.status ≠ .indeterminate) := by
  have hone : ∀ b ∈ t.actions, b.id = a.id → b = a := fun b hb => h.actions.eq hb ha
  unfold FactoryFloor.pendingRequests
  rw [hanswers.actions]
  generalize t.actions = actions at hone
  induction actions with
  | nil => rfl
  | cons b actions ih =>
    have ih := ih fun c hc => hone c (List.mem_cons_of_mem b hc)
    simp only [reconciledActions, updateWhere, List.map_cons] at ih ⊢
    by_cases hba : b.id = a.id
    · obtain rfl := hone b List.mem_cons_self hba
      by_cases hindeterminate : result.status = .indeterminate
      · simp_all [uncertain_answeredStatus, providerRequest]
      · simp_all [uncertain_answeredStatus]
    · have hne : providerRequest b ≠ providerRequest a := fun heq =>
        hba (congrArg ExternalActionProviderRequest.actionId heq)
      by_cases hbu : b.status.uncertain
      · simp_all
      · simp_all

/-- An action that is uncertain, or has its last status, stays so. -/
def Recovers (t t' : ActionDb) : Prop :=
  ∀ a ∈ t.actions, a.status.uncertain ∨ a.status.last → ∃ a' ∈ t'.actions,
    providerRequest a' = providerRequest a ∧ (a'.status.uncertain ∨ a'.status.last)

theorem Recovers.refl : Recovers t t :=
  fun a ha h => ⟨a, ha, rfl, h⟩

theorem Recovers.trans {t'' : ActionDb} (h : Recovers t t') (h' : Recovers t' t'') :
    Recovers t t'' := by
  intro a ha hstatus
  obtain ⟨b, hb, hba, hstatus⟩ := h a ha hstatus
  obtain ⟨c, hc, hcb, hstatus⟩ := h' b hb hstatus
  exact ⟨c, hc, hcb.trans hba, hstatus⟩

theorem StoresAnswer.recovers (hanswers : StoresAnswer a result t t') : Recovers t t' := by
  intro b hb hstatus
  rw [hanswers.actions]
  by_cases hba : b.id = a.id
  · refine ⟨_, mem_updateWhere_of hb (by simpa using hba), rfl, ?_⟩
    cases result.status <;> simp [answeredStatus, ExternalActionStatus.uncertain,
      ExternalActionStatus.last]
  · exact ⟨b, mem_updateWhere_of_not hb (by simpa using hba), rfl, hstatus⟩

/-! ## The loop -/

variable {manner : ExternalActionProviderRequest → Manner}
  {outcome : Outcome ExternalActionReconciliationReport}

/-- What the loop does : the requests of `done` are answered, and it stops before the others, or
has gone through all. -/
structure Reconciles (manner : ExternalActionProviderRequest → Manner)
    (done rest : List ExternalActionProviderRequest) (scanned : ℕ) (t : ActionDb)
    (outcome : Outcome ExternalActionReconciliationReport) (t' : ActionDb) : Prop where
  reconcilable : Reconcilable t'
  recovers : Recovers t t'
  pending : pendingRequests t' = (pendingRequests t).filter fun r =>
    !(r ∈ done && manner r = .definite)
  unblocked : ∀ r ∈ done, manner r ≠ .throws
  stopped : (rest = [] ∧ ∃ report, outcome = .ok report ∧ report.scanned = scanned) ∨
    (∃ e, outcome = .error e) ∧ ((∃ b rest', rest = b :: rest' ∧ manner b = .throws) ∨
      ∃ d ∈ done, manner d = .definite)

theorem count_scanned (report : ExternalActionReconciliationReport)
    (status : Option ExternalActionStatus) :
    (report.count status).scanned = report.scanned + 1 := by
  unfold ExternalActionReconciliationReport.count
  dsimp only
  split
  · rfl
  · split
    · rfl
    · split <;> rfl

/-- The manner of an answer. -/
theorem manner_of_ok (hmanner : ∀ r, mannerOf (provider r) = manner r)
    {r : ExternalActionProviderRequest} (h : provider r = .ok result) :
    manner r = if result.status = .indeterminate then .indeterminate else .definite := by
  rw [← hmanner, h]
  rfl

variable (now) in
/-- The loop over requests that are pending. -/
theorem Reconcilable.reconcileCandidates (hmanner : ∀ r, mannerOf (provider r) = manner r)
    (requests : List ExternalActionProviderRequest)
    (report : ExternalActionReconciliationReport) (h : Reconcilable t)
    (hpending : ∀ r ∈ requests, r ∈ pendingRequests t) (hnodup : requests.Nodup) :
    ∃ outcome t' done rest, requests = done ++ rest ∧
      FactoryFloor.reconcileCandidates now provider (requests.map (·.actionId)) report t =
        (outcome, t') ∧
      Reconciles manner done rest (report.scanned + requests.length) t outcome t' := by
  induction requests generalizing report t with
  | nil =>
    refine ⟨.ok report, t, [], [], rfl, rfl, h, .refl, ?_, by simp, Or.inl ⟨rfl, report, rfl, rfl⟩⟩
    exact (List.filter_eq_self.2 fun r _ => by simp).symm
  | cons r requests ih =>
    obtain ⟨hnew, hrest⟩ := List.nodup_cons.1 hnodup
    obtain ⟨a, ha, hu, rfl⟩ := mem_pendingRequests.1 (hpending r List.mem_cons_self)
    rcases h.reconcileAction now provider ha hu with
      ⟨e, hprovider, hrun⟩ | ⟨result, outcome, t₁, hprovider, hrun, hanswers, hok⟩
    · -- the provider throws
      refine ⟨.error e, t, [], providerRequest a :: requests, rfl, ?_, h, .refl, ?_, by simp,
        Or.inr ⟨⟨e, rfl⟩, Or.inl ⟨_, _, rfl, ?_⟩⟩⟩
      · simp [FactoryFloor.reconcileCandidates, providerRequest, hrun]
      · exact (List.filter_eq_self.2 fun r _ => by simp).symm
      · rw [← hmanner, hprovider]
        rfl
    · have hmannerA := manner_of_ok hmanner hprovider
      have hpending₁ := hanswers.pendingRequests h ha hu
      have hfilter : pendingRequests t₁ = (pendingRequests t).filter fun r =>
          !(r ∈ [providerRequest a] && manner r = .definite) := by
        rw [hpending₁]
        refine List.filter_congr fun r _ => ?_
        by_cases hr : r = providerRequest a
        · subst hr
          by_cases hs : result.status = .indeterminate <;> simp [hmannerA, hs]
        · simp [hr]
      have hunblocked : manner (providerRequest a) ≠ .throws := by
        rw [hmannerA]
        split <;> simp
      cases outcome with
      | error e =>
        -- the answer is stored, and settling the reservation fails
        have hdefinite : result.status ≠ .indeterminate := fun hs => by
          obtain ⟨status, hstatus⟩ := hok hs
          cases hstatus
        refine ⟨.error e, t₁, [providerRequest a], requests, rfl, ?_, hanswers.reconcilable h,
          hanswers.recovers, hfilter, by simpa using hunblocked,
          Or.inr ⟨⟨e, rfl⟩, Or.inr ⟨_, List.mem_singleton_self _, ?_⟩⟩⟩
        · simp [FactoryFloor.reconcileCandidates, providerRequest, hrun]
        · rw [hmannerA, if_neg hdefinite]
      | ok status =>
        have hstill : ∀ r ∈ requests, r ∈ pendingRequests t₁ := fun r hr => by
          rw [hpending₁]
          have hne : r ≠ providerRequest a := fun heq => hnew (heq ▸ hr)
          exact List.mem_filter.2 ⟨hpending r (List.mem_cons_of_mem _ hr), by simp [hne]⟩
        obtain ⟨outcome, t', done, rest, rfl, hloop, hreconciles⟩ :=
          ih (report.count status) (hanswers.reconcilable h) hstill hrest
        refine ⟨outcome, t', providerRequest a :: done, rest, rfl, ?_, hreconciles.reconcilable,
          hanswers.recovers.trans hreconciles.recovers, ?_,
          List.forall_mem_cons.2 ⟨hunblocked, hreconciles.unblocked⟩, ?_⟩
        · simpa [FactoryFloor.reconcileCandidates, providerRequest, hrun] using hloop
        · rw [hreconciles.pending, hfilter, List.filter_filter]
          refine List.filter_congr fun r _ => ?_
          by_cases hr : r = providerRequest a <;> simp [hr]
          · cases manner (providerRequest a) <;> simp
        · rcases hreconciles.stopped with ⟨rfl, report', rfl, hscanned⟩ | ⟨herror, hblocks | ⟨d, hd, hs⟩⟩
          · refine Or.inl ⟨rfl, report', rfl, ?_⟩
            rw [hscanned, count_scanned, List.length_cons]
            omega
          · exact Or.inr ⟨herror, Or.inl hblocks⟩
          · exact Or.inr ⟨herror, Or.inr ⟨d, List.mem_cons_of_mem _ hd, hs⟩⟩

/-! ## A pass -/

theorem pendingReconciliations_eq (n : ℕ) (t : ActionDb) :
    pendingReconciliations n t.toDb = ((pendingRequests t).take n).map (·.actionId) := by
  rw [pendingReconciliations, pendingRequests, List.map_take, List.map_map]
  rfl

theorem Reconcilable.nodup (h : Reconcilable t) : (pendingRequests t).Nodup := by
  refine List.Nodup.of_map (·.actionId) ?_
  rw [pendingRequests, List.map_map]
  exact (h.actions.sublist (List.filter_sublist.map _) :)

/-- A limit that a pass takes. -/
def ValidLimit (limit : ℤ) : Prop :=
  isSafeInteger limit ∧ 1 ≤ limit

instance : Decidable (ValidLimit limit) := inferInstanceAs (Decidable (_ ∧ _))

theorem reconcilePending_of_valid (hlimit : ValidLimit limit) : reconcilePending now provider limit t =
    reconcileCandidates now provider (pendingReconciliations limit.toNat t.toDb) ⟨0, 0, 0, 0⟩ t := by
  unfold reconcilePending
  rw [if_neg]
  simpa [hlimit.1] using hlimit.2

variable (now) in
/-- A pass is one over the queue of the pending requests. -/
theorem Reconcilable.pass (hmanner : ∀ r, mannerOf (provider r) = manner r)
    (hlimit : ValidLimit limit) (h : Reconcilable t) :
    Reconcilable (reconcilePending now provider limit t).2 ∧
      Recovers t (reconcilePending now provider limit t).2 ∧
      Windows.Pass (manner · = .definite) (manner · = .throws) limit.toNat (pendingRequests t)
        (pendingRequests (reconcilePending now provider limit t).2)
        (ReportsAll now provider limit t) := by
  obtain ⟨outcome, t', done, rest, hwindow, hloop, hreconciles⟩ :=
    h.reconcileCandidates now hmanner ((pendingRequests t).take limit.toNat) ⟨0, 0, 0, 0⟩
      (fun r => List.mem_of_mem_take) (h.nodup.sublist (List.take_sublist _ _))
  have hrun : reconcilePending now provider limit t = (outcome, t') := by
    rw [reconcilePending_of_valid hlimit, pendingReconciliations_eq]
    exact hloop
  have hlength : (pendingReconciliations limit.toNat t.toDb).length =
      ((pendingRequests t).take limit.toNat).length := by
    rw [pendingReconciliations_eq, List.length_map]
  refine ⟨by rw [hrun]; exact hreconciles.reconcilable, by rw [hrun]; exact hreconciles.recovers, ?_⟩
  rw [hrun, hreconciles.pending]
  refine .intro hwindow (fun r hr => by simpa using hreconciles.unblocked r hr) (fun hall => ?_)
    fun hnot => ?_
  · obtain ⟨report, hok, -⟩ := hall
    rw [hrun] at hok
    rcases hreconciles.stopped with ⟨hrest, -⟩ | ⟨⟨e, rfl⟩, -⟩
    · exact hrest
    · cases hok
  · rcases hreconciles.stopped with ⟨-, report, rfl, hscanned⟩ | ⟨-, hstopped⟩
    · refine absurd ⟨report, by rw [hrun], ?_⟩ hnot
      rw [hscanned, hlength]
      exact Nat.zero_add _
    · simpa using hstopped

/-! ## Passes -/

variable {clock : ℕ → Uuid → Time} {providers : ℕ → ReconcileProvider}

/-- An action that is no longer pending has its last status. -/
theorem Recovers.settled (h : Recovers t t') (ha : a ∈ t.actions) (hu : a.status.uncertain)
    (hgone : providerRequest a ∉ pendingRequests t') : t'.Settled a.id := by
  obtain ⟨b, hb, hrequest, hstatus⟩ := h a ha (Or.inl hu)
  refine ⟨b, hb, congrArg ExternalActionProviderRequest.actionId hrequest,
    hstatus.resolve_left fun hbu => hgone ?_⟩
  exact mem_pendingRequests.2 ⟨b, hb, hbu, hrequest⟩

variable {P : Platform} {s s' : Installation} {l : InstallationLabel}

/-- Every uncertain action of an installation has an uncertain attempt, and attempts are numbered. -/
structure Answerable (s : Installation) : Prop where
  numbered : ∀ x ∈ s.actionAttempts, 0 < x.attemptNumber
  attempted : ∀ a ∈ s.db.actions, a.status.uncertain →
    ∃ x ∈ s.actionAttempts, x.externalActionId = a.id ∧ x.status.uncertain

/-- Only a dispatch or an answer makes an action uncertain. -/
theorem ActionMove.eq_of_uncertain {a a' : ExternalAction} (h : ActionMove s l a a')
    (hu : a'.status.uncertain) (hdispatch : ∀ actionId, l ≠ .dispatch actionId)
    (hpersist : ∀ actionId result, l ≠ .persist actionId result) : a' = a := by
  cases h with
  | same => rfl
  | @decided a status approvalId hdecides =>
    cases status <;> simp_all [policyDecides, ExternalActionStatus.uncertain]
  | approved hawaiting hstatus =>
    rcases hstatus with rfl | rfl <;> simp [ExternalActionStatus.uncertain] at hu
  | cancelled => exact absurd rfl (hdispatch _)
  | dispatched => exact absurd rfl (hdispatch _)
  | answered => exact absurd rfl (hpersist _ _)

/-- A step that neither dispatches nor answers. -/
theorem Answerable.keep (h : Answerable s) (hmoves : MovesActions s l s'.db)
    (hattempts : s'.actionAttempts = s.actionAttempts) (hdispatch : ∀ actionId, l ≠ .dispatch actionId)
    (hpersist : ∀ actionId result, l ≠ .persist actionId result) : Answerable s' := by
  refine ⟨by rw [hattempts]; exact h.numbered, fun a' ha' hu => ?_⟩
  rw [hattempts]
  rcases hmoves.mem ha' with ⟨a, ha, hmove⟩ | ⟨hproposed, -⟩
  · obtain rfl := hmove.eq_of_uncertain hu hdispatch hpersist
    exact h.attempted a' ha hu
  · rw [← hproposed] at hu
    simp [ExternalAction.asProposed, ExternalActionStatus.uncertain] at hu

/-- A dispatch adds the attempt of the action it moves. -/
theorem Answerable.dispatch (h : Answerable s) {actionId : Uuid} {preparation : DispatchPreparation}
    {u : ActionDb} (hop : prepareDispatch P actionId s.tables = .ok (preparation, u))
    (hdb : s'.db = u.toDb) (hattempts : s'.actionAttempts = u.actionAttempts) : Answerable s' := by
  rcases prepareDispatch_eq_ok hop with
    ⟨-, rfl⟩ | ⟨a, e, r, hrow, hauthorized, ⟨-, -, rfl⟩ | ⟨-, outcome, reservations, n, -,
      ⟨-, -, rfl⟩ | ⟨-, hstart⟩⟩⟩
  · exact ⟨by rw [hattempts]; exact h.numbered, by rw [hattempts, hdb]; exact h.attempted⟩
  · refine ⟨by rw [hattempts]; exact h.numbered, fun b' hb' hu => ?_⟩
    rw [hdb] at hb'
    obtain ⟨b, hb, rfl⟩ := mem_updateWhere.1 hb'
    rw [hattempts]
    by_cases hid : b.id = actionId
    · simp [hid, ExternalActionStatus.uncertain] at hu
    · simp only [hid, decide_false, Bool.false_eq_true, if_false] at hu ⊢
      exact h.attempted b hb hu
  · exact ⟨by rw [hattempts]; exact h.numbered, by rw [hattempts, hdb]; exact h.attempted⟩
  · obtain ⟨x, -, hid, hnumber, hnew, -, -, rfl⟩ := startDispatch_eq_ok hstart
    refine ⟨fun y hy => ?_, fun b' hb' hu => ?_⟩
    · rcases List.mem_append.1 (hattempts ▸ hy) with hy | hy
      · exact h.numbered y hy
      · obtain rfl := List.mem_singleton.1 hy
        exact hnumber ▸ Nat.succ_pos _
    · rw [hdb] at hb'
      obtain ⟨b, hb, rfl⟩ := mem_updateWhere.1 hb'
      rw [hattempts]
      by_cases hba : b.id = a.id
      · refine ⟨x, List.mem_append_right _ (List.mem_singleton_self x), ?_, by rw [hnew]; rfl⟩
        simpa [hba] using hid
      · simp only [hba, decide_false, Bool.false_eq_true, if_false] at hu ⊢
        obtain ⟨y, hy, hyid, hyu⟩ := h.attempted b hb hu
        exact ⟨y, List.mem_append_left _ hy, hyid, hyu⟩

/-- An answer is stored with the action and its attempt, and both stay uncertain or neither does. -/
theorem Answerable.persist (hs : Installed P s) (h : Answerable s) {actionId attemptId : Uuid}
    {asked : Asked} {u : ActionDb}
    (hop : persistResult s.now actionId attemptId asked result s.tables = .ok u)
    (hdb : s'.db = u.toDb) (hattempts : s'.actionAttempts = u.actionAttempts) : Answerable s' := by
  obtain ⟨a, ha, rfl, x, hx, rfl, hid, ⟨-, rfl⟩ | ⟨-, -, rfl⟩⟩ := persistResult_eq_ok hop
  · exact ⟨by rw [hattempts]; exact h.numbered, by rw [hattempts, hdb]; exact h.attempted⟩
  refine ⟨fun y' hy' => ?_, fun b' hb' hu => ?_⟩
  · rw [hattempts] at hy'
    obtain ⟨y, hy, rfl⟩ := mem_updateWhere.1 hy'
    have hnumber := h.numbered y hy
    split <;> exact hnumber
  · rw [hdb] at hb'
    obtain ⟨b, hb, rfl⟩ := mem_updateWhere.1 hb'
    rw [hattempts]
    by_cases hba : b.id = a.id
    · refine ⟨_, mem_updateWhere_of hx (by simp), by simpa [hba] using hid, ?_⟩
      simp only [hba, decide_true, if_true] at hu
      cases asked <;> cases hs : result.status <;>
        simp [hs, answeredStatus, ExternalActionStatus.uncertain] at hu <;>
        simp [attemptStatusOf, ActionAttemptStatus.uncertain]
    · simp only [hba, decide_false, Bool.false_eq_true, if_false] at hu ⊢
      obtain ⟨y, hy, hyid, hyu⟩ := h.attempted b hb hu
      have hyx : y.id ≠ x.id := fun heq =>
        hba (hyid.symm.trans ((congrArg _ (hs.attempts.eq hy hx heq)).trans hid))
      exact ⟨y, mem_updateWhere_of_not hy (by simp [hyx]), hyid, hyu⟩

theorem Answerable.step (hs : Installed P s) (h : Answerable s) (hstep : InstallationStep P s l s') :
    Answerable s' := by
  by_cases hdispatch : ∃ actionId, l = .dispatch actionId
  · obtain ⟨actionId, rfl⟩ := hdispatch
    cases hstep with
    | dispatch hop => exact h.dispatch hop rfl rfl
  by_cases hpersist : ∃ actionId result, l = .persist actionId result
  · obtain ⟨actionId, result, rfl⟩ := hpersist
    cases hstep with
    | persist hmem hop => exact h.persist hs hop rfl rfl
  have hdispatch : ∀ actionId, l ≠ .dispatch actionId := fun id hl => hdispatch ⟨id, hl⟩
  have hpersist : ∀ actionId result, l ≠ .persist actionId result :=
    fun id result hl => hpersist ⟨id, result, hl⟩
  have hmoves := hstep.attempts
  cases hmoves with
  | keep hsame | replay hsame => exact h.keep (hstep.actions hs) hsame hdispatch hpersist
  | start => exact absurd rfl (hdispatch _)
  | answer => exact absurd rfl (hpersist _ _)

end FactoryFloor
