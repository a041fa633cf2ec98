import Mathlib.Data.List.Pairwise
import FactoryFloor.InstallationRuns

/-!
# Proposed external actions

A completed result proposes external actions, and the commit inserts one for each proposal. It
ignores conflicts, and looks up the action that stands for the proposal : the one with the
proposal's id, or the one with its key. It compares that action with the proposal in what `Stands`
lists. The action type, the idempotency key and the grant are not compared, so a proposal that
repeats an earlier one's id may differ from the action in them, and is accepted.

`proposals_persisted` says that the actions are those proposed (`PersistsActions`) exactly when the
proposals of one id agree in what is not compared (`agreeingProposals`).
-/

namespace FactoryFloor

open Relational Transition

variable {P : Platform} {db db' : Db} {s t : Installation} {l : InstallationLabel}
  {env : CommitEnv} {input : ProposedExecutionResult}

/-! ## Distinct actions -/

/-- The keys of an external action that no other action has. -/
structure SameKey (a b : ExternalAction) : Prop where
  grant : a.capabilityGrantId = b.capabilityGrantId
  actionType : a.actionType = b.actionType
  idempotencyKey : a.idempotencyKey = b.idempotencyKey

/-- No two actions have a key in common. -/
def DistinctActions (actions : List ExternalAction) : Prop :=
  actions.Pairwise fun a b => ¬sameAction a b

theorem sameAction_iff {a b : ExternalAction} :
    sameAction a b ↔ SameKey a b ∨ a.attemptId = b.attemptId ∧ a.proposalId = b.proposalId := by
  simp only [sameAction, Bool.or_eq_true, Bool.and_eq_true, decide_eq_true_eq]
  refine or_congr_left ⟨fun h => ⟨h.1.1, h.1.2, h.2⟩, fun h => ⟨⟨h.grant, h.actionType⟩, h.3⟩⟩

theorem sameAction_comm (a b : ExternalAction) : sameAction a b = sameAction b a := by
  simp only [sameAction, eq_comm]

theorem DistinctActions.eq {actions : List ExternalAction} (h : DistinctActions actions)
    {a b : ExternalAction} (ha : a ∈ actions) (hb : b ∈ actions) (hsame : sameAction a b) :
    a = b := by
  have : Std.Symm fun a b : ExternalAction => ¬sameAction a b = true :=
    ⟨fun x y hxy => by rwa [sameAction_comm]⟩
  by_contra hne
  exact h.forall ha hb hne hsame

/-- The keys are of what is proposed. -/
theorem sameAction_asProposed (a b : ExternalAction) :
    sameAction a.asProposed b.asProposed = sameAction a b := rfl

theorem DistinctActions.of_asProposed {old new : List ExternalAction} (h : DistinctActions old)
    (hsame : new.map ExternalAction.asProposed = old.map ExternalAction.asProposed) :
    DistinctActions new := by
  have hiff : ∀ actions : List ExternalAction, DistinctActions actions ↔
      DistinctActions (actions.map ExternalAction.asProposed) := fun actions => by
    rw [DistinctActions, DistinctActions, List.pairwise_map]
    rfl
  rwa [hiff, hsame, ← hiff]

theorem insertAction_distinct {action : ExternalAction} (hd : DistinctActions db.actions)
    (h : insertAction P action db = .ok db') : DistinctActions db'.actions := by
  obtain ⟨new, rfl, rfl | ⟨rfl, hnone⟩⟩ := insertAction_eq_ok h
  · simpa [DistinctActions] using hd
  · refine List.pairwise_append.2 ⟨hd, List.pairwise_singleton _ _, fun a ha b hb => ?_⟩
    obtain rfl := List.mem_singleton.1 hb
    rw [sameAction_comm]
    exact (hnone a ha).1

/-! ## What is compared -/

/-- What the action found for a proposal is compared in. -/
structure Stands (input : ProposedExecutionResult) (artifacts : List Artifact)
    (proposal : ExternalActionProposal) (action : ExternalAction) : Prop where
  executionId : action.executionId = input.executionId
  attemptId : action.attemptId = input.attemptId
  proposalId : action.proposalId = proposal.proposalId
  request : digestOf artifacts action.outboundRequestArtifactId =
    some proposal.requestArtifact.digest
  risk : action.risk = proposal.risk

theorem Stands.mono {artifacts new : List Artifact} {proposal : ExternalActionProposal}
    {action : ExternalAction} (h : Stands input artifacts proposal action)
    (hnew : artifacts <+: new) : Stands input new proposal action := by
  obtain ⟨more, rfl⟩ := hnew
  exact { h with request := digestOf_append h.request more }

/-- An accepted proposal has an action that stands for it. -/
theorem publishExternalAction_stands {component : ComponentInstance} {ports : List PortDefinition}
    {p p' : Publishing} {proposal : ExternalActionProposal} (hk : Keyed (·.id) p.db.artifacts)
    (hp : p.Linked)
    (h : publishExternalAction P env input component ports p proposal = .ok p') :
    (∃ a ∈ p'.db.actions, Stands input p'.db.artifacts proposal a) ∧
      (DistinctActions p.db.actions → DistinctActions p'.db.actions) := by
  unfold publishExternalAction at h
  obtain ⟨_, -, h⟩ := Except.bind_eq_ok.1 h
  obtain ⟨grant, -, h⟩ := Except.bind_eq_ok.1 h
  obtain ⟨⟨requestArtifactId, p₁⟩, hrequest, h⟩ := Except.bind_eq_ok.1 h
  obtain ⟨db, hinsert, h⟩ := Except.bind_eq_ok.1 h
  obtain ⟨_, hfound, h⟩ := Except.bind_eq_ok.1 h
  obtain rfl := Except.ok.inj h
  obtain ⟨hadv, hdigest⟩ := publishRequest_eq_ok hk hp hrequest
  have hactions : p₁.db.actions = p.db.actions := by simpa [Written.none] using hadv.writes.actions
  refine ⟨?_, fun hd => insertAction_distinct (hactions ▸ hd) hinsert⟩
  obtain ⟨found, hmem, hproposed⟩ := (Option.any_eq_true _ _).1 (require_eq_ok.1 hfound)
  have hfound : found ∈ db.actions := by
    rcases Option.or_eq_some_iff.1 hmem with h | ⟨-, h⟩ <;> exact List.mem_of_find?_eq_some h
  have hartifacts : db.artifacts = p₁.db.artifacts := by
    obtain ⟨new, rfl, -⟩ := insertAction_eq_ok hinsert
    rfl
  simp only [isProposedAction, Bool.and_eq_true, decide_eq_true_eq] at hproposed
  obtain ⟨⟨⟨⟨hexecution, hattempt⟩, hproposal⟩, hrequested⟩, hrisk⟩ := hproposed
  refine ⟨found, hfound, hexecution, hattempt, hproposal, ?_, hrisk⟩
  rw [hrequested, hartifacts]
  exact hdigest

/-- Each proposal of a list has one. -/
theorem publishExternalActions_stands {component : ComponentInstance} {ports : List PortDefinition}
    {proposals : List ExternalActionProposal} {p p' : Publishing} (hk : Keyed (·.id) p.db.artifacts)
    (hp : p.Linked)
    (h : proposals.foldlM (publishExternalAction P env input component ports) p = .ok p') :
    (∀ proposal ∈ proposals, ∃ a ∈ p'.db.actions, Stands input p'.db.artifacts proposal a) ∧
      (DistinctActions p.db.actions → DistinctActions p'.db.actions) ∧
      (∀ a ∈ p.db.actions, a ∈ p'.db.actions) ∧ p.db.artifacts <+: p'.db.artifacts := by
  induction proposals generalizing p with
  | nil =>
    obtain rfl : p = p' := by simpa [pure, Except.pure] using h
    exact ⟨by simp, id, fun _ ha => ha, List.prefix_refl _⟩
  | cons proposal proposals ih =>
    rw [List.foldlM_cons] at h
    obtain ⟨p₁, h₁, h⟩ := Except.bind_eq_ok.1 h
    obtain ⟨new₁, hadv₁, -⟩ := publishExternalAction_eq_ok hk hp h₁
    obtain ⟨⟨a, ha, hstands⟩, hdistinct⟩ := publishExternalAction_stands hk hp h₁
    have hactions : p₁.db.actions = p.db.actions ++ new₁ := hadv₁.writes.actions
    obtain ⟨hall, hrest, hold, hextends⟩ := ih (hadv₁.writes.artifactsKeyed hk) hadv₁.linked h
    refine ⟨List.forall_mem_cons.2 ⟨⟨a, hold a ha, hstands.mono hextends⟩, hall⟩,
      fun hd => hrest (hdistinct hd), fun b hb => hold b ?_,
      hadv₁.writes.artifacts.trans hextends⟩
    rw [hactions]
    exact List.mem_append_left _ hb

/-! ## A commit -/

theorem closeCompleted_keeps {now : Time} {deliveries : List Delivery}
    (h : closeCompleted now input deliveries db = .ok db') :
    db'.actions = db.actions ∧ db'.artifacts = db.artifacts := by
  unfold closeCompleted at h
  obtain ⟨db₁, h₁, h⟩ := Except.bind_eq_ok.1 h
  obtain ⟨db₂, h₂, h₃⟩ := Except.bind_eq_ok.1 h
  obtain ⟨_, -, rfl, -⟩ := updateAttempts_eq_ok.1 h₁
  obtain ⟨rfl, -⟩ := updateExecutions_eq_ok.1 h₂
  obtain ⟨rfl, -⟩ := updateDeliveries_eq_ok.1 h₃
  exact ⟨rfl, rfl⟩

section

variable {submissionDigest : Digest} {disposition : CommitDisposition} {locked : Locked}
  {db₁ db₂ : Db}

/-- After a commit of a completed result, an action stands for each proposal. -/
theorem Commits.stands (hb : Backed db) (hcompleted : input.status = .completed)
    (h : Commits P env input submissionDigest disposition locked db db₁ db₂ db') :
    (∀ proposal ∈ input.externalActionProposals,
        ∃ a ∈ db'.actions, Stands input db'.artifacts proposal a) ∧
      (DistinctActions db.actions → DistinctActions db'.actions) := by
  obtain ⟨w, dbw, hwrote, hproposes⟩ := h.published hb
  obtain ⟨ports, p, p', hactions, hk, hlinked, hop, hactions', hartifacts⟩ := hproposes hcompleted
  obtain ⟨-, hclose⟩ := hwrote.ends.resolve_right fun hfailed => hfailed.1 hcompleted
  obtain ⟨hall, hdistinct, -⟩ := publishExternalActions_stands hk hlinked hop
  obtain ⟨hclosed, hsame⟩ := closeCompleted_keeps hclose
  rw [markCommitted_eq_ok h.mark]
  change (∀ proposal ∈ _, ∃ a ∈ db₂.actions, Stands input db₂.artifacts proposal a) ∧
    (_ → DistinctActions db₂.actions)
  rw [hclosed, hsame, hactions']
  refine ⟨fun proposal hproposal => ?_, fun hd => hdistinct (by rwa [hactions, h.records.actions])⟩
  obtain ⟨a, ha, hstands⟩ := hall proposal hproposal
  exact ⟨a, ha, hstands.mono hartifacts⟩

theorem Commits.distinct (hw : Work.Coherent P db.Placed db.work) (hb : Backed db)
    (hf : WellFormed db) (hd : DistinctActions db.actions)
    (h : Commits P env input submissionDigest disposition locked db db₁ db₂ db') :
    DistinctActions db'.actions := by
  by_cases hcompleted : input.status = .completed
  · exact (h.stands hb hcompleted).2 hd
  · obtain ⟨w, dbw, hwrote, hends, -, -⟩ := h.ends hw hb (connectionsPlaced hw hf)
    obtain ⟨first, -, hdescribes⟩ := hwrote.describes
    have hnone : w.actions = [] := by
      rw [hdescribes.failed hcompleted]
      rfl
    rwa [hends.actions, hnone, List.append_nil]

end

/-- No two actions of an installation have a key in common. -/
theorem reachable_distinct (h : (installation P).Reachable s) : DistinctActions s.db.actions := by
  refine h.invariant_of (I := fun s => DistinctActions s.db.actions)
    (fun s (hs : InitialInstallation P s) => ?_) fun s l t hr hd hst => ?_
  · rw [hs.state.actions]
    exact List.Pairwise.nil
  · have hs := reachable_installed hr
    have hstep : InstallationStep P s l t := hst
    rcases hstep.serves hs.reserved hs.attempts with ⟨k, -, hk, hmoves⟩ | hserves
    · rcases hk.commits hs.sound hmoves with
        ⟨hactions, -⟩ | ⟨env, input, digest, disposition, locked, db₁, db₂, hc⟩
      · rwa [hactions]
      · exact hc.distinct hs.sound.coherent hs.sound.backed hs.sound.wellFormed hd
    · exact hd.of_asProposed hserves.actions

/-! ## The law -/

/-- The grant a proposal's handle decodes to. -/
def ExternalActionProposal.grantId (P : Platform) (proposal : ExternalActionProposal) :
    Option Uuid :=
  (decodeCapabilityGrantHandle P proposal.capabilityHandle).bind P.uuidOf

/-- Whether two proposals agree in what is not compared. -/
def agreesWith (P : Platform) (p q : ExternalActionProposal) : Bool :=
  p.actionType = q.actionType && p.idempotencyKey = q.idempotencyKey &&
    p.grantId P = q.grantId P

/-- Whether the proposals of one id agree. -/
def agreeingProposals (P : Platform) (proposals : List ExternalActionProposal) : Bool :=
  proposals.all fun p => proposals.all fun q => p.proposalId ≠ q.proposalId || agreesWith P p q

/-- Each proposal has an action that is what it describes, nothing else is inserted, and no other
action has the key of one. -/
structure PersistsActions (P : Platform) (input : ProposedExecutionResult) (db db' : Db) : Prop where
  each : ∀ proposal ∈ input.externalActionProposals,
    ∃ a ∈ db'.actions, IsAction P input db'.artifacts proposal a
  only : ∃ new, db'.actions = db.actions ++ new ∧ ∀ a ∈ new,
    ∃ proposal ∈ input.externalActionProposals, IsAction P input db'.artifacts proposal a
  unique : ∀ a ∈ db'.actions, ∀ b ∈ db'.actions, SameKey a b → a = b

theorem mem_firstProposals {seen : List Uuid} {proposals : List ExternalActionProposal}
    {p : ExternalActionProposal} (h : p ∈ firstProposals seen proposals) : p ∈ proposals := by
  induction proposals generalizing seen with
  | nil => simp [firstProposals] at h
  | cons q proposals ih =>
    rw [firstProposals] at h
    split at h
    · exact List.mem_cons_of_mem q (ih h)
    · rcases List.mem_cons.1 h with rfl | h
      · exact List.mem_cons_self
      · exact List.mem_cons_of_mem q (ih h)

theorem IsAction.grantId {artifacts : List Artifact} {proposal : ExternalActionProposal}
    {action : ExternalAction} (h : IsAction P input artifacts proposal action) :
    proposal.grantId P = some action.capabilityGrantId := by
  obtain ⟨handle, hhandle, hid⟩ := h.grant
  simp [ExternalActionProposal.grantId, hhandle, hid]

/-- An action that is what a proposal describes, and stands for one that agrees with it, is what
that one describes. -/
theorem IsAction.of_stands {artifacts : List Artifact} {p q : ExternalActionProposal}
    {action : ExternalAction} (h : IsAction P input artifacts q action)
    (hstands : Stands input artifacts p action) (hagrees : agreesWith P p q) :
    IsAction P input artifacts p action := by
  simp only [agreesWith, Bool.and_eq_true, decide_eq_true_eq] at hagrees
  have hgrant : p.grantId P = some action.capabilityGrantId := hagrees.2.trans h.grantId
  refine ⟨h.executionId, h.attemptId, hstands.proposalId, Option.bind_eq_some_iff.1 hgrant,
    hstands.request, h.actionType.trans hagrees.1.1.symm, h.idempotencyKey.trans hagrees.1.2.symm,
    hstands.risk, h.status, h.approvalId⟩

/-- The actions of a commit are those of its first proposals. -/
theorem Commits.inserts {submissionDigest : Digest} {disposition : CommitDisposition}
    {locked : Locked} {db₁ db₂ : Db} (hw : Work.Coherent P db.Placed db.work) (hb : Backed db)
    (hf : WellFormed db) (hcompleted : input.status = .completed)
    (h : Commits P env input submissionDigest disposition locked db db₁ db₂ db') :
    ∃ new, db'.actions = db.actions ++ new ∧ ∀ a ∈ new,
      ∃ proposal ∈ input.externalActionProposals, IsAction P input db'.artifacts proposal a := by
  obtain ⟨w, dbw, hwrote, hends, -, hartifacts⟩ := h.ends hw hb (connectionsPlaced hw hf)
  obtain ⟨first, -, hdescribes⟩ := hwrote.describes
  obtain ⟨rows, outputs, events, -, -, -, -, -, -, hactions⟩ := hdescribes.completed hcompleted
  refine ⟨w.actions, hends.actions, fun a ha => ?_⟩
  obtain ⟨proposal, hproposal, hisAction⟩ := exists_of_forall₂ hactions ha
  exact ⟨proposal, mem_firstProposals hproposal, hartifacts ▸ hisAction⟩

theorem Commits.persists_iff {submissionDigest : Digest} {disposition : CommitDisposition}
    {locked : Locked} {db₁ db₂ : Db} (hs : (installation P).Reachable s)
    (hcompleted : input.status = .completed)
    (h : Commits P env input submissionDigest disposition locked s.db db₁ db₂ db') :
    PersistsActions P input s.db db' ↔ agreeingProposals P input.externalActionProposals := by
  have hsound := (reachable_installed hs).sound
  have hd := h.distinct hsound.coherent hsound.backed hsound.wellFormed (reachable_distinct hs)
  obtain ⟨new, hnew, hinserted⟩ :=
    h.inserts hsound.coherent hsound.backed hsound.wellFormed hcompleted
  simp only [agreeingProposals, List.all_eq_true, Bool.or_eq_true, decide_eq_true_eq]
  constructor
  · intro hpersists p hp q hq
    by_cases hid : p.proposalId = q.proposalId
    · obtain ⟨a, ha, hpa⟩ := hpersists.each p hp
      obtain ⟨b, hb, hqb⟩ := hpersists.each q hq
      obtain rfl := hd.eq ha hb (sameAction_iff.2 (Or.inr
        ⟨hpa.attemptId.trans hqb.attemptId.symm,
          hpa.proposalId.trans (hid.trans hqb.proposalId.symm)⟩))
      refine Or.inr ?_
      simp [agreesWith, ← hpa.actionType, ← hqb.actionType, ← hpa.idempotencyKey,
        ← hqb.idempotencyKey, hpa.grantId, hqb.grantId]
    · exact Or.inl hid
  · intro hagree
    refine ⟨fun p hp => ?_, ⟨new, hnew, hinserted⟩, fun a ha b hb hkey =>
      hd.eq ha hb (sameAction_iff.2 (Or.inl hkey))⟩
    obtain ⟨a, ha, hstands⟩ := (h.stands hsound.backed hcompleted).1 p hp
    -- the attempt had no action before the commit
    have hnew' : a ∈ new := by
      rcases List.mem_append.1 (hnew ▸ ha) with hold | hnew'
      · exact absurd (hstands.attemptId ▸ hsound.backed.actions a hold)
          (h.not_committed hsound.backed)
      · exact hnew'
    obtain ⟨q, hq, hqa⟩ := hinserted a hnew'
    have hid : p.proposalId = q.proposalId := hstands.proposalId.symm.trans hqa.proposalId
    exact ⟨a, ha, hqa.of_stands hstands ((hagree p hp q hq).resolve_left (by simpa using hid))⟩

/-- A commit that fails leaves everything but its submission. -/
theorem commit_error {submissionDigest : Digest} {e : RuntimeError}
    (h : commitTx P env input submissionDigest db = .error e) :
    ∃ submissions, (commit P env input submissionDigest db).2 = { db with submissions } := by
  unfold commit
  rw [h]
  dsimp only
  split
  · exact ⟨_, rfl⟩
  · exact ⟨db.submissions, rfl⟩

theorem proposals_persisted {submissionDigest : Digest} (hs : (installation P).Reachable s)
    (hcompleted : input.status = .completed) :
    (∀ disposition db', commitTx P env input submissionDigest s.db = .ok (disposition, db') →
      disposition ≠ .duplicate →
        (PersistsActions P input s.db db' ↔ agreeingProposals P input.externalActionProposals)) ∧
    (∀ e, commitTx P env input submissionDigest s.db = .error e →
      ∃ submissions, (commit P env input submissionDigest s.db).2 = { s.db with submissions }) ∧
    ∀ a ∈ s.db.actions, ∀ b ∈ s.db.actions, SameKey a b → a = b := by
  refine ⟨fun disposition db' hop hne => ?_, fun e hop => commit_error hop, fun a ha b hb hkey =>
    (reachable_distinct hs).eq ha hb (sameAction_iff.2 (Or.inl hkey))⟩
  rcases commitTx_eq_ok hop with ⟨rfl, -⟩ | ⟨locked, db₁, db₂, hc⟩
  · exact absurd rfl hne
  · exact hc.persists_iff hs hcompleted

/-- The first attempt of the shop has handed off a result that proposes actions. -/
def shopHandedOff (proposals : List ExternalActionProposal) : List InstallationAction :=
  shopStaged ++
    [.runtime (.handoff { plantResult .completed 1003 1006 1007 with
      externalActionProposals := proposals })]

/-- The commit of the one submission there is. -/
def shopCommits (s : Installation) :
    Option (WorkerResultSubmission × CommitDisposition × Db) :=
  s.db.submissions.head?.bind fun submission =>
    (commitTx shopPlatform (commitEnv s.toState plantStores false) submission.result
      submission.submissionDigest s.db).toOption.map fun result => (submission, result)

theorem shopCommits_eq_some {submission : WorkerResultSubmission} {disposition : CommitDisposition}
    (h : shopCommits s = some (submission, disposition, db)) :
    commitTx shopPlatform (commitEnv s.toState plantStores false) submission.result
      submission.submissionDigest s.db = .ok (disposition, db) := by
  obtain ⟨submission', -, h⟩ := Option.bind_eq_some_iff.1 h
  obtain ⟨result, hop, heq⟩ := Option.map_eq_some_iff.1 h
  obtain ⟨rfl, rfl⟩ := Prod.mk.inj heq
  revert hop
  cases commitTx shopPlatform (commitEnv s.toState plantStores false) submission'.result
      submission'.submissionDigest s.db with
  | error e => simp [Except.toOption]
  | ok r => simp [Except.toOption]

/-- Two proposals of their own ids and keys are persisted. -/
theorem proposals_persisted_shop : ∃ s submission db',
    performs shopPlatform (fun _ _ => true) (shop []) (shopHandedOff [shopProposal 800 "mail",
        { shopProposal 801 "mail" with idempotencyKey := "other" }]) = some s ∧
      shopCommits s = some (submission, .committed, db') ∧ db'.actions.length = 2 ∧
        PersistsActions shopPlatform submission.result s.db db' := by
  have hsome : ((performs shopPlatform (fun _ _ => true) (shop []) (shopHandedOff
      [shopProposal 800 "mail", { shopProposal 801 "mail" with idempotencyKey := "other" }])).bind
        fun s => (shopCommits s).map fun c => (c.1.result.status, c.2.1,
          agreeingProposals shopPlatform c.1.result.externalActionProposals,
          c.2.2.actions.length)) =
      some (.completed, .committed, true, 2) := rfl
  obtain ⟨s, hs, hsome⟩ := Option.bind_eq_some_iff.1 hsome
  obtain ⟨⟨submission, disposition, db'⟩, hcommits, heq⟩ := Option.map_eq_some_iff.1 hsome
  simp only [Prod.mk.injEq] at heq
  obtain ⟨hcompleted, rfl, hagree, hlength⟩ := heq
  have hr : (installation shopPlatform).Reachable s :=
    (performs_reachable (shop_initial (by simp) (by decide) (by simp)) hs).of_restrict
  exact ⟨s, submission, db', hs, hcommits, hlength, ((proposals_persisted hr hcompleted).1 _ _
    (shopCommits_eq_some hcommits) (by decide)).2 hagree⟩

/-- Two proposals of one id ask for a mail and for a message, and only the mail is proposed. -/
theorem proposal_absorbed : ∃ s input submissionDigest db',
    (installation shopPlatform).Reachable s ∧ input.status = .completed ∧
      commitTx shopPlatform (commitEnv s.toState plantStores false) input submissionDigest s.db =
        .ok (.committed, db') ∧ ¬PersistsActions shopPlatform input s.db db' := by
  have hsome : ((performs shopPlatform (fun _ _ => true) (shop []) (shopHandedOff
      [shopProposal 800 "mail", shopProposal 800 "message"])).bind
        fun s => (shopCommits s).map fun c => (c.1.result.status, c.2.1,
          c.1.result.externalActionProposals.any (·.actionType = "message"),
          c.2.2.actions.all (·.actionType ≠ "message"))) =
      some (.completed, .committed, true, true) := rfl
  obtain ⟨s, hs, hsome⟩ := Option.bind_eq_some_iff.1 hsome
  obtain ⟨⟨submission, disposition, db'⟩, hcommits, heq⟩ := Option.map_eq_some_iff.1 hsome
  simp only [Prod.mk.injEq, List.any_eq_true, List.all_eq_true, decide_eq_true_eq] at heq
  obtain ⟨hcompleted, rfl, ⟨proposal, hproposal, htype⟩, hnone⟩ := heq
  refine ⟨s, submission.result, submission.submissionDigest, db',
    (performs_reachable (shop_initial (by simp) (by decide) (by simp)) hs).of_restrict, hcompleted,
    shopCommits_eq_some hcommits, fun hpersists => ?_⟩
  obtain ⟨a, ha, haction⟩ := hpersists.each proposal hproposal
  exact hnone a ha (haction.actionType.trans htype)

end FactoryFloor
